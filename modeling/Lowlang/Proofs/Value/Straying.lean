import Lowlang.Proofs.Value.Accepted

set_option autoImplicit false

/-!
# Trees that go astray

When a name is written that is no chain of words, reading takes some other name in its place.
This module shows that nothing behind that place can make up for it: the values that reading
arrives at hold their names in the order of the text, and whatever is read after a part of an
expression leaves the names in that part where they are.

Names of one word are left out of the account.  They are always read as written, and a function
behind a bar is called by one although it stands behind its first argument.
-/

namespace Lowlang.Value

open Lowlang.Expr (Token Node)
open Lowlang.Expr.Grammar (Gives GivesAt GivesFrom makesNodes)
open Lowlang.Expr.Token (ProperFrom)

/-! ## Names in order -/

/-- Whether a name has more than one part. -/
def isDotted (name : String) : Bool :=
  name.toList.contains '.'

/-- The names of more than one part in a value, in the order of its text. -/
def track (v : Value) : List String :=
  (namesIn v).filter isDotted

/-- The names of more than one part in some values. -/
def trackAll (vs : List Value) : List String :=
  (namesInAll vs).filter isDotted

theorem trackAll_cons (v : Value) (vs : List Value) :
    trackAll (v :: vs) = track v ++ trackAll vs := by
  rw [trackAll, namesInAll, List.filter_append]
  rfl

theorem track_operator (p : Pos) (op : Operator) (x y : Value) :
    track (.operator p op x y) = track x ++ track y := by
  rw [track, namesIn, List.filter_append]
  rfl

theorem track_call (p : Pos) (name : String) (args : List Value) :
    track (.call p name args) = [name].filter isDotted ++ trackAll args := by
  rw [track, namesIn, ← List.singleton_append, List.filter_append]
  rfl

theorem track_of_same {v w : Value} (h : v.same w) : track v = track w := by
  rw [track, track, (leaves_of_same w h).1]

/-- The second name is the first or a member of it. -/
def Within (k n : String) : Prop :=
  k.toList ++ ['.'] <+: n.toList ++ ['.']

theorem within_refl (n : String) : Within n n :=
  List.prefix_rfl

theorem Within.of_member {k part n : String} (h : Within (k ++ "." ++ part) n) : Within k n := by
  have hlist : (k ++ "." ++ part).toList ++ ['.']
      = (k.toList ++ ['.']) ++ (part.toList ++ ['.']) := by
    simp
  rw [Within, hlist] at h
  exact (List.prefix_append _ _).trans h

/-- The lists agree up to a place where the first has a name that the one in the second is no
member of. -/
def Parts (ns ms : List String) : Prop :=
  ∃ before k after n others, ns = before ++ k :: after ∧ ms = before ++ n :: others ∧ ¬ Within k n

theorem Parts.append {ns ms : List String} (h : Parts ns ms) (more others : List String) :
    Parts (ns ++ more) (ms ++ others) := by
  obtain ⟨before, k, after, n, rest, rfl, rfl, hkn⟩ := h
  exact ⟨before, k, after ++ more, n, rest ++ others, by simp, by simp, hkn⟩

theorem Parts.longer {ns ms : List String} (h : Parts ns ms) (more : List String) :
    Parts (ns ++ more) ms := by
  have happend := h.append more []
  rwa [List.append_nil] at happend

theorem Parts.wider {ns ms : List String} (h : Parts ns ms) (others : List String) :
    Parts ns (ms ++ others) := by
  have happend := h.append [] others
  rwa [List.append_nil] at happend

theorem Parts.behind {ns ms : List String} (h : Parts ns ms) (before : List String) :
    Parts (before ++ ns) (before ++ ms) := by
  obtain ⟨agreed, k, after, n, rest, rfl, rfl, hkn⟩ := h
  exact ⟨before ++ agreed, k, after, n, rest, by simp, by simp, hkn⟩

theorem not_parts_nil (ms : List String) : ¬ Parts [] ms := by
  rintro ⟨before, k, after, n, others, hnil, _, _⟩
  cases before <;> cases hnil

theorem not_parts_self (ns : List String) : ¬ Parts ns ns := by
  rintro ⟨before, k, after, n, others, hk, hn, hkn⟩
  rw [hk, List.append_cancel_left_eq] at hn
  cases hn
  exact hkn (within_refl k)

theorem parts_cons {k n : String} (h : ¬ Within k n) (more others : List String) :
    Parts (k :: more) (n :: others) :=
  ⟨[], k, more, n, others, rfl, rfl, h⟩

/-- A single name that parts from a list does so at its first name. -/
theorem Parts.head {k : String} {ms : List String} (h : Parts [k] ms) :
    ∃ n others, ms = n :: others ∧ ¬ Within k n := by
  obtain ⟨before, k', after, n, others, hk, rfl, hkn⟩ := h
  cases before with
  | nil =>
    cases hk
    exact ⟨n, others, rfl, hkn⟩
  | cons m before =>
    cases before <;> cases hk

/-! ## Trees -/

/-- Literals that a function behind a bar may take as they stand. -/
def isLiteralNode : Node → Bool
  | .integer _ | .string _ => true
  | _ => false

/-- What the tree means, if anything, parts from the names `ns`. -/
def Strays (ns : List String) (n : Node) : Prop :=
  ∀ o v, ofNode o n = .ok v → Parts (track v) ns

/-- What the tree means, if anything, has the names `ns`. -/
def Tracks (ns : List String) (n : Node) : Prop :=
  ∀ o v, ofNode o n = .ok v → track v = ns

/-- The tree parts from the names and is no literal. -/
structure Astray (ns : List String) (n : Node) : Prop where
  strays : Strays ns n
  literal : isLiteralNode n = false

variable {ns : List String} {n : Node}

/-- A tree without a meaning parts from everything. -/
theorem strays_of_error (h : ∀ o v, ofNode o n ≠ .ok v) : Strays ns n := by
  intro o v hv
  exact absurd hv (h o v)

theorem astray_foreign : Astray ns .foreign := by
  refine ⟨strays_of_error ?_, rfl⟩
  intro o v hv
  cases hv

theorem Strays.unary (h : Strays ns n) (op : String) : Astray ns (.unary op n) := by
  refine ⟨?_, rfl⟩
  intro o v hv
  obtain ⟨w, hw, hv⟩ := Fault.bind_ok hv
  have hparts := h o w hw
  unfold unaryOf at hv
  split at hv
  · cases hv
    rw [track_operator]
    exact hparts.longer _
  · split at hv
    · cases hv
      exact hparts
    · split at hv
      · split at hv
        · exact absurd hparts (not_parts_nil ns)
        · cases hv
          rw [track_operator]
          exact hparts
      · cases hv

/-- The value of an operator between two operands holds the names of both. -/
theorem track_binaryOf {o : Origin} {op : String} {x y v : Value} (h : binaryOf o op x y = .ok v) :
    track v = track x ++ track y := by
  unfold binaryOf at h
  split at h
  · cases h
    rw [track_operator, track_operator]
    exact List.append_nil _
  · split at h
    · cases h
      rw [track_operator]
    · cases h

theorem Strays.binary (h : Strays ns n) (op : String) (m : Node) :
    Astray ns (.binary op n m) := by
  refine ⟨?_, rfl⟩
  intro o v hv
  obtain ⟨w, hw, hv⟩ := Fault.bind_ok hv
  obtain ⟨u, hu, hv⟩ := Fault.bind_ok hv
  rw [track_binaryOf hv]
  exact (h o w hw).longer _

/-- Behind an operand that means what it should, the other parts from the names behind its own. -/
theorem Strays.binaryBehind {m : Node} {before : List String} (h : Strays ns m)
    (hn : Tracks before n) (op : String) :
    Astray (before ++ ns) (.binary op n m) := by
  refine ⟨?_, rfl⟩
  intro o v hv
  obtain ⟨w, hw, hv⟩ := Fault.bind_ok hv
  obtain ⟨u, hu, hv⟩ := Fault.bind_ok hv
  rw [track_binaryOf hv, hn o w hw]
  exact (h o u hu).behind before

/-! ## Calls -/

/-- What the trees mean, if anything, parts from the names `ns`. -/
def StraysAll (ns : List String) (args : List Node) : Prop :=
  ∀ o vs, ofNodes o args = .ok vs → Parts (trackAll vs) ns

theorem Strays.cons (h : Strays ns n) (more : List Node) : StraysAll ns (n :: more) := by
  intro o vs hvs
  obtain ⟨v, hv, hvs⟩ := Fault.bind_ok hvs
  obtain ⟨us, _, hvs⟩ := Fault.bind_ok hvs
  cases hvs
  rw [trackAll_cons]
  exact (h o v hv).longer _

/-- Behind a tree that means what it should, others part from the names behind its own. -/
theorem StraysAll.behind {more : List Node} {before : List String} (h : StraysAll ns more)
    (hn : Tracks before n) :
    StraysAll (before ++ ns) (n :: more) := by
  intro o vs hvs
  obtain ⟨v, hv, hvs⟩ := Fault.bind_ok hvs
  obtain ⟨us, hus, hvs⟩ := Fault.bind_ok hvs
  cases hvs
  rw [trackAll_cons, hn o v hv]
  exact (h o us hus).behind before

theorem Strays.array {args : List Node} (h : StraysAll ns args) : Astray ns (.array args) := by
  refine ⟨?_, rfl⟩
  intro o v hv
  obtain ⟨vs, hvs, hv⟩ := Fault.bind_ok hv
  cases hv
  exact h o vs hvs

theorem isDotted_of_bitwise {f : String} {op : Operator} (h : bitwiseFunction f = some op) :
    isDotted f = false := by
  unfold bitwiseFunction at h
  split at h
  all_goals first
    | rfl
    | cases h

/-- The value of a call holds the names of its arguments behind its own. -/
theorem track_callOf {o : Origin} {f : String} {args : List Value} {v : Value}
    (h : callOf o f args = .ok v) : track v = [f].filter isDotted ++ trackAll args := by
  unfold callOf at h
  split at h
  · cases h
    exact track_call _ _ _
  · rename_i op hop
    have hf : [f].filter isDotted = [] := by
      rw [List.filter_cons, isDotted_of_bitwise hop]
      rfl
    rw [hf, List.nil_append]
    split at h
    · split at h
      · cases h
        rw [track_operator, trackAll_cons]
        rfl
      · cases h
    · split at h
      · cases h
        rw [track_operator, trackAll_cons, trackAll_cons]
        exact congrArg _ (List.append_nil _).symm
      · cases h
    · cases h

/-- A call whose arguments go astray goes astray, unless it is a literal. -/
theorem parts_call {o : Origin} {f : String} {args : List Node} {v : Value}
    (hargs : StraysAll ns args)
    (hf : isLiteralFunction f = true → ∀ o v, literalCall o f args ≠ .ok v)
    (h : (if isLiteralFunction f then literalCall o f args
      else do
        let vs ← ofNodes o args
        callOf o f vs) = .ok v) :
    Parts (track v) ([f].filter isDotted ++ ns) := by
  by_cases hliteral : isLiteralFunction f = true
  · rw [if_pos hliteral] at h
    exact absurd h (hf hliteral o v)
  · rw [if_neg hliteral] at h
    obtain ⟨vs, hvs, h⟩ := Fault.bind_ok h
    rw [track_callOf h]
    exact (hargs o vs hvs).behind _

theorem StraysAll.builtin {f : String} {args : List Node} (hargs : StraysAll ns args)
    (hf : isLiteralFunction f = true → ∀ o v, literalCall o f args ≠ .ok v) :
    Astray ([f].filter isDotted ++ ns) (.builtin f args) := by
  refine ⟨?_, rfl⟩
  intro o v hv
  exact parts_call hargs hf hv

theorem StraysAll.call {callee : Node} {f : String} {args : List Node}
    (hargs : StraysAll ns args) (hcallee : ∀ o g, calleeName o callee = .ok g → g = f)
    (hf : isLiteralFunction f = true → ∀ o v, literalCall o f args ≠ .ok v) :
    Astray ([f].filter isDotted ++ ns) (.call callee args) := by
  refine ⟨?_, rfl⟩
  intro o v hv
  obtain ⟨g, hg, hv⟩ := Fault.bind_ok hv
  cases hcallee o g hg
  exact parts_call hargs hf hv

/-- A literal function takes nothing but a literal. -/
theorem literalCall_ne_ok (hn : isLiteralNode n = false) (f : String) (more : List Node)
    (o : Origin) (v : Value) : literalCall o f (n :: more) ≠ .ok v := by
  intro h
  unfold literalCall typeLiteral typedLiteral at h
  cases more with
  | nil =>
    cases n with
    | integer _ => cases hn
    | string _ => cases hn
    | _ => split at h <;> cases h
  | cons m more =>
    cases n <;> split at h <;> cases h

theorem filter_word {w : String} (hw : Token.IsWord w) : [w].filter isDotted = [] := by
  have hdotted : isDotted w = false := by
    rw [isDotted, List.contains_eq_mem, decide_eq_false_iff_not]
    exact fun hmem => ne_point_of_isIdentifier hw.identifier '.' hmem rfl
  rw [List.filter_cons, hdotted]
  rfl

/-- A tree gone astray is the first argument of functions behind bars. -/
theorem Astray.builtin (h : Astray ns n) {w : String} (hw : Token.IsWord w) (more : List Node) :
    Astray ns (.builtin w (n :: more)) := by
  have hcall := (h.strays.cons more).builtin (f := w) fun _ => literalCall_ne_ok h.literal w more
  rwa [filter_word hw] at hcall

theorem Astray.call (h : Astray ns n) {w : String} (hw : Token.IsWord w) (more : List Node) :
    Astray ns (.call (.ident w) (n :: more)) := by
  have hcall : Astray ([w].filter isDotted ++ ns) (.call (.ident w) (n :: more)) :=
    (h.strays.cons more).call (fun _ _ hg => (Except.ok.inj hg).symm)
      fun _ => literalCall_ne_ok h.literal w more
  rwa [filter_word hw] at hcall

/-! ## Members -/

theorem isLink_of_staticName {name : String} (h : staticName n = some name) :
    Expr.Grammar.isLink n := by
  cases n with
  | ident base => rfl
  | member object property optional => rfl
  | _ => cases h

theorem track_name {name : String} (h : isDotted name) (p : Pos) :
    track (.name p name) = [name] := by
  rw [track, namesIn, List.filter_cons, if_pos h]
  rfl

theorem segments_of_isDotted {name : String} (h : isDotted name) :
    (Token.segments name.toList).2 ≠ [] := by
  rw [isDotted, List.contains_iff_mem] at h
  obtain ⟨before, after, hname⟩ := List.append_of_mem h
  rw [hname, segments_point]
  simp

/-- A chain of members that leads away from a name goes astray. -/
theorem astray_name {k m : String} (hk : staticName n = some k) (hdotted : isDotted k)
    (hm : ¬ Within k m) (others : List String) : Astray (m :: others) n := by
  have hlink := isLink_of_staticName hk
  refine ⟨?_, ?_⟩
  · intro o v hv
    rw [(ofNode_link hlink hk o).1] at hv
    cases hv
    rw [track_name hdotted]
    exact parts_cons hm _ _
  · cases n with
    | ident base => rfl
    | member object property optional => rfl
    | _ => cases hlink

/-- So does a call of such a chain. -/
theorem astray_nameCall {k m : String} (hk : staticName n = some k) (hdotted : isDotted k)
    (hm : ¬ Within k m) (args : List Node) (others : List String) :
    Astray (m :: others) (.call n args) := by
  refine ⟨?_, rfl⟩
  intro o v hv
  obtain ⟨f, hf, hv⟩ := Fault.bind_ok hv
  rw [(ofNode_link (isLink_of_staticName hk) hk o).2] at hf
  cases hf
  rw [(special_of_segments (segments_of_isDotted hdotted)).1] at hv
  obtain ⟨vs, _, hv⟩ := Fault.bind_ok hv
  rw [track_callOf hv, List.filter_cons, if_pos hdotted]
  exact parts_cons hm _ _

/-- A member of a tree that parts from the names has a name that does so as well. -/
theorem Strays.member_name (h : Strays ns n) {property : Node} {optional : Bool} {name : String}
    (hname : staticName (.member n property optional) = some name) :
    isDotted name ∧ ∃ m others, ns = m :: others ∧ ¬ Within name m := by
  obtain ⟨base, part, hbase, _, _, rfl⟩ := staticName_member hname
  refine ⟨by simp [isDotted], ?_⟩
  have hparts := h ⟨"", .none⟩ _ (ofNode_link (isLink_of_staticName hbase) hbase _).1
  by_cases hdotted : isDotted base
  · rw [track_name hdotted] at hparts
    obtain ⟨m, others, rfl, hm⟩ := hparts.head
    exact ⟨m, others, rfl, fun hwithin => hm hwithin.of_member⟩
  · have htrack : track (.name .none base) = [] := by
      rw [track, namesIn, List.filter_cons, if_neg hdotted]
      rfl
    rw [htrack] at hparts
    exact absurd hparts (not_parts_nil ns)

theorem Strays.member (h : Strays ns n) (property : Node) (optional : Bool) :
    Astray ns (.member n property optional) := by
  cases hname : staticName (.member n property optional) with
  | none =>
    refine ⟨strays_of_error ?_, rfl⟩
    intro o v hv
    rw [ofNode, hname] at hv
    cases hv
  | some name =>
    obtain ⟨hdotted, m, others, rfl, hm⟩ := h.member_name hname
    exact astray_name hname hdotted hm others

theorem Strays.memberCall (h : Strays ns n) (property : Node) (optional : Bool)
    (args : List Node) : Astray ns (.call (.member n property optional) args) := by
  cases hname : staticName (.member n property optional) with
  | none =>
    refine ⟨strays_of_error ?_, rfl⟩
    intro o v hv
    obtain ⟨f, hf, _⟩ := Fault.bind_ok hv
    rw [calleeName, hname] at hf
    cases hf
  | some name =>
    obtain ⟨hdotted, m, others, rfl, hm⟩ := h.member_name hname
    exact astray_nameCall hname hdotted hm args others

theorem Strays.chain (h : Strays ns n) : Astray ns (.chain n) :=
  ⟨h, rfl⟩

/-! ## What is read behind a tree -/

section

open Lowlang.Expr.Grammar

/-- A subscript of a tree that parts from the names goes astray. -/
theorem Strays.subscript (hn : Strays ns n) (fuel : Nat) (inside optional : Bool) :
    Gives (subscript fuel inside n optional) (Astray ns) := by
  cases fuel with
  | zero => exact .failure
  | succ fuel =>
    have hmakes := (makesNodes fuel).expression inside 0
    have hslice : Gives (do
        if ← at? (.bracket ']') then pure () else
          let _ ← expression fuel inside 0
        expect (.bracket ']')
        make .foreign) (Astray ns) := by
      have hend : Gives (do expect (.bracket ']'); make .foreign) (Astray ns) :=
        (Gives.expect rfl).bind fun _ _ => .make astray_foreign
      exact .lookAhead hend.at (hmakes.bind fun _ _ => hend)
    rw [Expr.Grammar.subscript]
    refine (Gives.expect rfl).bind fun _ _ => .lookAhead (.advance rfl hslice) ?_
    refine hmakes.bind fun i _ => .lookAhead (.advance rfl hslice) ?_
    refine (Gives.expect rfl).bind fun _ _ => .made ?_
    have hmember := hn.member i optional
    exact .ite (fun _ => .make hmember.strays.chain) fun _ => .pure hmember

/-- A named part of a tree that parts from the names goes astray. -/
theorem Strays.property (hn : Strays ns n) (fuel : Nat) (inside optional : Bool) :
    Gives (property fuel inside n optional) (Astray ns) := by
  cases fuel with
  | zero => exact .failure
  | succ fuel =>
    have hpart : ∀ (object : Node) (name : String) (chained : Bool), Strays ns object → Gives (do
        let m ← make (.member object (.string name) optional)
        let m ← if ← at? (.bracket '(') then do
            advance
            let args ← items fuel inside ')' []
            make (.call m args)
          else pure m
        if chained || optional then make (.chain m) else return m) (Astray ns) := by
      intro object name chained hobject
      have hend : ∀ m, Astray ns m →
          Gives (if chained || optional then make (.chain m) else return m) (Astray ns) := by
        intro m hm
        exact .ite (fun _ => .make hm.strays.chain) fun _ => .pure hm
      refine .made (.lookAhead (.advance rfl ?_) (hend _ (hobject.member _ optional)))
      refine ((makesNodes fuel).items inside ')' [] rfl trivial).bind fun args _ => .made ?_
      exact hend _ (hobject.memberCall _ optional args)
    unfold Expr.Grammar.property
    refine Gives.propertyName.bind fun name _ => .made ?_
    cases n with
    | chain inner => exact hpart inner name true hn
    | _ => exact hpart _ name false hn

/-- What the readers make of a tree gone astray with a given number of steps goes astray. -/
structure KeepsAstray (ns : List String) (fuel : Nat) : Prop where
  operators : ∀ inside least last left, Astray ns left →
    Gives (operators fuel inside least last left) (Astray ns)
  comparison : ∀ inside op left so, (so = none → Astray ns left) → (∀ n ∈ so, Astray ns n) →
    Gives (comparison fuel inside op left so) (Astray ns)
  choice : ∀ inside test, Astray ns test → Gives (choice fuel inside test) (Astray ns)
  call : ∀ inside w n, Token.IsWord w → Astray ns n →
    Gives (Expr.Grammar.call fuel inside w [n]) (Astray ns)
  accesses : ∀ inside n, Astray ns n → Gives (accesses fuel inside n) (Astray ns)

theorem KeepsAstray.zero : KeepsAstray ns 0 := by
  constructor <;> intros <;> exact .failure

section

variable {fuel : Nat} (h : KeepsAstray ns fuel) (inside : Bool)

include h

theorem keeps_operators (least : Nat) (last : String) (left : Node) (hleft : Astray ns left) :
    Gives (operators (fuel + 1) inside least last left) (Astray ns) := by
  rw [Expr.Grammar.operators]
  refine .operatorAt (.pure hleft) fun op negated tokens c hc => ?_
  refine .modify hc ?_
  refine .ite (fun _ => ?_) fun _ => .ite (fun _ => .failure) fun _ =>
    .ite (fun _ => ?_) fun _ => ?_
  · refine Gives.expectWord.bind fun w hw => ?_
    refine (h.call inside w left hw hleft).bind fun n hn => ?_
    exact h.operators inside least op n hn
  · refine (h.comparison inside op left none (fun _ => hleft) fun _ hn => absurd hn (by simp)).bind
      fun n hn => ?_
    exact h.operators inside least op n hn
  · refine ((makesNodes fuel).expression inside _).bind fun right _ => .made ?_
    have hpair := hleft.strays.binary op right
    dsimp only
    refine .ite (fun _ => .made ?_) fun _ => ?_
    · exact h.operators inside least op _ (hpair.strays.unary "not")
    · exact h.operators inside least op _ hpair

theorem keeps_comparisonRest (right all : Node) (hall : Astray ns all) :
    Gives (comparisonRest fuel inside right all) (Astray ns) := by
  refine .peek fun next => ?_
  split
  · rename_i s
    refine .ite (fun hs => ?_) fun _ => Gives.at (.pure hall)
    refine .advance (isHash_of_isComparison hs) ?_
    refine h.comparison inside s right (some all) (fun hnone => nomatch hnone) fun n hn => ?_
    exact Option.mem_some.mp hn ▸ hall
  · exact Gives.at (.pure hall)

theorem keeps_comparison (op : String) (left : Node) (so : Option Node)
    (hleft : so = none → Astray ns left) (hso : ∀ n ∈ so, Astray ns n) :
    Gives (comparison (fuel + 1) inside op left so) (Astray ns) := by
  rw [Expr.Grammar.comparison]
  refine ((makesNodes fuel).expression inside 21).bind fun right _ => .made ?_
  cases so with
  | none => exact keeps_comparisonRest h inside right _ ((hleft rfl).strays.binary op right)
  | some n =>
    exact .made (keeps_comparisonRest h inside right _ ((hso n rfl).strays.binary "&&" _))

theorem keeps_choice (test : Node) (htest : Astray ns test) :
    Gives (choice (fuel + 1) inside test) (Astray ns) := by
  have hmakes := (makesNodes fuel).expression inside 0
  rw [Expr.Grammar.choice]
  refine .lookAhead (.advance rfl ?_) (.pure htest)
  refine .lookAhead (.advance rfl ?_) ?_
  · exact hmakes.bind fun _ _ => .made (h.choice inside .foreign astray_foreign)
  · refine hmakes.bind fun _ _ => (Gives.expect rfl).bind fun _ _ => ?_
    exact hmakes.bind fun _ _ => .made (h.choice inside .foreign astray_foreign)

theorem keeps_call (w : String) (n : Node) (hw : Token.IsWord w) (hn : Astray ns n) :
    Gives (Expr.Grammar.call (fuel + 1) inside w [n]) (Astray ns) := by
  rw [Expr.Grammar.call]
  cases hshape : Node.predicateShape w with
  | some shape =>
    refine (Gives.expect rfl).bind fun _ _ => ?_
    refine ((makesNodes fuel).predicateArgs inside true _).bind fun args _ => ?_
    have hgo : Gives (do
        expect (.bracket ')')
        let n ← make (.builtin w ([n] ++ args))
        accesses fuel inside n) (Astray ns) :=
      (Gives.expect rfl).bind fun _ _ => .made (h.accesses inside _ (hn.builtin hw args))
    exact .lookAhead (.advance rfl hgo) hgo
  | none =>
    have hitems := (makesNodes fuel).items inside ')' [] rfl trivial
    refine .ite (fun _ => ?_) fun _ => .made ?_
    · refine (Gives.expect rfl).bind fun _ _ => hitems.bind fun args _ => .made ?_
      exact h.accesses inside _ (hn.builtin hw args)
    · refine (Gives.expect rfl).bind fun _ _ => hitems.bind fun args _ => .made ?_
      exact h.accesses inside _ (hn.call hw args)

theorem keeps_accesses (n : Node) (hn : Astray ns n) :
    Gives (accesses (fuel + 1) inside n) (Astray ns) := by
  refine .accesses (fun optional => ?_) (fun optional => ?_) hn
  · exact (hn.strays.subscript fuel inside optional).bind fun m hm => h.accesses inside m hm
  · exact (hn.strays.property fuel inside optional).bind fun m hm => h.accesses inside m hm

end

/-- Whatever is read behind a tree gone astray does not bring it back. -/
theorem keepsAstray (ns : List String) (fuel : Nat) : KeepsAstray ns fuel := by
  induction fuel with
  | zero => exact .zero
  | succ fuel ih =>
    exact ⟨keeps_operators ih, keeps_comparison ih, keeps_choice ih, keeps_call ih,
      keeps_accesses ih⟩

/-! ## Where reading is stuck -/

/-- Tokens that no expression goes on with to a meaning: nothing but a meaningless range takes
up the points of a range. -/
def isStuck : Token → Bool
  | .number _ => true
  | .bracket c => c == '('
  | .op s => s == ".."
  | _ => false

/-- Reading stands before such a token. -/
def Stuck (rest : List Token) : Prop :=
  ∃ t ts, rest = t :: ts ∧ isStuck t

/-- What was read is astray, or there is no way to go on. -/
def Lost (ns : List String) (n : Node) (rest : List Token) : Prop :=
  Astray ns n ∨ Stuck rest

theorem isStuck_cases {t : Token} (h : isStuck t) :
    (∃ text, t = .number text) ∨ t = .bracket '(' ∨ t = .op ".." := by
  cases t with
  | number text => exact .inl ⟨text, rfl⟩
  | bracket c => exact .inr (.inl (congrArg Token.bracket (beq_iff_eq.mp h)))
  | op s => exact .inr (.inr (congrArg Token.op (beq_iff_eq.mp h)))
  | _ => cases h

theorem astray_range (left right : Node) : Astray ns (.binary ".." left right) := by
  refine ⟨strays_of_error ?_, rfl⟩
  intro o v hv
  obtain ⟨w, _, hv⟩ := Fault.bind_ok hv
  obtain ⟨u, _, hv⟩ := Fault.bind_ok hv
  cases hv

theorem accesses_stuck {c : Cursor} (h : Stuck c.rest) (fuel : Nat) (inside : Bool) (n : Node) :
    (accesses (fuel + 1) inside n).run c = some (n, c) := by
  obtain ⟨rest, made⟩ := c
  obtain ⟨t, ts, rfl, ht⟩ := h
  rcases isStuck_cases ht with ⟨text, rfl⟩ | rfl | rfl <;> rfl

theorem choice_stuck {c : Cursor} (h : Stuck c.rest) (fuel : Nat) (inside : Bool) (n : Node) :
    (choice (fuel + 1) inside n).run c = some (n, c) := by
  obtain ⟨rest, made⟩ := c
  obtain ⟨t, ts, rfl, ht⟩ := h
  rcases isStuck_cases ht with ⟨text, rfl⟩ | rfl | rfl <;> rfl

theorem sequenceRest_stuck {c : Cursor} (h : Stuck c.rest) (fuel : Nat) (inside : Bool) :
    (sequenceRest (fuel + 1) inside).run c = some (false, c) := by
  obtain ⟨rest, made⟩ := c
  obtain ⟨t, ts, rfl, ht⟩ := h
  rcases isStuck_cases ht with ⟨text, rfl⟩ | rfl | rfl <;> rfl

/-- Where reading is stuck, there is no operator but that of a range, which has no meaning. -/
theorem operators_stuck {c c' : Cursor} (h : Stuck c.rest) (hc : ProperFrom false c.rest)
    {fuel least : Nat} {inside : Bool} {last : String} {m : Node}
    (hm : (operators (fuel + 1) inside least last n).run c = some (m, c')) :
    Lost ns m c'.rest := by
  obtain ⟨t, ts, hrest, ht⟩ := h
  rw [Expr.Grammar.operators, StateT.run_bind] at hm
  obtain ⟨⟨o, d⟩, ho, hm⟩ := Option.bind_eq_some_iff.mp hm
  have hdrop := fun op negated k => @properFrom_drop least c d op negated k hc
  obtain ⟨rfl, rfl | ⟨s, p, us, hs, hp, _, rfl⟩ | ⟨u, us, hu, _, rfl⟩⟩ := operatorAt_cases ho
  · cases hm
    exact .inr ⟨t, ts, hrest, ht⟩
  · rw [hrest] at hs
    cases hs
    rcases isStuck_cases ht with ⟨text, htext⟩ | hbracket | hrange
    · cases htext
    · cases hbracket
    · cases hrange
      have hread : Gives (do
          let right ← expression fuel inside 26
          let n ← make (.binary ".." n right)
          operators fuel inside least ".." n) (Astray ns) := by
        refine ((makesNodes fuel).expression inside 26).bind fun right _ => .made ?_
        exact (keepsAstray ns fuel).operators inside least ".." _ (astray_range _ _)
      obtain ⟨rest, made⟩ := d
      cases hrest
      by_cases hlast : last == "??"
      · have hnone : (none : Option (Node × Cursor)) = some (m, c') := by
          rw [← hm, beq_iff_eq.mp hlast]
          rfl
        cases hnone
      · have hstep : (do
            let right ← expression fuel inside 26
            let n ← make (.binary ".." n right)
            operators fuel inside least ".." n : Reader Node).run ⟨ts, made⟩
              = some (m, c') := by
          rw [← hm]
          simp [hlast]
          rfl
        exact .inl (hread ⟨ts, made⟩ (hdrop _ _ _ ho) m c' hstep).1
  · rw [hrest] at hu
    cases hu
    cases ht

theorem Lost.accesses {c c' : Cursor} {fuel : Nat} {inside : Bool} {m : Node}
    (h : Lost ns n c.rest) (hc : ProperFrom false c.rest)
    (hm : (Expr.Grammar.accesses fuel inside n).run c = some (m, c')) : Lost ns m c'.rest := by
  rcases h with h | h
  · exact .inl ((keepsAstray ns fuel).accesses inside n h c hc m c' hm).1
  · cases fuel with
    | zero => cases hm
    | succ fuel =>
      rw [accesses_stuck h] at hm
      cases hm
      exact .inr h

theorem Lost.choice {c c' : Cursor} {fuel : Nat} {inside : Bool} {m : Node}
    (h : Lost ns n c.rest) (hc : ProperFrom false c.rest)
    (hm : (Expr.Grammar.choice fuel inside n).run c = some (m, c')) : Lost ns m c'.rest := by
  rcases h with h | h
  · exact .inl ((keepsAstray ns fuel).choice inside n h c hc m c' hm).1
  · cases fuel with
    | zero => cases hm
    | succ fuel =>
      rw [choice_stuck h] at hm
      cases hm
      exact .inr h

theorem Lost.operators {c c' : Cursor} {fuel least : Nat} {inside : Bool} {last : String}
    {m : Node} (h : Lost ns n c.rest) (hc : ProperFrom false c.rest)
    (hm : (Expr.Grammar.operators fuel inside least last n).run c = some (m, c')) :
    Lost ns m c'.rest := by
  rcases h with h | h
  · exact .inl ((keepsAstray ns fuel).operators inside least last n h c hc m c' hm).1
  · cases fuel with
    | zero => cases hm
    | succ fuel => exact operators_stuck h hc hm

theorem Lost.wider {rest : List Token} (h : Lost ns n rest) (others : List String) :
    Lost (ns ++ others) n rest := by
  refine h.imp (fun h => ⟨?_, h.literal⟩) id
  intro o v hv
  exact (h.strays o v hv).wider others

/-- A comparison whose second operand is lost is lost behind the names of the first. -/
theorem Lost.comparison {c d c' : Cursor} {fuel : Nat} {s : String} {before : List String}
    {right m : Node} (h : Lost ns right d.rest) (hd : ProperFrom false d.rest)
    (hn : Tracks before n)
    (hright : (expression fuel false 21).run c = some (right, d))
    (hm : (Expr.Grammar.comparison (fuel + 1) false s n none).run c = some (m, c')) :
    Lost (before ++ ns) m c'.rest := by
  have hrest : (comparisonRest fuel false right (.binary s n right)).run
      ⟨d.rest, d.made + 1⟩ = some (m, c') := by
    rw [← hm, Expr.Grammar.comparison, StateT.run_bind, hright]
    rfl
  rcases h with h | ⟨t, ts, hstuck, ht⟩
  · have hpair := h.strays.binaryBehind hn s
    have hkeeps := keeps_comparisonRest (keepsAstray _ fuel) false right _ hpair
    exact .inl (hkeeps ⟨d.rest, d.made + 1⟩ hd m c' hrest).1
  · rw [hstuck] at hrest
    rcases isStuck_cases ht with ⟨text, rfl⟩ | rfl | rfl
    all_goals
      cases hrest
      exact .inr ⟨_, ts, rfl, ht⟩

/-- More expressions behind one that is lost do not bring it back. -/
theorem Lost.sequence {c d c' : Cursor} {fuel : Nat} {first m : Node} (h : Lost ns first d.rest)
    (hd : ProperFrom false d.rest)
    (hfirst : (expression fuel false 0).run c = some (first, d))
    (hm : (Expr.Grammar.sequence (fuel + 1) false).run c = some (m, c')) : Lost ns m c'.rest := by
  have hrest : (do
      if ← sequenceRest fuel false then make .foreign else return first : Reader Node).run d
        = some (m, c') := by
    rw [Expr.Grammar.sequence, StateT.run_bind, hfirst] at hm
    exact hm
  rcases h with h | h
  · have hgives : Gives (do
        if ← sequenceRest fuel false then make .foreign else return first) (Astray ns) := by
      refine ((makesNodes fuel).sequenceRest false).bind fun more _ => ?_
      exact .ite (fun _ => .make astray_foreign) fun _ => .pure h
    exact .inl (hgives d hd m c' hrest).1
  · cases fuel with
    | zero => cases hfirst
    | succ fuel =>
      rw [StateT.run_bind, sequenceRest_stuck h] at hrest
      cases hrest
      exact .inr h

end

end Lowlang.Value
