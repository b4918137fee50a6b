import Lowlang.Proofs.Expr.Made
import Lowlang.Proofs.Value.RoundTrip

set_option autoImplicit false

/-!
# Values that are read

Every value that is read from a text is formed: it has a text of its own as far as its
integers, types, operators and functions go.  Two things remain open, the characters and the
parts of names: a character may be given by any number, and a member by any string.

Main statement: a formed value is expressible when its names are plain and its characters
exist.
-/

namespace Lowlang.Value

open Lowlang.Expr (Token Node)
open Lowlang.Expr.Grammar (valueWords foldingWords)
open Lowlang.Expr.Node (Made MadeAll predicateShape)

/-! ## Names -/

theorem segments_point (s t : List Char) : Token.segments (s ++ '.' :: t) =
    ((Token.segments s).1,
      (Token.segments s).2 ++ (Token.segments t).1 :: (Token.segments t).2) := by
  induction s with
  | nil => rfl
  | cons c s ih =>
    by_cases hc : c = '.'
    · rw [List.cons_append, Token.segments, if_pos hc, ih, Token.segments, if_pos hc]
      rfl
    · rw [List.cons_append, Token.segments, if_neg hc, ih, Token.segments, if_neg hc]

theorem segments_of_ne {s : List Char} (h : ∀ c ∈ s, c ≠ '.') : Token.segments s = (s, []) := by
  induction s with
  | nil => rfl
  | cons c s ih =>
    rw [List.forall_mem_cons] at h
    rw [Token.segments, if_neg h.1, ih h.2]

theorem ne_point_of_isIdentifier {w : List Char} (h : Token.isIdentifier w) :
    ∀ c ∈ w, c ≠ '.' := by
  have hpoint : Token.isWordChar '.' = false := by decide
  cases w with
  | nil => cases h
  | cons d w =>
    simp only [Token.isIdentifier, Bool.and_eq_true, List.all_eq_true] at h
    intro c hc e
    rw [List.mem_cons] at hc
    rcases hc with rfl | hc
    · rw [e, hpoint] at h
      cases h.1.1
    · have hword := h.2 c hc
      rw [e, hpoint] at hword
      cases hword

theorem segments_word {w : String} (h : Token.IsWord w) :
    Token.segments w.toList = (w.toList, []) :=
  segments_of_ne (ne_point_of_isIdentifier h.identifier)

/-- The name of a chain of members starts with a word. -/
theorem isHeaded_staticName {n : Node} (hn : Made n) {name : String}
    (h : staticName n = some name) : IsHeaded name := by
  fun_induction staticName n generalizing name with
  | case1 base =>
    cases h
    obtain ⟨hword, hvalue⟩ := hn
    refine ⟨?_, ?_⟩
    · rw [segments_word hword]
      exact hword.identifier
    · rw [segments_word hword, String.ofList_toList, List.mem_append, not_or]
      exact ⟨hword.inert, hvalue⟩
  | case2 object part ih =>
    obtain ⟨base, hbase, rfl⟩ := Option.map_eq_some_iff.mp h
    obtain ⟨hfirst, hunreserved⟩ := ih hn.1 hbase
    have hlist : (base ++ "." ++ part).toList = base.toList ++ '.' :: part.toList := by simp
    refine ⟨?_, ?_⟩
    · rw [hlist, segments_point]
      exact hfirst
    · rw [hlist, segments_point]
      exact hunreserved
  | case3 => cases h

theorem staticName_member {object property : Node} {optional : Bool} {name : String}
    (h : staticName (.member object property optional) = some name) :
    ∃ base part, staticName object = some base ∧ property = .string part ∧ optional = false ∧
      name = base ++ "." ++ part := by
  cases property with
  | string part =>
    cases optional with
    | false =>
      obtain ⟨base, hbase, rfl⟩ := Option.map_eq_some_iff.mp h
      exact ⟨base, part, hbase, rfl, rfl, rfl⟩
    | true => cases h
  | _ => cases h

theorem segments_member {object property : Node} {optional : Bool} {name : String}
    (h : staticName (.member object property optional) = some name) :
    (Token.segments name.toList).2 ≠ [] := by
  obtain ⟨base, part, _, _, _, rfl⟩ := staticName_member h
  have hlist : (base ++ "." ++ part).toList = base.toList ++ '.' :: part.toList := by simp
  rw [hlist, segments_point]
  simp

/-- No name with points builds a literal, stands for an operator or takes a predicate. -/
theorem special_of_segments {name : String} (h : (Token.segments name.toList).2 ≠ []) :
    isLiteralFunction name = false ∧ bitwiseFunction name = none ∧ predicateShape name = none := by
  refine ⟨?_, ?_, ?_⟩
  · by_cases hliteral : isLiteralFunction name = true
    · simp only [isLiteralFunction, Bool.or_eq_true, beq_iff_eq] at hliteral
      rcases hliteral with ((rfl | rfl) | rfl) | rfl <;> exact absurd rfl h
    · exact (Bool.not_eq_true _).mp hliteral
  · unfold bitwiseFunction
    split
    all_goals first
      | exact absurd rfl h
      | rfl
  · unfold predicateShape
    split
    all_goals first
      | exact absurd rfl h
      | rfl

theorem isCallee_member {callee : Node} (hcallee : Made callee) {object property : Node}
    {optional : Bool} (hmember : callee = .member object property optional) {name : String}
    (h : staticName callee = some name) (count : Nat) : IsCallee name count := by
  have hheaded := isHeaded_staticName hcallee h
  rw [hmember] at h
  have hmore := segments_member h
  obtain ⟨hliteral, hbitwise, hshape⟩ := special_of_segments hmore
  exact ⟨hheaded.first, fun hmem => hheaded.unreserved (List.mem_append_left _ hmem),
    fun _ => hheaded, hliteral, hbitwise, .inl hshape⟩

theorem isCallee_word {w : String} (hw : Token.IsWord w) {count : Nat}
    (hliteral : isLiteralFunction w = false) (hbitwise : bitwiseFunction w = none)
    (hshape : predicateShape w = none ∨ w ∈ foldingWords ∧ count = 1) : IsCallee w count := by
  refine ⟨?_, ?_, ?_, hliteral, hbitwise, hshape⟩
  · rw [segments_word hw]
    exact hw.identifier
  · rw [segments_word hw, String.ofList_toList]
    exact hw.inert
  · rw [segments_word hw]
    exact fun hne => absurd rfl hne

/-! ## Formed values -/

theorem formed_typedLiteral {o : Origin} {f : String} {args : List Node} (hargs : MadeAll args)
    {v : Value} (h : typedLiteral o f args = .ok v) : Formed v := by
  unfold typedLiteral at h
  split at h
  · rename_i n
    have hn : n < 2 ^ 63 := hargs.1
    split at h
    · cases h
      show (UInt64.ofNat n).toNat < 2 ^ 63
      rw [UInt64.toNat_ofNat', Nat.mod_eq_of_lt (Nat.lt_trans hn (by decide))]
      exact hn
    · split at h
      · split at h
        · cases h
          trivial
        · cases h
      · split at h
        · cases h
          trivial
        · cases h
  · cases h
  · cases h

theorem formed_literalCall {o : Origin} {f : String} {args : List Node} (hargs : MadeAll args)
    {v : Value} (h : literalCall o f args = .ok v) : Formed v := by
  unfold literalCall at h
  split at h
  · unfold typeLiteral at h
    split at h
    · rename_i s
      cases ht : Ty.parse s with
      | error e =>
        rw [ht] at h
        cases h
      | ok t =>
        rw [ht] at h
        cases h
        exact Ty.canonical_of_parse ht
    · cases h
  · exact formed_typedLiteral hargs h

theorem formed_callOf {o : Origin} {f : String} {args : List Value} (hargs : FormedAll args)
    (hf : bitwiseFunction f = none → IsCallee f args.length) {v : Value}
    (h : callOf o f args = .ok v) : Formed v := by
  unfold callOf at h
  split at h
  · rename_i hnone
    cases h
    exact ⟨hf hnone, hargs⟩
  · split at h
    · split at h
      · rename_i hop
        cases h
        exact ⟨hargs.1, by rw [if_pos hop]⟩
      · cases h
    · split at h
      · rename_i hop
        cases h
        refine ⟨hargs.1, ?_⟩
        rw [Operator.isBinary, Bool.not_eq_true'] at hop
        rw [hop]
        exact hargs.2.1
      · cases h
    · cases h

theorem formed_unaryOf {o : Origin} {op : String} {x v : Value} (hx : Formed x)
    (h : unaryOf o op x = .ok v) : Formed v := by
  unfold unaryOf at h
  split at h
  · cases h
    exact ⟨hx, rfl⟩
  · split at h
    · cases h
      exact hx
    · split at h
      · split at h
        · rename_i i
          cases h
          show -i ≠ Int64.minValue
          intro hi
          refine hx ?_
          rw [← Int64.neg_neg (a := i), hi]
          rfl
        · cases h
          exact ⟨by show (0 : Int64) ≠ _; decide, hx⟩
      · cases h

theorem formed_binaryOf {o : Origin} {op : String} {x y v : Value} (hx : Formed x)
    (hy : Formed y) (h : binaryOf o op x y = .ok v) : Formed v := by
  unfold binaryOf at h
  split at h
  · cases h
    exact ⟨⟨hx, hy⟩, rfl⟩
  · split at h
    · rename_i k hk
      cases h
      refine ⟨hx, ?_⟩
      have hunary : k.isUnary = false := by
        unfold binaryOperator at hk
        split at hk <;> cases hk <;> rfl
      rw [hunary]
      exact hy
    · cases h

/-- A call is of a name whose arguments are there, and never of a function with a predicate. -/
theorem formed_call {o : Origin} {f : String} {args : List Node} {v : Value}
    (hargs : MadeAll args) (hvalues : ∀ vs, ofNodes o args = .ok vs → FormedAll vs)
    (hf : isLiteralFunction f = false → ∀ vs, ofNodes o args = .ok vs →
      bitwiseFunction f = none → IsCallee f vs.length)
    (h : (if isLiteralFunction f then literalCall o f args
      else do
        let vs ← ofNodes o args
        callOf o f vs) = .ok v) : Formed v := by
  by_cases hliteral : isLiteralFunction f = true
  · rw [if_pos hliteral] at h
    exact formed_literalCall hargs h
  · rw [if_neg hliteral] at h
    obtain ⟨vs, hvs, h⟩ := Fault.bind_ok h
    exact formed_callOf (hvalues vs hvs) (hf ((Bool.not_eq_true _).mp hliteral) vs hvs) h

theorem length_ofNodes {o : Origin} {ns : List Node} {vs : List Value}
    (h : ofNodes o ns = .ok vs) : vs.length = ns.length := by
  induction ns generalizing vs with
  | nil =>
    cases h
    rfl
  | cons n ns ih =>
    obtain ⟨v, _, h⟩ := Fault.bind_ok h
    obtain ⟨us, hus, h⟩ := Fault.bind_ok h
    cases h
    rw [List.length_cons, List.length_cons, ih hus]

/-- A form without a meaning among trees leaves them without one. -/
theorem not_foreign_of_ofNodes {o : Origin} {ns : List Node} {vs : List Value}
    (h : ofNodes o ns = .ok vs) : .foreign ∉ ns := by
  induction ns generalizing vs with
  | nil => exact List.not_mem_nil
  | cons n ns ih =>
    obtain ⟨v, hv, h⟩ := Fault.bind_ok h
    obtain ⟨us, hus, h⟩ := Fault.bind_ok h
    rw [List.mem_cons, not_or]
    refine ⟨?_, ih hus⟩
    rintro rfl
    cases hv

theorem isCallee_builtin {o : Origin} {w : String} {args : List Node}
    (h : Made (.builtin w args)) (hliteral : isLiteralFunction w = false) {vs : List Value}
    (hvs : ofNodes o args = .ok vs) (hbitwise : bitwiseFunction w = none) :
    IsCallee w vs.length := by
  obtain ⟨hw, hshape, _⟩ := h
  refine isCallee_word hw hliteral hbitwise ?_
  rw [length_ofNodes hvs]
  rcases hshape with hshape | hshape | hforeign
  · exact .inl hshape
  · exact .inr hshape
  · exact absurd hforeign (not_foreign_of_ofNodes hvs)

theorem isCallee_call {o : Origin} {callee : Node} {args : List Node} {f : String}
    (h : Made (.call callee args)) (hf : calleeName o callee = .ok f)
    (hliteral : isLiteralFunction f = false) (hbitwise : bitwiseFunction f = none)
    (count : Nat) : IsCallee f count := by
  obtain ⟨⟨w, rfl, hw, hshape⟩ | ⟨hcallee, object, property, optional, hmember⟩, _⟩ := h
  · cases hf
    exact isCallee_word hw hliteral hbitwise (.inl hshape)
  · have hname : staticName callee = some f := by
      rw [hmember, calleeName] at hf
      rw [hmember]
      split at hf
      · cases hf
        assumption
      · cases hf
    exact isCallee_member hcallee hmember hname count

mutual

/-- The meaning of a tree that is read is formed. -/
theorem formed_ofNode (o : Origin) : ∀ {n : Node} {v : Value}, Made n → ofNode o n = .ok v →
    Formed v
  | .integer k, v, hn, h => by
    cases h
    show Int64.ofNat k ≠ Int64.minValue
    intro hmin
    have hint := congrArg Int64.toInt hmin
    have hk : k < 2 ^ 63 := hn
    rw [Int64.toInt_ofNat_of_lt hk, Int64.toInt_minValue] at hint
    omega
  | .bool b, v, _, h => by
    cases h
    trivial
  | .string s, v, _, h => by
    unfold ofNode at h
    split at h
    · cases h
      trivial
    · cases h
  | .array elems, v, hn, h => by
    obtain ⟨vs, hvs, h⟩ := Fault.bind_ok h
    cases h
    exact formed_ofNodes o hn hvs
  | .ident w, v, hn, h => by
    cases h
    exact isHeaded_staticName hn rfl
  | .member a b c, v, hn, h => by
    unfold ofNode at h
    split at h
    · rename_i name hname
      cases h
      exact isHeaded_staticName hn hname
    · cases h
  | .chain inner, v, hn, h => formed_ofNode o (n := inner) hn h
  | .unary op x, v, hn, h => by
    obtain ⟨w, hw, h⟩ := Fault.bind_ok h
    exact formed_unaryOf (formed_ofNode o (n := x) hn hw) h
  | .binary op x y, v, hn, h => by
    obtain ⟨w, hw, h⟩ := Fault.bind_ok h
    obtain ⟨u, hu, h⟩ := Fault.bind_ok h
    exact formed_binaryOf (formed_ofNode o hn.1 hw) (formed_ofNode o hn.2 hu) h
  | .call callee args, v, hn, h => by
    obtain ⟨f, hf, h⟩ := Fault.bind_ok h
    exact formed_call hn.2 (fun vs hvs => formed_ofNodes o hn.2 hvs)
      (fun hliteral vs _ hbitwise => isCallee_call hn hf hliteral hbitwise vs.length) h
  | .builtin f args, v, hn, h =>
    formed_call hn.2.2 (fun vs hvs => formed_ofNodes o hn.2.2 hvs)
      (fun hliteral vs hvs hbitwise => isCallee_builtin hn hliteral hvs hbitwise) h
  | .foreign, _, _, h => nomatch h
termination_by structural n => n

/-- The meanings of trees that are read are formed. -/
theorem formed_ofNodes (o : Origin) : ∀ {ns : List Node} {vs : List Value}, MadeAll ns →
    ofNodes o ns = .ok vs → FormedAll vs
  | [], vs, _, h => by
    cases h
    trivial
  | n :: ns, vs, hns, h => by
    obtain ⟨v, hv, h⟩ := Fault.bind_ok h
    obtain ⟨us, hus, h⟩ := Fault.bind_ok h
    cases h
    exact ⟨formed_ofNode o hns.1 hv, formed_ofNodes o hns.2 hus⟩
termination_by structural ns => ns

end

/-- What is read is the meaning of a tree. -/
theorem parse_cases {src : String} {v : Value} (h : parse src = .ok v) :
    ∃ n, Expr.Grammar.parse? src.toList = some n ∧ ofNode ⟨src, .none⟩ n = .ok v := by
  unfold parse parseAt at h
  split at h
  · cases h
  · split at h
    · cases h
    · rename_i n hn
      exact ⟨n, hn, h⟩

/-- Every value that is read is formed. -/
theorem formed_of_parse {src : String} {v : Value} (h : parse src = .ok v) : Formed v := by
  obtain ⟨n, hn, hv⟩ := parse_cases h
  exact formed_ofNode _ (Expr.Grammar.made_of_parse hn) hv

/-! ## Names and characters of a value -/

mutual

/-- The names and callees in a value, in the order of its text. -/
def namesIn : Value → List String
  | .name _ n => [n]
  | .call _ n args => n :: namesInAll args
  | .list _ elems => namesInAll elems
  | .operator _ _ x y => namesIn x ++ namesIn y
  | _ => []
termination_by structural v => v

/-- The names and callees in some values. -/
def namesInAll : List Value → List String
  | [] => []
  | v :: vs => namesIn v ++ namesInAll vs
termination_by structural v => v

end

mutual

/-- The characters in a value. -/
def charsIn : Value → List Int32
  | .char _ c => [c]
  | .call _ _ args => charsInAll args
  | .list _ elems => charsInAll elems
  | .operator _ _ x y => charsIn x ++ charsIn y
  | _ => []
termination_by structural v => v

/-- The characters in some values. -/
def charsInAll : List Value → List Int32
  | [] => []
  | v :: vs => charsIn v ++ charsInAll vs
termination_by structural v => v

end

theorem IsCallee.callable {name : String} {count : Nat} (h : IsCallee name count)
    (hplain : IsPlain name) : IsCallable name count :=
  ⟨hplain, h.literal, h.bitwise, h.shape⟩

/-! ## Characters that exist -/

/-- The character that stands for the code, as a code. -/
def existing (c : Int32) : Int32 :=
  Int32.ofNat (Text.charOfCode c.toInt).toNat

mutual

/-- The value with characters that exist in place of those that do not. -/
def mended : Value → Value
  | .char p c => .char p (existing c)
  | .list p elems => .list p (mendedAll elems)
  | .call p n args => .call p n (mendedAll args)
  | .operator p op x y => .operator p op (mended x) (mended y)
  | v => v
termination_by structural v => v

/-- The values with characters that exist. -/
def mendedAll : List Value → List Value
  | [] => []
  | v :: vs => mended v :: mendedAll vs
termination_by structural v => v

end

theorem length_mendedAll (vs : List Value) : (mendedAll vs).length = vs.length := by
  induction vs with
  | nil => rfl
  | cons v vs ih => rw [mendedAll, List.length_cons, List.length_cons, ih]

theorem isGrouped_mended (v : Value) : isGrouped (mended v) = isGrouped v := by
  cases v <;> rfl

theorem group_mended (v : Value) (s : String) : group (mended v) s = group v s := by
  rw [group, group, isGrouped_mended]

mutual

/-- Mended or not, a value has the same text. -/
theorem source_mended : ∀ v : Value, source (mended v) = source v
  | .char p c => by
    rw [mended, source, source, existing, Text.charOfCode_code]
  | .list p elems => by
    rw [mended, source, source, sourceJoin_mended elems]
  | .call p n args => by
    rw [mended, source, source, sourceJoin_mended args]
  | .operator p op x y => by
    rw [mended, source, source, source_mended x, source_mended y]
    simp only [group_mended]
  | .absent | .int _ _ | .uint _ _ | .byte _ _ | .bool _ _ | .custom _ _ _ | .type _ _
  | .name _ _ | .other _ _ _ _ => rfl
termination_by structural v => v

theorem sourceJoin_mended : ∀ vs : List Value, sourceJoin (mendedAll vs) = sourceJoin vs
  | [] => rfl
  | v :: vs => by
    rw [mendedAll, sourceJoin, sourceJoin, source_mended v, sourceRest_mended vs]
termination_by structural vs => vs

theorem sourceRest_mended : ∀ vs : List Value, sourceRest (mendedAll vs) = sourceRest vs
  | [] => rfl
  | v :: vs => by
    rw [mendedAll, sourceRest, sourceRest, source_mended v, sourceRest_mended vs]
termination_by structural vs => vs

end

mutual

theorem namesIn_mended : ∀ v : Value, namesIn (mended v) = namesIn v
  | .list p elems => namesInAll_mended elems
  | .call p n args => by
    rw [mended, namesIn, namesIn, namesInAll_mended args]
  | .operator p op x y => by
    rw [mended, namesIn, namesIn, namesIn_mended x, namesIn_mended y]
  | .absent | .int _ _ | .uint _ _ | .byte _ _ | .bool _ _ | .char _ _ | .custom _ _ _
  | .type _ _ | .name _ _ | .other _ _ _ _ => rfl
termination_by structural v => v

theorem namesInAll_mended : ∀ vs : List Value, namesInAll (mendedAll vs) = namesInAll vs
  | [] => rfl
  | v :: vs => by
    rw [mendedAll, namesInAll, namesInAll, namesIn_mended v, namesInAll_mended vs]
termination_by structural vs => vs

end

mutual

/-- Nothing is to mend where all characters exist. -/
theorem mended_of_scalar : ∀ {v : Value}, (∀ c ∈ charsIn v, Text.IsScalar c) → mended v = v
  | .char p c, h => by
    rw [mended, existing, Text.code_charOfCode (h c List.mem_cons_self)]
  | .list p elems, h => by
    rw [mended, mendedAll_of_scalar h]
  | .call p n args, h => by
    rw [mended, mendedAll_of_scalar h]
  | .operator p op x y, h => by
    rw [charsIn, List.forall_mem_append] at h
    rw [mended, mended_of_scalar h.1, mended_of_scalar h.2]
  | .absent, _ | .int _ _, _ | .uint _ _, _ | .byte _ _, _ | .bool _ _, _ | .custom _ _ _, _
  | .type _ _, _ | .name _ _, _ | .other _ _ _ _, _ => rfl
termination_by structural v => v

theorem mendedAll_of_scalar : ∀ {vs : List Value}, (∀ c ∈ charsInAll vs, Text.IsScalar c) →
    mendedAll vs = vs
  | [], _ => rfl
  | v :: vs, h => by
    rw [charsInAll, List.forall_mem_append] at h
    rw [mendedAll, mended_of_scalar h.1, mendedAll_of_scalar h.2]
termination_by structural vs => vs

end

mutual

/-- A formed value with plain names is expressible once it is mended. -/
theorem Formed.expressible : ∀ {v : Value}, Formed v → (∀ n ∈ namesIn v, IsPlain n) →
    Expressible (mended v)
  | .int _ _, hv, _ => hv
  | .uint _ _, hv, _ => hv
  | .byte _ _, _, _ => trivial
  | .bool _ _, _, _ => trivial
  | .char _ c, _, _ => Text.isScalar_code _
  | .list _ elems, hv, hnames => (show FormedAll elems from hv).expressible hnames
  | .type _ (some _), hv, _ => hv
  | .name _ n, _, hnames => hnames n List.mem_cons_self
  | .call _ n args, hv, hnames => by
    rw [namesIn, List.forall_mem_cons] at hnames
    refine ⟨?_, hv.2.expressible hnames.2⟩
    rw [length_mendedAll]
    exact hv.1.callable hnames.1
  | .operator _ op x y, hv, hnames => by
    rw [namesIn, List.forall_mem_append] at hnames
    obtain ⟨hx, hy⟩ := hv
    refine ⟨hx.expressible hnames.1, ?_⟩
    by_cases hop : op.isUnary
    · rw [if_pos hop] at hy ⊢
      rw [hy]
      rfl
    · rw [if_neg hop] at hy ⊢
      exact hy.expressible hnames.2
  | .absent, hv, _ | .custom _ _ _, hv, _ | .type _ none, hv, _ | .other _ _ _ _, hv, _ => hv.elim
termination_by structural v => v

/-- The same for several values. -/
theorem FormedAll.expressible : ∀ {vs : List Value}, FormedAll vs →
    (∀ n ∈ namesInAll vs, IsPlain n) → ExpressibleAll (mendedAll vs)
  | [], _, _ => trivial
  | _ :: _, hvs, hnames => by
    rw [namesInAll, List.forall_mem_append] at hnames
    exact ⟨hvs.1.expressible hnames.1, hvs.2.expressible hnames.2⟩
termination_by structural vs => vs

end

mutual

/-- The characters of a mended value exist. -/
theorem isScalar_mended : ∀ (v : Value), ∀ c ∈ charsIn (mended v), Text.IsScalar c
  | .char _ _ => List.forall_mem_singleton.mpr (Text.isScalar_code _)
  | .list _ elems => isScalar_mendedAll elems
  | .call _ _ args => isScalar_mendedAll args
  | .operator _ _ x y => List.forall_mem_append.mpr ⟨isScalar_mended x, isScalar_mended y⟩
  | .absent | .int _ _ | .uint _ _ | .byte _ _ | .bool _ _ | .custom _ _ _ | .type _ _
  | .name _ _ | .other _ _ _ _ => fun _ hc => nomatch hc
termination_by structural v => v

theorem isScalar_mendedAll : ∀ (vs : List Value), ∀ c ∈ charsInAll (mendedAll vs),
    Text.IsScalar c
  | [] => fun _ hc => nomatch hc
  | v :: vs => List.forall_mem_append.mpr ⟨isScalar_mended v, isScalar_mendedAll vs⟩
termination_by structural vs => vs

end

mutual

/-- Identical values have the same names and the same characters. -/
theorem leaves_of_same : ∀ {v : Value} (w : Value), v.same w →
    namesIn v = namesIn w ∧ charsIn v = charsIn w
  | .char _ c, w, h => by
    cases w with
    | char _ d =>
      rw [same, beq_iff_eq] at h
      rw [h]
      exact ⟨rfl, rfl⟩
    | _ => cases h
  | .name _ n, w, h => by
    cases w with
    | name _ m =>
      rw [same, beq_iff_eq] at h
      rw [h]
      exact ⟨rfl, rfl⟩
    | _ => cases h
  | .list _ elems, w, h => by
    cases w with
    | list _ others => exact leaves_of_sameList others h
    | _ => cases h
  | .call _ n args, w, h => by
    cases w with
    | call _ m others =>
      rw [same, Bool.and_eq_true, beq_iff_eq] at h
      obtain ⟨hnames, hchars⟩ := leaves_of_sameList others h.2
      rw [namesIn, namesIn, charsIn, charsIn, h.1, hnames, hchars]
      exact ⟨rfl, rfl⟩
    | _ => cases h
  | .operator _ _ x y, w, h => by
    cases w with
    | operator _ _ a b =>
      rw [same, Bool.and_eq_true, Bool.and_eq_true] at h
      obtain ⟨hnames, hchars⟩ := leaves_of_same a h.1.2
      obtain ⟨hnames', hchars'⟩ := leaves_of_same b h.2
      rw [namesIn, namesIn, charsIn, charsIn, hnames, hchars, hnames', hchars']
      exact ⟨rfl, rfl⟩
    | _ => cases h
  | .absent, w, h | .int _ _, w, h | .uint _ _, w, h | .byte _ _, w, h | .bool _ _, w, h
  | .custom _ _ _, w, h | .type _ _, w, h | .other _ _ _ _, w, h => by
    cases w <;> first
      | exact ⟨rfl, rfl⟩
      | cases h
termination_by structural v => v

/-- Lists of identical values have the same names and the same characters. -/
theorem leaves_of_sameList : ∀ {vs : List Value} (ws : List Value), sameList vs ws →
    namesInAll vs = namesInAll ws ∧ charsInAll vs = charsInAll ws
  | [], ws, h => by
    cases ws with
    | nil => exact ⟨rfl, rfl⟩
    | cons => cases h
  | v :: vs, ws, h => by
    cases ws with
    | nil => cases h
    | cons w ws =>
      rw [sameList, Bool.and_eq_true] at h
      obtain ⟨hnames, hchars⟩ := leaves_of_same w h.1
      obtain ⟨hnames', hchars'⟩ := leaves_of_sameList ws h.2
      rw [namesInAll, namesInAll, charsInAll, charsInAll, hnames, hchars, hnames', hchars']
      exact ⟨rfl, rfl⟩
termination_by structural vs => vs

end

end Lowlang.Value
