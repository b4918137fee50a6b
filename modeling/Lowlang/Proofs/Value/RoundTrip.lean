import Lowlang.Proofs.Value.Expressible

set_option autoImplicit false

/-!
# Expressions read back

The text of an expressible value is cut into a row of tokens, the row is read as a tree, and
the tree means the value.  `Rendering` states the three together, so that one induction over
values yields all of them.

Main statement: an expressible value has a text, and reading the text gives the value back
when the tree is not too large; and a value has no text exactly when writing it visits a node
that has none.
-/

namespace Lowlang.Value

open Lowlang.Expr (Token Node)
open Lowlang.Expr.Token (ScansTo)
open Lowlang.Expr.Grammar (Operand Whole joinRows chainNode pointTokens callNode valueWords)

/-! ## Rows of tokens -/

/-- Neither a word nor a number runs on into the rest. -/
def Ends (rest : List Char) : Prop :=
  ∀ c ∈ rest.head?, Token.isWordChar c = false ∧ c ≠ '.'

theorem ends_cons {c : Char} (h : Token.isWordChar c = false ∧ c ≠ '.') (rest : List Char) :
    Ends (c :: rest) := by
  intro d hd
  rw [List.head?_cons, Option.mem_some_iff] at hd
  exact hd ▸ h

theorem Ends.stops {rest : List Char} (h : Ends rest) : Token.Stops rest := by
  intro c hc
  exact (h c hc).1

theorem Ends.point {rest : List Char} (h : Ends rest) : ∀ c ∈ rest.head?, c ≠ '.' := by
  intro c hc
  exact (h c hc).2

/-- Before anything the text is cut into the row. -/
def Cuts (s : String) (ts : List Token) : Prop :=
  ∀ ⦃stop⦄ rest more, ScansTo stop rest more → Ends rest →
    ScansTo stop (s.toList ++ rest) (ts ++ more)

/-- The row of an operand, in parentheses when the operand needs them. -/
def groupRow (v : Value) (ts : List Token) : List Token :=
  if isGrouped v then .bracket '(' :: (ts ++ [.bracket ')']) else ts

/-- The text starts with nothing that an exclamation mark before it would take. -/
def Leads (s : String) : Prop :=
  ∃ c r, s.toList = c :: r ∧ c ∉ ['&', '=', '*']

/-- The text `s` of `v` is cut into the row `ts`, which is read as the tree `n`, which means
`v`. -/
structure Rendering (v : Value) (s : String) (ts : List Token) (n : Node) : Prop where
  leads : Leads s
  cuts : Cuts s ts
  whole : Whole ts n
  operand : Operand (groupRow v ts) n
  size : n.size = nodeCount v
  means : ∀ o, ∃ w, ofNode o n = .ok w ∧ w.same v

theorem Rendering.of_operand {v : Value} {s : String} {ts : List Token} {n : Node}
    (hg : isGrouped v = false) (hleads : Leads s) (hcuts : Cuts s ts) (hoperand : Operand ts n)
    (hsize : n.size = nodeCount v) (hmeans : ∀ o, ∃ w, ofNode o n = .ok w ∧ w.same v) :
    Rendering v s ts n := by
  refine ⟨hleads, hcuts, hoperand.whole, ?_, hsize, hmeans⟩
  rw [groupRow, hg]
  exact hoperand

theorem Rendering.of_whole {v : Value} {s : String} {ts : List Token} {n : Node}
    (hg : isGrouped v) (hleads : Leads s) (hcuts : Cuts s ts) (hwhole : Whole ts n)
    (hsize : n.size = nodeCount v) (hmeans : ∀ o, ∃ w, ofNode o n = .ok w ∧ w.same v) :
    Rendering v s ts n := by
  refine ⟨hleads, hcuts, hwhole, ?_, hsize, hmeans⟩
  rw [groupRow, if_pos hg]
  exact hwhole.grouped

/-- Parentheses around a text are cut off as such. -/
theorem Rendering.cuts_group {v : Value} {s : String} {ts : List Token} {n : Node}
    (h : Rendering v s ts n) : Cuts (group v s) (groupRow v ts) := by
  intro stop rest more hmore hrest
  by_cases hg : isGrouped v
  · have hlist : ("(" ++ s ++ ")").toList ++ rest = '(' :: (s.toList ++ ')' :: rest) := by simp
    have hinner := h.cuts (')' :: rest) (.bracket ')' :: more) (hmore.bracket (by decide))
      (ends_cons (by decide) rest)
    rw [group, groupRow, if_pos hg, if_pos hg, hlist, List.cons_append, List.append_assoc]
    exact hinner.bracket (by decide)
  · rw [group, groupRow, if_neg hg, if_neg hg]
    exact h.cuts rest more hmore hrest

theorem Leads.group {s : String} (h : Leads s) (v : Value) : Leads (group v s) := by
  by_cases hg : isGrouped v
  · rw [Value.group, if_pos hg]
    exact ⟨'(', s.toList ++ [')'], by simp, by decide⟩
  · rw [Value.group, if_neg hg]
    exact h

theorem Leads.append {s : String} (h : Leads s) (r : String) : Leads (s ++ r) := by
  obtain ⟨c, cs, hcs, hc⟩ := h
  refine ⟨c, cs ++ r.toList, ?_, hc⟩
  rw [String.toList_append, hcs, List.cons_append]

/-! ## Literals -/

theorem cuts_repr (k : Nat) : Cuts (Nat.repr k) [.number (Nat.repr k)] := by
  intro stop rest more hmore hrest
  exact hmore.number hrest.stops hrest.point k

theorem leads_repr (k : Nat) : Leads (Nat.repr k) := by
  obtain ⟨c, r, hcr, hdigit⟩ := Text.repr_eq_cons k
  have hmarks : ∀ d ∈ ['&', '=', '*'], d.isDigit = false := by decide
  refine ⟨c, r, hcr, fun hc => ?_⟩
  rw [hmarks c hc] at hdigit
  cases hdigit

theorem Rendering.int {p : Pos} {i : Int64} (h : i ≠ Int64.minValue) :
    ∃ ts n, Rendering (.int p i) (Text.intText i.toInt) ts n := by
  have hlow := i.minValue_le_toInt
  have hhigh := i.toInt_lt
  have hne : i.toInt ≠ Int64.minValue.toInt := fun e => h (Int64.toInt.inj e)
  rw [Int64.toInt_minValue] at hlow hne
  by_cases hneg : i.toInt < 0
  · have hi : i < 0 := Int64.lt_iff_toInt_lt.mpr hneg
    have hk : i.toInt.natAbs < 2 ^ 63 := by omega
    have hback : -Int64.ofNat i.toInt.natAbs = i := by
      refine Int64.toInt.inj ?_
      rw [Int64.toInt_neg_ofNat_of_le (by omega)]
      omega
    refine ⟨_, _, .of_operand rfl ?_ ?_ (.negative hk) ?_ ?_⟩
    · rw [Text.intText_of_neg hneg]
      exact ⟨'-', _, String.toList_append, by decide⟩
    · intro stop rest more hmore hrest
      rw [Text.intText_of_neg hneg, String.toList_append, List.append_assoc]
      exact (cuts_repr _ rest more hmore hrest).minus
    · rw [nodeCount, if_pos hi]
      rfl
    · intro o
      refine ⟨.int o.pos (-Int64.ofNat i.toInt.natAbs), rfl, ?_⟩
      rw [same, hback]
      exact beq_self_eq_true i
  · have hi : ¬ i < 0 := fun hi => hneg (Int64.lt_iff_toInt_lt.mp hi)
    have hk : i.toInt.toNat < 2 ^ 63 := by omega
    have hback : Int64.ofNat i.toInt.toNat = i := by
      refine Int64.toInt.inj ?_
      rw [Int64.toInt_ofNat_of_lt hk]
      omega
    rw [Text.intText_of_nonneg (Int.not_lt.mp hneg)]
    refine ⟨_, _, .of_operand rfl (leads_repr _) (cuts_repr _) (.integer hk) ?_ ?_⟩
    · rw [nodeCount, if_neg hi]
      rfl
    · intro o
      refine ⟨.int o.pos (Int64.ofNat i.toInt.toNat), rfl, ?_⟩
      rw [same, hback]
      exact beq_self_eq_true i

theorem leads_literal (s : String) : Leads (Text.literal s) := by
  refine ⟨'"', s.toList.flatMap Text.literalChar ++ ['"'], ?_, by decide⟩
  rw [Text.literal, Text.enclose, String.toList_ofList, List.cons_append]

theorem cuts_literal (s : String) : Cuts (Text.literal s) [.string s] := by
  intro stop rest more hmore _
  exact hmore.literal s

theorem Rendering.char {p : Pos} {c : Int32} (h : Text.IsScalar c) :
    ∃ ts n, Rendering (.char p c)
      (Text.literal (String.singleton (Text.charOfCode c.toInt))) ts n := by
  refine ⟨_, _, .of_operand rfl (leads_literal _) (cuts_literal _) (.string _) rfl ?_⟩
  intro o
  refine ⟨.char o.pos c, ?_, ?_⟩
  · rw [ofNode, String.toList_singleton]
    simp only [Text.code_charOfCode h]
  · rw [same]
    exact beq_self_eq_true c

theorem Rendering.bool (p : Pos) (b : Bool) :
    ∃ ts n, Rendering (.bool p b) (if b then "true" else "false") ts n := by
  refine ⟨_, _, .of_operand rfl ?_ ?_ (.bool b) rfl ?_⟩
  · cases b
    · exact ⟨'f', _, rfl, by decide⟩
    · exact ⟨'t', _, rfl, by decide⟩
  · intro stop rest more hmore hrest
    cases b
    · exact hmore.word (w := "false".toList) (by decide) hrest.stops
    · exact hmore.word (w := "true".toList) (by decide) hrest.stops
  · intro o
    refine ⟨.bool o.pos b, rfl, ?_⟩
    rw [same]
    exact beq_self_eq_true b

/-! ## Names -/

/-- The first part of a name. -/
def firstPart (name : String) : String :=
  String.ofList (Token.segments name.toList).1

/-- The parts of a name behind its first point. -/
def moreParts (name : String) : List (List Char) :=
  (Token.segments name.toList).2

theorem IsPlain.first_ne {name : String} (h : IsPlain name) : firstPart name ∉ valueWords := by
  intro hmem
  exact h.unreserved (List.mem_append_right _ hmem)

/-- A plain name is cut into its parts and the points between them. -/
theorem IsPlain.scans {name : String} (h : IsPlain name) {stop rest : List Char} {ts : List Token}
    (hts : ScansTo stop rest ts) (hrest : Token.Stops rest) :
    ScansTo stop (name.toList ++ rest)
      (.word (firstPart name) :: (pointTokens (moreParts name) ++ ts)) := by
  have hchain := hts.chain hrest h.first h.more
  have hword : Token.ofWord (firstPart name) = .word (firstPart name) := by
    rw [Token.ofWord, if_neg]
    intro hmem
    exact h.unreserved (List.mem_append_left _ (List.contains_iff_mem.mp hmem))
  rw [Token.chainTokens, ← firstPart, hword] at hchain
  exact hchain

theorem leads_of_first {name : String}
    (hfirst : Token.isIdentifier (Token.segments name.toList).1) : Leads name := by
  have hparts := Token.append_segments name.toList
  cases hs : (Token.segments name.toList).1 with
  | nil =>
    rw [hs] at hfirst
    cases hfirst
  | cons c r =>
    rw [hs] at hfirst hparts
    refine ⟨c, _, hparts.symm, ?_⟩
    have hmarks : ∀ d ∈ ['&', '=', '*'], Token.isWordChar d = false := by decide
    intro hc
    rw [Token.isIdentifier, hmarks c hc] at hfirst
    cases hfirst

theorem IsPlain.leads {name : String} (h : IsPlain name) : Leads name :=
  leads_of_first h.first

/-- The chain of members of a name is that name. -/
theorem staticName_chainNode {n : Node} {base : String} (h : staticName n = some base)
    (more : List (List Char)) :
    staticName (chainNode n more)
      = some (String.ofList (base.toList ++ more.flatMap ('.' :: ·))) := by
  induction more generalizing n base with
  | nil => rw [List.flatMap_nil, List.append_nil, String.ofList_toList]; exact h
  | cons w more ih =>
    have hstep : staticName (.member n (.string (String.ofList w)) false)
        = some (base ++ "." ++ String.ofList w) := by
      rw [staticName, h, Option.map_some]
    have hlist : (base ++ "." ++ String.ofList w).toList = base.toList ++ '.' :: w := by
      simp
    rw [List.flatMap_cons, List.cons_append, ← List.cons_append, ← List.append_assoc, ← hlist]
    exact ih hstep

theorem staticName_parts (name : String) :
    staticName (chainNode (.ident (firstPart name)) (moreParts name)) = some name := by
  rw [staticName_chainNode rfl, firstPart, moreParts, String.toList_ofList,
    Token.append_segments, String.ofList_toList]

/-- A chain is a name or a member, so its meaning is its static name. -/
theorem isLink_chainNode {n : Node} (h : Expr.Grammar.isLink n) (more : List (List Char)) :
    Expr.Grammar.isLink (chainNode n more) := by
  induction more generalizing n with
  | nil => exact h
  | cons w more ih => exact ih rfl

theorem ofNode_link {n : Node} (h : Expr.Grammar.isLink n) {name : String}
    (hname : staticName n = some name) (o : Origin) :
    ofNode o n = .ok (.name o.pos name) ∧ calleeName o n = .ok name := by
  cases n with
  | ident base =>
    cases hname
    exact ⟨rfl, rfl⟩
  | member object part optional =>
    rw [ofNode, calleeName, hname]
    exact ⟨rfl, rfl⟩
  | _ => cases h

theorem Rendering.name {p : Pos} {name : String} (h : IsPlain name) :
    ∃ ts n, Rendering (.name p name) name ts n := by
  refine ⟨_, _, .of_operand rfl h.leads ?_ (.chain h.first_ne (moreParts name)) ?_ ?_⟩
  · intro stop rest more hmore hrest
    rw [List.cons_append]
    exact h.scans hmore hrest.stops
  · rw [Expr.Grammar.size_chainNode, nodeCount, nameNodes, moreParts, Node.size, Nat.add_comm]
  · intro o
    have hlink := isLink_chainNode (n := .ident (firstPart name)) rfl (moreParts name)
    refine ⟨.name o.pos name, (ofNode_link hlink (staticName_parts name) o).1, ?_⟩
    rw [same]
    exact beq_self_eq_true name

/-! ## Calls -/

/-- A name and its arguments in parentheses. -/
theorem IsPlain.cuts_call {name inner : String} {ts : List Token} (h : IsPlain name)
    (hinner : Cuts inner ts) :
    Cuts (name ++ "(" ++ inner ++ ")") (.word (firstPart name) ::
      (pointTokens (moreParts name) ++ .bracket '(' :: (ts ++ [.bracket ')']))) := by
  intro stop rest more hmore _
  have hlist : (name ++ "(" ++ inner ++ ")").toList ++ rest
      = name.toList ++ '(' :: (inner.toList ++ ')' :: rest) := by
    simp
  have hargs := hinner (')' :: rest) (.bracket ')' :: more) (hmore.bracket (by decide))
    (ends_cons (by decide) rest)
  have hstops : Token.Stops ('(' :: (inner.toList ++ ')' :: rest)) :=
    (ends_cons (by decide) _).stops
  have hcall := h.scans (hargs.bracket (c := '(') (by decide)) hstops
  rw [hlist]
  simpa only [List.cons_append, List.append_assoc, List.nil_append] using hcall

/-- The functions that values themselves are written with. -/
def ownFunctions : List String :=
  ["uint", "byte", "type", "bitand", "bitor", "bitxor", "bitnot", "bitshl", "bitshr"]

/-- Each of them is a single word that takes no predicate. -/
theorem isPlain_of_own : ∀ f ∈ ownFunctions, IsPlain f ∧ moreParts f = [] ∧ firstPart f = f ∧
    Node.predicateShape f = none := by
  intro f hf
  have hparts : ∀ f ∈ ownFunctions, moreParts f = [] ∧ firstPart f = f ∧
      Token.isIdentifier (Token.segments f.toList).1 ∧
      String.ofList (Token.segments f.toList).1 ∉ Token.operatorWords ++ valueWords := by decide
  obtain ⟨hmore, hfirst, hidentifier, hreserved⟩ := hparts f hf
  refine ⟨⟨hidentifier, hreserved, ?_⟩, hmore, hfirst, ?_⟩
  · intro w hw
    rw [← moreParts, hmore] at hw
    cases hw
  · simp only [ownFunctions, List.mem_cons, List.not_mem_nil, or_false] at hf
    rcases hf with rfl | rfl | rfl | rfl | rfl | rfl | rfl | rfl | rfl <;> rfl

/-- A call of one of them is cut and read like any other. -/
theorem own_call {f opening : String} (hf : f ∈ ownFunctions) (hopening : opening = f ++ "(")
    {inner : String} {rows : List (List Token)} {ns : List Node}
    (hinner : Cuts inner (joinRows rows)) (h : List.Forall₂ Whole rows ns) :
    Leads (opening ++ inner ++ ")") ∧
      ∃ ts, Cuts (opening ++ inner ++ ")") ts ∧ Operand ts (callNode f ns) := by
  obtain ⟨hplain, hmore, hfirst, hshape⟩ := isPlain_of_own f hf
  subst hopening
  have hne := hplain.first_ne
  have hcuts := hplain.cuts_call hinner
  rw [hfirst] at hne hcuts
  rw [hmore] at hcuts
  exact ⟨((hplain.leads.append "(").append inner).append ")", _, hcuts, .call hne hshape h⟩

theorem Rendering.uint {p : Pos} {k : UInt64} (h : k.toNat < 2 ^ 63) :
    ∃ ts n, Rendering (.uint p k) ("uint(" ++ Nat.repr k.toNat ++ ")") ts n := by
  have hwhole := (Operand.integer h).whole
  have hcuts : Cuts (Nat.repr k.toNat) (joinRows [[.number (Nat.repr k.toNat)]]) := cuts_repr _
  obtain ⟨hleads, ts, hts, hoperand⟩ :=
    own_call (f := "uint") (by decide) rfl hcuts (.cons hwhole .nil)
  refine ⟨ts, _, .of_operand rfl hleads hts hoperand rfl ?_⟩
  intro o
  refine ⟨.uint o.pos (UInt64.ofNat k.toNat), rfl, ?_⟩
  rw [same, UInt64.ofNat_toNat]
  exact beq_self_eq_true k

theorem Rendering.byte (p : Pos) (b : UInt8) :
    ∃ ts n, Rendering (.byte p b) ("byte(" ++ Nat.repr b.toNat ++ ")") ts n := by
  have hb : b.toNat < 256 := b.toNat_lt
  have hwhole := (Operand.integer (k := b.toNat) (by omega)).whole
  have hcuts : Cuts (Nat.repr b.toNat) (joinRows [[.number (Nat.repr b.toNat)]]) := cuts_repr _
  obtain ⟨hleads, ts, hts, hoperand⟩ :=
    own_call (f := "byte") (by decide) rfl hcuts (.cons hwhole .nil)
  refine ⟨ts, _, .of_operand rfl hleads hts hoperand rfl ?_⟩
  intro o
  refine ⟨.byte o.pos (UInt8.ofNat b.toNat), ?_, ?_⟩
  · have hle : b.toNat ≤ 0xFF := by omega
    show (if b.toNat ≤ 0xFF then _ else _) = _
    rw [if_pos hle]
  · rw [same, UInt8.ofNat_toNat]
    exact beq_self_eq_true b

theorem Rendering.type {p : Pos} {t : Ty} (h : t.Canonical) :
    ∃ ts n, Rendering (.type p (some t)) ("type(" ++ Text.literal t.text ++ ")") ts n := by
  have hwhole := (Operand.string t.text).whole
  have hcuts : Cuts (Text.literal t.text) (joinRows [[.string t.text]]) := cuts_literal _
  obtain ⟨hleads, ts, hts, hoperand⟩ :=
    own_call (f := "type") (by decide) rfl hcuts (.cons hwhole .nil)
  refine ⟨ts, _, .of_operand rfl hleads hts hoperand rfl ?_⟩
  intro o
  refine ⟨.type o.pos (some t), ?_, Ty.same_refl t⟩
  show (Ty.parse t.text).map _ = _
  rw [Ty.parse_text h]
  rfl

/-! ## Rows of values -/

/-- The text `s` of some values is cut into the row `ts` made of their rows, which are read as
the trees `ns`, which mean the values. -/
structure RenderingAll (vs : List Value) (s : String) (ts : List Token)
    (rows : List (List Token)) (ns : List Node) : Prop where
  cuts : Cuts s ts
  whole : List.Forall₂ Whole rows ns
  count : ns.length = vs.length
  size : Node.sizes ns = nodeCounts vs
  means : ∀ o, ∃ ws, ofNodes o ns = .ok ws ∧ sameList ws vs

theorem RenderingAll.nil : RenderingAll [] "" [] [] [] := by
  refine ⟨?_, .nil, rfl, rfl, ?_⟩
  · intro stop rest more hmore _
    exact hmore
  · intro o
    exact ⟨[], rfl, rfl⟩

/-- A first value before others whose text starts with `mark`. -/
theorem RenderingAll.cons {v : Value} {vs : List Value} {s r : String} {us ts : List Token}
    {rows : List (List Token)} {n : Node} {ns : List Node} (hv : Rendering v s us n)
    (h : RenderingAll vs r ts rows ns) (hends : ∀ rest, Ends rest → Ends (r.toList ++ rest)) :
    RenderingAll (v :: vs) (s ++ r) (us ++ ts) (us :: rows) (n :: ns) := by
  refine ⟨?_, .cons hv.whole h.whole, congrArg (· + 1) h.count, ?_, ?_⟩
  · intro stop rest more hmore hrest
    have htail := h.cuts rest more hmore hrest
    rw [String.toList_append, List.append_assoc, List.append_assoc]
    exact hv.cuts _ _ htail (hends rest hrest)
  · rw [Node.sizes, nodeCounts, hv.size, h.size]
  · intro o
    obtain ⟨w, hw, hsame⟩ := hv.means o
    obtain ⟨ws, hws, hsames⟩ := h.means o
    refine ⟨w :: ws, ?_, ?_⟩
    · rw [ofNodes, hw, hws]
      rfl
    · rw [sameList, hsame, hsames]
      rfl

/-- Others before which a comma stands. -/
theorem RenderingAll.comma {vs : List Value} {s : String} {ts : List Token}
    {rows : List (List Token)} {ns : List Node} (h : RenderingAll vs s ts rows ns) :
    RenderingAll vs (", " ++ s) (.op "," :: ts) rows ns := by
  refine ⟨?_, h.whole, h.count, h.size, h.means⟩
  intro stop rest more hmore hrest
  rw [String.toList_append, List.append_assoc]
  exact (h.cuts rest more hmore hrest).blank.comma

theorem ends_sourceRest {vs : List Value} {s : String} (h : sourceRest vs = .ok s)
    (rest : List Char) (hrest : Ends rest) : Ends (s.toList ++ rest) := by
  cases vs with
  | nil =>
    cases h
    exact hrest
  | cons v vs =>
    obtain ⟨a, _, h⟩ := Fault.bind_ok h
    obtain ⟨b, _, h⟩ := Fault.bind_ok h
    cases h
    rw [String.toList_append, String.toList_append, List.append_assoc, List.append_assoc]
    exact ends_cons (by decide) _

theorem Rendering.list {p : Pos} {elems : List Value} {s : String} {rows : List (List Token)}
    {ns : List Node} (h : RenderingAll elems s (joinRows rows) rows ns) :
    ∃ ts n, Rendering (.list p elems) ("[" ++ s ++ "]") ts n := by
  refine ⟨_, _, .of_operand rfl ⟨'[', s.toList ++ [']'], by simp, by decide⟩ ?_
    (.array h.whole) ?_ ?_⟩
  · intro stop rest more hmore _
    have hlist : ("[" ++ s ++ "]").toList ++ rest = '[' :: (s.toList ++ ']' :: rest) := by simp
    have hinner := h.cuts (']' :: rest) (.bracket ']' :: more) (hmore.bracket (by decide))
      (ends_cons (by decide) rest)
    rw [hlist, List.cons_append, List.append_assoc]
    exact hinner.bracket (by decide)
  · rw [Node.size, nodeCount, h.size]
  · intro o
    obtain ⟨ws, hws, hsame⟩ := h.means o
    refine ⟨.list o.pos ws, ?_, hsame⟩
    rw [ofNode, hws]
    rfl

/-! ## Calls of names -/

/-- Predefined functions are single words. -/
theorem moreParts_predefined : ∀ f ∈ Node.builtins ++ Expr.Grammar.foldingWords,
    moreParts f = [] := by
  decide

theorem firstPart_of_moreParts {name : String} (h : moreParts name = []) :
    firstPart name = name := by
  have hparts := Token.append_segments name.toList
  rw [← moreParts, h, List.flatMap_nil, List.append_nil] at hparts
  rw [firstPart, hparts, String.ofList_toList]

/-- A call of a name that builds no literal and stands for no operator is a call. -/
theorem ofNode_builtin {o : Origin} {name : String} {ns : List Node} {vs : List Value}
    (hliteral : isLiteralFunction name = false) (hbitwise : bitwiseFunction name = none)
    (h : ofNodes o ns = .ok vs) : ofNode o (.builtin name ns) = .ok (.call o.pos name vs) := by
  rw [ofNode, hliteral, h]
  simp only [Bool.false_eq_true, if_false]
  show callOf o name vs = _
  rw [callOf, hbitwise]

theorem ofNode_call {o : Origin} {callee : Node} {name : String} {ns : List Node}
    {vs : List Value} (hcallee : calleeName o callee = .ok name)
    (hliteral : isLiteralFunction name = false) (hbitwise : bitwiseFunction name = none)
    (h : ofNodes o ns = .ok vs) : ofNode o (.call callee ns) = .ok (.call o.pos name vs) := by
  rw [ofNode, hcallee, h]
  show (if isLiteralFunction name = true then _ else callOf o name vs) = _
  rw [if_neg (by simp [hliteral]), callOf, hbitwise]

/-- The tree `n` is read where the call of a name on rows of tokens stands, is as large as it
should be, and means the call. -/
structure CallTree (name : String) (rows : List (List Token)) (ns : List Node) (n : Node) :
    Prop where
  operand : Operand (.word (firstPart name) :: (pointTokens (moreParts name) ++
    .bracket '(' :: (joinRows rows ++ [.bracket ')']))) n
  size : n.size = (if Node.builtins.contains name || (Node.predicateShape name).isSome then 0
    else nameNodes name) + Node.sizes ns + 1
  means : ∀ o vs, ofNodes o ns = .ok vs → ofNode o n = .ok (.call o.pos name vs)

section
variable {name : String} {rows : List (List Token)} {ns : List Node}

/-- A single word that takes no predicate is called as a builtin or by its name. -/
theorem CallTree.of_word (h : List.Forall₂ Whole rows ns) (hname : IsCallable name ns.length)
    (hmore : moreParts name = []) (hshape : Node.predicateShape name = none) :
    CallTree name rows ns (callNode name ns) := by
  have hne := hname.plain.first_ne
  have hfirst := firstPart_of_moreParts hmore
  rw [hfirst] at hne
  refine ⟨?_, ?_, ?_⟩
  · rw [hfirst, hmore]
    exact .call hne hshape h
  · rw [hshape, nameNodes, ← moreParts, hmore, callNode]
    by_cases hb : Node.builtins.contains name
    · rw [if_pos hb, if_pos (by simpa using hb), Node.size, Nat.zero_add]
    · rw [if_neg hb, if_neg (by simpa using hb)]
      rfl
  · intro o vs hvs
    rw [callNode]
    split
    · exact ofNode_builtin hname.literal hname.bitwise hvs
    · exact ofNode_call rfl hname.literal hname.bitwise hvs

/-- A folding word on a single argument is called as a builtin, without a predicate. -/
theorem CallTree.of_folding (h : List.Forall₂ Whole rows ns) (hname : IsCallable name ns.length)
    (hmore : moreParts name = []) (hfold : name ∈ Expr.Grammar.foldingWords)
    (hcount : ns.length = 1) : CallTree name rows ns (.builtin name ns) := by
  obtain ⟨n, rfl⟩ := List.length_eq_one_iff.mp hcount
  cases h with
  | cons hn htail =>
    cases htail
    refine ⟨?_, ?_, fun o vs hvs => ofNode_builtin hname.literal hname.bitwise hvs⟩
    · rw [firstPart_of_moreParts hmore, hmore, joinRows, List.flatMap_nil, List.append_nil]
      exact .fold hfold hn
    · have hshape : (Node.predicateShape name).isSome := by
        simp only [Expr.Grammar.foldingWords, List.mem_cons, List.not_mem_nil, or_false] at hfold
        rcases hfold with rfl | rfl <;> rfl
      rw [if_pos (by simp [hshape]), Node.size, Nat.zero_add]

/-- A name of several parts is no predefined word, and the chain of its parts is called. -/
theorem CallTree.of_chain (h : List.Forall₂ Whole rows ns) (hname : IsCallable name ns.length)
    {u : List Char} {more : List (List Char)} (hmore : moreParts name = u :: more) :
    CallTree name rows ns (.call (chainNode (.ident (firstPart name)) (u :: more)) ns) := by
  have hword : name ∉ Node.builtins ++ Expr.Grammar.foldingWords := by
    intro hmem
    rw [moreParts_predefined name hmem] at hmore
    cases hmore
  rw [List.mem_append, not_or] at hword
  have hshape : Node.predicateShape name = none := by
    rcases hname.shape with hshape | ⟨hfold, _⟩
    · exact hshape
    · exact absurd hfold hword.2
  have hlink := isLink_chainNode (n := .ident (firstPart name)) rfl (moreParts name)
  have hstatic := staticName_parts name
  rw [hmore] at hlink hstatic
  refine ⟨?_, ?_, ?_⟩
  · rw [hmore]
    exact .chainCall hname.plain.first_ne u more h
  · rw [hshape, if_neg (by simpa using hword.1), Node.size, Expr.Grammar.size_chainNode,
      Node.size, nameNodes, ← moreParts, hmore, Nat.add_comm 1]
  · intro o vs hvs
    exact ofNode_call (ofNode_link hlink hstatic o).2 hname.literal hname.bitwise hvs

theorem exists_callTree (h : List.Forall₂ Whole rows ns) (hname : IsCallable name ns.length) :
    ∃ n, CallTree name rows ns n := by
  cases hmore : moreParts name with
  | nil =>
    rcases hname.shape with hshape | ⟨hfold, hcount⟩
    · exact ⟨_, .of_word h hname hmore hshape⟩
    · exact ⟨_, .of_folding h hname hmore hfold hcount⟩
  | cons u more => exact ⟨_, .of_chain h hname hmore⟩

end

theorem Rendering.call {p : Pos} {name : String} {args : List Value} {s : String}
    {rows : List (List Token)} {ns : List Node} (h : RenderingAll args s (joinRows rows) rows ns)
    (hname : IsCallable name args.length) :
    ∃ ts n, Rendering (.call p name args) (name ++ "(" ++ s ++ ")") ts n := by
  obtain ⟨n, hoperand, hsize, hmeans⟩ := exists_callTree h.whole (h.count ▸ hname)
  have hleads := ((hname.plain.leads.append "(").append s).append ")"
  refine ⟨_, n, .of_operand rfl hleads (hname.plain.cuts_call h.cuts) hoperand ?_ ?_⟩
  · rw [hsize, nodeCount, h.size]
  · intro o
    obtain ⟨ws, hws, hsame⟩ := h.means o
    refine ⟨.call o.pos name ws, hmeans o ws hws, ?_⟩
    rw [same, hsame, beq_self_eq_true]
    rfl

/-! ## Operators -/

theorem functionOf_mem {op : Operator} {f : String} (h : functionOf op = some f) :
    f ∈ ownFunctions ∧ Node.builtins.contains f ∧ isLiteralFunction f = false := by
  cases op <;> simp only [functionOf, Option.some.injEq, reduceCtorEq] at h <;> subst h <;> decide

theorem symbol_mem {op : Operator} (h : functionOf op = none) (hop : op.isUnary = false) :
    op.symbol ∈ Token.infixSymbols := by
  cases op <;> simp [functionOf, Operator.isUnary] at h hop <;> decide

theorem binaryOperator_symbol {op : Operator} (h : functionOf op = none)
    (hop : op.isUnary = false) :
    binaryOperator op.symbol = some op ∧ (op.symbol == "!=") = false := by
  cases op <;> simp [functionOf, Operator.isUnary] at h hop <;> exact ⟨rfl, by decide⟩

theorem eq_not {op : Operator} (h : functionOf op = none) (hop : op.isUnary) : op = .not := by
  cases op <;> simp [functionOf, Operator.isUnary] at h hop ⊢

theorem sameList_one {ws : List Value} {x : Value} (h : sameList ws [x]) :
    ∃ w, ws = [w] ∧ w.same x := by
  match ws with
  | [] => cases h
  | [w] =>
    simp only [sameList, Bool.and_true] at h
    exact ⟨w, rfl, h⟩
  | _ :: _ :: _ => simp [sameList] at h

theorem sameList_two {ws : List Value} {x y : Value} (h : sameList ws [x, y]) :
    ∃ w u, ws = [w, u] ∧ w.same x ∧ u.same y := by
  match ws with
  | [] => cases h
  | w :: us =>
    rw [sameList, Bool.and_eq_true] at h
    obtain ⟨u, rfl, hu⟩ := sameList_one h.2
    exact ⟨w, u, rfl, h.1, hu⟩

/-- A bitwise operator is written as a function and means the operator again. -/
theorem Rendering.function {p : Pos} {op : Operator} {f s : String} {x y : Value}
    {xs : List Value} {rows : List (List Token)} {ns : List Node}
    (hf : functionOf op = some f) (h : RenderingAll xs s (joinRows rows) rows ns)
    (hxs : xs = if op.isUnary then [x] else [x, y]) (hy : op.isUnary → y = .absent) :
    ∃ ts n, Rendering (.operator p op x y) (f ++ "(" ++ s ++ ")") ts n := by
  obtain ⟨hown, hbuiltin, hliteral⟩ := functionOf_mem hf
  obtain ⟨hleads, ts, hcuts, hoperand⟩ := own_call hown rfl h.cuts h.whole
  rw [callNode, if_pos hbuiltin] at hoperand
  refine ⟨ts, _, .of_operand ?_ hleads hcuts hoperand ?_ ?_⟩
  · rw [isGrouped, hf]
    rfl
  · rw [Node.size, h.size, nodeCount, hxs]
    split <;> simp [nodeCounts]
  · intro o
    obtain ⟨ws, hws, hsame⟩ := h.means o
    have hcall : ofNode o (.builtin f ns) = callOf o f ws := by
      rw [ofNode, hliteral, hws]
      rfl
    rw [hcall, callOf, bitwiseFunction_functionOf hf]
    by_cases hop : op.isUnary
    · rw [hxs, if_pos hop] at hsame
      obtain ⟨w, rfl, hw⟩ := sameList_one hsame
      refine ⟨.operator o.pos op w .absent, if_pos hop, ?_⟩
      rw [same, hw, hy hop, beq_self_eq_true]
      rfl
    · rw [hxs, if_neg hop] at hsame
      obtain ⟨w, u, rfl, hw, hu⟩ := sameList_two hsame
      refine ⟨.operator o.pos op w u, if_pos (by simp [Operator.isBinary, hop]), ?_⟩
      rw [same, hw, hu, beq_self_eq_true]
      rfl

/-- A negation. -/
theorem Rendering.negated {p : Pos} {x : Value} {a : String} {ts : List Token} {n : Node}
    (h : Rendering x a ts n) :
    ∃ us m, Rendering (.operator p .not x .absent) (Operator.not.symbol ++ group x a) us m := by
  refine ⟨_, _, .of_whole rfl ⟨'!', (group x a).toList, by simp [Operator.symbol], by decide⟩
    ?_ h.operand.negated ?_ ?_⟩
  · intro stop rest more hmore hrest
    have hinner := h.cuts_group rest more hmore hrest
    obtain ⟨c, r, hcr, hc⟩ := h.leads.group x
    rw [hcr, List.cons_append] at hinner
    rw [String.toList_append, List.append_assoc, hcr]
    exact hinner.bang hc
  · rw [Node.size, h.size, nodeCount]
    rfl
  · intro o
    obtain ⟨w, hw, hsame⟩ := h.means o
    refine ⟨.operator o.pos .not w .absent, ?_, ?_⟩
    · rw [ofNode, hw]
      rfl
    · rw [same, hsame]
      rfl

/-- Two operands with an operator between them. -/
theorem Rendering.joined {p : Pos} {op : Operator} {x y : Value} {a b : String}
    {ts us : List Token} {n m : Node} (h : Rendering x a ts n) (h' : Rendering y b us m)
    (hf : functionOf op = none) (hop : op.isUnary = false) :
    ∃ rs k, Rendering (.operator p op x y)
      (group x a ++ " " ++ op.symbol ++ " " ++ group y b) rs k := by
  have hsymbol := symbol_mem hf hop
  obtain ⟨hoperator, hne⟩ := binaryOperator_symbol hf hop
  refine ⟨_, _, .of_whole ?_ ?_ ?_ (h.operand.joined h'.operand hsymbol) ?_ ?_⟩
  · rw [isGrouped, hf]
    rfl
  · exact ((((h.leads.group x).append " ").append op.symbol).append " ").append (group y b)
  · intro stop rest more hmore hrest
    have hright := h'.cuts_group rest more hmore hrest
    have hleft := h.cuts_group _ _ (hright.symbol hsymbol).blank (ends_cons (by decide) _)
    simpa using hleft
  · rw [Node.size, h.size, h'.size, nodeCount, hop]
    rfl
  · intro o
    obtain ⟨w, hw, hsame⟩ := h.means o
    obtain ⟨u, hu, hsame'⟩ := h'.means o
    refine ⟨.operator o.pos op w u, ?_, ?_⟩
    · rw [ofNode, hw, hu]
      show binaryOf o op.symbol w u = _
      rw [binaryOf, hne, hoperator]
      rfl
    · rw [same, hsame, hsame', beq_self_eq_true]
      rfl

/-! ## Every expressible value -/

theorem RenderingAll.one {v : Value} {s : String} {ts : List Token} {n : Node}
    (h : Rendering v s ts n) : RenderingAll [v] s (joinRows [ts]) [ts] [n] := by
  have hcons := RenderingAll.nil.cons h fun _ hrest => hrest
  rw [String.append_empty] at hcons
  exact hcons

theorem RenderingAll.two {v w : Value} {s r : String} {ts us : List Token} {n m : Node}
    (h : Rendering v s ts n) (h' : Rendering w r us m) :
    RenderingAll [v, w] (s ++ ", " ++ r) (joinRows [ts, us]) [ts, us] [n, m] := by
  have hends : ∀ rest, Ends rest → Ends ((", " ++ r).toList ++ rest) := by
    intro rest _
    rw [String.toList_append, List.append_assoc]
    exact ends_cons (by decide) _
  have hcons := (RenderingAll.one h').comma.cons h hends
  rw [← String.append_assoc] at hcons
  simpa [joinRows] using hcons

mutual

/-- The text of an expressible value is a rendering of it. -/
theorem rendering_of_source : ∀ (v : Value) {s : String}, source v = .ok s → Expressible v →
    ∃ ts n, Rendering v s ts n
  | .int p i, s, hs, hv => by
    rw [source, if_neg hv, Except.ok.injEq] at hs
    subst hs
    exact Rendering.int hv
  | .uint p n, s, hs, hv => by
    have hn : n.toNat < 2 ^ 63 := hv
    rw [source, if_pos hn, Except.ok.injEq] at hs
    subst hs
    exact Rendering.uint hn
  | .byte p b, s, hs, _ => by
    rw [source, Except.ok.injEq] at hs
    subst hs
    exact Rendering.byte p b
  | .char p c, s, hs, hv => by
    rw [source, Except.ok.injEq] at hs
    subst hs
    exact Rendering.char hv
  | .bool p b, s, hs, _ => by
    cases hs
    exact Rendering.bool p b
  | .list p elems, s, hs, hv => by
    obtain ⟨r, hr, hs⟩ := Fault.bind_ok hs
    cases hs
    obtain ⟨rows, ns, h⟩ := rendering_of_sourceJoin elems hr hv
    exact Rendering.list h
  | .type p (some t), s, hs, hv => by
    rw [source, Except.ok.injEq] at hs
    subst hs
    exact Rendering.type hv
  | .name p n, s, hs, hv => by
    cases hs
    exact Rendering.name hv
  | .call p n args, s, hs, hv => by
    obtain ⟨r, hr, hs⟩ := Fault.bind_ok hs
    cases hs
    obtain ⟨rows, ns, h⟩ := rendering_of_sourceJoin args hr hv.2
    exact Rendering.call h hv.1
  | .operator p op x y, s, hs, hv => by
    rw [source] at hs
    obtain ⟨hx, hy⟩ := hv
    cases hf : functionOf op with
    | some f =>
      rw [hf] at hs
      obtain ⟨a, ha, hs⟩ := Fault.bind_ok hs
      obtain ⟨ts, n, h⟩ := rendering_of_source x ha hx
      by_cases hop : op.isUnary
      · rw [if_pos hop] at hs hy
        cases hs
        exact Rendering.function hf (.one h) (if_pos hop).symm fun _ => hy
      · rw [if_neg hop] at hs hy
        obtain ⟨b, hb, hs⟩ := Fault.bind_ok hs
        cases hs
        obtain ⟨us, m, h'⟩ := rendering_of_source y hb hy
        have htext : f ++ "(" ++ a ++ ", " ++ b ++ ")" = f ++ "(" ++ (a ++ ", " ++ b) ++ ")" := by
          simp only [String.append_assoc]
        rw [htext]
        exact Rendering.function hf (.two h h') (if_neg hop).symm fun hunary => absurd hunary hop
    | none =>
      rw [hf] at hs
      obtain ⟨a, ha, hs⟩ := Fault.bind_ok hs
      obtain ⟨ts, n, h⟩ := rendering_of_source x ha hx
      by_cases hop : op.isUnary
      · rw [if_pos hop] at hs hy
        cases hs
        obtain rfl := eq_not hf hop
        rw [hy]
        exact Rendering.negated h
      · rw [if_neg hop] at hs hy
        obtain ⟨b, hb, hs⟩ := Fault.bind_ok hs
        cases hs
        obtain ⟨us, m, h'⟩ := rendering_of_source y hb hy
        exact Rendering.joined h h' hf (Bool.not_eq_true _ ▸ hop)
  | .absent, _, _, hv | .custom _ _ _, _, _, hv | .type _ none, _, _, hv
  | .other _ _ _ _, _, _, hv => hv.elim
termination_by structural v => v

/-- Texts with commas between them are a rendering of their values. -/
theorem rendering_of_sourceJoin : ∀ (vs : List Value) {s : String}, sourceJoin vs = .ok s →
    ExpressibleAll vs → ∃ rows ns, RenderingAll vs s (joinRows rows) rows ns
  | [], s, hs, _ => by
    cases hs
    exact ⟨[], [], .nil⟩
  | v :: vs, s, hs, hv => by
    obtain ⟨a, ha, hs⟩ := Fault.bind_ok hs
    obtain ⟨b, hb, hs⟩ := Fault.bind_ok hs
    cases hs
    obtain ⟨ts, n, h⟩ := rendering_of_source v ha hv.1
    obtain ⟨rows, ns, hmore⟩ := rendering_of_sourceRest vs hb hv.2
    exact ⟨ts :: rows, n :: ns, hmore.cons h (ends_sourceRest hb)⟩
termination_by structural vs => vs

/-- Texts with a comma before each are a rendering of their values. -/
theorem rendering_of_sourceRest : ∀ (vs : List Value) {s : String}, sourceRest vs = .ok s →
    ExpressibleAll vs →
    ∃ rows ns, RenderingAll vs s (rows.flatMap (.op "," :: ·)) rows ns
  | [], s, hs, _ => by
    cases hs
    exact ⟨[], [], .nil⟩
  | v :: vs, s, hs, hv => by
    obtain ⟨a, ha, hs⟩ := Fault.bind_ok hs
    obtain ⟨b, hb, hs⟩ := Fault.bind_ok hs
    cases hs
    obtain ⟨ts, n, h⟩ := rendering_of_source v ha hv.1
    obtain ⟨rows, ns, hmore⟩ := rendering_of_sourceRest vs hb hv.2
    rw [String.append_assoc]
    exact ⟨ts :: rows, n :: ns, (hmore.cons h (ends_sourceRest hb)).comma⟩
termination_by structural vs => vs

end

/-! ## Texts -/

/-- The text of a rendering is read as its tree when the tree is not too large. -/
theorem Rendering.parse_eq {v : Value} {s : String} {ts : List Token} {n : Node}
    (h : Rendering v s ts n) :
    parse s = if nodeCount v ≤ Expr.Grammar.maxNodes then ofNode ⟨s, .none⟩ n
      else .error (.because .parseExpr .unworded [Attr.text "source" s]) := by
  have hscan : Token.scan s.toList = some ts := by
    have hcuts := h.cuts [] [] .stop fun _ hc => nomatch hc
    rw [List.append_nil, List.append_nil] at hcuts
    exact hcuts.scan
  have hsome : ¬ (Text.trim s.toList).isEmpty := by
    intro hempty
    have hblank := Token.scansTo_blanks (Text.isSpace_of_trim_eq_nil (List.isEmpty_iff.mp hempty))
    obtain ⟨t, r, rfl, _⟩ := h.whole.opens
    rw [hblank.scan] at hscan
    cases hscan
  have htree : Expr.Grammar.parse? s.toList
      = if nodeCount v ≤ Expr.Grammar.maxNodes then some n else none := by
    rw [Expr.Grammar.parse?, hscan, Option.bind_some, h.whole.ofTokens, h.size]
  rw [parse, parseAt, if_neg hsome, htree]
  by_cases hsize : nodeCount v ≤ Expr.Grammar.maxNodes
  · rw [if_pos hsize, if_pos hsize]
  · rw [if_neg hsize, if_neg hsize]

/-- The text of a rendering is read back exactly when the tree is not too large. -/
theorem Rendering.reads_back {v : Value} {s : String} {ts : List Token} {n : Node}
    (h : Rendering v s ts n) :
    (∃ w, parse s = .ok w ∧ w.same v) ↔ nodeCount v ≤ Expr.Grammar.maxNodes := by
  rw [h.parse_eq]
  by_cases hsize : nodeCount v ≤ Expr.Grammar.maxNodes
  · rw [if_pos hsize]
    exact iff_of_true (h.means _) hsize
  · rw [if_neg hsize]
    refine iff_of_false ?_ hsize
    rintro ⟨w, hw, _⟩
    cases hw

theorem Expressible.rendering {v : Value} (h : Expressible v) :
    ∃ s ts n, source v = .ok s ∧ Rendering v s ts n := by
  obtain ⟨s, hs⟩ := (source_writtenIff v).mpr h.formed.writable
  obtain ⟨ts, n, hrendering⟩ := rendering_of_source v hs h
  exact ⟨s, ts, n, hs, hrendering⟩

/-- An expressible value has a text, and the text is read as the value exactly when the
expression has no more nodes than a tree may have.  A value has no text exactly when writing
it visits a node without one. -/
theorem source_reads_back (v : Value) :
    (Expressible v → ∃ s, source v = .ok s ∧
      ((∃ w, parse s = .ok w ∧ w.same v) ↔ nodeCount v ≤ Expr.Grammar.maxNodes)) ∧
    ((∃ f, source v = .error f) ↔ ∃ u ∈ visited v, Unwritable u) := by
  refine ⟨?_, (source_writtenIff v).failed⟩
  intro hv
  obtain ⟨s, ts, n, hs, hrendering⟩ := hv.rendering
  exact ⟨s, hs, hrendering.reads_back⟩

/-- Operators of all kinds within each other: a negated comparison of a member with a negative
number, and a call with a quoted quote, a type and a difference of differences. -/
def nestedSample : Value :=
  .operator .none .or
    (.operator .none .not
      (.operator .none .less (.name .none "job.left") (.int .none (-5))) .absent)
    (.operator .none .equal
      (.call .none "count"
        [.list .none [.char .none 34, .type .none (some (.array (some .int))), .uint .none 7]])
      (.operator .none .bitAnd (.byte .none 255)
        (.operator .none .sub (.name .none "n")
          (.operator .none .sub (.name .none "n") (.name .none "in_use")))))

theorem source_reads_back_nested : Expressible nestedSample ∧
    ∃ s w, source nestedSample = .ok s ∧ parse s = .ok w ∧ w.same nestedSample := by
  have hword : ∀ w ∈ ["n", "in_use", "job.left"], IsPlain w := by
    intro w hw
    have hparts : ∀ w ∈ ["n", "in_use", "job.left"],
        Token.isIdentifier (Token.segments w.toList).1 ∧
        String.ofList (Token.segments w.toList).1 ∉ Token.operatorWords ++ valueWords ∧
        ∀ u ∈ (Token.segments w.toList).2, Token.isIdentifier u := by decide
    obtain ⟨hfirst, hunreserved, hmore⟩ := hparts w hw
    exact ⟨hfirst, hunreserved, hmore⟩
  have hcount : IsCallable "count" 1 :=
    ⟨⟨by decide, by decide, by decide⟩, rfl, rfl, .inr ⟨by decide, rfl⟩⟩
  have hv : Expressible nestedSample := by
    refine ⟨⟨⟨hword _ (by decide), ?_⟩, rfl⟩, ⟨⟨hcount, ⟨?_, trivial, ?_, trivial⟩, trivial⟩,
      trivial, hword _ (by decide), hword _ (by decide), hword _ (by decide)⟩⟩
    · show (-5 : Int64) ≠ Int64.minValue
      decide
    · exact ⟨by decide, by decide⟩
    · show (7 : UInt64).toNat < 2 ^ 63
      decide
  obtain ⟨s, hs, hparse⟩ := (source_reads_back nestedSample).1 hv
  obtain ⟨w, hw, hsame⟩ := hparse.mpr (by decide)
  exact ⟨hv, s, w, hs, hw, hsame⟩

end Lowlang.Value
