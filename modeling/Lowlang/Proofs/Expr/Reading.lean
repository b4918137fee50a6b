import Lowlang.Expr.Grammar
import Lowlang.Proofs.Expr.Scanning
import Mathlib.Data.List.Forall2
import Mathlib.Data.Option.Basic

set_option autoImplicit false

/-!
# Reading written expressions

How the grammar reads the rows of tokens that written expressions are cut into.  `Operand`
says of a row that it is read as one operand, whatever operator or closing mark follows it,
and `Whole` that it is read as an expression up to a closing mark.  There is one statement for
each form an expression is written in, and none of them looks inside the parts: an operand
that holds an operator stands in parentheses, so precedence decides nothing.

Every statement also counts the nodes made, and asks for a number of steps that the length of
the row bounds.
-/

namespace Lowlang.Expr

mutual

/-- The number of nodes of a tree. -/
def Node.size : Node → Nat
  | .array elems => Node.sizes elems + 1
  | .member object property _ => Node.size object + Node.size property + 1
  | .chain inner => Node.size inner + 1
  | .unary _ x => Node.size x + 1
  | .binary _ x y => Node.size x + Node.size y + 1
  | .call callee args => Node.size callee + Node.sizes args + 1
  | .builtin _ args => Node.sizes args + 1
  | .integer _ | .bool _ | .string _ | .ident _ | .foreign => 1
termination_by structural n => n

/-- The number of nodes of some trees. -/
def Node.sizes : List Node → Nat
  | [] => 0
  | n :: ns => Node.size n + Node.sizes ns
termination_by structural n => n

end

namespace Grammar

open Node (precedence isComparison unaryPrecedence predicateShape builtins ofNumber natOf)
open Token (infixSymbols)

/-! ## Steps -/

@[simp] theorem run_peek (c : Cursor) : peek.run c = some (c.rest.head?, c) := rfl

@[simp] theorem run_advance (c : Cursor) :
    advance.run c = some ((), { c with rest := c.rest.tail }) := rfl

@[simp] theorem run_make (n : Node) (c : Cursor) :
    (make n).run c = some (n, { c with made := c.made + 1 }) := rfl

@[simp] theorem run_at (t : Token) (c : Cursor) :
    (at? t).run c = some (c.rest.head? == some t, c) := rfl

@[simp] theorem run_expect (t : Token) (rest : List Token) (made : Nat) :
    (expect t).run ⟨t :: rest, made⟩ = some ((), ⟨rest, made⟩) := by
  simp [expect]

/-- A token that has to be next is next. -/
theorem expect_cases {t : Token} {c c' : Cursor} {u : Unit} (h : (expect t).run c = some (u, c')) :
    c.rest.head? = some t ∧ c' = { c with rest := c.rest.tail } := by
  by_cases ht : c.rest.head? = some t
  · refine ⟨ht, ?_⟩
    have hrun : (expect t).run c = some ((), { c with rest := c.rest.tail }) := by
      simp [expect, ht]
    rw [hrun] at h
    cases h
    rfl
  · have hrun : (expect t).run c = none := by
      simp [expect, ht]
    rw [hrun] at h
    cases h

/-! ## What follows -/

/-- The marks that close an expression. -/
def closers : List Token :=
  [.bracket ')', .bracket ']', .op ","]

/-- The rest is at its end or closes an expression. -/
def Closes (rest : List Token) : Prop :=
  ∀ t ∈ rest.head?, t ∈ closers

/-- The rest closes an expression or goes on with an operator. -/
def Follows (rest : List Token) : Prop :=
  ∀ t ∈ rest.head?, t ∈ closers ++ infixSymbols.map .op

theorem closes_cons {t : Token} (h : t ∈ closers) (rest : List Token) : Closes (t :: rest) := by
  intro u hu
  rw [List.head?_cons, Option.mem_some_iff] at hu
  exact hu ▸ h

theorem follows_cons {s : String} (h : s ∈ infixSymbols) (rest : List Token) :
    Follows (.op s :: rest) := by
  intro u hu
  rw [List.head?_cons, Option.mem_some_iff] at hu
  exact List.mem_append_right _ (List.mem_map.mpr ⟨s, h, hu⟩)

theorem Closes.follows {rest : List Token} (h : Closes rest) : Follows rest :=
  fun t ht => List.mem_append_left _ (h t ht)

/-- What follows an operand opens no access. -/
theorem accesses_done {rest : List Token} (h : Follows rest) (fuel : Nat) (inside : Bool)
    (n : Node) (made : Nat) :
    (accesses (fuel + 1) inside n).run ⟨rest, made⟩ = some (n, ⟨rest, made⟩) := by
  cases rest with
  | nil => rfl
  | cons t rest =>
    have ht := h t rfl
    simp only [closers, infixSymbols, List.map, List.cons_append, List.nil_append, List.mem_cons,
      List.not_mem_nil, or_false] at ht
    rcases ht with rfl | rfl | rfl | rfl | rfl | rfl | rfl | rfl | rfl | rfl | rfl | rfl | rfl |
      rfl | rfl <;> rfl

/-- No operator goes on where an expression is closed. -/
theorem operators_done {rest : List Token} (h : Closes rest) (fuel : Nat) (inside : Bool)
    (least : Nat) (last : String) (n : Node) (made : Nat) :
    (operators (fuel + 1) inside least last n).run ⟨rest, made⟩ = some (n, ⟨rest, made⟩) := by
  cases rest with
  | nil => rfl
  | cons t rest =>
    have ht := h t rfl
    simp only [closers, List.mem_cons, List.not_mem_nil, or_false] at ht
    rcases ht with rfl | rfl | rfl <;> rfl

/-- No operator between operands binds as strongly as a sign. -/
theorem operators_sign {rest : List Token} (h : Follows rest) (fuel : Nat) (inside : Bool)
    (n : Node) (made : Nat) :
    (operators (fuel + 1) inside 90 "" n).run ⟨rest, made⟩ = some (n, ⟨rest, made⟩) := by
  cases rest with
  | nil => rfl
  | cons t rest =>
    have ht := h t rfl
    simp only [closers, infixSymbols, List.map, List.cons_append, List.nil_append, List.mem_cons,
      List.not_mem_nil, or_false] at ht
    rcases ht with rfl | rfl | rfl | rfl | rfl | rfl | rfl | rfl | rfl | rfl | rfl | rfl | rfl |
      rfl | rfl <;> rfl

theorem choice_done {rest : List Token} (h : Closes rest) (fuel : Nat) (inside : Bool) (n : Node)
    (made : Nat) : (choice (fuel + 1) inside n).run ⟨rest, made⟩ = some (n, ⟨rest, made⟩) := by
  cases rest with
  | nil => rfl
  | cons t rest =>
    have ht := h t rfl
    simp only [closers, List.mem_cons, List.not_mem_nil, or_false] at ht
    rcases ht with rfl | rfl | rfl <;> rfl

theorem sequenceRest_done {rest : List Token} (h : Closes rest) (fuel : Nat) (inside : Bool)
    (made : Nat) :
    (sequenceRest (fuel + 1) inside).run ⟨rest, made⟩ = some (false, ⟨rest, made⟩) := by
  cases rest with
  | nil => rfl
  | cons t rest =>
    have ht := h t rfl
    simp only [closers, List.mem_cons, List.not_mem_nil, or_false] at ht
    rcases ht with rfl | rfl | rfl <;> rfl

/-! ## Operands and whole expressions -/

/-- Tokens that written expressions start with. -/
def starts : Token → Bool
  | .number _ | .string _ | .word _ => true
  | .op s => s == "-" || s == "!"
  | .bracket c => c == '(' || c == '['

/-- The row is there and starts like an expression. -/
def Opens (ts : List Token) : Prop :=
  ∃ t r, ts = t :: r ∧ starts t

/-- The row is read as one operand. -/
structure Operand (ts : List Token) (n : Node) : Prop where
  opens : Opens ts
  reads : ∀ fuel rest made, 8 * ts.length ≤ fuel + 4 → Follows rest →
    (primary fuel false).run ⟨ts ++ rest, made⟩ = some (n, ⟨rest, made + n.size⟩)

/-- The row is read as an expression. -/
structure Whole (ts : List Token) (n : Node) : Prop where
  opens : Opens ts
  reads : ∀ fuel rest made, 8 * ts.length ≤ fuel → Closes rest →
    (expression fuel false 0).run ⟨ts ++ rest, made⟩ = some (n, ⟨rest, made + n.size⟩)

theorem Opens.append {ts : List Token} (h : Opens ts) (rest : List Token) : Opens (ts ++ rest) := by
  obtain ⟨t, r, rfl, ht⟩ := h
  exact ⟨t, r ++ rest, rfl, ht⟩

theorem Opens.length_pos {ts : List Token} (h : Opens ts) : 0 < ts.length := by
  obtain ⟨t, r, rfl, _⟩ := h
  exact Nat.succ_pos _

/-- An expression that starts like this is an operand with operators behind it. -/
theorem expression_eq {ts : List Token} (h : Opens ts) (fuel least made : Nat) :
    (expression (fuel + 1) false least).run ⟨ts, made⟩ =
      ((primary fuel false).run ⟨ts, made⟩).bind fun p =>
        ((operators fuel false least "" p.1).run p.2).bind fun q =>
          if least == 0 then (choice fuel false q.1).run q.2 else some q := by
  obtain ⟨t, r, rfl, ht⟩ := h
  have hlet : t ≠ .op "let" := by rintro rfl; exact absurd ht (by decide)
  have hif : t ≠ .op "if" := by rintro rfl; exact absurd ht (by decide)
  simp only [expression, run_peek, StateT.run_bind, Option.bind_eq_bind, Option.bind_some,
    List.head?_cons, Option.some_beq_some, beq_eq_false_iff_ne.mpr hlet,
    beq_eq_false_iff_ne.mpr hif, Bool.and_false, Bool.false_eq_true, if_false]
  refine congrArg _ (funext fun p => congrArg _ (funext fun q => ?_))
  split <;> rfl

/-- An operand before a closing mark is the whole expression, at any precedence. -/
theorem Operand.closed {ts : List Token} {n : Node} (h : Operand ts n) {rest : List Token}
    (hrest : Closes rest) (fuel least made : Nat) (hfuel : 8 * ts.length ≤ fuel + 3) :
    (expression fuel false least).run ⟨ts ++ rest, made⟩ = some (n, ⟨rest, made + n.size⟩) := by
  have hpos := h.opens.length_pos
  obtain ⟨fuel, rfl⟩ : ∃ k, fuel = k + 2 := ⟨fuel - 2, by omega⟩
  rw [expression_eq (h.opens.append rest), h.reads (fuel + 1) rest made (by omega) hrest.follows,
    Option.bind_some, operators_done hrest, Option.bind_some]
  split
  · exact choice_done hrest fuel false n _
  · rfl

theorem Operand.whole {ts : List Token} {n : Node} (h : Operand ts n) : Whole ts n :=
  ⟨h.opens, fun fuel _ made hfuel hrest => h.closed hrest fuel 0 made (by omega)⟩

theorem primary_group (ts : List Token) (fuel made : Nat) :
    (primary (fuel + 1) false).run ⟨.bracket '(' :: ts, made⟩ = (do
      let n ← sequence fuel false
      expect (.bracket ')')
      accesses fuel false n : Reader Node).run ⟨ts, made⟩ := rfl

theorem Whole.grouped {ts : List Token} {n : Node} (h : Whole ts n) :
    Operand (.bracket '(' :: (ts ++ [.bracket ')'])) n := by
  refine ⟨⟨_, _, rfl, by decide⟩, fun fuel rest made hfuel hrest => ?_⟩
  simp only [List.length_cons, List.length_append, List.length_nil] at hfuel
  obtain ⟨fuel, rfl⟩ : ∃ k, fuel = k + 3 := ⟨fuel - 3, by omega⟩
  have hcloses : Closes (.bracket ')' :: rest) := closes_cons (by decide) rest
  have hsequence : (sequence (fuel + 2) false).run ⟨ts ++ .bracket ')' :: rest, made⟩
      = some (n, ⟨.bracket ')' :: rest, made + n.size⟩) := by
    simp [sequence, h.reads (fuel + 1) _ made (by omega) hcloses, sequenceRest_done hcloses]
  rw [List.cons_append, List.append_assoc, List.singleton_append]
  simp [primary, hsequence, accesses_done hrest]

/-! ## Operators -/

/-- A negated operand. -/
theorem Operand.negated {ts : List Token} {n : Node} (h : Operand ts n) :
    Whole (.op "!" :: ts) (.unary "!" n) := by
  refine ⟨⟨_, _, rfl, by decide⟩, fun fuel rest made hfuel hrest => ?_⟩
  rw [List.length_cons] at hfuel
  obtain ⟨fuel, rfl⟩ : ∃ k, fuel = k + 3 := ⟨fuel - 3, by omega⟩
  have hoperand := h.closed hrest (fuel + 1) 50 made (by omega)
  have hprimary : (primary (fuel + 2) false).run ⟨.op "!" :: (ts ++ rest), made⟩
      = some (.unary "!" n, ⟨rest, made + (n.size + 1)⟩) := by
    simp [primary, unaryPrecedence, hoperand, accesses_done hrest.follows, Nat.add_assoc]
  have hopens : Opens (.op "!" :: (ts ++ rest)) := ⟨_, _, rfl, by decide⟩
  rw [List.cons_append, expression_eq hopens, hprimary, Option.bind_some, operators_done hrest,
    Option.bind_some]
  exact choice_done hrest (fuel + 1) false _ _

/-- The operators that compare. -/
def comparing : List String :=
  [">", ">=", "<", "<="]

/-- The other operators between operands. -/
def combining : List String :=
  ["==", "&&", "||", "+", "-", "*", "/", "%"]

theorem comparing_or_combining : ∀ s ∈ infixSymbols, s ∈ comparing ∨ s ∈ combining := by
  decide

theorem operators_comparing {s : String} (hs : s ∈ comparing) (fuel : Nat) (inside : Bool)
    (n : Node) (ts : List Token) (made : Nat) :
    (operators (fuel + 1) inside 0 "" n).run ⟨.op s :: ts, made⟩ =
      ((comparison fuel inside s n none).run ⟨ts, made⟩).bind fun p =>
        (operators fuel inside 0 s p.1).run p.2 := by
  simp only [comparing, List.mem_cons, List.not_mem_nil, or_false] at hs
  rcases hs with rfl | rfl | rfl | rfl <;> rfl

theorem operators_combining {s : String} (hs : s ∈ combining) (fuel : Nat) (inside : Bool)
    (n : Node) (ts : List Token) (made : Nat) :
    (operators (fuel + 1) inside 0 "" n).run ⟨.op s :: ts, made⟩ =
      ((expression fuel inside ((precedence s).getD 0 + 1)).run ⟨ts, made⟩).bind fun p =>
        (operators fuel inside 0 s (.binary s n p.1)).run ⟨p.2.rest, p.2.made + 1⟩ := by
  simp only [combining, List.mem_cons, List.not_mem_nil, or_false] at hs
  rcases hs with rfl | rfl | rfl | rfl | rfl | rfl | rfl | rfl <;> rfl

/-- A comparison that no other follows is that of its two operands. -/
theorem comparison_done {rest : List Token} (hrest : Closes rest) (fuel : Nat) (s : String)
    (n m : Node) {ts : List Token} {made : Nat}
    (h : (expression fuel false 21).run ⟨ts, made⟩ = some (m, ⟨rest, made + m.size⟩)) :
    (comparison (fuel + 1) false s n none).run ⟨ts, made⟩
      = some (.binary s n m, ⟨rest, made + m.size + 1⟩) := by
  cases rest with
  | nil => simp [comparison, h]
  | cons t rest =>
    have ht := hrest t rfl
    simp only [closers, List.mem_cons, List.not_mem_nil, or_false] at ht
    rcases ht with rfl | rfl | rfl <;> simp [comparison, h, isComparison]

/-- Two operands with an operator between them. -/
theorem Operand.joined {ts us : List Token} {n m : Node} (h : Operand ts n) (h' : Operand us m)
    {s : String} (hs : s ∈ infixSymbols) : Whole (ts ++ .op s :: us) (.binary s n m) := by
  refine ⟨h.opens.append _, fun fuel rest made hfuel hrest => ?_⟩
  rw [List.length_append, List.length_cons] at hfuel
  have hpos := h.opens.length_pos
  obtain ⟨fuel, rfl⟩ : ∃ k, fuel = k + 4 := ⟨fuel - 4, by omega⟩
  have hleft := h.reads (fuel + 3) (.op s :: (us ++ rest)) made (by omega) (follows_cons hs _)
  have hoperators : (operators (fuel + 3) false 0 "" n).run ⟨.op s :: (us ++ rest), made + n.size⟩
      = some (.binary s n m, ⟨rest, made + (n.size + m.size + 1)⟩) := by
    have hmade : made + n.size + m.size + 1 = made + (n.size + m.size + 1) := by omega
    rcases comparing_or_combining s hs with hs | hs
    · have hright := h'.closed hrest (fuel + 1) 21 (made + n.size) (by omega)
      rw [operators_comparing hs, comparison_done hrest (fuel + 1) s n m hright, Option.bind_some,
        operators_done hrest, hmade]
    · have hright := h'.closed hrest (fuel + 2) ((precedence s).getD 0 + 1) (made + n.size)
        (by omega)
      rw [operators_combining hs, hright, Option.bind_some, operators_done hrest, hmade]
  rw [List.append_assoc, List.cons_append, expression_eq (h.opens.append _), hleft,
    Option.bind_some, hoperators, Option.bind_some]
  exact choice_done hrest (fuel + 2) false _ _

/-! ## Literals -/

theorem natOf_digits {ds : List Char} (hne : ds ≠ []) (hds : ∀ c ∈ ds, c.isDigit) :
    natOf 10 ds = some (Nat.ofDigitChars 10 ds 0) := by
  have hfold : ∀ acc, ds.foldlM (fun n c => do
      let v ← Text.hexValue c
      if v < 10 then some (n * 10 + v) else none) acc = some (Nat.ofDigitChars 10 ds acc) := by
    clear hne
    induction ds with
    | nil => exact fun acc => by rw [List.foldlM_nil, Nat.ofDigitChars_nil]; rfl
    | cons c ds ih =>
      intro acc
      rw [List.forall_mem_cons] at hds
      have hbounds := Token.isDigit_bounds hds.1
      have hlt : c.toNat - 0x30 < 10 := by omega
      rw [List.foldlM_cons, Token.hexValue_of_isDigit hds.1, Nat.ofDigitChars_cons,
        ← ih hds.2, Nat.mul_comm 10 acc]
      simp [hlt]
  rw [natOf, if_neg (by simpa using hne), hfold]

theorem toLower_of_isDigit {c : Char} (h : c.isDigit) : c.toLower = c := by
  have hbounds := Token.isDigit_bounds h
  have hdigits : ∀ n, n ≤ 0x39 → (Char.ofNat n).toLower = Char.ofNat n := by decide
  rw [← Char.ofNat_toNat c]
  exact hdigits c.toNat hbounds.2

/-- A number in decimal digits is an integer when it fits. -/
theorem ofNumber_repr {n : Nat} (h : n < 2 ^ 63) : ofNumber (Nat.repr n) = some (.integer n) := by
  have hdigits : ∀ c ∈ (Nat.repr n).toList, c.isDigit := fun _ hc => Text.isDigit_of_mem_repr hc
  have hne : (Nat.repr n).toList ≠ [] := by
    obtain ⟨c, r, hcr, _⟩ := Text.repr_eq_cons n
    rw [hcr]
    exact List.cons_ne_nil c r
  have hmark : ∀ d, d.isDigit = false → d ∉ (Nat.repr n).toList := by
    intro d hd hmem
    rw [hdigits d hmem] at hd
    cases hd
  have hplain : ((Nat.repr n).toList.filter (· ≠ '_')).map Char.toLower = (Nat.repr n).toList := by
    rw [List.filter_eq_self.mpr, List.map_congr_left (g := id), List.map_id]
    · exact fun c hc => toLower_of_isDigit (hdigits c hc)
    · intro c hc
      have hne : c ≠ '_' := fun e => hmark '_' (by decide) (e ▸ hc)
      simpa using hne
  have hfraction : ((Nat.repr n).toList.any fun c => c = '.' || c = 'e') = false := by
    rw [List.any_eq_false]
    intro c hc
    have hpoint : c ≠ '.' := fun e => hmark '.' (by decide) (e ▸ hc)
    have hexp : c ≠ 'e' := fun e => hmark 'e' (by decide) (e ▸ hc)
    simp [hpoint, hexp]
  have hvalue : natOf 10 (Nat.repr n).toList = some n := by
    rw [natOf_digits hne hdigits, Nat.toList_repr, Nat.ofDigitChars_ten_toDigits]
  have hbase : ∀ c ds, c.isDigit = false → (Nat.repr n).toList ≠ '0' :: c :: ds :=
    fun c ds hc heq => hmark c hc (by rw [heq]; simp)
  unfold ofNumber
  simp only [hplain]
  split
  · rename_i heq
    exact absurd heq (hbase 'x' _ (by decide))
  · rw [if_neg (by rw [hfraction]; decide)]
    split
    · rename_i heq
      exact absurd heq (hbase 'b' _ (by decide))
    · rename_i heq
      exact absurd heq (hbase 'o' _ (by decide))
    · rw [hvalue, Option.bind_some, Node.ofNat, if_pos h]

theorem Operand.integer {k : Nat} (h : k < 2 ^ 63) :
    Operand [.number (Nat.repr k)] (.integer k) := by
  refine ⟨⟨_, _, rfl, rfl⟩, fun fuel rest made hfuel _ => ?_⟩
  obtain ⟨fuel, rfl⟩ : ∃ j, fuel = j + 1 := ⟨fuel - 1, by simp at hfuel; omega⟩
  simp [primary, ofNumber_repr h, Node.size]

theorem Operand.negative {k : Nat} (h : k < 2 ^ 63) :
    Operand [.op "-", .number (Nat.repr k)] (.unary "-" (.integer k)) := by
  refine ⟨⟨_, _, rfl, by decide⟩, fun fuel rest made hfuel hrest => ?_⟩
  rw [List.length_cons, List.length_singleton] at hfuel
  obtain ⟨fuel, rfl⟩ : ∃ j, fuel = j + 3 := ⟨fuel - 3, by omega⟩
  have hopens : Opens ([.number (Nat.repr k)] ++ rest) := ⟨_, _, rfl, rfl⟩
  have hnumber := (Operand.integer h).reads (fuel + 1) rest made (by simp; omega) hrest
  have hsigned : (expression (fuel + 2) false 90).run ⟨[.number (Nat.repr k)] ++ rest, made⟩
      = some (.integer k, ⟨rest, made + 1⟩) := by
    rw [expression_eq hopens, hnumber, Option.bind_some, operators_sign hrest]
    rfl
  rw [List.singleton_append] at hsigned
  simp [primary, unaryPrecedence, hsigned, accesses_done hrest, Node.size]

theorem Operand.string (s : String) : Operand [.string s] (.string s) := by
  refine ⟨⟨_, _, rfl, rfl⟩, fun fuel rest made hfuel hrest => ?_⟩
  obtain ⟨fuel, rfl⟩ : ∃ j, fuel = j + 2 := ⟨fuel - 2, by simp at hfuel; omega⟩
  simp [primary, accesses_done hrest, Node.size]

theorem Operand.bool (b : Bool) :
    Operand [.word (if b then "true" else "false")] (.bool b) := by
  refine ⟨⟨_, _, rfl, rfl⟩, fun fuel rest made hfuel _ => ?_⟩
  obtain ⟨fuel, rfl⟩ : ∃ j, fuel = j + 1 := ⟨fuel - 1, by simp at hfuel; omega⟩
  cases b
  · simp [primary, Node.size]
  · simp [primary, Node.size]

/-! ## Rows of expressions -/

/-- Rows with commas between them. -/
def joinRows : List (List Token) → List Token
  | [] => []
  | ts :: more => ts ++ more.flatMap (.op "," :: ·)

theorem not_closer_of_starts {t : Token} (h : starts t) : t ∉ closers := by
  have hclosers : ∀ t ∈ closers, starts t = false := by decide
  intro ht
  rw [hclosers t ht] at h
  cases h

/-- An item is there, and behind it the end or a comma with more items. -/
theorem items_eq {close : Char} {ts : List Token} (hclose : .bracket close ∈ closers)
    (hts : Opens ts) (fuel made : Nat) (found : List Node) :
    (items (fuel + 1) false close found).run ⟨ts, made⟩ =
      ((expression fuel false 0).run ⟨ts, made⟩).bind fun p =>
        if p.2.rest.head? = some (.bracket close) then
          some (found.reverse ++ [p.1], ⟨p.2.rest.tail, p.2.made⟩)
        else if p.2.rest.head? = some (.op ",") then
          (items fuel false close (p.1 :: found)).run ⟨p.2.rest.tail, p.2.made⟩
        else none := by
  obtain ⟨t, r, rfl, ht⟩ := hts
  have hne : t ≠ .bracket close := fun e => not_closer_of_starts ht (e ▸ hclose)
  simp only [items, StateT.run_bind, run_at, List.head?_cons, Option.some_beq_some,
    beq_eq_false_iff_ne.mpr hne, Option.bind_eq_bind, Option.bind_some, Bool.false_eq_true,
    if_false]
  refine congrArg _ (funext fun p => ?_)
  by_cases hend : p.2.rest.head? = some (.bracket close)
  · simp [hend]
  · by_cases hcomma : p.2.rest.head? = some (.op ",")
    · simp [expect, hcomma]
    · simp [expect, hend, hcomma]

/-- Expressions with commas between them are read up to the closing bracket. -/
theorem items_joinRows {close : Char} (hclose : .bracket close ∈ closers)
    {rows : List (List Token)} {ns : List Node} (h : List.Forall₂ Whole rows ns)
    (found : List Node) (fuel : Nat) (rest : List Token) (made : Nat)
    (hfuel : 8 * (joinRows rows).length + 1 ≤ fuel) :
    (items fuel false close found).run ⟨joinRows rows ++ .bracket close :: rest, made⟩
      = some (found.reverse ++ ns, ⟨rest, made + Node.sizes ns⟩) := by
  induction h generalizing found fuel made with
  | nil =>
    obtain ⟨fuel, rfl⟩ : ∃ j, fuel = j + 1 := ⟨fuel - 1, by omega⟩
    simp [items, joinRows, Node.sizes]
  | @cons ts n rows ns hts htail ih =>
    obtain ⟨fuel, rfl⟩ : ∃ j, fuel = j + 1 := ⟨fuel - 1, by omega⟩
    cases htail with
    | nil =>
      rw [joinRows, List.flatMap_nil, List.append_nil] at hfuel ⊢
      rw [items_eq hclose (hts.opens.append _), hts.reads fuel (.bracket close :: rest) made
        (by omega) (closes_cons hclose rest), Option.bind_some]
      exact if_pos rfl
    | @cons us m rows ms hus htail =>
      have hlist : joinRows (ts :: us :: rows) = ts ++ .op "," :: joinRows (us :: rows) := by
        simp [joinRows]
      rw [hlist] at hfuel ⊢
      simp only [List.length_append, List.length_cons] at hfuel
      rw [List.append_assoc, items_eq hclose (hts.opens.append _), List.cons_append,
        hts.reads fuel _ made (by omega) (closes_cons (by decide) _), Option.bind_some]
      simp [ih (n :: found) fuel (made + n.size) (by omega), Node.sizes, Nat.add_assoc]

theorem Operand.array {rows : List (List Token)} {ns : List Node}
    (h : List.Forall₂ Whole rows ns) :
    Operand (.bracket '[' :: (joinRows rows ++ [.bracket ']'])) (.array ns) := by
  refine ⟨⟨_, _, rfl, by decide⟩, fun fuel rest made hfuel hrest => ?_⟩
  simp only [List.length_cons, List.length_append, List.length_nil] at hfuel
  obtain ⟨fuel, rfl⟩ : ∃ j, fuel = j + 2 := ⟨fuel - 2, by omega⟩
  have hitems := items_joinRows (show Token.bracket ']' ∈ closers by decide) h [] (fuel + 1) rest
    made (by omega)
  rw [List.cons_append, List.append_assoc, List.singleton_append]
  simp [primary, hitems, accesses_done hrest, Node.size, Nat.add_assoc]

/-! ## Chains of names -/

/-- The members of `n` along a chain of names. -/
def chainNode (n : Node) (more : List (List Char)) : Node :=
  more.foldl (fun object w => .member object (.string (String.ofList w)) false) n

/-- The tokens of a chain behind its first name. -/
def pointTokens (more : List (List Char)) : List Token :=
  more.flatMap fun w => [.op ".", Token.ofWord (String.ofList w)]

/-- Words that stand for values and cannot be called. -/
def valueWords : List String :=
  ["true", "false", "nil"]

/-- A name or a member of one. -/
def isLink : Node → Bool
  | .ident _ | .member _ _ _ => true
  | _ => false

theorem size_chainNode (n : Node) (more : List (List Char)) :
    (chainNode n more).size = n.size + 2 * more.length := by
  induction more generalizing n with
  | nil => rfl
  | cons w more ih =>
    have hstep := ih (.member n (.string (String.ofList w)) false)
    rw [chainNode, List.foldl_cons, ← chainNode, hstep, List.length_cons]
    simp only [Node.size]
    omega

/-- Every word is a name behind a point. -/
theorem run_propertyName (w : String) (ts : List Token) (made : Nat) :
    propertyName.run ⟨Token.ofWord w :: ts, made⟩ = some (w, ⟨ts, made⟩) := by
  by_cases hw : Token.operatorWords.contains w
  · rw [Token.ofWord, if_pos hw]
    simp [propertyName, List.contains_iff_mem.mp hw]
  · rw [Token.ofWord, if_neg hw]
    simp [propertyName]

theorem property_link {n : Node} (hn : isLink n) (w : String) {ts : List Token}
    (hts : ts.head? ≠ some (.bracket '(')) (fuel made : Nat) :
    (property (fuel + 1) false n false).run ⟨Token.ofWord w :: ts, made⟩
      = some (.member n (.string w) false, ⟨ts, made + 2⟩) := by
  cases n with
  | ident name => simp [property, run_propertyName, hts]
  | member object part optional => simp [property, run_propertyName, hts]
  | _ => cases hn

theorem property_call {n : Node} (hn : isLink n) (w : String) (ts : List Token)
    (fuel made : Nat) :
    (property (fuel + 1) false n false).run ⟨Token.ofWord w :: .bracket '(' :: ts, made⟩ =
      ((items fuel false ')' []).run ⟨ts, made + 2⟩).map fun p =>
        (.call (.member n (.string w) false) p.1, ⟨p.2.rest, p.2.made + 1⟩) := by
  cases n with
  | ident name => simp [property, run_propertyName, Option.map_eq_bind]
  | member object part optional =>
    simp [property, run_propertyName, Option.map_eq_bind]
  | _ => cases hn

theorem accesses_point (fuel made : Nat) (n : Node) (ts : List Token) :
    (accesses (fuel + 1) false n).run ⟨.op "." :: ts, made⟩ =
      ((property fuel false n false).run ⟨ts, made⟩).bind fun p =>
        (accesses fuel false p.1).run p.2 := rfl

theorem pointTokens_cons (w : List Char) (more : List (List Char)) :
    pointTokens (w :: more) = .op "." :: Token.ofWord (String.ofList w) :: pointTokens more := by
  rw [pointTokens, List.flatMap_cons, List.cons_append, List.singleton_append, pointTokens]

theorem length_pointTokens (more : List (List Char)) :
    (pointTokens more).length = 2 * more.length := by
  induction more with
  | nil => rfl
  | cons w more ih =>
    rw [pointTokens_cons, List.length_cons, List.length_cons, ih, List.length_cons]
    omega

/-- What stands behind a link of a chain opens no argument list. -/
theorem head_pointTokens (more : List (List Char)) {rest : List Token}
    (hrest : rest.head? ≠ some (.bracket '(')) :
    (pointTokens more ++ rest).head? ≠ some (.bracket '(') := by
  cases more with
  | nil => exact hrest
  | cons w more =>
    rw [pointTokens_cons]
    simp

theorem Follows.head_ne {rest : List Token} (h : Follows rest) :
    rest.head? ≠ some (.bracket '(') :=
  fun e => absurd (h (.bracket '(') e) (by decide)

/-- A chain of names is read link by link. -/
theorem accesses_chain {n : Node} (hn : isLink n) (more : List (List Char)) {rest : List Token}
    (hrest : Follows rest) (fuel made : Nat) (hfuel : more.length + 2 ≤ fuel) :
    (accesses fuel false n).run ⟨pointTokens more ++ rest, made⟩
      = some (chainNode n more, ⟨rest, made + 2 * more.length⟩) := by
  induction more generalizing n fuel made with
  | nil =>
    obtain ⟨fuel, rfl⟩ : ∃ j, fuel = j + 1 := ⟨fuel - 1, by omega⟩
    exact accesses_done hrest fuel false n made
  | cons w more ih =>
    rw [List.length_cons] at hfuel ⊢
    obtain ⟨fuel, rfl⟩ : ∃ j, fuel = j + 2 := ⟨fuel - 2, by omega⟩
    rw [pointTokens_cons, List.cons_append, List.cons_append, accesses_point,
      property_link hn _ (head_pointTokens more hrest.head_ne), Option.bind_some,
      ih rfl (fuel + 1) (made + 2) (by omega), Nat.mul_add, Nat.add_assoc, Nat.add_comm 2]
    rfl

/-- A chain of names with arguments behind it calls the last link. -/
theorem accesses_chainCall {n : Node} (hn : isLink n) (w : List Char) (more : List (List Char))
    (ts : List Token) (fuel made : Nat) :
    (accesses (fuel + more.length + 2) false n).run
        ⟨pointTokens (w :: more) ++ .bracket '(' :: ts, made⟩ =
      ((items fuel false ')' []).run ⟨ts, made + 2 * (more.length + 1)⟩).bind fun p =>
        (accesses (fuel + 1) false (.call (chainNode n (w :: more)) p.1)).run
          ⟨p.2.rest, p.2.made + 1⟩ := by
  induction more generalizing n w made with
  | nil =>
    rw [pointTokens_cons, List.cons_append, List.cons_append, accesses_point]
    show ((property (fuel + 1) false n false).run
      ⟨Token.ofWord (String.ofList w) :: .bracket '(' :: ts, made⟩).bind _ = _
    rw [property_call hn, Option.bind_map]
    rfl
  | cons u more ih =>
    have hhead : (pointTokens (u :: more) ++ .bracket '(' :: ts).head? ≠ some (.bracket '(') := by
      rw [pointTokens_cons]
      simp
    have hmade : made + 2 + 2 * (more.length + 1) = made + 2 * (more.length + 1 + 1) := by omega
    have hstep := ih (n := .member n (.string (String.ofList w)) false) rfl u (made + 2)
    rw [hmade] at hstep
    rw [pointTokens_cons w, List.cons_append, List.cons_append, List.length_cons, ← Nat.add_assoc,
      accesses_point, property_link hn _ hhead, Option.bind_some, hstep]
    rfl

/-- A word that is no value and is not called is a name with accesses behind it. -/
theorem primary_word {w : String} (hw : w ∉ valueWords) {ts : List Token}
    (hts : ts.head? ≠ some (.bracket '(')) (fuel made : Nat) :
    (primary (fuel + 1) false).run ⟨.word w :: ts, made⟩
      = (accesses fuel false (.ident w)).run ⟨ts, made + 1⟩ := by
  simp only [valueWords, List.mem_cons, List.not_mem_nil, or_false, not_or] at hw
  simp [primary, hw.1, hw.2.1, hw.2.2, hts]

/-- A word with arguments behind it is called. -/
theorem primary_call {w : String} (hw : w ∉ valueWords) (ts : List Token) (fuel made : Nat) :
    (primary (fuel + 1) false).run ⟨.word w :: .bracket '(' :: ts, made⟩
      = (call fuel false w []).run ⟨.bracket '(' :: ts, made⟩ := by
  simp only [valueWords, List.mem_cons, List.not_mem_nil, or_false, not_or] at hw
  simp [primary, hw.1, hw.2.1, hw.2.2]

/-- A name whose first part is no word of the language. -/
theorem Operand.chain {w : String} (hw : w ∉ valueWords) (more : List (List Char)) :
    Operand (.word w :: pointTokens more) (chainNode (.ident w) more) := by
  refine ⟨⟨_, _, rfl, rfl⟩, fun fuel rest made hfuel hrest => ?_⟩
  rw [List.length_cons, length_pointTokens] at hfuel
  obtain ⟨fuel, rfl⟩ : ∃ j, fuel = j + 1 := ⟨fuel - 1, by omega⟩
  rw [List.cons_append, primary_word hw (head_pointTokens more hrest.head_ne),
    accesses_chain rfl more hrest fuel (made + 1) (by omega), size_chainNode, Node.size,
    Nat.add_assoc]

/-- A call of a chain of at least two names. -/
theorem Operand.chainCall {w : String} (hw : w ∉ valueWords) (u : List Char)
    (more : List (List Char)) {rows : List (List Token)} {ns : List Node}
    (h : List.Forall₂ Whole rows ns) :
    Operand (.word w :: (pointTokens (u :: more) ++ .bracket '(' ::
      (joinRows rows ++ [.bracket ')']))) (.call (chainNode (.ident w) (u :: more)) ns) := by
  refine ⟨⟨_, _, rfl, rfl⟩, fun fuel rest made hfuel hrest => ?_⟩
  have hhead : (pointTokens (u :: more) ++ .bracket '(' ::
      (joinRows rows ++ .bracket ')' :: rest)).head? ≠ some (.bracket '(') := by
    rw [pointTokens_cons]
    simp
  simp only [List.length_cons, List.length_append, length_pointTokens, List.length_nil] at hfuel
  obtain ⟨fuel, rfl⟩ : ∃ j, fuel = j + more.length + 3 := ⟨fuel - more.length - 3, by omega⟩
  have hitems := items_joinRows (show Token.bracket ')' ∈ closers by decide) h [] fuel rest
    (made + 1 + 2 * (more.length + 1)) (by omega)
  simp only [List.cons_append, List.append_assoc, List.nil_append]
  rw [primary_word hw hhead, accesses_chainCall rfl, hitems, Option.bind_some, accesses_done hrest,
    Node.size, size_chainNode, Node.size, List.length_cons]
  simp only [List.reverse_nil, List.nil_append, Nat.add_assoc, Nat.add_comm 1]

/-! ## Calls -/

/-- The tree of a call of one word: predefined functions have a form of their own. -/
def callNode (w : String) (args : List Node) : Node :=
  if builtins.contains w then .builtin w args else .call (.ident w) args

theorem call_word {w : String} (hshape : predicateShape w = none) (ts : List Token)
    (fuel made : Nat) :
    (call (fuel + 1) false w []).run ⟨.bracket '(' :: ts, made⟩ =
      ((items fuel false ')' []).run ⟨ts, made + if builtins.contains w then 0 else 1⟩).bind
        fun p => (accesses fuel false (callNode w p.1)).run ⟨p.2.rest, p.2.made + 1⟩ := by
  by_cases hb : builtins.contains w
  · simp [Grammar.call, hshape, List.contains_iff_mem.mp hb, callNode]
  · have hmem : w ∉ builtins := fun hmem => hb (List.contains_iff_mem.mpr hmem)
    simp [Grammar.call, hshape, hmem, callNode]

/-- A call of one word that takes no predicate. -/
theorem Operand.call {w : String} (hw : w ∉ valueWords) (hshape : predicateShape w = none)
    {rows : List (List Token)} {ns : List Node} (h : List.Forall₂ Whole rows ns) :
    Operand (.word w :: .bracket '(' :: (joinRows rows ++ [.bracket ')'])) (callNode w ns) := by
  refine ⟨⟨_, _, rfl, rfl⟩, fun fuel rest made hfuel hrest => ?_⟩
  simp only [List.length_cons, List.length_append, List.length_nil] at hfuel
  obtain ⟨fuel, rfl⟩ : ∃ j, fuel = j + 3 := ⟨fuel - 3, by omega⟩
  have hitems := items_joinRows (show Token.bracket ')' ∈ closers by decide) h [] (fuel + 1) rest
    (made + if builtins.contains w then 0 else 1) (by omega)
  simp only [List.cons_append, List.append_assoc, List.nil_append]
  rw [primary_call hw, call_word hshape, hitems, Option.bind_some, accesses_done hrest,
    List.reverse_nil, List.nil_append]
  by_cases hb : builtins.contains w
  · rw [callNode, if_pos hb, if_pos hb, Node.size]
    rfl
  · rw [callNode, if_neg hb, if_neg hb, Node.size, Node.size]
    simp only [Nat.add_assoc]

/-- The functions whose predicate may be left out. -/
def foldingWords : List String :=
  ["count", "sum"]

/-- What is read behind the first argument of such a function. -/
def foldRest (fuel : Nat) (w : String) (n : Node) : Reader Node := do
  let ns ← predicateArgs fuel false false [⟨true, true⟩]
  if ← at? (.op ",") then advance
  expect (.bracket ')')
  let m ← make (.builtin w (n :: ns))
  accesses (fuel + 1) false m

theorem not_value_of_folding : ∀ w ∈ foldingWords, w ∉ valueWords := by
  decide

theorem call_fold {w : String} (hw : w ∈ foldingWords) (ts : List Token) (fuel made : Nat) :
    (call (fuel + 2) false w []).run ⟨.bracket '(' :: ts, made⟩ =
      ((expression fuel false 0).run ⟨ts, made⟩).bind fun p => (foldRest fuel w p.1).run p.2 := by
  have hshape : predicateShape w = some [⟨false, false⟩, ⟨true, true⟩] := by
    simp only [foldingWords, List.mem_cons, List.not_mem_nil, or_false] at hw
    rcases hw with rfl | rfl <;> rfl
  simp [Grammar.call, hshape, predicateArgs, foldRest]

/-- A call of a function whose predicate is left out. -/
theorem Operand.fold {w : String} (hw : w ∈ foldingWords) {ts : List Token} {n : Node}
    (h : Whole ts n) :
    Operand (.word w :: .bracket '(' :: (ts ++ [.bracket ')'])) (.builtin w [n]) := by
  refine ⟨⟨_, _, rfl, rfl⟩, fun fuel rest made hfuel hrest => ?_⟩
  simp only [List.length_cons, List.length_append, List.length_nil] at hfuel
  obtain ⟨fuel, rfl⟩ : ∃ j, fuel = j + 4 := ⟨fuel - 4, by omega⟩
  have hcloses : Closes (.bracket ')' :: rest) := closes_cons (by decide) rest
  have hread := h.reads (fuel + 1) (.bracket ')' :: rest) made (by omega) hcloses
  simp only [List.cons_append, List.append_assoc, List.nil_append]
  rw [primary_call (not_value_of_folding w hw), call_fold hw, hread, Option.bind_some]
  simp [foldRest, predicateArgs, accesses_done hrest, Node.size, Node.sizes, Nat.add_assoc]

/-! ## Rows as a whole -/

/-- A row that is an expression is a tree when the tree is not too large. -/
theorem Whole.ofTokens {ts : List Token} {n : Node} (h : Whole ts n) :
    ofTokens? ts = if n.size ≤ maxNodes then some n else none := by
  have hcloses : Closes [] := by
    intro t ht
    cases ht
  have hread := h.reads (16 * ts.length + 31) [] 0 (by omega) hcloses
  rw [List.append_nil, Nat.zero_add] at hread
  have hsequence : (sequence (fuelFor ts) false).run ⟨ts, 0⟩ = some (n, ⟨[], n.size⟩) := by
    simp [fuelFor, sequence, hread, sequenceRest_done hcloses]
  simp [ofTokens?, hsequence]

end Grammar

end Lowlang.Expr
