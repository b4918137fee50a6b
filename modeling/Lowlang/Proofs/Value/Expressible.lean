import Lowlang.Proofs.Expr.Reading
import Lowlang.Proofs.Ty.RoundTrip
import Lowlang.Value.Source

set_option autoImplicit false

/-!
# Expressible values

Which values have a text, and which of them can be told from it.  A value has a text when
none of the nodes that writing visits lacks one.  It is formed when in addition its types have
texts of their own and its names start with a word that means nothing else in expressions, and
expressible when its characters exist and its names are chains of words as well.
-/

namespace Lowlang.Value

open Lowlang.Expr (Token)
open Lowlang.Expr.Node (builtins predicateShape)
open Lowlang.Expr.Grammar (valueWords foldingWords)

/-! ## Values without a text -/

/-- The node itself has no text. -/
def Unwritable : Value → Prop
  | .absent | .custom _ _ _ | .type _ none | .other _ _ _ _ => True
  | .int _ i => i = Int64.minValue
  | .uint _ n => 2 ^ 63 ≤ n.toNat
  | _ => False

mutual

/-- The nodes that writing a value visits.  The second place of a one-operand operator is
not visited. -/
def visited : Value → List Value
  | .list p elems => .list p elems :: visitedAll elems
  | .call p n args => .call p n args :: visitedAll args
  | .operator p op x y =>
    .operator p op x y :: (visited x ++ if op.isUnary then [] else visited y)
  | v => [v]
termination_by structural v => v

/-- The nodes that writing some values visits. -/
def visitedAll : List Value → List Value
  | [] => []
  | v :: vs => visited v ++ visitedAll vs
termination_by structural v => v

end

/-- The computation succeeds exactly when no node in the list is without a text. -/
def WrittenIff {α : Type} (e : Except Fault α) (nodes : List Value) : Prop :=
  (∃ a, e = .ok a) ↔ ∀ u ∈ nodes, ¬ Unwritable u

theorem WrittenIff.ok {α : Type} (a : α) : WrittenIff (.ok a) [] := by
  constructor
  · intro _ u hu
    cases hu
  · intro _
    exact ⟨a, rfl⟩

theorem WrittenIff.error {α : Type} (f : Fault) {v : Value} (h : Unwritable v) :
    WrittenIff (.error f : Except Fault α) [v] := by
  constructor
  · rintro ⟨a, ha⟩
    cases ha
  · intro hall
    exact absurd h (hall v List.mem_cons_self)

/-- Two computations in a row visit the nodes of both. -/
theorem WrittenIff.bind {α β : Type} {e : Except Fault α} {k : α → Except Fault β}
    {us ws : List Value} (h : WrittenIff e us) (hk : ∀ a, WrittenIff (k a) ws) :
    WrittenIff (e >>= k) (us ++ ws) := by
  unfold WrittenIff at *
  rw [List.forall_mem_append, ← h]
  constructor
  · rintro ⟨b, hb⟩
    obtain ⟨a, ha, hb⟩ := Fault.bind_ok hb
    exact ⟨⟨a, ha⟩, (hk a).mp ⟨b, hb⟩⟩
  · rintro ⟨⟨a, rfl⟩, hws⟩
    exact (hk a).mpr hws

theorem WrittenIff.map {α β : Type} {e : Except Fault α} {us : List Value}
    (h : WrittenIff e us) (g : α → β) : WrittenIff (e >>= fun a => .ok (g a)) us := by
  have hbind : WrittenIff (e >>= fun a => .ok (g a)) (us ++ []) := h.bind fun a => .ok (g a)
  rwa [List.append_nil] at hbind

/-- A node that has a text of its own leaves the question to its parts. -/
theorem WrittenIff.cons {α : Type} {e : Except Fault α} {us : List Value} (h : WrittenIff e us)
    {v : Value} (hv : ¬ Unwritable v) : WrittenIff e (v :: us) := by
  unfold WrittenIff at *
  rw [List.forall_mem_cons, h]
  constructor
  · intro hus
    exact ⟨hv, hus⟩
  · intro hus
    exact hus.2

/-- A computation that may fail fails when some node is without a text. -/
theorem WrittenIff.failed {α : Type} {e : Except Fault α} {us : List Value}
    (h : WrittenIff e us) : (∃ f, e = .error f) ↔ ∃ u ∈ us, Unwritable u := by
  have hsome : (∃ u ∈ us, Unwritable u) ↔ ¬ ∃ a, e = .ok a := by
    unfold WrittenIff at h
    rw [h]
    push Not
    rfl
  rw [hsome]
  cases e with
  | ok a =>
    refine iff_of_false ?_ fun hnone => hnone ⟨a, rfl⟩
    rintro ⟨f, hf⟩
    cases hf
  | error f =>
    refine iff_of_true ⟨f, rfl⟩ ?_
    rintro ⟨a, ha⟩
    cases ha

mutual

/-- A value has a text when every node that writing visits has one. -/
theorem source_writtenIff : ∀ v : Value, WrittenIff (source v) (visited v)
  | .absent => .error _ trivial
  | .int p i => by
    by_cases hi : i = Int64.minValue
    · rw [source, if_pos hi]
      exact .error _ hi
    · rw [source, if_neg hi]
      exact (WrittenIff.ok _).cons hi
  | .uint p n => by
    by_cases hn : n.toNat < 2 ^ 63
    · rw [source, if_pos hn]
      exact (WrittenIff.ok _).cons (Nat.not_le.mpr hn)
    · rw [source, if_neg hn]
      exact .error _ (Nat.not_lt.mp hn)
  | .byte p b => (WrittenIff.ok _).cons id
  | .char p c => (WrittenIff.ok _).cons id
  | .bool p b => (WrittenIff.ok _).cons id
  | .list p elems => ((sourceJoin_writtenIff elems).map _).cons id
  | .custom p t fields => .error _ trivial
  | .type p none => .error _ trivial
  | .type p (some t) => (WrittenIff.ok _).cons id
  | .name p n => (WrittenIff.ok _).cons id
  | .call p n args => ((sourceJoin_writtenIff args).map _).cons id
  | .operator p op x y => by
    refine WrittenIff.cons ?_ id
    rw [source]
    split
    · refine (source_writtenIff x).bind ?_
      intro a
      split
      · exact .ok _
      · exact (source_writtenIff y).map _
    · refine (source_writtenIff x).bind ?_
      intro a
      split
      · exact .ok _
      · exact (source_writtenIff y).map _
  | .other p k x y => .error _ trivial
termination_by structural v => v

/-- Values with commas between them have a text when every node visited has one. -/
theorem sourceJoin_writtenIff : ∀ vs : List Value, WrittenIff (sourceJoin vs) (visitedAll vs)
  | [] => .ok _
  | v :: vs => (source_writtenIff v).bind fun _ => (sourceRest_writtenIff vs).map _
termination_by structural vs => vs

/-- Values with a comma before each have a text when every node visited has one. -/
theorem sourceRest_writtenIff : ∀ vs : List Value, WrittenIff (sourceRest vs) (visitedAll vs)
  | [] => .ok _
  | v :: vs => (source_writtenIff v).bind fun _ => (sourceRest_writtenIff vs).map _
termination_by structural vs => vs

end

/-! ## Names -/

/-- A chain of words with points between them, of which the first stands for nothing else. -/
structure IsPlain (name : String) : Prop where
  first : Token.isIdentifier (Token.segments name.toList).1
  unreserved : String.ofList (Token.segments name.toList).1 ∉ Token.operatorWords ++ valueWords
  more : ∀ w ∈ (Token.segments name.toList).2, Token.isIdentifier w

/-- A name under which a function of `count` arguments is called: it builds no literal and
stands for no operator, and when the function may take a predicate it is called without. -/
structure IsCallable (name : String) (count : Nat) : Prop where
  plain : IsPlain name
  literal : isLiteralFunction name = false
  bitwise : bitwiseFunction name = none
  shape : predicateShape name = none ∨ name ∈ foldingWords ∧ count = 1

/-- A name whose first part stands for nothing else. -/
structure IsHeaded (name : String) : Prop where
  first : Token.isIdentifier (Token.segments name.toList).1
  unreserved : String.ofList (Token.segments name.toList).1 ∉ Token.operatorWords ++ valueWords

/-- A name under which a function is called.  A word for a value can be called as well. -/
structure IsCallee (name : String) (count : Nat) : Prop where
  first : Token.isIdentifier (Token.segments name.toList).1
  inert : String.ofList (Token.segments name.toList).1 ∉ Token.operatorWords
  member : (Token.segments name.toList).2 ≠ [] → IsHeaded name
  literal : isLiteralFunction name = false
  bitwise : bitwiseFunction name = none
  shape : predicateShape name = none ∨ name ∈ foldingWords ∧ count = 1

/-! ## Formed values -/

mutual

/-- The value can be told from a text, but for its characters and the parts of its names. -/
def Formed : Value → Prop
  | .int _ i => i ≠ Int64.minValue
  | .uint _ n => n.toNat < 2 ^ 63
  | .byte _ _ | .bool _ _ | .char _ _ => True
  | .list _ elems => FormedAll elems
  | .type _ (some t) => t.Canonical
  | .name _ n => IsHeaded n
  | .call _ n args => IsCallee n args.length ∧ FormedAll args
  | .operator _ op x y => Formed x ∧ if op.isUnary then y = .absent else Formed y
  | .absent | .custom _ _ _ | .type _ none | .other _ _ _ _ => False
termination_by structural v => v

/-- All values are formed. -/
def FormedAll : List Value → Prop
  | [] => True
  | v :: vs => Formed v ∧ FormedAll vs
termination_by structural v => v

end

mutual

/-- Writing a formed value visits no node without a text. -/
theorem Formed.writable : ∀ {v : Value}, Formed v → ∀ u ∈ visited v, ¬ Unwritable u
  | .int p i, h => List.forall_mem_singleton.mpr h
  | .uint p n, h => List.forall_mem_singleton.mpr (Nat.not_le.mpr h)
  | .byte p b, _ => List.forall_mem_singleton.mpr id
  | .char p c, _ => List.forall_mem_singleton.mpr id
  | .bool p b, _ => List.forall_mem_singleton.mpr id
  | .type p (some t), _ => List.forall_mem_singleton.mpr id
  | .name p n, _ => List.forall_mem_singleton.mpr id
  | .list p elems, h => List.forall_mem_cons.mpr ⟨id, FormedAll.writable h⟩
  | .call p n args, h => List.forall_mem_cons.mpr ⟨id, FormedAll.writable h.2⟩
  | .operator p op x y, ⟨hx, hy⟩ => by
    refine List.forall_mem_cons.mpr ⟨id, List.forall_mem_append.mpr ⟨hx.writable, ?_⟩⟩
    split
    · intro u hu
      cases hu
    · rename_i hop
      rw [if_neg hop] at hy
      exact hy.writable
  | .absent, h | .custom _ _ _, h | .type _ none, h | .other _ _ _ _, h => h.elim
termination_by structural v => v

/-- Writing formed values visits no node without a text. -/
theorem FormedAll.writable : ∀ {vs : List Value}, FormedAll vs →
    ∀ u ∈ visitedAll vs, ¬ Unwritable u
  | [], _ => fun _ hu => nomatch hu
  | _ :: _, h => List.forall_mem_append.mpr ⟨h.1.writable, FormedAll.writable h.2⟩
termination_by structural vs => vs

end

/-! ## Expressible values -/

mutual

/-- The value can be told from its text. -/
def Expressible : Value → Prop
  | .int _ i => i ≠ Int64.minValue
  | .uint _ n => n.toNat < 2 ^ 63
  | .byte _ _ | .bool _ _ => True
  | .char _ c => Text.IsScalar c
  | .list _ elems => ExpressibleAll elems
  | .type _ (some t) => t.Canonical
  | .name _ n => IsPlain n
  | .call _ n args => IsCallable n args.length ∧ ExpressibleAll args
  | .operator _ op x y => Expressible x ∧ if op.isUnary then y = .absent else Expressible y
  | .absent | .custom _ _ _ | .type _ none | .other _ _ _ _ => False
termination_by structural v => v

/-- All values can be told from their texts. -/
def ExpressibleAll : List Value → Prop
  | [] => True
  | v :: vs => Expressible v ∧ ExpressibleAll vs
termination_by structural v => v

end

theorem IsPlain.headed {name : String} (h : IsPlain name) : IsHeaded name :=
  ⟨h.first, h.unreserved⟩

theorem IsCallable.callee {name : String} {count : Nat} (h : IsCallable name count) :
    IsCallee name count :=
  ⟨h.plain.first, fun hmem => h.plain.unreserved (List.mem_append_left _ hmem),
    fun _ => h.plain.headed, h.literal, h.bitwise, h.shape⟩

mutual

/-- An expressible value is formed. -/
theorem Expressible.formed : ∀ {v : Value}, Expressible v → Formed v
  | .int _ _, h | .uint _ _, h | .type _ (some _), h => h
  | .byte _ _, _ | .bool _ _, _ | .char _ _, _ => trivial
  | .list _ elems, h => (show ExpressibleAll elems from h).formed
  | .name _ _, h => h.headed
  | .call _ _ _, h => ⟨h.1.callee, h.2.formed⟩
  | .operator _ op x y, ⟨hx, hy⟩ => by
    refine ⟨hx.formed, ?_⟩
    by_cases hop : op.isUnary
    · rw [if_pos hop] at hy ⊢
      exact hy
    · rw [if_neg hop] at hy ⊢
      exact hy.formed
  | .absent, h | .custom _ _ _, h | .type _ none, h | .other _ _ _ _, h => h.elim
termination_by structural v => v

/-- Expressible values are formed. -/
theorem ExpressibleAll.formed : ∀ {vs : List Value}, ExpressibleAll vs → FormedAll vs
  | [], _ => trivial
  | _ :: _, h => ⟨h.1.formed, ExpressibleAll.formed h.2⟩
termination_by structural vs => vs

end

/-! ## Nodes -/

/-- The nodes of a name: one for its first part, and two for each further one. -/
def nameNodes (name : String) : Nat :=
  2 * (Token.segments name.toList).2.length + 1

mutual

/-- The nodes of the expression a value is written as. -/
def nodeCount : Value → Nat
  | .int _ i => if i < 0 then 2 else 1
  | .uint _ _ | .byte _ _ => 3
  | .char _ _ | .bool _ _ => 1
  | .list _ elems => nodeCounts elems + 1
  | .type _ _ => 2
  | .name _ n => nameNodes n
  | .call _ n args =>
    -- A predefined function is part of its call and no node of its own.
    (if builtins.contains n || (predicateShape n).isSome then 0 else nameNodes n)
      + nodeCounts args + 1
  | .operator _ op x y => nodeCount x + (if op.isUnary then 0 else nodeCount y) + 1
  | .absent | .custom _ _ _ | .other _ _ _ _ => 0
termination_by structural v => v

/-- The nodes of the expressions some values are written as. -/
def nodeCounts : List Value → Nat
  | [] => 0
  | v :: vs => nodeCount v + nodeCounts vs
termination_by structural v => v

end

end Lowlang.Value
