import Lowlang.Proofs.Script.Work
import Lowlang.Proofs.Stmt.Positions

set_option autoImplicit false

/-!
# Positions in scripts

A script does not show where its statements were written, and lowering decides nothing by it.  When
all nodes of a block are moved, the script stays the same, and so does the fault if there is one,
but for the position that it reports.
-/

namespace Lowlang

/-- The fault without the position it reports. -/
def Fault.unplaced : Fault → Fault
  | .report origin msg attrs cause =>
    .report origin msg (attrs.filter fun a => a.1 ≠ "pos") cause
  | .namePresent name _ => .namePresent name .none
  | .nameNotFound name _ => .nameNotFound name .none
  | .unsupported target construct _ => .unsupported target construct .none
  | .document _ reason cause => .document .none reason cause
  | f => f

/-- The faults differ at most in the positions they report. -/
def Fault.Similar (f g : Fault) : Prop :=
  f.unplaced = g.unplaced

namespace Script

open Stateful (Pairs Matches)

/-! ## Values -/

/-- Both results are one value, or both are faults that differ at most in positions. -/
abbrev Corresponds {α : Type} (e e' : Except Fault α) : Prop :=
  Pairs Fault.Similar Eq e e'

theorem Corresponds.bind {α β : Type} {e e' : Except Fault α} {k k' : α → Except Fault β}
    (h : Corresponds e e') (hk : ∀ a, Corresponds (k a) (k' a)) :
    Corresponds (e >>= k) (e' >>= k') := by
  refine Pairs.bind h ?_
  rintro a _ rfl
  exact hk a

/-- Results correspond when they are equal once positions are taken off the faults. -/
theorem corresponds_iff {α : Type} {e e' : Except Fault α} :
    Corresponds e e' ↔ e.mapError Fault.unplaced = e'.mapError Fault.unplaced := by
  cases e with
  | error f =>
    cases e' with
    | error g => exact ⟨congrArg _, Except.error.inj⟩
    | ok b => exact iff_of_false id nofun
  | ok a =>
    cases e' with
    | error g => exact iff_of_false id nofun
    | ok b => exact ⟨congrArg _, Except.ok.inj⟩

theorem Corresponds.map {α β : Type} {e e' : Except Fault α} (h : Corresponds e e') (g : α → β) :
    Corresponds (e >>= fun a => .ok (g a)) (e' >>= fun a => .ok (g a)) :=
  h.bind fun _ => rfl

theorem group_moved (p : Pos) (v : Value) (s : String) : group (v.moved p) s = group v s := by
  cases v <;> rfl

mutual

/-- A value has the same script wherever it stands. -/
theorem value_moved (scope : Registry) (p : Pos) :
    ∀ v : Value, Corresponds (value scope (v.moved p)) (value scope v)
  | .list _ xs => (values_moved scope p xs).map _
  | .custom _ _ fs => (members_moved scope p fs).map _
  | .name _ n => by
    unfold Value.moved value
    split <;> rfl
  | .call _ n xs => by
    unfold Value.moved value
    split
    · exact (values_moved scope p xs).map _
    · rfl
  | .operator _ op x y => by
    unfold Value.moved value
    refine (value_moved scope p x).bind fun a => ?_
    rw [group_moved]
    split
    · rfl
    · refine (value_moved scope p y).bind fun b => ?_
      rw [group_moved]
      rfl
  | .absent | .int _ _ | .uint _ _ | .byte _ _ | .char _ _ | .bool _ _ | .type _ _
  | .other _ _ _ _ => rfl
termination_by structural v => v

theorem values_moved (scope : Registry) (p : Pos) :
    ∀ vs : List Value, Corresponds (values scope (Value.movedAll p vs)) (values scope vs)
  | [] => rfl
  | v :: vs => (value_moved scope p v).bind fun _ => (values_moved scope p vs).map _
termination_by structural vs => vs

theorem members_moved (scope : Registry) (p : Pos) : ∀ fs : List (String × Value),
    Corresponds (members scope (Value.movedFields p fs)) (members scope fs)
  | [] => rfl
  | (_, v) :: fs => (value_moved scope p v).bind fun _ => (members_moved scope p fs).map _
termination_by structural fs => fs

end

theorem add_moved (scope : Registry) (n : String) (t : Ty) (p q : Pos) :
    Corresponds (scope.add n t p) (scope.add n t q) := by
  unfold Registry.add
  split <;> rfl

theorem declareParams_moved (p q : Pos) (params : List Param) (scope : Registry) :
    Corresponds (declareParams p params scope) (declareParams q params scope) := by
  induction params generalizing scope with
  | nil => rfl
  | cons d params ih => exact (add_moved scope d.name d.type p q).bind ih

/-! ## Statements -/

/-- Both pieces of work ask about as many statements, and their results correspond. -/
abbrev Parallel {α : Type} (w w' : Work α) : Prop :=
  Matches (fun p q => p.asked = q.asked) Fault.Similar Eq w w'

namespace Parallel

variable {α β : Type}

theorem bind {w w' : Work α} {k k' : α → Work β} (h : Parallel w w')
    (hk : ∀ a, Parallel (k a) (k' a)) : Parallel (w >>= k) (w' >>= k') := by
  refine Matches.bind h ?_
  rintro a _ rfl
  exact hk a

theorem map {w w' : Work α} (h : Parallel w w') (g : α → β) :
    Parallel (w >>= fun a => pure (g a)) (w' >>= fun a => pure (g a)) :=
  h.bind fun _ => .ret rfl

theorem lift {e e' : Except Fault α} (h : Corresponds e e') :
    Parallel (liftExcept e) (liftExcept e') :=
  matches_lift h

theorem checkpoint (i : Option Interrupt) :
    Parallel (Script.checkpoint i) (Script.checkpoint i) := by
  intro p q h
  rw [run_checkpoint, run_checkpoint, h]
  cases Interrupt.stops i q.asked with
  | some f => exact ⟨rfl, rfl⟩
  | none => exact ⟨rfl, rfl⟩

theorem reached (s t : Stmt) (depth : Nat) :
    Parallel (Script.reached s depth) (Script.reached t depth) :=
  fun _ _ h => ⟨rfl, h⟩

theorem checkDepth (cfg : Settings) (depth : Nat) (p q : Pos) :
    Parallel (Script.checkDepth cfg depth p) (Script.checkDepth cfg depth q) := by
  unfold Script.checkDepth
  split
  · exact .stop rfl
  · exact .ret rfl

end Parallel

mutual

theorem statement_moved (cfg : Settings) (p : Pos) {depth : Nat} :
    ∀ (s : Stmt) (scope : Registry),
      Parallel (statement cfg depth scope (s.moved p)) (statement cfg depth scope s)
  | .absent, _ => .stop rfl
  | .eval _ v, scope => (Parallel.lift (value_moved scope p v)).map _
  | .declare q n t v, scope => by
    refine (Parallel.lift (value_moved scope p v)).bind fun a => ?_
    exact (Parallel.lift (add_moved scope n (t.getD .null) p q)).map _
  | .assign _ n v, scope => by
    unfold Stmt.moved statement
    split
    · exact (Parallel.lift (value_moved scope p v)).map _
    · exact .stop rfl
  | .function q n params result body, scope => by
    refine (Parallel.lift (add_moved scope n _ p q)).bind fun outer => ?_
    refine (Parallel.lift (declareParams_moved p q params outer)).bind fun inner => ?_
    refine (Parallel.checkDepth cfg (depth + 1) p q).bind fun _ => ?_
    exact (statements_moved cfg p body inner).map _
  | .branch q test body elifs otherwise, scope => by
    refine (Parallel.lift (value_moved scope p test)).bind fun t => ?_
    refine (Parallel.checkDepth cfg (depth + 1) p q).bind fun _ => ?_
    refine (statements_moved cfg p body scope).bind fun s => ?_
    refine (furtherTests_moved cfg p q elifs scope).bind fun more => ?_
    exact (finalBranch_moved cfg p q otherwise scope).map _
  | .other _ _, _ => .stop rfl
termination_by structural s => s

/-- A block has the same script wherever its nodes stand. -/
theorem statements_moved (cfg : Settings) (p : Pos) {depth : Nat} :
    ∀ (ss : List Stmt) (scope : Registry),
      Parallel (statements cfg depth scope (Stmt.movedBlock p ss)) (statements cfg depth scope ss)
  | [], _ => .ret rfl
  | s :: ss, scope => by
    by_cases hs : s = .absent
    · subst hs
      exact (Parallel.checkpoint cfg.interrupt).bind fun _ => .stop rfl
    · have hmoved : s.moved p ≠ .absent := by
        cases s <;> first | exact absurd rfl hs | nofun
      rw [Stmt.movedBlock, statements_cons hs, statements_cons hmoved]
      refine (Parallel.checkpoint cfg.interrupt).bind fun _ => ?_
      refine (Parallel.reached _ s depth).bind fun _ => ?_
      refine (statement_moved cfg p s scope).bind fun r => ?_
      exact (statements_moved cfg p ss r.2).map _
termination_by structural ss => ss

theorem furtherTests_moved (cfg : Settings) (p q : Pos) {depth : Nat} :
    ∀ (elifs : List (Value × List Stmt)) (scope : Registry),
      Parallel (furtherTests cfg depth scope p (Stmt.movedElifs p elifs))
        (furtherTests cfg depth scope q elifs)
  | [], _ => .ret rfl
  | (test, body) :: rest, scope => by
    refine (Parallel.lift (value_moved scope p test)).bind fun t => ?_
    refine (Parallel.checkDepth cfg (depth + 1) p q).bind fun _ => ?_
    refine (statements_moved cfg p body scope).bind fun s => ?_
    exact (furtherTests_moved cfg p q rest scope).map _
termination_by structural elifs => elifs

theorem finalBranch_moved (cfg : Settings) (p q : Pos) {depth : Nat} :
    ∀ (otherwise : Option (List Stmt)) (scope : Registry),
      Parallel (finalBranch cfg depth scope p (Stmt.movedOtherwise p otherwise))
        (finalBranch cfg depth scope q otherwise)
  | none, _ => .ret rfl
  | some body, scope => by
    refine (Parallel.checkDepth cfg (depth + 1) p q).bind fun _ => ?_
    exact (statements_moved cfg p body scope).map _
termination_by structural otherwise => otherwise

end

/-- Moving a block changes at most the position that its fault reports. -/
theorem compile_moved (cfg : Settings) (scope : Registry) (p : Pos) (b : Block) :
    Corresponds (compile cfg scope (Stmt.movedBlock p b)) (compile cfg scope b) :=
  (statements_moved cfg p b scope {} {} rfl).1

end Script

/-! ## What is the same -/

/-- Values that are the same have the same texts. -/
theorem Value.texts_of_same {v w : Value} (h : v.same w) :
    v.text = w.text ∧ v.source = w.source := by
  have hmoved := (same_iff v w).mp h
  rw [← text_moved .none v, ← source_moved .none v, hmoved, text_moved, source_moved]
  exact ⟨rfl, rfl⟩

theorem Stmt.text_of_same {s t : Stmt} (h : s.same t) : s.text = t.text := by
  rw [← text_moved .none s, (same_iff s t).mp h, text_moved]

/-- Nothing tells the blocks apart, unless by the positions that faults report. -/
structure Stmt.Indistinct (b c : Block) : Prop where
  text : textBlock b = textBlock c
  content : ∀ p : Program,
    Program.content { p with body := b } = Program.content { p with body := c }
  script : ∀ (cfg : Script.Settings) (scope : Registry),
    Script.Corresponds (Script.compile cfg scope b) (Script.compile cfg scope c)

/-- Blocks that are the same are told apart by nothing but positions. -/
theorem Stmt.indistinct_of_same {b c : Block} (h : sameBlock b c) : Indistinct b c := by
  have hmoved := (sameBlock_iff b c).mp h
  refine ⟨?_, fun p => ?_, fun cfg scope => ?_⟩
  · rw [← textBlock_moved .none b, hmoved, textBlock_moved]
  · rw [← Program.content_moved p .none b, hmoved, Program.content_moved]
  · -- Both scripts correspond to the one of the moved block.
    have hb := Script.corresponds_iff.mp (Script.compile_moved cfg scope .none b)
    have hc := Script.corresponds_iff.mp (Script.compile_moved cfg scope .none c)
    rw [hmoved] at hb
    exact Script.corresponds_iff.mpr (hb.symm.trans hc)

end Lowlang
