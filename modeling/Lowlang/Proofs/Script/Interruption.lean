import Lowlang.Proofs.Script.Work

set_option autoImplicit false

/-!
# Lowering that is called off

Lowering asks once about each statement it comes to, in reading order and through all nested
bodies, and about nothing else.  So an interrupt that comes after `n` questions changes nothing when
lowering has no more than `n` to ask, and decides the result when it has more.  A block with a
script is asked about once for each of its statements.
-/

namespace Lowlang

namespace Stmt

mutual

/-- The number of statements in the branches and bodies of a statement. -/
def inner : Stmt → Nat
  | .function _ _ _ _ body => total body
  | .branch _ _ body elifs otherwise => total body + totalElifs elifs + totalOtherwise otherwise
  | _ => 0
termination_by structural s => s

/-- The number of statements of a block, those of nested bodies included. -/
def total : List Stmt → Nat
  | [] => 0
  | s :: ss => 1 + inner s + total ss
termination_by structural ss => ss

/-- The number of statements behind further tests. -/
def totalElifs : List (Value × List Stmt) → Nat
  | [] => 0
  | (_, body) :: rest => total body + totalElifs rest
termination_by structural es => es

/-- The number of statements of a final branch. -/
def totalOtherwise : Option (List Stmt) → Nat
  | none => 0
  | some body => total body
termination_by structural o => o

end

end Stmt

namespace Script

open Stateful (Heeds)

/-- The settings with another interrupt. -/
def Settings.until (cfg : Settings) (interrupt : Option Interrupt) : Settings :=
  { cfg with interrupt := interrupt }

/-- Work never called off and the same work under `i`, with the number of statements asked about
when it succeeds. -/
abbrev Asks {α : Type} (i : Interrupt) (n : Nat) (free cut : Work α) : Prop :=
  Heeds Progress.asked i (fun _ m => m = n) free cut

namespace Asks

variable {α β : Type} {i : Interrupt} {m n : Nat}

theorem lift (e : Except Fault α) : Asks i 0 (liftExcept e) (liftExcept e) := by
  cases e with
  | ok a => exact Heeds.ret rfl
  | error f => exact Heeds.stop f

theorem bind {free cut : Work α} {k k' : α → Work β} (h : Asks i m free cut)
    (hk : ∀ a, Asks i n (k a) (k' a)) : Asks i (m + n) (free >>= k) (cut >>= k') := by
  refine Heeds.bind h fun a j hj => ?_
  refine (hk a).mono fun b l hl => ?_
  rw [hj, hl]

theorem map {free cut : Work α} {g : α → β} (h : Asks i n free cut) :
    Asks i n (free >>= fun a => pure (g a)) (cut >>= fun a => pure (g a)) :=
  Heeds.map h fun _ _ hn => hn

theorem reached (s : Stmt) (depth : Nat) :
    Asks i 0 (Script.reached s depth) (Script.reached s depth) :=
  Heeds.unasking (fun _ => rfl) fun _ _ _ => rfl

theorem checkDepth (cfg : Settings) (depth : Nat) (pos : Pos) :
    Asks i 0 (Script.checkDepth (cfg.until none) depth pos)
      (Script.checkDepth (cfg.until (some i)) depth pos) := by
  unfold Script.checkDepth
  show Asks i 0 (if 0 < cfg.maxDepth ∧ cfg.maxDepth < depth then _ else _)
    (if 0 < cfg.maxDepth ∧ cfg.maxDepth < depth then _ else _)
  split
  · exact Heeds.stop _
  · exact Heeds.ret rfl

theorem checkpoint : Asks i 1 (Script.checkpoint none) (Script.checkpoint (some i)) := by
  refine Heeds.question (fun p => { p with asked := p.asked + 1 }) (fun _ => rfl)
    (fun _ => rfl) (fun p h => ?_) fun p f h => ?_
  · rw [run_checkpoint, h]
  · rw [run_checkpoint, h]

end Asks

mutual

/-- Lowering a statement asks about the statements inside it. -/
theorem asks_statement (cfg : Settings) (i : Interrupt) {depth : Nat} {scope : Registry} :
    ∀ s : Stmt, Asks i s.inner (statement (cfg.until none) depth scope s)
      (statement (cfg.until (some i)) depth scope s)
  | .absent => Heeds.stop _
  | .eval _ v => (Asks.lift _).map
  | .declare _ n t v => Heeds.step (Asks.lift _) fun _ => (Asks.lift _).map
  | .assign p n v => by
    unfold statement
    split
    · exact (Asks.lift _).map
    · exact Heeds.stop _
  | .function p n params result body => by
    refine Heeds.step (Asks.lift _) fun outer => Heeds.step (Asks.lift _) fun inner => ?_
    refine Heeds.step (Asks.checkDepth cfg (depth + 1) p) fun _ => ?_
    exact (asks_statements cfg i body).map
  | .branch p test body elifs otherwise => by
    refine Heeds.step (Asks.lift _) fun t => ?_
    refine Heeds.step (Asks.checkDepth cfg (depth + 1) p) fun _ => ?_
    rw [Stmt.inner, Nat.add_assoc]
    refine (asks_statements cfg i body).bind fun s => ?_
    refine (asks_furtherTests cfg i p elifs).bind fun more => ?_
    exact (asks_finalBranch cfg i p otherwise).map
  | .other _ _ => Heeds.stop _
termination_by structural s => s

/-- Lowering a block asks about each of its statements, and about those inside them. -/
theorem asks_statements (cfg : Settings) (i : Interrupt) {depth : Nat} {scope : Registry} :
    ∀ ss : List Stmt, Asks i (Stmt.total ss) (statements (cfg.until none) depth scope ss)
      (statements (cfg.until (some i)) depth scope ss)
  | [] => Heeds.ret rfl
  | s :: ss => by
    by_cases h : s = .absent
    · subst h
      refine Heeds.bind Asks.checkpoint fun _ _ _ => ?_
      exact Heeds.stop _
    · rw [statements_cons h, statements_cons h, Stmt.total, Nat.add_assoc]
      refine Asks.checkpoint.bind fun _ => Heeds.step (Asks.reached s depth) fun _ => ?_
      refine (asks_statement cfg i s).bind fun r => ?_
      exact (asks_statements cfg i ss).map
termination_by structural ss => ss

theorem asks_furtherTests (cfg : Settings) (i : Interrupt) {depth : Nat} {scope : Registry}
    (pos : Pos) : ∀ elifs : List (Value × List Stmt),
      Asks i (Stmt.totalElifs elifs) (furtherTests (cfg.until none) depth scope pos elifs)
        (furtherTests (cfg.until (some i)) depth scope pos elifs)
  | [] => Heeds.ret rfl
  | (test, body) :: rest => by
    refine Heeds.step (Asks.lift _) fun t => ?_
    refine Heeds.step (Asks.checkDepth cfg (depth + 1) pos) fun _ => ?_
    refine (asks_statements cfg i body).bind fun s => ?_
    exact (asks_furtherTests cfg i pos rest).map
termination_by structural elifs => elifs

theorem asks_finalBranch (cfg : Settings) (i : Interrupt) {depth : Nat} {scope : Registry}
    (pos : Pos) : ∀ otherwise : Option (List Stmt),
      Asks i (Stmt.totalOtherwise otherwise)
        (finalBranch (cfg.until none) depth scope pos otherwise)
        (finalBranch (cfg.until (some i)) depth scope pos otherwise)
  | none => Heeds.ret rfl
  | some body => by
    refine Heeds.step (Asks.checkDepth cfg (depth + 1) pos) fun _ => ?_
    exact (asks_statements cfg i body).map
termination_by structural otherwise => otherwise

end

end Script

end Lowlang
