import Lowlang.Proofs.Stateful
import Lowlang.Script.Lowering

set_option autoImplicit false

/-!
# Work that lowers scripts

Running pieces of work in a row, and what can be read off work that succeeds: each of its
pieces did.
-/

namespace Lowlang.Script

/-- Running two pieces of work in a row. -/
theorem run_bind {α β : Type} (w : Work α) (k : α → Work β) (p : Progress) :
    ((w >>= k).run.run p).1 =
      match (w.run.run p).1 with
      | .ok a => ((k a).run.run (w.run.run p).2).1
      | .error f => .error f := by
  show (StateT.run (ExceptT.run (w >>= k)) p).1 = _
  simp only [ExceptT.run_bind, StateT.run_bind]
  rcases h : w.run.run p with ⟨r, q⟩
  cases r <;> rfl

/-- Reading on after a statement that is there. -/
theorem statements_cons {κ : Type} [Text.Runes κ] {cfg : Settings} {depth : Nat}
    {scope : Registry} {s : Stmt κ} {ss : List (Stmt κ)} (h : s ≠ .absent) :
    statements cfg depth scope (s :: ss) = (do
      checkpoint cfg.interrupt
      reached s depth
      let (a, scope) ← statement cfg depth scope s
      let b ← statements cfg depth scope ss
      return a ++ b) := by
  cases s <;> first | exact absurd rfl h | rfl

/-- A checkpoint counts the question, and stops the work when it has been called off. -/
theorem run_checkpoint (interrupt : Option Interrupt) (p : Progress) :
    (checkpoint interrupt).run.run p =
      (match Interrupt.stops interrupt p.asked with
        | some f => .error f
        | none => .ok (), { p with asked := p.asked + 1 }) := by
  show (((match Interrupt.stops interrupt p.asked with
    | some f => throw f
    | none => pure ()) : Work Unit).run.run { p with asked := p.asked + 1 }) = _
  cases Interrupt.stops interrupt p.asked <;> rfl

/-- Results that pair make work that matches, whatever is related between the two runs. -/
theorem matches_lift {α β : Type} {S : Progress → Progress → Prop} {F : Fault → Fault → Prop}
    {R : α → β → Prop} {e : Except Fault α} {e' : Except Fault β} (h : Stateful.Pairs F R e e') :
    Stateful.Matches S F R (liftExcept e) (liftExcept e') := by
  cases e with
  | ok a =>
    cases e' with
    | ok b => exact .ret h
    | error g => exact absurd h id
  | error f =>
    cases e' with
    | ok b => exact absurd h id
    | error g => exact .stop h

/-- The work succeeds with `a` from some progress on. -/
def Gives {α : Type} (w : Work α) (a : α) : Prop :=
  ∃ p, (w.run.run p).1 = .ok a

namespace Gives

variable {α β : Type}

theorem bind {w : Work α} {k : α → Work β} {b : β} (h : Gives (w >>= k) b) :
    ∃ a, Gives w a ∧ Gives (k a) b := by
  obtain ⟨p, hp⟩ := h
  rw [run_bind] at hp
  cases hw : (w.run.run p).1 with
  | error f =>
    rw [hw] at hp
    cases hp
  | ok a =>
    rw [hw] at hp
    exact ⟨a, ⟨p, hw⟩, ⟨_, hp⟩⟩

theorem ret {a b : α} (h : Gives (pure a : Work α) b) : b = a := by
  obtain ⟨p, hp⟩ := h
  exact (Except.ok.inj hp).symm

theorem lift {e : Except Fault α} {a : α} (h : Gives (liftExcept e) a) : e = .ok a := by
  obtain ⟨p, hp⟩ := h
  cases e with
  | error f => cases hp
  | ok b => exact hp

theorem not_throw {f : Fault} {a : α} : ¬ Gives (throw f : Work α) a :=
  fun ⟨_, hp⟩ => nomatch hp

end Gives

/-- A block whose lowering gives a script has a first statement that gives one, and the
statements after it do. -/
theorem Gives.statements_cons {κ : Type} [Text.Runes κ] {cfg : Settings} {depth : Nat}
    {scope : Registry} {s : Stmt κ} {ss : List (Stmt κ)} {t : String}
    (h : Gives (statements cfg depth scope (s :: ss)) t) :
    ∃ a outer b, Gives (statement cfg depth scope s) (a, outer) ∧
      Gives (statements cfg depth outer ss) b ∧ t = a ++ b := by
  by_cases hs : s = .absent
  · subst hs
    obtain ⟨_, _, h⟩ := h.bind
    exact absurd h not_throw
  · rw [Script.statements_cons hs] at h
    obtain ⟨_, _, h⟩ := h.bind
    obtain ⟨_, _, h⟩ := h.bind
    obtain ⟨⟨a, outer⟩, ha, h⟩ := h.bind
    obtain ⟨b, hb, h⟩ := h.bind
    exact ⟨a, outer, b, ha, hb, h.ret⟩

end Lowlang.Script
