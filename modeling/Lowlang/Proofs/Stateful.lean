import Lowlang.Interrupt
import Mathlib.Data.List.Forall2

set_option autoImplicit false

/-!
# Work with a state

Lowering and reading both carry a state along and may fail, and both leave the state they have come
to in any case.  Here two runs of such work stand side by side.

`Outcome` says what the result of one piece of work may be, and `Comes` that it is so from every
state.  `Matches` relates two pieces of work that succeed or fail together.  `Heeds` relates work that is
never called off to the same work under an interrupt: as long as the first asks about no more
statements than the interrupt lets pass, the second runs just as it does, and otherwise the second
stops with the fault of the interrupt.
-/

namespace Lowlang

/-- Work that carries a state along and may fail. -/
abbrev Stateful (σ : Type) : Type → Type :=
  ExceptT Fault (StateM σ)

namespace Stateful

variable {σ τ α β γ δ : Type}

/-- Behind work that succeeded, the next starts where that ended. -/
theorem run_bind_of_ok {w : Stateful σ α} {k : α → Stateful σ β} {p q : σ} {a : α}
    (h : w.run.run p = (.ok a, q)) : (w >>= k).run.run p = (k a).run.run q := by
  show StateT.run (ExceptT.run (w >>= k)) p = _
  simp only [ExceptT.run_bind, StateT.run_bind]
  rw [h]
  rfl

/-- Behind work that failed, nothing is done. -/
theorem run_bind_of_error {w : Stateful σ α} {k : α → Stateful σ β} {p q : σ} {f : Fault}
    (h : w.run.run p = (.error f, q)) : (w >>= k).run.run p = (.error f, q) := by
  show StateT.run (ExceptT.run (w >>= k)) p = _
  simp only [ExceptT.run_bind, StateT.run_bind]
  rw [h]
  rfl

/-! ## What work comes to -/

/-- A value with the first property, or a fault with the second. -/
def Outcome (Q : α → Prop) (P : Fault → Prop) : Except Fault α → Prop
  | .ok a => Q a
  | .error f => P f

namespace Outcome

variable {Q : α → Prop} {R : β → Prop} {P : Fault → Prop}

theorem mono {P' : Fault → Prop} {e : Except Fault α} (h : Outcome Q P e) (hP : ∀ f, P f → P' f) :
    Outcome Q P' e := by
  cases e with
  | ok a => exact h
  | error f => exact hP f h

theorem forget {e : Except Fault α} (h : Outcome Q P e) : Outcome (fun _ => True) P e := by
  cases e with
  | ok a => exact trivial
  | error f => exact h

theorem bind {e : Except Fault α} {k : α → Except Fault β} (h : Outcome Q P e)
    (hk : ∀ a, Q a → Outcome R P (k a)) : Outcome R P (e >>= k) := by
  cases e with
  | ok a => exact hk a h
  | error f => exact h

/-- What the values of each element have, all values of the list have. -/
theorem mapM_all {g : α → Except Fault β} {as : List α} (h : ∀ a ∈ as, Outcome R P (g a)) :
    Outcome (fun bs => ∀ b ∈ bs, R b) P (as.mapM g) := by
  induction as with
  | nil => exact nofun
  | cons a as ih =>
    rw [List.forall_mem_cons] at h
    rw [List.mapM_cons]
    exact h.1.bind fun b hb => (ih h.2).bind fun bs hbs => List.forall_mem_cons.mpr ⟨hb, hbs⟩

theorem mapM {g : α → Except Fault β} {as : List α}
    (h : ∀ a ∈ as, Outcome (fun _ => True) P (g a)) :
    Outcome (fun _ => True) P (as.mapM g) :=
  (mapM_all h).forget

end Outcome

/-- From every state the work comes to such an outcome. -/
def Comes (Q : α → Prop) (P : Fault → Prop) (w : Stateful σ α) : Prop :=
  ∀ p, Outcome Q P (w.run.run p).1

namespace Comes

variable {Q : α → Prop} {R : β → Prop} {P : Fault → Prop}

theorem ret {a : α} (h : Q a) : Comes Q P (pure a : Stateful σ α) :=
  fun _ => h

theorem mono {P' : Fault → Prop} {w : Stateful σ α} (h : Comes Q P w) (hP : ∀ f, P f → P' f) :
    Comes Q P' w :=
  fun p => (h p).mono hP

theorem bind {w : Stateful σ α} {k : α → Stateful σ β} (h : Comes Q P w)
    (hk : ∀ a, Q a → Comes R P (k a)) : Comes R P (w >>= k) := by
  intro p
  have hresult := h p
  rcases hw : w.run.run p with ⟨r, q⟩
  rw [hw] at hresult
  cases r with
  | error f =>
    rw [run_bind_of_error hw]
    exact hresult
  | ok a =>
    rw [run_bind_of_ok hw]
    exact hk a hresult q

end Comes

/-! ## Two runs that succeed or fail together -/

/-- Both results are values that are related, or both are faults that are. -/
def Pairs (F : Fault → Fault → Prop) (R : α → β → Prop) : Except Fault α → Except Fault β → Prop
  | .ok a, .ok b => R a b
  | .error f, .error g => F f g
  | _, _ => False

/-- Results that pair by equality are equal. -/
theorem pairs_eq_iff {e e' : Except Fault α} : Pairs Eq Eq e e' ↔ e = e' := by
  cases e with
  | error f =>
    cases e' with
    | error g => exact ⟨congrArg _, Except.error.inj⟩
    | ok b => exact ⟨fun h => absurd h id, fun h => nomatch h⟩
  | ok a =>
    cases e' with
    | error g => exact ⟨fun h => absurd h id, fun h => nomatch h⟩
    | ok b => exact ⟨congrArg _, Except.ok.inj⟩

theorem Pairs.bind {F : Fault → Fault → Prop} {R : α → β → Prop} {Q : γ → δ → Prop}
    {e : Except Fault α} {e' : Except Fault β} {k : α → Except Fault γ} {k' : β → Except Fault δ}
    (h : Pairs F R e e') (hk : ∀ a b, R a b → Pairs F Q (k a) (k' b)) :
    Pairs F Q (e >>= k) (e' >>= k') := by
  cases e with
  | error f =>
    cases e' with
    | error g => exact h
    | ok b => exact absurd h id
  | ok a =>
    cases e' with
    | error g => exact absurd h id
    | ok b => exact hk a b h

theorem Pairs.mono {F : Fault → Fault → Prop} {R R' : α → β → Prop} {e : Except Fault α}
    {e' : Except Fault β} (h : Pairs F R e e') (hR : ∀ a b, R a b → R' a b) : Pairs F R' e e' := by
  cases e with
  | error f =>
    cases e' with
    | error g => exact h
    | ok b => exact absurd h id
  | ok a =>
    cases e' with
    | error g => exact absurd h id
    | ok b => exact hR a b h

theorem Pairs.mapM {F : Fault → Fault → Prop} {R : α → β → Prop} {Q : γ → δ → Prop}
    {g : α → Except Fault γ} {g' : β → Except Fault δ} {as : List α} {bs : List β}
    (h : List.Forall₂ R as bs) (hg : ∀ a b, R a b → Pairs F Q (g a) (g' b)) :
    Pairs F (List.Forall₂ Q) (as.mapM g) (bs.mapM g') := by
  induction h with
  | nil => exact .nil
  | cons hab _ ih =>
    rw [List.mapM_cons, List.mapM_cons]
    exact (hg _ _ hab).bind fun _ _ hc => ih.bind fun _ _ hcs => .cons hc hcs

/-- From states that are related, both pieces of work come to results and states that are. -/
def Matches (S : σ → τ → Prop) (F : Fault → Fault → Prop) (R : α → β → Prop) (w : Stateful σ α)
    (w' : Stateful τ β) : Prop :=
  ∀ p q, S p q → Pairs F R (w.run.run p).1 (w'.run.run q).1 ∧ S (w.run.run p).2 (w'.run.run q).2

namespace Matches

variable {S : σ → τ → Prop} {F : Fault → Fault → Prop} {R : α → β → Prop} {Q : γ → δ → Prop}

theorem ret {a : α} {b : β} (h : R a b) :
    Matches S F R (pure a : Stateful σ α) (pure b : Stateful τ β) :=
  fun _ _ hs => ⟨h, hs⟩

theorem stop {f g : Fault} (h : F f g) :
    Matches S F R (throw f : Stateful σ α) (throw g : Stateful τ β) :=
  fun _ _ hs => ⟨h, hs⟩

theorem bind {w : Stateful σ α} {w' : Stateful τ β} {k : α → Stateful σ γ} {k' : β → Stateful τ δ}
    (h : Matches S F R w w') (hk : ∀ a b, R a b → Matches S F Q (k a) (k' b)) :
    Matches S F Q (w >>= k) (w' >>= k') := by
  intro p q hs
  obtain ⟨hresult, hstate⟩ := h p q hs
  rcases hw : w.run.run p with ⟨r, p'⟩
  rcases hw' : w'.run.run q with ⟨r', q'⟩
  rw [hw, hw'] at hresult hstate
  cases r with
  | error f =>
    cases r' with
    | error g =>
      rw [run_bind_of_error hw, run_bind_of_error hw']
      exact ⟨hresult, hstate⟩
    | ok b => exact absurd hresult id
  | ok a =>
    cases r' with
    | error g => exact absurd hresult id
    | ok b =>
      rw [run_bind_of_ok hw, run_bind_of_ok hw']
      exact hk a b hresult p' q' hstate

end Matches

/-! ## Work that may be called off -/

/-- `cut` is the work `free` under an interrupt.  It runs as `free` does when that asks about no
more statements than the interrupt lets pass, and else stops with the fault of the interrupt.  When
`free` succeeds, its value and the number of statements it asked about are as `Q` says. -/
def Heeds (asked : σ → Nat) (i : Interrupt) (Q : α → Nat → Prop) (free cut : Stateful σ α) : Prop :=
  ∀ p, ∃ n, asked (free.run.run p).2 = asked p + n ∧
    (∀ a, (free.run.run p).1 = .ok a → Q a n) ∧
    (asked p ≤ i.after →
      if asked p + n ≤ i.after then cut.run.run p = free.run.run p
      else (cut.run.run p).1 = .error i.fault)

namespace Heeds

variable {asked : σ → Nat} {i : Interrupt} {Q : α → Nat → Prop} {R : β → Nat → Prop}

/-- Work that asks about nothing heeds every interrupt. -/
theorem unasking {w : Stateful σ α} (hasked : ∀ p, asked (w.run.run p).2 = asked p)
    (h : ∀ p a, (w.run.run p).1 = .ok a → Q a 0) : Heeds asked i Q w w := by
  intro p
  refine ⟨0, hasked p, h p, fun hp => ?_⟩
  rw [Nat.add_zero, if_pos hp]

theorem ret {a : α} (h : Q a 0) : Heeds asked i Q (pure a) (pure a) := by
  refine unasking (fun _ => rfl) fun p b hb => ?_
  cases hb
  exact h

theorem stop (f : Fault) : Heeds asked i Q (throw f) (throw f) :=
  unasking (fun _ => rfl) fun _ _ h => nomatch h

theorem mono {P : α → Nat → Prop} {free cut : Stateful σ α} (h : Heeds asked i P free cut)
    (hQ : ∀ a n, P a n → Q a n) : Heeds asked i Q free cut := by
  intro p
  obtain ⟨n, hn, hvalue, hcut⟩ := h p
  exact ⟨n, hn, fun a ha => hQ a n (hvalue a ha), hcut⟩

/-- A later step is taken by both or by none: by none when the first failed, and only by `free`
when the interrupt came in the first. -/
theorem bind {free cut : Stateful σ α} {k k' : α → Stateful σ β} (h : Heeds asked i Q free cut)
    (hk : ∀ a n, Q a n → Heeds asked i (fun b m => R b (n + m)) (k a) (k' a)) :
    Heeds asked i R (free >>= k) (cut >>= k') := by
  intro p
  obtain ⟨n, hn, hvalue, hcut⟩ := h p
  -- When the interrupt comes in the first step, the second is not taken.
  have hstopped : (cut.run.run p).1 = .error i.fault →
      ((cut >>= k').run.run p).1 = .error i.fault := by
    intro hfault
    rcases hrun : cut.run.run p with ⟨r, q⟩
    rw [hrun] at hfault
    cases hfault
    rw [run_bind_of_error hrun]
  rcases hfree : free.run.run p with ⟨r, q⟩
  rw [hfree] at hn hvalue hcut
  cases r with
  | error f =>
    rw [run_bind_of_error hfree]
    refine ⟨n, hn, fun b hb => (nomatch hb), fun hp => ?_⟩
    have hthis := hcut hp
    by_cases hle : asked p + n ≤ i.after
    · rw [if_pos hle] at hthis ⊢
      exact run_bind_of_error hthis
    · rw [if_neg hle] at hthis ⊢
      exact hstopped hthis
  | ok a =>
    rw [run_bind_of_ok hfree]
    obtain ⟨m, hm, hlater, hcut'⟩ := hk a n (hvalue a rfl) q
    have hq : asked q = asked p + n := hn
    refine ⟨n + m, by omega, hlater, fun hp => ?_⟩
    have hthis := hcut hp
    by_cases hle : asked p + n ≤ i.after
    · rw [if_pos hle] at hthis
      have hrest := hcut' (by omega)
      rw [run_bind_of_ok hthis]
      rwa [hq, Nat.add_assoc] at hrest
    · rw [if_neg hle] at hthis
      rw [if_neg (by omega)]
      exact hstopped hthis

/-- Behind a step that asks about nothing, only what follows asks. -/
theorem step {free cut : Stateful σ α} {k k' : α → Stateful σ β}
    (h : Heeds asked i (fun _ n => n = 0) free cut) (hk : ∀ a, Heeds asked i R (k a) (k' a)) :
    Heeds asked i R (free >>= k) (cut >>= k') := by
  refine h.bind fun a n hn => (hk a).mono fun b m hb => ?_
  rwa [hn, Nat.zero_add]

theorem map {free cut : Stateful σ α} {g : α → β} (h : Heeds asked i Q free cut)
    (hg : ∀ a n, Q a n → R (g a) n) :
    Heeds asked i R (free >>= fun a => pure (g a)) (cut >>= fun a => pure (g a)) :=
  h.bind fun a n ha => ret (hg a n ha)

/-- The question about one statement: it is let pass, or the interrupt has come. -/
theorem question {free cut : Stateful σ Unit} (next : σ → σ)
    (hnext : ∀ p, asked (next p) = asked p + 1) (hfree : ∀ p, free.run.run p = (.ok (), next p))
    (hpass : ∀ p, Interrupt.stops (some i) (asked p) = none → cut.run.run p = (.ok (), next p))
    (hstop : ∀ p f, Interrupt.stops (some i) (asked p) = some f → (cut.run.run p).1 = .error f) :
    Heeds asked i (fun _ n => n = 1) free cut := by
  intro p
  rw [hfree p]
  refine ⟨1, hnext p, fun _ _ => rfl, fun hp => ?_⟩
  by_cases hle : asked p + 1 ≤ i.after
  · rw [if_pos hle]
    apply hpass p
    rw [Interrupt.stops_some, if_neg (by omega)]
  · rw [if_neg hle]
    apply hstop p
    rw [Interrupt.stops_some, if_pos (by omega)]

end Heeds

end Stateful

end Lowlang
