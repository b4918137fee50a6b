import Lowlang.Proofs.Ty.Grammar

set_option autoImplicit false

/-!
# The reader of types is exact

What the reader finds is a derivation in which every result of a function reaches as far as it
can, and the number of steps it is given never decides what it finds.

That results reach as far as they can is shown by comparing a row of primaries that was read with
any derivation that starts at the same place.  The derivation may end a result early, at a bar
with which it goes on around the function.  Then the rest of the row belongs to a longer type
that starts with the result, and the comparison goes on there, on a shorter text.
-/

namespace Lowlang.Ty

open Lowlang.Ty.Parser (skip accept)

/-! ## Parts of the reader that succeed -/

theorem step_ok {step : Parser.Step} {next : Ty × List Char → Parser.Step} {t : Ty}
    {r : List Char} (h : (step >>= next) = .ok (t, r)) :
    ∃ u q, step = .ok (u, q) ∧ next (u, q) = .ok (t, r) := by
  cases step with
  | error e => cases h
  | ok p => exact ⟨p.1, p.2, rfl, h⟩

/-- How a type is read with `n` steps left for its parts. -/
inductive TypeRead (n : Nat) (s : List Char) : Ty → List Char → Prop
  | alone {t r} : Parser.primary n s = .ok (t, r) → accept '|' r = none → TypeRead n s t r
  | union {t u r₁ r₂ r} : Parser.primary n s = .ok (u, r₁) → Mark '|' r₁ r₂ →
      Parser.members n [u] r₂ = .ok (t, r) → TypeRead n s t r

theorem type_ok {fuel : Nat} {s r : List Char} {t : Ty} (h : Parser.type fuel s = .ok (t, r)) :
    ∃ n, fuel = n + 1 ∧ TypeRead n s t r := by
  cases fuel with
  | zero => cases h
  | succ n =>
    refine ⟨n, rfl, ?_⟩
    rw [Parser.type] at h
    obtain ⟨u, q, hp, h⟩ := step_ok h
    dsimp only at h
    split at h
    · cases h
      exact .alone hp ‹_›
    · exact .union hp (accept_eq_some.mp ‹_›) h

/-- How further members are read behind those found. -/
inductive MembersRead (n : Nat) (found : List Ty) (s : List Char) : Ty → List Char → Prop
  | last {t r} : Parser.primary n s = .ok (t, r) → accept '|' r = none →
      MembersRead n found s (.union (t :: found).reverse) r
  | more {t u r₁ r₂ r} : Parser.primary n s = .ok (u, r₁) → Mark '|' r₁ r₂ →
      Parser.members n (u :: found) r₂ = .ok (t, r) → MembersRead n found s t r

theorem members_ok {fuel : Nat} {found : List Ty} {s r : List Char} {t : Ty}
    (h : Parser.members fuel found s = .ok (t, r)) :
    ∃ n, fuel = n + 1 ∧ MembersRead n found s t r := by
  cases fuel with
  | zero => cases h
  | succ n =>
    refine ⟨n, rfl, ?_⟩
    rw [Parser.members] at h
    obtain ⟨u, q, hp, h⟩ := step_ok h
    dsimp only at h
    split at h
    · cases h
      exact .last hp ‹_›
    · exact .more hp (accept_eq_some.mp ‹_›) h

/-- How a primary is read. -/
inductive PrimaryRead (n : Nat) (s : List Char) : Ty → List Char → Prop
  | array {t r₁ r₂ r} : Mark '[' s r₁ → Parser.type n r₁ = .ok (t, r₂) → Mark ']' r₂ r →
      PrimaryRead n s (.array (some t)) r
  | empty {t r₁ r₂ r} : Mark '(' s r₁ → Mark ')' r₁ r₂ → Parser.finish n [] r₂ = .ok (t, r) →
      PrimaryRead n s t r
  | items {t r₁ r} : Mark '(' s r₁ → accept ')' r₁ = none → Parser.items n [] r₁ = .ok (t, r) →
      PrimaryRead n s t r
  | name {m t r} : s.dropWhile Text.isSpace = m ++ r → IsName m → Stops r →
      Names (String.ofList m) t → PrimaryRead n s t r

theorem primary_ok {fuel : Nat} {s r : List Char} {t : Ty}
    (h : Parser.primary fuel s = .ok (t, r)) : ∃ n, fuel = n + 1 ∧ PrimaryRead n s t r := by
  cases fuel with
  | zero => cases h
  | succ n =>
    refine ⟨n, rfl, ?_⟩
    rw [Parser.primary] at h
    split at h
    · rename_i r₁ hopen
      obtain ⟨u, r₂, ht, h⟩ := step_ok h
      dsimp only at h
      split at h
      · cases h
        exact .array (accept_eq_some.mp hopen) ht (accept_eq_some.mp ‹_›)
      · cases h
    · split at h
      · rename_i r₁ hopen
        split at h
        · exact .empty (accept_eq_some.mp hopen) (accept_eq_some.mp ‹_›) h
        · exact .items (accept_eq_some.mp hopen) ‹_› h
      · split at h
        · cases h
        · rename_i m r' hne hname
          cases h
          have hne' : (Parser.name (skip s)).1 ≠ [] := by
            rw [hname]
            exact hne
          obtain ⟨hs, hisName, hstops⟩ := append_name hne'
          rw [hname] at hs hisName hstops
          exact .name hs hisName hstops (names_ofName _)

/-- How the types up to a closing parenthesis are read. -/
inductive ItemsRead (n : Nat) (found : List Ty) (s : List Char) : Ty → List Char → Prop
  | last {t u r₁ r₂ r} : Parser.type n s = .ok (u, r₁) → Mark ')' r₁ r₂ →
      Parser.finish n (u :: found).reverse r₂ = .ok (t, r) → ItemsRead n found s t r
  | comma {t u r₁ r₂ r} : Parser.type n s = .ok (u, r₁) → Mark ',' r₁ r₂ →
      Parser.items n (u :: found) r₂ = .ok (t, r) → ItemsRead n found s t r

theorem items_ok {fuel : Nat} {found : List Ty} {s r : List Char} {t : Ty}
    (h : Parser.items fuel found s = .ok (t, r)) :
    ∃ n, fuel = n + 1 ∧ ItemsRead n found s t r := by
  cases fuel with
  | zero => cases h
  | succ n =>
    refine ⟨n, rfl, ?_⟩
    rw [Parser.items] at h
    obtain ⟨u, q, ht, h⟩ := step_ok h
    dsimp only at h
    split at h
    · exact .last ht (accept_eq_some.mp ‹_›) h
    · split at h
      · exact .comma ht (accept_eq_some.mp ‹_›) h
      · cases h

/-- How it goes on behind a closing parenthesis. -/
inductive FinishRead (n : Nat) (found : List Ty) (s : List Char) : Ty → List Char → Prop
  | function {t r₁ r} : Mark ':' s r₁ → Parser.type n r₁ = .ok (t, r) →
      FinishRead n found s (.function found (some t)) r
  | group {t} : accept ':' s = none → found = [t] → FinishRead n found s t s

theorem finish_ok {fuel : Nat} {found : List Ty} {s r : List Char} {t : Ty}
    (h : Parser.finish fuel found s = .ok (t, r)) :
    ∃ n, fuel = n + 1 ∧ FinishRead n found s t r := by
  cases fuel with
  | zero => cases h
  | succ n =>
    refine ⟨n, rfl, ?_⟩
    unfold Parser.finish at h
    split at h
    · obtain ⟨u, q, ht, h⟩ := step_ok h
      cases h
      exact .function (accept_eq_some.mp ‹_›) ht
    · split at h
      · cases h
        exact .group ‹_› rfl
      · cases h

/-! ## What is read is derived -/

/-- The rule allows every result that is read. -/
def Allows (reach : Reach) : Prop :=
  ∀ n s t r, Parser.type n s = .ok (t, r) → reach s r

/-- Behind a closing parenthesis the types found are the parameters of a function, or one type
that stands for itself. -/
def Finishes (reach : Reach) (ts : List Ty) (s : List Char) (t : Ty) (r : List Char) : Prop :=
  (∃ u r₁, Mark ':' s r₁ ∧ Derives reach (.type u) r₁ r ∧ reach r₁ r ∧
    t = .function ts (some u)) ∨ ts = [t] ∧ r = s

theorem Finishes.primary {reach : Reach} {ts : List Ty} {t : Ty} {s r₁ r₂ r₃ r : List Char}
    (h : Finishes reach ts r₃ t r) (hopen : Mark '(' s r₁) (hs : Derives reach (.items ts) r₁ r₂)
    (hclose : Mark ')' r₂ r₃) : Derives reach (.primary t) s r := by
  rcases h with ⟨u, r₄, hcolon, hu, hreach, rfl⟩ | ⟨rfl, rfl⟩
  · exact .function hopen hs hclose hcolon hu hreach
  · exact .group hopen hs hclose

/-- What every part of the reader finds with `n` steps is derived. -/
structure Derived (reach : Reach) (n : Nat) : Prop where
  type : ∀ s t r, Parser.type n s = .ok (t, r) → Derives reach (.type t) s r
  members : ∀ found s t r, Parser.members n found s = .ok (t, r) →
    ∃ ts, t = .union (found.reverse ++ ts) ∧ Derives reach (.members ts) s r
  primary : ∀ s t r, Parser.primary n s = .ok (t, r) → Derives reach (.primary t) s r
  items : ∀ found s t r, Parser.items n found s = .ok (t, r) →
    ∃ u us r₁ r₂, Derives reach (.items (u :: us)) s r₁ ∧ Mark ')' r₁ r₂ ∧
      Finishes reach (found.reverse ++ u :: us) r₂ t r
  finish : ∀ found s t r, Parser.finish n found s = .ok (t, r) → Finishes reach found s t r

theorem Derived.zero (reach : Reach) : Derived reach 0 :=
  ⟨nofun, nofun, nofun, nofun, nofun⟩

theorem Derived.succ {reach : Reach} (hreach : Allows reach) {n : Nat} (h : Derived reach n) :
    Derived reach (n + 1) where
  type := by
    intro s t r hread
    obtain ⟨m, hm, hparts⟩ := type_ok hread
    cases hm
    cases hparts with
    | alone hp _ => exact .alone (h.primary _ _ _ hp)
    | union hp hbar hs =>
      obtain ⟨ts, rfl, hts⟩ := h.members _ _ _ _ hs
      exact .union (h.primary _ _ _ hp) hbar hts
  members := by
    intro found s t r hread
    obtain ⟨m, hm, hparts⟩ := members_ok hread
    cases hm
    cases hparts with
    | last hp _ => exact ⟨[_], by rw [List.reverse_cons], .member (h.primary _ _ _ hp)⟩
    | more hp hbar hs =>
      obtain ⟨ts, rfl, hts⟩ := h.members _ _ _ _ hs
      exact ⟨_ :: ts, by simp, .bar (h.primary _ _ _ hp) hbar hts⟩
  primary := by
    intro s t r hread
    obtain ⟨m, hm, hparts⟩ := primary_ok hread
    cases hm
    cases hparts with
    | array hopen ht hclose => exact .array hopen (h.type _ _ _ ht) hclose
    | empty hopen hclose hfinish =>
      exact (h.finish _ _ _ _ hfinish).primary hopen .nothing hclose
    | items hopen _ hitems =>
      obtain ⟨u, us, r₁, r₂, hus, hclose, hfinish⟩ := h.items _ _ _ _ hitems
      exact hfinish.primary hopen hus hclose
    | name hs hname hstops hnames => exact .name hs hname hstops hnames
  items := by
    intro found s t r hread
    obtain ⟨m, hm, hparts⟩ := items_ok hread
    cases hm
    cases hparts with
    | last hu hclose hfinish =>
      refine ⟨_, [], _, _, .last (h.type _ _ _ hu), hclose, ?_⟩
      rw [← List.reverse_cons]
      exact h.finish _ _ _ _ hfinish
    | comma hu hcomma hitems =>
      obtain ⟨v, vs, r₁, r₂, hvs, hclose, hfinish⟩ := h.items _ _ _ _ hitems
      refine ⟨_, v :: vs, r₁, r₂, .comma (h.type _ _ _ hu) hcomma hvs, hclose, ?_⟩
      rwa [List.reverse_cons, List.append_assoc, List.singleton_append] at hfinish
  finish := by
    intro found s t r hread
    obtain ⟨m, hm, hparts⟩ := finish_ok hread
    cases hm
    cases hparts with
    | function hcolon hu =>
      exact .inl ⟨_, _, hcolon, h.type _ _ _ hu, hreach _ _ _ _ hu, rfl⟩
    | group _ hfound => exact .inr ⟨hfound, rfl⟩

theorem derived {reach : Reach} (hreach : Allows reach) (n : Nat) : Derived reach n := by
  induction n with
  | zero => exact .zero reach
  | succ n ih => exact ih.succ hreach

theorem allows_anywhere : Allows anywhere :=
  fun _ _ _ _ _ => trivial

/-- What is read leaves less of the text. -/
theorem length_lt_of_type {n : Nat} {s r : List Char} {t : Ty}
    (h : Parser.type n s = .ok (t, r)) : r.length < s.length :=
  ((derived allows_anywhere n).type s t r h).length_le

theorem length_lt_of_primary {n : Nat} {s r : List Char} {t : Ty}
    (h : Parser.primary n s = .ok (t, r)) : r.length < s.length :=
  ((derived allows_anywhere n).primary s t r h).length_le

/-! ## Results reach as far as they can -/

/-- A row of primaries with bars between them was read up to the rest. -/
def RowRead (s r : List Char) : Prop :=
  ∃ n t r₁, Parser.primary n s = .ok (t, r₁) ∧
    (accept '|' r₁ = none ∧ r = r₁ ∨
      ∃ r₂ m found u, Mark '|' r₁ r₂ ∧ Parser.members m found r₂ = .ok (u, r))

theorem rowRead_of_type {n : Nat} {s r : List Char} {t : Ty} (h : Parser.type n s = .ok (t, r)) :
    RowRead s r := by
  obtain ⟨n, rfl, hparts⟩ := type_ok h
  cases hparts with
  | alone hp hbar => exact ⟨n, t, r, hp, .inl ⟨hbar, rfl⟩⟩
  | union hp hbar hs => exact ⟨n, _, _, hp, .inr ⟨_, n, _, t, hbar, hs⟩⟩

theorem rowRead_of_members {n : Nat} {found : List Ty} {s r : List Char} {t : Ty}
    (h : Parser.members n found s = .ok (t, r)) : RowRead s r := by
  obtain ⟨n, rfl, hparts⟩ := members_ok h
  cases hparts with
  | last hp hbar => exact ⟨n, _, r, hp, .inl ⟨hbar, rfl⟩⟩
  | more hp hbar hs => exact ⟨n, _, _, hp, .inr ⟨_, n, _, t, hbar, hs⟩⟩

/-- Nothing of a type goes on with the rest. -/
def Calm (r : List Char) : Prop :=
  accept ':' r = none ∧ accept '|' r = none

theorem Mark.calm {c : Char} {s r : List Char} (h : Mark c s r) (hcolon : c ≠ ':')
    (hbar : c ≠ '|') : Calm s :=
  ⟨h.accept_ne hcolon, h.accept_ne hbar⟩

/-- Every row of primaries from `s` on ends at `r` or before it, and ends there if it cannot go
on. -/
def Outreaches (s r : List Char) : Prop :=
  ∀ ts q, Derives anywhere (.members ts) s q → r.length ≤ q.length ∧ (Calm q → q = r)

theorem Outreaches.type {s r q : List Char} (h : Outreaches s r) {t : Ty}
    (ht : Derives anywhere (.type t) s q) : r.length ≤ q.length ∧ (Calm q → q = r) := by
  cases ht with
  | alone hp => exact h _ _ (.member hp)
  | union hp hbar hs => exact h _ _ (.bar hp hbar hs)

/-- Rows that were read in texts of bounded length outreach all others. -/
def OutreachesUpTo (k : Nat) : Prop :=
  ∀ s r, s.length ≤ k → RowRead s r → Outreaches s r

/-- The types of a list are read up to where a derivation has them end. -/
theorem OutreachesUpTo.items {k : Nat} (hk : OutreachesUpTo k) {ts : List Ty} {s q q' : List Char}
    (h : Derives anywhere (.items ts) s q) (hne : ts ≠ []) (hs : s.length ≤ k)
    (hclose : Mark ')' q q') {n : Nat} {found : List Ty} {t : Ty} {r : List Char}
    (hread : Parser.items n found s = .ok (t, r)) :
    ∃ m us, Parser.finish m us q' = .ok (t, r) := by
  generalize hφ : Phrase.items ts = φ at h
  induction h generalizing ts n found with
  | nothing =>
    cases hφ
    exact absurd rfl hne
  | last ht _ =>
    cases hφ
    obtain ⟨n, rfl, hparts⟩ := items_ok hread
    cases hparts with
    | last hu hclose' hfinish =>
      have := ((hk _ _ hs (rowRead_of_type hu)).type ht).2 (hclose.calm (by decide) (by decide))
      subst this
      obtain ⟨_, rfl⟩ := hclose.eq hclose'
      exact ⟨_, _, hfinish⟩
    | comma hu hcomma _ =>
      have := ((hk _ _ hs (rowRead_of_type hu)).type ht).2 (hclose.calm (by decide) (by decide))
      subst this
      exact absurd (hclose.eq hcomma).1 (by decide)
  | @comma t' u ts s r₁ r₂ r₃ ht hcomma _ _ ih =>
    cases hφ
    have hlength := ht.length_le
    have := hcomma.length_lt
    obtain ⟨n, rfl, hparts⟩ := items_ok hread
    cases hparts with
    | last hu hclose' _ =>
      have := ((hk _ _ hs (rowRead_of_type hu)).type ht).2 (hcomma.calm (by decide) (by decide))
      subst this
      exact absurd (hcomma.eq hclose').1 (by decide)
    | comma hu hcomma' hitems =>
      have := ((hk _ _ hs (rowRead_of_type hu)).type ht).2 (hcomma.calm (by decide) (by decide))
      subst this
      obtain ⟨_, rfl⟩ := hcomma.eq hcomma'
      exact ih (by simp) (by omega) hclose hitems rfl
  | _ => cases hφ

/-- What stands in parentheses is read up to where a derivation has it end. -/
theorem OutreachesUpTo.paren {k : Nat} (hk : OutreachesUpTo k) {ts : List Ty}
    {s r₁ r₂ r₃ : List Char} (hopen : Mark '(' s r₁) (hs : Derives anywhere (.items ts) r₁ r₂)
    (hclose : Mark ')' r₂ r₃) (hlength : r₁.length ≤ k) {n : Nat} {t : Ty} {r : List Char}
    (hread : Parser.primary n s = .ok (t, r)) : ∃ m us, Parser.finish m us r₃ = .ok (t, r) := by
  obtain ⟨n, rfl, hparts⟩ := primary_ok hread
  cases hparts with
  | array hopen' _ _ => exact absurd (hopen.eq hopen').1 (by decide)
  | empty hopen' hclose' hfinish =>
    obtain ⟨_, rfl⟩ := hopen.eq hopen'
    cases ts with
    | nil =>
      cases hs
      obtain ⟨_, rfl⟩ := hclose.eq hclose'
      exact ⟨n, [], hfinish⟩
    | cons u ts => exact absurd hclose' (not_mark_of_accept (hs.accept_close nofun) _)
  | items hopen' hclose' hitems =>
    obtain ⟨_, rfl⟩ := hopen.eq hopen'
    cases ts with
    | nil =>
      cases hs
      exact absurd hclose (not_mark_of_accept hclose' _)
    | cons u ts => exact hk.items hs nofun hlength hclose hitems
  | name hname hisName _ _ =>
    exact absurd hopen (not_mark_of_accept (accept_of_name hname hisName (by decide)) _)

/-- A primary was read up to where a derivation has it end, or both are functions and only the
ends of their results differ. -/
def SameEnd (k : Nat) (r q : List Char) : Prop :=
  q = r ∨ ∃ t s, s.length ≤ k ∧ RowRead s r ∧ Derives anywhere (.type t) s q

theorem OutreachesUpTo.primary {k : Nat} (hk : OutreachesUpTo k) {t u : Ty} {n : Nat}
    {s r q : List Char} (hs : s.length ≤ k + 1) (hread : Parser.primary n s = .ok (t, r))
    (h : Derives anywhere (.primary u) s q) :
    r.length ≤ q.length ∧ (accept ':' q = none → SameEnd k r q) := by
  cases h with
  | name hname hisName hstops _ =>
    obtain ⟨n, rfl, hparts⟩ := primary_ok hread
    have hnone : ∀ c, Parser.startsName c = false → ∀ r', ¬ Mark c s r' := fun c hc =>
      not_mark_of_accept (accept_of_name hname hisName hc)
    cases hparts with
    | array hopen _ _ => exact absurd hopen (hnone _ (by decide) _)
    | empty hopen _ _ => exact absurd hopen (hnone _ (by decide) _)
    | items hopen _ _ => exact absurd hopen (hnone _ (by decide) _)
    | name hname' hisName' hstops' _ =>
      have hsame := name_append hisName hstops
      rw [← hname, hname', name_append hisName' hstops'] at hsame
      obtain rfl := (Prod.mk.inj hsame).2
      exact ⟨Nat.le_refl _, fun _ => .inl rfl⟩
  | array hopen ht hclose =>
    have := hopen.length_lt
    obtain ⟨n, rfl, hparts⟩ := primary_ok hread
    cases hparts with
    | array hopen' hu hclose' =>
      obtain ⟨_, rfl⟩ := hopen.eq hopen'
      have := ((hk _ _ (by omega) (rowRead_of_type hu)).type ht).2
        (hclose.calm (by decide) (by decide))
      subst this
      obtain ⟨_, rfl⟩ := hclose.eq hclose'
      exact ⟨Nat.le_refl _, fun _ => .inl rfl⟩
    | empty hopen' _ _ => exact absurd (hopen.eq hopen').1 (by decide)
    | items hopen' _ _ => exact absurd (hopen.eq hopen').1 (by decide)
    | name hname hisName _ _ =>
      exact absurd hopen (not_mark_of_accept (accept_of_name hname hisName (by decide)) _)
  | group hopen hs' hclose =>
    have := hopen.length_lt
    obtain ⟨m, us, hfinish⟩ := hk.paren hopen hs' hclose (by omega) hread
    obtain ⟨m, rfl, hparts⟩ := finish_ok hfinish
    cases hparts with
    | function hcolon hu =>
      have := hcolon.length_lt
      have := length_lt_of_type hu
      exact ⟨by omega, fun hnone => absurd hcolon (not_mark_of_accept hnone _)⟩
    | group _ _ => exact ⟨Nat.le_refl _, fun _ => .inl rfl⟩
  | function hopen hs' hclose hcolon ht _ =>
    have := hopen.length_lt
    have := hs'.length_le
    have := hclose.length_lt
    have := hcolon.length_lt
    obtain ⟨m, us, hfinish⟩ := hk.paren hopen hs' hclose (by omega) hread
    obtain ⟨m, rfl, hparts⟩ := finish_ok hfinish
    cases hparts with
    | function hcolon' hu =>
      obtain ⟨_, rfl⟩ := hcolon.eq hcolon'
      have hrow := rowRead_of_type hu
      refine ⟨((hk _ _ (by omega) hrow).type ht).1, fun _ => .inr ⟨_, _, by omega, hrow, ht⟩⟩
    | group hnone _ => exact absurd hcolon (not_mark_of_accept hnone _)

/-- Ending where a row of primaries that was read ends, or before it at a bar that the row goes on
with, decides for the whole row. -/
theorem OutreachesUpTo.row {k : Nat} (hk : OutreachesUpTo k) {s r : List Char}
    (hs : s.length ≤ k + 1) (h : RowRead s r) : Outreaches s r := by
  intro ts q hts
  obtain ⟨n, t, r₁, hp, hmore⟩ := h
  have hshort : r.length ≤ r₁.length := by
    rcases hmore with ⟨_, rfl⟩ | ⟨r₂, m, found, u, hbar, hms⟩
    · exact Nat.le_refl _
    · obtain ⟨us, _, hus⟩ := (derived allows_anywhere m).members _ _ _ _ hms
      have := hbar.length_lt
      have := hus.length_le
      omega
  have hends : ∀ q, Calm q → q = r₁ → q = r := by
    rintro q hcalm rfl
    rcases hmore with ⟨_, hr⟩ | ⟨r₂, m, found, u, hbar, _⟩
    · exact hr.symm
    · exact absurd hbar (not_mark_of_accept hcalm.2 _)
  cases hts with
  | member hq =>
    obtain ⟨hle, hsame⟩ := hk.primary hs hp hq
    refine ⟨Nat.le_trans hshort hle, fun hcalm => hends q hcalm ?_⟩
    rcases hsame hcalm.1 with heq | ⟨u, s', hs', hrow, hu⟩
    · exact heq
    · exact ((hk s' r₁ hs' hrow).type hu).2 hcalm
  | @bar _ _ _ q₁ q₂ _ hq hbar hqs =>
    obtain ⟨hle, hsame⟩ := hk.primary hs hp hq
    rcases hsame (hbar.accept_ne (by decide)) with rfl | ⟨u, s', hs', hrow, hu⟩
    · -- both rows go on behind the same bar
      rcases hmore with ⟨hnone, _⟩ | ⟨r₂, m, found, u, hbar', hms⟩
      · exact absurd hbar (not_mark_of_accept hnone _)
      · obtain ⟨_, rfl⟩ := hbar.eq hbar'
        have := length_lt_of_primary hp
        have := hbar.length_lt
        exact hk _ _ (by omega) (rowRead_of_members hms) _ _ hqs
    · -- the bar belongs to the result that was read, as do all primaries behind it
      obtain ⟨v, hv⟩ := type_append hu hbar hqs
      obtain ⟨hle', hcalm'⟩ := (hk s' r₁ hs' hrow).type hv
      exact ⟨Nat.le_trans hshort hle', fun hcalm => hends q hcalm (hcalm' hcalm)⟩

theorem outreachesUpTo (k : Nat) : OutreachesUpTo k := by
  induction k with
  | zero =>
    rintro s r hs ⟨n, t, r₁, hp, _⟩
    have := length_lt_of_primary hp
    omega
  | succ k ih => exact fun s r hs h => ih.row hs h

/-- A type that is read reaches as far as any type that starts where it does. -/
theorem allows_farthest : Allows farthest := by
  intro n s t r h u q hu
  exact ((outreachesUpTo s.length s r (Nat.le_refl _) (rowRead_of_type h)).type hu).1

/-! ## Steps -/

/-- More steps than `n` change nothing about texts that are short enough. -/
structure Enough (n : Nat) : Prop where
  type : ∀ s, 4 * s.length + 2 ≤ n → Parser.type (n + 1) s = Parser.type n s
  members : ∀ found s, 4 * s.length + 2 ≤ n →
    Parser.members (n + 1) found s = Parser.members n found s
  primary : ∀ s, 4 * s.length + 1 ≤ n → Parser.primary (n + 1) s = Parser.primary n s
  items : ∀ found s, 4 * s.length + 3 ≤ n → Parser.items (n + 1) found s = Parser.items n found s
  finish : ∀ found s, 4 * s.length + 1 ≤ n →
    Parser.finish (n + 1) found s = Parser.finish n found s

theorem step_congr {step : Parser.Step} {next next' : Ty × List Char → Parser.Step}
    (h : ∀ t r, step = .ok (t, r) → next (t, r) = next' (t, r)) :
    (step >>= next) = (step >>= next') := by
  cases step with
  | error e => rfl
  | ok p => exact h p.1 p.2 rfl

theorem Enough.succ {n : Nat} (h : Enough n) : Enough (n + 1) where
  type := by
    intro s hs
    rw [Parser.type, Parser.type, h.primary s (by omega)]
    refine step_congr fun t r hp => ?_
    have := length_lt_of_primary hp
    dsimp only
    split
    · rfl
    · have := (accept_eq_some.mp ‹_›).length_lt
      exact h.members _ _ (by omega)
  members := by
    intro found s hs
    rw [Parser.members, Parser.members, h.primary s (by omega)]
    refine step_congr fun t r hp => ?_
    have := length_lt_of_primary hp
    dsimp only
    split
    · rfl
    · have := (accept_eq_some.mp ‹_›).length_lt
      exact h.members _ _ (by omega)
  primary := by
    intro s hs
    rw [Parser.primary, Parser.primary]
    split
    · have := (accept_eq_some.mp ‹_›).length_lt
      rw [h.type _ (by omega)]
    · split
      · have := (accept_eq_some.mp ‹_›).length_lt
        split
        · have := (accept_eq_some.mp ‹_›).length_lt
          exact h.finish _ _ (by omega)
        · exact h.items _ _ (by omega)
      · rfl
  items := by
    intro found s hs
    rw [Parser.items, Parser.items, h.type s (by omega)]
    refine step_congr fun t r ht => ?_
    have := length_lt_of_type ht
    dsimp only
    split
    · have := (accept_eq_some.mp ‹_›).length_lt
      exact h.finish _ _ (by omega)
    · split
      · have := (accept_eq_some.mp ‹_›).length_lt
        exact h.items _ _ (by omega)
      · rfl
  finish := by
    intro found s hs
    unfold Parser.finish
    split
    · have := (accept_eq_some.mp ‹_›).length_lt
      rw [h.type _ (by omega)]
    · rfl

theorem enough (n : Nat) : Enough n := by
  induction n with
  | zero => exact ⟨by omega, by omega, by omega, by omega, by omega⟩
  | succ n ih => exact ih.succ

/-- The number of steps for a text is never what ends its reading. -/
theorem type_fuelFor (s : List Char) (more : Nat) :
    Parser.type (Parser.fuelFor s + more) s = Parser.type (Parser.fuelFor s) s := by
  induction more with
  | zero => rfl
  | succ more ih =>
    rw [← Nat.add_assoc, (enough _).type s ?_, ih]
    unfold Parser.fuelFor
    omega

/-! ## Whole texts -/

theorem skip_eq_nil {r : List Char} : skip r = [] ↔ ∀ c ∈ r, Text.isSpace c :=
  List.dropWhile_eq_nil_iff

theorem accept_of_blank {r : List Char} (h : ∀ c ∈ r, Text.isSpace c) (c : Char) :
    accept c r = none := by
  unfold accept
  rw [skip_eq_nil.mpr h]

theorem parse_eq_ok {src : String} {t : Ty} : parse src = .ok t ↔
    ∃ r, Parser.type (Parser.fuelFor src.toList) src.toList = .ok (t, r) ∧
      ∀ c ∈ r, Text.isSpace c := by
  unfold parse Parser.run
  cases Parser.type (Parser.fuelFor src.toList) src.toList with
  | error e => simp [bind, Except.bind]
  | ok p =>
    obtain ⟨u, r⟩ := p
    simp only [bind, Except.bind, Except.ok.injEq, Prod.mk.injEq]
    cases hr : skip r with
    | nil =>
      constructor
      · intro h
        cases h
        exact ⟨r, ⟨rfl, rfl⟩, skip_eq_nil.mp hr⟩
      · rintro ⟨_, ⟨rfl, rfl⟩, _⟩
        rfl
    | cons c q =>
      constructor
      · intro h
        cases h
      · rintro ⟨_, ⟨rfl, rfl⟩, hblank⟩
        rw [skip_eq_nil.mpr hblank] at hr
        cases hr

/-- A text with a derivation that leaves only blanks is read as what it derives. -/
theorem Derives.parse {reach : Reach} (tight : Tight reach) {src : String} {t : Ty}
    {r : List Char} (h : Derives reach (.type t) src.toList r) (hr : ∀ c ∈ r, Text.isSpace c) :
    parse src = .ok t := by
  have hfuel : 4 * src.toList.length + 2 ≤ Parser.fuelFor src.toList := by
    unfold Parser.fuelFor
    omega
  have hread := h.reads tight (accept_of_blank hr ':') (accept_of_blank hr '|') _ hfuel
  exact parse_eq_ok.mpr ⟨r, hread, hr⟩

/-- A text is read as a type exactly when it is of that type. -/
theorem parse_iff_spells {src : String} {t : Ty} : Ty.parse src = .ok t ↔ Spells src t := by
  constructor
  · intro h
    obtain ⟨r, hread, hr⟩ := parse_eq_ok.mp h
    exact ⟨r, (derived allows_farthest _).type _ _ _ hread, hr⟩
  · rintro ⟨r, h, hr⟩
    exact h.parse tight_farthest hr

end Lowlang.Ty
