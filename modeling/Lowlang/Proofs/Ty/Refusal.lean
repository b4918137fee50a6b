import Lowlang.Proofs.Text.Bytes
import Lowlang.Proofs.Ty.Lookahead
import Lowlang.Proofs.Ty.RoundTrip
import Mathlib.Data.List.DropRight

set_option autoImplicit false

/-!
# Where texts are refused

A text that is no type is refused at the first character with which no type goes on: what stands
before it is the front of some type, and together with it is not.

The second half is shortsightedness, since whatever follows the character, the text is refused
there.  For the first half, each part of the reader is followed to where it refuses the text.  What
it has read until then is derived, and stays derived when the rest is exchanged for one that
completes it.
-/

namespace Lowlang.Ty

open Lowlang.Ty.Parser (Refusal Step skip accept refuse)

/-! ## Exchanging what follows -/

/-- Whatever is derived before `r` is derived before `q` too. -/
structure Replaces (q r : List Char) : Prop where
  stops : Stops r → Stops q
  unbarred : accept '|' r = none → accept '|' q = none

theorem Alike.replaces {r q : List Char} (h : Alike r q) : Replaces q r :=
  ⟨h.stops, h.accept_none⟩

theorem not_continuesName_of_isSpace {c : Char} (h : Text.isSpace c) :
    Parser.continuesName c = false := by
  cases hc : Parser.continuesName c with
  | false => rfl
  | true =>
    simp only [Parser.continuesName, Bool.or_eq_true, decide_eq_true_eq] at hc
    rcases hc with (hc | hc) | rfl
    · rw [not_isSpace_of_startsName hc] at h
      cases h
    · rw [Text.not_isSpace_of_isDigit hc] at h
      cases h
    · cases h

/-- No name goes on with blanks. -/
theorem stops_append {b r : List Char} (hb : ∀ c ∈ b, Text.isSpace c) (hr : Stops r) :
    Stops (b ++ r) := by
  cases b with
  | nil => exact hr
  | cons c b => exact stops_cons (not_continuesName_of_isSpace (hb c List.mem_cons_self)) _

theorem Mark.stops {c : Char} {s r : List Char} (h : Mark c s r)
    (hc : Parser.continuesName c = false) : Stops s := by
  rw [h.split]
  exact stops_append (fun _ => isSpace_of_blanks) (stops_cons hc r)

theorem Mark.replaces {c : Char} {s r : List Char} (h : Mark c s r)
    (hc : Parser.continuesName c = false) (hbar : c ≠ '|') (q : List Char) : Replaces s q :=
  ⟨fun _ => h.stops hc, fun _ => h.accept_ne hbar⟩

theorem Mark.consumed {c : Char} {s r : List Char} (h : Mark c s r) :
    ∃ p, s = p ++ r ∧ ∀ q, Mark c (p ++ q) q ∧ Alike s (p ++ q) := by
  refine ⟨s.takeWhile Text.isSpace ++ [c], ?_, fun q => ?_⟩
  · rw [List.append_assoc]
    exact h.split
  · have hmark : Mark c (s.takeWhile Text.isSpace ++ [c] ++ q) q := by
      rw [List.append_assoc]
      exact mark_append (fun _ => isSpace_of_blanks) h.not_isSpace q
    refine ⟨hmark, ?_⟩
    have halike := (alike_cons h.not_isSpace r q).append (s.takeWhile Text.isSpace)
    rw [← h.split] at halike
    rwa [List.append_assoc]

/-- What holds of a front of the text still holds when the rest is exchanged. -/
def Keeps (D : List Char → List Char → Prop) (s r : List Char) : Prop :=
  ∃ p, s = p ++ r ∧ ∀ q, Replaces q r → D (p ++ q) q

section

variable {D E : List Char → List Char → Prop} {s r r₁ r₂ r₃ : List Char} {c d : Char}

theorem Keeps.mono (h : Keeps D s r) (hD : ∀ s r, D s r → E s r) : Keeps E s r := by
  obtain ⟨p, hs, hp⟩ := h
  exact ⟨p, hs, fun q hq => hD _ _ (hp q hq)⟩

theorem Keeps.mark (h : Keeps D s r₁) (hmark : Mark c r₁ r₂) (h' : Keeps E r₂ r₃) :
    Keeps (fun s r => ∃ x y, D s x ∧ Mark c x y ∧ E y r) s r₃ := by
  obtain ⟨p, rfl, hp⟩ := h
  obtain ⟨b, rfl, hb⟩ := hmark.consumed
  obtain ⟨p', rfl, hp'⟩ := h'
  refine ⟨p ++ (b ++ p'), by simp, fun q hq => ?_⟩
  obtain ⟨hmark', halike⟩ := hb (p' ++ q)
  rw [List.append_assoc, List.append_assoc]
  exact ⟨_, _, hp _ halike.replaces, hmark', hp' q hq⟩

/-- Behind a closing symbol the rest is of no account. -/
theorem Keeps.enclosed (hopen : Mark c s r₁) (h : Keeps D r₁ r₂) (hclose : Mark d r₂ r₃) :
    ∃ p, s = p ++ r₃ ∧ ∀ q, ∃ x y, Mark c (p ++ q) x ∧ D x y ∧ Mark d y q := by
  obtain ⟨b, rfl, hb⟩ := hopen.consumed
  obtain ⟨p, rfl, hp⟩ := h
  obtain ⟨b', rfl, hb'⟩ := hclose.consumed
  refine ⟨b ++ (p ++ b'), by simp, fun q => ?_⟩
  obtain ⟨hmark, halike⟩ := hb' q
  rw [List.append_assoc, List.append_assoc]
  exact ⟨_, _, (hb _).1, hp _ halike.replaces, hmark⟩

end

/-- A phrase stays derived when what follows it is exchanged. -/
theorem Derives.keeps {φ : Phrase} {s r : List Char} (h : Derives unbarred φ s r) :
    Keeps (Derives unbarred φ) s r := by
  induction h with
  | alone _ ih => exact ih.mono fun _ _ => .alone
  | union _ hbar _ ih ihs =>
    exact (ih.mark hbar ihs).mono fun _ _ ⟨_, _, hp, hbar, hs⟩ => .union hp hbar hs
  | member _ ih => exact ih.mono fun _ _ => .member
  | bar _ hbar _ ih ihs =>
    exact (ih.mark hbar ihs).mono fun _ _ ⟨_, _, hp, hbar, hs⟩ => .bar hp hbar hs
  | @name n t s r hs hname hstops hnames =>
    refine ⟨s.takeWhile Text.isSpace ++ n, ?_, fun q hq => ?_⟩
    · rw [List.append_assoc, ← hs]
      exact (blanks_append_skip s).symm
    · refine .name ?_ hname (hq.stops hstops) hnames
      rw [List.append_assoc]
      exact skip_name (fun _ => isSpace_of_blanks) hname q
  | array hopen _ hclose ih =>
    obtain ⟨p, hs, hp⟩ := Keeps.enclosed hopen ih hclose
    refine ⟨p, hs, fun q _ => ?_⟩
    obtain ⟨x, y, hopen', ht, hclose'⟩ := hp q
    exact .array hopen' ht hclose'
  | group hopen _ hclose ih =>
    obtain ⟨p, hs, hp⟩ := Keeps.enclosed hopen ih hclose
    refine ⟨p, hs, fun q _ => ?_⟩
    obtain ⟨x, y, hopen', ht, hclose'⟩ := hp q
    exact .group hopen' ht hclose'
  | function hopen _ hclose hcolon _ hreach ihs ih =>
    obtain ⟨p, rfl, hp⟩ := Keeps.enclosed hopen ihs hclose
    obtain ⟨b, rfl, hb⟩ := hcolon.consumed
    obtain ⟨p', rfl, hp'⟩ := ih
    refine ⟨p ++ (b ++ p'), by simp, fun q hq => ?_⟩
    obtain ⟨x, y, hopen', hts, hclose'⟩ := hp (b ++ (p' ++ q))
    rw [List.append_assoc, List.append_assoc]
    exact .function hopen' hts hclose' (hb _).1 (hp' q hq) (hq.unbarred hreach)
  | nothing => exact ⟨[], rfl, fun _ _ => .nothing⟩
  | last _ ih => exact ih.mono fun _ _ => .last
  | comma _ hcomma _ ih ihs =>
    exact (ih.mark hcomma ihs).mono fun _ _ ⟨_, _, ht, hcomma, hs⟩ => .comma ht hcomma hs

/-! ## Completing what has been passed -/

/-- What stands before `rest`, with all blanks, can be completed to a text for which `D` holds,
whatever follows that nothing of a type goes on with. -/
def Completes (D : List Char → List Char → Prop) (s rest : List Char) : Prop :=
  skip rest = rest ∧
    ∃ p more, s = p ++ rest ∧ ∀ r, Stops r → Calm r → D (p ++ more ++ r) r

section

variable {D E : List Char → List Char → Prop} {s rest : List Char}

/-- A text inside another one is completed, and then what is around it. -/
theorem Completes.within (h : Completes D s rest) (front tail : List Char)
    (htail : ∀ r, Stops r → Calm r → Stops (tail ++ r) ∧ Calm (tail ++ r))
    (hD : ∀ x r, Stops r → Calm r → D x (tail ++ r) → E (front ++ x) r) :
    Completes E (front ++ s) rest := by
  obtain ⟨hskip, p, more, rfl, hp⟩ := h
  refine ⟨hskip, front ++ p, more ++ tail, by simp, fun r hstops hcalm => ?_⟩
  obtain ⟨hstops', hcalm'⟩ := htail r hstops hcalm
  simpa using hD _ r hstops hcalm (hp _ hstops' hcalm')

/-- A text at the end of another one is completed, and what is before it is there. -/
theorem Completes.behind (h : Completes D s rest) (front : List Char)
    (hD : ∀ x r, Stops r → Calm r → D x r → E (front ++ x) r) : Completes E (front ++ s) rest :=
  h.within front [] (fun _ => .intro) hD

theorem Completes.mono (h : Completes D s rest)
    (hD : ∀ x r, Stops r → Calm r → D x r → E x r) : Completes E s rest :=
  h.behind [] hD

/-- A text that is refused at its first character beside blanks goes on with `more` instead. -/
theorem completes_skip (more : List Char)
    (h : ∀ b r, (∀ c ∈ b, Text.isSpace c) → Stops r → Calm r → D (b ++ (more ++ r)) r) :
    Completes D s (skip s) := by
  refine ⟨List.dropWhile_idempotent _ s, s.takeWhile Text.isSpace, more,
    (blanks_append_skip s).symm, fun r hstops hcalm => ?_⟩
  rw [List.append_assoc]
  exact h _ r (fun _ => isSpace_of_blanks) hstops hcalm

theorem Completes.mark {c : Char} {r : List Char} (h : Completes D r rest) (hmark : Mark c s r)
    (hD : ∀ s x r, Stops r → Calm r → Mark c s x → D x r → E s r) : Completes E s rest := by
  obtain ⟨b, rfl, hb⟩ := hmark.consumed
  exact h.behind b fun x r hstops hcalm hx => hD _ x r hstops hcalm (hb x).1 hx

/-- What was read stays read when what is behind the next symbol is completed. -/
theorem Completes.after {P : List Char → List Char → Prop} {c : Char} {r r' : List Char}
    (h : Completes D r' rest) (hP : Keeps P s r) (hmark : Mark c r r')
    (hD : ∀ s x y r, P s x → Mark c x y → D y r → E s r) : Completes E s rest := by
  obtain ⟨p, rfl, hp⟩ := hP
  obtain ⟨b, rfl, hb⟩ := hmark.consumed
  rw [← List.append_assoc]
  refine h.behind (p ++ b) fun x r _ _ hx => ?_
  obtain ⟨hmark', halike⟩ := hb x
  rw [List.append_assoc]
  exact hD _ _ x r (hp _ halike.replaces) hmark' hx

/-- Where a symbol is missing behind what was read, it is put in. -/
theorem Completes.missing {P : List Char → List Char → Prop} {c : Char} {r : List Char}
    (hP : Keeps P s r) (hc : Text.isSpace c = false) (hname : Parser.continuesName c = false)
    (hbar : c ≠ '|') (more : List Char)
    (hD : ∀ s x r, Stops r → Calm r → P s x → Mark c x (more ++ r) → E s r) :
    Completes E s (skip r) := by
  obtain ⟨p, rfl, hp⟩ := hP
  have hput : Completes (fun x q => Stops q ∧ Calm q ∧ Mark c x (more ++ q)) r (skip r) :=
    completes_skip (c :: more) fun b q hb hstops hcalm => ⟨hstops, hcalm, mark_append hb hc _⟩
  refine hput.behind p fun x q _ _ ⟨hstops, hcalm, hmark⟩ => ?_
  exact hD _ x q hstops hcalm (hp x (hmark.replaces hname hbar r)) hmark

end

/-- The shortest type. -/
theorem derives_letter {b r : List Char} (hb : ∀ c ∈ b, Text.isSpace c) (hr : Stops r) :
    Derives unbarred (.primary (.custom "A")) (b ++ ('A' :: r)) r := by
  have hname : IsName ['A'] := ⟨by decide, nofun⟩
  exact .name (n := ['A']) (skip_name hb hname r) hname hr (.inr ⟨by decide, rfl⟩)

/-- A result makes a function of whatever is found. -/
theorem finishes_letter (found : List Ty) {b r : List Char} (hb : ∀ c ∈ b, Text.isSpace c)
    (hr : Stops r) (hcalm : Calm r) :
    Finishes unbarred found (b ++ (':' :: 'A' :: r)) (.function found (some (.custom "A"))) r :=
  .inl ⟨_, 'A' :: r, mark_append hb (by decide) _, .alone (derives_letter (b := []) nofun hr),
    hcalm.2, rfl⟩

/-! ## Readers that fail -/

theorem andThen_error {f : List Char → Step} {g : Ty → List Char → Step} {s : List Char}
    {e : Refusal} (h : andThen f g s = .error e) :
    f s = .error e ∨ ∃ t r, f s = .ok (t, r) ∧ g t r = .error e := by
  unfold andThen at h
  cases hf : f s with
  | error e' =>
    rw [hf] at h
    cases h
    exact .inl rfl
  | ok p =>
    rw [hf] at h
    exact .inr ⟨p.1, p.2, rfl, h⟩

theorem onMark_error {c : Char} {f g : List Char → Step} {s : List Char} {e : Refusal}
    (h : onMark c f g s = .error e) :
    (∃ r, Mark c s r ∧ f r = .error e) ∨ g s = .error e := by
  unfold onMark at h
  split at h
  · next r hc => exact .inl ⟨r, accept_eq_some.mp hc, h⟩
  · exact .inr h

theorem refuse_error {reason : String} {s : List Char} {e : Refusal}
    (h : (refuse reason s : Step) = .error e) : e.rest = skip s := by
  cases h
  rfl

theorem word_error {s : List Char} {e : Refusal} (h : word s = .error e) : e.rest = skip s := by
  unfold word at h
  split at h
  · exact refuse_error h
  · cases h

theorem group_error {found : List Ty} {s : List Char} {e : Refusal}
    (h : group found s = .error e) : e.rest = skip s := by
  rcases found with _ | ⟨t, _ | ⟨_, _⟩⟩
  · exact refuse_error h
  · cases h
  · exact refuse_error h

/-! ## What has been read -/

theorem accept_bar_of_members {n : Nat} {found : List Ty} {s r : List Char} {t : Ty}
    (h : Parser.members n found s = .ok (t, r)) : accept '|' r = none := by
  induction n generalizing found s with
  | zero => cases h
  | succ n ih =>
    obtain ⟨m, hm, hparts⟩ := members_ok h
    cases hm
    cases hparts with
    | last _ hnone => exact hnone
    | more _ _ hs => exact ih hs

theorem allows_unbarred : Allows unbarred := by
  intro n s t r h
  obtain ⟨m, rfl, hparts⟩ := type_ok h
  cases hparts with
  | alone _ hnone => exact hnone
  | union _ _ hs => exact accept_bar_of_members hs

theorem keeps_of_primary {n : Nat} {s r : List Char} {t : Ty}
    (h : Parser.primary n s = .ok (t, r)) : Keeps (Derives unbarred (.primary t)) s r :=
  ((derived allows_unbarred n).primary _ _ _ h).keeps

theorem keeps_of_type {n : Nat} {s r : List Char} {t : Ty}
    (h : Parser.type n s = .ok (t, r)) : Keeps (Derives unbarred (.type t)) s r :=
  ((derived allows_unbarred n).type _ _ _ h).keeps

/-! ## Every part of the reader -/

/-- A type. -/
def TypeAt (s r : List Char) : Prop :=
  ∃ t, Derives unbarred (.type t) s r

def PrimaryAt (s r : List Char) : Prop :=
  ∃ t, Derives unbarred (.primary t) s r

def MembersAt (s r : List Char) : Prop :=
  ∃ ts, Derives unbarred (.members ts) s r

/-- What may follow a closing parenthesis. -/
def FinishAt (found : List Ty) (s r : List Char) : Prop :=
  ∃ t, Finishes unbarred found s t r

/-- Types up to a closing parenthesis, behind those found, and what follows it. -/
def ItemsAt (found : List Ty) (s r : List Char) : Prop :=
  ∃ u us r₁ r₂, Derives unbarred (.items (u :: us)) s r₁ ∧ Mark ')' r₁ r₂ ∧
    FinishAt (found.reverse ++ u :: us) r₂ r

section

variable {found : List Ty} {s rest : List Char}

theorem completes_primary : Completes PrimaryAt s (skip s) :=
  completes_skip ['A'] fun _ _ hb hstops _ => ⟨_, derives_letter hb hstops⟩

theorem completes_finish : Completes (FinishAt found) s (skip s) :=
  completes_skip [':', 'A'] fun _ _ hb hstops hcalm =>
    ⟨_, finishes_letter found hb hstops hcalm⟩

theorem Completes.type (h : Completes PrimaryAt s rest) : Completes TypeAt s rest :=
  h.mono fun _ _ _ _ ⟨t, ht⟩ => ⟨t, .alone ht⟩

theorem Completes.members (h : Completes PrimaryAt s rest) : Completes MembersAt s rest :=
  h.mono fun _ _ _ _ ⟨t, ht⟩ => ⟨[t], .member ht⟩

/-- A closing parenthesis and a result complete any list. -/
theorem itemsAt_letter {t : Ty} {x y r : List Char} (ht : Derives unbarred (.type t) x y)
    (hclose : Mark ')' y (':' :: 'A' :: r)) (hstops : Stops r) (hcalm : Calm r) :
    ItemsAt found x r :=
  ⟨t, [], y, _, .last ht, hclose, _, finishes_letter (b := []) _ nofun hstops hcalm⟩

theorem Completes.items (h : Completes TypeAt s rest) : Completes (ItemsAt found) s rest := by
  refine h.within [] [')', ':', 'A'] (fun r _ _ => ?_) fun x r hstops hcalm ⟨t, ht⟩ => ?_
  · have hmark : Mark ')' ([')', ':', 'A'] ++ r) _ := mark_cons (by decide) _
    exact ⟨hmark.stops (by decide), hmark.calm (by decide) (by decide)⟩
  · exact itemsAt_letter ht (mark_cons (by decide) _) hstops hcalm

end

/-- What every part of the reader with `n` steps has passed where it fails can be completed. -/
structure Completed (n : Nat) : Prop where
  type : ∀ {s e}, Parser.type n s = .error e → Completes TypeAt s e.rest
  members : ∀ {found s e}, Parser.members n found s = .error e → Completes MembersAt s e.rest
  primary : ∀ {s e}, Parser.primary n s = .error e → Completes PrimaryAt s e.rest
  items : ∀ {found s e}, Parser.items n found s = .error e → Completes (ItemsAt found) s e.rest
  finish : ∀ {found s e}, Parser.finish n found s = .error e → Completes (FinishAt found) s e.rest

theorem Completed.zero : Completed 0 where
  type h := refuse_error h ▸ completes_primary.type
  members h := refuse_error h ▸ completes_primary.members
  primary h := refuse_error h ▸ completes_primary
  items h := refuse_error h ▸ completes_primary.type.items
  finish h := refuse_error h ▸ completes_finish

section

variable {n : Nat} {found : List Ty} {s : List Char} {e : Refusal}

theorem Completed.type_succ (h : Completed n) (he : Parser.type (n + 1) s = .error e) :
    Completes TypeAt s e.rest := by
  rw [Ty.type_succ] at he
  rcases andThen_error he with hp | ⟨t, r, hp, he⟩
  · exact (h.primary hp).type
  · rcases onMark_error he with ⟨r', hbar, hs⟩ | he
    · exact (h.members hs).after (keeps_of_primary hp) hbar
        fun _ _ _ _ hp hbar ⟨_, hs⟩ => ⟨_, .union hp hbar hs⟩
    · cases he

theorem Completed.members_succ (h : Completed n)
    (he : Parser.members (n + 1) found s = .error e) : Completes MembersAt s e.rest := by
  rw [Ty.members_succ] at he
  rcases andThen_error he with hp | ⟨t, r, hp, he⟩
  · exact (h.primary hp).members
  · rcases onMark_error he with ⟨r', hbar, hs⟩ | he
    · exact (h.members hs).after (keeps_of_primary hp) hbar
        fun _ _ _ _ hp hbar ⟨_, hs⟩ => ⟨_, .bar hp hbar hs⟩
    · cases he

theorem Completed.array (h : Completed n) (he : andThen (Parser.type n) (fun t =>
      onMark ']' (give (.array (some t))) (refuse "expected ']'")) s = .error e) :
    Completes (fun s r => ∃ t r', Derives unbarred (.type t) s r' ∧ Mark ']' r' r) s e.rest := by
  rcases andThen_error he with ht | ⟨t, r, ht, he⟩
  · refine (h.type ht).within [] [']'] (fun r _ _ => ?_) fun x r _ _ ⟨t, hx⟩ => ?_
    · have hmark : Mark ']' ([']'] ++ r) r := mark_cons (by decide) r
      exact ⟨hmark.stops (by decide), hmark.calm (by decide) (by decide)⟩
    · exact ⟨t, _, hx, mark_cons (by decide) r⟩
  · rcases onMark_error he with ⟨r', _, he⟩ | he
    · cases he
    · rw [refuse_error he]
      exact .missing (keeps_of_type ht) (by decide) (by decide) (by decide) []
        fun _ _ _ _ _ ht hclose => ⟨t, _, ht, hclose⟩

theorem Completed.primary_succ (h : Completed n) (he : Parser.primary (n + 1) s = .error e) :
    Completes PrimaryAt s e.rest := by
  rw [Ty.primary_succ] at he
  rcases onMark_error he with ⟨r, hopen, he⟩ | he
  · exact (h.array he).mark hopen
      fun _ _ _ _ _ hopen ⟨_, _, ht, hclose⟩ => ⟨_, .array hopen ht hclose⟩
  rcases onMark_error he with ⟨r, hopen, he⟩ | he
  · rcases onMark_error he with ⟨r', hclose, he⟩ | he
    · have hfinish := (h.finish he).mark hclose
        (E := fun s r => ∃ x, Mark ')' s x ∧ FinishAt [] x r)
        fun _ x _ _ _ hclose hx => ⟨x, hclose, hx⟩
      exact hfinish.mark hopen fun _ _ _ _ _ hopen ⟨_, hclose, _, hx⟩ =>
        ⟨_, hx.primary hopen .nothing hclose⟩
    · exact (h.items he).mark hopen fun _ _ _ _ _ hopen ⟨_, _, _, _, hs, hclose, _, hx⟩ =>
        ⟨_, hx.primary hopen hs hclose⟩
  · rw [word_error he]
    exact completes_primary

theorem Completed.items_succ (h : Completed n)
    (he : Parser.items (n + 1) found s = .error e) : Completes (ItemsAt found) s e.rest := by
  rw [Ty.items_succ] at he
  rcases andThen_error he with ht | ⟨t, r, ht, he⟩
  · exact (h.type ht).items
  have hkeep := keeps_of_type ht
  rcases onMark_error he with ⟨r', hclose, he⟩ | he
  · refine (h.finish he).after hkeep hclose fun _ _ _ _ ht hclose hx => ?_
    rw [List.reverse_cons] at hx
    exact ⟨t, [], _, _, .last ht, hclose, hx⟩
  rcases onMark_error he with ⟨r', hcomma, he⟩ | he
  · refine (h.items he).after hkeep hcomma fun _ _ _ _ ht hcomma ⟨_, _, _, _, hs, hclose, hx⟩ => ?_
    rw [List.reverse_cons, List.append_assoc] at hx
    exact ⟨t, _ :: _, _, _, .comma ht hcomma hs, hclose, hx⟩
  · rw [refuse_error he]
    exact .missing hkeep (by decide) (by decide) (by decide) [':', 'A']
      fun _ _ _ hstops hcalm ht hclose => itemsAt_letter ht hclose hstops hcalm

theorem Completed.finish_succ (h : Completed n)
    (he : Parser.finish (n + 1) found s = .error e) : Completes (FinishAt found) s e.rest := by
  rw [Ty.finish_succ] at he
  rcases onMark_error he with ⟨r, hcolon, he⟩ | he
  · rcases andThen_error he with ht | ⟨t, r', _, he⟩
    · exact (h.type ht).mark hcolon fun _ _ _ _ hcalm hcolon ⟨t, ht⟩ =>
        ⟨_, .inl ⟨t, _, hcolon, ht, hcalm.2, rfl⟩⟩
    · cases he
  · rw [group_error he]
    exact completes_finish

end

theorem completed (n : Nat) : Completed n := by
  induction n with
  | zero => exact .zero
  | succ n ih =>
    exact ⟨ih.type_succ, ih.members_succ, ih.primary_succ, ih.items_succ, ih.finish_succ⟩

/-! ## Whole texts -/

theorem run_eq (s : List Char) (more : Nat) :
    Parser.run s = (whole (Parser.fuelFor s + more) s).map Prod.fst := by
  unfold Parser.run whole andThen
  rw [type_fuelFor]
  cases Parser.type (Parser.fuelFor s) s with
  | error e => rfl
  | ok p =>
    dsimp only [Bind.bind, Except.bind, ending]
    cases skip p.2 with
    | nil => rfl
    | cons c r => rfl

theorem run_eq_error {s : List Char} {e : Refusal} (more : Nat) :
    Parser.run s = .error e ↔ whole (Parser.fuelFor s + more) s = .error e := by
  rw [run_eq s more]
  cases whole (Parser.fuelFor s + more) s with
  | error e' => simp [Except.map]
  | ok p => simp [Except.map]

/-- A text that is refused is refused at the same place whatever stands behind the character
there. -/
theorem run_error_alike {p : List Char} {e : Refusal} (h : Parser.run (p ++ e.rest) = .error e)
    {r : List Char} (hr : Alike e.rest r) : Parser.run (p ++ r) = .error ⟨e.reason, r⟩ := by
  have hwhole := (run_eq_error (Parser.fuelFor (p ++ r))).mp h
  obtain ⟨p', hs, hp⟩ := shortsighted_whole _ (p ++ e.rest)
  rw [hwhole] at hs hp
  obtain rfl : p = p' := List.append_cancel_right hs
  rw [run_eq_error (Parser.fuelFor (p ++ e.rest)), Nat.add_comm]
  exact hp r hr

/-- A type with blanks behind it. -/
def WholeAt (s r : List Char) : Prop :=
  ∃ t b, Derives unbarred (.type t) s (b ++ r) ∧ ∀ c ∈ b, Text.isSpace c

theorem completes_whole {n : Nat} {s : List Char} {e : Refusal} (h : whole n s = .error e) :
    Completes WholeAt s e.rest := by
  rcases andThen_error h with h | ⟨t, q, hread, h⟩
  · exact ((completed n).type h).mono fun _ _ _ _ ⟨t, ht⟩ => ⟨t, [], ht, nofun⟩
  · have hrest : e.rest = skip q := by
      unfold ending at h
      split at h
      · cases h
      · exact refuse_error h
    obtain ⟨p, rfl, hp⟩ := keeps_of_type hread
    have hblanks : Completes (fun x r => ∃ b, (∀ c ∈ b, Text.isSpace c) ∧ x = b ++ r) q (skip q) :=
      completes_skip [] fun b _ hb _ _ => ⟨b, hb, rfl⟩
    rw [hrest]
    refine hblanks.behind p fun x r hstops hcalm ⟨b, hb, hx⟩ => ?_
    subst hx
    refine ⟨t, b, hp _ ⟨fun _ => ?_, fun _ => ?_⟩, hb⟩
    · exact stops_append hb hstops
    · rw [accept_eq_none, skip_append hb, ← accept_eq_none]
      exact hcalm.2

/-! ## Main statement -/

/-- The text is that of a type. -/
def Readable (src : String) : Prop :=
  ∃ t, parse src = .ok t

theorem readable_iff {src : String} : Readable src ↔ ∃ t, Parser.run src.toList = .ok t := by
  unfold Readable parse
  cases Parser.run src.toList with
  | ok t => simp
  | error e => simp

theorem byteLength_eq (s : List Char) : byteLength s = Text.bytes s := by
  have hsum : ∀ n, s.foldl (fun n c => n + c.utf8Size) n = n + Text.bytes s := by
    induction s with
    | nil => exact fun n => rfl
    | cons c s ih =>
      intro n
      rw [List.foldl_cons, ih, Text.bytes_cons, Nat.add_assoc]
  exact (hsum 0).trans (Nat.zero_add _)

theorem parse_error {src : String} {f : Fault} (h : parse src = .error f) :
    ∃ e, Parser.run src.toList = .error e ∧ f = .of .parseType [Attr.text "type" src,
      Attr.int "offset" (byteLength src.toList - byteLength e.rest : Nat),
      Attr.text "reason" e.reason] := by
  unfold parse at h
  split at h
  · cases h
  · next e hrun =>
    cases h
    exact ⟨e, hrun, rfl⟩

/-- A text is refused at the first character with which no type goes on. -/
theorem run_first_offence {s : List Char} {e : Refusal} (h : Parser.run s = .error e) :
    ∃ p, s = p ++ e.rest ∧ (∃ more, Readable (String.ofList (p ++ more))) ∧
      ∀ c q, e.rest = c :: q → ∀ more, ¬ Readable (String.ofList (p ++ c :: more)) := by
  obtain ⟨hskip, p, more, hs, hmore⟩ := completes_whole ((run_eq_error 0).mp h)
  refine ⟨p, hs, ⟨more, ?_⟩, fun c q hrest after hafter => ?_⟩
  · obtain ⟨t, b, ht, hb⟩ := hmore [] nofun ⟨rfl, rfl⟩
    refine ⟨t, Derives.parse tight_unbarred (r := b) ?_ hb⟩
    simpa using ht
  · obtain ⟨t, ht⟩ := readable_iff.mp hafter
    have hmark : Mark c (c :: q) q := by rwa [hrest] at hskip
    have hagain := run_error_alike (hs ▸ h) (hrest ▸ alike_cons hmark.not_isSpace q after)
    rw [String.toList_ofList, hagain] at ht
    cases ht

/-- A text that is no type is refused at a place between two characters.  What stands before the
place is the front of a type.  If the place is before the end, no type starts with that and the
character there; if it is the end, the text itself is no type but the front of one. -/
theorem refused_at_first_offence {src : String} {f : Fault} (h : parse src = .error f) :
    ∃ (before rest : String) (offset : Nat) (reason : String),
      f = .of .parseType [Attr.text "type" src, Attr.int "offset" offset,
        Attr.text "reason" reason] ∧
      src = before ++ rest ∧ offset = before.utf8ByteSize ∧ offset ≤ src.utf8ByteSize ∧
      (∃ more, Readable (before ++ more)) ∧
      (offset < src.utf8ByteSize → ∃ c after, rest = String.singleton c ++ after ∧
        ∀ more, ¬ Readable (before ++ String.singleton c ++ more)) ∧
      (offset = src.utf8ByteSize → ¬ Readable src ∧ ∃ more, Readable (src ++ more)) := by
  obtain ⟨e, hrun, rfl⟩ := parse_error h
  obtain ⟨p, hsrc, ⟨more, hmore⟩, hoffends⟩ := run_first_offence hrun
  rw [String.ofList_append] at hmore
  have hsplit : src = String.ofList p ++ String.ofList e.rest := by
    rw [← String.ofList_append, ← hsrc, String.ofList_toList]
  have hoffset : byteLength src.toList - byteLength e.rest = (String.ofList p).utf8ByteSize := by
    rw [hsrc, byteLength_eq, byteLength_eq, Text.bytes_append, Nat.add_sub_cancel,
      Text.utf8ByteSize_ofList]
  have hsize : src.utf8ByteSize = (String.ofList p).utf8ByteSize + Text.bytes e.rest := by
    rw [hsplit, String.utf8ByteSize_append, Text.utf8ByteSize_ofList e.rest]
  refine ⟨_, _, _, _, rfl, hsplit, hoffset, by omega, ⟨_, hmore⟩, fun hlt => ?_, fun heq => ?_⟩
  · cases hrest : e.rest with
    | nil =>
      rw [hrest, Text.bytes_nil] at hsize
      omega
    | cons c q =>
      refine ⟨c, String.ofList q, by simp [String.ofList_cons], fun after => ?_⟩
      have hafter := hoffends c q hrest after.toList
      rwa [String.ofList_append, String.ofList_cons, String.ofList_toList, ← String.append_assoc]
        at hafter
  · have hrest : e.rest = [] := by
      cases hrest : e.rest with
      | nil => rfl
      | cons c q =>
        have := c.utf8Size_pos
        rw [hrest, Text.bytes_cons] at hsize
        omega
    have hwhole : src = String.ofList p := by simpa [hrest] using hsplit
    refine ⟨fun ⟨t, ht⟩ => ?_, _, hwhole ▸ hmore⟩
    rw [h] at ht
    cases ht

/-- Behind a comma and a blank of two bytes a type is missing. -/
theorem refused_at_first_offence_behind_comma :
    ∃ f, parse "(A,\u00a0)" = .error f ∧ ∃ before rest : String, "(A,\u00a0)" = before ++ rest ∧
      before.utf8ByteSize = 5 ∧ (∃ more, Readable (before ++ more)) ∧
      ∃ c after, rest = String.singleton c ++ after ∧
        ∀ more, ¬ Readable (before ++ String.singleton c ++ more) := by
  have hparse : parse "(A,\u00a0)" = .error (.of .parseType [Attr.text "type" "(A,\u00a0)",
      Attr.int "offset" 5, Attr.text "reason" "expected type"]) := by rfl
  obtain ⟨before, rest, offset, reason, hf, hsrc, hoffset, _, hmore, hoffends, _⟩ :=
    refused_at_first_offence hparse
  obtain rfl : offset = 5 := by
    simp only [Fault.of, Attr.text, Attr.int, Fault.report.injEq, List.cons.injEq, Prod.mk.injEq,
      Datum.int.injEq] at hf
    omega
  exact ⟨_, hparse, before, rest, hsrc, hoffset.symm, hmore, hoffends (by decide)⟩

end Lowlang.Ty
