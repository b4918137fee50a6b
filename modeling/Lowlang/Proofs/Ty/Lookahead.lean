import Lowlang.Proofs.Ty.Exact

set_option autoImplicit false

/-!
# One character ahead

Every part of the reader of types is shortsighted: what it makes of a text does not depend on what
stands behind the first character that it leaves.  That character counts twice, as the one that ends
a name and, behind blanks, as the symbol to go on with.

The parts are made of a few readers: one after the other, one or the other by the next symbol, a
name, a refusal.  Being shortsighted passes on from these to what they make up, and so by induction
on the steps to the whole reader.
-/

namespace Lowlang.Ty

open Lowlang.Ty.Parser (Refusal Step skip accept refuse)

/-! ## One character ahead -/

/-- The texts start with the same character, and with the same one beside blanks. -/
structure Alike (r q : List Char) : Prop where
  first : r.head? = q.head?
  mark : (skip r).head? = (skip q).head?

theorem skip_append {b : List Char} (h : ∀ c ∈ b, Text.isSpace c) (r : List Char) :
    skip (b ++ r) = skip r :=
  List.dropWhile_append_of_pos h

theorem blanks_append_skip (s : List Char) : s.takeWhile Text.isSpace ++ skip s = s :=
  List.takeWhile_append_dropWhile

theorem isSpace_of_blanks {s : List Char} {c : Char} (h : c ∈ s.takeWhile Text.isSpace) :
    Text.isSpace c :=
  List.mem_takeWhile_imp h

theorem Alike.append {r q : List Char} (h : Alike r q) (p : List Char) :
    Alike (p ++ r) (p ++ q) := by
  induction p with
  | nil => exact h
  | cons c p ih =>
    refine ⟨rfl, ?_⟩
    by_cases hc : Text.isSpace c
    · have hskip : ∀ x, skip (c :: x) = skip x := fun x => List.dropWhile_cons_of_pos hc
      rw [List.cons_append, List.cons_append, hskip, hskip]
      exact ih.mark
    · have hskip : ∀ x, skip (c :: x) = c :: x := fun x => List.dropWhile_cons_of_neg hc
      rw [List.cons_append, List.cons_append, hskip, hskip]
      rfl

theorem alike_cons {c : Char} (h : Text.isSpace c = false) (q r : List Char) :
    Alike (c :: q) (c :: r) := by
  have hskip : ∀ x, skip (c :: x) = c :: x := mark_cons h
  exact ⟨rfl, by rw [hskip, hskip]; rfl⟩

theorem accept_eq_none {c : Char} {s : List Char} :
    accept c s = none ↔ (skip s).head? ≠ some c := by
  unfold accept
  cases skip s with
  | nil => simp
  | cons d r => by_cases h : d = c <;> simp [h]

theorem Alike.accept_none {c : Char} {r q : List Char} (h : Alike r q) (hr : accept c r = none) :
    accept c q = none := by
  rw [accept_eq_none, ← h.mark]
  exact accept_eq_none.mp hr

theorem Alike.stops {r q : List Char} (h : Alike r q) (hr : Stops r) : Stops q := by
  unfold Stops
  rw [← h.first]
  exact hr

/-- Texts that look like one without blanks at its front have none either. -/
theorem Alike.skip_eq {s r : List Char} (h : Alike (skip s) r) : skip r = r := by
  cases r with
  | nil => rfl
  | cons c r =>
    have hnot := List.head?_dropWhile_not Text.isSpace s
    have hhead : (s.dropWhile Text.isSpace).head? = some c := h.first
    rw [hhead] at hnot
    exact List.dropWhile_cons_of_neg (by simpa using hnot)

theorem Mark.not_isSpace {c : Char} {s r : List Char} (h : Mark c s r) :
    Text.isSpace c = false := by
  have hnot := List.head?_dropWhile_not Text.isSpace s
  rw [h] at hnot
  simpa using hnot

theorem Mark.split {c : Char} {s r : List Char} (h : Mark c s r) :
    s = s.takeWhile Text.isSpace ++ c :: r :=
  (blanks_append_skip s).symm.trans (congrArg _ h)

theorem mark_append {b : List Char} (hb : ∀ c ∈ b, Text.isSpace c) {c : Char}
    (hc : Text.isSpace c = false) (r : List Char) : Mark c (b ++ c :: r) r :=
  (skip_append hb _).trans (mark_cons hc r)

/-- A name does not start with a blank. -/
theorem skip_name {b n : List Char} (hb : ∀ c ∈ b, Text.isSpace c) (hname : IsName n)
    (r : List Char) : skip (b ++ (n ++ r)) = n ++ r := by
  rw [skip_append hb]
  cases n with
  | nil => exact absurd hname id
  | cons c n => exact List.dropWhile_cons_of_neg (by simp [not_isSpace_of_startsName hname.1])

/-! ## Parts of the reader -/

/-- A type that is already read. -/
def give (t : Ty) (s : List Char) : Step :=
  .ok (t, s)

/-- One reader, and another one for what it leaves. -/
def andThen (f : List Char → Step) (g : Ty → List Char → Step) (s : List Char) : Step :=
  f s >>= fun p => g p.1 p.2

/-- One reader behind the symbol `c`, and another one where that does not stand. -/
def onMark (c : Char) (f g : List Char → Step) (s : List Char) : Step :=
  match accept c s with
  | some r => f r
  | none => g s

/-- Reads a name. -/
def word (s : List Char) : Step :=
  match Parser.name (skip s) with
  | ([], _) => refuse "expected type" s
  | (n, r) => .ok (Parser.ofName (String.ofList n), r)

/-- What is in parentheses without a result. -/
def group : List Ty → List Char → Step
  | [t] => give t
  | _ => refuse "expected ':' after parameter list"

/-- The end of the text. -/
def ending (t : Ty) (s : List Char) : Step :=
  match skip s with
  | [] => .ok (t, [])
  | _ => refuse "unexpected trailing input" s

/-- A type and nothing else. -/
def whole (n : Nat) : List Char → Step :=
  andThen (Parser.type n) ending

theorem type_succ (n : Nat) (s : List Char) : Parser.type (n + 1) s =
    andThen (Parser.primary n) (fun t => onMark '|' (Parser.members n [t]) (give t)) s := by
  rw [Parser.type, andThen]
  refine step_congr fun t r _ => ?_
  dsimp only [onMark, give]
  cases accept '|' r <;> rfl

theorem members_succ (n : Nat) (found : List Ty) (s : List Char) :
    Parser.members (n + 1) found s = andThen (Parser.primary n) (fun t =>
      onMark '|' (Parser.members n (t :: found)) (give (.union (t :: found).reverse))) s := by
  rw [Parser.members, andThen]
  refine step_congr fun t r _ => ?_
  dsimp only [onMark, give]
  cases accept '|' r <;> rfl

theorem primary_succ (n : Nat) (s : List Char) : Parser.primary (n + 1) s =
    onMark '[' (andThen (Parser.type n) fun t =>
        onMark ']' (give (.array (some t))) (refuse "expected ']'"))
      (onMark '(' (onMark ')' (Parser.finish n []) (Parser.items n [])) word) s := by
  rw [Parser.primary]
  dsimp only [onMark, word]
  cases accept '[' s with
  | some r => rfl
  | none => rfl

theorem items_succ (n : Nat) (found : List Ty) (s : List Char) :
    Parser.items (n + 1) found s = andThen (Parser.type n) (fun t =>
      onMark ')' (Parser.finish n (t :: found).reverse)
        (onMark ',' (Parser.items n (t :: found)) (refuse "expected ',' or ')'"))) s := by
  rw [Parser.items, andThen]
  rfl

theorem finish_succ (n : Nat) (found : List Ty) (s : List Char) :
    Parser.finish (n + 1) found s =
      onMark ':' (andThen (Parser.type n) fun t => give (.function found (some t)))
        (group found) s := by
  unfold Parser.finish onMark
  cases accept ':' s with
  | some r => rfl
  | none => rcases found with _ | ⟨_, _ | ⟨_, _⟩⟩ <;> rfl

/-! ## Readers see one character ahead -/

/-- What a reader leaves of the text. -/
def left : Step → List Char
  | .ok p => p.2
  | .error e => e.rest

/-- The same outcome with another text left. -/
def leaving (step : Step) (r : List Char) : Step :=
  match step with
  | .ok p => .ok (p.1, r)
  | .error e => .error ⟨e.reason, r⟩

/-- The outcome for a text does not depend on what stands behind the first character that is
left. -/
def Shortsighted (f : List Char → Step) : Prop :=
  ∀ s, ∃ p, s = p ++ left (f s) ∧ ∀ r, Alike (left (f s)) r → f (p ++ r) = leaving (f s) r

theorem shortsighted_give (t : Ty) : Shortsighted (give t) :=
  fun _ => ⟨[], rfl, fun _ _ => rfl⟩

theorem shortsighted_refuse (reason : String) : Shortsighted (refuse reason) := by
  intro s
  refine ⟨s.takeWhile Text.isSpace, (blanks_append_skip s).symm, fun r hr => ?_⟩
  have hskip : skip (s.takeWhile Text.isSpace ++ r) = r :=
    (skip_append (fun _ => isSpace_of_blanks) r).trans (Alike.skip_eq (s := s) hr)
  show Except.error (Refusal.mk reason (skip (s.takeWhile Text.isSpace ++ r))) = _
  rw [hskip]
  rfl

section

variable {f g : List Char → Step}

theorem Shortsighted.andThen {k : Ty → List Char → Step} (hf : Shortsighted f)
    (hk : ∀ t, Shortsighted (k t)) : Shortsighted (andThen f k) := by
  intro s
  obtain ⟨p, hs, hp⟩ := hf s
  unfold Ty.andThen
  cases hfs : f s with
  | error e =>
    rw [hfs] at hs hp
    exact ⟨p, hs, fun r hr => by rw [hp r hr]; rfl⟩
  | ok read =>
    obtain ⟨t, q⟩ := read
    rw [hfs] at hs hp
    obtain ⟨p', hq, hp'⟩ := hk t q
    refine ⟨p ++ p', ?_, fun r hr => ?_⟩
    · rw [List.append_assoc]
      exact hs.trans (congrArg _ hq)
    · -- What the first reader leaves still looks as it did.
      have halike : Alike q (p' ++ r) := by
        rw [hq]
        exact hr.append p'
      rw [List.append_assoc, hp _ halike]
      exact hp' r hr

theorem Shortsighted.onMark {c : Char} (hf : Shortsighted f) (hg : Shortsighted g) :
    Shortsighted (onMark c f g) := by
  intro s
  unfold Ty.onMark
  cases hc : accept c s with
  | none =>
    obtain ⟨p, hs, hp⟩ := hg s
    refine ⟨p, hs, fun r hr => ?_⟩
    have hnone : accept c (p ++ r) = none := by
      refine (hr.append p).accept_none ?_
      rwa [← hs]
    rw [hnone]
    exact hp r hr
  | some q =>
    have hmark := accept_eq_some.mp hc
    obtain ⟨p, hq, hp⟩ := hf q
    refine ⟨s.takeWhile Text.isSpace ++ c :: p, ?_, fun r hr => ?_⟩
    · rw [List.append_assoc, List.cons_append]
      exact hmark.split.trans (congrArg _ (congrArg _ hq))
    · have hsome := mark_append (fun _ => isSpace_of_blanks (s := s)) hmark.not_isSpace (p ++ r)
      rw [List.append_assoc, List.cons_append, hsome.accept]
      exact hp r hr

end

theorem name_eq_nil {s : List Char} :
    (Parser.name s).1 = [] ↔ ∀ c ∈ s.head?, Parser.startsName c = false := by
  cases s with
  | nil => simp [Parser.name]
  | cons c s => by_cases h : Parser.startsName c <;> simp [Parser.name, h]

theorem word_of_no_name {s : List Char} (h : (Parser.name (skip s)).1 = []) :
    word s = refuse "expected type" s := by
  unfold word
  split
  · rfl
  · next hne heq =>
    rw [heq] at h
    exact absurd h hne

theorem word_of_name {s n r : List Char} (hs : skip s = n ++ r) (hname : IsName n)
    (hstops : Stops r) : word s = .ok (Parser.ofName (String.ofList n), r) := by
  unfold word
  rw [hs, name_append hname hstops]
  cases n with
  | nil => exact absurd hname id
  | cons c n => rfl

theorem shortsighted_word : Shortsighted word := by
  intro s
  by_cases h : (Parser.name (skip s)).1 = []
  · have hrefuse := shortsighted_refuse "expected type" s
    rw [← word_of_no_name h] at hrefuse
    obtain ⟨p, hs, hp⟩ := hrefuse
    refine ⟨p, hs, fun r hr => ?_⟩
    rw [← hp r hr]
    refine word_of_no_name (name_eq_nil.mpr ?_)
    have halike := hr.append p
    rw [← hs] at halike
    rw [← halike.mark]
    exact name_eq_nil.mp h
  · obtain ⟨hs, hname, hstops⟩ := append_name h
    have hword := word_of_name hs hname hstops
    refine ⟨s.takeWhile Text.isSpace ++ (Parser.name (skip s)).1, ?_, fun r hr => ?_⟩
    · rw [hword, List.append_assoc]
      exact (blanks_append_skip s).symm.trans (congrArg _ hs)
    · rw [hword] at hr ⊢
      refine word_of_name ?_ hname (hr.stops hstops)
      rw [List.append_assoc]
      exact skip_name (fun _ => isSpace_of_blanks) hname r

theorem shortsighted_ending (t : Ty) : Shortsighted (ending t) := by
  intro s
  cases hs : skip s with
  | nil =>
    have hending : ending t s = .ok (t, []) := by rw [ending, hs]
    rw [hending]
    refine ⟨s, (List.append_nil s).symm, fun r hr => ?_⟩
    have hr : r = [] := List.head?_eq_none_iff.mp hr.first.symm
    rw [hr, List.append_nil, hending]
    rfl
  | cons c q =>
    have hending : ∀ x, skip x ≠ [] → ending t x = refuse "unexpected trailing input" x := by
      intro x hx
      unfold ending
      split
      · next heq => exact absurd heq hx
      · rfl
    obtain ⟨p, hp, hleft⟩ := shortsighted_refuse "unexpected trailing input" s
    rw [hending s (by simp [hs])]
    refine ⟨p, hp, fun r hr => ?_⟩
    rw [← hleft r hr]
    refine hending _ fun hnil => ?_
    have halike := (hr.append p).mark
    rw [← hp, hs, hnil] at halike
    cases halike

/-- What holds of all parts of the reader with `n` steps. -/
structure SeesAhead (n : Nat) : Prop where
  type : Shortsighted (Parser.type n)
  members : ∀ found, Shortsighted (Parser.members n found)
  primary : Shortsighted (Parser.primary n)
  items : ∀ found, Shortsighted (Parser.items n found)
  finish : ∀ found, Shortsighted (Parser.finish n found)

theorem SeesAhead.zero : SeesAhead 0 := by
  have h := shortsighted_refuse "expected type"
  refine ⟨?_, fun _ => ?_, ?_, fun _ => ?_, fun _ => ?_⟩ <;> exact h

theorem SeesAhead.succ {n : Nat} (h : SeesAhead n) : SeesAhead (n + 1) where
  type := by
    rw [funext (type_succ n)]
    exact h.primary.andThen fun t => (h.members [t]).onMark (shortsighted_give t)
  members found := by
    rw [funext (members_succ n found)]
    exact h.primary.andThen fun t => (h.members _).onMark (shortsighted_give _)
  primary := by
    rw [funext (primary_succ n)]
    refine (h.type.andThen fun t => ?_).onMark ?_
    · exact (shortsighted_give _).onMark (shortsighted_refuse _)
    · exact ((h.finish []).onMark (h.items [])).onMark shortsighted_word
  items found := by
    rw [funext (items_succ n found)]
    refine h.type.andThen fun t => (h.finish _).onMark ?_
    exact (h.items _).onMark (shortsighted_refuse _)
  finish found := by
    rw [funext (finish_succ n found)]
    refine (h.type.andThen fun t => shortsighted_give _).onMark ?_
    rcases found with _ | ⟨t, _ | ⟨_, _⟩⟩
    · exact shortsighted_refuse _
    · exact shortsighted_give t
    · exact shortsighted_refuse _

theorem seesAhead (n : Nat) : SeesAhead n := by
  induction n with
  | zero => exact .zero
  | succ n ih => exact ih.succ

theorem shortsighted_whole (n : Nat) : Shortsighted (whole n) :=
  (seesAhead n).type.andThen shortsighted_ending

end Lowlang.Ty
