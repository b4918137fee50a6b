import Lowlang.Proofs.Text.Classes
import Lowlang.Ty.Parser

set_option autoImplicit false

/-!
# The grammar of types

The text form of types as a grammar, apart from the reader:

* a type is one or more primaries with bars between them;
* a primary is a name, a type in brackets, or a list of types in parentheses, which with a
  colon and a result is a function type and without them holds exactly one type.

Blanks may stand before every symbol and name.  A derivation tells what a phrase means and what
of the text stands behind it.  As it stands the grammar is ambiguous, since a bar behind the
result of a function may go on with the result or with a union around the function.  So
derivations are taken under a rule for how far the result of a function reaches.

Main statements: the reader finds every derivation in which no result could reach farther
(`Derives.reads`), and what the reader finds is such a derivation (`derives_of_type`).
-/

namespace Lowlang.Ty

open Lowlang.Ty.Parser (skip accept startsName continuesName ofName)

/-! ## Names and symbols -/

/-- A name as types may carry it. -/
def IsName : List Char → Prop
  | [] => False
  | c :: rest => startsName c ∧ ∀ d ∈ rest, continuesName d

/-- The rest does not go on with a name. -/
def Stops (rest : List Char) : Prop :=
  ∀ c ∈ rest.head?, continuesName c = false

/-- The names that stand for types of their own, with these types. -/
def reserved : List (String × Ty) :=
  [("Never", .union []), ("Null", .null), ("Int", .int), ("Uint", .uint), ("Byte", .byte),
    ("Char", .char), ("Bool", .bool), ("List", .list)]

/-- The names that stand for types of their own. -/
def reservedNames : List String :=
  ["Never", "Null", "Int", "Uint", "Byte", "Char", "Bool", "List"]

/-- The name stands for the type: its own if it is reserved, and else a custom type. -/
def Names (name : String) (t : Ty) : Prop :=
  (name, t) ∈ reserved ∨ name ∉ reservedNames ∧ t = .custom name

/-- Behind blanks stands the symbol `c`, and behind that `rest`. -/
def Mark (c : Char) (s rest : List Char) : Prop :=
  s.dropWhile Text.isSpace = c :: rest

theorem Mark.eq {c d : Char} {s r q : List Char} (h : Mark c s r) (h' : Mark d s q) :
    c = d ∧ r = q := by
  unfold Mark at h h'
  rw [h] at h'
  exact List.cons.inj h'

theorem Mark.length_lt {c : Char} {s rest : List Char} (h : Mark c s rest) :
    rest.length < s.length := by
  have hle := List.IsSuffix.length_le (List.dropWhile_suffix (l := s) Text.isSpace)
  rw [h, List.length_cons] at hle
  omega

theorem mark_cons {c : Char} (h : Text.isSpace c = false) (s : List Char) : Mark c (c :: s) s := by
  simp [Mark, h]

theorem Mark.blank {c : Char} {s rest : List Char} (h : Mark c s rest) : Mark c (' ' :: s) rest :=
  h

theorem accept_eq_some {c : Char} {s rest : List Char} :
    accept c s = some rest ↔ Mark c s rest := by
  unfold accept Mark skip
  cases s.dropWhile Text.isSpace with
  | nil => simp
  | cons d r =>
    by_cases h : d = c
    · simp [h]
    · simp [h]

theorem Mark.accept {c : Char} {s rest : List Char} (h : Mark c s rest) :
    accept c s = some rest :=
  accept_eq_some.mpr h

/-- A symbol is only accepted where it stands. -/
theorem Mark.accept_ne {c d : Char} {s rest : List Char} (h : Mark c s rest) (hd : c ≠ d) :
    Parser.accept d s = none := by
  cases hs : Parser.accept d s with
  | none => rfl
  | some q => exact absurd (h.eq (accept_eq_some.mp hs)).1 hd

theorem not_mark_of_accept {c : Char} {s : List Char} (h : accept c s = none) (rest : List Char) :
    ¬ Mark c s rest := by
  intro hmark
  rw [hmark.accept] at h
  cases h

theorem not_isSpace_of_startsName {c : Char} (h : startsName c) : Text.isSpace c = false := by
  simp only [startsName, Bool.or_eq_true, decide_eq_true_eq] at h
  rcases h with rfl | h
  · decide
  · exact Text.not_isSpace_of_isLetter h

/-- Where a name stands no symbol does. -/
theorem accept_of_name {s name rest : List Char} (hs : s.dropWhile Text.isSpace = name ++ rest)
    (hname : IsName name) {c : Char} (hc : startsName c = false) : accept c s = none := by
  cases name with
  | nil => exact absurd hname id
  | cons d name =>
    have hmark : Mark d s (name ++ rest) := hs
    refine hmark.accept_ne ?_
    rintro rfl
    rw [hname.1] at hc
    cases hc

/-- The longest name at the front of a text is the one that its rest does not go on with. -/
theorem name_append {name rest : List Char} (hname : IsName name) (hrest : Stops rest) :
    Parser.name (name ++ rest) = (name, rest) := by
  cases name with
  | nil => exact absurd hname id
  | cons c name =>
    obtain ⟨htake, hdrop⟩ := Text.takeWhile_append_rest hname.2 hrest
    rw [List.cons_append, Parser.name, if_pos hname.1, htake, hdrop]

theorem append_name {s : List Char} (h : (Parser.name s).1 ≠ []) :
    s = (Parser.name s).1 ++ (Parser.name s).2 ∧ IsName (Parser.name s).1 ∧
      Stops (Parser.name s).2 := by
  cases s with
  | nil => exact absurd rfl h
  | cons c s =>
    by_cases hc : startsName c
    · rw [Parser.name, if_pos hc]
      refine ⟨by simp, ⟨hc, fun d hd => List.mem_takeWhile_imp hd⟩, ?_⟩
      intro d hd
      have hnot := List.head?_dropWhile_not continuesName s
      rw [Option.mem_def.mp hd] at hnot
      simpa using hnot
    · rw [Parser.name, if_neg hc] at h
      exact absurd rfl h

theorem ofName_of_names {name : String} {t : Ty} (h : Names name t) : ofName name = t := by
  rcases h with h | ⟨h, rfl⟩
  · simp only [reserved, List.mem_cons, Prod.mk.injEq, List.not_mem_nil, or_false] at h
    rcases h with ⟨rfl, rfl⟩ | ⟨rfl, rfl⟩ | ⟨rfl, rfl⟩ | ⟨rfl, rfl⟩ | ⟨rfl, rfl⟩ | ⟨rfl, rfl⟩ |
      ⟨rfl, rfl⟩ | ⟨rfl, rfl⟩ <;> rfl
  · simp only [reservedNames, List.mem_cons, List.not_mem_nil, or_false, not_or] at h
    obtain ⟨h1, h2, h3, h4, h5, h6, h7, h8⟩ := h
    rw [ofName] <;> assumption

theorem names_ofName (name : String) : Names name (ofName name) := by
  by_cases h : name ∈ reservedNames
  · have hnames : reservedNames = reserved.map Prod.fst := rfl
    rw [hnames] at h
    obtain ⟨⟨n, t⟩, hmem, rfl⟩ := List.mem_map.mp h
    rw [ofName_of_names (Or.inl hmem)]
    exact Or.inl hmem
  · have hcustom : Names name (.custom name) := Or.inr ⟨h, rfl⟩
    rw [ofName_of_names hcustom]
    exact hcustom

/-! ## Derivations -/

/-- A phrase of the grammar with what it means. -/
inductive Phrase where
  /-- A type. -/
  | type (t : Ty)
  /-- A type without a bar outside brackets and results. -/
  | primary (t : Ty)
  /-- One or more primaries with bars between them. -/
  | members (ts : List Ty)
  /-- Types with commas between them, or nothing. -/
  | items (ts : List Ty)

/-- How far the result of a function may reach: from where it starts to what is left. -/
abbrev Reach := List Char → List Char → Prop

/-- A text has the phrase at its front and the rest behind it. -/
inductive Derives (reach : Reach) : Phrase → List Char → List Char → Prop
  /-- A primary is a type. -/
  | alone {t s r} : Derives reach (.primary t) s r → Derives reach (.type t) s r
  /-- Two or more primaries are a union. -/
  | union {t ts s r₁ r₂ r₃} : Derives reach (.primary t) s r₁ → Mark '|' r₁ r₂ →
      Derives reach (.members ts) r₂ r₃ → Derives reach (.type (.union (t :: ts))) s r₃
  | member {t s r} : Derives reach (.primary t) s r → Derives reach (.members [t]) s r
  | bar {t ts s r₁ r₂ r₃} : Derives reach (.primary t) s r₁ → Mark '|' r₁ r₂ →
      Derives reach (.members ts) r₂ r₃ → Derives reach (.members (t :: ts)) s r₃
  /-- A name is taken as long as it goes. -/
  | name {n t s r} : s.dropWhile Text.isSpace = n ++ r → IsName n → Stops r →
      Names (String.ofList n) t → Derives reach (.primary t) s r
  | array {t s r₁ r₂ r₃} : Mark '[' s r₁ → Derives reach (.type t) r₁ r₂ → Mark ']' r₂ r₃ →
      Derives reach (.primary (.array (some t))) s r₃
  /-- Parentheses without a colon hold one type and mean it. -/
  | group {t s r₁ r₂ r₃} : Mark '(' s r₁ → Derives reach (.items [t]) r₁ r₂ → Mark ')' r₂ r₃ →
      Derives reach (.primary t) s r₃
  | function {ts t s r₁ r₂ r₃ r₄ r₅} : Mark '(' s r₁ → Derives reach (.items ts) r₁ r₂ →
      Mark ')' r₂ r₃ → Mark ':' r₃ r₄ → Derives reach (.type t) r₄ r₅ → reach r₄ r₅ →
      Derives reach (.primary (.function ts (some t))) s r₅
  | nothing {s} : Derives reach (.items []) s s
  | last {t s r} : Derives reach (.type t) s r → Derives reach (.items [t]) s r
  | comma {t u ts s r₁ r₂ r₃} : Derives reach (.type t) s r₁ → Mark ',' r₁ r₂ →
      Derives reach (.items (u :: ts)) r₂ r₃ → Derives reach (.items (t :: u :: ts)) s r₃

/-- Results may end anywhere. -/
def anywhere : Reach := fun _ _ => True

/-- A result reaches as far as any type that starts where it does. -/
def farthest : Reach := fun s r =>
  ∀ t q, Derives anywhere (.type t) s q → r.length ≤ q.length

/-- No bar follows a result. -/
def unbarred : Reach := fun _ r => accept '|' r = none

/-- The whole text is of the type, up to blanks behind it. -/
def Spells (src : String) (t : Ty) : Prop :=
  ∃ rest, Derives farthest (.type t) src.toList rest ∧ ∀ c ∈ rest, Text.isSpace c

variable {reach : Reach} {φ : Phrase} {s r : List Char}

theorem Derives.anywhere (h : Derives reach φ s r) : Derives anywhere φ s r := by
  induction h with
  | alone _ ih => exact .alone ih
  | union _ hbar _ ih ihs => exact .union ih hbar ihs
  | member _ ih => exact .member ih
  | bar _ hbar _ ih ihs => exact .bar ih hbar ihs
  | name hs hname hstops hnames => exact .name hs hname hstops hnames
  | array hopen _ hclose ih => exact .array hopen ih hclose
  | group hopen _ hclose ih => exact .group hopen ih hclose
  | function hopen _ hclose hcolon _ _ ihs ih => exact .function hopen ihs hclose hcolon ih trivial
  | nothing => exact .nothing
  | last _ ih => exact .last ih
  | comma _ hcomma _ ih ihs => exact .comma ih hcomma ihs

/-- The fewest characters of a phrase. -/
def Phrase.least : Phrase → Nat
  | .items [] => 0
  | _ => 1

theorem Derives.length_le (h : Derives reach φ s r) : r.length + φ.least ≤ s.length := by
  induction h with
  | alone _ ih | member _ ih | last _ ih => exact ih
  | union _ hbar _ ih ihs | bar _ hbar _ ih ihs | comma _ hbar _ ih ihs =>
    have := hbar.length_lt
    simp only [Phrase.least] at ih ihs ⊢
    omega
  | @name n t s r hs hname _ _ =>
    have hle := List.IsSuffix.length_le (List.dropWhile_suffix (l := s) Text.isSpace)
    cases n with
    | nil => exact absurd hname id
    | cons c n =>
      rw [hs] at hle
      simp only [List.cons_append, List.length_cons, List.length_append, Phrase.least] at hle ⊢
      omega
  | array hopen _ hclose ih | group hopen _ hclose ih =>
    have := hopen.length_lt
    have := hclose.length_lt
    simp only [Phrase.least] at ih ⊢
    omega
  | function hopen _ hclose hcolon _ _ ihs ih =>
    have := hopen.length_lt
    have := hclose.length_lt
    have := hcolon.length_lt
    simp only [Phrase.least] at ih ⊢
    omega
  | nothing => exact Nat.le_refl _

/-- No phrase starts with a closing parenthesis. -/
theorem Derives.accept_close (h : Derives reach φ s r) (hφ : φ ≠ .items []) :
    accept ')' s = none := by
  induction h with
  | alone _ ih | member _ ih | last _ ih => exact ih nofun
  | union _ _ _ ih _ | bar _ _ _ ih _ | comma _ _ _ ih _ => exact ih nofun
  | name hs hname _ _ => exact accept_of_name hs hname (by decide)
  | array hopen _ _ _ | group hopen _ _ _ => exact hopen.accept_ne (by decide)
  | function hopen _ _ _ _ _ _ _ => exact hopen.accept_ne (by decide)
  | nothing => exact absurd rfl hφ

/-- A blank before a phrase changes nothing. -/
theorem Derives.blank (h : Derives reach φ s r) (hφ : φ ≠ .items []) :
    Derives reach φ (' ' :: s) r := by
  induction h with
  | alone _ ih => exact .alone (ih nofun)
  | union _ hbar hs ih _ => exact .union (ih nofun) hbar hs
  | member _ ih => exact .member (ih nofun)
  | bar _ hbar hs ih _ => exact .bar (ih nofun) hbar hs
  | name hs hname hstops hnames => exact .name hs hname hstops hnames
  | array hopen ht hclose _ => exact .array hopen.blank ht hclose
  | group hopen hs hclose _ => exact .group hopen.blank hs hclose
  | function hopen hs hclose hcolon ht hreach _ _ =>
    exact .function hopen.blank hs hclose hcolon ht hreach
  | nothing => exact absurd rfl hφ
  | last _ ih => exact .last (ih nofun)
  | comma _ hcomma hs ih _ => exact .comma (ih nofun) hcomma hs

/-! ## Results that could reach farther -/

/-- Behind the text a union may go on. -/
def Extends (r : List Char) : Prop :=
  ∃ ts r₁ r₂, Mark '|' r r₁ ∧ Derives anywhere (.members ts) r₁ r₂

theorem members_append {ts us : List Ty} {r₁ r₂ : List Char}
    (h : Derives reach (.members ts) s r) (hbar : Mark '|' r r₁)
    (hmore : Derives reach (.members us) r₁ r₂) : Derives reach (.members (ts ++ us)) s r₂ := by
  generalize hφ : Phrase.members ts = φ at h
  induction h generalizing ts with
  | member hp _ =>
    cases hφ
    exact .bar hp hbar hmore
  | bar hp hbar' _ _ ih =>
    cases hφ
    exact .bar hp hbar' (ih hbar rfl)
  | _ => cases hφ

/-- A type behind which a union may go on is the front of a longer type. -/
theorem type_append {t : Ty} {us : List Ty} {r₁ r₂ : List Char} (h : Derives reach (.type t) s r)
    (hbar : Mark '|' r r₁) (hmore : Derives reach (.members us) r₁ r₂) :
    ∃ u, Derives reach (.type u) s r₂ := by
  cases h with
  | alone hp => exact ⟨_, .union hp hbar hmore⟩
  | union hp hbar' hs => exact ⟨_, .union hp hbar' (members_append hs hbar hmore)⟩

/-- Under the rule, no union may go on behind a result. -/
def Tight (reach : Reach) : Prop :=
  ∀ t s r, reach s r → Derives anywhere (.type t) s r → ¬ Extends r

theorem tight_unbarred : Tight unbarred := by
  rintro t s r hreach _ ⟨ts, r₁, r₂, hbar, _⟩
  exact not_mark_of_accept hreach r₁ hbar

theorem tight_farthest : Tight farthest := by
  rintro t s r hreach h ⟨ts, r₁, r₂, hbar, hmore⟩
  obtain ⟨u, hlonger⟩ := type_append h hbar hmore
  have := hreach u r₂ hlonger
  have := hbar.length_lt
  have := hmore.length_le
  omega

/-! ## Derivations are read -/

/-- The reader finds the phrase, given steps enough, where what is left does not go on with it.
A primary may be left before a bar with which a union goes on. -/
def ReadsAt (s r : List Char) : Phrase → Prop
  | .type t => accept ':' r = none → accept '|' r = none →
      ∀ fuel, 4 * s.length + 2 ≤ fuel → Parser.type fuel s = .ok (t, r)
  | .primary t => accept ':' r = none → accept '|' r = none ∨ Extends r →
      ∀ fuel, 4 * s.length + 1 ≤ fuel → Parser.primary fuel s = .ok (t, r)
  | .members ts => accept ':' r = none → accept '|' r = none →
      ∀ fuel found, 4 * s.length + 2 ≤ fuel →
        Parser.members fuel found s = .ok (.union (found.reverse ++ ts), r)
  | .items ts => ts ≠ [] → ∀ fuel found q, 4 * s.length + 3 ≤ fuel → Mark ')' r q →
      ∃ n, 4 * q.length + 1 ≤ n ∧
        Parser.items fuel found s = Parser.finish n (found.reverse ++ ts) q

theorem exists_fuel {n fuel : Nat} (h : n + 1 ≤ fuel) : ∃ m, fuel = m + 1 ∧ n ≤ m :=
  ⟨fuel - 1, by omega, by omega⟩

theorem ReadsAt.alone {t : Ty} (h : ReadsAt s r (.primary t)) : ReadsAt s r (.type t) := by
  intro hcolon hbar fuel hfuel
  obtain ⟨m, rfl, hm⟩ := exists_fuel hfuel
  rw [Parser.type, h hcolon (.inl hbar) m hm]
  simp only [bind, Except.bind, hbar]

theorem ReadsAt.union {t : Ty} {ts : List Ty} {r₁ r₂ r₃ : List Char}
    (hp : Derives reach (.primary t) s r₁) (hbar : Mark '|' r₁ r₂)
    (hs : Derives reach (.members ts) r₂ r₃) (ih : ReadsAt s r₁ (.primary t))
    (ihs : ReadsAt r₂ r₃ (.members ts)) : ReadsAt s r₃ (.type (.union (t :: ts))) := by
  intro hcolon' hbar' fuel hfuel
  obtain ⟨m, rfl, hm⟩ := exists_fuel hfuel
  have hlength := hp.length_le
  have := hbar.length_lt
  rw [Parser.type, ih (hbar.accept_ne (by decide)) (.inr ⟨ts, r₂, r₃, hbar, hs.anywhere⟩) m hm]
  simp only [Phrase.least] at hlength
  simp only [bind, Except.bind, hbar.accept]
  exact ihs hcolon' hbar' m [t] (by omega)

theorem ReadsAt.member {t : Ty} (h : ReadsAt s r (.primary t)) : ReadsAt s r (.members [t]) := by
  intro hcolon hbar fuel found hfuel
  obtain ⟨m, rfl, hm⟩ := exists_fuel hfuel
  rw [Parser.members, h hcolon (.inl hbar) m hm]
  simp only [bind, Except.bind, hbar, List.reverse_cons]

theorem ReadsAt.bar {t : Ty} {ts : List Ty} {r₁ r₂ r₃ : List Char}
    (hp : Derives reach (.primary t) s r₁) (hbar : Mark '|' r₁ r₂)
    (hs : Derives reach (.members ts) r₂ r₃) (ih : ReadsAt s r₁ (.primary t))
    (ihs : ReadsAt r₂ r₃ (.members ts)) : ReadsAt s r₃ (.members (t :: ts)) := by
  intro hcolon' hbar' fuel found hfuel
  obtain ⟨m, rfl, hm⟩ := exists_fuel hfuel
  have hlength := hp.length_le
  have := hbar.length_lt
  rw [Parser.members, ih (hbar.accept_ne (by decide)) (.inr ⟨ts, r₂, r₃, hbar, hs.anywhere⟩) m hm]
  simp only [Phrase.least] at hlength
  simp only [bind, Except.bind, hbar.accept]
  rw [ihs hcolon' hbar' m (t :: found) (by omega), List.reverse_cons, List.append_assoc,
    List.singleton_append]

theorem ReadsAt.name {name : List Char} {t : Ty} (hs : s.dropWhile Text.isSpace = name ++ r)
    (hname : IsName name) (hstops : Stops r) (hnames : Names (String.ofList name) t) :
    ReadsAt s r (.primary t) := by
  intro _ _ fuel hfuel
  obtain ⟨m, rfl, _⟩ := exists_fuel hfuel
  have hread : Parser.name (skip s) = (name, r) := by
    rw [skip, hs]
    exact name_append hname hstops
  rw [Parser.primary, accept_of_name hs hname (by decide), accept_of_name hs hname (by decide)]
  cases name with
  | nil => exact absurd hname id
  | cons c name => simp only [hread, ofName_of_names hnames]

theorem ReadsAt.array {t : Ty} {r₁ r₂ r₃ : List Char} (hopen : Mark '[' s r₁)
    (hclose : Mark ']' r₂ r₃) (ih : ReadsAt r₁ r₂ (.type t)) :
    ReadsAt s r₃ (.primary (.array (some t))) := by
  intro _ _ fuel hfuel
  obtain ⟨m, rfl, hm⟩ := exists_fuel hfuel
  have := hopen.length_lt
  have hread := ih (hclose.accept_ne (by decide)) (hclose.accept_ne (by decide)) m (by omega)
  rw [Parser.primary]
  simp only [hopen.accept, hread, bind, Except.bind, hclose.accept]

/-- What stands in parentheses is read up to the closing one. -/
theorem primary_paren {ts : List Ty} {r₁ r₂ r₃ : List Char} (hopen : Mark '(' s r₁)
    (hs : Derives reach (.items ts) r₁ r₂) (hclose : Mark ')' r₂ r₃)
    (ih : ReadsAt r₁ r₂ (.items ts)) {fuel : Nat} (hfuel : 4 * s.length + 1 ≤ fuel) :
    ∃ n, 4 * r₃.length + 1 ≤ n ∧ Parser.primary fuel s = Parser.finish n ts r₃ := by
  obtain ⟨m, rfl, hm⟩ := exists_fuel hfuel
  have hlength := hs.length_le
  have := hopen.length_lt
  have := hclose.length_lt
  rw [Parser.primary]
  simp only [hopen.accept_ne (show '(' ≠ '[' by decide), hopen.accept]
  cases ts with
  | nil =>
    cases hs
    exact ⟨m, by omega, by simp only [hclose.accept]⟩
  | cons t ts =>
    obtain ⟨n, hn, hitems⟩ := ih nofun m [] r₃ (by omega) hclose
    exact ⟨n, hn, by simp only [hs.accept_close nofun, hitems, List.reverse_nil, List.nil_append]⟩

theorem ReadsAt.group {t : Ty} {r₁ r₂ r₃ : List Char} (hopen : Mark '(' s r₁)
    (hs : Derives reach (.items [t]) r₁ r₂) (hclose : Mark ')' r₂ r₃)
    (ih : ReadsAt r₁ r₂ (.items [t])) : ReadsAt s r₃ (.primary t) := by
  intro hcolon _ fuel hfuel
  obtain ⟨n, hn, hread⟩ := primary_paren hopen hs hclose ih hfuel
  obtain ⟨m, rfl, _⟩ := exists_fuel hn
  rw [hread]
  simp only [Parser.finish, hcolon]

theorem ReadsAt.function {ts : List Ty} {t : Ty} {r₁ r₂ r₃ r₄ r₅ : List Char}
    (tight : Tight reach) (hopen : Mark '(' s r₁) (hs : Derives reach (.items ts) r₁ r₂)
    (hclose : Mark ')' r₂ r₃) (hcolon : Mark ':' r₃ r₄) (ht : Derives reach (.type t) r₄ r₅)
    (hreach : reach r₄ r₅) (ihs : ReadsAt r₁ r₂ (.items ts)) (ih : ReadsAt r₄ r₅ (.type t)) :
    ReadsAt s r₅ (.primary (.function ts (some t))) := by
  intro hcolon' hbar fuel hfuel
  have hbar' := hbar.resolve_right (tight t r₄ r₅ hreach ht.anywhere)
  obtain ⟨n, hn, hread⟩ := primary_paren hopen hs hclose ihs hfuel
  obtain ⟨m, rfl, hm⟩ := exists_fuel hn
  have := hcolon.length_lt
  rw [hread]
  simp only [Parser.finish, hcolon.accept, ih hcolon' hbar' m (by omega), bind, Except.bind]

theorem ReadsAt.last {t : Ty} (ht : Derives reach (.type t) s r) (ih : ReadsAt s r (.type t)) :
    ReadsAt s r (.items [t]) := by
  intro _ fuel found q hfuel hclose
  obtain ⟨m, rfl, hm⟩ := exists_fuel hfuel
  have hlength := ht.length_le
  have := hclose.length_lt
  have hread := ih (hclose.accept_ne (by decide)) (hclose.accept_ne (by decide)) m hm
  refine ⟨m, by omega, ?_⟩
  simp only [Parser.items, hread, bind, Except.bind, hclose.accept, List.reverse_cons]

theorem ReadsAt.comma {t u : Ty} {ts : List Ty} {r₁ r₂ r₃ : List Char}
    (ht : Derives reach (.type t) s r₁) (hcomma : Mark ',' r₁ r₂) (ih : ReadsAt s r₁ (.type t))
    (ihs : ReadsAt r₂ r₃ (.items (u :: ts))) : ReadsAt s r₃ (.items (t :: u :: ts)) := by
  intro _ fuel found q hfuel hclose
  obtain ⟨m, rfl, hm⟩ := exists_fuel hfuel
  have hlength := ht.length_le
  have := hcomma.length_lt
  simp only [Phrase.least] at hlength
  have hread := ih (hcomma.accept_ne (by decide)) (hcomma.accept_ne (by decide)) m hm
  obtain ⟨n, hn, hitems⟩ := ihs nofun m (t :: found) q (by omega) hclose
  refine ⟨n, hn, ?_⟩
  simp only [Parser.items, hread, bind, Except.bind, hcomma.accept_ne (show ',' ≠ ')' by decide),
    hcomma.accept]
  rw [hitems, List.reverse_cons, List.append_assoc, List.singleton_append]

/-- The reader finds every derivation under a rule that leaves no longer result. -/
theorem Derives.reads (tight : Tight reach) (h : Derives reach φ s r) : ReadsAt s r φ := by
  induction h with
  | alone _ ih => exact .alone ih
  | union hp hbar hs ih ihs => exact .union hp hbar hs ih ihs
  | member _ ih => exact .member ih
  | bar hp hbar hs ih ihs => exact .bar hp hbar hs ih ihs
  | name hs hname hstops hnames => exact .name hs hname hstops hnames
  | array hopen _ hclose ih => exact .array hopen hclose ih
  | group hopen hs hclose ih => exact .group hopen hs hclose ih
  | function hopen hs hclose hcolon ht hreach ihs ih =>
    exact .function tight hopen hs hclose hcolon ht hreach ihs ih
  | nothing => exact fun h => absurd rfl h
  | last ht ih => exact .last ht ih
  | comma ht hcomma _ ih ihs => exact .comma ht hcomma ih ihs

end Lowlang.Ty
