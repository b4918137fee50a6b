import Lowlang.Proofs.Ty.Exact

set_option autoImplicit false

/-!
# Types read back

The text of a type is read as its normal form.  A union with a single member is written like the
member, and a missing result like the null type, so these two come back as what they are written
like; all else comes back as it was.

The text of a type has a derivation of the normal form, as a whole and, where functions and
unions stand in parentheses, as a member of a union.  The reader finds every derivation.
-/

namespace Lowlang.Ty

open Lowlang.Ty.Parser (accept startsName)

/-! ## Canonical types -/

mutual

/-- The type has a text of its own. -/
def Canonical : Ty → Prop
  | .array elem => CanonicalOption elem
  | .custom name => IsName name.toList ∧ name ∉ reservedNames
  | .function params result => CanonicalList params ∧ CanonicalOption result
  | .union members => members.length ≠ 1 ∧ CanonicalList members
  | .other _ => False
  | _ => True
termination_by structural t => t

/-- The type is there and has a text of its own. -/
def CanonicalOption : Option Ty → Prop
  | none => False
  | some t => Canonical t
termination_by structural t => t

/-- All types have texts of their own. -/
def CanonicalList : List Ty → Prop
  | [] => True
  | t :: ts => Canonical t ∧ CanonicalList ts
termination_by structural t => t

end

mutual

theorem same_refl : ∀ t : Ty, same t t = true
  | .null | .int | .uint | .byte | .char | .bool | .list => rfl
  | .array elem => sameOption_refl elem
  | .custom name => by simp [same]
  | .function params result => by
    rw [same, sameList_refl params, sameOption_refl result]
    rfl
  | .union members => sameList_refl members
  | .other k => by simp [same]
termination_by structural t => t

theorem sameOption_refl : ∀ t : Option Ty, sameOption t t = true
  | none => rfl
  | some t => same_refl t
termination_by structural t => t

theorem sameList_refl : ∀ ts : List Ty, sameList ts ts = true
  | [] => rfl
  | t :: ts => by
    rw [sameList, same_refl t, sameList_refl ts]
    rfl
termination_by structural ts => ts

end

/-! ## Normal forms -/

mutual

/-- The type is made of kinds that there are, every array has an element type, and custom types
carry names that are not taken. -/
def Legible : Ty → Prop
  | .array elem => LegibleElem elem
  | .custom name => IsName name.toList ∧ name ∉ reservedNames
  | .function params result => LegibleList params ∧ LegibleResult result
  | .union members => LegibleList members
  | .other _ => False
  | _ => True
termination_by structural t => t

/-- The element type is there and legible. -/
def LegibleElem : Option Ty → Prop
  | none => False
  | some t => Legible t
termination_by structural t => t

/-- The result is missing or legible. -/
def LegibleResult : Option Ty → Prop
  | none => True
  | some t => Legible t
termination_by structural t => t

/-- All types are legible. -/
def LegibleList : List Ty → Prop
  | [] => True
  | t :: ts => Legible t ∧ LegibleList ts
termination_by structural t => t

end

/-- The union of some types, which of a single one is that type. -/
def unionOf : List Ty → Ty
  | [m] => m
  | ms => .union ms

mutual

/-- The type with every union of a single member replaced by the member and every missing result
by the null type. -/
def norm : Ty → Ty
  | .array elem => .array (normElem elem)
  | .function params result => .function (normList params) (some (normResult result))
  | .union members => unionOf (normList members)
  | t => t
termination_by structural t => t

/-- The normal form of an element type that may be missing. -/
def normElem : Option Ty → Option Ty
  | none => none
  | some t => some (norm t)
termination_by structural t => t

/-- The normal form of a result that may be missing. -/
def normResult : Option Ty → Ty
  | none => .null
  | some t => norm t
termination_by structural t => t

/-- The normal forms of types. -/
def normList : List Ty → List Ty
  | [] => []
  | t :: ts => norm t :: normList ts
termination_by structural t => t

end

mutual

/-- No union has a single member and no result is missing. -/
def Settled : Ty → Prop
  | .array elem => SettledElem elem
  | .function params result => SettledList params ∧ SettledResult result
  | .union members => members.length ≠ 1 ∧ SettledList members
  | _ => True
termination_by structural t => t

/-- The element type is missing or settled. -/
def SettledElem : Option Ty → Prop
  | none => True
  | some t => Settled t
termination_by structural t => t

/-- The result is there and settled. -/
def SettledResult : Option Ty → Prop
  | none => False
  | some t => Settled t
termination_by structural t => t

/-- All types are settled. -/
def SettledList : List Ty → Prop
  | [] => True
  | t :: ts => Settled t ∧ SettledList ts
termination_by structural t => t

end

theorem unionOf_of_length {ms : List Ty} (h : ms.length ≠ 1) : unionOf ms = .union ms := by
  unfold unionOf
  split
  · exact absurd rfl h
  · rfl

mutual

/-- A settled type is its own normal form. -/
theorem norm_of_settled : ∀ {t : Ty}, Settled t → norm t = t
  | .array elem, h => by rw [norm, normElem_of_settled h]
  | .function params result, h => by
    rw [norm, normList_of_settled h.1, normResult_of_settled h.2]
  | .union members, h => by rw [norm, normList_of_settled h.2, unionOf_of_length h.1]
  | .null, _ | .int, _ | .uint, _ | .byte, _ | .char, _ | .bool, _ | .list, _ => rfl
  | .custom _, _ | .other _, _ => rfl
termination_by structural t => t

theorem normElem_of_settled : ∀ {t : Option Ty}, SettledElem t → normElem t = t
  | none, _ => rfl
  | some t, h => by rw [normElem, norm_of_settled h]
termination_by structural t => t

theorem normResult_of_settled : ∀ {t : Option Ty}, SettledResult t → some (normResult t) = t
  | none, h => absurd h id
  | some t, h => by rw [normResult, norm_of_settled h]
termination_by structural t => t

theorem normList_of_settled : ∀ {ts : List Ty}, SettledList ts → normList ts = ts
  | [], _ => rfl
  | t :: ts, h => by rw [normList, norm_of_settled h.1, normList_of_settled h.2]
termination_by structural ts => ts

end

mutual

theorem Canonical.legible : ∀ {t : Ty}, Canonical t → Legible t ∧ Settled t
  | .array none, h => absurd h id
  | .array (some t), h => Canonical.legible (t := t) h
  | .custom _, h => ⟨h, trivial⟩
  | .function _ none, h => absurd h.2 id
  | .function _ (some t), h =>
    ⟨⟨(CanonicalList.legible h.1).1, (Canonical.legible (t := t) h.2).1⟩,
      (CanonicalList.legible h.1).2, (Canonical.legible (t := t) h.2).2⟩
  | .union _, h => ⟨(CanonicalList.legible h.2).1, h.1, (CanonicalList.legible h.2).2⟩
  | .null, _ | .int, _ | .uint, _ | .byte, _ | .char, _ | .bool, _ | .list, _ => ⟨trivial, trivial⟩
  | .other _, h => absurd h id
termination_by structural t => t

theorem CanonicalList.legible : ∀ {ts : List Ty}, CanonicalList ts → LegibleList ts ∧ SettledList ts
  | [], _ => ⟨trivial, trivial⟩
  | _ :: _, h =>
    ⟨⟨(Canonical.legible h.1).1, (CanonicalList.legible h.2).1⟩,
      (Canonical.legible h.1).2, (CanonicalList.legible h.2).2⟩
termination_by structural ts => ts

end

/-! ## Texts are derived -/

theorem stops_cons {c : Char} (h : Parser.continuesName c = false) (rest : List Char) :
    Stops (c :: rest) := by
  intro d hd
  simp only [List.head?_cons, Option.mem_some_iff] at hd
  exact hd ▸ h

/-- The text of a type has a derivation of its normal form. -/
structure Spelling (t : Ty) : Prop where
  whole : ∀ rest, Stops rest → accept '|' rest = none →
    Derives unbarred (.type (norm t)) ((textIn false t).toList ++ rest) rest
  member : ∀ rest, Stops rest →
    Derives unbarred (.primary (norm t)) ((textIn true t).toList ++ rest) rest

/-- A type without a bar in its text is the same as a whole and as a member. -/
theorem Spelling.of_atom {t : Ty} {s : String} (hfalse : textIn false t = s)
    (htrue : textIn true t = s)
    (h : ∀ rest, Stops rest → Derives unbarred (.primary (norm t)) (s.toList ++ rest) rest) :
    Spelling t := by
  refine ⟨fun rest hstops _ => ?_, fun rest hstops => ?_⟩
  · rw [hfalse]
    exact .alone (h rest hstops)
  · rw [htrue]
    exact h rest hstops

/-- A type whose text may hold bars stands in parentheses as a member. -/
theorem Spelling.of_grouped {t : Ty} {s : String} (hfalse : textIn false t = s)
    (htrue : textIn true t = "(" ++ s ++ ")")
    (h : ∀ rest, Stops rest → accept '|' rest = none →
      Derives unbarred (.type (norm t)) (s.toList ++ rest) rest) : Spelling t := by
  refine ⟨fun rest hstops hbar => ?_, fun rest _ => ?_⟩
  · rw [hfalse]
    exact h rest hstops hbar
  · have hlist : (textIn true t).toList ++ rest = '(' :: (s.toList ++ ')' :: rest) := by
      simp [htrue]
    have hclose : Mark ')' (')' :: rest) rest := mark_cons (by decide) rest
    have hinner := h (')' :: rest) (stops_cons (by decide) rest) (hclose.accept_ne (by decide))
    rw [hlist]
    exact .group (mark_cons (by decide) _) (.last hinner) hclose

/-- A name is derived as the type it stands for. -/
theorem derives_name {reach : Reach} {s : String} {t : Ty} (hname : IsName s.toList)
    (ht : Names s t) {rest : List Char} (hstops : Stops rest) :
    Derives reach (.primary t) (s.toList ++ rest) rest := by
  refine .name (n := s.toList) ?_ hname hstops (by rwa [String.ofList_toList])
  cases hs : s.toList with
  | nil =>
    rw [hs] at hname
    exact absurd hname id
  | cons c r =>
    rw [hs] at hname
    simp [not_isSpace_of_startsName hname.1]

theorem isName_of_reserved {s : String} {t : Ty} (h : (s, t) ∈ reserved) : IsName s.toList := by
  have hnames : ∀ n ∈ reservedNames, n.toList.head?.any startsName ∧
      ∀ d ∈ n.toList.tail, Parser.continuesName d := by decide
  obtain ⟨hfirst, hmore⟩ := hnames s (List.mem_map_of_mem (f := Prod.fst) h)
  cases hs : s.toList with
  | nil =>
    rw [hs] at hfirst
    cases hfirst
  | cons c r =>
    rw [hs] at hfirst hmore
    exact ⟨hfirst, hmore⟩

/-- A reserved name is derived as its type. -/
theorem derives_reserved {reach : Reach} {s : String} {t : Ty} (h : (s, t) ∈ reserved)
    {rest : List Char} (hstops : Stops rest) :
    Derives reach (.primary t) (s.toList ++ rest) rest :=
  derives_name (isName_of_reserved h) (.inl h) hstops

theorem Spelling.of_reserved {t : Ty} (hboth : textIn true t = textIn false t)
    (h : (textIn false t, norm t) ∈ reserved) : Spelling t :=
  .of_atom rfl hboth fun _ hstops => derives_reserved h hstops

theorem Spelling.array {t : Ty} (h : Spelling t) : Spelling (.array (some t)) := by
  refine .of_atom (s := "[" ++ textIn false t ++ "]") rfl rfl fun rest _ => ?_
  have hlist : ("[" ++ textIn false t ++ "]").toList ++ rest
      = '[' :: ((textIn false t).toList ++ ']' :: rest) := by simp
  have hclose : Mark ']' (']' :: rest) rest := mark_cons (by decide) rest
  have hinner := h.whole (']' :: rest) (stops_cons (by decide) rest)
    (hclose.accept_ne (by decide))
  rw [hlist]
  exact .array (mark_cons (by decide) _) hinner hclose

/-- Types with commas between them are derived up to a closing parenthesis. -/
theorem derives_items {ts : List Ty} (hts : ∀ u ∈ ts, Spelling u) {t : Ty} (ht : Spelling t)
    (rest : List Char) :
    Derives unbarred (.items (norm t :: normList ts))
      ((textIn false t).toList ++ ((textRest false ", " ts).toList ++ ')' :: rest))
      (')' :: rest) := by
  induction ts generalizing t with
  | nil =>
    have hclose : Mark ')' (')' :: rest) rest := mark_cons (by decide) rest
    exact .last (ht.whole _ (stops_cons (by decide) rest) (hclose.accept_ne (by decide)))
  | cons u ts ih =>
    rw [List.forall_mem_cons] at hts
    have hlist : (textRest false ", " (u :: ts)).toList ++ ')' :: rest = ',' :: ' ' ::
        ((textIn false u).toList ++ ((textRest false ", " ts).toList ++ ')' :: rest)) := by
      simp [textRest]
    have hcomma := mark_cons (c := ',') (by decide) (' ' ::
      ((textIn false u).toList ++ ((textRest false ", " ts).toList ++ ')' :: rest)))
    have hfirst := ht.whole _ (stops_cons (by decide) _) (hcomma.accept_ne (by decide))
    have hmore := ih hts.2 hts.1
    rw [hlist]
    exact .comma hfirst hcomma (hmore.blank nofun)

/-- Members with bars between them are derived up to their end. -/
theorem derives_members {ms : List Ty} (hms : ∀ u ∈ ms, Spelling u) {m : Ty} (hm : Spelling m)
    {rest : List Char} (hstops : Stops rest) :
    Derives unbarred (.members (norm m :: normList ms))
      ((textIn true m).toList ++ ((textRest true " | " ms).toList ++ rest)) rest := by
  induction ms generalizing m with
  | nil => exact .member (hm.member rest hstops)
  | cons u ms ih =>
    rw [List.forall_mem_cons] at hms
    have hlist : (textRest true " | " (u :: ms)).toList ++ rest = ' ' :: '|' :: ' ' ::
        ((textIn true u).toList ++ ((textRest true " | " ms).toList ++ rest)) := by
      simp [textRest]
    have hbar := (mark_cons (c := '|') (by decide) (' ' ::
      ((textIn true u).toList ++ ((textRest true " | " ms).toList ++ rest)))).blank
    have hfirst := hm.member _ (stops_cons (c := ' ') (by decide) ('|' :: ' ' ::
      ((textIn true u).toList ++ ((textRest true " | " ms).toList ++ rest))))
    have hmore := ih hms.2 hms.1
    rw [hlist]
    exact .bar hfirst hbar (hmore.blank nofun)

/-- What stands between the parentheses of a function is derived as its parameters. -/
theorem derives_params {params : List Ty} (h : ∀ u ∈ params, Spelling u) (rest : List Char) :
    Derives unbarred (.items (normList params))
      ((textJoin false ", " params).toList ++ ')' :: rest) (')' :: rest) := by
  cases params with
  | nil => exact .nothing
  | cons t ts =>
    rw [List.forall_mem_cons] at h
    have hitems := derives_items h.2 h.1 rest
    rwa [textJoin, String.toList_append, List.append_assoc]

/-- The result of a function is derived behind its colon. -/
theorem derives_result {result : Option Ty} (h : ∀ t ∈ result, Spelling t) {rest : List Char}
    (hstops : Stops rest) (hbar : accept '|' rest = none) :
    Derives unbarred (.type (normResult result)) ((textOr "Null" result).toList ++ rest) rest := by
  cases result with
  | none => exact .alone (derives_reserved (s := "Null") (by simp [reserved, normResult]) hstops)
  | some t => exact (h t rfl).whole rest hstops hbar

theorem Spelling.function {params : List Ty} (hparams : ∀ u ∈ params, Spelling u)
    {result : Option Ty} (hresult : ∀ t ∈ result, Spelling t) :
    Spelling (.function params result) := by
  refine .of_grouped (s := "(" ++ textJoin false ", " params ++ "): " ++ textOr "Null" result)
    rfl rfl fun rest hstops hbar => ?_
  have hlist : ("(" ++ textJoin false ", " params ++ "): " ++ textOr "Null" result).toList ++ rest
      = '(' :: ((textJoin false ", " params).toList ++ ')' :: ':' :: ' ' ::
        ((textOr "Null" result).toList ++ rest)) := by simp
  rw [hlist]
  exact .alone (.function (mark_cons (by decide) _) (derives_params hparams _)
    (mark_cons (by decide) _) (mark_cons (by decide) _)
    ((derives_result hresult hstops hbar).blank nofun) hbar)

theorem Spelling.union {members : List Ty} (h : ∀ u ∈ members, Spelling u) :
    Spelling (.union members) := by
  match members, h with
  | [], _ =>
    refine .of_grouped (s := "Never") rfl rfl fun rest hstops _ => ?_
    exact .alone (derives_reserved (by simp [reserved, norm, normList, unionOf]) hstops)
  | [m], h =>
    refine .of_grouped (s := textIn true m ++ "") rfl rfl fun rest hstops _ => ?_
    rw [String.append_empty]
    exact .alone ((h m List.mem_cons_self).member rest hstops)
  | m :: u :: ms, h =>
    rw [List.forall_mem_cons, List.forall_mem_cons] at h
    refine .of_grouped (s := textIn true m ++ textRest true " | " (u :: ms)) rfl rfl
      fun rest hstops _ => ?_
    have hrow := derives_members (List.forall_mem_cons.mpr h.2) h.1 hstops
    rw [String.toList_append, List.append_assoc]
    cases hrow with
    | bar hp hbar hs => exact .union hp hbar hs

mutual

/-- The text of a legible type has a derivation of its normal form. -/
theorem spelling : ∀ {t : Ty}, Legible t → Spelling t
  | .null, _ | .int, _ | .uint, _ | .byte, _ | .char, _ | .bool, _ | .list, _ =>
    .of_reserved rfl (by simp [reserved, textIn, norm])
  | .array none, h => absurd h id
  | .array (some t), h => (spelling (t := t) h).array
  | .custom _, h => .of_atom rfl rfl fun _ => derives_name h.1 (.inr ⟨h.2, rfl⟩)
  | .function _ none, h => .function (spelling_list h.1) nofun
  | .function _ (some t), h =>
    .function (spelling_list h.1) fun _ hu => Option.mem_some_iff.mp hu ▸ spelling (t := t) h.2
  | .union _, h => .union (spelling_list h)
  | .other _, h => absurd h id
termination_by structural t => t

theorem spelling_list : ∀ {ts : List Ty}, LegibleList ts → ∀ t ∈ ts, Spelling t
  | [], _ => nofun
  | _ :: _, h => List.forall_mem_cons.mpr ⟨spelling h.1, spelling_list h.2⟩
termination_by structural ts => ts

end

/-- The text of a legible type is read as its normal form. -/
theorem parse_text_of_legible {t : Ty} (h : Legible t) : parse t.text = .ok (norm t) := by
  have hread := (spelling h).whole [] nofun rfl
  rw [List.append_nil] at hread
  exact hread.parse tight_unbarred nofun

/-- The text of a canonical type is read as that type. -/
theorem parse_text {t : Ty} (h : Canonical t) : parse t.text = .ok t := by
  obtain ⟨hlegible, hsettled⟩ := h.legible
  rw [parse_text_of_legible hlegible, norm_of_settled hsettled]

/-! ## Types that are read -/

theorem canonical_of_names {n : String} {t : Ty} (hname : IsName n.toList) (h : Names n t) :
    Canonical t := by
  rcases h with h | ⟨h, rfl⟩
  · simp only [reserved, List.mem_cons, Prod.mk.injEq, List.not_mem_nil, or_false] at h
    rcases h with ⟨_, rfl⟩ | ⟨_, rfl⟩ | ⟨_, rfl⟩ | ⟨_, rfl⟩ | ⟨_, rfl⟩ | ⟨_, rfl⟩ | ⟨_, rfl⟩ |
      ⟨_, rfl⟩ <;> simp [Canonical, CanonicalList]
  · exact ⟨hname, h⟩

/-- What the phrase means has a text of its own. -/
def Phrase.IsCanonical : Phrase → Prop
  | .type t | .primary t => Canonical t
  | .members ts => ts ≠ [] ∧ CanonicalList ts
  | .items ts => CanonicalList ts

theorem Derives.canonical {reach : Reach} {φ : Phrase} {s r : List Char}
    (h : Derives reach φ s r) : φ.IsCanonical := by
  induction h with
  | alone _ ih => exact ih
  | @union t ts _ _ _ _ _ _ _ ih ihs =>
    refine ⟨?_, ih, ihs.2⟩
    have := List.length_pos_iff.mpr ihs.1
    rw [List.length_cons]
    omega
  | member _ ih => exact ⟨nofun, ih, trivial⟩
  | bar _ _ _ ih ihs => exact ⟨nofun, ih, ihs.2⟩
  | name _ hname _ hnames => exact canonical_of_names (by rwa [String.toList_ofList]) hnames
  | array _ _ _ ih => exact ih
  | group _ _ _ ih => exact ih.1
  | function _ _ _ _ _ _ ihs ih => exact ⟨ihs, ih⟩
  | nothing => exact trivial
  | last _ ih => exact ⟨ih, trivial⟩
  | comma _ _ _ ih ihs => exact ⟨ih, ihs⟩

theorem isA_of_parse {src : String} {f : Fault} (h : parse src = .error f) : f.isA .parseType := by
  unfold parse at h
  split at h
  · cases h
  · cases h
    rfl

/-- Every type that is read has a text of its own. -/
theorem canonical_of_parse {s : String} {t : Ty} (h : parse s = .ok t) : Canonical t := by
  obtain ⟨r, hderives, _⟩ := parse_iff_spells.mp h
  exact hderives.canonical

/-! ## Main statements -/

/-- The text of a legible type is read as its normal form.  So a type without unions of a single
member and without missing results is read back as it is, and no other such type has its text. -/
theorem text_reads_back {t : Ty} (h : Legible t) :
    (∃ u, parse t.text = .ok u ∧ u.same (norm t)) ∧
    (Settled t → (∃ u, parse t.text = .ok u ∧ u.same t) ∧
      ∀ v, Legible v → Settled v → v.text = t.text → v.same t) := by
  have hread := parse_text_of_legible h
  refine ⟨⟨norm t, hread, same_refl _⟩, ?_⟩
  intro hsettled
  rw [norm_of_settled hsettled] at hread
  refine ⟨⟨t, hread, same_refl t⟩, ?_⟩
  intro v hv hvsettled htext
  have hvread := parse_text_of_legible hv
  rw [htext, hread, norm_of_settled hvsettled] at hvread
  rw [Except.ok.inj hvread]
  exact same_refl v

/-- A lone member in parentheses, which holds a lone parameter and no result. -/
theorem text_reads_back_lone_member :
    let t : Ty := .union [.function [.union [.array (some (.custom "js.Object"))]] none]
    Legible t ∧ t.text = "(([js.Object]): Null)" ∧
      ∃ u, parse t.text = .ok u ∧
        u.same (.function [.array (some (.custom "js.Object"))] (some .null)) := by
  intro t
  have hname : IsName "js.Object".toList := ⟨by decide, by decide⟩
  have h : Legible t := ⟨⟨⟨⟨⟨hname, by decide⟩, trivial⟩, trivial⟩, trivial⟩, trivial⟩
  exact ⟨h, rfl, (text_reads_back h).1⟩

/-- Reading accepts exactly the texts of the grammar, in which the result of a function reaches as
far as it can, and gives the type they are of; any other text is refused as no type.  The number
of steps is no bound on what is read.  A type that is read has a text of its own, from which it
is read back. -/
theorem parse_exact (src : String) :
    (∀ t, parse src = .ok t ↔ Spells src t) ∧
    ((∀ t, ¬ Spells src t) → ∃ f, parse src = .error f ∧ f.isA .parseType) ∧
    (∀ more, Parser.type (Parser.fuelFor src.toList + more) src.toList
      = Parser.type (Parser.fuelFor src.toList) src.toList) ∧
    (∀ t, parse src = .ok t → Canonical t ∧ ∃ u, parse t.text = .ok u ∧ u.same t) := by
  refine ⟨fun t => parse_iff_spells, ?_, type_fuelFor src.toList, ?_⟩
  · intro hnone
    cases h : parse src with
    | ok t => exact absurd (parse_iff_spells.mp h) (hnone t)
    | error f => exact ⟨f, rfl, isA_of_parse h⟩
  · intro t h
    have hcanonical := canonical_of_parse h
    exact ⟨hcanonical, t, parse_text hcanonical, same_refl t⟩

/-- A bar behind the result of a function goes on with the result, although the text has a
derivation as a union around the function too. -/
theorem parse_exact_bar_behind_result :
    Spells "(A): A | B" (.function [.custom "A"] (some (.union [.custom "A", .custom "B"]))) ∧
    Derives anywhere (.type (.union [.function [.custom "A"] (some (.custom "A")), .custom "B"]))
      "(A): A | B".toList [] ∧
    ¬ Spells "(A): A | B" (.union [.function [.custom "A"] (some (.custom "A")), .custom "B"]) := by
  have ha : Canonical (.custom "A") := ⟨⟨by decide, by decide⟩, by decide⟩
  have hb : Canonical (.custom "B") := ⟨⟨by decide, by decide⟩, by decide⟩
  have htext : text (.function [.custom "A"] (some (.union [.custom "A", .custom "B"])))
      = "(A): A | B" := rfl
  have hread : parse "(A): A | B"
      = .ok (.function [.custom "A"] (some (.union [.custom "A", .custom "B"]))) := by
    rw [← htext]
    exact parse_text ⟨⟨ha, trivial⟩, by decide, ha, hb, trivial⟩
  refine ⟨((parse_exact _).1 _).mp hread, ?_, ?_⟩
  · have hlist : "(A): A | B".toList
        = '(' :: ("A".toList ++ ')' :: ':' :: ' ' :: ("A".toList ++ ' ' :: '|' :: ' ' ::
          ("B".toList ++ []))) := by simp
    have hname : ∀ {n}, Canonical (.custom n) → ∀ {r}, Stops r →
        Derives anywhere (.primary (.custom n)) (n.toList ++ r) r :=
      fun h _ hstops => derives_name h.1 (.inr ⟨h.2, rfl⟩) hstops
    have hparam := hname ha (stops_cons (c := ')') (by decide) (':' :: ' ' ::
      ("A".toList ++ ' ' :: '|' :: ' ' :: ("B".toList ++ []))))
    have hresult := hname ha (stops_cons (c := ' ') (by decide) ('|' :: ' ' ::
      ("B".toList ++ [])))
    have hlast := hname hb (r := []) nofun
    have hfunction := Derives.function (mark_cons (by decide) _) (.last (.alone hparam))
      (mark_cons (by decide) _) (mark_cons (by decide) _) ((Derives.alone hresult).blank nofun)
      trivial
    rw [hlist]
    exact .union hfunction (mark_cons (by decide) _).blank ((Derives.member hlast).blank nofun)
  · intro h
    have hother := ((parse_exact _).1 _).mpr h
    rw [hread] at hother
    cases hother

end Lowlang.Ty
