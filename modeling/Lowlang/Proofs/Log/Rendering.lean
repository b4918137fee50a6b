import Lowlang.Proofs.Log.Json
import Mathlib.Data.List.Forall2

set_option autoImplicit false

/-!
# Objects with strings of expressions

Strings spelled as expression literals are JSON for most characters.  The others are spelled with
the marks `a` and `v` or with escapes of two and of eight digits, which no JSON has.

So a text that is put together like an object, with such strings, is that object when all strings in
it are portable, and is not even scanned otherwise.

Main statement: `renders_object`, an object from its members.
-/

namespace Lowlang.Log

open Json (Spells Reads Part Place scan)
open Text (literal literalChar)

/-! ## Strings -/

/-- A character whose spelling in an expression literal is one in JSON too. -/
def Portable (c : Char) : Prop :=
  Text.isPrintable c ∨ c.toNat ∈ [8, 9, 10, 12, 13] ∨ (0x80 ≤ c.toNat ∧ c.toNat < 0x10000)

instance : DecidablePred Portable := fun _ => inferInstanceAs (Decidable (_ ∨ _ ∨ _))

/-- Inside of a string the spelling stands for the character. -/
structure StandsFor (spelling : List Char) (c : Char) : Prop where
  spells : ∀ {s t rest : List Char}, Spells s t rest → Spells (spelling ++ s) (c :: t) rest
  stays : ∀ s : List Char, scan .inside (spelling ++ s) = scan .inside s

theorem standsFor_plain {c : Char} (hcontrol : 0x20 ≤ c.toNat) (hquote : c ≠ '"')
    (hslash : c ≠ '\\') : StandsFor [c] c where
  spells h := .plain hcontrol hquote hslash h
  stays s := by
    rw [List.singleton_append, scan, Place.next, if_neg hquote, if_neg hslash, Option.bind_some]

theorem standsFor_mark {m c : Char} (h : (m, c) ∈ Json.marks) : StandsFor ['\\', m] c where
  spells hs := .mark h hs
  stays s := Json.scan_marked h s

theorem standsFor_code {c : Char} (h : c.toNat < 0x10000) :
    StandsFor ('\\' :: 'u' :: Text.hexDigits 4 c.toNat) c := by
  have hdigits : ∀ s, Expr.Token.digitsOf 16 4 0 (Text.hexDigits 4 c.toNat ++ s)
      = some (c.toNat, s) := by
    intro s
    rw [Text.digitsOf_hexDigits, Nat.zero_mul, Nat.zero_add, Nat.mod_eq_of_lt h]
  refine ⟨fun hs => .code (hdigits _) hs, fun s => ?_⟩
  rw [List.cons_append, List.cons_append, Json.scan_code, Json.scan_digitsOf (hdigits s)]

theorem control_of_isPrintable {c : Char} (h : Text.isPrintable c) : 0x20 ≤ c.toNat := by
  rw [Text.isPrintable] at h
  split at h
  · exact of_decide_eq_true h
  · omega

theorem not_ascii_of_not_isPrintable {c : Char} (h : ¬ Text.isPrintable c) :
    c.toNat < 0x20 ∨ 0x7F ≤ c.toNat := by
  by_contra hascii
  rw [Text.isPrintable, if_pos (by omega), decide_eq_true_eq] at h
  omega

theorem eq_of_toNat {c : Char} {n : Nat} (h : c.toNat = n) : c = Char.ofNat n := by
  rw [← h, Char.ofNat_toNat]

/-- The spelling stands for the character when that is portable, and cannot be scanned otherwise. -/
structure Shows (spelling : List Char) (c : Char) : Prop where
  stands : Portable c → StandsFor spelling c
  stops : ¬ Portable c → ∀ s : List Char, scan .inside (spelling ++ s) = none

theorem StandsFor.shows {spelling : List Char} {c : Char} (h : StandsFor spelling c)
    (hc : Portable c) : Shows spelling c :=
  ⟨fun _ => h, fun hn => absurd hc hn⟩

theorem shows_mark {m c d : Char} (hc : c = d) (hmark : (m, d) ∈ Json.marks) (hd : Portable d) :
    Shows ['\\', m] c :=
  hc ▸ (standsFor_mark hmark).shows hd

/-- What is no mark and no `u` behind a backslash ends the scan. -/
theorem shows_stray {e c : Char} {spelling : List Char} (he : Place.next .behind e = none)
    (hc : ¬ Portable c) : Shows ('\\' :: e :: spelling) c where
  stands h := absurd h hc
  stops _ s := by
    rw [List.cons_append, List.cons_append, scan, Place.next, if_neg (by decide), if_pos rfl,
      Option.bind_some, scan, he, Option.bind_none]

theorem shows_ite {p : Prop} [Decidable p] {s t : List Char} {c : Char} (hs : p → Shows s c)
    (ht : ¬ p → Shows t c) : Shows (if p then s else t) c := by
  by_cases h : p
  · rw [if_pos h]
    exact hs h
  · rw [if_neg h]
    exact ht h

theorem shows_literalChar (c : Char) : Shows (literalChar c) c := by
  refine shows_ite (fun h => shows_mark h (by decide) (.inl (by decide))) fun hquote => ?_
  refine shows_ite (fun h => shows_mark h (by decide) (.inl (by decide))) fun hslash => ?_
  refine shows_ite (fun h => (standsFor_plain (control_of_isPrintable h) hquote hslash).shows
    (.inl h)) fun hprint => ?_
  have hportable : Portable c ↔ c.toNat = 8 ∨ c.toNat = 9 ∨ c.toNat = 10 ∨ c.toNat = 12 ∨
      c.toNat = 13 ∨ (0x80 ≤ c.toNat ∧ c.toNat < 0x10000) := by
    rw [Portable, or_iff_right hprint]
    simp only [List.mem_cons, List.not_mem_nil, or_false, or_assoc]
  refine shows_ite (fun h => shows_stray (by decide) ?_) fun ha => ?_
  · rw [hportable]
    omega
  refine shows_ite (fun h => shows_mark (eq_of_toNat h) (by decide) (.inr (.inl (by decide))))
    fun hb => ?_
  refine shows_ite (fun h => shows_mark (eq_of_toNat h) (by decide) (.inr (.inl (by decide))))
    fun hf => ?_
  refine shows_ite (fun h => shows_mark h (by decide) (.inr (.inl (by decide)))) fun hn => ?_
  refine shows_ite (fun h => shows_mark h (by decide) (.inr (.inl (by decide)))) fun hr => ?_
  refine shows_ite (fun h => shows_mark h (by decide) (.inr (.inl (by decide)))) fun ht => ?_
  have hn : c.toNat ≠ 10 := fun e => hn (eq_of_toNat e)
  have hr : c.toNat ≠ 13 := fun e => hr (eq_of_toNat e)
  have ht : c.toNat ≠ 9 := fun e => ht (eq_of_toNat e)
  refine shows_ite (fun h => shows_stray (by decide) ?_) fun hv => ?_
  · rw [hportable]
    omega
  refine shows_ite (fun h => shows_stray (by decide) ?_) fun htwo => ?_
  · simp only [Bool.or_eq_true, decide_eq_true_eq] at h
    rw [hportable]
    omega
  simp only [Bool.or_eq_true, decide_eq_true_eq] at htwo
  have hascii := not_ascii_of_not_isPrintable hprint
  refine shows_ite (fun h => (standsFor_code h).shows ?_) fun hfour => shows_stray (by decide) ?_
  · rw [hportable]
    omega
  · rw [hportable]
    omega

theorem spells_literal {t : List Char} (h : ∀ c ∈ t, Portable c) (rest : List Char) :
    Spells (t.flatMap literalChar ++ '"' :: rest) t rest := by
  induction t with
  | nil => exact .done
  | cons c t ih =>
    rw [List.forall_mem_cons] at h
    rw [List.flatMap_cons, List.append_assoc]
    exact ((shows_literalChar c).stands h.1).spells (ih h.2)

theorem scan_literal {t : List Char} (h : ¬ ∀ c ∈ t, Portable c) (rest : List Char) :
    scan .inside (t.flatMap literalChar ++ rest) = none := by
  induction t with
  | nil => exact absurd nofun h
  | cons c t ih =>
    rw [List.flatMap_cons, List.append_assoc]
    by_cases hc : Portable c
    · rw [((shows_literalChar c).stands hc).stays]
      exact ih fun ht => h (List.forall_mem_cons.mpr ⟨hc, ht⟩)
    · exact (shows_literalChar c).stops hc _

/-! ## Parts -/

/-- All strings in the part are portable. -/
def Json.Part.Portable (p : Part) : Prop :=
  ∀ t ∈ p.texts, ∀ c ∈ t.toList, Log.Portable c

instance (p : Part) : Decidable p.Portable :=
  inferInstanceAs (Decidable (∀ t ∈ p.texts, ∀ c ∈ t.toList, Log.Portable c))

/-- The text is the part when that is portable, and cannot be scanned otherwise. -/
structure Renders (p : Part) (s : List Char) : Prop where
  reads : p.Portable → ∀ rest, Reads p (s ++ rest) rest
  stops : ¬ p.Portable → ∀ rest, scan .outside (s ++ rest) = none

theorem renders_of_no_texts {p : Part} {s : List Char} (hp : p.texts = [])
    (h : ∀ rest, Reads p (s ++ rest) rest) : Renders p s where
  reads _ := h
  stops hn := absurd (by simp [Json.Part.Portable, hp]) hn

theorem toList_literal (s : String) (rest : List Char) :
    (literal s).toList ++ rest = '"' :: (s.toList.flatMap literalChar ++ '"' :: rest) := by
  simp [literal, Text.enclose]

theorem renders_string (s : String) : Renders (.value (.string s)) (literal s).toList := by
  have hp : (Part.value (.string s)).Portable ↔ ∀ c ∈ s.toList, Portable c := by
    simp [Json.Part.Portable, Json.Part.texts, Json.texts]
  refine ⟨fun h rest => ?_, fun h rest => ?_⟩
  · have hstring := Reads.string (spells_literal (hp.mp h) rest)
    rwa [String.ofList_toList, ← toList_literal] at hstring
  · rw [toList_literal, Json.scan_quote]
    exact scan_literal (fun hs => h (hp.mpr hs)) _

/-- A member from its value; blanks may go ahead. -/
theorem Renders.member {j : Json} {s : List Char} (h : Renders (.value j) s) (name : String)
    {blanks : List Char} (hblanks : ∀ c ∈ blanks, Json.IsBlank c) :
    Renders (.member name j) (blanks ++ (literal name).toList ++ ':' :: ' ' :: s) := by
  have hp : (Part.member name j).Portable ↔
      (∀ c ∈ name.toList, Portable c) ∧ (Part.value j).Portable := by
    simp [Json.Part.Portable, Json.Part.texts]
  have htext : ∀ rest, blanks ++ (literal name).toList ++ ':' :: ' ' :: s ++ rest
      = blanks ++ '"' :: (name.toList.flatMap literalChar ++ '"' :: ':' :: ' ' :: (s ++ rest)) := by
    intro rest
    rw [List.append_assoc, List.append_assoc, toList_literal]
    rfl
  refine ⟨fun hm rest => ?_, fun hm rest => ?_⟩
  · obtain ⟨hname, hvalue⟩ := hp.mp hm
    have hread := Reads.member ⟨blanks, hblanks, rfl⟩ (spells_literal hname _) (.refl _)
      (.blank (.inl rfl) (h.reads hvalue rest))
    rwa [String.ofList_toList, ← htext] at hread
  · rw [htext, Json.scan_blanks ⟨blanks, hblanks, rfl⟩, Json.scan_quote]
    by_cases hname : ∀ c ∈ name.toList, Portable c
    · rw [Json.scan_of_spells (spells_literal hname _), Json.scan_mark (by decide),
        Json.scan_mark (by decide)]
      exact h.stops (fun hvalue => hm (hp.mpr ⟨hname, hvalue⟩)) rest
    · exact scan_literal hname _

theorem Renders.lastMember {name : String} {j : Json} {s : List Char}
    (h : Renders (.member name j) s) {blanks : List Char} (hblanks : ∀ c ∈ blanks, Json.IsBlank c) :
    Renders (.members [(name, j)]) (s ++ (blanks ++ ['\x7d'])) := by
  have hp : (Part.members [(name, j)]).Portable ↔ (Part.member name j).Portable := by
    simp [Json.Part.Portable, Json.Part.texts, Json.memberTexts]
  refine ⟨fun hm rest => ?_, fun hm rest => ?_⟩
  · rw [List.append_assoc]
    exact .lastMember (h.reads (hp.mp hm) _) ⟨blanks, hblanks, List.append_assoc ..⟩
  · rw [List.append_assoc]
    exact h.stops (fun hmember => hm (hp.mpr hmember)) _

theorem Renders.nextMember {name : String} {j : Json} {s : List Char}
    (h : Renders (.member name j) s) {ms : List (String × Json)} {more : List Char}
    (hms : Renders (.members ms) more) :
    Renders (.members ((name, j) :: ms)) (s ++ ',' :: more) := by
  have hp : (Part.members ((name, j) :: ms)).Portable ↔
      (Part.member name j).Portable ∧ (Part.members ms).Portable := by
    simp [Json.Part.Portable, Json.Part.texts, Json.memberTexts, or_imp, forall_and, and_assoc]
  refine ⟨fun hm rest => ?_, fun hm rest => ?_⟩
  · obtain ⟨hmember, hmembers⟩ := hp.mp hm
    rw [List.append_assoc]
    exact .nextMember (h.reads hmember _) (.refl _) (hms.reads hmembers rest)
  · rw [List.append_assoc]
    by_cases hmember : (Part.member name j).Portable
    · rw [Json.scan_of_reads (h.reads hmember _), List.cons_append, Json.scan_mark (by decide)]
      exact hms.stops (fun hmembers => hm (hp.mpr ⟨hmember, hmembers⟩)) rest
    · exact h.stops hmember _

/-- The members of an object, in the lines of texts. -/
abbrev RendersAll : List (String × Json) → List String → Prop :=
  List.Forall₂ fun m t => Renders (.member m.1 m.2) t.toList

theorem renders_members {m : String × Json} {ms : List (String × Json)} {t : String}
    {ts : List String} (h : RendersAll (m :: ms) (t :: ts)) {blanks : List Char}
    (hblanks : ∀ c ∈ blanks, Json.IsBlank c) :
    Renders (.members (m :: ms)) ((",".intercalate (t :: ts)).toList ++ (blanks ++ ['\x7d'])) := by
  induction ms generalizing m t ts with
  | nil =>
    obtain ⟨hfirst, hnil⟩ := List.forall₂_cons.mp h
    cases hnil
    rw [String.intercalate_singleton]
    exact hfirst.lastMember hblanks
  | cons n ms ih =>
    obtain ⟨hfirst, hrest⟩ := List.forall₂_cons.mp h
    obtain ⟨u, ts, _, _, rfl⟩ := List.forall₂_cons_left_iff.mp hrest
    have htext : (",".intercalate (t :: u :: ts)).toList ++ (blanks ++ ['\x7d'])
        = t.toList ++ ',' :: ((",".intercalate (u :: ts)).toList ++ (blanks ++ ['\x7d'])) := by
      simp [String.intercalate_cons_cons, List.append_assoc]
    rw [htext]
    exact hfirst.nextMember (ih hrest)

/-- An object from its members; blanks may stand ahead of its closing bracket. -/
theorem renders_object {ms : List (String × Json)} {ts : List String} (h : RendersAll ms ts)
    {blanks : List Char} (hblanks : ∀ c ∈ blanks, Json.IsBlank c) :
    Renders (.value (.object ms))
      ('\x7b' :: ((",".intercalate ts).toList ++ (blanks ++ ['\x7d']))) := by
  cases h with
  | nil =>
    refine renders_of_no_texts rfl fun rest => .emptyObject ⟨blanks, hblanks, ?_⟩
    simp
  | cons hfirst hrest =>
    have hmembers := renders_members (.cons hfirst hrest) hblanks
    refine ⟨fun hm rest => .object (hmembers.reads hm rest), fun hm rest => ?_⟩
    rw [List.cons_append, Json.scan_mark (by decide)]
    exact hmembers.stops hm rest

end Lowlang.Log
