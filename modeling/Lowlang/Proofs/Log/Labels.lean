import Lowlang.Log.Level
import Lowlang.Proofs.Text.Classes
import Lowlang.Proofs.Text.Literal
import Lowlang.Proofs.Text.Trimming

set_option autoImplicit false

/-!
# Labels of levels

The label of a level is the nearest name below it and the distance from there.  The reader takes
every name with a distance but one: the lowest name is known only by itself.  So the labels of the
levels around that name are not read back, and all others are, in small letters and in capitals.
-/

namespace Lowlang.Log.Level

/-! ## What a label says -/

/-- `b`, which is called `n`, is the nearest named level below `l`, or the lowest one if there is
none. -/
structure NearestBelow (l b : Level) (n : String) : Prop where
  mem : (b, n) ∈ named
  below : b.number ≤ l.number ∨ b = trace
  nearest : ∀ p ∈ named, p.1.number ≤ l.number → p.1.number ≤ b.number

theorem nearestBelow_base (l : Level) : NearestBelow l l.base.1 l.base.2 := by
  have hnumbers : ∀ p ∈ named, p.1.number ∈ [-8, -4, 0, 4, 8] := by decide
  have hnearest : ∀ b : Level, (∀ n ∈ [(-8 : Int), -4, 0, 4, 8], n ≤ l.number → n ≤ b.number) →
      ∀ p ∈ named, p.1.number ≤ l.number → p.1.number ≤ b.number :=
    fun b h p hp => h p.1.number (hnumbers p hp)
  unfold base
  split
  · exact ⟨by decide, .inl ‹_›, hnearest _ (by simp [error])⟩
  split
  · exact ⟨by decide, .inl ‹_›, hnearest _ (by simp [warn]; omega)⟩
  split
  · exact ⟨by decide, .inl ‹_›, hnearest _ (by simp [info]; omega)⟩
  split
  · exact ⟨by decide, .inl ‹_›, hnearest _ (by simp [debug]; omega)⟩
  · exact ⟨by decide, .inr rfl, hnearest _ (by simp [trace]; omega)⟩

/-- The distance of `l` from `b`, with its sign; nothing when they are the same. -/
def distance (l b : Level) : String :=
  if l = b then "" else signed (l.number - b.number)

theorem label_eq (l : Level) : l.label = l.base.2 ++ distance l l.base.1 := by
  show (if l = l.base.1 then l.base.2 else l.base.2 ++ signed (l.number - l.base.1.number)) = _
  rw [distance]
  split
  · rw [String.append_empty]
  · rfl

/-! ## Reading a distance -/

/-- A sign and digits. -/
theorem toList_signed (k : Int) :
    (signed k).toList = (if 0 ≤ k then '+' else '-') :: (Nat.repr k.natAbs).toList := by
  rw [signed]
  split
  · next h =>
    have habs : k.toNat = k.natAbs := by omega
    rw [Text.intText_of_nonneg h, String.toList_append, habs]
    rfl
  · next h =>
    rw [Text.intText_of_neg (Int.not_le.mp h), String.toList_append]
    rfl

theorem offset_signed (k : Int) :
    offset (signed k).toList = if -2 ^ 63 ≤ k ∧ k < 2 ^ 63 then some k else none := by
  have hdigits : (Nat.repr k.natAbs).toList.all Char.isDigit :=
    List.all_eq_true.mpr fun c hc => Text.isDigit_of_mem_repr hc
  have hne : (Nat.repr k.natAbs).toList.isEmpty = false := by
    obtain ⟨c, r, hcons, _⟩ := Text.repr_eq_cons k.natAbs
    rw [hcons]
    rfl
  have hvalue : (Nat.repr k.natAbs).toList.foldl (fun n c => n * 10 + (c.toNat - 0x30)) 0
      = k.natAbs := by
    simpa [Nat.ofDigitChars_eq_foldl, Nat.mul_comm] using
      Nat.ofDigitChars_ten_toDigits (n := k.natAbs)
  rw [toList_signed]
  generalize (Nat.repr k.natAbs).toList = ds at hdigits hne hvalue
  split
  · have habs : (k.natAbs : Int) = k := by omega
    simp only [offset, hne, hdigits, hvalue, habs, Bool.not_true, Bool.or_self, Bool.false_eq_true,
      if_false]
  · have habs : -(k.natAbs : Int) = k := by omega
    simp only [offset, hne, hdigits, hvalue, habs, Bool.not_true, Bool.or_self, Bool.false_eq_true,
      if_false, if_true]

/-- Nothing, or a sign and then digits. -/
structure IsOffset (s : List Char) : Prop where
  all : ∀ c ∈ s, c = '+' ∨ c = '-' ∨ c.isDigit
  head : ∀ c ∈ s.head?, c = '+' ∨ c = '-'

theorem isOffset_distance (l b : Level) : IsOffset (distance l b).toList := by
  rw [distance]
  split
  · exact ⟨nofun, nofun⟩
  · rw [toList_signed]
    refine ⟨fun c hc => ?_, fun c hc => ?_⟩
    · rcases List.mem_cons.mp hc with rfl | hc
      · split <;> simp
      · exact .inr (.inr (Text.isDigit_of_mem_repr hc))
    · rw [List.head?_cons, Option.mem_some_iff] at hc
      rw [← hc]
      split <;> simp

theorem IsOffset.not_isSpace {s : List Char} (h : IsOffset s) :
    ∀ c ∈ s, Text.isSpace c = false := by
  intro c hc
  rcases h.all c hc with rfl | rfl | hdigit
  · rfl
  · rfl
  · have hascii : c.toNat < 0x80 :=
      Nat.lt_of_le_of_lt (Char.isDigit_iff_toNat.mp hdigit).2 (by decide)
    exact Text.not_isSpace_of_isDigit (by rw [Text.isDigit, if_pos hascii, hdigit])

/-- Capitals make no difference to signs and digits. -/
theorem IsOffset.map_toUpper {s : List Char} (h : IsOffset s) : s.map Char.toUpper = s := by
  have hfixed : ∀ c ∈ s, c.toUpper = id c := by
    intro c hc
    rcases h.all c hc with rfl | rfl | hdigit
    · rfl
    · rfl
    · exact dif_neg (by grind [Char.isDigit])
  rw [List.map_congr_left hfixed, List.map_id]

/-! ## Reading a name and a distance -/

/-- A name in small letters and in capitals. -/
def spellings (n : String) : List (List Char) :=
  [n.toList, n.toList.map Char.toUpper]

/-- In either spelling a name is a word without signs, the lowest one is taken by itself, and every
other one is found. -/
theorem spellings_named : ∀ p ∈ named, ∀ w ∈ spellings p.2,
    (∀ c ∈ w, Text.isSpace c = false ∧ c ≠ '+' ∧ c ≠ '-') ∧
    (w.map Char.toLower = "trace".toList ↔ p.1 = trace) ∧
    (named.find? fun q => q.1 ≠ trace ∧ q.2.toList.map Char.toUpper = w.map toUpperAscii)
      = if p.1 = trace then none else some p := by
  decide

/-- What is read is the name and the distance; the lowest name has none. -/
theorem parse_spelling {p : Level × String} {w rest : List Char} {s : String} (hp : p ∈ named)
    (hw : w ∈ spellings p.2) (hrest : IsOffset rest) (hs : s.toList = w ++ rest) :
    parse s =
      if p.1 = trace then if rest = [] then trace else default
      else
        match (if rest.isEmpty then some 0 else offset rest) with
        | none => default
        | some n => ⟨Int.bmod (p.1.number + n) (2 ^ 64)⟩ := by
  obtain ⟨hword, htrace, hfind⟩ := spellings_named p hp w hw
  have htight : Text.Tight (w ++ rest) := by
    have hall : ∀ c ∈ w ++ rest, Text.isSpace c = false := fun c hc =>
      (List.mem_append.mp hc).elim (fun hc => (hword c hc).1) (hrest.not_isSpace c)
    exact ⟨fun c hc => hall c (List.mem_of_mem_head? hc),
      fun c hc => hall c (List.mem_of_mem_getLast? hc)⟩
  obtain ⟨hname, hoffset⟩ := Text.takeWhile_append_rest (p := fun c => c ≠ '+' && c ≠ '-')
    (s := w) (fun c hc => by simp [hword c hc])
    (fun c hc => by rcases hrest.head c hc with rfl | rfl <;> rfl)
  -- A sign has no place in the lowest name.
  have hlowest : (w ++ rest).map Char.toLower = "trace".toList ↔ p.1 = trace ∧ rest = [] := by
    cases rest with
    | nil => simpa using htrace
    | cons c rest =>
      refine iff_of_false (fun h => ?_) (fun h => nomatch h.2)
      have hc : c.toLower ∈ "trace".toList := by
        rw [← h]
        simp
      rcases hrest.head c rfl with rfl | rfl <;> exact absurd hc (by decide)
  unfold parse
  rw [hs, htight.trim_eq]
  simp only [hlowest, hname, hoffset, hfind]
  generalize (if rest.isEmpty then some 0 else offset rest) = k
  by_cases hp : p.1 = trace
  · by_cases hnone : rest = []
    · simp [hp, hnone]
    · cases k <;> simp [hp, hnone]
  · cases k <;> simp [hp]

/-- The label in small letters and in capitals is the name in either spelling and the distance. -/
theorem toList_spelling {l : Level} {s : String} (hs : s = l.label ∨ s = l.shown) :
    ∃ w ∈ spellings l.base.2, s.toList = w ++ (distance l l.base.1).toList := by
  rcases hs with rfl | rfl
  · exact ⟨_, List.mem_cons_self, by rw [label_eq, String.toList_append]⟩
  · refine ⟨_, List.mem_cons_of_mem _ List.mem_cons_self, ?_⟩
    rw [shown, String.toList_map, label_eq, String.toList_append, List.map_append,
      (isOffset_distance _ _).map_toUpper]

/-- Every name but the lowest one is at the second name or above. -/
theorem NearestBelow.debug_le {l b : Level} {n : String} (h : NearestBelow l b n)
    (hb : b ≠ trace) : debug.number ≤ b.number := by
  have hhigher : ∀ p ∈ named, p.1 ≠ trace → debug.number ≤ p.1.number := by decide
  exact hhigher _ h.mem hb

theorem NearestBelow.eq_trace_iff {l b : Level} {n : String} (h : NearestBelow l b n) :
    b = trace ↔ l.number < debug.number := by
  constructor
  · rintro rfl
    refine Int.not_le.mp fun hle => ?_
    exact absurd (h.nearest (debug, "debug") (by decide) hle) (by decide)
  · intro hlt
    by_contra hb
    have hle := h.below.resolve_right hb
    have hhigh := h.debug_le hb
    omega

/-- What is read is a number of 64 bits. -/
theorem parse_lt (s : String) : (parse s).number < 2 ^ 63 := by
  unfold parse
  dsimp only
  split
  · decide
  · split
    · decide
    · split
      · exact Int.bmod_lt (by decide)
      · decide

section

variable {l : Level} {s : String}

/-- Of the levels below the second name, only the lowest name is read. -/
theorem parse_label_low (hs : s = l.label ∨ s = l.shown) (hlow : l.number < debug.number) :
    parse s = if l = trace then trace else default := by
  have hbase := nearestBelow_base l
  have htrace := hbase.eq_trace_iff.mpr hlow
  obtain ⟨w, hw, htext⟩ := toList_spelling hs
  rw [parse_spelling hbase.mem hw (isOffset_distance _ _) htext, if_pos htrace, htrace, distance]
  by_cases hl : l = trace
  · simp [hl]
  · simp [hl, toList_signed]

/-- From the second name on, the name and the distance add up to the level. -/
theorem parse_label_high (hs : s = l.label ∨ s = l.shown) (hhigh : debug.number ≤ l.number)
    (h64 : l.number < 2 ^ 63) : parse s = l := by
  have hbase := nearestBelow_base l
  have htrace : l.base.1 ≠ trace := fun h => absurd (hbase.eq_trace_iff.mp h) (Int.not_lt.mpr hhigh)
  have hle := hbase.below.resolve_right htrace
  have hoffset : (if (distance l l.base.1).toList.isEmpty then some 0
      else offset (distance l l.base.1).toList) = some (l.number - l.base.1.number) := by
    rw [distance]
    split
    · next h => simp [← h]
    · -- A level that is not negative has no negative name.
      have hinfo : 0 ≤ l.number → 0 ≤ l.base.1.number :=
        hbase.nearest (info, "info") (by decide)
      have hdebug : -4 ≤ l.base.1.number := hbase.debug_le htrace
      rw [if_neg (by simp [toList_signed]), offset_signed, if_pos (by omega)]
  obtain ⟨w, hw, htext⟩ := toList_spelling hs
  rw [parse_spelling hbase.mem hw (isOffset_distance _ _) htext, if_neg htrace, hoffset]
  dsimp only
  have hdebug : -4 ≤ l.number := hhigh
  have hsum : l.base.1.number + (l.number - l.base.1.number) = l.number := by omega
  rw [hsum, Int.bmod_eq_of_le_mul_two (by omega) (by omega)]

end

/-! ## Main statement -/

/-- A label is the nearest name below the level, or the lowest one, with the distance from there.
Read in small letters or in capitals, it gives back the level if and only if that has the lowest
name or is no lower than the second one, and is a number of 64 bits; all other levels below the
second name are read as the default one. -/
theorem label_reads_back_iff (l : Level) :
    (∃ b n, NearestBelow l b n ∧
      l.label = n ++ if l = b then "" else signed (l.number - b.number)) ∧
    ∀ s, s = l.label ∨ s = l.shown →
      (parse s = l ↔ l = trace ∨ debug.number ≤ l.number ∧ l.number < 2 ^ 63) ∧
      (l.number < debug.number → l ≠ trace → parse s = default) := by
  refine ⟨⟨_, _, nearestBelow_base l, label_eq l⟩, fun s hs => ⟨⟨fun h => ?_, ?_⟩, ?_⟩⟩
  · rcases Int.lt_or_le l.number debug.number with hlow | hhigh
    · rw [parse_label_low hs hlow] at h
      by_contra hnot
      rw [if_neg fun hl => hnot (.inl hl)] at h
      rw [← h] at hlow
      exact absurd hlow (by decide)
    · exact .inr ⟨hhigh, h ▸ parse_lt s⟩
  · rintro (hl | ⟨hhigh, h64⟩)
    · rw [parse_label_low hs (hl ▸ by decide), if_pos hl, hl]
    · exact parse_label_high hs hhigh h64
  · intro hlow hl
    rw [parse_label_low hs hlow, if_neg hl]

/-- The level two above a name comes back from its label in capitals, and the one two above the
lowest name is read as the default one. -/
theorem label_reads_back_iff_two_above :
    parse "ERROR+2" = ⟨10⟩ ∧ (⟨-6⟩ : Level).label = "trace+2" ∧ parse "trace+2" = ⟨0⟩ := by
  have herror : "ERROR+2" = (⟨10⟩ : Level).shown := by
    rw [← String.toList_inj, shown, String.toList_map]
    decide
  have htrace : "trace+2" = (⟨-6⟩ : Level).label := by decide
  refine ⟨?_, htrace.symm, ?_⟩
  · exact ((label_reads_back_iff ⟨10⟩).2 _ (.inr herror)).1.mpr (.inr (by decide))
  · exact ((label_reads_back_iff ⟨-6⟩).2 _ (.inl htrace)).2 (by decide) (by decide)

end Lowlang.Log.Level
