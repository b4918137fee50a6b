import Lowlang.Shell.Field
import Mathlib.Data.List.Basic

set_option autoImplicit false

/-!
# What a field holds

Whatever is typed or put into a field, its line holds no control character and is within the limit,
and the cursor stands in the line.
-/

namespace Lowlang.Shell

/-! ## Overruns -/

/-- Something is accessed behind its end. -/
def Overruns {α : Type} (x : Except Overrun α) : Prop :=
  ∃ o, x = .error o

section

variable {α β : Type}

theorem overruns_error (o : Overrun) : Overruns (.error o : Except Overrun α) :=
  ⟨o, rfl⟩

theorem not_overruns_ok (a : α) : ¬ Overruns (.ok a) :=
  fun ⟨_, h⟩ => nomatch h

theorem Overrun.bind_ok {x : Except Overrun α} {k : α → Except Overrun β} {b : β}
    (h : x >>= k = .ok b) : ∃ a, x = .ok a ∧ k a = .ok b := by
  cases x with
  | error o => cases h
  | ok a => exact ⟨a, rfl, h⟩

/-- A result that is only made into another one. -/
theorem overruns_bind_ok (x : Except Overrun α) (f : α → β) :
    Overruns (x >>= fun a => .ok (f a)) ↔ Overruns x := by
  cases x with
  | error o => exact iff_of_true (overruns_error o) (overruns_error o)
  | ok a => exact iff_of_false (not_overruns_ok (f a)) (not_overruns_ok a)

end

namespace Field

/-! ## Cleaning -/

/-- The characters that a line can hold. -/
def keeps (c : Char) : Bool :=
  let n := c.toNat
  !(n = 0xFFFD || n < 0x20 || (0x7F ≤ n && n < 0xA0))

theorem keeps_of_mem_clean {s : List Char} {c : Char} (h : c ∈ clean s) : keeps c := by
  obtain ⟨d, _, hd⟩ := List.mem_filterMap.mp h
  dsimp only at hd
  split at hd
  · cases hd
    rfl
  · split at hd
    · cases hd
    · next hkept =>
      cases hd
      simpa only [keeps, Bool.not_eq_true, Bool.not_eq_true'] using hkept

theorem clean_of_keeps {s : List Char} (h : ∀ c ∈ s, keeps c) : clean s = s := by
  refine (List.filterMap_congr fun c hc => ?_).trans List.filterMap_some
  have hkept := h c hc
  have hspecial : ¬ (c = '\n' || c = '\r' || c = '\t') := by
    intro hc
    simp only [Bool.or_eq_true, decide_eq_true_eq] at hc
    rcases hc with (rfl | rfl) | rfl <;> cases hkept
  dsimp only
  rw [if_neg hspecial, if_neg]
  simpa only [keeps, Bool.not_eq_true, Bool.not_eq_true'] using hkept

theorem clean_append (s t : List Char) : clean (s ++ t) = clean s ++ clean t :=
  List.filterMap_append

/-! ## Lines -/

@[simp] theorem value_settled (f : Field) : f.settled.value = f.value := by
  dsimp only [settled]
  split_ifs <;> rfl

@[simp] theorem pos_settled (f : Field) : f.settled.pos = f.pos := by
  dsimp only [settled]
  split_ifs <;> rfl

@[simp] theorem value_setCursor (f : Field) (n : Nat) : (f.setCursor n).value = f.value :=
  value_settled _

@[simp] theorem pos_setCursor (f : Field) (n : Nat) :
    (f.setCursor n).pos = min n f.value.length :=
  pos_settled _

@[simp] theorem value_setLine (f : Field) (s : List Char) : (f.setLine s).value = s.take limit := by
  dsimp only [setLine]
  split_ifs <;> simp

theorem pos_setLine_le (f : Field) (s : List Char) :
    (f.setLine s).pos ≤ (f.setLine s).value.length := by
  rw [value_setLine]
  dsimp only [setLine]
  split_ifs with h
  · simp
  · rw [pos_settled]
    simp only [Bool.or_eq_true, decide_eq_true_eq, not_or, Nat.not_lt] at h
    exact h.2

theorem value_setValue (f : Field) (s : List Char) :
    (f.setValue s).value = (clean s).take limit :=
  value_setLine f _

/-! ## Lines within the limits -/

/-- The line holds what a line can, and the cursor stands in it. -/
structure Neat (f : Field) : Prop where
  kept : ∀ c ∈ f.value, keeps c
  short : f.value.length ≤ limit
  inside : f.pos ≤ f.value.length

/-- Nothing is wrong with a part of a line. -/
theorem Neat.part {f g : Field} (h : f.Neat) (hvalue : g.value.Sublist f.value)
    (hpos : g.pos ≤ g.value.length) : g.Neat where
  kept c hc := h.kept c (hvalue.subset hc)
  short := Nat.le_trans hvalue.length_le h.short
  inside := hpos

theorem Neat.settled {f : Field} (h : f.Neat) : f.settled.Neat :=
  h.part (by rw [value_settled]) (by rw [value_settled, pos_settled]; exact h.inside)

theorem Neat.setCursor {f g : Field} (h : f.Neat) (hvalue : g.value.Sublist f.value) (n : Nat) :
    (g.setCursor n).Neat :=
  h.part (by rwa [value_setCursor])
    (by rw [value_setCursor, pos_setCursor]; exact Nat.min_le_right _ _)

theorem neat_setLine (f : Field) {s : List Char} (h : ∀ c ∈ s, keeps c) : (f.setLine s).Neat where
  kept c hc := by
    rw [value_setLine] at hc
    exact h c (List.mem_of_mem_take hc)
  short := by
    rw [value_setLine]
    exact List.length_take_le _ _
  inside := pos_setLine_le f s

theorem neat_setValue (f : Field) (s : List Char) : (f.setValue s).Neat :=
  neat_setLine f fun _ => keeps_of_mem_clean

theorem neat_setValue_setCursor (f : Field) (s : List Char) (n : Nat) :
    ((f.setValue s).setCursor n).Neat :=
  (neat_setValue f s).setCursor (List.Sublist.refl _) n

theorem Neat.insert {f : Field} (h : f.Neat) (s : List Char) : (f.insert s).Neat := by
  dsimp only [Field.insert]
  split
  · exact h
  · refine neat_setLine _ fun c hc => ?_
    rcases List.mem_append.mp hc with hc | hc
    · rcases List.mem_append.mp hc with hc | hc
      · exact h.kept c (List.mem_of_mem_take hc)
      · exact keeps_of_mem_clean (List.mem_of_mem_take hc)
    · exact h.kept c (List.mem_of_mem_drop hc)

/-- Text that fits is what an empty line becomes. -/
theorem insert_empty {s : List Char} (hs : clean s = s) (hshort : s.length ≤ limit) :
    (insert {} s).value = s ∧ (insert {} s).pos = s.length := by
  have htake : s.take limit = s := List.take_of_length_le hshort
  have hline : insert {} s = setLine { pos := s.length } s := by
    have hroom : ¬ limit - ([] : List Char).length = 0 := by decide
    dsimp only [insert]
    rw [if_neg hroom, hs, List.length_nil, Nat.sub_zero, htake, Nat.zero_add, List.take_nil,
      List.drop_nil, List.append_nil, List.nil_append]
  rw [hline]
  refine ⟨(value_setLine _ _).trans htake, ?_⟩
  dsimp only [setLine]
  split_ifs
  · rw [pos_settled, pos_setCursor, htake, Nat.min_self]
  · rw [pos_settled]

/-! ## Edits -/

/-- A line without the part between two places. -/
theorem take_append_drop_sublist (s : List Char) {i j : Nat} (h : i ≤ j) :
    (s.take i ++ s.drop j).Sublist s := by
  have hdrop : (s.drop j).Sublist (s.drop i) := by
    rw [← Nat.add_sub_cancel' h, ← List.drop_drop]
    exact List.drop_sublist _ _
  simpa using hdrop.append_left (s.take i)

theorem Neat.deleteBack {f : Field} (h : f.Neat) : f.deleteBack.Neat := by
  unfold Field.deleteBack
  split
  · exact h
  · exact h.setCursor (List.eraseIdx_sublist _ _) _

theorem Neat.deleteAt {f : Field} (h : f.Neat) : f.deleteAt.Neat := by
  have hpos := h.inside
  refine Neat.settled (h.part (List.eraseIdx_sublist _ _) ?_)
  show f.pos ≤ (f.value.eraseIdx f.pos).length
  rw [List.length_eraseIdx]
  split <;> omega

theorem Neat.deleteWordBack {f : Field} (h : f.Neat) : f.deleteWordBack.Neat := by
  have hpos := h.inside
  dsimp only [Field.deleteWordBack]
  generalize wordLength (f.value.take f.pos).reverse = n
  have hstart : (if f.pos - n = 1 then 0 else f.pos - n) ≤ f.pos := by split <;> omega
  generalize (if f.pos - n = 1 then 0 else f.pos - n) = start at hstart ⊢
  refine h.part (take_append_drop_sublist f.value hstart) ?_
  show start ≤ (f.value.take start ++ f.value.drop f.pos).length
  rw [List.length_append, List.length_take]
  omega

theorem Neat.deleteWord {f g : Field} (h : f.Neat) (hg : f.deleteWord = .ok g) : g.Neat := by
  have hpos := h.inside
  unfold Field.deleteWord at hg
  split_ifs at hg
  · cases hg
    exact h
  · cases hg
    refine h.part (take_append_drop_sublist f.value (Nat.le_add_right _ _)) ?_
    show f.pos ≤ (f.value.take f.pos ++ f.value.drop _).length
    rw [List.length_append, List.length_take]
    omega

theorem Neat.edit {f g : Field} (h : f.Neat) {e : Edit} (hg : f.edit e = .ok g) : g.Neat := by
  have hcursor := h.setCursor (List.Sublist.refl f.value)
  cases e with
  | back | forward | start | finish | wordBack | wordForward =>
    cases hg
    exact hcursor _
  | deleteBack =>
    cases hg
    exact h.deleteBack
  | deleteAt =>
    cases hg
    exact h.deleteAt
  | deleteBefore =>
    cases hg
    exact h.setCursor (List.drop_sublist _ _) 0
  | deleteAfter =>
    cases hg
    exact h.setCursor (List.take_sublist _ _) _
  | deleteWordBack =>
    cases hg
    exact h.deleteWordBack
  | deleteWord => exact h.deleteWord hg
  | nothing =>
    cases hg
    exact h

theorem Neat.stroke {f g : Field} (h : f.Neat) {name : String} {text : List Char}
    (hg : f.stroke name text = .ok g) : g.Neat := by
  dsimp only [Field.stroke] at hg
  cases hkey : Edit.ofKey? name with
  | none =>
    rw [hkey] at hg
    cases hg
    exact (h.insert _).settled
  | some e =>
    rw [hkey] at hg
    obtain ⟨edited, hedit, hg⟩ := Overrun.bind_ok hg
    cases hg
    exact (h.edit hedit).settled

/-! ## Keys that overrun -/

theorem overruns_deleteWord (f : Field) :
    Overruns f.deleteWord ↔ f.pos + 1 = f.value.length := by
  dsimp only [deleteWord]
  split_ifs with hend hlast
  · exact iff_of_false (not_overruns_ok _) (by omega)
  · exact iff_of_true (overruns_error _) hlast.symm
  · exact iff_of_false (not_overruns_ok _) fun h => hlast h.symm

/-- Of the edits, only deleting a word can go wrong. -/
theorem overruns_edit (f : Field) (e : Edit) :
    Overruns (f.edit e) ↔ e = .deleteWord ∧ f.pos + 1 = f.value.length := by
  cases e with
  | deleteWord => exact (overruns_deleteWord f).trans (and_iff_right rfl).symm
  | _ => exact iff_of_false (not_overruns_ok _) fun h => nomatch h.1

/-- A keystroke goes wrong only if it deletes a word just before the last character. -/
theorem overruns_stroke (f : Field) (name : String) (text : List Char) :
    Overruns (f.stroke name text) ↔
      Edit.ofKey? name = some .deleteWord ∧ f.pos + 1 = f.value.length := by
  dsimp only [Field.stroke]
  cases Edit.ofKey? name with
  | none => exact iff_of_false (not_overruns_ok _) fun h => nomatch h.1
  | some e =>
    rw [Option.some.injEq, ← overruns_edit]
    exact overruns_bind_ok _ _

end Field

end Lowlang.Shell
