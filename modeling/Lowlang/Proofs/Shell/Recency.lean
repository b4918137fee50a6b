import Lowlang.Proofs.Text.Trimming
import Lowlang.Shell.History
import Mathlib.Data.List.Dedup

set_option autoImplicit false

/-!
# The history holds what was used last

A submitted line uses an entry: the trimmed line with its mode, unless the line is blank.  The
entries used so far are ranked by their last uses, and the history holds the upper end of the
ranking, as much of it as there is room for.

A history moves an entry to the end when it is used again and drops entries at the front when it
is full.  Both keep it the upper end of the ranking: an entry that was dropped and is used again
comes in at the end, where the ranking puts it as well, and what gives way to it is the lowest
entry that was left.
-/

namespace Lowlang.Shell.History

/-! ## Lines as uses of entries -/

/-- The entry that a submitted line uses; a blank line uses none. -/
def used? (line : String) (mode : Mode) : Option Entry :=
  if Text.trimSpace line = "" then none else some ⟨mode, Text.trimSpace line⟩

/-- The entries that submitted lines use, in order. -/
def uses (submitted : List (String × Mode)) : List Entry :=
  submitted.filterMap fun l => used? l.1 l.2

/-- The history after lines have been submitted in order. -/
def appendAll (h : History) (submitted : List (String × Mode)) : History :=
  submitted.foldl (fun h l => h.append l.1 l.2) h

theorem appendAll_nil (h : History) : h.appendAll [] = h := rfl

theorem appendAll_cons (h : History) (l : String × Mode) (submitted : List (String × Mode)) :
    h.appendAll (l :: submitted) = (h.append l.1 l.2).appendAll submitted := by
  rw [appendAll, List.foldl_cons, appendAll]

theorem appendAll_concat (h : History) (submitted : List (String × Mode)) (l : String × Mode) :
    h.appendAll (submitted ++ [l]) = (h.appendAll submitted).append l.1 l.2 := by
  simp [appendAll]

/-- A line that uses an entry, other than the last one, records it; no other line does anything. -/
theorem append_eq (h : History) (line : String) (mode : Mode) :
    h.append line mode = match used? line mode with
      | none => h
      | some e => if h.entries.getLast? = some e then h else h.push e := by
  unfold append used?
  by_cases hline : Text.trimSpace line = ""
  · simp [hline]
  · simp [hline]

/-- Entries are recorded without blanks at their ends. -/
theorem used?_eq_some {line : String} {mode : Mode} {e : Entry} (h : used? line mode = some e) :
    e = ⟨mode, Text.trimSpace line⟩ ∧ e.line ≠ "" ∧ Text.trimSpace e.line = e.line := by
  unfold used? at h
  split at h
  · cases h
  · next hline =>
    cases h
    exact ⟨rfl, hline, Text.trimSpace_trimSpace line⟩

/-! ## Rankings -/

/-- Behind the last use of `a` there is one of `b`. -/
def UsedBefore (us : List Entry) (a b : Entry) : Prop :=
  ∃ front back, us = front ++ a :: back ∧ a ∉ back ∧ b ∈ back

/-- The list holds the entries that are used, in the order of their last uses. -/
structure RankedByLastUse (us ranked : List Entry) : Prop where
  mem : ∀ e, e ∈ ranked ↔ e ∈ us
  order : ranked.Pairwise (UsedBefore us)

/-- Leaving out all uses of an entry but the last ranks the entries. -/
theorem rankedByLastUse_dedup (us : List Entry) : RankedByLastUse us us.dedup := by
  refine ⟨fun e => List.mem_dedup, ?_⟩
  induction us with
  | nil => exact List.Pairwise.nil
  | cons u us ih =>
    have hlater : us.dedup.Pairwise (UsedBefore (u :: us)) := by
      refine ih.imp fun hab => ?_
      obtain ⟨front, back, rfl, ha, hb⟩ := hab
      exact ⟨u :: front, back, rfl, ha, hb⟩
    by_cases hu : u ∈ us
    · rw [List.dedup_cons_of_mem hu]
      exact hlater
    · rw [List.dedup_cons_of_notMem hu]
      refine hlater.cons fun b hb => ?_
      exact ⟨[], us, rfl, hu, List.mem_dedup.mp hb⟩

/-- One more use of an entry takes it out of the ranking and puts it on top. -/
theorem dedup_concat (us : List Entry) (e : Entry) :
    (us ++ [e]).dedup = us.dedup.erase e ++ [e] := by
  induction us with
  | nil => simp
  | cons u us ih =>
    by_cases hue : u = e
    · subst hue
      rw [List.cons_append, List.dedup_cons_of_mem (by simp), ih]
      by_cases hu : u ∈ us
      · rw [List.dedup_cons_of_mem hu]
      · have hrank : u ∉ us.dedup := fun h => hu (List.mem_dedup.mp h)
        rw [List.dedup_cons_of_notMem hu, List.erase_cons_head, List.erase_of_not_mem hrank]
    · by_cases hu : u ∈ us
      · rw [List.cons_append, List.dedup_cons_of_mem (by simp [hu]), ih, List.dedup_cons_of_mem hu]
      · rw [List.cons_append, List.dedup_cons_of_notMem (by simp [hu, hue]), ih,
          List.dedup_cons_of_notMem hu, List.erase_cons_tail (by simpa using hue),
          List.cons_append]

/-! ## The upper end of a ranking -/

theorem latest_of_length_le {es : List Entry} (h : es.length ≤ capacity) : latest es = es := by
  rw [latest, Nat.sub_eq_zero_of_le h, List.drop_zero]

theorem length_latest_le (es : List Entry) : (latest es).length ≤ capacity := by
  rw [latest, List.length_drop]
  omega

/-- The front of a list gives way as soon as the rest of it is enough. -/
theorem latest_append {front back : List Entry} (h : capacity ≤ back.length) :
    latest (front ++ back) = latest back := by
  have hlength : (front ++ back).length - capacity = front.length + (back.length - capacity) := by
    rw [List.length_append]
    omega
  rw [latest, hlength, List.drop_length_add_append, latest]

/-- A list is its latest entries, behind something only if these are as many as there may be. -/
theorem exists_append_latest (es : List Entry) :
    ∃ front, es = front ++ latest es ∧ (front = [] ∨ (latest es).length = capacity) := by
  refine ⟨es.take (es.length - capacity), (List.take_append_drop _ es).symm, ?_⟩
  by_cases h : es.length ≤ capacity
  · rw [Nat.sub_eq_zero_of_le h, List.take_zero]
    exact .inl rfl
  · refine .inr ?_
    rw [latest, List.length_drop]
    omega

/-- Moving an entry to the end of the upper part of a ranking gives the upper part of the ranking
with the entry moved to the end. -/
theorem latest_erase_latest {es : List Entry} (hes : es.Nodup) (e : Entry) :
    latest ((latest es).erase e ++ [e]) = latest (es.erase e ++ [e]) := by
  obtain ⟨front, heq, hfull⟩ := exists_append_latest es
  generalize latest es = upper at heq hfull ⊢
  subst heq
  rcases hfull with rfl | hfull
  · rfl
  by_cases he : e ∈ upper
  · have hfront : e ∉ front := fun h => List.disjoint_of_nodup_append hes h he
    have hlength : (upper.erase e ++ [e]).length = upper.length := by
      rw [List.length_append, List.length_erase_of_mem he]
      have := List.length_pos_of_mem he
      simp only [List.length_cons, List.length_nil]
      omega
    have henough : capacity ≤ (upper.erase e ++ [e]).length := by omega
    rw [List.erase_append_right _ hfront, List.append_assoc, latest_append henough]
  · have hback : capacity ≤ (upper ++ [e]).length := by
      rw [List.length_append]
      omega
    rw [List.erase_of_not_mem he]
    by_cases hfront : e ∈ front
    · rw [List.erase_append_left _ hfront, List.append_assoc, latest_append hback]
    · rw [List.erase_of_not_mem (by simp [he, hfront]), List.append_assoc, latest_append hback]

/-! ## Runs -/

@[simp] theorem entries_push (h : History) (e : Entry) :
    (h.push e).entries = latest (h.entries.erase e ++ [e]) := by
  simp only [push]

/-- In a history without repetitions that is not too long, the entry at the end may as well be
recorded once more. -/
theorem latest_erase_last {es : List Entry} (hes : es.Nodup) (hlength : es.length ≤ capacity)
    {e : Entry} (he : es.getLast? = some e) : latest (es.erase e ++ [e]) = es := by
  obtain ⟨front, rfl⟩ := List.getLast?_eq_some_iff.mp he
  have hfront : e ∉ front := fun h => List.disjoint_of_nodup_append hes h (by simp)
  rw [List.erase_append_right _ hfront, List.erase_cons_head, List.append_nil,
    latest_of_length_le hlength]

/-- One line takes a history at the upper end of a ranking to the upper end of the next one. -/
theorem entries_append {h : History} {us : List Entry} (hus : h.entries = latest us.dedup)
    (line : String) (mode : Mode) :
    (h.append line mode).entries = latest (us ++ (used? line mode).toList).dedup := by
  rw [append_eq]
  cases hused : used? line mode with
  | none => simpa using hus
  | some e =>
    have hnodup : h.entries.Nodup := by
      rw [hus]
      exact (List.nodup_dedup us).sublist (List.drop_sublist _ _)
    have hlength : h.entries.length ≤ capacity := by
      rw [hus]
      exact length_latest_le _
    have hmoved : latest (h.entries.erase e ++ [e]) = latest (us ++ [e]).dedup := by
      rw [dedup_concat, hus, latest_erase_latest (List.nodup_dedup us)]
    simp only [Option.toList_some]
    split
    · next hlast => rw [← hmoved, latest_erase_last hnodup hlength hlast]
    · rw [entries_push, hmoved]

/-- Line by line, the history stays at the upper end of the ranking. -/
theorem entries_appendAll (keeping : Keeping) (submitted : List (String × Mode)) :
    (({ keeping } : History).appendAll submitted).entries = latest (uses submitted).dedup := by
  induction submitted using List.reverseRecOn with
  | nil => rfl
  | append_singleton submitted l ih =>
    have huses : uses (submitted ++ [l]) = uses submitted ++ (used? l.1 l.2).toList := by
      rw [uses, List.filterMap_append, List.filterMap_cons, List.filterMap_nil]
      cases used? l.1 l.2 <;> rfl
    rw [appendAll_concat, huses]
    exact entries_append ih l.1 l.2

theorem entry_eq_ok_iff (h : History) (i : Int) :
    (∃ e, h.entry i = .ok e) ↔ 0 ≤ i ∧ i < h.size := by
  unfold entry size
  by_cases hi : 0 ≤ i
  · by_cases hlt : i.toNat < h.entries.length
    · simp only [if_pos hi, List.getElem?_eq_getElem hlt, Except.ok.injEq, exists_eq', true_iff]
      omega
    · simp only [if_pos hi, List.getElem?_eq_none (Nat.le_of_not_lt hlt), reduceCtorEq,
        exists_false, false_iff]
      omega
  · simp [hi]

/-! ## Main statement -/

/-- A history that starts empty, wherever it is kept, holds the thousand entries used last, each
once and in the order of their last uses; they are trimmed and not blank, and have the numbers
from 0 on. -/
theorem entries_used_last (keeping : Keeping) (submitted : List (String × Mode)) :
    let h := ({ keeping } : History).appendAll submitted
    let ranked := (uses submitted).dedup
    RankedByLastUse (uses submitted) ranked ∧ h.entries = ranked.rtake 1000 ∧
      h.entries.Nodup ∧ h.size ≤ 1000 ∧
      (∀ e ∈ h.entries, e.line ≠ "" ∧ Text.trimSpace e.line = e.line) ∧
      ∀ i : Int, (∃ e, h.entry i = .ok e) ↔ 0 ≤ i ∧ i < h.size := by
  intro h ranked
  have hentries : h.entries = latest ranked := entries_appendAll keeping submitted
  refine ⟨rankedByLastUse_dedup _, hentries, ?_, ?_, ?_, entry_eq_ok_iff h⟩
  · rw [hentries]
    exact (List.nodup_dedup _).sublist (List.drop_sublist _ _)
  · rw [size, hentries]
    exact length_latest_le ranked
  · intro e he
    rw [hentries] at he
    have huse : e ∈ uses submitted := List.mem_dedup.mp (List.mem_of_mem_drop he)
    obtain ⟨l, _, hl⟩ := List.mem_filterMap.mp huse
    exact (used?_eq_some hl).2

end Lowlang.Shell.History
