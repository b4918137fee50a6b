import Lowlang.Proofs.Text.Classes
import Lowlang.Shell.Prompt
import Mathlib.Algebra.Ring.Nat

set_option autoImplicit false

/-!
# The bar of completions

The bar shows completions from the first one on, as long as the next one would leave room for the
ellipsis.  The gap before the ellipsis is not reckoned with, so a bar that is cut may be two columns
too wide.

Main statement: the bar shows the longest beginning of the completions that fits with the ellipsis
right behind it, and the ellipsis when one is left out.  It is never more than two columns too wide,
and it fits exactly when nothing is left out or there is room for the gap as well.
-/

namespace Lowlang.Shell.Prompt

/-! ## Columns -/

/-- Texts put together, with the gap and the ellipsis among them, take up the columns of each. -/
def Additive (texts : List String) : Prop :=
  ∀ pieces : List String, (∀ s ∈ pieces, s ∈ texts ∨ s = "  " ∨ s = "...") →
    columns (String.join pieces) = (pieces.map columns).sum

theorem widthFrom_of_untied {s : List Char} (h : ∀ c ∈ s, (c.toNat == 0x200D) = false) :
    Text.widthFrom false s = (s.map Text.charWidth).sum := by
  induction s with
  | nil => rfl
  | cons c s ih =>
    rw [List.forall_mem_cons] at h
    rw [Text.widthFrom, h.1, ih h.2]
    rfl

/-- A text of one line without joiners is as wide as its characters. -/
theorem columns_of_plain {s : String}
    (h : ∀ c ∈ s.toList, c ≠ '\n' ∧ (c.toNat == 0x200D) = false) :
    columns s = (s.toList.map Text.charWidth).sum := by
  have hline : '\n' ∉ s.toList := fun hmem => (h _ hmem).1 rfl
  rw [columns, List.splitOn_eq_singleton hline, List.map_singleton, List.foldl_cons, List.foldl_nil,
    Nat.zero_max, widthFrom_of_untied fun c hc => (h c hc).2]

theorem columns_gap : columns "  " = 2 := by decide

theorem columns_ellipsis : columns "..." = 3 := by decide

/-- Lines without joiners take up the columns of each when they are put together. -/
theorem additive_of_plain {texts : List String}
    (h : ∀ s ∈ texts, ∀ c ∈ s.toList, c ≠ '\n' ∧ (c.toNat == 0x200D) = false) : Additive texts := by
  intro pieces hpieces
  have hplain : ∀ s ∈ pieces, ∀ c ∈ s.toList, c ≠ '\n' ∧ (c.toNat == 0x200D) = false := by
    intro s hs
    rcases hpieces s hs with hmem | rfl | rfl
    · exact h s hmem
    · decide
    · decide
  have hjoin : ∀ c ∈ (String.join pieces).toList, c ≠ '\n' ∧ (c.toNat == 0x200D) = false := by
    intro c hc
    rw [String.toList_join] at hc
    obtain ⟨s, hs, hc⟩ := List.mem_flatMap.mp hc
    exact hplain s hs c hc
  rw [columns_of_plain hjoin, String.toList_join]
  clear hpieces hjoin
  induction pieces with
  | nil => rfl
  | cons s pieces ih =>
    rw [List.forall_mem_cons] at hplain
    rw [List.flatMap_cons, List.map_append, List.sum_append, ih hplain.2, List.map_cons,
      List.sum_cons, columns_of_plain hplain.1]

/-- The columns of texts with a gap before each. -/
def spread (texts : List String) : Nat :=
  (texts.map fun s => columns s + 2).sum

theorem spread_append (texts more : List String) :
    spread (texts ++ more) = spread texts + spread more := by
  simp [spread]

theorem spread_cons (s : String) (texts : List String) :
    spread (s :: texts) = columns s + 2 + spread texts := by
  simp [spread]

theorem spread_singleton (s : String) : spread [s] = columns s + 2 := by
  simp [spread]

/-- A row is its first text and the others, with a gap before each. -/
theorem intercalate_cons (first : String) (rest : List String) :
    "  ".intercalate (first :: rest) = first ++ String.join (rest.map ("  " ++ ·)) := by
  induction rest generalizing first with
  | nil => simp
  | cons s rest ih =>
    rw [String.intercalate_cons_cons, ih, List.map_cons, String.join_cons, String.append_assoc,
      String.append_assoc]

theorem join_gaps (texts : List String) :
    String.join (texts.map ("  " ++ ·)) = String.join (texts.flatMap fun s => ["  ", s]) := by
  induction texts with
  | nil => rfl
  | cons s texts ih =>
    rw [List.map_cons, List.flatMap_cons, String.join_cons, ih, String.join_append,
      String.join_cons, String.join_cons, String.join_nil, String.append_empty]

theorem sum_gaps (texts : List String) :
    ((texts.flatMap fun s => ["  ", s]).map columns).sum = spread texts := by
  induction texts with
  | nil => rfl
  | cons s texts ih =>
    rw [List.flatMap_cons, List.map_append, List.sum_append, ih, spread_cons]
    simp [columns_gap, Nat.add_comm]

theorem Additive.columns_intercalate {first : String} {texts rest : List String}
    (h : Additive (first :: texts)) (hrest : ∀ s ∈ rest, s ∈ texts ∨ s = "...") :
    columns ("  ".intercalate (first :: rest)) = columns first + spread rest := by
  rw [intercalate_cons, join_gaps, ← String.join_cons, h, List.map_cons, List.sum_cons, sum_gaps]
  intro s hs
  rcases List.mem_cons.mp hs with rfl | hs
  · exact .inl List.mem_cons_self
  · obtain ⟨t, ht, hs⟩ := List.mem_flatMap.mp hs
    rw [List.mem_cons, List.mem_singleton] at hs
    obtain rfl | rfl := hs
    · exact .inr (.inl rfl)
    · exact (hrest _ ht).imp_left (List.mem_cons_of_mem _) |>.imp_right .inr

/-! ## The bar -/

/-- Behind `used` columns the bar goes on with the longest beginning of the texts that leaves room
for the ellipsis, and the ellipsis when a text is left out. -/
theorem restOfBar_eq (width : Int) (used : Nat) (rest : List String) :
    ∃ more left, rest = more ++ left ∧
      restOfBar width used rest
        = String.join ((more ++ if left = [] then [] else ["..."]).map ("  " ++ ·)) ∧
      (more ≠ [] → (used + spread more + 3 : Nat) ≤ width) ∧
      ∀ next ∈ left.head?, width < (used + spread (more ++ [next]) + 3 : Nat) := by
  induction rest generalizing used with
  | nil => exact ⟨[], [], rfl, rfl, fun h => absurd rfl h, nofun⟩
  | cons s rest ih =>
    rw [restOfBar]
    split
    · next hover =>
      refine ⟨[], s :: rest, rfl, rfl, fun h => absurd rfl h, ?_⟩
      rintro _ ⟨rfl⟩
      rwa [List.nil_append, spread_singleton]
    · next hfits =>
      obtain ⟨more, left, rfl, hbar, hmore, hleft⟩ := ih (used + (columns s + 2))
      refine ⟨s :: more, left, rfl, ?_, fun _ => ?_, fun next hnext => ?_⟩
      · rw [hbar, List.cons_append, List.map_cons, String.join_cons]
      · by_cases hne : more = []
        · rw [hne, spread_singleton]
          exact Int.not_lt.mp hfits
        · simpa [spread_cons, Nat.add_assoc] using hmore hne
      · simpa [spread_cons, Nat.add_assoc] using hleft next hnext

/-- The bar shows the longest beginning of the completions that fits with the ellipsis right behind
it, and the ellipsis when one is left out.  With the gap before the ellipsis it may be up to two
columns too wide. -/
theorem bar_fits_iff {p : Prompt} {first : String} {rest : List String}
    (htexts : p.found.map p.candidateText = first :: rest) (hadd : Additive (first :: rest))
    (hfirst : (columns (first ++ "  " ++ "...") : Int) ≤ p.width) :
    ∃ shown left, first :: rest = shown ++ left ∧ shown ≠ [] ∧
      p.bar = "  ".intercalate (shown ++ if left = [] then [] else ["..."]) ∧
      (columns ("  ".intercalate shown) + 3 : Nat) ≤ p.width ∧
      (∀ next ∈ left.head?, p.width < (columns ("  ".intercalate (shown ++ [next])) + 3 : Nat)) ∧
      columns p.bar ≤ p.width + 2 ∧
      (columns p.bar ≤ p.width ↔
        left = [] ∨ (columns ("  ".intercalate shown) + 5 : Nat) ≤ p.width) := by
  have hroom : (columns first + 5 : Nat) ≤ p.width := by
    have hrow : first ++ "  " ++ "..." = "  ".intercalate [first, "..."] := by
      rw [String.intercalate_cons_cons, String.intercalate_singleton]
    rwa [hrow, hadd.columns_intercalate (by simp), spread_singleton, columns_ellipsis] at hfirst
  obtain ⟨more, left, rfl, hrest, hmore, hleft⟩ := restOfBar_eq p.width (columns first) rest
  have hbar : p.bar = "  ".intercalate (first :: (more ++ if left = [] then [] else ["..."])) := by
    rw [bar, htexts, candidateBar, if_neg (by omega), hrest, intercalate_cons]
  have hshown : columns ("  ".intercalate (first :: more)) = columns first + spread more :=
    hadd.columns_intercalate fun s hs => .inl (List.mem_append_left _ hs)
  have hfits : (columns first + spread more + 3 : Nat) ≤ p.width := by
    by_cases hne : more = []
    · rw [hne]
      change (columns first + 3 : Nat) ≤ p.width
      omega
    · exact hmore hne
  refine ⟨first :: more, left, rfl, List.cons_ne_nil _ _, hbar, ?_, ?_, ?_⟩
  · rwa [hshown]
  · intro next hnext
    have hmem : next ∈ left := List.mem_of_mem_head? hnext
    rw [List.cons_append, hadd.columns_intercalate (by grind)]
    exact hleft next hnext
  · rw [hbar, hshown]
    by_cases hnil : left = []
    · rw [if_pos hnil, List.append_nil, hshown]
      exact ⟨by omega, fun _ => .inl hnil, fun _ => by omega⟩
    · rw [if_neg hnil, hadd.columns_intercalate (by grind), spread_append, spread_singleton,
        columns_ellipsis, or_iff_right hnil]
      omega

/-- In nine columns two of three completions are shown, and the ellipsis does not fit. -/
theorem bar_fits_iff_three :
    let decls : List Decl := [⟨"fa", .int⟩, ⟨"fb", .int⟩, ⟨"f", .function [] none⟩]
    let p : Prompt := { start ⟨Registry.ofDecls decls, {}⟩ {} with
      found := [⟨"fb", 0⟩, ⟨"fa", 0⟩, ⟨"f", 0⟩]
      width := 9 }
    p.found.map p.candidateText = ["fb", "fa", "f()"] ∧ Additive ["fb", "fa", "f()"] ∧
      (columns ("fb" ++ "  " ++ "...") : Int) ≤ p.width ∧
      p.bar = "fb  fa  ..." ∧ ¬ (columns p.bar : Int) ≤ p.width ∧
      ∃ shown left, ["fb", "fa", "f()"] = shown ++ left ∧ left ≠ [] ∧
        p.bar = "  ".intercalate (shown ++ ["..."]) ∧
        (columns ("  ".intercalate shown) + 3 : Nat) ≤ p.width ∧
        p.width < (columns ("  ".intercalate shown) + 5 : Nat) := by
  intro decls p
  have htexts : p.found.map p.candidateText = ["fb", "fa", "f()"] := by decide
  have hadd : Additive ["fb", "fa", "f()"] := additive_of_plain (by decide)
  have hfirst : (columns ("fb" ++ "  " ++ "...") : Int) ≤ p.width := by decide
  have hbar : p.bar = "fb  fa  ..." := by decide
  have hwide : ¬ (columns p.bar : Int) ≤ p.width := by
    rw [hbar]
    decide
  obtain ⟨shown, left, hparts, -, hshows, hroom, -, -, hfits⟩ := bar_fits_iff htexts hadd hfirst
  obtain ⟨hleft, hover⟩ := not_or.mp (hwide ∘ hfits.mpr)
  rw [if_neg hleft] at hshows
  exact ⟨htexts, hadd, hfirst, hbar, hwide, shown, left, hparts, hleft, hshows, hroom,
    Int.not_le.mp hover⟩

end Lowlang.Shell.Prompt
