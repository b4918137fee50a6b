import Lowlang.Text.Chars
import Mathlib.Data.List.DropRight

set_option autoImplicit false

/-!
# Trimmed text

Trimming takes the blanks at the two ends and nothing else, so what it leaves has none there, and
text that has none there stays as it is.
-/

namespace Lowlang.Text

/-- Neither end of the text is a blank. -/
structure Tight (s : List Char) : Prop where
  head : ∀ c ∈ s.head?, isSpace c = false
  last : ∀ c ∈ s.getLast?, isSpace c = false

theorem trim_eq_rdropWhile (s : List Char) :
    trim s = (s.dropWhile isSpace).rdropWhile isSpace :=
  rfl

theorem Tight.trim_eq {s : List Char} (h : Tight s) : trim s = s := by
  have hfront : s.dropWhile isSpace = s := by
    rw [List.dropWhile_eq_self_iff]
    intro hs
    simp [h.head s[0] (by simp [List.head?_eq_getElem?, hs])]
  have hback : s.rdropWhile isSpace = s := by
    rw [List.rdropWhile_eq_self_iff]
    intro hs
    simp [h.last (s.getLast hs) (List.getLast?_eq_some_getLast hs)]
  rw [trim_eq_rdropWhile, hfront, hback]

theorem tight_trim (s : List Char) : Tight (trim s) := by
  rw [trim_eq_rdropWhile]
  constructor
  · intro c hc
    -- What is dropped at the back leaves the front as it is.
    obtain ⟨rest, hrest⟩ := List.rdropWhile_prefix isSpace (s.dropWhile isSpace)
    have hhead := List.head?_dropWhile_not isSpace s
    cases hleft : (s.dropWhile isSpace).rdropWhile isSpace with
    | nil =>
      rw [hleft] at hc
      cases hc
    | cons d left =>
      rw [hleft] at hc hrest
      cases hc
      rw [← hrest] at hhead
      simpa using hhead
  · intro c hc
    obtain ⟨hne, rfl⟩ := List.mem_getLast?_eq_getLast hc
    simpa using List.rdropWhile_last_not isSpace _ hne

theorem trim_trim (s : List Char) : trim (trim s) = trim s :=
  (tight_trim s).trim_eq

theorem trimSpace_trimSpace (s : String) : trimSpace (trimSpace s) = trimSpace s := by
  rw [trimSpace, trimSpace, String.toList_ofList, trim_trim]

end Lowlang.Text
