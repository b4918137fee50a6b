import Lowlang.Text.Chars
import Mathlib.Data.List.TakeWhile

set_option autoImplicit false

/-!
# Character classes are apart

No letter and no digit of any script is a blank, so a name never loses characters to what
skips blanks.  There are few blanks, and each is looked up in the tables.
-/

namespace Lowlang.Text

/-! What is said of the characters in a list is decided by the list.  There are instances that go
through all characters there are, and these two are to be found before them. -/

instance (priority := high) decidableForallMem {P : Char → Prop} [DecidablePred P]
    (s : List Char) : Decidable (∀ c ∈ s, P c) :=
  List.decidableBAll P s

instance (priority := high) decidableExistsMem {P : Char → Prop} [DecidablePred P]
    (s : List Char) : Decidable (∃ c ∈ s, P c) :=
  List.decidableBEx P s

/-- A row of characters of one class ends where the rest leaves the class. -/
theorem takeWhile_append_rest {p : Char → Bool} {s rest : List Char} (hs : ∀ c ∈ s, p c)
    (hrest : ∀ c ∈ rest.head?, p c = false) :
    (s ++ rest).takeWhile p = s ∧ (s ++ rest).dropWhile p = rest := by
  rw [List.takeWhile_append_of_pos hs, List.dropWhile_append_of_pos hs]
  cases rest with
  | nil => simp
  | cons c rest =>
    have hc : p c = false := hrest c rfl
    simp [hc]

/-- What trimming leaves nothing of is blank. -/
theorem isSpace_of_trim_eq_nil {s : List Char} (h : trim s = []) : ∀ c ∈ s, isSpace c := by
  have hback : ∀ c ∈ (s.dropWhile isSpace).reverse, isSpace c := by
    rw [trim, List.reverse_eq_nil_iff, List.dropWhile_eq_nil_iff] at h
    exact h
  cases hdrop : s.dropWhile isSpace with
  | nil => exact List.dropWhile_eq_nil_iff.mp hdrop
  | cons c r =>
    have hc := List.head?_dropWhile_not isSpace s
    rw [hdrop] at hc hback
    simp [hback c (by simp)] at hc

/-- The blanks above the ASCII ones. -/
def highSpaces : List Nat :=
  [0x85, 0xA0, 0x1680, 0x2000, 0x2001, 0x2002, 0x2003, 0x2004, 0x2005, 0x2006, 0x2007, 0x2008,
    0x2009, 0x200A, 0x2028, 0x2029, 0x202F, 0x205F, 0x3000]

theorem isSpace_cases {c : Char} (h : isSpace c) :
    (9 ≤ c.toNat ∧ c.toNat ≤ 13) ∨ c.toNat = 0x20 ∨ c.toNat ∈ highSpaces := by
  simp only [isSpace, Bool.or_eq_true, Bool.and_eq_true, decide_eq_true_eq, beq_iff_eq] at h
  simp only [highSpaces, List.mem_cons, List.not_mem_nil, or_false]
  omega

/-- Whether `n` lies in none of the ranges, which are looked through one by one. -/
def outside (n : Nat) : List (Nat × Nat) → Bool
  | [] => true
  | r :: ranges => !(r.1 ≤ n && n ≤ r.2) && outside n ranges

theorem inRanges_of_outside {table : Array (Nat × Nat)} {n : Nat}
    (h : outside n table.toList) : inRanges table n = false := by
  rw [inRanges, ← Array.any_toList]
  generalize table.toList = ranges at h
  induction ranges with
  | nil => rfl
  | cons r ranges ih =>
    rw [outside, Bool.and_eq_true, Bool.not_eq_true'] at h
    rw [List.any_cons, ih h.2, h.1, Bool.or_false]

/-- A class of characters that has no blank of ASCII and whose table has no other is apart
from the blanks. -/
theorem not_isSpace_of_class {low : Char → Bool} {table : Array (Nat × Nat)} {c : Char}
    (h : (if c.toNat < 0x80 then low c else inRanges table c.toNat) = true)
    (hlow : ∀ n, n ≤ 0x20 → low (Char.ofNat n) = false)
    (htable : ∀ n ∈ highSpaces, outside n table.toList) : isSpace c = false := by
  cases hspace : isSpace c with
  | false => rfl
  | true =>
    exfalso
    have hhigh : ∀ n ∈ highSpaces, 0x80 ≤ n := by decide
    rcases isSpace_cases hspace with hn | hn | hn
    · rw [if_pos (by omega), ← Char.ofNat_toNat c, hlow _ (by omega)] at h
      cases h
    · rw [if_pos (by omega), ← Char.ofNat_toNat c, hlow _ (by omega)] at h
      cases h
    · have := hhigh _ hn
      rw [if_neg (by omega), inRanges_of_outside (htable _ hn)] at h
      cases h

theorem not_isSpace_of_isLetter {c : Char} (h : isLetter c) : isSpace c = false :=
  not_isSpace_of_class h (by decide) (by decide +kernel)

theorem not_isSpace_of_isDigit {c : Char} (h : isDigit c) : isSpace c = false :=
  not_isSpace_of_class h (by decide) (by decide +kernel)

end Lowlang.Text
