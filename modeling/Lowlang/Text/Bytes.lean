set_option autoImplicit false

/-!
# Positions in bytes

Text counted and cut in bytes of its UTF-8 form.  A cut never breaks a character: one that
lies across the place of the cut stays whole on its left side.
-/

namespace Lowlang.Text

/-- The bytes of a text. -/
def bytes : List Char → Nat
  | [] => 0
  | c :: rest => c.utf8Size + bytes rest

@[simp] theorem bytes_nil : bytes [] = 0 := rfl

@[simp] theorem bytes_cons (c : Char) (s : List Char) : bytes (c :: s) = c.utf8Size + bytes s := rfl

@[simp] theorem bytes_append (s t : List Char) : bytes (s ++ t) = bytes s + bytes t := by
  induction s with
  | nil => simp
  | cons c s ih => simp [ih, Nat.add_assoc]

/-- The characters that start before byte `n`, and the others. -/
def splitAtByte : Nat → List Char → List Char × List Char
  | _, [] => ([], [])
  | n, c :: rest =>
    if n = 0 then ([], c :: rest)
    else
      let parts := splitAtByte (n - c.utf8Size) rest
      (c :: parts.1, parts.2)

theorem splitAtByte_append (n : Nat) (s : List Char) :
    (splitAtByte n s).1 ++ (splitAtByte n s).2 = s := by
  induction s generalizing n with
  | nil => rfl
  | cons c s ih =>
    by_cases h : n = 0
    · simp [splitAtByte, h]
    · simp [splitAtByte, h, ih]

/-- The characters that end at or before byte `n`. -/
def takeBytes : Nat → List Char → List Char
  | _, [] => []
  | n, c :: rest => if c.utf8Size ≤ n then c :: takeBytes (n - c.utf8Size) rest else []

/-- The characters that start at or after byte `n`. -/
def dropBytes (n : Nat) (s : List Char) : List Char :=
  (splitAtByte n s).2

end Lowlang.Text
