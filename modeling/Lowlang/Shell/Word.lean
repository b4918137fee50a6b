import Lowlang.Text.Bytes

set_option autoImplicit false

/-!
# The word at the cursor

Completion works on the word that contains or touches the cursor.  A word is a run of
characters that are not boundaries; dots belong to words, so a chain of members such as
`console.log` is one word.  The cursor counts bytes, and one that stands inside a character
counts as standing behind it.
-/

namespace Lowlang.Shell

/-- Characters between words: blanks, brackets, operators and separators. -/
def isBoundary (c : Char) : Bool :=
  " \t()[]\x7b\x7d+-*/%<>=!~^&|,?:;".toList.contains c

/-- A line taken apart around a word. -/
structure Word where
  before : List Char
  text : List Char
  after : List Char
  deriving DecidableEq, Repr, Inhabited

namespace Word

/-- The word at a byte of a line; a cursor outside the line stands at its nearer end. -/
def around (line : List Char) (cursor : Int) : Word :=
  let sides := Text.splitAtByte cursor.toNat line
  let back := sides.1.reverse
  { before := (back.dropWhile fun c => !isBoundary c).reverse
    text := (back.takeWhile fun c => !isBoundary c).reverse
      ++ sides.2.takeWhile fun c => !isBoundary c
    after := sides.2.dropWhile fun c => !isBoundary c }

/-- The byte at which the word starts. -/
def start (w : Word) : Nat :=
  Text.bytes w.before

/-- The byte at which the word ends. -/
def stop (w : Word) : Nat :=
  w.start + Text.bytes w.text

/-- Taking a line apart loses nothing. -/
theorem before_text_after (line : List Char) (cursor : Int) :
    (around line cursor).before ++ (around line cursor).text ++ (around line cursor).after
      = line := by
  have hs := Text.splitAtByte_append cursor.toNat line
  have hb := List.takeWhile_append_dropWhile (l := (Text.splitAtByte cursor.toNat line).1.reverse)
    (p := fun c => !isBoundary c)
  have hf := List.takeWhile_append_dropWhile (l := (Text.splitAtByte cursor.toNat line).2)
    (p := fun c => !isBoundary c)
  have hb' := congrArg List.reverse hb
  rw [List.reverse_append, List.reverse_reverse] at hb'
  simp only [around]
  rw [← List.append_assoc, hb', List.append_assoc, hf, hs]

end Word

end Lowlang.Shell
