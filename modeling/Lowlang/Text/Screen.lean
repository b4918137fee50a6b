import Lowlang.Text.Chars
import Lowlang.Text.WidthTable

set_option autoImplicit false

/-!
# Text on a screen

How many columns text takes up, and the shape it is given before it is shown: tabs become
four blanks, and the lines of one text are filled up to the width of its widest.
-/

namespace Lowlang.Text

/-- The columns of a character. -/
def charWidth (c : Char) : Nat :=
  let n := c.toNat
  if n < 0x20 || (0x7F ≤ n && n < 0xA0) then 0
  else if n < 0x7F then 1
  else if inRanges attachedRanges n then 0
  else if inRanges wideRanges n then 2
  else 1

/-- The columns of characters; one that a joiner ties to its neighbour takes none. -/
def widthFrom (tied : Bool) : List Char → Nat
  | [] => 0
  | c :: rest => (if tied then 0 else charWidth c) + widthFrom (c.toNat == 0x200D) rest

/-- The columns of a text. -/
def width (s : String) : Nat :=
  widthFrom false s.toList

/-- Tabs become four blanks, and a line ends in one way only. -/
def untab : List Char → List Char
  | [] => []
  | '\t' :: rest => ' ' :: ' ' :: ' ' :: ' ' :: untab rest
  | '\r' :: '\n' :: rest => '\n' :: untab rest
  | c :: rest => c :: untab rest

/-- `s` with blanks up to a width. -/
def fillTo (n : Nat) (s : String) : String :=
  s ++ String.ofList (List.replicate (n - width s) ' ')

/-- A text in the shape it is shown in. -/
def screened (s : String) : String :=
  match (String.ofList (untab s.toList)).splitOn "\n" with
  | [line] => line
  | lines =>
    let widest := (lines.map width).foldl max 0
    "\n".intercalate (lines.map (fillTo widest))

end Lowlang.Text
