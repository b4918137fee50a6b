import Lowlang.Text.Screen

set_option autoImplicit false

/-!
# The line being typed

A field holds the characters of a line and a cursor between them.  Text that enters it is
cleaned: tabs and line ends become blanks and other control characters go.  A line has at most
1024 characters.  When it is wider than the field, a window that contains the cursor is shown,
and it moves only as far as it must.
-/

namespace Lowlang.Shell

/-- An access behind the end of a line. -/
inductive Overrun where
  /-- The part from `start` on of a line with `size` bytes. -/
  | slice (start size : Nat)
  /-- The character with number `i` of a line with `size` characters. -/
  | index (i size : Nat)
  deriving DecidableEq, Repr

/-- A line being typed. -/
structure Field where
  value : List Char := []
  /-- The characters before the cursor. -/
  pos : Nat := 0
  /-- The columns of the field; without a positive number there is no limit. -/
  width : Int := 80
  /-- The characters hidden on the left. -/
  shownFrom : Nat := 0
  /-- Where the shown part ends. -/
  shownTo : Nat := 0
  deriving Repr, Inhabited

namespace Field

/-- The greatest number of characters. -/
def limit : Nat := 1024

/-- Text without what a line cannot hold. -/
def clean (s : List Char) : List Char :=
  s.filterMap fun c =>
    let n := c.toNat
    if c = '\n' || c = '\r' || c = '\t' then some ' '
    else if n = 0xFFFD || n < 0x20 || (0x7F ≤ n && n < 0xA0) then none
    else some c

/-- The columns of a line. -/
def columns (s : List Char) : Nat :=
  Text.widthFrom false s

/-! ## The window -/

/-- The characters that fit into a window of `width` columns, one column more being allowed for
the last; `used` columns are taken. -/
def fitting (width used : Int) : List Char → Nat
  | [] => 0
  | c :: rest =>
    if used ≤ width then
      let used := used + Text.charWidth c
      (if used ≤ width + 1 then 1 else 0) + fitting width used rest
    else 0

/-- The characters of a line read backwards that fit before the cursor; its first character
is never among them. -/
def fittingBack (width used : Int) : List Char → Nat
  | [] => 0
  | [_] => 0
  | c :: rest =>
    if used < width then
      let used := used + Text.charWidth c
      if used ≤ width then 1 + fittingBack width used rest else 0
    else 0

/-- The field with its window moved to the cursor. -/
def settled (f : Field) : Field :=
  if f.width ≤ 0 || (columns f.value : Int) ≤ f.width then
    { f with shownFrom := 0, shownTo := f.value.length }
  else if f.pos < f.shownFrom then
    { f with
      shownFrom := f.pos
      shownTo := f.pos + fitting f.width 0 (f.value.drop f.pos) }
  else
    let shownTo := min f.shownTo f.value.length
    if shownTo ≤ f.pos then
      { f with
        shownFrom := f.pos - fittingBack f.width 0 (f.value.take f.pos).reverse
        shownTo := f.pos }
    else { f with shownTo }

/-! ## Changes -/

/-- The field with the cursor at `pos`, or at the end. -/
def setCursor (f : Field) (pos : Nat) : Field :=
  settled { f with pos := min pos f.value.length }

/-- The field with the cursor at the end. -/
def toEnd (f : Field) : Field :=
  f.setCursor f.value.length

/-- The field with another line, cut to the limit.  The cursor stays where it is, unless it has
to move back or the field was empty. -/
def setLine (f : Field) (s : List Char) : Field :=
  let value := s.take limit
  let g := { f with value }
  if (f.pos = 0 && f.value.isEmpty) || value.length < f.pos then (g.setCursor value.length).settled
  else g.settled

/-- The field with another text. -/
def setValue (f : Field) (s : List Char) : Field :=
  f.setLine (clean s)

/-- The field with text put in at the cursor, as much of it as there is room for. -/
def insert (f : Field) (s : List Char) : Field :=
  let room := limit - f.value.length
  if room = 0 then f
  else
    let s := (clean s).take room
    setLine { f with pos := f.pos + s.length }
      (f.value.take f.pos ++ s ++ f.value.drop f.pos)

/-- The field without the character before the cursor. -/
def deleteBack (f : Field) : Field :=
  if f.pos = 0 then f
  else setCursor { f with value := f.value.eraseIdx (f.pos - 1) } (f.pos - 1)

/-- The field without the character at the cursor. -/
def deleteAt (f : Field) : Field :=
  settled { f with value := f.value.eraseIdx f.pos }

/-- The field without what stands before the cursor. -/
def deleteBefore (f : Field) : Field :=
  setCursor { f with value := f.value.drop f.pos, shownFrom := 0 } 0

/-- The field without what stands behind the cursor. -/
def deleteAfter (f : Field) : Field :=
  toEnd { f with value := f.value.take f.pos }

/-! ## Keys -/

/-- The movements and deletions that keys stand for. -/
inductive Edit where
  | back | forward | start | finish
  | wordBack | wordForward
  | deleteBack | deleteAt | deleteBefore | deleteAfter | deleteWordBack | deleteWord
  /-- Keys that mean something to a field with suggestions or a clipboard, and nothing here. -/
  | nothing
  deriving DecidableEq, Repr

/-- The edits by the names of the keys. -/
def Edit.ofKey? (key : String) : Option Edit :=
  match key with
  | "right" | "ctrl+f" => some .forward
  | "left" | "ctrl+b" => some .back
  | "alt+right" | "ctrl+right" | "alt+f" => some .wordForward
  | "alt+left" | "ctrl+left" | "alt+b" => some .wordBack
  | "alt+backspace" | "ctrl+w" => some .deleteWordBack
  | "alt+delete" | "alt+d" => some .deleteWord
  | "ctrl+k" => some .deleteAfter
  | "ctrl+u" => some .deleteBefore
  | "backspace" | "ctrl+h" => some .deleteBack
  | "delete" | "ctrl+d" => some .deleteAt
  | "home" | "ctrl+a" => some .start
  | "end" | "ctrl+e" => some .finish
  | "ctrl+v" | "down" | "ctrl+n" | "up" | "ctrl+p" => some .nothing
  | _ => none

/-- The characters up to the far end of the next word, blanks before it included. -/
def wordLength (s : List Char) : Nat :=
  let blanks := s.takeWhile Text.isSpace
  blanks.length + ((s.drop blanks.length).takeWhile fun c => !Text.isSpace c).length

/-- The field without the word before the cursor and the blanks behind it.  A single blank that
starts the line goes with the word behind it. -/
def deleteWordBack (f : Field) : Field :=
  let start := f.pos - wordLength (f.value.take f.pos).reverse
  let start := if start = 1 then 0 else start
  { f with value := f.value.take start ++ f.value.drop f.pos, pos := start }

/-- The field without the character at the cursor and the word behind it; there must be a
character behind the first. -/
def deleteWord (f : Field) : Except Overrun Field :=
  if f.value.length ≤ f.pos then .ok f
  else if f.value.length = f.pos + 1 then .error (.index f.value.length f.value.length)
  else
    let n := 1 + wordLength (f.value.drop (f.pos + 1))
    .ok { f with value := f.value.take f.pos ++ f.value.drop (f.pos + n) }

/-- The field after an edit. -/
def edit (f : Field) : Edit → Except Overrun Field
  | .back => .ok (f.setCursor (f.pos - 1))
  | .forward => .ok (f.setCursor (f.pos + 1))
  | .start => .ok (f.setCursor 0)
  | .finish => .ok f.toEnd
  | .wordBack => .ok (f.setCursor (f.pos - wordLength (f.value.take f.pos).reverse))
  | .wordForward => .ok (f.setCursor (f.pos + wordLength (f.value.drop f.pos)))
  | .deleteBack => .ok f.deleteBack
  | .deleteAt => .ok f.deleteAt
  | .deleteBefore => .ok f.deleteBefore
  | .deleteAfter => .ok f.deleteAfter
  | .deleteWordBack => .ok f.deleteWordBack
  | .deleteWord => f.deleteWord
  | .nothing => .ok f

/-- The field after a keystroke with a name and a text.  A name that stands for an edit acts as that
edit, and otherwise the text is put in. -/
def stroke (f : Field) (name : String) (text : List Char) : Except Overrun Field := do
  match Edit.ofKey? name with
  | some e => return (← f.edit e).settled
  | none => return (f.insert text).settled

/-! ## Display -/

/-- The field as it is shown: the window with the cursor, filled up to the width. -/
def view (f : Field) : String :=
  let shown := (f.value.take f.shownTo).drop f.shownFrom
  let inside := f.pos - f.shownFrom < shown.length
  let used : Int := columns shown
  let fill : Nat :=
    if 0 < f.width && used ≤ f.width then (f.width - used).toNat + (if inside then 1 else 0) else 0
  String.ofList (shown ++ (if inside then [] else [' ']) ++ List.replicate fill ' ')

end Field

end Lowlang.Shell
