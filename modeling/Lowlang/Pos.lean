import Lowlang.Text.Quoted
import Lowlang.Attr

set_option autoImplicit false

/-!
# Positions

Where in a document a node was written.  A position without a line is unknown, and may
still name its file.
-/

namespace Lowlang

/-- A place in a source text.  Lines and columns count from one; zero means unknown. -/
structure Pos where
  file : String := ""
  line : Int := 0
  column : Int := 0
  deriving DecidableEq, Repr, Inhabited

namespace Pos

/-- The position that says nothing. -/
def none : Pos := {}

/-- Whether the line is known. -/
def isKnown (p : Pos) : Bool :=
  0 < p.line

/-- `file:line:column`, leaving out what is unknown. -/
def text (p : Pos) : String :=
  if p.isKnown then
    (if p.file = "" then "" else p.file ++ ":") ++ Text.intText p.line
      ++ (if 0 < p.column then ":" ++ Text.intText p.column else "")
  else if p.file = "" then "-" else p.file

/-- What a report about a node starts with: its position and a colon, or nothing. -/
def lead (p : Pos) : String :=
  if p.isKnown then p.text ++ ": " else ""

/-- The position as log attributes. -/
def attrs (p : Pos) : List Attr :=
  (if p.file = "" then [] else [Attr.text "file" p.file])
    ++ (if p.isKnown then
          Attr.int "line" p.line :: (if 0 < p.column then [Attr.int "column" p.column] else [])
        else [])

/-- The position as one log attribute. -/
def attr (key : String) (p : Pos) : Attr :=
  Attr.group key p.attrs

end Pos

end Lowlang
