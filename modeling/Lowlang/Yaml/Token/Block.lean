import Lowlang.Yaml.Token.Quoted

set_option autoImplicit false

/-!
# Block scalars

The lines below a header.  The header tells whether line breaks stay or fold, what becomes of
those at the end and, with a number, how deep the lines are indented.  Plain text one of whose
later lines starts with a dash is read by the same rules, without a header.
-/

namespace Lowlang.Yaml.Token

/-! ## Headers -/

/-- The header of a block scalar. -/
structure Header where
  /-- The header as written, without the blanks and the comment behind it. -/
  text : String
  line : Nat
  column : Nat
  /-- Whether no line break stays at the end of the content. -/
  strips : Bool
  /-- Whether all line breaks stay at the end of the content. -/
  keeps : Bool
  /-- The indentation that it gives; zero when it gives none. -/
  width : Int
  deriving Repr, Inhabited

namespace Header

/-- Without one minus and one plus sign at the front. -/
def unsigned (s : List Char) : List Char :=
  Scalar.withoutLead '+' (Scalar.withoutLead '-' s)

/-- The integer that digits behind an optional sign spell, if 64 bits hold it. -/
def integer? (s : List Char) : Option Int :=
  let (negative, ds) := match s with
    | '-' :: ds => (true, ds)
    | '+' :: ds => (false, ds)
    | ds => (false, ds)
  if ds.isEmpty || !ds.all Char.isDigit then none
  else
    let n : Int := Double.natOfDigits ds
    let i := if negative then -n else n
    if -(2 ^ 63 : Int) ≤ i && i < 2 ^ 63 then some i else none

/-- The indentation that an option gives between its signs: nothing, or a number of at most
nine that is not written `0`.  Other options are refused. -/
def width? (option : List Char) : Option Int :=
  let body := (unsigned (unsigned option).reverse).reverse
  if body.isEmpty then some 0
  else if body = ['0'] then none
  else (integer? body).filter (· ≤ 9)

/-- Whether an option starts or ends with a sign. -/
def signed (sign : Char) (option : List Char) : Bool :=
  option.head? == some sign || option.getLast? == some sign

/-- Reads the header that `mark` and the rest of its line make up. -/
def read (mark : Char) (line column : Nat) (words : List Char) : Option Header :=
  let option := if words.head? == some '#' then words else words.takeWhile (· ≠ '#')
  let option := (option.reverse.dropWhile isBlank).reverse
  (width? option).map fun width =>
    { text := String.ofList (mark :: option), line := line, column := column
      strips := signed '-' option, keeps := signed '+' option, width := width }

end Header

/-! ## Content -/

/-- What stays of the content at its end, latest character first: no line breaks, all of
them, or one. -/
def chomp (strips keeps : Bool) (text : List Char) : List Char :=
  let kept :=
    if strips then (text.dropWhile (· == '\n')).dropWhile (· == ' ')
    else if keeps then text
    else
      match text with
      | '\n' :: rest => '\n' :: rest.dropWhile (· == '\n')
      | text => text
  let kept := if kept = ['\n'] then [] else kept
  if keeps && kept.isEmpty then ['\n'] else kept

/-- Text whose marks do not count: a block scalar below its header, or plain text one of
whose later lines starts with a dash. -/
structure Block where
  /-- The header; plain text has none. -/
  header : Option Header := none
  /-- The column of the content; zero as long as there is none. -/
  first : Nat := 0
  /-- The column of the content of this line. -/
  own : Nat := 0
  /-- The width of the last blank line ahead of the content. -/
  blank : Nat := 0
  /-- The column of the content of the line before. -/
  previous : Nat := 0
  /-- The column of the content of the last line that has any. -/
  solid : Nat := 0
  /-- Whether a line break was just read. -/
  broke : Bool := false
  deriving Repr, Inhabited

namespace Block

/-- The block below a header, which belongs to the parent in a column. -/
def below (header : Header) (parent : Nat) : Block :=
  { header := some header
    first := if 0 < header.width then parent + header.width.toNat else 0 }

/-- The content from the lines without indentation, latest character first. -/
def content (b : Block) (text : List Char) : String :=
  let kept := match b.header with
    | some h => chomp h.strips h.keeps text
    | none => chomp true false text
  String.ofList kept.reverse

/-- The header and the lines below it as they stand, without what is blank at the end. -/
def written (header : Header) (raw : List Char) : String :=
  header.text ++ "\n" ++
    String.ofList ((raw.dropWhile (· == ' ')).dropWhile (· == '\n')).reverse

/-- The token of a block with the lines `raw` and the content `text`, latest first.  Plain text
starts at `place`. -/
def token (b : Block) (place : Nat × Nat) (raw text : List Char) : Token :=
  let content := b.content text
  match b.header with
  | some h =>
    { kind := .scalar .block (.block (written h raw) content)
      text := h.text, line := h.line, column := h.column }
  | none =>
    { kind := .scalar .plain (.text content), text := content
      line := place.1, column := place.2, spans := true, breaks := true }

/-- Whether line breaks fold into blanks: in plain text, and below a header that says so. -/
def folds (b : Block) : Bool :=
  match b.header with
  | some h => h.text.startsWith ">"
  | none => true

/-- Whether the column belongs to the indentation. -/
def indents (b : Block) (column : Nat) : Bool :=
  if b.first = 0 then column == 1 else column < b.first

/-- Whether a blank in this column is content. -/
def holds (b : Block) (column : Nat) : Bool :=
  b.first ≠ 0 && b.first ≤ column

/-- Takes note of content in a column; refused when the header gives a deeper one. -/
def note (b : Block) (column : Nat) : Option Block :=
  let b := { b with
    first := if b.first = 0 then column else b.first
    own := if b.own = 0 then column else b.own }
  let given := b.header.any fun h => h.width ≠ 0
  if given && b.own < b.first then none else some b

/-- Takes note of a line break in a column. -/
def endLine (b : Block) (column : Nat) : Block :=
  { b with
    blank := if b.first = 0 then column - 1 else b.blank
    previous := b.own
    solid := if b.own = 0 then b.solid else b.own
    broke := true
    own := 0 }

/-- The text, latest character first, once the line behind its last break is known to have
content in a column: a break between lines of one depth is a blank, and of those around a
blank line one goes away. -/
def fold (b : Block) (column : Nat) (text : List Char) : List Char :=
  if !b.folds || !b.broke then text
  else if b.own = b.previous then
    match text with
    | '\n' :: t => ' ' :: t
    | t => t
  else if b.previous = 0 && b.solid = column then
    match text with
    | '\n' :: '\n' :: t => '\n' :: t
    | t => t
  else text

end Block

end Lowlang.Yaml.Token
