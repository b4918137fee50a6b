import Lowlang.Yaml.Scalar
import Lowlang.Yaml.Timestamp

set_option autoImplicit false

/-!
# Writing documents

A document to be written holds texts, mappings and sequences.  Mappings are indented below
their keys and sequences are not.  A text is quoted whenever reading it without quotes could
give something else, and a text of several lines becomes a block scalar.
-/

namespace Lowlang.Yaml

/-- What a document is to hold. -/
inductive Content where
  | text (s : String)
  /-- A number or truth value, whose spelling is never quoted. -/
  | word (s : String)
  | mapping (entries : List (String × Content))
  | sequence (items : List Content)
  deriving Repr, Inhabited

namespace Content

/-! ## Texts -/

/-- Words that some readers take for truth values. -/
def switchWords : List String :=
  ["y", "Y", "yes", "Yes", "YES", "n", "N", "no", "No", "NO", "on", "On", "ON", "off", "Off",
    "OFF"]

/-- Characters that mean something at the start of a text. -/
def leadMarks : List Char :=
  ['*', '&', '[', '\x7b', '\x7d', ']', ',', '!', '|', '>', '%', '\'', '"', '@', ' ', '\x60']

/-- Whether a comment, an escape, or a mark followed by a blank is inside. -/
def hasMarks : List Char → Bool
  | [] => false
  | '#' :: _ => true
  | '\\' :: _ => true
  | ':' :: ' ' :: _ => true
  | '-' :: ' ' :: _ => true
  | _ :: rest => hasMarks rest

/-- Whether a text has to be quoted. -/
def needsQuotes (s : String) : Bool :=
  let cs := s.toList
  s = "" || s = "-"
    || Scalar.nullWords.contains s || Scalar.trueWords.contains s || Scalar.falseWords.contains s
    || switchWords.contains s
    || (Scalar.number cs).isSome
    || cs.head?.any leadMarks.contains
    || cs.getLast?.any (fun c => c = ':' || c = ' ')
    || Timestamp.accepts s
    || hasMarks cs

/-- The line break a text uses. -/
def lineBreak (s : String) : String :=
  let feeds := s.toList.count '\n'
  let returns := s.toList.count '\r'
  let both := (s.splitOn "\r\n").length - 1
  if feeds = both && returns = both then "\r\n"
  else if feeds < returns then "\r"
  else "\n"

/-- `s` without `ending`, if it ends so. -/
def withoutEnd (s ending : String) : String :=
  match Text.stripLead ending.toList.reverse s.toList.reverse with
  | some r => String.ofList r.reverse
  | none => s

/-- `n` spaces. -/
def spaces (n : Nat) : String :=
  String.ofList (List.replicate n ' ')

/-- A text of several lines as a block scalar below `column`. -/
def block (indent column : Nat) (brk s : String) : String :=
  let lead := spaces (column - 1) ++ spaces indent
  let header :=
    if s.endsWith (brk ++ brk) then "|+" else if s.endsWith brk then "|" else "|-"
  let lines := brk.intercalate ((s.splitOn brk).map (lead ++ ·))
  header ++ brk ++ withoutEnd (withoutEnd lines (brk ++ lead)) lead

/-- The written form of a text in `column`. -/
def written (indent column : Nat) (s : String) : String :=
  if needsQuotes s then Text.literal s
  else
    let brk := lineBreak s
    if 1 < (s.splitOn brk).length then block indent column brk s else s

/-! ## Trees -/

/-- Puts the dash of `column` before an item, whose later lines move below its first.
`text` tells that the item is a text, whose lines were moved already. -/
def dashed (column : Nat) (text : Bool) (item : String) : String :=
  let lead := spaces (column - 1)
  match item.splitOn "\n" with
  | [] => lead ++ "- "
  | first :: rest =>
    let trimmed := first.toList.dropWhile (· = ' ')
    let shift := first.length - trimmed.length
    let strip (line : String) : String :=
      if text then
        String.ofList ((Text.stripLead (lead ++ "  ").toList line.toList).getD line.toList)
      else line
    let move (line : String) : String :=
      let line := strip line
      if line.utf8ByteSize ≤ shift then ""
      else lead ++ "  " ++ String.ofList (line.toList.drop shift)
    lead ++ "- " ++ "\n".intercalate (String.ofList trimmed :: rest.map move)

mutual

/-- The text of a document's content, whose keys and dashes start in `column`. -/
def render (indent column : Nat) : Content → String
  | .text s => written indent column s
  | .word s => s
  | .mapping [] => "\x7b\x7d"
  | .mapping (e :: es) => "\n".intercalate (renderEntries indent column (e :: es))
  | .sequence [] => "[]"
  | .sequence (i :: is) => "\n".intercalate (renderItems indent column (i :: is))
termination_by structural c => c

/-- The texts of entries. -/
def renderEntries (indent column : Nat) : List (String × Content) → List String
  | [] => []
  | (k, v) :: es =>
    let key := spaces (column - 1) ++ written indent column k
    let entry := match v with
      | .text s => key ++ ": " ++ written indent column s
      | .word s => key ++ ": " ++ s
      | .mapping [] => key ++ ": \x7b\x7d"
      | .mapping fs => key ++ ":\n" ++ "\n".intercalate (renderEntries indent (column + indent) fs)
      | .sequence [] => key ++ ": []"
      | .sequence is => key ++ ":\n" ++ "\n".intercalate (renderItems indent column is)
    entry :: renderEntries indent column es
termination_by structural es => es

/-- The texts of items. -/
def renderItems (indent column : Nat) : List Content → List String
  | [] => []
  | i :: is =>
    let isText := match i with | .text _ => true | _ => false
    dashed column isText (render indent column i) :: renderItems indent column is
termination_by structural is => is

end

/-- The indentation used when none is asked for. -/
def defaultIndent : Nat := 2

/-- A whole document, with the indentation asked for. -/
def document (indent : Int) (c : Content) : String :=
  render (if 0 < indent then indent.toNat else defaultIndent) 1 c ++ "\n"

end Content

end Lowlang.Yaml
