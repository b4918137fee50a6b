import Lowlang.Log.Datum
import Lowlang.Text.Chars

set_option autoImplicit false

/-!
# Plain records

One line per record: keys and values with `=` between them, or an object.  Groups become
part of the keys in the first form and objects in the second.

A line is built from left to right.  A group all of whose members are dropped is taken back,
but what it put before the keys of its members stays in force for the keys behind it.
-/

namespace Lowlang.Log

/-- The forms of plain records. -/
inductive Plain where
  /-- Keys and values. -/
  | pairs
  /-- An object. -/
  | object
  deriving DecidableEq, Repr, Inhabited

/-- Whether a text must be quoted among pairs. -/
def quotes (s : String) : Bool :=
  s = "" || s.toList.any fun c =>
    if c.toNat < 0x80 then c = ' ' || c = '=' || c = '"' || c.toNat < 0x20
    else c.toNat == 0xFFFD || Text.isSpace c || !Text.isPrintable c

/-- A text among pairs. -/
def pairText (s : String) : String :=
  if quotes s then Text.literal s else s

/-- An instant to the nanosecond. -/
def preciseLayout : String := "2006-01-02T15:04:05.999999999Z07:00"

/-- An instant to the millisecond. -/
def milliLayout : String := "2006-01-02T15:04:05.000Z07:00"

/-- A value among pairs. -/
def pairValue : Datum → String
  | .text s => pairText s
  | .int i => Text.intText i
  | .uint n => Nat.repr n
  | .double d => d.text Double.general
  | .bool b => if b then "true" else "false"
  | .span n => Time.spanText n
  | .instant n => Time.formatTime milliLayout n
  | .severity n => pairText (commonName n)
  | .failure s => pairText s
  | .texts ss => pairText (Datum.bracketed ss)
  | .null => "<nil>"
  | .unworded => pairText ""
  | .group _ => ""

/-- A value in an object. -/
def objectValue : Datum → String
  | .text s => Text.recordLiteral s
  | .int i => Text.intText i
  | .uint n => Nat.repr n
  | .double d =>
    if d.isFinite then d.text Double.ofObjects
    else Text.recordLiteral ("!ERROR:json: unsupported value: " ++ d.text Double.general)
  | .bool b => if b then "true" else "false"
  | .span n => Text.intText n
  | .instant n => Text.recordLiteral (Time.formatTime preciseLayout n)
  | .severity n => Text.recordLiteral (commonName n)
  | .failure s => Text.recordLiteral s
  | .texts ss => "[" ++ ",".intercalate (ss.map Text.recordLiteral) ++ "]"
  | .null => "null"
  | .unworded => Text.recordLiteral ""
  | .group _ => ""

/-- A line being built. -/
structure Line where
  text : String := ""
  /-- What comes before the next key. -/
  gap : String := ""
  /-- What every key starts with. -/
  lead : String := ""
  deriving Repr, Inhabited

namespace Line

/-- What stands between two attributes. -/
def between : Plain → String
  | .pairs => " "
  | .object => ","

/-- Writes a key. -/
def key (form : Plain) (l : Line) (k : String) : Line :=
  let shown := match form with
    | .object => Text.recordLiteral (l.lead ++ k) ++ ":"
    | .pairs =>
      (if l.lead = "" then pairText k
        else if quotes l.lead || quotes k then Text.literal (l.lead ++ k)
        else l.lead ++ k) ++ "="
  { l with text := l.text ++ l.gap ++ shown, gap := between form }

/-- Starts a group. -/
def openGroup (form : Plain) (l : Line) (name : String) : Line :=
  match form with
  | .object =>
    let l := l.key form name
    { l with text := l.text ++ "\x7b", gap := "" }
  | .pairs => { l with lead := l.lead ++ name ++ "." }

/-- Ends a group. -/
def closeGroup (form : Plain) (l : Line) (name : String) : Line :=
  match form with
  | .object => { l with text := l.text ++ "\x7d", gap := between form }
  | .pairs =>
    { l with
      lead := String.ofList (l.lead.toList.take (l.lead.length - (name.length + 1)))
      gap := between form }

mutual

/-- Writes an attribute, and tells whether it counts as written. -/
def attr (form : Plain) (layout : String) (l : Line) (k : String) : Datum → Line × Bool
  | .group [] => (l, true)
  | .group (a :: as) =>
    let inner := if k = "" then l else l.openGroup form k
    let (inner, any) := attrs form layout inner (a :: as)
    if !any then ({ inner with text := l.text }, false)
    else (if k = "" then inner else inner.closeGroup form k, true)
  | d =>
    match replaced layout k d with
    | none => (l, false)
    | some d =>
      if saysNothing k d then (l, false)
      else
        let l := l.key form k
        let value := match form with
          | .pairs => pairValue d
          | .object => objectValue d
        ({ l with text := l.text ++ value }, true)
termination_by structural d => d

/-- Writes attributes, and tells whether any counts as written. -/
def attrs (form : Plain) (layout : String) (l : Line) : List (String × Datum) → Line × Bool
  | [] => (l, false)
  | (k, d) :: rest =>
    let (l, one) := attr form layout l k d
    let (l, others) := attrs form layout l rest
    (l, one || others)
termination_by structural as => as

end

end Line

/-- What plain records of one logger share. -/
structure PlainState where
  form : Plain
  /-- The groups that later attributes belong to. -/
  groups : List String := []
  /-- How many of them are open in `bound`. -/
  opened : Nat := 0
  lead : String := ""
  /-- The attributes of every record, written. -/
  bound : String := ""
  deriving Repr, Inhabited

namespace PlainState

/-- Whether no gap is due behind the bound attributes. -/
def gapAfter (s : PlainState) : String :=
  if s.form = .object && s.bound.endsWith "\x7b" then "" else Line.between s.form

/-- Whether the attribute is a group without members. -/
def isEmptyGroup (a : Attr) : Bool :=
  match a.2 with
  | .group [] => true
  | _ => false

/-- Adds attributes to every later record. -/
def bind (layout : String) (s : PlainState) (as : List Attr) : PlainState :=
  if as.all isEmptyGroup then s
  else
    let l : Line := ⟨s.bound, if s.bound = "" then "" else s.gapAfter, s.lead⟩
    let l := (s.groups.drop s.opened).foldl (Line.openGroup s.form) l
    let (l, any) := Line.attrs s.form layout l as
    if any then { s with bound := l.text, lead := l.lead, opened := s.groups.length }
    else s

/-- Opens a group for every later attribute. -/
def group (s : PlainState) (name : String) : PlainState :=
  { s with groups := s.groups ++ [name] }

/-- The line of a record, whose first attributes `head` stand outside all groups. -/
def line (layout : String) (s : PlainState) (head as : List Attr) : String :=
  let start : Line := { text := if s.form = .object then "\x7b" else "" }
  let l := (Line.attrs s.form layout start head).1
  let l : Line :=
    if s.bound = "" then l
    else { l with text := l.text ++ l.gap ++ s.bound, gap := s.gapAfter }
  let (l, opened) :=
    if as.isEmpty then (l, s.opened)
    else
      let inner := (s.groups.drop s.opened).foldl (Line.openGroup s.form)
        { l with lead := l.lead ++ s.lead }
      let (inner, any) := Line.attrs s.form layout inner as
      if any then (inner, s.groups.length) else (l, s.opened)
  let close := match s.form with
    | .object => String.ofList (List.replicate (opened + 1) '\x7d')
    | .pairs => ""
  l.text ++ close ++ "\n"

end PlainState

end Lowlang.Log
