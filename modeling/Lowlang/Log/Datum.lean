import Lowlang.Attr
import Lowlang.Log.Level
import Lowlang.Time.Layout
import Lowlang.Time.Span

set_option autoImplicit false

/-!
# The texts of log values

Each format writes the values of attributes in its own way.  What they share is here: the
plain text of a value, the clock that writes the time of records, and what becomes of the
attributes named for time and severity.
-/

namespace Lowlang

namespace Log

/-! ## Clocks -/

/-- Layouts known by name; an empty one writes nothing. -/
def namedLayouts : List (String × String) :=
  [("rfc3339", "2006-01-02T15:04:05Z07:00"),
    ("rfc3339nano", "2006-01-02T15:04:05.999999999Z07:00"),
    ("ansic", "Mon Jan _2 15:04:05 2006"),
    ("unixdate", "Mon Jan _2 15:04:05 MST 2006"),
    ("rubydate", "Mon Jan 02 15:04:05 -0700 2006"),
    ("rfc822", "02 Jan 06 15:04 MST"),
    ("rfc822z", "02 Jan 06 15:04 -0700"),
    ("rfc850", "Monday, 02-Jan-06 15:04:05 MST"),
    ("kitchen", "3:04PM"),
    ("datetime", "2006-01-02 15:04:05"),
    ("timeonly", "15:04:05"),
    ("stamp", "Jan _2 15:04:05"),
    ("none", ""),
    ("stampmilli", "Jan _2 15:04:05.000"), ("ms", "Jan _2 15:04:05.000"),
    ("stampmicro", "Jan _2 15:04:05.000000"), ("us", "Jan _2 15:04:05.000000"),
    ("stampnano", "Jan _2 15:04:05.000000000"), ("ns", "Jan _2 15:04:05.000000000")]

/-- The layout that a text asks for: a known name in any case and with any marks in it, or
the text itself.  A text without letters and digits asks for none. -/
def layoutOf (text : String) : String :=
  let key := String.ofList ((text.toList.map Text.toLowerAscii).filter fun c =>
    ('a' ≤ c && c ≤ 'z') || ('0' ≤ c && c ≤ '9'))
  if key = "" then "" else (namedLayouts.lookup key).getD text

/-- The layout used when none is chosen. -/
def defaultLayout : String := layoutOf "rfc3339"

/-- An instant as a text asks for it. -/
def clock (text : String) (nanos : Int) : String :=
  Time.formatTime (layoutOf text) nanos

/-! ## Severities -/

/-- The common name of a severity, which knows no name below debugging. -/
def commonName (n : Int) : String :=
  let shown (base : String) (distance : Int) : String :=
    if distance = 0 then base else base ++ Level.signed distance
  if n < 0 then shown "DEBUG" (n + 4)
  else if n < 4 then shown "INFO" n
  else if n < 8 then shown "WARN" (n - 4)
  else shown "ERROR" (n - 8)

/-! ## Special attributes -/

/-- The key of the time of a record. -/
def timeKey : String := "time"

/-- The key of the severity of a record. -/
def levelKey : String := "level"

/-- The key of the message of a record. -/
def messageKey : String := "msg"

/-- The key of the place a record was made at. -/
def sourceKey : String := "source"

/-- What becomes of a value under a key: instants named for time are written by the clock,
or dropped when it writes nothing, and severities named for it show their label. -/
def replaced (layout key : String) (d : Datum) : Option Datum :=
  match d with
  | .instant n =>
    if key = timeKey then
      let t := Time.formatTime layout n
      if t = "" then none else some (.text t)
    else some d
  | .severity n => some (if key = levelKey then .text (Level.shown ⟨n⟩) else d)
  | d => some d

/-- Whether an attribute says nothing: it has neither key nor value. -/
def saysNothing (key : String) (d : Datum) : Bool :=
  match d with
  | .null => key = ""
  | _ => false

end Log

namespace Datum

/-- A list of texts between brackets. -/
def bracketed (ss : List String) : String :=
  "[" ++ " ".intercalate ss ++ "]"

end Datum

/-- An attribute as it is handed over: its value may be a group from the start, or only show that
it is one when it is written. -/
structure Given where
  attr : Attr
  grouped : Bool := false
  deriving Repr, Inhabited

namespace Given

/-- Whether the attribute is a group from the start that has no members. -/
def isVacant (g : Given) : Bool :=
  match g.attr.2 with
  | .group [] => g.grouped
  | _ => false

/-- The attributes that are kept of those handed over: all but groups without members. -/
def kept (gs : List Given) : List Attr :=
  (gs.filter fun g => !g.isVacant).map Given.attr

/-- A group of the attributes that are handed over for it. -/
def group (key : String) (members : List Given) : Given :=
  ⟨.group key (kept members), true⟩

end Given

end Lowlang
