import Lowlang.Double
import Lowlang.Time.Civil

set_option autoImplicit false

/-!
# Timestamps

Which texts read as a date, a time of day, or both.  A writer quotes them, so that a reader
who knows timestamps takes them for text.
-/

namespace Lowlang.Yaml.Timestamp

/-- Reads one or two digits; only two when `fixed`. -/
def number (fixed : Bool) : List Char → Option (Nat × List Char)
  | a :: b :: rest =>
    if !a.isDigit then none
    else if b.isDigit then some (Double.natOfDigits [a, b], rest)
    else if fixed then none
    else some (Double.natOfDigits [a], b :: rest)
  | [a] => if a.isDigit && !fixed then some (Double.natOfDigits [a], []) else none
  | [] => none

/-- Reads a number below a bound. -/
def below (bound : Nat) (fixed : Bool) (s : List Char) : Option (List Char) :=
  match number fixed s with
  | some (n, rest) => if n < bound then some rest else none
  | none => none

/-- Reads one character. -/
def expect (c : Char) : List Char → Option (List Char)
  | d :: rest => if d = c then some rest else none
  | [] => none

/-- The days of a month. -/
def daysIn (year month : Nat) : Nat :=
  if month = 2 then (if Time.isLeap year then 29 else 28)
  else if month = 4 || month = 6 || month = 9 || month = 11 then 30
  else 31

/-- Reads a date: year, month and day. -/
def date (s : List Char) : Option (List Char) := do
  let year := s.take 4
  if year.length < 4 || !year.all Char.isDigit then none
  let rest ← expect '-' (s.drop 4)
  let (month, rest) ← number true rest
  if month = 0 || 12 < month then none
  let rest ← expect '-' rest
  let (day, rest) ← number true rest
  if day = 0 || daysIn (Double.natOfDigits year) month < day then none
  some rest

/-- Passes over a fraction of a second. -/
def fraction : List Char → List Char
  | c :: d :: rest =>
    if (c = '.' || c = ',') && d.isDigit then rest.dropWhile Char.isDigit else c :: d :: rest
  | s => s

/-- Reads a time of day with seconds. -/
def clock (s : List Char) : Option (List Char) := do
  let rest ← below 24 false s
  let rest ← expect ':' rest
  let rest ← below 60 true rest
  let rest ← expect ':' rest
  let rest ← below 60 true rest
  some (fraction rest)

/-- Reads the distance from universal time. -/
def zone : List Char → Option (List Char)
  | 'Z' :: rest => some rest
  | c :: rest =>
    if c = '+' || c = '-' then do
      let rest ← below 25 true rest
      let rest ← expect ':' rest
      below 61 true rest
    else none
  | [] => none

/-- A date and a time of day with a letter between them, and a zone. -/
def stamp (s : List Char) : Option (List Char) := do
  let rest ← date s
  let rest ← match rest with
    | 'T' :: rest => some rest
    | 't' :: rest => some rest
    | _ => none
  let rest ← clock rest
  zone rest

/-- A date and a time of day with a blank between them. -/
def dateAndClock (s : List Char) : Option (List Char) := do
  let rest ← date s
  let rest ← expect ' ' rest
  clock rest

/-- Hours and minutes. -/
def hourAndMinute (s : List Char) : Option (List Char) := do
  let rest ← below 24 false s
  let rest ← expect ':' rest
  below 60 false rest

/-- Whether all of a text is a timestamp. -/
def accepts (s : String) : Bool :=
  let cs := s.toList
  [stamp, dateAndClock, date, hourAndMinute].any fun form => form cs == some []

end Lowlang.Yaml.Timestamp
