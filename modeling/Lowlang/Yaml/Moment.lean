import Lowlang.Text.Quoted
import Lowlang.Yaml.Timestamp

set_option autoImplicit false

/-!
# Moments

The values of timestamps: a date and a time of day at some distance from universal time.
A moment is read from a date alone, from a date and a time of day, or from both with a zone;
months, days, hours, minutes and seconds may have one digit.
-/

namespace Lowlang.Yaml

/-- A date, a time of day and the distance from universal time. -/
structure Moment where
  year : Nat
  month : Nat
  day : Nat
  hour : Nat := 0
  minute : Nat := 0
  second : Nat := 0
  /-- Nanoseconds. -/
  nano : Nat := 0
  /-- Minutes ahead of universal time. -/
  ahead : Int := 0
  deriving DecidableEq, Repr, Inhabited

namespace Moment

/-- The first day of the calendar, which stands for a moment that cannot be read. -/
def first : Moment := { year := 1, month := 1, day := 1 }

/-! ## Reading -/

/-- Reads a date. -/
def date (s : List Char) : Option (Moment × List Char) := do
  let year := s.take 4
  if year.length < 4 || !year.all Char.isDigit then none
  let rest ← Timestamp.expect '-' (s.drop 4)
  let (month, rest) ← Timestamp.number false rest
  if month = 0 || 12 < month then none
  let rest ← Timestamp.expect '-' rest
  let (day, rest) ← Timestamp.number false rest
  let year := Double.natOfDigits year
  if day = 0 || Timestamp.daysIn year month < day then none
  some ({ year := year, month := month, day := day }, rest)

/-- Reads a number below a bound. -/
def below (bound : Nat) (s : List Char) : Option (Nat × List Char) := do
  let (n, rest) ← Timestamp.number false s
  if n < bound then some (n, rest) else none

/-- Reads the digits of a fraction of a second; those behind the ninth do not count. -/
def fraction : List Char → Nat × List Char
  | c :: d :: rest =>
    if (c = '.' || c = ',') && d.isDigit then
      let ds := (d :: rest.takeWhile Char.isDigit).take 9
      (Double.natOfDigits ds * 10 ^ (9 - ds.length), rest.dropWhile Char.isDigit)
    else (0, c :: d :: rest)
  | s => (0, s)

/-- Reads a time of day. -/
def clock (m : Moment) (s : List Char) : Option (Moment × List Char) := do
  let (hour, rest) ← below 24 s
  let rest ← Timestamp.expect ':' rest
  let (minute, rest) ← below 60 rest
  let rest ← Timestamp.expect ':' rest
  let (second, rest) ← below 60 rest
  let (nano, rest) := fraction rest
  some ({ m with hour := hour, minute := minute, second := second, nano := nano }, rest)

/-- Reads the distance from universal time. -/
def zone (m : Moment) : List Char → Option (Moment × List Char)
  | 'Z' :: rest => some (m, rest)
  | c :: rest =>
    if c = '+' || c = '-' then do
      let (hours, rest) ← Timestamp.number true rest
      let rest ← Timestamp.expect ':' rest
      let (minutes, rest) ← Timestamp.number true rest
      if 24 < hours || 60 < minutes then none
      let ahead : Int := (hours * 60 + minutes : Nat)
      some ({ m with ahead := if c = '-' then -ahead else ahead }, rest)
    else none
  | [] => none

/-- The moment that all of a text spells. -/
def read? (s : String) : Option Moment := do
  let (m, rest) ← date s.toList
  match rest with
  | [] => some m
  | c :: rest =>
    if c = 'T' || c = 't' then
      let (m, rest) ← clock m rest
      let (m, rest) ← zone m rest
      if rest.isEmpty then some m else none
    else if c = ' ' then
      let (m, rest) ← clock m (rest.dropWhile (· == ' '))
      if rest.isEmpty then some m else none
    else none

/-- The moment that a text spells, or else the first one. -/
def ofText (s : String) : Moment :=
  (read? s).getD first

/-! ## Writing -/

/-- A number with at least `width` digits. -/
def padded (width n : Nat) : String :=
  let ds := Nat.toDigits 10 n
  String.ofList (List.replicate (width - ds.length) '0' ++ ds)

/-- The fraction of a second behind its point, without zeros at the end. -/
def fractionText (nano : Nat) : String :=
  if nano = 0 then ""
  else
    let ds := (padded 9 nano).toList.reverse.dropWhile (· == '0')
    "." ++ String.ofList ds.reverse

/-- The date. -/
def dateText (m : Moment) : String :=
  padded 4 m.year ++ "-" ++ padded 2 m.month ++ "-" ++ padded 2 m.day

/-- The time of day. -/
def clockText (m : Moment) : String :=
  padded 2 m.hour ++ ":" ++ padded 2 m.minute ++ ":" ++ padded 2 m.second
    ++ fractionText m.nano

/-- The distance from universal time, with `mark` between hours and minutes. -/
def zoneText (mark : String) (m : Moment) : String :=
  let n := m.ahead.natAbs
  (if m.ahead < 0 then "-" else "+") ++ padded 2 (n / 60) ++ mark ++ padded 2 (n % 60)

/-- A moment printed for people: date, time of day, zone and the name of the zone, which is
the zone itself unless it is universal time. -/
def shown (m : Moment) : String :=
  m.dateText ++ " " ++ m.clockText ++ " " ++ m.zoneText "" ++ " "
    ++ (if m.ahead = 0 then "UTC" else m.zoneText "")

/-- A moment in the notation for exchange; none when the zone is a day or more away. -/
def exchanged (m : Moment) : Option String :=
  if 24 * 60 ≤ m.ahead.natAbs then none
  else
    some (m.dateText ++ "T" ++ m.clockText ++ (if m.ahead = 0 then "Z" else m.zoneText ":"))

end Moment

end Lowlang.Yaml
