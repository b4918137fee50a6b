set_option autoImplicit false

/-!
# Civil time

An instant is a number of nanoseconds since the start of 1970 in universal time, negative
before it.  Its civil reading divides it into the fields of the Gregorian calendar.
-/

namespace Lowlang.Time

/-- The fields of an instant. -/
structure Civil where
  year : Int
  /-- From one to twelve. -/
  month : Nat
  /-- From one on. -/
  day : Nat
  /-- Zero is Sunday. -/
  weekday : Nat
  /-- From one on. -/
  yearDay : Nat
  hour : Nat
  minute : Nat
  second : Nat
  nano : Nat
  deriving DecidableEq, Repr, Inhabited

/-- Nanoseconds of a second. -/
def nanosPerSecond : Int := 1000000000

/-- Seconds of a day. -/
def secondsPerDay : Int := 86400

/-- Days from the first of March of the year zero to the start of 1970. -/
def epochShift : Int := 719468

/-- Days of four hundred years. -/
def daysPerEra : Int := 146097

/-- Whether a year has a day more. -/
def isLeap (year : Int) : Bool :=
  year % 4 = 0 && (year % 100 ≠ 0 || year % 400 = 0)

/-- Year, month and day of a day counted from the start of 1970.  Counting from March puts
the day that leap years add at the end of a year. -/
def dateOf (days : Int) : Int × Nat × Nat :=
  let z := days + epochShift
  let era := z.fdiv daysPerEra
  let inEra := (z - era * daysPerEra).toNat
  let yearOfEra := (inEra - inEra / 1460 + inEra / 36524 - inEra / 146096) / 365
  let dayOfYear := inEra - (365 * yearOfEra + yearOfEra / 4 - yearOfEra / 100)
  let m := (5 * dayOfYear + 2) / 153
  let day := dayOfYear - (153 * m + 2) / 5 + 1
  let month := if m < 10 then m + 3 else m - 9
  let year : Int := yearOfEra + era * 400 + (if month ≤ 2 then 1 else 0)
  (year, month, day)

/-- Days before each month of a common year. -/
def daysBefore (month : Nat) : Nat :=
  [0, 31, 59, 90, 120, 151, 181, 212, 243, 273, 304, 334].getD (month - 1) 0

/-- The civil reading of an instant. -/
def Civil.ofNanos (nanos : Int) : Civil :=
  let seconds := nanos.fdiv nanosPerSecond
  let days := seconds.fdiv secondsPerDay
  let ofDay := (seconds - days * secondsPerDay).toNat
  let (year, month, day) := dateOf days
  { year := year
    month := month
    day := day
    weekday := ((days + 4).fmod 7).toNat
    yearDay := daysBefore month + day + (if 2 < month && isLeap year then 1 else 0)
    hour := ofDay / 3600
    minute := ofDay / 60 % 60
    second := ofDay % 60
    nano := (nanos - seconds * nanosPerSecond).toNat }

end Lowlang.Time
