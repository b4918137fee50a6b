import Lowlang.Text.Chars
import Lowlang.Time.Civil

set_option autoImplicit false

/-!
# Time layouts

A layout shows how a fixed moment would be written: Monday, the second of January 2006, four
minutes and five seconds past three in the afternoon.  Whatever part of that moment it shows
is replaced by the same part of the instant to be written; all else stays.
-/

namespace Lowlang.Time

/-- A part of an instant, with the shape to write it in. -/
inductive Field where
  | longMonth | shortMonth | month | zeroMonth
  | longWeekday | shortWeekday
  | day | blankDay | zeroDay
  | zeroYearDay | blankYearDay
  | hour | hour12 | zeroHour12
  | minute | zeroMinute | second | zeroSecond
  | longYear | shortYear
  | upperHalf | lowerHalf
  | zone
  /-- The distance from universal time, in as many parts, with colons or not. -/
  | offset (parts : Nat) (colons : Bool)
  /-- The distance from universal time, a letter standing for none. -/
  | letterOffset
  /-- A fraction of a second, with all its digits or without the zeros at its end. -/
  | fraction (mark : Char) (digits : Nat) (all : Bool)
  deriving DecidableEq, Repr

/-- Whether a lower-case letter is next. -/
def startsLower (s : List Char) : Bool :=
  s.head?.any fun c => 'a' ≤ c && c ≤ 'z'

/-- The fields spelled by fixed words, longer words first; `true` marks those that no
lower-case letter may follow. -/
def words : List (String × Field × Bool) :=
  [("January", .longMonth, false), ("Jan", .shortMonth, true),
    ("Monday", .longWeekday, false), ("Mon", .shortWeekday, true), ("MST", .zone, false),
    ("01", .zeroMonth, false), ("02", .zeroDay, false), ("03", .zeroHour12, false),
    ("04", .zeroMinute, false), ("05", .zeroSecond, false), ("06", .shortYear, false),
    ("002", .zeroYearDay, false),
    ("15", .hour, false), ("1", .month, false), ("2006", .longYear, false), ("2", .day, false),
    ("_2", .blankDay, false), ("__2", .blankYearDay, false),
    ("3", .hour12, false), ("4", .minute, false), ("5", .second, false),
    ("PM", .upperHalf, false), ("pm", .lowerHalf, false),
    ("-070000", .offset 3 false, false), ("-07:00:00", .offset 3 true, false),
    ("-0700", .offset 2 false, false), ("-07:00", .offset 2 true, false),
    ("-07", .offset 1 false, false),
    ("Z070000", .letterOffset, false), ("Z07:00:00", .letterOffset, false),
    ("Z0700", .letterOffset, false), ("Z07:00", .letterOffset, false),
    ("Z07", .letterOffset, false)]

/-- The fraction of a second that starts here: a mark and a row of zeros or nines that no
further digit follows. -/
def fractionAt (s : List Char) : Option (Field × Nat) :=
  match s with
  | mark :: d :: _ =>
    if (mark = '.' || mark = ',') && (d = '0' || d = '9') then
      let row := (s.drop 1).takeWhile (· = d)
      let next := (s.drop (1 + row.length)).head?
      if next.any Char.isDigit then none
      else some (.fraction mark row.length (d = '0'), 1 + row.length)
    else none
  | _ => none

/-- The field that starts here, and how many characters spell it.  A blank mark before the
long year stands for itself. -/
def fieldAt (s : List Char) : Option (Field × Nat) :=
  let word := words.find? fun w =>
    match Text.stripLead w.1.toList s with
    | some rest => !(w.2.2 && startsLower rest)
    | none => false
  match word with
  | some (text, .blankDay, _) =>
    if (Text.stripLead "_2006".toList s).isSome then none else some (.blankDay, text.length)
  | some (text, f, _) => some (f, text.length)
  | none => fractionAt s

/-- The names of the months. -/
def monthNames : List String :=
  ["January", "February", "March", "April", "May", "June", "July", "August", "September",
    "October", "November", "December"]

/-- The names of the days. -/
def weekdayNames : List String :=
  ["Sunday", "Monday", "Tuesday", "Wednesday", "Thursday", "Friday", "Saturday"]

/-- A number with at least `width` characters, `fill` before it. -/
def padded (fill : Char) (width n : Nat) : List Char :=
  let ds := Nat.toDigits 10 n
  List.replicate (width - ds.length) fill ++ ds

/-- The hour on the face of a clock. -/
def clockHour (hour : Nat) : Nat :=
  if hour % 12 = 0 then 12 else hour % 12

/-- A fraction of a second. -/
def fractionText (mark : Char) (digits : Nat) (all : Bool) (nano : Nat) : List Char :=
  let ds := (padded '0' 9 nano).take digits
  if all then mark :: ds
  else
    let shown := (ds.reverse.dropWhile (· = '0')).reverse
    if shown.isEmpty then [] else mark :: shown

/-- A field of an instant in universal time. -/
def Civil.field (t : Civil) : Field → List Char
  | .longMonth => (monthNames.getD (t.month - 1) "").toList
  | .shortMonth => (monthNames.getD (t.month - 1) "").toList.take 3
  | .month => padded '0' 1 t.month
  | .zeroMonth => padded '0' 2 t.month
  | .longWeekday => (weekdayNames.getD t.weekday "").toList
  | .shortWeekday => (weekdayNames.getD t.weekday "").toList.take 3
  | .day => padded '0' 1 t.day
  | .blankDay => padded ' ' 2 t.day
  | .zeroDay => padded '0' 2 t.day
  | .zeroYearDay => padded '0' 3 t.yearDay
  | .blankYearDay => padded ' ' 3 t.yearDay
  | .hour => padded '0' 2 t.hour
  | .hour12 => padded '0' 1 (clockHour t.hour)
  | .zeroHour12 => padded '0' 2 (clockHour t.hour)
  | .minute => padded '0' 1 t.minute
  | .zeroMinute => padded '0' 2 t.minute
  | .second => padded '0' 1 t.second
  | .zeroSecond => padded '0' 2 t.second
  | .longYear => (if t.year < 0 then ['-'] else []) ++ padded '0' 4 t.year.natAbs
  | .shortYear => padded '0' 2 (t.year.natAbs % 100)
  | .upperHalf => if 12 ≤ t.hour then ['P', 'M'] else ['A', 'M']
  | .lowerHalf => if 12 ≤ t.hour then ['p', 'm'] else ['a', 'm']
  | .zone => ['U', 'T', 'C']
  | .offset parts colons =>
    '+' :: (if colons then [':'] else []).intercalate (List.replicate parts ['0', '0'])
  | .letterOffset => ['Z']
  | .fraction mark digits all => fractionText mark digits all t.nano

/-- Writes an instant after a layout, of which `used` characters belong to the field
before. -/
def Civil.write (t : Civil) : Nat → List Char → List Char
  | _, [] => []
  | used + 1, _ :: rest => t.write used rest
  | 0, c :: rest =>
    match fieldAt (c :: rest) with
    | some (f, n) => t.field f ++ t.write (n - 1) rest
    | none => c :: t.write 0 rest

/-- An instant after a layout, in universal time. -/
def formatTime (layout : String) (nanos : Int) : String :=
  String.ofList ((Civil.ofNanos nanos).write 0 layout.toList)

end Lowlang.Time
