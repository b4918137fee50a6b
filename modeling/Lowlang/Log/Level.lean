import Lowlang.Text.Quoted

set_option autoImplicit false

/-!
# Severities and formats of log records

Severities are integers, five of which have names.  Every severity has a label relative to
the nearest name below it, or to the lowest one.  Labels are read back as names with distances,
except that the lowest name is known only without a distance.
-/

namespace Lowlang.Log

/-- How severe a record is; greater is worse. -/
structure Level where
  number : Int
  deriving DecidableEq, Repr, Inhabited

namespace Level

def trace : Level := ⟨-8⟩
def debug : Level := ⟨-4⟩
def info : Level := ⟨0⟩
def warn : Level := ⟨4⟩
def error : Level := ⟨8⟩

/-- The level used when none is chosen. -/
def default : Level := info

/-- The named levels with their names, least severe first. -/
def named : List (Level × String) :=
  [(trace, "trace"), (debug, "debug"), (info, "info"), (warn, "warn"), (error, "error")]

/-- The names of the named levels. -/
def names : List String :=
  named.map Prod.snd

/-- The name of a level, or its number when it has none. -/
def name (l : Level) : String :=
  match named.find? fun p => p.1 = l with
  | some p => p.2
  | none => "Level(" ++ Text.intText l.number ++ ")"

/-- The named level nearest below `l`, or the lowest one. -/
def base (l : Level) : Level × String :=
  if 8 ≤ l.number then (error, "error")
  else if 4 ≤ l.number then (warn, "warn")
  else if 0 ≤ l.number then (info, "info")
  else if -4 ≤ l.number then (debug, "debug")
  else (trace, "trace")

/-- An integer with its sign. -/
def signed (n : Int) : String :=
  if 0 ≤ n then "+" ++ Text.intText n else Text.intText n

/-- The label of a level: the name below it and the distance from that. -/
def label (l : Level) : String :=
  let (b, n) := l.base
  if l = b then n else n ++ signed (l.number - b.number)

/-- The label in capitals, as records show it. -/
def shown (l : Level) : String :=
  l.label.map Char.toUpper

/-- The value of a sign followed by decimal digits, within 64 bits. -/
def offset (s : List Char) : Option Int :=
  let read (negative : Bool) (ds : List Char) : Option Int :=
    if ds.isEmpty || !ds.all Char.isDigit then none
    else
      let n : Int := (ds.foldl (fun n c => n * 10 + (c.toNat - 0x30)) 0 : Nat)
      let n := if negative then -n else n
      if -2 ^ 63 ≤ n ∧ n < 2 ^ 63 then some n else none
  match s with
  | '+' :: ds => read false ds
  | '-' :: ds => read true ds
  | _ => none

/-- A character in capitals; the dotless i and the long s have capitals inside ASCII. -/
def toUpperAscii (c : Char) : Char :=
  if c.toNat == 0x131 then 'I' else if c.toNat == 0x17F then 'S' else c.toUpper

/-- The level of a name with an optional signed offset, in any case and between blanks;
anything else is the default level. -/
def parse (s : String) : Level :=
  let t := Text.trim s.toList
  if t.map Char.toLower = "trace".toList then trace
  else
    let name := t.takeWhile fun c => c ≠ '+' && c ≠ '-'
    let rest := t.dropWhile fun c => c ≠ '+' && c ≠ '-'
    match (if rest.isEmpty then some 0 else offset rest) with
    | none => default
    | some n =>
      match named.find? fun p =>
        p.1 ≠ trace ∧ p.2.toList.map Char.toUpper = name.map toUpperAscii with
      | some p => ⟨Int.bmod (p.1.number + n) (2 ^ 64)⟩
      | none => default

end Level

/-- The shape of records. -/
inductive Format where
  | text
  | json
  /-- A number that names no format; such records are not written. -/
  | other (n : Int)
  deriving DecidableEq, Repr, Inhabited

namespace Format

/-- The format with number `n`. -/
def ofInt (n : Int) : Format :=
  if n = 0 then .text else if n = 1 then .json else .other n

/-- The name of a format. -/
def name : Format → String
  | .text => "text"
  | .json => "json"
  | .other n => "Format(" ++ Text.intText n ++ ")"

/-- The names of the formats. -/
def names : List String := ["text", "json"]

/-- The format of a name, in any case and between blanks; anything else is the default. -/
def parse (s : String) : Format :=
  if Text.lower (Text.trimSpace s) = "json" then .json else .text

end Format

end Lowlang.Log
