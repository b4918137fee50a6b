import Lowlang.Text.Quoted

set_option autoImplicit false

/-!
# Spans of time

A span is written in hours, minutes and seconds, or below a second in the greatest unit
that keeps it above one.
-/

namespace Lowlang.Time

/-- A number of units with the part below one, `unit` being ten to the power `places`; what
is zero at the end is left out. -/
def withFraction (n unit places : Nat) : String :=
  let ds := Nat.toDigits 10 (n % unit)
  let ds := List.replicate (places - ds.length) '0' ++ ds
  let shown := (ds.reverse.dropWhile (· = '0')).reverse
  Nat.repr (n / unit)
    ++ (if n % unit = 0 then "" else "." ++ String.ofList shown)

/-- The text of a span without its sign. -/
def spanSize (n : Nat) : String :=
  if n = 0 then "0s"
  else if n < 1000 then Nat.repr n ++ "ns"
  else if n < 1000000 then withFraction n 1000 3 ++ "µs"
  else if n < 1000000000 then withFraction n 1000000 6 ++ "ms"
  else
    let seconds := n / 1000000000
    let minutes := seconds / 60
    let rest := withFraction (n - minutes * 60 * 1000000000) 1000000000 9 ++ "s"
    if minutes = 0 then rest
    else if minutes < 60 then Nat.repr minutes ++ "m" ++ rest
    else Nat.repr (minutes / 60) ++ "h" ++ Nat.repr (minutes % 60) ++ "m" ++ rest

/-- The text of a span in nanoseconds. -/
def spanText (nanos : Int) : String :=
  (if nanos < 0 then "-" else "") ++ spanSize nanos.natAbs

end Lowlang.Time
