import Lowlang.Text.Quoted

set_option autoImplicit false

/-!
# Binary floating-point numbers

Numbers `± m · 2 ^ e` with `m < 2 ^ 53` and `-1074 ≤ e`, the two infinities and the
undefined number.  They are read from decimal text by rounding to the nearest, ties going
to an even `m`, and written with the fewest decimal digits that read back.  Everything is
exact arithmetic on natural numbers.
-/

-- A power of whole numbers is that of the core library, also where others are in sight.
attribute [instance (high), default_instance (20000)] instPowNat

namespace Lowlang

/-- A floating-point number of 64 bits. -/
inductive Double where
  /-- `m · 2 ^ e`, negated when `negative`. -/
  | finite (negative : Bool) (m : Nat) (e : Int)
  /-- Beyond every finite number. -/
  | infinite (negative : Bool)
  /-- No number. -/
  | undefined
  deriving DecidableEq, Repr, Inhabited

namespace Double

/-! ## Reading -/

/-- `num / den` rounded to the nearest natural number, a half going to the even one. -/
def roundDiv (num den : Nat) : Nat :=
  let q := num / den
  let r := num % den
  if den < 2 * r || (2 * r = den && q % 2 = 1) then q + 1 else q

/-- The power `2 ^ e` as a fraction. -/
def scale2 (num den : Nat) (e : Int) : Nat × Nat :=
  if 0 ≤ e then (num, den * 2 ^ e.toNat) else (num * 2 ^ (-e).toNat, den)

/-- The number nearest to the positive fraction `num / den`. -/
def ofFraction (negative : Bool) (num den : Nat) : Double :=
  if num = 0 then .finite negative 0 (-1074)
  else
    -- the exponent that leaves a quotient of 53 bits, but never below the least one
    let guess : Int := (Nat.log2 num : Int) - (Nat.log2 den : Int) - 52
    let fits (e : Int) : Bool := let (n, d) := scale2 num den e; n / d < 2 ^ 53
    let e := if fits (guess - 1) then guess - 1 else if fits guess then guess else guess + 1
    let e := max e (-1074)
    let (n, d) := scale2 num den e
    let m := roundDiv n d
    let (m, e) := if m = 2 ^ 53 then (2 ^ 52, e + 1) else (m, e)
    if 971 < e then .infinite negative else .finite negative m e

/-- The number nearest to `digits · 10 ^ exp`. -/
def ofDecimal (negative : Bool) (digits : Nat) (exp : Int) : Double :=
  if digits = 0 then .finite negative 0 (-1074)
  else if 400 < exp then .infinite negative
  else if exp + ((Nat.toDigits 10 digits).length : Int) < -400 then .finite negative 0 (-1074)
  else if 0 ≤ exp then ofFraction negative (digits * 10 ^ exp.toNat) 1
  else ofFraction negative digits (10 ^ (-exp).toNat)

/-- The natural number written by decimal digits. -/
def natOfDigits (ds : List Char) : Nat :=
  ds.foldl (fun n c => n * 10 + (c.toNat - 0x30)) 0

/-- The exponent part of a number: nothing, or the mark in either case, an optional sign and
digits. -/
def readExponent (mark : Char) : List Char → Option Int
  | [] => some 0
  | c :: rest =>
    if c.toLower = mark then
      let (negative, ds) := match rest with
        | '-' :: ds => (true, ds)
        | '+' :: ds => (false, ds)
        | ds => (false, ds)
      if ds.isEmpty || !ds.all Char.isDigit then none
      else
        let n : Int := min (natOfDigits ds) 100000
        some (if negative then -n else n)
    else none

/-- Digits with an optional point among them: the digits before it, those behind it, and
the rest. -/
def readMantissa (digit : Char → Bool) (s : List Char) : List Char × List Char × List Char :=
  let whole := s.takeWhile digit
  match s.dropWhile digit with
  | '.' :: r => (whole, r.takeWhile digit, r.dropWhile digit)
  | r => (whole, [], r)

/-- Reads decimal digits with an optional point and an optional exponent. -/
def readUnsigned (negative : Bool) (s : List Char) : Option Double :=
  let (whole, part, rest) := readMantissa Char.isDigit s
  if whole.isEmpty && part.isEmpty then none
  else
    (readExponent 'e' rest).map fun e =>
      ofDecimal negative (natOfDigits (whole ++ part)) (e - (part.length : Int))

/-- Whether a character is a hexadecimal digit. -/
def isHexDigit (c : Char) : Bool :=
  (Text.hexValue c).isSome

/-- The natural number written by hexadecimal digits. -/
def natOfHexDigits (ds : List Char) : Nat :=
  ds.foldl (fun n c => n * 16 + (Text.hexValue c).getD 0) 0

/-- The number nearest to `m · 2 ^ e`. -/
def ofBinary (negative : Bool) (m : Nat) (e : Int) : Double :=
  if 0 ≤ e then ofFraction negative (m * 2 ^ e.toNat) 1
  else ofFraction negative m (2 ^ (-e).toNat)

/-- Reads hexadecimal digits with an optional point and an exponent of two, which must not
be left out. -/
def readHex (negative : Bool) (s : List Char) : Option Double :=
  let (whole, part, rest) := readMantissa isHexDigit s
  if (whole.isEmpty && part.isEmpty) || rest.isEmpty then none
  else
    (readExponent 'p' rest).map fun e =>
      ofBinary negative (natOfHexDigits (whole ++ part)) (e - 4 * (part.length : Int))

/-- Whether every underscore stands between two digits; `after` tells that a digit was just
read. -/
def divides (digit : Char → Bool) (after : Bool) : List Char → Bool
  | [] => true
  | c :: rest =>
    if c = '_' then after && rest.head?.any digit && divides digit false rest
    else divides digit (digit c) rest

/-- Reads a number without its sign: hexadecimal behind `0x`, else decimal.  Underscores may
divide digits, and may stand behind the mark of the base. -/
def readLiteral (negative : Bool) (s : List Char) : Option Double :=
  let plain (ds : List Char) : List Char := ds.filter (· ≠ '_')
  match s with
  | '0' :: x :: ds =>
    if x = 'x' || x = 'X' then
      if divides isHexDigit true ds then readHex negative (plain ds) else none
    else if divides Char.isDigit false s then readUnsigned negative (plain s) else none
  | s => if divides Char.isDigit false s then readUnsigned negative (plain s) else none

/-- Reads a number with an optional sign, or the name of a special one. -/
def read (s : List Char) : Option Double :=
  let (negative, body) := match s with
    | '-' :: r => (true, r)
    | '+' :: r => (false, r)
    | r => (false, r)
  let word := String.ofList (body.map Char.toLower)
  if word = "inf" || word = "infinity" then some (.infinite negative)
  else if word = "nan" && body.length = s.length then some .undefined
  else readLiteral negative body

/-- Whether the number is finite. -/
def isFinite : Double → Bool
  | .finite _ _ _ => true
  | _ => false

/-! ## Writing -/

/-- Whether `10 ^ p ≤ m · 2 ^ e`. -/
def reaches (m : Nat) (e : Int) (p : Int) : Bool :=
  10 ^ p.toNat * 2 ^ (-e).toNat ≤ m * 2 ^ e.toNat * 10 ^ (-p).toNat

/-- Counts up from `p` while the next power of ten is still reached. -/
def climb (m : Nat) (e : Int) : Nat → Int → Int
  | 0, p => p
  | n + 1, p => if reaches m e (p + 1) then climb m e n (p + 1) else p

/-- The greatest `p` with `10 ^ p ≤ m · 2 ^ e`, searched upwards from a low guess. -/
def decimalExponent (m : Nat) (e : Int) : Int :=
  climb m e 4 (((Nat.log2 m : Int) + e) * 30103 / 100000 - 1)

/-- Whether `k · 10 ^ p` reads back as `m · 2 ^ e`: it lies between the midpoints to the
neighbouring numbers, which themselves count when `m` is even. -/
def readsBack (m : Nat) (e : Int) (k : Nat) (p : Int) : Bool :=
  let low := if m = 2 ^ 52 && -1074 < e then 4 * m - 1 else 4 * m - 2
  let high := 4 * m + 2
  let sideA := k * 10 ^ p.toNat * 2 ^ (-(e - 2)).toNat
  let unit := 2 ^ (e - 2).toNat * 10 ^ (-p).toNat
  if m % 2 = 0 then low * unit ≤ sideA && sideA ≤ high * unit
  else low * unit < sideA && sideA < high * unit

/-- The decimal with the fewest digits that reads back as `m · 2 ^ e`, as digits and the
power of ten of the last digit; of two such decimals the nearer one. -/
def shortest (m : Nat) (e : Int) : Nat × Int :=
  let top := decimalExponent m e
  search top 17 1
where
  /-- Tries `n` digits, then more. -/
  search (top : Int) : Nat → Nat → Nat × Int
    | 0, _ => (0, 0)
    | more + 1, n =>
      let p : Int := top - (n : Int) + 1
      let num := m * 2 ^ e.toNat * 10 ^ (-p).toNat
      let den := 2 ^ (-e).toNat * 10 ^ p.toNat
      let a := num / den
      let lowOk := readsBack m e a p
      let highOk := readsBack m e (a + 1) p
      if lowOk && highOk then
        let r := num % den
        if 2 * r < den || (2 * r = den && a % 2 = 0) then (a, p) else (a + 1, p)
      else if lowOk then (a, p)
      else if highOk then (a + 1, p)
      else search top more (n + 1)

/-- `n` without trailing zeros, with the power of ten moved accordingly. -/
def stripZeros : Nat → Nat → Int → Nat × Int
  | 0, n, p => (n, p)
  | fuel + 1, n, p => if n ≠ 0 && n % 10 = 0 then stripZeros fuel (n / 10) (p + 1) else (n, p)

/-- The significant digits of a finite number and the position of the decimal point
relative to the first of them. -/
def digits (m : Nat) (e : Int) : List Char × Int :=
  if m = 0 then (['0'], 1)
  else
    let (n, p) := shortest m e
    let (n, p) := stripZeros 20 n p
    let ds := Nat.toDigits 10 n
    (ds, (ds.length : Int) + p)

/-- Digits with the point after the first `point` of them, zeros filling the gaps. -/
def positional (ds : List Char) (point : Int) : List Char :=
  if point ≤ 0 then '0' :: '.' :: List.replicate (-point).toNat '0' ++ ds
  else if (ds.length : Int) ≤ point then ds ++ List.replicate (point.toNat - ds.length) '0'
  else ds.take point.toNat ++ '.' :: ds.drop point.toNat

/-- One digit, the point, the other digits, and the exponent with its sign and at least
`width` digits. -/
def scientific (width : Nat) (ds : List Char) (point : Int) : List Char :=
  let mantissa := match ds with
    | [] => []
    | [d] => [d]
    | d :: rest => d :: '.' :: rest
  let x := point - 1
  let xs := Nat.toDigits 10 x.natAbs
  mantissa ++ 'e' :: (if x < 0 then '-' else '+')
    :: (List.replicate (width - xs.length) '0' ++ xs)

/-- When a format writes numbers with an exponent, and how wide that is at least. -/
structure Style where
  /-- Exponents below this are written out. -/
  least : Int
  /-- Exponents from this on are written out. -/
  bound : Int
  /-- Least digits of the exponent. -/
  width : Nat

/-- General notation: exponents below -4 and from 6 on, of two digits. -/
def general : Style := ⟨-4, 6, 2⟩

/-- Positional notation at every size. -/
def fixed : Style := ⟨-100000, 100000, 2⟩

/-- The notation of objects: exponents below -6 and from 21 on. -/
def ofObjects : Style := ⟨-6, 21, 1⟩

/-- The text of a number in the given notation. -/
def text (style : Style) : Double → String
  | .undefined => "NaN"
  | .infinite negative => if negative then "-Inf" else "+Inf"
  | .finite negative m e =>
    let (ds, point) := digits m e
    let body :=
      if m ≠ 0 && (point - 1 < style.least || style.bound ≤ point - 1) then
        scientific style.width ds point
      else positional ds point
    String.ofList (if negative then '-' :: body else body)

end Double

end Lowlang
