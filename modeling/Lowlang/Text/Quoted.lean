import Lowlang.Text.Chars
import Lowlang.Text.Runes

set_option autoImplicit false

/-!
# Quoted text

Text between double quotes, in the three spellings the library writes.  Each spelling is
a function from one character to what stands for it, so a quoted text is the two quotes
around the concatenation of the spellings of its characters.  Script literals also spell
strings with bytes that are part of no character, all of them alike.

* `literalChar` is the spelling of expression literals and of reports: it shows every
  printable character as itself and escapes all others.
* `scriptChar` is the spelling of string literals in generated scripts: besides control
  characters it escapes the three characters that would matter inside markup.
* `recordChar` is the spelling of strings in one-line log objects.
-/

namespace Lowlang.Text

/-- The hexadecimal digit of `n < 16`, in lower case. -/
def hexDigit (n : Nat) : Char :=
  if n < 10 then Char.ofNat (0x30 + n) else Char.ofNat (0x57 + n)

/-- The lowest `width` hexadecimal digits of `n`, highest first. -/
def hexDigits : Nat → Nat → List Char
  | 0, _ => []
  | width + 1, n => hexDigits width (n / 16) ++ [hexDigit (n % 16)]

/-- The value of a hexadecimal digit of either case. -/
def hexValue (c : Char) : Option Nat :=
  let n := c.toNat
  if 0x30 ≤ n && n ≤ 0x39 then some (n - 0x30)
  else if 0x61 ≤ n && n ≤ 0x66 then some (n - 0x57)
  else if 0x41 ≤ n && n ≤ 0x46 then some (n - 0x37)
  else none

/-- How an expression literal spells `c`. -/
def literalChar (c : Char) : List Char :=
  if c = '"' then ['\\', '"']
  else if c = '\\' then ['\\', '\\']
  else if isPrintable c then [c]
  else if c.toNat = 7 then ['\\', 'a']
  else if c.toNat = 8 then ['\\', 'b']
  else if c.toNat = 12 then ['\\', 'f']
  else if c = '\n' then ['\\', 'n']
  else if c = '\r' then ['\\', 'r']
  else if c = '\t' then ['\\', 't']
  else if c.toNat = 11 then ['\\', 'v']
  else if c.toNat < 0x20 || c.toNat = 0x7F then '\\' :: 'x' :: hexDigits 2 c.toNat
  else if c.toNat < 0x10000 then '\\' :: 'u' :: hexDigits 4 c.toNat
  else '\\' :: 'U' :: hexDigits 8 c.toNat

/-- How a script's string literal spells `c`. -/
def scriptChar (c : Char) : List Char :=
  if c = '"' then ['\\', '"']
  else if c = '\\' then ['\\', '\\']
  else if c.toNat = 8 then ['\\', 'b']
  else if c.toNat = 12 then ['\\', 'f']
  else if c = '\n' then ['\\', 'n']
  else if c = '\r' then ['\\', 'r']
  else if c = '\t' then ['\\', 't']
  else if c.toNat < 0x20 || c = '<' || c = '>' || c = '&'
      || c.toNat = 0x2028 || c.toNat = 0x2029 then
    '\\' :: 'u' :: hexDigits 4 c.toNat
  else [c]

/-- How a script's string literal spells a rune: a byte that is part of no character is
spelt as the escape of the replacement character, which itself is not escaped. -/
def scriptRune : Option Char → List Char
  | some c => scriptChar c
  | none => ['\\', 'u', 'f', 'f', 'f', 'd']

/-- How a one-line log object spells `c`. -/
def recordChar (c : Char) : List Char :=
  if c = '"' then ['\\', '"']
  else if c = '\\' then ['\\', '\\']
  else if c = '\n' then ['\\', 'n']
  else if c = '\r' then ['\\', 'r']
  else if c = '\t' then ['\\', 't']
  else if c.toNat < 0x20 || c.toNat = 0x2028 || c.toNat = 0x2029 then
    '\\' :: 'u' :: hexDigits 4 c.toNat
  else [c]

/-- `s` between double quotes, each part of it spelt by `spell`. -/
def enclose {α : Type} (spell : α → List Char) (s : List α) : String :=
  String.ofList ('"' :: s.flatMap spell ++ ['"'])

/-- `s` as an expression literal. -/
def literal (s : String) : String :=
  enclose literalChar s.toList

/-- `s` as a string literal of a generated script. -/
def scriptLiteral {σ : Type} [Runes σ] (s : σ) : String :=
  enclose scriptRune (runes s)

/-- `s` as a string of a one-line log object. -/
def recordLiteral (s : String) : String :=
  enclose recordChar s.toList

/-- The decimal spelling of an integer. -/
def intText (i : Int) : String :=
  match i with
  | .ofNat n => Nat.repr n
  | .negSucc n => "-" ++ Nat.repr (n + 1)

/-- The two hexadecimal capitals of a byte. -/
def byteText (b : UInt8) : String :=
  String.ofList ((hexDigits 2 b.toNat).map Char.toUpper)

/-- The character with code point `n`, or the replacement character when there is none. -/
def charOfCode (n : Int) : Char :=
  if h : n.toNat.isValidChar ∧ 0 ≤ n then Char.ofNatAux n.toNat h.1 else Char.ofNat 0xFFFD

end Lowlang.Text
