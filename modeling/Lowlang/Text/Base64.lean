set_option autoImplicit false

/-!
# Bytes as text

Three bytes are written as four letters of an alphabet of sixty-four; a shorter last group is
filled up with `=`.  Reading passes over line breaks and stops at the first group that is not
well formed, with the bytes of the groups before it.
-/

namespace Lowlang.Text.Base64

/-- The six bits that a letter stands for. -/
def value? (c : Char) : Option Nat :=
  let n := c.toNat
  if 0x41 ≤ n && n ≤ 0x5A then some (n - 0x41)
  else if 0x61 ≤ n && n ≤ 0x7A then some (n - 0x61 + 26)
  else if 0x30 ≤ n && n ≤ 0x39 then some (n - 0x30 + 52)
  else if c = '+' then some 62
  else if c = '/' then some 63
  else none

/-- The letter for six bits. -/
def letter (v : Nat) : Char :=
  if v < 26 then Char.ofNat (0x41 + v)
  else if v < 52 then Char.ofNat (0x61 + (v - 26))
  else if v < 62 then Char.ofNat (0x30 + (v - 52))
  else if v = 62 then '+'
  else '/'

/-- The bytes that the letters of one group hold: one less than there are letters. -/
def group (vs : List Nat) : List UInt8 :=
  let v := (vs ++ List.replicate (4 - vs.length) 0).foldl (fun n v => n * 64 + v) 0
  [UInt8.ofNat (v / 65536), UInt8.ofNat (v / 256), UInt8.ofNat v].take (vs.length - 1)

/-- Reads on from a group of which the letters `held` were read, latest first. -/
def decodeFrom (held : List Nat) : List Char → List UInt8
  | [] => []
  | c :: rest =>
    match value? c with
    | some v =>
      if held.length = 3 then group (v :: held).reverse ++ decodeFrom [] rest
      else decodeFrom (v :: held) rest
    | none =>
      if c = '=' then
        if held.length = 3 || (held.length = 2 && rest.head? = some '=') then
          group held.reverse
        else []
      else []

/-- The bytes of a text. -/
def decode (s : String) : List UInt8 :=
  decodeFrom [] (s.toList.filter fun c => c ≠ '\n' && c ≠ '\r')

/-- The text of bytes. -/
def encode : List UInt8 → List Char
  | [] => []
  | [a] =>
    let v := a.toNat * 16
    [letter (v / 64), letter (v % 64), '=', '=']
  | [a, b] =>
    let v := (a.toNat * 256 + b.toNat) * 4
    [letter (v / 4096), letter (v / 64 % 64), letter (v % 64), '=']
  | a :: b :: c :: rest =>
    let v := (a.toNat * 256 + b.toNat) * 256 + c.toNat
    letter (v / 262144) :: letter (v / 4096 % 64) :: letter (v / 64 % 64) :: letter (v % 64)
      :: encode rest

end Lowlang.Text.Base64
