import Lowlang.Text.Quoted

set_option autoImplicit false

/-!
# Tokens of expressions

An expression is a row of numbers, strings, words, operators and brackets, with blanks and
comments between them.  `Token.scan` cuts a text into tokens or refuses it; each step takes
at least one character off the text.
-/

namespace Lowlang.Expr

/-- A token of an expression. -/
inductive Token where
  /-- A number as written. -/
  | number (text : String)
  /-- A string, by its content. -/
  | string (content : String)
  /-- A name, including the words for truth values. -/
  | word (name : String)
  /-- An operator or a word that acts as one. -/
  | op (symbol : String)
  /-- A bracket of any shape. -/
  | bracket (c : Char)
  deriving DecidableEq, Repr, Inhabited

namespace Token

/-- The text that operators are recognised by. -/
def value : Token → String
  | .number t => t
  | .string s => s
  | .word n => n
  | .op s => s
  | .bracket c => String.singleton c

/-! ## Words -/

/-- Characters of names, digits included. -/
def isWordChar (c : Char) : Bool :=
  c = '_' || c = '$' || Text.isLetter c || Text.isDigit c

/-- Words that act as operators. -/
def operatorWords : List String :=
  ["not", "in", "or", "and", "matches", "contains", "startsWith", "endsWith", "let", "if", "else"]

/-- The token of a word. -/
def ofWord (w : String) : Token :=
  if operatorWords.contains w then .op w else .word w

/-! ## Numbers -/

/-- Digits of a number after its leading part, separators included. -/
def isDigitOf (base : Nat) (c : Char) : Bool :=
  c = '_' || (match Text.hexValue c with | some v => v < base | none => false)

/-- The base announced by the front of a number, the characters announcing it, and the
rest. -/
def numberBase (s : List Char) : Nat × List Char × List Char :=
  match s with
  | '0' :: c :: rest =>
    if c = 'x' || c = 'X' then (16, ['0', c], rest)
    else if c = 'o' || c = 'O' then (8, ['0', c], rest)
    else if c = 'b' || c = 'B' then (2, ['0', c], rest)
    else (10, ['0'], c :: rest)
  | s => (10, [], s)

/-- The exponent at the front: its characters and the rest. -/
def exponentPart (base : Nat) (s : List Char) : List Char × List Char :=
  match s with
  | c :: rest =>
    if c = 'e' || c = 'E' then
      let (sign, rest) := match rest with
        | d :: r => if d = '+' || d = '-' then ([d], r) else ([], rest)
        | [] => ([], [])
      (c :: sign ++ rest.takeWhile (isDigitOf base), rest.dropWhile (isDigitOf base))
    else ([], s)
  | [] => ([], [])

/-- The rest of a number's text, unless it runs into a word. -/
def numberEnd (text rest : List Char) : Option (List Char × List Char) :=
  match rest with
  | c :: _ => if isWordChar c then none else some (text, rest)
  | [] => some (text, [])

/-- Cuts a number off the front; two points in a row are left for the range operator.  A
number that runs into a word is refused. -/
def numberPart (s : List Char) : Option (List Char × List Char) :=
  let (base, lead, s) := numberBase s
  let whole := lead ++ s.takeWhile (isDigitOf base)
  match s.dropWhile (isDigitOf base) with
  | '.' :: '.' :: r => some (whole, '.' :: '.' :: r)
  | '.' :: r =>
    let part := '.' :: r.takeWhile (isDigitOf base)
    let (x, r) := exponentPart base (r.dropWhile (isDigitOf base))
    numberEnd (whole ++ part ++ x) r
  | r =>
    let (x, r) := exponentPart base r
    numberEnd (whole ++ x) r

/-! ## Strings -/

/-- The number written by exactly `n` digits of the given base, and the rest. -/
def digitsOf (base : Nat) : Nat → Nat → List Char → Option (Nat × List Char)
  | 0, acc, s => some (acc, s)
  | _ + 1, _, [] => none
  | n + 1, acc, c :: s =>
    match Text.hexValue c with
    | some v => if v < base then digitsOf base n (acc * base + v) s else none
    | none => none

/-- The number written by one to `n` hexadecimal digits up to a closing brace, and the
rest. -/
def bracedDigits : Nat → Nat → Bool → List Char → Option (Nat × List Char)
  | _, _, _, [] => none
  | n, acc, any, c :: s =>
    if c = '\x7d' then (if any then some (acc, s) else none)
    else
      match n, Text.hexValue c with
      | n + 1, some v => bracedDigits n (acc * 16 + v) true s
      | _, _ => none

/-- The character with the given code point, when it is one.  Codes of 32 bits are read as signed
numbers, and a negative one stands for its lowest byte, which alone is a character only in the
lower half. -/
def charOf (p : Nat × List Char) : Option (Char × List Char) :=
  if p.1 ≤ 0x10FFFF then some (Text.charOfCode p.1, p.2)
  else if p.1 < 2 ^ 31 then none
  else if p.1 % 256 < 128 then some (Text.charOfCode (p.1 % 256), p.2)
  else some (Char.ofNat 0xFFFD, p.2)

/-- Reads an escape after its backslash. -/
def escape (quote : Char) (s : List Char) : Option (Char × List Char) :=
  match s with
  | [] => none
  | c :: s =>
    if c = 'a' then some (Char.ofNat 7, s)
    else if c = 'b' then some (Char.ofNat 8, s)
    else if c = 'f' then some (Char.ofNat 12, s)
    else if c = 'n' then some ('\n', s)
    else if c = 'r' then some ('\r', s)
    else if c = 't' then some ('\t', s)
    else if c = 'v' then some (Char.ofNat 11, s)
    else if c = '\\' then some ('\\', s)
    else if c = quote then some (quote, s)
    else if c = 'x' then (digitsOf 16 2 0 s).bind charOf
    else if c = 'u' then
      match s with
      | '\x7b' :: s => (bracedDigits 6 0 false s).bind charOf
      | s => (digitsOf 16 4 0 s).bind charOf
    else if c = 'U' then (digitsOf 16 8 0 s).bind charOf
    else if c = '0' || c = '1' || c = '2' || c = '3' then (digitsOf 8 3 0 (c :: s)).bind charOf
    else none

/-- The content of a string up to its closing quote, and the rest.  A line break ends no
string, and a carriage return inside one reads as a line break. -/
def stringBody (quote : Char) : Nat → List Char → Option (List Char × List Char)
  | 0, _ => none
  | _ + 1, [] => none
  | fuel + 1, c :: s =>
    if c = quote then some ([], s)
    else if c = '\n' then none
    else if c = '\\' then do
      let (v, s) ← escape quote s
      let (body, rest) ← stringBody quote fuel s
      some (v :: body, rest)
    else do
      let (body, rest) ← stringBody quote fuel s
      some ((if c = '\r' then '\n' else c) :: body, rest)

/-- The content of a raw string up to its closing quote, in which a doubled quote stands
for one, and the rest. -/
def rawBody : List Char → Option (List Char × List Char)
  | [] => none
  | c :: d :: s =>
    if c.toNat = 0x60 then
      if d.toNat = 0x60 then (rawBody s).map fun p => (c :: p.1, p.2)
      else some ([], d :: s)
    else (rawBody (d :: s)).map fun p => (c :: p.1, p.2)
  | [c] => if c.toNat = 0x60 then some ([], []) else none

/-! ## Comments -/

/-- The rest after a comment that runs to the end of the line. -/
def afterLine (s : List Char) : List Char :=
  (s.dropWhile (· ≠ '\n')).drop 1

/-- The rest after a bracketed comment, when it is closed. -/
def afterComment : List Char → Option (List Char)
  | [] => none
  | [_] => none
  | c :: d :: s => if c = '*' && d = '/' then some s else afterComment (d :: s)

/-! ## Operators -/

/-- An operator of one character that may take a second one out of `more`. -/
def operator (c : Char) (more : List Char) (s : List Char) : Token × List Char :=
  match s with
  | d :: rest =>
    if more.contains d then (.op (String.ofList [c, d]), rest) else (.op (String.singleton c), s)
  | [] => (.op (String.singleton c), [])

/-! ## Scanning -/

/-- What stands at the front of a text: a token, or something to skip. -/
def front (c : Char) (s : List Char) : Option (List Token × List Char) :=
  if Text.isSpace c then some ([], s)
  else if c = '\'' || c = '"' then
    (stringBody c (s.length + 1) s).map fun p => ([.string (String.ofList p.1)], p.2)
  else if c.toNat = 0x60 then
    (rawBody s).map fun p => ([.string (String.ofList p.1)], p.2)
  else if c.isDigit then
    (numberPart (c :: s)).map fun p => ([.number (String.ofList p.1)], p.2)
  else if c = '/' then
    match s with
    | '/' :: s => some ([], afterLine s)
    | '*' :: s => (afterComment s).map fun s => ([], s)
    | s => some ([.op "/"], s)
  else if c = '#' then
    let (t, s) := operator '#' ['#'] s
    let w := s.takeWhile isWordChar
    some (if w.isEmpty then [t] else [t, .word (String.ofList w)], s.dropWhile isWordChar)
  else if ['(', ')', '[', ']', '\x7b', '\x7d'].contains c then some ([.bracket c], s)
  else if [',', ';', '%', '+', '-', '^'].contains c then some ([.op (String.singleton c)], s)
  else if c = '?' then let (t, s) := operator c ['.', '?'] s; some ([t], s)
  else if c = '|' then let (t, s) := operator c ['|'] s; some ([t], s)
  else if c = ':' then let (t, s) := operator c [':'] s; some ([t], s)
  else if ['&', '!', '=', '*', '<', '>'].contains c then
    let (t, s) := operator c ['&', '=', '*'] s; some ([t], s)
  else if c = '.' then
    match s with
    | d :: r =>
      if d.isDigit then
        (numberPart (d :: r)).map fun p => ([.number (String.ofList ('.' :: p.1))], p.2)
      else let (t, s) := operator c ['.'] s; some ([t], s)
    | [] => some ([.op "."], [])
  else if isWordChar c then
    some ([ofWord (String.ofList (c :: s.takeWhile isWordChar))], s.dropWhile isWordChar)
  else none

/-- The tokens of a text, with one unit of fuel for each character. -/
def scanWith : Nat → List Char → Option (List Token)
  | _, [] => some []
  | 0, _ :: _ => none
  | fuel + 1, c :: s => do
    let (ts, rest) ← front c s
    let more ← scanWith fuel rest
    some (ts ++ more)

/-- The tokens of a text, unless it holds something that is none. -/
def scan (s : List Char) : Option (List Token) :=
  scanWith s.length s

end Token

end Lowlang.Expr
