import Lowlang.Yaml.Token

set_option autoImplicit false

/-!
# Quoted scalars

Reading goes from the character behind the opening quote to the closing one.  A line break
inside the quotes is folded: blanks around it go away, the first break counts as a space
and every further one as itself.
-/

namespace Lowlang.Yaml.Token

/-- Line breaks. -/
def isBreak (c : Char) : Bool :=
  c == '\n' || c == '\r'

/-- Blanks within a line. -/
def isBlank (c : Char) : Bool :=
  c == ' ' || c == '\t'

/-- Whether a line that starts a document or ends one stands here. -/
def atDocumentMark (s : List Char) : Bool :=
  match s with
  | '-' :: '-' :: '-' :: rest => endsMark rest
  | '.' :: '.' :: '.' :: rest => endsMark rest
  | _ => false
where
  /-- Nothing follows the mark directly. -/
  endsMark : List Char → Bool
    | [] => true
    | c :: _ => isBlank c || isBreak c

/-- What is known once the closing quote was found. -/
structure Quoted where
  text : List Char
  line : Nat
  /-- The column behind the closing quote. -/
  column : Nat
  rest : List Char

/-- How far reading has come. -/
structure Quoting where
  /-- The text so far, latest first. -/
  text : List Char
  /-- Whether only blanks were read on this line, which is not the first. -/
  fresh : Bool
  line : Nat
  column : Nat
  /-- How many characters behind the closing quote are lost. -/
  lost : Nat := 0

namespace Quoting

/-- One more character of text. -/
def push (q : Quoting) (c : Char) : Quoting :=
  { q with text := c :: q.text, fresh := false, column := q.column + 1 }

/-- One column on. -/
def skip (q : Quoting) : Quoting :=
  { q with column := q.column + 1 }

/-- Folds a line break into the text. -/
def fold (q : Quoting) : Quoting :=
  { q with
    text := (if q.fresh then '\n' else ' ') :: q.text.dropWhile (· == ' ')
    fresh := true
    line := q.line + 1
    column := 1 }

/-- Joins two lines without a trace; the second starts in `column`. -/
def join (q : Quoting) (column : Nat) : Quoting :=
  { q with fresh := true, line := q.line + 1, column := column }

/-- A tab inside a line.  Unless the closing quote is next, it counts for two characters,
so one more behind the quote is lost. -/
def tab (q : Quoting) (rest : List Char) : Quoting :=
  let q := { q with text := '\t' :: q.text, column := q.column + 1 }
  if rest.head? = some '"' then q else { q with column := q.column + 1, lost := q.lost + 1 }

/-- What was read, when the closing quote stands before `rest`. -/
def close (q : Quoting) (rest : List Char) : Quoted :=
  ⟨q.text.reverse, q.line, q.column + 1, rest.drop q.lost⟩

end Quoting

/-- Reads to the closing single quote; two quotes in a row stand for one.  `parent` is the
column that tabs may not indent up to. -/
def readSingle (parent : Nat) (q : Quoting) : List Char → Option Quoted
  | [] => none
  | '\'' :: '\'' :: rest =>
    readSingle parent { q with text := '\'' :: q.text, column := q.column + 2 } rest
  | c :: rest =>
    if isBreak c then
      if atDocumentMark rest then none else readSingle parent q.fold rest
    else if q.fresh && c == ' ' then readSingle parent q.skip rest
    else if q.fresh && c == '\t' then
      if q.column ≤ parent then none else readSingle parent q.skip rest
    else if c == '\'' then some (q.close rest)
    else readSingle parent (q.push c) rest

/-- The number that hexadecimal digits write; a character that is none counts as its
distance from zero. -/
def hexNumber (ds : List Char) : Int :=
  ds.foldl (fun n c => n * 16 + digit c) 0
where
  /-- The value of one digit. -/
  digit (c : Char) : Int :=
    match Text.hexValue c with
    | some v => v
    | none => (c.toNat : Int) - 0x30

/-- The escapes of one letter. -/
def simpleEscape (c : Char) : Option Char :=
  match c with
  | '0' => some '\x00'
  | 'a' => some '\x07'
  | 'b' => some '\x08'
  | 'e' => some '\x1b'
  | 'f' => some '\x0c'
  | 'n' => some '\n'
  | 'r' => some '\r'
  | 't' => some '\t'
  | 'v' => some '\x0b'
  | ' ' => some ' '
  | '/' => some '/'
  | '"' => some '"'
  | '\\' => some '\\'
  | 'N' => some '\u0085'
  | '_' => some '\u00a0'
  | 'L' => some '\u2028'
  | 'P' => some '\u2029'
  | '\t' => some '\t'
  | _ => none

/-- The character that an escape stands for, and how many characters behind the backslash
spell it.  Two hexadecimal digits that the input ends in leave the letter before them; four
and eight must be there. -/
def escape (s : List Char) : Option (Char × Nat) :=
  match s with
  | 'x' :: ds =>
    if ds.length < 2 then some ('x', 1) else some (Text.charOfCode (hexNumber (ds.take 2)), 3)
  | 'u' :: ds =>
    let high := hexNumber (ds.take 4)
    if ds.length < 4 then none
    else if 0xD800 ≤ high && high ≤ 0xDBFF then
      match ds.drop 4 with
      | '\\' :: 'u' :: more =>
        let low := hexNumber (more.take 4)
        if 4 ≤ more.length && 0xDC00 ≤ low && low ≤ 0xDFFF then
          some (Text.charOfCode ((high - 0xD800) * 0x400 + (low - 0xDC00) + 0x10000), 11)
        else none
      | _ => none
    else some (Text.charOfCode high, 5)
  | 'U' :: ds =>
    if ds.length < 8 then none else some (Text.charOfCode (hexNumber (ds.take 8)), 9)
  | c :: _ => (simpleEscape c).map (·, 1)
  | [] => none

/-- Whether nothing but blanks is left of the line. -/
def blankLine (s : List Char) : Bool :=
  (s.takeWhile fun c => !isBreak c).all isBlank

/-- Reads to the closing double quote, passing over `behind` characters first, which an
escape has used up. -/
def readDouble (parent : Nat) (behind : Nat) (q : Quoting) : List Char → Option Quoted
  | [] => none
  | c :: rest =>
    match behind with
    | n + 1 => readDouble parent n q.skip rest
    | 0 =>
      if isBreak c then
        if atDocumentMark rest then none else readDouble parent 0 q.fold rest
      else if q.fresh && c == ' ' then readDouble parent 0 q.skip rest
      else if q.fresh && c == '\t' then
        if q.column ≤ parent then none else readDouble parent 0 q.skip rest
      else if c == '\\' then
        match rest with
        | '\n' :: rest => readDouble parent 0 (q.join 1) rest
        | '\r' :: '\n' :: rest => readDouble parent 0 (q.join 3) rest
        | '\r' :: rest => readDouble parent 0 (q.join 2) rest
        | rest =>
          match escape rest with
          | some (d, n) => readDouble parent n (q.push d) rest
          | none => none
      else if c == '\t' then
        readDouble parent 0 (if blankLine rest then q.skip else q.tab rest) rest
      else if c == '"' then some (q.close rest)
      else readDouble parent 0 (q.push c) rest

end Lowlang.Yaml.Token
