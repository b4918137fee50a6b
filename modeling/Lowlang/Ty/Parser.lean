import Lowlang.Ty.Basic
import Lowlang.Fault

set_option autoImplicit false

/-!
# Reading types

The text form of types:

* a type is one or more primaries with bars between them;
* a primary is a name, a type in brackets, or parenthesised types, which with a colon and
  a result are a function type and without them a single grouped type.

Blanks may stand before every symbol and name.  A refusal names the first character at
which no rule can go on, by its byte offset.
-/

namespace Lowlang.Ty.Parser

/-- Why a text is no type, with what was left of it at that point. -/
structure Refusal where
  reason : String
  rest : List Char
  deriving DecidableEq, Repr, Inhabited

/-- A step reads a type off the front and returns the rest. -/
abbrev Step := Except Refusal (Ty × List Char)

/-- The text without leading blanks. -/
def skip (s : List Char) : List Char :=
  s.dropWhile Text.isSpace

/-- The rest after the symbol `c`, when that is the first character beside blanks. -/
def accept (c : Char) (s : List Char) : Option (List Char) :=
  match skip s with
  | d :: rest => if d = c then some rest else none
  | [] => none

/-- Refuses the text at its first character beside blanks. -/
def refuse {α : Type} (reason : String) (s : List Char) : Except Refusal α :=
  .error ⟨reason, skip s⟩

/-- Characters a name starts with. -/
def startsName (c : Char) : Bool :=
  c = '_' || Text.isLetter c

/-- Characters a name goes on with. -/
def continuesName (c : Char) : Bool :=
  startsName c || Text.isDigit c || c = '.'

/-- The longest name at the front, which is empty when none starts there. -/
def name (s : List Char) : List Char × List Char :=
  match s with
  | c :: rest =>
    if startsName c then (c :: rest.takeWhile continuesName, rest.dropWhile continuesName)
    else ([], s)
  | [] => ([], [])

/-- The type a name stands for. -/
def ofName (n : String) : Ty :=
  match n with
  | "Never" => .union []
  | "Null" => .null
  | "Int" => .int
  | "Uint" => .uint
  | "Byte" => .byte
  | "Char" => .char
  | "Bool" => .bool
  | "List" => .list
  | n => .custom n

mutual

/-- Reads a type: primaries with bars between them. -/
def type : Nat → List Char → Step
  | 0, s => refuse "expected type" s
  | fuel + 1, s => do
    let (first, s) ← primary fuel s
    match accept '|' s with
    | none => .ok (first, s)
    | some s => members fuel [first] s

/-- Reads further members of a union after a bar; `found` holds those before it, last
first. -/
def members : Nat → List Ty → List Char → Step
  | 0, _, s => refuse "expected type" s
  | fuel + 1, found, s => do
    let (next, s) ← primary fuel s
    match accept '|' s with
    | none => .ok (.union (next :: found).reverse, s)
    | some s => members fuel (next :: found) s

/-- Reads a primary. -/
def primary : Nat → List Char → Step
  | 0, s => refuse "expected type" s
  | fuel + 1, s =>
    match accept '[' s with
    | some s => do
      let (elem, s) ← type fuel s
      match accept ']' s with
      | some s => .ok (.array (some elem), s)
      | none => refuse "expected ']'" s
    | none =>
      match accept '(' s with
      | some s =>
        match accept ')' s with
        | some s => finish fuel [] s
        | none => items fuel [] s
      | none =>
        match name (skip s) with
        | ([], _) => refuse "expected type" s
        | (n, s) => .ok (ofName (String.ofList n), s)

/-- Reads the types up to a closing parenthesis; `found` holds those read, last first. -/
def items : Nat → List Ty → List Char → Step
  | 0, _, s => refuse "expected type" s
  | fuel + 1, found, s => do
    let (t, s) ← type fuel s
    match accept ')' s with
    | some s => finish fuel (t :: found).reverse s
    | none =>
      match accept ',' s with
      | some s => items fuel (t :: found) s
      | none => refuse "expected ',' or ')'" s

/-- Reads what follows the closing parenthesis after `found`. -/
def finish : Nat → List Ty → List Char → Step
  | 0, _, s => refuse "expected type" s
  | fuel + 1, found, s =>
    match accept ':' s with
    | some s => do
      let (result, s) ← type fuel s
      .ok (.function found (some result), s)
    | none =>
      match found with
      | [t] => .ok (t, s)
      | _ => refuse "expected ':' after parameter list" s

end

/-- Steps enough for a text: no more than four lie between two characters read. -/
def fuelFor (s : List Char) : Nat :=
  4 * s.length + 8

/-- Reads a whole text as a type. -/
def run (s : List Char) : Except Refusal Ty := do
  let (t, rest) ← type (fuelFor s) s
  match skip rest with
  | [] => .ok t
  | _ => refuse "unexpected trailing input" rest

end Lowlang.Ty.Parser

namespace Lowlang.Ty

/-- The number of bytes a text takes. -/
def byteLength (s : List Char) : Nat :=
  s.foldl (fun n c => n + c.utf8Size) 0

/-- The type with the given text form. -/
def parse (src : String) : Except Fault Ty :=
  match Parser.run src.toList with
  | .ok t => .ok t
  | .error r =>
    .error (.of .parseType
      [Attr.text "type" src,
        Attr.int "offset" (byteLength src.toList - byteLength r.rest : Nat),
        Attr.text "reason" r.reason])

end Lowlang.Ty
