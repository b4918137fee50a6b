import Lowlang.Config.Settings

set_option autoImplicit false

/-!
# Settings in JSON

A second way to write settings: one object whose members are flags.  The names of its members
are written with `_` or in camel case in the place of `-`.  What stands behind the object is
not read.
-/

namespace Lowlang.Config.Json

/-- Why a text is no object. -/
inductive Refusal where
  /-- There is no text. -/
  | empty
  /-- The text ends too early. -/
  | unfinished
  /-- A character that cannot stand where it does. -/
  | unexpected (c : Char) (place : String)
  /-- A value that is no object. -/
  | notObject (kind : String)
  /-- A number beyond all that can be held. -/
  | tooLarge (digits : String)
  deriving DecidableEq, Repr

namespace Refusal

/-- The first byte of a character. -/
def firstByte (c : Char) : Nat :=
  let n := c.toNat
  if n < 0x80 then n
  else if n < 0x800 then 0xC0 + n / 0x40
  else if n < 0x10000 then 0xE0 + n / 0x1000
  else 0xF0 + n / 0x40000

/-- A character, known by its first byte, between single quotes. -/
def quoted (c : Char) : String :=
  if c = '\'' then "'\\''"
  else if c = '"' then "'\"'"
  else
    "'" ++ String.ofList (Text.literalChar (Char.ofNat (firstByte c))) ++ "'"

/-- The wording of a refusal. -/
def message : Refusal → String
  | .empty => "EOF"
  | .unfinished => "unexpected EOF"
  | .unexpected c place => "invalid character " ++ quoted c ++ " " ++ place
  | .notObject kind =>
    "json: cannot unmarshal " ++ kind ++ " into Go value of type map[string]interface \x7b\x7d"
  | .tooLarge digits =>
    "json: cannot unmarshal number " ++ digits ++ " into Go value of type float64"

end Refusal

/-- A text without the blanks ahead. -/
def skip (s : List Char) : List Char :=
  s.dropWhile fun c => c = ' ' || c = '\t' || c = '\r' || c = '\n'

/-! ## Words and numbers -/

/-- The rest of a fixed word `name`, of which `rest` is still to come. -/
def wordRest (name : String) : List Char → List Char → Except Refusal (Unit × List Char)
  | [], s => .ok ((), s)
  | _ :: _, [] => .error .unfinished
  | w :: ws, c :: s =>
    if c = w then wordRest name ws s
    else .error (.unexpected c ("in literal " ++ name ++ " (expecting " ++ Refusal.quoted w ++ ")"))

/-- At least one digit, or a refusal that names the place. -/
def digits (place : String) (s : List Char) : Except Refusal ((List Char) × List Char) :=
  match s with
  | [] => .error .unfinished
  | c :: _ =>
    if c.isDigit then .ok (s.takeWhile Char.isDigit, s.dropWhile Char.isDigit)
    else .error (.unexpected c place)

/-- The digits ahead of a point or an exponent; a leading zero stands alone. -/
def whole (s : List Char) : Except Refusal ((List Char) × List Char) :=
  match s with
  | '0' :: rest => .ok (['0'], rest)
  | s => digits "in numeric literal" s

/-- The digits behind a point, with the point. -/
def fraction (s : List Char) : Except Refusal ((List Char) × List Char) :=
  match s with
  | '.' :: rest => do
    let (ds, rest) ← digits "after decimal point in numeric literal" rest
    return ('.' :: ds, rest)
  | s => .ok ([], s)

/-- An exponent, with its mark. -/
def exponent (s : List Char) : Except Refusal ((List Char) × List Char) :=
  match s with
  | c :: rest =>
    if c = 'e' || c = 'E' then do
      let place := "in exponent of numeric literal"
      match rest with
      | '+' :: rest =>
        let (ds, rest) ← digits place rest
        return (c :: '+' :: ds, rest)
      | '-' :: rest =>
        let (ds, rest) ← digits place rest
        return (c :: '-' :: ds, rest)
      | rest =>
        let (ds, rest) ← digits place rest
        return (c :: ds, rest)
    else .ok ([], s)
  | [] => .ok ([], [])

/-- A number, as it is spelled. -/
def number (s : List Char) : Except Refusal ((List Char) × List Char) := do
  let (sign, s) := match s with
    | '-' :: rest => (['-'], rest)
    | s => ([], s)
  let (w, s) ← whole s
  let (f, s) ← fraction s
  let (e, s) ← exponent s
  return (sign ++ w ++ f ++ e, s)

/-! ## Strings -/

/-- The four hexadecimal digits of an escape. -/
def codeUnit : Nat → Nat → List Char → Except Refusal (Nat × List Char)
  | 0, n, s => .ok (n, s)
  | _ + 1, _, [] => .error .unfinished
  | k + 1, n, c :: s =>
    match Text.hexValue c with
    | some v => codeUnit k (n * 16 + v) s
    | none => .error (.unexpected c "in \\u hexadecimal character escape")

/-- A code unit that waits for its other half. -/
def isHigh (n : Nat) : Bool := 0xD800 ≤ n && n < 0xDC00

/-- A code unit that is a second half. -/
def isLow (n : Nat) : Bool := 0xDC00 ≤ n && n < 0xE000

/-- Code units as characters; halves without their other half are replaced. -/
def ofUnits : List Nat → List Char
  | [] => []
  | [n] => [Text.charOfCode n]
  | h :: l :: rest =>
    if isHigh h && isLow l then
      Char.ofNat (0x10000 + (h - 0xD800) * 0x400 + (l - 0xDC00)) :: ofUnits rest
    else Text.charOfCode h :: ofUnits (l :: rest)

/-- A string behind its opening quote.  `units` holds escaped code units not yet taken for
characters, latest first. -/
def string (units : List Nat) : Nat → List Char → Except Refusal ((List Char) × List Char)
  | 0, _ => .error .unfinished
  | _ + 1, [] => .error .unfinished
  | fuel + 1, c :: s =>
    let done := ofUnits units.reverse
    let add (chars : List Char) (s : List Char) : Except Refusal ((List Char) × List Char) := do
      let (more, s) ← string [] fuel s
      return (done ++ chars ++ more, s)
    if c = '"' then .ok (done, s)
    else if c.toNat < 0x20 then .error (.unexpected c "in string literal")
    else if c ≠ '\\' then add [c] s
    else
      match s with
      | [] => .error .unfinished
      | 'u' :: s => do
        let (n, s) ← codeUnit 4 0 s
        string (n :: units) fuel s
      | 'b' :: s => add ['\x08'] s
      | 'f' :: s => add ['\x0c'] s
      | 'n' :: s => add ['\n'] s
      | 'r' :: s => add ['\r'] s
      | 't' :: s => add ['\t'] s
      | d :: s =>
        if d = '\\' || d = '/' || d = '"' then add [d] s
        else .error (.unexpected d "in string escape code")

/-! ## Values -/

mutual

/-- A value. -/
def value : Nat → List Char → Except Refusal (Value × List Char)
  | 0, _ => .error .unfinished
  | fuel + 1, s =>
    match skip s with
    | [] => .error .unfinished
    | '\x7b' :: s =>
      match skip s with
      | '\x7d' :: s => .ok (.mapping [], s)
      | s => do
        let (es, s) ← members fuel s
        return (.mapping es, s)
    | '[' :: s =>
      match skip s with
      | ']' :: s => .ok (.list [], s)
      | s => do
        let (vs, s) ← elements fuel s
        return (.list vs, s)
    | '"' :: s => do
      let (t, s) ← string [] (s.length + 1) s
      return (.text (String.ofList t), s)
    | 't' :: s => do
      let (_, s) ← wordRest "true" "rue".toList s
      return (.bool true, s)
    | 'f' :: s => do
      let (_, s) ← wordRest "false" "alse".toList s
      return (.bool false, s)
    | 'n' :: s => do
      let (_, s) ← wordRest "null" "ull".toList s
      return (.null, s)
    | c :: s =>
      if c = '-' || c.isDigit then do
        let (ds, s) ← number (c :: s)
        let d := (Double.read ds).getD .undefined
        if !d.isFinite then throw (.tooLarge (String.ofList ds))
        return (.double d, s)
      else .error (.unexpected c "looking for beginning of value")

/-- The elements of an array behind its bracket. -/
def elements : Nat → List Char → Except Refusal ((List Value) × List Char)
  | 0, _ => .error .unfinished
  | fuel + 1, s => do
    let (v, s) ← value fuel s
    match skip s with
    | [] => throw .unfinished
    | ',' :: s =>
      let (vs, s) ← elements fuel s
      return (v :: vs, s)
    | ']' :: s => return ([v], s)
    | c :: _ => throw (.unexpected c "after array element")

/-- The members of an object behind its bracket. -/
def members : Nat → List Char → Except Refusal ((List (String × Value)) × List Char)
  | 0, _ => .error .unfinished
  | fuel + 1, s => do
    match skip s with
    | [] => throw .unfinished
    | '"' :: s =>
      let (k, s) ← string [] (s.length + 1) s
      match skip s with
      | [] => throw .unfinished
      | ':' :: s =>
        let (v, s) ← value fuel s
        let e := (String.ofList k, v)
        match skip s with
        | [] => throw .unfinished
        | ',' :: s =>
          let (es, s) ← members fuel s
          return (e :: es, s)
        | '\x7d' :: s => return ([e], s)
        | c :: _ => throw (.unexpected c "after object key:value pair")
      | c :: _ => throw (.unexpected c "after object key")
    | c :: _ => throw (.unexpected c "looking for beginning of object key string")

end

/-- The members of the object in a text; nothing but null may stand in its place. -/
def object (src : String) : Except Refusal (List (String × Value)) := do
  let s := src.toList
  if (skip s).isEmpty then throw .empty
  let (v, _) ← value (2 * s.length + 2) s
  match v with
  | .mapping es => return es
  | .null => return []
  | .list _ => throw (.notObject "array")
  | .text _ => throw (.notObject "string")
  | .bool _ => throw (.notObject "bool")
  | _ => throw (.notObject "number")

/-! ## Settings -/

mutual

/-- A value as flags take it. -/
def setting : Value → Option Setting
  | .null => none
  | .bool b => some (.switch b)
  | .int i => some (.text (Text.intText i))
  | .double d => some (.number d)
  | .text s => some (.text s)
  | .bytes bs => some (.bytes bs)
  | .moment m => some (.moment m)
  | .list items => some (.list (settings items))
  | .mapping entries => some (.other (Value.mapping entries).shown)
termination_by structural v => v

/-- The items of a list as flags take them. -/
def settings : List Value → List (Option Setting)
  | [] => []
  | v :: vs => setting v :: settings vs
termination_by structural vs => vs

end

/-- A name in camel case: each `-` is dropped and the letter behind it is a capital. -/
def camel : List Char → List Char
  | '-' :: c :: rest => c.toUpper :: camel rest
  | c :: rest => c :: camel rest
  | [] => []

/-- The value for a flag, when the members of an object give one. -/
def resolve (members : List (String × Value)) (flag : String) : Option Setting :=
  let last := members.reverse
  match last.lookup (Settings.underscored flag) with
  | some v => setting v
  | none => (last.lookup (String.ofList (camel flag.toList))).bind setting

end Lowlang.Config.Json
