import Lowlang.Fault

set_option autoImplicit false

/-!
# Versions of the target language

The dialects scripts are written in, with their names.  A number outside the table is kept
as it is; it has a text of its own and cannot be written into a document.
-/

namespace Lowlang.Script

/-- A dialect of the target language. -/
inductive Version where
  | es5
  | es6
  /-- A number that names no dialect. -/
  | other (n : Int)
  deriving DecidableEq, Repr

namespace Version

/-- The dialect used when none is chosen. -/
def default : Version := .es6

instance : Inhabited Version := ⟨default⟩

/-- The dialect with number `n`. -/
def ofInt (n : Int) : Version :=
  if n = 0 then .es5 else if n = 1 then .es6 else .other n

/-- The name of a dialect. -/
def text : Version → String
  | .es5 => "es5"
  | .es6 => "es6"
  | .other n => "Version(" ++ Text.intText n ++ ")"

/-- Every supported dialect. -/
def all : List Version := [.es5, .es6]

/-- The dialect of a name, in any case and between blanks; `es2015` is another name of the
later one. -/
def parse (s : String) : Except Fault Version :=
  let name := Text.lower (Text.trimSpace s)
  if name = "es2015" then .ok .es6
  else
    match all.find? fun v => v.text = name with
    | some v => .ok v
    | none => .error (.of .invalidVersion [Attr.text "version" s])

/-- The name under which a dialect is written into a document. -/
def encode : Version → Except Fault String
  | .other n => .error (.of .invalidVersion [Attr.int "version" n])
  | v => .ok v.text

/-- The keyword that declares a variable. -/
def declareKeyword : Version → String
  | .es5 => "var"
  | .es6 => "let"
  | .other n => if 1 ≤ n then "let" else "var"

end Version

end Lowlang.Script
