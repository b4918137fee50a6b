import Lowlang.Registry
import Lowlang.Stmt
import Lowlang.Script.Version

set_option autoImplicit false

/-!
# Programs

A program is a block of statements together with the target it is meant for and the names
it expects to be there.
-/

namespace Lowlang

/-- What a program is compiled to. -/
structure Target where
  version : Script.Version := .default
  /-- The file the script is meant for; none when empty. -/
  file : String := ""
  deriving DecidableEq, Repr, Inhabited

/-- A program. -/
structure Program where
  /-- Where the program came from. -/
  name : String
  target : Target := {}
  /-- Names that the surroundings of the script provide. -/
  builtins : List Decl := []
  body : Block := []
  deriving Repr, Inhabited

namespace Program

/-- Declares names in order.  A name may be declared again with the same type. -/
def declareAll : List Decl → Registry → Except Fault Registry
  | [], r => .ok r
  | d :: ds, r =>
    match r.get? d.name with
    | some t => if t.same d.type then declareAll ds r else .error (.namePresent d.name .none)
    | none => declareAll ds (r.insert d.name d.type)

/-- The names a program starts from: those of the prelude, then its own. -/
def registry (p : Program) (prelude : List Decl) : Except Fault Registry :=
  declareAll (prelude ++ p.builtins) .empty

end Program

end Lowlang
