import Lowlang.Script.Lowering
import Lowlang.Value.Reading
import Lowlang.Ty.Parser

set_option autoImplicit false

/-!
# Sessions

What a shell remembers between lines: the declared names.  Lowering an expression leaves them
as they are; a declaration adds its name once everything about it has succeeded.
-/

namespace Lowlang.Shell

/-- The names declared so far, and how lines are lowered. -/
structure Session where
  registry : Registry
  settings : Script.Settings

namespace Session

/-- The script of a block in a session. -/
def compile (s : Session) (block : List Stmt) : Except Fault String :=
  Script.compile s.settings s.registry block

/-- The script of an expression. -/
def lower (s : Session) (src : String) : Except Fault String := do
  let v ← Value.parse src
  s.compile [.eval .none v]

/-- Declares `name type` or `name type = value`; with a value, yields the script of the
declaration. -/
def declare (s : Session) (spec : String) : Except Fault (String × Session) := do
  match Text.cutAt ' ' (Text.trim spec.toList) with
  | none => throw (.of .usage [])
  | some ([], _) => throw (.of .usage [])
  | some (name, rest) =>
    let name := String.ofList name
    match Text.cutAt '=' rest with
    | none =>
      let t ← Ty.parse (String.ofList (Text.trim rest))
      let registry ← s.registry.add name t .none
      return ("", { s with registry })
    | some (typeText, valueText) =>
      let t ← Ty.parse (String.ofList (Text.trim typeText))
      let v ← Value.parse (String.ofList (Text.trim valueText))
      let out ← s.compile [.declare .none name (some t) v]
      let registry ← s.registry.add name t .none
      return (out, { s with registry })

/-- The session with other declarations. -/
def reset (s : Session) (ds : List Decl) : Session :=
  { s with registry := Registry.ofDecls ds }

/-- The declared names, in order. -/
def names (s : Session) : List String :=
  s.registry.names

/-- The declarations, in the order of their names. -/
def decls (s : Session) : List Decl :=
  s.registry.entries

/-- Whether a name is declared as a function. -/
def isFunction (s : Session) (name : String) : Bool :=
  match s.registry.get? name with
  | some t => t.isFunction
  | none => false

end Session

end Lowlang.Shell
