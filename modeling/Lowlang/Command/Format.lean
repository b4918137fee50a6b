import Lowlang.Command.Basic

set_option autoImplicit false

/-!
# Formatting

Prints a program in one normal form: as a listing of its statements, or as a document.
-/

namespace Lowlang.Command

variable {m : Type → Type} [Monad m] [Host m]

/-- Prints the program at `source`. -/
def format (yaml : Bool) (indent : Int) (source : String) : Job m Unit := do
  let p ← loadProgram source
  if yaml then
    let text ← Job.of (p.format indent)
    Job.ask (Host.print text)
  else
    for s in p.body do
      Job.ask (Host.print (s.text ++ "\n"))

end Lowlang.Command
