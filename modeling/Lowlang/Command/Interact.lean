import Lowlang.Command.Basic
import Lowlang.Shell.Session

set_option autoImplicit false

/-!
# Starting a shell

A shell starts from the names of a program, or of the preludes alone.
-/

namespace Lowlang.Command

variable {m : Type → Type} [Monad m] [Host m]

/-- The session a shell starts with.  Scripts are printed, whatever file a program is for. -/
def session (logger : Log.Logger) (options : Options) (source : String) :
    Job m Shell.Session := do
  let p ← if source = "" then pure { name := "<repl>" } else loadFile source
  let registry ← names logger options p
  let options := { options with out := "" }
  let settings ← Job.of (settings options { p with target := { p.target with file := "" } })
  debug logger "repl" [Attr.text "program" p.name, Attr.int "names" registry.size]
  return { registry, settings }

end Lowlang.Command
