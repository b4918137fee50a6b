import Lowlang.Prelude
import Lowlang.Program.Writing
import Lowlang.Script.Trace

set_option autoImplicit false

/-!
# Commands

What the commands have in common: the options that hold for all of them, and how they come by
a program, its names and its target.
-/

namespace Lowlang.Command

/-- Options shared by all commands. -/
structure Options where
  /-- Replaces the target version of a program, unless empty. -/
  target : String := ""
  /-- Replaces the output file of a program, unless empty. -/
  out : String := ""
  /-- Preludes, by file or by name. -/
  preludes : List String := []
  searchPath : List String := []
  /-- The most levels of nested blocks; none or fewer mean no bound. -/
  maxDepth : Int := 0
  deriving Repr, Inhabited

variable {m : Type → Type} [Monad m] [Host m]

/-- What stands for a standard stream in the place of a file. -/
def stream : String := "-"

/-- The program in a file. -/
def loadFile (path : String) : Job m Program := do
  match ← Job.ask (Host.read path) with
  | .ok src => Job.of (Program.parse path src)
  | .error f => throw (.because .read f [Attr.text "path" path])

/-- The program in a file or in the standard input. -/
def loadProgram (source : String) : Job m Program := do
  if source = stream then
    let src ← Job.ask (Host.input)
    Job.of (Program.parse "<stdin>" src)
  else loadFile source

/-- The names a program starts from, those of the chosen preludes first. -/
def names (logger : Log.Logger) (options : Options) (p : Program) : Job m Registry := do
  let prelude ← Prelude.load logger options.searchPath options.preludes
  Job.of (p.registry prelude)

/-- How a program is lowered: as it asks for, but for what the options replace. -/
def settings (options : Options) (p : Program) : Except Fault Script.Settings := do
  let version ←
    if options.target = "" then pure p.target.version else Script.Version.parse options.target
  let file := if options.out = "" then p.target.file else options.out
  return { version, file, maxDepth := options.maxDepth }

/-- Logs a record. -/
def debug (logger : Log.Logger) (message : String) (attrs : List Attr) : Job m Unit :=
  Job.ask (Host.log logger { level := .debug, message, attrs })

end Lowlang.Command
