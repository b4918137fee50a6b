import Lowlang.Command.Basic

set_option autoImplicit false

/-!
# Compiling

Lowers a program and writes the script to the file it is meant for, or prints it.
-/

namespace Lowlang.Command

variable {m : Type → Type} [Monad m] [Host m]

/-- Writes a script, ended by a line break. -/
def writeScript (logger : Log.Logger) (file script : String) : Job m Unit := do
  let text := script ++ "\n"
  if file = "" || file = stream then Job.ask (Host.print text)
  else
    match ← Job.ask (Host.write file text) with
    | .error f => throw (.because .writeOutput f [Attr.text "file" file])
    | .ok () =>
      debug logger "output written" [Attr.text "file" file, Attr.int "bytes" text.utf8ByteSize]

/-- Compiles the program at `source`. -/
def compile (logger : Log.Logger) (options : Options) (source : String) :
    Job m Unit := do
  let p ← loadProgram source
  let scope ← names logger options p
  let cfg ← Job.of (settings options p)
  debug logger "compile"
    [Attr.text "program" p.name, Attr.text "target" cfg.version.text,
      Attr.int "statements" p.body.length, Attr.group "names" scope.attrs]
  let outcome := Script.lower cfg scope p.body
  for e in outcome.events do
    Job.ask (Host.log logger e.record)
  match outcome.result with
  | .ok script => writeScript logger cfg.file script
  | .error f => throw (.because .compile f [Attr.text "program" p.name])

end Lowlang.Command
