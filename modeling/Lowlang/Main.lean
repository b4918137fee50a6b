import Std.Time.DateTime.Timestamp
import Lowlang.CommandLine.LogFlags
import Lowlang.CommandLine.Run
import Lowlang.Shell.Prompt

set_option autoImplicit false

/-!
# The program

Runs a command line on the files and streams of the process.  All that is decided is decided
elsewhere: this module opens files, reads lines and prints.
-/

namespace Lowlang.Main

/-- What an error of the system says of a path. -/
def problemOf : IO.Error → Files.Problem
  | .noFileOrDirectory _ _ _ => .missing
  | .permissionDenied _ _ _ => .other "permission denied"
  | e => .other e.toString

/-- What a path leads to. -/
def stat (path : String) : IO (Except Files.Problem FileInfo) := do
  try
    let real ← IO.FS.realPath path
    return .ok ⟨← real.isDir, real.toString⟩
  catch e => return .error (problemOf e)

/-- The content of a file. -/
def read (path : String) : IO (Except Fault String) := do
  match ← stat path with
  | .error p => return .error (p.fault "open" path)
  | .ok info =>
    if info.isDirectory then return .error (Files.Problem.isDirectory.fault "read" path)
    else
      try return .ok (← IO.FS.readFile path)
      catch e => return .error ((problemOf e).fault "read" path)

/-- Replaces a file or makes it. -/
def write (path content : String) : IO (Except Fault Unit) := do
  try
    IO.FS.writeFile path content
    return .ok ()
  catch e => return .error ((problemOf e).fault "open" path)

/-- All that is left of a stream. -/
def drain (stream : IO.FS.Stream) : IO String := do
  let mut text := ""
  repeat
    let line ← stream.getLine
    if line.isEmpty then break
    text := text ++ line
  return text

/-- Writes a record with the present time to the standard error. -/
def log (logger : Log.Logger) (r : Log.Record) : IO Unit := do
  let now ← Std.Time.Timestamp.now
  IO.eprint (logger.write { r with time := now.toNanosecondsSinceUnixEpoch.val })

instance : Host IO where
  stat := stat
  read := read
  write := write
  input := do drain (← IO.getStdin)
  print := IO.print
  log := log

/-- What is found outside the command line. -/
def environment : IO CommandLine.Environment := do
  let cwd := (← IO.currentDir).toString
  let home := (← IO.getEnv "HOME").getD cwd
  let base := (← IO.getEnv "XDG_CONFIG_HOME").getD (Files.join home ".config")
  let dir := Files.join base About.name
  IO.FS.createDirAll dir
  return {
    whereabouts := { cwd, home }
    configFile := Files.join dir "config.yaml"
    preludeDir := Files.join dir "prelude"
    searchVariable := (← IO.getEnv "ILC_PATH").getD "" }

/-- Does what a prompt asks for; the declarations cannot be edited from here. -/
def perform (p : Shell.Prompt) : Shell.Effect → IO Shell.Prompt
  | .print text => do
    IO.println text
    return p
  | .quit => return { p with quitting := true }
  | .clear => do
    IO.print "\x1b[2J\x1b[H"
    return p
  | .exec => do
    match p.step (.editFailed "no editor") with
    | .ok (p, effects) =>
      for e in effects do
        if let .print text := e then IO.println text
      return p
    | .error _ => return p

/-- Submits a line as if it had been typed. -/
def submit (p : Shell.Prompt) (line : String) : IO Shell.Prompt := do
  let typed := do
    let (p, _) ← p.step (.typed line)
    ({ p with cycle := none } : Shell.Prompt).step (.key .enter)
  match typed with
  | .error _ => return p
  | .ok (p, effects) => effects.foldlM perform p

/-- Reads and answers lines until the input ends or the user leaves. -/
def shell (session : Shell.Session) : IO Unit := do
  let input ← IO.getStdin
  let mut p := Shell.Prompt.start session {}
  repeat
    if p.quitting then break
    let line ← input.getLine
    if line.isEmpty then break
    p ← submit p line.trimAsciiEnd.toString

/-- Runs a command line; yields the exit code. -/
def run (words : List String) : IO UInt32 := do
  let env ← environment
  let flags := CommandLine.LogFlags.scan {} words
  match ← (CommandLine.run env words : Job IO _).run with
  | .ok .done => return 0
  | .ok (.said text) =>
    IO.print text
    return 0
  | .ok (.shell session) =>
    shell session
    return 0
  | .error f =>
    log (.make flags.settings)
      { level := .error, message := "run failed", attrs := [("error", f.datum)] }
    return 1

end Lowlang.Main

/-- Runs the command line of the process. -/
def main (words : List String) : IO UInt32 :=
  Lowlang.Main.run words
