import Lowlang.Host
import Lowlang.Program.Reading

set_option autoImplicit false

/-!
# Preludes

Preludes declare names that programs find in their surroundings.  A prelude is named by its
file, or by a name that is looked for in the directories of a search path.  Each file is read
once, however often and under whatever names it is asked for.
-/

namespace Lowlang.Prelude

variable {m : Type → Type} [Monad m] [Host m]

/-- Whether a path leads to a directory. -/
def isDirectory (path : String) : m Bool := do
  match ← Host.stat path with
  | .ok info => return info.isDirectory
  | .error _ => return false

/-- Whether a path leads to a file. -/
def isFile (path : String) : m Bool := do
  match ← Host.stat path with
  | .ok info => return !info.isDirectory
  | .error _ => return false

/-- The directories of lists in which colons divide them. -/
def listed (lists : List String) : List String :=
  (lists.flatMap fun l => l.splitOn ":").filter (· ≠ "")

/-- The items of a list without repetitions, each at its first place. -/
def distinct (seen : List String) : List String → List String
  | [] => []
  | s :: rest =>
    if seen.contains s then distinct seen rest else s :: distinct (s :: seen) rest

/-- The directories searched for preludes: those of the command line, the last of them first,
then those of the environment, then the fallbacks; each once, and only where it exists. -/
def searchPath (dirs : List String) (environment : String) (fallback : List String) :
    m (List String) := do
  (distinct [] (listed dirs.reverse ++ listed (environment :: fallback))).filterM isDirectory

/-- The endings tried when a name is no file by itself. -/
def endings : List String := ["", ".yaml", ".yml"]

/-- The files a name may stand for, in order. -/
def candidates (name : String) (path : List String) : List String :=
  endings.map (name ++ ·)
    ++ if Files.isAbsolute name then []
      else path.flatMap fun dir => endings.map fun e => Files.join dir (name ++ e)

/-- The file a name stands for. -/
def resolve (name : String) (path : List String) : m (Option String) :=
  (candidates name path).findM? isFile

/-- A record about a prelude. -/
def record (message path : String) (more : List Attr) : Log.Record :=
  { level := .debug, message, attrs := Attr.text "path" path :: more }

/-- Reads preludes in order, those with an identity in `seen` apart. -/
def loadFrom (logger : Log.Logger) (path : List String) (seen : List String) :
    List String → Job m (List Decl)
  | [] => return []
  | name :: names => do
    match ← Job.ask (resolve name path) with
    | none =>
      throw (.because .prelude .absent [Attr.text "prelude" name, ("search", .texts path)])
    | some file =>
      match ← Job.ask (Host.stat file) with
      | .error p => throw (.because .prelude (p.fault "stat" file) [Attr.text "prelude" file])
      | .ok info =>
        if seen.contains info.identity then
          Job.ask (Host.log logger (record "prelude already loaded" file []))
          loadFrom logger path seen names
        else
          match ← Job.ask (Host.read file) with
          | .error f => throw (.because .prelude f [Attr.text "prelude" file])
          | .ok content =>
            let ds ← Job.of (Program.parseBuiltins file content)
            Job.ask (Host.log logger (record "prelude loaded" file [Attr.int "names" ds.length]))
            return ds ++ (← loadFrom logger path (info.identity :: seen) names)

/-- Reads preludes in order. -/
def load (logger : Log.Logger) (path names : List String) : Job m (List Decl) :=
  loadFrom logger path [] names

end Lowlang.Prelude
