import Lowlang.Files.Tree
import Lowlang.Log.Logger

set_option autoImplicit false

/-!
# Surroundings of a command

What commands ask of the place they run in: files, the standard streams and a log.  Commands
are written for any surroundings; one kind is held in memory.
-/

namespace Lowlang

/-- What is known of a file or directory that exists. -/
structure FileInfo where
  isDirectory : Bool
  /-- Names the file itself, however it was reached. -/
  identity : String
  deriving DecidableEq, Repr, Inhabited

/-- Surroundings in which commands run. -/
class Host (m : Type → Type) where
  /-- What a path leads to. -/
  stat : String → m (Except Files.Problem FileInfo)
  /-- The content of a file. -/
  read : String → m (Except Fault String)
  /-- Replaces a file or makes it. -/
  write : String → String → m (Except Fault Unit)
  /-- All of the standard input. -/
  input : m String
  /-- Prints text as it is. -/
  print : String → m Unit
  /-- Logs a record, to which time and place are added. -/
  log : Log.Logger → Log.Record → m Unit

/-- Work in some surroundings that may fail. -/
abbrev Job (m : Type → Type) (α : Type) : Type := ExceptT Fault m α

namespace Job

variable {m : Type → Type} [Monad m] {α : Type}

/-- Asks the surroundings. -/
def ask (x : m α) : Job m α :=
  ExceptT.lift x

/-- A result that needs no surroundings. -/
def of (e : Except Fault α) : Job m α :=
  ExceptT.mk (pure e)

end Job

/-- Surroundings held in memory. -/
structure Memory where
  files : Files.Tree := {}
  /-- The working directory. -/
  cwd : String := "/"
  input : String := ""
  /-- What was printed. -/
  printed : String := ""
  /-- What was logged. -/
  logged : String := ""
  /-- The place that records say they were made at. -/
  caller : String := ""

namespace Memory

/-- What a path leads to. -/
def stat (s : Memory) (path : String) : Except Files.Problem FileInfo := do
  let (place, item) ← s.files.find s.cwd path
  return ⟨item = .directory, "/".intercalate place⟩

instance : Host (StateM Memory) where
  stat path := do return (← get).stat path
  read path := do
    let s ← get
    return s.files.read s.cwd path
  write path content := do
    let s ← get
    match s.files.write s.cwd path content with
    | .ok files =>
      set { s with files }
      return .ok ()
    | .error f => return .error f
  input := do return (← get).input
  print text := modify fun s => { s with printed := s.printed ++ text }
  log logger record := modify fun s =>
    { s with logged := s.logged ++ logger.write { record with source := s.caller } }

end Memory

end Lowlang
