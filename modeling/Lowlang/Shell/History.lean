import Lowlang.Fault
import Lowlang.Text.Bytes
import Lowlang.Text.Chars

set_option autoImplicit false

/-!
# History

The lines submitted so far, oldest first, each with the mode it was entered in.  A line entered
again moves to the end, and only the latest thousand are kept.  A history may be kept in a file,
one entry a line; the file follows each change.
-/

namespace Lowlang.Shell

/-- How a submitted line is taken. -/
inductive Mode where
  /-- As an expression to be lowered. -/
  | lower
  /-- As a command to the shell. -/
  | command
  deriving DecidableEq, Repr, Inhabited

namespace Mode

/-- The other mode. -/
def other : Mode → Mode
  | .lower => .command
  | .command => .lower

/-- The mark of a mode in front of a stored line. -/
def mark : Mode → String
  | .lower => "L:"
  | .command => "C:"

end Mode

/-- A submitted line. -/
structure Entry where
  mode : Mode
  line : String
  deriving DecidableEq, Repr, Inhabited

namespace Entry

/-- An entry as it is stored. -/
def stored (e : Entry) : String :=
  e.mode.mark ++ e.line

/-- The entry of a stored line; one without a mark is an expression. -/
def ofStored (s : String) : Entry :=
  match s.toList with
  | 'L' :: ':' :: line => ⟨.lower, String.ofList line⟩
  | 'C' :: ':' :: line => ⟨.command, String.ofList line⟩
  | _ => ⟨.lower, s⟩

/-- A line cannot hold a mark of its own in front of the stored one. -/
theorem ofStored_stored (e : Entry) : ofStored e.stored = e := by
  rcases e with ⟨mode, line⟩
  cases mode <;> simp [stored, Mode.mark, ofStored]

end Entry

/-- Where a history is kept. -/
inductive Keeping where
  /-- Only in memory. -/
  | memory
  /-- In a file, with its content when it exists. -/
  | file (content : Option String)
  deriving DecidableEq, Repr, Inhabited

/-- The submitted lines. -/
structure History where
  entries : List Entry := []
  keeping : Keeping := .memory
  deriving DecidableEq, Repr, Inhabited

namespace History

/-- The number of entries kept. -/
def capacity : Nat := 1000

/-- The bytes from which on a stored line is refused. -/
def lineLimit : Nat := 65536

/-- The number of entries. -/
def size (h : History) : Nat :=
  h.entries.length

/-- The entry with number `i`, the oldest being 0. -/
def entry (h : History) (i : Int) : Except Fault Entry :=
  match (if 0 ≤ i then h.entries[i.toNat]? else none) with
  | some e => .ok e
  | none => .error (.of .outOfBounds [])

/-- The latest `capacity` entries. -/
def latest (es : List Entry) : List Entry :=
  es.drop (es.length - capacity)

/-- The text of stored entries. -/
def storedText (es : List Entry) : String :=
  String.join (es.map fun e => e.stored ++ "\n")

/-- The file after all of `es` have been written, of which `e` is new at the end; it is written
`anew` or grows. -/
def written (keeping : Keeping) (anew : Bool) (es : List Entry) (e : Entry) : Keeping :=
  match keeping with
  | .memory => .memory
  | .file content =>
    if anew then .file (some (storedText es))
    else .file (some (content.getD "" ++ e.stored ++ "\n"))

/-- Records an entry that is not the last one already: an earlier one like it goes, and the
oldest give way.  The file grows by a line when nothing else changed. -/
def push (h : History) (e : Entry) : History :=
  let known := h.entries.contains e
  let grown := h.entries.erase e ++ [e]
  let kept := latest grown
  { entries := kept
    keeping := written h.keeping (known || capacity < grown.length) kept e }

/-- Records a submitted line; blank lines and repetitions of the last line are not recorded. -/
def append (h : History) (line : String) (mode : Mode) : History :=
  let line := Text.trimSpace line
  let e : Entry := ⟨mode, line⟩
  if line = "" || h.entries.getLast? = some e then h else h.push e

/-- The lines of a file, the last of which need not be ended. -/
def lines (content : String) : List String :=
  (content.toList.splitOn '\n').map String.ofList

/-- The entries of stored lines, up to a line that is too long. -/
def readLines : List String → List Entry × Option Fault
  | [] => ([], none)
  | l :: ls =>
    if lineLimit ≤ l.utf8ByteSize then
      ([], some (.plain "bufio.Scanner: token too long" none))
    else
      let rest := readLines ls
      let line := Text.trimSpace l
      (if line = "" then rest.1 else Entry.ofStored line :: rest.1, rest.2)

/-- Takes over the entries of the file; without a file nothing changes. -/
def load (h : History) : History × Option Fault :=
  match h.keeping with
  | .file (some content) =>
    let read := readLines (lines content)
    ({ h with entries := read.1 }, read.2)
  | _ => (h, none)

end History

end Lowlang.Shell
