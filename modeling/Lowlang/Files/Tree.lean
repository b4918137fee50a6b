import Lowlang.Fault
import Lowlang.Files.Path

set_option autoImplicit false

/-!
# File trees

Directories, files and links, held in memory.  Paths are followed part by part, links where
they are met; a path leads to an item, to a place where a file could be made, or nowhere.
-/

namespace Lowlang.Files

/-- What can stand at a place. -/
inductive Item where
  | directory
  | file (content : String)
  | link (target : String)
  deriving DecidableEq, Repr, Inhabited

/-- Why a path leads nowhere. -/
inductive Problem where
  | missing
  | notDirectory
  | isDirectory
  | tooManyLinks
  /-- Some other reason, in words. -/
  | other (wording : String)
  deriving DecidableEq, Repr, Inhabited

/-- The wording of a problem. -/
def Problem.text : Problem → String
  | .missing => "no such file or directory"
  | .notDirectory => "not a directory"
  | .isDirectory => "is a directory"
  | .tooManyLinks => "too many levels of symbolic links"
  | .other wording => wording

/-- A failed action on a file. -/
def Problem.fault (action path : String) (p : Problem) : Fault :=
  .file action path p.text

/-- Places, named from the top, with what stands there. -/
structure Tree where
  items : List (List String × Item) := []
  deriving Repr, Inhabited

namespace Tree

/-- What stands at a place; at the top there is a directory. -/
def get? (t : Tree) (place : List String) : Option Item :=
  if place.isEmpty then some .directory else t.items.lookup place

/-- The tree with an item at a place. -/
def put (t : Tree) (place : List String) (item : Item) : Tree :=
  if (t.items.lookup place).isSome then
    ⟨t.items.map fun e => if e.1 = place then (place, item) else e⟩
  else ⟨t.items ++ [(place, item)]⟩

/-- The tree with the directories above a place. -/
def putParents (t : Tree) (place : List String) : Tree :=
  (List.range place.length).foldl
    (fun t n => if (t.get? (place.take n)).isSome then t else t.put (place.take n) .directory) t

/-- The place of an absolute path. -/
def placeOf (path : String) : List String :=
  ((parts path).foldl (addPart true) []).reverse

/-- The most links on the way of one path. -/
def linkLimit : Nat := 40

/-- Goes on from a place; yields where the way ends and what stands there. -/
def walk (t : Tree) (links : Nat) (place : List String) (rest : List String) :
    Except Problem (List String × Option Item) :=
  match rest with
  | [] => .ok (place, t.get? place)
  | part :: rest =>
    match t.get? place with
    | none => .error .missing
    | some (.file _) => .error .notDirectory
    | some _ =>
      if part = "" || part = "." then walk t links place rest
      else if part = ".." then walk t links place.dropLast rest
      else
        let next := place ++ [part]
        match t.get? next with
        | some (.link target) =>
          match links with
          | 0 => .error .tooManyLinks
          | links + 1 =>
            walk t links (if isAbsolute target then [] else place) (parts target ++ rest)
        | _ => walk t links next rest
termination_by (links, rest.length)

/-- Follows a path from the directory `cwd`. -/
def follow (t : Tree) (cwd path : String) : Except Problem (List String × Option Item) :=
  if path = "" then .error .missing
  else t.walk linkLimit (if isAbsolute path then [] else placeOf cwd) (parts path)

/-- What a path leads to, with its place. -/
def find (t : Tree) (cwd path : String) : Except Problem (List String × Item) := do
  match ← t.follow cwd path with
  | (place, some item) => return (place, item)
  | (_, none) => throw .missing

/-- The content of a file. -/
def read (t : Tree) (cwd path : String) : Except Fault String :=
  match t.find cwd path with
  | .ok (_, .file content) => .ok content
  | .ok _ => .error (Problem.isDirectory.fault "read" path)
  | .error p => .error (p.fault "open" path)

/-- The tree with a file of this content, made if it is not there. -/
def write (t : Tree) (cwd path content : String) : Except Fault Tree :=
  match t.follow cwd path with
  | .ok (place, some (.file _)) => .ok (t.put place (.file content))
  | .ok (place, none) =>
    if path.endsWith "/" then .error (Problem.isDirectory.fault "open" path)
    else .ok (t.put place (.file content))
  | .ok _ => .error (Problem.isDirectory.fault "open" path)
  | .error p => .error (p.fault "open" path)

/-- The files that are new or have another content than in an earlier tree. -/
def changes (t earlier : Tree) : List (List String × String) :=
  t.items.filterMap fun e =>
    match e.2 with
    | .file content => if earlier.get? e.1 = some e.2 then none else some (e.1, content)
    | _ => none

end Tree

end Lowlang.Files
