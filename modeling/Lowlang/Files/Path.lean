set_option autoImplicit false

/-!
# Paths

Paths as text: names divided by slashes.  A path that starts with a slash is absolute; any
other is meant from a working directory.
-/

namespace Lowlang.Files

/-- The parts of a path between slashes. -/
def parts (path : String) : List String :=
  path.splitOn "/"

/-- Whether a path is absolute. -/
def isAbsolute (path : String) : Bool :=
  path.startsWith "/"

/-- The parts of a path, latest first, after one more part: names are added, and two dots take
a name back where there is one. -/
def addPart (rooted : Bool) (done : List String) (part : String) : List String :=
  if part = "" || part = "." then done
  else if part = ".." then
    match done with
    | [] => if rooted then [] else [".."]
    | ".." :: _ => ".." :: done
    | _ :: rest => rest
  else part :: done

/-- The shortest spelling of a path. -/
def clean (path : String) : String :=
  let rooted := isAbsolute path
  let kept := ((parts path).foldl (addPart rooted) []).reverse
  let text := "/".intercalate kept
  if rooted then "/" ++ text else if text = "" then "." else text

/-- The path that leads through both, either of which may be empty. -/
def join (a b : String) : String :=
  if a = "" then (if b = "" then "" else clean b)
  else if b = "" then clean a
  else clean (a ++ "/" ++ b)

/-- A path as it is meant from the directory `cwd`. -/
def absolute (cwd path : String) : String :=
  if isAbsolute path then clean path else join cwd path

end Lowlang.Files
