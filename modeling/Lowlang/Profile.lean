set_option autoImplicit false

/-!
# Profiling

What a profile of the program would be made of.  Without a mode no profile is made, and this
program has none to choose from.
-/

namespace Lowlang

/-- How a profile is made. -/
structure Profile where
  mode : String := ""
  /-- The directory it is written to. -/
  path : String := ""
  quiet : Bool := false
  deriving DecidableEq, Repr, Inhabited

namespace Profile

/-- The modes to choose from. -/
def modes : List String := []

/-- A change to how a profile is made. -/
inductive Change where
  | mode (s : String)
  | path (s : String)
  | quiet (b : Bool)
  deriving DecidableEq, Repr

/-- The profile after a change. -/
def apply (p : Profile) : Change → Profile
  | .mode s => { p with mode := s }
  | .path s => { p with path := s }
  | .quiet b => { p with quiet := b }

/-- The profiles after each of several changes. -/
def trail (p : Profile) : List Change → List Profile
  | [] => []
  | c :: cs => p.apply c :: trail (p.apply c) cs

end Profile

end Lowlang
