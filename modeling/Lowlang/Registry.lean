import Lowlang.Fault
import Lowlang.Ty.Basic

set_option autoImplicit false

/-!
# Name registries

A registry gives each declared name one type.  The first declaration of a name stands; a
later one is refused and changes nothing.  Entries are kept in the order of their names,
which is the order of code points and so also of their bytes.

Registries are values: a scope that starts as a registry and grows never shows through the
registry it started from.
-/

namespace Lowlang

/-- Declared names with their types, ordered by name. -/
structure Registry where
  entries : List Decl
  deriving Repr, Inhabited

namespace Registry

/-- No names. -/
def empty : Registry := ⟨[]⟩

/-- The type of a name among entries. -/
def find (name : String) : List Decl → Option Ty
  | [] => none
  | d :: ds => if d.name = name then some d.type else find name ds

/-- The type declared for `name`. -/
def get? (r : Registry) (name : String) : Option Ty :=
  find name r.entries

/-- Whether `name` is declared. -/
def contains (r : Registry) (name : String) : Bool :=
  (r.get? name).isSome

/-- Puts an entry before the first one with a greater name. -/
def place (d : Decl) : List Decl → List Decl
  | [] => [d]
  | e :: es => if d.name < e.name then d :: e :: es else e :: place d es

/-- The registry with `name` declared, unless it is already. -/
def insert (r : Registry) (name : String) (type : Ty) : Registry :=
  if r.contains name then r else ⟨place ⟨name, type⟩ r.entries⟩

/-- Declares `name`, which must be new. -/
def add (r : Registry) (name : String) (type : Ty) (pos : Pos) : Except Fault Registry :=
  if r.contains name then .error (.namePresent name pos) else .ok (r.insert name type)

/-- The type declared for `name`, which must be declared. -/
def get (r : Registry) (name : String) : Except Fault Ty :=
  match r.get? name with
  | some t => .ok t
  | none => .error (.nameNotFound name .none)

/-- The registry of some declarations, of which the first of each name counts. -/
def ofDecls (ds : List Decl) : Registry :=
  ds.foldl (fun r d => r.insert d.name d.type) empty

/-- The number of declared names. -/
def size (r : Registry) : Nat :=
  r.entries.length

/-- The declared names in order. -/
def names (r : Registry) : List String :=
  r.entries.map Decl.name

/-- The registry as log attributes: each name with the text of its type. -/
def attrs (r : Registry) : List Attr :=
  r.entries.map fun d => Attr.text d.name d.type.text

end Registry

end Lowlang
