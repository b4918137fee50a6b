import Lowlang.Text.Quoted

set_option autoImplicit false

/-!
# Types

The static types of names and values.  An element or result type may be missing in a tree
that was built by hand, and a kind number outside the table stands for itself; both have a
text and take part in equality, so every operation here is total on malformed trees too.
-/

namespace Lowlang

/-- The type of a name or value. -/
inductive Ty where
  /-- The unit type of statements evaluated for effect. -/
  | null
  /-- Signed integers. -/
  | int
  /-- Unsigned integers. -/
  | uint
  /-- Unsigned integers of eight bits. -/
  | byte
  /-- Single code points. -/
  | char
  /-- Truth values. -/
  | bool
  /-- Lists of anything. -/
  | list
  /-- Lists whose elements share one type. -/
  | array (elem : Option Ty)
  /-- A named type. -/
  | custom (name : String)
  /-- Functions. -/
  | function (params : List Ty) (result : Option Ty)
  /-- Any one of the members. -/
  | union (members : List Ty)
  /-- A kind number that names no type. -/
  | other (kind : Int)
  deriving Repr, Inhabited

namespace Ty

/-! ## Kinds -/

/-- The names of the kinds, by kind number. -/
def kindNames : List String :=
  ["Null", "Int", "Uint", "Byte", "Char", "Bool", "List", "Array", "Custom", "Function", "Union"]

/-- The name of the kind with number `n`. -/
def kindName (n : Int) : String :=
  match (if 0 ≤ n then kindNames[n.toNat]? else none) with
  | some s => s
  | none => "TypeKind(" ++ Text.intText n ++ ")"

/-- The kind number of a type. -/
def kind : Ty → Int
  | .null => 0
  | .int => 1
  | .uint => 2
  | .byte => 3
  | .char => 4
  | .bool => 5
  | .list => 6
  | .array _ => 7
  | .custom _ => 8
  | .function _ _ => 9
  | .union _ => 10
  | .other k => k

/-- Whether the type is a function type. -/
def isFunction : Ty → Bool
  | .function _ _ => true
  | _ => false

/-! ## Equality -/

mutual

/-- Whether two types are structurally identical. -/
def same : Ty → Ty → Bool
  | .array s, .array t => sameOption s t
  | .custom m, .custom n => m == n
  | .function ps r, .function qs s => sameList ps qs && sameOption r s
  | .union ms, .union ns => sameList ms ns
  | .null, .null => true
  | .int, .int => true
  | .uint, .uint => true
  | .byte, .byte => true
  | .char, .char => true
  | .bool, .bool => true
  | .list, .list => true
  | .other j, .other k => j == k
  | _, _ => false
termination_by structural t => t

/-- Whether two types that may be missing are identical. -/
def sameOption : Option Ty → Option Ty → Bool
  | none, none => true
  | some s, some t => same s t
  | _, _ => false
termination_by structural t => t

/-- Whether two lists of types are identical member by member. -/
def sameList : List Ty → List Ty → Bool
  | [], [] => true
  | s :: ss, t :: ts => same s t && sameList ss ts
  | _, _ => false
termination_by structural t => t

end

/-! ## Text -/

/-- `s`, in parentheses when `group` asks for them. -/
def grouped (group : Bool) (s : String) : String :=
  if group then "(" ++ s ++ ")" else s

mutual

/-- The text of a type.  Functions and unions bind looser than the bar between the members
of a union, so there they are grouped. -/
def textIn (inUnion : Bool) : Ty → String
  | .array elem => "[" ++ textOr "" elem ++ "]"
  | .custom name => name
  | .function params result =>
    grouped inUnion ("(" ++ textJoin false ", " params ++ "): " ++ textOr "Null" result)
  | .union [] => grouped inUnion "Never"
  | .union (m :: ms) => grouped inUnion (textIn true m ++ textRest true " | " ms)
  | .null => "Null"
  | .int => "Int"
  | .uint => "Uint"
  | .byte => "Byte"
  | .char => "Char"
  | .bool => "Bool"
  | .list => "List"
  | .other k => kindName k
termination_by structural t => t

/-- The text of a type that may be missing. -/
def textOr (missing : String) : Option Ty → String
  | none => missing
  | some t => textIn false t
termination_by structural t => t

/-- Types with a separator between them. -/
def textJoin (inUnion : Bool) (sep : String) : List Ty → String
  | [] => ""
  | t :: ts => textIn inUnion t ++ textRest inUnion sep ts
termination_by structural t => t

/-- Types with a separator before each. -/
def textRest (inUnion : Bool) (sep : String) : List Ty → String
  | [] => ""
  | t :: ts => sep ++ textIn inUnion t ++ textRest inUnion sep ts
termination_by structural t => t

end

/-- The text form of a type. -/
def text (t : Ty) : String :=
  textIn false t

end Ty

/-- A name with its declared type. -/
structure Decl where
  name : String
  type : Ty
  deriving Repr, Inhabited

end Lowlang
