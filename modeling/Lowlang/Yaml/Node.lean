import Lowlang.Yaml.Piece

set_option autoImplicit false

/-!
# Document trees

What a document holds: scalars, sequences and mappings, each with its place.  Tags, anchors
and aliases are kept as nodes of their own and never followed here.
-/

namespace Lowlang.Yaml

/-- A line and a column, counted from one. -/
structure Place where
  line : Nat
  column : Nat
  deriving DecidableEq, Repr, Inhabited

/-- Where a token stands. -/
def Token.place (t : Token) : Place :=
  ⟨t.line, t.column⟩

/-- `n` columns behind the start of a token. -/
def Token.after (t : Token) (n : Nat) : Place :=
  ⟨t.line, t.column + n⟩

/-- A node of a document. -/
inductive Node where
  /-- A scalar, and how it was spelled; a block scalar is spelled by its header. -/
  | scalar (place : Place) (written : String) (value : Scalar)
  | alias (place : Place) (name : String)
  /-- The key that merges other mappings. -/
  | mergeKey (place : Place)
  /-- A key behind a question mark, and its spelling. -/
  | asked (place : Place) (shown : String) (value : Node)
  | mapping (place : Place) (entries : List (Node × Node))
  | sequence (place : Place) (items : List Node)
  | tagged (place : Place) (tag : String) (value : Node)
  | anchored (place : Place) (name : String) (value : Node)
  /-- A directive, which makes up a document of its own. -/
  | directive (place : Place)
  deriving Repr, Inhabited

namespace Node

/-- The value that is missing at a place. -/
def missing (place : Place) : Node :=
  .scalar place "null" .null

/-- Where a node starts. -/
def place : Node → Place
  | .scalar p _ _ => p
  | .alias p _ => p
  | .mergeKey p => p
  | .asked p _ _ => p
  | .mapping p _ => p
  | .sequence p _ => p
  | .tagged p _ _ => p
  | .anchored p _ _ => p
  | .directive p => p

/-- The node without its tags and anchors. -/
def bare : Node → Node
  | .tagged _ _ v => v.bare
  | .anchored _ _ v => v.bare
  | n => n

/-- Whether the node is null but for tags and anchors. -/
def isNull (n : Node) : Bool :=
  match n.bare with
  | .scalar _ _ .null => true
  | _ => false

/-- The printed value of a scalar; an alias prints as its name. -/
def scalarText? (n : Node) : Option String :=
  match n.bare with
  | .scalar _ _ v => some v.shown
  | .alias _ name => some name
  | .mergeKey _ => some "<<"
  | _ => none

/-- The text of a key. -/
def keyText (n : Node) : String :=
  match n.scalarText? with
  | some t => t
  | none =>
    match n with
    | .asked _ shown _ => shown
    | _ => ""

/-- What tells the keys of a mapping apart: their spelling.  Aliases have none. -/
def spelling : Node → String
  | .scalar _ written _ => written
  | .mergeKey _ => "<<"
  | .asked _ _ v => v.spelling
  | .tagged _ _ v => v.spelling
  | .anchored _ _ v => v.spelling
  | _ => ""

/-- The number of nodes in a tree, which bounds the depth of every walk over it. -/
def size : Node → Nat
  | .mapping _ es => 1 + sizeEntries es
  | .sequence _ is => 1 + sizeItems is
  | .tagged _ _ v => 1 + size v
  | .anchored _ _ v => 1 + size v
  | .asked _ _ v => 1 + size v
  | _ => 1
termination_by structural n => n
where
  /-- The nodes in entries. -/
  sizeEntries : List (Node × Node) → Nat
    | [] => 0
    | (k, v) :: es => 1 + size k + size v + sizeEntries es
  termination_by structural es => es
  /-- The nodes in items. -/
  sizeItems : List Node → Nat
    | [] => 0
    | n :: is => 1 + size n + sizeItems is
  termination_by structural is => is

end Node

end Lowlang.Yaml
