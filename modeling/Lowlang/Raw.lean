import Lowlang.Stmt

set_option autoImplicit false

/-!
# Trees built by hand

A node of a tree that was built by hand is a record: a kind number, and room for the parts of every
kind.  The kind decides which parts mean something; the others may hold anything.

Equality of types and values looks at the meaningful parts only, equality of statements at all
parts.  No equality looks at positions.  A missing block equals an empty one, but a missing final
branch differs from an empty one, and a missing type from the null type.
-/

namespace Lowlang

/-! ## Types -/

/-- What the kind number of a type makes of it. -/
inductive Ty.Form where
  /-- A type without parts. -/
  | plain (type : Ty)
  | array | custom | function | union

/-- The form of the types of a kind. -/
def Ty.Form.ofKind : Int → Ty.Form
  | 0 => .plain .null
  | 1 => .plain .int
  | 2 => .plain .uint
  | 3 => .plain .byte
  | 4 => .plain .char
  | 5 => .plain .bool
  | 6 => .plain .list
  | 7 => .array
  | 8 => .custom
  | 9 => .function
  | 10 => .union
  | k => .plain (.other k)

/-- A type as a record. -/
structure Ty.Raw where
  kind : Int
  name : String := ""
  elem : Option Ty.Raw := none
  params : List Ty.Raw := []
  result : Option Ty.Raw := none
  members : List Ty.Raw := []
  deriving Repr, Inhabited

namespace Ty.Raw

mutual

/-- Whether two types agree in kind and in the parts that mean something. -/
def same : Ty.Raw → Ty.Raw → Bool
  | ⟨k, m, e, ps, r, ms⟩, ⟨l, n, f, qs, s, ns⟩ =>
    k == l && match Form.ofKind k with
      | .plain _ => true
      | .array => sameOption e f
      | .custom => m == n
      | .function => sameList ps qs && sameOption r s
      | .union => sameList ms ns
termination_by structural t => t

/-- Whether two types that may be missing are both missing or the same. -/
def sameOption : Option Ty.Raw → Option Ty.Raw → Bool
  | none, none => true
  | some t, some u => same t u
  | _, _ => false
termination_by structural t => t

/-- Whether two lists of types are the same member by member. -/
def sameList : List Ty.Raw → List Ty.Raw → Bool
  | [], [] => true
  | t :: ts, u :: us => same t u && sameList ts us
  | _, _ => false
termination_by structural ts => ts

end

mutual

/-- The type that the record stands for. -/
def meaning : Ty.Raw → Ty
  | ⟨k, n, e, ps, r, ms⟩ =>
    match Form.ofKind k with
    | .plain t => t
    | .array => .array (meaningOption e)
    | .custom => .custom n
    | .function => .function (meaningList ps) (meaningOption r)
    | .union => .union (meaningList ms)
termination_by structural t => t

def meaningOption : Option Ty.Raw → Option Ty
  | none => none
  | some t => some (meaning t)
termination_by structural t => t

def meaningList : List Ty.Raw → List Ty
  | [] => []
  | t :: ts => meaning t :: meaningList ts
termination_by structural ts => ts

end

end Ty.Raw

/-! ## Values -/

/-- What the kind number of a value makes of it. -/
inductive Value.Form where
  | int | uint | byte | char | bool | list | custom | type | name | call
  | operator (op : Operator)
  /-- A kind number that names no value. -/
  | other

/-- The form of the values of a kind. -/
def Value.Form.ofKind (k : Kind) : Value.Form :=
  match k.number with
  | 0 => .int
  | 1 => .uint
  | 2 => .byte
  | 3 => .char
  | 4 => .bool
  | 5 => .list
  | 6 => .custom
  | 7 => .type
  | 8 => .name
  | 28 => .call
  | _ =>
    match k.operator? with
    | some op => .operator op
    | none => .other

/-- A literal of each sort. -/
structure Value.Scalars where
  int : Int64 := 0
  uint : UInt64 := 0
  byte : UInt8 := 0
  char : Int32 := 0
  bool : Bool := false
  deriving Repr, Inhabited

/-- A value as a record, or a hole. -/
inductive Value.Raw where
  /-- Nothing, where a value belongs. -/
  | absent
  | node (kind : Kind) (pos : Pos) (scalars : Value.Scalars) (name : String)
      (type : Option Ty.Raw) (elems : List Value.Raw) (fields : List (String × Value.Raw))
      (x y : Value.Raw) (args : List Value.Raw)
  deriving Repr, Inhabited

namespace Value.Raw

mutual

/-- Whether two values agree in kind and in the parts that mean something. -/
def same : Value.Raw → Value.Raw → Bool
  | .absent, .absent => true
  | .node j _ a m s xs fs x x' as, .node k _ b n t ys gs y y' bs =>
    j == k && match Form.ofKind j with
      | .int => a.int == b.int
      | .uint => a.uint == b.uint
      | .byte => a.byte == b.byte
      | .char => a.char == b.char
      | .bool => a.bool == b.bool
      | .list => sameList xs ys
      | .custom => Ty.Raw.sameOption s t && sameFields fs gs
      | .type => Ty.Raw.sameOption s t
      | .name => m == n
      | .call => m == n && sameList as bs
      | .operator _ | .other => same x y && same x' y'
  | _, _ => false
termination_by structural v => v

/-- Whether two lists of values are the same member by member. -/
def sameList : List Value.Raw → List Value.Raw → Bool
  | [], [] => true
  | v :: vs, w :: ws => same v w && sameList vs ws
  | _, _ => false
termination_by structural vs => vs

/-- Whether two lists of fields are the same, names and values. -/
def sameFields : List (String × Value.Raw) → List (String × Value.Raw) → Bool
  | [], [] => true
  | (m, v) :: fs, (n, w) :: gs => m == n && same v w && sameFields fs gs
  | _, _ => false
termination_by structural fs => fs

end

mutual

/-- The value that the record stands for. -/
def meaning : Value.Raw → Value
  | .absent => .absent
  | .node k p a n t elems fields x y args =>
    match Form.ofKind k with
    | .int => .int p a.int
    | .uint => .uint p a.uint
    | .byte => .byte p a.byte
    | .char => .char p a.char
    | .bool => .bool p a.bool
    | .list => .list p (meaningList elems)
    | .custom => .custom p (Ty.Raw.meaningOption t) (meaningFields fields)
    | .type => .type p (Ty.Raw.meaningOption t)
    | .name => .name p n
    | .call => .call p n (meaningList args)
    | .operator op => .operator p op (meaning x) (meaning y)
    | .other => .other p k.number (meaning x) (meaning y)
termination_by structural v => v

def meaningList : List Value.Raw → List Value
  | [] => []
  | v :: vs => meaning v :: meaningList vs
termination_by structural vs => vs

def meaningFields : List (String × Value.Raw) → List (String × Value)
  | [] => []
  | (n, v) :: fields => (n, meaning v) :: meaningFields fields
termination_by structural fields => fields

end

end Value.Raw

/-! ## Statements -/

/-- What the kind number of a statement makes of it. -/
inductive Stmt.Form where
  | eval | declare | assign | function | branch
  /-- A kind number that names no statement. -/
  | other

/-- The form of the statements of a kind. -/
def Stmt.Form.ofKind : Int → Stmt.Form
  | 0 => .eval
  | 1 => .declare
  | 2 => .assign
  | 3 => .function
  | 4 => .branch
  | _ => .other

/-- A parameter with its type as a record. -/
structure Param.Raw where
  name : String
  type : Ty.Raw
  deriving Repr, Inhabited

/-- A statement as a record, or a hole. -/
inductive Stmt.Raw where
  /-- Nothing, where a statement belongs. -/
  | absent
  | node (kind : Int) (pos : Pos) (name : String) (type : Option Ty.Raw) (value : Value.Raw)
      (params : List Param.Raw) (body : Option (List Stmt.Raw))
      (elifs : List (Value.Raw × Option (List Stmt.Raw)))
      (otherwise : Option (List Stmt.Raw))
  deriving Repr, Inhabited

/-- Statements in order, or no block at all. -/
abbrev Block.Raw := Option (List Stmt.Raw)

namespace Stmt.Raw

/-- Whether two lists of parameters agree in names and types. -/
def sameParams : List Param.Raw → List Param.Raw → Bool
  | [], [] => true
  | p :: ps, q :: qs => p.name == q.name && p.type.same q.type && sameParams ps qs
  | _, _ => false

mutual

/-- Whether two statements agree in all parts but their positions. -/
def same : Stmt.Raw → Stmt.Raw → Bool
  | .absent, .absent => true
  | .node j _ m s v ps b es o, .node k _ n t w qs c fs p =>
    j == k && m == n && Ty.Raw.sameOption s t && v.same w && sameParams ps qs && sameBlock b c
      && sameElifs es fs && (o.isNone == p.isNone) && sameBlock o p
  | _, _ => false
termination_by structural s => s

/-- Whether two lists of statements are the same member by member. -/
def sameList : List Stmt.Raw → List Stmt.Raw → Bool
  | [], [] => true
  | s :: ss, t :: ts => same s t && sameList ss ts
  | _, _ => false
termination_by structural ss => ss

/-- Whether two blocks hold the same statements; a missing block holds none. -/
def sameBlock : Option (List Stmt.Raw) → Option (List Stmt.Raw) → Bool
  | none, none => true
  | none, some ts => ts.isEmpty
  | some ss, none => ss.isEmpty
  | some ss, some ts => sameList ss ts
termination_by structural b => b

/-- Whether two lists of further tests are the same. -/
def sameElifs : List (Value.Raw × Option (List Stmt.Raw)) →
    List (Value.Raw × Option (List Stmt.Raw)) → Bool
  | [], [] => true
  | (v, b) :: es, (w, c) :: fs => v.same w && sameBlock b c && sameElifs es fs
  | _, _ => false
termination_by structural es => es

end

/-- The parameter that the record stands for. -/
def meaningParam (p : Param.Raw) : Param :=
  ⟨p.name, p.type.meaning⟩

mutual

/-- The statement that the record stands for. -/
def meaning : Stmt.Raw → Stmt
  | .absent => .absent
  | .node k p n t v params body elifs otherwise =>
    match Form.ofKind k with
    | .eval => .eval p v.meaning
    | .declare => .declare p n (Ty.Raw.meaningOption t) v.meaning
    | .assign => .assign p n v.meaning
    | .function =>
      .function p n (params.map meaningParam) (Ty.Raw.meaningOption t) (meaningBlock body)
    | .branch =>
      .branch p v.meaning (meaningBlock body) (meaningElifs elifs) (meaningOtherwise otherwise)
    | .other => .other p k
termination_by structural s => s

def meaningList : List Stmt.Raw → List Stmt
  | [] => []
  | s :: ss => meaning s :: meaningList ss
termination_by structural ss => ss

/-- The statements of a block; a missing block has none. -/
def meaningBlock : Option (List Stmt.Raw) → List Stmt
  | none => []
  | some ss => meaningList ss
termination_by structural b => b

def meaningElifs : List (Value.Raw × Option (List Stmt.Raw)) → List (Value × List Stmt)
  | [] => []
  | (v, b) :: es => (v.meaning, meaningBlock b) :: meaningElifs es
termination_by structural es => es

/-- A final branch, if there is one. -/
def meaningOtherwise : Option (List Stmt.Raw) → Option (List Stmt)
  | none => none
  | some ss => some (meaningList ss)
termination_by structural b => b

end

end Stmt.Raw

end Lowlang
