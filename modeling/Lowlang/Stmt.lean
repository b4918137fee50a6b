import Lowlang.Value.Basic

set_option autoImplicit false

/-!
# Statements and blocks

The executable skeleton of a program.  A block is a list of statements; a conditional may
have no final branch, which differs from having an empty one.  `Stmt.absent` is a hole in
a tree built by hand.
-/

namespace Lowlang

/-- A named, typed parameter of a function. -/
structure Param where
  name : String
  type : Ty
  deriving Repr, Inhabited

/-- A statement, with values whose aggregates have fields named by `κ`. -/
inductive Stmt (κ : Type := String) where
  /-- Nothing, where a statement belongs. -/
  | absent
  /-- A value evaluated for effect. -/
  | eval (pos : Pos) (value : Value κ)
  /-- A declaration of a variable with its first value. -/
  | declare (pos : Pos) (name : String) (type : Option Ty) (value : Value κ)
  /-- An assignment to a declared variable. -/
  | assign (pos : Pos) (name : String) (value : Value κ)
  /-- A declaration of a function. -/
  | function (pos : Pos) (name : String) (params : List Param) (result : Option Ty)
      (body : List (Stmt κ))
  /-- A conditional with further tests and a final branch. -/
  | branch (pos : Pos) (test : Value κ) (body : List (Stmt κ))
      (elifs : List (Value κ × List (Stmt κ))) (otherwise : Option (List (Stmt κ)))
  /-- A kind number that names no statement. -/
  | other (pos : Pos) (kind : Int)
  deriving Repr, Inhabited

/-- Statements in order. -/
abbrev Block (κ : Type := String) := List (Stmt κ)

namespace Stmt

/-- The names of the kinds, by kind number. -/
def kindNames : List String :=
  ["Val", "VarDeclare", "VarAssign", "FnDeclare", "If"]

/-- The name of the kind with number `n`. -/
def kindNameOf (n : Int) : String :=
  match (if 0 ≤ n then kindNames[n.toNat]? else none) with
  | some s => s
  | none => "StmtKind(" ++ Text.intText n ++ ")"

/-- The name of the kind of a statement. -/
def kindName {κ : Type} : Stmt κ → String
  | .absent => "<nil>"
  | .eval _ _ => "Val"
  | .declare _ _ _ _ => "VarDeclare"
  | .assign _ _ _ => "VarAssign"
  | .function _ _ _ _ _ => "FnDeclare"
  | .branch _ _ _ _ _ => "If"
  | .other _ k => kindNameOf k

/-- The position of a statement. -/
def pos {κ : Type} : Stmt κ → Pos
  | .absent => .none
  | .eval p _ => p
  | .declare p _ _ _ => p
  | .assign p _ _ => p
  | .function p _ _ _ _ => p
  | .branch p _ _ _ _ => p
  | .other p _ => p

/-- The type of the function that a declaration with these parts declares. -/
def signature (params : List Param) (result : Option Ty) : Ty :=
  .function (params.map Param.type) (some (result.getD .null))

/-- The type of the declared function, for a function declaration. -/
def signature? : Stmt → Option Ty
  | .function _ _ params result _ => some (signature params result)
  | _ => none

/-! ## Equality -/

/-- Whether two parameters agree in name and type. -/
def sameParams : List Param → List Param → Bool
  | [], [] => true
  | p :: ps, q :: qs => p.name == q.name && p.type.same q.type && sameParams ps qs
  | _, _ => false

mutual

/-- Whether two statements are structurally identical, positions aside. -/
def same : Stmt → Stmt → Bool
  | .absent, .absent => true
  | .eval _ v, .eval _ w => v.same w
  | .declare _ m s v, .declare _ n t w => m == n && Ty.sameOption s t && v.same w
  | .assign _ m v, .assign _ n w => m == n && v.same w
  | .function _ m ps r b, .function _ n qs s c =>
    m == n && Ty.sameOption r s && sameParams ps qs && sameBlock b c
  | .branch _ v b es o, .branch _ w c fs p =>
    v.same w && sameBlock b c && sameElifs es fs && sameOtherwise o p
  | .other _ j, .other _ k => j == k
  | _, _ => false
termination_by structural s => s

/-- Whether two blocks hold identical statements in the same order. -/
def sameBlock : List Stmt → List Stmt → Bool
  | [], [] => true
  | s :: ss, t :: ts => same s t && sameBlock ss ts
  | _, _ => false
termination_by structural s => s

/-- Whether two lists of further tests are identical. -/
def sameElifs : List (Value × List Stmt) → List (Value × List Stmt) → Bool
  | [], [] => true
  | (v, b) :: bs, (w, c) :: cs => v.same w && sameBlock b c && sameElifs bs cs
  | _, _ => false
termination_by structural s => s

/-- Whether two final branches are both missing or identical. -/
def sameOtherwise : Option (List Stmt) → Option (List Stmt) → Bool
  | none, none => true
  | some b, some c => sameBlock b c
  | _, _ => false
termination_by structural s => s

end

/-! ## Listing text -/

/-- Parameters with their types, commas between them. -/
def textParams (ps : List Param) : String :=
  ", ".intercalate (ps.map fun p => p.name ++ ": " ++ p.type.text)

/-- Lines between braces, the opening one on a line of its own. -/
def braced (lines : String) : String :=
  "\x7b\n" ++ lines ++ "\x7d"

mutual

/-- The text of a statement in listings. -/
def text : Stmt → String
  | .absent => "<nil>"
  | .eval _ v => v.text
  | .declare _ n t v =>
    "let " ++ n ++ (match t with | none => "" | some t => ": " ++ t.text) ++ " = " ++ v.text
  | .assign _ n v => n ++ " = " ++ v.text
  | .function _ n ps r body =>
    "fn " ++ n ++ "(" ++ textParams ps ++ "): " ++ Ty.textOr "Null" r ++ " "
      ++ braced (textLines body)
  | .branch _ v body elifs otherwise =>
    "if ( " ++ v.text ++ " ) " ++ braced (textLines body) ++ textElifs elifs
      ++ textOtherwise otherwise
  | .other _ k => kindNameOf k
termination_by structural s => s

/-- Statements, each ended by a line break. -/
def textLines : List Stmt → String
  | [] => ""
  | s :: ss => text s ++ "\n" ++ textLines ss
termination_by structural s => s

/-- The further tests of a conditional. -/
def textElifs : List (Value × List Stmt) → String
  | [] => ""
  | (v, b) :: rest => "else if ( " ++ v.text ++ " ) " ++ braced (textLines b) ++ textElifs rest
termination_by structural s => s

/-- The final branch of a conditional. -/
def textOtherwise : Option (List Stmt) → String
  | none => ""
  | some b => "else " ++ braced (textLines b)
termination_by structural s => s

end

/-- The text of a block: each statement on a line of its own between braces. -/
def textBlock (b : Block) : String :=
  braced (textLines b)

end Stmt

end Lowlang
