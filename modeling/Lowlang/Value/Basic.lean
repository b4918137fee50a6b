import Lowlang.Value.Operator
import Lowlang.Ty.Basic
import Lowlang.Pos

set_option autoImplicit false

/-!
# Values

Values are the expressions of the language: literals, aggregates, references, calls and
operators, each with the position it was written at.  `Value.absent` is a hole, a place
where a tree built by hand holds nothing.  The fields of an aggregate are named by texts;
in a tree built by hand they may be named by other strings, such as rows of any bytes.

Equality ignores positions and looks only at what a constructor means: of a one-operand
operator it also compares the unused second place, so that malformed trees are told apart
in the same way as well-formed ones.
-/

namespace Lowlang

/-- An expression, in which strings of the type `κ` name the fields of aggregates. -/
inductive Value (κ : Type := String) where
  /-- Nothing, where a value belongs. -/
  | absent
  /-- A signed integer literal. -/
  | int (pos : Pos) (i : Int64)
  /-- An unsigned integer literal. -/
  | uint (pos : Pos) (n : UInt64)
  /-- A byte literal. -/
  | byte (pos : Pos) (b : UInt8)
  /-- A character literal, by code point. -/
  | char (pos : Pos) (c : Int32)
  /-- A truth value. -/
  | bool (pos : Pos) (b : Bool)
  /-- A list. -/
  | list (pos : Pos) (elems : List (Value κ))
  /-- An aggregate of a named type. -/
  | custom (pos : Pos) (type : Option Ty) (fields : List (κ × Value κ))
  /-- A type used as a value. -/
  | type (pos : Pos) (type : Option Ty)
  /-- A reference to a name. -/
  | name (pos : Pos) (name : String)
  /-- A call of a named function. -/
  | call (pos : Pos) (name : String) (args : List (Value κ))
  /-- An operator with its operands; a one-operand operator leaves `y` absent. -/
  | operator (pos : Pos) (op : Operator) (x y : Value κ)
  /-- A kind number that names no value. -/
  | other (pos : Pos) (kind : Int) (x y : Value κ)
  deriving Repr, Inhabited

namespace Value

/-- The kind of a value; a hole has none. -/
def kind? : Value → Option Kind
  | .absent => none
  | .int _ _ => some ⟨0⟩
  | .uint _ _ => some ⟨1⟩
  | .byte _ _ => some ⟨2⟩
  | .char _ _ => some ⟨3⟩
  | .bool _ _ => some ⟨4⟩
  | .list _ _ => some ⟨5⟩
  | .custom _ _ _ => some ⟨6⟩
  | .type _ _ => some ⟨7⟩
  | .name _ _ => some ⟨8⟩
  | .call _ _ _ => some ⟨28⟩
  | .operator _ op _ _ => some ⟨(Kind.firstOperator + (Operator.all.idxOf op) : Nat)⟩
  | .other _ k _ _ => some ⟨k⟩

/-- The position of a value. -/
def pos : Value → Pos
  | .absent => .none
  | .int p _ => p
  | .uint p _ => p
  | .byte p _ => p
  | .char p _ => p
  | .bool p _ => p
  | .list p _ => p
  | .custom p _ _ => p
  | .type p _ => p
  | .name p _ => p
  | .call p _ _ => p
  | .operator p _ _ _ => p
  | .other p _ _ _ => p

/-- Whether the value applies an operator. -/
def isOperator : Value → Bool
  | .operator _ _ _ _ => true
  | _ => false

/-! ## Construction -/

/-- The operator of kind `k` applied to one operand; the wording of the refusal when `k`
takes no single operand. -/
def ofUnary (k : Kind) (x : Value) : Except String Value :=
  match k.operator? with
  | some op =>
    if op.isUnary then .ok (.operator .none op x .absent)
    else .error ("il: " ++ k.name ++ " is not a unary operator")
  | none => .error ("il: " ++ k.name ++ " is not a unary operator")

/-- The operator of kind `k` applied to two operands; the wording of the refusal when `k`
does not take two. -/
def ofBinary (k : Kind) (x y : Value) : Except String Value :=
  match k.operator? with
  | some op =>
    if op.isBinary then .ok (.operator .none op x y)
    else .error ("il: " ++ k.name ++ " is not a binary operator")
  | none => .error ("il: " ++ k.name ++ " is not a binary operator")

/-! ## Equality -/

mutual

/-- Whether two values are structurally identical, positions aside. -/
def same : Value → Value → Bool
  | .absent, .absent => true
  | .int _ i, .int _ j => i == j
  | .uint _ m, .uint _ n => m == n
  | .byte _ a, .byte _ b => a == b
  | .char _ a, .char _ b => a == b
  | .bool _ a, .bool _ b => a == b
  | .list _ xs, .list _ ys => sameList xs ys
  | .custom _ s xs, .custom _ t ys => Ty.sameOption s t && sameFields xs ys
  | .type _ s, .type _ t => Ty.sameOption s t
  | .name _ m, .name _ n => m == n
  | .call _ m xs, .call _ n ys => m == n && sameList xs ys
  | .operator _ p a b, .operator _ q c d => p == q && same a c && same b d
  | .other _ j a b, .other _ k c d => j == k && same a c && same b d
  | _, _ => false
termination_by structural v => v

/-- Whether two lists of values are identical member by member. -/
def sameList : List Value → List Value → Bool
  | [], [] => true
  | v :: vs, w :: ws => same v w && sameList vs ws
  | _, _ => false
termination_by structural v => v

/-- Whether two lists of fields are identical, names and values. -/
def sameFields : List (String × Value) → List (String × Value) → Bool
  | [], [] => true
  | (m, v) :: vs, (n, w) :: ws => m == n && same v w && sameFields vs ws
  | _, _ => false
termination_by structural v => v

end

/-! ## Listing text -/

mutual

/-- The text of a value in listings: operators are infix and not grouped, so the text is
for reading only. -/
def text : Value → String
  | .absent => "<nil>"
  | .int _ i => Text.intText i.toInt
  | .uint _ n => Nat.repr n.toNat
  | .byte _ b => Text.byteText b
  | .char _ c => String.singleton (Text.charOfCode c.toInt)
  | .bool _ b => if b then "true" else "false"
  | .list _ elems => "[" ++ textJoin elems ++ "]"
  | .custom _ t fields => Ty.textOr "" t ++ " \x7b\n" ++ textFields fields ++ "\n\x7d"
  | .type _ t => Ty.textOr "" t
  | .name _ n => n
  | .call _ n args => n ++ "(" ++ textJoin args ++ ")"
  | .operator _ op x y =>
    if op.isUnary then op.symbol ++ text x else text x ++ " " ++ op.symbol ++ " " ++ text y
  | .other _ k _ _ => Kind.name ⟨k⟩
termination_by structural v => v

/-- Values with commas between them. -/
def textJoin : List Value → String
  | [] => ""
  | v :: vs => text v ++ textRest vs
termination_by structural v => v

/-- Values with a comma before each. -/
def textRest : List Value → String
  | [] => ""
  | v :: vs => ", " ++ text v ++ textRest vs
termination_by structural v => v

/-- Fields on lines of their own. -/
def textFields : List (String × Value) → String
  | [] => ""
  | [(n, v)] => n ++ " = " ++ text v
  | (n, v) :: rest => n ++ " = " ++ text v ++ "\n" ++ textFields rest
termination_by structural v => v

end

end Value

end Lowlang
