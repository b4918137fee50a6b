import Lowlang.Text.Quoted

set_option autoImplicit false

/-!
# Operators and the kinds of values

The operators of the language with their symbols, and the table of kind numbers, in which
the operators stand in one block between the literals and the calls.
-/

namespace Lowlang

/-- An operator of one or two operands. -/
inductive Operator where
  | greater | greaterEqual | less | lessEqual | equal
  | and | or | not
  | add | sub | mul | div | modulo
  | bitAnd | bitOr | bitXor | bitNot | shiftLeft | shiftRight
  deriving DecidableEq, Repr, Inhabited

namespace Operator

/-- Whether the operator takes one operand. -/
def isUnary : Operator → Bool
  | .not | .bitNot => true
  | _ => false

/-- Whether the operator takes two operands. -/
def isBinary (op : Operator) : Bool :=
  !op.isUnary

/-- The symbol of the operator in listings. -/
def symbol : Operator → String
  | .greater => ">"
  | .greaterEqual => ">="
  | .less => "<"
  | .lessEqual => "<="
  | .equal => "=="
  | .and => "&&"
  | .or => "||"
  | .not => "!"
  | .add => "+"
  | .sub => "-"
  | .mul => "*"
  | .div => "/"
  | .modulo => "%"
  | .bitAnd => "&"
  | .bitOr => "|"
  | .bitXor => "^"
  | .bitNot => "~"
  | .shiftLeft => "<<"
  | .shiftRight => ">>"

/-- The operators in the order of their kind numbers. -/
def all : List Operator :=
  [.greater, .greaterEqual, .less, .lessEqual, .equal, .and, .or, .not, .add, .sub, .mul,
    .div, .modulo, .bitAnd, .bitOr, .bitXor, .bitNot, .shiftLeft, .shiftRight]

/-- The name of the kind of values the operator builds. -/
def kindName : Operator → String
  | .greater => "Greater"
  | .greaterEqual => "GreaterEqual"
  | .less => "Less"
  | .lessEqual => "LessEqual"
  | .equal => "Equal"
  | .and => "And"
  | .or => "Or"
  | .not => "Not"
  | .add => "Add"
  | .sub => "Sub"
  | .mul => "Mul"
  | .div => "Div"
  | .modulo => "Modulo"
  | .bitAnd => "BitwiseAnd"
  | .bitOr => "BitwiseOr"
  | .bitXor => "BitwiseXor"
  | .bitNot => "BitwiseNot"
  | .shiftLeft => "BitwiseShift"
  | .shiftRight => "BitwiseUnshift"

end Operator

/-- The kind of a value: what its constructor is, as a number. -/
structure Kind where
  number : Int
  deriving DecidableEq, Repr, Inhabited

namespace Kind

/-- The names of the kinds, by kind number. -/
def names : List String :=
  ["Int", "Uint", "Byte", "Char", "Bool", "List", "Custom", "Type", "Name"]
    ++ Operator.all.map Operator.kindName ++ ["FnCall"]

/-- The first kind number of an operator. -/
def firstOperator : Nat := 9

/-- The operator of a kind, when it is an operator kind. -/
def operator? (k : Kind) : Option Operator :=
  if (firstOperator : Int) ≤ k.number then
    Operator.all[(k.number - firstOperator).toNat]?
  else none

/-- The name of a kind. -/
def name (k : Kind) : String :=
  match (if 0 ≤ k.number then names[k.number.toNat]? else none) with
  | some s => s
  | none => "Kind(" ++ Text.intText k.number ++ ")"

/-- The kind with the given name. -/
def ofName? (s : String) : Option Kind :=
  (names.findIdx? (· == s)).map fun i => ⟨i⟩

/-- Whether values of the kind are scalar literals. -/
def isLiteral (k : Kind) : Bool :=
  0 ≤ k.number && k.number ≤ 4

/-- Whether values of the kind apply an operator to two operands. -/
def isBinary (k : Kind) : Bool :=
  match k.operator? with
  | some op => op.isBinary
  | none => false

/-- Whether values of the kind apply an operator to one operand. -/
def isUnary (k : Kind) : Bool :=
  match k.operator? with
  | some op => op.isUnary
  | none => false

/-- Whether values of the kind apply an operator. -/
def isOperator (k : Kind) : Bool :=
  k.operator?.isSome

/-- The symbol of an operator kind; nothing for others. -/
def symbol (k : Kind) : String :=
  match k.operator? with
  | some op => op.symbol
  | none => ""

end Kind

end Lowlang
