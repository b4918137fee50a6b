import Lowlang.Expr.Grammar
import Lowlang.Ty.Parser
import Lowlang.Value.Basic

set_option autoImplicit false

/-!
# Values from expressions

What an expression tree means as a value.  Integers, truth values, one-character strings,
lists, names and chains of members, calls, and the logical, comparing and computing
operators have a meaning; a handful of functions build typed literals, types and bitwise
operators.  Everything else is refused with the reason.
-/

namespace Lowlang.Value

open Lowlang.Expr (Node)

/-- Where values are read from: the text for reports, and the position every node gets. -/
structure Origin where
  source : String
  pos : Pos

/-- A refusal of a well-formed expression.  The node it is about is worded by the library that
reads expressions. -/
def unsupported (o : Origin) (reason : String) : Fault :=
  .of .unsupportedExpr
    [Attr.text "source" o.source, ("node", .unworded), Attr.text "reason" reason]

/-- The value operator of an expression operator. -/
def binaryOperator : String → Option Operator
  | ">" => some .greater
  | ">=" => some .greaterEqual
  | "<" => some .less
  | "<=" => some .lessEqual
  | "==" => some .equal
  | "and" | "&&" => some .and
  | "or" | "||" => some .or
  | "+" => some .add
  | "-" => some .sub
  | "*" => some .mul
  | "/" => some .div
  | "%" => some .modulo
  | _ => none

/-- The functions that stand for bitwise operators. -/
def bitwiseFunction : String → Option Operator
  | "bitand" => some .bitAnd
  | "bitor" => some .bitOr
  | "bitxor" => some .bitXor
  | "bitnot" => some .bitNot
  | "bitshl" => some .shiftLeft
  | "bitshr" => some .shiftRight
  | _ => none

/-- The name of a bitwise operator's function. -/
def functionOf : Operator → Option String
  | .bitAnd => some "bitand"
  | .bitOr => some "bitor"
  | .bitXor => some "bitxor"
  | .bitNot => some "bitnot"
  | .shiftLeft => some "bitshl"
  | .shiftRight => some "bitshr"
  | _ => none

theorem bitwiseFunction_functionOf {op : Operator} {f : String} (h : functionOf op = some f) :
    bitwiseFunction f = some op := by
  cases op <;> simp [functionOf] at h <;> subst h <;> rfl

/-- The dotted name of a chain of members by name. -/
def staticName : Node → Option String
  | .ident base => some base
  | .member object (.string part) false => (staticName object).map fun n => n ++ "." ++ part
  | _ => none

/-- A typed literal: `uint`, `byte` or `char` of one integer. -/
def typedLiteral (o : Origin) (f : String) (args : List Node) : Except Fault Value :=
  match args with
  | [.integer n] =>
    if f == "uint" then .ok (.uint o.pos (UInt64.ofNat n))
    else if f == "byte" then
      if n ≤ 0xFF then .ok (.byte o.pos (UInt8.ofNat n))
      else .error (unsupported o "byte value out of range")
    else
      if n ≤ 0x10FFFF then .ok (.char o.pos (Int32.ofNat n))
      else .error (unsupported o "char value out of range")
  | [_] => .error (unsupported o (f ++ "() takes one non-negative integer literal"))
  | _ => .error (unsupported o (f ++ "() takes one integer literal"))

/-- A type literal: `type` of one string. -/
def typeLiteral (o : Origin) (args : List Node) : Except Fault Value :=
  match args with
  | [.string s] => (Ty.parse s).map fun t => .type o.pos (some t)
  | _ => .error (unsupported o "type() takes one string literal")

/-- Whether calls of `f` are literals, whose arguments are not values. -/
def isLiteralFunction (f : String) : Bool :=
  f == "uint" || f == "byte" || f == "char" || f == "type"

/-- The literal that a call of a literal function is. -/
def literalCall (o : Origin) (f : String) (args : List Node) : Except Fault Value :=
  if f == "type" then typeLiteral o args else typedLiteral o f args

/-- The value of a call with the given argument values. -/
def callOf (o : Origin) (f : String) (args : List Value) : Except Fault Value :=
  match bitwiseFunction f with
  | none => .ok (.call o.pos f args)
  | some op =>
    match args with
    | [x] =>
      if op.isUnary then .ok (.operator o.pos op x .absent)
      else .error (unsupported o ("wrong operand count for " ++ f))
    | [x, y] =>
      if op.isBinary then .ok (.operator o.pos op x y)
      else .error (unsupported o ("wrong operand count for " ++ f))
    | _ => .error (unsupported o ("wrong operand count for " ++ f))

/-- The value of a unary operator: signs fold into integer literals, and a minus before
anything else is a difference from zero. -/
def unaryOf (o : Origin) (op : String) (x : Value) : Except Fault Value :=
  if op == "not" || op == "!" then .ok (.operator o.pos .not x .absent)
  else if op == "+" then .ok x
  else if op == "-" then
    match x with
    | .int p i => .ok (.int p (-i))
    | x => .ok (.operator o.pos .sub (.int o.pos 0) x)
  else .error (unsupported o ("unknown unary operator " ++ op))

/-- The value of a binary operator; inequality is the negation of equality. -/
def binaryOf (o : Origin) (op : String) (x y : Value) : Except Fault Value :=
  if op == "!=" then .ok (.operator o.pos .not (.operator o.pos .equal x y) .absent)
  else
    match binaryOperator op with
    | some k => .ok (.operator o.pos k x y)
    | none => .error (unsupported o ("unknown binary operator " ++ op))

/-- The name a callee calls. -/
def calleeName (o : Origin) : Node → Except Fault String
  | .ident n => .ok n
  | .member a b c =>
    match staticName (.member a b c) with
    | some n => .ok n
    | none => .error (unsupported o "callee must be a static name")
  | _ => .error (unsupported o "callee must be a name")

mutual

/-- The value an expression tree means. -/
def ofNode (o : Origin) : Node → Except Fault Value
  | .integer n => .ok (.int o.pos (Int64.ofNat n))
  | .bool b => .ok (.bool o.pos b)
  | .string s =>
    match s.toList with
    | [c] => .ok (.char o.pos (Int32.ofNat c.toNat))
    | _ => .error (unsupported o "only one-character strings are supported")
  | .array elems => do
    let vs ← ofNodes o elems
    .ok (.list o.pos vs)
  | .ident n => .ok (.name o.pos n)
  | .member a b c =>
    match staticName (.member a b c) with
    | some n => .ok (.name o.pos n)
    | none => .error (unsupported o "member access must be a static name")
  | .chain inner => ofNode o inner
  | .unary op x => do
    let v ← ofNode o x
    unaryOf o op v
  | .binary op x y => do
    let v ← ofNode o x
    let w ← ofNode o y
    binaryOf o op v w
  | .call callee args => do
    let f ← calleeName o callee
    if isLiteralFunction f then literalCall o f args
    else do
      let vs ← ofNodes o args
      callOf o f vs
  | .builtin f args =>
    if isLiteralFunction f then literalCall o f args
    else do
      let vs ← ofNodes o args
      callOf o f vs
  | .foreign => .error (unsupported o "no IL equivalent")
termination_by structural n => n

/-- The values of trees in order, up to the first refusal. -/
def ofNodes (o : Origin) : List Node → Except Fault (List Value)
  | [] => .ok []
  | n :: ns => do
    let v ← ofNode o n
    let vs ← ofNodes o ns
    .ok (v :: vs)
termination_by structural n => n

end

/-- The value of an expression text, every node of it at `pos`. -/
def parseAt (pos : Pos) (src : String) : Except Fault Value :=
  if (Text.trim src.toList).isEmpty then
    .error (.of .parseExpr [Attr.text "reason" "empty expression"])
  else
    match Expr.Grammar.parse? src.toList with
    | none => .error (.because .parseExpr .unworded [Attr.text "source" src])
    | some n => ofNode ⟨src, pos⟩ n

/-- The value of an expression text. -/
def parse (src : String) : Except Fault Value :=
  parseAt .none src

end Lowlang.Value
