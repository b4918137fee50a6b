import Lowlang.Expr.Token
import Lowlang.Double

set_option autoImplicit false

/-!
# Expression trees

The shape of an expression, and the tables its grammar speaks of: the precedence of
operators and the predefined functions.  Forms that the language gives no meaning to
(fractions, maps, slices, conditions, bindings, predicates) are kept as `Node.foreign`.
-/

namespace Lowlang.Expr

/-- A node of an expression tree. -/
inductive Node where
  /-- An integer. -/
  | integer (n : Nat)
  /-- A truth value. -/
  | bool (b : Bool)
  /-- A string. -/
  | string (s : String)
  /-- A list in brackets. -/
  | array (elems : List Node)
  /-- A name. -/
  | ident (name : String)
  /-- A part of an object; an optional access yields nothing when the object is missing. -/
  | member (object property : Node) (optional : Bool)
  /-- The extent of an optional access. -/
  | chain (inner : Node)
  /-- An operator before its operand. -/
  | unary (op : String) (x : Node)
  /-- An operator between its operands. -/
  | binary (op : String) (x y : Node)
  /-- A call. -/
  | call (callee : Node) (args : List Node)
  /-- A call of one of the predefined functions. -/
  | builtin (name : String) (args : List Node)
  /-- A form without a meaning in the language. -/
  | foreign
  deriving Repr, Inhabited

namespace Node

/-! ## Operators -/

/-- How strongly an operator between two operands binds. -/
def precedence : String → Option Nat
  | "|" => some 0
  | "or" | "||" => some 10
  | "and" | "&&" => some 15
  | "==" | "!=" | "<" | ">" | ">=" | "<=" => some 20
  | "in" | "matches" | "contains" | "startsWith" | "endsWith" => some 20
  | ".." => some 25
  | "+" | "-" => some 30
  | "*" | "/" | "%" => some 60
  | "**" | "^" => some 100
  | "??" => some 500
  | _ => none

/-- Whether a row of the operator groups from the right. -/
def isRightAssoc (op : String) : Bool :=
  op == "**" || op == "^"

/-- Whether a row of the operator compares neighbours. -/
def isComparison (op : String) : Bool :=
  op == "<" || op == ">" || op == ">=" || op == "<="

/-- Whether the operator may follow the word for negation. -/
def isNegatable (op : String) : Bool :=
  op == "contains" || op == "matches" || op == "startsWith" || op == "endsWith" || op == "in"

/-- How strongly an operator before its operand binds. -/
def unaryPrecedence : String → Option Nat
  | "not" | "!" => some 50
  | "-" | "+" => some 90
  | _ => none

/-! ## Predefined functions -/

/-- An argument of a function that takes a predicate. -/
structure ArgShape where
  predicate : Bool
  optional : Bool

/-- The arguments of the functions that take a predicate. -/
def predicateShape : String → Option (List ArgShape)
  | "all" | "none" | "any" | "one" | "filter" | "map" | "find" | "findIndex" | "findLast"
  | "findLastIndex" | "groupBy" => some [⟨false, false⟩, ⟨true, false⟩]
  | "count" | "sum" => some [⟨false, false⟩, ⟨true, true⟩]
  | "sortBy" | "reduce" => some [⟨false, false⟩, ⟨true, false⟩, ⟨false, true⟩]
  | _ => none

/-- The names of the other predefined functions. -/
def builtins : List String :=
  ["len", "type", "abs", "ceil", "floor", "round", "int", "float", "string", "trim",
    "trimPrefix", "trimSuffix", "upper", "lower", "split", "splitAfter", "replace", "repeat",
    "join", "indexOf", "lastIndexOf", "hasPrefix", "hasSuffix", "max", "min", "mean", "median",
    "toJSON", "fromJSON", "toBase64", "fromBase64", "now", "duration", "date", "timezone",
    "first", "last", "get", "take", "keys", "values", "toPairs", "fromPairs", "reverse",
    "uniq", "concat", "flatten", "sort", "bitand", "bitor", "bitxor", "bitnand", "bitshl",
    "bitshr", "bitushr", "bitnot"]

/-! ## Numbers -/

/-- The value of digits in a base; `none` when there are none, or one does not belong. -/
def natOf (base : Nat) (ds : List Char) : Option Nat :=
  if ds.isEmpty then none
  else ds.foldlM (fun n c => do
    let v ← Text.hexValue c
    if v < base then some (n * base + v) else none) 0

/-- An integer node, when the integer fits in 63 bits. -/
def ofNat (n : Nat) : Option Node :=
  if n < 2 ^ 63 then some (.integer n) else none

/-- The node of a number. -/
def ofNumber (text : String) : Option Node :=
  let ds := (text.toList.filter (· ≠ '_')).map Char.toLower
  match ds with
  | '0' :: 'x' :: ds => (natOf 16 ds).bind ofNat
  | ds =>
    if ds.any fun c => c = '.' || c = 'e' then
      match Double.readUnsigned false ds with
      | some d => if d.isFinite then some .foreign else none
      | none => none
    else
      match ds with
      | '0' :: 'b' :: ds => (natOf 2 ds).bind ofNat
      | '0' :: 'o' :: ds => (natOf 8 ds).bind ofNat
      | ds => (natOf 10 ds).bind ofNat

end Node

end Lowlang.Expr
