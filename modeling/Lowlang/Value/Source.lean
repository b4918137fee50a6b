import Lowlang.Value.Reading

set_option autoImplicit false

/-!
# Values as expressions

The expression text of a value, chosen so that reading it gives the value back.  Operands
that are themselves infix or negated are parenthesised, so precedence plays no part.
Aggregates, holes, the least integer and large unsigned integers have no such text.
-/

namespace Lowlang.Value

/-- Whether an operand stands in parentheses: operators do, but for those written as
functions. -/
def isGrouped : Value → Bool
  | .operator _ op _ _ => (functionOf op).isNone
  | _ => false

/-- `s`, in parentheses when the operand `v` it is the text of needs them. -/
def group (v : Value) (s : String) : String :=
  if isGrouped v then "(" ++ s ++ ")" else s

mutual

/-- The expression text of a value. -/
def source : Value → Except Fault String
  | .absent => .error (.of .unsupportedExpr [Attr.text "reason" "nil value"])
  | .int _ i =>
    if i = Int64.minValue then
      .error (.of .unsupportedExpr
        [Attr.int "int" i.toInt, Attr.text "reason" "no literal form"])
    else .ok (Text.intText i.toInt)
  | .uint _ n =>
    if n.toNat < 2 ^ 63 then .ok ("uint(" ++ Nat.repr n.toNat ++ ")")
    else
      .error (.of .unsupportedExpr
        [("uint", .uint n.toNat), Attr.text "reason" "no literal form"])
  | .byte _ b => .ok ("byte(" ++ Nat.repr b.toNat ++ ")")
  | .char _ c => .ok (Text.literal (String.singleton (Text.charOfCode c.toInt)))
  | .bool _ b => .ok (if b then "true" else "false")
  | .list _ elems => do
    let s ← sourceJoin elems
    .ok ("[" ++ s ++ "]")
  | .type _ none =>
    .error (.of .unsupportedExpr [Attr.text "reason" "type value without type"])
  | .type _ (some t) => .ok ("type(" ++ Text.literal t.text ++ ")")
  | .name _ n => .ok n
  | .call _ n args => do
    let s ← sourceJoin args
    .ok (n ++ "(" ++ s ++ ")")
  | .custom _ _ _ =>
    .error (.of .unsupportedExpr
      [Attr.text "kind" "Custom", Attr.text "reason" "custom values have no expression syntax"])
  | .operator _ op x y =>
    match functionOf op with
    | some f => do
      let a ← source x
      if op.isUnary then .ok (f ++ "(" ++ a ++ ")")
      else do
        let b ← source y
        .ok (f ++ "(" ++ a ++ ", " ++ b ++ ")")
    | none => do
      let a ← source x
      if op.isUnary then .ok (op.symbol ++ group x a)
      else do
        let b ← source y
        .ok (group x a ++ " " ++ op.symbol ++ " " ++ group y b)
  | .other _ k _ _ => .error (.of .unsupportedExpr [Attr.text "kind" (Kind.name ⟨k⟩)])
termination_by structural v => v

/-- Expression texts with commas between them. -/
def sourceJoin : List Value → Except Fault String
  | [] => .ok ""
  | v :: vs => do
    let s ← source v
    let rest ← sourceRest vs
    .ok (s ++ rest)
termination_by structural v => v

/-- Expression texts with a comma before each. -/
def sourceRest : List Value → Except Fault String
  | [] => .ok ""
  | v :: vs => do
    let s ← source v
    let rest ← sourceRest vs
    .ok (", " ++ s ++ rest)
termination_by structural v => v

end

end Lowlang.Value
