import Lowlang.Proofs.Stateful
import Lowlang.Script.Version
import Lowlang.Value.Reading

set_option autoImplicit false

/-!
# What refused texts count as

A fault counts as the categories along its chain of causes.  The fault of a text that is no type, no
expression or no version counts as exactly one: an expression is malformed, or it is well-formed and
refused as unsupported, or it holds a type that is none.
-/

namespace Lowlang

open Stateful (Outcome)

namespace Fault

/-- The categories that a fault counts as, outermost first. -/
def kinds (f : Fault) : List Category :=
  f.chain.filterMap category

end Fault

theorem Ty.kinds_of_parse {t : String} {f : Fault} (h : Ty.parse t = .error f) :
    f.kinds = [.parseType] := by
  unfold Ty.parse at h
  split at h
  · cases h
  · cases h
    rfl

theorem Script.Version.kinds_of_parse {t : String} {f : Fault} (h : Version.parse t = .error f) :
    f.kinds = [.invalidVersion] := by
  unfold Version.parse at h
  dsimp only at h
  split at h
  · cases h
  · split at h
    · cases h
    · cases h
      rfl

namespace Value

open Lowlang.Expr (Node)

/-! ## Well-formed expressions -/

/-- How a well-formed expression is refused: as unsupported, or for a type in it that is none. -/
def Declined (f : Fault) : Prop :=
  f.kinds = [.unsupportedExpr] ∨ f.kinds = [.parseType]

theorem declined_unsupported (o : Origin) (reason : String) : Declined (unsupported o reason) :=
  .inl rfl

section

variable (o : Origin)

theorem typedLiteral_declined (f : String) (args : List Node) :
    Outcome (fun _ => True) Declined (typedLiteral o f args) := by
  unfold typedLiteral
  split
  · split
    · exact trivial
    · split <;> split
      · exact trivial
      · exact declined_unsupported o _
      · exact trivial
      · exact declined_unsupported o _
  · exact declined_unsupported o _
  · exact declined_unsupported o _

theorem typeLiteral_declined (args : List Node) :
    Outcome (fun _ => True) Declined (typeLiteral o args) := by
  unfold typeLiteral
  split
  · next s =>
    cases h : Ty.parse s with
    | ok t => exact trivial
    | error e => exact .inr (Ty.kinds_of_parse h)
  · exact declined_unsupported o _

theorem literalCall_declined (f : String) (args : List Node) :
    Outcome (fun _ => True) Declined (literalCall o f args) := by
  unfold literalCall
  split
  · exact typeLiteral_declined o args
  · exact typedLiteral_declined o f args

theorem callOf_declined (f : String) (args : List Value) :
    Outcome (fun _ => True) Declined (callOf o f args) := by
  unfold callOf
  split
  · exact trivial
  · split
    · split
      · exact trivial
      · exact declined_unsupported o _
    · split
      · exact trivial
      · exact declined_unsupported o _
    · exact declined_unsupported o _

theorem unaryOf_declined (op : String) (x : Value) :
    Outcome (fun _ => True) Declined (unaryOf o op x) := by
  unfold unaryOf
  split
  · exact trivial
  · split
    · exact trivial
    · split
      · split <;> exact trivial
      · exact declined_unsupported o _

theorem binaryOf_declined (op : String) (x y : Value) :
    Outcome (fun _ => True) Declined (binaryOf o op x y) := by
  unfold binaryOf
  split
  · exact trivial
  · split
    · exact trivial
    · exact declined_unsupported o _

theorem calleeName_declined (n : Node) : Outcome (fun _ => True) Declined (calleeName o n) := by
  unfold calleeName
  split
  · exact trivial
  · split
    · exact trivial
    · exact declined_unsupported o _
  · exact declined_unsupported o _

mutual

theorem ofNode_declined : ∀ n : Node, Outcome (fun _ => True) Declined (ofNode o n)
  | .integer _ | .bool _ | .ident _ => trivial
  | .foreign => declined_unsupported o _
  | .string s => by
    unfold ofNode
    split
    · exact trivial
    · exact declined_unsupported o _
  | .array elems => (ofNodes_declined elems).bind fun _ _ => trivial
  | .member a b c => by
    unfold ofNode
    split
    · exact trivial
    · exact declined_unsupported o _
  | .chain inner => ofNode_declined inner
  | .unary op x => (ofNode_declined x).bind fun v _ => unaryOf_declined o op v
  | .binary op x y =>
    (ofNode_declined x).bind fun v _ =>
      (ofNode_declined y).bind fun w _ => binaryOf_declined o op v w
  | .call callee args => by
    refine (calleeName_declined o callee).bind fun f _ => ?_
    split
    · exact literalCall_declined o f args
    · exact (ofNodes_declined args).bind fun vs _ => callOf_declined o f vs
  | .builtin f args => by
    unfold ofNode
    split
    · exact literalCall_declined o f args
    · exact (ofNodes_declined args).bind fun vs _ => callOf_declined o f vs
termination_by structural n => n

theorem ofNodes_declined : ∀ ns : List Node, Outcome (fun _ => True) Declined (ofNodes o ns)
  | [] => trivial
  | n :: ns => (ofNode_declined n).bind fun _ _ => (ofNodes_declined ns).bind fun _ _ => trivial
termination_by structural ns => ns

end

end

/-! ## Texts -/

theorem kinds_of_parse {t : String} {f : Fault} (h : parse t = .error f) :
    f.kinds = [.parseExpr] ∨ Declined f := by
  unfold parse parseAt at h
  split at h
  · cases h
    exact .inl rfl
  · split at h
    · cases h
      exact .inl rfl
    · next n _ =>
      have hdeclined := ofNode_declined ⟨t, .none⟩ n
      rw [h] at hdeclined
      exact .inr hdeclined

end Value

end Lowlang
