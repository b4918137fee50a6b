import Lowlang.Value.Reading

set_option autoImplicit false

/-!
# Positions of values

The position that an expression is read at goes to every node of the value and decides nothing
else: reading at another position gives the same value, moved there, or the same fault.  Moving a
value does not change what it is the same as.
-/

namespace Lowlang.Value

open Lowlang.Expr (Node)

mutual

/-- The value with every node at one position. -/
def moved (p : Pos) : Value → Value
  | .absent => .absent
  | .int _ i => .int p i
  | .uint _ n => .uint p n
  | .byte _ b => .byte p b
  | .char _ c => .char p c
  | .bool _ b => .bool p b
  | .list _ elems => .list p (movedAll p elems)
  | .custom _ t fields => .custom p t (movedFields p fields)
  | .type _ t => .type p t
  | .name _ n => .name p n
  | .call _ n args => .call p n (movedAll p args)
  | .operator _ op x y => .operator p op (moved p x) (moved p y)
  | .other _ k x y => .other p k (moved p x) (moved p y)
termination_by structural v => v

/-- The values with every node at one position. -/
def movedAll (p : Pos) : List Value → List Value
  | [] => []
  | v :: vs => moved p v :: movedAll p vs
termination_by structural vs => vs

/-- The fields with every node of their values at one position. -/
def movedFields (p : Pos) : List (String × Value) → List (String × Value)
  | [] => []
  | (n, v) :: fs => (n, moved p v) :: movedFields p fs
termination_by structural fs => fs

end

mutual

/-- Moving a value does not change what it is the same as. -/
theorem same_moved (p : Pos) : ∀ v w : Value, same (moved p v) w = same v w
  | .list _ xs, w => by
    cases w <;> simp only [moved, same, sameList_moved p xs]
  | .custom _ t xs, w => by
    cases w <;> simp only [moved, same, sameFields_moved p xs]
  | .call _ n xs, w => by
    cases w <;> simp only [moved, same, sameList_moved p xs]
  | .operator _ op x y, w => by
    cases w <;> simp only [moved, same, same_moved p x, same_moved p y]
  | .other _ k x y, w => by
    cases w <;> simp only [moved, same, same_moved p x, same_moved p y]
  | .absent, w | .int _ _, w | .uint _ _, w | .byte _ _, w | .char _ _, w | .bool _ _, w
  | .type _ _, w | .name _ _, w => by
    cases w <;> simp only [moved, same]
termination_by structural v => v

theorem sameList_moved (p : Pos) :
    ∀ vs ws : List Value, sameList (movedAll p vs) ws = sameList vs ws
  | [], ws => rfl
  | v :: vs, ws => by
    cases ws with
    | nil => simp only [movedAll, sameList]
    | cons w ws => simp only [movedAll, sameList, same_moved p v, sameList_moved p vs]
termination_by structural vs => vs

theorem sameFields_moved (p : Pos) :
    ∀ fs gs : List (String × Value), sameFields (movedFields p fs) gs = sameFields fs gs
  | [], gs => rfl
  | (n, v) :: fs, gs => by
    cases gs with
    | nil => simp only [movedFields, sameFields]
    | cons g gs => simp only [movedFields, sameFields, same_moved p v, sameFields_moved p fs]
termination_by structural fs => fs

end

/-! ## Reading at another position -/

/-- Work in two parts commutes with what commutes with both. -/
theorem map_bind_eq {α β γ δ : Type} {e : Except Fault α} {e' : Except Fault β} {g : α → β}
    {h : γ → δ} {k : α → Except Fault γ} {k' : β → Except Fault δ} (he : e' = e.map g)
    (hk : ∀ a, k' (g a) = (k a).map h) : (e' >>= k') = (e >>= k).map h := by
  subst he
  cases e with
  | error f => rfl
  | ok a => exact hk a

section

variable (src : String) (p q : Pos)

theorem typedLiteral_moved (f : String) (args : List Node) :
    typedLiteral ⟨src, p⟩ f args = (typedLiteral ⟨src, q⟩ f args).map (moved p) := by
  unfold typedLiteral
  split
  · split
    · rfl
    · split
      · split <;> rfl
      · split <;> rfl
  · rfl
  · rfl

theorem literalCall_moved (f : String) (args : List Node) :
    literalCall ⟨src, p⟩ f args = (literalCall ⟨src, q⟩ f args).map (moved p) := by
  unfold literalCall
  split
  · unfold typeLiteral
    split
    · cases Ty.parse _ <;> rfl
    · rfl
  · exact typedLiteral_moved src p q f args

theorem callOf_moved (f : String) (args : List Value) :
    callOf ⟨src, p⟩ f (movedAll p args) = (callOf ⟨src, q⟩ f args).map (moved p) := by
  unfold callOf
  cases bitwiseFunction f with
  | none => rfl
  | some op =>
    match args with
    | [] => rfl
    | [x] =>
      show (if op.isUnary then _ else _) = Except.map _ (if op.isUnary then _ else _)
      split <;> rfl
    | [x, y] =>
      show (if op.isBinary then _ else _) = Except.map _ (if op.isBinary then _ else _)
      split <;> rfl
    | x :: y :: z :: more => rfl

theorem unaryOf_moved (op : String) (x : Value) :
    unaryOf ⟨src, p⟩ op (moved p x) = (unaryOf ⟨src, q⟩ op x).map (moved p) := by
  unfold unaryOf
  split
  · rfl
  · split
    · rfl
    · split
      · cases x <;> rfl
      · rfl

theorem binaryOf_moved (op : String) (x y : Value) :
    binaryOf ⟨src, p⟩ op (moved p x) (moved p y) = (binaryOf ⟨src, q⟩ op x y).map (moved p) := by
  unfold binaryOf
  split
  · rfl
  · cases binaryOperator op <;> rfl

theorem calleeName_moved (callee : Node) :
    calleeName ⟨src, p⟩ callee = calleeName ⟨src, q⟩ callee := by
  unfold calleeName
  split <;> rfl

end

mutual

/-- The value of a tree at another position is the value, moved there. -/
theorem ofNode_moved (src : String) (p q : Pos) :
    ∀ n : Node, ofNode ⟨src, p⟩ n = (ofNode ⟨src, q⟩ n).map (moved p)
  | .integer _ | .bool _ | .ident _ | .foreign => rfl
  | .string s => by
    unfold ofNode
    split <;> rfl
  | .array elems => map_bind_eq (ofNodes_moved src p q elems) fun _ => rfl
  | .member a b c => by
    unfold ofNode
    split <;> rfl
  | .chain inner => ofNode_moved src p q inner
  | .unary op x => map_bind_eq (ofNode_moved src p q x) (unaryOf_moved src p q op)
  | .binary op x y =>
    map_bind_eq (ofNode_moved src p q x) fun v =>
      map_bind_eq (ofNode_moved src p q y) (binaryOf_moved src p q op v)
  | .call callee args => by
    unfold ofNode
    rw [calleeName_moved src p q]
    cases calleeName ⟨src, q⟩ callee with
    | error f => rfl
    | ok f =>
      show (if isLiteralFunction f then _ else _)
        = Except.map _ (if isLiteralFunction f then _ else _)
      split
      · exact literalCall_moved src p q f args
      · exact map_bind_eq (ofNodes_moved src p q args) (callOf_moved src p q f)
  | .builtin f args => by
    unfold ofNode
    split
    · exact literalCall_moved src p q f args
    · exact map_bind_eq (ofNodes_moved src p q args) (callOf_moved src p q f)
termination_by structural n => n

theorem ofNodes_moved (src : String) (p q : Pos) :
    ∀ ns : List Node, ofNodes ⟨src, p⟩ ns = (ofNodes ⟨src, q⟩ ns).map (movedAll p)
  | [] => rfl
  | n :: ns =>
    map_bind_eq (ofNode_moved src p q n) fun _ =>
      map_bind_eq (ofNodes_moved src p q ns) fun _ => rfl
termination_by structural ns => ns

end

/-- Reading at a position gives the value of the text, moved there. -/
theorem parseAt_eq (p : Pos) (src : String) : parseAt p src = (parse src).map (moved p) := by
  unfold parse parseAt
  split
  · rfl
  · split
    · rfl
    · exact ofNode_moved src p .none _

/-- What is read at a position is what is read anywhere, moved there. -/
theorem parseAt_ok {p : Pos} {src : String} {v : Value} (h : parseAt p src = .ok v) :
    ∃ w, parse src = .ok w ∧ v = moved p w := by
  rw [parseAt_eq] at h
  cases hparse : parse src with
  | error f =>
    rw [hparse] at h
    cases h
  | ok w =>
    rw [hparse] at h
    cases h
    exact ⟨w, rfl, rfl⟩

/-- The position decides nothing about a failure. -/
theorem parseAt_error_iff (p : Pos) (src : String) (f : Fault) :
    parseAt p src = .error f ↔ parse src = .error f := by
  rw [parseAt_eq]
  cases parse src with
  | error g => exact Iff.rfl
  | ok w => exact ⟨nofun, nofun⟩

/-- What a text is read back as at one position, it is read back as at any other. -/
theorem parseAt_same {src : String} {v w : Value} (h : parse src = .ok w) (hsame : w.same v)
    (p : Pos) : ∃ u, parseAt p src = .ok u ∧ u.same v := by
  refine ⟨moved p w, ?_, ?_⟩
  · rw [parseAt_eq, h]
    rfl
  · rw [same_moved]
    exact hsame

end Lowlang.Value
