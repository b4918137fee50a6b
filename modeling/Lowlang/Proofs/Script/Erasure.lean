import Lowlang.Proofs.Text.Literal
import Lowlang.Script.Lowering
import Mathlib.Logic.Basic

set_option autoImplicit false

/-!
# What a script keeps of a block

`eraseBlock` forgets what scripts cannot express: positions, types, whether a number that is
not negative was signed, unsigned or a byte, and the parts a construct has no use for.  A
block without statements and a missing one are the same here from the start.  What is kept of
the names of fields is a parameter.

`RegularBlock` says of which names scripts can be read back: chains of identifiers with
points between them that are no words of the script language.  Fields may have any names.
-/

namespace Lowlang.Script

/-! ## Erasure -/

/-- The number `n`, whatever kind of literal it was. -/
def eraseNumber {κ : Type} (n : Nat) : Value κ :=
  .uint .none (UInt64.ofNat n)

/-- A parameter without its type. -/
def eraseParam (p : Param) : Param :=
  ⟨p.name, .null⟩

section
variable {κ ε : Type} (keep : κ → ε)

mutual

/-- A value without what scripts cannot express, and with what `keep` leaves of the names of its
fields. -/
def eraseValue : Value κ → Value ε
  | .absent => .absent
  | .int _ i => if i < 0 then .int .none i else eraseNumber i.toInt.toNat
  | .uint _ n => eraseNumber n.toNat
  | .byte _ b => eraseNumber b.toNat
  | .char _ c => .char .none c
  | .bool _ b => .bool .none b
  | .list _ elems => .list .none (eraseElems elems)
  | .custom _ _ fields => .custom .none none (eraseFields fields)
  | .type _ _ => .type .none none
  | .name _ n => .name .none n
  | .call _ n args => .call .none n (eraseElems args)
  | .operator _ op x y =>
    .operator .none op (eraseValue x) (if op.isUnary then .absent else eraseValue y)
  | .other _ k _ _ => .other .none k .absent .absent
termination_by structural v => v

/-- Values without what scripts cannot express. -/
def eraseElems : List (Value κ) → List (Value ε)
  | [] => []
  | v :: vs => eraseValue v :: eraseElems vs
termination_by structural v => v

/-- The fields of an aggregate without what scripts cannot express. -/
def eraseFields : List (κ × Value κ) → List (ε × Value ε)
  | [] => []
  | (n, v) :: fields => (keep n, eraseValue v) :: eraseFields fields
termination_by structural v => v

end

mutual

/-- A statement without what scripts cannot express. -/
def eraseStmt : Stmt κ → Stmt ε
  | .absent => .absent
  | .eval _ v => .eval .none (eraseValue keep v)
  | .declare _ n _ v => .declare .none n none (eraseValue keep v)
  | .assign _ n v => .assign .none n (eraseValue keep v)
  | .function _ n params _ body =>
    .function .none n (params.map eraseParam) none (eraseBlock body)
  | .branch _ test body elifs otherwise =>
    .branch .none (eraseValue keep test) (eraseBlock body) (eraseElifs elifs)
      (eraseOtherwise otherwise)
  | .other _ k => .other .none k
termination_by structural s => s

/-- A block without what scripts cannot express. -/
def eraseBlock : List (Stmt κ) → List (Stmt ε)
  | [] => []
  | s :: ss => eraseStmt s :: eraseBlock ss
termination_by structural s => s

/-- Further tests without what scripts cannot express. -/
def eraseElifs : List (Value κ × List (Stmt κ)) → List (Value ε × List (Stmt ε))
  | [] => []
  | (test, body) :: rest => (eraseValue keep test, eraseBlock body) :: eraseElifs rest
termination_by structural s => s

/-- A final branch, missing or not, without what scripts cannot express. -/
def eraseOtherwise : Option (List (Stmt κ)) → Option (List (Stmt ε))
  | none => none
  | some body => some (eraseBlock body)
termination_by structural s => s

end

end

/-! ## Erasing again -/

section
variable {κ ε δ : Type} (keep : κ → ε) (keep' : ε → δ)

mutual

/-- Erasing again forgets no more than what is left of the names of fields. -/
theorem eraseValue_eraseValue : ∀ v : Value κ,
    eraseValue keep' (eraseValue keep v) = eraseValue (keep' ∘ keep) v
  | .absent => rfl
  | .int _ i => by
    by_cases hi : i < 0
    · simp only [eraseValue, if_pos hi]
    · simp only [eraseValue, if_neg hi, eraseNumber, UInt64.ofNat_toNat]
  | .uint _ n => by simp only [eraseValue, eraseNumber, UInt64.ofNat_toNat]
  | .byte _ b => by simp only [eraseValue, eraseNumber, UInt64.ofNat_toNat]
  | .char _ _ => rfl
  | .bool _ _ => rfl
  | .list _ elems => congrArg (Value.list .none) (eraseElems_eraseElems elems)
  | .custom _ _ fields => congrArg (Value.custom .none none) (eraseFields_eraseFields fields)
  | .type _ _ => rfl
  | .name _ _ => rfl
  | .call _ n args => congrArg (Value.call .none n) (eraseElems_eraseElems args)
  | .operator _ op x y => by
    have hx := eraseValue_eraseValue x
    have hy := eraseValue_eraseValue y
    by_cases hop : op.isUnary
    · simp only [eraseValue, if_pos hop, hx]
    · simp only [eraseValue, if_neg hop, hx, hy]
  | .other _ _ _ _ => rfl
termination_by structural v => v

theorem eraseElems_eraseElems : ∀ vs : List (Value κ),
    eraseElems keep' (eraseElems keep vs) = eraseElems (keep' ∘ keep) vs
  | [] => rfl
  | v :: vs => congrArg₂ List.cons (eraseValue_eraseValue v) (eraseElems_eraseElems vs)
termination_by structural vs => vs

theorem eraseFields_eraseFields : ∀ fields : List (κ × Value κ),
    eraseFields keep' (eraseFields keep fields) = eraseFields (keep' ∘ keep) fields
  | [] => rfl
  | (n, v) :: fields =>
    congrArg₂ (fun w ws => (keep' (keep n), w) :: ws) (eraseValue_eraseValue v)
      (eraseFields_eraseFields fields)
termination_by structural fields => fields

end

mutual

theorem eraseStmt_eraseStmt : ∀ s : Stmt κ,
    eraseStmt keep' (eraseStmt keep s) = eraseStmt (keep' ∘ keep) s
  | .absent => rfl
  | .eval _ v => congrArg (Stmt.eval .none) (eraseValue_eraseValue keep keep' v)
  | .declare _ n _ v => congrArg (Stmt.declare .none n none) (eraseValue_eraseValue keep keep' v)
  | .assign _ n v => congrArg (Stmt.assign .none n) (eraseValue_eraseValue keep keep' v)
  | .function _ n params _ body => by
    have hparams : (params.map eraseParam).map eraseParam = params.map eraseParam := by
      rw [List.map_map]
      rfl
    simp only [eraseStmt, hparams, eraseBlock_eraseBlock body]
  | .branch _ test body elifs otherwise => by
    simp only [eraseStmt, eraseValue_eraseValue keep keep' test, eraseBlock_eraseBlock body,
      eraseElifs_eraseElifs elifs, eraseOtherwise_eraseOtherwise otherwise]
  | .other _ _ => rfl
termination_by structural s => s

theorem eraseBlock_eraseBlock : ∀ b : List (Stmt κ),
    eraseBlock keep' (eraseBlock keep b) = eraseBlock (keep' ∘ keep) b
  | [] => rfl
  | s :: ss => congrArg₂ List.cons (eraseStmt_eraseStmt s) (eraseBlock_eraseBlock ss)
termination_by structural b => b

theorem eraseElifs_eraseElifs : ∀ elifs : List (Value κ × List (Stmt κ)),
    eraseElifs keep' (eraseElifs keep elifs) = eraseElifs (keep' ∘ keep) elifs
  | [] => rfl
  | (test, body) :: rest => by
    simp only [eraseElifs, eraseValue_eraseValue keep keep' test, eraseBlock_eraseBlock body,
      eraseElifs_eraseElifs rest]
termination_by structural elifs => elifs

theorem eraseOtherwise_eraseOtherwise : ∀ otherwise : Option (List (Stmt κ)),
    eraseOtherwise keep' (eraseOtherwise keep otherwise)
      = eraseOtherwise (keep' ∘ keep) otherwise
  | none => rfl
  | some body => congrArg some (eraseBlock_eraseBlock body)
termination_by structural otherwise => otherwise

end

end

/-! ## Regular names -/

/-- The words of the script language. -/
def reservedWords : List String :=
  ["true", "false", "if", "else", "elseif", "function", "let", "var"]

/-- A chain of identifiers with points between them. -/
def IsDotted (name : String) : Prop :=
  ∃ parts : List String, parts ≠ [] ∧ (∀ part ∈ parts, isPlainKey part.toList) ∧
    name = ".".intercalate parts

/-- A dotted name that is no word of the script language. -/
def IsRegular (name : String) : Prop :=
  IsDotted name ∧ name ∉ reservedWords

section
variable {κ : Type}

mutual

/-- The names in a value are regular and its characters exist. -/
def RegularValue : Value κ → Prop
  | .char _ c => Text.IsScalar c
  | .list _ elems => RegularElems elems
  | .custom _ _ fields => RegularFields fields
  | .name _ n => IsRegular n
  | .call _ n args => IsRegular n ∧ RegularElems args
  | .operator _ op x y => RegularValue x ∧ (op.isUnary = false → RegularValue y)
  | _ => True
termination_by structural v => v

/-- The names in all values are regular. -/
def RegularElems : List (Value κ) → Prop
  | [] => True
  | v :: vs => RegularValue v ∧ RegularElems vs
termination_by structural v => v

/-- The names in the values of fields are regular; those of the fields may be any. -/
def RegularFields : List (κ × Value κ) → Prop
  | [] => True
  | (_, v) :: fields => RegularValue v ∧ RegularFields fields
termination_by structural v => v

end

mutual

/-- The names in a statement are regular. -/
def RegularStmt : Stmt κ → Prop
  | .eval _ v => RegularValue v
  | .declare _ n _ v => IsRegular n ∧ RegularValue v
  | .assign _ n v => IsRegular n ∧ RegularValue v
  | .function _ n params _ body =>
    IsRegular n ∧ (∀ p ∈ params, IsRegular p.name) ∧ RegularBlock body
  | .branch _ test body elifs otherwise =>
    RegularValue test ∧ RegularBlock body ∧ RegularElifs elifs ∧ RegularOtherwise otherwise
  | _ => True
termination_by structural s => s

/-- The names in a block are regular. -/
def RegularBlock : List (Stmt κ) → Prop
  | [] => True
  | s :: ss => RegularStmt s ∧ RegularBlock ss
termination_by structural s => s

/-- The names in further tests are regular. -/
def RegularElifs : List (Value κ × List (Stmt κ)) → Prop
  | [] => True
  | (test, body) :: rest => RegularValue test ∧ RegularBlock body ∧ RegularElifs rest
termination_by structural s => s

/-- The names in a final branch are regular. -/
def RegularOtherwise : Option (List (Stmt κ)) → Prop
  | none => True
  | some body => RegularBlock body
termination_by structural s => s

end

end

end Lowlang.Script
