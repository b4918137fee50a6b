import Lowlang.Registry
import Lowlang.Script.Version
import Lowlang.Stmt
import Lowlang.Interrupt

set_option autoImplicit false

/-!
# Lowering to scripts

The script of a block.  Lowering walks the statements in order with the names in scope: a
declaration extends the scope of the statements after it, and the body of a function or of
a branch works on a copy, so what it declares is not seen outside.

Before each statement the work may be called off, and each statement reached leaves an
event.  Lowering stops at the first failure and then yields no text.
-/

namespace Lowlang.Script

variable {κ : Type}

/-! ## Expressions -/

/-- The token of an operator in scripts. -/
def operatorToken : Operator → String
  | .equal => "==="
  | op => op.symbol

/-- Whether a name can stand as a property key without quotes. -/
def isPlainKey (name : List Char) : Bool :=
  match name with
  | [] => false
  | c :: rest => starts c && rest.all fun c => starts c || Text.isDigit c
where
  /-- Characters such a name starts with. -/
  starts (c : Char) : Bool := c = '_' || c = '$' || Text.isLetter c

/-- A name as a property key.  A byte that is part of no character is shown as one that
stands in no plain key. -/
def propertyKey [Text.Runes κ] (name : κ) : String :=
  if isPlainKey (Text.shown name) then String.ofList (Text.shown name)
  else Text.scriptLiteral name

/-- Whether an operand is parenthesised: operators are, and negative numbers. -/
def isGrouped : Value κ → Bool
  | .operator _ _ _ _ => true
  | .int _ i => i < 0
  | _ => false

/-- `s`, in parentheses when the operand `v` it is the script of needs them. -/
def group (v : Value κ) (s : String) : String :=
  if isGrouped v then "(" ++ s ++ ")" else s

/-- The name of this target in reports. -/
def targetName : String := "js"

/-- A refusal of a construct that scripts cannot express. -/
def unsupported (construct : String) (pos : Pos) : Fault :=
  .unsupported targetName construct pos

section
variable [Text.Runes κ]

mutual

/-- The script of a value whose names are in `scope`. -/
def value (scope : Registry) : Value κ → Except Fault String
  | .absent => .error (unsupported "nil value" .none)
  | .int _ i => .ok (Text.intText i.toInt)
  | .uint _ n => .ok (Nat.repr n.toNat)
  | .byte _ b => .ok (Nat.repr b.toNat)
  | .char _ c => .ok (Text.scriptLiteral (String.singleton (Text.charOfCode c.toInt)))
  | .bool _ b => .ok (if b then "true" else "false")
  | .list _ elems => do
    let s ← values scope elems
    .ok ("[" ++ ",".intercalate s ++ "]")
  | .custom _ _ fields => do
    let s ← members scope fields
    .ok ("\x7b" ++ ",".intercalate s ++ "\x7d")
  | .name p n =>
    if scope.contains n then .ok n else .error (.nameNotFound n p)
  | .call p n args =>
    if scope.contains n then do
      let s ← values scope args
      .ok (n ++ "(" ++ ",".intercalate s ++ ")")
    else .error (.nameNotFound n p)
  | .type p _ => .error (unsupported "type value" p)
  | .operator _ op x y => do
    let a ← value scope x
    if op.isUnary then .ok (operatorToken op ++ group x a)
    else do
      let b ← value scope y
      .ok (group x a ++ operatorToken op ++ group y b)
  | .other p k _ _ => .error (unsupported (Kind.name ⟨k⟩) p)
termination_by structural v => v

/-- The scripts of values in order, up to the first failure. -/
def values (scope : Registry) : List (Value κ) → Except Fault (List String)
  | [] => .ok []
  | v :: vs => do
    let s ← value scope v
    let rest ← values scope vs
    .ok (s :: rest)
termination_by structural v => v

/-- The members of an object in order, up to the first failure. -/
def members (scope : Registry) : List (κ × Value κ) → Except Fault (List String)
  | [] => .ok []
  | (n, v) :: fields => do
    let s ← value scope v
    let rest ← members scope fields
    .ok ((propertyKey n ++ ":" ++ s) :: rest)
termination_by structural v => v

end

end

/-! ## Statements -/

/-- How scripts are made. -/
structure Settings where
  version : Version := .default
  /-- The file the script is meant for. -/
  file : String := ""
  /-- The most levels of nested blocks; none or fewer mean no bound. -/
  maxDepth : Int := 0
  interrupt : Option Interrupt := none

/-- A statement reached by lowering. -/
structure Event where
  kind : String
  depth : Nat
  pos : Pos
  deriving DecidableEq, Repr, Inhabited

/-- How far lowering has come: the statements asked about, and those reached, last first. -/
structure Progress where
  asked : Nat := 0
  events : List Event := []

/-- Work that may fail and leaves its progress behind in any case. -/
abbrev Work := ExceptT Fault (StateM Progress)

/-- Work that only succeeds or fails. -/
def liftExcept {α : Type} (e : Except Fault α) : Work α :=
  match e with
  | .ok a => pure a
  | .error f => throw f

/-- Fails when the work has been called off by now. -/
def checkpoint (interrupt : Option Interrupt) : Work Unit := do
  let n := (← get).asked
  modify fun p => { p with asked := p.asked + 1 }
  match Interrupt.stops interrupt n with
  | some f => throw f
  | none => pure ()

/-- Records a statement reached. -/
def reached (s : Stmt κ) (depth : Nat) : Work Unit :=
  modify fun p => { p with events := ⟨s.kindName, depth, s.pos⟩ :: p.events }

/-- Fails when a block at `depth` is nested too deeply. -/
def checkDepth (cfg : Settings) (depth : Nat) (pos : Pos) : Work Unit :=
  if 0 < cfg.maxDepth ∧ cfg.maxDepth < depth then
    throw (.of .maxDepthExceeded [Attr.int "max" cfg.maxDepth, pos.attr "pos"])
  else pure ()

/-- Declares the parameters of a function in order. -/
def declareParams (pos : Pos) : List Param → Registry → Except Fault Registry
  | [], scope => .ok scope
  | p :: ps, scope => do
    let scope ← scope.add p.name p.type pos
    declareParams pos ps scope

section
variable [Text.Runes κ]

mutual

/-- The script of a statement, and the scope of the statements after it. -/
def statement (cfg : Settings) (depth : Nat) (scope : Registry) :
    Stmt κ → Work (String × Registry)
  | .absent => throw (unsupported "nil statement" .none)
  | .eval _ v => do
    let s ← liftExcept (value scope v)
    return (s ++ ";", scope)
  | .declare p n t v => do
    let s ← liftExcept (value scope v)
    let scope ← liftExcept (scope.add n (t.getD .null) p)
    return (cfg.version.declareKeyword ++ " " ++ n ++ "=" ++ s ++ ";", scope)
  | .assign p n v => do
    if scope.contains n then
      let s ← liftExcept (value scope v)
      return (n ++ "=" ++ s ++ ";", scope)
    else throw (.nameNotFound n p)
  | .function p n params result body => do
    let outer ← liftExcept (scope.add n (Stmt.signature params result) p)
    let inner ← liftExcept (declareParams p params outer)
    checkDepth cfg (depth + 1) p
    let s ← statements cfg (depth + 1) inner body
    return ("function " ++ n ++ "(" ++ ",".intercalate (params.map Param.name) ++ ")\x7b" ++ s
      ++ "\x7d", outer)
  | .branch p test body elifs otherwise => do
    let t ← liftExcept (value scope test)
    checkDepth cfg (depth + 1) p
    let s ← statements cfg (depth + 1) scope body
    let more ← furtherTests cfg depth scope p elifs
    let last ← finalBranch cfg depth scope p otherwise
    return ("if(" ++ t ++ ")\x7b" ++ s ++ "\x7d" ++ more ++ last, scope)
  | .other p k => throw (unsupported (Stmt.kindNameOf k) p)
termination_by structural s => s

/-- The script of statements in order. -/
def statements (cfg : Settings) (depth : Nat) (scope : Registry) : List (Stmt κ) → Work String
  | [] => return ""
  | .absent :: _ => do
    checkpoint cfg.interrupt
    throw (unsupported "nil statement" .none)
  | s :: ss => do
    checkpoint cfg.interrupt
    reached s depth
    let (a, scope) ← statement cfg depth scope s
    let b ← statements cfg depth scope ss
    return a ++ b
termination_by structural s => s

/-- The script of the further tests of a conditional. -/
def furtherTests (cfg : Settings) (depth : Nat) (scope : Registry) (pos : Pos) :
    List (Value κ × List (Stmt κ)) → Work String
  | [] => return ""
  | (test, body) :: rest => do
    let t ← liftExcept (value scope test)
    checkDepth cfg (depth + 1) pos
    let s ← statements cfg (depth + 1) scope body
    let more ← furtherTests cfg depth scope pos rest
    return "elseif(" ++ t ++ ")\x7b" ++ s ++ "\x7d" ++ more
termination_by structural s => s

/-- The script of the final branch of a conditional. -/
def finalBranch (cfg : Settings) (depth : Nat) (scope : Registry) (pos : Pos) :
    Option (List (Stmt κ)) → Work String
  | none => return ""
  | some body => do
    checkDepth cfg (depth + 1) pos
    let s ← statements cfg (depth + 1) scope body
    return "else\x7b" ++ s ++ "\x7d"
termination_by structural s => s

end

end

/-- The result of lowering: the script or the first failure, and the progress made. -/
structure Outcome where
  result : Except Fault String
  /-- The statements reached, in order. -/
  events : List Event
  /-- How many statements were asked about. -/
  asked : Nat

/-- Lowers a block with the names of `scope` declared. -/
def lower [Text.Runes κ] (cfg : Settings) (scope : Registry) (b : Block κ) : Outcome :=
  let (result, p) := (statements cfg 0 scope b).run.run {}
  ⟨result, p.events.reverse, p.asked⟩

/-- The script of a block, or the first failure. -/
def compile [Text.Runes κ] (cfg : Settings) (scope : Registry) (b : Block κ) :
    Except Fault String :=
  (lower cfg scope b).result

end Lowlang.Script
