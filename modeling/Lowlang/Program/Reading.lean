import Lowlang.Interrupt
import Lowlang.Program.Basic
import Lowlang.Ty.Parser
import Lowlang.Value.Reading
import Lowlang.Yaml.Node.Tree

set_option autoImplicit false

/-!
# Reading programs

A program document is a mapping with the keys `target`, `builtins` and `body`; the body is
a sequence of statements, each a mapping with one key that tells its form.  Expressions are
scalars, lists are sequences, and aggregates are mappings with the keys `custom` and
`fields`.

Every report is about the node it names, in the file the document came from.
-/

namespace Lowlang.Program.Document

open Lowlang.Yaml

/-! ## Nodes of a file -/

/-- Where a node of a file stands. -/
def posOf (file : String) (n : Node) : Pos :=
  ⟨file, n.place.line, n.place.column⟩

/-- A report about a node. -/
def refuse {α : Type} (file : String) (n : Node) (reason : String) : Except Fault α :=
  .error (.document (posOf file n) reason none)

/-- A report about a node with its cause. -/
def blame {α : Type} (file : String) (n : Node) (reason : String) (cause : Fault) :
    Except Fault α :=
  .error (.document (posOf file n) reason (some cause))

/-- The entries of a mapping; null is a mapping without any. -/
def entries (file : String) (n : Node) : Except Fault (List (Node × Node)) :=
  match n.bare with
  | .mapping _ es => .ok es
  | m => if m.isNull then .ok [] else refuse file n "expected a mapping"

/-- The items of a sequence; null is a sequence without any. -/
def items (file : String) (n : Node) : Except Fault (List Node) :=
  match n.bare with
  | .sequence _ is => .ok is
  | m => if m.isNull then .ok [] else refuse file n "expected a sequence"

/-- The text of a scalar other than null. -/
def scalar (file : String) (n : Node) : Except Fault String :=
  match n.scalarText? with
  | some t => if n.isNull then refuse file n "expected a scalar" else .ok t
  | none => refuse file n "expected a scalar"

/-- The type that a scalar spells. -/
def type (file : String) (n : Node) : Except Fault Ty := do
  let t ← scalar file n
  match Ty.parse t with
  | .ok t => .ok t
  | .error f => blame file n "invalid type" f

/-! ## Fields -/

/-- A mapping with keys from a fixed set, each at most once. -/
structure Fields where
  file : String
  /-- The mapping. -/
  node : Node
  /-- The keys present with their values, in the order of the mapping. -/
  present : List (String × Node)

namespace Fields

/-- The value under a key. -/
def get? (f : Fields) (key : String) : Option Node :=
  f.present.lookup key

/-- The value under a key that must be there and not null. -/
def require (f : Fields) (key : String) : Except Fault Node :=
  let missing : Except Fault Node := refuse f.file f.node ("missing " ++ Text.literal key)
  match f.get? key with
  | some n => if n.isNull then missing else .ok n
  | none => missing

/-- The value under a key, when it is there and not null. -/
def given? (f : Fields) (key : String) : Option Node :=
  match f.get? key with
  | some n => if n.isNull then none else some n
  | none => none

/-- The text under the key `name`, which must be there. -/
def name (f : Fields) : Except Fault String := do
  let n ← f.require "name"
  scalar f.file n

/-- The type under the key `type`, which must be there. -/
def typed (f : Fields) : Except Fault Ty := do
  let n ← f.require "type"
  type f.file n

end Fields

/-- Sorts the entries of a mapping by their keys, behind those found already. -/
def collect (file : String) (allowed : List String) (found : List (String × Node)) :
    List (Node × Node) → Except Fault (List (String × Node))
  | [] => .ok found
  | (k, v) :: rest =>
    let key := k.keyText
    if !allowed.contains key then refuse file k ("unknown key " ++ Text.literal key)
    else if (found.lookup key).isSome then refuse file k ("duplicate key " ++ Text.literal key)
    else collect file allowed (found ++ [(key, v)]) rest

/-- Reads a mapping with the given keys. -/
def fields (file : String) (n : Node) (allowed : List String) : Except Fault Fields := do
  let es ← entries file n
  let found ← collect file allowed [] es
  .ok ⟨file, n, found⟩

/-! ## Parts of a program -/

/-- Reads the target. -/
def target (file : String) (n : Node) : Except Fault Target := do
  let f ← fields file n ["version", "file"]
  let version ← match f.get? "version" with
    | some v => do
      let t ← scalar file v
      match Script.Version.parse t with
      | .ok v => .ok v
      | .error e => blame file v "invalid version" e
    | none => .ok .default
  let out ← match f.given? "file" with
    | some v => scalar file v
    | none => .ok ""
  .ok ⟨version, out⟩

/-- Reads declarations: names with their types. -/
def decls (file : String) (n : Node) : Except Fault (List Decl) := do
  let es ← entries file n
  es.mapM fun e => do
    let t ← type file e.2
    .ok ⟨e.1.keyText, t⟩

/-- Reads a value.  `fuel` bounds the depth of the tree. -/
def value (file : String) : Nat → Node → Except Fault Value
  | 0, n => refuse file n "expected a scalar"
  | fuel + 1, n =>
    match n.bare with
    | .sequence _ is => do
      let elems ← is.mapM (value file fuel)
      .ok (.list (posOf file n) elems)
    | .mapping _ _ => do
      let f ← fields file n ["custom", "fields"]
      let tn ← f.require "custom"
      let t ← type file tn
      let members ← match f.get? "fields" with
        | some fn => do
          let es ← entries file fn
          es.mapM fun e => do
            let v ← value file fuel e.2
            .ok (e.1.keyText, v)
        | none => .ok []
      .ok (.custom (posOf file n) (some t) members)
    | _ => do
      let t ← scalar file n
      match Value.parseAt (posOf file n) t with
      | .ok v => .ok v
      | .error f => blame file n "invalid expression" f

/-- Reads a parameter. -/
def param (file : String) (n : Node) : Except Fault Param := do
  let f ← fields file n ["name", "type"]
  let name ← f.name
  let t ← f.typed
  .ok ⟨name, t⟩

/-! ## Statements -/

/-- Reading that counts the statements it has asked about. -/
abbrev Counting := ExceptT Fault (StateM Nat)

/-- Reading that counts nothing. -/
def plainly {α : Type} (e : Except Fault α) : Counting α :=
  match e with
  | .ok a => pure a
  | .error f => throw f

/-- Asks before a statement whether reading has been called off. -/
def ask (interrupt : Option Interrupt) : Counting Unit := do
  let n ← get
  set (n + 1)
  match Interrupt.stops interrupt n with
  | some f => throw f
  | none => pure ()

mutual

/-- Reads statements in order. -/
def block (file : String) (interrupt : Option Interrupt) : Nat → Node → Counting Block
  | 0, n => plainly (refuse file n "expected a sequence")
  | fuel + 1, n => do
    let is ← plainly (items file n)
    statements file interrupt fuel is

/-- Reads the statements of a sequence. -/
def statements (file : String) (interrupt : Option Interrupt) : Nat → List Node → Counting Block
  | _, [] => return []
  | 0, n :: _ => plainly (refuse file n "expected a mapping")
  | fuel + 1, n :: rest => do
    ask interrupt
    let s ← statement file interrupt fuel n
    let ss ← statements file interrupt fuel rest
    return s :: ss

/-- Reads a statement. -/
def statement (file : String) (interrupt : Option Interrupt) : Nat → Node → Counting Stmt
  | 0, n => plainly (refuse file n "expected a mapping")
  | fuel + 1, n => do
    let f ← plainly (fields file n ["val", "let", "set", "fn", "if"])
    let pos := posOf file n
    match f.present with
    | [("val", v)] =>
      let v ← plainly (value file fuel v)
      return .eval pos v
    | [("let", m)] =>
      plainly do
        let f ← fields file m ["name", "type", "value"]
        let name ← f.name
        let t ← f.typed
        let vn ← f.require "value"
        let v ← value file fuel vn
        return .declare pos name (some t) v
    | [("set", m)] =>
      plainly do
        let f ← fields file m ["name", "value"]
        let name ← f.name
        let vn ← f.require "value"
        let v ← value file fuel vn
        return .assign pos name v
    | [("fn", m)] =>
      let f ← plainly (fields file m ["name", "params", "returns", "body"])
      let name ← plainly f.name
      let params ← plainly <| match f.get? "params" with
        | some pn => do
          let is ← items file pn
          is.mapM (param file)
        | none => .ok []
      let result ← plainly <| match f.given? "returns" with
        | some rn => type file rn
        | none => .ok .null
      let body ← match f.get? "body" with
        | some bn => block file interrupt fuel bn
        | none => pure []
      return .function pos name params (some result) body
    | [("if", m)] =>
      let f ← plainly (fields file m ["cond", "then", "elif", "else"])
      let (test, body) ← branch file interrupt fuel f
      let elifs ← match f.get? "elif" with
        | some en => do
          let is ← plainly (items file en)
          branches file interrupt fuel is
        | none => pure []
      let otherwise ← match f.get? "else" with
        | some en => do
          let b ← block file interrupt fuel en
          pure (some b)
        | none => pure none
      return .branch pos test body elifs otherwise
    | _ =>
      plainly (refuse file n "statement must have exactly one of val, let, set, fn, if")

/-- Reads a test and what it guards. -/
def branch (file : String) (interrupt : Option Interrupt) :
    Nat → Fields → Counting (Value × Block)
  | 0, f => plainly (refuse file f.node "expected a mapping")
  | fuel + 1, f => do
    let cn ← plainly (f.require "cond")
    let test ← plainly (value file fuel cn)
    let body ← match f.get? "then" with
      | some tn => block file interrupt fuel tn
      | none => pure []
    return (test, body)

/-- Reads further tests in order. -/
def branches (file : String) (interrupt : Option Interrupt) :
    Nat → List Node → Counting (List (Value × Block))
  | _, [] => return []
  | 0, n :: _ => plainly (refuse file n "expected a mapping")
  | fuel + 1, n :: rest => do
    let f ← plainly (fields file n ["cond", "then"])
    let b ← branch file interrupt fuel f
    let bs ← branches file interrupt fuel rest
    return b :: bs

end

/-! ## Whole documents -/

/-- The body of the only document of a text; none when all are empty. -/
def root (file src : String) : Except Fault (Option Node) :=
  match Node.documents src with
  | none => .error (.document ⟨file, 0, 0⟩ "malformed YAML" (some .unworded))
  | some docs =>
    match docs.filter fun n => !n.isNull with
    | [] => .ok none
    | [n] => .ok (some n)
    | _ :: n :: _ => refuse file n "more than one document"

/-- Reads the body of a program document. -/
def ofNode (name : String) (interrupt : Option Interrupt) (root : Node) : Counting Program := do
  let f ← plainly (fields name root ["target", "builtins", "body"])
  let tgt ← plainly <| match f.get? "target" with
    | some n => target name n
    | none => .ok {}
  let builtins ← plainly <| match f.get? "builtins" with
    | some n => decls name n
    | none => .ok []
  let body ← match f.get? "body" with
    | some n => block name interrupt (3 * root.size + 3) n
    | none => pure []
  return { name := name, target := tgt, builtins := builtins, body := body }

end Document

open Document in
/-- Reads a program document, giving up when called off. -/
def parseUntil (interrupt : Option Interrupt) (name src : String) : Except Fault Program := do
  match ← root name src with
  | none => .ok { name := name }
  | some n => ((ofNode name interrupt n).run.run 0).1

/-- Reads a program document. -/
def parse (name src : String) : Except Fault Program :=
  parseUntil none name src

open Document in
/-- Reads a prelude document: a mapping of names to types. -/
def parseBuiltins (name src : String) : Except Fault (List Decl) := do
  match ← root name src with
  | none => .ok []
  | some n => decls name n

end Lowlang.Program
