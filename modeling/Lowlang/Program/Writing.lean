import Lowlang.Program.Basic
import Lowlang.Value.Source
import Lowlang.Yaml.Writing

set_option autoImplicit false

/-!
# Writing programs

Every program has a normal document, which reads back as an equal program.  A value is
written as an expression when it has one; a list that holds aggregates becomes a sequence,
and an aggregate becomes a mapping.
-/

namespace Lowlang.Program

open Lowlang.Yaml

/-- The text of a type that may be missing, which means null. -/
def typeText (t : Option Ty) : String :=
  (t.getD .null).text

/-- Declarations as a mapping of names to types. -/
def declsContent (ds : List Decl) : Content :=
  .mapping (ds.map fun d => (d.name, .text d.type.text))

mutual

/-- A value as content: its expression if it has one, else what it holds. -/
def valueContent : Value → Except Fault Content
  | .absent => .error (.of .encode [Attr.text "reason" "nil value"])
  | .list p elems =>
    match (Value.list p elems).source with
    | .ok s => .ok (.text s)
    | .error f =>
      if f.isA .unsupportedExpr then (valueContents elems).map .sequence else .error f
  | .custom p t fields =>
    match (Value.custom p t fields).source with
    | .ok s => .ok (.text s)
    | .error f =>
      if f.isA .unsupportedExpr then do
        let fs ← fieldContents fields
        let head := ("custom", Content.text (typeText t))
        .ok (.mapping (if fs.isEmpty then [head] else [head, ("fields", .mapping fs)]))
      else .error f
  | v =>
    match v.source with
    | .ok s => .ok (.text s)
    | .error f =>
      if f.isA .unsupportedExpr then
        .error (.because .encode f [Attr.text "value" v.text])
      else .error f
termination_by structural v => v

/-- Values in order, up to the first failure. -/
def valueContents : List Value → Except Fault (List Content)
  | [] => .ok []
  | v :: vs => do
    let c ← valueContent v
    let cs ← valueContents vs
    .ok (c :: cs)
termination_by structural vs => vs

/-- Fields in order, up to the first failure. -/
def fieldContents : List (String × Value) → Except Fault (List (String × Content))
  | [] => .ok []
  | (n, v) :: fs => do
    let c ← valueContent v
    let cs ← fieldContents fs
    .ok ((n, c) :: cs)
termination_by structural fs => fs

end

/-- A parameter as a mapping. -/
def paramContent (p : Param) : Content :=
  .mapping [("name", .text p.name), ("type", .text p.type.text)]

mutual

/-- A statement as a mapping with one key. -/
def stmtContent : Stmt → Except Fault Content
  | .absent => .error (.of .encode [Attr.text "reason" "nil statement"])
  | .eval _ v => do
    let c ← valueContent v
    .ok (.mapping [("val", c)])
  | .declare _ n t v => do
    let c ← valueContent v
    .ok (.mapping [("let", .mapping
      [("name", .text n), ("type", .text (typeText t)), ("value", c)])])
  | .assign _ n v => do
    let c ← valueContent v
    .ok (.mapping [("set", .mapping [("name", .text n), ("value", c)])])
  | .function _ n params result body => do
    let b ← blockContents body
    .ok (.mapping [("fn", .mapping
      [("name", .text n), ("params", .sequence (params.map paramContent)),
        ("returns", .text (typeText result)), ("body", .sequence b)])])
  | .branch _ test body elifs otherwise => do
    let c ← valueContent test
    let b ← blockContents body
    let es ← elifContents elifs
    let o ← otherwiseContent otherwise
    .ok (.mapping [("if", .mapping ([("cond", c), ("then", .sequence b)]
      ++ (if es.isEmpty then [] else [("elif", .sequence es)]) ++ o))])
  | .other _ k => .error (.of .encode [Attr.text "kind" (Stmt.kindNameOf k)])
termination_by structural s => s

/-- Statements in order, up to the first failure. -/
def blockContents : List Stmt → Except Fault (List Content)
  | [] => .ok []
  | s :: ss => do
    let c ← stmtContent s
    let cs ← blockContents ss
    .ok (c :: cs)
termination_by structural ss => ss

/-- Further tests in order, up to the first failure. -/
def elifContents : List (Value × List Stmt) → Except Fault (List Content)
  | [] => .ok []
  | (test, body) :: es => do
    let c ← valueContent test
    let b ← blockContents body
    let cs ← elifContents es
    .ok (.mapping [("cond", c), ("then", .sequence b)] :: cs)
termination_by structural es => es

/-- The final branch as an entry, if there is one. -/
def otherwiseContent : Option (List Stmt) → Except Fault (List (String × Content))
  | none => .ok []
  | some body => do
    let b ← blockContents body
    .ok [("else", .sequence b)]
termination_by structural o => o

end

/-- A program as content. -/
def content (p : Program) : Except Fault Content := do
  let tgt := ("version", Content.text p.target.version.text)
    :: (if p.target.file = "" then [] else [("file", Content.text p.target.file)])
  let body ← blockContents p.body
  .ok (.mapping ([("target", .mapping tgt)]
    ++ (if p.builtins.isEmpty then [] else [("builtins", declsContent p.builtins)])
    ++ [("body", .sequence body)]))

/-- The normal document of a program. -/
def format (p : Program) (indent : Int) : Except Fault String := do
  let c ← p.content
  .ok (c.document indent)

/-- The normal document of a prelude. -/
def formatBuiltins (ds : List Decl) (indent : Int) : String :=
  (declsContent ds).document indent

end Lowlang.Program
