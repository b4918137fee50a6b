import Lowlang.Pos

set_option autoImplicit false

/-!
# Faults

Every failure of the library is a value of one type.  A fault has a wording, may have a
cause, and, when it stems from this library, shows itself to the log as a list of
attributes.  Refining a fault (adding attributes or a cause) keeps the category it was
made from.
-/

namespace Lowlang

/-- The categories of failure the library itself raises. -/
inductive Category where
  | parseType | parseExpr | unsupportedExpr
  | namePresent | nameNotFound | unsupportedConstruct | maxDepthExceeded
  | invalidVersion
  | document | read | encode
  | marshal | writeConfig | fileExists | prelude | compile | writeOutput
  | outOfBounds | editDeclined | usage
  deriving DecidableEq, Repr, Inhabited

namespace Category

/-- Every category, in the order of the layers that raise them. -/
def all : List Category :=
  [.parseType, .parseExpr, .unsupportedExpr, .namePresent, .nameNotFound,
    .unsupportedConstruct, .maxDepthExceeded, .invalidVersion, .document, .read, .encode,
    .marshal, .writeConfig, .fileExists, .prelude, .compile, .writeOutput, .outOfBounds,
    .editDeclined, .usage]

theorem mem_all (c : Category) : c ∈ all := by
  cases c <;> decide

/-- The wording of a category. -/
def text : Category → String
  | .parseType => "invalid type"
  | .parseExpr => "invalid expression"
  | .unsupportedExpr => "unsupported expression"
  | .namePresent => "name already declared"
  | .nameNotFound => "name not declared"
  | .unsupportedConstruct => "unsupported construct"
  | .maxDepthExceeded => "maximum block depth exceeded"
  | .invalidVersion => "invalid javascript version"
  | .document => "invalid program document"
  | .read => "cannot read program"
  | .encode => "cannot encode program"
  | .marshal => "marshal YAML"
  | .writeConfig => "write configuration file"
  | .fileExists => "file exists (use --force to overwrite)"
  | .prelude => "cannot load prelude"
  | .compile => "compile failed"
  | .writeOutput => "cannot write output"
  | .outOfBounds => "index out of range"
  | .editDeclined => "decline edit"
  | .usage => "usage: let <name> <type> [= <value>]"

end Category

/-- A failure. -/
inductive Fault where
  /-- A worded failure with attributes, made from a category or freely. -/
  | report (origin : Option Category) (msg : String) (attrs : List Attr) (cause : Option Fault)
  /-- A name declared twice in one scope. -/
  | namePresent (name : String) (pos : Pos)
  /-- A name used where no scope declares it. -/
  | nameNotFound (name : String) (pos : Pos)
  /-- A construct the target cannot express. -/
  | unsupported (target construct : String) (pos : Pos)
  /-- A malformed document. -/
  | document (pos : Pos) (reason : String) (cause : Option Fault)
  /-- An action on a file that failed. -/
  | file (action path problem : String)
  /-- A file that is not there. -/
  | absent
  /-- Work given up on request. -/
  | cancelled
  /-- A failure of a text format, whose wording is not kept. -/
  | unworded
  /-- Any other failure, known by its wording. -/
  | plain (msg : String) (cause : Option Fault)
  deriving Repr, Inhabited

namespace Fault

/-- A fault of category `c` with attributes. -/
def of (c : Category) (attrs : List Attr) : Fault :=
  .report (some c) c.text attrs none

/-- A fault of category `c` with a cause and attributes. -/
def because (c : Category) (cause : Fault) (attrs : List Attr) : Fault :=
  .report (some c) c.text attrs (some cause)

/-! ## Wording -/

/-- The whole wording, cause last; nothing when only unworded failures are involved. -/
def wording : Fault → Option String
  | .report _ msg _ none => some msg
  | .report _ msg _ (some cause) =>
    match wording cause with
    | some t => some (if msg = "" then t else msg ++ ": " ++ t)
    | none => if msg = "" then none else some msg
  | .namePresent name pos => some (pos.lead ++ Category.namePresent.text ++ ": " ++ name)
  | .nameNotFound name pos => some (pos.lead ++ Category.nameNotFound.text ++ ": " ++ name)
  | .unsupported target construct pos =>
    some (pos.lead ++ target ++ ": " ++ Category.unsupportedConstruct.text ++ ": " ++ construct)
  | .document pos reason none => some (located pos reason)
  | .document pos reason (some cause) =>
    match wording cause with
    | some t => some (located pos reason ++ ": " ++ t)
    | none => some (located pos reason)
  | .file action path problem => some (action ++ " " ++ path ++ ": " ++ problem)
  | .absent => some "file does not exist"
  | .cancelled => some "context canceled"
  | .unworded => none
  | .plain msg none => some msg
  | .plain msg (some cause) =>
    match wording cause with
    | some t => some (msg ++ ": " ++ t)
    | none => some msg
termination_by structural f => f
where
  /-- A reason after the place it is about, which may be a file only. -/
  located (pos : Pos) (reason : String) : String :=
    if pos.isKnown || pos.file ≠ "" then pos.text ++ ": " ++ reason else reason

/-- The wording shown to a user. -/
def message (f : Fault) : String :=
  f.wording.getD ""

/-! ## The chain of causes -/

/-- The direct cause. -/
def cause : Fault → Option Fault
  | .report _ _ _ c => c
  | .document _ _ c => c
  | .plain _ c => c
  | _ => none

/-- The fault followed by its causes, outermost first. -/
def chain : Fault → List Fault
  | .report o m a (some c) => .report o m a (some c) :: chain c
  | .document p r (some c) => .document p r (some c) :: chain c
  | .plain m (some c) => .plain m (some c) :: chain c
  | f => [f]
termination_by structural f => f

/-- The category a fault counts as by itself, without its causes. -/
def category : Fault → Option Category
  | .report origin _ _ _ => origin
  | .namePresent _ _ => some .namePresent
  | .nameNotFound _ _ => some .nameNotFound
  | .unsupported _ _ _ => some .unsupportedConstruct
  | .document _ _ _ => some .document
  | _ => none

/-- Whether the fault or one of its causes is of category `c`. -/
def isA (f : Fault) (c : Category) : Bool :=
  f.chain.any fun g => g.category == some c

/-- Whether the chain ends in an unworded failure. -/
def endsUnworded (f : Fault) : Bool :=
  match f.chain.getLast? with
  | some .unworded => true
  | _ => false

/-! ## Refinement -/

/-- The same failure with another cause. -/
def wrap (f : Fault) (cause : Fault) : Fault :=
  match f with
  | .report origin msg attrs _ => .report origin msg attrs (some cause)
  | f => f

/-- The same failure with attributes added behind those it has. -/
def withAttrs (f : Fault) (more : List Attr) : Fault :=
  match f with
  | .report origin msg attrs cause => .report origin msg (attrs ++ more) cause
  | f => f

/-- The first worded-with-attributes failure of the chain, or a blank one around `f`. -/
def adopt (f : Option Fault) : Fault :=
  match f with
  | none => .report none "" [] none
  | some f =>
    match f.chain.find? fun g => match g with | .report _ _ _ _ => true | _ => false with
    | some g => g
    | none => .report none "" [] (some f)

/-! ## Log view -/

/-- A textual cause, left out when its wording is not kept to the end. -/
def causeText (f : Fault) : List Attr :=
  if f.endsUnworded then [] else [Attr.text "cause" f.message]

/-- A position attribute, when it is known. -/
def posAttr (pos : Pos) : List Attr :=
  if pos.isKnown then [pos.attr "pos"] else []

/-- The attributes of a fault; with `through` set, a fault without any hands the question
on to its cause. -/
def attrsOf (through : Bool) : Fault → Option (List Attr)
  | .report _ msg attrs none =>
    some ((if msg = "" then [] else [Attr.text "error" msg]) ++ attrs)
  | .report _ msg attrs (some cause) =>
    some ((if msg = "" then [] else [Attr.text "error" msg]) ++ causeText cause ++ attrs)
  | .namePresent name pos =>
    some ([Attr.text "error" Category.namePresent.text, Attr.text "name" name] ++ posAttr pos)
  | .nameNotFound name pos =>
    some ([Attr.text "error" Category.nameNotFound.text, Attr.text "name" name] ++ posAttr pos)
  | .unsupported target construct pos =>
    some ([Attr.text "error" Category.unsupportedConstruct.text, Attr.text "backend" target,
      Attr.text "construct" construct] ++ posAttr pos)
  | .document pos reason none => some (documentAttrs pos reason)
  | .document pos reason (some cause) =>
    match attrsOf true cause with
    | some inner => some (documentAttrs pos reason ++ [Attr.group "cause" inner])
    | none => some (documentAttrs pos reason ++ causeText cause)
  | .plain _ (some cause) => if through then attrsOf true cause else none
  | _ => none
termination_by structural f => f
where
  /-- What every report about a document says. -/
  documentAttrs (pos : Pos) (reason : String) : List Attr :=
    [Attr.text "error" Category.document.text, Attr.text "reason" reason, pos.attr "pos"]

/-- The attributes by which a fault of this library shows itself to the log. -/
def attrs (f : Fault) : Option (List Attr) :=
  f.attrsOf false

/-- A fault as the value of an attribute: its own attributes, or its wording. -/
def datum (f : Fault) : Datum :=
  match f.attrs with
  | some as => .group as
  | none => .failure f.message

/-- Work in two parts succeeds only when both do. -/
theorem bind_ok {α β : Type} {e : Except Fault α} {k : α → Except Fault β} {b : β}
    (h : (e >>= k) = .ok b) : ∃ a, e = .ok a ∧ k a = .ok b := by
  cases e with
  | error f => cases h
  | ok a => exact ⟨a, rfl, h⟩

end Fault

end Lowlang
