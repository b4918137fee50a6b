import Lowlang.Expr.Node

set_option autoImplicit false

/-!
# Reading expressions

The tree of an expression, read off its tokens by operator precedence.  Reading counts the
nodes it makes, and a tree of more than `maxNodes` is refused.
-/

namespace Lowlang.Expr.Grammar

open Node (precedence isRightAssoc isComparison isNegatable unaryPrecedence predicateShape
  builtins ArgShape ofNumber)

/-- Where reading stands: the tokens left and the nodes made. -/
structure Cursor where
  rest : List Token
  made : Nat

/-- A reader of a part of an expression. -/
abbrev Reader := StateT Cursor Option

/-- The next token. -/
def peek : Reader (Option Token) := do
  return (← get).rest.head?

/-- Passes over the next token. -/
def advance : Reader Unit :=
  modify fun c => { c with rest := c.rest.tail }

/-- Counts a node. -/
def make (n : Node) : Reader Node := do
  modify fun c => { c with made := c.made + 1 }
  return n

/-- Whether the next token is `t`. -/
def at? (t : Token) : Reader Bool := do
  return (← peek) == some t

/-- Passes over `t`, which has to be next. -/
def expect (t : Token) : Reader Unit := do
  if ← at? t then advance else failure

/-- Passes over a word, which has to be next. -/
def expectWord : Reader String := do
  match ← peek with
  | some (.word w) => advance; return w
  | _ => failure

/-- The name after a point; operators spelt as words are names there. -/
def propertyName : Reader String := do
  match ← peek with
  | some (.word w) => advance; return w
  | some (.op w) =>
    if Token.operatorWords.contains w then do advance; return w else failure
  | _ => failure

/-- The operator at the cursor, when it binds at least as strongly as `least`: its symbol,
whether it is negated, and the tokens it takes. -/
def operatorAt (least : Nat) : Reader (Option (String × Bool × Nat)) := do
  match (← get).rest with
  | .op "not" :: t :: _ =>
    if isNegatable t.value then
      return if 20 ≥ least then some (t.value, true, 2) else none
    else failure
  | .op "not" :: [] => failure
  | .op s :: _ =>
    match precedence s with
    | some p => return if p ≥ least then some (s, false, 1) else none
    | none => return none
  | _ => return none

mutual

/-- Reads expressions with semicolons between them; more than one have no meaning. -/
def sequence : Nat → Bool → Reader Node
  | 0, _ => failure
  | fuel + 1, inside => do
    let first ← expression fuel inside 0
    if ← sequenceRest fuel inside then make .foreign else return first

/-- Reads what follows the semicolons of a sequence, and tells whether there was any. -/
def sequenceRest : Nat → Bool → Reader Bool
  | 0, _ => failure
  | fuel + 1, inside => do
    if ← at? (.op ";") then
      advance
      if (← peek).isNone then return false
      let _ ← expression fuel inside 0
      let _ ← sequenceRest fuel inside
      return true
    else return false

/-- Reads an expression whose operators bind at least as strongly as `least`. -/
def expression : Nat → Bool → Nat → Reader Node
  | 0, _, _ => failure
  | fuel + 1, inside, least => do
    let next ← peek
    if least == 0 && next == some (.op "let") then
      binding fuel inside
    else if least == 0 && next == some (.op "if") then
      condition fuel inside
    else
      let left ← primary fuel inside
      let n ← operators fuel inside least "" left
      if least == 0 then choice fuel inside n else return n

/-- Reads the operators after `left`, of which `last` was the one before. -/
def operators : Nat → Bool → Nat → String → Node → Reader Node
  | 0, _, _, _, _ => failure
  | fuel + 1, inside, least, last, left => do
    match ← operatorAt least with
    | none => return left
    | some (op, negated, tokens) =>
      modify fun c => { c with rest := c.rest.drop tokens }
      if op == "|" then
        let w ← expectWord
        let n ← call fuel inside w [left]
        operators fuel inside least op n
      else if last == "??" && op != "??" then failure
      else if isComparison op then
        let n ← comparison fuel inside op left none
        operators fuel inside least op n
      else
        let p := (precedence op).getD 0
        let right ← expression fuel inside (if isRightAssoc op then p else p + 1)
        let n ← make (.binary op left right)
        let n ← if negated then make (.unary "not" n) else pure n
        operators fuel inside least op n

/-- Reads a row of comparisons: `a < b < c` holds when each neighbouring pair compares. -/
def comparison : Nat → Bool → String → Node → Option Node → Reader Node
  | 0, _, _, _, _ => failure
  | fuel + 1, inside, op, left, so => do
    let right ← expression fuel inside 21
    let pair ← make (.binary op left right)
    let all ← match so with
      | none => pure pair
      | some n => make (.binary "&&" n pair)
    match ← peek with
    | some (.op next) =>
      if isComparison next then
        advance
        comparison fuel inside next right (some all)
      else return all
    | _ => return all

/-- Reads the choices by a question mark after a condition. -/
def choice : Nat → Bool → Node → Reader Node
  | 0, _, _ => failure
  | fuel + 1, inside, test => do
    if ← at? (.op "?") then
      advance
      if ← at? (.op ":") then
        advance
        let _ ← expression fuel inside 0
        let n ← make .foreign
        choice fuel inside n
      else
        let _ ← expression fuel inside 0
        expect (.op ":")
        let _ ← expression fuel inside 0
        let n ← make .foreign
        choice fuel inside n
    else return test

/-- Reads a binding of a name in what follows. -/
def binding : Nat → Bool → Reader Node
  | 0, _ => failure
  | fuel + 1, inside => do
    expect (.op "let")
    let _ ← expectWord
    expect (.op "=")
    let _ ← expression fuel inside 0
    expect (.op ";")
    let _ ← sequence fuel inside
    make .foreign

/-- Reads a condition with its two braced cases. -/
def condition : Nat → Bool → Reader Node
  | 0, _ => failure
  | fuel + 1, inside => do
    expect (.op "if")
    let _ ← expression fuel inside 0
    expect (.bracket '\x7b')
    let _ ← sequence fuel inside
    expect (.bracket '\x7d')
    expect (.op "else")
    if ← at? (.op "if") then condition fuel inside
    else
      expect (.bracket '\x7b')
      let _ ← sequence fuel inside
      expect (.bracket '\x7d')
      return .foreign

/-- Reads an operand with the operators before it and the accesses after it. -/
def primary : Nat → Bool → Reader Node
  | 0, _ => failure
  | fuel + 1, inside => do
    match ← peek with
    | none => failure
    | some (.op s) =>
      match unaryPrecedence s with
      | some p =>
        advance
        let x ← expression fuel inside p
        let n ← make (.unary s x)
        accesses fuel inside n
      | none =>
        if inside && s == "#" then
          advance
          match ← peek with
          | some (.word _) => advance
          | _ => pure ()
          let n ← make .foreign
          accesses fuel inside n
        else if inside && s == "." then
          let n ← make .foreign
          accesses fuel inside n
        else if s == "::" then
          advance
          let w ← expectWord
          call fuel inside w []
        else failure
    | some (.bracket c) =>
      if c == '(' then
        advance
        let n ← sequence fuel inside
        expect (.bracket ')')
        accesses fuel inside n
      else if c == '[' then
        advance
        let elems ← items fuel inside ']' []
        let n ← make (.array elems)
        accesses fuel inside n
      else if c == '\x7b' then
        advance
        pairs fuel inside true
        let n ← make .foreign
        accesses fuel inside n
      else failure
    | some (.number t) =>
      advance
      match ofNumber t with
      | some n => make n
      | none => failure
    | some (.string s) =>
      advance
      let n ← make (.string s)
      accesses fuel inside n
    | some (.word w) =>
      advance
      if w == "true" then make (.bool true)
      else if w == "false" then make (.bool false)
      else if w == "nil" then make .foreign
      else if ← at? (.bracket '(') then call fuel inside w []
      else
        let n ← make (.ident w)
        accesses fuel inside n

/-- Reads expressions up to a closing bracket, commas between them and perhaps after the
last; `found` holds those read, last first. -/
def items : Nat → Bool → Char → List Node → Reader (List Node)
  | 0, _, _, _ => failure
  | fuel + 1, inside, close, found => do
    if ← at? (.bracket close) then
      advance
      return found.reverse
    else
      let n ← expression fuel inside 0
      if ← at? (.bracket close) then
        advance
        return (n :: found).reverse
      else
        expect (.op ",")
        items fuel inside close (n :: found)

/-- Reads the entries of a map up to its closing brace. -/
def pairs : Nat → Bool → Bool → Reader Unit
  | 0, _, _ => failure
  | fuel + 1, inside, first => do
    if ← at? (.bracket '\x7d') then advance
    else
      if !first then expect (.op ",")
      if ← at? (.bracket '\x7d') then advance
      else
        match ← peek with
        | some (.number _) | some (.string _) | some (.word _) =>
          advance
          let _ ← make .foreign
        | some (.bracket '(') =>
          let _ ← expression fuel inside 0
        | _ => failure
        expect (.op ":")
        let _ ← expression fuel inside 0
        let _ ← make .foreign
        pairs fuel inside false

/-- Reads the arguments of a call of `w`; `given` holds an argument from before a bar. -/
def call : Nat → Bool → String → List Node → Reader Node
  | 0, _, _, _ => failure
  | fuel + 1, inside, w, given => do
    match predicateShape w with
    | some shape =>
      expect (.bracket '(')
      let args ← predicateArgs fuel inside true (shape.drop given.length)
      if ← at? (.op ",") then advance
      expect (.bracket ')')
      let n ← make (.builtin w (given ++ args))
      accesses fuel inside n
    | none =>
      if builtins.contains w then
        expect (.bracket '(')
        let args ← items fuel inside ')' []
        let n ← make (.builtin w (given ++ args))
        accesses fuel inside n
      else
        let callee ← make (.ident w)
        expect (.bracket '(')
        let args ← items fuel inside ')' []
        let n ← make (.call callee (given ++ args))
        accesses fuel inside n

/-- Reads the arguments of a function that takes a predicate. -/
def predicateArgs : Nat → Bool → Bool → List ArgShape → Reader (List Node)
  | 0, _, _, _ => failure
  | _ + 1, _, _, [] => return []
  | fuel + 1, inside, first, shape :: shapes => do
    let done ← at? (.bracket ')')
    if shape.optional && done then return []
    else
      if !first then expect (.op ",")
      let n ← if shape.predicate then predicate fuel else expression fuel inside 0
      let ns ← predicateArgs fuel inside false shapes
      return n :: ns

/-- Reads a predicate, braced or not, inside which the element can be named. -/
def predicate : Nat → Reader Node
  | 0 => failure
  | fuel + 1 => do
    if ← at? (.bracket '\x7b') then
      advance
      let _ ← sequence fuel true
      expect (.bracket '\x7d')
    else
      let _ ← expression fuel true 0
      if ← at? (.op ";") then failure
    make .foreign

/-- Reads the accesses and method calls after a node. -/
def accesses : Nat → Bool → Node → Reader Node
  | 0, _, _ => failure
  | fuel + 1, inside, n => do
    match (← get).rest with
    | .op "?." :: .bracket '[' :: _ =>
      advance
      let n ← subscript fuel inside n true
      accesses fuel inside n
    | .op "." :: _ =>
      advance
      let n ← property fuel inside n false
      accesses fuel inside n
    | .op "?." :: _ =>
      advance
      let n ← property fuel inside n true
      accesses fuel inside n
    | .bracket '[' :: _ =>
      let n ← subscript fuel inside n false
      accesses fuel inside n
    | _ => return n

/-- Reads a named part of `n`, and the arguments when it is called. -/
def property : Nat → Bool → Node → Bool → Reader Node
  | 0, _, _, _ => failure
  | fuel + 1, inside, n, optional => do
    let name ← propertyName
    let p ← make (.string name)
    let (object, chained) := match n with
      | .chain inner => (inner, true)
      | n => (n, false)
    let m ← make (.member object p optional)
    let m ← if ← at? (.bracket '(') then do
        advance
        let args ← items fuel inside ')' []
        make (.call m args)
      else pure m
    if chained || optional then make (.chain m) else return m

/-- Reads a subscript or a slice of `n`. -/
def subscript : Nat → Bool → Node → Bool → Reader Node
  | 0, _, _, _ => failure
  | fuel + 1, inside, n, optional => do
    expect (.bracket '[')
    if ← at? (.op ":") then
      advance
      if ← at? (.bracket ']') then pure () else
        let _ ← expression fuel inside 0
      expect (.bracket ']')
      make .foreign
    else
      let i ← expression fuel inside 0
      if ← at? (.op ":") then
        advance
        if ← at? (.bracket ']') then pure () else
          let _ ← expression fuel inside 0
        expect (.bracket ']')
        make .foreign
      else
        expect (.bracket ']')
        let m ← make (.member n i optional)
        if optional then make (.chain m) else return m

end

/-- The most nodes a tree may have. -/
def maxNodes : Nat := 10000

/-- Steps enough for a row of tokens: fewer than sixteen lie between two tokens read. -/
def fuelFor (ts : List Token) : Nat :=
  16 * ts.length + 32

/-- The tree of a row of tokens. -/
def ofTokens? (ts : List Token) : Option Node := do
  let (n, c) ← (sequence (fuelFor ts) false).run ⟨ts, 0⟩
  if c.rest.isEmpty && c.made ≤ maxNodes then some n else none

/-- The tree of a text. -/
def parse? (s : List Char) : Option Node :=
  (Token.scan s).bind ofTokens?

end Lowlang.Expr.Grammar
