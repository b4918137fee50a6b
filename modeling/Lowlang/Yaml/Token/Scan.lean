import Lowlang.Yaml.Token.Block

set_option autoImplicit false

/-!
# From text to tokens

The scanner walks over the characters once.  What it has not yet made a token of is kept as
pending text; a token is cut when a mark, a quote or a line indented no deeper than the
current parent shows that the text has ended.  A text that holds a character no token can
start with has no tokens at all.
-/

namespace Lowlang.Yaml.Token

/-- How the line at hand is indented, seen from the parent. -/
inductive Trend where
  | level | deeper | back
  deriving DecidableEq, Repr, Inhabited

/-- The scanner. -/
structure Scan where
  /-- The tokens found, latest first. -/
  tokens : List Token := []
  line : Nat := 1
  column : Nat := 1
  /-- The blanks at the start of this line. -/
  indent : Nat := 0
  /-- The column of the key or dash that the text belongs to; zero at the top. -/
  parent : Nat := 0
  /-- Whether only blanks were read on this line. -/
  fresh : Bool := true
  trend : Trend := .level
  /-- Whether a directive is being read. -/
  directive : Bool := false
  /-- Whether the name of an anchor or an alias is being read. -/
  naming : Bool := false
  /-- Open square brackets. -/
  sequences : Int := 0
  /-- Open curly brackets. -/
  mappings : Int := 0
  /-- The character read last. -/
  before : Char := '\n'
  /-- The pending text, latest first. -/
  text : List Char := []
  /-- Line and column of text that has gone on from an earlier line. -/
  carried : Option (Nat × Nat) := none
  /-- The line breaks of a block scalar without content, latest first.  The character behind
  them finds pending text, and what cuts it makes a token of them. -/
  leftover : List Char := []
  /-- All that was read since the last token, latest first. -/
  raw : List Char := []
  block : Option Block := none
  deriving Inhabited

namespace Scan

/-! ## Small steps -/

/-- What follows a line break, if one stands here. -/
def lineEnd : List Char → Option (List Char)
  | '\r' :: '\n' :: rest => some rest
  | c :: rest => if isBreak c then some rest else none
  | [] => none

/-- Whether an opening bracket waits for its partner. -/
def inFlow (s : Scan) : Bool :=
  0 < s.sequences || 0 < s.mappings

/-- Whether no text is pending. -/
def isBare (s : Scan) : Bool :=
  s.text.isEmpty && s.leftover.isEmpty

/-- Adds a token; what was read before it is settled. -/
def emit (s : Scan) (t : Token) : Scan :=
  { s with tokens := t :: s.tokens, text := [], leftover := [], raw := [] }

/-- Adds a token of a mark of `n` characters and steps behind it. -/
def mark (s : Scan) (kind : Kind) (text : String) (n : Nat) : Scan :=
  let s := s.emit { kind := kind, text := text, line := s.line, column := s.column }
  { s with column := s.column + n }

/-- Adds a character to the pending text, which starts with no blank. -/
def push (s : Scan) (c : Char) : Scan :=
  { s with
    text := if s.text.isEmpty && isBlank c then [] else c :: s.text
    leftover := []
    raw := c :: s.raw
    column := s.column + 1
    before := c }

/-- Moves to the next line. -/
def nextLine (s : Scan) : Scan :=
  { s with
    line := s.line + 1, column := 1, indent := 0, fresh := true, directive := false
    naming := false, before := '\n' }

/-- The pending text without blanks and line breaks at its end. -/
def settled (s : Scan) : List Char :=
  (s.text.dropWhile fun c => isBlank c || c == '\n').reverse

/-- Where the pending text starts. -/
def start (s : Scan) : Nat × Nat :=
  s.carried.getD (s.line, s.column - s.text.length)

/-- What plain text means here: text behind a tag without a meaning of its own, and
otherwise what it spells. -/
def meaning (s : Scan) (word : String) : Scalar :=
  match s.tokens with
  | t :: _ =>
    match t.kind with
    | .tag => if knownTags.contains t.text then .ofPlain word else .text word
    | _ => .ofPlain word
  | [] => .ofPlain word

/-- A word as a token of plain text that starts where the pending text does. -/
def plainToken (s : Scan) (word : List Char) : Token :=
  let pads (c : Char) : Bool := c == ' ' || isBreak c
  let t := String.ofList word
  { kind := .scalar .plain (s.meaning t), text := t
    line := s.start.1, column := s.start.2
    spans := ((s.raw.dropWhile pads).reverse.dropWhile pads).any isBreak
    breaks := (s.raw.reverse.dropWhile pads).any isBreak }

/-- Cuts the pending text into a token, if there is any. -/
def flush (s : Scan) : Scan :=
  let s := match s.block with
    | some b => { s.emit (b.token s.start s.raw s.text) with block := none }
    | none =>
      if !s.settled.isEmpty then s.emit (s.plainToken s.settled)
      else if !s.leftover.isEmpty then s.emit (s.plainToken s.leftover.reverse)
      else { s with text := [] }
  { s with carried := none }

/-- Takes note of how the line is indented, before its first character is read. -/
def look (s : Scan) (c : Char) : Scan :=
  if s.fresh then
    if isBreak c || c == '\t' then s
    else if c == ' ' then { s with indent := s.indent + 1 }
    else
      { s with
        trend := if s.parent = 0 then s.trend
          else if s.parent < s.column then .deeper else .back
        fresh := false }
  else { s with trend := .level }

/-! ## Block scalars -/

/-- Reads the header of a block scalar, up to the end of its line. -/
def openBlock (s : Scan) (c : Char) (rest : List Char) : Option (Scan × List Char) :=
  let shown := rest.takeWhile fun d => !isBreak d
  let behind := rest.dropWhile fun d => !isBreak d
  -- at the end of the input the last character of the header is lost
  let words := if behind.isEmpty then shown.dropLast else shown
  (Header.read c s.line s.column words).map fun header =>
    let parent := if s.column = 1 then 1 else s.parent
    let s := { s with
      parent := parent, trend := .level, text := [], raw := []
      block := some (.below header parent) }
    (s.nextLine, (lineEnd behind).getD behind)

/-- Adds a character to the content of a block scalar. -/
def pushContent (s : Scan) (c : Char) : Scan :=
  { s with text := c :: s.text, column := s.column + 1 }

/-- The last character of the input inside a block scalar.  A blank there is content only as
part of the indentation. -/
def closeBlock (s : Scan) (b : Block) (c : Char) : Option Scan :=
  let text :=
    if s.fresh && c == ' ' then (if b.holds s.column then ' ' :: s.text else s.text)
    else if !isBlank c then c :: s.text
    else if s.fresh then s.text
    else s.text.dropWhile (· == ' ')
  (b.note s.column).map fun b =>
    { s.emit (b.token (s.line, s.column) s.raw text) with block := none }

/-- A line break inside a block scalar, which ends at a mark of documents. -/
def breakBlock (s : Scan) (b : Block) (rest : List Char) : Scan :=
  let b := b.endLine s.column
  let s := { s.pushContent '\n' with block := some b }.nextLine
  if atDocumentMark rest then
    { s.emit (b.token (s.line, s.column) s.raw s.text) with block := none }
  else s

/-- A character of a block scalar that is neither a line break nor the last one. -/
def contentStep (s : Scan) (b : Block) (c : Char) : Option Scan :=
  if s.fresh && c == ' ' then
    let b := if b.holds s.column && b.folds then { b with broke := false } else b
    let s := { s with block := some b }
    some (if b.holds s.column then s.pushContent c else { s with column := s.column + 1 })
  else if c == '\t' && !b.indents s.column then some (s.pushContent c)
  else if s.fresh && c == '\t' then none
  else if b.first = 0 && s.column < b.blank then none
  else
    (b.note s.column).map fun b =>
      let s := if 1 < b.first then { s with parent := b.first - 1 } else s
      let s := { s with text := b.fold s.column s.text, block := some { b with broke := false } }
      s.pushContent c

/-- Reads a character of a block scalar. -/
def blockStep (s : Scan) (b : Block) (c : Char) (rest : List Char) :
    Option (Scan × List Char) :=
  let s := { s with raw := c :: s.raw }
  match lineEnd (c :: rest) with
  | some behind =>
    let s := if c == '\r' && behind.length < rest.length then { s with raw := '\n' :: s.raw } else s
    if behind.isEmpty then (s.closeBlock b '\n').map (·, [])
    else some (s.breakBlock b behind, behind)
  | none =>
    if rest.isEmpty then (s.closeBlock b c).map (·, [])
    else (s.contentStep b c).map (·, rest)

/-- Ends a block scalar at a line indented no deeper than its parent.  Refused are content
that is all there was read, and text without content in the first column. -/
def leaveBlock (s : Scan) (b : Block) : Option Scan :=
  match b.header with
  | none => if s.start.2 = 1 then none else some s.flush
  | some header =>
    if b.content s.text ≠ "" then
      if s.text.reverse.isPrefixOf s.raw.reverse then none else some s.flush
    else if header.column = 1 then none
    else
      let leftover := s.text
      some { s.emit (b.token s.start [] []) with block := none, leftover := leftover }

/-! ## Steps of several characters -/

/-- Ends a line. -/
def lineBreak (s : Scan) (rest : List Char) : Scan :=
  let s := if s.text.isEmpty || s.carried.isSome then s else { s with carried := some s.start }
  let s := match s.raw with
    | c :: _ =>
      if isBlank c then
        { s with text := s.settled.reverse, raw := s.raw.dropWhile isBlank }
      else s
    | [] => s
  let s := if rest.isEmpty || s.directive || s.naming then s.flush else s
  let text :=
    if s.text.isEmpty then []
    else if s.fresh then
      match s.text with
      | ' ' :: t => '\n' :: t
      | t => '\n' :: t
    else ' ' :: s.text
  { s with text := text, raw := '\n' :: s.raw }.nextLine

/-- Reads a line break. -/
def lineStep (s : Scan) (cs : List Char) : Option (Scan × List Char) :=
  (lineEnd cs).map fun rest => (s.lineBreak rest, rest)

/-- Reads a tag.  The blank that ends it is read with it, and stands in no column.  A tag that
the input ends in is lost. -/
def tagStep (s : Scan) (rest : List Char) : Option (Scan × List Char) :=
  let ends (c : Char) : Bool := c == ' ' || isBreak c || (c == ',' && s.inFlow)
  let name := rest.takeWhile fun c => !ends c
  let behind := rest.dropWhile fun c => !ends c
  if name.contains '\x7b' || name.contains '\x7d' then none
  else
    let width := name.length
    match behind with
    | [] => some ({ s with text := [], raw := [] }, [])
    | ' ' :: behind =>
      let s := s.mark .tag (String.ofList ('!' :: name)) (width + 1)
      some ({ s with before := ' ' }, behind)
    | behind => some (s.mark .tag (String.ofList ('!' :: name)) width, behind)

/-- Reads a comment, with the line break behind it. -/
def commentStep (s : Scan) (rest : List Char) : Scan × List Char :=
  let s := s.flush
  let words := rest.takeWhile fun c => !isBreak c
  let s := s.mark .comment (String.ofList words) 0
  (s.nextLine, (rest.dropWhile fun c => !isBreak c).drop 1)

/-- Reads a quoted scalar. -/
def quoteStep (s : Scan) (c : Char) (rest : List Char) : Option (Scan × List Char) :=
  let q : Quoting := { text := [], fresh := false, line := s.line, column := s.column + 1 }
  let (style, found) :=
    if c = '"' then (Style.double, readDouble s.parent 0 q rest)
    else (Style.single, readSingle s.parent q rest)
  found.map fun r =>
    let t := String.ofList r.text
    let crossed := r.line ≠ s.line
    let s := s.emit
      { kind := .scalar style (.text t), text := t, line := s.line, column := s.column
        spans := crossed, breaks := crossed }
    let s := if crossed then s.nextLine else s
    ({ s with line := r.line, column := r.column, before := c }, r.rest)

/-- Whether blanks and colons stand here, of which one colon ends a key. -/
def atMergeColon : List Char → Bool
  | ' ' :: rest => atMergeColon rest
  | ':' :: rest => rest.head?.any (fun c => c == ' ' || isBreak c) || atMergeColon rest
  | _ => false

/-- Whether a merge key stands here, behind its first character. -/
def atMergeKey : List Char → Bool
  | '<' :: rest => atMergeColon rest
  | _ => false

/-- Whether exactly three of `c` stand here, of which the first was read. -/
def three (c : Char) (rest : List Char) : Bool :=
  rest.take 2 == [c, c] && (rest.drop 2).head? ≠ some c

/-- Whether a blank, a line break or the end of the input is next. -/
def atGap (rest : List Char) : Bool :=
  match rest with
  | [] => true
  | c :: _ => isBlank c || isBreak c

/-- Whether a colon here ends a key. -/
def endsKey (s : Scan) (rest : List Char) : Bool :=
  !s.directive && !s.naming
    && (if 0 < s.mappings then
          rest.head? ≠ some '/'
            && (match s.tokens with
              | t :: _ => match t.kind with | .colon => false | _ => true
              | [] => true)
        else atGap rest)

/-- Whether a tab stands between the last token and the pending text. -/
def tabbed (s : Scan) : Bool :=
  match s.raw.reverse with
  | '\t' :: _ => true
  | ' ' :: '\t' :: _ => true
  | _ => false

/-- Makes the pending text, or the quoted scalar just read, a key. -/
def colonStep (s : Scan) : Scan :=
  let cut := s.flush
  let s :=
    match cut.tokens with
    | t :: _ =>
      match t.kind with
      | .scalar .plain _ => if s.isBare then cut else { cut with parent := t.column }
      | .scalar .block _ => cut
      | .scalar _ _ => { cut with parent := t.column }
      | _ => cut
    | [] => cut
  s.mark .colon ":" 1

/-! ## One step -/

/-- A character that no rule of its own applies to. -/
def other (s : Scan) (c : Char) (rest : List Char) : Option (Scan × List Char) :=
  some (s.push c, rest)

/-- Reads one token or one character of pending text outside block scalars. -/
def step (s : Scan) (c : Char) (rest : List Char) : Option (Scan × List Char) :=
  let bare := s.isBare
  match c with
  | '\x7b' =>
    if !bare && !s.inFlow then s.other c rest
    else
      let s := s.flush.mark .mappingStart "\x7b" 1
      some ({ s with mappings := s.mappings + 1 }, rest)
  | '\x7d' =>
    if s.mappings ≤ 0 then s.other c rest
    else
      let s := s.flush.mark .mappingEnd "\x7d" 1
      some ({ s with mappings := s.mappings - 1 }, rest)
  | '[' =>
    if !bare && !s.inFlow then s.other c rest
    else
      let s := s.flush.mark .sequenceStart "[" 1
      some ({ s with sequences := s.sequences + 1 }, rest)
  | ']' =>
    if !bare && s.sequences ≤ 0 then s.other c rest
    else
      let s := s.flush.mark .sequenceEnd "]" 1
      some ({ s with sequences := s.sequences - 1 }, rest)
  | ',' => if s.inFlow then some (s.flush.mark .comma "," 1, rest) else s.other c rest
  | '.' =>
    if s.indent = 0 && s.column = 1 && three '.' rest then
      some (s.flush.mark .documentEnd "..." 3, rest.drop 2)
    else s.other c rest
  | '<' =>
    if atMergeKey rest then
      some (({ s with parent := s.column }).mark .mergeKey "<<" 2, rest.drop 1)
    else s.other c rest
  | '-' =>
    if s.indent = 0 && s.column = 1 && three '-' rest && atGap (rest.drop 2) then
      some ({ s.flush.mark .documentStart "---" 3 with parent := 0, indent := 0 }, rest.drop 2)
    else if !bare && s.trend = .deeper then
      let b : Block := { first := s.column, own := s.column }
      some ({ s.push c with block := some b }, rest)
    else if bare && (atGap rest || rest.head? == some '\x00') then
      some (({ s with parent := s.column }).mark .entry "-" 1, rest)
    else s.other c rest
  | ':' =>
    if s.endsKey rest then
      if s.tabbed then none else some (s.colonStep, rest)
    else s.other c rest
  | '|' => if bare then s.openBlock c rest else s.other c rest
  | '>' => if bare then s.openBlock c rest else s.other c rest
  | '!' => if bare && !s.directive then s.tagStep rest else s.other c rest
  | '%' =>
    if bare && s.indent = 0 then
      some ({ s.mark .directive "%" 1 with directive := true }, rest)
    else s.other c rest
  | '?' =>
    if bare && rest.head?.any isBlank then
      some (({ s with parent := s.column }).mark .explicitKey "?" 1, rest)
    else s.other c rest
  | '&' =>
    if bare then some ({ s.mark .anchor "&" 1 with naming := true }, rest)
    else s.other c rest
  | '*' =>
    if bare then some ({ s.mark .alias "*" 1 with naming := true }, rest)
    else s.other c rest
  | '#' =>
    if bare || isBlank s.before || isBreak s.before then some (s.commentStep rest)
    else s.other c rest
  | '\'' => if bare then s.quoteStep c rest else s.other c rest
  | '"' => if bare then s.quoteStep c rest else s.other c rest
  | '\r' => s.lineStep (c :: rest)
  | '\n' => s.lineStep (c :: rest)
  | ' ' =>
    if s.fresh then
      some ({ s with column := s.column + 1, raw := ' ' :: s.raw, before := ' ' }, rest)
    else if s.directive then s.flush.other c rest
    else if s.naming then { s.flush with naming := false }.other c rest
    else s.other c rest
  | '@' => if bare then none else s.other c rest
  | '\x60' => if bare then none else s.other c rest
  | '\t' =>
    if (!bare && s.parent = 0) || s.parent < s.column then
      some ({ s with indent := s.indent + 1, raw := '\t' :: s.raw, before := '\t' }, rest)
    else if s.inFlow || !s.fresh then s.other c rest
    else none
  | c => s.other c rest

/-- Reads one token or character.  A block scalar ends at a line indented no deeper than
its parent. -/
def advance (s : Scan) (c : Char) (rest : List Char) : Option (Scan × List Char) :=
  let s := s.look c
  match s.block with
  | none => (if s.trend = .back then s.flush else s).step c rest
  | some b =>
    if s.trend = .back then (s.leaveBlock b).bind fun s => s.step c rest
    else s.blockStep b c rest

/-- Reads on to the end of the input, of which `fuel` bounds the length. -/
def run : Nat → Scan → List Char → Option Scan
  | _, s, [] => some s.flush
  | 0, _, _ :: _ => none
  | fuel + 1, s, c :: rest =>
    match s.advance c rest with
    | some (s, rest) => run fuel s rest
    | none => none

end Scan

/-- The tokens of a text, comments left out. -/
def scan (src : String) : Option (List Token) :=
  let cs := src.toList
  (Scan.run (cs.length + 1) {} cs).map fun s =>
    s.tokens.reverse.filter fun t => match t.kind with | .comment => false | _ => true

end Lowlang.Yaml.Token
