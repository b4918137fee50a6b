import Lowlang.Yaml.Token.Scan

set_option autoImplicit false

/-!
# Pieces

Tokens that belong together whatever surrounds them are joined before the tree is built: an
anchor with its name, a tag with the scalar on its line, a key with its colon, a key with
the scalar on its line.  Each rule is one walk over the pieces.
-/

namespace Lowlang.Yaml

/-- One or more tokens that act as one. -/
inductive Piece where
  /-- A token by itself. -/
  | token (t : Token)
  /-- An anchor whose value comes later. -/
  | anchorName (mark name : Token)
  /-- An anchor with its value on the same line. -/
  | anchored (mark name : Token) (value : Piece)
  | alias (mark name : Token)
  /-- A tag with the value on its line. -/
  | tagged (tag : Token) (value : Piece)
  /-- A key behind a question mark. -/
  | asked (mark : Token) (key : Piece)
  /-- A key with its colon. -/
  | key (key : Piece) (colon : Token)
  /-- A key with the scalar on its line; the colon is missing behind a question mark. -/
  | pair (key : Piece) (value : Piece)
  /-- A directive with its name and all that is on its line. -/
  | directive (mark : Token) (name : Piece) (values : List Piece)
  deriving Repr, Inhabited

namespace Piece

/-! ## Views -/

/-- The first token. -/
def head : Piece → Token
  | .token t => t
  | .anchorName t _ => t
  | .anchored t _ _ => t
  | .alias t _ => t
  | .tagged t _ => t
  | .asked t _ => t
  | .key k _ => k.head
  | .pair k _ => k.head
  | .directive t _ _ => t

/-- The line of the first token. -/
def line (p : Piece) : Nat := p.head.line

/-- The column of the first token. -/
def column (p : Piece) : Nat := p.head.column

/-- Whether the piece starts an entry of a mapping. -/
def isKey : Piece → Bool
  | .asked _ _ => true
  | .key _ _ => true
  | .pair _ _ => true
  | _ => false

/-- Whether the piece is a token of this kind. -/
def isMark (p : Piece) (kind : Kind) : Bool :=
  match p with
  | .token t => t.kind = kind
  | _ => false

/-- Whether the piece starts with a token of this kind. -/
def startsWith (p : Piece) (kind : Kind) : Bool :=
  p.head.kind = kind

/-- Whether the piece reads as a scalar; anchors and aliases do. -/
def isScalar : Piece → Bool
  | .token t => t.kind.isScalar
  | .anchorName _ _ => true
  | .anchored _ _ _ => true
  | .alias _ _ => true
  | _ => false

/-! ## Grouping -/

/-- Joins anchors and aliases with their names, and anchors with a scalar on their line.  No
entry of a sequence may stand on the line of an anchor. -/
def joinAnchors : List Token → Option (List Piece)
  | [] => some []
  | t :: rest =>
    match t.kind, rest with
    | .anchor, [] => none
    | .anchor, [_] => none
    | .anchor, name :: value :: rest =>
      if t.line = value.line && value.kind = .entry then none
      else if t.line = value.line && isTaken value.kind then
        (joinAnchors rest).map (.anchored t name (.token value) :: ·)
      else (joinAnchors (value :: rest)).map (.anchorName t name :: ·)
    | .alias, [] => none
    | .alias, name :: rest => (joinAnchors rest).map (.alias t name :: ·)
    | _, rest => (joinAnchors rest).map (.token t :: ·)
termination_by structural ts => ts
where
  /-- What an anchor takes as its value at once. -/
  isTaken (k : Kind) : Bool :=
    k.isScalar || k = .anchor || k = .alias

/-- Whether a tag takes the piece behind it as its value at once: on its line, and no anchor
whose value comes later.  The tags of scalars take scalars, and tags without a meaning of
their own take what opens no collection. -/
def takes (tag : Token) (value : Piece) : Bool :=
  tag.line = value.line
    && (match value with | .anchorName _ _ => false | _ => true)
    && (if tag.text = "!!merge" then true
        else if "!!".isPrefixOf tag.text then
          Token.scalarTags.contains tag.text && value.isScalar
        else !(value.isMark .mappingStart || value.isMark .mappingEnd
          || value.isMark .sequenceStart || value.isMark .entry))

/-- Joins tags with the scalars on their lines.  The tag of merge keys takes nothing else. -/
def joinTags : List Piece → Option (List Piece)
  | .token t :: value :: rest =>
    if t.kind = .tag && takes t value then
      if t.text = "!!merge" && !value.isMark .mergeKey then none
      else (joinTags rest).map (.tagged t value :: ·)
    else (joinTags (value :: rest)).map (.token t :: ·)
  | p :: rest => (joinTags rest).map (p :: ·)
  | [] => some []
termination_by structural ps => ps

/-- Joins anchors with the tagged scalars on their lines. -/
def joinAnchoredTags : List Piece → List Piece
  | .anchorName t name :: .tagged tag value :: rest =>
    if t.line = tag.line then .anchored t name (.tagged tag value) :: joinAnchoredTags rest
    else .anchorName t name :: .tagged tag value :: joinAnchoredTags rest
  | p :: rest => p :: joinAnchoredTags rest
  | [] => []

/-- Joins question marks with the keys behind them. -/
def joinAsked : List Piece → Option (List Piece)
  | [] => some []
  | p :: rest =>
    if p.isMark .explicitKey then
      match rest with
      | [] => none
      | k :: rest => (joinAsked rest).map (.asked p.head k :: ·)
    else (joinAsked rest).map (p :: ·)

/-- Whether a piece may stand before a colon. -/
def mayBeKey (p : Piece) : Bool :=
  match p with
  | .key _ _ => false
  | .token t =>
    match t.kind with
    | .directive => false
    | .documentStart => false
    | .documentEnd => false
    | .comma => false
    | .mappingStart => false
    | .mappingEnd => false
    | .sequenceStart => false
    | .sequenceEnd => false
    | .colon => false
    | _ => true
  | _ => true

/-- Joins keys with the colons behind them; a colon without a key, or behind a key with a
colon, is refused. -/
def joinKeys : List Piece → Option (List Piece)
  | [] => some []
  | p :: rest =>
    if p.isMark .colon then none
    else
      match rest with
      | [] => some [p]
      | q :: rest =>
        if q.isMark .colon then
          if mayBeKey p then (joinKeys rest).map (.key p q.head :: ·) else none
        else (joinKeys (q :: rest)).map (p :: ·)
termination_by structural ps => ps

/-- Whether a piece can be the value of a key on its line. -/
def mayBeValue (p : Piece) : Bool :=
  match p with
  | .anchorName _ _ => false
  | .tagged _ _ => true
  | p => p.isScalar

/-- Joins keys with the scalars on their lines. -/
def joinPairs : List Piece → List Piece
  | p :: value :: rest =>
    if p.isKey && p.line = value.line && mayBeValue value then
      .pair p value :: joinPairs rest
    else p :: joinPairs (value :: rest)
  | [p] => [p]
  | [] => []
termination_by structural ps => ps

/-- Joins directives with their lines; a document must start right behind one. -/
def joinDirectives : List Piece → Option (List Piece)
  | [] => some []
  | p :: rest =>
    if p.isMark .directive then
      match rest with
      | [] => none
      | name :: rest =>
        let values := rest.takeWhile fun q => q.line = p.line
        let rest' := rest.dropWhile fun q => q.line = p.line
        if rest'.head?.any (·.isMark .documentStart) then
          (joinDirectives rest').map (.directive p.head name values :: ·)
        else none
    else (joinDirectives rest).map (p :: ·)
termination_by ps => ps.length
decreasing_by
  · have := (List.dropWhile_sublist (fun q : Piece => decide (q.line = p.line))
      (l := rest)).length_le
    simp_all only [List.length_cons]
    omega
  · simp

/-! ## Documents -/

/-- Divides pieces into documents, with the marks at their starts and ends; `seen` holds those
of the document at hand, latest first.  Two starts in a row end the text.  A start right before
an end belongs to the next document. -/
def documentsFrom (seen : List Piece) : List Piece → Option (List (List Piece))
  | [] => some [seen.reverse]
  | p :: rest =>
    if p.isMark .documentStart then
      let before := if seen.isEmpty then [] else [seen.reverse]
      match rest with
      | [] => some (before ++ [[p]])
      | q :: _ =>
        if q.isMark .documentStart then some (before ++ [[p]])
        else if p.line = q.line && (q.isKey || q.isMark .entry) then none
        else
          (documentsFrom [] rest).map fun
            | d :: ds => before ++ (p :: d) :: ds
            | [] => before ++ [[p]]
    else if p.isMark .documentEnd then
      let before := if seen.isEmpty then [] else [(p :: seen).reverse]
      match rest with
      | [] => some before
      | q :: _ => if q.isScalar then none else (documentsFrom [] rest).map (before ++ ·)
    else documentsFrom (p :: seen) rest

/-- The documents of a row of tokens, in pieces. -/
def documents (ts : List Token) : Option (List (List Piece)) := do
  let ps ← joinTags (← joinAnchors ts)
  let ps ← joinAsked (joinAnchoredTags ps)
  let ps ← joinKeys ps
  let ps ← joinDirectives (joinPairs ps)
  documentsFrom [] ps

end Piece

end Lowlang.Yaml
