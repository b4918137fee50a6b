import Lowlang.Yaml.Node

set_option autoImplicit false

/-!
# From pieces to trees

The structure of a document follows from the columns of its pieces: the entries of a
mapping or sequence start in one column, and a value stands deeper than its key.  A text
either has a tree or is refused; why it was refused is not told.
-/

namespace Lowlang.Yaml.Node

/-! ## Scalars and keys -/

/-- The value that a tag of a scalar stands for when nothing follows it. -/
def defaultOf (tag : Token) : Option Node :=
  let make (written : String) (v : Scalar) : Option Node := some (.scalar tag.place written v)
  match tag.text with
  | "!!str" => make "" (.text "")
  | "!!binary" => make "" (.text "")
  | "!!timestamp" => make "" (.text "")
  | "!!int" => make "0" (.int 0)
  | "!!float" => make "0" (.double (.finite false 0 0))
  | "!!bool" => make "false" (.bool false)
  | "!!null" => make "null" .null
  | _ => none

/-- What surrounds a node. -/
structure Mode where
  /-- Whether brackets are open. -/
  flow : Bool := false
  /-- Whether the handle of the known tags was given another meaning: every tag then marks as
  text what follows it. -/
  spelled : Bool := false
  deriving DecidableEq, Repr, Inhabited

/-- What a token is where every tag marks text. -/
def asText (t : Token) : Node :=
  .scalar t.place t.text (.text t.text)

/-- A value behind its tag. -/
def behindTag (m : Mode) (tag : Token) (value : Node) : Node :=
  .tagged tag.place (if m.spelled then "!!str" else tag.text) value

/-- A tag by itself before a mark; at the end of a key there is none. -/
def bareTag (m : Mode) (tag : Token) (mark : Option Token) : Option Node :=
  let value := match mark with
    | some mark => if m.spelled then some (asText mark) else defaultOf tag
    | none => if m.spelled then none else some (missing (tag.after 1))
  value.map (behindTag m tag)

/-- Whether a token can name an anchor. -/
def names (m : Mode) (t : Token) : Bool :=
  match t.kind with
  | .scalar _ _ => true
  | .mergeKey => true
  | .tag => !m.spelled
  | _ => false

/-- The spelling of a key as it is shown behind a question mark. -/
def shownKey : Piece → String
  | .token t =>
    match t.kind with
    | .scalar .single _ =>
      "'" ++ String.ofList (t.text.toList.flatMap fun c => if c = '\'' then ['\'', '\''] else [c])
        ++ "'"
    | .scalar .double _ => Text.literal t.text
    | .scalar _ (.block written _) => written
    | .scalar _ .null => "null"
    | .tag => t.text ++ " "
    | _ => t.text
  | .alias _ name => "*" ++ name.text
  | .tagged tag v => tag.text ++ " " ++ shownKey v
  | .anchored _ name v => "&" ++ name.text ++ " " ++ shownKey v
  | p => p.head.text

/-- Whether a key and its colon stand on one line, as far as the rules ask: outside brackets
plain and quoted text must, and inside them plain text of one line. -/
def keyOnLine (flow : Bool) (key colon : Token) : Bool :=
  match key.kind with
  | .scalar .plain v =>
    !v.isText || (if flow then colon.line ≤ key.line || key.spans else !key.breaks)
  | .scalar .block _ => true
  | .scalar _ _ => flow || !key.breaks
  | _ => true

/-- The token that stands for the colon of a key: without one, the key's own. -/
def colonOf : Piece → Token
  | .key _ colon => colon
  | .asked _ k => k.head
  | p => p.head

/-- Whether a mapping can go on with the piece. -/
def continuesMap (p : Piece) : Bool :=
  p.isKey || p.isMark .mappingStart || p.isMark .mappingEnd

/-- Whether the piece separates entries within curly brackets. -/
def dividesMap (p : Piece) : Bool :=
  p.isMark .mappingEnd || p.isMark .comma

/-- An anchored tag must stand deeper than the parent, unless it is on the anchor's line. -/
def tagDeepEnough (column : Nat) : Node → Bool
  | .anchored a _ (.tagged t _ _) => a.line = t.line || column < t.column
  | _ => true

/-- Whether a node is an anchored one. -/
def isAnchored : Node → Bool
  | .anchored _ _ _ => true
  | _ => false

/-- Whether a node can stand where a scalar is due; what tags and anchors are about is not
asked. -/
def isScalarLike : Node → Bool
  | .mapping _ _ => false
  | .sequence _ _ => false
  | .asked _ _ _ => false
  | .directive _ => false
  | _ => true

/-- The column of the next piece; zero at the end. -/
def nextColumn : List Piece → Nat
  | [] => 0
  | p :: _ => p.column

/-- What a parent finds in the place of a value. -/
inductive Slot where
  /-- No value; nothing is used up. -/
  | empty (place : Place)
  /-- An anchor without a value, which is used up. -/
  | named (n : Node)
  /-- A value. -/
  | filled
  /-- Nothing that may stand here. -/
  | misplaced

/-- An anchor without a value, if the name is one. -/
def slotOfName (m : Mode) (mark name : Token) : Slot :=
  if names m name then .named (.anchored mark.place name.text (missing (mark.after 1)))
  else .misplaced

/-- Decides what stands behind a parent's mark, where `sibling` tells the pieces that start
the parent's next entry in its own column. -/
def slot (m : Mode) (sibling : Piece → Bool) (mark : Token) (line column : Nat) :
    List Piece → Slot
  | [] => .empty (mark.after 2)
  | p :: rest =>
    let next := nextColumn rest
    if p.column = column && sibling p then .empty (mark.after 1)
    else
      match p with
      | .anchorName a name =>
        if p.line = line && next = column && rest.head?.any sibling then slotOfName m a name
        else if p.column ≤ column then .misplaced
        else if p.line = line && next < column then slotOfName m a name
        else .filled
      | p =>
        if p.column ≤ column && p.startsWith .tag then .misplaced
        else if p.column < column then .empty (mark.after 1)
        else .filled

/-- Whether an entry of a mapping may not stand behind a finished one: it is indented
deeper. -/
def strays (flow : Bool) (column : Nat) (rest : List Piece) : Bool :=
  match rest with
  | [] => false
  | p :: _ => column < p.column && !(flow && (p.isMark .comma || p.isMark .sequenceEnd))

/-! ## Trees -/

/-- A node with the pieces behind it. -/
abbrev Found := Option (Node × List Piece)

/-- The entries of a mapping, each with the place it starts at, and the pieces behind. -/
abbrev Entries := Option (List (Place × Node × Node) × List Piece)

mutual

/-- Reads one node.  `fuel` bounds the depth of the work. -/
def read : Nat → Mode → List Piece → Found
  | 0, _, _ => none
  | _ + 1, _, [] => none
  | fuel + 1, m, p :: rest =>
    match p with
    | .asked _ _ => readMapping fuel m (p :: rest)
    | .key _ _ => readMapping fuel m (p :: rest)
    | .pair _ _ => readMapping fuel m (p :: rest)
    | .directive t _ _ => some (.directive t.place, rest)
    | .anchored mark name v =>
      (readAnchored fuel m mark name [v]).map fun r => (r.1, rest)
    | .anchorName mark name => readAnchored fuel m mark name rest
    | .alias mark name =>
      if names m name then some (.alias mark.place name.text, rest) else none
    | .tagged tag v =>
      (readTagged fuel m tag [v]).map fun r => (behindTag m tag r.1, rest)
    | .token t =>
      match t.kind with
      | .tag =>
        (readTagged fuel m t rest).map fun r => (behindTag m t r.1, r.2)
      | .mappingStart =>
        (readFlowMapping fuel { m with flow := true } true [] rest).map fun r =>
          (.mapping t.place r.1, r.2)
      | .sequenceStart =>
        (readFlowSequence fuel { m with flow := true } true rest).map fun r =>
          (.sequence t.place r.1, r.2)
      | .entry =>
        (readSequence fuel m t.column (p :: rest)).map fun r => (.sequence t.place r.1, r.2)
      | .mergeKey => some (.mergeKey t.place, rest)
      | .scalar _ v => some (.scalar t.place t.text v, rest)
      | _ => none

/-- Reads the value of an anchor, which is not anchored itself. -/
def readAnchored : Nat → Mode → Token → Token → List Piece → Found
  | 0, _, _, _, _ => none
  | fuel + 1, m, mark, name, ps =>
    if !names m name then none
    else
      match read fuel m ps with
      | some (n, rest) =>
        if n.isAnchored then none else some (.anchored mark.place name.text n, rest)
      | none => none

/-- Reads what a tag is about. -/
def readTagged : Nat → Mode → Token → List Piece → Found
  | 0, _, _, _ => none
  | _ + 1, m, tag, [] => if m.spelled then none else some (missing (tag.after 1), [])
  | fuel + 1, m, tag, p :: rest =>
    if m.spelled then some (asText p.head, p :: rest)
    else if tag.text = "!!map" || tag.text = "!!set" then
      if p.isKey || p.isMark .mappingStart then read fuel m (p :: rest) else none
    else if tag.text = "!!seq" || tag.text = "!!omap" then
      if p.isMark .sequenceStart then read fuel m (p :: rest)
      else
        (readSequence fuel m p.column (p :: rest)).map fun r =>
          (.sequence p.head.place r.1, r.2)
    else if Token.scalarTags.contains tag.text then readTaggedScalar fuel m tag p rest
    else read fuel m (p :: rest)

/-- Reads the scalar that a tag is about.  A block scalar and a comma stay where they are; an
anchor and a tag use up one piece more behind their values. -/
def readTaggedScalar : Nat → Mode → Token → Piece → List Piece → Found
  | 0, _, _, _, _ => none
  | fuel + 1, m, tag, p, rest =>
    match p with
    | .token t =>
      match t.kind with
      | .scalar .block v => some (.scalar t.place t.text v, p :: rest)
      | .scalar _ v => some (.scalar t.place t.text v, rest)
      | .mergeKey => some (.mergeKey t.place, rest)
      | .comma => (defaultOf tag).map (·, p :: rest)
      | .tag =>
        match readTagged fuel m t rest with
        | some (n, rest) =>
          if n.isScalarLike then some (behindTag m t n, rest.drop 1) else none
        | none => none
      | _ => none
    | .anchorName mark name =>
      if !names m name then none
      else
        (read fuel m rest).map fun r =>
          (.anchored mark.place name.text r.1, r.2.drop 1)
    | .anchored _ _ _ => read fuel m (p :: rest)
    | .alias _ _ => read fuel m (p :: rest)
    | .tagged _ _ => read fuel m (p :: rest)
    | _ => none

/-- Reads a key. -/
def readKey : Nat → Mode → Piece → Option Node
  | 0, _, _ => none
  | fuel + 1, m, p =>
    match p with
    | .asked mark k =>
      (readScalar fuel m none k).map fun n => .asked mark.place ("? " ++ shownKey k) n
    | .key (.asked mark k) _ =>
      (readScalar fuel m none k).map fun n => .asked mark.place ("? " ++ shownKey k) n
    | .key k colon =>
      if keyOnLine m.flow k.head colon then readScalar fuel m (some colon) k else none
    | _ => none

/-- Reads a scalar with its tag and anchor; `mark` is what stands behind it. -/
def readScalar : Nat → Mode → Option Token → Piece → Option Node
  | 0, _, _, _ => none
  | fuel + 1, m, mark, p =>
    match p with
    | .token t =>
      match t.kind with
      | .scalar _ v => some (.scalar t.place t.text v)
      | .mergeKey => some (.mergeKey t.place)
      | .tag => bareTag m t mark
      | _ => none
    | .alias _ _ => (read fuel m [p]).map Prod.fst
    | .anchored _ _ _ => (read fuel m [p]).map Prod.fst
    | .tagged _ _ => (read fuel m [p]).map Prod.fst
    | _ => none

/-- Reads a mapping without brackets; it starts where its first colon is. -/
def readMapping : Nat → Mode → List Piece → Found
  | 0, _, _ => none
  | fuel + 1, m, ps =>
    match readEntries fuel m (nextColumn ps) [] ps with
    | some ((place, e) :: es, rest) => some (.mapping place (e :: es.map Prod.snd), rest)
    | _ => none

/-- Reads the entries that start in `column`; no two keys have one of the spellings
`seen`. -/
def readEntries : Nat → Mode → Nat → List String → List Piece → Entries
  | 0, _, _, _, _ => none
  | _ + 1, _, _, _, [] => none
  | fuel + 1, m, column, seen, p :: rest =>
    let (k, v) : Piece × Option Piece := match p with
      | .pair k v => (k, some v)
      | p => (p, none)
    let colon := colonOf k
    match readKey fuel m k with
    | none => none
    | some key =>
      if seen.contains key.spelling then none
      else
        let value : Found := match v with
          | some v =>
            if strays m.flow column rest then none
            else (read fuel m [v]).map fun r => (r.1, rest)
          | none =>
            if rest.head?.any fun q => q.startsWith .entry && q.line = p.line then none
            else readValue fuel m colon p.line column rest
        match value with
        | none => none
        | some (n, rest) =>
          readMore fuel m column (key.spelling :: seen) [(colon.place, key, n)] rest

/-- Reads on behind the entries `es`, as long as pieces stand in their column. -/
def readMore : Nat → Mode → Nat → List String → List (Place × Node × Node) → List Piece →
    Entries
  | 0, _, _, _, _, _ => none
  | _ + 1, _, _, _, es, [] => some (es, [])
  | fuel + 1, m, column, seen, es, p :: rest =>
    if p.column ≠ column || (m.flow && p.isMark .sequenceEnd) then some (es, p :: rest)
    else if p.isMark .mappingEnd then some (es, rest)
    else if p.isKey then
      match readEntries fuel m column seen (p :: rest) with
      | some (more, rest) =>
        readMore fuel m column (more.map (·.2.1.spelling) ++ seen) (es ++ more) rest
      | none => none
    else none

/-- Reads the value of a key that ends its line. -/
def readValue : Nat → Mode → Token → Nat → Nat → List Piece → Found
  | 0, _, _, _, _, _ => none
  | fuel + 1, m, colon, line, column, ps =>
    if ps.head?.any fun p => p.column ≠ column && p.line = line && p.isKey then none
    else
      match slot m continuesMap colon line column ps with
      | .empty place => some (missing place, ps)
      | .named n => some (n, ps.drop 1)
      | .misplaced => none
      | .filled => (read fuel m ps).filter fun r => tagDeepEnough column r.1

/-- Reads the entries behind the dashes of `column`. -/
def readSequence : Nat → Mode → Nat → List Piece → Option (List Node × List Piece)
  | 0, _, _, _ => none
  | _ + 1, _, _, [] => some ([], [])
  | fuel + 1, m, column, p :: rest =>
    if p.startsWith .entry && p.column = column then
      let item : Found := match slot m (·.startsWith .entry) p.head p.line column rest with
        | .empty place => some (missing place, rest)
        | .named n => some (n, rest.drop 1)
        | .misplaced => none
        | .filled => (read fuel m rest).filter fun r => tagDeepEnough column r.1
      match item with
      | none => none
      | some (n, rest) =>
        (readSequence fuel m column rest).map fun r => (n :: r.1, r.2)
    else some ([], p :: rest)

/-- Reads the entries of a mapping up to its closing bracket.  A comma may stand before
each of them and before the bracket, and must stand between two. -/
def readFlowMapping : Nat → Mode → Bool → List String → List Piece →
    Option (List (Node × Node) × List Piece)
  | 0, _, _, _, _ => none
  | _ + 1, _, _, _, [] => none
  | fuel + 1, m, first, seen, p :: rest =>
    if p.isMark .mappingEnd then some ([], rest)
    else if !(p.isMark .comma || first) then none
    else
      match (if p.isMark .comma then rest else p :: rest) with
      | [] => none
      | q :: rest =>
        if q.isMark .mappingEnd then some ([], rest)
        else
          match readFlowEntry fuel m seen q rest with
          | none => none
          | some (spelled, e, rest) =>
            (readFlowMapping fuel m false (spelled ++ seen) rest).map fun r => (e :: r.1, r.2)

/-- Reads an entry of a mapping within brackets, and tells the spelling of its key if it has
a colon.  A tag by itself uses up the mark behind it. -/
def readFlowEntry : Nat → Mode → List String → Piece → List Piece →
    Option (List String × (Node × Node) × List Piece)
  | 0, _, _, _, _ => none
  | fuel + 1, m, seen, p, rest =>
    match p with
    | .pair k v =>
      match readKey fuel m k, read fuel m [v] with
      | some key, some (n, _) =>
        if seen.contains key.spelling then none else some ([key.spelling], (key, n), rest)
      | _, _ => none
    | p =>
      if p.isKey then
        match readKey fuel m p with
        | none => none
        | some key =>
          if seen.contains key.spelling then none
          else if rest.head?.any dividesMap then
            some ([key.spelling], (key, missing ((colonOf p).after 1)), rest)
          else
            (read fuel m rest).map fun r => ([key.spelling], (key, r.1), r.2)
      else
        match rest with
        | [] => none
        | q :: behind =>
          let alone := p.isMark .tag
          if !dividesMap q || (alone && !m.spelled && !q.isMark .comma) then none
          else
            (readScalar fuel m (some q.head) p).map fun key =>
              ([], (key, missing (p.head.after 1)), if alone then behind else rest)

/-- Reads the entries of a sequence up to its closing bracket.  A comma stands between
two of them and may stand before the bracket. -/
def readFlowSequence : Nat → Mode → Bool → List Piece → Option (List Node × List Piece)
  | 0, _, _, _ => none
  | _ + 1, _, _, [] => none
  | fuel + 1, m, first, p :: rest =>
    if p.isMark .sequenceEnd then some ([], rest)
    else if p.isMark .comma = first then none
    else
      match (if first then p :: rest else rest) with
      | [] => none
      | q :: rest =>
        if q.isMark .sequenceEnd then some ([], rest)
        else
          match read fuel m (q :: rest) with
          | none => none
          | some (n, rest) =>
            (readFlowSequence fuel m false rest).map fun r => (n :: r.1, r.2)

end

/-! ## Documents -/

/-- What the documents before have settled. -/
structure Settled where
  /-- Whether the version of the language was given. -/
  versioned : Bool := false
  /-- Whether every tag marks text. -/
  spelled : Bool := false
  deriving DecidableEq, Repr, Inhabited

/-- The versions of the language. -/
def versions : List String := ["1.0", "1.1", "1.2", "1.3"]

/-- What a directive settles.  The version of the language must be a known one and is given
once; a tag has a handle and what it stands for.  Other directives, and those without values,
are left alone. -/
def Settled.apply (s : Settled) (name : Piece) (values : List Piece) : Option Settled :=
  match readScalar 24 { spelled := s.spelled } none name with
  | none => none
  | some _ =>
    match plainText? name, values with
    | _, [] => some s
    | some "YAML", [v] =>
      if s.versioned || !versions.contains v.head.text then none
      else some { s with versioned := true }
    | some "YAML", _ => none
    | some "TAG", [handle, _] =>
      some (if handle.head.text = "!!" then { s with spelled := true } else s)
    | some "TAG", _ => none
    | _, _ => some s
where
  /-- The text of a piece that is plain text. -/
  plainText? : Piece → Option String
    | .token t =>
      match t.kind with
      | .scalar .plain (.text s) => some s
      | _ => none
    | _ => none

/-- The body of one document, without the marks at its start and its end; an empty one has
none.  The end of a document takes back the version. -/
def ofPieces (s : Settled) (ps : List Piece) : Option (Option Node × Settled) :=
  let body := if ps.head?.any (·.isMark .documentStart) then ps.drop 1 else ps
  let ended := ps.getLast?.any (·.isMark .documentEnd)
  let body := if ended then body.dropLast else body
  let s := if ended then { s with versioned := false } else s
  if body.isEmpty then some (none, s)
  else
    match read (12 * body.length + 24) { spelled := s.spelled } body, body.getLast? with
    | some (n, []), some (.directive _ name values) => (s.apply name values).map (some n, ·)
    | some (n, []), _ => some (some n, s)
    | _, _ => none

/-- The bodies of documents in order. -/
def ofDocuments (s : Settled) : List (List Piece) → Option (List Node)
  | [] => some []
  | d :: ds => do
    let (body, s) ← ofPieces s d
    let bodies ← ofDocuments s ds
    return body.toList ++ bodies

/-- The bodies of the documents in a text. -/
def documents (src : String) : Option (List Node) := do
  let ts ← Token.scan src
  ofDocuments {} (← Piece.documents ts)

end Lowlang.Yaml.Node
