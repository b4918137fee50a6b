import Lowlang.Text.Base64
import Lowlang.Yaml.Moment
import Lowlang.Yaml.Node.Tree

set_option autoImplicit false

/-!
# Configuration values

What a configuration document holds, with tags applied and aliases followed.  An alias stands
for the value of the anchor before it; inside its own anchor it stands for nothing.  A merge
key puts the entries of other mappings in its place, read anew there.
-/

namespace Lowlang.Config

/-- A value of a configuration document. -/
inductive Value where
  | null
  | bool (b : Bool)
  | int (i : Int)
  | double (d : Double)
  | text (s : String)
  | bytes (bs : List UInt8)
  | moment (m : Yaml.Moment)
  | list (items : List Value)
  | mapping (entries : List (String × Value))
  deriving Repr, Inhabited

namespace Value

/-! ## Text -/

/-- Puts an entry into entries ordered by key, in place of one with the same key. -/
def insertEntry (entries : List (String × String)) (e : String × String) :
    List (String × String) :=
  match entries with
  | [] => [e]
  | f :: rest =>
    if e.1 = f.1 then e :: rest
    else if e.1 < f.1 then e :: f :: rest
    else f :: insertEntry rest e

mutual

/-- A value printed for people: lists in brackets, mappings by key. -/
def shown : Value → String
  | .null => "<nil>"
  | .bool b => if b then "true" else "false"
  | .int i => Text.intText i
  | .double d => d.text Double.general
  | .text s => s
  | .bytes bs => "[" ++ " ".intercalate (bs.map fun b => Text.intText b.toNat) ++ "]"
  | .moment m => m.shown
  | .list items => "[" ++ " ".intercalate (shownItems items) ++ "]"
  | .mapping entries =>
    let sorted := (shownEntries entries).foldl insertEntry []
    "map[" ++ " ".intercalate (sorted.map fun e => e.1 ++ ":" ++ e.2) ++ "]"
termination_by structural v => v

/-- The items of a list, printed. -/
def shownItems : List Value → List String
  | [] => []
  | v :: vs => shown v :: shownItems vs
termination_by structural vs => vs

/-- The entries of a mapping, printed. -/
def shownEntries : List (String × Value) → List (String × String)
  | [] => []
  | (k, v) :: es => (k, shown v) :: shownEntries es
termination_by structural es => es

end

/-! ## From documents -/

/-- The value of a scalar. -/
def ofScalar : Yaml.Scalar → Value
  | .null => .null
  | .bool b => .bool b
  | .int i => .int i
  | .double d => .double d
  | .text s => .text s
  | .block _ content => .text content

/-- The integer a text spells in full, within 64 bits; zero when it spells none. -/
def integerOf (s : String) : Int :=
  let body := match s.toList with
    | '-' :: ds => some (true, ds)
    | '+' :: ds => some (false, ds)
    | ds => some (false, ds)
  match body with
  | some (negative, ds) =>
    if ds.isEmpty || !ds.all Char.isDigit then 0
    else
      let n : Int := Double.natOfDigits ds
      let i := if negative then -n else n
      max (-(2 ^ 63 : Int)) (min i (2 ^ 63 - 1))
  | none => 0

/-- The truth value a text spells. -/
def truthOf (s : String) : Option Bool :=
  if ["1", "t", "true", "yes"].contains s then some true
  else if ["0", "f", "false", "no"].contains s then some false
  else none

/-- The number nearest to a value; zero for what is neither a number nor text that spells
one. -/
def numberOf : Value → Double
  | .double d => d
  | .int i => (Double.read (Text.intText i).toList).getD (.finite false 0 0)
  | .text s => (Double.read s.toList).getD (.finite false 0 0)
  | _ => .finite false 0 0

/-- The moment of a value; the first one for what is none. -/
def momentOf : Value → Yaml.Moment
  | .moment m => m
  | .text s => .ofText s
  | _ => .first

/-- What a tag makes of a value; none when it cannot be made. -/
def tagged (tag : String) (v : Value) : Option Value :=
  match tag with
  | "!!str" =>
    match v with
    | .null => some (.text "")
    | v => some (.text v.shown)
  | "!!int" => some (.int (integerOf v.shown))
  | "!!float" => some (.double (numberOf v))
  | "!!bool" => (truthOf (Text.lower v.shown)).map .bool
  | "!!binary" =>
    match v with
    | .text s => some (.bytes (Text.Base64.decode s))
    | _ => none
  | "!!timestamp" => some (.moment (momentOf v))
  | _ => some v

/-- Puts a value under a key, in place of one that is there. -/
def put (key : String) (v : Value) : List (String × Value) → List (String × Value)
  | [] => [(key, v)]
  | e :: es => if e.1 = key then (key, v) :: es else e :: put key v es

/-- The anchors met so far, latest first. -/
structure Anchors where
  /-- Their nodes; one that is being read has none yet. -/
  nodes : List (String × Option Yaml.Node) := []
  /-- Their values, as far as they were read. -/
  values : List (String × Value) := []
  deriving Repr, Inhabited

namespace Anchors

/-- Adds the node of an anchor. -/
def withNode (a : Anchors) (name : String) (n : Option Yaml.Node) : Anchors :=
  { a with nodes := (name, n) :: a.nodes }

/-- Adds the value of an anchor. -/
def withValue (a : Anchors) (name : String) (v : Value) : Anchors :=
  { a with values := (name, v) :: a.values }

/-- The node of an anchor that was read. -/
def node? (a : Anchors) (name : String) : Option Yaml.Node :=
  (a.nodes.lookup name).join

end Anchors

/-- Reading that follows aliases and may be refused. -/
abbrev Reading (α : Type) := StateT Anchors Option α

/-- Whether a key is the one that merges mappings. -/
def isMergeKey : Yaml.Node → Bool
  | .mergeKey _ => true
  | .asked _ _ v => isMergeKey v
  | .tagged _ _ v => isMergeKey v
  | .anchored _ _ v => isMergeKey v
  | _ => false

/-- The entries of a node where a mapping is due, through anchors and aliases; `merging` allows
a sequence of mappings.  `fuel` bounds the way. -/
def entriesOf : Nat → Bool → Yaml.Node → Reading (List (Yaml.Node × Yaml.Node))
  | 0, _, _ => failure
  | fuel + 1, merging, n => do
    match n with
    | .mapping _ entries => return entries
    | .anchored _ name v =>
      modify (·.withNode name v)
      entriesOf fuel merging v
    | .alias _ name =>
      match (← get).node? name with
      | some v => entriesOf fuel merging v
      | none => failure
    | .sequence _ items =>
      if merging then return (← items.mapM (entriesOf fuel false)).flatten else failure
    | _ => failure

mutual

/-- The value of a node inside the anchors `within`.  `fuel` bounds the depth, that of the nodes
behind aliases included. -/
def ofNode : Nat → List String → Yaml.Node → Reading Value
  | 0, _, _ => failure
  | fuel + 1, within, n => do
    match n with
    | .scalar _ _ v => return ofScalar v
    | .mergeKey _ => return .null
    | .directive _ => return .null
    | .asked _ _ v => ofNode fuel within v
    | .sequence _ items => return .list (← items.mapM (ofNode fuel within))
    | .mapping _ entries => return .mapping (← entries.foldlM (putEntry fuel within) [])
    | .alias _ name =>
      let anchors ← get
      if within.contains name then return .null
      else
        match anchors.values.lookup name with
        | some v => return v
        | none =>
          match anchors.node? name with
          | some n => ofNode fuel within n
          | none => failure
    | .anchored _ name v =>
      modify (·.withNode name none)
      let value ← ofNode fuel (name :: within) v
      modify fun a => (a.withNode name v).withValue name value
      return value
    | .tagged _ tag v =>
      if tag = "!!null" then return .null
      else if tag = "!!timestamp" then
        -- a moment that cannot be read is the first one
        fun a => some (((ofNode fuel within v).run a).map
          (fun r => (.moment (momentOf r.1), r.2)) |>.getD (.moment .first, a))
      else
        match tagged tag (← ofNode fuel within v) with
        | some v => return v
        | none => failure

/-- Puts the value of an entry under its key, and those of a merged mapping under theirs. -/
def putEntry : Nat → List String → List (String × Value) → Yaml.Node × Yaml.Node →
    Reading (List (String × Value))
  | 0, _, _, _ => failure
  | fuel + 1, within, found, (k, n) => do
    if isMergeKey k then
      (← entriesOf fuel true n).foldlM (putEntry fuel within) found
    else
      let key ← match ← ofNode fuel within k with
        | .null => pure "null"
        | v => pure v.shown
      return put key (← ofNode fuel within n) found

end

/-! ## The mapping of a document -/

/-- A key of the outermost mapping.  Lists, mappings and moments are none. -/
def keyOf (fuel : Nat) (within : List String) (n : Yaml.Node) : Reading String := do
  match ← ofNode fuel within n with
  | .null => return ""
  | .bytes bs => return (String.fromUTF8? ⟨bs.toArray⟩).getD (Value.bytes bs).shown
  | .list _ => failure
  | .mapping _ => failure
  | .moment _ => failure
  | v => return v.shown

/-- The key of an entry of the outermost mapping.  An alias stands for the text of its anchor,
and else for its node. -/
def entryKey (fuel : Nat) (within : List String) (n : Yaml.Node) : Reading String := do
  let anchors ← get
  match n with
  | .alias _ name =>
    match anchors.values.lookup name with
    | some (.text s) => return s
    | _ => direct ((anchors.node? name).getD n)
  | n => direct n
where
  /-- The key without an alias around it. -/
  direct : Yaml.Node → Reading String
    | .scalar _ _ .null => return ""
    | .anchored _ name v => do
      let key ← keyOf fuel (name :: within) v
      modify (·.withValue name (.text key))
      return key
    | n => keyOf fuel within n

/-- The value of a node, with those of the anchors around it noted. -/
def anchoredValue (fuel : Nat) (within : List String) : Yaml.Node → Reading Value
  | .anchored _ name v => do
    let value ← anchoredValue fuel (name :: within) v
    modify (·.withValue name value)
    return value
  | n => ofNode fuel within n

/-- The value of an entry of the outermost mapping.  An alias stands for the value of its
anchor, and else for its node. -/
def entryValue (fuel : Nat) (within : List String) (n : Yaml.Node) : Reading Value := do
  let anchors ← get
  match n with
  | .alias _ name =>
    match anchors.values.lookup name with
    | some v => return v
    | none => anchoredValue fuel within ((anchors.node? name).getD n)
  | n => anchoredValue fuel within n

/-- The entries of the outermost mapping, or of one merged into it.  No two keys of a mapping
are the same; one of them may be the same as a merged one. -/
def mappingOf : Nat → List String → Bool → Yaml.Node → Reading (List (String × Value))
  | 0, _, _, _ => failure
  | fuel + 1, within, merging, n => do
    let step (s : List String × List (String × Value)) (e : Yaml.Node × Yaml.Node) :
        Reading (List String × List (String × Value)) := do
      if isMergeKey e.1 then
        let merged ← mappingOf fuel within true e.2
        return (s.1, merged.foldl (fun found m => put m.1 m.2 found) s.2)
      else
        let key ← entryKey fuel within e.1
        if s.1.contains key then failure
        return (key :: s.1, put key (← entryValue fuel within e.2) s.2)
    return (← (← entriesOf fuel merging n).foldlM step ([], [])).2

/-- The entries of a document, which must be a mapping but for anchors. -/
def documentEntries (fuel : Nat) (within : List String) :
    Yaml.Node → Reading (List (String × Value))
  | .anchored _ name v => documentEntries fuel (name :: within) v
  | n => mappingOf fuel within false n

/-- The documents that have a value, or are null. -/
def keptDocuments (fuel : Nat) : List Yaml.Node → Reading (List Yaml.Node)
  | [] => return []
  | n :: ns => do
    let v ← ofNode fuel [] n
    let kept ← keptDocuments fuel ns
    match v, n with
    | .null, .scalar _ _ .null => return n :: kept
    | .null, _ => return kept
    | _, _ => return n :: kept

/-- The entries of a text of documents.  The first that is kept counts, but all of them must
have a value; without any there are no entries. -/
def document (src : String) : Option (List (String × Value)) := do
  let docs ← Yaml.Node.documents src
  let fuel := 4 * docs.foldl (fun n d => n + d.size) 0 + 16
  let (kept, anchors) ← (keptDocuments fuel docs).run {}
  match kept with
  | [] => return []
  | n :: _ =>
    let (entries, _) ← (documentEntries fuel [] n).run { anchors with values := [] }
    return entries

end Value

end Lowlang.Config
