import Lowlang.Yaml.Scalar

set_option autoImplicit false

/-!
# Tokens

The smallest parts of a document.  A token remembers the place where it starts and whether it
reaches beyond its line, which is what the rules about indentation and about keys ask for.
-/

namespace Lowlang.Yaml

/-- How a scalar was written. -/
inductive Style where
  /-- Without quotes. -/
  | plain
  /-- Between single quotes. -/
  | single
  /-- Between double quotes. -/
  | double
  /-- Indented lines below a header. -/
  | block
  deriving DecidableEq, Repr, Inhabited

/-- What a token is. -/
inductive Kind where
  | documentStart
  | documentEnd
  | directive
  /-- The dash before an entry of a sequence. -/
  | entry
  /-- The question mark before a key. -/
  | explicitKey
  /-- The colon after a key. -/
  | colon
  /-- The comma between entries within brackets. -/
  | comma
  | mappingStart
  | mappingEnd
  | sequenceStart
  | sequenceEnd
  | anchor
  | alias
  | tag
  /-- The key that merges other mappings. -/
  | mergeKey
  | comment
  | scalar (style : Style) (value : Scalar)
  deriving DecidableEq, Repr, Inhabited

namespace Kind

/-- Whether the token is a scalar. -/
def isScalar : Kind → Bool
  | .scalar _ _ => true
  | _ => false

end Kind

/-- A token with its place. -/
structure Token where
  kind : Kind
  /-- The token as written, unquoted if it was quoted; of a block scalar, its header. -/
  text : String
  line : Nat
  column : Nat
  /-- Whether a line break stands inside it. -/
  spans : Bool := false
  /-- Whether a line break stands inside it, or between it and what ended it: plain text goes
  on to the next line until a mark or a comment ends it. -/
  breaks : Bool := false
  deriving DecidableEq, Repr, Inhabited

namespace Token

/-- The tags with a meaning of their own. -/
def knownTags : List String :=
  ["!!int", "!!float", "!!null", "!!seq", "!!map", "!!str", "!!binary", "!!omap", "!!set",
    "!!timestamp", "!!bool", "!!merge"]

/-- The known tags that stand before scalars. -/
def scalarTags : List String :=
  ["!!int", "!!float", "!!str", "!!binary", "!!timestamp", "!!bool", "!!null"]

end Token

end Lowlang.Yaml
