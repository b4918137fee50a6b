import Lowlang.Double

set_option autoImplicit false

/-!
# Log attributes

An attribute is a key with a value.  Reports of failures and log records carry lists of
them; a group is a value that is itself such a list.
-/

namespace Lowlang

/-- The value of a log attribute. -/
inductive Datum where
  /-- Plain text. -/
  | text (s : String)
  /-- A signed integer. -/
  | int (i : Int)
  /-- An unsigned integer. -/
  | uint (n : Nat)
  /-- A binary floating-point number. -/
  | double (d : Double)
  /-- A truth value. -/
  | bool (b : Bool)
  /-- A span of time in nanoseconds. -/
  | span (nanos : Int)
  /-- An instant in nanoseconds since 1970-01-01 UTC. -/
  | instant (nanos : Int)
  /-- The severity of a record. -/
  | severity (n : Int)
  /-- The wording of a failure that has no attributes of its own. -/
  | failure (s : String)
  /-- A list of texts. -/
  | texts (ss : List String)
  /-- No value. -/
  | null
  /-- A text that another library words; its wording is not kept, and it is shown as empty. -/
  | unworded
  /-- Attributes under a common key. -/
  | group (attrs : List (String × Datum))
  deriving Repr, Inhabited

/-- A log attribute: a key and its value. -/
abbrev Attr := String × Datum

namespace Attr

/-- A text attribute. -/
def text (key value : String) : Attr := (key, .text value)

/-- An integer attribute. -/
def int (key : String) (value : Int) : Attr := (key, .int value)

/-- An attribute holding further attributes. -/
def group (key : String) (attrs : List Attr) : Attr := (key, .group attrs)

end Attr

end Lowlang
