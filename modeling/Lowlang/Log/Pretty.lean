import Lowlang.Log.Datum
import Lowlang.Text.Screen

set_option autoImplicit false

/-!
# Records for people

Either one line of keys and values without quotes, or an object over several lines.
Attributes carry the groups they were added under in front of their keys.
-/

namespace Lowlang.Log

/-- The forms of records for people. -/
inductive Pretty where
  /-- Keys and values. -/
  | pairs
  /-- An indented object. -/
  | object
  deriving DecidableEq, Repr, Inhabited

/-- An attribute with the groups it was added under. -/
structure Bound where
  groups : List String
  attr : Attr
  deriving Repr, Inhabited

namespace Pretty

/-- An instant to the second. -/
def secondLayout : String := "2006-01-02T15:04:05Z07:00"

/-- A text as the form shows it. -/
def quoted (form : Pretty) (s : String) : String :=
  match form with
  | .pairs => Text.screened s
  | .object => Text.literal s

/-- A value that is no group. -/
def value (form : Pretty) : Datum → String
  | .text s => quoted form s
  | .int i => Text.intText i
  | .uint n => Nat.repr n
  | .double d => d.text Double.general
  | .bool b => if b then "true" else "false"
  | .span n => quoted form (Time.spanText n)
  | .instant n => quoted form (Time.formatTime secondLayout n)
  | .severity n => quoted form (Level.shown ⟨n⟩)
  | .failure s => quoted form s
  | .texts ss => quoted form (Datum.bracketed ss)
  | .null => "null"
  | .unworded => quoted form ""
  | .group _ => ""

/-- A key with the groups around it. -/
def path (groups : List String) (key : String) : String :=
  ".".intercalate (groups ++ [key])

mutual

/-- The pairs of an attribute. -/
def pairsOf (layout : String) (groups : List String) (key : String) : Datum → List String
  | .group as => pairsOfAll layout (if key = "" then groups else groups ++ [key]) as
  | d =>
    match replaced layout key d with
    | none => []
    | some d =>
      if saysNothing key d then []
      else [Text.screened (path groups key) ++ "=" ++ value .pairs d]
termination_by structural d => d

/-- The pairs of attributes in order. -/
def pairsOfAll (layout : String) (groups : List String) : List (String × Datum) → List String
  | [] => []
  | (k, d) :: rest => pairsOf layout groups k d ++ pairsOfAll layout groups rest
termination_by structural as => as

end

/-- Indentation. -/
def indent (depth : Nat) : String :=
  String.ofList (List.replicate (2 * depth) ' ')

mutual

/-- A member of an object as it is written under a name, if at all; `key` is its own key. -/
def member (layout : String) (depth : Nat) (name key : String) : Datum → Option String
  | .group as =>
    some ("\n" ++ indent depth ++ Text.literal name ++ ": \x7b"
      ++ ",".intercalate (members layout (depth + 1) as) ++ "\n" ++ indent depth ++ "\x7d")
  | d =>
    match replaced layout key d with
    | none => none
    | some d =>
      if saysNothing key d then none
      else some ("\n" ++ indent depth ++ Text.literal name ++ ": " ++ value .object d)
termination_by structural d => d

/-- The members of an object in order. -/
def members (layout : String) (depth : Nat) : List (String × Datum) → List String
  | [] => []
  | (k, d) :: rest => (member layout depth k k d).toList ++ members layout depth rest
termination_by structural as => as

end

/-- A record. -/
def record (form : Pretty) (layout : String) (bs : List Bound) : String :=
  match form with
  | .pairs =>
    " ".intercalate (bs.flatMap fun b => pairsOf layout b.groups b.attr.1 b.attr.2) ++ "\n"
  | .object =>
    let shown := bs.filterMap fun b =>
      member layout 1 (path b.groups b.attr.1) b.attr.1 b.attr.2
    "\x7b" ++ ",".intercalate shown ++ "\n\x7d\n"

end Pretty

end Lowlang.Log
