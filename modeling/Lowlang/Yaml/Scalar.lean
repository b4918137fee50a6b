import Lowlang.Text.Chars
import Lowlang.Double
import Lowlang.Text.Quoted

set_option autoImplicit false

/-!
# Plain scalars

What an unquoted word of a document stands for.  A word is null, a truth value or a number
when it is spelled as one, and text otherwise.
-/

namespace Lowlang.Yaml

/-- The value of a scalar. -/
inductive Scalar where
  | null
  | bool (b : Bool)
  /-- An integer that fits 64 bits, signed when negative. -/
  | int (i : Int)
  | double (d : Double)
  | text (s : String)
  /-- Indented lines below a header: how they stand in the document, and the text they hold. -/
  | block (written content : String)
  deriving DecidableEq, Repr, Inhabited

namespace Scalar

/-! ## Numbers -/

/-- The value of one digit in a base up to sixteen. -/
def digitValue (base : Nat) (c : Char) : Option Nat :=
  match Text.hexValue c with
  | some v => if v < base then some v else none
  | none => none

/-- The value of a row of digits, most significant first. -/
def digitsValue (base : Nat) (ds : List Char) : Option Nat :=
  if ds.isEmpty then none
  else ds.foldlM (fun n c => (digitValue base c).map (n * base + ·)) 0

/-- A row of digits as an integer, when it fits: 64 bits unsigned, or 64 bits signed below
zero. -/
def integer (negative : Bool) (base : Nat) (ds : List Char) : Option Scalar :=
  match digitsValue base ds with
  | none => none
  | some n =>
    if negative then
      if n ≤ 2 ^ 63 then some (.int (-n)) else none
    else if n < 2 ^ 64 then some (.int n) else none

/-- `s` without a leading `c`. -/
def withoutLead (c : Char) (s : List Char) : List Char :=
  (Text.stripLead [c] s).getD s

/-- A finite number in positional or scientific notation. -/
def decimal (negative : Bool) (s : List Char) : Option Scalar :=
  match Double.read (if negative then '-' :: s else s) with
  | some d => if d.isFinite then some (.double d) else none
  | none => none

/-- The number a word spells.  Underscores divide digits; a base is marked `0x`, `0o`,
`0b` or, for octal, by a leading zero; a number is fractional only if it has a point. -/
def number (word : List Char) : Option Scalar :=
  if word.isEmpty || word.head? == some '_' then none
  else
    let points := word.count '.'
    let negative := word.head? == some '-'
    let body := (withoutLead '-' (withoutLead '+' word)).filter (· ≠ '_')
    if 1 < points then none
    else
      match body with
      | '0' :: 'x' :: ds => integer negative 16 ds
      | '0' :: 'o' :: ds => integer negative 8 ds
      | '0' :: 'b' :: ds => integer negative 2 ds
      | '0' :: d :: ds =>
        if points = 0 then integer negative 8 ('0' :: d :: ds) else decimal negative body
      | _ => if points = 1 then decimal negative body else integer negative 10 body

/-! ## Words -/

/-- The spellings of null. -/
def nullWords : List String := ["null", "Null", "NULL", "~"]

/-- The spellings of truth. -/
def trueWords : List String := ["true", "True", "TRUE"]

/-- The spellings of falsehood. -/
def falseWords : List String := ["false", "False", "FALSE"]

/-- The spellings of positive infinity. -/
def infinityWords : List String := [".inf", ".Inf", ".INF"]

/-- The spellings of negative infinity. -/
def negativeInfinityWords : List String := ["-.inf", "-.Inf", "-.INF"]

/-- The spellings of the undefined number. -/
def undefinedWords : List String := [".nan", ".NaN", ".NAN"]

/-- What an unquoted word stands for. -/
def ofPlain (word : String) : Scalar :=
  if nullWords.contains word then .null
  else if trueWords.contains word then .bool true
  else if falseWords.contains word then .bool false
  else if infinityWords.contains word then .double (.infinite false)
  else if negativeInfinityWords.contains word then .double (.infinite true)
  else if undefinedWords.contains word then .double .undefined
  else (number word.toList).getD (.text word)

/-- The value printed. -/
def shown : Scalar → String
  | .null => "<nil>"
  | .bool b => if b then "true" else "false"
  | .int i => Text.intText i
  | .double d => d.text Double.general
  | .text s => s
  | .block written _ => written

/-- Whether the value is text. -/
def isText : Scalar → Bool
  | .text _ => true
  | .block _ _ => true
  | _ => false

end Scalar

end Lowlang.Yaml
