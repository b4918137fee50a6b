import Lowlang.Text.Bytes
import Lowlang.Text.Chars
import Lowlang.Text.Screen
import Lowlang.Ty.Basic

set_option autoImplicit false

/-!
# The call around the cursor

While the arguments of a call are typed, the shell shows the signature of the function.  The
call is the innermost parenthesis still open before the cursor that stands right behind a name.
-/

namespace Lowlang.Shell

/-- A call whose arguments contain the cursor. -/
structure Call where
  name : String
  /-- The number of the argument the cursor is in. -/
  arg : Nat
  deriving DecidableEq, Repr, Inhabited

namespace Call

/-- Characters of the names of functions. -/
def isNameChar (c : Char) : Bool :=
  c = '.' || c = '_' || Text.isLetter c || Text.isDigit c

/-- Walks back from the cursor to the last parenthesis still open, `closed` being the number of
those closed on the way; yields what stands behind it, and what stands before it backwards. -/
def openParen (closed : Nat) : List Char → Option (List Char × List Char)
  | [] => none
  | c :: back =>
    if c = ')' then behind c (openParen (closed + 1) back)
    else if c = '(' then
      if closed = 0 then some ([], back) else behind c (openParen (closed - 1) back)
    else behind c (openParen closed back)
where
  /-- Adds a character behind the parenthesis. -/
  behind (c : Char) (found : Option (List Char × List Char)) : Option (List Char × List Char) :=
    found.map fun p => (p.1 ++ [c], p.2)

/-- The number of commas inside no bracket. -/
def commas (depth : Int) : List Char → Nat
  | [] => 0
  | c :: rest =>
    if c = '(' || c = '[' then commas (depth + 1) rest
    else if c = ')' || c = ']' then commas (depth - 1) rest
    else if c = ',' && depth = 0 then commas depth rest + 1
    else commas depth rest

/-- The call around a byte of a line. -/
def around? (line : List Char) (cursor : Int) : Option Call :=
  match openParen 0 (Text.splitAtByte cursor.toNat line).1.reverse with
  | none => none
  | some (inside, back) =>
    let name := (back.takeWhile isNameChar).reverse
    if name.isEmpty then none else some ⟨String.ofList name, commas 0 inside⟩

/-- The signature of a function, as it is shown below the line. -/
def signature (name : String) (type : Ty) : String :=
  let parts := match type with
    | .function params result => (params, result)
    | _ => ([], none)
  Text.screened name ++ "("
    ++ ", ".intercalate (parts.1.map fun p => Text.screened p.text) ++ ")"
    ++ match parts.2 with
      | some r => Text.screened (": " ++ r.text)
      | none => ""

end Call

end Lowlang.Shell
