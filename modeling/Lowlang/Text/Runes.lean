set_option autoImplicit false

/-!
# Strings of any bytes

A string may hold bytes that are part of no character.  Read from the front, it is a row of
runes: characters in UTF-8, and single bytes where no character can be read.  Texts are the
strings that hold characters only.
-/

namespace Lowlang.Text

/-- Strings as rows of runes: their characters, and `none` for each byte that is part of none. -/
class Runes (σ : Type) where
  runes : σ → List (Option Char)

export Runes (runes)

@[default_instance] instance : Runes String where
  runes s := s.toList.map some

/-- A row of any bytes. -/
structure ByteString where
  bytes : List UInt8
  deriving DecidableEq, Repr, Inhabited

namespace ByteString

/-- The runes of bytes of which the first `n` belong to a character already read. -/
def runesFrom : Nat → List UInt8 → List (Option Char)
  | _, [] => []
  | n + 1, _ :: rest => runesFrom n rest
  | 0, b :: rest =>
    match (b :: rest).toByteArray.utf8DecodeChar? 0 with
    | some c => some c :: runesFrom (c.utf8Size - 1) rest
    | none => none :: runesFrom 0 rest

instance : Runes ByteString where
  runes s := runesFrom 0 s.bytes

end ByteString

/-- The characters that are shown for a string, with a replacement character for each byte that
is part of none. -/
def shown {σ : Type} [Runes σ] (s : σ) : List Char :=
  (runes s).map (·.getD '\ufffd')

@[simp] theorem shown_text (s : String) : shown s = s.toList := by
  show (s.toList.map some).map (·.getD '\ufffd') = s.toList
  rw [List.map_map]
  exact List.map_id s.toList

end Lowlang.Text
