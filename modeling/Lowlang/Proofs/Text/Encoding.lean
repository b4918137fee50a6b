import Lowlang.Proofs.Text.Bytes
import Lowlang.Proofs.Text.Literal
import Mathlib.Data.List.Basic
import Mathlib.Tactic.SplitIfs

set_option autoImplicit false

/-!
# UTF-8

Texts stand in the order of their bytes, and their bytes can be read as a character just where one
of them starts.  Read as a row of any bytes, a text has no byte that is part of no character.
-/

namespace Lowlang.Text

/-! ## The order of texts -/

/-- The bytes of a character are before those of one with a greater code, whatever follows. -/
theorem utf8EncodeChar_lt {c d : Char} (h : c < d) (s t : List UInt8) :
    String.utf8EncodeChar c ++ s < String.utf8EncodeChar d ++ t := by
  have hlt : c.val.toNat < d.val.toNat := h
  have hmax : d.val.toNat ≤ 0x10FFFF := toNat_le d
  unfold String.utf8EncodeChar
  dsimp only
  generalize c.val.toNat = m at hlt
  generalize d.val.toNat = n at hlt hmax
  -- The bytes hold the digits to base 64, which come off one by one.
  have hdiv : ∀ k : Nat, k / 4096 = k / 64 / 64 ∧ k / 262144 = k / 64 / 64 / 64 := by omega
  simp only [hdiv]
  split_ifs
  all_goals
    simp only [List.cons_append, List.nil_append, List.cons_lt_cons_iff, UInt8.lt_iff_toNat_lt,
      UInt8.toNat_ofNat', ← UInt8.toNat_inj, Nat.reducePow]
    simp (disch := omega) only [Nat.mod_eq_of_lt]
    omega

theorem flatMap_utf8EncodeChar_lt {s t : List Char} (h : s < t) :
    s.flatMap String.utf8EncodeChar < t.flatMap String.utf8EncodeChar := by
  induction h with
  | nil =>
    rename_i c s
    obtain ⟨b, r, hcons⟩ := List.exists_cons_of_ne_nil (String.utf8EncodeChar_ne_nil (c := c))
    rw [List.flatMap_cons, hcons]
    exact List.nil_lt_cons _ _
  | cons _ ih => exact List.append_left_lt ih
  | rel h => exact utf8EncodeChar_lt h _ _

/-- The bytes of a text. -/
def utf8 (s : String) : List UInt8 :=
  s.toByteArray.data.toList

theorem utf8_eq (s : String) : utf8 s = s.toList.flatMap String.utf8EncodeChar := by
  rw [utf8, ← String.utf8Encode_toList, List.utf8Encode]
  simp

/-- Texts stand in the order of their bytes. -/
theorem utf8_lt {s t : String} (h : s < t) : utf8 s < utf8 t := by
  rw [utf8_eq, utf8_eq]
  exact flatMap_utf8EncodeChar_lt h

/-! ## Reading characters -/

theorem size_utf8Encode (s : List Char) : s.utf8Encode.size = bytes s := by
  rw [← utf8ByteSize_ofList, ← String.size_toByteArray, String.toByteArray_ofList]

/-- The bytes of a part of a text are where it stands. -/
theorem extract_utf8Encode (p s q : List Char) :
    (p ++ s ++ q).utf8Encode.extract (bytes p) (bytes p + bytes s) = s.utf8Encode := by
  have hdrop := ByteArray.extract_append_size_add (a := p.utf8Encode) (b := (s ++ q).utf8Encode)
    (i := 0) (j := bytes s)
  rw [Nat.add_zero, size_utf8Encode, ← List.utf8Encode_append, ← List.append_assoc] at hdrop
  rw [hdrop, List.utf8Encode_append, ByteArray.extract_append_eq_left (size_utf8Encode s).symm]

/-- Where one character starts inside a text, the next one starts behind it. -/
theorem le_bytes_of_append_eq {p q r t : List Char} {d : Char} (h : p ++ d :: q = r ++ t)
    (hlt : bytes p < bytes r) : bytes p + d.utf8Size ≤ bytes r := by
  rcases List.append_eq_append_iff.mp h with ⟨a, rfl, ha⟩ | ⟨a, rfl, _⟩
  · cases a with
    | nil => simp at hlt
    | cons e a =>
      obtain ⟨rfl, _⟩ := List.cons.inj ha
      rw [bytes_append, bytes_cons]
      omega
  · rw [bytes_append] at hlt
    omega

/-- Where a text is cut is known from the bytes before. -/
theorem append_inj_of_bytes {p q r t : List Char} (h : p ++ q = r ++ t)
    (hbytes : bytes p = bytes r) : p = r ∧ q = t := by
  have hp := splitAtByte_bytes p q
  rw [h, hbytes, splitAtByte_bytes] at hp
  exact ⟨(congrArg Prod.fst hp).symm, (congrArg Prod.snd hp).symm⟩

/-- The beginnings of a text are ordered alike by their bytes and by their characters. -/
theorem length_le_of_bytes_le {p q s : List Char} (hp : p <+: s) (hq : q <+: s)
    (h : bytes p ≤ bytes q) : p.length ≤ q.length := by
  rcases List.prefix_or_prefix_of_prefix hp hq with hpq | ⟨t, rfl⟩
  · exact hpq.length_le
  · have ht := length_le_bytes t
    rw [bytes_append] at h
    rw [List.length_append]
    omega

theorem utf8DecodeChar?_bytes (p q : List Char) (d : Char) :
    (p ++ d :: q).utf8Encode.utf8DecodeChar? (bytes p) = some d := by
  rw [ByteArray.utf8DecodeChar?_eq_utf8DecodeChar?_extract, List.utf8Encode_append,
    ByteArray.extract_append_eq_right (size_utf8Encode p).symm ByteArray.size_append,
    List.utf8DecodeChar?_utf8Encode_cons]

/-- The bytes can be read as a character just where it starts. -/
theorem utf8DecodeChar?_eq_some_iff {s : List Char} {i : Nat} {d : Char} :
    s.utf8Encode.utf8DecodeChar? i = some d ↔ ∃ p q, s = p ++ d :: q ∧ bytes p = i := by
  constructor
  · intro h
    have hvalid : (String.Pos.Raw.mk i).IsValid (String.ofList s) := by
      rw [String.Pos.Raw.isValid_iff_isSome_utf8DecodeChar?, String.toByteArray_ofList, h]
      exact .inr rfl
    obtain ⟨k, hk⟩ := String.Pos.Raw.isValid_ofList.mp hvalid
    rw [utf8ByteSize_ofList] at hk
    dsimp only at hk
    have hs : s.take k ++ s.drop k = s := List.take_append_drop k s
    cases hdrop : s.drop k with
    | nil =>
      -- Nothing can be read behind the end.
      have hsize := ByteArray.le_size_of_utf8DecodeChar?_eq_some h
      have hpos := d.utf8Size_pos
      rw [hdrop, List.append_nil] at hs
      rw [size_utf8Encode, hk, hs] at hsize
      omega
    | cons e q =>
      rw [hdrop] at hs
      have hread := utf8DecodeChar?_bytes (s.take k) q e
      rw [hs, ← hk, h, Option.some_inj] at hread
      exact ⟨s.take k, q, by rw [hread, hs], hk.symm⟩
  · rintro ⟨p, q, rfl, rfl⟩
    exact utf8DecodeChar?_bytes p q d

/-- No character can be read inside another one. -/
theorem utf8DecodeChar?_inside {p q : List Char} {d : Char} {i : Nat} (hstart : bytes p < i)
    (hend : i < bytes p + d.utf8Size) : (p ++ d :: q).utf8Encode.utf8DecodeChar? i = none := by
  refine Option.eq_none_iff_forall_ne_some.mpr fun e he => ?_
  obtain ⟨r, t, hs, rfl⟩ := utf8DecodeChar?_eq_some_iff.mp he
  exact Nat.not_le.mpr hend (le_bytes_of_append_eq hs hstart)

/-! ## Bytes of no character -/

namespace ByteString

/-- The bytes of a text. -/
def ofText (s : String) : ByteString :=
  ⟨utf8 s⟩

/-- The string with the byte `0xFF`, which no character has, for each byte that is part of no
character. -/
def marked (s : ByteString) : ByteString :=
  ⟨(runes s).flatMap fun
    | some c => String.utf8EncodeChar c
    | none => [0xFF]⟩

theorem marked_factorsThrough : Function.FactorsThrough marked runes := by
  intro s t h
  rw [marked, marked, h]

/-- The rest of a character that has been read is passed over. -/
theorem runesFrom_append (p s : List UInt8) : runesFrom p.length (p ++ s) = runesFrom 0 s := by
  induction p with
  | nil => rfl
  | cons b p ih => exact ih

/-- The bytes of a character are read as the character, whatever characters follow. -/
theorem runesFrom_utf8EncodeChar (c : Char) (l : List Char) :
    runesFrom 0 (String.utf8EncodeChar c ++ l.flatMap String.utf8EncodeChar)
      = some c :: runesFrom 0 (l.flatMap String.utf8EncodeChar) := by
  have hread : (String.utf8EncodeChar c
      ++ l.flatMap String.utf8EncodeChar).toByteArray.utf8DecodeChar? 0 = some c :=
    List.utf8DecodeChar?_utf8Encode_cons
  have hlength := String.length_utf8EncodeChar c
  obtain ⟨b, r, hcons⟩ := List.exists_cons_of_ne_nil (String.utf8EncodeChar_ne_nil (c := c))
  rw [hcons, List.cons_append] at hread ⊢
  rw [hcons, List.length_cons] at hlength
  rw [runesFrom, hread]
  show some c :: runesFrom (c.utf8Size - 1) _ = _
  rw [← hlength, Nat.add_sub_cancel, runesFrom_append]

/-- A text has the runes it has as a row of bytes. -/
@[simp] theorem runes_ofText (s : String) : runes (ofText s) = runes s := by
  have hfrom : ∀ l : List Char,
      runesFrom 0 (l.flatMap String.utf8EncodeChar) = l.map some := by
    intro l
    induction l with
    | nil => rfl
    | cons c l ih => rw [List.flatMap_cons, runesFrom_utf8EncodeChar, ih, List.map_cons]
  show runesFrom 0 (utf8 s) = s.toList.map some
  rw [utf8_eq, hfrom]

/-- Texts have no byte to mark. -/
@[simp] theorem marked_ofText (s : String) : marked (ofText s) = ofText s := by
  rw [marked, runes_ofText, ofText, utf8_eq]
  show (⟨(s.toList.map some).flatMap _⟩ : ByteString) = _
  rw [List.flatMap_map]

end ByteString

end Lowlang.Text
