import Lowlang.Text.Bytes

set_option autoImplicit false

/-!
# Text in bytes

The bytes of a text are those of the string it makes, and a cut between two characters separates
what stands before it.
-/

namespace Lowlang.Text

theorem utf8ByteSize_ofList (s : List Char) : (String.ofList s).utf8ByteSize = bytes s := by
  induction s with
  | nil => rfl
  | cons c s ih =>
    have hcons : String.ofList (c :: s) = String.ofList [c] ++ String.ofList s := by
      rw [← String.ofList_append, List.singleton_append]
    rw [hcons, String.utf8ByteSize_append, ih]
    simp

theorem bytes_toList (s : String) : bytes s.toList = s.utf8ByteSize := by
  rw [← utf8ByteSize_ofList, String.ofList_toList]

theorem bytes_replicate (n : Nat) (c : Char) : bytes (List.replicate n c) = n * c.utf8Size := by
  induction n with
  | zero => simp
  | succ n ih => rw [List.replicate_succ, bytes_cons, ih, Nat.succ_mul, Nat.add_comm]

/-- A cut behind a part of the text yields the part. -/
theorem takeBytes_bytes (s t : List Char) : takeBytes (bytes s) (s ++ t) = s := by
  induction s with
  | nil =>
    cases t with
    | nil => rfl
    | cons c t => exact if_neg (Nat.not_le.mpr c.utf8Size_pos)
  | cons c s ih =>
    rw [bytes_cons, List.cons_append, takeBytes, if_pos (Nat.le_add_right _ _),
      Nat.add_sub_cancel_left, ih]

theorem splitAtByte_bytes (s t : List Char) : splitAtByte (bytes s) (s ++ t) = (s, t) := by
  induction s with
  | nil => cases t <;> rfl
  | cons c s ih =>
    have hpos := c.utf8Size_pos
    rw [List.cons_append, bytes_cons, splitAtByte, if_neg (by omega), Nat.add_sub_cancel_left, ih]

/-- A cut behind a part of the text leaves the rest. -/
theorem dropBytes_bytes (s t : List Char) : dropBytes (bytes s) (s ++ t) = t :=
  congrArg Prod.snd (splitAtByte_bytes s t)

theorem length_le_bytes (s : List Char) : s.length ≤ bytes s := by
  induction s with
  | nil => exact Nat.le_refl 0
  | cons c s ih =>
    have hpos := c.utf8Size_pos
    rw [List.length_cons, bytes_cons]
    omega

/-- Bytes and characters are counted alike only where each character is one byte. -/
theorem bytes_eq_length (s : List Char) : bytes s = s.length ↔ ∀ c ∈ s, c.utf8Size = 1 := by
  induction s with
  | nil => simp
  | cons c s ih =>
    have hpos := c.utf8Size_pos
    have hle := length_le_bytes s
    rw [bytes_cons, List.length_cons, List.forall_mem_cons, ← ih]
    omega

/-- As many characters start before a byte as its number allows. -/
theorem length_splitAtByte_le (n : Nat) (s : List Char) : (splitAtByte n s).1.length ≤ n := by
  induction s generalizing n with
  | nil => exact Nat.zero_le n
  | cons c s ih =>
    have hpos := c.utf8Size_pos
    rw [splitAtByte]
    split
    · exact Nat.zero_le n
    · have hrest := ih (n - c.utf8Size)
      rw [List.length_cons]
      omega

/-! ## What starts before a byte -/

/-- `p` is the beginning of `s` whose characters start before byte `n`, and before the end. -/
structure StartsBefore (n : Nat) (s p : List Char) : Prop where
  initial : p <+: s
  reaches : min n (bytes s) ≤ bytes p
  needed : ∀ q c, p = q ++ [c] → bytes q < min n (bytes s)

theorem startsBefore_splitAtByte (n : Nat) (s : List Char) :
    StartsBefore n s (splitAtByte n s).1 := by
  induction s generalizing n with
  | nil => exact ⟨List.prefix_refl _, by simp, fun q c h => by simp [splitAtByte] at h⟩
  | cons c s ih =>
    rw [splitAtByte]
    split
    · next hn => exact ⟨List.nil_prefix, by simp [hn], fun q d h => by simp at h⟩
    · obtain ⟨hinitial, hreaches, hneeded⟩ := ih (n - c.utf8Size)
      refine ⟨(List.prefix_cons_inj c).mpr hinitial, ?_, fun q d hq => ?_⟩
      · rw [bytes_cons, bytes_cons]
        omega
      · have hpos := c.utf8Size_pos
        rw [bytes_cons]
        cases q with
        | nil =>
          rw [bytes_nil]
          omega
        | cons e q =>
          have hcons : c :: (splitAtByte (n - c.utf8Size) s).1 = e :: (q ++ [d]) := hq
          obtain ⟨rfl, hrest⟩ := List.cons.inj hcons
          have hless := hneeded q d hrest
          rw [bytes_cons]
          omega

/-- There is one such beginning. -/
theorem StartsBefore.eq {n : Nat} {s p q : List Char} (hp : StartsBefore n s p)
    (hq : StartsBefore n s q) : p = q := by
  -- Of two beginnings the longer one has a last character that it does not need.
  have hle : ∀ {a b : List Char}, StartsBefore n s a → StartsBefore n s b → a <+: b → a = b := by
    intro a b ha hb hab
    obtain ⟨t, rfl⟩ := hab
    rcases List.eq_nil_or_concat t with rfl | ⟨t, c, rfl⟩
    · exact (List.append_nil a).symm
    · have hless := hb.needed (a ++ t) c (by simp)
      have hreaches := ha.reaches
      rw [bytes_append] at hless
      omega
  rcases List.prefix_or_prefix_of_prefix hp.initial hq.initial with h | h
  · exact hle hp hq h
  · exact (hle hq hp h).symm

end Lowlang.Text
