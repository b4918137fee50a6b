import Lowlang.Expr.Token

set_option autoImplicit false

/-!
# Quoted text reads back

The string reader of expressions gives back what stands between the quotes, both for the
spelling of expression literals and for that of script literals.  Each spelling is a function
of one character, so it is enough that the reader takes the spelling of one character off the
front and yields that character; a whole text follows by induction.
-/

namespace Lowlang.Text

open Lowlang.Expr.Token (digitsOf charOf escape stringBody)

/-! ## Integers -/

theorem intText_of_nonneg {i : Int} (h : 0 ≤ i) : intText i = Nat.repr i.toNat := by
  cases i with
  | ofNat n => rfl
  | negSucc n => exact absurd h (by omega)

theorem intText_of_neg {i : Int} (h : i < 0) : intText i = "-" ++ Nat.repr i.natAbs := by
  cases i with
  | ofNat n => exact absurd h (Int.not_lt.mpr (Int.natCast_nonneg n))
  | negSucc n => rfl

theorem isDigit_of_mem_repr {n : Nat} {c : Char} (h : c ∈ (Nat.repr n).toList) : c.isDigit := by
  rw [Nat.toList_repr] at h
  exact Nat.isDigit_of_mem_toDigits (by decide) (by decide) h

theorem repr_eq_cons (n : Nat) : ∃ c r, (Nat.repr n).toList = c :: r ∧ c.isDigit := by
  cases h : (Nat.repr n).toList with
  | nil =>
    rw [Nat.toList_repr] at h
    exact absurd h Nat.toDigits_ne_nil
  | cons c r =>
    refine ⟨c, r, rfl, isDigit_of_mem_repr (n := n) ?_⟩
    rw [h]
    exact List.mem_cons_self

/-! ## Hexadecimal digits -/

theorem hexValue_hexDigit : ∀ n, n < 16 → hexValue (hexDigit n) = some n := by
  decide

/-- Digits are read in two goes as in one. -/
theorem digitsOf_add (base m k acc : Nat) (s : List Char) :
    digitsOf base (m + k) acc s =
      (digitsOf base m acc s).bind fun p => digitsOf base k p.1 p.2 := by
  induction m generalizing acc s with
  | zero => simp [digitsOf]
  | succ m ih =>
    rw [Nat.succ_add]
    cases s with
    | nil => rfl
    | cons c s =>
      simp only [digitsOf]
      cases hexValue c with
      | none => rfl
      | some v =>
        by_cases hv : v < base
        · simp [hv, ih]
        · simp [hv]

/-- Hexadecimal digits are read back, up to what the width cuts off. -/
theorem digitsOf_hexDigits (width n acc : Nat) (rest : List Char) :
    digitsOf 16 width acc (hexDigits width n ++ rest)
      = some (acc * 16 ^ width + n % 16 ^ width, rest) := by
  induction width generalizing n rest with
  | zero => simp [digitsOf, hexDigits, Nat.mod_one]
  | succ width ih =>
    have hlow : n % 16 < 16 := Nat.mod_lt n (by decide)
    have hvalue : (acc * 16 ^ width + n / 16 % 16 ^ width) * 16 + n % 16
        = acc * 16 ^ (width + 1) + n % 16 ^ (width + 1) := by
      have hsplit : n % (16 * 16 ^ width) = n % 16 + 16 * (n / 16 % 16 ^ width) := Nat.mod_mul
      rw [Nat.pow_succ, Nat.mul_comm (16 ^ width) 16, hsplit, Nat.add_mul, Nat.mul_assoc,
        Nat.mul_comm (16 ^ width) 16]
      omega
    rw [hexDigits, List.append_assoc, digitsOf_add, ih]
    simp only [Option.bind_some, List.singleton_append, digitsOf, hexValue_hexDigit _ hlow, hlow,
      if_true, hvalue]

/-! ## Characters by number -/

theorem toNat_le (c : Char) : c.toNat ≤ 0x10FFFF := by
  have h := c.valid
  simp only [UInt32.isValidChar, Nat.isValidChar] at h
  simp only [Char.toNat]
  omega

theorem charOfCode_toNat (c : Char) : charOfCode (c.toNat : Int) = c := by
  have hvalid : c.toNat.isValidChar := c.valid
  have hchar : Char.ofNat c.toNat = c := Char.ofNat_toNat c
  rw [Char.ofNat, dif_pos hvalid] at hchar
  rw [charOfCode, dif_pos ⟨hvalid, Int.natCast_nonneg _⟩]
  exact hchar

/-- The number is that of a character. -/
def IsScalar (c : Int32) : Prop :=
  0 ≤ c.toInt ∧ c.toInt.toNat.isValidChar

theorem code_charOfCode {c : Int32} (h : IsScalar c) :
    Int32.ofNat (charOfCode c.toInt).toNat = c := by
  obtain ⟨hpos, hvalid⟩ := h
  have hchar : (charOfCode c.toInt).toNat = c.toInt.toNat := by
    rw [charOfCode, dif_pos ⟨hvalid, hpos⟩]
    rfl
  have hsmall : c.toInt.toNat < 2 ^ 31 := by
    have := c.toInt_lt
    omega
  rw [hchar]
  exact Int32.toInt.inj (by rw [Int32.toInt_ofNat_of_lt hsmall, Int.toNat_of_nonneg hpos])

theorem toInt_code (c : Char) : (Int32.ofNat c.toNat).toInt = c.toNat :=
  Int32.toInt_ofNat_of_lt (Nat.lt_of_le_of_lt (toNat_le c) (by decide))

/-- The code of a character is that of a character, of no other one. -/
theorem isScalar_code (c : Char) : IsScalar (Int32.ofNat c.toNat) := by
  rw [IsScalar, toInt_code]
  exact ⟨Int.natCast_nonneg _, c.valid⟩

theorem charOfCode_code (c : Char) : charOfCode (Int32.ofNat c.toNat).toInt = c := by
  rw [toInt_code, charOfCode_toNat]

theorem charOf_toNat (c : Char) (rest : List Char) : charOf (c.toNat, rest) = some (c, rest) := by
  rw [charOf, if_pos (toNat_le c)]
  simp only [charOfCode_toNat]

/-- An escape by number stands for the character with that number. -/
theorem charOf_digits (width : Nat) {c : Char} (h : c.toNat < 16 ^ width) (rest : List Char) :
    (digitsOf 16 width 0 (hexDigits width c.toNat ++ rest)).bind charOf = some (c, rest) := by
  rw [digitsOf_hexDigits, Option.bind_some, Nat.zero_mul, Nat.zero_add, Nat.mod_eq_of_lt h,
    charOf_toNat]

/-! ## Spellings -/

/-- The string reader takes `s` off the front of a text and yields `c` for it. -/
def ReadsAs (s : List Char) (c : Char) : Prop :=
  ∀ (fuel : Nat) (rest : List Char),
    stringBody '"' (fuel + 1) (s ++ rest)
      = (stringBody '"' fuel rest).map fun p => (c :: p.1, p.2)

/-- A character that is neither a quote, a backslash nor a line mark stands for itself. -/
theorem readsAs_self {c : Char} (hquote : c ≠ '"') (hslash : c ≠ '\\') (hline : c ≠ '\n')
    (hreturn : c ≠ '\r') : ReadsAs [c] c := by
  intro fuel rest
  simp only [List.singleton_append, stringBody, hquote, hslash, hline, hreturn, if_false]
  cases stringBody '"' fuel rest <;> rfl

/-- A backslash and what follows it stand for the character that `escape` reads. -/
theorem readsAs_escape {c : Char} {s : List Char}
    (h : ∀ rest, escape '"' (s ++ rest) = some (c, rest)) : ReadsAs ('\\' :: s) c := by
  intro fuel rest
  simp only [List.cons_append, stringBody, h, Char.reduceEq, if_false, if_true,
    Option.bind_eq_bind, Option.bind_some]
  cases stringBody '"' fuel rest <;> rfl

/-- A mark after a backslash stands for the character `d`. -/
theorem readsAs_mark {c d e : Char} (hc : c = d)
    (h : ∀ rest, escape '"' (e :: rest) = some (d, rest)) : ReadsAs ['\\', e] c := by
  subst hc
  exact readsAs_escape (s := [e]) h

/-- A mark after a backslash stands for the character with the number `n`. -/
theorem readsAs_number {c e : Char} {n : Nat} (hn : c.toNat = n)
    (h : ∀ rest, escape '"' (e :: rest) = some (Char.ofNat n, rest)) : ReadsAs ['\\', e] c :=
  readsAs_mark (by rw [← hn, Char.ofNat_toNat]) h

theorem hexDigits_head (width n : Nat) :
    ∃ d ds, hexDigits (width + 1) n = d :: ds ∧ d ≠ '\x7b' := by
  induction width generalizing n with
  | zero =>
    have hne : ∀ m, m < 16 → hexDigit m ≠ '\x7b' := by decide
    exact ⟨hexDigit (n % 16), [], rfl, hne _ (Nat.mod_lt n (by decide))⟩
  | succ width ih =>
    obtain ⟨d, ds, hds, hd⟩ := ih (n / 16)
    exact ⟨d, ds ++ [hexDigit (n % 16)], by rw [hexDigits, hds, List.cons_append], hd⟩

theorem readsAs_two {c : Char} (h : c.toNat < 0x100) :
    ReadsAs ('\\' :: 'x' :: hexDigits 2 c.toNat) c :=
  readsAs_escape fun rest => charOf_digits 2 h rest

/-- Four digits do not open with a brace, which would begin another form of escape. -/
theorem readsAs_four {c : Char} (h : c.toNat < 0x10000) :
    ReadsAs ('\\' :: 'u' :: hexDigits 4 c.toNat) c := by
  refine readsAs_escape fun rest => ?_
  have hread := charOf_digits 4 h rest
  obtain ⟨d, ds, hds, hd⟩ := hexDigits_head 3 c.toNat
  rw [hds] at hread ⊢
  simp only [List.cons_append] at hread ⊢
  simp only [escape, Char.reduceEq, if_false, if_true]
  split
  · rename_i heq
    exact absurd (List.cons.inj heq).1 hd
  · exact hread

theorem readsAs_eight (c : Char) : ReadsAs ('\\' :: 'U' :: hexDigits 8 c.toNat) c :=
  readsAs_escape fun rest =>
    charOf_digits 8 (Nat.lt_of_le_of_lt (toNat_le c) (by decide)) rest

theorem readsAs_ite {p : Prop} [Decidable p] {s t : List Char} {c : Char}
    (hs : p → ReadsAs s c) (ht : ¬ p → ReadsAs t c) : ReadsAs (if p then s else t) c := by
  by_cases h : p
  · rw [if_pos h]
    exact hs h
  · rw [if_neg h]
    exact ht h

/-- Printable characters stand for themselves in an expression literal, others are escaped. -/
theorem readsAs_literalChar (c : Char) : ReadsAs (literalChar c) c := by
  refine readsAs_ite (fun h => readsAs_mark h fun _ => rfl) fun hquote => ?_
  refine readsAs_ite (fun h => readsAs_mark h fun _ => rfl) fun hslash => ?_
  refine readsAs_ite (fun h => ?_) fun _ => ?_
  · refine readsAs_self hquote hslash ?_ ?_
    · rintro rfl
      exact absurd h (by decide)
    · rintro rfl
      exact absurd h (by decide)
  refine readsAs_ite (fun h => readsAs_number h fun _ => rfl) fun _ => ?_
  refine readsAs_ite (fun h => readsAs_number h fun _ => rfl) fun _ => ?_
  refine readsAs_ite (fun h => readsAs_number h fun _ => rfl) fun _ => ?_
  refine readsAs_ite (fun h => readsAs_mark h fun _ => rfl) fun _ => ?_
  refine readsAs_ite (fun h => readsAs_mark h fun _ => rfl) fun _ => ?_
  refine readsAs_ite (fun h => readsAs_mark h fun _ => rfl) fun _ => ?_
  refine readsAs_ite (fun h => readsAs_number h fun _ => rfl) fun _ => ?_
  refine readsAs_ite (fun h => readsAs_two ?_) fun _ => ?_
  · simp only [Bool.or_eq_true, decide_eq_true_eq] at h
    omega
  exact readsAs_ite (fun h => readsAs_four h) fun _ => readsAs_eight c

/-- A script literal escapes control characters and the characters that matter in markup. -/
theorem readsAs_scriptChar (c : Char) : ReadsAs (scriptChar c) c := by
  refine readsAs_ite (fun h => readsAs_mark h fun _ => rfl) fun hquote => ?_
  refine readsAs_ite (fun h => readsAs_mark h fun _ => rfl) fun hslash => ?_
  refine readsAs_ite (fun h => readsAs_number h fun _ => rfl) fun _ => ?_
  refine readsAs_ite (fun h => readsAs_number h fun _ => rfl) fun _ => ?_
  refine readsAs_ite (fun h => readsAs_mark h fun _ => rfl) fun hline => ?_
  refine readsAs_ite (fun h => readsAs_mark h fun _ => rfl) fun hreturn => ?_
  refine readsAs_ite (fun h => readsAs_mark h fun _ => rfl) fun _ => ?_
  refine readsAs_ite (fun h => readsAs_four ?_) fun _ => readsAs_self hquote hslash hline hreturn
  simp only [Bool.or_eq_true, decide_eq_true_eq] at h
  rcases h with ((((h | rfl) | rfl) | rfl) | h) | h
  · omega
  · decide
  · decide
  · decide
  · omega
  · omega

/-- A script literal spells a byte that is part of no character like the replacement character
is escaped. -/
theorem readsAs_scriptRune : ∀ u : Option Char, ReadsAs (scriptRune u) (u.getD '\ufffd')
  | some c => readsAs_scriptChar c
  | none => readsAs_four (c := '\ufffd') (by decide)

/-! ## Whole texts -/

/-- What stands for a character is not empty, for else the reader would not move. -/
theorem ReadsAs.ne_nil {s : List Char} {c : Char} (h : ReadsAs s c) : s ≠ [] := by
  rintro rfl
  have hread := h 0 ['"']
  simp [stringBody] at hread

section
variable {α : Type} {spell : α → List Char} {char : α → Char}

/-- A text is read up to its closing quote, given a step for each of its characters. -/
theorem stringBody_flatMap (h : ∀ a, ReadsAs (spell a) (char a)) (s : List α) (rest : List Char)
    {fuel : Nat} (hfuel : s.length < fuel) :
    stringBody '"' fuel (s.flatMap spell ++ '"' :: rest) = some (s.map char, rest) := by
  induction s generalizing fuel with
  | nil =>
    obtain ⟨fuel, rfl⟩ : ∃ n, fuel = n + 1 := ⟨fuel - 1, by simp at hfuel; omega⟩
    rfl
  | cons a s ih =>
    obtain ⟨fuel, rfl⟩ : ∃ n, fuel = n + 1 := ⟨fuel - 1, by simp at hfuel; omega⟩
    rw [List.flatMap_cons, List.append_assoc, h a, ih (by simpa using hfuel)]
    rfl

/-- The length of a quoted text bounds the steps that reading it takes. -/
theorem stringBody_quoted (h : ∀ a, ReadsAs (spell a) (char a)) (s : List α) (rest : List Char) :
    stringBody '"' ((s.flatMap spell ++ '"' :: rest).length + 1)
      (s.flatMap spell ++ '"' :: rest) = some (s.map char, rest) := by
  have hlength : s.length ≤ (s.flatMap spell).length := by
    induction s with
    | nil => exact Nat.le_refl _
    | cons a s ih =>
      have hpos : 0 < (spell a).length := List.length_pos_iff.mpr (h a).ne_nil
      rw [List.flatMap_cons, List.length_append, List.length_cons]
      omega
  exact stringBody_flatMap h s rest (by rw [List.length_append]; omega)

end

/-! ## Telling runes apart -/

/-- Two runes that are shown alike are spelt alike only when they are the same, for the
replacement character itself is not escaped. -/
theorem scriptRune_append_inj {u v : Option Char} (hshown : u.getD '\ufffd' = v.getD '\ufffd')
    {s t : List Char} (h : scriptRune u ++ s = scriptRune v ++ t) : u = v ∧ s = t := by
  have hself : scriptRune (some '\ufffd') = ['\ufffd'] := by decide
  cases u with
  | none =>
    cases v with
    | none => exact ⟨rfl, List.append_cancel_left h⟩
    | some d =>
      obtain rfl : '\ufffd' = d := hshown
      rw [hself] at h
      exact absurd (List.cons.inj h).1 (by decide)
  | some c =>
    cases v with
    | none =>
      obtain rfl : c = '\ufffd' := hshown
      rw [hself] at h
      exact absurd (List.cons.inj h).1 (by decide)
    | some d =>
      obtain rfl : c = d := hshown
      exact ⟨rfl, List.append_cancel_left h⟩

/-- A script literal tells which runes it spells. -/
theorem flatMap_scriptRune_inj {s t : List (Option Char)}
    (h : s.flatMap scriptRune = t.flatMap scriptRune) : s = t := by
  have hshown : s.map (·.getD '\ufffd') = t.map (·.getD '\ufffd') := by
    have hread := stringBody_quoted readsAs_scriptRune s []
    rw [h, stringBody_quoted readsAs_scriptRune t []] at hread
    exact (congrArg Prod.fst (Option.some.inj hread)).symm
  induction s generalizing t with
  | nil => exact (List.map_eq_nil_iff.mp hshown.symm).symm
  | cons u s ih =>
    cases t with
    | nil => cases hshown
    | cons v t =>
      obtain ⟨huv, hst⟩ := List.cons.inj hshown
      rw [List.flatMap_cons, List.flatMap_cons] at h
      obtain ⟨rfl, htail⟩ := scriptRune_append_inj huv h
      rw [ih htail hst]

end Lowlang.Text
