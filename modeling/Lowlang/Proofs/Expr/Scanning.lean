import Lowlang.Proofs.Text.Classes
import Lowlang.Proofs.Text.Literal

set_option autoImplicit false

/-!
# Cutting written expressions into tokens

What the scanner makes of the pieces that written expressions consist of: words and chains of
them, decimal numbers, quoted texts, brackets and operators.  Each statement takes one piece
off the front of a text whose rest is cut already, so the tokens of a text are put together
from its end.
-/

namespace Lowlang.Expr.Token

/-- The front of a text is cut into these tokens, and `stop` is left. -/
inductive ScansTo (stop : List Char) : List Char → List Token → Prop
  /-- Nothing is cut off. -/
  | stop : ScansTo stop stop []
  /-- What stands at the front comes before the tokens of the rest. -/
  | cons {c : Char} {s rest : List Char} {t more : List Token} (h : ScansTo stop rest more)
      (hfront : front c s = some (t, rest)) (hlength : rest.length ≤ s.length) :
      ScansTo stop (c :: s) (t ++ more)

variable {stop : List Char}

/-- A text of which nothing is left is cut into its tokens. -/
theorem ScansTo.scan {s : List Char} {ts : List Token} (h : ScansTo [] s ts) :
    scan s = some ts := by
  have hfuel : ∀ fuel, s.length ≤ fuel → scanWith fuel s = some ts := by
    induction h with
    | stop =>
      intro fuel _
      cases fuel <;> rfl
    | cons h hfront hlength ih =>
      intro fuel hfuel
      obtain ⟨fuel, rfl⟩ : ∃ n, fuel = n + 1 := ⟨fuel - 1, by simp at hfuel; omega⟩
      rw [List.length_cons] at hfuel
      simp [scanWith, hfront, ih fuel (by omega)]
  exact hfuel s.length (Nat.le_refl _)

/-- The tokens of a text start with those of its front. -/
theorem ScansTo.split {s : List Char} {ts : List Token} (h : ScansTo stop s ts) {fuel : Nat}
    {all : List Token} (hall : scanWith fuel s = some all) :
    ∃ fuel' more, scanWith fuel' stop = some more ∧ all = ts ++ more := by
  induction h generalizing fuel all with
  | stop => exact ⟨fuel, all, hall, rfl⟩
  | cons h hfront hlength ih =>
    cases fuel with
    | zero => cases hall
    | succ fuel =>
      simp only [scanWith, hfront, Option.bind_eq_bind, Option.bind_some,
        Option.bind_eq_some_iff] at hall
      obtain ⟨us, hus, hall⟩ := hall
      obtain ⟨fuel', more, hmore, rfl⟩ := ih hus
      cases hall
      exact ⟨fuel', more, hmore, (List.append_assoc _ _ _).symm⟩

/-! ## Marks -/

variable {rest : List Char} {ts : List Token}

theorem ScansTo.blank (h : ScansTo stop rest ts) : ScansTo stop (' ' :: rest) ts :=
  h.cons (t := []) rfl (Nat.le_refl _)

/-- A blank text has no tokens. -/
theorem scansTo_blanks {s : List Char} (h : ∀ c ∈ s, Text.isSpace c) : ScansTo [] s [] := by
  induction s with
  | nil => exact .stop
  | cons c s ih =>
    rw [List.forall_mem_cons] at h
    have hfront : front c s = some ([], s) := by
      unfold front
      exact if_pos h.1
    exact (ih h.2).cons hfront (Nat.le_refl _)

theorem ScansTo.bracket (h : ScansTo stop rest ts) {c : Char} (hc : c ∈ ['(', ')', '[', ']']) :
    ScansTo stop (c :: rest) (.bracket c :: ts) := by
  have hfront : front c rest = some ([.bracket c], rest) := by
    simp only [List.mem_cons, List.not_mem_nil, or_false] at hc
    rcases hc with rfl | rfl | rfl | rfl <;> rfl
  exact h.cons hfront (Nat.le_refl _)

theorem ScansTo.comma (h : ScansTo stop rest ts) : ScansTo stop (',' :: rest) (.op "," :: ts) :=
  h.cons (t := [.op ","]) rfl (Nat.le_refl _)

theorem ScansTo.minus (h : ScansTo stop rest ts) : ScansTo stop ('-' :: rest) (.op "-" :: ts) :=
  h.cons (t := [.op "-"]) rfl (Nat.le_refl _)

theorem operator_alone {c d : Char} {more : List Char} (h : d ∉ more) (r : List Char) :
    operator c more (d :: r) = (.op (String.singleton c), d :: r) := by
  rw [operator, if_neg (by simpa using h)]

/-- An exclamation mark stands alone unless a character that completes a longer operator
follows. -/
theorem ScansTo.bang {c : Char} {r : List Char} (h : ScansTo stop (c :: r) ts)
    (hc : c ∉ ['&', '=', '*']) : ScansTo stop ('!' :: c :: r) (.op "!" :: ts) := by
  have hfront : front '!' (c :: r) = some ([.op "!"], c :: r) := by
    show some ([(operator '!' ['&', '=', '*'] (c :: r)).1],
      (operator '!' ['&', '=', '*'] (c :: r)).2) = _
    rw [operator_alone hc]
    rfl
  exact h.cons hfront (Nat.le_refl _)

/-- The operators that written expressions have between their operands. -/
def infixSymbols : List String :=
  [">", ">=", "<", "<=", "==", "&&", "||", "+", "-", "*", "/", "%"]

/-- An operator with a blank behind it is cut off whole. -/
theorem ScansTo.symbol (h : ScansTo stop rest ts) {s : String} (hs : s ∈ infixSymbols) :
    ScansTo stop (s.toList ++ ' ' :: rest) (.op s :: ts) := by
  have hblank := h.blank
  have hfront : ∃ c r, s.toList = c :: r ∧
      front c (r ++ ' ' :: rest) = some ([.op s], ' ' :: rest) := by
    simp only [infixSymbols, List.mem_cons, List.not_mem_nil, or_false] at hs
    rcases hs with rfl | rfl | rfl | rfl | rfl | rfl | rfl | rfl | rfl | rfl | rfl | rfl <;>
      exact ⟨_, _, rfl, rfl⟩
  obtain ⟨c, r, hcr, hfront⟩ := hfront
  rw [hcr, List.cons_append]
  exact hblank.cons hfront (by simp)

/-! ## Words -/

/-- A word of characters of names that does not start like a number. -/
def isIdentifier : List Char → Bool
  | [] => false
  | c :: rest => isWordChar c && !c.isDigit && rest.all isWordChar

/-- No word runs on into the rest. -/
def Stops (rest : List Char) : Prop :=
  ∀ c ∈ rest.head?, isWordChar c = false

theorem not_isSpace_of_isWordChar {c : Char} (h : isWordChar c) : Text.isSpace c = false := by
  simp only [isWordChar, Bool.or_eq_true, decide_eq_true_eq] at h
  rcases h with ((rfl | rfl) | h) | h
  · decide
  · decide
  · exact Text.not_isSpace_of_isLetter h
  · exact Text.not_isSpace_of_isDigit h

theorem front_word {c : Char} (hc : isWordChar c) (hdigit : c.isDigit = false) (s : List Char) :
    front c s = some ([ofWord (String.ofList (c :: s.takeWhile isWordChar))],
      s.dropWhile isWordChar) := by
  have hspace := not_isSpace_of_isWordChar hc
  have hmark : ∀ d, isWordChar d = false → c ≠ d := by
    intro d hd e
    rw [e, hd] at hc
    exact Bool.false_ne_true hc
  have hraw : c.toNat ≠ 0x60 := by
    intro h
    refine hmark (Char.ofNat 0x60) (by decide) ?_
    rw [← h, Char.ofNat_toNat]
  have hbrackets : ¬ ['(', ')', '[', ']', '\x7b', '\x7d'].contains c := by
    simp [hmark '(' (by decide), hmark ')' (by decide), hmark '[' (by decide),
      hmark ']' (by decide), hmark '\x7b' (by decide), hmark '\x7d' (by decide)]
  have hsingle : ¬ [',', ';', '%', '+', '-', '^'].contains c := by
    simp [hmark ',' (by decide), hmark ';' (by decide), hmark '%' (by decide),
      hmark '+' (by decide), hmark '-' (by decide), hmark '^' (by decide)]
  have hdouble : ¬ ['&', '!', '=', '*', '<', '>'].contains c := by
    simp [hmark '&' (by decide), hmark '!' (by decide), hmark '=' (by decide),
      hmark '*' (by decide), hmark '<' (by decide), hmark '>' (by decide)]
  have hquotes : ¬ (c = '\'' || c = '"') = true := by
    simp [hmark '\'' (by decide), hmark '"' (by decide)]
  unfold front
  rw [if_neg (by simp [hspace]), if_neg hquotes, if_neg hraw, if_neg (by simp [hdigit]),
    if_neg (hmark '/' (by decide)), if_neg (hmark '#' (by decide)), if_neg hbrackets,
    if_neg hsingle, if_neg (hmark '?' (by decide)), if_neg (hmark '|' (by decide)),
    if_neg (hmark ':' (by decide)), if_neg hdouble, if_neg (hmark '.' (by decide)), if_pos hc]

theorem ScansTo.word (h : ScansTo stop rest ts) {w : List Char} (hw : isIdentifier w)
    (hrest : Stops rest) : ScansTo stop (w ++ rest) (ofWord (String.ofList w) :: ts) := by
  cases w with
  | nil => cases hw
  | cons c w =>
    simp only [isIdentifier, Bool.and_eq_true, Bool.not_eq_true', List.all_eq_true] at hw
    obtain ⟨⟨hc, hdigit⟩, hmore⟩ := hw
    obtain ⟨htake, hdrop⟩ := Text.takeWhile_append_rest hmore hrest
    have hfront := front_word hc hdigit (w ++ rest)
    rw [htake, hdrop] at hfront
    exact h.cons hfront (by simp)

/-- A point before a word stands alone. -/
theorem ScansTo.point {w r : List Char} (h : ScansTo stop (w ++ r) ts) (hw : isIdentifier w) :
    ScansTo stop ('.' :: (w ++ r)) (.op "." :: ts) := by
  cases w with
  | nil => cases hw
  | cons c w =>
    simp only [isIdentifier, Bool.and_eq_true, Bool.not_eq_true'] at hw
    have hne : c ≠ '.' := by
      rintro rfl
      exact absurd hw.1.1 (by decide)
    have hfront : front '.' (c :: w ++ r) = some ([.op "."], c :: w ++ r) := by
      show (if c.isDigit then _ else some ([(operator '.' ['.'] (c :: w ++ r)).1],
        (operator '.' ['.'] (c :: w ++ r)).2)) = _
      rw [if_neg (by simp [hw.1.2]), List.cons_append, operator_alone (by simpa using hne)]
      rfl
    exact h.cons hfront (Nat.le_refl _)

/-! ## Chains of words -/

/-- The parts of a name between its points. -/
def segments : List Char → List Char × List (List Char)
  | [] => ([], [])
  | c :: s =>
    if c = '.' then ([], (segments s).1 :: (segments s).2)
    else (c :: (segments s).1, (segments s).2)

/-- The parts with points between them make up the name. -/
theorem append_segments (s : List Char) :
    (segments s).1 ++ (segments s).2.flatMap ('.' :: ·) = s := by
  induction s with
  | nil => rfl
  | cons c s ih =>
    by_cases hc : c = '.'
    · rw [segments, if_pos hc, List.nil_append, List.flatMap_cons, List.cons_append, ih, hc]
    · rw [segments, if_neg hc, List.cons_append, ih]

/-- The tokens of a name with these parts. -/
def chainTokens (first : List Char) (more : List (List Char)) : List Token :=
  ofWord (String.ofList first) :: more.flatMap fun w => [.op ".", ofWord (String.ofList w)]

theorem ScansTo.points (h : ScansTo stop rest ts) (hrest : Stops rest) {more : List (List Char)}
    (hmore : ∀ w ∈ more, isIdentifier w) :
    ScansTo stop (more.flatMap ('.' :: ·) ++ rest)
      ((more.flatMap fun w => [.op ".", ofWord (String.ofList w)]) ++ ts) ∧
    Stops (more.flatMap ('.' :: ·) ++ rest) := by
  induction more with
  | nil => exact ⟨h, hrest⟩
  | cons w more ih =>
    rw [List.forall_mem_cons] at hmore
    obtain ⟨htail, hstops⟩ := ih hmore.2
    have hword := (htail.word hmore.1 hstops).point hmore.1
    simp only [List.flatMap_cons, List.cons_append, List.append_assoc]
    refine ⟨hword, fun c hc => ?_⟩
    rw [List.head?_cons, Option.mem_some_iff] at hc
    subst hc
    decide

/-- A name whose parts are words is cut into them and the points between them. -/
theorem ScansTo.chain (h : ScansTo stop rest ts) (hrest : Stops rest) {s : List Char}
    (hfirst : isIdentifier (segments s).1) (hmore : ∀ w ∈ (segments s).2, isIdentifier w) :
    ScansTo stop (s ++ rest) (chainTokens (segments s).1 (segments s).2 ++ ts) := by
  obtain ⟨htail, hstops⟩ := h.points hrest hmore
  have hword := htail.word hfirst hstops
  rw [← List.append_assoc, append_segments] at hword
  exact hword

/-! ## Numbers -/

theorem isDigit_bounds {c : Char} (h : c.isDigit) : 0x30 ≤ c.toNat ∧ c.toNat ≤ 0x39 := by
  simp only [Char.isDigit, Bool.and_eq_true, decide_eq_true_eq, UInt32.le_iff_toNat_le] at h
  exact h

theorem hexValue_of_isDigit {c : Char} (h : c.isDigit) :
    Text.hexValue c = some (c.toNat - 0x30) := by
  obtain ⟨hlow, hhigh⟩ := isDigit_bounds h
  simp [Text.hexValue, hlow, hhigh]

theorem isDigitOf_of_isDigit {c : Char} (h : c.isDigit) : isDigitOf 10 c := by
  have hbounds := isDigit_bounds h
  rw [isDigitOf, hexValue_of_isDigit h]
  simp only [Bool.or_eq_true, decide_eq_true_eq]
  omega

theorem isWordChar_of_isDigit {c : Char} (h : c.isDigit) : isWordChar c := by
  have hlow : c.toNat < 0x80 := by
    have := isDigit_bounds h
    omega
  simp [isWordChar, Text.isDigit, hlow, h]

/-- Digits of numbers are characters of names. -/
theorem isWordChar_of_isDigitOf {base : Nat} {c : Char} (h : isDigitOf base c) : isWordChar c := by
  by_cases hline : c = '_'
  · simp [isWordChar, hline]
  have hvalue : Text.hexValue c ≠ none := by
    intro hnone
    rw [isDigitOf, hnone] at h
    simp [hline] at h
  have hrange : (0x30 ≤ c.toNat ∧ c.toNat ≤ 0x39) ∨ (0x61 ≤ c.toNat ∧ c.toNat ≤ 0x66) ∨
      (0x41 ≤ c.toNat ∧ c.toNat ≤ 0x46) := by
    refine Decidable.of_not_not fun hout => hvalue ?_
    rw [Text.hexValue, if_neg, if_neg, if_neg]
    all_goals
      simp only [Bool.and_eq_true, decide_eq_true_eq]
      omega
  have hascii : ∀ n, n < 0x80 → (0x30 ≤ n ∧ n ≤ 0x39) ∨ (0x61 ≤ n ∧ n ≤ 0x66) ∨
      (0x41 ≤ n ∧ n ≤ 0x46) → isWordChar (Char.ofNat n) := by decide
  rw [← Char.ofNat_toNat c]
  exact hascii c.toNat (by omega) hrange

/-- Decimal digits announce no other base. -/
theorem numberBase_digits {c : Char} {ds : List Char} (hds : ∀ d ∈ ds, d.isDigit)
    (hrest : Stops rest) :
    ∃ lead more, c :: ds = lead ++ more ∧
      numberBase (c :: ds ++ rest) = (10, lead, more ++ rest) := by
  by_cases hc : c = '0'
  · subst hc
    cases htail : ds ++ rest with
    | nil =>
      refine ⟨[], '0' :: ds, rfl, ?_⟩
      rw [List.cons_append, htail]
      rfl
    | cons d t =>
      -- A letter that announces a base is neither a digit nor the end of a word.
      have hannounce : ∀ e ∈ ['x', 'X', 'o', 'O', 'b', 'B'], d ≠ e := by
        have hletters : ∀ e ∈ ['x', 'X', 'o', 'O', 'b', 'B'],
            e.isDigit = false ∧ isWordChar e = true := by decide
        intro e he hde
        subst hde
        cases ds with
        | nil =>
          have hstop := hrest d (by rw [List.nil_append] at htail; rw [htail]; rfl)
          rw [(hletters d he).2] at hstop
          cases hstop
        | cons d' ds =>
          obtain ⟨rfl, _⟩ := List.cons.inj htail
          have hdigit := hds d' List.mem_cons_self
          rw [(hletters d' he).1] at hdigit
          cases hdigit
      refine ⟨['0'], ds, rfl, ?_⟩
      rw [List.cons_append, htail, numberBase]
      simp [hannounce 'x' (by decide), hannounce 'X' (by decide), hannounce 'o' (by decide),
        hannounce 'O' (by decide), hannounce 'b' (by decide), hannounce 'B' (by decide)]
  · refine ⟨[], c :: ds, rfl, ?_⟩
    rw [List.cons_append, numberBase]
    exact fun d t h => hc (List.cons.inj h).1

theorem numberPart_digits {c : Char} {ds : List Char} (hds : ∀ d ∈ c :: ds, d.isDigit)
    (hrest : Stops rest) (hpoint : ∀ d ∈ rest.head?, d ≠ '.') :
    numberPart (c :: ds ++ rest) = some (c :: ds, rest) := by
  obtain ⟨lead, more, hsplit, hbase⟩ :=
    numberBase_digits (fun d hd => hds d (List.mem_cons_of_mem c hd)) hrest
  have hmore : ∀ d ∈ more, isDigitOf 10 d := fun d hd =>
    isDigitOf_of_isDigit (hds d (by rw [hsplit]; exact List.mem_append_right lead hd))
  have hend : ∀ c ∈ rest.head?, isDigitOf 10 c = false := by
    intro c hc
    cases hd : isDigitOf 10 c with
    | false => rfl
    | true => exact absurd (isWordChar_of_isDigitOf hd) (by simp [hrest c hc])
  obtain ⟨htake, hdrop⟩ := Text.takeWhile_append_rest hmore hend
  cases rest with
  | nil =>
    simp only [numberPart, hbase, htake, hdrop]
    simp [exponentPart, numberEnd, hsplit]
  | cons c r =>
    have hword := hrest c rfl
    have hne := hpoint c rfl
    have hexp : exponentPart 10 (c :: r) = ([], c :: r) := by
      have hlow : c ≠ 'e' := by rintro rfl; exact absurd hword (by decide)
      have hhigh : c ≠ 'E' := by rintro rfl; exact absurd hword (by decide)
      simp [exponentPart, hlow, hhigh]
    simp only [numberPart, hbase, htake, hdrop]
    split
    · rename_i heq
      exact absurd (List.cons.inj heq).1 hne
    · rename_i heq
      exact absurd (List.cons.inj heq).1 hne
    · simp [hexp, numberEnd, hword, hsplit]

theorem front_digit {c : Char} (hc : c.isDigit) (s : List Char) :
    front c s = (numberPart (c :: s)).map fun p => ([.number (String.ofList p.1)], p.2) := by
  have hspace := not_isSpace_of_isWordChar (isWordChar_of_isDigit hc)
  have hbounds := isDigit_bounds hc
  have hquotes : ¬ (c = '\'' || c = '"') = true := by
    simp only [Bool.or_eq_true, decide_eq_true_eq]
    rintro (rfl | rfl)
    · exact absurd hc (by decide)
    · exact absurd hc (by decide)
  unfold front
  rw [if_neg (by simp [hspace]), if_neg hquotes, if_neg (by omega), if_pos hc]

theorem ScansTo.number (h : ScansTo stop rest ts) (hrest : Stops rest)
    (hpoint : ∀ c ∈ rest.head?, c ≠ '.') (n : Nat) :
    ScansTo stop ((Nat.repr n).toList ++ rest) (.number (Nat.repr n) :: ts) := by
  have hdigits : ∀ c ∈ (Nat.repr n).toList, c.isDigit := fun _ hc => Text.isDigit_of_mem_repr hc
  obtain ⟨c, r, hs, hc⟩ := Text.repr_eq_cons n
  rw [hs] at hdigits ⊢
  have hpart := numberPart_digits hdigits hrest hpoint
  have hfront : front c (r ++ rest) = some ([.number (Nat.repr n)], rest) := by
    rw [front_digit hc, ← List.cons_append, hpart, ← hs, Option.map_some, String.ofList_toList]
  exact h.cons hfront (by simp)

/-! ## Quoted texts -/

theorem ScansTo.literal (h : ScansTo stop rest ts) (s : String) :
    ScansTo stop ((Text.literal s).toList ++ rest) (.string s :: ts) := by
  have hlist : (Text.literal s).toList ++ rest
      = '"' :: (s.toList.flatMap Text.literalChar ++ '"' :: rest) := by
    rw [Text.literal, Text.enclose, String.toList_ofList, List.cons_append, List.cons_append,
      List.append_assoc, List.singleton_append]
  have hfront : front '"' (s.toList.flatMap Text.literalChar ++ '"' :: rest)
      = some ([.string s], rest) := by
    show (stringBody '"' _ _).map _ = _
    rw [Text.stringBody_quoted Text.readsAs_literalChar, List.map_id', Option.map_some,
      String.ofList_toList]
  rw [hlist]
  exact h.cons hfront (by simp; omega)

end Lowlang.Expr.Token
