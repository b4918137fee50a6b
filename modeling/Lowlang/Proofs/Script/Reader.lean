import Lowlang.Proofs.Script.Erasure
import Lowlang.Proofs.Text.Classes
import Lowlang.Proofs.Text.Literal
import Mathlib.Data.List.Forall2

set_option autoImplicit false

/-!
# Reading scripts back

A reader of scripts, and the proof that it undoes lowering: from the script of a block with
regular names it gets the block, up to what scripts cannot express.  So blocks with the same
script differ in nothing else.  The reader takes the names of fields as they are written.

The reader takes one construct off the front of a text and returns the rest.  What may follow
a construct decides where it ends: a value ends before a closing mark, an operand also before
an operator, and no name runs on into the next character.  Every step counts down a number
that the length of the text bounds.
-/

namespace Lowlang.Script

/-! ## The reader -/

/-- Characters of dotted names. -/
def isNameChar (c : Char) : Bool :=
  c = '.' || isPlainKey.starts c || Text.isDigit c

/-- The longest row of name characters at the front, and the rest. -/
def readWord (s : List Char) : List Char × List Char :=
  (s.takeWhile isNameChar, s.dropWhile isNameChar)

/-- The number at the front, and the rest. -/
def readNumber (s : List Char) : Nat × List Char :=
  (Nat.ofDigitChars 10 (s.takeWhile Char.isDigit) 0, s.dropWhile Char.isDigit)

/-- The content of a string literal after its opening quote, and the rest. -/
def readLiteral (s : List Char) : Option (List Char × List Char) :=
  Expr.Token.stringBody '"' (s.length + 1) s

/-- The longest operator between two operands at the front, and the rest. -/
def readInfix : List Char → Option (Operator × List Char)
  | '>' :: '>' :: r => some (.shiftRight, r)
  | '>' :: '=' :: r => some (.greaterEqual, r)
  | '>' :: r => some (.greater, r)
  | '<' :: '<' :: r => some (.shiftLeft, r)
  | '<' :: '=' :: r => some (.lessEqual, r)
  | '<' :: r => some (.less, r)
  | '=' :: '=' :: '=' :: r => some (.equal, r)
  | '&' :: '&' :: r => some (.and, r)
  | '&' :: r => some (.bitAnd, r)
  | '|' :: '|' :: r => some (.or, r)
  | '|' :: r => some (.bitOr, r)
  | '+' :: r => some (.add, r)
  | '-' :: r => some (.sub, r)
  | '*' :: r => some (.mul, r)
  | '/' :: r => some (.div, r)
  | '%' :: r => some (.modulo, r)
  | '^' :: r => some (.bitXor, r)
  | _ => none

/-- Items up to a closing mark with commas between them; `first` tells that none was read. -/
def readRow {α : Type} (read : List Char → Option (α × List Char)) (close : Char) :
    Nat → Bool → List Char → Option (List α × List Char)
  | 0, _, _ => none
  | n + 1, first, s =>
    match Text.stripLead [close] s with
    | some r => some ([], r)
    | none => do
      let r ← if first then some s else Text.stripLead [','] s
      let (a, r) ← read r
      let (more, r) ← readRow read close n false r
      some (a :: more, r)

/-- The key of a member as it is written, quoted or not, and the rest. -/
def readKey : List Char → Option (String × List Char)
  | '"' :: r =>
    (readLiteral r).map fun p => (String.ofList ('"' :: r.take (r.length - p.2.length)), p.2)
  | s => some (String.ofList (readWord s).1, (readWord s).2)

/-- A member of an aggregate, its value read by `read`. -/
def readMember (read : List Char → Option (Value × List Char)) (s : List Char) :
    Option ((String × Value) × List Char) := do
  let (key, r) ← readKey s
  let r ← Text.stripLead [':'] r
  let (v, r) ← read r
  some ((key, v), r)

/-- What a word stands for: a truth value, a call when an argument list follows it, or else
a name. -/
def readNamed (args : List Char → Option (List Value × List Char)) (s : List Char) :
    Option (Value × List Char) :=
  let (w, r) := readWord s
  let name := String.ofList w
  if name = "true" then some (.bool .none true, r)
  else if name = "false" then some (.bool .none false, r)
  else
    match r with
    | '(' :: r => (args r).map fun p => (.call .none name p.1, p.2)
    | r => some (.name .none name, r)

mutual

/-- A value: an operator with its operands, a negative number, or a single operand. -/
def readValue : Nat → List Char → Option (Value × List Char)
  | 0, _ => none
  | n + 1, s =>
    match s with
    | '!' :: r => (readOperand n r).map fun p => (.operator .none .not p.1 .absent, p.2)
    | '~' :: r => (readOperand n r).map fun p => (.operator .none .bitNot p.1 .absent, p.2)
    | '-' :: r => some (.int .none (Int64.ofInt (-(readNumber r).1)), (readNumber r).2)
    | s => do
      let (x, r) ← readOperand n s
      match readInfix r with
      | none => some (x, r)
      | some (op, r) => do
        let (y, r) ← readOperand n r
        some (.operator .none op x y, r)

/-- An operand: a value in parentheses, an aggregate, a literal, a call or a name. -/
def readOperand : Nat → List Char → Option (Value × List Char)
  | 0, _ => none
  | n + 1, s =>
    match s with
    | '(' :: r => do
      let (v, r) ← readValue n r
      let r ← Text.stripLead [')'] r
      some (v, r)
    | '[' :: r => (readRow (readValue n) ']' n true r).map fun p => (.list .none p.1, p.2)
    | '\x7b' :: r =>
      (readRow (readMember (readValue n)) '\x7d' n true r).map fun p =>
        (.custom .none none p.1, p.2)
    | '"' :: r => do
      let (content, r) ← readLiteral r
      match content with
      | [c] => some (.char .none (Int32.ofNat c.toNat), r)
      | _ => none
    | c :: r =>
      if c.isDigit then some (eraseNumber (readNumber (c :: r)).1, (readNumber (c :: r)).2)
      else readNamed (readRow (readValue n) ')' n true) (c :: r)
    | [] => none

end

mutual

/-- A statement, told by the word it starts with and what follows that. -/
def readStmt : Nat → List Char → Option (Stmt × List Char)
  | 0, _ => none
  | n + 1, s =>
    let (w, r) := readWord s
    let word := String.ofList w
    if word = "if" then do
      let r ← Text.stripLead ['('] r
      let (test, r) ← readValue n r
      let r ← Text.stripLead [')', '\x7b'] r
      let (body, r) ← readBlock n r
      let r ← Text.stripLead ['\x7d'] r
      let (elifs, r) ← readElifs n r
      let (otherwise, r) ← readOtherwise n r
      some (.branch .none test body elifs otherwise, r)
    else if word = "function" then do
      let r ← Text.stripLead [' '] r
      let (name, r) := readWord r
      let r ← Text.stripLead ['('] r
      let (params, r) ← readRow (fun s => some (readWord s)) ')' n true r
      let r ← Text.stripLead ['\x7b'] r
      let (body, r) ← readBlock n r
      let r ← Text.stripLead ['\x7d'] r
      some (.function .none (String.ofList name)
        (params.map fun p => ⟨String.ofList p, .null⟩) none body, r)
    else if word = "let" ∨ word = "var" then do
      let r ← Text.stripLead [' '] r
      let (name, r) := readWord r
      let r ← Text.stripLead ['='] r
      let (v, r) ← readValue n r
      let r ← Text.stripLead [';'] r
      some (.declare .none (String.ofList name) none v, r)
    else
      match r with
      | '=' :: c :: t =>
        if c = '=' then readEval n s
        else do
          let (v, r) ← readValue n (c :: t)
          let r ← Text.stripLead [';'] r
          some (.assign .none word v, r)
      | _ => readEval n s

/-- A value as a statement. -/
def readEval : Nat → List Char → Option (Stmt × List Char)
  | 0, _ => none
  | n + 1, s => do
    let (v, r) ← readValue n s
    let r ← Text.stripLead [';'] r
    some (.eval .none v, r)

/-- Statements up to a closing brace or the end. -/
def readBlock : Nat → List Char → Option (List Stmt × List Char)
  | 0, _ => none
  | n + 1, s =>
    match s with
    | [] => some ([], [])
    | '\x7d' :: r => some ([], '\x7d' :: r)
    | s => do
      let (first, r) ← readStmt n s
      let (more, r) ← readBlock n r
      some (first :: more, r)

/-- The further tests of a conditional. -/
def readElifs : Nat → List Char → Option (List (Value × List Stmt) × List Char)
  | 0, _ => none
  | n + 1, s =>
    if String.ofList (readWord s).1 = "elseif" then do
      let r ← Text.stripLead ['('] (readWord s).2
      let (test, r) ← readValue n r
      let r ← Text.stripLead [')', '\x7b'] r
      let (body, r) ← readBlock n r
      let r ← Text.stripLead ['\x7d'] r
      let (more, r) ← readElifs n r
      some ((test, body) :: more, r)
    else some ([], s)

/-- The final branch of a conditional, when there is one. -/
def readOtherwise : Nat → List Char → Option (Option (List Stmt) × List Char)
  | 0, _ => none
  | n + 1, s =>
    if String.ofList (readWord s).1 = "else" then do
      let r ← Text.stripLead ['\x7b'] (readWord s).2
      let (body, r) ← readBlock n r
      let r ← Text.stripLead ['\x7d'] r
      some (some body, r)
    else some (none, s)

end

/-! ## What may follow -/

/-- No name runs on into the rest. -/
def Stops (rest : List Char) : Prop :=
  ∀ c ∈ rest.head?, isNameChar c = false

/-- No name runs on into the rest, and no argument list opens it. -/
def Ends (rest : List Char) : Prop :=
  ∀ c ∈ rest.head?, isNameChar c = false ∧ c ≠ '('

/-- The rest is at its end or starts with a mark that closes a value. -/
def Closes (rest : List Char) : Prop :=
  ∀ c ∈ rest.head?, c ∈ [';', ',', ')', ']', '\x7d']

theorem stops_cons {c : Char} {rest : List Char} (h : isNameChar c = false) :
    Stops (c :: rest) := by
  intro d hd
  rw [List.head?_cons, Option.mem_some_iff] at hd
  exact hd ▸ h

theorem Ends.stops {rest : List Char} (h : Ends rest) : Stops rest :=
  fun c hc => (h c hc).1

theorem closes_cons {c : Char} {rest : List Char} (h : c ∈ [';', ',', ')', ']', '\x7d']) :
    Closes (c :: rest) := by
  intro d hd
  rw [List.head?_cons, Option.mem_some_iff] at hd
  exact hd ▸ h

theorem Closes.ends {rest : List Char} (h : Closes rest) : Ends rest := by
  have hmarks : ∀ c ∈ [';', ',', ')', ']', '\x7d'], isNameChar c = false ∧ c ≠ '(' := by decide
  exact fun c hc => hmarks c (h c hc)

theorem readInfix_of_closes {rest : List Char} (h : Closes rest) : readInfix rest = none := by
  cases rest with
  | nil => rfl
  | cons c rest =>
    have hc := h c rfl
    simp only [List.mem_cons, List.not_mem_nil, or_false] at hc
    rcases hc with rfl | rfl | rfl | rfl | rfl <;> rfl

/-! ## Words and numbers -/

theorem readWord_append {w rest : List Char} (hw : ∀ c ∈ w, isNameChar c)
    (hrest : Stops rest) : readWord (w ++ rest) = (w, rest) := by
  obtain ⟨htake, hdrop⟩ := Text.takeWhile_append_rest hw hrest
  rw [readWord, htake, hdrop]

theorem isNameChar_of_isDigit {c : Char} (h : c.isDigit) : isNameChar c := by
  have hlow : c.toNat < 0x80 := by
    simp only [Char.isDigit, Bool.and_eq_true, decide_eq_true_eq, UInt32.le_iff_toNat_le] at h
    have hnine : c.val.toNat ≤ 57 := h.2
    exact Nat.lt_of_le_of_lt hnine (by decide)
  simp [isNameChar, Text.isDigit, hlow, h]

theorem readNumber_repr (n : Nat) {rest : List Char} (hrest : Ends rest) :
    readNumber ((Nat.repr n).toList ++ rest) = (n, rest) := by
  have hdigits : ∀ c ∈ (Nat.repr n).toList, c.isDigit := fun _ hc => Text.isDigit_of_mem_repr hc
  have hend : ∀ c ∈ rest.head?, c.isDigit = false := by
    intro c hc
    cases hd : c.isDigit with
    | false => rfl
    | true => exact absurd (isNameChar_of_isDigit hd) (by simp [(hrest c hc).1])
  obtain ⟨htake, hdrop⟩ := Text.takeWhile_append_rest hdigits hend
  rw [readNumber, htake, hdrop, Nat.toList_repr, Nat.ofDigitChars_ten_toDigits]

/-! ## Dotted names -/

theorem isNameChar_of_plainKey {s : List Char} (h : isPlainKey s) :
    (∃ c r, s = c :: r ∧ isPlainKey.starts c) ∧ ∀ c ∈ s, isNameChar c := by
  cases s with
  | nil => cases h
  | cons c r =>
    rw [isPlainKey, Bool.and_eq_true, List.all_eq_true] at h
    refine ⟨⟨c, r, rfl, h.1⟩, fun d hd => ?_⟩
    rcases List.mem_cons.mp hd with rfl | hd
    · simp [isNameChar, h.1]
    · have hclass := h.2 d hd
      simp only [Bool.or_eq_true] at hclass
      rcases hclass with hstarts | hdigit
      · simp [isNameChar, hstarts]
      · simp [isNameChar, hdigit]

/-- A row of texts with a mark between them is the first one and then each of the others
behind a mark. -/
theorem intercalate_cons {α : Type} (mark x : List α) (xs : List (List α)) :
    mark.intercalate (x :: xs) = x ++ xs.flatMap (mark ++ ·) := by
  induction xs generalizing x with
  | nil => simp [List.intercalate]
  | cons y ys ih =>
    have hstep : mark.intercalate (x :: y :: ys) = x ++ (mark ++ mark.intercalate (y :: ys)) := by
      simp [List.intercalate]
    rw [hstep, ih, List.flatMap_cons, List.append_assoc]

theorem isNameChar_of_dotted {name : String} (h : IsDotted name) :
    (∃ c r, name.toList = c :: r ∧ isPlainKey.starts c) ∧ ∀ c ∈ name.toList, isNameChar c := by
  obtain ⟨parts, hne, hparts, rfl⟩ := h
  cases parts with
  | nil => exact absurd rfl hne
  | cons part parts =>
    have hlist : (".".intercalate (part :: parts)).toList
        = part.toList ++ (parts.map String.toList).flatMap (['.'] ++ ·) := by
      rw [String.toList_intercalate, List.map_cons]
      exact intercalate_cons _ _ _
    obtain ⟨⟨c, r, hcr, hstarts⟩, hchars⟩ :=
      isNameChar_of_plainKey (hparts part List.mem_cons_self)
    rw [hlist]
    refine ⟨⟨c, r ++ (parts.map String.toList).flatMap (['.'] ++ ·), ?_, hstarts⟩, ?_⟩
    · rw [hcr, List.cons_append]
    · intro d hd
      rcases List.mem_append.mp hd with hd | hd
      · exact hchars d hd
      · obtain ⟨t, ht, hd⟩ := List.mem_flatMap.mp hd
        obtain ⟨q, hq, rfl⟩ := List.mem_map.mp ht
        rcases List.mem_append.mp hd with hd | hd
        · rw [List.mem_singleton.mp hd]
          decide
        · exact (isNameChar_of_plainKey (hparts q (List.mem_cons_of_mem _ hq))).2 d hd

theorem readWord_dotted {name : String} (h : IsDotted name) {rest : List Char}
    (hrest : Stops rest) : readWord (name.toList ++ rest) = (name.toList, rest) :=
  readWord_append (isNameChar_of_dotted h).2 hrest

/-! ## First characters -/

/-- Characters an operand starts with. -/
def startsOperand (c : Char) : Bool :=
  c = '(' || c = '[' || c = '\x7b' || c = '"' || isNameChar c

/-- Characters a value starts with. -/
def startsValue (c : Char) : Bool :=
  startsOperand c || c = '!' || c = '~' || c = '-'

/-- The text is there and starts with a character of the class. -/
def Leads (p : Char → Bool) (s : List Char) : Prop :=
  ∃ c r, s = c :: r ∧ p c

theorem Leads.append {p : Char → Bool} {s : List Char} (h : Leads p s) (rest : List Char) :
    Leads p (s ++ rest) := by
  obtain ⟨c, r, rfl, hc⟩ := h
  exact ⟨c, r ++ rest, rfl, hc⟩

theorem Leads.mono {p q : Char → Bool} {s : List Char} (h : Leads p s) (hpq : ∀ c, p c → q c) :
    Leads q s := by
  obtain ⟨c, r, rfl, hc⟩ := h
  exact ⟨c, r, rfl, hpq c hc⟩

theorem leads_repr (n : Nat) : Leads startsOperand (Nat.repr n).toList := by
  obtain ⟨c, r, hcr, hdigit⟩ := Text.repr_eq_cons n
  exact ⟨c, r, hcr, by simp [startsOperand, isNameChar_of_isDigit hdigit]⟩

theorem leads_dotted {name : String} (h : IsDotted name) : Leads startsOperand name.toList := by
  obtain ⟨⟨c, r, hcr, _⟩, hchars⟩ := isNameChar_of_dotted h
  have hc : isNameChar c := hchars c (by rw [hcr]; exact List.mem_cons_self)
  exact ⟨c, r, hcr, by simp [startsOperand, hc]⟩

/-- No operator begins with the first character of an operand, so the longest operator at
the front of a text before an operand is the one that was written. -/
theorem readInfix_token {op : Operator} (hop : op.isUnary = false) {r : List Char}
    (hr : Leads startsOperand r) :
    readInfix ((operatorToken op).toList ++ r) = some (op, r) := by
  obtain ⟨c, r, rfl, hc⟩ := hr
  have h1 : c ≠ '>' := by rintro rfl; exact absurd hc (by decide)
  have h2 : c ≠ '=' := by rintro rfl; exact absurd hc (by decide)
  have h3 : c ≠ '<' := by rintro rfl; exact absurd hc (by decide)
  have h4 : c ≠ '&' := by rintro rfl; exact absurd hc (by decide)
  have h5 : c ≠ '|' := by rintro rfl; exact absurd hc (by decide)
  cases op <;> first
    | exact absurd hop (by decide)
    | simp [operatorToken, Operator.symbol, readInfix, h1, h2, h3, h4, h5]

/-- An operator between operands ends the operand before it. -/
theorem ends_token (op : Operator) (r : List Char) : Ends ((operatorToken op).toList ++ r) := by
  cases op <;> (intro c hc; revert c; simp [operatorToken, Operator.symbol]; decide)

/-! ## Values -/

/-- A value that starts like an operand is one, or two with an operator between them. -/
theorem readValue_leads {s : List Char} (hs : Leads startsOperand s) (n : Nat) :
    readValue (n + 1) s = (readOperand n s).bind fun p =>
      match readInfix p.2 with
      | none => some p
      | some (op, r) =>
        (readOperand n r).map fun q => (.operator .none op p.1 q.1, q.2) := by
  obtain ⟨c, r, rfl, hc⟩ := hs
  have hnot : c ≠ '!' := by rintro rfl; exact absurd hc (by decide)
  have htilde : c ≠ '~' := by rintro rfl; exact absurd hc (by decide)
  have hminus : c ≠ '-' := by rintro rfl; exact absurd hc (by decide)
  rw [readValue]
  · cases readOperand n (c :: r) with
    | none => rfl
    | some p =>
      simp only [Option.bind_eq_bind, Option.bind_some]
      cases readInfix p.2 with
      | none => rfl
      | some q => cases hread : readOperand n q.2 <;> simp [hread]
  · exact fun t ht => hnot (List.cons.inj ht).1
  · exact fun t ht => htilde (List.cons.inj ht).1
  · exact fun t ht => hminus (List.cons.inj ht).1

/-- A value that stands as an operand without parentheses is also read as a whole value. -/
theorem readValue_of_readOperand {n : Nat} {s rest : List Char} {v : Value}
    (hs : Leads startsOperand s) (hrest : Closes rest)
    (h : readOperand n (s ++ rest) = some (v, rest)) :
    readValue (n + 1) (s ++ rest) = some (v, rest) := by
  rw [readValue_leads (hs.append rest), h, Option.bind_some, readInfix_of_closes hrest]

/-- A value in parentheses is an operand. -/
theorem readOperand_paren {n : Nat} {s rest : List Char} {v : Value}
    (h : readValue n (s ++ ')' :: rest) = some (v, ')' :: rest)) :
    readOperand (n + 1) ('(' :: (s ++ ')' :: rest)) = some (v, rest) := by
  simp [readOperand, h, Text.stripLead]

theorem toList_scriptLiteral {σ : Type} [Text.Runes σ] (s : σ) :
    (Text.scriptLiteral s).toList = '"' :: ((Text.runes s).flatMap Text.scriptRune ++ ['"']) := by
  rw [Text.scriptLiteral, Text.enclose, String.toList_ofList, List.cons_append]

theorem toList_row (left right : String) (ss : List String) :
    (left ++ ",".intercalate ss ++ right).toList
      = left.toList ++ ([','].intercalate (ss.map String.toList) ++ right.toList) := by
  rw [String.toList_append, String.toList_append, String.toList_intercalate, List.append_assoc]
  rfl

variable {κ : Type}

theorem group_of_grouped {v : Value κ} (h : isGrouped v) (s : String) :
    (group v s).toList = '(' :: (s.toList ++ [')']) := by
  rw [group, if_pos h]
  simp

theorem group_of_not {v : Value κ} (h : isGrouped v = false) (s : String) : group v s = s := by
  rw [group, h]
  rfl

theorem isGrouped_int {p : Pos} {i : Int64} : isGrouped (.int p i : Value κ) ↔ i.toInt < 0 := by
  rw [isGrouped, decide_eq_true_iff, Int64.lt_iff_toInt_lt]
  rfl

variable [Text.Runes κ]

/-- The text of an operand: what an opening mark starts, a number, a truth value, or a name that
may have an argument list. -/
inductive OperandText : List Char → Prop
  | marked {c : Char} (hc : c ∈ ['(', '[', '\x7b', '"']) (r : List Char) : OperandText (c :: r)
  | number (n : Nat) : OperandText (Nat.repr n).toList
  | truth (b : Bool) : OperandText (if b then "true" else "false").toList
  | name {n : String} (h : IsRegular n) : OperandText n.toList
  | called {n : String} (h : IsRegular n) (r : List Char) : OperandText (n.toList ++ '(' :: r)

theorem operandText {scope : Registry} {v : Value κ} {s : String} (h : value scope v = .ok s)
    (hr : RegularValue v) : OperandText (group v s).toList := by
  by_cases hg : isGrouped v
  · rw [group_of_grouped hg]
    exact .marked (by decide) _
  rw [group_of_not (by simpa using hg)]
  cases v with
  | absent => cases h
  | int p i =>
    have hi : 0 ≤ i.toInt := by
      rw [isGrouped_int] at hg
      omega
    cases h
    rw [Text.intText_of_nonneg hi]
    exact .number _
  | uint p n => cases h; exact .number _
  | byte p b => cases h; exact .number _
  | char p c =>
    rw [value] at h
    rw [← Except.ok.inj h, toList_scriptLiteral]
    exact .marked (by decide) _
  | bool p b => cases h; exact .truth b
  | list p elems =>
    obtain ⟨ss, _, hs⟩ := Fault.bind_ok h
    cases hs
    rw [toList_row]
    exact .marked (by decide) _
  | custom p t fields =>
    obtain ⟨ss, _, hs⟩ := Fault.bind_ok h
    cases hs
    rw [toList_row]
    exact .marked (by decide) _
  | type p t => cases h
  | name p n =>
    rw [value] at h
    split at h
    · cases h
      exact .name hr
    · cases h
  | call p n args =>
    rw [value] at h
    split at h
    · obtain ⟨ss, _, hs⟩ := Fault.bind_ok h
      cases hs
      rw [toList_row, String.toList_append, List.append_assoc]
      exact .called hr.1 _
    · cases h
  | operator p op x y => exact absurd rfl hg
  | other p k x y => cases h

/-- An operand starts with a character of its class. -/
theorem OperandText.leads {s : List Char} (h : OperandText s) : Leads startsOperand s := by
  cases h with
  | @marked c hc r =>
    have hmarks : ∀ c ∈ ['(', '[', '\x7b', '"'], startsOperand c := by decide
    exact ⟨c, r, rfl, hmarks c hc⟩
  | number n => exact leads_repr n
  | truth b =>
    cases b
    · exact ⟨'f', _, rfl, by decide⟩
    · exact ⟨'t', _, rfl, by decide⟩
  | name h => exact leads_dotted h.1
  | called h r => exact (leads_dotted h.1).append _

/-- The text of a value: what a sign starts, an operand, or two with an operator between them. -/
inductive ValueText : List Char → Prop
  | signed {c : Char} (hc : c ∈ ['!', '~', '-']) (r : List Char) : ValueText (c :: r)
  | operand {s : List Char} (hs : OperandText s) : ValueText s
  | joined {s t : List Char} (op : Operator) (hs : OperandText s) (ht : OperandText t) :
    ValueText (s ++ ((operatorToken op).toList ++ t))

theorem valueText {scope : Registry} {v : Value κ} {s : String} (h : value scope v = .ok s)
    (hr : RegularValue v) : ValueText s.toList := by
  by_cases hg : isGrouped v
  · cases v with
    | int p i =>
      cases h
      rw [Text.intText_of_neg (isGrouped_int.mp hg), String.toList_append]
      exact .signed (by decide) _
    | operator p op x y =>
      obtain ⟨a, hx, hs⟩ := Fault.bind_ok h
      split at hs
      · rename_i hop
        cases hs
        rw [String.toList_append]
        cases op with
        | not => exact .signed (by decide) _
        | bitNot => exact .signed (by decide) _
        | _ => cases hop
      · rename_i hop
        obtain ⟨b, hy, hs⟩ := Fault.bind_ok hs
        cases hs
        rw [String.toList_append, String.toList_append, List.append_assoc]
        exact .joined op (operandText hx hr.1) (operandText hy (hr.2 (by simpa using hop)))
    | _ => cases hg
  · have hoperand := operandText h hr
    rw [group_of_not (by simpa using hg)] at hoperand
    exact .operand hoperand

/-- A value starts with a character of its class. -/
theorem ValueText.leads {s : List Char} (h : ValueText s) : Leads startsValue s := by
  have hoperand : ∀ c, startsOperand c → startsValue c := fun c hc => by simp [startsValue, hc]
  cases h with
  | @signed c hc r =>
    have hsigns : ∀ c ∈ ['!', '~', '-'], startsValue c := by decide
    exact ⟨c, r, rfl, hsigns c hc⟩
  | operand hs => exact hs.leads.mono hoperand
  | joined op hs ht => exact (hs.leads.append _).mono hoperand

/-! ## Rows of items -/

/-- The text is read as `a` when a comma or the closing mark follows it, and is not taken
for the closing mark itself. -/
structure ReadsItem {α : Type} (read : List Char → Option (α × List Char)) (close : Char)
    (s : List Char) (a : α) : Prop where
  opens : Leads (fun c => c ≠ close) s
  reads : ∀ c rest, c = ',' ∨ c = close → read (s ++ c :: rest) = some (a, c :: rest)

/-- What follows an item of a row starts with a comma or the closing mark. -/
theorem row_head (close : Char) (ss : List (List Char)) (rest : List Char) :
    ∃ c r, ss.flatMap ([','] ++ ·) ++ close :: rest = c :: r ∧ (c = ',' ∨ c = close) := by
  cases ss with
  | nil => exact ⟨close, rest, rfl, Or.inr rfl⟩
  | cons s ss => exact ⟨',', _, rfl, Or.inl rfl⟩

/-- Items behind commas are read up to the closing mark. -/
theorem readRow_more {α : Type} {read : List Char → Option (α × List Char)} {close : Char}
    (hclose : close ≠ ',') {ss : List (List Char)} {as : List α}
    (h : List.Forall₂ (ReadsItem read close) ss as) {n : Nat} (hn : ss.length < n)
    (rest : List Char) :
    readRow read close n false (ss.flatMap ([','] ++ ·) ++ close :: rest) = some (as, rest) := by
  induction h generalizing n with
  | nil =>
    obtain ⟨n, rfl⟩ : ∃ m, n = m + 1 := ⟨n - 1, by simp at hn; omega⟩
    simp [readRow, Text.stripLead]
  | @cons s a ss as hs _ ih =>
    obtain ⟨n, rfl⟩ : ∃ m, n = m + 1 := ⟨n - 1, by simp at hn; omega⟩
    have hmore := ih (n := n) (by simpa using hn)
    obtain ⟨c, r, hcr, hc⟩ := row_head close ss rest
    rw [hcr] at hmore
    rw [List.flatMap_cons, List.append_assoc, List.append_assoc, hcr]
    simp [readRow, Text.stripLead, hclose, hs.reads c r hc, hmore]

/-- A whole row is read up to the closing mark. -/
theorem readRow_intercalate {α : Type} {read : List Char → Option (α × List Char)} {close : Char}
    (hclose : close ≠ ',') {ss : List (List Char)} {as : List α}
    (h : List.Forall₂ (ReadsItem read close) ss as) {n : Nat} (hn : ss.length < n)
    (rest : List Char) :
    readRow read close n true ([','].intercalate ss ++ close :: rest) = some (as, rest) := by
  obtain ⟨n, rfl⟩ : ∃ m, n = m + 1 := ⟨n - 1, by omega⟩
  cases h with
  | nil => simp [readRow, Text.stripLead, List.intercalate]
  | @cons s a ss as hs htail =>
    have hmore := readRow_more hclose htail (n := n) (by simpa using hn) rest
    obtain ⟨d, t, hdt, hd⟩ := hs.opens
    obtain ⟨c, r, hcr, hc⟩ := row_head close ss rest
    rw [hcr] at hmore
    have hread := hs.reads c r hc
    have hne : close ≠ d := fun e => by simp [e] at hd
    rw [intercalate_cons, List.append_assoc, hcr]
    rw [hdt] at hread ⊢
    rw [List.cons_append] at hread ⊢
    simp [readRow, Text.stripLead, hne, hread, hmore]

theorem length_le_intercalate {ss : List (List Char)} :
    (∀ s ∈ ss, s.length ≤ ([','].intercalate ss).length) ∧
      ss.length ≤ ([','].intercalate ss).length + 1 := by
  cases ss with
  | nil => simp
  | cons s ss =>
    have hmore : (∀ t ∈ ss, t.length ≤ (ss.flatMap ([','] ++ ·)).length) ∧
        ss.length ≤ (ss.flatMap ([','] ++ ·)).length := by
      induction ss with
      | nil => simp
      | cons t ss ih =>
        rw [List.flatMap_cons, List.length_append, List.length_append]
        refine ⟨fun u hu => ?_, ?_⟩
        · rcases List.mem_cons.mp hu with rfl | hu
          · omega
          · have := ih.1 u hu
            omega
        · have := ih.2
          simp only [List.length_cons, List.length_nil]
          omega
    rw [intercalate_cons, List.length_append]
    refine ⟨fun u hu => ?_, ?_⟩
    · rcases List.mem_cons.mp hu with rfl | hu
      · omega
      · have := hmore.1 u hu
        omega
    · have := hmore.2
      simp only [List.length_cons]
      omega

/-! ## Literals and names -/

theorem not_isDigit_of_starts {c : Char} (h : isPlainKey.starts c) : c.isDigit = false := by
  cases hd : c.isDigit with
  | false => rfl
  | true =>
    exfalso
    have hrange : 48 ≤ c.val.toNat ∧ c.val.toNat ≤ 57 := by
      simp only [Char.isDigit, Bool.and_eq_true, decide_eq_true_eq, UInt32.le_iff_toNat_le] at hd
      exact hd
    have hlow : c.toNat < 0x80 := Nat.lt_of_le_of_lt hrange.2 (by decide)
    simp only [isPlainKey.starts, Text.isLetter, hlow, if_true, Bool.or_eq_true,
      decide_eq_true_eq] at h
    rcases h with (rfl | rfl) | h
    · exact absurd hd (by decide)
    · exact absurd hd (by decide)
    · have hcases : (decide (c.val ≥ 'A'.val ∧ c.val ≤ 'Z'.val)
          || decide (c.val ≥ 'a'.val) && decide (c.val ≤ 'z'.val)) = true := h
      simp only [Bool.or_eq_true, Bool.and_eq_true, decide_eq_true_eq, UInt32.le_iff_toNat_le,
        ge_iff_le] at hcases
      have hbounds : 65 ≤ c.val.toNat := by
        rcases hcases with h | h
        · exact h.1
        · exact Nat.le_trans (by decide) h.1
      omega

/-- Without an opening mark an operand is a number or a word. -/
theorem readOperand_unmarked {c : Char} (hc : c ∉ ['(', '[', '\x7b', '"']) (n : Nat)
    (r : List Char) : readOperand (n + 1) (c :: r)
      = if c.isDigit then some (eraseNumber (readNumber (c :: r)).1, (readNumber (c :: r)).2)
        else readNamed (readRow (readValue n) ')' n true) (c :: r) := by
  simp only [List.mem_cons, List.not_mem_nil, or_false, not_or] at hc
  obtain ⟨hparen, hbracket, hbrace, hquote⟩ := hc
  rw [readOperand] <;> assumption

/-- A word is read as a name, a call or a truth value. -/
theorem readOperand_word {w rest : List Char} (hw : ∃ c r, w = c :: r ∧ isPlainKey.starts c)
    (n : Nat) : readOperand (n + 1) (w ++ rest)
      = readNamed (readRow (readValue n) ')' n true) (w ++ rest) := by
  obtain ⟨c, r, rfl, hc⟩ := hw
  have hmarks : ∀ d ∈ ['(', '[', '\x7b', '"'], isPlainKey.starts d = false := by decide
  have hc' : c ∉ ['(', '[', '\x7b', '"'] := fun hm => by simp [hmarks c hm] at hc
  rw [List.cons_append, readOperand_unmarked hc', not_isDigit_of_starts hc]
  rfl

theorem readOperand_number (k n : Nat) {rest : List Char} (hrest : Ends rest) :
    readOperand (n + 1) ((Nat.repr k).toList ++ rest) = some (eraseNumber k, rest) := by
  have hread := readNumber_repr k hrest
  obtain ⟨c, r, hcr, hc⟩ := Text.repr_eq_cons k
  have hmarks : ∀ d ∈ ['(', '[', '\x7b', '"'], d.isDigit = false := by decide
  have hc' : c ∉ ['(', '[', '\x7b', '"'] := fun hm => by simp [hmarks c hm] at hc
  rw [hcr, List.cons_append] at hread ⊢
  rw [readOperand_unmarked hc', if_pos hc, hread]

/-! ## Values are read back -/

/-- The script `s` of `v` is read as `v` up to erasure, as a whole and as an operand. -/
structure Recovers (v : Value κ) (s : String) : Prop where
  whole : ∀ n rest, 2 * s.toList.length < n → Closes rest →
    readValue n (s.toList ++ rest) = some (eraseValue propertyKey v, rest)
  operand : ∀ n rest, 2 * (group v s).toList.length ≤ n → Ends rest →
    readOperand n ((group v s).toList ++ rest) = some (eraseValue propertyKey v, rest)

/-- What stands as an operand without parentheses is also a whole value. -/
theorem Recovers.of_atom {v : Value κ} {s : String} (hg : isGrouped v = false)
    (hlead : Leads startsOperand s.toList)
    (h : ∀ n rest, 2 * s.toList.length ≤ n + 1 → Ends rest →
      readOperand (n + 1) (s.toList ++ rest) = some (eraseValue propertyKey v, rest)) : Recovers v s := by
  have hpos : 0 < s.toList.length := by
    obtain ⟨c, r, hcr, _⟩ := hlead
    rw [hcr]
    exact Nat.succ_pos _
  refine ⟨fun n rest hn hrest => ?_, fun n rest hn hrest => ?_⟩
  · obtain ⟨n, rfl⟩ : ∃ m, n = m + 2 := ⟨n - 2, by omega⟩
    exact readValue_of_readOperand hlead hrest (h n rest (by omega) hrest.ends)
  · rw [group_of_not hg] at hn ⊢
    obtain ⟨n, rfl⟩ : ∃ m, n = m + 1 := ⟨n - 1, by omega⟩
    exact h n rest hn hrest

/-- What is read as a whole value is an operand in parentheses. -/
theorem Recovers.of_grouped {v : Value κ} {s : String} (hg : isGrouped v)
    (h : ∀ n rest, 2 * s.toList.length < n → Closes rest →
      readValue n (s.toList ++ rest) = some (eraseValue propertyKey v, rest)) : Recovers v s := by
  refine ⟨h, fun n rest hn hrest => ?_⟩
  rw [group_of_grouped hg] at hn ⊢
  simp only [List.length_cons, List.length_append, List.length_nil] at hn
  obtain ⟨n, rfl⟩ : ∃ m, n = m + 1 := ⟨n - 1, by omega⟩
  rw [List.cons_append, List.append_assoc]
  exact readOperand_paren (h n _ (by omega) (closes_cons (by decide)))

theorem readsItem_value {scope : Registry} {v : Value κ} {s : String} (h : value scope v = .ok s)
    (hr : RegularValue v) (hv : Recovers v s) {n : Nat} (hn : 2 * s.toList.length < n)
    {close : Char} (hclose : close ∈ [')', ']']) :
    ReadsItem (readValue n) close s.toList (eraseValue propertyKey v) := by
  have hmarks : ∀ c ∈ [')', ']'],
      startsValue c = false ∧ c ∈ [';', ',', ')', ']', '\x7d'] := by decide
  refine ⟨(valueText h hr).leads.mono fun c hc => ?_, fun c rest hc => hv.whole n _ hn ?_⟩
  · have hne : c ≠ close := fun e => by rw [e, (hmarks close hclose).1] at hc; cases hc
    simpa using hne
  · rcases hc with rfl | rfl
    · exact closes_cons (by decide)
    · exact closes_cons (hmarks c hclose).2

theorem readLiteral_scriptLiteral {σ : Type} [Text.Runes σ] (s : σ) (rest : List Char) :
    readLiteral ((Text.runes s).flatMap Text.scriptRune ++ '"' :: rest)
      = some (Text.shown s, rest) :=
  Text.stringBody_quoted Text.readsAs_scriptRune (Text.runes s) rest

/-- A key is read as it is written, quoted or not. -/
theorem readKey_propertyKey (key : κ) (rest : List Char) :
    readKey ((propertyKey key).toList ++ ':' :: rest) = some (propertyKey key, ':' :: rest) := by
  by_cases hplain : isPlainKey (Text.shown key)
  · rw [propertyKey, if_pos hplain, String.toList_ofList]
    obtain ⟨⟨c, r, hcr, hstarts⟩, hchars⟩ := isNameChar_of_plainKey hplain
    have hstops : Stops (':' :: rest) := stops_cons (by decide)
    have hword := readWord_append hchars hstops
    have hne : c ≠ '"' := by rintro rfl; exact absurd hstarts (by decide)
    rw [hcr, List.cons_append] at hword ⊢
    rw [readKey, hword]
    exact fun t ht => hne (List.cons.inj ht).1
  · have hkey := toList_scriptLiteral key
    generalize hcontent : (Text.runes key).flatMap Text.scriptRune = content at hkey
    have hread := readLiteral_scriptLiteral key (':' :: rest)
    rw [hcontent] at hread
    have htake : (content ++ '"' :: ':' :: rest).take
        ((content ++ '"' :: ':' :: rest).length - (':' :: rest).length) = content ++ ['"'] := by
      rw [List.append_cons, List.length_append, Nat.add_sub_cancel, List.take_left]
    rw [propertyKey, if_neg hplain, hkey, List.cons_append, List.append_assoc,
      List.singleton_append, readKey, hread, Option.map_some, htake, ← hkey,
      String.ofList_toList]

theorem leads_propertyKey (key : κ) :
    Leads (fun c => c ≠ '\x7d') (propertyKey key).toList := by
  by_cases hplain : isPlainKey (Text.shown key)
  · rw [propertyKey, if_pos hplain, String.toList_ofList]
    obtain ⟨⟨c, r, hcr, hstarts⟩, _⟩ := isNameChar_of_plainKey hplain
    have hne : c ≠ '\x7d' := by rintro rfl; exact absurd hstarts (by decide)
    exact ⟨c, r, hcr, by simpa using hne⟩
  · rw [propertyKey, if_neg hplain]
    exact ⟨'"', _, toList_scriptLiteral key, by decide⟩

theorem readsItem_member (key : κ) {v : Value κ} {s : String} (hv : Recovers v s) {n : Nat}
    (hn : 2 * s.toList.length < n) :
    ReadsItem (readMember (readValue n)) '\x7d' (propertyKey key ++ ":" ++ s).toList
      (propertyKey key, eraseValue propertyKey v) := by
  have hlist : (propertyKey key ++ ":" ++ s).toList
      = (propertyKey key).toList ++ ':' :: s.toList := by
    rw [String.toList_append, String.toList_append, List.append_assoc]
    rfl
  rw [hlist]
  refine ⟨(leads_propertyKey key).append _, fun c rest hc => ?_⟩
  have hcloses : Closes (c :: rest) := by
    rcases hc with rfl | rfl
    · exact closes_cons (by decide)
    · exact closes_cons (by decide)
  rw [List.append_assoc, List.cons_append]
  simp [readMember, readKey_propertyKey, Text.stripLead, hv.whole n _ hn hcloses]

/-- A row that takes `n` steps with its brackets leaves as many for each item in it. -/
theorem row_steps (ss : List String) {left right n : Nat} (hleft : 0 < left) (hright : 0 < right)
    (hn : 2 * (left + (([','].intercalate (ss.map String.toList)).length + right)) ≤ n + 1) :
    (∀ s ∈ ss, 2 * s.toList.length < n) ∧ (ss.map String.toList).length < n := by
  obtain ⟨hitems, hlength⟩ := @length_le_intercalate (ss.map String.toList)
  refine ⟨fun s hs => ?_, by omega⟩
  have := hitems s.toList (List.mem_map_of_mem hs)
  omega

/-- A truth value is read from its word. -/
theorem readOperand_bool (b : Bool) (n : Nat) {rest : List Char} (hrest : Ends rest) :
    readOperand (n + 1) ((if b then "true" else "false").toList ++ rest)
      = some (.bool .none b, rest) := by
  cases b with
  | false =>
    have hword : readWord ("false".toList ++ rest) = ("false".toList, rest) :=
      readWord_append (by decide) hrest.stops
    have hread : readOperand (n + 1) ("false".toList ++ rest)
        = readNamed (readRow (readValue n) ')' n true) ("false".toList ++ rest) :=
      readOperand_word ⟨'f', "alse".toList, rfl, by decide⟩ n
    rw [if_neg (by decide), hread, readNamed, hword]
    rfl
  | true =>
    have hword : readWord ("true".toList ++ rest) = ("true".toList, rest) :=
      readWord_append (by decide) hrest.stops
    have hread : readOperand (n + 1) ("true".toList ++ rest)
        = readNamed (readRow (readValue n) ')' n true) ("true".toList ++ rest) :=
      readOperand_word ⟨'t', "rue".toList, rfl, by decide⟩ n
    rw [if_pos rfl, hread, readNamed, hword]
    rfl

/-- A regular name is read as a name unless an argument list follows. -/
theorem readOperand_name {name : String} (h : IsRegular name) (n : Nat) {rest : List Char}
    (hrest : Ends rest) :
    readOperand (n + 1) (name.toList ++ rest) = some (.name .none name, rest) := by
  have htrue : name ≠ "true" := fun e => h.2 (by rw [e]; decide)
  have hfalse : name ≠ "false" := fun e => h.2 (by rw [e]; decide)
  rw [readOperand_word (isNameChar_of_dotted h.1).1, readNamed, readWord_dotted h.1 hrest.stops]
  simp only [String.ofList_toList, if_neg htrue, if_neg hfalse]
  split
  · exact absurd rfl (hrest '(' rfl).2
  · rfl

/-- A regular name with an argument list is read as a call. -/
theorem readOperand_call {name : String} (h : IsRegular name) {n : Nat} {r rest : List Char}
    {args : List Value} (hargs : readRow (readValue n) ')' n true r = some (args, rest)) :
    readOperand (n + 1) (name.toList ++ '(' :: r) = some (.call .none name args, rest) := by
  have htrue : name ≠ "true" := fun e => h.2 (by rw [e]; decide)
  have hfalse : name ≠ "false" := fun e => h.2 (by rw [e]; decide)
  have hword : readWord (name.toList ++ '(' :: r) = (name.toList, '(' :: r) :=
    readWord_dotted h.1 (stops_cons (by decide))
  rw [readOperand_word (isNameChar_of_dotted h.1).1, readNamed, hword]
  simp only [String.ofList_toList, if_neg htrue, if_neg hfalse, hargs, Option.map_some]

/-! ## One case of a value -/

theorem Recovers.int (p : Pos) (i : Int64) :
    Recovers (.int p i : Value κ) (Text.intText i.toInt) := by
  by_cases hneg : i.toInt < 0
  · have hi : i < 0 := Int64.lt_iff_toInt_lt.mpr hneg
    refine .of_grouped (isGrouped_int.mpr hneg) fun n rest hn hrest => ?_
    obtain ⟨n, rfl⟩ : ∃ m, n = m + 1 := ⟨n - 1, by omega⟩
    have hread := readNumber_repr i.toInt.natAbs hrest.ends
    have habs : -(i.toInt.natAbs : Int) = i.toInt := by omega
    rw [Text.intText_of_neg hneg, String.toList_append, List.append_assoc]
    show readValue (n + 1) ('-' :: ((Nat.repr i.toInt.natAbs).toList ++ rest)) = _
    rw [readValue, hread, habs, Int64.ofInt_toInt, eraseValue, if_pos hi]
  · have hi : ¬ i < 0 := fun h => hneg (Int64.lt_iff_toInt_lt.mp h)
    have hg : isGrouped (.int p i : Value κ) = false := by simpa [isGrouped] using hi
    rw [Text.intText_of_nonneg (Int.not_lt.mp hneg)]
    refine .of_atom hg (leads_repr _) fun n rest _ hrest => ?_
    rw [readOperand_number _ _ hrest, eraseValue, if_neg hi]

theorem Recovers.char (p : Pos) {c : Int32} (hc : RegularValue (.char p c : Value κ)) :
    Recovers (.char p c : Value κ) (Text.scriptLiteral (String.singleton (Text.charOfCode c.toInt))) := by
  refine .of_atom rfl ⟨'"', _, toList_scriptLiteral _, by decide⟩ fun n rest _ hrest => ?_
  rw [toList_scriptLiteral, List.cons_append, List.append_assoc, readOperand,
    List.singleton_append, readLiteral_scriptLiteral, Text.shown_text]
  simp [String.toList_singleton, Text.code_charOfCode hc, eraseValue]

/-- A row that an operand reads behind its opening text is read back when its items are. -/
theorem Recovers.of_row {α : Type} {v : Value κ} {left right : String} {ss : List String}
    (close : Char) {read : Nat → List Char → Option (α × List Char)} {as : List α}
    (hg : isGrouped v = false) (hleft : Leads startsOperand left.toList)
    (hright : right.toList = [close]) (hclose : close ≠ ',')
    (hitems : ∀ {n : Nat}, (∀ s ∈ ss, 2 * s.toList.length < n) →
      List.Forall₂ (ReadsItem (read n) close) (ss.map String.toList) as)
    (hread : ∀ {n : Nat} {r rest : List Char}, readRow (read n) close n true r = some (as, rest) →
      readOperand (n + 1) (left.toList ++ r) = some (eraseValue propertyKey v, rest)) :
    Recovers v (left ++ ",".intercalate ss ++ right) := by
  have hpos : 0 < left.toList.length := by
    obtain ⟨c, r, hcr, _⟩ := hleft
    rw [hcr]
    exact Nat.succ_pos _
  have hlead : Leads startsOperand (left ++ ",".intercalate ss ++ right).toList := by
    rw [toList_row]
    exact hleft.append _
  refine .of_atom hg hlead fun n rest hn _ => ?_
  rw [toList_row, hright] at hn ⊢
  simp only [List.length_append] at hn
  obtain ⟨hbound, hlength⟩ := row_steps ss hpos Nat.one_pos hn
  rw [List.append_assoc, List.append_assoc]
  exact hread (readRow_intercalate hclose (hitems hbound) hlength rest)

theorem Recovers.unary {p : Pos} {op : Operator} {x y : Value κ} {a : String} (hop : op.isUnary)
    (hx : Recovers x a) : Recovers (.operator p op x y) (operatorToken op ++ group x a) := by
  refine .of_grouped rfl fun n rest hn hrest => ?_
  obtain ⟨n, rfl⟩ : ∃ m, n = m + 1 := ⟨n - 1, by omega⟩
  rw [String.toList_append, List.length_append] at hn
  have hread := hx.operand n rest (by omega) hrest.ends
  rw [String.toList_append, List.append_assoc, eraseValue, if_pos hop]
  cases op with
  | not =>
    show readValue (n + 1) ('!' :: ((group x a).toList ++ rest)) = _
    rw [readValue, hread, Option.map_some]
  | bitNot =>
    show readValue (n + 1) ('~' :: ((group x a).toList ++ rest)) = _
    rw [readValue, hread, Option.map_some]
  | _ => cases hop

theorem Recovers.binary {p : Pos} {op : Operator} {x y : Value κ} {a b : String}
    (hop : op.isUnary = false) (hx : Recovers x a) (hy : Recovers y b)
    (hleft : Leads startsOperand (group x a).toList)
    (hright : Leads startsOperand (group y b).toList) :
    Recovers (.operator p op x y) (group x a ++ operatorToken op ++ group y b) := by
  refine .of_grouped rfl fun n rest hn hrest => ?_
  obtain ⟨n, rfl⟩ : ∃ m, n = m + 1 := ⟨n - 1, by omega⟩
  simp only [String.toList_append, List.length_append] at hn
  have hfirst := hx.operand n ((operatorToken op).toList ++ ((group y b).toList ++ rest))
    (by omega) (ends_token op _)
  have hsecond := hy.operand n rest (by omega) hrest.ends
  rw [String.toList_append, String.toList_append, List.append_assoc, List.append_assoc,
    eraseValue, if_neg (by simp [hop]), readValue_leads (hleft.append _), hfirst,
    Option.bind_some, readInfix_token hop (hright.append rest)]
  simp only [hsecond, Option.map_some]

/-! ## Whole values -/

mutual

/-- The script of a value with regular names is read back. -/
theorem recovers_value {scope : Registry} : ∀ {v : Value κ} {s : String},
    value scope v = .ok s → RegularValue v → Recovers v s
  | .absent, _, h, _ => nomatch h
  | .int p i, _, h, _ => by cases h; exact .int p i
  | .uint p k, _, h, _ => by
    cases h
    exact .of_atom rfl (leads_repr _) fun n rest _ hrest => readOperand_number _ _ hrest
  | .byte p b, _, h, _ => by
    cases h
    exact .of_atom rfl (leads_repr _) fun n rest _ hrest => readOperand_number _ _ hrest
  | .char p c, _, h, hr => by
    rw [value] at h
    rw [← Except.ok.inj h]
    exact .char p hr
  | .bool p b, _, h, hr => by
    have hlead := (operandText h hr).leads
    cases h
    exact .of_atom rfl hlead fun n rest _ hrest => readOperand_bool b n hrest
  | .list p elems, _, h, hr => by
    obtain ⟨ss, hss, hs⟩ := Fault.bind_ok h
    cases hs
    refine .of_row ']' rfl ⟨'[', [], rfl, by decide⟩ rfl (by decide)
      (fun hbound => recovers_values hss hr hbound ']' (by decide)) fun {n r rest} hrow => ?_
    show readOperand (n + 1) ('[' :: r) = _
    rw [readOperand, hrow, Option.map_some, eraseValue]
  | .custom p t fields, _, h, hr => by
    obtain ⟨ss, hss, hs⟩ := Fault.bind_ok h
    cases hs
    refine .of_row '\x7d' rfl ⟨'\x7b', [], rfl, by decide⟩ rfl (by decide)
      (fun hbound => recovers_members hss hr hbound) fun {n r rest} hrow => ?_
    show readOperand (n + 1) ('\x7b' :: r) = _
    rw [readOperand, hrow, Option.map_some, eraseValue]
  | .type p t, _, h, _ => nomatch h
  | .name p name, _, h, hr => by
    rw [value] at h
    split at h
    · cases h
      exact .of_atom rfl (leads_dotted hr.1) fun n rest _ hrest => readOperand_name hr n hrest
    · cases h
  | .call p name args, _, h, hr => by
    rw [value] at h
    split at h
    · obtain ⟨ss, hss, hs⟩ := Fault.bind_ok h
      cases hs
      have hlead : Leads startsOperand (name ++ "(").toList := by
        rw [String.toList_append]
        exact (leads_dotted hr.1.1).append _
      refine .of_row ')' rfl hlead rfl (by decide)
        (fun hbound => recovers_values hss hr.2 hbound ')' (by decide)) fun hrow => ?_
      rw [String.toList_append, List.append_assoc]
      exact readOperand_call hr.1 hrow
    · cases h
  | .operator p op x y, _, h, hr => by
    obtain ⟨a, hx, hs⟩ := Fault.bind_ok h
    split at hs
    · rename_i hop
      cases hs
      exact .unary hop (recovers_value hx hr.1)
    · rename_i hop
      obtain ⟨b, hy, hs⟩ := Fault.bind_ok hs
      cases hs
      have hop' : op.isUnary = false := by simpa using hop
      exact .binary hop' (recovers_value hx hr.1) (recovers_value hy (hr.2 hop'))
        (operandText hx hr.1).leads (operandText hy (hr.2 hop')).leads
  | .other p k x y, _, h, _ => nomatch h
termination_by structural v => v

/-- The scripts of values with regular names are read back as items of a row. -/
theorem recovers_values {scope : Registry} : ∀ {vs : List (Value κ)} {ss : List String},
    values scope vs = .ok ss → RegularElems vs → ∀ {n : Nat},
    (∀ s ∈ ss, 2 * s.toList.length < n) → ∀ close ∈ [')', ']'],
    List.Forall₂ (ReadsItem (readValue n) close) (ss.map String.toList) (eraseElems propertyKey vs)
  | [], _, h, _, _, _, _, _ => by
    cases h
    exact .nil
  | v :: vs, _, h, hr, n, hn, close, hclose => by
    obtain ⟨s, hs, h⟩ := Fault.bind_ok h
    obtain ⟨ss, hss, h⟩ := Fault.bind_ok h
    cases h
    refine .cons ?_ ?_
    · exact readsItem_value hs hr.1 (recovers_value hs hr.1) (hn s List.mem_cons_self) hclose
    · exact recovers_values hss hr.2 (fun t ht => hn t (List.mem_cons_of_mem s ht)) close hclose
termination_by structural vs => vs

/-- The scripts of members with regular names are read back as items of a row. -/
theorem recovers_members {scope : Registry} : ∀ {fields : List (κ × Value κ)}
    {ss : List String}, members scope fields = .ok ss → RegularFields fields → ∀ {n : Nat},
    (∀ s ∈ ss, 2 * s.toList.length < n) →
    List.Forall₂ (ReadsItem (readMember (readValue n)) '\x7d') (ss.map String.toList)
      (eraseFields propertyKey fields)
  | [], _, h, _, _, _ => by
    cases h
    exact .nil
  | (key, v) :: fields, _, h, hr, n, hn => by
    obtain ⟨s, hs, h⟩ := Fault.bind_ok h
    obtain ⟨ss, hss, h⟩ := Fault.bind_ok h
    cases h
    refine .cons ?_ ?_
    · have hlength := hn (propertyKey key ++ ":" ++ s) List.mem_cons_self
      rw [String.toList_append, List.length_append] at hlength
      exact readsItem_member key (recovers_value hs hr.1) (by omega)
    · exact recovers_members hss hr.2 fun t ht => hn t (List.mem_cons_of_mem _ ht)
termination_by structural fields => fields

end

end Lowlang.Script
