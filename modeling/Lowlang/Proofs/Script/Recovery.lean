import Lowlang.Proofs.Script.Reader
import Lowlang.Proofs.Script.Work
import Lowlang.Proofs.Text.Encoding
import Mathlib.Logic.Function.Basic

set_option autoImplicit false

/-!
# Recovering blocks from scripts

The script of a block with regular names is read back statement by statement.  No mark stands
behind a closing brace, so where a statement ends is told by the first word of the next one:
only `else` and `elseif` go on with a conditional, and no other statement starts with them.

Main statement: blocks with the same script are the same up to what scripts cannot express.  The
key of a field tells its name, except for what a byte is that is part of no character.
-/

namespace Lowlang.Script

/-! ## First words -/

/-- The words that start a statement or go on with a conditional. -/
def statementWords : List String :=
  ["if", "else", "elseif", "function", "let", "var"]

/-- The word at the front of a text, as it may also be empty. -/
def firstWord (s : List Char) : String :=
  String.ofList (readWord s).1

theorem readWord_mark {c : Char} (h : isNameChar c = false) (r : List Char) :
    readWord (c :: r) = ([], c :: r) := by
  simp [readWord, h]

theorem firstWord_mark {c : Char} (h : isNameChar c = false) (r : List Char) :
    firstWord (c :: r) = "" := by
  rw [firstWord, readWord_mark h]

theorem firstWord_append {w rest : List Char} (hw : ∀ c ∈ w, isNameChar c)
    (hrest : Stops rest) : firstWord (w ++ rest) = String.ofList w := by
  rw [firstWord, readWord_append hw hrest]

/-- The text starts neither with a word of statements nor with a word that is assigned to. -/
structure OpensValue (s : List Char) : Prop where
  word : firstWord s ∉ statementWords
  unassigned : ∀ c r, (readWord s).2 = '=' :: c :: r → c = '='

/-- The text of an operand starts with no word of statements, and behind its first word
stands what follows the operand or an opening mark. -/
structure OpensOperand (s rest : List Char) : Prop where
  word : firstWord (s ++ rest) ∉ statementWords
  behind : (readWord (s ++ rest)).2 = rest ∨
    ∃ c ∈ ['(', '[', '\x7b', '"'], ∃ r, (readWord (s ++ rest)).2 = c :: r

theorem OpensOperand.of_mark {c : Char} (h : c ∈ ['(', '[', '\x7b', '"']) (r rest : List Char) :
    OpensOperand (c :: r) rest := by
  have hmarks : ∀ c ∈ ['(', '[', '\x7b', '"'], isNameChar c = false := by decide
  have hword : readWord (c :: r ++ rest) = ([], c :: (r ++ rest)) := readWord_mark (hmarks c h) _
  refine ⟨?_, Or.inr ⟨c, h, r ++ rest, by rw [hword]⟩⟩
  rw [firstWord, hword]
  show "" ∉ statementWords
  decide

theorem OpensOperand.of_word {w rest : List Char} (hw : ∀ c ∈ w, isNameChar c)
    (hne : String.ofList w ∉ statementWords) (hrest : Stops rest) : OpensOperand w rest := by
  refine ⟨?_, Or.inl ?_⟩
  · rwa [firstWord_append hw hrest]
  · rw [readWord_append hw hrest]

theorem OpensOperand.of_repr (n : Nat) {rest : List Char} (hrest : Stops rest) :
    OpensOperand (Nat.repr n).toList rest := by
  have hdigits : ∀ c ∈ (Nat.repr n).toList, c.isDigit := fun _ hc => Text.isDigit_of_mem_repr hc
  refine .of_word (fun c hc => isNameChar_of_isDigit (hdigits c hc)) (fun hmem => ?_) hrest
  rw [String.ofList_toList] at hmem
  have hwords : ∀ w ∈ statementWords, ∃ c ∈ w.toList, c.isDigit = false := by decide
  obtain ⟨c, hc, hnot⟩ := hwords _ hmem
  rw [hdigits c hc] at hnot
  cases hnot

theorem not_mem_statementWords {name : String} (h : IsRegular name) : name ∉ statementWords := by
  have hsub : ∀ w ∈ statementWords, w ∈ reservedWords := by decide
  exact fun hmem => h.2 (hsub name hmem)

theorem OpensOperand.of_regular {name : String} (h : IsRegular name) {rest : List Char}
    (hrest : Stops rest) : OpensOperand name.toList rest := by
  refine .of_word (isNameChar_of_dotted h.1).2 ?_ hrest
  rw [String.ofList_toList]
  exact not_mem_statementWords h

/-- An operand is not taken for the start of another statement. -/
theorem OperandText.opens {s rest : List Char} (h : OperandText s) (hrest : Ends rest) :
    OpensOperand s rest := by
  cases h with
  | marked hc r => exact .of_mark hc r rest
  | number n => exact .of_repr n hrest.stops
  | truth b =>
    cases b
    · exact .of_word (by decide) (by decide) hrest.stops
    · exact .of_word (by decide) (by decide) hrest.stops
  | name h => exact .of_regular h hrest.stops
  | @called n h r =>
    -- The name is the first word, and the opening mark of its arguments stands behind it.
    obtain ⟨hword, hbehind⟩ : OpensOperand n.toList ('(' :: (r ++ rest)) :=
      .of_regular h (stops_cons (by decide))
    have hlist : n.toList ++ '(' :: r ++ rest = n.toList ++ '(' :: (r ++ rest) := by
      rw [List.append_assoc, List.cons_append]
    rw [← hlist] at hword hbehind
    refine ⟨hword, Or.inr ?_⟩
    rcases hbehind with hbehind | hbehind
    · exact ⟨'(', by decide, _, hbehind⟩
    · exact hbehind

/-- What stands behind an operand is no assignment when what follows it is none. -/
theorem OpensOperand.opensValue {s rest : List Char} (h : OpensOperand s rest)
    (hrest : ∀ c r, rest = '=' :: c :: r → c = '=') : OpensValue (s ++ rest) := by
  have hmarks : ∀ c ∈ ['(', '[', '\x7b', '"'], c ≠ '=' := by decide
  refine ⟨h.word, fun c r hc => ?_⟩
  rcases h.behind with hbehind | ⟨d, hd, t, hbehind⟩
  · exact hrest c r (hbehind.symm.trans hc)
  · rw [hbehind] at hc
    exact absurd (List.cons.inj hc).1 (hmarks d hd)

/-- A value is not taken for the start of another statement. -/
theorem ValueText.opens {s rest : List Char} (h : ValueText s) (hrest : Closes rest) :
    OpensValue (s ++ rest) := by
  cases h with
  | @signed c hc r =>
    -- The first word is empty, and the sign behind it is no assignment.
    have hsigns : ∀ c ∈ ['!', '~', '-'], isNameChar c = false ∧ c ≠ '=' := by decide
    rw [List.cons_append]
    refine ⟨?_, fun d t hd => ?_⟩
    · rw [firstWord_mark (hsigns c hc).1]
      decide
    · rw [readWord_mark (hsigns c hc).1] at hd
      exact absurd (List.cons.inj hd).1 (hsigns c hc).2
  | operand hs =>
    refine (hs.opens hrest.ends).opensValue fun c r hc => ?_
    have hclosing := hrest '=' (by rw [hc]; rfl)
    exact absurd hclosing (by decide)
  | @joined s t op hs ht =>
    rw [List.append_assoc, List.append_assoc]
    refine (hs.opens (ends_token op _)).opensValue fun c r hc => ?_
    cases op <;> first
      | exact absurd (List.cons.inj hc).1 (by decide)
      | exact (List.cons.inj (List.cons.inj hc).2).1.symm

/-! ## Reading one statement -/

/-- A conditional is read part by part. -/
theorem readStmt_branch {n : Nat} {s r r₁ r₂ r₃ : List Char} {test : Value} {body : List Stmt}
    {elifs : List (Value × List Stmt)} {otherwise : Option (List Stmt)}
    (htest : readValue n (s ++ ')' :: '\x7b' :: r) = some (test, ')' :: '\x7b' :: r))
    (hbody : readBlock n r = some (body, '\x7d' :: r₁))
    (helifs : readElifs n r₁ = some (elifs, r₂))
    (hotherwise : readOtherwise n r₂ = some (otherwise, r₃)) :
    readStmt (n + 1) ("if".toList ++ '(' :: (s ++ ')' :: '\x7b' :: r))
      = some (.branch .none test body elifs otherwise, r₃) := by
  have hword : readWord ("if".toList ++ '(' :: (s ++ ')' :: '\x7b' :: r))
      = ("if".toList, '(' :: (s ++ ')' :: '\x7b' :: r)) :=
    readWord_append (by decide) (stops_cons (by decide))
  rw [readStmt, hword]
  simp [Text.stripLead, htest, hbody, helifs, hotherwise]

/-- A function is read part by part. -/
theorem readStmt_function {n : Nat} {name : String} (hname : IsRegular name)
    {r r₁ r₂ : List Char} {params : List (List Char)} {body : List Stmt}
    (hparams : readRow (fun s => some (readWord s)) ')' n true r = some (params, '\x7b' :: r₁))
    (hbody : readBlock n r₁ = some (body, '\x7d' :: r₂)) :
    readStmt (n + 1) ("function".toList ++ ' ' :: (name.toList ++ '(' :: r))
      = some (.function .none name (params.map fun p => ⟨String.ofList p, .null⟩) none body,
        r₂) := by
  have hword : readWord ("function".toList ++ ' ' :: (name.toList ++ '(' :: r))
      = ("function".toList, ' ' :: (name.toList ++ '(' :: r)) :=
    readWord_append (by decide) (stops_cons (by decide))
  have hnext : readWord (name.toList ++ '(' :: r) = (name.toList, '(' :: r) :=
    readWord_dotted hname.1 (stops_cons (by decide))
  rw [readStmt, hword]
  simp [Text.stripLead, hnext, hparams, hbody]

/-- A declaration is read part by part. -/
theorem readStmt_declare {n : Nat} {word name : String} (hword : word = "let" ∨ word = "var")
    (hname : IsRegular name) {r r₁ : List Char} {v : Value}
    (hv : readValue n r = some (v, ';' :: r₁)) :
    readStmt (n + 1) (word.toList ++ ' ' :: (name.toList ++ '=' :: r))
      = some (.declare .none name none v, r₁) := by
  have hchars : ∀ c ∈ word.toList, isNameChar c := by
    rcases hword with rfl | rfl
    · decide
    · decide
  have hfirst : readWord (word.toList ++ ' ' :: (name.toList ++ '=' :: r))
      = (word.toList, ' ' :: (name.toList ++ '=' :: r)) :=
    readWord_append hchars (stops_cons (by decide))
  have hnext : readWord (name.toList ++ '=' :: r) = (name.toList, '=' :: r) :=
    readWord_dotted hname.1 (stops_cons (by decide))
  have hif : word ≠ "if" := by rcases hword with rfl | rfl <;> decide
  have hfunction : word ≠ "function" := by rcases hword with rfl | rfl <;> decide
  rw [readStmt, hfirst]
  simp [Text.stripLead, hnext, hv, hif, hfunction, hword]

/-- A statement that starts with no word of statements assigns or is a value. -/
theorem readStmt_plain {n : Nat} {s : List Char} (h : firstWord s ∉ statementWords) :
    readStmt (n + 1) s =
      match (readWord s).2 with
      | '=' :: c :: t =>
        if c = '=' then readEval n s
        else do
          let (v, r) ← readValue n (c :: t)
          let r ← Text.stripLead [';'] r
          some (.assign .none (firstWord s) v, r)
      | _ => readEval n s := by
  have hif : firstWord s ≠ "if" := fun e => h (by rw [e]; decide)
  have hfunction : firstWord s ≠ "function" := fun e => h (by rw [e]; decide)
  have hlet : firstWord s ≠ "let" := fun e => h (by rw [e]; decide)
  have hvar : firstWord s ≠ "var" := fun e => h (by rw [e]; decide)
  rw [firstWord] at *
  rw [readStmt]
  exact (if_neg hif).trans ((if_neg hfunction).trans (if_neg (not_or.mpr ⟨hlet, hvar⟩)))

/-- An assignment is read part by part. -/
theorem readStmt_assign {n : Nat} {name : String} (hname : IsRegular name) {r r₁ : List Char}
    {v : Value} (hr : Leads (fun c => c ≠ '=') r) (hv : readValue n r = some (v, ';' :: r₁)) :
    readStmt (n + 1) (name.toList ++ '=' :: r) = some (.assign .none name v, r₁) := by
  obtain ⟨c, t, rfl, hc⟩ := hr
  have hword : readWord (name.toList ++ '=' :: c :: t) = (name.toList, '=' :: c :: t) :=
    readWord_dotted hname.1 (stops_cons (by decide))
  have hfirst : firstWord (name.toList ++ '=' :: c :: t) = name := by
    rw [firstWord, hword, String.ofList_toList]
  have hne : c ≠ '=' := by simpa using hc
  rw [readStmt_plain (by rw [hfirst]; exact not_mem_statementWords hname), hword, hfirst]
  simp [hne, hv, Text.stripLead]

/-- A value as a statement is read up to its mark. -/
theorem readStmt_eval {n : Nat} {s r : List Char} {v : Value} (hs : OpensValue s)
    (hv : readValue n s = some (v, ';' :: r)) :
    readStmt (n + 2) s = some (.eval .none v, r) := by
  have heval : readEval (n + 1) s = some (.eval .none v, r) := by
    simp [readEval, hv, Text.stripLead]
  rw [readStmt_plain hs.word]
  split
  · rename_i c t hct
    rw [if_pos (hs.unassigned c t hct), heval]
  · exact heval

/-! ## Blocks are read back -/

/-- No conditional goes on at the front of the text. -/
def Apart (s : List Char) : Prop :=
  firstWord s ∉ ["else", "elseif"]

/-- The text is at its end or closes a block. -/
def Shuts (rest : List Char) : Prop :=
  rest = [] ∨ ∃ r, rest = '\x7d' :: r

theorem Shuts.apart {rest : List Char} (h : Shuts rest) : Apart rest := by
  rcases h with rfl | ⟨r, rfl⟩
  · show "" ∉ ["else", "elseif"]
    decide
  · rw [Apart, firstWord_mark (by decide)]
    decide

theorem apart_of_word {w rest : List Char} (hw : ∀ c ∈ w, isNameChar c) (hrest : Stops rest)
    (hne : String.ofList w ∉ ["else", "elseif"]) : Apart (w ++ rest) := by
  rwa [Apart, firstWord_append hw hrest]

theorem apart_of_regular {name : String} (h : IsRegular name) {rest : List Char}
    (hrest : Stops rest) : Apart (name.toList ++ rest) := by
  have hsub : ∀ w ∈ ["else", "elseif"], w ∈ reservedWords := by decide
  refine apart_of_word (isNameChar_of_dotted h.1).2 hrest ?_
  rw [String.ofList_toList]
  exact fun hmem => h.2 (hsub name hmem)

theorem OpensValue.apart {s : List Char} (h : OpensValue s) : Apart s := by
  have hsub : ∀ w ∈ ["else", "elseif"], w ∈ statementWords := by decide
  exact fun hmem => h.word (hsub _ hmem)

section
variable {κ : Type} [Text.Runes κ]

/-- The script `t` of `s` is read as `s` up to erasure, and is told from what goes on with a
conditional and from the end of a block. -/
structure RecoversStmt (s : Stmt κ) (t : String) : Prop where
  leads : Leads startsValue t.toList
  apart : ∀ rest, Apart (t.toList ++ rest)
  reads : ∀ n rest, 3 * t.toList.length ≤ n → Apart rest →
    readStmt n (t.toList ++ rest) = some (eraseStmt propertyKey s, rest)

/-- The script `t` of `b` is read as `b` up to erasure. -/
structure RecoversBlock (b : List (Stmt κ)) (t : String) : Prop where
  apart : ∀ rest, Shuts rest → Apart (t.toList ++ rest)
  reads : ∀ n rest, 3 * t.toList.length < n → Shuts rest →
    readBlock n (t.toList ++ rest) = some (eraseBlock propertyKey b, rest)

/-- The script `t` of further tests is read back up to erasure. -/
def RecoversElifs (elifs : List (Value κ × List (Stmt κ))) (t : String) : Prop :=
  ∀ n rest, 3 * t.toList.length < n → firstWord rest ≠ "elseif" →
    readElifs n (t.toList ++ rest) = some (eraseElifs propertyKey elifs, rest)

/-- The script `t` of a final branch is read back up to erasure, and is not taken for a
further test. -/
structure RecoversOtherwise (otherwise : Option (List (Stmt κ))) (t : String) : Prop where
  apart : ∀ rest, Apart rest → firstWord (t.toList ++ rest) ≠ "elseif"
  reads : ∀ n rest, 3 * t.toList.length < n → Apart rest →
    readOtherwise n (t.toList ++ rest) = some (eraseOtherwise propertyKey otherwise, rest)

/-- A value is read up to its mark. -/
theorem recovers_closed {scope : Registry} {v : Value κ} {s : String} (h : value scope v = .ok s)
    (hr : RegularValue v) {n : Nat} (hn : 2 * s.toList.length < n) {c : Char}
    (hc : c ∈ [';', ',', ')', ']', '\x7d']) (rest : List Char) :
    readValue n (s.toList ++ c :: rest) = some (eraseValue propertyKey v, c :: rest) :=
  (recovers_value h hr).whole n (c :: rest) hn (closes_cons hc)

/-- The parameters of a function are read back. -/
theorem readRow_params {params : List Param} (h : ∀ p ∈ params, IsRegular p.name) {n : Nat}
    (hn : params.length < n) (rest : List Char) :
    readRow (fun s => some (readWord s)) ')' n true
        ([','].intercalate (params.map fun p => p.name.toList) ++ ')' :: rest)
      = some (params.map fun p => p.name.toList, rest) := by
  have hitems : ∀ ps : List Param, (∀ p ∈ ps, IsRegular p.name) →
      List.Forall₂ (ReadsItem (fun s => some (readWord s)) ')')
        (ps.map fun p => p.name.toList) (ps.map fun p => p.name.toList) := by
    intro ps
    induction ps with
    | nil => exact fun _ => .nil
    | cons p ps ih =>
      intro hps
      have hp := hps p List.mem_cons_self
      refine .cons ⟨?_, fun c rest hc => ?_⟩ (ih fun q hq => hps q (List.mem_cons_of_mem p hq))
      · refine (leads_dotted hp.1).mono fun c hc => ?_
        have hne : c ≠ ')' := by rintro rfl; exact absurd hc (by decide)
        simpa using hne
      · have hstops : Stops (c :: rest) := by
          rcases hc with rfl | rfl
          · exact stops_cons (by decide)
          · exact stops_cons (by decide)
        rw [readWord_dotted hp.1 hstops]
  exact readRow_intercalate (by decide) (hitems params h) (by simpa using hn) rest

theorem declareKeyword_eq (version : Version) :
    version.declareKeyword = "let" ∨ version.declareKeyword = "var" := by
  cases version with
  | es5 => exact Or.inr rfl
  | es6 => exact Or.inl rfl
  | other n =>
    rw [Version.declareKeyword]
    split
    · exact Or.inl rfl
    · exact Or.inr rfl

theorem RecoversStmt.eval {scope : Registry} {p : Pos} {v : Value κ} {s : String}
    (h : value scope v = .ok s) (hr : RegularValue v) : RecoversStmt (.eval p v) (s ++ ";") := by
  have hlist : ∀ rest, (s ++ ";").toList ++ rest = s.toList ++ ';' :: rest := fun rest => by
    rw [String.toList_append, List.append_assoc]
    rfl
  have hopens : ∀ rest, OpensValue (s.toList ++ ';' :: rest) := fun rest =>
    (valueText h hr).opens (closes_cons (by decide))
  refine ⟨?_, fun rest => ?_, fun n rest hn _ => ?_⟩
  · rw [String.toList_append]
    exact (valueText h hr).leads.append _
  · rw [hlist]
    exact (hopens rest).apart
  · rw [String.toList_append, List.length_append] at hn
    have hmark : (";" : String).toList.length = 1 := rfl
    obtain ⟨n, rfl⟩ : ∃ m, n = m + 2 := ⟨n - 2, by omega⟩
    rw [hlist, eraseStmt]
    exact readStmt_eval (hopens rest) (recovers_closed h hr (by omega) (by decide) rest)

theorem RecoversStmt.declare {scope : Registry} {p : Pos} {word name : String} {t : Option Ty}
    {v : Value κ} {s : String} (hword : word = "let" ∨ word = "var") (hname : IsRegular name)
    (h : value scope v = .ok s) (hr : RegularValue v) :
    RecoversStmt (.declare p name t v) (word ++ " " ++ name ++ "=" ++ s ++ ";") := by
  have hlist : ∀ rest, (word ++ " " ++ name ++ "=" ++ s ++ ";").toList ++ rest
      = word.toList ++ ' ' :: (name.toList ++ '=' :: (s.toList ++ ';' :: rest)) := fun rest => by
    simp only [String.toList_append, List.append_assoc]
    rfl
  refine ⟨?_, fun rest => ?_, fun n rest hn _ => ?_⟩
  · simp only [String.toList_append, List.append_assoc]
    refine Leads.append ?_ _
    rcases hword with rfl | rfl
    · exact ⟨'l', _, rfl, by decide⟩
    · exact ⟨'v', _, rfl, by decide⟩
  · rw [hlist]
    refine apart_of_word ?_ (stops_cons (by decide)) ?_
    · rcases hword with rfl | rfl <;> decide
    · rw [String.ofList_toList]
      rcases hword with rfl | rfl <;> decide
  · simp only [String.toList_append, List.length_append] at hn
    have hmark : (";" : String).toList.length = 1 := rfl
    obtain ⟨n, rfl⟩ : ∃ m, n = m + 1 := ⟨n - 1, by omega⟩
    rw [hlist, eraseStmt]
    exact readStmt_declare hword hname (recovers_closed h hr (by omega) (by decide) rest)

theorem RecoversStmt.assign {scope : Registry} {p : Pos} {name : String} {v : Value κ} {s : String}
    (hname : IsRegular name) (h : value scope v = .ok s) (hr : RegularValue v) :
    RecoversStmt (.assign p name v) (name ++ "=" ++ s ++ ";") := by
  have hlist : ∀ rest, (name ++ "=" ++ s ++ ";").toList ++ rest
      = name.toList ++ '=' :: (s.toList ++ ';' :: rest) := fun rest => by
    simp only [String.toList_append, List.append_assoc]
    rfl
  refine ⟨?_, fun rest => ?_, fun n rest hn _ => ?_⟩
  · simp only [String.toList_append, List.append_assoc]
    exact ((leads_dotted hname.1).mono fun c hc => by simp [startsValue, hc]).append _
  · rw [hlist]
    exact apart_of_regular hname (stops_cons (by decide))
  · simp only [String.toList_append, List.length_append] at hn
    have hmark : (";" : String).toList.length = 1 := rfl
    obtain ⟨n, rfl⟩ : ∃ m, n = m + 1 := ⟨n - 1, by omega⟩
    rw [hlist, eraseStmt]
    refine readStmt_assign hname ?_ (recovers_closed h hr (by omega) (by decide) rest)
    refine ((valueText h hr).leads.mono fun c hc => ?_).append _
    have hne : c ≠ '=' := by rintro rfl; exact absurd hc (by decide)
    simpa using hne

theorem RecoversStmt.function {p : Pos} {name : String} {params : List Param} {result : Option Ty}
    {body : List (Stmt κ)} {s : String} (hname : IsRegular name)
    (hparams : ∀ p ∈ params, IsRegular p.name) (hbody : RecoversBlock body s) :
    RecoversStmt (.function p name params result body)
      ("function " ++ name ++ "(" ++ ",".intercalate (params.map Param.name) ++ ")\x7b" ++ s
        ++ "\x7d") := by
  have hnames : (",".intercalate (params.map Param.name)).toList
      = [','].intercalate (params.map fun p => p.name.toList) := by
    rw [String.toList_intercalate, List.map_map]
    rfl
  have hlist : ∀ rest, ("function " ++ name ++ "(" ++ ",".intercalate (params.map Param.name)
        ++ ")\x7b" ++ s ++ "\x7d").toList ++ rest
      = "function".toList ++ ' ' :: (name.toList ++ '(' ::
        ([','].intercalate (params.map fun p => p.name.toList) ++ ')' ::
          ('\x7b' :: (s.toList ++ '\x7d' :: rest)))) := fun rest => by
    simp only [String.toList_append, List.append_assoc, hnames]
    rfl
  refine ⟨?_, fun rest => ?_, fun n rest hn _ => ?_⟩
  · simp only [String.toList_append, List.append_assoc]
    exact ⟨'f', _, rfl, by decide⟩
  · rw [hlist]
    exact apart_of_word (by decide) (stops_cons (by decide)) (by decide)
  · simp only [String.toList_append, List.length_append, hnames] at hn
    have hword : ("function " : String).toList.length = 9 := rfl
    have hcount := (@length_le_intercalate (params.map fun p => p.name.toList)).2
    rw [List.length_map] at hcount
    obtain ⟨n, rfl⟩ : ∃ m, n = m + 1 := ⟨n - 1, by omega⟩
    have hread := readStmt_function hname
      (readRow_params hparams (by omega) ('\x7b' :: (s.toList ++ '\x7d' :: rest)))
      (hbody.reads n ('\x7d' :: rest) (by omega) (Or.inr ⟨rest, rfl⟩))
    have herase : (params.map fun p => p.name.toList).map (fun p => ⟨String.ofList p, .null⟩)
        = params.map eraseParam := by
      rw [List.map_map]
      refine List.map_congr_left fun p _ => ?_
      rw [Function.comp_apply, String.ofList_toList, eraseParam]
    rw [hlist, hread, herase, eraseStmt]

theorem RecoversStmt.branch {scope : Registry} {p : Pos} {test : Value κ} {body : List (Stmt κ)}
    {elifs : List (Value κ × List (Stmt κ))} {otherwise : Option (List (Stmt κ))}
    {t s more last : String} (h : value scope test = .ok t) (hr : RegularValue test)
    (hbody : RecoversBlock body s) (helifs : RecoversElifs elifs more)
    (hotherwise : RecoversOtherwise otherwise last) :
    RecoversStmt (.branch p test body elifs otherwise)
      ("if(" ++ t ++ ")\x7b" ++ s ++ "\x7d" ++ more ++ last) := by
  have hlist : ∀ rest, ("if(" ++ t ++ ")\x7b" ++ s ++ "\x7d" ++ more ++ last).toList ++ rest
      = "if".toList ++ '(' :: (t.toList ++ ')' :: '\x7b' ::
        (s.toList ++ '\x7d' :: (more.toList ++ (last.toList ++ rest)))) := fun rest => by
    simp only [String.toList_append, List.append_assoc]
    rfl
  refine ⟨?_, fun rest => ?_, fun n rest hn hrest => ?_⟩
  · simp only [String.toList_append, List.append_assoc]
    exact ⟨'i', _, rfl, by decide⟩
  · rw [hlist]
    exact apart_of_word (by decide) (stops_cons (by decide)) (by decide)
  · simp only [String.toList_append, List.length_append] at hn
    have hword : ("if(" : String).toList.length = 3 := rfl
    obtain ⟨n, rfl⟩ : ∃ m, n = m + 1 := ⟨n - 1, by omega⟩
    rw [hlist, eraseStmt]
    exact readStmt_branch (recovers_closed h hr (by omega) (by decide) _)
      (hbody.reads n _ (by omega) (Or.inr ⟨_, rfl⟩))
      (helifs n _ (by omega) (hotherwise.apart rest hrest))
      (hotherwise.reads n rest (by omega) hrest)

theorem RecoversBlock.nil : RecoversBlock ([] : List (Stmt κ)) "" := by
  refine ⟨fun rest hrest => hrest.apart, fun n rest hn hrest => ?_⟩
  obtain ⟨n, rfl⟩ : ∃ m, n = m + 1 := ⟨n - 1, by omega⟩
  rcases hrest with rfl | ⟨r, rfl⟩
  · rfl
  · rfl

theorem RecoversBlock.cons {s : Stmt κ} {ss : List (Stmt κ)} {t u : String} (hs : RecoversStmt s t)
    (hss : RecoversBlock ss u) : RecoversBlock (s :: ss) (t ++ u) := by
  have hlist : ∀ rest, (t ++ u).toList ++ rest = t.toList ++ (u.toList ++ rest) := fun rest => by
    rw [String.toList_append, List.append_assoc]
  refine ⟨fun rest _ => ?_, fun n rest hn hrest => ?_⟩
  · rw [hlist]
    exact hs.apart _
  · rw [String.toList_append, List.length_append] at hn
    obtain ⟨n, rfl⟩ : ∃ m, n = m + 1 := ⟨n - 1, by omega⟩
    obtain ⟨c, r, hcr, hc⟩ := hs.leads
    have hpos : 0 < t.toList.length := by
      rw [hcr]
      exact Nat.succ_pos _
    have hfirst := hs.reads n (u.toList ++ rest) (by omega) (hss.apart rest hrest)
    have hmore := hss.reads n rest (by omega) hrest
    have hne : c ≠ '\x7d' := by rintro rfl; exact absurd hc (by decide)
    rw [hlist, eraseBlock]
    rw [hcr, List.cons_append] at hfirst ⊢
    rw [readBlock]
    · simp [hfirst, hmore]
    · exact fun h => nomatch h
    · exact fun t ht => hne (List.cons.inj ht).1

theorem RecoversElifs.nil : RecoversElifs ([] : List (Value κ × List (Stmt κ))) "" := by
  intro n rest hn hrest
  obtain ⟨n, rfl⟩ : ∃ m, n = m + 1 := ⟨n - 1, by omega⟩
  rw [firstWord] at hrest
  show readElifs (n + 1) rest = _
  rw [readElifs, if_neg hrest, eraseElifs]

theorem RecoversElifs.cons {scope : Registry} {test : Value κ} {body : List (Stmt κ)}
    {elifs : List (Value κ × List (Stmt κ))} {t s more : String} (h : value scope test = .ok t)
    (hr : RegularValue test) (hbody : RecoversBlock body s) (helifs : RecoversElifs elifs more) :
    RecoversElifs ((test, body) :: elifs) ("elseif(" ++ t ++ ")\x7b" ++ s ++ "\x7d" ++ more) := by
  intro n rest hn hrest
  have hlist : ("elseif(" ++ t ++ ")\x7b" ++ s ++ "\x7d" ++ more).toList ++ rest
      = "elseif".toList ++ '(' :: (t.toList ++ ')' :: '\x7b' ::
        (s.toList ++ '\x7d' :: (more.toList ++ rest))) := by
    simp only [String.toList_append, List.append_assoc]
    rfl
  simp only [String.toList_append, List.length_append] at hn
  have hlength : ("elseif(" : String).toList.length = 7 := rfl
  obtain ⟨n, rfl⟩ : ∃ m, n = m + 1 := ⟨n - 1, by omega⟩
  have hword : readWord ("elseif".toList ++ '(' :: (t.toList ++ ')' :: '\x7b' ::
      (s.toList ++ '\x7d' :: (more.toList ++ rest)))) = ("elseif".toList, _) :=
    readWord_append (by decide) (stops_cons (by decide))
  have htest := recovers_closed h hr (n := n) (by omega) (c := ')') (by decide)
    ('\x7b' :: (s.toList ++ '\x7d' :: (more.toList ++ rest)))
  have hblock := hbody.reads n ('\x7d' :: (more.toList ++ rest)) (by omega) (Or.inr ⟨_, rfl⟩)
  have hmore := helifs n rest (by omega) hrest
  rw [hlist, readElifs, hword, eraseElifs]
  simp [Text.stripLead, htest, hblock, hmore]

theorem RecoversOtherwise.none :
    RecoversOtherwise (none : Option (List (Stmt κ))) "" := by
  refine ⟨fun rest hrest heq => hrest (by rw [← heq]; simp), fun n rest hn hrest => ?_⟩
  obtain ⟨n, rfl⟩ : ∃ m, n = m + 1 := ⟨n - 1, by omega⟩
  have hne : firstWord rest ≠ "else" := fun heq => hrest (by rw [heq]; decide)
  rw [firstWord] at hne
  show readOtherwise (n + 1) rest = _
  rw [readOtherwise, if_neg hne, eraseOtherwise]

theorem RecoversOtherwise.some {body : List (Stmt κ)} {s : String} (hbody : RecoversBlock body s) :
    RecoversOtherwise (some body) ("else\x7b" ++ s ++ "\x7d") := by
  have hlist : ∀ rest, ("else\x7b" ++ s ++ "\x7d").toList ++ rest
      = "else".toList ++ '\x7b' :: (s.toList ++ '\x7d' :: rest) := fun rest => by
    simp only [String.toList_append, List.append_assoc]
    rfl
  have hword : ∀ rest, readWord ("else".toList ++ '\x7b' :: (s.toList ++ '\x7d' :: rest))
      = ("else".toList, '\x7b' :: (s.toList ++ '\x7d' :: rest)) := fun rest =>
    readWord_append (by decide) (stops_cons (by decide))
  refine ⟨fun rest _ => ?_, fun n rest hn hrest => ?_⟩
  · rw [hlist, firstWord, hword]
    show "else" ≠ "elseif"
    decide
  · simp only [String.toList_append, List.length_append] at hn
    have hlength : ("else\x7b" : String).toList.length = 5 := rfl
    obtain ⟨n, rfl⟩ : ∃ m, n = m + 1 := ⟨n - 1, by omega⟩
    have hblock := hbody.reads n ('\x7d' :: rest) (by omega) (Or.inr ⟨_, rfl⟩)
    rw [hlist, readOtherwise, hword, eraseOtherwise]
    simp [Text.stripLead, hblock]

mutual

/-- The script of a statement with regular names is read back. -/
theorem recovers_statement {cfg : Settings} {depth : Nat} {scope outer : Registry} :
    ∀ {s : Stmt κ} {t : String}, Gives (statement cfg depth scope s) (t, outer) →
      RegularStmt s → RecoversStmt s t
  | .absent, _, h, _ => absurd h Gives.not_throw
  | .eval _ v, _, h, hr => by
    obtain ⟨s, hs, h⟩ := h.bind
    cases h.ret
    exact .eval hs.lift hr
  | .declare _ n _ v, _, h, hr => by
    obtain ⟨s, hs, h⟩ := h.bind
    obtain ⟨_, _, h⟩ := h.bind
    cases h.ret
    exact .declare (declareKeyword_eq cfg.version) hr.1 hs.lift hr.2
  | .assign p n v, _, h, hr => by
    rw [statement] at h
    split at h
    · obtain ⟨s, hs, h⟩ := h.bind
      cases h.ret
      exact .assign hr.1 hs.lift hr.2
    · exact absurd h Gives.not_throw
  | .function _ n params _ body, _, h, hr => by
    obtain ⟨_, _, h⟩ := h.bind
    obtain ⟨inner, _, h⟩ := h.bind
    obtain ⟨_, _, h⟩ := h.bind
    obtain ⟨s, hs, h⟩ := h.bind
    cases h.ret
    exact .function hr.1 hr.2.1 (recovers_statements hs hr.2.2)
  | .branch _ test body elifs otherwise, _, h, hr => by
    obtain ⟨t, ht, h⟩ := h.bind
    obtain ⟨_, _, h⟩ := h.bind
    obtain ⟨s, hs, h⟩ := h.bind
    obtain ⟨more, hmore, h⟩ := h.bind
    obtain ⟨last, hlast, h⟩ := h.bind
    cases h.ret
    exact .branch ht.lift hr.1 (recovers_statements hs hr.2.1)
      (recovers_furtherTests hmore hr.2.2.1) (recovers_finalBranch hlast hr.2.2.2)
  | .other _ _, _, h, _ => absurd h Gives.not_throw
termination_by structural s => s

/-- The script of a block with regular names is read back. -/
theorem recovers_statements {cfg : Settings} {depth : Nat} {scope : Registry} :
    ∀ {ss : List (Stmt κ)} {t : String}, Gives (statements cfg depth scope ss) t →
      RegularBlock ss → RecoversBlock ss t
  | [], _, h, _ => by
    cases h.ret
    exact .nil
  | s :: ss, _, h, hr => by
    obtain ⟨a, outer, b, ha, hb, rfl⟩ := h.statements_cons
    exact .cons (recovers_statement ha hr.1) (recovers_statements hb hr.2)
termination_by structural ss => ss

/-- The script of further tests with regular names is read back. -/
theorem recovers_furtherTests {cfg : Settings} {depth : Nat} {scope : Registry} {pos : Pos} :
    ∀ {elifs : List (Value κ × List (Stmt κ))} {t : String},
      Gives (furtherTests cfg depth scope pos elifs) t → RegularElifs elifs →
      RecoversElifs elifs t
  | [], _, h, _ => by
    cases h.ret
    exact .nil
  | (test, body) :: rest, _, h, hr => by
    obtain ⟨t, ht, h⟩ := h.bind
    obtain ⟨_, _, h⟩ := h.bind
    obtain ⟨s, hs, h⟩ := h.bind
    obtain ⟨more, hmore, h⟩ := h.bind
    cases h.ret
    exact .cons ht.lift hr.1 (recovers_statements hs hr.2.1) (recovers_furtherTests hmore hr.2.2)
termination_by structural elifs => elifs

/-- The script of a final branch with regular names is read back. -/
theorem recovers_finalBranch {cfg : Settings} {depth : Nat} {scope : Registry} {pos : Pos} :
    ∀ {otherwise : Option (List (Stmt κ))} {t : String},
      Gives (finalBranch cfg depth scope pos otherwise) t → RegularOtherwise otherwise →
      RecoversOtherwise otherwise t
  | none, _, h, _ => by
    cases h.ret
    exact .none
  | some body, _, h, hr => by
    obtain ⟨_, _, h⟩ := h.bind
    obtain ⟨s, hs, h⟩ := h.bind
    cases h.ret
    exact .some (recovers_statements hs hr)
termination_by structural otherwise => otherwise

end

end

/-! ## Keys -/

section
variable {κ : Type} [Text.Runes κ]

theorem isNameChar_replacement : isNameChar '\ufffd' = false := by
  have hletter : Text.isLetter '\ufffd' = false :=
    (if_neg (by decide)).trans (Text.inRanges_of_outside (by decide +kernel))
  have hdigit : Text.isDigit '\ufffd' = false :=
    (if_neg (by decide)).trans (Text.inRanges_of_outside (by decide +kernel))
  rw [isNameChar, isPlainKey.starts, hletter, hdigit]
  decide

/-- A name with a byte that is part of no character stands between quotes. -/
theorem not_isPlainKey_of_stray {n : κ} (h : none ∈ Text.runes n) :
    ¬ isPlainKey (Text.shown n) := by
  intro hplain
  have hmem : '\ufffd' ∈ Text.shown n := List.mem_map.mpr ⟨none, h, rfl⟩
  have hchar := (isNameChar_of_plainKey hplain).2 _ hmem
  rw [isNameChar_replacement] at hchar
  cases hchar

/-- A key without quotes is that of a name of characters only. -/
theorem runes_eq_of_plainKey {n : κ} (h : isPlainKey (Text.shown n)) :
    Text.runes n = (Text.shown n).map some := by
  rw [Text.shown, List.map_map]
  refine (List.map_id _).symm.trans (List.map_congr_left fun u hu => ?_)
  cases u with
  | some c => rfl
  | none => exact absurd h (not_isPlainKey_of_stray hu)

/-- Only a key between quotes starts with one. -/
theorem propertyKey_ne_of_plainKey {m n : κ} (hm : isPlainKey (Text.shown m))
    (hn : ¬ isPlainKey (Text.shown n)) : propertyKey m ≠ propertyKey n := by
  intro h
  obtain ⟨⟨c, r, hcr, hstarts⟩, _⟩ := isNameChar_of_plainKey hm
  rw [propertyKey, if_pos hm, propertyKey, if_neg hn, ← String.toList_inj, String.toList_ofList,
    hcr, toList_scriptLiteral] at h
  rw [(List.cons.inj h).1] at hstarts
  exact absurd hstarts (by decide)

/-- Names with the same key have the same runes. -/
theorem runes_eq_of_propertyKey_eq {m n : κ} (h : propertyKey m = propertyKey n) :
    Text.runes m = Text.runes n := by
  by_cases hm : isPlainKey (Text.shown m)
  · by_cases hn : isPlainKey (Text.shown n)
    · rw [propertyKey, if_pos hm, propertyKey, if_pos hn] at h
      rw [runes_eq_of_plainKey hm, runes_eq_of_plainKey hn, String.ofList_injective h]
    · exact absurd h (propertyKey_ne_of_plainKey hm hn)
  · by_cases hn : isPlainKey (Text.shown n)
    · exact absurd h.symm (propertyKey_ne_of_plainKey hn hm)
    · rw [propertyKey, if_neg hm, propertyKey, if_neg hn, ← String.toList_inj,
        toList_scriptLiteral, toList_scriptLiteral] at h
      exact Text.flatMap_scriptRune_inj (List.append_cancel_right (List.cons.inj h).2)

end

/-! ## Main statement -/

/-- The block a script is read as, with the keys of fields as they are written. -/
def readScript (script : String) : Option Block :=
  (readBlock (3 * script.toList.length + 1) script.toList).map Prod.fst

section
variable {κ : Type} [Text.Runes κ]

/-- The script of a block with regular names is read as the block, up to what scripts cannot
express. -/
theorem readScript_compile {cfg : Settings} {scope : Registry} {b : Block κ} {script : String}
    (h : compile cfg scope b = .ok script) (hr : RegularBlock b) :
    readScript script = some (eraseBlock propertyKey b) := by
  have hgives : Gives (statements cfg 0 scope b) script := ⟨{}, h⟩
  have hread := (recovers_statements hgives hr).reads _ [] (Nat.lt_succ_self _) (Or.inl rfl)
  rw [List.append_nil] at hread
  rw [readScript, hread, Option.map_some]

/-- Blocks with regular names and the same script are the same up to what scripts cannot
express, when nothing is kept of the names of fields that is not kept of their runes. -/
theorem eraseBlock_eq_of_factorsThrough {ε : Type} [Nonempty ε] {keep : κ → ε}
    (hkeep : keep.FactorsThrough Text.runes) {cfg cfg' : Settings} {scope scope' : Registry}
    {b c : Block κ} {script : String} (hb : RegularBlock b) (hc : RegularBlock c)
    (hscript : compile cfg scope b = .ok script) (hscript' : compile cfg' scope' c = .ok script) :
    eraseBlock keep b = eraseBlock keep c := by
  have hkey : keep.FactorsThrough propertyKey := fun m n h =>
    hkeep (runes_eq_of_propertyKey_eq h)
  obtain ⟨e, rfl⟩ := (Function.factorsThrough_iff keep).mp hkey
  have hread := readScript_compile hscript hb
  rw [readScript_compile hscript' hc, Option.some_inj] at hread
  rw [← eraseBlock_eraseBlock, ← eraseBlock_eraseBlock, hread]

end

/-- The fields in the block are named by texts. -/
def HasTextFields (b : Block Text.ByteString) : Prop :=
  ∃ b' : Block, eraseBlock Text.ByteString.ofText b' = eraseBlock id b

/-- Names that are texts have no byte to mark. -/
theorem HasTextFields.eraseBlock_marked {b : Block Text.ByteString} (h : HasTextFields b) :
    eraseBlock Text.ByteString.marked b = eraseBlock id b := by
  obtain ⟨b', hb'⟩ := h
  have hmarked : Text.ByteString.marked ∘ Text.ByteString.ofText = Text.ByteString.ofText :=
    funext Text.ByteString.marked_ofText
  calc eraseBlock Text.ByteString.marked b
      = eraseBlock Text.ByteString.marked (eraseBlock id b) := by
        rw [eraseBlock_eraseBlock, Function.comp_id]
    _ = eraseBlock Text.ByteString.ofText b' := by
        rw [← hb', eraseBlock_eraseBlock, hmarked]
    _ = eraseBlock id b := hb'

/-- Blocks with regular names and the same script are the same up to what scripts cannot express,
whatever names were declared before them and whatever settings they were lowered with.  Of the
names of fields, a script does not tell what a byte is that is part of no character, and nothing
else is lost. -/
theorem eraseBlock_eq_of_compile_eq {cfg cfg' : Settings} {scope scope' : Registry}
    {b c : Block Text.ByteString} {script : String} (hb : RegularBlock b) (hc : RegularBlock c)
    (hscript : compile cfg scope b = .ok script) (hscript' : compile cfg' scope' c = .ok script) :
    eraseBlock Text.ByteString.marked b = eraseBlock Text.ByteString.marked c ∧
      (HasTextFields b → HasTextFields c → eraseBlock id b = eraseBlock id c) := by
  have hmarked : eraseBlock Text.ByteString.marked b = eraseBlock Text.ByteString.marked c :=
    eraseBlock_eq_of_factorsThrough Text.ByteString.marked_factorsThrough hb hc hscript hscript'
  refine ⟨hmarked, fun hbtext hctext => ?_⟩
  rwa [hbtext.eraseBlock_marked, hctext.eraseBlock_marked] at hmarked

/-- Kinds of numbers, types and a second operand that is not used leave no trace. -/
theorem eraseBlock_eq_of_branch_script :
    let b : Block Text.ByteString := [.branch ⟨"a", 1, 1⟩
      (.operator .none .less (.operator .none .sub (.int .none 1) (.int .none (-2)))
        (.operator .none .bitNot (.byte .none 3) .absent))
      [.declare ⟨"a", 2, 3⟩ "x.y" (some .null)
        (.custom .none none [(⟨[107, 32, 0xC3, 0xA9]⟩, .char .none 34)])]
      [] (some [])]
    let c : Block Text.ByteString := [.branch .none
      (.operator .none .less (.operator .none .sub (.uint .none 1) (.int .none (-2)))
        (.operator .none .bitNot (.int .none 3) (.bool .none true)))
      [.declare .none "x.y" none
        (.custom .none (some .null) [(⟨[107, 32, 0xC3, 0xA9]⟩, .char .none 34)])]
      [] (some [])]
    RegularBlock b ∧ RegularBlock c ∧ HasTextFields b ∧ HasTextFields c ∧
      compile {} .empty b = compile {} .empty c ∧ eraseBlock id b = eraseBlock id c := by
  intro b c
  have hname : IsRegular "x.y" := ⟨⟨["x", "y"], by decide, by decide, rfl⟩, by decide⟩
  have hb : RegularBlock b :=
    ⟨⟨⟨⟨trivial, fun _ => trivial⟩, fun _ => ⟨trivial, fun h => nomatch h⟩⟩,
      ⟨⟨hname, ⟨by decide, by decide⟩, trivial⟩, trivial⟩, trivial, trivial⟩, trivial⟩
  have hc : RegularBlock c :=
    ⟨⟨⟨⟨trivial, fun _ => trivial⟩, fun _ => ⟨trivial, fun h => nomatch h⟩⟩,
      ⟨⟨hname, ⟨by decide, by decide⟩, trivial⟩, trivial⟩, trivial, trivial⟩, trivial⟩
  let t : Block := [.branch .none
    (.operator .none .less (.operator .none .sub (.int .none 1) (.int .none (-2)))
      (.operator .none .bitNot (.int .none 3) .absent))
    [.declare .none "x.y" none (.custom .none none [("k é", .char .none 34)])] [] (some [])]
  have hbtext : HasTextFields b := ⟨t, rfl⟩
  have hctext : HasTextFields c := ⟨t, rfl⟩
  have hscript : compile {} .empty b
      = .ok "if((1-(-2))<(~3))\x7blet x.y=\x7b\"k é\":\"\\\"\"\x7d;\x7delse\x7b\x7d" := by rfl
  have hscript' : compile {} .empty c
      = .ok "if((1-(-2))<(~3))\x7blet x.y=\x7b\"k é\":\"\\\"\"\x7d;\x7delse\x7b\x7d" := by rfl
  exact ⟨hb, hc, hbtext, hctext, hscript.trans hscript'.symm,
    (eraseBlock_eq_of_compile_eq hb hc hscript hscript').2 hbtext hctext⟩

/-- The bytes `0xFF` and `0xFE` are part of no character, and the fields they name are written
alike. -/
theorem compile_conflates_stray_bytes :
    let b : Block Text.ByteString := [.eval .none (.custom .none none [(⟨[0xFF]⟩, .int .none 1)])]
    let c : Block Text.ByteString := [.eval .none (.custom .none none [(⟨[0xFE]⟩, .int .none 1)])]
    RegularBlock b ∧ RegularBlock c ∧
      compile {} .empty b = .ok "\x7b\"\\ufffd\":1\x7d;" ∧
      compile {} .empty c = .ok "\x7b\"\\ufffd\":1\x7d;" ∧
      eraseBlock id b ≠ eraseBlock id c := by
  intro b c
  have hcompile : ∀ n : Text.ByteString, Text.runes n = [none] →
      compile {} .empty [.eval .none (.custom .none none [(n, .int .none 1)])]
        = .ok "\x7b\"\\ufffd\":1\x7d;" := by
    intro n hn
    have hquoted : ¬ isPlainKey (Text.shown n) :=
      not_isPlainKey_of_stray (by rw [hn]; exact List.mem_singleton_self none)
    have hkey : propertyKey n = "\"\\ufffd\"" := by
      rw [propertyKey, if_neg hquoted, Text.scriptLiteral, hn]
      rfl
    show Except.ok ("\x7b" ++ ",".intercalate [propertyKey n ++ ":" ++ "1"] ++ "\x7d" ++ ";" ++ "")
      = _
    rw [hkey]
    rfl
  refine ⟨⟨⟨trivial, trivial⟩, trivial⟩, ⟨⟨trivial, trivial⟩, trivial⟩,
    hcompile _ (by decide +kernel), hcompile _ (by decide +kernel), ?_⟩
  simp [b, c, eraseBlock, eraseStmt, eraseValue, eraseFields]

end Lowlang.Script
