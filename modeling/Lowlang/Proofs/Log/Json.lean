import Lowlang.Config.Json
import Lowlang.Proofs.Text.Literal

set_option autoImplicit false

/-!
# JSON texts

What a JSON text says, as a relation between a value, a text that begins with it and what is left
of the text.  Nothing here follows a reader or a writer: blanks may stand around every part, a
character may be spelled in each of its ways, and a number is any number.

A text that is JSON can be scanned by three places alone, outside of strings, inside of one and
behind a backslash, and at no place behind a backslash is there a character that is no mark.  So one
such character shows that a text is no JSON, whatever surrounds it.

Main statement: `scan_of_reads`, what is taken off the front of a text to read a value scans.
-/

namespace Lowlang.Log

/-- A JSON value.  Numbers are kept as they are spelled. -/
inductive Json where
  | null
  | bool (b : Bool)
  | number (digits : String)
  | string (s : String)
  | array (items : List Json)
  | object (members : List (String × Json))
  deriving Repr, Inhabited

namespace Json

mutual

/-- The strings in a value, the names of members among them. -/
def texts : Json → List String
  | .string s => [s]
  | .array items => itemTexts items
  | .object members => memberTexts members
  | .null | .bool _ | .number _ => []

/-- The strings in the items of an array. -/
def itemTexts : List Json → List String
  | [] => []
  | j :: js => j.texts ++ itemTexts js

/-- The strings in the members of an object. -/
def memberTexts : List (String × Json) → List String
  | [] => []
  | (k, j) :: ms => k :: j.texts ++ memberTexts ms

end

/-! ## The grammar -/

/-- The blanks between the parts of a text. -/
def IsBlank (c : Char) : Prop :=
  c = ' ' ∨ c = '\t' ∨ c = '\n' ∨ c = '\r'

/-- There are only blanks ahead of the rest. -/
def Blanks (s rest : List Char) : Prop :=
  ∃ blanks, (∀ c ∈ blanks, IsBlank c) ∧ s = blanks ++ rest

theorem Blanks.refl (s : List Char) : Blanks s s :=
  ⟨[], nofun, rfl⟩

/-- At least one digit, and nothing else. -/
def Digits (s : List Char) : Prop :=
  s ≠ [] ∧ ∀ c ∈ s, c.isDigit

/-- A number by the parts of its spelling. -/
structure Numeral where
  sign : List Char
  whole : List Char
  fraction : List Char
  exponent : List Char
  sign_mem : sign ∈ [[], ['-']]
  digits_whole : Digits whole
  /-- No zero leads. -/
  whole_of_zero : whole.head? = some '0' → whole = ['0']
  digits_fraction : fraction ≠ [] → ∃ ds, Digits ds ∧ fraction = '.' :: ds
  digits_exponent : exponent ≠ [] → ∃ e ∈ ['e', 'E'], ∃ sign ∈ [[], ['+'], ['-']], ∃ ds,
    Digits ds ∧ exponent = e :: (sign ++ ds)

/-- How a number is spelled. -/
def Numeral.spelling (n : Numeral) : List Char :=
  n.sign ++ n.whole ++ n.fraction ++ n.exponent

/-- What stands behind a backslash for one character. -/
def marks : List (Char × Char) :=
  [('"', '"'), ('\\', '\\'), ('/', '/'), ('b', '\x08'), ('f', '\x0c'), ('n', '\n'), ('r', '\r'),
    ('t', '\t')]

open Expr.Token (digitsOf)
open Config.Json (isHigh isLow)

/-- The text begins with what is inside of a string and its closing quote, and that says these
characters. -/
inductive Spells : List Char → List Char → List Char → Prop
  | done {rest : List Char} : Spells ('"' :: rest) [] rest
  | plain {c : Char} {s t rest : List Char} (hcontrol : 0x20 ≤ c.toNat) (hquote : c ≠ '"')
      (hslash : c ≠ '\\') (h : Spells s t rest) : Spells (c :: s) (c :: t) rest
  | mark {m c : Char} {s t rest : List Char} (hmark : (m, c) ∈ marks) (h : Spells s t rest) :
      Spells ('\\' :: m :: s) (c :: t) rest
  | code {c : Char} {s s' t rest : List Char} (hcode : digitsOf 16 4 0 s = some (c.toNat, s'))
      (h : Spells s' t rest) : Spells ('\\' :: 'u' :: s) (c :: t) rest
  /-- A character in two halves. -/
  | halves {c : Char} {high low : Nat} {s s' s'' t rest : List Char}
      (hhigh : digitsOf 16 4 0 s = some (high, '\\' :: 'u' :: s')) (hishigh : isHigh high)
      (hlow : digitsOf 16 4 0 s' = some (low, s'')) (hislow : isLow low)
      (hcode : c.toNat = 0x10000 + (high - 0xD800) * 0x400 + (low - 0xDC00))
      (h : Spells s'' t rest) : Spells ('\\' :: 'u' :: s) (c :: t) rest

/-- A part of a text. -/
inductive Part where
  | value (j : Json)
  /-- The items of an array and its closing bracket. -/
  | items (js : List Json)
  | member (name : String) (j : Json)
  /-- The members of an object and its closing bracket. -/
  | members (ms : List (String × Json))

/-- The strings in a part. -/
def Part.texts : Part → List String
  | .value j => j.texts
  | .items js => itemTexts js
  | .member k j => k :: j.texts
  | .members ms => memberTexts ms

/-- The text begins with the part, and this is what is left of it. -/
inductive Reads : Part → List Char → List Char → Prop
  | blank {c : Char} {j : Json} {s rest : List Char} (hc : IsBlank c)
      (h : Reads (.value j) s rest) : Reads (.value j) (c :: s) rest
  | null {rest : List Char} : Reads (.value .null) ("null".toList ++ rest) rest
  | bool {b : Bool} {rest : List Char} :
      Reads (.value (.bool b)) ((if b then "true" else "false").toList ++ rest) rest
  | number {n : Numeral} {rest : List Char} :
      Reads (.value (.number (String.ofList n.spelling))) (n.spelling ++ rest) rest
  | string {s t rest : List Char} (h : Spells s t rest) :
      Reads (.value (.string (String.ofList t))) ('"' :: s) rest
  | emptyArray {s rest : List Char} (h : Blanks s (']' :: rest)) :
      Reads (.value (.array [])) ('[' :: s) rest
  | array {js : List Json} {s rest : List Char} (h : Reads (.items js) s rest) :
      Reads (.value (.array js)) ('[' :: s) rest
  | lastItem {j : Json} {s s' rest : List Char} (h : Reads (.value j) s s')
      (hend : Blanks s' (']' :: rest)) : Reads (.items [j]) s rest
  | item {j : Json} {js : List Json} {s s' s'' rest : List Char} (h : Reads (.value j) s s')
      (hcomma : Blanks s' (',' :: s'')) (hrest : Reads (.items js) s'' rest) :
      Reads (.items (j :: js)) s rest
  | emptyObject {s rest : List Char} (h : Blanks s ('\x7d' :: rest)) :
      Reads (.value (.object [])) ('\x7b' :: s) rest
  | object {ms : List (String × Json)} {s rest : List Char} (h : Reads (.members ms) s rest) :
      Reads (.value (.object ms)) ('\x7b' :: s) rest
  | member {k s s' s'' t rest : List Char} {j : Json} (hquote : Blanks s ('"' :: s'))
      (hname : Spells s' k s'') (hcolon : Blanks s'' (':' :: t)) (h : Reads (.value j) t rest) :
      Reads (.member (String.ofList k) j) s rest
  | lastMember {k : String} {j : Json} {s s' rest : List Char} (h : Reads (.member k j) s s')
      (hend : Blanks s' ('\x7d' :: rest)) : Reads (.members [(k, j)]) s rest
  | nextMember {k : String} {j : Json} {ms : List (String × Json)} {s s' s'' rest : List Char}
      (h : Reads (.member k j) s s') (hcomma : Blanks s' (',' :: s''))
      (hrest : Reads (.members ms) s'' rest) : Reads (.members ((k, j) :: ms)) s rest

/-! ## Scanning -/

/-- Where a character of a text stands. -/
inductive Place where
  | outside
  /-- Inside of a string. -/
  | inside
  /-- Behind a backslash. -/
  | behind
  deriving DecidableEq, Repr

/-- Where the next character stands; behind a backslash there is a mark or the `u` of a number. -/
def Place.next : Place → Char → Option Place
  | .outside, c => some (if c = '"' then .inside else .outside)
  | .inside, c => some (if c = '"' then .outside else if c = '\\' then .behind else .inside)
  | .behind, c => if c = 'u' ∨ c ∈ marks.map Prod.fst then some .inside else none

/-- Where a text ends that begins at the place. -/
def scan : Place → List Char → Option Place
  | p, [] => some p
  | p, c :: s => (p.next c).bind fun q => scan q s

/-- What has no quote in it stays outside. -/
theorem scan_unquoted {s : List Char} (h : '"' ∉ s) (rest : List Char) :
    scan .outside (s ++ rest) = scan .outside rest := by
  induction s with
  | nil => rfl
  | cons c s ih =>
    rw [List.mem_cons, not_or] at h
    rw [List.cons_append, scan, Place.next, if_neg (Ne.symm h.1), Option.bind_some, ih h.2]

theorem not_quote_of_isBlank {c : Char} (h : IsBlank c) : c ≠ '"' := by
  rcases h with rfl | rfl | rfl | rfl <;> decide

theorem scan_blanks {s rest : List Char} (h : Blanks s rest) :
    scan .outside s = scan .outside rest := by
  obtain ⟨blanks, hblanks, rfl⟩ := h
  exact scan_unquoted (fun hquote => not_quote_of_isBlank (hblanks _ hquote) rfl) rest

/-- What may stand between two parts stays outside. -/
theorem scan_mark {c : Char} (h : c ≠ '"') (s : List Char) :
    scan .outside (c :: s) = scan .outside s :=
  scan_unquoted (s := [c]) (by simpa using h.symm) s

/-- Hexadecimal digits stay inside. -/
theorem scan_digitsOf {width acc n : Nat} {s rest : List Char}
    (h : digitsOf 16 width acc s = some (n, rest)) : scan .inside s = scan .inside rest := by
  induction width generalizing acc s with
  | zero =>
    cases h
    rfl
  | succ width ih =>
    cases s with
    | nil => cases h
    | cons c s =>
      rw [digitsOf] at h
      cases hc : Text.hexValue c with
      | none =>
        rw [hc] at h
        cases h
      | some v =>
        have hquote : c ≠ '"' := fun e => by simp [e, Text.hexValue] at hc
        have hslash : c ≠ '\\' := fun e => by simp [e, Text.hexValue] at hc
        rw [hc] at h
        obtain ⟨-, h⟩ := Option.ite_none_right_eq_some.mp h
        rw [scan, Place.next, if_neg hquote, if_neg hslash, Option.bind_some, ih h]

theorem scan_quote (s : List Char) : scan .outside ('"' :: s) = scan .inside s := rfl

theorem scan_code (s : List Char) : scan .inside ('\\' :: 'u' :: s) = scan .inside s := rfl

theorem scan_marked {m c : Char} (h : (m, c) ∈ marks) (s : List Char) :
    scan .inside ('\\' :: m :: s) = scan .inside s := by
  have hknown : m ∈ marks.map Prod.fst := List.mem_map_of_mem h
  rw [scan, Place.next, if_neg (by decide), if_pos rfl, Option.bind_some, scan, Place.next,
    if_pos (.inr hknown), Option.bind_some]

theorem scan_of_spells {s t rest : List Char} (h : Spells s t rest) :
    scan .inside s = scan .outside rest := by
  induction h with
  | done => rfl
  | plain hcontrol hquote hslash h ih =>
    rw [scan, Place.next, if_neg hquote, if_neg hslash, Option.bind_some, ih]
  | mark hmark h ih => rw [scan_marked hmark, ih]
  | code hcode h ih => rw [scan_code, scan_digitsOf hcode, ih]
  | halves hhigh _ hlow _ _ h ih =>
    rw [scan_code, scan_digitsOf hhigh, scan_code, scan_digitsOf hlow, ih]

theorem Digits.not_mem_quote {s : List Char} (h : Digits s) : '"' ∉ s :=
  fun hmem => absurd (h.2 _ hmem) (by decide)

theorem Numeral.not_mem_quote (n : Numeral) : '"' ∉ n.spelling := by
  have hsign : '"' ∉ n.sign := by
    have h := n.sign_mem
    simp only [List.mem_cons, List.not_mem_nil, or_false] at h
    rcases h with h | h <;> simp [h]
  have hfraction : '"' ∉ n.fraction := fun hmem => by
    obtain ⟨ds, hds, heq⟩ := n.digits_fraction (List.ne_nil_of_mem hmem)
    rw [heq, List.mem_cons] at hmem
    exact hmem.elim (by decide) hds.not_mem_quote
  have hexponent : '"' ∉ n.exponent := fun hmem => by
    obtain ⟨e, he, sign, hsign, ds, hds, heq⟩ := n.digits_exponent (List.ne_nil_of_mem hmem)
    rw [heq, List.mem_cons, List.mem_append] at hmem
    rcases hmem with rfl | hmem | hmem
    · exact absurd he (by decide)
    · simp only [List.mem_cons, List.not_mem_nil, or_false] at hsign
      rcases hsign with rfl | rfl | rfl <;> simp at hmem
    · exact hds.not_mem_quote hmem
  simp [spelling, hsign, n.digits_whole.not_mem_quote, hfraction, hexponent]

/-- What is taken off the front of a text to read a part scans. -/
theorem scan_of_reads {p : Part} {s rest : List Char} (h : Reads p s rest) :
    scan .outside s = scan .outside rest := by
  induction h with
  | blank hc h ih => rw [scan_mark (not_quote_of_isBlank hc), ih]
  | null => exact scan_unquoted (by decide) _
  | @bool b => cases b <;> exact scan_unquoted (by decide) _
  | number => exact scan_unquoted (Numeral.not_mem_quote _) _
  | string h => rw [scan_quote, scan_of_spells h]
  | emptyArray h => rw [scan_mark (by decide), scan_blanks h, scan_mark (by decide)]
  | array h ih => rw [scan_mark (by decide), ih]
  | lastItem h hend ih => rw [ih, scan_blanks hend, scan_mark (by decide)]
  | item h hcomma hrest ih ihrest =>
    rw [ih, scan_blanks hcomma, scan_mark (by decide), ihrest]
  | emptyObject h => rw [scan_mark (by decide), scan_blanks h, scan_mark (by decide)]
  | object h ih => rw [scan_mark (by decide), ih]
  | member hquote hname hcolon h ih =>
    rw [scan_blanks hquote, scan_quote, scan_of_spells hname, scan_blanks hcolon,
      scan_mark (by decide), ih]
  | lastMember h hend ih => rw [ih, scan_blanks hend, scan_mark (by decide)]
  | nextMember h hcomma hrest ih ihrest =>
    rw [ih, scan_blanks hcomma, scan_mark (by decide), ihrest]

end Json

end Lowlang.Log
