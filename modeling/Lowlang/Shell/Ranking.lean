import Lowlang.Text.Bytes
import Lowlang.Text.CaseTable

set_option autoImplicit false

/-!
# Ranking completions

A candidate matches a word when the characters of the word occur in it in order, up to case.
Matches at the start, behind separators, at humps of camel case and side by side score more;
what stands before the first match and what is left unmatched scores less.  Of the places a
character of the word could take before the next one can follow, the best scoring is taken.
-/

namespace Lowlang.Shell

/-- A candidate that matches, with its score. -/
structure Match where
  name : String
  score : Int
  deriving DecidableEq, Repr, Inhabited

namespace Match

/-- The state of matching one candidate from left to right. -/
structure Scan where
  /-- What is still to be matched. -/
  pattern : List Char
  /-- The score of the places already taken. -/
  score : Int := 0
  /-- The number of places taken. -/
  taken : Nat := 0
  /-- The byte of the last place taken. -/
  lastTaken : Nat := 0
  /-- The best place so far for the next character, with what it scores. -/
  best : Option (Int × Nat) := none
  /-- The bonus that a neighbouring match has grown to. -/
  run : Int := 0
  /-- The character just passed, and its byte. -/
  last : Option (Char × Nat) := none

/-- Characters that separate the parts of a name. -/
def isSeparator (c : Char) : Bool :=
  "/-_ .\\".toList.contains c

/-- The bonus for a match next to the last place taken. -/
def adjacency (st : Scan) : Int :=
  if st.taken = 0 then 0
  else
    let passed := match st.last with
      | some (_, i) => i
      | none => 0
    if passed = st.lastTaken then st.run * 2 + 5 else 0

/-- What a place scores for itself. -/
def placeScore (st : Scan) (c : Char) : Int :=
  match st.last with
  | none => 10
  | some (l, _) =>
    (if Text.isLower l && Text.isUpper c then 20 else 0) + (if isSeparator l then 20 else 0)

/-- Considers the character `c` at byte `i` as a place. -/
def consider (st : Scan) (i : Nat) (c : Char) : Scan :=
  match st.pattern with
  | [] => st
  | p :: _ =>
    if Text.sameFold c p then
      let bonus := adjacency st
      let score := placeScore st c + bonus
      let better : Bool := match st.best with
        | some (s, _) => decide (s < score)
        | none => true
      { st with
        run := st.run + bonus
        best := if better then some (score, i) else st.best }
    else st

/-- Takes the best place when the next character of the word can follow, or nothing does. -/
def settle (st : Scan) (next : Option Char) : Scan :=
  let follows := match next, st.pattern with
    | none, _ => true
    | some c, _ :: p :: _ => Text.sameFold p c
    | some _, _ => false
  match follows, st.best with
  | true, some (score, i) =>
    let lead : Int := if st.taken = 0 then max (-5 * (i : Int)) (-15) else 0
    { st with
      pattern := st.pattern.drop 1
      score := st.score + score + lead
      taken := st.taken + 1
      lastTaken := i
      best := none }
  | _, _ => st

/-- Matches a candidate from byte `i` on. -/
def scan (st : Scan) (i : Nat) : List Char → Scan
  | [] => st
  | c :: rest =>
    let st := settle (consider st i c) rest.head?
    scan { st with last := some (c, i) } (i + c.utf8Size) rest

/-- The score of a candidate, when it matches. -/
def score? (word name : List Char) : Option Int :=
  let st := scan { pattern := word } 0 name
  if st.taken = word.length then some (st.score + st.taken - Text.bytes name) else none

/-- The candidates that match a word, best first; of equal ones the later comes first. -/
def rank (word : List Char) (names : List String) : List Match :=
  let found := names.filterMap fun n => (score? word n.toList).map fun s => ⟨n, s⟩
  found.reverse.mergeSort fun a b => b.score ≤ a.score

end Match

end Lowlang.Shell
