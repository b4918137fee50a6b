import Lowlang.Proofs.Shell.Completing
import Mathlib.Algebra.Ring.Int.Defs

set_option autoImplicit false

/-!
# Walks through the completions

A walk shows the completions of a word one after the other, each in place of the one before it.
Nothing is looked up on the way, so each completion is cut out at the marks that the last one has
left.  As long as all completions fit into the line, these marks are right, and what is before and
behind the word stays as it was (`Walked`).

A walk remembers the line and the cursor that it has started from.  Escaping from it brings them
back, and looking up the completions of that line finds the same ones as before the walk.
-/

namespace Lowlang.Shell.Prompt

/-! ## Places on the way -/

/-- The number of places that a key moves by. -/
def stride (back : Bool) : Int :=
  if back then -1 else 1

/-- The number of the completion, out of `n`, that is shown after a first key and further ones. -/
def walkedTo (n : Nat) (first : Bool) (rest : List Bool) : Int :=
  ((if first then (n : Int) - 1 else 0) + (rest.map stride).sum) % n

theorem emod_stride (i n : Nat) (hn : 0 < n) (back : Bool) :
    (((i + n + (if back then n - 1 else 1)) % n : Nat) : Int) = (i + stride back) % n := by
  cases back with
  | false =>
    have hround : ((i + n + 1 : Nat) : Int) = i + 1 + n * 1 := by omega
    show ((i + n + 1 : Nat) : Int) % n = (i + 1) % n
    rw [hround, Int.add_mul_emod_self_left]
  | true =>
    have hround : ((i + n + (n - 1) : Nat) : Int) = i + -1 + n * 2 := by omega
    show ((i + n + (n - 1) : Nat) : Int) % n = (i + -1) % n
    rw [hround, Int.add_mul_emod_self_left]

/-! ## One key -/

/-- Of several completions that all fit, a key puts in the next one and marks it. -/
theorem Marks.walkFound {p : Prompt} {w : Word} (h : p.Marks w) (hneat : p.field.Neat)
    (hseveral : 2 ≤ p.found.length) (hfits : ∀ m ∈ p.found, Fits w m.name.toList) (back : Bool) :
    ∃ (field : Field) (stop : Nat) (m : Match), p.walkFound back = .ok { p with
        field, wordEnd := stop, cycle := some (p.nextCycle back) } ∧
      field.Neat ∧ p.found[(p.nextCycle back).index]? = some m ∧
      Marks { p with field, wordEnd := stop } { w with text := m.name.toList } := by
  rcases walkFound_cases p back with ⟨hnil, _⟩ | ⟨m, hone, _⟩ | ⟨m, hm, heq⟩
  · simp [hnil] at hseveral
  · simp [hone] at hseveral
  · have hwalk : Marks { p with cycle := some (p.nextCycle back) } w := ⟨h.parts, h.start, h.stop⟩
    obtain ⟨field, hreplace, hfield, hvalue, _⟩ :=
      hwalk.replaceWord hneat (hfits m (List.mem_of_getElem? hm))
    refine ⟨field, p.wordStart + m.name.utf8ByteSize, m, heq.trans hreplace, hfield, hm,
      hvalue.symm, h.start, ?_⟩
    show p.wordStart + m.name.utf8ByteSize = Text.bytes w.before + Text.bytes m.name.toList
    rw [h.start, Word.start, Text.bytes_toList]

/-! ## Any number of keys -/

/-- The completions are those of the line, and the word is marked that they are for. -/
structure LookedUp (p : Prompt) : Prop where
  found : p.found = p.completions p.word
  start : p.wordStart = p.word.start
  stop : p.wordEnd = p.word.stop

/-- A prompt that shows the completion with number `i` of the word of `p`, and is otherwise like
`p`. -/
structure Walked (p : Prompt) (i : Nat) (q : Prompt) : Prop where
  rest : q = { p with
    field := q.field
    wordEnd := q.wordEnd
    cycle := some ⟨i, p.field.value, p.field.pos⟩ }
  neat : q.field.Neat
  shown : ∃ m : Match, p.found[i]? = some m ∧ q.Marks { p.word with text := m.name.toList }

section

variable {p : Prompt} (hseveral : 2 ≤ p.found.length)
  (hfits : ∀ m ∈ p.found, Fits p.word m.name.toList)

include hseveral hfits

/-- The first key starts with the first completion, or the last one. -/
theorem LookedUp.walked (h : p.LookedUp) (hneat : p.field.Neat) (hidle : p.cycle = none)
    (back : Bool) :
    ∃ q, p.step (walkKey back) = .ok (q, []) ∧
      p.Walked (if back then p.found.length - 1 else 0) q := by
  obtain ⟨field, stop, m, hq, hfield, hm, hmarks⟩ :=
    (marks_word h.start h.stop).walkFound hneat hseveral hfits back
  have hfirst : p.nextCycle back =
      ⟨if back then p.found.length - 1 else 0, p.field.value, p.field.pos⟩ := by
    rw [nextCycle, hidle]
  rw [hfirst] at hq hm
  rw [step_walkKey, hq]
  exact ⟨_, rfl, rfl, hfield, m, hm, hmarks.parts, hmarks.start, hmarks.stop⟩

/-- Each further key moves by one place. -/
theorem Walked.step {i : Nat} {q : Prompt} (h : p.Walked i q) (back : Bool) :
    ∃ (j : Nat) (r : Prompt), q.step (walkKey back) = .ok (r, []) ∧
      (j : Int) = (i + stride back) % p.found.length ∧ p.Walked j r := by
  obtain ⟨hrest, hneat, m, hm, hmarks⟩ := h
  generalize q.field = shown at hrest hneat
  generalize q.wordEnd = shownEnd at hrest
  subst hrest
  -- The room for a completion depends on what is around the word only.
  have hroom : ∀ m' ∈ p.found, Fits { p.word with text := m.name.toList } m'.name.toList :=
    fun m' hm' => ⟨(hfits m' hm').clean, (hfits m' hm').short⟩
  obtain ⟨field, stop, next, hq, hfield, hnext, hmarked⟩ :=
    hmarks.walkFound hneat hseveral hroom back
  rw [step_walkKey, hq]
  refine ⟨_, _, rfl, emod_stride i p.found.length (by omega) back, rfl, hfield, next, hnext, ?_⟩
  exact ⟨hmarked.parts, hmarked.start, hmarked.stop⟩

/-- A walk adds up what its keys move by. -/
theorem Walked.run {i : Nat} {q : Prompt} (h : p.Walked i q) (keys : List Bool) :
    ∃ (j : Nat) (r : Prompt), q.run (keys.map walkKey) = .ok r ∧
      (j : Int) = (i + (keys.map stride).sum) % p.found.length ∧ p.Walked j r := by
  induction keys generalizing i q with
  | nil =>
    obtain ⟨m, hm, _⟩ := h.shown
    have hlt := (List.getElem?_eq_some_iff.mp hm).1
    refine ⟨i, q, rfl, ?_, h⟩
    rw [List.map_nil, List.sum_nil, Int.add_zero, Int.emod_eq_of_lt (by omega) (by omega)]
  | cons back keys ih =>
    obtain ⟨k, next, hnext, hk, hwalked⟩ := h.step hseveral hfits back
    obtain ⟨j, r, hr, hj, hwalked⟩ := ih hwalked
    refine ⟨j, r, ?_, ?_, hwalked⟩
    · rw [List.map_cons, Prompt.run, hnext]
      exact hr
    · rw [hj, hk, Int.emod_add_emod, List.map_cons, List.sum_cons, Int.add_assoc]

end

/-! ## Escaping -/

/-- The completions depend on the field only by its line and its cursor. -/
theorem refreshed_of_same_line {p : Prompt} (h : p.LookedUp) {field : Field}
    (hvalue : field.value = p.field.value) (hpos : field.pos = p.field.pos) :
    { p with field }.refreshed false = { p with field } := by
  have hword : { p with field }.word = p.word := by
    show Word.around field.value field.pos = Word.around p.field.value p.field.pos
    rw [hvalue, hpos]
  have hfound : { p with field }.completions p.word = p.found := h.found.symm
  dsimp only [refreshed]
  rw [hword, hfound, ← h.start, ← h.stop]

/-- Escaping from a walk brings back the prompt from before it. -/
theorem Walked.esc {p q : Prompt} {i : Nat} (h : p.Walked i q) (hlooked : p.LookedUp)
    (hneat : p.field.Neat) (hidle : p.cycle = none) :
    ∃ field : Field, q.step (.key .esc) = .ok ({ p with field }, []) ∧
      field.value = p.field.value ∧ field.pos = p.field.pos := by
  have hclean : (Field.clean p.field.value).take Field.limit = p.field.value := by
    rw [Field.clean_of_keeps hneat.kept, List.take_of_length_le hneat.short]
  let field := (q.field.setValue p.field.value).setCursor p.field.pos
  have hvalue : field.value = p.field.value := by
    rw [Field.value_setCursor, Field.value_setValue, hclean]
  have hpos : field.pos = p.field.pos := by
    rw [Field.pos_setCursor, Field.value_setValue, hclean, Nat.min_eq_left hneat.inside]
  refine ⟨field, ?_, hvalue, hpos⟩
  -- Only the end of the word is not the one of `p`, and it is looked up again.
  have hback : q.step (.key .esc) =
      .ok ({ p with field, wordEnd := q.wordEnd, cycle := none }.refreshed false, []) := by
    rw [h.rest]
    rfl
  have hend : { p with field, wordEnd := q.wordEnd, cycle := none }.refreshed false =
      { p with field }.refreshed false := by
    rw [← hidle]
    rfl
  rw [hback, hend, refreshed_of_same_line hlooked hvalue hpos]

/-! ## Main statement -/

/-- Take a fresh prompt through any messages to where the completions of its line are looked up,
there are several, all of them fit, and none is shown.  However keys walk through them from there,
the line shows one in place of the word, and the rest of the line stays.  It is the first completion
for a first key that goes on, the last one for a key that goes back, and each further key moves by
one, round the end and the start.  Escaping then brings back the line and the cursor, and all else
is as it was. -/
theorem walk_goes_round {session : Session} {history : History} {ms : List Message} {p : Prompt}
    (hrun : (start session history).run ms = .ok p) (hidle : p.cycle = none)
    (hlooked : p.LookedUp) (hseveral : 2 ≤ p.found.length)
    (hfits : ∀ m ∈ p.found, Fits p.word m.name.toList) (first : Bool) (rest : List Bool) :
    ∃ (q : Prompt) (i : Nat) (m : Match),
      p.run ((first :: rest).map walkKey) = .ok q ∧
      (i : Int) = walkedTo p.found.length first rest ∧ p.found[i]? = some m ∧
      q.field.value = p.word.before ++ m.name.toList ++ p.word.after ∧
      ∃ field : Field, q.step (.key .esc) = .ok ({ p with field }, []) ∧
        field.value = p.field.value ∧ field.pos = p.field.pos := by
  have hneat := ((sound_start session history).run hrun).neat
  obtain ⟨next, hnext, hfirst⟩ := hlooked.walked hseveral hfits hneat hidle first
  obtain ⟨i, q, hq, hi, hwalked⟩ := hfirst.run hseveral hfits rest
  obtain ⟨m, hm, hmarks⟩ := hwalked.shown
  refine ⟨q, i, m, ?_, ?_, hm, hmarks.parts.symm, hwalked.esc hlooked hneat hidle⟩
  · rw [List.map_cons, run, hnext]
    exact hq
  · have hstart : ((if first then p.found.length - 1 else 0 : Nat) : Int) =
        if first then (p.found.length : Int) - 1 else 0 := by
      split <;> omega
    rw [hi, hstart]
    rfl

/-- From the last one of two completions, going on twice leads round to it again. -/
theorem walk_goes_round_two_names :
    let session : Session := ⟨Registry.ofDecls [⟨"AB", .int⟩, ⟨"AC", .int⟩], {}⟩
    ∃ p q r, (start session {}).run [.typed "A"] = .ok p ∧
      p.run ([true, false, false].map walkKey) = .ok q ∧
      q.field.value = "AB".toList ∧ q.step (.key .esc) = .ok (r, []) ∧
      r.found = p.found ∧ r.field.value = "A".toList ∧ r.field.pos = 1 := by
  intro session
  obtain ⟨field, hvalue, hpos, hstep⟩ := step_start_typed session {} (s := "A") (by decide)
    (by decide) (by decide) (by decide)
  let fresh : Prompt := { start session {} with field }
  let p : Prompt := { fresh with found := [⟨"AC", 9⟩, ⟨"AB", 9⟩], wordEnd := 1 }
  have hword : fresh.word = ⟨[], "A".toList, []⟩ := by
    show Word.around field.value field.pos = _
    rw [hvalue, hpos]
    rfl
  have hfound : fresh.completions fresh.word = p.found := by
    rw [hword, completions, if_neg (by decide)]
    exact rank_pair (show Match.score? "A".toList "AB".toList = some 9 by decide +kernel)
      (show Match.score? "A".toList "AC".toList = some 9 by decide +kernel) (Int.le_refl 9)
  have hrefreshed : fresh.refreshed true = p := by
    rw [refreshed_of_several hfound, hword]
    rfl
  have hrun : (start session {}).run [.typed "A"] = .ok p := by
    rw [run, hstep, hrefreshed]
    rfl
  have hpword : p.word = ⟨[], "A".toList, []⟩ := hword
  have hlooked : p.LookedUp :=
    ⟨hfound.symm, by rw [hpword]; rfl, by rw [hpword]; rfl⟩
  have hfits : ∀ m ∈ p.found, Fits p.word m.name.toList := by
    rw [hpword]
    intro m hm
    rcases List.mem_pair.mp hm with rfl | rfl <;> exact ⟨by decide, by decide⟩
  obtain ⟨q, i, m, hq, hi, hm, hline, field', hesc, hback, hcursor⟩ :=
    walk_goes_round hrun rfl hlooked (Nat.le_refl 2) hfits true [false, false]
  have hone : i = 1 :=
    Int.ofNat.inj (hi.trans (show walkedTo 2 true [false, false] = 1 by decide))
  subst hone
  cases hm
  rw [hpword] at hline
  exact ⟨p, q, _, hrun, hq, hline, hesc, rfl, hback.trans hvalue, hcursor.trans hpos⟩

end Lowlang.Shell.Prompt
