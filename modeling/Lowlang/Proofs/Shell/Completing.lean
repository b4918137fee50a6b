import Lowlang.Proofs.Shell.Keystrokes
import Lowlang.Proofs.Text.Classes

set_option autoImplicit false

/-!
# The word that is completed

A cursor that is counted in characters has one word: the longest run of characters that are no
boundaries and that contains or touches it (`Word.Touched`).  The prompt looks for a word at the
cursor too, but takes the number of characters before the cursor for a number of bytes.  It so finds
the word at an earlier place, where characters of several bytes stand before the cursor.  The word
it puts a completion in place of is the one it has found, and then it takes a number of bytes for
the place of the cursor, which comes out too far to the right.
-/

namespace Lowlang.Shell

/-! ## The word at a cursor -/

namespace Word

/-- The word around the place between two parts of a line. -/
def between (left right : List Char) : Word where
  before := (left.reverse.dropWhile fun c => !isBoundary c).reverse
  text := (left.reverse.takeWhile fun c => !isBoundary c).reverse
    ++ right.takeWhile fun c => !isBoundary c
  after := right.dropWhile fun c => !isBoundary c

/-- The line taken apart around the longest run without boundaries that contains or touches the
place behind `pos` characters. -/
structure Touched (w : Word) (line : List Char) (pos : Nat) : Prop where
  parts : w.before ++ w.text ++ w.after = line
  inner : ∀ c ∈ w.text, isBoundary c = false
  left : ∀ c ∈ w.before.getLast?, isBoundary c
  right : ∀ c ∈ w.after.head?, isBoundary c
  starts : w.before.length ≤ pos
  ends : pos ≤ w.before.length + w.text.length

theorem touched_between (left right : List Char) :
    (between left right).Touched (left ++ right) left.length := by
  have hleft := congrArg List.reverse
    (List.takeWhile_append_dropWhile (l := left.reverse) (p := fun c => !isBoundary c))
  rw [List.reverse_append, List.reverse_reverse] at hleft
  have hlength := congrArg List.length hleft
  rw [List.length_append] at hlength
  refine ⟨?_, fun c hc => ?_, fun c hc => ?_, fun c hc => ?_, ?_, ?_⟩
  · dsimp only [between]
    rw [← List.append_assoc, hleft, List.append_assoc, List.takeWhile_append_dropWhile]
  · rcases List.mem_append.mp hc with hc | hc
    · simpa using List.mem_takeWhile_imp (List.mem_reverse.mp hc)
    · simpa using List.mem_takeWhile_imp hc
  · have hnot := List.head?_dropWhile_not (fun c => !isBoundary c) left.reverse
    rw [between, List.getLast?_reverse] at hc
    rw [Option.mem_def.mp hc] at hnot
    simpa using hnot
  · have hnot := List.head?_dropWhile_not (fun c => !isBoundary c) right
    rw [between] at hc
    rw [Option.mem_def.mp hc] at hnot
    simpa using hnot
  · dsimp only [between]
    omega
  · dsimp only [between]
    rw [List.length_append]
    omega

/-- The parts of the line on both sides of the cursor, by those of the word. -/
theorem Touched.sides {w : Word} {line : List Char} {pos : Nat} (h : w.Touched line pos) :
    ∃ t u, w.text = t ++ u ∧ line.take pos = w.before ++ t ∧ line.drop pos = u ++ w.after ∧
      t.length = pos - w.before.length := by
  have hstarts := h.starts
  have hends := h.ends
  refine ⟨w.text.take (pos - w.before.length), w.text.drop (pos - w.before.length),
    (List.take_append_drop _ _).symm, ?_, ?_, ?_⟩
  · rw [← h.parts, List.append_assoc, List.take_append, List.take_of_length_le h.starts,
      List.take_append_of_le_length (by omega)]
  · rw [← h.parts, List.append_assoc, List.drop_append, List.drop_eq_nil_of_le h.starts,
      List.nil_append, List.drop_append_of_le_length (by omega)]
  · rw [List.length_take]
    omega

/-- There is one word at a cursor. -/
theorem touched_iff {w : Word} {line : List Char} {pos : Nat} (hpos : pos ≤ line.length) :
    w.Touched line pos ↔ w = between (line.take pos) (line.drop pos) := by
  constructor
  · intro h
    obtain ⟨t, u, htext, hleft, hright, _⟩ := h.sides
    have hinner : ∀ c ∈ t ++ u, (!isBoundary c) = true := fun c hc => by
      simp [h.inner c (htext ▸ hc)]
    have hbefore : ∀ c ∈ w.before.reverse.head?, (!isBoundary c) = false := fun c hc => by
      simp [h.left c (by rwa [List.head?_reverse] at hc)]
    have hafter : ∀ c ∈ w.after.head?, (!isBoundary c) = false := fun c hc => by
      simp [h.right c hc]
    have hback := Text.takeWhile_append_rest (p := fun c => !isBoundary c) (s := t.reverse)
      (fun c hc => hinner c (List.mem_append_left _ (List.mem_reverse.mp hc))) hbefore
    have hfront := Text.takeWhile_append_rest (p := fun c => !isBoundary c) (s := u)
      (fun c hc => hinner c (List.mem_append_right _ hc)) hafter
    rw [between, hleft, hright, List.reverse_append, hback.1, hback.2, hfront.1, hfront.2,
      List.reverse_reverse, List.reverse_reverse, ← htext]
  · rintro rfl
    have h := touched_between (line.take pos) (line.drop pos)
    rwa [List.take_append_drop, List.length_take, Nat.min_eq_left hpos] at h

/-- The word at a cursor is the word at a later one as long as there is no boundary between
them. -/
theorem Touched.later_iff {w : Word} {line : List Char} {k pos : Nat} (h : w.Touched line k)
    (hk : k ≤ pos) (hpos : pos ≤ line.length) :
    w.Touched line pos ↔ ∀ c ∈ (line.take pos).drop k, isBoundary c = false := by
  have hstarts := h.starts
  have hends := h.ends
  constructor
  · intro h' c hc
    obtain ⟨t, u, htext, hleft, _⟩ := h'.sides
    rw [hleft, List.drop_append, List.drop_eq_nil_of_le hstarts, List.nil_append] at hc
    exact h.inner c (htext ▸ List.mem_append_left _ (List.mem_of_mem_drop hc))
  · intro hfree
    refine ⟨h.parts, h.inner, h.left, h.right, by omega, Nat.le_of_not_lt fun hlt => ?_⟩
    -- Otherwise the cursor has passed the boundary behind the word.
    have hlength := congrArg List.length h.parts
    rw [List.length_append, List.length_append] at hlength
    cases hafter : w.after with
    | nil =>
      rw [hafter, List.length_nil] at hlength
      omega
    | cons d rest =>
      obtain ⟨n, hn⟩ := Nat.exists_eq_add_of_lt hlt
      have hpassed : line.take pos = w.before ++ w.text ++ d :: rest.take n := by
        have hmore : pos - (w.before ++ w.text).length = n + 1 := by
          rw [List.length_append]
          omega
        rw [← h.parts, hafter, List.take_append, hmore, List.take_succ_cons,
          List.take_of_length_le (by rw [List.length_append]; omega)]
      have hd : d ∈ (line.take pos).drop k := by
        rw [hpassed, List.drop_append_of_le_length (by rw [List.length_append]; exact hends)]
        exact List.mem_append_right _ List.mem_cons_self
      have hboundary := h.right d (by rw [hafter]; rfl)
      rw [hfree d hd] at hboundary
      cases hboundary

end Word

namespace Prompt

/-! ## Putting in a completion that fits -/

/-- The text of the word is marked in the line. -/
structure Marks (p : Prompt) (w : Word) : Prop where
  parts : w.before ++ w.text ++ w.after = p.field.value
  start : p.wordStart = w.start
  stop : p.wordEnd = w.stop

/-- The line can hold `s` in place of the word. -/
structure Fits (w : Word) (s : List Char) : Prop where
  clean : Field.clean s = s
  short : (w.before ++ s ++ w.after).length ≤ Field.limit

theorem marks_word {p : Prompt} (hstart : p.wordStart = p.word.start)
    (hstop : p.wordEnd = p.word.stop) : p.Marks p.word :=
  ⟨Word.before_text_after _ _, hstart, hstop⟩

theorem Fits.clean_line {p : Prompt} {w : Word} {s : List Char} (h : Fits w s)
    (hneat : p.field.Neat) (hparts : w.before ++ w.text ++ w.after = p.field.value) :
    (Field.clean (w.before ++ s ++ w.after)).take Field.limit = w.before ++ s ++ w.after := by
  have hbefore : ∀ c ∈ w.before, Field.keeps c := fun c hc =>
    hneat.kept c (hparts ▸ List.mem_append_left _ (List.mem_append_left _ hc))
  have hafter : ∀ c ∈ w.after, Field.keeps c := fun c hc =>
    hneat.kept c (hparts ▸ List.mem_append_right _ hc)
  rw [Field.clean_append, Field.clean_append, Field.clean_of_keeps hbefore, h.clean,
    Field.clean_of_keeps hafter, List.take_of_length_le h.short]

/-- A completion that fits is put in place of the marked word, and the cursor as many characters
behind the start of the line as there are bytes up to the end of the completion. -/
theorem Marks.replaceWord {p : Prompt} {w : Word} (h : p.Marks w) (hneat : p.field.Neat)
    {s : String} (hs : Fits w s.toList) :
    ∃ field : Field, p.replaceWord s =
        .ok { p with field, wordEnd := p.wordStart + s.utf8ByteSize } ∧ field.Neat ∧
      field.value = w.before ++ s.toList ++ w.after ∧
      field.pos = min (Text.bytes (w.before ++ s.toList))
        (w.before ++ s.toList ++ w.after).length := by
  have hclean := hs.clean_line hneat h.parts
  have hinside : ¬ Text.bytes p.field.value < p.wordEnd := by
    rw [← h.parts, h.stop, Word.stop, Word.start, Text.bytes_append, Text.bytes_append]
    omega
  have htake : Text.takeBytes p.wordStart p.field.value = w.before := by
    rw [← h.parts, h.start, List.append_assoc]
    exact Text.takeBytes_bytes _ _
  have hdrop : Text.dropBytes p.wordEnd p.field.value = w.after := by
    rw [← h.parts, h.stop, Word.stop, Word.start, ← Text.bytes_append]
    exact Text.dropBytes_bytes _ _
  dsimp only [Prompt.replaceWord]
  rw [if_neg hinside, htake, hdrop]
  refine ⟨_, rfl, Field.neat_setValue_setCursor _ _ _, ?_, ?_⟩
  · rw [Field.value_setCursor, Field.value_setValue, hclean]
  · rw [Field.pos_setCursor, Field.value_setValue, hclean, h.start, Word.start,
      ← Text.bytes_toList, ← Text.bytes_append]

/-! ## Keys that walk through the completions -/

/-- The keys by which a walk through the completions goes on, and back. -/
def walkKey (back : Bool) : Message :=
  .key (if back then .shiftTab else .tab)

theorem step_walkKey (p : Prompt) (back : Bool) :
    p.step (walkKey back) = p.walkFound back >>= fun q => .ok (q, []) := by
  cases back <;> rfl

/-- A key puts in the completion that is next, whether there are several or one. -/
theorem step_of_fits {p : Prompt} {w : Word} (h : p.Marks w) (hneat : p.field.Neat) {back : Bool}
    {m : Match} (hm : p.found[(p.nextCycle back).index]? = some m)
    (hfits : Fits w m.name.toList) :
    ∃ q, p.step (walkKey back) = .ok (q, []) ∧
      q.field.value = w.before ++ m.name.toList ++ w.after ∧
      q.field.pos = min (Text.bytes (w.before ++ m.name.toList))
        (w.before ++ m.name.toList ++ w.after).length := by
  rw [step_walkKey]
  rcases walkFound_cases p back with ⟨hnil, _⟩ | ⟨m', hone, heq⟩ | ⟨m', hm', heq⟩
  · rw [hnil] at hm
    cases hm
  · have hlt := index_nextCycle_lt p back (by simp [hone])
    obtain rfl : m' = m := by
      rw [hone, List.length_singleton] at hlt
      rw [hone, Nat.lt_one_iff.mp hlt] at hm
      exact Option.some.inj hm
    obtain ⟨field, hreplace, _, hvalue, hpos⟩ := h.replaceWord hneat hfits
    rw [heq, hreplace]
    exact ⟨_, rfl, hvalue, hpos⟩
  · obtain rfl : m' = m := Option.some.inj (hm'.symm.trans hm)
    have hwalk : Marks { p with cycle := some (p.nextCycle back) } w := ⟨h.parts, h.start, h.stop⟩
    obtain ⟨field, hreplace, _, hvalue, hpos⟩ := hwalk.replaceWord hneat hfits
    rw [heq, hreplace]
    exact ⟨_, rfl, hvalue, hpos⟩

/-! ## The word that is marked -/

/-- Outside a walk through the completions the word at the cursor is marked. -/
def Current (p : Prompt) : Prop :=
  p.found ≠ [] → p.cycle = none → p.wordStart = p.word.start ∧ p.wordEnd = p.word.stop

theorem current_refreshed (p : Prompt) (confirm : Bool) : (p.refreshed confirm).Current := by
  obtain ⟨found, cycle, heq⟩ := refreshed_cases p confirm
  rw [heq]
  exact fun _ _ => ⟨rfl, rfl⟩

theorem Current.walkFound {p q : Prompt} (h : p.Current) {back : Bool}
    (hq : p.walkFound back = .ok q) : q.Current := by
  rcases walkFound_cases p back with ⟨_, heq⟩ | ⟨m, _, heq⟩ | ⟨m, _, heq⟩
  · cases heq.symm.trans hq
    exact h
  · obtain ⟨r, _, hq⟩ := Overrun.bind_ok (heq.symm.trans hq)
    cases hq
    exact fun hfound => absurd rfl hfound
  · obtain ⟨field, _, _, rfl⟩ := replaceWord_ok (heq.symm.trans hq)
    exact fun _ hcycle => nomatch hcycle

theorem Current.walkHistory {p : Prompt} (h : p.Current) (back sameMode : Bool) :
    (p.walkHistory back sameMode).Current := by
  dsimp only [Prompt.walkHistory]
  split
  · exact current_refreshed _ false
  · split
    · exact h
    · exact current_refreshed _ false

theorem current_of_found_nil {p : Prompt} (h : p.found = []) : p.Current :=
  fun hfound => absurd h hfound

theorem Current.submit {p : Prompt} (h : p.Current) : p.submit.1.Current := by
  have hcommand : ∀ (q : Prompt) input line, q.found = [] → (q.command input line).1.Current := by
    intro q input line hq
    obtain ⟨session, quitting, heq⟩ := command_cases q input line
    rw [heq]
    exact current_of_found_nil hq
  dsimp only [Prompt.submit]
  split
  · exact h
  · split
    · exact hcommand _ _ _ rfl
    · exact hcommand _ _ _ rfl
    · split
      · exact current_of_found_nil rfl
      · exact current_of_found_nil rfl

theorem current_of_edit {p q : Prompt} {name : String} {text : List Char} {isText : Bool}
    {effects : List Effect} (hq : p.edit name text isText = .ok (q, effects)) : q.Current := by
  obtain ⟨r, hr, hq⟩ := Overrun.bind_ok hq
  obtain ⟨field, _, hr⟩ := Overrun.bind_ok hr
  cases hq
  cases hr
  exact current_refreshed _ isText

theorem Current.press {p q : Prompt} (h : p.Current) {k : Key} {effects : List Effect}
    (hq : p.press k = .ok (q, effects)) : q.Current := by
  cases k with
  | ctrlC =>
    dsimp only [Prompt.press] at hq
    split at hq
    · cases hq
      exact h
    · cases hq
      exact current_refreshed _ false
  | ctrlD =>
    dsimp only [Prompt.press] at hq
    split at hq
    · cases hq
      exact h
    · cases hq
      exact h
  | enter =>
    dsimp only [Prompt.press] at hq
    split at hq
    · cases hq
      exact current_refreshed _ true
    · have hsubmit : p.submit = (q, effects) := Except.ok.inj hq
      have hcurrent := h.submit
      rwa [hsubmit] at hcurrent
  | tab | shiftTab =>
    obtain ⟨r, hr, hq⟩ := Overrun.bind_ok hq
    cases hq
    exact h.walkFound hr
  | up | down | shiftUp | shiftDown =>
    cases hq
    exact h.walkHistory _ _
  | esc =>
    dsimp only [Prompt.press] at hq
    split at hq
    · cases hq
      exact current_refreshed _ false
    · cases hq
      exact current_refreshed _ false
  | left | right | home | finish | backspace | delete | space => exact current_of_edit hq

theorem Current.step {p q : Prompt} (h : p.Current) {m : Message} {effects : List Effect}
    (hq : p.step m = .ok (q, effects)) : q.Current := by
  cases m with
  | typed s => exact current_of_edit hq
  | key k => exact h.press hq
  | stroke name text isText => exact current_of_edit hq
  | resized w =>
    cases hq
    exact h
  | edited ds =>
    cases hq
    exact h
  | editCancelled | editDeclined | editFailed _ =>
    cases hq
    exact h

theorem Current.run {p q : Prompt} (h : p.Current) {ms : List Message} (hq : p.run ms = .ok q) :
    q.Current := by
  induction ms generalizing p with
  | nil =>
    cases hq
    exact h
  | cons m ms ih =>
    obtain ⟨next, hnext, hq⟩ := Overrun.bind_ok hq
    exact ih (h.step hnext) hq

/-! ## Main statement -/

/-- The word of a prompt is the word behind the characters that start before a byte. -/
theorem touched_word (p : Prompt) : p.word.Touched p.field.value
    (Text.splitAtByte p.field.pos p.field.value).1.length := by
  have h := Word.touched_between (Text.splitAtByte p.field.pos p.field.value).1
    (Text.splitAtByte p.field.pos p.field.value).2
  rwa [Text.splitAtByte_append] at h

theorem min_bytes_eq_length (s t : List Char) :
    min (Text.bytes s) (s ++ t).length = s.length ↔ t = [] ∨ ∀ c ∈ s, c.utf8Size = 1 := by
  have hle := Text.length_le_bytes s
  rw [← Text.bytes_eq_length, ← List.length_eq_zero_iff, List.length_append]
  omega

/-- Take a fresh prompt through any messages.  There is one word at its cursor.  The word that is
looked up is the one behind the `k` characters that start before a byte, whose number is that of the
characters before the cursor.  So it is the word at the cursor if and only if there is no boundary
from the first `k` characters to the cursor.  It is marked outside a walk through the completions.
If it is marked, a key puts a completion that fits in its place.  The cursor is then right behind
the completion if and only if nothing else is, or all characters up to there have one byte. -/
theorem completion_counts_bytes {session : Session} {history : History} {ms : List Message}
    {p : Prompt} (hrun : (start session history).run ms = .ok p) :
    (∃! w : Word, w.Touched p.field.value p.field.pos) ∧
    (∃ k ≤ p.field.pos, k = (Text.splitAtByte p.field.pos p.field.value).1.length ∧
      p.word.Touched p.field.value k ∧
      (p.word.Touched p.field.value p.field.pos ↔
        ∀ c ∈ (p.field.value.take p.field.pos).drop k, isBoundary c = false)) ∧
    (p.found ≠ [] → p.cycle = none → p.wordStart = p.word.start ∧ p.wordEnd = p.word.stop) ∧
    ∀ back m, p.wordStart = p.word.start → p.wordEnd = p.word.stop →
      p.found[(p.nextCycle back).index]? = some m → Fits p.word m.name.toList →
      ∃ q, p.step (walkKey back) = .ok (q, []) ∧
        q.field.value = p.word.before ++ m.name.toList ++ p.word.after ∧
        (q.field.pos = (p.word.before ++ m.name.toList).length ↔
          p.word.after = [] ∨ ∀ c ∈ p.word.before ++ m.name.toList, c.utf8Size = 1) := by
  have hneat := ((sound_start session history).run hrun).neat
  have hle := Text.length_splitAtByte_le p.field.pos p.field.value
  have hword := touched_word p
  refine ⟨⟨_, (Word.touched_iff hneat.inside).mpr rfl, fun w => (Word.touched_iff hneat.inside).mp⟩,
    ⟨_, hle, rfl, hword, hword.later_iff hle hneat.inside⟩, ?_, ?_⟩
  · exact (current_of_found_nil rfl : (start session history).Current).run hrun
  · intro back m hstart hstop hm hfits
    obtain ⟨q, hstep, hvalue, hpos⟩ := step_of_fits (marks_word hstart hstop) hneat hm hfits
    refine ⟨q, hstep, hvalue, ?_⟩
    rw [hpos]
    exact min_bytes_eq_length _ _

/-- Text that fits and is not the name of a key is what a fresh prompt holds then. -/
theorem step_start_typed (session : Session) (history : History) {s : String}
    (hkey : Field.Edit.ofKey? s = none) (hblank : s ≠ " ")
    (hclean : Field.clean s.toList = s.toList) (hshort : s.toList.length ≤ Field.limit) :
    ∃ field : Field, field.value = s.toList ∧ field.pos = s.toList.length ∧
      (start session history).step (.typed s) =
        .ok ({ start session history with field }.refreshed true, []) := by
  obtain ⟨hvalue, hpos⟩ := Field.insert_empty hclean hshort
  refine ⟨(Field.insert {} s.toList).settled, ?_, ?_, ?_⟩
  · rw [Field.value_settled, hvalue]
  · rw [Field.pos_settled, hpos]
  · have hgoes : (true && decide (s ≠ " ")) = true := by simp [hblank]
    dsimp only [step, edit, editLine, Field.stroke]
    rw [if_pos hgoes, hkey]
    rfl

theorem rank_single {word : List Char} {a : String} {s : Int}
    (h : Match.score? word a.toList = some s) : Match.rank word [a] = [⟨a, s⟩] := by
  rw [Match.rank, List.filterMap_cons, h]
  exact List.mergeSort_singleton _

/-- Behind a closing parenthesis there is no word, but the one before it is completed. -/
theorem completion_counts_bytes_behind_word :
    let session : Session := ⟨Registry.ofDecls [⟨"abc", .int⟩], {}⟩
    ∃ p, (start session {}).run [.typed "é ab)"] = .ok p ∧
      ¬ p.word.Touched p.field.value p.field.pos ∧
      ∃ q, p.step (walkKey false) = .ok (q, []) ∧ q.field.value = "é abc)".toList ∧
        q.field.pos ≠ "é abc".toList.length := by
  intro session
  obtain ⟨field, hvalue, hpos, hstep⟩ := step_start_typed session {} (s := "é ab)") (by decide)
    (by decide) (by decide) (by decide)
  let fresh : Prompt := { start session {} with field }
  let p : Prompt := { fresh with found := [⟨"abc", 14⟩], wordStart := 3, wordEnd := 5 }
  have hword : fresh.word = ⟨"é ".toList, "ab".toList, ")".toList⟩ := by
    show Word.around field.value field.pos = _
    rw [hvalue, hpos]
    rfl
  have hfound : fresh.completions fresh.word = p.found := by
    rw [hword, completions, if_neg (by decide)]
    exact rank_single (show Match.score? "ab".toList "abc".toList = some 14 by decide +kernel)
  have hrefreshed : fresh.refreshed true = p := by
    dsimp only [refreshed]
    rw [hfound, hword]
    rfl
  have hrun : (start session {}).run [.typed "é ab)"] = .ok p := by
    rw [run, hstep, hrefreshed]
    rfl
  obtain ⟨_, ⟨k, _, hk, _, htouched⟩, _, hput⟩ := completion_counts_bytes hrun
  have hpword : p.word = ⟨"é ".toList, "ab".toList, ")".toList⟩ := hword
  refine ⟨p, hrun, fun hp => ?_, ?_⟩
  · have hbetween : (p.field.value.take p.field.pos).drop k = [')'] := by
      show (field.value.take field.pos).drop k = _
      rw [hk]
      show (field.value.take field.pos).drop (Text.splitAtByte field.pos field.value).1.length = _
      rw [hvalue, hpos]
      rfl
    rw [hbetween] at htouched
    exact absurd (htouched.mp hp ')' List.mem_cons_self) (by decide)
  · rw [hpword] at hput
    obtain ⟨q, hq, hline, hcursor⟩ := hput false ⟨"abc", 14⟩ rfl rfl rfl ⟨by decide, by decide⟩
    refine ⟨q, hq, hline, fun hright => ?_⟩
    rcases hcursor.mp hright with hnil | hbytes
    · cases hnil
    · exact absurd (hbytes 'é' (by decide)) (by decide)

end Prompt

end Lowlang.Shell
