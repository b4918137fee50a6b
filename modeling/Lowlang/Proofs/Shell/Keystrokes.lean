import Lowlang.Proofs.Shell.Line
import Lowlang.Proofs.Text.Bytes
import Lowlang.Shell.Prompt

set_option autoImplicit false

/-!
# Keystrokes

What holds of a prompt after any messages.  The place in the history is never behind its end, the
line is one that a field can hold, and the word at the cursor is marked by two places in bytes.

The first mark always lies in the line, between two characters.  The second one lies in the line
right after the completions have been looked up.  A completion that is put in place of the word
moves it by its own bytes, whether or not the field has taken the completion as a whole: a field
drops control characters and cuts the line at its limit.  From then on the mark may lie behind the
end of the line, and the next completion overruns it.  This and a key of the field itself are the
only ways for a message to go wrong.
-/

namespace Lowlang.Shell

/-- The name of a keystroke that is meant for the line. -/
def Message.keyName? : Message → Option String
  | .typed s => some s
  | .stroke name _ _ => some name
  | _ => none

namespace Prompt

/-- The prompt after messages. -/
def run (p : Prompt) : List Message → Except Overrun Prompt
  | [] => .ok p
  | m :: ms => do
    let next ← p.step m
    next.1.run ms

/-- The number of the completion in the line, or -1. -/
def chosen (p : Prompt) : Int :=
  match p.cycle with
  | some c => c.index
  | none => -1

/-- The completion in the line. -/
def shown (p : Prompt) : Option Match :=
  p.cycle.bind fun c => p.found[c.index]?

/-- A completion that the line cannot hold from byte `start` on: it has characters that no line
holds, or there is no room for it. -/
def Misfit (line : List Char) (start : Nat) (m : Match) : Prop :=
  (∃ c ∈ m.name.toList, ¬ Field.keeps c) ∨
    Field.limit < (Text.takeBytes start line).length + m.name.toList.length

/-- The marks of a word in a line, where a completion may be shown. -/
structure Marked (line : List Char) (start stop : Nat) (shown : Option Match) : Prop where
  ordered : start ≤ stop
  /-- The word starts between two characters. -/
  starts : ∃ before rest, line = before ++ rest ∧ Text.bytes before = start
  ends : stop ≤ Text.bytes line ∨ ∃ m, shown = some m ∧ Misfit line start m

/-- What holds of a prompt between two messages. -/
structure Sound (p : Prompt) : Prop where
  place_le : p.place ≤ p.history.size
  neat : p.field.Neat
  marked : p.found ≠ [] → Marked p.field.value p.wordStart p.wordEnd p.shown

/-! ## Looking up completions -/

section

variable (p : Prompt) (confirm : Bool)

theorem refreshed_cases :
    ∃ found cycle, p.refreshed confirm =
      { p with found, cycle, wordStart := p.word.start, wordEnd := p.word.stop } := by
  dsimp only [refreshed]
  split
  · split
    · exact ⟨_, _, rfl⟩
    · exact ⟨_, _, rfl⟩
  · exact ⟨_, _, rfl⟩

theorem marked_word (shown : Option Match) :
    Marked p.field.value p.word.start p.word.stop shown where
  ordered := Nat.le_add_right _ _
  starts := by
    refine ⟨p.word.before, p.word.text ++ p.word.after, ?_, rfl⟩
    rw [← List.append_assoc]
    exact (Word.before_text_after _ _).symm
  ends := by
    refine .inl ?_
    have hline := congrArg Text.bytes (Word.before_text_after p.field.value p.field.pos)
    rw [Text.bytes_append, Text.bytes_append] at hline
    exact hline ▸ Nat.le_add_right _ _

variable {p}

/-- Looking up the completions sets the marks right. -/
theorem sound_refreshed (hplace : p.place ≤ p.history.size) (hneat : p.field.Neat) :
    (p.refreshed confirm).Sound := by
  obtain ⟨found, cycle, heq⟩ := refreshed_cases p confirm
  rw [heq]
  exact ⟨hplace, hneat, fun _ => marked_word p _⟩

end

/-! ## Putting in completions -/

/-- A completion is put in unless the end of the word is behind that of the line. -/
theorem overruns_replaceWord (p : Prompt) (s : String) :
    Overruns (p.replaceWord s) ↔ Text.bytes p.field.value < p.wordEnd := by
  dsimp only [replaceWord]
  split
  · next h => exact iff_of_true (overruns_error _) h
  · next h => exact iff_of_false (not_overruns_ok _) h

theorem replaceWord_ok {p q : Prompt} {s : String} (h : p.replaceWord s = .ok q) :
    ∃ field : Field, field.Neat ∧
      field.value = (Field.clean (Text.takeBytes p.wordStart p.field.value ++ s.toList
        ++ Text.dropBytes p.wordEnd p.field.value)).take Field.limit ∧
      q = { p with field, wordEnd := p.wordStart + s.utf8ByteSize } := by
  dsimp only [replaceWord] at h
  split at h
  · cases h
  · refine ⟨_, Field.neat_setValue_setCursor _ _ _, ?_, (Except.ok.inj h).symm⟩
    rw [Field.value_setCursor, Field.value_setValue]

/-- What becomes of a line when a completion is put in: what is before the word stays, and the
completion is there as a whole if it fits. -/
theorem marked_put_in {before : List Char} (hkept : ∀ c ∈ before, Field.keeps c)
    (hshort : before.length ≤ Field.limit) (m : Match) (after : List Char) :
    Marked ((Field.clean (before ++ m.name.toList ++ after)).take Field.limit) (Text.bytes before)
      (Text.bytes before + m.name.utf8ByteSize) (some m) := by
  rw [Field.clean_append, Field.clean_append, Field.clean_of_keeps hkept, List.append_assoc,
    List.take_append, List.take_of_length_le hshort]
  refine ⟨Nat.le_add_right _ _, ⟨before, _, rfl, rfl⟩, ?_⟩
  by_cases hname : ∀ c ∈ m.name.toList, Field.keeps c
  · by_cases hroom : before.length + m.name.toList.length ≤ Field.limit
    · -- Both parts are whole, so the second mark is at the end of the completion.
      refine .inl ?_
      rw [Field.clean_of_keeps hname, List.take_append, List.take_of_length_le (by omega),
        Text.bytes_append, Text.bytes_append, Text.bytes_toList]
      omega
    · refine .inr ⟨m, rfl, .inr ?_⟩
      rw [Text.takeBytes_bytes]
      exact Nat.not_le.mp hroom
  · refine .inr ⟨m, rfl, .inl ?_⟩
    push Not at hname
    simpa using hname

/-- Putting in one of the completions leaves the first mark where it is. -/
theorem sound_of_replaceWord {p q : Prompt} {c : Cycle} {m : Match} (h : p.Sound)
    (hm : p.found[c.index]? = some m)
    (hq : { p with cycle := some c }.replaceWord m.name = .ok q) : q.Sound := by
  have hfound : p.found ≠ [] := by
    intro hnil
    rw [hnil] at hm
    cases hm
  obtain ⟨before, rest, hline, hstart⟩ := (h.marked hfound).starts
  obtain ⟨field, hneat, hvalue, rfl⟩ := replaceWord_ok hq
  refine ⟨h.place_le, hneat, fun _ => ?_⟩
  have hbefore : Text.takeBytes p.wordStart p.field.value = before := by
    rw [hline, ← hstart, Text.takeBytes_bytes]
  have hkept : ∀ c ∈ before, Field.keeps c :=
    fun c hc => h.neat.kept c (hline ▸ List.mem_append_left _ hc)
  have hshort : before.length ≤ Field.limit := by
    refine Nat.le_trans ?_ h.neat.short
    rw [hline, List.length_append]
    exact Nat.le_add_right _ _
  show Marked field.value p.wordStart (p.wordStart + m.name.utf8ByteSize) p.found[c.index]?
  dsimp only at hvalue
  rw [hm, hvalue, hbefore, ← hstart]
  exact marked_put_in hkept hshort m _

/-- A walk stays among the completions. -/
theorem index_nextCycle_lt (p : Prompt) (back : Bool) (h : p.found ≠ []) :
    (p.nextCycle back).index < p.found.length := by
  have hpos := List.length_pos_iff.mpr h
  dsimp only [nextCycle]
  split
  · exact Nat.mod_lt _ hpos
  · show (if back then p.found.length - 1 else 0) < p.found.length
    split <;> omega

/-- A walk puts in a completion, if there is one; a single one ends it. -/
theorem walkFound_cases (p : Prompt) (back : Bool) :
    (p.found = [] ∧ p.walkFound back = .ok p) ∨
    (∃ m : Match, p.found = [m] ∧ p.walkFound back = (p.replaceWord m.name >>= fun q =>
      .ok { q with cycle := none, found := [] })) ∨
    ∃ m : Match, p.found[(p.nextCycle back).index]? = some m ∧
      p.walkFound back = { p with cycle := some (p.nextCycle back) }.replaceWord m.name := by
  have hindex := index_nextCycle_lt p back
  dsimp only [walkFound]
  split
  · next h => exact .inl ⟨h, rfl⟩
  · next m h => exact .inr (.inl ⟨m, h, rfl⟩)
  · next hnil _ =>
    have hm := List.getElem?_eq_getElem (hindex hnil)
    rw [hm]
    exact .inr (.inr ⟨_, rfl, rfl⟩)

theorem overruns_walkFound (p : Prompt) (back : Bool) :
    Overruns (p.walkFound back) ↔ p.found ≠ [] ∧ Text.bytes p.field.value < p.wordEnd := by
  rcases walkFound_cases p back with ⟨hnil, heq⟩ | ⟨m, hone, heq⟩ | ⟨m, hm, heq⟩
  · rw [heq]
    exact iff_of_false (not_overruns_ok p) fun h => h.1 hnil
  · rw [heq, overruns_bind_ok, overruns_replaceWord, hone]
    exact (and_iff_right (List.cons_ne_nil m [])).symm
  · rw [heq, overruns_replaceWord]
    refine (and_iff_right fun hnil => ?_).symm
    rw [hnil] at hm
    cases hm

theorem sound_of_walkFound {p q : Prompt} {back : Bool} (h : p.Sound)
    (hq : p.walkFound back = .ok q) : q.Sound := by
  rcases walkFound_cases p back with ⟨_, heq⟩ | ⟨m, _, heq⟩ | ⟨m, hm, heq⟩
  · cases heq.symm.trans hq
    exact h
  · obtain ⟨r, hr, hq⟩ := Overrun.bind_ok (heq.symm.trans hq)
    cases hq
    obtain ⟨field, hneat, _, rfl⟩ := replaceWord_ok hr
    exact ⟨h.place_le, hneat, fun hfound => absurd rfl hfound⟩
  · exact sound_of_replaceWord h hm (heq.symm.trans hq)

/-! ## History, modes and submitting -/

theorem history_refreshed (p : Prompt) (confirm : Bool) :
    (p.refreshed confirm).history = p.history := by
  obtain ⟨found, cycle, heq⟩ := refreshed_cases p confirm
  rw [heq]

theorem history_switched (p : Prompt) (mode : Mode) : (p.switched mode).history = p.history := by
  refine (history_refreshed _ false).trans ?_
  cases p.mode <;> rfl

theorem Sound.switched {p : Prompt} (h : p.Sound) (mode : Mode) : (p.switched mode).Sound := by
  refine sound_refreshed false ?_ ?_
  · cases p.mode <;> exact h.place_le
  · exact Field.neat_setValue_setCursor _ _ _

theorem Sound.walkHistory {p : Prompt} (h : p.Sound) (back sameMode : Bool) :
    (p.walkHistory back sameMode).Sound := by
  dsimp only [Prompt.walkHistory]
  split
  · next i e hnext =>
    have hentry : i < p.history.size := by
      obtain ⟨j, _, hj⟩ := List.exists_of_findSome?_eq_some hnext
      split at hj
      · next hj' =>
        split at hj
        · cases hj
        · cases hj
          exact (List.getElem?_eq_some_iff.mp hj').1
      · cases hj
    refine sound_refreshed false ?_ ?_
    · show i ≤ (if e.mode = p.mode then p else p.switched e.mode).history.size
      split
      · exact Nat.le_of_lt hentry
      · rw [history_switched]
        exact Nat.le_of_lt hentry
    · exact Field.neat_setValue_setCursor _ _ _
  · split
    · exact h
    · exact sound_refreshed false (Nat.le_refl _) (Field.neat_setValue _ _)

theorem command_cases (p : Prompt) (input line : List Char) :
    ∃ session quitting, (p.command input line).1 = { p with session, quitting } := by
  dsimp only [Prompt.command]
  -- Only the declaring command does more than one thing.
  split <;> first
    | (split <;> exact ⟨_, _, rfl⟩)
    | exact ⟨_, _, rfl⟩

theorem Sound.command {p : Prompt} (h : p.Sound) (input line : List Char) :
    (p.command input line).1.Sound := by
  obtain ⟨session, quitting, heq⟩ := command_cases p input line
  rw [heq]
  exact ⟨h.place_le, h.neat, h.marked⟩

theorem sound_cleared (p : Prompt) (history : History) :
    Sound { p with
      lowerDraft := []
      commandDraft := []
      field := p.field.setValue []
      found := []
      history
      place := history.size } where
  place_le := Nat.le_refl _
  neat := Field.neat_setValue _ _
  marked hfound := absurd rfl hfound

theorem Sound.submit {p : Prompt} (h : p.Sound) : p.submit.1.Sound := by
  dsimp only [Prompt.submit]
  split
  · exact h
  · generalize p.history.append (String.ofList (Text.trim p.field.value)) p.mode = history
    split
    · exact (sound_cleared p history).command _ _
    · exact (sound_cleared p history).command _ _
    · split
      · exact sound_cleared p history
      · exact sound_cleared p history

/-! ## Messages -/

theorem sound_of_editLine {p q : Prompt} (hneat : p.field.Neat) {confirm : Bool} {name : String}
    {text : List Char} (hq : p.editLine confirm name text = .ok q) : q.Sound := by
  obtain ⟨field, hfield, hq⟩ := Overrun.bind_ok hq
  cases hq
  exact sound_refreshed confirm (Nat.le_refl _) (hneat.stroke hfield)

theorem Sound.edit {p q : Prompt} (h : p.Sound) {name : String} {text : List Char} {isText : Bool}
    {effects : List Effect} (hq : p.edit name text isText = .ok (q, effects)) : q.Sound := by
  obtain ⟨r, hr, hq⟩ := Overrun.bind_ok hq
  cases hq
  refine sound_of_editLine ?_ hr
  split
  · exact h.neat
  · exact h.neat

theorem Sound.press {p q : Prompt} (h : p.Sound) {k : Key} {effects : List Effect}
    (hq : p.press k = .ok (q, effects)) : q.Sound := by
  cases k with
  | ctrlC =>
    dsimp only [Prompt.press] at hq
    split at hq
    · cases hq
      exact ⟨h.place_le, h.neat, h.marked⟩
    · cases hq
      exact sound_refreshed false (Nat.le_refl _) (Field.neat_setValue _ _)
  | ctrlD =>
    dsimp only [Prompt.press] at hq
    split at hq
    · cases hq
      exact ⟨h.place_le, h.neat, h.marked⟩
    · cases hq
      exact h
  | enter =>
    dsimp only [Prompt.press] at hq
    split at hq
    · cases hq
      exact sound_refreshed true h.place_le h.neat
    · have hsubmit : p.submit = (q, effects) := Except.ok.inj hq
      have hsound := h.submit
      rwa [hsubmit] at hsound
  | tab | shiftTab =>
    obtain ⟨r, hr, hq⟩ := Overrun.bind_ok hq
    cases hq
    exact sound_of_walkFound h hr
  | up | down | shiftUp | shiftDown =>
    cases hq
    exact h.walkHistory _ _
  | esc =>
    dsimp only [Prompt.press] at hq
    split at hq
    · cases hq
      exact sound_refreshed false h.place_le
        (Field.neat_setValue_setCursor _ _ _)
    · cases hq
      exact h.switched _
  | left | right | home | finish | backspace | delete | space => exact h.edit hq

/-- What holds between two messages holds after the next one. -/
theorem Sound.step {p q : Prompt} (h : p.Sound) {m : Message} {effects : List Effect}
    (hq : p.step m = .ok (q, effects)) : q.Sound := by
  cases m with
  | typed s => exact h.edit hq
  | key k => exact h.press hq
  | stroke name text isText => exact h.edit hq
  | resized w =>
    cases hq
    exact ⟨h.place_le, ⟨h.neat.kept, h.neat.short, h.neat.inside⟩, h.marked⟩
  | edited ds =>
    cases hq
    exact ⟨h.place_le, h.neat, h.marked⟩
  | editCancelled =>
    cases hq
    exact h
  | editDeclined =>
    cases hq
    exact ⟨h.place_le, h.neat, h.marked⟩
  | editFailed wording =>
    cases hq
    exact h

theorem sound_start (session : Session) (history : History) : (start session history).Sound where
  place_le := Nat.le_refl _
  neat := ⟨fun _ => (nomatch ·), Nat.zero_le _, Nat.le_refl _⟩
  marked hfound := absurd rfl hfound

theorem Sound.run {p q : Prompt} (h : p.Sound) {ms : List Message} (hq : p.run ms = .ok q) :
    q.Sound := by
  induction ms generalizing p with
  | nil =>
    cases hq
    exact h
  | cons m ms ih =>
    obtain ⟨next, hnext, hq⟩ := Overrun.bind_ok hq
    exact ih (h.step hnext) hq

/-! ## Overruns -/

theorem overruns_edit (p : Prompt) (name : String) (text : List Char) (isText : Bool) :
    Overruns (p.edit name text isText) ↔
      Field.Edit.ofKey? name = some .deleteWord ∧ p.field.pos + 1 = p.field.value.length := by
  have hfield : (if isText && name ≠ " " then p else { p with cycle := none }).field = p.field := by
    split <;> rfl
  refine (overruns_bind_ok _ _).trans ((overruns_bind_ok _ _).trans ?_)
  rw [Field.overruns_stroke, hfield]

/-- A key overruns the line only in a walk through completions. -/
theorem overruns_press (p : Prompt) (k : Key) :
    Overruns (p.press k) ↔ (k = .tab ∨ k = .shiftTab) ∧ p.found ≠ [] ∧
      Text.bytes p.field.value < p.wordEnd := by
  cases k with
  | tab =>
    refine ((overruns_bind_ok _ _).trans (overruns_walkFound p _)).trans ?_
    exact (and_iff_right (.inl rfl)).symm
  | shiftTab =>
    refine ((overruns_bind_ok _ _).trans (overruns_walkFound p _)).trans ?_
    exact (and_iff_right (.inr rfl)).symm
  | ctrlC | ctrlD | enter | esc =>
    refine iff_of_false ?_ fun h => by simp at h
    dsimp only [press]
    split <;> exact not_overruns_ok _
  | up | down | shiftUp | shiftDown =>
    exact iff_of_false (not_overruns_ok _) fun h => by simp at h
  | left | right | home | finish | backspace | delete | space =>
    refine (overruns_edit p _ _ _).trans (iff_of_false ?_ fun h => by simp at h)
    exact fun h => absurd h.1 (by decide)

/-- The messages that a prompt cannot take: going on with the completions where the end of the word
is marked behind that of the line, and deleting a word just before the last character. -/
def Stumbles (p : Prompt) (m : Message) : Prop :=
  (m = .key .tab ∨ m = .key .shiftTab) ∧ p.found ≠ [] ∧ Text.bytes p.field.value < p.wordEnd ∨
  (∃ name, m.keyName? = some name ∧ Field.Edit.ofKey? name = some .deleteWord) ∧
    p.field.pos + 1 = p.field.value.length

theorem overruns_step (p : Prompt) (m : Message) : Overruns (p.step m) ↔ p.Stumbles m := by
  unfold Stumbles
  cases m with
  | typed s =>
    refine (overruns_edit p _ _ _).trans ?_
    simp [Message.keyName?]
  | key k =>
    refine (overruns_press p k).trans ?_
    simp [Message.keyName?]
  | stroke name text isText =>
    refine (overruns_edit p _ _ _).trans ?_
    simp [Message.keyName?]
  | _ => exact iff_of_false (not_overruns_ok _) fun h => by simp [Message.keyName?] at h

/-- Messages go wrong at the first one that the prompt cannot take. -/
theorem overruns_run (p : Prompt) (ms : List Message) :
    Overruns (p.run ms) ↔
      ∃ taken m rest q, ms = taken ++ m :: rest ∧ p.run taken = .ok q ∧ q.Stumbles m := by
  induction ms generalizing p with
  | nil =>
    refine iff_of_false (not_overruns_ok p) ?_
    rintro ⟨taken, m, rest, q, hms, _⟩
    simp at hms
  | cons m ms ih =>
    cases hstep : p.step m with
    | error o =>
      have hfails : p.run (m :: ms) = .error o := by
        rw [run, hstep]
        rfl
      refine iff_of_true ⟨o, hfails⟩ ⟨[], m, ms, p, rfl, rfl, ?_⟩
      exact (overruns_step p m).mp ⟨o, hstep⟩
    | ok next =>
      have hrun : ∀ ms, p.run (m :: ms) = next.1.run ms := fun ms => by
        rw [run, hstep]
        rfl
      rw [hrun, ih]
      constructor
      · rintro ⟨taken, n, rest, q, rfl, hq, hn⟩
        exact ⟨m :: taken, n, rest, q, rfl, (hrun taken).trans hq, hn⟩
      · rintro ⟨taken, n, rest, q, hms, hq, hn⟩
        cases taken with
        | nil =>
          -- The first message has been taken.
          cases hms
          cases hq
          exact absurd (hstep ▸ (overruns_step p m).mpr hn) (not_overruns_ok next)
        | cons first taken =>
          cases hms
          exact ⟨taken, n, rest, q, rfl, (hrun taken).symm.trans hq, hn⟩

/-! ## Main statement -/

/-- Take a fresh prompt through any messages.  They go wrong exactly at the first one that goes on
with the completions where the word is marked behind the end of the line, or that deletes a word
just before the last character.  Otherwise the place in the history is not behind the end, the line
is one that a field can hold, and a walk through the completions has a number and stays among them.
While there are completions, the word is marked in order and starts in the line; it ends there too,
unless the completion that is shown did not fit into the line. -/
theorem run_in_bounds (session : Session) (history : History) (ms : List Message) :
    (Overruns ((start session history).run ms) ↔ ∃ taken m rest p,
      ms = taken ++ m :: rest ∧ (start session history).run taken = .ok p ∧ p.Stumbles m) ∧
    ∀ p, (start session history).run ms = .ok p →
      p.place ≤ p.history.size ∧ p.field.Neat ∧
      -1 ≤ p.chosen ∧ (p.cycle.isSome → 0 ≤ p.chosen) ∧
      (∀ back, p.found ≠ [] → (p.nextCycle back).index < p.found.length) ∧
      (p.found ≠ [] → p.wordStart ≤ p.wordEnd ∧ p.wordStart ≤ Text.bytes p.field.value ∧
        (p.wordEnd ≤ Text.bytes p.field.value ∨
          ∃ m, p.shown = some m ∧ Misfit p.field.value p.wordStart m)) := by
  refine ⟨overruns_run _ ms, fun p h => ?_⟩
  have hsound := (sound_start session history).run h
  refine ⟨hsound.place_le, hsound.neat, ?_, ?_, index_nextCycle_lt p, fun hfound => ?_⟩
  · dsimp only [chosen]
    split <;> omega
  · intro hcycle
    obtain ⟨c, hc⟩ := Option.isSome_iff_exists.mp hcycle
    rw [chosen, hc]
    exact Int.natCast_nonneg _
  · obtain ⟨hordered, ⟨before, rest, hline, hstart⟩, hends⟩ := hsound.marked hfound
    refine ⟨hordered, ?_, hends⟩
    rw [hline, Text.bytes_append, hstart]
    exact Nat.le_add_right _ _

theorem rank_pair {word : List Char} {a b : String} {s t : Int}
    (ha : Match.score? word a.toList = some s) (hb : Match.score? word b.toList = some t)
    (h : s ≤ t) : Match.rank word [a, b] = [⟨b, t⟩, ⟨a, s⟩] := by
  rw [Match.rank, List.filterMap_cons, ha, List.filterMap_cons, hb]
  exact List.mergeSort_of_pairwise (by simpa using h)

/-- With several completions none is taken for the word. -/
theorem refreshed_of_several {p : Prompt} {a b : Match} {rest : List Match}
    (h : p.completions p.word = a :: b :: rest) (confirm : Bool) :
    p.refreshed confirm =
      { p with found := a :: b :: rest, wordStart := p.word.start, wordEnd := p.word.stop } := by
  dsimp only [refreshed]
  rw [h]
  cases confirm <;> rfl

theorem score_control_character : Match.score? ['A'] "A\x01".toList = some 9 := by
  decide +kernel

theorem run_in_bounds_control_character :
    let session : Session := ⟨Registry.ofDecls [⟨"A\x01", .int⟩, ⟨"AB", .int⟩], {}⟩
    (∃ p, (start session {}).run [.typed "A", .key .shiftTab] = .ok p ∧ p.field.Neat ∧
      p.shown = some ⟨"A\x01", 9⟩) ∧
    Overruns ((start session {}).run [.typed "A", .key .shiftTab, .key .tab]) := by
  intro session
  let fresh : Prompt := { session, history := {}, field := ⟨['A'], 1, 80, 0, 1⟩, place := 0 }
  let typed : Prompt := { fresh with found := [⟨"AB", 9⟩, ⟨"A\x01", 9⟩], wordEnd := 1 }
  let p : Prompt := { typed with wordEnd := 2, cycle := some ⟨1, ['A'], 1⟩ }
  have hrank := rank_pair score_control_character
    (show Match.score? ['A'] "AB".toList = some 9 by decide +kernel) (Int.le_refl 9)
  have hfound : fresh.completions fresh.word = typed.found := by
    rw [completions, if_neg (by decide)]
    exact hrank
  have htyped : (start session {}).step (.typed "A") = .ok (typed, []) := by
    show Except.ok (fresh.refreshed true, []) = _
    rw [refreshed_of_several hfound]
    rfl
  have hwalked : typed.step (.key .shiftTab) = .ok (p, []) := rfl
  have hrun : (start session {}).run [.typed "A", .key .shiftTab] = .ok p := by
    rw [run, htyped]
    show typed.run [.key .shiftTab] = .ok p
    rw [run, hwalked]
    rfl
  have hneat := ((run_in_bounds session {} [.typed "A", .key .shiftTab]).2 p hrun).2.1
  refine ⟨⟨p, hrun, hneat, rfl⟩, (run_in_bounds session {} _).1.mpr ?_⟩
  refine ⟨[.typed "A", .key .shiftTab], .key .tab, [], p, rfl, hrun, .inl ⟨.inl rfl, ?_, ?_⟩⟩
  · exact List.cons_ne_nil _ _
  · decide

end Prompt

end Lowlang.Shell
