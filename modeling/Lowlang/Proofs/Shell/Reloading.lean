import Lowlang.Proofs.Shell.Recency
import Lowlang.Proofs.Text.Bytes
import Mathlib.Data.List.Perm.Subperm

set_option autoImplicit false

/-!
# The history in its file

A history that is kept in a file can be loaded from it again.  The file holds the entries of its
lines, blank lines aside, as long as each line is short enough to be read.

A file is written in two ways.  Written anew, it holds exactly the entries written, provided their
stored forms are short enough.  When it only grows, the new entry joins whatever stands behind the
last line break; so it is a line of its own only if nothing stands there.

Main statement: a history loaded from a file agrees with the file after any lines have been
submitted, if and only if the file ended with a line break (or was empty), or held as many entries
as a history may have, so that it is written anew with the first line.
-/

namespace Lowlang.Shell

namespace Entry

/-- The stored form is short enough to be read. -/
def Fits (e : Entry) : Prop :=
  e.stored.utf8ByteSize < History.lineLimit

/-- The stored form is one line without blanks at its ends. -/
structure Neat (e : Entry) : Prop where
  oneLine : '\n' ∉ e.stored.toList
  tight : Text.Tight e.stored.toList

theorem toList_stored (e : Entry) : e.stored.toList = e.mode.mark.toList ++ e.line.toList := by
  rw [stored, String.toList_append]

/-- A mark in front of trimmed text keeps it trimmed. -/
theorem neat_of_tight {e : Entry} (hline : '\n' ∉ e.line.toList) (hne : e.line ≠ "")
    (htight : Text.Tight e.line.toList) : e.Neat := by
  have hmark : '\n' ∉ e.mode.mark.toList ∧
      ∃ c rest, e.mode.mark.toList = c :: rest ∧ Text.isSpace c = false := by
    cases e.mode with
    | lower => exact ⟨by decide, 'L', [':'], rfl, rfl⟩
    | command => exact ⟨by decide, 'C', [':'], rfl, rfl⟩
  obtain ⟨hfree, c, rest, hc, hspace⟩ := hmark
  have hlast : e.stored.toList.getLast? = e.line.toList.getLast? := by
    rw [toList_stored, List.getLast?_append_of_ne_nil _ (by simpa using hne)]
  refine ⟨?_, ?_, ?_⟩
  · rw [toList_stored, List.mem_append]
    exact fun h => h.elim hfree hline
  · rw [toList_stored, hc]
    simpa using hspace
  · rw [hlast]
    exact htight.last

/-- An entry read from a line is stored as that line, or as the line behind a mark. -/
theorem stored_ofStored (s : String) :
    (ofStored s).stored = s ∨ ofStored s = ⟨.lower, s⟩ := by
  unfold ofStored
  split
  · next line h =>
    refine .inl (String.toList_inj.mp ?_)
    simp [toList_stored, h, Mode.mark]
  · next line h =>
    refine .inl (String.toList_inj.mp ?_)
    simp [toList_stored, h, Mode.mark]
  · exact .inr rfl

end Entry

namespace History

/-! ## What a file holds -/

/-- The entry on a line, if any. -/
def entryOn (line : String) : List Entry :=
  if Text.trimSpace line = "" then [] else [Entry.ofStored (Text.trimSpace line)]

/-- The text can be read to its end, and holds the entries. -/
structure Keeps (content : String) (es : List Entry) : Prop where
  short : ∀ l ∈ lines content, l.utf8ByteSize < lineLimit
  entries : (lines content).flatMap entryOn = es

theorem readLines_cons (l : String) (ls : List String) :
    readLines (l :: ls) = if lineLimit ≤ l.utf8ByteSize then
      ([], some (.plain "bufio.Scanner: token too long" none))
    else (entryOn l ++ (readLines ls).1, (readLines ls).2) := by
  unfold entryOn
  by_cases hblank : Text.trimSpace l = ""
  · simp only [readLines, if_pos hblank, List.nil_append]
  · simp only [readLines, if_neg hblank, List.cons_append, List.nil_append]

/-- Reading succeeds on short lines, and gives the entries on them. -/
theorem readLines_eq_iff (ls : List String) (es : List Entry) :
    readLines ls = (es, none) ↔
      (∀ l ∈ ls, l.utf8ByteSize < lineLimit) ∧ ls.flatMap entryOn = es := by
  induction ls generalizing es with
  | nil => simp [readLines, eq_comm]
  | cons l ls ih =>
    rw [readLines_cons, List.forall_mem_cons, List.flatMap_cons]
    by_cases hl : lineLimit ≤ l.utf8ByteSize
    · rw [if_pos hl]
      simp [Nat.not_lt.mpr hl]
    · rw [if_neg hl, Prod.mk.injEq]
      have hrest := ih (readLines ls).1
      constructor
      · rintro ⟨rfl, hnone⟩
        obtain ⟨hshort, hentries⟩ := hrest.mp (Prod.ext rfl hnone)
        exact ⟨⟨Nat.lt_of_not_le hl, hshort⟩, by rw [hentries]⟩
      · rintro ⟨⟨_, hshort⟩, rfl⟩
        rw [(ih _).mpr ⟨hshort, rfl⟩]
        exact ⟨rfl, rfl⟩

/-- A new history that is loaded from where this one is kept is the same. -/
def Reloads (h : History) : Prop :=
  ({ keeping := h.keeping } : History).load = (h, none)

/-- Loading takes over what the file holds; no file holds as much as an empty one. -/
theorem load_eq_iff (content : Option String) (h : History) :
    ({ keeping := .file content } : History).load = (h, none) ↔
      h.keeping = .file content ∧ Keeps (content.getD "") h.entries := by
  rcases h with ⟨es, keeping⟩
  cases content with
  | none =>
    have hempty : Keeps "" es ↔ es = [] :=
      ⟨fun hk => hk.entries.symm, fun he => ⟨by decide, he.symm⟩⟩
    simp only [load, Option.getD_none, Prod.mk.injEq, History.mk.injEq, and_true, hempty]
    exact ⟨fun h => ⟨h.2.symm, h.1.symm⟩, fun h => ⟨h.2.symm, h.1.symm⟩⟩
  | some text =>
    have hread := readLines_eq_iff (lines text) es
    simp only [load, Option.getD_some, Prod.mk.injEq, History.mk.injEq]
    rw [Prod.ext_iff] at hread
    constructor
    · rintro ⟨⟨hes, hkeeping⟩, hnone⟩
      obtain ⟨hshort, hentries⟩ := hread.mp ⟨hes, hnone⟩
      exact ⟨hkeeping.symm, hshort, hentries⟩
    · rintro ⟨hkeeping, hshort, hentries⟩
      obtain ⟨hes, hnone⟩ := hread.mpr ⟨hshort, hentries⟩
      exact ⟨⟨hes, hkeeping.symm⟩, hnone⟩

theorem reloads_iff {h : History} {content : Option String} (hkeeping : h.keeping = .file content) :
    Reloads h ↔ Keeps (content.getD "") h.entries := by
  rw [Reloads, hkeeping, load_eq_iff]
  exact ⟨fun h => h.2, fun h => ⟨hkeeping, h⟩⟩

/-! ## Lines -/

/-- The text is empty or ends with a line break. -/
def Ended (content : String) : Prop :=
  ∀ c ∈ content.toList.getLast?, c = '\n'

theorem ended_iff (content : String) :
    content.toList.getLast?.all (· == '\n') = true ↔ Ended content := by
  unfold Ended
  cases content.toList.getLast? with
  | none => simp
  | some c => simp

instance (content : String) : Decidable (Ended content) :=
  decidable_of_iff _ (ended_iff content)

/-- A text has a last line, be it empty, which holds no line break. -/
theorem exists_lastLine (s : List Char) :
    '\n' ∉ s ∨ ∃ front last, s = front ++ '\n' :: last ∧ '\n' ∉ last := by
  induction s using List.reverseRecOn with
  | nil => exact .inl (by simp)
  | append_singleton s c ih =>
    by_cases hc : c = '\n'
    · subst hc
      exact .inr ⟨s, [], rfl, by simp⟩
    · have hfree : ∀ t : List Char, '\n' ∉ t → '\n' ∉ t ++ [c] := by
        intro t ht
        simpa [ht] using fun h => hc h.symm
      rcases ih with h | ⟨front, last, rfl, h⟩
      · exact .inl (hfree s h)
      · exact .inr ⟨front, last ++ [c], by simp, hfree last h⟩

theorem lines_of_free {s : List Char} (h : '\n' ∉ s) :
    lines (String.ofList s) = [String.ofList s] := by
  rw [lines, String.toList_ofList, List.splitOn_eq_singleton h, List.map_singleton]

theorem lines_append_break (front last : List Char) :
    lines (String.ofList (front ++ '\n' :: last))
      = lines (String.ofList front) ++ lines (String.ofList last) := by
  simp only [lines, String.toList_ofList, List.splitOn_append_cons_self, List.map_append]

theorem not_mem_of_mem_splitOn {s part : List Char} (h : part ∈ s.splitOn '\n') : '\n' ∉ part := by
  induction s generalizing part with
  | nil =>
    rw [List.splitOn_nil, List.mem_singleton] at h
    simp [h]
  | cons c s ih =>
    rw [List.splitOn_cons_eq_if_modifyHead] at h
    split at h
    · rcases List.mem_cons.mp h with rfl | h
      · simp
      · exact ih h
    · next hc =>
      cases hs : s.splitOn '\n' with
      | nil => exact absurd hs (List.splitOn_ne_nil _ _)
      | cons first parts =>
        rw [hs, List.modifyHead_cons] at h
        rw [hs] at ih
        rcases List.mem_cons.mp h with rfl | h
        · have hfirst := ih List.mem_cons_self
          simp only [List.mem_cons, not_or]
          exact ⟨fun hn => hc (by simp [← hn]), hfirst⟩
        · exact ih (List.mem_cons_of_mem _ h)

theorem not_mem_of_mem_lines {content l : String} (h : l ∈ lines content) : '\n' ∉ l.toList := by
  obtain ⟨part, hpart, rfl⟩ := List.mem_map.mp h
  rw [String.toList_ofList]
  exact not_mem_of_mem_splitOn hpart

theorem not_mem_trimSpace {c : Char} {s : String} (h : c ∉ s.toList) :
    c ∉ (Text.trimSpace s).toList := by
  have htrim : (Text.trimSpace s).toList <:+: s.toList := by
    rw [Text.trimSpace, String.toList_ofList, Text.trim_eq_rdropWhile]
    exact (List.rdropWhile_prefix _ _).isInfix.trans (List.dropWhile_suffix _).isInfix
  exact fun hc => h (htrim.mem hc)

/-- A line added to a text joins its last line, which is empty only if the text has ended. -/
theorem exists_lines_grown (content : String) :
    ∃ front last, lines content = front ++ [last] ∧ (last = "" ↔ Ended content) ∧
      ∀ s : String, '\n' ∉ s.toList →
        lines (content ++ s ++ "\n") = front ++ [last ++ s, ""] := by
  obtain ⟨text, rfl⟩ : ∃ text, content = String.ofList text :=
    ⟨content.toList, (String.ofList_toList).symm⟩
  -- The last line alone: it is all of a text without line breaks.
  have hgrown : ∀ last : List Char, '\n' ∉ last → ∀ s : String, '\n' ∉ s.toList →
      lines (String.ofList (last ++ s.toList ++ ['\n'])) = [String.ofList last ++ s, ""] := by
    intro last hlast s hs
    have hfree : '\n' ∉ last ++ s.toList := by simp [hlast, hs]
    rw [lines_append_break, lines_of_free hfree, lines_of_free (by simp), String.ofList_append,
      String.ofList_toList]
    rfl
  have htext : ∀ s : String, String.ofList text ++ s ++ "\n"
      = String.ofList (text ++ s.toList ++ ['\n']) := by
    intro s
    rw [String.ofList_append, String.ofList_append, String.ofList_toList]
  simp only [htext, Ended, String.toList_ofList]
  rcases exists_lastLine text with h | ⟨front, last, rfl, h⟩
  · refine ⟨[], String.ofList text, lines_of_free h, ?_, hgrown text h⟩
    constructor
    · intro hempty c hc
      rw [String.ofList_eq_empty_iff.mp hempty] at hc
      cases hc
    · intro hended
      rw [String.ofList_eq_empty_iff]
      by_contra hne
      have hlast := hended _ (List.getLast?_eq_some_getLast hne)
      exact h (hlast ▸ List.getLast_mem hne)
  · refine ⟨lines (String.ofList front), String.ofList last, ?_, ?_, ?_⟩
    · rw [lines_append_break, lines_of_free h]
    · cases last with
      | nil => simp
      | cons c last =>
        have hne : c :: last ≠ [] := List.cons_ne_nil c last
        rw [List.getLast?_append_of_ne_nil _ (List.cons_ne_nil _ _), List.getLast?_cons_cons]
        constructor
        · intro hempty
          exact absurd (String.ofList_eq_empty_iff.mp hempty) hne
        · intro hended
          have hlast := hended _ (List.getLast?_eq_some_getLast hne)
          exact absurd (hlast ▸ List.getLast_mem hne) h
    · intro s hs
      rw [List.append_assoc, List.append_assoc, List.cons_append, lines_append_break,
        ← List.append_assoc, hgrown last h s hs]

/-! ## Writing -/

theorem entryOn_stored {e : Entry} (h : e.Neat) : entryOn e.stored = [e] := by
  have hne : e.stored ≠ "" := by
    rw [← String.toList_inj.ne, Entry.toList_stored]
    cases e.mode <;> simp [Mode.mark]
  rw [entryOn, Text.trimSpace, h.tight.trim_eq, String.ofList_toList, if_neg hne,
    Entry.ofStored_stored]

theorem ended_grown (content s : String) : Ended (content ++ s ++ "\n") := by
  intro c hc
  simpa [eq_comm] using hc

/-- A text that has ended holds one more entry when it grows by its line. -/
theorem Keeps.grow {content : String} {es : List Entry} (h : Keeps content es)
    (hended : Ended content) {e : Entry} (hneat : e.Neat) (hfits : e.Fits) :
    Keeps (content ++ e.stored ++ "\n") (es ++ [e]) := by
  obtain ⟨front, last, hlines, hlast, hgrown⟩ := exists_lines_grown content
  have hempty : last = "" := hlast.mpr hended
  subst hempty
  have hblank : entryOn "" = [] := rfl
  obtain ⟨hshort, rfl⟩ := h
  constructor
  · rw [hlines] at hshort
    rw [hgrown _ hneat.oneLine]
    intro l hl
    simp only [List.mem_append, List.mem_cons, List.not_mem_nil, or_false,
      String.empty_append] at hl
    rcases hl with hl | rfl | rfl
    · exact hshort l (List.mem_append_left _ hl)
    · exact hfits
    · exact hshort "" (List.mem_append_right _ List.mem_cons_self)
  · simp [hgrown _ hneat.oneLine, hlines, entryOn_stored hneat, hblank]

theorem storedText_concat (es : List Entry) (e : Entry) :
    storedText (es ++ [e]) = storedText es ++ e.stored ++ "\n" := by
  simp [storedText, String.join_append, String.append_assoc]

theorem ended_storedText (es : List Entry) : Ended (storedText es) := by
  induction es using List.reverseRecOn with
  | nil => exact fun c hc => nomatch hc
  | append_singleton es e _ =>
    rw [storedText_concat]
    exact ended_grown _ _

/-- The lines of a text written anew are the stored entries. -/
theorem lines_storedText {es : List Entry} (h : ∀ e ∈ es, e.Neat) :
    lines (storedText es) = es.map Entry.stored ++ [""] := by
  induction es using List.reverseRecOn with
  | nil => rfl
  | append_singleton es e ih =>
    have hes : ∀ d ∈ es, d.Neat := fun d hd => h d (List.mem_append_left _ hd)
    have he : e.Neat := h e (by simp)
    obtain ⟨front, last, hlines, hlast, hgrown⟩ := exists_lines_grown (storedText es)
    have hempty : last = "" := hlast.mpr (ended_storedText es)
    subst hempty
    have hfront : front = es.map Entry.stored :=
      List.append_cancel_right (hlines.symm.trans (ih hes))
    rw [storedText_concat, hgrown _ he.oneLine, hfront]
    simp

/-- A text written anew holds the entries written, if and only if they all fit. -/
theorem keeps_storedText_iff {es : List Entry} (h : ∀ e ∈ es, e.Neat) :
    Keeps (storedText es) es ↔ ∀ e ∈ es, e.Fits := by
  have hentries : (lines (storedText es)).flatMap entryOn = es := by
    have hstored : (es.map Entry.stored).flatMap entryOn = es.flatMap fun e => [e] := by
      rw [List.flatMap_map]
      exact List.flatMap_congr fun e he => entryOn_stored (h e he)
    rw [lines_storedText h, List.flatMap_append, hstored, List.flatMap_singleton']
    simp [entryOn, Text.trimSpace, Text.trim]
  constructor
  · intro hk e he
    refine hk.short e.stored ?_
    rw [lines_storedText h]
    exact List.mem_append_left _ (List.mem_map_of_mem he)
  · intro hfits
    refine ⟨?_, hentries⟩
    rw [lines_storedText h]
    intro l hl
    rcases List.mem_append.mp hl with hl | hl
    · obtain ⟨e, he, rfl⟩ := List.mem_map.mp hl
      exact hfits e he
    · rw [List.mem_singleton.mp hl]
      decide

/-- Entries read from a file are neat. -/
theorem neat_of_keeps {content : String} {es : List Entry} (h : Keeps content es) :
    ∀ e ∈ es, e.Neat := by
  intro e he
  rw [← h.entries] at he
  obtain ⟨l, hl, he⟩ := List.mem_flatMap.mp he
  have hfree := not_mem_trimSpace (not_mem_of_mem_lines hl)
  unfold entryOn at he
  split at he
  · cases he
  · next hne =>
    rw [List.mem_singleton.mp he]
    have htight : Text.Tight (Text.trimSpace l).toList := by
      rw [Text.trimSpace, String.toList_ofList]
      exact Text.tight_trim _
    rcases Entry.stored_ofStored (Text.trimSpace l) with hs | hs
    · constructor
      · rw [hs]
        exact hfree
      · rw [hs]
        exact htight
    · rw [hs]
      exact Entry.neat_of_tight hfree hne htight

/-! ## Runs -/

/-- The line can be stored: it holds no line break, and is short enough behind its mark. -/
structure Storable (l : String × Mode) : Prop where
  oneLine : '\n' ∉ l.1.toList
  fits : (Entry.mk l.2 (Text.trimSpace l.1)).Fits

theorem Storable.neat {l : String × Mode} (h : Storable l) {e : Entry}
    (he : used? l.1 l.2 = some e) : e.Neat ∧ e.Fits := by
  obtain ⟨rfl, hne, _⟩ := used?_eq_some he
  refine ⟨Entry.neat_of_tight (not_mem_trimSpace h.oneLine) hne ?_, h.fits⟩
  rw [Text.trimSpace, String.toList_ofList]
  exact Text.tight_trim _

/-- The history and its file agree, and the next line will not make them differ: the file has
ended, or will be written anew. -/
structure InStep (h : History) : Prop where
  reloads : Reloads h
  neat : ∀ e ∈ h.entries, e.Neat
  fits : ∀ e ∈ h.entries, e.Fits
  file : ∃ content, h.keeping = .file content ∧ (Ended (content.getD "") ∨ capacity ≤ h.size)

theorem mem_of_mem_push {h : History} {e d : Entry} (hd : d ∈ (h.push e).entries) :
    d ∈ h.entries ∨ d = e := by
  rw [entries_push] at hd
  rcases List.mem_append.mp (List.mem_of_mem_drop hd) with hd | hd
  · exact .inl (List.mem_of_mem_erase hd)
  · exact .inr (List.mem_singleton.mp hd)

/-- A known entry, or one that makes the history too long, has the file written anew. -/
theorem keeping_push_anew {h : History} {content : Option String} {e : Entry}
    (hkeeping : h.keeping = .file content) (hanew : e ∈ h.entries ∨ capacity ≤ h.size) :
    (h.push e).keeping = .file (some (storedText (h.push e).entries)) := by
  have htest : (h.entries.contains e
      || decide (capacity < (h.entries.erase e ++ [e]).length)) = true := by
    by_cases he : e ∈ h.entries
    · simp [he]
    · have hlong : capacity < (h.entries.erase e ++ [e]).length := by
        rw [List.erase_of_not_mem he, List.length_append]
        exact Nat.lt_succ_of_le (hanew.resolve_left he)
      rw [decide_eq_true hlong, Bool.or_true]
  simp only [push, written, hkeeping, htest, if_true]

/-- Any other entry makes the file grow by its line, and is added to the history. -/
theorem push_grown {h : History} {content : Option String} {e : Entry}
    (hkeeping : h.keeping = .file content) (he : e ∉ h.entries) (hsize : h.size < capacity) :
    h.push e = ⟨h.entries ++ [e], .file (some (content.getD "" ++ e.stored ++ "\n"))⟩ := by
  have hlength : (h.entries ++ [e]).length ≤ capacity := by
    rw [List.length_append]
    exact hsize
  have htest : (h.entries.contains e || decide (capacity < (h.entries ++ [e]).length)) = false := by
    simp only [Bool.or_eq_false_iff, decide_eq_false_iff_not]
    exact ⟨by simpa using he, Nat.not_lt.mpr hlength⟩
  simp only [push, written, hkeeping, List.erase_of_not_mem he, htest, if_false, Bool.false_eq_true,
    latest_of_length_le hlength]

theorem inStep_of_keeps {h : History} {text : String} (hkeeping : h.keeping = .file (some text))
    (hended : Ended text) (hkeeps : Keeps text h.entries) (hneat : ∀ e ∈ h.entries, e.Neat)
    (hfits : ∀ e ∈ h.entries, e.Fits) : InStep h :=
  ⟨(reloads_iff hkeeping).mpr hkeeps, hneat, hfits, some text, hkeeping, .inl hended⟩

theorem InStep.push {h : History} (hs : InStep h) {e : Entry} (hneat : e.Neat) (hfits : e.Fits) :
    InStep (h.push e) := by
  obtain ⟨content, hkeeping, hended⟩ := hs.file
  have hpushed : ∀ d ∈ (h.push e).entries, d.Neat ∧ d.Fits := by
    intro d hd
    rcases mem_of_mem_push hd with hd | rfl
    · exact ⟨hs.neat d hd, hs.fits d hd⟩
    · exact ⟨hneat, hfits⟩
  have hneats : ∀ d ∈ (h.push e).entries, d.Neat := fun d hd => (hpushed d hd).1
  have hfit : ∀ d ∈ (h.push e).entries, d.Fits := fun d hd => (hpushed d hd).2
  by_cases hanew : e ∈ h.entries ∨ capacity ≤ h.size
  · have hkeeps := (keeps_storedText_iff hneats).mpr hfit
    exact inStep_of_keeps (keeping_push_anew hkeeping hanew) (ended_storedText _) hkeeps hneats hfit
  · obtain ⟨he, hsize⟩ := not_or.mp hanew
    have hend : Ended (content.getD "") := hended.resolve_right hsize
    have hgrown := push_grown hkeeping he (Nat.lt_of_not_le hsize)
    have hkeeps := ((reloads_iff hkeeping).mp hs.reloads).grow hend hneat hfits
    rw [hgrown] at hneats hfit ⊢
    exact inStep_of_keeps rfl (ended_grown _ _) hkeeps hneats hfit

theorem InStep.append {h : History} (hs : InStep h) {l : String × Mode} (hl : Storable l) :
    InStep (h.append l.1 l.2) := by
  rw [append_eq]
  cases hused : used? l.1 l.2 with
  | none => exact hs
  | some e =>
    obtain ⟨hneat, hfits⟩ := hl.neat hused
    simp only
    split
    · exact hs
    · exact hs.push hneat hfits

theorem InStep.appendAll {h : History} (hs : InStep h) {submitted : List (String × Mode)}
    (hl : ∀ l ∈ submitted, Storable l) : InStep (h.appendAll submitted) := by
  induction submitted generalizing h with
  | nil => exact hs
  | cons l submitted ih =>
    rw [appendAll_cons]
    exact ih (hs.append (hl l List.mem_cons_self)) fun m hm => hl m (List.mem_cons_of_mem _ hm)

/-! ## Files that have not ended -/

/-- A line of `n + 1` letters. -/
def filler (n i : Nat) : List Char :=
  List.replicate i 'a' ++ 'b' :: List.replicate (n - i) 'a'

theorem filler_inj {n i j : Nat} (h : filler n i = filler n j) : i = j := by
  have hplace : ∀ k, (filler n k).idxOf 'b' = k := by
    intro k
    have hfree : 'b' ∉ List.replicate k 'a' := by simp [List.mem_replicate]
    rw [filler, List.idxOf_append_of_notMem hfree, List.idxOf_cons_self, List.length_replicate,
      Nat.add_zero]
  rw [← hplace i, h, hplace]

theorem bytes_filler {n i : Nat} (h : i ≤ n) : Text.bytes (filler n i) = n + 1 := by
  have ha : 'a'.utf8Size = 1 := rfl
  have hb : 'b'.utf8Size = 1 := rfl
  rw [filler, Text.bytes_append, Text.bytes_cons, Text.bytes_replicate, Text.bytes_replicate,
    ha, hb]
  omega

theorem mem_filler {n i : Nat} {c : Char} (h : c ∈ filler n i) : c = 'a' ∨ c = 'b' := by
  simp only [filler, List.mem_append, List.mem_cons, List.mem_replicate] at h
  rcases h with h | h | h
  · exact .inl h.2
  · exact .inr h
  · exact .inl h.2

theorem tight_filler (n i : Nat) : Text.Tight (filler n i) := by
  have hspace : ∀ c ∈ filler n i, Text.isSpace c = false := by
    intro c hc
    rcases mem_filler hc with rfl | rfl
    · rfl
    · rfl
  exact ⟨fun c hc => hspace c (List.mem_of_mem_head? hc),
    fun c hc => hspace c (List.mem_of_getLast? hc)⟩

/-- A history that is not full lacks one of the longest entries that can be stored. -/
theorem exists_longest_not_mem {es : List Entry} (h : es.length < capacity) :
    ∃ line, Storable (line, .lower) ∧ used? line .lower = some ⟨.lower, line⟩ ∧
      (Entry.mk .lower line).stored.utf8ByteSize + 1 = lineLimit ∧ ⟨.lower, line⟩ ∉ es := by
  let longest (i : Nat) : Entry := ⟨.lower, String.ofList (filler (lineLimit - 4) i)⟩
  have hdistinct : ((List.range capacity).map longest).Nodup := by
    refine List.nodup_range.map fun i j hij => ?_
    exact filler_inj (String.ofList_inj.mp (Entry.mk.inj hij).2)
  obtain ⟨i, hi, hfresh⟩ : ∃ i < capacity, longest i ∉ es := by
    by_contra hall
    push Not at hall
    have hsub : (List.range capacity).map longest ⊆ es := by
      intro e he
      obtain ⟨i, hi, rfl⟩ := List.mem_map.mp he
      exact hall i (List.mem_range.mp hi)
    have hlength := (hdistinct.subperm hsub).length_le
    rw [List.length_map, List.length_range] at hlength
    omega
  have htrim : Text.trimSpace (longest i).line = (longest i).line := by
    rw [Text.trimSpace, String.toList_ofList, (tight_filler _ i).trim_eq]
  have hsize : (longest i).stored.utf8ByteSize + 1 = lineLimit := by
    have hi' : i ≤ lineLimit - 4 := by
      have : capacity ≤ lineLimit - 4 := by decide
      omega
    have hmark : Mode.lower.mark.utf8ByteSize = 2 := rfl
    have hlimit : 4 ≤ lineLimit := by decide
    rw [Entry.stored, String.utf8ByteSize_append, Text.utf8ByteSize_ofList, bytes_filler hi', hmark]
    omega
  have hne : (longest i).line ≠ "" := by
    intro hempty
    have hnil := String.ofList_eq_empty_iff.mp hempty
    simp [filler] at hnil
  refine ⟨(longest i).line, ⟨?_, ?_⟩, ?_, hsize, hfresh⟩
  · rw [String.toList_ofList]
    intro hc
    rcases mem_filler hc with h | h
    · cases h
    · cases h
  · rw [htrim]
    exact Nat.lt_of_succ_le (Nat.le_of_eq hsize)
  · rw [used?, htrim, if_neg hne]

/-- In a file that has not ended, a longest entry makes a line that cannot be read. -/
theorem exists_not_reloads {h : History} {content : Option String}
    (hkeeping : h.keeping = .file content) (hopen : ¬ Ended (content.getD ""))
    (hsize : h.size < capacity) :
    ∃ l, Storable l ∧ ¬ Reloads (h.append l.1 l.2) := by
  obtain ⟨line, hstorable, hused, hlong, hfresh⟩ := exists_longest_not_mem hsize
  refine ⟨(line, .lower), hstorable, ?_⟩
  have hlast : h.entries.getLast? ≠ some ⟨.lower, line⟩ :=
    fun hlast => hfresh (List.mem_of_getLast? hlast)
  have hpush := push_grown hkeeping hfresh hsize
  rw [append_eq, hused]
  simp only
  rw [if_neg hlast, hpush, reloads_iff rfl]
  intro hkeeps
  obtain ⟨front, last, _, hempty, hgrown⟩ := exists_lines_grown (content.getD "")
  have hoverlong := hkeeps.short (last ++ (Entry.mk .lower line).stored) (by
    rw [Option.getD_some, hgrown _ (hstorable.neat hused).1.oneLine]
    simp)
  have hpos : last.utf8ByteSize ≠ 0 := by
    rw [Ne, String.utf8ByteSize_eq_zero_iff]
    exact fun hlast => hopen (hempty.mp hlast)
  rw [String.utf8ByteSize_append] at hoverlong
  omega

/-! ## Main statement -/

/-- Take a history loaded from a file.  If its entries are short enough to be stored, it agrees
with the file after any lines that can be stored, exactly when the file had ended or the history
is full from the start.  And an entry used again, which has the file written anew, leaves the two
in agreement exactly when every entry is short enough to be stored: one that was read without a
mark need not be. -/
theorem loaded_reloads {content : Option String} {h : History}
    (hload : ({ keeping := .file content } : History).load = (h, none)) :
    ((∀ e ∈ h.entries, e.Fits) →
      ((∀ submitted, (∀ l ∈ submitted, Storable l) → Reloads (h.appendAll submitted)) ↔
        Ended (content.getD "") ∨ capacity ≤ h.size)) ∧
    ∀ e ∈ h.entries, (Reloads (h.push e) ↔ ∀ d ∈ (h.push e).entries, d.Fits) := by
  obtain ⟨hkeeping, hkeeps⟩ := (load_eq_iff content h).mp hload
  have hneat := neat_of_keeps hkeeps
  refine ⟨fun hfits => ⟨?_, ?_⟩, ?_⟩
  · intro hall
    by_contra hopen
    obtain ⟨hopen, hsize⟩ := not_or.mp hopen
    obtain ⟨l, hl, hnot⟩ := exists_not_reloads hkeeping hopen (Nat.lt_of_not_le hsize)
    have hone := hall [l] fun m hm => List.mem_singleton.mp hm ▸ hl
    rw [appendAll_cons, appendAll_nil] at hone
    exact hnot hone
  · intro hended submitted hl
    have hstart : InStep h :=
      ⟨(reloads_iff hkeeping).mpr hkeeps, hneat, hfits, content, hkeeping, hended⟩
    exact (hstart.appendAll hl).reloads
  · intro e he
    have hpushed : ∀ d ∈ (h.push e).entries, d.Neat := by
      intro d hd
      rcases mem_of_mem_push hd with hd | rfl
      · exact hneat d hd
      · exact hneat d he
    rw [reloads_iff (keeping_push_anew hkeeping (.inl he)), Option.getD_some]
    exact keeps_storedText_iff hpushed

/-- A file of one entry agrees with its history for good if its line is ended, and else does
not. -/
theorem loaded_reloads_one_line :
    let ended : History := ⟨[⟨.lower, "a"⟩], .file (some "L:a\n")⟩
    let unended : History := ⟨[⟨.lower, "a"⟩], .file (some "L:a")⟩
    (({ keeping := ended.keeping } : History).load = (ended, none) ∧
      ∀ submitted, (∀ l ∈ submitted, Storable l) → Reloads (ended.appendAll submitted)) ∧
    ({ keeping := unended.keeping } : History).load = (unended, none) ∧
      ¬ ∀ submitted, (∀ l ∈ submitted, Storable l) → Reloads (unended.appendAll submitted) := by
  intro ended unended
  have hended : ({ keeping := ended.keeping } : History).load = (ended, none) := by
    rw [load_eq_iff]
    exact ⟨rfl, by decide, by decide⟩
  have hopen : ({ keeping := unended.keeping } : History).load = (unended, none) := by
    rw [load_eq_iff]
    exact ⟨rfl, by decide, by decide⟩
  have hfits : ∀ e ∈ [(⟨.lower, "a"⟩ : Entry)], e.Fits := by
    intro e he
    rw [List.mem_singleton.mp he, Entry.Fits]
    decide
  refine ⟨⟨hended, ?_⟩, hopen, ?_⟩
  · rw [(loaded_reloads hended).1 hfits]
    exact .inl (by decide)
  · rw [(loaded_reloads hopen).1 hfits]
    decide

end History

end Lowlang.Shell
