import Lowlang.Proofs.Text.Bytes
import Lowlang.Proofs.Text.Classes
import Lowlang.Shell.Call
import Mathlib.Data.List.DropRight
import Mathlib.Data.List.Induction

set_option autoImplicit false

/-!
# The call that is typed

The call around the cursor is found by walking back from it and counting parentheses.  Here the
same is said from left to right: each parenthesis that opens goes on a stack, each that closes takes
the last one off, and one that closes nothing is passed over (`unclosed`).

Main statement: the call is the one whose parenthesis is on top of the stack at the cursor, its name
is the longest run of name characters before that, and where the brackets behind it are nested, the
argument is told by the commas in none of them.
-/

namespace Lowlang.Shell.Call

/-! ## Open parentheses -/

/-- The places of the open parentheses behind a text that starts at place `i` with those of `stack`
open, innermost first. -/
def unclosed (stack : List Nat) (i : Nat) : List Char → List Nat
  | [] => stack
  | c :: rest =>
    if c = '(' then unclosed (i :: stack) (i + 1) rest
    else if c = ')' then unclosed stack.tail (i + 1) rest
    else unclosed stack (i + 1) rest

/-- The last character opens a parenthesis, closes the innermost one or does neither. -/
theorem unclosed_concat (stack : List Nat) (i : Nat) (p : List Char) (c : Char) :
    unclosed stack i (p ++ [c]) =
      if c = '(' then (i + p.length) :: unclosed stack i p
      else if c = ')' then (unclosed stack i p).tail
      else unclosed stack i p := by
  induction p generalizing stack i with
  | nil => rfl
  | cons d p ih =>
    have hplace : i + 1 + p.length = i + (d :: p).length := by
      rw [List.length_cons]
      omega
    simp only [List.cons_append, unclosed, ih, hplace]
    split
    · rfl
    · split <;> rfl

/-- What is open is a parenthesis of the text. -/
theorem getElem?_of_mem_unclosed {p : List Char} {k : Nat} (h : k ∈ unclosed [] 0 p) :
    p[k]? = some '(' := by
  induction p using List.reverseRecOn with
  | nil => cases h
  | append_singleton p c ih =>
    have hearlier : k ∈ unclosed [] 0 p → (p ++ [c])[k]? = some '(' := by
      intro hk
      have hlt : k < p.length := (List.getElem?_eq_some_iff.mp (ih hk)).1
      rw [List.getElem?_append_left hlt]
      exact ih hk
    rw [unclosed_concat, Nat.zero_add] at h
    split at h
    · next hc =>
      rcases List.mem_cons.mp h with rfl | h
      · simp [hc]
      · exact hearlier h
    · split at h
      · exact hearlier (List.mem_of_mem_tail h)
      · exact hearlier h

/-- A text around one of its characters: what stands behind it, and what stands before it
backwards. -/
def sides (p : List Char) (k : Nat) : List Char × List Char :=
  (p.drop (k + 1), (p.take k).reverse)

/-- Walking back over `closed` parentheses finds the one below as many on the stack. -/
theorem openParen_reverse (p : List Char) (closed : Nat) :
    openParen closed p.reverse = (unclosed [] 0 p)[closed]?.map (sides p) := by
  induction p using List.reverseRecOn generalizing closed with
  | nil => rfl
  | append_singleton p c ih =>
    -- A parenthesis further to the left has the last character behind it.
    have hbehind : ∀ n, openParen.behind c (openParen n p.reverse)
        = (unclosed [] 0 p)[n]?.map (sides (p ++ [c])) := by
      intro n
      rw [ih, openParen.behind, Option.map_map]
      refine Option.map_congr fun k hk => ?_
      have hopen := getElem?_of_mem_unclosed (List.mem_of_getElem? hk)
      have hlt : k < p.length := (List.getElem?_eq_some_iff.mp hopen).1
      rw [Function.comp_apply, sides, sides, List.drop_append_of_le_length hlt,
        List.take_append_of_le_length hlt.le]
    rw [List.reverse_append, List.reverse_singleton, List.singleton_append, openParen,
      unclosed_concat, Nat.zero_add]
    by_cases hopen : c = '('
    · subst hopen
      cases closed with
      | zero => simp [sides]
      | succ n => simpa using hbehind n
    · by_cases hclose : c = ')'
      · simpa [hclose] using hbehind (closed + 1)
      · simpa [hopen, hclose] using hbehind closed

/-! ## Nested brackets -/

/-- The bracket that a closing one closes. -/
def opener (c : Char) : Char :=
  if c = ')' then '(' else '['

/-- The open brackets behind a character, innermost first, when those of `stack` are open before it;
none when it closes a bracket that is not of the kind of the innermost one. -/
def pass (stack : List Char) (c : Char) : Option (List Char) :=
  if c = '(' ∨ c = '[' then some (c :: stack)
  else if c = ')' ∨ c = ']' then
    match stack with
    | o :: stack => if o = opener c then some stack else none
    | [] => none
  else some stack

/-- The open brackets behind a text; none when its brackets are not nested. -/
def nesting (stack : List Char) : List Char → Option (List Char)
  | [] => some stack
  | c :: rest => (pass stack c).bind fun stack => nesting stack rest

/-- The number of commas with no bracket open before them. -/
def outerCommas (stack s : List Char) : Nat :=
  (List.range s.length).countP fun i => s[i]? = some ',' && nesting stack (s.take i) = some []

/-- A comma at the front counts when nothing is open, the others by what is open behind it. -/
theorem outerCommas_cons {stack next : List Char} {c : Char} (h : pass stack c = some next)
    (s : List Char) :
    outerCommas stack (c :: s) = (if c = ',' ∧ stack = [] then 1 else 0) + outerCommas next s := by
  rw [outerCommas, List.length_cons, List.range_succ_eq_map, List.countP_cons, List.countP_map,
    Nat.add_comm]
  simp [nesting, h, outerCommas, Function.comp_def]

/-- The depth is the number of open brackets. -/
theorem commas_cons {stack next : List Char} {c : Char} (h : pass stack c = some next)
    (s : List Char) :
    commas stack.length (c :: s)
      = (if c = ',' ∧ stack = [] then 1 else 0) + commas next.length s := by
  unfold pass at h
  split at h
  · next hopen =>
    cases h
    rcases hopen with rfl | rfl <;> simp [commas]
  · next hopen =>
    split at h
    · next hclose =>
      cases stack with
      | nil => cases h
      | cons o stack =>
        rw [Option.ite_none_right_eq_some, Option.some.injEq] at h
        obtain ⟨-, rfl⟩ := h
        rcases hclose with rfl | rfl <;> simp [commas]
    · next hclose =>
      cases h
      cases stack with
      | nil => by_cases hcomma : c = ',' <;> simp [commas, hopen, hclose, hcomma, Nat.add_comm]
      | cons o stack => simp [commas, hopen, hclose]; omega

/-- In nested text the commas at depth zero are those with no bracket open before them. -/
theorem commas_eq_outerCommas {stack s : List Char} (h : (nesting stack s).isSome) :
    commas stack.length s = outerCommas stack s := by
  induction s generalizing stack with
  | nil => rfl
  | cons c s ih =>
    rw [nesting] at h
    cases hpass : pass stack c with
    | none =>
      rw [hpass] at h
      cases h
    | some next =>
      rw [hpass] at h
      rw [commas_cons hpass, outerCommas_cons hpass, ih h]

/-! ## Main statement -/

/-- The innermost parenthesis open behind `p` stands between the two parts. -/
structure Innermost (p outer inside : List Char) : Prop where
  parts : p = outer ++ '(' :: inside
  top : (unclosed [] 0 p).head? = some outer.length

/-- The name is the longest run of name characters behind `before`. -/
structure Longest (before name : List Char) : Prop where
  inner : ∀ c ∈ name, isNameChar c
  left : ∀ c ∈ before.getLast?, isNameChar c = false

theorem longest_rtakeWhile (s : List Char) :
    Longest (s.rdropWhile isNameChar) (s.rtakeWhile isNameChar) := by
  refine ⟨fun c hc => List.mem_rtakeWhile_imp hc, fun c hc => ?_⟩
  obtain ⟨hne, rfl⟩ := List.mem_getLast?_eq_getLast hc
  simpa using List.rdropWhile_last_not isNameChar s hne

/-- What is found around the cursor, by the stack at the cursor. -/
theorem around?_eq {line p : List Char} {cursor : Int}
    (hp : Text.StartsBefore cursor.toNat line p) :
    around? line cursor = (unclosed [] 0 p).head?.bind fun k =>
      let name := (p.take k).rtakeWhile isNameChar
      if name.isEmpty then none
      else some ⟨String.ofList name, commas 0 (p.drop (k + 1))⟩ := by
  have hfound := openParen_reverse p 0
  rw [hp.eq (Text.startsBefore_splitAtByte _ _)] at hfound ⊢
  unfold around?
  rw [hfound, List.head?_eq_getElem?]
  cases (unclosed [] 0 (Text.splitAtByte cursor.toNat line).1)[0]? with
  | none => rfl
  | some k => rfl

theorem innermost_iff {p outer inside : List Char} :
    Innermost p outer inside ↔ ∃ k, (unclosed [] 0 p).head? = some k ∧
      outer = p.take k ∧ inside = p.drop (k + 1) := by
  constructor
  · rintro ⟨rfl, htop⟩
    exact ⟨outer.length, htop, by simp, by simp⟩
  · rintro ⟨k, htop, rfl, rfl⟩
    have hmem : k ∈ unclosed [] 0 p := List.mem_of_head? htop
    obtain ⟨hlt, hget⟩ := List.getElem?_eq_some_iff.mp (getElem?_of_mem_unclosed hmem)
    refine ⟨?_, ?_⟩
    · rw [← hget, ← List.drop_eq_getElem_cons hlt, List.take_append_drop]
    · rw [htop, List.length_take, Nat.min_eq_left hlt.le]

/-- A call is found exactly when a parenthesis is open at the cursor and a name character stands
right before the innermost one.  It has the longest name there, and the argument is told by the
commas in no bracket as far as the brackets are nested. -/
theorem around_innermost {line p : List Char} {cursor : Int}
    (hp : Text.StartsBefore cursor.toNat line p) :
    ((∃ call, around? line cursor = some call) ↔
      ∃ outer inside, Innermost p outer inside ∧ ∃ c ∈ outer.getLast?, isNameChar c) ∧
    ∀ call, around? line cursor = some call →
      ∃ before name inside, Innermost p (before ++ name) inside ∧ Longest before name ∧
        name ≠ [] ∧ call.name = String.ofList name ∧
        ((nesting [] inside).isSome → call.arg = outerCommas [] inside) := by
  have hcall : ∀ call, around? line cursor = some call →
      ∃ before name inside, Innermost p (before ++ name) inside ∧ Longest before name ∧
        name ≠ [] ∧ call.name = String.ofList name ∧ call.arg = commas 0 inside := by
    intro call hfound
    rw [around?_eq hp] at hfound
    obtain ⟨k, htop, hcall⟩ := Option.bind_eq_some_iff.mp hfound
    dsimp only at hcall
    split at hcall
    · cases hcall
    · next hname =>
      cases hcall
      refine ⟨_, _, p.drop (k + 1), ?_, longest_rtakeWhile (p.take k), by simpa using hname, rfl,
        rfl⟩
      rw [List.rdropWhile_append_rtakeWhile]
      exact innermost_iff.mpr ⟨k, htop, rfl, rfl⟩
  refine ⟨⟨?_, ?_⟩, fun call hfound => ?_⟩
  · rintro ⟨call, hfound⟩
    obtain ⟨before, name, inside, hinnermost, hlongest, hname, -⟩ := hcall call hfound
    refine ⟨before ++ name, inside, hinnermost, name.getLast hname, ?_, ?_⟩
    · rw [List.getLast?_append_of_ne_nil _ hname, List.getLast?_eq_some_getLast hname]
      rfl
    · exact hlongest.inner _ (List.getLast_mem hname)
  · rintro ⟨outer, inside, hinnermost, c, hlast, hc⟩
    obtain ⟨k, htop, rfl, rfl⟩ := innermost_iff.mp hinnermost
    have hname : (p.take k).rtakeWhile isNameChar ≠ [] := by
      rw [Ne, List.rtakeWhile_eq_nil_iff, Classical.not_forall]
      obtain ⟨hne, rfl⟩ := List.mem_getLast?_eq_getLast hlast
      exact ⟨hne, not_not_intro hc⟩
    rw [around?_eq hp, htop, Option.bind_some]
    simp [hname]
  · obtain ⟨before, name, inside, hinnermost, hlongest, hname, htext, harg⟩ := hcall call hfound
    refine ⟨before, name, inside, hinnermost, hlongest, hname, htext, fun hnested => ?_⟩
    rw [harg, ← commas_eq_outerCommas hnested]
    rfl

/-- Behind a call that is closed, one parenthesis too many and characters of two bytes, in the third
argument. -/
theorem around_innermost_third_argument :
    let p := ")é(a)), größe.x(f(1, [2, 3]), (4), [5, 6".toList
    let line := p ++ ", 7])".toList
    Text.StartsBefore (43 : Int).toNat line p ∧ around? line 43 = some ⟨"größe.x", 2⟩ ∧
      ∃ before name inside, Innermost p (before ++ name) inside ∧ Longest before name ∧
        name ≠ [] ∧ "größe.x" = String.ofList name ∧ (nesting [] inside).isSome ∧
        2 = outerCommas [] inside := by
  intro p line
  have hp : Text.StartsBefore (43 : Int).toNat line p := by
    have hcut := Text.startsBefore_splitAtByte (Text.bytes p) line
    rwa [Text.splitAtByte_bytes] at hcut
  have hfound : around? line 43 = some ⟨"größe.x", 2⟩ := by decide +kernel
  obtain ⟨before, name, inside, hinnermost, hlongest, hname, htext, harg⟩ :=
    (around_innermost hp).2 _ hfound
  have hnested : (nesting [] inside).isSome := by
    obtain ⟨k, htop, -, rfl⟩ := innermost_iff.mp hinnermost
    obtain rfl : 15 = k := Option.some.inj htop
    decide
  exact ⟨hp, hfound, before, name, inside, hinnermost, hlongest, hname, htext, hnested,
    harg hnested⟩

end Lowlang.Shell.Call
