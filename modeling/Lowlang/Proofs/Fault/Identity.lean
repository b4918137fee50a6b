import Lowlang.Fault
import Mathlib.Data.List.Basic

set_option autoImplicit false

/-!
# The identity of faults

Faults are made out of each other: one is given further attributes, another cause, or is wrapped in
a report about a document.  What a fault is depends on where it comes from.  Here each fault that
has been made has a number, and beside what it says it has the numbers of its cause and of the fault
it was first made from (`Made`); then it is a fault of a category when the numbers lead to the one
that the category itself has (`Matches`).  A fault keeps no numbers but the category.

Main statement: both say the same of every fault, and a fault that is made from a category in any
number of steps is of that category and of those of the last cause it was given, says so, and has
all the attributes it was given; all other faults stay as they are.
-/

namespace Lowlang

theorem Category.text_ne_empty (c : Category) : c.text ≠ "" := by
  cases c <;> decide

namespace Fault

/-! ## Categories and causes -/

theorem isA_iff (f : Fault) (c : Category) :
    f.isA c ↔ f.category = some c ∨ ∃ g, f.cause = some g ∧ g.isA c := by
  cases f with
  | report _ _ _ g => cases g <;> simp [isA, chain, category, cause]
  | document _ _ g => cases g <;> simp [isA, chain, category, cause]
  | plain _ g => cases g <;> simp [isA, chain, category, cause]
  | _ => simp [isA, chain, category, cause]

/-! ## The whole text -/

/-- The whole text of a fault, in which a failure without wording says `ending`. -/
def spelled (ending : String) : Fault → String
  | .report _ msg _ (some g) =>
    if msg = "" then spelled ending g else msg ++ ": " ++ spelled ending g
  | .document pos reason (some g) => wording.located pos reason ++ ": " ++ spelled ending g
  | .plain msg (some g) => msg ++ ": " ++ spelled ending g
  | f => f.wording.getD ending
termination_by structural f => f

theorem endsUnworded_of_cause {f g : Fault} (h : f.cause = some g) :
    f.endsUnworded = g.endsUnworded := by
  have hchain : f.chain = f :: g.chain := by
    cases f with
    | report _ _ _ _ => cases h; rfl
    | document _ _ _ => cases h; rfl
    | plain _ _ => cases h; rfl
    | _ => cases h
  have hne : g.chain ≠ [] := by
    cases g with
    | report _ _ _ g => cases g <;> simp [chain]
    | document _ _ g => cases g <;> simp [chain]
    | plain _ g => cases g <;> simp [chain]
    | _ => simp [chain]
  rw [endsUnworded, endsUnworded, hchain, List.getLast?_cons_of_ne_nil hne]

theorem wording_of_cause {f g : Fault} (h : f.cause = some g) (hf : f.wording = none) :
    g.wording = none := by
  cases hg : g.wording with
  | none => rfl
  | some t => cases f <;> cases h <;> simp [wording, hg] at hf

/-- Only the ending can be without wording. -/
theorem endsUnworded_of_wording : (f : Fault) → f.wording = none → f.endsUnworded
  | .report _ _ _ (some g), h | .document _ _ (some g), h | .plain _ (some g), h => by
    rw [endsUnworded_of_cause (g := g) rfl]
    exact endsUnworded_of_wording g (wording_of_cause rfl h)
  | .unworded, _ => rfl
  | .report _ _ _ none, h => nomatch h
  | .document _ _ none, h => nomatch h
  | .plain _ none, h => nomatch h
  | .namePresent _ _, h => nomatch h
  | .nameNotFound _ _, h => nomatch h
  | .unsupported _ _ _, h => nomatch h
  | .file _ _ _, h => nomatch h
  | .absent, h => nomatch h
  | .cancelled, h => nomatch h

/-- The wording is the whole text but for an ending that is not kept. -/
theorem spelled_eq (ending : String) : (f : Fault) → f.spelled ending =
    match f.wording with
    | some t => if f.endsUnworded then t ++ ": " ++ ending else t
    | none => ending
  | .report _ msg _ (some g) => by
    rw [spelled, wording, endsUnworded_of_cause (g := g) rfl, spelled_eq ending g]
    cases hg : g.wording with
    | none => by_cases hmsg : msg = "" <;> simp [hmsg, endsUnworded_of_wording g hg]
    | some t =>
      by_cases hmsg : msg = "" <;> by_cases hends : g.endsUnworded <;>
        simp [hmsg, hends, String.append_assoc]
  | .document _ _ (some g) | .plain _ (some g) => by
    rw [spelled, wording, endsUnworded_of_cause (g := g) rfl, spelled_eq ending g]
    cases hg : g.wording with
    | none => simp [endsUnworded_of_wording g hg]
    | some t => by_cases hends : g.endsUnworded <;> simp [hends, String.append_assoc]
  | .unworded => rfl
  | .report _ _ _ none => rfl
  | .document _ _ none => rfl
  | .plain _ none => rfl
  | .namePresent _ _ => rfl
  | .nameNotFound _ _ => rfl
  | .unsupported _ _ _ => rfl
  | .file _ _ _ => rfl
  | .absent => rfl
  | .cancelled => rfl

theorem message_eq_spelled {f : Fault} (h : ¬ f.endsUnworded) : f.message = f.spelled "" := by
  rw [message, spelled_eq]
  cases f.wording with
  | none => rfl
  | some t => simp [h]

/-! ## Reports of a category -/

/-- A text before that of the cause, when there is one. -/
def leading (text : String) : Option String → String
  | none => text
  | some cause => text ++ ": " ++ cause

/-- The fault is of the category and of those of its cause, says both and shows both with the
attributes. -/
structure Bears (c : Category) (as : List Attr) (cause : Option Fault) (f : Fault) : Prop where
  isA : ∀ d, f.isA d ↔ d = c ∨ ∃ g, cause = some g ∧ g.isA d
  spelled : ∀ ending, f.spelled ending = leading c.text (cause.map (spelled ending))
  endsUnworded : f.endsUnworded ↔ ∃ g, cause = some g ∧ g.endsUnworded
  message : ¬ f.endsUnworded → f.message = leading c.text (cause.map message)
  attrs : f.attrs = some (Attr.text "error" c.text :: (cause.elim [] causeText ++ as))

theorem bears_report (c : Category) (as : List Attr) (cause : Option Fault) :
    Bears c as cause (.report (some c) c.text as cause) := by
  have hspelled : ∀ ending, (Fault.report (some c) c.text as cause).spelled ending =
      leading c.text (cause.map (spelled ending)) := by
    intro ending
    cases cause with
    | none => rfl
    | some g => rw [spelled, if_neg c.text_ne_empty]; rfl
  have hends : (Fault.report (some c) c.text as cause).endsUnworded ↔
      ∃ g, cause = some g ∧ g.endsUnworded := by
    cases cause with
    | none => simp [endsUnworded, chain]
    | some g => simp [endsUnworded_of_cause (f := .report (some c) c.text as (some g)) rfl]
  refine ⟨fun d => ?_, hspelled, hends, fun hworded => ?_, ?_⟩
  · rw [isA_iff, category, Fault.cause, Option.some_inj, eq_comm]
  · rw [message_eq_spelled hworded, hspelled]
    cases cause with
    | none => rfl
    | some g =>
      have hg : ¬ g.endsUnworded := fun hg => hworded (hends.mpr ⟨g, rfl, hg⟩)
      exact congrArg (fun t => leading c.text (some t)) (message_eq_spelled hg).symm
  · cases cause <;> simp [attrs, attrsOf, c.text_ne_empty]

/-! ## Faults that have been made -/

/-- A fault with the numbers of its cause and of the fault it was first made from. -/
structure Made where
  fault : Fault
  cause : Option Nat := none
  base : Option Nat := none

/-- The number of the fault that the category itself has. -/
def number (c : Category) : Nat :=
  Category.all.idxOf c

/-- The faults there are from the start. -/
def sentinels : List Made :=
  Category.all.map fun c => { fault := .of c [] }

/-- The number of the fault that this one was first made from. -/
def root (made : List Made) (i : Nat) : Nat :=
  (made[i]?.bind Made.base).getD i

/-- The fault of a number, when there is one. -/
def faultAt (made : List Made) (i : Option Nat) : Option Fault :=
  i.bind fun j => made[j]?.map Made.fault

/-- Whether the fault is a report, which is what further faults can be made from. -/
def isReport : Fault → Bool
  | .report _ _ _ _ => true
  | _ => false

/-- The ways of making a fault, in which faults made before are given by their numbers. -/
inductive Making where
  /-- A fault without cause and, when it is a report, of no category. -/
  | new (f : Fault)
  | document (pos : Pos) (reason : String) (cause : Nat)
  | plain (msg : String) (cause : Nat)
  /-- A report that says what its cause says. -/
  | around (cause : Nat)
  | withAttrs (i : Nat) (more : List Attr)
  | wrap (i cause : Nat)

/-- The fault that is made, where the faults that it is made from are there. -/
def Making.make (made : List Made) : Making → Option Made
  | .new f =>
    if f.cause.isNone ∧ ¬ (f.isReport ∧ f.category.isSome) then some { fault := f } else none
  | .document pos reason j =>
    made[j]?.map fun g => { fault := .document pos reason (some g.fault), cause := some j }
  | .plain msg j => made[j]?.map fun g => { fault := .plain msg (some g.fault), cause := some j }
  | .around j =>
    made[j]?.map fun g => { fault := .report none "" [] (some g.fault), cause := some j }
  | .withAttrs i more => do
    let f ← made[i]?
    if f.fault.isReport then
      some { fault := f.fault.withAttrs more, cause := f.cause, base := some (root made i) }
    else none
  | .wrap i j => do
    let f ← made[i]?
    let g ← made[j]?
    if f.fault.isReport then
      some { fault := f.fault.wrap g.fault, cause := some j, base := some (root made i) }
    else none

/-- The faults that have been made at some time. -/
inductive Reached : List Made → Prop
  | start : Reached sentinels
  | make {made : List Made} {m : Made} (how : Making) :
    Reached made → how.make made = some m → Reached (made ++ [m])

/-- The fault of this number is the one of number `t` or one made from it, is of its category by
what kind of fault it is, or its cause matches. -/
inductive Matches (made : List Made) (t : Nat) : Nat → Prop
  | same : Matches made t t
  | base {i : Nat} {m : Made} :
    made[i]? = some m → m.base = some (root made t) → Matches made t i
  | kind {i : Nat} {m : Made} {c : Category} : made[i]? = some m → ¬ m.fault.isReport →
    m.fault.category = some c → number c = t → Matches made t i
  | cause {i j : Nat} {m : Made} :
    made[i]? = some m → m.cause = some j → Matches made t j → Matches made t i

/-! ## What the numbers say -/

variable {made : List Made} {i : Nat} {m : Made}

theorem root_of_getElem? (h : made[i]? = some m) : root made i = m.base.getD i := by
  rw [root, h, Option.bind_some]

theorem getElem?_concat_eq_some {g : Made} (h : (made ++ [m])[i]? = some g) :
    made[i]? = some g ∨ i = made.length ∧ g = m := by
  rw [List.getElem?_append] at h
  split at h
  · exact .inl h
  · next hi =>
    obtain ⟨hlt, rfl⟩ := List.getElem?_eq_some_iff.mp h
    rw [List.length_singleton] at hlt
    exact .inr ⟨by omega, by simp⟩

theorem lt_of_getElem? {j : Nat} {g : Made} (h : made[j]? = some g) :
    ∀ k, some j = some k → k < made.length := by
  rintro _ ⟨⟩
  exact (List.getElem?_eq_some_iff.mp h).1

theorem faultAt_some {j : Nat} {g : Made} (h : made[j]? = some g) :
    faultAt made (some j) = some g.fault := by
  rw [faultAt, Option.bind_some, h, Option.map_some]

theorem exists_of_faultAt {cause : Option Nat} {f : Fault} (h : faultAt made cause = some f) :
    ∃ j g, cause = some j ∧ made[j]? = some g ∧ g.fault = f := by
  obtain ⟨j, hj, h⟩ := Option.bind_eq_some_iff.mp h
  obtain ⟨g, hg, hf⟩ := Option.map_eq_some_iff.mp h
  exact ⟨j, g, hj, hg, hf⟩

theorem faultAt_append {cause : Option Nat} (h : ∀ j, cause = some j → j < made.length)
    (later : List Made) : faultAt (made ++ later) cause = faultAt made cause := by
  refine Option.bind_congr fun j hj => ?_
  rw [List.getElem?_append_left (h j hj)]

theorem number_inj {c d : Category} (h : number c = number d) : c = d :=
  (List.idxOf_inj (Category.mem_all c)).mp h

theorem sentinels_number (c : Category) : sentinels[number c]? = some { fault := .of c [] } := by
  rw [sentinels, List.getElem?_map, number, List.getElem?_idxOf (Category.mem_all c)]
  rfl

/-- The numbers of the fault at `i` lead to what it says of itself. -/
structure Sound (made : List Made) (i : Nat) (m : Made) : Prop where
  /-- The cause was made before. -/
  cause_lt : ∀ j, m.cause = some j → j < i
  cause : m.fault.cause = faultAt made m.cause
  category : m.fault.isReport → ∀ c, m.fault.category = some c ↔ m.base.getD i = number c
  base : ¬ m.fault.isReport → m.base = none

theorem Sound.append (h : Sound made i m) (hi : i ≤ made.length) (later : List Made) :
    Sound (made ++ later) i m := by
  refine ⟨h.cause_lt, ?_, h.category, h.base⟩
  rw [h.cause, faultAt_append fun j hj => Nat.lt_of_lt_of_le (h.cause_lt j hj) hi]

/-- The numbers of all faults lead to what they say of themselves. -/
structure AllSound (made : List Made) : Prop where
  sentinel : ∀ c, made[number c]? = some { fault := .of c [] }
  sound : ∀ (i : Nat) (m : Made), made[i]? = some m → Sound made i m

theorem AllSound.number_lt (h : AllSound made) (c : Category) : number c < made.length :=
  (List.getElem?_eq_some_iff.mp (h.sentinel c)).1

theorem allSound_sentinels : AllSound sentinels := by
  refine ⟨sentinels_number, fun i m h => ?_⟩
  rw [sentinels, List.getElem?_map, Option.map_eq_some_iff] at h
  obtain ⟨c, hc, rfl⟩ := h
  have hnumber : number c = i := by
    obtain ⟨hi, rfl⟩ := List.getElem?_eq_some_iff.mp hc
    exact List.Nodup.idxOf_getElem (by decide) i hi
  refine ⟨fun j hj => (nomatch hj), rfl, fun _ d => ?_, fun hnot => absurd rfl hnot⟩
  rw [← hnumber]
  exact ⟨fun h => by cases h; rfl, fun h => congrArg some (number_inj h)⟩

theorem isReport_iff {f : Fault} : f.isReport ↔ ∃ o msg as g, f = .report o msg as g := by
  cases f <;> simp [isReport]

/-- A fault without base that is not of a category by its origin can have any cause. -/
theorem AllSound.of_base_none (h : AllSound made) {f : Fault} {cause : Option Nat}
    (hlt : ∀ j, cause = some j → j < made.length)
    (hcause : f.cause = faultAt made cause)
    (hreport : f.isReport → f.category = none) :
    Sound made made.length { fault := f, cause := cause } := by
  refine ⟨hlt, hcause, fun hf c => ?_, fun _ => rfl⟩
  have hne := Nat.ne_of_gt (h.number_lt c)
  simp [hreport hf, hne]

/-- A report made from another one is of its category. -/
theorem AllSound.of_base (h : AllSound made) {f : Made} (hf : made[i]? = some f)
    (hreport : f.fault.isReport) {g : Fault} {cause : Option Nat}
    (hlt : ∀ j, cause = some j → j < made.length)
    (hcause : g.cause = faultAt made cause)
    (hg : g.isReport) (hcategory : g.category = f.fault.category) :
    Sound made made.length { fault := g, cause := cause, base := some (root made i) } := by
  refine ⟨hlt, hcause, fun _ c => ?_, fun hnot => absurd hg hnot⟩
  rw [hcategory, (h.sound i f hf).category hreport, Option.getD_some, root_of_getElem? hf]

theorem AllSound.make (h : AllSound made) {how : Making} (hm : how.make made = some m) :
    Sound made made.length m := by
  cases how with
  | new f =>
    rw [Making.make, Option.ite_none_right_eq_some, Option.some_inj] at hm
    obtain ⟨⟨hcause, horigin⟩, rfl⟩ := hm
    refine h.of_base_none (fun j hj => nomatch hj) (Option.isNone_iff_eq_none.mp hcause) ?_
    exact fun hreport => Option.not_isSome_iff_eq_none.mp fun hsome => horigin ⟨hreport, hsome⟩
  | document pos reason j =>
    obtain ⟨g, hg, rfl⟩ := Option.map_eq_some_iff.mp hm
    exact h.of_base_none (lt_of_getElem? hg) (faultAt_some hg).symm (fun hnot => nomatch hnot)
  | plain msg j =>
    obtain ⟨g, hg, rfl⟩ := Option.map_eq_some_iff.mp hm
    exact h.of_base_none (lt_of_getElem? hg) (faultAt_some hg).symm (fun hnot => nomatch hnot)
  | around j =>
    obtain ⟨g, hg, rfl⟩ := Option.map_eq_some_iff.mp hm
    exact h.of_base_none (lt_of_getElem? hg) (faultAt_some hg).symm (fun _ => rfl)
  | withAttrs i more =>
    obtain ⟨f, hf, hm⟩ := Option.bind_eq_some_iff.mp hm
    rw [Option.ite_none_right_eq_some, Option.some_inj] at hm
    obtain ⟨hreport, rfl⟩ := hm
    obtain ⟨o, msg, as, g, hfault⟩ := isReport_iff.mp hreport
    have hsound := h.sound i f hf
    have hi := (List.getElem?_eq_some_iff.mp hf).1
    refine h.of_base hf hreport (fun j hj => Nat.lt_trans (hsound.cause_lt j hj) hi) ?_ ?_ ?_
    · rw [← hsound.cause, hfault]; rfl
    · rw [hfault]; rfl
    · rw [hfault]; rfl
  | wrap i j =>
    obtain ⟨f, hf, hm⟩ := Option.bind_eq_some_iff.mp hm
    obtain ⟨g, hg, hm⟩ := Option.bind_eq_some_iff.mp hm
    rw [Option.ite_none_right_eq_some, Option.some_inj] at hm
    obtain ⟨hreport, rfl⟩ := hm
    obtain ⟨o, msg, as, _, hfault⟩ := isReport_iff.mp hreport
    refine h.of_base hf hreport (lt_of_getElem? hg) ?_ ?_ ?_
    · rw [faultAt_some hg, hfault]; rfl
    · rw [hfault]; rfl
    · rw [hfault]; rfl

theorem AllSound.append (h : AllSound made) (hm : Sound made made.length m) :
    AllSound (made ++ [m]) := by
  refine ⟨fun c => ?_, fun i g hg => ?_⟩
  · rw [List.getElem?_append_left (h.number_lt c), h.sentinel]
  · rcases getElem?_concat_eq_some hg with hg | ⟨rfl, rfl⟩
    · have hi := (List.getElem?_eq_some_iff.mp hg).1
      exact (h.sound i g hg).append (Nat.le_of_lt hi) _
    · exact hm.append (Nat.le_refl _) _

theorem Reached.allSound (h : Reached made) : AllSound made := by
  induction h with
  | start => exact allSound_sentinels
  | make how _ hm ih => exact ih.append (ih.make hm)

/-- The numbers lead to the fault of a category where the fault says that it is of the category. -/
theorem AllSound.matches_iff (h : AllSound made) (c : Category) (hm : made[i]? = some m) :
    Matches made (number c) i ↔ m.fault.isA c := by
  have hroot : root made (number c) = number c := root_of_getElem? (h.sentinel c)
  induction i using Nat.strongRecOn generalizing m with
  | ind i ih =>
    have hsound := h.sound i m hm
    -- What the cause is, by its number.
    have hcause : ∀ j g, m.cause = some j → made[j]? = some g →
        m.fault.cause = some g.fault ∧ (Matches made (number c) j ↔ g.fault.isA c) := by
      intro j g hj hg
      rw [hsound.cause, hj, faultAt_some hg]
      exact ⟨rfl, ih j (hsound.cause_lt j hj) hg⟩
    rw [isA_iff]
    constructor
    · intro hmatches
      cases hmatches with
      | same =>
        rw [h.sentinel, Option.some_inj] at hm
        subst hm
        exact .inl rfl
      | base hm' hbase =>
        obtain rfl := Option.some_inj.mp (hm.symm.trans hm')
        rw [hroot] at hbase
        have hreport : m.fault.isReport := by
          by_contra hnot
          rw [hsound.base hnot] at hbase
          cases hbase
        exact .inl ((hsound.category hreport c).mpr (by rw [hbase, Option.getD_some]))
      | kind hm' _ hd hnumber =>
        obtain rfl := Option.some_inj.mp (hm.symm.trans hm')
        exact .inl (number_inj hnumber ▸ hd)
      | cause hm' hj hmatches =>
        obtain rfl := Option.some_inj.mp (hm.symm.trans hm')
        have hlt := Nat.lt_trans (hsound.cause_lt _ hj) (List.getElem?_eq_some_iff.mp hm).1
        obtain ⟨hg, hiff⟩ := hcause _ _ hj (List.getElem?_eq_getElem hlt)
        exact .inr ⟨_, hg, hiff.mp hmatches⟩
    · rintro (hcategory | ⟨g, hg, hisA⟩)
      · by_cases hreport : m.fault.isReport
        · have hbase := (hsound.category hreport c).mp hcategory
          cases hb : m.base with
          | none =>
            rw [hb, Option.getD_none] at hbase
            exact hbase ▸ .same
          | some b =>
            rw [hb, Option.getD_some] at hbase
            exact .base hm (by rw [hb, hroot, hbase])
        · exact .kind hm hreport hcategory rfl
      · rw [hsound.cause] at hg
        obtain ⟨j, k, hj, hk, rfl⟩ := exists_of_faultAt hg
        exact .cause hm hj ((hcause j k hj hk).2.mpr hisA)

/-! ## Refinements -/

/-- One step of refining a fault. -/
inductive Refinement where
  | attrs (more : List Attr)
  | cause (j : Nat)

/-- All attributes that are given, in order. -/
def given (steps : List Refinement) : List Attr :=
  steps.flatMap fun
    | .attrs more => more
    | .cause _ => []

/-- The number of the last cause that is given. -/
def lastCause (steps : List Refinement) : Option Nat :=
  (steps.filterMap fun
    | .attrs _ => none
    | .cause j => some j).getLast?

@[simp]
theorem given_attrs (steps : List Refinement) (more : List Attr) :
    given (steps ++ [.attrs more]) = given steps ++ more := by
  simp [given]

@[simp]
theorem given_cause (steps : List Refinement) (j : Nat) :
    given (steps ++ [.cause j]) = given steps := by
  simp [given]

@[simp]
theorem lastCause_attrs (steps : List Refinement) (more : List Attr) :
    lastCause (steps ++ [.attrs more]) = lastCause steps := by
  simp [lastCause]

@[simp]
theorem lastCause_cause (steps : List Refinement) (j : Nat) :
    lastCause (steps ++ [.cause j]) = some j := by
  simp [lastCause]

/-- The fault of number `i` is made from that of the category in these steps, after which, and
between which, others may have been made. -/
inductive Refined (c : Category) (start : List Made) :
    List Made → List Refinement → Nat → Prop
  | start : Reached start → Refined c start start [] (number c)
  | other {made : List Made} {m : Made} {steps : List Refinement} {i : Nat} (how : Making) :
    Refined c start made steps i → how.make made = some m → Refined c start (made ++ [m]) steps i
  | attrs {made : List Made} {m : Made} {steps : List Refinement} {i : Nat} (more : List Attr) :
    Refined c start made steps i → (Making.withAttrs i more).make made = some m →
    Refined c start (made ++ [m]) (steps ++ [.attrs more]) made.length
  | cause {made : List Made} {m : Made} {steps : List Refinement} {i : Nat} (j : Nat) :
    Refined c start made steps i → (Making.wrap i j).make made = some m →
    Refined c start (made ++ [m]) (steps ++ [.cause j]) made.length

variable {c : Category} {start : List Made} {steps : List Refinement}

theorem Refined.reached (h : Refined c start made steps i) : Reached made := by
  induction h with
  | start h => exact h
  | other how _ hm ih => exact ih.make how hm
  | attrs more _ hm ih => exact ih.make _ hm
  | cause j _ hm ih => exact ih.make _ hm

theorem Refined.start_reached (h : Refined c start made steps i) : Reached start := by
  induction h with
  | start h => exact h
  | other _ _ _ ih => exact ih
  | attrs _ _ _ ih => exact ih
  | cause _ _ _ ih => exact ih

theorem Refined.start_isPrefix (h : Refined c start made steps i) : start <+: made := by
  induction h with
  | start => exact List.prefix_refl _
  | other _ _ _ ih => exact ih.trans (List.prefix_append _ _)
  | attrs _ _ _ ih => exact ih.trans (List.prefix_append _ _)
  | cause _ _ _ ih => exact ih.trans (List.prefix_append _ _)

/-- What a refined fault is. -/
structure Carries (c : Category) (made : List Made) (steps : List Refinement) (m : Made) :
    Prop where
  cause : m.cause = lastCause steps
  known : ∀ j, lastCause steps = some j → j < made.length
  fault : m.fault = .report (some c) c.text (given steps) (faultAt made (lastCause steps))

theorem Carries.append (h : Carries c made steps m) (later : List Made) :
    Carries c (made ++ later) steps m := by
  refine ⟨h.cause, fun j hj => ?_, ?_⟩
  · exact Nat.lt_of_lt_of_le (h.known j hj) (by simp)
  · rw [faultAt_append h.known, h.fault]

theorem Carries.make_withAttrs (h : Carries c made steps m) (hm : made[i]? = some m)
    (more : List Attr) : ∃ n, (Making.withAttrs i more).make made = some n ∧
      Carries c made (steps ++ [.attrs more]) n := by
  have hreport : m.fault.isReport := by rw [h.fault]; rfl
  refine ⟨_, by rw [Making.make, hm]; exact if_pos hreport, ?_, ?_, ?_⟩
  · rw [lastCause_attrs]
    exact h.cause
  · rw [lastCause_attrs]
    exact h.known
  · rw [lastCause_attrs, given_attrs, h.fault, withAttrs]

theorem Carries.make_wrap (h : Carries c made steps m) (hm : made[i]? = some m) {j : Nat} {g : Made}
    (hg : made[j]? = some g) : ∃ n, (Making.wrap i j).make made = some n ∧
      Carries c made (steps ++ [.cause j]) n := by
  have hreport : m.fault.isReport := by rw [h.fault]; rfl
  refine ⟨_, by rw [Making.make, hm, hg]; exact if_pos hreport, ?_, ?_, ?_⟩
  · rw [lastCause_cause]
  · rw [lastCause_cause]
    exact lt_of_getElem? hg
  · rw [lastCause_cause, given_cause, h.fault, wrap, faultAt_some hg]

theorem Refined.carries (h : Refined c start made steps i) :
    ∃ m, made[i]? = some m ∧ Carries c made steps m := by
  induction h with
  | start h =>
    exact ⟨_, h.allSound.sentinel c, rfl, fun j hj => (nomatch hj), rfl⟩
  | other how _ hn ih =>
    obtain ⟨m, hm, hcarries⟩ := ih
    have hi := (List.getElem?_eq_some_iff.mp hm).1
    exact ⟨m, by rw [List.getElem?_append_left hi, hm], hcarries.append _⟩
  | attrs more _ hn ih =>
    obtain ⟨m, hm, hcarries⟩ := ih
    obtain ⟨n, hn', hcarries⟩ := hcarries.make_withAttrs hm more
    obtain rfl := Option.some_inj.mp (hn.symm.trans hn')
    exact ⟨_, List.getElem?_concat_length, hcarries.append _⟩
  | cause j _ hn ih =>
    obtain ⟨m, hm, hcarries⟩ := ih
    obtain ⟨_, _, hrest⟩ := Option.bind_eq_some_iff.mp hn
    obtain ⟨g, hg, _⟩ := Option.bind_eq_some_iff.mp hrest
    obtain ⟨n, hn', hcarries⟩ := hcarries.make_wrap hm hg
    obtain rfl := Option.some_inj.mp (hn.symm.trans hn')
    exact ⟨_, List.getElem?_concat_length, hcarries.append _⟩

/-- The fault of number `i` is of the category `c` that it is made from and of those of its last
cause, says so with all the attributes it was given, and can be refined further. -/
structure KeepsIdentity (c : Category) (start made : List Made) (steps : List Refinement)
    (i : Nat) : Prop where
  bears : ∃ m, made[i]? = some m ∧
    Bears c (given steps) (faultAt made (lastCause steps)) m.fault
  cause_lt : ∀ j, lastCause steps = some j → j < made.length
  matches_iff : ∀ d, Matches made (number d) i ↔
    d = c ∨ ∃ j, lastCause steps = some j ∧ Matches made (number d) j
  /-- The numbers say of every fault what it says of itself. -/
  matches_iff_isA : ∀ (j : Nat) (g : Made), made[j]? = some g →
    ∀ d, Matches made (number d) j ↔ g.fault.isA d
  /-- What there was before is as it was. -/
  unchanged : ∀ (j : Nat) (g : Made), start[j]? = some g →
    made[j]? = some g ∧ ∀ d, Matches made (number d) j ↔ Matches start (number d) j
  attrs : ∀ more, ∃ n, (Making.withAttrs i more).make made = some n ∧
    Refined c start (made ++ [n]) (steps ++ [.attrs more]) made.length
  cause : ∀ j < made.length, ∃ n, (Making.wrap i j).make made = some n ∧
    Refined c start (made ++ [n]) (steps ++ [.cause j]) made.length

theorem refined_keepsIdentity (h : Refined c start made steps i) :
    KeepsIdentity c start made steps i := by
  obtain ⟨m, hm, hcarries⟩ := h.carries
  have hsound := h.reached.allSound
  have hbears := hcarries.fault ▸ bears_report c (given steps) _
  refine ⟨⟨m, hm, hbears⟩, hcarries.known, fun d => ?_, fun j g hg d => hsound.matches_iff d hg,
    fun j g hg => ?_, fun more => ?_, fun j hj => ?_⟩
  · rw [hsound.matches_iff d hm, hbears.isA]
    refine or_congr_right ⟨?_, ?_⟩
    · rintro ⟨g, hg, hisA⟩
      obtain ⟨j, k, hj, hk, rfl⟩ := exists_of_faultAt hg
      exact ⟨j, hj, (hsound.matches_iff d hk).mpr hisA⟩
    · rintro ⟨j, hj, hmatches⟩
      have hk := List.getElem?_eq_getElem (hcarries.known j hj)
      exact ⟨_, by rw [hj, faultAt_some hk], (hsound.matches_iff d hk).mp hmatches⟩
  · have hmade : made[j]? = some g := by
      obtain ⟨later, rfl⟩ := h.start_isPrefix
      rw [List.getElem?_append_left (List.getElem?_eq_some_iff.mp hg).1, hg]
    refine ⟨hmade, fun d => ?_⟩
    rw [hsound.matches_iff d hmade, h.start_reached.allSound.matches_iff d hg]
  · obtain ⟨n, hn, _⟩ := hcarries.make_withAttrs hm more
    exact ⟨n, hn, h.attrs more hn⟩
  · obtain ⟨n, hn, _⟩ := hcarries.make_wrap hm (List.getElem?_eq_getElem hj)
    exact ⟨n, hn, h.cause j hn⟩

/-- A type that cannot be read, of a name that is declared twice in a document: the cause that was
given first does not count. -/
theorem refined_keepsIdentity_declaration :
    let steps := [.attrs [Attr.text "type" "int"], .cause (number .encode), .cause 21]
    ∃ made i, Refined .parseType sentinels made steps i ∧
      KeepsIdentity .parseType sentinels made steps i ∧
      (∀ d, Matches made (number d) i ↔ d = .parseType ∨ d = .document ∨ d = .namePresent) ∧
      made[i]?.map (fun m => m.fault.message) =
        some "invalid type: declaration: name already declared: x" := by
  have hname := (Refined.start (c := .parseType) .start).other
    (.new (.namePresent "x" .none)) rfl
  have hdocument := hname.other (.document .none "declaration" 20) rfl
  have hattrs := hdocument.attrs [Attr.text "type" "int"] rfl
  have hrefined := (hattrs.cause (number .encode) rfl).cause 21 rfl
  have hkeeps := refined_keepsIdentity hrefined
  refine ⟨_, _, hrefined, hkeeps, fun d => ?_, by decide⟩
  rw [hkeeps.matches_iff_isA _ _ rfl]
  cases d <;> decide

end Fault

end Lowlang
