import Lowlang.Proofs.Registry.Extension
import Lowlang.Proofs.Script.Scoping
import Lowlang.Proofs.Text.Encoding
import Mathlib.Data.List.Dedup
import Mathlib.Data.List.Induction

set_option autoImplicit false

/-!
# Families of registries

Registries live side by side: some start from declarations, some start empty, some are copies of
others, and each goes on by itself.  A registry keeps its names in a table, which an empty one gets
with its first name, so registries are independent of each other as long as no two of them use the
same table (`Apart`).

Main statement: at any time each registry is that of the declarations on its own line of descent, of
which the first one of each name counts.
-/

namespace Lowlang.Registry

/-! ## The registry of a list of declarations -/

theorem ofDecls_concat (ds : List Decl) (d : Decl) :
    ofDecls (ds ++ [d]) = (ofDecls ds).insert d.name d.type := by
  rw [ofDecls, List.foldl_concat, ← ofDecls]

theorem get?_ofDecls (ds : List Decl) (n : String) :
    (ofDecls ds).get? n = (ds.find? fun d => d.name = n).map Decl.type := by
  induction ds using List.reverseRecOn with
  | nil => rfl
  | append_singleton ds d ih =>
    have hcontains : (ofDecls ds).contains n = (ds.find? fun d => d.name = n).isSome := by
      rw [contains, ih, Option.isSome_map]
    rw [ofDecls_concat, get?_insert, ih, List.find?_append, List.find?_singleton]
    cases hfound : ds.find? fun d => d.name = n with
    | none =>
      rw [hfound] at hcontains
      by_cases hn : d.name = n
      · simp [hn, hcontains]
      · simp [hn]
    | some e =>
      rw [hfound] at hcontains
      have hnot : ¬ (d.name = n ∧ ¬ (ofDecls ds).contains d.name) := by
        rintro ⟨rfl, hnew⟩
        exact hnew hcontains
      rw [if_neg hnot]
      rfl

theorem mem_place_iff {d x : Decl} {es : List Decl} : x ∈ place d es ↔ x = d ∨ x ∈ es := by
  induction es with
  | nil => simp [place]
  | cons e es ih =>
    rw [place]
    split
    · rw [List.mem_cons]
    · rw [List.mem_cons, ih, List.mem_cons, or_left_comm]

/-- The entries stand in the order of their names. -/
def Ordered (es : List Decl) : Prop :=
  es.Pairwise fun d e => d.name < e.name

theorem Ordered.place {d : Decl} {es : List Decl} (h : Ordered es)
    (hnew : d.name ∉ es.map Decl.name) : Ordered (place d es) := by
  induction es with
  | nil => exact List.pairwise_singleton _ _
  | cons e es ih =>
    obtain ⟨hfirst, hrest⟩ := List.pairwise_cons.mp h
    rw [List.map_cons, List.mem_cons, not_or] at hnew
    rw [Registry.place]
    split
    · next hlt =>
      refine List.pairwise_cons.mpr ⟨fun x hx => ?_, h⟩
      rcases List.mem_cons.mp hx with rfl | hx
      · exact hlt
      · exact String.lt_trans hlt (hfirst x hx)
    · next hlt =>
      refine List.pairwise_cons.mpr ⟨fun x hx => ?_, ih hrest hnew.2⟩
      rcases mem_place_iff.mp hx with rfl | hx
      · -- Names that are not less and not the same are greater.
        by_contra hgt
        exact hnew.1 (String.le_antisymm (String.not_lt.mp hgt) (String.not_lt.mp hlt))
      · exact hfirst x hx

theorem ordered_ofDecls (ds : List Decl) : Ordered (ofDecls ds).entries := by
  induction ds using List.reverseRecOn with
  | nil => exact List.Pairwise.nil
  | append_singleton ds d ih =>
    rw [ofDecls_concat, insert]
    split
    · exact ih
    · next hnew =>
      exact ih.place fun hmem => hnew ((Script.shows_names _ _).mpr hmem)

theorem Ordered.find_eq_some_iff {d : Decl} {es : List Decl} (h : Ordered es) :
    find d.name es = some d.type ↔ d ∈ es := by
  induction es with
  | nil => simp [find]
  | cons e es ih =>
    obtain ⟨hfirst, hrest⟩ := List.pairwise_cons.mp h
    rw [find, List.mem_cons]
    split
    · next hname =>
      constructor
      · intro htype
        exact .inl (by cases d; cases e; cases hname; cases htype; rfl)
      · rintro (rfl | hd)
        · rfl
        · exact absurd hname (String.ne_of_lt (hfirst d hd))
    · next hname =>
      rw [ih hrest, or_iff_right]
      rintro rfl
      exact hname rfl

/-! ## Answers -/

/-- The registry answers as the map in which the first of the declarations of each name counts. -/
structure FirstWins (ds : List Decl) (r : Registry) : Prop where
  get : ∀ n, r.get n =
    match ds.find? fun d => d.name = n with
    | some d => .ok d.type
    | none => .error (.nameNotFound n .none)
  contains : ∀ n, r.contains n ↔ ∃ d ∈ ds, d.name = n
  /-- The names are those declared, each one once. -/
  names : ∀ n, n ∈ r.names ↔ ∃ d ∈ ds, d.name = n
  increasing : r.names.Pairwise fun m n => Text.utf8 m < Text.utf8 n
  entries : ∀ d, d ∈ r.entries ↔ ds.find? (fun e => e.name = d.name) = some d
  entries_names : r.entries.map Decl.name = r.names
  size : r.size = (ds.map Decl.name).dedup.length

theorem firstWins_ofDecls (ds : List Decl) : FirstWins ds (ofDecls ds) := by
  have hget := get?_ofDecls ds
  have hcontains := contains_ofDecls ds
  have hnames : ∀ n, n ∈ (ofDecls ds).names ↔ ∃ d ∈ ds, d.name = n :=
    fun n => (Script.shows_names _ n).symm.trans (hcontains n)
  have hordered := ordered_ofDecls ds
  have hincreasing : (ofDecls ds).names.Pairwise (· < ·) := List.pairwise_map.mpr hordered
  refine ⟨fun n => ?_, hcontains, hnames, hincreasing.imp Text.utf8_lt, fun d => ?_, rfl, ?_⟩
  · rw [get, hget]
    cases ds.find? fun d => d.name = n <;> rfl
  · rw [← hordered.find_eq_some_iff, ← get?, hget, Option.map_eq_some_iff]
    constructor
    · rintro ⟨e, he, htype⟩
      have hname : e.name = d.name := by simpa using List.find?_some he
      rw [he]
      cases d; cases e; cases hname; cases htype; rfl
    · exact fun hd => ⟨d, hd, rfl⟩
  · have hsame : (ofDecls ds).names.Perm (ds.map Decl.name).dedup := by
      rw [List.perm_ext_iff_of_nodup (hincreasing.imp String.ne_of_lt) (List.nodup_dedup _)]
      intro n
      rw [hnames, List.mem_dedup, List.mem_map]
    rw [← hsame.length_eq, names, List.length_map, size]

end Lowlang.Registry

namespace Lowlang

open Registry (FirstWins)

/-- Registries that live side by side and are known by their numbers. -/
structure Family where
  tables : List Registry := []
  /-- Which table each registry uses; none before it needs one. -/
  slots : List (Option Nat) := []

namespace Family

/-! ## Operations -/

/-- The registry with number `i`. -/
def registry (f : Family) (i : Nat) : Option Registry :=
  f.slots[i]?.map fun slot => (slot.bind fun t => f.tables[t]?).getD .empty

/-- One more registry, with a table of its own. -/
def grown (f : Family) (r : Registry) : Family :=
  { tables := f.tables ++ [r], slots := f.slots ++ [some f.tables.length] }

/-- Registry `i` with a table. -/
def opened (f : Family) (i : Nat) : Family :=
  match f.slots[i]? with
  | some none => { tables := f.tables ++ [.empty], slots := f.slots.set i (some f.tables.length) }
  | _ => f

/-- The table of registry `i` is now `r`. -/
def stored (f : Family) (i : Nat) (r : Registry) : Family :=
  match f.slots[i]? with
  | some (some t) => { f with tables := f.tables.set t r }
  | _ => f

/-- What is done with one registry of a family. -/
inductive Operation where
  /-- A new registry with declarations. -/
  | create (ds : List Decl)
  /-- A new registry without any. -/
  | blank
  /-- A copy of registry `i`. -/
  | copy (i : Nat)
  /-- A declaration in registry `i`. -/
  | declare (i : Nat) (d : Decl)

/-- One operation, with the fault of a declaration that is refused.  Where there is no registry with
the number nothing is done. -/
def perform (f : Family) : Operation → Family × Option Fault
  | .create ds => (f.grown (.ofDecls ds), none)
  | .blank => ({ f with slots := f.slots ++ [none] }, none)
  | .copy i =>
    match f.registry i with
    | some r => (f.grown r, none)
    | none => (f, none)
  | .declare i d =>
    match (f.opened i).registry i with
    | some r =>
      match r.add d.name d.type .none with
      | .ok r => ((f.opened i).stored i r, none)
      | .error e => (f.opened i, some e)
    | none => (f, none)

/-- The family after some operations. -/
def run (ops : List Operation) : Family :=
  ops.foldl (fun f op => (f.perform op).1) {}

/-! ## Lines of descent -/

/-- The declarations on the line of descent of each registry after one more operation: what it
starts from, or what its original had at that time, and then its own ones, refused or not. -/
def Operation.descend (lines : List (List Decl)) : Operation → List (List Decl)
  | .create ds => lines ++ [ds]
  | .blank => lines ++ [[]]
  | .copy i => lines ++ lines[i]?.toList
  | .declare i d => lines.modify i fun ds => ds ++ [d]

/-- The lines of descent after some operations. -/
def descent (ops : List Operation) : List (List Decl) :=
  ops.foldl Operation.descend []

/-! ## Tables -/

/-- Each registry that has a table has one to itself. -/
structure Apart (f : Family) : Prop where
  inside : ∀ {i t : Nat}, f.slots[i]? = some (some t) → t < f.tables.length
  apart : ∀ {i j t : Nat}, f.slots[i]? = some (some t) → f.slots[j]? = some (some t) → i = j

/-- In `g` registry `j` uses a further table, which is `r`, and all else is as in `f`. -/
structure Furthers (f g : Family) (j : Nat) (r : Registry) : Prop where
  tables : g.tables = f.tables ++ [r]
  slots : ∀ i : Nat, g.slots[i]? = if i = j then some (some f.tables.length) else f.slots[i]?

theorem getElem?_concat {α : Type} (xs : List α) (x : α) (i : Nat) :
    (xs ++ [x])[i]? = if i = xs.length then some x else xs[i]? := by
  rcases Nat.lt_trichotomy i xs.length with hi | rfl | hi
  · rw [List.getElem?_append_left hi, if_neg (Nat.ne_of_lt hi)]
  · simp
  · have hlong : (xs ++ [x]).length ≤ i := by
      rw [List.length_append]
      exact hi
    rw [if_neg (Nat.ne_of_gt hi), List.getElem?_eq_none hlong,
      List.getElem?_eq_none (Nat.le_of_lt hi)]

section

variable {f g : Family} {j : Nat} {r : Registry}

theorem furthers_grown (f : Family) (r : Registry) : Furthers f (f.grown r) f.slots.length r :=
  ⟨rfl, getElem?_concat f.slots _⟩

theorem furthers_opened (h : f.slots[j]? = some none) : Furthers f (f.opened j) j .empty := by
  obtain ⟨hj, _⟩ := List.getElem?_eq_some_iff.mp h
  rw [opened, h]
  refine ⟨rfl, fun i => ?_⟩
  rw [List.getElem?_set]
  by_cases hi : i = j
  · simp [hi, hj]
  · simp [hi, Ne.symm hi]

theorem Furthers.apart (hg : Furthers f g j r) (h : f.Apart) : g.Apart := by
  have hnew : ∀ {i t : Nat}, g.slots[i]? = some (some t) →
      i = j ∧ t = f.tables.length ∨ f.slots[i]? = some (some t) := by
    intro i t hi
    rw [hg.slots] at hi
    split at hi
    · next hij => exact .inl ⟨hij, by simpa using hi.symm⟩
    · exact .inr hi
  refine ⟨fun hi => ?_, fun hi hk => ?_⟩
  · rw [hg.tables, List.length_append, List.length_singleton]
    rcases hnew hi with ⟨_, rfl⟩ | hi
    · exact Nat.lt_succ_self _
    · exact Nat.lt_succ_of_lt (h.inside hi)
  · rcases hnew hi with ⟨hij, ht⟩ | hi
    · rcases hnew hk with ⟨hkj, _⟩ | hk
      · exact hij.trans hkj.symm
      · exact absurd (h.inside hk) (ht ▸ Nat.lt_irrefl _)
    · rcases hnew hk with ⟨_, ht⟩ | hk
      · exact absurd (h.inside hi) (ht ▸ Nat.lt_irrefl _)
      · exact h.apart hi hk

theorem Furthers.registry (hg : Furthers f g j r) (h : f.Apart) (i : Nat) :
    g.registry i = if i = j then some r else f.registry i := by
  rw [Family.registry, hg.slots, hg.tables]
  split
  · simp
  · rw [Family.registry]
    refine Option.map_congr fun slot hslot => ?_
    cases slot with
    | none => rfl
    | some t =>
      rw [Option.bind_some, Option.bind_some, List.getElem?_append_left (h.inside hslot)]

/-- A table of its own makes no difference to what a registry knows. -/
theorem Apart.opened (h : f.Apart) (j : Nat) :
    (f.opened j).Apart ∧ ∀ i, (f.opened j).registry i = f.registry i := by
  cases hslot : f.slots[j]? with
  | none =>
    rw [Family.opened, hslot]
    exact ⟨h, fun _ => rfl⟩
  | some slot =>
    cases slot with
    | some t =>
      rw [Family.opened, hslot]
      exact ⟨h, fun _ => rfl⟩
    | none =>
      have hfurther := furthers_opened hslot
      refine ⟨hfurther.apart h, fun i => ?_⟩
      rw [hfurther.registry h]
      split
      · next hi => rw [hi, Family.registry, hslot]; rfl
      · rfl

theorem Apart.stored (h : f.Apart) {t : Nat} (hj : f.slots[j]? = some (some t)) (r : Registry) :
    (f.stored j r).Apart ∧
      ∀ i, (f.stored j r).registry i = if i = j then some r else f.registry i := by
  have hstored : f.stored j r = { f with tables := f.tables.set t r } := by
    rw [Family.stored, hj]
  rw [hstored]
  refine ⟨⟨fun hi => ?_, h.apart⟩, fun i => ?_⟩
  · rw [List.length_set]
    exact h.inside hi
  · rw [Family.registry]
    split
    · next hi => simp [hi, hj, h.inside hj]
    · next hi =>
      rw [Family.registry]
      refine Option.map_congr fun slot hslot => ?_
      cases slot with
      | none => rfl
      | some k =>
        -- Another registry has another table.
        have hk : t ≠ k := fun hk => hi (h.apart hslot (hk ▸ hj))
        rw [Option.bind_some, Option.bind_some, List.getElem?_set_ne hk]

/-- A registry that is opened has a table. -/
theorem exists_slot_opened (hj : f.registry j = some r) :
    ∃ t, (f.opened j).slots[j]? = some (some t) := by
  obtain ⟨slot, hslot, _⟩ := Option.map_eq_some_iff.mp hj
  cases slot with
  | some t => exact ⟨t, by rw [opened, hslot]; exact hslot⟩
  | none => exact ⟨_, ((furthers_opened hslot).slots j).trans (if_pos rfl)⟩

theorem length_slots_opened (f : Family) (j : Nat) :
    (f.opened j).slots.length = f.slots.length := by
  unfold opened
  split
  · exact List.length_set
  · rfl

theorem slots_stored (f : Family) (j : Nat) (r : Registry) : (f.stored j r).slots = f.slots := by
  unfold stored
  split <;> rfl

/-- A registry that knows a name has a table. -/
theorem opened_of_contains {n : String} (hj : f.registry j = some r) (hn : r.contains n) :
    f.opened j = f := by
  obtain ⟨slot, hslot, hr⟩ := Option.map_eq_some_iff.mp hj
  cases slot with
  | some t => rw [opened, hslot]
  | none =>
    subst hr
    cases hn

/-! ## One operation -/

/-- A declaration of a name that the registry has is refused and changes nothing. -/
theorem perform_declare_known {d : Decl} (hj : f.registry j = some r)
    (hknown : r.contains d.name) :
    f.perform (.declare j d) = (f, some (.namePresent d.name .none)) := by
  rw [perform, opened_of_contains hj hknown, hj]
  simp [Registry.add, hknown]

/-- A declaration of a new name goes to its registry and to no other. -/
theorem Apart.perform_declare_new (h : f.Apart) {d : Decl} (hj : f.registry j = some r)
    (hnew : ¬ r.contains d.name) :
    ∃ g : Family, f.perform (.declare j d) = (g, none) ∧ g.Apart ∧
      g.slots.length = f.slots.length ∧
      ∀ i, g.registry i = if i = j then some (r.insert d.name d.type) else f.registry i := by
  obtain ⟨hopened, hsame⟩ := h.opened j
  obtain ⟨t, ht⟩ := exists_slot_opened hj
  obtain ⟨hstored, hregistry⟩ := hopened.stored ht (r.insert d.name d.type)
  refine ⟨_, ?_, hstored, ?_, fun i => ?_⟩
  · rw [perform, hsame, hj]
    simp [Registry.add, hnew]
  · rw [slots_stored, length_slots_opened]
  · rw [hregistry, hsame]

/-- Each registry is that of the declarations on its line of descent. -/
structure Described (f : Family) (lines : List (List Decl)) : Prop where
  apart : f.Apart
  length : f.slots.length = lines.length
  registry : ∀ i : Nat, f.registry i = lines[i]?.map .ofDecls

theorem described_empty : Described {} [] :=
  ⟨⟨nofun, nofun⟩, rfl, fun _ => rfl⟩

variable {lines : List (List Decl)}

theorem Described.grown (h : Described f lines) (ds : List Decl) :
    Described (f.grown (.ofDecls ds)) (lines ++ [ds]) := by
  have hfurther := furthers_grown f (.ofDecls ds)
  refine ⟨hfurther.apart h.apart, ?_, fun i => ?_⟩
  · rw [Family.grown, List.length_append, List.length_append, h.length]
    rfl
  · rw [hfurther.registry h.apart, h.registry, h.length, getElem?_concat]
    split <;> rfl

theorem registry_blank (f : Family) (i : Nat) :
    { f with slots := f.slots ++ [none] }.registry i =
      if i = f.slots.length then some .empty else f.registry i := by
  rw [registry, registry, getElem?_concat]
  split <;> rfl

theorem Described.blank (h : Described f lines) :
    Described { f with slots := f.slots ++ [none] } (lines ++ [[]]) := by
  have hslots : ∀ {i t : Nat}, (f.slots ++ [none])[i]? = some (some t) →
      f.slots[i]? = some (some t) := by
    intro i t hi
    rw [getElem?_concat] at hi
    split at hi
    · cases hi
    · exact hi
  refine ⟨⟨fun hi => h.apart.inside (hslots hi),
    fun hi hj => h.apart.apart (hslots hi) (hslots hj)⟩,
    ?_, fun i => ?_⟩
  · rw [List.length_append, List.length_append, h.length]
    rfl
  · rw [registry_blank, h.registry, h.length, getElem?_concat]
    split <;> rfl

theorem Described.declare (h : Described f lines) (j : Nat) (d : Decl) :
    Described (f.perform (.declare j d)).1 (lines.modify j fun ds => ds ++ [d]) := by
  have hj := h.registry j
  cases hline : lines[j]? with
  | none =>
    rw [hline] at hj
    rw [Family.perform, (h.apart.opened j).2, hj,
      List.modify_eq_self (List.getElem?_eq_none_iff.mp hline)]
    exact h
  | some ds =>
    rw [hline] at hj
    -- What is refused may as well stand on the line.
    have hline' : ∀ i : Nat, ((lines.modify j fun ds => ds ++ [d])[i]?).map Registry.ofDecls =
        if i = j then some ((Registry.ofDecls ds).insert d.name d.type) else f.registry i := by
      intro i
      rw [List.getElem?_modify, h.registry]
      by_cases hi : i = j
      · simp [hi, hline, Registry.ofDecls_concat]
      · simp [hi, Ne.symm hi]
    by_cases hknown : (Registry.ofDecls ds).contains d.name
    · rw [perform_declare_known hj hknown]
      refine ⟨h.apart, by rw [List.length_modify, h.length], fun i => ?_⟩
      rw [hline', Registry.insert_of_contains hknown]
      split
      · next hi => rw [hi, hj]; rfl
      · rfl
    · obtain ⟨g, hperform, hapart, hlength, hregistry⟩ := h.apart.perform_declare_new hj hknown
      rw [hperform]
      refine ⟨hapart, by rw [List.length_modify, hlength, h.length], fun i => ?_⟩
      rw [hregistry, hline']

theorem Described.perform (h : Described f lines) (op : Operation) :
    Described (f.perform op).1 (op.descend lines) := by
  cases op with
  | create ds => exact h.grown ds
  | blank => exact h.blank
  | copy i =>
    have hi := h.registry i
    cases hline : lines[i]? with
    | none =>
      rw [hline] at hi
      rw [Family.perform, hi, Operation.descend, hline]
      simpa using h
    | some ds =>
      rw [hline] at hi
      rw [Family.perform, hi, Operation.descend, hline]
      exact h.grown ds
  | declare i d => exact h.declare i d

theorem described_run (ops : List Operation) : Described (run ops) (descent ops) := by
  induction ops using List.reverseRecOn with
  | nil => exact described_empty
  | append_singleton ops op ih =>
    rw [run, descent, List.foldl_concat, List.foldl_concat]
    exact ih.perform op

/-! ## Independence -/

theorem lt_of_registry {i : Nat} (hi : f.registry i = some r) : i < f.slots.length := by
  obtain ⟨slot, hslot, _⟩ := Option.map_eq_some_iff.mp hi
  exact (List.getElem?_eq_some_iff.mp hslot).1

/-- Only its own declarations change a registry. -/
theorem Apart.registry_perform (h : f.Apart) {i : Nat} (hi : f.registry i = some r) {op : Operation}
    (hop : ∀ d, op ≠ .declare i d) : (f.perform op).1.registry i = some r := by
  have hold : i ≠ f.slots.length := Nat.ne_of_lt (lt_of_registry hi)
  have hgrown : ∀ s, (f.grown s).registry i = some r := by
    intro s
    rw [(furthers_grown f s).registry h, if_neg hold, hi]
  cases op with
  | create ds => exact hgrown _
  | blank => rw [perform, registry_blank, if_neg hold, hi]
  | copy j =>
    rw [perform]
    cases f.registry j with
    | none => exact hi
    | some s => exact hgrown s
  | declare j d =>
    have hij : i ≠ j := fun hij => hop d (hij ▸ rfl)
    cases hj : f.registry j with
    | none =>
      rw [perform, (h.opened j).2, hj]
      exact hi
    | some s =>
      by_cases hknown : s.contains d.name
      · rw [perform_declare_known hj hknown, hi]
      · obtain ⟨g, hperform, -, -, hregistry⟩ := h.perform_declare_new hj hknown
        rw [hperform, hregistry, if_neg hij, hi]

end

/-! ## Main statement -/

/-- After any operations on any number of registries, each of them answers as the map in which the
first declaration of each name on its own line of descent counts.  A declaration is refused exactly
when the registry has the name, and then nothing changes at all; and nothing but its own
declarations changes a registry. -/
theorem registries_first_wins (ops : List Operation) :
    (run ops).slots.length = (descent ops).length ∧
    (∀ (i : Nat) ds, (descent ops)[i]? = some ds →
      ∃ r, (run ops).registry i = some r ∧ FirstWins ds r) ∧
    (∀ i r d, (run ops).registry i = some r →
      (((run ops).perform (.declare i d)).2.isSome ↔ r.contains d.name) ∧
      (r.contains d.name →
        (run ops).perform (.declare i d) = (run ops, some (.namePresent d.name .none)))) ∧
    ∀ i r op, (run ops).registry i = some r → (∀ d, op ≠ .declare i d) →
      ((run ops).perform op).1.registry i = some r := by
  obtain ⟨hapart, hlength, hregistry⟩ := described_run ops
  refine ⟨hlength, fun i ds hds => ?_, fun i r d hi => ⟨?_, perform_declare_known hi⟩,
    fun i r op hi hop => hapart.registry_perform hi hop⟩
  · exact ⟨_, by rw [hregistry, hds]; rfl, Registry.firstWins_ofDecls ds⟩
  · by_cases hknown : r.contains d.name
    · rw [perform_declare_known hi hknown]
      exact iff_of_true rfl hknown
    · obtain ⟨g, hperform, -⟩ := hapart.perform_declare_new hi hknown
      rw [hperform]
      exact iff_of_false nofun hknown

/-- A copy that has gone on, its original with a repeated and a refused declaration, and one that
started empty. -/
theorem registries_first_wins_copy :
    let ops : List Operation := [.create [⟨"b", .int⟩, ⟨"b", .bool⟩], .copy 0,
      .declare 1 ⟨"a", .char⟩, .declare 0 ⟨"b", .char⟩, .blank, .declare 2 ⟨"b", .bool⟩]
    ∃ r s t, (run ops).registry 0 = some r ∧ (run ops).registry 1 = some s ∧
      (run ops).registry 2 = some t ∧ r.get "a" = .error (.nameNotFound "a" .none) ∧
      r.get "b" = .ok .int ∧ s.get "a" = .ok .char ∧ s.get "b" = .ok .int ∧
      t.get "b" = .ok .bool ∧
      (run ops).perform (.declare 2 ⟨"b", .int⟩) = (run ops, some (.namePresent "b" .none)) ∧
      ((run ops).perform (.declare 2 ⟨"a", .int⟩)).1.registry 1 = some s := by
  intro ops
  obtain ⟨-, hlines, hdeclare, hother⟩ := registries_first_wins ops
  obtain ⟨r, hr, hrwins⟩ := hlines 0 [⟨"b", .int⟩, ⟨"b", .bool⟩, ⟨"b", .char⟩] rfl
  obtain ⟨s, hs, hswins⟩ := hlines 1 [⟨"b", .int⟩, ⟨"b", .bool⟩, ⟨"a", .char⟩] rfl
  obtain ⟨t, ht, htwins⟩ := hlines 2 [⟨"b", .bool⟩] rfl
  have hknown : t.contains "b" := (htwins.contains "b").mpr ⟨_, List.mem_cons_self, rfl⟩
  exact ⟨r, s, t, hr, hs, ht, hrwins.get "a", hrwins.get "b", hswins.get "a", hswins.get "b",
    htwins.get "b", (hdeclare 2 t ⟨"b", .int⟩ ht).2 hknown, hother 1 s _ hs nofun⟩

end Family

end Lowlang
