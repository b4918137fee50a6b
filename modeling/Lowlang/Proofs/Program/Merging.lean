import Lowlang.Program.Basic
import Lowlang.Proofs.Registry.Extension
import Lowlang.Proofs.Stmt.Positions

set_option autoImplicit false

/-!
# Merging declarations

A program starts from the names of the prelude and its own.  A name may be declared any number of
times as long as the types are the same.  Each declaration is only compared with what the registry
knows of its name, so everything rests on what holds between two declarations: the registry knows
exactly the declarations made so far (`Knows`).  Knowing is a matter of which declarations there
are, and not of their order or number.
-/

namespace Lowlang.Program

/-- Any two declarations of one name have the same type. -/
def Agreeing (ds : List Decl) : Prop :=
  ∀ d ∈ ds, ∀ e ∈ ds, d.name = e.name → d.type.same e.type

/-- The declaration has another type than an earlier one of its name. -/
def Departs (earlier : List Decl) (d : Decl) : Prop :=
  ∃ e ∈ earlier, e.name = d.name ∧ ¬ e.type.same d.type

/-- The first declaration of the list that has another type than an earlier one of its name. -/
def FirstDeparture (ds : List Decl) (d : Decl) : Prop :=
  ∃ earlier later, ds = earlier ++ d :: later ∧ Departs earlier d ∧
    ∀ front e back, earlier = front ++ e :: back → ¬ Departs front e

/-! ## What the registry knows -/

/-- The registry knows exactly these declarations. -/
def Knows (r : Registry) (ds : List Decl) : Prop :=
  ∀ d : Decl, r.get? d.name = some d.type ↔ d ∈ ds

theorem knows_empty : Knows .empty [] :=
  fun _ => iff_of_false nofun nofun

theorem Knows.agreeing {r : Registry} {ds : List Decl} (h : Knows r ds) : Agreeing ds := by
  intro d hd e he hname
  have hboth := (h d).mpr hd
  rw [hname, (h e).mpr he, Option.some.injEq] at hboth
  exact (Ty.same_iff _ _).mpr hboth.symm

theorem Knows.contains_iff {r : Registry} {ds : List Decl} (h : Knows r ds) (n : String) :
    r.contains n ↔ ∃ d ∈ ds, d.name = n := by
  rw [Registry.contains, Option.isSome_iff_exists]
  constructor
  · rintro ⟨t, ht⟩
    exact ⟨⟨n, t⟩, (h ⟨n, t⟩).mp ht, rfl⟩
  · rintro ⟨d, hd, rfl⟩
    exact ⟨d.type, (h d).mpr hd⟩

theorem Knows.get?_eq {r s : Registry} {ds es : List Decl} (hr : Knows r ds) (hs : Knows s es)
    (h : ∀ d, d ∈ es ↔ d ∈ ds) (n : String) : s.get? n = r.get? n := by
  refine Option.ext fun t => ?_
  exact ((hs ⟨n, t⟩).trans (h _)).trans (hr ⟨n, t⟩).symm

/-- Declaring again what is known changes nothing. -/
theorem Knows.again {r : Registry} {ds : List Decl} {d : Decl} (h : Knows r ds)
    (hd : r.get? d.name = some d.type) : Knows r (ds ++ [d]) := by
  intro e
  rw [h e, List.mem_append, List.mem_singleton]
  refine (or_iff_left_of_imp ?_).symm
  rintro rfl
  exact (h e).mp hd

/-- A new name is known from then on. -/
theorem Knows.insert {r : Registry} {ds : List Decl} {d : Decl} (h : Knows r ds)
    (hd : r.get? d.name = none) : Knows (r.insert d.name d.type) (ds ++ [d]) := by
  intro e
  have hnew : ¬ r.contains d.name := by simp [Registry.contains, hd]
  rw [Registry.get?_insert, List.mem_append, List.mem_singleton]
  by_cases hname : d.name = e.name
  · have hnot : e ∉ ds := fun he => by
      rw [← h e, ← hname, hd] at he
      cases he
    rw [if_pos ⟨hname, hnew⟩, Option.some.injEq, or_iff_right hnot]
    exact ⟨fun htype => Decl.mk.injEq _ _ _ _ ▸ ⟨hname.symm, htype.symm⟩, fun he => he ▸ rfl⟩
  · rw [if_neg fun hboth => hname hboth.1, h e]
    refine (or_iff_left_of_imp ?_).symm
    rintro rfl
    exact absurd rfl hname

/-! ## Declaring one after the other -/

theorem Agreeing.not_departs {ds front back : List Decl} {d : Decl} (h : Agreeing ds)
    (hds : ds = front ++ d :: back) : ¬ Departs front d := by
  rintro ⟨e, he, hname, htype⟩
  subst hds
  exact htype (h e (List.mem_append_left _ he) d List.mem_append_cons_self hname)

theorem FirstDeparture.not_agreeing {ds : List Decl} {d : Decl} (h : FirstDeparture ds d) :
    ¬ Agreeing ds := by
  obtain ⟨earlier, later, hds, hdeparts, _⟩ := h
  exact fun hagree => hagree.not_departs hds hdeparts

/-- What comes of declarations: a registry that knows them, or the name of the first one that
departs from those before it. -/
def Merged (ds : List Decl) (x : Except Fault Registry) : Prop :=
  (∃ r, x = .ok r ∧ Knows r ds) ∨
    ∃ d, x = .error (.namePresent d.name .none) ∧ FirstDeparture ds d

theorem merged_declareAll {r : Registry} {known : List Decl} (h : Knows r known)
    (ds : List Decl) : Merged (known ++ ds) (declareAll ds r) := by
  induction ds generalizing r known with
  | nil =>
    rw [List.append_nil]
    exact .inl ⟨r, rfl, h⟩
  | cons d ds ih =>
    have hsplit : known ++ d :: ds = known ++ [d] ++ ds := (List.append_cons _ _ _)
    rw [declareAll]
    cases hget : r.get? d.name with
    | none =>
      rw [hsplit]
      exact ih (h.insert hget)
    | some t =>
      dsimp only
      split
      · next hsame =>
        obtain rfl := (Ty.same_iff _ _).mp hsame
        rw [hsplit]
        exact ih (h.again hget)
      · next hother =>
        have hknown : ⟨d.name, t⟩ ∈ known := (h ⟨d.name, t⟩).mp hget
        refine .inr ⟨d, rfl, known, ds, rfl, ⟨_, hknown, rfl, hother⟩, ?_⟩
        exact fun front e back hfront => h.agreeing.not_departs hfront

theorem merged_registry (p : Program) (prelude : List Decl) :
    Merged (prelude ++ p.builtins) (p.registry prelude) :=
  merged_declareAll knows_empty _

theorem Merged.knows {ds : List Decl} {r : Registry} (h : Merged ds (.ok r)) : Knows r ds := by
  rcases h with ⟨s, heq, hs⟩ | ⟨d, heq, _⟩
  · cases heq
    exact hs
  · cases heq

theorem Merged.ok_iff {ds : List Decl} {x : Except Fault Registry} (h : Merged ds x) :
    (∃ r, x = .ok r) ↔ Agreeing ds := by
  rcases h with ⟨r, rfl, hr⟩ | ⟨d, rfl, hd⟩
  · exact iff_of_true ⟨r, rfl⟩ hr.agreeing
  · exact iff_of_false (fun ⟨_, heq⟩ => nomatch heq) hd.not_agreeing

/-! ## Main statement -/

/-- A program has names to start from if and only if any two declarations of one name, in the
prelude and in the program, have the same type.  The registry then knows exactly the names that are
declared, each with the type of every declaration of it.  Otherwise the fault names the first
declaration with another type than an earlier one.  Other lists of the same declarations, in any
order and with any repetitions, lead to the same names and types or fail likewise. -/
theorem registry_merges (p : Program) (prelude : List Decl) :
    ((∃ r, p.registry prelude = .ok r) ↔ Agreeing (prelude ++ p.builtins)) ∧
    (∀ r, p.registry prelude = .ok r →
      (∀ n, r.contains n ↔ ∃ d ∈ prelude ++ p.builtins, d.name = n) ∧
      ∀ d ∈ prelude ++ p.builtins, ∃ t, r.get? d.name = some t ∧ t.same d.type) ∧
    (∀ f, p.registry prelude = .error f →
      ∃ d, f = .namePresent d.name .none ∧ FirstDeparture (prelude ++ p.builtins) d) ∧
    ∀ (q : Program) (other : List Decl),
      (∀ d, d ∈ other ++ q.builtins ↔ d ∈ prelude ++ p.builtins) →
      ((∃ s, q.registry other = .ok s) ↔ ∃ r, p.registry prelude = .ok r) ∧
      ∀ r s, p.registry prelude = .ok r → q.registry other = .ok s →
        ∀ n, s.contains n = r.contains n ∧ s.get? n = r.get? n := by
  have hmerged := merged_registry p prelude
  refine ⟨hmerged.ok_iff, fun r hr => ?_, fun f hf => ?_, fun q other hsame => ?_⟩
  · have hknows := (hr ▸ hmerged).knows
    refine ⟨hknows.contains_iff, fun d hd => ⟨d.type, (hknows d).mpr hd, ?_⟩⟩
    exact (Ty.same_iff _ _).mpr rfl
  · rcases hmerged with ⟨r, heq, _⟩ | ⟨d, heq, hd⟩
    · cases heq.symm.trans hf
    · cases heq.symm.trans hf
      exact ⟨d, rfl, hd⟩
  · have hother := merged_registry q other
    refine ⟨?_, fun r s hr hs n => ?_⟩
    · rw [hother.ok_iff, hmerged.ok_iff]
      simp only [Agreeing, hsame]
    · have hget := (hr ▸ hmerged).knows.get?_eq (hs ▸ hother).knows hsame n
      exact ⟨congrArg Option.isSome hget, hget⟩

/-- A program that declares the names of the prelude again, and one that disagrees with it about two
names, of which the first is named. -/
theorem registry_merges_repeated_names :
    let log : Decl := ⟨"log", .function [.int] (some .null)⟩
    let x : Decl := ⟨"x", .int⟩
    let p : Program := { name := "p", builtins := [x, log] }
    let q : Program := { name := "q", builtins := [x, ⟨"log", .int⟩, ⟨"x", .bool⟩] }
    (∃ r s, p.registry [log, x] = .ok r ∧ (∃ t, r.get? "log" = some t ∧ t.same log.type) ∧
      { p with builtins := [log, log] }.registry [x] = .ok s ∧ s.get? "x" = r.get? "x") ∧
    ∃ d, d.name = "log" ∧ q.registry [log, x] = .error (.namePresent d.name .none) ∧
      FirstDeparture ([log, x] ++ q.builtins) d := by
  intro log x p q
  have hr : p.registry [log, x] = .ok ⟨[log, x]⟩ := by cbv
  have hs : { p with builtins := [log, log] }.registry [x] = .ok ⟨[log, x]⟩ := by cbv
  have hq : q.registry [log, x] = .error (.namePresent "log" .none) := by cbv
  obtain ⟨_, hknown, _, hlike⟩ := registry_merges p [log, x]
  have hentries : ∀ d, d ∈ [x] ++ [log, log] ↔ d ∈ [log, x] ++ p.builtins := by
    simp [p, or_comm]
  obtain ⟨d, hfault, hd⟩ := (registry_merges q [log, x]).2.2.1 _ hq
  refine ⟨⟨_, _, hr, (hknown _ hr).2 log (by simp), hs, ?_⟩, d, ?_, hq.trans (by rw [hfault]), hd⟩
  · exact ((hlike _ [x] hentries).2 _ _ hr hs "x").2
  · exact (Fault.namePresent.inj hfault).1.symm

end Lowlang.Program
