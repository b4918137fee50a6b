import Lowlang.Proofs.Script.Concatenation

set_option autoImplicit false

/-!
# Extended registries

What a registry knows after further declarations, and that declarations of different names may be
made in any order.
-/

namespace Lowlang.Registry

/-! ## Looking up -/

theorem find_place {d : Decl} {ds : List Decl} (h : find d.name ds = none) (n : String) :
    find n (place d ds) = if d.name = n then some d.type else find n ds := by
  induction ds with
  | nil => rfl
  | cons e es ih =>
    by_cases hlt : d.name < e.name
    · rw [place, if_pos hlt, find]
    · have hne : e.name ≠ d.name := by
        intro heq
        rw [find, if_pos heq] at h
        cases h
      rw [find, if_neg hne] at h
      rw [place, if_neg hlt, find, ih h, find]
      by_cases hn : e.name = n
      · rw [if_pos hn, if_pos hn, if_neg fun hd => hne (hn.trans hd.symm)]
      · rw [if_neg hn, if_neg hn]

theorem insert_of_contains {r : Registry} {name : String} (h : r.contains name) (type : Ty) :
    r.insert name type = r := by
  rw [insert, if_pos h]

theorem insert_of_not_contains {r : Registry} {name : String} (h : ¬ r.contains name) (type : Ty) :
    r.insert name type = ⟨place ⟨name, type⟩ r.entries⟩ := by
  rw [insert, if_neg h]

/-- A declaration adds its name, if that is new, and changes nothing else. -/
theorem get?_insert (r : Registry) (name : String) (type : Ty) (n : String) :
    (r.insert name type).get? n =
      if name = n ∧ ¬ r.contains name then some type else r.get? n := by
  by_cases hc : r.contains name
  · rw [insert_of_contains hc, if_neg fun h => h.2 hc]
  · have hnone : find name r.entries = none := by
      simpa [contains, get?] using hc
    have hplace := find_place (d := ⟨name, type⟩) hnone n
    rw [insert_of_not_contains hc, get?, hplace]
    simp [hc, get?]

theorem contains_insert (r : Registry) (name : String) (type : Ty) (n : String) :
    (r.insert name type).contains n ↔ n = name ∨ r.contains n := by
  by_cases hc : r.contains name
  · rw [insert_of_contains hc]
    exact ⟨.inr, fun h => h.elim (fun heq => heq ▸ hc) id⟩
  · rw [contains, get?_insert]
    by_cases hn : name = n
    · simp [hn, hn ▸ hc]
    · rw [if_neg fun h => hn h.1]
      exact ⟨.inr, fun h => h.resolve_left fun heq => hn heq.symm⟩

theorem contains_extend (r : Registry) (ds : List Decl) (n : String) :
    (r.extend ds).contains n ↔ r.contains n ∨ ∃ d ∈ ds, d.name = n := by
  induction ds generalizing r with
  | nil => simp [extend]
  | cons d ds ih =>
    have hstep : r.extend (d :: ds) = (r.insert d.name d.type).extend ds := rfl
    rw [hstep, ih, contains_insert]
    constructor
    · rintro ((rfl | h) | ⟨e, he, hn⟩)
      · exact .inr ⟨d, List.mem_cons_self, rfl⟩
      · exact .inl h
      · exact .inr ⟨e, List.mem_cons_of_mem _ he, hn⟩
    · rintro (h | ⟨e, he, hn⟩)
      · exact .inl (.inr h)
      · rcases List.mem_cons.mp he with rfl | he
        · exact .inl (.inl hn.symm)
        · exact .inr ⟨e, he, hn⟩

theorem contains_ofDecls (ds : List Decl) (n : String) :
    (ofDecls ds).contains n ↔ ∃ d ∈ ds, d.name = n :=
  (contains_extend empty ds n).trans ⟨fun h => h.resolve_left nofun, .inr⟩

theorem add_eq_ok_iff {r outer : Registry} {name : String} {type : Ty} {pos : Pos} :
    r.add name type pos = .ok outer ↔ ¬ r.contains name ∧ outer = r.insert name type := by
  unfold add
  split
  · next h => simp [h]
  · next h => simp [h, eq_comm]

/-! ## Order of declarations -/

theorem place_comm {d e : Decl} (h : d.name ≠ e.name) (ds : List Decl) :
    place d (place e ds) = place e (place d ds) := by
  have htotal : d.name < e.name ∧ ¬ e.name < d.name ∨ e.name < d.name ∧ ¬ d.name < e.name := by
    by_cases hde : d.name < e.name
    · exact .inl ⟨hde, String.lt_asymm hde⟩
    · by_cases hed : e.name < d.name
      · exact .inr ⟨hed, hde⟩
      · exact absurd (String.le_antisymm (String.not_lt.mp hed) (String.not_lt.mp hde)) h
  induction ds with
  | nil =>
    rcases htotal with ⟨hde, hed⟩ | ⟨hed, hde⟩
    · simp [place, hde, hed]
    · simp [place, hde, hed]
  | cons x xs ih =>
    by_cases hd : d.name < x.name
    · by_cases he : e.name < x.name
      · rcases htotal with ⟨hde, hed⟩ | ⟨hed, hde⟩
        · simp [place, hd, he, hde, hed]
        · simp [place, hd, he, hde, hed]
      · -- What does not stand before `x` does not stand before `d` either.
        have hed : ¬ e.name < d.name := fun hed => he (String.lt_trans hed hd)
        simp [place, hd, he, hed]
    · by_cases he : e.name < x.name
      · have hde : ¬ d.name < e.name := fun hde => hd (String.lt_trans hde he)
        simp [place, hd, he, hde]
      · simp [place, hd, he, ih]

theorem insert_comm {m n : String} (h : m ≠ n) (r : Registry) (s t : Ty) :
    (r.insert m s).insert n t = (r.insert n t).insert m s := by
  by_cases hm : r.contains m
  · have hboth : (r.insert n t).contains m := (contains_insert r n t m).mpr (.inr hm)
    rw [insert_of_contains hm, insert_of_contains hboth]
  by_cases hn : r.contains n
  · have hboth : (r.insert m s).contains n := (contains_insert r m s n).mpr (.inr hn)
    rw [insert_of_contains hn, insert_of_contains hboth]
  have hm' : ¬ (r.insert n t).contains m := by
    rw [contains_insert]
    exact fun hc => hc.elim h hm
  have hn' : ¬ (r.insert m s).contains n := by
    rw [contains_insert]
    exact fun hc => hc.elim h.symm hn
  rw [insert_of_not_contains hm', insert_of_not_contains hn', insert_of_not_contains hm,
    insert_of_not_contains hn, place_comm]
  exact h.symm

/-- A name that is not among further declarations may as well be declared before them. -/
theorem insert_extend {r : Registry} {ds : List Decl} {n : String} (h : ∀ d ∈ ds, d.name ≠ n)
    (t : Ty) : (r.extend ds).insert n t = (r.insert n t).extend ds := by
  induction ds generalizing r with
  | nil => rfl
  | cons d ds ih =>
    have hrest := ih (r := r.insert d.name d.type) fun e he => h e (List.mem_cons_of_mem _ he)
    have hhead := insert_comm (h d List.mem_cons_self) r d.type t
    show ((r.insert d.name d.type).extend ds).insert n t
      = ((r.insert n t).insert d.name d.type).extend ds
    rw [hrest, hhead]

theorem extend_comm {r : Registry} {ds es : List Decl} (h : ∀ d ∈ ds, ∀ e ∈ es, d.name ≠ e.name) :
    (r.extend ds).extend es = (r.extend es).extend ds := by
  induction es generalizing r with
  | nil => rfl
  | cons e es ih =>
    have hhead := insert_extend (r := r) (fun d hd => h d hd e List.mem_cons_self) e.type
    have hrest := ih (r := r.insert e.name e.type) fun d hd f hf =>
      h d hd f (List.mem_cons_of_mem _ hf)
    show ((r.extend ds).insert e.name e.type).extend es
      = ((r.insert e.name e.type).extend es).extend ds
    rw [hhead, hrest]

end Lowlang.Registry
