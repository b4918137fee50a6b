import Lowlang.Proofs.Config.Paths

set_option autoImplicit false

/-!
# The order of entries

A mapping has no order of its own, but flattening goes through its entries in some order, and of
several values under one name the last one counts.  Different paths may have one name, as `a-b` and
`b` inside `a` have.

Main statement: the setting of a flag is the same in all orders, at every depth of the document,
exactly when all values under the name that it is found by give the same setting.
-/

namespace Lowlang.Config

/-- The second value is the first with the entries of its mappings in another order, at any depth.
Lists are not taken apart when a document is flattened, so what is in them stays as it is. -/
inductive Value.Reordered : Value → Value → Prop
  | refl (v : Value) : Reordered v v
  | perm {es fs : List (String × Value)} (h : es.Perm fs) : Reordered (.mapping es) (.mapping fs)
  | inside {w w' : Value} (before after : List (String × Value)) (k : String)
    (h : Reordered w w') :
    Reordered (.mapping (before ++ (k, w) :: after)) (.mapping (before ++ (k, w') :: after))
  | trans {u v w : Value} (h : Reordered u v) (h' : Reordered v w) : Reordered u w

theorem Value.Reordered.symm {u u' : Value} (h : u.Reordered u') : u'.Reordered u := by
  induction h with
  | refl v => exact .refl v
  | perm h => exact .perm h.symm
  | inside before after k h ih => exact .inside before after k ih
  | trans h h' ih ih' => exact ih'.trans ih

/-- Another order keeps all paths with their values. -/
theorem Value.Reordered.at {u u' : Value} (h : u.Reordered u') {path : List String} {v : Value}
    (hv : u.At path v) : u'.At path v := by
  induction h generalizing path with
  | refl => exact hv
  | perm hperm =>
    obtain ⟨k, w, rest, rfl, hmem, hw⟩ := at_mapping.mp hv
    exact .inside (hperm.mem_iff.mp hmem) hw
  | @inside w w' before after l h ih =>
    obtain ⟨k, x, rest, rfl, hmem, hx⟩ := at_mapping.mp hv
    rcases List.mem_append.mp hmem with hmem | hmem
    · exact .inside (List.mem_append_left _ hmem) hx
    · rcases List.mem_cons.mp hmem with heq | hmem
      · cases heq
        exact .inside (List.mem_append_right _ List.mem_cons_self) (ih hx)
      · exact .inside (List.mem_append_right _ (List.mem_cons_of_mem _ hmem)) hx
  | trans h h' ih ih' => exact ih' (ih hv)

theorem named_of_reordered {doc doc' : List (String × Value)}
    (h : (Value.mapping doc).Reordered (.mapping doc')) {name : String} {v : Value} :
    Named doc name v ↔ Named doc' name v :=
  ⟨fun ⟨path, hv, hname⟩ => ⟨path, h.at hv, hname⟩,
    fun ⟨path, hv, hname⟩ => ⟨path, h.symm.at hv, hname⟩⟩

/-! ## Coming last -/

theorem flatten_append (above : String) (es fs : List (String × Value)) :
    flatten above (es ++ fs) = flatten above es ++ flatten above fs := by
  induction es with
  | nil => rfl
  | cons e es ih =>
    obtain ⟨k, v⟩ := e
    rw [List.cons_append, flatten, ih, flatten, List.append_assoc]

/-- The value of any path comes last in some order. -/
theorem Value.At.comes_last {u v : Value} {path : List String} (h : u.At path v) (key : String) :
    ∃ u', u.Reordered u' ∧
      ∃ before, flattenValue key u' = before ++ [(nameBelow key path, v)] := by
  induction h generalizing key with
  | @here v hv => exact ⟨v, .refl v, [], flattenValue_leaf hv key⟩
  | @inside es k w v path hmem _ ih =>
    -- The entry goes behind all others, and inside it the rest of the path comes last.
    obtain ⟨w', hw', before, hlast⟩ := ih (nestedKey key k)
    obtain ⟨front, back, rfl⟩ := List.append_of_mem hmem
    have hmove : (front ++ (k, w) :: back).Perm ((front ++ back) ++ [(k, w)]) :=
      List.perm_middle.trans (List.perm_append_singleton _ _).symm
    refine ⟨.mapping ((front ++ back) ++ [(k, w')]),
      .trans (.perm hmove) (.inside (front ++ back) [] k hw'),
      flatten key (front ++ back) ++ before, ?_⟩
    show flatten key ((front ++ back) ++ [(k, w')]) = _
    rw [flatten_append, flatten, flatten, hlast, List.append_nil, List.append_assoc]
    rfl

/-- Another order of a mapping is a mapping. -/
theorem Value.Reordered.mapping {u u' : Value} (h : u.Reordered u')
    (hu : ∃ es, u = .mapping es) : ∃ es, u' = .mapping es := by
  induction h with
  | refl => exact hu
  | perm => exact ⟨_, rfl⟩
  | inside => exact ⟨_, rfl⟩
  | trans h h' ih ih' => exact ih' (ih hu)

/-- In some order of the document, a value under a name is the one that counts. -/
theorem Named.counts {doc : List (String × Value)} {name : String} {v : Value}
    (h : Named doc name v) : ∃ doc', (Value.mapping doc).Reordered (.mapping doc') ∧
      (Settings.ofDocument doc').get? name = some v := by
  obtain ⟨path, hv, rfl⟩ := h
  obtain ⟨u', hreordered, before, hlast⟩ := hv.comes_last ""
  obtain ⟨doc', rfl⟩ := hreordered.mapping ⟨doc, rfl⟩
  refine ⟨doc', hreordered, ?_⟩
  have hlast : flatten "" doc' = before ++ [(nameBelow "" path, v)] := hlast
  simp [Settings.get?, Settings.ofDocument, hlast]

/-! ## Main statement -/

namespace Settings

/-- All values that the document has under the name give one setting. -/
def Agree (doc : List (String × Value)) (name : String) : Prop :=
  ∀ v w, Named doc name v → Named doc name w → v.setting = w.setting

theorem resolve_of_get? {s : Settings} {flag : String} {v : Value} (h : s.get? flag = some v) :
    s.resolve flag = v.setting := by
  simp only [resolve, h]

theorem resolve_of_underscored {s : Settings} {flag : String} {v : Value}
    (hnone : s.get? flag = none) (h : s.get? (underscored flag) = some v) :
    s.resolve flag = v.setting := by
  simp only [resolve, hnone, h, Option.bind_some]

theorem Agree.resolve {doc : List (String × Value)} {flag : String} (h : Agree doc flag)
    {v : Value} (hv : Named doc flag v) : (ofDocument doc).resolve flag = v.setting := by
  cases hget : (ofDocument doc).get? flag with
  | none => exact absurd hv (get?_eq_none_iff.mp hget v)
  | some w =>
    rw [resolve_of_get? hget]
    exact h w v (named_of_get? hget) hv

theorem Agree.resolve_underscored {doc : List (String × Value)} {flag : String}
    (h : Agree doc (underscored flag)) (hnone : ∀ v, ¬ Named doc flag v) {v : Value}
    (hv : Named doc (underscored flag) v) : (ofDocument doc).resolve flag = v.setting := by
  have hno := get?_eq_none_iff.mpr hnone
  cases hget : (ofDocument doc).get? (underscored flag) with
  | none => exact absurd hv (get?_eq_none_iff.mp hget v)
  | some w =>
    rw [resolve_of_underscored hno hget]
    exact h w v (named_of_get? hget) hv

/-- Where the values agree, another order of the document gives the same setting. -/
theorem resolve_reordered {doc doc' : List (String × Value)} {flag : String}
    (hown : Agree doc flag)
    (hother : (∀ v, ¬ Named doc flag v) → Agree doc (underscored flag))
    (h : (Value.mapping doc).Reordered (.mapping doc')) :
    (ofDocument doc').resolve flag = (ofDocument doc).resolve flag := by
  have hnone : ∀ {name}, (∀ v, ¬ Named doc' name v) → ∀ v, ¬ Named doc name v :=
    fun hno v hv => hno v ((named_of_reordered h).mp hv)
  obtain ⟨v, hv, hresolve⟩ | ⟨hno, v, hv, hresolve⟩ | ⟨hno, hno', hresolve⟩ :=
    resolve_cases doc' flag
  · rw [hresolve, hown.resolve ((named_of_reordered h).mpr hv)]
  · have hagree := hother (hnone hno)
    rw [hresolve, hagree.resolve_underscored (hnone hno) ((named_of_reordered h).mpr hv)]
  · have hget := get?_eq_none_iff.mpr (hnone hno)
    have hget' := get?_eq_none_iff.mpr (hnone hno')
    rw [hresolve]
    simp only [resolve, hget, hget', Option.bind_none]

/-- A flag has one setting in all orders of the document exactly when all values under its name
agree, and those under the name with `_` do as well if there are none under its own. -/
theorem resolve_order_free_iff (doc : List (String × Value)) (flag : String) :
    (∀ doc₁ doc₂, (Value.mapping doc).Reordered (.mapping doc₁) →
      (Value.mapping doc).Reordered (.mapping doc₂) →
      (ofDocument doc₁).resolve flag = (ofDocument doc₂).resolve flag) ↔
    Agree doc flag ∧ ((∀ v, ¬ Named doc flag v) → Agree doc (underscored flag)) := by
  constructor
  · intro hfree
    constructor
    · intro v w hv hw
      obtain ⟨doc₁, h₁, hget₁⟩ := hv.counts
      obtain ⟨doc₂, h₂, hget₂⟩ := hw.counts
      rw [← resolve_of_get? hget₁, ← resolve_of_get? hget₂]
      exact hfree doc₁ doc₂ h₁ h₂
    · intro hnone v w hv hw
      obtain ⟨doc₁, h₁, hget₁⟩ := hv.counts
      obtain ⟨doc₂, h₂, hget₂⟩ := hw.counts
      have hno : ∀ {doc'}, (Value.mapping doc).Reordered (.mapping doc') →
          (ofDocument doc').get? flag = none := fun h =>
        get?_eq_none_iff.mpr fun v hv => hnone v ((named_of_reordered h).mpr hv)
      rw [← resolve_of_underscored (hno h₁) hget₁, ← resolve_of_underscored (hno h₂) hget₂]
      exact hfree doc₁ doc₂ h₁ h₂
  · rintro ⟨hown, hother⟩ doc₁ doc₂ h₁ h₂
    rw [resolve_reordered hown hother h₁, resolve_reordered hown hother h₂]

/-- A key with a `-` and a nested key have one name and different values. -/
theorem resolve_order_free_iff_nested :
    let doc : List (String × Value) := [("a-b", .int 1), ("a", .mapping [("b", .int 2)])]
    ¬ ∀ doc₁ doc₂, (Value.mapping doc).Reordered (.mapping doc₁) →
      (Value.mapping doc).Reordered (.mapping doc₂) →
      (ofDocument doc₁).resolve "a-b" = (ofDocument doc₂).resolve "a-b" := by
  intro doc hfree
  obtain ⟨hagree, -⟩ := (resolve_order_free_iff doc "a-b").mp hfree
  have hdashed : Named doc "a-b" (.int 1) :=
    ⟨["a-b"], .inside List.mem_cons_self (.here (by simp)), rfl⟩
  have hnested : Named doc "a-b" (.int 2) :=
    ⟨["a", "b"], .inside (List.mem_cons_of_mem _ List.mem_cons_self)
      (.inside List.mem_cons_self (.here (by simp))), rfl⟩
  have hsetting : Setting.text (Text.intText 1) = Setting.text (Text.intText 2) :=
    Option.some.inj (hagree _ _ hdashed hnested)
  exact absurd (Setting.text.inj hsetting) (by decide)

/-- The two orders of that document and what becomes of them. -/
example :
    (ofDocument [("a-b", .int 1), ("a", .mapping [("b", .int 2)])]).resolve "a-b" =
      some (.text "2") ∧
    (ofDocument [("a", .mapping [("b", .int 2)]), ("a-b", .int 1)]).resolve "a-b" =
      some (.text "1") :=
  ⟨rfl, rfl⟩

end Settings

end Lowlang.Config
