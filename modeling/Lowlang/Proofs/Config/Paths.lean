import Lowlang.Config.Settings

set_option autoImplicit false

/-!
# Paths to settings

The keys that lead to a value through nested mappings are its path.  Flattening a document puts the
value of each path under the keys of the path, joined with `-`, and nothing else.

A flag is looked up in two spellings only, the one with `-` throughout and the one with `_`
throughout.  Main statement: a path that spells the flag in any mixture of the two is found exactly
when it has no `_` at all, or is a single key without a `-`.
-/

namespace Lowlang.Config

/-! ## Paths -/

/-- The keys of the path lead from the first value through nested mappings to the second, which is
no mapping. -/
inductive Value.At : Value → List String → Value → Prop
  | here {v : Value} (h : ∀ es, v ≠ .mapping es) : At v [] v
  | inside {es : List (String × Value)} {k : String} {w v : Value} {path : List String}
    (h : (k, w) ∈ es) (hv : At w path v) : At (.mapping es) (k :: path) v

/-- The name that flattening gives to the value of a path below the key `above`. -/
def nameBelow (above : String) (path : List String) : String :=
  path.foldl nestedKey above

/-- The document has the value under the name once it is flattened. -/
def Named (doc : List (String × Value)) (name : String) (v : Value) : Prop :=
  ∃ path, (Value.mapping doc).At path v ∧ nameBelow "" path = name

theorem Value.at_mapping {es : List (String × Value)} {path : List String} {v : Value} :
    (Value.mapping es).At path v ↔ ∃ k w rest, path = k :: rest ∧ (k, w) ∈ es ∧ w.At rest v := by
  constructor
  · rintro (hv | ⟨h, hv⟩)
    · exact absurd rfl (hv es)
    · exact ⟨_, _, _, rfl, h, hv⟩
  · rintro ⟨k, w, rest, rfl, h, hv⟩
    exact .inside h hv

/-- A path starts with the first key or is one of the entries behind it. -/
theorem Value.at_cons {k : String} {w v : Value} {es : List (String × Value)}
    {path : List String} :
    (Value.mapping ((k, w) :: es)).At path v ↔
      (∃ rest, path = k :: rest ∧ w.At rest v) ∨ (Value.mapping es).At path v := by
  rw [at_mapping, at_mapping]
  constructor
  · rintro ⟨l, u, rest, rfl, hmem, hv⟩
    rcases List.mem_cons.mp hmem with heq | hmem
    · cases heq
      exact .inl ⟨rest, rfl, hv⟩
    · exact .inr ⟨l, u, rest, rfl, hmem, hv⟩
  · rintro (⟨rest, rfl, hv⟩ | ⟨l, u, rest, rfl, hmem, hv⟩)
    · exact ⟨k, w, rest, rfl, List.mem_cons_self, hv⟩
    · exact ⟨l, u, rest, rfl, List.mem_cons_of_mem _ hmem, hv⟩

/-- From a value that is no mapping no key leads anywhere. -/
theorem Value.at_leaf {u v : Value} (hu : ∀ es, u ≠ .mapping es) {path : List String} :
    u.At path v ↔ path = [] ∧ u = v := by
  constructor
  · rintro (_ | _)
    · exact ⟨rfl, rfl⟩
    · exact absurd rfl (hu _)
  · rintro ⟨rfl, rfl⟩
    exact .here hu

theorem flattenValue_leaf {v : Value} (hv : ∀ es, v ≠ .mapping es) (key : String) :
    flattenValue key v = [(key, v)] := by
  cases v with
  | mapping es => exact absurd rfl (hv es)
  | _ => rfl

theorem mem_flattenValue_leaf {u : Value} (hu : ∀ es, u ≠ .mapping es) {key name : String}
    {v : Value} :
    (name, v) ∈ flattenValue key u ↔ ∃ path, u.At path v ∧ nameBelow key path = name := by
  rw [flattenValue_leaf hu, List.mem_singleton, Prod.mk.injEq]
  constructor
  · rintro ⟨rfl, rfl⟩
    exact ⟨[], .here hu, rfl⟩
  · rintro ⟨path, hv, hname⟩
    obtain ⟨rfl, rfl⟩ := (Value.at_leaf hu).mp hv
    exact ⟨hname.symm, rfl⟩

mutual

/-- Flattening lists the values of all paths under their names. -/
theorem mem_flatten (above name : String) (v : Value) : ∀ es : List (String × Value),
    (name, v) ∈ flatten above es ↔
      ∃ path, (Value.mapping es).At path v ∧ nameBelow above path = name
  | [] => by
    simp [flatten, Value.at_mapping]
  | (k, w) :: es => by
    rw [flatten, List.mem_append, mem_flattenValue (nestedKey above k) name v w,
      mem_flatten above name v es]
    constructor
    · rintro (⟨rest, hv, hname⟩ | ⟨path, hv, hname⟩)
      · exact ⟨k :: rest, Value.at_cons.mpr (.inl ⟨rest, rfl, hv⟩), hname⟩
      · exact ⟨path, Value.at_cons.mpr (.inr hv), hname⟩
    · rintro ⟨path, hpath, hname⟩
      rcases Value.at_cons.mp hpath with ⟨rest, rfl, hv⟩ | hv
      · exact .inl ⟨rest, hv, hname⟩
      · exact .inr ⟨path, hv, hname⟩
termination_by structural es => es

theorem mem_flattenValue (key name : String) (v : Value) : ∀ u : Value,
    (name, v) ∈ flattenValue key u ↔ ∃ path, u.At path v ∧ nameBelow key path = name
  | .mapping es => mem_flatten key name v es
  | .null | .bool _ | .int _ | .double _ | .text _ | .bytes _ | .moment _ | .list _ => by
    exact mem_flattenValue_leaf (by simp)
termination_by structural u => u

end

/-! ## Looking up -/

namespace Settings

theorem named_of_get? {doc : List (String × Value)} {name : String} {v : Value}
    (h : (ofDocument doc).get? name = some v) : Named doc name v := by
  obtain ⟨before, after, hsplit, _⟩ := List.lookup_eq_some_iff.mp h
  have hmem : (name, v) ∈ (flatten "" doc).reverse := by
    rw [show (flatten "" doc).reverse = _ from hsplit]
    exact List.mem_append_right _ List.mem_cons_self
  exact (mem_flatten "" name v doc).mp (List.mem_reverse.mp hmem)

theorem get?_eq_none_iff {doc : List (String × Value)} {name : String} :
    (ofDocument doc).get? name = none ↔ ∀ v, ¬ Named doc name v := by
  constructor
  · intro h v hv
    have hmem : (name, v) ∈ (flatten "" doc).reverse :=
      List.mem_reverse.mpr ((mem_flatten "" name v doc).mpr hv)
    have hne := List.lookup_eq_none_iff.mp h _ hmem
    simp at hne
  · intro h
    cases hget : (ofDocument doc).get? name with
    | none => rfl
    | some v => exact absurd (named_of_get? hget) (h v)

/-- A flag has a value of its own name, or else one of the name with `_`, or else none. -/
theorem resolve_cases (doc : List (String × Value)) (flag : String) :
    (∃ v, Named doc flag v ∧ (ofDocument doc).resolve flag = v.setting) ∨
    ((∀ v, ¬ Named doc flag v) ∧
      ∃ v, Named doc (underscored flag) v ∧ (ofDocument doc).resolve flag = v.setting) ∨
    ((∀ v, ¬ Named doc flag v) ∧ (∀ v, ¬ Named doc (underscored flag) v) ∧
      (ofDocument doc).resolve flag = none) := by
  unfold resolve
  cases hflag : (ofDocument doc).get? flag with
  | some v => exact .inl ⟨v, named_of_get? hflag, rfl⟩
  | none =>
    have hnone := get?_eq_none_iff.mp hflag
    cases hother : (ofDocument doc).get? (underscored flag) with
    | some v => exact .inr (.inl ⟨hnone, v, named_of_get? hother, rfl⟩)
    | none => exact .inr (.inr ⟨hnone, get?_eq_none_iff.mp hother, rfl⟩)

end Settings

/-! ## Spellings -/

/-- A name with `-` in the place of every `_`. -/
def dashed (name : String) : String :=
  name.map fun c => if c = '_' then '-' else c

/-- The flag that a path is meant for: its keys joined with `-`, and every `_` taken for a `-`. -/
def flagOf (path : List String) : String :=
  dashed ("-".intercalate path)

/-- All keys are spelled with `-`, or the path is a single key spelled with `_`. -/
def Uniform (path : List String) : Prop :=
  (∀ k ∈ path, '_' ∉ k.toList) ∨ ∃ k, path = [k] ∧ '-' ∉ k.toList

theorem map_eq_self {f : Char → Char} {s : String} (h : ∀ c ∈ s.toList, f c = c) :
    s.map f = s := by
  apply String.toList_injective
  rw [String.toList_map]
  exact (List.map_congr_left h).trans (List.map_id _)

theorem dashed_eq_self {s : String} (h : '_' ∉ s.toList) : dashed s = s := by
  refine map_eq_self fun c hc => if_neg ?_
  rintro rfl
  exact h hc

theorem not_mem_dashed (s : String) : '_' ∉ (dashed s).toList := by
  rw [dashed, String.toList_map, List.mem_map]
  rintro ⟨c, -, hc⟩
  split at hc
  · cases hc
  · contradiction

theorem not_mem_underscored (s : String) : '-' ∉ (Settings.underscored s).toList := by
  rw [Settings.underscored, String.toList_map, List.mem_map]
  rintro ⟨c, -, hc⟩
  split at hc
  · cases hc
  · contradiction

theorem dashed_underscored {s : String} (h : '_' ∉ s.toList) :
    dashed (Settings.underscored s) = s := by
  apply String.toList_injective
  rw [dashed, Settings.underscored, String.toList_map, String.toList_map, List.map_map]
  refine (List.map_congr_left fun c hc => ?_).trans (List.map_id _)
  show (if (if c = '-' then '_' else c) = '_' then '-' else _) = c
  grind

theorem underscored_dashed {s : String} (h : '-' ∉ s.toList) :
    Settings.underscored (dashed s) = s := by
  apply String.toList_injective
  rw [dashed, Settings.underscored, String.toList_map, String.toList_map, List.map_map]
  refine (List.map_congr_left fun c hc => ?_).trans (List.map_id _)
  show (if (if c = '_' then '-' else c) = '-' then '_' else _) = c
  grind

/-- Below a key, the keys of a path are joined with `-`. -/
theorem nameBelow_eq_intercalate {above : String} (h : above ≠ "") (path : List String) :
    nameBelow above path = "-".intercalate (above :: path) := by
  induction path generalizing above with
  | nil => rfl
  | cons k path ih =>
    have hne : above ++ "-" ++ k ≠ "" := by
      simp [h]
    calc nameBelow above (k :: path)
        = nameBelow (above ++ "-" ++ k) path := by
          simp [nameBelow, nestedKey, h]
      _ = "-".intercalate ((above ++ "-" ++ k) :: path) := ih hne
      _ = above ++ "-" ++ "-".intercalate (k :: path) := String.intercalate_cons_append
      _ = "-".intercalate (above :: k :: path) :=
          (String.intercalate_cons_of_ne_nil (List.cons_ne_nil k path)).symm

/-- If the outermost keys are not empty, flattening joins the keys of every path with `-`. -/
theorem nameBelow_of_at {doc : List (String × Value)} (hkeys : ∀ e ∈ doc, e.1 ≠ "")
    {path : List String} {v : Value} (h : (Value.mapping doc).At path v) :
    nameBelow "" path = "-".intercalate path := by
  obtain ⟨k, w, rest, rfl, hmem, -⟩ := Value.at_mapping.mp h
  have hstart : nameBelow "" (k :: rest) = nameBelow k rest := by
    simp [nameBelow, nestedKey]
  rw [hstart, nameBelow_eq_intercalate (hkeys _ hmem)]

theorem mem_intercalate {c : Char} (hc : c ≠ '-') (path : List String) :
    c ∈ ("-".intercalate path).toList ↔ ∃ k ∈ path, c ∈ k.toList := by
  induction path with
  | nil => simp
  | cons k path ih =>
    cases path with
    | nil => simp
    | cons l path =>
      rw [String.intercalate_cons_of_ne_nil (List.cons_ne_nil l path)]
      rw [String.toList_append, String.toList_append, List.mem_append, List.mem_append, ih]
      simp [hc]

/-- A path without a `-` in its name is a single key. -/
theorem single_of_not_mem {doc : List (String × Value)} {path : List String} {v : Value}
    (h : (Value.mapping doc).At path v) (hdash : '-' ∉ ("-".intercalate path).toList) :
    ∃ k, path = [k] ∧ '-' ∉ k.toList := by
  obtain ⟨k, w, rest, rfl, -, -⟩ := Value.at_mapping.mp h
  cases rest with
  | nil => exact ⟨k, rfl, by simpa using hdash⟩
  | cons l rest =>
    rw [String.intercalate_cons_of_ne_nil (List.cons_ne_nil l rest)] at hdash
    simp at hdash

/-- A path is uniform when its name is the flag that it is meant for, in one of the two spellings
that are looked up. -/
theorem uniform_iff {doc : List (String × Value)} {path : List String} {v : Value}
    (h : (Value.mapping doc).At path v) :
    Uniform path ↔ "-".intercalate path = flagOf path ∨
      "-".intercalate path = Settings.underscored (flagOf path) := by
  have hdashes : (∀ k ∈ path, '_' ∉ k.toList) ↔ '_' ∉ ("-".intercalate path).toList := by
    rw [mem_intercalate (by decide)]
    simp
  rw [Uniform, hdashes]
  constructor
  · rintro (hfree | ⟨k, rfl, hk⟩)
    · exact .inl (dashed_eq_self hfree).symm
    · exact .inr (underscored_dashed (by simpa using hk)).symm
  · rintro (heq | heq)
    · left
      rw [heq]
      exact not_mem_dashed _
    · right
      apply single_of_not_mem h
      rw [heq]
      exact not_mem_underscored _

/-! ## Main statement -/

namespace Settings

/-- A value that is found for a flag stands at the end of a path that is meant for the flag. -/
theorem flagOf_of_named {doc : List (String × Value)} (hkeys : ∀ e ∈ doc, e.1 ≠ "")
    {flag : String} (hflag : '_' ∉ flag.toList) {name : String} {v : Value}
    (h : Named doc name v) (hname : name = flag ∨ name = underscored flag) :
    ∃ path, (Value.mapping doc).At path v ∧ "-".intercalate path = name ∧ flagOf path = flag := by
  obtain ⟨path, hpath, hbelow⟩ := h
  rw [nameBelow_of_at hkeys hpath] at hbelow
  refine ⟨path, hpath, hbelow, ?_⟩
  rw [flagOf, hbelow]
  rcases hname with rfl | rfl
  · exact dashed_eq_self hflag
  · exact dashed_underscored hflag

/-- The setting of a flag in a document whose outermost keys are not empty.  Without a path that is
meant for the flag there is none.  With exactly one, it is the value of that path if the path is
uniform, and else there is none either. -/
theorem resolve_by_paths (doc : List (String × Value)) (hkeys : ∀ e ∈ doc, e.1 ≠ "")
    (flag : String) (hflag : '_' ∉ flag.toList) :
    ((∀ path v, (Value.mapping doc).At path v → flagOf path ≠ flag) →
      (ofDocument doc).resolve flag = none) ∧
    (∀ path v, (Value.mapping doc).At path v → flagOf path = flag →
      (∀ path' v', (Value.mapping doc).At path' v' → flagOf path' = flag →
        path' = path ∧ v' = v) →
      (Uniform path → (ofDocument doc).resolve flag = v.setting) ∧
      (¬ Uniform path → (ofDocument doc).resolve flag = none)) := by
  -- Whatever the flag is looked up under belongs to a path that is meant for it.
  have hfound : ∀ {name v}, Named doc name v → name = flag ∨ name = underscored flag →
      ∃ path, (Value.mapping doc).At path v ∧ "-".intercalate path = name ∧ flagOf path = flag :=
    flagOf_of_named hkeys hflag
  constructor
  · intro hnone
    obtain ⟨v, hv, -⟩ | ⟨-, v, hv, -⟩ | ⟨-, -, hresolve⟩ := resolve_cases doc flag
    · obtain ⟨path, hpath, -, hmeant⟩ := hfound hv (.inl rfl)
      exact absurd hmeant (hnone path v hpath)
    · obtain ⟨path, hpath, -, hmeant⟩ := hfound hv (.inr rfl)
      exact absurd hmeant (hnone path v hpath)
    · exact hresolve
  · intro path v hpath hmeant honly
    have huniform := uniform_iff hpath
    rw [hmeant] at huniform
    have hnamed : Named doc ("-".intercalate path) v := ⟨path, hpath, nameBelow_of_at hkeys hpath⟩
    obtain ⟨w, hw, hresolve⟩ | ⟨hno, w, hw, hresolve⟩ | ⟨hno, hno', hresolve⟩ :=
      resolve_cases doc flag
    · obtain ⟨path', hpath', hname, hmeant'⟩ := hfound hw (.inl rfl)
      obtain ⟨rfl, rfl⟩ := honly path' w hpath' hmeant'
      exact ⟨fun _ => hresolve, fun hnot => absurd (huniform.mpr (.inl hname)) hnot⟩
    · obtain ⟨path', hpath', hname, hmeant'⟩ := hfound hw (.inr rfl)
      obtain ⟨rfl, rfl⟩ := honly path' w hpath' hmeant'
      exact ⟨fun _ => hresolve, fun hnot => absurd (huniform.mpr (.inr hname)) hnot⟩
    · refine ⟨fun hspelled => ?_, fun _ => hresolve⟩
      rcases huniform.mp hspelled with heq | heq
      · exact absurd (heq ▸ hnamed) (hno v)
      · exact absurd (heq ▸ hnamed) (hno' v)

/-- A nested key, an outermost key spelled with `_`, and a nested key spelled with `_`, which is not
found. -/
theorem resolve_by_paths_mixed :
    let doc : List (String × Value) :=
      [("log", .mapping [("level", .text "debug"), ("time_layout", .text "kitchen")]),
        ("max_depth", .int 4)]
    (ofDocument doc).resolve "log-level" = some (.text "debug") ∧
    (ofDocument doc).resolve "max-depth" = some (.text "4") ∧
    flagOf ["log", "time_layout"] = "log-time-layout" ∧
    (ofDocument doc).resolve "log-time-layout" = none ∧
    (ofDocument doc).resolve "log" = none := by
  intro doc
  have hkeys : ∀ e ∈ doc, e.1 ≠ "" := by decide
  have hpaths : ∀ path v, (Value.mapping doc).At path v →
      path = ["log", "level"] ∧ v = .text "debug" ∨
      path = ["log", "time_layout"] ∧ v = .text "kitchen" ∨
      path = ["max_depth"] ∧ v = .int 4 := by
    intro path v h
    rcases Value.at_cons.mp h with ⟨rest, rfl, hlog⟩ | h
    · rcases Value.at_cons.mp hlog with ⟨rest, rfl, hv⟩ | hlog
      · obtain ⟨rfl, rfl⟩ := (Value.at_leaf (by simp)).mp hv
        simp
      · obtain ⟨k, w, rest, rfl, hmem, hv⟩ := Value.at_mapping.mp hlog
        cases List.mem_singleton.mp hmem
        obtain ⟨rfl, rfl⟩ := (Value.at_leaf (by simp)).mp hv
        simp
    · obtain ⟨k, w, rest, rfl, hmem, hv⟩ := Value.at_mapping.mp h
      cases List.mem_singleton.mp hmem
      obtain ⟨rfl, rfl⟩ := (Value.at_leaf (by simp)).mp hv
      simp
  have hlevel : flagOf ["log", "level"] = "log-level" := by cbv
  have hlayout : flagOf ["log", "time_layout"] = "log-time-layout" := by cbv
  have hdepth : flagOf ["max_depth"] = "max-depth" := by cbv
  have honly : ∀ path v, (Value.mapping doc).At path v → ∀ path' v',
      (Value.mapping doc).At path' v' → flagOf path' = flagOf path → path' = path ∧ v' = v := by
    intro path v h path' v' h'
    rcases hpaths path v h with ⟨rfl, rfl⟩ | ⟨rfl, rfl⟩ | ⟨rfl, rfl⟩ <;>
      rcases hpaths path' v' h' with ⟨rfl, rfl⟩ | ⟨rfl, rfl⟩ | ⟨rfl, rfl⟩ <;>
      simp [hlevel, hlayout, hdepth]
  have hatLevel : (Value.mapping doc).At ["log", "level"] (.text "debug") :=
    .inside List.mem_cons_self (.inside List.mem_cons_self (.here (by simp)))
  have hatLayout : (Value.mapping doc).At ["log", "time_layout"] (.text "kitchen") :=
    .inside List.mem_cons_self
      (.inside (List.mem_cons_of_mem _ List.mem_cons_self) (.here (by simp)))
  have hatDepth : (Value.mapping doc).At ["max_depth"] (.int 4) :=
    .inside (List.mem_cons_of_mem _ List.mem_cons_self) (.here (by simp))
  refine ⟨?_, ?_, hlayout, ?_, ?_⟩
  · exact ((resolve_by_paths doc hkeys "log-level" (by decide)).2 _ _ hatLevel hlevel
      (hlevel ▸ honly _ _ hatLevel)).1 (.inl (by decide))
  · exact ((resolve_by_paths doc hkeys "max-depth" (by decide)).2 _ _ hatDepth hdepth
      (hdepth ▸ honly _ _ hatDepth)).1 (.inr ⟨_, rfl, by decide⟩)
  · refine ((resolve_by_paths doc hkeys "log-time-layout" (by decide)).2 _ _ hatLayout hlayout
      (hlayout ▸ honly _ _ hatLayout)).2 ?_
    rintro (hfree | ⟨k, hk, -⟩)
    · exact hfree "time_layout" (by simp) (by decide)
    · cases hk
  · refine (resolve_by_paths doc hkeys "log" (by decide)).1 fun path v h => ?_
    rcases hpaths path v h with ⟨rfl, -⟩ | ⟨rfl, -⟩ | ⟨rfl, -⟩ <;>
      simp [hlevel, hlayout, hdepth]

end Settings

end Lowlang.Config
