import Lowlang.Log.Logger
import Lowlang.Proofs.Log.Rendering

set_option autoImplicit false

/-!
# Records for people as JSON

Records for people may be written as objects.  A record means an object whose members are its own
attributes, those of its logger and what every record has.

Main statement: what a logger writes for a record without floating-point numbers is this object and
the end of the line, when all strings in it are portable.  Otherwise it is no JSON at all.
-/

namespace Lowlang

/-- A value that is neither a floating-point number nor a group. -/
structure Datum.Atom (d : Datum) : Prop where
  not_double : ∀ x, d ≠ .double x
  not_group : ∀ as, d ≠ .group as

/-- No floating-point number is in the value. -/
inductive Datum.Exact : Datum → Prop
  | atom {d : Datum} (h : d.Atom) : Exact d
  | group {as : List Attr} (h : ∀ a ∈ as, Exact a.2) : Exact (.group as)

namespace Log

open Json (Part IsBlank)

namespace Pretty

/-! ## What records mean -/

/-- What becomes of a value that is no group: it is replaced or left out. -/
def kept (layout key : String) (d : Datum) : Option Datum :=
  (replaced layout key d).filter fun d => !saysNothing key d

/-- A value that is neither a floating-point number nor a group, in JSON. -/
def valueJson : Datum → Json
  | .text s => .string s
  | .int i => .number (Text.intText i)
  | .uint n => .number (Nat.repr n)
  | .bool b => .bool b
  | .span n => .string (Time.spanText n)
  | .instant n => .string (Time.formatTime secondLayout n)
  | .severity n => .string (Level.shown ⟨n⟩)
  | .failure s => .string s
  | .texts ss => .string (Datum.bracketed ss)
  | .unworded => .string ""
  | .null | .double _ | .group _ => .null

mutual

/-- An attribute in JSON, unless it is left out. -/
def memberJson (layout key : String) : Datum → Option Json
  | .group as => some (.object (membersJson layout as))
  | d => (kept layout key d).map valueJson
termination_by structural d => d

/-- The members of a group. -/
def membersJson (layout : String) : List Attr → List (String × Json)
  | [] => []
  | (k, d) :: rest => ((memberJson layout k d).map (k, ·)).toList ++ membersJson layout rest
termination_by structural as => as

end

/-- The members of a record. -/
def recordJson (layout : String) (bs : List Bound) : List (String × Json) :=
  bs.filterMap fun b => (memberJson layout b.attr.1 b.attr.2).map (path b.groups b.attr.1, ·)

theorem path_nil (key : String) : path [] key = key := by
  rw [path, List.nil_append, String.intercalate_singleton]

/-! ## Values -/

theorem head?_toDigits_ne_zero {n : Nat} (h : 0 < n) : (Nat.toDigits 10 n).head? ≠ some '0' := by
  induction n using Nat.strongRecOn with
  | ind n ih =>
    by_cases hn : n < 10
    · have hone : ∀ m, m < 10 → 0 < m → m.digitChar ≠ '0' := by decide
      rw [Nat.toDigits_of_lt_base hn, List.head?_singleton, Ne, Option.some.injEq]
      exact hone n hn h
    · have hquot : 0 < n / 10 := Nat.div_pos (Nat.not_lt.mp hn) (by decide)
      rw [Nat.toDigits_of_base_le (by decide) (Nat.not_lt.mp hn),
        List.head?_append_of_ne_nil _ Nat.toDigits_ne_nil]
      exact ih (n / 10) (Nat.div_lt_self h (by decide)) hquot

/-- Only the zero itself begins with one. -/
theorem repr_of_head?_zero {n : Nat} (h : (Nat.repr n).toList.head? = some '0') :
    (Nat.repr n).toList = ['0'] := by
  rw [Nat.toList_repr] at h ⊢
  rcases Nat.eq_zero_or_pos n with rfl | hpos
  · rfl
  · exact absurd h (head?_toDigits_ne_zero hpos)

/-- The numeral of a whole number, with a sign or without. -/
def numeralOfNat (negative : Bool) (n : Nat) : Json.Numeral where
  sign := if negative then ['-'] else []
  whole := (Nat.repr n).toList
  fraction := []
  exponent := []
  sign_mem := by cases negative <;> simp
  digits_whole := by
    obtain ⟨c, r, heq, -⟩ := Text.repr_eq_cons n
    exact ⟨heq ▸ List.cons_ne_nil c r, fun c hc => Text.isDigit_of_mem_repr hc⟩
  whole_of_zero := repr_of_head?_zero
  digits_fraction h := absurd rfl h
  digits_exponent h := absurd rfl h

theorem renders_number {s : String} (n : Json.Numeral) (h : n.spelling = s.toList) :
    Renders (.value (.number s)) s.toList := by
  refine renders_of_no_texts rfl fun rest => ?_
  have hread : Json.Reads (.value (.number (String.ofList n.spelling))) (n.spelling ++ rest) rest :=
    .number
  rwa [h, String.ofList_toList] at hread

theorem renders_value {d : Datum} (h : d.Atom) :
    Renders (.value (valueJson d)) (value .object d).toList := by
  cases d with
  | double x => exact absurd rfl (h.not_double x)
  | group as => exact absurd rfl (h.not_group as)
  | int i =>
    by_cases hneg : i < 0
    · exact renders_number (numeralOfNat true i.natAbs) (by
        simp [Json.Numeral.spelling, numeralOfNat, Text.intText_of_neg hneg])
    · exact renders_number (numeralOfNat false i.toNat) (by
        simp [Json.Numeral.spelling, numeralOfNat, Text.intText_of_nonneg (Int.not_lt.mp hneg)])
  | uint n =>
    exact renders_number (numeralOfNat false n) (by simp [Json.Numeral.spelling, numeralOfNat])
  | bool b => cases b <;> exact renders_of_no_texts rfl fun _ => .bool
  | null => exact renders_of_no_texts rfl fun _ => .null
  | text | span | instant | severity | failure | texts | unworded => exact renders_string _

/-- What is kept of an atom is one. -/
theorem atom_of_kept {layout key : String} {d e : Datum} (h : d.Atom)
    (hkept : kept layout key d = some e) : e.Atom := by
  obtain ⟨hreplaced, -⟩ := Option.filter_eq_some_iff.mp hkept
  unfold replaced at hreplaced
  split at hreplaced
  · split at hreplaced
    · obtain ⟨-, htext⟩ := Option.ite_none_left_eq_some.mp hreplaced
      cases htext
      exact ⟨nofun, nofun⟩
    · cases hreplaced
      exact h
  · split at hreplaced <;> cases hreplaced <;> exact ⟨nofun, nofun⟩
  · cases hreplaced
    exact h

theorem memberJson_of_atom {layout key : String} {d : Datum} (h : d.Atom) :
    memberJson layout key d = (kept layout key d).map valueJson := by
  rw [memberJson]
  exact h.not_group

theorem member_of_atom {layout : String} {depth : Nat} {name key : String} {d : Datum}
    (h : d.Atom) : member layout depth name key d = (kept layout key d).map fun d =>
      "\n" ++ indent depth ++ Text.literal name ++ ": " ++ value .object d := by
  rw [member, kept]
  · cases replaced layout key d with
    | none => rfl
    | some e => cases hnothing : saysNothing key e <;> simp [Option.filter, hnothing]
  · exact h.not_group

theorem members_eq_filterMap (layout : String) (depth : Nat) (as : List Attr) :
    members layout depth as = as.filterMap fun a => member layout depth a.1 a.1 a.2 := by
  induction as with
  | nil => rfl
  | cons a as ih => cases h : member layout depth a.1 a.1 a.2 <;> simp [members, h, ih]

theorem membersJson_eq_filterMap (layout : String) (as : List Attr) :
    membersJson layout as = as.filterMap fun a => (memberJson layout a.1 a.2).map (a.1, ·) := by
  induction as with
  | nil => rfl
  | cons a as ih => cases h : memberJson layout a.1 a.2 <;> simp [membersJson, h, ih]

/-! ## Members -/

theorem isBlank_line (depth : Nat) : ∀ c ∈ '\n' :: (indent depth).toList, IsBlank c := by
  intro c hc
  simp only [indent, String.toList_ofList, List.mem_cons, List.mem_replicate] at hc
  rcases hc with rfl | ⟨-, rfl⟩
  · exact .inr (.inr (.inl rfl))
  · exact .inl rfl

/-- The members that some things mean are rendered by their texts, when each is by its own. -/
theorem rendersAll_filterMap {α : Type} {l : List α} {f : α → Option (String × Json)}
    {g : α → Option String}
    (h : ∀ a ∈ l, Option.Rel (fun m t => Renders (.member m.1 m.2) t.toList) (f a) (g a)) :
    RendersAll (l.filterMap f) (l.filterMap g) := by
  induction l with
  | nil => exact .nil
  | cons a l ih =>
    rw [List.forall_mem_cons] at h
    obtain ⟨ha, hl⟩ := h
    rw [List.filterMap_cons, List.filterMap_cons]
    cases hf : f a <;> cases hg : g a <;> rw [hf, hg] at ha <;> cases ha
    · exact ih hl
    · exact .cons ‹_› (ih hl)

theorem toList_line (depth : Nat) (name s : String) :
    ("\n" ++ indent depth ++ Text.literal name ++ ": " ++ s).toList
      = '\n' :: (indent depth).toList ++ (Text.literal name).toList ++ ':' :: ' ' :: s.toList := by
  simp

/-- A member is rendered at every depth and under every name, if it is not left out. -/
theorem renders_member {layout : String} {d : Datum} (h : d.Exact) (depth : Nat)
    (name key : String) :
    Option.Rel (fun m t => Renders (.member m.1 m.2) t.toList)
      ((memberJson layout key d).map (name, ·)) (member layout depth name key d) := by
  induction h generalizing depth name key with
  | @atom d hd =>
    rw [memberJson_of_atom hd, member_of_atom hd]
    cases hkept : kept layout key d with
    | none => exact .none
    | some e =>
      refine .some ?_
      rw [toList_line]
      exact (renders_value (atom_of_kept hd hkept)).member name (isBlank_line depth)
  | @group as has ih =>
    have hmembers : RendersAll (membersJson layout as) (members layout (depth + 1) as) := by
      rw [membersJson_eq_filterMap, members_eq_filterMap]
      exact rendersAll_filterMap fun a ha => ih a ha (depth + 1) a.1 a.1
    have hobject := (renders_object hmembers (isBlank_line depth)).member name (isBlank_line depth)
    refine .some ?_
    simpa [List.append_assoc] using hobject

/-- An object whose members are those of a record, and the end of the line. -/
theorem renders_record {layout : String} {bs : List Bound} (h : ∀ b ∈ bs, b.attr.2.Exact) :
    ∃ s, (record .object layout bs).toList = s ++ ['\n'] ∧
      Renders (.value (.object (recordJson layout bs))) s := by
  have hmembers : RendersAll (recordJson layout bs) (bs.filterMap fun b =>
      member layout 1 (path b.groups b.attr.1) b.attr.1 b.attr.2) :=
    rendersAll_filterMap fun b hb => renders_member (h b hb) 1 _ _
  have hline : ∀ c ∈ ['\n'], IsBlank c := by simp [IsBlank]
  refine ⟨_, ?_, renders_object hmembers hline⟩
  simp [record]

end Pretty

/-! ## Loggers -/

/-- What is added to a logger for its later records. -/
inductive Addition where
  | attrs (as : List Attr)
  | group (name : String)
  deriving Repr

namespace Logger

/-- The logger with an addition. -/
def add (l : Logger) : Addition → Logger
  | .attrs as => l.bind as
  | .group name => l.group name

/-- What the attributes of a record mean; nothing for a logger that writes no objects for people. -/
def meaning (l : Logger) (r : Record) : List (String × Json) :=
  match l.carried with
  | .pretty _ bound groups =>
    Pretty.recordJson l.settings.layout
      ((l.head r).map (⟨[], ·⟩) ++ bound ++ r.attrs.map (⟨groups, ·⟩))
  | _ => []

/-- The logger writes objects for people, and carries no floating-point number. -/
structure WritesObjects (l : Logger) (s : Settings) : Prop where
  settings : l.settings = s
  heard : l.heard = true
  made : l.made = true
  carried : ∃ bound groups, l.carried = .pretty .object bound groups ∧
    ∀ b ∈ bound, b.attr.2.Exact

theorem writesObjects_make {s : Settings} (hpretty : s.pretty = true) (hformat : s.format = .json) :
    (make s).WritesObjects s where
  settings := rfl
  heard := rfl
  made := rfl
  carried := ⟨[], [], by simp [make, Carried.start, hpretty, hformat], nofun⟩

/-- Additions of exact attributes keep it so. -/
theorem WritesObjects.add {l : Logger} {s : Settings} (h : l.WritesObjects s) {a : Addition}
    (ha : ∀ as, a = .attrs as → ∀ b ∈ as, b.2.Exact) : (l.add a).WritesObjects s := by
  obtain ⟨hsettings, hheard, hmade, bound, groups, hcarried, hbound⟩ := h
  cases a with
  | attrs as =>
    have hadd : l.add (.attrs as)
        = { l with carried := .pretty .object (bound ++ as.map (⟨groups, ·⟩)) groups } := by
      simp [Logger.add, bind, hmade, hcarried]
    rw [hadd]
    refine ⟨hsettings, hheard, hmade, _, _, rfl, fun b hb => ?_⟩
    rcases List.mem_append.mp hb with hb | hb
    · exact hbound b hb
    · obtain ⟨x, hx, rfl⟩ := List.mem_map.mp hb
      exact ha as rfl x hx
  | group name =>
    by_cases hname : name = ""
    · have hadd : l.add (.group name) = l := by simp [Logger.add, group, hcarried, hname]
      rw [hadd]
      exact ⟨hsettings, hheard, hmade, bound, groups, hcarried, hbound⟩
    · have hadd : l.add (.group name)
          = { l with carried := .pretty .object bound (groups ++ [name]) } := by
        simp [Logger.add, group, hcarried, hname]
      rw [hadd]
      exact ⟨hsettings, hheard, hmade, bound, _, rfl, hbound⟩

theorem WritesObjects.foldl_add {l : Logger} {s : Settings} (h : l.WritesObjects s)
    {added : List Addition} (hadded : ∀ as, .attrs as ∈ added → ∀ b ∈ as, b.2.Exact) :
    (added.foldl Logger.add l).WritesObjects s := by
  induction added generalizing l with
  | nil => exact h
  | cons a added ih =>
    refine ih (h.add fun as ha => ?_) fun as has => hadded as (List.mem_cons_of_mem _ has)
    exact hadded as (ha ▸ List.mem_cons_self)

theorem exact_of_mem_head {l : Logger} {r : Record} {a : Attr} (h : a ∈ l.head r) : a.2.Exact := by
  rw [head, List.mem_append, List.mem_append] at h
  have hatom : a.2.Atom := by
    rcases h with (h | h) | h
    · rcases List.mem_pair.mp h with rfl | rfl <;> exact ⟨nofun, nofun⟩
    · split at h
      · cases List.mem_singleton.mp h
        exact ⟨nofun, nofun⟩
      · cases h
    · cases List.mem_singleton.mp h
      exact ⟨nofun, nofun⟩
  exact .atom hatom

/-- The members ahead of the one for the message have other names. -/
theorem lookup_recordJson_head (l : Logger) (r : Record) (layout : String) (bs : List Bound) :
    (Pretty.recordJson layout ((l.head r).map (⟨[], ·⟩) ++ bs)).lookup messageKey
      = some (.string r.message) := by
  have hother : ∀ key d bs, key ≠ messageKey →
      (Pretty.recordJson layout (⟨[], (key, d)⟩ :: bs)).lookup messageKey
        = (Pretty.recordJson layout bs).lookup messageKey := by
    intro key d bs hkey
    rw [Pretty.recordJson, List.filterMap_cons]
    cases Pretty.memberJson layout key d with
    | none => rfl
    | some j =>
      rw [Option.map_some, Pretty.path_nil, List.lookup_cons, beq_false_of_ne hkey.symm]
      rfl
  have hmessage : (Pretty.recordJson layout (⟨[], (messageKey, .text r.message)⟩ :: bs)).lookup
      messageKey = some (.string r.message) := by
    have hmember : Pretty.memberJson layout messageKey (.text r.message)
        = some (.string r.message) := rfl
    rw [Pretty.recordJson, List.filterMap_cons, hmember, Option.map_some, Pretty.path_nil]
    exact List.lookup_cons_self
  rw [head]
  cases l.settings.caller
  · simpa [hother _ _ _ (show timeKey ≠ messageKey by decide),
      hother _ _ _ (show levelKey ≠ messageKey by decide)] using hmessage
  · simpa [hother _ _ _ (show timeKey ≠ messageKey by decide),
      hother _ _ _ (show levelKey ≠ messageKey by decide),
      hother _ _ _ (show sourceKey ≠ messageKey by decide)] using hmessage

/-- The first member named for the message is the message, whatever was added. -/
theorem WritesObjects.lookup_message {l : Logger} {s : Settings} (h : l.WritesObjects s)
    (r : Record) : (l.meaning r).lookup messageKey = some (.string r.message) := by
  obtain ⟨bound, groups, hcarried, -⟩ := h.carried
  rw [meaning, hcarried]
  dsimp only
  rw [List.append_assoc]
  exact lookup_recordJson_head l r _ _

/-- What is written for a record renders the object it means. -/
theorem WritesObjects.renders_write {l : Logger} {s : Settings} (h : l.WritesObjects s) {r : Record}
    (hlevel : s.level.number ≤ r.level.number) (hattrs : ∀ a ∈ r.attrs, a.2.Exact) :
    ∃ t, (l.write r).toList = t ++ ['\n'] ∧
      Renders (.value (.object (l.meaning r))) t := by
  obtain ⟨hsettings, hheard, -, bound, groups, hcarried, hbound⟩ := h
  have hexact : ∀ b ∈ (l.head r).map (⟨[], ·⟩) ++ bound ++ r.attrs.map (⟨groups, ·⟩),
      b.attr.2.Exact := by
    intro b hb
    rw [List.mem_append, List.mem_append, List.mem_map, List.mem_map] at hb
    rcases hb with (⟨a, ha, rfl⟩ | hb) | ⟨a, ha, rfl⟩
    · exact exact_of_mem_head ha
    · exact hbound b hb
    · exact hattrs a ha
  have henabled : l.enabled r.level = true := by
    rw [enabled, hheard, hsettings, Bool.true_and]
    exact decide_eq_true hlevel
  rw [write, henabled, meaning, hcarried]
  exact Pretty.renders_record hexact

/-- What is written for a record is the object it means and the end of the line when all strings in
that are portable, and is no JSON with the end of the line otherwise. -/
theorem reads_write_iff {s : Settings} {added : List Addition} {r : Record}
    (hpretty : s.pretty = true) (hformat : s.format = .json)
    (hlevel : s.level.number ≤ r.level.number)
    (hadded : ∀ as, .attrs as ∈ added → ∀ a ∈ as, a.2.Exact) (hattrs : ∀ a ∈ r.attrs, a.2.Exact) :
    let l := added.foldl add (make s)
    let meant := Part.value (.object (l.meaning r))
    (l.meaning r).lookup messageKey = some (.string r.message) ∧
      (Json.Reads meant (l.write r).toList ['\n'] ↔ meant.Portable) ∧
      ((∃ j, Json.Reads (.value j) (l.write r).toList ['\n']) ↔ meant.Portable) := by
  intro l meant
  have hwrites : l.WritesObjects s := (writesObjects_make hpretty hformat).foldl_add hadded
  obtain ⟨t, htext, hrenders⟩ := hwrites.renders_write hlevel hattrs
  have hreads : meant.Portable → Json.Reads meant (l.write r).toList ['\n'] := by
    rw [htext]
    exact fun hportable => hrenders.reads hportable _
  have hportable : ∀ j, Json.Reads (.value j) (l.write r).toList ['\n'] → meant.Portable := by
    intro j hj
    by_contra hstray
    have hscan := Json.scan_of_reads hj
    rw [htext, hrenders.stops hstray] at hscan
    cases hscan
  exact ⟨hwrites.lookup_message r, ⟨hportable _, hreads⟩, fun ⟨j, hj⟩ => hportable j hj,
    fun h => ⟨_, hreads h⟩⟩

/-- A line feed and a letter with an accent are portable, but a bell is not. -/
theorem reads_write_iff_bell :
    let s : Settings := { pretty := true, format := .json, layout := "" }
    let added : List Addition := [.attrs [("n", .int (-3))], .group "g"]
    let l := added.foldl add (make s)
    let r (message : String) : Record :=
      { level := .info, message, attrs := [("in", .group [("é", .bool true)])] }
    (l.meaning (r "\x07")).lookup messageKey = some (.string "\x07") ∧
      (¬ ∃ j, Json.Reads (.value j) (l.write (r "\x07")).toList ['\n']) ∧
      (l.meaning (r "é\n")).lookup messageKey = some (.string "é\n") ∧
      Json.Reads (.value (.object (l.meaning (r "é\n")))) (l.write (r "é\n")).toList ['\n'] := by
  intro s added l r
  have hadded : ∀ as, .attrs as ∈ added → ∀ a ∈ as, a.2.Exact := by
    intro as has a ha
    obtain rfl : as = [("n", .int (-3))] := by simpa [added] using has
    obtain rfl := List.mem_singleton.mp ha
    exact .atom ⟨nofun, nofun⟩
  have hattrs : ∀ message, ∀ a ∈ (r message).attrs, a.2.Exact := by
    intro message a ha
    obtain rfl := List.mem_singleton.mp ha
    refine .group fun b hb => ?_
    obtain rfl := List.mem_singleton.mp hb
    exact .atom ⟨nofun, nofun⟩
  obtain ⟨hbell, -, hno⟩ :=
    reads_write_iff (s := s) (r := r "\x07") rfl rfl (by decide) hadded (hattrs _)
  obtain ⟨hline, hyes, -⟩ :=
    reads_write_iff (s := s) (r := r "é\n") rfl rfl (by decide) hadded (hattrs _)
  exact ⟨hbell, fun h => absurd (hno.mp h) (by decide +kernel), hline,
    hyes.mpr (by decide +kernel)⟩

end Logger

end Log

end Lowlang
