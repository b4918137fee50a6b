import Lowlang.Program.Reading
import Lowlang.Proofs.Program.Encoding
import Lowlang.Proofs.Yaml.Parts

set_option autoImplicit false

/-!
# Nodes that hold content

Content that is to be written and the nodes that are read belong together when a node holds the
content: a text as a scalar that shows it, a mapping key by key and a sequence item by item, each
in order.  Places, spellings, tags and anchors are left open.  This is all that reading a program
document asks of the way through the text of the document.

Here stand the parts of reading that look at single nodes: scalars, types, entries, items, and the
fields of a mapping with its keys.
-/

namespace Lowlang.Yaml

mutual

/-- The node holds the content. -/
def Holds : Content → Node → Prop
  | .text s, n | .word s, n => n.scalarText? = some s ∧ n.isNull = false
  | .mapping es, n => ∃ p ns, n.bare = .mapping p ns ∧ HoldsEntries es ns
  | .sequence is, n => ∃ p ns, n.bare = .sequence p ns ∧ HoldsItems is ns
termination_by structural c => c

/-- The entries hold those of a mapping, key by key. -/
def HoldsEntries : List (String × Content) → List (Node × Node) → Prop
  | [], [] => True
  | (k, c) :: es, (kn, vn) :: ns => kn.keyText = k ∧ Holds c vn ∧ HoldsEntries es ns
  | _, _ => False
termination_by structural es => es

/-- The nodes hold the items of a sequence in order. -/
def HoldsItems : List Content → List Node → Prop
  | [], [] => True
  | c :: is, n :: ns => Holds c n ∧ HoldsItems is ns
  | _, _ => False
termination_by structural is => is

end

mutual

/-- A node that holds the content. -/
def Content.node : Content → Node
  | .text s | .word s => .scalar ⟨1, 1⟩ s (.text s)
  | .mapping es => .mapping ⟨1, 1⟩ (entryNodes es)
  | .sequence is => .sequence ⟨1, 1⟩ (itemNodes is)
termination_by structural c => c

/-- Entries that hold those of a mapping. -/
def Content.entryNodes : List (String × Content) → List (Node × Node)
  | [] => []
  | (k, c) :: es => (.scalar ⟨1, 1⟩ k (.text k), c.node) :: entryNodes es
termination_by structural es => es

/-- Nodes that hold the items of a sequence. -/
def Content.itemNodes : List Content → List Node
  | [] => []
  | c :: is => c.node :: itemNodes is
termination_by structural is => is

end

mutual

/-- Every content is held by some node. -/
theorem holds_node : ∀ c : Content, Holds c c.node
  | .text _ | .word _ => ⟨rfl, rfl⟩
  | .mapping es => ⟨_, _, rfl, holds_entryNodes es⟩
  | .sequence is => ⟨_, _, rfl, holds_itemNodes is⟩
termination_by structural c => c

theorem holds_entryNodes : ∀ es : List (String × Content), HoldsEntries es (Content.entryNodes es)
  | [] => trivial
  | (_, c) :: es => ⟨rfl, holds_node c, holds_entryNodes es⟩
termination_by structural es => es

theorem holds_itemNodes : ∀ is : List Content, HoldsItems is (Content.itemNodes is)
  | [] => trivial
  | c :: is => ⟨holds_node c, holds_itemNodes is⟩
termination_by structural is => is

end

theorem Holds.isNull {c : Content} {n : Node} (h : Holds c n) : n.isNull = false := by
  cases c with
  | text s => exact h.2
  | word s => exact h.2
  | mapping es =>
    obtain ⟨p, ns, hbare, _⟩ := h
    simp only [Node.isNull, hbare]
  | sequence is =>
    obtain ⟨p, ns, hbare, _⟩ := h
    simp only [Node.isNull, hbare]

theorem Holds.mapping {es : List (String × Content)} {n : Node} (h : Holds (.mapping es) n) :
    ∃ p ns, n.bare = .mapping p ns := by
  obtain ⟨p, ns, hbare, _⟩ := h
  exact ⟨p, ns, hbare⟩

end Lowlang.Yaml

namespace Lowlang.Script.Version

theorem lower_trimSpace_text : ∀ v ∈ all, Text.lower (Text.trimSpace v.text) = v.text := by
  have hlower : ∀ s, Text.lower s = String.ofList (s.toList.map Text.toLowerAscii) := by
    intro s
    rw [← String.toList_map, String.ofList_toList]
    rfl
  simp only [hlower]
  decide

/-- The name of a version is read as the version. -/
theorem parse_text {v : Version} (h : v ∈ all) : parse v.text = .ok v := by
  have hname := lower_trimSpace_text v h
  cases v with
  | other n => simp [all] at h
  | _ =>
    unfold parse
    rw [hname]
    rfl

end Lowlang.Script.Version

namespace Lowlang.Program.Document

open Lowlang.Yaml

theorem mapM_cons_ok {α β : Type} {g : α → Except Fault β} {a : α} {as : List α} {b : β}
    {bs : List β} (h : g a = .ok b) (hs : as.mapM g = .ok bs) :
    (a :: as).mapM g = .ok (b :: bs) := by
  rw [List.mapM_cons, h]
  simp only [bind, Except.bind, hs, pure, Except.pure]

/-! ## Single nodes -/

theorem scalar_of_holds {s : String} {n : Node} (h : Holds (.text s) n) (file : String) :
    scalar file n = .ok s := by
  obtain ⟨htext, hnull⟩ := h
  simp [scalar, htext, hnull]

/-- The text of a canonical type is read as the type. -/
theorem type_of_holds {t : Ty} {n : Node} (h : Holds (.text t.text) n) (ht : t.Canonical)
    (file : String) : type file n = .ok t := by
  unfold type
  rw [scalar_of_holds h]
  simp only [bind, Except.bind, Ty.parse_text ht]

theorem items_of_holds {is : List Content} {n : Node} (h : Holds (.sequence is) n)
    (file : String) : ∃ ns, items file n = .ok ns ∧ HoldsItems is ns ∧
      Node.size.sizeItems ns < n.size := by
  obtain ⟨p, ns, hbare, hns⟩ := h
  have hsize := n.size_bare
  refine ⟨ns, by simp only [items, hbare], hns, ?_⟩
  rw [hbare, Node.size] at hsize
  omega

theorem entries_of_holds {es : List (String × Content)} {n : Node} (h : Holds (.mapping es) n)
    (file : String) : ∃ ns, entries file n = .ok ns ∧ HoldsEntries es ns ∧
      Node.size.sizeEntries ns < n.size := by
  obtain ⟨p, ns, hbare, hns⟩ := h
  have hsize := n.size_bare
  refine ⟨ns, by simp only [entries, hbare], hns, ?_⟩
  rw [hbare, Node.size] at hsize
  omega

/-! ## Fields -/

/-- Entries under the texts of their keys. -/
def named (ns : List (Node × Node)) : List (String × Node) :=
  ns.map fun e => (e.1.keyText, e.2)

/-- Entries with distinct keys that are all allowed are found in order. -/
theorem collect_of_holds {allowed : List String} {es : List (String × Content)}
    {ns : List (Node × Node)} (h : HoldsEntries es ns) (file : String)
    (hkeys : ∀ e ∈ es, e.1 ∈ allowed)
    (hdistinct : (es.map Prod.fst).Nodup) (found : List (String × Node))
    (hfound : ∀ e ∈ es, found.lookup e.1 = none) :
    collect file allowed found ns = .ok (found ++ named ns) := by
  induction es generalizing ns found with
  | nil =>
    cases ns with
    | nil => simp [collect, named]
    | cons n ns => exact absurd h id
  | cons e es ih =>
    obtain ⟨k, c⟩ := e
    cases ns with
    | nil => exact absurd h id
    | cons n ns =>
      obtain ⟨kn, vn⟩ := n
      obtain ⟨hk, _, hns⟩ := h
      rw [List.forall_mem_cons] at hkeys hfound
      rw [List.map_cons, List.nodup_cons] at hdistinct
      have hmore : ∀ e ∈ es, (found ++ [(k, vn)]).lookup e.1 = none := by
        intro e he
        have hne : e.1 ≠ k := by
          rintro rfl
          exact hdistinct.1 (List.mem_map.mpr ⟨e, he, rfl⟩)
        have hbeq : (e.1 == k) = false := beq_eq_false_iff_ne.mpr hne
        simp [List.lookup_append, hfound.2 e he, List.lookup_cons, hbeq]
      have hread := ih hns hkeys.2 hdistinct.2 _ hmore
      have hallowed : allowed.contains k = true := List.contains_iff_mem.mpr hkeys.1
      have hnew : found.lookup k = none := hfound.1
      simp only [collect, hk, hallowed, hnew, Bool.not_true, Bool.false_eq_true, if_false,
        Option.isSome_none]
      rw [hread]
      simp [named, hk]

/-- The fields found hold the entries of a mapping. -/
structure Held (n : Node) (es : List (String × Content)) (f : Fields) : Prop where
  found : ∃ ns, f.present = named ns ∧ HoldsEntries es ns ∧ Node.size.sizeEntries ns < n.size

/-- A mapping whose keys are some of the distinct keys allowed, in their order, is read field by
field. -/
theorem fields_of_holds {es : List (String × Content)} {n : Node} (h : Holds (.mapping es) n)
    (file : String) (allowed : List String) (hallowed : allowed.Nodup)
    (hkeys : (es.map Prod.fst).Sublist allowed) :
    ∃ f, fields file n allowed = .ok f ∧ Held n es f := by
  obtain ⟨ns, hentries, hns, hsize⟩ := entries_of_holds h file
  have hmem : ∀ e ∈ es, e.1 ∈ allowed := by
    intro e he
    exact hkeys.subset (List.mem_map.mpr ⟨e, he, rfl⟩)
  have hcollect := collect_of_holds hns file hmem (hallowed.sublist hkeys) [] (by simp)
  refine ⟨⟨file, n, named ns⟩, ?_, ⟨ns, rfl, hns, hsize⟩⟩
  unfold fields
  rw [hentries]
  simp only [bind, Except.bind, hcollect, List.nil_append]

/-- A single field is the only one found. -/
theorem Held.single {n : Node} {k : String} {c : Content} {f : Fields} (h : Held n [(k, c)] f) :
    ∃ vn, f.present = [(k, vn)] ∧ Holds c vn ∧ vn.size < n.size := by
  obtain ⟨ns, hpresent, hns, hsize⟩ := h.found
  match ns, hns with
  | [(kn, vn)], hns =>
    simp only [Node.size.sizeEntries] at hsize
    refine ⟨vn, ?_, hns.2.1, by omega⟩
    rw [hpresent, named, List.map_singleton, hns.1]

theorem lookup_of_holds {es : List (String × Content)} {ns : List (Node × Node)}
    (h : HoldsEntries es ns) {k : String} :
    (∀ c, es.lookup k = some c → ∃ vn, (named ns).lookup k = some vn ∧ Holds c vn ∧
      vn.size ≤ Node.size.sizeEntries ns) ∧
    (es.lookup k = none → (named ns).lookup k = none) := by
  induction es generalizing ns with
  | nil =>
    cases ns with
    | nil =>
      refine ⟨?_, fun _ => rfl⟩
      intro c hc
      cases hc
    | cons n ns => exact absurd h id
  | cons e es ih =>
    obtain ⟨l, c⟩ := e
    cases ns with
    | nil => exact absurd h id
    | cons n ns =>
      obtain ⟨kn, vn⟩ := n
      obtain ⟨hl, hc, hns⟩ := h
      obtain ⟨hsome, hnone⟩ := ih hns
      have hnamed : named ((kn, vn) :: ns) = (l, vn) :: named ns := by
        simp [named, hl]
      rw [hnamed]
      simp only [List.lookup_cons, Node.size.sizeEntries]
      cases hk : k == l with
      | true =>
        constructor
        · intro d hd
          cases hd
          exact ⟨vn, rfl, hc, by omega⟩
        · intro hnone
          cases hnone
      | false =>
        refine ⟨?_, hnone⟩
        intro d hd
        obtain ⟨wn, hwn, hheld, hsize⟩ := hsome d hd
        exact ⟨wn, hwn, hheld, by omega⟩

namespace Held

variable {n : Node} {es : List (String × Content)} {f : Fields} {c : Content}

theorem get? (h : Held n es f) (k : String) (hk : es.lookup k = some c) :
    ∃ vn, f.get? k = some vn ∧ Holds c vn ∧ vn.size < n.size := by
  obtain ⟨ns, hpresent, hns, hsize⟩ := h.found
  obtain ⟨vn, hlookup, hheld, hle⟩ := (lookup_of_holds hns).1 c hk
  refine ⟨vn, ?_, hheld, by omega⟩
  rw [Fields.get?, hpresent, hlookup]

theorem get?_none (h : Held n es f) (k : String) (hk : es.lookup k = none) : f.get? k = none := by
  obtain ⟨ns, hpresent, hns, _⟩ := h.found
  rw [Fields.get?, hpresent, (lookup_of_holds hns).2 hk]

theorem require (h : Held n es f) (k : String) (hk : es.lookup k = some c) :
    ∃ vn, f.require k = .ok vn ∧ Holds c vn ∧ vn.size < n.size := by
  obtain ⟨vn, hget, hheld, hsize⟩ := h.get? k hk
  refine ⟨vn, ?_, hheld, hsize⟩
  simp [Fields.require, hget, hheld.isNull]

theorem given? (h : Held n es f) (k : String) (hk : es.lookup k = some c) :
    ∃ vn, f.given? k = some vn ∧ Holds c vn := by
  obtain ⟨vn, hget, hheld, _⟩ := h.get? k hk
  refine ⟨vn, ?_, hheld⟩
  simp [Fields.given?, hget, hheld.isNull]

theorem given?_none (h : Held n es f) (k : String) (hk : es.lookup k = none) :
    f.given? k = none := by
  simp [Fields.given?, h.get?_none k hk]

theorem name {s : String} (h : Held n es f) (hk : es.lookup "name" = some (.text s)) :
    f.name = .ok s := by
  obtain ⟨vn, hrequire, hheld, _⟩ := h.require _ hk
  unfold Fields.name
  rw [hrequire]
  exact scalar_of_holds hheld f.file

theorem typed {t : Ty} (h : Held n es f) (hk : es.lookup "type" = some (.text t.text))
    (ht : t.Canonical) : f.typed = .ok t := by
  obtain ⟨vn, hrequire, hheld, _⟩ := h.require _ hk
  unfold Fields.typed
  rw [hrequire]
  exact type_of_holds hheld ht f.file

end Held

/-! ## Declarations and parameters -/

/-- A mapping of names to the texts of canonical types is read as the declarations. -/
theorem decls_of_holds {ds : List Decl} {n : Node} (h : Holds (declsContent ds) n)
    (hds : ∀ d ∈ ds, d.type.Canonical) (file : String) : decls file n = .ok ds := by
  obtain ⟨ns, hentries, hns, -⟩ := entries_of_holds h file
  unfold decls
  rw [hentries]
  simp only [bind, Except.bind]
  clear h hentries
  induction ds generalizing ns with
  | nil =>
    match ns, hns with
    | [], _ => rfl
  | cons d ds ih =>
    rw [List.forall_mem_cons] at hds
    match ns, hns with
    | (kn, vn) :: ns, ⟨hk, hn, hns⟩ =>
      refine mapM_cons_ok ?_ (ih hds.2 ns hns)
      simp only [type_of_holds hn hds.1, hk]

/-- What holds the content of a parameter is read as the parameter. -/
theorem param_of_holds {p : Param} {n : Node} (h : Holds (paramContent p) n)
    (hp : p.type.Canonical) (file : String) : param file n = .ok p := by
  obtain ⟨f, hfields, hf⟩ := fields_of_holds h file ["name", "type"] (by decide) (.refl _)
  unfold param
  rw [hfields]
  simp only [bind, Except.bind, hf.name rfl, hf.typed rfl hp]

/-- What holds the contents of parameters is read as the parameters. -/
theorem params_of_holds {ps : List Param} {ns : List Node}
    (h : HoldsItems (ps.map paramContent) ns) (hps : ∀ p ∈ ps, p.type.Canonical) (file : String) :
    ns.mapM (param file) = .ok ps := by
  induction ps generalizing ns with
  | nil =>
    match ns, h with
    | [], _ => rfl
  | cons p ps ih =>
    rw [List.forall_mem_cons] at hps
    match ns, h with
    | n :: ns, ⟨hn, hns⟩ => exact mapM_cons_ok (param_of_holds hn hps.1 file) (ih hns hps.2)

/-! ## Targets -/

/-- What holds a target with a version that has a name is read as the target. -/
theorem target_of_holds {t : Target} (ht : t.version ∈ Script.Version.all) {n : Node}
    (hn : Holds (.mapping (targetEntries t)) n) (file : String) : target file n = .ok t := by
  have hkeys : ((targetEntries t).map Prod.fst).Sublist ["version", "file"] := by
    unfold targetEntries
    split <;> simp
  obtain ⟨f, hfields, hf⟩ := fields_of_holds hn file _ (by decide) hkeys
  obtain ⟨vn, hvn, hversion, _⟩ := hf.get? "version" rfl
  have hparse := Script.Version.parse_text ht
  have hscalar := scalar_of_holds hversion file
  by_cases hfile : t.file = ""
  · have hentry : (targetEntries t).lookup "file" = none := by
      rw [targetEntries, if_pos hfile]
      rfl
    have hgiven := hf.given?_none _ hentry
    simp only [target, hfields, hvn, hscalar, hparse, hgiven, bind, Except.bind]
    rw [← hfile]
  · have hentry : (targetEntries t).lookup "file" = some (.text t.file) := by
      rw [targetEntries, if_neg hfile]
      rfl
    obtain ⟨fn, hfn, hout⟩ := hf.given? _ hentry
    simp only [target, hfields, hvn, hscalar, hparse, hfn, bind, Except.bind]
    rw [scalar_of_holds hout file]

end Lowlang.Program.Document
