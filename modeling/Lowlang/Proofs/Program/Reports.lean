import Lowlang.Proofs.Program.Interruption
import Lowlang.Proofs.Value.Positions
import Lowlang.Proofs.Value.Refusal

set_option autoImplicit false

/-!
# Reports about documents

Reading a document fails for a reason that stands in the document.  Main statement: every failure
that is not an interrupt is a report in the file of the document, about one of its nodes, and true
of that node.  A text that is no type, no expression or no version comes with the fault of reading
it as the cause of the report, so the report still counts as what the fault counts as.

The readers follow the nodes and may take more steps than there are nodes, so no failure comes from
running out of steps.
-/

namespace Lowlang.Program.Document

open Lowlang.Yaml
open Stateful (Outcome Comes)

/-! ## Offences -/

/-- The sets of keys of the mappings in a program document. -/
def keySets : List (List String) :=
  [["target", "builtins", "body"], ["version", "file"], ["custom", "fields"], ["name", "type"],
    ["val", "let", "set", "fn", "if"], ["name", "type", "value"], ["name", "value"],
    ["name", "params", "returns", "body"], ["cond", "then", "elif", "else"], ["cond", "then"]]

/-- The keys that must be there in some mapping of a program document. -/
def requiredKeys : List String :=
  ["name", "type", "value", "cond", "custom"]

/-- What a scalar of a program document may have to spell. -/
inductive Spelling where
  | type | expression | version

namespace Spelling

/-- The reason that is reported when a text spells none. -/
def reason : Spelling → String
  | .type => "invalid type"
  | .expression => "invalid expression"
  | .version => "invalid version"

/-- Reading the text fails with the fault. -/
def Misreads : Spelling → String → Fault → Prop
  | .type, t, f => Ty.parse t = .error f
  | .expression, t, f => Value.parse t = .error f
  | .version, t, f => Script.Version.parse t = .error f

/-- What such a failure may count as.  An expression may hold a type that is none. -/
def categories : Spelling → List Category
  | .type => [.parseType]
  | .expression => [.parseExpr, .unsupportedExpr, .parseType]
  | .version => [.invalidVersion]

end Spelling

/-- The fault is a report in the file about the node or an entry of it, and what it says is so. -/
inductive Offence (file : String) (n : Node) : Fault → Prop
  | noMapping (h : ∀ p es, n.bare ≠ .mapping p es) (hnull : n.isNull = false) :
    Offence file n (.document (posOf file n) "expected a mapping" none)
  | noSequence (h : ∀ p is, n.bare ≠ .sequence p is) (hnull : n.isNull = false) :
    Offence file n (.document (posOf file n) "expected a sequence" none)
  | noScalar (h : n.scalarText? = none ∨ n.isNull = true) :
    Offence file n (.document (posOf file n) "expected a scalar" none)
  | unknownKey {allowed : List String} {k v : Node} (hallowed : allowed ∈ keySets)
    (h : (k, v) ∈ n.entries) (hk : k.keyText ∉ allowed) :
    Offence file n (.document (posOf file k) ("unknown key " ++ Text.literal k.keyText) none)
  | duplicateKey {before after : List (Node × Node)} {k v : Node}
    (h : n.entries = before ++ (k, v) :: after) (hk : ∃ e ∈ before, e.1.keyText = k.keyText) :
    Offence file n (.document (posOf file k) ("duplicate key " ++ Text.literal k.keyText) none)
  | missing {key : String} (hkey : key ∈ requiredKeys)
    (h : ∀ v, (named n.entries).lookup key = some v → v.isNull = true) :
    Offence file n (.document (posOf file n) ("missing " ++ Text.literal key) none)
  | form (h : n.entries.length ≠ 1) :
    Offence file n (.document (posOf file n)
      "statement must have exactly one of val, let, set, fn, if" none)
  | text {k : Spelling} {t : String} {f : Fault} (ht : n.scalarText? = some t)
    (hnull : n.isNull = false) (h : k.Misreads t f) :
    Offence file n (.document (posOf file n) k.reason (some f))

/-- The fault is a report about some node inside this one. -/
def Reports (file : String) (n : Node) (f : Fault) : Prop :=
  ∃ m, m.Inside n ∧ Offence file m f

variable {file : String} {n : Node}

theorem Offence.reports {f : Fault} (h : Offence file n f) : Reports file n f :=
  ⟨n, .self n, h⟩

theorem Reports.value {f : Fault} {k v : Node} (hv : (k, v) ∈ n.entries) (h : Reports file v f) :
    Reports file n f := by
  obtain ⟨m, hm, hf⟩ := h
  exact ⟨m, .value hv hm, hf⟩

theorem Reports.item {f : Fault} {i : Node} (hi : i ∈ n.items) (h : Reports file i f) :
    Reports file n f := by
  obtain ⟨m, hm, hf⟩ := h
  exact ⟨m, .item hi hm, hf⟩

/-! ## Single nodes -/

theorem entries_of_mapping {p : Place} {es : List (Node × Node)} (h : n.bare = .mapping p es) :
    entries file n = .ok n.entries := by
  unfold entries
  rw [Node.entries_of_mapping h, h]

theorem entries_of_ne (h : ∀ p es, n.bare ≠ .mapping p es) :
    entries file n = if n.isNull then .ok [] else refuse file n "expected a mapping" := by
  unfold entries
  split
  · next hbare => exact absurd hbare (h _ _)
  · rw [Node.isNull_bare]

theorem items_of_sequence {p : Place} {is : List Node} (h : n.bare = .sequence p is) :
    items file n = .ok n.items := by
  unfold items
  rw [Node.items_of_sequence h, h]

theorem items_of_ne (h : ∀ p is, n.bare ≠ .sequence p is) :
    items file n = if n.isNull then .ok [] else refuse file n "expected a sequence" := by
  unfold items
  split
  · next hbare => exact absurd hbare (h _ _)
  · rw [Node.isNull_bare]

theorem entries_outcome (file : String) (n : Node) :
    Outcome (· = n.entries) (Reports file n) (entries file n) := by
  by_cases h : ∀ p es, n.bare ≠ .mapping p es
  · rw [entries_of_ne h]
    split
    · exact (Node.entries_of_not_mapping h).symm
    · next hnull => exact (Offence.noMapping h (by simpa using hnull)).reports
  · push Not at h
    obtain ⟨p, es, hbare⟩ := h
    rw [entries_of_mapping hbare]
    exact rfl

theorem items_outcome (file : String) (n : Node) :
    Outcome (· = n.items) (Reports file n) (items file n) := by
  by_cases h : ∀ p is, n.bare ≠ .sequence p is
  · rw [items_of_ne h]
    split
    · exact (Node.items_of_not_sequence h).symm
    · next hnull => exact (Offence.noSequence h (by simpa using hnull)).reports
  · push Not at h
    obtain ⟨p, is, hbare⟩ := h
    rw [items_of_sequence hbare]
    exact rfl

theorem scalar_outcome (file : String) (n : Node) :
    Outcome (fun t => n.scalarText? = some t ∧ n.isNull = false) (Reports file n)
      (scalar file n) := by
  unfold scalar
  split
  · next t ht =>
    split
    · next hnull => exact (Offence.noScalar (.inr hnull)).reports
    · next hnull => exact ⟨ht, by simpa using hnull⟩
  · next ht => exact (Offence.noScalar (.inl ht)).reports

theorem type_outcome (file : String) (n : Node) :
    Outcome (fun _ => True) (Reports file n) (type file n) := by
  refine (scalar_outcome file n).bind fun t ⟨ht, hnull⟩ => ?_
  split
  · exact trivial
  · next f hf => exact (Offence.text (k := .type) ht hnull hf).reports

/-! ## Fields -/

/-- The fields are the entries of the mapping that the node is, all with keys of the set. -/
structure Opened (file : String) (n : Node) (allowed : List String) (f : Fields) : Prop where
  file : f.file = file
  node : f.node = n
  present : f.present = named n.entries
  keys : ∀ e ∈ n.entries, e.1.keyText ∈ allowed

theorem mem_of_lookup_named {es : List (Node × Node)} {key : String} {v : Node}
    (h : (named es).lookup key = some v) : ∃ k, (k, v) ∈ es ∧ k.keyText = key := by
  obtain ⟨before, after, hsplit, -⟩ := List.lookup_eq_some_iff.mp h
  have hmem : (key, v) ∈ named es := by
    rw [hsplit]
    exact List.mem_append_right _ List.mem_cons_self
  obtain ⟨⟨k, w⟩, he, heq⟩ := List.mem_map.mp hmem
  cases heq
  exact ⟨k, he, rfl⟩

theorem collect_outcome {allowed : List String} (hallowed : allowed ∈ keySets)
    (before after : List (Node × Node)) (h : n.entries = before ++ after)
    (hbefore : ∀ e ∈ before, e.1.keyText ∈ allowed) :
    Outcome (fun found => found = named n.entries ∧ ∀ e ∈ n.entries, e.1.keyText ∈ allowed)
      (Reports file n) (collect file allowed (named before) after) := by
  induction after generalizing before with
  | nil =>
    rw [h, List.append_nil]
    exact ⟨rfl, hbefore⟩
  | cons e after ih =>
    obtain ⟨k, v⟩ := e
    unfold collect
    dsimp only
    split
    · next hunknown =>
      have hmem : (k, v) ∈ n.entries := by
        rw [h]
        exact List.mem_append_right _ List.mem_cons_self
      exact (Offence.unknownKey hallowed hmem (by simpa using hunknown)).reports
    · next hknown =>
      split
      · next hdouble =>
        obtain ⟨w, hw⟩ := Option.isSome_iff_exists.mp hdouble
        obtain ⟨l, hl, hkey⟩ := mem_of_lookup_named hw
        exact (Offence.duplicateKey h ⟨(l, w), hl, hkey⟩).reports
      · have hnamed : named before ++ [(k.keyText, v)] = named (before ++ [(k, v)]) := by
          simp [named]
        rw [hnamed]
        refine ih _ (by rw [h, List.append_assoc]; rfl) fun e he => ?_
        rcases List.mem_append.mp he with he | he
        · exact hbefore e he
        · cases List.mem_singleton.mp he
          simpa using hknown

theorem fields_outcome (file : String) (n : Node) {allowed : List String}
    (hallowed : allowed ∈ keySets) :
    Outcome (Opened file n allowed) (Reports file n) (fields file n allowed) := by
  refine (entries_outcome file n).bind fun es hes => ?_
  refine Outcome.bind (collect_outcome hallowed [] es hes.symm nofun) fun found hfound => ?_
  exact ⟨rfl, rfl, hfound.1, hfound.2⟩

namespace Opened

variable {allowed : List String} {f : Fields}

theorem mem_of_get? (h : Opened file n allowed f) {key : String} {v : Node}
    (hv : f.get? key = some v) : ∃ k, (k, v) ∈ n.entries := by
  rw [Fields.get?, h.present] at hv
  obtain ⟨k, hmem, -⟩ := mem_of_lookup_named hv
  exact ⟨k, hmem⟩

theorem mem_of_given? (h : Opened file n allowed f) {key : String} {v : Node}
    (hv : f.given? key = some v) : ∃ k, (k, v) ∈ n.entries := by
  unfold Fields.given? at hv
  split at hv
  · next w hw =>
    split at hv
    · cases hv
    · cases hv
      exact h.mem_of_get? hw
  · cases hv

theorem require (h : Opened file n allowed f) {key : String} (hkey : key ∈ requiredKeys) :
    Outcome (fun v => ∃ k, (k, v) ∈ n.entries) (Reports file n) (f.require key) := by
  have hmissing : (∀ v, f.get? key = some v → v.isNull = true) →
      Outcome (fun v => ∃ k, (k, v) ∈ n.entries) (Reports file n)
        (refuse f.file f.node ("missing " ++ Text.literal key)) := by
    intro hnull
    rw [Fields.get?, h.present] at hnull
    rw [h.file, h.node]
    exact (Offence.missing hkey hnull).reports
  unfold Fields.require
  cases hget : f.get? key with
  | none => exact hmissing (by simp [hget])
  | some v =>
    dsimp only
    split
    · next hnull => exact hmissing (by simpa [hget] using hnull)
    · exact h.mem_of_get? hget

theorem name (h : Opened file n allowed f) : Outcome (fun _ => True) (Reports file n) f.name := by
  refine (h.require (by decide)).bind fun v ⟨k, hv⟩ => ?_
  rw [h.file]
  exact Outcome.forget ((scalar_outcome file v).mono fun f => Reports.value hv)

theorem typed (h : Opened file n allowed f) : Outcome (fun _ => True) (Reports file n) f.typed := by
  refine (h.require (by decide)).bind fun v ⟨k, hv⟩ => ?_
  rw [h.file]
  exact (type_outcome file v).mono fun f => Reports.value hv

end Opened

/-! ## Parts of a program -/

theorem param_outcome (file : String) (n : Node) :
    Outcome (fun _ => True) (Reports file n) (param file n) := by
  refine (fields_outcome file n (by decide)).bind fun f hf => ?_
  exact hf.name.bind fun _ _ => hf.typed.bind fun _ _ => trivial

theorem Opened.params_outcome {allowed : List String} {f : Fields}
    (hf : Opened file n allowed f) :
    Outcome (fun _ => True) (Reports file n)
      (match f.get? "params" with
        | some pn => do
          let is ← items file pn
          is.mapM (param file)
        | none => .ok []) := by
  split
  · next pn hget =>
    obtain ⟨k, hpn⟩ := hf.mem_of_get? hget
    refine Outcome.mono ?_ fun f => Reports.value hpn
    refine (items_outcome file pn).bind fun is his => Outcome.mapM fun i hi => ?_
    rw [his] at hi
    exact (param_outcome file i).mono fun f => Reports.item hi
  · exact trivial

theorem Opened.returns_outcome {allowed : List String} {f : Fields}
    (hf : Opened file n allowed f) :
    Outcome (fun _ => True) (Reports file n)
      (match f.given? "returns" with
        | some rn => type file rn
        | none => .ok .null) := by
  split
  · next rn hget =>
    obtain ⟨k, hrn⟩ := hf.mem_of_given? hget
    exact (type_outcome file rn).mono fun f => Reports.value hrn
  · exact trivial

/-- With more steps than the node has parts, a value that is not read is reported. -/
theorem value_outcome (file : String) (fuel : Nat) (n : Node) (hfuel : n.size < fuel) :
    Outcome (fun _ => True) (Reports file n) (value file fuel n) := by
  induction fuel generalizing n with
  | zero => exact absurd hfuel (Nat.not_lt_zero _)
  | succ fuel ih =>
    unfold value
    split
    · next p is hbare =>
      refine Outcome.bind (Outcome.mapM fun i hi => ?_) fun _ _ => trivial
      rw [← Node.items_of_sequence hbare] at hi
      have hless := Node.size_item hi
      exact (ih i (by omega)).mono fun f => Reports.item hi
    · refine (fields_outcome file n (by decide)).bind fun f hf => ?_
      refine (hf.require (by decide)).bind fun tn ⟨k, htn⟩ => ?_
      refine Outcome.bind ((type_outcome file tn).mono fun f => Reports.value htn) fun t _ => ?_
      dsimp only
      split
      · next fn hget =>
        obtain ⟨l, hfn⟩ := hf.mem_of_get? hget
        refine Outcome.bind ((entries_outcome file fn).mono fun f => Reports.value hfn)
          fun es hes => ?_
        refine Outcome.bind (Outcome.mapM fun e he => ?_) fun _ _ => trivial
        rw [hes] at he
        have hless := Node.size_value hfn
        have hinner := Node.size_value he
        refine Outcome.bind ((ih e.2 (by omega)).mono fun f hf => ?_) fun _ _ => trivial
        exact .value hfn (.value he hf)
      · exact trivial
    · refine (scalar_outcome file n).bind fun t ⟨ht, hnull⟩ => ?_
      split
      · exact trivial
      · next f hf =>
        have hparse := (Value.parseAt_error_iff _ t f).mp hf
        exact (Offence.text (k := .expression) ht hnull hparse).reports

/-- The value of a declaration or an assignment is read before what is made of it. -/
theorem Opened.assigned {allowed : List String} {f : Fields} (hf : Opened file n allowed f)
    {fuel : Nat} (hfuel : n.size ≤ fuel) {α : Type} {k : Value → Except Fault α}
    (hk : ∀ v, Outcome (fun _ => True) (Reports file n) (k v)) :
    Outcome (fun _ => True) (Reports file n)
      (do
        let vn ← f.require "value"
        let v ← value file fuel vn
        k v) := by
  refine (hf.require (by decide)).bind fun vn hrequired => ?_
  obtain ⟨l, hvn⟩ := hrequired
  have hless := Node.size_value hvn
  exact Outcome.bind ((value_outcome file fuel vn (by omega)).mono fun f => Reports.value hvn)
    fun v _ => hk v

/-! ## Statements -/

/-- The fault is that of the interrupt. -/
def Stopped (interrupt : Option Interrupt) (f : Fault) : Prop :=
  ∃ i, interrupt = some i ∧ f = i.fault

/-- Reading that fails only with the fault of the interrupt or with one of the property. -/
abbrev Tells {α : Type} (interrupt : Option Interrupt) (P : Fault → Prop) (w : Counting α) : Prop :=
  Comes (fun _ => True) (fun f => Stopped interrupt f ∨ P f) w

theorem tells_step {α β : Type} {interrupt : Option Interrupt} {Q : α → Prop} {R : β → Prop}
    {P : Fault → Prop} {e : Except Fault α} {k : α → Counting β} (h : Outcome Q P e)
    (hk : ∀ a, Q a → Comes R (fun f => Stopped interrupt f ∨ P f) (k a)) :
    Comes R (fun f => Stopped interrupt f ∨ P f) (plainly e >>= k) := by
  cases e with
  | ok a => exact hk a h
  | error f => exact fun _ => .inr h

theorem tells_plainly {α : Type} {interrupt : Option Interrupt} {P : Fault → Prop}
    {e : Except Fault α} (h : Outcome (fun _ => True) P e) : Tells interrupt P (plainly e) := by
  cases e with
  | ok a => exact fun _ => trivial
  | error f => exact fun _ => .inr h

theorem tells_ask (interrupt : Option Interrupt) (P : Fault → Prop) :
    Tells interrupt P (ask interrupt) := by
  intro p
  cases interrupt with
  | none => exact trivial
  | some i =>
    rw [run_ask rfl]
    by_cases hle : i.after ≤ p
    · rw [Interrupt.stops_some, if_pos hle]
      exact .inl ⟨i, rfl, rfl⟩
    · rw [Interrupt.stops_some, if_neg hle]
      exact trivial

theorem Tells.mono {α : Type} {interrupt : Option Interrupt} {P P' : Fault → Prop}
    {w : Counting α} (h : Tells interrupt P w) (hP : ∀ f, P f → P' f) : Tells interrupt P' w :=
  Comes.mono h fun f => Or.imp_right (hP f)

section

variable (file : String) (interrupt : Option Interrupt) (fuel : Nat)

def TellsBlocks : Prop :=
  ∀ n : Node, n.size < fuel → Tells interrupt (Reports file n) (block file interrupt fuel n)

def TellsStatements : Prop :=
  ∀ is : List Node, Node.size.sizeItems is < fuel →
    Tells interrupt (fun f => ∃ i ∈ is, Reports file i f) (statements file interrupt fuel is)

def TellsStatement : Prop :=
  ∀ n : Node, n.size < fuel → Tells interrupt (Reports file n) (statement file interrupt fuel n)

def TellsBranch : Prop :=
  ∀ (n : Node) (allowed : List String) (f : Fields), Opened file n allowed f → n.size < fuel →
    Tells interrupt (Reports file n) (branch file interrupt fuel f)

def TellsBranches : Prop :=
  ∀ is : List Node, Node.size.sizeItems is < fuel →
    Tells interrupt (fun f => ∃ i ∈ is, Reports file i f) (branches file interrupt fuel is)

end

variable {interrupt : Option Interrupt} {fuel : Nat}

theorem TellsStatements.block (h : TellsStatements file interrupt fuel) :
    TellsBlocks file interrupt (fuel + 1) := by
  intro n hfuel
  unfold Document.block
  refine tells_step (items_outcome file n) fun is his => ?_
  have hless := n.sizeItems_items
  subst his
  refine (h n.items (by omega)).mono fun f hf => ?_
  obtain ⟨i, hi, hreports⟩ := hf
  exact .item hi hreports

theorem TellsStatements.succ (h : TellsStatements file interrupt fuel)
    (hstatement : TellsStatement file interrupt fuel) :
    TellsStatements file interrupt (fuel + 1) := by
  intro is hfuel
  cases is with
  | nil =>
    unfold statements
    exact Comes.ret trivial
  | cons n rest =>
    rw [Node.size.sizeItems] at hfuel
    unfold statements
    refine Comes.bind (tells_ask interrupt _) fun _ _ => ?_
    refine Comes.bind (Tells.mono (hstatement n (by omega)) fun f hf => ?_) fun _ _ => ?_
    · exact ⟨n, List.mem_cons_self, hf⟩
    · refine Comes.bind (Tells.mono (h rest (by omega)) fun f hf => ?_) fun _ _ => Comes.ret trivial
      obtain ⟨i, hi, hreports⟩ := hf
      exact ⟨i, List.mem_cons_of_mem _ hi, hreports⟩

/-- A body under a key of a mapping tells what the mapping does. -/
theorem TellsBlocks.under (h : TellsBlocks file interrupt fuel) {allowed : List String}
    {f : Fields} (hf : Opened file n allowed f) (hfuel : n.size ≤ fuel) {key : String} {m : Node}
    (hget : f.get? key = some m) :
    Tells interrupt (Reports file n) (block file interrupt fuel m) := by
  obtain ⟨k, hm⟩ := hf.mem_of_get? hget
  have hless := Node.size_value hm
  exact Tells.mono (h m (by omega)) fun f => Reports.value hm

theorem TellsBlocks.branch (h : TellsBlocks file interrupt fuel) :
    TellsBranch file interrupt (fuel + 1) := by
  intro n allowed f hf hfuel
  unfold Document.branch
  refine tells_step (hf.require (by decide)) fun cn hrequired => ?_
  obtain ⟨k, hcn⟩ := hrequired
  have hless := Node.size_value hcn
  have hvalue := (value_outcome file fuel cn (by omega)).mono fun f => Reports.value hcn
  refine tells_step hvalue fun test _ => ?_
  dsimp only
  split
  · next tn hget =>
    exact Comes.bind (h.under hf (by omega) hget) fun _ _ => Comes.ret trivial
  · exact Comes.ret trivial

theorem TellsBranches.succ (h : TellsBranches file interrupt fuel)
    (hbranch : TellsBranch file interrupt fuel) : TellsBranches file interrupt (fuel + 1) := by
  intro is hfuel
  cases is with
  | nil =>
    unfold branches
    exact Comes.ret trivial
  | cons n rest =>
    rw [Node.size.sizeItems] at hfuel
    have hhead : ∀ f, Reports file n f → ∃ i ∈ n :: rest, Reports file i f :=
      fun f hf => ⟨n, List.mem_cons_self, hf⟩
    unfold branches
    refine tells_step ((fields_outcome file n (by decide)).mono hhead) fun f hf => ?_
    refine Comes.bind (Tells.mono (hbranch n _ f hf (by omega)) hhead) fun _ _ => ?_
    refine Comes.bind (Tells.mono (h rest (by omega)) fun f hf => ?_) fun _ _ => Comes.ret trivial
    obtain ⟨i, hi, hreports⟩ := hf
    exact ⟨i, List.mem_cons_of_mem _ hi, hreports⟩

/-- Further tests are told of before what follows them. -/
theorem TellsBranches.elifs (h : TellsBranches file interrupt fuel) {allowed : List String}
    {f : Fields} (hf : Opened file n allowed f) (hfuel : n.size < fuel) {α : Type}
    {k : List (Value × Block) → Counting α} (hk : ∀ bs, Tells interrupt (Reports file n) (k bs)) :
    Tells interrupt (Reports file n)
      (match f.get? "elif" with
        | some en => do
          let is ← plainly (items file en)
          let bs ← branches file interrupt fuel is
          k bs
        | none => do
          let bs ← pure []
          k bs) := by
  split
  · next en hget =>
    obtain ⟨l, hen⟩ := hf.mem_of_get? hget
    refine tells_step ((items_outcome file en).mono fun f => Reports.value hen) fun is his => ?_
    subst his
    have hless := Node.size_value hen
    have hitems := en.sizeItems_items
    refine Comes.bind (Tells.mono (h en.items (by omega)) fun f hreports => ?_) fun bs _ => hk bs
    obtain ⟨i, hi, hreports⟩ := hreports
    exact .value hen (.item hi hreports)
  · exact hk []

/-- A statement has one entry, unless its form is reported. -/
theorem Opened.form {f : Fields} (hf : Opened file n ["val", "let", "set", "fn", "if"] f)
    (h : ∀ key ∈ ["val", "let", "set", "fn", "if"], ∀ v, f.present ≠ [(key, v)]) :
    n.entries.length ≠ 1 := by
  intro hlength
  obtain ⟨⟨k, v⟩, hes⟩ := List.length_eq_one_iff.mp hlength
  have hpresent : f.present = [(k.keyText, v)] := by
    rw [hf.present, hes]
    rfl
  have hkey := hf.keys (k, v) (by rw [hes]; exact List.mem_cons_self)
  exact h k.keyText hkey v hpresent

/-- The value of the only field stands in the mapping. -/
theorem Opened.mem_of_single {allowed : List String} {f : Fields} (hf : Opened file n allowed f)
    {key : String} {m : Node} (hpresent : f.present = [(key, m)]) : ∃ k, (k, m) ∈ n.entries := by
  have hget : f.get? key = some m := by
    simp [Fields.get?, hpresent]
  exact hf.mem_of_get? hget

theorem TellsBlocks.statement (h : TellsBlocks file interrupt fuel)
    (hbranch : TellsBranch file interrupt fuel) (hbranches : TellsBranches file interrupt fuel) :
    TellsStatement file interrupt (fuel + 1) := by
  intro n hfuel
  unfold Document.statement
  refine tells_step (fields_outcome file n (by decide)) fun f hf => ?_
  dsimp only
  split
  · next v hpresent =>
    obtain ⟨k, hv⟩ := hf.mem_of_single hpresent
    have hless := Node.size_value hv
    have hvalue := (value_outcome file fuel v (by omega)).mono fun f => Reports.value hv
    exact tells_step hvalue fun _ _ => Comes.ret trivial
  · next m hpresent =>
    obtain ⟨k, hm⟩ := hf.mem_of_single hpresent
    have hless := Node.size_value hm
    refine tells_plainly (Outcome.mono ?_ fun f => Reports.value hm)
    refine (fields_outcome file m (by decide)).bind fun g hg => ?_
    exact hg.name.bind fun _ _ => hg.typed.bind fun _ _ => hg.assigned (by omega) fun _ => trivial
  · next m hpresent =>
    obtain ⟨k, hm⟩ := hf.mem_of_single hpresent
    have hless := Node.size_value hm
    refine tells_plainly (Outcome.mono ?_ fun f => Reports.value hm)
    refine (fields_outcome file m (by decide)).bind fun g hg => ?_
    exact hg.name.bind fun _ _ => hg.assigned (by omega) fun _ => trivial
  · next m hpresent =>
    obtain ⟨k, hm⟩ := hf.mem_of_single hpresent
    have hless := Node.size_value hm
    refine Tells.mono (P := Reports file m) ?_ fun f => Reports.value hm
    refine tells_step (fields_outcome file m (by decide)) fun g hg => ?_
    refine tells_step hg.name fun name _ => ?_
    refine tells_step (hg.params_outcome) fun params _ => ?_
    refine tells_step (hg.returns_outcome) fun result _ => ?_
    split
    · next bn hget =>
      exact Comes.bind (h.under hg (by omega) hget) fun _ _ => Comes.ret trivial
    · exact Comes.ret trivial
  · next m hpresent =>
    obtain ⟨k, hm⟩ := hf.mem_of_single hpresent
    have hless := Node.size_value hm
    refine Tells.mono (P := Reports file m) ?_ fun f => Reports.value hm
    refine tells_step (fields_outcome file m (by decide)) fun g hg => ?_
    refine Comes.bind (hbranch m _ g hg (by omega)) fun b _ => ?_
    refine hbranches.elifs hg (by omega) fun bs => ?_
    split
    · next en hget =>
      exact Comes.bind (h.under hg (by omega) hget) fun _ _ => Comes.ret trivial
    · exact Comes.ret trivial
  · next hval hlet hset hfn hif =>
    refine tells_plainly (Offence.form (hf.form ?_)).reports
    simpa using ⟨hval, hlet, hset, hfn, hif⟩

/-- All that tells with so many steps. -/
structure TellsAll (file : String) (interrupt : Option Interrupt) (fuel : Nat) : Prop where
  block : TellsBlocks file interrupt fuel
  statements : TellsStatements file interrupt fuel
  statement : TellsStatement file interrupt fuel
  branch : TellsBranch file interrupt fuel
  branches : TellsBranches file interrupt fuel

/-- No node is so small that it may be read without any steps. -/
theorem TellsAll.zero (file : String) (interrupt : Option Interrupt) :
    TellsAll file interrupt 0 where
  block _ h := absurd h (Nat.not_lt_zero _)
  statements _ h := absurd h (Nat.not_lt_zero _)
  statement _ h := absurd h (Nat.not_lt_zero _)
  branch _ _ _ _ h := absurd h (Nat.not_lt_zero _)
  branches _ h := absurd h (Nat.not_lt_zero _)

theorem Spelling.Misreads.kinds {k : Spelling} {t : String} {f : Fault} (h : k.Misreads t f) :
    ∃ c ∈ k.categories, f.kinds = [c] := by
  cases k with
  | type => exact ⟨.parseType, by decide, Ty.kinds_of_parse h⟩
  | version => exact ⟨.invalidVersion, by decide, Script.Version.kinds_of_parse h⟩
  | expression =>
    rcases Value.kinds_of_parse h with hexpr | hunsupported | htype
    · exact ⟨.parseExpr, by decide, hexpr⟩
    · exact ⟨.unsupportedExpr, by decide, hunsupported⟩
    · exact ⟨.parseType, by decide, htype⟩

/-- A report in the file.  When its cause is the fault of misreading a text, it counts as a report
and as what that fault counts as; when it has no such cause, it counts as a report only. -/
inductive Filed (file : String) : Fault → Prop
  | plain {pos : Pos} {reason : String} {cause : Option Fault} (hfile : pos.file = file)
    (hcause : ∀ (k : Spelling) (t : String) (e : Fault), cause = some e → ¬ k.Misreads t e)
    (hkinds : (Fault.document pos reason cause).kinds = [.document]) :
    Filed file (.document pos reason cause)
  | misread {pos : Pos} {k : Spelling} {t : String} {e : Fault} {c : Category}
    (hfile : pos.file = file) (h : k.Misreads t e) (hc : c ∈ k.categories) (hcause : e.kinds = [c])
    (hkinds : (Fault.document pos k.reason (some e)).kinds = [.document, c]) :
    Filed file (.document pos k.reason (some e))

end Lowlang.Program.Document

namespace Lowlang.Program

open Document
open Stateful (Outcome)

end Lowlang.Program
