import Lowlang.Proofs.Program.Encoding
import Lowlang.Proofs.Program.Holding
import Lowlang.Proofs.Value.Positions
import Lowlang.Proofs.Value.RoundTrip

set_option autoImplicit false

/-!
# Programs read back

A document that holds the content of a program is read as the program.  Reading follows the
nodes of the document, so the proofs go by the steps it may still take: what is read with one step
more is put together from what is read with the steps that are left.

Of the texts of expressions nothing is assumed but that each is read back by itself; of types,
that they are canonical.
-/

namespace Lowlang.Value

/-! ## Values -/

/-- What writing a value comes across: the value itself, and the parts of lists without a text and
of aggregates. -/
inductive Reached : Value → Value → Prop
  | self (v : Value) : Reached v v
  | element {p : Pos} {elems : List Value} {f : Fault} {u v : Value}
    (hsource : (Value.list p elems).source = .error f) (hv : v ∈ elems) (h : Reached v u) :
    Reached (.list p elems) u
  | field {p : Pos} {t : Option Ty} {fields : List (String × Value)} {n : String} {u v : Value}
    (hv : (n, v) ∈ fields) (h : Reached v u) : Reached (.custom p t fields) u

/-- If the value has a text, the text is read back. -/
def ReadsBack (v : Value) : Prop :=
  ∀ s, v.source = .ok s → ∃ w, parse s = .ok w ∧ w.same v

/-- An expressible value is read back, unless its expression has too many nodes. -/
theorem Expressible.readsBack {v : Value} (h : Expressible v)
    (hsize : nodeCount v ≤ Expr.Grammar.maxNodes) : ReadsBack v := by
  intro s hs
  obtain ⟨r, ts, n, hr, hrendering⟩ := h.rendering
  rw [hs] at hr
  cases hr
  exact hrendering.reads_back.mpr hsize

/-- If the value is an aggregate, its type is there and canonical. -/
def Typed : Value → Prop
  | .custom _ t _ => Ty.CanonicalOption t
  | _ => True

/-- Whatever writing the value comes across is read back as an expression and typed as an
aggregate. -/
def Faithful (v : Value) : Prop :=
  ∀ u, Reached v u → ReadsBack u ∧ Typed u

theorem Faithful.elements {p : Pos} {elems : List Value} {f : Fault}
    (h : Faithful (.list p elems)) (hsource : (Value.list p elems).source = .error f) :
    ∀ v ∈ elems, Faithful v := by
  intro v hv u hu
  exact h u (.element hsource hv hu)

theorem Faithful.fields {p : Pos} {t : Option Ty} {fields : List (String × Value)}
    (h : Faithful (.custom p t fields)) : ∀ f ∈ fields, Faithful f.2 := by
  intro f hf u hu
  exact h u (.field hf hu)

end Lowlang.Value

namespace Lowlang.Stmt

theorem sameParams_refl (ps : List Param) : sameParams ps ps := by
  induction ps with
  | nil => rfl
  | cons p ps ih => simp [sameParams, Ty.same_refl, ih]

end Lowlang.Stmt

namespace Lowlang.Program

open Lowlang.Yaml

namespace Document

variable {file : String} {fuel : Nat}

/-- With so many steps, what holds the content of a value is read as the value. -/
def ReadsValues (file : String) (fuel : Nat) : Prop :=
  ∀ ⦃v : Value⦄ ⦃c : Content⦄ ⦃n : Node⦄, valueContent v = .ok c → v.Faithful → Holds c n →
    n.size < fuel → ∃ w, value file fuel n = .ok w ∧ w.same v

/-- A scalar that shows the text of an expression is read as the expression. -/
theorem value_of_text {s : String} {n : Node} (h : Holds (.text s) n) {v : Value}
    (hsource : v.source = .ok s) (hv : v.Faithful) (hfuel : n.size < fuel) :
    ∃ w, value file fuel n = .ok w ∧ w.same v := by
  obtain ⟨u, hu, hsame⟩ := (hv v (.self v)).1 s hsource
  obtain ⟨w, hw, hsame⟩ := Value.parseAt_same hu hsame (posOf file n)
  refine ⟨w, ?_, hsame⟩
  have hscalar := scalar_of_holds h file
  cases fuel with
  | zero => omega
  | succ fuel =>
    unfold value
    split
    · next hbare => simp [Holds, Node.scalarText?, hbare] at h
    · next hbare => simp [Holds, Node.scalarText?, hbare] at h
    · rw [hscalar]
      simp only [bind, Except.bind, hw]

/-- Items are read one by one. -/
theorem elements_of_holds (h : ReadsValues file fuel) {vs : List Value} {cs : List Content}
    {ns : List Node} (hcs : valueContents vs = .ok cs) (hvs : ∀ v ∈ vs, v.Faithful)
    (hns : HoldsItems cs ns) (hfuel : Node.size.sizeItems ns < fuel) :
    ∃ ws, ns.mapM (value file fuel) = .ok ws ∧ Value.sameList ws vs := by
  induction vs generalizing cs ns with
  | nil =>
    cases hcs
    match ns, hns with
    | [], _ => exact ⟨[], rfl, rfl⟩
  | cons v vs ih =>
    obtain ⟨c, hc, hcs⟩ := Fault.bind_ok hcs
    obtain ⟨cs, hmore, hcs⟩ := Fault.bind_ok hcs
    cases hcs
    rw [List.forall_mem_cons] at hvs
    match ns, hns with
    | n :: ns, ⟨hn, hns⟩ =>
      rw [Node.size.sizeItems] at hfuel
      obtain ⟨w, hw, hsame⟩ := h hc hvs.1 hn (by omega)
      obtain ⟨ws, hws, hsames⟩ := ih hmore hvs.2 hns (by omega)
      refine ⟨w :: ws, mapM_cons_ok hw hws, ?_⟩
      simp [Value.sameList, hsame, hsames]

/-- Entries are read one by one under their keys. -/
theorem members_of_holds (h : ReadsValues file fuel) {fields : List (String × Value)}
    {fs : List (String × Content)} {ns : List (Node × Node)}
    (hfs : fieldContents fields = .ok fs) (hvs : ∀ f ∈ fields, f.2.Faithful)
    (hns : HoldsEntries fs ns) (hfuel : Node.size.sizeEntries ns < fuel) :
    ∃ ws, (ns.mapM fun e => do
        let v ← value file fuel e.2
        Except.ok (e.1.keyText, v)) = .ok ws ∧ Value.sameFields ws fields := by
  induction fields generalizing fs ns with
  | nil =>
    cases hfs
    match ns, hns with
    | [], _ => exact ⟨[], rfl, rfl⟩
  | cons f fields ih =>
    obtain ⟨k, v⟩ := f
    obtain ⟨c, hc, hfs⟩ := Fault.bind_ok hfs
    obtain ⟨cs, hmore, hfs⟩ := Fault.bind_ok hfs
    cases hfs
    rw [List.forall_mem_cons] at hvs
    match ns, hns with
    | (kn, vn) :: ns, ⟨hk, hn, hns⟩ =>
      rw [Node.size.sizeEntries] at hfuel
      obtain ⟨w, hw, hsame⟩ := h hc hvs.1 hn (by omega)
      obtain ⟨ws, hws, hsames⟩ := ih hmore hvs.2 hns (by omega)
      refine ⟨(k, w) :: ws, ?_, ?_⟩
      · refine mapM_cons_ok ?_ hws
        simp only [hw, hk, bind, Except.bind]
      · simp [Value.sameFields, hsame, hsames]

/-- What holds the content of an aggregate is read as the aggregate. -/
theorem value_of_custom (h : ReadsValues file fuel) {p : Pos} {t : Option Ty}
    {fields : List (String × Value)} {fs : List (String × Content)}
    (hfs : fieldContents fields = .ok fs) (hv : (Value.custom p t fields).Faithful) {n : Node}
    (hn : Holds (.mapping (customEntries t fs)) n) (hfuel : n.size < fuel + 1) :
    ∃ w, value file (fuel + 1) n = .ok w ∧ w.same (.custom p t fields) := by
  have htyped : Ty.CanonicalOption t := (hv _ (.self _)).2
  cases t with
  | none => exact htyped.elim
  | some t =>
    have hkeys : ((customEntries (some t) fs).map Prod.fst).Sublist ["custom", "fields"] := by
      unfold customEntries
      split <;> simp
    obtain ⟨q, es, hbare⟩ := hn.mapping
    obtain ⟨f, hfields, hf⟩ := fields_of_holds hn file _ (by decide) hkeys
    obtain ⟨tn, hrequire, htn, hless⟩ := hf.require "custom" rfl
    have htype : type file tn = .ok t := type_of_holds htn htyped file
    cases fs with
    | nil =>
      have hget : f.get? "fields" = none := hf.get?_none _ rfl
      have hnone : HoldsEntries [] [] := trivial
      have hpos : 0 < fuel := by omega
      obtain ⟨ws, hws, hsame⟩ := members_of_holds h hfs hv.fields hnone hpos
      cases hws
      refine ⟨.custom (posOf file n) (some t) [], ?_, ?_⟩
      · simp only [value, hbare, hfields, hrequire, htype, hget, bind, Except.bind]
      · rw [Value.same, Ty.sameOption_refl]
        exact hsame
    | cons e fs =>
      obtain ⟨fn, hget, hfn, hsize⟩ := hf.get? "fields" rfl
      obtain ⟨ns, hentries, hns, hless⟩ := entries_of_holds hfn file
      obtain ⟨ws, hws, hsame⟩ := members_of_holds h hfs hv.fields hns (by omega)
      refine ⟨.custom (posOf file n) (some t) ws, ?_, ?_⟩
      · simp only [bind, Except.bind] at hws
        simp only [value, hbare, hfields, hrequire, htype, hget, hentries, hws, bind, Except.bind]
      · simp only [Value.same, hsame, Ty.sameOption_refl, Bool.and_true]

/-- With one step more, a value is read from its parts. -/
theorem ReadsValues.succ (h : ReadsValues file fuel) : ReadsValues file (fuel + 1) := by
  intro v c n hc hv hn hfuel
  obtain ⟨s, hs, rfl⟩ | ⟨p, elems, cs, f, rfl, hs, hcs, rfl⟩ | ⟨p, t, fields, fs, rfl, hfs, rfl⟩ :=
    valueContent_ok hc
  · exact value_of_text hn hs hv hfuel
  · obtain ⟨q, ns, hbare, hns⟩ := hn
    have hsize := n.size_bare
    rw [hbare, Node.size] at hsize
    obtain ⟨ws, hws, hsame⟩ := elements_of_holds h hcs (hv.elements hs) hns (by omega)
    refine ⟨.list (posOf file n) ws, ?_, hsame⟩
    simp only [value, hbare, hws, bind, Except.bind]
  · exact value_of_custom h hfs hv hn hfuel

theorem readsValues (file : String) (fuel : Nat) : ReadsValues file fuel := by
  induction fuel with
  | zero =>
    intro v c n _ _ _ hfuel
    exact absurd hfuel (Nat.not_lt_zero _)
  | succ fuel ih => exact ih.succ

/-! ## Readings that succeed -/

/-- The reading succeeds, whatever has been asked before, with a result of the property. -/
def Reads {α : Type} (w : Counting α) (P : α → Prop) : Prop :=
  ∀ k, ∃ a l, w.run.run k = (.ok a, l) ∧ P a

namespace Reads

variable {α β : Type} {P : α → Prop} {Q : β → Prop}

theorem pure {a : α} (h : P a) : Reads (Pure.pure a) P := by
  intro k
  exact ⟨a, k, rfl, h⟩

theorem plainly {e : Except Fault α} {a : α} (he : e = .ok a) (h : P a) :
    Reads (Document.plainly e) P := by
  subst he
  exact Reads.pure h

theorem bind {w : Counting α} {g : α → Counting β} (h : Reads w P)
    (hg : ∀ a, P a → Reads (g a) Q) : Reads (w >>= g) Q := by
  intro k
  obtain ⟨a, l, hw, ha⟩ := h k
  obtain ⟨b, m, hb, hq⟩ := hg a ha l
  refine ⟨b, m, ?_, hq⟩
  rw [ExceptT.run_bind, StateT.run_bind, hw]
  exact hb

/-- What succeeds without counting hands its result on. -/
theorem after {e : Except Fault α} {a : α} (he : e = .ok a) {g : α → Counting β}
    (h : Reads (g a) Q) : Reads (Document.plainly e >>= g) Q := by
  subst he
  exact h

end Reads

/-- Nothing is called off without an interrupt. -/
theorem reads_ask : Reads (ask none) fun _ => True := by
  intro k
  exact ⟨(), k + 1, rfl, trivial⟩

/-! ## Statements

For each function that reads statements, what it makes of nodes that are smaller than the steps it
may take.  The five call each other with one step less, and every node inside another is smaller,
so a whole document never runs out of steps. -/

def ReadsBlocks (file : String) (fuel : Nat) : Prop :=
  ∀ ⦃ss : List Stmt⦄ ⦃cs : List Content⦄ ⦃n : Node⦄, blockContents ss = .ok cs →
    Stmt.FormedBlock ss → (∀ v ∈ Stmt.blockValues ss, v.Faithful) → Holds (.sequence cs) n →
    n.size < fuel → Reads (block file none fuel n) fun b => Stmt.sameBlock b ss

def ReadsStatements (file : String) (fuel : Nat) : Prop :=
  ∀ ⦃ss : List Stmt⦄ ⦃cs : List Content⦄ ⦃ns : List Node⦄, blockContents ss = .ok cs →
    Stmt.FormedBlock ss → (∀ v ∈ Stmt.blockValues ss, v.Faithful) → HoldsItems cs ns →
    Node.size.sizeItems ns < fuel →
    Reads (statements file none fuel ns) fun b => Stmt.sameBlock b ss

def ReadsStatement (file : String) (fuel : Nat) : Prop :=
  ∀ ⦃s : Stmt⦄ ⦃c : Content⦄ ⦃n : Node⦄, stmtContent s = .ok c → s.Formed →
    (∀ v ∈ s.values, v.Faithful) → Holds c n → n.size < fuel →
    Reads (statement file none fuel n) fun t => t.same s

def ReadsBranch (file : String) (fuel : Nat) : Prop :=
  ∀ ⦃test : Value⦄ ⦃body : List Stmt⦄ ⦃c : Content⦄ ⦃cs : List Content⦄ ⦃n : Node⦄
    ⦃es : List (String × Content)⦄ ⦃f : Fields⦄, valueContent test = .ok c → test.Faithful →
    blockContents body = .ok cs → Stmt.FormedBlock body →
    (∀ v ∈ Stmt.blockValues body, v.Faithful) → Held n es f → es.lookup "cond" = some c →
    es.lookup "then" = some (.sequence cs) → n.size < fuel →
    Reads (branch file none fuel f) fun b => b.1.same test ∧ Stmt.sameBlock b.2 body

def ReadsBranches (file : String) (fuel : Nat) : Prop :=
  ∀ ⦃es : List (Value × List Stmt)⦄ ⦃cs : List Content⦄ ⦃ns : List Node⦄,
    elifContents es = .ok cs → Stmt.FormedElifs es → (∀ v ∈ Stmt.elifValues es, v.Faithful) →
    HoldsItems cs ns → Node.size.sizeItems ns < fuel →
    Reads (branches file none fuel ns) fun b => Stmt.sameElifs b es

theorem ReadsStatements.block (h : ReadsStatements file fuel) : ReadsBlocks file (fuel + 1) := by
  intro ss cs n hcs hformed hvs hn hfuel
  obtain ⟨ns, hitems, hns, hsize⟩ := items_of_holds hn file
  unfold Document.block
  exact .after hitems (h hcs hformed hvs hns (by omega))

theorem ReadsStatements.succ (h : ReadsStatements file fuel)
    (hstatement : ReadsStatement file fuel) : ReadsStatements file (fuel + 1) := by
  intro ss cs ns hcs hformed hvs hns hfuel
  cases ss with
  | nil =>
    cases hcs
    match ns, hns with
    | [], _ => exact .pure rfl
  | cons s ss =>
    obtain ⟨c, hc, hcs⟩ := Fault.bind_ok hcs
    obtain ⟨cs, hmore, hcs⟩ := Fault.bind_ok hcs
    cases hcs
    rw [Stmt.blockValues, List.forall_mem_append] at hvs
    match ns, hns with
    | n :: ns, ⟨hn, hns⟩ =>
      rw [Node.size.sizeItems] at hfuel
      unfold statements
      refine reads_ask.bind fun _ _ => ?_
      refine (hstatement hc hformed.1 hvs.1 hn (by omega)).bind fun t ht => ?_
      refine (h hmore hformed.2 hvs.2 hns (by omega)).bind fun ts hts => ?_
      apply Reads.pure
      rw [Stmt.sameBlock, ht, hts]
      rfl

theorem ReadsBlocks.branch (h : ReadsBlocks file fuel) : ReadsBranch file (fuel + 1) := by
  intro test body c cs n es f hc htest hcs hformed hvs hf hcond hthen hfuel
  obtain ⟨cn, hrequire, hcn, hsize⟩ := hf.require "cond" hcond
  obtain ⟨v, hv, hsame⟩ := readsValues file fuel hc htest hcn (by omega)
  obtain ⟨tn, hget, htn, hless⟩ := hf.get? "then" hthen
  unfold Document.branch
  rw [hget]
  refine .after hrequire (.after hv ?_)
  refine (h hcs hformed hvs htn (by omega)).bind fun b hb => ?_
  exact Reads.pure ⟨hsame, hb⟩

theorem ReadsBranches.succ (h : ReadsBranches file fuel) (hbranch : ReadsBranch file fuel) :
    ReadsBranches file (fuel + 1) := by
  intro es cs ns hcs hformed hvs hns hfuel
  cases es with
  | nil =>
    cases hcs
    match ns, hns with
    | [], _ => exact .pure rfl
  | cons e es =>
    obtain ⟨test, body⟩ := e
    obtain ⟨c, hc, hcs⟩ := Fault.bind_ok hcs
    obtain ⟨bs, hbody, hcs⟩ := Fault.bind_ok hcs
    obtain ⟨cs, hmore, hcs⟩ := Fault.bind_ok hcs
    cases hcs
    rw [Stmt.elifValues, List.forall_mem_cons, List.forall_mem_append] at hvs
    match ns, hns with
    | n :: ns, ⟨hn, hns⟩ =>
      rw [Node.size.sizeItems] at hfuel
      obtain ⟨f, hfields, hf⟩ := fields_of_holds hn file ["cond", "then"] (by decide) (.refl _)
      unfold branches
      refine .after hfields ?_
      refine (hbranch hc hvs.1 hbody hformed.1 hvs.2.1 hf rfl rfl (by omega)).bind fun b hb => ?_
      refine (h hmore hformed.2 hvs.2.2 hns (by omega)).bind fun bs hbs => ?_
      apply Reads.pure
      rw [Stmt.sameElifs, hb.1, hb.2, hbs]
      rfl

/-- A mapping with the key of a form is read as that form. -/
theorem form_of_holds {k : String} {c : Content} {n : Node} (h : Holds (.mapping [(k, c)]) n)
    (hk : k ∈ ["val", "let", "set", "fn", "if"]) (file : String) :
    ∃ f m, fields file n ["val", "let", "set", "fn", "if"] = .ok f ∧ f.present = [(k, m)] ∧
      Holds c m ∧ m.size < n.size := by
  obtain ⟨f, hfields, hf⟩ := fields_of_holds h file _ (by decide) (List.singleton_sublist.mpr hk)
  obtain ⟨m, hpresent, hm, hsize⟩ := hf.single
  exact ⟨f, m, hfields, hpresent, hm, hsize⟩

theorem reads_eval {p : Pos} {v : Value} {c : Content} {n : Node}
    (hc : stmtContent (.eval p v) = .ok c) (hv : v.Faithful) (hn : Holds c n)
    (hfuel : n.size < fuel + 1) :
    Reads (statement file none (fuel + 1) n) fun t => t.same (.eval p v) := by
  obtain ⟨c, hvalue, hc⟩ := Fault.bind_ok hc
  cases hc
  obtain ⟨f, m, hfields, hpresent, hm, hsize⟩ := form_of_holds hn (by simp) file
  obtain ⟨w, hw, hsame⟩ := readsValues file fuel hvalue hv hm (by omega)
  unfold statement
  refine .after hfields ?_
  simp only [hpresent]
  exact .after hw (.pure hsame)

theorem reads_declare {p : Pos} {name : String} {t : Option Ty} {v : Value} {c : Content} {n : Node}
    (hc : stmtContent (.declare p name t v) = .ok c) (ht : Ty.CanonicalOption t)
    (hv : v.Faithful) (hn : Holds c n) (hfuel : n.size < fuel + 1) :
    Reads (statement file none (fuel + 1) n) fun s => s.same (.declare p name t v) := by
  obtain ⟨c, hvalue, hc⟩ := Fault.bind_ok hc
  cases hc
  obtain ⟨f, m, hfields, hpresent, hm, hsize⟩ := form_of_holds hn (by simp) file
  obtain ⟨g, hgs, hg⟩ := fields_of_holds hm file ["name", "type", "value"] (by decide) (.refl _)
  obtain ⟨vn, hrequire, hvn, hless⟩ := hg.require "value" rfl
  obtain ⟨w, hw, hsame⟩ := readsValues file fuel hvalue hv hvn (by omega)
  cases t with
  | none => exact ht.elim
  | some t =>
    have htype : g.typed = .ok t := hg.typed rfl ht
    unfold statement
    refine .after hfields ?_
    simp only [hpresent]
    refine .plainly (a := .declare (posOf file n) name (some t) w) ?_ ?_
    · simp only [hgs, hg.name rfl, htype, hrequire, hw, bind, Except.bind, pure, Except.pure]
    · simp [Stmt.same, Ty.sameOption_refl, hsame]

theorem reads_assign {p : Pos} {name : String} {v : Value} {c : Content} {n : Node}
    (hc : stmtContent (.assign p name v) = .ok c) (hv : v.Faithful) (hn : Holds c n)
    (hfuel : n.size < fuel + 1) :
    Reads (statement file none (fuel + 1) n) fun s => s.same (.assign p name v) := by
  obtain ⟨c, hvalue, hc⟩ := Fault.bind_ok hc
  cases hc
  obtain ⟨f, m, hfields, hpresent, hm, hsize⟩ := form_of_holds hn (by simp) file
  obtain ⟨g, hgs, hg⟩ := fields_of_holds hm file ["name", "value"] (by decide) (.refl _)
  obtain ⟨vn, hrequire, hvn, hless⟩ := hg.require "value" rfl
  obtain ⟨w, hw, hsame⟩ := readsValues file fuel hvalue hv hvn (by omega)
  unfold statement
  refine .after hfields ?_
  simp only [hpresent]
  refine .plainly (a := .assign (posOf file n) name w) ?_ ?_
  · simp only [hgs, hg.name rfl, hrequire, hw, bind, Except.bind, pure, Except.pure]
  · simp [Stmt.same, hsame]

theorem ReadsBlocks.function (h : ReadsBlocks file fuel) {p : Pos} {name : String}
    {params : List Param} {result : Option Ty} {body : List Stmt} {c : Content} {n : Node}
    (hc : stmtContent (.function p name params result body) = .ok c)
    (hformed : (Stmt.function p name params result body).Formed)
    (hvs : ∀ v ∈ Stmt.blockValues body, v.Faithful) (hn : Holds c n) (hfuel : n.size < fuel + 1) :
    Reads (statement file none (fuel + 1) n)
      fun s => s.same (.function p name params result body) := by
  obtain ⟨cs, hbody, hc⟩ := Fault.bind_ok hc
  cases hc
  obtain ⟨hparams, hresult, hformed⟩ := hformed
  obtain ⟨f, m, hfields, hpresent, hm, hsize⟩ := form_of_holds hn (by simp) file
  obtain ⟨g, hgs, hg⟩ :=
    fields_of_holds hm file ["name", "params", "returns", "body"] (by decide) (.refl _)
  obtain ⟨pn, hpn, hholds, _⟩ := hg.get? "params" rfl
  obtain ⟨ns, hitems, hns, _⟩ := items_of_holds hholds file
  have hparam := params_of_holds hns hparams file
  obtain ⟨rn, hrn, hholds⟩ := hg.given? "returns" rfl
  obtain ⟨bn, hbn, hblock, hless⟩ := hg.get? "body" rfl
  cases result with
  | none => exact hresult.elim
  | some t =>
    have htype : type file rn = .ok t := type_of_holds hholds hresult file
    unfold statement
    refine .after hfields ?_
    simp only [hpresent]
    refine .after hgs (.after (hg.name rfl) ?_)
    simp only [hpn, hrn, hbn]
    refine .after (a := params) ?_ (.after htype ?_)
    · simp only [hitems, hparam, bind, Except.bind]
    · refine (h hbody hformed hvs hblock (by omega)).bind fun b hb => ?_
      apply Reads.pure
      simp [Stmt.same, Ty.sameOption_refl, Stmt.sameParams_refl, hb]

/-- Further tests are read where they are written, before what follows them. -/
theorem ReadsBranches.elifs (h : ReadsBranches file fuel) {es : List (Value × List Stmt)}
    {cs : List Content} {n : Node} {entries : List (String × Content)} {f : Fields}
    (hcs : elifContents es = .ok cs) (hformed : Stmt.FormedElifs es)
    (hvs : ∀ v ∈ Stmt.elifValues es, v.Faithful) (hf : Held n entries f)
    (hentries : entries.lookup "elif" = (elifEntries cs).lookup "elif") (hfuel : n.size < fuel)
    {α : Type} {P : α → Prop} {g : List (Value × Block) → Counting α}
    (hg : ∀ bs, Stmt.sameElifs bs es → Reads (g bs) P) :
    Reads (match f.get? "elif" with
      | some en => do
        let is ← plainly (items file en)
        let bs ← branches file none fuel is
        g bs
      | none => do
        let bs ← pure []
        g bs) P := by
  cases es with
  | nil =>
    cases hcs
    rw [hf.get?_none _ hentries]
    exact hg [] rfl
  | cons e es =>
    obtain ⟨d, ds, rfl⟩ := elifContents_cons hcs
    obtain ⟨en, hget, hen, hsize⟩ := hf.get? _ hentries
    obtain ⟨ns, hitems, hns, hless⟩ := items_of_holds hen file
    rw [hget]
    exact .after hitems ((h hcs hformed hvs hns (by omega)).bind hg)

/-- A final branch is read where it is written, before what follows it. -/
theorem ReadsBlocks.otherwise (h : ReadsBlocks file fuel) {o : Option (List Stmt)}
    {os : List (String × Content)} {n : Node} {entries : List (String × Content)} {f : Fields}
    (hos : otherwiseContent o = .ok os) (hformed : Stmt.FormedOtherwise o)
    (hvs : ∀ v ∈ Stmt.otherwiseValues o, v.Faithful) (hf : Held n entries f)
    (hentries : entries.lookup "else" = os.lookup "else") (hfuel : n.size < fuel)
    {α : Type} {P : α → Prop} {g : Option Block → Counting α}
    (hg : ∀ b, Stmt.sameOtherwise b o → Reads (g b) P) :
    Reads (match f.get? "else" with
      | some en => do
        let b ← block file none fuel en
        let b ← pure (some b)
        g b
      | none => do
        let b ← pure none
        g b) P := by
  cases o with
  | none =>
    cases hos
    rw [hf.get?_none _ hentries]
    exact hg none rfl
  | some body =>
    obtain ⟨cs, hcs, hos⟩ := Fault.bind_ok hos
    cases hos
    obtain ⟨en, hget, hen, hsize⟩ := hf.get? _ hentries
    rw [hget]
    refine (h hcs hformed hvs hen (by omega)).bind fun b hb => ?_
    exact hg (some b) hb

theorem ReadsBlocks.conditional (h : ReadsBlocks file fuel) (hbranch : ReadsBranch file fuel)
    (hbranches : ReadsBranches file fuel) {p : Pos} {test : Value}
    {body : List Stmt} {elifs : List (Value × List Stmt)} {otherwise : Option (List Stmt)}
    {c : Content} {n : Node} (hc : stmtContent (.branch p test body elifs otherwise) = .ok c)
    (hformed : (Stmt.branch p test body elifs otherwise).Formed)
    (hvs : ∀ v ∈ (Stmt.branch p test body elifs otherwise).values, v.Faithful) (hn : Holds c n)
    (hfuel : n.size < fuel + 1) :
    Reads (statement file none (fuel + 1) n)
      fun s => s.same (.branch p test body elifs otherwise) := by
  obtain ⟨c, htest, hc⟩ := Fault.bind_ok hc
  obtain ⟨cs, hbody, hc⟩ := Fault.bind_ok hc
  obtain ⟨es, helifs, hc⟩ := Fault.bind_ok hc
  obtain ⟨os, hotherwise, hc⟩ := Fault.bind_ok hc
  cases hc
  rw [Stmt.values, List.forall_mem_cons, List.forall_mem_append, List.forall_mem_append] at hvs
  obtain ⟨f, m, hfields, hpresent, hm, hsize⟩ := form_of_holds hn (by simp) file
  obtain ⟨hkeys, helif, helse⟩ := branchEntries_keys (otherwiseContent_ok hotherwise) c cs es
  obtain ⟨g, hgs, hg⟩ := fields_of_holds hm file _ (by decide) hkeys
  unfold statement
  refine .after hfields ?_
  simp only [hpresent]
  refine .after hgs ?_
  refine (hbranch htest hvs.1 hbody hformed.1 hvs.2.1 hg rfl rfl (by omega)).bind fun b hb => ?_
  refine hbranches.elifs helifs hformed.2.1 hvs.2.2.1 hg helif (by omega) fun bs hbs => ?_
  refine h.otherwise hotherwise hformed.2.2 hvs.2.2.2 hg helse (by omega) fun o ho => ?_
  apply Reads.pure
  simp [Stmt.same, hb, hbs, ho]

/-- With one step more, a statement is read from its values and the statements below it. -/
theorem ReadsBlocks.statement (h : ReadsBlocks file fuel) (hbranch : ReadsBranch file fuel)
    (hbranches : ReadsBranches file fuel) : ReadsStatement file (fuel + 1) := by
  intro s c n hc hformed hvs hn hfuel
  cases s with
  | absent => exact hformed.elim
  | eval p v => exact reads_eval hc (hvs v List.mem_cons_self) hn hfuel
  | declare p name t v => exact reads_declare hc hformed (hvs v List.mem_cons_self) hn hfuel
  | assign p name v => exact reads_assign hc (hvs v List.mem_cons_self) hn hfuel
  | function p name params result body => exact h.function hc hformed hvs hn hfuel
  | branch p test body elifs otherwise =>
    exact h.conditional hbranch hbranches hc hformed hvs hn hfuel
  | other p k => exact hformed.elim

/-- All that is read with so many steps. -/
structure ReadsAll (file : String) (fuel : Nat) : Prop where
  block : ReadsBlocks file fuel
  statements : ReadsStatements file fuel
  statement : ReadsStatement file fuel
  branch : ReadsBranch file fuel
  branches : ReadsBranches file fuel

theorem ReadsAll.zero (file : String) : ReadsAll file 0 where
  block _ _ _ _ _ _ _ hfuel := absurd hfuel (Nat.not_lt_zero _)
  statements _ _ _ _ _ _ _ hfuel := absurd hfuel (Nat.not_lt_zero _)
  statement _ _ _ _ _ _ _ hfuel := absurd hfuel (Nat.not_lt_zero _)
  branch _ _ _ _ _ _ _ _ _ _ _ _ _ _ _ hfuel := absurd hfuel (Nat.not_lt_zero _)
  branches _ _ _ _ _ _ _ hfuel := absurd hfuel (Nat.not_lt_zero _)

theorem readsAll (file : String) (fuel : Nat) : ReadsAll file fuel := by
  induction fuel with
  | zero => exact .zero file
  | succ fuel ih =>
    exact ⟨ih.statements.block, ih.statements.succ ih.statement,
      ih.block.statement ih.branch ih.branches, ih.block.branch, ih.branches.succ ih.branch⟩

end Document

/-! ## Whole programs -/

/-- The version is one that a document can name, and all types are there and canonical. -/
structure WellFormed (p : Program) : Prop where
  version : p.target.version ∈ Script.Version.all
  builtins : ∀ d ∈ p.builtins, d.type.Canonical
  statements : Stmt.FormedBlock p.body
  aggregates : ∀ v ∈ Stmt.blockValues p.body, ∀ u, Value.Reached v u → u.Typed

namespace Document

variable {file : String}

/-- Declarations are read where they are written. -/
theorem builtins_of_held {p : Program} (h : ∀ d ∈ p.builtins, d.type.Canonical)
    {cs : List Content} {n : Node} {f : Fields} (hf : Held n (programEntries p cs) f) :
    (match f.get? "builtins" with
      | some n => decls file n
      | none => .ok []) = .ok p.builtins := by
  by_cases hempty : p.builtins = []
  · have hentry : (programEntries p cs).lookup "builtins" = none := by
      simp only [programEntries, hempty]
      rfl
    rw [hf.get?_none _ hentry, hempty]
  · have hentry : (programEntries p cs).lookup "builtins" = some (declsContent p.builtins) := by
      rw [programEntries, if_neg (by simpa using hempty)]
      rfl
    obtain ⟨bn, hget, hbn, _⟩ := hf.get? _ hentry
    rw [hget]
    exact decls_of_holds hbn h file

/-- What holds the content of a program is read as the program. -/
theorem reads_ofNode {p : Program} (h : p.WellFormed)
    (hread : ∀ v ∈ Stmt.blockValues p.body, ∀ u, Value.Reached v u → u.ReadsBack) {c : Content}
    (hc : p.content = .ok c) {n : Node} (hn : Holds c n) :
    Reads (ofNode file none n) fun q =>
      Stmt.sameBlock q.body p.body ∧ q.target = p.target ∧ q.builtins = p.builtins := by
  obtain ⟨cs, hcs, rfl⟩ := content_ok hc
  have hvs : ∀ v ∈ Stmt.blockValues p.body, v.Faithful := by
    intro v hv u hu
    exact ⟨hread v hv u hu, h.aggregates v hv u hu⟩
  obtain ⟨hkeys, hentry⟩ := programEntries_keys p cs
  obtain ⟨f, hfields, hf⟩ := fields_of_holds hn file _ (by decide) hkeys
  obtain ⟨tn, htn, htarget, _⟩ := hf.get? "target" rfl
  obtain ⟨bn, hbn, hbody, hsize⟩ := hf.get? _ hentry
  unfold ofNode
  refine .after hfields ?_
  simp only [htn, hbn]
  refine .after (target_of_holds h.version htarget file) ?_
  refine .after (builtins_of_held h.builtins hf) ?_
  refine ((readsAll file _).block hcs h.statements hvs hbody (by omega)).bind fun b hb => ?_
  exact .pure ⟨hb, rfl, rfl⟩

end Document

/-- A well-formed program has a document exactly when its values and tests are encodable.  If all
that is written as an expression is read back, then whatever holds the document is read as a
program with the same statements, target and declarations.  Declarations by themselves are read
back likewise. -/
theorem content_reads_back (p : Program) (h : p.WellFormed) :
    ((∃ c, p.content = .ok c) ↔ ∀ v ∈ Stmt.blockValues p.body, v.Encodable) ∧
    (∀ c, p.content = .ok c →
      (∀ v ∈ Stmt.blockValues p.body, ∀ u, Value.Reached v u → u.ReadsBack) →
      ∀ file n, Holds c n → ∃ q, ((Document.ofNode file none n).run.run 0).1 = .ok q ∧
        Stmt.sameBlock q.body p.body ∧ q.target = p.target ∧ q.builtins = p.builtins ∧
        ∀ src, Document.root file src = .ok (some n) → parse file src = .ok q) ∧
    (∀ ds : List Decl, (∀ d ∈ ds, d.type.Canonical) → ∀ file n, Holds (declsContent ds) n →
      Document.decls file n = .ok ds ∧
      ∀ src, Document.root file src = .ok (some n) → parseBuiltins file src = .ok ds) := by
  refine ⟨content_okIff h.statements, ?_, ?_⟩
  · intro c hc hread file n hn
    obtain ⟨q, k, hq, hbody, htarget, hbuiltins⟩ := Document.reads_ofNode h hread hc hn 0
    refine ⟨q, congrArg Prod.fst hq, hbody, htarget, hbuiltins, ?_⟩
    intro src hroot
    simp only [parse, parseUntil, hroot, bind, Except.bind, hq]
  · intro ds hds file n hn
    have hdecls := Document.decls_of_holds hn hds file
    refine ⟨hdecls, ?_⟩
    intro src hroot
    simp only [parseBuiltins, hroot, bind, Except.bind, hdecls]

/-- A list that holds an aggregate, and a conditional with an empty final branch. -/
def nestedProgram : Program where
  name := "job"
  target := ⟨.es5, "job.js"⟩
  builtins := [⟨"ready", .bool⟩, ⟨"log", .function [.custom "Job"] (some .null)⟩]
  body := [
    .declare .none "jobs" (some (.array (some (.custom "Job"))))
      (.list .none [.custom .none (some (.custom "Job")) [("left", .int .none (-5))]]),
    .branch .none (.name .none "ready") [] [] (some [])]

theorem content_reads_back_nested : nestedProgram.WellFormed ∧
    ∃ c q, nestedProgram.content = .ok c ∧ Holds c c.node ∧
      ((Document.ofNode "job" none c.node).run.run 0).1 = .ok q ∧
      Stmt.sameBlock q.body nestedProgram.body ∧ q.target = nestedProgram.target ∧
      q.builtins = nestedProgram.builtins := by
  have hjob : (Ty.custom "Job").Canonical := by
    have hname : Ty.IsName "Job".toList := ⟨by decide, by decide⟩
    exact ⟨hname, by decide⟩
  have hint : (Value.int .none (-5)).Expressible := by
    show (-5 : Int64) ≠ Int64.minValue
    decide
  have hready : (Value.name .none "ready").Expressible := by
    have hplain : Value.IsPlain "ready" := ⟨by decide, by decide, by decide⟩
    exact hplain
  -- Only the number in the aggregate and the test are written as expressions.
  have hreached : ∀ v ∈ Stmt.blockValues nestedProgram.body, ∀ u, Value.Reached v u →
      u.ReadsBack ∧ u.Typed := by
    have hfield := hint.readsBack (by decide)
    intro v hv u hu
    rcases hv with _ | ⟨_, _ | ⟨_, ⟨⟩⟩⟩
    · rcases hu with _ | ⟨_, ⟨⟩ | ⟨_, ⟨⟩⟩, _ | _ | ⟨⟨⟩ | ⟨_, ⟨⟩⟩, ⟨⟩⟩⟩
      · exact ⟨nofun, trivial⟩
      · exact ⟨nofun, hjob⟩
      · exact ⟨hfield, trivial⟩
    · cases hu
      exact ⟨hready.readsBack (by decide), trivial⟩
  have hformed : nestedProgram.WellFormed := by
    refine ⟨by decide, ?_, ⟨hjob, ⟨trivial, trivial, trivial⟩, trivial⟩, ?_⟩
    · rintro d (_ | ⟨_, _ | ⟨_, ⟨⟩⟩⟩)
      · trivial
      · exact ⟨⟨hjob, trivial⟩, trivial⟩
    · intro v hv u hu
      exact (hreached v hv u hu).2
  have hencodable : ∀ v ∈ Stmt.blockValues nestedProgram.body, v.Encodable := by
    rintro v (_ | ⟨_, _ | ⟨_, ⟨⟩⟩⟩)
    · refine .list ?_
      rintro v (_ | ⟨_, ⟨⟩⟩)
      refine .custom ?_
      rintro f (_ | ⟨_, ⟨⟩⟩)
      exact .expression rfl
    · exact .expression rfl
  obtain ⟨hexists, hreads, _⟩ := content_reads_back nestedProgram hformed
  obtain ⟨c, hc⟩ := hexists.mpr hencodable
  have hread := fun v hv u hu => (hreached v hv u hu).1
  obtain ⟨q, hq, hbody, htarget, hbuiltins, _⟩ := hreads c hc hread "job" c.node (holds_node c)
  exact ⟨hformed, c, q, hc, holds_node c, hq, hbody, htarget, hbuiltins⟩

end Lowlang.Program
