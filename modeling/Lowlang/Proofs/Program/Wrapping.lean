import Lowlang.Proofs.Program.Reports
import Lowlang.Proofs.Script.Positions
import Lowlang.Proofs.Yaml.Wrapping

set_option autoImplicit false

/-!
# Tags and anchors

Tags and anchors mean nothing in a program document.  Main statement: a tree and the same tree with
tags and anchors around any of its values and of its keys that are scalars are read alike, that is as
programs that differ at most in positions, or with faults that do.

Both trees are read side by side.  They have different sizes, so each side has a number of steps of
its own, and all that is asked of both is to exceed the size of the tree.
-/

namespace Lowlang.Program.Document

open Lowlang.Yaml
open Lowlang.Yaml.Node (Wrapped Within AllWithin EntryWithin)
open Stateful (Pairs Matches)
open Script (Corresponds)

variable {file : String} {n n' : Node}

/-! ## Single nodes -/

theorem refuse_pairs {α β : Type} {R : α → β → Prop} (m m' : Node) (reason : String) :
    Pairs Fault.Similar R (refuse file m reason) (refuse file m' reason) :=
  rfl

theorem entries_pairs (file : String) (h : Wrapped n n') :
    Pairs Fault.Similar (List.Forall₂ (EntryWithin n.size n'.size)) (entries file n)
      (entries file n') := by
  cases h.forms with
  | mapping hbare hbare' hes =>
    rw [entries_of_mapping hbare, entries_of_mapping hbare']
    exact Node.entries_within hes
  | sequence hbare hbare' _ =>
    unfold entries
    rw [hbare, hbare']
    exact refuse_pairs n n' _
  | leaf hbare hbare' _ hnull =>
    rw [entries_of_ne hbare.1, entries_of_ne hbare'.1, hnull]
    split
    · exact .nil
    · exact refuse_pairs n n' _

theorem items_pairs (file : String) (h : Wrapped n n') :
    Pairs Fault.Similar (AllWithin n.size n'.size) (items file n) (items file n') := by
  cases h.forms with
  | mapping hbare hbare' _ =>
    unfold items
    rw [hbare, hbare']
    exact refuse_pairs n n' _
  | sequence hbare hbare' his =>
    rw [items_of_sequence hbare, items_of_sequence hbare']
    exact Node.items_within his
  | leaf hbare hbare' _ hnull =>
    rw [items_of_ne hbare.2, items_of_ne hbare'.2, hnull]
    split
    · exact ⟨.nil, n.size_pos, n'.size_pos⟩
    · exact refuse_pairs n n' _

theorem scalar_corresponds (file : String) (h : Wrapped n n') :
    Corresponds (scalar file n) (scalar file n') := by
  unfold scalar
  rw [h.scalarText?_eq, h.isNull_eq]
  split
  · split
    · exact refuse_pairs n n' _
    · rfl
  · exact refuse_pairs n n' _

theorem type_corresponds (file : String) (h : Wrapped n n') :
    Corresponds (type file n) (type file n') := by
  refine (scalar_corresponds file h).bind fun t => ?_
  split <;> rfl

/-! ## Fields -/

/-- Fields of a node and of the node wrapped: the same keys in the same order, with values that are
wrapped. -/
structure FieldsPair (file : String) (n n' : Node) (f f' : Fields) : Prop where
  inFile : f.file = file
  inFile' : f'.file = file
  present : List.Forall₂ (fun e e' => e.1 = e'.1 ∧ Within n.size n'.size e.2 e'.2)
    f.present f'.present

theorem lookup_rel {R : Node → Node → Prop} {es es' : List (String × Node)}
    (h : List.Forall₂ (fun e e' => e.1 = e'.1 ∧ R e.2 e'.2) es es') (key : String) :
    Option.Rel R (es.lookup key) (es'.lookup key) := by
  induction h with
  | nil => exact .none
  | @cons e e' es es' he _ ih =>
    obtain ⟨k, v⟩ := e
    obtain ⟨k', v'⟩ := e'
    obtain ⟨rfl, hv⟩ := he
    rw [List.lookup_cons, List.lookup_cons]
    dsimp only
    cases key == k with
    | true => exact .some hv
    | false => exact ih

theorem collect_pairs {b b' : Nat} (allowed : List String) {found found' : List (String × Node)}
    (hfound : List.Forall₂ (fun e e' => e.1 = e'.1 ∧ Within b b' e.2 e'.2) found found')
    {es es' : List (Node × Node)} (h : List.Forall₂ (EntryWithin b b') es es') :
    Pairs Fault.Similar (List.Forall₂ fun e e' => e.1 = e'.1 ∧ Within b b' e.2 e'.2)
      (collect file allowed found es) (collect file allowed found' es') := by
  induction h generalizing found found' with
  | nil => exact hfound
  | @cons e e' es es' he _ ih =>
    obtain ⟨k, v⟩ := e
    obtain ⟨k', v'⟩ := e'
    obtain ⟨hkey, hv⟩ := he
    have hdouble := lookup_rel hfound k'.keyText
    unfold collect
    dsimp only at hkey ⊢
    rw [hkey]
    split
    · exact refuse_pairs k k' _
    · generalize found.lookup k'.keyText = o, found'.lookup k'.keyText = o' at hdouble ⊢
      cases hdouble with
      | some _ => exact refuse_pairs k k' _
      | none => exact ih (List.rel_append hfound (.cons ⟨rfl, hv⟩ .nil))

theorem fields_pairs (file : String) (h : Wrapped n n') (allowed : List String) :
    Pairs Fault.Similar (FieldsPair file n n') (fields file n allowed) (fields file n' allowed) :=
  (entries_pairs file h).bind fun _ _ hes =>
    (collect_pairs allowed .nil hes).bind fun _ _ hfound => ⟨rfl, rfl, hfound⟩

namespace FieldsPair

variable {f f' : Fields}

theorem get? (h : FieldsPair file n n' f f') (key : String) :
    Option.Rel (Within n.size n'.size) (f.get? key) (f'.get? key) :=
  lookup_rel h.present key

theorem given? (h : FieldsPair file n n' f f') (key : String) :
    Option.Rel (Within n.size n'.size) (f.given? key) (f'.given? key) := by
  have hget := h.get? key
  unfold Fields.given?
  generalize f.get? key = o, f'.get? key = o' at hget ⊢
  cases hget with
  | none => exact .none
  | some hv =>
    dsimp only
    rw [hv.wrapped.isNull_eq]
    split
    · exact .none
    · exact .some hv

theorem require (h : FieldsPair file n n' f f') (key : String) :
    Pairs Fault.Similar (Within n.size n'.size) (f.require key) (f'.require key) := by
  have hget := h.get? key
  unfold Fields.require
  generalize f.get? key = o, f'.get? key = o' at hget ⊢
  rw [h.inFile, h.inFile']
  cases hget with
  | none => exact refuse_pairs f.node f'.node _
  | some hv =>
    dsimp only
    rw [hv.wrapped.isNull_eq]
    split
    · exact refuse_pairs f.node f'.node _
    · exact hv

theorem name (h : FieldsPair file n n' f f') : Corresponds f.name f'.name := by
  refine (h.require "name").bind fun v v' hv => ?_
  rw [h.inFile, h.inFile']
  exact scalar_corresponds file hv.wrapped

theorem typed (h : FieldsPair file n n' f f') : Corresponds f.typed f'.typed := by
  refine (h.require "type").bind fun v v' hv => ?_
  rw [h.inFile, h.inFile']
  exact type_corresponds file hv.wrapped

end FieldsPair

/-! ## Parts of a program -/

theorem FieldsPair.output {f f' : Fields} (hf : FieldsPair file n n' f f')
    (version : Script.Version) :
    Corresponds
      (match f.given? "file" with
        | some v => do
          let out ← scalar file v
          .ok (Target.mk version out)
        | none => do
          let out ← .ok ""
          .ok (Target.mk version out))
      (match f'.given? "file" with
        | some v => do
          let out ← scalar file v
          .ok (Target.mk version out)
        | none => do
          let out ← .ok ""
          .ok (Target.mk version out)) := by
  have hgiven := hf.given? "file"
  generalize f.given? "file" = o, f'.given? "file" = o' at hgiven ⊢
  cases hgiven with
  | none => exact rfl
  | some hv => exact (scalar_corresponds file hv.wrapped).map _

theorem target_corresponds (file : String) (h : Wrapped n n') :
    Corresponds (target file n) (target file n') := by
  refine (fields_pairs file h _).bind fun f f' hf => ?_
  have hget := hf.get? "version"
  dsimp only
  generalize f.get? "version" = o, f'.get? "version" = o' at hget ⊢
  cases hget with
  | none => exact hf.output _
  | some hv =>
    refine (scalar_corresponds file hv.wrapped).bind fun t => ?_
    split
    · exact hf.output _
    · exact rfl

theorem decls_corresponds (file : String) (h : Wrapped n n') :
    Corresponds (decls file n) (decls file n') := by
  refine (entries_pairs file h).bind fun es es' hes => ?_
  refine Pairs.mono (Pairs.mapM (Q := Eq) hes fun e e' he => ?_) fun ds ds' hds => ?_
  · rw [he.1]
    exact (type_corresponds file he.2.wrapped).map _
  · rwa [List.forall₂_eq_eq_eq] at hds

theorem param_corresponds (file : String) (h : Wrapped n n') :
    Corresponds (param file n) (param file n') :=
  (fields_pairs file h _).bind fun _ _ hf => hf.name.bind fun _ => hf.typed.map _

theorem FieldsPair.params {f f' : Fields} (hf : FieldsPair file n n' f f') :
    Corresponds
      (match f.get? "params" with
        | some pn => do
          let is ← items file pn
          is.mapM (param file)
        | none => .ok [])
      (match f'.get? "params" with
        | some pn => do
          let is ← items file pn
          is.mapM (param file)
        | none => .ok []) := by
  have hget := hf.get? "params"
  generalize f.get? "params" = o, f'.get? "params" = o' at hget ⊢
  cases hget with
  | none => exact rfl
  | some hv =>
    refine (items_pairs file hv.wrapped).bind fun is is' his => ?_
    refine Pairs.mono (Pairs.mapM (Q := Eq) his.wrapped fun i i' hi => ?_) fun ps ps' hps => ?_
    · exact param_corresponds file hi
    · rwa [List.forall₂_eq_eq_eq] at hps

theorem FieldsPair.returns {f f' : Fields} (hf : FieldsPair file n n' f f') :
    Corresponds
      (match f.given? "returns" with
        | some rn => type file rn
        | none => .ok .null)
      (match f'.given? "returns" with
        | some rn => type file rn
        | none => .ok .null) := by
  have hgiven := hf.given? "returns"
  generalize f.given? "returns" = o, f'.given? "returns" = o' at hgiven ⊢
  cases hgiven with
  | none => exact rfl
  | some hv => exact type_corresponds file hv.wrapped

/-! ## Values -/

/-- The values differ at most in positions. -/
def SameValue (v w : Value) : Prop :=
  v.moved .none = w.moved .none

theorem movedAll_of_same {vs ws : List Value} (h : List.Forall₂ SameValue vs ws) :
    Value.movedAll .none vs = Value.movedAll .none ws := by
  induction h with
  | nil => rfl
  | cons hv _ ih => rw [Value.movedAll, Value.movedAll, hv, ih]

theorem movedFields_of_same {fs gs : List (String × Value)}
    (h : List.Forall₂ (fun a b => a.1 = b.1 ∧ SameValue a.2 b.2) fs gs) :
    Value.movedFields .none fs = Value.movedFields .none gs := by
  induction h with
  | nil => rfl
  | @cons a b _ _ hv _ ih =>
    obtain ⟨k, v⟩ := a
    obtain ⟨k', w⟩ := b
    obtain ⟨rfl, hv⟩ := hv
    rw [Value.movedFields, Value.movedFields, hv, ih]

theorem sameValue_moved (p : Pos) (v : Value) : SameValue (v.moved p) v := by
  refine (Value.same_iff (v.moved p) v).mp ?_
  rw [Value.same_moved]
  exact (Value.same_iff v v).mpr rfl

/-- An expression is read alike wherever it stands. -/
theorem expression_pairs (file : String) (h : Wrapped n n') :
    Pairs Fault.Similar SameValue
      (do
        let t ← scalar file n
        match Value.parseAt (posOf file n) t with
        | .ok v => .ok v
        | .error f => blame file n "invalid expression" f)
      (do
        let t ← scalar file n'
        match Value.parseAt (posOf file n') t with
        | .ok v => .ok v
        | .error f => blame file n' "invalid expression" f) := by
  refine Pairs.bind (scalar_corresponds file h) ?_
  rintro t _ rfl
  rw [Value.parseAt_eq (posOf file n), Value.parseAt_eq (posOf file n')]
  cases Value.parse t with
  | error f => exact rfl
  | ok v => exact (sameValue_moved _ v).trans (sameValue_moved _ v).symm

theorem value_pairs (file : String) (fuel fuel' : Nat) {n n' : Node} (h : Within fuel fuel' n n') :
    Pairs Fault.Similar SameValue (value file fuel n) (value file fuel' n') := by
  induction fuel generalizing fuel' n n' with
  | zero => exact absurd h.small (Nat.not_lt_zero _)
  | succ fuel ih =>
    cases fuel' with
    | zero => exact absurd h.small' (Nat.not_lt_zero _)
    | succ fuel' =>
      have hsmall := h.small
      have hsmall' := h.small'
      unfold value
      cases h.wrapped.forms with
      | sequence hbare hbare' his =>
        have hwithin := (Node.items_within his).each
        rw [Node.items_of_sequence hbare, Node.items_of_sequence hbare'] at hwithin
        rw [hbare, hbare']
        refine Pairs.bind (Pairs.mapM hwithin fun i i' hi => ih _ (hi.mono ?_ ?_))
          fun vs ws hvs => ?_
        · omega
        · omega
        · exact congrArg (Value.list .none) (movedAll_of_same hvs)
      | mapping hbare hbare' _ =>
        rw [hbare, hbare']
        refine (fields_pairs file h.wrapped _).bind fun f f' hf => ?_
        refine (hf.require "custom").bind fun tn tn' htn => ?_
        refine Pairs.bind (type_corresponds file htn.wrapped) ?_
        rintro t _ rfl
        have hget := hf.get? "fields"
        dsimp only
        generalize f.get? "fields" = o, f'.get? "fields" = o' at hget ⊢
        cases hget with
        | none => exact rfl
        | some hfn =>
          refine Pairs.bind (entries_pairs file hfn.wrapped) fun es es' hes => ?_
          refine Pairs.bind (Pairs.mapM (Q := fun a b => a.1 = b.1 ∧ SameValue a.2 b.2) hes
            fun e e' he => ?_) fun fs gs hfs => ?_
          · have hinner := hfn.small
            have hinner' := hfn.small'
            refine Pairs.bind (ih _ (he.2.mono ?_ ?_)) fun v w hv => ⟨he.1, hv⟩
            · omega
            · omega
          · exact congrArg (Value.custom .none (some t)) (movedFields_of_same hfs)
      | leaf hbare hbare' _ _ =>
        split
        · next h => exact absurd h (hbare.2 _ _)
        · next h => exact absurd h (hbare.1 _ _)
        · split
          · next h => exact absurd h (hbare'.2 _ _)
          · next h => exact absurd h (hbare'.1 _ _)
          · exact expression_pairs file h.wrapped

/-- The values of declarations and of assignments are read alike. -/
theorem FieldsPair.assigned {f f' : Fields} (hf : FieldsPair file n n' f f') {fuel fuel' : Nat}
    (hn : n.size ≤ fuel) (hn' : n'.size ≤ fuel') {α β : Type} {R : α → β → Prop}
    {k : Value → Except Fault α} {k' : Value → Except Fault β}
    (hk : ∀ v w, SameValue v w → Pairs Fault.Similar R (k v) (k' w)) :
    Pairs Fault.Similar R
      (do
        let vn ← f.require "value"
        let v ← value file fuel vn
        k v)
      (do
        let vn ← f'.require "value"
        let v ← value file fuel' vn
        k' v) :=
  (hf.require "value").bind fun _ _ hvn => (value_pairs file _ _ (hvn.mono hn hn')).bind hk

/-! ## Statements -/

/-- Reading both asks about as many statements, and comes to results that are related, or to faults
that differ at most in positions. -/
abbrev Alike {α β : Type} (R : α → β → Prop) (w : Counting α) (w' : Counting β) : Prop :=
  Matches Eq Fault.Similar R w w'

theorem alike_plainly {α β : Type} {R : α → β → Prop} {e : Except Fault α} {e' : Except Fault β}
    (h : Pairs Fault.Similar R e e') : Alike R (plainly e) (plainly e') := by
  cases e with
  | error f =>
    cases e' with
    | error g => exact .stop h
    | ok b => exact absurd h id
  | ok a =>
    cases e' with
    | error g => exact absurd h id
    | ok b => exact .ret h

theorem alike_step {α β γ δ : Type} {R : α → β → Prop} {Q : γ → δ → Prop} {e : Except Fault α}
    {e' : Except Fault β} {k : α → Counting γ} {k' : β → Counting δ}
    (h : Pairs Fault.Similar R e e') (hk : ∀ a b, R a b → Alike Q (k a) (k' b)) :
    Alike Q (plainly e >>= k) (plainly e' >>= k') :=
  (alike_plainly h).bind hk

theorem alike_ask (interrupt : Option Interrupt) : Alike Eq (ask interrupt) (ask interrupt) := by
  rintro p _ rfl
  refine ⟨?_, rfl⟩
  cases ((ask interrupt).run.run p).1 with
  | error f => exact rfl
  | ok a => exact rfl

/-- The statements differ at most in positions. -/
def SameStmt (s t : Stmt) : Prop :=
  s.moved .none = t.moved .none

def SameBlock (b c : Block) : Prop :=
  Stmt.movedBlock .none b = Stmt.movedBlock .none c

def SameBranch (b c : Value × Block) : Prop :=
  SameValue b.1 c.1 ∧ SameBlock b.2 c.2

def SameElifs (es fs : List (Value × Block)) : Prop :=
  Stmt.movedElifs .none es = Stmt.movedElifs .none fs

def SameOtherwise (o q : Option Block) : Prop :=
  Stmt.movedOtherwise .none o = Stmt.movedOtherwise .none q

theorem sameStmt_branch {p q : Pos} {b c : Value × Block} {es fs : List (Value × Block)}
    {o r : Option Block} (hb : SameBranch b c) (hes : SameElifs es fs) (ho : SameOtherwise o r) :
    SameStmt (.branch p b.1 b.2 es o) (.branch q c.1 c.2 fs r) := by
  obtain ⟨htest, hbody⟩ := hb
  unfold SameValue SameBlock SameElifs SameOtherwise at *
  rw [SameStmt, Stmt.moved, Stmt.moved, htest, hbody, hes, ho]

section

variable (file : String) (interrupt : Option Interrupt) (fuel fuel' : Nat)

def AlikeBlocks : Prop :=
  ∀ n n' : Node, Within fuel fuel' n n' →
    Alike SameBlock (block file interrupt fuel n) (block file interrupt fuel' n')

def AlikeStatements : Prop :=
  ∀ is is' : List Node, AllWithin fuel fuel' is is' →
    Alike SameBlock (statements file interrupt fuel is) (statements file interrupt fuel' is')

def AlikeStatement : Prop :=
  ∀ n n' : Node, Within fuel fuel' n n' →
    Alike SameStmt (statement file interrupt fuel n) (statement file interrupt fuel' n')

def AlikeBranch : Prop :=
  ∀ (n n' : Node) (f f' : Fields), FieldsPair file n n' f f' → n.size < fuel → n'.size < fuel' →
    Alike SameBranch (branch file interrupt fuel f) (branch file interrupt fuel' f')

def AlikeBranches : Prop :=
  ∀ is is' : List Node, AllWithin fuel fuel' is is' →
    Alike SameElifs (branches file interrupt fuel is) (branches file interrupt fuel' is')

end

variable {interrupt : Option Interrupt} {fuel fuel' : Nat}

theorem AlikeStatements.block (h : AlikeStatements file interrupt fuel fuel') :
    AlikeBlocks file interrupt (fuel + 1) (fuel' + 1) := by
  intro n n' hn
  have hsmall := hn.small
  have hsmall' := hn.small'
  unfold Document.block
  exact alike_step (items_pairs file hn.wrapped) fun is is' his =>
    h is is' (his.mono (by omega) (by omega))

theorem AlikeStatements.succ (h : AlikeStatements file interrupt fuel fuel')
    (hstatement : AlikeStatement file interrupt fuel fuel') :
    AlikeStatements file interrupt (fuel + 1) (fuel' + 1) := by
  intro is is' his
  obtain ⟨hwrapped, hsmall, hsmall'⟩ := his
  cases hwrapped with
  | nil =>
    unfold statements
    exact .ret rfl
  | @cons n n' rest rest' hn hrest =>
    rw [Node.size.sizeItems] at hsmall hsmall'
    unfold statements
    refine (alike_ask interrupt).bind fun _ _ _ => ?_
    refine (hstatement n n' ⟨hn, by omega, by omega⟩).bind fun s t hs => ?_
    refine (h rest rest' ⟨hrest, by omega, by omega⟩).bind fun ss ts hss => .ret ?_
    exact (congrArg₂ List.cons hs hss :)

/-- A body under a key is read alike, and so is a body that is not there. -/
theorem AlikeBlocks.under (h : AlikeBlocks file interrupt fuel fuel') {f f' : Fields}
    (hf : FieldsPair file n n' f f') (hn : n.size ≤ fuel) (hn' : n'.size ≤ fuel') (key : String)
    {α : Type} {R : α → α → Prop} {k k' : Block → Counting α}
    (hk : ∀ b c, SameBlock b c → Alike R (k b) (k' c)) :
    Alike R
      (match f.get? key with
        | some bn => do
          let b ← block file interrupt fuel bn
          k b
        | none => do
          let b ← pure []
          k b)
      (match f'.get? key with
        | some bn => do
          let b ← block file interrupt fuel' bn
          k' b
        | none => do
          let b ← pure []
          k' b) := by
  have hget := hf.get? key
  generalize f.get? key = o, f'.get? key = o' at hget ⊢
  cases hget with
  | none => exact hk [] [] rfl
  | some hv => exact (h _ _ (hv.mono hn hn')).bind hk

theorem AlikeBlocks.branch (h : AlikeBlocks file interrupt fuel fuel') :
    AlikeBranch file interrupt (fuel + 1) (fuel' + 1) := by
  intro n n' f f' hf hn hn'
  unfold Document.branch
  refine alike_step (hf.require "cond") fun cn cn' hcn => ?_
  refine alike_step (value_pairs file _ _ (hcn.mono (by omega) (by omega))) fun v w hv => ?_
  exact h.under hf (by omega) (by omega) "then" fun b c hb => .ret ⟨hv, hb⟩

theorem AlikeBranches.succ (h : AlikeBranches file interrupt fuel fuel')
    (hbranch : AlikeBranch file interrupt fuel fuel') :
    AlikeBranches file interrupt (fuel + 1) (fuel' + 1) := by
  intro is is' his
  obtain ⟨hwrapped, hsmall, hsmall'⟩ := his
  cases hwrapped with
  | nil =>
    unfold branches
    exact .ret rfl
  | @cons n n' rest rest' hn hrest =>
    rw [Node.size.sizeItems] at hsmall hsmall'
    unfold branches
    refine alike_step (fields_pairs file hn _) fun f f' hf => ?_
    refine (hbranch n n' f f' hf (by omega) (by omega)).bind fun b c hb => ?_
    obtain ⟨v, body⟩ := b
    obtain ⟨w, body'⟩ := c
    refine (h rest rest' ⟨hrest, by omega, by omega⟩).bind fun bs cs hbs => .ret ?_
    exact (congrArg₂ List.cons (congrArg₂ Prod.mk hb.1 hb.2) hbs :)

/-- Further tests are read alike. -/
theorem AlikeBranches.elifs (h : AlikeBranches file interrupt fuel fuel') {f f' : Fields}
    (hf : FieldsPair file n n' f f') (hn : n.size ≤ fuel) (hn' : n'.size ≤ fuel') {α : Type}
    {R : α → α → Prop} {k k' : List (Value × Block) → Counting α}
    (hk : ∀ bs cs, SameElifs bs cs → Alike R (k bs) (k' cs)) :
    Alike R
      (match f.get? "elif" with
        | some en => do
          let is ← plainly (items file en)
          let bs ← branches file interrupt fuel is
          k bs
        | none => do
          let bs ← pure []
          k bs)
      (match f'.get? "elif" with
        | some en => do
          let is ← plainly (items file en)
          let bs ← branches file interrupt fuel' is
          k' bs
        | none => do
          let bs ← pure []
          k' bs) := by
  have hget := hf.get? "elif"
  generalize f.get? "elif" = o, f'.get? "elif" = o' at hget ⊢
  cases hget with
  | none => exact hk [] [] rfl
  | some hv =>
    have hsmall := hv.small
    have hsmall' := hv.small'
    refine alike_step (items_pairs file hv.wrapped) fun is is' his => ?_
    exact (h is is' (his.mono (by omega) (by omega))).bind hk

/-- A final branch is read alike. -/
theorem AlikeBlocks.otherwise (h : AlikeBlocks file interrupt fuel fuel') {f f' : Fields}
    (hf : FieldsPair file n n' f f') (hn : n.size ≤ fuel) (hn' : n'.size ≤ fuel') {α : Type}
    {R : α → α → Prop} {k k' : Option Block → Counting α}
    (hk : ∀ o q, SameOtherwise o q → Alike R (k o) (k' q)) :
    Alike R
      (match f.get? "else" with
        | some en => do
          let b ← block file interrupt fuel en
          let o ← pure (some b)
          k o
        | none => do
          let o ← pure none
          k o)
      (match f'.get? "else" with
        | some en => do
          let b ← block file interrupt fuel' en
          let o ← pure (some b)
          k' o
        | none => do
          let o ← pure none
          k' o) := by
  have hget := hf.get? "else"
  generalize f.get? "else" = o, f'.get? "else" = o' at hget ⊢
  cases hget with
  | none => exact hk none none rfl
  | some hv =>
    exact (h _ _ (hv.mono hn hn')).bind fun b c hb => hk (some b) (some c) (congrArg some hb)

/-- Where one side has a single field, the other has it too. -/
theorem FieldsPair.single {f f' : Fields} (hf : FieldsPair file n n' f f') {key : String} {v : Node}
    (h : f.present = [(key, v)]) :
    ∃ v', f'.present = [(key, v')] ∧ Within n.size n'.size v v' := by
  have hpresent := hf.present
  rw [h] at hpresent
  obtain ⟨⟨key', v'⟩, rest, ⟨hkey, hv⟩, hrest, heq⟩ := List.forall₂_cons_left_iff.mp hpresent
  cases hkey
  cases hrest
  exact ⟨v', heq, hv⟩

theorem FieldsPair.single' {f f' : Fields} (hf : FieldsPair file n n' f f') {key : String}
    {v' : Node} (h : f'.present = [(key, v')]) : ∃ v, f.present = [(key, v)] := by
  have hpresent := hf.present
  rw [h] at hpresent
  obtain ⟨⟨key', v⟩, rest, ⟨hkey, -⟩, hrest, heq⟩ := List.forall₂_cons_right_iff.mp hpresent
  cases hkey
  cases hrest
  exact ⟨v, heq⟩

theorem AlikeBlocks.statement (h : AlikeBlocks file interrupt fuel fuel')
    (hbranch : AlikeBranch file interrupt fuel fuel')
    (hbranches : AlikeBranches file interrupt fuel fuel') :
    AlikeStatement file interrupt (fuel + 1) (fuel' + 1) := by
  intro n n' hn
  have hsmall := hn.small
  have hsmall' := hn.small'
  unfold Document.statement
  refine alike_step (fields_pairs file hn.wrapped _) fun f f' hf => ?_
  dsimp only
  split
  · next v hpresent =>
    obtain ⟨v', hpresent', hv⟩ := hf.single hpresent
    rw [hpresent']
    refine alike_step (value_pairs file _ _ (hv.mono (by omega) (by omega))) fun v w hv => .ret ?_
    exact congrArg (Stmt.eval .none) hv
  · next m hpresent =>
    obtain ⟨m', hpresent', hm⟩ := hf.single hpresent
    have hinner := hm.small
    have hinner' := hm.small'
    rw [hpresent']
    refine alike_plainly ((fields_pairs file hm.wrapped _).bind fun g g' hg => ?_)
    refine Pairs.bind hg.name ?_
    rintro name _ rfl
    refine Pairs.bind hg.typed ?_
    rintro t _ rfl
    refine hg.assigned (by omega) (by omega) fun v w hv => ?_
    exact congrArg (Stmt.declare .none name (some t)) hv
  · next m hpresent =>
    obtain ⟨m', hpresent', hm⟩ := hf.single hpresent
    have hinner := hm.small
    have hinner' := hm.small'
    rw [hpresent']
    refine alike_plainly ((fields_pairs file hm.wrapped _).bind fun g g' hg => ?_)
    refine Pairs.bind hg.name ?_
    rintro name _ rfl
    refine hg.assigned (by omega) (by omega) fun v w hv => ?_
    exact congrArg (Stmt.assign .none name) hv
  · next m hpresent =>
    obtain ⟨m', hpresent', hm⟩ := hf.single hpresent
    have hinner := hm.small
    have hinner' := hm.small'
    rw [hpresent']
    refine alike_step (fields_pairs file hm.wrapped _) fun g g' hg => ?_
    refine alike_step hg.name ?_
    rintro name _ rfl
    refine alike_step hg.params ?_
    rintro params _ rfl
    refine alike_step hg.returns ?_
    rintro result _ rfl
    refine h.under hg (by omega) (by omega) "body" fun b c hb => .ret ?_
    exact congrArg (Stmt.function .none name params (some result)) hb
  · next m hpresent =>
    obtain ⟨m', hpresent', hm⟩ := hf.single hpresent
    have hinner := hm.small
    have hinner' := hm.small'
    rw [hpresent']
    refine alike_step (fields_pairs file hm.wrapped _) fun g g' hg => ?_
    refine (hbranch m m' g g' hg (by omega) (by omega)).bind fun (v, b) (w, c) hb => ?_
    refine hbranches.elifs hg (by omega) (by omega) fun es fs hes => ?_
    refine h.otherwise hg (by omega) (by omega) fun o q ho => .ret ?_
    exact sameStmt_branch hb hes ho
  · next hval hlet hset hfn hif =>
    split
    · next v' hpresent' => exact absurd (hf.single' hpresent').choose_spec (hval _)
    · next v' hpresent' => exact absurd (hf.single' hpresent').choose_spec (hlet _)
    · next v' hpresent' => exact absurd (hf.single' hpresent').choose_spec (hset _)
    · next v' hpresent' => exact absurd (hf.single' hpresent').choose_spec (hfn _)
    · next v' hpresent' => exact absurd (hf.single' hpresent').choose_spec (hif _)
    · exact alike_plainly (refuse_pairs n n' _)

/-- All that is read alike with so many steps. -/
structure AlikeAll (file : String) (interrupt : Option Interrupt) (fuel fuel' : Nat) : Prop where
  block : AlikeBlocks file interrupt fuel fuel'
  statements : AlikeStatements file interrupt fuel fuel'
  statement : AlikeStatement file interrupt fuel fuel'
  branch : AlikeBranch file interrupt fuel fuel'
  branches : AlikeBranches file interrupt fuel fuel'

/-- Without any steps on the left, there is nothing small enough to be read. -/
theorem AlikeAll.zero_left (file : String) (interrupt : Option Interrupt) (fuel' : Nat) :
    AlikeAll file interrupt 0 fuel' where
  block _ _ h := absurd h.small (Nat.not_lt_zero _)
  statements _ _ h := absurd h.small (Nat.not_lt_zero _)
  statement _ _ h := absurd h.small (Nat.not_lt_zero _)
  branch _ _ _ _ _ h _ := absurd h (Nat.not_lt_zero _)
  branches _ _ h := absurd h.small (Nat.not_lt_zero _)

theorem AlikeAll.zero_right (file : String) (interrupt : Option Interrupt) (fuel : Nat) :
    AlikeAll file interrupt fuel 0 where
  block _ _ h := absurd h.small' (Nat.not_lt_zero _)
  statements _ _ h := absurd h.small' (Nat.not_lt_zero _)
  statement _ _ h := absurd h.small' (Nat.not_lt_zero _)
  branch _ _ _ _ _ _ h := absurd h (Nat.not_lt_zero _)
  branches _ _ h := absurd h.small' (Nat.not_lt_zero _)

theorem alikeAll (file : String) (interrupt : Option Interrupt) (fuel fuel' : Nat) :
    AlikeAll file interrupt fuel fuel' := by
  induction fuel generalizing fuel' with
  | zero => exact .zero_left file interrupt fuel'
  | succ fuel ih =>
    cases fuel' with
    | zero => exact .zero_right file interrupt _
    | succ fuel' =>
      have hall := ih fuel'
      exact ⟨hall.statements.block, hall.statements.succ hall.statement,
        hall.block.statement hall.branch hall.branches, hall.block.branch,
        hall.branches.succ hall.branch⟩

/-! ## Main statement -/

/-- Programs with the same name, target and builtins, and with bodies that are the same. -/
structure SameProgram (p q : Program) : Prop where
  name : p.name = q.name
  target : p.target = q.target
  builtins : p.builtins = q.builtins
  body : Stmt.sameBlock p.body q.body

theorem ofNode_alike (name : String) (interrupt : Option Interrupt) (h : Wrapped n n') :
    Alike SameProgram (ofNode name interrupt n) (ofNode name interrupt n') := by
  refine alike_step (fields_pairs name h _) fun f f' hf => ?_
  refine alike_step (R := Eq) ?_ ?_
  · have hget := hf.get? "target"
    generalize f.get? "target" = o, f'.get? "target" = o' at hget ⊢
    cases hget with
    | none => exact rfl
    | some hv => exact target_corresponds name hv.wrapped
  rintro tgt _ rfl
  refine alike_step (R := Eq) ?_ ?_
  · have hget := hf.get? "builtins"
    generalize f.get? "builtins" = o, f'.get? "builtins" = o' at hget ⊢
    cases hget with
    | none => exact rfl
    | some hv => exact decls_corresponds name hv.wrapped
  rintro builtins _ rfl
  refine (alikeAll name interrupt _ _).block.under hf (by omega) (by omega) "body" fun b c hb => ?_
  exact .ret ⟨rfl, rfl, rfl, (Stmt.sameBlock_iff b c).mpr hb⟩

/-- Documents of one text and of the other, wrapped: both have none, or one that is not null. -/
theorem root_pairs (file : String) {src src' : String} {docs docs' : List Node}
    (hdocs : Node.documents src = some docs) (hdocs' : Node.documents src' = some docs')
    (h : List.Forall₂ Wrapped docs docs') :
    Pairs Fault.Similar (Option.Rel Wrapped) (root file src) (root file src') := by
  have hfilter : List.Forall₂ Wrapped (docs.filter fun n => !n.isNull)
      (docs'.filter fun n => !n.isNull) :=
    List.rel_filter (fun n n' hn => by dsimp only; rw [hn.isNull_eq]) h
  unfold root
  rw [hdocs, hdocs']
  dsimp only
  generalize (docs.filter fun n => !n.isNull) = ms, (docs'.filter fun n => !n.isNull) = ms'
    at hfilter ⊢
  cases hfilter with
  | nil => exact .none
  | cons hn hrest =>
    cases hrest with
    | nil => exact .some hn
    | @cons m m' _ _ _ _ => exact refuse_pairs m m' _

end Lowlang.Program.Document

namespace Lowlang.Program

open Document
open Lowlang.Yaml (Node)
open Lowlang.Yaml.Node (Wrapped)
open Stateful (Pairs)

/-- A tree and the tree wrapped are read alike, and so are texts of such trees: as programs with the
same target, builtins and body, or with faults that differ at most in positions. -/
theorem wrapping_transparent (interrupt : Option Interrupt) (name : String) :
    (∀ n n' : Node, Wrapped n n' → Pairs Fault.Similar SameProgram
      ((ofNode name interrupt n).run.run 0).1 ((ofNode name interrupt n').run.run 0).1) ∧
    (∀ (src src' : String) (docs docs' : List Node), Node.documents src = some docs →
      Node.documents src' = some docs' → List.Forall₂ Wrapped docs docs' →
      Pairs Fault.Similar SameProgram (parseUntil interrupt name src)
        (parseUntil interrupt name src')) := by
  refine ⟨fun n n' h => (ofNode_alike name interrupt h 0 0 rfl).1, ?_⟩
  intro src src' docs docs' hdocs hdocs' h
  refine (root_pairs name hdocs hdocs' h).bind fun r r' hr => ?_
  cases hr with
  | none => exact ⟨rfl, rfl, rfl, rfl⟩
  | some hn => exact (ofNode_alike name interrupt hn 0 0 rfl).1

/-- A sequence is read from a text, and with a tag and an anchor around it from another one. -/
theorem documents_around_sequence :
    (match Node.documents "[]", Node.documents "!t &a []" with
      | some [.sequence ⟨1, 1⟩ []],
        some [.tagged ⟨1, 1⟩ "!t" (.anchored ⟨1, 3⟩ "a" (.sequence ⟨1, 6⟩ []))] => true
      | _, _ => false) = true := by
  decide +kernel

/-- A key, a name and the null that leaves a result out are wrapped in a tree of a program, and a
sequence in a text that is no program. -/
theorem wrapping_transparent_nested :
    let p : Yaml.Place := ⟨1, 1⟩
    let text (s : String) : Node := .scalar p s (.text s)
    let program (name f result : Node) : Node := .mapping p [(text "body", .sequence p
      [.mapping p [(text "fn", .mapping p [(name, f), (text "returns", result)])]])]
    let n := program (text "name") (text "f") (.scalar p "null" .null)
    let n' := program (.anchored p "a" (text "name")) (.tagged p "!t" (text "f"))
      (.anchored p "b" (.scalar p "null" .null))
    let src := "[]"
    let src' := "!t &a []"
    (Wrapped n n' ∧ ((ofNode "p" none n).run.run 0).1.isOk = true ∧
      Pairs Fault.Similar SameProgram ((ofNode "p" none n).run.run 0).1
        ((ofNode "p" none n').run.run 0).1) ∧
    ∃ m m' : Node, Node.documents src = some [m] ∧ Node.documents src' = some [m'] ∧
      Wrapped m m' ∧ (parseUntil none "p" src).isOk = false ∧
      Pairs Fault.Similar SameProgram (parseUntil none "p" src) (parseUntil none "p" src') := by
  intro p text program n n' src src'
  obtain ⟨htrees, htexts⟩ := wrapping_transparent none "p"
  have htext : ∀ s, Node.Kept (text s) (text s) := fun s => .scalar p p s (.text s)
  have hfunction := Wrapped.kept (.mapping p p (.cons
    (.scalar rfl (.anchor p "a" (.kept (htext "name"))) (.tag p "!t" (.kept (htext "f"))))
    (.cons (.kept (htext "returns") (.anchor p "b" (.kept (.scalar p p "null" .null)))) .nil)))
  have hstatement := Wrapped.kept (.mapping p p (.cons (.kept (htext "fn") hfunction) .nil))
  have hbody := Wrapped.kept (.sequence p p (.cons hstatement .nil))
  have hroot : Wrapped n n' := .kept (.mapping p p (.cons (.kept (htext "body") hbody) .nil))
  refine ⟨⟨hroot, by decide +kernel, htrees n n' hroot⟩, ?_⟩
  obtain ⟨hdocs, hdocs'⟩ : Node.documents src = some [.sequence ⟨1, 1⟩ []] ∧
      Node.documents src' = some
        [.tagged ⟨1, 1⟩ "!t" (.anchored ⟨1, 3⟩ "a" (.sequence ⟨1, 6⟩ []))] := by
    have hread := documents_around_sequence
    split at hread
    · rename_i hdocs hdocs'
      exact ⟨hdocs, hdocs'⟩
    · cases hread
  have hwrapped := Wrapped.tag ⟨1, 1⟩ "!t"
    (.anchor ⟨1, 3⟩ "a" (.kept (.sequence ⟨1, 1⟩ ⟨1, 6⟩ .nil)))
  exact ⟨_, _, hdocs, hdocs', hwrapped, by decide +kernel,
    htexts src src' _ _ hdocs hdocs' (.cons hwrapped .nil)⟩

end Lowlang.Program
