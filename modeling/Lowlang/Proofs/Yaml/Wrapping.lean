import Lowlang.Proofs.Yaml.Parts
import Mathlib.Data.List.Forall2

set_option autoImplicit false

/-!
# Wrapped trees

A tree may have tags and anchors put around its values and around its keys that are scalars.  Behind
them the nodes are what they were: what they hold is wrapped in turn, and their texts, their keys and
whether they are null stay as they are.
-/

namespace Lowlang.Yaml.Node

mutual

/-- The second tree is the first with tags and anchors put around some of its values and of its keys
that are scalars.  Wherever its nodes stand does not matter. -/
inductive Wrapped : Node → Node → Prop
  | kept {n n' : Node} (h : Kept n n') : Wrapped n n'
  | tag (p : Place) (tag : String) {n n' : Node} (h : Wrapped n n') : Wrapped n (.tagged p tag n')
  | anchor (p : Place) (name : String) {n n' : Node} (h : Wrapped n n') :
    Wrapped n (.anchored p name n')

/-- Nothing is put around the node itself. -/
inductive Kept : Node → Node → Prop
  | scalar (p p' : Place) (written : String) (v : Scalar) :
    Kept (.scalar p written v) (.scalar p' written v)
  | alias (p p' : Place) (name : String) : Kept (.alias p name) (.alias p' name)
  | mergeKey (p p' : Place) : Kept (.mergeKey p) (.mergeKey p')
  | asked (p p' : Place) (shown : String) {k k' : Node} (h : Kept k k') :
    Kept (.asked p shown k) (.asked p' shown k')
  | mapping (p p' : Place) {es es' : List (Node × Node)} (h : List.Forall₂ WrappedEntry es es') :
    Kept (.mapping p es) (.mapping p' es')
  | sequence (p p' : Place) {is is' : List Node} (h : List.Forall₂ Wrapped is is') :
    Kept (.sequence p is) (.sequence p' is')
  | tagged (p p' : Place) (tag : String) {n n' : Node} (h : Wrapped n n') :
    Kept (.tagged p tag n) (.tagged p' tag n')
  | anchored (p p' : Place) (name : String) {n n' : Node} (h : Wrapped n n') :
    Kept (.anchored p name n) (.anchored p' name n')
  | directive (p p' : Place) : Kept (.directive p) (.directive p')

/-- The value is wrapped, and the key may be if it is a scalar. -/
inductive WrappedEntry : Node × Node → Node × Node → Prop
  | kept {k k' v v' : Node} (hk : Kept k k') (hv : Wrapped v v') : WrappedEntry (k, v) (k', v')
  | scalar {k k' v v' : Node} (hscalar : k.scalarText?.isSome) (hk : Wrapped k k')
    (hv : Wrapped v v') : WrappedEntry (k, v) (k', v')

end

/-- What two nodes are behind their tags and anchors: mappings or sequences whose parts are wrapped,
or neither, with the same text if any. -/
inductive Forms (n n' : Node) : Prop
  | mapping {p p' : Place} {es es' : List (Node × Node)} (hbare : n.bare = .mapping p es)
    (hbare' : n'.bare = .mapping p' es') (h : List.Forall₂ WrappedEntry n.entries n'.entries)
  | sequence {p p' : Place} {is is' : List Node} (hbare : n.bare = .sequence p is)
    (hbare' : n'.bare = .sequence p' is') (h : List.Forall₂ Wrapped n.items n'.items)
  | leaf (hbare : (∀ p es, n.bare ≠ .mapping p es) ∧ ∀ p is, n.bare ≠ .sequence p is)
    (hbare' : (∀ p es, n'.bare ≠ .mapping p es) ∧ ∀ p is, n'.bare ≠ .sequence p is)
    (htext : n.scalarText? = n'.scalarText?) (hnull : n.isNull = n'.isNull)

/-- Only what stands behind tags and anchors matters. -/
theorem Forms.of_bare {m m' n n' : Node} (h : Forms n n') (hm : m.bare = n.bare)
    (hm' : m'.bare = n'.bare) : Forms m m' := by
  cases h with
  | mapping hbare hbare' h =>
    refine .mapping (hm.trans hbare) (hm'.trans hbare') ?_
    unfold entries at h ⊢
    rwa [hm, hm']
  | sequence hbare hbare' h =>
    refine .sequence (hm.trans hbare) (hm'.trans hbare') ?_
    unfold items at h ⊢
    rwa [hm, hm']
  | leaf hbare hbare' htext hnull =>
    refine .leaf (by rwa [hm]) (by rwa [hm']) ?_ ?_
    · unfold scalarText? at htext ⊢
      rwa [hm, hm']
    · unfold isNull at hnull ⊢
      rwa [hm, hm']

mutual

theorem Wrapped.forms {n n' : Node} : Wrapped n n' → Forms n n'
  | .kept h => h.forms
  | .tag _ _ h | .anchor _ _ h => h.forms.of_bare rfl rfl

theorem Kept.forms {n n' : Node} : Kept n n' → Forms n n'
  | .mapping _ _ h => .mapping rfl rfl h
  | .sequence _ _ h => .sequence rfl rfl h
  | .tagged _ _ _ h | .anchored _ _ _ h => h.forms.of_bare rfl rfl
  | .scalar _ _ _ v => .leaf ⟨nofun, nofun⟩ ⟨nofun, nofun⟩ rfl (by cases v <;> rfl)
  | .alias _ _ _ | .mergeKey _ _ | .asked _ _ _ _ | .directive _ _ =>
    .leaf ⟨nofun, nofun⟩ ⟨nofun, nofun⟩ rfl rfl

end

variable {n n' : Node}

theorem Wrapped.scalarText?_eq (h : Wrapped n n') : n.scalarText? = n'.scalarText? := by
  cases h.forms with
  | mapping hbare hbare' _ | sequence hbare hbare' _ =>
    unfold scalarText?
    rw [hbare, hbare']
  | leaf _ _ htext _ => exact htext

theorem Wrapped.isNull_eq (h : Wrapped n n') : n.isNull = n'.isNull := by
  cases h.forms with
  | mapping hbare hbare' _ | sequence hbare hbare' _ =>
    unfold isNull
    rw [hbare, hbare']
  | leaf _ _ _ hnull => exact hnull

theorem Kept.keyText_eq (h : Kept n n') : n.keyText = n'.keyText := by
  unfold keyText
  rw [(Wrapped.kept h).scalarText?_eq]
  cases h <;> rfl

theorem keyText_of_scalarText? {t : String} (h : n.scalarText? = some t) : n.keyText = t := by
  unfold keyText
  rw [h]

theorem WrappedEntry.keyText_eq {e e' : Node × Node} (h : WrappedEntry e e') :
    e.1.keyText = e'.1.keyText := by
  cases h with
  | kept hk _ => exact hk.keyText_eq
  | @scalar k k' _ _ hscalar hk _ =>
    obtain ⟨t, ht⟩ := Option.isSome_iff_exists.mp hscalar
    have ht' := hk.scalarText?_eq ▸ ht
    exact (keyText_of_scalarText? ht).trans (keyText_of_scalarText? ht').symm

theorem WrappedEntry.value {e e' : Node × Node} (h : WrappedEntry e e') : Wrapped e.2 e'.2 := by
  cases h with
  | kept _ hv => exact hv
  | scalar _ _ hv => exact hv

/-! ## Sizes -/

/-- Members at the same places of two lists are related by whatever follows from their relation for
members. -/
theorem forall₂_of_mem {α β : Type} {R S : α → β → Prop} {as : List α} {bs : List β}
    (h : List.Forall₂ R as bs) (hS : ∀ a ∈ as, ∀ b ∈ bs, R a b → S a b) :
    List.Forall₂ S as bs := by
  induction h with
  | nil => exact .nil
  | cons hab _ ih =>
    refine .cons (hS _ List.mem_cons_self _ List.mem_cons_self hab) (ih fun a ha b hb => ?_)
    exact hS a (List.mem_cons_of_mem _ ha) b (List.mem_cons_of_mem _ hb)

/-- The second node is the first, wrapped, and both are smaller than the bounds. -/
structure Within (b b' : Nat) (n n' : Node) : Prop where
  wrapped : Wrapped n n'
  small : n.size < b
  small' : n'.size < b'

theorem Within.mono {b b' c c' : Nat} (h : Within b b' n n') (hb : b ≤ c) (hb' : b' ≤ c') :
    Within c c' n n' :=
  ⟨h.wrapped, Nat.lt_of_lt_of_le h.small hb, Nat.lt_of_lt_of_le h.small' hb'⟩

/-- The items of the second list are those of the first, wrapped, and both lists are smaller than the
bounds. -/
structure AllWithin (b b' : Nat) (is is' : List Node) : Prop where
  wrapped : List.Forall₂ Wrapped is is'
  small : size.sizeItems is < b
  small' : size.sizeItems is' < b'

theorem AllWithin.mono {b b' c c' : Nat} {is is' : List Node} (h : AllWithin b b' is is')
    (hb : b ≤ c) (hb' : b' ≤ c') : AllWithin c c' is is' :=
  ⟨h.wrapped, Nat.lt_of_lt_of_le h.small hb, Nat.lt_of_lt_of_le h.small' hb'⟩

theorem AllWithin.each {b b' : Nat} {is is' : List Node} (h : AllWithin b b' is is') :
    List.Forall₂ (Within b b') is is' :=
  forall₂_of_mem h.wrapped fun _ hi _ hi' hwrapped =>
    ⟨hwrapped, Nat.lt_of_le_of_lt (size_le_sizeItems hi) h.small,
      Nat.lt_of_le_of_lt (size_le_sizeItems hi') h.small'⟩

/-- The keys read alike, and the values are within the bounds. -/
def EntryWithin (b b' : Nat) (e e' : Node × Node) : Prop :=
  e.1.keyText = e'.1.keyText ∧ Within b b' e.2 e'.2

theorem entries_within (h : List.Forall₂ WrappedEntry n.entries n'.entries) :
    List.Forall₂ (EntryWithin n.size n'.size) n.entries n'.entries :=
  forall₂_of_mem h fun _ he _ he' hentry =>
    ⟨hentry.keyText_eq, hentry.value, size_value he, size_value he'⟩

theorem items_within (h : List.Forall₂ Wrapped n.items n'.items) :
    AllWithin n.size n'.size n.items n'.items :=
  ⟨h, n.sizeItems_items, n'.sizeItems_items⟩

end Lowlang.Yaml.Node
