import Lowlang.Proofs.Script.Positions
import Lowlang.Raw

set_option autoImplicit false

/-!
# Equality of trees built by hand

Types are the same when they mean equal types, and values when what they mean is equal at one
position.  Statements are compared in all their parts, so they may differ and still mean the same;
`Stmt.Shape` is what a comparison sees of them.

Being the same is therefore an equivalence, and trees that are the same mean trees that are equal
up to positions.  Nothing that looks at those sees more of positions than where a fault is reported.
-/

namespace Lowlang

/-- What compares by a view of things is an equivalence. -/
theorem equivalence_of_view {α β : Type} {same : α → α → Bool} {view : α → β}
    (h : ∀ a b, same a b ↔ view a = view b) : Equivalence fun a b => same a b = true where
  refl a := (h a a).mpr rfl
  symm hab := (h _ _).mpr ((h _ _).mp hab).symm
  trans hab hbc := (h _ _).mpr (((h _ _).mp hab).trans ((h _ _).mp hbc))

/-! ## Types -/

namespace Ty.Raw

theorem kind_meaning (t : Ty.Raw) : t.meaning.kind = t.kind := by
  obtain ⟨k, n, e, ps, r, ms⟩ := t
  unfold meaning
  fun_cases Form.ofKind k <;> rfl

mutual

/-- Types are the same when they mean equal types. -/
theorem same_iff : ∀ t u : Ty.Raw, same t u ↔ t.meaning = u.meaning
  | ⟨k, m, e, ps, r, ms⟩, ⟨l, n, f, qs, s, ns⟩ => by
    -- Under one kind both sides read the same parts; under two the kind alone tells them apart.
    by_cases hk : k = l
    · subst hk
      simp only [same, meaning, beq_self_eq_true, Bool.true_and]
      cases Form.ofKind k with
      | plain t => simp
      | array => simp [sameOption_iff e]
      | custom => simp
      | function => simp [sameList_iff ps, sameOption_iff r]
      | union => simp [sameList_iff ms]
    · have hne : (⟨k, m, e, ps, r, ms⟩ : Ty.Raw).meaning ≠ meaning ⟨l, n, f, qs, s, ns⟩ := by
        intro h
        have hkind := congrArg Ty.kind h
        rw [kind_meaning, kind_meaning] at hkind
        exact hk hkind
      simp [same, hk, hne]
termination_by structural t => t

theorem sameOption_iff : ∀ t u : Option Ty.Raw, sameOption t u ↔ meaningOption t = meaningOption u
  | none, u => by cases u <;> simp [sameOption, meaningOption]
  | some t, u => by cases u <;> simp [sameOption, meaningOption, same_iff t]
termination_by structural t => t

theorem sameList_iff : ∀ ts us : List Ty.Raw, sameList ts us ↔ meaningList ts = meaningList us
  | [], us => by cases us <;> simp [sameList, meaningList]
  | t :: ts, us => by cases us <;> simp [sameList, meaningList, same_iff t, sameList_iff ts]
termination_by structural ts => ts

end

end Ty.Raw

/-! ## Values -/

namespace Value

theorem kind?_moved (p : Pos) (v : Value) : (v.moved p).kind? = v.kind? := by
  cases v <;> rfl

/-- An operator kind is the kind of its operator. -/
theorem number_of_operator {k : Kind} {op : Operator} (h : k.operator? = some op) :
    k.number = (Kind.firstOperator + Operator.all.idxOf op : Nat) := by
  have hall : ∀ i (h : i < Operator.all.length),
      Operator.all.idxOf (Operator.all.get ⟨i, h⟩) = i := by
    decide
  unfold Kind.operator? at h
  split at h
  · next hfirst =>
    obtain ⟨hlt, hget⟩ := List.getElem?_eq_some_iff.mp h
    have hidx := hall _ hlt
    rw [List.get_eq_getElem, hget] at hidx
    rw [hidx]
    omega
  · cases h

namespace Raw

/-- The kind of a value; a hole has none. -/
def kind? : Value.Raw → Option Kind
  | .absent => none
  | .node k _ _ _ _ _ _ _ _ _ => some k

/-- A value means a value of its kind. -/
theorem kind?_meaning (v : Value.Raw) : v.meaning.kind? = v.kind? := by
  cases v with
  | absent => rfl
  | node k p a n t elems fields x y args =>
    obtain ⟨number⟩ := k
    unfold meaning
    fun_cases Form.ofKind ⟨number⟩ with
    | case11 op hop =>
      show some (Kind.mk _) = some ⟨number⟩
      rw [← number_of_operator hop]
    | _ => simp_all [Value.kind?, kind?]

/-- Values of different kinds stay different when they are moved. -/
theorem moved_ne {v w : Value.Raw} (h : v.kind? ≠ w.kind?) :
    v.meaning.moved .none ≠ w.meaning.moved .none := by
  intro heq
  have hkind := congrArg Value.kind? heq
  rw [kind?_moved, kind?_moved, kind?_meaning, kind?_meaning] at hkind
  exact h hkind

mutual

/-- Values are the same when they mean values that are equal at one position. -/
theorem same_iff : ∀ v w : Value.Raw, same v w ↔ v.meaning.moved .none = w.meaning.moved .none
  | .absent, .absent => by simp [same]
  | .absent, .node k p b n t ys gs y y' bs => iff_of_false nofun (moved_ne nofun)
  | .node k p b n t ys gs y y' bs, .absent => iff_of_false nofun (moved_ne nofun)
  | .node j p a m s xs fs x x' as, .node k q b n t ys gs y y' bs => by
    by_cases hk : j = k
    · subst hk
      simp only [same, meaning, beq_self_eq_true, Bool.true_and]
      cases Form.ofKind j with
      | int => simp [moved]
      | uint => simp [moved]
      | byte => simp [moved]
      | char => simp [moved]
      | bool => simp [moved]
      | list => simp [moved, sameList_iff xs]
      | custom => simp [moved, Ty.Raw.sameOption_iff, sameFields_iff fs]
      | type => simp [moved, Ty.Raw.sameOption_iff]
      | name => simp [moved]
      | call => simp [moved, sameList_iff as]
      | operator op => simp [moved, same_iff x, same_iff x']
      | other => simp [moved, same_iff x, same_iff x']
    · refine iff_of_false ?_ (moved_ne fun h => hk (Option.some.inj h))
      simp [same, hk]
termination_by structural v => v

theorem sameList_iff : ∀ vs ws : List Value.Raw,
    sameList vs ws ↔ movedAll .none (meaningList vs) = movedAll .none (meaningList ws)
  | [], ws => by cases ws <;> simp [sameList, meaningList, movedAll]
  | v :: vs, ws => by
    cases ws <;> simp [sameList, meaningList, movedAll, same_iff v, sameList_iff vs]
termination_by structural vs => vs

theorem sameFields_iff : ∀ fs gs : List (String × Value.Raw),
    sameFields fs gs ↔ movedFields .none (meaningFields fs) = movedFields .none (meaningFields gs)
  | [], gs => by cases gs <;> simp [sameFields, meaningFields, movedFields]
  | (n, v) :: fs, gs => by
    cases gs <;> simp [sameFields, meaningFields, movedFields, same_iff v, sameFields_iff fs]
termination_by structural fs => fs

end

end Raw

end Value

/-! ## Statements -/

/-- What a comparison of statements sees: all parts, but no positions. -/
inductive Stmt.Shape where
  | absent
  | node (kind : Int) (name : String) (type : Option Ty) (value : Value) (params : List Param)
      (body : List Stmt.Shape) (elifs : List (Value × List Stmt.Shape))
      (otherwise : Option (List Stmt.Shape))

namespace Stmt.Raw

mutual

/-- The shape of a statement. -/
def shape : Stmt.Raw → Shape
  | .absent => .absent
  | .node k _ n t v params body elifs otherwise =>
    .node k n (Ty.Raw.meaningOption t) (v.meaning.moved .none) (params.map meaningParam)
      (shapeBlock body) (shapeElifs elifs) (shapeOtherwise otherwise)
termination_by structural s => s

def shapeList : List Stmt.Raw → List Shape
  | [] => []
  | s :: ss => shape s :: shapeList ss
termination_by structural ss => ss

def shapeBlock : Option (List Stmt.Raw) → List Shape
  | none => []
  | some ss => shapeList ss
termination_by structural b => b

def shapeElifs : List (Value.Raw × Option (List Stmt.Raw)) → List (Value × List Shape)
  | [] => []
  | (v, b) :: es => (v.meaning.moved .none, shapeBlock b) :: shapeElifs es
termination_by structural es => es

def shapeOtherwise : Option (List Stmt.Raw) → Option (List Shape)
  | none => none
  | some ss => some (shapeList ss)
termination_by structural b => b

end

theorem sameParams_iff (ps qs : List Param.Raw) :
    sameParams ps qs ↔ ps.map meaningParam = qs.map meaningParam := by
  induction ps generalizing qs with
  | nil => cases qs <;> simp [sameParams]
  | cons p ps ih => cases qs <;> simp [sameParams, meaningParam, Ty.Raw.same_iff, ih]

/-- Final branches have one shape when both are missing or neither, and their blocks have. -/
theorem shapeOtherwise_eq_iff (o q : Option (List Stmt.Raw)) :
    shapeOtherwise o = shapeOtherwise q ↔ o.isNone = q.isNone ∧ shapeBlock o = shapeBlock q := by
  cases o <;> cases q <;> simp [shapeOtherwise, shapeBlock]

mutual

/-- Statements are the same when they have one shape. -/
theorem same_iff : ∀ s t : Stmt.Raw, same s t ↔ s.shape = t.shape
  | .absent, .absent => by simp [same]
  | .absent, .node .. => by simp [same, shape]
  | .node .., .absent => by simp [same, shape]
  | .node j _ m s v ps b es o, .node k _ n t w qs c fs q => by
    simp only [same, shape, Bool.and_eq_true, beq_iff_eq, Ty.Raw.sameOption_iff,
      Value.Raw.same_iff, sameParams_iff, sameBlock_iff b, sameElifs_iff es, sameBlock_iff o,
      shapeOtherwise_eq_iff, Shape.node.injEq, and_assoc]
termination_by structural s => s

theorem sameList_iff : ∀ ss ts : List Stmt.Raw, sameList ss ts ↔ shapeList ss = shapeList ts
  | [], ts => by cases ts <;> simp [sameList, shapeList]
  | s :: ss, ts => by cases ts <;> simp [sameList, shapeList, same_iff s, sameList_iff ss]
termination_by structural ss => ss

/-- Blocks are the same when their statements have the same shapes. -/
theorem sameBlock_iff : ∀ b c : Option (List Stmt.Raw), sameBlock b c ↔ shapeBlock b = shapeBlock c
  | none, none => by simp [sameBlock]
  | none, some ts => by cases ts <;> simp [sameBlock, shapeBlock, shapeList]
  | some ss, none => by cases ss <;> simp [sameBlock, shapeBlock, shapeList]
  | some ss, some ts => sameList_iff ss ts
termination_by structural b => b

theorem sameElifs_iff : ∀ es fs : List (Value.Raw × Option (List Stmt.Raw)),
    sameElifs es fs ↔ shapeElifs es = shapeElifs fs
  | [], fs => by cases fs <;> simp [sameElifs, shapeElifs]
  | (v, b) :: es, fs => by
    cases fs <;>
      simp [sameElifs, shapeElifs, Value.Raw.same_iff, sameBlock_iff b, sameElifs_iff es]
termination_by structural es => es

end

end Stmt.Raw

namespace Stmt.Shape

mutual

/-- What the statements of a shape mean, at no position. -/
def meaning : Shape → Stmt
  | .absent => .absent
  | .node k n t v params body elifs otherwise =>
    match Form.ofKind k with
    | .eval => .eval .none v
    | .declare => .declare .none n t v
    | .assign => .assign .none n v
    | .function => .function .none n params t (meaningBlock body)
    | .branch =>
      .branch .none v (meaningBlock body) (meaningElifs elifs) (meaningOtherwise otherwise)
    | .other => .other .none k
termination_by structural s => s

def meaningBlock : List Shape → List Stmt
  | [] => []
  | s :: ss => meaning s :: meaningBlock ss
termination_by structural ss => ss

def meaningElifs : List (Value × List Shape) → List (Value × List Stmt)
  | [] => []
  | (v, b) :: es => (v, meaningBlock b) :: meaningElifs es
termination_by structural es => es

def meaningOtherwise : Option (List Shape) → Option (List Stmt)
  | none => none
  | some b => some (meaningBlock b)
termination_by structural o => o

end

end Stmt.Shape

namespace Stmt.Raw

mutual

/-- What a statement means, positions aside, is fixed by its shape. -/
theorem moved_meaning : ∀ s : Stmt.Raw, s.meaning.moved .none = s.shape.meaning
  | .absent => rfl
  | .node k _ n t v params body elifs otherwise => by
    simp only [meaning, shape, Shape.meaning]
    cases Form.ofKind k with
    | eval => rfl
    | declare => rfl
    | assign => rfl
    | function => simp only [moved, moved_meaningBlock body]
    | branch =>
      simp only [moved, moved_meaningBlock body, moved_meaningElifs elifs,
        moved_meaningOtherwise otherwise]
    | other => rfl
termination_by structural s => s

theorem moved_meaningList :
    ∀ ss : List Stmt.Raw, movedBlock .none (meaningList ss) = Shape.meaningBlock (shapeList ss)
  | [] => rfl
  | s :: ss => by
    rw [meaningList, movedBlock, moved_meaning s, moved_meaningList ss, shapeList,
      Shape.meaningBlock]
termination_by structural ss => ss

theorem moved_meaningBlock : ∀ b : Option (List Stmt.Raw),
    movedBlock .none (meaningBlock b) = Shape.meaningBlock (shapeBlock b)
  | none => rfl
  | some ss => moved_meaningList ss
termination_by structural b => b

theorem moved_meaningElifs : ∀ es : List (Value.Raw × Option (List Stmt.Raw)),
    movedElifs .none (meaningElifs es) = Shape.meaningElifs (shapeElifs es)
  | [] => rfl
  | (v, b) :: es => by
    rw [meaningElifs, movedElifs, moved_meaningBlock b, moved_meaningElifs es, shapeElifs,
      Shape.meaningElifs]
termination_by structural es => es

theorem moved_meaningOtherwise : ∀ o : Option (List Stmt.Raw),
    movedOtherwise .none (meaningOtherwise o) = Shape.meaningOtherwise (shapeOtherwise o)
  | none => rfl
  | some ss => congrArg some (moved_meaningList ss)
termination_by structural o => o

end

end Stmt.Raw

/-! ## Main statement -/

namespace Value.Raw

/-- Values are the same when they mean values that are. -/
theorem same_meaning {v w : Value.Raw} : v.same w ↔ v.meaning.same w.meaning :=
  (same_iff v w).trans (Value.same_iff _ _).symm

end Value.Raw

namespace Stmt.Raw

theorem same_of_same {s t : Stmt.Raw} (h : s.same t) : s.meaning.same t.meaning := by
  rw [Stmt.same_iff, moved_meaning, moved_meaning, (same_iff s t).mp h]

/-- Blocks that are the same mean blocks that are. -/
theorem sameBlock_of_sameBlock {b c : Block.Raw} (h : sameBlock b c) :
    Stmt.sameBlock (meaningBlock b) (meaningBlock c) := by
  rw [Stmt.sameBlock_iff, moved_meaningBlock, moved_meaningBlock, (sameBlock_iff b c).mp h]

end Stmt.Raw

namespace Raw

/-- To be the same is an equivalence of types, of values, of statements and of blocks, however
malformed, and nothing tells apart what is the same: types mean equal types, values and statements
have the same texts, and blocks have the same text, document and script, or fail alike up to the
reported positions. -/
theorem same_congruence :
    (Equivalence fun t u : Ty.Raw => t.same u = true) ∧
    (Equivalence fun v w : Value.Raw => v.same w = true) ∧
    (Equivalence fun s t : Stmt.Raw => s.same t = true) ∧
    (Equivalence fun b c : Block.Raw => Stmt.Raw.sameBlock b c = true) ∧
    (∀ t u : Ty.Raw, t.same u → t.meaning = u.meaning) ∧
    (∀ v w : Value.Raw, v.same w →
      v.meaning.text = w.meaning.text ∧ v.meaning.source = w.meaning.source) ∧
    (∀ s t : Stmt.Raw, s.same t → s.meaning.text = t.meaning.text) ∧
    (∀ b c : Block.Raw, Stmt.Raw.sameBlock b c →
      Stmt.Indistinct (Stmt.Raw.meaningBlock b) (Stmt.Raw.meaningBlock c)) := by
  refine ⟨equivalence_of_view Ty.Raw.same_iff, equivalence_of_view Value.Raw.same_iff,
    equivalence_of_view Stmt.Raw.same_iff, equivalence_of_view Stmt.Raw.sameBlock_iff, ?_, ?_, ?_,
    ?_⟩
  · exact fun t u h => (Ty.Raw.same_iff t u).mp h
  · exact fun v w h => Value.texts_of_same (Value.Raw.same_meaning.mp h)
  · exact fun s t h => Stmt.text_of_same (Stmt.Raw.same_of_same h)
  · exact fun b c h => Stmt.indistinct_of_same (Stmt.Raw.sameBlock_of_sameBlock h)

/-- A missing body against an empty one, and a name with a stray number, at other places. -/
theorem same_congruence_stray_parts :
    let p : Pos := ⟨"a", 2, 1⟩
    let test : Value.Raw := .node ⟨4⟩ p { bool := true } "" none [] [] .absent .absent []
    let stray : Value.Raw := .node ⟨8⟩ p { int := 7 } "y" none [] [] .absent .absent []
    let plain : Value.Raw := .node ⟨8⟩ .none {} "y" none [] [] .absent .absent []
    let b : Block.Raw := some [.node 4 p "" none test [] none [] none,
      .node 0 p "" none stray [] none [] none]
    let c : Block.Raw := some [.node 4 .none "" none test [] (some []) [] none,
      .node 0 .none "" none plain [] none [] none]
    Stmt.Raw.sameBlock b c ∧
      Stmt.Indistinct (Stmt.Raw.meaningBlock b) (Stmt.Raw.meaningBlock c) ∧
      Script.compile {} .empty (Stmt.Raw.meaningBlock b) = .error (.nameNotFound "y" p) ∧
      Script.compile {} .empty (Stmt.Raw.meaningBlock c) = .error (.nameNotFound "y" .none) := by
  intro p test stray plain b c
  have hsame : Stmt.Raw.sameBlock b c := by decide
  obtain ⟨_, _, _, _, _, _, _, hindistinct⟩ := same_congruence
  exact ⟨hsame, hindistinct b c hsame, rfl, rfl⟩

end Raw

end Lowlang
