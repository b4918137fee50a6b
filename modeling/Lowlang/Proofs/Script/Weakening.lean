import Lowlang.Proofs.Registry.Extension

set_option autoImplicit false

/-!
# Scripts in wider scopes

A value keeps its script when more names are in scope.  Nothing in a value declares a name, so
nothing in it can clash with the names that are added.  The declaration of a variable keeps its
script as long as the variable is not among them.
-/

namespace Lowlang.Script

/-- Every name of the one scope is in the other. -/
def Widens (wider scope : Registry) : Prop :=
  ∀ n, scope.contains n → wider.contains n

mutual

theorem value_widen {wider scope : Registry} (hw : Widens wider scope) :
    ∀ {v : Value} {s : String}, value scope v = .ok s → value wider v = .ok s
  | .absent, _, h => nomatch h
  | .int _ _, _, h => h
  | .uint _ _, _, h => h
  | .byte _ _, _, h => h
  | .char _ _, _, h => h
  | .bool _ _, _, h => h
  | .list _ elems, s, h => by
    obtain ⟨ss, hss, h⟩ := Fault.bind_ok h
    unfold value
    rw [values_widen hw hss]
    exact h
  | .custom _ _ fields, s, h => by
    obtain ⟨ss, hss, h⟩ := Fault.bind_ok h
    unfold value
    rw [members_widen hw hss]
    exact h
  | .type _ _, _, h => nomatch h
  | .name p n, s, h => by
    unfold value at h ⊢
    split at h
    · next hn => rwa [if_pos (hw n hn)]
    · cases h
  | .call p n args, s, h => by
    unfold value at h ⊢
    split at h
    · next hn =>
      obtain ⟨ss, hss, h⟩ := Fault.bind_ok h
      rw [if_pos (hw n hn), values_widen hw hss]
      exact h
    · cases h
  | .operator _ op x y, s, h => by
    obtain ⟨a, ha, h⟩ := Fault.bind_ok h
    unfold value
    rw [value_widen hw ha]
    by_cases hop : op.isUnary
    · simp only [hop, if_true] at h ⊢
      exact h
    · simp only [hop, Bool.false_eq_true, if_false] at h ⊢
      obtain ⟨b, hb, h⟩ := Fault.bind_ok h
      rw [value_widen hw hb]
      exact h
  | .other _ _ _ _, _, h => nomatch h
termination_by structural v => v

theorem values_widen {wider scope : Registry} (hw : Widens wider scope) :
    ∀ {vs : List Value} {ss : List String}, values scope vs = .ok ss → values wider vs = .ok ss
  | [], _, h => h
  | v :: vs, ss, h => by
    obtain ⟨s, hs, h⟩ := Fault.bind_ok h
    obtain ⟨rest, hrest, h⟩ := Fault.bind_ok h
    unfold values
    rw [value_widen hw hs, values_widen hw hrest]
    exact h
termination_by structural vs => vs

theorem members_widen {wider scope : Registry} (hw : Widens wider scope) :
    ∀ {fields : List (String × Value)} {ss : List String},
      members scope fields = .ok ss → members wider fields = .ok ss
  | [], _, h => h
  | (n, v) :: fields, ss, h => by
    obtain ⟨s, hs, h⟩ := Fault.bind_ok h
    obtain ⟨rest, hrest, h⟩ := Fault.bind_ok h
    unfold members
    rw [value_widen hw hs, members_widen hw hrest]
    exact h
termination_by structural fields => fields

end

/-! ## Blocks of one statement -/

theorem compile_eq_resultOf (cfg : Settings) (scope : Registry) (b : Block) :
    compile cfg scope b = resultOf (statements cfg 0 scope b) := rfl

theorem compile_singleton {cfg : Settings} (never : cfg.interrupt = none) (scope : Registry)
    {s : Stmt} (hs : s ≠ .absent) :
    compile cfg scope [s] = (resultOf (statement cfg 0 scope s)).map Prod.fst := by
  rw [compile_eq_resultOf, resultOf_cons never hs]
  cases resultOf (statement cfg 0 scope s) with
  | error f => rfl
  | ok r =>
    show Except.ok (r.1 ++ "") = Except.ok r.1
    rw [String.append_empty]

theorem compile_eval {cfg : Settings} (never : cfg.interrupt = none) (scope : Registry) (p : Pos)
    (v : Value) : compile cfg scope [.eval p v] = (value scope v).map (· ++ ";") := by
  have hs : Stmt.eval p v ≠ .absent := fun h => nomatch h
  rw [compile_singleton never scope hs]
  unfold statement
  cases value scope v with
  | error f => rfl
  | ok t => rfl

theorem compile_declare {cfg : Settings} (never : cfg.interrupt = none) (scope : Registry) (p : Pos)
    (n : String) (t : Option Ty) (v : Value) :
    compile cfg scope [.declare p n t v] = (do
      let s ← value scope v
      let _ ← scope.add n (t.getD .null) p
      return cfg.version.declareKeyword ++ " " ++ n ++ "=" ++ s ++ ";") := by
  have hs : Stmt.declare p n t v ≠ .absent := fun h => nomatch h
  rw [compile_singleton never scope hs]
  unfold statement
  cases value scope v with
  | error f => rfl
  | ok s =>
    cases scope.add n (t.getD .null) p with
    | error f => rfl
    | ok outer => rfl

theorem compile_eval_widen {cfg : Settings} (never : cfg.interrupt = none)
    {wider scope : Registry} (hw : Widens wider scope) {p : Pos} {v : Value} {out : String}
    (h : compile cfg scope [.eval p v] = .ok out) : compile cfg wider [.eval p v] = .ok out := by
  rw [compile_eval never] at h ⊢
  cases hv : value scope v with
  | error f =>
    rw [hv] at h
    cases h
  | ok s =>
    rw [hv] at h
    rw [value_widen hw hv]
    exact h

theorem compile_declare_widen {cfg : Settings} (never : cfg.interrupt = none)
    {wider scope : Registry} (hw : Widens wider scope) {p : Pos} {n : String} {t : Option Ty}
    {v : Value} {out : String} (hn : ¬ wider.contains n)
    (h : compile cfg scope [.declare p n t v] = .ok out) :
    compile cfg wider [.declare p n t v] = .ok out := by
  rw [compile_declare never] at h ⊢
  obtain ⟨s, hs, h⟩ := Fault.bind_ok h
  obtain ⟨_, _, h⟩ := Fault.bind_ok h
  rw [value_widen hw hs, Registry.add, if_neg hn]
  exact h

end Lowlang.Script
