import Lowlang.Proofs.Registry.Extension

set_option autoImplicit false

/-!
# The names a block needs

Lowering looks at a scope only to see whether a name of the block is in it, and a name of the block
is one that it uses or one that it declares.  So scopes that agree on the names of a block give it
the same script, or the same fault.

What has a script says more about its names: each one it uses is in scope or declared inside, and
none that it declares is in scope.  That is why names which a block does not declare may be added to
the scope of its script, and names which it does not use may be taken away.
-/

namespace Lowlang

/-! ## Names of values and blocks -/

namespace Value

mutual

/-- The names that a value refers to or calls, where its script shows them. -/
def uses : Value → List String
  | .list _ elems => usesAll elems
  | .custom _ _ fields => usesFields fields
  | .name _ n => [n]
  | .call _ n args => n :: usesAll args
  | .operator _ op x y => uses x ++ if op.isUnary then [] else uses y
  | _ => []
termination_by structural v => v

def usesAll : List Value → List String
  | [] => []
  | v :: vs => uses v ++ usesAll vs
termination_by structural vs => vs

def usesFields : List (String × Value) → List String
  | [] => []
  | (_, v) :: fields => uses v ++ usesFields fields
termination_by structural fields => fields

end

end Value

namespace Stmt

mutual

/-- The names that a statement refers to, calls or assigns, at any depth. -/
def uses : Stmt → List String
  | .eval _ v => v.uses
  | .declare _ _ _ v => v.uses
  | .assign _ n v => n :: v.uses
  | .function _ _ _ _ body => usesBlock body
  | .branch _ test body elifs otherwise =>
    test.uses ++ (usesBlock body ++ (usesElifs elifs ++ usesOtherwise otherwise))
  | _ => []
termination_by structural s => s

/-- The names that a block refers to, calls or assigns, at any depth. -/
def usesBlock : List Stmt → List String
  | [] => []
  | s :: ss => uses s ++ usesBlock ss
termination_by structural ss => ss

def usesElifs : List (Value × List Stmt) → List String
  | [] => []
  | (test, body) :: rest => test.uses ++ (usesBlock body ++ usesElifs rest)
termination_by structural es => es

def usesOtherwise : Option (List Stmt) → List String
  | none => []
  | some body => usesBlock body
termination_by structural o => o

end

mutual

/-- The names that a statement declares as variables, functions or parameters, at any depth. -/
def binds : Stmt → List String
  | .declare _ n _ _ => [n]
  | .function _ n params _ body => n :: (params.map Param.name ++ bindsBlock body)
  | .branch _ _ body elifs otherwise =>
    bindsBlock body ++ (bindsElifs elifs ++ bindsOtherwise otherwise)
  | _ => []
termination_by structural s => s

/-- The names that a block declares as variables, functions or parameters, at any depth. -/
def bindsBlock : List Stmt → List String
  | [] => []
  | s :: ss => binds s ++ bindsBlock ss
termination_by structural ss => ss

def bindsElifs : List (Value × List Stmt) → List String
  | [] => []
  | (_, body) :: rest => bindsBlock body ++ bindsElifs rest
termination_by structural es => es

def bindsOtherwise : Option (List Stmt) → List String
  | none => []
  | some body => bindsBlock body
termination_by structural o => o

end

end Stmt

namespace Script

open Stateful (Pairs Matches)

/-! ## Scopes that agree -/

/-- The scopes hold the same of the names that matter. -/
def Agree (P : String → Prop) (scope other : Registry) : Prop :=
  ∀ n, P n → (scope.contains n ↔ other.contains n)

section

variable {P : String → Prop} {scope other : Registry}

theorem Agree.insert (h : Agree P scope other) (n : String) (t : Ty) :
    Agree P (scope.insert n t) (other.insert n t) := by
  intro m hm
  rw [Registry.contains_insert, Registry.contains_insert, h m hm]

/-- Both scopes take a name that matters, or both refuse it. -/
theorem Agree.add (h : Agree P scope other) {n : String} (hn : P n) (t : Ty) (pos : Pos) :
    Pairs Eq (Agree P) (scope.add n t pos) (other.add n t pos) := by
  unfold Registry.add
  by_cases hc : scope.contains n
  · rw [if_pos hc, if_pos ((h n hn).mp hc)]
    rfl
  · rw [if_neg hc, if_neg fun ho => hc ((h n hn).mpr ho)]
    exact h.insert n t

theorem Agree.declareParams (pos : Pos) {params : List Param} {scope other : Registry}
    (h : Agree P scope other) (hp : ∀ p ∈ params, P p.name) :
    Pairs Eq (Agree P) (declareParams pos params scope) (declareParams pos params other) := by
  induction params generalizing scope other with
  | nil => exact h
  | cons p params ih =>
    rw [List.forall_mem_cons] at hp
    exact (h.add hp.1 p.type pos).bind fun _ _ hinner => ih hinner hp.2

/-- A test for a name that matters has the same outcome in both scopes. -/
theorem Agree.ite {α : Type} (h : Agree P scope other) {n : String} (hn : P n) (a b : α) :
    (if scope.contains n then a else b) = if other.contains n then a else b := by
  by_cases hc : scope.contains n
  · rw [if_pos hc, if_pos ((h n hn).mp hc)]
  · rw [if_neg hc, if_neg fun ho => hc ((h n hn).mpr ho)]

end

mutual

theorem value_agree {P : String → Prop} {scope other : Registry} (h : Agree P scope other) :
    ∀ v : Value, (∀ n ∈ v.uses, P n) → value scope v = value other v
  | .absent, _ | .int _ _, _ | .uint _ _, _ | .byte _ _, _ | .char _ _, _ | .bool _ _, _
  | .type _ _, _ | .other _ _ _ _, _ => rfl
  | .list _ elems, hn => by
    unfold value
    rw [values_agree h elems hn]
  | .custom _ _ fields, hn => by
    unfold value
    rw [members_agree h fields hn]
  | .name p n, hn => h.ite (hn n List.mem_cons_self) _ _
  | .call p n args, hn => by
    rw [Value.uses, List.forall_mem_cons] at hn
    unfold value
    rw [h.ite hn.1, values_agree h args hn.2]
  | .operator _ op x y, hn => by
    rw [Value.uses, List.forall_mem_append] at hn
    unfold value
    rw [value_agree h x hn.1]
    by_cases hop : op.isUnary
    · simp only [hop, if_true]
    · rw [if_neg hop] at hn
      rw [value_agree h y hn.2]
termination_by structural v => v

theorem values_agree {P : String → Prop} {scope other : Registry} (h : Agree P scope other) :
    ∀ vs : List Value, (∀ n ∈ Value.usesAll vs, P n) → values scope vs = values other vs
  | [], _ => rfl
  | v :: vs, hn => by
    rw [Value.usesAll, List.forall_mem_append] at hn
    unfold values
    rw [value_agree h v hn.1, values_agree h vs hn.2]
termination_by structural vs => vs

theorem members_agree {P : String → Prop} {scope other : Registry} (h : Agree P scope other) :
    ∀ fields : List (String × Value), (∀ n ∈ Value.usesFields fields, P n) →
      members scope fields = members other fields
  | [], _ => rfl
  | (_, v) :: fields, hn => by
    rw [Value.usesFields, List.forall_mem_append] at hn
    unfold members
    rw [value_agree h v hn.1, members_agree h fields hn.2]
termination_by structural fields => fields

end

/-- Both pieces of work run alike, and come to values that are related. -/
abbrev Alike {α : Type} (R : α → α → Prop) (w w' : Work α) : Prop :=
  Matches Eq Eq R w w'

/-- One piece of work, run twice. -/
theorem alike_refl {α : Type} (w : Work α) : Alike Eq w w := by
  rintro p _ rfl
  exact ⟨Stateful.pairs_eq_iff.mpr rfl, rfl⟩

/-- The same step on both sides. -/
theorem Alike.step {α β : Type} {R : β → β → Prop} {w w' : Work α} {k k' : α → Work β}
    (h : w = w') (hk : ∀ a, Alike R (k a) (k' a)) : Alike R (w >>= k) (w' >>= k') := by
  subst h
  refine (alike_refl w).bind ?_
  rintro a _ rfl
  exact hk a

/-- Scripts that are equal, with scopes that agree behind them. -/
def AgreeAfter (P : String → Prop) (r r' : String × Registry) : Prop :=
  r.1 = r'.1 ∧ Agree P r.2 r'.2

mutual

/-- In scopes that agree on its names, a statement has the same script, and leaves scopes that
agree. -/
theorem statement_agree {P : String → Prop} (cfg : Settings) {depth : Nat} :
    ∀ (s : Stmt) {scope other : Registry}, Agree P scope other → (∀ n ∈ s.uses, P n) →
      (∀ n ∈ s.binds, P n) →
      Alike (AgreeAfter P) (statement cfg depth scope s) (statement cfg depth other s)
  | .absent, _, _, _, _, _ => .stop rfl
  | .eval _ v, _, _, h, hu, _ => by
    refine Alike.step (congrArg liftExcept (value_agree h v hu)) fun a => ?_
    exact .ret ⟨rfl, h⟩
  | .declare p n t v, _, _, h, hu, hb => by
    refine Alike.step (congrArg liftExcept (value_agree h v hu)) fun a => ?_
    refine (matches_lift (h.add (hb n List.mem_cons_self) _ p)).bind fun outer outer' houter => ?_
    exact .ret ⟨rfl, houter⟩
  | .assign p n v, _, _, h, hu, _ => by
    rw [Stmt.uses, List.forall_mem_cons] at hu
    unfold statement
    rw [h.ite hu.1, value_agree h v hu.2]
    split
    · refine Alike.step rfl fun a => ?_
      exact .ret ⟨rfl, h⟩
    · exact .stop rfl
  | .function p n params result body, _, _, h, hu, hb => by
    rw [Stmt.binds, List.forall_mem_cons, List.forall_mem_append, List.forall_mem_map] at hb
    refine (matches_lift (h.add hb.1 _ p)).bind fun outer outer' houter => ?_
    refine (matches_lift (houter.declareParams p hb.2.1)).bind fun inner inner' hinner => ?_
    refine Alike.step rfl fun _ => ?_
    refine (statements_agree cfg body hinner hu hb.2.2).bind ?_
    rintro s _ rfl
    exact .ret ⟨rfl, houter⟩
  | .branch p test body elifs otherwise, _, _, h, hu, hb => by
    rw [Stmt.uses, List.forall_mem_append, List.forall_mem_append, List.forall_mem_append] at hu
    rw [Stmt.binds, List.forall_mem_append, List.forall_mem_append] at hb
    refine Alike.step (congrArg liftExcept (value_agree h test hu.1)) fun t => ?_
    refine Alike.step rfl fun _ => ?_
    refine (statements_agree cfg body h hu.2.1 hb.1).bind ?_
    rintro s _ rfl
    refine (furtherTests_agree cfg p elifs h hu.2.2.1 hb.2.1).bind ?_
    rintro more _ rfl
    refine (finalBranch_agree cfg p otherwise h hu.2.2.2 hb.2.2).bind ?_
    rintro last _ rfl
    exact .ret ⟨rfl, h⟩
  | .other _ _, _, _, _, _, _ => .stop rfl
termination_by structural s => s

theorem statements_agree {P : String → Prop} (cfg : Settings) {depth : Nat} :
    ∀ (ss : List Stmt) {scope other : Registry}, Agree P scope other →
      (∀ n ∈ Stmt.usesBlock ss, P n) → (∀ n ∈ Stmt.bindsBlock ss, P n) →
      Alike Eq (statements cfg depth scope ss) (statements cfg depth other ss)
  | [], _, _, _, _, _ => .ret rfl
  | s :: ss, _, _, h, hu, hb => by
    rw [Stmt.usesBlock, List.forall_mem_append] at hu
    rw [Stmt.bindsBlock, List.forall_mem_append] at hb
    by_cases hs : s = .absent
    · subst hs
      exact Alike.step rfl fun _ => .stop rfl
    · rw [statements_cons hs, statements_cons hs]
      refine Alike.step rfl fun _ => Alike.step rfl fun _ => ?_
      refine (statement_agree cfg s h hu.1 hb.1).bind ?_
      rintro ⟨a, outer⟩ ⟨_, outer'⟩ ⟨rfl, houter⟩
      refine (statements_agree cfg ss houter hu.2 hb.2).bind ?_
      rintro b _ rfl
      exact .ret rfl
termination_by structural ss => ss

theorem furtherTests_agree {P : String → Prop} (cfg : Settings) {depth : Nat} (pos : Pos) :
    ∀ (elifs : List (Value × List Stmt)) {scope other : Registry}, Agree P scope other →
      (∀ n ∈ Stmt.usesElifs elifs, P n) → (∀ n ∈ Stmt.bindsElifs elifs, P n) →
      Alike Eq (furtherTests cfg depth scope pos elifs) (furtherTests cfg depth other pos elifs)
  | [], _, _, _, _, _ => .ret rfl
  | (test, body) :: rest, _, _, h, hu, hb => by
    rw [Stmt.usesElifs, List.forall_mem_append, List.forall_mem_append] at hu
    rw [Stmt.bindsElifs, List.forall_mem_append] at hb
    refine Alike.step (congrArg liftExcept (value_agree h test hu.1)) fun t => ?_
    refine Alike.step rfl fun _ => ?_
    refine (statements_agree cfg body h hu.2.1 hb.1).bind ?_
    rintro s _ rfl
    refine (furtherTests_agree cfg pos rest h hu.2.2 hb.2).bind ?_
    rintro more _ rfl
    exact .ret rfl
termination_by structural elifs => elifs

theorem finalBranch_agree {P : String → Prop} (cfg : Settings) {depth : Nat} (pos : Pos) :
    ∀ (otherwise : Option (List Stmt)) {scope other : Registry}, Agree P scope other →
      (∀ n ∈ Stmt.usesOtherwise otherwise, P n) → (∀ n ∈ Stmt.bindsOtherwise otherwise, P n) →
      Alike Eq (finalBranch cfg depth scope pos otherwise)
        (finalBranch cfg depth other pos otherwise)
  | none, _, _, _, _, _ => .ret rfl
  | some body, _, _, h, hu, hb => by
    refine Alike.step rfl fun _ => ?_
    refine (statements_agree cfg body h hu hb).bind ?_
    rintro s _ rfl
    exact .ret rfl
termination_by structural otherwise => otherwise

end

/-- Scopes that agree on the names of a block give it the same script or the same fault. -/
theorem compile_agree (cfg : Settings) {scope other : Registry} {b : Block}
    (h : Agree (fun n => n ∈ Stmt.usesBlock b ∨ n ∈ Stmt.bindsBlock b) scope other) :
    compile cfg scope b = compile cfg other b := by
  have hruns : Alike Eq (statements cfg 0 scope b) (statements cfg 0 other b) :=
    statements_agree cfg b h (fun _ => .inl) fun _ => .inr
  exact Stateful.pairs_eq_iff.mp (hruns {} {} rfl).1

/-! ## Names of what has a script -/

mutual

/-- A value with a script uses names in scope only. -/
theorem contains_of_value {scope : Registry} :
    ∀ {v : Value} {s : String}, value scope v = .ok s → ∀ n ∈ v.uses, scope.contains n
  | .absent, _, h => nomatch h
  | .int _ _, _, _ | .uint _ _, _, _ | .byte _ _, _, _ | .char _ _, _, _ | .bool _ _, _, _ =>
    nofun
  | .list _ elems, s, h => by
    obtain ⟨ss, hss, _⟩ := Fault.bind_ok h
    exact contains_of_values hss
  | .custom _ _ fields, s, h => by
    obtain ⟨ss, hss, _⟩ := Fault.bind_ok h
    exact contains_of_members hss
  | .type _ _, _, h => nomatch h
  | .name p n, s, h => by
    unfold value at h
    split at h
    · next hn => exact List.forall_mem_singleton.mpr hn
    · cases h
  | .call p n args, s, h => by
    unfold value at h
    split at h
    · next hn =>
      obtain ⟨ss, hss, _⟩ := Fault.bind_ok h
      exact List.forall_mem_cons.mpr ⟨hn, contains_of_values hss⟩
    · cases h
  | .operator _ op x y, s, h => by
    obtain ⟨a, ha, h⟩ := Fault.bind_ok h
    rw [Value.uses, List.forall_mem_append]
    refine ⟨contains_of_value ha, ?_⟩
    by_cases hop : op.isUnary
    · rw [if_pos hop]
      exact nofun
    · rw [if_neg hop] at h ⊢
      obtain ⟨b, hb, _⟩ := Fault.bind_ok h
      exact contains_of_value hb
  | .other _ _ _ _, _, h => nomatch h
termination_by structural v => v

theorem contains_of_values {scope : Registry} :
    ∀ {vs : List Value} {ss : List String}, values scope vs = .ok ss →
      ∀ n ∈ Value.usesAll vs, scope.contains n
  | [], _, _ => nofun
  | v :: vs, ss, h => by
    obtain ⟨s, hs, h⟩ := Fault.bind_ok h
    obtain ⟨rest, hrest, _⟩ := Fault.bind_ok h
    exact List.forall_mem_append.mpr ⟨contains_of_value hs, contains_of_values hrest⟩
termination_by structural vs => vs

theorem contains_of_members {scope : Registry} :
    ∀ {fields : List (String × Value)} {ss : List String}, members scope fields = .ok ss →
      ∀ n ∈ Value.usesFields fields, scope.contains n
  | [], _, _ => nofun
  | (_, v) :: fields, ss, h => by
    obtain ⟨s, hs, h⟩ := Fault.bind_ok h
    obtain ⟨rest, hrest, _⟩ := Fault.bind_ok h
    exact List.forall_mem_append.mpr ⟨contains_of_value hs, contains_of_members hrest⟩
termination_by structural fields => fields

end

/-- The names used are in scope or declared inside, and those declared are not in scope. -/
structure Closed (scope : Registry) (uses binds : List String) : Prop where
  uses : ∀ n ∈ uses, scope.contains n ∨ n ∈ binds
  binds : ∀ n ∈ binds, ¬ scope.contains n

/-- The scope has grown, by no other names than the given ones. -/
structure Grown (scope outer : Registry) (names : List String) : Prop where
  keeps : ∀ n, scope.contains n → outer.contains n
  adds : ∀ n, outer.contains n → scope.contains n ∨ n ∈ names

namespace Closed

variable {scope outer : Registry} {us vs bs cs : List String}

theorem of_uses (h : ∀ n ∈ us, scope.contains n) : Closed scope us [] :=
  ⟨fun n hn => .inl (h n hn), nofun⟩

/-- What follows sees more names, but only such as are declared before it. -/
theorem append (h : Closed scope us bs) (hgrown : Grown scope outer bs)
    (hnext : Closed outer vs cs) : Closed scope (us ++ vs) (bs ++ cs) where
  uses := by
    intro n hn
    rw [List.mem_append]
    rcases List.mem_append.mp hn with hn | hn
    · exact (h.uses n hn).imp_right .inl
    · rcases hnext.uses n hn with hc | hc
      · exact (hgrown.adds n hc).imp_right .inl
      · exact .inr (.inr hc)
  binds := by
    intro n hn
    rcases List.mem_append.mp hn with hn | hn
    · exact h.binds n hn
    · exact fun hc => hnext.binds n hn (hgrown.keeps n hc)

/-- Two parts in the same scope. -/
theorem beside (h : Closed scope us bs) (hnext : Closed scope vs cs) :
    Closed scope (us ++ vs) (bs ++ cs) :=
  h.append ⟨fun _ => id, fun _ => .inl⟩ hnext

end Closed

theorem grown_of_add {scope outer : Registry} {n : String} {t : Ty} {pos : Pos}
    (h : scope.add n t pos = .ok outer) : Closed scope [] [n] ∧ Grown scope outer [n] := by
  obtain ⟨hnew, rfl⟩ := Registry.add_eq_ok_iff.mp h
  refine ⟨⟨nofun, List.forall_mem_singleton.mpr hnew⟩, fun m hm => ?_, fun m hm => ?_⟩
  · exact (Registry.contains_insert scope n t m).mpr (.inr hm)
  · exact ((Registry.contains_insert scope n t m).mp hm).symm.imp_right List.mem_singleton.mpr

theorem grown_of_declareParams {pos : Pos} {params : List Param} {scope inner : Registry}
    (h : declareParams pos params scope = .ok inner) :
    Closed scope [] (params.map Param.name) ∧ Grown scope inner (params.map Param.name) := by
  induction params generalizing scope with
  | nil =>
    cases h
    exact ⟨.of_uses nofun, fun _ => id, fun _ => .inl⟩
  | cons p params ih =>
    obtain ⟨outer, hadd, h⟩ := Fault.bind_ok h
    obtain ⟨hclosed, hgrown⟩ := grown_of_add hadd
    obtain ⟨hrest, hmore⟩ := ih h
    refine ⟨hclosed.append hgrown hrest, fun n hn => hmore.keeps n (hgrown.keeps n hn), ?_⟩
    intro n hn
    rw [List.map_cons, List.mem_cons]
    rcases hmore.adds n hn with hn | hn
    · exact (hgrown.adds n hn).imp_right fun hn => .inl (List.mem_singleton.mp hn)
    · exact .inr (.inr hn)

/-- What a statement leaves in scope beyond what it found, it declares. -/
theorem grown_of_statement {cfg : Settings} {depth : Nat} {scope outer : Registry} {s : Stmt}
    {t : String} (h : Gives (statement cfg depth scope s) (t, outer)) :
    Grown scope outer s.binds := by
  rw [scope_of_statement h]
  refine ⟨fun n hn => (Registry.contains_extend _ _ n).mpr (.inl hn), fun n hn => ?_⟩
  refine ((Registry.contains_extend _ _ n).mp hn).imp_right ?_
  rintro ⟨d, hd, rfl⟩
  cases s with
  | declare p m ty v =>
    cases List.mem_singleton.mp hd
    exact List.mem_cons_self
  | function p m params result body =>
    cases List.mem_singleton.mp hd
    exact List.mem_cons_self
  | _ => cases hd

mutual

theorem closed_statement {cfg : Settings} {depth : Nat} :
    ∀ {s : Stmt} {scope : Registry} {r : String × Registry},
      Gives (statement cfg depth scope s) r → Closed scope s.uses s.binds
  | .absent, _, _, h => absurd h Gives.not_throw
  | .eval _ v, scope, _, h => by
    obtain ⟨_, hv, _⟩ := h.bind
    exact .of_uses (contains_of_value hv.lift)
  | .declare p n t v, scope, _, h => by
    obtain ⟨_, hv, h⟩ := h.bind
    obtain ⟨_, hadd, _⟩ := h.bind
    have hclosed := (Closed.of_uses (contains_of_value hv.lift)).beside (grown_of_add hadd.lift).1
    rwa [List.append_nil] at hclosed
  | .assign p n v, scope, _, h => by
    unfold statement at h
    split at h
    · next hn =>
      obtain ⟨_, hv, _⟩ := h.bind
      exact .of_uses (List.forall_mem_cons.mpr ⟨hn, contains_of_value hv.lift⟩)
    · exact absurd h Gives.not_throw
  | .function p n params result body, scope, _, h => by
    obtain ⟨outer, hadd, h⟩ := h.bind
    obtain ⟨inner, hparams, h⟩ := h.bind
    obtain ⟨_, _, h⟩ := h.bind
    obtain ⟨_, hbody, _⟩ := h.bind
    obtain ⟨hname, houter⟩ := grown_of_add hadd.lift
    obtain ⟨hnames, hinner⟩ := grown_of_declareParams hparams.lift
    exact hname.append houter (hnames.append hinner (closed_statements hbody))
  | .branch p test body elifs otherwise, scope, _, h => by
    obtain ⟨_, htest, h⟩ := h.bind
    obtain ⟨_, _, h⟩ := h.bind
    obtain ⟨_, hbody, h⟩ := h.bind
    obtain ⟨_, helifs, h⟩ := h.bind
    obtain ⟨_, hlast, _⟩ := h.bind
    refine (Closed.of_uses (contains_of_value htest.lift)).beside ?_
    refine (closed_statements hbody).beside ?_
    exact (closed_furtherTests helifs).beside (closed_finalBranch hlast)
  | .other _ _, _, _, h => absurd h Gives.not_throw
termination_by structural s => s

/-- The names of a block that has a script. -/
theorem closed_statements {cfg : Settings} {depth : Nat} :
    ∀ {ss : List Stmt} {scope : Registry} {t : String},
      Gives (statements cfg depth scope ss) t →
        Closed scope (Stmt.usesBlock ss) (Stmt.bindsBlock ss)
  | [], _, _, _ => .of_uses nofun
  | s :: ss, scope, _, h => by
    obtain ⟨_, outer, _, hs, hss, _⟩ := h.statements_cons
    exact (closed_statement hs).append (grown_of_statement hs) (closed_statements hss)
termination_by structural ss => ss

theorem closed_furtherTests {cfg : Settings} {depth : Nat} {pos : Pos} :
    ∀ {elifs : List (Value × List Stmt)} {scope : Registry} {t : String},
      Gives (furtherTests cfg depth scope pos elifs) t →
        Closed scope (Stmt.usesElifs elifs) (Stmt.bindsElifs elifs)
  | [], _, _, _ => .of_uses nofun
  | (test, body) :: rest, scope, _, h => by
    obtain ⟨_, htest, h⟩ := h.bind
    obtain ⟨_, _, h⟩ := h.bind
    obtain ⟨_, hbody, h⟩ := h.bind
    obtain ⟨_, hrest, _⟩ := h.bind
    refine (Closed.of_uses (contains_of_value htest.lift)).beside ?_
    exact (closed_statements hbody).beside (closed_furtherTests hrest)
termination_by structural elifs => elifs

theorem closed_finalBranch {cfg : Settings} {depth : Nat} {pos : Pos} :
    ∀ {otherwise : Option (List Stmt)} {scope : Registry} {t : String},
      Gives (finalBranch cfg depth scope pos otherwise) t →
        Closed scope (Stmt.usesOtherwise otherwise) (Stmt.bindsOtherwise otherwise)
  | none, _, _, _ => .of_uses nofun
  | some body, scope, _, h => by
    obtain ⟨_, _, h⟩ := h.bind
    obtain ⟨_, hbody, _⟩ := h.bind
    exact closed_statements hbody
termination_by structural otherwise => otherwise

end

/-! ## Main statement -/

/-- A script depends on the scope of its block only through the names the block needs.  Scopes of
the same names give the same script or the same fault, whatever the types.  A script stays as it is
when names come into scope that the block declares nowhere, and when names go that it never refers
to, calls or assigns. -/
theorem compile_needs_names (cfg : Settings) (b : Block) :
    (∀ scope other : Registry, (∀ n, scope.contains n ↔ other.contains n) →
      compile cfg scope b = compile cfg other b) ∧
    (∀ (scope : Registry) (t : String), compile cfg scope b = .ok t →
      ∀ ds : List Decl, (∀ d ∈ ds, d.name ∉ Stmt.bindsBlock b) →
        compile cfg (scope.extend ds) b = .ok t) ∧
    (∀ (scope narrower : Registry) (t : String), compile cfg scope b = .ok t →
      (∀ n, narrower.contains n → scope.contains n) →
      (∀ n, scope.contains n → ¬ narrower.contains n → n ∉ Stmt.usesBlock b) →
        compile cfg narrower b = .ok t) := by
  refine ⟨fun scope other h => compile_agree cfg fun n _ => h n, ?_, ?_⟩
  · intro scope t ht ds hds
    have hclosed : Closed scope _ _ := closed_statements ⟨{}, ht⟩
    rw [← ht]
    refine compile_agree cfg fun n hn => ?_
    rw [Registry.contains_extend]
    -- A name that is new in scope is declared nowhere, so it is not used either.
    have hbound : n ∈ Stmt.bindsBlock b → ¬ ∃ d ∈ ds, d.name = n := by
      rintro hn ⟨d, hd, rfl⟩
      exact hds d hd hn
    constructor
    · rintro (hc | hd)
      · exact hc
      · rcases hn with hn | hn
        · exact (hclosed.uses n hn).resolve_right fun hb => hbound hb hd
        · exact absurd hd (hbound hn)
    · exact .inl
  · intro scope narrower t ht hsub hdropped
    have hclosed : Closed scope _ _ := closed_statements ⟨{}, ht⟩
    rw [← ht]
    refine compile_agree cfg fun n hn => ⟨hsub n, fun hc => ?_⟩
    rcases hn with hn | hn
    · by_cases hkept : narrower.contains n
      · exact hkept
      · exact absurd hn (hdropped n hc hkept)
    · exact absurd hc (hclosed.binds n hn)

/-- The function neither declares `g` nor needs `h`, but it does declare `x`. -/
theorem compile_needs_names_of_body :
    let b : Block := [.function .none "f" [⟨"x", .int⟩] none
      [.eval .none (.call .none "f" [.name .none "y"])]]
    let scope := Registry.ofDecls [⟨"h", .bool⟩, ⟨"y", .int⟩]
    let narrower := Registry.ofDecls [⟨"y", .char⟩]
    let script := "function f(x)\x7bf(y);\x7d"
    compile {} scope b = .ok script ∧
      compile {} (scope.extend [⟨"g", .int⟩]) b = .ok script ∧
      compile {} narrower b = .ok script ∧
      compile {} (scope.extend [⟨"x", .int⟩]) b = .error (.namePresent "x" .none) := by
  intro b scope narrower script
  have hscript : compile {} scope b = .ok script := rfl
  obtain ⟨_, hwider, hnarrower⟩ := compile_needs_names {} b
  refine ⟨hscript, hwider scope script hscript _ (by decide), ?_, rfl⟩
  refine hnarrower scope narrower script hscript (fun n hn => ?_) fun n hc hgone => ?_
  · obtain ⟨d, hd, rfl⟩ := (Registry.contains_ofDecls _ n).mp hn
    cases List.mem_singleton.mp hd
    rfl
  · obtain ⟨d, hd, rfl⟩ := (Registry.contains_ofDecls _ n).mp hc
    rcases List.mem_cons.mp hd with rfl | hd
    · decide
    · cases List.mem_singleton.mp hd
      exact absurd rfl hgone

end Script

end Lowlang
