import Lowlang.Proofs.Script.Work

set_option autoImplicit false

/-!
# Scoping of scripts

Which blocks have a script.  A block is read as a row of points, in reading order.  At each
point something is asked of the names visible there: a use asks that its name is visible, a
declaration asks that its name is new, and a construct without a script asks for what is
never met.  A block is well scoped when every point gets what it asks for.

The names visible at a point are those the block starts with, those declared by earlier
statements of the same block or of a block around it, and the names and parameters of the
functions around it.  A branch or a body hands nothing on, so what is declared inside one is
seen neither after it nor in a branch beside it.

Main statement: lowering without a bound or an interrupt succeeds on exactly the well-scoped
blocks, and fails elsewhere with the fault of the first point that does not get what it asks
for.
-/

namespace Lowlang.Script

/-! ## Points -/

/-- What a point asks of the names visible there. -/
inductive Demand where
  /-- The name is used, so it has to be visible. -/
  | known (name : String) (pos : Pos)
  /-- The name is declared, so it must not be visible yet. -/
  | fresh (name : String) (pos : Pos)
  /-- The construct has no script. -/
  | never (construct : String) (pos : Pos)

/-- A demand with the names visible where it is made. -/
structure Point where
  visible : List String
  demand : Demand

namespace Point

/-- Whether the point gets what it asks for. -/
def Holds (p : Point) : Prop :=
  match p.demand with
  | .known n _ => n ∈ p.visible
  | .fresh n _ => n ∉ p.visible
  | .never _ _ => False

instance : (p : Point) → Decidable p.Holds
  | ⟨visible, .known n _⟩ => inferInstanceAs (Decidable (n ∈ visible))
  | ⟨visible, .fresh n _⟩ => inferInstanceAs (Decidable (n ∉ visible))
  | ⟨_, .never _ _⟩ => inferInstanceAs (Decidable False)

/-- The fault of a point that does not get what it asks for. -/
def fault (p : Point) : Fault :=
  match p.demand with
  | .known n pos => .nameNotFound n pos
  | .fresh n pos => .namePresent n pos
  | .never c pos => unsupported c pos

/-- The fault of the first point that does not get what it asks for. -/
def firstFault : List Point → Option Fault
  | [] => none
  | p :: ps => if p.Holds then firstFault ps else some p.fault

theorem firstFault_append (ps qs : List Point) :
    firstFault (ps ++ qs) = (firstFault ps).or (firstFault qs) := by
  induction ps with
  | nil => rfl
  | cons p ps ih =>
    by_cases h : p.Holds
    · simp [firstFault, h, ih]
    · simp [firstFault, h]

theorem firstFault_eq_none {ps : List Point} : firstFault ps = none ↔ ∀ p ∈ ps, p.Holds := by
  induction ps with
  | nil => simp [firstFault]
  | cons p ps ih =>
    by_cases h : p.Holds
    · simp [firstFault, h, ih]
    · simp [firstFault, h]

/-- The first fault belongs to a point whose predecessors all get what they ask for. -/
theorem firstFault_eq_some {ps : List Point} {f : Fault} :
    firstFault ps = some f ↔ ∃ before p after,
      ps = before ++ p :: after ∧ (∀ q ∈ before, q.Holds) ∧ ¬ p.Holds ∧ f = p.fault := by
  constructor
  · intro h
    induction ps with
    | nil => cases h
    | cons p ps ih =>
      by_cases hp : p.Holds
      · rw [firstFault, if_pos hp] at h
        obtain ⟨before, q, after, rfl, hbefore, hq, hf⟩ := ih h
        refine ⟨p :: before, q, after, rfl, ?_, hq, hf⟩
        intro r hr
        rcases List.mem_cons.mp hr with rfl | hr
        · exact hp
        · exact hbefore r hr
      · rw [firstFault, if_neg hp] at h
        exact ⟨[], p, ps, rfl, by simp, hp, (Option.some.inj h).symm⟩
  · rintro ⟨before, p, after, rfl, hbefore, hp, rfl⟩
    rw [firstFault_append, firstFault_eq_none.mpr hbefore, Option.none_or, firstFault, if_neg hp]

end Point

mutual

/-- The points of a value.  A one-operand operator has no use for its second operand. -/
def valuePoints (visible : List String) : Value → List Point
  | .absent => [⟨visible, .never "nil value" .none⟩]
  | .int _ _ | .uint _ _ | .byte _ _ | .char _ _ | .bool _ _ => []
  | .list _ elems => elemPoints visible elems
  | .custom _ _ fields => fieldPoints visible fields
  | .type p _ => [⟨visible, .never "type value" p⟩]
  | .name p n => [⟨visible, .known n p⟩]
  | .call p n args => ⟨visible, .known n p⟩ :: elemPoints visible args
  | .operator _ op x y =>
    valuePoints visible x ++ if op.isUnary then [] else valuePoints visible y
  | .other p k _ _ => [⟨visible, .never (Kind.name ⟨k⟩) p⟩]
termination_by structural v => v

/-- The points of values in order. -/
def elemPoints (visible : List String) : List Value → List Point
  | [] => []
  | v :: vs => valuePoints visible v ++ elemPoints visible vs
termination_by structural v => v

/-- The points of the members of an aggregate in order. -/
def fieldPoints (visible : List String) : List (String × Value) → List Point
  | [] => []
  | (_, v) :: fields => valuePoints visible v ++ fieldPoints visible fields
termination_by structural v => v

end

/-- The names a statement declares for the statements after it. -/
def introduced : Stmt → List String
  | .declare _ n _ _ => [n]
  | .function _ n _ _ _ => [n]
  | _ => []

/-- The points of parameters, each of which is visible to those after it. -/
def paramPoints (visible : List String) (pos : Pos) : List Param → List Point
  | [] => []
  | p :: ps => ⟨visible, .fresh p.name pos⟩ :: paramPoints (p.name :: visible) pos ps

/-- The names visible in the body of a function with the given parameters. -/
def bodyVisible (visible : List String) (params : List Param) : List String :=
  (params.map Param.name).reverse ++ visible

mutual

/-- The points of a statement.  The first value of a variable does not see the variable,
the body of a function sees the function and its parameters. -/
def stmtPoints (visible : List String) : Stmt → List Point
  | .absent => [⟨visible, .never "nil statement" .none⟩]
  | .eval _ v => valuePoints visible v
  | .declare p n _ v => valuePoints visible v ++ [⟨visible, .fresh n p⟩]
  | .assign p n v => ⟨visible, .known n p⟩ :: valuePoints visible v
  | .function p n params _ body =>
    ⟨visible, .fresh n p⟩ :: (paramPoints (n :: visible) p params
      ++ blockPoints (bodyVisible (n :: visible) params) body)
  | .branch _ test body elifs otherwise =>
    valuePoints visible test ++ (blockPoints visible body ++ (elifPoints visible elifs
      ++ otherwisePoints visible otherwise))
  | .other p k => [⟨visible, .never (Stmt.kindNameOf k) p⟩]
termination_by structural s => s

/-- The points of a block: each statement sees what those before it declare. -/
def blockPoints (visible : List String) : List Stmt → List Point
  | [] => []
  | s :: ss => stmtPoints visible s ++ blockPoints (introduced s ++ visible) ss
termination_by structural s => s

/-- The points of the further tests of a conditional, which all see the same names. -/
def elifPoints (visible : List String) : List (Value × List Stmt) → List Point
  | [] => []
  | (test, body) :: rest =>
    valuePoints visible test ++ (blockPoints visible body ++ elifPoints visible rest)
termination_by structural s => s

/-- The points of the final branch of a conditional. -/
def otherwisePoints (visible : List String) : Option (List Stmt) → List Point
  | none => []
  | some body => blockPoints visible body
termination_by structural s => s

end

/-- A block is well scoped when every point of it gets what it asks for. -/
def WellScoped (visible : List String) (b : Block) : Prop :=
  ∀ p ∈ blockPoints visible b, p.Holds

/-- The names that the statements of a block themselves declare, last first. -/
def declared : Block → List String
  | [] => []
  | s :: ss => declared ss ++ introduced s

/-- What follows a front part of a block sees, of its names, only those that the statements
of the front part themselves declare. -/
theorem blockPoints_append (visible : List String) (front rest : Block) :
    blockPoints visible (front ++ rest) =
      blockPoints visible front ++ blockPoints (declared front ++ visible) rest := by
  induction front generalizing visible with
  | nil => rfl
  | cons s front ih =>
    rw [List.cons_append, blockPoints, blockPoints, ih, declared, List.append_assoc,
      List.append_assoc]

/-! ## The names of a registry -/

theorem find_isSome (name : String) (ds : List Decl) :
    (Registry.find name ds).isSome ↔ name ∈ ds.map Decl.name := by
  induction ds with
  | nil => simp [Registry.find]
  | cons d ds ih =>
    by_cases h : d.name = name
    · simp [Registry.find, h]
    · simp only [Registry.find, if_neg h, ih, List.map_cons, List.mem_cons]
      exact ⟨Or.inr, fun hn => hn.resolve_left fun e => h e.symm⟩

theorem mem_place (name : String) (d : Decl) (ds : List Decl) :
    name ∈ (Registry.place d ds).map Decl.name ↔ name = d.name ∨ name ∈ ds.map Decl.name := by
  induction ds with
  | nil => simp [Registry.place]
  | cons e es ih =>
    by_cases h : d.name < e.name
    · simp [Registry.place, h]
    · simp only [Registry.place, if_neg h, List.map_cons, List.mem_cons, ih]
      exact or_left_comm

/-- The registry declares exactly the names of `visible`. -/
def Shows (scope : Registry) (visible : List String) : Prop :=
  ∀ n, scope.contains n ↔ n ∈ visible

theorem shows_names (scope : Registry) : Shows scope scope.names :=
  fun n => find_isSome n scope.entries

theorem Shows.insert {scope : Registry} {visible : List String} (h : Shows scope visible)
    (name : String) (type : Ty) : Shows (scope.insert name type) (name :: visible) := by
  intro n
  rw [List.mem_cons]
  by_cases hc : scope.contains name
  · rw [Registry.insert, if_pos hc, h n]
    exact ⟨Or.inr, fun hn => hn.elim (fun e => e ▸ (h name).mp hc) id⟩
  · rw [Registry.insert, if_neg hc]
    exact (find_isSome n _).trans ((mem_place n ⟨name, type⟩ scope.entries).trans
      (or_congr Iff.rfl ((find_isSome n scope.entries).symm.trans (h n))))

/-! ## Work that settles points -/

/-- The result answers the points: it is the fault of the first one that does not get what
it asks for, or else a result with the property `Q`. -/
def Settles {α : Type} (ps : List Point) (Q : α → Prop) (e : Except Fault α) : Prop :=
  match Point.firstFault ps with
  | some f => e = .error f
  | none => ∃ a, e = .ok a ∧ Q a

namespace Settles

variable {α β : Type} {ps qs : List Point} {Q : α → Prop} {R : β → Prop} {e : Except Fault α}

theorem ok {a : α} (h : Q a) : Settles [] Q (.ok a) :=
  ⟨a, rfl, h⟩

theorem firstFault_of_error {f : Fault} (h : Settles ps Q (.error f)) :
    Point.firstFault ps = some f := by
  unfold Settles at h
  cases hf : Point.firstFault ps with
  | some g =>
    rw [hf] at h
    rw [Except.error.inj h]
  | none =>
    rw [hf] at h
    obtain ⟨a, ha, _⟩ := h
    cases ha

theorem firstFault_of_ok {a : α} (h : Settles ps Q (.ok a)) :
    Point.firstFault ps = none ∧ Q a := by
  unfold Settles at h
  cases hf : Point.firstFault ps with
  | some g =>
    rw [hf] at h
    cases h
  | none =>
    rw [hf] at h
    obtain ⟨b, hb, hq⟩ := h
    rw [Except.ok.inj hb]
    exact ⟨rfl, hq⟩

/-- Points that are met before others leave those to be settled. -/
theorem after_met {e : Except Fault β} (hp : Point.firstFault ps = none) (h : Settles qs R e) :
    Settles (ps ++ qs) R e := by
  unfold Settles
  rw [Point.firstFault_append, hp, Option.none_or]
  exact h

/-- A point that is not met decides the result, whatever comes after. -/
theorem stops {f : Fault} (hp : Point.firstFault ps = some f) :
    Settles (ps ++ qs) R (.error f) := by
  unfold Settles
  rw [Point.firstFault_append, hp, Option.some_or]

/-- A later step is only taken when the points before it are met. -/
theorem bind {k : α → Except Fault β} (h : Settles ps Q e)
    (hk : ∀ a, Q a → Settles qs R (k a)) : Settles (ps ++ qs) R (e >>= k) := by
  cases e with
  | error f => exact stops h.firstFault_of_error
  | ok a =>
    obtain ⟨hp, ha⟩ := h.firstFault_of_ok
    exact (hk a ha).after_met hp

theorem map {g : α → β} (h : Settles ps Q e) (hg : ∀ a, Q a → R (g a)) :
    Settles ps R (e >>= fun a => .ok (g a)) := by
  have hmap : Settles (ps ++ []) R (e >>= fun a => .ok (g a)) := h.bind fun a ha => ok (hg a ha)
  rwa [List.append_nil] at hmap

/-- A point that gets what it asks for leaves the rest to be settled. -/
theorem met {p : Point} (hp : p.Holds) (h : Settles ps Q e) : Settles (p :: ps) Q e := by
  have hfirst : Point.firstFault [p] = none := by
    rw [Point.firstFault, if_pos hp, Point.firstFault]
  exact h.after_met hfirst

/-- A point that does not get what it asks for decides the result. -/
theorem unmet {p : Point} (hp : ¬ p.Holds) : Settles (p :: ps) Q (.error p.fault) := by
  have hfirst : Point.firstFault [p] = some p.fault := by
    rw [Point.firstFault, if_neg hp]
  exact stops hfirst

/-- A construct without a script. -/
theorem refuse (visible : List String) (c : String) (pos : Pos) :
    Settles (⟨visible, .never c pos⟩ :: ps) Q (.error (unsupported c pos)) :=
  unmet id

/-- A test for a name that has to be visible. -/
theorem known {scope : Registry} {visible : List String} (hs : Shows scope visible)
    {n : String} {pos : Pos} (h : Settles ps Q e) :
    Settles (⟨visible, .known n pos⟩ :: ps) Q
      (if scope.contains n then e else .error (.nameNotFound n pos)) := by
  by_cases hn : scope.contains n
  · rw [if_pos hn]
    exact h.met ((hs n).mp hn)
  · rw [if_neg hn]
    exact unmet fun hm => hn ((hs n).mpr hm)

/-- A declaration asks for a new name, which is visible afterwards. -/
theorem add {scope : Registry} {visible : List String} (hs : Shows scope visible)
    (n : String) (type : Ty) (pos : Pos) :
    Settles [⟨visible, .fresh n pos⟩] (Shows · (n :: visible)) (scope.add n type pos) := by
  by_cases hn : scope.contains n
  · rw [Registry.add, if_pos hn]
    exact unmet fun hm => hm ((hs n).mp hn)
  · rw [Registry.add, if_neg hn]
    refine met (fun hm => hn ((hs n).mpr hm)) (ok ?_)
    exact hs.insert n type

/-- Parameters are declared one after the other. -/
theorem declareParams {scope : Registry} {visible : List String} (hs : Shows scope visible)
    (pos : Pos) (params : List Param) :
    Settles (paramPoints visible pos params) (Shows · (bodyVisible visible params))
      (Script.declareParams pos params scope) := by
  induction params generalizing scope visible with
  | nil => exact ok hs
  | cons p params ih =>
    refine (add hs p.name p.type pos).bind fun inner hinner => ?_
    have hbody : bodyVisible visible (p :: params) = bodyVisible (p.name :: visible) params := by
      simp [bodyVisible]
    rw [hbody]
    exact ih hinner

end Settles

mutual

/-- A value has a script when its points are met. -/
theorem settles_value {scope : Registry} {visible : List String} (hs : Shows scope visible) :
    ∀ v : Value, Settles (valuePoints visible v) (fun _ => True) (value scope v)
  | .absent => .refuse visible _ _
  | .int _ _ | .uint _ _ | .byte _ _ | .char _ _ | .bool _ _ => .ok trivial
  | .list _ elems => (settles_values hs elems).map fun _ _ => trivial
  | .custom _ _ fields => (settles_members hs fields).map fun _ _ => trivial
  | .type p _ => .refuse visible _ p
  | .name p n => (Settles.ok trivial).known hs
  | .call p n args => ((settles_values hs args).map fun _ _ => trivial).known hs
  | .operator _ op x y => by
    refine (settles_value hs x).bind fun a _ => ?_
    cases hop : op.isUnary with
    | true => exact .ok trivial
    | false => exact (settles_value hs y).map fun _ _ => trivial
  | .other p k _ _ => .refuse visible _ p
termination_by structural v => v

/-- Values in order have scripts when all their points are met. -/
theorem settles_values {scope : Registry} {visible : List String} (hs : Shows scope visible) :
    ∀ vs : List Value, Settles (elemPoints visible vs) (fun _ => True) (values scope vs)
  | [] => .ok trivial
  | v :: vs =>
    (settles_value hs v).bind fun _ _ => (settles_values hs vs).map fun _ _ => trivial
termination_by structural vs => vs

/-- The members of an aggregate have scripts when all their points are met. -/
theorem settles_members {scope : Registry} {visible : List String} (hs : Shows scope visible) :
    ∀ fields : List (String × Value),
      Settles (fieldPoints visible fields) (fun _ => True) (members scope fields)
  | [] => .ok trivial
  | (_, v) :: fields =>
    (settles_value hs v).bind fun _ _ => (settles_members hs fields).map fun _ _ => trivial
termination_by structural fields => fields

end

/-! ## Statements -/

/-- The work answers the points, whatever progress was made before it. -/
def Answers {α : Type} (ps : List Point) (Q : α → Prop) (w : Work α) : Prop :=
  ∃ e, (∀ p, (w.run.run p).1 = e) ∧ Settles ps Q e

namespace Answers

variable {α β : Type} {ps qs : List Point} {Q : α → Prop} {R : β → Prop} {w : Work α}

theorem ret {a : α} (h : Q a) : Answers [] Q (pure a) :=
  ⟨.ok a, fun _ => rfl, .ok h⟩

theorem refuse (visible : List String) (c : String) (pos : Pos) :
    Answers (⟨visible, .never c pos⟩ :: ps) Q (throw (unsupported c pos)) :=
  ⟨_, fun _ => rfl, .refuse visible c pos⟩

theorem lift {e : Except Fault α} (h : Settles ps Q e) : Answers ps Q (liftExcept e) := by
  cases e with
  | ok a => exact ⟨.ok a, fun _ => rfl, h⟩
  | error f => exact ⟨.error f, fun _ => rfl, h⟩

theorem bind {k : α → Work β} (h : Answers ps Q w) (hk : ∀ a, Q a → Answers qs R (k a)) :
    Answers (ps ++ qs) R (w >>= k) := by
  obtain ⟨e, hrun, he⟩ := h
  cases e with
  | error f =>
    refine ⟨.error f, fun p => ?_, Settles.stops he.firstFault_of_error⟩
    rw [run_bind, hrun p]
  | ok a =>
    obtain ⟨hp, ha⟩ := he.firstFault_of_ok
    obtain ⟨e, hrest, hsettles⟩ := hk a ha
    refine ⟨e, fun p => ?_, hsettles.after_met hp⟩
    rw [run_bind, hrun p]
    exact hrest _

/-- A step that asks for nothing. -/
theorem step {k : α → Work β} (h : Answers [] Q w) (hk : ∀ a, Q a → Answers qs R (k a)) :
    Answers qs R (w >>= k) :=
  h.bind hk

theorem map {g : α → β} (h : Answers ps Q w) (hg : ∀ a, Q a → R (g a)) :
    Answers ps R (w >>= fun a => pure (g a)) := by
  have hmap : Answers (ps ++ []) R (w >>= fun a => pure (g a)) :=
    h.bind fun a ha => ret (hg a ha)
  rwa [List.append_nil] at hmap

/-- A test for a name that has to be visible. -/
theorem known {scope : Registry} {visible : List String} (hs : Shows scope visible)
    {n : String} {pos : Pos} (h : Answers ps Q w) :
    Answers (⟨visible, .known n pos⟩ :: ps) Q
      (if scope.contains n then w else throw (.nameNotFound n pos)) := by
  obtain ⟨e, hrun, he⟩ := h
  refine ⟨if scope.contains n then e else .error (.nameNotFound n pos), fun p => ?_, he.known hs⟩
  by_cases hn : scope.contains n
  · rw [if_pos hn, if_pos hn]
    exact hrun p
  · rw [if_neg hn, if_neg hn]
    rfl

theorem checkpoint {interrupt : Option Interrupt} (h : interrupt = none) :
    Answers [] (fun _ => True) (Script.checkpoint interrupt) := by
  subst h
  exact ⟨.ok (), fun _ => rfl, .ok trivial⟩

theorem reached (s : Stmt) (depth : Nat) :
    Answers [] (fun _ => True) (Script.reached s depth) :=
  ⟨.ok (), fun _ => rfl, .ok trivial⟩

theorem checkDepth {cfg : Settings} (h : cfg.maxDepth ≤ 0) (depth : Nat) (pos : Pos) :
    Answers [] (fun _ => True) (Script.checkDepth cfg depth pos) := by
  rw [Script.checkDepth, if_neg fun hd => by omega]
  exact ret trivial

end Answers

/-- Nested blocks are not bounded and the work is not called off. -/
structure Settings.Free (cfg : Settings) : Prop where
  depth : cfg.maxDepth ≤ 0
  interrupt : cfg.interrupt = none

mutual

/-- A statement has a script when its points are met, and leaves the names it declares. -/
theorem answers_statement {cfg : Settings} (free : cfg.Free) {depth : Nat} {scope : Registry}
    {visible : List String} (hs : Shows scope visible) : ∀ s : Stmt,
    Answers (stmtPoints visible s) (fun r => Shows r.2 (introduced s ++ visible))
      (statement cfg depth scope s)
  | .absent => .refuse visible _ _
  | .eval _ v => (Answers.lift (settles_value hs v)).map fun _ _ => hs
  | .declare p n t v => by
    refine (Answers.lift (settles_value hs v)).bind fun a _ => ?_
    exact (Answers.lift (Settles.add hs n (t.getD .null) p)).map fun _ h => h
  | .assign p n v => by
    refine Answers.known hs ?_
    exact (Answers.lift (settles_value hs v)).map fun _ _ => hs
  | .function p n params result body => by
    refine (Answers.lift (Settles.add hs n (Stmt.signature params result) p)).bind
      fun outer houter => ?_
    refine (Answers.lift (Settles.declareParams houter p params)).bind fun inner hinner => ?_
    refine (Answers.checkDepth free.depth (depth + 1) p).step fun _ _ => ?_
    exact (answers_statements free hinner body).map fun _ _ => houter
  | .branch p test body elifs otherwise => by
    refine (Answers.lift (settles_value hs test)).bind fun t _ => ?_
    refine (Answers.checkDepth free.depth (depth + 1) p).step fun _ _ => ?_
    refine (answers_statements free hs body).bind fun s _ => ?_
    refine (answers_furtherTests free hs p elifs).bind fun more _ => ?_
    exact (answers_finalBranch free hs p otherwise).map fun _ _ => hs
  | .other p k => .refuse visible _ p
termination_by structural s => s

/-- A block has a script when its points are met. -/
theorem answers_statements {cfg : Settings} (free : cfg.Free) {depth : Nat} {scope : Registry}
    {visible : List String} (hs : Shows scope visible) : ∀ ss : List Stmt,
    Answers (blockPoints visible ss) (fun _ => True) (statements cfg depth scope ss)
  | [] => .ret trivial
  | s :: ss => by
    by_cases h : s = .absent
    · subst h
      refine (Answers.checkpoint free.interrupt).step fun _ _ => ?_
      exact .refuse visible _ _
    · rw [statements_cons h]
      refine (Answers.checkpoint free.interrupt).step fun _ _ => ?_
      refine (Answers.reached s depth).step fun _ _ => ?_
      refine (answers_statement free hs s).bind fun r hr => ?_
      exact (answers_statements free hr ss).map fun _ _ => trivial
termination_by structural ss => ss

/-- The further tests of a conditional have a script when their points are met. -/
theorem answers_furtherTests {cfg : Settings} (free : cfg.Free) {depth : Nat} {scope : Registry}
    {visible : List String} (hs : Shows scope visible) (pos : Pos) :
    ∀ elifs : List (Value × List Stmt),
    Answers (elifPoints visible elifs) (fun _ => True) (furtherTests cfg depth scope pos elifs)
  | [] => .ret trivial
  | (test, body) :: rest => by
    refine (Answers.lift (settles_value hs test)).bind fun t _ => ?_
    refine (Answers.checkDepth free.depth (depth + 1) pos).step fun _ _ => ?_
    refine (answers_statements free hs body).bind fun s _ => ?_
    exact (answers_furtherTests free hs pos rest).map fun _ _ => trivial
termination_by structural elifs => elifs

/-- The final branch of a conditional has a script when its points are met. -/
theorem answers_finalBranch {cfg : Settings} (free : cfg.Free) {depth : Nat} {scope : Registry}
    {visible : List String} (hs : Shows scope visible) (pos : Pos) :
    ∀ otherwise : Option (List Stmt),
    Answers (otherwisePoints visible otherwise) (fun _ => True)
      (finalBranch cfg depth scope pos otherwise)
  | none => .ret trivial
  | some body => by
    refine (Answers.checkDepth free.depth (depth + 1) pos).step fun _ _ => ?_
    exact (answers_statements free hs body).map fun _ _ => trivial
termination_by structural otherwise => otherwise

end

/-- Lowering a whole block settles its points. -/
theorem settles_compile {cfg : Settings} (free : cfg.Free) (scope : Registry) (b : Block) :
    Settles (blockPoints scope.names b) (fun _ => True) (compile cfg scope b) := by
  obtain ⟨e, hrun, he⟩ := answers_statements free (shows_names scope) b
  have hresult : compile cfg scope b = e := hrun {}
  rw [hresult]
  exact he

/-! ## Main statement -/

/-- Without a bound and an interrupt, exactly the well-scoped blocks have a script, and any
other block fails with the fault of its first point that does not get what it asks for.
Behind a front part of the block, the names visible are those before it and those its own
statements declare, and so nothing that is declared inside their branches and bodies. -/
theorem compile_iff_wellScoped {cfg : Settings} (free : cfg.Free) (scope : Registry)
    (b : Block) :
    ((∃ text, compile cfg scope b = .ok text) ↔ WellScoped scope.names b) ∧
    (∀ f, compile cfg scope b = .error f ↔ ∃ before p after,
      blockPoints scope.names b = before ++ p :: after ∧ (∀ q ∈ before, q.Holds) ∧
        ¬ p.Holds ∧ f = p.fault) ∧
    (∀ front rest, b = front ++ rest → blockPoints scope.names b =
      blockPoints scope.names front ++ blockPoints (declared front ++ scope.names) rest) := by
  have h := settles_compile free scope b
  refine ⟨?_, fun f => ?_, ?_⟩
  · rw [WellScoped, ← Point.firstFault_eq_none]
    cases hc : compile cfg scope b with
    | ok text =>
      rw [hc] at h
      exact ⟨fun _ => h.firstFault_of_ok.1, fun _ => ⟨text, rfl⟩⟩
    | error f =>
      rw [hc] at h
      rw [h.firstFault_of_error]
      exact ⟨fun ⟨_, ht⟩ => (nomatch ht), fun hf => (nomatch hf)⟩
  · rw [← Point.firstFault_eq_some]
    cases hc : compile cfg scope b with
    | ok text =>
      rw [hc] at h
      rw [h.firstFault_of_ok.1]
      exact ⟨fun ht => (nomatch ht), fun hf => (nomatch hf)⟩
    | error g =>
      rw [hc] at h
      rw [h.firstFault_of_error]
      exact ⟨fun hg => congrArg some (Except.error.inj hg),
        fun hg => congrArg Except.error (Option.some.inj hg)⟩
  · rintro front rest rfl
    exact blockPoints_append scope.names front rest

/-- A variable declared in a branch is not known behind the conditional. -/
theorem compile_name_behind_branch :
    Settings.Free {} ∧ compile {} .empty
      [.branch .none (.bool .none true) [.declare .none "x" none (.int .none 1)] [] none,
        .eval .none (.name .none "x")] = .error (.nameNotFound "x" .none) := by
  have free : Settings.Free {} := ⟨by decide, rfl⟩
  refine ⟨free, ((compile_iff_wellScoped free .empty _).2.1 _).mpr ?_⟩
  exact ⟨[⟨[], .fresh "x" .none⟩], ⟨[], .known "x" .none⟩, [], rfl, by decide, by decide, rfl⟩

end Lowlang.Script
