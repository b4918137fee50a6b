import Lowlang.Proofs.Script.Work

set_option autoImplicit false

/-!
# Bounds on nested blocks

A bound on the depth of nested blocks either changes nothing or makes lowering fail because of the
bound.  It changes nothing when the block is nested no deeper than the bound, and a block with a
script that is nested deeper has none under the bound.
-/

namespace Lowlang

namespace Stmt

mutual

/-- How deep bodies are nested in a statement: not at all when it has none. -/
def nested : Stmt → Nat
  | .function _ _ _ _ body => nest body + 1
  | .branch _ _ body elifs otherwise =>
    max (nest body + 1) (max (nestElifs elifs) (nestOtherwise otherwise))
  | _ => 0
termination_by structural s => s

/-- How deep bodies are nested in a block.  A body counts whether it holds statements or not. -/
def nest : List Stmt → Nat
  | [] => 0
  | s :: ss => max (nested s) (nest ss)
termination_by structural ss => ss

/-- How deep the bodies behind further tests are nested. -/
def nestElifs : List (Value × List Stmt) → Nat
  | [] => 0
  | (_, body) :: rest => max (nest body + 1) (nestElifs rest)
termination_by structural es => es

/-- How deep a final branch is nested; one that is missing is no body. -/
def nestOtherwise : Option (List Stmt) → Nat
  | none => 0
  | some body => nest body + 1
termination_by structural o => o

end

/-- The bodies that stand directly in a statement. -/
def bodies : Stmt → List Block
  | .function _ _ _ _ body => [body]
  | .branch _ _ body elifs otherwise => body :: elifs.map Prod.snd ++ otherwise.toList
  | _ => []

theorem nestElifs_le {n : Nat} (es : List (Value × List Stmt)) :
    nestElifs es ≤ n ↔ ∀ b ∈ es.map Prod.snd, nest b + 1 ≤ n := by
  induction es with
  | nil => simp [nestElifs]
  | cons e es ih => rw [nestElifs, List.map_cons, List.forall_mem_cons, Nat.max_le, ih]

theorem nested_le {n : Nat} (s : Stmt) : nested s ≤ n ↔ ∀ b ∈ s.bodies, nest b + 1 ≤ n := by
  cases s with
  | function p m ps r body => simp [nested, bodies]
  | branch p t body es o =>
    rw [nested, Nat.max_le, Nat.max_le, nestElifs_le]
    cases o <;> simp [bodies, nestOtherwise, or_imp, forall_and]
  | _ => simp [nested, bodies]

/-- A block is nested one deeper than the deepest of the bodies that stand directly in it. -/
theorem nest_le {n : Nat} (b : Block) :
    nest b ≤ n ↔ ∀ s ∈ b, ∀ c ∈ s.bodies, nest c + 1 ≤ n := by
  induction b with
  | nil => simp [nest]
  | cons s b ih => rw [nest, List.forall_mem_cons, Nat.max_le, ih, nested_le]

end Stmt

namespace Script

/-! ## Two runs, one of them bounded -/

/-- The fault of a block that is nested too deeply. -/
def tooDeep (bound : Int) (pos : Pos) : Fault :=
  .of .maxDepthExceeded [Attr.int "max" bound, pos.attr "pos"]

/-- The settings with another bound. -/
def Settings.bounded (cfg : Settings) (bound : Int) : Settings :=
  { cfg with maxDepth := bound }

/-- Whether a bound lets a block stand at a depth. -/
def Allows (bound : Int) (depth : Nat) : Prop :=
  0 < bound → depth ≤ bound

/-- Under a bound, work runs as it does without one, or it stops because of the bound.  What fits
runs as without the bound, and so does what does not fit only if it fails anyway. -/
def Bounds {α : Type} (bound : Int) (fits : Prop) (free bounded : Work α) : Prop :=
  ∀ p, bounded.run.run p = free.run.run p ∧ (fits ∨ ∃ f, (free.run.run p).1 = .error f) ∨
    ¬ fits ∧ ∃ pos, (bounded.run.run p).1 = .error (tooDeep bound pos)

namespace Bounds

variable {α β : Type} {bound : Int} {F G : Prop}

/-- Work in which the bound plays no part. -/
theorem same (w : Work α) : Bounds bound True w w :=
  fun _ => .inl ⟨rfl, .inl trivial⟩

theorem stop (f : Fault) : Bounds bound F (throw f : Work α) (throw f) :=
  fun _ => .inl ⟨rfl, .inr ⟨f, rfl⟩⟩

theorem of_iff {free bounded : Work α} (h : Bounds bound F free bounded) (hF : F ↔ G) :
    Bounds bound G free bounded := by
  intro p
  rw [← hF]
  exact h p

/-- A later step is taken only when the first fits, for else the first failed. -/
theorem bind {free bounded : Work α} {k k' : α → Work β} (h : Bounds bound F free bounded)
    (hk : F → ∀ a, Bounds bound G (k a) (k' a)) :
    Bounds bound (F ∧ G) (free >>= k) (bounded >>= k') := by
  intro p
  rcases h p with ⟨hsame, hfits⟩ | ⟨hfits, pos, hdeep⟩
  · rcases hfree : free.run.run p with ⟨r, q⟩
    rw [hfree] at hsame hfits
    cases r with
    | error f =>
      rw [Stateful.run_bind_of_error hfree, Stateful.run_bind_of_error hsame]
      exact .inl ⟨rfl, .inr ⟨f, rfl⟩⟩
    | ok a =>
      have hF : F := hfits.resolve_right fun ⟨_, hf⟩ => nomatch hf
      rw [Stateful.run_bind_of_ok hfree, Stateful.run_bind_of_ok hsame]
      rcases hk hF a q with ⟨hrest, hG⟩ | ⟨hG, hdeep⟩
      · exact .inl ⟨hrest, hG.imp_left fun hG => ⟨hF, hG⟩⟩
      · exact .inr ⟨fun hboth => hG hboth.2, hdeep⟩
  · rcases hbounded : bounded.run.run p with ⟨r, q⟩
    rw [hbounded] at hdeep
    cases hdeep
    rw [Stateful.run_bind_of_error hbounded]
    exact .inr ⟨fun hboth => hfits hboth.1, pos, rfl⟩

/-- A step in which the bound plays no part. -/
theorem step {w : Work α} {k k' : α → Work β} (hk : ∀ a, Bounds bound G (k a) (k' a)) :
    Bounds bound G (w >>= k) (w >>= k') :=
  ((same w).bind fun _ => hk).of_iff (Iff.of_eq (true_and G))

theorem map {free bounded : Work α} {g : α → β} (h : Bounds bound F free bounded) :
    Bounds bound F (free >>= fun a => pure (g a)) (bounded >>= fun a => pure (g a)) :=
  (h.bind fun _ _ => same _).of_iff (Iff.of_eq (and_true F))

theorem checkDepth (cfg : Settings) (depth : Nat) (pos : Pos) :
    Bounds bound (Allows bound depth) (Script.checkDepth (cfg.bounded 0) depth pos)
      (Script.checkDepth (cfg.bounded bound) depth pos) := by
  have hfree : Script.checkDepth (cfg.bounded 0) depth pos = pure () :=
    if_neg fun h => absurd h.1 (Int.lt_irrefl 0)
  rw [hfree]
  by_cases hfits : Allows bound depth
  · have hbounded : Script.checkDepth (cfg.bounded bound) depth pos = pure () :=
      if_neg fun h => absurd (hfits h.1) (Int.not_le.mpr h.2)
    rw [hbounded]
    exact (same _).of_iff (iff_of_true trivial hfits)
  · have hdeep : 0 < bound ∧ bound < depth := by
      unfold Allows at hfits
      omega
    have hbounded : Script.checkDepth (cfg.bounded bound) depth pos
        = throw (tooDeep bound pos) := if_pos hdeep
    rw [hbounded]
    exact fun _ => .inr ⟨hfits, pos, rfl⟩

end Bounds

/-- A body one level down fits when it may stand there and what is nested in it fits. -/
theorem allows_body {bound : Int} {depth n : Nat} :
    Allows bound (depth + 1) ∧ Allows bound (depth + 1 + n) ↔ Allows bound (depth + (n + 1)) := by
  unfold Allows
  omega

theorem allows_max {bound : Int} {depth m n : Nat} :
    Allows bound (depth + m) ∧ Allows bound (depth + n) ↔ Allows bound (depth + max m n) := by
  unfold Allows
  omega

mutual

/-- Lowering a statement fits when the bodies nested in it do. -/
theorem bounds_statement (cfg : Settings) (bound : Int) {depth : Nat} (hd : Allows bound depth)
    {scope : Registry} : ∀ s : Stmt,
      Bounds bound (Allows bound (depth + s.nested)) (statement (cfg.bounded 0) depth scope s)
        (statement (cfg.bounded bound) depth scope s)
  | .absent => .stop _
  | .eval _ v => (Bounds.same _).of_iff (iff_of_true trivial hd)
  | .declare _ n t v => (Bounds.same _).of_iff (iff_of_true trivial hd)
  | .assign p n v => (Bounds.same _).of_iff (iff_of_true trivial hd)
  | .function p n params result body => by
    refine .step fun outer => .step fun inner => Bounds.of_iff ?_ allows_body
    refine (Bounds.checkDepth cfg (depth + 1) p).bind fun hd _ => ?_
    exact (bounds_statements cfg bound hd body).map
  | .branch p test body elifs otherwise => by
    refine .step fun t => Bounds.of_iff ?_ allows_max
    rw [← allows_body, ← allows_max, and_assoc]
    refine (Bounds.checkDepth cfg (depth + 1) p).bind fun hbody _ => ?_
    refine (bounds_statements cfg bound hbody body).bind fun _ s => ?_
    refine (bounds_furtherTests cfg bound hd p elifs).bind fun _ more => ?_
    exact (bounds_finalBranch cfg bound hd p otherwise).map
  | .other _ _ => .stop _
termination_by structural s => s

/-- Lowering a block fits when the bodies nested in it do. -/
theorem bounds_statements (cfg : Settings) (bound : Int) {depth : Nat} (hd : Allows bound depth)
    {scope : Registry} : ∀ ss : List Stmt,
      Bounds bound (Allows bound (depth + Stmt.nest ss)) (statements (cfg.bounded 0) depth scope ss)
        (statements (cfg.bounded bound) depth scope ss)
  | [] => (Bounds.same _).of_iff (iff_of_true trivial hd)
  | s :: ss => by
    by_cases h : s = .absent
    · subst h
      exact .step fun _ => .stop _
    · rw [statements_cons h, statements_cons h]
      refine .step fun _ => .step fun _ => Bounds.of_iff ?_ allows_max
      refine (bounds_statement cfg bound hd s).bind fun _ r => ?_
      exact (bounds_statements cfg bound hd ss).map
termination_by structural ss => ss

theorem bounds_furtherTests (cfg : Settings) (bound : Int) {depth : Nat} (hd : Allows bound depth)
    {scope : Registry} (pos : Pos) : ∀ elifs : List (Value × List Stmt),
      Bounds bound (Allows bound (depth + Stmt.nestElifs elifs))
        (furtherTests (cfg.bounded 0) depth scope pos elifs)
        (furtherTests (cfg.bounded bound) depth scope pos elifs)
  | [] => (Bounds.same _).of_iff (iff_of_true trivial hd)
  | (test, body) :: rest => by
    refine .step fun t => Bounds.of_iff ?_ allows_max
    rw [← allows_body, and_assoc]
    refine (Bounds.checkDepth cfg (depth + 1) pos).bind fun hbody _ => ?_
    refine (bounds_statements cfg bound hbody body).bind fun _ s => ?_
    exact (bounds_furtherTests cfg bound hd pos rest).map
termination_by structural elifs => elifs

theorem bounds_finalBranch (cfg : Settings) (bound : Int) {depth : Nat} (hd : Allows bound depth)
    {scope : Registry} (pos : Pos) : ∀ otherwise : Option (List Stmt),
      Bounds bound (Allows bound (depth + Stmt.nestOtherwise otherwise))
        (finalBranch (cfg.bounded 0) depth scope pos otherwise)
        (finalBranch (cfg.bounded bound) depth scope pos otherwise)
  | none => (Bounds.same _).of_iff (iff_of_true trivial hd)
  | some body => by
    refine Bounds.of_iff ?_ allows_body
    refine (Bounds.checkDepth cfg (depth + 1) pos).bind fun hbody _ => ?_
    exact (bounds_statements cfg bound hbody body).map
termination_by structural otherwise => otherwise

end

/-- Under a bound a block is lowered as without one, or it fails because of the bound. -/
theorem compile_cases (cfg : Settings) (scope : Registry) (b : Block) (bound : Int) :
    compile { cfg with maxDepth := bound } scope b = compile { cfg with maxDepth := 0 } scope b ∧
      (Allows bound (Stmt.nest b) ∨
        ∃ f, compile { cfg with maxDepth := 0 } scope b = .error f) ∨
    ¬ Allows bound (Stmt.nest b) ∧
      ∃ pos, compile { cfg with maxDepth := bound } scope b = .error (tooDeep bound pos) := by
  have htop : Allows bound 0 := fun hpos => Int.le_of_lt hpos
  have hbounds : Bounds bound _ _ (statements (cfg.bounded bound) 0 scope b) :=
    bounds_statements cfg bound htop b
  have hrun := hbounds {}
  rw [Nat.zero_add] at hrun
  exact hrun.imp_left fun ⟨hsame, hfits⟩ => ⟨congrArg Prod.fst hsame, hfits⟩

/-! ## Main statement -/

/-- A bound on nested blocks cuts exactly at the depth of the block, which is one more than that of
the deepest body standing directly in it.  A block that is nested no deeper than the bound is
lowered as without it, whether that succeeds or not.  A block with a script that is nested deeper
fails because of the bound; a block without one fails as before or because of the bound.  A bound of
zero or below is none. -/
theorem compile_bounded (cfg : Settings) (scope : Registry) (b : Block) :
    (∀ n, Stmt.nest b ≤ n ↔ ∀ s ∈ b, ∀ c ∈ s.bodies, Stmt.nest c + 1 ≤ n) ∧
    (∀ bound, 0 < bound →
      let free := compile { cfg with maxDepth := 0 } scope b
      let bounded := compile { cfg with maxDepth := bound } scope b
      (Stmt.nest b ≤ bound → bounded = free) ∧
      (∀ text, free = .ok text → bound < Stmt.nest b →
        ∃ pos, bounded = .error (tooDeep bound pos)) ∧
      (∀ f, free = .error f →
        bounded = .error f ∨ ∃ pos, bounded = .error (tooDeep bound pos))) ∧
    (∀ bound ≤ 0, compile { cfg with maxDepth := bound } scope b =
      compile { cfg with maxDepth := 0 } scope b) := by
  have hruns := compile_cases cfg scope b
  refine ⟨fun n => Stmt.nest_le b, fun bound hpos => ⟨fun hfits => ?_, ?_, ?_⟩, fun bound hle => ?_⟩
  · rcases hruns bound with ⟨hsame, _⟩ | ⟨hdeep, _⟩
    · exact hsame
    · exact absurd (fun _ => hfits) hdeep
  · intro text hfree hdeep
    rcases hruns bound with ⟨_, hfits | ⟨f, hf⟩⟩ | ⟨_, hbounded⟩
    · exact absurd (hfits hpos) (Int.not_le.mpr hdeep)
    · rw [hf] at hfree
      cases hfree
    · exact hbounded
  · intro f hfree
    rcases hruns bound with ⟨hsame, _⟩ | ⟨_, hbounded⟩
    · exact .inl (hsame.trans hfree)
    · exact .inr hbounded
  · rcases hruns bound with ⟨hsame, _⟩ | ⟨hdeep, _⟩
    · exact hsame
    · exact absurd (fun hpos => absurd hpos (Int.not_lt.mpr hle)) hdeep

/-- The empty body of a function counts, and so does the final branch it stands in. -/
theorem compile_bounded_empty_body :
    let b : Block := [.branch .none (.bool .none true) [] []
      (some [.function .none "f" [] none []])]
    let script := "if(true)\x7b\x7delse\x7bfunction f()\x7b\x7d\x7d"
    Stmt.nest b = 2 ∧ compile {} .empty b = .ok script ∧
      compile { maxDepth := 2 } .empty b = .ok script ∧
      ∃ pos, compile { maxDepth := 1 } .empty b = .error (tooDeep 1 pos) := by
  intro b script
  have hfree : compile {} .empty b = .ok script := rfl
  obtain ⟨_, hbound, _⟩ := compile_bounded {} .empty b
  refine ⟨rfl, hfree, ?_, ?_⟩
  · exact ((hbound 2 (by decide)).1 (by decide)).trans hfree
  · exact (hbound 1 (by decide)).2.1 script hfree (by decide)

end Script

end Lowlang
