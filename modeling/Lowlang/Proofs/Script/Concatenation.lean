import Lowlang.Proofs.Script.Work

set_option autoImplicit false

/-!
# Scripts of blocks in a row

The script of two blocks in a row is the script of the first followed by that of the second,
where the second starts from the names that the first leaves.  A block leaves the names it started
from and those its own statements declare; what stands inside their branches and bodies leaves
nothing, whatever it declares.

Two facts carry this.  Work that is never called off has the same result after any progress, so
the second block may as well be lowered on its own.  And a statement that has a script leaves
exactly its own declaration.
-/

namespace Lowlang

/-- The registry with further declarations, of which the first of each name counts. -/
def Registry.extend (r : Registry) (ds : List Decl) : Registry :=
  ds.foldl (fun r d => r.insert d.name d.type) r

theorem Registry.extend_append (r : Registry) (ds es : List Decl) :
    r.extend (ds ++ es) = (r.extend ds).extend es := by
  unfold Registry.extend
  rw [List.foldl_append]

theorem Registry.extend_of_add {r outer : Registry} {name : String} {type : Ty} {pos : Pos}
    (h : r.add name type pos = .ok outer) : outer = r.extend [⟨name, type⟩] := by
  unfold Registry.add at h
  split at h
  · cases h
  · cases h
    rfl

namespace Script

/-! ## Work that is never called off -/

/-- The result of the work is the same after any progress. -/
def Steady {α : Type} (w : Work α) : Prop :=
  ∀ p q, (w.run.run p).1 = (w.run.run q).1

/-- The result of work on its own. -/
def resultOf {α : Type} (w : Work α) : Except Fault α :=
  (w.run.run {}).1

namespace Steady

variable {α β : Type}

theorem ret (a : α) : Steady (pure a : Work α) :=
  fun _ _ => rfl

theorem stop (f : Fault) : Steady (throw f : Work α) :=
  fun _ _ => rfl

theorem lift (e : Except Fault α) : Steady (liftExcept e) := by
  intro p q
  cases e with
  | ok a => rfl
  | error f => rfl

theorem bind {w : Work α} {k : α → Work β} (h : Steady w) (hk : ∀ a, Steady (k a)) :
    Steady (w >>= k) := by
  intro p q
  rw [run_bind, run_bind, h p q]
  cases (w.run.run q).1 with
  | error f => rfl
  | ok a => exact hk a _ _

theorem checkpoint {interrupt : Option Interrupt} (h : interrupt = none) :
    Steady (Script.checkpoint interrupt) := by
  subst h
  exact fun _ _ => rfl

theorem reached (s : Stmt) (depth : Nat) : Steady (Script.reached s depth) :=
  fun _ _ => rfl

theorem checkDepth (cfg : Settings) (depth : Nat) (pos : Pos) :
    Steady (Script.checkDepth cfg depth pos) := by
  unfold Script.checkDepth
  split
  · exact stop _
  · exact ret ()

end Steady

theorem resultOf_bind {α β : Type} {w : Work α} {k : α → Work β} (hk : ∀ a, Steady (k a)) :
    resultOf (w >>= k) = resultOf w >>= fun a => resultOf (k a) := by
  unfold resultOf
  rw [run_bind]
  cases (w.run.run {}).1 with
  | error f => rfl
  | ok a => exact hk a _ _

/-- A step that succeeds with nothing to tell leaves the result to what follows. -/
theorem resultOf_step {α : Type} {w : Work Unit} {k : Unit → Work α} (h : resultOf w = .ok ())
    (hk : ∀ u, Steady (k u)) : resultOf (w >>= k) = resultOf (k ()) := by
  rw [resultOf_bind hk, h]
  rfl

mutual

theorem steady_statement {cfg : Settings} (never : cfg.interrupt = none) {depth : Nat}
    {scope : Registry} : ∀ s : Stmt, Steady (statement cfg depth scope s)
  | .absent => .stop _
  | .eval _ v => (Steady.lift _).bind fun _ => .ret _
  | .declare _ _ _ v => (Steady.lift _).bind fun _ => (Steady.lift _).bind fun _ => .ret _
  | .assign p n v => by
    unfold statement
    split
    · exact (Steady.lift _).bind fun _ => .ret _
    · exact .stop _
  | .function p n params result body => by
    refine (Steady.lift _).bind fun outer => (Steady.lift _).bind fun inner => ?_
    refine (Steady.checkDepth cfg (depth + 1) p).bind fun _ => ?_
    exact (steady_statements never body).bind fun _ => .ret _
  | .branch p test body elifs otherwise => by
    refine (Steady.lift _).bind fun t => ?_
    refine (Steady.checkDepth cfg (depth + 1) p).bind fun _ => ?_
    refine (steady_statements never body).bind fun s => ?_
    refine (steady_furtherTests never p elifs).bind fun more => ?_
    exact (steady_finalBranch never p otherwise).bind fun _ => .ret _
  | .other _ _ => .stop _
termination_by structural s => s

theorem steady_statements {cfg : Settings} (never : cfg.interrupt = none) {depth : Nat}
    {scope : Registry} : ∀ ss : List Stmt, Steady (statements cfg depth scope ss)
  | [] => .ret _
  | s :: ss => by
    by_cases h : s = .absent
    · subst h
      exact (Steady.checkpoint never).bind fun _ => .stop _
    · rw [statements_cons h]
      refine (Steady.checkpoint never).bind fun _ => (Steady.reached s depth).bind fun _ => ?_
      refine (steady_statement never s).bind fun r => ?_
      exact (steady_statements never ss).bind fun _ => .ret _
termination_by structural ss => ss

theorem steady_furtherTests {cfg : Settings} (never : cfg.interrupt = none) {depth : Nat}
    {scope : Registry} (pos : Pos) :
    ∀ elifs : List (Value × List Stmt), Steady (furtherTests cfg depth scope pos elifs)
  | [] => .ret _
  | (test, body) :: rest => by
    refine (Steady.lift _).bind fun t => ?_
    refine (Steady.checkDepth cfg (depth + 1) pos).bind fun _ => ?_
    refine (steady_statements never body).bind fun s => ?_
    exact (steady_furtherTests never pos rest).bind fun _ => .ret _
termination_by structural elifs => elifs

theorem steady_finalBranch {cfg : Settings} (never : cfg.interrupt = none) {depth : Nat}
    {scope : Registry} (pos : Pos) :
    ∀ otherwise : Option (List Stmt), Steady (finalBranch cfg depth scope pos otherwise)
  | none => .ret _
  | some body => by
    refine (Steady.checkDepth cfg (depth + 1) pos).bind fun _ => ?_
    exact (steady_statements never body).bind fun _ => .ret _
termination_by structural otherwise => otherwise

end

/-! ## What a statement leaves -/

/-- The declaration that a statement makes for the statements after it. -/
def declares : Stmt → List Decl
  | .declare _ n t _ => [⟨n, t.getD .null⟩]
  | .function _ n params result _ => [⟨n, Stmt.signature params result⟩]
  | _ => []

/-- The declarations that the statements of a block themselves make. -/
def declarations (b : Block) : List Decl :=
  b.flatMap declares

/-- A statement with a script leaves the names it started from and its own declaration. -/
theorem scope_of_statement {cfg : Settings} {depth : Nat} {scope outer : Registry} {s : Stmt}
    {t : String} (h : Gives (statement cfg depth scope s) (t, outer)) :
    outer = scope.extend (declares s) := by
  cases s with
  | absent => exact absurd h Gives.not_throw
  | eval p v =>
    obtain ⟨_, _, h⟩ := h.bind
    cases h.ret
    rfl
  | declare p n ty v =>
    obtain ⟨_, _, h⟩ := h.bind
    obtain ⟨_, hadd, h⟩ := h.bind
    cases h.ret
    exact Registry.extend_of_add hadd.lift
  | assign p n v =>
    unfold statement at h
    split at h
    · obtain ⟨_, _, h⟩ := h.bind
      cases h.ret
      rfl
    · exact absurd h Gives.not_throw
  | function p n params result body =>
    obtain ⟨_, hadd, h⟩ := h.bind
    obtain ⟨_, _, h⟩ := h.bind
    obtain ⟨_, _, h⟩ := h.bind
    obtain ⟨_, _, h⟩ := h.bind
    cases h.ret
    exact Registry.extend_of_add hadd.lift
  | branch p test body elifs otherwise =>
    obtain ⟨_, _, h⟩ := h.bind
    obtain ⟨_, _, h⟩ := h.bind
    obtain ⟨_, _, h⟩ := h.bind
    obtain ⟨_, _, h⟩ := h.bind
    obtain ⟨_, _, h⟩ := h.bind
    cases h.ret
    rfl
  | other p k => exact absurd h Gives.not_throw

/-! ## Blocks in a row -/

/-- The script of a block whose first statement is there: the script of the statement, and that
of the others from what the statement leaves. -/
theorem resultOf_cons {cfg : Settings} (never : cfg.interrupt = none) {depth : Nat}
    {scope : Registry} {s : Stmt} (hs : s ≠ .absent) (ss : List Stmt) :
    resultOf (statements cfg depth scope (s :: ss)) = (do
      let r ← resultOf (statement cfg depth scope s)
      let t ← resultOf (statements cfg depth (scope.extend (declares s)) ss)
      return r.1 ++ t) := by
  have hcheckpoint : resultOf (checkpoint cfg.interrupt) = .ok () := by
    rw [never]
    rfl
  have hrest : ∀ r : String × Registry,
      Steady (statements cfg depth r.2 ss >>= fun t => (pure (r.1 ++ t) : Work String)) :=
    fun r => (steady_statements never ss).bind fun _ => .ret _
  rw [statements_cons hs,
    resultOf_step hcheckpoint fun _ => (Steady.reached s depth).bind fun _ =>
      (steady_statement never s).bind hrest,
    resultOf_step rfl fun _ => (steady_statement never s).bind hrest, resultOf_bind hrest]
  cases hfirst : resultOf (statement cfg depth scope s) with
  | error f => rfl
  | ok r =>
    have hscope := scope_of_statement ⟨{}, hfirst⟩
    show resultOf (statements cfg depth r.2 ss >>= _) = _
    rw [hscope, resultOf_bind fun _ => .ret _]
    rfl

/-- Blocks in a row: the script of the first, and that of the second from what the first
leaves. -/
theorem resultOf_append {cfg : Settings} (never : cfg.interrupt = none) (depth : Nat)
    (scope : Registry) (b c : Block) :
    resultOf (statements cfg depth scope (b ++ c)) = (do
      let s ← resultOf (statements cfg depth scope b)
      let t ← resultOf (statements cfg depth (scope.extend (declarations b)) c)
      return s ++ t) := by
  induction b generalizing scope with
  | nil =>
    show resultOf (statements cfg depth scope c)
      = resultOf (statements cfg depth scope c) >>= fun t => Except.ok ("" ++ t)
    cases resultOf (statements cfg depth scope c) with
    | error f => rfl
    | ok t => simp [bind, Except.bind]
  | cons s b ih =>
    by_cases hs : s = .absent
    · subst hs
      have herror : ∀ ss : Block, resultOf (statements cfg depth scope (.absent :: ss))
          = .error (unsupported "nil statement" .none) := by
        intro ss
        unfold resultOf statements
        rw [never]
        rfl
      rw [List.cons_append, herror, herror]
      rfl
    · have hleft : declarations (s :: b) = declares s ++ declarations b := rfl
      rw [List.cons_append, resultOf_cons never hs, resultOf_cons never hs, ih, hleft,
        Registry.extend_append]
      simp only [bind_assoc, pure_bind, String.append_assoc]

/-! ## Main statement -/

/-- Lowering two blocks in a row gives the script of the first followed by that of the second with
the declarations of the first, or fails as the first does, or else as the second does. -/
theorem compile_append {cfg : Settings} (never : cfg.interrupt = none) (scope : Registry)
    (b c : Block) :
    (∀ s, compile cfg scope b = .ok s → compile cfg scope (b ++ c)
      = (compile cfg (scope.extend (declarations b)) c).map (s ++ ·)) ∧
    (∀ f, compile cfg scope b = .error f → compile cfg scope (b ++ c) = .error f) := by
  have happend : compile cfg scope (b ++ c) = _ := resultOf_append never 0 scope b c
  have hfirst : compile cfg scope b = resultOf (statements cfg 0 scope b) := rfl
  rw [happend, hfirst]
  constructor
  · intro s hs
    rw [hs]
    rfl
  · intro f hf
    rw [hf]
    rfl

/-- What a branch declares is not left by the block, and the function it declares is, even where
nested blocks are bounded. -/
theorem compile_append_behind_function :
    let cfg : Settings := { maxDepth := 1 }
    let front : Block :=
      [.branch .none (.bool .none true) [.declare .none "x" none (.int .none 1)] [] none,
        .function .none "f" [⟨"x", .int⟩] (some .int) [.eval .none (.name .none "x")]]
    let rest : Block := [.declare .none "x" none (.call .none "f" [.int .none 2])]
    cfg.interrupt = none ∧ declarations front = [⟨"f", .function [.int] (some .int)⟩] ∧
      compile cfg .empty (front ++ rest)
        = .ok "if(true)\x7blet x=1;\x7dfunction f(x)\x7bx;\x7dlet x=f(2);" := by
  intro cfg front rest
  have hfront : compile cfg .empty front = .ok "if(true)\x7blet x=1;\x7dfunction f(x)\x7bx;\x7d" :=
    rfl
  refine ⟨rfl, rfl, ?_⟩
  rw [(compile_append rfl .empty front rest).1 _ hfront]
  rfl

end Script

end Lowlang
