import Lowlang.Proofs.Program.Holding
import Lowlang.Proofs.Script.Interruption

set_option autoImplicit false

/-!
# Work that is called off

Reading a document asks once about each statement item it is about to read, as lowering asks once
about each statement it comes to.  Main statement: of both, an interrupt that comes after `n`
questions leaves the outcome as it is when there are no more than `n` to ask, and else makes the
outcome its own fault.  The questions of a success are the statements, those of nested bodies
included.
-/

namespace Lowlang.Program

namespace Document

open Lowlang.Yaml (Node)
open Stateful (Heeds)

/-- Reading that counts nothing asks about nothing. -/
theorem heeds_plainly {α : Type} {i : Interrupt} {Q : α → Nat → Prop} {e : Except Fault α}
    (h : ∀ a, e = .ok a → Q a 0) : Heeds id i Q (plainly e) (plainly e) := by
  cases e with
  | ok a => exact Heeds.ret (h a rfl)
  | error f => exact Heeds.stop f

theorem heeds_step {α β : Type} {i : Interrupt} {R : β → Nat → Prop} (e : Except Fault α)
    {k k' : α → Counting β} (hk : ∀ a, Heeds id i R (k a) (k' a)) :
    Heeds id i R (plainly e >>= k) (plainly e >>= k') :=
  Heeds.step (heeds_plainly fun _ _ => rfl) hk

/-- Asking counts itself, and stops with the fault of the interrupt if it is time. -/
theorem run_ask {i : Interrupt} {p : Nat} {stop : Option Fault}
    (h : Interrupt.stops (some i) p = stop) :
    (ask (some i)).run.run p = (stop.elim (.ok ()) .error, p + 1) := by
  unfold ask
  refine (Stateful.run_bind_of_ok (a := p) (q := p) rfl).trans ?_
  refine (Stateful.run_bind_of_ok (q := p + 1) rfl).trans ?_
  rw [h]
  cases stop <;> rfl

theorem heeds_ask {i : Interrupt} : Heeds id i (fun _ n => n = 1) (ask none) (ask (some i)) := by
  refine Heeds.question (· + 1) (fun _ => rfl) (fun _ => rfl) (fun p h => ?_)
    fun p f h => ?_
  · exact run_ask (p := p) h
  · rw [run_ask (p := p) h]
    rfl

/-! ## Statements -/

section

variable (file : String) (i : Interrupt) (fuel : Nat)

def AsksBlocks : Prop :=
  ∀ n : Node, Heeds id i (fun b m => m = Stmt.total b) (block file none fuel n)
    (block file (some i) fuel n)

def AsksStatements : Prop :=
  ∀ ns : List Node, Heeds id i (fun b m => m = Stmt.total b) (statements file none fuel ns)
    (statements file (some i) fuel ns)

def AsksStatement : Prop :=
  ∀ n : Node, Heeds id i (fun s m => m = s.inner) (statement file none fuel n)
    (statement file (some i) fuel n)

def AsksBranch : Prop :=
  ∀ f : Fields, Heeds id i (fun b m => m = Stmt.total b.2) (branch file none fuel f)
    (branch file (some i) fuel f)

def AsksBranches : Prop :=
  ∀ ns : List Node, Heeds id i (fun b m => m = Stmt.totalElifs b) (branches file none fuel ns)
    (branches file (some i) fuel ns)

end

variable {file : String} {i : Interrupt} {fuel : Nat}

theorem AsksStatements.block (h : AsksStatements file i fuel) : AsksBlocks file i (fuel + 1) := by
  intro n
  unfold Document.block
  exact heeds_step _ fun is => h is

theorem AsksStatements.succ (h : AsksStatements file i fuel)
    (hstatement : AsksStatement file i fuel) : AsksStatements file i (fuel + 1) := by
  intro ns
  cases ns with
  | nil =>
    unfold statements
    exact Heeds.ret rfl
  | cons n rest =>
    unfold statements
    refine Heeds.bind heeds_ask fun _ k hk => ?_
    refine Heeds.bind (hstatement n) fun s l hl => ?_
    refine Heeds.map (h rest) fun ss m hm => ?_
    rw [Stmt.total, hk, hl, hm]
    omega

theorem AsksBlocks.branch (h : AsksBlocks file i fuel) : AsksBranch file i (fuel + 1) := by
  intro f
  unfold Document.branch
  refine heeds_step _ fun cn => heeds_step _ fun test => ?_
  cases f.get? "then" with
  | none => exact Heeds.ret rfl
  | some tn => exact Heeds.map (h tn) fun _ _ hb => hb

theorem AsksBranches.succ (h : AsksBranches file i fuel) (hbranch : AsksBranch file i fuel) :
    AsksBranches file i (fuel + 1) := by
  intro ns
  cases ns with
  | nil =>
    unfold branches
    exact Heeds.ret rfl
  | cons n rest =>
    unfold branches
    refine heeds_step _ fun f => ?_
    refine Heeds.bind (hbranch f) fun b k hk => ?_
    refine Heeds.map (h rest) fun bs m hm => ?_
    rw [Stmt.totalElifs, hk, hm]

/-- Further tests ask about the items they guard, before what follows them. -/
theorem AsksBranches.elifs (h : AsksBranches file i fuel) (f : Fields) {α : Type}
    {R : α → Nat → Prop} {k k' : List (Value × Block) → Counting α}
    (hk : ∀ bs n, n = Stmt.totalElifs bs → Heeds id i (fun a m => R a (n + m)) (k bs) (k' bs)) :
    Heeds id i R
      (match f.get? "elif" with
        | some en => do
          let is ← plainly (items file en)
          let bs ← branches file none fuel is
          k bs
        | none => do
          let bs ← pure []
          k bs)
      (match f.get? "elif" with
        | some en => do
          let is ← plainly (items file en)
          let bs ← branches file (some i) fuel is
          k' bs
        | none => do
          let bs ← pure []
          k' bs) := by
  cases f.get? "elif" with
  | none => exact Heeds.bind (Heeds.ret rfl) hk
  | some en => exact heeds_step _ fun is => Heeds.bind (h is) hk

/-- A final branch asks about its items, before what follows it. -/
theorem AsksBlocks.otherwise (h : AsksBlocks file i fuel) (f : Fields) {α : Type}
    {R : α → Nat → Prop} {k k' : Option Block → Counting α}
    (hk : ∀ o n, n = Stmt.totalOtherwise o → Heeds id i (fun a m => R a (n + m)) (k o) (k' o)) :
    Heeds id i R
      (match f.get? "else" with
        | some en => do
          let b ← block file none fuel en
          let o ← pure (some b)
          k o
        | none => do
          let o ← pure none
          k o)
      (match f.get? "else" with
        | some en => do
          let b ← block file (some i) fuel en
          let o ← pure (some b)
          k' o
        | none => do
          let o ← pure none
          k' o) := by
  cases f.get? "else" with
  | none => exact Heeds.bind (Heeds.ret rfl) hk
  | some en =>
    refine Heeds.bind (h en) fun b n hn => ?_
    exact hk (some b) n hn

/-- With one step more, a statement asks about the items of its own bodies. -/
theorem AsksBlocks.statement (h : AsksBlocks file i fuel) (hbranch : AsksBranch file i fuel)
    (hbranches : AsksBranches file i fuel) : AsksStatement file i (fuel + 1) := by
  intro n
  unfold Document.statement
  refine heeds_step _ fun f => ?_
  dsimp only
  split
  · exact heeds_step _ fun v => Heeds.ret rfl
  · next m _ =>
    refine heeds_plainly fun s hs => ?_
    obtain ⟨_, _, hs⟩ := Fault.bind_ok hs
    obtain ⟨_, _, hs⟩ := Fault.bind_ok hs
    obtain ⟨_, _, hs⟩ := Fault.bind_ok hs
    obtain ⟨_, _, hs⟩ := Fault.bind_ok hs
    obtain ⟨_, _, hs⟩ := Fault.bind_ok hs
    cases hs
    rfl
  · next m _ =>
    refine heeds_plainly fun s hs => ?_
    obtain ⟨_, _, hs⟩ := Fault.bind_ok hs
    obtain ⟨_, _, hs⟩ := Fault.bind_ok hs
    obtain ⟨_, _, hs⟩ := Fault.bind_ok hs
    obtain ⟨_, _, hs⟩ := Fault.bind_ok hs
    cases hs
    rfl
  · next m _ =>
    refine heeds_step _ fun f => heeds_step _ fun name => ?_
    refine heeds_step _ fun params => heeds_step _ fun result => ?_
    cases f.get? "body" with
    | none => exact Heeds.ret rfl
    | some bn => exact Heeds.map (h bn) fun _ _ hb => hb
  · next m _ =>
    refine heeds_step _ fun f => Heeds.bind (hbranch f) fun b k hk => ?_
    refine hbranches.elifs f fun es l hl => h.otherwise f fun o m hm => Heeds.ret ?_
    rw [Stmt.inner, hk, hl, hm, Nat.add_zero, Nat.add_assoc]
  · exact heeds_plainly fun s hs => nomatch hs

/-- All that asks with so many steps. -/
structure AsksAll (file : String) (i : Interrupt) (fuel : Nat) : Prop where
  block : AsksBlocks file i fuel
  statements : AsksStatements file i fuel
  statement : AsksStatement file i fuel
  branch : AsksBranch file i fuel
  branches : AsksBranches file i fuel

/-- Without any steps left, reading fails before it asks. -/
theorem AsksAll.zero (file : String) (i : Interrupt) : AsksAll file i 0 where
  block _ := heeds_plainly nofun
  statements ns := by
    cases ns with
    | nil => exact Heeds.ret rfl
    | cons n rest => exact heeds_plainly nofun
  statement _ := heeds_plainly nofun
  branch _ := heeds_plainly nofun
  branches ns := by
    cases ns with
    | nil => exact Heeds.ret rfl
    | cons n rest => exact heeds_plainly nofun

theorem asksAll (file : String) (i : Interrupt) (fuel : Nat) : AsksAll file i fuel := by
  induction fuel with
  | zero => exact .zero file i
  | succ fuel ih =>
    exact ⟨ih.statements.block, ih.statements.succ ih.statement,
      ih.block.statement ih.branch ih.branches, ih.block.branch, ih.branches.succ ih.branch⟩

theorem heeds_ofNode (name : String) (i : Interrupt) (root : Node) :
    Heeds id i (fun p n => n = Stmt.total p.body) (ofNode name none root)
      (ofNode name (some i) root) := by
  refine heeds_step _ fun f => heeds_step _ fun tgt => heeds_step _ fun builtins => ?_
  cases f.get? "body" with
  | none => exact Heeds.ret rfl
  | some n => exact Heeds.map ((asksAll name i _).block n) fun _ _ hn => hn

/-- The number of statement items that reading a text asks about when it is never called off. -/
def itemsAsked (name src : String) : Nat :=
  match root name src with
  | .ok (some n) => ((ofNode name none n).run.run 0).2
  | _ => 0

end Document

theorem parseUntil_eq (interrupt : Option Interrupt) (name src : String) :
    parseUntil interrupt name src =
      match Document.root name src with
      | .error f => .error f
      | .ok none => .ok { name := name }
      | .ok (some n) => ((Document.ofNode name interrupt n).run.run 0).1 := by
  unfold parseUntil
  generalize Document.root name src = r
  cases r with
  | error f => rfl
  | ok n => cases n <;> rfl

/-! ## Main statement -/

/-- Work with the result `free` asks about `m` statements when it is never called off, and has the
result `cut` under the interrupt `i`: the same one if the interrupt lets all questions pass, and
else the fault of the interrupt. -/
def CalledOff {α : Type} (i : Interrupt) (free : Except Fault α) (m : Nat) (cut : Except Fault α) :
    Prop :=
  (m ≤ i.after → cut = free) ∧ (i.after < m → cut = .error i.fault)

theorem calledOff_of_heeds {σ α : Type} {asked : σ → Nat} {i : Interrupt} {Q : α → Nat → Prop}
    {free cut : Stateful σ α} (h : Stateful.Heeds asked i Q free cut) {p : σ} (hp : asked p = 0) :
    CalledOff i (free.run.run p).1 (asked (free.run.run p).2) (cut.run.run p).1 ∧
      ∀ a, (free.run.run p).1 = .ok a → Q a (asked (free.run.run p).2) := by
  obtain ⟨n, hn, hvalue, hcut⟩ := h p
  have hcount : asked (free.run.run p).2 = n := by omega
  have hcut := hcut (by omega)
  rw [hp, Nat.zero_add] at hcut
  rw [hcount]
  refine ⟨⟨fun hle => ?_, fun hlt => ?_⟩, hvalue⟩
  · rw [if_pos hle] at hcut
    rw [hcut]
  · rwa [if_neg (by omega)] at hcut

open Document in
/-- An interrupt calls work off exactly when the work asks about more statements than the interrupt
lets pass, and then its fault is all that is left of the work.  This holds of lowering every block
and of reading every tree and every text; a success has asked about each statement once. -/
theorem called_off_exactly (i : Interrupt) :
    (∀ (cfg : Script.Settings) (scope : Registry) (b : Block),
      let free := Script.lower { cfg with interrupt := none } scope b
      let cut := Script.lower { cfg with interrupt := some i } scope b
      CalledOff i free.result free.asked cut.result ∧
      ∀ text, free.result = .ok text → free.asked = Stmt.total b) ∧
    (∀ (name : String) (root : Yaml.Node),
      let free := (ofNode name none root).run.run 0
      let cut := (ofNode name (some i) root).run.run 0
      CalledOff i free.1 free.2 cut.1 ∧ ∀ p, free.1 = .ok p → free.2 = Stmt.total p.body) ∧
    (∀ name src : String,
      CalledOff i (parse name src) (itemsAsked name src) (parseUntil (some i) name src) ∧
      ∀ p, parse name src = .ok p → itemsAsked name src = Stmt.total p.body) := by
  have hnode : ∀ (name : String) (root : Yaml.Node),
      let free := (ofNode name none root).run.run 0
      let cut := (ofNode name (some i) root).run.run 0
      CalledOff i free.1 free.2 cut.1 ∧ ∀ p, free.1 = .ok p → free.2 = Stmt.total p.body := by
    intro name root
    have hlaw := calledOff_of_heeds (heeds_ofNode name i root) (p := 0) rfl
    rwa [id_eq] at hlaw
  refine ⟨fun cfg scope b => ?_, hnode, fun name src => ?_⟩
  · exact calledOff_of_heeds (Script.asks_statements cfg i b) (p := {}) rfl
  · rw [parse, parseUntil_eq, parseUntil_eq, itemsAsked]
    generalize root name src = r
    cases r with
    | error f => exact ⟨⟨fun _ => rfl, fun h => absurd h (Nat.not_lt_zero _)⟩, nofun⟩
    | ok r =>
      cases r with
      | none =>
        refine ⟨⟨fun _ => rfl, fun h => absurd h (Nat.not_lt_zero _)⟩, fun p hp => ?_⟩
        cases hp
        rfl
      | some n => exact hnode name n

open Document in
/-- The second question is asked inside the body, before the unknown name there is found. -/
theorem called_off_inside_body :
    let i : Interrupt := ⟨1, .cancelled⟩
    let b : Block := [.function .none "f" [] none [.eval .none (.name .none "g")]]
    let inside : Yaml.Content := .sequence [.mapping [("fn", .mapping [])]]
    let tree : Yaml.Content := .mapping [("body", .sequence
      [.mapping [("fn", .mapping [("name", .text "f"), ("body", inside)])]])]
    (Script.lower {} .empty b).asked = 2 ∧
    (Script.lower {} .empty b).result = .error (.nameNotFound "g" .none) ∧
    (Script.lower { interrupt := some i } .empty b).result = .error .cancelled ∧
    ((ofNode "p" none tree.node).run.run 0).2 = 2 ∧
    ((ofNode "p" (some i) tree.node).run.run 0).1 = .error .cancelled := by
  intro i b inside tree
  obtain ⟨hlower, hnode, _⟩ := called_off_exactly i
  refine ⟨rfl, rfl, ?_, by decide +kernel, ?_⟩
  · exact (hlower {} .empty b).1.2 (by decide)
  · exact (hnode "p" tree.node).1.2 (by decide +kernel)

end Lowlang.Program
