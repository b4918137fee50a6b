import Lowlang.Program.Reading
import Lowlang.Proofs.Stateful
import Lowlang.Proofs.Stmt.Positions
import Lowlang.Proofs.Value.Accepted

set_option autoImplicit false

/-!
# Positions in what is read

Every node that is read from an expression stands at the position the expression was read at, those
included that no token of the text stands for.  A document reads its expressions at the positions of
its nodes and puts its own lists, aggregates and statements there too.

Main statement: the position changes nothing but itself, it is the position of every node, and every
node of a program is in the file of its document.
-/

namespace Lowlang

namespace Value

/-! ## Positions of a tree -/

mutual

/-- The positions of the nodes of a value, the node itself first. -/
def positions : Value → List Pos
  | .absent => []
  | .int p _ => [p]
  | .uint p _ => [p]
  | .byte p _ => [p]
  | .char p _ => [p]
  | .bool p _ => [p]
  | .list p elems => p :: positionsAll elems
  | .custom p _ fields => p :: positionsFields fields
  | .type p _ => [p]
  | .name p _ => [p]
  | .call p _ args => p :: positionsAll args
  | .operator p _ x y => p :: (positions x ++ positions y)
  | .other p _ x y => p :: (positions x ++ positions y)
termination_by structural v => v

/-- The positions of the nodes of values in order. -/
def positionsAll : List Value → List Pos
  | [] => []
  | v :: vs => positions v ++ positionsAll vs
termination_by structural vs => vs

/-- The positions of the nodes in the values of fields. -/
def positionsFields : List (String × Value) → List Pos
  | [] => []
  | (_, v) :: fs => positions v ++ positionsFields fs
termination_by structural fs => fs

end

/-- Every node of the value is in the file. -/
def Filed (file : String) (v : Value) : Prop :=
  ∀ q ∈ v.positions, q.file = file

variable {file : String}

theorem filed_all {vs : List Value} (h : ∀ v ∈ vs, Filed file v) :
    ∀ q ∈ positionsAll vs, q.file = file := by
  induction vs with
  | nil => exact nofun
  | cons v vs ih =>
    rw [List.forall_mem_cons] at h
    exact List.forall_mem_append.mpr ⟨h.1, ih h.2⟩

theorem filed_fields {fs : List (String × Value)} (h : ∀ f ∈ fs, Filed file f.2) :
    ∀ q ∈ positionsFields fs, q.file = file := by
  induction fs with
  | nil => exact nofun
  | cons f fs ih =>
    rw [List.forall_mem_cons] at h
    exact List.forall_mem_append.mpr ⟨h.1, ih h.2⟩

mutual

/-- A moved value has no node anywhere else. -/
theorem at_of_moved (p : Pos) : ∀ v : Value, ∀ q ∈ (moved p v).positions, q = p
  | .list _ elems => List.forall_mem_cons.mpr ⟨rfl, at_of_movedAll p elems⟩
  | .custom _ _ fields => List.forall_mem_cons.mpr ⟨rfl, at_of_movedFields p fields⟩
  | .call _ _ args => List.forall_mem_cons.mpr ⟨rfl, at_of_movedAll p args⟩
  | .operator _ _ x y | .other _ _ x y =>
    List.forall_mem_cons.mpr ⟨rfl, List.forall_mem_append.mpr ⟨at_of_moved p x, at_of_moved p y⟩⟩
  | .absent => nofun
  | .int _ _ | .uint _ _ | .byte _ _ | .char _ _ | .bool _ _ | .type _ _ | .name _ _ =>
    List.forall_mem_singleton.mpr rfl
termination_by structural v => v

theorem at_of_movedAll (p : Pos) : ∀ vs : List Value, ∀ q ∈ positionsAll (movedAll p vs), q = p
  | [] => nofun
  | v :: vs => List.forall_mem_append.mpr ⟨at_of_moved p v, at_of_movedAll p vs⟩
termination_by structural vs => vs

theorem at_of_movedFields (p : Pos) :
    ∀ fs : List (String × Value), ∀ q ∈ positionsFields (movedFields p fs), q = p
  | [] => nofun
  | (_, v) :: fs => List.forall_mem_append.mpr ⟨at_of_moved p v, at_of_movedFields p fs⟩
termination_by structural fs => fs

end

/-- What can be told from a text has at least one node. -/
theorem Formed.mem_positions_moved {v : Value} (h : Formed v) (p : Pos) :
    p ∈ (moved p v).positions := by
  cases v with
  | absent => exact h.elim
  | _ => exact List.mem_cons_self

/-! ## Expressions -/

theorem at_of_parseAt {p : Pos} {src : String} {v : Value} (h : parseAt p src = .ok v) :
    ∀ q ∈ v.positions, q = p := by
  obtain ⟨w, -, rfl⟩ := parseAt_ok h
  exact at_of_moved p w

end Value

namespace Stmt

/-! ## Positions of statements -/

mutual

/-- The positions of the nodes of a statement, the values in it included. -/
def positions : Stmt → List Pos
  | .absent => []
  | .eval p v => p :: v.positions
  | .declare p _ _ v => p :: v.positions
  | .assign p _ v => p :: v.positions
  | .function p _ _ _ body => p :: positionsBlock body
  | .branch p test body elifs otherwise =>
    p :: (test.positions ++ positionsBlock body ++ positionsElifs elifs
      ++ positionsOtherwise otherwise)
  | .other p _ => [p]
termination_by structural s => s

/-- The positions of the nodes of a block. -/
def positionsBlock : List Stmt → List Pos
  | [] => []
  | s :: ss => positions s ++ positionsBlock ss
termination_by structural ss => ss

/-- The positions of the nodes of further tests and what they guard. -/
def positionsElifs : List (Value × List Stmt) → List Pos
  | [] => []
  | (test, body) :: es => test.positions ++ positionsBlock body ++ positionsElifs es
termination_by structural es => es

/-- The positions of the nodes of a final branch. -/
def positionsOtherwise : Option (List Stmt) → List Pos
  | none => []
  | some body => positionsBlock body
termination_by structural o => o

end

variable (file : String)

/-- Every node of the statement is in the file. -/
def Filed (s : Stmt) : Prop :=
  ∀ q ∈ s.positions, q.file = file

/-- Every node of the block is in the file. -/
def FiledBlock (b : Block) : Prop :=
  ∀ q ∈ positionsBlock b, q.file = file

/-- Every node of the further tests is in the file. -/
def FiledElifs (es : List (Value × Block)) : Prop :=
  ∀ q ∈ positionsElifs es, q.file = file

/-- Every node of a final branch is in the file, if there is one. -/
def FiledOtherwise (o : Option Block) : Prop :=
  ∀ q ∈ positionsOtherwise o, q.file = file

variable {file}

theorem FiledBlock.cons {s : Stmt} {b : Block} (hs : Filed file s) (hb : FiledBlock file b) :
    FiledBlock file (s :: b) :=
  List.forall_mem_append.mpr ⟨hs, hb⟩

theorem FiledElifs.cons {test : Value} {body : Block} {es : List (Value × Block)}
    (htest : test.Filed file) (hbody : FiledBlock file body) (hes : FiledElifs file es) :
    FiledElifs file ((test, body) :: es) :=
  List.forall_mem_append.mpr ⟨List.forall_mem_append.mpr ⟨htest, hbody⟩, hes⟩

/-- A conditional is in the file when its position and its four parts are. -/
theorem Filed.branch {p : Pos} {test : Value} {body : Block} {elifs : List (Value × Block)}
    {otherwise : Option Block} (hp : p.file = file) (htest : test.Filed file)
    (hbody : FiledBlock file body) (helifs : FiledElifs file elifs)
    (hotherwise : FiledOtherwise file otherwise) :
    Filed file (.branch p test body elifs otherwise) := by
  refine List.forall_mem_cons.mpr ⟨hp, List.forall_mem_append.mpr ⟨?_, hotherwise⟩⟩
  exact List.forall_mem_append.mpr ⟨List.forall_mem_append.mpr ⟨htest, hbody⟩, helifs⟩

end Stmt

namespace Program.Document

open Lowlang.Yaml
open Stateful (Outcome Comes)

/-! ## Values of a document -/

/-- Whatever work comes to, a value of it has the property. -/
abbrev Yields {α : Type} (Q : α → Prop) (w : Counting α) : Prop :=
  Comes Q (fun _ => True) w

/-- A value has the property. -/
abbrev Gives {α : Type} (Q : α → Prop) (e : Except Fault α) : Prop :=
  Outcome Q (fun _ => True) e

theorem gives_any {α : Type} (e : Except Fault α) : Gives (fun _ => True) e := by
  cases e <;> exact trivial

theorem yields_any {α : Type} (w : Counting α) : Yields (fun _ => True) w :=
  fun _ => gives_any _

theorem yields_plainly {α : Type} {Q : α → Prop} {e : Except Fault α} (h : Gives Q e) :
    Yields Q (plainly e) := by
  cases e with
  | ok a => exact fun _ => h
  | error f => exact fun _ => trivial

/-- Behind a step that may come to anything, only what follows counts. -/
theorem Gives.after {α β : Type} {R : β → Prop} {e : Except Fault α} {k : α → Except Fault β}
    (hk : ∀ a, Gives R (k a)) : Gives R (e >>= k) :=
  (gives_any e).bind fun a _ => hk a

theorem Yields.after {α β : Type} {R : β → Prop} {w : Counting α} {k : α → Counting β}
    (hk : ∀ a, Yields R (k a)) : Yields R (w >>= k) :=
  (yields_any w).bind fun a _ => hk a

variable (file : String)

/-- Every node of a value is at the position of a node of the document. -/
theorem value_filed (fuel : Nat) (n : Node) : Gives (Value.Filed file) (value file fuel n) := by
  induction fuel generalizing n with
  | zero => exact trivial
  | succ fuel ih =>
    unfold value
    split
    · refine Outcome.bind (Outcome.mapM_all fun i _ => ih i) fun vs hvs => ?_
      exact List.forall_mem_cons.mpr ⟨rfl, Value.filed_all hvs⟩
    · refine Gives.after fun f => Gives.after fun tn => Gives.after fun t => ?_
      dsimp only
      split
      · refine Gives.after fun es => ?_
        refine Outcome.bind (Q := fun fs => ∀ f ∈ fs, Value.Filed file f.2) ?_ fun fs hfs =>
          List.forall_mem_cons.mpr ⟨rfl, Value.filed_fields hfs⟩
        exact Outcome.mapM_all fun e _ => Outcome.bind (ih e.2) fun _ hv => hv
      · exact List.forall_mem_singleton.mpr rfl
    · refine Gives.after fun t => ?_
      split
      · next v hv =>
        intro q hq
        rw [Value.at_of_parseAt hv q hq]
        rfl
      · exact trivial

/-! ## Statements of a document -/

/-- All that is read with so many steps is in the file. -/
structure FilesAll (interrupt : Option Interrupt) (fuel : Nat) : Prop where
  block (n : Node) : Yields (Stmt.FiledBlock file) (block file interrupt fuel n)
  statements (is : List Node) : Yields (Stmt.FiledBlock file) (statements file interrupt fuel is)
  statement (n : Node) : Yields (Stmt.Filed file) (statement file interrupt fuel n)
  branch (f : Fields) : Yields (fun b : Value × Block => b.1.Filed file ∧ Stmt.FiledBlock file b.2)
    (branch file interrupt fuel f)
  branches (is : List Node) : Yields (Stmt.FiledElifs file) (branches file interrupt fuel is)

/-- Without steps nothing is read but empty sequences. -/
theorem FilesAll.zero (interrupt : Option Interrupt) : FilesAll file interrupt 0 where
  block _ := yields_plainly trivial
  statements is := by
    cases is with
    | nil => exact Comes.ret nofun
    | cons n rest => exact yields_plainly trivial
  statement _ := yields_plainly trivial
  branch _ := yields_plainly trivial
  branches is := by
    cases is with
    | nil => exact Comes.ret nofun
    | cons n rest => exact yields_plainly trivial

variable {file} {interrupt : Option Interrupt} {fuel : Nat}

namespace FilesAll

theorem statements_succ (h : FilesAll file interrupt fuel) (is : List Node) :
    Yields (Stmt.FiledBlock file) (Document.statements file interrupt (fuel + 1) is) := by
  unfold Document.statements
  cases is with
  | nil => exact Comes.ret nofun
  | cons n rest =>
    refine Yields.after fun _ => ?_
    refine Comes.bind (h.statement n) fun s hs => ?_
    exact Comes.bind (h.statements rest) fun ss hss => Comes.ret (.cons hs hss)

theorem branches_succ (h : FilesAll file interrupt fuel) (is : List Node) :
    Yields (Stmt.FiledElifs file) (Document.branches file interrupt (fuel + 1) is) := by
  unfold Document.branches
  cases is with
  | nil => exact Comes.ret nofun
  | cons n rest =>
    refine Yields.after fun f => ?_
    refine Comes.bind (h.branch f) fun b hb => ?_
    exact Comes.bind (h.branches rest) fun bs hbs => Comes.ret (.cons hb.1 hb.2 hbs)

theorem branch_succ (h : FilesAll file interrupt fuel) (f : Fields) :
    Yields (fun b : Value × Block => b.1.Filed file ∧ Stmt.FiledBlock file b.2)
      (Document.branch file interrupt (fuel + 1) f) := by
  unfold Document.branch
  refine Yields.after fun cn => ?_
  refine Comes.bind (yields_plainly (value_filed file fuel cn)) fun test htest => ?_
  dsimp only
  split
  · next tn _ => exact Comes.bind (h.block tn) fun body hbody => Comes.ret ⟨htest, hbody⟩
  · exact Comes.ret ⟨htest, nofun⟩

/-- Further tests are in the file, whatever follows them. -/
theorem elifs (h : FilesAll file interrupt fuel) (f : Fields) {α : Type} {R : α → Prop}
    {k : List (Value × Block) → Counting α} (hk : ∀ es, Stmt.FiledElifs file es → Yields R (k es)) :
    Yields R
      (match f.get? "elif" with
        | some en => do
          let is ← plainly (items file en)
          let es ← Document.branches file interrupt fuel is
          k es
        | none => do
          let es ← pure []
          k es) := by
  split
  · exact Yields.after fun is => Comes.bind (h.branches is) hk
  · exact hk [] nofun

theorem statement_succ (h : FilesAll file interrupt fuel) (n : Node) :
    Yields (Stmt.Filed file) (Document.statement file interrupt (fuel + 1) n) := by
  unfold Document.statement
  refine Yields.after fun f => ?_
  dsimp only
  split
  · next v _ =>
    refine Comes.bind (yields_plainly (value_filed file fuel v)) fun v hv => Comes.ret ?_
    exact List.forall_mem_cons.mpr ⟨rfl, hv⟩
  · refine yields_plainly ?_
    refine Gives.after fun g => Gives.after fun name => Gives.after fun t =>
      Gives.after fun vn => ?_
    exact (value_filed file fuel vn).bind fun v hv => List.forall_mem_cons.mpr ⟨rfl, hv⟩
  · refine yields_plainly ?_
    refine Gives.after fun g => Gives.after fun name => Gives.after fun vn => ?_
    exact (value_filed file fuel vn).bind fun v hv => List.forall_mem_cons.mpr ⟨rfl, hv⟩
  · refine Yields.after fun g => Yields.after fun name => Yields.after fun params =>
      Yields.after fun result => ?_
    split
    · next bn _ =>
      refine Comes.bind (h.block bn) fun body hbody => Comes.ret ?_
      exact List.forall_mem_cons.mpr ⟨rfl, hbody⟩
    · exact Comes.ret (List.forall_mem_singleton.mpr rfl)
  · refine Yields.after fun g => ?_
    refine Comes.bind (h.branch g) fun b hb => ?_
    refine h.elifs g fun elifs helifs => ?_
    split
    · next en _ =>
      refine Comes.bind (h.block en) fun body hbody => Comes.ret ?_
      exact .branch rfl hb.1 hb.2 helifs hbody
    · exact Comes.ret (.branch rfl hb.1 hb.2 helifs nofun)
  · exact yields_plainly trivial

end FilesAll

theorem filesAll (file : String) (interrupt : Option Interrupt) (fuel : Nat) :
    FilesAll file interrupt fuel := by
  induction fuel with
  | zero => exact .zero file interrupt
  | succ fuel ih =>
    exact ⟨fun n => Yields.after ih.statements, ih.statements_succ, ih.statement_succ,
      ih.branch_succ, ih.branches_succ⟩

/-- Every node of the body of a program is in the file of its document. -/
theorem ofNode_filed (name : String) (interrupt : Option Interrupt) (root : Node) :
    Yields (fun p => Stmt.FiledBlock name p.body) (ofNode name interrupt root) := by
  unfold ofNode
  refine Yields.after fun f => Yields.after fun tgt => Yields.after fun builtins => ?_
  split
  · next n _ => exact Comes.bind ((filesAll name interrupt _).block n) fun _ hb => Comes.ret hb
  · exact Comes.ret nofun

end Program.Document

namespace Program

open Document
open Stateful (Outcome)

/-! ## Main statement -/

/-- A text is an expression at a position exactly when it is one, or else fails with the same fault;
the value is the same, and all its nodes are at the position.  All values and statements of a
program are in the file under whose name its document was read. -/
theorem positions_recorded (src : String) (p : Pos) :
    ((∃ v, Value.parseAt p src = .ok v) ↔ ∃ w, Value.parse src = .ok w) ∧
    (∀ f, Value.parseAt p src = .error f ↔ Value.parse src = .error f) ∧
    (∀ v, Value.parseAt p src = .ok v →
      (∃ w, Value.parse src = .ok w ∧ v.same w) ∧ p ∈ v.positions ∧ ∀ q ∈ v.positions, q = p) ∧
    ∀ interrupt name document program, parseUntil interrupt name document = .ok program →
      ∀ q ∈ Stmt.positionsBlock program.body, q.file = name := by
  refine ⟨⟨?_, ?_⟩, Value.parseAt_error_iff p src, ?_, ?_⟩
  · rintro ⟨v, hv⟩
    obtain ⟨w, hw, -⟩ := Value.parseAt_ok hv
    exact ⟨w, hw⟩
  · rintro ⟨w, hw⟩
    exact ⟨w.moved p, by rw [Value.parseAt_eq, hw]; rfl⟩
  · intro v hv
    obtain ⟨w, hw, rfl⟩ := Value.parseAt_ok hv
    refine ⟨⟨w, hw, ?_⟩, ?_, Value.at_of_moved p w⟩
    · rw [Value.same_moved]
      exact (Value.same_iff w w).mpr rfl
    · exact (Value.formed_of_parse hw).mem_positions_moved p
  · intro interrupt name document program hprogram
    have hread : Gives (fun p => Stmt.FiledBlock name p.body)
        (parseUntil interrupt name document) := by
      refine Gives.after fun root => ?_
      cases root with
      | none => exact nofun
      | some n => exact ofNode_filed name interrupt n 0
    rw [hprogram] at hread
    exact hread

/-- An inequality and a minus bring nodes of their own, in an expression and in a nested body. -/
theorem positions_recorded_made_up :
    let p : Pos := ⟨"m.yaml", 3, 7⟩
    let document := "body: [fn: {name: f, body: [if: {cond: a != -b, then: [val: [1, -c]]}]}]"
    (∃ v, Value.parseAt p "a != -b" = .ok v ∧ v.positions = List.replicate 6 p) ∧
    ∃ program, parse "m.yaml" document = .ok program ∧
      (Stmt.positionsBlock program.body).map Pos.file = List.replicate 14 "m.yaml" := by
  intro p document
  obtain ⟨-, -, hvalue, hprogram⟩ := positions_recorded "a != -b" p
  refine ⟨?_, ?_⟩
  · have hnodes : (Value.parseAt p "a != -b").toOption.map (fun v => v.positions.length)
        = some 6 := by decide +kernel
    cases h : Value.parseAt p "a != -b" with
    | error f =>
      rw [h] at hnodes
      cases hnodes
    | ok v =>
      rw [h] at hnodes
      have hat := (hvalue v h).2.2
      refine ⟨v, rfl, ?_⟩
      rw [List.eq_replicate_of_mem hat]
      exact congrArg (List.replicate · p) (Option.some.inj hnodes)
  · have hnodes : (parse "m.yaml" document).toOption.map
        (fun program => (Stmt.positionsBlock program.body).length) = some 14 := by decide +kernel
    cases h : parse "m.yaml" document with
    | error f =>
      rw [h] at hnodes
      cases hnodes
    | ok program =>
      rw [h] at hnodes
      have hfile := hprogram none "m.yaml" document program h
      refine ⟨program, rfl, List.eq_replicate_iff.mpr ⟨?_, ?_⟩⟩
      · rw [List.length_map]
        exact Option.some.inj hnodes
      · intro name hname
        obtain ⟨q, hq, rfl⟩ := List.mem_map.mp hname
        exact hfile q hq

end Program

end Lowlang
