import Lowlang.Proofs.Registry.Extension
import Lowlang.Proofs.Script.Weakening
import Lowlang.Shell.Session

set_option autoImplicit false

/-!
# Sessions and blocks

A session lowers one statement at a time against the names it remembers.  What it has lowered so
far can be put together to one block, and the script of that block is what the session has printed,
piece by piece.

A session also takes declarations without a value, which make no statement.  In the block these
names are there from the start.  So an earlier statement of the block is lowered with more names
than it was in the session, and two facts are needed: further names do not change the script of a
value, and none of them clashes with a variable of the block, because the session has refused to
declare a name twice.

Main statement: requests that fail change nothing, requests that succeed add at most their own
name, and the successful requests of any sequence make a block with the script and the final names
of the session.
-/

namespace Lowlang.Shell

/-! ## Requests -/

/-- What a shell asks of a session. -/
inductive Request where
  /-- To lower an expression. -/
  | lower (src : String)
  /-- To declare a name, perhaps with a value. -/
  | declare (spec : String)
  deriving DecidableEq, Repr

/-- What a request that can be read is about. -/
inductive Task where
  /-- A value to be lowered. -/
  | value (v : Value)
  /-- A name to be declared. -/
  | name (name : String) (type : Ty)
  /-- A name to be declared with a value to be lowered. -/
  | valued (name : String) (type : Ty) (v : Value)

namespace Task

/-- The declaration that the task makes. -/
def decls : Task → List Decl
  | .value _ => []
  | .name n t | .valued n t _ => [⟨n, t⟩]

/-- The statement that the task is, unless there is nothing to lower. -/
def block : Task → Block
  | .value v => [.eval .none v]
  | .name _ _ => []
  | .valued n t v => [.declare .none n (some t) v]

/-- The declaration of a task that is no statement. -/
def bare : Task → List Decl
  | .name n t => [⟨n, t⟩]
  | .value _ | .valued _ _ _ => []

/-- A task declares what its statement does, or is no statement. -/
theorem decls_eq (task : Task) : task.decls = task.bare ++ Script.declarations task.block := by
  cases task <;> rfl

theorem not_bare_of_declared {task : Task} {d e : Decl}
    (hd : d ∈ Script.declarations task.block) : e ∉ task.bare := by
  cases task with
  | value v => exact fun he => nomatch he
  | name n t => cases hd
  | valued n t v => exact fun he => nomatch he

end Task

/-- Reads a request; declarations are `name type` or `name type = value`. -/
def Request.read : Request → Except Fault Task
  | .lower src => do
    let v ← Value.parse src
    return .value v
  | .declare spec =>
    match Text.cutAt ' ' (Text.trim spec.toList) with
    | none => throw (.of .usage [])
    | some ([], _) => throw (.of .usage [])
    | some (name, rest) =>
      match Text.cutAt '=' rest with
      | none => do
        let t ← Ty.parse (String.ofList (Text.trim rest))
        return .name (String.ofList name) t
      | some (typeText, valueText) => do
        let t ← Ty.parse (String.ofList (Text.trim typeText))
        let v ← Value.parse (String.ofList (Text.trim valueText))
        return .valued (String.ofList name) t v

namespace Session

/-- What a request gives, and the session after it, which is the same when the request fails. -/
def serve (s : Session) : Request → Except Fault String × Session
  | .lower src => (s.lower src, s)
  | .declare spec =>
    match s.declare spec with
    | .ok (out, s) => (.ok out, s)
    | .error f => (.error f, s)

/-- The session with the declaration of a task. -/
def extended (s : Session) (task : Task) : Session :=
  { s with registry := s.registry.extend task.decls }

/-- The script of a task; a name without a value has none, but has to be new. -/
def perform (s : Session) : Task → Except Fault String
  | .name n t => (s.registry.add n t .none).map fun _ => ""
  | task => s.compile task.block

/-! ## Tasks -/

/-- A declaration that has been lowered can be made. -/
theorem add_of_compile {s : Session} (never : s.settings.interrupt = none) {n : String} {t : Ty}
    {v : Value} {out : String} (h : s.compile [.declare .none n (some t) v] = .ok out) :
    s.registry.add n t .none = .ok (s.registry.insert n t) := by
  rw [Session.compile, Script.compile_declare never] at h
  obtain ⟨_, _, h⟩ := Fault.bind_ok h
  obtain ⟨_, hadd, _⟩ := Fault.bind_ok h
  rw [Option.getD_some] at hadd
  rw [hadd, (Registry.add_eq_ok_iff.mp hadd).2]

theorem perform_name (s : Session) (n : String) (t : Ty) :
    (do
      let registry ← s.registry.add n t .none
      return ("", { s with registry }))
    = (s.perform (.name n t)).map fun out => (out, s.extended (.name n t)) := by
  dsimp only [perform]
  cases hadd : s.registry.add n t .none with
  | error f => rfl
  | ok registry =>
    rw [Registry.extend_of_add hadd]
    rfl

theorem perform_valued {s : Session} (never : s.settings.interrupt = none) (n : String) (t : Ty)
    (v : Value) :
    (do
      let out ← s.compile [.declare .none n (some t) v]
      let registry ← s.registry.add n t .none
      return (out, { s with registry }))
    = (s.perform (.valued n t v)).map fun out => (out, s.extended (.valued n t v)) := by
  dsimp only [perform, Task.block]
  cases hout : s.compile [.declare .none n (some t) v] with
  | error f => rfl
  | ok out =>
    rw [add_of_compile never hout]
    rfl

/-- Declaring reads the request and performs the task; once there is a script, nothing more can
fail. -/
theorem declare_eq {s : Session} (never : s.settings.interrupt = none) (spec : String) :
    s.declare spec = (Request.declare spec).read >>= fun task =>
      (s.perform task).map fun out => (out, s.extended task) := by
  dsimp only [Session.declare, Request.read]
  cases Text.cutAt ' ' (Text.trim spec.toList) with
  | none => rfl
  | some parts =>
    obtain ⟨name, rest⟩ := parts
    cases name with
    | nil => rfl
    | cons c name =>
      dsimp only
      cases Text.cutAt '=' rest with
      | none =>
        cases Ty.parse (String.ofList (Text.trim rest)) with
        | error f => rfl
        | ok t => exact perform_name s _ t
      | some texts =>
        dsimp only
        cases Ty.parse (String.ofList (Text.trim texts.1)) with
        | error f => rfl
        | ok t =>
          cases Value.parse (String.ofList (Text.trim texts.2)) with
          | error f => rfl
          | ok v => exact perform_valued never _ t v

/-- What a session answers to a task, and the session after it. -/
def answer (s : Session) (task : Task) : Except Fault String × Session :=
  match s.perform task with
  | .ok out => (.ok out, s.extended task)
  | .error f => (.error f, s)

/-- A session reads the request and performs its task. -/
theorem serve_eq {s : Session} (never : s.settings.interrupt = none) (r : Request) :
    s.serve r = match r.read with
      | .ok task => s.answer task
      | .error f => (.error f, s) := by
  cases r with
  | lower src =>
    dsimp only [serve, Session.lower, Request.read]
    cases Value.parse src with
    | error f => rfl
    | ok v =>
      show (s.compile [.eval .none v], s) = s.answer (.value v)
      dsimp only [answer, perform, Task.block]
      cases s.compile [.eval .none v] with
      | error f => rfl
      | ok out => rfl
  | declare spec =>
    dsimp only [serve]
    rw [declare_eq never]
    cases (Request.declare spec).read with
    | error f => rfl
    | ok task =>
      show (match (s.perform task).map fun out => (out, s.extended task) with
        | .ok (out, s) => (.ok out, s)
        | .error f => (.error f, s)) = s.answer task
      dsimp only [answer]
      cases s.perform task with
      | error f => rfl
      | ok out => rfl

/-- A request fails and the session stays as it is, or its task is performed and the session is
extended by its declaration. -/
theorem serve_cases {s : Session} (never : s.settings.interrupt = none) (r : Request) :
    (∃ f, s.serve r = (.error f, s)) ∨
    ∃ task out, r.read = .ok task ∧ s.perform task = .ok out ∧
      s.serve r = (.ok out, s.extended task) := by
  rw [serve_eq never]
  cases hread : r.read with
  | error f => exact .inl ⟨f, rfl⟩
  | ok task =>
    dsimp only [answer]
    cases hout : s.perform task with
    | error f => exact .inl ⟨f, rfl⟩
    | ok out => exact .inr ⟨task, out, rfl, hout, rfl⟩

/-- A task is performed only if its name is new. -/
theorem not_contains_of_perform {s : Session} (never : s.settings.interrupt = none) {task : Task}
    {out : String} (h : s.perform task = .ok out) :
    ∀ d ∈ task.decls, ¬ s.registry.contains d.name := by
  have hadded : ∀ {n : String} {t : Ty}, s.registry.add n t .none = .ok (s.registry.insert n t) →
      ∀ d ∈ [(⟨n, t⟩ : Decl)], ¬ s.registry.contains d.name := by
    intro n t hadd d hd
    rw [List.mem_singleton.mp hd]
    exact (Registry.add_eq_ok_iff.mp hadd).1
  cases task with
  | value v => exact fun d hd => nomatch hd
  | name n t =>
    dsimp only [perform] at h
    cases hadd : s.registry.add n t .none with
    | error f =>
      rw [hadd] at h
      cases h
    | ok registry => exact hadded (by rw [hadd, (Registry.add_eq_ok_iff.mp hadd).2])
  | valued n t v => exact hadded (add_of_compile never h)

/-- The script of a task is that of its statement, also where further names are declared, as long
as its own is not among them. -/
theorem compile_of_perform {s : Session} (never : s.settings.interrupt = none) {task : Task}
    {out : String} (h : s.perform task = .ok out) {wider : Registry}
    (hw : Script.Widens wider s.registry)
    (hnew : ∀ d ∈ Script.declarations task.block, ¬ wider.contains d.name) :
    Script.compile s.settings wider task.block = .ok out := by
  cases task with
  | value v => exact Script.compile_eval_widen never hw h
  | name n t =>
    dsimp only [perform] at h
    cases hadd : s.registry.add n t .none with
    | error f =>
      rw [hadd] at h
      cases h
    | ok registry =>
      rw [hadd] at h
      exact h
  | valued n t v => exact Script.compile_declare_widen never hw (hnew ⟨n, t⟩ List.mem_cons_self) h

/-! ## Runs -/

/-- The task of a request that has succeeded, with what it has given. -/
def done (r : Request) (given : Except Fault String) : List (Task × String) :=
  match r.read, given with
  | .ok task, .ok out => [(task, out)]
  | _, _ => []

theorem done_error (r : Request) (f : Fault) : done r (.error f) = [] := by
  unfold done
  cases r.read with
  | error g => rfl
  | ok task => rfl

theorem done_ok {r : Request} {task : Task} (h : r.read = .ok task) (out : String) :
    done r (.ok out) = [(task, out)] := by
  unfold done
  rw [h]

/-- The session after requests, and the tasks of those that have succeeded, in order. -/
def run (s : Session) : List Request → Session × List (Task × String)
  | [] => (s, [])
  | r :: rs =>
    let served := s.serve r
    let rest := run served.2 rs
    (rest.1, done r served.1 ++ rest.2)

/-- The first request of a run changes nothing and leaves no task, or its task is performed. -/
theorem run_cons {s : Session} (never : s.settings.interrupt = none) (r : Request)
    (rs : List Request) :
    s.run (r :: rs) = s.run rs ∨ ∃ task out, s.perform task = .ok out ∧
      s.run (r :: rs) = (((s.extended task).run rs).1, (task, out) :: ((s.extended task).run rs).2) := by
  rcases serve_cases never r with ⟨f, hserve⟩ | ⟨task, out, hread, hout, hserve⟩
  · refine .inl ?_
    rw [run, hserve, done_error]
    rfl
  · refine .inr ⟨task, out, hout, ?_⟩
    rw [run, hserve, done_ok hread]
    rfl

/-- The declarations without a value, in order. -/
def bareDecls (log : List (Task × String)) : List Decl :=
  log.flatMap fun l => l.1.bare

/-- The statements lowered, in order. -/
def lowered (log : List (Task × String)) : Block :=
  log.flatMap fun l => l.1.block

/-- The scripts given, one behind the other. -/
def script (log : List (Task × String)) : String :=
  String.join (log.map Prod.snd)

/-- No name is declared that the session knows already. -/
theorem not_contains_of_bare {s : Session} (never : s.settings.interrupt = none)
    (rs : List Request) : ∀ d ∈ bareDecls (s.run rs).2, ¬ s.registry.contains d.name := by
  induction rs generalizing s with
  | nil => exact fun d hd => nomatch hd
  | cons r rs ih =>
    rcases run_cons never r rs with hrun | ⟨task, out, hout, hrun⟩
    · rw [hrun]
      exact ih never
    · rw [hrun]
      intro d hd
      rcases List.mem_append.mp hd with hd | hd
      · refine not_contains_of_perform never hout d ?_
        rw [Task.decls_eq]
        exact List.mem_append_left _ hd
      · intro hknown
        refine ih (s := s.extended task) never d hd ?_
        exact (Registry.contains_extend _ _ _).mpr (.inl hknown)

/-- With names that are still new after a task, its statement has the script of the task, and
leaves what the session knows after the task and those names. -/
theorem compile_before {s : Session} (never : s.settings.interrupt = none) {task : Task}
    {out : String} (hout : s.perform task = .ok out) {ds : List Decl}
    (hds : ∀ d ∈ ds, ¬ (s.extended task).registry.contains d.name) :
    Script.compile s.settings (s.registry.extend (task.bare ++ ds)) task.block = .ok out ∧
    (s.registry.extend (task.bare ++ ds)).extend (Script.declarations task.block)
      = (s.extended task).registry.extend ds := by
  have hdecls : ∀ d ∈ Script.declarations task.block, d ∈ task.decls := by
    intro d hd
    rw [Task.decls_eq]
    exact List.mem_append_right _ hd
  have hapart : ∀ d ∈ ds, ∀ e ∈ Script.declarations task.block, d.name ≠ e.name :=
    fun d hd e he heq =>
      hds d hd ((Registry.contains_extend _ _ _).mpr (.inr ⟨e, hdecls e he, heq.symm⟩))
  constructor
  · refine compile_of_perform never hout (fun n hn => ?_) fun d hd hknown => ?_
    · exact (Registry.contains_extend _ _ _).mpr (.inl hn)
    · rcases (Registry.contains_extend _ _ _).mp hknown with hknown | ⟨e, he, heq⟩
      · exact not_contains_of_perform never hout d (hdecls d hd) hknown
      · rcases List.mem_append.mp he with he | he
        · exact Task.not_bare_of_declared hd he
        · exact hapart e he d hd heq
  · rw [Registry.extend_append, Registry.extend_comm hapart, extended, Task.decls_eq,
      Registry.extend_append]

/-- The tasks of a run make a block with the script of the run and with its names. -/
theorem compile_lowered {s : Session} (never : s.settings.interrupt = none) (rs : List Request) :
    Script.compile s.settings (s.registry.extend (bareDecls (s.run rs).2)) (lowered (s.run rs).2)
      = .ok (script (s.run rs).2) ∧
    (s.run rs).1.registry = (s.registry.extend (bareDecls (s.run rs).2)).extend
      (Script.declarations (lowered (s.run rs).2)) := by
  induction rs generalizing s with
  | nil => exact ⟨rfl, rfl⟩
  | cons r rs ih =>
    rcases run_cons never r rs with hrun | ⟨task, out, hout, hrun⟩
    · rw [hrun]
      exact ih never
    · -- The names without a value that come later are new to the session after the task.
      obtain ⟨hfirst, hscope⟩ :=
        compile_before never hout (not_contains_of_bare (s := s.extended task) never rs)
      obtain ⟨hscript, hnames⟩ := ih (s := s.extended task) never
      rw [hrun]
      generalize (s.extended task).run rs = rest at hfirst hscope hscript hnames ⊢
      constructor
      · show Script.compile s.settings (s.registry.extend (task.bare ++ bareDecls rest.2))
          (task.block ++ lowered rest.2) = .ok (String.join (out :: rest.2.map Prod.snd))
        rw [Script.compile_eq_resultOf, Script.resultOf_append never, ← Script.compile_eq_resultOf,
          hfirst, hscope, String.join_cons]
        show (Script.compile (s.extended task).settings _ (lowered rest.2)
          >>= fun t => .ok (out ++ t)) = _
        rw [hscript]
        rfl
      · show rest.1.registry = (s.registry.extend (task.bare ++ bareDecls rest.2)).extend
          (Script.declarations (task.block ++ lowered rest.2))
        have hdecls : Script.declarations (task.block ++ lowered rest.2)
            = Script.declarations task.block ++ Script.declarations (lowered rest.2) :=
          List.flatMap_append
        rw [hnames, hdecls, Registry.extend_append, hscope]

/-! ## Single requests -/

theorem settings_run {s : Session} (never : s.settings.interrupt = none) (rs : List Request) :
    (s.run rs).1.settings = s.settings := by
  induction rs generalizing s with
  | nil => rfl
  | cons r rs ih =>
    rcases run_cons never r rs with hrun | ⟨task, out, _, hrun⟩
    · rw [hrun]
      exact ih never
    · rw [hrun]
      exact ih (s := s.extended task) never

/-- A request to declare is about one name. -/
theorem decls_of_declare {spec : String} {task : Task}
    (h : (Request.declare spec).read = .ok task) : ∃ d, task.decls = [d] := by
  dsimp only [Request.read] at h
  split at h
  · cases h
  · cases h
  · next name rest _ _ =>
    split at h
    · obtain ⟨t, _, h⟩ := Fault.bind_ok h
      cases h
      exact ⟨⟨String.ofList name, t⟩, rfl⟩
    · obtain ⟨t, _, h⟩ := Fault.bind_ok h
      obtain ⟨v, _, h⟩ := Fault.bind_ok h
      cases h
      exact ⟨⟨String.ofList name, t⟩, rfl⟩

/-- The later session knows one name more, which was new, and nothing else has changed. -/
def Adds (s later : Session) (d : Decl) : Prop :=
  s.registry.get? d.name = none ∧
    ∀ n, later.registry.get? n = if d.name = n then some d.type else s.registry.get? n

theorem adds_extended {s : Session} (never : s.settings.interrupt = none) {task : Task} {out : String}
    (h : s.perform task = .ok out) {d : Decl} (hd : task.decls = [d]) :
    s.Adds (s.extended task) d := by
  have hnew : ¬ s.registry.contains d.name :=
    not_contains_of_perform never h d (by rw [hd]; exact List.mem_cons_self)
  refine ⟨by simpa [Registry.contains] using hnew, fun n => ?_⟩
  have hafter : (s.extended task).registry = s.registry.insert d.name d.type := by
    rw [extended, hd]
    rfl
  rw [hafter, Registry.get?_insert]
  simp [hnew]

/-- A request that fails or lowers an expression leaves the session as it is; a declaration that
succeeds adds the name and the type that were read. -/
theorem serve_changes {s : Session} (never : s.settings.interrupt = none) (r : Request) :
    (∀ f, (s.serve r).1 = .error f → (s.serve r).2 = s) ∧
    (∀ src, r = .lower src → (s.serve r).2 = s) ∧
    ∀ spec out, r = .declare spec → (s.serve r).1 = .ok out →
      ∃ task d, r.read = .ok task ∧ task.decls = [d] ∧ s.Adds (s.serve r).2 d := by
  refine ⟨?_, ?_, ?_⟩
  · intro f hf
    rcases serve_cases never r with ⟨g, hserve⟩ | ⟨task, out, _, _, hserve⟩
    · rw [hserve]
    · rw [hserve] at hf
      cases hf
  · rintro src rfl
    rfl
  · rintro spec out rfl hout
    rcases serve_cases never (.declare spec) with ⟨g, hserve⟩ | ⟨task, given, hread, hgiven, hserve⟩
    · rw [hserve] at hout
      cases hout
    · obtain ⟨d, hd⟩ := decls_of_declare hread
      rw [hserve]
      exact ⟨task, d, hread, hd, adds_extended never hgiven hd⟩

/-! ## Main statement -/

/-- Take any requests to a session that is never called off.  The successful ones make a block: the
names declared without a value are there before it, its script is what the requests have given, one
behind the other, and the session then knows what is known behind the block.  Whatever requests
there were before, one that fails or lowers an expression leaves the names as they are, and a
declaration that succeeds adds the name and the type that were read, and nothing else. -/
theorem run_agrees_with_block {s : Session} (never : s.settings.interrupt = none)
    (rs : List Request) :
    let last := (s.run rs).1
    let log := (s.run rs).2
    let scope := s.registry.extend (bareDecls log)
    Script.compile s.settings scope (lowered log) = .ok (script log) ∧
      last.registry = scope.extend (Script.declarations (lowered log)) ∧
      ∀ r : Request,
        (∀ f, (last.serve r).1 = .error f → (last.serve r).2.registry = last.registry) ∧
        (∀ src, r = .lower src → (last.serve r).2.registry = last.registry) ∧
        ∀ spec out, r = .declare spec → (last.serve r).1 = .ok out →
          ∃ task d, r.read = .ok task ∧ task.decls = [d] ∧ last.Adds (last.serve r).2 d := by
  intro last log scope
  obtain ⟨hscript, hnames⟩ := compile_lowered never rs
  refine ⟨hscript, hnames, fun r => ?_⟩
  have hlast : last.settings.interrupt = none := by
    rw [settings_run never rs]
    exact never
  obtain ⟨hfail, hlower, hdeclare⟩ := serve_changes hlast r
  exact ⟨fun f hf => by rw [hfail f hf], fun src hr => by rw [hlower src hr], hdeclare⟩

/-- A text is read by its tokens and its tree. -/
theorem parse_of_tree {src : String} (tokens : List Expr.Token) (tree : Expr.Node)
    (hne : ¬ (Text.trim src.toList).isEmpty) (hscan : Expr.Token.scan src.toList = some tokens)
    (htree : Expr.Grammar.ofTokens? tokens = some tree) :
    Value.parse src = Value.ofNode ⟨src, .none⟩ tree := by
  rw [Value.parse, Value.parseAt, if_neg hne, Expr.Grammar.parse?, hscan, Option.bind_some, htree]

theorem run_of_serve {s later : Session} {r : Request} {given : Except Fault String}
    (h : s.serve r = (given, later)) (rs : List Request) :
    (s.run (r :: rs)).2 = done r given ++ (later.run rs).2 := by
  rw [run, h]

theorem run_agrees_with_block_late_name :
    let s : Session := ⟨.empty, {}⟩
    let rs : List Request := [.lower "x", .declare "y Int = 1", .declare "x Int", .lower "x"]
    s.settings.interrupt = none ∧ bareDecls (s.run rs).2 = [⟨"x", .int⟩] ∧
      Script.compile {} (Registry.empty.extend [⟨"x", .int⟩])
        [.declare .none "y" (some .int) (.int .none 1), .eval .none (.name .none "x")]
          = .ok "let y=1;x;" := by
  intro s rs
  let sy : Session := ⟨Registry.empty.extend [⟨"y", .int⟩], {}⟩
  let sxy : Session := ⟨Registry.empty.extend [⟨"y", .int⟩, ⟨"x", .int⟩], {}⟩
  have hlower : (Request.lower "x").read = .ok (.value (.name .none "x")) := by
    rw [Request.read, parse_of_tree [.word "x"] (.ident "x") (by decide) (by decide) rfl]
    rfl
  have hname : (Request.declare "x Int").read = .ok (.name "x" .int) := by
    have hcut : Text.cutAt ' ' (Text.trim "x Int".toList) = some (['x'], "Int".toList) := by decide
    rw [Request.read, hcut]
    rfl
  have hvalued : (Request.declare "y Int = 1").read = .ok (.valued "y" .int (.int .none 1)) := by
    have hcut : Text.cutAt ' ' (Text.trim "y Int = 1".toList) = some (['y'], "Int = 1".toList) := by
      decide
    have hparts : Text.cutAt '=' "Int = 1".toList = some ("Int ".toList, " 1".toList) := by decide
    have htype : Text.trim "Int ".toList = "Int".toList := by decide
    have hvalue : Text.trim " 1".toList = "1".toList := by decide
    rw [Request.read, hcut]
    dsimp only
    rw [hparts]
    dsimp only
    rw [htype, hvalue, String.ofList_toList, String.ofList_toList,
      parse_of_tree [.number "1"] (.integer 1) (by decide) (by decide) rfl]
    rfl
  -- At first there is no `x`; the second session knows `y`, the last one both.
  have hfails : s.serve (.lower "x") = (.error (.nameNotFound "x" .none), s) := by
    rw [serve_eq rfl, hlower]
    rfl
  have hfirst : s.serve (.declare "y Int = 1") = (.ok "let y=1;", sy) := by
    rw [serve_eq rfl, hvalued]
    rfl
  have hsecond : sy.serve (.declare "x Int") = (.ok "", sxy) := by
    rw [serve_eq rfl, hname]
    rfl
  have hlast : sxy.serve (.lower "x") = (.ok "x;", sxy) := by
    rw [serve_eq rfl, hlower]
    rfl
  have hlog : (s.run rs).2 = [(.valued "y" .int (.int .none 1), "let y=1;"), (.name "x" .int, ""),
      (.value (.name .none "x"), "x;")] := by
    rw [run_of_serve hfails, done_error, run_of_serve hfirst, done_ok hvalued, run_of_serve hsecond,
      done_ok hname, run_of_serve hlast, done_ok hlower]
    rfl
  have hblock := (run_agrees_with_block (s := s) rfl rs).1
  rw [hlog] at hblock ⊢
  exact ⟨rfl, rfl, hblock⟩

end Session

end Lowlang.Shell
