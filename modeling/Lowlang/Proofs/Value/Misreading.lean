import Lowlang.Proofs.Value.MisreadNames

set_option autoImplicit false

/-!
# Values that are misread

A value in which some name is not plain is not read back from its text.  The parts before the
first such name are read as they were written, at the name reading is lost, and what follows
does not bring it back.  `LosesOperand` and `LosesWhole` say so of a text that is read as an
operand or as an expression, and there is one statement for each form that values are written
in, as there is for texts that are read back.

Main statement: the text of a formed value is read as that value, if at all, only when its
names are plain.
-/

namespace Lowlang.Value

open Lowlang.Expr (Token Node)
open Lowlang.Expr.Grammar (Cursor Opens Operand Whole Gives closers pointTokens chainNode)
open Lowlang.Expr.Token (ScansTo ProperFrom)

/-! ## Texts at which reading is lost -/

/-- What is read as an operand from this text on is lost to the names. -/
structure LosesOperand (ns : List String) (s : List Char) : Prop where
  opens : ∀ {ts}, CutInto s ts → Opens ts
  loses : ∀ {ts fuel made p c}, CutInto s ts → 8 * ts.length ≤ fuel + 4 →
    (Expr.Grammar.primary fuel false).run ⟨ts, made⟩ = some (p, c) → Lost ns p c.rest

/-- What is read as an expression from this text on is lost to the names. -/
structure LosesWhole (ns : List String) (s : List Char) : Prop where
  opens : ∀ {ts}, CutInto s ts → Opens ts
  loses : ∀ {ts fuel made p c}, CutInto s ts → 8 * ts.length ≤ fuel →
    (Expr.Grammar.expression fuel false 0).run ⟨ts, made⟩ = some (p, c) → Lost ns p c.rest

variable {ns : List String} {s : List Char}

theorem CutInto.bracket {b : Char} {ts : List Token} (h : CutInto (b :: s) ts)
    (hb : b ∈ ['(', ')', '[', ']']) : ∃ us, ts = .bracket b :: us ∧ CutInto s us := by
  obtain ⟨us, hus, rfl⟩ := h.split (.bracket .stop hb)
  exact ⟨us, rfl, hus⟩

theorem CutInto.symbol {op : String} (hop : op ∈ Token.infixSymbols) {ts : List Token}
    (h : CutInto (' ' :: (op.toList ++ ' ' :: s)) ts) :
    ∃ us, ts = .op op :: us ∧ CutInto s us := by
  obtain ⟨us, hus, rfl⟩ := h.split (ScansTo.stop.symbol hop).blank
  exact ⟨us, rfl, hus⟩

/-- The tokens of a text that is cut off whole come first. -/
theorem CutInto.behind {a : String} {ts all : List Token} (h : CutInto (a.toList ++ s) all)
    (hcuts : Cuts a ts) (hs : Ends s) : ∃ us, all = ts ++ us ∧ CutInto s us := by
  obtain ⟨us, hus, rfl⟩ := h.split (hcuts s [] .stop hs)
  exact ⟨us, by simp, hus⟩

/-- Operators and choices behind an operand do not bring it back. -/
theorem LosesOperand.expression (h : LosesOperand ns s) {ts : List Token} (hts : CutInto s ts)
    {fuel least made : Nat} (hfuel : 8 * ts.length ≤ fuel + 3) {p : Node} {c : Cursor}
    (hp : (Expr.Grammar.expression fuel false least).run ⟨ts, made⟩ = some (p, c)) :
    Lost ns p c.rest := by
  cases fuel with
  | zero => cases hp
  | succ fuel =>
    rw [Expr.Grammar.expression_eq (h.opens hts)] at hp
    obtain ⟨⟨q, d⟩, hq, hp⟩ := Option.bind_eq_some_iff.mp hp
    obtain ⟨⟨r, e⟩, hr, hp⟩ := Option.bind_eq_some_iff.mp hp
    have hmakes := Expr.Grammar.makesNodes fuel
    obtain ⟨hqmade, hd⟩ := hmakes.primary false ⟨ts, made⟩ hts.proper q d hq
    have he := (hmakes.operators false least "" q hqmade d hd r e hr).2
    have hlost := (h.loses hts (by omega) hq).operators hd hr
    by_cases hleast : least == 0
    · rw [if_pos hleast] at hp
      exact hlost.choice he hp
    · rw [if_neg hleast] at hp
      cases hp
      exact hlost

theorem LosesOperand.whole (h : LosesOperand ns s) : LosesWhole ns s := by
  refine ⟨h.opens, ?_⟩
  intro ts fuel made p c hts hfuel hp
  exact h.expression hts (by omega) hp

theorem LosesWhole.wider (h : LosesWhole ns s) (others : List String) :
    LosesWhole (ns ++ others) s := by
  refine ⟨h.opens, ?_⟩
  intro ts fuel made p c hts hfuel hp
  exact (h.loses hts hfuel hp).wider others

/-- More expressions behind a lost one do not bring it back. -/
theorem LosesWhole.sequence (h : LosesWhole ns s) {ts : List Token} (hts : CutInto s ts)
    {fuel made : Nat} (hfuel : 8 * ts.length ≤ fuel) {p : Node} {c : Cursor}
    (hp : (Expr.Grammar.sequence (fuel + 1) false).run ⟨ts, made⟩ = some (p, c)) :
    Lost ns p c.rest := by
  have hsequence := hp
  rw [Expr.Grammar.sequence, StateT.run_bind] at hsequence
  obtain ⟨⟨first, d⟩, hfirst, _⟩ := Option.bind_eq_some_iff.mp hsequence
  have hd := ((Expr.Grammar.makesNodes fuel).expression false 0 _ hts.proper first d hfirst).2
  exact (h.loses hts hfuel hfirst).sequence hd hfirst hp

/-- Where reading is stuck, no closing mark and no comma follows. -/
theorem Stuck.head_ne {rest : List Token} (h : Stuck rest) {t : Token} (ht : t ∈ closers) :
    rest.head? ≠ some t := by
  obtain ⟨u, us, rfl, hu⟩ := h
  have hclosers : ∀ t ∈ closers, isStuck t = false := by decide
  intro he
  rw [List.head?_cons, Option.some.injEq] at he
  rw [he, hclosers t ht] at hu
  cases hu

/-- Parentheses around a lost expression are closed only when it went astray. -/
theorem LosesWhole.grouped (h : LosesWhole ns s) : LosesOperand ns ('(' :: s) := by
  refine ⟨?_, ?_⟩
  · intro ts hts
    obtain ⟨us, rfl, _⟩ := hts.bracket (by decide)
    exact ⟨_, us, rfl, rfl⟩
  · intro ts fuel made p c hts hfuel hp
    obtain ⟨us, rfl, hus⟩ := hts.bracket (by decide)
    rw [List.length_cons] at hfuel
    obtain ⟨fuel, rfl⟩ : ∃ j, fuel = j + 2 := ⟨fuel - 2, by omega⟩
    rw [Expr.Grammar.primary_group, StateT.run_bind] at hp
    obtain ⟨⟨n, d⟩, hn, hp⟩ := Option.bind_eq_some_iff.mp hp
    obtain ⟨⟨u, e⟩, he, hp⟩ := Option.bind_eq_some_iff.mp hp
    have hd := ((Expr.Grammar.makesNodes (fuel + 1)).sequence false _ hus.proper n d hn).2
    have hlost := h.sequence hus (by omega) hn
    obtain ⟨hclose, _⟩ := Expr.Grammar.expect_cases he
    have hastray := hlost.resolve_right fun hstuck => hstuck.head_ne (by decide) hclose
    exact Lost.accesses (.inl hastray) (Gives.expect rfl d hd u e he).2 hp

/-- A negation does not bring its operand back. -/
theorem LosesOperand.negated {b : Char} (h : LosesOperand ns (b :: s)) (hb : b ∉ ['&', '=', '*']) :
    LosesWhole ns ('!' :: b :: s) := by
  have hsplit : ∀ {ts}, CutInto ('!' :: b :: s) ts →
      ∃ us, ts = .op "!" :: us ∧ CutInto (b :: s) us := by
    intro ts hts
    obtain ⟨us, hus, rfl⟩ := hts.split (ScansTo.stop.bang hb)
    exact ⟨us, rfl, hus⟩
  refine LosesOperand.whole ⟨?_, ?_⟩
  · intro ts hts
    obtain ⟨us, rfl, _⟩ := hsplit hts
    exact ⟨_, us, rfl, rfl⟩
  · intro ts fuel made p c hts hfuel hp
    obtain ⟨us, rfl, hus⟩ := hsplit hts
    rw [List.length_cons] at hfuel
    obtain ⟨fuel, rfl⟩ : ∃ j, fuel = j + 1 := ⟨fuel - 1, by omega⟩
    have hprimary : (Expr.Grammar.primary (fuel + 1) false).run ⟨.op "!" :: us, made⟩ =
        ((Expr.Grammar.expression fuel false 50).run ⟨us, made⟩).bind fun q =>
          (Expr.Grammar.accesses fuel false (.unary "!" q.1)).run ⟨q.2.rest, q.2.made + 1⟩ := rfl
    rw [hprimary] at hp
    obtain ⟨⟨x, d⟩, hx, hp⟩ := Option.bind_eq_some_iff.mp hp
    have hd := ((Expr.Grammar.makesNodes fuel).expression false 50 ⟨us, made⟩ hus.proper x d hx).2
    have hlost : Lost ns (.unary "!" x) d.rest :=
      (h.expression hus (by omega) hx).imp (fun hastray => hastray.strays.unary "!") id
    exact hlost.accesses (c := ⟨d.rest, d.made + 1⟩) hd hp

/-- The tree of a text that is read back has the names of the value. -/
theorem Rendering.tracks {v : Value} {t : String} {ts : List Token} {n : Node}
    (h : Rendering (mended v) t ts n) : Tracks (track v) n := by
  intro o w hw
  obtain ⟨u, hu, hsame⟩ := h.means o
  rw [hu] at hw
  cases hw
  rw [track_of_same hsame, track, track, namesIn_mended]

/-- Behind an operator and a lost operand, reading is lost behind the names of the operand
before them. -/
theorem LosesOperand.operators (h : LosesOperand ns s) {n : Node} {before : List String}
    (hn : Tracks before n) (hmade : Node.Made n) {op : String} (hop : op ∈ Token.infixSymbols)
    {us : List Token} (hus : CutInto s us) {fuel made : Nat} (hfuel : 8 * us.length ≤ fuel + 3)
    {m : Node} {c : Cursor}
    (hm : (Expr.Grammar.operators (fuel + 2) false 0 "" n).run ⟨.op op :: us, made⟩
      = some (m, c)) : Lost (before ++ ns) m c.rest := by
  have hmakes := Expr.Grammar.makesNodes (fuel + 1)
  rcases Expr.Grammar.comparing_or_combining op hop with hop | hop
  · rw [Expr.Grammar.operators_comparing hop] at hm
    obtain ⟨⟨q, d⟩, hq, hm⟩ := Option.bind_eq_some_iff.mp hm
    have hd := (hmakes.comparison false op n none hmade (fun _ h => nomatch h) _ hus.proper q d
      hq).2
    have hcomparison := hq
    rw [Expr.Grammar.comparison, StateT.run_bind] at hcomparison
    obtain ⟨⟨right, e⟩, hright, _⟩ := Option.bind_eq_some_iff.mp hcomparison
    have he := ((Expr.Grammar.makesNodes fuel).expression false 21 _ hus.proper right e hright).2
    have hlost := h.expression hus (by omega) hright
    exact (hlost.comparison he hn hright hq).operators hd hm
  · rw [Expr.Grammar.operators_combining hop] at hm
    obtain ⟨⟨q, d⟩, hq, hm⟩ := Option.bind_eq_some_iff.mp hm
    have hd := (hmakes.expression false _ _ hus.proper q d hq).2
    have hpair : Lost (before ++ ns) (.binary op n q) d.rest :=
      (h.expression hus (by omega) hq).imp (fun hastray => hastray.strays.binaryBehind hn op) id
    exact hpair.operators (c := ⟨d.rest, d.made + 1⟩) hd hm

/-- A lost operand behind an operator is lost behind the names of the operand before it. -/
theorem LosesOperand.joined (h : LosesOperand ns s) {a : String} {ts : List Token} {n : Node}
    {before : List String} (hcuts : Cuts a ts) (hoperand : Operand ts n) (hn : Tracks before n)
    {op : String} (hop : op ∈ Token.infixSymbols) :
    LosesWhole (before ++ ns) (a.toList ++ ' ' :: (op.toList ++ ' ' :: s)) := by
  refine ⟨?_, ?_⟩
  · intro all hall
    obtain ⟨us, rfl, _⟩ := hall.behind hcuts (ends_cons (by decide) _)
    exact hoperand.opens.append _
  · intro all fuel made p c hall hfuel hp
    obtain ⟨vs, rfl, hvs⟩ := hall.behind hcuts (ends_cons (by decide) _)
    obtain ⟨us, rfl, hus⟩ := hvs.symbol hop
    rw [List.length_append, List.length_cons] at hfuel
    have hpos := hoperand.opens.length_pos
    obtain ⟨fuel, rfl⟩ : ∃ j, fuel = j + 4 := ⟨fuel - 4, by omega⟩
    have hread := hoperand.reads (fuel + 3) (.op op :: us) made (by omega)
      (Expr.Grammar.follows_cons hop us)
    have hmakes := Expr.Grammar.makesNodes (fuel + 3)
    obtain ⟨hmade, _⟩ := hmakes.primary false _ hall.proper n _ hread
    rw [Expr.Grammar.expression_eq (hoperand.opens.append _), hread, Option.bind_some] at hp
    obtain ⟨⟨m, d⟩, hm, hp⟩ := Option.bind_eq_some_iff.mp hp
    have hd := (hmakes.operators false 0 "" n hmade _ hvs.proper m d hm).2
    exact (h.operators hn hmade hop hus (by omega) hm).choice hd hp

/-! ## Rows of expressions -/

/-- What is read as items from this text on parts from the names. -/
def LosesItems (ns : List String) (close : Char) (s : List Char) : Prop :=
  ∀ ⦃ts fuel made found args c⦄, CutInto s ts → 8 * ts.length + 1 ≤ fuel →
    (Expr.Grammar.items fuel false close found).run ⟨ts, made⟩ = some (args, c) →
    ∃ more, args = found.reverse ++ more ∧ StraysAll ns more

/-- The items that were found stay at the front. -/
theorem gives_found {close : Char} (hclose : Token.isHash (.bracket close) = false) (fuel : Nat)
    (found : List Node) :
    Gives (Expr.Grammar.items fuel false close found) fun args =>
      ∃ more, args = found.reverse ++ more := by
  induction fuel generalizing found with
  | zero => exact .failure
  | succ fuel ih =>
    rw [Expr.Grammar.items]
    refine .lookAhead (.advance hclose (.pure ⟨[], by simp⟩)) ?_
    refine ((Expr.Grammar.makesNodes fuel).expression false 0).bind fun n _ => ?_
    refine .lookAhead (.advance hclose (.pure ⟨[n], by simp⟩)) ?_
    refine (Gives.expect rfl).bind fun _ _ => (ih (n :: found)).mono ?_
    rintro args ⟨more, rfl⟩
    exact ⟨n :: more, by simp⟩

/-- A first item that is lost goes astray, as nothing that ends an item follows where reading
is stuck. -/
theorem LosesWhole.items (h : LosesWhole ns s) {close : Char} (hclose : .bracket close ∈ closers) :
    LosesItems ns close s := by
  intro ts fuel made found args c hts hfuel hargs
  obtain ⟨fuel, rfl⟩ : ∃ j, fuel = j + 1 := ⟨fuel - 1, by omega⟩
  rw [Expr.Grammar.items_eq hclose (h.opens hts)] at hargs
  obtain ⟨⟨n, d⟩, hn, hargs⟩ := Option.bind_eq_some_iff.mp hargs
  have hlost := h.loses hts (by omega) hn
  have hastray : ∀ {t}, t ∈ closers → d.rest.head? = some t → Astray ns n := by
    intro t ht hhead
    exact hlost.resolve_right fun hstuck => hstuck.head_ne ht hhead
  dsimp only at hargs
  by_cases hend : d.rest.head? = some (.bracket close)
  · rw [if_pos hend] at hargs
    cases hargs
    exact ⟨[n], rfl, (hastray hclose hend).strays.cons []⟩
  · rw [if_neg hend] at hargs
    by_cases hcomma : d.rest.head? = some (.op ",")
    · rw [if_pos hcomma] at hargs
      have hd := ((Expr.Grammar.makesNodes fuel).expression false 0 _ hts.proper n d hn).2
      have hexpect : (Expr.Grammar.expect (.op ",")).run d = some ((), ⟨d.rest.tail, d.made⟩) := by
        simp [Expr.Grammar.expect, hcomma]
      have htail := (Gives.expect rfl d hd () _ hexpect).2
      obtain ⟨more, rfl⟩ := (gives_found rfl fuel (n :: found) _ htail args c hargs).1
      exact ⟨n :: more, by simp, (hastray (by decide) hcomma).strays.cons more⟩
    · rw [if_neg hcomma] at hargs
      cases hargs

/-- Items are lost behind the names of one that is read as it should. -/
theorem LosesItems.behind {close : Char} (h : LosesItems ns close s) {a : String}
    {ts : List Token} {n : Node} {before : List String} (hcuts : Cuts a ts)
    (hwhole : Whole ts n) (hn : Tracks before n) (hclose : .bracket close ∈ closers) :
    LosesItems (before ++ ns) close (a.toList ++ ',' :: ' ' :: s) := by
  intro all fuel made found args c hall hfuel hargs
  obtain ⟨vs, rfl, hvs⟩ := hall.behind hcuts (ends_cons (by decide) _)
  obtain ⟨us, hus, rfl⟩ := hvs.split ScansTo.stop.blank.comma
  rw [List.length_append, List.length_append] at hfuel
  obtain ⟨fuel, rfl⟩ : ∃ j, fuel = j + 1 := ⟨fuel - 1, by omega⟩
  rw [Expr.Grammar.items_eq hclose (hwhole.opens.append _), List.singleton_append,
    hwhole.reads fuel (.op "," :: us) made (by omega) (Expr.Grammar.closes_cons (by decide) us),
    Option.bind_some, if_neg (by simp)] at hargs
  have hmore : (Expr.Grammar.items fuel false close (n :: found)).run ⟨us, made + n.size⟩
      = some (args, c) := hargs
  obtain ⟨more, rfl, hstrays⟩ := h hus (by simp at hfuel; omega) hmore
  exact ⟨n :: more, by simp, hstrays.behind hn⟩

/-- A tree made of items that part from the names is lost when it parts from the names too. -/
theorem LosesItems.closed {close : Char} (h : LosesItems ns close s) {us : List Token}
    (hus : CutInto s us) {fuel k made : Nat} (hfuel : 8 * us.length + 1 ≤ fuel)
    {others : List String} {f : List Node → Node}
    (hf : ∀ args, StraysAll ns args → Astray others (f args)) {p : Node} {c : Cursor}
    (hp : (((Expr.Grammar.items fuel false close []).run ⟨us, made⟩).bind fun q =>
      (Expr.Grammar.accesses k false (f q.1)).run ⟨q.2.rest, q.2.made + 1⟩) = some (p, c)) :
    Lost others p c.rest := by
  obtain ⟨⟨args, d⟩, hargs, hp⟩ := Option.bind_eq_some_iff.mp hp
  have hd := ((Expr.Grammar.makesNodes fuel).items false close [] rfl trivial _ hus.proper args d
    hargs).2
  obtain ⟨more, rfl, hmore⟩ := h hus hfuel hargs
  exact Lost.accesses (c := ⟨d.rest, d.made + 1⟩) (.inl (hf _ hmore)) hd hp

theorem LosesItems.array (h : LosesItems ns ']' s) : LosesOperand ns ('[' :: s) := by
  refine ⟨?_, ?_⟩
  · intro ts hts
    obtain ⟨us, rfl, _⟩ := hts.bracket (by decide)
    exact ⟨_, us, rfl, rfl⟩
  · intro ts fuel made p c hts hfuel hp
    obtain ⟨us, rfl, hus⟩ := hts.bracket (by decide)
    rw [List.length_cons] at hfuel
    obtain ⟨fuel, rfl⟩ : ∃ j, fuel = j + 1 := ⟨fuel - 1, by omega⟩
    have hprimary : (Expr.Grammar.primary (fuel + 1) false).run ⟨.bracket '[' :: us, made⟩ =
        ((Expr.Grammar.items fuel false ']' []).run ⟨us, made⟩).bind fun q =>
          (Expr.Grammar.accesses fuel false (.array q.1)).run ⟨q.2.rest, q.2.made + 1⟩ := rfl
    rw [hprimary] at hp
    exact h.closed hus (by omega) (fun _ hargs => Strays.array hargs) hp

/-! ## Calls -/

/-- A plain name before parentheses is cut into its parts. -/
theorem CutInto.call {name : String} (hname : IsPlain name) {ts : List Token}
    (h : CutInto (name.toList ++ '(' :: s) ts) :
    ∃ us, ts = .word (firstPart name) :: (pointTokens (moreParts name) ++ .bracket '(' :: us) ∧
      CutInto s us := by
  have hparen : ScansTo s ('(' :: s) [.bracket '('] := .bracket .stop (by decide)
  obtain ⟨us, hus, rfl⟩ := h.split (hname.scans hparen (ends_cons (by decide) s).stops)
  exact ⟨us, by simp, hus⟩

/-- A call whose arguments part from the names parts from them behind its own. -/
theorem StraysAll.callNode {name : String} {args : List Node} (h : StraysAll ns args)
    (hliteral : isLiteralFunction name = false) :
    Astray ([name].filter isDotted ++ ns) (Expr.Grammar.callNode name args) := by
  have hf : isLiteralFunction name = true → ∀ o v, literalCall o name args ≠ .ok v := by
    intro htrue
    rw [hliteral] at htrue
    cases htrue
  rw [Expr.Grammar.callNode]
  split
  · exact h.builtin hf
  · exact h.call (fun _ _ hg => (Except.ok.inj hg).symm) hf

theorem StraysAll.chainCall {name : String} {args : List Node} (h : StraysAll ns args)
    (hliteral : isLiteralFunction name = false) :
    Astray ([name].filter isDotted ++ ns)
      (.call (chainNode (.ident (firstPart name)) (moreParts name)) args) := by
  have hstatic := staticName_parts name
  refine h.call ?_ fun htrue => absurd htrue (by simp [hliteral])
  intro o g hg
  rw [(ofNode_link (isLink_of_staticName hstatic) hstatic o).2] at hg
  exact (Except.ok.inj hg).symm

/-- Arguments that are lost leave the call lost. -/
theorem LosesItems.call {name : String} (hname : IsPlain name)
    (hliteral : isLiteralFunction name = false) (hshape : Node.predicateShape name = none)
    (h : LosesItems ns ')' s) :
    LosesOperand ([name].filter isDotted ++ ns) (name.toList ++ '(' :: s) := by
  have hfirst := hname.first_ne
  refine ⟨?_, ?_⟩
  · intro ts hts
    obtain ⟨us, rfl, _⟩ := hts.call hname
    exact ⟨_, _, rfl, rfl⟩
  · intro ts fuel made p c hts hfuel hp
    obtain ⟨us, rfl, hus⟩ := hts.call hname
    rw [List.length_cons, List.length_append, List.length_cons,
      Expr.Grammar.length_pointTokens] at hfuel
    have hchain : ∀ args, StraysAll ns args → _ := fun args hargs => hargs.chainCall hliteral
    cases hmore : moreParts name with
    | nil =>
      rw [firstPart_of_moreParts hmore] at hfirst
      obtain ⟨fuel, rfl⟩ : ∃ j, fuel = j + 2 := ⟨fuel - 2, by omega⟩
      have htokens : Token.word (firstPart name) ::
          (pointTokens (moreParts name) ++ .bracket '(' :: us)
            = .word name :: .bracket '(' :: us := by
        rw [firstPart_of_moreParts hmore, hmore]
        rfl
      rw [htokens, Expr.Grammar.primary_call hfirst, Expr.Grammar.call_word hshape] at hp
      exact h.closed hus (by omega) (fun _ hargs => hargs.callNode hliteral) hp
    | cons u more =>
      rw [hmore] at hp hfuel hchain
      rw [List.length_cons] at hfuel
      obtain ⟨fuel, rfl⟩ : ∃ j, fuel = j + more.length + 3 := ⟨fuel - more.length - 3, by omega⟩
      have hhead : (pointTokens (u :: more) ++ .bracket '(' :: us).head? ≠ some (.bracket '(') := by
        rw [Expr.Grammar.pointTokens_cons]
        simp
      rw [Expr.Grammar.primary_word hfirst hhead, Expr.Grammar.accesses_chainCall rfl] at hp
      exact h.closed hus (by omega) hchain hp

/-- Behind a lost first argument the call goes astray, as no predicate follows where reading is
stuck. -/
theorem Lost.foldRest {n m : Node} {c c' : Cursor} (h : Lost ns n c.rest)
    (hc : ProperFrom false c.rest) {w : String} (hw : Token.IsWord w) {fuel : Nat}
    (hm : (Expr.Grammar.foldRest fuel w n).run c = some (m, c')) : Astray ns m := by
  have hmakes := Expr.Grammar.makesNodes fuel
  rcases h with h | h
  · have hgives : Gives (Expr.Grammar.foldRest fuel w n) (Astray ns) := by
      refine (hmakes.predicateArgs false false _).bind fun args _ => ?_
      have hend : Gives (do
          Expr.Grammar.expect (.bracket ')')
          let m ← Expr.Grammar.make (.builtin w (n :: args))
          Expr.Grammar.accesses (fuel + 1) false m) (Astray ns) := by
        refine (Gives.expect rfl).bind fun _ _ => .made ?_
        exact (keepsAstray ns (fuel + 1)).accesses false _ (h.builtin hw args)
      exact .lookAhead (.advance rfl hend) hend
    exact (hgives c hc m c' hm).1
  · have hnone : (Expr.Grammar.predicateArgs fuel false false [⟨true, true⟩]).run c = none := by
      cases fuel with
      | zero => rfl
      | succ fuel =>
        have hclose := h.head_ne (t := .bracket ')') (by decide)
        have hcomma := h.head_ne (t := .op ",") (by decide)
        simp [Expr.Grammar.predicateArgs, Expr.Grammar.expect, hclose, hcomma]
    rw [Expr.Grammar.foldRest, StateT.run_bind, hnone] at hm
    cases hm

theorem IsPlain.isWord_folding {w : String} (h : IsPlain w) (hw : w ∈ Expr.Grammar.foldingWords) :
    Token.IsWord w := by
  have hword := h.headed.word
  rw [firstPart_of_moreParts (moreParts_predefined w (List.mem_append_right _ hw))] at hword
  exact hword

/-- The argument of a function whose predicate is left out may be lost. -/
theorem LosesWhole.fold {w : String} (hw : w ∈ Expr.Grammar.foldingWords) (hplain : IsPlain w)
    (h : LosesWhole ns s) : LosesOperand ns (w.toList ++ '(' :: s) := by
  have hsplit : ∀ {ts}, CutInto (w.toList ++ '(' :: s) ts →
      ∃ us, ts = .word w :: .bracket '(' :: us ∧ CutInto s us := by
    intro ts hts
    obtain ⟨us, rfl, hus⟩ := hts.call hplain
    have hmore := moreParts_predefined w (List.mem_append_right _ hw)
    rw [firstPart_of_moreParts hmore, hmore]
    exact ⟨us, rfl, hus⟩
  refine ⟨?_, ?_⟩
  · intro ts hts
    obtain ⟨us, rfl, _⟩ := hsplit hts
    exact ⟨_, _, rfl, rfl⟩
  · intro ts fuel made p c hts hfuel hp
    obtain ⟨us, rfl, hus⟩ := hsplit hts
    rw [List.length_cons, List.length_cons] at hfuel
    obtain ⟨fuel, rfl⟩ : ∃ j, fuel = j + 3 := ⟨fuel - 3, by omega⟩
    rw [Expr.Grammar.primary_call (Expr.Grammar.not_value_of_folding w hw),
      Expr.Grammar.call_fold hw] at hp
    obtain ⟨⟨n, d⟩, hn, hp⟩ := Option.bind_eq_some_iff.mp hp
    have hd := ((Expr.Grammar.makesNodes fuel).expression false 0 _ hus.proper n d hn).2
    exact .inl ((h.loses hus (by omega) hn).foldRest hd (hplain.isWord_folding hw) hp)

/-! ## Names -/

theorem isDotted_of_moreParts {name : String} (h : moreParts name ≠ []) : isDotted name := by
  by_cases hdotted : isDotted name
  · exact hdotted
  · refine absurd ?_ h
    have hne : ∀ c ∈ name.toList, c ≠ '.' := by
      rintro c hc rfl
      exact hdotted (List.contains_iff_mem.mpr hc)
    rw [moreParts, segments_of_ne hne]

theorem losesOperand_name {name : String} (h : IsHeaded name) (hplain : ¬ IsPlain name)
    (hs : Ends s) (others : List String) :
    LosesOperand ([name].filter isDotted ++ others) (name.toList ++ s) := by
  have hfilter : [name].filter isDotted = [name] := by
    rw [List.filter_cons, if_pos (isDotted_of_moreParts (h.moreParts_ne hplain))]
    rfl
  rw [hfilter, List.singleton_append]
  refine ⟨?_, ?_⟩
  · intro ts hts
    obtain ⟨us, rfl, _⟩ := hts.first hs h.word
    exact ⟨_, us, rfl, rfl⟩
  · intro ts fuel made p c hts _ hp
    exact primary_name h hplain hs hts others hp

/-- Nothing can be called that is a value of its own. -/
theorem losesOperand_value {w : String} (hw : w ∈ Expr.Grammar.valueWords) :
    LosesOperand ns (w.toList ++ '(' :: s) := by
  have hsplit : ∀ {ts}, CutInto (w.toList ++ '(' :: s) ts →
      ∃ us, ts = .word w :: .bracket '(' :: us := by
    intro ts hts
    have hvalues : ∀ w ∈ Expr.Grammar.valueWords,
        Token.isIdentifier w.toList ∧ Token.ofWord (String.ofList w.toList) = .word w := by decide
    obtain ⟨hidentifier, hword⟩ := hvalues w hw
    have hparen : ScansTo s ('(' :: s) [.bracket '('] := .bracket .stop (by decide)
    obtain ⟨us, _, rfl⟩ := hts.split (hparen.word hidentifier (ends_cons (by decide) s).stops)
    rw [hword]
    exact ⟨us, rfl⟩
  refine ⟨?_, ?_⟩
  · intro ts hts
    obtain ⟨us, rfl⟩ := hsplit hts
    exact ⟨_, _, rfl, rfl⟩
  · intro ts fuel made p c hts _ hp
    obtain ⟨us, rfl⟩ := hsplit hts
    have hrest : c.rest = .bracket '(' :: us := by
      cases fuel with
      | zero => cases hp
      | succ fuel =>
        simp only [Expr.Grammar.valueWords, List.mem_cons, List.not_mem_nil, or_false] at hw
        rcases hw with rfl | rfl | rfl <;> cases hp <;> rfl
    exact .inr ⟨_, us, hrest, rfl⟩

/-- A callee that is not plain is misread. -/
theorem losesOperand_callee {name : String} {count : Nat} (h : IsCallee name count)
    (hplain : ¬ IsPlain name) (others : List String) :
    LosesOperand ([name].filter isDotted ++ others) (name.toList ++ '(' :: s) := by
  by_cases hmore : moreParts name = []
  · have hname := firstPart_of_moreParts hmore
    rw [firstPart] at hname
    have hvalue : name ∈ Expr.Grammar.valueWords := by
      by_contra hvalue
      refine hplain ⟨h.first, ?_, ?_⟩
      · rw [List.mem_append, not_or]
        exact ⟨h.inert, by rwa [hname]⟩
      · rw [← moreParts, hmore]
        exact List.forall_mem_nil _
    exact losesOperand_value hvalue
  · exact losesOperand_name (h.member hmore) hplain (ends_cons (by decide) s) others

/-! ## Misread values -/

/-- Where the text `t` of `v` stands, reading is lost to the names of `v`. -/
structure Misread (v : Value) (t : String) : Prop where
  leads : Leads t
  whole : ∀ {rest}, Ends rest → LosesWhole (track v) (t.toList ++ rest)
  operand : ∀ {rest}, Ends rest → LosesOperand (track v) ((group v t).toList ++ rest)

theorem Misread.of_operand {v : Value} {t : String} (hg : isGrouped v = false) (hleads : Leads t)
    (h : ∀ {rest}, Ends rest → LosesOperand (track v) (t.toList ++ rest)) : Misread v t := by
  refine ⟨hleads, fun hrest => (h hrest).whole, ?_⟩
  rw [group, hg]
  exact h

theorem Misread.of_whole {v : Value} {t : String} (hg : isGrouped v) (hleads : Leads t)
    (h : ∀ {rest}, Ends rest → LosesWhole (track v) (t.toList ++ rest)) : Misread v t := by
  refine ⟨hleads, h, ?_⟩
  intro rest _
  have hlist : (group v t).toList ++ rest = '(' :: (t.toList ++ ')' :: rest) := by
    rw [group, if_pos hg]
    simp
  rw [hlist]
  exact (h (ends_cons (by decide) rest)).grouped

/-- Where the text `t` of some values stands, the items read part from their names. -/
structure MisreadAll (vs : List Value) (t : String) : Prop where
  items : ∀ {close rest}, .bracket close ∈ closers →
    LosesItems (trackAll vs) close (t.toList ++ close :: rest)
  single : ∀ v, vs = [v] → Misread v t

theorem ends_close {close : Char} (h : .bracket close ∈ closers) (rest : List Char) :
    Ends (close :: rest) := by
  simp only [closers, List.mem_cons, Token.bracket.injEq, reduceCtorEq, List.not_mem_nil,
    or_false] at h
  rcases h with rfl | rfl <;> exact ends_cons (by decide) rest

theorem Misread.items {v : Value} {t : String} (h : Misread v t) (hs : Ends s) {close : Char}
    (hclose : .bracket close ∈ closers) (others : List String) :
    LosesItems (track v ++ others) close (t.toList ++ s) :=
  ((h.whole hs).wider others).items hclose

/-- A value with plain names is read as it was written, but for characters that do not exist. -/
theorem Formed.rendering {v : Value} (h : Formed v) (hnames : ∀ n ∈ namesIn v, IsPlain n)
    {t : String} (ht : source v = .ok t) : ∃ ts n, Rendering (mended v) t ts n := by
  rw [← source_mended] at ht
  exact rendering_of_source (mended v) ht (h.expressible hnames)

theorem Misread.list {p : Pos} {elems : List Value} {t : String} (h : MisreadAll elems t) :
    Misread (.list p elems) ("[" ++ t ++ "]") := by
  refine .of_operand rfl ⟨'[', t.toList ++ [']'], by simp, by decide⟩ ?_
  intro rest _
  have hlist : ("[" ++ t ++ "]").toList ++ rest = '[' :: (t.toList ++ ']' :: rest) := by simp
  rw [hlist]
  exact (h.items (by decide)).array

theorem toList_call (name t : String) (rest : List Char) :
    (name ++ "(" ++ t ++ ")").toList ++ rest = name.toList ++ '(' :: (t.toList ++ ')' :: rest) := by
  simp

/-- A call is misread when its callee is not plain, or its arguments are misread. -/
theorem Misread.call {p : Pos} {name : String} {args : List Value} {t : String}
    (hname : IsCallee name args.length) (h : IsPlain name → MisreadAll args t) :
    Misread (.call p name args) (name ++ "(" ++ t ++ ")") := by
  have hleads := (((leads_of_first hname.first).append "(").append t).append ")"
  refine .of_operand rfl hleads ?_
  intro rest _
  rw [toList_call, track_call]
  by_cases hplain : IsPlain name
  · rcases hname.shape with hshape | ⟨hfold, hcount⟩
    · exact ((h hplain).items (by decide)).call hplain hname.literal hshape
    · obtain ⟨x, rfl⟩ := List.length_eq_one_iff.mp hcount
      have htrack : [name].filter isDotted ++ trackAll [x] = track x := by
        rw [filter_word (hplain.isWord_folding hfold), trackAll_cons]
        exact List.append_nil _
      rw [htrack]
      exact (((h hplain).single x rfl).whole (ends_cons (by decide) rest)).fold hfold hplain
  · exact losesOperand_callee hname hplain _

/-- A bitwise operator is misread when the arguments of its function are. -/
theorem Misread.function {p : Pos} {op : Operator} {f t : String} {x y : Value}
    (hf : functionOf op = some f)
    (h : ∀ {rest}, LosesItems (track x ++ track y) ')' (t.toList ++ ')' :: rest)) :
    Misread (.operator p op x y) (f ++ "(" ++ t ++ ")") := by
  obtain ⟨hown, _, hliteral⟩ := functionOf_mem hf
  obtain ⟨hplain, _, _, hshape⟩ := isPlain_of_own f hown
  have hdotted : [f].filter isDotted = [] := by
    rw [List.filter_cons, isDotted_of_bitwise (bitwiseFunction_functionOf hf)]
    rfl
  refine .of_operand ?_ (((hplain.leads.append "(").append t).append ")") ?_
  · rw [isGrouped, hf]
    rfl
  · intro rest _
    have hcall := LosesItems.call hplain hliteral hshape (@h rest)
    rw [hdotted, List.nil_append] at hcall
    rw [toList_call, track_operator]
    exact hcall

theorem Misread.negated {p : Pos} {x : Value} {a : String} (h : Misread x a) :
    Misread (.operator p .not x .absent) (Operator.not.symbol ++ group x a) := by
  refine .of_whole rfl ⟨'!', (group x a).toList, by simp [Operator.symbol], by decide⟩ ?_
  intro rest hrest
  obtain ⟨c, r, hcr, hc⟩ := h.leads.group x
  have hoperand := h.operand hrest
  have htrack : track (.operator p .not x .absent) = track x := by
    rw [track_operator]
    exact List.append_nil _
  rw [htrack, String.toList_append, List.append_assoc]
  rw [hcr, List.cons_append] at hoperand ⊢
  exact hoperand.negated hc

theorem toList_joined (a b c : String) (rest : List Char) :
    (a ++ " " ++ b ++ " " ++ c).toList ++ rest
      = a.toList ++ ' ' :: (b.toList ++ ' ' :: (c.toList ++ rest)) := by
  simp

/-- An operator between operands is misread when its first operand is. -/
theorem Misread.joined {p : Pos} {op : Operator} {x y : Value} {a b : String} (h : Misread x a)
    (hf : functionOf op = none) :
    Misread (.operator p op x y) (group x a ++ " " ++ op.symbol ++ " " ++ group y b) := by
  refine .of_whole ?_ ?_ ?_
  · rw [isGrouped, hf]
    rfl
  · exact ((((h.leads.group x).append " ").append op.symbol).append " ").append (group y b)
  · intro rest _
    rw [toList_joined, track_operator]
    exact (h.operand (ends_cons (by decide) _)).whole.wider _

/-- It is misread as well when its first operand is read back and its second is misread. -/
theorem Misread.joinedBehind {p : Pos} {op : Operator} {x y : Value} {a b : String}
    {ts : List Token} {n : Node} (h : Misread y b) (hx : Rendering (mended x) a ts n)
    (hf : functionOf op = none) (hop : op.isUnary = false) :
    Misread (.operator p op x y) (group x a ++ " " ++ op.symbol ++ " " ++ group y b) := by
  refine .of_whole ?_ ?_ ?_
  · rw [isGrouped, hf]
    rfl
  · exact ((((hx.leads.group x).append " ").append op.symbol).append " ").append (group y b)
  · intro rest hrest
    have hcuts := hx.cuts_group
    rw [group_mended] at hcuts
    rw [toList_joined, track_operator]
    exact (h.operand hrest).joined hcuts hx.operand hx.tracks (symbol_mem hf hop)

/-! ## Every value -/

/-- More values behind a first one are written like values of their own. -/
theorem sourceJoin_of_rest {v : Value} {vs : List Value} {t : String}
    (h : sourceRest (v :: vs) = .ok t) : ∃ r, sourceJoin (v :: vs) = .ok r ∧ t = ", " ++ r := by
  obtain ⟨a, ha, h⟩ := Fault.bind_ok h
  obtain ⟨b, hb, h⟩ := Fault.bind_ok h
  cases h
  refine ⟨a ++ b, ?_, String.append_assoc⟩
  rw [sourceJoin, ha, hb]
  rfl

theorem toList_comma (a b : String) (rest : List Char) :
    (a ++ (", " ++ b)).toList ++ rest = a.toList ++ ',' :: ' ' :: (b.toList ++ rest) := by
  simp

/-- Items are lost when the first is misread, or is read back and the others are lost. -/
theorem losesItems_cons {x : Value} {a : String} {close : Char} (hx : Formed x)
    (ha : source x = .ok a) (hfirst : (¬ ∀ n ∈ namesIn x, IsPlain n) → Misread x a)
    (hmore : (∀ n ∈ namesIn x, IsPlain n) → LosesItems ns close s)
    (hclose : .bracket close ∈ closers) :
    LosesItems (track x ++ ns) close (a.toList ++ ',' :: ' ' :: s) := by
  by_cases hplain : ∀ n ∈ namesIn x, IsPlain n
  · obtain ⟨ts, n, h⟩ := hx.rendering hplain ha
    exact (hmore hplain).behind h.cuts h.whole h.tracks hclose
  · exact (hfirst hplain).items (ends_cons (by decide) _) hclose ns

mutual

/-- A value in which some name is not plain is misread. -/
theorem misread_of_source : ∀ (v : Value) {t : String}, source v = .ok t → Formed v →
    (¬ ∀ n ∈ namesIn v, IsPlain n) → Misread v t
  | .name p n, t, ht, hv, hnames => by
    cases ht
    have hplain : ¬ IsPlain n := fun h => hnames (List.forall_mem_singleton.mpr h)
    refine .of_operand rfl (leads_of_first hv.first) ?_
    intro rest hrest
    have hname := losesOperand_name hv hplain hrest []
    rw [List.append_nil] at hname
    exact hname
  | .list p elems, t, ht, hv, hnames => by
    obtain ⟨r, hr, ht⟩ := Fault.bind_ok ht
    cases ht
    exact .list (misread_of_sourceJoin elems hr hv hnames)
  | .call p n args, t, ht, hv, hnames => by
    obtain ⟨r, hr, ht⟩ := Fault.bind_ok ht
    cases ht
    refine .call hv.1 fun hplain => misread_of_sourceJoin args hr hv.2 ?_
    intro hargs
    exact hnames (List.forall_mem_cons.mpr ⟨hplain, hargs⟩)
  | .operator p op x y, t, ht, hv, hnames => by
    obtain ⟨hx, hy⟩ := hv
    rw [namesIn, List.forall_mem_append, not_and] at hnames
    rw [source] at ht
    cases hf : functionOf op with
    | some f =>
      rw [hf] at ht
      obtain ⟨a, ha, ht⟩ := Fault.bind_ok ht
      by_cases hop : op.isUnary
      · rw [if_pos hop] at ht hy
        cases ht
        subst hy
        refine .function hf fun {rest} => ?_
        refine (misread_of_source x ha hx ?_).items (ends_cons (by decide) rest) (by decide) _
        exact fun h => hnames h fun _ hn => nomatch hn
      · rw [if_neg hop] at ht hy
        obtain ⟨b, hb, ht⟩ := Fault.bind_ok ht
        cases ht
        have htext : f ++ "(" ++ a ++ ", " ++ b ++ ")" = f ++ "(" ++ (a ++ (", " ++ b)) ++ ")" := by
          simp only [String.append_assoc]
        rw [htext]
        refine .function hf fun {rest} => ?_
        rw [toList_comma]
        refine losesItems_cons hx ha (misread_of_source x ha hx) (fun hplain => ?_) (by decide)
        exact ((misread_of_source y hb hy (hnames hplain)).whole (ends_cons (by decide) rest)).items
          (by decide)
    | none =>
      rw [hf] at ht
      obtain ⟨a, ha, ht⟩ := Fault.bind_ok ht
      by_cases hop : op.isUnary
      · rw [if_pos hop] at ht hy
        cases ht
        obtain rfl := eq_not hf hop
        subst hy
        refine .negated (misread_of_source x ha hx ?_)
        exact fun h => hnames h fun _ hn => nomatch hn
      · rw [if_neg hop] at ht hy
        obtain ⟨b, hb, ht⟩ := Fault.bind_ok ht
        cases ht
        by_cases hplain : ∀ n ∈ namesIn x, IsPlain n
        · obtain ⟨ts, n, hrendering⟩ := hx.rendering hplain ha
          exact (misread_of_source y hb hy (hnames hplain)).joinedBehind hrendering hf
            (Bool.not_eq_true _ ▸ hop)
        · exact (misread_of_source x ha hx hplain).joined hf
  | .int _ _, _, _, _, hnames | .uint _ _, _, _, _, hnames | .byte _ _, _, _, _, hnames
  | .char _ _, _, _, _, hnames | .bool _ _, _, _, _, hnames | .type _ (some _), _, _, _, hnames =>
    absurd (fun _ hn => nomatch hn) hnames
  | .absent, _, _, hv, _ | .custom _ _ _, _, _, hv, _ | .type _ none, _, _, hv, _
  | .other _ _ _ _, _, _, hv, _ => hv.elim
termination_by structural v => v

/-- Values of which some name is not plain are misread. -/
theorem misread_of_sourceJoin : ∀ (vs : List Value) {t : String}, sourceJoin vs = .ok t →
    FormedAll vs → (¬ ∀ n ∈ namesInAll vs, IsPlain n) → MisreadAll vs t
  | [], _, _, _, hnames => absurd (fun _ hn => nomatch hn) hnames
  | v :: vs, t, ht, hvs, hnames => by
    rw [namesInAll, List.forall_mem_append, not_and] at hnames
    obtain ⟨a, ha, ht⟩ := Fault.bind_ok ht
    obtain ⟨b, hb, ht⟩ := Fault.bind_ok ht
    cases ht
    have hfirst := misread_of_source v ha hvs.1
    cases vs with
    | nil =>
      cases hb
      rw [String.append_empty]
      have hv : Misread v a := hfirst fun h => hnames h fun _ hn => nomatch hn
      refine ⟨fun {close rest} hclose => ?_, fun w hw => ?_⟩
      · rw [trackAll_cons]
        exact hv.items (ends_close hclose rest) hclose _
      · cases hw
        exact hv
    | cons w vs =>
      obtain ⟨r, hr, rfl⟩ := sourceJoin_of_rest hb
      refine ⟨fun {close rest} hclose => ?_, fun u hu => nomatch hu⟩
      rw [toList_comma, trackAll_cons]
      refine losesItems_cons hvs.1 ha hfirst (fun hplain => ?_) hclose
      exact (misread_of_sourceJoin (w :: vs) hr hvs.2 (hnames hplain)).items hclose
termination_by structural vs => vs

end

/-- A text at which reading is lost is read as another value, if at all. -/
theorem Misread.not_same {v w : Value} {t : String} (h : Misread v t) (hw : parse t = .ok w) :
    ¬ w.same v := by
  intro hsame
  obtain ⟨n, hn, hw⟩ := parse_cases hw
  obtain ⟨ts, c, hts, hread, hend⟩ := Expr.Grammar.parse?_cases hn
  have hends : Ends [] := fun _ hc => nomatch hc
  have hcut : CutInto (t.toList ++ []) ts := by
    rw [List.append_nil]
    exact ⟨_, hts⟩
  have hfuel : Expr.Grammar.fuelFor ts = 16 * ts.length + 31 + 1 := rfl
  rw [hfuel] at hread
  rcases (h.whole hends).sequence hcut (by omega) hread with
    hastray | ⟨u, us, hstuck, _⟩
  · have hparts := hastray.strays _ w hw
    rw [track_of_same hsame] at hparts
    exact not_parts_self _ hparts
  · rw [hend] at hstuck
    cases hstuck

end Lowlang.Value
