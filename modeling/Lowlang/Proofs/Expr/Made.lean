import Lowlang.Proofs.Expr.Reading

set_option autoImplicit false

/-!
# Trees that are read

What every tree has in common that is read from a text: its integers fit in 63 bits, its names
are words that act as no operator and stand for no value, and a predefined function that takes
a predicate has one, which has no meaning, or is one of those that may leave it out.

The names go back to the scanner.  Only behind a number sign may a token hold any word, and no
such word becomes a name.
-/

namespace Lowlang.Expr

namespace Token

/-! ## Words of a text -/

/-- A word as it stands in a text: it starts like a name and acts as no operator. -/
structure IsWord (w : String) : Prop where
  identifier : isIdentifier w.toList
  inert : w ∉ operatorWords

/-- A word token holds such a word. -/
def Proper : Token → Prop
  | .word w => IsWord w
  | _ => True

/-- The number signs, behind which any word may stand. -/
def isHash : Token → Bool
  | .op s => s == "#" || s == "##"
  | _ => false

/-- Word tokens hold such words, but for those behind a number sign; `hash` tells whether one
stands before the row. -/
def ProperFrom : Bool → List Token → Prop
  | _, [] => True
  | hash, t :: ts => (hash = false → Proper t) ∧ ProperFrom (isHash t) ts

theorem ProperFrom.any {ts : List Token} (h : ProperFrom false ts) (hash : Bool) :
    ProperFrom hash ts := by
  cases ts with
  | nil => trivial
  | cons t ts => exact ⟨fun _ => h.1 rfl, h.2⟩

theorem ProperFrom.cons {ts : List Token} (h : ProperFrom false ts) {t : Token} (ht : Proper t) :
    ProperFrom false (t :: ts) :=
  ⟨fun _ => ht, h.any _⟩

theorem ProperFrom.hashed {t : Token} {ts : List Token} (h : ProperFrom false (t :: ts))
    (ht : isHash t = false) : ProperFrom false ts := by
  have htail := h.2
  rwa [ht] at htail

theorem proper_ofWord {w : List Char} (h : isIdentifier w) : Proper (ofWord (String.ofList w)) := by
  by_cases hw : operatorWords.contains (String.ofList w)
  · rw [ofWord, if_pos hw]
    trivial
  · rw [ofWord, if_neg hw]
    exact ⟨by rwa [String.toList_ofList], fun hmem => hw (List.contains_iff_mem.mpr hmem)⟩

theorem operator_op (c : Char) (more s : List Char) :
    ∃ symbol, (operator c more s).1 = .op symbol := by
  unfold operator
  split
  · split
    · exact ⟨_, rfl⟩
    · exact ⟨_, rfl⟩
  · exact ⟨_, rfl⟩

theorem proper_operator (c : Char) (more s : List Char) : Proper (operator c more s).1 := by
  obtain ⟨symbol, hsymbol⟩ := operator_op c more s
  rw [hsymbol]
  trivial

theorem isHash_operator (s : List Char) : isHash (operator '#' ['#'] s).1 = true := by
  unfold operator
  split
  · split
    · rename_i d r hd
      obtain rfl : d = '#' := by simpa using hd
      rfl
    · rfl
  · rfl

theorem ite_eq_cases {α : Type} {p : Prop} [Decidable p] {x y z : α}
    (h : (if p then x else y) = z) : p ∧ x = z ∨ ¬ p ∧ y = z := by
  by_cases hp : p
  · rw [if_pos hp] at h
    exact .inl ⟨hp, h⟩
  · rw [if_neg hp] at h
    exact .inr ⟨hp, h⟩

/-- A token that takes the place of a part of the text is proper before proper tokens. -/
theorem properFrom_map {α : Type} {part : Option α} {token : α → Token} {after : α → List Char}
    {rest : List Char} {ts more : List Token}
    (h : part.map (fun a => ([token a], after a)) = some (ts, rest))
    (htoken : ∀ a, Proper (token a)) (hmore : ProperFrom false more) :
    ProperFrom false (ts ++ more) := by
  obtain ⟨a, _, ha⟩ := Option.map_eq_some_iff.mp h
  cases ha
  exact hmore.cons (htoken a)

/-- Behind a number sign stands any word at all. -/
theorem properFrom_hash (s w : List Char) {more : List Token} (hmore : ProperFrom false more) :
    ProperFrom false ((if w.isEmpty then [(operator '#' ['#'] s).1]
      else [(operator '#' ['#'] s).1, .word (String.ofList w)]) ++ more) := by
  have hproper := proper_operator '#' ['#'] s
  by_cases hw : w.isEmpty
  · rw [if_pos hw]
    exact hmore.cons hproper
  · rw [if_neg hw]
    refine ⟨fun _ => hproper, ?_⟩
    show ProperFrom (isHash (operator '#' ['#'] s).1) (.word _ :: more)
    rw [isHash_operator]
    exact ⟨fun hfalse => (nomatch hfalse), hmore⟩

/-- What stands at the front of a text is proper before proper tokens. -/
theorem properFrom_front {c : Char} {s rest : List Char} {ts more : List Token}
    (h : front c s = some (ts, rest)) (hmore : ProperFrom false more) :
    ProperFrom false (ts ++ more) := by
  unfold front at h
  rcases ite_eq_cases h with ⟨_, h⟩ | ⟨_, h⟩
  · cases h
    exact hmore
  rcases ite_eq_cases h with ⟨_, h⟩ | ⟨_, h⟩
  · exact properFrom_map h (fun _ => trivial) hmore
  rcases ite_eq_cases h with ⟨_, h⟩ | ⟨_, h⟩
  · exact properFrom_map h (fun _ => trivial) hmore
  rcases ite_eq_cases h with ⟨_, h⟩ | ⟨hdigit, h⟩
  · exact properFrom_map h (fun _ => trivial) hmore
  rcases ite_eq_cases h with ⟨_, h⟩ | ⟨_, h⟩
  · split at h
    · cases h
      exact hmore
    · obtain ⟨p, _, hp⟩ := Option.map_eq_some_iff.mp h
      cases hp
      exact hmore
    · cases h
      exact hmore.cons trivial
  rcases ite_eq_cases h with ⟨_, h⟩ | ⟨_, h⟩
  · obtain ⟨rfl, _⟩ := Prod.mk.inj (Option.some.inj h)
    exact properFrom_hash s _ hmore
  rcases ite_eq_cases h with ⟨_, h⟩ | ⟨_, h⟩
  · cases h
    exact hmore.cons trivial
  rcases ite_eq_cases h with ⟨_, h⟩ | ⟨_, h⟩
  · cases h
    exact hmore.cons trivial
  rcases ite_eq_cases h with ⟨_, h⟩ | ⟨_, h⟩
  · cases h
    exact hmore.cons (proper_operator _ _ _)
  rcases ite_eq_cases h with ⟨_, h⟩ | ⟨_, h⟩
  · cases h
    exact hmore.cons (proper_operator _ _ _)
  rcases ite_eq_cases h with ⟨_, h⟩ | ⟨_, h⟩
  · cases h
    exact hmore.cons (proper_operator _ _ _)
  rcases ite_eq_cases h with ⟨_, h⟩ | ⟨_, h⟩
  · cases h
    exact hmore.cons (proper_operator _ _ _)
  rcases ite_eq_cases h with ⟨_, h⟩ | ⟨_, h⟩
  · cases s with
    | nil =>
      cases h
      exact hmore.cons trivial
    | cons d r =>
      rcases ite_eq_cases h with ⟨_, h⟩ | ⟨_, h⟩
      · exact properFrom_map h (fun _ => trivial) hmore
      · have hproper := proper_operator c ['.'] (d :: r)
        generalize operator c ['.'] (d :: r) = p at h hproper
        cases h
        exact hmore.cons hproper
  rcases ite_eq_cases h with ⟨hword, h⟩ | ⟨_, h⟩
  · cases h
    refine hmore.cons (proper_ofWord ?_)
    rw [isIdentifier, hword, (Bool.not_eq_true _).mp hdigit, Bool.not_false, Bool.and_self,
      Bool.true_and, List.all_eq_true]
    exact fun d hd => List.mem_takeWhile_imp hd
  · cases h

/-- The tokens of a text are proper. -/
theorem properFrom_scanWith {fuel : Nat} {s : List Char} {ts : List Token}
    (h : scanWith fuel s = some ts) : ProperFrom false ts := by
  induction fuel generalizing s ts with
  | zero =>
    cases s with
    | nil => cases h; trivial
    | cons c s => cases h
  | succ fuel ih =>
    cases s with
    | nil => cases h; trivial
    | cons c s =>
      simp only [scanWith, Option.bind_eq_bind, Option.bind_eq_some_iff] at h
      obtain ⟨⟨t, rest⟩, hfront, more, hmore, hts⟩ := h
      cases hts
      exact properFrom_front hfront (ih hmore)

end Token

namespace Node

/-! ## Trees -/

mutual

/-- What all trees that are read have in common. -/
def Made : Node → Prop
  | .integer n => n < 2 ^ 63
  | .ident w => Token.IsWord w ∧ w ∉ Grammar.valueWords
  | .array elems => MadeAll elems
  | .member object property _ => Made object ∧ Made property
  | .chain inner => Made inner
  | .unary _ x => Made x
  | .binary _ x y => Made x ∧ Made y
  | .call callee args =>
    -- A word for a value may be called, although it is no name.
    ((∃ w, callee = .ident w ∧ Token.IsWord w ∧ predicateShape w = none) ∨
      Made callee ∧ ∃ object property optional, callee = .member object property optional) ∧
      MadeAll args
  | .builtin w args =>
    Token.IsWord w ∧ (predicateShape w = none ∨ w ∈ Grammar.foldingWords ∧ args.length = 1 ∨
      .foreign ∈ args) ∧ MadeAll args
  | .bool _ | .string _ | .foreign => True
termination_by structural n => n

/-- All trees are like that. -/
def MadeAll : List Node → Prop
  | [] => True
  | n :: ns => Made n ∧ MadeAll ns
termination_by structural n => n

end

theorem madeAll_iff {ns : List Node} : MadeAll ns ↔ ∀ n ∈ ns, Made n := by
  induction ns with
  | nil => simp [MadeAll]
  | cons n ns ih => simp [MadeAll, ih]

theorem made_ofNat {k : Nat} {n : Node} (h : ofNat k = some n) : Made n := by
  unfold ofNat at h
  split at h
  · cases h
    assumption
  · cases h

/-- The tree of a number is an integer that fits or has no meaning. -/
theorem made_ofNumber {t : String} {n : Node} (h : ofNumber t = some n) : Made n := by
  have hbound : ∀ {base : Nat} {ds : List Char}, (natOf base ds).bind ofNat = some n → Made n := by
    intro base ds hds
    obtain ⟨k, _, hk⟩ := Option.bind_eq_some_iff.mp hds
    exact made_ofNat hk
  unfold ofNumber at h
  dsimp only at h
  split at h
  · exact hbound h
  · split at h
    · split at h
      · split at h
        · cases h
          trivial
        · cases h
      · cases h
    · split at h
      · exact hbound h
      · exact hbound h
      · exact hbound h

end Node

namespace Grammar

open Node (precedence isComparison isNegatable unaryPrecedence predicateShape builtins ofNumber
  Made MadeAll)
open Token (ProperFrom isHash)

/-! ## Readers of proper tokens -/

/-- What is read from here has the property, and proper tokens are left. -/
def GivesFrom {α : Type} (c : Cursor) (r : Reader α) (P : α → Prop) : Prop :=
  ∀ a c', r.run c = some (a, c') → P a ∧ ProperFrom false c'.rest

/-- What is read from proper tokens has the property, and proper tokens are left. -/
def Gives {α : Type} (r : Reader α) (P : α → Prop) : Prop :=
  ∀ c, ProperFrom false c.rest → GivesFrom c r P

/-- The same where `next` is the next token. -/
def GivesAt {α : Type} (next : Option Token) (r : Reader α) (P : α → Prop) : Prop :=
  ∀ c, ProperFrom false c.rest → c.rest.head? = next → GivesFrom c r P

section

variable {α β : Type} {P : α → Prop} {Q : β → Prop} {next : Option Token} {t : Token}

theorem Gives.at {r : Reader α} (h : Gives r P) : GivesAt next r P := by
  intro c hc _
  exact h c hc

theorem Gives.mono {P' : α → Prop} {r : Reader α} (h : Gives r P) (hP : ∀ a, P a → P' a) :
    Gives r P' := by
  intro c hc a c' ha
  obtain ⟨hPa, hc'⟩ := h c hc a c' ha
  exact ⟨hP a hPa, hc'⟩

theorem Gives.pure {a : α} (h : P a) : Gives (pure a) P := by
  intro c hc b c' hb
  cases hb
  exact ⟨h, hc⟩

theorem Gives.failure : Gives (failure : Reader α) P := by
  intro c _ a c' ha
  cases ha

theorem GivesFrom.bind {c : Cursor} {r : Reader β} {k : β → Reader α} (h : GivesFrom c r Q)
    (hk : ∀ b, Q b → Gives (k b) P) : GivesFrom c (r >>= k) P := by
  intro a c' ha
  rw [StateT.run_bind] at ha
  obtain ⟨⟨b, d⟩, hb, ha⟩ := Option.bind_eq_some_iff.mp ha
  obtain ⟨hQ, hd⟩ := h b d hb
  exact hk b hQ d hd a c' ha

theorem Gives.bind {r : Reader β} {k : β → Reader α} (h : Gives r Q)
    (hk : ∀ b, Q b → Gives (k b) P) : Gives (r >>= k) P := by
  intro c hc
  exact (h c hc).bind hk

theorem Gives.ite {p : Prop} [Decidable p] {x y : Reader α} (hx : p → Gives x P)
    (hy : ¬ p → Gives y P) : Gives (if p then x else y) P := by
  by_cases hp : p
  · rw [if_pos hp]
    exact hx hp
  · rw [if_neg hp]
    exact hy hp

theorem GivesAt.ite {p : Prop} [Decidable p] {x y : Reader α} (hx : p → GivesAt next x P)
    (hy : ¬ p → GivesAt next y P) : GivesAt next (if p then x else y) P := by
  by_cases hp : p
  · rw [if_pos hp]
    exact hx hp
  · rw [if_neg hp]
    exact hy hp

theorem Gives.make {P : Node → Prop} {n : Node} (h : P n) : Gives (make n) P := by
  intro c hc m c' hm
  cases hm
  exact ⟨h, hc⟩

theorem Gives.made {n : Node} {k : Node → Reader α} (h : Gives (k n) P) :
    Gives (Grammar.make n >>= k) P := by
  intro c hc
  exact h { c with made := c.made + 1 } hc

theorem GivesFrom.modify {c : Cursor} {f : Cursor → Cursor} {k : Unit → Reader α}
    (hc : ProperFrom false (f c).rest) (h : Gives (k ()) P) :
    GivesFrom c (modify f >>= k) P :=
  h (f c) hc

theorem Gives.peek {k : Option Token → Reader α} (h : ∀ next, GivesAt next (k next) P) :
    Gives (Grammar.peek >>= k) P := by
  intro c hc
  exact h c.rest.head? c hc rfl

/-- A step past the next token keeps the tokens proper, unless that is a number sign. -/
theorem GivesAt.advance {k : Unit → Reader α} (ht : isHash t = false) (h : Gives (k ()) P) :
    GivesAt (some t) (Grammar.advance >>= k) P := by
  intro c hc hnext
  obtain ⟨rest, made⟩ := c
  cases rest with
  | nil => cases hnext
  | cons u rest =>
    cases hnext
    exact h ⟨rest, made⟩ (hc.hashed ht)

theorem GivesAt.word {w : String} {r : Reader α}
    (h : Token.IsWord w → GivesAt (some (.word w)) r P) : GivesAt (some (.word w)) r P := by
  intro c hc hnext
  obtain ⟨rest, made⟩ := c
  cases rest with
  | nil => cases hnext
  | cons u rest =>
    cases hnext
    exact h (hc.1 rfl) _ hc rfl

/-- Behind a number sign a word is passed over, whatever it is. -/
theorem GivesAt.numberSign {k : Reader α} (h : Gives k P) :
    GivesAt (some (.op "#")) (do
      Grammar.advance
      match ← Grammar.peek with
      | some (.word _) => Grammar.advance
      | _ => Pure.pure ()
      k) P := by
  intro c hc hnext
  obtain ⟨rest, made⟩ := c
  match rest, hnext, hc with
  | .op _ :: [], rfl, hc => exact h ⟨[], made⟩ trivial
  | .op _ :: .word w :: ts, rfl, hc => exact h ⟨ts, made⟩ hc.2.2
  | .op _ :: .number w :: ts, rfl, hc => exact h _ ⟨fun _ => trivial, hc.2.2⟩
  | .op _ :: .string w :: ts, rfl, hc => exact h _ ⟨fun _ => trivial, hc.2.2⟩
  | .op _ :: .op w :: ts, rfl, hc => exact h _ ⟨fun _ => trivial, hc.2.2⟩
  | .op _ :: .bracket w :: ts, rfl, hc => exact h _ ⟨fun _ => trivial, hc.2.2⟩

theorem GivesAt.stepped {P : Unit → Prop} (ht : isHash t = false) (h : P ()) :
    GivesAt (some t) Grammar.advance P := by
  have hstep := GivesAt.advance (k := Pure.pure) ht (Gives.pure h)
  rwa [bind_pure] at hstep

theorem Gives.lookAhead {x y : Reader α} (hx : GivesAt (some t) x P) (hy : Gives y P) :
    Gives (at? t >>= fun b => if b = true then x else y) P := by
  intro c hc
  by_cases hnext : c.rest.head? = some t
  · have hrun : (at? t >>= fun b => if b = true then x else y).run c = x.run c := by
      simp [hnext]
    intro a c' ha
    rw [hrun] at ha
    exact hx c hc hnext a c' ha
  · have hrun : (at? t >>= fun b => if b = true then x else y).run c = y.run c := by
      simp [hnext]
    intro a c' ha
    rw [hrun] at ha
    exact hy c hc a c' ha

theorem Gives.at? : Gives (Grammar.at? t) fun _ => True := by
  intro c hc b c' hb
  cases hb
  exact ⟨trivial, hc⟩

theorem Gives.expect (ht : isHash t = false) : Gives (Grammar.expect t) fun _ => True :=
  .lookAhead (.stepped ht trivial) .failure

theorem Gives.expectWord : Gives Grammar.expectWord Token.IsWord := by
  intro c hc w c' hw
  obtain ⟨rest, made⟩ := c
  match rest, hc, hw with
  | .word u :: ts, hc, hw =>
    cases hw
    exact ⟨hc.1 rfl, hc.hashed rfl⟩

/-- A name behind a point starts like any other name. -/
theorem Gives.propertyName : Gives Grammar.propertyName fun w => Token.isIdentifier w.toList := by
  rw [Grammar.propertyName]
  refine .peek fun next => ?_
  split
  · exact .word fun hw => .advance rfl (.pure hw.identifier)
  · rename_i w
    refine .ite (fun hw => ?_) fun _ => Gives.at .failure
    have hwords : ∀ w ∈ Token.operatorWords,
        isHash (.op w) = false ∧ Token.isIdentifier w.toList := by decide
    obtain ⟨hhash, hidentifier⟩ := hwords w (List.contains_iff_mem.mp hw)
    exact .advance hhash (.pure hidentifier)
  · exact Gives.at .failure

end

/-! ## Operators at the cursor -/

/-- An operator that is found is next, or follows the word for negation. -/
theorem operatorAt_cases {least : Nat} {c c' : Cursor} {o : Option (String × Bool × Nat)}
    (h : (operatorAt least).run c = some (o, c')) :
    c' = c ∧ (o = none ∨
      (∃ s p ts, c.rest = .op s :: ts ∧ precedence s = some p ∧ least ≤ p ∧
        o = some (s, false, 1)) ∨
      ∃ t ts, c.rest = .op "not" :: t :: ts ∧ isNegatable t.value ∧
        o = some (t.value, true, 2)) := by
  obtain ⟨rest, made⟩ := c
  simp only [operatorAt, StateT.run_bind, StateT.run_get, Option.pure_def, Option.bind_eq_bind,
    Option.bind_some] at h
  split at h
  · rename_i t ts
    split at h
    · rename_i ht
      cases h
      refine ⟨rfl, ?_⟩
      split
      · exact .inr (.inr ⟨t, ts, rfl, ht, rfl⟩)
      · exact .inl rfl
    · cases h
  · cases h
  · rename_i s ts _ _
    cases hp : precedence s with
    | none =>
      rw [hp] at h
      cases h
      exact ⟨rfl, .inl rfl⟩
    | some p =>
      rw [hp] at h
      cases h
      refine ⟨rfl, ?_⟩
      split
      · rename_i hle
        exact .inr (.inl ⟨s, p, ts, rfl, hp, hle, rfl⟩)
      · exact .inl rfl
  · cases h
    exact ⟨rfl, .inl rfl⟩

/-- What holds of neither number sign tells an operator apart from them. -/
theorem isHash_of_apart {q : String → Bool} (hq : q "#" = false ∧ q "##" = false) {s : String}
    (h : q s) : isHash (.op s) = false := by
  by_cases hs : isHash (.op s) = true
  · rw [isHash, Bool.or_eq_true, beq_iff_eq, beq_iff_eq] at hs
    rcases hs with rfl | rfl
    · rw [hq.1] at h
      cases h
    · rw [hq.2] at h
      cases h
  · exact (Bool.not_eq_true _).mp hs

theorem isHash_of_precedence {s : String} {p : Nat} (h : precedence s = some p) :
    isHash (.op s) = false :=
  isHash_of_apart (q := fun s => (precedence s).isSome) ⟨rfl, rfl⟩ (by simp [h])

theorem isHash_of_unaryPrecedence {s : String} {p : Nat} (h : unaryPrecedence s = some p) :
    isHash (.op s) = false :=
  isHash_of_apart (q := fun s => (unaryPrecedence s).isSome) ⟨rfl, rfl⟩ (by simp [h])

theorem isHash_of_isComparison {s : String} (h : isComparison s) : isHash (.op s) = false :=
  isHash_of_apart (q := isComparison) ⟨by decide, by decide⟩ h

theorem isHash_of_isNegatable {t : Token} (h : isNegatable t.value) : isHash t = false := by
  cases t with
  | op s => exact isHash_of_apart (q := isNegatable) ⟨by decide, by decide⟩ h
  | _ => rfl

/-- Past the operator the tokens are proper. -/
theorem properFrom_drop {least : Nat} {c c' : Cursor} {op : String} {negated : Bool} {k : Nat}
    (hc : ProperFrom false c.rest)
    (h : (operatorAt least).run c = some (some (op, negated, k), c')) :
    ProperFrom false (c'.rest.drop k) := by
  obtain ⟨rfl, hnone | ⟨s, p, ts, hrest, hp, _, ho⟩ | ⟨t, ts, hrest, ht, ho⟩⟩ := operatorAt_cases h
  · cases hnone
  · cases ho
    rw [hrest] at hc ⊢
    exact hc.hashed (isHash_of_precedence hp)
  · cases ho
    rw [hrest] at hc ⊢
    exact (hc.hashed rfl).hashed (isHash_of_isNegatable ht)

/-- A reader that goes on with the operator at the cursor, if there is one. -/
theorem Gives.operatorAt {α : Type} {P : α → Prop} {least : Nat}
    {k : Option (String × Bool × Nat) → Reader α} (hnone : Gives (k none) P)
    (hsome : ∀ op negated tokens c, ProperFrom false (c.rest.drop tokens) →
      GivesFrom c (k (some (op, negated, tokens))) P) :
    Gives (Grammar.operatorAt least >>= k) P := by
  intro c hc a c' ha
  rw [StateT.run_bind] at ha
  obtain ⟨⟨o, d⟩, ho, hk⟩ := Option.bind_eq_some_iff.mp ha
  cases o with
  | none =>
    obtain ⟨rfl, _⟩ := operatorAt_cases ho
    exact hnone _ hc a c' hk
  | some o => exact hsome o.1 o.2.1 o.2.2 d (properFrom_drop hc ho) a c' hk

/-! ## Accesses at the cursor -/

/-- What stands behind a tree is a member, a subscript or nothing that belongs to it. -/
theorem Gives.accesses {P : Node → Prop} {fuel : Nat} {inside : Bool} {n : Node}
    (hsubscript : ∀ optional,
      Gives (subscript fuel inside n optional >>= Grammar.accesses fuel inside) P)
    (hproperty : ∀ optional,
      Gives (property fuel inside n optional >>= Grammar.accesses fuel inside) P) (hn : P n) :
    Gives (Grammar.accesses (fuel + 1) inside n) P := by
  intro c hc
  obtain ⟨rest, made⟩ := c
  have hstep : ∀ s {k : Reader Node}, isHash (.op s) = false → Gives k P →
      ∀ ts, ProperFrom false (.op s :: ts) →
        GivesFrom ⟨.op s :: ts, made⟩ (advance >>= fun _ => k) P := by
    intro s k hs hk ts hts
    exact GivesAt.advance hs hk _ hts rfl
  intro m c' hm
  simp only [Grammar.accesses, StateT.run_bind, StateT.run_get, Option.pure_def,
    Option.bind_eq_bind, Option.bind_some] at hm
  split at hm
  · exact hstep "?." rfl (hsubscript true) _ hc m c' hm
  · exact hstep "." rfl (hproperty false) _ hc m c' hm
  · exact hstep "?." rfl (hproperty true) _ hc m c' hm
  · exact hsubscript false _ hc m c' hm
  · exact Gives.pure hn _ hc m c' hm

/-! ## Predicates -/

/-- The arguments of a function that takes a predicate: none is missing that may not be, and
those that are predicates have no meaning. -/
def Fits : List Node.ArgShape → List Node → Prop
  | [], ns => ns = []
  | shape :: _, [] => shape.optional
  | shape :: shapes, n :: ns => (shape.predicate → n = .foreign) ∧ Fits shapes ns

/-- Behind at most one argument from before a bar, the others leave out no predicate but those
of the functions that may do without. -/
theorem fits_call {w : String} {shape : List Node.ArgShape} (hw : predicateShape w = some shape)
    {given args : List Node} (hgiven : given.length ≤ 1)
    (h : Fits (shape.drop given.length) args) :
    w ∈ foldingWords ∧ (given ++ args).length = 1 ∨ .foreign ∈ given ++ args := by
  have hshape : shape = [⟨false, false⟩, ⟨true, false⟩] ∨
      (w ∈ foldingWords ∧ shape = [⟨false, false⟩, ⟨true, true⟩]) ∨
      shape = [⟨false, false⟩, ⟨true, false⟩, ⟨false, true⟩] := by
    unfold predicateShape at hw
    split at hw <;> cases hw
    all_goals first
      | exact .inl rfl
      | exact .inr (.inl ⟨by decide, rfl⟩)
      | exact .inr (.inr rfl)
  match given, hgiven with
  | [], _ =>
    rcases hshape with rfl | ⟨hfold, rfl⟩ | rfl
    · match args, h with
      | _ :: n :: _, h => exact .inr (by simp [h.2.1 rfl])
    · match args, h with
      | [n], _ => exact .inl ⟨hfold, rfl⟩
      | _ :: n :: _, h => exact .inr (by simp [h.2.1 rfl])
    · match args, h with
      | _ :: n :: _, h => exact .inr (by simp [h.2.1 rfl])
  | [m], _ =>
    rcases hshape with rfl | ⟨hfold, rfl⟩ | rfl
    · match args, h with
      | n :: _, h => exact .inr (by simp [h.1 rfl])
    · match args, h with
      | [], _ => exact .inl ⟨hfold, rfl⟩
      | n :: _, h => exact .inr (by simp [h.1 rfl])
    · match args, h with
      | n :: _, h => exact .inr (by simp [h.1 rfl])

/-! ## Every reader -/

/-- What the readers of the grammar read with a given number of steps. -/
structure MakesNodes (fuel : Nat) : Prop where
  sequence : ∀ inside, Gives (sequence fuel inside) Made
  sequenceRest : ∀ inside, Gives (sequenceRest fuel inside) fun _ => True
  expression : ∀ inside least, Gives (expression fuel inside least) Made
  operators : ∀ inside least last left, Made left →
    Gives (operators fuel inside least last left) Made
  comparison : ∀ inside op left so, Made left → (∀ n ∈ so, Made n) →
    Gives (comparison fuel inside op left so) Made
  choice : ∀ inside test, Made test → Gives (choice fuel inside test) Made
  binding : ∀ inside, Gives (binding fuel inside) Made
  condition : ∀ inside, Gives (condition fuel inside) Made
  primary : ∀ inside, Gives (primary fuel inside) Made
  items : ∀ inside close found, isHash (.bracket close) = false → MadeAll found →
    Gives (items fuel inside close found) MadeAll
  pairs : ∀ inside first, Gives (pairs fuel inside first) fun _ => True
  call : ∀ inside w given, Token.IsWord w → MadeAll given → given.length ≤ 1 →
    Gives (call fuel inside w given) Made
  predicateArgs : ∀ inside first shapes, Gives (predicateArgs fuel inside first shapes) fun ns =>
    MadeAll ns ∧ Fits shapes ns
  predicate : Gives (predicate fuel) fun n => n = .foreign
  accesses : ∀ inside n, Made n → Gives (accesses fuel inside n) Made
  property : ∀ inside n optional, Made n → Gives (property fuel inside n optional) Made
  subscript : ∀ inside n optional, Made n → Gives (subscript fuel inside n optional) Made

theorem MakesNodes.zero : MakesNodes 0 := by
  constructor <;> intros <;> exact .failure

/-- What is read behind a comparison: it may go on with another. -/
def comparisonRest (fuel : Nat) (inside : Bool) (right all : Node) : Reader Node := do
  match ← peek with
  | some (.op next) =>
    if isComparison next then
      advance
      comparison fuel inside next right (some all)
    else return all
  | _ => return all

/-- What is read where a pair may start, behind the comma if there is one. -/
def pairsFrom (fuel : Nat) (inside : Bool) : Reader Unit := do
  if ← at? (.bracket '\x7d') then advance
  else
    match ← peek with
    | some (.number _) | some (.string _) | some (.word _) =>
      advance
      let _ ← make .foreign
    | some (.bracket '(') =>
      let _ ← expression fuel inside 0
    | _ => failure
    expect (.op ":")
    let _ ← expression fuel inside 0
    let _ ← make .foreign
    pairs fuel inside false

section

variable {fuel : Nat} (h : MakesNodes fuel) (inside : Bool)

include h

theorem makes_sequence : Gives (sequence (fuel + 1) inside) Made := by
  rw [Grammar.sequence]
  refine (h.expression inside 0).bind fun first hfirst => ?_
  refine (h.sequenceRest inside).bind fun more _ => .ite (fun _ => ?_) fun _ => ?_
  · exact .make trivial
  · exact .pure hfirst

theorem makes_sequenceRest : Gives (sequenceRest (fuel + 1) inside) fun _ => True := by
  rw [Grammar.sequenceRest]
  refine .lookAhead (.advance rfl ?_) (.pure trivial)
  refine .peek fun next => Gives.at (.ite (fun _ => .pure trivial) fun _ => ?_)
  refine (h.expression inside 0).bind fun _ _ => ?_
  exact (h.sequenceRest inside).bind fun _ _ => .pure trivial

theorem makes_expression (least : Nat) : Gives (expression (fuel + 1) inside least) Made := by
  rw [Grammar.expression]
  refine .peek fun next => Gives.at (.ite (fun _ => h.binding inside) fun _ => ?_)
  refine .ite (fun _ => h.condition inside) fun _ => ?_
  refine (h.primary inside).bind fun left hleft => ?_
  refine (h.operators inside least "" left hleft).bind fun n hn => ?_
  exact .ite (fun _ => h.choice inside n hn) fun _ => .pure hn

theorem makes_operators (least : Nat) (last : String) (left : Node) (hleft : Made left) :
    Gives (operators (fuel + 1) inside least last left) Made := by
  rw [Grammar.operators]
  refine .operatorAt (.pure hleft) fun op negated tokens c hc => ?_
  refine .modify hc ?_
  refine .ite (fun _ => ?_) fun _ => .ite (fun _ => .failure) fun _ =>
    .ite (fun _ => ?_) fun _ => ?_
  · refine Gives.expectWord.bind fun w hw => ?_
    refine (h.call inside w [left] hw ⟨hleft, trivial⟩ (Nat.le_refl 1)).bind fun n hn => ?_
    exact h.operators inside least op n hn
  · refine (h.comparison inside op left none hleft fun _ hn => nomatch hn).bind fun n hn => ?_
    exact h.operators inside least op n hn
  · refine (h.expression inside _).bind fun right hright => .made ?_
    dsimp only
    refine .ite (fun _ => .made ?_) fun _ => ?_
    · exact h.operators inside least op _ ⟨hleft, hright⟩
    · exact h.operators inside least op _ ⟨hleft, hright⟩

theorem makes_comparison (op : String) (left : Node) (so : Option Node) (hleft : Made left)
    (hso : ∀ n ∈ so, Made n) : Gives (comparison (fuel + 1) inside op left so) Made := by
  have hgo : ∀ right all, Made right → Made all →
      Gives (comparisonRest fuel inside right all) Made := by
    intro right all hright hall
    refine .peek fun next => ?_
    split
    · rename_i s
      refine .ite (fun hs => ?_) fun _ => Gives.at (.pure hall)
      refine .advance (isHash_of_isComparison hs) ?_
      exact h.comparison inside s right (some all) hright fun n hn => Option.mem_some.mp hn ▸ hall
    · exact Gives.at (.pure hall)
  rw [Grammar.comparison]
  refine (h.expression inside 21).bind fun right hright => .made ?_
  cases so with
  | none => exact hgo right _ hright ⟨hleft, hright⟩
  | some n => exact .made (hgo right _ hright ⟨hso n rfl, hleft, hright⟩)

theorem makes_choice (test : Node) (htest : Made test) :
    Gives (choice (fuel + 1) inside test) Made := by
  rw [Grammar.choice]
  refine .lookAhead (.advance rfl ?_) (.pure htest)
  refine .lookAhead (.advance rfl ?_) ?_
  · refine (h.expression inside 0).bind fun _ _ => ?_
    exact .made (h.choice inside .foreign trivial)
  · refine (h.expression inside 0).bind fun _ _ => ?_
    refine (Gives.expect rfl).bind fun _ _ => ?_
    refine (h.expression inside 0).bind fun _ _ => ?_
    exact .made (h.choice inside .foreign trivial)

theorem makes_binding : Gives (binding (fuel + 1) inside) Made := by
  rw [Grammar.binding]
  refine (Gives.expect rfl).bind fun _ _ => ?_
  refine Gives.expectWord.bind fun _ _ => ?_
  refine (Gives.expect rfl).bind fun _ _ => ?_
  refine (h.expression inside 0).bind fun _ _ => ?_
  refine (Gives.expect rfl).bind fun _ _ => ?_
  exact (h.sequence inside).bind fun _ _ => .make trivial

theorem makes_condition : Gives (condition (fuel + 1) inside) Made := by
  rw [Grammar.condition]
  refine (Gives.expect rfl).bind fun _ _ => ?_
  refine (h.expression inside 0).bind fun _ _ => ?_
  refine (Gives.expect rfl).bind fun _ _ => ?_
  refine (h.sequence inside).bind fun _ _ => ?_
  refine (Gives.expect rfl).bind fun _ _ => ?_
  refine (Gives.expect rfl).bind fun _ _ => ?_
  refine .lookAhead (h.condition inside).at ?_
  refine (Gives.expect rfl).bind fun _ _ => ?_
  refine (h.sequence inside).bind fun _ _ => ?_
  exact (Gives.expect rfl).bind fun _ _ => .pure trivial

theorem makes_items (close : Char) (found : List Node) (hclose : isHash (.bracket close) = false)
    (hfound : MadeAll found) : Gives (items (fuel + 1) inside close found) MadeAll := by
  have hreverse : ∀ {ns : List Node}, MadeAll ns → MadeAll ns.reverse := by
    intro ns hns
    rw [Node.madeAll_iff] at hns ⊢
    simpa only [List.mem_reverse] using hns
  rw [Grammar.items]
  refine .lookAhead (.advance hclose (.pure (hreverse hfound))) ?_
  refine (h.expression inside 0).bind fun n hn => ?_
  refine .lookAhead (.advance hclose (.pure (hreverse ⟨hn, hfound⟩))) ?_
  exact (Gives.expect rfl).bind fun _ _ => h.items inside close _ hclose ⟨hn, hfound⟩

theorem makes_predicate : Gives (predicate (fuel + 1)) fun n => n = .foreign := by
  rw [Grammar.predicate]
  dsimp only
  refine .lookAhead (.advance rfl ?_) ?_
  · refine (h.sequence true).bind fun _ _ => ?_
    exact (Gives.expect rfl).bind fun _ _ => .make rfl
  · refine (h.expression true 0).bind fun _ _ => ?_
    refine .lookAhead (Gives.at ?_) (.make rfl)
    exact Gives.failure.bind (Q := fun _ => True) fun _ _ => .make rfl

theorem makes_predicateArgs (first : Bool) (shapes : List Node.ArgShape) :
    Gives (predicateArgs (fuel + 1) inside first shapes) fun ns =>
      MadeAll ns ∧ Fits shapes ns := by
  cases shapes with
  | nil =>
    rw [Grammar.predicateArgs]
    exact .pure ⟨trivial, rfl⟩
  | cons shape shapes =>
    rw [Grammar.predicateArgs]
    refine Gives.at?.bind fun done _ => .ite (fun hdone => ?_) fun _ => ?_
    · rw [Bool.and_eq_true] at hdone
      exact .pure ⟨trivial, hdone.1⟩
    · have hrest : ∀ n, Made n → (shape.predicate → n = .foreign) → Gives (do
          let ns ← predicateArgs fuel inside false shapes
          return n :: ns) fun ns => MadeAll ns ∧ Fits (shape :: shapes) ns := by
        intro n hn hforeign
        refine (h.predicateArgs inside false shapes).bind fun ns hns => ?_
        exact .pure ⟨⟨hn, hns.1⟩, hforeign, hns.2⟩
      have hgo : Gives (do
          let n ← if shape.predicate then predicate fuel else expression fuel inside 0
          let ns ← predicateArgs fuel inside false shapes
          return n :: ns) fun ns => MadeAll ns ∧ Fits (shape :: shapes) ns := by
        refine .ite (fun _ => h.predicate.bind ?_) fun hp => (h.expression inside 0).bind ?_
        · rintro n rfl
          exact hrest .foreign trivial fun _ => rfl
        · intro n hn
          exact hrest n hn fun hpredicate => absurd hpredicate hp
      exact .ite (fun _ => (Gives.expect rfl).bind fun _ _ => hgo) fun _ => hgo

theorem makes_pairs (first : Bool) : Gives (pairs (fuel + 1) inside first) fun _ => True := by
  have hvalue : Gives (do
      expect (.op ":")
      let _ ← expression fuel inside 0
      let _ ← make .foreign
      pairs fuel inside false) fun _ => True := by
    refine (Gives.expect rfl).bind fun _ _ => ?_
    exact (h.expression inside 0).bind fun _ _ => .made (h.pairs inside false)
  have hpair : Gives (pairsFrom fuel inside) fun _ => True := by
    refine .lookAhead (.stepped rfl trivial) (.peek fun next => ?_)
    dsimp only
    split
    · exact .advance rfl (.made hvalue)
    · exact .advance rfl (.made hvalue)
    · exact .advance rfl (.made hvalue)
    · exact Gives.at ((h.expression inside 0).bind fun _ _ => hvalue)
    · exact Gives.at (Gives.failure.bind (Q := fun _ => True) fun _ _ => hvalue)
  rw [Grammar.pairs]
  refine .lookAhead (.stepped rfl trivial) ?_
  exact .ite (fun _ => (Gives.expect rfl).bind fun _ _ => hpair) fun _ => hpair

theorem makes_call (w : String) (given : List Node) (hw : Token.IsWord w) (hgiven : MadeAll given)
    (hlength : given.length ≤ 1) : Gives (call (fuel + 1) inside w given) Made := by
  have happend : ∀ {args : List Node}, MadeAll args → MadeAll (given ++ args) := by
    intro args hargs
    rw [Node.madeAll_iff] at hgiven hargs ⊢
    exact List.forall_mem_append.mpr ⟨hgiven, hargs⟩
  rw [Grammar.call]
  cases hshape : predicateShape w with
  | some shape =>
    refine (Gives.expect rfl).bind fun _ _ => ?_
    refine (h.predicateArgs inside true _).bind fun args hargs => ?_
    have hgo : Gives (do
        expect (.bracket ')')
        let n ← make (.builtin w (given ++ args))
        accesses fuel inside n) Made := by
      refine (Gives.expect rfl).bind fun _ _ => .made (h.accesses inside _ ?_)
      exact ⟨hw, .inr (fits_call hshape hlength hargs.2), happend hargs.1⟩
    exact .lookAhead (.advance rfl hgo) hgo
  | none =>
    refine .ite (fun _ => ?_) fun _ => .made ?_
    · refine (Gives.expect rfl).bind fun _ _ => ?_
      refine (h.items inside ')' [] rfl trivial).bind fun args hargs => .made ?_
      exact h.accesses inside _ ⟨hw, .inl hshape, happend hargs⟩
    · refine (Gives.expect rfl).bind fun _ _ => ?_
      refine (h.items inside ')' [] rfl trivial).bind fun args hargs => .made ?_
      exact h.accesses inside _ ⟨.inl ⟨w, rfl, hw, hshape⟩, happend hargs⟩

theorem makes_accesses (n : Node) (hn : Made n) :
    Gives (accesses (fuel + 1) inside n) Made := by
  refine .accesses (fun optional => ?_) (fun optional => ?_) hn
  · exact (h.subscript inside n optional hn).bind fun m hm => h.accesses inside m hm
  · exact (h.property inside n optional hn).bind fun m hm => h.accesses inside m hm

theorem makes_property (n : Node) (optional : Bool) (hn : Made n) :
    Gives (property (fuel + 1) inside n optional) Made := by
  have hpart : ∀ (object : Node) (name : String) (chained : Bool), Made object → Gives (do
      let m ← make (.member object (.string name) optional)
      let m ← if ← at? (.bracket '(') then do
          advance
          let args ← items fuel inside ')' []
          make (.call m args)
        else pure m
      if chained || optional then make (.chain m) else return m) Made := by
    intro object name chained hobject
    have hend : ∀ m, Made m →
        Gives (if chained || optional then make (.chain m) else return m) Made := by
      intro m hm
      exact .ite (fun _ => .make hm) fun _ => .pure hm
    refine .made (.lookAhead (.advance rfl ?_) (hend _ ⟨hobject, trivial⟩))
    refine (h.items inside ')' [] rfl trivial).bind fun args hargs => .made (hend _ ?_)
    exact ⟨.inr ⟨⟨hobject, trivial⟩, _, _, _, rfl⟩, hargs⟩
  unfold Grammar.property
  refine Gives.propertyName.bind fun name _ => .made ?_
  cases n with
  | chain inner => exact hpart inner name true hn
  | _ => exact hpart _ name false hn

theorem makes_subscript (n : Node) (optional : Bool) (hn : Made n) :
    Gives (subscript (fuel + 1) inside n optional) Made := by
  -- The part of a slice behind its colon.
  have hslice : Gives (do
      if ← at? (.bracket ']') then pure () else
        let _ ← expression fuel inside 0
      expect (.bracket ']')
      make .foreign) Made := by
    have hend : Gives (do expect (.bracket ']'); make .foreign) Made :=
      (Gives.expect rfl).bind fun _ _ => .make trivial
    exact .lookAhead hend.at ((h.expression inside 0).bind fun _ _ => hend)
  rw [Grammar.subscript]
  refine (Gives.expect rfl).bind fun _ _ => .lookAhead (.advance rfl hslice) ?_
  refine (h.expression inside 0).bind fun i hi => .lookAhead (.advance rfl hslice) ?_
  refine (Gives.expect rfl).bind fun _ _ => .made ?_
  exact .ite (fun _ => .make ⟨hn, hi⟩) fun _ => .pure ⟨hn, hi⟩

theorem makes_primary : Gives (primary (fuel + 1) inside) Made := by
  rw [Grammar.primary]
  refine .peek fun next => ?_
  split
  · exact Gives.at .failure
  · rename_i s
    cases hs : unaryPrecedence s with
    | some p =>
      refine .advance (isHash_of_unaryPrecedence hs) ?_
      refine (h.expression inside p).bind fun x hx => .made (h.accesses inside _ hx)
    | none =>
      refine .ite (fun hhash => ?_) fun _ => .ite (fun _ => ?_) fun _ => .ite (fun hcolons => ?_)
        fun _ => Gives.at .failure
      · rw [Bool.and_eq_true, beq_iff_eq] at hhash
        rw [hhash.2]
        exact .numberSign (.made (h.accesses inside _ trivial))
      · exact Gives.at (.made (h.accesses inside _ trivial))
      · rw [beq_iff_eq] at hcolons
        subst hcolons
        refine .advance rfl (Gives.expectWord.bind fun w hw => ?_)
        exact h.call inside w [] hw trivial (Nat.zero_le 1)
  · rename_i c
    refine .ite (fun _ => ?_) fun _ => .ite (fun _ => ?_) fun _ => .ite (fun _ => ?_) fun _ =>
      Gives.at .failure
    · refine .advance rfl ((h.sequence inside).bind fun n hn => ?_)
      exact (Gives.expect rfl).bind fun _ _ => h.accesses inside n hn
    · refine .advance rfl ((h.items inside ']' [] rfl trivial).bind fun elems helems => .made ?_)
      exact h.accesses inside _ helems
    · refine .advance rfl ((h.pairs inside true).bind fun _ _ => .made ?_)
      exact h.accesses inside _ trivial
  · rename_i t
    refine .advance rfl ?_
    cases ht : ofNumber t with
    | none => exact .failure
    | some n => exact .make (Node.made_ofNumber ht)
  · exact .advance rfl (.made (h.accesses inside _ trivial))
  · rename_i w
    refine .word fun hw => .advance rfl ?_
    refine .ite (fun _ => .make trivial) fun htrue => .ite (fun _ => .make trivial) fun hfalse =>
      .ite (fun _ => .make trivial) fun hnil => ?_
    refine .lookAhead (h.call inside w [] hw trivial (Nat.zero_le 1)).at (.made ?_)
    refine h.accesses inside _ ⟨hw, ?_⟩
    simp only [beq_iff_eq] at htrue hfalse hnil
    simp [valueWords, htrue, hfalse, hnil]

end

theorem makesNodes (fuel : Nat) : MakesNodes fuel := by
  induction fuel with
  | zero => exact .zero
  | succ fuel ih =>
    exact ⟨makes_sequence ih, makes_sequenceRest ih, makes_expression ih, makes_operators ih,
      makes_comparison ih, makes_choice ih, makes_binding ih, makes_condition ih,
      makes_primary ih, makes_items ih, makes_pairs ih, makes_call ih, makes_predicateArgs ih,
      makes_predicate ih, makes_accesses ih, makes_property ih, makes_subscript ih⟩

/-- The tree of a text is read off all of its tokens. -/
theorem parse?_cases {s : List Char} {n : Node} (h : parse? s = some n) :
    ∃ ts c, Token.scan s = some ts ∧ (sequence (fuelFor ts) false).run ⟨ts, 0⟩ = some (n, c) ∧
      c.rest = [] := by
  obtain ⟨ts, hts, h⟩ := Option.bind_eq_some_iff.mp h
  obtain ⟨⟨m, c⟩, hread, h⟩ := Option.bind_eq_some_iff.mp h
  dsimp only at h
  split at h
  · rename_i hend
    cases h
    rw [Bool.and_eq_true, List.isEmpty_iff] at hend
    exact ⟨ts, c, hts, hread, hend.1⟩
  · cases h

/-- The tree of a text is made as all are. -/
theorem made_of_parse {s : List Char} {n : Node} (h : parse? s = some n) : Made n := by
  obtain ⟨ts, c, hts, hread, _⟩ := parse?_cases h
  exact ((makesNodes _).sequence false ⟨ts, 0⟩ (Token.properFrom_scanWith hts) n c hread).1

end Grammar

end Lowlang.Expr
