import Lowlang.Proofs.Value.Straying

set_option autoImplicit false

/-!
# Names that are misread

A name in a value that was read is a word with any strings behind it, joined by points.  Where
such a name is written and is no chain of words, reading takes a different name, goes astray
or is stuck.
-/

namespace Lowlang.Value

open Lowlang.Expr (Token Node)
open Lowlang.Expr.Grammar (Cursor valueWords isLink Opens)
open Lowlang.Expr.Token (ScansTo ProperFrom)

/-! ## Tokens of a text -/

/-- The text is cut into these tokens. -/
def CutInto (s : List Char) (ts : List Token) : Prop :=
  ∃ fuel, Token.scanWith fuel s = some ts

theorem CutInto.proper {s : List Char} {ts : List Token} (h : CutInto s ts) :
    ProperFrom false ts := by
  obtain ⟨fuel, hts⟩ := h
  exact Token.properFrom_scanWith hts

theorem CutInto.split {stop s : List Char} {ts all : List Token} (h : CutInto s all)
    (hts : ScansTo stop s ts) : ∃ more, CutInto stop more ∧ all = ts ++ more := by
  obtain ⟨fuel, hall⟩ := h
  obtain ⟨fuel', more, hmore, rfl⟩ := hts.split hall
  exact ⟨more, ⟨fuel', hmore⟩, rfl⟩

theorem CutInto.front {c : Char} {s : List Char} {ts : List Token} (h : CutInto (c :: s) ts) :
    ∃ t rest more, Token.front c s = some (t, rest) ∧ CutInto rest more ∧ ts = t ++ more := by
  obtain ⟨fuel, hts⟩ := h
  cases fuel with
  | zero => cases hts
  | succ fuel =>
    simp only [Token.scanWith, Option.bind_eq_bind, Option.bind_eq_some_iff] at hts
    obtain ⟨⟨t, rest⟩, hfront, more, hmore, hts⟩ := hts
    cases hts
    exact ⟨t, rest, more, hfront, ⟨fuel, hmore⟩, rfl⟩

/-- A point is a token of its own, unless digits or another point follow it. -/
theorem CutInto.point {s : List Char} {ts : List Token} (h : CutInto ('.' :: s) ts) :
    (∃ t more, ts = t :: more ∧ isStuck t ∧ t ≠ .bracket '(') ∨
      ∃ more, CutInto s more ∧ ts = .op "." :: more := by
  obtain ⟨t, rest, more, hfront, hmore, rfl⟩ := h.front
  cases s with
  | nil =>
    have hpoint : Token.front '.' [] = some ([.op "."], []) := rfl
    rw [hpoint] at hfront
    cases hfront
    exact .inr ⟨more, hmore, rfl⟩
  | cons d r =>
    have hpoint : Token.front '.' (d :: r) = if d.isDigit then
        (Token.numberPart (d :: r)).map fun p => ([.number (String.ofList ('.' :: p.1))], p.2)
      else some ([(Token.operator '.' ['.'] (d :: r)).1],
        (Token.operator '.' ['.'] (d :: r)).2) := rfl
    rw [hpoint] at hfront
    by_cases hdigit : d.isDigit
    · rw [if_pos hdigit] at hfront
      obtain ⟨p, _, hp⟩ := Option.map_eq_some_iff.mp hfront
      cases hp
      exact .inl ⟨_, _, rfl, rfl, fun hparen => nomatch hparen⟩
    · rw [if_neg hdigit] at hfront
      by_cases hd : d = '.'
      · subst hd
        cases hfront
        exact .inl ⟨_, _, rfl, rfl, fun hparen => nomatch hparen⟩
      · rw [Token.operator_alone (by simpa using hd)] at hfront
        cases hfront
        exact .inr ⟨more, hmore, rfl⟩

/-- No argument list opens at a point. -/
theorem CutInto.point_head {s : List Char} {ts : List Token} (h : CutInto ('.' :: s) ts) :
    ts.head? ≠ some (.bracket '(') := by
  rcases h.point with ⟨t, more, rfl, _, ht⟩ | ⟨more, _, rfl⟩
  · exact fun hhead => ht (Option.some.inj hhead)
  · exact fun hhead => nomatch hhead

theorem ofWord_inj {a b : String} (h : Token.ofWord a = Token.ofWord b) : a = b := by
  unfold Token.ofWord at h
  split at h <;> split at h <;> cases h <;> rfl

/-! ## Parts of a name -/

/-- The tail of a name in which every part is a word. -/
def PlainTail (tail : List Char) : Prop :=
  ∃ more : List (List Char), tail = more.flatMap ('.' :: ·) ∧ ∀ w ∈ more, Token.isIdentifier w

theorem plainTail_nil : PlainTail [] :=
  ⟨[], rfl, fun _ hw => nomatch hw⟩

theorem PlainTail.cons {w tail : List Char} (h : PlainTail tail) (hw : Token.isIdentifier w) :
    PlainTail ('.' :: (w ++ tail)) := by
  obtain ⟨more, rfl, hmore⟩ := h
  exact ⟨w :: more, rfl, List.forall_mem_cons.mpr ⟨hw, hmore⟩⟩

theorem segments_chain {first : List Char} {more : List (List Char)}
    (hfirst : ∀ c ∈ first, c ≠ '.') (hmore : ∀ w ∈ more, Token.isIdentifier w) :
    Token.segments (first ++ more.flatMap ('.' :: ·)) = (first, more) := by
  induction more generalizing first with
  | nil => rw [List.flatMap_nil, List.append_nil, segments_of_ne hfirst]
  | cons w more ih =>
    rw [List.forall_mem_cons] at hmore
    rw [List.flatMap_cons, List.cons_append, segments_point, segments_of_ne hfirst,
      ih (ne_point_of_isIdentifier hmore.1) hmore.2]
    rfl

/-- A name with a tail of words is plain. -/
theorem IsHeaded.plain {name : String} (h : IsHeaded name) {tail : List Char}
    (hname : name.toList = (Token.segments name.toList).1 ++ tail) (htail : PlainTail tail) :
    IsPlain name := by
  obtain ⟨more, rfl, hmore⟩ := htail
  have hsegments := segments_chain (ne_point_of_isIdentifier h.first) hmore
  rw [← hname] at hsegments
  refine ⟨h.first, h.unreserved, ?_⟩
  rw [hsegments]
  exact hmore

theorem not_within_of_ne {k n : String} {c : Char} {tail : List Char}
    (hn : n.toList = k.toList ++ c :: tail) (hc : c ≠ '.') : ¬ Within k n := by
  intro h
  rw [Within, hn, List.append_assoc, List.prefix_append_right_inj] at h
  obtain ⟨more, hmore⟩ := h
  exact hc (List.cons.inj hmore).1.symm

/-- A member by a word that does not stand next in the name leads away from it. -/
theorem not_within_member {k n u : String} {tail : List Char}
    (hn : n.toList = k.toList ++ '.' :: tail) (hu : Token.isIdentifier u.toList)
    (htail : ∀ c ∈ tail.head?, Token.isWordChar c = false ∨ c.isDigit) :
    ¬ Within (k ++ "." ++ u) n := by
  intro h
  have hlist : (k ++ "." ++ u).toList ++ ['.'] = k.toList ++ '.' :: (u.toList ++ ['.']) := by simp
  rw [Within, hlist, hn, List.append_assoc, List.prefix_append_right_inj, List.cons_append,
    List.cons_prefix_cons] at h
  obtain ⟨more, hmore⟩ := h.2
  cases hul : u.toList with
  | nil =>
    rw [hul] at hu
    cases hu
  | cons e r =>
    rw [hul] at hu hmore
    simp only [Token.isIdentifier, Bool.and_eq_true, Bool.not_eq_true'] at hu
    cases tail with
    | nil =>
      have he : e = '.' := (List.cons.inj hmore).1
      rw [he] at hu
      exact absurd hu.1.1 (by decide)
    | cons c tail =>
      obtain rfl : e = c := (List.cons.inj hmore).1
      rcases htail e rfl with hword | hdigit
      · rw [hword] at hu
        cases hu.1.1
      · rw [hdigit] at hu
        cases hu.1.2

/-! ## Members -/

/-- A name behind a point is a word of any kind. -/
theorem propertyName_cases {ts : List Token} (hts : ProperFrom false ts) {made : Nat} {u : String}
    {c : Cursor} (h : Expr.Grammar.propertyName.run ⟨ts, made⟩ = some (u, c)) :
    ∃ us, ts = Token.ofWord u :: us := by
  cases ts with
  | nil => cases h
  | cons t us =>
    cases t with
    | word w =>
      cases h
      refine ⟨us, ?_⟩
      rw [Token.ofWord, if_neg]
      intro hmem
      exact (hts.1 rfl).inert (List.contains_iff_mem.mp hmem)
    | op w =>
      by_cases hw : Token.operatorWords.contains w
      · have hrun : Expr.Grammar.propertyName.run ⟨.op w :: us, made⟩ = some (w, ⟨us, made⟩) := by
          simp [Expr.Grammar.propertyName, List.contains_iff_mem.mp hw]
        rw [hrun] at h
        cases h
        exact ⟨us, by rw [Token.ofWord, if_pos hw]⟩
      · have hnone : Expr.Grammar.propertyName.run ⟨.op w :: us, made⟩ = none := by
          have hmem : w ∉ Token.operatorWords := fun hmem => hw (List.contains_iff_mem.mpr hmem)
          simp [Expr.Grammar.propertyName, hmem]
        rw [hnone] at h
        cases h
    | _ => cases h

/-- A member by name is read off a word, and called when arguments follow. -/
theorem property_cases {n : Node} (hn : isLink n) {ts : List Token} (hts : ProperFrom false ts)
    {fuel made : Nat} {m : Node} {c : Cursor}
    (h : (Expr.Grammar.property fuel false n false).run ⟨ts, made⟩ = some (m, c)) :
    ∃ u us, ts = Token.ofWord u :: us ∧ Token.isIdentifier u.toList ∧
      ((m = .member n (.string u) false ∧ c = ⟨us, made + 2⟩) ∨
        us.head? = some (.bracket '(') ∧
          ∃ args, m = .call (.member n (.string u) false) args) := by
  cases fuel with
  | zero => cases h
  | succ fuel =>
    have hname : ∃ u c', Expr.Grammar.propertyName.run ⟨ts, made⟩ = some (u, c') := by
      unfold Expr.Grammar.property at h
      rw [StateT.run_bind] at h
      obtain ⟨⟨u, c'⟩, hu, _⟩ := Option.bind_eq_some_iff.mp h
      exact ⟨u, c', hu⟩
    obtain ⟨u, c', hu⟩ := hname
    obtain ⟨us, rfl⟩ := propertyName_cases hts hu
    refine ⟨u, us, rfl, (Expr.Grammar.Gives.propertyName _ hts u c' hu).1, ?_⟩
    by_cases hhead : us.head? = some (.bracket '(')
    · refine .inr ⟨hhead, ?_⟩
      cases us with
      | nil => cases hhead
      | cons t us =>
        cases hhead
        rw [Expr.Grammar.property_call hn] at h
        obtain ⟨p, _, hp⟩ := Option.map_eq_some_iff.mp h
        cases hp
        exact ⟨p.1, rfl⟩
    · rw [Expr.Grammar.property_link hn u hhead] at h
      cases h
      exact .inl ⟨rfl, rfl⟩

/-- The word at the front of a text, and what stands behind it. -/
theorem word_split (s : List Char) :
    (∀ c ∈ s.head?, Token.isWordChar c = false ∨ c.isDigit) ∨
      ∃ w tail, s = w ++ tail ∧ Token.isIdentifier w ∧ Token.Stops tail := by
  cases s with
  | nil => exact .inl fun _ hc => nomatch hc
  | cons c s =>
    by_cases hc : Token.isWordChar c && !c.isDigit
    · refine .inr ⟨c :: s.takeWhile Token.isWordChar, s.dropWhile Token.isWordChar, ?_, ?_, ?_⟩
      · rw [List.cons_append, List.takeWhile_append_dropWhile]
      · rw [Token.isIdentifier, hc, Bool.true_and]
        exact List.all_takeWhile
      · intro d hd
        have hstop := List.head?_dropWhile_not Token.isWordChar s
        rw [Option.mem_def.mp hd] at hstop
        simpa using hstop
    · refine .inl fun d hd => ?_
      cases Option.mem_some.mp hd
      cases hword : Token.isWordChar c with
      | false => exact .inl rfl
      | true =>
        rw [hword, Bool.true_and, Bool.not_eq_true', Bool.not_eq_false] at hc
        exact .inr hc

theorem Stops.append {tail rest : List Char} (h : Token.Stops tail) (hrest : Token.Stops rest) :
    Token.Stops (tail ++ rest) := by
  cases tail with
  | nil => exact hrest
  | cons c tail => exact h

/-- A member of some parts of a name is read off the next part, or reading goes astray. -/
theorem property_name {n : String} {rest : List Char} (hrest : Ends rest) (others : List String)
    {fuel made : Nat} {m q : Node} {k : String} {tail : List Char} {ts : List Token} {c : Cursor}
    (hm : staticName m = some k) (hn : n.toList = k.toList ++ '.' :: tail)
    (hts : CutInto (tail ++ rest) ts)
    (hq : (Expr.Grammar.property fuel false m false).run ⟨ts, made⟩ = some (q, c)) :
    Astray (n :: others) q ∨ ∃ u : String, ∃ more, tail = u.toList ++ more ∧
      Token.isIdentifier u.toList ∧
      (more = [] ∨ q = .member m (.string u) false ∧ CutInto (more ++ rest) c.rest) := by
  obtain ⟨u, us, rfl, hu, hmember⟩ := property_cases (isLink_of_staticName hm) hts.proper hq
  have hname : staticName (.member m (.string u) false) = some (k ++ "." ++ u) := by
    rw [staticName, hm, Option.map_some]
  have hdotted : isDotted (k ++ "." ++ u) := by simp [isDotted]
  -- A name that leads away is lost, whether it is called or not.
  have hastray : ¬ Within (k ++ "." ++ u) n → Astray (n :: others) q := by
    intro hwithin
    rcases hmember with ⟨rfl, _⟩ | ⟨_, args, rfl⟩
    · exact astray_name hname hdotted hwithin others
    · exact astray_nameCall hname hdotted hwithin args others
  rcases word_split tail with hhead | ⟨w, more, rfl, hw, hmore⟩
  · exact .inl (hastray (not_within_member hn hu hhead))
  · rw [List.append_assoc] at hts
    obtain ⟨vs, hvs, hcut⟩ := hts.split (.word .stop hw (Stops.append hmore hrest.stops))
    rw [List.singleton_append, List.cons.injEq] at hcut
    obtain ⟨hword, rfl⟩ := hcut
    obtain rfl := ofWord_inj hword
    rw [String.toList_ofList] at hu
    cases more with
    | nil => exact .inr ⟨String.ofList w, [], by simp, by simpa using hu, .inl rfl⟩
    | cons d more =>
      by_cases hd : d = '.'
      · subst hd
        rcases hmember with ⟨rfl, rfl⟩ | ⟨hcall, _⟩
        · exact .inr ⟨String.ofList w, '.' :: more, by simp, by simpa using hu, .inr ⟨rfl, hvs⟩⟩
        · exact absurd hcall hvs.point_head
      · have hrest : n.toList = (k ++ "." ++ String.ofList w).toList ++ d :: more := by
          rw [hn]
          simp
        exact .inl (hastray (not_within_of_ne hrest hd))

/-- Behind some parts of a name, the rest of it is a row of words or reading is lost. -/
theorem accesses_name {n : String} {rest : List Char} (hrest : Ends rest) (others : List String)
    {fuel made : Nat} {m p : Node} {k : String} {tail : List Char} {ts : List Token} {c : Cursor}
    (hmade : Node.Made m) (hm : staticName m = some k) (hn : n.toList = k.toList ++ tail)
    (hdotted : isDotted k ∨ tail.head? = some '.') (hts : CutInto (tail ++ rest) ts)
    (hp : (Expr.Grammar.accesses fuel false m).run ⟨ts, made⟩ = some (p, c)) :
    PlainTail tail ∨ Lost (n :: others) p c.rest := by
  induction fuel generalizing made m k tail ts with
  | zero => cases hp
  | succ fuel ih =>
    cases tail with
    | nil => exact .inl plainTail_nil
    | cons d tail =>
      by_cases hd : d = '.'
      · subst hd
        rcases hts.point with ⟨t, more, rfl, ht, _⟩ | ⟨us, hus, rfl⟩
        · rw [accesses_stuck ⟨t, more, rfl, ht⟩] at hp
          cases hp
          exact .inr (.inr ⟨t, more, rfl, ht⟩)
        · rw [Expr.Grammar.accesses_point] at hp
          obtain ⟨⟨q, c'⟩, hq, hp⟩ := Option.bind_eq_some_iff.mp hp
          obtain ⟨hqmade, hc'⟩ :=
            (Expr.Grammar.makesNodes fuel).property false m false hmade _ hus.proper q c' hq
          rcases property_name hrest others hm hn hus hq with hastray | ⟨u, more, rfl, hu, hmore⟩
          · exact .inr (Lost.accesses (.inl hastray) hc' hp)
          · rcases hmore with rfl | ⟨rfl, hcut⟩
            · exact .inl (plainTail_nil.cons hu)
            · have hname : staticName (.member m (.string u) false) = some (k ++ "." ++ u) := by
                rw [staticName, hm, Option.map_some]
              refine (ih hqmade hname ?_ (.inl ?_) hcut hp).imp (fun h => h.cons hu) id
              · rw [hn]
                simp
              · simp [isDotted]
      · refine .inr (Lost.accesses (.inl ?_) hts.proper hp)
        have hk : isDotted k := hdotted.resolve_right fun hhead => hd (Option.some.inj hhead)
        exact astray_name hm hk (not_within_of_ne hn hd) others

/-! ## Names as operands -/

/-- What stands behind the first part of a name. -/
def behindFirst (name : String) : List Char :=
  (moreParts name).flatMap ('.' :: ·)

theorem append_behindFirst (name : String) :
    (firstPart name).toList ++ behindFirst name = name.toList := by
  rw [firstPart, String.toList_ofList]
  exact Token.append_segments name.toList

theorem head_behindFirst {name : String} (h : moreParts name ≠ []) :
    (behindFirst name).head? = some '.' := by
  obtain ⟨w, more, hmore⟩ := List.exists_cons_of_ne_nil h
  rw [behindFirst, hmore]
  rfl

/-- The first part of a name is a word of its own, whatever stands behind the name. -/
theorem CutInto.first {name : String} {rest : List Char} {ts : List Token}
    (h : CutInto (name.toList ++ rest) ts) (hrest : Ends rest)
    (hfirst : Token.IsWord (firstPart name)) :
    ∃ us, ts = .word (firstPart name) :: us ∧ CutInto (behindFirst name ++ rest) us := by
  have hstops : Token.Stops (behindFirst name ++ rest) := by
    refine Stops.append ?_ hrest.stops
    intro c hc
    by_cases hmore : moreParts name = []
    · rw [behindFirst, hmore] at hc
      cases hc
    · rw [head_behindFirst hmore, Option.mem_some_iff] at hc
      subst hc
      decide
  rw [← append_behindFirst name, List.append_assoc] at h
  obtain ⟨us, hus, rfl⟩ := h.split (.word .stop hfirst.identifier hstops)
  have hword : Token.ofWord (firstPart name) = .word (firstPart name) := by
    rw [Token.ofWord, if_neg]
    intro hmem
    exact hfirst.inert (List.contains_iff_mem.mp hmem)
  rw [String.ofList_toList, hword]
  exact ⟨us, rfl, hus⟩

theorem IsHeaded.word {name : String} (h : IsHeaded name) : Token.IsWord (firstPart name) := by
  refine ⟨?_, fun hmem => h.unreserved (List.mem_append_left _ hmem)⟩
  rw [firstPart, String.toList_ofList]
  exact h.first

theorem IsHeaded.moreParts_ne {name : String} (h : IsHeaded name) (hplain : ¬ IsPlain name) :
    moreParts name ≠ [] := by
  intro hnil
  refine hplain ⟨h.first, h.unreserved, ?_⟩
  rw [← moreParts, hnil]
  exact List.forall_mem_nil _

/-- Where a name stands that is not plain, what is read as an operand is lost. -/
theorem primary_name {n : String} (hn : IsHeaded n) (hplain : ¬ IsPlain n) {rest : List Char}
    (hrest : Ends rest) {ts : List Token} (hts : CutInto (n.toList ++ rest) ts)
    (others : List String) {fuel made : Nat} {p : Node} {c : Cursor}
    (hp : (Expr.Grammar.primary fuel false).run ⟨ts, made⟩ = some (p, c)) :
    Lost (n :: others) p c.rest := by
  obtain ⟨us, rfl, hus⟩ := hts.first hrest hn.word
  have hpoint := head_behindFirst (hn.moreParts_ne hplain)
  have hvalue : firstPart n ∉ valueWords := fun hmem => hn.unreserved (List.mem_append_right _ hmem)
  have hcall : us.head? ≠ some (.bracket '(') := by
    obtain ⟨tail, htail⟩ := List.head?_eq_some_iff.mp hpoint
    rw [htail, List.cons_append] at hus
    exact hus.point_head
  cases fuel with
  | zero => cases hp
  | succ fuel =>
    rw [Expr.Grammar.primary_word hvalue hcall] at hp
    refine (accesses_name hrest others (m := .ident (firstPart n)) (k := firstPart n)
      ⟨hn.word, hvalue⟩ rfl (append_behindFirst n).symm (.inr hpoint) hus hp).resolve_left ?_
    intro htail
    refine hplain (hn.plain ?_ htail)
    exact (Token.append_segments n.toList).symm

end Lowlang.Value
