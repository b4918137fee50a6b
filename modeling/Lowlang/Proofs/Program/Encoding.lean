import Lowlang.Program.Writing
import Lowlang.Proofs.Value.Expressible

set_option autoImplicit false

/-!
# Which programs have a document

A value is written as the text of an expression when it has one; failing that, a list is written
element by element and an aggregate field by field.  Only the lack of a text lets the writer look
further, and a value lacks one for no other reason than that it has no expression syntax.  So a
program has a document exactly when each of its values and tests is, down to its parts, a list, an
aggregate or an expression.

The mappings with optional entries are named here with the keys they can have, which come in the
order that reading lists them in.
-/

namespace Lowlang

/-- The computation succeeds exactly under the condition. -/
def OkIff {α : Type} (e : Except Fault α) (P : Prop) : Prop :=
  (∃ a, e = .ok a) ↔ P

namespace OkIff

theorem ok {α : Type} (a : α) : OkIff (.ok a) True :=
  iff_true_intro ⟨a, rfl⟩

theorem bind {α β : Type} {e : Except Fault α} {k : α → Except Fault β} {P Q : Prop}
    (h : OkIff e P) (hk : ∀ a, OkIff (k a) Q) : OkIff (e >>= k) (P ∧ Q) := by
  constructor
  · rintro ⟨b, hb⟩
    obtain ⟨a, ha, hb⟩ := Fault.bind_ok hb
    exact ⟨h.mp ⟨a, ha⟩, (hk a).mp ⟨b, hb⟩⟩
  · rintro ⟨hp, hq⟩
    obtain ⟨a, rfl⟩ := h.mpr hp
    exact (hk a).mpr hq

theorem map {α β : Type} {e : Except Fault α} {P : Prop} (h : OkIff e P) (g : α → β) :
    OkIff (e >>= fun a => .ok (g a)) P := by
  have hbind := h.bind fun a => ok (g a)
  rwa [and_true] at hbind

end OkIff

namespace Value

/-! ## Values without a text -/

/-- A failure is about a value without expression syntax. -/
def Refused {α : Type} (e : Except Fault α) : Prop :=
  ∀ f, e = .error f → f.isA .unsupportedExpr

theorem Refused.ok {α : Type} (a : α) : Refused (.ok a) :=
  nofun

theorem Refused.of {α : Type} (attrs : List Attr) :
    Refused (.error (.of .unsupportedExpr attrs) : Except Fault α) := by
  rintro _ ⟨⟩
  rfl

theorem Refused.bind {α β : Type} {e : Except Fault α} {k : α → Except Fault β}
    (h : Refused e) (hk : ∀ a, Refused (k a)) : Refused (e >>= k) := by
  cases e with
  | ok a => exact hk a
  | error g =>
    rintro f ⟨⟩
    exact h g rfl

mutual

/-- Writing an expression fails for want of syntax only. -/
theorem source_refused : ∀ v : Value, Refused (source v)
  | .absent | .custom _ _ _ | .type _ none | .other _ _ _ _ => .of _
  | .byte _ _ | .char _ _ | .bool _ _ | .type _ (some _) | .name _ _ => .ok _
  | .int p i => by
    rw [source]
    split
    · exact .of _
    · exact .ok _
  | .uint p n => by
    rw [source]
    split
    · exact .ok _
    · exact .of _
  | .list p elems => (sourceJoin_refused elems).bind fun _ => .ok _
  | .call p n args => (sourceJoin_refused args).bind fun _ => .ok _
  | .operator p op x y => by
    rw [source]
    split
    all_goals
      refine (source_refused x).bind fun a => ?_
      split
      · exact .ok _
      · exact (source_refused y).bind fun _ => .ok _
termination_by structural v => v

theorem sourceJoin_refused : ∀ vs : List Value, Refused (sourceJoin vs)
  | [] => .ok _
  | v :: vs => (source_refused v).bind fun _ => (sourceRest_refused vs).bind fun _ => .ok _
termination_by structural vs => vs

theorem sourceRest_refused : ∀ vs : List Value, Refused (sourceRest vs)
  | [] => .ok _
  | v :: vs => (source_refused v).bind fun _ => (sourceRest_refused vs).bind fun _ => .ok _
termination_by structural vs => vs

end

/-! ## Values with a content -/

/-- The value is an expression, or a list or an aggregate whose parts are encodable. -/
inductive Encodable : Value → Prop
  | expression {v : Value} {s : String} (h : v.source = .ok s) : Encodable v
  | list {p : Pos} {elems : List Value} (h : ∀ v ∈ elems, Encodable v) :
    Encodable (.list p elems)
  | custom {p : Pos} {t : Option Ty} {fields : List (String × Value)}
    (h : ∀ f ∈ fields, Encodable f.2) : Encodable (.custom p t fields)

end Value

namespace Program

open Lowlang.Yaml

/-- An aggregate as a mapping: its type, and its fields if there are any. -/
def customEntries (t : Option Ty) (fs : List (String × Content)) : List (String × Content) :=
  ("custom", .text (typeText t)) :: if fs.isEmpty then [] else [("fields", .mapping fs)]

theorem valueContent_custom (p : Pos) (t : Option Ty) (fields : List (String × Value)) :
    valueContent (.custom p t fields) =
      fieldContents fields >>= fun fs => .ok (.mapping (customEntries t fs)) := by
  rw [valueContent, Value.source]
  have hisA : (Fault.of .unsupportedExpr [Attr.text "kind" "Custom",
      Attr.text "reason" "custom values have no expression syntax"]).isA .unsupportedExpr := rfl
  simp only [hisA, if_true]
  refine congrArg _ (funext fun fs => ?_)
  unfold customEntries
  split <;> rfl

theorem valueContent_list {p : Pos} {elems : List Value} {f : Fault}
    (h : (Value.list p elems).source = .error f) :
    valueContent (.list p elems) = valueContents elems >>= fun cs => .ok (.sequence cs) := by
  rw [valueContent, h]
  simp only [Value.source_refused _ f h, if_true]
  cases valueContents elems <;> rfl

/-- An expression is written as its text. -/
theorem valueContent_expression {v : Value} {s : String} (h : v.source = .ok s) :
    valueContent v = .ok (.text s) := by
  cases v with
  | absent => cases h
  | _ => simp only [valueContent, h]

/-- What a value can be written as. -/
theorem valueContent_ok {v : Value} {c : Content} (h : valueContent v = .ok c) :
    (∃ s, v.source = .ok s ∧ c = .text s) ∨
    (∃ p elems cs f, v = .list p elems ∧ v.source = .error f ∧ valueContents elems = .ok cs ∧
      c = .sequence cs) ∨
    (∃ p t fields fs, v = .custom p t fields ∧ fieldContents fields = .ok fs ∧
      c = .mapping (customEntries t fs)) := by
  cases hsource : v.source with
  | ok s =>
    rw [valueContent_expression hsource] at h
    cases h
    exact .inl ⟨s, rfl, rfl⟩
  | error f =>
    have hisA := Value.source_refused v f hsource
    cases v with
    | list p elems =>
      rw [valueContent_list hsource] at h
      obtain ⟨cs, hcs, hc⟩ := Fault.bind_ok h
      cases hc
      exact .inr (.inl ⟨p, elems, cs, f, rfl, rfl, hcs, rfl⟩)
    | custom p t fields =>
      rw [valueContent_custom] at h
      obtain ⟨fs, hfs, hc⟩ := Fault.bind_ok h
      cases hc
      exact .inr (.inr ⟨p, t, fields, fs, rfl, hfs, rfl⟩)
    | _ => simp [valueContent, hsource, hisA] at h

mutual

/-- A value has content exactly when it is encodable. -/
theorem valueContent_okIff : ∀ v : Value, OkIff (valueContent v) v.Encodable
  | .list p elems => by
    cases hsource : (Value.list p elems).source with
    | ok s => exact iff_of_true ⟨_, valueContent_expression hsource⟩ (.expression hsource)
    | error f =>
      have helems : (Value.list p elems).Encodable ↔ ∀ v ∈ elems, v.Encodable := by
        refine ⟨?_, .list⟩
        rintro (⟨h⟩ | h)
        · rw [hsource] at h
          cases h
        · exact h
      rw [valueContent_list hsource, helems]
      exact (valueContents_okIff elems).map _
  | .custom p t fields => by
    have hfields : (Value.custom p t fields).Encodable ↔ ∀ f ∈ fields, f.2.Encodable := by
      refine ⟨?_, .custom⟩
      rintro (⟨⟨⟩⟩ | _ | h)
      exact h
    rw [valueContent_custom, hfields]
    exact (fieldContents_okIff fields).map _
  | .absent | .int _ _ | .uint _ _ | .byte _ _ | .char _ _ | .bool _ _ | .type _ _ | .name _ _
  | .call _ _ _ | .operator _ _ _ _ | .other _ _ _ _ => by
    constructor
    · rintro ⟨c, hc⟩
      obtain ⟨s, hs, _⟩ | ⟨_, _, _, _, ⟨⟩, _⟩ | ⟨_, _, _, _, ⟨⟩, _⟩ := valueContent_ok hc
      exact .expression hs
    · rintro ⟨hs⟩
      exact ⟨_, valueContent_expression hs⟩
termination_by structural v => v

theorem valueContents_okIff : ∀ vs : List Value,
    OkIff (valueContents vs) (∀ v ∈ vs, v.Encodable)
  | [] => iff_of_true ⟨_, rfl⟩ nofun
  | v :: vs => by
    rw [List.forall_mem_cons]
    exact (valueContent_okIff v).bind fun _ => (valueContents_okIff vs).map _
termination_by structural vs => vs

theorem fieldContents_okIff : ∀ fs : List (String × Value),
    OkIff (fieldContents fs) (∀ f ∈ fs, f.2.Encodable)
  | [] => iff_of_true ⟨_, rfl⟩ nofun
  | (n, v) :: fs => by
    rw [List.forall_mem_cons]
    exact (valueContent_okIff v).bind fun _ => (fieldContents_okIff fs).map _
termination_by structural fs => fs

end

end Program

namespace Stmt

/-! ## Statements -/

mutual

/-- The values and tests in a statement and the statements below it, in order. -/
def values : Stmt → List Value
  | .eval _ v | .declare _ _ _ v | .assign _ _ v => [v]
  | .function _ _ _ _ body => blockValues body
  | .branch _ test body elifs otherwise =>
    test :: (blockValues body ++ (elifValues elifs ++ otherwiseValues otherwise))
  | .absent | .other _ _ => []
termination_by structural s => s

def blockValues : List Stmt → List Value
  | [] => []
  | s :: ss => values s ++ blockValues ss
termination_by structural ss => ss

def elifValues : List (Value × List Stmt) → List Value
  | [] => []
  | (test, body) :: es => test :: (blockValues body ++ elifValues es)
termination_by structural es => es

def otherwiseValues : Option (List Stmt) → List Value
  | none => []
  | some body => blockValues body
termination_by structural o => o

end

mutual

/-- The statement is of a known kind, and the types it gives are there and canonical. -/
def Formed : Stmt → Prop
  | .absent | .other _ _ => False
  | .eval _ _ | .assign _ _ _ => True
  | .declare _ _ t _ => Ty.CanonicalOption t
  | .function _ _ params result body =>
    (∀ p ∈ params, p.type.Canonical) ∧ Ty.CanonicalOption result ∧ FormedBlock body
  | .branch _ _ body elifs otherwise =>
    FormedBlock body ∧ FormedElifs elifs ∧ FormedOtherwise otherwise
termination_by structural s => s

def FormedBlock : List Stmt → Prop
  | [] => True
  | s :: ss => Formed s ∧ FormedBlock ss
termination_by structural ss => ss

def FormedElifs : List (Value × List Stmt) → Prop
  | [] => True
  | (_, body) :: es => FormedBlock body ∧ FormedElifs es
termination_by structural es => es

def FormedOtherwise : Option (List Stmt) → Prop
  | none => True
  | some body => FormedBlock body
termination_by structural o => o

end

end Stmt

namespace Program

open Lowlang.Yaml

mutual

/-- A statement has content exactly when its values are encodable. -/
theorem stmtContent_okIff : ∀ s : Stmt, s.Formed →
    OkIff (stmtContent s) (∀ v ∈ s.values, v.Encodable)
  | .absent, h | .other _ _, h => h.elim
  | .eval p v, _ | .declare p n t v, _ | .assign p n v, _ => by
    rw [Stmt.values, List.forall_mem_singleton]
    exact (valueContent_okIff v).map _
  | .function p n params result body, h => (blockContents_okIff body h.2.2).map _
  | .branch p test body elifs otherwise, h => by
    rw [Stmt.values, List.forall_mem_cons, List.forall_mem_append, List.forall_mem_append]
    exact (valueContent_okIff test).bind fun _ => (blockContents_okIff body h.1).bind fun _ =>
      (elifContents_okIff elifs h.2.1).bind fun _ => (otherwiseContent_okIff otherwise h.2.2).map _
termination_by structural s => s

theorem blockContents_okIff : ∀ ss : List Stmt, Stmt.FormedBlock ss →
    OkIff (blockContents ss) (∀ v ∈ Stmt.blockValues ss, v.Encodable)
  | [], _ => iff_of_true ⟨_, rfl⟩ nofun
  | s :: ss, h => by
    rw [Stmt.blockValues, List.forall_mem_append]
    exact (stmtContent_okIff s h.1).bind fun _ => (blockContents_okIff ss h.2).map _
termination_by structural ss => ss

theorem elifContents_okIff : ∀ es : List (Value × List Stmt), Stmt.FormedElifs es →
    OkIff (elifContents es) (∀ v ∈ Stmt.elifValues es, v.Encodable)
  | [], _ => iff_of_true ⟨_, rfl⟩ nofun
  | (test, body) :: es, h => by
    rw [Stmt.elifValues, List.forall_mem_cons, List.forall_mem_append]
    exact (valueContent_okIff test).bind fun _ => (blockContents_okIff body h.1).bind fun _ =>
      (elifContents_okIff es h.2).map _
termination_by structural es => es

theorem otherwiseContent_okIff : ∀ o : Option (List Stmt), Stmt.FormedOtherwise o →
    OkIff (otherwiseContent o) (∀ v ∈ Stmt.otherwiseValues o, v.Encodable)
  | none, _ => iff_of_true ⟨_, rfl⟩ nofun
  | some body, h => (blockContents_okIff body h).map _
termination_by structural o => o

end

/-- A program has a document exactly when its values and tests are encodable. -/
theorem content_okIff {p : Program} (h : Stmt.FormedBlock p.body) :
    OkIff p.content (∀ v ∈ Stmt.blockValues p.body, v.Encodable) :=
  (blockContents_okIff p.body h).map _

/-! ## Entries and their keys -/

/-- The entry of further tests, if there are any. -/
def elifEntries (cs : List Content) : List (String × Content) :=
  if cs.isEmpty then [] else [("elif", .sequence cs)]

theorem elifContents_cons {e : Value × List Stmt} {es : List (Value × List Stmt)}
    {cs : List Content} (h : elifContents (e :: es) = .ok cs) : ∃ d ds, cs = d :: ds := by
  obtain ⟨c, _, h⟩ := Fault.bind_ok h
  obtain ⟨bs, _, h⟩ := Fault.bind_ok h
  obtain ⟨ds, _, h⟩ := Fault.bind_ok h
  cases h
  exact ⟨_, _, rfl⟩

theorem otherwiseContent_ok {o : Option (List Stmt)} {os : List (String × Content)}
    (h : otherwiseContent o = .ok os) : os = [] ∨ ∃ c, os = [("else", c)] := by
  cases o with
  | none =>
    cases h
    exact .inl rfl
  | some body =>
    obtain ⟨b, _, h⟩ := Fault.bind_ok h
    cases h
    exact .inr ⟨_, rfl⟩

/-- The entries of a conditional. -/
def branchEntries (c : Content) (cs es : List Content) (os : List (String × Content)) :
    List (String × Content) :=
  [("cond", c), ("then", .sequence cs)] ++ elifEntries es ++ os

/-- Each optional entry of a conditional is looked up in the part that writes it. -/
theorem branchEntries_keys {os : List (String × Content)} (h : os = [] ∨ ∃ c, os = [("else", c)])
    (c : Content) (cs es : List Content) :
    ((branchEntries c cs es os).map Prod.fst).Sublist ["cond", "then", "elif", "else"] ∧
    (branchEntries c cs es os).lookup "elif" = (elifEntries es).lookup "elif" ∧
    (branchEntries c cs es os).lookup "else" = os.lookup "else" := by
  obtain rfl | ⟨b, rfl⟩ := h
  all_goals
    cases es
    all_goals exact ⟨by simp [branchEntries, elifEntries], rfl, rfl⟩

/-- The entries of a target. -/
def targetEntries (t : Target) : List (String × Content) :=
  ("version", .text t.version.text) :: if t.file = "" then [] else [("file", .text t.file)]

/-- The entries of a program. -/
def programEntries (p : Program) (cs : List Content) : List (String × Content) :=
  [("target", .mapping (targetEntries p.target))]
    ++ (if p.builtins.isEmpty then [] else [("builtins", declsContent p.builtins)])
    ++ [("body", .sequence cs)]

theorem content_ok {p : Program} {c : Content} (h : p.content = .ok c) :
    ∃ cs, blockContents p.body = .ok cs ∧ c = .mapping (programEntries p cs) := by
  obtain ⟨cs, hcs, hc⟩ := Fault.bind_ok h
  cases hc
  exact ⟨cs, hcs, rfl⟩

/-- The body is always there, behind what may be missing. -/
theorem programEntries_keys (p : Program) (cs : List Content) :
    ((programEntries p cs).map Prod.fst).Sublist ["target", "builtins", "body"] ∧
    (programEntries p cs).lookup "body" = some (.sequence cs) := by
  unfold programEntries
  split
  · exact ⟨by simp, rfl⟩
  · exact ⟨by simp, rfl⟩

end Program

end Lowlang
