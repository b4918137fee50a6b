import Lowlang.Program.Writing
import Lowlang.Proofs.Value.Positions

set_option autoImplicit false

/-!
# Positions of statements

Values and statements are the same exactly when they are equal once all their nodes are moved to one
position.  Moving changes neither the text of a listing, nor an expression, nor the content of a
document, so none of these can tell apart what is the same.
-/

namespace Lowlang

/-! ## Sameness -/

namespace Ty

mutual

/-- Types have no positions: they are the same when they are equal. -/
theorem same_iff : ∀ t u : Ty, same t u ↔ t = u
  | .array s, u => by cases u <;> simp [same, sameOption_iff s]
  | .function ps r, u => by cases u <;> simp [same, sameList_iff ps, sameOption_iff r]
  | .union ms, u => by cases u <;> simp [same, sameList_iff ms]
  | .null, u | .int, u | .uint, u | .byte, u | .char, u | .bool, u | .list, u | .custom _, u
  | .other _, u => by cases u <;> simp [same]
termination_by structural t => t

theorem sameOption_iff : ∀ t u : Option Ty, sameOption t u ↔ t = u
  | none, u => by cases u <;> simp [sameOption]
  | some t, u => by cases u <;> simp [sameOption, same_iff t]
termination_by structural t => t

theorem sameList_iff : ∀ ts us : List Ty, sameList ts us ↔ ts = us
  | [], us => by cases us <;> simp [sameList]
  | t :: ts, us => by cases us <;> simp [sameList, same_iff t, sameList_iff ts]
termination_by structural ts => ts

end

end Ty

namespace Value

mutual

/-- Values are the same when they are equal at one position. -/
theorem same_iff : ∀ v w : Value, same v w ↔ moved .none v = moved .none w
  | .list _ xs, w => by cases w <;> simp [same, moved, sameList_iff xs]
  | .custom _ t fs, w => by
    cases w <;> simp [same, moved, Ty.sameOption_iff, sameFields_iff fs]
  | .type _ t, w => by cases w <;> simp [same, moved, Ty.sameOption_iff]
  | .call _ n xs, w => by cases w <;> simp [same, moved, sameList_iff xs]
  | .operator _ op x y, w => by cases w <;> simp [same, moved, same_iff x, same_iff y, and_assoc]
  | .other _ k x y, w => by cases w <;> simp [same, moved, same_iff x, same_iff y, and_assoc]
  | .absent, w | .int _ _, w | .uint _ _, w | .byte _ _, w | .char _ _, w | .bool _ _, w
  | .name _ _, w => by cases w <;> simp [same, moved]
termination_by structural v => v

theorem sameList_iff :
    ∀ vs ws : List Value, sameList vs ws ↔ movedAll .none vs = movedAll .none ws
  | [], ws => by cases ws <;> simp [sameList, movedAll]
  | v :: vs, ws => by cases ws <;> simp [sameList, movedAll, same_iff v, sameList_iff vs]
termination_by structural vs => vs

theorem sameFields_iff :
    ∀ fs gs : List (String × Value), sameFields fs gs ↔ movedFields .none fs = movedFields .none gs
  | [], gs => by cases gs <;> simp [sameFields, movedFields]
  | (n, v) :: fs, gs => by
    cases gs <;> simp [sameFields, movedFields, same_iff v, sameFields_iff fs]
termination_by structural fs => fs

end

/-! ## Texts of values -/

mutual

theorem text_moved (p : Pos) : ∀ v : Value, text (moved p v) = text v
  | .list _ xs => by rw [moved, text, textJoin_moved p xs, text]
  | .custom _ t fs => by rw [moved, text, textFields_moved p fs, text]
  | .call _ n xs => by rw [moved, text, textJoin_moved p xs, text]
  | .operator _ op x y => by rw [moved, text, text_moved p x, text_moved p y, text]
  | .absent | .int _ _ | .uint _ _ | .byte _ _ | .char _ _ | .bool _ _ | .type _ _ | .name _ _
  | .other _ _ _ _ => rfl
termination_by structural v => v

theorem textJoin_moved (p : Pos) : ∀ vs : List Value, textJoin (movedAll p vs) = textJoin vs
  | [] => rfl
  | v :: vs => by rw [movedAll, textJoin, text_moved p v, textRest_moved p vs, textJoin]
termination_by structural vs => vs

theorem textRest_moved (p : Pos) : ∀ vs : List Value, textRest (movedAll p vs) = textRest vs
  | [] => rfl
  | v :: vs => by rw [movedAll, textRest, text_moved p v, textRest_moved p vs, textRest]
termination_by structural vs => vs

theorem textFields_moved (p : Pos) :
    ∀ fs : List (String × Value), textFields (movedFields p fs) = textFields fs
  | [] => rfl
  | [(n, v)] => by rw [movedFields, movedFields, textFields, text_moved p v, textFields]
  | (n, v) :: f :: fs => by
    show n ++ " = " ++ text (moved p v) ++ "\n" ++ textFields (movedFields p (f :: fs)) = _
    rw [text_moved p v, textFields_moved p (f :: fs)]
    rfl
termination_by structural fs => fs

end

theorem group_moved (p : Pos) (v : Value) (s : String) : group (moved p v) s = group v s := by
  cases v <;> rfl

mutual

theorem source_moved (p : Pos) : ∀ v : Value, source (moved p v) = source v
  | .list _ xs => by rw [moved, source, sourceJoin_moved p xs, source]
  | .call _ n xs => by rw [moved, source, sourceJoin_moved p xs, source]
  | .operator _ op x y => by
    simp only [moved, source, source_moved p x, source_moved p y, group_moved]
  | .type _ none | .type _ (some _) => rfl
  | .absent | .int _ _ | .uint _ _ | .byte _ _ | .char _ _ | .bool _ _ | .name _ _
  | .custom _ _ _ | .other _ _ _ _ => rfl
termination_by structural v => v

theorem sourceJoin_moved (p : Pos) : ∀ vs : List Value, sourceJoin (movedAll p vs) = sourceJoin vs
  | [] => rfl
  | v :: vs => by rw [movedAll, sourceJoin, source_moved p v, sourceRest_moved p vs, sourceJoin]
termination_by structural vs => vs

theorem sourceRest_moved (p : Pos) : ∀ vs : List Value, sourceRest (movedAll p vs) = sourceRest vs
  | [] => rfl
  | v :: vs => by rw [movedAll, sourceRest, source_moved p v, sourceRest_moved p vs, sourceRest]
termination_by structural vs => vs

end

end Value

namespace Stmt

/-! ## Moved statements -/

mutual

/-- The statement with every node at one position. -/
def moved (p : Pos) : Stmt → Stmt
  | .absent => .absent
  | .eval _ v => .eval p (v.moved p)
  | .declare _ n t v => .declare p n t (v.moved p)
  | .assign _ n v => .assign p n (v.moved p)
  | .function _ n params result body => .function p n params result (movedBlock p body)
  | .branch _ test body elifs otherwise =>
    .branch p (test.moved p) (movedBlock p body) (movedElifs p elifs)
      (movedOtherwise p otherwise)
  | .other _ k => .other p k
termination_by structural s => s

/-- The block with every node at one position. -/
def movedBlock (p : Pos) : List Stmt → List Stmt
  | [] => []
  | s :: ss => moved p s :: movedBlock p ss
termination_by structural ss => ss

def movedElifs (p : Pos) : List (Value × List Stmt) → List (Value × List Stmt)
  | [] => []
  | (test, body) :: es => (test.moved p, movedBlock p body) :: movedElifs p es
termination_by structural es => es

def movedOtherwise (p : Pos) : Option (List Stmt) → Option (List Stmt)
  | none => none
  | some body => some (movedBlock p body)
termination_by structural o => o

end

theorem sameParams_iff (ps qs : List Param) : sameParams ps qs ↔ ps = qs := by
  induction ps generalizing qs with
  | nil => cases qs <;> simp [sameParams]
  | cons p ps ih =>
    cases qs with
    | nil => simp [sameParams]
    | cons q qs =>
      cases p
      cases q
      simp [sameParams, Ty.same_iff, ih]

mutual

/-- Statements are the same when they are equal at one position. -/
theorem same_iff : ∀ s t : Stmt, same s t ↔ moved .none s = moved .none t
  | .eval _ v, t => by cases t <;> simp [same, moved, Value.same_iff]
  | .declare _ n ty v, t => by
    cases t <;> simp [same, moved, Ty.sameOption_iff, Value.same_iff, and_assoc]
  | .assign _ n v, t => by cases t <;> simp [same, moved, Value.same_iff]
  | .function _ n params result body, t => by
    cases t with
    | function _ m params' result' body' =>
      simp only [same, moved, Bool.and_eq_true, beq_iff_eq, Ty.sameOption_iff, sameParams_iff,
        sameBlock_iff body, function.injEq, true_and]
      exact ⟨fun ⟨⟨⟨hn, hr⟩, hp⟩, hb⟩ => ⟨hn, hp, hr, hb⟩,
        fun ⟨hn, hp, hr, hb⟩ => ⟨⟨⟨hn, hr⟩, hp⟩, hb⟩⟩
    | _ => simp [same, moved]
  | .branch _ test body elifs otherwise, t => by
    cases t <;> simp [same, moved, Value.same_iff, sameBlock_iff body, sameElifs_iff elifs,
      sameOtherwise_iff otherwise, and_assoc]
  | .absent, t | .other _ _, t => by cases t <;> simp [same, moved]
termination_by structural s => s

theorem sameBlock_iff :
    ∀ ss ts : List Stmt, sameBlock ss ts ↔ movedBlock .none ss = movedBlock .none ts
  | [], ts => by cases ts <;> simp [sameBlock, movedBlock]
  | s :: ss, ts => by cases ts <;> simp [sameBlock, movedBlock, same_iff s, sameBlock_iff ss]
termination_by structural ss => ss

theorem sameElifs_iff : ∀ es fs : List (Value × List Stmt),
    sameElifs es fs ↔ movedElifs .none es = movedElifs .none fs
  | [], fs => by cases fs <;> simp [sameElifs, movedElifs]
  | (v, b) :: es, fs => by
    cases fs <;>
      simp [sameElifs, movedElifs, Value.same_iff, sameBlock_iff b, sameElifs_iff es]
termination_by structural es => es

theorem sameOtherwise_iff : ∀ o q : Option (List Stmt),
    sameOtherwise o q ↔ movedOtherwise .none o = movedOtherwise .none q
  | none, q => by cases q <;> simp [sameOtherwise, movedOtherwise]
  | some b, q => by cases q <;> simp [sameOtherwise, movedOtherwise, sameBlock_iff b]
termination_by structural o => o

end

/-! ## Texts of statements -/

mutual

theorem text_moved (p : Pos) : ∀ s : Stmt, text (moved p s) = text s
  | .eval _ v => by simp only [moved, text, Value.text_moved]
  | .declare _ n t v => by simp only [moved, text, Value.text_moved]
  | .assign _ n v => by simp only [moved, text, Value.text_moved]
  | .function _ n params result body => by simp only [moved, text, textLines_moved p body]
  | .branch _ test body elifs otherwise => by
    simp only [moved, text, Value.text_moved, textLines_moved p body, textElifs_moved p elifs,
      textOtherwise_moved p otherwise]
  | .absent | .other _ _ => rfl
termination_by structural s => s

theorem textLines_moved (p : Pos) : ∀ ss : List Stmt, textLines (movedBlock p ss) = textLines ss
  | [] => rfl
  | s :: ss => by rw [movedBlock, textLines, text_moved p s, textLines_moved p ss, textLines]
termination_by structural ss => ss

theorem textElifs_moved (p : Pos) :
    ∀ es : List (Value × List Stmt), textElifs (movedElifs p es) = textElifs es
  | [] => rfl
  | (v, b) :: es => by
    rw [movedElifs, textElifs, Value.text_moved, textLines_moved p b, textElifs_moved p es,
      textElifs]
termination_by structural es => es

theorem textOtherwise_moved (p : Pos) :
    ∀ o : Option (List Stmt), textOtherwise (movedOtherwise p o) = textOtherwise o
  | none => rfl
  | some b => by rw [movedOtherwise, textOtherwise, textLines_moved p b, textOtherwise]
termination_by structural o => o

end

theorem textBlock_moved (p : Pos) (b : Block) : textBlock (movedBlock p b) = textBlock b := by
  rw [textBlock, textLines_moved, textBlock]

end Stmt

namespace Program

/-! ## Documents -/

open Value (movedAll movedFields)

/-- The content of a value that is nothing but an expression. -/
def expressionContent (v : Value) : Except Fault Yaml.Content :=
  match v.source with
  | .ok s => .ok (.text s)
  | .error f =>
    if f.isA .unsupportedExpr then .error (.because .encode f [Attr.text "value" v.text])
    else .error f

theorem expressionContent_moved (p : Pos) (v : Value) :
    expressionContent (v.moved p) = expressionContent v := by
  unfold expressionContent
  rw [Value.source_moved, Value.text_moved]

mutual

theorem valueContent_moved (p : Pos) : ∀ v : Value, valueContent (v.moved p) = valueContent v
  | .list q xs => by
    have hsource : (Value.list p (movedAll p xs)).source = (Value.list q xs).source :=
      Value.source_moved p (.list q xs)
    simp only [Value.moved, valueContent, hsource, valueContents_moved p xs]
  | .custom q t fs => by
    simp only [Value.moved, valueContent, Value.source, fieldContents_moved p fs]
  | .absent => rfl
  | .int q i => expressionContent_moved p (.int q i)
  | .uint q n => expressionContent_moved p (.uint q n)
  | .byte q b => expressionContent_moved p (.byte q b)
  | .char q c => expressionContent_moved p (.char q c)
  | .bool q b => expressionContent_moved p (.bool q b)
  | .type q t => expressionContent_moved p (.type q t)
  | .name q n => expressionContent_moved p (.name q n)
  | .call q n xs => expressionContent_moved p (.call q n xs)
  | .operator q op x y => expressionContent_moved p (.operator q op x y)
  | .other q k x y => expressionContent_moved p (.other q k x y)
termination_by structural v => v

theorem valueContents_moved (p : Pos) :
    ∀ vs : List Value, valueContents (movedAll p vs) = valueContents vs
  | [] => rfl
  | v :: vs => by
    rw [movedAll, valueContents, valueContent_moved p v, valueContents_moved p vs, valueContents]
termination_by structural vs => vs

theorem fieldContents_moved (p : Pos) :
    ∀ fs : List (String × Value), fieldContents (movedFields p fs) = fieldContents fs
  | [] => rfl
  | (n, v) :: fs => by
    rw [movedFields, fieldContents, valueContent_moved p v, fieldContents_moved p fs,
      fieldContents]
termination_by structural fs => fs

end

mutual

theorem stmtContent_moved (p : Pos) : ∀ s : Stmt, stmtContent (s.moved p) = stmtContent s
  | .eval _ v => by simp only [Stmt.moved, stmtContent, valueContent_moved]
  | .declare _ n t v => by simp only [Stmt.moved, stmtContent, valueContent_moved]
  | .assign _ n v => by simp only [Stmt.moved, stmtContent, valueContent_moved]
  | .function _ n params result body => by
    simp only [Stmt.moved, stmtContent, blockContents_moved p body]
  | .branch _ test body elifs otherwise => by
    simp only [Stmt.moved, stmtContent, valueContent_moved, blockContents_moved p body,
      elifContents_moved p elifs, otherwiseContent_moved p otherwise]
  | .absent | .other _ _ => rfl
termination_by structural s => s

theorem blockContents_moved (p : Pos) :
    ∀ ss : List Stmt, blockContents (Stmt.movedBlock p ss) = blockContents ss
  | [] => rfl
  | s :: ss => by
    rw [Stmt.movedBlock, blockContents, stmtContent_moved p s, blockContents_moved p ss,
      blockContents]
termination_by structural ss => ss

theorem elifContents_moved (p : Pos) :
    ∀ es : List (Value × List Stmt), elifContents (Stmt.movedElifs p es) = elifContents es
  | [] => rfl
  | (test, body) :: es => by
    rw [Stmt.movedElifs, elifContents, valueContent_moved, blockContents_moved p body,
      elifContents_moved p es, elifContents]
termination_by structural es => es

theorem otherwiseContent_moved (p : Pos) :
    ∀ o : Option (List Stmt), otherwiseContent (Stmt.movedOtherwise p o) = otherwiseContent o
  | none => rfl
  | some body => by
    rw [Stmt.movedOtherwise, otherwiseContent, blockContents_moved p body, otherwiseContent]
termination_by structural o => o

end

/-- The positions in the body of a program leave no trace in its document. -/
theorem content_moved (p : Program) (pos : Pos) (b : Block) :
    content { p with body := Stmt.movedBlock pos b } = content { p with body := b } := by
  unfold content
  rw [blockContents_moved]

end Program

end Lowlang
