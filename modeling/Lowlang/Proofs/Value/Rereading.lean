import Lowlang.Proofs.Value.Misreading

set_option autoImplicit false

/-!
# Accepted expressions written back

Every value that is read from a text has a text again.  That text is read as the value exactly
when the names are plain, the characters exist and the tree is not too large.  So it is not for
every accepted text: a member may be given by any string and a character by any number, and a
word for a value may be called behind a bar.
-/

namespace Lowlang.Value

/-- Characters that do not exist do not come back: others are written in their place. -/
theorem Rendering.scalar {v w : Value} {t : String} {ts : List Expr.Token} {n : Expr.Node}
    (h : Rendering (mended v) t ts n) (hw : parse t = .ok w) (hsame : w.same v) :
    ∀ c ∈ charsIn v, Text.IsScalar c := by
  rw [h.parse_eq] at hw
  split at hw
  · obtain ⟨u, hu, hmended⟩ := h.means ⟨t, .none⟩
    rw [hu] at hw
    cases hw
    rw [← (leaves_of_same v hsame).2, (leaves_of_same _ hmended).2]
    exact isScalar_mended v
  · cases hw

/-- A formed value is read back from its text exactly when its names are plain, its characters
exist and it has no more nodes than a tree may have. -/
theorem Formed.reads_back_iff {v : Value} (h : Formed v) {t : String} (ht : source v = .ok t) :
    (∃ w, parse t = .ok w ∧ w.same v) ↔ (∀ n ∈ namesIn v, IsPlain n) ∧
      (∀ c ∈ charsIn v, Text.IsScalar c) ∧ nodeCount v ≤ Expr.Grammar.maxNodes := by
  constructor
  · rintro ⟨w, hw, hsame⟩
    have hnames : ∀ n ∈ namesIn v, IsPlain n := by
      by_contra hnames
      exact (misread_of_source v ht h hnames).not_same hw hsame
    obtain ⟨ts, n, hrendering⟩ := h.rendering hnames ht
    have hchars := hrendering.scalar hw hsame
    rw [mended_of_scalar hchars] at hrendering
    exact ⟨hnames, hchars, hrendering.reads_back.mp ⟨w, hw, hsame⟩⟩
  · rintro ⟨hnames, hchars, hsize⟩
    obtain ⟨ts, n, hrendering⟩ := h.rendering hnames ht
    rw [mended_of_scalar hchars] at hrendering
    exact hrendering.reads_back.mpr hsize

/-- Every value that is read has a text, and the text is read as the value exactly when the value
can be told from it. -/
theorem accepted_reads_back {src : String} {v : Value} (h : parse src = .ok v) :
    ∃ t, source v = .ok t ∧ ((∃ w, parse t = .ok w ∧ w.same v) ↔
      (∀ n ∈ namesIn v, IsPlain n) ∧ (∀ c ∈ charsIn v, Text.IsScalar c) ∧
        nodeCount v ≤ Expr.Grammar.maxNodes) := by
  have hformed := formed_of_parse h
  obtain ⟨t, ht⟩ := (source_writtenIff v).mpr hformed.writable
  exact ⟨t, ht, hformed.reads_back_iff ht⟩

theorem parse_member_key : parse "a[\"b c\"]" = .ok (.name .none "a.b c") := by
  have hscan : Expr.Token.scan "a[\"b c\"]".toList
      = some [.word "a", .bracket '[', .string "b c", .bracket ']'] := by decide
  have htree : Expr.Grammar.ofTokens? [.word "a", .bracket '[', .string "b c", .bracket ']']
      = some (.member (.ident "a") (.string "b c") false) := rfl
  rw [parse, parseAt, if_neg (by decide), Expr.Grammar.parse?, hscan, Option.bind_some, htree]
  rfl

theorem accepted_reads_back_member_key : parse "a[\"b c\"]" = .ok (.name .none "a.b c") ∧
    ∃ t, source (.name .none "a.b c") = .ok t ∧
      ¬ ∃ w, parse t = .ok w ∧ w.same (.name .none "a.b c") := by
  obtain ⟨t, ht, hiff⟩ := accepted_reads_back parse_member_key
  refine ⟨parse_member_key, t, ht, ?_⟩
  intro hback
  have hplain := (hiff.mp hback).1 "a.b c" List.mem_cons_self
  have hpart : Expr.Token.isIdentifier "b c".toList := hplain.more "b c".toList (by decide)
  exact absurd hpart (by decide)

end Lowlang.Value
