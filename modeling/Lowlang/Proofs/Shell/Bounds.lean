import Lowlang.Proofs.Shell.Completing
import Lowlang.Proofs.Text.Encoding
import Mathlib.Data.List.Induction

set_option autoImplicit false

/-!
# The bounds of a word

The prompt cuts its line at the bounds of the word at the cursor, which are numbers of bytes.  They
can be found in the bytes alone: from the cursor two scans read characters, one backward and one
forward, up to a boundary or an end of the line (`scan`).  A cursor that stands inside a character
makes them start with bytes that cannot be read, which they pass one by one.

Main statement: the scans end at the bounds of the word, which start and end with a character, and
the word is the longest run without boundaries around the cursor.
-/

namespace Lowlang.Shell

theorem utf8Size_of_isBoundary {c : Char} (h : isBoundary c) : c.utf8Size = 1 := by
  have hall : ∀ d ∈ " \t()[]\x7b\x7d+-*/%<>=!~^&|,?:;".toList, d.utf8Size = 1 := by decide
  exact hall c (List.contains_iff_mem.mp h)

namespace Word

/-! ## Scans of bytes -/

/-- The character that the bytes right before byte `e` are. -/
def lastChar? (bs : ByteArray) (e : Nat) : Option Char :=
  [1, 2, 3, 4].findSome? fun k =>
    if k ≤ e then (bs.utf8DecodeChar? (e - k)).filter fun c => c.utf8Size = k else none

/-- The byte where a backward scan from byte `e` ends. -/
def scanBack (bs : ByteArray) (e : Nat) : Nat :=
  if e = 0 then 0
  else
    match lastChar? bs e with
    | some c => if isBoundary c then e else scanBack bs (e - c.utf8Size)
    | none => scanBack bs (e - 1)
termination_by e
decreasing_by all_goals first | (have hpos := Char.utf8Size_pos ‹Char›; omega) | omega

/-- The byte where a forward scan from byte `i` ends. -/
def scanForward (bs : ByteArray) (i : Nat) : Nat :=
  if i < bs.size then
    match bs.utf8DecodeChar? i with
    | some c => if isBoundary c then i else scanForward bs (i + c.utf8Size)
    | none => scanForward bs (i + 1)
  else i
termination_by bs.size - i
decreasing_by all_goals first | (have hpos := Char.utf8Size_pos ‹Char›; omega) | omega

/-- Where the scans from a cursor end; one outside the line stands at its nearer end. -/
def scan (bs : ByteArray) (cursor : Int) : Nat × Nat :=
  let c := min cursor.toNat bs.size
  (scanBack bs c, scanForward bs c)

/-! ## What the scans read -/

theorem lastChar?_imp {s : List Char} {e : Nat} {d : Char}
    (h : lastChar? s.utf8Encode e = some d) :
    ∃ p q, s = p ++ d :: q ∧ Text.bytes p + d.utf8Size = e := by
  obtain ⟨k, _, hk⟩ := List.exists_of_findSome?_eq_some h
  rw [Option.ite_none_right_eq_some] at hk
  obtain ⟨hle, hk⟩ := hk
  obtain ⟨hread, hsize⟩ := Option.filter_eq_some_iff.mp hk
  obtain ⟨p, q, hs, hp⟩ := Text.utf8DecodeChar?_eq_some_iff.mp hread
  have hsize := of_decide_eq_true hsize
  exact ⟨p, q, hs, by omega⟩

theorem lastChar?_bytes (p q : List Char) (d : Char) :
    lastChar? (p ++ d :: q).utf8Encode (Text.bytes p + d.utf8Size) = some d := by
  have hsome : (lastChar? (p ++ d :: q).utf8Encode (Text.bytes p + d.utf8Size)).isSome := by
    refine List.findSome?_isSome_iff.mpr ⟨d.utf8Size, ?_, ?_⟩
    · have hpos := d.utf8Size_pos
      have hle := d.utf8Size_le_four
      simp only [List.mem_cons, List.not_mem_nil]
      omega
    · rw [if_pos (Nat.le_add_left _ _), Nat.add_sub_cancel, Text.utf8DecodeChar?_bytes]
      simp
  obtain ⟨c, hc⟩ := Option.isSome_iff_exists.mp hsome
  obtain ⟨r, t, hs, hbytes⟩ := lastChar?_imp hc
  have hcut : (p ++ [d]) ++ q = (r ++ [c]) ++ t := by simpa using hs
  obtain ⟨hlast, _⟩ := Text.append_inj_of_bytes hcut (by simpa using hbytes.symm)
  rw [hc, List.singleton_inj.mp (List.append_inj' hlast rfl).2]

/-- No character ends inside another one. -/
theorem lastChar?_inside {p q : List Char} {d : Char} {e : Nat} (hstart : Text.bytes p < e)
    (hend : e < Text.bytes p + d.utf8Size) : lastChar? (p ++ d :: q).utf8Encode e = none := by
  refine Option.eq_none_iff_forall_ne_some.mpr fun c hc => ?_
  obtain ⟨r, t, hs, rfl⟩ := lastChar?_imp hc
  have hcut : p ++ d :: q = (r ++ [c]) ++ t := by simpa using hs
  have hle := Text.le_bytes_of_append_eq hcut (by simpa using hstart)
  rw [Text.bytes_append, Text.bytes_cons, Text.bytes_nil] at hle
  omega

/-- From a place between two characters the backward scan passes those that are no boundaries. -/
theorem scanBack_bytes (p q : List Char) : scanBack (p ++ q).utf8Encode (Text.bytes p) =
    Text.bytes (p.reverse.dropWhile fun c => !isBoundary c).reverse := by
  induction p using List.reverseRecOn generalizing q with
  | nil => rw [scanBack]; rfl
  | append_singleton p d ih =>
    have hpos := d.utf8Size_pos
    have hbytes : Text.bytes (p ++ [d]) = Text.bytes p + d.utf8Size := by simp
    have hread := lastChar?_bytes p q d
    have ih := ih (d :: q)
    rw [scanBack, if_neg (by omega), List.append_assoc, List.singleton_append, hbytes, hread,
      List.reverse_concat]
    by_cases hd : isBoundary d
    · simp [hd]
    · simpa [hd] using ih

/-- From a place inside a character the backward scan comes to its start. -/
theorem scanBack_inside (p q : List Char) (d : Char) {e : Nat} (hstart : Text.bytes p ≤ e)
    (hend : e < Text.bytes p + d.utf8Size) :
    scanBack (p ++ d :: q).utf8Encode e = scanBack (p ++ d :: q).utf8Encode (Text.bytes p) := by
  induction e, hstart using Nat.le_induction with
  | base => rfl
  | succ e hstart ih =>
    rw [scanBack, if_neg (Nat.succ_ne_zero e), lastChar?_inside (Nat.lt_succ_of_le hstart) hend]
    exact ih (Nat.lt_of_succ_lt hend)

/-- From a place between two characters the forward scan passes those that are no boundaries. -/
theorem scanForward_bytes (p q : List Char) : scanForward (p ++ q).utf8Encode (Text.bytes p) =
    Text.bytes p + Text.bytes (q.takeWhile fun c => !isBoundary c) := by
  induction q generalizing p with
  | nil => rw [scanForward, Text.size_utf8Encode]; simp
  | cons d q ih =>
    have hpos := d.utf8Size_pos
    have hlt : Text.bytes p < (p ++ d :: q).utf8Encode.size := by
      rw [Text.size_utf8Encode, Text.bytes_append, Text.bytes_cons]
      omega
    have ih := ih (p ++ [d])
    rw [scanForward, if_pos hlt, Text.utf8DecodeChar?_bytes, List.takeWhile_cons]
    by_cases hd : isBoundary d
    · simp [hd]
    · simpa [hd, Nat.add_assoc] using ih

/-- From a place inside a character the forward scan comes to its end. -/
theorem scanForward_inside (p q : List Char) (d : Char) {i : Nat} (hstart : Text.bytes p < i)
    (hend : i ≤ Text.bytes p + d.utf8Size) : scanForward (p ++ d :: q).utf8Encode i =
      scanForward (p ++ d :: q).utf8Encode (Text.bytes p + d.utf8Size) := by
  obtain ⟨k, hk⟩ := Nat.exists_eq_add_of_le hend
  induction k generalizing i with
  | zero => rw [hk, Nat.add_zero]
  | succ k ih =>
    have hlt : i < (p ++ d :: q).utf8Encode.size := by
      rw [Text.size_utf8Encode, Text.bytes_append, Text.bytes_cons]
      omega
    rw [scanForward, if_pos hlt, Text.utf8DecodeChar?_inside hstart (by omega)]
    exact ih (by omega) (by omega) (by omega)

/-! ## Main statement -/

/-- Around byte `c` of a line stands a word of whole characters, and none longer: it has no
boundaries, and there are some, or an end of the line, on both its sides. -/
structure Bounded (w : Word) (line : List Char) (c : Nat) : Prop where
  parts : w.before ++ w.text ++ w.after = line
  start_le : w.start ≤ c
  le_stop : c ≤ w.stop
  start_isValid : (String.Pos.Raw.mk w.start).IsValid (String.ofList line)
  stop_isValid : (String.Pos.Raw.mk w.stop).IsValid (String.ofList line)
  slice : line.utf8Encode.extract w.start w.stop = w.text.utf8Encode
  inner : ∀ c ∈ w.text, isBoundary c = false
  left : ∀ c ∈ w.before.getLast?, isBoundary c
  right : ∀ c ∈ w.after.head?, isBoundary c

theorem isValid_bytes (p q : List Char) :
    (String.Pos.Raw.mk (Text.bytes p)).IsValid (String.ofList (p ++ q)) := by
  rw [String.ofList_append, ← Text.utf8ByteSize_ofList]
  exact String.Pos.Raw.isValid_iff_exists_append.mpr ⟨_, _, rfl, rfl⟩

theorem stop_eq (w : Word) : w.stop = Text.bytes (w.before ++ w.text) := by
  rw [stop, start, Text.bytes_append]

/-- A run without boundaries is bounded by its bytes. -/
theorem Touched.bounded {w : Word} {line : List Char} {pos c : Nat} (h : w.Touched line pos)
    (hstart : w.start ≤ c) (hstop : c ≤ w.stop) : w.Bounded line c := by
  have hparts := h.parts
  refine ⟨hparts, hstart, hstop, ?_, ?_, ?_, h.inner, h.left, h.right⟩
  · rw [← hparts, List.append_assoc]
    exact isValid_bytes _ _
  · rw [← hparts, stop_eq]
    exact isValid_bytes _ _
  · rw [← hparts]
    exact Text.extract_utf8Encode _ _ _

/-- There is one word around a byte. -/
theorem Bounded.eq {w v : Word} {line : List Char} {c : Nat} (hw : w.Bounded line c)
    (hv : v.Bounded line c) : w = v := by
  wlog hle : w.start ≤ v.start generalizing w v
  · exact (this hv hw (Nat.le_of_not_le hle)).symm
  -- Both words touch the place where the later one starts.
  have hbefore : v.before <+: line := ⟨v.text ++ v.after, by rw [← List.append_assoc, hv.parts]⟩
  have hstarts : w.before.length ≤ v.before.length := by
    refine Text.length_le_of_bytes_le ⟨w.text ++ w.after, ?_⟩ hbefore hle
    rw [← List.append_assoc, hw.parts]
  have hends : v.before.length ≤ (w.before ++ w.text).length := by
    refine Text.length_le_of_bytes_le hbefore ⟨w.after, hw.parts⟩ ?_
    rw [← stop_eq]
    exact hv.start_le.trans hw.le_stop
  rw [List.length_append] at hends
  have hwords : w.Touched line v.before.length ∧ v.Touched line v.before.length :=
    ⟨⟨hw.parts, hw.inner, hw.left, hw.right, hstarts, hends⟩,
      ⟨hv.parts, hv.inner, hv.left, hv.right, Nat.le_refl _, Nat.le_add_right _ _⟩⟩
  rw [(touched_iff hbefore.length_le).mp hwords.1]
  exact ((touched_iff hbefore.length_le).mp hwords.2).symm

/-- The word around a place between two characters takes the bytes before it apart. -/
theorem bytes_between (p : List Char) :
    Text.bytes (p.reverse.dropWhile fun c => !isBoundary c).reverse +
      Text.bytes (p.reverse.takeWhile fun c => !isBoundary c).reverse = Text.bytes p := by
  rw [← Text.bytes_append, ← List.reverse_append, List.takeWhile_append_dropWhile,
    List.reverse_reverse]

theorem start_between_le (p q : List Char) : (between p q).start ≤ Text.bytes p :=
  (Nat.le_add_right _ _).trans_eq (bytes_between p)

theorem stop_between (p q : List Char) : (between p q).stop =
    Text.bytes p + Text.bytes (q.takeWhile fun c => !isBoundary c) := by
  rw [← bytes_between p, stop, start, between, Text.bytes_append, Nat.add_assoc]

/-- Where the bytes from `c` to the end of `p` are a part of a character at most, the word around
the end of `p` is that around byte `c`. -/
theorem bounded_between {p q : List Char} {c : Nat} (hreaches : c ≤ Text.bytes p)
    (hneeded : ∀ r d, p = r ++ [d] → Text.bytes r < c) : (between p q).Bounded (p ++ q) c ∧
      scanBack (p ++ q).utf8Encode c = (between p q).start ∧
      scanForward (p ++ q).utf8Encode c = (between p q).stop := by
  have hstop : Text.bytes p ≤ (between p q).stop := by
    rw [stop_between]
    exact Nat.le_add_right _ _
  have htouched := touched_between p q
  rcases Nat.eq_or_lt_of_le hreaches with rfl | hlt
  · refine ⟨htouched.bounded (start_between_le p q) hstop, scanBack_bytes p q, ?_⟩
    rw [scanForward_bytes, stop_between]
  · -- The cursor stands inside the last character of `p`, which is then no boundary.
    obtain ⟨r, d, rfl⟩ : ∃ r d, p = r ++ [d] := by
      rcases List.eq_nil_or_concat p with rfl | hp
      · simp at hlt
      · simpa using hp
    have hstart := hneeded r d rfl
    rw [Text.bytes_append, Text.bytes_cons, Text.bytes_nil, Nat.add_zero] at hlt
    have hd : ¬ isBoundary d := fun hd => by
      rw [utf8Size_of_isBoundary hd] at hlt
      omega
    have hsame : (between (r ++ [d]) q).start = (between r (d :: q)).start := by
      simp [start, between, hd]
    have hle := start_between_le r (d :: q)
    refine ⟨htouched.bounded (by omega) (by omega), ?_, ?_⟩
    · rw [hsame, List.append_assoc, List.singleton_append, scanBack_inside r q d hstart.le hlt]
      exact scanBack_bytes r (d :: q)
    · have hforward := scanForward_bytes (r ++ [d]) q
      rw [stop_between, ← hforward, List.append_assoc, List.singleton_append,
        scanForward_inside r q d hstart hlt.le]
      simp

/-- The prompt finds the one word around its cursor, and the scans find its bounds. -/
theorem around_bounded (line : List Char) (cursor : Int) :
    (around line cursor).Bounded line (min cursor.toNat (Text.bytes line)) ∧
    (∀ w : Word, w.Bounded line (min cursor.toNat (Text.bytes line)) → w = around line cursor) ∧
    scan line.utf8Encode cursor = ((around line cursor).start, (around line cursor).stop) := by
  have hbefore := Text.startsBefore_splitAtByte cursor.toNat line
  obtain ⟨hbounded, hback, hforward⟩ := bounded_between
    (q := (Text.splitAtByte cursor.toNat line).2) hbefore.reaches hbefore.needed
  rw [Text.splitAtByte_append] at hbounded hback hforward
  refine ⟨hbounded, fun w hw => hw.eq hbounded, ?_⟩
  rw [scan, Text.size_utf8Encode, hback, hforward]
  rfl

/-- A cursor inside a character of two bytes. -/
example : around "x+größe.y z".toList 5 = ⟨"x+".toList, "größe.y".toList, " z".toList⟩ := by
  decide

end Word

end Lowlang.Shell
