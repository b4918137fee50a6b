import Lowlang.Yaml.Node

set_option autoImplicit false

/-!
# Parts of nodes

The entries of a mapping and the items of a sequence, behind the tags and anchors of the node.  All
parts are smaller than the node, which is why a walk may take as many steps as the node has parts.
-/

namespace Lowlang.Yaml.Node

/-- The entries of a mapping behind tags and anchors; other nodes have none. -/
def entries (n : Node) : List (Node × Node) :=
  match n.bare with
  | .mapping _ es => es
  | _ => []

/-- The items of a sequence behind tags and anchors; other nodes have none. -/
def items (n : Node) : List Node :=
  match n.bare with
  | .sequence _ is => is
  | _ => []

/-- The first node is the second, or stands in it as a value or an item at some depth. -/
inductive Inside : Node → Node → Prop
  | self (n : Node) : Inside n n
  | value {m n k v : Node} (h : (k, v) ∈ n.entries) (hm : Inside m v) : Inside m n
  | item {m n i : Node} (h : i ∈ n.items) (hm : Inside m i) : Inside m n

theorem bare_bare : ∀ n : Node, n.bare.bare = n.bare
  | .tagged _ _ v | .anchored _ _ v => bare_bare v
  | .scalar _ _ _ | .alias _ _ | .mergeKey _ | .asked _ _ _ | .mapping _ _ | .sequence _ _
  | .directive _ => rfl

theorem isNull_bare (n : Node) : n.bare.isNull = n.isNull := by
  rw [isNull, isNull, bare_bare]

theorem size_bare (n : Node) : n.bare.size ≤ n.size := by
  fun_induction bare n with
  | case1 p t v ih | case2 p t v ih =>
    have hsize : v.size ≤ 1 + v.size := Nat.le_add_left _ _
    exact Nat.le_trans ih hsize
  | case3 n => exact Nat.le_refl _

theorem size_pos (n : Node) : 0 < n.size := by
  cases n <;> simp only [size] <;> omega

theorem entries_of_mapping {n : Node} {p : Place} {es : List (Node × Node)}
    (h : n.bare = .mapping p es) : n.entries = es := by
  simp only [entries, h]

theorem entries_of_not_mapping {n : Node} (h : ∀ p es, n.bare ≠ .mapping p es) :
    n.entries = [] := by
  unfold entries
  split
  · next hbare => exact absurd hbare (h _ _)
  · rfl

theorem items_of_sequence {n : Node} {p : Place} {is : List Node}
    (h : n.bare = .sequence p is) : n.items = is := by
  simp only [items, h]

theorem items_of_not_sequence {n : Node} (h : ∀ p is, n.bare ≠ .sequence p is) :
    n.items = [] := by
  unfold items
  split
  · next hbare => exact absurd hbare (h _ _)
  · rfl

theorem sizeEntries_entries (n : Node) : size.sizeEntries n.entries < n.size := by
  have hbare := n.size_bare
  unfold entries
  split
  · next p es h =>
    rw [h, size] at hbare
    omega
  · exact n.size_pos

theorem sizeItems_items (n : Node) : size.sizeItems n.items < n.size := by
  have hbare := n.size_bare
  unfold items
  split
  · next p is h =>
    rw [h, size] at hbare
    omega
  · exact n.size_pos

theorem size_le_sizeEntries {es : List (Node × Node)} {k v : Node} (h : (k, v) ∈ es) :
    v.size ≤ size.sizeEntries es := by
  induction es with
  | nil => cases h
  | cons e es ih =>
    obtain ⟨l, w⟩ := e
    rw [size.sizeEntries]
    rcases List.mem_cons.mp h with heq | h
    · cases heq
      omega
    · have hle := ih h
      omega

theorem size_le_sizeItems {is : List Node} {i : Node} (h : i ∈ is) :
    i.size ≤ size.sizeItems is := by
  induction is with
  | nil => cases h
  | cons j is ih =>
    rw [size.sizeItems]
    rcases List.mem_cons.mp h with rfl | h
    · omega
    · have hle := ih h
      omega

theorem size_value {n k v : Node} (h : (k, v) ∈ n.entries) : v.size < n.size :=
  Nat.lt_of_le_of_lt (size_le_sizeEntries h) n.sizeEntries_entries

theorem size_item {n i : Node} (h : i ∈ n.items) : i.size < n.size :=
  Nat.lt_of_le_of_lt (size_le_sizeItems h) n.sizeItems_items

end Lowlang.Yaml.Node
