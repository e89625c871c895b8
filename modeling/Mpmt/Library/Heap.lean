import Mathlib.Order.Interval.Finset.Nat
import Mathlib.Data.Finset.Lattice.Fold
import Mathlib.Tactic

/-!
# Heap-indexed complete binary trees

A complete binary tree of `leaves` leaves numbers its nodes from one: node `n`
has the children `2n` and `2n + 1`, the nodes `1, …, leaves - 1` are internal
and `leaves, …, 2 leaves - 1` are the leaves.
-/

namespace Heap

/-- `node` is `root` or lies below it. -/
def Below (root node : Nat) : Prop := ∃ height, node / 2 ^ height = root

theorem Below.refl (node : Nat) : Below node node := ⟨0, by simp⟩

theorem Below.of_child
    (below : Below root child)
    (parent : node / 2 = child) : Below root node := by
  obtain ⟨height, eq⟩ := below
  refine ⟨height + 1, ?_⟩
  rw [pow_succ', ← Nat.div_div_eq_div_mul, parent, eq]

/-- What lies below a node is the node or lies below one of its children. -/
theorem below_iff (root node : Nat) :
    Below root node ↔
      node = root ∨ Below (2 * root) node ∨ Below (2 * root + 1) node := by
  constructor
  · rintro ⟨height, eq⟩
    cases height with
    | zero => exact .inl (by simpa using eq)
    | succ height =>
        rw [pow_succ, ← Nat.div_div_eq_div_mul] at eq
        rcases Nat.even_or_odd' (node / 2 ^ height) with ⟨half, h | h⟩
        · exact .inr (.inl ⟨height, by omega⟩)
        · exact .inr (.inr ⟨height, by omega⟩)
  · rintro (rfl | ⟨height, eq⟩ | ⟨height, eq⟩)
    · exact .refl node
    all_goals
      refine ⟨height + 1, ?_⟩
      rw [pow_succ, ← Nat.div_div_eq_div_mul, eq]
      omega

theorem Below.left (below : Below (2 * root) node) : Below root node :=
  (below_iff root node).mpr (.inr (.inl below))

theorem Below.right (below : Below (2 * root + 1) node) : Below root node :=
  (below_iff root node).mpr (.inr (.inr below))

theorem Below.le (below : Below root node) : root ≤ node := by
  obtain ⟨height, rfl⟩ := below
  exact Nat.div_le_self node _

/-- The parent of what lies strictly below a node lies below it too. -/
theorem Below.parent
    (below : Below root node)
    (different : node ≠ root) : Below root (node / 2) := by
  obtain ⟨height, eq⟩ := below
  cases height with
  | zero => exact absurd (by simpa using eq) different
  | succ height =>
      refine ⟨height, ?_⟩
      rwa [Nat.div_div_eq_div_mul, ← pow_succ']

/-- Every node lies below node one. -/
theorem below_one (positive : 1 ≤ node) : Below 1 node := by
  induction node using Nat.strongRecOn with
  | ind node ih =>
      rcases Nat.lt_or_ge 1 node with many | one
      · exact (ih (node / 2) (by omega) (by omega)).of_child rfl
      · rw [show node = 1 by omega]
        exact .refl 1

/-! ## Proper ancestors -/

/-- The proper ancestors of a node, the nearest first. -/
def ancestors (node : Nat) : List Nat :=
  if node / 2 = 0 then [] else node / 2 :: ancestors (node / 2)
termination_by node
decreasing_by omega

theorem mem_ancestors (positive : 1 ≤ root) :
    root ∈ ancestors node ↔ Below root node ∧ node ≠ root := by
  induction node using Nat.strongRecOn with
  | ind node ih =>
      unfold ancestors
      by_cases top : node / 2 = 0
      · rw [if_pos top]
        simp only [List.not_mem_nil, false_iff, not_and, not_not]
        intro below
        have := below.le
        omega
      · rw [if_neg top, List.mem_cons, ih (node / 2) (by omega)]
        constructor
        · rintro (rfl | ⟨below, _⟩)
          · exact ⟨(Below.refl _).of_child rfl, by omega⟩
          · have := below.le
            exact ⟨below.of_child rfl, by omega⟩
        · rintro ⟨below, different⟩
          by_cases same : root = node / 2
          · exact .inl same
          · exact .inr ⟨below.parent different, fun h => same h.symm⟩

theorem pos_of_mem_ancestors (member : root ∈ ancestors node) : 1 ≤ root := by
  induction node using Nat.strongRecOn with
  | ind node ih =>
      unfold ancestors at member
      split at member
      · simp at member
      · next top =>
          rw [List.mem_cons] at member
          rcases member with rfl | member
          · omega
          · exact ih (node / 2) (by omega) member

/-! ## Labels that join the labels of the children -/

/-- The leaves of a tree. -/
def leafIds (leaves : Nat) : Finset Nat := Finset.Ico leaves (2 * leaves)

/-- When every internal node is labelled with the join of its children's
labels, a label is the join of the leaf labels below the node. -/
theorem isLUB_label
    [SemilatticeSup α]
    (label : Nat -> α)
    (leaves : Nat)
    (joins : ∀ node, 1 ≤ node -> node < leaves ->
      label node = label (2 * node) ⊔ label (2 * node + 1))
    (node : Nat)
    (inside : 1 ≤ node ∧ node < 2 * leaves) :
    IsLUB {value | ∃ leaf ∈ leafIds leaves, Below node leaf ∧ label leaf = value}
      (label node) := by
  obtain ⟨positive, inside⟩ := inside
  obtain ⟨distance, eq⟩ : ∃ distance, distance = 2 * leaves - node := ⟨_, rfl⟩
  induction distance using Nat.strongRecOn generalizing node with
  | ind distance ih =>
      rcases Nat.lt_or_ge node leaves with internal | leaf
      · have left := ih _ (by omega) (2 * node) (by omega) (by omega) rfl
        have right := ih _ (by omega) (2 * node + 1) (by omega) (by omega) rfl
        rw [joins node positive internal]
        have split : {value | ∃ leaf ∈ leafIds leaves,
              Below node leaf ∧ label leaf = value} =
            {value | ∃ leaf ∈ leafIds leaves,
              Below (2 * node) leaf ∧ label leaf = value} ∪
            {value | ∃ leaf ∈ leafIds leaves,
              Below (2 * node + 1) leaf ∧ label leaf = value} := by
          ext value
          constructor
          · rintro ⟨leaf, member, below, rfl⟩
            rcases (below_iff node leaf).mp below with rfl | below | below
            · rw [leafIds, Finset.mem_Ico] at member
              omega
            · exact .inl ⟨leaf, member, below, rfl⟩
            · exact .inr ⟨leaf, member, below, rfl⟩
          · rintro (⟨leaf, member, below, rfl⟩ | ⟨leaf, member, below, rfl⟩)
            · exact ⟨leaf, member, below.left, rfl⟩
            · exact ⟨leaf, member, below.right, rfl⟩
        rw [split]
        exact left.union right
      · constructor
        · rintro value ⟨other, member, below, rfl⟩
          obtain rfl : other = node := by
            rw [leafIds, Finset.mem_Ico] at member
            rcases (below_iff node other).mp below with same | below | below
            · exact same
            · have := below.le
              omega
            · have := below.le
              omega
          exact le_refl _
        · intro bound upper
          exact upper ⟨node, by rw [leafIds, Finset.mem_Ico]; omega,
            .refl node, rfl⟩

end Heap
