import Mathlib.Data.Finset.Card
import Mathlib.Data.List.Pairwise
import Mathlib.Data.List.Nodup
import Mathlib.Order.Interval.Finset.Nat

/-!
# Ranks along a list

A list along which a rank increases is ordered by that rank.  Where several
ranks increase along it, as the index of an element does, they order its
elements in the same way.
-/

namespace Ranks

variable {A : Type} {items order : List A} {rank rank' : A -> Nat} {a b : A}

/-- `rank` increases along the list. -/
def Increases (items : List A) (rank : A -> Nat) : Prop :=
  items.Pairwise fun a b => rank a < rank b

theorem Increases.nodup (increases : Increases items rank) : items.Nodup :=
  increases.imp fun {a b} less (same : a = b) => Nat.lt_irrefl _ (same ▸ less)

theorem Increases.sublist
    (increases : Increases order rank)
    (sublist : items.Sublist order) : Increases items rank :=
  List.Pairwise.sublist sublist increases

theorem Increases.congr
    (increases : Increases items rank)
    (same : ∀ a ∈ items, rank' a = rank a) : Increases items rank' :=
  List.Pairwise.imp_of_mem
    (fun {a b} member member' less => by rwa [same a member, same b member']) increases

/-- An element of greater rank goes to the end. -/
theorem Increases.snoc
    (increases : Increases items rank)
    (last : ∀ b ∈ items, rank b < rank a) : Increases (items ++ [a]) rank := by
  refine List.pairwise_append.mpr ⟨increases, List.pairwise_singleton _ _, ?_⟩
  intro b member a' same
  rw [List.mem_singleton.mp same]
  exact last b member

/-- Ranks given out one after another. -/
theorem increases_of_getElem
    {start : Nat}
    (given : ∀ i (inside : i < items.length), rank items[i] = i + start) :
    Increases items rank := by
  refine List.pairwise_iff_getElem.mpr fun i j inside inside' less => ?_
  rw [given i inside, given j inside']
  exact Nat.add_lt_add_right less start

/-- Among the elements of the list the rank tells the order of the indices. -/
theorem Increases.lt_iff
    (increases : Increases items rank)
    {i j : Nat}
    (inside : i < items.length)
    (inside' : j < items.length) : rank items[i] < rank items[j] ↔ i < j := by
  have forward : ∀ i j (inside : i < items.length) (inside' : j < items.length), i < j ->
      rank items[i] < rank items[j] := List.pairwise_iff_getElem.mp increases
  constructor
  · intro less
    by_contra back
    rcases Nat.lt_or_eq_of_le (Nat.le_of_not_lt back) with before | same
    · exact Nat.lt_asymm less (forward j i inside' inside before)
    · subst same
      exact Nat.lt_irrefl _ less
  · exact forward i j inside inside'

theorem Increases.injective
    (increases : Increases items rank)
    (member : a ∈ items)
    (member' : b ∈ items)
    (same : rank a = rank b) : a = b := by
  obtain ⟨i, inside, rfl⟩ := List.getElem_of_mem member
  obtain ⟨j, inside', rfl⟩ := List.getElem_of_mem member'
  have first := increases.lt_iff inside inside'
  have second := increases.lt_iff inside' inside
  have equal : i = j := by omega
  subst equal
  rfl

/-- Two ranks that increase along one list order its elements alike. -/
theorem Increases.agree
    (increases : Increases items rank)
    (increases' : Increases items rank')
    (member : a ∈ items)
    (member' : b ∈ items) : rank a < rank b ↔ rank' a < rank' b := by
  obtain ⟨i, inside, rfl⟩ := List.getElem_of_mem member
  obtain ⟨j, inside', rfl⟩ := List.getElem_of_mem member'
  rw [increases.lt_iff inside inside', increases'.lt_iff inside inside']

/-- The index increases along a list without repetitions. -/
theorem increases_idxOf
    [DecidableEq A]
    (nodup : items.Nodup) : Increases items fun a => items.idxOf a := by
  refine List.pairwise_iff_getElem.mpr fun i j inside inside' less => ?_
  simpa only [nodup.idxOf_getElem i inside, nodup.idxOf_getElem j inside'] using less

/-- As many elements are of smaller rank as stand before an element. -/
theorem Increases.count_lt
    [DecidableEq A]
    (increases : Increases items rank)
    (member : a ∈ items) : (items.filter fun b => rank b < rank a).length = items.idxOf a := by
  induction items with
  | nil => cases member
  | cons b rest inductionHypothesis =>
      obtain ⟨behind, increases'⟩ := List.pairwise_cons.mp increases
      rcases List.mem_cons.mp member with same | later
      · subst same
        have none : ∀ c ∈ a :: rest, ¬ decide (rank c < rank a) = true := by
          intro c inside less
          rw [decide_eq_true_eq] at less
          rcases List.mem_cons.mp inside with rfl | tail
          · exact Nat.lt_irrefl _ less
          · exact Nat.lt_asymm less (behind c tail)
        rw [List.filter_eq_nil_iff.mpr none, List.idxOf_cons_self]
        rfl
      · have less := behind a later
        have different : b ≠ a := fun same => Nat.ne_of_lt less (congrArg rank same)
        rw [List.filter_cons, if_pos (decide_eq_true less), List.length_cons,
          List.idxOf_cons_ne rest different, inductionHypothesis increases' later]

/-- The last element is the one of the greatest index. -/
theorem getLast?_eq_some_iff
    [DecidableEq A]
    (nodup : items.Nodup)
    (member : a ∈ items) : items.getLast? = some a ↔ items.idxOf a + 1 = items.length := by
  obtain ⟨index, inside, rfl⟩ := List.getElem_of_mem member
  rw [nodup.idxOf_getElem index inside, List.getLast?_eq_getElem?, List.getElem?_eq_some_iff]
  constructor
  · rintro ⟨last, same⟩
    have equal := nodup.getElem_inj_iff.mp same
    omega
  · intro last
    refine ⟨by omega, ?_⟩
    congr 1
    omega

/-! ## Cutting a line -/

/-- Up to a rank, and from there on. -/
theorem Increases.split
    (increases : Increases items rank)
    (cut : Nat) :
    items.filter (fun a => rank a < cut) ++ items.filter (fun a => cut ≤ rank a) = items := by
  induction items with
  | nil => rfl
  | cons a rest inductionHypothesis =>
      obtain ⟨behind, increases'⟩ := List.pairwise_cons.mp increases
      by_cases below : rank a < cut
      · rw [List.filter_cons, if_pos (decide_eq_true below), List.filter_cons,
          if_neg (by simpa using below), List.cons_append,
          inductionHypothesis increases']
      · have all : ∀ b ∈ a :: rest, cut ≤ rank b := by
          intro b member
          rcases List.mem_cons.mp member with rfl | later
          · exact Nat.le_of_not_lt below
          · exact Nat.le_trans (Nat.le_of_not_lt below) (Nat.le_of_lt (behind b later))
        rw [List.filter_eq_nil_iff.mpr fun b member => by simpa using all b member,
          List.filter_eq_self.mpr fun b member => decide_eq_true (all b member),
          List.nil_append]

/-- Of the positive ranks up to `q` there are `q` only if none is missing. -/
theorem Increases.count_eq_iff
    (increases : Increases items rank)
    (positive : ∀ a ∈ items, 1 ≤ rank a)
    (q : Nat) :
    (items.filter fun a => rank a ≤ q).length = q ↔
      ∀ n, 1 ≤ n -> n ≤ q -> ∃ a ∈ items, rank a = n := by
  have ranks : ((items.filter fun a => rank a ≤ q).map rank).Nodup := by
    rw [List.nodup_iff_pairwise_ne, List.pairwise_map]
    exact (increases.sublist List.filter_sublist).imp Nat.ne_of_lt
  have inside : ((items.filter fun a => rank a ≤ q).map rank).toFinset ⊆ Finset.Icc 1 q := by
    intro n member
    rw [List.mem_toFinset, List.mem_map] at member
    obtain ⟨a, found, rfl⟩ := member
    rw [List.mem_filter, decide_eq_true_eq] at found
    exact Finset.mem_Icc.mpr ⟨positive a found.1, found.2⟩
  have card : ((items.filter fun a => rank a ≤ q).map rank).toFinset.card =
      (items.filter fun a => rank a ≤ q).length := by
    rw [List.toFinset_card_of_nodup ranks, List.length_map]
  constructor
  · intro full n low high
    have all := Finset.eq_of_subset_of_card_le inside (by simp [card, full])
    have member : n ∈ Finset.Icc 1 q := Finset.mem_Icc.mpr ⟨low, high⟩
    rw [← all, List.mem_toFinset, List.mem_map] at member
    obtain ⟨a, found, same⟩ := member
    exact ⟨a, (List.mem_filter.mp found).1, same⟩
  · intro taken
    have all : Finset.Icc 1 q ⊆ ((items.filter fun a => rank a ≤ q).map rank).toFinset := by
      intro n member
      obtain ⟨low, high⟩ := Finset.mem_Icc.mp member
      obtain ⟨a, found, rfl⟩ := taken n low high
      rw [List.mem_toFinset]
      exact List.mem_map_of_mem (List.mem_filter.mpr ⟨found, decide_eq_true high⟩)
    rw [← card, inside.antisymm all, Nat.card_Icc, Nat.add_sub_cancel]

/-! ## Moving one rank -/

/-- Where a rank goes when `old` moves to `new` and those in between move
towards `old`. -/
def shifted (old new n : Nat) : Nat :=
  if n = old then new
  else if old < n ∧ n ≤ new then n - 1
  else if new ≤ n ∧ n < old then n + 1
  else n

/-- The ranks below are those that come to lie before `new`. -/
def cut (old new : Nat) : Nat := if old < new then new + 1 else new

theorem shifted_self (old new : Nat) : shifted old new old = new := if_pos rfl

theorem shifted_lt_iff
    {old new m n : Nat}
    (other : m ≠ old)
    (other' : n ≠ old) : shifted old new m < shifted old new n ↔ m < n := by
  rw [shifted, shifted, if_neg other, if_neg other']
  repeat' split
  all_goals omega

theorem shifted_lt_new_iff
    {old new n : Nat}
    (other : n ≠ old) : shifted old new n < new ↔ n < cut old new := by
  rw [shifted, cut, if_neg other]
  repeat' split
  all_goals omega

theorem new_lt_shifted_iff
    {old new n : Nat}
    (other : n ≠ old) : new < shifted old new n ↔ cut old new ≤ n := by
  rw [shifted, cut, if_neg other]
  repeat' split
  all_goals omega

section

variable [DecidableEq A] {new : Nat}

/-- The line when `a` moves to the rank `new`. -/
def moved (items : List A) (rank : A -> Nat) (a : A) (new : Nat) : List A :=
  (items.erase a).filter (fun b => rank b < cut (rank a) new) ++
    a :: (items.erase a).filter (fun b => cut (rank a) new ≤ rank b)

theorem Increases.ne_of_mem_erase
    (increases : Increases items rank)
    (member : a ∈ items)
    (other : b ∈ items.erase a) : rank b ≠ rank a := by
  intro same
  have equal := increases.injective (List.mem_of_mem_erase other) member same
  exact increases.nodup.not_mem_erase (equal ▸ other)

theorem mem_moved (member : a ∈ items) : b ∈ moved items rank a new ↔ b ∈ items := by
  have both := (List.perm_cons_erase member).mem_iff (a := b)
  rw [both, moved, List.mem_append, List.mem_cons, List.mem_cons, List.mem_filter,
    List.mem_filter, decide_eq_true_eq, decide_eq_true_eq]
  constructor
  · rintro (⟨other, _⟩ | same | ⟨other, _⟩)
    · exact .inr other
    · exact .inl same
    · exact .inr other
  · rintro (same | other)
    · exact .inr (.inl same)
    · rcases Nat.lt_or_ge (rank b) (cut (rank a) new) with before | behind
      · exact .inl ⟨other, before⟩
      · exact .inr (.inr ⟨other, behind⟩)

/-- The others stay in their order. -/
theorem Increases.erase_moved
    (increases : Increases items rank) : (moved items rank a new).erase a = items.erase a := by
  have outside : a ∉ (items.erase a).filter fun b => rank b < cut (rank a) new :=
    fun inside => increases.nodup.not_mem_erase (List.mem_filter.mp inside).1
  rw [moved, List.erase_append_right _ outside, List.erase_cons_head]
  exact (increases.sublist List.erase_sublist).split _

/-- The ranks that result increase along the new line. -/
theorem Increases.moved
    (increases : Increases items rank)
    (member : a ∈ items) :
    Increases (moved items rank a new) fun b => shifted (rank a) new (rank b) := by
  have others : Increases (items.erase a) fun b => shifted (rank a) new (rank b) :=
    List.Pairwise.imp_of_mem (fun {b c} first second less =>
      (shifted_lt_iff (increases.ne_of_mem_erase member first)
        (increases.ne_of_mem_erase member second)).mpr less)
      (increases.sublist List.erase_sublist)
  have fixed : shifted (rank a) new (rank a) = new := shifted_self _ _
  refine List.pairwise_append.mpr ⟨others.sublist List.filter_sublist,
    List.pairwise_cons.mpr ⟨fun b behind => ?_, others.sublist List.filter_sublist⟩,
    fun b before c rest => ?_⟩
  · rw [List.mem_filter, decide_eq_true_eq] at behind
    exact fixed.trans_lt
      ((new_lt_shifted_iff (increases.ne_of_mem_erase member behind.1)).mpr behind.2)
  · rw [List.mem_filter, decide_eq_true_eq] at before
    have low := (shifted_lt_new_iff (increases.ne_of_mem_erase member before.1)).mpr before.2
    rcases List.mem_cons.mp rest with same | behind
    · subst same
      exact low.trans_eq fixed.symm
    · rw [List.mem_filter, decide_eq_true_eq] at behind
      exact low.trans
        ((new_lt_shifted_iff (increases.ne_of_mem_erase member behind.1)).mpr behind.2)

/-- The index of what was moved is the wanted one, counted from 1, only if the
ranks up to there were taken. -/
theorem Increases.idxOf_moved_iff
    (increases : Increases items rank)
    (positive : ∀ b ∈ items, 1 ≤ rank b)
    (member : a ∈ items)
    (low : 1 ≤ new) :
    (Ranks.moved items rank a new).idxOf a + 1 = new ↔
      ∀ n, 1 ≤ n -> n ≤ (if rank a < new then new else new - 1) ->
        ∃ b ∈ items, rank b = n := by
  have outside : a ∉ (items.erase a).filter fun b => rank b < cut (rank a) new :=
    fun inside => increases.nodup.not_mem_erase (List.mem_filter.mp inside).1
  have index : (Ranks.moved items rank a new).idxOf a =
      ((items.erase a).filter fun b => rank b < cut (rank a) new).length := by
    rw [Ranks.moved, List.idxOf_append_of_notMem outside, List.idxOf_cons_self, Nat.add_zero]
  have whole : (items.filter fun b => rank b < cut (rank a) new).length =
      ((a :: items.erase a).filter fun b => rank b < cut (rank a) new).length :=
    ((List.perm_cons_erase member).filter _).length_eq
  rw [index, ← increases.count_eq_iff positive]
  have same : (fun b => decide (rank b ≤ if rank a < new then new else new - 1)) =
      fun b => decide (rank b < cut (rank a) new) := by
    funext b
    rw [cut]
    congr 1
    split
    · exact propext Nat.lt_succ_iff.symm
    · exact propext (by omega)
  rw [same, whole, List.filter_cons]
  by_cases less : rank a < new
  · have inside : rank a < cut (rank a) new := by
      rw [cut, if_pos less]
      omega
    rw [if_pos less, if_pos (decide_eq_true inside), List.length_cons]
  · have behind : ¬ rank a < cut (rank a) new := by
      rw [cut, if_neg less]
      exact less
    rw [if_neg less, if_neg (by simpa using behind)]
    omega

end

end Ranks
