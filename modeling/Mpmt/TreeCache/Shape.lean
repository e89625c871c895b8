import Mpmt.TreeCache.Files

/-!
# The maps of a tree cache

The two maps undo each other and number the nodes of a heap from one; the dirty
nodes are leaves.  Each operation keeps that.
-/

namespace Mpmt
namespace TreeCache

open Effects

/-! ## The shape -/

/-- The invariant of the maps. -/
structure Maps.Shape (maps : Maps) : Prop where
  inverse : ∀ token node_id,
    maps.phi_f.get? token = some node_id ↔
      maps.phi_r.get? node_id = some token
  numbered : ∀ node_id,
    (maps.phi_r.get? node_id).isSome ↔
      1 ≤ node_id ∧ node_id < 2 * maps.leaf_num
  dirty : maps.dirty_leaf ⊆ Heap.leafIds maps.leaf_num
  drawn : ∀ token, token ∈ maps.phi_f -> token ≠ "root"

namespace Maps

/-- The maps of a new cache. -/
def blank : Maps where
  leaf_num := 0
  phi_f := ∅
  phi_r := ∅
  dirty_leaf := ∅

theorem shape_blank : blank.Shape where
  inverse := by simp [blank]
  numbered := by
    intro node_id
    simp [blank]
  dirty := by simp [blank]
  drawn := by simp [blank, Dict.mem_iff]

namespace Shape

variable {maps : Maps}

/-- Every node has a token. -/
theorem exists_token
    (shape : maps.Shape)
    (positive : 1 ≤ node_id)
    (inside : node_id < 2 * maps.leaf_num) :
    ∃ token, maps.phi_r.get? node_id = some token :=
  Option.isSome_iff_exists.mp
    ((shape.numbered node_id).mpr ⟨positive, inside⟩)

theorem inside
    (shape : maps.Shape)
    (found : maps.phi_r.get? node_id = some token) :
    1 ≤ node_id ∧ node_id < 2 * maps.leaf_num :=
  (shape.numbered node_id).mp (Option.isSome_iff_exists.mpr ⟨token, found⟩)

theorem inside_of_phi_f
    (shape : maps.Shape)
    (found : maps.phi_f.get? token = some node_id) :
    1 ≤ node_id ∧ node_id < 2 * maps.leaf_num :=
  shape.inside ((shape.inverse token node_id).mp found)

/-- Different nodes have different tokens. -/
theorem injective
    (shape : maps.Shape)
    (found : maps.phi_r.get? node_id = some token)
    (found' : maps.phi_r.get? node_id' = some token) : node_id = node_id' := by
  rw [← shape.inverse] at found found'
  rw [found] at found'
  exact Option.some.inj found'

theorem token_ne_root
    (shape : maps.Shape)
    (found : maps.phi_r.get? node_id = some token) : token ≠ "root" :=
  shape.drawn token (Dict.mem_of_get? ((shape.inverse token node_id).mpr found))

end Shape

/-! ## Joining -/

/-- The maps behind `placeFirst`. -/
def placed (maps : Maps) (token : String) : Maps :=
  { maps with
    leaf_num := 1
    phi_r := maps.phi_r.set 1 token
    phi_f := maps.phi_f.set token 1 }

/-- The maps behind `splitFirst`. -/
def splitted
    (maps : Maps)
    (ori_root_token token new_root_token : String) : Maps where
  leaf_num := maps.leaf_num + 1
  phi_r := ((maps.phi_r.set (maps.leaf_num * 2 + 1) token).set maps.leaf_num
    new_root_token).set (maps.leaf_num * 2) ori_root_token
  phi_f := ((maps.phi_f.set token (maps.leaf_num * 2 + 1)).set new_root_token
    maps.leaf_num).set ori_root_token (maps.leaf_num * 2)
  dirty_leaf :=
    if maps.leaf_num ∈ maps.dirty_leaf then
      Insert.insert (maps.leaf_num * 2) (maps.dirty_leaf.erase maps.leaf_num)
    else maps.dirty_leaf

/-- A leaf has changed. -/
def dirtied (maps : Maps) (node_id : Nat) : Maps :=
  { maps with dirty_leaf := Insert.insert node_id maps.dirty_leaf }

theorem Shape.placed
    {maps : Maps}
    (shape : maps.Shape)
    (leafless : maps.leaf_num = 0)
    (fresh : token ∉ maps.phi_f)
    (token_ne : token ≠ "root") : (maps.placed token).Shape where
  inverse := by
    intro other node_id
    have absent := Dict.get?_eq_none_of_not_mem fresh
    have inverse := shape.inverse other node_id
    have outside := shape.numbered node_id
    simp only [Maps.placed, Dict.get?_set]
    grind
  numbered := by
    intro node_id
    have outside := shape.numbered node_id
    simp only [Maps.placed, Dict.get?_set]
    grind
  dirty := by
    have dirty := shape.dirty
    rw [leafless] at dirty
    simp only [Maps.placed]
    exact dirty.trans (by simp [Heap.leafIds])
  drawn := by
    intro other member
    rw [Dict.mem_iff, Maps.placed, Dict.get?_set] at member
    split at member
    · next same => exact same ▸ token_ne
    · exact shape.drawn other member

theorem Shape.splitted
    {maps : Maps}
    (shape : maps.Shape)
    (some_leaf : maps.leaf_num ≠ 0)
    (ori : maps.phi_r.get? maps.leaf_num = some ori_root_token)
    (fresh : token ∉ maps.phi_f)
    (token_ne : token ≠ "root")
    (fresh' : new_root_token ∉ maps.phi_f)
    (token_ne' : new_root_token ≠ "root")
    (different : new_root_token ≠ token) :
    (maps.splitted ori_root_token token new_root_token).Shape where
  inverse := by
    intro other node_id
    have absent := Dict.get?_eq_none_of_not_mem fresh
    have absent' := Dict.get?_eq_none_of_not_mem fresh'
    have ori' := (shape.inverse ori_root_token maps.leaf_num).mpr ori
    have inverse := shape.inverse other node_id
    have inverse' := shape.inverse other maps.leaf_num
    have outside := shape.numbered node_id
    simp only [Maps.splitted, Dict.get?_set]
    grind
  numbered := by
    intro node_id
    have outside := shape.numbered node_id
    simp only [Maps.splitted, Dict.get?_set]
    grind
  dirty := by
    intro node_id member
    simp only [Heap.leafIds, Finset.mem_Ico, Maps.splitted] at member ⊢
    split at member
    · rw [Finset.mem_insert, Finset.mem_erase] at member
      rcases member with rfl | ⟨different, member⟩
      · omega
      · have bounds := Finset.mem_Ico.mp (shape.dirty member)
        omega
    · next clean =>
        have bounds := Finset.mem_Ico.mp (shape.dirty member)
        have : node_id ≠ maps.leaf_num := fun same => clean (same ▸ member)
        omega
  drawn := by
    intro other member
    simp only [Dict.mem_iff, Maps.splitted, Dict.get?_set] at member
    split at member
    · next same => exact same ▸ shape.token_ne_root ori
    · split at member
      · next same => exact same ▸ token_ne'
      · split at member
        · next same => exact same ▸ token_ne
        · exact shape.drawn other member

theorem Shape.dirtied
    {maps : Maps}
    (shape : maps.Shape)
    (leaf : node_id ∈ Heap.leafIds maps.leaf_num) :
    (maps.dirtied node_id).Shape where
  inverse := shape.inverse
  numbered := shape.numbered
  dirty := Finset.insert_subset leaf shape.dirty
  drawn := shape.drawn

theorem Shape.clean
    {maps : Maps}
    (shape : maps.Shape) : Shape { maps with dirty_leaf := ∅ } where
  inverse := shape.inverse
  numbered := shape.numbered
  dirty := Finset.empty_subset _
  drawn := shape.drawn

/-! ## Quitting -/

/-- The maps behind `removeLast`. -/
def emptied (maps : Maps) (del_token : String) : Maps where
  leaf_num := 0
  phi_f := maps.phi_f.del del_token
  phi_r := maps.phi_r.del 1
  dirty_leaf := ∅

/-- The maps behind `collapseLast`, for the tokens of the last internal node
and its leaves. -/
def collapsed
    (maps : Maps)
    (internal_token left_token right_token del_token : String)
    (del_id : Nat) : Maps :=
  let collapse_id := maps.leaf_num - 1
  let left_id := collapse_id * 2
  let right_id := left_id + 1
  let moved := ¬ (del_id = left_id ∨ del_id = right_id)
  let promoted_token := if del_id = left_id then right_token else left_token
  let phi_r := if moved then maps.phi_r.set del_id right_token else maps.phi_r
  let phi_f := if moved then maps.phi_f.set right_token del_id else maps.phi_f
  { leaf_num := maps.leaf_num - 1
    phi_r := ((phi_r.set collapse_id promoted_token).del left_id).del right_id
    phi_f := ((phi_f.set promoted_token collapse_id).del internal_token).del
      del_token
    dirty_leaf := Insert.insert collapse_id
      (((if moved then Insert.insert del_id maps.dirty_leaf
        else maps.dirty_leaf).erase left_id).erase right_id) }

theorem Shape.emptied
    {maps : Maps}
    (shape : maps.Shape)
    (single : maps.leaf_num = 1)
    (found : maps.phi_r.get? 1 = some del_token) :
    (maps.emptied del_token).Shape where
  inverse := by
    intro other node_id
    have inverse := shape.inverse other node_id
    have first := (shape.inverse del_token 1).mpr found
    have outside := shape.numbered node_id
    simp only [Maps.emptied, Dict.get?_del]
    grind
  numbered := by
    intro node_id
    have outside := shape.numbered node_id
    simp only [Maps.emptied, Dict.get?_del]
    grind
  dirty := by simp [Maps.emptied]
  drawn := by
    intro other member
    rw [Dict.mem_iff, Maps.emptied, Dict.get?_del] at member
    split at member
    · simp at member
    · exact shape.drawn other member

/-- The maps behind the removal of a leaf, when the last internal node and its
leaves have the given tokens. -/
structure Collapses
    (maps : Maps)
    (internal_token left_token right_token del_token : String)
    (del_id : Nat) : Prop where
  many : 2 ≤ maps.leaf_num
  internal : maps.phi_r.get? (maps.leaf_num - 1) = some internal_token
  left : maps.phi_r.get? ((maps.leaf_num - 1) * 2) = some left_token
  right : maps.phi_r.get? ((maps.leaf_num - 1) * 2 + 1) = some right_token
  deleted : maps.phi_r.get? del_id = some del_token
  leaf : maps.leaf_num ≤ del_id

theorem Shape.collapsed
    {maps : Maps}
    (shape : maps.Shape)
    (collapses : maps.Collapses internal_token left_token right_token del_token
      del_id) :
    (maps.collapsed internal_token left_token right_token del_token
      del_id).Shape where
  inverse := by
    intro other node_id
    obtain ⟨many, internal, left, right, deleted, leaf⟩ := collapses
    have inverse := shape.inverse other node_id
    have internal' := (shape.inverse _ _).mpr internal
    have left' := (shape.inverse _ _).mpr left
    have right' := (shape.inverse _ _).mpr right
    have deleted' := (shape.inverse _ _).mpr deleted
    simp only [Maps.collapsed]
    split
    · simp only [Dict.get?_set, Dict.get?_del]
      grind
    · simp only [Dict.get?_set, Dict.get?_del]
      grind
  numbered := by
    intro node_id
    obtain ⟨many, internal, left, right, deleted, leaf⟩ := collapses
    have outside := shape.numbered node_id
    have inside := shape.inside deleted
    simp only [Maps.collapsed]
    split
    · simp only [Dict.get?_set, Dict.get?_del]
      grind
    · simp only [Dict.get?_set, Dict.get?_del]
      grind
  dirty := by
    intro node_id member
    obtain ⟨many, internal, left, right, deleted, leaf⟩ := collapses
    have inside := shape.inside deleted
    simp only [Heap.leafIds, Finset.mem_Ico, Maps.collapsed,
      Finset.mem_insert, Finset.mem_erase] at member ⊢
    rcases member with rfl | ⟨right_ne, left_ne, member⟩
    · omega
    · split at member
      · rw [Finset.mem_insert] at member
        rcases member with rfl | member
        · omega
        · have bounds := Finset.mem_Ico.mp (shape.dirty member)
          omega
      · have bounds := Finset.mem_Ico.mp (shape.dirty member)
        omega
  drawn := by
    intro other member
    obtain ⟨many, internal, left, right, deleted, leaf⟩ := collapses
    have left_ne := shape.token_ne_root left
    have right_ne := shape.token_ne_root right
    have others := shape.drawn other
    rw [Dict.mem_iff] at member others
    simp only [Maps.collapsed] at member
    split at member
    · simp only [Dict.get?_set, Dict.get?_del] at member
      grind
    · simp only [Dict.get?_set, Dict.get?_del] at member
      grind

end Maps

end TreeCache
end Mpmt
