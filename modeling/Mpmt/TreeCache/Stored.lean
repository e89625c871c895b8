import Mpmt.TreeCache.Operations

/-!
# What a tree cache stores

Every leaf has its files.  Every internal node without a dirty leaf below it
has files too, and they hold the union of the filters of its children.  When no
leaf is dirty, the root holds the filter of the uppermost node.
-/

namespace Mpmt
namespace TreeCache

open Effects Heap

variable {Leaf Root Index R : Type}

/-! ## What the vectors stand for -/

/-- The filters and roots that the shares reconstruct to. -/
structure Meaning (Leaf Root Index R : Type) where
  filter : ShareVec Leaf -> Index -> Bool
  value : ShareVec Root -> Index -> R

/-- The 0/1 embedding of a filter. -/
def embed [Zero R] [One R] (filter : Index -> Bool) : Index -> R :=
  fun i => if filter i then 1 else 0

/-- The merge computes the union and the conversion the embedding. -/
structure Meaning.Computes
    [Zero Root]
    [Zero R]
    [One R]
    (I : Meaning Leaf Root Index R)
    (fns : Functions Leaf Root) : Prop where
  merge : ∀ call sva svb,
    I.filter (fns.merge_fn call sva svb) = I.filter sva ⊔ I.filter svb
  ring_conv : ∀ call sv, I.value (fns.ring_conv_fn call sv) = embed (I.filter sv)
  zero : I.value { this_share := 0, nxt_share := 0 } = 0

/-- The meaning for results about maps and files alone, whatever the contents
are. -/
def plain (Leaf Root : Type) : Meaning Leaf Root Empty Nat where
  filter _ := nofun
  value _ := nofun

theorem plain_computes
    [Zero Root]
    (fns : Functions Leaf Root) : (plain Leaf Root).Computes fns where
  merge := fun _ _ _ => funext nofun
  ring_conv := fun _ _ => funext nofun
  zero := funext nofun

/-! ## The invariant -/

/-- The node with a number. -/
def nodeAt
    (maps : Maps)
    (w : World Leaf Root)
    (node_id : Nat) : Option (ShareVec Leaf) :=
  (maps.phi_r.get? node_id).bind w.node?

/-- No leaf below the node is dirty. -/
def Maps.Clean (maps : Maps) (node_id : Nat) : Prop :=
  ∀ leaf ∈ maps.dirty_leaf, ¬ Below node_id leaf

/-- The files of an internal node hold the union of its children. -/
def Merged
    (I : Meaning Leaf Root Index R)
    (maps : Maps)
    (w : World Leaf Root)
    (node_id : Nat) : Prop :=
  ∃ node left right,
    nodeAt maps w node_id = some node ∧
      nodeAt maps w (2 * node_id) = some left ∧
      nodeAt maps w (2 * node_id + 1) = some right ∧
      I.filter node = I.filter left ⊔ I.filter right

/-- The root is the embedding of the uppermost node, in memory and on disk. -/
def Settled
    [Zero R]
    [One R]
    (I : Meaning Leaf Root Index R)
    (maps : Maps)
    (root_node : ShareVec Root)
    (w : World Leaf Root) : Prop :=
  ∃ node root,
    nodeAt maps w 1 = some node ∧
      I.value root_node = embed (I.filter node) ∧
      w.root? = some root ∧
      I.value root = embed (I.filter node)

/-- The invariant of maps, root and files. -/
structure Stored
    [Zero R]
    [One R]
    (I : Meaning Leaf Root Index R)
    (maps : Maps)
    (root_node : ShareVec Root)
    (w : World Leaf Root) : Prop where
  shape : maps.Shape
  leaf : ∀ node_id ∈ leafIds maps.leaf_num,
    ∃ node, nodeAt maps w node_id = some node
  merged : ∀ node_id, 1 ≤ node_id -> node_id < maps.leaf_num ->
    maps.Clean node_id -> Merged I maps w node_id
  settled : maps.dirty_leaf = ∅ -> 1 ≤ maps.leaf_num ->
    Settled I maps root_node w
  root : w.hasRoot = true -> ∃ root, w.root? = some root
  rootless : w.hasRoot = false -> leafIds maps.leaf_num ⊆ maps.dirty_leaf
  unmerged : w.hasRoot = false -> ∀ node_id token,
    node_id < maps.leaf_num -> maps.phi_r.get? node_id = some token ->
      w.Absent token
  stale : ∀ token, token ≠ "root" -> token ∉ maps.phi_f -> w.Absent token

/-- The filters of the leaves that have joined. -/
def present
    (maps : Maps)
    (w : World Leaf Root)
    (token : String) : Option (ShareVec Leaf) :=
  if maps.hasInserted token then w.node? token else none

section

variable {I : Meaning Leaf Root Index R} {maps maps' : Maps}
variable {w w' : World Leaf Root} {root_node : ShareVec Root}

theorem Maps.hasInserted_iff :
    maps.hasInserted token = true ↔
      ∃ node_id, maps.phi_f.get? token = some node_id ∧
        maps.leaf_num ≤ node_id := by
  unfold Maps.hasInserted
  cases maps.phi_f.get? token with
  | none => simp
  | some node_id => simp

theorem nodeAt_eq_of_token
    (found : maps.phi_r.get? node_id = some token) :
    nodeAt maps w node_id = w.node? token := by
  rw [nodeAt, found, Option.bind_some]

/-- A node whose token and files are the same is the same. -/
theorem nodeAt_congr
    (same : maps'.phi_r.get? node_id = maps.phi_r.get? node_id)
    (files : ∀ token, maps.phi_r.get? node_id = some token ->
      w'.node? token = w.node? token) :
    nodeAt maps' w' node_id = nodeAt maps w node_id := by
  rw [nodeAt, nodeAt, same]
  cases found : maps.phi_r.get? node_id with
  | none => rfl
  | some token => exact files token found

theorem Merged.congr
    (merged : Merged I maps w node_id)
    (node : nodeAt maps' w' node_id = nodeAt maps w node_id)
    (left : nodeAt maps' w' (2 * node_id) = nodeAt maps w (2 * node_id))
    (right :
      nodeAt maps' w' (2 * node_id + 1) = nodeAt maps w (2 * node_id + 1)) :
    Merged I maps' w' node_id := by
  unfold Merged
  rw [node, left, right]
  exact merged

/-- A clean node, and so its children, are none of the dirty leaves. -/
theorem Maps.Clean.ne
    (clean : maps.Clean node_id)
    (dirty : leaf ∈ maps.dirty_leaf) :
    node_id ≠ leaf ∧ 2 * node_id ≠ leaf ∧ 2 * node_id + 1 ≠ leaf := by
  have apart := clean leaf dirty
  rw [below_iff] at apart
  refine ⟨fun same => apart (.inl same.symm), ?_, ?_⟩
  · rintro rfl
    exact apart (.inr (.inl (.refl _)))
  · rintro rfl
    exact apart (.inr (.inr (.refl _)))

variable [Zero R] [One R]

/-- `meta.json` is not part of the invariant. -/
theorem Stored.dumpMeta
    (stored : Stored I maps root_node w)
    (value : PyJson) : Stored I maps root_node (w.dumpMeta value) := by
  have nodes : nodeAt maps (w.dumpMeta value) = nodeAt maps w := by
    funext node_id
    exact nodeAt_congr rfl fun token _ => World.node?_dumpMeta value
  obtain ⟨shape, leaf, merged, settled, root, rootless, unmerged, stale⟩ :=
    stored
  refine ⟨shape, ?_, ?_, ?_, ?_, ?_, ?_, ?_⟩
  · rwa [nodes]
  · unfold Merged
    rwa [nodes]
  · unfold Settled
    rwa [nodes, World.root?_dumpMeta]
  · rwa [World.hasRoot_dumpMeta, World.root?_dumpMeta]
  · rwa [World.hasRoot_dumpMeta]
  · simpa only [World.hasRoot_dumpMeta, World.absent_dumpMeta] using unmerged
  · simpa only [World.absent_dumpMeta] using stale

theorem present_dumpMeta (value : PyJson) :
    present maps (w.dumpMeta value) token = present maps w token := by
  rw [present, present, World.node?_dumpMeta]

theorem stored_blank (root_node : ShareVec Root) (calls : Nat) :
    Stored I Maps.blank root_node ({ disk := ∅, calls := calls } :
      World Leaf Root) where
  shape := Maps.shape_blank
  leaf := by simp [Maps.blank, leafIds]
  merged := by
    intro node_id positive internal
    simp [Maps.blank] at internal
  settled := by
    intro _ some_leaf
    simp [Maps.blank] at some_leaf
  root := by simp [World.hasRoot]
  rootless := by simp [Maps.blank, leafIds]
  unmerged := by
    intro _ node_id token internal
    simp [Maps.blank] at internal
  stale := by simp [World.Absent]

end

end TreeCache
end Mpmt
