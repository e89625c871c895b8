import Mpmt.TreeCache.Stored

/-!
# Joining, updating and quitting

Each change keeps the invariant of the stored cache and does to the filters of
the present tokens what its name says.
-/

namespace Mpmt
namespace TreeCache

open Effects Heap

variable {Leaf Root Index R : Type} [Zero R] [One R]
variable {I : Meaning Leaf Root Index R} {maps : Maps} {w : World Leaf Root}
variable {root_node : ShareVec Root}

/-! ## The first leaf -/

theorem Stored.placed
    (stored : Stored I maps root_node w)
    (leafless : maps.leaf_num = 0)
    (fresh : token ∉ maps.phi_f)
    (token_ne : token ≠ "root")
    (node : ShareVec Leaf) :
    Stored I ((maps.placed token).dirtied 1) root_node
      (w.saveNode token node) := by
  have shape : ((maps.placed token).dirtied 1).Shape :=
    (stored.shape.placed leafless fresh token_ne).dirtied
      (by simp [leafIds, Maps.placed])
  have only : leafIds ((maps.placed token).dirtied 1).leaf_num = {1} := rfl
  refine ⟨shape, ?_, ?_, ?_, ?_, ?_, ?_, ?_⟩
  · intro node_id member
    rw [only, Finset.mem_singleton] at member
    refine ⟨node, ?_⟩
    have placed : ((maps.placed token).dirtied 1).phi_r.get? 1 =
        some token := by
      simp [Maps.dirtied, Maps.placed]
    rw [member, nodeAt_eq_of_token placed, World.node?_saveNode, if_pos rfl]
  · intro node_id positive internal
    exact absurd internal (Nat.not_lt.mpr positive)
  · intro clean
    simp [Maps.dirtied] at clean
  · rw [World.hasRoot_saveNode node token_ne, World.root?_saveNode node token_ne]
    exact stored.root
  · intro _
    rw [only]
    simp [Maps.dirtied]
  · intro _ node_id other internal found
    have inside := shape.inside found
    exact absurd internal (Nat.not_lt.mpr inside.1)
  · intro other other_ne absent
    have absent' : other ≠ token ∧ other ∉ maps.phi_f := by
      simp only [Dict.mem_iff, Maps.dirtied, Maps.placed, Dict.get?_set]
        at absent ⊢
      grind
    rw [World.absent_saveNode node absent'.1]
    exact stored.stale other other_ne absent'.2

theorem present_placed
    (shape : maps.Shape)
    (leafless : maps.leaf_num = 0)
    (node : ShareVec Leaf)
    (other : String) :
    present ((maps.placed token).dirtied 1) (w.saveNode token node) other =
      if other = token then some node else present maps w other := by
  have nobody : maps.phi_f.get? other = none := by
    cases found : maps.phi_f.get? other with
    | none => rfl
    | some node_id =>
        have inside := shape.inside_of_phi_f found
        omega
  unfold present Maps.hasInserted
  rw [nobody, World.node?_saveNode]
  simp only [Maps.dirtied, Maps.placed, Dict.get?_set]
  by_cases same : other = token
  · simp [same]
  · simp [same, nobody]

/-! ## A further leaf -/

/-- What a new leaf next to the first one needs. -/
structure Maps.Splits
    (maps : Maps)
    (ori_root_token token new_root_token : String) : Prop where
  some_leaf : maps.leaf_num ≠ 0
  ori : maps.phi_r.get? maps.leaf_num = some ori_root_token
  fresh : token ∉ maps.phi_f
  token_ne : token ≠ "root"
  fresh' : new_root_token ∉ maps.phi_f
  token_ne' : new_root_token ≠ "root"
  different : new_root_token ≠ token

section

variable {ori_root_token token new_root_token : String}

/-- The nodes before the split leaf keep token and files. -/
theorem nodeAt_splitted
    (shape : maps.Shape)
    (splits : maps.Splits ori_root_token token new_root_token)
    (node : ShareVec Leaf)
    (inside : node_id < 2 * maps.leaf_num)
    (apart : node_id ≠ maps.leaf_num) :
    nodeAt ((maps.splitted ori_root_token token new_root_token).dirtied leaf)
        (w.saveNode token node) node_id =
      nodeAt maps w node_id := by
  apply nodeAt_congr
  · simp only [Maps.dirtied, Maps.splitted, Dict.get?_set]
    grind
  · intro other found
    rw [World.node?_saveNode, if_neg]
    rintro rfl
    exact splits.fresh (Dict.mem_of_get? ((shape.inverse _ _).mpr found))

theorem Stored.splitted
    (stored : Stored I maps root_node w)
    (splits : maps.Splits ori_root_token token new_root_token)
    (node : ShareVec Leaf) :
    Stored I
      ((maps.splitted ori_root_token token new_root_token).dirtied
        (maps.leaf_num * 2 + 1))
      root_node (w.saveNode token node) := by
  obtain ⟨some_leaf, ori, fresh, token_ne, fresh', token_ne', different⟩ :=
    splits
  have splits : maps.Splits ori_root_token token new_root_token :=
    ⟨some_leaf, ori, fresh, token_ne, fresh', token_ne', different⟩
  have shape : ((maps.splitted ori_root_token token new_root_token).dirtied
      (maps.leaf_num * 2 + 1)).Shape :=
    (stored.shape.splitted some_leaf ori fresh token_ne fresh' token_ne'
      different).dirtied (by simp [leafIds, Maps.splitted]; omega)
  have ori_ne : ori_root_token ≠ token := by
    rintro rfl
    exact fresh (Dict.mem_of_get? ((stored.shape.inverse _ _).mpr ori))
  refine ⟨shape, ?_, ?_, ?_, ?_, ?_, ?_, ?_⟩
  · intro node_id member
    rw [leafIds, Finset.mem_Ico] at member
    have bounds : maps.leaf_num + 1 ≤ node_id ∧
        node_id < 2 * (maps.leaf_num + 1) := member
    by_cases new : node_id = maps.leaf_num * 2 + 1
    · refine ⟨node, ?_⟩
      have placed : ((maps.splitted ori_root_token token
          new_root_token).dirtied (maps.leaf_num * 2 + 1)).phi_r.get?
            node_id = some token := by
        simp only [Maps.dirtied, Maps.splitted, Dict.get?_set]
        grind
      rw [nodeAt_eq_of_token placed, World.node?_saveNode, if_pos rfl]
    · by_cases moved : node_id = maps.leaf_num * 2
      · obtain ⟨old, found⟩ := stored.leaf maps.leaf_num
          (Finset.mem_Ico.mpr (by omega))
        refine ⟨old, ?_⟩
        have placed : ((maps.splitted ori_root_token token
            new_root_token).dirtied (maps.leaf_num * 2 + 1)).phi_r.get?
              node_id = some ori_root_token := by
          simp [Maps.dirtied, Maps.splitted, moved]
        rw [nodeAt_eq_of_token placed, World.node?_saveNode, if_neg ori_ne]
        rwa [nodeAt_eq_of_token ori] at found
      · obtain ⟨old, found⟩ := stored.leaf node_id
          (Finset.mem_Ico.mpr (by omega))
        refine ⟨old, ?_⟩
        rw [nodeAt_splitted stored.shape splits node (by omega) (by omega)]
        exact found
  · intro node_id positive internal clean
    have internal' : node_id < maps.leaf_num + 1 := internal
    -- A clean node is not above the split leaf: the new leaf below is dirty.
    have apart : ¬ Below node_id maps.leaf_num := by
      intro below
      refine clean (maps.leaf_num * 2 + 1)
        (by simp [Maps.dirtied]) (below.of_child (by omega))
    have ne : node_id ≠ maps.leaf_num := by
      rintro rfl
      exact apart (.refl _)
    have left_ne : 2 * node_id ≠ maps.leaf_num := fun same =>
      apart (same ▸ (Below.refl _).left)
    have right_ne : 2 * node_id + 1 ≠ maps.leaf_num := fun same =>
      apart (same ▸ (Below.refl _).right)
    have clean' : maps.Clean node_id := by
      intro leaf member below
      by_cases first : leaf = maps.leaf_num
      · exact apart (first ▸ below)
      · refine clean leaf ?_ below
        simp only [Maps.dirtied, Maps.splitted, Finset.mem_insert]
        refine .inr ?_
        split
        · exact Finset.mem_insert_of_mem
            (Finset.mem_erase.mpr ⟨first, member⟩)
        · exact member
    exact (stored.merged node_id positive (by omega) clean').congr
      (nodeAt_splitted stored.shape splits node (by omega) ne)
      (nodeAt_splitted stored.shape splits node (by omega) left_ne)
      (nodeAt_splitted stored.shape splits node (by omega) right_ne)
  · intro clean
    simp [Maps.dirtied] at clean
  · rw [World.hasRoot_saveNode node token_ne, World.root?_saveNode node token_ne]
    exact stored.root
  · intro noRoot
    rw [World.hasRoot_saveNode node token_ne] at noRoot
    intro node_id member
    have bounds : maps.leaf_num + 1 ≤ node_id ∧
        node_id < 2 * (maps.leaf_num + 1) := Finset.mem_Ico.mp member
    have all := stored.rootless noRoot
    have first := all (Finset.mem_Ico.mpr
      (⟨le_refl _, by omega⟩ : maps.leaf_num ≤ maps.leaf_num ∧ _))
    simp only [Maps.dirtied, Maps.splitted, if_pos first, Finset.mem_insert,
      Finset.mem_erase]
    by_cases new : node_id = maps.leaf_num * 2 + 1
    · exact .inl new
    · by_cases moved : node_id = maps.leaf_num * 2
      · exact .inr (.inl moved)
      · exact .inr (.inr ⟨by omega, all (Finset.mem_Ico.mpr (by omega))⟩)
  · intro noRoot node_id other internal found
    rw [World.hasRoot_saveNode node token_ne] at noRoot
    have internal' : node_id < maps.leaf_num + 1 := internal
    have found' := found
    simp only [Maps.dirtied, Maps.splitted, Dict.get?_set] at found
    rw [if_neg (by omega)] at found
    split at found
    · obtain rfl := Option.some.inj found
      rw [World.absent_saveNode node different]
      exact stored.stale _ token_ne' fresh'
    · rw [if_neg (by omega)] at found
      have other_ne : other ≠ token := by
        rintro rfl
        exact fresh (Dict.mem_of_get? ((stored.shape.inverse _ _).mpr found))
      rw [World.absent_saveNode node other_ne]
      exact stored.unmerged noRoot node_id other (by omega) found
  · intro other other_ne absent
    have absent' : other ≠ token ∧ other ∉ maps.phi_f := by
      simp only [Dict.mem_iff, Maps.dirtied, Maps.splitted, Dict.get?_set]
        at absent ⊢
      grind
    rw [World.absent_saveNode node absent'.1]
    exact stored.stale other other_ne absent'.2

theorem hasInserted_splitted
    (shape : maps.Shape)
    (splits : maps.Splits ori_root_token token new_root_token)
    (other : String) :
    ((maps.splitted ori_root_token token new_root_token).dirtied
        (maps.leaf_num * 2 + 1)).hasInserted other = true ↔
      other = token ∨ maps.hasInserted other = true := by
  obtain ⟨some_leaf, ori, fresh, token_ne, fresh', token_ne', different⟩ :=
    splits
  have absent := Dict.get?_eq_none_of_not_mem fresh
  have absent' := Dict.get?_eq_none_of_not_mem fresh'
  have ori' := (shape.inverse _ _).mpr ori
  have inverse := shape.inverse other maps.leaf_num
  simp only [Maps.hasInserted_iff, Maps.dirtied, Maps.splitted, Dict.get?_set]
  by_cases split : other = ori_root_token
  · have ori_ne : ori_root_token ≠ token := by
      rintro rfl
      simp [absent] at ori'
    rw [split, if_pos rfl, ori']
    exact iff_of_true ⟨_, rfl, by omega⟩ (.inr ⟨_, rfl, le_refl _⟩)
  · rw [if_neg split]
    by_cases internal : other = new_root_token
    · rw [internal, if_pos rfl, absent']
      simp [different]
    · rw [if_neg internal]
      by_cases new : other = token
      · rw [if_pos new]
        exact iff_of_true ⟨_, rfl, by omega⟩ (.inl new)
      · rw [if_neg new]
        constructor
        · rintro ⟨node_id, found, leaf⟩
          exact .inr ⟨node_id, found, by omega⟩
        · rintro (same | ⟨node_id, found, leaf⟩)
          · exact absurd same new
          · refine ⟨node_id, found, ?_⟩
            have apart : node_id ≠ maps.leaf_num := by
              rintro rfl
              rw [inverse, ori] at found
              exact split (Option.some.inj found).symm
            omega

theorem present_splitted
    (shape : maps.Shape)
    (splits : maps.Splits ori_root_token token new_root_token)
    (node : ShareVec Leaf)
    (other : String) :
    present ((maps.splitted ori_root_token token new_root_token).dirtied
        (maps.leaf_num * 2 + 1)) (w.saveNode token node) other =
      if other = token then some node else present maps w other := by
  unfold present
  simp only [World.node?_saveNode, hasInserted_splitted shape splits]
  by_cases same : other = token
  · simp [same]
  · simp [same]

end

/-! ## A changed leaf -/

/-- A leaf with its token. -/
structure Maps.IsLeaf
    (maps : Maps)
    (node_id : Nat)
    (token : String) : Prop where
  found : maps.phi_f.get? token = some node_id
  leaf : maps.leaf_num ≤ node_id

theorem Stored.dirtied
    (stored : Stored I maps root_node w)
    (leaf : maps.IsLeaf node_id token)
    (new_node : ShareVec Leaf) :
    Stored I (maps.dirtied node_id) root_node (w.saveNode token new_node) := by
  obtain ⟨found, leaf⟩ := leaf
  have found' := (stored.shape.inverse _ _).mp found
  have inside := stored.shape.inside found'
  have token_ne := stored.shape.token_ne_root found'
  have shape := stored.shape.dirtied
    (Finset.mem_Ico.mpr ⟨leaf, inside.2⟩ : node_id ∈ leafIds maps.leaf_num)
  have others : ∀ other, other ≠ node_id ->
      nodeAt (maps.dirtied node_id) (w.saveNode token new_node) other =
        nodeAt maps w other := by
    intro other apart
    apply nodeAt_congr rfl
    intro other_token other_found
    rw [World.node?_saveNode, if_neg]
    rintro rfl
    exact apart (stored.shape.injective other_found found')
  refine ⟨shape, ?_, ?_, ?_, ?_, ?_, ?_, ?_⟩
  · intro other member
    by_cases same : other = node_id
    · refine ⟨new_node, ?_⟩
      have kept : (maps.dirtied node_id).phi_r.get? node_id = some token :=
        found'
      rw [same, nodeAt_eq_of_token kept, World.node?_saveNode, if_pos rfl]
    · rw [others other same]
      exact stored.leaf other member
  · intro other positive internal clean
    have apart := clean.ne (Finset.mem_insert_self _ _)
    have clean' : maps.Clean other := fun leaf member =>
      clean leaf (Finset.mem_insert_of_mem member)
    exact (stored.merged other positive internal clean').congr
      (others _ apart.1) (others _ apart.2.1) (others _ apart.2.2)
  · intro clean
    simp [Maps.dirtied] at clean
  · rw [World.hasRoot_saveNode _ token_ne, World.root?_saveNode _ token_ne]
    exact stored.root
  · intro noRoot
    rw [World.hasRoot_saveNode _ token_ne] at noRoot
    exact (stored.rootless noRoot).trans (Finset.subset_insert _ _)
  · intro noRoot other other_token internal other_found
    rw [World.hasRoot_saveNode _ token_ne] at noRoot
    have internal' : other < maps.leaf_num := internal
    have apart : other_token ≠ token := by
      rintro rfl
      have same := stored.shape.injective other_found found'
      omega
    rw [World.absent_saveNode _ apart]
    exact stored.unmerged noRoot other other_token internal other_found
  · intro other other_ne absent
    have absent' : other ∉ maps.phi_f := absent
    have apart : other ≠ token := by
      rintro rfl
      exact absent' (Dict.mem_of_get? found)
    rw [World.absent_saveNode _ apart]
    exact stored.stale other other_ne absent'

theorem present_dirtied
    (leaf : maps.IsLeaf node_id token)
    (new_node : ShareVec Leaf)
    (other : String) :
    present (maps.dirtied node_id) (w.saveNode token new_node) other =
      if other = token then some new_node else present maps w other := by
  have inserted : maps.hasInserted token = true :=
    Maps.hasInserted_iff.mpr ⟨node_id, leaf.found, leaf.leaf⟩
  have same_maps : (maps.dirtied node_id).hasInserted other =
      maps.hasInserted other := rfl
  unfold present
  rw [same_maps, World.node?_saveNode]
  by_cases same : other = token
  · simp [same, inserted]
  · simp [same]

/-! ## The last leaf goes -/

theorem Stored.emptied
    (stored : Stored I maps root_node w)
    (single : maps.leaf_num = 1)
    (found : maps.phi_r.get? 1 = some del_token) :
    Stored I (maps.emptied del_token) root_node (w.unlinkNode del_token) := by
  have token_ne := stored.shape.token_ne_root found
  refine ⟨stored.shape.emptied single found, ?_, ?_, ?_, ?_, ?_, ?_, ?_⟩
  · intro node_id member
    simp [Maps.emptied, leafIds] at member
  · intro node_id positive internal
    exact absurd internal (Nat.not_lt_zero _)
  · intro _ some_leaf
    exact absurd some_leaf (Nat.not_succ_le_zero 0)
  · rw [World.hasRoot_unlinkNode token_ne, World.root?_unlinkNode token_ne]
    exact stored.root
  · intro _
    simp [Maps.emptied, leafIds]
  · intro _ node_id other internal
    exact absurd internal (Nat.not_lt_zero _)
  · intro other other_ne absent
    rw [World.absent_unlinkNode]
    by_cases same : other = del_token
    · exact .inl same
    · refine .inr (stored.stale other other_ne ?_)
      rw [Dict.mem_iff, Maps.emptied, Dict.get?_del_of_ne _ same] at absent
      exact absent

theorem present_emptied
    (shape : maps.Shape)
    (single : maps.leaf_num = 1)
    (found : maps.phi_r.get? 1 = some del_token)
    (other : String) :
    present (maps.emptied del_token) (w.unlinkNode del_token) other =
      if other = del_token then none else present maps w other := by
  have inverse := shape.inverse other
  unfold present Maps.hasInserted
  simp only [Maps.emptied, Dict.get?_del]
  by_cases same : other = del_token
  · simp [same]
  · rw [if_neg same]
    cases other_found : maps.phi_f.get? other with
    | none => simp [same]
    | some node_id =>
        have inside := shape.inside_of_phi_f other_found
        obtain rfl : node_id = 1 := by omega
        rw [inverse, found] at other_found
        exact absurd (Option.some.inj other_found).symm same

/-! ## A leaf goes and the last internal node with it -/

section

variable {internal_token left_token right_token del_token : String}
variable {del_id : Nat}

/-- The nodes before the last internal one keep token and files, but for the
place of the removed leaf. -/
theorem nodeAt_collapsed
    (shape : maps.Shape)
    (collapses : maps.Collapses internal_token left_token right_token del_token
      del_id)
    (inside : node_id < 2 * (maps.leaf_num - 1))
    (apart : node_id ≠ maps.leaf_num - 1)
    (apart' : node_id ≠ del_id) :
    nodeAt
        (maps.collapsed internal_token left_token right_token del_token del_id)
        ((w.unlinkNode del_token).unlinkNode internal_token) node_id =
      nodeAt maps w node_id := by
  obtain ⟨many, internal, left, right, deleted, leaf⟩ := collapses
  apply nodeAt_congr
  · simp only [Maps.collapsed]
    split
    · simp only [Dict.get?_set, Dict.get?_del]
      grind
    · simp only [Dict.get?_set, Dict.get?_del]
      grind
  · intro other found
    have internal_ne : other ≠ internal_token := by
      rintro rfl
      exact apart (shape.injective found internal)
    have deleted_ne : other ≠ del_token := by
      rintro rfl
      exact apart' (shape.injective found deleted)
    rw [World.node?_unlinkNode internal_ne, World.node?_unlinkNode deleted_ne]

/-- The tokens of a collapsed tree are those of other leaves. -/
theorem leaf_collapsed
    (shape : maps.Shape)
    (collapses : maps.Collapses internal_token left_token right_token del_token
      del_id)
    (found :
      (maps.collapsed internal_token left_token right_token del_token
        del_id).phi_r.get? node_id = some token)
    (leaf : maps.leaf_num - 1 ≤ node_id) :
    ∃ old_id, maps.phi_r.get? old_id = some token ∧ maps.leaf_num ≤ old_id ∧
      old_id ≠ del_id := by
  obtain ⟨many, internal, left, right, deleted, leaf'⟩ := collapses
  have inside := shape.inside deleted
  simp only [Maps.collapsed] at found
  split at found
  · simp only [Dict.get?_set, Dict.get?_del] at found
    grind
  · simp only [Dict.get?_set, Dict.get?_del] at found
    grind

theorem Stored.collapsed
    (stored : Stored I maps root_node w)
    (collapses : maps.Collapses internal_token left_token right_token del_token
      del_id) :
    Stored I
      (maps.collapsed internal_token left_token right_token del_token del_id)
      root_node ((w.unlinkNode del_token).unlinkNode internal_token) := by
  have shape := stored.shape.collapsed collapses
  have token_ne := stored.shape.token_ne_root collapses.deleted
  have token_ne' := stored.shape.token_ne_root collapses.internal
  have inside := stored.shape.inside collapses.deleted
  have many := collapses.many
  have leaf := collapses.leaf
  -- The place of the last internal node is dirty, and so is a moved leaf's.
  have dirty : ∀ node_id,
      node_id ∈ (maps.collapsed internal_token left_token right_token del_token
        del_id).dirty_leaf ↔
      node_id = maps.leaf_num - 1 ∨
        node_id ≠ (maps.leaf_num - 1) * 2 ∧
          node_id ≠ (maps.leaf_num - 1) * 2 + 1 ∧
          (node_id = del_id ∨ node_id ∈ maps.dirty_leaf) := by
    intro node_id
    simp only [Maps.collapsed, Finset.mem_insert, Finset.mem_erase]
    split
    · simp only [Finset.mem_insert]
      tauto
    · next stays =>
        have := not_not.mp stays
        grind
  refine ⟨shape, ?_, ?_, ?_, ?_, ?_, ?_, ?_⟩
  · intro node_id member
    have bounds : maps.leaf_num - 1 ≤ node_id ∧
        node_id < 2 * (maps.leaf_num - 1) := Finset.mem_Ico.mp member
    obtain ⟨token, found⟩ := shape.exists_token
      (by omega : 1 ≤ node_id) bounds.2
    obtain ⟨old_id, old_found, old_leaf, old_ne⟩ :=
      leaf_collapsed stored.shape collapses found bounds.1
    have apart : token ≠ del_token := by
      rintro rfl
      exact old_ne (stored.shape.injective old_found collapses.deleted)
    have apart' : token ≠ internal_token := by
      rintro rfl
      have := stored.shape.injective old_found collapses.internal
      omega
    rw [nodeAt_eq_of_token found, World.node?_unlinkNode apart',
      World.node?_unlinkNode apart, ← nodeAt_eq_of_token old_found]
    exact stored.leaf old_id
      (Finset.mem_Ico.mpr ⟨old_leaf, (stored.shape.inside old_found).2⟩)
  · intro node_id positive internal clean
    have internal' : node_id < maps.leaf_num - 1 := internal
    have apart := clean.ne ((dirty _).mpr (.inl rfl))
    have below := clean _ ((dirty _).mpr (.inl rfl))
    have del_ne : node_id ≠ del_id ∧ 2 * node_id ≠ del_id ∧
        2 * node_id + 1 ≠ del_id := by
      by_cases moved : del_id ≠ (maps.leaf_num - 1) * 2 ∧
          del_id ≠ (maps.leaf_num - 1) * 2 + 1
      · exact clean.ne ((dirty _).mpr (.inr ⟨moved.1, moved.2, .inl rfl⟩))
      · omega
    have clean' : maps.Clean node_id := by
      intro other member other_below
      by_cases child : other = (maps.leaf_num - 1) * 2 ∨
          other = (maps.leaf_num - 1) * 2 + 1
      · have parent : other / 2 = maps.leaf_num - 1 := by omega
        exact below (parent ▸ other_below.parent (by omega))
      · rw [not_or] at child
        exact clean other
          ((dirty _).mpr (.inr ⟨child.1, child.2, .inr member⟩)) other_below
    exact (stored.merged node_id positive (by omega) clean').congr
      (nodeAt_collapsed stored.shape collapses (by omega) apart.1 del_ne.1)
      (nodeAt_collapsed stored.shape collapses (by omega) apart.2.1 del_ne.2.1)
      (nodeAt_collapsed stored.shape collapses (by omega) apart.2.2 del_ne.2.2)
  · intro clean
    have member := (dirty (maps.leaf_num - 1)).mpr (.inl rfl)
    simp [clean] at member
  · rw [World.hasRoot_unlinkNode token_ne', World.hasRoot_unlinkNode token_ne,
      World.root?_unlinkNode token_ne', World.root?_unlinkNode token_ne]
    exact stored.root
  · intro noRoot
    rw [World.hasRoot_unlinkNode token_ne', World.hasRoot_unlinkNode token_ne]
      at noRoot
    intro node_id member
    have bounds : maps.leaf_num - 1 ≤ node_id ∧
        node_id < 2 * (maps.leaf_num - 1) := Finset.mem_Ico.mp member
    rw [dirty]
    by_cases last : node_id = maps.leaf_num - 1
    · exact .inl last
    · exact .inr ⟨by omega, by omega, .inr (stored.rootless noRoot
        (Finset.mem_Ico.mpr (by omega)))⟩
  · intro noRoot node_id token internal found
    rw [World.hasRoot_unlinkNode token_ne', World.hasRoot_unlinkNode token_ne]
      at noRoot
    have internal' : node_id < maps.leaf_num - 1 := internal
    have found' : maps.phi_r.get? node_id = some token := by
      simp only [Maps.collapsed] at found
      split at found
      · simp only [Dict.get?_set, Dict.get?_del] at found
        grind
      · simp only [Dict.get?_set, Dict.get?_del] at found
        grind
    rw [World.absent_unlinkNode, World.absent_unlinkNode]
    exact .inr (.inr (stored.unmerged noRoot node_id token (by omega) found'))
  · intro token token_ne absent
    rw [World.absent_unlinkNode, World.absent_unlinkNode]
    by_cases same' : token = internal_token
    · exact .inl same'
    by_cases same : token = del_token
    · exact .inr (.inl same)
    refine .inr (.inr (stored.stale token token_ne ?_))
    rw [Dict.mem_iff] at absent ⊢
    simp only [Maps.collapsed] at absent
    split at absent
    · simp only [Dict.get?_set, Dict.get?_del] at absent
      grind
    · simp only [Dict.get?_set, Dict.get?_del] at absent
      grind

theorem hasInserted_collapsed
    (shape : maps.Shape)
    (collapses : maps.Collapses internal_token left_token right_token del_token
      del_id)
    (other : String) :
    (maps.collapsed internal_token left_token right_token del_token
        del_id).hasInserted other = true ↔
      other ≠ del_token ∧ maps.hasInserted other = true := by
  have shape' := shape.collapsed collapses
  obtain ⟨many, internal, left, right, deleted, leaf⟩ := collapses
  have inside := shape.inside deleted
  rw [Maps.hasInserted_iff, Maps.hasInserted_iff]
  constructor
  · rintro ⟨node_id, found, leaf'⟩
    have found' := (shape'.inverse _ _).mp found
    obtain ⟨old_id, old_found, old_leaf, old_ne⟩ := leaf_collapsed shape
      ⟨many, internal, left, right, deleted, leaf⟩ found' leaf'
    refine ⟨?_, old_id, (shape.inverse _ _).mpr old_found, old_leaf⟩
    rintro rfl
    exact old_ne (shape.injective old_found deleted)
  · rintro ⟨different, node_id, found, leaf'⟩
    have found' := (shape.inverse _ _).mp found
    have internal' := (shape.inverse _ _).mpr internal
    have left' := (shape.inverse _ _).mpr left
    have right' := (shape.inverse _ _).mpr right
    have internal_ne : other ≠ internal_token := by
      rintro rfl
      have := shape.injective found' internal
      omega
    simp only [Maps.collapsed]
    split
    · simp only [Dict.get?_set, Dict.get?_del]
      grind
    · simp only [Dict.get?_set, Dict.get?_del]
      grind

theorem present_collapsed
    (shape : maps.Shape)
    (collapses : maps.Collapses internal_token left_token right_token del_token
      del_id)
    (other : String) :
    present
        (maps.collapsed internal_token left_token right_token del_token del_id)
        ((w.unlinkNode del_token).unlinkNode internal_token) other =
      if other = del_token then none else present maps w other := by
  unfold present
  simp only [hasInserted_collapsed shape collapses]
  by_cases same : other = del_token
  · simp [same]
  · by_cases inserted : maps.hasInserted other = true
    · obtain ⟨node_id, found, leaf⟩ := Maps.hasInserted_iff.mp inserted
      have internal_ne : other ≠ internal_token := by
        rintro rfl
        have := shape.injective ((shape.inverse _ _).mp found)
          collapses.internal
        have := collapses.many
        omega
      simp [same, inserted, World.node?_unlinkNode internal_ne,
        World.node?_unlinkNode same]
    · simp [inserted]

end

end TreeCache
end Mpmt
