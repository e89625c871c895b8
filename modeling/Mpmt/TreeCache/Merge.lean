import Mpmt.TreeCache.Changes

/-!
# `execute_merge`

The ancestors of the dirty leaves are merged from the largest number down.
When a node's turn comes, its children are leaves, clean, or merged already.
-/

namespace Mpmt
namespace TreeCache

open Effects Heap

variable {Leaf Root Index R : Type}
variable {I : Meaning Leaf Root Index R} {fns : Functions Leaf Root}
variable {cfg : Config} {maps : Maps} {m : Cache Root} {w : World Leaf Root}

/-! ## One turn -/

/-- The files that a turn leaves behind. -/
def turnWorld
    (fns : Functions Leaf Root)
    (node : Nat)
    (out_token : String)
    (lc rc : ShareVec Leaf)
    (w : World Leaf Root) : World Leaf Root :=
  let out := fns.merge_fn w.calls lc rc
  let saved := w.called.saveNode out_token out
  if node = 1 then saved.called.saveRoot (fns.ring_conv_fn saved.calls out)
  else saved

/-- The root behind a turn. -/
def turnRoot
    (fns : Functions Leaf Root)
    (node : Nat)
    (lc rc : ShareVec Leaf)
    (root_node : ShareVec Root)
    (w : World Leaf Root) : ShareVec Root :=
  if node = 1 then
    fns.ring_conv_fn (w.calls + 1) (fns.merge_fn w.calls lc rc)
  else root_node

theorem run_mergeNode
    (found : m.phi_r.get? node = some out_token)
    (left : nodeAt m.toMaps w (2 * node) = some lc)
    (right : nodeAt m.toMaps w (2 * node + 1) = some rc) :
    run (handler fns) (mergeNode node) (m, w) =
      (.returned (),
        { m with root_node := turnRoot fns node lc rc m.root_node w },
        turnWorld fns node out_token lc rc w) := by
  obtain ⟨lc_token, left_found, lc_found⟩ := Option.bind_eq_some_iff.mp left
  obtain ⟨rc_token, right_found, rc_found⟩ := Option.bind_eq_some_iff.mp right
  rw [Nat.mul_comm] at left_found right_found
  have merged : (handler fns).handle (.merge lc rc) w =
      (.ok (fns.merge_fn w.calls lc rc), w.called) := rfl
  unfold mergeNode
  rw [run_bind_of_returned run_get, run_bind_of_returned (run_item found _),
    run_bind_of_returned (run_item left_found _),
    run_bind_of_returned (run_item right_found _),
    run_bind_of_returned (run_loadNode lc_found),
    run_bind_of_returned (run_loadNode rc_found),
    run_bind_of_returned (run_call_ok merged),
    run_bind_of_returned (run_saveNode _)]
  by_cases top : node = 1
  · rw [if_pos top, run_bind_of_returned (run_ringConv _), run_saveRoot]
    simp only [turnRoot, turnWorld, top, if_true]
    rfl
  · rw [if_neg top]
    simp only [turnRoot, turnWorld, top, if_false]
    rfl

/-! ## The loop -/

/-- All nodes but the `pending` ones hold what they should. -/
structure Merging
    (I : Meaning Leaf Root Index R)
    (maps : Maps)
    (pending : List Nat)
    (w : World Leaf Root) : Prop where
  leaf : ∀ node_id ∈ leafIds maps.leaf_num,
    ∃ node, nodeAt maps w node_id = some node
  merged : ∀ node_id, 1 ≤ node_id -> node_id < maps.leaf_num ->
    node_id ∉ pending -> Merged I maps w node_id
  stale : ∀ token, token ≠ "root" -> token ∉ maps.phi_f -> w.Absent token

/-- What the loop runs over: internal nodes, the larger ones first, and with a
node its parent. -/
structure Pending (leaf_num : Nat) (pending : List Nat) : Prop where
  sorted : pending.Pairwise (· > ·)
  inside : ∀ node ∈ pending, 1 ≤ node ∧ node < leaf_num
  parent : ∀ node ∈ pending, node ≠ 1 -> node / 2 ∈ pending

theorem Pending.tail
    (pending : Pending leaf_num (node :: rest)) : Pending leaf_num rest where
  sorted := (List.pairwise_cons.mp pending.sorted).2
  inside := fun other member => pending.inside other (by simp [member])
  parent := by
    intro other member top
    have smaller := (List.pairwise_cons.mp pending.sorted).1 other member
    have bounds := pending.inside other (by simp [member])
    rcases List.mem_cons.mp (pending.parent other (by simp [member]) top) with
      same | member
    · omega
    · exact member

/-- The uppermost node comes last. -/
theorem Pending.last
    (pending : Pending leaf_num (node :: rest)) : node = 1 ↔ rest = [] := by
  constructor
  · rintro rfl
    apply List.eq_nil_iff_forall_not_mem.mpr
    intro other member
    have smaller := (List.pairwise_cons.mp pending.sorted).1 other member
    have bounds := pending.inside other (by simp [member])
    omega
  · rintro rfl
    by_contra top
    have bounds := pending.inside node (by simp)
    have same := List.mem_singleton.mp (pending.parent node (by simp) top)
    omega

theorem pending_dirtyNodes
    (dirty : maps.dirty_leaf ⊆ leafIds maps.leaf_num) :
    Pending maps.leaf_num ((dirtyNodes maps.dirty_leaf).sort (· ≥ ·)) where
  sorted := (Finset.sortedGT_sort _).pairwise
  inside := by
    intro node member
    rw [Finset.mem_sort] at member
    obtain ⟨leaf, inDirty, ancestor⟩ := Finset.mem_biUnion.mp member
    rw [List.mem_toFinset] at ancestor
    have positive := pos_of_mem_ancestors ancestor
    obtain ⟨below, different⟩ := (mem_ancestors positive).mp ancestor
    have bounds := Finset.mem_Ico.mp (dirty inDirty)
    have parent := (below.parent different).le
    omega
  parent := by
    intro node member top
    rw [Finset.mem_sort] at member ⊢
    obtain ⟨leaf, inDirty, ancestor⟩ := Finset.mem_biUnion.mp member
    rw [List.mem_toFinset] at ancestor
    have positive := pos_of_mem_ancestors ancestor
    obtain ⟨below, different⟩ := (mem_ancestors positive).mp ancestor
    refine Finset.mem_biUnion.mpr ⟨leaf, inDirty, ?_⟩
    rw [List.mem_toFinset, mem_ancestors (by omega)]
    have upper : Below (node / 2) leaf := by
      rcases Nat.even_or_odd' node with ⟨half, even | odd⟩
      · exact Below.left (by rwa [show 2 * (node / 2) = node by omega])
      · exact Below.right (by rwa [show 2 * (node / 2) + 1 = node by omega])
    have := below.le
    exact ⟨upper, by omega⟩

/-- What is not pending has no dirty leaf below. -/
theorem clean_of_not_mem_dirtyNodes
    (dirty : maps.dirty_leaf ⊆ leafIds maps.leaf_num)
    (positive : 1 ≤ node)
    (internal : node < maps.leaf_num)
    (absent : node ∉ dirtyNodes maps.dirty_leaf) : maps.Clean node := by
  intro leaf member below
  have bounds := Finset.mem_Ico.mp (dirty member)
  apply absent
  refine Finset.mem_biUnion.mpr ⟨leaf, member, ?_⟩
  rw [List.mem_toFinset, mem_ancestors positive]
  exact ⟨below, by omega⟩

/-! ## What a turn changes -/

section

variable {node : Nat} {out_token token : String} {lc rc : ShareVec Leaf}

theorem node?_turnWorld (token_ne : token ≠ "root") :
    (turnWorld fns node out_token lc rc w).node? token =
      if token = out_token then some (fns.merge_fn w.calls lc rc)
      else w.node? token := by
  unfold turnWorld
  by_cases top : node = 1
  · simp only [top, if_true]
    rw [World.node?_saveRoot _ token_ne, World.node?_called,
      World.node?_saveNode, World.node?_called]
  · simp only [top, if_false]
    rw [World.node?_saveNode, World.node?_called]

theorem absent_turnWorld
    (token_ne : token ≠ "root")
    (different : token ≠ out_token) :
    (turnWorld fns node out_token lc rc w).Absent token ↔ w.Absent token := by
  unfold turnWorld
  by_cases top : node = 1
  · simp only [top, if_true]
    rw [World.absent_saveRoot _ token_ne, World.absent_called,
      World.absent_saveNode _ different, World.absent_called]
  · simp only [top, if_false]
    rw [World.absent_saveNode _ different, World.absent_called]

theorem nodeAt_turnWorld
    (shape : maps.Shape)
    (found : maps.phi_r.get? node = some out_token)
    (other : Nat) :
    nodeAt maps (turnWorld fns node out_token lc rc w) other =
      if other = node then some (fns.merge_fn w.calls lc rc)
      else nodeAt maps w other := by
  by_cases same : other = node
  · rw [if_pos same, same, nodeAt_eq_of_token found,
      node?_turnWorld (shape.token_ne_root found), if_pos rfl]
  · rw [if_neg same]
    apply nodeAt_congr rfl
    intro token other_found
    rw [node?_turnWorld (shape.token_ne_root other_found), if_neg]
    rintro rfl
    exact same (shape.injective other_found found)

theorem settled_turnWorld
    [Zero Root]
    [Zero R]
    [One R]
    (computes : I.Computes fns)
    (shape : maps.Shape)
    (found : maps.phi_r.get? 1 = some out_token)
    (root_node : ShareVec Root) :
    Settled I maps (turnRoot fns 1 lc rc root_node w)
      (turnWorld fns 1 out_token lc rc w) := by
  refine ⟨fns.merge_fn w.calls lc rc, turnRoot fns 1 lc rc root_node w,
    ?_, ?_, ?_, ?_⟩
  · rw [nodeAt_turnWorld shape found, if_pos rfl]
  · simp only [turnRoot, if_true]
    rw [computes.ring_conv]
  · simp only [turnWorld, turnRoot, if_true]
    rw [World.root?_saveRoot]
    rfl
  · simp only [turnRoot, if_true]
    rw [computes.ring_conv]

/-- After its turn a node is no longer pending. -/
theorem Merging.turn
    [Zero Root]
    [Zero R]
    [One R]
    (merging : Merging I maps (node :: rest) w)
    (computes : I.Computes fns)
    (shape : maps.Shape)
    (pending : Pending maps.leaf_num (node :: rest))
    (found : maps.phi_r.get? node = some out_token)
    (left : nodeAt maps w (2 * node) = some lc)
    (right : nodeAt maps w (2 * node + 1) = some rc) :
    Merging I maps rest (turnWorld fns node out_token lc rc w) := by
  have bounds := pending.inside node (by simp)
  have others : ∀ other,
      nodeAt maps (turnWorld fns node out_token lc rc w) other =
        if other = node then some (fns.merge_fn w.calls lc rc)
        else nodeAt maps w other := nodeAt_turnWorld shape found
  refine ⟨?_, ?_, ?_⟩
  · intro other member
    have leaf := Finset.mem_Ico.mp member
    rw [others, if_neg (by omega)]
    exact merging.leaf other member
  · intro other positive internal done
    by_cases same : other = node
    · refine ⟨fns.merge_fn w.calls lc rc, lc, rc, ?_, ?_, ?_, ?_⟩
      · rw [others, if_pos same]
      · rw [others, if_neg (by omega), same, left]
      · rw [others, if_neg (by omega), same, right]
      · exact computes.merge _ _ _
    · -- The parent of the node is pending, so this is not its parent.
      have child : other ≠ node / 2 := by
        rintro rfl
        rcases List.mem_cons.mp
          (pending.parent node (by simp) (by omega)) with half | member
        · omega
        · exact done member
      refine (merging.merged other positive internal
        (by simp [same, done])).congr ?_ ?_ ?_
      · rw [others, if_neg same]
      · rw [others, if_neg (by omega)]
      · rw [others, if_neg (by omega)]
  · intro token token_ne absent
    rw [absent_turnWorld token_ne]
    · exact merging.stale token token_ne absent
    · rintro rfl
      exact absent (Dict.mem_of_get? ((shape.inverse _ _).mpr found))

/-- The children of the next node are there. -/
theorem Merging.children
    (merging : Merging I maps (node :: rest) w)
    (pending : Pending maps.leaf_num (node :: rest))
    (child : Nat)
    (below : child / 2 = node) :
    ∃ value, nodeAt maps w child = some value := by
  have bounds := pending.inside node (by simp)
  rcases Nat.lt_or_ge child maps.leaf_num with internal | leaf
  · have done : child ∉ node :: rest := by
      intro member
      rcases List.mem_cons.mp member with same | member
      · omega
      · have := (List.pairwise_cons.mp pending.sorted).1 child member
        omega
    obtain ⟨value, _, _, found, _⟩ :=
      merging.merged child (by omega) internal done
    exact ⟨value, found⟩
  · exact merging.leaf child (Finset.mem_Ico.mpr (by omega))

end

/-! ## The whole loop -/

/-- The loop merges every pending node; when there is one, the root is settled
in the end. -/
theorem run_loop
    [Zero Root]
    [Zero R]
    [One R]
    (computes : I.Computes fns)
    (shape : m.Shape)
    (pending : Pending m.leaf_num nodes)
    (merging : Merging I m.toMaps nodes w) :
    ∃ root_node w',
      run (handler fns) (forM nodes mergeNode) (m, w) =
        (.returned (), { m with root_node := root_node }, w') ∧
      Merging I m.toMaps [] w' ∧
      (∀ leaf ∈ leafIds m.leaf_num,
        nodeAt m.toMaps w' leaf = nodeAt m.toMaps w leaf) ∧
      (if nodes = [] then root_node = m.root_node ∧ w' = w
        else Settled I m.toMaps root_node w') := by
  induction nodes generalizing m w with
  | nil => exact ⟨m.root_node, w, rfl, merging, fun _ _ => rfl, rfl, rfl⟩
  | cons node rest inductionHypothesis =>
      have bounds := pending.inside node (by simp)
      obtain ⟨out_token, found⟩ := shape.exists_token bounds.1 (by omega)
      obtain ⟨lc, left⟩ := merging.children pending (2 * node) (by omega)
      obtain ⟨rc, right⟩ := merging.children pending (2 * node + 1) (by omega)
      have next := merging.turn computes shape pending found left right
      obtain ⟨root_node, w', rest_run, merged, leaves, root⟩ :=
        inductionHypothesis
          (m := { m with root_node := turnRoot fns node lc rc m.root_node w })
          (w := turnWorld fns node out_token lc rc w) shape pending.tail next
      refine ⟨root_node, w', ?_, merged, ?_, ?_⟩
      · rw [List.forM_cons,
          run_bind_of_returned (run_mergeNode found left right)]
        exact rest_run
      · intro leaf member
        have inside := Finset.mem_Ico.mp member
        rw [leaves leaf member, nodeAt_turnWorld shape found,
          if_neg (by omega)]
      · rw [if_neg (by simp)]
        by_cases last : rest = []
        · obtain rfl := pending.last.mpr last
          rw [if_pos last] at root
          rw [root.1, root.2]
          exact settled_turnWorld computes shape found m.root_node
        · rw [if_neg last] at root
          exact root

/-! ## The operation -/

/-- The maps behind a merge. -/
def Maps.cleaned (maps : Maps) : Maps := { maps with dirty_leaf := ∅ }

section

variable [Zero R] [One R] {root_node : ShareVec Root}

/-- A settled root has its files. -/
theorem Settled.hasRoot
    (settled : Settled I maps root_node w) : w.hasRoot = true := by
  obtain ⟨_, root, _, _, found, _⟩ := settled
  exact World.hasRoot_of_root? found

/-- The files of a settled root hold what the memory holds. -/
theorem Settled.files
    (settled : Settled I maps root_node w)
    (found : w.root? = some root) : I.value root = I.value root_node := by
  obtain ⟨_, root', _, memory, found', disk⟩ := settled
  rw [found'] at found
  obtain rfl := Option.some.inj found
  rw [memory, disk]

/-- A tree without pending nodes and with a settled root is stored. -/
theorem Merging.stored
    (merging : Merging I maps [] w)
    (shape : maps.Shape)
    (settled : Settled I maps root_node w) :
    Stored I maps.cleaned root_node w where
  shape := shape.clean
  leaf := merging.leaf
  merged := fun node_id positive internal _ =>
    merging.merged node_id positive internal (by simp)
  settled := fun _ _ => settled
  root := by
    obtain ⟨_, root, _, _, found, _⟩ := settled
    exact fun _ => ⟨root, found⟩
  rootless := by
    intro noRoot
    rw [settled.hasRoot] at noRoot
    cases noRoot
  unmerged := by
    intro noRoot
    rw [settled.hasRoot] at noRoot
    cases noRoot
  stale := merging.stale

/-- Only the ancestors of dirty leaves wait for their turn. -/
theorem Stored.merging
    (stored : Stored I maps root_node w) :
    Merging I maps.cleaned ((dirtyNodes maps.dirty_leaf).sort (· ≥ ·)) w where
  leaf := stored.leaf
  merged := by
    intro node_id positive internal done
    rw [Finset.mem_sort] at done
    exact stored.merged node_id positive internal
      (clean_of_not_mem_dirtyNodes stored.shape.dirty positive internal done)
  stale := stored.stale

theorem present_congr
    (shape : maps.Shape)
    (leaves : ∀ leaf ∈ leafIds maps.leaf_num,
      nodeAt maps w' leaf = nodeAt maps w leaf)
    (token : String) :
    present maps.cleaned w' token = present maps w token := by
  have same : maps.cleaned.hasInserted token = maps.hasInserted token := rfl
  unfold present
  rw [same]
  by_cases inserted : maps.hasInserted token = true
  · obtain ⟨node_id, found, leaf⟩ := Maps.hasInserted_iff.mp inserted
    have found' := (shape.inverse _ _).mp found
    rw [if_pos inserted, if_pos inserted,
      ← nodeAt_eq_of_token found', ← nodeAt_eq_of_token found']
    exact leaves node_id
      (Finset.mem_Ico.mpr ⟨leaf, (shape.inside found').2⟩)
  · rw [if_neg inserted, if_neg inserted]

/-- What every `execute_merge` of a valid cache comes to. -/
structure MergeResult
    [Zero Root]
    (I : Meaning Leaf Root Index R)
    (maps : Maps)
    (w : World Leaf Root)
    (root_node : ShareVec Root)
    (w' : World Leaf Root) : Prop where
  stored : Stored I maps.cleaned root_node w'
  leafless : maps.leaf_num = 0 -> root_node = { this_share := 0, nxt_share := 0 }
  files : ∀ root, w'.root? = some root -> I.value root = I.value root_node
  present : ∀ token, present maps.cleaned w' token = present maps w token

variable [Zero Root]

theorem run_mergeNone
    (fns : Functions Leaf Root)
    (stored : Stored I m.toMaps m.root_node w)
    (leafless : m.leaf_num = 0) :
    ∃ root_node w',
      run (handler fns) mergeNone (m, w) =
        (.returned (),
          { m with toMaps := m.cleaned, root_node := root_node }, w') ∧
      MergeResult I m.toMaps w root_node w' := by
  refine ⟨{ this_share := 0, nxt_share := 0 }, w.unlinkNode "root", rfl,
    ?_, fun _ => rfl, ?_, ?_⟩
  · refine ⟨stored.shape.clean, ?_, ?_, ?_, ?_, ?_, ?_, ?_⟩
    · intro node_id member
      have bounds := Finset.mem_Ico.mp member
      have none : m.toMaps.cleaned.leaf_num = 0 := leafless
      omega
    · intro node_id positive internal
      have none : m.toMaps.cleaned.leaf_num = 0 := leafless
      omega
    · intro _ some_leaf
      have none : m.toMaps.cleaned.leaf_num = 0 := leafless
      omega
    · simp
    · intro _ node_id member
      have bounds := Finset.mem_Ico.mp member
      have none : m.toMaps.cleaned.leaf_num = 0 := leafless
      omega
    · intro _ node_id token internal
      have none : m.toMaps.cleaned.leaf_num = 0 := leafless
      omega
    · intro token token_ne absent
      rw [World.absent_unlinkNode]
      exact .inr (stored.stale token token_ne absent)
  · intro root found
    have gone := World.hasRoot_of_root? found
    rw [World.hasRoot_unlinkNode_root] at gone
    cases gone
  · apply present_congr stored.shape
    intro leaf member
    have bounds := Finset.mem_Ico.mp member
    omega

theorem run_mergeSingle
    (computes : I.Computes fns)
    (stored : Stored I m.toMaps m.root_node w)
    (single : m.leaf_num = 1) :
    ∃ root_node w',
      run (handler fns) mergeSingle (m, w) =
        (.returned (),
          { m with toMaps := m.cleaned, root_node := root_node }, w') ∧
      MergeResult I m.toMaps w root_node w' := by
  have merging : ∀ w' : World Leaf Root,
      (∀ token, token ≠ "root" -> w'.node? token = w.node? token) ->
      (∀ token, token ≠ "root" -> (w'.Absent token ↔ w.Absent token)) ->
      Merging I m.toMaps [] w' ∧ ∀ leaf ∈ leafIds m.leaf_num,
        nodeAt m.toMaps w' leaf = nodeAt m.toMaps w leaf := by
    intro w' nodes absents
    have same : ∀ node_id, nodeAt m.toMaps w' node_id =
        nodeAt m.toMaps w node_id := fun node_id =>
      nodeAt_congr rfl fun token found =>
        nodes token (stored.shape.token_ne_root found)
    refine ⟨⟨?_, ?_, ?_⟩, fun leaf _ => same leaf⟩
    · intro node_id member
      rw [same]
      exact stored.leaf node_id member
    · intro node_id positive internal
      omega
    · intro token token_ne absent
      rw [absents token token_ne]
      exact stored.stale token token_ne absent
  unfold mergeSingle
  rw [run_bind_of_returned run_rootFilesExist, run_bind_of_returned run_get]
  by_cases stale : m.dirty_leaf ≠ ∅ ∨ w.hasRoot = false
  · rw [if_pos stale]
    obtain ⟨token, found⟩ := stored.shape.exists_token (le_refl 1) (by omega)
    obtain ⟨leaf, leaf_found⟩ := stored.leaf 1 (Finset.mem_Ico.mpr (by omega))
    have token_found := leaf_found
    rw [nodeAt_eq_of_token found] at token_found
    obtain ⟨merging, leaves⟩ := merging
      (w.called.saveRoot (fns.ring_conv_fn w.calls leaf))
      (fun token token_ne => World.node?_saveRoot _ token_ne)
      (fun token token_ne => World.absent_saveRoot _ token_ne)
    have settled : Settled I m.toMaps (fns.ring_conv_fn w.calls leaf)
        (w.called.saveRoot (fns.ring_conv_fn w.calls leaf)) := by
      refine ⟨leaf, fns.ring_conv_fn w.calls leaf, ?_, computes.ring_conv _ _,
        World.root?_saveRoot _, computes.ring_conv _ _⟩
      rw [leaves 1 (Finset.mem_Ico.mpr (by omega))]
      exact leaf_found
    refine ⟨fns.ring_conv_fn w.calls leaf, _, ?_,
      merging.stored stored.shape settled, by omega,
      fun root found => settled.files found,
      present_congr stored.shape leaves⟩
    · rw [run_bind_of_returned (run_item found _),
        run_bind_of_returned (run_loadNode token_found),
        run_bind_of_returned (run_ringConv _),
        run_bind_of_returned run_saveRoot]
      rfl
  · rw [if_neg stale]
    rw [not_or, not_not] at stale
    obtain ⟨merging, leaves⟩ := merging w (fun _ _ => rfl) (fun _ _ => Iff.rfl)
    have settled := stored.settled stale.1 (by omega)
    exact ⟨m.root_node, w, rfl, merging.stored stored.shape settled, by omega,
      fun root found => settled.files found, present_congr stored.shape leaves⟩

theorem run_mergeTree
    (computes : I.Computes fns)
    (stored : Stored I m.toMaps m.root_node w)
    (many : 2 ≤ m.leaf_num) :
    ∃ root_node w',
      run (handler fns) mergeTree (m, w) =
        (.returned (),
          { m with toMaps := m.cleaned, root_node := root_node }, w') ∧
      MergeResult I m.toMaps w root_node w' := by
  have pending := pending_dirtyNodes stored.shape.dirty
  have merging := stored.merging
  obtain ⟨root_node, w', loop, merged, leaves, root⟩ :=
    run_loop (m := { m with toMaps := m.cleaned }) computes stored.shape.clean
      pending merging
  have settled : Settled I m.toMaps root_node w' := by
    by_cases none : (dirtyNodes m.dirty_leaf).sort (· ≥ ·) = []
    · rw [if_pos none] at root
      rw [root.1, root.2]
      refine stored.settled ?_ (by omega)
      apply Finset.eq_empty_of_forall_notMem
      intro leaf member
      have bounds := Finset.mem_Ico.mp (stored.shape.dirty member)
      have ancestor : 1 ∈ dirtyNodes m.dirty_leaf :=
        Finset.mem_biUnion.mpr ⟨leaf, member, by
          rw [List.mem_toFinset, mem_ancestors (le_refl 1)]
          exact ⟨below_one (by omega), by omega⟩⟩
      rw [← Finset.mem_sort (· ≥ ·), none] at ancestor
      simp at ancestor
    · rw [if_neg none] at root
      exact root
  refine ⟨root_node, w', ?_,
    Merging.stored ⟨merged.leaf, merged.merged, merged.stale⟩ stored.shape
      settled, by omega, fun root found => settled.files found,
    present_congr stored.shape leaves⟩
  unfold mergeTree
  rw [run_bind_of_returned run_get, run_bind_of_returned (run_modify _)]
  exact loop

/-- Every `execute_merge` of a valid cache succeeds. -/
theorem run_executeMerge
    (cfg : Config)
    (computes : I.Computes fns)
    (valid : m.corrupted = false)
    (stored : Stored I m.toMaps m.root_node w) :
    ∃ root_node w',
      run (handler fns) (executeMerge cfg) (m, w) =
        (.returned (),
          committed cfg { m with root_node := root_node } m.cleaned w') ∧
      MergeResult I m.toMaps w root_node w' := by
  have marked : Stored I m.toMaps m.root_node
      (w.dumpMeta (dirtyMeta cfg m.toMaps)) := stored.dumpMeta _
  have ends : ∃ root_node w',
      run (handler fns)
        (if m.leaf_num = 0 then mergeNone
          else if m.leaf_num = 1 then mergeSingle else mergeTree)
        ({ m with corrupted := true }, w.dumpMeta (dirtyMeta cfg m.toMaps)) =
        (.returned (),
          { m with toMaps := m.cleaned, corrupted := true,
                   root_node := root_node }, w') ∧
      MergeResult I m.toMaps (w.dumpMeta (dirtyMeta cfg m.toMaps)) root_node
        w' := by
    by_cases leafless : m.leaf_num = 0
    · rw [if_pos leafless]
      exact run_mergeNone fns (m := { m with corrupted := true }) marked
        leafless
    · rw [if_neg leafless]
      by_cases single : m.leaf_num = 1
      · rw [if_pos single]
        exact run_mergeSingle (m := { m with corrupted := true }) computes
          marked single
      · rw [if_neg single]
        exact run_mergeTree (m := { m with corrupted := true }) computes
          marked (by show 2 ≤ m.leaf_num; omega)
  obtain ⟨root_node, w', body, result⟩ := ends
  refine ⟨root_node, w', ?_, result.stored, result.leafless, result.files,
    fun token => ?_⟩
  · unfold executeMerge
    rw [run_bind_of_returned (run_checkCorrupted valid),
      run_bind_of_returned run_markCorrupted, run_bind_of_returned run_get]
    dsimp only
    split at body
    · next leafless =>
        rw [if_pos leafless]
        exact run_bind_of_returned body _
    · next some_leaf =>
        rw [if_neg some_leaf]
        split at body
        · next single =>
            rw [if_pos single]
            exact run_bind_of_returned body _
        · next several =>
            rw [if_neg several]
            exact run_bind_of_returned body _
  · rw [result.present, present_dumpMeta]

end

end TreeCache
end Mpmt
