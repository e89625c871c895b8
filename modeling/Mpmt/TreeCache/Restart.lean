import Mpmt.TreeCache.Live
import Mpmt.TreeCache.Load

/-!
# A cache constructed again

The constructor finds the holders, the maps and the dirty leaves of the last
valid cache of its directory.  Where the root comes from depends on the files
that are there.
-/

namespace Mpmt
namespace TreeCache

open Effects Heap

variable {Leaf Root Index R : Type}
variable {I : Meaning Leaf Root Index R} {maps : Maps} {w : World Leaf Root}
variable {fns : Functions Leaf Root} {cfg : Config} {m : Cache Root}
variable {root_node : ShareVec Root}

/-! ## The root of a new object -/

/-- The root of a new object and the files behind its construction, when
`alloc` is what the allocated memory holds. -/
inductive Recovery
    (fns : Functions Leaf Root)
    (maps : Maps)
    (alloc : ShareVec Root)
    (w : World Leaf Root) : ShareVec Root -> World Leaf Root -> Prop
  | leafless
      (none : maps.leaf_num = 0) : Recovery fns maps alloc w alloc w
  | loaded {root}
      (some_leaf : maps.leaf_num ≠ 0)
      (found : w.root? = some root) : Recovery fns maps alloc w root w
  | converted {node}
      (single : maps.leaf_num = 1)
      (noRoot : w.hasRoot = false)
      (leaf : nodeAt maps w 1 = some node) :
      Recovery fns maps alloc w (fns.ring_conv_fn w.calls node)
        (w.called.saveRoot (fns.ring_conv_fn w.calls node))
  | unmerged
      (many : 2 ≤ maps.leaf_num)
      (noRoot : w.hasRoot = false) : Recovery fns maps alloc w alloc w

/-- The object behind a construction. -/
def recovered (maps : Maps) (root_node : ShareVec Root) : Cache Root :=
  { maps with corrupted := false, root_node := root_node }

section

variable [Zero R] [One R]

private theorem dirty_ne_empty
    (stored : Stored I maps root_node w)
    (some_leaf : 1 ≤ maps.leaf_num)
    (noRoot : w.hasRoot = false) : maps.dirty_leaf ≠ ∅ := by
  intro clean
  have all := stored.rootless noRoot (Finset.mem_Ico.mpr
    (⟨le_refl _, by omega⟩ : maps.leaf_num ≤ maps.leaf_num ∧
      maps.leaf_num < 2 * maps.leaf_num))
  simp [clean] at all

/-- Whatever root is recovered, the cache is stored as before. -/
theorem Recovery.stored
    {root_node' : ShareVec Root}
    {w' : World Leaf Root}
    (recovery : Recovery fns maps alloc w root_node' w')
    (stored : Stored I maps root_node w) :
    Stored I maps root_node' w' := by
  have settle : ∀ {root}, (maps.dirty_leaf = ∅ -> 1 ≤ maps.leaf_num ->
      Settled I maps root w) -> Stored I maps root w := fun settled =>
    ⟨stored.shape, stored.leaf, stored.merged, settled, stored.root,
      stored.rootless, stored.unmerged, stored.stale⟩
  cases recovery with
  | leafless none => exact settle fun _ some_leaf => by omega
  | loaded some_leaf found =>
      refine settle fun clean positive => ?_
      obtain ⟨node, root, top, _, found', disk⟩ :=
        stored.settled clean positive
      rw [found] at found'
      obtain rfl := Option.some.inj found'
      exact ⟨node, root_node', top, disk, found, disk⟩
  | unmerged many noRoot =>
      exact settle fun clean positive =>
        absurd clean (dirty_ne_empty stored positive noRoot)
  | @converted node single noRoot leaf =>
      have same : ∀ node_id,
          nodeAt maps (w.called.saveRoot (fns.ring_conv_fn w.calls node))
            node_id = nodeAt maps w node_id := fun node_id =>
        nodeAt_congr rfl fun token found =>
          World.node?_saveRoot _ (stored.shape.token_ne_root found)
      refine ⟨stored.shape, ?_, ?_, ?_, ?_, ?_, ?_, ?_⟩
      · intro node_id member
        rw [same]
        exact stored.leaf node_id member
      · intro node_id positive internal
        omega
      · intro clean positive
        exact absurd clean (dirty_ne_empty stored positive noRoot)
      · exact fun _ => ⟨_, World.root?_saveRoot _⟩
      · intro gone
        rw [World.hasRoot_saveRoot] at gone
        cases gone
      · intro gone
        rw [World.hasRoot_saveRoot] at gone
        cases gone
      · intro token token_ne absent
        rw [World.absent_saveRoot _ token_ne]
        exact stored.stale token token_ne absent

theorem Recovery.present
    {root_node' : ShareVec Root}
    {w' : World Leaf Root}
    (recovery : Recovery fns maps alloc w root_node' w')
    (stored : Stored I maps root_node w)
    (token : String) :
    TreeCache.present maps w' token = TreeCache.present maps w token := by
  cases recovery with
  | leafless none => rfl
  | loaded some_leaf found => rfl
  | unmerged many noRoot => rfl
  | @converted node single noRoot leaf =>
      unfold TreeCache.present
      by_cases inserted : maps.hasInserted token = true
      · obtain ⟨node_id, found, _⟩ := Maps.hasInserted_iff.mp inserted
        have token_ne := stored.shape.drawn token (Dict.mem_of_get? found)
        rw [if_pos inserted, if_pos inserted, World.node?_saveRoot _ token_ne,
          World.node?_called]
      · rw [if_neg inserted, if_neg inserted]

theorem Recovery.document
    {root_node' : ShareVec Root}
    {w' : World Leaf Root}
    (recovery : Recovery fns maps alloc w root_node' w') :
    w'.meta? = w.meta? := by
  cases recovery with
  | leafless none => rfl
  | loaded some_leaf found => rfl
  | unmerged many noRoot => rfl
  | converted single noRoot leaf => rw [World.meta?_saveRoot, World.meta?_called]

/-! ## The constructor -/

theorem run_loadJson
    (document : w.meta? = some (.json value)) :
    run (handler fns) loadJson (m, w) = (.returned value, m, w) := by
  have load : (handler fns).handle (.json_load metaPath) w = (.ok value, w) := by
    have found : w.disk.get? metaPath = some (.json value) := document
    show (w.load metaPath File.json?, w) = _
    rw [World.load, found]
    rfl
  exact run_call_ok load

theorem run_recoverRoot
    (stored : Stored I m.toMaps root_node w)
    (some_leaf : m.leaf_num ≠ 0)
    (noRoot : w.hasRoot = false) :
    ∃ root_node' w',
      run (handler fns) recoverRoot (m, w) =
        (.returned (), { m with root_node := root_node' }, w') ∧
      Recovery fns m.toMaps m.root_node w root_node' w' := by
  obtain ⟨root_token, found⟩ := stored.shape.exists_token
    (le_refl 1) (by omega)
  by_cases single : m.leaf_num = 1
  · obtain ⟨node, leaf⟩ := stored.leaf 1 (Finset.mem_Ico.mpr (by omega))
    refine ⟨_, _, ?_, .converted single noRoot leaf⟩
    rw [nodeAt_eq_of_token found] at leaf
    have both := World.hasNode_of_node? leaf
    rw [World.hasNode, Bool.and_eq_true] at both
    unfold recoverRoot
    rw [run_bind_of_returned run_get, run_bind_of_returned (run_item found _),
      run_bind_of_returned (run_pathExists _),
      run_bind_of_returned (run_pathExists _), if_pos both,
      run_bind_of_returned (run_loadNode leaf),
      run_bind_of_returned (run_ringConv _), run_saveRoot]
  · refine ⟨m.root_node, w, ?_, .unmerged (by omega) noRoot⟩
    have absent := stored.unmerged noRoot 1 root_token (by omega) found
    have missing : ¬ ((w.disk.get? (thisPath root_token)).isSome = true ∧
        (w.disk.get? (nxtPath root_token)).isSome = true) := by
      rw [absent.1]
      simp
    have all : m.dirty_leaf ∪ leafIds m.leaf_num = m.dirty_leaf :=
      Finset.union_eq_left.mpr (stored.rootless noRoot)
    unfold recoverRoot
    rw [run_bind_of_returned run_get, run_bind_of_returned (run_item found _),
      run_bind_of_returned (run_pathExists _),
      run_bind_of_returned (run_pathExists _), if_neg missing, if_neg single,
      run_modify]
    simp only [all]

/-- The constructor recovers the maps of a live cache, if it can convert the
node ids. -/
theorem run_constructWithin
    {max_str_digits : Option Nat}
    (fns : Functions Leaf Root)
    (printable : m.toMaps.printable max_str_digits)
    (live : Live I cfg (m, w) holders)
    (alloc : ShareVec Root) :
    ∃ root_node w',
      run (handler fns) (constructWithin cfg max_str_digits) (initial alloc, w) =
        (.returned (), recovered m.toMaps root_node, w') ∧
      Recovery fns m.toMaps alloc w root_node w' := by
  rcases live.document with document | ⟨empty, blank⟩
  · have document' : w.meta? = some (.json (validMeta cfg m.toMaps)) := document
    have there : (w.disk.get? metaPath).isSome = true := by
      have found : w.disk.get? metaPath = _ := document'
      rw [found]
      rfl
    have loaded := loadMeta_valid live.stored.shape printable cfg.bf_size cfg.ell_root
    have known : loadMeta max_str_digits cfg.bf_size cfg.ell_root
        (validMeta cfg m.toMaps) = .ok m.toMaps := loaded
    unfold constructWithin
    rw [run_bind_of_returned (run_pathExists _), if_pos there,
      run_bind_of_returned (run_tryExcept_of_returned _ (run_loadJson document'))]
    simp only [known]
    rw [run_bind_of_returned (run_modify _)]
    by_cases leafless : m.leaf_num = 0
    · refine ⟨alloc, w, ?_, .leafless leafless⟩
      rw [if_neg (by omega)]
      rfl
    · rw [if_pos (by omega), run_bind_of_returned (run_pathExists _),
        run_bind_of_returned (run_pathExists _)]
      by_cases both : (w.disk.get? rootThisPath).isSome = true ∧
          (w.disk.get? rootNxtPath).isSome = true
      · have root : w.hasRoot = true := by
          rw [World.hasRoot, both.1, both.2]
          rfl
        obtain ⟨root_node, found⟩ := live.stored.root root
        refine ⟨root_node, w, ?_, .loaded leafless found⟩
        rw [if_pos both, run_loadRoot found]
        rfl
      · have noRoot : w.hasRoot = false := by
          rw [World.hasRoot, ← Bool.not_eq_true, Bool.and_eq_true]
          exact both
        rw [if_neg both]
        obtain ⟨root_node, w', ended, recovery⟩ := run_recoverRoot
          (m := recovered m.toMaps alloc) live.stored leafless noRoot
        exact ⟨root_node, w', ended, recovery⟩
  · have leafless : m.leaf_num = 0 := congrArg Maps.leaf_num blank
    refine ⟨alloc, w, ?_, .leafless leafless⟩
    have maps : m.toMaps = Maps.blank := blank
    have disk : w = { disk := ∅, calls := w.calls } := by
      have empty' : w.disk = ∅ := empty
      cases w
      exact congrArg (World.mk · _) empty'
    rw [disk, maps]
    rfl

theorem run_construct
    (fns : Functions Leaf Root)
    (live : Live I cfg (m, w) holders)
    (alloc : ShareVec Root) :
    ∃ root_node w',
      run (handler fns) (construct cfg) (initial alloc, w) =
        (.returned (), recovered m.toMaps root_node, w') ∧
      Recovery fns m.toMaps alloc w root_node w' :=
  run_constructWithin fns m.toMaps.printable_none live alloc

/-- A cache constructed again is live with the same holders. -/
theorem Live.recovered
    {root_node' : ShareVec Root}
    {w' : World Leaf Root}
    (live : Live I cfg (m, w) holders)
    (recovery : Recovery fns m.toMaps alloc w root_node' w') :
    Live I cfg (recovered m.toMaps root_node', w') holders where
  valid := rfl
  stored := recovery.stored live.stored
  present := fun token =>
    (recovery.present live.stored token).trans (live.present token)
  document := by
    rcases live.document with document | ⟨empty, blank⟩
    · exact .inl (recovery.document.trans document)
    · have leafless : m.leaf_num = 0 := congrArg Maps.leaf_num blank
      cases recovery with
      | leafless none => exact .inr ⟨empty, blank⟩
      | loaded some_leaf found => exact absurd leafless some_leaf
      | unmerged many noRoot => omega
      | converted single noRoot leaf => omega

end

end TreeCache
end Mpmt
