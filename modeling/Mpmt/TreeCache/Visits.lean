import Mpmt.TreeCache.Refines
import Mpmt.TreeCache.Restart

/-!
# The nodes that joint calls are about

Of the commands of a run, the loads and saves of nodes and the joint calls,
with the numbers of the nodes in place of their tokens and without contents.  A
merge or a conversion is given what was loaded or saved right before it.
-/

namespace Mpmt
namespace TreeCache

open Effects Heap

variable {Leaf Root Index R : Type} {fns : Functions Leaf Root} {cfg : Config}
variable {maps : Maps} {m : Cache Root} {w : World Leaf Root}

/-! ## Visits -/

/-- The load or save of one share of a node, or a joint call. -/
inductive Visit
  | load (node_id : Nat)
  | save (node_id : Nat)
  | merge
  | ring_conv
  deriving DecidableEq, Repr

/-- The node to which a file belongs. -/
def Maps.nodeOf (maps : Maps) (path : String) : Option Nat :=
  (maps.phi_f.entries.find? fun entry =>
    path = thisPath entry.1 ∨ path = nxtPath entry.1).map Prod.snd

def Command.visit? (maps : Maps) : Command Leaf Root -> Option Visit
  | .load_leaf path => (maps.nodeOf path).map .load
  | .save_leaf path _ => (maps.nodeOf path).map .save
  | .merge _ _ => some .merge
  | .ring_conv _ => some .ring_conv
  | _ => none

/-- The visits of a run, in their order. -/
def visits
    (fns : Functions Leaf Root)
    (maps : Maps)
    (prog : CacheM Leaf Root Out)
    (s : Cache Root × World Leaf Root) : List Visit :=
  (commands (handler fns) prog s).filterMap (Command.visit? maps)

theorem visits_bind
    {prog : CacheM Leaf Root Out}
    {s s' : Cache Root × World Leaf Root}
    (first : run (handler fns) prog s = (.returned out, s'))
    (next : Out -> CacheM Leaf Root Out') :
    visits fns maps (prog >>= next) s =
      visits fns maps prog s ++ visits fns maps (next out) s' := by
  rw [visits, commands_bind_of_returned first, List.filterMap_append]
  rfl

/-- Behind a part without visits. -/
theorem visits_bind_of_nil
    {prog : CacheM Leaf Root Out}
    {s s' : Cache Root × World Leaf Root}
    (first : run (handler fns) prog s = (.returned out, s'))
    (none : visits fns maps prog s = [])
    (next : Out -> CacheM Leaf Root Out') :
    visits fns maps (prog >>= next) s = visits fns maps (next out) s' := by
  rw [visits_bind first, none, List.nil_append]

/-! ## Parts of programs -/

/-- Both files of a node belong to it. -/
theorem Maps.Shape.nodeOf
    (shape : maps.Shape)
    (found : maps.phi_r.get? node_id = some token) :
    maps.nodeOf (thisPath token) = some node_id ∧
      maps.nodeOf (nxtPath token) = some node_id := by
  have entry : (token, node_id) ∈ maps.phi_f.entries :=
    Dict.mem_entries_iff.mpr ((shape.inverse _ _).mpr found)
  have only : ∀ path, path = thisPath token ∨ path = nxtPath token ->
      maps.nodeOf path = some node_id := by
    intro path belongs
    have some : (maps.phi_f.entries.find? fun entry =>
        path = thisPath entry.1 ∨ path = nxtPath entry.1).isSome := by
      rw [List.find?_isSome]
      exact ⟨_, entry, by simpa using belongs⟩
    obtain ⟨⟨token', node_id'⟩, first⟩ := Option.isSome_iff_exists.mp some
    have holds := List.find?_some first
    have member := Dict.mem_entries_iff.mp (List.mem_of_find?_eq_some first)
    have same : token' = token := by
      rcases belongs with rfl | rfl
      · simpa [eq_comm] using holds
      · simpa [eq_comm] using holds
    rw [same, (shape.inverse _ _).mpr found] at member
    rw [Maps.nodeOf, first]
    exact congrArg _ (Option.some.inj member).symm
  exact ⟨only _ (.inl rfl), only _ (.inr rfl)⟩

@[simp]
theorem visits_item
    [DecidableEq K]
    (d : Dict K V)
    (key : K)
    (name : String)
    (s : Cache Root × World Leaf Root) :
    visits fns maps (item d key name) s = [] := by
  unfold item
  cases d.get? key with
  | none => rfl
  | some value => rfl

@[simp]
theorem visits_call
    (cmd : Command Leaf Root)
    (s : Cache Root × World Leaf Root) :
    visits fns maps (call (I := cacheInterface Leaf Root) cmd) s =
      (Command.visit? maps cmd).toList := by
  rw [visits, commands_call]
  cases visit : Command.visit? maps cmd with
  | none => simp [visit]
  | some visit => simp [visit]

theorem visits_loadNode
    (shape : maps.Shape)
    (found : maps.phi_r.get? node_id = some token)
    (there : w.node? token = some node) :
    visits fns maps (loadNode token) (m, w) =
      [.load node_id, .load node_id] := by
  obtain ⟨this_file, nxt_file⟩ := World.node?_eq_some_iff.mp there
  obtain ⟨first, second⟩ := shape.nodeOf found
  have first_load : (handler fns).handle (.load_leaf (thisPath token)) w =
      (.ok node.this_share, w) := congrArg (·, w) (World.load_eq this_file)
  have second_load : (handler fns).handle (.load_leaf (nxtPath token)) w =
      (.ok node.nxt_share, w) := congrArg (·, w) (World.load_eq nxt_file)
  unfold loadNode
  rw [visits_bind (run_call_ok first_load),
    visits_bind (run_call_ok second_load), visits_call, visits_call]
  simp only [Command.visit?, first, second]
  rfl

theorem visits_saveNode
    (shape : maps.Shape)
    (found : maps.phi_r.get? node_id = some token)
    (node : ShareVec Leaf) :
    visits fns maps (saveNode token node) (m, w) =
      [.save node_id, .save node_id] := by
  obtain ⟨first, second⟩ := shape.nodeOf found
  have both : commands (handler fns) (saveNode token node) (m, w) =
      [.save_leaf (thisPath token) node.this_share,
        .save_leaf (nxtPath token) node.nxt_share] := rfl
  rw [visits, both]
  simp [Command.visit?, first, second]

theorem visits_ringConv (sv : ShareVec Leaf) :
    visits fns maps (ringConv sv) (m, w) = [.ring_conv] := rfl

theorem visits_saveRoot : visits fns maps saveRoot (m, w) = [] := rfl

theorem visits_loadRoot
    {root : ShareVec Root}
    (found : w.root? = some root) :
    visits fns maps loadRoot (m, w) = [] := by
  obtain ⟨first, second⟩ := World.root?_eq_some_iff.mp found
  have first_load : (handler fns).handle (.load_root rootThisPath) w =
      (.ok root.this_share, w) := congrArg (·, w) (World.load_eq first)
  have second_load : (handler fns).handle (.load_root rootNxtPath) w =
      (.ok root.nxt_share, w) := congrArg (·, w) (World.load_eq second)
  unfold loadRoot
  rw [visits_bind_of_nil (run_call_ok first_load) (visits_call _ _),
    visits_bind_of_nil (run_call_ok second_load) (visits_call _ _)]
  rfl

/-! ## `execute_merge` -/

/-- A turn of the loop loads the two children, merges them and saves the node;
at the top it converts it. -/
def nodeVisits (node : Nat) : List Visit :=
  [.load (node * 2), .load (node * 2), .load (node * 2 + 1),
    .load (node * 2 + 1), .merge, .save node, .save node] ++
    if node = 1 then [.ring_conv] else []

/-- The visits of `execute_merge`. -/
def mergeVisits
    (leaf_num : Nat)
    (dirty_leaf : Finset Nat)
    (hasRoot : Bool) : List Visit :=
  if leaf_num = 0 then []
  else if leaf_num = 1 then
    if dirty_leaf ≠ ∅ ∨ hasRoot = false then [.load 1, .load 1, .ring_conv]
    else []
  else ((dirtyNodes dirty_leaf).sort (· ≥ ·)).flatMap nodeVisits

theorem visits_mergeNode
    (shape : m.Shape)
    (found : m.phi_r.get? node = some out_token)
    (left : nodeAt m.toMaps w (2 * node) = some lc)
    (right : nodeAt m.toMaps w (2 * node + 1) = some rc) :
    visits fns m.toMaps (mergeNode node) (m, w) = nodeVisits node := by
  obtain ⟨lc_token, left_found, lc_found⟩ := Option.bind_eq_some_iff.mp left
  obtain ⟨rc_token, right_found, rc_found⟩ := Option.bind_eq_some_iff.mp right
  rw [Nat.mul_comm] at left_found right_found
  have merged : (handler fns).handle (.merge lc rc) w =
      (.ok (fns.merge_fn w.calls lc rc), w.called) := rfl
  unfold mergeNode
  rw [visits_bind_of_nil run_get rfl,
    visits_bind_of_nil (run_item found _) (visits_item _ _ _ _),
    visits_bind_of_nil (run_item left_found _) (visits_item _ _ _ _),
    visits_bind_of_nil (run_item right_found _) (visits_item _ _ _ _),
    visits_bind (run_loadNode lc_found), visits_bind (run_loadNode rc_found),
    visits_bind (run_call_ok merged), visits_bind (run_saveNode _),
    visits_loadNode shape left_found lc_found,
    visits_loadNode shape right_found rc_found, visits_call,
    visits_saveNode shape found]
  by_cases top : node = 1
  · rw [if_pos top, visits_bind (run_ringConv _), visits_ringConv,
      visits_saveRoot, nodeVisits, if_pos top]
    rfl
  · rw [if_neg top, nodeVisits, if_neg top]
    rfl

variable {I : Meaning Leaf Root Index R} [Zero Root] [Zero R] [One R]

/-- The loop over the pending nodes. -/
theorem visits_loop
    (computes : I.Computes fns)
    (shape : m.Shape)
    (pending : Pending m.leaf_num nodes)
    (merging : Merging I m.toMaps nodes w) :
    visits fns m.toMaps (forM nodes mergeNode) (m, w) =
      nodes.flatMap nodeVisits := by
  induction nodes generalizing m w with
  | nil => rfl
  | cons node rest inductionHypothesis =>
      have bounds := pending.inside node (by simp)
      obtain ⟨out_token, found⟩ := shape.exists_token bounds.1 (by omega)
      obtain ⟨lc, left⟩ := merging.children pending (2 * node) (by omega)
      obtain ⟨rc, right⟩ := merging.children pending (2 * node + 1) (by omega)
      have next := merging.turn computes shape pending found left right
      rw [List.forM_cons, visits_bind (run_mergeNode found left right),
        visits_mergeNode shape found left right, List.flatMap_cons]
      exact congrArg _ (inductionHypothesis
        (m := { m with root_node := turnRoot fns node lc rc m.root_node w })
        shape pending.tail next)

omit [Zero Root] in
theorem visits_mergeSingle
    (stored : Stored I m.toMaps m.root_node w)
    (single : m.leaf_num = 1) :
    visits fns m.toMaps mergeSingle (m, w) =
      mergeVisits m.leaf_num m.dirty_leaf w.hasRoot := by
  have looks : visits fns m.toMaps rootFilesExist (m, w) = [] := by
    unfold rootFilesExist
    rw [visits_bind_of_nil (run_pathExists _) rfl]
    split
    · rfl
    · rfl
  rw [mergeVisits, if_neg (by omega), if_pos single]
  unfold mergeSingle
  rw [visits_bind_of_nil run_rootFilesExist looks,
    visits_bind_of_nil run_get rfl]
  by_cases stale : m.dirty_leaf ≠ ∅ ∨ w.hasRoot = false
  · rw [if_pos stale, if_pos stale]
    obtain ⟨token, found⟩ := stored.shape.exists_token (le_refl 1) (by omega)
    obtain ⟨leaf, leaf_found⟩ := stored.leaf 1 (Finset.mem_Ico.mpr (by omega))
    rw [nodeAt_eq_of_token found] at leaf_found
    rw [visits_bind_of_nil (run_item found _) (visits_item _ _ _ _),
      visits_bind (run_loadNode leaf_found), visits_bind (run_ringConv _),
      visits_loadNode stored.shape found leaf_found, visits_ringConv,
      visits_bind_of_nil run_saveRoot visits_saveRoot]
    rfl
  · rw [if_neg stale, if_neg stale]
    rfl

theorem visits_mergeTree
    (computes : I.Computes fns)
    (stored : Stored I m.toMaps m.root_node w)
    (many : 2 ≤ m.leaf_num) :
    visits fns m.toMaps mergeTree (m, w) =
      mergeVisits m.leaf_num m.dirty_leaf w.hasRoot := by
  have pending := pending_dirtyNodes stored.shape.dirty
  have merging := stored.merging
  rw [mergeVisits, if_neg (by omega), if_neg (by omega)]
  unfold mergeTree
  rw [visits_bind_of_nil run_get rfl, visits_bind_of_nil (run_modify _) rfl]
  exact visits_loop (m := { m with toMaps := m.cleaned }) computes
    stored.shape.clean pending merging

/-- The visits of `execute_merge` are a function of the number of leaves, the
dirty leaves and whether the root has its files. -/
theorem visits_executeMerge
    (computes : I.Computes fns)
    (valid : m.corrupted = false)
    (stored : Stored I m.toMaps m.root_node w) :
    visits fns m.toMaps (executeMerge cfg) (m, w) =
      mergeVisits m.leaf_num m.dirty_leaf w.hasRoot := by
  have marked : Stored I m.toMaps m.root_node
      (w.dumpMeta (dirtyMeta cfg m.toMaps)) := stored.dumpMeta _
  have root : (w.dumpMeta (dirtyMeta cfg m.toMaps)).hasRoot = w.hasRoot :=
    World.hasRoot_dumpMeta _
  unfold executeMerge
  rw [visits_bind_of_nil (run_checkCorrupted valid) ?unmarked,
    visits_bind_of_nil run_markCorrupted rfl, visits_bind_of_nil run_get rfl]
  case unmarked =>
    unfold checkCorrupted
    rw [visits_bind_of_nil run_get rfl, if_neg (by simp [valid])]
    rfl
  dsimp only
  -- The two marks around the merge visit no node.
  have around : ∀ {body : CacheM Leaf Root Unit} {s'},
      run (handler fns) body ({ m with corrupted := true },
        w.dumpMeta (dirtyMeta cfg m.toMaps)) = (.returned (), s') ->
      visits fns m.toMaps (body >>= fun _ => markValid cfg)
          ({ m with corrupted := true },
            w.dumpMeta (dirtyMeta cfg m.toMaps)) =
        visits fns m.toMaps body ({ m with corrupted := true },
          w.dumpMeta (dirtyMeta cfg m.toMaps)) := by
    intro body s' ended
    rw [visits_bind ended]
    exact List.append_nil _
  rw [← root]
  by_cases leafless : m.leaf_num = 0
  · obtain ⟨_, _, ended, _⟩ := run_mergeNone fns
      (m := { m with corrupted := true }) marked leafless
    rw [if_pos leafless, mergeVisits, if_pos leafless]
    exact (around ended).trans rfl
  · rw [if_neg leafless]
    by_cases single : m.leaf_num = 1
    · obtain ⟨_, _, ended, _⟩ := run_mergeSingle
        (m := { m with corrupted := true }) computes marked single
      rw [if_pos single]
      exact (around ended).trans
        (visits_mergeSingle (m := { m with corrupted := true }) marked single)
    · have many : 2 ≤ m.leaf_num := by omega
      obtain ⟨_, _, ended, _⟩ := run_mergeTree
        (m := { m with corrupted := true }) computes marked many
      rw [if_neg single]
      exact (around ended).trans
        (visits_mergeTree (m := { m with corrupted := true }) computes marked
          many)

/-! ## The constructor -/

/-- The visits of the constructor. -/
def constructVisits (leaf_num : Nat) (hasRoot : Bool) : List Visit :=
  if leaf_num = 1 ∧ hasRoot = false then [.load 1, .load 1, .ring_conv] else []

omit [Zero Root] in
theorem visits_recoverRoot
    {root_node : ShareVec Root}
    (stored : Stored I m.toMaps root_node w)
    (some_leaf : m.leaf_num ≠ 0)
    (noRoot : w.hasRoot = false) :
    visits fns m.toMaps recoverRoot (m, w) =
      constructVisits m.leaf_num w.hasRoot := by
  obtain ⟨root_token, found⟩ := stored.shape.exists_token (le_refl 1) (by omega)
  unfold recoverRoot
  rw [visits_bind_of_nil run_get rfl,
    visits_bind_of_nil (run_item found _) (visits_item _ _ _ _),
    visits_bind_of_nil (run_pathExists _) rfl,
    visits_bind_of_nil (run_pathExists _) rfl]
  by_cases single : m.leaf_num = 1
  · obtain ⟨node, leaf⟩ := stored.leaf 1 (Finset.mem_Ico.mpr (by omega))
    rw [nodeAt_eq_of_token found] at leaf
    have both := World.hasNode_of_node? leaf
    rw [World.hasNode, Bool.and_eq_true] at both
    rw [if_pos both, visits_bind (run_loadNode leaf),
      visits_bind (run_ringConv _), visits_loadNode stored.shape found leaf,
      visits_ringConv, visits_saveRoot, constructVisits,
      if_pos ⟨single, noRoot⟩]
    rfl
  · have absent := stored.unmerged noRoot 1 root_token (by omega) found
    have missing : ¬ ((w.disk.get? (thisPath root_token)).isSome = true ∧
        (w.disk.get? (nxtPath root_token)).isSome = true) := by
      rw [absent.1]
      simp
    rw [if_neg missing, if_neg single, constructVisits,
      if_neg (fun both => single both.1)]
    rfl

omit [Zero Root] in
/-- So are those of the constructor. -/
theorem visits_construct
    {holders : String -> Option (ShareVec Leaf)}
    (live : Live I cfg (m, w) holders)
    (alloc : ShareVec Root) :
    visits fns m.toMaps (construct cfg) (initial alloc, w) =
      constructVisits m.leaf_num w.hasRoot := by
  rcases live.document with document | ⟨empty, blank⟩
  · have document' : w.meta? = some (.json (validMeta cfg m.toMaps)) := document
    have there : (w.disk.get? metaPath).isSome = true := by
      have found : w.disk.get? metaPath = _ := document'
      rw [found]
      rfl
    have loaded := loadMeta_valid live.stored.shape m.toMaps.printable_none
      cfg.bf_size cfg.ell_root
    have known : loadMeta none cfg.bf_size cfg.ell_root (validMeta cfg m.toMaps) =
        .ok m.toMaps := loaded
    unfold construct constructWithin
    rw [visits_bind_of_nil (run_pathExists _) rfl, if_pos there,
      visits_bind_of_nil
        (run_tryExcept_of_returned _ (run_loadJson document')) ?document]
    case document =>
      simp only [visits, loadJson, call, Prog.tryExcept, commands]
      split
      · rfl
      · rfl
    simp only [known]
    rw [visits_bind_of_nil (run_modify _) rfl]
    by_cases leafless : m.leaf_num = 0
    · rw [if_neg (by omega), constructVisits,
        if_neg (by show ¬ (m.leaf_num = 1 ∧ _); omega)]
      rfl
    · rw [if_pos (by omega), visits_bind_of_nil (run_pathExists _) rfl,
        visits_bind_of_nil (run_pathExists _) rfl]
      by_cases both : (w.disk.get? rootThisPath).isSome = true ∧
          (w.disk.get? rootNxtPath).isSome = true
      · have root : w.hasRoot = true := by
          rw [World.hasRoot, both.1, both.2]
          rfl
        obtain ⟨root_node, found⟩ := live.stored.root root
        rw [if_pos both, visits_loadRoot found, constructVisits, if_neg (by simp [root])]
      · have noRoot : w.hasRoot = false := by
          rw [World.hasRoot, ← Bool.not_eq_true, Bool.and_eq_true]
          exact both
        rw [if_neg both]
        exact visits_recoverRoot (m := recovered m.toMaps alloc) live.stored
          leafless noRoot
  · have leafless : m.leaf_num = 0 := congrArg Maps.leaf_num blank
    have disk : w = { disk := ∅, calls := w.calls } := by
      have empty' : w.disk = ∅ := empty
      cases w
      exact congrArg (World.mk · _) empty'
    rw [constructVisits, if_neg (by omega), disk]
    rfl

end TreeCache
end Mpmt
