import Mathlib.Data.Bool.Basic
import Mathlib.Order.Bounds.Image
import Mpmt.TreeCache.Merge

/-!
# A valid cache and its holders

A live cache stores the filters of the holders that are present.  Each operation
ends on it, and leaves a live cache behind.
-/

namespace Mpmt
namespace TreeCache

open Effects Heap

variable {Leaf Root Index R : Type}
variable {I : Meaning Leaf Root Index R} {maps : Maps} {w : World Leaf Root}
variable {root_node : ShareVec Root}

/-! ## The union is at the top -/

open Classical in
/-- The union of the filters of all present tokens. -/
noncomputable def aggregate
    (I : Meaning Leaf Root Index R)
    (present : String -> Option (ShareVec Leaf)) : Index -> Bool :=
  fun i => decide (∃ token node, present token = some node ∧
    I.filter node i = true)

/-- The least upper bound of filters has the bits that one of them has. -/
theorem isLUB_bool
    {filters : Set (Index -> Bool)}
    (least : IsLUB filters union)
    (i : Index) :
    union i = true ↔ ∃ filter ∈ filters, filter i = true := by
  constructor
  · intro set
    by_contra none
    push Not at none
    classical
    have upper : Function.update union i false ∈ upperBounds filters := by
      intro filter member j
      by_cases same : j = i
      · rw [same, Function.update_self, Bool.eq_false_iff.mpr (none filter member)]
      · rw [Function.update_of_ne same]
        exact least.1 member j
    have below := least.2 upper i
    rw [Function.update_self, set] at below
    cases below rfl
  · rintro ⟨filter, member, set⟩
    have above := least.1 member i
    rw [set] at above
    exact Bool.eq_true_of_true_le above

/-- The filter of a node, if it has one. -/
def label
    (I : Meaning Leaf Root Index R)
    (maps : Maps)
    (w : World Leaf Root)
    (node_id : Nat) : Index -> Bool :=
  ((nodeAt maps w node_id).map I.filter).getD ⊥

theorem label_eq (found : nodeAt maps w node_id = some node) :
    label I maps w node_id = I.filter node := by
  rw [label, found]
  rfl

/-- With everything merged, the uppermost node holds the union. -/
theorem filter_top
    [Zero R]
    [One R]
    (stored : Stored I maps root_node w)
    (clean : maps.dirty_leaf = ∅)
    (top : nodeAt maps w 1 = some node) :
    I.filter node = aggregate I (present maps w) := by
  obtain ⟨token, token_found, _⟩ := Option.bind_eq_some_iff.mp top
  have inside := stored.shape.inside token_found
  have joins : ∀ node_id, 1 ≤ node_id -> node_id < maps.leaf_num ->
      label I maps w node_id =
        label I maps w (2 * node_id) ⊔ label I maps w (2 * node_id + 1) := by
    intro node_id positive internal
    obtain ⟨node, left, right, found, left_found, right_found, union⟩ :=
      stored.merged node_id positive internal (by
        intro leaf member
        simp [clean] at member)
    rw [label_eq found, label_eq left_found, label_eq right_found, union]
  have least := isLUB_label (label I maps w) maps.leaf_num joins 1 inside
  rw [label_eq top] at least
  funext i
  classical
  rw [Bool.eq_iff_iff, isLUB_bool least, aggregate, decide_eq_true_iff]
  constructor
  · rintro ⟨_, ⟨leaf, member, _, rfl⟩, set⟩
    have bounds := Finset.mem_Ico.mp member
    obtain ⟨token, found⟩ := stored.shape.exists_token
      (by omega : 1 ≤ leaf) bounds.2
    obtain ⟨node, node_found⟩ := stored.leaf leaf member
    rw [label_eq node_found] at set
    refine ⟨token, node, ?_, set⟩
    rw [present, if_pos (Maps.hasInserted_iff.mpr
      ⟨leaf, (stored.shape.inverse _ _).mpr found, bounds.1⟩),
      ← nodeAt_eq_of_token found]
    exact node_found
  · rintro ⟨token, node, there, set⟩
    unfold present at there
    split at there
    · next inserted =>
        obtain ⟨leaf, found, bound⟩ := Maps.hasInserted_iff.mp inserted
        have found' := (stored.shape.inverse _ _).mp found
        have inside := stored.shape.inside found'
        refine ⟨_, ⟨leaf, Finset.mem_Ico.mpr ⟨bound, inside.2⟩,
          below_one inside.1, rfl⟩, ?_⟩
        rw [label_eq ((nodeAt_eq_of_token found').trans there)]
        exact set
    · cases there

/-- Behind a merge the root is the embedding of the union. -/
theorem published_of_merge
    [Zero Root]
    [Zero R]
    [One R]
    {w' : World Leaf Root}
    (result : MergeResult I maps w root_node w')
    (zero : I.value { this_share := 0, nxt_share := 0 } = 0) :
    I.value root_node = embed (aggregate I (present maps w)) := by
  have same : present maps.cleaned w' = present maps w := funext result.present
  rw [← same]
  by_cases leafless : maps.leaf_num = 0
  · rw [result.leafless leafless, zero]
    funext i
    have nobody : aggregate I (present maps.cleaned w') i = false := by
      rw [aggregate, decide_eq_false_iff_not]
      rintro ⟨token, node, there, _⟩
      unfold present at there
      split at there
      · next inserted =>
          obtain ⟨leaf, found, _⟩ := Maps.hasInserted_iff.mp inserted
          have inside := result.stored.shape.inside_of_phi_f found
          have none : maps.cleaned.leaf_num = 0 := leafless
          omega
      · cases there
    rw [embed, nobody]
    rfl
  · obtain ⟨node, _, top, value, _⟩ :=
      result.stored.settled rfl (Nat.one_le_iff_ne_zero.mpr leafless)
    rw [value, filter_top result.stored rfl top]

/-! ## Live caches -/

variable [Zero R] [One R]

/-- A valid cache that stores the present holders. -/
structure Live
    (I : Meaning Leaf Root Index R)
    (cfg : Config)
    (s : Cache Root × World Leaf Root)
    (holders : String -> Option (ShareVec Leaf)) : Prop where
  valid : s.1.corrupted = false
  stored : Stored I s.1.toMaps s.1.root_node s.2
  present : ∀ token, present s.1.toMaps s.2 token = holders token
  document : s.2.meta? = some (.json (validMeta cfg s.1.toMaps)) ∨
    s.2.disk = ∅ ∧ s.1.toMaps = Maps.blank

/-- The root is the same, in memory and on disk. -/
structure SameRoot (s s' : Cache Root × World Leaf Root) : Prop where
  memory : s'.1.root_node = s.1.root_node
  files : s'.2.root? = s.2.root?

section

variable {cfg : Config} {fns : Functions Leaf Root} {m : Cache Root}
variable {holders : String -> Option (ShareVec Leaf)}

theorem sameRoot_saved
    {doc : PyJson}
    (token_ne : token ≠ "root")
    (node : ShareVec Leaf) :
    SameRoot (m, w)
      (committed cfg m maps ((w.dumpMeta doc).saveNode token node)) where
  memory := rfl
  files := by
    rw [committed, World.root?_dumpMeta, World.root?_saveNode _ token_ne,
      World.root?_dumpMeta]

theorem sameRoot_unlinked
    {doc : PyJson}
    (token_ne : token ≠ "root") :
    SameRoot (m, w)
      (committed cfg m maps ((w.dumpMeta doc).unlinkNode token)) where
  memory := rfl
  files := by
    rw [committed, World.root?_dumpMeta, World.root?_unlinkNode token_ne,
      World.root?_dumpMeta]

/-- What is committed is valid. -/
theorem live_committed
    {holders' : String -> Option (ShareVec Leaf)}
    (stored : Stored I maps m.root_node w)
    (same : ∀ token, present maps w token = holders' token) :
    Live I cfg (committed cfg m maps w) holders' where
  valid := rfl
  stored := stored.dumpMeta _
  present := fun token => (present_dumpMeta _).trans (same token)
  document := .inl (World.meta?_dumpMeta _)

theorem Live.absent
    (live : Live I cfg (m, w) holders)
    (unknown : m.phi_f.get? token = none) : holders token = none := by
  rw [← live.present, TreeCache.present, Maps.hasInserted, unknown]
  rfl

theorem Live.internal
    (live : Live I cfg (m, w) holders)
    (found : m.phi_f.get? token = some node_id)
    (internal : node_id < m.leaf_num) : holders token = none := by
  rw [← live.present, TreeCache.present, Maps.hasInserted, found]
  simp [Nat.not_le.mpr internal]

theorem Live.there
    (live : Live I cfg (m, w) holders)
    (found : m.phi_f.get? token = some node_id)
    (leaf : m.leaf_num ≤ node_id) : ∃ node, holders token = some node := by
  have found' := (live.stored.shape.inverse _ _).mp found
  obtain ⟨node, node_found⟩ := live.stored.leaf node_id
    (Finset.mem_Ico.mpr ⟨leaf, (live.stored.shape.inside found').2⟩)
  rw [nodeAt_eq_of_token found'] at node_found
  refine ⟨node, ?_⟩
  rw [← live.present, TreeCache.present,
    if_pos (Maps.hasInserted_iff.mpr ⟨node_id, found, leaf⟩)]
  exact node_found

/-- How `insert` ends: without a new token, with the first leaf, or with a
split. -/
theorem Live.run_insert
    (live : Live I cfg (m, w) holders)
    (fns : Functions Leaf Root)
    (draws : List Dpf.Bytes16)
    (node : ShareVec Leaf) :
    (run (handler fns) (TreeCache.insert cfg draws node) (m, w)).1 =
          .unfinished ∧ ¬ Supplied m.phi_f draws ∨
      (∃ token, m.leaf_num = 0 ∧ token ∉ m.phi_f ∧ token ≠ "root" ∧
        run (handler fns) (TreeCache.insert cfg draws node) (m, w) =
          (.returned token, committed cfg m ((m.placed token).dirtied 1)
            ((w.dumpMeta (dirtyMeta cfg m.toMaps)).saveNode token node))) ∨
      ∃ ori_root_token token new_root_token,
        m.Splits ori_root_token token new_root_token ∧
        run (handler fns) (TreeCache.insert cfg draws node) (m, w) =
          (.returned token, committed cfg m
            ((m.splitted ori_root_token token new_root_token).dirtied
              (m.leaf_num * 2 + 1))
            ((w.dumpMeta (dirtyMeta cfg m.toMaps)).saveNode token node)) := by
  have shape := live.stored.shape
  cases drawn : freshToken m.phi_f draws with
  | none =>
      refine .inl ⟨run_insert_exhausted live.valid drawn node, ?_⟩
      rintro ⟨first, member, _, _, new, _⟩
      exact new (old_of_freshToken drawn member)
  | some first =>
      obtain ⟨token, rest⟩ := first
      obtain ⟨fresh, token_ne⟩ := freshToken_spec drawn
      by_cases leafless : m.leaf_num = 0
      · exact .inr (.inl ⟨token, leafless, fresh, token_ne,
          run_insert_first live.valid leafless drawn node⟩)
      · obtain ⟨ori_root_token, ori⟩ := shape.exists_token
          (Nat.one_le_iff_ne_zero.mpr leafless)
          (by show m.leaf_num < 2 * m.leaf_num; omega)
        cases drawn' : freshToken (m.phi_f.set token (m.leaf_num * 2 + 1)) rest
          with
        | none =>
            exact .inl ⟨run_insert_split_exhausted live.valid leafless ori drawn
              drawn' node, not_supplied_of_exhausted drawn drawn'⟩
        | some second =>
            obtain ⟨new_root_token, rest'⟩ := second
            obtain ⟨fresh', token_ne'⟩ := freshToken_spec drawn'
            have new : new_root_token ≠ token ∧ new_root_token ∉ m.phi_f := by
              simp only [Dict.mem_iff, Dict.get?_set] at fresh' ⊢
              grind
            have ori_ne : ori_root_token ≠ token := by
              rintro rfl
              exact fresh (Dict.mem_of_get? ((shape.inverse _ _).mpr ori))
            exact .inr (.inr ⟨ori_root_token, token, new_root_token,
              ⟨leafless, ori, fresh, token_ne, new.2, token_ne', new.1⟩,
              run_insert_split live.valid leafless ori drawn drawn' ori_ne
                node⟩)

/-- `insert` ends unless the random source runs out of new tokens. -/
theorem Live.insert
    (live : Live I cfg (m, w) holders)
    (fns : Functions Leaf Root)
    (draws : List Dpf.Bytes16)
    (node : ShareVec Leaf) :
    (run (handler fns) (TreeCache.insert cfg draws node) (m, w)).1 =
          .unfinished ∧ ¬ Supplied m.phi_f draws ∨
      ∃ token s', run (handler fns) (TreeCache.insert cfg draws node) (m, w) =
          (.returned token, s') ∧
        holders token = none ∧
        SameRoot (m, w) s' ∧
        Live I cfg s' (Function.update holders token (some node)) := by
  have shape := live.stored.shape
  have marked := live.stored.dumpMeta (dirtyMeta cfg m.toMaps)
  rcases live.run_insert fns draws node with
    stuck | ⟨token, leafless, fresh, token_ne, ended⟩ |
      ⟨ori_root_token, token, new_root_token, splits, ended⟩
  · exact .inl stuck
  · have absent := live.absent (Dict.get?_eq_none_of_not_mem fresh)
    refine .inr ⟨token, _, ended, absent, sameRoot_saved token_ne node,
      live_committed (marked.placed leafless fresh token_ne node)
        fun other => ?_⟩
    rw [present_placed shape leafless, present_dumpMeta, live.present,
      Function.update_apply]
  · have absent := live.absent (Dict.get?_eq_none_of_not_mem splits.fresh)
    refine .inr ⟨token, _, ended, absent, sameRoot_saved splits.token_ne node,
      live_committed (marked.splitted splits node) fun other => ?_⟩
    rw [present_splitted shape splits, present_dumpMeta, live.present,
      Function.update_apply]

/-- `update` changes the filter of a present holder. -/
theorem Live.update
    (live : Live I cfg (m, w) holders)
    (fns : Functions Leaf Root)
    (token : String)
    (new_node : ShareVec Leaf) :
    (∃ error, run (handler fns) (TreeCache.update cfg token new_node) (m, w) =
          (.raised error, m, w) ∧
        holders token = none) ∨
      ∃ s' old, run (handler fns) (TreeCache.update cfg token new_node)
            (m, w) = (.returned (), s') ∧
          holders token = some old ∧
          SameRoot (m, w) s' ∧
          Live I cfg s' (Function.update holders token (some new_node)) := by
  cases found : m.phi_f.get? token with
  | none =>
      exact .inl ⟨_, run_update_unknown live.valid found new_node,
        live.absent found⟩
  | some node_id =>
      rcases Nat.lt_or_ge node_id m.leaf_num with internal | leaf
      · exact .inl ⟨_, run_update_internal live.valid found internal new_node,
          live.internal found internal⟩
      · obtain ⟨old, there⟩ := live.there found leaf
        have found' := (live.stored.shape.inverse _ _).mp found
        have marked := live.stored.dumpMeta (dirtyMeta cfg m.toMaps)
        refine .inr ⟨_, old, run_update_leaf live.valid found leaf new_node,
          there, sameRoot_saved (live.stored.shape.token_ne_root found') new_node,
          live_committed
            (marked.dirtied ⟨found, leaf⟩ new_node) fun other => ?_⟩
        rw [present_dirtied ⟨found, leaf⟩, present_dumpMeta, live.present,
          Function.update_apply]

/-- How `remove` ends: without a change, without a leaf, or with a collapse. -/
theorem Live.run_remove
    (live : Live I cfg (m, w) holders)
    (fns : Functions Leaf Root)
    (del_token : String) :
    (∃ outcome, run (handler fns) (TreeCache.remove cfg del_token) (m, w) =
          (outcome, m, w) ∧
        outcome ≠ .unfinished ∧
        m.hasInserted del_token = false) ∨
      (m.leaf_num = 1 ∧ m.phi_r.get? 1 = some del_token ∧
        run (handler fns) (TreeCache.remove cfg del_token) (m, w) =
          (.returned (), committed cfg m (m.emptied del_token)
            ((w.dumpMeta (dirtyMeta cfg m.toMaps)).unlinkNode del_token))) ∨
      ∃ internal_token left_token right_token del_id,
        m.Collapses internal_token left_token right_token del_token del_id ∧
        run (handler fns) (TreeCache.remove cfg del_token) (m, w) =
          (.returned (), committed cfg m
            (m.collapsed internal_token left_token right_token del_token del_id)
            (((w.dumpMeta (dirtyMeta cfg m.toMaps)).unlinkNode
              del_token).unlinkNode internal_token)) := by
  have shape := live.stored.shape
  cases found : m.phi_f.get? del_token with
  | none =>
      refine .inl ⟨_, run_remove_unknown live.valid found, nofun, ?_⟩
      rw [Maps.hasInserted, found]
  | some del_id =>
      rcases Nat.lt_or_ge del_id m.leaf_num with internal | leaf
      · refine .inl ⟨_, run_remove_internal live.valid found internal, nofun, ?_⟩
        rw [Maps.hasInserted, found]
        exact decide_eq_false (Nat.not_le.mpr internal)
      · have found' := (shape.inverse _ _).mp found
        have inside : 1 ≤ del_id ∧ del_id < 2 * m.leaf_num :=
          shape.inside found'
        by_cases single : m.leaf_num = 1
        · obtain rfl : del_id = 1 := by omega
          exact .inr (.inl ⟨single, found',
            run_remove_last live.valid single found found'⟩)
        · obtain ⟨internal_token, internal⟩ := shape.exists_token
            (by show 1 ≤ m.leaf_num - 1; omega)
            (by show m.leaf_num - 1 < 2 * m.leaf_num; omega)
          obtain ⟨left_token, left⟩ := shape.exists_token
            (by show 1 ≤ (m.leaf_num - 1) * 2; omega)
            (by show (m.leaf_num - 1) * 2 < 2 * m.leaf_num; omega)
          obtain ⟨right_token, right⟩ := shape.exists_token
            (by show 1 ≤ (m.leaf_num - 1) * 2 + 1; omega)
            (by show (m.leaf_num - 1) * 2 + 1 < 2 * m.leaf_num; omega)
          have collapses : m.Collapses internal_token left_token right_token
              del_token del_id :=
            ⟨by omega, internal, left, right, found', leaf⟩
          exact .inr (.inr ⟨internal_token, left_token, right_token, del_id,
            collapses, run_remove_collapse live.valid shape collapses⟩)

/-- `remove` drops a present holder. -/
theorem Live.remove
    (live : Live I cfg (m, w) holders)
    (fns : Functions Leaf Root)
    (del_token : String) :
    (∃ outcome, run (handler fns) (TreeCache.remove cfg del_token) (m, w) =
          (outcome, m, w) ∧
        outcome ≠ .unfinished ∧
        holders del_token = none) ∨
      ∃ s' old, run (handler fns) (TreeCache.remove cfg del_token) (m, w) =
            (.returned (), s') ∧
          holders del_token = some old ∧
          SameRoot (m, w) s' ∧
          Live I cfg s' (Function.update holders del_token none) := by
  have shape := live.stored.shape
  have marked := live.stored.dumpMeta (dirtyMeta cfg m.toMaps)
  rcases live.run_remove fns del_token with
    ⟨outcome, ended, finished, missing⟩ | ⟨single, found, ended⟩ |
      ⟨internal_token, left_token, right_token, del_id, collapses, ended⟩
  · refine .inl ⟨outcome, ended, finished, ?_⟩
    rw [← live.present, TreeCache.present, if_neg (by simp [missing])]
  · have found' := (shape.inverse _ _).mpr found
    obtain ⟨old, there⟩ := live.there found' (by rw [single])
    refine .inr ⟨_, old, ended, there,
      sameRoot_unlinked (shape.token_ne_root found),
      live_committed (marked.emptied single found) fun other => ?_⟩
    rw [present_emptied shape single found, present_dumpMeta, live.present,
      Function.update_apply]
  · have found' := (shape.inverse _ _).mpr collapses.deleted
    obtain ⟨old, there⟩ := live.there found' collapses.leaf
    refine .inr ⟨_, old, ended, there, ⟨rfl, ?_⟩,
      live_committed (marked.collapsed collapses) fun other => ?_⟩
    · rw [committed, World.root?_dumpMeta,
        World.root?_unlinkNode (shape.token_ne_root collapses.internal),
        World.root?_unlinkNode (shape.token_ne_root collapses.deleted),
        World.root?_dumpMeta]
    · rw [present_collapsed shape collapses, present_dumpMeta, live.present,
        Function.update_apply]

/-- `execute_merge` always succeeds. -/
theorem Live.execute_merge
    [Zero Root]
    (live : Live I cfg (m, w) holders)
    (computes : I.Computes fns) :
    ∃ s', run (handler fns) (executeMerge cfg) (m, w) = (.returned (), s') ∧
      I.value s'.1.root_node = embed (aggregate I holders) ∧
      (∀ root, s'.2.root? = some root ->
        I.value root = I.value s'.1.root_node) ∧
      Live I cfg s' holders := by
  obtain ⟨root_node, w', ended, result⟩ :=
    run_executeMerge cfg computes live.valid live.stored
  have same : TreeCache.present m.toMaps w = holders := funext live.present
  refine ⟨_, ended, ?_, ?_, live_committed
    (m := { m with root_node := root_node }) result.stored fun token => ?_⟩
  · rw [← same]
    exact published_of_merge result computes.zero
  · intro root found
    rw [committed, World.root?_dumpMeta] at found
    exact result.files root found
  · rw [result.present]
    exact live.present token

end

end TreeCache
end Mpmt
