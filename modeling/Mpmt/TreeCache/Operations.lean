import Mpmt.TreeCache.Shape

/-!
# The operations of a tree cache, run to their end

For a valid cache with well-formed maps and file operations that succeed, each
operation is a function of the maps and the files.
-/

namespace Mpmt
namespace TreeCache

open Effects

variable {Leaf Root : Type} {fns : Functions Leaf Root} {cfg : Config}
variable {m : Cache Root} {w : World Leaf Root}

/-- The document of a valid cache. -/
def validMeta (cfg : Config) (maps : Maps) : PyJson :=
  metaData "valid" cfg.bf_size cfg.ell_root maps

/-- The document of an operation that has not ended. -/
def dirtyMeta (cfg : Config) (maps : Maps) : PyJson :=
  metaData "dirty" cfg.bf_size cfg.ell_root maps

/-- The state that `_mark_valid` leaves behind. -/
def committed
    (cfg : Config)
    (m : Cache Root)
    (maps : Maps)
    (w : World Leaf Root) : Cache Root × World Leaf Root :=
  ({ m with toMaps := maps, corrupted := false },
    w.dumpMeta (validMeta cfg maps))

/-! ## Tokens -/

theorem run_newToken
    (found : freshToken m.phi_f draws = some drawn) :
    run (handler fns) (newToken draws) (m, w) = (.returned drawn, m, w) := by
  simp [newToken, run_bind, found]

theorem run_newToken_exhausted
    (exhausted : freshToken m.phi_f draws = none) :
    run (handler fns) (newToken draws) (m, w) = (.unfinished, m, w) := by
  simp only [newToken, run_bind, run_get, exhausted]
  rfl

/-- A token that was drawn is new and drawn from the random source. -/
theorem freshToken_spec
    {phi_f : Dict String Nat}
    (found : freshToken phi_f draws = some (token, rest)) :
    token ∉ phi_f ∧ token ≠ "root" := by
  induction draws with
  | nil => simp [freshToken] at found
  | cons draw draws inductionHypothesis =>
      rw [freshToken] at found
      split at found
      · exact inductionHypothesis found
      · next new =>
          obtain ⟨rfl, rfl⟩ := Prod.mk.inj (Option.some.inj found)
          exact ⟨new, tokenHex_ne_root draw⟩

/-- The random source gives two new tokens. -/
def Supplied (phi_f : Dict String Nat) (draws : List Dpf.Bytes16) : Prop :=
  ∃ first ∈ draws, ∃ second ∈ draws,
    tokenHex first ∉ phi_f ∧ tokenHex second ∉ phi_f ∧
      tokenHex first ≠ tokenHex second

/-- New draws are skipped only by being drawn. -/
theorem mem_rest_of_freshToken
    {phi_f : Dict String Nat}
    (found : freshToken phi_f draws = some (token, rest))
    (member : draw ∈ draws)
    (new : tokenHex draw ∉ phi_f) : tokenHex draw = token ∨ draw ∈ rest := by
  induction draws with
  | nil => simp at member
  | cons next draws inductionHypothesis =>
      rw [freshToken] at found
      split at found
      · next old =>
          rcases List.mem_cons.mp member with rfl | member
          · exact absurd old new
          · exact inductionHypothesis found member
      · obtain ⟨rfl, rfl⟩ := Prod.mk.inj (Option.some.inj found)
        rcases List.mem_cons.mp member with rfl | member
        · exact .inl rfl
        · exact .inr member

theorem old_of_freshToken
    {phi_f : Dict String Nat}
    (exhausted : freshToken phi_f draws = none)
    (member : draw ∈ draws) : tokenHex draw ∈ phi_f := by
  induction draws with
  | nil => simp at member
  | cons next draws inductionHypothesis =>
      rw [freshToken] at exhausted
      split at exhausted
      · next old =>
          rcases List.mem_cons.mp member with rfl | member
          · exact old
          · exact inductionHypothesis exhausted member
      · cases exhausted

/-- Two new tokens are enough for a leaf and the internal node above. -/
theorem not_supplied_of_exhausted
    {phi_f : Dict String Nat}
    (drawn : freshToken phi_f draws = some (token, rest))
    (exhausted : freshToken (phi_f.set token node_id) rest = none) :
    ¬ Supplied phi_f draws := by
  rintro ⟨first, first_member, second, second_member, first_new, second_new,
    different⟩
  have known : ∀ draw ∈ draws, tokenHex draw ∉ phi_f ->
      tokenHex draw = token := by
    intro draw member new
    rcases mem_rest_of_freshToken drawn member new with same | member
    · exact same
    · have old := old_of_freshToken exhausted member
      by_contra other
      rw [Dict.mem_iff, Dict.get?_set_of_ne _ _ other] at old
      exact new old
  exact different ((known first first_member first_new).trans
    (known second second_member second_new).symm)

/-! ## `insert` -/

theorem run_placeFirst (token : String) :
    run (handler fns) (placeFirst token) (m, w) =
      (.returned (), { m with toMaps := m.placed token }, w) := rfl

theorem run_splitFirst
    (ori : m.phi_r.get? m.leaf_num = some ori_root_token)
    (drawn : freshToken (m.phi_f.set token (m.leaf_num * 2 + 1)) draws =
      some (new_root_token, rest)) :
    run (handler fns) (splitFirst draws token) (m, w) =
      (.returned (),
        { m with toMaps := m.splitted ori_root_token token new_root_token },
        w) := by
  have second : run (handler fns) (newToken draws)
      ({ m with
        phi_r := m.phi_r.set (m.leaf_num * 2 + 1) token
        phi_f := m.phi_f.set token (m.leaf_num * 2 + 1) }, w) = _ :=
    run_newToken drawn
  simp only [splitFirst, run_bind, run_get, run_item ori, run_modify, second]
  rfl

theorem run_splitFirst_exhausted
    (fns : Functions Leaf Root)
    (ori : m.phi_r.get? m.leaf_num = some ori_root_token)
    (exhausted : freshToken (m.phi_f.set token (m.leaf_num * 2 + 1)) draws =
      none) :
    ∃ s', run (handler fns) (splitFirst draws token) (m, w) =
      (.unfinished, s') := by
  refine ⟨({ m with
    phi_r := m.phi_r.set (m.leaf_num * 2 + 1) token
    phi_f := m.phi_f.set token (m.leaf_num * 2 + 1) }, w), ?_⟩
  unfold splitFirst
  rw [run_bind_of_returned run_get]
  dsimp only
  rw [run_bind_of_returned (run_item ori _),
    run_bind_of_returned (run_modify _)]
  exact run_bind_of_unfinished (run_newToken_exhausted exhausted) _

/-- The first leaf. -/
theorem run_insert_first
    (valid : m.corrupted = false)
    (leafless : m.leaf_num = 0)
    (drawn : freshToken m.phi_f draws = some (token, rest))
    (node : ShareVec Leaf) :
    run (handler fns) (insert cfg draws node) (m, w) =
      (.returned token, committed cfg m ((m.placed token).dirtied 1)
        ((w.dumpMeta (dirtyMeta cfg m.toMaps)).saveNode token node)) := by
  have token_id : (m.placed token).phi_f.get? token = some 1 := by
    simp [Maps.placed]
  simp only [insert, run_bind, run_checkCorrupted valid, run_markCorrupted,
    run_newToken (m := { m with corrupted := true }) drawn, run_saveNewNode,
    run_get, leafless, if_true, run_placeFirst, run_item token_id, run_modify,
    run_markValid, run_pure]
  rfl

/-- A further leaf. -/
theorem run_insert_split
    (valid : m.corrupted = false)
    (some_leaf : m.leaf_num ≠ 0)
    (ori : m.phi_r.get? m.leaf_num = some ori_root_token)
    (drawn : freshToken m.phi_f draws = some (token, rest))
    (drawn' : freshToken (m.phi_f.set token (m.leaf_num * 2 + 1)) rest =
      some (new_root_token, rest'))
    (different : ori_root_token ≠ token)
    (node : ShareVec Leaf) :
    run (handler fns) (insert cfg draws node) (m, w) =
      (.returned token,
        committed cfg m
          ((m.splitted ori_root_token token new_root_token).dirtied
            (m.leaf_num * 2 + 1))
          ((w.dumpMeta (dirtyMeta cfg m.toMaps)).saveNode token node)) := by
  have fresh := (freshToken_spec drawn').1
  have different' : token ≠ new_root_token := by
    rintro rfl
    exact fresh (Dict.mem_of_get? (Dict.get?_set_self _ _ _))
  have token_id : (m.splitted ori_root_token token new_root_token).phi_f.get?
      token = some (m.leaf_num * 2 + 1) := by
    simp [Maps.splitted, Dict.get?_set, different.symm, different']
  simp only [insert, run_bind, run_checkCorrupted valid, run_markCorrupted,
    run_newToken (m := { m with corrupted := true }) drawn, run_saveNewNode,
    run_get, some_leaf, if_false,
    run_splitFirst (m := { m with corrupted := true }) ori drawn',
    run_item token_id, run_modify, run_markValid, run_pure]
  rfl

/-- Without a new token `insert` does not end. -/
theorem run_insert_exhausted
    (valid : m.corrupted = false)
    (exhausted : freshToken m.phi_f draws = none)
    (node : ShareVec Leaf) :
    (run (handler fns) (insert cfg draws node) (m, w)).1 = .unfinished := by
  unfold insert
  rw [run_bind_of_returned (run_checkCorrupted valid),
    run_bind_of_returned run_markCorrupted,
    run_bind_of_unfinished (run_newToken_exhausted
      (m := { m with corrupted := true }) exhausted)]

/-- The internal node above a further leaf needs a new token too. -/
theorem run_insert_split_exhausted
    (valid : m.corrupted = false)
    (some_leaf : m.leaf_num ≠ 0)
    (ori : m.phi_r.get? m.leaf_num = some ori_root_token)
    (drawn : freshToken m.phi_f draws = some (token, rest))
    (exhausted : freshToken (m.phi_f.set token (m.leaf_num * 2 + 1)) rest =
      none)
    (node : ShareVec Leaf) :
    (run (handler fns) (insert cfg draws node) (m, w)).1 = .unfinished := by
  unfold insert
  rw [run_bind_of_returned (run_checkCorrupted valid),
    run_bind_of_returned run_markCorrupted,
    run_bind_of_returned (run_newToken
      (m := { m with corrupted := true }) drawn),
    run_bind_of_returned (run_saveNewNode node), run_bind_of_returned run_get]
  dsimp only
  obtain ⟨s', split⟩ := run_splitFirst_exhausted fns
    (m := { m with corrupted := true })
    (w := (w.dumpMeta (dirtyMeta cfg m.toMaps)).saveNode token node)
    ori exhausted
  rw [if_neg some_leaf]
  exact congrArg Prod.fst (run_bind_of_unfinished split _)

/-! ## `update` -/

theorem run_update_unknown
    (valid : m.corrupted = false)
    (unknown : m.phi_f.get? token = none)
    (new_node : ShareVec Leaf) :
    run (handler fns) (update cfg token new_node) (m, w) =
      (.raised (.UnknownToken token), m, w) := by
  simp only [update, run_bind, run_checkCorrupted valid, run_get, unknown,
    run_raise]

theorem run_update_internal
    (valid : m.corrupted = false)
    (found : m.phi_f.get? token = some node_id)
    (internal : node_id < m.leaf_num)
    (new_node : ShareVec Leaf) :
    run (handler fns) (update cfg token new_node) (m, w) =
      (.raised (.InternalNode token), m, w) := by
  simp only [update, run_bind, run_checkCorrupted valid, run_get, found,
    internal, if_true, run_raise]

theorem run_update_leaf
    (valid : m.corrupted = false)
    (found : m.phi_f.get? token = some node_id)
    (leaf : m.leaf_num ≤ node_id)
    (new_node : ShareVec Leaf) :
    run (handler fns) (update cfg token new_node) (m, w) =
      (.returned (), committed cfg m (m.dirtied node_id)
        ((w.dumpMeta (dirtyMeta cfg m.toMaps)).saveNode token new_node)) := by
  simp only [update, run_bind, run_checkCorrupted valid, run_get, found,
    Nat.not_lt.mpr leaf, if_false, run_markCorrupted, run_saveNode, run_modify,
    run_markValid]
  rfl

/-! ## `remove` -/

theorem run_remove_unknown
    (valid : m.corrupted = false)
    (unknown : m.phi_f.get? del_token = none) :
    run (handler fns) (remove cfg del_token) (m, w) =
      (.returned (), m, w) := by
  simp only [remove, run_bind, run_checkCorrupted valid, run_get, unknown,
    run_pure]

theorem run_remove_internal
    (valid : m.corrupted = false)
    (found : m.phi_f.get? del_token = some del_id)
    (internal : del_id < m.leaf_num) :
    run (handler fns) (remove cfg del_token) (m, w) =
      (.raised (.InternalNode del_token), m, w) := by
  simp only [remove, run_bind, run_checkCorrupted valid, run_get, found,
    internal, if_true, run_raise]

theorem run_removeLast
    (found : m.phi_f.get? del_token = some 1)
    (found' : m.phi_r.get? 1 = some del_token) :
    run (handler fns) (removeLast del_token) (m, w) =
      (.returned none, { m with toMaps := m.emptied del_token }, w) := by
  simp only [removeLast, run_bind, run_get,
    run_delItem (Dict.mem_of_get? found), run_delItem (Dict.mem_of_get? found'),
    run_modify, run_pure]
  rfl

/-- The nodes that `collapseLast` deletes from the maps are there. -/
theorem run_collapseLast
    (shape : m.Shape)
    (collapses : m.Collapses internal_token left_token right_token del_token
      del_id) :
    run (handler fns) (collapseLast del_token del_id) (m, w) =
      (.returned (some internal_token),
        { m with
          toMaps := m.collapsed internal_token left_token right_token
            del_token del_id }, w) := by
  obtain ⟨many, internal, left, right, deleted, leaf⟩ := collapses
  have internal' := (shape.inverse _ _).mpr internal
  have left' := (shape.inverse _ _).mpr left
  have right' := (shape.inverse _ _).mpr right
  have deleted' := (shape.inverse _ _).mpr deleted
  unfold collapseLast
  rw [run_bind_of_returned run_get]
  dsimp only
  rw [run_bind_of_returned (run_item internal _),
    run_bind_of_returned (run_item left _),
    run_bind_of_returned (run_item right _),
    run_bind_of_returned (run_delItem ?left_member _),
    run_bind_of_returned (run_delItem ?right_member _),
    run_bind_of_returned (run_delItem ?internal_member _),
    run_bind_of_returned (run_delItem ?deleted_member _),
    run_bind_of_returned (run_modify _), run_pure]
  · rfl
  all_goals
    split
    · simp only [Dict.mem_iff, Dict.get?_set, Dict.get?_del]
      grind
    · simp only [Dict.mem_iff, Dict.get?_set, Dict.get?_del]
      grind

/-- The last leaf goes. -/
theorem run_remove_last
    (valid : m.corrupted = false)
    (single : m.leaf_num = 1)
    (found : m.phi_f.get? del_token = some 1)
    (found' : m.phi_r.get? 1 = some del_token) :
    run (handler fns) (remove cfg del_token) (m, w) =
      (.returned (), committed cfg m (m.emptied del_token)
        ((w.dumpMeta (dirtyMeta cfg m.toMaps)).unlinkNode del_token)) := by
  unfold remove
  rw [run_bind_of_returned (run_checkCorrupted valid),
    run_bind_of_returned run_get]
  simp only [found, single, Nat.lt_irrefl, if_false, if_true]
  rw [run_bind_of_returned run_markCorrupted,
    run_bind_of_returned (run_removeLast (m := { m with corrupted := true })
      found found'),
    run_bind_of_returned run_unlinkNode]
  rfl

/-- A leaf goes and the last internal node with it. -/
theorem run_remove_collapse
    (valid : m.corrupted = false)
    (shape : m.Shape)
    (collapses : m.Collapses internal_token left_token right_token del_token
      del_id) :
    run (handler fns) (remove cfg del_token) (m, w) =
      (.returned (), committed cfg m
        (m.collapsed internal_token left_token right_token del_token del_id)
        (((w.dumpMeta (dirtyMeta cfg m.toMaps)).unlinkNode
          del_token).unlinkNode internal_token)) := by
  have found := (shape.inverse _ _).mpr collapses.deleted
  have several : m.leaf_num ≠ 1 := by
    have := collapses.many
    omega
  unfold remove
  rw [run_bind_of_returned (run_checkCorrupted valid),
    run_bind_of_returned run_get]
  simp only [found, Nat.not_lt.mpr collapses.leaf, several, if_false]
  rw [run_bind_of_returned run_markCorrupted,
    run_bind_of_returned (run_collapseLast (m := { m with corrupted := true })
      shape collapses),
    run_bind_of_returned run_unlinkNode]
  rfl

end TreeCache
end Mpmt
