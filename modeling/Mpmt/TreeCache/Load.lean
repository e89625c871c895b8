import Mathlib.Data.List.Perm.Basic
import Mpmt.TreeCache.Shape

/-!
# The metadata file is read back

`meta.json` of a cache with well-formed maps passes every check of the
constructor and gives the same maps.
-/

namespace Mpmt
namespace TreeCache

variable {maps : Maps} {max_str_digits : Option Nat}

/-! ## The objects -/

/-- An object whose keys are all different is read field by field. -/
theorem entries_pyDict
    {fields : List (String × PyJson)}
    (nodup : (fields.map Prod.fst).Nodup) : (pyDict fields).entries = fields :=
  Dict.entries_setAll ∅ fields nodup

private theorem pyStr_injective : Function.Injective pyStr := by
  intro n n' same
  have values := congrArg (pyInt none) same
  rw [pyInt_pyStr rfl, pyInt_pyStr rfl] at values
  exact Int.ofNat_inj.mp (Option.some.inj values)

/-- `phi_f` as it stands in the file. -/
def phiFields (phi_f : Dict String Nat) : List (String × PyJson) :=
  phi_f.entries.map fun (token, node_id) => (token, .int node_id)

/-- `phi_r` as it stands in the file. -/
def phiRFields (phi_r : Dict Nat String) : List (String × PyJson) :=
  phi_r.entries.map fun (node_id, token) => (pyStr node_id, .str token)

theorem entries_phiFields (phi_f : Dict String Nat) :
    (pyDict (phiFields phi_f)).entries = phiFields phi_f := by
  apply entries_pyDict
  rw [phiFields, List.map_map]
  exact phi_f.nodup

theorem entries_phiRFields (phi_r : Dict Nat String) :
    (pyDict (phiRFields phi_r)).entries = phiRFields phi_r := by
  apply entries_pyDict
  have keys : (phiRFields phi_r).map Prod.fst =
      (phi_r.entries.map Prod.fst).map pyStr := by
    rw [phiRFields, List.map_map, List.map_map]
    rfl
  rw [keys]
  exact phi_r.nodup.map pyStr_injective

/-! ## The maps -/

theorem readPhiF_map
    (entries : List (String × Nat))
    (new_phi_f : Dict String Nat)
    (used_node_ids : Finset Nat)
    (distinct : (entries.map Prod.snd).Nodup)
    (unused : ∀ entry ∈ entries, entry.2 ∉ used_node_ids) :
    readPhiF (entries.map fun (token, node_id) => (token, .int node_id))
        new_phi_f used_node_ids =
      .ok (new_phi_f.setAll entries) := by
  induction entries generalizing new_phi_f used_node_ids with
  | nil => rfl
  | cons entry rest inductionHypothesis =>
      obtain ⟨token, node_id⟩ := entry
      rw [List.map_cons, List.nodup_cons] at distinct
      rw [List.map_cons, readPhiF, if_neg (by omega), Int.toNat_natCast,
        if_neg (unused (token, node_id) (by simp)),
        inductionHypothesis _ _ distinct.2]
      · rfl
      · intro other member
        rw [Finset.mem_insert, not_or]
        refine ⟨?_, unused other (by simp [member])⟩
        rintro same
        exact distinct.1 (List.mem_map.mpr ⟨other, member, same⟩)

theorem readPhiR_map
    (entries : List (Nat × String))
    (new_phi_r : Dict Nat String)
    (distinct : (entries.map Prod.fst).Nodup)
    (unused : ∀ entry ∈ entries, entry.1 ∉ new_phi_r)
    (printable : ∀ entry ∈ entries,
      convertible max_str_digits (decimal entry.1).length) :
    readPhiR max_str_digits (entries.map fun (node_id, token) => (pyStr node_id, .str token))
        new_phi_r =
      .ok (new_phi_r.setAll entries) := by
  induction entries generalizing new_phi_r with
  | nil => rfl
  | cons entry rest inductionHypothesis =>
      obtain ⟨node_id, token⟩ := entry
      rw [List.map_cons, List.nodup_cons] at distinct
      obtain ⟨first, later⟩ := List.forall_mem_cons.mp printable
      rw [List.map_cons, readPhiR, pyInt_pyStr first]
      simp only
      rw [if_neg (by omega), Int.toNat_natCast,
        if_neg (unused (node_id, token) (by simp)),
        inductionHypothesis _ distinct.2 ?_ later]
      · rfl
      · intro other member
        have apart : other.1 ≠ node_id := by
          rintro same
          exact distinct.1 (List.mem_map.mpr ⟨other, member, same⟩)
        rw [Dict.mem_iff, Dict.get?_set_of_ne _ _ apart]
        exact unused other (by simp [member])

theorem readIds_map (ids : List Nat) :
    readIds (ids.map fun (node_id : Nat) => PyJson.int node_id) =
      .ok (ids.map fun (node_id : Nat) => (node_id : Int)) := by
  induction ids with
  | nil => rfl
  | cons node_id rest inductionHypothesis =>
      rw [List.map_cons, readIds, inductionHypothesis]
      rfl

/-! ## The checks -/

theorem Maps.Shape.mem_entries
    (shape : maps.Shape) :
    (token, node_id) ∈ maps.phi_f.entries ↔
      (node_id, token) ∈ maps.phi_r.entries := by
  rw [Dict.mem_entries_iff, Dict.mem_entries_iff]
  exact shape.inverse token node_id

/-- The entries of the two maps are the same pairs. -/
theorem Maps.Shape.perm
    (shape : maps.Shape) :
    (maps.phi_f.entries.map Prod.swap).Perm maps.phi_r.entries := by
  have nodup : maps.phi_f.entries.Nodup := maps.phi_f.nodup.of_map _
  have nodup' : maps.phi_r.entries.Nodup := maps.phi_r.nodup.of_map _
  rw [List.perm_ext_iff_of_nodup (nodup.map Prod.swap_injective) nodup']
  rintro ⟨node_id, token⟩
  rw [← shape.mem_entries, List.mem_map]
  constructor
  · rintro ⟨⟨_, _⟩, member, same⟩
    cases same
    exact member
  · intro member
    exact ⟨(token, node_id), member, rfl⟩

theorem checkMaps_ok (shape : maps.Shape) : checkMaps maps = .ok () := by
  have sizes : maps.phi_f.size = maps.phi_r.size := by
    have lengths := shape.perm.length_eq
    rwa [List.length_map] at lengths
  have inverses : (maps.phi_f.entries.any fun (token, node_id) =>
      maps.phi_r.get? node_id ≠ some token) = false := by
    rw [List.any_eq_false]
    rintro ⟨token, node_id⟩ member
    rw [Dict.mem_entries_iff, shape.inverse] at member
    simp [member]
  have ids : (maps.phi_r.entries.map Prod.fst).toFinset =
      Finset.Icc 1 (nodeCount maps.leaf_num) := by
    ext node_id
    rw [List.mem_toFinset, Finset.mem_Icc, nodeCount]
    have numbered := shape.numbered node_id
    constructor
    · intro member
      obtain ⟨⟨_, token⟩, entry, rfl⟩ := List.mem_map.mp member
      rw [Dict.mem_entries_iff] at entry
      have inside := shape.inside entry
      split
      · omega
      · dsimp only
        omega
    · intro bounds
      obtain ⟨token, found⟩ := shape.exists_token bounds.1 (by
        split at bounds
        · omega
        · omega)
      exact List.mem_map_of_mem (f := Prod.fst)
        (Dict.mem_entries_iff.mpr found)
  unfold checkMaps
  dsimp only
  rw [if_neg (not_not.mpr sizes), inverses, if_neg (by simp),
    if_neg (not_not.mpr ids)]

theorem checkDirty_ok
    (shape : maps.Shape) :
    checkDirty maps.leaf_num
        ((maps.dirty_leaf.sort (· ≤ ·)).map fun (node_id : Nat) => (node_id : Int)) =
      .ok () := by
  unfold checkDirty
  split
  · next leafless =>
      have clean : maps.dirty_leaf = ∅ := by
        have dirty := shape.dirty
        rw [leafless] at dirty
        exact Finset.subset_empty.mp dirty
      simp [clean]
  · rw [if_neg]
    rw [List.any_eq_true]
    rintro ⟨_, member, outside⟩
    obtain ⟨node_id, inDirty, rfl⟩ := List.mem_map.mp member
    have bounds := Finset.mem_Ico.mp
      (shape.dirty ((Finset.mem_sort _).mp inDirty))
    simp only [Bool.or_eq_true, decide_eq_true_eq] at outside
    omega

/-! ## The file -/

/-- The fields of the document. -/
def metaFields
    (state bf_size ell_root leaf_num phi_f phi_r dirty_leaf : PyJson) :
    List (String × PyJson) :=
  [("state", state), ("bf_size", bf_size), ("ell_root", ell_root),
    ("leaf_num", leaf_num), ("phi_f", phi_f), ("phi_r", phi_r),
    ("dirty_leaf", dirty_leaf)]

section

variable (state bf_size ell_root leaf_num phi_f phi_r dirty_leaf : PyJson)

theorem entries_metaFields :
    (pyDict (metaFields state bf_size ell_root leaf_num phi_f phi_r
      dirty_leaf)).entries =
      metaFields state bf_size ell_root leaf_num phi_f phi_r dirty_leaf := by
  apply entries_pyDict
  show ["state", "bf_size", "ell_root", "leaf_num", "phi_f", "phi_r",
    "dirty_leaf"].Nodup
  decide

/-- Every field of the document is found. -/
theorem get?_metaFields :
    let meta_data := pyDict (metaFields state bf_size ell_root leaf_num phi_f
      phi_r dirty_leaf)
    meta_data.get? "state" = some state ∧
      meta_data.get? "bf_size" = some bf_size ∧
      meta_data.get? "ell_root" = some ell_root ∧
      meta_data.get? "leaf_num" = some leaf_num ∧
      meta_data.get? "phi_f" = some phi_f ∧
      meta_data.get? "phi_r" = some phi_r ∧
      meta_data.get? "dirty_leaf" = some dirty_leaf := by
  intro meta_data
  unfold Dict.get?
  rw [entries_metaFields]
  exact ⟨rfl, rfl, rfl, rfl, rfl, rfl, rfl⟩

end

/-- Without a limit every node id is converted. -/
theorem Maps.printable_none (maps : Maps) : maps.printable none :=
  List.all_eq_true.mpr fun _ _ => rfl

/-- What `_mark_valid` writes is read back. -/
theorem loadMeta_valid
    (shape : maps.Shape)
    (printable : maps.printable max_str_digits)
    (bf_size ell_root : Nat) :
    loadMeta max_str_digits bf_size ell_root (metaData "valid" bf_size ell_root maps) =
      .ok maps := by
  have document : metaData "valid" bf_size ell_root maps =
      .dict (metaFields (.str "valid") (.int bf_size) (.int ell_root)
        (.int maps.leaf_num) (.dict (phiFields maps.phi_f))
        (.dict (phiRFields maps.phi_r))
        (.list ((maps.dirty_leaf.sort (· ≤ ·)).map fun (node_id : Nat) =>
          .int node_id))) := rfl
  obtain ⟨state, bf, ell, leaf, phi_f, phi_r, dirty⟩ :=
    get?_metaFields (.str "valid") (.int bf_size) (.int ell_root)
      (.int maps.leaf_num) (.dict (phiFields maps.phi_f))
      (.dict (phiRFields maps.phi_r))
      (.list ((maps.dirty_leaf.sort (· ≤ ·)).map
        fun (node_id : Nat) => .int node_id))
  have leaves : readLeafNum (.int maps.leaf_num) = .ok maps.leaf_num := by
    rw [readLeafNum, if_neg (by omega), Int.toNat_natCast]
  have ids := readIds_map (maps.dirty_leaf.sort (· ≤ ·))
  have clean := checkDirty_ok shape
  have new_phi_f : readPhiF (pyDict (phiFields maps.phi_f)).entries ∅ ∅ =
      .ok maps.phi_f := by
    rw [entries_phiFields, phiFields, readPhiF_map _ _ _ ?_ (by simp),
      Dict.setAll_entries]
    have ids : maps.phi_f.entries.map Prod.snd =
        (maps.phi_f.entries.map Prod.swap).map Prod.fst := by
      rw [List.map_map]
      rfl
    rw [ids]
    exact (shape.perm.map Prod.fst).nodup_iff.mpr maps.phi_r.nodup
  have new_phi_r : readPhiR max_str_digits (pyDict (phiRFields maps.phi_r)).entries ∅ =
      .ok maps.phi_r := by
    rw [entries_phiRFields, phiRFields,
      readPhiR_map _ _ maps.phi_r.nodup (by simp [Dict.mem_iff])
        (List.all_eq_true.mp printable),
      Dict.setAll_entries]
  have back : ((((maps.dirty_leaf.sort (· ≤ ·)).map fun (node_id : Nat) =>
      (node_id : Int)).map Int.toNat).toFinset) = maps.dirty_leaf := by
    rw [List.map_map]
    ext node_id
    simp
  have checked := checkMaps_ok shape
  rw [document, loadMeta]
  simp only [checkInt, bf, ell, required, List.forM_cons, List.forM_nil, field,
    state, leaf, phi_f, phi_r, dirty, bind, Except.bind, discard, Functor.mapConst,
    Except.map, pure, Except.pure, readState, leaves, readDict, readList, ids,
    clean, new_phi_f, new_phi_r, back, checked, ne_eq, not_true_eq_false,
    if_false, Function.comp]

/-- What `_mark_corrupted` writes is refused. -/
theorem loadMeta_dirty (maps : Maps) (bf_size ell_root : Nat) :
    loadMeta max_str_digits bf_size ell_root (metaData "dirty" bf_size ell_root maps) =
      .error (.RuntimeError "TreeCache state is not valid") := by
  have document : metaData "dirty" bf_size ell_root maps =
      .dict (metaFields (.str "dirty") (.int bf_size) (.int ell_root)
        (.int maps.leaf_num) (.dict (phiFields maps.phi_f))
        (.dict (phiRFields maps.phi_r))
        (.list ((maps.dirty_leaf.sort (· ≤ ·)).map fun (node_id : Nat) =>
          .int node_id))) := rfl
  obtain ⟨state, bf, ell, leaf, phi_f, phi_r, dirty⟩ :=
    get?_metaFields (.str "dirty") (.int bf_size) (.int ell_root)
      (.int maps.leaf_num) (.dict (phiFields maps.phi_f))
      (.dict (phiRFields maps.phi_r))
      (.list ((maps.dirty_leaf.sort (· ≤ ·)).map
        fun (node_id : Nat) => .int node_id))
  have refused : readState (.str "dirty") =
      .error (.RuntimeError "TreeCache state is not valid") := rfl
  rw [document, loadMeta]
  simp only [checkInt, bf, ell, required, List.forM_cons, List.forM_nil, field,
    state, leaf, phi_f, phi_r, dirty, bind, Except.bind, discard,
    Functor.mapConst, Except.map, pure, Except.pure, refused, ne_eq,
    not_true_eq_false, if_false, Function.comp]

end TreeCache
end Mpmt
