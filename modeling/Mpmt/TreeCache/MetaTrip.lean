import Mpmt.TreeCache.CrashAtomic

/-!
# What the loader accepts

The checks of the constructor on `meta.json` admit the files of valid caches,
and every file that they admit holds maps that undo each other and number the
nodes of a heap from one.
-/

namespace Mpmt
namespace TreeCache

open Effects Heap

variable {Leaf Root : Type} {fns : Functions Leaf Root} {cfg : Config}
variable {w : World Leaf Root} {maps : Maps} {max_str_digits : Option Nat}

/-- Two maps that undo each other, on the nodes of a tree, and dirty nodes that
are leaves. -/
structure Maps.Sound (maps : Maps) : Prop where
  inverse : ∀ token node_id,
    maps.phi_f.get? token = some node_id ↔ maps.phi_r.get? node_id = some token
  ids : ∀ node_id, node_id ∈ maps.phi_r ↔ 1 ≤ node_id ∧ node_id < 2 * maps.leaf_num
  dirty : ∀ node_id ∈ maps.dirty_leaf,
    maps.leaf_num ≤ node_id ∧ node_id < 2 * maps.leaf_num

/-! ## Checks that pass -/

theorem bind_eq_ok
    {x : Except PyError Out}
    {next : Out -> Except PyError Out'}
    {out : Out'}
    (returned : x >>= next = .ok out) : ∃ middle, x = .ok middle ∧ next middle = .ok out := by
  cases x with
  | error => cases returned
  | ok middle => exact ⟨middle, rfl, returned⟩

theorem dirty_of_checkDirty
    {leaf_num : Nat}
    {ids : List Int}
    (passed : checkDirty leaf_num ids = .ok ()) :
    ∀ node_id ∈ (ids.map Int.toNat).toFinset, leaf_num ≤ node_id ∧ node_id < 2 * leaf_num := by
  intro node_id member
  obtain ⟨id, inIds, rfl⟩ := List.mem_map.mp (List.mem_toFinset.mp member)
  unfold checkDirty at passed
  split at passed
  · split at passed
    · cases passed
    · next clean =>
        rw [not_not] at clean
        rw [clean] at inIds
        cases inIds
  · split at passed
    · cases passed
    · next inside =>
        rw [List.any_eq_true, not_exists] at inside
        have bounds := not_and.mp (inside id) inIds
        simp only [Bool.or_eq_true, decide_eq_true_eq, not_or] at bounds
        omega

/-- What `checkMaps` checks: as many tokens as ids, every token comes back from
its id, and the ids are those of a tree. -/
theorem checkMaps_eq_ok
    (passed : checkMaps maps = .ok ()) :
    maps.phi_f.size = maps.phi_r.size ∧
      (∀ token node_id, (token, node_id) ∈ maps.phi_f.entries ->
        maps.phi_r.get? node_id = some token) ∧
      (maps.phi_r.entries.map Prod.fst).toFinset =
        Finset.Icc 1 (nodeCount maps.leaf_num) := by
  unfold checkMaps at passed
  dsimp only at passed
  split at passed
  · cases passed
  next sizes =>
  split at passed
  · cases passed
  next inverses =>
  split at passed
  · cases passed
  next ids =>
  refine ⟨not_not.mp sizes, fun token node_id member => ?_, not_not.mp ids⟩
  rw [List.any_eq_true, not_exists] at inverses
  have same := not_and.mp (inverses (token, node_id)) member
  simpa using same

/-- A one-sided inverse between maps of the same size is two-sided. -/
theorem inverse_of_sizes
    {phi_f : Dict String Nat}
    {phi_r : Dict Nat String}
    (sizes : phi_f.size = phi_r.size)
    (back : ∀ token node_id, (token, node_id) ∈ phi_f.entries ->
      phi_r.get? node_id = some token)
    (token : String)
    (node_id : Nat) :
    phi_f.get? token = some node_id ↔ phi_r.get? node_id = some token := by
  have nodup : phi_f.entries.Nodup := phi_f.nodup.of_map _
  have contained : phi_f.entries.map Prod.swap ⊆ phi_r.entries := by
    rintro ⟨_, _⟩ member
    obtain ⟨⟨token, node_id⟩, entry, same⟩ := List.mem_map.mp member
    cases same
    exact Dict.mem_entries_iff.mpr (back token node_id entry)
  have lengths : phi_r.entries.length ≤ (phi_f.entries.map Prod.swap).length := by
    rw [List.length_map]
    exact Nat.le_of_eq sizes.symm
  have perm : (phi_f.entries.map Prod.swap).Perm phi_r.entries :=
    (List.subperm_of_subset (nodup.map Prod.swap_injective) contained).perm_of_length_le lengths
  rw [← Dict.mem_entries_iff, ← Dict.mem_entries_iff, ← perm.mem_iff, List.mem_map]
  constructor
  · exact fun member => ⟨(token, node_id), member, rfl⟩
  · rintro ⟨⟨_, _⟩, member, same⟩
    cases same
    exact member

theorem sound_of_checks
    (dirty : ∀ node_id ∈ maps.dirty_leaf,
      maps.leaf_num ≤ node_id ∧ node_id < 2 * maps.leaf_num)
    (passed : checkMaps maps = .ok ()) : maps.Sound := by
  obtain ⟨sizes, back, ids⟩ := checkMaps_eq_ok passed
  refine ⟨inverse_of_sizes sizes back, fun node_id => ?_, dirty⟩
  have numbered : node_id ∈ (maps.phi_r.entries.map Prod.fst).toFinset ↔
      1 ≤ node_id ∧ node_id < 2 * maps.leaf_num := by
    rw [ids, Finset.mem_Icc, nodeCount]
    split <;> omega
  rw [← numbered, List.mem_toFinset, List.mem_map, Dict.mem_iff, Option.isSome_iff_exists]
  constructor
  · rintro ⟨token, found⟩
    exact ⟨(node_id, token), Dict.mem_entries_iff.mpr found, rfl⟩
  · rintro ⟨⟨_, token⟩, entry, rfl⟩
    exact ⟨token, Dict.mem_entries_iff.mp entry⟩

/-- Whatever `meta.json` holds, maps that pass the validation are sound. -/
theorem sound_of_loadMeta
    {bf_size ell_root : Nat}
    {value : PyJson}
    (loaded : loadMeta max_str_digits bf_size ell_root value = .ok maps) : maps.Sound := by
  cases value with
  | dict fields =>
      unfold loadMeta at loaded
      obtain ⟨_, _, loaded⟩ := bind_eq_ok loaded
      obtain ⟨_, _, loaded⟩ := bind_eq_ok loaded
      obtain ⟨_, _, loaded⟩ := bind_eq_ok loaded
      obtain ⟨_, _, loaded⟩ := bind_eq_ok loaded
      obtain ⟨_, _, loaded⟩ := bind_eq_ok loaded
      obtain ⟨_, _, loaded⟩ := bind_eq_ok loaded
      obtain ⟨leaf_num, _, loaded⟩ := bind_eq_ok loaded
      obtain ⟨_, _, loaded⟩ := bind_eq_ok loaded
      obtain ⟨phi_f, _, loaded⟩ := bind_eq_ok loaded
      obtain ⟨_, _, loaded⟩ := bind_eq_ok loaded
      obtain ⟨phi_r, _, loaded⟩ := bind_eq_ok loaded
      obtain ⟨_, _, loaded⟩ := bind_eq_ok loaded
      obtain ⟨raw_dirty_leaf, _, loaded⟩ := bind_eq_ok loaded
      obtain ⟨ids, _, loaded⟩ := bind_eq_ok loaded
      obtain ⟨_, dirty, loaded⟩ := bind_eq_ok loaded
      obtain ⟨new_phi_f, _, loaded⟩ := bind_eq_ok loaded
      obtain ⟨new_phi_r, _, loaded⟩ := bind_eq_ok loaded
      obtain ⟨_, passed, loaded⟩ := bind_eq_ok loaded
      obtain rfl := Except.ok.inj loaded
      exact sound_of_checks (dirty_of_checkDirty dirty) passed
  | null => cases loaded
  | bool => cases loaded
  | int => cases loaded
  | float => cases loaded
  | str => cases loaded
  | list => cases loaded

/-! ## What a construction loads -/

/-- The maps are loaded as they are, and the leaves that are not to be merged
may have become dirty. -/
structure Loaded (maps maps' : Maps) : Prop where
  leaf_num : maps'.leaf_num = maps.leaf_num
  phi_f : maps'.phi_f = maps.phi_f
  phi_r : maps'.phi_r = maps.phi_r
  dirty_leaf : maps'.dirty_leaf = maps.dirty_leaf ∨
    maps'.dirty_leaf = maps.dirty_leaf ∪ leafIds maps.leaf_num

theorem Loaded.refl (maps : Maps) : Loaded maps maps := ⟨rfl, rfl, rfl, .inl rfl⟩

theorem Loaded.allDirty
    {maps' : Maps}
    (loaded : Loaded maps maps') :
    Loaded maps { maps' with
      dirty_leaf := maps'.dirty_leaf ∪ leafIds maps'.leaf_num } := by
  refine ⟨loaded.leaf_num, loaded.phi_f, loaded.phi_r, .inr ?_⟩
  show maps'.dirty_leaf ∪ leafIds maps'.leaf_num = _
  rw [loaded.leaf_num]
  rcases loaded.dirty_leaf with same | all
  · rw [same]
  · rw [all, Finset.union_assoc, Finset.union_self]

theorem Loaded.sound
    {maps' : Maps}
    (loaded : Loaded maps maps')
    (sound : maps.Sound) : maps'.Sound where
  inverse := by
    rw [loaded.phi_f, loaded.phi_r]
    exact sound.inverse
  ids := by
    rw [loaded.phi_r, loaded.leaf_num]
    exact sound.ids
  dirty := by
    rw [loaded.leaf_num]
    intro node_id member
    rcases loaded.dirty_leaf with same | all
    · rw [same] at member
      exact sound.dirty node_id member
    · rw [all, Finset.mem_union] at member
      exact member.elim (sound.dirty node_id) Finset.mem_Ico.mp

/-- A command does not change the maps. -/
theorem preserves_memory
    {Q : Maps -> Prop}
    (cmd : Command Leaf Root) :
    Preserves (handler fns) (Fault fns) (fun s => Q s.1.toMaps)
      (call cmd : CacheM Leaf Root _) :=
  preserves_call (fun _ _ before => before) fun _ _ _ before _ => before

theorem preserves_memory_fail
    {Q : Maps -> Prop}
    (error : PyError) :
    Preserves (handler fns) (Fault fns) (fun s => Q s.1.toMaps)
      (fail error : CacheM Leaf Root Out) :=
  Preserves.bind (preserves_modify fun _ _ before => before) fun _ =>
    preserves_raise error

theorem preserves_loaded_loadRoot :
    Preserves (handler fns) (Fault fns) (fun s => Loaded maps s.1.toMaps)
      (loadRoot : CacheM Leaf Root Unit) :=
  Preserves.bind (preserves_memory _) fun _ =>
    Preserves.bind (preserves_memory _) fun _ =>
      preserves_modify fun _ _ before => before

theorem preserves_loaded_item
    [DecidableEq K]
    (d : Dict K V)
    (key : K)
    (name : String) :
    Preserves (handler fns) (Fault fns) (fun s => Loaded maps s.1.toMaps)
      (item d key name : CacheM Leaf Root V) := by
  unfold item
  split
  · exact preserves_pure _
  · exact preserves_raise _

theorem preserves_loaded_recoverRoot :
    Preserves (handler fns) (Fault fns) (fun s => Loaded maps s.1.toMaps)
      (recoverRoot : CacheM Leaf Root Unit) := by
  refine preserves_get.bind fun m => ?_
  refine (preserves_loaded_item _ _ _).bind fun root_token => ?_
  refine Preserves.bind (preserves_memory _) fun _ => ?_
  refine Preserves.bind (preserves_memory _) fun _ => ?_
  split
  · refine Preserves.bind (Preserves.bind (preserves_memory _) fun _ =>
      Preserves.bind (preserves_memory _) fun _ => preserves_pure _) fun node => ?_
    refine Preserves.bind (Preserves.bind (preserves_memory _) fun _ =>
      preserves_modify fun _ _ before => before) fun _ => ?_
    refine preserves_get.bind fun m => ?_
    exact Preserves.bind (preserves_memory _) fun _ => preserves_memory _
  · split
    · exact preserves_memory_fail _
    · exact preserves_modify fun _ _ before => before.allDirty

/-- Wherever a construction ends, its object has no maps yet, or those that the
validation lets through. -/
theorem loaded_of_ends
    {alloc : ShareVec Root}
    {ending : Ending PyError Unit}
    {s' : Cache Root × World Leaf Root}
    (document : w.meta? = some (.json value))
    (ends : Ends (handler fns) (Fault fns) (constructWithin cfg max_str_digits)
      (initial alloc, w) ending s') :
    (s'.1.toMaps = Maps.blank ∧ ∀ out, ending ≠ .returned out) ∨
      ∃ maps, loadMeta max_str_digits cfg.bf_size cfg.ell_root value = .ok maps ∧
        Loaded maps s'.1.toMaps := by
  have there : (w.disk.get? metaPath).isSome = true := by
    have found : w.disk.get? metaPath = some (.json value) := document
    rw [found]
    rfl
  have none : Preserves (handler fns) (Fault fns) (fun s => s.1.toMaps = Maps.blank)
      (loadJson.tryExcept fun _ => fail (.RuntimeError
        "meta.json is malformed or corrupt") : CacheM Leaf Root PyJson) :=
    Preserves.tryExcept (preserves_memory (Q := fun maps => maps = Maps.blank) _)
      fun _ => preserves_memory_fail (Q := fun maps => maps = Maps.blank) _
  unfold constructWithin at ends
  rcases ends_bind ends with
    ⟨found, middle, start, rest⟩ | ⟨error, rfl, start⟩ | ⟨rfl, start⟩
  · have ended := reading_pathExists.determined _ _ _ start
    rw [run_pathExists, there] at ended
    cases ended
    rw [if_pos rfl] at rest
    rcases ends_bind rest with
      ⟨loaded, middle, start, rest⟩ | ⟨error, rfl, start⟩ | ⟨rfl, start⟩
    · have ended := (reading_loadMeta _).determined _ _ _ start
      rw [run_tryExcept_of_returned _ (run_loadJson document)] at ended
      cases ended
      split at rest
      · next error _ =>
          refine .inl ⟨preserves_memory_fail (Q := fun maps => maps = Maps.blank)
            error _ _ _ rfl rest, ?_⟩
          rintro out rfl
          cases (reading_fail error).determined _ _ _ rest
      · next maps passed =>
          rcases ends_modify_bind rest with ⟨rfl, rfl⟩ | rest
          · exact .inl ⟨rfl, nofun⟩
          refine .inr ⟨maps, passed, ?_⟩
          have before : Loaded maps maps := Loaded.refl maps
          split at rest
          · refine Preserves.bind (preserves_memory _) (fun _ => ?_) _ _ _ before rest
            refine Preserves.bind (preserves_memory _) fun _ => ?_
            split
            · exact preserves_loaded_loadRoot
            · exact preserves_loaded_recoverRoot
          · exact preserves_pure (Q := fun s => Loaded maps s.1.toMaps) () _ _ _ before rest
    · exact .inl ⟨none _ _ _ rfl start, nofun⟩
    · exact .inl ⟨none _ _ _ rfl start, nofun⟩
  · exact .inl ⟨preserves_memory (Q := fun maps => maps = Maps.blank) _ _ _ _ rfl start,
      nofun⟩
  · exact .inl ⟨preserves_memory (Q := fun maps => maps = Maps.blank) _ _ _ _ rfl start,
      nofun⟩

/-! ## The result -/

/-- What a valid object writes to `meta.json` is read back by every new object
of the same parameters, with the same maps and the same dirty leaves; where
`str` does not convert one of its node ids, nothing is written.  Whatever stands
in `meta.json`, an object behind the validation has maps that undo each other,
on the nodes of a tree. -/
theorem meta_round_trip
    [Zero Root]
    (cfg : Config)
    (fns : Functions Leaf Root)
    (max_str_digits : Option Nat) :
    (∀ m w, Reached cfg fns (some m) w -> m.corrupted = false ->
      if m.toMaps.printable max_str_digits then
        ∃ w', run (handler fns) (markValidWithin cfg max_str_digits) (m, w) =
            (.returned (), m, w') ∧
          w'.meta? = some (.json (validMeta cfg m.toMaps)) ∧
          (w.meta? = w'.meta? ∨ w.disk = ∅ ∧ m.toMaps = Maps.blank) ∧
          ∀ (fns' : Functions Leaf Root) alloc w₀, w₀ = w ∨ w₀ = w' ->
            ∃ m' w₁, run (handler fns') (constructWithin cfg max_str_digits)
                (initial alloc, w₀) = (.returned (), m', w₁) ∧
              m'.toMaps = m.toMaps
      else ∃ error, run (handler fns) (markValidWithin cfg max_str_digits) (m, w) =
        (.raised error, m, w)) ∧
    ∀ value w alloc ending s', w.meta? = some (.json value) ->
      Ends (handler fns) (Fault fns) (constructWithin cfg max_str_digits)
        (initial alloc, w) ending s' ->
        (s'.1.toMaps = Maps.blank ∧ ∀ out, ending ≠ .returned out) ∨
          ∃ maps, loadMeta max_str_digits cfg.bf_size cfg.ell_root value = .ok maps ∧
            Loaded maps s'.1.toMaps ∧ s'.1.toMaps.Sound := by
  constructor
  · intro m w reached valid
    obtain ⟨holders, live⟩ := (recoverable_of_reached reached).object m rfl valid
    split
    · next printable =>
        have live' : Live (plain Leaf Root) cfg
            (m, w.dumpMeta (validMeta cfg m.toMaps)) holders := by
          have marked : Live (plain Leaf Root) cfg (committed cfg m m.toMaps w) holders :=
            live_committed live.stored live.present
          have same : committed cfg m m.toMaps w =
              (m, w.dumpMeta (validMeta cfg m.toMaps)) := by
            rw [committed, ← valid]
          rwa [same] at marked
        refine ⟨w.dumpMeta (validMeta cfg m.toMaps), ?_, World.meta?_dumpMeta _, ?_, ?_⟩
        · rw [run_markValidWithin printable, run_markValid, ← valid]
          rfl
        · rw [World.meta?_dumpMeta]
          exact live.document
        · rintro fns' alloc w₀ (rfl | rfl)
          · obtain ⟨root_node, w₁, ended, _⟩ := run_constructWithin fns' printable live alloc
            exact ⟨_, w₁, ended, rfl⟩
          · obtain ⟨root_node, w₁, ended, _⟩ := run_constructWithin fns' printable live' alloc
            exact ⟨_, w₁, ended, rfl⟩
    · next exceeded => exact ⟨_, run_markValidWithin_of_exceeded exceeded⟩
  · intro value w alloc ending s' document ends
    rcases loaded_of_ends document ends with early | ⟨maps, passed, loaded⟩
    · exact .inl early
    · exact .inr ⟨maps, passed, loaded, loaded.sound (sound_of_loadMeta passed)⟩
/-- A document of one leaf, in which the node id has a space and a digit that
are not ASCII. -/
def bitDocument : PyJson :=
  .dict [("state", .str "valid"), ("bf_size", .int 1), ("ell_root", .int 13),
    ("leaf_num", .int 1), ("phi_f", .dict [("leaf", .int 1)]),
    ("phi_r", .dict [("\u2009\u0661", .str "leaf")]), ("dirty_leaf", .list [.int 1])]

/-- What is constructed from it, where the files of the leaf are missing. -/
def bitLoaded : Outcome PyError Unit × (Cache Nat × World Bool Nat) :=
  run (handler bitFunctions) (constructWithin bitConfig (some 4300))
    (bitStart.1, bitStart.2.dumpMeta bitDocument)

theorem meta_round_trip_bit :
    (∃ w', run (handler bitFunctions) (markValidWithin bitConfig (some 4300))
        (bitState 5) = (.returned (), (bitState 5).1, w') ∧
      w'.meta? = some (.json (validMeta bitConfig (bitState 5).1.toMaps)) ∧
      ((bitState 5).2.meta? = w'.meta? ∨
        (bitState 5).2.disk = ∅ ∧ (bitState 5).1.toMaps = Maps.blank) ∧
      ∀ (fns' : Functions Bool Nat) alloc w₀, w₀ = (bitState 5).2 ∨ w₀ = w' ->
        ∃ m' w₁, run (handler fns') (constructWithin bitConfig (some 4300))
            (initial alloc, w₀) = (.returned (), m', w₁) ∧
          m'.toMaps = (bitState 5).1.toMaps) ∧
      ((bitLoaded.2.1.toMaps = Maps.blank ∧
          ∀ out, bitLoaded.1.ending ≠ .returned out) ∨
        ∃ maps, loadMeta (some 4300) bitConfig.bf_size bitConfig.ell_root
            bitDocument = .ok maps ∧
          Loaded maps bitLoaded.2.1.toMaps ∧ bitLoaded.2.1.toMaps.Sound) ∧
      bitLoaded.2.1.toMaps.leaf_num = 1 := by
  have valid : (bitState 5).1.corrupted = false := by decide +kernel
  have printable : (bitState 5).1.toMaps.printable (some 4300) := by decide +kernel
  have first := (meta_round_trip bitConfig bitFunctions (some 4300)).1 _ _
    (reached_bitState 5 (by decide +kernel)) valid
  rw [if_pos printable] at first
  exact ⟨first, (meta_round_trip bitConfig bitFunctions (some 4300)).2 bitDocument
    (bitStart.2.dumpMeta bitDocument) _ _ _ (World.meta?_dumpMeta _) (ends_run _ _),
    by decide +kernel⟩

end TreeCache
end Mpmt
