import Mpmt.TreeCache.Crash

/-!
# Construction after a crash

A construction writes nothing but the files of the root, and these only when
they are not both there.
-/

namespace Mpmt
namespace TreeCache

open Effects Heap

variable {Leaf Root Out Out' : Type} {fns : Functions Leaf Root} {cfg : Config}
variable {s s' : Cache Root × World Leaf Root} {w w' : World Leaf Root}

/-! ## Programs that only read -/

/-- A command that changes neither files nor the number of joint calls. -/
def Command.Reads : Command Leaf Root -> Prop
  | .exists _ | .iterdir | .json_load _ | .load_leaf _ | .load_root _ => True
  | _ => False

theorem fault_of_reads
    {cmd : Command Leaf Root}
    (reads : cmd.Reads)
    (fault : Fault fns cmd w w') : w' = w := by
  cases fault with
  | untouched => rfl
  | torn writes =>
      cases cmd with
      | json_dump => cases reads
      | save_leaf => cases reads
      | save_root => cases reads
      | «exists» => cases writes
      | iterdir => cases writes
      | json_load => cases writes
      | load_leaf => cases writes
      | load_root => cases writes
      | unlink => cases writes
      | merge => cases writes
      | ring_conv => cases writes
  | complete =>
      cases cmd with
      | json_dump => cases reads
      | save_leaf => cases reads
      | save_root => cases reads
      | «exists» => rfl
      | iterdir => rfl
      | json_load => rfl
      | load_leaf => rfl
      | load_root => rfl
      | unlink => cases reads
      | merge => cases reads
      | ring_conv => cases reads

/-- A part of the constructor that leaves the world alone. -/
structure Reading
    (fns : Functions Leaf Root)
    (prog : CacheM Leaf Root Out) : Prop where
  preserves : ∀ w : World Leaf Root,
    Preserves (handler fns) (Fault fns) (fun s => s.2 = w) prog
  determined : Determined (handler fns) (Fault fns) prog

theorem Reading.bind
    {prog : CacheM Leaf Root Out}
    {next : Out -> CacheM Leaf Root Out'}
    (first : Reading fns prog)
    (second : ∀ out, Reading fns (next out)) :
    Reading fns (prog >>= next) where
  preserves := fun w =>
    (first.preserves w).bind fun out => (second out).preserves w
  determined := first.determined.bind fun out => (second out).determined

theorem reading_pure (out : Out) :
    Reading fns (pure out : CacheM Leaf Root Out) :=
  ⟨fun _ => preserves_pure out, determined_pure out⟩

theorem reading_raise (error : PyError) :
    Reading fns (raise error : CacheM Leaf Root Out) :=
  ⟨fun _ => preserves_raise error, determined_raise error⟩

theorem reading_modify (f : Cache Root -> Cache Root) :
    Reading fns (modify f : CacheM Leaf Root Unit) :=
  ⟨fun _ => preserves_modify fun _ _ before => before, determined_modify f⟩

theorem reading_call
    {cmd : Command Leaf Root}
    (reads : cmd.Reads) :
    Reading fns (call (I := cacheInterface Leaf Root) cmd) where
  preserves := fun _ => preserves_call
    (fun _ w before => (fault_of_reads reads (.complete cmd w)).trans before)
    (fun _ _ _ before fault => (fault_of_reads reads fault).trans before)
  determined := determined_call (I := cacheInterface Leaf Root) cmd

theorem reading_pathExists {path : String} :
    Reading fns (pathExists path : CacheM Leaf Root Bool) :=
  reading_call (by exact trivial)

theorem reading_anyFile :
    Reading fns (anyFile : CacheM Leaf Root Bool) :=
  reading_call (by exact trivial)

theorem reading_fail (error : PyError) :
    Reading fns (fail error : CacheM Leaf Root Out) :=
  (reading_modify _).bind fun _ => reading_raise error

theorem reading_loadRoot :
    Reading fns (loadRoot : CacheM Leaf Root Unit) :=
  Reading.bind (reading_call (by exact trivial)) fun _ =>
    Reading.bind (reading_call (by exact trivial)) fun _ => reading_modify _

/-- `meta.json` is loaded, or the object is left corrupted. -/
theorem reading_loadMeta (error : PyError) :
    Reading fns
      (loadJson.tryExcept fun _ => fail error : CacheM Leaf Root PyJson) where
  preserves := fun w => ((reading_call (by exact trivial)).preserves w).tryExcept
    fun _ => (reading_fail error).preserves w
  determined := by
    refine Determined.tryExcept
      (determined_call (I := cacheInterface Leaf Root) _) ?_
    intro _ s out s' ends
    have failed : Ends (handler fns) (Fault fns)
        (modify (fun m : Cache Root => { m with corrupted := true }) >>=
          fun _ => raise error) s (.returned out) s' := ends
    rcases ends_modify_bind failed with ⟨same, _⟩ | rest
    · cases same
    · cases rest

/-- A reading part ends the whole, or hands on what its run gives. -/
theorem Reading.ends_bind
    {prog : CacheM Leaf Root Out}
    {next : Out -> CacheM Leaf Root Out'}
    {ending : Ending PyError Out'}
    (reading : Reading fns prog)
    (ends : Ends (handler fns) (Fault fns) (prog >>= next) s ending s') :
    s'.2 = s.2 ∧ (∀ out, ending ≠ .returned out) ∨
      ∃ out middle, run (handler fns) prog s = (.returned out, middle) ∧
        middle.2 = s.2 ∧
        Ends (handler fns) (Fault fns) (next out) middle ending s' := by
  rcases Effects.ends_bind ends with
    ⟨out, middle, start, rest⟩ | ⟨error, rfl, start⟩ | ⟨rfl, start⟩
  · exact .inr ⟨out, middle, reading.determined _ _ _ start,
      reading.preserves s.2 _ _ _ rfl start, rest⟩
  · exact .inl ⟨reading.preserves s.2 _ _ _ rfl start, nofun⟩
  · exact .inl ⟨reading.preserves s.2 _ _ _ rfl start, nofun⟩

/-! ## What a construction can write -/

/-- The files of the root may differ. -/
def OffRoot (w w' : World Leaf Root) : Prop :=
  ∀ path, path ≠ rootThisPath -> path ≠ rootNxtPath ->
    w'.disk.get? path = w.disk.get? path

/-- A command that changes no file but those of the root. -/
theorem preserves_offRoot
    {cmd : Command Leaf Root}
    (own : ∀ path, cmd.path? = some path ->
      path = rootThisPath ∨ path = rootNxtPath) :
    Preserves (handler fns) (Fault fns) (fun s => OffRoot w s.2)
      (call cmd : CacheM Leaf Root _) := by
  have apart : ∀ w₁ w₂ : World Leaf Root, OffRoot w w₁ -> Fault fns cmd w₁ w₂ ->
      OffRoot w w₂ := by
    intro w₁ w₂ before fault path this_ne nxt_ne
    rw [get?_fault fault fun same => (own path same).elim this_ne nxt_ne]
    exact before path this_ne nxt_ne
  exact preserves_call (fun _ w before => apart _ _ before (.complete cmd w))
    (fun _ _ _ before fault => apart _ _ before fault)

theorem preserves_offRoot_item
    [DecidableEq K]
    (d : Dict K V)
    (key : K)
    (name : String) :
    Preserves (handler fns) (Fault fns) (fun s => OffRoot w s.2)
      (item d key name : CacheM Leaf Root V) := by
  unfold item
  split
  · exact preserves_pure _
  · exact preserves_raise _

theorem preserves_offRoot_recoverRoot :
    Preserves (handler fns) (Fault fns) (fun s => OffRoot w s.2)
      (recoverRoot : CacheM Leaf Root Unit) := by
  refine preserves_get.bind fun m => ?_
  refine (preserves_offRoot_item _ _ _).bind fun root_token => ?_
  refine Preserves.bind (preserves_offRoot (by exact nofun)) fun _ => ?_
  refine Preserves.bind (preserves_offRoot (by exact nofun)) fun _ => ?_
  split
  · refine Preserves.bind (Preserves.bind (preserves_offRoot (by exact nofun))
      fun _ => Preserves.bind (preserves_offRoot (by exact nofun))
        fun _ => preserves_pure _) fun node => ?_
    refine Preserves.bind (Preserves.bind (preserves_offRoot (by exact nofun))
      fun _ => preserves_modify fun _ _ before => before) fun _ => ?_
    refine preserves_get.bind fun m => ?_
    refine Preserves.bind (preserves_offRoot ?_) fun _ => preserves_offRoot ?_
    · intro path same
      exact .inl (Option.some.inj same).symm
    · intro path same
      exact .inr (Option.some.inj same).symm
  · split
    · exact Preserves.bind (preserves_modify fun _ _ before => before)
        fun _ => preserves_raise _
    · exact preserves_modify fun _ _ before => before

/-- What is loaded from `meta.json` stands in it. -/
theorem document_of_run
    {error : PyError}
    (ran : run (handler fns)
      (loadJson.tryExcept fun _ => fail error : CacheM Leaf Root PyJson) s =
        (.returned value, s')) :
    s.2.meta? = some (.json value) := by
  have handled : (handler fns).handle (.json_load metaPath) s.2 =
      (s.2.load metaPath File.json?, s.2) := rfl
  cases load : s.2.load metaPath File.json? with
  | error cause =>
      rw [load] at handled
      have raised : run (handler fns) loadJson s = (.raised cause, s) :=
        run_call_error handled
      rw [run_tryExcept_of_raised _ raised] at ran
      cases ran
  | ok found =>
      rw [load] at handled
      have returned : run (handler fns) loadJson s = (.returned found, s) :=
        run_call_ok handled
      rw [run_tryExcept_of_returned _ returned] at ran
      cases ran
      unfold World.load at load
      split at load
      · next value' there =>
          obtain ⟨file, at_path, is_json⟩ := Option.bind_eq_some_iff.mp there
          cases load
          cases file with
          | json value =>
              cases is_json
              exact at_path
          | leaf => cases is_json
          | root => cases is_json
          | torn => cases is_json
      · cases load

private theorem pathExists_eq
    (ran : run (handler fns) (pathExists path : CacheM Leaf Root Bool) s =
      (.returned found, s')) :
    found = (s.2.disk.get? path).isSome := by
  obtain ⟨m, w⟩ := s
  rw [run_pathExists] at ran
  cases ran
  rfl

/-- `meta.json` passes the validation of the constructor. -/
def Loads (cfg : Config) (w : World Leaf Root) (maps : Maps) : Prop :=
  ∃ value, w.meta? = some (.json value) ∧
    loadMeta none cfg.bf_size cfg.ell_root value = .ok maps

/-- What a construction that returns has found. -/
def Found (cfg : Config) (w : World Leaf Root) : Prop :=
  w.meta? = none ∨ ∃ maps, Loads cfg w maps ∧
    (0 < maps.leaf_num -> w.hasRoot = true -> ∃ root, w.root? = some root)

private theorem root_of_load
    (ran : run (handler fns) (loadRoot : CacheM Leaf Root Unit) s =
      (.returned (), s')) :
    ∃ root, s.2.root? = some root := by
  obtain ⟨this_share, middle, first, rest⟩ := run_bind_returned_iff.mp ran
  obtain ⟨nxt_share, middle', second, _⟩ := run_bind_returned_iff.mp rest
  have load : ∀ {path : String} {value : Root}
      {s s' : Cache Root × World Leaf Root},
      run (handler fns)
          (call (I := cacheInterface Leaf Root) (.load_root path)) s =
        (.returned value, s') ->
      (s.2.disk.get? path).bind File.root? = some value ∧ s'.2 = s.2 := by
    intro path value s s' ran
    have handled : (handler fns).handle (.load_root path) s.2 =
        (s.2.load path File.root?, s.2) := rfl
    unfold World.load at handled
    split at handled
    · next value' there =>
        rw [run_call_ok handled] at ran
        cases ran
        exact ⟨there, rfl⟩
    · rw [run_call_error handled] at ran
      cases ran
  obtain ⟨this_found, same⟩ := load first
  obtain ⟨nxt_found, _⟩ := load second
  rw [same] at nxt_found
  exact ⟨⟨this_share, nxt_share⟩,
    World.root?_eq_some_iff.mpr ⟨this_found, nxt_found⟩⟩

/-- The ends of a construction: nothing is written; or the maps are loaded, the
files of the root are not both there, and nothing else is written. -/
theorem ends_construct
    {alloc : ShareVec Root}
    {ending : Ending PyError Unit}
    (ends : Ends (handler fns) (Fault fns) (construct cfg) (initial alloc, w)
      ending s') :
    s'.2 = w ∧ (∀ out, ending = .returned out -> Found cfg w) ∨
      ∃ maps, Loads cfg w maps ∧ 0 < maps.leaf_num ∧ w.hasRoot = false ∧
        OffRoot w s'.2 := by
  unfold construct constructWithin at ends
  rcases reading_pathExists.ends_bind ends with
    ⟨same, kind⟩ | ⟨there, middle, ran₀, same, ends⟩
  · exact .inl ⟨same, fun out returned => absurd returned (kind out)⟩
  have there_eq := pathExists_eq ran₀
  split at ends
  · rcases (reading_loadMeta _).ends_bind ends with
      ⟨same', kind⟩ | ⟨meta_data, middle', ran, same', ends⟩
    · exact .inl ⟨same'.trans same,
        fun out returned => absurd returned (kind out)⟩
    have w_eq : middle'.2 = w := same'.trans same
    have document := document_of_run ran
    rw [same] at document
    split at ends
    · refine .inl ⟨(reading_fail _).preserves w _ _ _ w_eq ends, ?_⟩
      rintro out rfl
      have ended := (reading_fail _).determined _ _ _ ends
      cases ended
    · next maps loaded =>
        have loads : Loads cfg w maps := ⟨meta_data, document, loaded⟩
        rcases ends_modify_bind ends with ⟨rfl, rfl⟩ | ends
        · exact .inl ⟨w_eq, nofun⟩
        split at ends
        · next some_leaf =>
            rcases reading_pathExists.ends_bind ends with
              ⟨same₁, kind⟩ | ⟨this_exists, middle₁, ran₁, same₁, ends⟩
            · exact .inl ⟨same₁.trans w_eq,
                fun out returned => absurd returned (kind out)⟩
            rcases reading_pathExists.ends_bind ends with
              ⟨same₂, kind⟩ | ⟨nxt_exists, middle₂, ran₂, same₂, ends⟩
            · exact .inl ⟨same₂.trans (same₁.trans w_eq),
                fun out returned => absurd returned (kind out)⟩
            have w_eq₂ : middle₂.2 = w := same₂.trans (same₁.trans w_eq)
            split at ends
            · refine .inl ⟨reading_loadRoot.preserves w _ _ _ w_eq₂ ends, ?_⟩
              rintro out rfl
              obtain ⟨root, found⟩ :=
                root_of_load (reading_loadRoot.determined _ _ _ ends)
              rw [w_eq₂] at found
              exact .inr ⟨maps, loads, fun _ _ => ⟨root, found⟩⟩
            · next missing =>
                refine .inr ⟨maps, loads, some_leaf, ?_, ?_⟩
                · have first := pathExists_eq ran₁
                  have second := pathExists_eq ran₂
                  rw [same₁] at second
                  dsimp only at first second
                  rw [w_eq] at first second
                  rw [World.hasRoot, ← first, ← second, ← Bool.not_eq_true,
                    Bool.and_eq_true]
                  exact missing
                · refine preserves_offRoot_recoverRoot _ _ _ ?_ ends
                  show OffRoot w middle₂.2
                  rw [w_eq₂]
                  exact fun _ _ _ => rfl
        · next leafless =>
            obtain ⟨rfl, _⟩ := ends_pure ends
            exact .inl ⟨w_eq, fun _ _ => .inr ⟨maps, loads,
              fun some_leaf => absurd some_leaf leafless⟩⟩
  · next absent =>
      rcases reading_anyFile.ends_bind ends with
        ⟨same', kind⟩ | ⟨_, middle', _, same', ends⟩
      · exact .inl ⟨same'.trans same,
          fun out returned => absurd returned (kind out)⟩
      have nothing : w.meta? = none := by
        rw [there_eq] at absent
        exact Option.not_isSome_iff_eq_none.mp absent
      split at ends
      · exact .inl ⟨(reading_raise _).preserves w _ _ _ (same'.trans same) ends,
          fun _ _ => .inl nothing⟩
      · exact .inl ⟨(reading_pure _).preserves w _ _ _ (same'.trans same) ends,
          fun _ _ => .inl nothing⟩

theorem determined_construct :
    Determined (handler fns) (Fault fns)
      (construct cfg : CacheM Leaf Root Unit) := by
  refine reading_pathExists.determined.bind fun _ => ?_
  split
  · refine (reading_loadMeta _).determined.bind fun _ => ?_
    split
    · exact (reading_fail _).determined
    · refine (determined_modify _).bind fun _ => ?_
      split
      · refine reading_pathExists.determined.bind fun _ => ?_
        refine reading_pathExists.determined.bind fun _ => ?_
        split
        · exact reading_loadRoot.determined
        · refine determined_get.bind fun m => ?_
          have found : ∀ d key name, Inner fns cfg (item d key name :
              CacheM Leaf Root String) := fun d key name =>
            inner_item (d : Dict Nat String) key name
          refine (found _ _ _).determined.bind fun root_token => ?_
          refine reading_pathExists.determined.bind fun _ => ?_
          refine reading_pathExists.determined.bind fun _ => ?_
          split
          · have whole : Inner fns cfg (do
                let node ← loadNode root_token
                ringConv node
                saveRoot : CacheM Leaf Root Unit) :=
              (inner_loadNode _).bind fun _ =>
                (inner_ringConv _).bind fun _ => inner_saveRoot
            exact whole.determined
          · split
            · exact (reading_fail _).determined
            · exact determined_modify _
      · exact determined_pure _
  · refine reading_anyFile.determined.bind fun _ => ?_
    split
    · exact determined_raise _
    · exact determined_pure _

end TreeCache
end Mpmt
