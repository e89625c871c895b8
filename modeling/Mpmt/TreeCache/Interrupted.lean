import Mpmt.Library.Faults
import Mpmt.TreeCache.Refines

/-!
# Interrupted operations

Between the two writes of `meta.json` an operation leaves that file alone, and
its object is corrupted.  An operation that is interrupted therefore leaves the
directory as it was, or without a valid `meta.json`, or as its completion does.
-/

namespace Mpmt
namespace TreeCache

open Effects

variable {Leaf Root Out Out' : Type} {fns : Functions Leaf Root} {cfg : Config}

/-! ## Faults -/

/-- The file that a command writes. -/
def Command.write? :
    Command Leaf Root -> Option (String × File Leaf Root)
  | .json_dump path value => some (path, .json value)
  | .save_leaf path value => some (path, .leaf value)
  | .save_root path value => some (path, .root value)
  | _ => none

/-- The file that a command changes. -/
def Command.path? : Command Leaf Root -> Option String
  | .json_dump path _ => some path
  | .save_leaf path _ => some path
  | .save_root path _ => some path
  | .unlink path => some path
  | _ => none

/-- A command that fails, or in which the process stops, has done nothing, has
left its file with a part of the content, or has done what it should. -/
inductive Fault (fns : Functions Leaf Root) :
    Command Leaf Root -> World Leaf Root -> World Leaf Root -> Prop
  | untouched (cmd w) : Fault fns cmd w w
  | torn {cmd w path file}
      (writes : Command.write? cmd = some (path, file)) :
      Fault fns cmd w (w.write path .torn)
  | complete (cmd w) : Fault fns cmd w ((handler fns).handle cmd w).2

/-- A command changes no file but its own. -/
theorem get?_fault
    {cmd : Command Leaf Root}
    {w w' : World Leaf Root}
    (fault : Fault fns cmd w w')
    (apart : cmd.path? ≠ some path) : w'.disk.get? path = w.disk.get? path := by
  cases fault with
  | untouched => rfl
  | torn writes =>
      cases cmd with
      | json_dump other value =>
          cases writes
          exact Dict.get?_set_of_ne _ _ fun same => apart (same ▸ rfl)
      | save_leaf other value =>
          cases writes
          exact Dict.get?_set_of_ne _ _ fun same => apart (same ▸ rfl)
      | save_root other value =>
          cases writes
          exact Dict.get?_set_of_ne _ _ fun same => apart (same ▸ rfl)
      | «exists» => cases writes
      | iterdir => cases writes
      | json_load => cases writes
      | load_leaf => cases writes
      | load_root => cases writes
      | unlink => cases writes
      | merge => cases writes
      | ring_conv => cases writes
  | complete =>
      cases cmd with
      | json_dump other value =>
          exact Dict.get?_set_of_ne _ _ fun same => apart (same ▸ rfl)
      | save_leaf other value =>
          exact Dict.get?_set_of_ne _ _ fun same => apart (same ▸ rfl)
      | save_root other value =>
          exact Dict.get?_set_of_ne _ _ fun same => apart (same ▸ rfl)
      | unlink other =>
          exact Dict.get?_del_of_ne _ fun same => apart (same ▸ rfl)
      | «exists» => rfl
      | iterdir => rfl
      | json_load => rfl
      | load_leaf => rfl
      | load_root => rfl
      | merge => rfl
      | ring_conv => rfl

/-! ## Between the two writes -/

/-- An operation has begun and not ended. -/
def Between
    (cfg : Config)
    (maps : Maps)
    (s : Cache Root × World Leaf Root) : Prop :=
  s.1.corrupted = true ∧ s.2.meta? = some (.json (dirtyMeta cfg maps))

/-- A part of an operation between the two writes. -/
structure Inner
    (fns : Functions Leaf Root)
    (cfg : Config)
    (prog : CacheM Leaf Root Out) : Prop where
  preserves : ∀ maps,
    Preserves (handler fns) (Fault fns) (Between cfg maps) prog
  determined : Determined (handler fns) (Fault fns) prog

theorem Inner.bind
    {prog : CacheM Leaf Root Out}
    {next : Out -> CacheM Leaf Root Out'}
    (first : Inner fns cfg prog)
    (second : ∀ out, Inner fns cfg (next out)) :
    Inner fns cfg (prog >>= next) where
  preserves := fun maps =>
    (first.preserves maps).bind fun out => (second out).preserves maps
  determined := first.determined.bind fun out => (second out).determined

theorem inner_pure (out : Out) :
    Inner fns cfg (pure out : CacheM Leaf Root Out) :=
  ⟨fun _ => preserves_pure out, determined_pure out⟩

theorem inner_raise (error : PyError) :
    Inner fns cfg (raise error : CacheM Leaf Root Out) :=
  ⟨fun _ => preserves_raise error, determined_raise error⟩

theorem inner_get : Inner fns cfg (get : CacheM Leaf Root (Cache Root)) :=
  ⟨fun _ => preserves_get, determined_get⟩

theorem inner_modify
    {f : Cache Root -> Cache Root}
    (kept : ∀ m, (f m).corrupted = m.corrupted) :
    Inner fns cfg (modify f : CacheM Leaf Root Unit) where
  preserves := fun _ => preserves_modify fun m _ before =>
    ⟨(kept m).trans before.1, before.2⟩
  determined := determined_modify f

theorem inner_call
    {cmd : Command Leaf Root}
    (apart : cmd.path? ≠ some metaPath) :
    Inner fns cfg (call (I := cacheInterface Leaf Root) cmd) where
  preserves := fun _ => preserves_call
    (fun _ w before =>
      ⟨before.1, (get?_fault (.complete cmd w) apart).trans before.2⟩)
    (fun _ _ _ before fault =>
      ⟨before.1, (get?_fault fault apart).trans before.2⟩)
  determined := determined_call (I := cacheInterface Leaf Root) cmd

theorem inner_forM
    {body : Out -> CacheM Leaf Root Unit}
    (step : ∀ out, Inner fns cfg (body out))
    (outs : List Out) :
    Inner fns cfg (forM outs body : CacheM Leaf Root Unit) where
  preserves := fun maps =>
    preserves_forM (fun out => (step out).preserves maps) outs
  determined := determined_forM (fun out => (step out).determined) outs

theorem inner_item
    [DecidableEq K]
    (d : Dict K V)
    (key : K)
    (name : String) :
    Inner fns cfg (item d key name : CacheM Leaf Root V) := by
  unfold item
  split
  · exact inner_pure _
  · exact inner_raise _

theorem inner_delItem
    [DecidableEq K]
    (d : Dict K V)
    (key : K)
    (name : String) :
    Inner fns cfg (delItem d key name : CacheM Leaf Root (Dict K V)) := by
  unfold delItem
  split
  · exact inner_pure _
  · exact inner_raise _

theorem inner_loadNode (token : String) :
    Inner fns cfg (loadNode token : CacheM Leaf Root _) :=
  (inner_call (by exact nofun)).bind fun _ => (inner_call (by exact nofun)).bind fun _ =>
    inner_pure _

theorem inner_saveNode (token : String) (node : ShareVec Leaf) :
    Inner fns cfg (saveNode token node : CacheM Leaf Root _) :=
  (inner_call (by simp [Command.path?])).bind fun _ =>
    inner_call (by simp [Command.path?])

theorem inner_unlink
    (apart : path ≠ metaPath) :
    Inner fns cfg (unlink path : CacheM Leaf Root _) :=
  inner_call (by simpa [Command.path?] using apart)

theorem inner_unlinkNode (token : String) :
    Inner fns cfg (unlinkNode token : CacheM Leaf Root _) :=
  (inner_unlink (by simp)).bind fun _ => inner_unlink (by simp)

theorem inner_ringConv (sv : ShareVec Leaf) :
    Inner fns cfg (ringConv sv : CacheM Leaf Root _) :=
  (inner_call (by exact nofun)).bind fun _ => inner_modify (by exact fun _ => rfl)

theorem inner_saveRoot : Inner fns cfg (saveRoot : CacheM Leaf Root _) :=
  inner_get.bind fun _ =>
    (inner_call (by simp [Command.path?, rootThisPath])).bind fun _ =>
      inner_call (by simp [Command.path?, rootNxtPath])

theorem inner_rootFilesExist :
    Inner fns cfg (rootFilesExist : CacheM Leaf Root _) := by
  refine Inner.bind (inner_call (by exact nofun)) fun found => ?_
  split
  · exact inner_call (by exact nofun)
  · exact inner_pure _

theorem inner_newToken (draws : List Dpf.Bytes16) :
    Inner fns cfg (newToken draws : CacheM Leaf Root _) := by
  refine inner_get.bind fun m => ?_
  split
  · exact inner_pure _
  · constructor
    · intro maps s ending s' before ends
      cases ends
      exact before
    · intro s out s' ends
      cases ends

private theorem preserves_cleanup
    (maps : Maps)
    (token : String)
    (error : PyError) :
    Preserves (handler fns) (Fault fns) (Between cfg maps)
      (do
        (unlink (thisPath token)).tryExcept fun _ => pure ()
        (unlink (nxtPath token)).tryExcept fun _ => pure ()
        raise error : CacheM Leaf Root Unit) :=
  (((inner_unlink (by simp)).preserves maps).tryExcept
    fun _ => preserves_pure ()).bind fun _ =>
      (((inner_unlink (by simp)).preserves maps).tryExcept
        fun _ => preserves_pure ()).bind fun _ => preserves_raise error

/-- The handler of a failed save raises again. -/
theorem inner_saveNewNode (token : String) (node : ShareVec Leaf) :
    Inner fns cfg (saveNewNode token node : CacheM Leaf Root _) where
  preserves := fun maps =>
    ((inner_saveNode token node).preserves maps).tryExcept fun error =>
      preserves_cleanup maps token error
  determined := by
    have saved : Inner fns cfg (saveNode token node : CacheM Leaf Root _) :=
      inner_saveNode token node
    refine saved.determined.tryExcept ?_
    intro error s out s' ends
    rcases ends_bind ends with
      ⟨_, middle, _, rest⟩ | ⟨_, same, _⟩ | ⟨same, _⟩
    · rcases ends_bind rest with
        ⟨_, middle, _, rest⟩ | ⟨_, same, _⟩ | ⟨same, _⟩
      · cases rest
      · cases same
      · cases same
    · cases same
    · cases same

/-! ## The parts of the operations -/

theorem inner_splitFirst (draws : List Dpf.Bytes16) (token : String) :
    Inner fns cfg (splitFirst draws token : CacheM Leaf Root _) := by
  refine inner_get.bind fun m => ?_
  refine (inner_item _ _ _).bind fun _ => ?_
  refine (inner_modify (by exact fun _ => rfl)).bind fun _ => ?_
  refine (inner_newToken draws).bind fun _ => ?_
  exact inner_modify (by exact fun _ => rfl)

theorem inner_placeFirst (token : String) :
    Inner fns cfg (placeFirst token : CacheM Leaf Root _) :=
  inner_modify (by exact fun _ => rfl)

theorem inner_removeLast (del_token : String) :
    Inner fns cfg (removeLast del_token : CacheM Leaf Root _) := by
  refine inner_get.bind fun m => ?_
  refine (inner_delItem _ _ _).bind fun _ => ?_
  refine (inner_delItem _ _ _).bind fun _ => ?_
  exact (inner_modify (by exact fun _ => rfl)).bind fun _ => inner_pure _

theorem inner_collapseLast (del_token : String) (del_id : Nat) :
    Inner fns cfg (collapseLast del_token del_id : CacheM Leaf Root _) := by
  refine inner_get.bind fun m => ?_
  refine (inner_item _ _ _).bind fun _ => ?_
  refine (inner_item _ _ _).bind fun _ => ?_
  refine (inner_item _ _ _).bind fun _ => ?_
  refine (inner_delItem _ _ _).bind fun _ => ?_
  refine (inner_delItem _ _ _).bind fun _ => ?_
  refine (inner_delItem _ _ _).bind fun _ => ?_
  refine (inner_delItem _ _ _).bind fun _ => ?_
  exact (inner_modify (by exact fun _ => rfl)).bind fun _ => inner_pure _

theorem inner_mergeNode (node : Nat) :
    Inner fns cfg (mergeNode node : CacheM Leaf Root _) := by
  refine inner_get.bind fun m => ?_
  refine (inner_item _ _ _).bind fun _ => ?_
  refine (inner_item _ _ _).bind fun _ => ?_
  refine (inner_item _ _ _).bind fun _ => ?_
  refine (inner_loadNode _).bind fun _ => ?_
  refine (inner_loadNode _).bind fun _ => ?_
  refine Inner.bind (inner_call (by exact nofun)) fun _ => ?_
  refine (inner_saveNode _ _).bind fun _ => ?_
  split
  · exact (inner_ringConv _).bind fun _ => inner_saveRoot
  · exact inner_pure _

theorem inner_mergeNone [Zero Root] :
    Inner fns cfg (mergeNone : CacheM Leaf Root _) := by
  refine (inner_modify (by exact fun _ => rfl)).bind fun _ => ?_
  refine (inner_unlink (by simp [rootThisPath])).bind fun _ => ?_
  refine (inner_unlink (by simp [rootNxtPath])).bind fun _ => ?_
  exact inner_modify (by exact fun _ => rfl)

theorem inner_mergeSingle : Inner fns cfg (mergeSingle : CacheM Leaf Root _) := by
  refine inner_rootFilesExist.bind fun _ => inner_get.bind fun m => ?_
  have clear : Inner fns cfg
      (modify fun m => { m with dirty_leaf := ∅ } : CacheM Leaf Root _) :=
    inner_modify (by exact fun _ => rfl)
  split
  · refine (inner_item _ _ _).bind fun _ => ?_
    refine (inner_loadNode _).bind fun _ => ?_
    refine (inner_ringConv _).bind fun _ => ?_
    exact inner_saveRoot.bind fun _ => clear
  · exact clear

theorem inner_mergeTree : Inner fns cfg (mergeTree : CacheM Leaf Root _) := by
  refine inner_get.bind fun m => ?_
  refine (inner_modify (by exact fun _ => rfl)).bind fun _ => ?_
  exact inner_forM inner_mergeNode _

end TreeCache
end Mpmt
