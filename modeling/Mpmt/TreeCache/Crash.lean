import Mpmt.TreeCache.Interrupted
import Mpmt.TreeCache.Restart

/-!
# Crashes

Whatever interrupts an operation, a later construction finds the cache as it
was before the operation or as it is behind it, or raises; and an object that an
exception has left behind its first write does nothing any more.
-/

namespace Mpmt
namespace TreeCache

open Effects

variable {Leaf Root Out Out' : Type} {fns : Functions Leaf Root} {cfg : Config}
variable {s s' : Cache Root × World Leaf Root}

/-! ## The last write -/

/-- `meta.json` has been begun, or is that of an operation that has not
ended. -/
def Broken (cfg : Config) (w : World Leaf Root) : Prop :=
  w.meta? = some .torn ∨ ∃ maps, w.meta? = some (.json (dirtyMeta cfg maps))

/-- A command that does not return leaves what its fault leaves. -/
theorem ends_call
    {cmd : Command Leaf Root}
    {ending : Ending PyError (Command.Reply Leaf Root cmd)}
    (ends : Ends (handler fns) (Fault fns)
      (call (I := cacheInterface Leaf Root) cmd) s ending s') :
    s'.1 = s.1 ∧ Fault fns cmd s.2 s'.2 := by
  cases ends with
  | stop => exact ⟨rfl, .untouched _ _⟩
  | @ok _ _ _ _ _ _ reply w handled rest =>
      have done : Fault fns cmd s.2 _ := .complete cmd s.2
      rw [handled] at done
      cases rest with
      | stop => exact ⟨rfl, done⟩
      | ret => exact ⟨rfl, done⟩
  | @error _ _ _ _ _ _ error w handled rest =>
      have done : Fault fns cmd s.2 _ := .complete cmd s.2
      rw [handled] at done
      cases rest with
      | stop => exact ⟨rfl, done⟩
      | raise => exact ⟨rfl, done⟩
  | fault error broken rest =>
      cases rest with
      | stop => exact ⟨rfl, broken⟩
      | raise => exact ⟨rfl, broken⟩
  | cut broken => exact ⟨rfl, broken⟩

/-- What a write of `meta.json` leaves. -/
theorem fault_json_dump
    {w w' : World Leaf Root}
    (fault : Fault fns (.json_dump metaPath value) w w') :
    w' = w ∨ w'.meta? = some .torn ∨ w' = w.dumpMeta value := by
  cases fault with
  | untouched => exact .inl rfl
  | torn writes =>
      cases writes
      exact .inr (.inl (Dict.get?_set_self _ _ _))
  | complete => exact .inr (.inr rfl)

/-- The ends of a program that has marked the cache: the directory is broken, or
it is as the completion of the program leaves it. -/
def Commits
    (fns : Functions Leaf Root)
    (cfg : Config)
    (prog : CacheM Leaf Root Out) : Prop :=
  ∀ maps s ending s', Between cfg maps s ->
    Ends (handler fns) (Fault fns) prog s ending s' ->
      s'.1.corrupted = true ∧
        (Broken cfg s'.2 ∨ ∃ out s'', run (handler fns) prog s =
          (.returned out, s'') ∧ s'.2 = s''.2) ∨
      (∀ error, ending ≠ .raised error) ∧
        ∃ out, run (handler fns) prog s = (.returned out, s')

theorem Commits.bind
    {prog : CacheM Leaf Root Out}
    {next : Out -> CacheM Leaf Root Out'}
    (first : Inner fns cfg prog)
    (second : ∀ out, Commits fns cfg (next out)) :
    Commits fns cfg (prog >>= next) := by
  intro maps s ending s' before ends
  rcases ends_bind ends with
    ⟨out, middle, start, rest⟩ | ⟨error, _, start⟩ | ⟨_, start⟩
  · rw [run_bind_of_returned (first.determined _ _ _ start)]
    exact second out maps middle ending s'
      (first.preserves maps _ _ _ before start) rest
  · have after := first.preserves maps _ _ _ before start
    exact .inl ⟨after.1, .inl (.inr ⟨maps, after.2⟩)⟩
  · have after := first.preserves maps _ _ _ before start
    exact .inl ⟨after.1, .inl (.inr ⟨maps, after.2⟩)⟩

/-- The last write is cut short, or everything is done. -/
theorem ends_markValid
    {ending : Ending PyError Unit}
    (ends : Ends (handler fns) (Fault fns) (markValid cfg) s ending s') :
    s'.1 = s.1 ∧
        Fault fns (.json_dump metaPath (validMeta cfg s.1.toMaps)) s.2 s'.2 ∨
      (∀ error, ending ≠ .raised error) ∧
        run (handler fns) (markValid cfg) s = (.returned (), s') := by
  unfold markValid at ends ⊢
  rcases ends_get_bind ends with ⟨_, rfl⟩ | ends
  · exact .inl ⟨rfl, .untouched _ _⟩
  rcases ends_bind ends with
    ⟨_, middle, dump, rest⟩ | ⟨error, _, dump⟩ | ⟨_, dump⟩
  · have dumped := determined_call (I := cacheInterface Leaf Root) _ _ _ _ dump
    have middle_eq : middle = (s.1, s.2.dumpMeta (validMeta cfg s.1.toMaps)) :=
      (Prod.mk.inj dumped).2.symm
    rw [middle_eq] at rest
    have rest' : Ends (handler fns) (Fault fns)
        (modify (fun m : Cache Root => { m with corrupted := false }) >>= pure)
        (s.1, s.2.dumpMeta (validMeta cfg s.1.toMaps)) ending s' := rest
    rcases ends_modify_bind rest' with ⟨_, rfl⟩ | rest
    · exact .inl ⟨rfl, .complete _ _⟩
    · obtain ⟨rfl, kind⟩ := ends_pure rest
      exact .inr ⟨kind, rfl⟩
  · exact .inl (ends_call dump)
  · exact .inl (ends_call dump)

/-- The last write commits. -/
theorem commits_markValid (out : Out) :
    Commits fns cfg
      (do
        markValid cfg
        return out : CacheM Leaf Root Out) := by
  intro maps s ending s' before ends
  have whole : run (handler fns)
      (do
        markValid cfg
        return out : CacheM Leaf Root Out) s =
      (.returned out, { s.1 with corrupted := false },
        s.2.dumpMeta (validMeta cfg s.1.toMaps)) := rfl
  have cut : s'.1 = s.1 ∧
      Fault fns (.json_dump metaPath (validMeta cfg s.1.toMaps)) s.2 s'.2 ->
      s'.1.corrupted = true ∧
        (Broken cfg s'.2 ∨ ∃ out' s'', run (handler fns)
          (do
            markValid cfg
            return out : CacheM Leaf Root Out) s =
          (.returned out', s'') ∧ s'.2 = s''.2) := by
    rintro ⟨same, fault⟩
    refine ⟨same ▸ before.1, ?_⟩
    rcases fault_json_dump fault with untouched | torn | complete
    · exact .inl (.inr ⟨maps, untouched ▸ before.2⟩)
    · exact .inl (.inl torn)
    · exact .inr ⟨out, _, whole, complete⟩
  rcases ends_bind ends with
    ⟨_, middle, start, rest⟩ | ⟨error, _, start⟩ | ⟨same, start⟩
  · obtain ⟨rfl, kind⟩ := ends_pure rest
    rcases ends_markValid start with short | ⟨_, ended⟩
    · exact .inl (cut short)
    · exact .inr ⟨kind, out, run_bind_of_returned ended _⟩
  · rcases ends_markValid start with short | ⟨kind, _⟩
    · exact .inl (cut short)
    · exact absurd rfl (kind error)
  · rcases ends_markValid start with short | ⟨_, ended⟩
    · exact .inl (cut short)
    · refine .inr ⟨?_, out, run_bind_of_returned ended _⟩
      rw [same]
      exact nofun

/-! ## Whole operations -/

/-- The ends of an operation: nothing has happened; or the object is corrupted,
and the directory is untouched, broken, or as the completion leaves it; or the
operation is complete. -/
def Atomic
    (fns : Functions Leaf Root)
    (cfg : Config)
    (prog : CacheM Leaf Root Out) : Prop :=
  ∀ s ending s', Ends (handler fns) (Fault fns) prog s ending s' ->
    s' = s ∧ (∀ error, ending = .raised error ->
        run (handler fns) prog s = (.raised error, s)) ∨
      s'.1.corrupted = true ∧
        (s'.2 = s.2 ∨ Broken cfg s'.2 ∨ ∃ out s'', run (handler fns) prog s =
          (.returned out, s'') ∧ s'.2 = s''.2) ∨
      (∀ error, ending ≠ .raised error) ∧
        ∃ out, run (handler fns) prog s = (.returned out, s')

theorem atomic_pure (out : Out) :
    Atomic fns cfg (pure out : CacheM Leaf Root Out) := by
  intro s ending s' ends
  obtain ⟨rfl, kind⟩ := ends_pure ends
  exact .inl ⟨rfl, fun error same => absurd same (kind error)⟩

theorem atomic_raise (error : PyError) :
    Atomic fns cfg (raise error : CacheM Leaf Root Out) := by
  intro s ending s' ends
  cases ends with
  | stop => exact .inl ⟨rfl, nofun⟩
  | raise =>
      refine .inl ⟨rfl, fun error' same => ?_⟩
      cases same
      rfl

theorem atomic_get_bind
    {next : Cache Root -> CacheM Leaf Root Out}
    (second : ∀ m, Atomic fns cfg (next m)) :
    Atomic fns cfg (get >>= next) := by
  intro s ending s' ends
  rcases ends_get_bind ends with ⟨stopped, rfl⟩ | rest
  · refine .inl ⟨rfl, fun error same => ?_⟩
    rw [stopped] at same
    cases same
  · rw [run_bind_of_returned run_get]
    exact second s.1 s ending s' rest

theorem atomic_checkCorrupted_bind
    {next : Unit -> CacheM Leaf Root Out}
    (second : Atomic fns cfg (next ())) :
    Atomic fns cfg (checkCorrupted >>= next) := by
  intro s ending s' ends
  have same : (checkCorrupted >>= next : CacheM Leaf Root Out) =
      get >>= fun m => (if m.corrupted then
        raise (.RuntimeError "TreeCache is corrupted and cannot be used")
        else pure ()) >>= next := by
    rfl
  rw [same] at ends ⊢
  refine atomic_get_bind (fun m => ?_) s ending s' ends
  split
  · exact atomic_raise _
  · exact second

/-- The first write is cut short, or the operation has begun. -/
theorem ends_markCorrupted
    {ending : Ending PyError Unit}
    (ends : Ends (handler fns) (Fault fns) (markCorrupted cfg) s ending s') :
    ending = .stopped ∧ s' = s ∨
      s'.1.corrupted = true ∧
        Fault fns (.json_dump metaPath (dirtyMeta cfg s.1.toMaps)) s.2 s'.2 := by
  unfold markCorrupted at ends
  rcases ends_modify_bind ends with nothing | ends
  · exact .inl nothing
  rcases ends_get_bind ends with ⟨_, rfl⟩ | ends
  · exact .inr ⟨rfl, .untouched _ _⟩
  · obtain ⟨same, fault⟩ := ends_call ends
    exact .inr ⟨same ▸ rfl, fault⟩

theorem determined_markCorrupted :
    Determined (handler fns) (Fault fns)
      (markCorrupted cfg : CacheM Leaf Root Unit) :=
  (determined_modify _).bind fun _ => determined_get.bind fun _ =>
    determined_call (I := cacheInterface Leaf Root) _

theorem atomic_markCorrupted_bind
    {next : Unit -> CacheM Leaf Root Out}
    (second : Commits fns cfg (next ())) :
    Atomic fns cfg (markCorrupted cfg >>= next) := by
  intro s ending s' ends
  rcases ends_bind ends with
    ⟨_, middle, start, rest⟩ | ⟨error, _, start⟩ | ⟨stopped, start⟩
  · have begun := determined_markCorrupted _ _ _ start
    rw [run_bind_of_returned begun]
    rw [run_markCorrupted] at begun
    obtain rfl := (Prod.mk.inj begun).2
    rcases second s.1.toMaps _ ending s'
        ⟨rfl, World.meta?_dumpMeta _⟩ rest with
      ⟨corrupted, broken⟩ | complete
    · exact .inr (.inl ⟨corrupted, .inr broken⟩)
    · exact .inr (.inr complete)
  · rcases ends_markCorrupted start with ⟨same, _⟩ | ⟨corrupted, fault⟩
    · cases same
    · refine .inr (.inl ⟨corrupted, ?_⟩)
      rcases fault_json_dump fault with untouched | torn | complete
      · exact .inl untouched
      · exact .inr (.inl (.inl torn))
      · refine .inr (.inl (.inr ⟨s.1.toMaps, ?_⟩))
        rw [complete, World.meta?_dumpMeta]
  · rcases ends_markCorrupted start with ⟨_, rfl⟩ | ⟨corrupted, fault⟩
    · refine .inl ⟨rfl, fun error same => ?_⟩
      rw [stopped] at same
      cases same
    · refine .inr (.inl ⟨corrupted, ?_⟩)
      rcases fault_json_dump fault with untouched | torn | complete
      · exact .inl untouched
      · exact .inr (.inl (.inl torn))
      · refine .inr (.inl (.inr ⟨s.1.toMaps, ?_⟩))
        rw [complete, World.meta?_dumpMeta]

/-- What is done with the result does not matter. -/
theorem Atomic.map
    {prog : CacheM Leaf Root Out}
    (atomic : Atomic fns cfg prog)
    (f : Out -> Out') :
    Atomic fns cfg (prog >>= fun out => pure (f out)) := by
  intro s ending s' ends
  rcases ends_bind ends with
    ⟨out, middle, start, rest⟩ | ⟨error, rfl, start⟩ | ⟨rfl, start⟩
  · obtain ⟨rfl, kind⟩ := ends_pure rest
    rcases atomic _ _ _ start with
      ⟨rfl, _⟩ | ⟨corrupted, files⟩ | ⟨_, out', ended⟩
    · exact .inl ⟨rfl, fun error same => absurd same (kind error)⟩
    · refine .inr (.inl ⟨corrupted, ?_⟩)
      rcases files with untouched | broken | ⟨out', s'', ended, same⟩
      · exact .inl untouched
      · exact .inr (.inl broken)
      · exact .inr (.inr ⟨_, s'', run_bind_of_returned ended _, same⟩)
    · exact .inr (.inr ⟨kind, _, run_bind_of_returned ended _⟩)
  · rcases atomic _ _ _ start with
      ⟨rfl, refused⟩ | ⟨corrupted, files⟩ | ⟨kind, _⟩
    · refine .inl ⟨rfl, fun error' same => ?_⟩
      cases same
      exact run_bind_of_raised (refused error rfl) _
    · refine .inr (.inl ⟨corrupted, ?_⟩)
      rcases files with untouched | broken | ⟨out', s'', ended, same⟩
      · exact .inl untouched
      · exact .inr (.inl broken)
      · exact .inr (.inr ⟨_, s'', run_bind_of_returned ended _, same⟩)
    · exact absurd rfl (kind error)
  · rcases atomic _ _ _ start with
      ⟨rfl, _⟩ | ⟨corrupted, files⟩ | ⟨_, out', ended⟩
    · exact .inl ⟨rfl, nofun⟩
    · refine .inr (.inl ⟨corrupted, ?_⟩)
      rcases files with untouched | broken | ⟨out', s'', ended, same⟩
      · exact .inl untouched
      · exact .inr (.inl broken)
      · exact .inr (.inr ⟨_, s'', run_bind_of_returned ended _, same⟩)
    · exact .inr (.inr ⟨nofun, _, run_bind_of_returned ended _⟩)

theorem atomic_insert (draws : List Dpf.Bytes16) (node : ShareVec Leaf) :
    Atomic fns cfg (insert cfg draws node : CacheM Leaf Root _) := by
  have finish : ∀ token : String, Commits fns cfg
      (do
        let m ← get
        let node_id ← item m.phi_f token token
        modify fun m =>
          { m with dirty_leaf := Insert.insert node_id m.dirty_leaf }
        markValid cfg
        return token : CacheM Leaf Root String) := fun token =>
    Commits.bind inner_get fun m =>
      Commits.bind (inner_item _ _ _) fun node_id =>
        Commits.bind (inner_modify (by exact fun _ => rfl)) fun _ =>
          commits_markValid token
  refine atomic_checkCorrupted_bind (atomic_markCorrupted_bind ?_)
  refine Commits.bind (inner_newToken draws) fun drawn => ?_
  refine Commits.bind (inner_saveNewNode _ _) fun _ => ?_
  refine Commits.bind inner_get fun m => ?_
  dsimp only
  split
  · exact Commits.bind (inner_placeFirst _) fun _ => finish _
  · exact Commits.bind (inner_splitFirst _ _) fun _ => finish _

theorem atomic_update (token : String) (new_node : ShareVec Leaf) :
    Atomic fns cfg (update cfg token new_node : CacheM Leaf Root _) := by
  refine atomic_checkCorrupted_bind (atomic_get_bind fun m => ?_)
  split
  · exact atomic_raise _
  · split
    · exact atomic_raise _
    · refine atomic_markCorrupted_bind ?_
      refine Commits.bind (inner_saveNode _ _) fun _ => ?_
      refine Commits.bind (inner_modify (by exact fun _ => rfl)) fun _ => ?_
      exact commits_markValid ()

/-- Both branches of a test go on with the same commands. -/
private theorem commits_branches
    {c : Prop}
    [Decidable c]
    {yes no : CacheM Leaf Root Out}
    {next : Out -> CacheM Leaf Root Out'}
    (atYes : Inner fns cfg yes)
    (atNo : Inner fns cfg no)
    (finish : ∀ out, Commits fns cfg (next out)) :
    Commits fns cfg (if c then yes >>= next else no >>= next) := by
  split
  · exact Commits.bind atYes finish
  · exact Commits.bind atNo finish

theorem atomic_remove (del_token : String) :
    Atomic fns cfg (remove cfg del_token : CacheM Leaf Root _) := by
  refine atomic_checkCorrupted_bind (atomic_get_bind fun m => ?_)
  split
  · exact atomic_pure ()
  · split
    · exact atomic_raise _
    · refine atomic_markCorrupted_bind ?_
      refine commits_branches (inner_removeLast _) (inner_collapseLast _ _)
        fun removed_internal_token => ?_
      refine Commits.bind (inner_unlinkNode _) fun _ => ?_
      cases removed_internal_token with
      | none => exact commits_markValid ()
      | some token =>
          exact Commits.bind (inner_unlinkNode token) fun _ =>
            commits_markValid ()

theorem atomic_executeMerge [Zero Root] :
    Atomic fns cfg (executeMerge cfg : CacheM Leaf Root _) := by
  refine atomic_checkCorrupted_bind (atomic_markCorrupted_bind ?_)
  refine Commits.bind inner_get fun m => ?_
  split
  · exact Commits.bind inner_mergeNone fun _ => commits_markValid ()
  · split
    · exact Commits.bind inner_mergeSingle fun _ => commits_markValid ()
    · exact Commits.bind inner_mergeTree fun _ => commits_markValid ()

theorem atomic_operation [Zero Root] (operation : Operation Leaf) :
    Atomic fns cfg (operation.prog cfg : CacheM Leaf Root _) := by
  cases operation with
  | insert draws node => exact (atomic_insert draws node).map some
  | update token new_node =>
      exact (atomic_update token new_node).map fun _ => none
  | remove del_token => exact (atomic_remove del_token).map fun _ => none
  | execute_merge => exact atomic_executeMerge.map fun _ => none

end TreeCache
end Mpmt
