import Mpmt.TreeCache.AfterCrash

/-!
# Crash atomicity

In every run, with processes that stop anywhere and files and merges that fail
anywhere, an interrupted operation is found either not to have happened or to be
complete, and an object that it leaves half-changed refuses everything.
-/

namespace Mpmt
namespace TreeCache

open Effects Heap

variable {Leaf Root : Type} {fns : Functions Leaf Root} {cfg : Config}
variable {m m' : Cache Root} {w w' : World Leaf Root}

/-! ## Directories -/

/-- No construction on the directory comes to an end any more. -/
def Dead
    (fns : Functions Leaf Root)
    (cfg : Config)
    (w : World Leaf Root) : Prop :=
  ∀ alloc ending s',
    Ends (handler fns) (Fault fns) (construct cfg) (initial alloc, w) ending
      s' -> s'.2 = w ∧ ∀ out, ending ≠ .returned out

private theorem loads_unique
    (loads : Loads cfg w maps)
    (loads' : Loads cfg w maps') : maps = maps' := by
  obtain ⟨value, document, loaded⟩ := loads
  obtain ⟨value', document', loaded'⟩ := loads'
  rw [document] at document'
  cases document'
  rw [loaded] at loaded'
  cases loaded'
  rfl

/-- A broken directory is dead. -/
theorem dead_of_broken (broken : Broken cfg w) : Dead fns cfg w := by
  have refused : ∀ maps, ¬ Loads cfg w maps := by
    rintro maps ⟨value, document, loaded⟩
    rcases broken with torn | ⟨maps', dirty⟩
    · rw [torn] at document
      cases document
    · rw [dirty] at document
      cases document
      rw [dirtyMeta, loadMeta_dirty] at loaded
      cases loaded
  intro alloc ending s' ends
  rcases ends_construct ends with ⟨same, found⟩ | ⟨maps, loads, _⟩
  · refine ⟨same, fun out returned => ?_⟩
    rcases found out returned with absent | ⟨maps, loads, _⟩
    · rcases broken with torn | ⟨maps', dirty⟩
      · rw [torn] at absent
        cases absent
      · rw [dirty] at absent
        cases absent
    · exact refused maps loads
  · exact absurd loads (refused maps)

/-- So is one whose root cannot be loaded. -/
theorem dead_of_torn_root
    (loads : Loads cfg w maps)
    (some_leaf : 0 < maps.leaf_num)
    (root : w.hasRoot = true)
    (torn : w.root? = none) : Dead fns cfg w := by
  intro alloc ending s' ends
  rcases ends_construct ends with ⟨same, found⟩ | ⟨maps', _, _, noRoot, _⟩
  · refine ⟨same, fun out returned => ?_⟩
    rcases found out returned with absent | ⟨maps', loads', whole⟩
    · obtain ⟨value, document, _⟩ := loads
      rw [document] at absent
      cases absent
    · obtain rfl := loads_unique loads loads'
      obtain ⟨root', found⟩ := whole some_leaf root
      rw [torn] at found
      cases found
  · rw [root] at noRoot
    cases noRoot

theorem Live.loads
    (live : Live (plain Leaf Root) cfg (m, w) holders)
    (some_leaf : 0 < m.leaf_num) : Loads cfg w m.toMaps := by
  rcases live.document with document | ⟨_, blank⟩
  · exact ⟨_, document, loadMeta_valid live.stored.shape m.toMaps.printable_none _ _⟩
  · have leafless : m.leaf_num = 0 := congrArg Maps.leaf_num blank
    omega

/-- Files of the root that were not both there before may be written, in part or
as a whole. -/
theorem live_or_dead_of_offRoot
    (fns : Functions Leaf Root)
    (live : Live (plain Leaf Root) cfg (m, w) holders)
    (some_leaf : 0 < m.leaf_num)
    (noRoot : w.hasRoot = false)
    (off : OffRoot w w') :
    Dead fns cfg w' ∨ Live (plain Leaf Root) cfg (m, w') holders := by
  have document : w'.meta? = w.meta? :=
    off _ (by simp [rootThisPath]) (by simp [rootNxtPath])
  have this_file : ∀ token, token ≠ "root" ->
      w'.disk.get? (thisPath token) = w.disk.get? (thisPath token) :=
    fun token token_ne => off _ (by simpa [rootThisPath] using token_ne)
      (by simp [rootNxtPath])
  have nxt_file : ∀ token, token ≠ "root" ->
      w'.disk.get? (nxtPath token) = w.disk.get? (nxtPath token) :=
    fun token token_ne => off _ (by simp [rootThisPath])
      (by simpa [rootNxtPath] using token_ne)
  have node : ∀ token, token ≠ "root" -> w'.node? token = w.node? token := by
    intro token token_ne
    rw [World.node?, World.node?, this_file token token_ne,
      nxt_file token token_ne]
  have absent : ∀ token, token ≠ "root" -> (w'.Absent token ↔ w.Absent token) := by
    intro token token_ne
    rw [World.Absent, World.Absent, this_file token token_ne,
      nxt_file token token_ne]
  have shape := live.stored.shape
  have nodes : ∀ node_id, nodeAt m.toMaps w' node_id =
      nodeAt m.toMaps w node_id := fun node_id =>
    nodeAt_congr rfl fun token found => node token (shape.token_ne_root found)
  have loads : Loads cfg w' m.toMaps := by
    obtain ⟨value, found, loaded⟩ := live.loads some_leaf
    exact ⟨value, document.trans found, loaded⟩
  by_cases torn : w'.hasRoot = true ∧ w'.root? = none
  · exact .inl (dead_of_torn_root loads some_leaf torn.1 torn.2)
  refine .inr ⟨live.valid, ⟨shape, ?_, ?_, ?_, ?_, ?_, ?_, ?_⟩, ?_, ?_⟩
  · intro node_id member
    rw [nodes]
    exact live.stored.leaf node_id member
  · intro node_id positive internal clean
    exact (live.stored.merged node_id positive internal clean).congr
      (nodes _) (nodes _) (nodes _)
  · intro clean positive
    have clean' : m.dirty_leaf = ∅ := clean
    have all : m.leaf_num ∈ m.dirty_leaf :=
      live.stored.rootless noRoot (Finset.mem_Ico.mpr ⟨le_refl m.leaf_num, by
        show m.leaf_num < 2 * m.leaf_num
        omega⟩)
    rw [clean'] at all
    simp at all
  · intro root
    exact Option.ne_none_iff_exists'.mp fun none => torn ⟨root, none⟩
  · intro _
    exact live.stored.rootless noRoot
  · intro _ node_id token internal found
    rw [absent token (shape.token_ne_root found)]
    exact live.stored.unmerged noRoot node_id token internal found
  · intro token token_ne unknown
    rw [absent token token_ne]
    exact live.stored.stale token token_ne unknown
  · intro token
    rw [← live.present token, TreeCache.present, TreeCache.present]
    by_cases inserted : m.hasInserted token = true
    · obtain ⟨node_id, found, _⟩ := Maps.hasInserted_iff.mp inserted
      rw [if_pos inserted, if_pos inserted,
        node token (shape.drawn token (Dict.mem_of_get? found))]
    · rw [if_neg inserted, if_neg inserted]
  · obtain ⟨value, found, _⟩ := live.loads some_leaf
    rcases live.document with valid | ⟨empty, _⟩
    · exact .inl (document.trans valid)
    · have empty' : w.disk = ∅ := empty
      have nothing : w.meta? = none := by
        rw [World.meta?, empty']
        rfl
      rw [nothing] at found
      cases found

/-! ## Runs with interruptions -/

/-- The reached objects and directories: `none` stands for a process that has no
object, because it stopped or its construction raised. -/
inductive Reached [Zero Root] (cfg : Config) (fns : Functions Leaf Root) :
    Option (Cache Root) -> World Leaf Root -> Prop
  | start (calls : Nat) : Reached cfg fns none { disk := ∅, calls := calls }
  | constructed {c w alloc m w'}
      (past : Reached cfg fns c w)
      (ends : Ends (handler fns) (Fault fns) (construct cfg)
        (initial alloc, w) (.returned ()) (m, w')) :
      Reached cfg fns (some m) w'
  | not_constructed {c w alloc ending m w'}
      (past : Reached cfg fns c w)
      (ends : Ends (handler fns) (Fault fns) (construct cfg)
        (initial alloc, w) ending (m, w')) :
      Reached cfg fns none w'
  | operated {m w operation ending m' w'}
      (past : Reached cfg fns (some m) w)
      (ends : Ends (handler fns) (Fault fns) (Operation.prog cfg operation)
        (m, w) ending (m', w'))
      (going : ending ≠ .stopped) :
      Reached cfg fns (some m') w'
  | stopped {m w operation m' w'}
      (past : Reached cfg fns (some m) w)
      (ends : Ends (handler fns) (Fault fns) (Operation.prog cfg operation)
        (m, w) .stopped (m', w')) :
      Reached cfg fns none w'

/-- The directory is dead or that of a live cache; a valid object is live. -/
structure Recoverable
    (fns : Functions Leaf Root)
    (cfg : Config)
    (c : Option (Cache Root))
    (w : World Leaf Root) : Prop where
  directory : Dead fns cfg w ∨
    ∃ m holders, Live (plain Leaf Root) cfg (m, w) holders
  object : ∀ m, c = some m -> m.corrupted = false ->
    ∃ holders, Live (plain Leaf Root) cfg (m, w) holders

/-- What a construction that returns makes of a live cache. -/
theorem Live.constructed
    {alloc : ShareVec Root}
    (live : Live (plain Leaf Root) cfg (m, w) holders)
    (ends : Ends (handler fns) (Fault fns) (construct cfg) (initial alloc, w)
      (.returned ()) (m', w')) :
    m'.toMaps = m.toMaps ∧ Live (plain Leaf Root) cfg (m', w') holders := by
  have ended := determined_construct _ _ _ ends
  obtain ⟨root_node, w'', ended', recovery⟩ :=
    run_construct fns live alloc
  rw [ended] at ended'
  obtain ⟨rfl, rfl⟩ := Prod.mk.inj (Prod.mk.inj ended').2
  exact ⟨rfl, live.recovered recovery⟩

/-- However a construction ends, it leaves the holders where they were, or a
directory that is dead. -/
theorem Live.interrupted
    {alloc : ShareVec Root}
    {ending : Ending PyError Unit}
    (live : Live (plain Leaf Root) cfg (m, w) holders)
    (ends : Ends (handler fns) (Fault fns) (construct cfg) (initial alloc, w)
      ending (m', w')) :
    Dead fns cfg w' ∨ Live (plain Leaf Root) cfg (m, w') holders := by
  rcases ends_construct ends with
    ⟨same, _⟩ | ⟨maps, loads, some_leaf, noRoot, off⟩
  · have same' : w' = w := same
    rw [same']
    exact .inr live
  · have positive : 0 < m.leaf_num := by
      rcases live.document with document | ⟨empty, _⟩
      · have known : Loads cfg w m.toMaps :=
          ⟨_, document, loadMeta_valid live.stored.shape m.toMaps.printable_none _ _⟩
        obtain rfl := loads_unique loads known
        exact some_leaf
      · obtain ⟨value, found, _⟩ := loads
        have empty' : w.disk = ∅ := empty
        rw [World.meta?, empty'] at found
        cases found
    exact live_or_dead_of_offRoot fns live positive noRoot off

theorem recoverable_construct
    {alloc : ShareVec Root}
    {ending : Ending PyError Unit}
    (directory : Dead fns cfg w ∨
      ∃ m holders, Live (plain Leaf Root) cfg (m, w) holders)
    (ends : Ends (handler fns) (Fault fns) (construct cfg) (initial alloc, w)
      ending (m', w')) :
    Dead fns cfg w' ∨ ∃ m holders, Live (plain Leaf Root) cfg (m, w') holders := by
  rcases directory with dead | ⟨m, holders, live⟩
  · obtain ⟨same, _⟩ := dead _ _ _ ends
    have same' : w' = w := same
    rw [same']
    exact .inl dead
  · exact (live.interrupted ends).imp_right fun live' => ⟨m, holders, live'⟩

/-- The directories behind any number of constructions, however each of them
ends. -/
inductive Restarts
    (fns : Functions Leaf Root)
    (cfg : Config) : World Leaf Root -> World Leaf Root -> Prop
  | none (w : World Leaf Root) : Restarts fns cfg w w
  | again {w w' w'' alloc ending m'}
      (ends : Ends (handler fns) (Fault fns) (construct cfg) (initial alloc, w)
        ending (m', w'))
      (restarts : Restarts fns cfg w' w'') :
      Restarts fns cfg w w''

theorem Dead.restarts
    (dead : Dead fns cfg w)
    (restarts : Restarts fns cfg w w') : Dead fns cfg w' := by
  induction restarts with
  | none => exact dead
  | @again w w' _ _ _ m' ends _ inductionHypothesis =>
      obtain ⟨same, _⟩ := dead _ _ _ ends
      have same' : w' = w := same
      exact inductionHypothesis (by rwa [same'])

theorem Live.restarts
    (live : Live (plain Leaf Root) cfg (m, w) holders)
    (restarts : Restarts fns cfg w w') :
    Dead fns cfg w' ∨ Live (plain Leaf Root) cfg (m, w') holders := by
  induction restarts with
  | none => exact .inr live
  | again ends restarts inductionHypothesis =>
      rcases live.interrupted ends with dead | live'
      · exact .inl (dead.restarts restarts)
      · exact inductionHypothesis live'

variable [Zero Root]

/-- A corrupted object refuses every operation. -/
theorem ends_of_corrupted
    {ending : Ending PyError (Option String)}
    (corrupted : m.corrupted = true)
    (operation : Operation Leaf)
    (ends : Ends (handler fns) (Fault fns) (operation.prog cfg) (m, w) ending
      (m', w')) :
    (m', w') = (m, w) ∧ ∀ out, ending ≠ .returned out := by
  have first : ∀ {Out : Type} (next : Unit -> CacheM Leaf Root Out)
      {ending : Ending PyError Out} {s'},
      Ends (handler fns) (Fault fns) (checkCorrupted >>= next) (m, w) ending
        s' -> s' = (m, w) ∧ ∀ out, ending ≠ .returned out := by
    intro Out next ending s' ends
    replace ends : Ends (handler fns) (Fault fns)
        (get >>= fun m => (if m.corrupted then
          raise (.RuntimeError "TreeCache is corrupted and cannot be used")
          else pure ()) >>= next) (m, w) ending s' := ends
    rcases ends_get_bind ends with ⟨rfl, same⟩ | rest
    · exact ⟨same, nofun⟩
    · rw [if_pos corrupted] at rest
      cases rest with
      | stop => exact ⟨rfl, nofun⟩
      | raise => exact ⟨rfl, nofun⟩
  have whole : ∀ {Out Out' : Type} {prog : CacheM Leaf Root Out}
      {next : Out -> CacheM Leaf Root Out'} {ending : Ending PyError Out'} {s'},
      (∀ {ending : Ending PyError Out} {s'},
        Ends (handler fns) (Fault fns) prog (m, w) ending s' ->
          s' = (m, w) ∧ ∀ out, ending ≠ .returned out) ->
      Ends (handler fns) (Fault fns) (prog >>= next) (m, w) ending s' ->
        s' = (m, w) ∧ ∀ out, ending ≠ .returned out := by
    intro Out Out' prog next ending s' refuses ends
    rcases ends_bind ends with
      ⟨out, _, start, _⟩ | ⟨error, rfl, start⟩ | ⟨rfl, start⟩
    · exact absurd rfl ((refuses start).2 out)
    · exact ⟨(refuses start).1, nofun⟩
    · exact ⟨(refuses start).1, nofun⟩
  cases operation with
  | insert draws node => exact whole (first _) ends
  | update token new_node => exact whole (first _) ends
  | remove del_token => exact whole (first _) ends
  | execute_merge => exact whole (first _) ends

/-- However an operation ends, the directory stays recoverable. -/
theorem recoverable_operate
    {ending : Ending PyError (Option String)}
    (before : Recoverable fns cfg (some m) w)
    (operation : Operation Leaf)
    (ends : Ends (handler fns) (Fault fns) (operation.prog cfg) (m, w) ending
      (m', w')) :
    Recoverable fns cfg (some m') w' := by
  cases state : m.corrupted with
  | true =>
      obtain ⟨same, _⟩ := ends_of_corrupted state operation ends
      obtain ⟨rfl, rfl⟩ := Prod.mk.inj same
      exact before
  | false =>
      obtain ⟨holders, live⟩ := before.object m rfl state
      rcases atomic_operation operation _ _ _ ends with
        ⟨same, _⟩ | ⟨corrupted, files⟩ | ⟨_, out, ended⟩
      · obtain ⟨rfl, rfl⟩ := Prod.mk.inj same
        exact before
      · refine ⟨?_, ?_⟩
        · rcases files with untouched | broken | ⟨out, ⟨m₁, w₁⟩, ended, same⟩
          · have same' : w' = w := untouched
            rw [same']
            exact before.directory
          · exact .inl (dead_of_broken broken)
          · obtain ⟨holders', live'⟩ := live.operated operation ended nofun
            have same' : w' = w₁ := same
            rw [same']
            exact .inr ⟨_, _, live'⟩
        · intro m₁ same valid
          obtain rfl := Option.some.inj same
          have corrupted' : m'.corrupted = true := corrupted
          rw [corrupted'] at valid
          cases valid
      · obtain ⟨holders', live'⟩ := live.operated operation ended nofun
        refine ⟨.inr ⟨_, _, live'⟩, fun m₁ same _ => ?_⟩
        obtain rfl := Option.some.inj same
        exact ⟨_, live'⟩

theorem recoverable_of_reached
    {c : Option (Cache Root)}
    (reached : Reached cfg fns c w) : Recoverable fns cfg c w := by
  induction reached with
  | start calls =>
      exact ⟨.inr ⟨initial { this_share := 0, nxt_share := 0 }, _,
        live_initial _ calls⟩, nofun⟩
  | @constructed c w alloc m w' past ends inductionHypothesis =>
      rcases inductionHypothesis.directory with dead | ⟨m₀, holders, live⟩
      · exact absurd rfl ((dead _ _ _ ends).2 ())
      · obtain ⟨_, live'⟩ := live.constructed ends
        refine ⟨.inr ⟨_, _, live'⟩, fun m₁ same _ => ?_⟩
        obtain rfl := Option.some.inj same
        exact ⟨_, live'⟩
  | not_constructed past ends inductionHypothesis =>
      exact ⟨recoverable_construct inductionHypothesis.directory ends, nofun⟩
  | operated past ends going inductionHypothesis =>
      exact recoverable_operate inductionHypothesis _ ends
  | stopped past ends inductionHypothesis =>
      exact ⟨(recoverable_operate inductionHypothesis _ ends).directory, nofun⟩

/-! ## The result -/

/-- The same maps, dirty leaves and filters of the present tokens. -/
def SameHolders
    (s s' : Cache Root × World Leaf Root) : Prop :=
  s'.1.toMaps = s.1.toMaps ∧
    ∀ token, present s'.1.toMaps s'.2 token = present s.1.toMaps s.2 token

omit [Zero Root] in
/-- A construction that returns behind others shows the holders of a live
cache. -/
theorem Live.sameHolders
    {alloc : ShareVec Root}
    {s : Cache Root × World Leaf Root}
    (live : Live (plain Leaf Root) cfg (m, w) holders)
    (restarts : Restarts fns cfg w w')
    (again : Ends (handler fns) (Fault fns) (construct cfg) (initial alloc, w')
      (.returned ()) s) :
    SameHolders (m, w) s := by
  rcases live.restarts restarts with dead | live'
  · exact absurd rfl ((dead _ _ _ again).2 ())
  · obtain ⟨maps, live''⟩ := live'.constructed again
    exact ⟨maps, fun token =>
      (live''.present token).trans (live.present token).symm⟩

/-- An operation that is interrupted anywhere is found by a later construction,
if that returns, not to have happened or to be complete, and so it is when other
constructions were interrupted in between.  One that raises has refused its
argument and changed nothing, or leaves an object that refuses every later
operation and touches no file. -/
theorem crash_atomic
    (reached : Reached cfg fns (some m) w)
    (valid : m.corrupted = false)
    {operation : Operation Leaf}
    {ending : Ending PyError (Option String)}
    (ends : Ends (handler fns) (Fault fns) (operation.prog cfg) (m, w) ending
      (m', w')) :
    (∀ w₁, Restarts fns cfg w' w₁ -> ∀ alloc s,
      Ends (handler fns) (Fault fns) (construct cfg) (initial alloc, w₁)
        (.returned ()) s ->
      SameHolders (m, w) s ∨ ∃ out s₁,
        run (handler fns) (operation.prog cfg) (m, w) = (.returned out, s₁) ∧
        SameHolders s₁ s) ∧
    ∀ error, ending = .raised error ->
      (m', w') = (m, w) ∧ run (handler fns) (operation.prog cfg) (m, w) =
          (.raised error, (m, w)) ∨
        ∀ (later : Operation Leaf) w₁ ending₁ s₁,
          Ends (handler fns) (Fault fns) (later.prog cfg) (m', w₁) ending₁ s₁ ->
            s₁ = (m', w₁) ∧ ∀ out, ending₁ ≠ .returned out := by
  have before := recoverable_of_reached reached
  obtain ⟨holders, live⟩ := before.object m rfl valid
  constructor
  · rintro w₁ restarts alloc ⟨m₂, w₂⟩ again
    rcases atomic_operation operation _ _ _ ends with
      ⟨same, _⟩ | ⟨_, files⟩ | ⟨_, out, ended⟩
    · obtain ⟨_, rfl⟩ := Prod.mk.inj same
      exact .inl (live.sameHolders restarts again)
    · rcases files with untouched | broken | ⟨out, ⟨m₁, w₁⟩, ended, same⟩
      · obtain rfl : w' = w := untouched
        exact .inl (live.sameHolders restarts again)
      · have dead := (dead_of_broken broken).restarts restarts
        exact absurd rfl ((dead _ _ _ again).2 ())
      · obtain rfl : w' = w₁ := same
        obtain ⟨holders', live'⟩ := live.operated operation ended nofun
        exact .inr ⟨out, _, ended, live'.sameHolders restarts again⟩
    · obtain ⟨holders', live'⟩ := live.operated operation ended nofun
      exact .inr ⟨out, _, ended, live'.sameHolders restarts again⟩
  · rintro error rfl
    rcases atomic_operation operation _ _ _ ends with
      ⟨same, refused⟩ | ⟨corrupted, _⟩ | ⟨kind, _⟩
    · exact .inl ⟨same, refused error rfl⟩
    · exact .inr fun later w₁ ending₁ s₁ ends₁ =>
        ends_of_corrupted corrupted later ends₁
    · exact absurd rfl (kind error)

/-! ## An insertion that breaks -/

omit [Zero Root] in
/-- A broken write leaves a part of its content. -/
def torn (cmd : Command Leaf Root) (w : World Leaf Root) : World Leaf Root :=
  match cmd.write? with
  | some (path, _) => w.write path .torn
  | none => w

omit [Zero Root] in
theorem fault_torn (cmd : Command Leaf Root) (w : World Leaf Root) :
    Fault fns cmd w (torn cmd w) := by
  unfold torn
  split
  · next writes => exact .torn writes
  · exact .untouched cmd w

theorem reached_of_steps
    {s s' : Cache Root × World Leaf Root}
    (steps : Steps cfg fns s trace s')
    (past : Reached cfg fns (some s.1) s.2) : Reached cfg fns (some s'.1) s'.2 := by
  induction steps with
  | nil => exact past
  | @cons s s' _ operation outcome _ step ended _ inductionHypothesis =>
      have ends : Ends (handler fns) (Fault fns) (operation.prog cfg) s outcome.ending s' := by
        have run : Ends (handler fns) (Fault fns) (operation.prog cfg) s _ _ :=
          ends_run (operation.prog cfg) s
        rwa [step] at run
      refine inductionHypothesis (.operated past ends ?_)
      cases outcome with
      | returned out => nofun
      | raised error => nofun
      | unfinished => exact absurd rfl ended

theorem reached_bitState
    (count : Nat)
    (ended : ∀ outcome ∈ (runAll bitConfig bitFunctions (bitOperations.take count)
      bitStart).1, outcome ≠ .unfinished) :
    Reached bitConfig bitFunctions (some (bitState count).1) (bitState count).2 :=
  reached_of_steps (steps_runAll _ bitStart ended)
    (.constructed (.start 0) (ends_of_run (run_construct_empty _ _)))

/-- A fourth holder joins the three of the sample behind their merge, and the
second of its files breaks. -/
def bitBroken : Ending PyError (Option String) × (Cache Nat × World Bool Nat) :=
  runBroken (handler bitFunctions) torn (.FileError (nxtPath (bitToken 10))) 2
    ((bitJoin 10 true).prog bitConfig) (bitState 4)

theorem crash_atomic_torn :
    bitBroken.1 = .raised (.FileError (nxtPath (bitToken 10))) ∧
    (∀ w₁, Restarts bitFunctions bitConfig bitBroken.2.2 w₁ -> ∀ alloc s,
      Ends (handler bitFunctions) (Fault bitFunctions) (construct bitConfig)
        (initial alloc, w₁) (.returned ()) s ->
      SameHolders (bitState 4) s ∨ ∃ out s₁,
        run (handler bitFunctions) ((bitJoin 10 true).prog bitConfig) (bitState 4) =
          (.returned out, s₁) ∧
        SameHolders s₁ s) ∧
    ∀ error, bitBroken.1 = .raised error ->
      bitBroken.2 = bitState 4 ∧
          run (handler bitFunctions) ((bitJoin 10 true).prog bitConfig) (bitState 4) =
            (.raised error, bitState 4) ∨
        ∀ (later : Operation Bool) w₁ ending₁ s₁,
          Ends (handler bitFunctions) (Fault bitFunctions)
            (later.prog bitConfig) (bitBroken.2.1, w₁) ending₁ s₁ ->
            s₁ = (bitBroken.2.1, w₁) ∧ ∀ out, ending₁ ≠ .returned out := by
  have valid : (bitState 4).1.corrupted = false := by decide +kernel
  have ends : Ends (handler bitFunctions) (Fault bitFunctions)
      ((bitJoin 10 true).prog bitConfig) (bitState 4) bitBroken.1 bitBroken.2 :=
    ends_runBroken fault_torn _ _ _ _
  exact ⟨by decide +kernel, crash_atomic (reached_bitState 4 (by decide +kernel)) valid ends⟩

end TreeCache
end Mpmt
