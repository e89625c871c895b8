import Mpmt.Manager.Rules

/-!
# The threads that carry a protocol

The protocol threads of the operations and of SYNC, and how they crack the
task, run within the contract.
-/

namespace Mpmt
namespace Manager

open Effects Threads Contract

variable {cfg : Settings} {tid : Nat} {P : World -> Prop} {opId : Nat}

theorem Only.silent
    {prog : Proc Out}
    (quiet : Only Cmd.Quiet prog) : Only Cmd.Silent prog :=
  quiet.mono fun _ => Cmd.Quiet.silent

theorem steady_true : Steady cfg tid fun _ => True := .const True

/-! ## Cracking the task -/

/-- The carrier sets the flag and goes on carrying. -/
theorem triple_setTaskCracked
    {X F : World -> Prop}
    (kept : SteadyUnder cfg tid (Carries tid) X)
    (blind : ∀ x s, s.db = x.1.db -> s.activeSync = x.1.activeSync -> X x -> X (s, x.2))
    (raises : Steady cfg tid F) :
    (serverContract cfg).Triple tid (fun x => Carries tid x ∧ X x)
      (withLock .main (give .setTaskCracked))
      (Post (fun _ x => x.1.taskCracked = true ∧ Carries tid x ∧ X x) F) := by
  have carrying : Steady cfg tid fun x => Carries tid x ∧ X x := steady_carries.under kept
  have after : Steady cfg tid fun x => x.1.taskCracked = true ∧ Carries tid x ∧ X x :=
    steady_cracked.and carrying
  have never : Steady cfg tid fun _ => False := .const False
  refine triple_withLock (fun x => Holds tid x ∧ Carries tid x ∧ X x)
    (fun _ x => x.1.taskCracked = true ∧ Carries tid x ∧ X x) (fun _ => False)
    carrying (steady_holds.and carrying) (fun _ sound holds => sound.opened_of_owner holds.1)
    (fun x _ holds => ⟨rfl, holds.1, blind x _ rfl rfl holds.2⟩) ?_
    (fun _ => steady_holds.and after) (steady_holds.and never)
    (fun _ x holds => ⟨holds.1, holds.2.1, blind x _ rfl rfl holds.2.2⟩) nofun
    (fun _ => after) raises
  refine triple_give (steady_holds.and carrying) (fun _ => steady_holds.and after)
    (steady_holds.and never) fun x choice fresh done sound holds _ did => ?_
  cases did
  exact ⟨x.2, .crack sound holds.1 holds.2.1 _, nofun, holds.1, rfl, holds.2.1,
    blind x _ rfl rfl holds.2.2⟩

/-- Failing all live operations, once the task is cracked. -/
theorem triple_failAll
    {P' F : World -> Prop}
    (steady : Steady cfg tid P)
    (steady' : Steady cfg tid P')
    (may : ∀ x, P x -> x.1.taskCracked = true ∧
      (Carries tid x ∨ ∀ opId, ¬ x.1.db.Busy opId))
    (failed : ∀ x, P x -> P' x)
    (errorCode : String)
    (after : ∀ x now, P x -> P' ({ x.1 with
        db := x.1.db.failAllLiveOperations errorCode now },
      { x.2 with
        owner := if x.1.activeSync.isSome then x.2.owner else none
        sent := if x.1.activeSync.isSome then x.2.sent else false })) :
    (serverContract cfg).Triple tid P (ignore (db (.failAllLiveOperations errorCode)))
      (Post (fun _ => P') F) := by
  refine Triple.ignore (triple_db steady (fun _ => steady') steady' failed ?_) steady'.stable
  intro x now reply db sound holds applied
  cases applied
  obtain ⟨cracked, who⟩ := may x holds
  exact ⟨_, .failAll sound cracked who errorCode now, after x now holds⟩

/-- The rest of a crack, behind the flag and the first failure. -/
theorem triple_crackRest
    {P' F : World -> Prop}
    (steady : Steady cfg tid P)
    (steady' : Steady cfg tid P')
    (may : ∀ x, P x -> x.1.taskCracked = true ∧
      (Carries tid x ∨ ∀ opId, ¬ x.1.db.Busy opId))
    (failed : ∀ x, P x -> P' x)
    (after : ∀ x now, P x -> P' ({ x.1 with
        db := x.1.db.failAllLiveOperations "TASK_CRACKED" now },
      { x.2 with
        owner := if x.1.activeSync.isSome then x.2.owner else none
        sent := if x.1.activeSync.isSome then x.2.sent else false })) :
    (serverContract cfg).Triple tid P (do
        ignore (give (.writeTaskStatus .cracked))
        ignore (db (.failAllLiveOperations "TASK_CRACKED")))
      (Post (fun _ => P') F) := by
  have written : (serverContract cfg).Triple tid P
      (ignore (give (.writeTaskStatus .cracked))) (Post (fun _ => P) F) :=
    Triple.ignore (triple_look (.writeTaskStatus .cracked) trivial steady) steady.stable
  exact written.seq fun _ => triple_failAll steady steady' may failed _ after

/-- The carrier of an operation cracks the task. -/
theorem triple_crackOperation
    {userId : String}
    {protType : ProtType}
    (errorCode : String) :
    (serverContract cfg).Triple tid
      (fun x => Carries tid x ∧ x.1.db.faceOf opId = some ⟨userId, protType, .busy⟩)
      (crackTask (some opId) errorCode) (Post (fun _ _ => True) fun _ => True) := by
  have cracking : Steady cfg tid fun x => x.1.taskCracked = true ∧ Carries tid x ∧
      x.1.db.faceOf opId = some ⟨userId, protType, .busy⟩ :=
    steady_cracked.and (steady_carries.under carries_busy)
  -- the operation has failed, or its thread still carries it
  have ended : Steady cfg tid fun x => x.1.taskCracked = true ∧
      (∀ opId, ¬ x.1.db.Busy opId) ∨ x.1.taskCracked = true ∧ Carries tid x :=
    (steady_cracked.under cracked_calm).or (steady_cracked.and steady_carries)
  refine (triple_setTaskCracked carries_busy (fun x s db _ found => by rwa [db])
    steady_true).seq fun _ => ?_
  refine Triple.seq (Q := fun _ x => x.1.taskCracked = true ∧
      (∀ opId, ¬ x.1.db.Busy opId) ∨ x.1.taskCracked = true ∧ Carries tid x) ?_ fun _ => ?_
  · refine Triple.ignore (triple_db cracking (fun _ => ended) ended
      (fun x holds => .inr ⟨holds.1, holds.2.1⟩) ?_) ended.stable
    rintro x now reply db sound ⟨cracked, owner, found⟩ applied
    cases applied
    refine ⟨_, .close sound owner found rfl (.inr rfl) _ now rfl trivial,
      .inl ⟨cracked, ?_⟩⟩
    rintro other ⟨face, found', busy⟩
    have recast : x.1.db.Recast (x.1.db.failOperation opId errorCode now)
      (Db.setting opId .failed) := Db.recast_updateOperation rfl
    by_cases same : other = opId
    · subst same
      have failed := recast.setting_self found
      rw [show _ = some face from found'] at failed
      cases failed
      cases busy
    · have before := (recast.setting_other same).symm.trans found'
      exact same (sound.single other opId (Db.Busy.runs ⟨face, before, busy⟩)
        ⟨_, found, rfl⟩)
  · exact triple_crackRest ended steady_true
      (fun x holds => by
        rcases holds with ⟨cracked, calm⟩ | ⟨cracked, owner⟩
        · exact ⟨cracked, .inr calm⟩
        · exact ⟨cracked, .inl owner⟩)
      (fun _ _ => trivial) fun _ _ _ => trivial

/-- The carrier of a SYNC cracks the task, and carries it on. -/
theorem triple_crackSync
    (errorCode : String) :
    (serverContract cfg).Triple tid
      (fun x => Carries tid x ∧ x.1.activeSync.isSome = true)
      (crackTask none errorCode)
      (Post (fun _ x => Carries tid x ∧ x.1.activeSync.isSome = true)
        fun x => Carries tid x ∧ x.1.activeSync.isSome = true) := by
  have carrying : Steady cfg tid fun x => Carries tid x ∧ x.1.activeSync.isSome = true :=
    steady_carries.under carries_sync
  refine (triple_setTaskCracked carries_sync (fun x s _ sync there => by rwa [sync])
    carrying).seq fun _ => ?_
  refine triple_crackRest (steady_cracked.and carrying) carrying
    (fun x holds => ⟨holds.1, .inl holds.2.1⟩) (fun _ holds => holds.2) ?_
  rintro x now ⟨_, owner, sync⟩
  refine ⟨?_, sync⟩
  show (if x.1.activeSync.isSome then x.2.owner else none) = some tid
  rw [if_pos sync]
  exact owner

/-! ## The protocol of an operation -/

/-- The thread carries the operation, and the task stands. -/
def Executing (tid opId : Nat) (userId : String) (protType : ProtType) (x : World) : Prop :=
  Carries tid x ∧ x.1.taskCracked = false ∧
    x.1.db.faceOf opId = some ⟨userId, protType, .busy⟩

theorem carries_executing
    {userId : String}
    {protType : ProtType} :
    SteadyUnder cfg tid (Carries tid) fun x => x.1.taskCracked = false ∧
      x.1.db.faceOf opId = some ⟨userId, protType, .busy⟩ :=
  carries_clear.and carries_busy

theorem steady_executing
    {userId : String}
    {protType : ProtType} : Steady cfg tid (Executing tid opId userId protType) :=
  steady_carries.under carries_executing

theorem triple_sendEach
    (message : Role -> Message)
    (steady : Steady cfg tid P)
    (sends : ∀ role, (serverContract cfg).Triple tid P (give (.send role (message role)))
      (Post (fun _ => P) P))
    (roles : List Role) :
    (serverContract cfg).Triple tid P (sendEach message roles) (Post (fun _ => P) P) := by
  induction roles with
  | nil => exact .ret steady.stable fun _ _ holds => holds
  | cons role rest inductionHypothesis => exact (sends role).seq fun _ => inductionHypothesis

/-- Telling an Agent to start. -/
theorem triple_send
    (role : Role)
    (message : Message)
    (steady : Steady cfg tid P)
    (owner : ∀ x, P x -> Carries tid x)
    (duty : ∀ x reply, Sound x -> P x ->
      Duty ⟨tid, .send role message, reply⟩ x (x.1, { x.2 with sent := true }))
    (after : ∀ x, P x -> P (x.1, { x.2 with sent := true })) :
    (serverContract cfg).Triple tid P (give (.send role message)) (Post (fun _ => P) P) := by
  refine triple_give steady (fun _ => steady) steady
    fun x choice fresh done sound holds _ did => ?_
  have same : done.started = none ∧ done.state = x.1 := by
    cases choice with
    | go =>
        cases did
        exact ⟨rfl, rfl⟩
    | fail error => cases error <;> cases did <;> exact ⟨rfl, rfl⟩
    | _ => cases did
  obtain ⟨started, state⟩ := same
  rw [state]
  refine ⟨_, .send sound (owner x holds) (duty x _ sound holds), fun task some => ?_, ?_⟩
  · rw [started] at some
    cases some
  · cases done.reply <;> exact after x holds

/-- An operation ends with a commit, or with a crack. -/
theorem triple_commit
    {userId : String}
    {protType : ProtType}
    {dbCall : DbCall}
    (step : ∀ x now reply after, Sound x -> Carries tid x ->
      x.1.db.faceOf opId = some ⟨userId, protType, .busy⟩ ->
      dbCall.apply now x.1.db = .ok (reply, after) ->
      ∃ g, Within ⟨tid, .db dbCall, .ok reply⟩ x ({ x.1 with db := after }, g)) :
    (serverContract cfg).Triple tid
      (fun x => Carries tid x ∧ x.1.db.faceOf opId = some ⟨userId, protType, .busy⟩)
      (do
        let committed ← attempt (db dbCall)
        match committed with
        | .ok _ => pure ()
        | .error _ => crackTask (some opId) "DB_COMMIT_FAILED")
      (Post (fun _ _ => True) fun _ => True) := by
  have carrying : Steady cfg tid fun x => Carries tid x ∧
      x.1.db.faceOf opId = some ⟨userId, protType, .busy⟩ := steady_carries.under carries_busy
  have committing : (serverContract cfg).Triple tid
      (fun x => Carries tid x ∧ x.1.db.faceOf opId = some ⟨userId, protType, .busy⟩)
      (db dbCall) (Post (fun _ _ => True) fun x => Carries tid x ∧
        x.1.db.faceOf opId = some ⟨userId, protType, .busy⟩) := by
    refine triple_db carrying (fun _ => steady_true) carrying (fun _ holds => holds) ?_
    rintro x now reply after sound ⟨owner, found⟩ applied
    obtain ⟨g, within⟩ := step x now reply after sound owner found applied
    exact ⟨g, within, trivial⟩
  refine (committing.attempt (fun _ => steady_true.stable) carrying.stable).seq
    fun committed => ?_
  cases committed with
  | ok => exact .ret steady_true.stable fun _ _ holds => holds
  | error => exact triple_crackOperation _

theorem triple_complete
    (userId : String)
    (protType : ProtType)
    (tokens : List (Role × String)) :
    (serverContract cfg).Triple tid
      (fun x => Carries tid x ∧ x.1.db.faceOf opId = some ⟨userId, protType, .busy⟩)
      (complete opId userId tokens protType) (Post (fun _ _ => True) fun _ => True) := by
  cases protType with
  | join =>
      rw [complete]
      split
      · refine triple_commit fun x now reply after sound owner found applied => ?_
        have completed : (x.1.db.completeJoin opId userId tokens now).map
            (fun db => ((), db)) = .ok (reply, after) := applied
        cases result : x.1.db.completeJoin opId userId tokens now with
        | error =>
            rw [result] at completed
            cases completed
        | ok db =>
            rw [result] at completed
            cases completed
            exact ⟨_, .completeJoin sound owner found result⟩
      · exact triple_crackOperation _
  | quit =>
      refine triple_commit fun x now reply after sound owner found applied => ?_
      cases applied
      exact ⟨_, .completeQuit sound owner found now⟩
  | update | query =>
      refine triple_commit fun x now reply after sound owner found applied => ?_
      cases applied
      exact ⟨_, .close sound owner found rfl (.inl rfl) _ now rfl trivial⟩

/-- The tokens have been found. -/
def Provided (userId : String) (protType : ProtType) (x : World) : Prop :=
  protType = .update ∨ protType = .quit -> ∀ role, x.1.db.HasToken userId role

theorem carries_provided
    {userId : String}
    {protType : ProtType} :
    SteadyUnder cfg tid (Carries tid) (Provided userId protType) :=
  .imp fun _ => .all fun _ => carries_token

theorem triple_readTokens
    {R : World -> Prop}
    (kept : SteadyUnder cfg tid (Carries tid) R)
    (userId : String)
    (roles : List Role)
    (tokens : List (Role × String)) :
    (serverContract cfg).Triple tid (fun x => Carries tid x ∧ R x)
      (readTokens userId roles tokens)
      (Post (Post (fun _ x => Carries tid x ∧ R x ∧
          ∀ role ∈ roles, x.1.db.HasToken userId role)
        fun x => Carries tid x ∧ R x) fun x => Carries tid x ∧ R x) := by
  induction roles generalizing R tokens with
  | nil =>
      exact .ret (steady_carries.under kept).stable fun _ _ holds =>
        ⟨holds.1, holds.2, nofun⟩
  | cons role rest inductionHypothesis =>
      have asked : ∀ token : Option String, Steady cfg tid fun x => Carries tid x ∧ R x ∧
          (token.getD "" ≠ "" -> x.1.db.HasToken userId role) := fun _ =>
        steady_carries.under (kept.and (.imp fun _ => carries_token))
      have reading : (serverContract cfg).Triple tid (fun x => Carries tid x ∧ R x)
          (db (.getAgentToken userId role))
          (Post (fun token x => Carries tid x ∧ R x ∧
            (token.getD "" ≠ "" -> x.1.db.HasToken userId role))
            fun x => Carries tid x ∧ R x) := by
        refine triple_read (steady_carries.under kept) asked (steady_carries.under kept)
          (fun _ holds => holds) trivial fun x now token sound holds applied => ?_
        refine ⟨holds.1, holds.2, fun full => ?_⟩
        cases applied
        cases stored : x.1.db.getAgentToken userId role with
        | none =>
            rw [stored] at full
            exact absurd rfl full
        | some text =>
            rw [stored] at full
            exact ⟨text, stored, full⟩
      refine reading.seq fun token => ?_
      cases token with
      | none => exact .ret (asked none).stable fun _ _ holds => ⟨holds.1, holds.2.1⟩
      | some text =>
          dsimp only
          split
          · exact .ret (asked (some text)).stable fun _ _ holds => ⟨holds.1, holds.2.1⟩
          · next full =>
              refine (inductionHypothesis (kept.and carries_token)
                (tokens ++ [(role, text)])).weaken
                (fun x _ holds => ⟨holds.1, holds.2.1, holds.2.2 full⟩)
                fun result x _ holds => ?_
              cases result with
              | error => exact ⟨holds.1, holds.2.1⟩
              | ok result =>
                  cases result with
                  | error => exact ⟨holds.1, holds.2.1⟩
                  | ok =>
                      obtain ⟨owner, ⟨isR, first⟩, others⟩ := holds
                      exact ⟨owner, isR, List.forall_mem_cons.mpr ⟨first, others⟩⟩

/-- What a service needs is there when the tokens have been read. -/
theorem triple_preflight
    (userId : String)
    (protType : ProtType) :
    (serverContract cfg).Triple tid (Executing tid opId userId protType)
      (preflight userId protType)
      (Post (Post (fun _ x => Executing tid opId userId protType x ∧
          Provided userId protType x)
        (Executing tid opId userId protType)) (Executing tid opId userId protType)) := by
  have read : (serverContract cfg).Triple tid (Executing tid opId userId protType)
      (readTokens userId roles [])
      (Post (Post (fun _ x => Executing tid opId userId protType x ∧
          Provided userId protType x)
        (Executing tid opId userId protType)) (Executing tid opId userId protType)) := by
    refine (triple_readTokens carries_executing userId roles []).weaken
      (fun _ _ holds => holds) fun result x _ holds => ?_
    cases result with
    | error => exact holds
    | ok result =>
        cases result with
        | error => exact holds
        | ok =>
            exact ⟨⟨holds.1, holds.2.1⟩, fun _ role => holds.2.2 role (mem_roles role)⟩
  cases protType with
  | update => exact read
  | quit => exact read
  | join | query => exact .ret steady_executing.stable fun _ _ holds => ⟨holds, by simp [Provided]⟩

theorem triple_dispatch
    (userId : String)
    (protType : ProtType)
    (reqId : String)
    (tokens : List (Role × String)) :
    (serverContract cfg).Triple tid
      (fun x => Executing tid opId userId protType x ∧ Provided userId protType x)
      (dispatch opId userId protType reqId tokens)
      (Post (fun _ _ => True) fun _ => True) := by
  have steady : Steady cfg tid fun x => Executing tid opId userId protType x ∧
      Provided userId protType x :=
    steady_executing.under (carries_provided.weaken fun _ holds => holds.1)
  have sending : (serverContract cfg).Triple tid
      (fun x => Executing tid opId userId protType x ∧ Provided userId protType x)
      (sendEach (fun role => .execute reqId userId protType (tokens.lookup role)) roles)
      (Post (fun _ x => Executing tid opId userId protType x ∧ Provided userId protType x)
        fun x => Executing tid opId userId protType x ∧ Provided userId protType x) :=
    triple_sendEach _ steady (fun role => triple_send role
      (.execute reqId userId protType (tokens.lookup role)) steady (fun _ holds => holds.1.1)
      (fun x _ sound holds => ⟨holds.1.1, rfl, holds.1.2.1, ⟨opId, holds.1.2.2⟩,
        fun is => ⟨sound.regular.member userId (holds.2 is), holds.2 is⟩⟩)
      fun _ holds => holds) roles
  refine (sending.attempt (fun _ => steady.stable) steady.stable).seq fun sent => ?_
  have cracks : ∀ errorCode, (serverContract cfg).Triple tid
      (fun x => Executing tid opId userId protType x ∧ Provided userId protType x)
      (crackTask (some opId) errorCode) (Post (fun _ _ => True) fun _ => True) :=
    fun errorCode => (triple_crackOperation errorCode).given
      fun _ _ holds => ⟨holds.1.1, holds.1.2.2⟩
  cases sent with
  | error error =>
      dsimp only
      split
      · exact cracks _
      · exact .throw steady.stable fun _ _ _ => trivial
  | ok =>
      have quiet : ∀ {Out : Type} {prog : Proc Out}, Only Cmd.Quiet prog ->
          (serverContract cfg).Triple tid
            (fun x => Executing tid opId userId protType x ∧ Provided userId protType x) prog
            (Post (fun _ x => Executing tid opId userId protType x ∧
              Provided userId protType x) fun _ => True) := fun only =>
        (triple_silent steady (Only.silent only)).raising fun _ _ _ => trivial
      refine (quiet (quiet_collectReady reqId roles).only).seq fun ready => ?_
      split
      · refine (quiet (quiet_collectDone reqId roles []).only).seq fun collected => ?_
        cases collected with
        | none => exact cracks _
        | some collected =>
            exact (triple_complete userId protType collected).given
              fun _ _ holds => ⟨holds.1.1, holds.1.2.2⟩
      · exact cracks _

theorem triple_runExecute
    (userId : String)
    (protType : ProtType) :
    (serverContract cfg).Triple tid (Executing tid opId userId protType)
      (runExecute opId userId protType) (Post (fun _ _ => True) fun _ => True) := by
  refine ((triple_silent steady_executing (Only.silent quiet_nextRequestId.only)).raising
    fun _ _ _ => trivial).seq fun reqId => ?_
  refine ((triple_preflight userId protType).raising fun _ _ _ => trivial).seq
    fun tokens => ?_
  cases tokens with
  | ok tokens => exact triple_dispatch userId protType reqId tokens
  | error role =>
      refine triple_db steady_executing (fun _ => steady_true) steady_true
        (fun _ _ => trivial) ?_
      rintro x now reply after sound ⟨owner, _, found⟩ applied
      cases applied
      exact ⟨_, .close sound owner found rfl (.inr rfl) _ now rfl trivial, trivial⟩

/-! ## The protocol of a SYNC -/

/-- The thread carries a SYNC. -/
def Syncing (tid : Nat) (x : World) : Prop :=
  Carries tid x ∧ x.1.activeSync.isSome = true

theorem steady_syncing : Steady cfg tid (Syncing tid) := steady_carries.under carries_sync

/-- It carries a SYNC of a task that stands. -/
def Merging (tid : Nat) (x : World) : Prop :=
  Carries tid x ∧ x.1.taskCracked = false ∧ x.1.activeSync.isSome = true

theorem steady_merging : Steady cfg tid (Merging tid) :=
  steady_carries.under (carries_clear.and carries_sync)

/-- The note that a SYNC is BUSY. -/
theorem triple_noteBusy :
    (serverContract cfg).Triple tid (Merging tid)
      (withLock .sync do
        match ← give .activeSync with
        | none => pure ()
        | some sync => give (.setActiveSync (some { sync with status := .busy })))
      (Post (fun _ => Merging tid) (Merging tid)) := by
  refine triple_withSyncLock steady_merging (fun _ => steady_merging) steady_merging
    (fun _ holds => holds) ?_
  refine (triple_look .activeSync trivial steady_merging).seq fun sync => ?_
  cases sync with
  | none => exact .ret steady_merging.stable fun _ _ holds => holds
  | some sync =>
      refine triple_give steady_merging (fun _ => steady_merging) steady_merging
        fun x choice fresh done sound holds _ did => ?_
      cases did
      exact ⟨x.2, .busySync sound holds.2.2 _ _, nofun, holds.1, holds.2.1, rfl⟩

theorem triple_syncBody (reqId : String) :
    (serverContract cfg).Triple tid (Merging tid) (syncBody reqId)
      (Post (fun _ => Syncing tid) (Syncing tid)) := by
  have carries : ∀ x, Merging tid x -> Syncing tid x := fun _ holds => ⟨holds.1, holds.2.2⟩
  have cracks : ∀ errorCode, (serverContract cfg).Triple tid (Merging tid)
      (crackTask none errorCode) (Post (fun _ => Syncing tid) (Syncing tid)) :=
    fun errorCode => (triple_crackSync errorCode).given fun x _ => carries x
  have quiet : ∀ {Out : Type} {prog : Proc Out}, Only Cmd.Quiet prog ->
      (serverContract cfg).Triple tid (Merging tid) prog
        (Post (fun _ => Merging tid) (Syncing tid)) := fun only =>
    (triple_silent steady_merging (Only.silent only)).raising fun x _ => carries x
  have sending : (serverContract cfg).Triple tid (Merging tid)
      (sendEach (fun _ => .sync reqId) roles)
      (Post (fun _ => Merging tid) (Merging tid)) :=
    triple_sendEach _ steady_merging (fun role => triple_send role (.sync reqId)
      steady_merging (fun _ holds => holds.1)
      (fun _ _ _ holds => ⟨holds.1, rfl, holds.2.1, holds.2.2⟩)
      fun _ holds => holds) roles
  refine (triple_noteBusy.raising fun x _ => carries x).seq fun _ => ?_
  refine (sending.attempt (fun _ => steady_merging.stable) steady_merging.stable).seq
    fun sent => ?_
  cases sent with
  | error error =>
      dsimp only
      split
      · exact cracks _
      · exact .throw steady_merging.stable fun x _ => carries x
  | ok =>
      refine (quiet (quiet_collectReady reqId roles).only).seq fun ready => ?_
      split
      · refine (quiet (quiet_collectDone reqId roles []).only).seq fun collected => ?_
        cases collected with
        | none => exact cracks _
        | some => exact .ret steady_merging.stable fun x _ => carries x
      · exact cracks _

theorem triple_runSync :
    (serverContract cfg).Triple tid (Merging tid) runSync
      (Post (fun _ _ => True) fun _ => True) := by
  have ends : (serverContract cfg).Triple tid (Syncing tid)
      (withLock .sync (give (.setActiveSync none)))
      (Post (fun _ _ => True) fun _ => True) := by
    refine triple_withSyncLock steady_syncing (fun _ => steady_true) steady_true
      (fun _ _ => trivial) ?_
    refine triple_give steady_syncing (fun _ => steady_true) steady_true
      fun x choice fresh done sound holds _ did => ?_
    cases did
    exact ⟨_, .endSync sound holds.1 holds.2 _, nofun, trivial⟩
  refine ((triple_silent steady_merging (Only.silent quiet_nextRequestId.only)).raising
    fun _ _ _ => trivial).seq fun reqId => ?_
  exact (triple_syncBody reqId).tryFinally (fun _ => steady_syncing.stable)
    steady_syncing.stable (fun _ => ends) ends (fun _ => steady_true.stable)
    steady_true.stable

end Manager
end Mpmt
