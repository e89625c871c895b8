import Mpmt.Manager.Carrying

/-!
# The HTTP handlers

The reserve routes and `/execute` run within the contract: what they promote,
start and answer is theirs to promote, start and answer.
-/

namespace Mpmt
namespace Manager

open Effects Threads Contract

variable {cfg : Settings} {tid : Nat} {P : World -> Prop} {opId : Nat}

/-! ## What a handler knows -/

/-- The thread may hand out the endpoints in the response. -/
def Backed (tid : Nat) (response : Response) (x : World) : Prop :=
  ∀ endpoints, response.agents = some endpoints ->
    ∃ opId, response.opId = some opId ∧ x.2.ticket opId = some tid

theorem steady_backed (response : Response) : Steady cfg tid (Backed tid response) where
  stable := by
    intro x x' event sound other within backed endpoints agents
    obtain ⟨opId, answers, ticket⟩ := backed endpoints agents
    exact ⟨opId, answers, within.marks.ticket tid other.symm opId ticket⟩
  blind := fun _ _ _ backed => backed

theorem backed_of_none
    {response : Response}
    (none : response.agents = none)
    (x : World) : Backed tid response x := by
  intro endpoints some
  rw [none] at some
  cases some

/-- In the critical section of a standing task whose Agents are there. -/
def Available (tid : Nat) (x : World) : Prop :=
  Critical tid x ∧ x.1.agentsAvailable = true

theorem steady_available : Steady cfg tid (Available tid) :=
  steady_critical.under critical_available

/-- In addition nothing runs. -/
def Resting (tid : Nat) (x : World) : Prop :=
  Available tid x ∧ x.1.activeSync = none ∧ ∀ opId, ¬ x.1.db.Runs opId

theorem steady_resting : Steady cfg tid (Resting tid) :=
  steady_available.under
    ((critical_sync.and critical_rests).weaken fun _ available => available.1)

/-- The ACTIVE operation is the thread's to start. -/
def Starting
    (tid opId : Nat)
    (userId : String)
    (protType : ProtType)
    (x : World) : Prop :=
  Critical tid x ∧ x.1.db.faceOf opId = some ⟨userId, protType, .active⟩

theorem steady_starting
    {userId : String}
    {protType : ProtType} : Steady cfg tid (Starting tid opId userId protType) :=
  steady_critical.under critical_active

/-! ## Starting an operation -/

theorem triple_reconnectAll
    {userId : String}
    {protType : ProtType} :
    (serverContract cfg).Triple tid
      (fun x => Starting tid opId userId protType x ∧ x.1.agentsAvailable = true)
      reconnectAll
      (Post (fun _ => Starting tid opId userId protType)
        (Starting tid opId userId protType)) := by
  have steady : Steady cfg tid fun x => Starting tid opId userId protType x ∧
      x.1.agentsAvailable = true :=
    steady_starting.under (critical_available.weaken fun _ starting => starting.1)
  refine ((triple_silent steady (Only.silent (quiet_reconnectEach roles true).only)).raising
    fun _ _ holds => holds.1).seq fun ok => ?_
  refine Triple.seq (Q := fun _ => Starting tid opId userId protType) ?_ fun _ =>
    .ret steady_starting.stable fun _ _ holds => holds
  refine triple_give steady (fun _ => steady_starting) steady_starting
    fun x choice fresh done sound holds _ did => ?_
  cases did
  exact ⟨x.2, .setAvailable sound (.inl ⟨holds.1.1.1, holds.2⟩) ok _, nofun, holds.1⟩

theorem triple_reservePorts
    (userId : String)
    (protType : ProtType) :
    (serverContract cfg).Triple tid
      (fun x => Starting tid opId userId protType x ∧ x.1.agentsAvailable = true)
      (reservePorts userId protType)
      (Post (fun _ => Starting tid opId userId protType)
        (Starting tid opId userId protType)) := by
  have steady : Steady cfg tid fun x => Starting tid opId userId protType x ∧
      x.1.agentsAvailable = true :=
    steady_starting.under (critical_available.weaken fun _ starting => starting.1)
  have quiet : ∀ {Out : Type} {prog : Proc Out}, Only Cmd.Quiet prog ->
      (serverContract cfg).Triple tid
        (fun x => Starting tid opId userId protType x ∧ x.1.agentsAvailable = true) prog
        (Post (fun _ x => Starting tid opId userId protType x ∧
          x.1.agentsAvailable = true) (Starting tid opId userId protType)) := fun only =>
    (triple_silent steady (Only.silent only)).raising fun _ _ holds => holds.1
  have gone : (serverContract cfg).Triple tid
      (fun x => Starting tid opId userId protType x ∧ x.1.agentsAvailable = true)
      (do
        let _ ← reconnectAll
        pure (none : Option (List (Role × Nat))))
      (Post (fun _ => Starting tid opId userId protType)
        (Starting tid opId userId protType)) :=
    triple_reconnectAll.seq fun _ => .ret steady_starting.stable fun _ _ holds => holds
  refine (quiet (quiet_resetTimeouts roles).only).seq fun _ => ?_
  refine (quiet quiet_nextRequestId.only).seq fun reqId => ?_
  have sending : Only Cmd.Quiet
      (attempt (sendEach (fun _ => .reserve reqId userId protType) roles)) :=
    Only.attempt (only_sendEach (fun _ => trivial) roles)
  refine (quiet sending).seq fun sent => ?_
  cases sent with
  | error error =>
      dsimp only
      split
      · exact gone
      · exact .throw steady.stable fun _ _ holds => holds.1
  | ok =>
      refine (quiet (quiet_collectPorts reqId roles false []).only).seq fun ports => ?_
      cases ports with
      | none => exact gone
      | some ports => exact .ret steady.stable fun _ _ holds => holds.1

/-- From ACTIVE to BUSY: the protocol thread carries the operation, and this one
may answer with the endpoints. -/
theorem triple_start
    (userId : String)
    (protType : ProtType)
    (response : Response)
    (answers : response.opId = some opId) :
    (serverContract cfg).Triple tid (Starting tid opId userId protType)
      (do
        db (.updateOperation opId .busy Db.Columns.none)
        give (.spawn (.runExecute opId userId protType))
        pure response)
      (Post (fun out x => Holds tid x ∧ Backed tid out x) (Holds tid)) := by
  have carrying : Steady cfg tid fun x => (Holds tid x ∧ x.2.ticket opId = some tid) ∧
      Carries tid x ∧ (x.1.taskCracked = false ∧
        x.1.db.faceOf opId = some ⟨userId, protType, .busy⟩) ∧ x.2.sent = false :=
    (steady_holds.and steady_ticket).and
      (steady_carries.under (carries_executing.and carries_unsent))
  have granted : Steady cfg tid fun x => Holds tid x ∧ x.2.ticket opId = some tid :=
    steady_holds.and steady_ticket
  refine Triple.seq (Q := fun _ x => (Holds tid x ∧ x.2.ticket opId = some tid) ∧
      Carries tid x ∧ (x.1.taskCracked = false ∧
        x.1.db.faceOf opId = some ⟨userId, protType, .busy⟩) ∧ x.2.sent = false)
    (triple_db steady_starting (fun _ => carrying) steady_holds (fun _ holds => holds.1.1) ?_)
    fun _ => Triple.seq (Q := fun _ x => Holds tid x ∧ x.2.ticket opId = some tid)
      (triple_give carrying (fun _ => granted) steady_holds ?_) fun _ =>
        .ret granted.stable fun x _ holds =>
          ⟨holds.1, fun _ _ => ⟨opId, answers, holds.2⟩⟩
  · rintro x now reply after sound ⟨⟨lock, clear⟩, found⟩ applied
    cases applied
    have recast : x.1.db.Recast (x.1.db.updateOperation opId .busy Db.Columns.none now)
      (Db.setting opId .busy) := Db.recast_updateOperation rfl
    exact ⟨_, .start sound found rfl lock clear _ now _, ⟨lock, if_pos rfl⟩, rfl,
      ⟨clear, recast.setting_self found⟩, rfl⟩
  · rintro x choice fresh done sound ⟨kept, owner, ⟨clear, busy⟩, unsent⟩ _ did
    cases choice with
    | go =>
        cases did
        refine ⟨_, .handOver sound owner unsent fresh _ _, fun task begun => ?_, kept⟩
        cases begun
        exact ⟨rfl, clear, busy⟩
    | fail error =>
        cases error <;> cases did
        exact ⟨x.2, .alike sound (.refl sound) trivial, nofun, kept.1⟩
    | _ => cases did

theorem triple_startExecute
    (op : Operation) :
    (serverContract cfg).Triple tid
      (fun x => Starting tid opId op.userId op.protType x ∧ x.1.agentsAvailable = true)
      (startExecute cfg opId op)
      (Post (fun out x => Holds tid x ∧ Backed tid out x) (Holds tid)) := by
  unfold startExecute
  split
  · exact (triple_start op.userId op.protType _ rfl).given fun _ _ holds => holds.1
  · refine ((triple_reservePorts op.userId op.protType).raising
      fun _ _ holds => holds.1.1).seq fun ports => ?_
    cases ports with
    | some ports => exact triple_start op.userId op.protType _ rfl
    | none =>
        refine Triple.seq (Q := fun _ => Holds tid)
          (triple_db steady_starting (fun _ => steady_holds) steady_holds
            (fun _ holds => holds.1.1) ?_) fun _ =>
          .ret steady_holds.stable fun x _ lock => ⟨lock, backed_of_none rfl x⟩
        rintro x now reply after sound ⟨⟨lock, _⟩, found⟩ applied
        cases applied
        exact ⟨x.2, .drop sound found (.reject lock) (.inr ⟨rfl, rfl⟩) _ now trivial, lock⟩

/-! ## The queue -/

/-- Evictions let nothing run. -/
theorem triple_evictStaleQueueHeads
    (now : Time)
    (rounds : Nat) :
    (serverContract cfg).Triple tid (Resting tid) (evictStaleQueueHeads cfg now rounds)
      (Post (fun _ => Resting tid) (Holds tid)) := by
  have locked : ∀ x, Resting tid x -> Holds tid x := fun _ resting => resting.1.1.1
  induction rounds with
  | zero => exact fun _ _ _ => trivial
  | succ rounds inductionHypothesis =>
      have head : ∀ first : Option Row, Steady cfg tid fun x => Resting tid x ∧
          ∀ row, first = some row ->
            x.1.db.faceOf row.1 = some row.2.face ∧ row.2.face.status = .queued :=
        fun _ => steady_resting.under (.all fun _ => .imp fun _ =>
          critical_queued.weaken fun _ resting => resting.1.1)
      have reading : (serverContract cfg).Triple tid (Resting tid) (db .firstQueued)
          (Post (fun first x => Resting tid x ∧ ∀ row, first = some row ->
            x.1.db.faceOf row.1 = some row.2.face ∧ row.2.face.status = .queued)
            (Holds tid)) := by
        refine triple_read steady_resting head steady_holds locked trivial
          fun x now first _ resting applied => ⟨resting, fun row is => ?_⟩
        cases applied
        exact Db.faceOf_of_firstQueued is
      refine reading.seq fun first => ?_
      cases first with
      | none => exact .ret (head none).stable fun _ _ holds => holds.1
      | some row =>
          obtain ⟨opId, op⟩ := row
          refine Triple.seq (((triple_look (.mktime op.updatedAt) trivial
            (head (some (opId, op)))).attempt (fun _ => (head _).stable)
              (head _).stable)) fun updated => ?_
          cases updated with
          | error => exact .ret (head _).stable fun _ _ holds => holds.1
          | ok updated =>
              dsimp only
              split
              · refine Triple.seq (Q := fun _ => Resting tid)
                  (triple_db (head _) (fun _ => steady_resting) steady_holds
                    (fun x holds => locked x holds.1) ?_) fun _ => ?_
                · rintro x clock reply after sound ⟨resting, is⟩ applied
                  cases applied
                  obtain ⟨found, queued⟩ := is _ rfl
                  have lock := locked x resting
                  have may : Allowed tid x op.face.status .removed := by
                    rw [queued]
                    exact .remove lock
                  refine ⟨x.2, .drop sound found may (.inl ⟨queued, rfl⟩) _ clock trivial,
                    resting.1, resting.2.1, ?_⟩
                  have recast : x.1.db.Recast (x.1.db.updateOperation opId .removed
                    ⟨some none, some 3, some (some "OVERTIME_REMOVED")⟩ clock)
                    (Db.setting opId .removed) := Db.recast_updateOperation rfl
                  rintro other ⟨face, known, runs⟩
                  by_cases same : other = opId
                  · subst same
                    rw [recast.setting_self found] at known
                    cases known
                    cases runs
                  · rw [recast.setting_other same] at known
                    exact resting.2.2 other ⟨face, known, runs⟩
                · refine ((triple_fetch .reorderQueue trivial steady_resting).raising
                    fun x _ => locked x).seq fun _ => inductionHypothesis
              · exact .ret (head _).stable fun _ _ holds => holds.1

/-- Whether a SYNC waits or runs; if not, none runs while the lock is held. -/
theorem triple_syncHasPriority :
    (serverContract cfg).Triple tid (Available tid) syncHasPriority
      (Post (fun waits x => Available tid x ∧ (waits = false -> x.1.activeSync = none))
        (Holds tid)) := by
  have told : ∀ waits : Bool, Steady cfg tid fun x => Available tid x ∧
      (waits = false -> x.1.activeSync = none) := fun _ =>
    steady_available.under (.imp fun _ => critical_sync.weaken fun _ available => available.1)
  have locked : ∀ x, Available tid x -> Holds tid x := fun _ available => available.1.1
  refine triple_withSyncLock steady_available told steady_holds locked ?_
  refine ((triple_look .syncQueue trivial steady_available).raising fun x _ => locked x).seq
    fun queue => ?_
  split
  · exact .ret steady_available.stable fun _ _ holds => ⟨holds, nofun⟩
  · have known : ∀ sync : Option ActiveSync, Steady cfg tid fun x => Available tid x ∧
        (sync = none -> x.1.activeSync = none) := fun _ =>
      steady_available.under
        (.imp fun _ => critical_sync.weaken fun _ available => available.1)
    have asking : (serverContract cfg).Triple tid (Available tid) (give .activeSync)
        (Post (fun sync x => Available tid x ∧ (sync = none -> x.1.activeSync = none))
          (Holds tid)) :=
      triple_ask steady_available known steady_holds trivial
        fun x choice fresh done _ holds did _ => by
          cases did
          exact ⟨holds, id⟩
    refine asking.seq fun sync => .ret (known sync).stable fun _ _ holds => ⟨holds.1, ?_⟩
    intro waits
    refine holds.2 ?_
    cases sync with
    | none => rfl
    | some => cases waits

theorem triple_tryActivate (rounds : Nat) :
    (serverContract cfg).Triple tid (Available tid) (tryActivate cfg opId rounds)
      (Post (fun _ => Available tid) (Holds tid)) := by
  have locked : ∀ x, Available tid x -> Holds tid x := fun _ available => available.1.1
  have locked' : ∀ x, Resting tid x -> Holds tid x := fun _ resting => resting.1.1.1
  refine ((triple_look .taskCracked trivial steady_available).raising
    fun x _ => locked x).seq fun cracked => ?_
  split
  · exact .ret steady_available.stable fun _ _ holds => holds
  refine triple_syncHasPriority.seq fun waits => ?_
  have told : Steady cfg tid fun x => Available tid x ∧
      (waits = false -> x.1.activeSync = none) :=
    steady_available.under (.imp fun _ => critical_sync.weaken fun _ available => available.1)
  split
  · exact .ret told.stable fun _ _ holds => holds.1
  · next free =>
      have seen : ∀ active : Option Row, Steady cfg tid fun x => Available tid x ∧
          (active = none -> x.1.activeSync = none ∧ ∀ opId, ¬ x.1.db.Runs opId) := fun _ =>
        steady_available.under (.imp fun _ =>
          (critical_sync.and critical_rests).weaken fun _ available => available.1)
      have reading : (serverContract cfg).Triple tid (fun x => Available tid x ∧
          (waits = false -> x.1.activeSync = none)) (db .getActive)
          (Post (fun active x => Available tid x ∧ (active = none ->
            x.1.activeSync = none ∧ ∀ opId, ¬ x.1.db.Runs opId)) (Holds tid)) := by
        refine triple_read told seen steady_holds (fun x holds => locked x holds.1) trivial
          fun x now active _ holds applied => ⟨holds.1, fun none => ?_⟩
        cases applied
        exact ⟨holds.2 (Bool.eq_false_iff.mpr free), Db.not_runs_of_getActive none⟩
      refine reading.seq fun active => ?_
      cases active with
      | some => exact .ret (seen _).stable fun _ _ holds => holds.1
      | none =>
          refine Triple.given (P := Resting tid) ?_ fun _ _ holds => ⟨holds.1, holds.2 rfl⟩
          refine ((triple_look .time trivial steady_resting).raising
            fun x _ => locked' x).seq fun now => ?_
          refine (triple_evictStaleQueueHeads now rounds).seq fun _ => ?_
          refine ((triple_fetch .firstQueued trivial steady_resting).raising
            fun x _ => locked' x).seq fun first => ?_
          cases first with
          | none => exact .ret steady_resting.stable fun _ _ holds => holds.1
          | some row =>
              dsimp only
              split
              · exact .ret steady_resting.stable fun _ _ holds => holds.1
              · refine Triple.seq (Q := fun _ => Available tid)
                  (triple_db steady_resting (fun _ => steady_available) steady_holds locked'
                    fun x now reply after sound resting applied => ?_) fun _ =>
                  .ret steady_available.stable fun _ _ holds => holds
                have promoted : after = (x.1.db.promoteFirstQueued now).2 :=
                  (congrArg Prod.snd (Except.ok.inj applied)).symm
                subst promoted
                exact ⟨x.2, .promote sound resting.1.1.1 resting.2.1 resting.2.2 now _,
                  resting.1⟩

/-! ## `/execute` -/

/-- The operation as it is read under the lock. -/
theorem triple_getOperation :
    (serverContract cfg).Triple tid (Available tid) (getOperation opId)
      (Post (fun op x => Available tid x ∧ (op.status = .active ->
        x.1.db.faceOf opId = some ⟨op.userId, op.protType, .active⟩)) (Holds tid)) := by
  have locked : ∀ x, Available tid x -> Holds tid x := fun _ available => available.1.1
  have known : ∀ op : Operation, Steady cfg tid fun x => Available tid x ∧
      (op.status = .active ->
        x.1.db.faceOf opId = some ⟨op.userId, op.protType, .active⟩) := fun _ =>
    steady_available.under
      (.imp fun _ => critical_active.weaken fun _ available => available.1)
  have read : ∀ row : Option Row, Steady cfg tid fun x => Available tid x ∧
      ∀ key op, row = some (key, op) -> op.status = .active ->
        x.1.db.faceOf opId = some ⟨op.userId, op.protType, .active⟩ := fun _ =>
    steady_available.under (.all fun _ => .all fun _ => .imp fun _ => .imp fun _ =>
      critical_active.weaken fun _ available => available.1)
  have reading : (serverContract cfg).Triple tid (Available tid) (db (.getOperation opId))
      (Post (fun row x => Available tid x ∧
        ∀ key op, row = some (key, op) -> op.status = .active ->
          x.1.db.faceOf opId = some ⟨op.userId, op.protType, .active⟩) (Holds tid)) := by
    refine triple_read steady_available read steady_holds locked trivial
      fun x now row _ available applied => ⟨available, fun key op is active => ?_⟩
    cases applied
    obtain ⟨op', found, same⟩ := Option.map_eq_some_iff.mp is
    cases same
    rw [Db.faceOf_of_get? found, Operation.face, active]
  refine reading.seq fun row => ?_
  cases row with
  | none => exact .throw (read none).stable fun x _ holds => locked x holds.1
  | some row =>
      exact .ret (read (some row)).stable fun x _ holds => ⟨holds.1, holds.2 row.1 row.2 rfl⟩

/-- A response without endpoints. -/
theorem triple_answer
    (steady : Steady cfg tid P)
    (locked : ∀ x, P x -> Holds tid x)
    (response : Response)
    (none : response.agents = none) :
    (serverContract cfg).Triple tid P (pure response : Proc Response)
      (Post (fun out x => Holds tid x ∧ Backed tid out x) (Holds tid)) :=
  .ret steady.stable fun x _ holds => ⟨locked x holds, backed_of_none none x⟩

theorem triple_waitingResponse :
    (serverContract cfg).Triple tid (Available tid) (waitingResponse opId)
      (Post (fun out x => Holds tid x ∧ Backed tid out x) (Holds tid)) := by
  have locked : ∀ x, Available tid x -> Holds tid x := fun _ available => available.1.1
  refine ((triple_fetch (.queuePositionOf opId) trivial steady_available).raising
    fun x _ => locked x).seq fun pos => ?_
  refine ((triple_fetch .getActive trivial steady_available).raising
    fun x _ => locked x).seq fun active => ?_
  exact triple_answer steady_available locked _ rfl

theorem triple_pollQueued (rounds : Nat) :
    (serverContract cfg).Triple tid (Available tid) (pollQueued cfg opId rounds)
      (Post (fun out x => Holds tid x ∧ Backed tid out x) (Holds tid)) := by
  have locked : ∀ x, Available tid x -> Holds tid x := fun _ available => available.1.1
  refine ((triple_fetch (.touchOperation opId) trivial steady_available).raising
    fun x _ => locked x).seq fun _ => ?_
  refine (triple_tryActivate rounds).seq fun activated => ?_
  split
  · refine triple_getOperation.seq fun op => ?_
    split
    · next active =>
        exact (triple_startExecute op).given fun x _ holds =>
          ⟨⟨holds.1.1, holds.2 active⟩, holds.1.2⟩
    · exact triple_waitingResponse.given fun _ _ holds => holds.1
  · exact triple_waitingResponse

theorem triple_poll (rounds : Nat) :
    (serverContract cfg).Triple tid (Holds tid) (poll cfg opId rounds)
      (Post (fun out x => Holds tid x ∧ Backed tid out x) (Holds tid)) := by
  have told : ∀ cracked : Bool, Steady cfg tid fun x => Holds tid x ∧
      (cracked = false -> Critical tid x) := fun _ =>
    steady_holds.and (.imp fun _ => steady_critical)
  have asking : (serverContract cfg).Triple tid (Holds tid) (give .taskCracked)
      (Post (fun cracked x => Holds tid x ∧ (cracked = false -> Critical tid x))
        (Holds tid)) :=
    triple_ask steady_holds told steady_holds trivial
      fun x choice fresh done _ holds did _ => by
        cases did
        exact ⟨holds, fun clear => ⟨holds, clear⟩⟩
  refine asking.seq fun cracked => ?_
  split
  · exact triple_answer (told cracked) (fun _ holds => holds.1) _ rfl
  next clear =>
  have shown : ∀ available : Bool, Steady cfg tid fun x => Holds tid x ∧
      (available = true -> Available tid x) := fun _ =>
    steady_holds.and (.imp fun _ => steady_available)
  have asking' : (serverContract cfg).Triple tid
      (fun x => Holds tid x ∧ (cracked = false -> Critical tid x)) (give .agentsAvailable)
      (Post (fun available x => Holds tid x ∧ (available = true -> Available tid x))
        (Holds tid)) :=
    triple_ask (told cracked) shown steady_holds trivial
      fun x choice fresh done _ holds did _ => by
        cases did
        exact ⟨holds.1, fun there => ⟨holds.2 (Bool.eq_false_iff.mpr clear), there⟩⟩
  refine asking'.seq fun available => ?_
  split
  · next there =>
      refine Triple.given (P := Available tid) ?_ fun _ _ holds => holds.2 there
      refine triple_getOperation.seq fun op => ?_
      have known : Steady cfg tid fun x => Available tid x ∧ (op.status = .active ->
          x.1.db.faceOf opId = some ⟨op.userId, op.protType, .active⟩) :=
        steady_available.under
          (.imp fun _ => critical_active.weaken fun _ available => available.1)
      have locked : ∀ x, (Available tid x ∧ (op.status = .active ->
          x.1.db.faceOf opId = some ⟨op.userId, op.protType, .active⟩)) -> Holds tid x :=
        fun _ holds => holds.1.1.1
      split
      · exact (triple_pollQueued rounds).given fun _ _ holds => holds.1
      · next active =>
          exact (triple_startExecute op).given fun x _ holds =>
            ⟨⟨holds.1.1, holds.2 active⟩, holds.1.2⟩
      · exact triple_answer known locked _ rfl
      · exact triple_answer known locked _ rfl
  · exact triple_answer (shown available) (fun _ holds => holds.1) _ rfl

/-- An admitted operation gets in line. -/
theorem triple_enqueue :
    (serverContract cfg).Triple tid (fun x => Holds tid x ∧ Admitted opId x)
      (enqueue opId) (Post (fun _ => Holds tid) (Holds tid)) := by
  have steady : Steady cfg tid fun x => Holds tid x ∧ Admitted opId x :=
    steady_holds.and steady_admitted
  refine ((triple_silent steady (Only.silent (quiet_getOperation opId).only)).raising
    fun _ _ holds => holds.1).seq fun op => ?_
  have read : (serverContract cfg).Triple tid (Holds tid) (do
      let _ ← getOperation opId) (Post (fun _ => Holds tid) (Holds tid)) :=
    (triple_silent steady_holds (Only.silent (quiet_getOperation opId).only)).seq fun _ =>
      .ret steady_holds.stable fun _ _ holds => holds
  have queued : (serverContract cfg).Triple tid (fun x => Holds tid x ∧ Admitted opId x)
      (db (.enqueueReserved opId)) (Post (fun _ => Holds tid) (Holds tid)) := by
    refine triple_db steady (fun _ => steady_holds) steady_holds (fun _ holds => holds.1)
      fun x now reply after sound holds applied => ?_
    have moved : after = (x.1.db.enqueueReserved opId now).2 :=
      (congrArg Prod.snd (Except.ok.inj applied)).symm
    subst moved
    refine ⟨x.2, .enqueue sound (fun face found reserved => ?_) now _, holds.1⟩
    obtain ⟨face', found', fits⟩ := holds.2
    rw [found] at found'
    cases found'
    exact fits (by rw [reserved]; rfl)
  dsimp only
  split
  · exact queued.seq fun _ => read
  · exact read.given fun _ _ holds => holds.1

/-- The operation of the request. -/
def Known (opId : Nat) (userId protType : String) (x : World) : Prop :=
  ∃ face, x.1.db.faceOf opId = some face ∧ face.userId = userId ∧
    face.protType.name = protType

theorem steady_known
    {userId protType : String} : Steady cfg tid (Known opId userId protType) where
  stable := by
    rintro x x' event _ _ within ⟨face, found, user, service⟩
    have moves := within.tables.onward opId
    rw [found] at moves
    generalize after : x'.1.db.faceOf opId = face' at moves
    cases moves with
    | onward => exact ⟨_, after, user, service⟩
  blind := fun _ _ alike ⟨face, found, same⟩ =>
    ⟨face, (alike.recast.faceOf_eq opId).trans found, same⟩

/-- A row of the request, or an answer without endpoints. -/
def Resolved (userId protType : String) : Except Response Row -> World -> Prop
  | .ok row, x => Known row.1 userId protType x
  | .error response, _ => response.agents = none

theorem steady_resolved
    {userId protType : String}
    (result : Except Response Row) : Steady cfg tid (Resolved userId protType result) := by
  cases result with
  | ok row => exact steady_known
  | error response => exact .const _

theorem triple_resolveOperation
    (userId protType : String)
    (opId : Option Nat) :
    (serverContract cfg).Triple tid Opened (resolveOperation userId protType opId)
      (Post (fun result x => Opened x ∧ Resolved userId protType result x) Opened) := by
  cases opId with
  | some opId =>
      have read : ∀ row : Option Row, Steady cfg tid fun x => Opened x ∧
          ∀ key op, row = some (key, op) -> Known opId op.userId op.protType.name x :=
        fun _ => steady_opened.and (.all fun _ => .all fun _ => .imp fun _ => steady_known)
      have reading : (serverContract cfg).Triple tid Opened (db (.getOperation opId))
          (Post (fun row x => Opened x ∧
            ∀ key op, row = some (key, op) -> Known opId op.userId op.protType.name x)
            Opened) := by
        refine triple_read steady_opened read steady_opened (fun _ opened => opened) trivial
          fun x now row _ opened applied => ⟨opened, fun key op is => ?_⟩
        cases applied
        obtain ⟨op', found, same⟩ := Option.map_eq_some_iff.mp is
        cases same
        exact ⟨_, Db.faceOf_of_get? found, rfl, rfl⟩
      refine reading.seq fun row => ?_
      cases row with
      | none => exact .ret (read none).stable fun _ _ holds => ⟨holds.1, rfl⟩
      | some row =>
          dsimp only
          split
          · exact .ret (read (some row)).stable fun _ _ holds => ⟨holds.1, rfl⟩
          · next matching =>
              refine .ret (read (some row)).stable fun x _ holds => ⟨holds.1, ?_⟩
              have known := holds.2 row.1 row.2 rfl
              rw [not_or, not_not, not_not] at matching
              rw [matching.1, matching.2] at known
              exact known
  | none =>
      have read : ∀ row : Option Row, Steady cfg tid fun x => Opened x ∧
          ∀ key op, row = some (key, op) -> Known key userId protType x :=
        fun _ => steady_opened.and (.all fun _ => .all fun _ => .imp fun _ => steady_known)
      have reading : (serverContract cfg).Triple tid Opened
          (db (.getLiveOperation userId protType))
          (Post (fun row x => Opened x ∧
            ∀ key op, row = some (key, op) -> Known key userId protType x) Opened) := by
        refine triple_read steady_opened read steady_opened (fun _ opened => opened) trivial
          fun x now row _ opened applied => ⟨opened, fun key op is => ?_⟩
        cases applied
        obtain ⟨found, same⟩ := Db.mem_rowsWhere_of_face (List.mem_of_getLast? is)
        rw [decide_eq_true_eq] at same
        exact ⟨_, found, same.1, same.2.1⟩
      refine reading.seq fun row => ?_
      cases row with
      | none => exact .ret (read none).stable fun _ _ holds => ⟨holds.1, rfl⟩
      | some row =>
          exact .ret (read (some row)).stable fun _ _ holds =>
            ⟨holds.1, holds.2 row.1 row.2 rfl⟩

/-- The status of the user fits a JOIN or a QUIT. -/
def Suits (protType : String) (user : User) : Prop :=
  (protType = "JOIN" -> user.status ≠ .joined) ∧ (protType = "QUIT" -> user.status = .joined)

/-- Without a reason for a rejection the operation is admitted. -/
theorem triple_checkBizPrecondition
    (userId protType : String) :
    (serverContract cfg).Triple tid
      (fun x => Opened x ∧ Known opId userId protType x)
      (checkBizPrecondition userId protType)
      (Post (fun reason x => Opened x ∧ (reason = none -> Admitted opId x)) Opened) := by
  have checked : ∀ user : Option User, Steady cfg tid fun x => Opened x ∧
      ∀ is : User, user = some is -> Suits protType is -> Admitted opId x := fun _ =>
    steady_opened.and (.all fun _ => .imp fun _ => .imp fun _ => steady_admitted)
  have reading : (serverContract cfg).Triple tid
      (fun x => Opened x ∧ Known opId userId protType x) (db (.getUser userId))
      (Post (fun user x => Opened x ∧
        ∀ is : User, user = some is -> Suits protType is -> Admitted opId x) Opened) := by
    refine triple_read (steady_opened.and steady_known) checked steady_opened
      (fun _ holds => holds.1) trivial fun x now user _ holds applied => ?_
    refine ⟨holds.1, fun is same ⟨outside, inside⟩ => ?_⟩
    obtain ⟨face, found, rfl, rfl⟩ := holds.2
    cases applied
    refine ⟨face, found, fun _ => ⟨fun isJoin joined => ?_, fun isQuit => ?_⟩⟩
    · obtain ⟨user, stored, status⟩ := joined
      rw [Db.getUser, stored] at same
      cases same
      exact outside (by rw [isJoin]; rfl) status
    · exact ⟨is, same, inside (by rw [isQuit]; rfl)⟩
  refine reading.seq fun user => ?_
  cases user with
  | none => exact .ret (checked none).stable fun _ _ holds => ⟨holds.1, nofun⟩
  | some user =>
      have admits : ∀ x (reason : Option String), (Opened x ∧
          ∀ is : User, some user = some is -> Suits protType is -> Admitted opId x) ->
          (reason = none -> Suits protType user) -> Opened x ∧ (reason = none -> Admitted opId x) :=
        fun _ _ holds fits => ⟨holds.1, fun none => holds.2 user rfl (fits none)⟩
      dsimp only
      split
      · next isJoin =>
          refine .ret (checked (some user)).stable fun x _ holds => admits x _ holds fun none => ?_
          refine ⟨fun _ joined => ?_, fun isQuit => ?_⟩
          · rw [if_pos joined] at none
            cases none
          · rw [isJoin] at isQuit
            exact absurd isQuit (by decide)
      · next other =>
          split
          · refine .ret (checked (some user)).stable fun x _ holds =>
              admits x _ holds fun none => ⟨fun isJoin => absurd isJoin other, fun _ => ?_⟩
            by_contra outside
            rw [if_pos outside] at none
            cases none
          · next neither =>
              exact .ret (checked (some user)).stable fun x _ holds =>
                admits x _ holds fun _ => ⟨fun isJoin => absurd isJoin other,
                  fun isQuit => absurd (.inr isQuit) neither⟩

/-! ## The routes -/

theorem steady_answered
    (response : Response) : Steady cfg tid fun x => Opened x ∧ Backed tid response x :=
  steady_opened.and (steady_backed response)

/-- A response without endpoints, outside of the lock. -/
theorem triple_reply
    (steady : Steady cfg tid P)
    (opened : ∀ x, P x -> Opened x)
    (response : Response)
    (none : response.agents = none) :
    (serverContract cfg).Triple tid P (pure response : Proc Response)
      (Post (fun out x => Opened x ∧ Backed tid out x) Opened) :=
  .ret steady.stable fun x _ holds => ⟨opened x holds, backed_of_none none x⟩

theorem triple_lockedPoll (rounds : Nat) :
    (serverContract cfg).Triple tid Opened (withLock .main (poll cfg opId rounds))
      (Post (fun out x => Opened x ∧ Backed tid out x) Opened) := by
  refine triple_withLock (Holds tid) (fun out x => Opened x ∧ Backed tid out x) Opened
    steady_opened steady_holds (fun _ _ opened => opened) (fun _ _ _ => rfl) ?_
    (fun out => steady_holds.and (steady_answered out)) (steady_holds.and steady_opened)
    (fun _ _ holds => holds) (fun _ opened => opened) steady_answered steady_opened
  exact ((triple_poll rounds).returning fun _ _ sound holds =>
    ⟨holds.1, sound.opened_of_lock holds.1, holds.2⟩).raising fun _ sound lock =>
      ⟨lock, sound.opened_of_lock lock⟩

theorem triple_lockedEnqueue :
    (serverContract cfg).Triple tid (fun x => Opened x ∧ Admitted opId x)
      (withLock .main (enqueue opId)) (Post (fun _ => Opened) Opened) := by
  refine triple_withLock (fun x => Holds tid x ∧ Admitted opId x) (fun _ => Opened) Opened
    (steady_opened.and steady_admitted) (steady_holds.and steady_admitted)
    (fun _ _ holds => holds.1) (fun _ _ holds => ⟨rfl, holds.2⟩) ?_
    (fun _ => steady_holds.and steady_opened) (steady_holds.and steady_opened)
    (fun _ _ opened => opened) (fun _ opened => opened) (fun _ => steady_opened)
    steady_opened
  exact (triple_enqueue.returning fun _ _ sound lock =>
    ⟨lock, sound.opened_of_lock lock⟩).raising fun _ sound lock =>
      ⟨lock, sound.opened_of_lock lock⟩

theorem terminalResponse_agents
    {op : Operation}
    {response : Response}
    (terminal : terminalResponse opId op = some response) : response.agents = none := by
  unfold terminalResponse at terminal
  split at terminal <;> cases terminal <;> rfl

theorem triple_executeOperation
    (userId protType : String)
    (op : Operation)
    (rounds : Nat) :
    (serverContract cfg).Triple tid (fun x => Opened x ∧ Known opId userId protType x)
      (executeOperation cfg userId protType opId op rounds)
      (Post (fun out x => Opened x ∧ Backed tid out x) Opened) := by
  have steady : Steady cfg tid fun x => Opened x ∧ Known opId userId protType x :=
    steady_opened.and steady_known
  have opened : ∀ x, (Opened x ∧ Known opId userId protType x) -> Opened x :=
    fun _ holds => holds.1
  unfold executeOperation
  split
  · next response terminal =>
      exact triple_reply steady opened _ (terminalResponse_agents terminal)
  refine ((triple_look .taskCracked trivial steady).raising fun x _ => opened x).seq
    fun cracked => ?_
  split
  · exact triple_reply steady opened _ rfl
  refine ((triple_look .agentsAvailable trivial steady).raising fun x _ => opened x).seq
    fun available => ?_
  split
  · split
    · refine (triple_checkBizPrecondition userId protType).seq fun reason => ?_
      have admitting : Steady cfg tid fun x => Opened x ∧
          (reason = none -> Admitted opId x) :=
        steady_opened.and (.imp fun _ => steady_admitted)
      cases reason with
      | some reason => exact triple_reply admitting (fun _ holds => holds.1) _ rfl
      | none =>
          refine Triple.given (P := fun x => Opened x ∧ Admitted opId x) ?_
            fun _ _ holds => ⟨holds.1, holds.2 rfl⟩
          exact triple_lockedEnqueue.seq fun _ => triple_lockedPoll rounds
    · exact (triple_lockedPoll rounds).given fun x _ => opened x
  · exact triple_reply steady opened _ rfl

theorem triple_execute
    (userId protType : Option String)
    (opId : Option Nat)
    (rounds : Nat) :
    (serverContract cfg).Triple tid Opened (execute cfg userId protType opId rounds)
      (Post (fun out x => Opened x ∧ Backed tid out x) Opened) := by
  unfold execute
  dsimp only
  split
  · exact triple_reply steady_opened (fun _ opened => opened) _ rfl
  refine (triple_resolveOperation _ _ opId).seq fun result => ?_
  cases result with
  | error response =>
      exact .ret (steady_opened.and (steady_resolved (.error response))).stable
        fun x _ holds => ⟨holds.1, backed_of_none holds.2 x⟩
  | ok row => exact triple_executeOperation _ _ row.2 rounds

/-- Only a thread that has seen the task stand creates an operation. -/
theorem triple_reserveImpl
    (userId : Option String)
    (protType : ProtType)
    (allowedUsers : List String) :
    (serverContract cfg).Triple tid (fun x => Opened x ∧ tid ∈ x.2.passed)
      (reserveImpl userId protType allowedUsers)
      (Post (fun out x => Opened x ∧ Backed tid out x) Opened) := by
  have steady : Steady cfg tid fun x => Opened x ∧ tid ∈ x.2.passed :=
    steady_opened.and steady_passed
  have opened : ∀ x, (Opened x ∧ tid ∈ x.2.passed) -> Opened x := fun _ holds => holds.1
  have steady' : Steady cfg tid fun x => Holds tid x ∧ Opened x ∧ tid ∈ x.2.passed :=
    steady_holds.and steady
  unfold reserveImpl
  dsimp only
  split
  · exact triple_reply steady opened _ rfl
  split
  · exact triple_reply steady opened _ rfl
  refine triple_withLock (fun x => Holds tid x ∧ Opened x ∧ tid ∈ x.2.passed)
    (fun out x => Opened x ∧ Backed tid out x) Opened steady steady'
    (fun x _ => opened x) (fun _ _ holds => ⟨rfl, holds⟩) ?_
    (fun out => steady_holds.and (steady_answered out)) (steady_holds.and steady_opened)
    (fun _ _ holds => holds) (fun _ opened => opened) steady_answered steady_opened
  have answers : ∀ response : Response, response.agents = none ->
      (serverContract cfg).Triple tid
        (fun x => Holds tid x ∧ Opened x ∧ tid ∈ x.2.passed) (pure response : Proc Response)
        (Post (fun out x => Holds tid x ∧ Opened x ∧ Backed tid out x)
          fun x => Holds tid x ∧ Opened x) := fun response none =>
    .ret steady'.stable fun x _ holds => ⟨holds.1, holds.2.1, backed_of_none none x⟩
  refine ((triple_fetch (.getLiveOperation _ protType.name) trivial steady').raising
    fun _ _ holds => ⟨holds.1, holds.2.1⟩).seq fun live => ?_
  cases live with
  | some => exact answers _ rfl
  | none =>
      refine Triple.seq (Q := fun _ x => Holds tid x ∧ Opened x ∧ tid ∈ x.2.passed)
        (triple_db steady' (fun _ => steady') (steady_holds.and steady_opened)
          (fun _ holds => ⟨holds.1, holds.2.1⟩) ?_) fun _ => answers _ rfl
      intro x now created after sound holds applied
      exact ⟨x.2, .create sound holds.2.2 applied, holds⟩

theorem triple_reserveRoute
    (userId : Option String)
    (protType : ProtType)
    (allowedUsers : List String) :
    (serverContract cfg).Triple tid Opened (reserveRoute userId protType allowedUsers)
      (Post (fun out x => Opened x ∧ Backed tid out x) Opened) := by
  have told : ∀ cracked : Bool, Steady cfg tid fun x => Opened x ∧
      (cracked = false -> tid ∈ x.2.passed) := fun _ =>
    steady_opened.and (.imp fun _ => steady_passed)
  have asking : (serverContract cfg).Triple tid Opened (give .taskCracked)
      (Post (fun cracked x => Opened x ∧ (cracked = false -> tid ∈ x.2.passed))
        Opened) := by
    refine triple_give steady_opened told steady_opened
      fun x choice fresh done sound opened _ did => ?_
    cases did
    cases cracked : x.1.taskCracked with
    | true => exact ⟨x.2, .alike sound (.refl sound) trivial, nofun, opened, nofun⟩
    | false =>
        exact ⟨_, .pass sound cracked, nofun, opened, fun _ => List.mem_cons_self⟩
  refine asking.seq fun cracked => ?_
  split
  · exact triple_reply (told cracked) (fun _ holds => holds.1) _ rfl
  next clear =>
  refine ((triple_look .agentsAvailable trivial (told cracked)).raising
    fun _ _ holds => holds.1).seq fun available => ?_
  split
  · exact (triple_reserveImpl userId protType allowedUsers).given fun _ _ holds =>
      ⟨holds.1, holds.2 (Bool.eq_false_iff.mpr clear)⟩
  · exact triple_reply (told cracked) (fun _ holds => holds.1) _ rfl

theorem triple_route
    (rounds : Nat)
    (request : Request) :
    (serverContract cfg).Triple tid Opened (route cfg rounds request)
      (Post (fun out x => Opened x ∧ Backed tid out x) Opened) := by
  cases request with
  | reserveJoin userId => exact triple_reserveRoute userId .join cfg.setHolderUsers
  | reserveUpdate userId => exact triple_reserveRoute userId .update cfg.setHolderUsers
  | reserveQuery userId => exact triple_reserveRoute userId .query cfg.querierUsers
  | reserveQuit userId => exact triple_reserveRoute userId .quit cfg.setHolderUsers
  | execute userId protType opId => exact triple_execute userId protType opId rounds

/-- The endpoints are given away with the response. -/
theorem triple_respond (response : Response) :
    (serverContract cfg).Triple tid (fun x => Opened x ∧ Backed tid response x)
      (give (.respond response)) (Post (fun _ _ => True) fun _ => True) := by
  refine triple_give (steady_answered response) (fun _ => steady_true) steady_true
    fun x choice fresh done sound holds _ did => ?_
  cases did
  cases agents : response.agents with
  | none =>
      refine ⟨x.2, .alike sound (.refl sound) (fun endpoints some => ?_), nofun, trivial⟩
      rw [agents] at some
      cases some
  | some endpoints =>
      obtain ⟨opId, answers, ticket⟩ := holds.2 endpoints agents
      exact ⟨_, .answer sound answers ticket _, nofun, trivial⟩

theorem triple_handle
    (rounds : Nat)
    (request : Request) :
    (serverContract cfg).Triple tid Opened (handle cfg rounds request)
      (Post (fun _ _ => True) fun _ => True) := by
  refine ((triple_route rounds request).attempt (fun out => (steady_answered out).stable)
    steady_opened.stable).seq fun response => ?_
  cases response with
  | ok response => exact triple_respond response
  | error =>
      exact (triple_respond _).given fun x _ opened => ⟨opened, backed_of_none rfl x⟩

end Manager
end Mpmt
