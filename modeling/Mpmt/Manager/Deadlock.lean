import Mpmt.Manager.Eviction

/-!
# The two locks of the Manager

`_sync_lock` may be taken under `_lock`, but not the other way round, and both
are freed whatever happens, and the one loop that runs under a lock comes to its
end.  So nobody keeps a lock for good, and the threads do not wait for each other
in a circle.
-/

namespace Mpmt
namespace Manager

open Effects Threads Contract

/-! ## The programs -/

section Programs

variable {cfg : Settings} {enough : Prop} {bound rounds : Nat} {held : List LockName}

/-- A program that keeps its locks, and that is nowhere cut off if `enough`. -/
structure Balanced
    (cfg : Settings)
    (enough : Prop)
    (bound : Nat)
    (held : List LockName)
    (prog : Proc Out) : Prop where
  disciplined : (managerLocks cfg).Disciplined prog held held held
  endures : enough -> Endures Whatever bound prog

namespace Balanced

theorem bind
    {prog : Proc Out}
    {next : Out -> Proc Out'}
    (first : Balanced cfg enough bound held prog)
    (rest : ∀ out, Balanced cfg enough bound held (next out)) :
    Balanced cfg enough bound held (prog >>= next) :=
  ⟨first.disciplined.bind fun out => (rest out).disciplined,
    fun holds => (first.endures holds).bind fun out => (rest out).endures holds⟩

theorem pure (out : Out) : Balanced cfg enough bound held (Pure.pure out : Proc Out) :=
  ⟨rfl, fun _ => .pure out⟩

theorem raise (error : PyError) :
    Balanced cfg enough bound held (Effects.raise error : Proc Out) :=
  ⟨rfl, fun _ => .raise error⟩

theorem attempt
    {prog : Proc Out}
    (first : Balanced cfg enough bound held prog) :
    Balanced cfg enough bound held (Effects.attempt prog) :=
  ⟨first.disciplined.attempt, fun holds => (first.endures holds).attempt⟩

theorem ignore
    {prog : Proc Out}
    (first : Balanced cfg enough bound held prog) :
    Balanced cfg enough bound held (Effects.ignore prog) :=
  first.attempt.bind fun _ => pure ()

theorem tryFinally
    {prog : Proc Out}
    {final : Proc Unit}
    (first : Balanced cfg enough bound held prog)
    (last : Balanced cfg enough bound held final) :
    Balanced cfg enough bound held (Effects.tryFinally prog final) :=
  ⟨first.disciplined.tryFinally last.disciplined,
    fun holds => (first.endures holds).tryFinally (last.endures holds)⟩

end Balanced

theorem balanced_quiet
    {prog : Proc Out}
    (quiet : Quiet prog) : Balanced cfg enough bound held prog := by
  refine ⟨.of_only (quiet.only.mono fun cmd isQuiet => ?_), fun _ => quiet.endures⟩
  show Cmd.grip cmd = .none
  cases cmd with
  | acquire | release => cases isQuiet
  | _ => rfl

theorem balanced_give
    {cmd : Cmd}
    (leaves : cmd.grip = .none)
    (keeps : cmd.risky = false) : Balanced cfg enough bound held (give cmd) :=
  ⟨.leave leaves, fun _ => .give keeps fun _ _ => trivial⟩

theorem balanced_db
    (dbCall : DbCall)
    (keeps : Cmd.risky (.db dbCall) = false) :
    Balanced cfg enough bound held (db dbCall) :=
  balanced_give rfl keeps

theorem balanced_withLock
    {lock : LockName}
    {body : Proc Out}
    (above : ∀ other ∈ held, other.rank < lock.rank)
    (inside : Balanced cfg enough bound (lock :: held) body) :
    Balanced cfg enough bound held (withLock lock body) := by
  have takes : (Cmd.acquire lock).grip = .take lock := rfl
  have frees : (Cmd.release lock).grip = .free lock := rfl
  exact ⟨Locks.Disciplined.bind (.take takes above) fun _ =>
      inside.disciplined.tryFinally (.free frees),
    fun holds => Endures.bind (.give rfl fun _ _ => trivial) fun _ =>
      (inside.endures holds).tryFinally (.give rfl fun _ _ => trivial)⟩

/-- The first lock. -/
theorem balanced_alone
    {lock : LockName}
    {body : Proc Out}
    (inside : Balanced cfg enough bound [lock] body) :
    Balanced cfg enough bound [] (withLock lock body) :=
  balanced_withLock (fun _ member => absurd member List.not_mem_nil) inside

/-- `_sync_lock` under `_lock`. -/
theorem balanced_nested
    {body : Proc Out}
    (inside : Balanced cfg enough bound [.sync, .main] body) :
    Balanced cfg enough bound [.main] (withLock .sync body) :=
  balanced_withLock (fun other member => by rw [List.mem_singleton.mp member]; decide) inside

theorem balanced_reconnectAll : Balanced cfg enough bound held reconnectAll :=
  Balanced.bind (balanced_quiet (quiet_reconnectEach roles true)) fun _ =>
    Balanced.bind (balanced_give rfl rfl) fun _ => .pure _

theorem balanced_sendEach
    (message : Role -> Message)
    (roles : List Role) : Balanced cfg enough bound held (sendEach message roles) := by
  induction roles with
  | nil => exact .pure ()
  | cons role rest inductionHypothesis =>
      exact Balanced.bind (balanced_give rfl rfl) fun _ => inductionHypothesis

theorem balanced_reservePorts
    (userId : String)
    (protType : ProtType) : Balanced cfg enough bound held (reservePorts userId protType) := by
  refine Balanced.bind (balanced_quiet (quiet_resetTimeouts roles)) fun _ => ?_
  refine Balanced.bind (balanced_quiet quiet_nextRequestId) fun reqId => ?_
  refine Balanced.bind (.attempt (balanced_sendEach _ roles)) fun sent => ?_
  cases sent with
  | error error =>
      dsimp only
      split
      · exact Balanced.bind balanced_reconnectAll fun _ => .pure _
      · exact .raise error
  | ok =>
      refine Balanced.bind (balanced_quiet (quiet_collectPorts reqId roles false []))
        fun ports => ?_
      cases ports with
      | none => exact Balanced.bind balanced_reconnectAll fun _ => .pure _
      | some ports => exact .pure _

theorem balanced_crackTask
    (opId : Option Nat)
    (errorCode : String) : Balanced cfg enough bound [] (crackTask opId errorCode) := by
  refine Balanced.bind (balanced_alone (balanced_give rfl rfl)) fun _ => ?_
  have rest : Balanced cfg enough bound [] (do
      ignore (give (.writeTaskStatus .cracked))
      ignore (db (.failAllLiveOperations "TASK_CRACKED")) : Proc Unit) :=
    Balanced.bind (.ignore (balanced_give rfl rfl)) fun _ => .ignore (balanced_db _ rfl)
  cases opId with
  | none => exact rest
  | some opId => exact Balanced.bind (.ignore (balanced_db _ rfl)) fun _ => rest

/-- The result is written, or the task is cracked. -/
theorem balanced_commit
    (opId : Nat)
    (dbCall : DbCall)
    (keeps : Cmd.risky (.db dbCall) = false) :
    Balanced cfg enough bound [] (do
      let committed ← attempt (db dbCall)
      match committed with
      | .ok _ => pure ()
      | .error _ => crackTask (some opId) "DB_COMMIT_FAILED" : Proc Unit) := by
  refine Balanced.bind (.attempt (balanced_db dbCall keeps)) fun committed => ?_
  cases committed with
  | ok => exact .pure ()
  | error => exact balanced_crackTask _ _

theorem balanced_complete
    (opId : Nat)
    (userId : String)
    (tokens : List (Role × String))
    (protType : ProtType) :
    Balanced cfg enough bound [] (complete opId userId tokens protType) := by
  cases protType with
  | join =>
      rw [complete]
      split
      · exact balanced_commit opId _ rfl
      · exact balanced_crackTask _ _
  | quit => exact balanced_commit opId _ rfl
  | update => exact balanced_commit opId _ rfl
  | query => exact balanced_commit opId _ rfl

theorem balanced_dispatch
    (opId : Nat)
    (userId : String)
    (protType : ProtType)
    (reqId : String)
    (tokens : List (Role × String)) :
    Balanced cfg enough bound [] (dispatch opId userId protType reqId tokens) := by
  refine Balanced.bind (.attempt (balanced_sendEach _ roles)) fun sent => ?_
  cases sent with
  | error error =>
      dsimp only
      split
      · exact balanced_crackTask _ _
      · exact .raise error
  | ok =>
      refine Balanced.bind (balanced_quiet (quiet_collectReady reqId roles))
        fun ready => ?_
      split
      · refine Balanced.bind (balanced_quiet (quiet_collectDone reqId roles []))
          fun collected => ?_
        cases collected with
        | none => exact balanced_crackTask _ _
        | some collected => exact balanced_complete _ _ _ _
      · exact balanced_crackTask _ _

theorem balanced_runExecute
    (opId : Nat)
    (userId : String)
    (protType : ProtType) : Balanced cfg enough bound [] (runExecute opId userId protType) := by
  refine Balanced.bind (balanced_quiet quiet_nextRequestId) fun reqId => ?_
  refine Balanced.bind (balanced_quiet (quiet_preflight userId protType))
    fun tokens => ?_
  cases tokens with
  | error role => exact balanced_db _ rfl
  | ok tokens => exact balanced_dispatch _ _ _ _ _

theorem balanced_runSync : Balanced cfg enough bound [] runSync := by
  refine Balanced.bind (balanced_quiet quiet_nextRequestId) fun reqId => ?_
  refine Balanced.tryFinally ?_ (balanced_alone (balanced_give rfl rfl))
  refine Balanced.bind
    (balanced_alone (Balanced.bind (balanced_give rfl rfl) fun sync => ?_)) fun _ => ?_
  · cases sync with
    | none => exact .pure ()
    | some sync => exact balanced_give rfl rfl
  refine Balanced.bind (.attempt (balanced_sendEach _ roles)) fun sent => ?_
  cases sent with
  | error error =>
      dsimp only
      split
      · exact balanced_crackTask _ _
      · exact .raise error
  | ok =>
      refine Balanced.bind (balanced_quiet (quiet_collectReady reqId roles))
        fun ready => ?_
      split
      · refine Balanced.bind (balanced_quiet (quiet_collectDone reqId roles []))
          fun collected => ?_
        cases collected with
        | none => exact balanced_crackTask _ _
        | some collected => exact .pure ()
      · exact balanced_crackTask _ _

/-- A program that the thread runs when it has just taken `_lock`. -/
structure Entered (cfg : Settings) (enough : Prop) (bound : Nat) (prog : Proc Out) : Prop where
  disciplined : (managerLocks cfg).Disciplined prog [.main] [.main] [.main]
  lasts : enough -> Lasts bound prog (fun _ _ => True) (some ⟨bound, none⟩)

namespace Entered

theorem of_balanced
    {prog : Proc Out}
    (balanced : Balanced cfg enough bound [.main] prog) : Entered cfg enough bound prog :=
  ⟨balanced.disciplined, fun holds => balanced.endures holds _⟩

/-- The first part leaves alone what the thread knows. -/
theorem behind
    {prog : Proc Out}
    {next : Out -> Proc Out'}
    (first : Balanced cfg enough bound [.main] prog)
    (unmoved : Unmoved bound prog)
    (rest : ∀ out, Entered cfg enough bound (next out)) :
    Entered cfg enough bound (prog >>= next) := by
  refine ⟨first.disciplined.bind fun out => (rest out).disciplined,
    fun holds => unmoved.followed (fun out sight same => ?_) fun _ _ _ => trivial⟩
  rw [← same]
  exact (rest out).lasts holds

theorem bind
    {prog : Proc Out}
    {next : Out -> Proc Out'}
    (first : Entered cfg enough bound prog)
    (rest : ∀ out, Balanced cfg enough bound [.main] (next out)) :
    Entered cfg enough bound (prog >>= next) := by
  refine ⟨first.disciplined.bind fun out => (rest out).disciplined,
    fun holds => Lasts.bind ((first.lasts holds).mono fun result sight _ => ?_)⟩
  cases result with
  | ok out => exact ((rest out).endures holds sight).mono fun _ _ _ => trivial
  | error => exact trivial

/-- A command that only reads. -/
theorem give
    {cmd : Cmd}
    {next : cmd.Reply -> Proc Out}
    (leaves : cmd.grip = .none)
    (keeps : cmd.risky = false)
    (same : ∀ sight reply, sight = Manager.behind bound sight cmd reply)
    (rest : ∀ reply, Entered cfg enough bound (next reply)) :
    Entered cfg enough bound (Manager.give cmd >>= next) :=
  behind (balanced_give leaves keeps) (.give keeps same) rest

theorem withLock
    {body : Proc Out}
    (inside : Entered cfg enough bound body) :
    Balanced cfg enough bound [] (Manager.withLock .main body) := by
  have takes : (Cmd.acquire .main).grip = .take LockName.main := rfl
  have frees : (Cmd.release .main).grip = .free LockName.main := rfl
  refine ⟨Locks.Disciplined.bind (.take takes fun _ member => absurd member List.not_mem_nil)
    fun _ => inside.disciplined.tryFinally (.free frees), fun holds sight =>
      ⟨nofun, fun _ _ => ?_, fun _ => trivial⟩⟩
  show Lasts bound (tryFinally body (Manager.give (.release .main))) (fun _ => Whatever sight)
    (some ⟨bound, none⟩)
  refine Lasts.bind (Lasts.attempt ((inside.lasts holds).mono fun result sight' _ => ?_))
  have freed : Endures Whatever bound (Manager.give (.release .main) >>= fun _ =>
      (liftExcept result : Proc Out)) := by
    refine Endures.bind (.give rfl fun _ _ => trivial) fun _ => ?_
    cases result with
    | ok out => exact .pure out
    | error error => exact .raise error
  exact (freed sight').mono fun _ _ _ => trivial

end Entered

theorem disciplined_evictStaleQueueHeads
    (now : Time)
    (rounds : Nat) :
    (managerLocks cfg).Disciplined (evictStaleQueueHeads cfg now rounds) held held held := by
  have calls (dbCall : DbCall) : (managerLocks cfg).Disciplined (db dbCall) held held held :=
    .leave rfl
  induction rounds with
  | zero => trivial
  | succ rounds inductionHypothesis =>
      refine (calls .firstQueued).bind fun first => ?_
      cases first with
      | none => exact .pure ()
      | some row =>
          refine Locks.Disciplined.bind (.attempt (.leave rfl)) fun updated => ?_
          cases updated with
          | error => exact .pure ()
          | ok updated =>
              dsimp only
              split
              · exact (calls _).bind fun _ => (calls _).bind fun _ => inductionHypothesis
              · exact .pure ()

theorem balanced_syncHasPriority : Balanced cfg enough bound [.main] syncHasPriority := by
  refine balanced_nested (Balanced.bind (balanced_give rfl rfl) fun queue => ?_)
  split
  · exact .pure true
  · exact Balanced.bind (balanced_give rfl rfl) fun _ => .pure _

theorem entered_tryActivate
    (opId rounds : Nat) : Entered cfg (bound < rounds) bound (tryActivate cfg opId rounds) := by
  refine .give rfl rfl (fun _ _ => rfl) fun cracked => ?_
  split
  · exact .of_balanced (.pure false)
  refine .behind balanced_syncHasPriority unmoved_syncHasPriority fun waits => ?_
  split
  · exact .of_balanced (.pure false)
  refine .give rfl rfl (fun _ _ => rfl) fun active => ?_
  cases active with
  | some row => exact .of_balanced (.pure false)
  | none =>
      refine .give rfl rfl (fun _ _ => rfl) fun now => ?_
      have evicts : Entered cfg (bound < rounds) bound (evictStaleQueueHeads cfg now rounds) :=
        ⟨disciplined_evictStaleQueueHeads now rounds, lasts_evictStaleQueueHeads now⟩
      refine evicts.bind fun _ => Balanced.bind (balanced_db _ rfl) fun first => ?_
      cases first with
      | none => exact .pure false
      | some row =>
          dsimp only
          split
          · exact .pure false
          · exact Balanced.bind (balanced_db _ rfl) fun _ => .pure true

theorem balanced_reserveRoute
    (userId : Option String)
    (protType : ProtType)
    (allowedUsers : List String) :
    Balanced cfg enough bound [] (reserveRoute userId protType allowedUsers) := by
  refine Balanced.bind (balanced_give rfl rfl) fun cracked => ?_
  split
  · exact .pure _
  refine Balanced.bind (balanced_give rfl rfl) fun available => ?_
  split
  · unfold reserveImpl
    dsimp only
    split
    · exact .pure _
    · split
      · exact .pure _
      · refine balanced_alone (Balanced.bind (balanced_db _ rfl) fun row => ?_)
        cases row with
        | none => exact Balanced.bind (balanced_db _ rfl) fun _ => .pure _
        | some row => exact .pure _
  · exact .pure _

theorem balanced_startExecute
    (opId : Nat)
    (op : Operation) : Balanced cfg enough bound held (startExecute cfg opId op) := by
  unfold startExecute
  split
  · exact Balanced.bind (balanced_db _ rfl) fun _ =>
      Balanced.bind (balanced_give rfl rfl) fun _ => .pure _
  · refine Balanced.bind (balanced_reservePorts op.userId op.protType) fun ports => ?_
    cases ports with
    | none => exact Balanced.bind (balanced_db _ rfl) fun _ => .pure _
    | some ports =>
        exact Balanced.bind (balanced_db _ rfl) fun _ =>
          Balanced.bind (balanced_give rfl rfl) fun _ => .pure _

theorem entered_pollQueued
    (opId rounds : Nat) : Entered cfg (bound < rounds) bound (pollQueued cfg opId rounds) := by
  refine .give rfl rfl (fun _ _ => rfl) fun _ => ?_
  refine (entered_tryActivate opId rounds).bind fun activated => ?_
  split
  · refine Balanced.bind (balanced_quiet (quiet_getOperation opId)) fun op => ?_
    split
    · exact balanced_startExecute opId op
    · exact balanced_quiet (quiet_waitingResponse opId)
  · exact balanced_quiet (quiet_waitingResponse opId)

theorem entered_poll
    (opId rounds : Nat) : Entered cfg (bound < rounds) bound (poll cfg opId rounds) := by
  refine .give rfl rfl (fun _ _ => rfl) fun cracked => ?_
  split
  · exact .of_balanced (.pure _)
  refine .give rfl rfl (fun _ _ => rfl) fun available => ?_
  split
  · refine .behind (balanced_quiet (quiet_getOperation opId)) (unmoved_getOperation opId)
      fun op => ?_
    split
    · exact entered_pollQueued opId rounds
    · exact .of_balanced (balanced_startExecute opId op)
    · exact .of_balanced (.pure _)
    · exact .of_balanced (.pure _)
  · exact .of_balanced (.pure _)

theorem entered_enqueue (opId : Nat) : Entered cfg enough bound (enqueue opId) := by
  refine .behind (balanced_quiet (quiet_getOperation opId)) (unmoved_getOperation opId)
    fun op => ?_
  dsimp only
  split
  · have enqueues : Entered cfg enough bound (db (.enqueueReserved opId)) :=
      ⟨.leave rfl, fun _ => ⟨fun _ => ⟨rfl, _, rfl⟩, fun _ _ => trivial, fun _ => trivial⟩⟩
    exact enqueues.bind fun _ =>
      Balanced.bind (balanced_quiet (quiet_getOperation opId)) fun _ => .pure _
  · exact .of_balanced
      (Balanced.bind (balanced_quiet (quiet_getOperation opId)) fun _ => .pure _)

theorem balanced_executeOperation
    (userId protType : String)
    (opId : Nat)
    (op : Operation)
    (rounds : Nat) :
    Balanced cfg (bound < rounds) bound []
      (executeOperation cfg userId protType opId op rounds) := by
  have polls : Balanced cfg (bound < rounds) bound [] (withLock .main (poll cfg opId rounds)) :=
    (entered_poll opId rounds).withLock
  unfold executeOperation
  split
  · exact .pure _
  refine Balanced.bind (balanced_give rfl rfl) fun cracked => ?_
  split
  · exact .pure _
  refine Balanced.bind (balanced_give rfl rfl) fun available => ?_
  split
  · split
    · refine Balanced.bind (balanced_quiet (quiet_checkBizPrecondition userId protType))
        fun reason => ?_
      cases reason with
      | some reason => exact .pure _
      | none => exact Balanced.bind (entered_enqueue opId).withLock fun _ => polls
    · exact polls
  · exact .pure _

theorem balanced_route
    (rounds : Nat)
    (request : Request) : Balanced cfg (bound < rounds) bound [] (route cfg rounds request) := by
  cases request with
  | reserveJoin userId => exact balanced_reserveRoute userId .join _
  | reserveUpdate userId => exact balanced_reserveRoute userId .update _
  | reserveQuery userId => exact balanced_reserveRoute userId .query _
  | reserveQuit userId => exact balanced_reserveRoute userId .quit _
  | execute userId protType opId =>
      unfold route execute
      dsimp only
      split
      · exact .pure _
      · refine Balanced.bind (balanced_quiet (quiet_resolveOperation _ _ opId))
          fun row => ?_
        cases row with
        | error response => exact .pure _
        | ok row => exact balanced_executeOperation _ _ row.1 row.2 rounds

theorem balanced_handle
    (rounds : Nat)
    (request : Request) : Balanced cfg (bound < rounds) bound [] (handle cfg rounds request) := by
  refine Balanced.bind (.attempt (balanced_route rounds request)) fun response => ?_
  cases response with
  | ok response => exact balanced_give rfl rfl
  | error error => exact balanced_give rfl rfl

theorem balanced_httpServe : Balanced cfg enough bound [] httpServe := by
  refine Balanced.bind (.attempt (balanced_give rfl rfl)) fun bound => ?_
  cases bound with
  | ok => exact .pure ()
  | error error =>
      dsimp only
      split
      · exact .pure ()
      · exact .raise error

theorem balanced_cmdStart : Balanced cfg enough bound [] cmdStart := by
  refine Balanced.bind (balanced_give rfl rfl) fun started => ?_
  split
  · exact .pure ()
  · exact Balanced.bind balanced_reconnectAll fun _ =>
      Balanced.bind (balanced_give rfl rfl) fun _ =>
        Balanced.bind (balanced_give rfl rfl) fun _ => balanced_give rfl rfl

theorem balanced_cmdSync : Balanced cfg enough bound [] cmdSync := by
  refine Balanced.bind (balanced_give rfl rfl) fun started => ?_
  split
  · refine Balanced.bind (balanced_give rfl rfl) fun cracked => ?_
    split
    · exact .pure ()
    · refine balanced_alone (Balanced.bind (balanced_give rfl rfl) fun queue => ?_)
      refine Balanced.bind (balanced_give rfl rfl) fun sync => ?_
      split
      · exact .pure ()
      · exact Balanced.bind (balanced_give rfl rfl) fun _ =>
          Balanced.bind (balanced_give rfl rfl) fun _ =>
            Balanced.bind (balanced_give rfl rfl) fun _ =>
              Balanced.bind (balanced_give rfl rfl) fun _ => balanced_give rfl rfl
  · exact .pure ()

theorem balanced_console : Balanced cfg enough bound [] console := by
  refine Balanced.bind (.attempt (balanced_give rfl rfl)) fun line => ?_
  cases line with
  | error error =>
      dsimp only
      split
      · exact .pure ()
      · exact .raise error
  | ok line =>
      refine Balanced.bind ?_ fun _ => balanced_give rfl rfl
      unfold handleCommand
      split
      · exact balanced_cmdStart
      · split
        · exact balanced_cmdSync
        · split
          · exact .raise _
          · exact .pure ()

theorem balanced_takeSync : Balanced cfg enough bound [.main] takeSync := by
  refine Balanced.bind (balanced_give rfl rfl) fun cracked => ?_
  split
  · exact .pure none
  refine Balanced.bind (balanced_db _ rfl) fun active => ?_
  cases active with
  | some row => exact .pure none
  | none =>
      refine balanced_nested (Balanced.bind (balanced_give rfl rfl) fun sync => ?_)
      cases sync with
      | some sync => exact .pure none
      | none =>
          refine Balanced.bind (balanced_give rfl rfl) fun queue => ?_
          cases queue with
          | nil => exact .pure none
          | cons syncId queue =>
              exact Balanced.bind (balanced_give rfl rfl) fun _ =>
                Balanced.bind (balanced_give rfl rfl) fun _ => .pure _

theorem balanced_schedulerRound : Balanced cfg enough bound [] schedulerRound := by
  refine Balanced.bind (balanced_give rfl rfl) fun cracked => ?_
  split
  · exact .pure ()
  refine Balanced.bind (balanced_give rfl rfl) fun started => ?_
  split
  · refine Balanced.bind (balanced_give rfl rfl) fun available => ?_
    split
    · refine Balanced.bind (balanced_alone balanced_takeSync) fun syncId => ?_
      cases syncId with
      | none => exact .pure ()
      | some syncId => exact balanced_give rfl rfl
    · exact .pure ()
  · exact .pure ()

theorem balanced_seedUsers
    (role : UserRole)
    (users : List String) : Balanced cfg enough bound held (seedUsers role users) := by
  induction users with
  | nil => exact .pure ()
  | cons userId rest inductionHypothesis =>
      exact Balanced.bind (balanced_db _ rfl) fun _ => inductionHypothesis

theorem balanced_launch : Balanced cfg enough bound [] (launch cfg) := by
  refine Balanced.bind (balanced_give rfl rfl) fun status => ?_
  split
  · refine Balanced.bind ?_ fun _ => balanced_give rfl rfl
    refine Balanced.bind (balanced_seedUsers _ _) fun _ => ?_
    refine Balanced.bind (balanced_seedUsers _ _) fun _ => ?_
    refine Balanced.bind (balanced_db _ rfl) fun result => ?_
    split
    · exact Balanced.bind (balanced_give rfl rfl) fun _ => .raise _
    · exact .pure ()
  · exact .pure ()

/-- The rounds of the eviction that a thread is given are more than `bound`. -/
def Task.Ample (bound : Nat) : Task -> Prop
  | .handle _ rounds => bound < rounds
  | _ => True

/-- Every thread keeps its locks in order, and with enough rounds it is nowhere
cut off. -/
theorem balanced_program (task : Task) :
    Balanced cfg (task.Ample bound) bound [] (program cfg task) := by
  cases task with
  | launch => exact balanced_launch
  | console => exact balanced_console
  | httpServe => exact balanced_httpServe
  | schedulerLoop => exact Balanced.bind balanced_schedulerRound fun _ => balanced_give rfl rfl
  | handle request rounds => exact balanced_handle rounds request
  | runExecute opId userId protType => exact balanced_runExecute opId userId protType
  | runSync syncId => exact balanced_runSync

end Programs

/-! ## Runs -/

instance : Fintype LockName := ⟨{.main, .sync}, fun lock => by cases lock <;> decide⟩

section Watching

variable {cfg : Settings} {bound : Nat} {c c' : Config interface PyError State}

theorem spawn_of_started
    {cmd : Cmd}
    {s : State}
    {done : Done interface PyError State Task cmd}
    (performed : perform tid next choice cmd s = some done)
    (started : done.started = some task) : cmd = .spawn task := by
  cases cmd with
  | spawn other =>
      cases choice with
      | go =>
          cases performed
          cases started
          rfl
      | fail error =>
          cases error <;> cases performed
          cases started
      | _ => cases performed
  | db dbCall =>
      rw [perform] at performed
      rw [(done_of_performDb performed).1] at started
      cases started
  | acquire lock =>
      cases lock with
      | main | sync =>
          rw [perform] at performed
          split at performed
          · cases performed
            cases started
          · cases performed
  | release lock => cases lock <;> cases performed <;> cases started
  | writeTaskStatus | recv | reconnect | settimeout | expired | time =>
      cases choice <;> cases performed <;> cases started
  | makeServer | mktime | send =>
      cases choice with
      | go =>
          cases performed
          cases started
      | fail error => cases error <;> cases performed <;> cases started
      | _ => cases performed
  | input =>
      cases choice with
      | line =>
          cases performed
          cases started
      | fail error =>
          cases error <;> cases performed
          cases started
      | _ => cases performed
  | _ =>
      cases performed
      cases started

/-- Every thread has a program that lasts with what it knows. -/
def Watched (bound : Nat) (c : Config interface PyError State) : Prop :=
  ∀ tid prog, c.threads.get? tid = some prog ->
    ∃ sight, Lasts bound prog (fun _ _ => True) sight ∧ Knows tid c.state sight

theorem Watched.start
    {task : Task}
    (watched : Watched bound c)
    (ample : task.Ample bound) : Watched bound (c.start (manager cfg) task) := by
  intro tid prog found
  rw [Config.start, Dict.get?_set] at found
  split at found
  · cases found
    have lasts : Endures Whatever bound (program cfg task) :=
      (balanced_program task).endures ample
    exact ⟨none, (lasts none).mono fun _ _ _ => trivial, knows_none⟩
  · exact watched tid prog found

theorem watched_boot (s : State) : Watched bound (Config.boot (manager cfg) s) :=
  Watched.start (fun _ _ found => by cases found) trivial

/-- A thread gives its next command. -/
theorem Watched.did
    (watched : Watched bound c)
    (kept : (managerLocks cfg).Kept c)
    {cmd : Cmd}
    {next : cmd.Reply -> Proc Unit}
    {failed : PyError -> Proc Unit}
    (found : c.threads.get? tid = some (.call cmd next failed))
    {done : Done interface PyError State Task cmd}
    (performed : perform tid c.next choice cmd c.state = some done)
    (room : cmd = .acquire .main -> c.state.db.queueSize ≤ bound) :
    Watched bound
      ⟨done.state, c.threads.set tid (Config.resume next failed done.reply), c.next⟩ := by
  obtain ⟨sight, ⟨risks, goes, fails⟩, knows⟩ := watched tid _ found
  intro other prog known
  rw [Dict.get?_set] at known
  split at known
  · next same =>
      subst same
      cases known
      have behind := knows.step performed room
      revert behind
      cases done.reply with
      | ok reply => exact fun behind => ⟨_, goes reply behind.1, behind.2⟩
      | error error => exact fun behind => ⟨sight, fails error, behind⟩
  · next different =>
      obtain ⟨sight', lasts, knows'⟩ := watched other prog known
      have given : (manager cfg).perform tid c.next choice cmd c.state = some done := performed
      have locked := ((kept.threads tid _ found).2.step given).2 .main other different
      exact ⟨sight', lasts, knows'.others different knows (fun risky => (risks risky).1)
        performed locked.mpr⟩

/-- Every step in which the requests that arrive are given enough rounds, and
`_lock` is not taken while too many operations are QUEUED. -/
theorem Watched.step
    (watched : Watched bound c)
    (kept : (managerLocks cfg).Kept c)
    (step : Step (manager cfg) c label c')
    (ample : ∀ task, label = .arrived task -> task.Ample bound)
    (room : ∀ event, label = .did event -> event.cmd = .acquire .main ->
      c.state.db.queueSize ≤ bound) : Watched bound c' := by
  obtain ⟨act, step⟩ := step
  cases act with
  | run tid choice =>
      rw [Config.step?] at step
      split at step
      · next cmd next failed found =>
          split at step
          · next done performed =>
              cases step
              have after := watched.did kept found performed fun takes => room _ rfl takes
              cases started : done.started with
              | none => exact after
              | some task =>
                  refine after.start ?_
                  obtain ⟨_, ⟨risks, _⟩, _⟩ := watched tid _ found
                  have given : perform tid c.next choice cmd c.state = some done := performed
                  have spawns : cmd = .spawn task := spawn_of_started given started
                  subst spawns
                  cases task with
                  | handle =>
                      obtain ⟨_, _, isDb⟩ := risks rfl
                      cases isDb
                  | _ => trivial
          · cases step
      · cases step
  | arrive task =>
      rw [Config.step?] at step
      split at step
      · cases step
        exact watched.start (ample task rfl)
      · cases step
  | restart =>
      cases step
      exact watched_boot _

end Watching

/-- At most `bound` operations are QUEUED, and a request that arrives is given more
rounds. -/
def Roomy (bound : Nat) (moment : Instant) : Prop :=
  moment.before.db.queueSize ≤ bound ∧
    match moment.label with
    | .arrived task => task.Ample bound
    | _ => True

instance : DecidablePred (Task.Ample bound)
  | .handle _ rounds => inferInstanceAs (Decidable (bound < rounds))
  | .launch | .console | .httpServe | .schedulerLoop | .runExecute _ _ _ | .runSync _ =>
      isTrue trivial

instance : DecidablePred (Roomy bound)
  | ⟨before, .arrived task, _⟩ =>
      inferInstanceAs (Decidable (before.db.queueSize ≤ bound ∧ task.Ample bound))
  | ⟨before, .did _, _⟩ | ⟨before, .restarted, _⟩ =>
      inferInstanceAs (Decidable (before.db.queueSize ≤ bound ∧ True))

theorem kept_of_run
    {trace : List Instant}
    {c : Config interface PyError State}
    (run : Run (manager cfg) (initial cfg) trace c) : (managerLocks cfg).Kept c := by
  have kept : (managerLocks cfg).Kept (initial cfg) :=
    .boot (fun lock => by cases lock <;> rfl) (balanced_program .launch : Balanced _ _ 0 _ _).1
  exact kept.run (fun task => (balanced_program task : Balanced _ _ 0 _ _).1) run

theorem watched_of_run
    {trace : List Instant}
    {c : Config interface PyError State}
    (run : Run (manager cfg) (initial cfg) trace c)
    (roomy : ∀ moment ∈ trace, Roomy bound moment) : Watched bound c := by
  induction run with
  | start => exact watched_boot _
  | step run step inductionHypothesis =>
      have last := roomy _ (List.mem_append_right _ (List.mem_singleton_self _))
      refine (inductionHypothesis fun moment member =>
        roomy moment (List.mem_append_left _ member)).step (kept_of_run run) step ?_ ?_
      · rintro task rfl
        exact last.2
      · exact fun _ _ _ => last.1

/-- The steps of threads that hold a lock do not take `_lock`. -/
theorem Watched.led
    {cfg : Settings}
    {c c' : Config interface PyError State}
    (watched : Watched bound c)
    (kept : (managerLocks cfg).Kept c)
    (leads : (managerLocks cfg).Leads c c') : Watched bound c' := by
  have disciplined : ∀ task, (managerLocks cfg).Disciplined (program cfg task) [] [] [] :=
    fun task => (balanced_program task : Balanced _ _ 0 _ _).1
  obtain ⟨trace, run, holders⟩ := leads
  induction run with
  | start => exact watched
  | step run step inductionHypothesis =>
      obtain ⟨event, lock, did, owns⟩ :=
        holders _ (List.mem_append_right _ (List.mem_singleton_self _))
      have kept' := kept.run disciplined run
      refine (inductionHypothesis fun moment member =>
        holders moment (List.mem_append_left _ member)).step kept' step ?_ ?_
      · intro task arrived
        cases did.symm.trans arrived
      · intro event' same takes
        cases did.symm.trans same
        dsimp only at did
        rw [did] at step
        have taken : (managerLocks cfg).grip event.cmd = .take .main := by
          rw [takes]
          rfl
        exact absurd (kept'.above step taken owns) (Nat.not_lt_zero _)

/-- However the threads of the Manager have been interleaved, and whatever has
failed, a thread that has ended holds neither lock.  Where every request is given
more rounds for the eviction of stale heads than operations are QUEUED at any
time, no thread is cut off, and those that hold a lock can go on, without any
other, until both are free. -/
theorem no_deadlock
    {trace : List Instant}
    {c : Config interface PyError State}
    (cfg : Settings)
    (run : Run (manager cfg) (initial cfg) trace c) :
    (∀ tid prog lock, c.threads.get? tid = some prog ->
      (∃ out, prog = .ret out) ∨ (∃ error, prog = .raise error) ->
        c.state.owner lock ≠ some tid) ∧
      ((∃ bound, ∀ moment ∈ trace, Roomy bound moment) ->
        (∀ tid, c.threads.get? tid ≠ some .unfinished) ∧
          ∃ trace' c', Run (manager cfg) c trace' c' ∧
            (∀ moment ∈ trace', ∃ event lock, moment.label = .did event ∧
              moment.before.owner lock = some event.tid) ∧
            ∀ lock, c'.state.owner lock = none) := by
  have kept := kept_of_run run
  refine ⟨fun tid prog lock found ended => kept.ended found ended lock, ?_⟩
  rintro ⟨bound, roomy⟩
  have watched : Watched bound c := watched_of_run run roomy
  obtain ⟨c', leads, result⟩ := kept.released fun task =>
    (balanced_program task : Balanced _ _ 0 _ _).1
  have free : ∀ lock, c'.state.owner lock = none := by
    refine result.resolve_left ?_
    rintro ⟨_, tid, _, cut⟩
    obtain ⟨_, never, _⟩ := watched.led kept leads tid _ cut
    exact never
  obtain ⟨trace', run', holders⟩ := leads
  refine ⟨fun tid cut => ?_, trace', c', run', holders, free⟩
  obtain ⟨_, never, _⟩ := watched tid _ cut
  exact never

/-- The second of two requests has removed the stale operation of the first. -/
def sampleEvicting : List Instant × Config interface PyError State :=
  (drive (manager sampleSettings) (initial sampleSettings)
    (sampleStart ++ sampleReserve 5 "a" ++ sampleReserve 6 "b" ++ sampleEnqueue 7 "b" ++
      sampleEnqueue 8 "a" ++ turns 8 [.go, .go, .go, .clock 0, .clock 0, .go, .go, .go, .go,
        .go, .clock 0, .clock 100, .clock 100, .go, .clock 100])).get (by decide +kernel)

theorem no_deadlock_evicting :
    sampleEvicting.2.state.lock = some 8 ∧
      sampleEvicting.2.state.db.statusOf 2 = some .removed ∧
      (∀ tid, sampleEvicting.2.threads.get? tid ≠ some .unfinished) ∧
      ∃ trace' c', Run (manager sampleSettings) sampleEvicting.2 trace' c' ∧
        (∀ moment ∈ trace', ∃ event lock, moment.label = .did event ∧
          moment.before.owner lock = some event.tid) ∧
        ∀ lock, c'.state.owner lock = none :=
  have roomy : ∀ moment ∈ sampleEvicting.1, Roomy 2 moment := by decide +kernel
  ⟨by decide +kernel, by decide +kernel,
    (no_deadlock sampleSettings (.driven _)).2 ⟨2, roomy⟩⟩

end Manager
end Mpmt
