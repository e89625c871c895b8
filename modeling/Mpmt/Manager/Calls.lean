import Mpmt.Library.Locking
import Mpmt.Manager.Server

/-!
# What the Manager's threads call

The conversations with the Agents change neither the database nor what the
threads share, apart from the counter of the requests.  `update_operation` is
called for three statuses only.
-/

namespace Mpmt
namespace Manager

open Effects Threads Contract

/-- A database method that only reads. -/
def DbCall.Reads : DbCall -> Prop
  | .getUser _ | .getOperation _ | .getLiveOperation _ _ | .getAgentToken _ _
  | .firstQueued | .getActive | .queuePositionOf _ => True
  | _ => False

/-- A command of a conversation: it reads, counts requests or talks to an Agent,
but starts no protocol there. -/
def Cmd.Quiet : Cmd -> Prop
  | .reqCounter | .setReqCounter _ | .taskCracked | .agentsAvailable | .started
  | .syncCounter | .syncQueue | .activeSync | .readTaskStatus | .recv _
  | .reconnect _ | .settimeout _ | .expired | .time | .mktime _ | .input => True
  | .send _ (.reserve _ _ _) => True
  | .db call => call.Reads
  | _ => False

/-- A token for each Agent. -/
def Complete (tokens : List (Role × String)) : Prop :=
  (∀ role, role ∈ tokens.map Prod.fst) ∧ ∀ entry ∈ tokens, entry.2 ≠ ""

/-- The statuses for which `update_operation` is called, and the tokens with which
a JOIN is completed. -/
def Cmd.Proper : Cmd -> Prop
  | .db (.updateOperation _ status _) =>
      status = .busy ∨ status = .removed ∨ status = .done
  | .db (.completeJoin _ _ tokens) => Complete tokens
  | _ => True

theorem Cmd.Quiet.proper
    {cmd : Cmd}
    (quiet : cmd.Quiet) : cmd.Proper := by
  cases cmd with
  | db call =>
      cases call with
      | updateOperation | completeJoin => cases quiet
      | _ => trivial
  | _ => trivial

/-- A database method takes effect, or it raises and changes nothing. -/
theorem done_of_performDb
    {dbCall : DbCall}
    {s : State}
    {done : Done interface PyError State Task (.db dbCall)}
    (performed : performDb choice dbCall s = some done) :
    done.started = none ∧
      ((∃ error, done.reply = .error error ∧ done.state = s) ∨
        ∃ now reply db, dbCall.apply now s.db = .ok (reply, db) ∧
          done.reply = .ok reply ∧ done.state = { s with db := db }) := by
  unfold performDb at performed
  split at performed
  · split at performed
    · next reply db applied =>
        cases performed
        exact ⟨rfl, .inr ⟨_, reply, db, applied, rfl, rfl⟩⟩
    · cases performed
      exact ⟨rfl, .inl ⟨_, rfl, rfl⟩⟩
  · cases performed
    exact ⟨rfl, .inl ⟨_, rfl, rfl⟩⟩
  · cases performed

/-! ## Conversations -/

/-- A program of quiet commands that is nowhere cut off. -/
structure Quiet (prog : Proc Out) : Prop where
  only : Only Cmd.Quiet prog
  whole : Whole prog

namespace Quiet

theorem bind
    {prog : Proc Out}
    {next : Out -> Proc Out'}
    (first : Quiet prog)
    (rest : ∀ out, Quiet (next out)) : Quiet (prog >>= next) :=
  ⟨first.only.bind fun out => (rest out).only, first.whole.bind fun out => (rest out).whole⟩

theorem pure (out : Out) : Quiet (Pure.pure out : Proc Out) := ⟨trivial, trivial⟩

theorem raise (error : PyError) : Quiet (Effects.raise error : Proc Out) := ⟨trivial, trivial⟩

theorem call
    {cmd : Cmd}
    (quiet : cmd.Quiet) : Quiet (give cmd) :=
  ⟨Only.call quiet, fun _ => trivial, fun _ => trivial⟩

theorem attempt
    {prog : Proc Out}
    (first : Quiet prog) : Quiet (Effects.attempt prog) :=
  ⟨first.only.attempt, first.whole.attempt⟩

theorem ignore
    {prog : Proc Out}
    (first : Quiet prog) : Quiet (Effects.ignore prog) :=
  first.attempt.bind fun _ => pure _

end Quiet

theorem quiet_nextRequestId : Quiet nextRequestId :=
  Quiet.bind (Quiet.call trivial) fun _ => Quiet.bind (Quiet.call trivial) fun _ =>
    Quiet.bind (Quiet.call trivial) fun _ => Quiet.pure _

theorem quiet_reconnectEach
    (roles : List Role)
    (ok : Bool) : Quiet (reconnectEach roles ok) := by
  induction roles generalizing ok with
  | nil => exact Quiet.pure ok
  | cons role rest inductionHypothesis =>
      refine Quiet.bind (Quiet.attempt (Quiet.call trivial)) fun reached => ?_
      cases reached with
      | ok => exact inductionHypothesis ok
      | error => exact inductionHypothesis false

theorem only_sendEach
    {allowed : Cmd -> Prop}
    {message : Role -> Message}
    (may : ∀ role, allowed (.send role (message role)))
    (roles : List Role) : Only (I := interface) allowed (sendEach message roles) := by
  induction roles with
  | nil => exact Only.pure ()
  | cons role rest inductionHypothesis =>
      exact Only.bind (Only.call (may role)) fun _ => inductionHypothesis

theorem quiet_awaitEvent
    (role : Role)
    (reqId : String)
    (skip : Nat) : Quiet (awaitEvent role reqId skip) := by
  induction skip with
  | zero => exact Quiet.pure none
  | succ skip inductionHypothesis =>
      refine Quiet.bind (Quiet.attempt (Quiet.call trivial)) fun heard => ?_
      cases heard with
      | ok event =>
          dsimp only
          split
          · exact Quiet.pure _
          · exact inductionHypothesis
      | error error =>
          dsimp only
          split
          · exact Quiet.bind (Quiet.ignore (Quiet.call trivial)) fun _ => Quiet.pure _
          · exact Quiet.raise _

theorem quiet_drain (role : Role) : Quiet (drain role) := by
  refine Quiet.bind (Quiet.attempt (Quiet.call trivial)) fun heard => ?_
  cases heard with
  | ok => exact Quiet.pure ()
  | error error =>
      dsimp only
      split
      · exact Quiet.pure ()
      · exact Quiet.raise error

theorem quiet_collectPorts
    (reqId : String)
    (roles : List Role)
    (failed : Bool)
    (ports : List (Role × Nat)) :
    Quiet (collectPorts reqId roles failed ports) := by
  induction roles generalizing failed ports with
  | nil => exact Quiet.pure _
  | cons role rest inductionHypothesis =>
      refine (quiet_awaitEvent role reqId maxSkip).bind fun ack => ?_
      cases ack with
      | none => exact (quiet_drain role).bind fun _ => inductionHypothesis true ports
      | some ack =>
          dsimp only
          split
          · exact (quiet_drain role).bind fun _ => inductionHypothesis true ports
          · split
            · exact inductionHypothesis true ports
            · refine Quiet.bind (Quiet.attempt (Quiet.call trivial)) fun heard => ?_
              cases heard with
              | error error =>
                  dsimp only
                  split
                  · exact Quiet.bind (Quiet.ignore (Quiet.call trivial)) fun _ =>
                      inductionHypothesis true ports
                  · exact Quiet.raise error
              | ok resp =>
                  dsimp only
                  split
                  · exact inductionHypothesis true ports
                  · split
                    · exact Quiet.raise _
                    · exact inductionHypothesis failed _

theorem quiet_resetTimeouts (roles : List Role) : Quiet (resetTimeouts roles) := by
  induction roles with
  | nil => exact Quiet.pure ()
  | cons role rest inductionHypothesis =>
      exact Quiet.bind (Quiet.ignore (Quiet.call trivial)) fun _ => inductionHypothesis

theorem quiet_collectReady
    (reqId : String)
    (roles : List Role) : Quiet (collectReady reqId roles) := by
  induction roles with
  | nil => exact Quiet.pure true
  | cons role rest inductionHypothesis =>
      refine Quiet.bind (Quiet.call trivial) fun expired => ?_
      split
      · exact Quiet.pure false
      · refine Quiet.bind (Quiet.call trivial) fun _ => ?_
        refine (quiet_awaitEvent role reqId maxSkip).bind fun ack => ?_
        cases ack with
        | none => exact Quiet.pure false
        | some ack =>
            dsimp only
            split
            · exact Quiet.pure false
            · exact inductionHypothesis

theorem quiet_collectDone
    (reqId : String)
    (roles : List Role)
    (tokens : List (Role × String)) : Quiet (collectDone reqId roles tokens) := by
  induction roles generalizing tokens with
  | nil => exact Quiet.pure _
  | cons role rest inductionHypothesis =>
      refine Quiet.bind (Quiet.call trivial) fun expired => ?_
      split
      · exact Quiet.pure none
      · refine Quiet.bind (Quiet.call trivial) fun _ => ?_
        refine (quiet_awaitEvent role reqId maxSkip).bind fun event => ?_
        cases event with
        | none => exact Quiet.pure none
        | some event =>
            dsimp only
            split
            · exact Quiet.pure none
            · exact inductionHypothesis _

theorem quiet_readTokens
    (userId : String)
    (roles : List Role)
    (tokens : List (Role × String)) : Quiet (readTokens userId roles tokens) := by
  induction roles generalizing tokens with
  | nil => exact Quiet.pure _
  | cons role rest inductionHypothesis =>
      refine Quiet.bind (Quiet.call trivial) fun token => ?_
      cases token with
      | none => exact Quiet.pure _
      | some token =>
          dsimp only
          split
          · exact Quiet.pure _
          · exact inductionHypothesis _

theorem quiet_preflight
    (userId : String)
    (protType : ProtType) : Quiet (preflight userId protType) := by
  cases protType with
  | join => exact Quiet.pure _
  | update => exact quiet_readTokens userId roles []
  | query => exact Quiet.pure _
  | quit => exact quiet_readTokens userId roles []

theorem quiet_checkBizPrecondition
    (userId protType : String) : Quiet (checkBizPrecondition userId protType) := by
  refine Quiet.bind (Quiet.call trivial) fun user => ?_
  cases user with
  | none => exact Quiet.pure _
  | some user =>
      dsimp only
      split
      · exact Quiet.pure _
      · split
        · exact Quiet.pure _
        · exact Quiet.pure _

theorem quiet_getOperation (opId : Nat) : Quiet (getOperation opId) := by
  refine Quiet.bind (Quiet.call trivial) fun row => ?_
  cases row with
  | none => exact Quiet.raise _
  | some row => exact Quiet.pure _

theorem quiet_waitingResponse (opId : Nat) : Quiet (waitingResponse opId) :=
  Quiet.bind (Quiet.call trivial) fun _ => Quiet.bind (Quiet.call trivial) fun _ => Quiet.pure _

theorem quiet_resolveOperation
    (userId protType : String)
    (opId : Option Nat) : Quiet (resolveOperation userId protType opId) := by
  cases opId with
  | none =>
      refine Quiet.bind (Quiet.call trivial) fun row => ?_
      cases row with
      | none => exact Quiet.pure _
      | some row => exact Quiet.pure _
  | some opId =>
      refine Quiet.bind (Quiet.call trivial) fun row => ?_
      cases row with
      | none => exact Quiet.pure _
      | some row =>
          dsimp only
          split
          · exact Quiet.pure _
          · exact Quiet.pure _

/-! ## Everything else -/

theorem Only.proper
    {prog : Proc Out}
    (quiet : Only Cmd.Quiet prog) : Only Cmd.Proper prog :=
  quiet.mono fun _ => Cmd.Quiet.proper

theorem proper_withLock
    {lock : LockName}
    {body : Proc Out}
    (proper : Only Cmd.Proper body) : Only Cmd.Proper (withLock lock body) :=
  Only.bind (Only.call trivial) fun _ => Only.tryFinally proper (Only.call trivial)

theorem proper_reconnectAll : Only Cmd.Proper reconnectAll :=
  Only.bind (Only.proper (quiet_reconnectEach roles true).only) fun _ =>
    Only.bind (Only.call trivial) fun _ => Only.pure _

theorem proper_reservePorts
    (userId : String)
    (protType : ProtType) : Only Cmd.Proper (reservePorts userId protType) := by
  refine Only.bind (Only.proper (quiet_resetTimeouts roles).only) fun _ => ?_
  refine Only.bind (Only.proper quiet_nextRequestId.only) fun reqId => ?_
  refine Only.bind (Only.attempt (only_sendEach (fun _ => trivial) roles)) fun sent => ?_
  cases sent with
  | error error =>
      dsimp only
      split
      · exact Only.bind proper_reconnectAll fun _ => Only.pure _
      · exact Only.raise error
  | ok =>
      refine Only.bind (Only.proper (quiet_collectPorts reqId roles false []).only) fun ports => ?_
      cases ports with
      | none => exact Only.bind proper_reconnectAll fun _ => Only.pure _
      | some ports => exact Only.pure _

theorem proper_crackTask
    (opId : Option Nat)
    (errorCode : String) : Only Cmd.Proper (crackTask opId errorCode) := by
  refine Only.bind (proper_withLock (Only.call trivial)) fun _ => ?_
  have rest : Only Cmd.Proper (do
      ignore (give (.writeTaskStatus .cracked))
      ignore (db (.failAllLiveOperations "TASK_CRACKED"))) :=
    Only.bind (Only.ignore (Only.call trivial)) fun _ => Only.ignore (Only.call trivial)
  cases opId with
  | none => exact rest
  | some opId => exact Only.bind (Only.ignore (Only.call trivial)) fun _ => rest

theorem proper_commit
    {dbCall : DbCall}
    (opId : Nat)
    (proper : Cmd.Proper (.db dbCall)) :
    Only Cmd.Proper (do
      let committed ← attempt (db dbCall)
      match committed with
      | .ok _ => pure ()
      | .error _ => crackTask (some opId) "DB_COMMIT_FAILED" : Proc Unit) := by
  refine Only.bind (Only.attempt (Only.call proper)) fun committed => ?_
  cases committed with
  | ok => exact Only.pure ()
  | error => exact proper_crackTask _ _

/-- Texts that are empty are not collected. -/
theorem returns_collectDone
    (reqId : String)
    (roles : List Role)
    {tokens : List (Role × String)}
    (full : ∀ entry ∈ tokens, entry.2 ≠ "") :
    Returns
      (fun collected => ∀ tokens', collected = some tokens' -> ∀ entry ∈ tokens', entry.2 ≠ "")
      (collectDone reqId roles tokens) := by
  induction roles generalizing tokens with
  | nil =>
      intro tokens' same
      cases same
      exact full
  | cons role rest inductionHypothesis =>
      refine Returns.bind (fun expired => ?_) _
      split
      · exact fun _ same => by cases same
      refine Returns.bind (fun _ => Returns.bind (fun event => ?_) _) _
      cases event with
      | none => exact fun _ same => by cases same
      | some event =>
          dsimp only
          split
          · exact fun _ same => by cases same
          · refine inductionHypothesis ?_
            split
            · exact full
            · next given =>
                intro entry member
                rcases List.mem_append.mp member with old | new
                · exact full entry old
                · rw [List.mem_singleton.mp new]
                  exact given

theorem proper_complete
    (opId : Nat)
    (userId : String)
    {tokens : List (Role × String)}
    (full : ∀ entry ∈ tokens, entry.2 ≠ "")
    (protType : ProtType) : Only Cmd.Proper (complete opId userId tokens protType) := by
  have done : Cmd.Proper (.db (.updateOperation opId .done
      { Db.Columns.none with queuePos := some none })) := .inr (.inr rfl)
  cases protType with
  | join =>
      rw [complete]
      split
      · next all => exact proper_commit opId ⟨fun role => all role (mem_roles role), full⟩
      · exact proper_crackTask _ _
  | quit => exact proper_commit opId trivial
  | update => exact proper_commit opId done
  | query => exact proper_commit opId done

theorem proper_dispatch
    (opId : Nat)
    (userId : String)
    (protType : ProtType)
    (reqId : String)
    (tokens : List (Role × String)) :
    Only Cmd.Proper (dispatch opId userId protType reqId tokens) := by
  refine Only.bind (Only.attempt (only_sendEach (fun _ => trivial) roles)) fun sent => ?_
  cases sent with
  | error error =>
      dsimp only
      split
      · exact proper_crackTask _ _
      · exact Only.raise error
  | ok =>
      refine Only.bind (Only.proper (quiet_collectReady reqId roles).only) fun ready => ?_
      split
      · refine Only.bind_returns (Only.proper (quiet_collectDone reqId roles []).only)
          (returns_collectDone reqId roles fun _ member => absurd member List.not_mem_nil)
          fun collected full => ?_
        cases collected with
        | none => exact proper_crackTask _ _
        | some collected => exact proper_complete _ _ (full collected rfl) _
      · exact proper_crackTask _ _

theorem proper_runExecute
    (opId : Nat)
    (userId : String)
    (protType : ProtType) : Only Cmd.Proper (runExecute opId userId protType) := by
  refine Only.bind (Only.proper quiet_nextRequestId.only) fun reqId => ?_
  refine Only.bind (Only.proper (quiet_preflight userId protType).only) fun tokens => ?_
  cases tokens with
  | error role => exact Only.call trivial
  | ok tokens => exact proper_dispatch _ _ _ _ _

theorem proper_runSync : Only Cmd.Proper runSync := by
  refine Only.bind (Only.proper quiet_nextRequestId.only) fun reqId => ?_
  refine Only.tryFinally ?_ (proper_withLock (Only.call trivial))
  refine Only.bind (proper_withLock (Only.bind (Only.call trivial) fun sync => ?_)) fun _ => ?_
  · cases sync with
    | none => exact Only.pure ()
    | some sync => exact Only.call trivial
  refine Only.bind (Only.attempt (only_sendEach (fun _ => trivial) roles)) fun sent => ?_
  cases sent with
  | error error =>
      dsimp only
      split
      · exact proper_crackTask _ _
      · exact Only.raise error
  | ok =>
      refine Only.bind (Only.proper (quiet_collectReady reqId roles).only) fun ready => ?_
      split
      · refine Only.bind (Only.proper (quiet_collectDone reqId roles []).only) fun collected => ?_
        cases collected with
        | none => exact proper_crackTask _ _
        | some collected => exact Only.pure ()
      · exact proper_crackTask _ _

theorem proper_evictStaleQueueHeads
    (cfg : Settings)
    (now : Time)
    (rounds : Nat) : Only Cmd.Proper (evictStaleQueueHeads cfg now rounds) := by
  induction rounds with
  | zero => trivial
  | succ rounds inductionHypothesis =>
      refine Only.bind (Only.call trivial) fun first => ?_
      cases first with
      | none => exact Only.pure ()
      | some row =>
          refine Only.bind (Only.attempt (Only.call trivial)) fun updated => ?_
          cases updated with
          | error => exact Only.pure ()
          | ok updated =>
              dsimp only
              split
              · exact Only.bind (Only.call (.inr (.inl rfl))) fun _ =>
                  Only.bind (Only.call trivial) fun _ => inductionHypothesis
              · exact Only.pure ()

theorem proper_syncHasPriority : Only Cmd.Proper syncHasPriority := by
  refine proper_withLock (Only.bind (Only.call trivial) fun queue => ?_)
  split
  · exact Only.pure true
  · exact Only.bind (Only.call trivial) fun _ => Only.pure _

theorem proper_tryActivate
    (cfg : Settings)
    (opId rounds : Nat) : Only Cmd.Proper (tryActivate cfg opId rounds) := by
  refine Only.bind (Only.call trivial) fun cracked => ?_
  split
  · exact Only.pure false
  refine Only.bind proper_syncHasPriority fun waits => ?_
  split
  · exact Only.pure false
  refine Only.bind (Only.call trivial) fun active => ?_
  cases active with
  | some row => exact Only.pure false
  | none =>
      refine Only.bind (Only.call trivial) fun now => ?_
      refine Only.bind (proper_evictStaleQueueHeads cfg now rounds) fun _ => ?_
      refine Only.bind (Only.call trivial) fun first => ?_
      cases first with
      | none => exact Only.pure false
      | some row =>
          dsimp only
          split
          · exact Only.pure false
          · exact Only.bind (Only.call trivial) fun _ => Only.pure true

/-! ## The threads -/

theorem proper_reserveRoute
    (userId : Option String)
    (protType : ProtType)
    (allowedUsers : List String) :
    Only Cmd.Proper (reserveRoute userId protType allowedUsers) := by
  refine Only.bind (Only.call trivial) fun cracked => ?_
  split
  · exact Only.pure _
  refine Only.bind (Only.call trivial) fun available => ?_
  split
  · unfold reserveImpl
    dsimp only
    split
    · exact Only.pure _
    · split
      · exact Only.pure _
      · refine proper_withLock (Only.bind (Only.call trivial) fun row => ?_)
        cases row with
        | none => exact Only.bind (Only.call trivial) fun _ => Only.pure _
        | some row => exact Only.pure _
  · exact Only.pure _

theorem proper_startExecute
    (cfg : Settings)
    (opId : Nat)
    (op : Operation) : Only Cmd.Proper (startExecute cfg opId op) := by
  unfold startExecute
  split
  · exact Only.bind (Only.call (.inl rfl)) fun _ =>
      Only.bind (Only.call trivial) fun _ => Only.pure _
  · refine Only.bind (proper_reservePorts op.userId op.protType) fun ports => ?_
    cases ports with
    | none => exact Only.bind (Only.call trivial) fun _ => Only.pure _
    | some ports =>
        exact Only.bind (Only.call (.inl rfl)) fun _ =>
          Only.bind (Only.call trivial) fun _ => Only.pure _

theorem proper_poll
    (cfg : Settings)
    (opId rounds : Nat) : Only Cmd.Proper (poll cfg opId rounds) := by
  refine Only.bind (Only.call trivial) fun cracked => ?_
  split
  · exact Only.pure _
  refine Only.bind (Only.call trivial) fun available => ?_
  split
  · refine Only.bind (Only.proper (quiet_getOperation opId).only) fun op => ?_
    split
    · refine Only.bind (Only.call trivial) fun _ => ?_
      refine Only.bind (proper_tryActivate cfg opId rounds) fun activated => ?_
      split
      · refine Only.bind (Only.proper (quiet_getOperation opId).only) fun op => ?_
        split
        · exact proper_startExecute cfg opId op
        · exact Only.proper (quiet_waitingResponse opId).only
      · exact Only.proper (quiet_waitingResponse opId).only
    · exact proper_startExecute cfg opId op
    · exact Only.pure _
    · exact Only.pure _
  · exact Only.pure _

theorem proper_enqueue (opId : Nat) : Only Cmd.Proper (enqueue opId) := by
  refine Only.bind (Only.proper (quiet_getOperation opId).only) fun op => ?_
  dsimp only
  split
  · exact Only.bind (Only.call trivial) fun _ =>
      Only.bind (Only.proper (quiet_getOperation opId).only) fun _ => Only.pure _
  · exact Only.bind (Only.proper (quiet_getOperation opId).only) fun _ => Only.pure _

theorem proper_executeOperation
    (cfg : Settings)
    (userId protType : String)
    (opId : Nat)
    (op : Operation)
    (rounds : Nat) :
    Only Cmd.Proper (executeOperation cfg userId protType opId op rounds) := by
  unfold executeOperation
  split
  · exact Only.pure _
  refine Only.bind (Only.call trivial) fun cracked => ?_
  split
  · exact Only.pure _
  refine Only.bind (Only.call trivial) fun available => ?_
  split
  · split
    · refine Only.bind (Only.proper (quiet_checkBizPrecondition userId protType).only)
        fun reason => ?_
      cases reason with
      | some reason => exact Only.pure _
      | none => exact Only.bind (proper_withLock (proper_enqueue opId)) fun _ =>
          proper_withLock (proper_poll cfg opId rounds)
    · exact proper_withLock (proper_poll cfg opId rounds)
  · exact Only.pure _

theorem proper_handle
    (cfg : Settings)
    (rounds : Nat)
    (request : Request) : Only Cmd.Proper (handle cfg rounds request) := by
  refine Only.bind (Only.attempt ?_) fun response => ?_
  · cases request with
    | reserveJoin userId => exact proper_reserveRoute userId .join _
    | reserveUpdate userId => exact proper_reserveRoute userId .update _
    | reserveQuery userId => exact proper_reserveRoute userId .query _
    | reserveQuit userId => exact proper_reserveRoute userId .quit _
    | execute userId protType opId =>
        unfold route execute
        dsimp only
        split
        · exact Only.pure _
        · refine Only.bind (Only.proper (quiet_resolveOperation _ _ opId).only) fun row => ?_
          cases row with
          | error response => exact Only.pure _
          | ok row => exact proper_executeOperation cfg _ _ row.1 row.2 rounds
  · cases response with
    | ok response => exact Only.call trivial
    | error error => exact Only.call trivial

theorem proper_httpServe : Only Cmd.Proper httpServe := by
  refine Only.bind (Only.attempt (Only.call trivial)) fun bound => ?_
  cases bound with
  | ok => exact Only.pure ()
  | error error =>
      dsimp only
      split
      · exact Only.pure ()
      · exact Only.raise error

theorem proper_cmdStart : Only Cmd.Proper cmdStart := by
  refine Only.bind (Only.call trivial) fun started => ?_
  split
  · exact Only.pure ()
  · exact Only.bind proper_reconnectAll fun _ => Only.bind (Only.call trivial) fun _ =>
      Only.bind (Only.call trivial) fun _ => Only.call trivial

theorem proper_cmdSync : Only Cmd.Proper cmdSync := by
  refine Only.bind (Only.call trivial) fun started => ?_
  split
  · refine Only.bind (Only.call trivial) fun cracked => ?_
    split
    · exact Only.pure ()
    · refine proper_withLock (Only.bind (Only.call trivial) fun queue => ?_)
      refine Only.bind (Only.call trivial) fun sync => ?_
      split
      · exact Only.pure ()
      · exact Only.bind (Only.call trivial) fun _ => Only.bind (Only.call trivial) fun _ =>
          Only.bind (Only.call trivial) fun _ => Only.bind (Only.call trivial) fun _ =>
            Only.call trivial
  · exact Only.pure ()

theorem proper_console : Only Cmd.Proper console := by
  refine Only.bind (Only.attempt (Only.call trivial)) fun line => ?_
  cases line with
  | error error =>
      dsimp only
      split
      · exact Only.pure ()
      · exact Only.raise error
  | ok line =>
      refine Only.bind ?_ fun _ => Only.call trivial
      unfold handleCommand
      split
      · exact proper_cmdStart
      · split
        · exact proper_cmdSync
        · split
          · exact Only.raise _
          · exact Only.pure ()

theorem proper_takeSync : Only Cmd.Proper takeSync := by
  refine Only.bind (Only.call trivial) fun cracked => ?_
  split
  · exact Only.pure none
  refine Only.bind (Only.call trivial) fun active => ?_
  cases active with
  | some row => exact Only.pure none
  | none =>
      refine proper_withLock (Only.bind (Only.call trivial) fun sync => ?_)
      cases sync with
      | some sync => exact Only.pure none
      | none =>
          refine Only.bind (Only.call trivial) fun queue => ?_
          cases queue with
          | nil => exact Only.pure none
          | cons syncId queue =>
              exact Only.bind (Only.call trivial) fun _ =>
                Only.bind (Only.call trivial) fun _ => Only.pure _

theorem proper_schedulerRound : Only Cmd.Proper schedulerRound := by
  refine Only.bind (Only.call trivial) fun cracked => ?_
  split
  · exact Only.pure ()
  refine Only.bind (Only.call trivial) fun started => ?_
  split
  · refine Only.bind (Only.call trivial) fun available => ?_
    split
    · refine Only.bind (proper_withLock proper_takeSync) fun syncId => ?_
      cases syncId with
      | none => exact Only.pure ()
      | some syncId => exact Only.call trivial
    · exact Only.pure ()
  · exact Only.pure ()

theorem proper_seedUsers
    (role : UserRole)
    (users : List String) : Only Cmd.Proper (seedUsers role users) := by
  induction users with
  | nil => exact Only.pure ()
  | cons userId rest inductionHypothesis =>
      exact Only.bind (Only.call trivial) fun _ => inductionHypothesis

theorem proper_launch (cfg : Settings) : Only Cmd.Proper (launch cfg) := by
  refine Only.bind (Only.call trivial) fun status => ?_
  split
  · refine Only.bind ?_ fun _ => Only.call trivial
    refine Only.bind (proper_seedUsers _ _) fun _ => ?_
    refine Only.bind (proper_seedUsers _ _) fun _ => ?_
    refine Only.bind (Only.call trivial) fun result => ?_
    split
    · exact Only.bind (Only.call trivial) fun _ => Only.raise _
    · exact Only.pure ()
  · exact Only.pure ()

/-- No thread calls `update_operation` for another status. -/
theorem proper_program
    (cfg : Settings)
    (task : Task) : Only Cmd.Proper (program cfg task) := by
  cases task with
  | launch => exact proper_launch cfg
  | console => exact proper_console
  | httpServe => exact proper_httpServe
  | schedulerLoop => exact Only.bind proper_schedulerRound fun _ => Only.call trivial
  | handle request rounds => exact proper_handle cfg rounds request
  | runExecute opId userId protType => exact proper_runExecute opId userId protType
  | runSync syncId => exact proper_runSync

end Manager
end Mpmt
