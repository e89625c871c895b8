import Mpmt.Manager.State

/-!
# The Manager's threads

The HTTP handlers, the scheduler, the protocol threads, the control panel and
the start of the process, each as a program.  `Settings` holds what the
configuration and the preparation of the task fix.
-/

namespace Mpmt
namespace Manager

open Effects Threads

/-- The users of the task, the lease of a place in the queue and the addresses
of the Agents. -/
structure Settings where
  setHolderUsers : List String
  querierUsers : List String
  queueLeaseTimeout : Int
  agentIps : Role -> String

/-- A piece of a thread. -/
abbrev Proc (Out : Type) := Prog interface Empty PyError Out

/-- Call a database method. -/
def db (dbCall : DbCall) : Proc dbCall.Reply := call (I := interface) (.db dbCall)

/-- Give a command. -/
def give (cmd : Cmd) : Proc cmd.Reply := call (I := interface) cmd

/-- `with self._lock:` -/
def withLock (lock : LockName) (body : Proc Out) : Proc Out := do
  give (.acquire lock)
  tryFinally body (give (.release lock))

/-- `_MAX_SKIP` -/
def maxSkip : Nat := 32

/-! ## Talking to the Agents -/

/-- `_next_request_id` -/
def nextRequestId : Proc String := do
  let counter ← give .reqCounter
  give (.setReqCounter (counter + 1))
  let counter ← give .reqCounter
  pure s!"r{counter}"

/-- Reconnect the Agents of a list; the answer is whether all of them and those
before them could be reached. -/
def reconnectEach : List Role -> Bool -> Proc Bool
  | [], ok => pure ok
  | role :: rest, ok => do
      let reached ← attempt (give (.reconnect role))
      match reached with
      | .ok _ => reconnectEach rest ok
      | .error _ => reconnectEach rest false

/-- `_reconnect_all` -/
def reconnectAll : Proc Bool := do
  let ok ← reconnectEach roles true
  give (.setAgentsAvailable ok)
  pure ok

/-- Send a message to the Agents of a list, one after another. -/
def sendEach (message : Role -> Message) : List Role -> Proc Unit
  | [] => pure ()
  | role :: rest => do
      give (.send role (message role))
      sendEach message rest

/-- Wait for the next event of an Agent that answers `reqId`, skipping at most
`skip` others.  `none`: the connection failed or there were too many. -/
def awaitEvent (role : Role) (reqId : String) : Nat -> Proc (Option AgentEvent)
  | 0 => pure none
  | skip + 1 => do
      let heard ← attempt (give (.recv role))
      match heard with
      | .ok event =>
          if event.requestId = some reqId then pure (some event)
          else awaitEvent role reqId skip
      | .error error =>
          if error.disconnects then do
            ignore (give (.reconnect role))
            pure none
          else raise error

/-- Throw away one more event of an Agent. -/
def drain (role : Role) : Proc Unit := do
  let heard ← attempt (give (.recv role))
  match heard with
  | .ok _ => pure ()
  | .error error => if error.disconnects then pure () else raise error

/-- Collect the reserved ports of the Agents of a list.  `failed` remembers a
failure of an earlier one. -/
def collectPorts (reqId : String) :
    List Role -> Bool -> List (Role × Nat) -> Proc (Option (List (Role × Nat)))
  | [], failed, ports => pure (if failed then none else some ports)
  | role :: rest, failed, ports => do
      let ack ← awaitEvent role reqId maxSkip
      match ack with
      | none => do
          drain role
          collectPorts reqId rest true ports
      | some ack =>
          if failed then do
            drain role
            collectPorts reqId rest true ports
          else if ack.event ≠ some "READY" then collectPorts reqId rest true ports
          else do
            let heard ← attempt (give (.recv role))
            match heard with
            | .error error =>
                if error.disconnects then do
                  ignore (give (.reconnect role))
                  collectPorts reqId rest true ports
                else raise error
            | .ok resp =>
                if resp.event ≠ some "RESERVED" ∨ resp.requestId ≠ some reqId then
                  collectPorts reqId rest true ports
                else
                  match resp.port with
                  | none => raise .key
                  | some port => collectPorts reqId rest failed (ports ++ [(role, port)])

/-- Reset the socket timeouts of the Agents of a list. -/
def resetTimeouts : List Role -> Proc Unit
  | [] => pure ()
  | role :: rest => do
      ignore (give (.settimeout role))
      resetTimeouts rest

/-- `_reserve_ports` -/
def reservePorts (userId : String) (protType : ProtType) :
    Proc (Option (List (Role × Nat))) := do
  resetTimeouts roles
  let reqId ← nextRequestId
  let sent ← attempt (sendEach (fun _ => .reserve reqId userId protType) roles)
  match sent with
  | .error error =>
      if error.isOsError then do
        let _ ← reconnectAll
        pure none
      else raise error
  | .ok _ =>
      let ports ← collectPorts reqId roles false []
      match ports with
      | none => do
          let _ ← reconnectAll
          pure none
      | some ports => pure (some ports)

/-- Collect the READY answers of the Agents of a list. -/
def collectReady (reqId : String) : List Role -> Proc Bool
  | [] => pure true
  | role :: rest => do
      if ← give .expired then pure false
      else do
        give (.settimeout role)
        let ack ← awaitEvent role reqId maxSkip
        match ack with
        | none => pure false
        | some ack =>
            if ack.event ≠ some "READY" then pure false else collectReady reqId rest

/-- Collect the DONE answers of the Agents of a list, with their tokens. -/
def collectDone (reqId : String) :
    List Role -> List (Role × String) -> Proc (Option (List (Role × String)))
  | [], tokens => pure (some tokens)
  | role :: rest, tokens => do
      if ← give .expired then pure none
      else do
        give (.settimeout role)
        let event ← awaitEvent role reqId maxSkip
        match event with
        | none => pure none
        | some event =>
            if event.event ≠ some "DONE" then pure none
            else
              let token := event.agentToken.getD ""
              collectDone reqId rest
                (if token = "" then tokens else tokens ++ [(role, token)])

/-! ## Halting the task -/

/-- `_crack_task` -/
def crackTask (opId : Option Nat) (errorCode : String) : Proc Unit := do
  withLock .main (give .setTaskCracked)
  match opId with
  | some opId => ignore (db (.failOperation opId errorCode))
  | none => pure ()
  ignore (give (.writeTaskStatus .cracked))
  ignore (db (.failAllLiveOperations "TASK_CRACKED"))

/-! ## Running a protocol -/

/-- The error code of a missing token. -/
def missingToken : Role -> String
  | .steward => "MISSING_TOKEN_STEWARD"
  | .peer0 => "MISSING_TOKEN_PEER0"
  | .peer1 => "MISSING_TOKEN_PEER1"

/-- Read the tokens of a user for the Agents of a list; the first Agent without
one is the error. -/
def readTokens (userId : String) :
    List Role -> List (Role × String) -> Proc (Except Role (List (Role × String)))
  | [], tokens => pure (.ok tokens)
  | role :: rest, tokens => do
      let token ← db (.getAgentToken userId role)
      match token with
      | none => pure (.error role)
      | some token =>
          if token = "" then pure (.error role)
          else readTokens userId rest (tokens ++ [(role, token)])

/-- The tokens that a service needs. -/
def preflight (userId : String) :
    ProtType -> Proc (Except Role (List (Role × String)))
  | .update | .quit => readTokens userId roles []
  | .join | .query => pure (.ok [])

/-- Write the result of a protocol that all Agents have completed. -/
def complete
    (opId : Nat)
    (userId : String)
    (tokens : List (Role × String)) : ProtType -> Proc Unit
  | .join =>
      if ∀ role ∈ roles, role ∈ tokens.map Prod.fst then do
        let committed ← attempt (db (.completeJoin opId userId tokens))
        match committed with
        | .ok _ => pure ()
        | .error _ => crackTask (some opId) "DB_COMMIT_FAILED"
      else crackTask (some opId) "INCOMPLETE_TOKENS"
  | .quit => do
      let committed ← attempt (db (.completeQuit opId userId))
      match committed with
      | .ok _ => pure ()
      | .error _ => crackTask (some opId) "DB_COMMIT_FAILED"
  | .update | .query => do
      let committed ← attempt (db (.updateOperation opId .done
        { Db.Columns.none with queuePos := some none }))
      match committed with
      | .ok _ => pure ()
      | .error _ => crackTask (some opId) "DB_COMMIT_FAILED"

/-- From EXECUTE to the result. -/
def dispatch
    (opId : Nat)
    (userId : String)
    (protType : ProtType)
    (reqId : String)
    (tokens : List (Role × String)) : Proc Unit := do
  let sent ← attempt (sendEach
    (fun role => .execute reqId userId protType (tokens.lookup role)) roles)
  match sent with
  | .error error =>
      if error.isOsError then crackTask (some opId) "AGENT_DISCONNECTED"
      else raise error
  | .ok _ =>
      if ← collectReady reqId roles then do
        let collected ← collectDone reqId roles []
        match collected with
        | none => crackTask (some opId) "PROTOCOL_FAILED"
        | some collected => complete opId userId collected protType
      else crackTask (some opId) "EXECUTE_READY_FAILED"

/-- `_run_execute` -/
def runExecute (opId : Nat) (userId : String) (protType : ProtType) : Proc Unit := do
  let reqId ← nextRequestId
  let tokens ← preflight userId protType
  match tokens with
  | .error role => db (.failOperation opId (missingToken role))
  | .ok tokens => dispatch opId userId protType reqId tokens

/-- The part of `_run_sync` that the `finally` protects. -/
def syncBody (reqId : String) : Proc Unit := do
  withLock .sync do
    match ← give .activeSync with
    | none => pure ()
    | some sync => give (.setActiveSync (some { sync with status := .busy }))
  let sent ← attempt (sendEach (fun _ => .sync reqId) roles)
  match sent with
  | .error error =>
      if error.isOsError then crackTask none "SYNC_DISPATCH_FAILED" else raise error
  | .ok _ =>
      if ← collectReady reqId roles then do
        let collected ← collectDone reqId roles []
        match collected with
        | none => crackTask none "SYNC_PROTOCOL_FAILED"
        | some _ => pure ()
      else crackTask none "SYNC_READY_FAILED"

/-- `_run_sync` -/
def runSync : Proc Unit := do
  let reqId ← nextRequestId
  tryFinally (syncBody reqId) (withLock .sync (give (.setActiveSync none)))

/-! ## The queue -/

/-- `_evict_stale_queue_heads`, for at most `rounds` rounds. -/
def evictStaleQueueHeads (cfg : Settings) (now : Time) : Nat -> Proc Unit
  | 0 => .unfinished
  | rounds + 1 => do
      match ← db .firstQueued with
      | none => pure ()
      | some (opId, op) =>
          let updated ← attempt (give (.mktime op.updatedAt))
          match updated with
          | .error _ => pure ()
          | .ok updated =>
              if now - updated > cfg.queueLeaseTimeout then do
                db (.updateOperation opId .removed
                  ⟨some none, some 3, some (some "OVERTIME_REMOVED")⟩)
                db .reorderQueue
                evictStaleQueueHeads cfg now rounds
              else pure ()

/-- Whether a SYNC is waiting or running. -/
def syncHasPriority : Proc Bool := withLock .sync do
  let queue ← give .syncQueue
  if queue ≠ [] then pure true
  else do
    let sync ← give .activeSync
    pure sync.isSome

/-- `_try_activate` -/
def tryActivate (cfg : Settings) (opId rounds : Nat) : Proc Bool := do
  if ← give .taskCracked then pure false
  else if ← syncHasPriority then pure false
  else do
    match ← db .getActive with
    | some _ => pure false
    | none => do
        let now ← give .time
        evictStaleQueueHeads cfg now rounds
        match ← db .firstQueued with
        | none => pure false
        | some (first, _) =>
            if first ≠ opId then pure false
            else do
              let _ ← db .promoteFirstQueued
              pure true

/-! ## HTTP handlers -/

/-- A response with a status and nothing else. -/
def Response.of (status : String) : Response :=
  ⟨200, status, none, none, none, none, none⟩

/-- The status of an operation in a response. -/
def OpStatus.name : OpStatus -> String
  | .reserved => "RESERVED"
  | .queued => "QUEUED"
  | .active => "ACTIVE"
  | .busy => "BUSY"
  | .done => "DONE"
  | .failed => "FAILED"
  | .removed => "REMOVED"

/-- The answer of a cracked task. -/
def taskCrackedResponse : Response :=
  { Response.of "FAILED" with code := 503, reason := some "TASK_CRACKED" }

/-- The answer while an Agent cannot be reached. -/
def unavailableResponse : Response :=
  { Response.of "FAILED" with code := 503, reason := some "AGENT_UNAVAILABLE" }

/-- `_reserve_impl` -/
def reserveImpl (userId : Option String) (protType : ProtType)
    (allowedUsers : List String) : Proc Response := do
  let userId := userId.getD ""
  if userId = "" then pure { Response.of "FAILED" with code := 400 }
  else if userId ∉ allowedUsers then
    pure { Response.of "REJECTED" with reason := some "unknown user_id" }
  else
    withLock .main do
      match ← db (.getLiveOperation userId protType.name) with
      | some _ => pure (Response.of "ALREADY")
      | none => do
          let _ ← db (.createReservedOperation userId protType)
          pure (Response.of "SUCCESSFUL")

/-- A reserve route: the task has to stand and the Agents have to be there. -/
def reserveRoute (userId : Option String) (protType : ProtType)
    (allowedUsers : List String) : Proc Response := do
  if ← give .taskCracked then pure taskCrackedResponse
  else if ← give .agentsAvailable then reserveImpl userId protType allowedUsers
  else pure unavailableResponse

/-- `/reserve_join` -/
def reserveJoin (cfg : Settings) (userId : Option String) : Proc Response :=
  reserveRoute userId .join cfg.setHolderUsers

/-- `/reserve_update` -/
def reserveUpdate (cfg : Settings) (userId : Option String) : Proc Response :=
  reserveRoute userId .update cfg.setHolderUsers

/-- `/reserve_query` -/
def reserveQuery (cfg : Settings) (userId : Option String) : Proc Response :=
  reserveRoute userId .query cfg.querierUsers

/-- `/reserve_quit` -/
def reserveQuit (cfg : Settings) (userId : Option String) : Proc Response :=
  reserveRoute userId .quit cfg.setHolderUsers

/-- `_check_biz_precondition`: the reason for a rejection, if there is one. -/
def checkBizPrecondition (userId protType : String) : Proc (Option String) := do
  match ← db (.getUser userId) with
  | none => pure (some "unknown user_id")
  | some user =>
      if protType = "JOIN" then
        pure (if user.status = .joined then some "already joined" else none)
      else if protType = "UPDATE" ∨ protType = "QUIT" then
        pure (if user.status ≠ .joined then some "not joined yet" else none)
      else pure none

/-- `db.get_operation(op_id)` where the row has to be there. -/
def getOperation (opId : Nat) : Proc Operation := do
  match ← db (.getOperation opId) with
  | none => raise .type
  | some (_, op) => pure op

/-- `_start_execute` -/
def startExecute (cfg : Settings) (opId : Nat) (op : Operation) : Proc Response := do
  if op.protType = .quit then do
    db (.updateOperation opId .busy Db.Columns.none)
    give (.spawn (.runExecute opId op.userId op.protType))
    pure { Response.of "BUSY" with opId := some opId }
  else do
    match ← reservePorts op.userId op.protType with
    | none => do
        db (.failOperation opId "RESERVE_FAILED")
        pure { Response.of "FAILED" with reason := some "reserve_ports", opId := some opId }
    | some ports => do
        db (.updateOperation opId .busy Db.Columns.none)
        give (.spawn (.runExecute opId op.userId op.protType))
        pure { Response.of "BUSY" with
          opId := some opId
          agents := some (ports.map fun entry =>
            (entry.1, cfg.agentIps entry.1, entry.2)) }

/-- The answer for an operation that has to wait. -/
def waitingResponse (opId : Nat) : Proc Response := do
  let pos ← db (.queuePositionOf opId)
  let active ← db .getActive
  let before := match pos with
    | none => 0
    | some pos => pos - 1
  pure { Response.of "WAITING" with
    opId := some opId
    position := pos
    ahead := some (before + if active.isSome then 1 else 0) }

/-- The QUEUED branch of `/execute`. -/
def pollQueued (cfg : Settings) (opId rounds : Nat) : Proc Response := do
  db (.touchOperation opId)
  if ← tryActivate cfg opId rounds then do
    let op ← getOperation opId
    if op.status = .active then startExecute cfg opId op
    else waitingResponse opId
  else waitingResponse opId

/-- The last part of `/execute`, under the lock. -/
def poll (cfg : Settings) (opId rounds : Nat) : Proc Response := do
  if ← give .taskCracked then pure taskCrackedResponse
  else if ← give .agentsAvailable then do
    let op ← getOperation opId
    match op.status with
    | .queued => pollQueued cfg opId rounds
    | .active => startExecute cfg opId op
    | .busy => pure { Response.of "BUSY" with opId := some opId }
    | status => pure { Response.of status.name with opId := some opId }
  else pure unavailableResponse

/-- Move an operation from RESERVED to QUEUED, under the lock. -/
def enqueue (opId : Nat) : Proc Unit := do
  let op ← getOperation opId
  if op.status = .reserved then do
    let _ ← db (.enqueueReserved opId)
  let _ ← getOperation opId

/-- The operation that a request is about, or the answer if there is none. -/
def resolveOperation (userId protType : String) :
    Option Nat -> Proc (Except Response Row)
  | some opId => do
      match ← db (.getOperation opId) with
      | none => pure (.error (Response.of "NOT_FOUND"))
      | some (_, op) =>
          if op.userId ≠ userId ∨ op.protType.name ≠ protType then
            pure (.error (Response.of "NOT_FOUND"))
          else pure (.ok (opId, op))
  | none => do
      match ← db (.getLiveOperation userId protType) with
      | none => pure (.error (Response.of "NOT_RESERVED"))
      | some row => pure (.ok row)

/-- The answer for an operation that has come to an end. -/
def terminalResponse (opId : Nat) (op : Operation) : Option Response :=
  match op.status with
  | .done => some { Response.of "DONE" with opId := some opId }
  | .failed => some { Response.of "FAILED" with reason := op.errorCode, opId := some opId }
  | .removed => some { Response.of "REMOVED" with opId := some opId }
  | _ => none

/-- `/execute` behind the resolution of the operation. -/
def executeOperation (cfg : Settings) (userId protType : String) (opId : Nat)
    (op : Operation) (rounds : Nat) : Proc Response := do
  match terminalResponse opId op with
  | some response => pure response
  | none =>
      if ← give .taskCracked then pure taskCrackedResponse
      else if ← give .agentsAvailable then
        if op.status = .reserved then do
          match ← checkBizPrecondition userId protType with
          | some reason =>
              pure { Response.of "REJECTED" with reason := some reason, opId := some opId }
          | none => do
              withLock .main (enqueue opId)
              withLock .main (poll cfg opId rounds)
        else withLock .main (poll cfg opId rounds)
      else pure unavailableResponse

/-- `/execute` -/
def execute (cfg : Settings) (userId protType : Option String) (opId : Option Nat)
    (rounds : Nat) : Proc Response := do
  let userId := userId.getD ""
  let protType := protType.getD ""
  if userId = "" ∨ protType = "" then pure { Response.of "NOT_FOUND" with code := 400 }
  else do
    match ← resolveOperation userId protType opId with
    | .error response => pure response
    | .ok (opId, op) => executeOperation cfg userId protType opId op rounds

/-- The route of a request. -/
def route (cfg : Settings) (rounds : Nat) : Request -> Proc Response
  | .reserveJoin userId => reserveJoin cfg userId
  | .reserveUpdate userId => reserveUpdate cfg userId
  | .reserveQuery userId => reserveQuery cfg userId
  | .reserveQuit userId => reserveQuit cfg userId
  | .execute userId protType opId => execute cfg userId protType opId rounds

/-- Answer a request; an exception becomes an internal error. -/
def handle (cfg : Settings) (rounds : Nat) (request : Request) : Proc Unit := do
  let response ← attempt (route cfg rounds request)
  match response with
  | .ok response => give (.respond response)
  | .error _ => give (.respond { Response.of "" with code := 500 })

/-! ## The control panel, the scheduler and the start of the process -/

/-- `_http_serve` -/
def httpServe : Proc Unit := do
  let bound ← attempt (give .makeServer)
  match bound with
  | .ok _ => pure ()
  | .error error => if error.isOsError then pure () else raise error

/-- `_cmd_start` -/
def cmdStart : Proc Unit := do
  if ← give .started then pure ()
  else do
    let _ ← reconnectAll
    give (.spawn .httpServe)
    give (.spawn .schedulerLoop)
    give .setStarted

/-- `_cmd_sync` -/
def cmdSync : Proc Unit := do
  if ← give .started then
    if ← give .taskCracked then pure ()
    else withLock .sync do
      let queue ← give .syncQueue
      let sync ← give .activeSync
      if queue ≠ [] ∨ sync.isSome = true then pure ()
      else do
        let counter ← give .syncCounter
        give (.setSyncCounter (counter + 1))
        let syncId ← give .syncCounter
        let queue ← give .syncQueue
        give (.setSyncQueue (queue ++ [syncId]))
  else pure ()

/-- `_handle_command` -/
def handleCommand (cmd : String) : Proc Unit :=
  if cmd = "ms start" then cmdStart
  else if cmd = "ms sync" then cmdSync
  else if cmd = "ms exit" ∨ cmd = "exit" ∨ cmd = "quit" then raise .exit
  else pure ()

/-- A round of the control panel; the next one is a thread of its own. -/
def console : Proc Unit := do
  let line ← attempt (give .input)
  match line with
  | .error error => if error = .eof then pure () else raise error
  | .ok line => do
      handleCommand line
      give (.spawn .console)

/-- Take a SYNC from the queue, if one waits and nothing runs. -/
def takeSync : Proc (Option Nat) := do
  if ← give .taskCracked then pure none
  else do
    match ← db .getActive with
    | some _ => pure none
    | none => withLock .sync do
        match ← give .activeSync with
        | some _ => pure none
        | none => do
            match ← give .syncQueue with
            | [] => pure none
            | syncId :: queue => do
                give (.setSyncQueue queue)
                give (.setActiveSync (some ⟨syncId, .active⟩))
                pure (some syncId)

/-- What the scheduler does in a round. -/
def schedulerRound : Proc Unit := do
  if ← give .taskCracked then pure ()
  else if ← give .started then
    if ← give .agentsAvailable then do
      match ← withLock .main takeSync with
      | none => pure ()
      | some syncId => give (.spawn (.runSync syncId))
    else pure ()
  else pure ()

/-- A round of `_scheduler_loop`; the next one is a thread of its own. -/
def schedulerLoop : Proc Unit := do
  schedulerRound
  give (.spawn .schedulerLoop)

/-- `seed_users`, for the users of one kind. -/
def seedUsers (role : UserRole) : List String -> Proc Unit
  | [] => pure ()
  | userId :: rest => do
      db (.ensureUser userId role)
      seedUsers role rest

/-- `C3ManageServer.__init__` -/
def construct (cfg : Settings) : Proc Unit := do
  seedUsers .setHolder cfg.setHolderUsers
  seedUsers .querier cfg.querierUsers
  let result ← db .reconcileOnStartup
  if result.2 then do
    give (.writeTaskStatus .cracked)
    raise .runtime

/-- `run.py manage_server`: only an active task is served. -/
def launch (cfg : Settings) : Proc Unit := do
  let status ← give .readTaskStatus
  if status = .active then do
    construct cfg
    give (.spawn .console)
  else pure ()

/-- The program of a thread. -/
def program (cfg : Settings) : Task -> Proc Unit
  | .launch => launch cfg
  | .console => console
  | .httpServe => httpServe
  | .schedulerLoop => schedulerLoop
  | .handle request rounds => handle cfg rounds request
  | .runExecute opId userId protType => runExecute opId userId protType
  | .runSync _ => runSync

/-- The environment starts a thread for every request, once the server runs. -/
def arrives (s : State) : Task -> Bool
  | .handle _ _ => s.serving
  | _ => false

/-- The Manager. -/
def manager (cfg : Settings) : System interface PyError State Task Choice where
  perform := perform
  program := program cfg
  arrives := arrives
  restart s := .fresh s.db s.taskStatus
  main := .launch

/-- A Manager that is started for the first time, on the tables that the
preparation left. -/
def initial (cfg : Settings) : Config interface PyError State :=
  .boot (manager cfg) (.fresh .empty .active)

end Manager
end Mpmt
