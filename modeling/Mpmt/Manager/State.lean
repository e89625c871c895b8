import Mpmt.Library.Effects
import Mpmt.Library.Threads
import Mpmt.Manager.Db

/-!
# The Manager's memory and its commands

All threads of the Manager share one memory and one database.  A command is an
access to one of them, or something that only the surroundings decide: what an
Agent answers, whether a connection stands, what time it is.
-/

namespace Mpmt
namespace Manager

open Effects Threads

/-- Exceptions, by the kinds that the Manager tells apart. -/
inductive PyError
  | connection
  | timeout
  | os
  | value
  | key
  | type
  | database (error : DbError)
  | runtime
  | eof
  | exit
  deriving DecidableEq, Repr

namespace PyError

/-- `except (ConnectionError, socket.timeout)` -/
def disconnects : PyError -> Bool
  | .connection | .timeout => true
  | _ => false

/-- `except (OSError, ConnectionError)` -/
def isOsError : PyError -> Bool
  | .connection | .timeout | .os => true
  | _ => false

end PyError

/-- The status in `task_status.json`. -/
inductive TaskStatus
  | unprepared
  | active
  | cracked
  deriving DecidableEq, Repr

/-- What the Manager tells an Agent. -/
inductive Message
  | reserve (requestId userId : String) (protType : ProtType)
  | execute (requestId userId : String) (protType : ProtType) (token : Option String)
  | sync (requestId : String)
  deriving DecidableEq, Repr

/-- What an Agent answers; every field may be missing. -/
structure AgentEvent where
  requestId : Option String
  event : Option String
  port : Option Nat
  agentToken : Option String
  deriving DecidableEq, Repr

/-- What a client asks for.  A field that is missing is `none`. -/
inductive Request
  | reserveJoin (userId : Option String)
  | reserveUpdate (userId : Option String)
  | reserveQuery (userId : Option String)
  | reserveQuit (userId : Option String)
  | execute (userId protType : Option String) (opId : Option Nat)
  deriving DecidableEq, Repr

/-- Where a client finds the Agents. -/
abbrev Endpoints := List (Role × String × Nat)

/-- What a client is told. -/
structure Response where
  code : Nat
  status : String
  reason : Option String
  opId : Option Nat
  position : Option Nat
  ahead : Option Nat
  agents : Option Endpoints
  deriving DecidableEq, Repr

/-- The threads of the Manager.  The loops of the control panel and of the
scheduler are a thread for each round.  `rounds` bounds the rounds of the
eviction loop. -/
inductive Task
  | launch
  | console
  | httpServe
  | schedulerLoop
  | handle (request : Request) (rounds : Nat)
  | runExecute (opId : Nat) (userId : String) (protType : ProtType)
  | runSync (syncId : Nat)
  deriving DecidableEq, Repr

/-- The two locks of the Manager: `_lock` and `_sync_lock`. -/
inductive LockName
  | main
  | sync
  deriving DecidableEq, Repr

/-- The status of a SYNC that has been taken from the queue. -/
inductive SyncStatus
  | active
  | busy
  deriving DecidableEq, Repr

/-- A SYNC that has been taken from the queue. -/
structure ActiveSync where
  syncId : Nat
  status : SyncStatus
  deriving DecidableEq, Repr

/-- The database, the status file and the memory.  A lock names the thread that
holds it; `serving` says that the HTTP server takes requests. -/
structure State where
  db : Db
  taskStatus : TaskStatus
  reqCounter : Nat
  lock : Option Nat
  taskCracked : Bool
  agentsAvailable : Bool
  started : Bool
  syncCounter : Nat
  syncQueue : List Nat
  activeSync : Option ActiveSync
  syncLock : Option Nat
  serving : Bool

/-- The memory of a new process. -/
def State.fresh (db : Db) (taskStatus : TaskStatus) : State where
  db := db
  taskStatus := taskStatus
  reqCounter := 0
  lock := none
  taskCracked := false
  agentsAvailable := true
  started := false
  syncCounter := 0
  syncQueue := []
  activeSync := none
  syncLock := none
  serving := false

/-! ## The database methods as commands -/

/-- A call of a database method. -/
inductive DbCall
  | ensureUser (userId : String) (role : UserRole)
  | getUser (userId : String)
  | createReservedOperation (userId : String) (protType : ProtType)
  | getOperation (opId : Nat)
  | getLiveOperation (userId protType : String)
  | enqueueReserved (opId : Nat)
  | updateOperation (opId : Nat) (status : OpStatus) (columns : Db.Columns)
  | getAgentToken (userId : String) (role : Role)
  | completeJoin (opId : Nat) (userId : String) (tokens : List (Role × String))
  | completeQuit (opId : Nat) (userId : String)
  | failOperation (opId : Nat) (errorCode : String)
  | failAllLiveOperations (errorCode : String)
  | reconcileOnStartup
  | firstQueued
  | getActive
  | queuePositionOf (opId : Nat)
  | touchOperation (opId : Nat)
  | reorderQueue
  | promoteFirstQueued

namespace DbCall

/-- What a method gives back. -/
@[reducible]
def Reply : DbCall -> Type
  | .ensureUser _ _ => Unit
  | .getUser _ => Option User
  | .createReservedOperation _ _ => Nat
  | .getOperation _ => Option Row
  | .getLiveOperation _ _ => Option Row
  | .enqueueReserved _ => Bool
  | .updateOperation _ _ _ => Unit
  | .getAgentToken _ _ => Option String
  | .completeJoin _ _ _ => Unit
  | .completeQuit _ _ => Unit
  | .failOperation _ _ => Unit
  | .failAllLiveOperations _ => Unit
  | .reconcileOnStartup => Nat × Bool
  | .firstQueued => Option Row
  | .getActive => Option Row
  | .queuePositionOf _ => Option Nat
  | .touchOperation _ => Unit
  | .reorderQueue => Unit
  | .promoteFirstQueued => Option Row

/-- What a method does at the time `now`. -/
def apply (now : Time) (db : Db) :
    (call : DbCall) -> Except DbError (call.Reply × Db)
  | .ensureUser userId role => .ok ((), db.ensureUser userId role)
  | .getUser userId => .ok (db.getUser userId, db)
  | .createReservedOperation userId protType =>
      db.createReservedOperation userId protType now
  | .getOperation opId => .ok (db.getOperation opId, db)
  | .getLiveOperation userId protType => .ok (db.getLiveOperation userId protType, db)
  | .enqueueReserved opId => .ok (db.enqueueReserved opId now)
  | .updateOperation opId status columns =>
      .ok ((), db.updateOperation opId status columns now)
  | .getAgentToken userId role => .ok (db.getAgentToken userId role, db)
  | .completeJoin opId userId tokens =>
      (db.completeJoin opId userId tokens now).map fun db => ((), db)
  | .completeQuit opId userId => .ok ((), db.completeQuit opId userId now)
  | .failOperation opId errorCode => .ok ((), db.failOperation opId errorCode now)
  | .failAllLiveOperations errorCode =>
      .ok ((), db.failAllLiveOperations errorCode now)
  | .reconcileOnStartup => .ok (db.reconcileOnStartup now)
  | .firstQueued => .ok (db.firstQueued, db)
  | .getActive => .ok (db.getActive, db)
  | .queuePositionOf opId => .ok (db.queuePositionOf opId, db)
  | .touchOperation opId => .ok ((), db.touchOperation opId now)
  | .reorderQueue => .ok ((), db.reorderQueue)
  | .promoteFirstQueued => .ok (db.promoteFirstQueued now)

end DbCall

/-! ## All commands -/

/-- What a thread of the Manager can do in one step. -/
inductive Cmd
  | acquire (lock : LockName)
  | release (lock : LockName)
  | reqCounter
  | setReqCounter (count : Nat)
  | taskCracked
  | setTaskCracked
  | agentsAvailable
  | setAgentsAvailable (available : Bool)
  | started
  | setStarted
  | syncCounter
  | setSyncCounter (count : Nat)
  | syncQueue
  | setSyncQueue (queue : List Nat)
  | activeSync
  | setActiveSync (sync : Option ActiveSync)
  | db (call : DbCall)
  | readTaskStatus
  | writeTaskStatus (status : TaskStatus)
  | send (role : Role) (message : Message)
  | recv (role : Role)
  | reconnect (role : Role)
  | settimeout (role : Role)
  /-- Whether a deadline has passed. -/
  | expired
  | time
  | mktime (text : Time)
  | spawn (task : Task)
  | makeServer
  | input
  | respond (response : Response)

/-- What a command gives back. -/
@[reducible]
def Cmd.Reply : Cmd -> Type
  | .reqCounter => Nat
  | .taskCracked => Bool
  | .agentsAvailable => Bool
  | .started => Bool
  | .syncCounter => Nat
  | .syncQueue => List Nat
  | .activeSync => Option ActiveSync
  | .db call => call.Reply
  | .readTaskStatus => TaskStatus
  | .recv _ => AgentEvent
  | .expired => Bool
  | .time => Time
  | .mktime _ => Time
  | .input => String
  | _ => Unit

/-- The commands of the Manager and what comes back. -/
def interface : Interface where
  Cmd := Cmd
  Reply := Cmd.Reply

/-- What the surroundings decide about a command. -/
inductive Choice
  /-- Nothing is left to decide. -/
  | go
  /-- The time of day. -/
  | clock (now : Time)
  | answer (yes : Bool)
  | hear (event : AgentEvent)
  | line (text : String)
  | fail (error : PyError)

/-- A command that answers and leaves the state alone. -/
def answered
    {cmd : Cmd}
    (reply : cmd.Reply)
    (s : State) : Option (Done interface PyError State Task cmd) :=
  some ⟨.ok reply, s, none⟩

/-- A command that raises and leaves the state alone. -/
def refused
    {cmd : Cmd}
    (error : PyError)
    (s : State) : Option (Done interface PyError State Task cmd) :=
  some ⟨.error error, s, none⟩

/-- A database method is a transaction: it takes effect or raises and changes
nothing.  That a commit which raises leaves nothing behind rests on the
write-ahead log that the connection switches on. -/
def performDb
    (choice : Choice)
    (dbCall : DbCall)
    (s : State) : Option (Done interface PyError State Task (.db dbCall)) :=
  match choice with
  | .clock now =>
      match dbCall.apply now s.db with
      | .ok (reply, db) => some ⟨.ok reply, { s with db := db }, none⟩
      | .error error => refused (.database error) s
  | .fail (.database error) => refused (.database error) s
  | _ => none

/-- What a command does in the thread `tid`. -/
def perform (tid : Nat) (_fresh : Nat) (choice : Choice) :
    (cmd : Cmd) -> State -> Option (Done interface PyError State Task cmd)
  | .acquire .main, s =>
      if s.lock = none then answered () { s with lock := some tid } else none
  | .acquire .sync, s =>
      if s.syncLock = none then answered () { s with syncLock := some tid } else none
  | .release .main, s => answered () { s with lock := none }
  | .release .sync, s => answered () { s with syncLock := none }
  | .reqCounter, s => answered s.reqCounter s
  | .setReqCounter count, s => answered () { s with reqCounter := count }
  | .taskCracked, s => answered s.taskCracked s
  | .setTaskCracked, s => answered () { s with taskCracked := true }
  | .agentsAvailable, s => answered s.agentsAvailable s
  | .setAgentsAvailable available, s =>
      answered () { s with agentsAvailable := available }
  | .started, s => answered s.started s
  | .setStarted, s => answered () { s with started := true }
  | .syncCounter, s => answered s.syncCounter s
  | .setSyncCounter count, s => answered () { s with syncCounter := count }
  | .syncQueue, s => answered s.syncQueue s
  | .setSyncQueue queue, s => answered () { s with syncQueue := queue }
  | .activeSync, s => answered s.activeSync s
  | .setActiveSync sync, s => answered () { s with activeSync := sync }
  | .db dbCall, s => performDb choice dbCall s
  | .readTaskStatus, s => answered s.taskStatus s
  | .writeTaskStatus status, s =>
      match choice with
      | .go => answered () { s with taskStatus := status }
      | .fail error => refused error s
      | _ => none
  | .send _ _, s =>
      match choice with
      | .go => answered () s
      | .fail error => if error.isOsError then refused error s else none
      | _ => none
  | .recv _, s =>
      match choice with
      | .hear event => answered event s
      | .fail error => refused error s
      | _ => none
  | .reconnect _, s =>
      match choice with
      | .go => answered () s
      | .fail error => refused error s
      | _ => none
  | .settimeout _, s =>
      match choice with
      | .go => answered () s
      | .fail error => refused error s
      | _ => none
  | .expired, s =>
      match choice with
      | .answer yes => answered yes s
      | _ => none
  | .time, s =>
      match choice with
      | .clock now => answered now s
      | _ => none
  | .mktime text, s =>
      match choice with
      | .go => answered text s
      | .fail .value => refused .value s
      | _ => none
  | .spawn task, s =>
      match choice with
      | .go => some ⟨.ok (), s, some task⟩
      | .fail .runtime => refused .runtime s
      | _ => none
  | .makeServer, s =>
      match choice with
      | .go => answered () { s with serving := true }
      | .fail .os => refused .os s
      | _ => none
  | .input, s =>
      match choice with
      | .line text => answered text s
      | .fail .eof => refused .eof s
      | _ => none
  | .respond _, s => answered () s

end Manager
end Mpmt
