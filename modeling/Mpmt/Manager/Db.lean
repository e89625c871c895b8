import Mathlib.Data.List.Sort
import Mpmt.Library.Dict

/-!
# The Manager's database

Three tables: users, operations and the tokens that the Agents gave to the set
holders.  Every method is one transaction: a function from tables to tables.
Rows are read with their key; an `ORDER BY` is a stable sort, with `NULL`
first.
-/

namespace Mpmt
namespace Manager

/-- The Agents. -/
inductive Role
  | steward
  | peer0
  | peer1
  deriving DecidableEq, Repr

/-- The Agents in the order in which the Manager goes through them. -/
def roles : List Role := [.steward, .peer0, .peer1]

theorem mem_roles (role : Role) : role ∈ roles := by
  cases role <;> decide

/-- The services. -/
inductive ProtType
  | join
  | update
  | query
  | quit
  deriving DecidableEq, Repr

/-- How a service is written in a request and in the database. -/
def ProtType.name : ProtType -> String
  | .join => "JOIN"
  | .update => "UPDATE"
  | .query => "QUERY"
  | .quit => "QUIT"

/-- The statuses of an operation. -/
inductive OpStatus
  | reserved
  | queued
  | active
  | busy
  | done
  | failed
  | removed
  deriving DecidableEq, Repr

namespace OpStatus

/-- `status IN ('RESERVED','QUEUED','ACTIVE','BUSY')` -/
def live : OpStatus -> Bool
  | .reserved | .queued | .active | .busy => true
  | .done | .failed | .removed => false

/-- `status IN ('QUEUED','ACTIVE','BUSY')` -/
def placed : OpStatus -> Bool
  | .queued | .active | .busy => true
  | .reserved | .done | .failed | .removed => false

/-- `status IN ('ACTIVE','BUSY')` -/
def running : OpStatus -> Bool
  | .active | .busy => true
  | .reserved | .queued | .done | .failed | .removed => false

end OpStatus

/-- The two kinds of users. -/
inductive UserRole
  | setHolder
  | querier
  deriving DecidableEq, Repr

/-- The statuses of a user. -/
inductive UserStatus
  | notJoined
  | joined
  | quitted
  | active
  deriving DecidableEq, Repr

/-- A row of `users`. -/
structure User where
  role : UserRole
  status : UserStatus
  deriving DecidableEq, Repr

/-- Seconds, as far as the texts in `updated_at` tell. -/
abbrev Time := Int

/-- A row of `operations`, without its key. -/
structure Operation where
  userId : String
  protType : ProtType
  status : OpStatus
  queuePos : Option Nat
  overtimeCount : Nat
  errorCode : Option String
  updatedAt : Time
  deriving DecidableEq, Repr

/-- A row of `operations` as it is read. -/
abbrev Row := Nat × Operation

/-- The tables.  `lastOpId` is the key that was given out last. -/
structure Db where
  users : Dict String User
  operations : Dict Nat Operation
  tokens : Dict (String × Role) String
  lastOpId : Nat

/-- Why the database refuses a statement. -/
inductive DbError
  | integrity
  | operational
  deriving DecidableEq, Repr

namespace Db

/-- The database of a new installation. -/
def empty : Db := ⟨∅, ∅, ∅, 0⟩

/-! ## Users -/

/-- Insert a user if it is not there yet. -/
def ensureUser (userId : String) (role : UserRole) (db : Db) : Db :=
  if userId ∈ db.users then db
  else
    let status := if role = .querier then .active else .notJoined
    { db with users := db.users.set userId ⟨role, status⟩ }

def getUser (userId : String) (db : Db) : Option User := db.users.get? userId

/-- `UPDATE users SET status=? WHERE user_id=?` -/
def setUserStatus (userId : String) (status : UserStatus) (db : Db) : Db :=
  { db with users := db.users.mapValues fun key user =>
      if key = userId then { user with status := status } else user }

/-! ## Operations -/

/-- The rows with a property, in the order of their keys. -/
def rowsWhere (holds : Operation -> Bool) (db : Db) : List Row :=
  db.operations.entries.filter fun row => holds row.2

/-- `UPDATE operations SET … ` -/
def updateOperations (change : Nat -> Operation -> Operation) (db : Db) : Db :=
  { db with operations := db.operations.mapValues change }

def getOperation (opId : Nat) (db : Db) : Option Row :=
  (db.operations.get? opId).map fun op => (opId, op)

/-- The live operation of a user and a service, if any. -/
def getLiveOperation (userId protType : String) (db : Db) : Option Row :=
  (db.rowsWhere fun op => op.userId = userId ∧ op.protType.name = protType ∧
    op.status.live = true).getLast?

/-- Insert a new RESERVED operation.  The user has to exist, and no two live
operations have the same user and service. -/
def createReservedOperation
    (userId : String)
    (protType : ProtType)
    (now : Time)
    (db : Db) : Except DbError (Nat × Db) :=
  if userId ∉ db.users then .error .integrity
  else if (db.getLiveOperation userId protType.name).isSome then .error .integrity
  else .ok (db.lastOpId + 1,
    { db with
      operations := db.operations.set (db.lastOpId + 1)
        ⟨userId, protType, .reserved, none, 0, none, now⟩
      lastOpId := db.lastOpId + 1 })

/-- `COALESCE(MAX(queue_pos), 0) + 1` over the operations with a place. -/
def nextQueuePos (db : Db) : Nat :=
  ((db.rowsWhere fun op => op.status.placed).map fun row =>
    row.2.queuePos.getD 0).foldl max 0 + 1

/-- RESERVED to QUEUED, with a new place. -/
def enqueueReserved (opId : Nat) (now : Time) (db : Db) : Bool × Db :=
  match db.operations.get? opId with
  | none => (false, db)
  | some op =>
      if op.status ≠ .reserved then (false, db)
      else (true, db.updateOperations fun key op =>
        if key = opId then
          { op with
            status := .queued
            queuePos := some db.nextQueuePos
            updatedAt := now }
        else op)

/-- The optional columns of an update; `none` is a column that is not given. -/
structure Columns where
  queuePos : Option (Option Nat)
  overtimeCount : Option Nat
  errorCode : Option (Option String)
  deriving DecidableEq, Repr

/-- No optional column. -/
def Columns.none : Columns := ⟨.none, .none, .none⟩

/-- Write the columns that are given. -/
def Columns.apply (columns : Columns) (op : Operation) : Operation :=
  { op with
    queuePos := columns.queuePos.getD op.queuePos
    overtimeCount := columns.overtimeCount.getD op.overtimeCount
    errorCode := columns.errorCode.getD op.errorCode }

/-- Update the status and optional columns. -/
def updateOperation
    (opId : Nat)
    (status : OpStatus)
    (columns : Columns)
    (now : Time)
    (db : Db) : Db :=
  db.updateOperations fun key op =>
    if key = opId then { columns.apply op with status := status, updatedAt := now }
    else op

/-- Update the time stamp. -/
def touchOperation (opId : Nat) (now : Time) (db : Db) : Db :=
  db.updateOperations fun key op =>
    if key = opId then { op with updatedAt := now } else op

/-! ## Tokens -/

def getAgentToken (userId : String) (role : Role) (db : Db) : Option String :=
  db.tokens.get? (userId, role)

/-- Store the tokens that are not empty. -/
def setTokens (userId : String) (tokens : List (Role × String)) (db : Db) : Db :=
  let given := tokens.filter fun entry => entry.2 ≠ ""
  { db with
    tokens := db.tokens.setAll (given.map fun entry => ((userId, entry.1), entry.2)) }

/-! ## Several tables at once -/

/-- `UPDATE operations SET status='DONE', queue_pos=NULL` -/
def finish (opId : Nat) (now : Time) (db : Db) : Db :=
  db.updateOperation opId .done { Columns.none with queuePos := some none } now

/-- Mark the operation DONE, store the tokens and make the user JOINED. -/
def completeJoin
    (opId : Nat)
    (userId : String)
    (tokens : List (Role × String))
    (now : Time)
    (db : Db) : Except DbError Db :=
  if userId ∉ db.users ∧ tokens.any fun entry => entry.2 ≠ "" then .error .integrity
  else .ok (((db.finish opId now).setTokens userId tokens).setUserStatus userId .joined)

/-- Mark the operation DONE, delete the tokens and make the user QUITTED. -/
def completeQuit (opId : Nat) (userId : String) (now : Time) (db : Db) : Db :=
  let db := db.finish opId now
  { db with tokens := db.tokens.filterKeys fun key => key.1 ≠ userId }.setUserStatus
    userId .quitted

/-- Mark an operation FAILED with an error code. -/
def failOperation (opId : Nat) (errorCode : String) (now : Time) (db : Db) : Db :=
  db.updateOperation opId .failed
    ⟨some none, none, some (some errorCode)⟩ now

/-- Fail every live operation. -/
def failAllLiveOperations (errorCode : String) (now : Time) (db : Db) : Db :=
  db.updateOperations fun _ op =>
    if op.status.live then
      { op with
        status := .failed
        queuePos := none
        errorCode := some errorCode
        updatedAt := now }
    else op

/-- Fail the operations that an earlier process left running.  Answers their
number and whether one was BUSY. -/
def reconcileOnStartup (now : Time) (db : Db) : (Nat × Bool) × Db :=
  let rows := db.rowsWhere fun op => op.status.running
  ((rows.length, rows.any fun row => row.2.status = .busy),
    db.updateOperations fun _ op =>
      if op.status.running then
        { op with
          status := .failed
          queuePos := none
          errorCode := some "MANAGER_RESTART"
          updatedAt := now }
      else op)

/-! ## The queue -/

/-- The order of `queue_pos`; `NULL` comes first. -/
def Row.place (row : Row) : Nat :=
  match row.2.queuePos with
  | none => 0
  | some pos => pos + 1

/-- Rows in the order of `queue_pos`. -/
def byQueuePos (rows : List Row) : List Row :=
  rows.insertionSort fun row row' => Row.place row ≤ Row.place row'

/-- The QUEUED rows in the order of their places. -/
def queue (db : Db) : List Row :=
  byQueuePos (db.rowsWhere fun op => op.status = .queued)

def firstQueued (db : Db) : Option Row := db.queue.head?

def getActive (db : Db) : Option Row :=
  (byQueuePos (db.rowsWhere fun op => op.status.running)).head?

/-- The place of a QUEUED operation, counted from 1. -/
def queuePositionOf (opId : Nat) (db : Db) : Option Nat :=
  match db.operations.get? opId with
  | none => none
  | some op =>
      if op.status ≠ .queued then none
      else match op.queuePos with
        | none => some 1
        | some pos => some ((db.rowsWhere fun other => other.status = .queued ∧
            other.queuePos.any fun pos' => pos' < pos).length + 1)

/-- The number of QUEUED operations. -/
def queueSize (db : Db) : Nat := (db.rowsWhere fun op => op.status = .queued).length

/-- Give the QUEUED rows the places 1, 2, … -/
def reorderQueue (db : Db) : Db :=
  let order := db.queue.map Prod.fst
  db.updateOperations fun key op =>
    match order.idxOf? key with
    | none => op
    | some index => { op with queuePos := some (index + 1) }

/-- `UPDATE operations SET queue_pos=… WHERE status='QUEUED' AND …` -/
def shiftPlaces (within : Nat -> Bool) (shift : Nat -> Nat) (db : Db) : Db :=
  db.updateOperations fun _ op =>
    if op.status ≠ .queued then op
    else { op with queuePos :=
      op.queuePos.map fun pos => if within pos then shift pos else pos }

/-- Move a QUEUED operation to a place; those in between move towards its old
one.  `none`: it has no place to compare with. -/
def moveToPos (opId newPos : Nat) (db : Db) : Option Db :=
  match db.operations.get? opId with
  | none => some db
  | some op =>
      if op.status ≠ .queued then some db
      else match op.queuePos with
        | none => none
        | some old =>
            let db :=
              if old < newPos then
                db.shiftPlaces (fun pos => old < pos ∧ pos ≤ newPos) fun pos => pos - 1
              else if newPos < old then
                db.shiftPlaces (fun pos => newPos ≤ pos ∧ pos < old) fun pos => pos + 1
              else db
            let db := db.updateOperations fun key op =>
              if key = opId then { op with queuePos := some newPos } else op
            some db.reorderQueue

/-- `move_to_pos`, to the number of QUEUED operations. -/
def moveToEnd (opId : Nat) (db : Db) : Option Db := db.moveToPos opId db.queueSize

/-- Mark an operation REMOVED; the others move up. -/
def removeFromQueue (opId : Nat) (now : Time) (db : Db) : Db :=
  (db.updateOperation opId .removed
    ⟨some none, some 3, some (some "OVERTIME_REMOVED")⟩ now).reorderQueue

/-- The first QUEUED operation becomes ACTIVE; the others move up. -/
def promoteFirstQueued (now : Time) (db : Db) : Option Row × Db :=
  match db.firstQueued with
  | none => (none, db)
  | some (opId, _) =>
      let db := (db.updateOperation opId .active Columns.none now).reorderQueue
      (db.getOperation opId, db)

end Db

end Manager
end Mpmt
