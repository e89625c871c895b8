import Mpmt.Manager.Calls
import Mpmt.Manager.Faces

/-!
# The contract of the Manager's threads

At most one protocol is under way, and one thread carries it.  The holder of
the main lock decides what is promoted, dispatched and rejected; the carrier
concludes its protocol without the lock; the control panel starts the rest.
Ghost variables name these threads, and the contract says what a step of one
thread leaves to the others.
-/

namespace Mpmt
namespace Manager

open Effects Threads Contract

/-- How far the start of the process has come: the tables are being prepared,
the control panel waits, or the server and the scheduler have been started. -/
inductive Phase
  | starting
  | idle
  | opened
  deriving DecidableEq, Repr

/-- What the argument keeps besides the state.  `owner` carries the protocol
that is under way, and `sent` says that an Agent has heard of it; `ticket` names
the thread that may hand out the endpoints of an operation; `passed` are the
threads that have seen the task stand. -/
structure Ghost where
  phase : Phase
  panel : Nat
  owner : Option Nat
  sent : Bool
  ticket : Nat -> Option Nat
  passed : List Nat

/-- The variables of a new process. -/
def Ghost.fresh : Ghost where
  phase := .starting
  panel := 0
  owner := none
  sent := false
  ticket := fun _ => none
  passed := []

/-- The state with the ghost variables. -/
abbrev World := State × Ghost

/-- Before the server is started, nobody holds the lock and nothing runs in
this process. -/
structure Closed (x : World) : Prop where
  lock : x.1.lock = none
  owner : x.2.owner = none
  serving : x.1.serving = false
  started : x.1.started = false
  cracked : x.1.taskCracked = false

/-- What holds between any two steps. -/
structure Sound (x : World) : Prop where
  regular : x.1.db.Regular
  closed : x.2.phase ≠ .opened -> Closed x
  single : ∀ opId opId', x.1.db.Runs opId -> x.1.db.Runs opId' -> opId = opId'
  apart : x.1.activeSync.isSome = true -> ∀ opId, ¬ x.1.db.Runs opId
  carried : ∀ tid, x.2.owner = some tid ->
    x.1.activeSync.isSome = true ∨ ∃ opId, x.1.db.Busy opId
  /-- Endpoints are there to be handed out when the operation has become BUSY. -/
  ticketed : ∀ opId tid, x.2.ticket opId = some tid ->
    ∃ face, x.1.db.faceOf opId = some face ∧ face.status.entered = true

/-! ## What a step may do -/

/-- What a step of the thread `tid` leaves to the others in the tables. -/
structure Tables (tid : Nat) (x : World) (db : Db) : Prop where
  onward : ∀ opId, Passes (x.1.db.faceOf opId) (db.faceOf opId)
  /-- While another thread holds the lock, nothing starts to run. -/
  rests : ∀ other, other ≠ tid -> x.1.lock = some other ->
    (∀ opId, ¬ x.1.db.Runs opId) -> ∀ opId, ¬ db.Runs opId
  /-- What it sees in the queue or ACTIVE stays there, unless the task is
  cracked. -/
  waits : ∀ other, other ≠ tid -> x.1.lock = some other -> x.1.taskCracked = false ->
    ∀ opId face, x.1.db.faceOf opId = some face ->
      face.status = .queued ∨ face.status = .active -> db.faceOf opId = some face
  /-- What another thread carries stays BUSY. -/
  busy : ∀ other, other ≠ tid -> x.2.owner = some other ->
    ∀ opId face, x.1.db.faceOf opId = some face -> face.status = .busy ->
      db.faceOf opId = some face
  tokens : ∀ other, other ≠ tid -> x.2.owner = some other -> db.tokens = x.1.db.tokens
  /-- Nothing is started in a cracked task. -/
  calm : x.1.taskCracked = true -> (∀ opId, ¬ x.1.db.Busy opId) -> ∀ opId, ¬ db.Busy opId
  membership : x.1.db.Membership db

/-- What it leaves to them in the memory. -/
structure Memory (tid : Nat) (x : World) (s : State) : Prop where
  lock : ∀ other, other ≠ tid -> x.1.lock = some other ->
    s.lock = some other ∧ s.taskCracked = x.1.taskCracked ∧
      s.agentsAvailable = x.1.agentsAvailable ∧
      (x.1.activeSync = none -> s.activeSync = none)
  owner : ∀ other, other ≠ tid -> x.2.owner = some other ->
    s.activeSync.isSome = x.1.activeSync.isSome ∧ s.taskCracked = x.1.taskCracked
  panel : x.2.panel ≠ tid -> s.started = x.1.started
  started : x.1.started = true -> s.started = true
  cracked : x.1.taskCracked = true -> s.taskCracked = true
  /-- In a started process the Agents do not come back. -/
  outage : x.1.started = true -> x.1.agentsAvailable = false -> s.agentsAvailable = false

/-- The command ends what the thread carries: a SYNC by taking it away, an
operation by a status. -/
def Concludes (sync : Bool) (event : Event interface PyError) : Prop :=
  match event with
  | ⟨_, .setActiveSync none, _⟩ => sync = true
  | ⟨_, .db (.updateOperation _ .done _), .ok _⟩ => sync = false
  | ⟨_, .db (.completeJoin _ _ _), .ok _⟩ => sync = false
  | ⟨_, .db (.completeQuit _ _), .ok _⟩ => sync = false
  | ⟨_, .db (.failOperation _ _), .ok _⟩ => sync = false
  | ⟨_, .db (.failAllLiveOperations _), .ok _⟩ => sync = false
  | _ => False

/-- The thread has seen that the task is not cracked. -/
def SeesClear (event : Event interface PyError) : Prop :=
  match event with
  | ⟨_, .taskCracked, .ok cracked⟩ => cracked = false
  | _ => False

/-- The user has joined and has a token for each Agent. -/
def Equipped (db : Db) (userId : String) : Prop :=
  db.Joined userId ∧ ∀ role, db.HasToken userId role

/-- What has to hold when a thread tells the Agents to start, answers with
endpoints, creates an operation or fails all of them. -/
def Duty (event : Event interface PyError) (x x' : World) : Prop :=
  match event with
  | ⟨tid, .send _ (.execute _ userId protType _), _⟩ =>
      x.2.owner = some tid ∧ x' = (x.1, { x.2 with sent := true }) ∧
        x.1.taskCracked = false ∧
        (∃ opId, x.1.db.faceOf opId = some ⟨userId, protType, .busy⟩) ∧
        (protType = .update ∨ protType = .quit -> Equipped x.1.db userId)
  | ⟨tid, .send _ (.sync _), _⟩ =>
      x.2.owner = some tid ∧ x' = (x.1, { x.2 with sent := true }) ∧
        x.1.taskCracked = false ∧ x.1.activeSync.isSome = true
  | ⟨tid, .respond response, _⟩ =>
      ∀ endpoints, response.agents = some endpoints ->
        ∃ opId, response.opId = some opId ∧ x.2.ticket opId = some tid ∧
          x'.2.ticket opId = none
  | ⟨tid, .db (.createReservedOperation _ _), .ok _⟩ => tid ∈ x.2.passed
  | ⟨_, .db (.failAllLiveOperations _), .ok _⟩ => x.1.taskCracked = true
  | _ => True

/-- What it does to the ghost variables. -/
structure Marks (event : Event interface PyError) (x x' : World) : Prop where
  phase : x.2.phase = .opened -> x'.2.phase = .opened
  panel : x.2.panel ≠ event.tid -> x'.2.panel = x.2.panel ∧
    (x.2.phase ≠ .opened -> x'.2.phase = x.2.phase)
  owner : ∀ other, other ≠ event.tid -> x.2.owner = some other ->
    x'.2.owner = some other ∧ x'.2.sent = x.2.sent
  ticket : ∀ other, other ≠ event.tid -> ∀ opId, x.2.ticket opId = some other ->
    x'.2.ticket opId = some other
  passed : ∀ other, other ∈ x.2.passed -> other ∈ x'.2.passed
  /-- What the Agents have heard of is carried on until it is concluded. -/
  concludes : ∀ tid, x.2.owner = some tid -> x.2.sent = true ->
    x'.2.owner = some tid ∧ x'.2.sent = true ∧
      x'.1.activeSync.isSome = x.1.activeSync.isSome ∨
    event.tid = tid ∧ Concludes x.1.activeSync.isSome event
  tickets : ∀ opId, x.2.ticket opId = none -> x'.2.ticket opId ≠ none ->
    x.1.db.statusOf opId = some .active ∧ x'.1.db.statusOf opId = some .busy
  passes : ∀ tid, tid ∈ x'.2.passed -> tid ∈ x.2.passed ∨
    tid = event.tid ∧ SeesClear event ∧ x.1.taskCracked = false
  duty : Duty event x x'

/-- A step within the contract. -/
structure Within (event : Event interface PyError) (x x' : World) : Prop where
  sound : Sound x'
  tables : Tables event.tid x x'.1.db
  memory : Memory event.tid x x'.1
  marks : Marks event x x'

/-- What a thread can count on when it is started. -/
def Ready : Task -> Nat -> World -> Prop
  | .launch, tid, x => x.2.panel = tid ∧ x.2.phase = .starting
  | .console, tid, x => x.2.panel = tid ∧ (x.1.started = true ∨ x.2.phase = .idle)
  | .httpServe, _, x => x.2.phase = .opened
  | .schedulerLoop, _, x => x.2.phase = .opened
  | .handle _ _, _, x => x.2.phase = .opened
  | .runExecute opId userId protType, tid, x =>
      x.2.owner = some tid ∧ x.1.taskCracked = false ∧
        x.1.db.faceOf opId = some ⟨userId, protType, .busy⟩
  | .runSync _, tid, x =>
      x.2.owner = some tid ∧ x.1.taskCracked = false ∧ x.1.activeSync.isSome = true

/-- The contract. -/
def serverContract (cfg : Settings) : Contract (manager cfg) Ghost where
  Inv := Sound
  Guar := Within
  Pre := Ready
  fresh _ := .fresh

end Manager
end Mpmt
