import Mpmt.Agent.History

/-!
# The contract of the Agent's threads

One thread has the connection and counts the sessions.  A worker that holds the
execution slot keeps it until it gives it back.  The history of the process
stands beside its state, and the contract says what a message, a call of the
protocol instance and the end of a worker mean for it.
-/

namespace Mpmt
namespace Agent

open Effects Threads Contract

/-- The state with the history of the process. -/
abbrev World := State × List Instant

/-- The thread that holds a lock. -/
def State.owner (s : State) : LockName -> Option Nat
  | .exec => s.execLock
  | .reserved => s.reservedLock
  | .send => s.sendLock

/-! ## What the history says -/

/-- The thread was started for a command of the session `gen`. -/
def Working (tid : Nat) (command : Command) (gen : Nat) (history : List Instant) : Prop :=
  ∃ moment ∈ history, ∃ caller,
    moment.label = .did ⟨caller, .spawn (.worker command gen), .ok tid⟩

/-- Since the thread has taken the send lock, the connection has not always been
that of the present session. -/
def Straddled (tid : Nat) (history : List Instant) : Prop :=
  ∃ before moment since, history = before ++ moment :: since ∧
    moment.after.conn ≠ some moment.after.generation ∧
    ∀ later ∈ moment :: since, later.after.sendLock = some tid

/-- The event is a message to the Manager. -/
def sends (event : Event interface PyError) : Bool :=
  match event.cmd with
  | .sendall _ _ => true
  | _ => false

/-- The event begins a call of the protocol instance. -/
def enters (event : Event interface PyError) : Bool :=
  match event.cmd with
  | .enter _ => true
  | _ => false

/-- The thread has seen another session than `gen`. -/
def Late (gen : Nat) (event : Event interface PyError) : Prop :=
  match event with
  | ⟨_, .generation, .ok generation⟩ => generation ≠ gen
  | _ => False

/-- The call that a command asks for. -/
def asked (command : Command) : Option Call :=
  if command.name = "SYNC" then some .sync
  else if command.name = "EXECUTE" then
    if command.protType = .str "QUIT" then some (.quit command.token)
    else if command.protType = .str "JOIN" then some .join
    else if command.protType = .str "UPDATE" then some (.update command.token)
    else if command.protType = .str "QUERY" then some .query
    else none
  else none

/-- The token in what a call gives back. -/
def Call.token : (call : Call) -> call.Result -> Option String
  | .join, token => some token
  | .update _, _ => none
  | .quit _, _ => none
  | .query, _ => none
  | .sync, _ => none

section

variable (json : Json)

/-- What a worker may say about its command when it has done `events`: that the
port of a socket is reserved which it has stored, that the call which was asked
for has returned, or an error. -/
inductive Answer (tid : Nat) (command : Command) (events : List (Event interface PyError)) :
    Msg -> Prop
  | reserved (key : String) (entry : Entry)
      (named : reserveKey json command.userId command.protType = some key)
      (stored : ⟨tid, .setReserved key entry, .ok ()⟩ ∈ events) :
      Answer tid command events (.reserved command entry.1)
  | done (call : Call) (result : call.Result)
      (called : asked command = some call)
      (returned : ⟨tid, .leave call, .ok result⟩ ∈ events) :
      Answer tid command events (.done command (call.token result))
  | error (text : String) : Answer tid command events (.error command text)

/-- What is held against a message of a worker on the connection `conn`. -/
structure Says (tid : Nat) (command : Command) (gen conn : Nat) (msg : Msg) (x : World) :
    Prop where
  working : Working tid command gen x.2
  first : ∀ event ∈ own tid x.2, sends event = false
  answer : Answer json tid command (own tid x.2) msg
  here : gen = conn ∨ Straddled tid x.2
  slot : command.name = "RESERVE" ∨ x.1.execThread = some tid ∨
    msg = .busy command ∧ ∃ other, other ≠ tid ∧ x.1.execThread = some other

end

/-- The worker has answered its command, or has seen that the session is over. -/
def Answered (tid gen : Nat) (history : List Instant) : Prop :=
  ∃ event ∈ own tid history, sends event = true ∨ Late gen event

variable (json : Json)

/-- The thread with the connection answers a value that came there. -/
def Greets (tid conn : Nat) (msg : Msg) (history : List Instant) : Prop :=
  tid = panel history ∧ ∃ value ∈ heard json conn history, greeting json value = some msg

/-! ## The contract -/

/-- What holds between any two steps. -/
structure Sound (x : World) : Prop where
  bound : x.1.generation ≤ x.1.accepted
  ahead : ∀ conn, x.1.accepted < conn -> received conn x.2 = [] ∧ workers conn x.2 = []
  /-- A session hands over the commands that it hears, in their order. -/
  inOrder : ∀ gen, workers gen x.2 <+: (heard json gen x.2).filterMap (known json)
  distinct : (begun x.2).Nodup
  inside : ∀ tid ∈ x.1.inside, x.1.execThread = some tid
  once : x.1.inside.Nodup

/-- What has to hold when a thread writes, calls the protocol instance, reads the
connection, starts a worker or comes to its end. -/
def Duty (event : Event interface PyError) (x : World) : Prop :=
  match event with
  | ⟨tid, .sendall conn msg, _⟩ =>
      Greets json tid conn msg x.2 ∨ ∃ command gen, Says json tid command gen conn msg x
  | ⟨tid, .enter call, _⟩ =>
      x.1.execThread = some tid ∧ x.1.inside = [] ∧
        (∀ event ∈ own tid x.2, enters event = false) ∧
        ∃ command gen, Working tid command gen x.2 ∧ asked command = some call
  | ⟨_, .recv conn, _⟩ =>
      workers conn x.2 = (heard json conn x.2).filterMap (known json)
  | ⟨_, .spawn (.worker _ gen), _⟩ => x.1.conn = some gen
  | ⟨tid, .log stage _, _⟩ =>
      stage ≠ .begin -> x.1.execThread ≠ some tid ∧
        ∃ command gen, Working tid command gen x.2 ∧ Answered tid gen x.2
  | _ => True

/-- A step within the contract. -/
structure Within (event : Event interface PyError) (x x' : World) : Prop where
  history : x'.2 = x.2 ++ [⟨x.1, .did event, x'.1⟩]
  sound : Sound json x'
  /-- Only the thread with the connection reads it and counts the sessions. -/
  network : event.tid ≠ panel x.2 -> Plain event ∧ x'.1.conn = x.1.conn ∧
    x'.1.generation = x.1.generation ∧ x'.1.accepted = x.1.accepted
  switch : x'.1.conn = x.1.conn ∨ x'.1.generation = x.1.generation
  connected : x.1.conn.isSome = true -> x'.1.conn.isSome = true
  locks : ∀ lock other, other ≠ event.tid -> x.1.owner lock = some other ->
    x'.1.owner lock = some other
  /-- The slot is taken and freed under the lock, by the thread that it is for. -/
  slot : ∀ other, other ≠ event.tid ->
    x.1.execLock = some other ∨ x.1.execThread = some other ->
      x'.1.execThread = x.1.execThread
  taken : ∀ other, other ≠ event.tid -> x'.1.execThread = some other ->
    x.1.execThread = some other
  inside : ∀ other, other ≠ event.tid -> (other ∈ x'.1.inside ↔ other ∈ x.1.inside)
  duty : Duty json event x

/-- The session `gen` has dispatched `commands`, and `buf` is left. -/
structure Session (tid gen : Nat) (commands : List PyJson) (buf : Bytes) (x : World) :
    Prop where
  mine : panel x.2 = tid
  conn : x.1.conn = some gen
  generation : x.1.generation = gen
  accepted : x.1.accepted = gen
  leaves : Leaves json (received gen x.2) commands buf
  handed : workers gen x.2 = commands.filterMap (known json)

/-- The accept loop waits for the next connection. -/
structure Waiting (tid : Nat) (x : World) : Prop where
  mine : panel x.2 = tid
  counted : x.1.generation = x.1.accepted

/-- A worker that has done nothing yet. -/
structure Newborn (tid : Nat) (command : Command) (gen : Nat) (x : World) : Prop where
  working : Working tid command gen x.2
  connected : x.1.conn.isSome = true
  unseen : own tid x.2 = []
  out : x.1.execThread ≠ some tid
  outside : tid ∉ x.1.inside

/-- What a thread can count on when it is started. -/
def Ready : Task -> Nat -> World -> Prop
  | .start, tid, x => Waiting tid x
  | .serve, tid, x => Waiting tid x
  | .receive buf, tid, x => ∃ gen commands, Session json tid gen commands buf x
  | .worker command gen, tid, x => Newborn tid command gen x

/-- No thread has had the identity `n` or a later one. -/
structure Unborn (n : Nat) (x : World) : Prop where
  begun : ∀ tid ∈ begun x.2, tid < n
  unseen : ∀ tid, n ≤ tid -> own tid x.2 = []
  slot : ∀ tid, x.1.execThread = some tid -> tid < n
  inside : ∀ tid ∈ x.1.inside, tid < n

/-- The contract. -/
def agentContract : Contract (agent json) (List Instant) where
  Inv := Sound json
  Guar := Within json
  Pre := Ready json
  fresh _ := []
  Young := Unborn

end Agent
end Mpmt
