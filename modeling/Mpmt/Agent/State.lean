import Mpmt.Agent.Framing
import Mpmt.Library.Effects
import Mpmt.Library.Threads

/-!
# The Agent's memory and its commands

One thread of an Agent takes the connections of the Manager and reads commands
from them; a worker thread carries out each command.  They share the present
connection, the number of the session, the reserved ports, the execution slot
and three locks.
-/

namespace Mpmt
namespace Agent

open Effects Threads

/-- A call of the protocol instance. -/
inductive Call
  | join
  | update (token : PyJson)
  | quit (token : PyJson)
  | query
  | sync
  deriving DecidableEq, Repr

/-- A JOIN gives back the token of the new leaf. -/
@[reducible]
def Call.Result : Call -> Type
  | .join => String
  | _ => Unit

/-- What a worker writes to the log. -/
inductive Stage
  | begin
  | done
  | fail
  deriving DecidableEq, Repr

/-- The threads of the Agent.  The accept loop and the receive loop are a thread
for each round; `buf` is what the receive loop has not used yet, and `gen` the
session in which a command came. -/
inductive Task
  | start
  | serve
  | receive (buf : Bytes)
  | worker (command : Command) (gen : Nat)
  deriving DecidableEq, Repr

/-- `_exec_lock`, `_reserved_lock` and `_send_lock`. -/
inductive LockName
  | exec
  | reserved
  | send
  deriving DecidableEq, Repr

/-- The port of a listening socket, and the socket. -/
abbrev Entry := Nat × Nat

/-- The memory.  Connections are counted by `accepted` and sockets by `sockets`;
`inside` are the threads that are in a call of the protocol instance. -/
structure State where
  accepted : Nat
  conn : Option Nat
  generation : Nat
  reserved : Dict String Entry
  sockets : Nat
  execThread : Option Nat
  inside : List Nat
  execLock : Option Nat
  reservedLock : Option Nat
  sendLock : Option Nat

/-- The memory of a new process. -/
def State.fresh : State where
  accepted := 0
  conn := none
  generation := 0
  reserved := ∅
  sockets := 0
  execThread := none
  inside := []
  execLock := none
  reservedLock := none
  sendLock := none

/-! ## Commands -/

/-- What a thread of the Agent can do in one step. -/
inductive Cmd
  | acquire (lock : LockName)
  | release (lock : LockName)
  | prepare
  | accept
  | generation
  | setGeneration (count : Nat)
  | conn
  | recv (conn : Nat)
  | sendall (conn : Nat) (msg : Msg)
  | execThread
  | setExecThread
  | clearExecThread
  | listen
  | close (sock : Nat)
  | getReserved (key : String)
  | setReserved (key : String) (entry : Entry)
  | popReserved (key : String)
  | allReserved
  | clearReserved
  | settimeout (sock : Nat)
  | acceptClient (sock : Nat)
  | channel
  | enter (call : Call)
  | leave (call : Call)
  | log (stage : Stage) (command : Command)
  | spawn (task : Task)
  /-- The next round of a loop. -/
  | proceed (task : Task)

/-- What a command gives back. -/
@[reducible]
def Cmd.Reply : Cmd -> Type
  | .generation => Nat
  | .conn => Option Nat
  | .recv _ => Bytes
  | .execThread => Option Nat
  | .listen => Entry
  | .getReserved _ => Option Entry
  | .popReserved _ => Option Entry
  | .allReserved => List Entry
  | .leave call => call.Result
  | .spawn _ => Nat
  | .proceed _ => Nat
  | _ => Unit

/-- The commands of the Agent and what comes back. -/
def interface : Interface where
  Cmd := Cmd
  Reply := Cmd.Reply

/-- What the surroundings decide about a command. -/
inductive Choice
  /-- Nothing is left to decide. -/
  | go
  | hear (chunk : Bytes)
  | port (port : Nat)
  | token (token : String)
  | fail (error : PyError)

/-- A command that answers and changes the state. -/
def answered
    {cmd : Cmd}
    (reply : cmd.Reply)
    (s : State) : Option (Done interface PyError State Task cmd) :=
  some ⟨.ok reply, s, none⟩

/-- A command that raises. -/
def refused
    {cmd : Cmd}
    (error : PyError)
    (s : State) : Option (Done interface PyError State Task cmd) :=
  some ⟨.error error, s, none⟩

/-- A command that can raise an `OSError`. -/
def risky
    {cmd : Cmd}
    (choice : Choice)
    (reply : cmd.Reply)
    (s s' : State) : Option (Done interface PyError State Task cmd) :=
  match choice with
  | .go => answered reply s'
  | .fail error => if error.isOsError then refused error s else none
  | _ => none

/-- A lock is taken when it is free. -/
def State.acquire (s : State) (tid : Nat) : LockName -> Option State
  | .exec => if s.execLock = none then some { s with execLock := some tid } else none
  | .reserved =>
      if s.reservedLock = none then some { s with reservedLock := some tid } else none
  | .send => if s.sendLock = none then some { s with sendLock := some tid } else none

def State.release (s : State) : LockName -> State
  | .exec => { s with execLock := none }
  | .reserved => { s with reservedLock := none }
  | .send => { s with sendLock := none }

/-- What a command does in the thread `tid`. -/
def perform (tid fresh : Nat) (choice : Choice) :
    (cmd : Cmd) -> State -> Option (Done interface PyError State Task cmd)
  | .acquire lock, s => (s.acquire tid lock).bind (answered ())
  | .release lock, s => answered () (s.release lock)
  | .prepare, s =>
      match choice with
      | .go => answered () s
      | .fail error => refused error s
      | _ => none
  | .accept, s =>
      risky choice () s
        { s with accepted := s.accepted + 1, conn := some (s.accepted + 1) }
  | .generation, s => answered s.generation s
  | .setGeneration count, s => answered () { s with generation := count }
  | .conn, s => answered s.conn s
  | .recv _, s =>
      match choice with
      | .hear chunk => if chunk.length ≤ chunkBytes then answered chunk s else none
      | .fail error => if error.isOsError then refused error s else none
      | _ => none
  | .sendall _ _, s => risky choice () s s
  | .execThread, s => answered s.execThread s
  | .setExecThread, s => answered () { s with execThread := some tid }
  | .clearExecThread, s => answered () { s with execThread := none }
  | .listen, s =>
      match choice with
      | .port port => answered (port, s.sockets) { s with sockets := s.sockets + 1 }
      | .fail error => if error.isOsError then refused error s else none
      | _ => none
  | .close _, s => risky choice () s s
  | .getReserved key, s => answered (s.reserved.get? key) s
  | .setReserved key entry, s =>
      answered () { s with reserved := s.reserved.set key entry }
  | .popReserved key, s =>
      answered (s.reserved.get? key) { s with reserved := s.reserved.del key }
  | .allReserved, s => answered (s.reserved.entries.map Prod.snd) s
  | .clearReserved, s => answered () { s with reserved := ∅ }
  | .settimeout _, s => risky choice () s s
  | .acceptClient _, s => risky choice () s s
  | .channel, s =>
      match choice with
      | .go => answered () s
      | .fail error => refused error s
      | _ => none
  | .enter _, s => answered () { s with inside := tid :: s.inside }
  | .leave call, s =>
      let s' := { s with inside := s.inside.erase tid }
      match call, choice with
      | .join, .token token => answered token s'
      | .update _, .go => answered () s'
      | .quit _, .go => answered () s'
      | .query, .go => answered () s'
      | .sync, .go => answered () s'
      | _, .fail error => refused error s'
      | _, _ => none
  | .log _ _, s => answered () s
  | .spawn task, s =>
      match choice with
      | .go => some ⟨.ok fresh, s, some task⟩
      | .fail error => if error.isOsError then none else refused error s
      | _ => none
  | .proceed task, s => some ⟨.ok fresh, s, some task⟩

end Agent
end Mpmt
