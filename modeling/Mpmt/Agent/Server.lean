import Mpmt.Agent.State

/-!
# The Agent's threads

The accept loop, the receive loop and the workers, each as a program.
-/

namespace Mpmt
namespace Agent

open Effects Threads

/-- A piece of a thread. -/
abbrev Proc (Out : Type) := Prog interface Empty PyError Out

/-- Give a command. -/
def give (cmd : Cmd) : Proc cmd.Reply := call (I := interface) cmd

/-- `with lock:` -/
def withLock (lock : LockName) (body : Proc Out) : Proc Out := do
  give (.acquire lock)
  tryFinally body (give (.release lock))

/-- `try: … except OSError: pass` -/
def passing (body : Proc Unit) : Proc Unit := do
  match ← attempt body with
  | .ok _ => pure ()
  | .error error => if error.isOsError then pure () else raise error

/-- An exception that the source does not raise by itself. -/
def attributeError : PyError := ⟨.other, "'NoneType' object has no attribute"⟩

/-! ## Messages -/

/-- Whether a worker of the session `gen` is late; the receive loop never is. -/
def stale : Option Nat -> Proc Bool
  | none => pure false
  | some gen => do
      let generation ← give .generation
      pure (gen ≠ generation)

/-- `self._conn.sendall(…)` -/
def sendOn (msg : Msg) : Proc Unit := do
  match ← give .conn with
  | none => raise attributeError
  | some conn => give (.sendall conn msg)

/-- `_send` -/
def send (msg : Msg) (gen : Option Nat) : Proc Unit :=
  withLock .send do
    if ← stale gen then pure ()
    else
      match ← give .conn with
      | none => pure ()
      | some _ => passing (sendOn msg)

/-- `try: … except Exception as e:`, which sends an ERROR and raises again. -/
def reporting (command : Command) (gen : Nat) (body : Proc Unit) : Proc Unit :=
  body.tryExcept fun error => do
    send (.error command error.text) (some gen)
    raise error

/-! ## Command handlers -/

section

variable (json : Json)

/-- `_reserve_key` -/
def reserveKey (userId protType : PyJson) : Option String := do
  let user_id ← json.str userId
  let prot_type ← json.str protType
  return s!"{user_id}||{prot_type}"

/-- The value of `str`, or its exception. -/
def formatted : Option String -> Proc String
  | some text => pure text
  | none => raise recursionError

/-- Put a listening socket in the place of an older one. -/
def storeReserved (key : String) (entry : Entry) : Proc Unit := withLock .reserved do
  match ← give (.getReserved key) with
  | none => pure ()
  | some old => passing (give (.close old.2))
  give (.setReserved key entry)

/-- `cmd_reserve` -/
def cmdReserve (command : Command) (gen : Nat) : Proc Unit :=
  reporting command gen do
    let entry ← give .listen
    let generation ← give .generation
    if gen ≠ generation then give (.close entry.2)
    else do
      let key ← formatted (reserveKey json command.userId command.protType)
      storeReserved key entry
      send (.reserved command entry.1) (some gen)

/-- Take the execution slot, or say that it is taken. -/
def claimSlot (command : Command) (gen : Nat) : Proc Bool := withLock .exec do
  match ← give .execThread with
  | some _ => do
      send (.busy command) (some gen)
      pure false
  | none => do
      give .setExecThread
      pure true

/-- Run a body in the execution slot. -/
def inSlot (command : Command) (gen : Nat) (body : Proc Unit) : Proc Unit := do
  if ← claimSlot command gen then
    tryFinally (reporting command gen body) (withLock .exec (give .clearExecThread))
  else pure ()

/-- A call of the protocol instance. -/
def protCall (call : Call) : Proc call.Result := do
  give (.enter call)
  give (.leave call)

/-- Take the reserved port of a user and a service. -/
def takeReserved (userId protType : PyJson) : Proc (Option Entry) :=
  withLock .reserved do
    let key ← formatted (reserveKey json userId protType)
    give (.popReserved key)

/-- Wait for the client at its reserved port. -/
def acceptClient (command : Command) (gen sock : Nat) : Proc Bool :=
  let accepting : Proc Bool := do
    give (.settimeout sock)
    give (.acceptClient sock)
    pure true
  tryFinally
    (accepting.tryExcept fun error =>
      if error.kind = .timeout then do
        send (.error command "client did not connect in time") (some gen)
        pure false
      else raise error)
    (passing (give (.close sock)))

/-- The protocol of a service that the client takes part in. -/
def serveClient (command : Command) (gen : Nat) : Proc Unit := do
  give .channel
  if command.protType = .str "JOIN" then do
    let agentToken ← protCall .join
    send (.done command (some agentToken)) (some gen)
  else if command.protType = .str "UPDATE" then do
    protCall (.update command.token)
    send (.done command none) (some gen)
  else do
    protCall .query
    send (.done command none) (some gen)

/-- JOIN, UPDATE and QUERY. -/
def executeAccept (command : Command) (gen : Nat) : Proc Unit := do
  if command.protType = .str "UPDATE" ∧ ¬ command.token.truthy then do
    match ← takeReserved json command.userId (.str "UPDATE") with
    | none => pure ()
    | some entry => passing (give (.close entry.2))
    send (.error command "not joined yet") (some gen)
  else do
    match ← takeReserved json command.userId command.protType with
    | none => send (.error command "no reserved port") (some gen)
    | some entry => do
        if ← acceptClient command gen entry.2 then serveClient command gen
        else pure ()

/-- The services that a client takes part in. -/
def clientServices : List PyJson := [.str "JOIN", .str "UPDATE", .str "QUERY"]

/-- The part of `cmd_execute` that runs in the slot. -/
def executeBody (command : Command) (gen : Nat) : Proc Unit :=
  if command.protType = .str "QUIT" then
    if ¬ command.token.truthy then send (.error command "not joined yet") (some gen)
    else do
      protCall (.quit command.token)
      send (.done command none) (some gen)
  else if command.protType ∈ clientServices then executeAccept json command gen
  else do
    let prot_type ← formatted (json.str command.protType)
    send (.error command s!"unknown prot_type: {prot_type}") (some gen)

/-- `cmd_execute` -/
def cmdExecute (command : Command) (gen : Nat) : Proc Unit :=
  inSlot command gen (executeBody json command gen)

/-- The part of `cmd_sync` that runs in the slot. -/
def syncBody (command : Command) (gen : Nat) : Proc Unit := do
  protCall .sync
  send (.done command none) (some gen)

/-- `cmd_sync` -/
def cmdSync (command : Command) (gen : Nat) : Proc Unit :=
  inSlot command gen (syncBody command gen)

/-- The handler of a command. -/
def method (command : Command) (gen : Nat) : Proc Unit :=
  if command.name = "RESERVE" then cmdReserve json command gen
  else if command.name = "EXECUTE" then cmdExecute json command gen
  else cmdSync command gen

/-- `value[:8]`: only a text and a list can be cut. -/
def sliced : PyJson -> Option PyJson
  | .str text => some (.str (String.ofList (text.toList.take 8)))
  | .list elements => some (.list (elements.take 8))
  | _ => none

/-- What `_run_cmd` writes to the log about a command. -/
def who (command : Command) : Option String := do
  let request_id ← json.str command.requestId
  let user ← if command.userId.truthy then do
      let short ← json.str (← sliced command.userId)
      pure s!" user={short}"
    else pure ""
  let prot ← if command.protType.truthy then do
      let prot_type ← json.str command.protType
      pure s!" prot={prot_type}"
    else pure ""
  return s!"rid={request_id}" ++ user ++ prot

/-- `_run_cmd`.  A worker that cannot name its user ends before its first line in
the log. -/
def runCmd (command : Command) (gen : Nat) : Proc Unit := do
  match who json command with
  | none => raise ⟨.other, "user_id[:8]"⟩
  | some _ => do
      give (.log .begin command)
      match ← attempt (method json command gen) with
      | .ok _ => give (.log .done command)
      | .error _ => give (.log .fail command)

/-! ## Network -/

/-- `_dispatch` -/
def dispatch (msg : PyJson) : Proc Unit := do
  match read json msg with
  | .error error => raise error
  | .ok (.unknown reply) => send reply none
  | .ok (.handled command) => do
      let gen ← give .generation
      send (.ready command) none
      let _ ← give (.spawn (.worker command gen))

/-- Dispatch the values of a list. -/
def dispatchEach : List PyJson -> Proc Unit
  | [] => pure ()
  | msg :: rest => do
      dispatch json msg
      dispatchEach rest

/-- A round of `_recv_loop`: what is left in the buffer, or nothing when the
Manager has closed the connection. -/
def receiveRound (buf : Bytes) : Proc (Option Bytes) := do
  match ← give .conn with
  | none => raise attributeError
  | some conn => do
      let chunk ← give (.recv conn)
      if chunk = [] then pure none
      else if (buf ++ chunk).length > maxFrameBytes then
        raise ⟨.os, "frame too large"⟩
      else do
        dispatchEach json (takeFrames json (buf ++ chunk)).1
        match (takeFrames json (buf ++ chunk)).2 with
        | none => raise ⟨.other, "frame"⟩
        | some left => pure (some left)

/-- `_recv_loop`; behind it the accept loop goes on, whatever has happened. -/
def receive (buf : Bytes) : Proc Unit := do
  match ← attempt (receiveRound json buf) with
  | .ok (some left) => do
      let _ ← give (.proceed (.receive left))
  | _ => do
      let _ ← give (.proceed .serve)

/-- Close the sockets of a list. -/
def closeEach : List Entry -> Proc Unit
  | [] => pure ()
  | entry :: rest => do
      passing (give (.close entry.2))
      closeEach rest

/-- A round of the accept loop of `run`, up to the receive loop. -/
def serve : Proc Unit := do
  give .accept
  let generation ← give .generation
  give (.setGeneration (generation + 1))
  withLock .reserved do
    let entries ← give .allReserved
    closeEach entries
    give .clearReserved
  let _ ← give (.proceed (.receive []))

/-- `run` up to the accept loop. -/
def start : Proc Unit := do
  give .prepare
  let _ ← give (.proceed .serve)

/-- The program of a thread. -/
def program : Task -> Proc Unit
  | .start => start
  | .serve => serve
  | .receive buf => receive json buf
  | .worker command gen => runCmd json command gen

/-- The Agent. -/
def agent : System interface PyError State Task Choice where
  perform := perform
  program := program json
  arrives _ _ := false
  restart _ := .fresh
  main := .start

/-- An Agent that is started for the first time. -/
def initial : Config interface PyError State := .boot (agent json) .fresh

end

end Agent
end Mpmt
