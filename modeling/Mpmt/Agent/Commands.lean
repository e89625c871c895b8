import Mpmt.PyJson

/-!
# Commands of the Manager and answers of the Agent

What `_dispatch` reads of a JSON value, what it raises on and what it answers.
The JSON library and `str` are parameters.
-/

namespace Mpmt
namespace Agent

/-- What travels on a connection. -/
abbrev Bytes := List UInt8

/-- Exceptions, by the kinds that the Agent tells apart. -/
inductive ErrorKind
  | timeout
  | os
  | other
  deriving DecidableEq, Repr

/-- An exception and its text. -/
structure PyError where
  kind : ErrorKind
  text : String
  deriving DecidableEq, Repr

/-- `except OSError`; a timeout is one. -/
def PyError.isOsError (error : PyError) : Bool := error.kind ≠ .other

/-- Why `json.loads` gives no value. -/
inductive LoadsError
  | jsonDecode
  | other
  deriving DecidableEq, Repr

/-- What the Agent uses of the JSON library and of `str`. -/
structure Json where
  /-- `json.loads` -/
  loads : Bytes -> Except LoadsError PyJson
  /-- Whether `json.dumps` has a text for a message with this value: a value that
  is nested too deeply has none. -/
  dumps : PyJson -> Bool
  /-- `str`, unless the value is nested too deeply. -/
  str : PyJson -> Option String

/-- A command that has a handler; a field that is missing is an empty string. -/
structure Command where
  name : String
  userId : PyJson
  protType : PyJson
  requestId : PyJson
  token : PyJson
  deriving DecidableEq, Repr

/-- What the Agent tells the Manager; a field that is missing is `none`. -/
structure Msg where
  event : String
  userId : PyJson
  requestId : PyJson
  port : Option Nat
  agentToken : Option String
  msg : Option String
  deriving DecidableEq, Repr

/-! ## Messages -/

/-- A message about a command, with nothing but its event. -/
def Msg.of (event : String) (command : Command) : Msg where
  event := event
  userId := command.userId
  requestId := command.requestId
  port := none
  agentToken := none
  msg := none

def Msg.ready (command : Command) : Msg := .of "READY" command

def Msg.reserved (command : Command) (port : Nat) : Msg :=
  { Msg.of "RESERVED" command with port := some port }

def Msg.done (command : Command) (agentToken : Option String) : Msg :=
  { Msg.of "DONE" command with agentToken := agentToken }

def Msg.error (command : Command) (text : String) : Msg :=
  { Msg.of "ERROR" command with msg := some text }

def Msg.busy (command : Command) : Msg :=
  .error command "agent busy (previous operation still running)"

/-! ## Reading a value -/

/-- The names of `_INSTRUCTIONS`. -/
def instructions : List String := ["RESERVE", "EXECUTE", "SYNC"]

/-- What `_dispatch` reads: a command with a handler, or the answer to another
one. -/
inductive Reading
  | handled (command : Command)
  | unknown (reply : Msg)

/-- `cmd.get(name, "")` -/
def getField (cmd : Dict String PyJson) (name : String) : PyJson :=
  (cmd.get? name).getD (.str "")

/-- `_INSTRUCTIONS.get(name)`: lists and dictionaries have no hash. -/
def lookup (name : PyJson) : Except PyError (Option String) :=
  match name with
  | .list _ => .error ⟨.other, "unhashable type: 'list'"⟩
  | .dict _ => .error ⟨.other, "unhashable type: 'dict'"⟩
  | .str text => .ok (if text ∈ instructions then some text else none)
  | _ => .ok none

/-- An exception for a value that is nested too deeply. -/
def recursionError : PyError := ⟨.other, "maximum recursion depth exceeded"⟩

variable (json : Json)

/-- `_dispatch` up to its answer. -/
def readCommand (msg : PyJson) : Except PyError Reading :=
  match msg with
  | .dict fields => do
      let cmd := pyDict fields
      let name := getField cmd "cmd"
      let command := fun (known : String) => {
        name := known
        userId := getField cmd "user_id"
        protType := getField cmd "prot_type"
        requestId := getField cmd "request_id"
        token := getField cmd "token" : Command }
      match ← lookup name with
      | some known => return .handled (command known)
      | none =>
          match json.str name with
          | some text => return .unknown (.error (command "") s!"unknown cmd: {text}")
          | none => throw recursionError
  | _ => .error ⟨.other, "object has no attribute 'get'"⟩

def Reading.answer : Reading -> Msg
  | .handled command => .ready command
  | .unknown reply => reply

/-- `_dispatch` with its answer, which `json.dumps` may refuse.  It refuses none
of the later answers to the same command: they have the same two values of the
command, and how deep the stack is that the call stands on is left out. -/
def read (msg : PyJson) : Except PyError Reading :=
  match readCommand json msg with
  | .error error => .error error
  | .ok reading =>
      if json.dumps reading.answer.userId ∧ json.dumps reading.answer.requestId then
        .ok reading
      else .error recursionError

/-- Whether `_dispatch` returns. -/
def readable (msg : PyJson) : Bool := (read json msg).isOk

/-- The command that is handed to a worker. -/
def known (msg : PyJson) : Option Command :=
  match read json msg with
  | .ok (.handled command) => some command
  | _ => none

/-- What is answered at once. -/
def greeting (msg : PyJson) : Option Msg :=
  match read json msg with
  | .ok reading => some reading.answer
  | .error _ => none

variable {json : Json} {msg : PyJson} {command : Command}

theorem readCommand_of_read {reading : Reading} (isRead : read json msg = .ok reading) :
    readCommand json msg = .ok reading := by
  unfold read at isRead
  cases first : readCommand json msg with
  | error => simp [first] at isRead
  | ok =>
      simp only [first] at isRead
      split at isRead
      · exact isRead
      · cases isRead

theorem mem_of_lookup {name : PyJson} {text : String} (found : lookup name = .ok (some text)) :
    text ∈ instructions := by
  unfold lookup at found
  split at found
  all_goals simp at found
  obtain ⟨member, rfl⟩ := found
  exact member

/-- A command that is handed to a worker has a handler. -/
theorem name_mem_of_known (isKnown : known json msg = some command) :
    command.name ∈ instructions := by
  have isRead : read json msg = .ok (.handled command) := by
    unfold known at isKnown
    split at isKnown
    · next isRead => rw [isRead, Option.some.inj isKnown]
    · cases isKnown
  have handled := readCommand_of_read isRead
  cases msg with
  | dict fields =>
      rw [readCommand] at handled
      cases found : lookup (getField (pyDict fields) "cmd") with
      | error =>
          rw [found] at handled
          cases handled
      | ok name =>
          rw [found] at handled
          cases name with
          | some name =>
              cases handled
              exact mem_of_lookup found
          | none =>
              cases named : json.str (getField (pyDict fields) "cmd") with
              | some | none =>
                  simp only [named] at handled
                  cases handled
  | _ => cases handled

end Agent
end Mpmt
