import Mpmt.Agent.Server

/-!
# The history of an Agent

What the threads of a process have done so far tells which of them is the one
with the connection, what it has read there, which workers it has started and
what each worker has done.
-/

namespace Mpmt
namespace Agent

open Effects Threads

/-- A step with the states around it. -/
abbrev Instant := Moment interface PyError State Task

/-- A history with one more moment: a new process has none, and only what the
threads do is kept. -/
def remember (history : List Instant) (moment : Instant) : List Instant :=
  match moment.label with
  | .did _ => history ++ [moment]
  | .arrived _ => history
  | .restarted => []

/-- What the threads have done since the last start of the process. -/
def thisProcess (trace : List Instant) : List Instant := trace.foldl remember []

theorem thisProcess_snoc (trace : List Instant) (moment : Instant) :
    thisProcess (trace ++ [moment]) = remember (thisProcess trace) moment := by
  rw [thisProcess, List.foldl_append]
  rfl

/-- A process remembers nothing that has not happened. -/
theorem mem_of_mem_foldl
    {history trace : List Instant}
    {moment : Instant}
    (member : moment ∈ trace.foldl remember history) : moment ∈ history ∨ moment ∈ trace := by
  induction trace generalizing history with
  | nil => exact .inl member
  | cons first rest inductionHypothesis =>
      rcases inductionHypothesis member with before | later
      · unfold remember at before
        split at before
        · rcases List.mem_append.mp before with old | new
          · exact .inl old
          · exact .inr (List.mem_singleton.mp new ▸ List.mem_cons_self)
        · exact .inl before
        · cases before
      · exact .inr (List.mem_cons_of_mem _ later)

theorem mem_of_mem_thisProcess
    {trace : List Instant}
    {moment : Instant}
    (member : moment ∈ thisProcess trace) : moment ∈ trace :=
  (mem_of_mem_foldl member).resolve_left List.not_mem_nil

/-! ## The thread with the connection -/

/-- The round of a loop that follows. -/
def nextRound (tid : Nat) (moment : Instant) : Nat :=
  match moment.label with
  | .did ⟨_, .proceed _, .ok tid'⟩ => tid'
  | _ => tid

/-- The thread that runs the accept loop and the receive loop. -/
def panel (history : List Instant) : Nat := history.foldl nextRound 0

/-- An empty chunk is the end of the connection. -/
def nonempty (chunk : Bytes) : Option Bytes := if chunk = [] then none else some chunk

/-- What a moment brings from a connection. -/
def chunkOf (conn : Nat) (moment : Instant) : Option Bytes :=
  match moment.label with
  | .did ⟨_, .recv conn', .ok chunk⟩ => if conn' = conn then nonempty chunk else none
  | _ => none

/-- What has been read of a connection. -/
def received (conn : Nat) (history : List Instant) : List Bytes :=
  history.filterMap (chunkOf conn)

/-- The command of a worker that is started for a session. -/
def workerOf (gen : Nat) (moment : Instant) : Option Command :=
  match moment.label with
  | .did ⟨_, .spawn (.worker command gen'), .ok _⟩ => if gen' = gen then some command else none
  | _ => none

/-- The commands that a session has handed to workers. -/
def workers (gen : Nat) (history : List Instant) : List Command :=
  history.filterMap (workerOf gen)

/-- The identity of a thread that is started. -/
def startedBy (moment : Instant) : Option Nat :=
  match moment.label with
  | .did ⟨_, .spawn _, .ok tid⟩ => some tid
  | .did ⟨_, .proceed _, .ok tid⟩ => some tid
  | _ => none

/-- The identities of the threads that have been started. -/
def begun (history : List Instant) : List Nat := history.filterMap startedBy

/-- The event of a moment, if it is one of the thread. -/
def eventOf (tid : Nat) (moment : Instant) : Option (Event interface PyError) :=
  match moment.label with
  | .did event => if event.tid = tid then some event else none
  | _ => none

/-- What a thread has done. -/
def own (tid : Nat) (history : List Instant) : List (Event interface PyError) :=
  history.filterMap (eventOf tid)

section

variable {history : List Instant} {event : Event interface PyError} {s s' : State}

theorem own_mine
    (mine : event.tid = tid) :
    own tid (history ++ [⟨s, .did event, s'⟩]) = own tid history ++ [event] := by
  simp [own, eventOf, mine]

theorem own_other
    (other : event.tid ≠ tid) :
    own tid (history ++ [⟨s, .did event, s'⟩]) = own tid history := by
  simp [own, eventOf, other]

/-- An event that neither reads the connection nor starts a thread. -/
def Plain (event : Event interface PyError) : Prop :=
  match event.cmd with
  | .recv _ | .spawn _ | .proceed _ => False
  | _ => True

/-- A plain event changes nothing of what has been read and started. -/
theorem plain_snoc
    (plain : Plain event) :
    panel (history ++ [⟨s, .did event, s'⟩]) = panel history ∧
      (∀ conn, received conn (history ++ [⟨s, .did event, s'⟩]) = received conn history) ∧
      (∀ gen, workers gen (history ++ [⟨s, .did event, s'⟩]) = workers gen history) ∧
      begun (history ++ [⟨s, .did event, s'⟩]) = begun history := by
  obtain ⟨tid, cmd, reply⟩ := event
  simp only [panel, received, workers, begun, List.foldl_append, List.filterMap_append]
  cases cmd with
  | recv | spawn | proceed => cases plain
  | _ => exact ⟨rfl, fun _ => List.append_nil _, fun _ => List.append_nil _, List.append_nil _⟩

end

/-! ## Commands of a connection -/

variable (json : Json)

/-- The values that are framed by what has been read of a connection. -/
def heard (conn : Nat) (history : List Instant) : List PyJson :=
  (readChunks json [] (received conn history)).dispatched

/-- Behind these chunks the receive loop has dispatched `commands`, and `buf` is
left. -/
def Leaves (chunks : List Bytes) (commands : List PyJson) (buf : Bytes) : Prop :=
  ∀ more, readChunks json [] (chunks ++ more) = (readChunks json buf more).after commands

variable {json} {chunks : List Bytes} {commands : List PyJson} {buf : Bytes}

theorem leaves_nil : Leaves json [] [] [] := fun more => by
  rw [List.nil_append, Outcome.after_nil]

theorem Leaves.dispatched
    (leaves : Leaves json chunks commands buf) :
    (readChunks json [] chunks).dispatched = commands := by
  have whole := leaves []
  rw [List.append_nil] at whole
  rw [whole, readChunks_nil, Outcome.after, List.append_nil]

/-- One more chunk is dispatched as far as its frames go. -/
theorem Leaves.next
    (leaves : Leaves json chunks commands buf)
    (fits : ¬ (buf ++ chunk).length > maxFrameBytes) :
    (readChunks json [] (chunks ++ [chunk])).dispatched =
        commands ++ (takeFrames json (buf ++ chunk)).1 ∧
      ∀ left, (takeFrames json (buf ++ chunk)).2 = some left ->
        Leaves json (chunks ++ [chunk]) (commands ++ (takeFrames json (buf ++ chunk)).1)
          left := by
  have goes : ∀ more, readChunks json [] (chunks ++ [chunk] ++ more) =
      (readChunks json buf (chunk :: more)).after commands := fun more => by
    rw [List.append_assoc, leaves, List.singleton_append]
  have first := goes []
  rw [List.append_nil] at first
  rw [first]
  simp only [readChunks_cons, readChunks_nil, if_neg fits] at goes ⊢
  rcases split : takeFrames json (buf ++ chunk) with ⟨messages, left⟩
  simp only [split] at goes ⊢
  cases left with
  | none =>
      refine ⟨rfl, fun left rest => ?_⟩
      cases rest
  | some left =>
      refine ⟨by simp [Outcome.after], fun left' rest more => ?_⟩
      cases rest
      rw [goes, Outcome.after_after]

/-- A chunk that makes the buffer too large ends the connection. -/
theorem Leaves.over
    (leaves : Leaves json chunks commands buf)
    (large : (buf ++ chunk).length > maxFrameBytes) :
    (readChunks json [] (chunks ++ [chunk])).dispatched = commands := by
  rw [leaves, readChunks_cons, if_pos large, Outcome.after, List.append_nil]

end Agent
end Mpmt
