import Mpmt.Agent.Panel

/-!
# Runs of the Agent

Whatever the Manager, the clients and the network do, and in whatever order the
threads run: the protocol instance serves one call at a time, a worker answers
its command once and gives the slot back, and the commands of a connection are
handed over in their order.
-/

namespace Mpmt
namespace Agent

open Effects Threads Contract

variable {json : Json} {trace past future : List Instant} {moment : Instant}
  {c : Config interface PyError State} {s s' : State} {tid : Nat}

/-! ## The contract in a run -/

theorem good_of_run
    (run : Run (agent json) (initial json) trace c) :
    (agentContract json).Good c (thisProcess trace) := by
  have good : (agentContract json).Good (initial json) [] :=
    .boot agent_verified sound_fresh ⟨rfl, rfl⟩ unborn_fresh
  have kept : ∀ (trace : List Instant) (label : Label interface PyError Task) (x x' : World),
      (agentContract json).Link label x x' -> x.2 = thisProcess trace ->
        x'.2 = thisProcess (trace ++ [⟨x.1, label, x'.1⟩]) := by
    intro trace label x x' link holds
    rw [thisProcess_snoc, ← holds]
    cases label with
    | did event =>
        have within : Within json event x x' := link
        exact within.history
    | arrived task => exact congrArg Prod.snd link
    | restarted => exact congrArg Prod.snd link
  obtain ⟨history, good', same⟩ := good.run_keeps (φ := fun trace x => x.2 = thisProcess trace)
    agent_verified rfl (fun trace label x x' _ _ => kept trace label x x') run
  exact same ▸ good'

theorem sound_of_run
    (run : Run (agent json) (initial json) trace c) :
    Sound json (c.state, thisProcess trace) :=
  (good_of_run run).inv

/-- Every step of a run is within the contract. -/
theorem within_of_run
    {event : Event interface PyError}
    (run : Run (agent json) (initial json) (past ++ ⟨s, .did event, s'⟩ :: future) c) :
    Sound json (s, thisProcess past) ∧
      Within json event (s, thisProcess past)
        (s', thisProcess past ++ [⟨s, .did event, s'⟩]) := by
  obtain ⟨c₁, label, c₂, first, step, same, _⟩ := run.split
  cases same
  have good := good_of_run first
  obtain ⟨history, _, link⟩ := good.step agent_verified step
  have within : Within json event (c₁.state, thisProcess past) (c₂.state, history) := link
  have behind : history = thisProcess past ++ [⟨c₁.state, .did event, c₂.state⟩] :=
    within.history
  rw [behind] at within
  exact ⟨good.inv, within⟩

/-- What holds at each step of a thread, with what its process has done before. -/
def EachStep (P : World -> Event interface PyError -> Prop) (trace : List Instant) : Prop :=
  ∀ past s event s' future, trace = past ++ ⟨s, .did event, s'⟩ :: future ->
    P (s, thisProcess past) event

theorem each_step
    {P : World -> Event interface PyError -> Prop}
    (kept : ∀ x event x', Sound json x -> Within json event x x' -> P x event)
    (run : Run (agent json) (initial json) trace c) : EachStep P trace := by
  intro past s event s' future whole
  rw [whole] at run
  obtain ⟨sound, within⟩ := within_of_run run
  exact kept _ event _ sound within

/-- A new Agent gets the SYNC that is the first line of its first connection, and
carries it out. -/
def sampleLine : Bytes := [123, 34, 99, 109, 100, 34, 58, 34, 83, 89, 78, 67, 34, 125]

def sampleCommand : Command := ⟨"SYNC", .str "", .str "", .str "", .str ""⟩

def sampleJson : Json where
  loads line :=
    if line = sampleLine then .ok (.dict [("cmd", .str "SYNC")]) else .error .jsonDecode
  dumps _ := true
  str
    | .str text => some text
    | _ => none

def sampleActs : List (Act Task Choice) :=
  turns 0 [.go, .go] ++ turns 1 (List.replicate 8 .go) ++
    turns 2 (.go :: .hear (sampleLine ++ [newline]) :: List.replicate 8 .go) ++
    turns 3 (List.replicate 17 .go) ++ turns 4 [.go, .hear []]

def sampleSynced : List Instant × Config interface PyError State :=
  (drive (agent sampleJson) (initial sampleJson) sampleActs).get (by decide +kernel)

/-! ## The protocol instance -/

/-- A call of the protocol instance is begun by the thread in the slot while nobody
is in a call.  It is the first one of its worker, and the one that the command asks
for. -/
def Alone (x : World) (event : Event interface PyError) : Prop :=
  match event with
  | ⟨tid, .enter call, _⟩ =>
      x.1.execThread = some tid ∧ x.1.inside = [] ∧
        (∀ event ∈ own tid x.2, enters event = false) ∧
        ∃ command gen, Working tid command gen x.2 ∧ asked command = some call
  | _ => True

/-- The calls of the protocol instance never overlap: at most one thread is in a
call, it has the slot, and a call begins when no other one is going on. -/
theorem exclusive
    (json : Json)
    (run : Run (agent json) (initial json) trace c) :
    c.state.inside.length ≤ 1 ∧ (∀ tid ∈ c.state.inside, c.state.execThread = some tid) ∧
      EachStep Alone trace := by
  have sound := sound_of_run run
  refine ⟨?_, sound.inside, each_step (fun x event x' _ within => ?_) run⟩
  · have seated := sound.inside
    have once := sound.once
    match inside : c.state.inside with
    | [] => exact Nat.zero_le _
    | [_] => exact Nat.le_refl _
    | first :: second :: rest =>
        simp only [inside] at seated once
        have mine := seated first List.mem_cons_self
        have other := seated second (List.mem_cons_of_mem _ List.mem_cons_self)
        have same : first = second := Option.some.inj (mine.symm.trans other)
        exact absurd (same ▸ List.mem_cons_self) (List.nodup_cons.mp once).1
  · obtain ⟨tid, cmd, reply⟩ := event
    cases cmd with
    | enter call => exact within.duty
    | _ => trivial

theorem exclusive_synced :
    (own 3 sampleSynced.1).any enters = true ∧ sampleSynced.2.state.inside.length ≤ 1 ∧
      EachStep Alone sampleSynced.1 := by
  obtain ⟨one, _, alone⟩ := exclusive sampleJson (.driven _ : Run (agent sampleJson)
    (initial sampleJson) sampleSynced.1 sampleSynced.2)
  exact ⟨by decide +kernel, one, alone⟩

/-! ## Messages -/

/-- A message goes to the connection where its command was heard: a greeting, which
the thread with the connection writes, and an answer of a worker, unless the
connection has been changed without the number of the session since the worker
began to write. -/
def Routed (json : Json) (x : World) (event : Event interface PyError) : Prop :=
  match event with
  | ⟨tid, .sendall conn msg, _⟩ =>
      Greets json tid conn msg x.2 ∨ ∃ command gen, Working tid command gen x.2 ∧
        (∃ value ∈ heard json gen x.2, known json value = some command) ∧
        (gen = conn ∨ Straddled tid x.2)
  | _ => True

/-- A message that is not a greeting is the one answer of a worker.  It tells what
the worker has done, and a protocol is answered from its slot, unless it is refused
because another worker has the slot. -/
def Accounted (json : Json) (x : World) (event : Event interface PyError) : Prop :=
  match event with
  | ⟨tid, .sendall _ msg, _⟩ =>
      tid ≠ panel x.2 -> ∃ command gen, Working tid command gen x.2 ∧
        (∀ event ∈ own tid x.2, sends event = false) ∧
        Answer json tid command (own tid x.2) msg ∧
        (command.name = "RESERVE" ∨ x.1.execThread = some tid ∨
          msg = .busy command ∧ ∃ other, other ≠ tid ∧ x.1.execThread = some other)
  | _ => True

theorem routed
    (json : Json)
    (run : Run (agent json) (initial json) trace c) : EachStep (Routed json) trace := by
  refine each_step (fun x event x' sound within => ?_) run
  obtain ⟨tid, cmd, reply⟩ := event
  cases cmd with
  | sendall conn msg =>
      refine within.duty.imp_right fun ⟨command, gen, speaks⟩ => ?_
      exact ⟨command, gen, speaks.working, command_of_working sound speaks.working,
        speaks.here⟩
  | _ => trivial

theorem routed_synced :
    (own 3 sampleSynced.1).any sends = true ∧ EachStep (Routed sampleJson) sampleSynced.1 :=
  ⟨by decide +kernel, routed sampleJson (.driven _)⟩

/-- A message on the connection `conn` answers a command that was received there:
it greets it, or it is the answer of the worker that was started for it there. -/
def Answers (json : Json) (tid conn : Nat) (msg : Msg) (history : List Instant) : Prop :=
  ∃ value ∈ heard json conn history, greeting json value = some msg ∨
    ∃ command, known json value = some command ∧ Working tid command conn history ∧
      Answer json tid command (own tid history) msg

/-- What is written to a connection answers a command of that connection. -/
def Faithful (json : Json) (x : World) (event : Event interface PyError) : Prop :=
  match event with
  | ⟨tid, .sendall conn msg, _⟩ => Answers json tid conn msg x.2
  | _ => True

/-- Who writes a message has not held the send lock while the accept loop had set
the next connection and not yet counted its session. -/
def Undisturbed (x : World) (event : Event interface PyError) : Prop :=
  match event with
  | ⟨tid, .sendall _ _, _⟩ => ¬ Straddled tid x.2
  | _ => True

/-- In a run in which no thread writes across a change of the connection, every
message answers a command that was received on the connection to which it goes, and
nothing is written by a worker of an earlier one. -/
theorem faithful_of_undisturbed
    (json : Json)
    (run : Run (agent json) (initial json) trace c)
    (undisturbed : EachStep Undisturbed trace) : EachStep (Faithful json) trace := by
  intro past s event s' future whole
  have apart := undisturbed past s event s' future whole
  obtain ⟨sound, within⟩ := within_of_run (whole ▸ run)
  obtain ⟨tid, cmd, reply⟩ := event
  cases cmd with
  | sendall conn msg =>
      rcases within.duty with ⟨_, value, received, greets⟩ | ⟨command, gen, spoken⟩
      · exact ⟨value, received, .inl greets⟩
      · obtain rfl : gen = conn := spoken.here.resolve_right apart
        obtain ⟨value, received, isKnown⟩ := command_of_working sound spoken.working
        exact ⟨value, received, .inr ⟨command, isKnown, spoken.working, spoken.answer⟩⟩
  | _ => trivial

/-- When the send lock is free whenever the accept loop has not counted the session
of the connection, nothing is written across a change. -/
theorem undisturbed_of_calm
    (calm : ∀ moment ∈ trace, moment.after.sendLock = none ∨
      moment.after.conn = some moment.after.generation) : EachStep Undisturbed trace := by
  intro past s event s' future whole
  obtain ⟨tid, cmd, reply⟩ := event
  cases cmd with
  | sendall conn msg =>
      rintro ⟨before, moment, since, split, switching, held⟩
      have member : moment ∈ thisProcess past := by
        rw [show thisProcess past = before ++ moment :: since from split]
        exact List.mem_append_right _ List.mem_cons_self
      have there : moment ∈ trace := by
        rw [whole]
        exact List.mem_append_left _ (mem_of_mem_thisProcess member)
      rcases calm moment there with free | same
      · rw [held moment List.mem_cons_self] at free
        cases free
      · exact switching same
  | _ => trivial

theorem faithful_of_undisturbed_synced :
    (own 3 sampleSynced.1).any sends = true ∧ EachStep (Faithful sampleJson) sampleSynced.1 :=
  ⟨by decide +kernel, faithful_of_undisturbed sampleJson (.driven _)
    (undisturbed_of_calm (by decide +kernel))⟩

/-- The moment is a message on the connection. -/
def writesTo (conn : Nat) (moment : Instant) : Bool :=
  match moment.label with
  | .did ⟨_, .sendall conn' _, _⟩ => conn' == conn
  | _ => false

theorem did_of_writesTo
    (writes : writesTo conn moment = true) :
    ∃ tid msg reply, moment.label = .did ⟨tid, .sendall conn msg, reply⟩ := by
  unfold writesTo at writes
  split at writes
  · next tid conn' msg reply label => exact ⟨tid, msg, reply, beq_iff_eq.mp writes ▸ label⟩
  · cases writes

/-- The worker has checked the session and has not yet looked for the connection
when the Manager connects again. -/
def sampleStale : List Instant × Config interface PyError State :=
  (drive (agent sampleJson) (initial sampleJson)
    (turns 0 [.go, .go] ++ turns 1 (List.replicate 8 .go) ++
      turns 2 (.go :: .hear (sampleLine ++ [newline]) :: List.replicate 8 .go) ++
      turns 3 (List.replicate 10 .go) ++ turns 4 [.go, .hear [], .go] ++ turns 5 [.go] ++
      turns 3 [.go, .go])).get (by decide +kernel)

/-- Its answer goes to the new connection, on which nothing has been received. -/
theorem not_faithful_stale :
    Run (agent sampleJson) (initial sampleJson) sampleStale.1 sampleStale.2 ∧
      ¬ EachStep (Faithful sampleJson) sampleStale.1 := by
  refine ⟨.driven _, fun faithful => ?_⟩
  have last : sampleStale.1.getLast?.any (writesTo 2) = true := by decide +kernel
  have silent : heard sampleJson 2 (thisProcess sampleStale.1.dropLast) = [] := by
    decide +kernel
  obtain ⟨⟨s, label, s'⟩, isLast, writes⟩ := (Option.any_eq_true _ _).mp last
  obtain ⟨tid, msg, reply, rfl⟩ := did_of_writesTo writes
  obtain ⟨value, received, _⟩ := faithful sampleStale.1.dropLast s _ s' []
    (List.dropLast_append_getLast? _ isLast).symm
  rw [silent] at received
  cases received

theorem accounted
    (json : Json)
    (run : Run (agent json) (initial json) trace c) : EachStep (Accounted json) trace := by
  refine each_step (fun x event x' sound within => ?_) run
  obtain ⟨tid, cmd, reply⟩ := event
  cases cmd with
  | sendall conn msg =>
      intro worker
      rcases within.duty with greets | ⟨command, gen, speaks⟩
      · exact absurd greets.1 worker
      · exact ⟨command, gen, speaks.working, speaks.first, speaks.answer, speaks.slot⟩
  | _ => trivial

theorem accounted_synced :
    (own 3 sampleSynced.1).any sends = true ∧ EachStep (Accounted sampleJson) sampleSynced.1 :=
  ⟨by decide +kernel, accounted sampleJson (.driven _)⟩

/-! ## Commands -/

/-- When a connection is read, every command that was framed there and has a handler
has got its worker. -/
def CaughtUp (json : Json) (x : World) (event : Event interface PyError) : Prop :=
  match event with
  | ⟨_, .recv conn, _⟩ => workers conn x.2 = (heard json conn x.2).filterMap (known json)
  | _ => True

/-- The commands of a connection get their workers in the order in which they are
framed, none twice, and none is left out when the connection is read again. -/
theorem in_order
    (json : Json)
    (run : Run (agent json) (initial json) trace c) :
    (∀ conn, workers conn (thisProcess trace) <+:
      (heard json conn (thisProcess trace)).filterMap (known json)) ∧
      EachStep (CaughtUp json) trace := by
  refine ⟨(sound_of_run run).inOrder, each_step (fun x event x' _ within => ?_) run⟩
  obtain ⟨tid, cmd, reply⟩ := event
  cases cmd with
  | recv conn => exact within.duty
  | _ => trivial

theorem in_order_synced :
    workers 1 (thisProcess sampleSynced.1) = [sampleCommand] ∧
      EachStep (CaughtUp sampleJson) sampleSynced.1 :=
  ⟨by decide +kernel, (in_order sampleJson (.driven _ : Run (agent sampleJson)
    (initial sampleJson) sampleSynced.1 sampleSynced.2)).2⟩

/-! ## The end of a worker -/

/-- The event is the last one of a worker. -/
def ends (event : Event interface PyError) : Bool :=
  match event.cmd with
  | .log .done _ | .log .fail _ => true
  | _ => false

/-- A worker that comes to its end is out of the slot, and has answered its command or
has seen that its session is over. -/
def Concluded (x : World) (event : Event interface PyError) : Prop :=
  ends event = true -> x.1.execThread ≠ some event.tid ∧
    ∃ command gen, Working event.tid command gen x.2 ∧ Answered event.tid gen x.2

theorem concluded
    (json : Json)
    (run : Run (agent json) (initial json) trace c) : EachStep Concluded trace := by
  refine each_step (fun x event x' _ within ended => ?_) run
  obtain ⟨tid, cmd, reply⟩ := event
  cases cmd with
  | log stage command =>
      refine within.duty fun same => ?_
      rw [same] at ended
      cases ended
  | _ => cases ended

theorem concluded_synced :
    (own 3 sampleSynced.1).any ends = true ∧ EachStep Concluded sampleSynced.1 :=
  ⟨by decide +kernel, concluded sampleJson (.driven _)⟩

end Agent
end Mpmt
