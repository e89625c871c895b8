import Mpmt.Manager.Preconditions

/-!
# One protocol at a time

A protocol runs from the first message that starts it at an Agent until the
thread that sent the message has written its outcome.  No other protocol is
dispatched in between, and the tables and the memory show at most one.
-/

namespace Mpmt
namespace Manager

open Effects Threads Contract

/-- How many operations are ACTIVE or BUSY and how many SYNCs run. -/
def flights (s : State) : Nat :=
  (s.db.rowsWhere fun op => op.status.running).length + if s.activeSync.isSome then 1 else 0

/-- The event tells an Agent to start a protocol. -/
def Dispatches (sync : Bool) (event : Event interface PyError) : Prop :=
  match event with
  | ⟨_, .send _ (.execute _ _ _ _), _⟩ => sync = false
  | ⟨_, .send _ (.sync _), _⟩ => sync = true
  | _ => False

/-- The thread has dispatched a protocol in this process and has not concluded
it. -/
def Underway (trace : List Instant) (sync : Bool) (tid : Nat) : Prop :=
  ∃ past moment since event, trace = past ++ moment :: since ∧
    moment.label = .did event ∧ event.tid = tid ∧ Dispatches sync event ∧
    ∀ later ∈ since, later.label ≠ .restarted ∧ ∀ event', later.label = .did event' ->
      event'.tid = tid -> ¬ Concludes sync event'

/-- Whenever a protocol was dispatched, no other one was under way. -/
def OneAtATime (trace : List Instant) : Prop :=
  ∀ past moment future, trace = past ++ moment :: future ->
    ∀ event sync, moment.label = .did event -> Dispatches sync event ->
      ∀ tid sync', Underway past sync' tid -> tid = event.tid ∧ sync' = sync

/-! ## The tables and the memory -/

/-- Of rows with distinct keys that are all the same there is at most one. -/
theorem length_le_one_of_keys
    {rows : List Row}
    (distinct : (rows.map Prod.fst).Nodup)
    (same : ∀ row ∈ rows, ∀ row' ∈ rows, row.1 = row'.1) : rows.length ≤ 1 := by
  match rows with
  | [] => exact Nat.zero_le 1
  | [row] => exact Nat.le_refl 1
  | row :: row' :: rest =>
      have equal := same row List.mem_cons_self row'
        (List.mem_cons_of_mem _ List.mem_cons_self)
      rw [List.map_cons, List.map_cons, equal] at distinct
      exact absurd List.mem_cons_self (List.nodup_cons.mp distinct).1

theorem Sound.flights_le_one
    {x : World}
    (sound : Sound x) : flights x.1 ≤ 1 := by
  have runs : ∀ row ∈ x.1.db.rowsWhere fun op => op.status.running, x.1.db.Runs row.1 := by
    intro row member
    obtain ⟨found, running⟩ := Db.mem_rowsWhere_of_face member
    exact ⟨row.2.face, found, running⟩
  unfold flights
  split
  · next sync =>
      have nothing : (x.1.db.rowsWhere fun op => op.status.running) = [] :=
        List.eq_nil_iff_forall_not_mem.mpr fun row member =>
          sound.apart sync row.1 (runs row member)
      rw [nothing]
      exact Nat.le_refl 1
  · exact length_le_one_of_keys (Db.nodup_rowsWhere _ _) fun row member row' member' =>
      sound.single row.1 row'.1 (runs row member) (runs row' member')

/-! ## The runs -/

/-- What is under way is carried by the owner. -/
structure Alone (trace : List Instant) (x : World) : Prop where
  alone : OneAtATime trace
  carried : ∀ sync tid, Underway trace sync tid ->
    x.2.owner = some tid ∧ x.2.sent = true ∧ x.1.activeSync.isSome = sync

/-- What is under way behind one more moment was so before it, or has just been
dispatched. -/
theorem underway_snoc
    {trace : List Instant}
    {moment : Instant}
    (underway : Underway (trace ++ [moment]) sync tid) :
    (∃ event, moment.label = .did event ∧ event.tid = tid ∧ Dispatches sync event) ∨
      Underway trace sync tid ∧ moment.label ≠ .restarted ∧
        ∀ event, moment.label = .did event -> event.tid = tid -> ¬ Concludes sync event := by
  obtain ⟨past, first, since, event, split, label, mine, dispatches, open'⟩ := underway
  rcases split_snoc split with ⟨_, rfl, _⟩ | ⟨since', before, rfl⟩
  · exact .inl ⟨event, label, mine, dispatches⟩
  · obtain ⟨stays, going⟩ := open' moment (List.mem_append_right _ List.mem_cons_self)
    exact .inr ⟨⟨past, first, since', event, before, label, mine, dispatches,
      fun later member => open' later (List.mem_append_left _ member)⟩, stays, going⟩

/-- The duty of a thread that dispatches. -/
theorem duty_of_dispatches
    {event : Event interface PyError}
    {x x' : World}
    (within : Within event x x')
    (sound : Sound x)
    (dispatches : Dispatches sync event) :
    x.2.owner = some event.tid ∧ x' = (x.1, { x.2 with sent := true }) ∧
      x.1.activeSync.isSome = sync := by
  have duty := within.marks.duty
  obtain ⟨tid, cmd, reply⟩ := event
  cases cmd with
  | send role message =>
      cases message with
      | reserve => cases dispatches
      | execute requestId userId protType token =>
          have business : sync = false := dispatches
          obtain ⟨owner, sent, _, ⟨opId, busy⟩, _⟩ := duty
          refine ⟨owner, sent, ?_⟩
          rw [business, Bool.eq_false_iff]
          exact fun running => sound.apart running opId (Db.Busy.runs ⟨_, busy, rfl⟩)
      | sync requestId =>
          have merging : sync = true := dispatches
          obtain ⟨owner, sent, _, running⟩ := duty
          exact ⟨owner, sent, running.trans merging.symm⟩
  | _ => cases dispatches

theorem clear_of_dispatches
    {event : Event interface PyError}
    {x x' : World}
    (within : Within event x x')
    (dispatches : Dispatches sync event) : x.1.taskCracked = false := by
  have duty := within.marks.duty
  obtain ⟨tid, cmd, reply⟩ := event
  cases cmd with
  | send role message =>
      cases message with
      | reserve => cases dispatches
      | execute => exact duty.2.2.1
      | sync => exact duty.2.2.1
  | _ => cases dispatches

theorem Alone.did
    {trace : List Instant}
    {event : Event interface PyError}
    {x x' : World}
    (alone : Alone trace x)
    (sound : Sound x)
    (within : Within event x x') : Alone (trace ++ [⟨x.1, .did event, x'.1⟩]) x' where
  alone := by
    intro past moment future split event' sync' label dispatches tid sync underway
    rcases split_snoc split with ⟨rfl, rfl, _⟩ | ⟨future', before, _⟩
    · cases label
      obtain ⟨owner, _, running⟩ := duty_of_dispatches within sound dispatches
      obtain ⟨carried, _, running'⟩ := alone.carried sync tid underway
      exact ⟨held_by_one owner carried, running'.symm.trans running⟩
    · exact alone.alone past moment future' before event' sync' label dispatches tid sync
        underway
  carried := by
    intro sync tid underway
    rcases underway_snoc underway with ⟨event', label, mine, dispatches⟩ | ⟨before, _, going⟩
    · cases label
      obtain ⟨owner, same, running⟩ := duty_of_dispatches within sound dispatches
      rw [same]
      exact ⟨mine ▸ owner, rfl, running⟩
    · obtain ⟨owner, sent, running⟩ := alone.carried sync tid before
      rcases within.marks.concludes tid owner sent with ⟨owner', sent', same⟩ | ⟨mine, concludes⟩
      · exact ⟨owner', sent', same.trans running⟩
      · rw [running] at concludes
        exact absurd concludes (going event rfl mine)

/-- A moment in which no command is given. -/
theorem OneAtATime.snoc
    {trace : List Instant}
    {moment : Instant}
    (out : OneAtATime trace)
    (idle : ∀ event, moment.label ≠ .did event) : OneAtATime (trace ++ [moment]) := by
  intro past moment' future split event sync label
  rcases split_snoc split with ⟨_, rfl, _⟩ | ⟨future', before, _⟩
  · exact absurd label (idle event)
  · exact out past moment' future' before event sync label

theorem alone_of_run
    {trace : List Instant}
    {c : Config interface PyError State}
    (run : Run (manager cfg) (initial cfg) trace c) :
    ∃ ghost, (serverContract cfg).Good c ghost ∧ Alone trace (c.state, ghost) := by
  refine server_keeps ⟨fun past _ _ split => absurd split (by simp),
    fun _ _ ⟨past, _, _, _, split, _⟩ => absurd split (by simp)⟩
    (fun trace event x x' sound within alone => alone.did sound within) ?_ ?_ run
  · intro trace task x sound alone
    refine ⟨alone.alone.snoc fun _ label => ?_, fun sync tid underway => ?_⟩
    · cases label
    · rcases underway_snoc underway with ⟨event, label, _⟩ | ⟨before, _⟩
      · cases label
      · exact alone.carried sync tid before
  · intro trace x sound alone
    refine ⟨alone.alone.snoc fun _ label => ?_, fun sync tid underway => ?_⟩
    · cases label
    · rcases underway_snoc underway with ⟨event, label, _⟩ | ⟨_, stays, _⟩
      · cases label
      · exact absurd rfl stays

/-- In every run at most one operation is ACTIVE or BUSY or one SYNC runs, and a
protocol is dispatched only when the process has concluded those that it
dispatched before. -/
theorem single_flight
    {trace : List Instant}
    {c : Config interface PyError State}
    (cfg : Settings)
    (run : Run (manager cfg) (initial cfg) trace c) :
    flights c.state ≤ 1 ∧ OneAtATime trace := by
  obtain ⟨ghost, good, alone⟩ := alone_of_run run
  exact ⟨Sound.flights_le_one good.inv, alone.alone⟩

theorem single_flight_two :
    flights sampleDriven.2.state ≤ 1 ∧ OneAtATime sampleDriven.1 :=
  single_flight sampleSettings (.driven _)

/-- When a protocol is dispatched, it is the one in flight: the business operation
is BUSY, and the SYNC is the active one. -/
def Flies (moment : Instant) : Prop :=
  ∀ event sync, moment.label = .did event -> Dispatches sync event ->
    flights moment.before = 1 ∧ moment.before.activeSync.isSome = sync

theorem flies_did
    {event : Event interface PyError}
    {x x' : World}
    (sound : Sound x)
    (within : Within event x x') : Flies ⟨x.1, .did event, x'.1⟩ := by
  intro event' sync label dispatches
  cases label
  obtain ⟨owner, _, running⟩ := duty_of_dispatches within sound dispatches
  refine ⟨Nat.le_antisymm sound.flights_le_one ?_, running⟩
  show 1 ≤ flights x.1
  unfold flights
  rcases sound.carried event.tid owner with merging | ⟨opId, face, found, busy⟩
  · rw [if_pos merging]
    exact Nat.le_add_left 1 _
  · rw [Db.faceOf, Option.map_eq_some_iff] at found
    obtain ⟨op, found, rfl⟩ := found
    have isBusy : op.status = .busy := busy
    have member : (opId, op) ∈ x.1.db.rowsWhere fun op => op.status.running :=
      Db.mem_rowsWhere.mpr ⟨found, by rw [isBusy]; rfl⟩
    exact (List.length_pos_of_mem member).trans_le (Nat.le_add_right _ _)

/-- In every state of every run at most one operation is ACTIVE or BUSY or one SYNC
runs.  A dispatched protocol is that one, and no other one that the process has
dispatched is still to be concluded. -/
theorem one_in_flight
    {trace : List Instant}
    {c : Config interface PyError State}
    (cfg : Settings)
    (run : Run (manager cfg) (initial cfg) trace c) :
    flights c.state ≤ 1 ∧ (∀ moment ∈ trace, Flies moment) ∧ OneAtATime trace := by
  obtain ⟨ghost, good, alone⟩ := alone_of_run run
  refine ⟨Sound.flights_le_one good.inv, ?_, alone.alone⟩
  exact server_moments (fun _ _ _ sound within => flies_did sound within)
    (fun _ _ _ _ label => by cases label) (fun _ _ _ label => by cases label) run

theorem one_in_flight_quitted :
    flights sampleQuitted.2.state = 1 ∧ (∀ moment ∈ sampleQuitted.1, Flies moment) ∧
      OneAtATime sampleQuitted.1 :=
  ⟨by decide +kernel, (one_in_flight sampleSettings (.driven _)).2⟩

end Manager
end Mpmt
