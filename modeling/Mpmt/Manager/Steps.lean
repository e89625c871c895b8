import Mpmt.Manager.Contract

/-!
# Steps within the contract

Each kind of step of the Manager, and why it stays within the contract.
-/

namespace Mpmt
namespace Manager

open Effects Threads Contract

variable {x : World} {tid : Nat} {db db' : Db} {g' : Ghost} {opId : Nat} {face : Face}
  {event : Event interface PyError} {change : Nat -> OpStatus -> OpStatus}

/-- A lock has one holder, a protocol one carrier. -/
theorem held_by_one
    {holder : Option Nat}
    (mine : holder = some tid)
    (held : holder = some other) : other = tid :=
  Option.some.inj (held.symm.trans mine)

/-! ## Who may change a status -/

/-- The thread `tid` may move an operation from one status to the other. -/
inductive Allowed (tid : Nat) (x : World) : OpStatus -> OpStatus -> Prop
  | keep (status : OpStatus) : Allowed tid x status status
  | enqueue : Allowed tid x .reserved .queued
  | promote (lock : x.1.lock = some tid) : Allowed tid x .queued .active
  | remove (lock : x.1.lock = some tid) : Allowed tid x .queued .removed
  | start (lock : x.1.lock = some tid) (clear : x.1.taskCracked = false) :
      Allowed tid x .active .busy
  | reject (lock : x.1.lock = some tid) : Allowed tid x .active .failed
  | finish (owner : x.2.owner = some tid) : Allowed tid x .busy .done
  | fail (owner : x.2.owner = some tid) : Allowed tid x .busy .failed
  | crack {status : OpStatus} (cracked : x.1.taskCracked = true)
      (live : status.live = true) (idle : status ≠ .busy) : Allowed tid x status .failed
  | reconcile {status : OpStatus} (closed : Closed x)
      (running : status.running = true) : Allowed tid x status .failed

namespace Allowed

variable {status status' : OpStatus}

theorem onward (allowed : Allowed tid x status status') : status.Onward status' := by
  cases allowed with
  | keep => exact .refl _
  | crack _ live _ =>
      refine .inr ?_
      cases status <;> first | rfl | cases live
  | reconcile _ running =>
      refine .inr ?_
      cases status <;> first | rfl | cases running
  | _ => exact .inr rfl

/-- Only the holder of the lock lets something run. -/
theorem running
    (allowed : Allowed tid x status status')
    (runs : status'.running = true) :
    status.running = true ∨ x.1.lock = some tid ∧ status' = .active := by
  cases allowed with
  | keep => exact .inl runs
  | promote lock => exact .inr ⟨lock, rfl⟩
  | start => exact .inl rfl
  | _ => cases runs

theorem waits
    (allowed : Allowed tid x status status')
    (lock : x.1.lock = some other)
    (different : other ≠ tid)
    (clear : x.1.taskCracked = false)
    (waiting : status = .queued ∨ status = .active) : status' = status := by
  have outside : ¬ x.1.lock = some tid := fun mine => different (held_by_one mine lock)
  cases allowed with
  | keep => rfl
  | enqueue => simp at waiting
  | promote mine => exact absurd mine outside
  | remove mine => exact absurd mine outside
  | start mine => exact absurd mine outside
  | reject mine => exact absurd mine outside
  | finish => simp at waiting
  | fail => simp at waiting
  | crack cracked =>
      rw [clear] at cracked
      cases cracked
  | reconcile closed =>
      rw [closed.lock] at lock
      cases lock

theorem busy
    (allowed : Allowed tid x .busy status')
    (owner : x.2.owner = some other)
    (different : other ≠ tid) : status' = .busy := by
  have outside : ¬ x.2.owner = some tid := fun mine => different (held_by_one mine owner)
  cases allowed with
  | keep => rfl
  | finish mine => exact absurd mine outside
  | fail mine => exact absurd mine outside
  | crack _ _ idle => exact absurd rfl idle
  | reconcile closed =>
      rw [closed.owner] at owner
      cases owner

theorem calm
    (allowed : Allowed tid x status .busy)
    (cracked : x.1.taskCracked = true) : status = .busy := by
  cases allowed with
  | keep => rfl
  | start _ clear =>
      rw [cracked] at clear
      cases clear

end Allowed

/-! ## The tables -/

/-- Allowed changes of the statuses leave to the others what is theirs. -/
theorem Tables.recast
    (recast : x.1.db.Recast db change)
    (allowed : ∀ opId face, x.1.db.faceOf opId = some face ->
      Allowed tid x face.status (change opId face.status))
    (tokens : ∀ other, other ≠ tid -> x.2.owner = some other -> db.tokens = x.1.db.tokens)
    (membership : x.1.db.Membership db) : Tables tid x db where
  onward := by
    intro opId
    rw [recast]
    cases found : x.1.db.faceOf opId with
    | none => exact .absent
    | some face => exact .onward (allowed opId face found).onward
  rests := by
    rintro other different lock rests opId ⟨after, found', runs⟩
    rw [recast, Option.map_eq_some_iff] at found'
    obtain ⟨face, found, rfl⟩ := found'
    rcases (allowed opId face found).running runs with already | ⟨mine, _⟩
    · exact rests opId ⟨face, found, already⟩
    · exact different (held_by_one mine lock)
  waits := by
    intro other different lock clear opId face found waiting
    rw [recast, found, Option.map_some,
      (allowed opId face found).waits lock different clear waiting]
    rfl
  busy := by
    intro other different owner opId face found isBusy
    have may := allowed opId face found
    rw [isBusy] at may
    rw [recast, found, Option.map_some, isBusy, may.busy owner different, ← isBusy]
    rfl
  tokens := tokens
  calm := by
    rintro cracked calm opId ⟨after, found', isBusy⟩
    rw [recast, Option.map_eq_some_iff] at found'
    obtain ⟨face, found, rfl⟩ := found'
    have may := allowed opId face found
    have same : change opId face.status = .busy := isBusy
    rw [same] at may
    exact calm opId ⟨face, found, may.calm cracked⟩
  membership := membership

/-- The statuses stay, and nobody joins. -/
theorem Tables.still
    (recast : x.1.db.Recast db Db.still)
    (tokens : db.tokens = x.1.db.tokens)
    (joined : ∀ userId, db.Joined userId ↔ x.1.db.Joined userId) : Tables tid x db :=
  .recast recast (fun _ face _ => .keep face.status) (fun _ _ _ => tokens) (.of_iff joined)

theorem Tables.refl (tid : Nat) (x : World) : Tables tid x x.1.db :=
  .still (Db.recast_of_same rfl) rfl fun _ => .rfl

/-! ## The memory and the ghost variables -/

theorem Memory.of_same
    {s : State}
    (lock : s.lock = x.1.lock)
    (cracked : s.taskCracked = x.1.taskCracked)
    (available : s.agentsAvailable = x.1.agentsAvailable)
    (started : s.started = x.1.started)
    (sync : s.activeSync.isSome = x.1.activeSync.isSome) : Memory tid x s where
  lock := by
    intro other _ held
    refine ⟨lock.trans held, cracked, available, fun none => ?_⟩
    rw [none] at sync
    exact Option.isNone_iff_eq_none.mp (by simpa using sync)
  owner := fun _ _ _ => ⟨sync, cracked⟩
  panel := fun _ => started
  started := fun before => started.trans before
  cracked := fun before => cracked.trans before
  outage := fun _ out => available.trans out

theorem Memory.refl (tid : Nat) (x : World) : Memory tid x x.1 :=
  .of_same rfl rfl rfl rfl rfl

theorem Marks.of_same
    {s : State}
    (sync : s.activeSync.isSome = x.1.activeSync.isSome)
    (duty : Duty event x (s, x.2)) : Marks event x (s, x.2) where
  phase := fun opened => opened
  panel := fun _ => ⟨rfl, fun _ => rfl⟩
  owner := fun _ _ owner => ⟨owner, rfl⟩
  ticket := fun _ _ _ ticket => ticket
  passed := fun _ passed => passed
  concludes := fun _ owner sent => .inl ⟨owner, sent, sync⟩
  tickets := fun _ none some => absurd none some
  passes := fun _ passed => .inl passed
  duty := duty

/-! ## Steps that change nothing that matters -/

/-- The two states agree on all that the contract speaks about. -/
structure Alike (x : World) (s : State) : Prop where
  regular : s.db.Regular
  recast : x.1.db.Recast s.db Db.still
  tokens : s.db.tokens = x.1.db.tokens
  joined : ∀ userId, s.db.Joined userId ↔ x.1.db.Joined userId
  lock : s.lock = x.1.lock
  cracked : s.taskCracked = x.1.taskCracked
  available : s.agentsAvailable = x.1.agentsAvailable
  started : s.started = x.1.started
  serving : s.serving = x.1.serving
  sync : s.activeSync.isSome = x.1.activeSync.isSome

theorem Alike.sound
    {s : State}
    (alike : Alike x s)
    (sound : Sound x) : Sound (s, x.2) where
  regular := alike.regular
  closed := by
    intro closed
    obtain ⟨lock, owner, serving, started, cracked⟩ := sound.closed closed
    exact ⟨alike.lock.trans lock, owner, alike.serving.trans serving,
      alike.started.trans started, alike.cracked.trans cracked⟩
  single := by
    rintro opId opId' ⟨face, found, runs⟩ ⟨face', found', runs'⟩
    rw [alike.recast.faceOf_eq] at found found'
    exact sound.single opId opId' ⟨face, found, runs⟩ ⟨face', found', runs'⟩
  apart := by
    rintro sync opId ⟨face, found, runs⟩
    rw [alike.recast.faceOf_eq] at found
    rw [alike.sync] at sync
    exact sound.apart sync opId ⟨face, found, runs⟩
  carried := by
    intro owner is
    rw [alike.sync]
    rcases sound.carried owner is with sync | ⟨opId, face, found, isBusy⟩
    · exact .inl sync
    · exact .inr ⟨opId, face, (alike.recast.faceOf_eq opId).trans found, isBusy⟩
  ticketed := by
    intro opId owner ticket
    obtain ⟨face, found, entered⟩ := sound.ticketed opId owner ticket
    exact ⟨face, (alike.recast.faceOf_eq opId).trans found, entered⟩

/-- A step that changes nothing the contract speaks about. -/
theorem Within.alike
    {s : State}
    (sound : Sound x)
    (alike : Alike x s)
    (duty : Duty event x (s, x.2)) : Within event x (s, x.2) where
  sound := alike.sound sound
  tables := .still alike.recast alike.tokens alike.joined
  memory := .of_same alike.lock alike.cracked alike.available alike.started alike.sync
  marks := .of_same alike.sync duty

/-- The database stays, and so does the memory that others look at. -/
theorem Alike.memory
    {s : State}
    (sound : Sound x)
    (db : s.db = x.1.db)
    (lock : s.lock = x.1.lock)
    (cracked : s.taskCracked = x.1.taskCracked)
    (available : s.agentsAvailable = x.1.agentsAvailable)
    (started : s.started = x.1.started)
    (serving : s.serving = x.1.serving)
    (sync : s.activeSync.isSome = x.1.activeSync.isSome) : Alike x s where
  regular := db ▸ sound.regular
  recast := Db.recast_of_same (congrArg Db.operations db)
  tokens := congrArg Db.tokens db
  joined := fun userId => by rw [db]
  lock := lock
  cracked := cracked
  available := available
  started := started
  serving := serving
  sync := sync

theorem Alike.refl (sound : Sound x) : Alike x x.1 :=
  .memory sound rfl rfl rfl rfl rfl rfl rfl

/-- The statuses stay in the database, and so do the other tables. -/
theorem Alike.tables
    (sound : Sound x)
    (recast : x.1.db.Recast db Db.still)
    (users : db.users = x.1.db.users)
    (tokens : db.tokens = x.1.db.tokens)
    (last : db.lastOpId = x.1.db.lastOpId) : Alike x { x.1 with db := db } where
  regular := sound.regular.recast recast (fun _ face _ => .refl face.status)
    (fun _ _ _ placed => .inl placed) users tokens last
  recast := recast
  tokens := tokens
  joined := Db.joined_congr users
  lock := rfl
  cracked := rfl
  available := rfl
  started := rfl
  serving := rfl
  sync := rfl

/-! ## The lock, the flags and the SYNC -/

theorem Within.acquire
    (sound : Sound x)
    (opened : x.2.phase = .opened)
    (free : x.1.lock = none)
    (reply : Except PyError Unit) :
    Within ⟨tid, .acquire .main, reply⟩ x ({ x.1 with lock := some tid }, x.2) where
  sound := ⟨sound.regular, fun closed => absurd opened closed, sound.single, sound.apart,
    sound.carried, sound.ticketed⟩
  tables := .refl tid x
  memory :=
    { Memory.refl tid x with
      lock := fun _ _ held => by
        rw [free] at held
        cases held }
  marks := .of_same rfl trivial

theorem Within.release
    (sound : Sound x)
    (mine : x.1.lock = some tid)
    (reply : Except PyError Unit) :
    Within ⟨tid, .release .main, reply⟩ x ({ x.1 with lock := none }, x.2) where
  sound := ⟨sound.regular, fun closed => { sound.closed closed with lock := rfl },
    sound.single, sound.apart, sound.carried, sound.ticketed⟩
  tables := .refl tid x
  memory :=
    { Memory.refl tid x with
      lock := fun _ different held =>
        absurd (held_by_one mine held) different }
  marks := .of_same rfl trivial

/-- A thread that holds the lock works in an open process. -/
theorem Sound.opened_of_lock
    (sound : Sound x)
    (mine : x.1.lock = some tid) : x.2.phase = .opened := by
  by_contra closed
  have free := (sound.closed closed).lock
  rw [mine] at free
  cases free

theorem Sound.opened_of_owner
    (sound : Sound x)
    (mine : x.2.owner = some tid) : x.2.phase = .opened := by
  by_contra closed
  have none := (sound.closed closed).owner
  rw [mine] at none
  cases none

/-- The carrier cracks the task, with the lock in its hands. -/
theorem Within.crack
    (sound : Sound x)
    (lock : x.1.lock = some tid)
    (owner : x.2.owner = some tid)
    (reply : Except PyError Unit) :
    Within ⟨tid, .setTaskCracked, reply⟩ x ({ x.1 with taskCracked := true }, x.2) where
  sound := ⟨sound.regular, fun closed => absurd (sound.opened_of_lock lock) closed,
    sound.single, sound.apart, sound.carried, sound.ticketed⟩
  tables := .refl tid x
  memory :=
    { lock := fun _ different held =>
        absurd (held_by_one lock held) different
      owner := fun _ different held =>
        absurd (held_by_one owner held) different
      panel := fun _ => rfl
      started := id
      cracked := fun _ => rfl
      outage := fun _ out => out }
  marks := .of_same rfl trivial

/-- The connectivity is written under the lock while the Agents are there, or
before the server is started. -/
theorem Within.setAvailable
    (sound : Sound x)
    (may : x.1.lock = some tid ∧ x.1.agentsAvailable = true ∨ x.2.phase ≠ .opened)
    (available : Bool)
    (reply : Except PyError Unit) :
    Within ⟨tid, .setAgentsAvailable available, reply⟩ x
      ({ x.1 with agentsAvailable := available }, x.2) where
  sound := ⟨sound.regular, fun closed => { sound.closed closed with }, sound.single,
    sound.apart, sound.carried, sound.ticketed⟩
  tables := .refl tid x
  memory :=
    { Memory.refl tid x with
      lock := by
        intro other different held
        rcases may with ⟨mine, _⟩ | closed
        · exact absurd (held_by_one mine held) different
        · rw [(sound.closed closed).lock] at held
          cases held
      outage := by
        intro started out
        rcases may with ⟨_, there⟩ | closed
        · rw [there] at out
          cases out
        · rw [(sound.closed closed).started] at started
          cases started }
  marks := .of_same rfl trivial

theorem Within.setStarted
    (sound : Sound x)
    (panel : x.2.panel = tid)
    (opened : x.2.phase = .opened)
    (reply : Except PyError Unit) :
    Within ⟨tid, .setStarted, reply⟩ x ({ x.1 with started := true }, x.2) where
  sound := ⟨sound.regular, fun closed => absurd opened closed, sound.single, sound.apart,
    sound.carried, sound.ticketed⟩
  tables := .refl tid x
  memory :=
    { lock := fun _ _ held => ⟨held, rfl, rfl, id⟩
      owner := fun _ _ _ => ⟨rfl, rfl⟩
      panel := fun different => absurd panel different
      started := fun _ => rfl
      cracked := id
      outage := by
        intro _ out
        exact out }
  marks := .of_same rfl trivial

theorem Within.serve
    (sound : Sound x)
    (opened : x.2.phase = .opened)
    (reply : Except PyError Unit) :
    Within ⟨tid, .makeServer, reply⟩ x ({ x.1 with serving := true }, x.2) where
  sound := ⟨sound.regular, fun closed => absurd opened closed, sound.single, sound.apart,
    sound.carried, sound.ticketed⟩
  tables := .refl tid x
  memory := { Memory.refl tid x with }
  marks := .of_same rfl trivial

/-- While nothing runs, nobody carries anything. -/
theorem Sound.owner_eq_none
    (sound : Sound x)
    (sync : x.1.activeSync = none)
    (calm : ∀ opId, ¬ x.1.db.Busy opId) : x.2.owner = none := by
  cases owner : x.2.owner with
  | none => rfl
  | some other =>
      rcases sound.carried other owner with some | ⟨opId, isBusy⟩
      · rw [sync] at some
        cases some
      · exact absurd isBusy (calm opId)

/-- The holder of the lock takes a SYNC from the queue while nothing runs, and
carries it. -/
theorem Within.takeSync
    (sound : Sound x)
    (lock : x.1.lock = some tid)
    (none : x.1.activeSync = none)
    (rests : ∀ opId, ¬ x.1.db.Runs opId)
    (sync : ActiveSync)
    (reply : Except PyError Unit) :
    Within ⟨tid, .setActiveSync (some sync), reply⟩ x
      ({ x.1 with activeSync := some sync },
        { x.2 with owner := some tid, sent := false }) where
  sound := ⟨sound.regular, fun closed => absurd (sound.opened_of_lock lock) closed,
    sound.single, fun _ => rests, fun _ _ => .inl rfl, sound.ticketed⟩
  tables := .refl tid x
  memory :=
    { lock := fun _ different held =>
        absurd (held_by_one lock held) different
      owner := by
        intro other _ held
        rw [sound.owner_eq_none none fun opId busy => rests opId busy.runs] at held
        cases held
      panel := fun _ => rfl
      started := id
      cracked := id
      outage := fun _ out => out }
  marks :=
    have base : Marks ⟨tid, .setActiveSync (some sync), reply⟩ x x := .of_same rfl trivial
    { base with
      owner := by
        intro other _ held
        rw [sound.owner_eq_none none fun opId busy => rests opId busy.runs] at held
        cases held
      concludes := by
        intro other held
        rw [sound.owner_eq_none none fun opId busy => rests opId busy.runs] at held
        cases held }

/-- The carrier of a SYNC notes its progress. -/
theorem Within.busySync
    (sound : Sound x)
    (there : x.1.activeSync.isSome = true)
    (sync : ActiveSync)
    (reply : Except PyError Unit) :
    Within ⟨tid, .setActiveSync (some sync), reply⟩ x
      ({ x.1 with activeSync := some sync }, x.2) :=
  .alike sound (.memory sound rfl rfl rfl rfl rfl rfl there.symm) trivial

/-- The carrier of a SYNC takes it away. -/
theorem Within.endSync
    (sound : Sound x)
    (owner : x.2.owner = some tid)
    (there : x.1.activeSync.isSome = true)
    (reply : Except PyError Unit) :
    Within ⟨tid, .setActiveSync none, reply⟩ x
      ({ x.1 with activeSync := none }, { x.2 with owner := none, sent := false }) where
  sound := ⟨sound.regular, fun closed => absurd (sound.opened_of_owner owner) closed,
    sound.single, nofun, nofun, sound.ticketed⟩
  tables := .refl tid x
  memory :=
    { lock := fun _ _ held => ⟨held, rfl, rfl, fun _ => rfl⟩
      owner := fun _ different held =>
        absurd (held_by_one owner held) different
      panel := fun _ => rfl
      started := id
      cracked := id
      outage := fun _ out => out }
  marks :=
    have base : Marks ⟨tid, .setActiveSync none, reply⟩ x x := .of_same rfl trivial
    { base with
      owner := fun _ different held =>
        absurd (held_by_one owner held) different
      concludes := fun _ held _ =>
        .inr ⟨Option.some.inj (owner.symm.trans held), there⟩ }

/-! ## The ghost variables -/

/-- The carrier hands a protocol that no Agent has heard of to a new thread. -/
theorem Within.handOver
    (sound : Sound x)
    (owner : x.2.owner = some tid)
    (unsent : x.2.sent = false)
    (fresh : Nat)
    (task : Task)
    (reply : Except PyError Unit) :
    Within ⟨tid, .spawn task, reply⟩ x (x.1, { x.2 with owner := some fresh }) where
  sound := ⟨sound.regular, fun closed => absurd (sound.opened_of_owner owner) closed,
    sound.single, sound.apart, fun _ _ => sound.carried tid owner, sound.ticketed⟩
  tables := .refl tid x
  memory := .refl tid x
  marks :=
    have base : Marks ⟨tid, .spawn task, reply⟩ x x := .of_same rfl trivial
    { base with
      owner := fun _ different held => absurd (held_by_one owner held) different
      concludes := by
        intro _ _ sent
        rw [unsent] at sent
        cases sent }

/-- The control panel starts the server. -/
theorem Within.open
    (sound : Sound x)
    (panel : x.2.panel = tid)
    (reply : Except PyError Unit) :
    Within ⟨tid, .spawn .httpServe, reply⟩ x (x.1, { x.2 with phase := .opened }) where
  sound := ⟨sound.regular, fun closed => absurd rfl closed, sound.single, sound.apart,
    sound.carried, sound.ticketed⟩
  tables := .refl tid x
  memory := .refl tid x
  marks :=
    have base : Marks ⟨tid, .spawn .httpServe, reply⟩ x x := .of_same rfl trivial
    { base with
      phase := fun _ => rfl
      panel := fun different => absurd panel different }

/-- The control panel goes on in a new thread. -/
theorem Within.handPanel
    (sound : Sound x)
    (panel : x.2.panel = tid)
    (fresh : Nat)
    (reply : Except PyError Unit) :
    Within ⟨tid, .spawn .console, reply⟩ x (x.1, { x.2 with panel := fresh }) where
  sound := ⟨sound.regular, fun closed => { sound.closed closed with }, sound.single,
    sound.apart, sound.carried, sound.ticketed⟩
  tables := .refl tid x
  memory := .refl tid x
  marks :=
    have base : Marks ⟨tid, .spawn .console, reply⟩ x x := .of_same rfl trivial
    { base with
      panel := fun different => absurd panel different }

/-- A thread remembers that it has seen the task stand. -/
theorem Within.pass
    (sound : Sound x)
    (clear : x.1.taskCracked = false) :
    Within ⟨tid, .taskCracked, .ok false⟩ x
      (x.1, { x.2 with passed := tid :: x.2.passed }) where
  sound := ⟨sound.regular, fun closed => { sound.closed closed with }, sound.single,
    sound.apart, sound.carried, sound.ticketed⟩
  tables := .refl tid x
  memory := .refl tid x
  marks :=
    have base : Marks ⟨tid, .taskCracked, .ok false⟩ x x := .of_same rfl trivial
    { base with
      passed := fun _ passed => List.mem_cons_of_mem _ passed
      passes := by
        intro other member
        rcases List.mem_cons.mp member with rfl | before
        · exact .inr ⟨rfl, rfl, clear⟩
        · exact .inl before }

/-- The endpoints of an operation are handed out once. -/
theorem Within.answer
    (sound : Sound x)
    {response : Response}
    (answers : response.opId = some opId)
    (ticket : x.2.ticket opId = some tid)
    (reply : Except PyError Unit) :
    Within ⟨tid, .respond response, reply⟩ x
      (x.1, { x.2 with ticket := fun other =>
        if other = opId then none else x.2.ticket other }) where
  sound := by
    refine ⟨sound.regular, fun closed => { sound.closed closed with }, sound.single,
      sound.apart, sound.carried, ?_⟩
    intro key owner held
    dsimp only at held
    split at held
    · cases held
    · exact sound.ticketed key owner held
  tables := .refl tid x
  memory := .refl tid x
  marks :=
    { phase := id
      panel := fun _ => ⟨rfl, fun _ => rfl⟩
      owner := fun _ _ held => ⟨held, rfl⟩
      ticket := by
        intro other different key held
        dsimp only
        rw [if_neg]
        · exact held
        · rintro rfl
          exact different (held_by_one ticket held)
      passed := fun _ passed => passed
      concludes := fun _ owner sent => .inl ⟨owner, sent, rfl⟩
      tickets := by
        intro key before after
        dsimp only at after
        split at after
        · exact absurd rfl after
        · exact absurd before after
      passes := fun _ passed => .inl passed
      duty := fun _ _ => ⟨opId, answers, ticket, if_pos rfl⟩ }

/-- The carrier tells an Agent to start. -/
theorem Within.send
    (sound : Sound x)
    (owner : x.2.owner = some tid)
    {role : Role}
    {message : Message}
    {reply : Except PyError Unit}
    (duty : Duty ⟨tid, .send role message, reply⟩ x (x.1, { x.2 with sent := true })) :
    Within ⟨tid, .send role message, reply⟩ x (x.1, { x.2 with sent := true }) where
  sound := ⟨sound.regular, fun closed => { sound.closed closed with }, sound.single,
    sound.apart, sound.carried, sound.ticketed⟩
  tables := .refl tid x
  memory := .refl tid x
  marks :=
    { phase := id
      panel := fun _ => ⟨rfl, fun _ => rfl⟩
      owner := fun _ different held => absurd (held_by_one owner held) different
      ticket := fun _ _ _ ticket => ticket
      passed := fun _ passed => passed
      concludes := fun _ owner _ => .inl ⟨owner, rfl, rfl⟩
      tickets := fun _ none some => absurd none some
      passes := fun _ passed => .inl passed
      duty := duty }

end Manager
end Mpmt
