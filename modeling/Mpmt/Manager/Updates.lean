import Mpmt.Manager.Steps

/-!
# Updates within the contract

The database methods that change a status, create an operation or prepare the
tables, and why each stays within the contract.
-/

namespace Mpmt
namespace Manager

open Effects Threads Contract

variable {x : World} {tid : Nat} {db db' : Db} {g' : Ghost} {opId : Nat} {face : Face}
  {event : Event interface PyError} {change : Nat -> OpStatus -> OpStatus}

/-! ## Statuses -/

theorem busy_of_recast
    (recast : x.1.db.Recast db change)
    (kept : ∀ opId face, x.1.db.faceOf opId = some face -> face.status = .busy ->
      change opId .busy = .busy)
    (before : x.1.activeSync.isSome = true ∨ ∃ opId, x.1.db.Busy opId) :
    x.1.activeSync.isSome = true ∨ ∃ opId, db.Busy opId := by
  rcases before with sync | ⟨opId, face, found, isBusy⟩
  · exact .inl sync
  · refine .inr ⟨opId, face.withStatus .busy, ?_, rfl⟩
    rw [recast, found, Option.map_some, isBusy, kept opId face found isBusy]

/-- An `UPDATE` of the statuses after which nothing new runs. -/
theorem Within.recast
    {cmd : Cmd}
    {reply : Except PyError cmd.Reply}
    (sound : Sound x)
    (regular : db.Regular)
    (recast : x.1.db.Recast db change)
    (allowed : ∀ opId face, x.1.db.faceOf opId = some face ->
      Allowed tid x face.status (change opId face.status))
    (runs : ∀ opId, db.Runs opId -> x.1.db.Runs opId)
    (tokens : ∀ other, other ≠ tid -> x.2.owner = some other -> db.tokens = x.1.db.tokens)
    (membership : x.1.db.Membership db)
    (closed : g'.phase ≠ .opened -> Closed ({ x.1 with db := db }, g'))
    (carried : ∀ tid, g'.owner = some tid ->
      x.1.activeSync.isSome = true ∨ ∃ opId, db.Busy opId)
    (ticketed : ∀ opId tid, g'.ticket opId = some tid -> x.2.ticket opId = some tid ∨
      ∃ face, db.faceOf opId = some face ∧ face.status.entered = true)
    (marks : Marks ⟨tid, cmd, reply⟩ x ({ x.1 with db := db }, g')) :
    Within ⟨tid, cmd, reply⟩ x ({ x.1 with db := db }, g') where
  sound :=
    { regular := regular
      closed := closed
      single := fun opId opId' first second =>
        sound.single opId opId' (runs opId first) (runs opId' second)
      apart := fun sync opId isRunning => sound.apart sync opId (runs opId isRunning)
      carried := carried
      ticketed := by
        intro opId owner ticket
        rcases ticketed opId owner ticket with before | now
        · obtain ⟨face, found, entered⟩ := sound.ticketed opId owner before
          refine ⟨face.withStatus (change opId face.status), ?_,
            (allowed opId face found).onward.entered entered⟩
          rw [recast, found, Option.map_some]
        · exact now }
  tables := .recast recast allowed tokens membership
  memory := .of_same rfl rfl rfl rfl rfl
  marks := marks

/-- An operation gets in line. -/
theorem Within.enqueue
    (sound : Sound x)
    (fits : ∀ face, x.1.db.faceOf opId = some face -> face.status = .reserved ->
      x.1.db.Fits face)
    (now : Time)
    (reply : Except PyError Bool) :
    Within ⟨tid, .db (.enqueueReserved opId), reply⟩ x
      ({ x.1 with db := (x.1.db.enqueueReserved opId now).2 }, x.2) := by
  have recast := x.1.db.recast_enqueueReserved opId now
  obtain ⟨users, tokens, last⟩ := x.1.db.tables_enqueueReserved opId now
  have allowed : ∀ key face, x.1.db.faceOf key = some face -> Allowed tid x face.status
      (if key = opId ∧ face.status = .reserved then .queued else face.status) := by
    intro key face _
    split
    · next reserved =>
        rw [reserved.2]
        exact .enqueue
    · exact .keep _
  have regular : (x.1.db.enqueueReserved opId now).2.Regular := by
    refine sound.regular.recast recast (fun key face found => (allowed key face found).onward)
      ?_ users tokens last
    intro key face found placed
    split at placed
    · next both =>
        obtain ⟨rfl, reserved⟩ := both
        exact .inr (fits face found reserved)
    · exact .inl placed
  refine .recast sound regular recast allowed ?_ (fun _ _ _ => tokens)
    (.of_iff (Db.joined_congr users)) (fun closed => { sound.closed closed with })
    (fun owner held => ?_) (fun _ _ ticket => .inl ticket) (.of_same rfl trivial)
  · rintro key ⟨after, found', runs⟩
    rw [recast, Option.map_eq_some_iff] at found'
    obtain ⟨face, found, rfl⟩ := found'
    refine ⟨face, found, ?_⟩
    change (if key = opId ∧ face.status = .reserved then _ else face.status).running = true
      at runs
    split at runs
    · cases runs
    · exact runs
  · refine busy_of_recast recast (fun key face _ _ => ?_) (sound.carried owner held)
    simp

/-- The holder of the lock promotes the head of the line while nothing runs. -/
theorem Within.promote
    (sound : Sound x)
    (lock : x.1.lock = some tid)
    (none : x.1.activeSync = none)
    (rests : ∀ opId, ¬ x.1.db.Runs opId)
    (now : Time)
    (reply : Except PyError (Option Row)) :
    Within ⟨tid, .db .promoteFirstQueued, reply⟩ x
      ({ x.1 with db := (x.1.db.promoteFirstQueued now).2 }, x.2) := by
  cases first : x.1.db.firstQueued with
  | none =>
      have same : (x.1.db.promoteFirstQueued now).2 = x.1.db := by
        rw [Db.promoteFirstQueued, first]
      rw [same]
      exact .alike sound (.refl sound) trivial
  | some row =>
      obtain ⟨head, op⟩ := row
      have recast := Db.recast_promoteFirstQueued first now
      obtain ⟨found, queued⟩ := Db.faceOf_of_firstQueued first
      obtain ⟨users, tokens, last⟩ := x.1.db.tables_promoteFirstQueued now
      have allowed : ∀ key face, x.1.db.faceOf key = some face ->
          Allowed tid x face.status (Db.setting head .active key face.status) := by
        intro key face known
        unfold Db.setting
        split
        · next same =>
            rw [same, found] at known
            cases known
            show Allowed tid x op.status .active
            rw [queued]
            exact .promote lock
        · exact .keep _
      have regular : (x.1.db.promoteFirstQueued now).2.Regular := by
        refine sound.regular.recast recast
          (fun key face known => (allowed key face known).onward) ?_ users tokens last
        intro key face known placed
        unfold Db.setting at placed
        split at placed
        · next same =>
            rw [same, found] at known
            cases known
            refine .inl ?_
            show op.status.placed = true
            rw [queued]
            rfl
        · exact .inl placed
      have only : ∀ key, (x.1.db.promoteFirstQueued now).2.Runs key -> key = head := by
        rintro key ⟨face, known, runs⟩
        by_contra different
        rw [recast.setting_other different] at known
        exact rests key ⟨face, known, runs⟩
      have owner := sound.owner_eq_none none fun key busy => rests key busy.runs
      refine ⟨⟨regular, fun closed => { sound.closed closed with }, ?_, ?_, ?_, ?_⟩,
        .recast recast allowed (fun _ _ _ => tokens) (.of_iff (Db.joined_congr users)),
        .of_same rfl rfl rfl rfl rfl, .of_same rfl trivial⟩
      · intro key key' first' second
        rw [only key first', only key' second]
      · intro sync
        rw [none] at sync
        cases sync
      · intro other held
        rw [owner] at held
        cases held
      · intro key other ticket
        obtain ⟨face, known, entered⟩ := sound.ticketed key other ticket
        refine ⟨face.withStatus (Db.setting head .active key face.status), ?_,
          (allowed key face known).onward.entered entered⟩
        rw [recast, known, Option.map_some]

/-- One operation gets a status that is not ACTIVE. -/
theorem Within.set
    {cmd : Cmd}
    {reply : Except PyError cmd.Reply}
    {status : OpStatus}
    (sound : Sound x)
    (found : x.1.db.faceOf opId = some face)
    (may : Allowed tid x face.status status)
    (idle : status ≠ .active)
    (regular : db.Regular)
    (recast : x.1.db.Recast db (Db.setting opId status))
    (tokens : ∀ other, other ≠ tid -> x.2.owner = some other -> db.tokens = x.1.db.tokens)
    (membership : x.1.db.Membership db)
    (closed : g'.phase ≠ .opened -> Closed ({ x.1 with db := db }, g'))
    (carried : ∀ tid, g'.owner = some tid ->
      x.1.activeSync.isSome = true ∨ ∃ opId, db.Busy opId)
    (ticketed : ∀ opId tid, g'.ticket opId = some tid -> x.2.ticket opId = some tid ∨
      ∃ face, db.faceOf opId = some face ∧ face.status.entered = true)
    (marks : Marks ⟨tid, cmd, reply⟩ x ({ x.1 with db := db }, g')) :
    Within ⟨tid, cmd, reply⟩ x ({ x.1 with db := db }, g') := by
  refine .recast sound regular recast ?_ ?_ tokens membership closed carried ticketed marks
  · intro key face' known
    unfold Db.setting
    split
    · next same =>
        rw [same, found] at known
        cases known
        exact may
    · exact .keep _
  · rintro key ⟨face', known, runs⟩
    by_cases same : key = opId
    · subst same
      rw [recast.setting_self found] at known
      cases known
      rcases may.running runs with before | ⟨_, active⟩
      · exact ⟨face, found, before⟩
      · exact absurd active idle
    · rw [recast.setting_other same] at known
      exact ⟨face', known, runs⟩

/-- `update_operation` and `fail_operation` leave the other tables alone. -/
theorem Db.Regular.updateOperation
    {status : OpStatus}
    (regular : db.Regular)
    (found : db.faceOf opId = some face)
    (onward : face.status.Onward status)
    (placed : status.placed = true -> face.status.placed = true)
    (columns : Db.Columns)
    (now : Time) : (db.updateOperation opId status columns now).Regular := by
  refine regular.recast (Db.recast_updateOperation rfl) ?_ ?_ rfl rfl rfl
  · intro key face' known
    unfold Db.setting
    split
    · next same =>
        rw [same, found] at known
        cases known
        exact onward
    · exact .refl _
  · intro key face' known isPlaced
    unfold Db.setting at isPlaced
    split at isPlaced
    · next same =>
        rw [same, found] at known
        cases known
        exact .inl (placed isPlaced)
    · exact .inl isPlaced

/-- The holder of the lock takes an operation out of the line, or rejects the
ACTIVE one. -/
theorem Within.drop
    {cmd : Cmd}
    {reply : Except PyError cmd.Reply}
    {status : OpStatus}
    (sound : Sound x)
    (found : x.1.db.faceOf opId = some face)
    (may : Allowed tid x face.status status)
    (waiting : face.status = .queued ∧ status = .removed ∨
      face.status = .active ∧ status = .failed)
    (columns : Db.Columns)
    (now : Time)
    (duty : Duty ⟨tid, cmd, reply⟩ x
      ({ x.1 with db := x.1.db.updateOperation opId status columns now }, x.2)) :
    Within ⟨tid, cmd, reply⟩ x
      ({ x.1 with db := x.1.db.updateOperation opId status columns now }, x.2) := by
  have recast : x.1.db.Recast (x.1.db.updateOperation opId status columns now)
    (Db.setting opId status) := Db.recast_updateOperation rfl
  have placed : status.placed = true -> face.status.placed = true := by
    rcases waiting with ⟨_, rfl⟩ | ⟨_, rfl⟩
    · nofun
    · nofun
  refine .set sound found may ?_
    (sound.regular.updateOperation found may.onward placed columns now) recast
    (fun _ _ _ => rfl) (.of_iff (Db.joined_congr rfl))
    (fun closed => { sound.closed closed with }) (fun owner held => ?_)
    (fun _ _ ticket => .inl ticket) (.of_same rfl duty)
  · rcases waiting with ⟨_, rfl⟩ | ⟨_, rfl⟩
    · nofun
    · nofun
  · refine busy_of_recast recast (fun key face' known isBusy => ?_) (sound.carried owner held)
    unfold Db.setting
    rw [if_neg]
    rintro rfl
    rw [found] at known
    cases known
    rcases waiting with ⟨other, _⟩ | ⟨other, _⟩
    · rw [isBusy] at other
      cases other
    · rw [isBusy] at other
      cases other

/-- The operation that starts is the only protocol. -/
theorem Sound.alone
    (sound : Sound x)
    (found : x.1.db.faceOf opId = some face)
    (active : face.status = .active) : x.1.activeSync = none ∧ x.2.owner = none := by
  have runs : x.1.db.Runs opId := ⟨face, found, by rw [active]; rfl⟩
  have none : x.1.activeSync = none := by
    cases sync : x.1.activeSync with
    | none => rfl
    | some _ => exact absurd runs (sound.apart (by rw [sync]; rfl) opId)
  refine ⟨none, sound.owner_eq_none none fun key busy => ?_⟩
  obtain ⟨face', found', isBusy⟩ := busy
  rw [sound.single key opId (Db.Busy.runs ⟨face', found', isBusy⟩) runs, found] at found'
  cases found'
  rw [active] at isBusy
  cases isBusy

/-- The holder of the lock lets the ACTIVE operation become BUSY, carries it and
may hand out its endpoints. -/
theorem Within.start
    (sound : Sound x)
    (found : x.1.db.faceOf opId = some face)
    (active : face.status = .active)
    (lock : x.1.lock = some tid)
    (clear : x.1.taskCracked = false)
    (columns : Db.Columns)
    (now : Time)
    (reply : Except PyError Unit) :
    Within ⟨tid, .db (.updateOperation opId .busy columns), reply⟩ x
      ({ x.1 with db := x.1.db.updateOperation opId .busy columns now },
        { x.2 with
          owner := some tid
          sent := false
          ticket := fun other => if other = opId then some tid else x.2.ticket other }) := by
  have recast : x.1.db.Recast (x.1.db.updateOperation opId .busy columns now)
    (Db.setting opId .busy) := Db.recast_updateOperation rfl
  have may : Allowed tid x face.status .busy := by
    rw [active]
    exact .start lock clear
  obtain ⟨none, nobody⟩ := sound.alone found active
  have after := recast.setting_self found
  have unticketed : x.2.ticket opId = Option.none := by
    cases ticket : x.2.ticket opId with
    | none => rfl
    | some other =>
        obtain ⟨face', found', entered⟩ := sound.ticketed opId other ticket
        rw [found] at found'
        cases found'
        rw [active] at entered
        cases entered
  refine .set sound found may nofun
    (sound.regular.updateOperation found may.onward (fun _ => by rw [active]; rfl) columns now)
    recast (fun _ _ _ => rfl) (.of_iff (Db.joined_congr rfl))
    (fun closed => absurd (sound.opened_of_lock lock) closed)
    (fun _ _ => .inr ⟨opId, _, after, rfl⟩) ?_ ?_
  · intro key other ticket
    dsimp only at ticket
    split at ticket
    · next same =>
        subst same
        exact .inr ⟨_, after, rfl⟩
    · exact .inl ticket
  · have base : Marks ⟨tid, .db (.updateOperation opId .busy columns), reply⟩ x x :=
      .of_same rfl (by cases reply <;> trivial)
    exact { base with
      owner := by
        intro other _ held
        rw [nobody] at held
        cases held
      ticket := by
        intro other _ key held
        dsimp only
        rw [if_neg]
        · exact held
        · rintro rfl
          rw [unticketed] at held
          cases held
      concludes := by
        intro other held
        rw [nobody] at held
        cases held
      tickets := by
        intro key before now
        dsimp only at now
        split at now
        · next same =>
            subst same
            rw [Db.statusOf_eq, Db.statusOf_eq, found, after, Option.map_some, active]
            exact ⟨rfl, rfl⟩
        · exact absurd before now
      duty := by cases reply <;> trivial }

/-! ## The end of a protocol -/

/-- The carrier gives up what it has carried. -/
theorem Marks.conclude
    {s : State}
    (owner : x.2.owner = some tid)
    {cmd : Cmd}
    {reply : Except PyError cmd.Reply}
    (concludes : Concludes x.1.activeSync.isSome ⟨tid, cmd, reply⟩)
    (duty : Duty ⟨tid, cmd, reply⟩ x (s, { x.2 with owner := none, sent := false })) :
    Marks ⟨tid, cmd, reply⟩ x (s, { x.2 with owner := none, sent := false }) where
  phase := id
  panel := fun _ => ⟨rfl, fun _ => rfl⟩
  owner := fun _ different held => absurd (held_by_one owner held) different
  ticket := fun _ _ _ ticket => ticket
  passed := fun _ passed => passed
  concludes := fun _ held _ => .inr ⟨(held_by_one owner held).symm, concludes⟩
  tickets := fun _ none some => absurd none some
  passes := fun _ passed => .inl passed
  duty := duty

/-- While an operation is BUSY there is no SYNC. -/
theorem Sound.sync_eq_none
    (sound : Sound x)
    (busy : x.1.db.Busy opId) : x.1.activeSync.isSome = false := by
  rw [Bool.eq_false_iff]
  exact fun sync => sound.apart sync opId busy.runs

/-- The carrier of an operation ends it. -/
theorem Within.conclude
    {cmd : Cmd}
    {reply : Except PyError cmd.Reply}
    {status : OpStatus}
    (sound : Sound x)
    (owner : x.2.owner = some tid)
    (found : x.1.db.faceOf opId = some face)
    (busy : face.status = .busy)
    (ends : status = .done ∨ status = .failed)
    (regular : db.Regular)
    (recast : x.1.db.Recast db (Db.setting opId status))
    (membership : x.1.db.Membership db)
    (concludes : Concludes false ⟨tid, cmd, reply⟩)
    (duty : Duty ⟨tid, cmd, reply⟩ x
      ({ x.1 with db := db }, { x.2 with owner := none, sent := false })) :
    Within ⟨tid, cmd, reply⟩ x
      ({ x.1 with db := db }, { x.2 with owner := none, sent := false }) := by
  have noSync := sound.sync_eq_none ⟨face, found, busy⟩
  refine .set sound found ?_ ?_ regular recast
    (fun _ different held => absurd (held_by_one owner held) different) membership
    (fun closed => absurd (sound.opened_of_owner owner) closed) nofun
    (fun _ _ ticket => .inl ticket) (.conclude owner ?_ duty)
  · rw [busy]
    rcases ends with rfl | rfl
    · exact .finish owner
    · exact .fail owner
  · rcases ends with rfl | rfl
    · nofun
    · nofun
  · rw [noSync]
    exact concludes

/-- The carrier ends its operation with `update_operation` or
`fail_operation`. -/
theorem Within.close
    {cmd : Cmd}
    {reply : Except PyError cmd.Reply}
    {status : OpStatus}
    (sound : Sound x)
    (owner : x.2.owner = some tid)
    (found : x.1.db.faceOf opId = some face)
    (busy : face.status = .busy)
    (ends : status = .done ∨ status = .failed)
    (columns : Db.Columns)
    (now : Time)
    (concludes : Concludes false ⟨tid, cmd, reply⟩)
    (duty : Duty ⟨tid, cmd, reply⟩ x
      ({ x.1 with db := x.1.db.updateOperation opId status columns now },
        { x.2 with owner := none, sent := false })) :
    Within ⟨tid, cmd, reply⟩ x
      ({ x.1 with db := x.1.db.updateOperation opId status columns now },
        { x.2 with owner := none, sent := false }) := by
  refine .conclude sound owner found busy ends ?_ (Db.recast_updateOperation rfl)
    (.of_iff (Db.joined_congr rfl)) concludes duty
  refine sound.regular.updateOperation found ?_ ?_ columns now
  · rw [busy]
    rcases ends with rfl | rfl
    · exact .inr rfl
    · exact .inr rfl
  · rcases ends with rfl | rfl
    · nofun
    · nofun

theorem Within.completeJoin
    (sound : Sound x)
    (owner : x.2.owner = some tid)
    (found : x.1.db.faceOf opId = some ⟨userId, .join, .busy⟩)
    {tokens : List (Role × String)}
    (completed : x.1.db.completeJoin opId userId tokens now = .ok db) :
    Within ⟨tid, .db (.completeJoin opId userId tokens), .ok ()⟩ x
      ({ x.1 with db := db }, { x.2 with owner := none, sent := false }) := by
  obtain ⟨recast, _⟩ := Db.completeJoin_eq_ok completed
  exact .conclude sound owner found rfl (.inl rfl)
    (sound.regular.completedJoin found completed) recast
    (Db.membership_completeJoin found completed) rfl trivial

theorem Within.completeQuit
    (sound : Sound x)
    (owner : x.2.owner = some tid)
    (found : x.1.db.faceOf opId = some ⟨userId, .quit, .busy⟩)
    (now : Time) :
    Within ⟨tid, .db (.completeQuit opId userId), .ok ()⟩ x
      ({ x.1 with db := x.1.db.completeQuit opId userId now },
        { x.2 with owner := none, sent := false }) :=
  .conclude sound owner found rfl (.inl rfl) (sound.regular.completedQuit found now)
    (Db.recast_completeQuit _ opId userId now) (Db.membership_completeQuit found now) rfl trivial

/-- In a cracked task the carrier, or anybody once nothing is BUSY any more,
fails all live operations. -/
theorem Within.failAll
    (sound : Sound x)
    (cracked : x.1.taskCracked = true)
    (may : x.2.owner = some tid ∨ ∀ opId, ¬ x.1.db.Busy opId)
    (errorCode : String)
    (now : Time) :
    Within ⟨tid, .db (.failAllLiveOperations errorCode), .ok ()⟩ x
      ({ x.1 with db := x.1.db.failAllLiveOperations errorCode now },
        { x.2 with
          owner := if x.1.activeSync.isSome then x.2.owner else none
          sent := if x.1.activeSync.isSome then x.2.sent else false }) := by
  have recast := x.1.db.recast_failAllLiveOperations errorCode now
  -- whoever carries an operation is this thread
  have mine : ∀ other, x.2.owner = some other -> x.1.activeSync.isSome = false ->
      other = tid := by
    intro other held noSync
    rcases may with owner | calm
    · exact held_by_one owner held
    · rcases sound.carried other held with sync | ⟨opId, busy⟩
      · rw [noSync] at sync
        cases sync
      · exact absurd busy (calm opId)
  have allowed : ∀ opId face, x.1.db.faceOf opId = some face ->
      Allowed tid x face.status (if face.status.live then .failed else face.status) := by
    intro opId face found
    split
    · next live =>
        by_cases busy : face.status = .busy
        · rw [busy]
          rcases may with owner | calm
          · exact .fail owner
          · exact absurd ⟨face, found, busy⟩ (calm opId)
        · exact .crack cracked live busy
    · exact .keep _
  have running : ∀ status : OpStatus,
      (if status.live then .failed else status : OpStatus).running = false := by
    intro status
    cases status <;> rfl
  have stopped : ∀ opId, ¬ (x.1.db.failAllLiveOperations errorCode now).Runs opId := by
    rintro opId ⟨after, found', runs⟩
    rw [recast, Option.map_eq_some_iff] at found'
    obtain ⟨face, _, rfl⟩ := found'
    have stops := running face.status
    exact Bool.false_ne_true (stops.symm.trans runs)
  have regular : (x.1.db.failAllLiveOperations errorCode now).Regular := by
    refine sound.regular.recast recast (fun opId face found => (allowed opId face found).onward)
      (fun opId face _ placed => .inl ?_) rfl rfl rfl
    cases status : face.status <;> rw [status] at placed <;> first | rfl | cases placed
  refine .recast sound regular recast allowed
    (fun opId runs => absurd runs (stopped opId)) (fun _ _ _ => rfl)
    (.of_iff (Db.joined_congr rfl))
    (fun closed => ?_) (fun owner held => ?_) (fun _ _ ticket => .inl ticket) ?_
  · have clear := (sound.closed closed).cracked
    rw [cracked] at clear
    cases clear
  · dsimp only at held
    split at held
    · next sync => exact .inl sync
    · cases held
  · have base : Marks ⟨tid, .db (.failAllLiveOperations errorCode), .ok ()⟩ x x :=
      .of_same rfl cracked
    exact { base with
      owner := by
        intro other different held
        cases sync : x.1.activeSync.isSome with
        | true => exact ⟨held, rfl⟩
        | false => exact absurd (mine other held sync) different
      concludes := by
        intro other held sent
        cases sync : x.1.activeSync.isSome with
        | true => exact .inl ⟨held, sent, rfl⟩
        | false => exact .inr ⟨(mine other held sync).symm, rfl⟩
      tickets := fun _ none some => absurd none some }

/-! ## New operations and new processes -/

theorem Within.create
    (sound : Sound x)
    (passed : tid ∈ x.2.passed)
    (created : x.1.db.createReservedOperation userId protType now = .ok (opId, db)) :
    Within ⟨tid, .db (.createReservedOperation userId protType), .ok opId⟩ x
      ({ x.1 with db := db }, x.2) := by
  obtain ⟨new, _, users, tokens, faces, _⟩ := Db.createReservedOperation_eq_ok created
  have unused : x.1.db.faceOf opId = none := by
    cases found : x.1.db.faceOf opId with
    | none => rfl
    | some face =>
        have old := sound.regular.bounded opId face found
        omega
  have kept : ∀ key face, x.1.db.faceOf key = some face -> db.faceOf key = some face := by
    intro key face found
    rw [faces, if_neg]
    · exact found
    · rintro rfl
      rw [unused] at found
      cases found
  have known : ∀ key face, db.faceOf key = some face -> face.status ≠ .reserved ->
      x.1.db.faceOf key = some face := by
    intro key face found other
    rw [faces] at found
    split at found
    · cases found
      exact absurd rfl other
    · exact found
  have runs : ∀ key, db.Runs key -> x.1.db.Runs key := by
    rintro key ⟨face, found, isRunning⟩
    refine ⟨face, known key face found fun reserved => ?_, isRunning⟩
    rw [reserved] at isRunning
    cases isRunning
  refine ⟨⟨sound.regular.created created, fun closed => { sound.closed closed with }, ?_, ?_,
    ?_, ?_⟩, ⟨?_, ?_, ?_, ?_, fun _ _ _ => tokens, ?_, ?_⟩, .of_same rfl rfl rfl rfl rfl,
    .of_same rfl passed⟩
  · exact fun key key' first second => sound.single key key' (runs key first) (runs key' second)
  · exact fun sync key isRunning => sound.apart sync key (runs key isRunning)
  · intro owner held
    rcases sound.carried owner held with sync | ⟨key, face, found, busy⟩
    · exact .inl sync
    · exact .inr ⟨key, face, kept key face found, busy⟩
  · intro key owner ticket
    obtain ⟨face, found, entered⟩ := sound.ticketed key owner ticket
    exact ⟨face, kept key face found, entered⟩
  · intro key
    rw [faces]
    split
    · next same =>
        rw [same, unused]
        exact .born userId protType
    · exact .refl _
  · exact fun _ _ _ rests key isRunning => rests key (runs key isRunning)
  · exact fun _ _ _ _ key face found _ => kept key face found
  · exact fun _ _ _ key face found _ => kept key face found
  · rintro _ calm key ⟨face, found, busy⟩
    exact calm key ⟨face, known key face found (by rw [busy]; nofun), busy⟩
  · exact .of_iff (Db.joined_congr users)

/-- The first thread fails what an earlier process left running. -/
theorem Within.reconcile
    (sound : Sound x)
    (panel : x.2.panel = tid)
    (starting : x.2.phase = .starting)
    (now : Time)
    (reply : Except PyError (Nat × Bool)) :
    Within ⟨tid, .db .reconcileOnStartup, reply⟩ x
      ({ x.1 with db := (x.1.db.reconcileOnStartup now).2 },
        { x.2 with phase := .idle }) := by
  have closed : Closed x := sound.closed (by rw [starting]; nofun)
  have recast := x.1.db.recast_reconcileOnStartup now
  have allowed : ∀ opId face, x.1.db.faceOf opId = some face ->
      Allowed tid x face.status (if face.status.running then .failed else face.status) := by
    intro opId face _
    split
    · next running => exact .reconcile closed running
    · exact .keep _
  have running : ∀ status : OpStatus,
      (if status.running then .failed else status : OpStatus).running = false := by
    intro status
    cases status <;> rfl
  have stopped : ∀ opId, ¬ (x.1.db.reconcileOnStartup now).2.Runs opId := by
    rintro opId ⟨after, found', runs⟩
    rw [recast, Option.map_eq_some_iff] at found'
    obtain ⟨face, _, rfl⟩ := found'
    have stops := running face.status
    exact Bool.false_ne_true (stops.symm.trans runs)
  have regular : (x.1.db.reconcileOnStartup now).2.Regular := by
    refine sound.regular.recast recast (fun opId face found => (allowed opId face found).onward)
      (fun opId face _ placed => .inl ?_) rfl rfl rfl
    cases status : face.status <;> rw [status] at placed <;> first | rfl | cases placed
  refine .recast sound regular recast allowed
    (fun opId runs => absurd runs (stopped opId)) (fun _ _ _ => rfl)
    (.of_iff (Db.joined_congr rfl))
    (fun _ => { closed with }) (fun owner held => ?_) (fun _ _ ticket => .inl ticket) ?_
  · rw [closed.owner] at held
    cases held
  · have base : Marks ⟨tid, .db .reconcileOnStartup, reply⟩ x x :=
      .of_same rfl (by cases reply <;> trivial)
    exact { base with
      phase := by
        intro opened
        rw [starting] at opened
        cases opened
      panel := fun different => absurd panel different
      tickets := fun _ none some => absurd none some
      duty := by cases reply <;> trivial }

end Manager
end Mpmt
