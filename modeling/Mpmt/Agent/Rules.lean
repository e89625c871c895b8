import Mpmt.Agent.Contract

/-!
# Rules for the Agent's programs

Most commands only read, or touch a lock, a socket or the table of the reserved
ports.  They are within the contract, and what a thread knows of itself and of
the session stays.
-/

namespace Mpmt
namespace Agent

open Effects Threads Contract

variable {json : Json} {tid gen fresh : Nat} {may : Option LockName}
  {P Q F : World -> Prop}

/-! ## Idle commands -/

/-- A command that leaves the connection, the slot and the protocol instance
alone and starts no thread. -/
def Cmd.Idle : Cmd -> Prop
  | .accept | .setGeneration _ | .recv _ | .sendall _ _ | .setExecThread
  | .clearExecThread | .enter _ | .leave _ | .log _ _ | .spawn _ | .proceed _ => False
  | _ => True

/-- The lock that a command is about. -/
def Cmd.lock : Cmd -> Option LockName
  | .acquire lock => some lock
  | .release lock => some lock
  | _ => none

/-- An idle step of the thread `tid`, which touches no lock but the one that it
may. -/
structure Idle (tid : Nat) (may : Option LockName) (event : Event interface PyError)
    (x x' : World) : Prop where
  mine : event.tid = tid
  idle : event.cmd.Idle
  history : x'.2 = x.2 ++ [⟨x.1, .did event, x'.1⟩]
  conn : x'.1.conn = x.1.conn
  generation : x'.1.generation = x.1.generation
  accepted : x'.1.accepted = x.1.accepted
  execThread : x'.1.execThread = x.1.execThread
  inside : x'.1.inside = x.1.inside
  locks : ∀ other, may ≠ some other -> x'.1.owner other = x.1.owner other

/-- The world behind a command. -/
def after
    {cmd : Cmd}
    (tid : Nat)
    (x : World)
    (done : Done interface PyError State Task cmd) : World :=
  (done.state, x.2 ++ [⟨x.1, .did ⟨tid, cmd, done.reply⟩, done.state⟩])

theorem seen_after
    {cmd : Cmd}
    (tid : Nat)
    (x : World)
    (done : Done interface PyError State Task cmd) :
    (⟨tid, cmd, done.reply⟩ : Event interface PyError) ∈ own tid (after tid x done).2 := by
  have mine : (⟨tid, cmd, done.reply⟩ : Event interface PyError).tid = tid := rfl
  unfold after
  rw [own_mine mine]
  exact List.mem_append_right _ List.mem_cons_self

theorem owner_acquire
    {s s' : State}
    {lock : LockName}
    (acquired : s.acquire tid lock = some s') :
    s.owner lock = none ∧ s'.owner lock = some tid ∧
      (∀ other, some lock ≠ some other -> s'.owner other = s.owner other) ∧
      s'.conn = s.conn ∧ s'.generation = s.generation ∧ s'.accepted = s.accepted ∧
      s'.execThread = s.execThread ∧ s'.inside = s.inside := by
  cases lock with
  | exec | reserved | send =>
      rw [State.acquire] at acquired
      split at acquired
      · next free =>
          cases acquired
          refine ⟨free, rfl, fun other different => ?_, rfl, rfl, rfl, rfl, rfl⟩
          cases other with
          | exec | reserved | send => first | rfl | exact absurd rfl different
      · cases acquired

theorem owner_release (s : State) (lock other : LockName) :
    (s.release lock).owner other = if other = lock then none else s.owner other := by
  cases lock <;> cases other <;> rfl

/-- A command that may raise an `OSError` has taken effect or not. -/
theorem done_of_risky
    {cmd : Cmd}
    {reply : cmd.Reply}
    {s s' : State}
    {done : Done interface PyError State Task cmd}
    (performed : risky choice reply s s' = some done) :
    done.started = none ∧ (done.reply = .ok reply ∧ done.state = s' ∨
      ∃ error, done.reply = .error error ∧ error.isOsError = true ∧ done.state = s) := by
  cases choice with
  | go =>
      cases performed
      exact ⟨rfl, .inl ⟨rfl, rfl⟩⟩
  | fail error =>
      rw [risky] at performed
      split at performed
      · next os =>
          cases performed
          exact ⟨rfl, .inr ⟨error, rfl, os, rfl⟩⟩
      · cases performed
  | _ => cases performed

theorem done_of_acquire
    {lock : LockName}
    {done : Done interface PyError State Task (.acquire lock)}
    {s : State}
    (performed : perform tid fresh choice (.acquire lock) s = some done) :
    s.acquire tid lock = some done.state ∧ done.reply = .ok () ∧ done.started = none := by
  obtain ⟨s', acquired, answered⟩ := Option.bind_eq_some_iff.mp performed
  cases answered
  exact ⟨acquired, rfl, rfl⟩

/-- What an idle command does. -/
theorem idle_of_perform
    {cmd : Cmd}
    {x : World}
    {done : Done interface PyError State Task cmd}
    (idle : cmd.Idle)
    (performed : perform tid fresh choice cmd x.1 = some done) :
    Idle tid cmd.lock ⟨tid, cmd, done.reply⟩ x (after tid x done) ∧ done.started = none := by
  have nothing : done.state = x.1 -> cmd.lock = none ->
      Idle tid cmd.lock ⟨tid, cmd, done.reply⟩ x (after tid x done) := fun same _ =>
    { mine := rfl
      idle := idle
      history := rfl
      conn := congrArg State.conn same
      generation := congrArg State.generation same
      accepted := congrArg State.accepted same
      execThread := congrArg State.execThread same
      inside := congrArg State.inside same
      locks := fun other _ => congrArg (State.owner · other) same }
  cases cmd with
  | acquire lock =>
      obtain ⟨acquired, _, none⟩ := done_of_acquire performed
      obtain ⟨_, _, locks, conn, generation, accepted, execThread, inside⟩ :=
        owner_acquire acquired
      exact ⟨⟨rfl, idle, rfl, conn, generation, accepted, execThread, inside, locks⟩, none⟩
  | release lock =>
      cases performed
      refine ⟨⟨rfl, idle, rfl, ?_, ?_, ?_, ?_, ?_, fun other different => ?_⟩, rfl⟩
      · cases lock <;> rfl
      · cases lock <;> rfl
      · cases lock <;> rfl
      · cases lock <;> rfl
      · cases lock <;> rfl
      · show (x.1.release lock).owner other = x.1.owner other
        rw [owner_release, if_neg fun same : other = lock => different (same ▸ rfl)]
  | accept | setGeneration | recv | sendall | setExecThread | clearExecThread | enter | leave
  | log | spawn | proceed => cases idle
  | close | settimeout | acceptClient =>
      obtain ⟨none, ⟨_, same⟩ | ⟨_, _, _, same⟩⟩ := done_of_risky performed
      · exact ⟨nothing same rfl, none⟩
      · exact ⟨nothing same rfl, none⟩
  | prepare | channel =>
      cases choice with
      | go | fail =>
          cases performed
          exact ⟨nothing rfl rfl, rfl⟩
      | _ => cases performed
  | listen =>
      cases choice with
      | port port =>
          cases performed
          exact ⟨⟨rfl, idle, rfl, rfl, rfl, rfl, rfl, rfl, fun other _ => by cases other <;> rfl⟩,
            rfl⟩
      | fail error =>
          rw [perform] at performed
          split at performed
          · cases performed
            exact ⟨nothing rfl rfl, rfl⟩
          · cases performed
      | _ => cases performed
  | setReserved | popReserved | clearReserved =>
      cases performed
      exact ⟨⟨rfl, idle, rfl, rfl, rfl, rfl, rfl, rfl, fun other _ => by cases other <;> rfl⟩,
        rfl⟩
  | generation | conn | execThread | getReserved | allReserved =>
      cases performed
      exact ⟨nothing rfl rfl, rfl⟩

section Steps

variable {event : Event interface PyError} {x x' : World}

theorem Cmd.Idle.plain
    (idle : event.cmd.Idle) : Plain event := by
  obtain ⟨_, cmd, _⟩ := event
  cases cmd with
  | recv | spawn | proceed => cases idle
  | _ => trivial

theorem Cmd.Idle.duty
    (idle : event.cmd.Idle) : Duty json event x := by
  obtain ⟨_, cmd, _⟩ := event
  cases cmd with
  | recv | spawn | sendall | enter | log => cases idle
  | _ => trivial

theorem Cmd.Idle.silent
    (idle : event.cmd.Idle) : sends event = false ∧ enters event = false := by
  obtain ⟨_, cmd, _⟩ := event
  cases cmd with
  | sendall | enter => cases idle
  | _ => exact ⟨rfl, rfl⟩

/-- A plain step keeps the commands of all sessions. -/
theorem Sound.plain
    (sound : Sound json x)
    (history : x'.2 = x.2 ++ [⟨x.1, .did event, x'.1⟩])
    (plain : Plain event)
    (bound : x'.1.generation ≤ x'.1.accepted)
    (grows : x.1.accepted ≤ x'.1.accepted)
    (inside : ∀ tid ∈ x'.1.inside, x'.1.execThread = some tid)
    (once : x'.1.inside.Nodup) : Sound json x' := by
  obtain ⟨_, received', workers', begun'⟩ :=
    @plain_snoc x.2 event x.1 x'.1 plain
  refine ⟨bound, fun conn later => ?_, fun gen => ?_, ?_, inside, once⟩
  · rw [history, received', workers']
    exact sound.ahead conn (Nat.lt_of_le_of_lt grows later)
  · rw [history, workers', heard, received']
    exact sound.inOrder gen
  · rw [history, begun']
    exact sound.distinct

theorem Idle.within
    (idle : Idle tid may event x x')
    (sound : Sound json x)
    (locks : ∀ touched, may = some touched -> ∀ other, other ≠ tid ->
      x.1.owner touched = some other -> x'.1.owner touched = some other) :
    Within json event x x' where
  history := idle.history
  sound := sound.plain idle.history idle.idle.plain
    (by rw [idle.generation, idle.accepted]; exact sound.bound)
    (Nat.le_of_eq idle.accepted.symm)
    (by rw [idle.inside, idle.execThread]; exact sound.inside)
    (by rw [idle.inside]; exact sound.once)
  network := fun _ => ⟨idle.idle.plain, idle.conn, idle.generation, idle.accepted⟩
  switch := .inl idle.conn
  connected := fun some => by rwa [idle.conn]
  locks := by
    intro touched other different owns
    rcases eq_or_ne may (some touched) with same | apart
    · exact locks touched same other (idle.mine ▸ different) owns
    · rw [idle.locks touched apart]
      exact owns
  slot := fun _ _ _ => idle.execThread
  taken := fun _ _ taken => by rwa [idle.execThread] at taken
  inside := fun _ _ => by rw [idle.inside]
  duty := idle.idle.duty

theorem Idle.widen
    (idle : Idle tid none event x x') : Idle tid may event x x' :=
  { idle with locks := fun other _ => idle.locks other (Option.some_ne_none other).symm }

end Steps

/-! ## Facts that stay -/

variable (json tid may) in
/-- Neither the steps of the other threads nor idle steps of its own, which may
touch one lock, take the fact from the thread. -/
structure Steady (P : World -> Prop) : Prop where
  stable : (agentContract json).Stable tid P
  idle : ∀ x x' event, Sound json x -> Idle tid may event x x' -> P x -> P x'

theorem Steady.narrow
    (steady : Steady json tid may P) : Steady json tid none P where
  stable := steady.stable
  idle := fun x x' event sound idle => steady.idle x x' event sound idle.widen

theorem Steady.and
    (first : Steady json tid may P)
    (second : Steady json tid may Q) : Steady json tid may fun x => P x ∧ Q x where
  stable := first.stable.and second.stable
  idle := fun x x' event sound idle holds =>
    ⟨first.idle x x' event sound idle holds.1, second.idle x x' event sound idle holds.2⟩

theorem Steady.or
    (first : Steady json tid may P)
    (second : Steady json tid may Q) : Steady json tid may fun x => P x ∨ Q x where
  stable := first.stable.or second.stable
  idle := fun x x' event sound idle holds =>
    holds.imp (first.idle x x' event sound idle) (second.idle x x' event sound idle)

theorem Steady.const (p : Prop) : Steady json tid may fun _ => p :=
  ⟨.const p, fun _ _ _ _ _ holds => holds⟩

/-- The thread holds the lock. -/
def Held (tid : Nat) (lock : LockName) (x : World) : Prop := x.1.owner lock = some tid

theorem steady_held
    {touched : LockName}
    (apart : may ≠ some touched) : Steady json tid may (Held tid touched) where
  stable := fun _ _ _ _ other within held =>
    within.locks touched tid (Ne.symm other) held
  idle := fun _ _ _ _ idle held => (idle.locks touched apart).trans held

theorem steady_working
    {command : Command} : Steady json tid may fun x => Working tid command gen x.2 := by
  have grows : ∀ (x : World) (moment : Instant), Working tid command gen x.2 ->
      Working tid command gen (x.2 ++ [moment]) := fun x moment ⟨first, member, begins⟩ =>
    ⟨first, List.mem_append_left _ member, begins⟩
  refine ⟨fun x x' event _ _ within working => ?_, fun x x' event _ idle working => ?_⟩
  · show Working tid command gen x'.2
    rw [within.history]
    exact grows x _ working
  · show Working tid command gen x'.2
    rw [idle.history]
    exact grows x _ working

theorem steady_connected : Steady json tid may fun x => x.1.conn.isSome = true where
  stable := fun _ _ _ _ _ within some => within.connected some
  idle := fun _ _ _ _ idle some => by rwa [idle.conn]

/-- The thread has the execution slot. -/
def InSlot (tid : Nat) (x : World) : Prop := x.1.execThread = some tid

theorem steady_inSlot : Steady json tid may (InSlot tid) where
  stable := fun _ _ _ _ other within slot =>
    (within.slot tid (Ne.symm other) (.inr slot)).trans slot
  idle := fun _ _ _ _ idle slot => idle.execThread.trans slot

theorem steady_out : Steady json tid may fun x => x.1.execThread ≠ some tid where
  stable := fun _ _ _ _ other within out slot => out (within.taken tid (Ne.symm other) slot)
  idle := fun _ _ _ _ idle out => by rwa [idle.execThread]

theorem steady_outside : Steady json tid may fun x => tid ∉ x.1.inside where
  stable := fun _ _ _ _ other within outside within' =>
    outside ((within.inside tid (Ne.symm other)).mp within')
  idle := fun _ _ _ _ idle outside => by rwa [idle.inside]

/-- The thread has done something. -/
theorem steady_seen
    (p : Event interface PyError -> Prop) :
    Steady json tid may fun x => ∃ event ∈ own tid x.2, p event where
  stable := fun x x' event _ other within seen => by
    have same : own tid x'.2 = own tid x.2 := by rw [within.history, own_other other]
    show ∃ event ∈ own tid x'.2, p event
    rwa [same]
  idle := fun x x' event _ idle ⟨first, member, holds⟩ => by
    rw [idle.history, own_mine idle.mine]
    exact ⟨first, List.mem_append_left _ member, holds⟩

theorem unseen_snoc
    {event : Event interface PyError}
    {x : World}
    {s' : State}
    {p : Event interface PyError -> Bool}
    (unseen : ∀ event ∈ own tid x.2, p event = false)
    (mine : event.tid = tid)
    (quiet : p event = false) :
    ∀ event' ∈ own tid (x.2 ++ [⟨x.1, .did event, s'⟩]), p event' = false := by
  rw [own_mine mine]
  intro event' member
  rcases List.mem_append.mp member with old | new
  · exact unseen event' old
  · rw [List.mem_singleton.mp new]
    exact quiet

/-- The thread has not done something which is no idle step. -/
theorem steady_unseen
    {p : Event interface PyError -> Bool}
    (busy : ∀ event, event.cmd.Idle -> p event = false) :
    Steady json tid may fun x => ∀ event ∈ own tid x.2, p event = false where
  stable := fun x x' event _ other within unseen => by
    have same : own tid x'.2 = own tid x.2 := by rw [within.history, own_other other]
    show ∀ event ∈ own tid x'.2, p event = false
    rwa [same]
  idle := fun x x' event _ idle unseen => by
    rw [idle.history]
    exact unseen_snoc unseen idle.mine (busy event idle.idle)

/-! ## Rules -/

/-- A command: its step is within the contract and ends with `R`. -/
theorem triple_give
    {cmd : Cmd}
    {R : Except PyError cmd.Reply -> World -> Prop}
    (stable : (agentContract json).Stable tid P)
    (ends : ∀ reply, (agentContract json).Stable tid (R reply))
    (step : ∀ x choice fresh done, Sound json x -> P x -> tid < fresh -> Unborn fresh x ->
      perform tid fresh choice cmd x.1 = some done ->
      Within json ⟨tid, cmd, done.reply⟩ x (after tid x done) ∧
        (∀ task, done.started = some task -> Ready json task fresh (after tid x done)) ∧
        R done.reply (after tid x done)) :
    (agentContract json).Triple tid P (give cmd) R := by
  refine Triple.command stable ends fun x choice fresh done sound holds unused performed => ?_
  obtain ⟨within, ready, ends⟩ :=
    step x choice fresh done sound holds unused.later unused.young performed
  exact ⟨_, within, ready, ends⟩

/-- An idle command that touches no lock. -/
theorem triple_idle
    {cmd : Cmd}
    {R : Except PyError cmd.Reply -> World -> Prop}
    (idle : cmd.Idle)
    (free : cmd.lock = none)
    (steady : Steady json tid none P)
    (ends : ∀ reply, (agentContract json).Stable tid (R reply))
    (gain : ∀ x choice fresh done, Sound json x -> P x -> P (after tid x done) ->
      Idle tid none ⟨tid, cmd, done.reply⟩ x (after tid x done) ->
      perform tid fresh choice cmd x.1 = some done -> R done.reply (after tid x done)) :
    (agentContract json).Triple tid P (give cmd) R := by
  refine triple_give steady.stable ends
    fun x choice fresh done sound holds _ _ performed => ?_
  obtain ⟨step, none⟩ := idle_of_perform idle performed
  rw [free] at step
  refine ⟨step.within sound (fun touched same => by cases same), fun task begun => ?_,
    gain x choice fresh done sound holds (steady.idle _ _ _ sound step holds) step performed⟩
  rw [none] at begun
  cases begun

/-- An idle command of which nothing is needed. -/
theorem triple_pass
    {cmd : Cmd}
    (idle : cmd.Idle)
    (free : cmd.lock = none)
    (steady : Steady json tid none P) :
    (agentContract json).Triple tid P (give cmd) (Post (fun _ => P) P) :=
  triple_idle idle free steady (stable_post (fun _ => steady.stable) steady.stable)
    fun _ _ _ done _ _ still _ _ => by
      cases done.reply with
      | ok => exact still
      | error => exact still

/-- An idle command that only reads: it does not raise. -/
theorem triple_read
    {cmd : Cmd}
    {Q : cmd.Reply -> World -> Prop}
    (idle : cmd.Idle)
    (free : cmd.lock = none)
    (steady : Steady json tid none P)
    (returns : ∀ reply, (agentContract json).Stable tid (Q reply))
    (reads : ∀ x choice fresh done, Sound json x -> P x -> P (after tid x done) ->
      Idle tid none ⟨tid, cmd, done.reply⟩ x (after tid x done) ->
      perform tid fresh choice cmd x.1 = some done ->
      ∃ reply, done.reply = .ok reply ∧ Q reply (after tid x done)) :
    (agentContract json).Triple tid P (give cmd) (Post Q fun _ => False) :=
  triple_idle idle free steady (stable_post returns (.const False))
    fun x choice fresh done sound holds still step performed => by
      obtain ⟨reply, same, gained⟩ := reads x choice fresh done sound holds still step performed
      rw [same]
      exact gained

variable {lock : LockName}

theorem triple_acquire
    (steady : Steady json tid (some lock) P) :
    (agentContract json).Triple tid P (give (.acquire lock))
      (Post (fun _ x => P x ∧ Held tid lock x) fun _ => False) := by
  have idle : (Cmd.acquire lock).Idle := trivial
  have held : (agentContract json).Stable tid (Held tid lock) :=
    (steady_held (Option.some_ne_none lock).symm).stable
  refine triple_give steady.stable (stable_post (fun _ => steady.stable.and held) (.const False))
    fun x choice fresh done sound holds _ _ performed => ?_
  obtain ⟨step, none⟩ := idle_of_perform idle performed
  obtain ⟨acquired, replied, _⟩ := done_of_acquire performed
  obtain ⟨free, owns, _⟩ := owner_acquire acquired
  refine ⟨step.within sound fun touched same other _ owner => ?_, fun task begun => ?_, ?_⟩
  · cases same
    rw [free] at owner
    cases owner
  · rw [none] at begun
    cases begun
  · rw [replied]
    exact ⟨steady.idle _ _ _ sound step holds, owns⟩

theorem triple_release
    (steady : Steady json tid (some lock) P)
    (raises : (agentContract json).Stable tid F) :
    (agentContract json).Triple tid (fun x => P x ∧ Held tid lock x) (give (.release lock))
      (Post (fun _ => P) F) := by
  have idle : (Cmd.release lock).Idle := trivial
  have held : (agentContract json).Stable tid (Held tid lock) :=
    (steady_held (Option.some_ne_none lock).symm).stable
  refine triple_give (steady.stable.and held) (stable_post (fun _ => steady.stable) raises)
    fun x choice fresh done sound holds _ _ performed => ?_
  obtain ⟨step, none⟩ := idle_of_perform idle performed
  refine ⟨step.within sound fun touched same other different owner => ?_, fun task begun => ?_,
    ?_⟩
  · cases same
    have mine : x.1.owner lock = some tid := holds.2
    rw [mine] at owner
    exact absurd (Option.some.inj owner).symm different
  · rw [none] at begun
    cases begun
  · cases performed
    exact steady.idle _ _ _ sound step holds.1

/-- `with lock:` -/
theorem triple_withLock
    {body : Proc Out}
    {Q : Out -> World -> Prop}
    (steady : Steady json tid (some lock) P)
    (returns : ∀ out, Steady json tid (some lock) (Q out))
    (raises : Steady json tid (some lock) F)
    (inside : (agentContract json).Triple tid (fun x => P x ∧ Held tid lock x) body
      (Post (fun out x => Q out x ∧ Held tid lock x) fun x => F x ∧ Held tid lock x)) :
    (agentContract json).Triple tid P (withLock lock body) (Post Q F) := by
  have held : (agentContract json).Stable tid (Held tid lock) :=
    (steady_held (Option.some_ne_none lock).symm).stable
  refine ((triple_acquire steady).raising fun _ _ never => never.elim).seq fun _ => ?_
  exact inside.tryFinally (fun out => (returns out).stable.and held) (raises.stable.and held)
    (fun out => triple_release (returns out) raises.stable)
    (triple_release raises raises.stable) (fun out => (returns out).stable) raises.stable

end Agent
end Mpmt
