import Mpmt.Agent.Runs
import Mpmt.Library.Locking

/-!
# The three locks of the Agent

A worker that is refused at the execution slot holds `_exec_lock` while it tells
so, which takes `_send_lock`.  No thread takes them the other way round, and all
locks are freed whatever happens, so no thread waits for good.
-/

namespace Mpmt
namespace Agent

open Effects Threads

/-- What a command has to do with the locks. -/
def Cmd.grip : Cmd -> Grip LockName
  | .acquire lock => .take lock
  | .release lock => .free lock
  | _ => .none

/-- `_send_lock` is taken behind the others. -/
def LockName.rank : LockName -> Nat
  | .exec => 0
  | .reserved => 1
  | .send => 2

section Commands

variable {s : State} {lock : LockName} {tid fresh : Nat}

/-- The other commands leave the locks alone. -/
theorem owner_of_perform
    {cmd : Cmd}
    {done : Done interface PyError State Task cmd}
    (leaves : cmd.grip = .none)
    (performed : perform tid fresh choice cmd s = some done)
    (other : LockName) : done.state.owner other = s.owner other := by
  cases cmd with
  | acquire | release => cases leaves
  | accept =>
      obtain ⟨_, ⟨_, same⟩ | ⟨_, _, _, same⟩⟩ := done_of_risky performed
      · rw [same]
        cases other <;> rfl
      · rw [same]
  | sendall | close | settimeout | acceptClient =>
      obtain ⟨_, ⟨_, same⟩ | ⟨_, _, _, same⟩⟩ := done_of_risky performed
      · rw [same]
      · rw [same]
  | leave call =>
      rw [(done_of_leave performed).1]
      cases other <;> rfl
  | prepare | channel =>
      cases choice with
      | go | fail =>
          cases performed
          rfl
      | _ => cases performed
  | recv =>
      cases choice with
      | hear | fail =>
          rw [perform] at performed
          split at performed
          · cases performed
            rfl
          · cases performed
      | _ => cases performed
  | listen =>
      cases choice with
      | port =>
          cases performed
          cases other <;> rfl
      | fail =>
          rw [perform] at performed
          split at performed
          · cases performed
            rfl
          · cases performed
      | _ => cases performed
  | spawn =>
      cases choice with
      | go =>
          cases performed
          rfl
      | fail =>
          rw [perform] at performed
          split at performed
          · cases performed
          · cases performed
            rfl
      | _ => cases performed
  | _ =>
      cases performed
      cases other <;> rfl

/-- Every command but a lock that is held can be given. -/
theorem able_of_free
    {cmd : Cmd}
    (tid fresh : Nat)
    (free : ∀ lock, cmd.grip = .take lock -> s.owner lock = none) :
    ∃ choice, (perform tid fresh choice cmd s).isSome = true := by
  cases cmd with
  | acquire lock =>
      cases lock with
      | exec =>
          have isFree : s.execLock = none := free .exec rfl
          exact ⟨.go, by rw [perform, State.acquire, if_pos isFree]; rfl⟩
      | reserved =>
          have isFree : s.reservedLock = none := free .reserved rfl
          exact ⟨.go, by rw [perform, State.acquire, if_pos isFree]; rfl⟩
      | send =>
          have isFree : s.sendLock = none := free .send rfl
          exact ⟨.go, by rw [perform, State.acquire, if_pos isFree]; rfl⟩
  | release lock => exact ⟨.go, rfl⟩
  | recv => exact ⟨.hear [], rfl⟩
  | listen => exact ⟨.port 0, rfl⟩
  | leave call =>
      cases call with
      | join => exact ⟨.token "", rfl⟩
      | _ => exact ⟨.go, rfl⟩
  | _ => exact ⟨.go, rfl⟩

end Commands

/-- The locks of the Agent. -/
def agentLocks (json : Json) : Locks (agent json) LockName where
  grip := Cmd.grip
  owner := State.owner
  rank := LockName.rank
  take := by
    intro tid fresh choice cmd s done lock takes performed
    cases cmd with
    | acquire lock' =>
        cases takes
        have taken : perform tid fresh choice (.acquire lock) s = some done := performed
        obtain ⟨acquired, replied, _⟩ := done_of_acquire taken
        obtain ⟨free, owns, others, _⟩ := owner_acquire acquired
        refine ⟨free, ⟨(), replied⟩, fun other => ?_⟩
        split
        · next same => rw [same, owns]
        · next different => exact others other fun same => different (Option.some.inj same).symm
    | _ => cases takes
  free := by
    intro tid fresh choice cmd s done lock frees performed
    cases cmd with
    | release lock' =>
        cases frees
        cases performed
        exact owner_release s lock
    | _ => cases frees
  leave := by
    intro tid fresh choice cmd s done leaves performed
    have given : perform tid fresh choice cmd s = some done := performed
    exact owner_of_perform leaves given
  able := by
    intro tid fresh cmd s free
    obtain ⟨choice, done⟩ := able_of_free tid fresh free
    exact ⟨choice, Option.isSome_iff_exists.mp done⟩
  restarted := fun _ lock => by cases lock <;> rfl

/-! ## The programs -/

variable {json : Json} {held : List LockName}

/-- A program that keeps its locks, and is nowhere cut off. -/
structure Balanced (json : Json) (held : List LockName) (prog : Proc Out) : Prop where
  disciplined : (agentLocks json).Disciplined prog held held held
  whole : Whole prog

namespace Balanced

theorem bind
    {prog : Proc Out}
    {next : Out -> Proc Out'}
    (first : Balanced json held prog)
    (rest : ∀ out, Balanced json held (next out)) : Balanced json held (prog >>= next) :=
  ⟨first.disciplined.bind fun out => (rest out).disciplined,
    first.whole.bind fun out => (rest out).whole⟩

theorem tryExcept
    {prog : Proc Out}
    {handler : PyError -> Proc Out}
    (first : Balanced json held prog)
    (rest : ∀ error, Balanced json held (handler error)) :
    Balanced json held (prog.tryExcept handler) :=
  ⟨first.disciplined.tryExcept fun error => (rest error).disciplined,
    first.whole.tryExcept fun error => (rest error).whole⟩

theorem pure (out : Out) : Balanced json held (Pure.pure out : Proc Out) := ⟨rfl, trivial⟩

theorem raise (error : PyError) : Balanced json held (Effects.raise error : Proc Out) :=
  ⟨rfl, trivial⟩

theorem attempt
    {prog : Proc Out}
    (first : Balanced json held prog) : Balanced json held (Effects.attempt prog) :=
  (first.bind fun _ => pure _).tryExcept fun _ => pure _

theorem tryFinally
    {prog : Proc Out}
    {final : Proc Unit}
    (first : Balanced json held prog)
    (last : Balanced json held final) : Balanced json held (Effects.tryFinally prog final) := by
  refine first.attempt.bind fun result => last.bind fun _ => ?_
  cases result with
  | ok out => exact pure out
  | error error => exact raise error

theorem give
    {cmd : Cmd}
    (leaves : cmd.grip = .none) : Balanced json held (Agent.give cmd) :=
  ⟨.leave leaves, fun _ => trivial, fun _ => trivial⟩

theorem passing
    {body : Proc Unit}
    (first : Balanced json held body) : Balanced json held (Agent.passing body) := by
  refine first.attempt.bind fun result => ?_
  cases result with
  | ok => exact pure ()
  | error error =>
      dsimp only
      split
      · exact pure ()
      · exact raise error

/-- The locks that are held are lower. -/
theorem withLock
    {lock : LockName}
    {body : Proc Out}
    (above : ∀ other ∈ held, other.rank < lock.rank)
    (inside : Balanced json (lock :: held) body) :
    Balanced json held (Agent.withLock lock body) := by
  have takes : (Cmd.acquire lock).grip = .take lock := rfl
  have frees : (Cmd.release lock).grip = .free lock := rfl
  refine ⟨Locks.Disciplined.bind (.take takes above) fun _ =>
    inside.disciplined.tryFinally (.free frees), ?_⟩
  have whole : Whole (Effects.tryFinally body (Agent.give (.release lock))) :=
    inside.whole.tryFinally ⟨fun _ => trivial, fun _ => trivial⟩
  have gives : Whole (Agent.give (.acquire lock)) := ⟨fun _ => trivial, fun _ => trivial⟩
  exact gives.bind fun _ => whole

end Balanced

theorem balanced_stale (gen : Option Nat) : Balanced json held (stale gen) := by
  cases gen with
  | none => exact .pure _
  | some gen => exact (Balanced.give rfl).bind fun _ => .pure _

theorem balanced_sendOn (msg : Msg) : Balanced json held (sendOn msg) := by
  refine (Balanced.give rfl).bind fun conn => ?_
  cases conn with
  | none => exact .raise _
  | some conn => exact .give rfl

/-- A message can be sent under the other locks. -/
theorem balanced_send
    (msg : Msg)
    (gen : Option Nat)
    (above : ∀ other ∈ held, other.rank < LockName.send.rank) :
    Balanced json held (send msg gen) := by
  refine .withLock above ((balanced_stale gen).bind fun late => ?_)
  split
  · exact .pure ()
  · refine (Balanced.give rfl).bind fun conn => ?_
    cases conn with
    | none => exact .pure ()
    | some conn => exact Balanced.passing (balanced_sendOn msg)

/-- Without another lock. -/
theorem balanced_sends
    (msg : Msg)
    (gen : Option Nat) : Balanced json [] (send msg gen) :=
  balanced_send msg gen fun _ member => absurd member List.not_mem_nil

theorem balanced_alone
    {lock : LockName}
    {body : Proc Out}
    (inside : Balanced json [lock] body) : Balanced json [] (withLock lock body) :=
  .withLock (fun _ member => absurd member List.not_mem_nil) inside

variable {command : Command} {gen : Nat}

theorem balanced_reporting
    {body : Proc Unit}
    (first : Balanced json [] body) : Balanced json [] (reporting command gen body) :=
  first.tryExcept fun _ => (balanced_sends _ _).bind fun _ => .raise _

theorem balanced_storeReserved
    (key : String)
    (entry : Entry) : Balanced json [] (storeReserved key entry) := by
  refine balanced_alone ((Balanced.give rfl).bind fun old => ?_)
  cases old with
  | none => exact .give rfl
  | some old => exact (Balanced.passing (Balanced.give rfl)).bind fun _ => .give rfl

theorem balanced_formatted (text : Option String) : Balanced json held (formatted text) := by
  cases text with
  | none => exact .raise _
  | some text => exact .pure _

theorem balanced_cmdReserve : Balanced json [] (cmdReserve json command gen) := by
  refine balanced_reporting ((Balanced.give rfl).bind fun entry =>
    (Balanced.give rfl).bind fun generation => ?_)
  split
  · exact .give rfl
  · exact (balanced_formatted _).bind fun _ =>
      (balanced_storeReserved _ _).bind fun _ => balanced_sends _ _

theorem balanced_claimSlot : Balanced json [] (claimSlot command gen) := by
  refine balanced_alone ((Balanced.give rfl).bind fun taken => ?_)
  cases taken with
  | none => exact (Balanced.give rfl).bind fun _ => .pure _
  | some other =>
      refine Balanced.bind (balanced_send _ _ fun lock member => ?_) fun _ => .pure _
      rw [List.mem_singleton.mp member]
      decide

theorem balanced_inSlot
    {body : Proc Unit}
    (first : Balanced json [] body) : Balanced json [] (inSlot command gen body) := by
  refine balanced_claimSlot.bind fun taken => ?_
  split
  · exact (balanced_reporting first).tryFinally (balanced_alone (Balanced.give rfl))
  · exact .pure ()

theorem balanced_protCall (call : Call) : Balanced json [] (protCall call) :=
  (Balanced.give rfl).bind fun _ => .give rfl

theorem balanced_takeReserved
    (userId protType : PyJson) : Balanced json [] (takeReserved json userId protType) :=
  balanced_alone ((balanced_formatted _).bind fun _ => .give rfl)

theorem balanced_acceptClient (sock : Nat) : Balanced json [] (acceptClient command gen sock) := by
  refine Balanced.tryFinally (Balanced.tryExcept ?_ fun error => ?_)
    (Balanced.passing (Balanced.give rfl))
  · exact (Balanced.give rfl).bind fun _ => (Balanced.give rfl).bind fun _ => .pure _
  · split
    · exact (balanced_sends _ _).bind fun _ => .pure _
    · exact .raise _

theorem balanced_serveClient : Balanced json [] (serveClient command gen) := by
  refine (Balanced.give rfl).bind fun _ => ?_
  split
  · exact (balanced_protCall _).bind fun _ => balanced_sends _ _
  split
  · exact (balanced_protCall _).bind fun _ => balanced_sends _ _
  · exact (balanced_protCall _).bind fun _ => balanced_sends _ _

theorem balanced_executeAccept : Balanced json [] (executeAccept json command gen) := by
  rw [executeAccept]
  split
  · refine (balanced_takeReserved _ _).bind fun taken => ?_
    cases taken with
    | none => exact balanced_sends _ _
    | some entry => exact (Balanced.passing (Balanced.give rfl)).bind fun _ => balanced_sends _ _
  · refine (balanced_takeReserved _ _).bind fun taken => ?_
    cases taken with
    | none => exact balanced_sends _ _
    | some entry =>
        refine (balanced_acceptClient _).bind fun came => ?_
        split
        · exact balanced_serveClient
        · exact .pure ()

theorem balanced_executeBody : Balanced json [] (executeBody json command gen) := by
  rw [executeBody]
  split
  · split
    · exact balanced_sends _ _
    · exact (balanced_protCall _).bind fun _ => balanced_sends _ _
  split
  · exact balanced_executeAccept
  · exact (balanced_formatted _).bind fun _ => balanced_sends _ _

theorem balanced_syncBody : Balanced json [] (syncBody command gen) :=
  (balanced_protCall _).bind fun _ => balanced_sends _ _

theorem balanced_method : Balanced json [] (method json command gen) := by
  rw [method]
  split
  · exact balanced_cmdReserve
  split
  · exact balanced_inSlot balanced_executeBody
  · exact balanced_inSlot balanced_syncBody

theorem balanced_runCmd : Balanced json [] (runCmd json command gen) := by
  rw [runCmd]
  split
  · exact .raise _
  · refine (Balanced.give rfl).bind fun _ => balanced_method.attempt.bind fun result => ?_
    cases result with
    | ok => exact .give rfl
    | error => exact .give rfl

theorem balanced_dispatch (msg : PyJson) : Balanced json [] (dispatch json msg) := by
  rw [dispatch]
  split
  · exact .raise _
  · exact balanced_sends _ _
  · exact (Balanced.give rfl).bind fun _ => (balanced_sends _ _).bind fun _ =>
      (Balanced.give rfl).bind fun _ => .pure _

theorem balanced_dispatchEach
    (values : List PyJson) : Balanced json [] (dispatchEach json values) := by
  induction values with
  | nil => exact .pure ()
  | cons msg rest inductionHypothesis =>
      exact (balanced_dispatch msg).bind fun _ => inductionHypothesis

theorem balanced_receiveRound (buf : Bytes) : Balanced json [] (receiveRound json buf) := by
  refine (Balanced.give rfl).bind fun conn => ?_
  cases conn with
  | none => exact .raise _
  | some conn =>
      refine (Balanced.give rfl).bind fun chunk => ?_
      split
      · exact .pure _
      split
      · exact .raise _
      · refine (balanced_dispatchEach _).bind fun _ => ?_
        split
        · exact .raise _
        · exact .pure _

theorem balanced_next (task : Task) : Balanced json [] (do let _ ← Agent.give (.proceed task)) :=
  (Balanced.give rfl).bind fun _ => .pure _

theorem balanced_receive (buf : Bytes) : Balanced json [] (receive json buf) := by
  refine (balanced_receiveRound buf).attempt.bind fun result => ?_
  cases result with
  | error => exact balanced_next _
  | ok left =>
      cases left with
      | none => exact balanced_next _
      | some left => exact balanced_next _

theorem balanced_closeEach (entries : List Entry) : Balanced json held (closeEach entries) := by
  induction entries with
  | nil => exact .pure ()
  | cons entry rest inductionHypothesis =>
      exact (Balanced.passing (Balanced.give rfl)).bind fun _ => inductionHypothesis

theorem balanced_serve : Balanced json [] serve := by
  refine (Balanced.give rfl).bind fun _ => (Balanced.give rfl).bind fun _ =>
    (Balanced.give rfl).bind fun _ => Balanced.bind (balanced_alone ?_) fun _ => balanced_next _
  exact (Balanced.give rfl).bind fun entries => (balanced_closeEach entries).bind fun _ => .give rfl

/-- Every thread keeps its locks in order. -/
theorem balanced_program (task : Task) : Balanced json [] (program json task) := by
  cases task with
  | start => exact (Balanced.give rfl).bind fun _ => balanced_next _
  | serve => exact balanced_serve
  | receive buf => exact balanced_receive buf
  | worker command gen => exact balanced_runCmd

/-! ## Runs -/

instance : Fintype LockName := ⟨{.exec, .reserved, .send}, fun lock => by cases lock <;> decide⟩

/-- However the threads of the Agent have been interleaved, and whatever has failed,
a thread that has ended holds no lock, and the threads that hold one can go on,
without any other, until all three are free. -/
theorem locks_released
    {trace : List Instant}
    {c : Config interface PyError State}
    (json : Json)
    (run : Run (agent json) (initial json) trace c) :
    (∀ tid prog lock, c.threads.get? tid = some prog ->
      (∃ out, prog = .ret out) ∨ (∃ error, prog = .raise error) ->
        c.state.owner lock ≠ some tid) ∧
      ∃ trace' c', Run (agent json) c trace' c' ∧
        (∀ moment ∈ trace', ∃ event lock, moment.label = .did event ∧
          moment.before.owner lock = some event.tid) ∧
        ∀ lock, c'.state.owner lock = none := by
  have disciplined : ∀ task, (agentLocks json).Disciplined (program json task) [] [] [] :=
    fun task => (balanced_program task).disciplined
  have kept : (agentLocks json).Kept c :=
    (Locks.Kept.boot (fun lock => by cases lock <;> rfl) (disciplined .start)).run disciplined run
  refine ⟨fun tid prog lock found ended => kept.ended found ended lock, ?_⟩
  obtain ⟨c', ⟨trace', run', holders⟩, result⟩ := kept.released disciplined
  refine ⟨trace', c', run', holders, ?_⟩
  rcases result with ⟨lock, tid, _, cut⟩ | free
  · have programs : ∀ task, Whole (program json task) := fun task =>
      (balanced_program task).whole
    have whole := Whole.run programs (run.append run') tid _ cut
    exact whole.elim
  · exact free

theorem locks_released_synced :
    (∀ tid prog lock, sampleSynced.2.threads.get? tid = some prog ->
      (∃ out, prog = .ret out) ∨ (∃ error, prog = .raise error) ->
        sampleSynced.2.state.owner lock ≠ some tid) ∧
      ∃ trace' c', Run (agent sampleJson) sampleSynced.2 trace' c' ∧
        (∀ moment ∈ trace', ∃ event lock, moment.label = .did event ∧
          moment.before.owner lock = some event.tid) ∧
        ∀ lock, c'.state.owner lock = none :=
  locks_released sampleJson (.driven _)

end Agent
end Mpmt
