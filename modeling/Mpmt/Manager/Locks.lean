import Mpmt.Library.Locking
import Mpmt.Manager.Fifo

/-!
# The two locks of the Manager

`_sync_lock` may be taken under `_lock`, but not the other way round.
-/

namespace Mpmt
namespace Manager

open Effects Threads Contract

/-- What a command has to do with the locks. -/
def Cmd.grip : Cmd -> Grip LockName
  | .acquire lock => .take lock
  | .release lock => .free lock
  | _ => .none

/-- The thread that holds a lock. -/
def State.owner (s : State) : LockName -> Option Nat
  | .main => s.lock
  | .sync => s.syncLock

/-- `_sync_lock` is taken behind `_lock`. -/
def LockName.rank : LockName -> Nat
  | .main => 0
  | .sync => 1

section Commands

variable {s : State} {lock : LockName}

/-- The other commands leave the locks alone. -/
theorem owner_of_perform
    {cmd : Cmd}
    {done : Done interface PyError State Task cmd}
    (leaves : cmd.grip = .none)
    (performed : perform tid next choice cmd s = some done)
    (other : LockName) : done.state.owner other = s.owner other := by
  have same : done.state.lock = s.lock ∧ done.state.syncLock = s.syncLock := by
    cases cmd with
    | acquire | release => cases leaves
    | db dbCall =>
        rw [perform] at performed
        obtain ⟨_, ⟨_, _, same⟩ | ⟨_, _, _, _, _, same⟩⟩ := done_of_performDb performed
        · rw [same]
          exact ⟨rfl, rfl⟩
        · rw [same]
          exact ⟨rfl, rfl⟩
    | writeTaskStatus | recv | reconnect | settimeout | expired | time =>
        cases choice <;> cases performed <;> exact ⟨rfl, rfl⟩
    | spawn | makeServer | mktime | send =>
        cases choice with
        | go =>
            cases performed
            exact ⟨rfl, rfl⟩
        | fail error => cases error <;> cases performed <;> exact ⟨rfl, rfl⟩
        | _ => cases performed
    | input =>
        cases choice with
        | line text =>
            cases performed
            exact ⟨rfl, rfl⟩
        | fail error =>
            cases error <;> cases performed
            exact ⟨rfl, rfl⟩
        | _ => cases performed
    | _ =>
        cases performed
        exact ⟨rfl, rfl⟩
  cases other with
  | main => exact same.1
  | sync => exact same.2

theorem owner_of_acquire
    {done : Done interface PyError State Task (Cmd.acquire lock)}
    (performed : perform tid next choice (.acquire lock) s = some done) :
    s.owner lock = none ∧ (∃ reply, done.reply = .ok reply) ∧
      ∀ other, done.state.owner other = if other = lock then some tid else s.owner other := by
  cases lock with
  | main =>
      rw [perform] at performed
      split at performed
      · next free =>
          cases performed
          exact ⟨free, ⟨(), rfl⟩, fun other => by cases other <;> rfl⟩
      · cases performed
  | sync =>
      rw [perform] at performed
      split at performed
      · next free =>
          cases performed
          exact ⟨free, ⟨(), rfl⟩, fun other => by cases other <;> rfl⟩
      · cases performed

theorem owner_of_release
    {done : Done interface PyError State Task (Cmd.release lock)}
    (performed : perform tid next choice (.release lock) s = some done)
    (other : LockName) :
    done.state.owner other = if other = lock then none else s.owner other := by
  cases lock with
  | main =>
      cases performed
      cases other <;> rfl
  | sync =>
      cases performed
      cases other <;> rfl

/-- Every command but a lock that is held can be given. -/
theorem able_of_free
    {cmd : Cmd}
    (tid next : Nat)
    (free : ∀ lock, cmd.grip = .take lock -> s.owner lock = none) :
    ∃ choice, (perform tid next choice cmd s).isSome = true := by
  cases cmd with
  | acquire lock =>
      cases lock with
      | main =>
          have isFree : s.lock = none := free .main rfl
          exact ⟨.go, by rw [perform, if_pos isFree]; rfl⟩
      | sync =>
          have isFree : s.syncLock = none := free .sync rfl
          exact ⟨.go, by rw [perform, if_pos isFree]; rfl⟩
  | release lock => cases lock <;> exact ⟨.go, rfl⟩
  | db dbCall =>
      refine ⟨.clock 0, ?_⟩
      rw [perform, performDb]
      cases dbCall.apply 0 s.db <;> rfl
  | recv => exact ⟨.hear ⟨none, none, none, none⟩, rfl⟩
  | expired => exact ⟨.answer false, rfl⟩
  | time => exact ⟨.clock 0, rfl⟩
  | input => exact ⟨.line "", rfl⟩
  | _ => exact ⟨.go, rfl⟩

end Commands

/-- The locks of the Manager. -/
def managerLocks (cfg : Settings) : Locks (manager cfg) LockName where
  grip := Cmd.grip
  owner := State.owner
  rank := LockName.rank
  take := by
    intro tid next choice cmd s done lock takes performed
    cases cmd with
    | acquire lock' =>
        cases takes
        have taken : perform tid next choice (.acquire lock) s = some done := performed
        exact owner_of_acquire taken
    | _ => cases takes
  free := by
    intro tid next choice cmd s done lock frees performed
    cases cmd with
    | release lock' =>
        cases frees
        have freed : perform tid next choice (.release lock) s = some done := performed
        exact owner_of_release freed
    | _ => cases frees
  leave := by
    intro tid next choice cmd s done leaves performed
    have given : perform tid next choice cmd s = some done := performed
    exact owner_of_perform leaves given
  able := by
    intro tid next cmd s free
    obtain ⟨choice, done⟩ := able_of_free tid next free
    exact ⟨choice, Option.isSome_iff_exists.mp done⟩
  restarted := fun _ lock => by cases lock <;> rfl

end Manager
end Mpmt
