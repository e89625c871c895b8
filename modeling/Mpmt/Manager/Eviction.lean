import Mpmt.Manager.Faces
import Mpmt.Manager.Locks

/-!
# The eviction of stale heads comes to its end

Every round of the eviction removes a QUEUED operation, and while a thread holds
`_lock` no other one lets an operation become QUEUED.  So the loop needs at most
one round more than operations are QUEUED when the lock is taken.  What a
thread knows of their number is followed along its program.
-/

namespace Mpmt
namespace Manager

open Effects Threads Contract

/-! ## The QUEUED operations -/

/-- A command by which an operation can become QUEUED, or a request is taken. -/
def Cmd.risky : Cmd -> Bool
  | .db (.enqueueReserved _) => true
  | .db (.updateOperation _ status _) => status == .queued
  | .spawn (.handle _ _) => true
  | _ => false

theorem Cmd.Quiet.keeps
    {cmd : Cmd}
    (quiet : cmd.Quiet) : cmd.risky = false := by
  cases cmd with
  | db dbCall =>
      cases dbCall with
      | updateOperation | enqueueReserved => cases quiet
      | _ => rfl
  | spawn => cases quiet
  | _ => rfl

namespace Db

variable {db db' : Db} {opId : Nat}

theorem Recast.queued
    {change : Nat -> OpStatus -> OpStatus}
    (recast : db.Recast db' change)
    (old : ∀ opId status, change opId status = .queued -> status = .queued)
    (queued : db'.statusOf opId = some .queued) : db.statusOf opId = some .queued := by
  rw [statusOf_eq, recast, Option.map_map, Option.map_eq_some_iff] at queued
  obtain ⟨face, found, status⟩ := queued
  rw [statusOf_eq, found, Option.map_some, old opId face.status status]

theorem Recast.queued_of_setting
    {target : Nat}
    {status : OpStatus}
    (recast : db.Recast db' (setting target status))
    (other : status ≠ .queued)
    (queued : db'.statusOf opId = some .queued) :
    db.statusOf opId = some .queued ∧ opId ≠ target := by
  have different : opId ≠ target := by
    rintro rfl
    rw [statusOf_eq, recast, Option.map_map, Option.map_eq_some_iff] at queued
    obtain ⟨face, _, is⟩ := queued
    have set : setting opId status opId face.status = .queued := is
    rw [setting, if_pos rfl] at set
    exact other set
  refine ⟨?_, different⟩
  rw [statusOf_eq, ← recast.setting_other different, ← statusOf_eq]
  exact queued

/-- Other methods leave nothing QUEUED that was not. -/
theorem queued_of_apply
    {dbCall : DbCall}
    {reply : dbCall.Reply}
    (applied : dbCall.apply now db = .ok (reply, db'))
    (keeps : Cmd.risky (.db dbCall) = false)
    (queued : db'.statusOf opId = some .queued) : db.statusOf opId = some .queued := by
  have unchanged : ∀ opId status, still opId status = .queued -> status = .queued :=
    fun _ _ same => same
  cases dbCall with
  | getUser | getOperation | getLiveOperation | getAgentToken | firstQueued | getActive
  | queuePositionOf =>
      cases applied
      exact queued
  | ensureUser userId role =>
      cases applied
      refine (recast_of_same ?_).queued unchanged queued
      unfold ensureUser
      split
      · rfl
      · rfl
  | createReservedOperation userId protType =>
      have created : db.createReservedOperation userId protType now = .ok (reply, db') := applied
      unfold createReservedOperation at created
      split at created
      · cases created
      · split at created
        · cases created
        · cases created
          rw [statusOf, Dict.get?_set] at queued
          split at queued
          · cases queued
          · exact queued
  | enqueueReserved => cases keeps
  | updateOperation target status columns =>
      cases applied
      have other : status ≠ .queued := by
        rintro rfl
        cases keeps
      exact ((recast_updateOperation rfl).queued_of_setting other queued).1
  | completeJoin target userId tokens =>
      rw [DbCall.apply] at applied
      cases completed : db.completeJoin target userId tokens now with
      | error error =>
          rw [completed] at applied
          cases applied
      | ok after =>
          rw [completed] at applied
          cases applied
          exact ((completeJoin_eq_ok completed).1.queued_of_setting (by decide) queued).1
  | completeQuit | failOperation =>
      cases applied
      exact ((recast_updateOperation rfl).queued_of_setting (by decide) queued).1
  | failAllLiveOperations errorCode =>
      cases applied
      refine (recast_failAllLiveOperations _ _ _).queued (fun _ status => ?_) queued
      cases status <;> decide
  | reconcileOnStartup =>
      cases applied
      refine (recast_reconcileOnStartup _ _).queued (fun _ status => ?_) queued
      cases status <;> decide
  | touchOperation target =>
      cases applied
      exact (recast_touchOperation _ _ _).queued unchanged queued
  | reorderQueue =>
      cases applied
      exact (recast_reorderQueue _).queued unchanged queued
  | promoteFirstQueued =>
      have after : (db.promoteFirstQueued now).2 = db' :=
        congrArg Prod.snd (Except.ok.inj applied)
      rw [← after] at queued
      cases first : db.firstQueued with
      | none =>
          rw [promoteFirstQueued, first] at queued
          exact queued
      | some row =>
          exact ((recast_promoteFirstQueued first now).queued_of_setting (by decide) queued).1

/-- At most `count` operations are QUEUED, apart from `head`. -/
def AtMost (db : Db) (count : Nat) (head : Option Nat) : Prop :=
  ∃ opIds : List Nat, opIds.length ≤ count ∧
    ∀ opId, db.statusOf opId = some .queued -> some opId ≠ head -> opId ∈ opIds

theorem atMost_queueSize (db : Db) : db.AtMost db.queueSize none := by
  refine ⟨(db.rowsWhere fun op => op.status = .queued).map Prod.fst,
    by rw [List.length_map, queueSize], fun opId queued _ => ?_⟩
  obtain ⟨op, found, status⟩ := statusOf_eq_some queued
  exact List.mem_map.mpr ⟨(opId, op), mem_rowsWhere.mpr ⟨found, by simp [status]⟩, rfl⟩

theorem AtMost.mono
    {count count' : Nat}
    {head : Option Nat}
    (most : db.AtMost count head)
    (le : count ≤ count')
    (old : ∀ opId, db'.statusOf opId = some .queued -> db.statusOf opId = some .queued) :
    db'.AtMost count' head := by
  obtain ⟨opIds, length, all⟩ := most
  exact ⟨opIds, length.trans le, fun opId queued => all opId (old opId queued)⟩

/-- The first of the QUEUED operations is set aside. -/
theorem AtMost.first
    {count : Nat}
    {op : Operation}
    (most : db.AtMost count none)
    (first : db.firstQueued = some (opId, op)) :
    0 < count ∧ db.AtMost (count - 1) (some opId) := by
  obtain ⟨opIds, length, all⟩ := most
  obtain ⟨found, queued⟩ := faceOf_of_firstQueued first
  have status : db.statusOf opId = some .queued := by
    rw [statusOf_eq, found, Option.map_some]
    exact congrArg some queued
  have member : opId ∈ opIds := all opId status (by simp)
  have erased : (opIds.erase opId).length = opIds.length - 1 := List.length_erase_of_mem member
  have positive : 0 < opIds.length := List.length_pos_of_mem member
  refine ⟨by omega, opIds.erase opId, by omega, fun other queued different => ?_⟩
  exact (List.mem_erase_of_ne fun same => different (congrArg some same)).mpr
    (all other queued (by simp))

/-- What was set aside is removed. -/
theorem AtMost.removed
    {count : Nat}
    (most : db.AtMost count (some opId))
    (old : ∀ other, db'.statusOf other = some .queued ->
      db.statusOf other = some .queued ∧ other ≠ opId) : db'.AtMost count none := by
  obtain ⟨opIds, length, all⟩ := most
  refine ⟨opIds, length, fun other queued _ => ?_⟩
  obtain ⟨before, different⟩ := old other queued
  exact all other before fun same => different (Option.some.inj same)

end Db

/-! ## What a thread knows of them -/

/-- While it holds `_lock`: at most `count` operations are QUEUED, apart from
`head`, which the thread is about to remove. -/
structure Sight where
  count : Nat
  head : Option Nat

/-- The sight holds of a state, in the thread `tid`. -/
def Sight.Holds (tid : Nat) (s : State) (sight : Sight) : Prop :=
  s.lock = some tid ∧ s.db.AtMost sight.count sight.head

/-- What the thread knows holds; a thread without a sight knows nothing. -/
def Knows (tid : Nat) (s : State) (sight : Option Sight) : Prop :=
  ∀ known, sight = some known -> known.Holds tid s

/-- What a thread knows behind a command.  When it takes the lock, at most
`bound` operations are QUEUED. -/
def behind (bound : Nat) (sight : Option Sight) : (cmd : Cmd) -> cmd.Reply -> Option Sight
  | .acquire .main, _ => some ⟨bound, none⟩
  | .release .main, _ => none
  | .db (.enqueueReserved _), _ | .db (.updateOperation _ .queued _), _ => none
  | .db .firstQueued, some (opId, _) =>
      match sight with
      | some ⟨count, none⟩ => some ⟨count - 1, some opId⟩
      | other => other
  | .db (.updateOperation opId .removed _), _ =>
      match sight with
      | some ⟨count, some head⟩ =>
          if head = opId then some ⟨count, none⟩ else some ⟨count, some head⟩
      | other => other
  | _, _ => sight

/-- The answers that are possible with what the thread knows. -/
def Possible (sight : Option Sight) : (cmd : Cmd) -> cmd.Reply -> Prop
  | .db .firstQueued, some _ => ∀ count, sight = some ⟨count, none⟩ -> 0 < count
  | _, _ => True

section Steps

variable {bound : Nat} {sight : Option Sight} {s : State} {tid : Nat}

theorem knows_none : Knows tid s none := nofun

/-- A step that leaves the lock and lets nothing become QUEUED. -/
theorem Knows.kept
    {s' : State}
    (knows : Knows tid s sight)
    (lock : s.lock = some tid -> s'.lock = some tid)
    (old : ∀ opId, s'.db.statusOf opId = some .queued -> s.db.statusOf opId = some .queued) :
    Knows tid s' sight := by
  intro known same
  obtain ⟨holds, most⟩ := knows known same
  exact ⟨lock holds, most.mono le_rfl old⟩

theorem queued_of_perform
    {cmd : Cmd}
    {done : Done interface PyError State Task cmd}
    (performed : perform tid next choice cmd s = some done)
    (keeps : cmd.risky = false)
    (queued : done.state.db.statusOf opId = some .queued) :
    s.db.statusOf opId = some .queued := by
  rcases db_of_perform performed with same | ⟨dbCall, now, reply, rfl, applied⟩
  · rwa [same] at queued
  · exact Db.queued_of_apply applied keeps queued

/-- What a database method leaves of it. -/
theorem Knows.applied
    {dbCall : DbCall}
    {reply : dbCall.Reply}
    {db : Db}
    (knows : Knows tid s sight)
    (applied : dbCall.apply now s.db = .ok (reply, db)) :
    Possible sight (.db dbCall) reply ∧
      Knows tid { s with db := db } (behind bound sight (.db dbCall) reply) := by
  have kept (keeps : Cmd.risky (.db dbCall) = false) : Knows tid { s with db := db } sight :=
    knows.kept (fun lock => lock) fun _ queued => Db.queued_of_apply applied keeps queued
  cases dbCall with
  | enqueueReserved opId => exact ⟨trivial, knows_none⟩
  | firstQueued =>
      have same : reply = s.db.firstQueued ∧ db = s.db := by
        cases applied
        exact ⟨rfl, rfl⟩
      obtain ⟨rfl, rfl⟩ := same
      cases first : s.db.firstQueued with
      | none => exact ⟨trivial, kept rfl⟩
      | some row =>
          refine ⟨fun count known => ((knows _ known).2.first first).1, ?_⟩
          match sight, knows, kept rfl with
          | none, _, _ => exact knows_none
          | some ⟨_, some _⟩, _, kept => exact kept
          | some ⟨count, none⟩, knows, _ =>
              rintro _ ⟨⟩
              obtain ⟨lock, most⟩ := knows _ rfl
              exact ⟨lock, (most.first first).2⟩
  | updateOperation opId status columns =>
      refine ⟨trivial, ?_⟩
      cases status with
      | removed =>
          match sight, knows, kept rfl with
          | none, _, _ => exact knows_none
          | some ⟨_, none⟩, _, kept => exact kept
          | some ⟨count, some head⟩, knows, kept =>
              rw [behind]
              split
              · next same =>
                  subst same
                  rintro _ ⟨⟩
                  obtain ⟨lock, most⟩ := knows _ rfl
                  cases applied
                  exact ⟨lock, most.removed fun _ queued =>
                    (Db.recast_updateOperation rfl).queued_of_setting (by decide) queued⟩
              · exact kept
      | queued => exact knows_none
      | _ => exact kept rfl
  | _ => exact ⟨trivial, kept rfl⟩

/-- What a thread knows behind its own step. -/
theorem Knows.step
    {cmd : Cmd}
    {done : Done interface PyError State Task cmd}
    (knows : Knows tid s sight)
    (performed : perform tid next choice cmd s = some done)
    (bounded : cmd = .acquire .main -> s.db.queueSize ≤ bound) :
    match done.reply with
    | .ok reply => Possible sight cmd reply ∧ Knows tid done.state (behind bound sight cmd reply)
    | .error _ => Knows tid done.state sight := by
  cases cmd with
  | acquire lock =>
      cases lock with
      | main =>
          rw [perform] at performed
          split at performed
          · cases performed
            refine ⟨trivial, ?_⟩
            rintro _ ⟨⟩
            exact ⟨rfl, (Db.atMost_queueSize _).mono (bounded rfl) fun _ queued => queued⟩
          · cases performed
      | sync =>
          rw [perform] at performed
          split at performed
          · cases performed
            exact ⟨trivial, knows.kept (fun lock => lock) fun _ queued => queued⟩
          · cases performed
  | release lock =>
      cases lock with
      | main =>
          cases performed
          exact ⟨trivial, knows_none⟩
      | sync =>
          cases performed
          exact ⟨trivial, knows.kept (fun lock => lock) fun _ queued => queued⟩
  | db dbCall =>
      rw [perform] at performed
      obtain ⟨_, ⟨error, replied, same⟩ | ⟨_, reply, _, applied, replied, same⟩⟩ :=
        done_of_performDb performed
      · rw [replied, same]
        exact knows
      · rw [replied, same]
        exact knows.applied applied
  | _ =>
      have lock := owner_of_perform rfl performed .main
      have same : done.state.db = s.db := by
        refine (db_of_perform performed).resolve_right ?_
        rintro ⟨_, _, _, other, _⟩
        cases other
      have kept : Knows tid done.state sight :=
        knows.kept (fun holds => lock.trans holds) fun _ queued => by rwa [same] at queued
      split
      · exact ⟨trivial, kept⟩
      · exact kept

/-- What a thread knows behind the step of another one, which lets an operation
become QUEUED only with a sight of its own. -/
theorem Knows.others
    {other : Nat}
    {sight' : Option Sight}
    {cmd : Cmd}
    {done : Done interface PyError State Task cmd}
    (knows : Knows other s sight')
    (different : other ≠ tid)
    (own : Knows tid s sight)
    (permitted : cmd.risky = true -> sight.isSome = true)
    (performed : perform tid next choice cmd s = some done)
    (locked : s.lock = some other -> done.state.lock = some other) :
    Knows other done.state sight' := by
  intro known same
  obtain ⟨holds, most⟩ := knows known same
  have keeps : cmd.risky = false := by
    rw [← Bool.not_eq_true]
    intro risky
    obtain ⟨mine, is⟩ := Option.isSome_iff_exists.mp (permitted risky)
    exact different (Option.some.inj (holds.symm.trans (own mine is).1))
  exact ⟨locked holds, most.mono le_rfl fun _ => queued_of_perform performed keeps⟩

end Steps

/-! ## Programs -/

/-- From `sight` on, the thread runs its program without being cut off, lets an
operation become QUEUED only under the lock, takes no request, and ends with
`Q`. -/
def Lasts (bound : Nat) :
    Proc Out -> (Except PyError Out -> Option Sight -> Prop) -> Option Sight -> Prop
  | .ret out, Q, sight => Q (.ok out) sight
  | .raise error, Q, sight => Q (.error error) sight
  | .call cmd next failed, Q, sight =>
      (Cmd.risky cmd = true -> sight.isSome = true ∧ ∃ dbCall, cmd = Cmd.db dbCall) ∧
        (∀ reply, Possible sight cmd reply ->
          Lasts bound (next reply) Q (behind bound sight cmd reply)) ∧
        ∀ error, Lasts bound (failed error) Q sight
  | _, _, _ => False

section Programs

variable {bound : Nat} {sight : Option Sight}

theorem Lasts.mono
    {prog : Proc Out}
    {Q Q' : Except PyError Out -> Option Sight -> Prop}
    (lasts : Lasts bound prog Q sight)
    (weaker : ∀ result sight, Q result sight -> Q' result sight) :
    Lasts bound prog Q' sight := by
  induction prog generalizing sight with
  | ret | raise => exact weaker _ _ lasts
  | unfinished | get | set => exact lasts
  | call cmd next failed inductionHypothesis inductionHypothesis' =>
      exact ⟨lasts.1, fun reply possible => inductionHypothesis reply (lasts.2.1 reply possible),
        fun error => inductionHypothesis' error (lasts.2.2 error)⟩

theorem Lasts.bind
    {prog : Proc Out}
    {next : Out -> Proc Out'}
    {Q : Except PyError Out' -> Option Sight -> Prop}
    (first : Lasts bound prog (fun
      | .ok out, sight => Lasts bound (next out) Q sight
      | .error error, sight => Q (.error error) sight) sight) :
    Lasts bound (prog >>= next) Q sight := by
  show Lasts bound (prog.bind next) Q sight
  induction prog generalizing sight with
  | ret | raise => exact first
  | unfinished | get | set => exact first.elim
  | call cmd more failed inductionHypothesis inductionHypothesis' =>
      exact ⟨first.1, fun reply possible => inductionHypothesis reply (first.2.1 reply possible),
        fun error => inductionHypothesis' error (first.2.2 error)⟩

theorem Lasts.tryExcept
    {prog : Proc Out}
    {handler : PyError -> Proc Out}
    {Q : Except PyError Out -> Option Sight -> Prop}
    (first : Lasts bound prog (fun
      | .ok out, sight => Q (.ok out) sight
      | .error error, sight => Lasts bound (handler error) Q sight) sight) :
    Lasts bound (prog.tryExcept handler) Q sight := by
  induction prog generalizing sight with
  | ret | raise => exact first
  | unfinished | get | set => exact first.elim
  | call cmd more failed inductionHypothesis inductionHypothesis' =>
      exact ⟨first.1, fun reply possible => inductionHypothesis reply (first.2.1 reply possible),
        fun error => inductionHypothesis' error (first.2.2 error)⟩

/-- `attempt` ends as its program does. -/
theorem Lasts.attempt
    {prog : Proc Out}
    {Q : Except PyError (Except PyError Out) -> Option Sight -> Prop}
    (first : Lasts bound prog (fun result => Q (.ok result)) sight) :
    Lasts bound (Effects.attempt prog) Q sight := by
  refine Lasts.tryExcept (Lasts.bind (first.mono fun result sight holds => ?_))
  cases result with
  | ok | error => exact holds

end Programs

/-! ### Programs that can run from any sight -/

/-- The program lasts from any sight, and what the thread knows behind it is
related by `R` to what it knew before. -/
def Endures (R : Option Sight -> Option Sight -> Prop) (bound : Nat) (prog : Proc Out) : Prop :=
  ∀ sight, Lasts bound prog (fun _ => R sight) sight

/-- Nothing is said about what the thread knows behind a program. -/
abbrev Whatever (_ _ : Option Sight) : Prop := True

instance : Std.Refl Whatever := ⟨fun _ => trivial⟩

instance : IsTrans (Option Sight) Whatever := ⟨fun _ _ _ _ _ => trivial⟩

namespace Endures

variable {bound : Nat} {R : Option Sight -> Option Sight -> Prop} {sight : Option Sight}

/-- A program that lasts from any sight, and what follows it. -/
theorem followed
    {prog : Proc Out}
    {next : Out -> Proc Out'}
    {Q : Except PyError Out' -> Option Sight -> Prop}
    (first : Endures R bound prog)
    (rest : ∀ out sight', R sight sight' -> Lasts bound (next out) Q sight')
    (raised : ∀ error sight', R sight sight' -> Q (.error error) sight') :
    Lasts bound (prog >>= next) Q sight := by
  refine Lasts.bind ((first sight).mono fun result sight' related => ?_)
  cases result with
  | ok out => exact rest out sight' related
  | error error => exact raised error sight' related

theorem bind
    [IsTrans (Option Sight) R]
    {prog : Proc Out}
    {next : Out -> Proc Out'}
    (first : Endures R bound prog)
    (rest : ∀ out, Endures R bound (next out)) : Endures R bound (prog >>= next) := fun _ =>
  first.followed
    (fun out sight' related => (rest out sight').mono fun _ _ => IsTrans.trans _ _ _ related)
    fun _ _ related => related

theorem tryExcept
    [IsTrans (Option Sight) R]
    {prog : Proc Out}
    {handler : PyError -> Proc Out}
    (first : Endures R bound prog)
    (rest : ∀ error, Endures R bound (handler error)) :
    Endures R bound (prog.tryExcept handler) := by
  refine fun _ => Lasts.tryExcept ((first _).mono fun result sight' related => ?_)
  cases result with
  | ok out => exact related
  | error error => exact (rest error sight').mono fun _ _ => IsTrans.trans _ _ _ related

variable [Std.Refl R]

theorem pure (out : Out) : Endures R bound (Pure.pure out : Proc Out) := fun _ => refl _

theorem raise (error : PyError) : Endures R bound (Effects.raise error : Proc Out) :=
  fun _ => refl _

theorem give
    {cmd : Cmd}
    (keeps : cmd.risky = false)
    (leaves : ∀ sight reply, R sight (behind bound sight cmd reply)) :
    Endures R bound (Manager.give cmd) := by
  refine fun sight => ⟨fun risky => ?_, fun reply _ => leaves sight reply, fun _ => refl _⟩
  rw [keeps] at risky
  cases risky

variable [IsTrans (Option Sight) R]

theorem attempt
    {prog : Proc Out}
    (first : Endures R bound prog) : Endures R bound (Effects.attempt prog) :=
  (first.bind fun _ => pure _).tryExcept fun _ => pure _

theorem tryFinally
    {prog : Proc Out}
    {final : Proc Unit}
    (first : Endures R bound prog)
    (last : Endures R bound final) : Endures R bound (Effects.tryFinally prog final) := by
  refine first.attempt.bind fun result => last.bind fun _ => ?_
  cases result with
  | ok out => exact pure out
  | error error => exact raise error

end Endures

/-- A conversation with the Agents. -/
theorem Quiet.endures
    {prog : Proc Out}
    (quiet : Quiet prog) : Endures Whatever bound prog := by
  obtain ⟨only, whole⟩ := quiet
  induction prog with
  | ret | raise => exact fun _ => trivial
  | unfinished => exact whole.elim
  | get | set => exact only.elim
  | call cmd next failed inductionHypothesis inductionHypothesis' =>
      refine fun sight => ⟨fun risky => ?_, fun reply _ => ?_, fun error => ?_⟩
      · have keeps : Cmd.risky cmd = false := Cmd.Quiet.keeps only.1
        rw [keeps] at risky
        cases risky
      · exact (inductionHypothesis reply (only.2.1 reply) (whole.1 reply) _).mono
          fun _ _ _ => trivial
      · exact inductionHypothesis' error (only.2.2 error) (whole.2 error) sight

/-! ## The eviction -/

section Evicting

variable {cfg : Settings} {bound : Nat} {sight : Option Sight}

/-- The part of a program that leaves alone what the thread knows. -/
abbrev Unmoved (bound : Nat) (prog : Proc Out) : Prop := Endures Eq bound prog

theorem unmoved_getOperation (opId : Nat) : Unmoved bound (getOperation opId) := by
  refine Endures.bind (.give rfl fun _ _ => rfl) fun row => ?_
  cases row with
  | none => exact .raise _
  | some row => exact .pure _

theorem unmoved_syncHasPriority : Unmoved bound syncHasPriority := by
  refine Endures.bind (.give rfl fun _ _ => rfl) fun _ => .tryFinally ?_ (.give rfl fun _ _ => rfl)
  refine Endures.bind (.give rfl fun _ _ => rfl) fun queue => ?_
  split
  · exact .pure true
  · exact Endures.bind (.give rfl fun _ _ => rfl) fun _ => .pure _

/-- More rounds than operations are QUEUED are enough. -/
theorem lasts_evictStaleQueueHeads
    {count rounds : Nat}
    (now : Time)
    (enough : count < rounds) :
    Lasts bound (evictStaleQueueHeads cfg now rounds) (fun _ _ => True) (some ⟨count, none⟩) := by
  induction rounds generalizing count with
  | zero => exact absurd enough (Nat.not_lt_zero count)
  | succ rounds inductionHypothesis =>
      refine ⟨nofun, fun first possible => ?_, fun _ => trivial⟩
      cases first with
      | none => exact trivial
      | some row =>
          have positive : 0 < count := possible count rfl
          have looked : Unmoved bound (attempt (give (.mktime row.2.updatedAt))) :=
            .attempt (.give rfl fun _ _ => rfl)
          refine looked.followed (fun updated sight' same => ?_) fun _ _ _ => trivial
          cases updated with
          | error => exact trivial
          | ok updated =>
              dsimp only
              split
              · refine ⟨nofun, fun _ _ => ?_, fun _ => trivial⟩
                have ordered : Unmoved bound (db .reorderQueue) := .give rfl fun _ _ => rfl
                refine ordered.followed (fun _ sight'' same' => ?_) fun _ _ _ => trivial
                have removed : sight'' = some ⟨count - 1, none⟩ := by
                  rw [← same', ← same]
                  exact if_pos rfl
                rw [removed]
                exact inductionHypothesis (by omega)
              · exact trivial

end Evicting

end Manager
end Mpmt
