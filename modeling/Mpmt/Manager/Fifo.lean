import Mpmt.Manager.Calls
import Mpmt.Manager.Queue

/-!
# First in, first out

In every run the QUEUED operations stand in the order in which they became
QUEUED, and the one that is promoted is the first of them.
-/

namespace Mpmt
namespace Manager

open Effects Threads Contract Ranks

namespace Db

variable {db db' : Db} {waiting order : List Nat} {opId : Nat} {op : Operation}

/-! ## What a method can change -/

/-- A row as an `UPDATE` may leave it: its status and its place stay, or it is
neither QUEUED nor ACTIVE. -/
def Settles (op op' : Operation) : Prop :=
  op'.status = op.status ∧ op'.queuePos = op.queuePos ∨
    op'.status ∈ [OpStatus.busy, .done, .failed, .removed]

/-- The changes of the operations. -/
inductive Change (db : Db) : Db -> Prop
  | settle {db' : Db} {change : Nat -> Operation -> Operation}
      (operations : ∀ opId,
        db'.operations.get? opId = (db.operations.get? opId).map (change opId))
      (last : db'.lastOpId = db.lastOpId)
      (settles : ∀ opId op, Settles op (change opId op)) : Change db db'
  | create {db' : Db} {op : Operation}
      (operations : db'.operations = db.operations.set (db.lastOpId + 1) op)
      (last : db'.lastOpId = db.lastOpId + 1)
      (reserved : op.status = .reserved) : Change db db'
  | enqueue {opId : Nat} {op : Operation} {now : Time}
      (found : db.operations.get? opId = some op)
      (reserved : op.status = .reserved) : Change db (db.enqueueReserved opId now).2
  | reorder : Change db db.reorderQueue
  | promote {opId : Nat} {op : Operation} {now : Time}
      (first : db.firstQueued = some (opId, op)) :
      Change db (db.promoteFirstQueued now).2

theorem Change.of_same
    (operations : db'.operations = db.operations)
    (last : db'.lastOpId = db.lastOpId) : Change db db' :=
  @settle db db' (fun _ op => op)
    (fun opId => by rw [operations, Option.map_id']) last
    fun _ _ => .inl ⟨rfl, rfl⟩

theorem Change.of_update
    {change : Nat -> Operation -> Operation}
    (operations : db'.operations = (db.updateOperations change).operations)
    (last : db'.lastOpId = db.lastOpId)
    (settles : ∀ opId op, Settles op (change opId op)) : Change db db' :=
  .settle (fun opId => by rw [operations, get?_updateOperations]) last settles

theorem Change.updateOperation
    {status : OpStatus}
    {columns : Columns}
    (operations : db'.operations = (db.updateOperation opId status columns now).operations)
    (last : db'.lastOpId = db.lastOpId)
    (ends : status ∈ [OpStatus.busy, .done, .failed, .removed]) : Change db db' := by
  refine .of_update operations last fun key op => ?_
  split
  · exact .inr ends
  · exact .inl ⟨rfl, rfl⟩

/-- What a database method does to the operations. -/
theorem change_of_apply
    {dbCall : DbCall}
    {reply : dbCall.Reply}
    (applied : dbCall.apply now db = .ok (reply, db'))
    (proper : Cmd.Proper (.db dbCall)) : Change db db' := by
  cases dbCall with
  | ensureUser userId role =>
      cases applied
      unfold ensureUser
      split
      · exact .of_same rfl rfl
      · exact .of_same rfl rfl
  | getUser => cases applied; exact .of_same rfl rfl
  | createReservedOperation userId protType =>
      have created : db.createReservedOperation userId protType now = .ok (reply, db') := applied
      unfold createReservedOperation at created
      split at created
      · cases created
      · split at created
        · cases created
        · cases created
          exact .create rfl rfl rfl
  | getOperation => cases applied; exact .of_same rfl rfl
  | getLiveOperation => cases applied; exact .of_same rfl rfl
  | enqueueReserved opId =>
      have enqueued : db' = (db.enqueueReserved opId now).2 :=
        (congrArg Prod.snd (Except.ok.inj applied)).symm
      rw [enqueued]
      cases found : db.operations.get? opId with
      | none =>
          rw [enqueueReserved, found]
          exact .of_same rfl rfl
      | some op =>
          by_cases reserved : op.status = .reserved
          · exact .enqueue found reserved
          · rw [enqueueReserved, found]
            dsimp only
            rw [if_pos reserved]
            exact .of_same rfl rfl
  | updateOperation opId status columns =>
      cases applied
      refine .updateOperation rfl rfl ?_
      rcases proper with rfl | rfl | rfl <;> decide
  | getAgentToken => cases applied; exact .of_same rfl rfl
  | completeJoin opId userId tokens =>
      have completed : (db.completeJoin opId userId tokens now).map
          (fun db => ((), db)) = .ok (reply, db') := applied
      unfold completeJoin at completed
      split at completed
      · cases completed
      · cases completed
        exact .updateOperation rfl rfl (by decide)
  | completeQuit => cases applied; exact .updateOperation rfl rfl (by decide)
  | failOperation => cases applied; exact .updateOperation rfl rfl (by decide)
  | failAllLiveOperations errorCode =>
      cases applied
      refine .of_update rfl rfl fun key op => ?_
      split
      · exact .inr (by decide : OpStatus.failed ∈ _)
      · exact .inl ⟨rfl, rfl⟩
  | reconcileOnStartup =>
      cases applied
      refine .of_update rfl rfl fun key op => ?_
      split
      · exact .inr (by decide : OpStatus.failed ∈ _)
      · exact .inl ⟨rfl, rfl⟩
  | firstQueued => cases applied; exact .of_same rfl rfl
  | getActive => cases applied; exact .of_same rfl rfl
  | queuePositionOf => cases applied; exact .of_same rfl rfl
  | touchOperation opId =>
      cases applied
      refine .of_update rfl rfl fun key op => ?_
      split
      · exact .inl ⟨rfl, rfl⟩
      · exact .inl ⟨rfl, rfl⟩
  | reorderQueue => cases applied; exact .reorder
  | promoteFirstQueued =>
      have promoted : db' = (db.promoteFirstQueued now).2 :=
        (congrArg Prod.snd (Except.ok.inj applied)).symm
      rw [promoted]
      cases first : db.firstQueued with
      | none =>
          rw [promoteFirstQueued, first]
          exact .of_same rfl rfl
      | some row => exact .promote first

/-! ## The order of entry -/

/-- The operations that become QUEUED between two moments. -/
def entered (db db' : Db) : List Nat :=
  (db'.queue.map Prod.fst).filter fun opId => db.statusOf opId ≠ some .queued

theorem entered_eq_nil
    (old : ∀ opId, db'.statusOf opId = some .queued -> db.statusOf opId = some .queued) :
    entered db db' = [] := by
  rw [entered, List.filter_eq_nil_iff]
  intro opId member new
  obtain ⟨row, inQueue, rfl⟩ := List.mem_map.mp member
  obtain ⟨found, queued⟩ := mem_queue.mp inQueue
  refine decide_eq_true_eq.mp new (old _ ?_)
  rw [statusOf_of_get? found, queued]

theorem Thins.entered (thins : Thins db db') : entered db db' = [] := by
  refine entered_eq_nil fun opId status => ?_
  obtain ⟨op', found', queued'⟩ := statusOf_eq_some status
  obtain ⟨op, found, queued, _⟩ := thins opId op' found' queued'
  rw [statusOf_of_get? found, queued]

theorem Lined.entered
    (lined : db.Lined waiting)
    (found : db.operations.get? opId = some op)
    (reserved : op.status = .reserved)
    (now : Time) : entered db (db.enqueueReserved opId now).2 = [opId] := by
  have old : waiting.filter (fun opId => db.statusOf opId ≠ some .queued) = [] := by
    rw [List.filter_eq_nil_iff]
    exact fun other member new =>
      decide_eq_true_eq.mp new ((lined.queued other).mp member)
  have new : decide (db.statusOf opId ≠ some .queued) = true := by
    rw [statusOf_of_get? found, reserved]
    rfl
  rw [Db.entered, (lined.enqueued found reserved now).queue_eq, List.filter_append, old,
    List.nil_append, List.filter_singleton, new]
  rfl

/-- An operation that has left RESERVED. -/
def Begun (db : Db) (opId : Nat) : Prop :=
  ∃ status, db.statusOf opId = some status ∧ status ≠ .reserved

/-- The operations became QUEUED in the order of the list, and the line keeps
to it. -/
structure Fifo (order : List Nat) (db : Db) : Prop where
  lined : ∃ waiting, db.Lined waiting ∧ waiting.Sublist order
  nodup : order.Nodup
  begun : ∀ opId ∈ order, db.Begun opId
  bounded : ∀ opId, (db.statusOf opId).isSome = true -> opId ≤ db.lastOpId

theorem fifo_empty : Fifo [] empty where
  lined := ⟨[], ⟨fun _ => ⟨nofun, nofun⟩, nofun, .nil⟩, .slnil⟩
  nodup := .nil
  begun := nofun
  bounded := nofun

theorem Fifo.thinned
    (fifo : Fifo order db)
    (thins : Thins db db')
    (begun : ∀ opId, db.Begun opId -> db'.Begun opId)
    (bounded : ∀ opId, (db'.statusOf opId).isSome = true -> opId ≤ db'.lastOpId) :
    Fifo (order ++ entered db db') db' := by
  obtain ⟨waiting, lined, sublist⟩ := fifo.lined
  rw [thins.entered, List.append_nil]
  exact ⟨⟨_, lined.thinned thins, List.filter_sublist.trans sublist⟩, fifo.nodup,
    fun opId member => begun opId (fifo.begun opId member), bounded⟩

theorem Fifo.settled
    {change : Nat -> Operation -> Operation}
    (fifo : Fifo order db)
    (operations : ∀ opId,
      db'.operations.get? opId = (db.operations.get? opId).map (change opId))
    (last : db'.lastOpId = db.lastOpId)
    (settles : ∀ opId op, Settles op (change opId op)) :
    Fifo (order ++ entered db db') db' := by
  refine fifo.thinned ?_ ?_ ?_
  · intro opId op' found' queued'
    rw [operations, Option.map_eq_some_iff] at found'
    obtain ⟨op, found, rfl⟩ := found'
    rcases settles opId op with ⟨status, pos⟩ | outside
    · exact ⟨op, found, status ▸ queued', pos⟩
    · rw [queued'] at outside
      simp at outside
  · rintro opId ⟨_, status, begun⟩
    obtain ⟨op, found, rfl⟩ := statusOf_eq_some status
    refine ⟨(change opId op).status, by rw [statusOf, operations, found]; rfl,
      fun reserved => ?_⟩
    rcases settles opId op with ⟨same, _⟩ | outside
    · exact begun (same ▸ reserved)
    · rw [reserved] at outside
      simp at outside
  · intro opId there
    rw [statusOf, operations, Option.isSome_map, Option.isSome_map] at there
    rw [last]
    refine fifo.bounded opId ?_
    rw [statusOf, Option.isSome_map]
    exact there

theorem Fifo.created
    (fifo : Fifo order db)
    (operations : db'.operations = db.operations.set (db.lastOpId + 1) op)
    (last : db'.lastOpId = db.lastOpId + 1)
    (reserved : op.status = .reserved) : Fifo (order ++ entered db db') db' := by
  have others : ∀ opId, opId ≠ db.lastOpId + 1 ->
      db'.operations.get? opId = db.operations.get? opId := fun opId different => by
    rw [operations, Dict.get?_set, if_neg different]
  refine fifo.thinned ?_ ?_ ?_
  · intro opId op' found' queued'
    by_cases same : opId = db.lastOpId + 1
    · rw [operations, Dict.get?_set, if_pos same] at found'
      cases found'
      rw [reserved] at queued'
      cases queued'
    · rw [others opId same] at found'
      exact ⟨op', found', queued', rfl⟩
  · rintro opId ⟨status, known, begun⟩
    refine ⟨status, (statusOf_congr (others opId ?_)).trans known, begun⟩
    have old := fifo.bounded opId (by rw [known]; rfl)
    omega
  · intro opId there
    rw [last]
    by_cases same : opId = db.lastOpId + 1
    · exact Nat.le_of_eq same
    · rw [statusOf_congr (others opId same)] at there
      exact Nat.le_succ_of_le (fifo.bounded opId there)

theorem Fifo.enqueued
    (fifo : Fifo order db)
    (found : db.operations.get? opId = some op)
    (reserved : op.status = .reserved)
    (now : Time) :
    Fifo (order ++ entered db (db.enqueueReserved opId now).2)
      (db.enqueueReserved opId now).2 := by
  obtain ⟨waiting, lined, sublist⟩ := fifo.lined
  have status := statusOf_enqueueReserved found reserved now
  have outside : opId ∉ order := by
    intro member
    obtain ⟨_, known, begun⟩ := fifo.begun opId member
    rw [statusOf_of_get? found] at known
    exact begun (Option.some.inj known ▸ reserved)
  rw [lined.entered found reserved now]
  refine ⟨⟨_, lined.enqueued found reserved now, sublist.append (.refl _)⟩, ?_, ?_, ?_⟩
  · exact fifo.nodup.append (List.nodup_singleton _)
      (List.disjoint_singleton.mpr outside)
  · intro other member
    rw [Begun, status]
    split
    · exact ⟨_, rfl, nofun⟩
    · next different =>
        refine fifo.begun other ?_
        simpa [different] using member
  · intro other there
    have last : (db.enqueueReserved opId now).2.lastOpId = db.lastOpId := by
      rw [enqueueReserved_eq found reserved]
      rfl
    rw [last]
    refine fifo.bounded other ?_
    rw [status] at there
    split at there
    · next same =>
        rw [same, statusOf_of_get? found]
        rfl
    · exact there

/-- A renumbering, and what leaves the line by its head, are no entries. -/
theorem Fifo.shortened
    {waiting' : List Nat}
    (fifo : Fifo order db)
    (lined : db.Lined waiting)
    (lined' : db'.Lined waiting')
    (sublist : waiting'.Sublist waiting)
    (status : ∀ opId, db'.statusOf opId = db.statusOf opId ∨
      (db.statusOf opId).isSome = true ∧ db'.statusOf opId = some .active)
    (last : db'.lastOpId = db.lastOpId) : Fifo (order ++ entered db db') db' := by
  obtain ⟨waiting₀, lined₀, inOrder⟩ := fifo.lined
  have nothing : entered db db' = [] := by
    refine entered_eq_nil fun opId queued => ?_
    rcases status opId with same | ⟨_, active⟩
    · rw [← same, queued]
    · rw [queued] at active
      cases active
  rw [nothing, List.append_nil]
  refine ⟨⟨waiting', lined', sublist.trans ?_⟩, fifo.nodup, ?_, ?_⟩
  · rw [← lined.queue_eq, lined₀.queue_eq]
    exact inOrder
  · intro opId member
    rcases status opId with same | ⟨_, active⟩
    · obtain ⟨known, found, begun⟩ := fifo.begun opId member
      exact ⟨known, same.trans found, begun⟩
    · exact ⟨_, active, nofun⟩
  · intro opId there
    rw [last]
    rcases status opId with same | ⟨known, _⟩
    · exact fifo.bounded opId (same ▸ there)
    · exact fifo.bounded opId known

/-- Every change keeps the order. -/
theorem Fifo.change
    (fifo : Fifo order db)
    (change : Change db db') : Fifo (order ++ entered db db') db' := by
  cases change with
  | settle operations last settles => exact fifo.settled operations last settles
  | create operations last reserved => exact fifo.created operations last reserved
  | enqueue found reserved => exact fifo.enqueued found reserved _
  | reorder =>
      obtain ⟨waiting, lined, _⟩ := fifo.lined
      exact fifo.shortened lined lined.reordered (.refl _)
        (fun opId => .inl (statusOf_reorderQueue lined opId)) rfl
  | @promote opId op now first =>
      obtain ⟨waiting, lined, _⟩ := fifo.lined
      obtain ⟨found, _, head⟩ := lined.firstQueued_eq first
      rw [head] at lined
      refine fifo.shortened lined (lined.promoted first now) (List.sublist_cons_self _ _)
        (fun other => ?_) (by rw [promoteFirstQueued, first]; rfl)
      rw [statusOf_promoteFirstQueued lined first]
      split
      · next same =>
          rw [same, statusOf_of_get? found]
          exact .inr ⟨rfl, rfl⟩
      · exact .inl rfl

/-- An operation becomes ACTIVE only from the head of the line. -/
theorem Fifo.promotion
    (fifo : Fifo order db)
    (change : Change db db')
    (before : db.statusOf opId ≠ some .active)
    (after : db'.statusOf opId = some .active) :
    opId ∈ order ∧ ∀ earlier ∈ order, order.idxOf earlier < order.idxOf opId ->
      db'.statusOf earlier ≠ some .queued := by
  cases change with
  | @settle _ change operations last settles =>
      obtain ⟨op', found', active⟩ := statusOf_eq_some after
      rw [operations, Option.map_eq_some_iff] at found'
      obtain ⟨op, found, rfl⟩ := found'
      rcases settles opId op with ⟨same, _⟩ | outside
      · refine absurd ?_ before
        rw [statusOf_of_get? found, ← same, active]
      · rw [active] at outside
        simp at outside
  | create operations last reserved =>
      rw [statusOf, operations, Dict.get?_set] at after
      split at after
      · rw [Option.map_some, reserved] at after
        cases after
      · exact absurd after before
  | enqueue found reserved =>
      rw [statusOf_enqueueReserved found reserved] at after
      split at after
      · cases after
      · exact absurd after before
  | reorder =>
      obtain ⟨waiting, lined, _⟩ := fifo.lined
      rw [statusOf_reorderQueue lined] at after
      exact absurd after before
  | promote first =>
      obtain ⟨waiting, lined, sublist⟩ := fifo.lined
      obtain ⟨_, _, head⟩ := lined.firstQueued_eq first
      rw [head] at lined sublist
      rw [statusOf_promoteFirstQueued lined first] at after
      split at after
      · next same =>
          subst same
          refine ⟨sublist.subset List.mem_cons_self, fun earlier member less queued => ?_⟩
          -- what is still QUEUED stands behind the head, and so does its entry
          have inLine := ((lined.promoted first _).queued earlier).mpr queued
          have behind := (increases_idxOf fifo.nodup).sublist sublist
          exact Nat.lt_asymm less (List.rel_of_pairwise_cons behind inLine)
      · exact absurd after before

end Db

/-! ## All threads -/

/-- The contract of a thread: what it does to the operations is a change. -/
def fifoContract (cfg : Settings) : Contract (manager cfg) (List Nat) where
  Inv x := Db.Fifo x.2 x.1.db
  Guar _ x x' := Db.Change x.1.db x'.1.db ∧ x'.2 = x.2 ++ Db.entered x.1.db x'.1.db
  Pre _ _ _ := True
  fresh x := x.2

/-- A command changes the database only as a database method. -/
theorem db_of_perform
    {cmd : Cmd}
    {s : State}
    {done : Done interface PyError State Task cmd}
    (performed : perform tid next choice cmd s = some done) :
    done.state.db = s.db ∨ ∃ dbCall now reply,
      cmd = .db dbCall ∧ dbCall.apply now s.db = .ok (reply, done.state.db) := by
  cases cmd with
  | db dbCall =>
      rw [perform] at performed
      unfold performDb at performed
      split at performed
      · split at performed
        · next reply db applied =>
            cases performed
            exact .inr ⟨dbCall, _, reply, rfl, applied⟩
        · cases performed
          exact .inl rfl
      · cases performed
        exact .inl rfl
      · cases performed
  | acquire lock =>
      cases lock with
      | main =>
          rw [perform] at performed
          split at performed
          · cases performed
            exact .inl rfl
          · cases performed
      | sync =>
          rw [perform] at performed
          split at performed
          · cases performed
            exact .inl rfl
          · cases performed
  | release lock =>
      cases lock <;> cases performed <;> exact .inl rfl
  | writeTaskStatus | recv | reconnect | settimeout | expired | time =>
      cases choice <;> cases performed <;> exact .inl rfl
  | spawn | makeServer | mktime | send =>
      cases choice with
      | go =>
          cases performed
          exact .inl rfl
      | fail error => cases error <;> cases performed <;> exact .inl rfl
      | _ => cases performed
  | input =>
      cases choice with
      | line text =>
          cases performed
          exact .inl rfl
      | fail error =>
          cases error <;> cases performed
          exact .inl rfl
      | _ => cases performed
  | _ =>
      cases performed
      exact .inl rfl

theorem change_of_perform
    {cmd : Cmd}
    {s : State}
    {done : Done interface PyError State Task cmd}
    (performed : perform tid next choice cmd s = some done)
    (proper : cmd.Proper) : Db.Change s.db done.state.db := by
  rcases db_of_perform performed with same | ⟨dbCall, now, reply, rfl, applied⟩
  · rw [same]
    exact .of_same rfl rfl
  · exact Db.change_of_apply applied proper

theorem fifo_verified (cfg : Settings) : (fifoContract cfg).Verified :=
  .of_only
    (fun _ _ _ fifo guar => by
      obtain ⟨change, order⟩ := guar
      show Db.Fifo _ _
      rw [order]
      exact Db.Fifo.change fifo change)
    (fun _ fifo => fifo)
    (fun _ _ _ => trivial)
    (fun cmd proper tid x choice next done _ performed => by
      have performed' : perform tid next choice cmd x.1 = some done := performed
      exact ⟨x.2 ++ Db.entered x.1.db done.state.db,
        change_of_perform performed' proper, rfl⟩)
    (proper_program cfg)

/-- The start of a thread and of the process leave the operations alone. -/
theorem change_of_link
    {label : Label interface PyError Task}
    {x x' : State × List Nat}
    (link : (fifoContract cfg).Link label x x') :
    Db.Change x.1.db x'.1.db ∧ x'.2 = x.2 ++ Db.entered x.1.db x'.1.db := by
  have still : Db.Change x.1.db x.1.db ∧ x.2 = x.2 ++ Db.entered x.1.db x.1.db := by
    rw [Db.entered_eq_nil fun _ status => status, List.append_nil]
    exact ⟨.of_same rfl rfl, rfl⟩
  cases label with
  | did event => exact link
  | arrived task =>
      have same : x' = x := link
      rw [same]
      exact still
  | restarted =>
      have same : x' = (.fresh x.1.db x.1.taskStatus, x.2) := link
      rw [same]
      exact still

/-! ## The result -/

/-- A moment in a run of the Manager. -/
abbrev Instant := Moment interface PyError State Task

/-- The operations in the order in which they became QUEUED. -/
def entries (trace : List Instant) : List Nat :=
  trace.flatMap fun moment => Db.entered moment.before.db moment.after.db

/-- An operation becomes ACTIVE. -/
def Promoted (moment : Instant) (opId : Nat) : Prop :=
  moment.before.db.statusOf opId ≠ some .active ∧
    moment.after.db.statusOf opId = some .active

/-- Whenever an operation was promoted, those that had become QUEUED before it
were not QUEUED any more. -/
def FirstOut (trace : List Instant) : Prop :=
  ∀ past moment future, trace = past ++ moment :: future ->
    ∀ opId, Promoted moment opId -> opId ∈ entries past ∧
      ∀ earlier ∈ entries past,
        (entries past).idxOf earlier < (entries past).idxOf opId ->
          moment.after.db.statusOf earlier ≠ some .queued

theorem FirstOut.snoc
    {trace : List Instant}
    {moment : Instant}
    (out : FirstOut trace)
    (last : ∀ opId, Promoted moment opId -> opId ∈ entries trace ∧
      ∀ earlier ∈ entries trace,
        (entries trace).idxOf earlier < (entries trace).idxOf opId ->
          moment.after.db.statusOf earlier ≠ some .queued) :
    FirstOut (trace ++ [moment]) := by
  intro past moment' future split
  rcases split_snoc split with ⟨rfl, rfl, _⟩ | ⟨future', before, _⟩
  · exact last
  · exact out past moment' future' before

theorem firstOut_of_run
    {trace : List Instant}
    {c : Config interface PyError State}
    (run : Run (manager cfg) (initial cfg) trace c) :
    Db.Fifo (entries trace) c.state.db ∧ FirstOut trace := by
  have good : (fifoContract cfg).Good (initial cfg) [] :=
    .boot (fifo_verified cfg) Db.fifo_empty trivial
  obtain ⟨order, good', rfl, out⟩ := good.run_keeps
    (φ := fun trace x => x.2 = entries trace ∧ FirstOut trace) (fifo_verified cfg)
    ⟨rfl, fun past _ _ split => absurd split (by simp)⟩
    (fun trace label x x' fifo _ link before => by
      obtain ⟨same, out⟩ := before
      obtain ⟨change, order⟩ := change_of_link link
      have fifo' : Db.Fifo x.2 x.1.db := fifo
      rw [same] at fifo' order
      refine ⟨?_, out.snoc fun opId promoted =>
        fifo'.promotion change promoted.1 promoted.2⟩
      rw [order, entries, entries, List.flatMap_append, List.flatMap_singleton])
    run
  exact ⟨good'.inv, out⟩

/-- In every run the places of the QUEUED operations are pairwise distinct and
in the order in which the operations became QUEUED, and an operation is promoted
when none that became QUEUED before it is QUEUED any more. -/
theorem global_fifo
    {trace : List Instant}
    {c : Config interface PyError State}
    (cfg : Settings)
    (run : Run (manager cfg) (initial cfg) trace c) :
    (entries trace).Nodup ∧
      (∀ opId op, c.state.db.operations.get? opId = some op -> op.status = .queued ->
        opId ∈ entries trace ∧ ∃ pos, op.queuePos = some pos) ∧
      (∀ opId opId' op op' pos pos',
        c.state.db.operations.get? opId = some op -> op.status = .queued ->
        op.queuePos = some pos ->
        c.state.db.operations.get? opId' = some op' -> op'.status = .queued ->
        op'.queuePos = some pos' ->
          (opId ≠ opId' -> pos ≠ pos') ∧
            (pos < pos' ↔ (entries trace).idxOf opId < (entries trace).idxOf opId')) ∧
      FirstOut trace := by
  obtain ⟨fifo, out⟩ := firstOut_of_run run
  obtain ⟨waiting, lined, sublist⟩ := fifo.lined
  have inLine : ∀ opId op, c.state.db.operations.get? opId = some op ->
      op.status = .queued -> opId ∈ waiting := fun opId op found queued =>
    (lined.queued opId).mpr (by rw [Db.statusOf_of_get? found, queued])
  have place : ∀ opId op pos, c.state.db.operations.get? opId = some op ->
      op.queuePos = some pos -> c.state.db.placeOf opId = pos + 1 := by
    intro opId op pos found placed
    rw [Db.placeOf_of_get? found, Db.Row.place, placed]
  refine ⟨fifo.nodup, ?_, ?_, out⟩
  · intro opId op found queued
    have member := inLine opId op found queued
    obtain ⟨op', pos, found', _, placed, _⟩ := lined.exists_pos member
    rw [found] at found'
    cases found'
    exact ⟨sublist.subset member, pos, placed⟩
  · intro opId opId' op op' pos pos' found queued placed found' queued' placed'
    have member := inLine opId op found queued
    have member' := inLine opId' op' found' queued'
    have first := place opId op pos found placed
    have second := place opId' op' pos' found' placed'
    constructor
    · rintro different rfl
      exact different (lined.places.injective member member' (first.trans second.symm))
    · have entered := (increases_idxOf fifo.nodup).sublist sublist
      rw [← lined.places.agree entered member member', first, second]
      exact Nat.succ_lt_succ_iff.symm

/-- A task with two set holders and a querier. -/
def sampleSettings : Settings where
  setHolderUsers := ["a", "b"]
  querierUsers := ["q"]
  queueLeaseTimeout := 30
  agentIps := fun _ => "127.0.0.1"

/-- The start of the sample: the HTTP server is thread 2, the scheduler thread
3. -/
def sampleStart : List (Act Task Choice) :=
  turns 0 [.go, .clock 0, .clock 0, .clock 0, .clock 0, .go] ++
    turns 1 [.line "ms start", .go, .go, .go, .go, .go, .go, .go, .go, .go] ++
    turns 2 [.go]

/-- A JOIN is reserved in the thread `tid`. -/
def sampleReserve (tid : Nat) (userId : String) : List (Act Task Choice) :=
  .arrive (.handle (.reserveJoin (some userId)) 3) ::
    turns tid [.go, .go, .go, .clock 0, .clock 0, .go, .go]

/-- A first request for its execution, up to the second lock. -/
def sampleEnqueue (tid : Nat) (userId : String) : List (Act Task Choice) :=
  .arrive (.handle (.execute (some userId) (some "JOIN") none) 3) ::
    turns tid [.clock 0, .go, .go, .clock 0, .go, .clock 0, .clock 0, .clock 0, .go]

/-- The rest of the request, up to the promotion. -/
def samplePromote (tid : Nat) : List (Act Task Choice) :=
  turns tid [.go, .go, .go, .clock 0, .clock 0, .go, .go, .go, .go, .go, .clock 0,
    .clock 0, .clock 0, .go, .clock 0, .clock 0]

/-- The second holder is enqueued before the first, and promoted. -/
def sampleDriven : List Instant × Config interface PyError State :=
  (drive (manager sampleSettings) (initial sampleSettings)
    (sampleStart ++ sampleReserve 5 "a" ++ sampleReserve 6 "b" ++ sampleEnqueue 7 "b" ++
      sampleEnqueue 8 "a" ++ samplePromote 7)).get (by decide +kernel)

theorem global_fifo_two :
    (entries sampleDriven.1).Nodup ∧
      (∀ opId op, sampleDriven.2.state.db.operations.get? opId = some op ->
        op.status = .queued ->
        opId ∈ entries sampleDriven.1 ∧ ∃ pos, op.queuePos = some pos) ∧
      (∀ opId opId' op op' pos pos',
        sampleDriven.2.state.db.operations.get? opId = some op -> op.status = .queued ->
        op.queuePos = some pos ->
        sampleDriven.2.state.db.operations.get? opId' = some op' -> op'.status = .queued ->
        op'.queuePos = some pos' ->
          (opId ≠ opId' -> pos ≠ pos') ∧
            (pos < pos' ↔ (entries sampleDriven.1).idxOf opId <
              (entries sampleDriven.1).idxOf opId')) ∧
      FirstOut sampleDriven.1 :=
  global_fifo sampleSettings (.driven _)

end Manager
end Mpmt
