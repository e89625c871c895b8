import Mpmt.Library.Ranks
import Mpmt.Manager.Db

/-!
# The line of the QUEUED operations

The places of the QUEUED operations are numbers with gaps, and the running
operation keeps its own.  They put the operations in a line all the same:
enqueueing appends to it, promotion takes its head, and every other method
takes operations out of it or leaves it alone.
-/

namespace Mpmt
namespace Manager

open Ranks

namespace Db

variable {db db' : Db} {waiting : List Nat} {opId : Nat} {op : Operation}

/-! ## Rows -/

/-- The status of an operation. -/
def statusOf (db : Db) (opId : Nat) : Option OpStatus :=
  (db.operations.get? opId).map Operation.status

/-- The place of an operation in an `ORDER BY queue_pos`. -/
def placeOf (db : Db) (opId : Nat) : Nat :=
  ((db.getOperation opId).map Row.place).getD 0

theorem statusOf_of_get?
    (found : db.operations.get? opId = some op) : db.statusOf opId = some op.status := by
  rw [statusOf, found]
  rfl

theorem placeOf_of_get?
    (found : db.operations.get? opId = some op) :
    db.placeOf opId = Row.place (opId, op) := by
  rw [placeOf, getOperation, found]
  rfl

theorem statusOf_eq_some
    (status : db.statusOf opId = some opStatus) :
    ∃ op, db.operations.get? opId = some op ∧ op.status = opStatus := by
  rw [statusOf, Option.map_eq_some_iff] at status
  exact status

theorem mem_rowsWhere
    {holds : Operation -> Bool}
    {row : Row} :
    row ∈ db.rowsWhere holds ↔
      db.operations.get? row.1 = some row.2 ∧ holds row.2 = true := by
  rw [rowsWhere, List.mem_filter, Dict.mem_entries_iff]

theorem nodup_rowsWhere
    (db : Db)
    (holds : Operation -> Bool) : ((db.rowsWhere holds).map Prod.fst).Nodup :=
  db.operations.nodup.sublist (List.filter_sublist.map _)

/-! ## The order of the places -/

instance : Std.Total fun row row' : Row => Row.place row ≤ Row.place row' :=
  ⟨fun _ _ => Nat.le_total _ _⟩

instance : IsTrans Row fun row row' => Row.place row ≤ Row.place row' :=
  ⟨fun _ _ _ => Nat.le_trans⟩

theorem perm_queue (db : Db) : db.queue.Perm (db.rowsWhere fun op => op.status = .queued) :=
  List.perm_insertionSort _ _

theorem mem_queue
    {row : Row} :
    row ∈ db.queue ↔
      db.operations.get? row.1 = some row.2 ∧ row.2.status = .queued := by
  rw [db.perm_queue.mem_iff, mem_rowsWhere, decide_eq_true_eq]

theorem pairwise_queue
    (db : Db) : (db.queue.map Prod.fst).Pairwise fun opId opId' =>
      db.placeOf opId ≤ db.placeOf opId' := by
  rw [List.pairwise_map]
  refine (List.pairwise_insertionSort _ _).imp_of_mem fun {row row'} member member' le => ?_
  rw [placeOf_of_get? (mem_queue.mp member).1, placeOf_of_get? (mem_queue.mp member').1]
  exact le

/-- The QUEUED operations, in the order of their places. -/
structure Lined (db : Db) (waiting : List Nat) : Prop where
  queued : ∀ opId, opId ∈ waiting ↔ db.statusOf opId = some .queued
  placed : ∀ opId ∈ waiting, 0 < db.placeOf opId
  places : Increases waiting db.placeOf

/-- An operation of the line has a place that is not `NULL`. -/
theorem Lined.exists_pos
    (lined : db.Lined waiting)
    (member : opId ∈ waiting) :
    ∃ op pos, db.operations.get? opId = some op ∧ op.status = .queued ∧
      op.queuePos = some pos ∧ db.placeOf opId = pos + 1 := by
  obtain ⟨op, found, queued⟩ := statusOf_eq_some ((lined.queued opId).mp member)
  have place := lined.placed opId member
  rw [placeOf_of_get? found] at place
  cases pos : op.queuePos with
  | none =>
      rw [Row.place, pos] at place
      cases place
  | some pos' =>
      refine ⟨op, pos', found, queued, pos, ?_⟩
      rw [placeOf_of_get? found, Row.place, pos]

/-- The sorted QUEUED rows are the line. -/
theorem Lined.queue_eq (lined : db.Lined waiting) : db.queue.map Prod.fst = waiting := by
  have nodup : (db.queue.map Prod.fst).Nodup :=
    (db.perm_queue.map _).nodup_iff.mpr (nodup_rowsWhere _ _)
  have perm : (db.queue.map Prod.fst).Perm waiting := by
    refine (List.perm_ext_iff_of_nodup nodup lined.places.nodup).mpr fun opId => ?_
    rw [lined.queued, List.mem_map]
    constructor
    · rintro ⟨⟨_, op⟩, member, rfl⟩
      obtain ⟨found, queued⟩ := mem_queue.mp member
      rw [statusOf_of_get? found, queued]
    · intro status
      obtain ⟨op, found, queued⟩ := statusOf_eq_some status
      exact ⟨(opId, op), mem_queue.mpr ⟨found, queued⟩, rfl⟩
  refine perm.eq_of_pairwise ?_ db.pairwise_queue (lined.places.imp Nat.le_of_lt)
  intro opId opId' member member' le le'
  exact lined.places.injective (perm.mem_iff.mp member) member' (Nat.le_antisymm le le')

theorem Lined.firstQueued_eq
    (lined : db.Lined waiting)
    (first : db.firstQueued = some (opId, op)) :
    db.operations.get? opId = some op ∧ op.status = .queued ∧
      waiting = opId :: waiting.tail := by
  have member : (opId, op) ∈ db.queue := List.mem_of_head? first
  refine ⟨(mem_queue.mp member).1, (mem_queue.mp member).2, ?_⟩
  have head : waiting.head? = some opId := by
    rw [← lined.queue_eq, List.head?_map]
    exact congrArg (Option.map Prod.fst) first
  exact (List.cons_head?_tail head).symm

/-! ## Places -/

/-- A new place is behind all that are taken. -/
theorem lt_nextQueuePos
    (found : db.operations.get? opId = some op)
    (placed : op.status.placed = true)
    (pos : op.queuePos = some place) : place < db.nextQueuePos := by
  have member : (opId, op) ∈ db.rowsWhere fun op => op.status.placed :=
    mem_rowsWhere.mpr ⟨found, placed⟩
  rw [nextQueuePos, List.foldl_max, Nat.zero_max]
  refine Nat.lt_succ_of_le (List.le_max?_getD_of_mem (List.mem_map.mpr ⟨_, member, ?_⟩))
  rw [pos]
  rfl

/-! ## What the methods do to the line -/

theorem get?_updateOperations
    (db : Db)
    (change : Nat -> Operation -> Operation)
    (opId : Nat) :
    (db.updateOperations change).operations.get? opId =
      (db.operations.get? opId).map (change opId) :=
  Dict.get?_mapValues _ _ _

/-- A statement with `WHERE op_id=?`. -/
theorem get?_updateOne
    (db : Db)
    (opId : Nat)
    (change : Operation -> Operation)
    (other : Nat) :
    (db.updateOperations fun key op =>
        if key = opId then change op else op).operations.get? other =
      if other = opId then (db.operations.get? opId).map change
      else db.operations.get? other := by
  rw [get?_updateOperations]
  split
  · next same => rw [same]
  · next different => exact Option.map_id'

theorem statusOf_congr
    (same : db'.operations.get? opId = db.operations.get? opId) :
    db'.statusOf opId = db.statusOf opId := by
  rw [statusOf, statusOf, same]

theorem placeOf_congr
    (same : db'.operations.get? opId = db.operations.get? opId) :
    db'.placeOf opId = db.placeOf opId := by
  rw [placeOf, placeOf, getOperation, getOperation, same]

/-- No operation enters the line, and those that stay keep their places. -/
def Thins (db db' : Db) : Prop :=
  ∀ opId op', db'.operations.get? opId = some op' -> op'.status = .queued ->
    ∃ op, db.operations.get? opId = some op ∧ op.status = .queued ∧
      op'.queuePos = op.queuePos

theorem Lined.thinned
    (lined : db.Lined waiting)
    (thins : Thins db db') :
    db'.Lined (waiting.filter fun opId => db'.statusOf opId = some .queued) := by
  have stays : ∀ opId, db'.statusOf opId = some .queued ->
      opId ∈ waiting ∧ db'.placeOf opId = db.placeOf opId := by
    intro opId status
    obtain ⟨op', found', queued'⟩ := statusOf_eq_some status
    obtain ⟨op, found, queued, same⟩ := thins opId op' found' queued'
    refine ⟨(lined.queued opId).mpr ?_, ?_⟩
    · rw [statusOf_of_get? found, queued]
    · rw [placeOf_of_get? found', placeOf_of_get? found, Row.place, same]
      rfl
  refine ⟨fun opId => ?_, fun opId member => ?_, ?_⟩
  · rw [List.mem_filter, decide_eq_true_eq]
    exact ⟨And.right, fun status => ⟨(stays opId status).1, status⟩⟩
  · rw [List.mem_filter, decide_eq_true_eq] at member
    rw [(stays opId member.2).2]
    exact lined.placed opId member.1
  · refine (lined.places.sublist List.filter_sublist).congr fun opId member => ?_
    rw [List.mem_filter, decide_eq_true_eq] at member
    exact (stays opId member.2).2

theorem enqueueReserved_eq
    (found : db.operations.get? opId = some op)
    (reserved : op.status = .reserved)
    (now : Time) :
    (db.enqueueReserved opId now).2 = db.updateOperations fun key op =>
      if key = opId then
        { op with status := .queued, queuePos := some db.nextQueuePos, updatedAt := now }
      else op := by
  rw [enqueueReserved, found]
  simp only [ne_eq, reserved, not_true_eq_false, if_false]

theorem statusOf_enqueueReserved
    (found : db.operations.get? opId = some op)
    (reserved : op.status = .reserved)
    (now : Time)
    (other : Nat) :
    (db.enqueueReserved opId now).2.statusOf other =
      if other = opId then some .queued else db.statusOf other := by
  rw [enqueueReserved_eq found reserved, statusOf, get?_updateOne]
  split
  · rw [found]
    rfl
  · rfl

/-- Enqueueing appends to the line. -/
theorem Lined.enqueued
    (lined : db.Lined waiting)
    (found : db.operations.get? opId = some op)
    (reserved : op.status = .reserved)
    (now : Time) : (db.enqueueReserved opId now).2.Lined (waiting ++ [opId]) := by
  have outside : opId ∉ waiting := by
    rw [lined.queued, statusOf_of_get? found, reserved]
    nofun
  rw [enqueueReserved_eq found reserved]
  have self := db.get?_updateOne opId (fun op => { op with
    status := .queued, queuePos := some db.nextQueuePos, updatedAt := now }) opId
  rw [if_pos rfl, found, Option.map_some] at self
  have others : ∀ other ∈ waiting, _ = db.operations.get? other := fun other member =>
    (db.get?_updateOne opId (fun op => { op with
      status := .queued, queuePos := some db.nextQueuePos, updatedAt := now }) other).trans
        (if_neg fun same : other = opId => outside (same ▸ member))
  refine ⟨fun other => ?_, fun other member => ?_, ?_⟩
  · rw [List.mem_append, List.mem_singleton]
    by_cases same : other = opId
    · subst same
      exact ⟨fun _ => statusOf_of_get? self, fun _ => .inr rfl⟩
    · rw [statusOf, db.get?_updateOne, if_neg same, lined.queued, statusOf]
      exact ⟨fun either => either.resolve_right same, .inl⟩
  · rcases List.mem_append.mp member with member | last
    · rw [placeOf_congr (others other member)]
      exact lined.placed other member
    · rw [List.mem_singleton.mp last, placeOf_of_get? self]
      exact Nat.succ_pos _
  · refine (lined.places.congr fun other member => placeOf_congr (others other member)).snoc
      fun other member => ?_
    obtain ⟨op', pos, found', queued, place, eq⟩ := lined.exists_pos member
    rw [placeOf_of_get? self, placeOf_congr (others other member), eq]
    exact Nat.succ_lt_succ (lt_nextQueuePos found' (by rw [queued]; rfl) place)

theorem get?_reorderQueue
    (lined : db.Lined waiting)
    (opId : Nat) :
    db.reorderQueue.operations.get? opId = (db.operations.get? opId).map fun op =>
      match waiting.idxOf? opId with
      | none => op
      | some index => { op with queuePos := some (index + 1) } := by
  rw [reorderQueue, lined.queue_eq]
  exact db.get?_updateOperations _ opId

theorem statusOf_reorderQueue
    (lined : db.Lined waiting)
    (opId : Nat) : db.reorderQueue.statusOf opId = db.statusOf opId := by
  rw [statusOf, statusOf, get?_reorderQueue lined, Option.map_map]
  congr 1
  funext op
  show (match waiting.idxOf? opId with
    | none => op
    | some index => { op with queuePos := some (index + 1) }).status = op.status
  split
  · rfl
  · rfl

theorem placeOf_reorderQueue
    (lined : db.Lined waiting)
    (index : Nat)
    (inside : index < waiting.length) : db.reorderQueue.placeOf waiting[index] = index + 2 := by
  obtain ⟨op, _, found, _⟩ := lined.exists_pos (List.getElem_mem inside)
  have position : waiting.idxOf? waiting[index] = some index := by
    rw [List.idxOf?_eq_some_iff]
    refine ⟨inside, rfl, fun earlier less same => ?_⟩
    have equal : earlier = index := lined.places.nodup.getElem_inj_iff.mp same
    omega
  have moved := get?_reorderQueue lined waiting[index]
  rw [found, position] at moved
  exact placeOf_of_get? moved

/-- The places 1, 2, … do not change the line. -/
theorem Lined.reordered (lined : db.Lined waiting) : db.reorderQueue.Lined waiting where
  queued := fun opId => by rw [lined.queued, statusOf_reorderQueue lined]
  placed := by
    intro opId member
    obtain ⟨index, inside, rfl⟩ := List.getElem_of_mem member
    rw [placeOf_reorderQueue lined index inside]
    exact Nat.succ_pos _
  places := increases_of_getElem (placeOf_reorderQueue lined)

/-- The first operation leaves the line and becomes ACTIVE. -/
theorem Lined.activated
    (lined : db.Lined (opId :: waiting))
    (now : Time) :
    (db.updateOperation opId .active Columns.none now).Lined waiting := by
  have thins : Thins db (db.updateOperation opId .active Columns.none now) := by
    intro other op' found' queued'
    rw [updateOperation, get?_updateOne] at found'
    split at found'
    · obtain ⟨op, _, rfl⟩ := Option.map_eq_some_iff.mp found'
      cases queued'
    · exact ⟨op', found', queued', rfl⟩
  have rest := lined.thinned thins
  obtain ⟨outside, _⟩ := List.nodup_cons.mp lined.places.nodup
  have gone : (db.updateOperation opId .active Columns.none now).statusOf opId ≠
      some .queued := by
    rw [statusOf, updateOperation, get?_updateOne, if_pos rfl]
    cases db.operations.get? opId with
    | none =>
        intro same
        cases same
    | some op =>
        intro same
        cases same
  have kept : ∀ other ∈ waiting,
      (db.updateOperation opId .active Columns.none now).statusOf other = some .queued := by
    intro other member
    have different : other ≠ opId := fun same => outside (same ▸ member)
    rw [statusOf, updateOperation, get?_updateOne, if_neg different]
    exact (lined.queued other).mp (List.mem_cons_of_mem _ member)
  rwa [List.filter_cons_of_neg (by rw [decide_eq_true_eq]; exact gone),
    List.filter_eq_self.mpr fun other member => decide_eq_true (kept other member)] at rest

theorem statusOf_promoteFirstQueued
    (lined : db.Lined (opId :: waiting))
    (first : db.firstQueued = some (opId, op))
    (now : Time)
    (other : Nat) :
    (db.promoteFirstQueued now).2.statusOf other =
      if other = opId then some .active else db.statusOf other := by
  rw [promoteFirstQueued, first]
  refine (statusOf_reorderQueue (lined.activated now) other).trans ?_
  rw [statusOf, updateOperation, get?_updateOne]
  split
  · rw [(lined.firstQueued_eq first).1]
    rfl
  · rfl

/-- Promotion takes the head of the line. -/
theorem Lined.promoted
    (lined : db.Lined (opId :: waiting))
    (first : db.firstQueued = some (opId, op))
    (now : Time) : (db.promoteFirstQueued now).2.Lined waiting := by
  rw [promoteFirstQueued, first]
  exact (lined.activated now).reordered

end Db
end Manager
end Mpmt
