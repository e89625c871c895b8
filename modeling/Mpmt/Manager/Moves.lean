import Mpmt.Manager.Fifo

/-!
# Moves in the queue

`move_to_pos` is given a rank and writes it as a place.  Places and ranks are
the same in a queue that has just been numbered, but an operation that was
enqueued behind a running one has a place beyond its rank, and there the two
differ.
-/

namespace Mpmt
namespace Manager

open Effects Ranks

namespace Db

variable {db db' : Db} {waiting order : List Nat} {opId : Nat} {op : Operation}
variable {old newPos : Nat}

/-! ## Places and ranks -/

/-- The number in `queue_pos`. -/
def posOf (db : Db) (opId : Nat) : Nat := db.placeOf opId - 1

theorem Lined.placeOf_eq
    (lined : db.Lined waiting)
    (member : opId ∈ waiting) : db.placeOf opId = db.posOf opId + 1 :=
  (Nat.succ_pred_eq_of_pos (lined.placed opId member)).symm

theorem Lined.positions (lined : db.Lined waiting) : Increases waiting db.posOf := by
  refine List.Pairwise.imp_of_mem (fun {opId opId'} member member' less => ?_) lined.places
  rw [lined.placeOf_eq member, lined.placeOf_eq member'] at less
  exact Nat.lt_of_succ_lt_succ less

theorem Lined.length_eq (lined : db.Lined waiting) : waiting.length = db.queueSize := by
  rw [← lined.queue_eq, List.length_map, db.perm_queue.length_eq, queueSize]

/-- What a client is told is the rank in the line. -/
theorem Lined.queuePositionOf_eq
    (lined : db.Lined waiting)
    (member : opId ∈ waiting) : db.queuePositionOf opId = some (waiting.idxOf opId + 1) := by
  obtain ⟨op, pos, found, queued, placed, place⟩ := lined.exists_pos member
  have here : db.posOf opId = pos := by rw [posOf, place, Nat.add_sub_cancel]
  rw [queuePositionOf, found]
  dsimp only
  rw [if_neg (not_not.mpr queued), placed]
  dsimp only
  rw [← lined.positions.count_lt member]
  congr 2
  rw [← List.length_map (f := Prod.fst)]
  refine List.Perm.length_eq ((List.perm_ext_iff_of_nodup (nodup_rowsWhere _ _)
    (lined.places.nodup.filter _)).mpr fun other => ?_)
  rw [List.mem_map, List.mem_filter, decide_eq_true_eq, here]
  constructor
  · rintro ⟨⟨_, op'⟩, row, rfl⟩
    obtain ⟨found', both⟩ := mem_rowsWhere.mp row
    rw [decide_eq_true_eq, Option.any_eq_true] at both
    obtain ⟨queued', pos', placed', less⟩ := both
    refine ⟨(lined.queued _).mpr (by rw [statusOf_of_get? found', queued']), ?_⟩
    rw [posOf, placeOf_of_get? found', Row.place, placed']
    exact decide_eq_true_eq.mp less
  · rintro ⟨inLine, less⟩
    obtain ⟨op', pos', found', queued', placed', place'⟩ := lined.exists_pos inLine
    refine ⟨(other, op'), mem_rowsWhere.mpr ⟨found', ?_⟩, rfl⟩
    rw [posOf, place', Nat.add_sub_cancel] at less
    rw [decide_eq_true_eq, placed']
    exact ⟨queued', decide_eq_true less⟩

/-! ## A move -/

theorem statusOf_shiftPlaces
    (within : Nat -> Bool)
    (shift : Nat -> Nat)
    (opId : Nat) : (db.shiftPlaces within shift).statusOf opId = db.statusOf opId := by
  rw [statusOf, statusOf, shiftPlaces, get?_updateOperations, Option.map_map]
  congr 1
  funext op
  show (if op.status ≠ .queued then op else _ : Operation).status = op.status
  split
  · rfl
  · rfl

theorem placeOf_shiftPlaces
    (lined : db.Lined waiting)
    (member : opId ∈ waiting)
    (within : Nat -> Bool)
    (shift : Nat -> Nat) :
    (db.shiftPlaces within shift).placeOf opId =
      (if within (db.posOf opId) then shift (db.posOf opId) else db.posOf opId) + 1 := by
  obtain ⟨op, pos, found, queued, placed, place⟩ := lined.exists_pos member
  have same : db.posOf opId = pos := by rw [posOf, place, Nat.add_sub_cancel]
  have moved : (db.shiftPlaces within shift).operations.get? opId = some { op with
      queuePos := some (if within pos then shift pos else pos) } := by
    rw [shiftPlaces, get?_updateOperations, found, Option.map_some,
      if_neg (not_not.mpr queued), placed, Option.map_some]
  rw [placeOf_of_get? moved, same]
  rfl

/-- The operations in between have moved towards the old place. -/
structure Shifted
    (waiting : List Nat)
    (old newPos : Nat)
    (db db' : Db) : Prop where
  last : db'.lastOpId = db.lastOpId
  status : ∀ opId, db'.statusOf opId = db.statusOf opId
  places : ∀ opId ∈ waiting, db.posOf opId ≠ old ->
    db'.placeOf opId = shifted old newPos (db.posOf opId) + 1

theorem shifted_down
    (lined : db.Lined waiting)
    (less : old < newPos) :
    Shifted waiting old newPos db
      (db.shiftPlaces (fun pos => old < pos ∧ pos ≤ newPos) fun pos => pos - 1) := by
  refine ⟨rfl, statusOf_shiftPlaces _ _, fun opId member different => ?_⟩
  rw [placeOf_shiftPlaces lined member, shifted, if_neg different]
  simp only [decide_eq_true_eq]
  congr 1
  split
  · rfl
  · rw [if_neg (by omega)]

theorem shifted_up
    (lined : db.Lined waiting)
    (less : newPos < old) :
    Shifted waiting old newPos db
      (db.shiftPlaces (fun pos => newPos ≤ pos ∧ pos < old) fun pos => pos + 1) := by
  refine ⟨rfl, statusOf_shiftPlaces _ _, fun opId member different => ?_⟩
  have between : ¬ (old < db.posOf opId ∧ db.posOf opId ≤ newPos) := by omega
  rw [placeOf_shiftPlaces lined member, shifted, if_neg different, if_neg between]
  simp only [decide_eq_true_eq]

theorem shifted_nowhere
    (lined : db.Lined waiting)
    (old : Nat) : Shifted waiting old old db db := by
  refine ⟨rfl, fun _ => rfl, fun opId member different => ?_⟩
  rw [lined.placeOf_eq member, shifted, if_neg different, if_neg (fun between => by omega),
    if_neg (fun between => by omega)]

/-- The three ways of a move, up to the final numbering. -/
theorem exists_shifted
    (lined : db.Lined waiting)
    (found : db.operations.get? opId = some op)
    (queued : op.status = .queued)
    (placed : op.queuePos = some old)
    (newPos : Nat) :
    ∃ shifted : Db, Shifted waiting old newPos db shifted ∧
      db.moveToPos opId newPos = some (shifted.updateOperations fun key op =>
        if key = opId then { op with queuePos := some newPos } else op).reorderQueue := by
  have result : ∀ shifted, shifted =
      (if old < newPos then
        db.shiftPlaces (fun pos => old < pos ∧ pos ≤ newPos) fun pos => pos - 1
      else if newPos < old then
        db.shiftPlaces (fun pos => newPos ≤ pos ∧ pos < old) fun pos => pos + 1
      else db) ->
      db.moveToPos opId newPos = some (shifted.updateOperations fun key op =>
        if key = opId then { op with queuePos := some newPos } else op).reorderQueue := by
    rintro _ rfl
    rw [moveToPos, found]
    dsimp only
    rw [if_neg (not_not.mpr queued), placed]
  rcases Nat.lt_trichotomy old newPos with less | same | greater
  · exact ⟨_, shifted_down lined less, result _ (if_pos less).symm⟩
  · subst same
    exact ⟨_, shifted_nowhere lined old, result _ (by simp)⟩
  · exact ⟨_, shifted_up lined greater,
      result _ (by rw [if_neg (Nat.lt_asymm greater), if_pos greater])⟩

/-- A move in the line. -/
theorem Lined.moved
    (lined : db.Lined waiting)
    (member : opId ∈ waiting)
    (newPos : Nat) :
    ∃ db' : Db, db.moveToPos opId newPos = some db'.reorderQueue ∧
      db'.lastOpId = db.lastOpId ∧ (∀ other, db'.statusOf other = db.statusOf other) ∧
      db'.Lined (moved waiting db.posOf opId newPos) := by
  obtain ⟨op, old, found, queued, placed, place⟩ := lined.exists_pos member
  obtain ⟨db₁, shift, result⟩ := exists_shifted lined found queued placed newPos
  have pos : db.posOf opId = old := by rw [posOf, place, Nat.add_sub_cancel]
  have status : ∀ other, (db₁.updateOperations fun key op =>
      if key = opId then { op with queuePos := some newPos } else op).statusOf other =
        db.statusOf other := by
    intro other
    rw [← shift.status, statusOf, get?_updateOne]
    split
    · next same =>
        rw [statusOf, Option.map_map, same]
        rfl
    · rfl
  have places : ∀ other ∈ waiting, (db₁.updateOperations fun key op =>
      if key = opId then { op with queuePos := some newPos } else op).placeOf other =
        shifted (db.posOf opId) newPos (db.posOf other) + 1 := by
    intro other inLine
    by_cases same : other = opId
    · subst same
      obtain ⟨op', found', _⟩ := statusOf_eq_some
        ((shift.status other).trans ((lined.queued other).mp inLine))
      have moved : (db₁.updateOperations fun key op => if key = other then
          { op with queuePos := some newPos } else op).operations.get? other =
            some { op' with queuePos := some newPos } := by
        rw [get?_updateOne, if_pos rfl, found', Option.map_some]
      rw [placeOf_of_get? moved, shifted_self]
      rfl
    · have different : db.posOf other ≠ old := fun equal =>
        same (lined.positions.injective inLine member (equal.trans pos.symm))
      rw [pos, ← shift.places other inLine different]
      exact placeOf_congr ((db₁.get?_updateOne opId _ other).trans (if_neg same))
  refine ⟨_, result, shift.last, status, fun other => ?_, fun other inside => ?_, ?_⟩
  · rw [mem_moved member, status, lined.queued]
  · rw [places other ((mem_moved member).mp inside)]
    exact Nat.succ_pos _
  · exact List.Pairwise.imp_of_mem (fun {a b} first second less => by
      rw [places a ((mem_moved member).mp first), places b ((mem_moved member).mp second)]
      exact Nat.succ_lt_succ less) (lined.positions.moved member)

/-! ## Reachable queues -/

/-- The databases that the methods reach from an empty one. -/
inductive Reached : Db -> Prop
  | empty : Reached empty
  | call {db db' : Db} {dbCall : DbCall} {now : Time} {reply : dbCall.Reply}
      (past : Reached db)
      (proper : Cmd.Proper (.db dbCall))
      (applied : dbCall.apply now db = .ok (reply, db')) : Reached db'
  | remove {db : Db}
      (past : Reached db)
      (opId : Nat)
      (now : Time) : Reached (db.removeFromQueue opId now)
  | move {db db' : Db} {opId newPos : Nat}
      (past : Reached db)
      (result : db.moveToPos opId newPos = some db') : Reached db'

/-- No QUEUED operation has the place 0. -/
def Positive (db : Db) : Prop :=
  ∀ opId op, db.operations.get? opId = some op -> op.status = .queued ->
    op.queuePos ≠ some 0

theorem Lined.positive_reorderQueue (lined : db.Lined waiting) : db.reorderQueue.Positive := by
  intro opId op' found' queued' zero
  have member : opId ∈ waiting := by
    rw [lined.queued, ← statusOf_reorderQueue lined, statusOf_of_get? found', queued']
  obtain ⟨index, inside, same⟩ := List.getElem_of_mem member
  subst same
  have place := placeOf_reorderQueue lined index inside
  rw [placeOf_of_get? found', Row.place, zero] at place
  change 0 + 1 = index + 2 at place
  omega

theorem Positive.change
    (positive : db.Positive)
    (lined : db.Lined waiting)
    (change : Change db db') : db'.Positive := by
  cases change with
  | @settle _ change operations last settles =>
      intro opId op' found' queued'
      rw [operations, Option.map_eq_some_iff] at found'
      obtain ⟨op, found, rfl⟩ := found'
      rcases settles opId op with ⟨status, pos⟩ | outside
      · rw [pos]
        exact positive opId op found (status ▸ queued')
      · rw [queued'] at outside
        simp at outside
  | create operations last reserved =>
      intro opId op' found' queued'
      rw [operations, Dict.get?_set] at found'
      split at found'
      · cases found'
        rw [reserved] at queued'
        cases queued'
      · exact positive opId op' found' queued'
  | enqueue found reserved =>
      intro opId op' found' queued'
      rw [enqueueReserved_eq found reserved, get?_updateOne] at found'
      split at found'
      · rw [found] at found'
        cases found'
        exact fun zero => Nat.succ_ne_zero _ (Option.some.inj zero)
      · exact positive opId op' found' queued'
  | reorder => exact lined.positive_reorderQueue
  | promote first =>
      obtain ⟨_, _, head⟩ := lined.firstQueued_eq first
      rw [head] at lined
      rw [promoteFirstQueued, first]
      exact (lined.activated _).positive_reorderQueue

/-- The QUEUED operations stand in a line, with places from 1 on. -/
structure Orderly (db : Db) : Prop where
  fifo : ∃ order, Fifo order db
  positive : db.Positive

theorem Orderly.change
    (orderly : db.Orderly)
    (change : Change db db') : db'.Orderly := by
  obtain ⟨order, fifo⟩ := orderly.fifo
  obtain ⟨waiting, lined, _⟩ := fifo.lined
  exact ⟨⟨_, fifo.change change⟩, orderly.positive.change lined change⟩

theorem Orderly.move
    (orderly : db.Orderly)
    (result : db.moveToPos opId newPos = some db') : db'.Orderly := by
  obtain ⟨order, fifo⟩ := orderly.fifo
  obtain ⟨waiting, lined, _⟩ := fifo.lined
  by_cases member : opId ∈ waiting
  · obtain ⟨db₁, moved, last, status, lined₁⟩ := lined.moved member newPos
    rw [result] at moved
    obtain rfl := Option.some.inj moved
    have status' : ∀ other, db₁.reorderQueue.statusOf other = db.statusOf other :=
      fun other => (statusOf_reorderQueue lined₁ other).trans (status other)
    refine ⟨⟨_, ⟨_, lined₁.reordered, .refl _⟩, lined₁.places.nodup, ?_, ?_⟩,
      lined₁.positive_reorderQueue⟩
    · intro other inside
      exact ⟨_, (lined₁.reordered.queued other).mp inside, nofun⟩
    · intro other there
      have last' : db₁.reorderQueue.lastOpId = db.lastOpId := last
      rw [last']
      exact fifo.bounded other (status' other ▸ there)
  · have same : db' = db := by
      rw [lined.queued] at member
      rw [moveToPos] at result
      split at result
      · exact (Option.some.inj result).symm
      · next op found =>
          rw [statusOf_of_get? found] at member
          rw [if_pos fun queued => member (congrArg some queued)] at result
          exact (Option.some.inj result).symm
    rw [same]
    exact orderly

theorem orderly_of_reached (reached : Reached db) : db.Orderly := by
  induction reached with
  | empty => exact ⟨⟨[], fifo_empty⟩, nofun⟩
  | call past proper applied inductionHypothesis =>
      exact inductionHypothesis.change (change_of_apply applied proper)
  | @remove db past opId now inductionHypothesis =>
      have removed : Change db (db.updateOperation opId .removed
          ⟨some none, some 3, some (some "OVERTIME_REMOVED")⟩ now) :=
        .updateOperation rfl rfl (by decide)
      exact (inductionHypothesis.change removed).change .reorder
  | move past result inductionHypothesis => exact inductionHypothesis.move result

/-! ## The result -/

/-- What a move to the rank `p` is to do: the operation gets the rank, the
others keep their order, and the places are numbered from 1. -/
structure MovedTo
    (opId p : Nat)
    (db db' : Db) : Prop where
  rank : db'.queuePositionOf opId = some p
  others : (db'.queue.map Prod.fst).erase opId = (db.queue.map Prod.fst).erase opId
  numbered : db'.queue.map (fun row => row.2.queuePos) =
    (List.range' 1 db.queueSize).map some

/-- All places up to `q` are those of QUEUED operations. -/
def Taken (db : Db) (q : Nat) : Prop :=
  ∀ n, 1 ≤ n -> n ≤ q -> ∃ opId op, db.operations.get? opId = some op ∧
    op.status = .queued ∧ op.queuePos = some n

theorem Lined.taken_iff
    (lined : db.Lined waiting)
    (q : Nat) :
    db.Taken q ↔ ∀ n, 1 ≤ n -> n ≤ q -> ∃ opId ∈ waiting, db.posOf opId = n := by
  have one : ∀ n, (∃ opId op, db.operations.get? opId = some op ∧ op.status = .queued ∧
      op.queuePos = some n) ↔ ∃ opId ∈ waiting, db.posOf opId = n := by
    intro n
    constructor
    · rintro ⟨opId, op, found, queued, placed⟩
      refine ⟨opId, (lined.queued opId).mpr (by rw [statusOf_of_get? found, queued]), ?_⟩
      rw [posOf, placeOf_of_get? found, Row.place, placed]
      exact Nat.add_sub_cancel n 1
    · rintro ⟨opId, member, pos⟩
      obtain ⟨op, pos', found, queued, placed, place⟩ := lined.exists_pos member
      rw [posOf, place, Nat.add_sub_cancel] at pos
      exact ⟨opId, op, found, queued, pos ▸ placed⟩
  simp only [Taken, one]

/-- The places along the queue. -/
theorem Lined.queuePos_queue
    (lined : db.Lined waiting) :
    db.queue.map (fun row => row.2.queuePos) = waiting.map fun opId => some (db.posOf opId) := by
  rw [← lined.queue_eq, List.map_map]
  refine List.map_congr_left fun row inQueue => ?_
  obtain ⟨found, queued⟩ := mem_queue.mp inQueue
  have member : row.1 ∈ waiting := (lined.queued _).mpr (by rw [statusOf_of_get? found, queued])
  obtain ⟨op, pos, found', _, placed, place⟩ := lined.exists_pos member
  rw [found] at found'
  cases found'
  rw [placed, Function.comp_apply, posOf, place, Nat.add_sub_cancel]

theorem Lined.numbered
    (lined : db.Lined waiting) :
    db.reorderQueue.queue.map (fun row => row.2.queuePos) =
      (List.range' 1 waiting.length).map some := by
  rw [lined.reordered.queuePos_queue]
  refine List.ext_getElem (by simp) fun index inside _ => ?_
  rw [List.length_map] at inside
  rw [List.getElem_map, List.getElem_map, List.getElem_range', posOf,
    placeOf_reorderQueue lined index inside]
  congr 1
  omega

/-- A move always keeps the others in order and numbers the places; the rank is
the wanted one when the places up to it were taken. -/
theorem Orderly.moved
    (orderly : db.Orderly)
    (found : db.operations.get? opId = some op)
    (queued : op.status = .queued)
    (placed : op.queuePos = some old)
    {p : Nat}
    (low : 1 ≤ p) :
    ∃ db' waiting, db.moveToPos opId p = some db' ∧ db'.Lined waiting ∧ opId ∈ waiting ∧
      waiting.length = db.queueSize ∧
      (MovedTo opId p db db' ↔ waiting.idxOf opId + 1 = p) ∧
      (waiting.idxOf opId + 1 = p ↔ db.Taken (if old < p then p else p - 1)) := by
  obtain ⟨order, fifo⟩ := orderly.fifo
  obtain ⟨waiting, lined, _⟩ := fifo.lined
  have member : opId ∈ waiting := (lined.queued opId).mpr (by rw [statusOf_of_get? found, queued])
  have pos : db.posOf opId = old := by
    rw [posOf, placeOf_of_get? found, Row.place, placed]
    exact Nat.add_sub_cancel old 1
  obtain ⟨db₁, result, last, status, lined₁⟩ := lined.moved member p
  have inside : opId ∈ Ranks.moved waiting db.posOf opId p := (mem_moved member).mpr member
  have length : (Ranks.moved waiting db.posOf opId p).length = db.queueSize := by
    rw [← lined.length_eq]
    refine List.Perm.length_eq ((List.perm_ext_iff_of_nodup lined₁.places.nodup
      lined.places.nodup).mpr fun other => mem_moved member)
  refine ⟨_, _, result, lined₁.reordered, inside, length, ⟨fun moved => ?_, fun rank => ?_⟩, ?_⟩
  · have rank := moved.rank
    rw [lined₁.reordered.queuePositionOf_eq inside] at rank
    exact Option.some.inj rank
  · refine ⟨?_, ?_, ?_⟩
    · rw [lined₁.reordered.queuePositionOf_eq inside, rank]
    · rw [lined₁.reordered.queue_eq, lined.queue_eq]
      exact lined.positions.erase_moved
    · rw [lined₁.numbered, length]
  · have positive : ∀ other ∈ waiting, 1 ≤ db.posOf other := by
      intro other inLine
      obtain ⟨op', pos', found', queued', placed', place'⟩ := lined.exists_pos inLine
      have different := orderly.positive other op' found' queued'
      rw [placed'] at different
      rw [posOf, place', Nat.add_sub_cancel]
      exact Nat.one_le_iff_ne_zero.mpr fun zero => different (congrArg some zero)
    rw [lined.taken_iff, ← pos]
    exact lined.positions.idxOf_moved_iff positive member low

/-- In every reachable queue a move to the rank `p` does what it is to do if and
only if the places up to `p` are taken, or those before `p` when the place of
the operation is not below `p`. -/
theorem move_to_pos_iff
    (reached : Reached db)
    (found : db.operations.get? opId = some op)
    (queued : op.status = .queued) :
    ∃ old, op.queuePos = some old ∧
      (∀ p, 1 ≤ p -> p ≤ db.queueSize -> ∃ db', db.moveToPos opId p = some db' ∧
        (MovedTo opId p db db' ↔ db.Taken (if old < p then p else p - 1))) ∧
      ∃ db', db.moveToEnd opId = some db' ∧
        ((db'.queue.map Prod.fst).getLast? = some opId ↔
          db.Taken (if old < db.queueSize then db.queueSize else db.queueSize - 1)) := by
  have orderly := orderly_of_reached reached
  obtain ⟨order, fifo⟩ := orderly.fifo
  obtain ⟨waiting, lined, _⟩ := fifo.lined
  have member : opId ∈ waiting := (lined.queued opId).mpr (by rw [statusOf_of_get? found, queued])
  obtain ⟨op', old, found', _, placed, _⟩ := lined.exists_pos member
  rw [found] at found'
  cases found'
  refine ⟨old, placed, fun p low high => ?_, ?_⟩
  · obtain ⟨db', _, result, _, _, _, moved, taken⟩ := orderly.moved found queued placed low
    exact ⟨db', result, moved.trans taken⟩
  · have some_queued : 1 ≤ db.queueSize := by
      rw [← lined.length_eq]
      exact List.length_pos_of_mem member
    obtain ⟨db', waiting', result, lined', inside, length, _, taken⟩ :=
      orderly.moved found queued placed some_queued
    refine ⟨db', result, ?_⟩
    rw [lined'.queue_eq, getLast?_eq_some_iff lined'.places.nodup inside, length]
    exact taken

/-- The database behind calls that all succeed. -/
def callAll (now : Time) : List DbCall -> Db -> Option Db
  | [], db => some db
  | dbCall :: rest, db =>
      match dbCall.apply now db with
      | .ok (_, db) => callAll now rest db
      | .error _ => none

theorem reached_of_callAll
    {now : Time}
    {calls : List DbCall}
    (past : Reached db)
    (proper : ∀ dbCall ∈ calls, Cmd.Proper (.db dbCall))
    (result : callAll now calls db = some db') : Reached db' := by
  induction calls generalizing db with
  | nil =>
      cases result
      exact past
  | cons dbCall rest inductionHypothesis =>
      obtain ⟨first, others⟩ := List.forall_mem_cons.mp proper
      rw [callAll] at result
      split at result
      · next reply db₁ applied =>
          exact inductionHypothesis (.call past first applied) others result
      · cases result

/-- Three holders join; the first is promoted before the others are enqueued. -/
def behindRunningCalls : List DbCall :=
  [.ensureUser "a" .setHolder, .ensureUser "b" .setHolder, .ensureUser "c" .setHolder,
    .createReservedOperation "a" .join, .createReservedOperation "b" .join,
    .createReservedOperation "c" .join, .enqueueReserved 1, .promoteFirstQueued,
    .enqueueReserved 2, .enqueueReserved 3]

def behindRunning : Db := (callAll 0 behindRunningCalls empty).get (by decide +kernel)

theorem reached_behindRunning : Reached behindRunning := by
  refine reached_of_callAll .empty ?_ (Option.some_get _).symm
  simp only [behindRunningCalls, List.forall_mem_cons]
  exact ⟨trivial, trivial, trivial, trivial, trivial, trivial, trivial, trivial, trivial,
    trivial, nofun⟩

/-- The first of two QUEUED operations, told to go to the end, stays the first:
their places are 2 and 3. -/
def afterMoveToEnd : Db := (behindRunning.moveToPos 2 2).get (by decide +kernel)

theorem not_moved_behind_running :
    Reached behindRunning ∧ behindRunning.statusOf 2 = some .queued ∧
      behindRunning.queueSize = 2 ∧ behindRunning.moveToPos 2 2 = some afterMoveToEnd ∧
      behindRunning.moveToEnd 2 = some afterMoveToEnd ∧
      afterMoveToEnd.queue.map Prod.fst = [2, 3] ∧
      ¬ MovedTo 2 2 behindRunning afterMoveToEnd := by
  have size : behindRunning.queueSize = 2 := by decide +kernel
  have result : behindRunning.moveToPos 2 2 = some afterMoveToEnd := (Option.some_get _).symm
  refine ⟨reached_behindRunning, by decide +kernel, size, result, ?_, by decide +kernel, ?_⟩
  · rw [moveToEnd, size, result]
  · intro moved
    have rank : afterMoveToEnd.queuePositionOf 2 = some 1 := by decide +kernel
    rw [moved.rank] at rank
    cases rank

theorem move_to_pos_iff_behind_running :
    ∃ old, (some 3 : Option Nat) = some old ∧
      (∀ p, 1 ≤ p -> p ≤ behindRunning.queueSize ->
        ∃ db', behindRunning.moveToPos 3 p = some db' ∧
          (MovedTo 3 p behindRunning db' ↔
            behindRunning.Taken (if old < p then p else p - 1))) ∧
      ∃ db', behindRunning.moveToEnd 3 = some db' ∧
        ((db'.queue.map Prod.fst).getLast? = some 3 ↔
          behindRunning.Taken (if old < behindRunning.queueSize then behindRunning.queueSize
            else behindRunning.queueSize - 1)) := by
  have found : behindRunning.operations.get? 3 =
      some ⟨"c", .join, .queued, some 3, 0, none, 0⟩ := by decide +kernel
  exact move_to_pos_iff reached_behindRunning found rfl

end Db

end Manager
end Mpmt
