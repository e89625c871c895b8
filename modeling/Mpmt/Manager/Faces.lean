import Mpmt.Manager.Queue

/-!
# The lives of the operations

An operation belongs to a user and a service, and its status only moves on.
This module says what the database methods do to the statuses, and which facts
about the three tables they keep.
-/

namespace Mpmt
namespace Manager

/-- Whose operation it is, and how far it has come. -/
structure Face where
  userId : String
  protType : ProtType
  status : OpStatus
  deriving DecidableEq, Repr

def Operation.face (op : Operation) : Face := ⟨op.userId, op.protType, op.status⟩

/-- The same operation with another status. -/
def Face.withStatus (face : Face) (status : OpStatus) : Face :=
  { face with status := status }

namespace OpStatus

/-- The steps in the life of an operation. -/
def next : OpStatus -> OpStatus -> Bool
  | .reserved, .queued | .queued, .active | .queued, .removed | .active, .busy
  | .busy, .done => true
  | status, .failed => status.live
  | _, _ => false

/-- It has been BUSY or has ended. -/
def entered : OpStatus -> Bool
  | .busy | .done | .failed | .removed => true
  | .reserved | .queued | .active => false

/-- The status stays or moves one step on. -/
def Onward (status status' : OpStatus) : Prop :=
  status' = status ∨ status.next status' = true

theorem Onward.refl (status : OpStatus) : Onward status status := .inl rfl

theorem Onward.live
    {status status' : OpStatus}
    (onward : Onward status status')
    (live : status'.live = true) : status.live = true := by
  rcases onward with rfl | step
  · exact live
  · revert live step
    cases status <;> cases status' <;> decide

theorem Onward.entered
    {status status' : OpStatus}
    (onward : Onward status status')
    (before : status.entered = true) : status'.entered = true := by
  rcases onward with rfl | step
  · exact before
  · revert before step
    cases status <;> cases status' <;> decide

end OpStatus

/-- What can become of an operation, or of a key that is not used yet. -/
inductive Passes : Option Face -> Option Face -> Prop
  | born (userId : String) (protType : ProtType) :
      Passes none (some ⟨userId, protType, .reserved⟩)
  | absent : Passes none none
  | onward {face : Face} {status : OpStatus} (step : face.status.Onward status) :
      Passes (some face) (some (face.withStatus status))

theorem Passes.refl (face : Option Face) : Passes face face := by
  cases face with
  | none => exact .absent
  | some face => exact .onward (.refl face.status)

namespace Db

variable {db db' : Db} {opId : Nat} {op : Operation} {face : Face}
  {change : Nat -> OpStatus -> OpStatus}

def faceOf (db : Db) (opId : Nat) : Option Face :=
  (db.operations.get? opId).map Operation.face

/-- The operation is ACTIVE or BUSY. -/
def Runs (db : Db) (opId : Nat) : Prop :=
  ∃ face, db.faceOf opId = some face ∧ face.status.running = true

/-- The operation is BUSY. -/
def Busy (db : Db) (opId : Nat) : Prop :=
  ∃ face, db.faceOf opId = some face ∧ face.status = .busy

def Joined (db : Db) (userId : String) : Prop :=
  ∃ user, db.users.get? userId = some user ∧ user.status = .joined

/-- The user has a token for an Agent. -/
def HasToken (db : Db) (userId : String) (role : Role) : Prop :=
  ∃ token, db.getAgentToken userId role = some token ∧ token ≠ ""

theorem faceOf_of_get?
    (found : db.operations.get? opId = some op) : db.faceOf opId = some op.face := by
  rw [faceOf, found]
  rfl

theorem statusOf_eq (db : Db) (opId : Nat) :
    db.statusOf opId = (db.faceOf opId).map Face.status := by
  rw [statusOf, faceOf, Option.map_map]
  rfl

theorem Busy.runs (busy : db.Busy opId) : db.Runs opId := by
  obtain ⟨face, found, status⟩ := busy
  exact ⟨face, found, by rw [status]; rfl⟩

theorem mem_rowsWhere_of_face
    {row : Row}
    {holds : Operation -> Bool}
    (member : row ∈ db.rowsWhere holds) :
    db.faceOf row.1 = some row.2.face ∧ holds row.2 = true := by
  obtain ⟨found, is⟩ := mem_rowsWhere.mp member
  exact ⟨faceOf_of_get? found, is⟩

/-- No row satisfies `holds`, so no operation with such a status exists. -/
theorem not_of_rowsWhere_eq_nil
    {holds : Operation -> Bool}
    (nothing : db.rowsWhere holds = [])
    (found : db.operations.get? opId = some op) : holds op = false := by
  rw [Bool.eq_false_iff]
  intro is
  have member : (opId, op) ∈ db.rowsWhere holds := mem_rowsWhere.mpr ⟨found, is⟩
  rw [nothing] at member
  cases member

theorem not_runs_of_getActive
    (nothing : db.getActive = none)
    (opId : Nat) : ¬ db.Runs opId := by
  rintro ⟨face, found, runs⟩
  obtain ⟨op, row, rfl⟩ := Option.map_eq_some_iff.mp found
  have sorted : byQueuePos (db.rowsWhere fun op => op.status.running) = [] :=
    List.head?_eq_none_iff.mp nothing
  have empty : db.rowsWhere (fun op => op.status.running) = [] := by
    have perm := List.perm_insertionSort (fun row row' : Row => Row.place row ≤ Row.place row')
      (db.rowsWhere fun op => op.status.running)
    exact List.perm_nil.mp (perm.symm.trans (.of_eq sorted))
  have stopped := not_of_rowsWhere_eq_nil empty row
  exact Bool.false_ne_true (stopped.symm.trans runs)

theorem faceOf_of_firstQueued
    (first : db.firstQueued = some (opId, op)) :
    db.faceOf opId = some op.face ∧ op.status = .queued := by
  obtain ⟨found, queued⟩ := mem_queue.mp (List.mem_of_head? first)
  exact ⟨faceOf_of_get? found, queued⟩

/-! ## What the methods do to the statuses -/

/-- The operations are the same, and the status of each has changed by a
function. -/
def Recast (db db' : Db) (change : Nat -> OpStatus -> OpStatus) : Prop :=
  ∀ opId, db'.faceOf opId =
    (db.faceOf opId).map fun face => face.withStatus (change opId face.status)

/-- No status changes. -/
def still (_ : Nat) (status : OpStatus) : OpStatus := status

/-- One operation gets a status. -/
def setting (opId : Nat) (status : OpStatus) (key : Nat) (old : OpStatus) : OpStatus :=
  if key = opId then status else old

theorem Recast.faceOf_eq
    (recast : db.Recast db' still)
    (opId : Nat) : db'.faceOf opId = db.faceOf opId :=
  (recast opId).trans Option.map_id'

theorem Recast.setting_self
    {status : OpStatus}
    (recast : db.Recast db' (setting opId status))
    (found : db.faceOf opId = some face) :
    db'.faceOf opId = some (face.withStatus status) := by
  rw [recast, found, Option.map_some, setting, if_pos rfl]

theorem Recast.setting_other
    {status : OpStatus}
    (recast : db.Recast db' (setting opId status))
    {other : Nat}
    (different : other ≠ opId) : db'.faceOf other = db.faceOf other := by
  rw [recast]
  simp only [setting, if_neg different]
  exact Option.map_id'

theorem recast_of_same
    (same : db'.operations = db.operations) : db.Recast db' still := by
  intro opId
  rw [faceOf, faceOf, same]
  exact Option.map_id'.symm

theorem recast_updateOperations
    {update : Nat -> Operation -> Operation}
    (operations : db'.operations = (db.updateOperations update).operations)
    (updates : ∀ opId op, (update opId op).face =
      op.face.withStatus (change opId op.status)) : db.Recast db' change := by
  intro opId
  rw [faceOf, faceOf, operations, get?_updateOperations, Option.map_map, Option.map_map]
  congr 1
  funext op
  exact updates opId op

theorem recast_updateOperation
    {status : OpStatus}
    {columns : Columns}
    (operations : db'.operations = (db.updateOperation opId status columns now).operations) :
    db.Recast db' (setting opId status) := by
  refine recast_updateOperations operations fun key op => ?_
  unfold setting
  split
  · rfl
  · rfl

theorem recast_touchOperation (db : Db) (opId : Nat) (now : Time) :
    db.Recast (db.touchOperation opId now) still := by
  refine recast_updateOperations rfl fun key op => ?_
  split
  · rfl
  · rfl

theorem recast_reorderQueue (db : Db) : db.Recast db.reorderQueue still := by
  refine recast_updateOperations rfl fun key op => ?_
  split
  · rfl
  · rfl

theorem recast_enqueueReserved (db : Db) (opId : Nat) (now : Time) :
    db.Recast (db.enqueueReserved opId now).2 fun key status =>
      if key = opId ∧ status = .reserved then .queued else status := by
  cases found : db.operations.get? opId with
  | none =>
      rw [enqueueReserved, found]
      intro key
      by_cases same : key = opId
      · rw [same, faceOf, found]
        rfl
      · simp only [same, false_and, if_false]
        exact Option.map_id'.symm
  | some op =>
      by_cases reserved : op.status = .reserved
      · rw [enqueueReserved_eq found reserved]
        intro key
        rw [faceOf, get?_updateOne, faceOf]
        split
        · next same =>
            simp [same, found, reserved, Operation.face, Face.withStatus]
        · next different =>
            simp only [different, false_and, if_false]
            exact Option.map_id'.symm
      · have kept : (db.enqueueReserved opId now).2 = db := by
          rw [enqueueReserved, found]
          dsimp only
          rw [if_pos reserved]
        rw [kept]
        intro key
        by_cases same : key = opId
        · rw [same, faceOf, found]
          simp [Operation.face, Face.withStatus, reserved]
        · simp only [same, false_and, if_false]
          exact Option.map_id'.symm

theorem recast_failAllLiveOperations (db : Db) (errorCode : String) (now : Time) :
    db.Recast (db.failAllLiveOperations errorCode now) fun _ status =>
      if status.live then .failed else status := by
  refine recast_updateOperations rfl fun key op => ?_
  split
  · rfl
  · rfl

theorem recast_reconcileOnStartup (db : Db) (now : Time) :
    db.Recast (db.reconcileOnStartup now).2 fun _ status =>
      if status.running then .failed else status := by
  refine recast_updateOperations rfl fun key op => ?_
  split
  · rfl
  · rfl

theorem recast_promoteFirstQueued
    (first : db.firstQueued = some (opId, op))
    (now : Time) :
    db.Recast (db.promoteFirstQueued now).2 (setting opId .active) := by
  rw [promoteFirstQueued, first]
  intro key
  rw [(recast_reorderQueue _).faceOf_eq]
  exact recast_updateOperation rfl key

/-- The other tables stay. -/
theorem tables_enqueueReserved (db : Db) (opId : Nat) (now : Time) :
    (db.enqueueReserved opId now).2.users = db.users ∧
      (db.enqueueReserved opId now).2.tokens = db.tokens ∧
      (db.enqueueReserved opId now).2.lastOpId = db.lastOpId := by
  unfold enqueueReserved
  split
  · exact ⟨rfl, rfl, rfl⟩
  · split
    · exact ⟨rfl, rfl, rfl⟩
    · exact ⟨rfl, rfl, rfl⟩

theorem tables_promoteFirstQueued (db : Db) (now : Time) :
    (db.promoteFirstQueued now).2.users = db.users ∧
      (db.promoteFirstQueued now).2.tokens = db.tokens ∧
      (db.promoteFirstQueued now).2.lastOpId = db.lastOpId := by
  unfold promoteFirstQueued
  split
  · exact ⟨rfl, rfl, rfl⟩
  · exact ⟨rfl, rfl, rfl⟩

/-! ## What holds of the tables -/

/-- The user of a JOIN has not joined, and the user of a QUIT has. -/
def Fits (db : Db) (face : Face) : Prop :=
  (face.protType = .join -> ¬ db.Joined face.userId) ∧
    (face.protType = .quit -> db.Joined face.userId)

/-- Who has joined meanwhile has done so with a JOIN that was BUSY, and who has left
with a QUIT. -/
structure Membership (db db' : Db) : Prop where
  joins : ∀ userId, db'.Joined userId -> db.Joined userId ∨
    ∃ opId, db.faceOf opId = some ⟨userId, .join, .busy⟩ ∧
      db'.faceOf opId = some ⟨userId, .join, .done⟩
  leaves : ∀ userId, db.Joined userId -> db'.Joined userId ∨
    ∃ opId, db.faceOf opId = some ⟨userId, .quit, .busy⟩ ∧
      db'.faceOf opId = some ⟨userId, .quit, .done⟩

theorem Membership.of_iff
    (same : ∀ userId, db'.Joined userId ↔ db.Joined userId) : db.Membership db' where
  joins := fun userId joined => .inl ((same userId).mp joined)
  leaves := fun userId joined => .inl ((same userId).mpr joined)

/-- What the methods keep, each in its place. -/
structure Regular (db : Db) : Prop where
  /-- No two live operations of a user for one service. -/
  unique : ∀ opId opId' face face',
    db.faceOf opId = some face -> db.faceOf opId' = some face' ->
    face.status.live = true -> face'.status.live = true ->
    face.userId = face'.userId -> face.protType = face'.protType -> opId = opId'
  /-- Who waits for a JOIN has not joined, and who waits for a QUIT has. -/
  fits : ∀ opId face, db.faceOf opId = some face -> face.status.placed = true -> db.Fits face
  /-- Who has all tokens has joined. -/
  member : ∀ userId, (∀ role, db.HasToken userId role) -> db.Joined userId
  bounded : ∀ opId face, db.faceOf opId = some face -> opId ≤ db.lastOpId

theorem regular_empty : Regular empty where
  unique := nofun
  fits := nofun
  member := by
    intro userId tokens
    obtain ⟨token, stored, _⟩ := tokens .steward
    cases stored
  bounded := nofun

theorem joined_congr
    (users : db'.users = db.users)
    (userId : String) : db'.Joined userId ↔ db.Joined userId := by
  rw [Joined, Joined, users]

theorem fits_congr
    (joined : ∀ userId, db'.Joined userId ↔ db.Joined userId) : db'.Fits face ↔ db.Fits face := by
  rw [Fits, Fits, joined]

theorem hasToken_congr
    (tokens : db'.tokens = db.tokens)
    (userId : String)
    (role : Role) : db'.HasToken userId role ↔ db.HasToken userId role := by
  rw [HasToken, HasToken, getAgentToken, getAgentToken, tokens]

/-- What fits goes on to fit as long as the operation is live: whoever joins or
leaves meanwhile does so with another one. -/
theorem Fits.later
    {status : OpStatus}
    (regular : db.Regular)
    (membership : db.Membership db')
    (found : db.faceOf opId = some face)
    (after : db'.faceOf opId = some (face.withStatus status))
    (before : face.status.live = true)
    (live : status.live = true)
    (fits : db.Fits face) : db'.Fits face := by
  have other : ∀ {protType : ProtType} {key : Nat}, face.protType = protType ->
      db.faceOf key = some ⟨face.userId, protType, .busy⟩ ->
      db'.faceOf key ≠ some ⟨face.userId, protType, .done⟩ := by
    intro protType key same isBusy isDone
    have mine := regular.unique opId key face _ found isBusy before rfl rfl same
    rw [← mine, after, Option.some.injEq] at isDone
    rw [show status = .done from congrArg Face.status isDone] at live
    cases live
  refine ⟨fun isJoin joined => ?_, fun isQuit => ?_⟩
  · rcases membership.joins face.userId joined with joined | ⟨key, isBusy, isDone⟩
    · exact fits.1 isJoin joined
    · exact other isJoin isBusy isDone
  · rcases membership.leaves face.userId (fits.2 isQuit) with joined | ⟨key, isBusy, isDone⟩
    · exact joined
    · exact absurd isDone (other isQuit isBusy)

/-- Statuses that only move on keep the tables in order, as long as only users for
whom it fits get in line. -/
theorem Regular.recast
    (regular : db.Regular)
    (recast : db.Recast db' change)
    (onward : ∀ opId face, db.faceOf opId = some face ->
      face.status.Onward (change opId face.status))
    (enters : ∀ opId face, db.faceOf opId = some face ->
      (change opId face.status).placed = true -> face.status.placed = true ∨ db.Fits face)
    (users : db'.users = db.users)
    (tokens : db'.tokens = db.tokens)
    (last : db'.lastOpId = db.lastOpId) : db'.Regular := by
  refine ⟨?_, ?_, ?_, ?_⟩
  · intro opId opId' after after' found' found'' live live' sameUser sameService
    rw [recast, Option.map_eq_some_iff] at found' found''
    obtain ⟨face, found, rfl⟩ := found'
    obtain ⟨face', other, rfl⟩ := found''
    exact regular.unique opId opId' face face' found other
      ((onward opId face found).live live) ((onward opId' face' other).live live')
      sameUser sameService
  · intro opId after found' placed
    rw [recast, Option.map_eq_some_iff] at found'
    obtain ⟨face, found, rfl⟩ := found'
    refine (fits_congr (joined_congr users)).mpr ?_
    rcases enters opId face found placed with before | fits
    · exact regular.fits opId face found before
    · exact fits
  · intro userId all
    rw [joined_congr users]
    exact regular.member userId fun role => (hasToken_congr tokens userId role).mp (all role)
  · intro opId after found'
    rw [recast, Option.map_eq_some_iff] at found'
    obtain ⟨face, found, _⟩ := found'
    rw [last]
    exact regular.bounded opId face found

/-- What a created operation is. -/
theorem createReservedOperation_eq_ok
    (created : db.createReservedOperation userId protType now = .ok (opId, db')) :
    opId = db.lastOpId + 1 ∧ db'.lastOpId = opId ∧ db'.users = db.users ∧
      db'.tokens = db.tokens ∧
      (∀ other, db'.faceOf other =
        if other = opId then some ⟨userId, protType, .reserved⟩ else db.faceOf other) ∧
      ∀ other face, db.faceOf other = some face -> face.status.live = true ->
        ¬ (face.userId = userId ∧ face.protType = protType) := by
  unfold createReservedOperation at created
  split at created
  · cases created
  · split at created
    · cases created
    · next nobody =>
        cases created
        refine ⟨rfl, rfl, rfl, rfl, fun other => ?_, ?_⟩
        · rw [faceOf, Dict.get?_set]
          split
          · rfl
          · rfl
        · rintro other face found live ⟨sameUser, sameService⟩
          obtain ⟨op, row, rfl⟩ := Option.map_eq_some_iff.mp found
          rw [getLiveOperation, Bool.not_eq_true, Option.isSome_eq_false_iff,
            Option.isNone_iff_eq_none, List.getLast?_eq_none_iff] at nobody
          have mismatch := not_of_rowsWhere_eq_nil nobody row
          rw [decide_eq_false_iff_not] at mismatch
          exact mismatch ⟨sameUser, congrArg ProtType.name sameService, live⟩

theorem Regular.created
    (regular : db.Regular)
    (created : db.createReservedOperation userId protType now = .ok (opId, db')) :
    db'.Regular := by
  obtain ⟨new, last, users, tokens, faces, alone⟩ := createReservedOperation_eq_ok created
  refine ⟨?_, ?_, ?_, ?_⟩
  · intro first second face face' found found' live live' sameUser sameService
    rw [faces] at found found'
    split at found
    · next same =>
        split at found'
        · next same' => exact same.trans same'.symm
        · cases found
          exact absurd ⟨sameUser.symm, sameService.symm⟩ (alone second face' found' live')
    · split at found'
      · cases found'
        exact absurd ⟨sameUser, sameService⟩ (alone first face found live)
      · exact regular.unique first second face face' found found' live live' sameUser
          sameService
  · intro other face found placed
    rw [faces] at found
    refine (fits_congr (joined_congr users)).mpr ?_
    split at found
    · cases found
      cases placed
    · exact regular.fits other face found placed
  · intro userId all
    rw [joined_congr users]
    exact regular.member userId fun role => (hasToken_congr tokens userId role).mp (all role)
  · intro other face found
    rw [faces] at found
    rw [last]
    split at found
    · next same => exact same.le
    · have old := regular.bounded other face found
      omega

/-! ## Users and tokens -/

theorem joined_setUserStatus
    (db : Db)
    (userId other : String)
    (status : UserStatus) :
    (db.setUserStatus userId status).Joined other ↔
      if other = userId then userId ∈ db.users ∧ status = .joined else db.Joined other := by
  rw [Joined, setUserStatus]
  simp only [Dict.get?_mapValues]
  split
  · next same =>
      rw [same, Dict.mem_iff, Option.isSome_iff_exists]
      constructor
      · rintro ⟨_, found, joined⟩
        obtain ⟨user, before, rfl⟩ := Option.map_eq_some_iff.mp found
        exact ⟨⟨user, before⟩, joined⟩
      · rintro ⟨⟨user, before⟩, joined⟩
        exact ⟨{ user with status := status }, by rw [before, Option.map_some],
          joined⟩
  · constructor
    · rintro ⟨user, found, joined⟩
      exact ⟨user, by simpa using found, joined⟩
    · rintro ⟨user, found, joined⟩
      exact ⟨user, by simpa using found, joined⟩

theorem joined_ensureUser
    (db : Db)
    (userId other : String)
    (role : UserRole) : (db.ensureUser userId role).Joined other ↔ db.Joined other := by
  unfold ensureUser
  split
  · rfl
  · next absent =>
      rw [Joined, Joined]
      simp only [Dict.get?_set]
      split
      · next same =>
          rw [same, Dict.get?_eq_none_of_not_mem absent]
          constructor
          · rintro ⟨user, found, joined⟩
            cases found
            dsimp only at joined
            split at joined
            · cases joined
            · cases joined
          · rintro ⟨user, found, _⟩
            cases found
      · rfl

theorem Regular.of_users
    (regular : db.Regular)
    (operations : db'.operations = db.operations)
    (tokens : db'.tokens = db.tokens)
    (last : db'.lastOpId = db.lastOpId)
    (joined : ∀ userId, db'.Joined userId ↔ db.Joined userId) : db'.Regular := by
  have faces := (recast_of_same operations).faceOf_eq
  refine ⟨?_, ?_, ?_, ?_⟩
  · intro opId opId' face face' found found'
    rw [faces] at found found'
    exact regular.unique opId opId' face face' found found'
  · intro opId face found placed
    rw [faces] at found
    exact (fits_congr joined).mpr (regular.fits opId face found placed)
  · intro userId all
    rw [joined]
    exact regular.member userId fun role => (hasToken_congr tokens userId role).mp (all role)
  · intro opId face found
    rw [faces] at found
    rw [last]
    exact regular.bounded opId face found

theorem getAgentToken_setTokens_other
    (tokens : List (Role × String))
    (different : other ≠ userId)
    (role : Role) :
    (db.setTokens userId tokens).getAgentToken other role = db.getAgentToken other role := by
  rw [getAgentToken, getAgentToken, setTokens]
  dsimp only
  rw [Dict.get?_setAll_of_not_mem]
  intro member
  simp only [List.map_map, List.mem_map, Function.comp_apply, Prod.mk.injEq] at member
  obtain ⟨entry, _, same, _⟩ := member
  exact different same.symm

theorem hasToken_setTokens_other
    (tokens : List (Role × String))
    (different : other ≠ userId)
    (role : Role) :
    (db.setTokens userId tokens).HasToken other role ↔ db.HasToken other role := by
  rw [HasToken, HasToken, getAgentToken_setTokens_other tokens different]

/-! ## The end of a JOIN and of a QUIT -/

theorem recast_finish (db : Db) (opId : Nat) (now : Time) :
    db.Recast (db.finish opId now) (setting opId .done) :=
  recast_updateOperation rfl

theorem Regular.finished
    (regular : db.Regular)
    (found : db.faceOf opId = some face)
    (busy : face.status = .busy)
    (now : Time) : (db.finish opId now).Regular := by
  refine regular.recast (recast_updateOperation rfl) ?_ ?_ rfl rfl rfl
  · intro key face' known
    unfold setting
    split
    · next same =>
        rw [same, found] at known
        cases known
        rw [busy]
        exact .inr rfl
    · exact .refl _
  · intro key face' known placed
    unfold setting at placed
    split at placed
    · cases placed
    · exact .inl placed

theorem completeJoin_eq_ok
    {tokens : List (Role × String)}
    (completed : db.completeJoin opId userId tokens now = .ok db') :
    db.Recast db' (setting opId .done) ∧ db'.lastOpId = db.lastOpId ∧
      db'.tokens = ((db.finish opId now).setTokens userId tokens).tokens ∧
      ∀ other, db'.Joined other ↔
        if other = userId then userId ∈ db.users else db.Joined other := by
  unfold completeJoin at completed
  split at completed
  · cases completed
  · cases completed
    refine ⟨recast_updateOperation rfl, rfl, rfl, fun other => ?_⟩
    rw [joined_setUserStatus]
    split
    · exact ⟨fun both => both.1, fun member => ⟨member, rfl⟩⟩
    · rfl

theorem membership_completeJoin
    (found : db.faceOf opId = some ⟨userId, .join, .busy⟩)
    {tokens : List (Role × String)}
    (completed : db.completeJoin opId userId tokens now = .ok db') : db.Membership db' := by
  obtain ⟨recast, _, _, joined⟩ := completeJoin_eq_ok completed
  refine ⟨fun other isJoined => ?_, fun other ⟨user, stored, isJoined⟩ => ?_⟩
  · rw [joined] at isJoined
    split at isJoined
    · next same =>
        subst same
        exact .inr ⟨opId, found, recast.setting_self found⟩
    · exact .inl isJoined
  · rw [joined]
    split
    · next same => exact .inl (Dict.mem_of_get? (same ▸ stored))
    · exact .inl ⟨user, stored, isJoined⟩

theorem recast_completeQuit
    (db : Db)
    (opId : Nat)
    (userId : String)
    (now : Time) : db.Recast (db.completeQuit opId userId now) (setting opId .done) :=
  recast_updateOperation rfl

theorem joined_completeQuit
    (db : Db)
    (opId : Nat)
    (userId other : String)
    (now : Time) :
    (db.completeQuit opId userId now).Joined other ↔ other ≠ userId ∧ db.Joined other := by
  rw [completeQuit, joined_setUserStatus]
  split
  · next same => exact ⟨fun left => UserStatus.noConfusion left.2, fun both => absurd same both.1⟩
  · next different => exact ⟨fun joined => ⟨different, joined⟩, And.right⟩

theorem membership_completeQuit
    (found : db.faceOf opId = some ⟨userId, .quit, .busy⟩)
    (now : Time) : db.Membership (db.completeQuit opId userId now) := by
  refine ⟨fun other isJoined => .inl ((joined_completeQuit ..).mp isJoined).2,
    fun other isJoined => ?_⟩
  by_cases same : other = userId
  · subst same
    exact .inr ⟨opId, found, (db.recast_completeQuit opId other now).setting_self found⟩
  · exact .inl ((joined_completeQuit ..).mpr ⟨same, isJoined⟩)

/-- What waits beside a completed operation goes on to fit. -/
theorem Regular.fits_completed
    (regular : db.Regular)
    (membership : db.Membership db')
    (recast : db.Recast db' (setting opId .done))
    (found : db.faceOf opId = some face)
    {key : Nat}
    {face' : Face}
    (known : db'.faceOf key = some face')
    (placed : face'.status.placed = true) : db'.Fits face' := by
  have different : key ≠ opId := by
    rintro rfl
    rw [recast.setting_self found] at known
    cases known
    cases placed
  have before := known
  rw [recast.setting_other different] at before
  have live : face'.status.live = true := by
    cases status : face'.status <;> rw [status] at placed <;> first | rfl | cases placed
  exact .later regular membership before known live live (regular.fits key face' before placed)

/-- The user of a completed JOIN has joined, and waits for no other one. -/
theorem Regular.completedJoin
    (regular : db.Regular)
    (found : db.faceOf opId = some ⟨userId, .join, .busy⟩)
    {tokens : List (Role × String)}
    (completed : db.completeJoin opId userId tokens now = .ok db') : db'.Regular := by
  obtain ⟨recast, last, stored, joined⟩ := completeJoin_eq_ok completed
  have finished := regular.finished found rfl now
  have faces : ∀ key, db'.faceOf key = (db.finish opId now).faceOf key := fun key =>
    (recast key).trans (db.recast_finish opId now key).symm
  refine ⟨?_, ?_, ?_, ?_⟩
  · intro key key' face face' known known'
    rw [faces] at known known'
    exact finished.unique key key' face face' known known'
  · intro key face known placed
    exact regular.fits_completed (membership_completeJoin found completed) recast found known
      placed
  · intro other all
    rw [joined]
    split
    · next same =>
        subst same
        by_cases user : other ∈ db.users
        · exact user
        · -- tokens of an unknown user could not be stored
          have nothing : tokens.any (fun entry => entry.2 ≠ "") = false := by
            unfold completeJoin at completed
            split at completed
            · cases completed
            · next fine =>
                rw [Bool.eq_false_iff]
                exact fun some => fine ⟨user, some⟩
          have unchanged : db'.tokens = db.tokens := by
            rw [stored, setTokens, List.filter_eq_nil_iff.mpr fun entry member => by
              have empty := List.any_eq_false.mp nothing entry member
              exact empty]
            rfl
          obtain ⟨known, isKnown, _⟩ := regular.member other fun role =>
            (hasToken_congr unchanged other role).mp (all role)
          exact absurd (Dict.mem_of_get? isKnown) user
    · next different =>
        refine regular.member other fun role => ?_
        have there := (hasToken_congr stored other role).mp (all role)
        exact (hasToken_setTokens_other tokens different role).mp there
  · intro key face known
    rw [faces] at known
    rw [last]
    exact finished.bounded key face known

theorem Regular.completedQuit
    (regular : db.Regular)
    (found : db.faceOf opId = some ⟨userId, .quit, .busy⟩)
    (now : Time) : (db.completeQuit opId userId now).Regular := by
  have recast := db.recast_completeQuit opId userId now
  have finished := regular.finished found rfl now
  have faces : ∀ key, (db.completeQuit opId userId now).faceOf key =
      (db.finish opId now).faceOf key := fun key =>
    (recast key).trans (db.recast_finish opId now key).symm
  refine ⟨?_, ?_, ?_, ?_⟩
  · intro key key' face' face'' known known'
    rw [faces] at known known'
    exact finished.unique key key' face' face'' known known'
  · intro key face' known placed
    exact regular.fits_completed (membership_completeQuit found now) recast found known placed
  · intro other all
    have kept : ∀ role, other ≠ userId ∧ db.HasToken other role := by
      intro role
      obtain ⟨token, there, full⟩ := all role
      rw [getAgentToken, completeQuit, setUserStatus] at there
      dsimp only at there
      rw [Dict.get?_filterKeys] at there
      split at there
      · next kept => exact ⟨decide_eq_true_eq.mp kept, token, there, full⟩
      · cases there
    rw [completeQuit, joined_setUserStatus, if_neg (kept .steward).1]
    exact regular.member other fun role => (kept role).2
  · intro key face' known
    rw [faces] at known
    exact finished.bounded key face' known

end Db

end Manager
end Mpmt
