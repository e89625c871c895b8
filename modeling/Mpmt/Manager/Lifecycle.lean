import Mathlib.Data.List.Destutter
import Mpmt.Manager.Fifo
import Mpmt.Manager.Process

/-!
# The life of an operation over a run

What every step of a thread leaves to the others adds up over a run: the status
of an operation only moves on, it becomes BUSY once, and its endpoints are
handed out once, also when the Manager is started again in between.
-/

namespace Mpmt
namespace Manager

open Effects Threads Contract

/-- What holds at the start and is kept by every step, by every thread that is
started and by every new process holds behind every run. -/
theorem server_keeps
    {trace : List Instant}
    {c : Config interface PyError State}
    {φ : List Instant -> World -> Prop}
    (first : φ [] (.fresh .empty .active, .fresh))
    (did : ∀ trace event x x', Sound x -> Within event x x' -> φ trace x ->
      φ (trace ++ [⟨x.1, .did event, x'.1⟩]) x')
    (arrived : ∀ trace task x, Sound x -> φ trace x ->
      φ (trace ++ [⟨x.1, .arrived task, x.1⟩]) x)
    (restarted : ∀ trace x, Sound x -> φ trace x ->
      φ (trace ++ [⟨x.1, .restarted, .fresh x.1.db x.1.taskStatus⟩])
        (.fresh x.1.db x.1.taskStatus, .fresh))
    (run : Run (manager cfg) (initial cfg) trace c) :
    ∃ ghost, (serverContract cfg).Good c ghost ∧ φ trace (c.state, ghost) :=
  (good_initial cfg).run_keeps (φ := φ) (server_verified cfg) first
    (fun trace label x x' sound _ link before => by
      cases label with
      | did event => exact did trace event x x' sound link before
      | arrived task =>
          have same : x' = x := link
          rw [same]
          exact arrived trace task x sound before
      | restarted =>
          have same : x' = (.fresh x.1.db x.1.taskStatus, .fresh) := link
          rw [same]
          exact restarted trace x sound before)
    run

/-- What holds of every step holds of every moment. -/
theorem server_moments
    {trace : List Instant}
    {c : Config interface PyError State}
    {P : Instant -> Prop}
    (did : ∀ event x x', Sound x -> Within event x x' -> P ⟨x.1, .did event, x'.1⟩)
    (arrived : ∀ task s, P ⟨s, .arrived task, s⟩)
    (restarted : ∀ s, P ⟨s, .restarted, .fresh s.db s.taskStatus⟩)
    (run : Run (manager cfg) (initial cfg) trace c) : ∀ moment ∈ trace, P moment := by
  have snoc : ∀ (trace : List Instant) moment, P moment -> (∀ moment ∈ trace, P moment) ->
      ∀ moment' ∈ trace ++ [moment], P moment' := by
    intro trace moment last before moment' member
    rcases List.mem_append.mp member with old | new
    · exact before moment' old
    · rw [List.mem_singleton.mp new]
      exact last
  obtain ⟨_, _, all⟩ := server_keeps (φ := fun trace _ => ∀ moment ∈ trace, P moment)
    (fun _ member => absurd member List.not_mem_nil)
    (fun trace event x x' sound within => snoc trace _ (did event x x' sound within))
    (fun trace task x _ => snoc trace _ (arrived task x.1))
    (fun trace x _ => snoc trace _ (restarted x.1)) run
  exact all

/-! ## What happens to an operation -/

/-- The operation becomes BUSY. -/
def Begins (opId : Nat) (moment : Instant) : Bool :=
  moment.before.db.statusOf opId != some .busy &&
    moment.after.db.statusOf opId == some .busy

/-- A response carries the endpoints of the operation. -/
def HandsOut (opId : Nat) (moment : Instant) : Bool :=
  match moment.label with
  | .did ⟨_, .respond response, _⟩ =>
      response.opId == some opId && response.agents.isSome
  | _ => false

/-- The operation has been BUSY or has ended. -/
def Db.Entered (db : Db) (opId : Nat) : Prop :=
  ∃ face, db.faceOf opId = some face ∧ face.status.entered = true

theorem Db.Entered.passes
    {db db' : Db}
    (entered : db.Entered opId)
    (passes : Passes (db.faceOf opId) (db'.faceOf opId)) : db'.Entered opId := by
  obtain ⟨face, found, begun⟩ := entered
  rw [found] at passes
  generalize after : db'.faceOf opId = face' at passes
  cases passes with
  | onward step => exact ⟨_, after, step.entered begun⟩

/-- An operation that has ended stays as it is. -/
theorem statusOf_of_ended
    {db db' : Db}
    {status : OpStatus}
    (passes : Passes (db.faceOf opId) (db'.faceOf opId))
    (found : db.statusOf opId = some status)
    (ended : status.live = false) : db'.statusOf opId = some status := by
  rw [Db.statusOf_eq, Option.map_eq_some_iff] at found
  obtain ⟨face, known, rfl⟩ := found
  rw [known] at passes
  rw [Db.statusOf_eq]
  generalize db'.faceOf opId = face' at passes
  cases passes with
  | @onward _ status' step =>
      have same : status' = face.status := by
        rcases step with same | next
        · exact same
        · revert ended next
          cases face.status <;> cases status' <;> decide
      exact congrArg some same

/-- An operation that becomes BUSY has been ACTIVE. -/
theorem active_of_begins
    {moment : Instant}
    (passes : Passes (moment.before.db.faceOf opId) (moment.after.db.faceOf opId))
    (begins : Begins opId moment = true)
    (found : moment.before.db.faceOf opId = some face) : face.status = .active := by
  rw [Begins, Bool.and_eq_true, bne_iff_ne, beq_iff_eq, Db.statusOf_eq, Db.statusOf_eq,
    found, Option.map_some] at begins
  obtain ⟨before, after⟩ := begins
  obtain ⟨face', found', busy⟩ := Option.map_eq_some_iff.mp after
  rw [found, found'] at passes
  cases passes with
  | @onward _ status step =>
      have isBusy : status = .busy := busy
      rw [isBusy] at step
      rcases step with same | next
      · exact absurd (congrArg some same.symm) before
      · revert next
        cases face.status <;> decide

theorem entered_of_begins
    {moment : Instant}
    (begins : Begins opId moment = true) : moment.after.db.Entered opId := by
  rw [Begins, Bool.and_eq_true, beq_iff_eq] at begins
  have after := begins.2
  rw [Db.statusOf_eq] at after
  obtain ⟨face, found, busy⟩ := Option.map_eq_some_iff.mp after
  exact ⟨face, found, by rw [busy]; rfl⟩

/-- The Manager gives a response. -/
def Responds (moment : Instant) (response : Response) : Prop :=
  ∃ tid reply, moment.label = .did ⟨tid, .respond response, reply⟩

/-! ## What a run keeps -/

/-- What has happened so far, with what it says about the present. -/
structure Lived (trace : List Instant) (x : World) : Prop where
  passes : ∀ moment ∈ trace, ∀ opId,
    Passes (moment.before.db.faceOf opId) (moment.after.db.faceOf opId)
  ended : ∀ past moment future, trace = past ++ moment :: future ->
    ∀ opId status, moment.after.db.statusOf opId = some status -> status.live = false ->
      x.1.db.statusOf opId = some status
  named : ∀ moment ∈ trace, ∀ response, Responds moment response ->
    response.agents.isSome = true -> response.opId.isSome = true
  begun : ∀ opId, trace.countP (Begins opId) ≤ 1 ∧
    (0 < trace.countP (Begins opId) -> x.1.db.Entered opId)
  /-- A ticket stands for the one response that is still to come. -/
  handed : ∀ opId,
    trace.countP (HandsOut opId) + (if (x.2.ticket opId).isSome then 1 else 0) ≤ 1 ∧
      (0 < trace.countP (HandsOut opId) -> x.1.db.Entered opId)

theorem lived_initial : Lived [] (.fresh .empty .active, .fresh) where
  passes := fun _ member => absurd member List.not_mem_nil
  ended := fun past _ _ split => absurd split (by simp)
  named := fun _ member => absurd member List.not_mem_nil
  begun := fun _ => by simp
  handed := fun _ => by simp [Ghost.fresh]

theorem not_entered_of_active
    {db : Db}
    (active : db.statusOf opId = some .active) : ¬ db.Entered opId := by
  rintro ⟨face, found, entered⟩
  rw [Db.statusOf_eq, found, Option.map_some, Option.some.injEq] at active
  rw [active] at entered
  cases entered

section Snoc

variable {trace : List Instant} {x x' : World} {label : Label interface PyError Task}

/-- An operation that becomes BUSY has not been BUSY before. -/
theorem Lived.begun_snoc
    (lived : Lived trace x)
    (passes : Passes (x.1.db.faceOf opId) (x'.1.db.faceOf opId)) :
    List.countP (Begins opId) (trace ++ [⟨x.1, label, x'.1⟩]) ≤ 1 ∧
      (0 < List.countP (Begins opId) (trace ++ [⟨x.1, label, x'.1⟩]) -> x'.1.db.Entered opId) := by
  obtain ⟨most, since⟩ := lived.begun opId
  rw [List.countP_append, List.countP_singleton]
  split
  · next begins =>
      have never : trace.countP (Begins opId) = 0 := by
        refine Nat.eq_zero_of_not_pos fun positive => ?_
        obtain ⟨face, found, entered⟩ := since positive
        rw [active_of_begins passes begins found] at entered
        cases entered
      exact ⟨by omega, fun _ => entered_of_begins begins⟩
  · exact ⟨most, fun positive => (since positive).passes passes⟩

/-- A response with endpoints uses up the ticket, and a ticket is issued when
the operation becomes BUSY. -/
theorem Lived.handed_snoc
    (lived : Lived trace x)
    (sound : Sound x)
    (passes : Passes (x.1.db.faceOf opId) (x'.1.db.faceOf opId))
    (tickets : x.2.ticket opId = none -> x'.2.ticket opId ≠ none ->
      x.1.db.statusOf opId = some .active)
    (hands : HandsOut opId ⟨x.1, label, x'.1⟩ = true ->
      x.2.ticket opId ≠ none ∧ x'.2.ticket opId = none) :
    List.countP (HandsOut opId) (trace ++ [⟨x.1, label, x'.1⟩]) +
        (if (x'.2.ticket opId).isSome then 1 else 0) ≤ 1 ∧
      (0 < List.countP (HandsOut opId) (trace ++ [⟨x.1, label, x'.1⟩]) ->
        x'.1.db.Entered opId) := by
  obtain ⟨most, since⟩ := lived.handed opId
  rw [List.countP_append, List.countP_singleton]
  split
  · next now =>
      obtain ⟨held, spent⟩ := hands now
      rw [if_pos (Option.isSome_iff_ne_none.mpr held)] at most
      rw [spent]
      obtain ⟨tid, ticket⟩ := Option.ne_none_iff_exists'.mp held
      have entered : x.1.db.Entered opId := sound.ticketed opId tid ticket
      exact ⟨most, fun _ => entered.passes passes⟩
  · refine ⟨?_, fun positive => (since positive).passes passes⟩
    by_cases before : x.2.ticket opId = none
    · by_cases after : x'.2.ticket opId = none
      · rw [before] at most
        rw [after]
        exact most
      · have never : trace.countP (HandsOut opId) = 0 :=
          Nat.eq_zero_of_not_pos fun positive =>
            not_entered_of_active (tickets before after) (since positive)
        rw [never]
        split
        · exact Nat.le_refl 1
        · exact Nat.zero_le 1
    · rw [if_pos (Option.isSome_iff_ne_none.mpr before)] at most
      split
      · exact most
      · exact Nat.le_of_succ_le most

theorem Lived.ended_snoc
    (lived : Lived trace x)
    (passes : ∀ opId, Passes (x.1.db.faceOf opId) (x'.1.db.faceOf opId))
    {past future : List Instant}
    {moment : Instant}
    (split : trace ++ [⟨x.1, label, x'.1⟩] = past ++ moment :: future)
    {status : OpStatus}
    (found : moment.after.db.statusOf opId = some status)
    (ended : status.live = false) : x'.1.db.statusOf opId = some status := by
  rcases split_snoc split with ⟨_, rfl, _⟩ | ⟨future', before, _⟩
  · exact found
  · exact statusOf_of_ended (passes opId)
      (lived.ended past moment future' before opId status found ended) ended

variable (label x') in
/-- One more moment. -/
theorem Lived.snoc
    (lived : Lived trace x)
    (sound : Sound x)
    (passes : ∀ opId, Passes (x.1.db.faceOf opId) (x'.1.db.faceOf opId))
    (named : ∀ response, Responds ⟨x.1, label, x'.1⟩ response ->
      response.agents.isSome = true -> response.opId.isSome = true)
    (tickets : ∀ opId, x.2.ticket opId = none -> x'.2.ticket opId ≠ none ->
      x.1.db.statusOf opId = some .active)
    (hands : ∀ opId, HandsOut opId ⟨x.1, label, x'.1⟩ = true ->
      x.2.ticket opId ≠ none ∧ x'.2.ticket opId = none) :
    Lived (trace ++ [⟨x.1, label, x'.1⟩]) x' where
  passes := by
    intro moment member opId
    rcases List.mem_append.mp member with old | last
    · exact lived.passes moment old opId
    · rw [List.mem_singleton.mp last]
      exact passes opId
  ended := fun _ _ _ split _ _ found ended => lived.ended_snoc passes split found ended
  named := by
    intro moment member response responds
    rcases List.mem_append.mp member with old | last
    · exact lived.named moment old response responds
    · rw [List.mem_singleton.mp last] at responds
      exact named response responds
  begun := fun opId => lived.begun_snoc (passes opId)
  handed := fun opId => lived.handed_snoc sound (passes opId) (tickets opId) (hands opId)

end Snoc

theorem responds_of_handsOut
    {moment : Instant}
    (hands : HandsOut opId moment = true) :
    ∃ response, Responds moment response ∧ response.opId = some opId ∧
      response.agents.isSome = true := by
  unfold HandsOut at hands
  split at hands
  · next tid response reply label =>
      rw [Bool.and_eq_true, beq_iff_eq] at hands
      exact ⟨response, ⟨tid, reply, label⟩, hands⟩
  · cases hands

/-- Endpoints are handed out by the thread that has the ticket. -/
theorem ticket_of_responds
    {event : Event interface PyError}
    {x x' : World}
    (within : Within event x x')
    (responds : Responds ⟨x.1, .did event, x'.1⟩ response)
    (full : response.agents.isSome = true) :
    ∃ opId, response.opId = some opId ∧ x.2.ticket opId ≠ none ∧
      x'.2.ticket opId = none := by
  obtain ⟨tid, reply, label⟩ := responds
  cases label
  obtain ⟨endpoints, handed⟩ := Option.isSome_iff_exists.mp full
  obtain ⟨opId, named, held, spent⟩ := within.marks.duty endpoints handed
  exact ⟨opId, named, Option.ne_none_iff_exists'.mpr ⟨tid, held⟩, spent⟩

theorem lived_of_run
    {trace : List Instant}
    {c : Config interface PyError State}
    (run : Run (manager cfg) (initial cfg) trace c) :
    ∃ ghost, (serverContract cfg).Good c ghost ∧ Lived trace (c.state, ghost) := by
  refine server_keeps lived_initial ?_ ?_ ?_ run
  · intro trace event x x' sound within lived
    refine lived.snoc x' (.did event) sound within.tables.onward ?_
      (fun opId none some => (within.marks.tickets opId none some).1) ?_
    · intro response responds full
      obtain ⟨opId, named, _⟩ := ticket_of_responds within responds full
      rw [named]
      rfl
    · intro opId hands
      obtain ⟨response, responds, named, full⟩ := responds_of_handsOut hands
      obtain ⟨opId', named', held, spent⟩ := ticket_of_responds within responds full
      rw [named] at named'
      cases named'
      exact ⟨held, spent⟩
  · intro trace task x sound lived
    refine lived.snoc x (.arrived task) sound (fun _ => .refl _) ?_
      (fun _ none some => absurd none some)
      fun _ hands => Bool.noConfusion (show false = true from hands)
    rintro response ⟨tid, reply, label⟩
    cases label
  · intro trace x sound lived
    refine lived.snoc (.fresh x.1.db x.1.taskStatus, .fresh) .restarted sound
      (fun _ => .refl _) ?_ (fun _ _ issued => (issued rfl).elim)
      fun _ hands => Bool.noConfusion (show false = true from hands)
    rintro response ⟨tid, reply, label⟩
    cases label

/-- What a run up to the tables `last` says about the life of the operations. -/
structure Lives (trace : List Instant) (last : Db) : Prop where
  /-- A status stays or moves one step on. -/
  onward : ∀ moment ∈ trace, ∀ opId,
    Passes (moment.before.db.faceOf opId) (moment.after.db.faceOf opId)
  /-- DONE, FAILED and REMOVED are never left. -/
  stays : ∀ past moment future, trace = past ++ moment :: future ->
    ∀ opId status, moment.after.db.statusOf opId = some status -> status.live = false ->
      last.statusOf opId = some status
  unique : ∀ opId opId' face face', last.faceOf opId = some face ->
    last.faceOf opId' = some face' -> face.status.live = true -> face'.status.live = true ->
    face.userId = face'.userId -> face.protType = face'.protType -> opId = opId'
  begins : ∀ opId, trace.countP (Begins opId) ≤ 1
  handsOut : ∀ opId, trace.countP (HandsOut opId) ≤ 1
  /-- A response with endpoints says whose they are. -/
  named : ∀ moment ∈ trace, ∀ response, Responds moment response ->
    response.agents.isSome = true -> response.opId.isSome = true

/-- In every run the status of an operation only moves on, from RESERVED over
QUEUED and ACTIVE to BUSY and DONE, from QUEUED to REMOVED or from any of these
to FAILED.  Of a user and a service at most one operation is live.  An operation
becomes BUSY at most once, and at most one response carries its endpoints,
whichever process gives it. -/
theorem lifecycle
    {trace : List Instant}
    {c : Config interface PyError State}
    (cfg : Settings)
    (run : Run (manager cfg) (initial cfg) trace c) : Lives trace c.state.db := by
  obtain ⟨ghost, good, lived⟩ := lived_of_run run
  have sound : Sound (c.state, ghost) := good.inv
  exact {
    onward := lived.passes
    stays := lived.ended
    unique := sound.regular.unique
    begins := fun opId => (lived.begun opId).1
    handsOut := fun opId => (Nat.le_add_right _ _).trans (lived.handed opId).1
    named := lived.named }

theorem lifecycle_two : Lives sampleDriven.1 sampleDriven.2.state.db :=
  lifecycle sampleSettings (.driven _)

/-! ## The path of a status -/

/-- The moves of a status; without one there is no operation yet. -/
inductive Moves : Option OpStatus -> Option OpStatus -> Prop
  | created : Moves none (some .reserved)
  | on {status status' : OpStatus} (next : status.next status' = true) :
      Moves (some status) (some status')

/-- The status of an operation at the start of a run and behind every moment. -/
def statuses (opId : Nat) (trace : List Instant) : List (Option OpStatus) :=
  none :: trace.map fun moment => moment.after.db.statusOf opId

/-- What an operation goes through in a run: its statuses without the moments in
which it stays. -/
def statusPath (opId : Nat) (trace : List Instant) : List (Option OpStatus) :=
  (statuses opId trace).destutter (· ≠ ·)

/-- Where an element stays or is related to the next one, the list without
repetitions is a chain with the same ends. -/
theorem isChain_destutter'_ne
    {α : Type}
    [DecidableEq α]
    {r : α -> α -> Prop}
    {a : α}
    {rest : List α}
    (chain : (a :: rest).IsChain fun x y => y = x ∨ r x y) :
    (rest.destutter' (· ≠ ·) a).IsChain r ∧ (rest.destutter' (· ≠ ·) a).head? = some a ∧
      (rest.destutter' (· ≠ ·) a).getLast? = (a :: rest).getLast? := by
  induction rest generalizing a with
  | nil => simp
  | cons b rest inductionHypothesis =>
      rw [List.isChain_cons_cons] at chain
      obtain ⟨first, chain⟩ := chain
      obtain ⟨isChain, head, last⟩ := inductionHypothesis chain
      rw [List.getLast?_cons_cons]
      by_cases same : a = b
      · rw [List.destutter'_cons_neg _ (not_not_intro same)]
        subst same
        exact ⟨isChain, head, last⟩
      · rw [List.destutter'_cons_pos _ same]
        obtain ⟨tail, isTail⟩ := List.head?_eq_some_iff.mp head
        rw [isTail] at isChain last ⊢
        rw [List.getLast?_cons_cons]
        exact ⟨List.isChain_cons_cons.mpr ⟨first.resolve_left (Ne.symm same), isChain⟩, rfl,
          last⟩

/-- How far a status has come. -/
def stage : Option OpStatus -> Nat
  | none => 0
  | some .reserved => 1
  | some .queued => 2
  | some .active => 3
  | some .busy => 4
  | some .done | some .failed | some .removed => 5

theorem Moves.stage_lt
    {status status' : Option OpStatus}
    (moves : Moves status status') : stage status < stage status' := by
  cases moves with
  | created => decide
  | @on status status' next =>
      revert next
      cases status <;> cases status' <;> decide

theorem moves_of_passes
    {db db' : Db}
    (passes : Passes (db.faceOf opId) (db'.faceOf opId)) :
    db'.statusOf opId = db.statusOf opId ∨ Moves (db.statusOf opId) (db'.statusOf opId) := by
  rw [Db.statusOf_eq, Db.statusOf_eq]
  generalize db.faceOf opId = face at passes
  generalize db'.faceOf opId = face' at passes
  cases passes with
  | born userId protType => exact .inr .created
  | absent => exact .inl rfl
  | onward step => exact step.imp (congrArg some) .on

/-- The statuses of a run end with the present one, and each step is a move or
none. -/
structure Traced (opId : Nat) (trace : List Instant) (s : State) : Prop where
  chain : (statuses opId trace).IsChain fun status status' =>
    status' = status ∨ Moves status status'
  last : (statuses opId trace).getLast? = some (s.db.statusOf opId)

theorem Traced.snoc
    {trace : List Instant}
    (moment : Instant)
    (traced : Traced opId trace moment.before)
    (passes : Passes (moment.before.db.faceOf opId) (moment.after.db.faceOf opId)) :
    Traced opId (trace ++ [moment]) moment.after := by
  have whole : statuses opId (trace ++ [moment]) =
      statuses opId trace ++ [moment.after.db.statusOf opId] := by
    simp [statuses]
  constructor
  · rw [whole, List.isChain_append]
    refine ⟨traced.chain, List.isChain_singleton _, fun status isLast status' isNext => ?_⟩
    rw [traced.last, Option.mem_def, Option.some.injEq] at isLast
    rw [List.head?_cons, Option.mem_def, Option.some.injEq] at isNext
    rw [← isLast, ← isNext]
    exact moves_of_passes passes
  · rw [whole, List.getLast?_concat]

theorem traced_of_run
    {trace : List Instant}
    {c : Config interface PyError State}
    (run : Run (manager cfg) (initial cfg) trace c) (opId : Nat) :
    Traced opId trace c.state := by
  obtain ⟨_, _, traced⟩ := server_keeps (φ := fun trace x => Traced opId trace x.1)
    ⟨List.isChain_singleton _, rfl⟩
    (fun trace event x x' _ within traced =>
      .snoc ⟨x.1, .did event, x'.1⟩ traced (within.tables.onward opId))
    (fun trace task x _ traced => .snoc ⟨x.1, .arrived task, x.1⟩ traced (.refl _))
    (fun trace x _ traced =>
      .snoc ⟨x.1, .restarted, .fresh x.1.db x.1.taskStatus⟩ traced (.refl _))
    run
  exact traced

theorem Traced.path
    {trace : List Instant}
    {s : State}
    (traced : Traced opId trace s) :
    (statusPath opId trace).IsChain Moves ∧ (statusPath opId trace).Nodup ∧
      (statusPath opId trace).getLast? = some (s.db.statusOf opId) := by
  obtain ⟨isChain, _, last⟩ := isChain_destutter'_ne traced.chain
  refine ⟨isChain, ?_, last.trans traced.last⟩
  have rises : (statusPath opId trace).IsChain fun status status' =>
      stage status < stage status' := isChain.imp fun _ _ moves => moves.stage_lt
  have : Trans (fun status status' => stage status < stage status')
      (fun status status' => stage status < stage status')
      fun status status' => stage status < stage status' := ⟨Nat.lt_trans⟩
  refine (List.isChain_iff_pairwise.mp rises).imp fun less same => ?_
  rw [same] at less
  exact Nat.lt_irrefl _ less

/-- Of a user and a service at most one operation is live. -/
def Db.OneLive (db : Db) : Prop :=
  ∀ opId opId' face face', db.faceOf opId = some face -> db.faceOf opId' = some face' ->
    face.status.live = true -> face'.status.live = true ->
    face.userId = face'.userId -> face.protType = face'.protType -> opId = opId'

/-- Over a whole run every operation goes along one path: it is created RESERVED,
each of its moves is one of the table, and it enters no status twice.  A status
that is not live is the last one.  Of a user and a service at most one operation
is live, and at most one response carries the endpoints of an operation. -/
theorem operations_move_on
    {trace : List Instant}
    {c : Config interface PyError State}
    (cfg : Settings)
    (run : Run (manager cfg) (initial cfg) trace c) :
    (∀ opId, (statusPath opId trace).IsChain Moves ∧ (statusPath opId trace).Nodup ∧
        (statusPath opId trace).getLast? = some (c.state.db.statusOf opId)) ∧
      (∀ opId status, some status ∈ statusPath opId trace -> status.live = false ->
        c.state.db.statusOf opId = some status) ∧
      c.state.db.OneLive ∧
      (∀ opId, trace.countP (HandsOut opId) ≤ 1) ∧
      ∀ moment ∈ trace, ∀ response, Responds moment response ->
        response.agents.isSome = true -> response.opId.isSome = true := by
  obtain ⟨ghost, good, lived⟩ := lived_of_run run
  have sound : Sound (c.state, ghost) := good.inv
  refine ⟨fun opId => (traced_of_run run opId).path, fun opId status member ended => ?_,
    sound.regular.unique, fun opId => (Nat.le_add_right _ _).trans (lived.handed opId).1,
    lived.named⟩
  have seen : some status ∈ statuses opId trace :=
    (List.destutter_sublist (· ≠ ·) (statuses opId trace)).subset member
  obtain ⟨moment, there, after⟩ := List.mem_map.mp
    ((List.mem_cons.mp seen).resolve_left (Option.some_ne_none status))
  obtain ⟨past, future, split⟩ := List.append_of_mem there
  exact lived.ended past moment future split opId status after ended

theorem operations_move_on_two :
    statusPath 2 sampleDriven.1 = [none, some .reserved, some .queued, some .active] ∧
      (statusPath 2 sampleDriven.1).IsChain Moves :=
  ⟨by decide +kernel, ((operations_move_on sampleSettings (.driven _)).1 2).1⟩

end Manager
end Mpmt
