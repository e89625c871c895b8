import Mpmt.Manager.SingleFlight

/-!
# When the Manager stops working

A cracked task dispatches nothing more.  Whether an operation is live behind the
crack depends on the requests that had read the flag before it was set: one of
them may still create an operation.  An Agent that could not be reached keeps a
started process from working until the process is started again.
-/

namespace Mpmt
namespace Manager

open Effects Threads Contract

/-! ## New operations -/

/-- Every method but one leaves the operations what they are. -/
theorem Db.recast_of_apply
    {db db' : Db}
    {dbCall : DbCall}
    {reply : dbCall.Reply}
    (applied : dbCall.apply now db = .ok (reply, db'))
    (other : ∀ userId protType, dbCall ≠ .createReservedOperation userId protType) :
    ∃ change, db.Recast db' change := by
  cases dbCall with
  | createReservedOperation userId protType => exact absurd rfl (other userId protType)
  | ensureUser userId role =>
      cases applied
      refine ⟨_, recast_of_same ?_⟩
      unfold ensureUser
      split
      · rfl
      · rfl
  | getUser | getOperation | getLiveOperation | getAgentToken | firstQueued | getActive
  | queuePositionOf =>
      cases applied
      exact ⟨_, recast_of_same rfl⟩
  | enqueueReserved opId =>
      have after : (db.enqueueReserved opId now).2 = db' :=
        congrArg Prod.snd (Except.ok.inj applied)
      rw [← after]
      exact ⟨_, recast_enqueueReserved _ _ _⟩
  | updateOperation opId status columns =>
      cases applied
      exact ⟨_, recast_updateOperation rfl⟩
  | failOperation opId errorCode =>
      cases applied
      exact ⟨_, recast_updateOperation rfl⟩
  | completeJoin opId userId tokens =>
      rw [DbCall.apply] at applied
      cases completed : db.completeJoin opId userId tokens now with
      | error error =>
          rw [completed] at applied
          cases applied
      | ok after =>
          rw [completed] at applied
          cases applied
          exact ⟨_, (completeJoin_eq_ok completed).1⟩
  | completeQuit opId userId =>
      cases applied
      exact ⟨_, recast_updateOperation rfl⟩
  | failAllLiveOperations errorCode =>
      cases applied
      exact ⟨_, recast_failAllLiveOperations _ _ _⟩
  | reconcileOnStartup =>
      cases applied
      exact ⟨_, recast_reconcileOnStartup _ _⟩
  | touchOperation opId =>
      cases applied
      exact ⟨_, recast_touchOperation _ _ _⟩
  | reorderQueue =>
      cases applied
      exact ⟨_, recast_reorderQueue _⟩
  | promoteFirstQueued =>
      have after : (db.promoteFirstQueued now).2 = db' :=
        congrArg Prod.snd (Except.ok.inj applied)
      rw [← after]
      cases first : db.firstQueued with
      | none =>
          refine ⟨_, recast_of_same ?_⟩
          rw [promoteFirstQueued, first]
      | some row => exact ⟨_, recast_promoteFirstQueued first now⟩

/-- A key that was not used is used by a creation. -/
theorem born_of_performed
    {event : Event interface PyError}
    {choice : Choice}
    {done : Done interface PyError State Task event.cmd}
    {s : State}
    (performed : perform event.tid next choice event.cmd s = some done)
    (replied : done.reply = event.reply)
    (absent : s.db.faceOf opId = none)
    (born : done.state.db.faceOf opId = some face) :
    ∃ userId protType reply,
      event = ⟨event.tid, .db (.createReservedOperation userId protType), .ok reply⟩ := by
  obtain ⟨tid, cmd, reply⟩ := event
  rcases db_of_perform performed with same | ⟨dbCall, now, reply', rfl, applied⟩
  · rw [same, absent] at born
    cases born
  · by_cases creates : ∃ userId protType, dbCall = .createReservedOperation userId protType
    · obtain ⟨userId, protType, rfl⟩ := creates
      obtain ⟨_, ⟨error, _, same⟩ | ⟨_, made, _, _, made', _⟩⟩ := done_of_performDb performed
      · rw [same, absent] at born
        cases born
      · have made'' : reply = .ok made := replied.symm.trans made'
        exact ⟨userId, protType, made, by rw [made'']⟩
    · obtain ⟨change, recast⟩ := Db.recast_of_apply applied
        fun userId protType same => creates ⟨userId, protType, same⟩
      rw [recast, absent] at born
      cases born

/-! ## A cracked task -/

/-- The call of `fail_all_live_operations` in `_crack_task` has succeeded.
`_crack_task` also goes on to its end when the call raises. -/
def Cracks (moment : Instant) : Bool :=
  match moment.label with
  | .did ⟨_, .db (.failAllLiveOperations _), .ok _⟩ => true
  | _ => false

/-- The thread creates an operation. -/
def Admits (tid : Nat) (moment : Instant) : Bool :=
  match moment.label with
  | .did ⟨tid', .db (.createReservedOperation _ _), .ok _⟩ => tid' == tid
  | _ => false

theorem did_of_cracks
    {moment : Instant}
    (cracks : Cracks moment = true) :
    ∃ tid errorCode, moment.label = .did ⟨tid, .db (.failAllLiveOperations errorCode), .ok ()⟩ := by
  unfold Cracks at cracks
  split at cracks
  · next tid errorCode _ label => exact ⟨tid, errorCode, label⟩
  · cases cracks

theorem did_of_admits
    {moment : Instant}
    (admits : Admits tid moment = true) :
    ∃ userId protType opId, moment.label =
      .did ⟨tid, .db (.createReservedOperation userId protType), .ok opId⟩ := by
  unfold Admits at admits
  split at admits
  · next tid' userId protType opId label =>
      rw [beq_iff_eq] at admits
      exact ⟨userId, protType, opId, admits ▸ label⟩
  · cases admits

/-- The process has not been started again. -/
def SameProcess (since : List Instant) : Prop :=
  ∀ later ∈ since, later.label.restarts = false

/-- The thread has read in this process that the task is not cracked. -/
def Cleared (trace : List Instant) (tid : Nat) : Prop :=
  ∃ past moment since event, trace = past ++ moment :: since ∧
    moment.label = .did event ∧ event.tid = tid ∧ SeesClear event ∧ SameProcess since

/-- No operation is live. -/
def Db.Rests (db : Db) : Prop :=
  ∀ opId face, db.faceOf opId = some face -> face.status.live = false

theorem Cleared.snoc
    {trace : List Instant}
    {moment : Instant}
    (cleared : Cleared trace tid)
    (same : moment.label.restarts = false) : Cleared (trace ++ [moment]) tid := by
  obtain ⟨past, first, since, event, split, label, mine, clear, stays⟩ := cleared
  refine ⟨past, first, since ++ [moment], event, ?_, label, mine, clear, ?_⟩
  · rw [split, List.append_assoc, List.cons_append]
  · intro later member
    rcases List.mem_append.mp member with old | last
    · exact stays later old
    · rw [List.mem_singleton.mp last]
      exact same

/-- Who has passed the check has read the flag. -/
theorem cleared_of_run
    {trace : List Instant}
    {c : Config interface PyError State}
    (run : Run (manager cfg) (initial cfg) trace c) :
    ∃ ghost, (serverContract cfg).Good c ghost ∧ ∀ tid ∈ ghost.passed, Cleared trace tid := by
  refine server_keeps (φ := fun trace x => ∀ tid ∈ x.2.passed, Cleared trace tid)
    (fun tid member => absurd member List.not_mem_nil) ?_ ?_ ?_ run
  · intro trace event x x' _ within before tid passed
    rcases within.marks.passes tid passed with old | ⟨mine, clear, _⟩
    · exact (before tid old).snoc rfl
    · exact ⟨trace, _, [], event, rfl, rfl, mine.symm, clear,
        fun later member => absurd member List.not_mem_nil⟩
  · intro trace task x _ before tid passed
    exact (before tid passed).snoc rfl
  · intro trace x _ _ tid passed
    exact absurd passed List.not_mem_nil

/-- What holds behind the crack, as long as the process lasts. -/
structure Halted (early : List Nat) (since : List Instant) (x : World) : Prop where
  cracked : x.1.taskCracked = true
  passed : ∀ tid ∈ x.2.passed, tid ∈ early
  dispatches : ∀ later ∈ since, ∀ event sync, later.label = .did event ->
    ¬ Dispatches sync event
  admits : ∀ later ∈ since, ∀ tid, Admits tid later = true -> tid ∈ early

theorem Halted.did
    {since : List Instant}
    {event : Event interface PyError}
    {x x' : World}
    (halted : Halted early since x)
    (within : Within event x x') :
    Halted early (since ++ [⟨x.1, .did event, x'.1⟩]) x' where
  cracked := within.memory.cracked halted.cracked
  passed := by
    intro tid member
    rcases within.marks.passes tid member with old | ⟨_, _, clear⟩
    · exact halted.passed tid old
    · rw [halted.cracked] at clear
      cases clear
  dispatches := by
    intro later member event' sync label dispatches
    rcases List.mem_append.mp member with old | last
    · exact halted.dispatches later old event' sync label dispatches
    · rw [List.mem_singleton.mp last] at label
      cases label
      have clear := clear_of_dispatches within dispatches
      rw [halted.cracked] at clear
      cases clear
  admits := by
    intro later member tid admits
    rcases List.mem_append.mp member with old | last
    · exact halted.admits later old tid admits
    · rw [List.mem_singleton.mp last] at admits
      obtain ⟨userId, protType, opId, label⟩ := did_of_admits admits
      cases label
      exact halted.passed tid within.marks.duty

/-- A step that gives no command. -/
theorem Halted.idle
    {since : List Instant}
    {moment : Instant}
    {x : World}
    (halted : Halted early since x)
    (idle : ∀ event, moment.label ≠ .did event) : Halted early (since ++ [moment]) x where
  cracked := halted.cracked
  passed := halted.passed
  dispatches := by
    intro later member event sync label
    rcases List.mem_append.mp member with old | last
    · exact halted.dispatches later old event sync label
    · rw [List.mem_singleton.mp last] at label
      exact absurd label (idle event)
  admits := by
    rintro later member tid admits
    rcases List.mem_append.mp member with old | last
    · exact halted.admits later old tid admits
    · rw [List.mem_singleton.mp last] at admits
      obtain ⟨userId, protType, opId, label⟩ := did_of_admits admits
      exact absurd label (idle _)

theorem halted_of_run
    {since : List Instant}
    {c c' : Config interface PyError State}
    (good : (serverContract cfg).Good c ghost)
    (cracked : c.state.taskCracked = true)
    (run : Run (manager cfg) c since c')
    (same : SameProcess since) : ∃ ghost', Halted ghost.passed since (c'.state, ghost') := by
  obtain ⟨ghost', _, halted⟩ := good.run_keeps
    (φ := fun since x => SameProcess since -> Halted ghost.passed since x)
    (server_verified cfg)
    (fun _ => ⟨cracked, fun _ member => member,
      fun _ member => absurd member List.not_mem_nil,
      fun _ member => absurd member List.not_mem_nil⟩)
    (fun since label x x' _ _ link before stays => by
      have halted := before fun later member =>
        stays later (List.mem_append_left _ member)
      cases label with
      | did event => exact halted.did link
      | arrived task =>
          have unchanged : x' = x := link
          rw [unchanged]
          exact halted.idle fun _ label => by cases label
      | restarted => cases stays _ (List.mem_append_right _ List.mem_cons_self))
    run
  exact ⟨ghost', halted same⟩

/-- As long as nobody creates an operation, none becomes live. -/
theorem rests_of_run
    {since : List Instant}
    {c c' : Config interface PyError State}
    (run : Run (manager cfg) c since c')
    (rests : c.state.db.Rests)
    (passes : ∀ later ∈ since, ∀ opId,
      Passes (later.before.db.faceOf opId) (later.after.db.faceOf opId))
    (nobody : ∀ later ∈ since, ∀ tid, ¬ Admits tid later = true) :
    c'.state.db.Rests ∧ ∀ later ∈ since, later.after.db.Rests := by
  induction run with
  | start => exact ⟨rests, fun _ member => absurd member List.not_mem_nil⟩
  | @step trace before label after run step inductionHypothesis =>
      obtain ⟨rested, all⟩ := inductionHypothesis
        (fun later member => passes later (List.mem_append_left _ member))
        (fun later member => nobody later (List.mem_append_left _ member))
      have last : after.state.db.Rests := by
        intro opId face found
        have passed := passes _ (List.mem_append_right _ List.mem_cons_self) opId
        have alone := nobody _ (List.mem_append_right _ List.mem_cons_self)
        dsimp only at passed
        cases known : before.state.db.faceOf opId with
        | none =>
            cases label with
            | did event =>
                obtain ⟨choice, next, done, performed, replied, same⟩ := step.changes
                have did : perform event.tid next choice event.cmd before.state = some done :=
                  performed
                rw [← same] at found
                obtain ⟨userId, protType, reply, creates⟩ :=
                  born_of_performed did replied known found
                rw [creates] at alone
                exact absurd (beq_self_eq_true event.tid) (alone event.tid)
            | arrived task =>
                have same : after.state = before.state := step.changes
                rw [same, known] at found
                cases found
            | restarted =>
                have same : after.state = .fresh before.state.db before.state.taskStatus :=
                  step.changes
                rw [same] at found
                exact absurd (found.symm.trans known) (Option.some_ne_none _)
        | some old =>
            rw [known, found] at passed
            cases passed with
            | @onward _ status step =>
                rw [Bool.eq_false_iff]
                intro live
                exact Bool.false_ne_true
                  ((rested opId old known).symm.trans (step.live live))
      refine ⟨last, fun later member => ?_⟩
      rcases List.mem_append.mp member with old | new
      · exact all later old
      · rw [List.mem_singleton.mp new]
        exact last

theorem rests_of_failAll
    {c c' : Config interface PyError State}
    (step : Step (manager cfg) c
      (.did ⟨tid, .db (.failAllLiveOperations errorCode), .ok ()⟩) c') : c'.state.db.Rests := by
  obtain ⟨choice, next, done, performed, replied, same⟩ := step.changes
  obtain ⟨_, ⟨error, failed, _⟩ | ⟨now, _, after, applied, _, changed⟩⟩ :=
    done_of_performDb performed
  · rw [failed] at replied
    cases replied
  · cases applied
    intro opId face found
    rw [← same, changed, Db.recast_failAllLiveOperations, Option.map_eq_some_iff] at found
    obtain ⟨old, _, rfl⟩ := found
    show OpStatus.live (if old.status.live then .failed else old.status) = false
    cases old.status <;> rfl

/-- A new operation is live. -/
theorem not_rests_of_creates
    {c c' : Config interface PyError State}
    (step : Step (manager cfg) c
      (.did ⟨tid, .db (.createReservedOperation userId protType), .ok opId⟩) c') :
    ¬ c'.state.db.Rests := by
  obtain ⟨choice, next, done, performed, replied, same⟩ := step.changes
  obtain ⟨_, ⟨error, failed, _⟩ | ⟨now, made, after, applied, _, changed⟩⟩ :=
    done_of_performDb performed
  · rw [failed] at replied
    cases replied
  · obtain ⟨_, _, _, _, faces, _⟩ := Db.createReservedOperation_eq_ok applied
    intro rests
    have born : c'.state.db.faceOf made = some ⟨userId, protType, .reserved⟩ := by
      rw [← same, changed, faces, if_pos rfl]
    exact Bool.false_ne_true (rests made _ born).symm

theorem not_rests_of_admits
    {c c' : Config interface PyError State}
    {later : Instant}
    (step : Step (manager cfg) c label c')
    (same : later = ⟨c.state, label, c'.state⟩)
    (admits : Admits tid later = true) : ¬ later.after.db.Rests := by
  obtain ⟨userId, protType, opId, label'⟩ := did_of_admits admits
  rw [same] at label' ⊢
  cases label'
  exact not_rests_of_creates step

/-- In every run, behind a successful `fail_all_live_operations` of `_crack_task`
and in the same process, nothing is dispatched; and no operation is live exactly
when no thread that had read the flag before creates one. -/
theorem crack_halts
    {past since : List Instant}
    {moment : Instant}
    {c : Config interface PyError State}
    (cfg : Settings)
    (run : Run (manager cfg) (initial cfg) (past ++ moment :: since) c)
    (cracks : Cracks moment = true)
    (same : SameProcess since) :
    moment.after.db.Rests ∧
      (∀ later ∈ since, ∀ event sync, later.label = .did event -> ¬ Dispatches sync event) ∧
      ((∀ later ∈ since, later.after.db.Rests) ↔
        ∀ later ∈ since, ∀ tid, Admits tid later = true -> ¬ Cleared past tid) := by
  obtain ⟨_, _, lived⟩ := lived_of_run run
  have passes := lived.passes
  obtain ⟨c₁, label, c₂, before, step, rfl, rest⟩ := run.split
  obtain ⟨ghost, good, cleared⟩ := cleared_of_run before
  obtain ⟨ghost', good', link⟩ := good.step (server_verified cfg) step
  obtain ⟨tid, errorCode, given⟩ := did_of_cracks cracks
  cases given
  have within : Within ⟨tid, .db (.failAllLiveOperations errorCode), .ok ()⟩
      (c₁.state, ghost) (c₂.state, ghost') := link
  have cracked : c₂.state.taskCracked = true := within.memory.cracked within.marks.duty
  obtain ⟨ghost'', halted⟩ := halted_of_run good' cracked rest same
  have early : ∀ tid ∈ ghost'.passed, Cleared past tid := by
    intro other member
    rcases within.marks.passes other member with old | ⟨_, clear, _⟩
    · exact cleared other old
    · cases clear
  have rests : c₂.state.db.Rests := rests_of_failAll step
  refine ⟨rests, halted.dispatches, fun quiet later member tid admits _ => ?_, fun alone => ?_⟩
  · obtain ⟨since₁, since₂, rfl⟩ := List.append_of_mem member
    obtain ⟨_, _, _, _, step', same', _⟩ := rest.split
    exact not_rests_of_admits step' same' admits (quiet later member)
  · refine (rests_of_run rest rests (fun later member => passes later
      (List.mem_append_right _ (List.mem_cons_of_mem _ member))) ?_).2
    exact fun later member tid admits =>
      alone later member tid admits (early tid (halted.admits later member tid admits))

/-- A SYNC is queued.  A request passes both checks and waits.  The SYNC is
started, the first Agent is gone, and the task is cracked. -/
def sampleCracking : List (Act Task Choice) :=
  sampleStart ++ turns 4 (.line "ms sync" :: List.replicate 12 .go) ++
    .arrive (.handle (.reserveJoin (some "a")) 3) :: turns 6 [.go, .go] ++
    turns 3 (List.replicate 5 .go ++ .clock 0 :: List.replicate 9 .go) ++
    turns 7 (List.replicate 7 .go ++ [.fail .connection, .go, .go, .go, .go, .clock 0])

/-- Behind the crack the request goes on. -/
def sampleLate : List Instant × Config interface PyError State :=
  (drive (manager sampleSettings) (initial sampleSettings)
    (sampleCracking ++ turns 6 [.go, .clock 0, .clock 0, .go, .go])).get (by decide +kernel)

/-- The run cracks the task, and the request creates an operation behind it. -/
theorem cracked_sampleLate :
    ∃ past moment since, sampleLate.1 = past ++ moment :: since ∧ Cracks moment = true ∧
      SameProcess since ∧ ∃ later ∈ since, Admits 6 later = true ∧
        later.after.db.statusOf 1 = some .reserved := by
  have cracks : (sampleLate.1.drop (sampleCracking.length - 1)).head?.any Cracks = true := by
    decide +kernel
  have stays : ∀ later ∈ (sampleLate.1.drop (sampleCracking.length - 1)).tail,
      later.label.restarts = false := by
    decide +kernel
  have late : (sampleLate.1.drop (sampleCracking.length - 1)).tail.any (fun later =>
      Admits 6 later && later.after.db.statusOf 1 == some .reserved) = true := by
    decide +kernel
  have whole := List.take_append_drop (sampleCracking.length - 1) sampleLate.1
  generalize sampleLate.1.drop (sampleCracking.length - 1) = rest at *
  cases rest with
  | nil => cases cracks
  | cons moment since =>
      obtain ⟨later, member, both⟩ := List.any_eq_true.mp late
      rw [Bool.and_eq_true, beq_iff_eq] at both
      exact ⟨_, moment, since, whole.symm, cracks, stays, later, member, both⟩

/-- The request creates an operation in the cracked task. -/
theorem crack_halts_late :
    ∃ past moment since, sampleLate.1 = past ++ moment :: since ∧
      (moment.after.db.Rests ∧
        (∀ later ∈ since, ∀ event sync, later.label = .did event -> ¬ Dispatches sync event) ∧
        ((∀ later ∈ since, later.after.db.Rests) ↔
          ∀ later ∈ since, ∀ tid, Admits tid later = true -> ¬ Cleared past tid)) ∧
      ∃ later ∈ since, Admits 6 later = true := by
  have run : Run (manager sampleSettings) (initial sampleSettings) sampleLate.1 sampleLate.2 :=
    .driven _
  obtain ⟨past, moment, since, split, cracks, stays, later, member, admits, _⟩ :=
    cracked_sampleLate
  exact ⟨past, moment, since, split, crack_halts sampleSettings (split ▸ run) cracks stays,
    later, member, admits⟩

/-- Behind the crack an operation is live again. -/
theorem not_rests_late :
    ∃ past moment since, Run (manager sampleSettings) (initial sampleSettings)
        (past ++ moment :: since) sampleLate.2 ∧
      Cracks moment = true ∧ SameProcess since ∧ ¬ ∀ later ∈ since, later.after.db.Rests := by
  have run : Run (manager sampleSettings) (initial sampleSettings) sampleLate.1 sampleLate.2 :=
    .driven _
  obtain ⟨past, moment, since, split, cracks, stays, later, member, _, reserved⟩ :=
    cracked_sampleLate
  refine ⟨past, moment, since, split ▸ run, cracks, stays, fun rests => ?_⟩
  rw [Db.statusOf_eq, Option.map_eq_some_iff] at reserved
  obtain ⟨face, found, isReserved⟩ := reserved
  have ended := rests later member 1 face found
  rw [isReserved] at ended
  cases ended

/-! ## An Agent that could not be reached -/

/-- In a started process the Agents are never available again. -/
theorem unavailable_of_run
    {since : List Instant}
    {c c' : Config interface PyError State}
    (good : (serverContract cfg).Good c ghost)
    (started : c.state.started = true)
    (outage : c.state.agentsAvailable = false)
    (run : Run (manager cfg) c since c')
    (same : SameProcess since) :
    c'.state.started = true ∧ c'.state.agentsAvailable = false := by
  obtain ⟨_, _, stays⟩ := good.run_keeps
    (φ := fun since x => SameProcess since ->
      x.1.started = true ∧ x.1.agentsAvailable = false)
    (server_verified cfg) (fun _ => ⟨started, outage⟩)
    (fun since label x x' _ _ link before stays => by
      obtain ⟨started, outage⟩ := before fun later member =>
        stays later (List.mem_append_left _ member)
      cases label with
      | did event =>
          have within : Within event x x' := link
          exact ⟨within.memory.started started, within.memory.outage started outage⟩
      | arrived task =>
          have unchanged : x' = x := link
          rw [unchanged]
          exact ⟨started, outage⟩
      | restarted => cases stays _ (List.mem_append_right _ List.mem_cons_self))
    run
  exact stays same

/-- From no reachable state of a started process in which the flag is down does
any sequence of steps of the same process set it again, whatever the Agents do:
requests, commands, rounds of the scheduler and protocols alike. -/
theorem outage_lasts
    {past since : List Instant}
    {c c' : Config interface PyError State}
    (cfg : Settings)
    (before : Run (manager cfg) (initial cfg) past c)
    (started : c.state.started = true)
    (run : Run (manager cfg) c since c')
    (same : SameProcess since) :
    c'.state.agentsAvailable = true -> c.state.agentsAvailable = true := by
  intro available
  obtain ⟨ghost, good, _⟩ := cleared_of_run before
  by_contra outage
  obtain ⟨_, still⟩ := unavailable_of_run good started (Bool.eq_false_iff.mpr outage) run same
  rw [available] at still
  cases still

/-- `ms start` finds the first Agent down. -/
def sampleOutage : List Instant × Config interface PyError State :=
  (drive (manager sampleSettings) (initial sampleSettings)
    (turns 0 [.go, .clock 0, .clock 0, .clock 0, .clock 0, .go] ++
      turns 1 [.line "ms start", .go, .fail .connection, .go, .go, .go, .go, .go, .go, .go] ++
      turns 2 [.go])).get (by decide +kernel)

/-- The scheduler takes a round. -/
def sampleRound : List Instant × Config interface PyError State :=
  (drive (manager sampleSettings) sampleOutage.2 (turns 3 [.go, .go, .go, .go])).get
    (by decide +kernel)

theorem outage_lasts_round : sampleRound.2.state.agentsAvailable = false := by
  have down : sampleOutage.2.state.agentsAvailable = false := by decide +kernel
  rw [Bool.eq_false_iff] at down ⊢
  exact fun available => down (outage_lasts sampleSettings (.driven _) (by decide +kernel)
    (.driven _) (show SameProcess sampleRound.1 by unfold SameProcess; decide +kernel) available)

/-- Every Agent accepts the connections that the Manager makes. -/
def Accepting (since : List Instant) : Prop :=
  ∀ later ∈ since, ∀ tid role error, later.label ≠ .did ⟨tid, .reconnect role, .error error⟩

/-- When the Agents accept connections from now on, steps of this process lead to a
state in which the flag is set. -/
def Recoverable (cfg : Settings) (c : Config interface PyError State) : Prop :=
  ∃ since c', Run (manager cfg) c since c' ∧ SameProcess since ∧ Accepting since ∧
    c'.state.agentsAvailable = true

theorem not_recoverable
    {past : List Instant}
    {c : Config interface PyError State}
    (before : Run (manager cfg) (initial cfg) past c)
    (started : c.state.started = true)
    (outage : c.state.agentsAvailable = false) : ¬ Recoverable cfg c := by
  intro ⟨since, c', run, same, _, available⟩
  obtain ⟨ghost, good, _⟩ := cleared_of_run before
  obtain ⟨_, still⟩ := unavailable_of_run good started outage run same
  exact Bool.false_ne_true (still.symm.trans available)

/-- From a reachable state of a started process the flag can be set again exactly
when it is still set. -/
theorem recoverable_iff
    {past : List Instant}
    {c : Config interface PyError State}
    (cfg : Settings)
    (before : Run (manager cfg) (initial cfg) past c)
    (started : c.state.started = true) :
    Recoverable cfg c ↔ c.state.agentsAvailable = true := by
  refine ⟨fun recoverable => ?_, fun available => ?_⟩
  · by_contra outage
    exact not_recoverable before started (Bool.eq_false_iff.mpr outage) recoverable
  · exact ⟨[], c, .start, fun _ member => absurd member List.not_mem_nil,
      fun _ member => absurd member List.not_mem_nil, available⟩

theorem recoverable_iff_outage :
    Recoverable sampleSettings sampleOutage.2 ↔ sampleOutage.2.state.agentsAvailable = true :=
  recoverable_iff sampleSettings (.driven _) (by decide +kernel)

/-- Behind an `ms start` that has found an Agent down, there is no way back. -/
theorem not_recoverable_outage :
    Run (manager sampleSettings) (initial sampleSettings) sampleOutage.1 sampleOutage.2 ∧
      sampleOutage.2.state.started = true ∧ sampleOutage.2.state.taskCracked = false ∧
      ¬ Recoverable sampleSettings sampleOutage.2 :=
  have started : sampleOutage.2.state.started = true := by decide +kernel
  ⟨.driven _, started, by decide +kernel, not_recoverable (.driven _) started (by decide +kernel)⟩

end Manager
end Mpmt
