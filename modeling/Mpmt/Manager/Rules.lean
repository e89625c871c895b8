import Mpmt.Manager.Updates

/-!
# Rules for the Manager's programs

What a thread can count on while the others take their steps, and a rule for
each kind of command.
-/

namespace Mpmt
namespace Manager

open Effects Threads Contract

variable {cfg : Settings} {tid : Nat} {P Q : World -> Prop} {opId : Nat}

/-! ## Facts that stay -/

/-- Neither the steps of the other threads nor silent steps of its own take the
fact from the thread. -/
structure Steady (cfg : Settings) (tid : Nat) (P : World -> Prop) : Prop where
  stable : (serverContract cfg).Stable tid P
  blind : ∀ x s, Alike x s -> P x -> P (s, x.2)

theorem Steady.and
    (first : Steady cfg tid P)
    (second : Steady cfg tid Q) : Steady cfg tid fun x => P x ∧ Q x where
  stable := first.stable.and second.stable
  blind := fun x s alike holds =>
    ⟨first.blind x s alike holds.1, second.blind x s alike holds.2⟩

theorem Steady.or
    (first : Steady cfg tid P)
    (second : Steady cfg tid Q) : Steady cfg tid fun x => P x ∨ Q x where
  stable := first.stable.or second.stable
  blind := fun x s alike holds =>
    holds.imp (first.blind x s alike) (second.blind x s alike)

theorem Steady.const (p : Prop) : Steady cfg tid fun _ => p :=
  ⟨.const p, fun _ _ _ holds => holds⟩

theorem Steady.imp
    {p : Prop}
    (steady : p -> Steady cfg tid P) : Steady cfg tid fun x => p -> P x where
  stable := .imp fun is => (steady is).stable
  blind := fun x s alike holds is => (steady is).blind x s alike (holds is)

theorem Steady.all
    {R : I -> World -> Prop}
    (steady : ∀ index, Steady cfg tid (R index)) :
    Steady cfg tid fun x => ∀ index, R index x where
  stable := fun x x' event sound other within holds index =>
    (steady index).stable x x' event sound other within (holds index)
  blind := fun x s alike holds index => (steady index).blind x s alike (holds index)

variable (cfg tid) in
/-- The fact stays as long as `A` holds. -/
structure SteadyUnder (A P : World -> Prop) : Prop where
  stable : (serverContract cfg).StableUnder tid A P
  blind : ∀ x s, Alike x s -> P x -> P (s, x.2)

theorem Steady.under
    (steady : Steady cfg tid P)
    (kept : SteadyUnder cfg tid P Q) : Steady cfg tid fun x => P x ∧ Q x where
  stable := steady.stable.under kept.stable
  blind := fun x s alike holds =>
    ⟨steady.blind x s alike holds.1, kept.blind x s alike holds.2⟩

theorem SteadyUnder.and
    {A : World -> Prop}
    (first : SteadyUnder cfg tid A P)
    (second : SteadyUnder cfg tid A Q) : SteadyUnder cfg tid A fun x => P x ∧ Q x where
  stable := fun x x' event sound other within under holds =>
    ⟨first.stable x x' event sound other within under holds.1,
      second.stable x x' event sound other within under holds.2⟩
  blind := fun x s alike holds =>
    ⟨first.blind x s alike holds.1, second.blind x s alike holds.2⟩

theorem SteadyUnder.or
    {A : World -> Prop}
    (first : SteadyUnder cfg tid A P)
    (second : SteadyUnder cfg tid A Q) : SteadyUnder cfg tid A fun x => P x ∨ Q x where
  stable := fun x x' event sound other within under holds =>
    holds.imp (first.stable x x' event sound other within under)
      (second.stable x x' event sound other within under)
  blind := fun x s alike holds =>
    holds.imp (first.blind x s alike) (second.blind x s alike)

theorem SteadyUnder.weaken
    {A A' : World -> Prop}
    (kept : SteadyUnder cfg tid A P)
    (stronger : ∀ x, A' x -> A x) : SteadyUnder cfg tid A' P where
  stable := fun x x' event sound other within under =>
    kept.stable x x' event sound other within (stronger x under)
  blind := kept.blind

theorem SteadyUnder.imp
    {A : World -> Prop}
    {p : Prop}
    (kept : p -> SteadyUnder cfg tid A P) : SteadyUnder cfg tid A fun x => p -> P x where
  stable := fun x x' event sound other within under holds is =>
    (kept is).stable x x' event sound other within under (holds is)
  blind := fun x s alike holds is => (kept is).blind x s alike (holds is)

theorem SteadyUnder.all
    {A : World -> Prop}
    {R : I -> World -> Prop}
    (kept : ∀ index, SteadyUnder cfg tid A (R index)) :
    SteadyUnder cfg tid A fun x => ∀ index, R index x where
  stable := fun x x' event sound other within under holds index =>
    (kept index).stable x x' event sound other within under (holds index)
  blind := fun x s alike holds index => (kept index).blind x s alike (holds index)

/-- The server may have been started. -/
def Opened (x : World) : Prop := x.2.phase = .opened

theorem steady_opened : Steady cfg tid Opened :=
  ⟨fun _ _ _ _ _ within opened => within.marks.phase opened, fun _ _ _ opened => opened⟩

/-! ### The holder of the lock -/

def Holds (tid : Nat) (x : World) : Prop := x.1.lock = some tid

/-- It holds the lock and the task stands. -/
def Critical (tid : Nat) (x : World) : Prop :=
  x.1.lock = some tid ∧ x.1.taskCracked = false

theorem steady_holds : Steady cfg tid (Holds tid) :=
  ⟨fun _ _ _ _ other within held => (within.memory.lock tid other.symm held).1,
    fun _ _ alike held => alike.lock.trans held⟩

theorem steady_critical : Steady cfg tid (Critical tid) where
  stable := by
    rintro x x' event _ other within ⟨held, clear⟩
    obtain ⟨held', cracked, _⟩ := within.memory.lock tid other.symm held
    exact ⟨held', cracked.trans clear⟩
  blind := fun _ _ alike holds =>
    ⟨alike.lock.trans holds.1, alike.cracked.trans holds.2⟩

theorem critical_available :
    SteadyUnder cfg tid (Critical tid) fun x => x.1.agentsAvailable = true where
  stable := fun _ _ _ _ other within critical available =>
    (within.memory.lock tid other.symm critical.1).2.2.1.trans available
  blind := fun _ _ alike available => alike.available.trans available

theorem critical_sync :
    SteadyUnder cfg tid (Critical tid) fun x => x.1.activeSync = none where
  stable := fun _ _ _ _ other within critical none =>
    (within.memory.lock tid other.symm critical.1).2.2.2 none
  blind := by
    intro x s alike none
    have same := alike.sync
    rw [none] at same
    exact Option.isNone_iff_eq_none.mp (by simpa using same)

theorem critical_rests :
    SteadyUnder cfg tid (Critical tid) fun x => ∀ opId, ¬ x.1.db.Runs opId where
  stable := fun _ _ _ _ other within critical rests =>
    within.tables.rests tid other.symm critical.1 rests
  blind := by
    rintro x s alike rests opId ⟨face, found, runs⟩
    rw [alike.recast.faceOf_eq] at found
    exact rests opId ⟨face, found, runs⟩

theorem critical_active
    {userId : String}
    {protType : ProtType} :
    SteadyUnder cfg tid (Critical tid) fun x =>
      x.1.db.faceOf opId = some ⟨userId, protType, .active⟩ where
  stable := fun _ _ _ _ other within critical found =>
    within.tables.waits tid other.symm critical.1 critical.2 opId _ found (.inr rfl)
  blind := fun _ _ alike found => (alike.recast.faceOf_eq opId).trans found

theorem critical_queued
    {face : Face} :
    SteadyUnder cfg tid (Critical tid) fun x =>
      x.1.db.faceOf opId = some face ∧ face.status = .queued where
  stable := fun _ _ _ _ other within critical found =>
    ⟨within.tables.waits tid other.symm critical.1 critical.2 opId _ found.1 (.inl found.2),
      found.2⟩
  blind := fun _ _ alike found => ⟨(alike.recast.faceOf_eq opId).trans found.1, found.2⟩

/-! ### The carrier -/

def Carries (tid : Nat) (x : World) : Prop := x.2.owner = some tid

theorem steady_carries : Steady cfg tid (Carries tid) :=
  ⟨fun _ _ _ _ other within owner => (within.marks.owner tid other.symm owner).1,
    fun _ _ _ owner => owner⟩

theorem carries_clear :
    SteadyUnder cfg tid (Carries tid) fun x => x.1.taskCracked = false where
  stable := fun _ _ _ _ other within owner clear =>
    (within.memory.owner tid other.symm owner).2.trans clear
  blind := fun _ _ alike clear => alike.cracked.trans clear

theorem carries_sync :
    SteadyUnder cfg tid (Carries tid) fun x => x.1.activeSync.isSome = true where
  stable := fun _ _ _ _ other within owner sync =>
    (within.memory.owner tid other.symm owner).1.trans sync
  blind := fun _ _ alike sync => alike.sync.trans sync

theorem carries_unsent :
    SteadyUnder cfg tid (Carries tid) fun x => x.2.sent = false where
  stable := fun _ _ _ _ other within owner unsent =>
    (within.marks.owner tid other.symm owner).2.trans unsent
  blind := fun _ _ _ unsent => unsent

theorem carries_busy
    {userId : String}
    {protType : ProtType} :
    SteadyUnder cfg tid (Carries tid) fun x =>
      x.1.db.faceOf opId = some ⟨userId, protType, .busy⟩ where
  stable := fun _ _ _ _ other within owner found =>
    within.tables.busy tid other.symm owner opId _ found rfl
  blind := fun _ _ alike found => (alike.recast.faceOf_eq opId).trans found

theorem carries_token
    {userId : String}
    {role : Role} :
    SteadyUnder cfg tid (Carries tid) fun x => x.1.db.HasToken userId role where
  stable := fun _ _ _ _ other within owner token =>
    (Db.hasToken_congr (within.tables.tokens tid other.symm owner) userId role).mpr token
  blind := fun _ _ alike token => (Db.hasToken_congr alike.tokens userId role).mpr token

/-! ### A cracked task, the control panel and the rest -/

theorem steady_cracked : Steady cfg tid fun x => x.1.taskCracked = true :=
  ⟨fun _ _ _ _ _ within cracked => within.memory.cracked cracked,
    fun _ _ alike cracked => alike.cracked.trans cracked⟩

theorem cracked_calm :
    SteadyUnder cfg tid (fun x => x.1.taskCracked = true)
      fun x => ∀ opId, ¬ x.1.db.Busy opId where
  stable := fun _ _ _ _ _ within cracked calm => within.tables.calm cracked calm
  blind := by
    rintro x s alike calm opId ⟨face, found, busy⟩
    rw [alike.recast.faceOf_eq] at found
    exact calm opId ⟨face, found, busy⟩

theorem steady_panel : Steady cfg tid fun x => x.2.panel = tid where
  stable := fun _ _ _ _ other within panel =>
    (within.marks.panel fun same => other (same.symm.trans panel)).1.trans panel
  blind := fun _ _ _ panel => panel

theorem panel_started
    {started : Bool} :
    SteadyUnder cfg tid (fun x => x.2.panel = tid) fun x => x.1.started = started where
  stable := fun _ _ _ _ other within panel before =>
    (within.memory.panel fun same => other (same.symm.trans panel)).trans before
  blind := fun _ _ alike before => alike.started.trans before

theorem panel_phase
    {phase : Phase}
    (closed : phase ≠ .opened) :
    SteadyUnder cfg tid (fun x => x.2.panel = tid) fun x => x.2.phase = phase where
  stable := fun _ _ _ _ other within panel before =>
    ((within.marks.panel fun same => other (same.symm.trans panel)).2
      (before ▸ closed)).trans before
  blind := fun _ _ _ before => before

theorem steady_ticket : Steady cfg tid fun x => x.2.ticket opId = some tid :=
  ⟨fun _ _ _ _ other within ticket => within.marks.ticket tid other.symm opId ticket,
    fun _ _ _ ticket => ticket⟩

theorem steady_passed : Steady cfg tid fun x => tid ∈ x.2.passed :=
  ⟨fun _ _ _ _ _ within passed => within.marks.passed tid passed, fun _ _ _ passed => passed⟩

/-- The operation exists, and if it is live it fits its user. -/
def Admitted (opId : Nat) (x : World) : Prop :=
  ∃ face, x.1.db.faceOf opId = some face ∧ (face.status.live = true -> x.1.db.Fits face)

theorem steady_admitted : Steady cfg tid (Admitted opId) where
  stable := by
    rintro x x' event sound _ within ⟨face, found, fits⟩
    have moves := within.tables.onward opId
    rw [found] at moves
    generalize after : x'.1.db.faceOf opId = face' at moves
    cases moves with
    | onward step =>
        refine ⟨_, after, fun live => ?_⟩
        have before := step.live live
        have still : x'.1.db.Fits face :=
          .later sound.regular within.tables.membership found after before live (fits before)
        exact still
  blind := by
    rintro x s alike ⟨face, found, fits⟩
    exact ⟨face, (alike.recast.faceOf_eq opId).trans found, fun live =>
      (Db.fits_congr alike.joined).mpr (fits live)⟩

/-! ## Silent commands -/

/-- A command that changes nothing the contract speaks about. -/
def Cmd.Silent : Cmd -> Prop
  | .acquire .sync | .release .sync | .setSyncCounter _ | .setSyncQueue _
  | .writeTaskStatus _ => True
  | .db (.touchOperation _) | .db .reorderQueue | .db (.ensureUser _ _) => True
  | cmd => cmd.Quiet

theorem Cmd.Quiet.silent
    {cmd : Cmd}
    (quiet : cmd.Quiet) : cmd.Silent := by
  cases cmd with
  | db call => cases call <;> first | exact quiet | cases quiet
  | acquire | release | setSyncCounter | setSyncQueue | writeTaskStatus => cases quiet
  | _ => exact quiet

/-- A method that reads leaves the database as it is. -/
theorem DbCall.Reads.apply_eq
    {dbCall : DbCall}
    {reply : dbCall.Reply}
    {before after : Db}
    (reads : dbCall.Reads)
    (applied : dbCall.apply now before = .ok (reply, after)) : after = before := by
  cases dbCall with
  | getUser | getOperation | getLiveOperation | getAgentToken | firstQueued | getActive
  | queuePositionOf =>
      cases applied
      rfl
  | _ => cases reads

theorem alike_of_apply
    {x : World}
    {dbCall : DbCall}
    {reply : dbCall.Reply}
    {after : Db}
    (sound : Sound x)
    (silent : Cmd.Silent (.db dbCall))
    (applied : dbCall.apply now x.1.db = .ok (reply, after)) :
    Alike x { x.1 with db := after } := by
  cases dbCall with
  | touchOperation opId =>
      cases applied
      exact .tables sound (Db.recast_touchOperation _ _ _) rfl rfl rfl
  | reorderQueue =>
      cases applied
      exact .tables sound (Db.recast_reorderQueue _) rfl rfl rfl
  | ensureUser userId role =>
      cases applied
      have kept : (x.1.db.ensureUser userId role).operations = x.1.db.operations ∧
          (x.1.db.ensureUser userId role).tokens = x.1.db.tokens ∧
          (x.1.db.ensureUser userId role).lastOpId = x.1.db.lastOpId := by
        unfold Db.ensureUser
        split
        · exact ⟨rfl, rfl, rfl⟩
        · exact ⟨rfl, rfl, rfl⟩
      obtain ⟨operations, tokens, last⟩ := kept
      have joined := fun other => x.1.db.joined_ensureUser userId other role
      exact ⟨sound.regular.of_users operations tokens last joined,
        Db.recast_of_same operations, tokens, joined, rfl, rfl, rfl, rfl, rfl, rfl⟩
  | getUser | getOperation | getLiveOperation | getAgentToken | firstQueued | getActive
  | queuePositionOf =>
      cases applied
      exact .refl sound
  | _ => cases silent

theorem alike_of_perform
    {x : World}
    {cmd : Cmd}
    {done : Done interface PyError State Task cmd}
    (sound : Sound x)
    (silent : cmd.Silent)
    (performed : perform tid next choice cmd x.1 = some done) :
    done.started = none ∧ Alike x done.state := by
  cases cmd with
  | db dbCall =>
      obtain ⟨started, error | applied⟩ := done_of_performDb performed
      · obtain ⟨_, _, same⟩ := error
        rw [same]
        exact ⟨started, .refl sound⟩
      · obtain ⟨now, reply, db, applied, _, same⟩ := applied
        rw [same]
        exact ⟨started, alike_of_apply sound silent applied⟩
  | acquire lock =>
      cases lock with
      | main => cases silent
      | sync =>
          rw [perform] at performed
          split at performed
          · cases performed
            exact ⟨rfl, .memory sound rfl rfl rfl rfl rfl rfl rfl⟩
          · cases performed
  | release lock =>
      cases lock with
      | main => cases silent
      | sync =>
          cases performed
          exact ⟨rfl, .memory sound rfl rfl rfl rfl rfl rfl rfl⟩
  | setReqCounter | setSyncCounter | setSyncQueue =>
      cases performed
      exact ⟨rfl, .memory sound rfl rfl rfl rfl rfl rfl rfl⟩
  | writeTaskStatus =>
      cases choice <;> cases performed <;>
        exact ⟨rfl, .memory sound rfl rfl rfl rfl rfl rfl rfl⟩
  | reqCounter | taskCracked | agentsAvailable | started | syncCounter | syncQueue
  | activeSync | readTaskStatus =>
      cases performed
      exact ⟨rfl, .refl sound⟩
  | recv | reconnect | settimeout | expired | time =>
      cases choice <;> cases performed <;> exact ⟨rfl, .refl sound⟩
  | send role message =>
      cases choice with
      | go =>
          cases performed
          exact ⟨rfl, .refl sound⟩
      | fail error => cases error <;> cases performed <;> exact ⟨rfl, .refl sound⟩
      | _ => cases performed
  | mktime =>
      cases choice with
      | go =>
          cases performed
          exact ⟨rfl, .refl sound⟩
      | fail error =>
          cases error <;> cases performed
          exact ⟨rfl, .refl sound⟩
      | _ => cases performed
  | input =>
      cases choice with
      | line text =>
          cases performed
          exact ⟨rfl, .refl sound⟩
      | fail error =>
          cases error <;> cases performed
          exact ⟨rfl, .refl sound⟩
      | _ => cases performed
  | _ => cases silent

/-- Silent commands carry no duty. -/
theorem duty_of_silent
    {cmd : Cmd}
    (silent : cmd.Silent)
    (reply : Except PyError cmd.Reply)
    (x x' : World) : Duty ⟨tid, cmd, reply⟩ x x' := by
  cases cmd with
  | db dbCall =>
      cases dbCall <;> trivial
  | send role message =>
      cases message with
      | reserve => trivial
      | _ => cases silent
  | respond => cases silent
  | _ => trivial

/-- A program of silent commands keeps what is steady. -/
theorem triple_silent
    {prog : Proc Out}
    (steady : Steady cfg tid P)
    (silent : Only Cmd.Silent prog) :
    (serverContract cfg).Triple tid P prog (Post (fun _ => P) P) := by
  have kept : (serverContract cfg).Triple tid P prog fun _ => P :=
    .of_only steady.stable (fun cmd may x choice fresh done sound holds performed => by
      have did : perform tid fresh choice cmd x.1 = some done := performed
      obtain ⟨started, alike⟩ := alike_of_perform sound may did
      refine ⟨x.2, .alike sound alike (duty_of_silent may _ _ _), fun task some => ?_,
        steady.blind x _ alike holds⟩
      rw [started] at some
      cases some) silent
  exact kept.weaken (fun _ _ holds => holds) fun out _ _ holds => by
    cases out <;> exact holds

theorem triple_look
    (cmd : Cmd)
    (silent : cmd.Silent)
    (steady : Steady cfg tid P) :
    (serverContract cfg).Triple tid P (give cmd) (Post (fun _ => P) P) :=
  triple_silent steady (Only.call silent)

theorem triple_fetch
    (dbCall : DbCall)
    (silent : Cmd.Silent (.db dbCall))
    (steady : Steady cfg tid P) :
    (serverContract cfg).Triple tid P (db dbCall) (Post (fun _ => P) P) :=
  triple_silent steady (Only.call silent)

/-! ## One command -/

section Rules

variable {F : World -> Prop}

/-- A command whose step stays within the contract. -/
theorem triple_give
    {cmd : Cmd}
    {Q : cmd.Reply -> World -> Prop}
    (steady : Steady cfg tid P)
    (returns : ∀ reply, Steady cfg tid (Q reply))
    (raises : Steady cfg tid F)
    (step : ∀ x choice fresh done, Sound x -> P x -> tid < fresh ->
      perform tid fresh choice cmd x.1 = some done ->
      ∃ g, Within ⟨tid, cmd, done.reply⟩ x (done.state, g) ∧
        (∀ task, done.started = some task -> Ready task fresh (done.state, g)) ∧
        Post Q F done.reply (done.state, g)) :
    (serverContract cfg).Triple tid P (give cmd) (Post Q F) :=
  .call steady.stable (stable_post (fun reply => (returns reply).stable) raises.stable) step

/-- A silent command whose answer says something. -/
theorem triple_ask
    {cmd : Cmd}
    {Q : cmd.Reply -> World -> Prop}
    (steady : Steady cfg tid P)
    (returns : ∀ reply, Steady cfg tid (Q reply))
    (raises : Steady cfg tid F)
    (silent : cmd.Silent)
    (step : ∀ x choice fresh done, Sound x -> P x ->
      perform tid fresh choice cmd x.1 = some done ->
      Alike x done.state -> Post Q F done.reply (done.state, x.2)) :
    (serverContract cfg).Triple tid P (give cmd) (Post Q F) := by
  refine triple_give steady returns raises fun x choice fresh done sound holds _ did => ?_
  obtain ⟨started, alike⟩ := alike_of_perform sound silent did
  refine ⟨x.2, .alike sound alike (duty_of_silent silent _ _ _), fun task some => ?_,
    step x choice fresh done sound holds did alike⟩
  rw [started] at some
  cases some

/-- A database method. -/
theorem triple_db
    {dbCall : DbCall}
    {Q : dbCall.Reply -> World -> Prop}
    (steady : Steady cfg tid P)
    (returns : ∀ reply, Steady cfg tid (Q reply))
    (raises : Steady cfg tid F)
    (failed : ∀ x, P x -> F x)
    (step : ∀ x now reply db, Sound x -> P x -> dbCall.apply now x.1.db = .ok (reply, db) ->
      ∃ g, Within ⟨tid, .db dbCall, .ok reply⟩ x ({ x.1 with db := db }, g) ∧
        Q reply ({ x.1 with db := db }, g)) :
    (serverContract cfg).Triple tid P (db dbCall) (Post Q F) := by
  have rule : (serverContract cfg).Triple tid P (give (.db dbCall)) (Post Q F) := by
    refine triple_give steady returns raises fun x choice fresh done sound holds _ did => ?_
    obtain ⟨started, effect⟩ := done_of_performDb did
    obtain ⟨reply, state, begun⟩ := done
    obtain ⟨error, rfl, rfl⟩ | ⟨now, answer, db, applied, rfl, rfl⟩ := effect
    · refine ⟨x.2, .alike sound (.refl sound) (by cases dbCall <;> trivial), ?_,
        failed x holds⟩
      intro task some
      rw [show begun = none from started] at some
      cases some
    · obtain ⟨g, within, after⟩ := step x now answer db sound holds applied
      refine ⟨g, within, fun task some => ?_, after⟩
      rw [show begun = none from started] at some
      cases some
  exact rule

/-- A database method that only reads. -/
theorem triple_read
    {dbCall : DbCall}
    {Q : dbCall.Reply -> World -> Prop}
    (steady : Steady cfg tid P)
    (returns : ∀ reply, Steady cfg tid (Q reply))
    (raises : Steady cfg tid F)
    (failed : ∀ x, P x -> F x)
    (reads : dbCall.Reads)
    (step : ∀ x now reply, Sound x -> P x ->
      dbCall.apply now x.1.db = .ok (reply, x.1.db) -> Q reply x) :
    (serverContract cfg).Triple tid P (db dbCall) (Post Q F) := by
  refine triple_db steady returns raises failed fun x now reply db sound holds applied => ?_
  have same := reads.apply_eq applied
  subst same
  have quiet : Cmd.Quiet (.db dbCall) := reads
  exact ⟨x.2, .alike sound (.refl sound) (duty_of_silent quiet.silent _ _ _),
    step x now reply sound holds applied⟩

/-- `with self._lock:` -/
theorem triple_withLock
    {body : Proc Out}
    {F' : World -> Prop}
    {Q' : Out -> World -> Prop}
    (P' : World -> Prop)
    (Q : Out -> World -> Prop)
    (F : World -> Prop)
    (steady : Steady cfg tid P)
    (steady' : Steady cfg tid P')
    (opened : ∀ x, Sound x -> P x -> Opened x)
    (enter : ∀ x, Sound x -> P x -> P' ({ x.1 with lock := some tid }, x.2))
    (inside : (serverContract cfg).Triple tid P' body
      (Post (fun out x => Holds tid x ∧ Q out x) fun x => Holds tid x ∧ F x))
    (returns : ∀ out, Steady cfg tid fun x => Holds tid x ∧ Q out x)
    (raises : Steady cfg tid fun x => Holds tid x ∧ F x)
    (leave : ∀ out x, Q out x -> Q' out ({ x.1 with lock := none }, x.2))
    (leave' : ∀ x, F x -> F' ({ x.1 with lock := none }, x.2))
    (returns' : ∀ out, Steady cfg tid (Q' out))
    (raises' : Steady cfg tid F') :
    (serverContract cfg).Triple tid P (withLock .main body) (Post Q' F') := by
  have acquired : (serverContract cfg).Triple tid P (give (.acquire .main))
      (Post (fun _ => P') F') := by
    refine triple_give steady (fun _ => steady') raises'
      fun x choice fresh done sound holds _ did => ?_
    rw [perform] at did
    split at did
    · next free =>
        cases did
        exact ⟨x.2, .acquire sound (opened x sound holds) free _, nofun, enter x sound holds⟩
    · cases did
  have released : ∀ R R' : World -> Prop,
      (Steady cfg tid fun x => Holds tid x ∧ R x) -> Steady cfg tid R' ->
      (∀ x, R x -> R' ({ x.1 with lock := none }, x.2)) ->
      (serverContract cfg).Triple tid (fun x => Holds tid x ∧ R x)
        (give (.release .main)) (Post (fun _ => R') F') := by
    intro R R' before after leaves
    refine triple_give before (fun _ => after) raises'
      fun x choice fresh done sound holds _ did => ?_
    cases did
    exact ⟨x.2, .release sound holds.1 _, nofun, leaves x holds.2⟩
  refine acquired.seq fun _ => inside.tryFinally (fun out => (returns out).stable)
    raises.stable (fun out => released _ _ (returns out) (returns' out) (leave out))
    (released _ _ raises raises' leave') (fun out => (returns' out).stable) raises'.stable

/-- `with self._sync_lock:` -/
theorem triple_withSyncLock
    {body : Proc Out}
    {Q : Out -> World -> Prop}
    (steady : Steady cfg tid P)
    (returns : ∀ out, Steady cfg tid (Q out))
    (raises : Steady cfg tid F)
    (failed : ∀ x, P x -> F x)
    (inside : (serverContract cfg).Triple tid P body (Post Q F)) :
    (serverContract cfg).Triple tid P (withLock .sync body) (Post Q F) := by
  refine ((triple_look (.acquire .sync) trivial steady).raising fun x _ => failed x).seq
    fun _ => ?_
  refine inside.tryFinally (fun out => (returns out).stable) raises.stable (fun out => ?_)
    (triple_look (.release .sync) trivial raises) (fun out => (returns out).stable)
    raises.stable
  -- letting a lock go does not fail
  refine triple_give (returns out) (fun _ => returns out) raises
    fun x choice fresh done sound holds _ did => ?_
  cases did
  exact ⟨x.2, .alike sound (.memory sound rfl rfl rfl rfl rfl rfl rfl) trivial, nofun,
    (returns out).blind x _ (.memory sound rfl rfl rfl rfl rfl rfl rfl) holds⟩

end Rules

end Manager
end Mpmt
