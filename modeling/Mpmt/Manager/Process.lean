import Mpmt.Manager.Handlers

/-!
# The threads of the process

The start, the control panel, the scheduler and the server run within the
contract, and with them all threads of the Manager.
-/

namespace Mpmt
namespace Manager

open Effects Threads Contract

variable {cfg : Settings} {tid : Nat} {P : World -> Prop}

/-- Starting a thread that the other threads do not depend on. -/
theorem triple_spawn
    {F : World -> Prop}
    (task : Task)
    (steady : Steady cfg tid P)
    (raises : Steady cfg tid F)
    (failed : ∀ x, P x -> F x)
    (ready : ∀ x fresh, P x -> Ready task fresh x) :
    (serverContract cfg).Triple tid P (give (.spawn task)) (Post (fun _ => P) F) := by
  refine triple_give steady (fun _ => steady) raises
    fun x choice fresh done sound holds _ did => ?_
  cases choice with
  | go =>
      cases did
      refine ⟨x.2, .alike sound (.refl sound) trivial, fun task' begun => ?_, holds⟩
      cases begun
      exact ready x fresh holds
  | fail error =>
      cases error <;> cases did
      exact ⟨x.2, .alike sound (.refl sound) trivial, nofun, failed x holds⟩
  | _ => cases did

/-! ## The scheduler -/

/-- The thread has taken a SYNC of which no Agent has heard. -/
def Taken (tid : Nat) (x : World) : Prop := Merging tid x ∧ x.2.sent = false

theorem steady_taken : Steady cfg tid (Taken tid) :=
  steady_merging.under (carries_unsent.weaken fun _ merging => merging.1)

theorem triple_takeSync :
    (serverContract cfg).Triple tid (Holds tid) takeSync
      (Post (fun taken x => Holds tid x ∧ (taken.isSome = true -> Taken tid x))
        (Holds tid)) := by
  have nothing : ∀ {R : World -> Prop}, Steady cfg tid R -> (∀ x, R x -> Holds tid x) ->
      (serverContract cfg).Triple tid R (pure none : Proc (Option Nat))
        (Post (fun taken x => Holds tid x ∧ (taken.isSome = true -> Taken tid x))
          (Holds tid)) := fun steady locked =>
    .ret steady.stable fun x _ holds => ⟨locked x holds, nofun⟩
  have told : ∀ cracked : Bool, Steady cfg tid fun x => Holds tid x ∧
      (cracked = false -> Critical tid x) := fun _ =>
    steady_holds.and (.imp fun _ => steady_critical)
  have asking : (serverContract cfg).Triple tid (Holds tid) (give .taskCracked)
      (Post (fun cracked x => Holds tid x ∧ (cracked = false -> Critical tid x))
        (Holds tid)) :=
    triple_ask steady_holds told steady_holds trivial
      fun x choice fresh done _ holds did _ => by
        cases did
        exact ⟨holds, fun clear => ⟨holds, clear⟩⟩
  refine asking.seq fun cracked => ?_
  split
  · exact nothing (told cracked) fun _ holds => holds.1
  next clear =>
  refine Triple.given (P := Critical tid) ?_ fun _ _ holds =>
    holds.2 (Bool.eq_false_iff.mpr clear)
  have seen : ∀ active : Option Row, Steady cfg tid fun x => Critical tid x ∧
      (active = none -> ∀ opId, ¬ x.1.db.Runs opId) := fun _ =>
    steady_critical.under (.imp fun _ => critical_rests)
  have reading : (serverContract cfg).Triple tid (Critical tid) (db .getActive)
      (Post (fun active x => Critical tid x ∧
        (active = none -> ∀ opId, ¬ x.1.db.Runs opId)) (Holds tid)) := by
    refine triple_read steady_critical seen steady_holds (fun _ holds => holds.1) trivial
      fun x now active _ holds applied => ⟨holds, fun none => ?_⟩
    cases applied
    exact Db.not_runs_of_getActive none
  refine reading.seq fun active => ?_
  cases active with
  | some => exact nothing (seen _) fun _ holds => holds.1.1
  | none =>
      have resting : Steady cfg tid fun x => Critical tid x ∧ ∀ opId, ¬ x.1.db.Runs opId :=
        steady_critical.under critical_rests
      refine Triple.given (P := fun x => Critical tid x ∧ ∀ opId, ¬ x.1.db.Runs opId) ?_
        fun _ _ holds => ⟨holds.1, holds.2 rfl⟩
      have locked : ∀ x, (Critical tid x ∧ ∀ opId, ¬ x.1.db.Runs opId) -> Holds tid x :=
        fun _ holds => holds.1.1
      refine triple_withSyncLock resting
        (fun _ => steady_holds.and (.imp fun _ => steady_taken)) steady_holds locked ?_
      have free : ∀ sync : Option ActiveSync, Steady cfg tid fun x => Critical tid x ∧
          (∀ opId, ¬ x.1.db.Runs opId) ∧ (sync = none -> x.1.activeSync = none) := fun _ =>
        steady_critical.under (critical_rests.and (.imp fun _ => critical_sync))
      have asking' : (serverContract cfg).Triple tid
          (fun x => Critical tid x ∧ ∀ opId, ¬ x.1.db.Runs opId) (give .activeSync)
          (Post (fun sync x => Critical tid x ∧ (∀ opId, ¬ x.1.db.Runs opId) ∧
            (sync = none -> x.1.activeSync = none)) (Holds tid)) :=
        triple_ask resting free steady_holds trivial
          fun x choice fresh done _ holds did _ => by
            cases did
            exact ⟨holds.1, holds.2, id⟩
      refine asking'.seq fun sync => ?_
      cases sync with
      | some => exact nothing (free _) fun _ holds => holds.1.1
      | none =>
          refine ((triple_look .syncQueue trivial (free none)).raising
            fun _ _ holds => holds.1.1).seq fun queue => ?_
          cases queue with
          | nil => exact nothing (free none) fun _ holds => holds.1.1
          | cons syncId queue =>
              refine ((triple_look (.setSyncQueue queue) trivial (free none)).raising
                fun _ _ holds => holds.1.1).seq fun _ => ?_
              have taken : Steady cfg tid fun x => Holds tid x ∧ Taken tid x :=
                steady_holds.and steady_taken
              refine Triple.seq (Q := fun _ x => Holds tid x ∧ Taken tid x)
                (triple_give (free none) (fun _ => taken) steady_holds ?_) fun _ =>
                  .ret taken.stable fun _ _ holds => ⟨holds.1, fun _ => holds.2⟩
              rintro x choice fresh done sound ⟨⟨lock, clear⟩, rests, none⟩ _ did
              cases did
              exact ⟨_, .takeSync sound lock (none rfl) rests _ _, nofun, lock,
                ⟨rfl, clear, rfl⟩, rfl⟩

theorem triple_schedulerRound :
    (serverContract cfg).Triple tid Opened schedulerRound (Post (fun _ => Opened) Opened) := by
  have done : (serverContract cfg).Triple tid Opened (pure () : Proc Unit)
      (Post (fun _ => Opened) Opened) := .ret steady_opened.stable fun _ _ opened => opened
  refine (triple_look .taskCracked trivial steady_opened).seq fun cracked => ?_
  split
  · exact done
  refine (triple_look .started trivial steady_opened).seq fun started => ?_
  split
  · refine (triple_look .agentsAvailable trivial steady_opened).seq fun available => ?_
    split
    · have taken : ∀ taken : Option Nat, Steady cfg tid fun x => Opened x ∧
          (taken.isSome = true -> Taken tid x) := fun _ =>
        steady_opened.and (.imp fun _ => steady_taken)
      refine Triple.seq (Q := fun taken x => Opened x ∧ (taken.isSome = true -> Taken tid x))
        ?_ fun out => ?_
      · refine triple_withLock (Holds tid)
          (fun taken x => Opened x ∧ (taken.isSome = true -> Taken tid x)) Opened
          steady_opened steady_holds (fun _ _ opened => opened) (fun _ _ _ => rfl) ?_
          (fun out => steady_holds.and (taken out)) (steady_holds.and steady_opened)
          (fun _ _ holds => holds) (fun _ opened => opened) taken steady_opened
        exact (triple_takeSync.returning fun _ _ sound holds =>
          ⟨holds.1, sound.opened_of_lock holds.1, holds.2⟩).raising fun _ sound lock =>
            ⟨lock, sound.opened_of_lock lock⟩
      · cases out with
        | none => exact done.given fun _ _ holds => holds.1
        | some syncId =>
            refine triple_give (taken (some syncId)) (fun _ => steady_opened) steady_opened
              fun x choice fresh done sound holds _ did => ?_
            obtain ⟨⟨owner, clear, sync⟩, unsent⟩ := holds.2 rfl
            cases choice with
            | go =>
                cases did
                refine ⟨_, .handOver sound owner unsent fresh _ _, fun task begun => ?_,
                  holds.1⟩
                cases begun
                exact ⟨rfl, clear, sync⟩
            | fail error =>
                cases error <;> cases did
                exact ⟨x.2, .alike sound (.refl sound) trivial, nofun, holds.1⟩
            | _ => cases did
    · exact done
  · exact done

theorem triple_schedulerLoop :
    (serverContract cfg).Triple tid Opened schedulerLoop (Post (fun _ => Opened) Opened) :=
  triple_schedulerRound.seq fun _ => triple_spawn .schedulerLoop steady_opened steady_opened
    (fun _ opened => opened) fun _ _ opened => opened

/-! ## The server and the control panel -/

theorem triple_httpServe :
    (serverContract cfg).Triple tid Opened httpServe (Post (fun _ => Opened) Opened) := by
  have binding : (serverContract cfg).Triple tid Opened (give .makeServer)
      (Post (fun _ => Opened) Opened) := by
    refine triple_give steady_opened (fun _ => steady_opened) steady_opened
      fun x choice fresh done sound opened _ did => ?_
    cases choice with
    | go =>
        cases did
        exact ⟨x.2, .serve sound opened _, nofun, opened⟩
    | fail error =>
        cases error <;> cases did
        exact ⟨x.2, .alike sound (.refl sound) trivial, nofun, opened⟩
    | _ => cases did
  refine (binding.attempt (fun _ => steady_opened.stable) steady_opened.stable).seq
    fun bound => ?_
  cases bound with
  | ok => exact .ret steady_opened.stable fun _ _ opened => opened
  | error error =>
      dsimp only
      split
      · exact .ret steady_opened.stable fun _ _ opened => opened
      · exact .throw steady_opened.stable fun _ _ opened => opened

/-- The thread is the control panel, before or after `ms start`. -/
def Panel (tid : Nat) (x : World) : Prop :=
  x.2.panel = tid ∧ (x.1.started = true ∨ x.2.phase = .idle)

theorem steady_panelled : Steady cfg tid (Panel tid) :=
  steady_panel.under (panel_started.or (panel_phase nofun))

/-- `ms start` can wait. -/
def Waiting (tid : Nat) (x : World) : Prop := x.2.panel = tid ∧ x.2.phase = .idle

theorem steady_waiting : Steady cfg tid (Waiting tid) := steady_panel.under (panel_phase nofun)

theorem triple_cmdStart :
    (serverContract cfg).Triple tid (Panel tid) cmdStart
      (Post (fun _ => Panel tid) fun _ => True) := by
  have told : ∀ started : Bool, Steady cfg tid fun x => Panel tid x ∧
      (started = false -> Waiting tid x) := fun _ =>
    steady_panelled.and (.imp fun _ => steady_waiting)
  have asking : (serverContract cfg).Triple tid (Panel tid) (give .started)
      (Post (fun started x => Panel tid x ∧ (started = false -> Waiting tid x))
        fun _ => True) :=
    triple_ask steady_panelled told steady_true trivial
      fun x choice fresh done _ holds did _ => by
        cases did
        refine ⟨holds, fun unstarted => ⟨holds.1, holds.2.resolve_left fun started => ?_⟩⟩
        rw [unstarted] at started
        cases started
  refine asking.seq fun started => ?_
  split
  · exact .ret (told started).stable fun _ _ holds => holds.1
  next unstarted =>
  refine Triple.given (P := Waiting tid) ?_ fun _ _ holds =>
    holds.2 (Bool.eq_false_iff.mpr unstarted)
  have reconnecting : (serverContract cfg).Triple tid (Waiting tid) reconnectAll
      (Post (fun _ => Waiting tid) fun _ => True) := by
    have reconnects := quiet_reconnectEach roles true
    refine ((triple_silent steady_waiting (Only.silent reconnects.only)).raising
      fun _ _ _ => trivial).seq fun ok => ?_
    refine Triple.seq (Q := fun _ => Waiting tid) ?_ fun _ =>
      .ret steady_waiting.stable fun _ _ holds => holds
    refine triple_give steady_waiting (fun _ => steady_waiting) steady_true
      fun x choice fresh done sound holds _ did => ?_
    cases did
    exact ⟨x.2, .setAvailable sound (.inr (by rw [holds.2]; nofun)) ok _, nofun, holds⟩
  have opened : Steady cfg tid fun x => x.2.panel = tid ∧ Opened x :=
    steady_panel.and steady_opened
  have opening : (serverContract cfg).Triple tid (Waiting tid) (give (.spawn .httpServe))
      (Post (fun _ x => x.2.panel = tid ∧ Opened x) fun _ => True) := by
    refine triple_give steady_waiting (fun _ => opened) steady_true
      fun x choice fresh done sound holds _ did => ?_
    cases choice with
    | go =>
        cases did
        refine ⟨_, .open sound holds.1 _, fun task begun => ?_, holds.1, rfl⟩
        cases begun
        rfl
    | fail error =>
        cases error <;> cases did
        exact ⟨x.2, .alike sound (.refl sound) trivial, nofun, trivial⟩
    | _ => cases did
  refine reconnecting.seq fun _ => opening.seq fun _ => ?_
  refine (triple_spawn .schedulerLoop opened steady_true (fun _ _ => trivial)
    fun _ _ holds => holds.2).seq fun _ => ?_
  refine triple_give opened (fun _ => steady_panelled) steady_true
    fun x choice fresh done sound holds _ did => ?_
  cases did
  exact ⟨x.2, .setStarted sound holds.1 holds.2 _, nofun, holds.1, .inl rfl⟩

theorem silent_cmdSync : Only Cmd.Silent cmdSync := by
  refine Only.bind (Only.call trivial) fun started => ?_
  split
  · refine Only.bind (Only.call trivial) fun cracked => ?_
    split
    · exact Only.pure ()
    · refine Only.bind (Only.call trivial) fun _ => Only.tryFinally ?_ (Only.call trivial)
      refine Only.bind (Only.call trivial) fun queue => ?_
      refine Only.bind (Only.call trivial) fun sync => ?_
      split
      · exact Only.pure ()
      · exact Only.bind (Only.call trivial) fun counter =>
          Only.bind (Only.call trivial) fun _ => Only.bind (Only.call trivial) fun syncId =>
            Only.bind (Only.call trivial) fun queue => Only.call trivial
  · exact Only.pure ()

theorem triple_handleCommand (cmd : String) :
    (serverContract cfg).Triple tid (Panel tid) (handleCommand cmd)
      (Post (fun _ => Panel tid) fun _ => True) := by
  unfold handleCommand
  split
  · exact triple_cmdStart
  split
  · exact (triple_silent steady_panelled silent_cmdSync).raising fun _ _ _ => trivial
  split
  · exact .throw steady_panelled.stable fun _ _ _ => trivial
  · exact .ret steady_panelled.stable fun _ _ holds => holds

/-- The control panel goes on in a new thread. -/
theorem triple_spawnConsole :
    (serverContract cfg).Triple tid (Panel tid) (give (.spawn .console))
      (Post (fun _ _ => True) fun _ => True) := by
  refine triple_give steady_panelled (fun _ => steady_true) steady_true
    fun x choice fresh done sound holds _ did => ?_
  cases choice with
  | go =>
      cases did
      refine ⟨_, .handPanel sound holds.1 fresh _, fun task begun => ?_, trivial⟩
      cases begun
      exact ⟨rfl, holds.2⟩
  | fail error =>
      cases error <;> cases did
      exact ⟨x.2, .alike sound (.refl sound) trivial, nofun, trivial⟩
  | _ => cases did

theorem triple_console :
    (serverContract cfg).Triple tid (Panel tid) console
      (Post (fun _ _ => True) fun _ => True) := by
  refine Triple.seq ((triple_look .input trivial steady_panelled).attempt
    (fun _ => steady_panelled.stable) steady_panelled.stable) fun line => ?_
  cases line with
  | ok line => exact (triple_handleCommand line).seq fun _ => triple_spawnConsole
  | error error =>
      dsimp only
      split
      · exact .ret steady_panelled.stable fun _ _ _ => trivial
      · exact .throw steady_panelled.stable fun _ _ _ => trivial

/-! ## The start -/

/-- The thread prepares the tables. -/
def Preparing (tid : Nat) (x : World) : Prop := x.2.panel = tid ∧ x.2.phase = .starting

theorem steady_preparing : Steady cfg tid (Preparing tid) :=
  steady_panel.under (panel_phase nofun)

theorem silent_seedUsers
    (role : UserRole)
    (users : List String) : Only Cmd.Silent (seedUsers role users) := by
  induction users with
  | nil => exact Only.pure ()
  | cons userId rest inductionHypothesis =>
      exact Only.bind (Only.call trivial) fun _ => inductionHypothesis

theorem triple_construct :
    (serverContract cfg).Triple tid (Preparing tid) (construct cfg)
      (Post (fun _ => Waiting tid) fun _ => True) := by
  refine ((triple_silent steady_preparing (silent_seedUsers _ _)).raising
    fun _ _ _ => trivial).seq fun _ => ?_
  refine ((triple_silent steady_preparing (silent_seedUsers _ _)).raising
    fun _ _ _ => trivial).seq fun _ => ?_
  refine Triple.seq (Q := fun _ => Waiting tid)
    (triple_db steady_preparing (fun _ => steady_waiting) steady_true (fun _ _ => trivial) ?_)
    fun result => ?_
  · intro x now result after sound holds applied
    have reconciled : after = (x.1.db.reconcileOnStartup now).2 :=
      (congrArg Prod.snd (Except.ok.inj applied)).symm
    subst reconciled
    exact ⟨_, .reconcile sound holds.1 holds.2 now _, holds.1, rfl⟩
  · split
    · refine ((triple_look (.writeTaskStatus .cracked) trivial steady_waiting).raising
        fun _ _ _ => trivial).seq fun _ => ?_
      exact .throw steady_waiting.stable fun _ _ _ => trivial
    · exact .ret steady_waiting.stable fun _ _ holds => holds

theorem triple_launch :
    (serverContract cfg).Triple tid (Preparing tid) (launch cfg)
      (Post (fun _ _ => True) fun _ => True) := by
  refine ((triple_look .readTaskStatus trivial steady_preparing).raising
    fun _ _ _ => trivial).seq fun status => ?_
  split
  · exact triple_construct.seq fun _ => triple_spawnConsole.given fun _ _ holds =>
      ⟨holds.1, .inr holds.2⟩
  · exact .ret steady_preparing.stable fun _ _ _ => trivial

/-! ## All threads -/

theorem sound_restart
    {x : World}
    (sound : Sound x) : Sound (.fresh x.1.db x.1.taskStatus, .fresh) where
  regular := sound.regular
  closed := fun _ => ⟨rfl, rfl, rfl, rfl, rfl⟩
  single := sound.single
  apart := nofun
  carried := nofun
  ticketed := nofun

theorem steady_ready (task : Task) : Steady cfg tid (Ready task tid) := by
  cases task with
  | launch => exact steady_preparing
  | console => exact steady_panelled
  | httpServe => exact steady_opened
  | schedulerLoop => exact steady_opened
  | handle => exact steady_opened
  | runExecute => exact steady_executing
  | runSync => exact steady_merging

theorem triple_program (task : Task) :
    (serverContract cfg).Triple tid (Ready task tid) (program cfg task) fun _ _ => True := by
  have ends : ∀ {Q : Unit -> World -> Prop} {F : World -> Prop},
      (serverContract cfg).Triple tid (Ready task tid) (program cfg task) (Post Q F) ->
      (serverContract cfg).Triple tid (Ready task tid) (program cfg task) fun _ _ => True :=
    fun triple => triple.weaken (fun _ _ holds => holds) fun _ _ _ _ => trivial
  cases task with
  | launch => exact ends triple_launch
  | console => exact ends triple_console
  | httpServe => exact ends triple_httpServe
  | schedulerLoop => exact ends triple_schedulerLoop
  | handle request rounds => exact ends (triple_handle rounds request)
  | runExecute opId userId protType => exact ends (triple_runExecute userId protType)
  | runSync syncId => exact ends triple_runSync

theorem server_verified (cfg : Settings) : (serverContract cfg).Verified where
  inv := fun _ _ _ _ within => within.sound
  stable := fun task _ => (steady_ready task).stable
  arrives := by
    intro task tid x sound may
    cases task with
    | handle request rounds =>
        have serving : x.1.serving = true := may
        by_contra closed
        have idle := (sound.closed closed).serving
        rw [serving] at idle
        cases idle
    | _ => cases may
  restart := fun _ => sound_restart
  main := fun _ _ => ⟨rfl, rfl⟩
  tasks := fun task _ => triple_program task

/-- The tables of a new installation. -/
theorem sound_initial : Sound (.fresh .empty .active, .fresh) where
  regular := Db.regular_empty
  closed := fun _ => ⟨rfl, rfl, rfl, rfl, rfl⟩
  single := fun _ _ ⟨_, found, _⟩ => by cases found
  apart := nofun
  carried := nofun
  ticketed := nofun

theorem good_initial (cfg : Settings) :
    (serverContract cfg).Good (initial cfg) .fresh :=
  .boot (server_verified cfg) sound_initial ⟨rfl, rfl⟩

end Manager
end Mpmt
