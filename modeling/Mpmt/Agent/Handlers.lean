import Mpmt.Agent.Worker

/-!
# The handlers of the commands

A RESERVE stores a listening socket.  An EXECUTE and a SYNC take the execution
slot, and whatever happens in it they give it back behind their answer.
-/

namespace Mpmt
namespace Agent

open Effects Threads Contract

variable {json : Json} {tid gen : Nat} {command : Command} {may : Option LockName}
  {P Q F : World -> Prop} {B B' : Nat -> State -> Prop}

/-! ## Steps of a worker -/

section Steps

variable {event : Event interface PyError} {x : World} {s' : State}

/-- A step that changes nothing but the slot and who is in a call. -/
theorem within_slot
    (sound : Sound json x)
    (plain : Plain event)
    (same : s' = { x.1 with execThread := s'.execThread, inside := s'.inside })
    (slot : ∀ other, other ≠ event.tid ->
      x.1.execLock = some other ∨ x.1.execThread = some other -> s'.execThread = x.1.execThread)
    (taken : ∀ other, other ≠ event.tid -> s'.execThread = some other ->
      x.1.execThread = some other)
    (inside : ∀ other, other ≠ event.tid -> (other ∈ s'.inside ↔ other ∈ x.1.inside))
    (seated : ∀ tid ∈ s'.inside, s'.execThread = some tid)
    (once : s'.inside.Nodup)
    (duty : Duty json event x) :
    Within json event x (s', x.2 ++ [⟨x.1, .did event, s'⟩]) := by
  have conn : s'.conn = x.1.conn := by rw [same]
  have generation : s'.generation = x.1.generation := by rw [same]
  have accepted : s'.accepted = x.1.accepted := by rw [same]
  exact {
    history := rfl
    sound := sound.plain rfl plain (by rw [generation, accepted]; exact sound.bound)
      (Nat.le_of_eq accepted.symm) seated once
    network := fun _ => ⟨plain, conn, generation, accepted⟩
    switch := .inl conn
    connected := fun some => by rwa [conn]
    locks := fun lock other _ owns => by
      rw [same]
      cases lock <;> exact owns
    slot := slot
    taken := taken
    inside := inside
    duty := duty }

theorem Silent.snoc
    (silent : Silent B tid command gen x)
    (mine : event.tid = tid)
    (quiet : sends event = false)
    (conn : s'.conn = x.1.conn)
    (place : B' tid s') :
    Silent B' tid command gen (s', x.2 ++ [⟨x.1, .did event, s'⟩]) where
  working := silent.working.snoc _
  connected := by
    show s'.conn.isSome = true
    rw [conn]
    exact silent.connected
  first := unseen_snoc silent.first mine quiet
  place := place

theorem Spoken.snoc
    (spoken : Spoken B tid command gen x)
    (mine : event.tid = tid)
    (conn : s'.conn = x.1.conn)
    (place : B' tid s') :
    Spoken B' tid command gen (s', x.2 ++ [⟨x.1, .did event, s'⟩]) where
  working := spoken.working.snoc _
  connected := by
    show s'.conn.isSome = true
    rw [conn]
    exact spoken.connected
  answered := by
    obtain ⟨first, member, answers⟩ := spoken.answered
    rw [Answered, own_mine mine]
    exact ⟨first, List.mem_append_left _ member, answers⟩
  place := place

end Steps

/-- A worker that has not called the protocol instance. -/
def Untried (tid : Nat) (x : World) : Prop := ∀ event ∈ own tid x.2, enters event = false

theorem steady_untried : Steady json tid may (Untried tid) :=
  steady_unseen fun _ idle => idle.silent.2

/-! ## RESERVE -/

theorem triple_close
    {sock : Nat}
    (steady : Steady json tid none P) :
    (agentContract json).Triple tid P (passing (give (.close sock)))
      (Post (fun _ => P) fun _ => False) := by
  have closing : (Cmd.close sock).Idle := trivial
  refine triple_passing steady.stable ?_
  refine triple_idle closing rfl steady (fun _ => steady.stable.and (.const _))
    fun x choice fresh done _ _ still _ performed => ⟨still, fun error raised => ?_⟩
  obtain ⟨_, ⟨ok, _⟩ | ⟨error', same, os, _⟩⟩ := done_of_risky performed
  · rw [ok] at raised
    cases raised
  · rw [same] at raised
    cases raised
    exact os

theorem triple_storeReserved
    {key : String}
    {entry : Entry}
    (steady : Steady json tid (some .reserved) P) :
    (agentContract json).Triple tid P (storeReserved key entry)
      (Post (fun _ x => P x ∧ ∃ event ∈ own tid x.2, event = ⟨tid, .setReserved key entry, .ok ()⟩)
        fun _ => False) := by
  have stored : Steady json tid (some .reserved) fun x => ∃ event ∈ own tid x.2,
      event = ⟨tid, .setReserved key entry, .ok ()⟩ := steady_seen _
  have held : Steady json tid none (Held tid .reserved) :=
    steady_held (Option.some_ne_none LockName.reserved).symm
  have inside := steady.narrow.and held
  have looks : (Cmd.getReserved key).Idle := trivial
  have stores : (Cmd.setReserved key entry).Idle := trivial
  have store : (agentContract json).Triple tid (fun x => P x ∧ Held tid .reserved x)
      (give (.setReserved key entry)) (Post (fun _ x => (P x ∧ ∃ event ∈ own tid x.2,
        event = ⟨tid, .setReserved key entry, .ok ()⟩) ∧ Held tid .reserved x)
        fun _ => False) := by
    refine triple_read stores rfl inside
      (fun _ => (steady.narrow.and stored.narrow).stable.and held.stable) ?_
    intro x choice fresh done _ _ still _ performed
    have seen := seen_after tid x done
    cases performed
    exact ⟨(), rfl, ⟨still.1, _, seen, rfl⟩, still.2⟩
  refine triple_withLock steady (fun _ => steady.and stored) (.const False) ?_
  refine Triple.raising (F := fun _ => False) ?_ fun _ _ never => never.elim
  refine Triple.seq (Q := fun _ x => P x ∧ Held tid .reserved x) ?_ fun old => ?_
  · refine triple_read looks rfl inside (fun _ => inside.stable) ?_
    intro x choice fresh done _ _ still _ performed
    cases performed
    exact ⟨_, rfl, still⟩
  cases old with
  | none => exact store
  | some old => exact (triple_close inside).seq fun _ => store

theorem fits_reserve
    {msg : Msg}
    {s : State}
    (reserve : command.name = "RESERVE") : Fits tid command msg s := .inl reserve

/-- `cmd_reserve` answers, but for a session that is over. -/
theorem triple_cmdReserve
    (reserve : command.name = "RESERVE") :
    (agentContract json).Triple tid (Silent Vacant tid command gen) (cmdReserve json command gen)
      (Post (fun _ => Spoken Vacant tid command gen) (Spoken Vacant tid command gen)) := by
  have listens : Cmd.listen.Idle := trivial
  have reads : Cmd.generation.Idle := trivial
  have silent : ∀ may, Steady json tid may (Silent Vacant tid command gen) := fun may =>
    steady_silent steady_vacant
  have late : Steady json tid none fun x => ∃ event ∈ own tid x.2, Late gen event :=
    steady_seen _
  refine triple_reporting steady_vacant (fun _ _ _ => fits_reserve reserve) ?_
  refine (triple_pass listens rfl (silent none)).seq fun entry => ?_
  refine Triple.seq (Q := fun generation x => Silent Vacant tid command gen x ∧
    (gen ≠ generation -> ∃ event ∈ own tid x.2, Late gen event)) ?_ fun generation => ?_
  · refine (triple_read reads rfl (silent none) (fun generation => (silent none).stable.and
      (.imp fun _ => late.stable)) ?_).raising
      fun _ _ never => never.elim
    intro x choice fresh done _ _ still _ performed
    have seen := seen_after tid x done
    cases performed
    exact ⟨x.1.generation, rfl, still, fun different => ⟨_, seen, Ne.symm different⟩⟩
  split
  · next different =>
      have closes : (Cmd.close entry.2).Idle := trivial
      refine ((triple_pass closes rfl ((silent none).and late)).weaken (fun x _ holds => ⟨holds.1,
        holds.2 different⟩) fun result x _ holds => ?_)
      cases result with
      | ok =>
          obtain ⟨first, member, is⟩ := holds.2
          exact ⟨holds.1.working, holds.1.connected, ⟨first, member, .inr is⟩, holds.1.place⟩
      | error => exact holds.1
  · refine Triple.given (P := Silent Vacant tid command gen) ?_ fun _ _ holds => holds.1
    cases named : reserveKey json command.userId command.protType with
    | none => exact .throw (silent none).stable fun _ _ holds => holds
    | some key =>
        refine ((triple_storeReserved (silent _)).raising fun _ _ never => never.elim).seq
          fun _ => ?_
        refine ((triple_answer steady_vacant fun _ _ => fits_reserve reserve).given
          fun x _ holds => ⟨holds.1, ?_⟩).raising fun _ _ never => never.elim
        obtain ⟨_, member, rfl⟩ := holds.2
        exact .reserved key entry named member

/-! ## The execution slot -/

/-- A worker takes the slot, or tells the Manager who asked for it that it is
taken. -/
theorem triple_claimSlot :
    (agentContract json).Triple tid
      (fun x => Silent Vacant tid command gen x ∧ Untried tid x)
      (claimSlot command gen)
      (Post (fun taken x => if taken then Silent Seated tid command gen x ∧ Untried tid x
        else Spoken Vacant tid command gen x) fun _ => False) := by
  have reads : Cmd.execThread.Idle := trivial
  have vacant : ∀ may, Steady json tid may
      fun x => Silent Vacant tid command gen x ∧ Untried tid x := fun may =>
    (steady_silent steady_vacant).and steady_untried
  have seated : ∀ may, Steady json tid may
      fun x => Silent Seated tid command gen x ∧ Untried tid x := fun may =>
    (steady_silent steady_seated).and steady_untried
  have spoken : ∀ may, Steady json tid may (Spoken Vacant tid command gen) := fun may =>
    steady_spoken steady_vacant
  have held : Steady json tid none (Held tid .exec) :=
    steady_held (Option.some_ne_none LockName.exec).symm
  have looked : ∀ taken, (agentContract json).Stable tid fun x =>
      ((Silent Vacant tid command gen x ∧ Untried tid x) ∧ Held tid .exec x) ∧
        x.1.execThread = taken := by
    intro taken x x' event inv other within holds
    refine ⟨((vacant none).and held).stable x x' event inv other within holds.1, ?_⟩
    rw [within.slot tid (Ne.symm other) (.inl holds.1.2)]
    exact holds.2
  refine triple_withLock (vacant _) (fun taken => ?_) (.const False) ?_
  · cases taken with
    | true => exact seated _
    | false => exact spoken _
  refine Triple.raising (F := fun _ => False) ?_ fun _ _ never => never.elim
  refine Triple.seq (Q := fun taken x =>
    ((Silent Vacant tid command gen x ∧ Untried tid x) ∧ Held tid .exec x) ∧
      x.1.execThread = taken) ?_ fun taken => ?_
  · refine triple_read reads rfl ((vacant none).and held) looked ?_
    intro x choice fresh done _ _ still _ performed
    cases performed
    exact ⟨_, rfl, still, rfl⟩
  cases taken with
  | none =>
      refine Triple.seq (Q := fun _ x => (Silent Seated tid command gen x ∧ Untried tid x) ∧
        Held tid .exec x) ?_ fun _ =>
        .ret ((seated none).stable.and held.stable) fun _ _ holds => holds
      refine triple_give (looked none)
        (stable_post (fun _ => (seated none).stable.and held.stable) (.const False)) ?_
      intro x choice fresh done sound ⟨⟨⟨silent, untried⟩, owns⟩, free⟩ _ _ performed
      have empty : ∀ other, x.1.execThread ≠ some other := fun other same => by
        rw [free] at same
        cases same
      cases performed
      refine ⟨within_slot sound trivial rfl ?_ ?_ (fun _ _ => Iff.rfl) ?_ sound.once trivial,
        fun task begun => (by cases begun), ⟨?_, ?_⟩, owns⟩
      · intro other different taken
        rcases taken with locked | taken
        · exact absurd (Option.some.inj (owns.symm.trans locked)).symm different
        · exact absurd taken (empty other)
      · intro other different taken
        exact absurd (Option.some.inj taken).symm different
      · intro other inside
        exact absurd (sound.inside other inside) (empty other)
      · exact silent.snoc rfl rfl rfl ⟨rfl, silent.place.2⟩
      · exact unseen_snoc untried rfl rfl
  | some other =>
      refine Triple.seq (Q := fun _ x => Spoken Vacant tid command gen x ∧ Held tid .exec x) ?_
        fun _ => .ret ((spoken none).stable.and held.stable) fun _ _ holds => holds
      have answers : (agentContract json).Triple tid (fun x => Silent Refused tid command gen x ∧
          Answer json tid command (own tid x.2) (.busy command)) (send (.busy command) (some gen))
          (Post (fun _ => Spoken Refused tid command gen) fun _ => False) :=
        triple_answer (steady_refused fun same => by cases same)
          fun _ refused => .inr (.inr ⟨rfl, refused.2.1⟩)
      refine answers.weaken ?_ ?_
      · intro x _ ⟨⟨⟨silent, _⟩, owns⟩, taken⟩
        have different : other ≠ tid := fun same => silent.place.1 (same ▸ taken)
        exact ⟨⟨silent.working, silent.connected, silent.first,
          owns, ⟨other, different, taken⟩, silent.place.2⟩, .error _⟩
      · intro result x _ holds
        cases result with
        | error => exact holds
        | ok =>
            obtain ⟨working, connected, answered, owns, ⟨other, different, taken⟩, outside⟩ :=
              holds
            refine ⟨⟨working, connected, answered, fun same => ?_, outside⟩, owns⟩
            rw [taken] at same
            exact different (Option.some.inj same)

/-- The slot is given back. -/
theorem triple_clearSlot :
    (agentContract json).Triple tid (Spoken Seated tid command gen)
      (withLock .exec (give .clearExecThread))
      (Post (fun _ => Spoken Vacant tid command gen) (Spoken Vacant tid command gen)) := by
  have seated : ∀ may, Steady json tid may (Spoken Seated tid command gen) := fun may =>
    steady_spoken steady_seated
  have vacant : ∀ may, Steady json tid may (Spoken Vacant tid command gen) := fun may =>
    steady_spoken steady_vacant
  have held : Steady json tid none (Held tid .exec) :=
    steady_held (Option.some_ne_none LockName.exec).symm
  refine triple_withLock (seated _) (fun _ => vacant _) (vacant _) ?_
  refine triple_give ((seated none).and held).stable (stable_post
    (fun _ => ((vacant none).and held).stable) ((vacant none).and held).stable) ?_
  intro x choice fresh done sound ⟨spoken, owns⟩ _ _ performed
  obtain ⟨mine, outside⟩ := spoken.place
  cases performed
  refine ⟨within_slot sound trivial rfl ?_ ?_ (fun _ _ => Iff.rfl) ?_ sound.once trivial,
    fun task begun => (by cases begun), ?_, owns⟩
  · intro other different taken
    rcases taken with locked | taken
    · exact absurd (Option.some.inj (owns.symm.trans locked)).symm different
    · exact absurd (Option.some.inj (mine.symm.trans taken)).symm different
  · intro other _ taken
    cases taken
  · intro other inside
    have same : tid = other := Option.some.inj (mine.symm.trans (sound.inside other inside))
    exact absurd (same ▸ inside) outside
  · exact spoken.snoc rfl rfl ⟨fun same => (by cases same), outside⟩

/-- A body that runs in the slot. -/
theorem triple_inSlot
    {body : Proc Unit}
    (triple : (agentContract json).Triple tid
      (fun x => Silent Seated tid command gen x ∧ Untried tid x) body
      (Post (fun _ => Spoken Seated tid command gen) (Silent Seated tid command gen))) :
    (agentContract json).Triple tid
      (fun x => Silent Vacant tid command gen x ∧ Untried tid x)
      (inSlot command gen body)
      (Post (fun _ => Spoken Vacant tid command gen) (Spoken Vacant tid command gen)) := by
  have seated : Steady json tid none (Spoken Seated tid command gen) :=
    steady_spoken steady_seated
  have vacant : Steady json tid none (Spoken Vacant tid command gen) :=
    steady_spoken steady_vacant
  refine (triple_claimSlot.raising fun _ _ never => never.elim).seq fun taken => ?_
  cases taken with
  | true =>
      exact Triple.tryFinally
        (triple_reporting steady_seated (fun _ _ seated => .inr (.inl seated.1)) triple)
        (fun _ => seated.stable) seated.stable (fun _ => triple_clearSlot) triple_clearSlot
        (fun _ => vacant.stable) vacant.stable
  | false => exact .ret vacant.stable fun _ _ holds => holds

/-! ## Calls of the protocol instance -/

/-- The call has returned. -/
def Returned (tid : Nat) (call : Call) (result : call.Result) (x : World) : Prop :=
  ∃ event ∈ own tid x.2, event = ⟨tid, .leave call, .ok result⟩

theorem steady_returned
    {call : Call}
    {result : call.Result} : Steady json tid may (Returned tid call result) :=
  steady_seen _

/-- A call is the first one of its worker, and nobody else is in one. -/
theorem triple_enter
    {call : Call}
    (called : asked command = some call) :
    (agentContract json).Triple tid
      (fun x => Silent Seated tid command gen x ∧ Untried tid x) (give (.enter call))
      (Post (fun _ => Silent Calling tid command gen) fun _ => False) := by
  have before : Steady json tid none fun x => Silent Seated tid command gen x ∧ Untried tid x :=
    (steady_silent steady_seated).and steady_untried
  have calling : Steady json tid none (Silent Calling tid command gen) :=
    steady_silent steady_calling
  refine triple_give before.stable (stable_post (fun _ => calling.stable) (.const False)) ?_
  intro x choice fresh done sound ⟨silent, untried⟩ _ _ performed
  obtain ⟨mine, outside⟩ := silent.place
  have alone : x.1.inside = [] := by
    refine List.eq_nil_iff_forall_not_mem.mpr fun other inside => outside ?_
    have same : tid = other := Option.some.inj (mine.symm.trans (sound.inside other inside))
    exact same ▸ inside
  cases performed
  refine ⟨within_slot sound trivial rfl (fun _ _ _ => rfl) (fun _ _ taken => taken) ?_ ?_ ?_
    ⟨mine, alone, untried, command, gen, silent.working, called⟩,
    fun task begun => (by cases begun), ?_⟩
  · intro other different
    exact ⟨fun inside => (List.mem_cons.mp inside).resolve_left different,
      List.mem_cons_of_mem _⟩
  · intro other inside
    rcases List.mem_cons.mp inside with rfl | inside
    · exact mine
    · exact sound.inside other inside
  · exact List.nodup_cons.mpr ⟨outside, sound.once⟩
  · exact silent.snoc rfl rfl rfl ⟨mine, List.mem_cons_self⟩

/-- What leaving a call does. -/
theorem done_of_leave
    {fresh : Nat}
    {call : Call}
    {s : State}
    {done : Done interface PyError State Task (.leave call)}
    (performed : perform tid fresh choice (.leave call) s = some done) :
    done.state = { s with inside := s.inside.erase tid } ∧ done.started = none := by
  cases call with
  | join | update | quit | query | sync =>
      cases choice with
      | go | token | fail | hear | port =>
          cases performed <;> exact ⟨rfl, rfl⟩

theorem triple_leave
    {call : Call} :
    (agentContract json).Triple tid (Silent Calling tid command gen) (give (.leave call))
      (Post (fun result x => Silent Seated tid command gen x ∧ Returned tid call result x)
        (Silent Seated tid command gen)) := by
  have calling : Steady json tid none (Silent Calling tid command gen) :=
    steady_silent steady_calling
  have seated : Steady json tid none (Silent Seated tid command gen) :=
    steady_silent steady_seated
  refine triple_give calling.stable
    (stable_post (fun _ => (seated.and steady_returned).stable) seated.stable) ?_
  intro x choice fresh done sound silent _ _ performed
  obtain ⟨mine, inside⟩ := silent.place
  obtain ⟨same, none⟩ := done_of_leave performed
  have left : Silent Seated tid command gen (after tid x done) := by
    refine silent.snoc rfl rfl (by rw [same]) ?_
    rw [same]
    exact ⟨mine, sound.once.not_mem_erase⟩
  refine ⟨?_, fun task begun => ?_, ?_⟩
  · refine within_slot sound trivial ?_ ?_ ?_ ?_ ?_ ?_ trivial
    · rw [same]
    · rw [same]
      exact fun _ _ _ => rfl
    · rw [same]
      exact fun _ _ taken => taken
    · rw [same]
      exact fun other different => List.mem_erase_of_ne different
    · rw [same]
      exact fun other inside => sound.inside other (List.mem_of_mem_erase inside)
    · rw [same]
      exact sound.once.erase _
  · rw [none] at begun
    cases begun
  · have seen := seen_after tid x done
    cases reply : done.reply with
    | ok result =>
        rw [reply] at seen
        exact ⟨left, _, seen, rfl⟩
    | error => exact left

/-- The one call of a worker. -/
theorem triple_protCall
    {call : Call}
    (called : asked command = some call) :
    (agentContract json).Triple tid
      (fun x => Silent Seated tid command gen x ∧ Untried tid x) (protCall call)
      (Post (fun result x => Silent Seated tid command gen x ∧ Returned tid call result x)
        (Silent Seated tid command gen)) :=
  ((triple_enter called).raising fun _ _ never => never.elim).seq fun _ => triple_leave

/-! ## The bodies -/

/-- A worker in the slot that has done nothing there. -/
def Starting (tid : Nat) (command : Command) (gen : Nat) (x : World) : Prop :=
  Silent Seated tid command gen x ∧ Untried tid x

theorem steady_starting : Steady json tid may (Starting tid command gen) :=
  (steady_silent steady_seated).and steady_untried

/-- A command is refused with an error before anything is done for it. -/
theorem triple_refuse
    {text : String} :
    (agentContract json).Triple tid (Starting tid command gen)
      (send (.error command text) (some gen))
      (Post (fun _ => Spoken Seated tid command gen) F) :=
  ((triple_answer steady_seated fun _ seated => .inr (.inl seated.1)).given
    fun _ _ starting => ⟨starting.1, .error text⟩).raising fun _ _ never => never.elim

/-- DONE is sent behind a call. -/
theorem triple_calling
    {call : Call}
    {next : call.Result -> Proc Unit}
    (called : asked command = some call)
    (answers : ∀ result, next result = send (.done command (call.token result)) (some gen)) :
    (agentContract json).Triple tid (Starting tid command gen) (protCall call >>= next)
      (Post (fun _ => Spoken Seated tid command gen) (Silent Seated tid command gen)) := by
  refine (triple_protCall called).seq fun result => ?_
  rw [answers]
  refine ((triple_answer steady_seated fun _ seated => .inr (.inl seated.1)).given
    fun x _ holds => ⟨holds.1, ?_⟩).raising fun _ _ never => never.elim
  obtain ⟨_, member, rfl⟩ := holds.2
  exact .done call result called member

theorem triple_takeReserved
    {userId protType : PyJson} :
    (agentContract json).Triple tid (Starting tid command gen) (takeReserved json userId protType)
      (Post (fun _ => Starting tid command gen) (Starting tid command gen)) := by
  have held : Steady json tid none (Held tid .reserved) :=
    steady_held (Option.some_ne_none LockName.reserved).symm
  have inside : Steady json tid none fun x => Starting tid command gen x ∧ Held tid .reserved x :=
    steady_starting.and held
  refine triple_withLock steady_starting (fun _ => steady_starting) steady_starting ?_
  cases reserveKey json userId protType with
  | none => exact .throw inside.stable fun _ _ holds => holds
  | some key =>
      have pops : (Cmd.popReserved key).Idle := trivial
      refine (triple_read pops rfl inside (fun _ => inside.stable) ?_).raising
        fun _ _ never => never.elim
      intro x choice fresh done _ _ still _ performed
      cases performed
      exact ⟨_, rfl, still⟩

/-- A client comes, or the worker answers that none has come. -/
theorem triple_acceptClient
    {sock : Nat} :
    (agentContract json).Triple tid (Starting tid command gen) (acceptClient command gen sock)
      (Post (fun came x => if came then Starting tid command gen x
        else Spoken Seated tid command gen x) (Silent Seated tid command gen)) := by
  have waits : (Cmd.settimeout sock).Idle := trivial
  have accepts : (Cmd.acceptClient sock).Idle := trivial
  have starting : Steady json tid none (Starting tid command gen) := steady_starting
  have silent : Steady json tid none (Silent Seated tid command gen) :=
    steady_silent steady_seated
  have spoken : Steady json tid none (Spoken Seated tid command gen) :=
    steady_spoken steady_seated
  have ends : ∀ came, Steady json tid none fun x =>
      if came = true then Starting tid command gen x else Spoken Seated tid command gen x := by
    intro came
    cases came with
    | true => exact starting
    | false => exact spoken
  refine Triple.tryFinally (Q := fun came x => if came = true then Starting tid command gen x
    else Spoken Seated tid command gen x) (F := Silent Seated tid command gen) ?_
    (fun came => (ends came).stable) silent.stable
    (fun came => (triple_close (ends came)).raising fun _ _ never => never.elim)
    ((triple_close silent).raising fun _ _ never => never.elim)
    (fun came => (ends came).stable) silent.stable
  refine Triple.tryExcept (R := Post (fun came x => came = true ∧ Starting tid command gen x)
    (Starting tid command gen)) ?_ (fun error => ?_) fun came x _ holds => ?_
  · refine (triple_pass waits rfl starting).seq fun _ => ?_
    refine (triple_pass accepts rfl starting).seq fun _ => ?_
    exact .ret starting.stable fun _ _ holds => ⟨rfl, holds⟩
  · split
    · exact triple_refuse.seq fun _ => .ret spoken.stable fun _ _ holds => holds
    · exact .throw starting.stable fun _ _ holds => holds.1
  · obtain ⟨rfl, starting⟩ := holds
    exact starting

/-- JOIN, UPDATE and QUERY with the client. -/
theorem triple_serveClient
    (execute : command.name = "EXECUTE")
    (service : command.protType ∈ clientServices) :
    (agentContract json).Triple tid (Starting tid command gen) (serveClient command gen)
      (Post (fun _ => Spoken Seated tid command gen) (Silent Seated tid command gen)) := by
  have connects : Cmd.channel.Idle := trivial
  refine ((triple_pass connects rfl steady_starting).weaken (fun _ _ holds => holds)
    fun result x _ holds => ?_ : (agentContract json).Triple tid (Starting tid command gen)
      (give .channel) (Post (fun _ => Starting tid command gen)
        (Silent Seated tid command gen))).seq fun _ => ?_
  · cases result with
    | ok => exact holds
    | error => exact holds.1
  split
  · next join => exact triple_calling (by simp [asked, execute, join]) fun _ => rfl
  split
  · next update => exact triple_calling (by simp [asked, execute, update]) fun _ => rfl
  · next join update =>
      have query : command.protType = .str "QUERY" := by
        simpa [clientServices, join, update] using service
      exact triple_calling (by simp [asked, execute, query]) fun _ => rfl

theorem triple_executeAccept
    (execute : command.name = "EXECUTE")
    (service : command.protType ∈ clientServices) :
    (agentContract json).Triple tid (Starting tid command gen) (executeAccept json command gen)
      (Post (fun _ => Spoken Seated tid command gen) (Silent Seated tid command gen)) := by
  have starting : Steady json tid none (Starting tid command gen) := steady_starting
  rw [executeAccept]
  split
  · refine (triple_takeReserved.raising fun _ _ holds => holds.1).seq fun taken => ?_
    cases taken with
    | none => exact triple_refuse
    | some entry =>
        exact ((triple_close starting).raising fun _ _ never => never.elim).seq
          fun _ => triple_refuse
  · refine (triple_takeReserved.raising fun _ _ holds => holds.1).seq fun taken => ?_
    cases taken with
    | none => exact triple_refuse
    | some entry =>
        refine triple_acceptClient.seq fun came => ?_
        cases came with
        | true => exact triple_serveClient execute service
        | false =>
            have spoken : Steady json tid none (Spoken Seated tid command gen) :=
              steady_spoken steady_seated
            exact .ret spoken.stable fun _ _ holds => holds

/-- What an EXECUTE does in the slot. -/
theorem triple_executeBody
    (execute : command.name = "EXECUTE") :
    (agentContract json).Triple tid (Starting tid command gen) (executeBody json command gen)
      (Post (fun _ => Spoken Seated tid command gen) (Silent Seated tid command gen)) := by
  rw [executeBody]
  split
  · next quit =>
      split
      · exact triple_refuse
      · exact triple_calling (by simp [asked, execute, quit]) fun _ => rfl
  split
  · next service => exact triple_executeAccept execute service
  · cases json.str command.protType with
    | some => exact triple_refuse
    | none =>
        have starting : Steady json tid none (Starting tid command gen) := steady_starting
        exact .throw starting.stable fun _ _ holds => holds.1

/-- What a SYNC does in the slot. -/
theorem triple_syncBody
    (sync : command.name = "SYNC") :
    (agentContract json).Triple tid (Starting tid command gen) (syncBody command gen)
      (Post (fun _ => Spoken Seated tid command gen) (Silent Seated tid command gen)) :=
  triple_calling (by simp [asked, sync]) fun _ => rfl

/-! ## A worker -/

/-- However its handler ends, a worker is out of the slot and has answered. -/
theorem triple_method
    (name : command.name ∈ instructions) :
    (agentContract json).Triple tid
      (fun x => Silent Vacant tid command gen x ∧ Untried tid x) (method json command gen)
      (Post (fun _ => Spoken Vacant tid command gen) (Spoken Vacant tid command gen)) := by
  rw [method]
  split
  · next reserve => exact (triple_cmdReserve reserve).given fun _ _ holds => holds.1
  split
  · next execute => exact triple_inSlot (triple_executeBody execute)
  · next reserve execute =>
      have sync : command.name = "SYNC" := by
        simpa [instructions, reserve, execute] using name
      exact triple_inSlot (triple_syncBody sync)

theorem stable_newborn : (agentContract json).Stable tid (Newborn tid command gen) := by
  intro x x' event inv other within newborn
  have working : Steady json tid none fun x => Working tid command gen x.2 := steady_working
  have out : Steady json tid none fun x => x.1.execThread ≠ some tid := steady_out
  have outside : Steady json tid none fun x => tid ∉ x.1.inside := steady_outside
  have unseen : own tid x'.2 = [] := by
    rw [within.history, own_other other]
    exact newborn.unseen
  exact ⟨working.stable x x' event inv other within newborn.working,
    within.connected newborn.connected, unseen,
    out.stable x x' event inv other within newborn.out,
    outside.stable x x' event inv other within newborn.outside⟩

/-- The command of a worker was heard in its session. -/
theorem command_of_working
    {x : World}
    (sound : Sound json x)
    (working : Working tid command gen x.2) :
    ∃ value ∈ heard json gen x.2, known json value = some command := by
  obtain ⟨moment, member, caller, begins⟩ := working
  have started : command ∈ workers gen x.2 :=
    List.mem_filterMap.mpr ⟨moment, member, by simp [workerOf, begins]⟩
  exact List.mem_filterMap.mp ((sound.inOrder gen).subset started)

theorem triple_logBegin :
    (agentContract json).Triple tid (Newborn tid command gen) (give (.log .begin command))
      (Post (fun _ x => Silent Vacant tid command gen x ∧ Untried tid x) fun _ => False) := by
  have vacant : Steady json tid none fun x => Silent Vacant tid command gen x ∧ Untried tid x :=
    (steady_silent steady_vacant).and steady_untried
  refine triple_give stable_newborn (stable_post (fun _ => vacant.stable) (.const False)) ?_
  intro x choice fresh done sound newborn _ _ performed
  have nothing : ∀ p : Event interface PyError -> Bool, ∀ event ∈ own tid x.2,
      p event = false := by
    rw [newborn.unseen]
    intro p event member
    cases member
  cases performed
  refine ⟨within_slot sound trivial rfl (fun _ _ _ => rfl) (fun _ _ taken => taken)
    (fun _ _ => Iff.rfl) sound.inside sound.once fun different => absurd rfl different,
    fun task begun => (by cases begun), ?_, unseen_snoc (nothing _) rfl rfl⟩
  exact ⟨newborn.working.snoc _, newborn.connected, unseen_snoc (nothing _) rfl rfl,
    newborn.out, newborn.outside⟩

theorem triple_logEnd
    {stage : Stage} :
    (agentContract json).Triple tid (Spoken Vacant tid command gen) (give (.log stage command))
      (Post (fun _ _ => True) fun _ => True) := by
  have spoken : Steady json tid none (Spoken Vacant tid command gen) :=
    steady_spoken steady_vacant
  refine triple_give spoken.stable (stable_post (fun _ => .const True) (.const True)) ?_
  intro x choice fresh done sound spoken _ _ performed
  cases performed
  refine ⟨within_slot sound trivial rfl (fun _ _ _ => rfl) (fun _ _ taken => taken)
    (fun _ _ => Iff.rfl) sound.inside sound.once fun _ => ?_,
    fun task begun => (by cases begun), trivial⟩
  exact ⟨spoken.place.1, command, gen, spoken.working, spoken.answered⟩

/-- A worker keeps the contract from its start to its end. -/
theorem triple_runCmd :
    (agentContract json).Triple tid (Newborn tid command gen) (runCmd json command gen)
      (Post (fun _ _ => True) fun _ => True) := by
  intro x sound newborn
  obtain ⟨_, _, isKnown⟩ := command_of_working sound newborn.working
  have name : command.name ∈ instructions := name_mem_of_known isKnown
  have spoken : Steady json tid none (Spoken Vacant tid command gen) :=
    steady_spoken steady_vacant
  cases named : who json command with
  | none =>
      simp only [runCmd, named]
      exact Triple.throw (F := fun _ => True) stable_newborn (fun _ _ _ => trivial) x sound newborn
  | some =>
  simp only [runCmd, named]
  refine Triple.seq (triple_logBegin.raising fun _ _ never => never.elim) (fun _ => ?_)
    x sound newborn
  refine ((triple_method name).attempt (fun _ => spoken.stable) spoken.stable).seq
    fun result => ?_
  cases result with
  | ok => exact triple_logEnd
  | error => exact triple_logEnd

end Agent
end Mpmt
