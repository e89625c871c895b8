import Mpmt.Agent.Sending

/-!
# The workers

A worker answers its command once.  An EXECUTE or a SYNC runs in the execution
slot, which the worker gives back however its protocol ends.
-/

namespace Mpmt
namespace Agent

open Effects Threads Contract

variable {json : Json} {tid gen : Nat} {command : Command} {may : Option LockName}
  {P Q F : World -> Prop} {B : Nat -> State -> Prop}

/-! ## What a worker knows -/

theorem Steady.congr
    (steady : Steady json tid may P)
    (same : ∀ x, P x ↔ Q x) : Steady json tid may Q :=
  funext (fun x => propext (same x)) ▸ steady

/-- A worker that has not answered yet and stands in a place. -/
structure Silent (B : Nat -> State -> Prop) (tid : Nat) (command : Command) (gen : Nat)
    (x : World) : Prop where
  working : Working tid command gen x.2
  connected : x.1.conn.isSome = true
  first : ∀ event ∈ own tid x.2, sends event = false
  place : B tid x.1

/-- A worker that has answered. -/
structure Spoken (B : Nat -> State -> Prop) (tid : Nat) (command : Command) (gen : Nat)
    (x : World) : Prop where
  working : Working tid command gen x.2
  connected : x.1.conn.isSome = true
  answered : Answered tid gen x.2
  place : B tid x.1

/-- Without the slot. -/
def Vacant (tid : Nat) (s : State) : Prop := s.execThread ≠ some tid ∧ tid ∉ s.inside

/-- In the slot, and in no call of the protocol instance. -/
def Seated (tid : Nat) (s : State) : Prop := s.execThread = some tid ∧ tid ∉ s.inside

/-- In front of the slot, which another worker has. -/
def Refused (tid : Nat) (s : State) : Prop :=
  s.execLock = some tid ∧ (∃ other, other ≠ tid ∧ s.execThread = some other) ∧ tid ∉ s.inside

/-- In a call of the protocol instance. -/
def Calling (tid : Nat) (s : State) : Prop := s.execThread = some tid ∧ tid ∈ s.inside

theorem steady_vacant : Steady json tid may fun x => Vacant tid x.1 :=
  steady_out.and steady_outside

theorem steady_seated : Steady json tid may fun x => Seated tid x.1 :=
  steady_inSlot.and steady_outside

theorem steady_refused
    (apart : may ≠ some .exec) : Steady json tid may fun x => Refused tid x.1 := by
  have held : Steady json tid may (Held tid .exec) := steady_held apart
  have outside : Steady json tid may fun x => tid ∉ x.1.inside := steady_outside
  refine ⟨fun x x' event inv other within ⟨lock, taken, out⟩ => ?_,
    fun x x' event sound idle ⟨lock, taken, out⟩ => ?_⟩
  · refine ⟨held.stable x x' event inv other within lock, ?_,
      outside.stable x x' event inv other within out⟩
    rw [within.slot tid (Ne.symm other) (.inl lock)]
    exact taken
  · refine ⟨held.idle x x' event sound idle lock, ?_, outside.idle x x' event sound idle out⟩
    rw [idle.execThread]
    exact taken

theorem steady_calling : Steady json tid may fun x => Calling tid x.1 where
  stable := fun _ _ _ _ other within holds =>
    ⟨(within.slot tid (Ne.symm other) (.inr holds.1)).trans holds.1,
      (within.inside tid (Ne.symm other)).mpr holds.2⟩
  idle := fun _ _ _ _ idle holds =>
    ⟨idle.execThread.trans holds.1, by
      rw [idle.inside]
      exact holds.2⟩

theorem steady_silent
    (place : Steady json tid may fun x => B tid x.1) :
    Steady json tid may (Silent B tid command gen) := by
  refine Steady.congr (P := fun x => Working tid command gen x.2 ∧ x.1.conn.isSome = true ∧
    (∀ event ∈ own tid x.2, sends event = false) ∧ B tid x.1) ?_ fun x => ?_
  · exact steady_working.and (steady_connected.and
      ((steady_unseen fun _ idle => idle.silent.1).and place))
  exact ⟨fun ⟨working, connected, first, place⟩ => ⟨working, connected, first, place⟩,
    fun silent => ⟨silent.working, silent.connected, silent.first, silent.place⟩⟩

theorem steady_spoken
    (place : Steady json tid may fun x => B tid x.1) :
    Steady json tid may (Spoken B tid command gen) := by
  refine Steady.congr (P := fun x => Working tid command gen x.2 ∧ x.1.conn.isSome = true ∧
    Answered tid gen x.2 ∧ B tid x.1) ?_ fun x => ?_
  · exact steady_working.and (steady_connected.and ((steady_seen _).and place))
  exact ⟨fun ⟨working, connected, answered, place⟩ => ⟨working, connected, answered, place⟩,
    fun spoken => ⟨spoken.working, spoken.connected, spoken.answered, spoken.place⟩⟩

theorem Answer.mono
    {events events' : List (Event interface PyError)}
    {msg : Msg}
    (answer : Answer json tid command events msg)
    (more : ∀ event ∈ events, event ∈ events') : Answer json tid command events' msg := by
  cases answer with
  | reserved key entry named stored => exact .reserved key entry named (more _ stored)
  | done call result called returned => exact .done call result called (more _ returned)
  | error text => exact .error text

theorem steady_answer
    {msg : Msg} : Steady json tid may fun x => Answer json tid command (own tid x.2) msg := by
  refine ⟨fun x x' event _ other within answer => ?_, fun x x' event _ idle answer => ?_⟩
  · show Answer json tid command (own tid x'.2) msg
    rwa [within.history, own_other other]
  · show Answer json tid command (own tid x'.2) msg
    rw [idle.history, own_mine idle.mine]
    exact answer.mono fun _ member => List.mem_append_left _ member

/-! ## The answer -/

/-- What the place has to do with the slot when a message is written. -/
def Fits (tid : Nat) (command : Command) (msg : Msg) (s : State) : Prop :=
  command.name = "RESERVE" ∨ s.execThread = some tid ∨
    msg = .busy command ∧ ∃ other, other ≠ tid ∧ s.execThread = some other

theorem triple_staleWorker
    (steady : Steady json tid none P)
    (held : ∀ x, P x -> Held tid .send x) :
    (agentContract json).Triple tid P (stale (some gen))
      (Post (fun late x => P x ∧
        if late then Answered tid gen x.2 else Checked tid gen x) fun _ => False) := by
  have reads : Cmd.generation.Idle := trivial
  have checked : Steady json tid none fun x => P x ∧ Checked tid gen x := by
    refine Steady.congr (P := fun x => P x ∧ Held tid .send x ∧ Checked tid gen x)
      (steady.and steady_checked) fun x => ?_
    exact ⟨fun ⟨first, _, second⟩ => ⟨first, second⟩,
      fun ⟨first, second⟩ => ⟨first, held x first, second⟩⟩
  have known : ∀ generation : Nat, Steady json tid none fun x => P x ∧
      if gen ≠ generation then Answered tid gen x.2 else Checked tid gen x := by
    intro generation
    by_cases same : gen ≠ generation
    · simp only [if_pos same]
      exact steady.and (steady_seen _)
    · simp only [if_neg same]
      exact checked
  refine Triple.seq (Q := fun generation x => P x ∧
    if gen ≠ generation then Answered tid gen x.2 else Checked tid gen x) ?_ fun generation => ?_
  · refine triple_read reads rfl steady (fun generation => (known generation).stable) ?_
    intro x choice fresh done _ holds still _ performed
    have seen := seen_after tid x done
    cases performed
    refine ⟨x.1.generation, rfl, still, ?_⟩
    split
    · next different => exact ⟨_, seen, .inr (Ne.symm different)⟩
    · next same =>
        have same : gen = x.1.generation := Decidable.not_not.mp same
        by_cases conn : x.1.conn = some x.1.generation
        · exact .inl ⟨conn.trans (congrArg some same.symm), same.symm⟩
        · exact .inr (straddled_now x.2 conn (held x holds))
  · exact .ret (known generation).stable fun _ _ holds => by
      simpa only [decide_eq_true_eq] using holds

theorem Working.snoc
    {history : List Instant}
    (working : Working tid command gen history)
    (moment : Instant) : Working tid command gen (history ++ [moment]) := by
  obtain ⟨first, member, begins⟩ := working
  exact ⟨first, List.mem_append_left _ member, begins⟩

/-- The one answer of a worker. -/
theorem triple_answer
    {msg : Msg}
    (place : Steady json tid (some .send) fun x => B tid x.1)
    (fits : ∀ s, B tid s -> Fits tid command msg s) :
    (agentContract json).Triple tid
      (fun x => Silent B tid command gen x ∧ Answer json tid command (own tid x.2) msg)
      (send msg (some gen)) (Post (fun _ => Spoken B tid command gen) fun _ => False) := by
  have steady : Steady json tid (some .send) fun x => Silent B tid command gen x ∧
      Answer json tid command (own tid x.2) msg := (steady_silent place).and steady_answer
  have held : Steady json tid none (Held tid .send) :=
    steady_held (Option.some_ne_none LockName.send).symm
  have apart : (none : Option LockName) ≠ some .send := (Option.some_ne_none _).symm
  refine triple_send (Checked tid gen) (fun conn x => gen = conn ∨ Straddled tid x.2) steady
    (steady_spoken place) ?_ (fun conn => ?_) ?_ (fun _ holds => holds.1.connected) ?_ ?_ ?_
  · refine Steady.congr (P := fun x => ((Silent B tid command gen x ∧
        Answer json tid command (own tid x.2) msg) ∧ Held tid .send x) ∧
      Held tid .send x ∧ Checked tid gen x)
      ((steady.narrow.and held).and steady_checked) fun x => ?_
    exact ⟨fun ⟨first, _, second⟩ => ⟨first, second⟩,
      fun ⟨first, second⟩ => ⟨first, first.2, second⟩⟩
  · refine Steady.congr (P := fun x => ((Silent B tid command gen x ∧
        Answer json tid command (own tid x.2) msg) ∧ Held tid .send x) ∧
      (gen = conn ∨ Held tid .send x ∧ Straddled tid x.2))
      ((steady.narrow.and held).and ((Steady.const (gen = conn)).or
        (steady_straddled apart))) fun x => ?_
    exact ⟨fun ⟨first, second⟩ => ⟨first, second.imp_right And.right⟩,
      fun ⟨first, second⟩ => ⟨first, second.imp_right fun straddled => ⟨first.2, straddled⟩⟩⟩
  · refine (triple_staleWorker (steady.narrow.and held) fun _ holds => holds.2).returning
      fun late x _ holds => ?_
    split
    · next isLate =>
        rw [if_pos isLate] at holds
        exact ⟨⟨holds.1.1.1.working, holds.1.1.1.connected, holds.2, holds.1.1.1.place⟩,
          holds.1.2⟩
    · next inTime =>
        rw [if_neg inTime] at holds
        exact holds
  · intro x conn _ checked here
    refine checked.imp_left fun ⟨conn', _⟩ => ?_
    rw [conn'] at here
    exact Option.some.inj here
  · intro x conn reply holds aimed _
    exact .inr ⟨command, gen, holds.1.working, holds.1.first, holds.2, aimed,
      fits x.1 holds.1.place⟩
  · intro x conn reply holds
    refine ⟨holds.1.working.snoc _, holds.1.connected, ?_, holds.1.place⟩
    exact ⟨_, seen_after tid x ⟨reply, x.1, none⟩, .inl rfl⟩

/-- A body that has not answered when it raises. -/
theorem triple_reporting
    {body : Proc Unit}
    (place : Steady json tid (some .send) fun x => B tid x.1)
    (fits : ∀ s text, B tid s -> Fits tid command (.error command text) s)
    (triple : (agentContract json).Triple tid P body
      (Post (fun _ => Spoken B tid command gen) (Silent B tid command gen))) :
    (agentContract json).Triple tid P (reporting command gen body)
      (Post (fun _ => Spoken B tid command gen) (Spoken B tid command gen)) := by
  have spoken : Steady json tid (some .send) (Spoken B tid command gen) := steady_spoken place
  refine Triple.tryExcept triple (fun error => ?_) fun _ _ _ holds => holds
  refine Triple.seq (Q := fun _ => Spoken B tid command gen) ?_ fun _ =>
    .throw spoken.stable fun _ _ holds => holds
  refine ((triple_answer place fun s => fits s error.text).raising
    fun _ _ never => never.elim).given fun _ _ silent => ?_
  exact ⟨silent, .error error.text⟩

end Agent
end Mpmt
