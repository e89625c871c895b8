import Mpmt.Agent.Rules

/-!
# Messages to the Manager

`_send` holds the send lock, but the accept loop changes the connection and the
number of the session without it.  What a worker writes goes to the connection
of its session, unless one of the two has been changed in between.
-/

namespace Mpmt
namespace Agent

open Effects Threads Contract

variable {json : Json} {tid gen : Nat} {may : Option LockName} {P Q F : World -> Prop}

/-! ## The connection while the lock is held -/

/-- The lock is still held behind one more moment. -/
theorem Straddled.snoc
    {history : List Instant}
    {moment : Instant}
    (straddled : Straddled tid history)
    (held : moment.after.sendLock = some tid) : Straddled tid (history ++ [moment]) := by
  obtain ⟨before, first, since, rfl, switching, locked⟩ := straddled
  refine ⟨before, first, since ++ [moment], by simp, switching, fun later member => ?_⟩
  rw [← List.cons_append] at member
  rcases List.mem_append.mp member with old | new
  · exact locked later old
  · rw [List.mem_singleton.mp new]
    exact held

/-- A moment that does not show the connection of the session. -/
theorem straddled_now
    {moment : Instant}
    (history : List Instant)
    (switching : moment.after.conn ≠ some moment.after.generation)
    (held : moment.after.sendLock = some tid) : Straddled tid (history ++ [moment]) := by
  refine ⟨history, moment, [], rfl, switching, fun later member => ?_⟩
  rw [List.mem_singleton.mp member]
  exact held

theorem steady_straddled
    (apart : may ≠ some .send) :
    Steady json tid may fun x => Held tid .send x ∧ Straddled tid x.2 := by
  have held : Steady json tid may (Held tid .send) := steady_held apart
  refine ⟨fun x x' event inv other within holds => ?_, fun x x' event sound idle holds => ?_⟩
  · have still : Held tid .send x' := held.stable x x' event inv other within holds.1
    refine ⟨still, ?_⟩
    show Straddled tid x'.2
    rw [within.history]
    exact holds.2.snoc still
  · have still : Held tid .send x' := held.idle x x' event sound idle holds.1
    refine ⟨still, ?_⟩
    show Straddled tid x'.2
    rw [idle.history]
    exact holds.2.snoc still

/-- The worker has seen its session, or has been overtaken. -/
def Checked (tid gen : Nat) (x : World) : Prop :=
  x.1.conn = some gen ∧ x.1.generation = gen ∨ Straddled tid x.2

theorem steady_checked :
    Steady json tid none fun x => Held tid .send x ∧ Checked tid gen x := by
  have straddling : Steady json tid none fun x => Held tid .send x ∧ Straddled tid x.2 :=
    steady_straddled (Option.some_ne_none _).symm
  have held : Steady json tid none (Held tid .send) :=
    steady_held (Option.some_ne_none LockName.send).symm
  refine ⟨fun x x' event inv other within holds => ?_, fun x x' event sound idle holds => ?_⟩
  · have still : Held tid .send x' := held.stable x x' event inv other within holds.1
    refine ⟨still, ?_⟩
    rcases holds.2 with ⟨conn, generation⟩ | straddled
    · by_cases same : x'.1.conn = some x'.1.generation
      · rcases within.switch with kept | kept
        · rw [kept, conn, Option.some.injEq] at same
          exact .inl ⟨kept.trans conn, same.symm⟩
        · rw [kept, generation] at same
          exact .inl ⟨same, kept.trans generation⟩
      · refine .inr ?_
        show Straddled tid x'.2
        rw [within.history]
        exact straddled_now x.2 same still
    · exact .inr (straddling.stable x x' event inv other within ⟨holds.1, straddled⟩).2
  · have still : Held tid .send x' := held.idle x x' event sound idle holds.1
    refine ⟨still, ?_⟩
    rcases holds.2 with ⟨conn, generation⟩ | straddled
    · exact .inl ⟨idle.conn.trans conn, idle.generation.trans generation⟩
    · exact .inr (straddling.idle x x' event sound idle ⟨holds.1, straddled⟩).2

/-! ## `_send` -/

/-- `try: … except OSError: pass`, of a body that raises nothing else. -/
theorem triple_passing
    {body : Proc Unit}
    {R : World -> Prop}
    (stable : (agentContract json).Stable tid R)
    (triple : (agentContract json).Triple tid P body fun result x =>
      R x ∧ ∀ error, result = .error error -> error.isOsError = true) :
    (agentContract json).Triple tid P (passing body) (Post (fun _ => R) fun _ => False) := by
  have ends : ∀ result : Except PyError Unit, (agentContract json).Stable tid fun x =>
      R x ∧ ∀ error, result = .error error -> error.isOsError = true := fun _ =>
    stable.and (.const _)
  refine (triple.tried ends).seq fun result => ?_
  cases result with
  | ok => exact .ret (ends _) fun _ _ holds => holds.1
  | error error =>
      dsimp only
      split
      · exact .ret (ends _) fun _ _ holds => holds.1
      · next other => exact .throw (ends _) fun _ _ holds => other (holds.2 error rfl)

/-- Writing to a connection. -/
theorem triple_sendall
    {conn : Nat}
    {msg : Msg}
    (stable : (agentContract json).Stable tid P)
    (stable' : (agentContract json).Stable tid Q)
    (speaks : ∀ x reply, Sound json x -> P x -> Duty json ⟨tid, .sendall conn msg, reply⟩ x)
    (said : ∀ x reply, P x ->
      Q (x.1, x.2 ++ [⟨x.1, .did ⟨tid, .sendall conn msg, reply⟩, x.1⟩])) :
    (agentContract json).Triple tid P (give (.sendall conn msg)) fun result x =>
      Q x ∧ ∀ error, result = .error error -> error.isOsError = true := by
  refine Triple.command stable (fun _ => stable'.and (.const _))
    fun x choice fresh done inv holds _ performed => ?_
  have sound : Sound json x := inv
  obtain ⟨none, result⟩ := done_of_risky performed
  have same : done.state = x.1 := by
    rcases result with ⟨_, same⟩ | ⟨_, _, _, same⟩
    · exact same
    · exact same
  refine ⟨x.2 ++ [⟨x.1, .did ⟨tid, .sendall conn msg, done.reply⟩, done.state⟩], ?_,
    fun task begun => ?_, ?_, fun error raised => ?_⟩
  · rw [same]
    exact {
      history := rfl
      sound := sound.plain rfl trivial sound.bound (Nat.le_refl _) sound.inside sound.once
      network := fun _ => ⟨trivial, rfl, rfl, rfl⟩
      switch := .inl rfl
      connected := fun some => some
      locks := fun _ _ _ owns => owns
      slot := fun _ _ _ => rfl
      taken := fun _ _ taken => taken
      inside := fun _ _ => Iff.rfl
      duty := speaks x _ sound holds }
  · rw [none] at begun
    cases begun
  · rw [same]
    exact said x _ holds
  · rcases result with ⟨ok, _⟩ | ⟨error', same', os, _⟩
    · rw [ok] at raised
      cases raised
    · rw [same'] at raised
      cases raised
      exact os

/-- `_send`: behind the check of the session it goes to a connection that fits
with what was checked. -/
theorem triple_send
    {session : Option Nat}
    {msg : Msg}
    (checked : World -> Prop)
    (aimed : Nat -> World -> Prop)
    (steady : Steady json tid (some .send) P)
    (steady' : Steady json tid (some .send) Q)
    (steadyChecked : Steady json tid none fun x => (P x ∧ Held tid .send x) ∧ checked x)
    (steadyAimed : ∀ conn, Steady json tid none fun x =>
      (P x ∧ Held tid .send x) ∧ aimed conn x)
    (checks : (agentContract json).Triple tid (fun x => P x ∧ Held tid .send x) (stale session)
      (Post (fun late x => if late then Q x ∧ Held tid .send x
        else (P x ∧ Held tid .send x) ∧ checked x) fun _ => False))
    (connected : ∀ x, P x -> x.1.conn.isSome = true)
    (aims : ∀ x conn, P x -> checked x -> x.1.conn = some conn -> aimed conn x)
    (speaks : ∀ x conn reply, P x -> aimed conn x -> Sound json x ->
      Duty json ⟨tid, .sendall conn msg, reply⟩ x)
    (said : ∀ x conn reply, P x ->
      Q (x.1, x.2 ++ [⟨x.1, .did ⟨tid, .sendall conn msg, reply⟩, x.1⟩])) :
    (agentContract json).Triple tid P (send msg session) (Post (fun _ => Q) fun _ => False) := by
  have held : (agentContract json).Stable tid (Held tid .send) :=
    (steady_held (Option.some_ne_none LockName.send).symm).stable
  have reads : Cmd.conn.Idle := trivial
  refine triple_withLock steady (fun _ => steady') (.const False) ?_
  refine (checks.raising fun _ _ never => never.elim).seq fun late => ?_
  split
  · exact .ret (steady'.stable.and held) fun _ _ holds => holds
  refine Triple.seq (Q := fun conn x => conn.isSome = true ∧
      (P x ∧ Held tid .send x) ∧ checked x) ?_ fun conn => ?_
  · refine (triple_read reads rfl steadyChecked
      (fun conn => (Stable.const _).and steadyChecked.stable) ?_).raising
      fun _ _ never => never.elim
    intro x choice fresh done _ holds still _ performed
    cases performed
    exact ⟨x.1.conn, rfl, connected x holds.1.1, still⟩
  cases conn with
  | none =>
      exact .ret ((Stable.const _).and steadyChecked.stable) fun _ _ holds => by
        cases holds.1
  | some =>
      dsimp only
      refine Triple.given (P := fun x => (P x ∧ Held tid .send x) ∧ checked x) ?_
        fun _ _ holds => holds.2
      refine (triple_passing (steady'.stable.and held) ?_).raising fun _ _ never => never.elim
      refine Triple.bind (R := Post (fun conn x => ∃ conn', conn = some conn' ∧
          (P x ∧ Held tid .send x) ∧ aimed conn' x) fun _ => False) ?_ (fun conn => ?_)
        fun _ _ _ never => never.elim
      · refine triple_read reads rfl steadyChecked (fun conn => ?_) ?_
        · intro x x' event inv other within ⟨conn', same, holds⟩
          exact ⟨conn', same, (steadyAimed conn').stable x x' event inv other within holds⟩
        · intro x choice fresh done _ holds still idle performed
          cases performed
          obtain ⟨conn, some⟩ := Option.isSome_iff_exists.mp (connected x holds.1.1)
          refine ⟨x.1.conn, rfl, conn, some, still.1, ?_⟩
          exact aims _ conn still.1.1 still.2 some
      · cases conn with
        | none =>
            exact .raise (fun x x' event inv other within ⟨_, same, _⟩ => by cases same)
              fun _ _ ⟨_, same, _⟩ => by cases same
        | some conn =>
            refine Triple.given (P := fun x => (P x ∧ Held tid .send x) ∧ aimed conn x) ?_
              fun _ _ ⟨_, same, holds⟩ => by
                cases same
                exact holds
            exact triple_sendall (steadyAimed conn).stable (steady'.stable.and held)
              (fun x reply sound holds => speaks x conn reply holds.1.1 holds.2 sound)
              fun x reply holds => ⟨said x conn reply holds.1.1, holds.1.2⟩

end Agent
end Mpmt
