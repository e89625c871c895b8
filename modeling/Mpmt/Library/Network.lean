import Mathlib.Data.Fintype.Basic

/-!
# Deterministic parties over first-in first-out channels

A party is a sequential program that sends symbols to its peers, waits for a
number of symbols from a peer, or meets a peer in a joint computation.  Every
ordered pair of parties has one unbounded channel.  The steps of different
parties commute, so one completed run decides every other run: no schedule
gets stuck early, runs longer, or ends anywhere else.
-/

namespace Network

/-- What a family of parties exchanges.  `meaning` is the pair of results of a
joint computation, when the two calls match. -/
structure Signature where
  Party : Type
  Sym : Type
  Call : Type
  Res : Type
  Err : Type
  meaning : Call -> Call -> Option (Res × Res)

variable {I : Signature}

/-- The program of one party. -/
inductive Proc (I : Signature) (Out : Type)
  | ret (out : Out)
  | throw (error : I.Err)
  | send (peer : I.Party) (data : List I.Sym) (next : Proc I Out)
  | recv (peer : I.Party) (count : Nat) (next : List I.Sym -> Proc I Out)
  | join (first : Bool) (peer : I.Party) (call : I.Call)
      (next : I.Res -> Proc I Out)

namespace Proc

/-- Sequential composition. -/
def bind (proc : Proc I Out) (next : Out -> Proc I Out') : Proc I Out' :=
  match proc with
  | .ret out => next out
  | .throw error => .throw error
  | .send peer data rest => .send peer data (rest.bind next)
  | .recv peer count rest => .recv peer count fun data =>
      (rest data).bind next
  | .join first peer call rest => .join first peer call fun result =>
      (rest result).bind next

instance : Monad (Proc I) where
  pure := .ret
  bind := bind

@[simp] theorem pure_eq (out : Out) :
    (pure out : Proc I Out) = .ret out := rfl

@[simp] theorem ret_bind (out : Out) (next : Out -> Proc I Out') :
    (Proc.ret out : Proc I Out) >>= next = next out := rfl

@[simp] theorem throw_bind (error : I.Err) (next : Out -> Proc I Out') :
    (Proc.throw error : Proc I Out) >>= next = .throw error := rfl

@[simp] theorem send_bind
    (peer : I.Party)
    (data : List I.Sym)
    (rest : Proc I Out)
    (next : Out -> Proc I Out') :
    Proc.send peer data rest >>= next =
      .send peer data (rest >>= next) := rfl

@[simp] theorem recv_bind
    (peer : I.Party)
    (count : Nat)
    (rest : List I.Sym -> Proc I Out)
    (next : Out -> Proc I Out') :
    Proc.recv peer count rest >>= next =
      .recv peer count (fun data => rest data >>= next) := rfl

@[simp] theorem join_bind
    (first : Bool)
    (peer : I.Party)
    (call : I.Call)
    (rest : I.Res -> Proc I Out)
    (next : Out -> Proc I Out') :
    Proc.join first peer call rest >>= next =
      .join first peer call (fun result => rest result >>= next) := rfl

theorem bind_ret (proc : Proc I Out) : proc >>= Proc.ret = proc := by
  induction proc with
  | ret out => rfl
  | throw error => rfl
  | send peer data rest inductionHypothesis =>
      rw [send_bind, inductionHypothesis]
  | recv peer count rest inductionHypothesis =>
      rw [recv_bind]
      congr
      funext data
      exact inductionHypothesis data
  | join first peer call rest inductionHypothesis =>
      rw [join_bind]
      congr
      funext result
      exact inductionHypothesis result

theorem bind_assoc
    (proc : Proc I Out)
    (next : Out -> Proc I Out')
    (last : Out' -> Proc I Out'') :
    (proc >>= next) >>= last = proc >>= fun out => next out >>= last := by
  induction proc with
  | ret out => rfl
  | throw error => rfl
  | send peer data rest inductionHypothesis =>
      rw [send_bind, send_bind, send_bind, inductionHypothesis]
  | recv peer count rest inductionHypothesis =>
      rw [recv_bind, recv_bind, recv_bind]
      congr
      funext data
      exact inductionHypothesis data
  | join first peer call rest inductionHypothesis =>
      rw [join_bind, join_bind, join_bind]
      congr
      funext result
      exact inductionHypothesis result

instance : LawfulMonad (Proc I) :=
  LawfulMonad.mk' (Proc I) bind_ret (fun _ _ => rfl) bind_assoc

end Proc

/-- Send `data` to a peer. -/
def send (peer : I.Party) (data : List I.Sym) : Proc I Unit :=
  .send peer data (.ret ())

/-- Wait for `count` symbols from a peer. -/
def recv (peer : I.Party) (count : Nat) : Proc I (List I.Sym) :=
  .recv peer count .ret

/-- Meet a peer; `first` tells the two roles apart. -/
def join (first : Bool) (peer : I.Party) (call : I.Call) : Proc I I.Res :=
  .join first peer call .ret

/-- Stop with an exception. -/
def throw (error : I.Err) : Proc I Out := .throw error

/-! ## Steps -/

/-- All parties and what is in flight from one party to another. -/
@[ext]
structure Config (I : Signature) (Out : Type) where
  procs : I.Party -> Proc I Out
  chan : I.Party × I.Party -> List I.Sym

section

variable [DecidableEq I.Party]

/-- A step of party `p`.  A joint computation is a step of its first party; it
needs both channels between the two to be drained. -/
inductive Step (p : I.Party) (c : Config I Out) : Config I Out -> Prop
  | send (isNext : c.procs p = .send q data next) :
      Step p c
        { procs := Function.update c.procs p next
          chan := Function.update c.chan (p, q) (c.chan (p, q) ++ data) }
  | recv
      (isNext : c.procs p = .recv q count next)
      (available : count ≤ (c.chan (q, p)).length) :
      Step p c
        { procs := Function.update c.procs p
            (next ((c.chan (q, p)).take count))
          chan := Function.update c.chan (q, p)
            ((c.chan (q, p)).drop count) }
  | join
      (isFirst : c.procs p = .join true q call next)
      (isSecond : c.procs q = .join false p call' next')
      (drained : c.chan (p, q) = [] ∧ c.chan (q, p) = [])
      (agreed : I.meaning call call' = some (result, result')) :
      Step p c
        { procs := Function.update (Function.update c.procs p (next result))
            q (next' result')
          chan := c.chan }

/-- The next action of a party is determined. -/
theorem Step.deterministic
    {c left right : Config I Out}
    (first : Step p c left)
    (second : Step p c right) : left = right := by
  cases first with
  | send isNext =>
      cases second with
      | send isNext' => simp_all
      | recv isNext' _ => simp_all
      | join isFirst _ _ _ => simp_all
  | recv isNext _ =>
      cases second with
      | send isNext' => simp_all
      | recv isNext' _ => simp_all
      | join isFirst _ _ _ => simp_all
  | join isFirst isSecond _ agreed =>
      cases second with
      | send isNext' => simp_all
      | recv isNext' _ => simp_all
      | join isFirst' isSecond' _ agreed' => simp_all

theorem Step.of_eq
    {c d e : Config I Out}
    (step : Step p c d)
    (same : d = e) : Step p c e :=
  same ▸ step

/-- Two sends use different channels. -/
private theorem send_send
    {c : Config I Out}
    (different : p ≠ q)
    (isNext : c.procs p = .send x data next)
    (isNext' : c.procs q = .send y data' next') :
    ∃ d,
      Step q
        { procs := Function.update c.procs p next
          chan := Function.update c.chan (p, x) (c.chan (p, x) ++ data) } d ∧
      Step p
        { procs := Function.update c.procs q next'
          chan := Function.update c.chan (q, y) (c.chan (q, y) ++ data') }
        d := by
  refine ⟨_, Step.send (by simpa [Ne.symm different] using isNext'),
    (Step.send (by simpa [different] using isNext)).of_eq ?_⟩
  simp only [Config.mk.injEq]
  refine ⟨Function.update_comm (Ne.symm different) _ _ _, ?_⟩
  have channels : (p, x) ≠ (q, y) := by simp [different]
  rw [Function.update_of_ne channels, Function.update_of_ne channels.symm,
    Function.update_comm channels.symm]

/-- Appending to a channel does not change what can be read from it. -/
private theorem send_recv
    {c : Config I Out}
    (different : p ≠ q)
    (isNext : c.procs p = .send x data next)
    (isNext' : c.procs q = .recv y count next')
    (available : count ≤ (c.chan (y, q)).length) :
    ∃ d,
      Step q
        { procs := Function.update c.procs p next
          chan := Function.update c.chan (p, x) (c.chan (p, x) ++ data) } d ∧
      Step p
        { procs := Function.update c.procs q
            (next' ((c.chan (y, q)).take count))
          chan := Function.update c.chan (y, q)
            ((c.chan (y, q)).drop count) }
        d := by
  by_cases same : (p, x) = (y, q)
  · obtain ⟨rfl, rfl⟩ := Prod.mk.inj same
    refine ⟨_, Step.recv (by simpa [Ne.symm different] using isNext')
        (by simp only [Function.update_self, List.length_append]; omega),
      (Step.send (by simpa [different] using isNext)).of_eq ?_⟩
    simp only [Config.mk.injEq, Function.update_self,
      List.take_append_of_le_length available,
      List.drop_append_of_le_length available, Function.update_idem]
    exact ⟨Function.update_comm (Ne.symm different) _ _ _, trivial⟩
  · have unread := Function.update_of_ne (Ne.symm same)
      (c.chan (p, x) ++ data) c.chan
    refine ⟨_, Step.recv (by simpa [Ne.symm different] using isNext')
        (by simpa only [unread] using available),
      (Step.send (by simpa [different] using isNext)).of_eq ?_⟩
    simp only [Config.mk.injEq, unread, Function.update_of_ne same]
    exact ⟨Function.update_comm (Ne.symm different) _ _ _,
      Function.update_comm (Ne.symm same) _ _ _⟩

/-- Two receives use different channels. -/
private theorem recv_recv
    {c : Config I Out}
    (different : p ≠ q)
    (isNext : c.procs p = .recv x count next)
    (available : count ≤ (c.chan (x, p)).length)
    (isNext' : c.procs q = .recv y count' next')
    (available' : count' ≤ (c.chan (y, q)).length) :
    ∃ d,
      Step q
        { procs := Function.update c.procs p
            (next ((c.chan (x, p)).take count))
          chan := Function.update c.chan (x, p)
            ((c.chan (x, p)).drop count) } d ∧
      Step p
        { procs := Function.update c.procs q
            (next' ((c.chan (y, q)).take count'))
          chan := Function.update c.chan (y, q)
            ((c.chan (y, q)).drop count') }
        d := by
  have channels : (x, p) ≠ (y, q) := by simp [different]
  have unread := Function.update_of_ne channels
    ((c.chan (y, q)).drop count') c.chan
  have unread' := Function.update_of_ne channels.symm
    ((c.chan (x, p)).drop count) c.chan
  refine ⟨_, Step.recv (by simpa [Ne.symm different] using isNext')
      (by simpa only [unread'] using available'),
    (Step.recv (by simpa [different] using isNext)
      (by simpa only [unread] using available)).of_eq ?_⟩
  simp only [Config.mk.injEq, unread, unread']
  exact ⟨Function.update_comm (Ne.symm different) _ _ _,
    Function.update_comm channels.symm _ _ _⟩

/-- A party outside a meeting does not use its channels. -/
private theorem send_join
    {c : Config I Out}
    (different : p ≠ q)
    (isNext : c.procs p = .send x data next)
    (isFirst : c.procs q = .join true y call next')
    (isSecond : c.procs y = .join false q call' next'')
    (drained : c.chan (q, y) = [] ∧ c.chan (y, q) = [])
    (agreed : I.meaning call call' = some (result, result')) :
    ∃ d,
      Step q
        { procs := Function.update c.procs p next
          chan := Function.update c.chan (p, x) (c.chan (p, x) ++ data) } d ∧
      Step p
        { procs := Function.update (Function.update c.procs q (next' result))
            y (next'' result')
          chan := c.chan }
        d := by
  have outside : p ≠ y := by
    rintro rfl
    rw [isNext] at isSecond
    cases isSecond
  refine ⟨_, Step.join (by simpa [Ne.symm different] using isFirst)
      (by simpa [Ne.symm outside] using isSecond)
      (by simpa [Ne.symm different, Ne.symm outside] using drained) agreed,
    (Step.send (by simpa [different, outside] using isNext)).of_eq ?_⟩
  simp only [Config.mk.injEq]
  exact ⟨by rw [Function.update_comm outside.symm,
    Function.update_comm different.symm], trivial⟩

private theorem recv_join
    {c : Config I Out}
    (different : p ≠ q)
    (isNext : c.procs p = .recv x count next)
    (available : count ≤ (c.chan (x, p)).length)
    (isFirst : c.procs q = .join true y call next')
    (isSecond : c.procs y = .join false q call' next'')
    (drained : c.chan (q, y) = [] ∧ c.chan (y, q) = [])
    (agreed : I.meaning call call' = some (result, result')) :
    ∃ d,
      Step q
        { procs := Function.update c.procs p
            (next ((c.chan (x, p)).take count))
          chan := Function.update c.chan (x, p)
            ((c.chan (x, p)).drop count) } d ∧
      Step p
        { procs := Function.update (Function.update c.procs q (next' result))
            y (next'' result')
          chan := c.chan }
        d := by
  have outside : p ≠ y := by
    rintro rfl
    rw [isNext] at isSecond
    cases isSecond
  refine ⟨_, Step.join (by simpa [Ne.symm different] using isFirst)
      (by simpa [Ne.symm outside] using isSecond)
      (by simpa [Ne.symm different, Ne.symm outside] using drained) agreed,
    (Step.recv (by simpa [different, outside] using isNext)
      (by exact available)).of_eq ?_⟩
  simp only [Config.mk.injEq]
  exact ⟨by rw [Function.update_comm outside.symm,
    Function.update_comm different.symm], trivial⟩

/-- Two meetings with different first parties are between four parties. -/
private theorem join_join
    {c : Config I Out}
    (different : p ≠ q)
    (isFirst : c.procs p = .join true x call next)
    (isSecond : c.procs x = .join false p call' next')
    (drained : c.chan (p, x) = [] ∧ c.chan (x, p) = [])
    (agreed : I.meaning call call' = some (result, result'))
    (isFirst₂ : c.procs q = .join true y call₂ next₂)
    (isSecond₂ : c.procs y = .join false q call₂' next₂')
    (drained₂ : c.chan (q, y) = [] ∧ c.chan (y, q) = [])
    (agreed₂ : I.meaning call₂ call₂' = some (result₂, result₂')) :
    ∃ d,
      Step q
        { procs := Function.update (Function.update c.procs p (next result))
            x (next' result')
          chan := c.chan } d ∧
      Step p
        { procs := Function.update (Function.update c.procs q (next₂ result₂))
            y (next₂' result₂')
          chan := c.chan }
        d := by
  have qOutside : q ≠ x := by
    rintro rfl
    rw [isFirst₂] at isSecond
    cases isSecond
  have pOutside : p ≠ y := by
    rintro rfl
    rw [isFirst] at isSecond₂
    cases isSecond₂
  have seconds : x ≠ y := by
    rintro rfl
    rw [isSecond] at isSecond₂
    cases isSecond₂
    exact different rfl
  refine ⟨_, Step.join
      (by simpa [qOutside, Ne.symm different] using isFirst₂)
      (by simpa [Ne.symm seconds, Ne.symm pOutside] using isSecond₂)
      drained₂ agreed₂,
    (Step.join (by simpa [pOutside, different] using isFirst)
      (by simpa [seconds, Ne.symm qOutside] using isSecond)
      (by exact drained) agreed).of_eq ?_⟩
  simp only [Config.mk.injEq]
  exact ⟨by rw [Function.update_comm pOutside.symm,
    Function.update_comm seconds.symm, Function.update_comm different.symm,
    Function.update_comm qOutside], trivial⟩

/-- Steps of different parties can be taken in either order. -/
theorem Step.commute
    {c left right : Config I Out}
    (different : p ≠ q)
    (first : Step p c left)
    (second : Step q c right) :
    ∃ d, Step q left d ∧ Step p right d := by
  cases first with
  | send isNext =>
      cases second with
      | send isNext' => exact send_send different isNext isNext'
      | recv isNext' available =>
          exact send_recv different isNext isNext' available
      | join isFirst isSecond drained agreed =>
          exact send_join different isNext isFirst isSecond drained agreed
  | recv isNext available =>
      cases second with
      | send isNext' =>
          obtain ⟨d, taken, taken'⟩ :=
            send_recv (Ne.symm different) isNext' isNext available
          exact ⟨d, taken', taken⟩
      | recv isNext' available' =>
          exact recv_recv different isNext available isNext' available'
      | join isFirst isSecond drained agreed =>
          exact recv_join different isNext available isFirst isSecond drained
            agreed
  | join isFirst isSecond drained agreed =>
      cases second with
      | send isNext' =>
          obtain ⟨d, taken, taken'⟩ := send_join (Ne.symm different) isNext'
            isFirst isSecond drained agreed
          exact ⟨d, taken', taken⟩
      | recv isNext' available' =>
          obtain ⟨d, taken, taken'⟩ := recv_join (Ne.symm different) isNext'
            available' isFirst isSecond drained agreed
          exact ⟨d, taken', taken⟩
      | join isFirst' isSecond' drained' agreed' =>
          exact join_join different isFirst isSecond drained agreed isFirst'
            isSecond' drained' agreed'

/-! ## Runs -/

/-- A run of `length` steps, under any schedule. -/
inductive Run : Nat -> Config I Out -> Config I Out -> Prop
  | refl (c : Config I Out) : Run 0 c c
  | step (party : I.Party) (first : Step party c d) (rest : Run length d e) :
      Run (length + 1) c e

/-- The party has returned, or ended with an exception. -/
def Proc.Ended : Proc I Out -> Prop
  | .ret _ => True
  | .throw _ => True
  | _ => False

/-- A party that has ended does not move. -/
theorem Step.of_ended
    {c d : Config I Out}
    (ended : (c.procs p).Ended) : ¬ Step p c d := by
  intro step
  cases step with
  | send isNext => rwa [isNext] at ended
  | recv isNext _ => rwa [isNext] at ended
  | join isFirst _ _ _ => rwa [isFirst] at ended

/-- An exception stays. -/
theorem Step.throw
    {c d : Config I Out}
    (step : Step q c d)
    (failed : c.procs p = .throw error) : d.procs p = .throw error := by
  cases step with
  | send isNext =>
      have other : p ≠ q := by
        rintro rfl
        simp [failed] at isNext
      simpa [Function.update_of_ne other] using failed
  | recv isNext _ =>
      have other : p ≠ q := by
        rintro rfl
        simp [failed] at isNext
      simpa [Function.update_of_ne other] using failed
  | @join peer _ _ _ _ _ _ isFirst isSecond _ _ =>
      have other : p ≠ q := by
        rintro rfl
        simp [failed] at isFirst
      have other' : p ≠ peer := by
        rintro rfl
        simp [failed] at isSecond
      simpa [Function.update_of_ne other, Function.update_of_ne other'] using
        failed

theorem Run.throw
    {c d : Config I Out}
    (run : Run length c d)
    (failed : c.procs p = .throw error) : d.procs p = .throw error := by
  induction run with
  | refl => exact failed
  | step party first rest inductionHypothesis =>
      exact inductionHypothesis (first.throw failed)

/-- No party can move. -/
def Stuck (c : Config I Out) : Prop :=
  ∀ party d, ¬ Step party c d

theorem Run.trans
    {c d e : Config I Out}
    (first : Run m c d)
    (second : Run n d e) : Run (m + n) c e := by
  induction first with
  | refl => rwa [Nat.zero_add]
  | step party first rest inductionHypothesis =>
      rw [Nat.add_right_comm]
      exact .step party first (inductionHypothesis second)

/-- After one step out of a completed run, the rest of the run is one step
shorter. -/
theorem Run.after_step
    {c d final : Config I Out}
    (run : Run length c final)
    (stuck : Stuck final)
    (step : Step p c d) :
    ∃ rest, length = rest + 1 ∧ Run rest d final := by
  induction run generalizing d p with
  | refl c => exact absurd step (stuck p d)
  | step party first rest inductionHypothesis =>
      by_cases same : p = party
      · subst p
        obtain rfl := step.deterministic first
        exact ⟨_, rfl, rest⟩
      · obtain ⟨both, taken, taken'⟩ :=
          Step.commute (Ne.symm same) first step
        obtain ⟨remaining, count, finish⟩ := inductionHypothesis stuck taken
        exact ⟨remaining + 1, by omega, .step party taken' finish⟩

/-- One run to a stuck configuration decides all runs: each is a part of a run
of the same length to the same configuration. -/
theorem Run.complete
    {c d final : Config I Out}
    (run : Run length c final)
    (stuck : Stuck final)
    (other : Run steps c d) :
    ∃ rest, length = steps + rest ∧ Run rest d final := by
  induction other generalizing length with
  | refl c => exact ⟨length, by omega, run⟩
  | step party first rest inductionHypothesis =>
      obtain ⟨remaining, count, finish⟩ := run.after_step stuck first
      obtain ⟨left, count', finish'⟩ := inductionHypothesis finish
      exact ⟨left, by omega, finish'⟩

/-- Every party has returned and every channel is drained. -/
def returned (out : I.Party -> Out) : Config I Out where
  procs party := .ret (out party)
  chan _ := []

theorem stuck_returned (out : I.Party -> Out) :
    Stuck (returned out : Config I Out) := by
  intro party d step
  cases step with
  | send isNext => cases isNext
  | recv isNext _ => cases isNext
  | join isFirst _ _ _ => cases isFirst

/-! ## Groups of parties -/

/-- All parties at the start of their programs, nothing in flight. -/
def start (procs : I.Party -> Proc I Out) : Config I Out where
  procs := procs
  chan _ := []

/-- One message, sent and received while nothing else is in flight. -/
theorem Run.transfer
    (p q : I.Party)
    {procs : I.Party -> Proc I Out}
    (different : p ≠ q)
    (sender : procs p = .send q data next)
    (receiver : procs q = .recv p count next')
    (size : data.length = count) :
    Run 2 (start procs) (start (Function.update
      (Function.update procs p next) q (next' data))) := by
  have sent : (Function.update (fun _ => []) (p, q) ([] ++ data) :
      I.Party × I.Party -> List I.Sym) (p, q) = data := by
    simp
  refine .step p (.send sender) (.step q ?_ (.refl _))
  refine (Step.recv (by
    simpa [start, Function.update_of_ne (Ne.symm different)] using receiver)
    (by simp only [start, sent, size]; exact Nat.le_refl _)).of_eq ?_
  simp only [start, sent, ← size, List.take_length, List.drop_length,
    Function.update_idem, Config.mk.injEq, true_and]
  exact Function.update_eq_self (p, q) fun _ => []

/-- One joint computation while nothing is in flight. -/
theorem Run.meet
    (p q : I.Party)
    {procs : I.Party -> Proc I Out}
    (isFirst : procs p = .join true q call next)
    (isSecond : procs q = .join false p call' next')
    (agreed : I.meaning call call' = some (result, result')) :
    Run 1 (start procs) (start (Function.update
      (Function.update procs p (next result)) q (next' result'))) :=
  .step p (.join isFirst isSecond ⟨rfl, rfl⟩ agreed) (.refl _)

theorem Run.of_procs_eq
    {procs procs' : I.Party -> Proc I Out}
    (same : ∀ party, procs party = procs' party) :
    Run 0 (start procs) (start procs') := by
  rw [funext same]
  exact .refl _

/-- Run together, the programs return `out` and drain their channels, whatever
the parties go on with. -/
def Completes
    {Out : I.Party -> Type}
    (procs : ∀ party, Proc I (Out party))
    (out : ∀ party, Out party) : Prop :=
  ∀ (Out' : Type) (next : ∀ party, Out party -> Proc I Out'), ∃ length,
    Run length (start fun party => procs party >>= next party)
      (start fun party => next party (out party))

theorem Completes.pure
    {Out : I.Party -> Type}
    (out : ∀ party, Out party) :
    Completes (I := I) (fun party => Pure.pure (out party)) out :=
  fun _ _ => ⟨0, .refl _⟩

/-- Sequential composition of groups. -/
theorem Completes.bind
    {Out Out' : I.Party -> Type}
    {procs : ∀ party, Proc I (Out party)}
    {out : ∀ party, Out party}
    {next : ∀ party, Out party -> Proc I (Out' party)}
    {out' : ∀ party, Out' party}
    (first : Completes procs out)
    (second : Completes (fun party => next party (out party)) out') :
    Completes (fun party => procs party >>= next party) out' := by
  intro Out'' last
  obtain ⟨m, run⟩ := first Out'' fun party result =>
    next party result >>= last party
  obtain ⟨n, run'⟩ := second Out'' last
  refine ⟨m + n, Run.trans ?_ run'⟩
  simp only [Proc.bind_assoc]
  exact run

/-- Whatever the schedule, a completing group never gets stuck early and ends
with every party having returned its result. -/
theorem Completes.every_run
    {procs : I.Party -> Proc I Out}
    {out : I.Party -> Out}
    (completes : Completes procs out) :
    ∃ length, ∀ steps d, Run steps (start procs) d ->
      ∃ rest, length = steps + rest ∧ Run rest d (returned out) := by
  obtain ⟨length, run⟩ := completes Out fun _ => Proc.ret
  simp only [Proc.bind_ret] at run
  exact ⟨length, fun steps d other =>
    Run.complete run (stuck_returned out) other⟩

/-- A group completes with one family of results. -/
theorem Completes.unique
    {procs : I.Party -> Proc I Out}
    {out out' : I.Party -> Out}
    (first : Completes procs out)
    (second : Completes procs out') : out = out' := by
  obtain ⟨length, complete⟩ := first.every_run
  obtain ⟨steps, run⟩ := second Out fun _ => Proc.ret
  simp only [Proc.bind_ret] at run
  obtain ⟨rest, -, finish⟩ := complete steps _ run
  generalize reached : returned out = d at finish
  cases finish with
  | refl =>
      funext party
      have same := congrFun (congrArg Config.procs reached) party
      exact Proc.ret.inj same
  | step party step _ => exact absurd step (stuck_returned out' party _)

/-! ## Exchanges -/

section Exchange

variable (peer source : I.Party -> I.Party)
variable (data : I.Party -> List I.Sym) (count : I.Party -> Nat)
variable (next : I.Party -> List I.Sym -> Proc I Out)

/-- The parties in `done` have sent. -/
private def sentBy
    (peer source : I.Party -> I.Party)
    (data : I.Party -> List I.Sym)
    (count : I.Party -> Nat)
    (next : I.Party -> List I.Sym -> Proc I Out)
    (done : Finset I.Party) : Config I Out where
  procs party :=
    if party ∈ done then .recv (source party) (count party) (next party)
    else .send (peer party) (data party)
      (.recv (source party) (count party) (next party))
  chan pair :=
    if pair.1 ∈ done ∧ pair.2 = peer pair.1 then data pair.1 else []

/-- Everyone has sent and the parties in `done` have received. -/
private def receivedBy
    (peer source : I.Party -> I.Party)
    (data : I.Party -> List I.Sym)
    (count : I.Party -> Nat)
    (next : I.Party -> List I.Sym -> Proc I Out)
    (done : Finset I.Party) : Config I Out where
  procs party :=
    if party ∈ done then next party (data (source party))
    else .recv (source party) (count party) (next party)
  chan pair :=
    if pair.2 ∉ done ∧ pair.2 = peer pair.1 then data pair.1 else []

private theorem run_sentBy (done : Finset I.Party) :
    ∃ length, Run length (sentBy peer source data count next ∅)
      (sentBy peer source data count next done) := by
  induction done using Finset.induction_on with
  | empty => exact ⟨0, .refl _⟩
  | insert party done absent inductionHypothesis =>
      obtain ⟨length, run⟩ := inductionHypothesis
      refine ⟨length + 1, run.trans (.step party ?_ (.refl _))⟩
      refine (Step.send (by simp only [sentBy, if_neg absent]; rfl)).of_eq ?_
      simp only [sentBy, Config.mk.injEq]
      constructor
      · funext other
        by_cases same : other = party
        · subst other
          simp
        · simp [same]
      · funext pair
        by_cases same : pair = (party, peer party)
        · subst pair
          simp [absent]
        · rw [Function.update_of_ne same]
          by_cases sender : pair.1 = party
          · have receiver : pair.2 ≠ peer pair.1 := by
              rintro receiver
              exact same (Prod.ext sender (by rw [receiver, sender]))
            simp [receiver]
          · simp [sender]

private theorem run_receivedBy
    (sourcePeer : ∀ party, source (peer party) = party)
    (peerSource : ∀ party, peer (source party) = party)
    (sizes : ∀ party, (data (source party)).length = count party)
    (done : Finset I.Party) :
    ∃ length, Run length (receivedBy peer source data count next ∅)
      (receivedBy peer source data count next done) := by
  induction done using Finset.induction_on with
  | empty => exact ⟨0, .refl _⟩
  | insert party done absent inductionHypothesis =>
      obtain ⟨length, run⟩ := inductionHypothesis
      refine ⟨length + 1, run.trans (.step party ?_ (.refl _))⟩
      have waiting : (receivedBy peer source data count next done).chan
          (source party, party) = data (source party) := by
        simp [receivedBy, absent, peerSource]
      refine (Step.recv (by simp only [receivedBy, if_neg absent]; rfl)
        (by rw [waiting, sizes])).of_eq ?_
      rw [waiting, ← sizes party, List.take_length, List.drop_length]
      simp only [receivedBy, Config.mk.injEq]
      constructor
      · funext other
        by_cases same : other = party
        · subst other
          simp
        · simp [same]
      · funext pair
        by_cases same : pair = (source party, party)
        · subst pair
          simp
        · rw [Function.update_of_ne same]
          by_cases receiver : pair.2 = party
          · have sender : pair.2 ≠ peer pair.1 := by
              rintro sender
              refine same (Prod.ext ?_ receiver)
              rw [← receiver, sender, sourcePeer]
            simp [sender]
          · simp [receiver]

/-- Every party sends to its peer and then waits for the party that sends to
it. -/
theorem completes_exchange
    [Fintype I.Party]
    (peer source : I.Party -> I.Party)
    (data : I.Party -> List I.Sym)
    (count : I.Party -> Nat)
    (sourcePeer : ∀ party, source (peer party) = party)
    (peerSource : ∀ party, peer (source party) = party)
    (sizes : ∀ party, (data (source party)).length = count party) :
    Completes
      (fun party => do
        send (I := I) (peer party) (data party)
        recv (source party) (count party))
      (fun party => data (source party)) := by
  intro Out' next
  obtain ⟨m, sending⟩ := run_sentBy peer source data count next Finset.univ
  obtain ⟨n, receiving⟩ := run_receivedBy peer source data count next
    sourcePeer peerSource sizes Finset.univ
  refine ⟨m + n, ?_⟩
  have middle : sentBy peer source data count next Finset.univ =
      receivedBy peer source data count next ∅ := by
    simp [sentBy, receivedBy]
  rw [middle] at sending
  have whole := sending.trans receiving
  have first : sentBy peer source data count next ∅ =
      start fun party => (do
        send (I := I) (peer party) (data party)
        recv (source party) (count party)) >>= next party := by
    simp only [sentBy, start, Config.mk.injEq]
    constructor
    · funext party
      rfl
    · simp
  have last : receivedBy peer source data count next Finset.univ =
      start fun party => next party (data (source party)) := by
    simp [receivedBy, start]
  rwa [first, last] at whole

end Exchange

end

end Network
