import Mathlib.Logic.Relation
import Mpmt.Library.Dict
import Mpmt.Library.Effects

/-!
# Threads over a shared state

A system runs any number of threads.  Each thread is a program whose commands
act on one shared state; the threads take turns in any order, a command at a
time.  The environment starts further threads and may stop the whole process,
of which only a part of the state survives.

A contract says what a step of a thread may do to the state.  A thread that
keeps the contract whatever the others do, as long as they keep it too, is
verified on its own; the theorems at the end put the threads together again.
-/

namespace Threads

open Effects

/-- What a command did: its answer, the state behind it and the thread that it
started. -/
structure Done (I : Interface) (E S Task : Type) (cmd : I.Cmd) where
  reply : Except E (I.Reply cmd)
  state : S
  started : Option Task

/-- A system of threads.  `perform tid fresh choice cmd` is what `cmd` does in
thread `tid`; `choice` settles what the environment decides, and `fresh` is the
identity of a thread that the command starts. -/
structure System (I : Interface) (E S Task Choice : Type) where
  perform : Nat -> Nat -> Choice -> (cmd : I.Cmd) -> S -> Option (Done I E S Task cmd)
  program : Task -> Prog I Empty E Unit
  /-- The threads that the environment may start. -/
  arrives : S -> Task -> Bool
  /-- What is left of the state when the process is started again. -/
  restart : S -> S
  /-- The first thread of a process. -/
  main : Task

variable {I : Interface} {E S Task Choice : Type}

/-- A command that a thread gave, with the answer. -/
structure Event (I : Interface) (E : Type) where
  tid : Nat
  cmd : I.Cmd
  reply : Except E (I.Reply cmd)

/-- What a step of the system was. -/
inductive Label (I : Interface) (E Task : Type)
  | did (event : Event I E)
  | arrived (task : Task)
  | restarted

/-- The process is started again. -/
def Label.restarts : Label I E Task -> Bool
  | .restarted => true
  | _ => false

/-- The shared state and what every thread has still to do.  No thread has an
identity from `next` on. -/
structure Config (I : Interface) (E S : Type) where
  state : S
  threads : Dict Nat (Prog I Empty E Unit)
  next : Nat

/-- What the environment decides about a step. -/
inductive Act (Task Choice : Type)
  | run (tid : Nat) (choice : Choice)
  | arrive (task : Task)
  | restart

namespace Config

/-- Start a thread. -/
def start (sys : System I E S Task Choice) (c : Config I E S) (task : Task) :
    Config I E S where
  state := c.state
  threads := c.threads.set c.next (sys.program task)
  next := c.next + 1

/-- Start a thread, if there is one to start. -/
def startAll (sys : System I E S Task Choice) (c : Config I E S) :
    Option Task -> Config I E S
  | none => c
  | some task => c.start sys task

/-- A process that begins with the state `s`. -/
def boot (sys : System I E S Task Choice) (s : S) : Config I E S :=
  start sys ⟨s, ∅, 0⟩ sys.main

/-- How a program goes on behind a command. -/
def resume
    {cmd : I.Cmd}
    (next : I.Reply cmd -> Prog I Empty E Unit)
    (failed : E -> Prog I Empty E Unit) :
    Except E (I.Reply cmd) -> Prog I Empty E Unit
  | .ok reply => next reply
  | .error error => failed error

/-- One step of the system. -/
def step? (sys : System I E S Task Choice) (c : Config I E S) :
    Act Task Choice -> Option (Label I E Task × Config I E S)
  | .run tid choice =>
      match c.threads.get? tid with
      | some (.call cmd next failed) =>
          match sys.perform tid c.next choice cmd c.state with
          | some done => some (.did ⟨tid, cmd, done.reply⟩,
              startAll sys ⟨done.state,
                c.threads.set tid (resume next failed done.reply), c.next⟩
                done.started)
          | none => none
      | _ => none
  | .arrive task =>
      if sys.arrives c.state task then some (.arrived task, c.start sys task)
      else none
  | .restart => some (.restarted, boot sys (sys.restart c.state))

end Config

/-- A step and the states around it. -/
structure Moment (I : Interface) (E S Task : Type) where
  before : S
  label : Label I E Task
  after : S

/-- An element of a list with one more at the end is that one or stands before
it. -/
theorem split_snoc
    {trace past future : List α}
    (split : trace ++ [last] = past ++ moment :: future) :
    past = trace ∧ moment = last ∧ future = [] ∨
      ∃ future', trace = past ++ moment :: future' ∧ future = future' ++ [last] := by
  rcases List.eq_nil_or_concat future with rfl | ⟨future', last', rfl⟩
  · obtain ⟨same, singles⟩ := List.append_inj' split rfl
    exact .inl ⟨same.symm, (List.singleton_inj.mp singles).symm, rfl⟩
  · rw [List.concat_eq_append, ← List.cons_append, ← List.append_assoc] at split
    obtain ⟨same, singles⟩ := List.append_inj' split rfl
    refine .inr ⟨future', same, ?_⟩
    rw [List.concat_eq_append, singles]

section Runs

variable (sys : System I E S Task Choice)

/-- The system can take a step. -/
def Step (c : Config I E S) (label : Label I E Task) (c' : Config I E S) : Prop :=
  ∃ act, c.step? sys act = some (label, c')

/-- A run from `c` with the moments `trace`. -/
inductive Run (c : Config I E S) :
    List (Moment I E S Task) -> Config I E S -> Prop
  | start : Run c [] c
  | step
      (run : Run c trace c')
      (step : Step sys c' label c'') :
      Run c (trace ++ [⟨c'.state, label, c''.state⟩]) c''

/-- Take the steps that a list of decisions leads to. -/
def drive (c : Config I E S) :
    List (Act Task Choice) -> Option (List (Moment I E S Task) × Config I E S)
  | [] => some ([], c)
  | act :: rest =>
      match c.step? sys act with
      | some (label, c') =>
          match drive c' rest with
          | some (trace, last) =>
              some (⟨c.state, label, c'.state⟩ :: trace, last)
          | none => none
      | none => none

/-- A thread takes a step for each choice. -/
def turns (tid : Nat) (choices : List Choice) : List (Act Task Choice) :=
  choices.map (.run tid)

variable {sys}

/-- A run can be followed by another one. -/
theorem Run.append
    (first : Run sys c trace c')
    (second : Run sys c' trace' c'') : Run sys c (trace ++ trace') c'' := by
  induction second with
  | start => rwa [List.append_nil]
  | step run step inductionHypothesis =>
      rw [← List.append_assoc]
      exact .step inductionHypothesis step

theorem Run.single (step : Step sys c label c') :
    Run sys c [⟨c.state, label, c'.state⟩] c' :=
  .step .start step

/-- What is driven is a run. -/
theorem Run.of_drive
    {acts : List (Act Task Choice)}
    (driven : drive sys c acts = some (trace, last)) : Run sys c trace last := by
  induction acts generalizing c trace with
  | nil =>
      cases driven
      exact .start
  | cons act rest inductionHypothesis =>
      rw [drive] at driven
      split at driven
      · next label c' step =>
          split at driven
          · next trace' last' more =>
              cases driven
              exact (Run.single ⟨act, step⟩).append (inductionHypothesis more)
          · cases driven
      · cases driven

/-- A run up to one of its moments, the step and the rest. -/
theorem Run.split
    (run : Run sys c (past ++ moment :: since) c') :
    ∃ c₁ label c₂, Run sys c past c₁ ∧ Step sys c₁ label c₂ ∧
      moment = ⟨c₁.state, label, c₂.state⟩ ∧ Run sys c₂ since c' := by
  generalize whole : past ++ moment :: since = trace at run
  induction run generalizing since with
  | start => exact absurd whole (by simp)
  | @step _ before label after run step inductionHypothesis =>
      rcases split_snoc whole.symm with ⟨rfl, rfl, rfl⟩ | ⟨since', rfl, rfl⟩
      · exact ⟨before, label, after, run, step, rfl, .start⟩
      · obtain ⟨c₁, label', c₂, first, step', same, rest⟩ := inductionHypothesis rfl
        exact ⟨c₁, label', c₂, first, step', same, rest.step step⟩

/-- What a step does to the state. -/
theorem Step.changes (step : Step sys c label c') :
    match label with
    | .did event => ∃ choice fresh done,
        sys.perform event.tid fresh choice event.cmd c.state = some done ∧
          done.reply = event.reply ∧ done.state = c'.state
    | .arrived _ => c'.state = c.state
    | .restarted => c'.state = sys.restart c.state := by
  obtain ⟨act, step⟩ := step
  cases act with
  | run tid choice =>
      rw [Config.step?] at step
      split at step
      · split at step
        · next done performed =>
            cases step
            refine ⟨choice, c.next, done, performed, rfl, ?_⟩
            cases done.started <;> rfl
        · cases step
      · cases step
  | arrive task =>
      rw [Config.step?] at step
      split at step
      · cases step
        rfl
      · cases step
  | restart =>
      cases step
      rfl

theorem Run.driven
    {acts : List (Act Task Choice)}
    (there : (drive sys c acts).isSome = true) :
    Run sys c ((drive sys c acts).get there).1 ((drive sys c acts).get there).2 :=
  .of_drive (Option.some_get there).symm

end Runs

/-! ## Contracts -/

/-- What every thread of a system keeps.  `G` holds variables that only the
argument needs: no program reads them, and a step may set them at will within
the contract. -/
structure Contract (sys : System I E S Task Choice) (G : Type) where
  /-- What holds between any two steps. -/
  Inv : S × G -> Prop
  /-- What a step may do. -/
  Guar : Event I E -> S × G -> S × G -> Prop
  /-- What a thread may count on when it is started. -/
  Pre : Task -> Nat -> S × G -> Prop
  /-- The variables of a new process. -/
  fresh : S × G -> G
  /-- No identity from a number on has been used. -/
  Young : Nat -> S × G -> Prop := fun _ _ => True

namespace Contract

variable {sys : System I E S Task Choice} {G : Type} (K : Contract sys G)

/-- A step of another thread than `tid`. -/
def Others (tid : Nat) (x x' : S × G) : Prop :=
  K.Inv x ∧ ∃ event, event.tid ≠ tid ∧ K.Guar event x x'

/-- Any number of steps of other threads than `tid`. -/
def Rely (tid : Nat) : S × G -> S × G -> Prop :=
  Relation.ReflTransGen (K.Others tid)

/-- Other threads than `tid` do not invalidate `P`. -/
def Stable (tid : Nat) (P : S × G -> Prop) : Prop :=
  ∀ x x' event, K.Inv x -> event.tid ≠ tid -> K.Guar event x x' -> P x -> P x'

/-- A thread that `tid` starts would be new. -/
structure Unused (tid fresh : Nat) (x : S × G) : Prop where
  later : tid < fresh
  young : K.Young fresh x

/-- The thread `tid` can run `prog` from `x` within the contract, whatever the
other threads do within it, and ends with `Q`. -/
def wp (tid : Nat) : Prog I Empty E Out -> (Except E Out -> S × G -> Prop) ->
    S × G -> Prop
  | .ret out, Q, x => ∀ x', K.Rely tid x x' -> K.Inv x' -> Q (.ok out) x'
  | .raise error, Q, x => ∀ x', K.Rely tid x x' -> K.Inv x' -> Q (.error error) x'
  | .unfinished, _, _ => True
  | .get _, _, _ => True
  | .set _ _, _, _ => True
  | .call cmd next failed, Q, x =>
      ∀ x₁, K.Rely tid x x₁ -> K.Inv x₁ -> ∀ choice fresh done, K.Unused tid fresh x₁ ->
        sys.perform tid fresh choice cmd x₁.1 = some done ->
        ∃ g, K.Guar ⟨tid, cmd, done.reply⟩ x₁ (done.state, g) ∧
          (∀ task, done.started = some task -> K.Pre task fresh (done.state, g)) ∧
          match done.reply with
          | .ok reply => wp tid (next reply) Q (done.state, g)
          | .error error => wp tid (failed error) Q (done.state, g)

variable {K} {tid : Nat} {P : S × G -> Prop}

theorem rely_trans
    (first : K.Rely tid x x')
    (second : K.Rely tid x' x'') : K.Rely tid x x'' :=
  Relation.ReflTransGen.trans first second

theorem Stable.rely
    (stable : K.Stable tid P)
    (rely : K.Rely tid x x')
    (holds : P x) : P x' := by
  induction rely with
  | refl => exact holds
  | tail _ other inductionHypothesis =>
      obtain ⟨inv, event, different, guar⟩ := other
      exact stable _ _ event inv different guar inductionHypothesis

/-- Steps of other threads do not end what a thread can do. -/
theorem wp_rely
    {prog : Prog I Empty E Out}
    (verified : K.wp tid prog Q x)
    (rely : K.Rely tid x x') : K.wp tid prog Q x' := by
  cases prog with
  | ret out => exact fun x'' more => verified x'' (rely_trans rely more)
  | raise error => exact fun x'' more => verified x'' (rely_trans rely more)
  | unfinished => trivial
  | get next => trivial
  | set m next => trivial
  | call cmd next failed => exact fun x₁ more => verified x₁ (rely_trans rely more)

/-- What holds after any steps of other threads holds before them. -/
theorem wp_of_rely
    {prog : Prog I Empty E Out}
    (verified : ∀ x', K.Rely tid x x' -> K.Inv x' -> K.wp tid prog Q x') :
    K.wp tid prog Q x := by
  cases prog with
  | ret out => exact fun x' rely inv => verified x' rely inv x' .refl inv
  | raise error => exact fun x' rely inv => verified x' rely inv x' .refl inv
  | unfinished => trivial
  | get next => trivial
  | set m next => trivial
  | call cmd next failed => exact fun x₁ rely inv => verified x₁ rely inv x₁ .refl inv

theorem wp_mono
    {prog : Prog I Empty E Out}
    (verified : K.wp tid prog Q x)
    (weaker : ∀ out x', K.Inv x' -> Q out x' -> Q' out x') : K.wp tid prog Q' x := by
  induction prog generalizing x with
  | ret out => exact fun x' rely inv => weaker _ _ inv (verified x' rely inv)
  | raise error => exact fun x' rely inv => weaker _ _ inv (verified x' rely inv)
  | unfinished => trivial
  | get next => trivial
  | set m next => trivial
  | call cmd next failed inductionHypothesis inductionHypothesis' =>
      intro x₁ rely inv choice fresh done free performed
      obtain ⟨g, guar, started, rest⟩ := verified x₁ rely inv choice fresh done free performed
      refine ⟨g, guar, started, ?_⟩
      split
      · next reply same =>
          rw [same] at rest
          exact inductionHypothesis reply rest
      · next error same =>
          rw [same] at rest
          exact inductionHypothesis' error rest

theorem wp_bind
    {prog : Prog I Empty E Out}
    {next : Out -> Prog I Empty E Out'}
    (verified : K.wp tid prog (fun
      | .ok out, x' => K.wp tid (next out) Q x'
      | .error error, x' => Q (.error error) x') x) :
    K.wp tid (prog >>= next) Q x := by
  show K.wp tid (prog.bind next) Q x
  induction prog generalizing x with
  | ret out => exact wp_of_rely verified
  | raise error => exact verified
  | unfinished => trivial
  | get next => trivial
  | set m next => trivial
  | call cmd rest failed inductionHypothesis inductionHypothesis' =>
      intro x₁ rely inv choice fresh done free performed
      obtain ⟨g, guar, started, behind⟩ := verified x₁ rely inv choice fresh done free performed
      refine ⟨g, guar, started, ?_⟩
      split
      · next reply same =>
          rw [same] at behind
          exact inductionHypothesis reply behind
      · next error same =>
          rw [same] at behind
          exact inductionHypothesis' error behind

theorem wp_tryExcept
    {prog : Prog I Empty E Out}
    {handler : E -> Prog I Empty E Out}
    (verified : K.wp tid prog (fun
      | .ok out, x' => Q (.ok out) x'
      | .error error, x' => K.wp tid (handler error) Q x') x) :
    K.wp tid (prog.tryExcept handler) Q x := by
  induction prog generalizing x with
  | ret out => exact verified
  | raise error => exact wp_of_rely verified
  | unfinished => trivial
  | get next => trivial
  | set m next => trivial
  | call cmd rest failed inductionHypothesis inductionHypothesis' =>
      intro x₁ rely inv choice fresh done free performed
      obtain ⟨g, guar, started, behind⟩ := verified x₁ rely inv choice fresh done free performed
      refine ⟨g, guar, started, ?_⟩
      split
      · next reply same =>
          rw [same] at behind
          exact inductionHypothesis reply behind
      · next error same =>
          rw [same] at behind
          exact inductionHypothesis' error behind

/-! ## Triples -/

variable (K) in
/-- From any state with `P` the thread can run `prog`, and ends with `Q`. -/
def Triple
    (tid : Nat)
    (P : S × G -> Prop)
    (prog : Prog I Empty E Out)
    (Q : Except E Out -> S × G -> Prop) : Prop :=
  ∀ x, K.Inv x -> P x -> K.wp tid prog Q x

theorem Triple.weaken
    {prog : Prog I Empty E Out}
    (triple : K.Triple tid P prog Q)
    (stronger : ∀ x, K.Inv x -> P' x -> P x)
    (weaker : ∀ out x, K.Inv x -> Q out x -> Q' out x) : K.Triple tid P' prog Q' :=
  fun x inv holds => wp_mono (triple x inv (stronger x inv holds)) weaker

theorem Triple.pure
    {Q : Except E Out -> S × G -> Prop}
    (stable : K.Stable tid P)
    (holds : ∀ x, K.Inv x -> P x -> Q (.ok out) x) :
    K.Triple tid P (pure out) Q :=
  fun _ _ before x' rely inv => holds x' inv (stable.rely rely before)

theorem Triple.raise
    {Q : Except E Out -> S × G -> Prop}
    (stable : K.Stable tid P)
    (holds : ∀ x, K.Inv x -> P x -> Q (.error error) x) :
    K.Triple tid P (raise error) Q :=
  fun _ _ before x' rely inv => holds x' inv (stable.rely rely before)

/-- A command: its step keeps the contract and ends with `Q`. -/
theorem Triple.command
    {cmd : I.Cmd}
    {Q : Except E (I.Reply cmd) -> S × G -> Prop}
    (stable : K.Stable tid P)
    (stableAfter : ∀ reply, K.Stable tid (Q reply))
    (step : ∀ x choice fresh done, K.Inv x -> P x -> K.Unused tid fresh x ->
      sys.perform tid fresh choice cmd x.1 = some done ->
      ∃ g, K.Guar ⟨tid, cmd, done.reply⟩ x (done.state, g) ∧
        (∀ task, done.started = some task -> K.Pre task fresh (done.state, g)) ∧
        Q done.reply (done.state, g)) :
    K.Triple tid P (call cmd) Q := by
  intro x _ holds x₁ rely inv choice fresh done free performed
  obtain ⟨g, guar, started, after⟩ :=
    step x₁ choice fresh done inv (stable.rely rely holds) free performed
  refine ⟨g, guar, started, ?_⟩
  split
  · next reply same =>
      intro x' rely' _
      rw [same] at after
      exact (stableAfter _).rely rely' after
  · next error same =>
      intro x' rely' _
      rw [same] at after
      exact (stableAfter _).rely rely' after

/-- A command of a contract that does not look at the identities. -/
theorem Triple.call
    {cmd : I.Cmd}
    {Q : Except E (I.Reply cmd) -> S × G -> Prop}
    (stable : K.Stable tid P)
    (stableAfter : ∀ reply, K.Stable tid (Q reply))
    (step : ∀ x choice fresh done, K.Inv x -> P x -> tid < fresh ->
      sys.perform tid fresh choice cmd x.1 = some done ->
      ∃ g, K.Guar ⟨tid, cmd, done.reply⟩ x (done.state, g) ∧
        (∀ task, done.started = some task -> K.Pre task fresh (done.state, g)) ∧
        Q done.reply (done.state, g)) :
    K.Triple tid P (call cmd) Q :=
  .command stable stableAfter fun x choice fresh done inv holds unused =>
    step x choice fresh done inv holds unused.later

theorem Triple.bind
    {prog : Prog I Empty E Out}
    {next : Out -> Prog I Empty E Out'}
    (first : K.Triple tid P prog R)
    (second : ∀ out, K.Triple tid (R (.ok out)) (next out) Q)
    (failed : ∀ error x, K.Inv x -> R (.error error) x -> Q (.error error) x) :
    K.Triple tid P (prog >>= next) Q := by
  intro x inv holds
  apply wp_bind
  refine wp_mono (first x inv holds) fun out x' inv' after => ?_
  cases out with
  | ok out => exact second out x' inv' after
  | error error => exact failed error x' inv' after

theorem Triple.tryExcept
    {prog : Prog I Empty E Out}
    {handler : E -> Prog I Empty E Out}
    (first : K.Triple tid P prog R)
    (handled : ∀ error, K.Triple tid (R (.error error)) (handler error) Q)
    (returned : ∀ out x, K.Inv x -> R (.ok out) x -> Q (.ok out) x) :
    K.Triple tid P (prog.tryExcept handler) Q := by
  intro x inv holds
  apply wp_tryExcept
  refine wp_mono (first x inv holds) fun out x' inv' after => ?_
  cases out with
  | ok out => exact returned out x' inv' after
  | error error => exact handled error x' inv' after

/-! ### Stable facts -/

theorem Stable.and
    (first : K.Stable tid P)
    (second : K.Stable tid P') : K.Stable tid fun x => P x ∧ P' x :=
  fun x x' event inv other guar holds =>
    ⟨first x x' event inv other guar holds.1, second x x' event inv other guar holds.2⟩

theorem Stable.or
    (first : K.Stable tid P)
    (second : K.Stable tid P') : K.Stable tid fun x => P x ∨ P' x :=
  fun x x' event inv other guar holds =>
    holds.imp (first x x' event inv other guar) (second x x' event inv other guar)

theorem Stable.const (p : Prop) : K.Stable tid fun _ => p :=
  fun _ _ _ _ _ _ holds => holds

theorem Stable.imp
    {p : Prop}
    (stable : p -> K.Stable tid P) : K.Stable tid fun x => p -> P x :=
  fun x x' event inv other guar holds is => stable is x x' event inv other guar (holds is)

variable (K) in
/-- As long as `A` holds, other threads do not invalidate `P`. -/
def StableUnder (tid : Nat) (A P : S × G -> Prop) : Prop :=
  ∀ x x' event, K.Inv x -> event.tid ≠ tid -> K.Guar event x x' -> A x -> P x -> P x'

theorem Stable.under
    {A : S × G -> Prop}
    (stable : K.Stable tid A)
    (kept : K.StableUnder tid A P) : K.Stable tid fun x => A x ∧ P x :=
  fun x x' event inv other guar holds =>
    ⟨stable x x' event inv other guar holds.1,
      kept x x' event inv other guar holds.1 holds.2⟩

/-! ### Programs that return or raise -/

/-- The program returns with `Q` or raises with `F`. -/
def Post (Q : Out -> S × G -> Prop) (F : S × G -> Prop) : Except E Out -> S × G -> Prop
  | .ok out, x => Q out x
  | .error _, x => F x

section Post

variable {Q : Out -> S × G -> Prop} {F : S × G -> Prop}

theorem stable_post
    (returns : ∀ out, K.Stable tid (Q out))
    (raises : K.Stable tid F)
    (result : Except E Out) : K.Stable tid (Post Q F result) := by
  cases result with
  | ok out => exact returns out
  | error => exact raises

theorem Triple.seq
    {prog : Prog I Empty E Out}
    {next : Out -> Prog I Empty E Out'}
    {Q' : Out' -> S × G -> Prop}
    (first : K.Triple tid P prog (Post Q F))
    (second : ∀ out, K.Triple tid (Q out) (next out) (Post Q' F)) :
    K.Triple tid P (prog >>= next) (Post Q' F) :=
  first.bind second fun _ _ _ raised => raised

theorem Triple.given
    {prog : Prog I Empty E Out}
    {R : Except E Out -> S × G -> Prop}
    (triple : K.Triple tid P prog R)
    (stronger : ∀ x, K.Inv x -> P' x -> P x) : K.Triple tid P' prog R :=
  triple.weaken stronger fun _ _ _ holds => holds

theorem Triple.returning
    {prog : Prog I Empty E Out}
    {Q' : Out -> S × G -> Prop}
    (triple : K.Triple tid P prog (Post Q F))
    (weaker : ∀ out x, K.Inv x -> Q out x -> Q' out x) :
    K.Triple tid P prog (Post Q' F) :=
  triple.weaken (fun _ _ holds => holds) fun result x inv holds => by
    cases result with
    | ok out => exact weaker out x inv holds
    | error => exact holds

theorem Triple.raising
    {prog : Prog I Empty E Out}
    {F' : S × G -> Prop}
    (triple : K.Triple tid P prog (Post Q F))
    (weaker : ∀ x, K.Inv x -> F x -> F' x) : K.Triple tid P prog (Post Q F') :=
  triple.weaken (fun _ _ holds => holds) fun result x inv holds => by
    cases result with
    | ok => exact holds
    | error => exact weaker x inv holds

theorem Triple.ret
    {out : Out}
    (stable : K.Stable tid P)
    (holds : ∀ x, K.Inv x -> P x -> Q out x) :
    K.Triple tid P (Pure.pure out : Prog I Empty E Out) (Post Q F) :=
  .pure stable holds

theorem Triple.throw
    {error : E}
    (stable : K.Stable tid P)
    (holds : ∀ x, K.Inv x -> P x -> F x) :
    K.Triple tid P (Effects.raise error : Prog I Empty E Out) (Post Q F) :=
  .raise stable holds

/-- What `attempt` gives back tells how the program ended. -/
theorem Triple.tried
    {prog : Prog I Empty E Out}
    {R : Except E Out -> S × G -> Prop}
    {F' : S × G -> Prop}
    (triple : K.Triple tid P prog R)
    (stable : ∀ result, K.Stable tid (R result)) :
    K.Triple tid P (Effects.attempt prog) (Post R F') := by
  refine Triple.tryExcept (R := fun result x => match result with
    | .ok out => R out x
    | .error error => R (.error error) x) ?_ (fun error => ?_) fun _ _ _ holds => holds
  · exact triple.bind (fun out => .pure (stable (.ok out)) fun _ _ holds => holds)
      fun _ _ _ raised => raised
  · exact .ret (stable (.error error)) fun _ _ holds => holds

theorem Triple.attempt
    {prog : Prog I Empty E Out}
    {F' : S × G -> Prop}
    (triple : K.Triple tid P prog (Post Q F))
    (returns : ∀ out, K.Stable tid (Q out))
    (raises : K.Stable tid F) :
    K.Triple tid P (Effects.attempt prog) (Post (Post Q F) F') :=
  triple.tried (stable_post returns raises)

theorem Triple.ignore
    {prog : Prog I Empty E Out}
    {P' F' : S × G -> Prop}
    (triple : K.Triple tid P prog (Post (fun _ => P') P'))
    (stable : K.Stable tid P') :
    K.Triple tid P (Effects.ignore prog) (Post (fun _ => P') F') := by
  refine (triple.attempt (fun _ => stable) stable).seq fun result => ?_
  cases result with
  | ok => exact .ret stable fun _ _ holds => holds
  | error => exact .ret stable fun _ _ holds => holds

/-- The last part runs however the first one ended. -/
theorem Triple.tryFinally
    {prog : Prog I Empty E Out}
    {final : Prog I Empty E Unit}
    {Q' : Out -> S × G -> Prop}
    {F' : S × G -> Prop}
    (triple : K.Triple tid P prog (Post Q F))
    (returns : ∀ out, K.Stable tid (Q out))
    (raises : K.Stable tid F)
    (returned : ∀ out, K.Triple tid (Q out) final (Post (fun _ => Q' out) F'))
    (raised : K.Triple tid F final (Post (fun _ => F') F'))
    (returns' : ∀ out, K.Stable tid (Q' out))
    (raises' : K.Stable tid F') :
    K.Triple tid P (Effects.tryFinally prog final) (Post Q' F') := by
  refine (triple.attempt returns raises).seq fun result => ?_
  cases result with
  | ok out =>
      exact (returned out).seq fun _ => .ret (returns' out) fun _ _ holds => holds
  | error => exact raised.seq fun _ => .throw raises' fun _ _ holds => holds

end Post

/-- Every command of a program satisfies `allowed`, and it reads no memory of its
own. -/
def Only (allowed : I.Cmd -> Prop) : Prog I Empty E Out -> Prop
  | .ret _ => True
  | .raise _ => True
  | .unfinished => True
  | .get _ => False
  | .set _ _ => False
  | .call cmd next failed => allowed cmd ∧ (∀ reply, Only allowed (next reply)) ∧
      ∀ error, Only allowed (failed error)

variable {allowed : I.Cmd -> Prop}

theorem Only.bind
    {prog : Prog I Empty E Out}
    {next : Out -> Prog I Empty E Out'}
    (first : Only allowed prog)
    (second : ∀ out, Only allowed (next out)) : Only allowed (prog >>= next) := by
  show Only allowed (prog.bind next)
  induction prog with
  | ret out => exact second out
  | raise error => trivial
  | unfinished => trivial
  | get next => exact first
  | set m next => exact first
  | call cmd rest failed inductionHypothesis inductionHypothesis' =>
      exact ⟨first.1, fun reply => inductionHypothesis reply (first.2.1 reply),
        fun error => inductionHypothesis' error (first.2.2 error)⟩

theorem Only.tryExcept
    {prog : Prog I Empty E Out}
    {handler : E -> Prog I Empty E Out}
    (first : Only allowed prog)
    (handled : ∀ error, Only allowed (handler error)) :
    Only allowed (prog.tryExcept handler) := by
  induction prog with
  | ret out => trivial
  | raise error => exact handled error
  | unfinished => trivial
  | get next => exact first
  | set m next => exact first
  | call cmd rest failed inductionHypothesis inductionHypothesis' =>
      exact ⟨first.1, fun reply => inductionHypothesis reply (first.2.1 reply),
        fun error => inductionHypothesis' error (first.2.2 error)⟩

/-- What a program returns. -/
def Returns (holds : Out -> Prop) : Prog I Empty E Out -> Prop
  | .ret out => holds out
  | .call _ next failed =>
      (∀ reply, Returns holds (next reply)) ∧ ∀ error, Returns holds (failed error)
  | _ => True

theorem Returns.bind
    {holds : Out' -> Prop}
    {next : Out -> Prog I Empty E Out'}
    (returns : ∀ out, Returns holds (next out))
    (prog : Prog I Empty E Out) : Returns holds (prog >>= next) := by
  show Returns holds (prog.bind next)
  induction prog with
  | ret out => exact returns out
  | raise error => trivial
  | unfinished => trivial
  | get next => trivial
  | set m next => trivial
  | call cmd rest failed inductionHypothesis inductionHypothesis' =>
      exact ⟨inductionHypothesis, inductionHypothesis'⟩

/-- What follows can count on what the first program returns. -/
theorem Only.bind_returns
    {prog : Prog I Empty E Out}
    {next : Out -> Prog I Empty E Out'}
    {holds : Out -> Prop}
    (first : Only allowed prog)
    (returns : Returns holds prog)
    (rest : ∀ out, holds out -> Only allowed (next out)) : Only allowed (prog >>= next) := by
  show Only allowed (prog.bind next)
  induction prog with
  | ret out => exact rest out returns
  | raise error => trivial
  | unfinished => trivial
  | get next => exact first
  | set m next => exact first
  | call cmd more failed inductionHypothesis inductionHypothesis' =>
      exact ⟨first.1, fun reply => inductionHypothesis reply (first.2.1 reply) (returns.1 reply),
        fun error => inductionHypothesis' error (first.2.2 error) (returns.2 error)⟩

theorem Only.pure (out : Out) : Only allowed (pure out : Prog I Empty E Out) := trivial

theorem Only.raise (error : E) : Only allowed (raise error : Prog I Empty E Out) :=
  trivial

theorem Only.call
    {cmd : I.Cmd}
    (holds : allowed cmd) : Only allowed (call cmd : Prog I Empty E _) :=
  ⟨holds, fun _ => trivial, fun _ => trivial⟩

theorem Only.liftExcept
    (result : Except E Out) :
    Only allowed (liftExcept result : Prog I Empty E Out) := by
  cases result <;> trivial

theorem Only.attempt
    {prog : Prog I Empty E Out}
    (only : Only allowed prog) : Only allowed (attempt prog) :=
  (only.bind fun _ => Only.pure _).tryExcept fun _ => Only.pure _

theorem Only.ignore
    {prog : Prog I Empty E Out}
    (only : Only allowed prog) : Only allowed (ignore prog) :=
  only.attempt.bind fun _ => Only.pure _

theorem Only.tryFinally
    {prog : Prog I Empty E Out}
    {final : Prog I Empty E Unit}
    (only : Only allowed prog)
    (behind : Only allowed final) : Only allowed (tryFinally prog final) :=
  only.attempt.bind fun result => behind.bind fun _ => Only.liftExcept result

theorem Only.mono
    {allowed' : I.Cmd -> Prop}
    {prog : Prog I Empty E Out}
    (only : Only allowed prog)
    (weaker : ∀ cmd, allowed cmd -> allowed' cmd) : Only allowed' prog := by
  induction prog with
  | ret out => trivial
  | raise error => trivial
  | unfinished => trivial
  | get next => exact only
  | set m next => exact only
  | call cmd next failed inductionHypothesis inductionHypothesis' =>
      exact ⟨weaker cmd only.1, fun reply => inductionHypothesis reply (only.2.1 reply),
        fun error => inductionHypothesis' error (only.2.2 error)⟩

/-- A program of commands that keep `P` keeps it. -/
theorem Triple.of_only
    {prog : Prog I Empty E Out}
    (stable : K.Stable tid P)
    (step : ∀ cmd, allowed cmd -> ∀ x choice fresh done, K.Inv x -> P x ->
      sys.perform tid fresh choice cmd x.1 = some done ->
      ∃ g, K.Guar ⟨tid, cmd, done.reply⟩ x (done.state, g) ∧
        (∀ task, done.started = some task -> K.Pre task fresh (done.state, g)) ∧
        P (done.state, g))
    (only : Only allowed prog) : K.Triple tid P prog fun _ => P := by
  induction prog with
  | ret out => exact fun _ _ before _ rely _ => stable.rely rely before
  | raise error => exact fun _ _ before _ rely _ => stable.rely rely before
  | unfinished => exact fun _ _ _ => trivial
  | get next => exact fun _ _ _ => trivial
  | set m next => exact fun _ _ _ => trivial
  | call cmd next failed inductionHypothesis inductionHypothesis' =>
      intro x _ holds x₁ rely inv choice fresh done free performed
      obtain ⟨g, guar, started, after⟩ := step cmd only.1 x₁ choice fresh done inv
        (stable.rely rely holds) performed
      refine ⟨g, guar, started, ?_⟩
      split
      · next reply _ =>
          exact wp_of_rely fun x' rely' inv' =>
            inductionHypothesis reply (only.2.1 reply) x' inv' (stable.rely rely' after)
      · next error _ =>
          exact wp_of_rely fun x' rely' inv' =>
            inductionHypothesis' error (only.2.2 error) x' inv' (stable.rely rely' after)

/-! ## All threads together -/

variable (K) in
/-- Every thread can be started whenever its precondition holds, and the
contract keeps what it has to keep. -/
structure Verified : Prop where
  inv : ∀ x event x', K.Inv x -> K.Guar event x x' -> K.Inv x'
  stable : ∀ task tid, K.Stable tid (K.Pre task tid)
  arrives : ∀ task tid x, K.Inv x -> sys.arrives x.1 task = true -> K.Pre task tid x
  restart : ∀ x, K.Inv x -> K.Inv (sys.restart x.1, K.fresh x)
  main : ∀ x, K.Inv x -> K.Pre sys.main 0 (sys.restart x.1, K.fresh x)
  tasks : ∀ task tid, K.Triple tid (K.Pre task tid) (sys.program task) fun _ _ => True
  /-- A step uses the identity of its thread and of the one that it starts. -/
  uses : ∀ tid n choice cmd s g done g', K.Inv (s, g) -> tid < n -> K.Young n (s, g) ->
    sys.perform tid n choice cmd s = some done ->
    K.Guar ⟨tid, cmd, done.reply⟩ (s, g) (done.state, g') ->
      K.Young (if done.started.isSome then n + 1 else n) (done.state, g') := by
    intros; exact True.intro
  older : ∀ n x, K.Young n x -> K.Young (n + 1) x := by intros; exact True.intro
  newborn : ∀ x, K.Inv x -> K.Young 0 (sys.restart x.1, K.fresh x) := by
    intros; exact True.intro

variable (K) in
/-- The invariant holds and every thread can run on within the contract. -/
structure Good (c : Config I E S) (g : G) : Prop where
  inv : K.Inv (c.state, g)
  young : K.Young c.next (c.state, g)
  threads : ∀ tid prog, c.threads.get? tid = some prog ->
    tid < c.next ∧ K.wp tid prog (fun _ _ => True) (c.state, g)

variable (K) in
/-- What a step with a label does to the state and the variables. -/
def Link : Label I E Task -> S × G -> S × G -> Prop
  | .did event, x, x' => K.Guar event x x'
  | .arrived _, x, x' => x' = x
  | .restarted, x, x' => x' = (sys.restart x.1, K.fresh x)

/-- A contract about the commands alone: every command that occurs in a program
keeps it, whichever thread gives it and when. -/
theorem Verified.of_only
    (inv : ∀ x event x', K.Inv x -> K.Guar event x x' -> K.Inv x')
    (restart : ∀ x, K.Inv x -> K.Inv (sys.restart x.1, K.fresh x))
    (pre : ∀ task tid x, K.Pre task tid x)
    (step : ∀ cmd, allowed cmd -> ∀ tid x choice fresh done, K.Inv x ->
      sys.perform tid fresh choice cmd x.1 = some done ->
      ∃ g, K.Guar ⟨tid, cmd, done.reply⟩ x (done.state, g))
    (only : ∀ task, Only allowed (sys.program task))
    (young : ∀ n x, K.Young n x := by intros; exact True.intro) : K.Verified where
  inv := inv
  stable := fun task tid x x' _ _ _ _ _ => pre task tid x'
  arrives := fun task tid x _ _ => pre task tid x
  restart := restart
  main := fun _ _ => pre _ _ _
  tasks := by
    intro task tid
    have always : K.Stable tid fun _ => True := fun _ _ _ _ _ _ _ => trivial
    refine (Triple.of_only (K := K) always (fun cmd may x choice fresh done holds _ did => ?_)
      (only task)).weaken (fun _ _ _ => trivial) fun _ _ _ holds => holds
    obtain ⟨g, guar⟩ := step cmd may tid x choice fresh done holds did
    exact ⟨g, guar, fun _ _ => pre _ _ _, trivial⟩
  uses := fun _ _ _ _ _ _ _ _ _ _ _ _ _ => young _ _
  older := fun _ _ _ => young _ _
  newborn := fun _ _ => young _ _

/-- The threads can run on, and the next one that is started too. -/
theorem Good.begin
    {c : Config I E S}
    (verified : K.Verified)
    (inv : K.Inv (c.state, g))
    (young : K.Young (c.next + 1) (c.state, g))
    (threads : ∀ tid prog, c.threads.get? tid = some prog ->
      tid < c.next ∧ K.wp tid prog (fun _ _ => True) (c.state, g))
    {task : Task}
    (pre : K.Pre task c.next (c.state, g)) : K.Good (c.start sys task) g where
  inv := inv
  young := young
  threads := by
    intro tid prog found
    rw [Config.start, Dict.get?_set] at found
    split at found
    · next same =>
        cases found
        rw [same]
        exact ⟨Nat.lt_succ_self _, verified.tasks task c.next _ inv pre⟩
    · obtain ⟨old, rest⟩ := threads tid prog found
      exact ⟨Nat.lt_succ_of_lt old, rest⟩

theorem Good.start
    {c : Config I E S}
    (verified : K.Verified)
    (good : K.Good c g)
    {task : Task}
    (pre : K.Pre task c.next (c.state, g)) : K.Good (c.start sys task) g :=
  .begin verified good.inv (verified.older _ _ good.young) good.threads pre

/-- A process that begins with the invariant. -/
theorem Good.boot
    {s : S}
    (verified : K.Verified)
    (inv : K.Inv (s, g))
    (pre : K.Pre sys.main 0 (s, g))
    (young : K.Young 0 (s, g) := by exact True.intro) : K.Good (Config.boot sys s) g := by
  apply Good.start verified ⟨inv, young, ?_⟩ pre
  intro tid prog found
  cases found

/-- The step of one thread. -/
theorem Good.did
    {c : Config I E S}
    (verified : K.Verified)
    (good : K.Good c g)
    {cmd : I.Cmd}
    {next : I.Reply cmd -> Prog I Empty E Unit}
    {failed : E -> Prog I Empty E Unit}
    (found : c.threads.get? tid = some (.call cmd next failed))
    {done : Done I E S Task cmd}
    (performed : sys.perform tid c.next choice cmd c.state = some done) :
    ∃ g', K.Good (Config.startAll sys ⟨done.state,
        c.threads.set tid (Config.resume next failed done.reply), c.next⟩ done.started) g' ∧
      K.Guar ⟨tid, cmd, done.reply⟩ (c.state, g) (done.state, g') := by
  obtain ⟨old, able⟩ := good.threads tid _ found
  obtain ⟨g', guar, started, rest⟩ :=
    able (c.state, g) .refl good.inv choice c.next done ⟨old, good.young⟩ performed
  have inv : K.Inv (done.state, g') := verified.inv _ _ _ good.inv guar
  have used := verified.uses tid c.next choice cmd c.state g done g' good.inv old good.young
    performed guar
  have threads : ∀ tid' prog,
      (c.threads.set tid (Config.resume next failed done.reply)).get? tid' = some prog ->
        tid' < c.next ∧ K.wp tid' prog (fun _ _ => True) (done.state, g') := by
    intro tid' prog found'
    rw [Dict.get?_set] at found'
    split at found'
    · next same =>
        cases found'
        refine ⟨same ▸ old, ?_⟩
        rw [same]
        split at rest
        · next reply replied =>
            rw [replied]
            exact rest
        · next error replied =>
            rw [replied]
            exact rest
    · next different =>
        obtain ⟨old', able'⟩ := good.threads tid' prog found'
        exact ⟨old', wp_rely able' (.single
          ⟨good.inv, _, fun same => different same.symm, guar⟩)⟩
  refine ⟨g', ?_, guar⟩
  cases task : done.started with
  | none =>
      rw [task] at used
      exact ⟨inv, used, threads⟩
  | some task' =>
      rw [task] at used
      exact Good.begin (c := ⟨done.state, c.threads.set tid _, c.next⟩) verified inv used threads
        (started task' task)

/-- Every step of a good system is within the contract. -/
theorem Good.step
    {c c' : Config I E S}
    (verified : K.Verified)
    (good : K.Good c g)
    (step : Step sys c label c') :
    ∃ g', K.Good c' g' ∧ K.Link label (c.state, g) (c'.state, g') := by
  obtain ⟨act, step⟩ := step
  cases act with
  | run tid choice =>
      rw [Config.step?] at step
      split at step
      · next cmd next failed found =>
          split at step
          · next done performed =>
              cases step
              obtain ⟨g', good', guar⟩ := good.did verified found performed
              refine ⟨g', good', ?_⟩
              cases task : done.started with
              | none => exact guar
              | some task' => exact guar
          · cases step
      · cases step
  | arrive task =>
      rw [Config.step?] at step
      split at step
      · next may =>
          cases step
          exact ⟨g, good.start verified (verified.arrives task _ _ good.inv may), rfl⟩
      · cases step
  | restart =>
      cases step
      exact ⟨K.fresh (c.state, g),
        .boot verified (verified.restart _ good.inv) (verified.main _ good.inv)
          (verified.newborn _ good.inv), rfl⟩

/-- What the contract keeps of a trace and the state behind it holds after
every run. -/
theorem Good.run_keeps
    {c c' : Config I E S}
    {φ : List (Moment I E S Task) -> S × G -> Prop}
    (verified : K.Verified)
    (good : K.Good c g)
    (first : φ [] (c.state, g))
    (kept : ∀ trace label x x', K.Inv x -> K.Inv x' -> K.Link label x x' -> φ trace x ->
      φ (trace ++ [⟨x.1, label, x'.1⟩]) x')
    (run : Run sys c trace c') : ∃ g', K.Good c' g' ∧ φ trace (c'.state, g') := by
  induction run with
  | start => exact ⟨g, good, first⟩
  | step _ step inductionHypothesis =>
      obtain ⟨g', good', holds⟩ := inductionHypothesis
      obtain ⟨g'', good'', link⟩ := good'.step verified step
      exact ⟨g'', good'', kept _ _ _ _ good'.inv good''.inv link holds⟩

theorem Good.run
    {c c' : Config I E S}
    (verified : K.Verified)
    (good : K.Good c g)
    (run : Run sys c trace c') : ∃ g', K.Good c' g' := by
  obtain ⟨g', good', -⟩ := good.run_keeps (φ := fun _ _ => True) verified trivial
    (fun _ _ _ _ _ _ _ _ => trivial) run
  exact ⟨g', good'⟩

end Contract

end Threads
