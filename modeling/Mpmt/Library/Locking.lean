import Mathlib.Data.Finset.Max
import Mpmt.Library.Threads

/-!
# Locks that are taken in order

Some commands of a system take and free locks.  Every lock has a rank.  A program
that takes a lock only above those that it holds, frees them in the opposite order
and ends without any is disciplined.  Where all programs are, a thread that has
ended holds no lock, and those that hold one can always go on until all locks are
free: they never wait for each other.
-/

namespace Threads

open Effects

/-- What a command has to do with the locks. -/
inductive Grip (L : Type)
  | take (lock : L)
  | free (lock : L)
  | none

variable {I : Interface} {E S Task Choice L : Type} [DecidableEq L]

/-! ## Programs that are nowhere cut off -/

/-- No part of the program is cut off. -/
def Whole : Prog I Empty E Out -> Prop
  | .unfinished => False
  | .call _ next failed => (∀ reply, Whole (next reply)) ∧ ∀ error, Whole (failed error)
  | _ => True

theorem Whole.bind
    {prog : Prog I Empty E Out}
    {next : Out -> Prog I Empty E Out'}
    (first : Whole prog)
    (rest : ∀ out, Whole (next out)) : Whole (prog >>= next) := by
  show Whole (prog.bind next)
  induction prog with
  | ret out => exact rest out
  | raise error => trivial
  | unfinished => exact first.elim
  | get next => trivial
  | set m next => trivial
  | call cmd more failed inductionHypothesis inductionHypothesis' =>
      exact ⟨fun reply => inductionHypothesis reply (first.1 reply),
        fun error => inductionHypothesis' error (first.2 error)⟩

theorem Whole.tryExcept
    {prog : Prog I Empty E Out}
    {handler : E -> Prog I Empty E Out}
    (first : Whole prog)
    (rest : ∀ error, Whole (handler error)) : Whole (prog.tryExcept handler) := by
  induction prog with
  | ret out => trivial
  | raise error => exact rest error
  | unfinished => exact first.elim
  | get next => trivial
  | set m next => trivial
  | call cmd more failed inductionHypothesis inductionHypothesis' =>
      exact ⟨fun reply => inductionHypothesis reply (first.1 reply),
        fun error => inductionHypothesis' error (first.2 error)⟩

theorem Whole.attempt
    {prog : Prog I Empty E Out}
    (first : Whole prog) : Whole (attempt prog) :=
  Whole.tryExcept (first.bind fun _ => trivial) fun _ => trivial

theorem Whole.tryFinally
    {prog : Prog I Empty E Out}
    {final : Prog I Empty E Unit}
    (first : Whole prog)
    (last : Whole final) : Whole (tryFinally prog final) := by
  refine first.attempt.bind fun result => last.bind fun _ => ?_
  cases result with
  | ok out => trivial
  | error error => trivial

/-- Where no program is cut off, no thread is, in any run. -/
theorem Whole.run
    {sys : System I E S Task Choice}
    {s : S}
    {c : Config I E S}
    (programs : ∀ task, Whole (sys.program task))
    (run : Run sys (.boot sys s) trace c) :
    ∀ tid prog, c.threads.get? tid = some prog -> Whole prog := by
  have started : ∀ (c : Config I E S) (task : Task),
      (∀ tid prog, c.threads.get? tid = some prog -> Whole prog) ->
        ∀ tid prog, (c.start sys task).threads.get? tid = some prog -> Whole prog := by
    intro c task whole tid prog found
    rw [Config.start, Dict.get?_set] at found
    split at found
    · cases found
      exact programs task
    · exact whole tid prog found
  have booted : ∀ s tid prog, (Config.boot sys s).threads.get? tid = some prog -> Whole prog :=
    fun s => started _ _ fun tid prog found => by cases found
  induction run with
  | start => exact booted s
  | @step _ c₁ _ c₂ _ step inductionHypothesis =>
      obtain ⟨act, step⟩ := step
      cases act with
      | run tid choice =>
          rw [Config.step?] at step
          split at step
          · next cmd next failed known =>
              split at step
              · next done performed =>
                  cases step
                  have whole := inductionHypothesis tid _ known
                  have resumed : ∀ tid' prog, (c₁.threads.set tid
                      (Config.resume next failed done.reply)).get? tid' = some prog ->
                        Whole prog := by
                    intro tid' prog found
                    rw [Dict.get?_set] at found
                    split at found
                    · cases found
                      cases done.reply with
                      | ok reply => exact whole.1 reply
                      | error error => exact whole.2 error
                    · exact inductionHypothesis tid' prog found
                  cases done.started with
                  | none => exact resumed
                  | some task => exact started ⟨done.state, _, c₁.next⟩ task resumed
              · cases step
          · cases step
      | arrive task =>
          rw [Config.step?] at step
          split at step
          · cases step
            exact started c₁ task inductionHypothesis
          · cases step
      | restart =>
          cases step
          exact booted _

/-! ## Locks -/

/-- The locks of a system. -/
structure Locks (sys : System I E S Task Choice) (L : Type) [DecidableEq L] where
  grip : I.Cmd -> Grip L
  owner : S -> L -> Option Nat
  rank : L -> Nat
  /-- A lock is taken when it is free. -/
  take : ∀ {tid fresh choice cmd s done lock}, grip cmd = .take lock ->
    sys.perform tid fresh choice cmd s = some done ->
      owner s lock = none ∧ (∃ reply, done.reply = .ok reply) ∧
        ∀ other, owner done.state other = if other = lock then some tid else owner s other
  free : ∀ {tid fresh choice cmd s done lock}, grip cmd = .free lock ->
    sys.perform tid fresh choice cmd s = some done ->
      ∀ other, owner done.state other = if other = lock then none else owner s other
  leave : ∀ {tid fresh choice cmd s done}, grip cmd = .none ->
    sys.perform tid fresh choice cmd s = some done ->
      ∀ other, owner done.state other = owner s other
  /-- Only a lock that is held keeps a command waiting. -/
  able : ∀ tid fresh cmd s, (∀ lock, grip cmd = .take lock -> owner s lock = none) ->
    ∃ choice done, sys.perform tid fresh choice cmd s = some done
  restarted : ∀ s lock, owner (sys.restart s) lock = none

namespace Locks

variable {sys : System I E S Task Choice} (K : Locks sys L)

/-! ## Programs -/

/-- The program, which holds the locks `held`, the last one first, takes and frees
locks in order.  It holds `ends` when it returns and `fails` when it raises. -/
def Disciplined : Prog I Empty E Out -> List L -> List L -> List L -> Prop
  | .ret _, held, ends, _ => held = ends
  | .raise _, held, _, fails => held = fails
  | .call cmd next failed, held, ends, fails =>
      match K.grip cmd with
      | .take lock => (∀ other ∈ held, K.rank other < K.rank lock) ∧
          ∀ reply, Disciplined (next reply) (lock :: held) ends fails
      | .free lock => ∃ rest, held = lock :: rest ∧
          (∀ reply, Disciplined (next reply) rest ends fails) ∧
            ∀ error, Disciplined (failed error) rest ends fails
      | .none => (∀ reply, Disciplined (next reply) held ends fails) ∧
          ∀ error, Disciplined (failed error) held ends fails
  | .unfinished, _, _, _ => True
  | .get _, _, _, _ => False
  | .set _ _, _, _, _ => False

variable {K} {held middle ends fails : List L}

theorem Disciplined.bind
    {prog : Prog I Empty E Out}
    {next : Out -> Prog I Empty E Out'}
    (first : K.Disciplined prog held middle fails)
    (rest : ∀ out, K.Disciplined (next out) middle ends fails) :
    K.Disciplined (prog >>= next) held ends fails := by
  show K.Disciplined (prog.bind next) held ends fails
  induction prog generalizing held with
  | ret out =>
      have same : held = middle := first
      rw [same]
      exact rest out
  | raise error => exact first
  | unfinished => trivial
  | get next => exact first.elim
  | set m next => exact first.elim
  | call cmd more failed inductionHypothesis inductionHypothesis' =>
      rw [Prog.bind]
      unfold Disciplined at first ⊢
      split at first
      · exact ⟨first.1, fun reply => inductionHypothesis reply (first.2 reply)⟩
      · obtain ⟨rest', same, goes, fails⟩ := first
        exact ⟨rest', same, fun reply => inductionHypothesis reply (goes reply),
          fun error => inductionHypothesis' error (fails error)⟩
      · exact ⟨fun reply => inductionHypothesis reply (first.1 reply),
          fun error => inductionHypothesis' error (first.2 error)⟩

theorem Disciplined.tryExcept
    {prog : Prog I Empty E Out}
    {handler : E -> Prog I Empty E Out}
    (first : K.Disciplined prog held ends middle)
    (rest : ∀ error, K.Disciplined (handler error) middle ends fails) :
    K.Disciplined (prog.tryExcept handler) held ends fails := by
  induction prog generalizing held with
  | ret out => exact first
  | raise error =>
      have same : held = middle := first
      rw [same]
      exact rest error
  | unfinished => trivial
  | get next => exact first.elim
  | set m next => exact first.elim
  | call cmd more failed inductionHypothesis inductionHypothesis' =>
      rw [Prog.tryExcept]
      unfold Disciplined at first ⊢
      split at first
      · exact ⟨first.1, fun reply => inductionHypothesis reply (first.2 reply)⟩
      · obtain ⟨rest', same, goes, fails⟩ := first
        exact ⟨rest', same, fun reply => inductionHypothesis reply (goes reply),
          fun error => inductionHypothesis' error (fails error)⟩
      · exact ⟨fun reply => inductionHypothesis reply (first.1 reply),
          fun error => inductionHypothesis' error (first.2 error)⟩

theorem Disciplined.pure (out : Out) :
    K.Disciplined (pure out : Prog I Empty E Out) held held fails := rfl

theorem Disciplined.raise (error : E) :
    K.Disciplined (raise error : Prog I Empty E Out) held ends held := rfl

/-- The exceptions of a program that is attempted go no further. -/
theorem Disciplined.attempt
    {prog : Prog I Empty E Out}
    (first : K.Disciplined prog held ends ends) :
    K.Disciplined (attempt prog) held ends fails :=
  (first.bind fun _ => Disciplined.pure _).tryExcept fun _ => Disciplined.pure _

/-- Whatever happens in the program, the last part is run. -/
theorem Disciplined.tryFinally
    {prog : Prog I Empty E Out}
    {final : Prog I Empty E Unit}
    (first : K.Disciplined prog held middle middle)
    (last : K.Disciplined final middle ends ends) :
    K.Disciplined (tryFinally prog final) held ends ends := by
  refine first.attempt.bind fun result => last.bind fun _ => ?_
  cases result with
  | ok out => exact .pure out
  | error error => exact .raise error

/-- A program that leaves the locks alone. -/
theorem Disciplined.of_only
    {prog : Prog I Empty E Out}
    (only : Contract.Only (fun cmd => K.grip cmd = .none) prog) :
    K.Disciplined prog held held held := by
  induction prog with
  | ret out => rfl
  | raise error => rfl
  | unfinished => trivial
  | get next => exact only.elim
  | set m next => exact only.elim
  | call cmd more failed inductionHypothesis inductionHypothesis' =>
      have free : K.grip cmd = .none := only.1
      unfold Disciplined
      rw [free]
      exact ⟨fun reply => inductionHypothesis reply (only.2.1 reply),
        fun error => inductionHypothesis' error (only.2.2 error)⟩

theorem Disciplined.leave
    {cmd : I.Cmd}
    (leaves : K.grip cmd = .none) :
    K.Disciplined (call cmd : Prog I Empty E _) held held held :=
  .of_only (Contract.Only.call leaves)

/-- A lock is taken above those that are held. -/
theorem Disciplined.take
    {cmd : I.Cmd}
    (takes : K.grip cmd = .take lock)
    (above : ∀ other ∈ held, K.rank other < K.rank lock) :
    K.Disciplined (call cmd : Prog I Empty E _) held (lock :: held) fails := by
  unfold call Disciplined
  rw [takes]
  exact ⟨above, fun _ => rfl⟩

/-- The lock that was taken last is freed. -/
theorem Disciplined.free
    {cmd : I.Cmd}
    (frees : K.grip cmd = .free lock) :
    K.Disciplined (call cmd : Prog I Empty E _) (lock :: held) held held := by
  unfold call Disciplined
  rw [frees]
  exact ⟨held, rfl, fun _ => rfl, fun _ => rfl⟩

/-! ## Runs -/

variable (K)

/-- The thread has a program that goes on in order with the locks that it
owns. -/
def Orderly (s : S) (tid : Nat) (prog : Prog I Empty E Unit) : Prop :=
  ∃ held, K.Disciplined prog held [] [] ∧
    held.Pairwise (fun lock lock' => K.rank lock' < K.rank lock) ∧
    ∀ lock, lock ∈ held ↔ K.owner s lock = some tid

/-- Every thread is orderly, and whoever owns a lock is a thread. -/
structure Kept (c : Config I E S) : Prop where
  threads : ∀ tid prog, c.threads.get? tid = some prog -> tid < c.next ∧ K.Orderly c.state tid prog
  owners : ∀ lock tid, K.owner c.state lock = some tid ->
    ∃ prog, c.threads.get? tid = some prog

variable {K}

/-- A thread that owns the same locks goes on as before. -/
theorem Orderly.of_owner
    {prog : Prog I Empty E Unit}
    (orderly : K.Orderly s tid prog)
    (same : ∀ lock, K.owner s' lock = some tid ↔ K.owner s lock = some tid) :
    K.Orderly s' tid prog := by
  obtain ⟨held, disciplined, sorted, owns⟩ := orderly
  exact ⟨held, disciplined, sorted, fun lock => (owns lock).trans (same lock).symm⟩

/-- The step of an orderly thread. -/
theorem Orderly.step
    {cmd : I.Cmd}
    {next : I.Reply cmd -> Prog I Empty E Unit}
    {failed : E -> Prog I Empty E Unit}
    (orderly : K.Orderly s tid (.call cmd next failed))
    {done : Done I E S Task cmd}
    (performed : sys.perform tid fresh choice cmd s = some done) :
    K.Orderly done.state tid (Config.resume next failed done.reply) ∧
      (∀ lock other, other ≠ tid ->
        (K.owner done.state lock = some other ↔ K.owner s lock = some other)) := by
  obtain ⟨held, disciplined, sorted, owns⟩ := orderly
  unfold Disciplined at disciplined
  split at disciplined
  · next lock takes =>
      obtain ⟨free, ⟨reply, replied⟩, after⟩ := K.take takes performed
      refine ⟨⟨lock :: held, ?_, List.pairwise_cons.mpr ⟨disciplined.1, sorted⟩, ?_⟩, ?_⟩
      · rw [replied]
        exact disciplined.2 reply
      · intro other
        rw [List.mem_cons, owns, after]
        split
        · next same => simp [same]
        · next different => simp [different]
      · intro other tid' different
        rw [after]
        split
        · next same =>
            rw [same, free]
            simp [different.symm]
        · rfl
  · next lock frees =>
      obtain ⟨rest, rfl, goes, fails⟩ := disciplined
      have after := K.free frees performed
      obtain ⟨below, sorted⟩ := List.pairwise_cons.mp sorted
      have mine : K.owner s lock = some tid := (owns lock).mp List.mem_cons_self
      refine ⟨⟨rest, ?_, sorted, ?_⟩, ?_⟩
      · cases done.reply with
        | ok reply => exact goes reply
        | error error => exact fails error
      · intro other
        rw [after]
        split
        · next same =>
            have absent : other ∉ rest := fun member =>
              Nat.lt_irrefl _ (same ▸ below other member)
            simp [absent]
        · next different =>
            rw [← owns, List.mem_cons]
            simp [different]
      · intro other tid' different
        rw [after]
        split
        · next same =>
            rw [same, mine]
            simp [different.symm]
        · rfl
  · next leaves =>
      have after := K.leave leaves performed
      refine ⟨⟨held, ?_, sorted, fun lock => by rw [owns, after]⟩,
        fun lock _ _ => by rw [after]⟩
      cases done.reply with
      | ok reply => exact disciplined.1 reply
      | error error => exact disciplined.2 error

theorem Kept.start
    {c : Config I E S}
    (kept : K.Kept c)
    {task : Task}
    (disciplined : K.Disciplined (sys.program task) [] [] []) : K.Kept (c.start sys task) where
  threads := by
    intro tid prog found
    rw [Config.start, Dict.get?_set] at found
    split at found
    · next same =>
        cases found
        rw [same]
        refine ⟨Nat.lt_succ_self _, [], disciplined, .nil, fun lock => ?_⟩
        refine iff_of_false List.not_mem_nil fun owns => ?_
        obtain ⟨prog, known⟩ := kept.owners lock c.next owns
        exact Nat.lt_irrefl _ (kept.threads _ prog known).1
    · obtain ⟨old, orderly⟩ := kept.threads tid prog found
      exact ⟨Nat.lt_succ_of_lt old, orderly⟩
  owners := by
    intro lock tid owns
    rw [Config.start, Dict.get?_set]
    split
    · exact ⟨_, rfl⟩
    · exact kept.owners lock tid owns

/-- A process that begins with all locks free. -/
theorem Kept.boot
    {s : S}
    (free : ∀ lock, K.owner s lock = none)
    (disciplined : K.Disciplined (sys.program sys.main) [] [] []) :
    K.Kept (Config.boot sys s) := by
  refine Kept.start ⟨fun tid prog found => ?_, fun lock tid owns => ?_⟩ disciplined
  · cases found
  · have none : K.owner s lock = none := free lock
    rw [none] at owns
    cases owns

/-- A thread gives its next command. -/
theorem Kept.did
    {c : Config I E S}
    (kept : K.Kept c)
    {cmd : I.Cmd}
    {next : I.Reply cmd -> Prog I Empty E Unit}
    {failed : E -> Prog I Empty E Unit}
    (found : c.threads.get? tid = some (.call cmd next failed))
    {done : Done I E S Task cmd}
    (performed : sys.perform tid c.next choice cmd c.state = some done) :
    K.Kept ⟨done.state, c.threads.set tid (Config.resume next failed done.reply), c.next⟩ := by
  obtain ⟨old, orderly⟩ := kept.threads tid _ found
  obtain ⟨goes, others⟩ := orderly.step performed
  refine ⟨fun other prog known => ?_, fun lock other owns => ?_⟩
  · rw [Dict.get?_set] at known
    split at known
    · next same =>
        cases known
        rw [same]
        exact ⟨old, goes⟩
    · next different =>
        obtain ⟨old', orderly'⟩ := kept.threads other prog known
        exact ⟨old', orderly'.of_owner fun lock => others lock other different⟩
  · rw [Dict.get?_set]
    split
    · exact ⟨_, rfl⟩
    · next different =>
        exact kept.owners lock other ((others lock other different).mp owns)

/-- Every step keeps the threads orderly. -/
theorem Kept.step
    {c c' : Config I E S}
    (kept : K.Kept c)
    (disciplined : ∀ task, K.Disciplined (sys.program task) [] [] [])
    (step : Step sys c label c') : K.Kept c' := by
  obtain ⟨act, step⟩ := step
  cases act with
  | run tid choice =>
      rw [Config.step?] at step
      split at step
      · next found =>
          split at step
          · next done performed =>
              cases step
              cases done.started with
              | none => exact kept.did found performed
              | some task => exact (kept.did found performed).start (disciplined task)
          · cases step
      · cases step
  | arrive task =>
      rw [Config.step?] at step
      split at step
      · cases step
        exact kept.start (disciplined task)
      · cases step
  | restart =>
      cases step
      exact .boot (K.restarted c.state) (disciplined sys.main)

theorem Kept.run
    {c c' : Config I E S}
    (kept : K.Kept c)
    (disciplined : ∀ task, K.Disciplined (sys.program task) [] [] [])
    (run : Run sys c trace c') : K.Kept c' := by
  induction run with
  | start => exact kept
  | step _ step inductionHypothesis => exact inductionHypothesis.step disciplined step

/-- A thread that has ended holds no lock. -/
theorem Kept.ended
    {c : Config I E S}
    (kept : K.Kept c)
    {prog : Prog I Empty E Unit}
    (found : c.threads.get? tid = some prog)
    (ended : (∃ out, prog = .ret out) ∨ ∃ error, prog = .raise error)
    (lock : L) : K.owner c.state lock ≠ some tid := by
  obtain ⟨_, held, disciplined, _, owned⟩ := kept.threads tid prog found
  have none : held = [] := by
    rcases ended with ⟨out, rfl⟩ | ⟨error, rfl⟩
    · exact disciplined
    · exact disciplined
  intro owns
  have member : lock ∈ held := (owned lock).mpr owns
  rw [none] at member
  cases member

/-- A thread takes a lock only above those that it holds. -/
theorem Kept.above
    {c c' : Config I E S}
    (kept : K.Kept c)
    (step : Step sys c (.did event) c')
    (takes : K.grip event.cmd = .take lock)
    (owns : K.owner c.state other = some event.tid) : K.rank other < K.rank lock := by
  obtain ⟨act, step⟩ := step
  cases act with
  | run tid choice =>
      rw [Config.step?] at step
      split at step
      · next cmd next failed found =>
          split at step
          · next done performed =>
              cases step
              obtain ⟨_, held, disciplined, _, owned⟩ := kept.threads tid _ found
              unfold Disciplined at disciplined
              rw [takes] at disciplined
              exact disciplined.1 other ((owned other).mpr owns)
          · cases step
      · cases step
  | arrive task =>
      rw [Config.step?] at step
      split at step
      · cases step
      · cases step
  | restart => cases step

/-! ## No lock is kept for good -/

variable (K)

/-- A step of a thread that holds a lock. -/
def OfHolder (moment : Moment I E S Task) : Prop :=
  ∃ event lock, moment.label = .did event ∧ K.owner moment.before lock = some event.tid

/-- A thread that holds a lock has come to a loop that was cut off. -/
def CutOff (c : Config I E S) : Prop :=
  ∃ lock tid, K.owner c.state lock = some tid ∧ c.threads.get? tid = some .unfinished

/-- The holders of locks alone can lead from `c` to `c'`. -/
def Leads (c c' : Config I E S) : Prop :=
  ∃ trace, Run sys c trace c' ∧ ∀ moment ∈ trace, K.OfHolder moment

variable {K}

theorem Leads.refl (c : Config I E S) : K.Leads c c :=
  ⟨[], .start, fun _ member => absurd member List.not_mem_nil⟩

theorem Leads.trans
    {c c' c'' : Config I E S}
    (first : K.Leads c c')
    (second : K.Leads c' c'') : K.Leads c c'' := by
  obtain ⟨trace, run, holders⟩ := first
  obtain ⟨trace', run', holders'⟩ := second
  refine ⟨trace ++ trace', run.append run', fun moment member => ?_⟩
  exact (List.mem_append.mp member).elim (holders moment) (holders' moment)

/-- A holder gives its next command. -/
theorem Kept.gives
    {c : Config I E S}
    (kept : K.Kept c)
    (disciplined : ∀ task, K.Disciplined (sys.program task) [] [] [])
    {cmd : I.Cmd}
    {next : I.Reply cmd -> Prog I Empty E Unit}
    {failed : E -> Prog I Empty E Unit}
    (found : c.threads.get? tid = some (.call cmd next failed))
    (owns : K.owner c.state lock = some tid)
    {done : Done I E S Task cmd}
    (performed : sys.perform tid c.next choice cmd c.state = some done) :
    ∃ c', K.Leads c c' ∧ K.Kept c' ∧ c'.state = done.state ∧
      c'.threads.get? tid = some (Config.resume next failed done.reply) := by
  let c' : Config I E S := Config.startAll sys
    ⟨done.state, c.threads.set tid (Config.resume next failed done.reply), c.next⟩ done.started
  have taken : c.step? sys (.run tid choice) = some (.did ⟨tid, cmd, done.reply⟩, c') := by
    rw [Config.step?, found]
    dsimp only
    rw [performed]
  have step : Step sys c (.did ⟨tid, cmd, done.reply⟩) c' := ⟨_, taken⟩
  have old : tid < c.next := (kept.threads tid _ found).1
  refine ⟨c', ⟨_, .single step, fun moment member => ?_⟩, kept.step disciplined step, ?_, ?_⟩
  · rw [List.mem_singleton.mp member]
    exact ⟨_, lock, rfl, owns⟩
  · show (Config.startAll sys _ done.started).state = done.state
    cases done.started <;> rfl
  · show (Config.startAll sys _ done.started).threads.get? tid = _
    cases done.started with
    | none =>
        dsimp only [Config.startAll]
        rw [Dict.get?_set, if_pos rfl]
    | some task =>
        dsimp only [Config.startAll, Config.start]
        rw [Dict.get?_set, if_neg (Nat.ne_of_lt old), Dict.get?_set, if_pos rfl]

/-- A thread that holds the highest lock can go on alone until it frees this
lock, and all that it took behind it. -/
theorem Kept.frees
    {c : Config I E S}
    (kept : K.Kept c)
    (disciplined : ∀ task, K.Disciplined (sys.program task) [] [] [])
    {prog : Prog I Empty E Unit}
    (found : c.threads.get? tid = some prog)
    (owns : K.owner c.state top = some tid)
    (above : ∀ lock other, K.rank top < K.rank lock -> K.owner c.state lock = some other ->
      other = tid) :
    ∃ c', K.Leads c c' ∧ K.Kept c' ∧
      (K.CutOff c' ∨ ∀ lock, (K.owner c'.state lock).isSome = true ->
        lock ≠ top ∧ ¬ K.rank top < K.rank lock ∧
          K.owner c'.state lock = K.owner c.state lock) := by
  induction prog generalizing c with
  | ret out => exact absurd owns (kept.ended found (.inl ⟨out, rfl⟩) top)
  | raise error => exact absurd owns (kept.ended found (.inr ⟨error, rfl⟩) top)
  | unfinished => exact ⟨c, .refl c, kept, .inl ⟨top, tid, owns, found⟩⟩
  | get next =>
      obtain ⟨_, _, never, _⟩ := kept.threads tid _ found
      exact never.elim
  | set m next =>
      obtain ⟨_, _, never, _⟩ := kept.threads tid _ found
      exact never.elim
  | call cmd next failed inductionHypothesis inductionHypothesis' =>
      obtain ⟨_, held, goes, sorted, owned⟩ := kept.threads tid _ found
      have member : top ∈ held := (owned top).mpr owns
      unfold Disciplined at goes
      -- a lock that it takes is higher than `top`, and so free
      obtain ⟨choice, done, performed⟩ := K.able tid c.next cmd c.state fun lock takes => by
        rw [takes] at goes
        have higher : K.rank top < K.rank lock := goes.1 top member
        rw [Option.eq_none_iff_forall_ne_some]
        intro other owner
        rw [above lock other higher owner] at owner
        exact Nat.lt_irrefl _ (goes.1 lock ((owned lock).mpr owner))
      obtain ⟨c₁, led, kept₁, state₁, found₁⟩ := kept.gives disciplined found owns performed
      -- the locks up to `top` are as they were, and those above are still its own
      have onward
          (same : ∀ lock, ¬ K.rank top < K.rank lock ->
            K.owner c₁.state lock = K.owner c.state lock)
          (mine : ∀ lock other, K.rank top < K.rank lock ->
            K.owner c₁.state lock = some other -> other = tid) :
          ∃ c', K.Leads c c' ∧ K.Kept c' ∧
            (K.CutOff c' ∨ ∀ lock, (K.owner c'.state lock).isSome = true ->
              lock ≠ top ∧ ¬ K.rank top < K.rank lock ∧
                K.owner c'.state lock = K.owner c.state lock) := by
        have owns₁ : K.owner c₁.state top = some tid :=
          (same top (Nat.lt_irrefl _)).trans owns
        have rest : ∃ c', K.Leads c₁ c' ∧ K.Kept c' ∧
            (K.CutOff c' ∨ ∀ lock, (K.owner c'.state lock).isSome = true ->
              lock ≠ top ∧ ¬ K.rank top < K.rank lock ∧
                K.owner c'.state lock = K.owner c₁.state lock) := by
          cases replied : done.reply with
          | ok reply =>
              rw [replied] at found₁
              exact inductionHypothesis reply kept₁ found₁ owns₁ mine
          | error error =>
              rw [replied] at found₁
              exact inductionHypothesis' error kept₁ found₁ owns₁ mine
        obtain ⟨c', led', kept', result⟩ := rest
        refine ⟨c', led.trans led', kept', result.imp_right fun freed lock some => ?_⟩
        obtain ⟨other, lower, unchanged⟩ := freed lock some
        exact ⟨other, lower, unchanged.trans (same lock lower)⟩
      split at goes
      · next lock takes =>
          have higher : K.rank top < K.rank lock := goes.1 top member
          obtain ⟨_, _, after⟩ := K.take takes performed
          rw [← state₁] at after
          refine onward (fun other lower => ?_) fun other tid' higher' owner => ?_
          · rw [after, if_neg fun same : other = lock => lower (same ▸ higher)]
          · rw [after] at owner
            split at owner
            · exact (Option.some.inj owner).symm
            · exact above other tid' higher' owner
      · next lock frees =>
          obtain ⟨rest, rfl, _⟩ := goes
          obtain ⟨below, _⟩ := List.pairwise_cons.mp sorted
          have after := K.free frees performed
          rw [← state₁] at after
          rcases eq_or_ne lock top with rfl | different
          · refine ⟨c₁, led, kept₁, .inr fun other some => ?_⟩
            rw [after] at some ⊢
            split at some
            · cases some
            · next different =>
                refine ⟨different, fun higher => ?_, if_neg different⟩
                obtain ⟨tid', owner⟩ := Option.isSome_iff_exists.mp some
                rw [above other tid' higher owner] at owner
                have within := (List.mem_cons.mp ((owned other).mpr owner)).resolve_left different
                exact Nat.lt_asymm higher (below other within)
          · have higher : K.rank top < K.rank lock :=
              below top ((List.mem_cons.mp member).resolve_left different.symm)
            refine onward (fun other lower => ?_) fun other tid' higher' owner => ?_
            · rw [after, if_neg fun same : other = lock => lower (same ▸ higher)]
            · rw [after] at owner
              split at owner
              · cases owner
              · exact above other tid' higher' owner
      · next leaves =>
          have after := K.leave leaves performed
          rw [← state₁] at after
          exact onward (fun other _ => after other) fun other tid' higher owner =>
            above other tid' higher ((after other).symm.trans owner)

/-- The holders of locks can go on until all locks are free, whatever has happened
before, or until one of them has come to a loop that was cut off. -/
theorem Kept.released
    [Fintype L]
    {c : Config I E S}
    (kept : K.Kept c)
    (disciplined : ∀ task, K.Disciplined (sys.program task) [] [] []) :
    ∃ c', K.Leads c c' ∧ (K.CutOff c' ∨ ∀ lock, K.owner c'.state lock = none) := by
  classical
  let isHeld (c : Config I E S) : Finset L :=
    Finset.univ.filter fun lock => (K.owner c.state lock).isSome = true
  generalize size : (isHeld c).card = count
  induction count using Nat.strong_induction_on generalizing c with
  | _ count inductionHypothesis =>
      rcases (isHeld c).eq_empty_or_nonempty with none | some
      · refine ⟨c, .refl c, .inr fun lock => ?_⟩
        by_contra held
        have member : lock ∈ isHeld c :=
          Finset.mem_filter.mpr ⟨Finset.mem_univ _, Option.isSome_iff_ne_none.mpr held⟩
        rw [none] at member
        exact absurd member (Finset.notMem_empty lock)
      · obtain ⟨top, member, highest⟩ := Finset.exists_max_image (isHeld c) K.rank some
        obtain ⟨tid, owns⟩ := Option.isSome_iff_exists.mp (Finset.mem_filter.mp member).2
        obtain ⟨prog, found⟩ := kept.owners top tid owns
        obtain ⟨c₁, led, kept₁, result⟩ := kept.frees disciplined found owns
          fun lock other higher owner => by
            have most := highest lock
              (Finset.mem_filter.mpr ⟨Finset.mem_univ _, by rw [owner]; rfl⟩)
            exact absurd higher (Nat.not_lt_of_le most)
        rcases result with cut | freed
        · exact ⟨c₁, led, .inl cut⟩
        · have fewer : (isHeld c₁).card < count := by
            rw [← size]
            refine Finset.card_lt_card ⟨fun lock still => ?_, fun all => ?_⟩
            · have held := (Finset.mem_filter.mp still).2
              rw [(freed lock held).2.2] at held
              exact Finset.mem_filter.mpr ⟨Finset.mem_univ _, held⟩
            · exact (freed top (Finset.mem_filter.mp (all member)).2).1 rfl
          obtain ⟨c', led', result⟩ := inductionHypothesis _ fewer kept₁ rfl
          exact ⟨c', led.trans led', result⟩

end Locks

end Threads
