import Mathlib.Logic.Basic

/-!
# Programs with a memory and a surrounding world

A program reads and writes its own memory, raises exceptions and gives commands
to a world that is shared with nobody.  A handler decides what each command
does; a run is then a function of memory and world.
-/

namespace Effects

/-- The commands a program can give and what comes back. -/
structure Interface where
  Cmd : Type
  Reply : Cmd -> Type

variable {I : Interface} {M E W Out Out' : Type}

/-- A program with memory `M` and exceptions `E`.  `unfinished` is a loop that
never comes to an end. -/
inductive Prog (I : Interface) (M E Out : Type)
  | ret (out : Out)
  | raise (error : E)
  | unfinished
  | get (next : M -> Prog I M E Out)
  | set (m : M) (next : Prog I M E Out)
  | call (cmd : I.Cmd) (next : I.Reply cmd -> Prog I M E Out)
      (failed : E -> Prog I M E Out)

namespace Prog

/-- Sequential composition. -/
def bind (prog : Prog I M E Out) (next : Out -> Prog I M E Out') :
    Prog I M E Out' :=
  match prog with
  | .ret out => next out
  | .raise error => .raise error
  | .unfinished => .unfinished
  | .get rest => .get fun m => (rest m).bind next
  | .set m rest => .set m (rest.bind next)
  | .call cmd rest failed => .call cmd (fun reply => (rest reply).bind next)
      fun error => (failed error).bind next

instance : Monad (Prog I M E) where
  pure := .ret
  bind := bind

/-- `try … except`: an exception of `prog` goes to the handler. -/
def tryExcept (prog : Prog I M E Out) (handler : E -> Prog I M E Out) :
    Prog I M E Out :=
  match prog with
  | .ret out => .ret out
  | .raise error => handler error
  | .unfinished => .unfinished
  | .get rest => .get fun m => (rest m).tryExcept handler
  | .set m rest => .set m (rest.tryExcept handler)
  | .call cmd rest failed =>
      .call cmd (fun reply => (rest reply).tryExcept handler)
        fun error => (failed error).tryExcept handler

end Prog

/-- Read the memory. -/
def get : Prog I M E M := .get .ret

/-- Write the memory. -/
def set (m : M) : Prog I M E Unit := .set m (.ret ())

/-- Change the memory. -/
def modify (f : M -> M) : Prog I M E Unit := .get fun m => .set (f m) (.ret ())

/-- Raise an exception. -/
def raise (error : E) : Prog I M E Out := .raise error

/-- Give a command; its failure is an exception. -/
def call (cmd : I.Cmd) : Prog I M E (I.Reply cmd) := .call cmd .ret .raise

/-- Give back a value or raise. -/
def liftExcept : Except E Out -> Prog I M E Out
  | .ok out => .ret out
  | .error error => .raise error

/-- Run a program and give back its value or its exception. -/
def attempt (prog : Prog I M E Out) : Prog I M E (Except E Out) :=
  (prog >>= fun out => pure (.ok out)).tryExcept fun error => pure (.error error)

/-- `try: … except: pass` -/
def ignore (prog : Prog I M E Out) : Prog I M E Unit := do
  let _ ← attempt prog

/-- `try: … finally: …` -/
def tryFinally (prog : Prog I M E Out) (final : Prog I M E Unit) :
    Prog I M E Out := do
  let out ← attempt prog
  final
  liftExcept out

/-! ## Runs -/

/-- How a program ends. -/
inductive Outcome (E Out : Type)
  | returned (out : Out)
  | raised (error : E)
  | unfinished
  deriving DecidableEq, Repr

/-- What every command does to the world. -/
structure Handler (I : Interface) (E W : Type) where
  handle : (cmd : I.Cmd) -> W -> Except E (I.Reply cmd) × W

section

variable (h : Handler I E W)

/-- Run a program from a memory and a world. -/
def run : Prog I M E Out -> M × W -> Outcome E Out × (M × W)
  | .ret out, s => (.returned out, s)
  | .raise error, s => (.raised error, s)
  | .unfinished, s => (.unfinished, s)
  | .get next, s => run (next s.1) s
  | .set m next, s => run next (m, s.2)
  | .call cmd next failed, s =>
      match h.handle cmd s.2 with
      | (.ok reply, w) => run (next reply) (s.1, w)
      | (.error error, w) => run (failed error) (s.1, w)

/-- The commands that a run gives, in their order. -/
def commands : Prog I M E Out -> M × W -> List I.Cmd
  | .ret _, _ => []
  | .raise _, _ => []
  | .unfinished, _ => []
  | .get next, s => commands (next s.1) s
  | .set m next, s => commands next (m, s.2)
  | .call cmd next failed, s =>
      cmd :: match h.handle cmd s.2 with
        | (.ok reply, w) => commands (next reply) (s.1, w)
        | (.error error, w) => commands (failed error) (s.1, w)

variable {h} {s s' : M × W}

@[simp] theorem run_pure (out : Out) :
    run h (pure out : Prog I M E Out) s = (.returned out, s) := rfl

@[simp] theorem run_raise (error : E) :
    run h (raise error : Prog I M E Out) s = (.raised error, s) := rfl

@[simp] theorem run_get :
    run h (get : Prog I M E M) s = (.returned s.1, s) := rfl

@[simp] theorem run_set (m : M) :
    run h (set m : Prog I M E Unit) s = (.returned (), (m, s.2)) := rfl

@[simp] theorem run_modify (f : M -> M) :
    run h (modify f : Prog I M E Unit) s = (.returned (), (f s.1, s.2)) := rfl

@[simp] theorem run_liftExcept_ok (out : Out) :
    run h (liftExcept (.ok out) : Prog I M E Out) s = (.returned out, s) := rfl

@[simp] theorem run_liftExcept_error (error : E) :
    run h (liftExcept (.error error) : Prog I M E Out) s =
      (.raised error, s) := rfl

theorem run_call_ok
    {cmd : I.Cmd}
    {reply : I.Reply cmd}
    (handled : h.handle cmd s.2 = (.ok reply, w)) :
    run h (call cmd : Prog I M E _) s = (.returned reply, (s.1, w)) := by
  simp [call, run, handled]

theorem run_call_error
    {cmd : I.Cmd}
    (handled : h.handle cmd s.2 = (.error error, w)) :
    run h (call cmd : Prog I M E _) s = (.raised error, (s.1, w)) := by
  simp [call, run, handled]

/-- A sequence runs its parts one after the other, until one does not
return. -/
theorem run_bind
    (prog : Prog I M E Out)
    (next : Out -> Prog I M E Out')
    (s : M × W) :
    run h (prog >>= next) s =
      match run h prog s with
      | (.returned out, s') => run h (next out) s'
      | (.raised error, s') => (.raised error, s')
      | (.unfinished, s') => (.unfinished, s') := by
  show run h (prog.bind next) s = _
  induction prog generalizing s with
  | ret out => rfl
  | raise error => rfl
  | unfinished => rfl
  | get rest inductionHypothesis => exact inductionHypothesis s.1 s
  | set m rest inductionHypothesis => exact inductionHypothesis (m, s.2)
  | call cmd rest failed inductionHypothesis inductionHypothesis' =>
      simp only [Prog.bind, run]
      split
      · exact inductionHypothesis _ _
      · exact inductionHypothesis' _ _

/-- Behind a part that returns. -/
theorem run_bind_of_returned
    {prog : Prog I M E Out}
    (first : run h prog s = (.returned out, s'))
    (next : Out -> Prog I M E Out') :
    run h (prog >>= next) s = run h (next out) s' := by
  rw [run_bind, first]

theorem run_bind_of_raised
    {prog : Prog I M E Out}
    (first : run h prog s = (.raised error, s'))
    (next : Out -> Prog I M E Out') :
    run h (prog >>= next) s = (.raised error, s') := by
  rw [run_bind, first]

theorem run_bind_of_unfinished
    {prog : Prog I M E Out}
    (first : run h prog s = (.unfinished, s'))
    (next : Out -> Prog I M E Out') :
    run h (prog >>= next) s = (.unfinished, s') := by
  rw [run_bind, first]

theorem commands_call (cmd : I.Cmd) (s : M × W) :
    commands h (call cmd : Prog I M E _) s = [cmd] := by
  simp only [call, commands]
  split
  · rfl
  · rfl

/-- A part that returns gives its commands before those of the rest. -/
theorem commands_bind_of_returned
    {prog : Prog I M E Out}
    (first : run h prog s = (.returned out, s'))
    (next : Out -> Prog I M E Out') :
    commands h (prog >>= next) s = commands h prog s ++ commands h (next out) s' := by
  show commands h (prog.bind next) s = _
  induction prog generalizing s with
  | ret out =>
      cases first
      rfl
  | raise error => cases first
  | unfinished => cases first
  | get rest inductionHypothesis => exact inductionHypothesis s.1 first
  | set m rest inductionHypothesis => exact inductionHypothesis first
  | call cmd rest failed inductionHypothesis inductionHypothesis' =>
      simp only [Prog.bind, commands, run] at first ⊢
      split at first
      · next reply w handled =>
          rw [List.cons_append]
          exact congrArg _ (inductionHypothesis _ first)
      · next error w handled =>
          rw [List.cons_append]
          exact congrArg _ (inductionHypothesis' _ first)

/-- A sequence that returns has two parts that return. -/
theorem run_bind_returned_iff
    {prog : Prog I M E Out}
    {next : Out -> Prog I M E Out'}
    {out : Out'} :
    run h (prog >>= next) s = (.returned out, s') ↔
      ∃ first middle, run h prog s = (.returned first, middle) ∧
        run h (next first) middle = (.returned out, s') := by
  rw [run_bind]
  constructor
  · intro whole
    split at whole
    · next first middle part => exact ⟨first, middle, part, whole⟩
    · simp at whole
    · simp at whole
  · rintro ⟨first, middle, part, rest⟩
    rw [part]
    exact rest

/-- A protected part that returns. -/
theorem run_tryExcept_of_returned
    {prog : Prog I M E Out}
    (handler : E -> Prog I M E Out)
    (returned : run h prog s = (.returned out, s')) :
    run h (prog.tryExcept handler) s = (.returned out, s') := by
  induction prog generalizing s with
  | ret out => exact returned
  | raise error => cases returned
  | unfinished => cases returned
  | get rest inductionHypothesis => exact inductionHypothesis s.1 returned
  | set m rest inductionHypothesis => exact inductionHypothesis returned
  | call cmd rest failed inductionHypothesis inductionHypothesis' =>
      simp only [Prog.tryExcept, run] at returned ⊢
      split
      · next reply w handled =>
          rw [handled] at returned
          exact inductionHypothesis _ returned
      · next error w handled =>
          rw [handled] at returned
          exact inductionHypothesis' _ returned

/-- A protected part that raises. -/
theorem run_tryExcept_of_raised
    {prog : Prog I M E Out}
    (handler : E -> Prog I M E Out)
    (raised : run h prog s = (.raised error, s')) :
    run h (prog.tryExcept handler) s = run h (handler error) s' := by
  induction prog generalizing s with
  | ret out => cases raised
  | raise error' =>
      cases raised
      rfl
  | unfinished => cases raised
  | get rest inductionHypothesis => exact inductionHypothesis s.1 raised
  | set m rest inductionHypothesis => exact inductionHypothesis raised
  | call cmd rest failed inductionHypothesis inductionHypothesis' =>
      simp only [Prog.tryExcept, run] at raised ⊢
      split
      · next reply w handled =>
          rw [handled] at raised
          exact inductionHypothesis _ raised
      · next error w handled =>
          rw [handled] at raised
          exact inductionHypothesis' _ raised

end

end Effects
