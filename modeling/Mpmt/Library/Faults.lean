import Mpmt.Library.Effects

/-!
# Programs that are interrupted

A program may stop at any point, and any of its commands may fail.  What a
command that fails, or in which the program stops, leaves of the world is given
by a relation.
-/

namespace Effects

variable {I : Interface} {M E W Out Out' : Type}

/-- How an interrupted program ends. -/
inductive Ending (E Out : Type)
  | returned (out : Out)
  | raised (error : E)
  | stopped
  deriving DecidableEq

section

variable (h : Handler I E W) (fault : I.Cmd -> W -> W -> Prop)

/-- The ends a program can come to. -/
inductive Ends :
    Prog I M E Out -> M × W -> Ending E Out -> M × W -> Prop
  | stop (prog : Prog I M E Out) (s : M × W) : Ends prog s .stopped s
  | ret (out : Out) (s : M × W) : Ends (.ret out) s (.returned out) s
  | raise (error : E) (s : M × W) : Ends (.raise error) s (.raised error) s
  | get {next s e s'}
      (rest : Ends (next s.1) s e s') : Ends (.get next) s e s'
  | set {m next s e s'}
      (rest : Ends next (m, s.2) e s') : Ends (.set m next) s e s'
  | ok {cmd next failed s e s' reply w}
      (handled : h.handle cmd s.2 = (.ok reply, w))
      (rest : Ends (next reply) (s.1, w) e s') :
      Ends (.call cmd next failed) s e s'
  | error {cmd next failed s e s' error w}
      (handled : h.handle cmd s.2 = (.error error, w))
      (rest : Ends (failed error) (s.1, w) e s') :
      Ends (.call cmd next failed) s e s'
  | fault {cmd next failed s e s' w}
      (error : E)
      (broken : fault cmd s.2 w)
      (rest : Ends (failed error) (s.1, w) e s') :
      Ends (.call cmd next failed) s e s'
  | cut {cmd next failed s w}
      (broken : fault cmd s.2 w) :
      Ends (.call cmd next failed) s .stopped (s.1, w)

variable {h fault} {s s' : M × W}

/-- The end of a run.  A run that the model does not finish is one that the
process leaves. -/
def Outcome.ending : Outcome E Out -> Ending E Out
  | .returned out => .returned out
  | .raised error => .raised error
  | .unfinished => .stopped

/-- A program without interruptions comes to the end of its run. -/
theorem ends_run
    (prog : Prog I M E Out)
    (s : M × W) :
    Ends h fault prog s (run h prog s).1.ending (run h prog s).2 := by
  induction prog generalizing s with
  | ret out => exact .ret _ _
  | raise error => exact .raise _ _
  | unfinished => exact .stop _ _
  | get rest inductionHypothesis => exact .get (inductionHypothesis s.1 s)
  | set m rest inductionHypothesis => exact .set (inductionHypothesis _)
  | call cmd next failed inductionHypothesis inductionHypothesis' =>
      rw [run]
      split
      · next handled => exact .ok handled (inductionHypothesis _ _)
      · next handled => exact .error handled (inductionHypothesis' _ _)

theorem ends_of_run
    {prog : Prog I M E Out}
    (ended : run h prog s = (.returned out, s')) :
    Ends h fault prog s (.returned out) s' := by
  have ends : Ends h fault prog s (run h prog s).1.ending (run h prog s).2 := ends_run prog s
  rwa [ended] at ends

/-- Run a program in which the call behind `count` others raises `error`, where
`broken` tells what that leaves of the world. -/
def runBroken
    (h : Handler I E W)
    (broken : I.Cmd -> W -> W)
    (error : E) : Nat -> Prog I M E Out -> M × W -> Ending E Out × (M × W)
  | _, .ret out, s => (.returned out, s)
  | _, .raise raised, s => (.raised raised, s)
  | _, .unfinished, s => (.stopped, s)
  | count, .get next, s => runBroken h broken error count (next s.1) s
  | count, .set m next, s => runBroken h broken error count next (m, s.2)
  | 0, .call cmd _ failed, s =>
      let (outcome, s') := run h (failed error) (s.1, broken cmd s.2)
      (outcome.ending, s')
  | count + 1, .call cmd next failed, s =>
      match h.handle cmd s.2 with
      | (.ok reply, w) => runBroken h broken error count (next reply) (s.1, w)
      | (.error raised, w) => runBroken h broken error count (failed raised) (s.1, w)

/-- A run with a broken call is one of the ends of the program. -/
theorem ends_runBroken
    {broken : I.Cmd -> W -> W}
    (allowed : ∀ cmd w, fault cmd w (broken cmd w))
    (error : E)
    (count : Nat)
    (prog : Prog I M E Out)
    (s : M × W) :
    Ends h fault prog s (runBroken h broken error count prog s).1
      (runBroken h broken error count prog s).2 := by
  induction prog generalizing s count with
  | ret out => exact .ret out s
  | raise raised => exact .raise raised s
  | unfinished => exact .stop _ s
  | get next inductionHypothesis => exact .get (inductionHypothesis _ count s)
  | set m next inductionHypothesis => exact .set (inductionHypothesis count _)
  | call cmd next failed inductionHypothesis inductionHypothesis' =>
      cases count with
      | zero => exact .fault error (allowed cmd s.2) (ends_run _ _)
      | succ count =>
          rw [runBroken]
          split
          · next handled => exact .ok handled (inductionHypothesis _ count _)
          · next handled => exact .error handled (inductionHypothesis' _ count _)

/-- A sequence ends in its first part, or behind it in its second. -/
theorem ends_bind
    {prog : Prog I M E Out}
    {next : Out -> Prog I M E Out'}
    {ending : Ending E Out'}
    (ends : Ends h fault (prog >>= next) s ending s') :
    (∃ out middle, Ends h fault prog s (.returned out) middle ∧
        Ends h fault (next out) middle ending s') ∨
      (∃ error, ending = .raised error ∧
        Ends h fault prog s (.raised error) s') ∨
      (ending = .stopped ∧ Ends h fault prog s .stopped s') := by
  replace ends : Ends h fault (prog.bind next) s ending s' := ends
  induction prog generalizing s with
  | ret out => exact .inl ⟨out, s, .ret out s, ends⟩
  | raise error =>
      cases ends with
      | stop => exact .inr (.inr ⟨rfl, .stop _ _⟩)
      | raise => exact .inr (.inl ⟨error, rfl, .raise error _⟩)
  | unfinished =>
      cases ends with
      | stop => exact .inr (.inr ⟨rfl, .stop _ _⟩)
  | get rest inductionHypothesis =>
      cases ends with
      | stop => exact .inr (.inr ⟨rfl, .stop _ _⟩)
      | get ends =>
          rcases inductionHypothesis s.1 ends with
            ⟨out, middle, first, second⟩ | ⟨error, same, first⟩ | ⟨same, first⟩
          · exact .inl ⟨out, middle, .get first, second⟩
          · exact .inr (.inl ⟨error, same, .get first⟩)
          · exact .inr (.inr ⟨same, .get first⟩)
  | set m rest inductionHypothesis =>
      cases ends with
      | stop => exact .inr (.inr ⟨rfl, .stop _ _⟩)
      | set ends =>
          rcases inductionHypothesis ends with
            ⟨out, middle, first, second⟩ | ⟨error, same, first⟩ | ⟨same, first⟩
          · exact .inl ⟨out, middle, .set first, second⟩
          · exact .inr (.inl ⟨error, same, .set first⟩)
          · exact .inr (.inr ⟨same, .set first⟩)
  | call cmd rest failed inductionHypothesis inductionHypothesis' =>
      cases ends with
      | stop => exact .inr (.inr ⟨rfl, .stop _ _⟩)
      | ok handled ends =>
          rcases inductionHypothesis _ ends with
            ⟨out, middle, first, second⟩ | ⟨error, same, first⟩ | ⟨same, first⟩
          · exact .inl ⟨out, middle, .ok handled first, second⟩
          · exact .inr (.inl ⟨error, same, .ok handled first⟩)
          · exact .inr (.inr ⟨same, .ok handled first⟩)
      | error handled ends =>
          rcases inductionHypothesis' _ ends with
            ⟨out, middle, first, second⟩ | ⟨error, same, first⟩ | ⟨same, first⟩
          · exact .inl ⟨out, middle, .error handled first, second⟩
          · exact .inr (.inl ⟨error, same, .error handled first⟩)
          · exact .inr (.inr ⟨same, .error handled first⟩)
      | fault cause broken ends =>
          rcases inductionHypothesis' _ ends with
            ⟨out, middle, first, second⟩ | ⟨error, same, first⟩ | ⟨same, first⟩
          · exact .inl ⟨out, middle, .fault cause broken first, second⟩
          · exact .inr (.inl ⟨error, same, .fault cause broken first⟩)
          · exact .inr (.inr ⟨same, .fault cause broken first⟩)
      | cut broken => exact .inr (.inr ⟨rfl, .cut broken⟩)

theorem ends_pure
    {ending : Ending E Out}
    (ends : Ends h fault (pure out : Prog I M E Out) s ending s') :
    s' = s ∧ ∀ error, ending ≠ .raised error := by
  cases ends with
  | stop => exact ⟨rfl, nofun⟩
  | ret => exact ⟨rfl, nofun⟩

theorem ends_get_bind
    {next : M -> Prog I M E Out}
    {ending : Ending E Out}
    (ends : Ends h fault (get >>= next) s ending s') :
    ending = .stopped ∧ s' = s ∨ Ends h fault (next s.1) s ending s' := by
  replace ends : Ends h fault (.get next) s ending s' := ends
  cases ends with
  | stop => exact .inl ⟨rfl, rfl⟩
  | get rest => exact .inr rest

/-- A change of the memory cannot fail. -/
theorem ends_modify_bind
    {f : M -> M}
    {next : Unit -> Prog I M E Out}
    {ending : Ending E Out}
    (ends : Ends h fault (modify f >>= next) s ending s') :
    ending = .stopped ∧ s' = s ∨
      Ends h fault (next ()) (f s.1, s.2) ending s' := by
  replace ends : Ends h fault (.get fun m => .set (f m) (next ())) s ending s' :=
    ends
  cases ends with
  | stop => exact .inl ⟨rfl, rfl⟩
  | get rest =>
      cases rest with
      | stop => exact .inl ⟨rfl, rfl⟩
      | set rest => exact .inr rest

/-- A protected part ends by itself or in the handler of its exception. -/
theorem ends_tryExcept
    {prog : Prog I M E Out}
    {handler : E -> Prog I M E Out}
    {ending : Ending E Out}
    (ends : Ends h fault (prog.tryExcept handler) s ending s') :
    (Ends h fault prog s ending s' ∧ ∀ error, ending ≠ .raised error) ∨
      ∃ error middle, Ends h fault prog s (.raised error) middle ∧
        Ends h fault (handler error) middle ending s' := by
  induction prog generalizing s with
  | ret out =>
      cases ends with
      | stop => exact .inl ⟨.stop _ _, nofun⟩
      | ret => exact .inl ⟨.ret _ _, nofun⟩
  | raise error => exact .inr ⟨error, s, .raise error s, ends⟩
  | unfinished =>
      cases ends with
      | stop => exact .inl ⟨.stop _ _, nofun⟩
  | get rest inductionHypothesis =>
      cases ends with
      | stop => exact .inl ⟨.stop _ _, nofun⟩
      | get ends =>
          rcases inductionHypothesis s.1 ends with
            ⟨first, kind⟩ | ⟨error, middle, first, second⟩
          · exact .inl ⟨.get first, kind⟩
          · exact .inr ⟨error, middle, .get first, second⟩
  | set m rest inductionHypothesis =>
      cases ends with
      | stop => exact .inl ⟨.stop _ _, nofun⟩
      | set ends =>
          rcases inductionHypothesis ends with
            ⟨first, kind⟩ | ⟨error, middle, first, second⟩
          · exact .inl ⟨.set first, kind⟩
          · exact .inr ⟨error, middle, .set first, second⟩
  | call cmd rest failed inductionHypothesis inductionHypothesis' =>
      cases ends with
      | stop => exact .inl ⟨.stop _ _, nofun⟩
      | ok handled ends =>
          rcases inductionHypothesis _ ends with
            ⟨first, kind⟩ | ⟨error, middle, first, second⟩
          · exact .inl ⟨.ok handled first, kind⟩
          · exact .inr ⟨error, middle, .ok handled first, second⟩
      | error handled ends =>
          rcases inductionHypothesis' _ ends with
            ⟨first, kind⟩ | ⟨error, middle, first, second⟩
          · exact .inl ⟨.error handled first, kind⟩
          · exact .inr ⟨error, middle, .error handled first, second⟩
      | fault cause broken ends =>
          rcases inductionHypothesis' _ ends with
            ⟨first, kind⟩ | ⟨error, middle, first, second⟩
          · exact .inl ⟨.fault cause broken first, kind⟩
          · exact .inr ⟨error, middle, .fault cause broken first, second⟩
      | cut broken => exact .inl ⟨.cut broken, nofun⟩

end

/-! ## What every interruption preserves -/

/-- Wherever the program ends, `Q` still holds. -/
def Preserves
    (h : Handler I E W)
    (fault : I.Cmd -> W -> W -> Prop)
    (Q : M × W -> Prop)
    (prog : Prog I M E Out) : Prop :=
  ∀ s ending s', Q s -> Ends h fault prog s ending s' -> Q s'

section

variable {h : Handler I E W} {fault : I.Cmd -> W -> W -> Prop}
variable {Q : M × W -> Prop}

theorem preserves_pure (out : Out) :
    Preserves h fault Q (pure out : Prog I M E Out) := by
  intro s ending s' before ends
  cases ends with
  | stop => exact before
  | ret => exact before

theorem preserves_raise (error : E) :
    Preserves h fault Q (raise error : Prog I M E Out) := by
  intro s ending s' before ends
  cases ends with
  | stop => exact before
  | raise => exact before

theorem preserves_get : Preserves h fault Q (get : Prog I M E M) := by
  intro s ending s' before ends
  cases ends with
  | stop => exact before
  | get ends => exact preserves_pure s.1 s ending s' before ends

theorem preserves_modify
    {f : M -> M}
    (kept : ∀ m w, Q (m, w) -> Q (f m, w)) :
    Preserves h fault Q (modify f : Prog I M E Unit) := by
  intro s ending s' before ends
  cases ends with
  | stop => exact before
  | get ends =>
      cases ends with
      | stop => exact before
      | set ends => exact preserves_pure () _ ending s' (kept _ _ before) ends

theorem preserves_call
    {cmd : I.Cmd}
    (handled : ∀ m w, Q (m, w) -> Q (m, (h.handle cmd w).2))
    (broken : ∀ m w w', Q (m, w) -> fault cmd w w' -> Q (m, w')) :
    Preserves h fault Q (call cmd : Prog I M E _) := by
  intro s ending s' before ends
  cases ends with
  | stop => exact before
  | @ok _ _ _ _ _ _ reply w handled' ends =>
      have after := handled _ _ before
      rw [handled'] at after
      exact preserves_pure reply _ ending s' after ends
  | @error _ _ _ _ _ _ error w handled' ends =>
      have after := handled _ _ before
      rw [handled'] at after
      exact preserves_raise error _ ending s' after ends
  | fault error broken' ends =>
      exact preserves_raise error _ ending s' (broken _ _ _ before broken') ends
  | cut broken' => exact broken _ _ _ before broken'

theorem Preserves.bind
    {prog : Prog I M E Out}
    {next : Out -> Prog I M E Out'}
    (first : Preserves h fault Q prog)
    (second : ∀ out, Preserves h fault Q (next out)) :
    Preserves h fault Q (prog >>= next) := by
  intro s ending s' before ends
  rcases ends_bind ends with
    ⟨out, middle, start, rest⟩ | ⟨error, _, start⟩ | ⟨_, start⟩
  · exact second out _ _ _ (first _ _ _ before start) rest
  · exact first _ _ _ before start
  · exact first _ _ _ before start

theorem Preserves.tryExcept
    {prog : Prog I M E Out}
    {handler : E -> Prog I M E Out}
    (first : Preserves h fault Q prog)
    (second : ∀ error, Preserves h fault Q (handler error)) :
    Preserves h fault Q (prog.tryExcept handler) := by
  intro s ending s' before ends
  rcases ends_tryExcept ends with
    ⟨start, _⟩ | ⟨error, middle, start, rest⟩
  · exact first _ _ _ before start
  · exact second error _ _ _ (first _ _ _ before start) rest

theorem preserves_forM
    {body : Out -> Prog I M E Unit}
    (step : ∀ out, Preserves h fault Q (body out))
    (outs : List Out) :
    Preserves h fault Q (forM outs body : Prog I M E Unit) := by
  induction outs with
  | nil => exact preserves_pure ()
  | cons out rest inductionHypothesis =>
      rw [List.forM_cons]
      exact (step out).bind fun _ => inductionHypothesis

end

/-! ## Programs that return only when nothing fails -/

/-- What returns in spite of possible faults is what the run returns. -/
def Determined
    (h : Handler I E W)
    (fault : I.Cmd -> W -> W -> Prop)
    (prog : Prog I M E Out) : Prop :=
  ∀ s out s', Ends h fault prog s (.returned out) s' ->
    run h prog s = (.returned out, s')

section

variable {h : Handler I E W} {fault : I.Cmd -> W -> W -> Prop}

theorem determined_pure (out : Out) :
    Determined h fault (pure out : Prog I M E Out) := by
  intro s out' s' ends
  cases ends
  rfl

theorem determined_raise (error : E) :
    Determined h fault (raise error : Prog I M E Out) := by
  intro s out' s' ends
  cases ends

theorem determined_get : Determined h fault (get : Prog I M E M) := by
  intro s out s' ends
  cases ends with
  | get ends =>
      cases ends
      rfl

theorem determined_modify (f : M -> M) :
    Determined h fault (modify f : Prog I M E Unit) := by
  intro s out s' ends
  cases ends with
  | get ends =>
      cases ends with
      | set ends =>
          cases ends
          rfl

theorem determined_call (cmd : I.Cmd) :
    Determined h fault (call cmd : Prog I M E _) := by
  intro s out s' ends
  cases ends with
  | ok handled ends =>
      cases ends
      exact run_call_ok handled
  | error handled ends => cases ends
  | fault error broken ends => cases ends

theorem Determined.bind
    {prog : Prog I M E Out}
    {next : Out -> Prog I M E Out'}
    (first : Determined h fault prog)
    (second : ∀ out, Determined h fault (next out)) :
    Determined h fault (prog >>= next) := by
  intro s out s' ends
  rcases ends_bind ends with
    ⟨middle_out, middle, start, rest⟩ | ⟨error, same, _⟩ | ⟨same, _⟩
  · rw [run_bind_of_returned (first _ _ _ start)]
    exact second middle_out _ _ _ rest
  · cases same
  · cases same

/-- A handler that never returns does not change what returns. -/
theorem Determined.tryExcept
    {prog : Prog I M E Out}
    {handler : E -> Prog I M E Out}
    (first : Determined h fault prog)
    (second : ∀ error s out s',
      ¬ Ends h fault (handler error) s (.returned out) s') :
    Determined h fault (prog.tryExcept handler) := by
  intro s out s' ends
  rcases ends_tryExcept ends with
    ⟨start, _⟩ | ⟨error, middle, _, rest⟩
  · exact run_tryExcept_of_returned handler (first _ _ _ start)
  · exact absurd rest (second error _ _ _)

theorem determined_forM
    {body : Out -> Prog I M E Unit}
    (step : ∀ out, Determined h fault (body out))
    (outs : List Out) :
    Determined h fault (forM outs body : Prog I M E Unit) := by
  induction outs with
  | nil => exact determined_pure ()
  | cons out rest inductionHypothesis =>
      rw [List.forM_cons]
      exact (step out).bind fun _ => inductionHypothesis

end

end Effects
