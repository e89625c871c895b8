import Mpmt.Library.Phases

/-!
# Dialogs of two parties

Two programs that answer each other step by step.  A dialog says more than that
the two come to their results in any network: nothing is in flight when one of
its messages is sent, and each message is read as a whole.
-/

namespace Network

variable {I : Signature} {p q : I.Party}

/-- Two programs that answer each other: what one waits for is what the other
sends next, and both meet at the same point.  `left` returns `a` and `right`
returns `b`. -/
inductive Dialog {A B : Type} (p q : I.Party) : Proc I A -> Proc I B -> A -> B -> Prop
  | ret (a : A) (b : B) : Dialog p q (.ret a) (.ret b) a b
  | send
      {data : List I.Sym}
      {next : Proc I A}
      {next' : List I.Sym -> Proc I B}
      (size : data.length = count)
      (behind : Dialog p q next (next' data) a b) :
      Dialog p q (.send q data next) (.recv p count next') a b
  | recv
      {data : List I.Sym}
      {next : List I.Sym -> Proc I A}
      {next' : Proc I B}
      (size : data.length = count)
      (behind : Dialog p q (next data) next' a b) :
      Dialog p q (.recv q count next) (.send p data next') a b
  | meet
      (agreed : I.meaning call call' = some (result, result'))
      (behind : Dialog p q (next result) (next' result') a b) :
      Dialog p q (.join true q call next) (.join false p call' next') a b
  | met
      (agreed : I.meaning call' call = some (result', result))
      (behind : Dialog p q (next result) (next' result') a b) :
      Dialog p q (.join false q call next) (.join true p call' next') a b

namespace Dialog

theorem symm
    {left : Proc I A}
    {right : Proc I B}
    (dialog : Dialog p q left right a b) : Dialog q p right left b a := by
  induction dialog with
  | ret a b => exact .ret b a
  | send size _ inductionHypothesis => exact .recv size inductionHypothesis
  | recv size _ inductionHypothesis => exact .send size inductionHypothesis
  | meet agreed _ inductionHypothesis => exact .met agreed inductionHypothesis
  | met agreed _ inductionHypothesis => exact .meet agreed inductionHypothesis

theorem bind
    {left : Proc I A}
    {right : Proc I B}
    {more : A -> Proc I A'}
    {more' : B -> Proc I B'}
    (first : Dialog p q left right a b)
    (second : Dialog p q (more a) (more' b) a' b') :
    Dialog p q (left >>= more) (right >>= more') a' b' := by
  induction first with
  | ret a b => exact second
  | send size _ inductionHypothesis => exact .send size (inductionHypothesis second)
  | recv size _ inductionHypothesis => exact .recv size (inductionHypothesis second)
  | meet agreed _ inductionHypothesis => exact .meet agreed (inductionHypothesis second)
  | met agreed _ inductionHypothesis => exact .met agreed (inductionHypothesis second)

/-- The second party goes on alone. -/
theorem map_right
    {left : Proc I A}
    {right : Proc I B}
    (dialog : Dialog p q left right a b)
    (f : B -> B') :
    Dialog p q left (right >>= fun out => Pure.pure (f out)) a (f b) := by
  have whole : Dialog p q (left >>= Pure.pure)
      (right >>= fun out => Pure.pure (f out)) a (f b) := dialog.bind (.ret a (f b))
  rwa [bind_pure] at whole

theorem map_left
    {left : Proc I A}
    {right : Proc I B}
    (dialog : Dialog p q left right a b)
    (f : A -> A') :
    Dialog p q (left >>= fun out => Pure.pure (f out)) right (f a) b :=
  (dialog.symm.map_right f).symm

/-- One message. -/
theorem transfer
    (data : List I.Sym)
    (size : data.length = count) :
    Dialog p q (Network.send q data) (Network.recv p count) () data :=
  .send size (.ret () data)

/-- One joint computation. -/
theorem joint
    (agreed : I.meaning call call' = some (result, result')) :
    Dialog p q (join true q call) (join false p call') result result' :=
  .meet agreed (.ret result result')

/-- A dialog goes through in any network, whatever the two go on with. -/
theorem leads
    [DecidableEq I.Party]
    {left : Proc I A}
    {right : Proc I B}
    {next : A -> Proc I Out}
    {next' : B -> Proc I Out}
    (different : p ≠ q)
    (dialog : Dialog p q left right a b)
    (procs : I.Party -> Proc I Out)
    (atLeft : procs p = left >>= next)
    (atRight : procs q = right >>= next') :
    Leads procs (replace procs p q (next a) (next' b)) := by
  induction dialog generalizing procs with
  | ret a b =>
      have same : replace procs p q (next a) (next' b) = procs :=
        replace_self procs atLeft atRight
      rw [same]
      exact Leads.refl procs
  | send size _ inductionHypothesis =>
      have sent : Leads procs (replace procs p q _ _) :=
        ⟨2, Run.transfer p q different atLeft atRight size⟩
      have behind := inductionHypothesis _ (replace_left procs different _ _)
        (replace_right procs p q _ _)
      rw [replace_replace procs different] at behind
      exact sent.trans behind
  | recv size _ inductionHypothesis =>
      have sent : Leads procs (replace procs q p _ _) :=
        ⟨2, Run.transfer q p different.symm atRight atLeft size⟩
      rw [replace_comm procs different.symm] at sent
      have behind := inductionHypothesis _ (replace_left procs different _ _)
        (replace_right procs p q _ _)
      rw [replace_replace procs different] at behind
      exact sent.trans behind
  | meet agreed _ inductionHypothesis =>
      have met : Leads procs (replace procs p q _ _) :=
        ⟨1, Run.meet p q atLeft atRight agreed⟩
      have behind := inductionHypothesis _ (replace_left procs different _ _)
        (replace_right procs p q _ _)
      rw [replace_replace procs different] at behind
      exact met.trans behind
  | met agreed _ inductionHypothesis =>
      have met : Leads procs (replace procs q p _ _) :=
        ⟨1, Run.meet q p atRight atLeft agreed⟩
      rw [replace_comm procs different.symm] at met
      have behind := inductionHypothesis _ (replace_left procs different _ _)
        (replace_right procs p q _ _)
      rw [replace_replace procs different] at behind
      exact met.trans behind

end Dialog

end Network
