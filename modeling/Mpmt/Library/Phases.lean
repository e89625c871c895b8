import Mpmt.Library.Network

/-!
# Phases of a larger network

A protocol rarely involves all parties at once.  This module leads from one
quiet configuration to the next, replaces the programs of two parties, and runs
a group that forms a network of its own inside a larger network whose other
parties stand still.
-/

namespace Network

variable {I J : Signature} [DecidableEq I.Party] [DecidableEq J.Party]

/-! ## Progress between quiet configurations -/

/-- From `procs` with nothing in flight a run leads to `procs'` with nothing in
flight. -/
def Leads (procs procs' : I.Party -> Proc I Out) : Prop :=
  ∃ length, Run length (start procs) (start procs')

theorem Leads.refl (procs : I.Party -> Proc I Out) : Leads procs procs :=
  ⟨0, .refl _⟩

theorem Leads.trans
    {procs procs' procs'' : I.Party -> Proc I Out}
    (first : Leads procs procs')
    (second : Leads procs' procs'') : Leads procs procs'' := by
  obtain ⟨m, run⟩ := first
  obtain ⟨n, run'⟩ := second
  exact ⟨m + n, run.trans run'⟩

/-- What is reached later is reached from the start. -/
theorem Leads.before
    {procs procs' : I.Party -> Proc I Out}
    {good : (I.Party -> Proc I Out) -> Prop}
    (first : Leads procs procs')
    (later : ∃ last, Leads procs' last ∧ good last) :
    ∃ last, Leads procs last ∧ good last := by
  obtain ⟨last, leads, isGood⟩ := later
  exact ⟨last, first.trans leads, isGood⟩

theorem Leads.of_eq
    {procs procs' : I.Party -> Proc I Out}
    (same : ∀ party, procs party = procs' party) : Leads procs procs' :=
  ⟨0, Run.of_procs_eq same⟩

/-- Leading to the returned results decides every run: none gets stuck early
and all end there. -/
theorem Leads.every_run
    {procs : I.Party -> Proc I Out}
    (leads : Leads procs fun party => .ret (out party)) :
    ∃ length, ∀ steps d, Run steps (start procs) d ->
      ∃ rest, length = steps + rest ∧ Run rest d (returned out) := by
  obtain ⟨length, run⟩ := leads
  exact ⟨length, fun steps d other =>
    Run.complete run (stuck_returned out) other⟩

/-! ## Two parties -/

/-- Replace the programs of two parties. -/
def replace
    (procs : I.Party -> Proc I Out)
    (p q : I.Party)
    (next next' : Proc I Out) : I.Party -> Proc I Out :=
  Function.update (Function.update procs p next) q next'

theorem replace_left
    (procs : I.Party -> Proc I Out)
    (different : p ≠ q)
    (next next' : Proc I Out) : replace procs p q next next' p = next := by
  simp [replace, different]

theorem replace_right
    (procs : I.Party -> Proc I Out)
    (p q : I.Party)
    (next next' : Proc I Out) : replace procs p q next next' q = next' := by
  simp [replace]

theorem replace_replace
    (procs : I.Party -> Proc I Out)
    (different : p ≠ q)
    (next next' last last' : Proc I Out) :
    replace (replace procs p q next next') p q last last' =
      replace procs p q last last' := by
  funext party
  by_cases right : party = q
  · simp [replace, right]
  · by_cases left : party = p <;> simp [replace, left, right, different]

theorem replace_self
    (procs : I.Party -> Proc I Out)
    (left : procs p = next)
    (right : procs q = next') : replace procs p q next next' = procs := by
  subst left right
  simp [replace]

theorem replace_comm
    (procs : I.Party -> Proc I Out)
    (different : p ≠ q)
    (next next' : Proc I Out) :
    replace procs p q next next' = replace procs q p next' next :=
  Function.update_comm different _ _ _

/-! ## A network inside a network -/

/-- The parties of `I` take part in `J`; symbols, errors and calls are
translated. -/
structure Embedding (I J : Signature) where
  party : I.Party -> J.Party
  member : J.Party -> Option I.Party
  member_party : ∀ p, member (party p) = some p
  party_member : ∀ {q p}, member q = some p -> q = party p
  sym : I.Sym -> J.Sym
  unsym : J.Sym -> I.Sym
  unsym_sym : ∀ s, unsym (sym s) = s
  err : I.Err -> J.Err
  call : I.Call -> J.Call
  res : I.Call -> J.Res -> I.Res
  meaning_call : ∀ {c c' r r'}, I.meaning c c' = some (r, r') ->
    ∃ s s', J.meaning (call c) (call c') = some (s, s') ∧
      res c s = r ∧ res c' s' = r'

namespace Embedding

variable (e : Embedding I J)

/-- A program of the inner network, run by a party of the outer one. -/
def proc : Proc I Out -> Proc J Out
  | .ret out => .ret out
  | .throw error => .throw (e.err error)
  | .send peer data next => .send (e.party peer) (data.map e.sym) (proc next)
  | .recv peer count next => .recv (e.party peer) count fun data =>
      proc (next (data.map e.unsym))
  | .join first peer call next => .join first (e.party peer) (e.call call)
      fun result => proc (next (e.res call result))

omit [DecidableEq I.Party] [DecidableEq J.Party] in
theorem proc_bind (proc : Proc I Out) (next : Out -> Proc I Out') :
    e.proc (proc >>= next) = e.proc proc >>= fun out => e.proc (next out) := by
  induction proc with
  | ret out => rfl
  | throw error => rfl
  | send peer data rest inductionHypothesis =>
      simp only [Proc.send_bind, Embedding.proc, inductionHypothesis]
  | recv peer count rest inductionHypothesis =>
      simp only [Proc.recv_bind, Embedding.proc, inductionHypothesis]
  | join first peer call rest inductionHypothesis =>
      simp only [Proc.join_bind, Embedding.proc, inductionHypothesis]

/-- The inner parties run `c` and go on with `next`; the others stand still. -/
private def outer
    (next : I.Party -> Out -> Proc J Out')
    (rest : J.Party -> Proc J Out')
    (c : Config I Out) : Config J Out' where
  procs q :=
    match e.member q with
    | some p => e.proc (c.procs p) >>= next p
    | none => rest q
  chan pair :=
    match e.member pair.1, e.member pair.2 with
    | some p, some q => (c.chan (p, q)).map e.sym
    | _, _ => []

variable (next : I.Party -> Out -> Proc J Out')
variable (rest : J.Party -> Proc J Out')

omit [DecidableEq I.Party] [DecidableEq J.Party] in
private theorem outer_procs (c : Config I Out) (p : I.Party) :
    (e.outer next rest c).procs (e.party p) =
      e.proc (c.procs p) >>= next p := by
  simp [outer, e.member_party]

omit [DecidableEq I.Party] [DecidableEq J.Party] in
private theorem outer_chan (c : Config I Out) (p q : I.Party) :
    (e.outer next rest c).chan (e.party p, e.party q) =
      (c.chan (p, q)).map e.sym := by
  simp [outer, e.member_party]

private theorem outer_update_procs
    (c : Config I Out)
    (p : I.Party)
    (proc' : Proc I Out) :
    (e.outer next rest
        { c with procs := Function.update c.procs p proc' }).procs =
      Function.update (e.outer next rest c).procs (e.party p)
        (e.proc proc' >>= next p) := by
  funext q
  by_cases same : q = e.party p
  · subst q
    simp [outer, e.member_party]
  · rw [Function.update_of_ne same]
    cases inside : e.member q with
    | none => simp [outer, inside]
    | some p' =>
        have other : p' ≠ p := by
          rintro rfl
          exact same (e.party_member inside)
        simp [outer, inside, other]

private theorem outer_update_chan
    (c : Config I Out)
    (p q : I.Party)
    (data : List I.Sym) :
    (e.outer next rest
        { c with chan := Function.update c.chan (p, q) data }).chan =
      Function.update (e.outer next rest c).chan (e.party p, e.party q)
        (data.map e.sym) := by
  funext pair
  obtain ⟨a, b⟩ := pair
  by_cases same : (a, b) = (e.party p, e.party q)
  · obtain ⟨rfl, rfl⟩ := Prod.mk.inj same
    simp [outer, e.member_party]
  · rw [Function.update_of_ne same]
    cases first : e.member a with
    | none => simp [outer, first]
    | some a' =>
        cases second : e.member b with
        | none => simp [outer, first, second]
        | some b' =>
            have other : (a', b') ≠ (p, q) := by
              rintro equal
              obtain ⟨rfl, rfl⟩ := Prod.mk.inj equal
              exact same (Prod.ext (e.party_member first)
                (e.party_member second))
            simp [outer, first, second, other]

/-- A step of the inner network is a step of the outer one. -/
private theorem step_outer
    {p : I.Party}
    {c d : Config I Out}
    (step : Step p c d) :
    Step (e.party p) (e.outer next rest c) (e.outer next rest d) := by
  have atParty := e.outer_procs next rest c
  have inFlight := e.outer_chan next rest c
  cases step with
  | send isNext =>
      rename_i q data rest'
      refine (Step.send (by rw [atParty, isNext]; rfl)).of_eq ?_
      rw [inFlight, ← List.map_append]
      exact Config.ext
        (e.outer_update_procs next rest c p rest').symm
        (e.outer_update_chan next rest c p q _).symm
  | recv isNext available =>
      rename_i q count rest'
      refine (Step.recv (by rw [atParty, isNext]; rfl)
        (by rw [inFlight, List.length_map]; exact available)).of_eq ?_
      have received : (((c.chan (q, p)).map e.sym).take count).map e.unsym =
          (c.chan (q, p)).take count := by
        simp [← List.map_take, Function.comp_def, e.unsym_sym]
      rw [inFlight, ← List.map_drop]
      dsimp only
      rw [received]
      exact Config.ext
        (e.outer_update_procs next rest c p (rest' _)).symm
        (e.outer_update_chan next rest c q p _).symm
  | join isFirst isSecond drained agreed =>
      rename_i q call rest' call' rest'' result result'
      obtain ⟨s, s', agreed', rfl, rfl⟩ := e.meaning_call agreed
      refine (Step.join (by rw [atParty, isFirst]; rfl)
        (by rw [atParty, isSecond]; rfl)
        ⟨by rw [inFlight, drained.1]; rfl, by rw [inFlight, drained.2]; rfl⟩
        agreed').of_eq ?_
      refine Config.ext ?_ rfl
      have second := e.outer_update_procs next rest
        { c with procs := Function.update c.procs p (rest' (e.res call s)) } q
        (rest'' (e.res call' s'))
      rw [e.outer_update_procs next rest c p] at second
      exact second.symm

private theorem run_outer
    {c d : Config I Out}
    (run : Run length c d) :
    Run length (e.outer next rest c) (e.outer next rest d) := by
  induction run with
  | refl c => exact .refl _
  | step party first _ inductionHypothesis =>
      exact .step (e.party party) (e.step_outer next rest first)
        inductionHypothesis

omit [DecidableEq I.Party] [DecidableEq J.Party] in
private theorem outer_start (procs : I.Party -> Proc I Out) :
    e.outer next rest (start procs) = start fun q =>
      match e.member q with
      | some p => e.proc (procs p) >>= next p
      | none => rest q := by
  refine Config.ext rfl ?_
  funext pair
  simp only [outer, start]
  split <;> rfl

/-- A group that completes in its own network leads to its results inside the
larger one, where the other parties stand still. -/
theorem leads
    {procs : I.Party -> Proc I Out}
    {out : I.Party -> Out}
    (completes : Completes procs out)
    (next : I.Party -> Out -> Proc J Out')
    {whole whole' : J.Party -> Proc J Out'}
    (inside : ∀ p, whole (e.party p) = e.proc (procs p) >>= next p)
    (inside' : ∀ p, whole' (e.party p) = next p (out p))
    (outside : ∀ q, e.member q = none -> whole' q = whole q) :
    Leads whole whole' := by
  obtain ⟨length, run⟩ := completes Out fun _ => Proc.ret
  simp only [Proc.bind_ret] at run
  have embedded := e.run_outer next whole run
  rw [e.outer_start, e.outer_start] at embedded
  refine ⟨length, ?_⟩
  convert embedded using 3 with q q
  · cases member : e.member q with
    | none => rfl
    | some p => rw [e.party_member member, inside]
  · cases member : e.member q with
    | none => exact outside q member
    | some p =>
        rw [e.party_member member]
        exact inside' p

end Embedding

end Network
