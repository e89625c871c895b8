import Mpmt.Agent.Handlers

/-!
# The thread with the connection

The accept loop counts the sessions, and the receive loop hands the commands of a
session to workers, one after the other as they are framed.
-/

namespace Mpmt
namespace Agent

open Effects Threads Contract

variable {json : Json} {tid gen : Nat} {may : Option LockName} {P : World -> Prop}
  {done rest : List PyJson} {buf : Bytes}

/-! ## Steps of the thread -/

/-- A step that leaves the locks, the slot and the protocol instance alone. -/
theorem within_panel
    {x : World}
    {event : Event interface PyError}
    {s' : State}
    (mine : panel x.2 = event.tid)
    (same : s' = { x.1 with
      accepted := s'.accepted, conn := s'.conn, generation := s'.generation })
    (sound : Sound json (s', x.2 ++ [⟨x.1, .did event, s'⟩]))
    (switch : s'.conn = x.1.conn ∨ s'.generation = x.1.generation)
    (connected : x.1.conn.isSome = true -> s'.conn.isSome = true)
    (duty : Duty json event x) :
    Within json event x (s', x.2 ++ [⟨x.1, .did event, s'⟩]) where
  history := rfl
  sound := sound
  network := fun other => absurd mine.symm other
  switch := switch
  connected := connected
  locks := fun lock other _ owns => by
    rw [same]
    cases lock <;> exact owns
  slot := fun _ _ _ => by rw [same]
  taken := fun _ _ taken => by rwa [same] at taken
  inside := fun _ _ => by rw [same]
  duty := duty

/-- A plain step changes nothing of what the thread has read and started. -/
theorem kept_of_plain
    {event : Event interface PyError}
    {x x' : World}
    (history : x'.2 = x.2 ++ [⟨x.1, .did event, x'.1⟩])
    (plain : Plain event) :
    panel x'.2 = panel x.2 ∧ (∀ conn, received conn x'.2 = received conn x.2) ∧
      ∀ gen, workers gen x'.2 = workers gen x.2 := by
  rw [history]
  obtain ⟨panel', received', workers', _⟩ := @plain_snoc x.2 event x.1 x'.1 plain
  exact ⟨panel', received', workers'⟩

/-- What a plain step keeps, which leaves the connection and its counters alone, is
steady for the thread with the connection. -/
theorem Steady.of_plain
    (mine : ∀ x, P x -> panel x.2 = tid)
    (kept : ∀ (x x' : World) (event : Event interface PyError), P x ->
      x'.2 = x.2 ++ [⟨x.1, .did event, x'.1⟩] -> Plain event -> x'.1.conn = x.1.conn ->
      x'.1.generation = x.1.generation -> x'.1.accepted = x.1.accepted -> P x') :
    Steady json tid may P where
  stable := fun x x' event _ other within holds => by
    obtain ⟨plain, conn, generation, accepted⟩ :=
      within.network fun same => other (same.trans (mine x holds))
    exact kept x x' event holds within.history plain conn generation accepted
  idle := fun x x' event _ idle holds =>
    kept x x' event holds idle.history idle.idle.plain idle.conn idle.generation idle.accepted

theorem steady_waiting : Steady json tid may (Waiting tid) := by
  refine .of_plain (fun _ waiting => waiting.mine) ?_
  intro x x' event waiting history plain _ generation accepted
  refine ⟨(kept_of_plain history plain).1.trans waiting.mine, ?_⟩
  rw [generation, accepted]
  exact waiting.counted

theorem steady_session : Steady json tid may (Session json tid gen done buf) := by
  refine .of_plain (fun _ session => session.mine) ?_
  intro x x' event session history plain conn generation accepted
  obtain ⟨panel', received', workers'⟩ := kept_of_plain history plain
  exact ⟨panel'.trans session.mine, conn.trans session.conn,
    generation.trans session.generation, accepted.trans session.accepted,
    (received' gen).symm ▸ session.leaves, (workers' gen).trans session.handed⟩

theorem Session.waiting
    {x : World}
    (session : Session json tid gen done buf x) : Waiting tid x :=
  ⟨session.mine, session.generation.trans session.accepted.symm⟩

/-- A step that leaves the state as it is. -/
theorem Sound.still
    {x : World}
    {history : List Instant}
    (sound : Sound json x)
    (ahead : ∀ conn, x.1.accepted < conn ->
      received conn history = received conn x.2 ∧ workers conn history = workers conn x.2)
    (inOrder : ∀ gen, workers gen history <+: (heard json gen history).filterMap (known json))
    (distinct : (begun history).Nodup) : Sound json (x.1, history) where
  bound := sound.bound
  ahead := fun conn later => by
    obtain ⟨received', workers'⟩ := ahead conn later
    rw [received', workers']
    exact sound.ahead conn later
  inOrder := inOrder
  distinct := distinct
  inside := sound.inside
  once := sound.once

/-- A new identity is a different one. -/
theorem distinct_of_unborn
    {x : World}
    {fresh : Nat}
    (unborn : Unborn fresh x)
    (sound : Sound json x) : (begun x.2 ++ [fresh]).Nodup := by
  refine List.nodup_append.mpr ⟨sound.distinct, List.nodup_singleton _, ?_⟩
  intro old member new isNew same
  rw [List.mem_singleton.mp isNew] at same
  exact absurd (same ▸ unborn.begun old member) (Nat.lt_irrefl _)

/-- The next round. -/
theorem triple_proceed
    {task : Task}
    (stable : (agentContract json).Stable tid P)
    (mine : ∀ x, P x -> panel x.2 = tid)
    (ready : ∀ x x' : World, P x -> x'.1 = x.1 ->
      (∀ conn, received conn x'.2 = received conn x.2) ->
      (∀ gen, workers gen x'.2 = workers gen x.2) -> Ready json task (panel x'.2) x') :
    (agentContract json).Triple tid P (do let _ ← give (.proceed task))
      (Post (fun _ _ => True) fun _ => True) := by
  refine Triple.seq (Q := fun _ _ => True) ?_ fun _ => .ret (.const True) fun _ _ _ => trivial
  refine triple_give stable (stable_post (fun _ => .const True) (.const True)) ?_
  intro x choice fresh done sound holds _ unborn performed
  cases performed
  have received' : ∀ conn, received conn (x.2 ++ [⟨x.1, .did ⟨tid, .proceed task, .ok fresh⟩,
      x.1⟩]) = received conn x.2 := fun conn => by simp [received, chunkOf]
  have workers' : ∀ gen, workers gen (x.2 ++ [⟨x.1, .did ⟨tid, .proceed task, .ok fresh⟩,
      x.1⟩]) = workers gen x.2 := fun gen => by simp [workers, workerOf]
  have panel' : panel (x.2 ++ [⟨x.1, .did ⟨tid, .proceed task, .ok fresh⟩, x.1⟩]) = fresh := by
    simp [panel, nextRound]
  have begun' : begun (x.2 ++ [⟨x.1, .did ⟨tid, .proceed task, .ok fresh⟩, x.1⟩]) =
      begun x.2 ++ [fresh] := by simp [begun, startedBy]
  refine ⟨within_panel (mine x holds) rfl ?_ (.inl rfl) (fun some => some) trivial,
    fun task' begun => ?_, trivial⟩
  · refine sound.still (fun conn _ => ⟨received' conn, workers' conn⟩) (fun gen => ?_) ?_
    · rw [workers', heard, received']
      exact sound.inOrder gen
    · rw [begun']
      exact distinct_of_unborn unborn sound
  · cases begun
    have whole := ready x (x.1, x.2 ++ [⟨x.1, .did ⟨tid, .proceed task, .ok fresh⟩, x.1⟩])
      holds rfl received' workers'
    rwa [panel'] at whole

/-- The accept loop comes back. -/
theorem triple_serveNext :
    (agentContract json).Triple tid (Waiting tid) (do let _ ← give (.proceed .serve))
      (Post (fun _ _ => True) fun _ => True) := by
  have waiting : Steady json tid none (Waiting tid) := steady_waiting
  refine triple_proceed waiting.stable (fun _ waiting => waiting.mine) ?_
  intro x x' waiting same _ _
  refine ⟨rfl, ?_⟩
  rw [same]
  exact waiting.counted

/-- The receive loop goes on. -/
theorem triple_receiveNext :
    (agentContract json).Triple tid (Session json tid gen done buf)
      (do let _ ← give (.proceed (.receive buf))) (Post (fun _ _ => True) fun _ => True) := by
  have session : Steady json tid none (Session json tid gen done buf) := steady_session
  refine triple_proceed session.stable (fun _ session => session.mine) ?_
  intro x x' session same received' workers'
  refine ⟨gen, done, rfl, ?_, ?_, ?_, (received' gen).symm ▸ session.leaves,
    (workers' gen).trans session.handed⟩
  · rw [same]
    exact session.conn
  · rw [same]
    exact session.generation
  · rw [same]
    exact session.accepted

theorem triple_start :
    (agentContract json).Triple tid (Waiting tid) start
      (Post (fun _ _ => True) fun _ => True) := by
  have prepares : Cmd.prepare.Idle := trivial
  exact ((triple_pass prepares rfl steady_waiting).raising fun _ _ _ => trivial).seq
    fun _ => triple_serveNext

/-! ## The accept loop -/

/-- A connection is there, and its session is not counted yet. -/
structure Connected (tid : Nat) (x : World) : Prop where
  mine : panel x.2 = tid
  conn : x.1.conn = some (x.1.generation + 1)
  accepted : x.1.accepted = x.1.generation + 1
  unread : received (x.1.generation + 1) x.2 = []
  unused : workers (x.1.generation + 1) x.2 = []

theorem Connected.kept
    {x x' : World}
    {event : Event interface PyError}
    (connected : Connected tid x)
    (history : x'.2 = x.2 ++ [⟨x.1, .did event, x'.1⟩])
    (plain : Plain event)
    (conn : x'.1.conn = x.1.conn)
    (generation : x'.1.generation = x.1.generation)
    (accepted : x'.1.accepted = x.1.accepted) : Connected tid x' := by
  obtain ⟨panel', received', workers'⟩ := kept_of_plain history plain
  refine ⟨panel'.trans connected.mine, ?_, ?_, ?_, ?_⟩
  · rw [conn, generation]
    exact connected.conn
  · rw [accepted, generation]
    exact connected.accepted
  · rw [received', generation]
    exact connected.unread
  · rw [workers', generation]
    exact connected.unused

theorem triple_accept :
    (agentContract json).Triple tid (Waiting tid) (give .accept)
      (Post (fun _ => Connected tid) fun _ => True) := by
  have waiting : Steady json tid none (Waiting tid) := steady_waiting
  have connected : Steady json tid none (Connected tid) :=
    .of_plain (fun _ connected => connected.mine) fun _ _ _ => Connected.kept
  refine triple_give waiting.stable (stable_post (fun _ => connected.stable) (.const True)) ?_
  intro x choice fresh done sound holds _ _ performed
  obtain ⟨none, result⟩ := done_of_risky performed
  have accepts : Plain (⟨tid, .accept, done.reply⟩ : Event interface PyError) := trivial
  obtain ⟨panel', received', workers', _⟩ :=
    @plain_snoc x.2 ⟨tid, .accept, done.reply⟩ x.1 done.state accepts
  refine ⟨?_, fun task begun => ?_, ?_⟩
  · rcases result with ⟨_, same⟩ | ⟨_, _, _, same⟩
    · refine within_panel holds.mine (by rw [same]) (sound.plain rfl accepts ?_ ?_ ?_ ?_)
        (.inr (by rw [same])) (fun _ => by rw [same]; rfl) trivial
      · show done.state.generation ≤ done.state.accepted
        rw [same]
        exact Nat.le_succ_of_le sound.bound
      · show x.1.accepted ≤ done.state.accepted
        rw [same]
        exact Nat.le_succ _
      · show ∀ tid ∈ done.state.inside, done.state.execThread = some tid
        rw [same]
        exact sound.inside
      · show done.state.inside.Nodup
        rw [same]
        exact sound.once
    · refine within_panel holds.mine (by rw [same]) ?_ (.inl (by rw [same]))
        (fun some => by rw [same]; exact some) trivial
      rw [same]
      exact sound.plain rfl trivial sound.bound (Nat.le_refl _) sound.inside sound.once
  · rw [none] at begun
    cases begun
  · rcases result with ⟨ok, same⟩ | ⟨_, raised, _, _⟩
    · have later : x.1.accepted < x.1.generation + 1 :=
        Nat.lt_succ_of_le (Nat.le_of_eq holds.counted.symm)
      have generation : done.state.generation = x.1.generation := by rw [same]
      have accepted : done.state.accepted = x.1.generation + 1 := by
        rw [same, holds.counted]
      have conn : done.state.conn = some (x.1.generation + 1) := by
        rw [same, holds.counted]
      obtain ⟨unread, unused⟩ := sound.ahead _ later
      rw [ok]
      show Connected tid (after tid x done)
      refine ⟨panel'.trans holds.mine, ?_, ?_, ?_, ?_⟩
      · show done.state.conn = some (done.state.generation + 1)
        rw [conn, generation]
      · show done.state.accepted = done.state.generation + 1
        rw [accepted, generation]
      · show received (done.state.generation + 1) _ = []
        rw [generation]
        exact (received' _).trans unread
      · show workers (done.state.generation + 1) _ = []
        rw [generation]
        exact (workers' _).trans unused
    · rw [raised]
      trivial

theorem steady_counted
    {generation : Nat} :
    Steady json tid may fun x => Connected tid x ∧ x.1.generation = generation :=
  .of_plain (fun _ holds => holds.1.mine)
    fun _ _ _ holds history plain conn counted accepted =>
      ⟨holds.1.kept history plain conn counted accepted, counted.trans holds.2⟩

/-- A session begins with the connection. -/
theorem triple_setGeneration
    {generation : Nat} :
    (agentContract json).Triple tid
      (fun x => Connected tid x ∧ x.1.generation = generation)
      (give (.setGeneration (generation + 1)))
      (Post (fun _ => Session json tid (generation + 1) [] []) fun _ => True) := by
  have before : Steady json tid none fun x => Connected tid x ∧ x.1.generation = generation :=
    steady_counted
  have session : Steady json tid none (Session json tid (generation + 1) [] []) :=
    steady_session
  refine triple_give before.stable (stable_post (fun _ => session.stable) (.const True)) ?_
  intro x choice fresh done sound ⟨connected, counted⟩ _ _ performed
  have counts : Plain (⟨tid, .setGeneration (generation + 1), .ok ()⟩ :
      Event interface PyError) := trivial
  cases performed
  obtain ⟨panel', received', workers', _⟩ := @plain_snoc x.2
    ⟨tid, .setGeneration (generation + 1), .ok ()⟩ x.1 { x.1 with generation := generation + 1 }
    counts
  have accepted : x.1.accepted = generation + 1 := by
    rw [← counted]
    exact connected.accepted
  have conn : x.1.conn = some (generation + 1) := by
    rw [← counted]
    exact connected.conn
  have unread : received (generation + 1) x.2 = [] := by
    rw [← counted]
    exact connected.unread
  have unused : workers (generation + 1) x.2 = [] := by
    rw [← counted]
    exact connected.unused
  refine ⟨within_panel connected.mine rfl (sound.plain rfl counts (Nat.le_of_eq accepted.symm)
    (Nat.le_refl _) sound.inside sound.once) (.inl rfl) (fun some => some) trivial,
    fun task begun => (by cases begun), ?_⟩
  refine ⟨panel'.trans connected.mine, conn, rfl, accepted, ?_, (workers' _).trans unused⟩
  have empty := (received' (generation + 1)).trans unread
  show Leaves json (received (generation + 1) (x.2 ++ [_])) [] []
  rw [empty]
  exact leaves_nil

theorem triple_closeEach
    (steady : Steady json tid none P)
    (entries : List Entry) :
    (agentContract json).Triple tid P (closeEach entries) (Post (fun _ => P) fun _ => False) := by
  induction entries with
  | nil => exact .ret steady.stable fun _ _ holds => holds
  | cons entry rest inductionHypothesis =>
      exact (triple_close steady).seq fun _ => inductionHypothesis

/-- A round of the accept loop. -/
theorem triple_serve :
    (agentContract json).Triple tid (Waiting tid) serve
      (Post (fun _ _ => True) fun _ => True) := by
  have reads : Cmd.generation.Idle := trivial
  have lists : Cmd.allReserved.Idle := trivial
  have clears : Cmd.clearReserved.Idle := trivial
  refine triple_accept.seq fun _ => ?_
  refine Triple.seq (Q := fun generation x => Connected tid x ∧ x.1.generation = generation) ?_
    fun generation => ?_
  · have counted : ∀ generation, Steady json tid none
        fun x => Connected tid x ∧ x.1.generation = generation := fun _ => steady_counted
    refine (triple_read reads rfl (.of_plain (fun _ connected => connected.mine)
      fun _ _ _ => Connected.kept) (fun generation => (counted generation).stable)
      ?_).raising fun _ _ never => never.elim
    intro x choice fresh done _ _ still _ performed
    cases performed
    exact ⟨_, rfl, still, rfl⟩
  refine triple_setGeneration.seq fun _ => ?_
  have session : ∀ may, Steady json tid may (Session json tid (generation + 1) [] []) :=
    fun may => steady_session
  have held : Steady json tid none (Held tid .reserved) :=
    steady_held (Option.some_ne_none LockName.reserved).symm
  have inside := (session none).and held
  refine Triple.seq (Q := fun _ => Session json tid (generation + 1) [] []) ?_
    fun _ => triple_receiveNext
  refine (triple_withLock (session _) (fun _ => session _) (.const False) ?_).raising
    fun _ _ never => never.elim
  refine Triple.raising (F := fun _ => False) ?_ fun _ _ never => never.elim
  refine Triple.seq (Q := fun _ x => Session json tid (generation + 1) [] [] x ∧
    Held tid .reserved x) ?_ fun entries => ?_
  · refine triple_read lists rfl inside (fun _ => inside.stable) ?_
    intro x choice fresh done _ _ still _ performed
    cases performed
    exact ⟨_, rfl, still⟩
  refine (triple_closeEach inside entries).seq fun _ => ?_
  refine triple_read clears rfl inside (fun _ => inside.stable) ?_
  intro x choice fresh done _ _ still _ performed
  cases performed
  exact ⟨_, rfl, still⟩

/-! ## The receive loop -/

/-- The session has dispatched `done` of what is framed, and `rest` is to come;
`left` is what the frames leave. -/
structure Dispatching (json : Json) (tid gen : Nat) (done rest : List PyJson)
    (left : Option Bytes) (x : World) : Prop where
  mine : panel x.2 = tid
  conn : x.1.conn = some gen
  generation : x.1.generation = gen
  accepted : x.1.accepted = gen
  framed : heard json gen x.2 = done ++ rest
  handed : workers gen x.2 = done.filterMap (known json)
  leaves : ∀ buf, left = some buf -> Leaves json (received gen x.2) (done ++ rest) buf

variable {left : Option Bytes} {value : PyJson} {command : Command}

theorem Dispatching.kept
    {x x' : World}
    {event : Event interface PyError}
    (dispatching : Dispatching json tid gen done rest left x)
    (history : x'.2 = x.2 ++ [⟨x.1, .did event, x'.1⟩])
    (plain : Plain event)
    (conn : x'.1.conn = x.1.conn)
    (generation : x'.1.generation = x.1.generation)
    (accepted : x'.1.accepted = x.1.accepted) :
    Dispatching json tid gen done rest left x' := by
  obtain ⟨panel', received', workers'⟩ := kept_of_plain history plain
  refine ⟨panel'.trans dispatching.mine, conn.trans dispatching.conn,
    generation.trans dispatching.generation, accepted.trans dispatching.accepted, ?_,
    (workers' gen).trans dispatching.handed, ?_⟩
  · rw [heard, received']
    exact dispatching.framed
  · rw [received']
    exact dispatching.leaves

theorem steady_dispatching :
    Steady json tid may (Dispatching json tid gen done rest left) :=
  .of_plain (fun _ dispatching => dispatching.mine) fun _ _ _ => Dispatching.kept

theorem Dispatching.waiting
    {x : World}
    (dispatching : Dispatching json tid gen done rest left x) : Waiting tid x :=
  ⟨dispatching.mine, dispatching.generation.trans dispatching.accepted.symm⟩

/-- A value without a worker is dispatched when it is answered. -/
theorem Dispatching.skip
    {x : World}
    (dispatching : Dispatching json tid gen done (value :: rest) left x)
    (unknown : known json value = none) :
    Dispatching json tid gen (done ++ [value]) rest left x := by
  have same : done ++ [value] ++ rest = done ++ value :: rest := by simp
  refine ⟨dispatching.mine, dispatching.conn, dispatching.generation, dispatching.accepted,
    ?_, ?_, ?_⟩
  · rw [same]
    exact dispatching.framed
  · rw [List.filterMap_append, List.filterMap_cons_none unknown, List.filterMap_nil,
      List.append_nil]
    exact dispatching.handed
  · rw [same]
    exact dispatching.leaves

/-- The thread with the connection answers a value. -/
theorem triple_greet
    {msg : Msg}
    (greets : greeting json value = some msg) :
    (agentContract json).Triple tid (Dispatching json tid gen done (value :: rest) left)
      (send msg none)
      (Post (fun _ => Dispatching json tid gen done (value :: rest) left)
        fun _ => False) := by
  have steady : ∀ may, Steady json tid may
      (Dispatching json tid gen done (value :: rest) left) := fun may => steady_dispatching
  have held : Steady json tid none (Held tid .send) :=
    steady_held (Option.some_ne_none LockName.send).symm
  have inside := (steady none).and held
  refine triple_send (fun _ => True) (fun conn _ => conn = gen) (steady _) (steady _)
    (inside.and (.const True)) (fun conn => inside.and (.const (conn = gen))) ?_ ?_ ?_ ?_ ?_
  · exact .ret inside.stable fun _ _ holds => ⟨holds, trivial⟩
  · intro x dispatching
    rw [dispatching.conn]
    rfl
  · intro x conn dispatching _ here
    exact Option.some.inj (here.symm.trans dispatching.conn)
  · intro x conn reply dispatching aimed _
    refine .inl ⟨dispatching.mine.symm, value, ?_, greets⟩
    rw [aimed, dispatching.framed]
    exact List.mem_append_right _ List.mem_cons_self
  · intro x conn reply dispatching
    have writes : Plain (⟨tid, .sendall conn msg, reply⟩ : Event interface PyError) := trivial
    exact dispatching.kept rfl writes rfl rfl rfl

/-- A worker is started for a command. -/
theorem triple_spawn
    (named : known json value = some command) :
    (agentContract json).Triple tid (Dispatching json tid gen done (value :: rest) left)
      (give (.spawn (.worker command gen)))
      (Post (fun _ => Dispatching json tid gen (done ++ [value]) rest left)
        (Waiting tid)) := by
  have before : Steady json tid none (Dispatching json tid gen done (value :: rest) left) :=
    steady_dispatching
  have behind : Steady json tid none (Dispatching json tid gen (done ++ [value]) rest left) :=
    steady_dispatching
  have waiting : Steady json tid none (Waiting tid) := steady_waiting
  have same : done ++ [value] ++ rest = done ++ value :: rest := by simp
  refine triple_give before.stable (stable_post (fun _ => behind.stable) waiting.stable) ?_
  intro x choice fresh did sound dispatching later unborn performed
  have received' : ∀ reply conn, received conn (x.2 ++ [⟨x.1,
      .did ⟨tid, .spawn (.worker command gen), reply⟩, x.1⟩]) = received conn x.2 :=
    fun reply conn => by simp [received, chunkOf]
  have panel' : ∀ reply, panel (x.2 ++ [⟨x.1,
      .did ⟨tid, .spawn (.worker command gen), reply⟩, x.1⟩]) = panel x.2 :=
    fun reply => by simp [panel, nextRound]
  cases choice with
  | go =>
      cases performed
      have workers' : ∀ gen', workers gen' (x.2 ++ [⟨x.1,
          .did ⟨tid, .spawn (.worker command gen), .ok fresh⟩, x.1⟩]) =
          workers gen' x.2 ++ if gen = gen' then [command] else [] := fun gen' => by
        by_cases here : gen = gen' <;> simp [workers, workerOf, here]
      have begun' : begun (x.2 ++ [⟨x.1, .did ⟨tid, .spawn (.worker command gen), .ok fresh⟩,
          x.1⟩]) = begun x.2 ++ [fresh] := by simp [begun, startedBy]
      have handed : workers gen x.2 ++ [command] = (done ++ [value]).filterMap (known json) := by
        rw [dispatching.handed, List.filterMap_append, List.filterMap_cons_some named,
          List.filterMap_nil]
      refine ⟨within_panel dispatching.mine rfl ?_ (.inl rfl) (fun some => some)
        dispatching.conn, fun task begun => ?_, ?_⟩
      · refine sound.still (fun conn later => ⟨received' _ conn, ?_⟩) (fun gen' => ?_) ?_
        · rw [workers', if_neg, List.append_nil]
          rw [dispatching.accepted] at later
          exact Nat.ne_of_lt later
        · rw [workers', heard, received']
          split
          · next here =>
              cases here
              have framed : (readChunks json [] (received gen x.2)).dispatched =
                  done ++ value :: rest := dispatching.framed
              rw [framed, handed, ← same]
              exact (List.prefix_append _ _).filterMap _
          · rw [List.append_nil]
            exact sound.inOrder gen'
        · rw [begun']
          exact distinct_of_unborn unborn sound
      · cases begun
        refine ⟨⟨_, List.mem_append_right _ List.mem_cons_self, tid, rfl⟩, ?_, ?_, ?_, ?_⟩
        · show x.1.conn.isSome = true
          rw [dispatching.conn]
          rfl
        · exact (own_other (Nat.ne_of_lt later)).trans (unborn.unseen fresh (Nat.le_refl _))
        · exact fun slot => Nat.lt_irrefl _ (unborn.slot fresh slot)
        · exact fun inside => Nat.lt_irrefl _ (unborn.inside fresh inside)
      · refine ⟨(panel' _).trans dispatching.mine, dispatching.conn, dispatching.generation,
          dispatching.accepted, ?_, ?_, ?_⟩
        · rw [same]
          show heard json gen (x.2 ++ [_]) = _
          rw [heard, received']
          exact dispatching.framed
        · rw [← handed]
          exact (workers' gen).trans (by rw [if_pos rfl])
        · rw [same]
          show ∀ buf, left = some buf -> Leaves json (received gen (x.2 ++ [_])) _ buf
          rw [received']
          exact dispatching.leaves
  | fail error =>
      rw [perform] at performed
      split at performed
      · cases performed
      · cases performed
        have workers' : ∀ gen', workers gen' (x.2 ++ [⟨x.1,
            .did ⟨tid, .spawn (.worker command gen), .error error⟩, x.1⟩]) =
            workers gen' x.2 := fun gen' => by simp [workers, workerOf]
        have begun' : begun (x.2 ++ [⟨x.1, .did ⟨tid, .spawn (.worker command gen),
            .error error⟩, x.1⟩]) = begun x.2 := by simp [begun, startedBy]
        refine ⟨within_panel dispatching.mine rfl ?_ (.inl rfl) (fun some => some)
          dispatching.conn, fun task begun => (by cases begun), ?_⟩
        · refine sound.still (fun conn _ => ⟨received' _ conn, workers' conn⟩)
            (fun gen' => ?_) ?_
          · rw [workers', heard, received']
            exact sound.inOrder gen'
          · rw [begun']
            exact sound.distinct
        · exact ⟨(panel' _).trans dispatching.mine, dispatching.waiting.counted⟩
  | hear | port | token => cases performed

/-- A value is answered, and a worker is started for its command if it has a
handler. -/
theorem triple_dispatch :
    (agentContract json).Triple tid (Dispatching json tid gen done (value :: rest) left)
      (dispatch json value)
      (Post (fun _ => Dispatching json tid gen (done ++ [value]) rest left)
        (Waiting tid)) := by
  have reads : Cmd.generation.Idle := trivial
  have steady : Steady json tid none (Dispatching json tid gen done (value :: rest) left) :=
    steady_dispatching
  have behind : Steady json tid none (Dispatching json tid gen (done ++ [value]) rest left) :=
    steady_dispatching
  cases isRead : read json value with
  | error =>
      simp only [dispatch, isRead]
      exact .throw steady.stable fun _ _ dispatching => dispatching.waiting
  | ok reading =>
      have greets : greeting json value = some reading.answer := by
        simp only [greeting, isRead]
      cases reading with
      | unknown reply =>
          have unknown : known json value = none := by simp only [known, isRead]
          simp only [dispatch, isRead]
          exact ((triple_greet greets).returning fun _ _ _ dispatching =>
            dispatching.skip unknown).raising fun _ _ never => never.elim
      | handled command =>
          have isKnown : known json value = some command := by simp only [known, isRead]
          simp only [dispatch, isRead]
          refine Triple.seq (Q := fun generation x => generation = gen ∧
            Dispatching json tid gen done (value :: rest) left x) ?_ fun generation => ?_
          · refine (triple_read reads rfl steady
              (fun _ => (Stable.const _).and steady.stable) ?_).raising
              fun _ _ never => never.elim
            intro x choice fresh done _ holds still _ performed
            cases performed
            exact ⟨_, rfl, holds.generation, still⟩
          intro x sound ⟨same, dispatching⟩
          subst same
          refine Triple.seq ((triple_greet greets).raising fun _ _ never => never.elim)
            (fun _ => ?_) x sound dispatching
          exact (triple_spawn isKnown).seq fun _ => .ret behind.stable fun _ _ holds => holds

theorem triple_dispatchEach :
    (agentContract json).Triple tid (Dispatching json tid gen done rest left)
      (dispatchEach json rest)
      (Post (fun _ => Dispatching json tid gen (done ++ rest) [] left) (Waiting tid)) := by
  induction rest generalizing done with
  | nil =>
      rw [List.append_nil]
      have steady : Steady json tid none (Dispatching json tid gen done [] left) :=
        steady_dispatching
      exact .ret steady.stable fun _ _ holds => holds
  | cons value rest inductionHypothesis =>
      rw [List.append_cons]
      exact triple_dispatch.seq fun _ => inductionHypothesis

/-- What a chunk adds to a session. -/
theorem triple_recv :
    (agentContract json).Triple tid (Session json tid gen done buf) (give (.recv gen))
      (Post (fun chunk x => Waiting tid x ∧ (chunk ≠ [] ->
        ¬ (buf ++ chunk).length > maxFrameBytes ->
          Dispatching json tid gen done (takeFrames json (buf ++ chunk)).1
            (takeFrames json (buf ++ chunk)).2 x)) (Waiting tid)) := by
  have session : Steady json tid none (Session json tid gen done buf) := steady_session
  have waiting : Steady json tid none (Waiting tid) := steady_waiting
  refine triple_give session.stable (stable_post (fun chunk => waiting.stable.and
    (.imp fun _ => .imp fun _ => ?_)) waiting.stable) ?_
  · have steady : Steady json tid none (Dispatching json tid gen done
        (takeFrames json (buf ++ chunk)).1 (takeFrames json (buf ++ chunk)).2) :=
      steady_dispatching
    exact steady.stable
  intro x choice fresh did sound holds _ _ performed
  have workers' : ∀ reply gen', workers gen' (x.2 ++ [⟨x.1, .did ⟨tid, .recv gen, reply⟩, x.1⟩])
      = workers gen' x.2 := fun reply gen' => by simp [workers, workerOf]
  have panel' : ∀ reply, panel (x.2 ++ [⟨x.1, .did ⟨tid, .recv gen, reply⟩, x.1⟩]) =
      panel x.2 := fun reply => by simp [panel, nextRound]
  have begun' : ∀ reply, begun (x.2 ++ [⟨x.1, .did ⟨tid, .recv gen, reply⟩, x.1⟩]) =
      begun x.2 := fun reply => by simp [begun, startedBy]
  have whole : heard json gen x.2 = done := holds.leaves.dispatched
  have duty : ∀ reply, Duty json ⟨tid, .recv gen, reply⟩ x := fun reply => by
    show workers gen x.2 = (heard json gen x.2).filterMap (known json)
    rw [whole]
    exact holds.handed
  have waits : ∀ reply, Waiting tid (x.1, x.2 ++ [⟨x.1, .did ⟨tid, .recv gen, reply⟩, x.1⟩]) :=
    fun reply => ⟨(panel' reply).trans holds.mine, holds.waiting.counted⟩
  cases choice with
  | fail error =>
      rw [perform] at performed
      split at performed
      · cases performed
        have received' : ∀ conn, received conn (x.2 ++ [⟨x.1, .did ⟨tid, .recv gen,
            .error error⟩, x.1⟩]) = received conn x.2 := fun conn => by
          simp [received, chunkOf]
        refine ⟨within_panel holds.mine rfl ?_ (.inl rfl) (fun some => some) (duty _),
          fun task begun => (by cases begun), waits _⟩
        refine sound.still (fun conn _ => ⟨received' conn, workers' _ conn⟩) (fun gen' => ?_) ?_
        · rw [workers', heard, received']
          exact sound.inOrder gen'
        · rw [begun']
          exact sound.distinct
      · cases performed
  | hear chunk =>
      rw [perform] at performed
      split at performed
      · cases performed
        have other : ∀ conn, gen ≠ conn -> received conn (x.2 ++ [⟨x.1, .did ⟨tid, .recv gen,
            .ok chunk⟩, x.1⟩]) = received conn x.2 := fun conn different => by
          simp [received, chunkOf, different]
        have mine : received gen (x.2 ++ [⟨x.1, .did ⟨tid, .recv gen, .ok chunk⟩, x.1⟩]) =
            if chunk = [] then received gen x.2 else received gen x.2 ++ [chunk] := by
          by_cases empty : chunk = [] <;> simp [received, chunkOf, nonempty, empty]
        have grows : done <+: heard json gen (x.2 ++ [⟨x.1, .did ⟨tid, .recv gen, .ok chunk⟩,
            x.1⟩]) := by
          rw [heard, mine]
          split
          · exact whole.symm ▸ List.prefix_rfl
          · by_cases large : (buf ++ chunk).length > maxFrameBytes
            · exact (holds.leaves.over large).symm ▸ List.prefix_rfl
            · rw [(holds.leaves.next large).1]
              exact List.prefix_append _ _
        refine ⟨within_panel holds.mine rfl ?_ (.inl rfl) (fun some => some) (duty _),
          fun task begun => (by cases begun), waits _, fun nonempty fits => ?_⟩
        · refine sound.still (fun conn later => ⟨other conn ?_, workers' _ conn⟩)
            (fun gen' => ?_) ?_
          · rw [holds.accepted] at later
            exact Nat.ne_of_lt later
          · rw [workers']
            by_cases here : gen = gen'
            · cases here
              rw [holds.handed]
              exact grows.filterMap _
            · rw [heard, other gen' here]
              exact sound.inOrder gen'
          · rw [begun']
            exact sound.distinct
        · rw [if_neg nonempty] at mine
          obtain ⟨framed, leaves⟩ := holds.leaves.next fits
          refine ⟨(panel' _).trans holds.mine, holds.conn, holds.generation, holds.accepted,
            ?_, (workers' _ gen).trans holds.handed, ?_⟩
          · show heard json gen (x.2 ++ [_]) = _
            rw [heard, mine]
            exact framed
          · show ∀ buf', _ -> Leaves json (received gen (x.2 ++ [_])) _ buf'
            rw [mine]
            exact leaves
      · cases performed
  | go | port | token => cases performed

/-- What a round of the receive loop leaves behind it. -/
def Behind (json : Json) (tid : Nat) (x : World) : Option Bytes -> Prop
  | some buf => ∃ gen done, Session json tid gen done buf x
  | none => Waiting tid x

theorem stable_behind
    (left : Option Bytes) : (agentContract json).Stable tid fun x => Behind json tid x left := by
  cases left with
  | none =>
      have waiting : Steady json tid none (Waiting tid) := steady_waiting
      exact waiting.stable
  | some buf =>
      intro x x' event inv other within ⟨gen, done, session⟩
      have steady : Steady json tid none (Session json tid gen done buf) := steady_session
      exact ⟨gen, done, steady.stable x x' event inv other within session⟩

theorem triple_receiveRound :
    (agentContract json).Triple tid (Session json tid gen done buf) (receiveRound json buf)
      (Post (fun left x => Behind json tid x left) (Waiting tid)) := by
  have reads : Cmd.conn.Idle := trivial
  have session : Steady json tid none (Session json tid gen done buf) := steady_session
  have waiting : Steady json tid none (Waiting tid) := steady_waiting
  refine Triple.seq (Q := fun conn x => conn = some gen ∧ Session json tid gen done buf x) ?_
    fun conn => ?_
  · refine (triple_read reads rfl session (fun _ => (Stable.const _).and session.stable)
      ?_).raising fun _ _ never => never.elim
    intro x choice fresh done _ holds still _ performed
    cases performed
    exact ⟨_, rfl, holds.conn, still⟩
  intro x sound ⟨same, holds⟩
  subst same
  refine Triple.seq triple_recv (fun chunk => ?_) x sound holds
  have pending : (agentContract json).Stable tid fun x => Waiting tid x ∧ (chunk ≠ [] ->
      ¬ (buf ++ chunk).length > maxFrameBytes ->
        Dispatching json tid gen done (takeFrames json (buf ++ chunk)).1
          (takeFrames json (buf ++ chunk)).2 x) := by
    have steady : Steady json tid none (Dispatching json tid gen done
        (takeFrames json (buf ++ chunk)).1 (takeFrames json (buf ++ chunk)).2) :=
      steady_dispatching
    exact waiting.stable.and (.imp fun _ => .imp fun _ => steady.stable)
  split
  · exact .ret pending fun _ _ holds => holds.1
  split
  · exact .throw pending fun _ _ holds => holds.1
  · next nonempty fits =>
      refine (triple_dispatchEach.given fun _ _ holds => holds.2 nonempty fits).seq fun _ => ?_
      have steady : Steady json tid none (Dispatching json tid gen
          (done ++ (takeFrames json (buf ++ chunk)).1) []
          (takeFrames json (buf ++ chunk)).2) := steady_dispatching
      split
      · exact .throw steady.stable fun _ _ holds => holds.waiting
      · next buf' rest =>
          refine .ret steady.stable fun _ _ holds => ⟨gen, _, holds.mine, holds.conn,
            holds.generation, holds.accepted, ?_, holds.handed⟩
          have leaves := holds.leaves buf' rest
          rwa [List.append_nil] at leaves

/-- A round of the receive loop. -/
theorem triple_receive :
    (agentContract json).Triple tid (Session json tid gen done buf) (receive json buf)
      (Post (fun _ _ => True) fun _ => True) := by
  have waiting : Steady json tid none (Waiting tid) := steady_waiting
  refine (triple_receiveRound.attempt (fun left => stable_behind left) waiting.stable).seq
    fun result => ?_
  cases result with
  | error => exact triple_serveNext
  | ok left =>
      cases left with
      | none => exact triple_serveNext
      | some buf' =>
          intro x sound ⟨gen', done', session⟩
          exact triple_receiveNext x sound session

/-! ## All threads -/

/-- Only a thread that a command starts is begun. -/
theorem begun_of_perform
    {fresh tid' : Nat}
    {cmd : Cmd}
    {s s' s'' : State}
    {did : Done interface PyError State Task cmd}
    (performed : perform tid fresh choice cmd s = some did)
    (began : startedBy ⟨s', .did ⟨tid, cmd, did.reply⟩, s''⟩ = some tid') :
    tid' = fresh ∧ did.started.isSome = true := by
  cases cmd with
  | proceed task =>
      cases performed
      exact ⟨(Option.some.inj began).symm, rfl⟩
  | spawn task =>
      cases choice with
      | go =>
          cases performed
          exact ⟨(Option.some.inj began).symm, rfl⟩
      | fail error =>
          rw [perform] at performed
          split at performed
          · cases performed
          · cases performed
            cases began
      | _ => cases performed
  | _ => cases began

/-- A step uses the identity of its thread and of the one that it starts. -/
theorem unborn_step
    {fresh : Nat}
    {cmd : Cmd}
    {x : World}
    {did : Done interface PyError State Task cmd}
    {history : List Instant}
    (unborn : Unborn fresh x)
    (old : tid < fresh)
    (performed : perform tid fresh choice cmd x.1 = some did)
    (within : Within json ⟨tid, cmd, did.reply⟩ x (did.state, history)) :
    Unborn (if did.started.isSome then fresh + 1 else fresh) (did.state, history) := by
  have grows : fresh ≤ if did.started.isSome then fresh + 1 else fresh := by
    split <;> omega
  have behind : history = x.2 ++ [⟨x.1, .did ⟨tid, cmd, did.reply⟩, did.state⟩] :=
    within.history
  have began : ∀ tid' ∈ begun history, tid' ∈ begun x.2 ∨
      tid' = fresh ∧ did.started.isSome = true := by
    rw [behind, begun, List.filterMap_append]
    intro tid' member
    rcases List.mem_append.mp member with old | new
    · exact .inl old
    · obtain ⟨_, isNew, began⟩ := List.mem_filterMap.mp new
      rw [List.mem_singleton.mp isNew] at began
      exact .inr (begun_of_perform performed began)
  refine ⟨fun tid' member => ?_, fun tid' later => ?_, fun tid' slot => ?_,
    fun tid' inside => ?_⟩
  · rcases began tid' member with old | ⟨rfl, started⟩
    · exact Nat.lt_of_lt_of_le (unborn.begun tid' old) grows
    · rw [if_pos started]
      exact Nat.lt_succ_self _
  · have different : tid ≠ tid' := Nat.ne_of_lt (Nat.lt_of_lt_of_le old (Nat.le_trans grows later))
    show own tid' history = []
    rw [behind, own_other different]
    exact unborn.unseen tid' (Nat.le_trans grows later)
  · refine Nat.lt_of_lt_of_le ?_ grows
    by_cases same : tid' = tid
    · rwa [same]
    · exact unborn.slot tid' (within.taken tid' same slot)
  · refine Nat.lt_of_lt_of_le ?_ grows
    by_cases same : tid' = tid
    · rwa [same]
    · exact unborn.inside tid' ((within.inside tid' same).mp inside)

theorem sound_fresh : Sound json (.fresh, []) where
  bound := Nat.le_refl _
  ahead := fun _ _ => ⟨rfl, rfl⟩
  inOrder := fun _ => List.nil_prefix
  distinct := List.nodup_nil
  inside := fun _ inside => by cases inside
  once := List.nodup_nil

theorem unborn_fresh : Unborn 0 (.fresh, []) where
  begun := fun _ member => by cases member
  unseen := fun _ _ => rfl
  slot := fun _ slot => by cases slot
  inside := fun _ inside => by cases inside

/-- Every thread of the Agent keeps the contract. -/
theorem agent_verified : (agentContract json).Verified where
  inv := fun _ _ _ _ within => within.sound
  stable := by
    intro task tid
    have waiting : Steady json tid none (Waiting tid) := steady_waiting
    cases task with
    | start => exact waiting.stable
    | serve => exact waiting.stable
    | receive buf => exact stable_behind (some buf)
    | worker command gen => exact stable_newborn
  arrives := fun _ _ _ _ may => by cases may
  restart := fun _ _ => sound_fresh
  main := fun _ _ => ⟨rfl, rfl⟩
  tasks := by
    intro task tid
    cases task with
    | start => exact triple_start.weaken (fun _ _ holds => holds) fun _ _ _ _ => trivial
    | serve => exact triple_serve.weaken (fun _ _ holds => holds) fun _ _ _ _ => trivial
    | receive buf =>
        intro x sound ⟨gen, done, session⟩
        exact triple_receive.weaken (fun _ _ holds => holds) (fun _ _ _ _ => trivial)
          x sound session
    | worker command gen =>
        exact triple_runCmd.weaken (fun _ _ holds => holds) fun _ _ _ _ => trivial
  uses := fun tid n choice cmd s g did g' _ old unborn performed within =>
    unborn_step unborn old performed within
  older := fun n x unborn => {
    begun := fun tid member => Nat.lt_succ_of_lt (unborn.begun tid member)
    unseen := fun tid later => unborn.unseen tid (Nat.le_of_succ_le later)
    slot := fun tid slot => Nat.lt_succ_of_lt (unborn.slot tid slot)
    inside := fun tid inside => Nat.lt_succ_of_lt (unborn.inside tid inside) }
  newborn := fun _ _ => unborn_fresh

end Agent
end Mpmt
