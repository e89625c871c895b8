import Mpmt.Manager.Lifecycle
import Mpmt.Manager.Tokens

/-!
# The preconditions of the services

What a service asks of its user is checked when the operation enters the queue.
For a JOIN or a QUIT it still holds when the operation becomes BUSY.  An UPDATE may
find that its user has quitted meanwhile, and its tokens are looked up once more
before an Agent is told to execute it.
-/

namespace Mpmt
namespace Manager

open Effects Threads Contract

/-- What a service asks of its user. -/
def Qualifies (db : Db) (userId : String) : ProtType -> Prop
  | .join => ¬ db.Joined userId
  | .update | .quit => Equipped db userId
  | .query => True

/-- Operations become BUSY when their users qualify for them. -/
def Qualified (trace : List Instant) : Prop :=
  ∀ moment ∈ trace, ∀ opId face, Begins opId moment = true ->
    moment.before.db.faceOf opId = some face ->
      Qualifies moment.before.db face.userId face.protType

/-! ## A QUIT ahead of an UPDATE -/

/-- A request is made, and its thread takes a step for each choice. -/
def sampleRequest (tid : Nat) (request : Request) (choices : List Choice) :
    List (Act Task Choice) :=
  .arrive (.handle request 3) :: turns tid choices

/-- An operation is reserved, and a first request for its execution puts it in
the queue. -/
def sampleQueued (tid : Nat) (reserve execute : Request) : List (Act Task Choice) :=
  sampleRequest tid reserve [.go, .go, .go, .clock 0, .clock 0, .go, .go] ++
    sampleRequest (tid + 1) execute
      [.clock 0, .go, .go, .clock 0, .go, .clock 0, .clock 0, .clock 0, .go]

/-- The Agents answer a request, each with the event and the text `token`. -/
def sampleAnswers (requestId event : String) : List Choice :=
  ["x", "y", "z"].flatMap fun token =>
    [.answer false, .go, .hear ⟨some requestId, some event, none, some token⟩]

/-- The Agents reserve their ports. -/
def samplePorts (requestId : String) : List Choice :=
  [1, 2, 3].flatMap fun port =>
    [.hear ⟨some requestId, some "READY", none, none⟩,
      .hear ⟨some requestId, some "RESERVED", some port, none⟩]

/-- The rest of a request whose operation is promoted and gets its ports. -/
def sampleServed (tid : Nat) (requestId : String) : List (Act Task Choice) :=
  samplePromote tid ++ turns tid (.clock 0 :: List.replicate 9 .go ++
    samplePorts requestId ++ [.clock 0, .go, .go, .go])

/-- A protocol in which all Agents answer, behind `reads` commands to the
database. -/
def sampleProtocol (tid reads : Nat) (requestId : String) : List (Act Task Choice) :=
  turns tid ([.go, .go, .go] ++ List.replicate reads (.clock 0) ++ [.go, .go, .go] ++
    sampleAnswers requestId "READY" ++ sampleAnswers requestId "DONE" ++ [.clock 0])

/-- A holder joins.  A QUIT and an UPDATE of the holder are put in the queue,
and both are executed. -/
def sampleQuitted : List Instant × Config interface PyError State :=
  (drive (manager sampleSettings) (initial sampleSettings)
    (sampleStart ++
      sampleQueued 5 (.reserveJoin (some "a")) (.execute (some "a") (some "JOIN") none) ++
      sampleServed 6 "r1" ++ sampleProtocol 7 0 "r2" ++
      sampleQueued 8 (.reserveQuit (some "a")) (.execute (some "a") (some "QUIT") none) ++
      sampleQueued 10 (.reserveUpdate (some "a")) (.execute (some "a") (some "UPDATE") none) ++
      samplePromote 9 ++ turns 9 [.clock 0, .clock 0, .go, .go, .go] ++
      sampleProtocol 12 3 "r3" ++ sampleServed 11 "r4")).get (by decide +kernel)

/-- The UPDATE becomes BUSY when its user has quitted. -/
theorem update_not_qualified :
    Run (manager sampleSettings) (initial sampleSettings) sampleQuitted.1 sampleQuitted.2 ∧
      ¬ Qualified sampleQuitted.1 := by
  refine ⟨.driven _, fun qualified => ?_⟩
  have seen : sampleQuitted.1.any (fun moment => Begins 3 moment &&
      moment.before.db.faceOf 3 == some ⟨"a", .update, .active⟩ &&
      moment.before.db.users.get? "a" == some ⟨.setHolder, .quitted⟩) = true := by
    decide +kernel
  obtain ⟨moment, member, holds⟩ := List.any_eq_true.mp seen
  rw [Bool.and_eq_true, Bool.and_eq_true, beq_iff_eq, beq_iff_eq] at holds
  obtain ⟨⟨begins, found⟩, quitted⟩ := holds
  obtain ⟨⟨user, there, joined⟩, _⟩ := qualified moment member 3 _ begins found
  rw [quitted, Option.some.injEq] at there
  rw [← there] at joined
  cases joined

/-! ## What holds -/

/-- The moment an Agent is told to execute a service for a user. -/
def Executes (moment : Instant) (userId : String) (protType : ProtType) : Prop :=
  ∃ tid role requestId token reply,
    moment.label = .did ⟨tid, .send role (.execute requestId userId protType token), reply⟩

/-- Who begins a JOIN has not joined, and whoever the Agents are told to execute
a service for qualifies for it, with an operation that is BUSY. -/
def Vetted (moment : Instant) : Prop :=
  (∀ opId userId status, Begins opId moment = true ->
    moment.before.db.faceOf opId = some ⟨userId, .join, status⟩ ->
      Qualifies moment.before.db userId .join) ∧
  ∀ userId protType, Executes moment userId protType ->
    Qualifies moment.before.db userId protType ∧
      ∃ opId, moment.before.db.faceOf opId = some ⟨userId, protType, .busy⟩

/-- An operation that becomes BUSY fits its user. -/
theorem fits_of_begins
    {event : Event interface PyError}
    {x x' : World}
    {face : Face}
    (sound : Sound x)
    (within : Within event x x')
    (begins : Begins opId ⟨x.1, .did event, x'.1⟩ = true)
    (found : x.1.db.faceOf opId = some face) : x.1.db.Fits face := by
  have active : face.status = .active :=
    active_of_begins (within.tables.onward opId) begins found
  exact sound.regular.fits opId face found (by rw [active]; rfl)

theorem vetted_did
    {event : Event interface PyError}
    {x x' : World}
    (sound : Sound x)
    (within : Within event x x') : Vetted ⟨x.1, .did event, x'.1⟩ := by
  refine ⟨fun opId userId status begins found => ?_, fun userId protType executes => ?_⟩
  · exact (fits_of_begins sound within begins found).1 rfl
  · obtain ⟨tid, role, requestId, token, reply, label⟩ := executes
    cases label
    obtain ⟨_, _, _, ⟨opId, busy⟩, equipped⟩ := within.marks.duty
    refine ⟨?_, opId, busy⟩
    cases protType with
    | join => exact (sound.regular.fits opId _ busy rfl).1 rfl
    | update => exact equipped (.inl rfl)
    | query => trivial
    | quit => exact equipped (.inr rfl)

/-- Where the tables stay, nothing becomes BUSY. -/
theorem not_begins_of_same
    {label : Label interface PyError Task}
    {s s' : State}
    (same : s'.db = s.db) : ¬ Begins opId ⟨s, label, s'⟩ = true := by
  rw [Begins, Bool.and_eq_true, bne_iff_ne, beq_iff_eq, same]
  exact fun both => both.1 both.2

/-- A moment in which no command is given and the tables stay. -/
theorem vetted_idle
    {label : Label interface PyError Task}
    {s s' : State}
    (same : s'.db = s.db)
    (idle : ∀ event, label ≠ .did event) : Vetted ⟨s, label, s'⟩ :=
  ⟨fun _ _ _ begins => absurd begins (not_begins_of_same same),
    fun _ _ ⟨_, _, _, _, _, given⟩ => absurd given (idle _)⟩

/-- In every run a user who begins a JOIN has not joined.  An Agent is told to
execute a JOIN only for a user who has not joined, and an UPDATE or a QUIT only
for a user who has joined and has a token for each Agent. -/
theorem vetted
    {trace : List Instant}
    {c : Config interface PyError State}
    (cfg : Settings)
    (run : Run (manager cfg) (initial cfg) trace c) : ∀ moment ∈ trace, Vetted moment :=
  server_moments (fun _ _ _ sound within => vetted_did sound within)
    (fun _ _ => vetted_idle rfl fun _ label => by cases label)
    (fun _ => vetted_idle rfl fun _ label => by cases label) run

theorem vetted_quitted :
    sampleQuitted.1.any (Begins 3) = true ∧ ∀ moment ∈ sampleQuitted.1, Vetted moment :=
  ⟨by decide +kernel, vetted sampleSettings (.driven _)⟩

/-- The user of an operation that becomes BUSY qualifies for it, unless it is an
UPDATE, and so does every user for whom an Agent is told to execute a service. -/
def Entitled (moment : Instant) : Prop :=
  (∀ opId face, Begins opId moment = true -> moment.before.db.faceOf opId = some face ->
    face.protType ≠ .update -> Qualifies moment.before.db face.userId face.protType) ∧
  ∀ userId protType, Executes moment userId protType ->
    Qualifies moment.before.db userId protType

theorem entitled_did
    {event : Event interface PyError}
    {x x' : World}
    (registered : x.1.db.Registered)
    (sound : Sound x)
    (within : Within event x x') : Entitled ⟨x.1, .did event, x'.1⟩ := by
  refine ⟨fun opId face begins found other => ?_, fun userId protType executes =>
    ((vetted_did sound within).2 userId protType executes).1⟩
  have fits := fits_of_begins sound within begins found
  show Qualifies x.1.db face.userId face.protType
  cases service : face.protType with
  | join => exact fits.1 service
  | update => exact absurd service other
  | query => trivial
  | quit => exact ⟨fits.2 service, registered.equipped face.userId (fits.2 service)⟩

theorem entitled_idle
    {label : Label interface PyError Task}
    {s s' : State}
    (same : s'.db = s.db)
    (idle : ∀ event, label ≠ .did event) : Entitled ⟨s, label, s'⟩ :=
  ⟨fun _ _ begins => absurd begins (not_begins_of_same same),
    fun _ _ ⟨_, _, _, _, _, given⟩ => absurd given (idle _)⟩

/-- In every run an operation that becomes BUSY finds a user who has not joined if it
is a JOIN, and a user who has joined and has a token for each Agent if it is a QUIT.
An UPDATE finds such a user when an Agent is told to execute it. -/
theorem entitled
    {trace : List Instant}
    {c : Config interface PyError State}
    (cfg : Settings)
    (run : Run (manager cfg) (initial cfg) trace c) : ∀ moment ∈ trace, Entitled moment := by
  have registered : ∀ moment ∈ trace, moment.before.db.Registered := by
    intro moment member
    obtain ⟨past, future, rfl⟩ := List.append_of_mem member
    obtain ⟨c₁, _, _, before, _, rfl, _⟩ := run.split
    exact registered_of_run before
  have kept := server_moments (P := fun moment => moment.before.db.Registered -> Entitled moment)
    (fun _ _ _ sound within registered => entitled_did registered sound within)
    (fun _ _ _ => entitled_idle rfl fun _ label => by cases label)
    (fun _ _ => entitled_idle rfl fun _ label => by cases label) run
  exact fun moment member => kept moment member (registered moment member)

theorem entitled_quitted :
    sampleQuitted.1.any (Begins 2) = true ∧ ∀ moment ∈ sampleQuitted.1, Entitled moment :=
  ⟨by decide +kernel, entitled sampleSettings (.driven _)⟩

end Manager
end Mpmt
