import Mathlib.Data.List.Basic
import Mathlib.Tactic.Common
import Mpmt.Agent.Commands

/-!
# Frames on the management connection

The Manager and the Agents exchange one JSON value a line.  Both ends read the
connection in pieces of at most 4096 bytes, wherever the transport cut the
stream, and put the lines together again in a buffer.

The Agent limits its buffer, not the frame at the head of it.  A read that
brings the end of a frame may bring up to 4095 bytes behind it; together they
can exceed the limit although the frame does not.  The last part says for which
streams this cannot happen.
-/

namespace Mpmt
namespace Agent

/-- The end of a frame. -/
def newline : UInt8 := 10

/-- `MAX_FRAME_BYTES` -/
def maxFrameBytes : Nat := 1048576

/-- The argument of `recv`. -/
def chunkBytes : Nat := 4096

/-- `bytes.split(b"\n", 1)`, if there is a newline. -/
def splitLine : Bytes -> Option (Bytes × Bytes)
  | [] => none
  | byte :: rest =>
      if byte = newline then some ([], rest)
      else (splitLine rest).map fun parts => (byte :: parts.1, parts.2)

theorem splitLine_eq_some
    {stream line rest : Bytes}
    (split : splitLine stream = some (line, rest)) :
    stream = line ++ newline :: rest ∧ newline ∉ line := by
  induction stream generalizing line with
  | nil => cases split
  | cons byte stream inductionHypothesis =>
      rw [splitLine] at split
      split at split
      · next same =>
          cases split
          simp [same]
      · next different =>
          obtain ⟨⟨line', rest'⟩, found, same⟩ := Option.map_eq_some_iff.mp split
          cases same
          obtain ⟨whole, absent⟩ := inductionHypothesis found
          exact ⟨by rw [whole, List.cons_append],
            List.not_mem_cons_of_ne_of_not_mem (Ne.symm different) absent⟩

theorem splitLine_line
    {line : Bytes}
    (absent : newline ∉ line)
    (rest : Bytes) : splitLine (line ++ newline :: rest) = some (line, rest) := by
  induction line with
  | nil => simp [splitLine]
  | cons byte line inductionHypothesis =>
      rw [List.mem_cons, not_or] at absent
      rw [List.cons_append, splitLine, if_neg (Ne.symm absent.1),
        inductionHypothesis absent.2]
      rfl

theorem splitLine_eq_none_iff {stream : Bytes} :
    splitLine stream = none ↔ newline ∉ stream := by
  induction stream with
  | nil => simp [splitLine]
  | cons byte stream inductionHypothesis =>
      rw [splitLine, List.mem_cons, not_or, ← inductionHypothesis]
      split
      · next same => simp [same]
      · next different => simp [Ne.symm different]

theorem splitLine_shrinks
    {stream line rest : Bytes}
    (split : splitLine stream = some (line, rest)) : rest.length < stream.length := by
  rw [(splitLine_eq_some split).1, List.length_append, List.length_cons]
  omega

/-- The first line stays the first line when more bytes arrive. -/
theorem splitLine_append
    {stream line rest : Bytes}
    (split : splitLine stream = some (line, rest))
    (more : Bytes) : splitLine (stream ++ more) = some (line, rest ++ more) := by
  obtain ⟨whole, absent⟩ := splitLine_eq_some split
  rw [whole, List.append_assoc, List.cons_append]
  exact splitLine_line absent _

/-! ## The Agent -/

/-- What a connection has led to: the values given to `_dispatch`, and whether
an exception ended the loop. -/
structure Outcome (Value : Type) where
  dispatched : List Value
  dropped : Bool
  deriving DecidableEq, Repr

/-- An outcome behind earlier messages. -/
def Outcome.after (messages : List Value) (outcome : Outcome Value) : Outcome Value :=
  ⟨messages ++ outcome.dispatched, outcome.dropped⟩

/-- What reads the frames. -/
structure Reader (State Value : Type) where
  /-- `json.loads` -/
  loads : Bytes -> Except LoadsError Value
  /-- `_dispatch`, from a state to the state behind it, unless it raises. -/
  dispatch : State -> Value -> Option State

variable {State Value : Type} (reader : Reader State Value)

/-- The inner loop of `_recv_loop`: the values given to `_dispatch` and what is
left in the buffer, or nothing behind an exception. -/
def dispatchLines (state : State) (buf : Bytes) : List Value × Option (State × Bytes) :=
  match _split : splitLine buf with
  | none => ([], some (state, buf))
  | some (line, rest) =>
      match reader.loads line with
      | .error .jsonDecode => dispatchLines state rest
      | .error .other => ([], none)
      | .ok msg =>
          match reader.dispatch state msg with
          | none => ([msg], none)
          | some state' =>
              let (messages, left) := dispatchLines state' rest
              (msg :: messages, left)
termination_by buf.length
decreasing_by all_goals exact splitLine_shrinks _split

/-- `_recv_loop`, from a buffer and the chunks that are still to be read. -/
def recvLoop (state : State) (buf : Bytes) : List Bytes -> Outcome Value
  | [] => ⟨[], false⟩
  | chunk :: chunks =>
      if (buf ++ chunk).length > maxFrameBytes then ⟨[], true⟩
      else
        match dispatchLines reader state (buf ++ chunk) with
        | (messages, none) => ⟨messages, true⟩
        | (messages, some (state', left)) => (recvLoop state' left chunks).after messages

/-! ## The Manager -/

/-- `AgentManager.recv`: the next line with the buffer and the chunks behind it,
or nothing when the connection ends first. -/
def recv (buf : Bytes) : List Bytes -> Option (Bytes × Bytes × List Bytes)
  | [] => (splitLine buf).map fun parts => (parts.1, parts.2, [])
  | chunk :: chunks =>
      match splitLine buf with
      | some (line, left) => some (line, left, chunk :: chunks)
      | none => recv (buf ++ chunk) chunks

/-- The number of bytes that are still to be handed out. -/
def waiting (buf : Bytes) (chunks : List Bytes) : Nat :=
  buf.length + chunks.flatten.length

theorem recv_eq_some
    {buf line left : Bytes}
    {chunks chunks' : List Bytes}
    (received : recv buf chunks = some (line, left, chunks')) :
    splitLine (buf ++ chunks.flatten) = some (line, left ++ chunks'.flatten) := by
  induction chunks generalizing buf with
  | nil =>
      obtain ⟨parts, split, same⟩ := Option.map_eq_some_iff.mp received
      cases same
      simpa using split
  | cons chunk chunks inductionHypothesis =>
      rw [recv] at received
      split at received
      · next line' left' split =>
          cases received
          exact splitLine_append split _
      · next =>
          rw [List.flatten_cons, ← List.append_assoc]
          exact inductionHypothesis received

theorem recv_eq_none
    {buf : Bytes}
    {chunks : List Bytes}
    (received : recv buf chunks = none) :
    splitLine (buf ++ chunks.flatten) = none := by
  induction chunks generalizing buf with
  | nil => simpa [recv] using received
  | cons chunk chunks inductionHypothesis =>
      rw [recv] at received
      split at received
      · cases received
      · rw [List.flatten_cons, ← List.append_assoc]
        exact inductionHypothesis received

/-- The lines that repeated calls of `AgentManager.recv` read, until the
connection ends. -/
def recvAll (buf : Bytes) (chunks : List Bytes) : List Bytes :=
  match _received : recv buf chunks with
  | none => []
  | some (line, left, rest) => line :: recvAll left rest
termination_by waiting buf chunks
decreasing_by
  have shrinks := splitLine_shrinks (recv_eq_some _received)
  simpa [waiting] using shrinks

/-! ## Frames of a stream -/

/-- The complete lines of a stream. -/
def lines (stream : Bytes) : List Bytes :=
  match _split : splitLine stream with
  | none => []
  | some (line, rest) => line :: lines rest
termination_by stream.length
decreasing_by exact splitLine_shrinks _split

/-- The Manager reads the lines of the stream, however it was cut. -/
theorem recvAll_eq (buf : Bytes) (chunks : List Bytes) :
    recvAll buf chunks = lines (buf ++ chunks.flatten) := by
  fun_induction recvAll buf chunks with
  | case1 buf chunks received =>
      rw [lines]
      split
      · rfl
      · next line rest split =>
          rw [recv_eq_none received] at split
          cases split
  | case2 buf chunks line left rest received inductionHypothesis =>
      rw [lines]
      split
      · next split =>
          rw [recv_eq_some received] at split
          cases split
      · next line' rest' split =>
          rw [recv_eq_some received] at split
          cases split
          rw [inductionHypothesis]

/-- What a limit on frames means: every JSON line is dispatched, lines that are
not JSON are left out, and only a frame beyond the limit, its newline included,
ends the connection. -/
def framewise (stream : Bytes) : Outcome Value :=
  match _split : splitLine stream with
  | none => ⟨[], maxFrameBytes < stream.length⟩
  | some (line, rest) =>
      if maxFrameBytes < line.length + 1 then ⟨[], true⟩
      else
        match reader.loads line with
        | .error _ => framewise rest
        | .ok msg => (framewise rest).after [msg]
termination_by stream.length
decreasing_by all_goals exact splitLine_shrinks _split

/-- The state behind a line, or nothing when the loop cannot go on. -/
def Reader.behind (state : State) (line : Bytes) : Option State :=
  match reader.loads line with
  | .error .jsonDecode => some state
  | .error .other => none
  | .ok msg => reader.dispatch state msg

/-- What a line gives to `_dispatch`. -/
def Reader.message (line : Bytes) : List Value :=
  match reader.loads line with
  | .error _ => []
  | .ok msg => [msg]

/-- Nothing but the end of the connection is due. -/
def OnlyDrops (stream : Bytes) : Prop := framewise reader stream = ⟨[], true⟩

/-- Every frame that the loop comes to leaves room for the bytes that one read
can bring behind it, and `_dispatch` returns on it or it is refused as JSON;
unless nothing but the end of the connection is due. -/
def Roomy (state : State) (stream : Bytes) : Prop :=
  OnlyDrops reader stream ∨
    match _split : splitLine stream with
    | none => True
    | some (line, rest) =>
        line.length + 1 + min (chunkBytes - 1) rest.length ≤ maxFrameBytes ∧
          match reader.behind state line with
          | none => OnlyDrops reader rest
          | some state' => Roomy state' rest
termination_by stream.length
decreasing_by exact splitLine_shrinks _split

/-- A way in which the transport can cut a stream. -/
structure Cuts (stream : Bytes) (chunks : List Bytes) : Prop where
  whole : chunks.flatten = stream
  sizes : ∀ chunk ∈ chunks, 1 ≤ chunk.length ∧ chunk.length ≤ chunkBytes

variable {reader} {state : State}

theorem Outcome.after_nil (outcome : Outcome Value) : outcome.after [] = outcome := by
  cases outcome
  simp [after]

theorem Outcome.after_after (first second : List Value) (outcome : Outcome Value) :
    (outcome.after second).after first = outcome.after (first ++ second) := by
  simp [after]

theorem Outcome.after_drop (messages : List Value) :
    (⟨[], true⟩ : Outcome Value).after messages = ⟨messages, true⟩ := by
  simp [after]

theorem Outcome.after_inj
    {messages : List Value}
    {outcome outcome' : Outcome Value} :
    outcome.after messages = outcome'.after messages ↔ outcome = outcome' := by
  cases outcome
  cases outcome'
  simp [after]

/-! ## The definitions at the first line -/

theorem dispatchLines_none
    {buf : Bytes}
    (split : splitLine buf = none) : dispatchLines reader state buf = ([], some (state, buf)) := by
  rw [dispatchLines]
  split
  · rfl
  · next found =>
      rw [split] at found
      cases found

theorem dispatchLines_some
    {buf line rest : Bytes}
    (split : splitLine buf = some (line, rest)) :
    dispatchLines reader state buf =
      match reader.loads line with
      | .error .jsonDecode => dispatchLines reader state rest
      | .error .other => ([], none)
      | .ok msg =>
          match reader.dispatch state msg with
          | none => ([msg], none)
          | some state' =>
              (msg :: (dispatchLines reader state' rest).1, (dispatchLines reader state' rest).2) := by
  rw [dispatchLines]
  split
  · next found =>
      rw [split] at found
      cases found
  · next line' rest' found =>
      rw [split] at found
      cases found
      rfl

theorem framewise_none
    {stream : Bytes}
    (split : splitLine stream = none) :
    framewise reader stream = ⟨[], decide (maxFrameBytes < stream.length)⟩ := by
  rw [framewise]
  split
  · rfl
  · next found =>
      rw [split] at found
      cases found

theorem framewise_some
    {stream line rest : Bytes}
    (split : splitLine stream = some (line, rest)) :
    framewise reader stream =
      if maxFrameBytes < line.length + 1 then ⟨[], true⟩
      else
        match reader.loads line with
        | .error _ => framewise reader rest
        | .ok msg => (framewise reader rest).after [msg] := by
  rw [framewise]
  split
  · next found =>
      rw [split] at found
      cases found
  · next line' rest' found =>
      rw [split] at found
      cases found
      rfl

theorem framewise_line
    {stream line rest : Bytes}
    (split : splitLine stream = some (line, rest))
    (fits : line.length + 1 ≤ maxFrameBytes) :
    framewise reader stream = (framewise reader rest).after (reader.message line) := by
  rw [framewise_some split, if_neg (by omega), Reader.message]
  cases reader.loads line with
  | error error => exact (Outcome.after_nil _).symm
  | ok msg => rfl

theorem roomy_none
    {stream : Bytes}
    (split : splitLine stream = none) : Roomy reader state stream := by
  rw [Roomy]
  right
  split
  · trivial
  · next found =>
      rw [split] at found
      cases found

theorem roomy_some
    {stream line rest : Bytes}
    (split : splitLine stream = some (line, rest)) :
    Roomy reader state stream ↔ OnlyDrops reader stream ∨
      line.length + 1 + min (chunkBytes - 1) rest.length ≤ maxFrameBytes ∧
        match reader.behind state line with
        | none => OnlyDrops reader rest
        | some state' => Roomy reader state' rest := by
  rw [Roomy]
  split
  · next found =>
      rw [split] at found
      cases found
  · next line' rest' found =>
      rw [split] at found
      cases found
      rfl

theorem OnlyDrops.roomy
    {stream : Bytes}
    (only : OnlyDrops reader stream) : Roomy reader state stream := by
  rw [Roomy]
  exact .inl only

/-- When only the end of the connection is due, a line that fits is not JSON. -/
theorem onlyDrops_some
    {stream line rest : Bytes}
    (only : OnlyDrops reader stream)
    (split : splitLine stream = some (line, rest))
    (fits : line.length + 1 ≤ maxFrameBytes) :
    (∃ error, reader.loads line = .error error) ∧ OnlyDrops reader rest := by
  rw [OnlyDrops, framewise_some split, if_neg (by omega)] at only
  split at only
  · next error failed => exact ⟨⟨error, failed⟩, only⟩
  · next msg loaded => simp [Outcome.after] at only

/-- Behind the first line of a stream that leaves room. -/
theorem Roomy.behind
    {stream line rest : Bytes}
    (roomy : Roomy reader state stream)
    (split : splitLine stream = some (line, rest))
    (fits : line.length + 1 ≤ maxFrameBytes) :
    match reader.behind state line with
    | none => OnlyDrops reader rest
    | some state' => Roomy reader state' rest := by
  rcases (roomy_some split).mp roomy with only | ⟨-, further⟩
  · have behind := (onlyDrops_some only split fits).2
    cases reader.behind state line with
    | none => exact behind
    | some state' => exact behind.roomy
  · exact further

/-! ## Streams that leave room -/

/-- What the inner loop does to a buffer within the limit, with `more` still to
come: it dispatches what a limit on frames asks for. -/
theorem dispatchLines_framewise
    {buf more : Bytes}
    (roomy : Roomy reader state (buf ++ more))
    (fits : buf.length ≤ maxFrameBytes) :
    match dispatchLines reader state buf with
    | (messages, none) => framewise reader (buf ++ more) = ⟨messages, true⟩
    | (messages, some (state', left)) =>
        framewise reader (buf ++ more) = (framewise reader (left ++ more)).after messages ∧
          Roomy reader state' (left ++ more) ∧ newline ∉ left ∧
          left.length ≤ maxFrameBytes := by
  induction length : buf.length using Nat.strongRecOn generalizing buf state with
  | ind n inductionHypothesis =>
      cases split : splitLine buf with
      | none =>
          rw [dispatchLines_none split]
          exact ⟨(Outcome.after_nil _).symm, roomy, splitLine_eq_none_iff.mp split, fits⟩
      | some parts =>
          obtain ⟨line, rest⟩ := parts
          have whole := splitLine_append split more
          have shorter : rest.length < buf.length := splitLine_shrinks split
          have lineFits : line.length + 1 ≤ maxFrameBytes := by
            rw [(splitLine_eq_some split).1, List.length_append, List.length_cons] at fits
            omega
          have rest_loop := fun {state'} (roomy' : Roomy reader state' (rest ++ more)) =>
            inductionHypothesis rest.length (by omega) roomy' (by omega) rfl
          have further := roomy.behind whole lineFits
          rw [dispatchLines_some split, framewise_some whole, if_neg (by omega)]
          rw [Reader.behind] at further
          cases loaded : reader.loads line with
          | error error =>
              simp only [loaded] at further
              cases error with
              | jsonDecode => exact rest_loop further
              | other => exact further
          | ok msg =>
              simp only [loaded] at further
              cases handled : reader.dispatch state msg with
              | none =>
                  simp only [handled] at further ⊢
                  rw [further]
                  rfl
              | some state' =>
                  simp only [handled] at further ⊢
                  have loop := rest_loop further
                  revert loop
                  cases dispatchLines reader state' rest with
                  | mk messages left =>
                      cases left with
                      | none =>
                          intro loop
                          rw [loop]
                          rfl
                      | some left =>
                          rintro ⟨loop, further⟩
                          refine ⟨?_, further⟩
                          rw [loop, Outcome.after_after]
                          rfl

/-- A read beyond the limit: the frame at the head of the buffer is beyond it as
well. -/
theorem framewise_of_overflow
    {buf chunk more : Bytes}
    (roomy : Roomy reader state (buf ++ (chunk ++ more)))
    (incomplete : newline ∉ buf)
    (size : chunk.length ≤ chunkBytes)
    (fits : buf.length ≤ maxFrameBytes)
    (overflow : maxFrameBytes < (buf ++ chunk).length) :
    framewise reader (buf ++ (chunk ++ more)) = ⟨[], true⟩ := by
  rw [List.length_append] at overflow
  cases split : splitLine (buf ++ (chunk ++ more)) with
  | none =>
      rw [framewise_none split, decide_eq_true]
      rw [List.length_append, List.length_append]
      omega
  | some parts =>
      obtain ⟨line, rest⟩ := parts
      rw [roomy_some split] at roomy
      rcases roomy with only | ⟨room, -⟩
      · exact only
      · exfalso
        obtain ⟨whole, absent⟩ := splitLine_eq_some split
        have total := congrArg List.length whole
        simp only [List.length_append, List.length_cons] at total
        -- the first line does not end inside the buffer
        have longer : buf.length ≤ line.length := by
          by_contra shorter
          have inside : (buf ++ (chunk ++ more))[line.length]? = some newline := by
            rw [whole, List.getElem?_append_right (Nat.le_refl _)]
            simp
          rw [List.getElem?_append_left (by omega)] at inside
          exact incomplete (List.mem_of_getElem? inside)
        rw [chunkBytes] at room size
        omega

/-- Cut in any way, a stream that leaves room is read frame by frame. -/
theorem recvLoop_eq_framewise
    {buf : Bytes}
    {chunks : List Bytes}
    (roomy : Roomy reader state (buf ++ chunks.flatten))
    (incomplete : newline ∉ buf)
    (sizes : ∀ chunk ∈ chunks, chunk.length ≤ chunkBytes)
    (fits : buf.length ≤ maxFrameBytes) :
    recvLoop reader state buf chunks = framewise reader (buf ++ chunks.flatten) := by
  induction chunks generalizing state buf with
  | nil =>
      rw [List.flatten_nil, List.append_nil,
        framewise_none (splitLine_eq_none_iff.mpr incomplete), decide_eq_false (by omega)]
      rfl
  | cons chunk chunks inductionHypothesis =>
      rw [List.flatten_cons] at roomy ⊢
      rw [recvLoop]
      split
      · next overflow =>
          exact (framewise_of_overflow roomy incomplete
            (sizes chunk List.mem_cons_self) fits overflow).symm
      · next within =>
          rw [← List.append_assoc] at roomy ⊢
          have loop := dispatchLines_framewise roomy (by omega)
          revert loop
          cases dispatchLines reader state (buf ++ chunk) with
          | mk messages left =>
              cases left with
              | none => exact fun loop => loop.symm
              | some left =>
                  rintro ⟨loop, roomy', incomplete', fits'⟩
                  rw [loop]
                  exact congrArg (Outcome.after messages) (inductionHypothesis roomy' incomplete'
                    (fun chunk' member => sizes chunk' (List.mem_cons_of_mem _ member))
                    fits')

/-! ## Streams that do not -/

/-- Bytes that arrive one at a time wait in the buffer. -/
theorem recvLoop_singles
    (buf line : Bytes)
    (chunks : List Bytes)
    (incomplete : newline ∉ buf ++ line)
    (fits : (buf ++ line).length ≤ maxFrameBytes) :
    recvLoop reader state buf (line.map (fun byte => [byte]) ++ chunks) =
      recvLoop reader state (buf ++ line) chunks := by
  induction line generalizing buf with
  | nil => simp
  | cons byte line inductionHypothesis =>
      have regroup : buf ++ byte :: line = buf ++ [byte] ++ line := by simp
      rw [regroup] at incomplete fits ⊢
      have first : newline ∉ buf ++ [byte] := fun member =>
        incomplete (List.mem_append_left _ member)
      have short : (buf ++ [byte]).length ≤ maxFrameBytes := by
        rw [List.length_append] at fits
        omega
      rw [List.map_cons, List.cons_append, recvLoop, if_neg (by omega),
        dispatchLines_none (splitLine_eq_none_iff.mpr first),
        ← inductionHypothesis _ incomplete fits]
      exact Outcome.after_nil _

theorem flatten_singles (stream : Bytes) :
    (stream.map fun byte => [byte]).flatten = stream := by
  induction stream with
  | nil => rfl
  | cons byte stream inductionHypothesis =>
      rw [List.map_cons, List.flatten_cons, inductionHypothesis, List.singleton_append]

theorem sizes_singles
    {stream chunk : Bytes}
    (member : chunk ∈ stream.map fun byte => [byte]) :
    1 ≤ chunk.length ∧ chunk.length ≤ chunkBytes := by
  obtain ⟨byte, -, rfl⟩ := List.mem_map.mp member
  simp [chunkBytes]

/-- A cut of what follows the first line, with the line in single bytes. -/
theorem Cuts.behind_line
    {line rest : Bytes}
    {chunk : Bytes}
    {chunks : List Bytes}
    (whole : (chunk :: chunks).flatten = newline :: rest)
    (sizes : ∀ piece ∈ chunk :: chunks, 1 ≤ piece.length ∧ piece.length ≤ chunkBytes) :
    Cuts (line ++ newline :: rest)
      (line.map (fun byte => [byte]) ++ chunk :: chunks) where
  whole := by rw [List.flatten_append, flatten_singles, whole]
  sizes := by
    intro piece member
    rcases List.mem_append.mp member with member | member
    · exact sizes_singles member
    · exact sizes piece member

/-- The loop behind a line of single bytes and its newline. -/
theorem recvLoop_line
    {stream line rest : Bytes}
    (split : splitLine stream = some (line, rest))
    (fits : line.length + 1 ≤ maxFrameBytes)
    (chunks : List Bytes) :
    recvLoop reader state [] (line.map (fun byte => [byte]) ++ [newline] :: chunks) =
      match reader.behind state line with
      | none => ⟨reader.message line, true⟩
      | some state' => (recvLoop reader state' [] chunks).after (reader.message line) := by
  have absent := (splitLine_eq_some split).2
  have atLine : splitLine (line ++ [newline]) = some (line, []) :=
    splitLine_line absent []
  have atEnd : ∀ state' : State, dispatchLines reader state' [] = ([], some (state', [])) :=
    fun _ => dispatchLines_none rfl
  rw [recvLoop_singles [] line _ (by simpa using absent) (by simpa using by omega),
    List.nil_append, recvLoop, if_neg (by simpa using by omega), dispatchLines_some atLine,
    Reader.behind, Reader.message]
  cases reader.loads line with
  | error error =>
      cases error with
      | jsonDecode => simp only [atEnd]
      | other => rfl
  | ok msg =>
      cases handled : reader.dispatch state msg with
      | none => simp only [handled]
      | some state' => simp only [handled, atEnd]

/-- A stream that leaves no room can be cut so that it is not read frame by
frame. -/
theorem exists_cuts_of_not_roomy
    {stream : Bytes}
    (crowded : ¬Roomy reader state stream) :
    ∃ chunks, Cuts stream chunks ∧ recvLoop reader state [] chunks ≠ framewise reader stream := by
  induction length : stream.length using Nat.strongRecOn generalizing stream state with
  | ind n inductionHypothesis =>
      cases split : splitLine stream with
      | none => exact absurd (roomy_none split) crowded
      | some parts =>
          obtain ⟨line, rest⟩ := parts
          obtain ⟨whole, absent⟩ := splitLine_eq_some split
          rw [roomy_some split, not_or, not_and_or] at crowded
          obtain ⟨more, crowded⟩ := crowded
          have fits : line.length + 1 ≤ maxFrameBytes := by
            by_contra long
            exact more (by rw [OnlyDrops, framewise_some split, if_pos (by omega)])
          have goal : framewise reader stream =
              (framewise reader rest).after (reader.message line) := framewise_line split fits
          rcases crowded with tight | behind
          · -- the newline arrives with as much as one read can bring
            refine ⟨line.map (fun byte => [byte]) ++
              (newline :: rest.take (chunkBytes - 1)) ::
                (rest.drop (chunkBytes - 1)).map fun byte => [byte], ?_, ?_⟩
            · rw [whole]
              refine Cuts.behind_line ?_ fun piece member => ?_
              · rw [List.flatten_cons, flatten_singles, List.cons_append,
                  List.take_append_drop]
              · rcases List.mem_cons.mp member with rfl | member
                · rw [List.length_cons, List.length_take, chunkBytes]
                  omega
                · exact sizes_singles member
            · rw [recvLoop_singles [] line _ (by simpa using absent)
                (by simpa using by omega), List.nil_append, recvLoop, if_pos]
              · exact fun same => more same.symm
              · rw [List.length_append, List.length_cons, List.length_take]
                omega
          · cases reads : reader.behind state line with
            | none =>
                -- the line ends the loop although more is to come
                simp only [reads] at behind
                refine ⟨line.map (fun byte => [byte]) ++
                  [newline] :: rest.map fun byte => [byte], ?_, ?_⟩
                · rw [whole]
                  refine Cuts.behind_line ?_ fun piece member => ?_
                  · rw [List.flatten_cons, flatten_singles, List.singleton_append]
                  · rcases List.mem_cons.mp member with rfl | member
                    · simp [chunkBytes]
                    · exact sizes_singles member
                · rw [recvLoop_line split fits, goal]
                  simp only [reads]
                  rw [← Outcome.after_drop, Ne, Outcome.after_inj]
                  exact fun same => behind same.symm
            | some state' =>
                -- the line is read, and the rest is crowded
                simp only [reads] at behind
                obtain ⟨chunks, cuts, differs⟩ := inductionHypothesis rest.length
                  (length ▸ splitLine_shrinks split) behind rfl
                refine ⟨line.map (fun byte => [byte]) ++ [newline] :: chunks, ?_, ?_⟩
                · rw [whole]
                  refine Cuts.behind_line ?_ fun piece member => ?_
                  · rw [List.flatten_cons, cuts.whole, List.singleton_append]
                  · rcases List.mem_cons.mp member with rfl | member
                    · simp [chunkBytes]
                    · exact cuts.sizes piece member
                · rw [recvLoop_line split fits, goal]
                  simp only [reads]
                  rw [Ne, Outcome.after_inj]
                  exact differs

/-! ## Reading a connection -/

/-- The values of a connection, as long as the threads of their commands can be
started. -/
def valueReader (json : Json) : Reader Unit PyJson where
  loads := json.loads
  dispatch _ msg := if readable json msg then some () else none

/-- The values of the complete lines, and what is left behind them. -/
def takeFrames (json : Json) (buf : Bytes) : List PyJson × Option Bytes :=
  match dispatchLines (valueReader json) () buf with
  | (values, left) => (values, left.map Prod.snd)

/-- What is read of chunks. -/
def readChunks (json : Json) (buf : Bytes) (chunks : List Bytes) : Outcome PyJson :=
  recvLoop (valueReader json) () buf chunks

theorem readChunks_nil {json : Json} (buf : Bytes) : readChunks json buf [] = ⟨[], false⟩ := rfl

theorem readChunks_cons
    {json : Json}
    (buf chunk : Bytes)
    (chunks : List Bytes) :
    readChunks json buf (chunk :: chunks) =
      if (buf ++ chunk).length > maxFrameBytes then ⟨[], true⟩
      else
        match takeFrames json (buf ++ chunk) with
        | (values, none) => ⟨values, true⟩
        | (values, some left) => (readChunks json left chunks).after values := by
  rw [readChunks, recvLoop, takeFrames]
  split
  · rfl
  · rcases dispatchLines (valueReader json) () (buf ++ chunk) with ⟨values, _ | ⟨⟨⟩, left⟩⟩
    · rfl
    · rfl

/-- Two readers that return on the same values read the same. -/
theorem dispatchLines_congr
    {State' : Type}
    {reader' : Reader State' Value}
    (loads : reader'.loads = reader.loads)
    (returns : ∀ state state' msg,
      (reader'.dispatch state' msg).isSome = (reader.dispatch state msg).isSome)
    (state : State)
    (state' : State')
    (buf : Bytes) :
    (dispatchLines reader' state' buf).1 = (dispatchLines reader state buf).1 ∧
      (dispatchLines reader' state' buf).2.map Prod.snd =
        (dispatchLines reader state buf).2.map Prod.snd := by
  induction length : buf.length using Nat.strongRecOn generalizing buf state state' with
  | ind n inductionHypothesis =>
      cases split : splitLine buf with
      | none =>
          rw [dispatchLines_none split, dispatchLines_none split]
          exact ⟨rfl, rfl⟩
      | some parts =>
          obtain ⟨line, rest⟩ := parts
          have behind := fun (state : State) (state' : State') => inductionHypothesis rest.length
            (length ▸ splitLine_shrinks split) state state' rest rfl
          rw [dispatchLines_some split, dispatchLines_some split, loads]
          cases reader.loads line with
          | error error =>
              cases error with
              | jsonDecode => exact behind state state'
              | other => exact ⟨rfl, rfl⟩
          | ok msg =>
              have same := returns state state' msg
              cases handled : reader.dispatch state msg with
              | none =>
                  rw [handled] at same
                  cases handled' : reader'.dispatch state' msg with
                  | none =>
                      simp only [handled, handled']
                      exact ⟨trivial, rfl⟩
                  | some => simp [handled'] at same
              | some next =>
                  rw [handled] at same
                  cases handled' : reader'.dispatch state' msg with
                  | none => simp [handled'] at same
                  | some next' =>
                      simp only [handled, handled']
                      exact ⟨congrArg (List.cons msg) (behind next next').1, (behind next next').2⟩

theorem recvLoop_congr
    {State' : Type}
    {reader' : Reader State' Value}
    (loads : reader'.loads = reader.loads)
    (returns : ∀ state state' msg,
      (reader'.dispatch state' msg).isSome = (reader.dispatch state msg).isSome)
    (state' : State')
    (buf : Bytes)
    (chunks : List Bytes) :
    recvLoop reader' state' buf chunks = recvLoop reader state buf chunks := by
  induction chunks generalizing buf state state' with
  | nil => rfl
  | cons chunk chunks inductionHypothesis =>
      rw [recvLoop, recvLoop]
      split
      · rfl
      · obtain ⟨messages, left⟩ := dispatchLines_congr loads returns state state'
          (buf ++ chunk)
        revert messages left
        rcases dispatchLines reader' state' (buf ++ chunk) with ⟨first, _ | ⟨next', left'⟩⟩ <;>
          rcases dispatchLines reader state (buf ++ chunk) with ⟨second, _ | ⟨next, left⟩⟩ <;>
          intro messages same <;> cases messages <;> cases same
        · rfl
        · exact congrArg (Outcome.after first) (inductionHypothesis next' left')

/-- The Agent.  `_dispatch` raises on a value that it cannot read, and when the
thread of a command cannot be started; `starts n` says whether the `n`-th one
can. -/
def agentReader (json : Json) (starts : Nat -> Bool) : Reader Nat PyJson where
  loads := json.loads
  dispatch n msg :=
    match read json msg with
    | .error _ => none
    | .ok (.unknown _) => some n
    | .ok (.handled _) => if starts n then some (n + 1) else none

/-- The threads of an Agent read a connection as long as theirs can be started. -/
theorem readChunks_eq
    {json : Json}
    (buf : Bytes)
    (chunks : List Bytes) :
    readChunks json buf chunks = recvLoop (agentReader json fun _ => true) 0 buf chunks := by
  have loads : (valueReader json).loads = (agentReader json fun _ => true).loads := rfl
  refine recvLoop_congr loads (fun _ _ msg => ?_) () buf chunks
  unfold valueReader agentReader readable
  rcases reads : read json msg with _ | ⟨_ | _⟩ <;> simp [reads, Except.isOk, Except.toBool]

/-! ## Framing and cutting -/

/-- Any two ways of cutting the stream lead to the same: the Agent dispatches the
JSON lines in order and drops the connection only for a frame beyond the limit,
and the Manager reads the same lines. -/
def CutsAgree (json : Json) (starts : Nat -> Bool) (stream : Bytes) : Prop :=
  ∀ chunks chunks', Cuts stream chunks -> Cuts stream chunks' ->
    recvLoop (agentReader json starts) 0 [] chunks =
        recvLoop (agentReader json starts) 0 [] chunks' ∧
      recvLoop (agentReader json starts) 0 [] chunks =
        framewise (agentReader json starts) stream ∧
      recvAll [] chunks = recvAll [] chunks'

/-- The cutting does not matter exactly for the streams that leave room. -/
theorem cutsAgree_iff_roomy (json : Json) (starts : Nat -> Bool) (stream : Bytes) :
    CutsAgree json starts stream ↔ Roomy (agentReader json starts) 0 stream := by
  constructor
  · intro agree
    by_contra crowded
    obtain ⟨chunks, cuts, differs⟩ := exists_cuts_of_not_roomy crowded
    exact differs (agree chunks chunks cuts cuts).2.1
  · intro roomy chunks chunks' cuts cuts'
    have asFrames : ∀ pieces, Cuts stream pieces ->
        recvLoop (agentReader json starts) 0 [] pieces =
          framewise (agentReader json starts) stream := by
      intro pieces cut
      have loop : recvLoop (agentReader json starts) 0 [] pieces =
          framewise (agentReader json starts) ([] ++ pieces.flatten) :=
        recvLoop_eq_framewise (by rwa [cut.whole]) (by simp)
          (fun chunk member => (cut.sizes chunk member).2) (by simp)
      rwa [List.nil_append, cut.whole] at loop
    refine ⟨(asFrames _ cuts).trans (asFrames _ cuts').symm, asFrames _ cuts, ?_⟩
    rw [recvAll_eq, recvAll_eq, cuts.whole, cuts'.whole]

/-- An empty object, with as many blanks as the limit allows. -/
def spacedObject : Bytes := 123 :: (List.replicate (maxFrameBytes - 3) 32 ++ [125])

theorem length_spacedObject : spacedObject.length = maxFrameBytes - 1 := by
  have limit : maxFrameBytes = 1048576 := rfl
  rw [spacedObject, List.length_cons, List.length_append, List.length_replicate,
    List.length_singleton]
  omega

theorem newline_not_mem_spacedObject : newline ∉ spacedObject := by
  simp [spacedObject, newline, List.mem_replicate]

/-- A JSON library on the lines of the example: empty lines are refused, and
every other line is an empty object. -/
def objectLines : Json where
  loads line := if line = [] then .error .jsonDecode else .ok (.dict [])
  dumps _ := true
  str
    | .str text => some text
    | _ => none

/-- The object is dispatched when it comes byte by byte, and lost when the empty
line behind it comes with its newline. -/
theorem not_cutsAgree_spacedObject :
    ¬CutsAgree objectLines (fun _ => true) (spacedObject ++ newline :: [newline]) := by
  intro agree
  have absent := newline_not_mem_spacedObject
  have long := length_spacedObject
  have split : splitLine (spacedObject ++ newline :: [newline]) =
      some (spacedObject, [newline]) := splitLine_line absent _
  have cuts : Cuts (spacedObject ++ newline :: [newline])
      (spacedObject.map (fun byte => [byte]) ++ [newline] :: [[newline]]) :=
    .behind_line rfl (by simp [chunkBytes])
  have cuts' : Cuts (spacedObject ++ newline :: [newline])
      (spacedObject.map (fun byte => [byte]) ++ [newline, newline] :: []) :=
    .behind_line rfl (by simp [chunkBytes])
  have limit : maxFrameBytes = 1048576 := rfl
  have filled : spacedObject ≠ [] := by simp [spacedObject]
  have kept : (recvLoop (agentReader objectLines fun _ => true) 0 []
      (spacedObject.map (fun byte => [byte]) ++ [newline] :: [[newline]])).dispatched ≠ [] := by
    have loaded : (agentReader objectLines fun _ => true).loads spacedObject =
        .ok (.dict []) := by
      simp [agentReader, objectLines, filled]
    have answered : (agentReader objectLines fun _ => true).behind 0 spacedObject = some 0 := by
      rw [Reader.behind, loaded]
      rfl
    rw [recvLoop_line split (by omega), answered]
    simp [Reader.message, loaded, Outcome.after]
  have lost : recvLoop (agentReader objectLines fun _ => true) 0 []
      (spacedObject.map (fun byte => [byte]) ++ [newline, newline] :: []) = ⟨[], true⟩ := by
    rw [recvLoop_singles [] spacedObject _ (by simpa using absent) (by simpa using by omega),
      List.nil_append, recvLoop, if_pos]
    rw [List.length_append, long, List.length_cons, List.length_singleton]
    omega
  rw [(agree _ _ cuts cuts').1, lost] at kept
  exact kept rfl

end Agent
end Mpmt
