import Mpmt.Library.Dialogs

/-!
# Tagged messages

A party that counts bytes takes whatever comes next on a channel.  Here every
symbol carries a tag, the step of the protocol that it belongs to and its place
in one message, and a receiver looks at the tags: unless it gets one whole
message of its own step, it ends with an error.

The program of a protocol becomes a tagged one by naming the step of each part.
Both move in lockstep, so what the tagged parties show about the framing of the
messages holds of the protocol itself.
-/

namespace Network

variable {I J : Signature} {T Sym Sym' : Type}

/-- What stands beside a symbol: the step, the number of the message among those
that its sender writes in the step, the place in the message, and the length of
the message. -/
structure Tag (T : Type) where
  step : T
  number : Nat
  place : Nat
  length : Nat
  deriving DecidableEq, Repr

/-- The tags of a message. -/
def tags (step : T) (number length : Nat) : List (Tag T) :=
  (List.range length).map fun place =>
    { step := step, number := number, place := place, length := length }

/-- A message with its tags. -/
def stamp (step : T) (number : Nat) (data : List Sym) : List (Tag T × Sym) :=
  (tags step number data.length).zip data

@[simp] theorem length_tags (step : T) (number length : Nat) :
    (tags step number length).length = length := by
  simp [tags]

@[simp] theorem length_stamp (step : T) (number : Nat) (data : List Sym) :
    (stamp step number data).length = data.length := by
  simp [stamp]

@[simp] theorem map_fst_stamp (step : T) (number : Nat) (data : List Sym) :
    (stamp step number data).map Prod.fst = tags step number data.length :=
  List.map_fst_zip (by simp)

@[simp] theorem map_snd_stamp (step : T) (number : Nat) (data : List Sym) :
    (stamp step number data).map Prod.snd = data :=
  List.map_snd_zip (by simp)

/-- A translation of the symbols leaves the tags. -/
theorem stamp_map (step : T) (number : Nat) (data : List Sym) (f : Sym -> Sym') :
    stamp step number (data.map f) = (stamp step number data).map fun s => (s.1, f s.2) := by
  rw [stamp, List.length_map, List.zip_map_right]
  rfl

/-! ## Tagged programs -/

section

variable [DecidableEq T]

/-- Parties that exchange tagged symbols.  Two calls of different steps still
meet, but to no result; an error is one of the protocol, or none of it. -/
abbrev tagged (I : Signature) (T : Type) [DecidableEq T] : Signature where
  Party := I.Party
  Sym := Tag T × I.Sym
  Call := T × I.Call
  Res := Option I.Res
  Err := Option I.Err
  meaning call call' := (I.meaning call.2 call'.2).map fun results =>
    if call.1 = call'.1 then (some results.1, some results.2) else (none, none)

/-- Wait for the message of a step. -/
def await
    (peer : I.Party)
    (step : T)
    (number count : Nat)
    (next : List I.Sym -> Proc (tagged I T) Out) : Proc (tagged I T) Out :=
  .recv peer count fun ms =>
    if ms.map Prod.fst = tags step number count then next (ms.map Prod.snd)
    else .throw none

namespace Proc

/-- The program as a part of a step in which `sent` messages have been written
and `received` ones read. -/
def tagFrom (step : T) (sent received : Nat) :
    Proc I Out -> Proc (tagged I T) Out
  | .ret out => .ret out
  | .throw error => .throw (some error)
  | .send peer data next =>
      .send peer (stamp step sent data) (next.tagFrom step (sent + 1) received)
  | .recv peer count next => await peer step received count fun data =>
      (next data).tagFrom step sent (received + 1)
  | .join first peer call next => .join first peer (step, call) fun result =>
      match result with
      | some result => (next result).tagFrom step sent received
      | none => .throw none

/-- The program as one step of a protocol. -/
def tag (step : T) (proc : Proc I Out) : Proc (tagged I T) Out :=
  proc.tagFrom step 0 0

@[simp] theorem await_bind
    (peer : I.Party)
    (step : T)
    (number count : Nat)
    (next : List I.Sym -> Proc (tagged I T) Out)
    (last : Out -> Proc (tagged I T) Out') :
    await peer step number count next >>= last =
      await peer step number count fun data => next data >>= last := by
  rw [await, recv_bind, await]
  congr
  funext ms
  split
  · rfl
  · rfl

/-- What is done with the result of a step is no part of it. -/
theorem tagFrom_map
    (step : T)
    (sent received : Nat)
    (proc : Proc I Out)
    (f : Out -> Out') :
    (proc >>= fun out => pure (f out)).tagFrom step sent received =
      proc.tagFrom step sent received >>= fun out => pure (f out) := by
  induction proc generalizing sent received with
  | ret out => rfl
  | throw error => rfl
  | send peer data next inductionHypothesis =>
      simp only [send_bind, tagFrom, inductionHypothesis]
  | recv peer count next inductionHypothesis =>
      simp only [recv_bind, tagFrom, inductionHypothesis, await_bind]
  | join first peer call next inductionHypothesis =>
      simp only [join_bind, tagFrom, inductionHypothesis]
      congr
      funext result
      cases result with
      | none => rfl
      | some result => rfl

end Proc

/-! ## Lockstep -/

/-- The first program is the second one with tags. -/
inductive Tracks : Proc (tagged I T) Out -> Proc I Out -> Prop
  | ret (out : Out) : Tracks (.ret out) (.ret out)
  | throw (error : I.Err) : Tracks (.throw (some error)) (.throw error)
  | send
      (behind : Tracks next' next) :
      Tracks (.send peer (stamp step number data) next') (.send peer data next)
  | recv
      (waits : proc' = await peer step number count next')
      (behind : ∀ data, Tracks (next' data) (next data)) :
      Tracks proc' (.recv peer count next)
  | join
      (behind : ∀ result, Tracks (next' (some result)) (next result))
      (mismatch : next' none = .throw none) :
      Tracks (.join first peer (step, call) next') (.join first peer call next)

theorem Tracks.pure (out : Out) :
    Tracks (I := I) (T := T) (Pure.pure out) (Pure.pure out) := .ret out

theorem Tracks.bind
    {proc' : Proc (tagged I T) Out}
    {proc : Proc I Out}
    {next' : Out -> Proc (tagged I T) Out'}
    {next : Out -> Proc I Out'}
    (first : Tracks proc' proc)
    (second : ∀ out, Tracks (next' out) (next out)) :
    Tracks (proc' >>= next') (proc >>= next) := by
  induction first with
  | ret out => exact second out
  | throw error => exact .throw error
  | send _ inductionHypothesis => exact .send inductionHypothesis
  | recv waits _ inductionHypothesis =>
      rw [waits, Proc.await_bind]
      exact .recv rfl inductionHypothesis
  | join _ mismatch inductionHypothesis =>
      refine .join inductionHypothesis ?_
      rw [mismatch]
      rfl

theorem tracks_tagFrom (step : T) (sent received : Nat) (proc : Proc I Out) :
    Tracks (proc.tagFrom step sent received) proc := by
  induction proc generalizing sent received with
  | ret out => exact .ret out
  | throw error => exact .throw error
  | send peer data next inductionHypothesis =>
      exact .send (inductionHypothesis _ _)
  | recv peer count next inductionHypothesis =>
      exact .recv rfl fun data => inductionHypothesis data _ _
  | join first peer call next inductionHypothesis =>
      rw [Proc.tagFrom]
      exact .join (fun result => inductionHypothesis result _ _) rfl

theorem tracks_tag (step : T) (proc : Proc I Out) : Tracks (proc.tag step) proc :=
  tracks_tagFrom step 0 0 proc

theorem Tracks.forM
    {proc' : A -> Proc (tagged I T) Unit}
    {proc : A -> Proc I Unit}
    (each : ∀ a, Tracks (proc' a) (proc a))
    (as : List A) : Tracks (ForM.forM as proc') (ForM.forM as proc) := by
  induction as with
  | nil => exact .ret ()
  | cons a as inductionHypothesis =>
      rw [List.forM_cons, List.forM_cons]
      exact (each a).bind fun _ => inductionHypothesis

theorem Tracks.mapM
    {proc' : A -> Proc (tagged I T) B}
    {proc : A -> Proc I B}
    (each : ∀ a, Tracks (proc' a) (proc a))
    (as : List A) : Tracks (as.mapM proc') (as.mapM proc) := by
  induction as with
  | nil => exact .ret []
  | cons a as inductionHypothesis =>
      rw [List.mapM_cons, List.mapM_cons]
      exact (each a).bind fun b => inductionHypothesis.bind fun bs => .ret (b :: bs)

/-- The tagged program knows the place in the list. -/
theorem Tracks.mapM_zipIdx
    {proc' : A × Nat -> Proc (tagged I T) B}
    {proc : A -> Proc I B}
    (each : ∀ a k, Tracks (proc' (a, k)) (proc a))
    (as : List A)
    (k : Nat) : Tracks ((as.zipIdx k).mapM proc') (as.mapM proc) := by
  induction as generalizing k with
  | nil => exact .ret []
  | cons a as inductionHypothesis =>
      rw [List.zipIdx_cons, List.mapM_cons, List.mapM_cons]
      exact (each a k).bind fun b =>
        (inductionHypothesis (k + 1)).bind fun bs => .ret (b :: bs)

theorem Tracks.forM_zipIdx
    {proc' : A × Nat -> Proc (tagged I T) Unit}
    {proc : A -> Proc I Unit}
    (each : ∀ a k, Tracks (proc' (a, k)) (proc a))
    (as : List A)
    (k : Nat) : Tracks (ForM.forM (as.zipIdx k) proc') (ForM.forM as proc) := by
  induction as generalizing k with
  | nil => exact .ret ()
  | cons a as inductionHypothesis =>
      rw [List.zipIdx_cons, List.forM_cons, List.forM_cons]
      exact (each a k).bind fun _ => inductionHypothesis (k + 1)

end

/-! ## Runs in lockstep -/

section

variable [DecidableEq T] [DecidableEq I.Party]

/-- The first configuration is the second one with tags. -/
structure Follows (c' : Config (tagged I T) Out) (c : Config I Out) : Prop where
  procs : ∀ party, Tracks (c'.procs party) (c.procs party)
  chan : ∀ pair, (c'.chan pair).map Prod.snd = c.chan pair

/-- A receiver has got something else than the message of its step. -/
def Misaligned (c : Config (tagged I T) Out) : Prop := ∃ party, c.procs party = .throw none

omit [DecidableEq I.Party] in
theorem Tracks.send_inv
    {proc' : Proc (tagged I T) Out}
    (tracks : Tracks proc' (.send peer data next)) :
    ∃ step number next', proc' = .send peer (stamp step number data) next' ∧
      Tracks next' next := by
  cases tracks with
  | send behind => exact ⟨_, _, _, rfl, behind⟩

omit [DecidableEq I.Party] in
theorem Tracks.recv_inv
    {proc' : Proc (tagged I T) Out}
    (tracks : Tracks proc' (.recv peer count next)) :
    ∃ step number next', proc' = await peer step number count next' ∧
      ∀ data, Tracks (next' data) (next data) := by
  cases tracks with
  | recv waits behind => exact ⟨_, _, _, waits, behind⟩

omit [DecidableEq I.Party] in
theorem Tracks.join_inv
    {proc' : Proc (tagged I T) Out}
    (tracks : Tracks proc' (.join first peer call next)) :
    ∃ step next', proc' = .join first peer (step, call) next' ∧
      (∀ result, Tracks (next' (some result)) (next result)) ∧
      next' none = .throw none := by
  cases tracks with
  | join behind mismatch => exact ⟨_, _, rfl, behind, mismatch⟩

omit [DecidableEq I.Party] in
theorem meaning_same
    {step step' : T}
    (agreed : I.meaning call call' = some (result, result'))
    (same : step = step') :
    (tagged I T).meaning (step, call) (step', call') = some (some result, some result') := by
  show (I.meaning call call').map _ = _
  rw [agreed, Option.map_some, if_pos same]

omit [DecidableEq I.Party] in
theorem meaning_different
    {step step' : T}
    (agreed : I.meaning call call' = some (result, result'))
    (different : step ≠ step') :
    (tagged I T).meaning (step, call) (step', call') = some (none, none) := by
  show (I.meaning call call').map _ = _
  rw [agreed, Option.map_some, if_neg different]

omit [DecidableEq I.Party] in
theorem Tracks.of_ret
    {proc : Proc I Out}
    (tracks : Tracks (T := T) (.ret out) proc) : proc = .ret out := by
  cases tracks with
  | ret => rfl
  | recv waits => cases waits

omit [DecidableEq I.Party] in
theorem Tracks.of_send
    {proc : Proc I Out}
    {next' : Proc (tagged I T) Out}
    (tracks : Tracks (.send peer ms next') proc) :
    ∃ data next, proc = .send peer data next := by
  cases tracks with
  | send => exact ⟨_, _, rfl⟩
  | recv waits => cases waits

omit [DecidableEq I.Party] in
theorem Tracks.of_recv
    {proc : Proc I Out}
    {next' : List (Tag T × I.Sym) -> Proc (tagged I T) Out}
    (tracks : Tracks (.recv peer count next') proc) :
    ∃ next, proc = .recv peer count next := by
  cases tracks with
  | recv waits =>
      cases waits
      exact ⟨_, rfl⟩

omit [DecidableEq I.Party] in
theorem Tracks.of_join
    {proc : Proc I Out}
    {next' : Option I.Res -> Proc (tagged I T) Out}
    (tracks : Tracks (.join first peer call next') proc) :
    ∃ next, proc = .join first peer call.2 next := by
  cases tracks with
  | recv waits => cases waits
  | join => exact ⟨_, rfl⟩

/-- The steps of the program without tags are those of the tagged one, which may
find that the message is not its own. -/
theorem Follows.reflect
    {c' : Config (tagged I T) Out}
    {c d : Config I Out}
    (follows : Follows c' c)
    (step : Step p c d) :
    ∃ d', Step (I := tagged I T) p c' d' ∧ (Misaligned d' ∨ Follows d' d) := by
  have tracks := follows.procs p
  cases step with
  | send isNext =>
      rename_i q data next
      rw [isNext] at tracks
      obtain ⟨step, number, next', isNext', behind⟩ := tracks.send_inv
      refine ⟨_, .send isNext', .inr ⟨fun party => ?_, fun pair => ?_⟩⟩
      · by_cases same : party = p
        · subst same
          simpa using behind
        · simpa [same] using follows.procs party
      · by_cases same : pair = (p, q)
        · subst same
          simp [follows.chan]
        · simp [same, follows.chan]
  | recv isNext available =>
      rename_i q count next
      rw [isNext] at tracks
      obtain ⟨step, number, next', isNext', behind⟩ := tracks.recv_inv
      have available' : count ≤ (c'.chan (q, p)).length := by
        rwa [← follows.chan, List.length_map] at available
      refine ⟨_, .recv isNext' available', ?_⟩
      by_cases aligned : ((c'.chan (q, p)).take count).map Prod.fst = tags step number count
      · refine .inr ⟨fun party => ?_, fun pair => ?_⟩
        · by_cases same : party = p
          · subst same
            have data : ((c'.chan (q, party)).take count).map Prod.snd =
                (c.chan (q, party)).take count := by
              rw [List.map_take, follows.chan]
            simpa [aligned, data] using behind _
          · simpa [same] using follows.procs party
        · by_cases same : pair = (q, p)
          · subst same
            simp [follows.chan]
          · simp [same, follows.chan]
      · exact .inl ⟨p, (Function.update_self ..).trans (if_neg aligned)⟩
  | join isFirst isSecond drained agreed =>
      rename_i q call next call' next' result result'
      have tracks' := follows.procs q
      rw [isFirst] at tracks
      rw [isSecond] at tracks'
      obtain ⟨step, rest, isFirst', behind, mismatch⟩ := tracks.join_inv
      obtain ⟨step', rest', isSecond', behind', mismatch'⟩ := tracks'.join_inv
      have drained' : c'.chan (p, q) = [] ∧ c'.chan (q, p) = [] := by
        rw [← follows.chan, ← follows.chan] at drained
        exact ⟨List.map_eq_nil_iff.mp drained.1, List.map_eq_nil_iff.mp drained.2⟩
      by_cases same : step = step'
      · refine ⟨_, .join isFirst' isSecond' drained' (meaning_same agreed same),
          .inr ⟨fun party => ?_, follows.chan⟩⟩
        by_cases second : party = q
        · subst second
          simpa using behind' result'
        · by_cases first : party = p
          · subst first
            simpa [second] using behind result
          · simpa [first, second] using follows.procs party
      · exact ⟨_, .join isFirst' isSecond' drained' (meaning_different agreed same),
          .inl ⟨q, (Function.update_self ..).trans mismatch'⟩⟩

/-- Where a tagged party can move, the one without tags can. -/
theorem Follows.enabled
    {c' d' : Config (tagged I T) Out}
    {c : Config I Out}
    (follows : Follows c' c)
    (step : Step (I := tagged I T) p c' d') : ∃ d, Step (I := I) p c d := by
  have tracks := follows.procs p
  cases step with
  | send isNext =>
      rw [isNext] at tracks
      obtain ⟨data, next, isNext'⟩ := tracks.of_send
      exact ⟨_, .send isNext'⟩
  | recv isNext available =>
      rw [isNext] at tracks
      obtain ⟨next, isNext'⟩ := tracks.of_recv
      refine ⟨_, .recv isNext' ?_⟩
      rwa [← follows.chan, List.length_map]
  | join isFirst isSecond drained agreed =>
      rename_i q call next call' next' result result'
      have tracks' := follows.procs q
      rw [isFirst] at tracks
      rw [isSecond] at tracks'
      obtain ⟨rest, isFirst'⟩ := tracks.of_join
      obtain ⟨rest', isSecond'⟩ := tracks'.of_join
      obtain ⟨results, agreed', _⟩ := Option.map_eq_some_iff.mp agreed
      refine ⟨_, .join isFirst' isSecond' ?_ agreed'⟩
      rw [← follows.chan, ← follows.chan, drained.1, drained.2]
      exact ⟨rfl, rfl⟩

/-- A tagged step without an error is one of the program without tags. -/
theorem Follows.step
    {c' d' : Config (tagged I T) Out}
    {c : Config I Out}
    (follows : Follows c' c)
    (step : Step (I := tagged I T) p c' d')
    (aligned : ¬Misaligned d') :
    ∃ d, Step (I := I) p c d ∧ Follows d' d := by
  obtain ⟨d, taken⟩ := follows.enabled step
  obtain ⟨e', step', misaligned | follows'⟩ := follows.reflect taken
  · rw [step.deterministic step'] at aligned
    exact absurd misaligned aligned
  · rw [← step.deterministic step'] at follows'
    exact ⟨d, taken, follows'⟩

theorem Follows.run
    {c' d' : Config (tagged I T) Out}
    {c : Config I Out}
    (follows : Follows c' c)
    (run : Run (I := tagged I T) steps c' d')
    (aligned : ¬Misaligned d') :
    ∃ d, Run (I := I) steps c d ∧ Follows d' d := by
  induction run generalizing c with
  | refl c' => exact ⟨c, .refl _, follows⟩
  | step party first rest inductionHypothesis =>
      have still : ¬Misaligned _ := fun ⟨p, failed⟩ => aligned ⟨p, rest.throw failed⟩
      obtain ⟨e, first', follows'⟩ := follows.step first still
      obtain ⟨d, rest', follows''⟩ := inductionHypothesis follows' aligned
      exact ⟨d, .step party first' rest', follows''⟩

/-- A tagged configuration without an error goes wherever the one without tags
goes. -/
theorem Follows.reflect_run
    {c' : Config (tagged I T) Out}
    {c d : Config I Out}
    (follows : Follows c' c)
    (run : Run steps c d)
    (aligned : ∀ steps d', Run (I := tagged I T) steps c' d' -> ¬Misaligned d') :
    ∃ d', Run (I := tagged I T) steps c' d' ∧ Follows d' d := by
  induction run generalizing c' with
  | refl c => exact ⟨c', .refl _, follows⟩
  | step party first rest inductionHypothesis =>
      obtain ⟨e', first', misaligned | follows'⟩ := follows.reflect first
      · exact absurd misaligned (aligned _ _ (.step party first' (.refl _)))
      · obtain ⟨d', rest', follows''⟩ := inductionHypothesis follows' fun steps d' run =>
          aligned _ _ (.step party first' run)
        exact ⟨d', .step party first' rest', follows''⟩

theorem follows_start
    {procs' : I.Party -> Proc (tagged I T) Out}
    {procs : I.Party -> Proc I Out}
    (tracks : ∀ party, Tracks (procs' party) (procs party)) :
    Follows (start (I := tagged I T) procs') (start procs) where
  procs := tracks
  chan _ := rfl

omit [DecidableEq I.Party] in
theorem not_misaligned_returned
    {out : I.Party -> Out} :
    ¬Misaligned (start (I := tagged I T) fun party => .ret (out party)) := by
  rintro ⟨party, failed⟩
  cases failed

/-- When the tagged parties return their results, so do the parties without
tags. -/
theorem Leads.of_tracks
    {procs' : I.Party -> Proc (tagged I T) Out}
    {procs : I.Party -> Proc I Out}
    {out : I.Party -> Out}
    (leads : Leads (I := tagged I T) procs' fun party => .ret (out party))
    (tracks : ∀ party, Tracks (procs' party) (procs party)) :
    Leads procs fun party => .ret (out party) := by
  obtain ⟨length, run⟩ := leads
  obtain ⟨d, run', follows⟩ := (follows_start tracks).run run not_misaligned_returned
  have returned : d = start fun party => .ret (out party) := by
    refine Config.ext ?_ ?_
    · funext party
      exact (follows.procs party).of_ret
    · funext pair
      exact (follows.chan pair).symm
  exact ⟨length, returned ▸ run'⟩

end

/-! ## Parts of a tagged protocol -/

section

variable [DecidableEq T]

/-- The two sides of a dialog agree on the tags. -/
theorem Dialog.tagFrom
    {p q : I.Party}
    {left : Proc I A}
    {right : Proc I B}
    (dialog : Dialog p q left right a b)
    (step : T)
    (sent received : Nat) :
    Dialog (I := tagged I T) p q (left.tagFrom step sent received)
      (right.tagFrom step received sent) a b := by
  induction dialog generalizing sent received with
  | ret a b => exact .ret a b
  | send size _ inductionHypothesis =>
      subst size
      refine .send (length_stamp ..) ?_
      rw [if_pos (map_fst_stamp ..), map_snd_stamp]
      exact inductionHypothesis _ _
  | recv size _ inductionHypothesis =>
      subst size
      refine .recv (length_stamp ..) ?_
      rw [if_pos (map_fst_stamp ..), map_snd_stamp]
      exact inductionHypothesis _ _
  | meet agreed _ inductionHypothesis =>
      rw [Proc.tagFrom, Proc.tagFrom]
      refine .meet (meaning_same agreed rfl) ?_
      exact inductionHypothesis _ _
  | met agreed _ inductionHypothesis =>
      rw [Proc.tagFrom, Proc.tagFrom]
      refine .met (meaning_same agreed rfl) ?_
      exact inductionHypothesis _ _

/-- A dialog that is one step of the protocol. -/
theorem Dialog.tag
    {p q : I.Party}
    {left : Proc I A}
    {right : Proc I B}
    (dialog : Dialog p q left right a b)
    (step : T) :
    Dialog (I := tagged I T) p q (left.tag step) (right.tag step) a b :=
  dialog.tagFrom step 0 0

/-- An exchange between neighbours that is one step of the protocol. -/
theorem completes_tag_exchange
    [DecidableEq I.Party]
    [Fintype I.Party]
    (peer source : I.Party -> I.Party)
    (data : I.Party -> List I.Sym)
    (count : I.Party -> Nat)
    (sourcePeer : ∀ party, source (peer party) = party)
    (peerSource : ∀ party, peer (source party) = party)
    (sizes : ∀ party, (data (source party)).length = count party)
    (step : T) :
    Completes (I := tagged I T)
      (fun party => Proc.tag step (do
        send (I := I) (peer party) (data party)
        recv (source party) (count party)))
      (fun party => data (source party)) := by
  have exchanged := completes_exchange (I := tagged I T) peer source
    (fun party => stamp step 0 (data party)) count sourcePeer peerSource
    fun party => (length_stamp ..).trans (sizes party)
  have read : (fun party =>
      if (stamp step 0 (data (source party))).map Prod.fst = tags step 0 (count party) then
        pure ((stamp step 0 (data (source party))).map Prod.snd)
      else .throw none) = fun party =>
        (pure (data (source party)) : Proc (tagged I T) (List I.Sym)) := by
    funext party
    rw [map_fst_stamp, sizes, if_pos rfl, map_snd_stamp]
  have whole : Completes (I := tagged I T)
      (fun party => (do
        send (I := tagged I T) (peer party) (stamp step 0 (data party))
        recv (source party) (count party)) >>= fun ms =>
          if ms.map Prod.fst = tags step 0 (count party) then pure (ms.map Prod.snd)
          else .throw none)
      (fun party => data (source party)) := by
    refine exchanged.bind ?_
    rw [read]
    exact Completes.pure (I := tagged I T) _
  exact whole

end

/-- The tagged parties of a network inside a tagged network. -/
def Embedding.tagged
    [DecidableEq T]
    (e : Embedding I J) : Embedding (Network.tagged I T) (Network.tagged J T) where
  party := e.party
  member := e.member
  member_party := e.member_party
  party_member := e.party_member
  sym s := (s.1, e.sym s.2)
  unsym s := (s.1, e.unsym s.2)
  unsym_sym s := by rw [e.unsym_sym]
  err := Option.map e.err
  call c := (c.1, e.call c.2)
  res c r := r.map (e.res c.2)
  meaning_call := by
    intro c c' r r' agreed
    obtain ⟨results, inner, same⟩ := Option.map_eq_some_iff.mp agreed
    obtain ⟨s, s', outer, isRes, isRes'⟩ := e.meaning_call inner
    by_cases steps : c.1 = c'.1
    · rw [if_pos steps] at same
      cases same
      exact ⟨some s, some s', meaning_same outer steps, congrArg some isRes,
        congrArg some isRes'⟩
    · rw [if_neg steps] at same
      cases same
      exact ⟨none, none, meaning_different outer steps, rfl, rfl⟩

/-- A part of the protocol that a group of the parties carries out. -/
theorem Embedding.tagFrom_proc
    [DecidableEq T]
    (e : Embedding I J)
    (step : T)
    (sent received : Nat)
    (proc : Proc I Out) :
    (e.proc proc).tagFrom step sent received =
      e.tagged.proc (proc.tagFrom step sent received) := by
  induction proc generalizing sent received with
  | ret out => rfl
  | throw error => rfl
  | send peer data next inductionHypothesis =>
      simp only [Embedding.proc, Proc.tagFrom, inductionHypothesis, stamp_map]
      rfl
  | recv peer count next inductionHypothesis =>
      simp only [Embedding.proc, Proc.tagFrom, await, inductionHypothesis]
      congr
      funext ms
      have same : (ms.map e.tagged.unsym).map Prod.fst = ms.map Prod.fst := by
        rw [List.map_map]
        rfl
      have data : (ms.map e.tagged.unsym).map Prod.snd = (ms.map Prod.snd).map e.unsym := by
        rw [List.map_map, List.map_map]
        rfl
      rw [same, data]
      split
      · rfl
      · rfl
  | join first peer call next inductionHypothesis =>
      simp only [Embedding.proc, Proc.tagFrom, inductionHypothesis]
      congr
      funext result
      cases result with
      | none => rfl
      | some result => rfl

/-! ## Aligned messages -/

section

variable [DecidableEq T]

theorem Tracks.ended_iff
    {proc' : Proc (tagged I T) Out}
    {proc : Proc I Out}
    (tracks : Tracks proc' proc) : proc'.Ended ↔ proc.Ended := by
  cases tracks with
  | ret out => exact Iff.rfl
  | throw error => exact Iff.rfl
  | send _ => exact Iff.rfl
  | recv waits _ =>
      subst waits
      exact Iff.rfl
  | join _ _ => exact Iff.rfl

/-- Whoever can read finds one whole message of its own step. -/
def Framed (c : Config (tagged I T) Out) : Prop :=
  ∀ p q step number count next, c.procs q = await p step number count next ->
    count ≤ (c.chan (p, q)).length ->
      ((c.chan (p, q)).take count).map Prod.fst = tags step number count

variable [DecidableEq I.Party]

/-- Under every schedule of the parties without tags: with the tags, a receive
consumes one whole message of its own step; nothing is left in a channel when
all parties have ended; and some party can move as long as one has not. -/
structure Aligned
    (procs' : I.Party -> Proc (tagged I T) Out)
    (procs : I.Party -> Proc I Out) : Prop where
  framed : ∀ steps d, Run (I := I) steps (start procs) d ->
    ∃ d', Run (I := tagged I T) steps (start procs') d' ∧ Follows d' d ∧ Framed d'
  drained : ∀ steps d, Run (I := I) steps (start procs) d ->
    (∀ p, (d.procs p).Ended) -> ∀ pair, d.chan pair = []
  moves : ∀ steps d, Run (I := I) steps (start procs) d ->
    (∃ p, ¬(d.procs p).Ended) -> ∃ p e, Step (I := I) p d e

variable {procs' last : I.Party -> Proc (tagged I T) Out}
variable {procs : I.Party -> Proc I Out}

/-- When one schedule leads to an end without an error of a receiver, no schedule
leads to such an error. -/
theorem Leads.not_misaligned
    (leads : Leads (I := tagged I T) procs' last)
    (stuck : Stuck (start (I := tagged I T) last))
    (fine : ¬Misaligned (start (I := tagged I T) last))
    (run : Run (I := tagged I T) steps (start procs') d) : ¬Misaligned d := by
  obtain ⟨length, whole⟩ := leads
  obtain ⟨rest, -, finish⟩ := whole.complete stuck run
  exact fun ⟨p, failed⟩ => fine ⟨p, finish.throw failed⟩

/-- So every receive along the way is framed. -/
theorem Leads.framed
    (leads : Leads (I := tagged I T) procs' last)
    (stuck : Stuck (start (I := tagged I T) last))
    (fine : ¬Misaligned (start (I := tagged I T) last))
    (run : Run (I := tagged I T) steps (start procs') d) : Framed d := by
  intro p q step number count next waits available
  by_contra other
  have taken := Step.recv waits available
  refine leads.not_misaligned stuck fine (run.trans (.step q taken (.refl _))) ⟨q, ?_⟩
  exact (Function.update_self ..).trans (if_neg other)

/-- Parties that return are aligned. -/
theorem Aligned.of_leads
    {out : I.Party -> Out}
    (leads : Leads (I := tagged I T) procs' fun party => .ret (out party))
    (tracks : ∀ party, Tracks (procs' party) (procs party)) :
    Aligned procs' procs where
  framed := by
    intro steps d run
    have stuck := stuck_returned (I := tagged I T) out
    obtain ⟨d', run', follows⟩ := (follows_start tracks).reflect_run run fun _ _ =>
      leads.not_misaligned stuck not_misaligned_returned
    exact ⟨d', run', follows, leads.framed stuck not_misaligned_returned run'⟩
  drained := by
    intro steps d run ended pair
    obtain ⟨length, complete⟩ := (leads.of_tracks tracks).every_run
    obtain ⟨rest, -, finish⟩ := complete steps d run
    cases finish with
    | refl => rfl
    | step party first _ => exact absurd first (Step.of_ended (ended party))
  moves := by
    rintro steps d run ⟨p, unended⟩
    obtain ⟨length, complete⟩ := (leads.of_tracks tracks).every_run
    obtain ⟨rest, -, finish⟩ := complete steps d run
    cases finish with
    | refl => exact absurd trivial unended
    | step party first _ => exact ⟨party, _, first⟩

/-- Parties that get stuck before all have ended are not. -/
theorem not_aligned_of_leads
    (leads : Leads (I := tagged I T) procs' last)
    (stuck : Stuck (start (I := tagged I T) last))
    (fine : ¬Misaligned (start (I := tagged I T) last))
    (tracks : ∀ party, Tracks (procs' party) (procs party))
    (unended : ¬(last p).Ended) : ¬Aligned procs' procs := by
  intro aligned
  obtain ⟨length, run'⟩ := leads
  obtain ⟨d, run, follows⟩ := (follows_start tracks).run run' fine
  have waiting : ¬(d.procs p).Ended := fun ended =>
    unended ((follows.procs p).ended_iff.mpr ended)
  obtain ⟨q, e, step⟩ := aligned.moves length d run ⟨p, waiting⟩
  obtain ⟨e', step', -⟩ := follows.reflect step
  exact stuck q e' step'

end

end Network
