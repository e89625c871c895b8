import Mpmt.TreeCache.Refines
import Mpmt.TreeCache.Restart

/-!
# When only a merge publishes

The root that queries read is the aggregate of the last merge as long as every
construction finds the files of the root.  A construction that does not find
them reads memory that nobody wrote, or shows the only leaf.
-/

namespace Mpmt
namespace TreeCache

open Effects Heap

variable {Leaf Root Index R : Type} [Zero Root] [Zero R] [One R]

/-! ## Histories -/

/-- The holders and the published aggregate behind an operation. -/
noncomputable def Holders.after
    (I : Meaning Leaf Root Index R)
    (h : Holders Leaf Index R) :
    Operation Leaf -> Outcome PyError (Option String) -> Holders Leaf Index R
  | .insert _ node, .returned (some token) =>
      { h with present := Function.update h.present token (some node) }
  | .update token new_node, .returned _ =>
      { h with present := Function.update h.present token (some new_node) }
  | .remove del_token, .returned _ =>
      { h with present := Function.update h.present del_token none }
  | .execute_merge, .returned _ =>
      { h with published := embed (aggregate I h.present) }
  | _, _ => h

/-- The states reached from an empty directory by operations and restarts, with
the holders and the published aggregate, when every construction is admitted:
`admits published alloc maps w` is about what was published, the memory that is
allocated, the maps in `meta.json` and the files. -/
inductive History
    (I : Meaning Leaf Root Index R)
    (cfg : Config)
    (fns : Functions Leaf Root)
    (admits : (Index -> R) -> ShareVec Root -> Maps -> World Leaf Root -> Prop) :
    Cache Root × World Leaf Root -> Holders Leaf Index R -> Prop
  | create {alloc calls s}
      (ended : run (handler fns) (construct cfg)
        (initial alloc, { disk := ∅, calls := calls }) = (.returned (), s))
      (admitted : admits 0 alloc Maps.blank { disk := ∅, calls := calls }) :
      History I cfg fns admits s { present := fun _ => none, published := 0 }
  | operate {s s' h operation outcome}
      (past : History I cfg fns admits s h)
      (ended : run (handler fns) (operation.prog cfg) s = (outcome, s'))
      (finished : outcome ≠ .unfinished) :
      History I cfg fns admits s' (h.after I operation outcome)
  | restart {s s' h alloc}
      (past : History I cfg fns admits s h)
      (ended : run (handler fns) (construct cfg) (initial alloc, s.2) =
        (.returned (), s'))
      (admitted : admits h.published alloc s.1.toMaps s.2) :
      History I cfg fns admits s' h

/-- A construction finds both files of the root; or it keeps the allocated
memory, and that holds what was published; or it converts the only leaf, and
that holds what was published. -/
def Keeps
    (I : Meaning Leaf Root Index R)
    (published : Index -> R)
    (alloc : ShareVec Root)
    (maps : Maps)
    (w : World Leaf Root) : Prop :=
  if maps.leaf_num = 0 then I.value alloc = published
  else if w.hasRoot = true then True
  else if maps.leaf_num = 1 then
    ∀ node, nodeAt maps w 1 = some node -> embed (I.filter node) = published
  else I.value alloc = published

/-! ## The invariant -/

section

variable {I : Meaning Leaf Root Index R} {cfg : Config}
variable {fns : Functions Leaf Root} {s : Cache Root × World Leaf Root}
variable {h : Holders Leaf Index R}

/-- A live cache of which the files of the root hold what was published. -/
structure Published
    (I : Meaning Leaf Root Index R)
    (cfg : Config)
    (s : Cache Root × World Leaf Root)
    (h : Holders Leaf Index R) : Prop where
  live : Live I cfg s h.present
  files : RootFiles I s.2 h.published

omit [Zero Root] in
/-- Keeping what was published is exactly the condition. -/
theorem keeps_iff
    {root_node : ShareVec Root}
    {w' : World Leaf Root}
    (computes_ring_conv : ∀ call sv,
      I.value (fns.ring_conv_fn call sv) = embed (I.filter sv))
    (published : Published I cfg s h)
    (recovery : Recovery fns s.1.toMaps alloc s.2 root_node w') :
    I.value root_node = h.published ↔
      Keeps I h.published alloc s.1.toMaps s.2 := by
  unfold Keeps
  cases recovery with
  | leafless none => rw [if_pos none]
  | loaded some_leaf found =>
      rw [if_neg some_leaf, if_pos (World.hasRoot_of_root? found)]
      exact iff_of_true (published.files _ found) trivial
  | @converted node single noRoot leaf =>
      rw [if_neg (by omega), if_neg (by simp [noRoot]), if_pos single,
        computes_ring_conv]
      constructor
      · intro same node' found
        rw [leaf] at found
        obtain rfl := Option.some.inj found
        exact same
      · exact fun same => same node leaf
  | unmerged many noRoot =>
      rw [if_neg (by omega), if_neg (by simp [noRoot]), if_neg (by omega)]

omit [Zero Root] in
/-- Files of the root that a construction writes hold its root. -/
theorem files_of_recovery
    {root_node : ShareVec Root}
    {w' : World Leaf Root}
    (published : Published I cfg s h)
    (recovery : Recovery fns s.1.toMaps alloc s.2 root_node w')
    (kept : I.value root_node = h.published) :
    RootFiles I w' h.published := by
  intro root found
  cases recovery with
  | leafless none => exact published.files root found
  | loaded some_leaf found' => exact published.files root found
  | unmerged many noRoot => exact published.files root found
  | converted single noRoot leaf =>
      rw [World.root?_saveRoot] at found
      obtain rfl := Option.some.inj found
      exact kept

omit [Zero Root] in
/-- A specified operation does what the bookkeeping says. -/
theorem after_of_spec
    {h' : Holders Leaf Index R}
    (spec : Spec I operation outcome h h') :
    h' = h.after I operation outcome := by
  cases spec with
  | inserted new => rfl
  | updated there => rfl
  | refused absent => rfl
  | removed there => rfl
  | @unknown _ del_token absent =>
      have same : Function.update h.present del_token none = h.present := by
        rw [← absent, Function.update_eq_self]
      simp only [Holders.after, same]
  | internal absent => rfl
  | merged => rfl

/-- One operation keeps the invariant. -/
theorem Published.operate
    {s' : Cache Root × World Leaf Root}
    (published : Published I cfg s h)
    (root : I.value s.1.root_node = h.published)
    (computes : I.Computes fns)
    (ended : run (handler fns) (operation.prog cfg) s = (outcome, s'))
    (finished : outcome ≠ .unfinished) :
    Published I cfg s' (h.after I operation outcome) ∧
      I.value s'.1.root_node = (h.after I operation outcome).published := by
  rcases spec_of_run computes published.live root operation with
    ⟨stuck, _⟩ | ⟨outcome', s₁, h', same, _, spec, live, root', files⟩
  · rw [ended] at stuck
    exact absurd stuck finished
  · rw [ended] at same
    obtain ⟨rfl, rfl⟩ := Prod.mk.inj same
    rw [← after_of_spec spec]
    exact ⟨⟨live, files published.files⟩, root'⟩

/-- A construction that keeps what was published keeps the invariant. -/
theorem Published.restart
    {s' : Cache Root × World Leaf Root}
    (published : Published I cfg s h)
    (computes : I.Computes fns)
    (ended : run (handler fns) (construct cfg) (initial alloc, s.2) =
      (.returned (), s'))
    (keeps : Keeps I h.published alloc s.1.toMaps s.2) :
    Published I cfg s' h ∧ I.value s'.1.root_node = h.published := by
  obtain ⟨m, w⟩ := s
  obtain ⟨root_node, w', ended', recovery⟩ :=
    run_construct fns published.live alloc
  rw [ended'] at ended
  obtain rfl := (Prod.mk.inj ended).2
  have kept := (keeps_iff computes.ring_conv published recovery).mpr keeps
  exact ⟨⟨published.live.recovered recovery,
    files_of_recovery published recovery kept⟩, kept⟩

/-- When every construction keeps what was published, the root that queries
read is the aggregate of the last merge, or zero before the first one. -/
theorem published_of_history
    (computes : I.Computes fns)
    (history : History I cfg fns (Keeps I) s h) :
    I.value s.1.root_node = h.published := by
  have kept : Published I cfg s h ∧ I.value s.1.root_node = h.published := by
    induction history with
    | @create alloc calls s ended admitted =>
        rw [run_construct_empty] at ended
        obtain rfl := (Prod.mk.inj ended).2
        refine ⟨⟨live_initial alloc calls, ?_⟩, admitted⟩
        intro root found
        simp [World.root?] at found
    | operate past ended finished inductionHypothesis =>
        exact inductionHypothesis.1.operate inductionHypothesis.2 computes ended
          finished
    | restart past ended admitted inductionHypothesis =>
        exact inductionHypothesis.1.restart computes ended admitted
  exact kept.2

end

/-! ## Constructions that publish -/

/-- The holders and the published aggregate behind a sequence of operations. -/
noncomputable def Holders.afterAll
    (I : Meaning Leaf Root Index R)
    (h : Holders Leaf Index R) :
    List (Operation Leaf × Outcome PyError (Option String)) -> Holders Leaf Index R
  | [] => h
  | (operation, outcome) :: rest => (h.after I operation outcome).afterAll I rest

theorem History.steps
    {I : Meaning Leaf Root Index R}
    {cfg : Config}
    {fns : Functions Leaf Root}
    {admits : (Index -> R) -> ShareVec Root -> Maps -> World Leaf Root -> Prop}
    {s s' : Cache Root × World Leaf Root}
    {h : Holders Leaf Index R}
    (past : History I cfg fns admits s h)
    (steps : Steps cfg fns s trace s') :
    History I cfg fns admits s' (h.afterAll I trace) := by
  induction steps generalizing h with
  | nil => exact past
  | cons step ended _ inductionHypothesis =>
      exact inductionHypothesis (.operate past step ended)

/-- An empty directory and memory that holds zeros. -/
def zeroStart : Cache Nat × World Bool Nat :=
  (initial { this_share := 0, nxt_share := 0 }, { disk := ∅, calls := 0 })

/-- Two holders join and are merged; then a third one joins, and the first one
quits. -/
def publishedOperations : List (Operation Bool) :=
  [bitJoin 7 true, bitJoin 8 false, .execute_merge, bitJoin 9 false,
    .remove (bitToken 7)]

def publishedOutcomes : List (Outcome PyError (Option String)) :=
  [.returned (some (bitToken 7)), .returned (some (bitToken 8)), .returned none,
    .returned (some (bitToken 9)), .returned none]

/-- The state behind that. -/
def publishedState : Cache Nat × World Bool Nat :=
  (runAll bitConfig bitFunctions publishedOperations zeroStart).2

theorem publishedState_steps :
    Steps bitConfig bitFunctions zeroStart (publishedOperations.zip publishedOutcomes)
      publishedState := by
  have outcomes : (runAll bitConfig bitFunctions publishedOperations zeroStart).1 =
      publishedOutcomes := by
    decide +kernel
  have steps : Steps bitConfig bitFunctions zeroStart _ _ :=
    steps_runAll publishedOperations zeroStart (by rw [outcomes]; decide)
  rwa [outcomes] at steps

private theorem published_bit
    {present : String -> Option (ShareVec Bool)}
    (token : String)
    (there : present token = some (bitNode true)) :
    embed (aggregate bitMeaning present) = fun _ => 1 := by
  have bit : ∀ i, aggregate bitMeaning present i = true := by
    intro i
    simp only [aggregate, decide_eq_true_eq]
    exact ⟨token, bitNode true, there, rfl⟩
  funext i
  exact if_pos (bit i)

/-- A construction in other memory shows the bit that was published, which no
holder has any more. -/
theorem published_of_history_join :
    ∃ s, run (handler bitFunctions) (construct bitConfig)
        (initial { this_share := 3, nxt_share := 3 }, publishedState.2) =
          (.returned (), s) ∧
      bitMeaning.value s.1.root_node = fun _ => 1 := by
  have admitted : Keeps bitMeaning 0 zeroStart.1.root_node Maps.blank
      zeroStart.2 := by
    have leafless : Maps.blank.leaf_num = 0 := rfl
    rw [Keeps, if_pos leafless]
    rfl
  have history : History bitMeaning bitConfig bitFunctions (Keeps bitMeaning)
      publishedState _ :=
    History.steps (.create (run_construct_empty _ _) admitted) publishedState_steps
  obtain ⟨_, _, live, _⟩ := specSteps_of_steps
    (h := { present := fun _ => none, published := fun _ => 0 })
    bitMeaning_computes (live_initial _ 0) rfl publishedState_steps
  have live' : Live bitMeaning bitConfig (publishedState.1, publishedState.2) _ := live
  obtain ⟨root_node, w', ended, _⟩ := run_construct bitFunctions live'
    { this_share := 3, nxt_share := 3 }
  have files : ∀ published, Keeps bitMeaning published
      { this_share := 3, nxt_share := 3 } publishedState.1.toMaps publishedState.2 := by
    intro published
    have leaves : publishedState.1.toMaps.leaf_num = 2 := by decide +kernel
    have root : publishedState.2.hasRoot = true := by decide +kernel
    rw [Keeps, if_neg (by omega), if_pos root]
    trivial
  refine ⟨_, ended, (published_of_history bitMeaning_computes
    (.restart history ended (files _))).trans (published_bit (bitToken 7) ?_)⟩
  have apart : bitToken 7 ≠ bitToken 8 := by decide +kernel
  have first : Function.update (Function.update (fun _ => none) (bitToken 7)
      (some (bitNode true))) (bitToken 8) (some (bitNode false)) (bitToken 7) =
        some (bitNode true) := by
    rw [Function.update_of_ne apart, Function.update_self]
  exact first

/-- The state behind one insertion. -/
def joinedState : Cache Nat × World Bool Nat :=
  (run (handler bitFunctions) ((bitJoin 7 true).prog bitConfig) zeroStart).2

/-- A new object on its directory, in memory that holds zeros. -/
def restartedState : Cache Nat × World Bool Nat :=
  (run (handler bitFunctions) (construct bitConfig) (zeroStart.1, joinedState.2)).2

/-- Before the first merge a new cache shows what the allocated memory holds,
and after a restart the filter of the only holder. -/
theorem not_published_of_restart :
    (∃ s h, History bitMeaning bitConfig bitFunctions (fun _ _ _ _ => True) s h ∧
      h.published = 0 ∧ bitMeaning.value s.1.root_node = fun _ => 3) ∧
    ∃ s h, History bitMeaning bitConfig bitFunctions
        (fun published alloc _ _ => bitMeaning.value alloc = published) s h ∧
      h.published = 0 ∧ bitMeaning.value s.1.root_node = fun _ => 1 := by
  constructor
  · exact ⟨bitStart, _, .create (run_construct_empty _ _) trivial, rfl, rfl⟩
  · have joined : run (handler bitFunctions) ((bitJoin 7 true).prog bitConfig) zeroStart =
        (.returned (some (bitToken 7)), joinedState) :=
      Prod.ext (by decide +kernel) rfl
    have restarted : run (handler bitFunctions) (construct bitConfig)
        (zeroStart.1, joinedState.2) = (.returned (), restartedState) :=
      Prod.ext (by decide +kernel) rfl
    refine ⟨_, _, .restart (.operate (.create (run_construct_empty _ _) rfl)
      joined nofun) restarted rfl, rfl, ?_⟩
    have value : restartedState.1.root_node.this_share = 1 := by decide +kernel
    funext i
    exact value

end TreeCache
end Mpmt
