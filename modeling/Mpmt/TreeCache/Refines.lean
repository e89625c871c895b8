import Mpmt.TreeCache.Live

/-!
# A tree cache is a finite map with a union

The holders that are present and the published aggregate are all that a user of
the cache can tell: every operation does to them what its specification says.
-/

namespace Mpmt
namespace TreeCache

open Effects Heap

/-! ## The operations -/

/-- The operations of a cache; `draws` is what the random source gives. -/
inductive Operation (Leaf : Type)
  | insert (draws : List Dpf.Bytes16) (node : ShareVec Leaf)
  | update (token : String) (new_node : ShareVec Leaf)
  | remove (del_token : String)
  | execute_merge

section

variable {Leaf Root Index R : Type} [Zero Root]

/-- What an operation does; only `insert` gives a token back. -/
def Operation.prog (cfg : Config) :
    Operation Leaf -> CacheM Leaf Root (Option String)
  | .insert draws node => do
      let token ← TreeCache.insert cfg draws node
      return some token
  | .update token new_node => do
      TreeCache.update cfg token new_node
      return none
  | .remove del_token => do
      TreeCache.remove cfg del_token
      return none
  | .execute_merge => do
      executeMerge cfg
      return none

/-- A sequence of operations with what each of them gave. -/
inductive Steps (cfg : Config) (fns : Functions Leaf Root) :
    Cache Root × World Leaf Root ->
      List (Operation Leaf × Outcome PyError (Option String)) ->
        Cache Root × World Leaf Root -> Prop
  | nil (s : Cache Root × World Leaf Root) : Steps cfg fns s [] s
  | cons {s s' s''} {operation} {outcome} {rest}
      (step : run (handler fns) (operation.prog cfg) s = (outcome, s'))
      (ended : outcome ≠ .unfinished)
      (steps : Steps cfg fns s' rest s'') :
      Steps cfg fns s ((operation, outcome) :: rest) s''

/-! ## The specification -/

/-- The holders' filters by their tokens and the aggregate last published. -/
structure Holders (Leaf Index R : Type) where
  present : String -> Option (ShareVec Leaf)
  published : Index -> R

variable [Zero R] [One R]

/-- What each operation gives and does. -/
inductive Spec (I : Meaning Leaf Root Index R) :
    Operation Leaf -> Outcome PyError (Option String) ->
      Holders Leaf Index R -> Holders Leaf Index R -> Prop
  | inserted {h draws node token}
      (new : h.present token = none) :
      Spec I (.insert draws node) (.returned (some token)) h
        { h with present := Function.update h.present token (some node) }
  | updated {h token old} {new_node : ShareVec Leaf}
      (there : h.present token = some old) :
      Spec I (.update token new_node) (.returned none) h
        { h with present := Function.update h.present token (some new_node) }
  | refused {h token new_node error}
      (absent : h.present token = none) :
      Spec I (.update token new_node) (.raised error) h h
  | removed {h del_token old}
      (there : h.present del_token = some old) :
      Spec I (.remove del_token) (.returned none) h
        { h with present := Function.update h.present del_token none }
  | unknown {h del_token}
      (absent : h.present del_token = none) :
      Spec I (.remove del_token) (.returned none) h h
  | internal {h del_token error}
      (absent : h.present del_token = none) :
      Spec I (.remove del_token) (.raised error) h h
  | merged {h} :
      Spec I .execute_merge (.returned none) h
        { h with published := embed (aggregate I h.present) }

/-- A sequence of specified operations. -/
inductive SpecSteps (I : Meaning Leaf Root Index R) :
    Holders Leaf Index R ->
      List (Operation Leaf × Outcome PyError (Option String)) ->
        Holders Leaf Index R -> Prop
  | nil (h : Holders Leaf Index R) : SpecSteps I h [] h
  | cons {h h' h''} {operation} {outcome} {rest}
      (step : Spec I operation outcome h h')
      (steps : SpecSteps I h' rest h'') :
      SpecSteps I h ((operation, outcome) :: rest) h''

/-! ## The refinement -/

/-- What the cache shows of its holders. -/
structure Agrees
    (I : Meaning Leaf Root Index R)
    (s : Cache Root × World Leaf Root)
    (h : Holders Leaf Index R) : Prop where
  has_inserted : ∀ token,
    s.1.hasInserted token = (h.present token).isSome
  files : ∀ token node, h.present token = some node ->
    s.2.node? token = some node
  root : I.value s.1.root_node = h.published

/-- The random source has enough new tokens for the operation. -/
def Operation.Supplied (m : Cache Root) : Operation Leaf -> Prop
  | .insert draws _ => TreeCache.Supplied m.phi_f draws
  | _ => True

variable {I : Meaning Leaf Root Index R} {cfg : Config}
variable {fns : Functions Leaf Root} {s s' : Cache Root × World Leaf Root}

omit [Zero Root] in
theorem Live.agrees
    {h : Holders Leaf Index R}
    (live : Live I cfg s h.present)
    (root : I.value s.1.root_node = h.published) : Agrees I s h where
  has_inserted := by
    intro token
    rw [← live.present, TreeCache.present]
    by_cases inserted : s.1.hasInserted token = true
    · obtain ⟨node_id, found, leaf⟩ := Maps.hasInserted_iff.mp inserted
      have found' := (live.stored.shape.inverse _ _).mp found
      obtain ⟨node, node_found⟩ := live.stored.leaf node_id
        (Finset.mem_Ico.mpr ⟨leaf, (live.stored.shape.inside found').2⟩)
      rw [nodeAt_eq_of_token found'] at node_found
      rw [if_pos inserted, node_found, inserted]
      rfl
    · rw [if_neg inserted, Bool.eq_false_iff.mpr inserted]
      rfl
  files := by
    intro token node there
    rw [← live.present, TreeCache.present] at there
    split at there
    · exact there
    · cases there
  root := root

/-- The files of the root, if they are there, hold what was published. -/
def RootFiles
    (I : Meaning Leaf Root Index R)
    (w : World Leaf Root)
    (published : Index -> R) : Prop :=
  ∀ root, w.root? = some root -> I.value root = published

omit [Zero Root] [Zero R] [One R] in
theorem RootFiles.same
    {published : Index -> R}
    (files : RootFiles I s.2 published)
    (same : SameRoot s s') : RootFiles I s'.2 published := by
  unfold RootFiles
  rw [same.files]
  exact files

/-- One operation of a live cache is one of the specification. -/
theorem spec_of_run
    {h : Holders Leaf Index R}
    (computes : I.Computes fns)
    (live : Live I cfg s h.present)
    (root : I.value s.1.root_node = h.published)
    (operation : Operation Leaf) :
    (run (handler fns) (operation.prog cfg) s).1 = .unfinished ∧
        ¬ operation.Supplied s.1 ∨
      ∃ outcome s' h', run (handler fns) (operation.prog cfg) s =
          (outcome, s') ∧
        outcome ≠ .unfinished ∧
        Spec I operation outcome h h' ∧
        Live I cfg s' h'.present ∧
        I.value s'.1.root_node = h'.published ∧
        (RootFiles I s.2 h.published -> RootFiles I s'.2 h'.published) := by
  obtain ⟨m, w⟩ := s
  cases operation with
  | insert draws node =>
      rcases live.insert fns draws node with
        ⟨stuck, short⟩ | ⟨token, s', ended, new, same, next⟩
      · refine .inl ⟨?_, short⟩
        have whole : run (handler fns) (TreeCache.insert cfg draws node)
            (m, w) = (.unfinished, _) := Prod.ext stuck rfl
        exact congrArg Prod.fst (run_bind_of_unfinished whole _)
      · refine .inr ⟨_, s', _, run_bind_of_returned ended _, nofun,
          .inserted new, next, ?_, fun files => files.same same⟩
        rw [same.memory]
        exact root
  | update token new_node =>
      rcases live.update fns token new_node with
        ⟨error, ended, absent⟩ | ⟨s', old, ended, there, same, next⟩
      · exact .inr ⟨_, _, h, run_bind_of_raised ended _, nofun,
          .refused absent, live, root, id⟩
      · refine .inr ⟨_, s', _, run_bind_of_returned ended _, nofun,
          .updated there, next, ?_, fun files => files.same same⟩
        rw [same.memory]
        exact root
  | remove del_token =>
      rcases live.remove fns del_token with
        ⟨outcome, ended, finished, absent⟩ | ⟨s', old, ended, there, same, next⟩
      · cases outcome with
        | returned out =>
            exact .inr ⟨_, _, h, run_bind_of_returned ended _, nofun,
              .unknown absent, live, root, id⟩
        | raised error =>
            exact .inr ⟨_, _, h, run_bind_of_raised ended _, nofun,
              .internal absent, live, root, id⟩
        | unfinished => exact absurd rfl finished
      · refine .inr ⟨_, s', _, run_bind_of_returned ended _, nofun,
          .removed there, next, ?_, fun files => files.same same⟩
        rw [same.memory]
        exact root
  | execute_merge =>
      obtain ⟨s', ended, value, files, next⟩ := live.execute_merge computes
      refine .inr ⟨_, s', _, run_bind_of_returned ended _, nofun, .merged, next,
        value, fun _ root found => ?_⟩
      rw [files root found]
      exact value

/-- An operation that ends leaves a live cache. -/
theorem Live.operated
    {holders : String -> Option (ShareVec Leaf)}
    (live : Live (plain Leaf Root) cfg s holders)
    (operation : Operation Leaf)
    (ended : run (handler fns) (operation.prog cfg) s = (outcome, s'))
    (finished : outcome ≠ .unfinished) :
    ∃ holders', Live (plain Leaf Root) cfg s' holders' := by
  rcases spec_of_run
      (h := { present := holders
              published := (plain Leaf Root).value s.1.root_node })
      (plain_computes fns) live rfl operation with
    ⟨stuck, _⟩ | ⟨outcome', s₁, h', same, _, _, live', _⟩
  · rw [ended] at stuck
    exact absurd stuck finished
  · rw [ended] at same
    obtain ⟨_, rfl⟩ := Prod.mk.inj same
    exact ⟨_, live'⟩

/-- A run of a live cache is a run of the specification. -/
theorem specSteps_of_steps
    {h : Holders Leaf Index R}
    (computes : I.Computes fns)
    (live : Live I cfg s h.present)
    (root : I.value s.1.root_node = h.published)
    (steps : Steps cfg fns s trace s') :
    ∃ h', SpecSteps I h trace h' ∧ Live I cfg s' h'.present ∧
      I.value s'.1.root_node = h'.published := by
  induction steps generalizing h with
  | nil s => exact ⟨h, .nil h, live, root⟩
  | cons step ended steps inductionHypothesis =>
      rcases spec_of_run computes live root _ with
        ⟨stuck, _⟩ | ⟨outcome, s₁, h₁, same, _, spec, live₁, root₁, _⟩
      · rw [step] at stuck
        exact absurd stuck ended
      · rw [step] at same
        obtain ⟨rfl, rfl⟩ := Prod.mk.inj same
        obtain ⟨h', specs, live', root'⟩ := inductionHypothesis live₁ root₁
        exact ⟨h', .cons spec specs, live', root'⟩

omit [Zero Root] in
/-- A directory without files gives a cache without holders. -/
theorem run_construct_empty (root_node : ShareVec Root) (calls : Nat) :
    run (handler fns) (construct cfg)
        (initial root_node, { disk := ∅, calls := calls }) =
      (.returned (), initial root_node, { disk := ∅, calls := calls }) := rfl

omit [Zero Root] in
theorem live_initial (root_node : ShareVec Root) (calls : Nat) :
    Live I cfg (initial root_node, { disk := ∅, calls := calls })
      fun _ => none where
  valid := rfl
  stored := stored_blank root_node calls
  present := by simp [present, Maps.hasInserted, initial]
  document := .inr ⟨rfl, rfl⟩

/-- Every run that starts with an empty directory is one of the specification,
the cache shows the holders, and no operation gets stuck. -/
theorem cache_refines
    (computes : I.Computes fns)
    (created : run (handler fns) (construct cfg)
      (initial root_node, { disk := ∅, calls := calls }) = (.returned (), s))
    (steps : Steps cfg fns s trace s') :
    ∃ h, SpecSteps I
        { present := fun _ => none, published := I.value root_node } trace h ∧
      Agrees I s' h ∧
      ∀ operation : Operation Leaf, operation.Supplied s'.1 ->
        (run (handler fns) (operation.prog cfg) s').1 ≠ .unfinished := by
  rw [run_construct_empty] at created
  obtain rfl := (Prod.mk.inj created).2
  obtain ⟨h, specs, live, root⟩ := specSteps_of_steps
    (h := { present := fun _ => none, published := I.value root_node })
    computes (live_initial root_node calls) rfl steps
  refine ⟨h, specs, live.agrees root, fun operation supplied => ?_⟩
  rcases spec_of_run computes live root operation with
    ⟨_, short⟩ | ⟨outcome, _, _, same, ended, _⟩
  · exact absurd supplied short
  · rw [same]
    exact ended

end

/-! ## Runs that are evaluated -/

/-- The elements of a set, the larger ones first. -/
def descending (nodes : Finset Nat) : List Nat :=
  ((List.range (nodes.sup id + 1)).filter (· ∈ nodes)).reverse

theorem sort_eq_descending (nodes : Finset Nat) :
    nodes.sort (· ≥ ·) = descending nodes := by
  have same : (descending nodes).toFinset = nodes := by
    ext node
    simp only [descending, List.toFinset_reverse, List.mem_toFinset, List.mem_filter,
      List.mem_range, decide_eq_true_eq, and_iff_right_iff_imp]
    exact fun member => Nat.lt_succ_of_le (Finset.le_sup (f := id) member)
  have nodup : (descending nodes).Nodup :=
    List.nodup_reverse.mpr (List.nodup_range.filter _)
  have ordered : (descending nodes).Pairwise (· ≥ ·) := by
    refine List.pairwise_reverse.mpr (List.Pairwise.filter _ ?_)
    exact List.pairwise_lt_range.imp fun less => Nat.le_of_lt less
  have sorted := (List.toFinset_sort (· ≥ ·) nodup).mpr ordered
  rwa [same] at sorted

section

variable {Leaf Root : Type} [Zero Root] {cfg : Config} {fns : Functions Leaf Root}

/-- The merge of a tree, where the order of the nodes is one that is evaluated. -/
def evaluatedTree : CacheM Leaf Root Unit := do
  let m ← get
  let dirty_node := dirtyNodes m.dirty_leaf
  modify fun m => { m with dirty_leaf := ∅ }
  forM (descending dirty_node) mergeNode

/-- `execute_merge` with that. -/
def evaluatedMerge (cfg : Config) : CacheM Leaf Root Unit := do
  checkCorrupted
  markCorrupted cfg
  let m ← get
  if m.leaf_num = 0 then mergeNone
  else if m.leaf_num = 1 then mergeSingle
  else evaluatedTree
  markValid cfg

theorem executeMerge_eq :
    (executeMerge cfg : CacheM Leaf Root Unit) = evaluatedMerge cfg := by
  have trees : (mergeTree : CacheM Leaf Root Unit) = evaluatedTree := by
    unfold mergeTree evaluatedTree
    simp only [sort_eq_descending]
  unfold executeMerge evaluatedMerge
  rw [trees]

/-- Run operations one after the other. -/
def runAll (cfg : Config) (fns : Functions Leaf Root) :
    List (Operation Leaf) -> Cache Root × World Leaf Root ->
      List (Outcome PyError (Option String)) × (Cache Root × World Leaf Root)
  | [], s => ([], s)
  | operation :: rest, s =>
      let (outcome, s') := run (handler fns)
        (match operation with
        | .execute_merge => do
            evaluatedMerge cfg
            return none
        | other => other.prog cfg) s
      let (outcomes, s'') := runAll cfg fns rest s'
      (outcome :: outcomes, s'')

theorem steps_runAll
    (operations : List (Operation Leaf))
    (s : Cache Root × World Leaf Root)
    (ended : ∀ outcome ∈ (runAll cfg fns operations s).1, outcome ≠ .unfinished) :
    Steps cfg fns s (operations.zip (runAll cfg fns operations s).1)
      (runAll cfg fns operations s).2 := by
  induction operations generalizing s with
  | nil => exact .nil s
  | cons operation rest inductionHypothesis =>
      obtain ⟨first, later⟩ := List.forall_mem_cons.mp ended
      refine .cons ?_ first (inductionHypothesis _ later)
      cases operation with
      | execute_merge => rw [Operation.prog, executeMerge_eq]
      | _ => rfl

end

/-! ## A run with three holders -/

/-- Filters of one bit that both shares show. -/
def bitFunctions : Functions Bool Nat where
  merge_fn _ sva svb :=
    { this_share := sva.this_share || svb.this_share
      nxt_share := sva.this_share || svb.this_share }
  ring_conv_fn _ sv :=
    { this_share := sv.this_share.toNat, nxt_share := sv.this_share.toNat }

def bitMeaning : Meaning Bool Nat Unit Nat where
  filter sv _ := sv.this_share
  value sv _ := sv.this_share

theorem bitMeaning_computes : bitMeaning.Computes bitFunctions where
  merge := by
    intro call sva svb
    rfl
  ring_conv := by
    intro call sv
    funext i
    cases bit : sv.this_share with
    | false => simp [bitMeaning, bitFunctions, embed, bit]
    | true => simp [bitMeaning, bitFunctions, embed, bit]
  zero := rfl

def bitConfig : Config := { bf_size := 1, ell_root := 13 }

def bitNode (bit : Bool) : ShareVec Bool := { this_share := bit, nxt_share := bit }

/-- The random source draws sixteen equal bytes for the leaf, and others for the
internal node. -/
def bitJoin (byte : UInt8) (bit : Bool) : Operation Bool :=
  .insert [fun _ => byte, fun _ => byte + 128] (bitNode bit)

def bitToken (byte : UInt8) : String := tokenHex fun _ => byte

def bitStart : Cache Nat × World Bool Nat :=
  (initial { this_share := 3, nxt_share := 3 }, { disk := ∅, calls := 0 })

/-- Three holders join and are merged; then one of them changes its filter,
another one quits, and the rest is merged again. -/
def bitOperations : List (Operation Bool) :=
  [bitJoin 7 true, bitJoin 8 false, bitJoin 9 false, .execute_merge,
    .update (bitToken 8) (bitNode true), .remove (bitToken 7), .execute_merge]

def bitOutcomes : List (Outcome PyError (Option String)) :=
  [.returned (some (bitToken 7)), .returned (some (bitToken 8)),
    .returned (some (bitToken 9)), .returned none, .returned none, .returned none,
    .returned none]

/-- The states behind the first operations of the sample. -/
def bitState (count : Nat) : Cache Nat × World Bool Nat :=
  (runAll bitConfig bitFunctions (bitOperations.take count) bitStart).2

theorem cache_refines_join :
    ∃ h, SpecSteps bitMeaning
        { present := fun _ => none, published := fun _ => 3 }
        (bitOperations.zip bitOutcomes) h ∧
      Agrees bitMeaning (bitState 7) h ∧
      ∀ operation : Operation Bool, operation.Supplied (bitState 7).1 ->
        (run (handler bitFunctions) (operation.prog bitConfig) (bitState 7)).1 ≠
          .unfinished := by
  have outcomes : (runAll bitConfig bitFunctions bitOperations bitStart).1 =
      bitOutcomes := by
    decide +kernel
  have steps : Steps bitConfig bitFunctions bitStart _ _ :=
    steps_runAll bitOperations bitStart (by rw [outcomes]; decide)
  rw [outcomes] at steps
  exact cache_refines bitMeaning_computes (run_construct_empty _ _) steps

end TreeCache
end Mpmt
