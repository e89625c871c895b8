import Mpmt.Dpf.Eval

/-!
# The optimised evaluators compute the naive walk

Every state the evaluators compute is a node of one binary tree, whose nodes
are the states of the naive walk.  The task array, the breadth-first buffer
and the search stack are each described by the nodes they hold; a run of the
search loop then writes the leaves below its stack from left to right, and the
threads together write every visited leaf once.
-/

namespace Mpmt
namespace Dpf

section

variable (ccrh : Block -> Block -> Block)
variable (key : KeyType ellIn)

/-! ## The evaluation tree -/

/-- The state at node `id` of layer `layer`. -/
def KeyType.node (key : KeyType ellIn) : Nat -> Nat -> Block
  | 0, _ => key.stOrigin
  | layer + 1, id =>
      key.child ccrh (key.node layer (id / 2)) layer (id.testBit 0)

/-- The naive walk visits the ancestors of its leaf. -/
theorem KeyType.walk_eq_node
    (point : Nat)
    (inside : layer ≤ ellIn) :
    key.walk ccrh point layer =
      key.node ccrh layer (point / 2 ^ (ellIn - layer)) := by
  induction layer with
  | zero => rfl
  | succ layer inductionHypothesis =>
      have above : ellIn - layer = ellIn - (layer + 1) + 1 := by omega
      have bit : ellIn - 1 - layer = ellIn - (layer + 1) + 0 := by omega
      rw [KeyType.walk, inductionHypothesis (by omega), KeyType.node,
        Nat.testBit_div_two_pow, pathBit, bit, Nat.div_div_eq_div_mul,
        ← Nat.pow_succ, Nat.succ_eq_add_one, ← above]
      simp

theorem KeyType.evalPoint_eq_node
    (ellOut : Nat)
    (party : Evaluator)
    (point : Nat) :
    key.evalPoint ccrh ellOut party point =
      key.leafOutput ellOut party (key.node ccrh ellIn point) := by
  rw [KeyType.evalPoint, key.walk_eq_node ccrh point (Nat.le_refl ellIn)]
  simp

private theorem testBit_two_mul (id : Nat) : (2 * id).testBit 0 = false := by
  simp [Nat.testBit_zero]

private theorem testBit_two_mul_add_one (id : Nat) :
    (2 * id + 1).testBit 0 = true := by
  simp [Nat.testBit_zero]

theorem KeyType.node_left (layer id : Nat) :
    key.node ccrh (layer + 1) (2 * id) =
      key.child ccrh (key.node ccrh layer id) layer L := by
  rw [KeyType.node, testBit_two_mul, Nat.mul_div_cancel_left id (by omega)]

theorem KeyType.node_right (layer id : Nat) :
    key.node ccrh (layer + 1) (2 * id + 1) =
      key.child ccrh (key.node ccrh layer id) layer R := by
  have half : (2 * id + 1) / 2 = id := by omega
  rw [KeyType.node, testBit_two_mul_add_one, half]

/-! ## Expansion of one layer -/

theorem writePair_apply
    (state : Block)
    (layer index : Nat)
    (out : Nat -> Block)
    (position : Nat) :
    writePair ccrh key state layer index out position =
      if position / 2 = index then
        key.child ccrh state layer (position.testBit 0)
      else out position := by
  by_cases right : position = 2 * index + 1
  · subst position
    have half : (2 * index + 1) / 2 = index := by omega
    rw [if_pos half, testBit_two_mul_add_one, writePair,
      Function.update_self]
  · by_cases left : position = 2 * index
    · subst position
      have half : 2 * index / 2 = index := by omega
      rw [if_pos half, testBit_two_mul, writePair,
        Function.update_of_ne (by omega), Function.update_self]
    · rw [if_neg (by omega), writePair, Function.update_of_ne right,
        Function.update_of_ne left]

/-- Working from the last index down, a round reads every task before it is
overwritten. -/
theorem expandRow_apply
    (layer count : Nat)
    (tasks : Nat -> Block)
    (position : Nat) :
    expandRow ccrh key layer count tasks position =
      if position < 2 * count then
        key.child ccrh (tasks (position / 2)) layer (position.testBit 0)
      else tasks position := by
  induction count generalizing tasks with
  | zero => simp [expandRow]
  | succ count inductionHypothesis =>
      rw [expandRow, inductionHypothesis]
      by_cases earlier : position < 2 * count
      · rw [if_pos earlier, if_pos (by omega), writePair_apply,
          if_neg (by omega)]
      · rw [if_neg earlier, writePair_apply]
        by_cases last : position / 2 = count
        · rw [if_pos last, if_pos (by omega), last]
        · rw [if_neg last, if_neg (by omega)]

/-- After `depth` rounds the task array holds layer `depth` of the tree. -/
theorem expandTasks_eq_node
    {id depth : Nat}
    (inside : id < 2 ^ depth) :
    expandTasks ccrh key depth id = key.node ccrh depth id := by
  induction depth generalizing id with
  | zero =>
      have root : id = 0 := by omega
      rw [root, expandTasks, Function.update_self, KeyType.node]
  | succ depth inductionHypothesis =>
      have bound : id < 2 * 2 ^ depth := by rwa [Nat.pow_succ'] at inside
      rw [expandTasks, expandRow_apply, if_pos bound, KeyType.node,
        inductionHypothesis (by omega)]

/-! ## Breadth-first expansion -/

/-- The loop from index `i` on fills the positions below its nodes. -/
theorem bfsTail_apply
    (layer num : Nat)
    (src : Nat -> Block)
    (i : Nat)
    (dst : Nat -> Block)
    (position : Nat) :
    bfsTail ccrh key layer num src i dst position =
      if i ≤ position / 2 ∧ position / 2 < num then
        key.child ccrh (src (position / 2)) layer (position.testBit 0)
      else dst position := by
  fun_induction bfsTail ccrh key layer num src i dst with
  | case1 i dst more inductionHypothesis =>
      rw [inductionHypothesis, writePair_apply]
      by_cases here : position / 2 = i
      · rw [if_neg (by omega), if_pos here, if_pos (by omega), here]
      · rw [if_neg here]
        exact if_congr (by omega) rfl rfl
  | case2 i dst finished =>
      rw [if_neg (by omega)]

/-- The batched loop fills the positions below the nodes it has passed. -/
theorem bfsBatch_apply
    (layer num : Nat)
    (src : Nat -> Block)
    (i : Nat)
    (dst : Nat -> Block)
    (position : Nat) :
    i ≤ (bfsBatch ccrh key layer num src i dst).1 ∧
    (bfsBatch ccrh key layer num src i dst).1 ≤ max i num ∧
    (bfsBatch ccrh key layer num src i dst).2 position =
      if i ≤ position / 2 ∧
          position / 2 < (bfsBatch ccrh key layer num src i dst).1 then
        key.child ccrh (src (position / 2)) layer (position.testBit 0)
      else dst position := by
  fun_induction bfsBatch ccrh key layer num src i dst with
  | case1 i dst more inductionHypothesis =>
      obtain ⟨passed, bounded, filled⟩ := inductionHypothesis
      refine ⟨by omega, by omega, ?_⟩
      rw [filled, writePair_apply, writePair_apply, writePair_apply,
        writePair_apply]
      by_cases later : i + 4 ≤ position / 2
      · rw [if_neg (by omega : ¬ position / 2 = i + 3),
          if_neg (by omega : ¬ position / 2 = i + 2),
          if_neg (by omega : ¬ position / 2 = i + 1),
          if_neg (by omega : ¬ position / 2 = i)]
        exact if_congr (by omega) rfl rfl
      · rw [if_neg (by omega)]
        by_cases earlier : position / 2 < i
        · rw [if_neg (by omega), if_neg (by omega), if_neg (by omega),
            if_neg (by omega), if_neg (by omega)]
        · rw [if_pos (by omega :
            i ≤ position / 2 ∧ position / 2 < _)]
          split
          · next third => rw [third]
          · split
            · next second => rw [second]
            · split
              · next first => rw [first]
              · have start : position / 2 = i := by omega
                rw [if_pos start, start]
  | case2 i dst finished =>
      exact ⟨Nat.le_refl i, by omega, by rw [if_neg (by omega)]⟩

/-- One breadth-first round, batched loop and remainder together. -/
theorem bfsLayer_apply
    (layer bd : Nat)
    (state : BfsState)
    (inside : position < 2 ^ (bd + 1)) :
    (bfsLayer ccrh key layer bd state).buf
        (bfsLayer ccrh key layer bd state).cb position =
      key.child ccrh (state.buf state.cb (position / 2)) layer
        (position.testBit 0) := by
  have half : position / 2 < 2 ^ bd := by
    rw [Nat.pow_succ] at inside
    omega
  simp only [bfsLayer, Function.update_self]
  rw [bfsTail_apply]
  have batched := bfsBatch_apply ccrh key layer (2 ^ bd)
    (state.buf state.cb) 0 (state.buf (!state.cb)) position
  split
  · rfl
  · rw [batched.2.2, if_pos (by omega)]

/-- After `depth` rounds the current half holds the nodes `depth` layers below
its first entry. -/
theorem bfsRun_eq_node
    (layer id : Nat)
    (state : BfsState)
    (root : state.buf state.cb 0 = key.node ccrh layer id)
    (inside : position < 2 ^ depth) :
    (bfsRun ccrh key layer state depth).buf
        (bfsRun ccrh key layer state depth).cb position =
      key.node ccrh (layer + depth) (id * 2 ^ depth + position) := by
  induction depth generalizing position with
  | zero =>
      have first : position = 0 := by omega
      rw [first, bfsRun, root]
      simp
  | succ depth inductionHypothesis =>
      have half : position / 2 < 2 ^ depth := by
        rw [Nat.pow_succ] at inside
        omega
      have even : id * 2 ^ (depth + 1) = 2 * (id * 2 ^ depth) := by
        rw [Nat.pow_succ]
        ring
      have parent : (id * 2 ^ (depth + 1) + position) / 2 =
          id * 2 ^ depth + position / 2 := by
        omega
      have parity : (id * 2 ^ (depth + 1) + position).testBit 0 =
          position.testBit 0 := by
        rw [Nat.testBit_zero, Nat.testBit_zero, even, Nat.mul_add_mod]
      rw [bfsRun, bfsLayer_apply ccrh key _ _ _ inside,
        inductionHypothesis half, ← Nat.add_assoc, KeyType.node, parent,
        parity]

/-! ## Writes of a subtree -/

variable (ellOut : Nat) (party : Evaluator) (view : View)

/-- The naive writes of the `count` leaves from `start` on, left to right. -/
def naiveWrites (start count : Nat) : List Write :=
  (List.range' start count).filterMap fun point =>
    if view.skipLeaf point then none
    else some (view.offset point, key.evalPoint ccrh ellOut party point)

/-- Consecutive blocks of leaves. -/
theorem naiveWrites_append (start first second : Nat) :
    naiveWrites ccrh key ellOut party view start first ++
        naiveWrites ccrh key ellOut party view (start + first) second =
      naiveWrites ccrh key ellOut party view start (first + second) := by
  rw [naiveWrites, naiveWrites, naiveWrites, ← List.filterMap_append,
    List.range'_append_1]

theorem naiveWrites_eq_nil
    (skipped : ∀ point, start ≤ point → point < start + count →
      view.skipLeaf point = true) :
    naiveWrites ccrh key ellOut party view start count = [] := by
  rw [naiveWrites, List.filterMap_eq_nil_iff]
  intro point member
  rw [List.mem_range'_1] at member
  rw [if_pos (skipped point member.1 member.2)]

theorem naiveWrites_eq_map
    (visited : ∀ point, start ≤ point → point < start + count →
      view.skipLeaf point = false) :
    naiveWrites ccrh key ellOut party view start count =
      (List.range' start count).map fun point =>
        (view.offset point, key.evalPoint ccrh ellOut party point) := by
  rw [naiveWrites, ← List.filterMap_eq_map]
  apply List.filterMap_congr
  intro point member
  rw [List.mem_range'_1] at member
  simp [visited point member.1 member.2]

/-- The output loop writes naive values when the buffer holds the leaves. -/
theorem leafWrites_eq_naiveWrites
    {outStart leafCount : Nat}
    {states : Nat -> Block}
    (leaves : ∀ i < leafCount,
      states i = key.node ccrh ellIn (outStart + i)) :
    leafWrites key ellOut party view outStart leafCount states =
      naiveWrites ccrh key ellOut party view outStart leafCount := by
  rw [leafWrites, naiveWrites, List.range'_eq_map_range,
    List.filterMap_map]
  apply List.filterMap_congr
  intro i member
  rw [List.mem_range] at member
  simp only [Function.comp_apply, leaves i member,
    key.evalPoint_eq_node ccrh]

/-- Pruned subtrees contain no visited leaf. -/
structure View.Sound (view : View) : Prop where
  skipNode : ∀ first last point, view.skipNode first last = true →
    first ≤ point → point < last → view.skipLeaf point = true
  pushChild : ∀ first last point, view.pushChild first last = false →
    first ≤ point → point < last → view.skipLeaf point = true

theorem fullView_sound : fullView.Sound where
  skipNode := by simp [fullView]
  pushChild := by simp [fullView]

theorem rangeView_sound (vecLen bg ed : Nat) :
    (rangeView vecLen bg ed).Sound where
  skipNode := by
    intro first last point pruned
    by_cases circular : ed < bg
    · simp only [rangeView, if_pos circular, Bool.and_eq_true,
        decide_eq_true_eq] at pruned ⊢
      omega
    · simp only [rangeView, if_neg circular, Bool.or_eq_true,
        decide_eq_true_eq] at pruned ⊢
      omega
  pushChild := by
    intro first last point pruned
    by_cases circular : ed < bg
    · simp only [rangeView, if_pos circular, Bool.or_eq_false_iff,
        Bool.and_eq_true, decide_eq_false_iff_not,
        decide_eq_true_eq] at pruned ⊢
      omega
    · simp only [rangeView, if_neg circular, Bool.and_eq_false_iff,
        Bool.or_eq_true, decide_eq_false_iff_not,
        decide_eq_true_eq] at pruned ⊢
      omega

/-! ## The search loop -/

/-- The entry holds the tree node its index names. -/
structure StkNode.InTree (node : StkNode) : Prop where
  inside : node.layer ≤ ellIn
  state : node.st = key.node ccrh node.layer node.id

/-- The naive writes below an entry. -/
def StkNode.naiveWrites (node : StkNode) : List Write :=
  Dpf.naiveWrites ccrh key ellOut party view
    (node.id * 2 ^ (ellIn - node.layer)) (2 ^ (ellIn - node.layer))

theorem StkNode.child_id (node : StkNode) (dir : Dir) :
    (node.child ccrh key dir).id = 2 * node.id + dir.toNat := by
  cases dir with
  | false => simp [StkNode.child, Nat.shiftLeft_eq, Nat.mul_comm]
  | true =>
      have disjoint := Nat.two_pow_add_eq_or_of_lt
        (show 1 < 2 ^ 1 by decide) node.id
      simp only [StkNode.child, if_true, Nat.shiftLeft_eq, Bool.toNat_true]
      rw [Nat.mul_comm node.id, ← disjoint]

theorem StkNode.InTree.child
    {node : StkNode}
    (inTree : node.InTree ccrh key)
    (inner : node.layer < ellIn)
    (dir : Dir) :
    (node.child ccrh key dir).InTree ccrh key where
  inside := inner
  state := by
    rw [StkNode.child_id]
    cases dir with
    | false =>
        exact (congrArg (key.child ccrh · node.layer L) inTree.state).trans
          (key.node_left ccrh node.layer node.id).symm
    | true =>
        exact (congrArg (key.child ccrh · node.layer R) inTree.state).trans
          (key.node_right ccrh node.layer node.id).symm

/-- The leaves below a node are those below its children. -/
theorem StkNode.naiveWrites_children
    (node : StkNode)
    (inner : node.layer < ellIn) :
    (node.child ccrh key L).naiveWrites ccrh key ellOut party view ++
        (node.child ccrh key R).naiveWrites ccrh key ellOut party view =
      node.naiveWrites ccrh key ellOut party view := by
  have depth : ellIn - node.layer = ellIn - (node.layer + 1) + 1 := by omega
  have leftStart : 2 * node.id * 2 ^ (ellIn - (node.layer + 1)) =
      node.id * 2 ^ (ellIn - node.layer) := by
    rw [depth, Nat.pow_succ]
    ring
  have rightStart : (2 * node.id + 1) * 2 ^ (ellIn - (node.layer + 1)) =
      node.id * 2 ^ (ellIn - node.layer) +
        2 ^ (ellIn - (node.layer + 1)) := by
    rw [← leftStart]
    ring
  have total : 2 ^ (ellIn - (node.layer + 1)) +
      2 ^ (ellIn - (node.layer + 1)) = 2 ^ (ellIn - node.layer) := by
    rw [depth, Nat.pow_succ]
    ring
  have layer : ∀ dir, (node.child ccrh key dir).layer = node.layer + 1 :=
    fun _ => rfl
  simp only [StkNode.naiveWrites, StkNode.child_id, layer, Bool.toNat_false,
    Bool.toNat_true, Nat.add_zero]
  rw [leftStart, rightStart, naiveWrites_append, total]

/-- Pushing a child or pruning it leaves the writes below the stack the
same. -/
theorem flatMap_pushIfVisited
    (sound : view.Sound)
    (child : StkNode)
    (stack : List StkNode) :
    (pushIfVisited view ellIn child stack).flatMap
        (StkNode.naiveWrites ccrh key ellOut party view) =
      child.naiveWrites ccrh key ellOut party view ++
        stack.flatMap (StkNode.naiveWrites ccrh key ellOut party view) := by
  unfold pushIfVisited
  dsimp only
  split
  · rw [List.flatMap_cons]
  · next pruned =>
      rw [StkNode.naiveWrites, naiveWrites_eq_nil, List.nil_append]
      intro point first last
      apply sound.pushChild _ _ point (Bool.eq_false_of_not_eq_true pruned)
      · rwa [Nat.shiftLeft_eq]
      · rw [Nat.shiftLeft_eq, Nat.add_mul]
        omega

theorem forall_mem_pushIfVisited
    (ellIn : Nat)
    {holds : StkNode -> Prop}
    {child : StkNode}
    (childHolds : holds child)
    (stackHolds : ∀ node ∈ stack, holds node) :
    ∀ node ∈ pushIfVisited view ellIn child stack,
      holds node := by
  unfold pushIfVisited
  dsimp only
  split
  · exact List.forall_mem_cons.mpr ⟨childHolds, stackHolds⟩
  · exact stackHolds

/-- The search loop writes the visited leaves below its stack, in order. -/
theorem evalStack_writes
    (sound : view.Sound)
    (stack : List StkNode)
    (buf : Bool -> Nat -> Block)
    (inTree : ∀ node ∈ stack, node.InTree ccrh key) :
    (evalStack ccrh key ellOut party view stack buf).writes =
      stack.flatMap (StkNode.naiveWrites ccrh key ellOut party view) := by
  fun_induction evalStack ccrh key ellOut party view stack buf with
  | case1 buf => rfl
  | case2 buf node rest remainingDepth pruned next inductionHypothesis =>
      obtain ⟨_, restInTree⟩ := List.forall_mem_cons.mp inTree
      have nothing : node.naiveWrites ccrh key ellOut party view = [] := by
        apply naiveWrites_eq_nil
        intro point first last
        apply sound.skipNode _ _ point pruned
        · rwa [Nat.shiftLeft_eq]
        · rw [Nat.shiftLeft_eq, Nat.add_mul, Nat.one_mul]
          exact last
      rw [List.flatMap_cons, nothing, List.nil_append]
      exact inductionHypothesis restInTree
  | case3 buf node rest remainingDepth visited small bfs next
      inductionHypothesis =>
      obtain ⟨nodeInTree, restInTree⟩ := List.forall_mem_cons.mp inTree
      have depth : node.layer + remainingDepth = ellIn :=
        Nat.add_sub_cancel' nodeInTree.inside
      have written : leafWrites key ellOut party view
            (node.id <<< remainingDepth) (2 ^ remainingDepth)
            (bfs.buf bfs.cb) =
          node.naiveWrites ccrh key ellOut party view := by
        rw [Nat.shiftLeft_eq]
        apply leafWrites_eq_naiveWrites
        intro i inside
        have filled := bfsRun_eq_node ccrh key node.layer node.id
          { buf := Function.update buf false
              (Function.update (buf false) 0 node.st)
            cb := false }
          (by simp [nodeInTree.state]) inside
        rwa [depth] at filled
      rw [List.flatMap_cons, written, inductionHypothesis restInTree]
  | case4 buf node rest remainingDepth visited large next
      inductionHypothesis =>
      obtain ⟨nodeInTree, restInTree⟩ := List.forall_mem_cons.mp inTree
      have inner : node.layer < ellIn := by omega
      have children := forall_mem_pushIfVisited view ellIn
        (nodeInTree.child ccrh key inner L)
        (forall_mem_pushIfVisited view ellIn
          (nodeInTree.child ccrh key inner R) restInTree)
      rw [List.flatMap_cons, inductionHypothesis children,
        flatMap_pushIfVisited ccrh key ellOut party view sound,
        flatMap_pushIfVisited ccrh key ellOut party view sound,
        ← List.append_assoc,
        node.naiveWrites_children ccrh key ellOut party view inner]

/-! ## The stack bound -/

/-- Below an entry of layer `layer` lie at most `layer - split` entries, and no
entry is deeper than the first layer searched breadth first. -/
def StackFits (ellIn split : Nat) : List StkNode -> Prop
  | [] => True
  | node :: rest =>
      rest.length + split ≤ node.layer ∧
        node.layer + LOCAL_BFS_D ellIn ≤ ellIn ∧
        StackFits ellIn split rest

theorem StackFits.length_le
    (fits : StackFits ellIn split (node :: rest)) :
    (node :: rest).length ≤ ellIn - LOCAL_BFS_D ellIn - split + 1 := by
  obtain ⟨below, shallow, _⟩ := fits
  rw [List.length_cons]
  omega

/-- A child is pushed on entries that its parent left below it. -/
theorem StackFits.pushIfVisited
    {child : StkNode}
    (below : stack.length + split ≤ child.layer)
    (shallow : child.layer + LOCAL_BFS_D ellIn ≤ ellIn)
    (fits : StackFits ellIn split stack) :
    StackFits ellIn split
      (pushIfVisited view ellIn child stack) := by
  unfold Dpf.pushIfVisited
  dsimp only
  split
  · exact ⟨below, shallow, fits⟩
  · exact fits

theorem length_pushIfVisited_le
    (ellIn : Nat)
    (child : StkNode)
    (stack : List StkNode) :
    (pushIfVisited view ellIn child stack).length ≤
      stack.length + 1 := by
  unfold pushIfVisited
  dsimp only
  split
  · exact Nat.le_refl _
  · omega

theorem evalStack_peak_le
    (split : Nat)
    (stack : List StkNode)
    (buf : Bool -> Nat -> Block)
    (fits : StackFits ellIn split stack) :
    (evalStack ccrh key ellOut party view stack buf).peak ≤
      ellIn - LOCAL_BFS_D ellIn - split + 1 := by
  fun_induction evalStack ccrh key ellOut party view stack buf with
  | case1 buf => exact Nat.zero_le _
  | case2 buf node rest remainingDepth pruned next inductionHypothesis =>
      exact max_le fits.length_le (inductionHypothesis fits.2.2)
  | case3 buf node rest remainingDepth visited small bfs next
      inductionHypothesis =>
      exact max_le fits.length_le (inductionHypothesis fits.2.2)
  | case4 buf node rest remainingDepth visited large next
      inductionHypothesis =>
      refine max_le fits.length_le (inductionHypothesis ?_)
      obtain ⟨below, shallow, restFits⟩ := fits
      have right := length_pushIfVisited_le view ellIn
        (node.child ccrh key R) rest
      have layer : ∀ dir, (node.child ccrh key dir).layer = node.layer + 1 :=
        fun _ => rfl
      apply StackFits.pushIfVisited view
      · rw [layer]
        omega
      · rw [layer]
        omega
      apply StackFits.pushIfVisited view
      · rw [layer]
        omega
      · rw [layer]
        omega
      exact restFits

/-! ## Threads -/

theorem splitCoff_le (ellIn cores : Nat) :
    splitCoff ellIn cores ≤ ellIn - LOCAL_BFS_D ellIn :=
  Nat.min_le_left _ _

theorem LOCAL_BFS_D_le (ellIn : Nat) : LOCAL_BFS_D ellIn ≤ ellIn := by
  unfold LOCAL_BFS_D
  split <;> omega

theorem evalThread_writes
    (sound : view.Sound)
    {split : Nat}
    (splitLe : split ≤ ellIn)
    {tasks : Nat -> Block}
    (start count : Nat)
    (buf : Bool -> Nat -> Block)
    (expanded : ∀ t, start ≤ t → t < start + count →
      tasks t = key.node ccrh split t) :
    (evalThread ccrh key ellOut party view split tasks
        (List.range' start count) buf).writes =
      naiveWrites ccrh key ellOut party view
        (start * 2 ^ (ellIn - split)) (count * 2 ^ (ellIn - split)) := by
  induction count generalizing start buf with
  | zero =>
      rw [Nat.zero_mul]
      rfl
  | succ count inductionHypothesis =>
      have rest := fun buf => inductionHypothesis (start + 1) buf
        fun t first last => expanded t (by omega) (by omega)
      have first := evalStack_writes ccrh key ellOut party view sound
        [{ st := tasks start, id := start, layer := split }] buf
        (List.forall_mem_singleton.mpr
          ⟨splitLe, expanded start (by omega) (by omega)⟩)
      rw [List.range'_succ, evalThread]
      dsimp only
      rw [first, rest, List.flatMap_singleton, StkNode.naiveWrites,
        Nat.succ_mul, Nat.succ_mul, naiveWrites_append,
        Nat.add_comm (count * _)]

theorem evalThread_peak_le
    {split : Nat}
    (splitLe : split ≤ ellIn - LOCAL_BFS_D ellIn)
    (tasks : Nat -> Block)
    (indices : List Nat)
    (buf : Bool -> Nat -> Block) :
    (evalThread ccrh key ellOut party view split tasks indices buf).peak ≤
      ellIn - LOCAL_BFS_D ellIn - split + 1 := by
  induction indices generalizing buf with
  | nil => exact Nat.zero_le _
  | cons t rest inductionHypothesis =>
      have shallow := LOCAL_BFS_D_le ellIn
      have rootFits : StackFits ellIn split
          [{ st := tasks t, id := t, layer := split }] := by
        refine ⟨?_, ?_, trivial⟩
        · simp
        · show split + LOCAL_BFS_D ellIn ≤ ellIn
          omega
      exact max_le
        (evalStack_peak_le ccrh key ellOut party view split _ buf rootFits)
        (inductionHypothesis _)

/-- The ranges of the threads started from `i` on are consecutive and end at
`totalTasks`. -/
theorem flatMap_threadRanges
    (enough : totalTasks ≤ cores * tasksPerThread)
    (i : Nat)
    (writes : Nat -> Nat -> List Write)
    (writesNil : ∀ start, writes start 0 = [])
    (writesAppend : ∀ start first second,
      writes start first ++ writes (start + first) second =
        writes start (first + second)) :
    (threadRanges tasksPerThread totalTasks cores i).flatMap
        (fun range => writes range.1 (range.2 - range.1)) =
      writes (i * tasksPerThread) (totalTasks - i * tasksPerThread) := by
  fun_induction threadRanges tasksPerThread totalTasks cores i with
  | case1 i started startTask outside =>
      rw [Nat.sub_eq_zero_of_le outside, writesNil, List.flatMap_nil]
  | case2 i started startTask inside inductionHypothesis =>
      have next : (i + 1) * tasksPerThread = startTask + tasksPerThread :=
        Nat.succ_mul i tasksPerThread
      rw [List.flatMap_cons, inductionHypothesis, next]
      by_cases full : startTask + tasksPerThread ≤ totalTasks
      · have size : tasksPerThread +
            (totalTasks - (startTask + tasksPerThread)) =
            totalTasks - startTask := by omega
        rw [Nat.min_eq_left full]
        dsimp only
        rw [Nat.add_sub_cancel_left, writesAppend, size]
      · have last : totalTasks - (startTask + tasksPerThread) = 0 := by omega
        rw [Nat.min_eq_right (by omega), last, writesNil, List.append_nil]
  | case3 i finished =>
      have outside : cores * tasksPerThread ≤ i * tasksPerThread :=
        Nat.mul_le_mul_right _ (by omega)
      rw [Nat.sub_eq_zero_of_le (by omega), writesNil, List.flatMap_nil]

/-- Every thread range ends inside the task array. -/
theorem mem_threadRanges
    (member : range ∈ threadRanges tasksPerThread totalTasks cores i) :
    range.2 ≤ totalTasks := by
  fun_induction threadRanges tasksPerThread totalTasks cores i with
  | case1 => simp at member
  | case2 i started startTask inside inductionHypothesis =>
      rcases List.mem_cons.mp member with first | later
      · rw [first]
        exact Nat.min_le_right _ _
      · exact inductionHypothesis later
  | case3 => simp at member

/-- All writes of an evaluation, thread after thread. -/
def allWrites (threads : List ThreadOut) : List Write :=
  threads.flatMap ThreadOut.writes

/-- There are threads enough for the tasks. -/
theorem totalTasks_le
    (coresPositive : 1 ≤ cores)
    (totalTasks : Nat) : totalTasks ≤ cores * ((totalTasks + cores - 1) / cores) := by
  have division := Nat.div_add_mod (totalTasks + cores - 1) cores
  have remainder := Nat.mod_lt (totalTasks + cores - 1) (show 0 < cores by omega)
  omega

/-- A thread writes the visited leaves below its tasks. -/
theorem evalThread_writes_range
    (sound : view.Sound)
    {tasksPerThread : Nat}
    (scratch : Nat -> Bool -> Nat -> Block)
    (member : range ∈ threadRanges tasksPerThread (2 ^ splitCoff ellIn cores) cores i) :
    (evalThread ccrh key ellOut party view (splitCoff ellIn cores)
        (expandTasks ccrh key (splitCoff ellIn cores))
        (List.range' range.1 (range.2 - range.1)) (scratch range.1)).writes =
      naiveWrites ccrh key ellOut party view
        (range.1 * 2 ^ (ellIn - splitCoff ellIn cores))
        ((range.2 - range.1) * 2 ^ (ellIn - splitCoff ellIn cores)) := by
  have splitLe := splitCoff_le ellIn cores
  have last := mem_threadRanges member
  apply evalThread_writes ccrh key ellOut party view sound (by omega)
  intro t _ inside
  exact expandTasks_eq_node ccrh key (by omega)

/-- The threads of an evaluation write the visited leaves of the whole domain,
in order. -/
theorem allWrites_evalThreads
    (sound : view.Sound)
    (coresPositive : 1 ≤ cores)
    (scratch : Nat -> Bool -> Nat -> Block) :
    allWrites (evalThreads ccrh key ellOut party view cores scratch) =
      naiveWrites ccrh key ellOut party view 0 (2 ^ ellIn) := by
  have splitLe := splitCoff_le ellIn cores
  rw [allWrites, evalThreads, List.flatMap_map, List.flatMap_congr fun _ member =>
      evalThread_writes_range ccrh key ellOut party view sound scratch member]
  generalize splitCoff ellIn cores = split at splitLe
  rw [flatMap_threadRanges (totalTasks_le coresPositive _) 0
      (fun start count => naiveWrites ccrh key ellOut party view
        (start * 2 ^ (ellIn - split)) (count * 2 ^ (ellIn - split)))]
  · rw [Nat.zero_mul, Nat.zero_mul, Nat.sub_zero, ← Nat.pow_add]
    congr 2
    omega
  · intro start
    rw [Nat.zero_mul]
    rfl
  · intro start first second
    rw [Nat.add_mul, naiveWrites_append, Nat.add_mul]

theorem evalThreads_peak_le
    (cores : Nat)
    (scratch : Nat -> Bool -> Nat -> Block) :
    ∀ thread ∈ evalThreads ccrh key ellOut party view cores scratch,
      thread.peak ≤ stackCapacity ellIn := by
  intro thread member
  rw [evalThreads, List.mem_map] at member
  obtain ⟨range, _, rfl⟩ := member
  have bound := evalThread_peak_le ccrh key ellOut party view
    (splitCoff_le ellIn cores) (expandTasks ccrh key (splitCoff ellIn cores))
    (List.range' range.1 (range.2 - range.1)) (scratch range.1)
  rw [stackCapacity, if_pos (LOCAL_BFS_D_le ellIn)]
  omega

/-! ## Output positions -/

theorem fullView_naiveWrites (count : Nat) :
    naiveWrites ccrh key ellOut party fullView 0 count =
      (List.range count).map fun point =>
        (point, key.evalPoint ccrh ellOut party point) := by
  rw [naiveWrites_eq_map, List.range_eq_range']
  · rfl
  · intro point _ _
    rfl

/-- On a closed interval only the interval is written, shifted to zero. -/
theorem rangeView_naiveWrites_of_le
    (ordered : bg ≤ ed)
    (edLt : ed < vecLen) :
    naiveWrites ccrh key ellOut party (rangeView vecLen bg ed) 0 vecLen =
      (List.range' bg (ed - bg + 1)).map fun point =>
        (point - bg, key.evalPoint ccrh ellOut party point) := by
  have linear : ¬ ed < bg := by omega
  have size : vecLen = bg + ((ed - bg + 1) + (vecLen - ed - 1)) := by omega
  have below : naiveWrites ccrh key ellOut party (rangeView vecLen bg ed)
      0 bg = [] := by
    apply naiveWrites_eq_nil
    intro point _ last
    simp only [rangeView, if_neg linear, Bool.or_eq_true, decide_eq_true_eq]
    omega
  have above : naiveWrites ccrh key ellOut party (rangeView vecLen bg ed)
      (0 + bg + (ed - bg + 1)) (vecLen - ed - 1) = [] := by
    apply naiveWrites_eq_nil
    intro point first _
    simp only [rangeView, if_neg linear, Bool.or_eq_true, decide_eq_true_eq]
    omega
  conv_lhs => rw [size, ← naiveWrites_append, ← naiveWrites_append]
  rw [← size, below, above, List.nil_append, List.append_nil, Nat.zero_add,
    naiveWrites_eq_map]
  · simp only [rangeView, if_neg linear]
  · intro point first last
    simp only [rangeView, if_neg linear, Bool.or_eq_false_iff,
      decide_eq_false_iff_not]
    omega

/-- On a circular interval the part up to `ed` is written first, behind the
part from `bg` on. -/
theorem rangeView_naiveWrites_of_lt
    (circular : ed < bg)
    (bgLt : bg < vecLen) :
    naiveWrites ccrh key ellOut party (rangeView vecLen bg ed) 0 vecLen =
      ((List.range' 0 (ed + 1)).map fun point =>
        (vecLen - bg + point, key.evalPoint ccrh ellOut party point)) ++
      ((List.range' bg (vecLen - bg)).map fun point =>
        (point - bg, key.evalPoint ccrh ellOut party point)) := by
  have size : vecLen = (ed + 1) + ((bg - ed - 1) + (vecLen - bg)) := by omega
  have gapEnd : 0 + (ed + 1) + (bg - ed - 1) = bg := by omega
  have gap : naiveWrites ccrh key ellOut party (rangeView vecLen bg ed)
      (0 + (ed + 1)) (bg - ed - 1) = [] := by
    apply naiveWrites_eq_nil
    intro point first last
    simp only [rangeView, if_pos circular, Bool.and_eq_true,
      decide_eq_true_eq]
    omega
  have visited : ∀ point, point ≤ ed ∨ bg ≤ point →
      (rangeView vecLen bg ed).skipLeaf point = false := by
    intro point inside
    simp only [rangeView, if_pos circular, Bool.and_eq_false_iff,
      decide_eq_false_iff_not]
    omega
  have parts := naiveWrites_append ccrh key ellOut party
    (rangeView vecLen bg ed) 0 (ed + 1) ((bg - ed - 1) + (vecLen - bg))
  rw [← size, ← naiveWrites_append ccrh key ellOut party _ (0 + (ed + 1)),
    gap, List.nil_append, gapEnd] at parts
  rw [← parts, naiveWrites_eq_map, naiveWrites_eq_map]
  · congr 1
    · apply List.map_congr_left
      intro point member
      rw [List.mem_range'_1] at member
      simp only [rangeView, if_pos circular]
      rw [if_neg (by omega)]
    · apply List.map_congr_left
      intro point member
      rw [List.mem_range'_1] at member
      simp only [rangeView, if_pos circular]
      rw [if_pos (by omega)]
  · intro point first _
    exact visited point (by omega)
  · intro point _ last
    exact visited point (by omega)

private theorem map_sub_range' (bg count : Nat) :
    (List.range' bg count).map (fun point => point - bg) =
      List.range count := by
  rw [List.range'_eq_map_range, List.map_map]
  convert List.map_id _ using 2
  funext i
  simp

private theorem map_add_range' (offset count : Nat) :
    (List.range' 0 count).map (fun point => offset + point) =
      List.range' offset count := by
  rw [← List.range_eq_range', List.range'_eq_map_range]

/-- Every offset of the interval is written exactly once. -/
theorem rangeView_offsets_perm
    (bgLt : bg < vecLen)
    (edLt : ed < vecLen) :
    ((naiveWrites ccrh key ellOut party (rangeView vecLen bg ed) 0
        vecLen).map Prod.fst).Perm
      (List.range (rangeLen vecLen bg ed)) := by
  by_cases circular : ed < bg
  · rw [rangeView_naiveWrites_of_lt ccrh key ellOut party circular bgLt,
      List.map_append, List.map_map, List.map_map, rangeLen, if_pos circular,
      Nat.add_assoc]
    simp only [Function.comp_def]
    rw [map_sub_range', map_add_range']
    refine List.perm_append_comm.trans (List.Perm.of_eq ?_)
    have joined := List.range'_append_1 (s := 0) (m := vecLen - bg)
      (n := ed + 1)
    rwa [Nat.zero_add, ← List.range_eq_range', ← List.range_eq_range']
      at joined
  · rw [rangeView_naiveWrites_of_le ccrh key ellOut party (by omega) edLt,
      List.map_map, rangeLen, if_neg circular]
    simp only [Function.comp_def]
    rw [map_sub_range']

/-- The value written at an offset is the naive value at its point. -/
theorem rangeView_values
    (bgLt : bg < vecLen)
    (edLt : ed < vecLen)
    (member : write ∈ naiveWrites ccrh key ellOut party
      (rangeView vecLen bg ed) 0 vecLen) :
    write.2 =
      key.evalPoint ccrh ellOut party ((bg + write.1) % vecLen) := by
  by_cases circular : ed < bg
  · rw [rangeView_naiveWrites_of_lt ccrh key ellOut party circular bgLt,
      List.mem_append, List.mem_map, List.mem_map] at member
    rcases member with ⟨point, inside, rfl⟩ | ⟨point, inside, rfl⟩
    · rw [List.mem_range'_1] at inside
      have wrapped : bg + (vecLen - bg + point) = point + vecLen := by omega
      dsimp only
      rw [wrapped, Nat.add_mod_right, Nat.mod_eq_of_lt (by omega)]
    · rw [List.mem_range'_1] at inside
      dsimp only
      rw [Nat.add_sub_cancel' inside.1, Nat.mod_eq_of_lt (by omega)]
  · rw [rangeView_naiveWrites_of_le ccrh key ellOut party (by omega) edLt,
      List.mem_map] at member
    obtain ⟨point, inside, rfl⟩ := member
    rw [List.mem_range'_1] at inside
    dsimp only
    rw [Nat.add_sub_cancel' inside.1, Nat.mod_eq_of_lt (by omega)]

/-! ## The output buffer -/

/-- The output buffer after writes that took effect in the given order.  Each
element is a byte of its own here, as it is when `ELL_OUT` is at least two. -/
def applyWrites (order : List Write) (buffer : Nat -> UInt8) : Nat -> UInt8 :=
  order.foldl (fun buffer write =>
    Function.update buffer write.1 write.2) buffer

theorem applyWrites_apply
    (order : List Write)
    (value : Nat -> UInt8)
    (values : ∀ write ∈ order, write.2 = value write.1)
    (buffer : Nat -> UInt8)
    (position : Nat) :
    applyWrites order buffer position =
      if position ∈ order.map Prod.fst then value position
      else buffer position := by
  induction order generalizing buffer with
  | nil => simp [applyWrites]
  | cons write rest inductionHypothesis =>
      obtain ⟨first, later⟩ := List.forall_mem_cons.mp values
      have step : applyWrites (write :: rest) buffer =
          applyWrites rest (Function.update buffer write.1 write.2) := rfl
      rw [step, inductionHypothesis later, List.map_cons]
      by_cases again : position ∈ rest.map Prod.fst
      · rw [if_pos again, if_pos (List.mem_cons_of_mem _ again)]
      · by_cases here : position = write.1
        · rw [if_neg again, here, if_pos List.mem_cons_self,
            Function.update_self, first]
        · rw [if_neg again, Function.update_of_ne here,
            if_neg (by simp only [List.mem_cons]; tauto)]

/-- The threads of an evaluation fill a buffer of `size` bytes with `value`:
every position is written exactly once and nothing outside; in whatever order
the writes of the threads take effect the buffer ends up with the values; and no
stack outgrows its array. -/
structure Fills
    (threads : List ThreadOut)
    (size capacity : Nat)
    (value : Nat -> UInt8) : Prop where
  once : ((allWrites threads).map Prod.fst).Perm (List.range size)
  buffer : ∀ order : List Write, order.Perm (allWrites threads) ->
    ∀ (initial : Nat -> UInt8) (position : Nat),
      applyWrites order initial position =
        if position < size then value position else initial position
  stack : ∀ thread ∈ threads, thread.peak ≤ capacity

theorem Fills.of_writes
    {threads : List ThreadOut}
    {value : Nat -> UInt8}
    (once : ((allWrites threads).map Prod.fst).Perm (List.range size))
    (values : ∀ write ∈ allWrites threads, write.2 = value write.1)
    (stack : ∀ thread ∈ threads, thread.peak ≤ capacity) :
    Fills threads size capacity value where
  once := once
  buffer := by
    intro order permuted initial position
    rw [applyWrites_apply order value
      fun write member => values write (permuted.subset member)]
    refine if_congr ?_ rfl rfl
    rw [((permuted.map Prod.fst).trans once).mem_iff, List.mem_range]
  stack := stack

theorem rangeEval_fills
    (coresPositive : 1 ≤ cores)
    (scratch : Nat -> Bool -> Nat -> Block)
    (bgLt : bg < 2 ^ ellIn)
    (edLt : ed < 2 ^ ellIn) :
    ∃ threads,
      rangeEval ccrh key ellOut party cores (rangeLen (2 ^ ellIn) bg ed) bg ed
        scratch = .ok threads ∧
      Fills threads (rangeLen (2 ^ ellIn) bg ed) (stackCapacity ellIn)
        fun k => key.evalPoint ccrh ellOut party ((bg + k) % 2 ^ ellIn) := by
  have writes := allWrites_evalThreads ccrh key ellOut party
    (rangeView (2 ^ ellIn) bg ed) (rangeView_sound _ _ _) coresPositive
    scratch
  refine ⟨_, ?_, Fills.of_writes ?_ ?_
    (evalThreads_peak_le ccrh key ellOut party
      (rangeView (2 ^ ellIn) bg ed) cores scratch)⟩
  · rw [rangeEval, if_neg (by omega), if_neg (by omega), if_neg (by simp)]
  · rw [writes]
    exact rangeView_offsets_perm ccrh key ellOut party bgLt edLt
  · intro write member
    rw [writes] at member
    exact rangeView_values ccrh key ellOut party bgLt edLt member

end

end Dpf
end Mpmt
