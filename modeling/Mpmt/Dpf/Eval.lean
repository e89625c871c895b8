import Mpmt.Dpf.Gen

/-!
# The optimised evaluators

`Bgi16::fullEval` and `Bgi16::rangeEval`.  Both expand the first layers into a
task array in place, split the tasks between threads, and let every thread
search its subtrees with an explicit stack; the last layers of a subtree are
expanded breadth first in a double buffer, four nodes at a time.  The two
functions differ only in which subtrees and leaves they visit and where a leaf
goes in the output, so these choices are a `View`.

Loop counters are natural numbers: every value is below `2^ELL_IN` or is a
thread count that `threads.reserve` could allocate.
-/

namespace Mpmt
namespace Dpf

open RingMath

section

variable (ccrh : Block -> Block -> Block)
variable (key : KeyType ellIn)

/-! ## Task expansion -/

/-- `LOCAL_BFS_D`: depth expanded breadth first. -/
def LOCAL_BFS_D (ellIn : Nat) : Nat := if ellIn < 8 then ellIn else 8

/-- `std::bit_width`. -/
def bitWidth (value : Nat) : Nat :=
  if value = 0 then 0 else Nat.log2 value + 1

/-- `splitCoff`: number of layers expanded into tasks. -/
def splitCoff (ellIn cores : Nat) : Nat :=
  min (ellIn - LOCAL_BFS_D ellIn) (bitWidth (cores % 2 ^ 32) + 3 - 1)

/-- Store both children of a node at `2 * index` and `2 * index + 1`. -/
def writePair
    (state : Block)
    (layer index : Nat)
    (out : Nat -> Block) : Nat -> Block :=
  Function.update
    (Function.update out (2 * index) (key.child ccrh state layer L))
    (2 * index + 1) (key.child ccrh state layer R)

/-- Expand the first `count` tasks of one layer in place, from the last index
down. -/
def expandRow (layer : Nat) : Nat -> (Nat -> Block) -> (Nat -> Block)
  | 0, tasks => tasks
  | index + 1, tasks =>
      expandRow layer index (writePair ccrh key (tasks index) layer index tasks)

/-- The task array after `depth` expansion rounds. -/
def expandTasks : Nat -> (Nat -> Block)
  | 0 => Function.update (fun _ => 0) 0 key.stOrigin
  | depth + 1 => expandRow ccrh key depth (2 ^ depth) (expandTasks depth)

/-! ## Breadth-first expansion -/

/-- The 4-way batched loop; returns the index at which it stops. -/
def bfsBatch
    (layer num : Nat)
    (src : Nat -> Block)
    (i : Nat)
    (dst : Nat -> Block) : Nat × (Nat -> Block) :=
  if i + 3 < num then
    bfsBatch layer num src (i + 4)
      (writePair ccrh key (src (i + 3)) layer (i + 3)
        (writePair ccrh key (src (i + 2)) layer (i + 2)
          (writePair ccrh key (src (i + 1)) layer (i + 1)
            (writePair ccrh key (src i) layer i dst))))
  else (i, dst)
termination_by num - i

/-- The loop over the nodes the batched loop leaves. -/
def bfsTail
    (layer num : Nat)
    (src : Nat -> Block)
    (i : Nat)
    (dst : Nat -> Block) : Nat -> Block :=
  if i < num then
    bfsTail layer num src (i + 1) (writePair ccrh key (src i) layer i dst)
  else dst
termination_by num - i

/-- `bfsBuf` with the index of its current half (`cb`). -/
structure BfsState where
  buf : Bool -> Nat -> Block
  cb : Bool

/-- Expand the `2^bd` nodes of the current half into the other half. -/
def bfsLayer (layer bd : Nat) (state : BfsState) : BfsState :=
  let nb := !state.cb
  let batched := bfsBatch ccrh key layer (2 ^ bd) (state.buf state.cb) 0
    (state.buf nb)
  { buf := Function.update state.buf nb
      (bfsTail ccrh key layer (2 ^ bd) (state.buf state.cb) batched.1
        batched.2)
    cb := nb }

/-- `depth` rounds below a node of layer `layer`. -/
def bfsRun (layer : Nat) (state : BfsState) : Nat -> BfsState
  | 0 => state
  | bd + 1 => bfsLayer ccrh key (layer + bd) bd (bfsRun layer state bd)

/-! ## Depth-first search -/

/-- `privateStkNode`. -/
structure StkNode where
  st : Block
  id : Nat
  layer : Nat

/-- Which subtrees `[start, end)` and leaves are visited, and the output
position of a leaf. -/
structure View where
  skipNode : Nat -> Nat -> Bool
  pushChild : Nat -> Nat -> Bool
  skipLeaf : Nat -> Bool
  offset : Nat -> Nat

/-- One `fdresBuf.set(index, value)`. -/
abbrev Write := Nat × UInt8

/-- What a thread does: its writes in order, the largest number of stack
entries, and its scratch buffer at the end. -/
structure ThreadOut where
  writes : List Write
  peak : Nat
  buf : Bool -> Nat -> Block

variable (ellOut : Nat) (party : Evaluator) (view : View)

/-- Output loop over the leaves of a subtree. -/
def leafWrites (outStart leafCount : Nat) (states : Nat -> Block) :
    List Write :=
  (List.range leafCount).filterMap fun i =>
    if view.skipLeaf (outStart + i) then none
    else some (view.offset (outStart + i),
      key.leafOutput ellOut party (states i))

/-- The child node pushed on the stack. -/
def StkNode.child (node : StkNode) (dir : Dir) : StkNode :=
  { st := key.child ccrh node.st node.layer dir
    id := if dir then node.id <<< 1 ||| 1 else node.id <<< 1
    layer := node.layer + 1 }

/-- Push a child when its interval is visited. -/
def pushIfVisited
    (ellIn : Nat)
    (child : StkNode)
    (stack : List StkNode) : List StkNode :=
  let remaining := ellIn - child.layer
  if view.pushChild (child.id <<< remaining) ((child.id + 1) <<< remaining)
  then child :: stack else stack

/-- Work left below a node; it bounds the run of the search loop. -/
def StkNode.work (ellIn : Nat) (node : StkNode) : Nat :=
  2 ^ (ellIn - node.layer + 1) - 1

theorem StkNode.work_pos (ellIn : Nat) (node : StkNode) :
    0 < node.work ellIn := by
  have double : 2 ^ 1 ≤ 2 ^ (ellIn - node.layer + 1) :=
    Nat.pow_le_pow_right (by omega) (by omega)
  simp only [StkNode.work]
  omega

/-- Work left on the whole stack. -/
def stackWork (ellIn : Nat) (stack : List StkNode) : Nat :=
  (stack.map (StkNode.work ellIn)).sum

theorem stackWork_pushIfVisited_le
    (ellIn : Nat)
    (child : StkNode)
    (stack : List StkNode) :
    stackWork ellIn (pushIfVisited view ellIn child stack) ≤
      child.work ellIn + stackWork ellIn stack := by
  unfold pushIfVisited
  dsimp only
  split <;> simp [stackWork]

/-- Two children have less work than their parent. -/
theorem StkNode.work_children_lt
    (node : StkNode)
    (inner : node.layer < ellIn) :
    (node.child ccrh key L).work ellIn + (node.child ccrh key R).work ellIn <
      node.work ellIn := by
  have depth : ellIn - node.layer = ellIn - (node.layer + 1) + 1 := by omega
  have positive : 0 < 2 ^ (ellIn - (node.layer + 1)) := by positivity
  simp only [StkNode.work, StkNode.child, depth, Nat.pow_succ]
  omega

/-- The `while (stkPtr > 0)` loop of a thread on one stack, top first. -/
def evalStack (stack : List StkNode) (buf : Bool -> Nat -> Block) :
    ThreadOut :=
  match stack with
  | [] => { writes := [], peak := 0, buf := buf }
  | node :: rest =>
      let remainingDepth := ellIn - node.layer
      if view.skipNode (node.id <<< remainingDepth)
          ((node.id + 1) <<< remainingDepth) then
        let next := evalStack rest buf
        { next with peak := max (rest.length + 1) next.peak }
      else if remainingDepth ≤ LOCAL_BFS_D ellIn then
        let bfs := bfsRun ccrh key node.layer
          { buf := Function.update buf false
              (Function.update (buf false) 0 node.st)
            cb := false } remainingDepth
        let next := evalStack rest bfs.buf
        { next with
          writes := leafWrites key ellOut party view
            (node.id <<< remainingDepth) (2 ^ remainingDepth)
            (bfs.buf bfs.cb) ++ next.writes
          peak := max (rest.length + 1) next.peak }
      else
        let next := evalStack
          (pushIfVisited view ellIn (node.child ccrh key L)
            (pushIfVisited view ellIn (node.child ccrh key R)
              rest)) buf
        { next with peak := max (rest.length + 1) next.peak }
termination_by stackWork ellIn stack
decreasing_by
  · have positive := node.work_pos ellIn
    simp only [stackWork, List.map_cons, List.sum_cons]
    omega
  · have positive := node.work_pos ellIn
    simp only [stackWork, List.map_cons, List.sum_cons]
    omega
  · have left := stackWork_pushIfVisited_le view ellIn
      (node.child ccrh key L)
      (pushIfVisited view ellIn (node.child ccrh key R) rest)
    have right := stackWork_pushIfVisited_le view ellIn
      (node.child ccrh key R) rest
    have children := node.work_children_lt ccrh key (by omega)
    simp only [stackWork, List.map_cons, List.sum_cons] at left right ⊢
    omega

/-- The loop of a thread over its tasks. -/
def evalThread (split : Nat) (tasks : Nat -> Block) :
    List Nat -> (Bool -> Nat -> Block) -> ThreadOut
  | [], buf => { writes := [], peak := 0, buf := buf }
  | t :: rest, buf =>
      let first := evalStack ccrh key ellOut party view
        [{ st := tasks t, id := t, layer := split }] buf
      let next := evalThread split tasks rest first.buf
      { next with
        writes := first.writes ++ next.writes
        peak := max first.peak next.peak }

/-! ## Threads -/

/-- `[startTask, endTask)` of every thread started, from thread `i` on. -/
def threadRanges (tasksPerThread totalTasks cores i : Nat) :
    List (Nat × Nat) :=
  if i < cores then
    let startTask := i * tasksPerThread
    if startTask ≥ totalTasks then []
    else (startTask, min (startTask + tasksPerThread) totalTasks) ::
      threadRanges tasksPerThread totalTasks cores (i + 1)
  else []
termination_by cores - i

/-- Errors thrown before any thread starts. -/
inductive EvalError
  | bufferSize
  | bgOutOfRange
  | edOutOfRange
  deriving DecidableEq, Repr

/-- All threads of one evaluation; `scratch` is what a thread finds in its
uninitialised `bfsBuf`. -/
def evalThreads (cores : Nat) (scratch : Nat -> Bool -> Nat -> Block) :
    List ThreadOut :=
  let split := splitCoff ellIn cores
  let totalTasks := 2 ^ split
  let tasks := expandTasks ccrh key split
  let tasksPerThread := (totalTasks + cores - 1) / cores
  (threadRanges tasksPerThread totalTasks cores 0).map fun range =>
    evalThread ccrh key ellOut party view split tasks
      (List.range' range.1 (range.2 - range.1)) (scratch range.1)

/-- Number of entries of the array `stk`. -/
def stackCapacity (ellIn : Nat) : Nat :=
  (if ellIn ≥ LOCAL_BFS_D ellIn then ellIn - LOCAL_BFS_D ellIn else 1) + 2

end

/-- Every subtree and leaf is visited, in place. -/
def fullView : View where
  skipNode _ _ := false
  pushChild _ _ := true
  skipLeaf _ := false
  offset globalIdx := globalIdx

/-- The closed interval `[bg, ed]`, or its circular form when `ed < bg`. -/
def rangeView (vecLen bg ed : Nat) : View where
  skipNode nodeStart nodeEnd :=
    if ed < bg then nodeStart > ed && nodeEnd ≤ bg
    else nodeEnd ≤ bg || nodeStart > ed
  pushChild childStart childEnd :=
    if ed < bg then childEnd > bg || childStart ≤ ed
    else childStart ≤ ed && childEnd > bg
  skipLeaf globalIdx :=
    if ed < bg then globalIdx > ed && globalIdx < bg
    else globalIdx < bg || globalIdx > ed
  offset globalIdx :=
    if ed < bg then
      if globalIdx ≥ bg then globalIdx - bg else (vecLen - bg) + globalIdx
    else globalIdx - bg

/-- `rangeLen`. -/
def rangeLen (vecLen bg ed : Nat) : Nat :=
  if ed < bg then (vecLen - bg) + ed + 1 else ed - bg + 1

/-- `Bgi16::fullEval<CORES>` into a buffer of `size` elements. -/
def fullEval
    (ccrh : Block -> Block -> Block)
    (key : KeyType ellIn)
    (ellOut : Nat)
    (party : Evaluator)
    (cores size : Nat)
    (scratch : Nat -> Bool -> Nat -> Block) : Except EvalError (List ThreadOut) :=
  if size ≠ 2 ^ ellIn then .error .bufferSize
  else .ok (evalThreads ccrh key ellOut party fullView cores scratch)

/-- `Bgi16::rangeEval<CORES>` into a buffer of `size` elements. -/
def rangeEval
    (ccrh : Block -> Block -> Block)
    (key : KeyType ellIn)
    (ellOut : Nat)
    (party : Evaluator)
    (cores size bg ed : Nat)
    (scratch : Nat -> Bool -> Nat -> Block) : Except EvalError (List ThreadOut) :=
  if bg ≥ 2 ^ ellIn then .error .bgOutOfRange
  else if ed ≥ 2 ^ ellIn then .error .edOutOfRange
  else if size ≠ rangeLen (2 ^ ellIn) bg ed then .error .bufferSize
  else .ok (evalThreads ccrh key ellOut party
    (rangeView (2 ^ ellIn) bg ed) cores scratch)

end Dpf
end Mpmt
