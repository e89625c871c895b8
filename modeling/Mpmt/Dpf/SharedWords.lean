import Mpmt.Dpf.EvalCorrect
import Mpmt.Library.Races
import Mpmt.Rvector.Vector

/-!
# The threads of an evaluation share the words of the output

`Rvector::set` stores a byte, but for `ELL = 1` it loads the word of 64
elements that holds the element, changes one bit and stores the word again.
Two threads that change one word can lose an element.  The threads of
`fullEval` begin at multiples of 64.  Those of `rangeEval` begin at such
multiples of the domain, and so at `bg` before them in the output.
-/

namespace Mpmt
namespace Dpf

open Races

/-! ## Setting an element -/

/-- `fdresBuf.set(index, value)`, behind its checks: what it does to the word
that holds the element. -/
def setChange (ellOut : Nat) (write : Write) : Change Nat Nat where
  cell := write.1 / Rvector.elemsPerWord ellOut
  value w :=
    if ellOut = 1 then
      if write.2.toNat &&& 1 = 1 then w ||| 2 ^ (write.1 % 64)
      else w &&& (2 ^ 64 - 1 ^^^ 2 ^ (write.1 % 64))
    else write.2.toNat

/-- The change is the one that `set` makes. -/
theorem set_eq_setChange
    {v : Rvector}
    {write : Write}
    (inside : write.1 < v.n)
    (accepted : Rvector.checkRing ellOut write.2 = .ok ()) :
    v.set ellOut write.1 write.2 =
      .ok (v.updateWord (setChange ellOut write).cell (setChange ellOut write).value) := by
  rw [Rvector.set, if_neg (by omega), accepted]
  by_cases one : ellOut = 1
  · subst one
    simp only [setChange, Rvector.elemsPerWord, if_true]
    split <;> rfl
  · simp only [setChange, Rvector.elemsPerWord, if_neg one, Nat.div_one]
    rfl

/-- A value without bits above the ring. -/
def Masked (ellOut : Nat) (value : UInt8) : Prop := value &&& RingMath.ringMask8 ellOut = value

theorem Masked.and_perByteMask (masked : Masked ellOut value) :
    value.toNat &&& Rvector.perByteMask ellOut = value.toNat := by
  rw [Rvector.perByteMask, ← UInt8.toNat_and, masked]

/-- `set` takes such a value. -/
theorem Masked.accepted (masked : Masked ellOut value) :
    Rvector.checkRing ellOut value = .ok () := by
  refine if_neg fun refused => ?_
  have within := Nat.and_le_right (n := value.toNat) (m := Rvector.perByteMask ellOut)
  rw [masked.and_perByteMask] at within
  omega

/-- The element at index `i`, in the word that holds it. -/
def elementOf (ell i w : Nat) : Nat :=
  if ell = 1 then w >>> (i % 64) &&& 1 else w &&& Rvector.perByteMask ell

theorem read_eq_elementOf (ell : Nat) (v : Rvector) (i : Nat) :
    v.read ell i = elementOf ell i (v.word (i / Rvector.elemsPerWord ell)) := by
  rw [Rvector.read, elementOf, Rvector.elemsPerWord]
  split
  · rfl
  · rw [Nat.div_one]

theorem elementOf_one (i w : Nat) : elementOf 1 i w = (w.testBit (i % 64)).toNat := by
  rw [elementOf, if_pos rfl, Nat.and_one_is_mod, Nat.shiftRight_eq_div_pow, Nat.toNat_testBit]

theorem elementOf_of_ne (several : ellOut ≠ 1) (i w : Nat) :
    elementOf ellOut i w = w &&& Rvector.perByteMask ellOut := if_neg several

/-- Changing one bit of a word. -/
theorem testBit_setChange_one
    {write : Write}
    (masked : Masked 1 write.2)
    {k : Nat}
    (inWord : k < 64)
    (w : Nat) :
    (((setChange 1 write).value w).testBit k).toNat =
      if write.1 % 64 = k then write.2.toNat else (w.testBit k).toNat := by
  have isBit : write.2.toNat < 2 ^ 1 := (Rvector.checkRing_eq_ok (by decide)).mp masked.accepted
  simp only [setChange, if_true, Nat.and_one_is_mod]
  split
  · next odd =>
      rw [Rvector.testBit_or_two_pow]
      by_cases here : k = write.1 % 64
      · rw [if_pos here, if_pos here.symm, Bool.toNat_true]
        omega
      · rw [if_neg here, if_neg (Ne.symm here)]
  · next even =>
      rw [Nat.testBit_and, Nat.testBit_xor, Nat.testBit_two_pow_sub_one, Nat.testBit_two_pow,
        decide_eq_true inWord]
      by_cases here : write.1 % 64 = k
      · rw [decide_eq_true here, if_pos here, Bool.xor_self, Bool.and_false, Bool.toNat_false]
        omega
      · rw [decide_eq_false here, if_neg here, Bool.xor_false, Bool.and_true]

/-- Setting an element gives it the value and spares the others of its word. -/
theorem elementOf_setChange
    {write : Write}
    (masked : Masked ellOut write.2)
    {i : Nat}
    (sameWord : (setChange ellOut write).cell = i / Rvector.elemsPerWord ellOut)
    (w : Nat) :
    elementOf ellOut i ((setChange ellOut write).value w) =
      if write.1 = i then write.2.toNat else elementOf ellOut i w := by
  by_cases one : ellOut = 1
  · subst one
    have sameWord' : write.1 / 64 = i / 64 := sameWord
    have sameBit : write.1 % 64 = i % 64 ↔ write.1 = i := by omega
    rw [elementOf_one, elementOf_one, testBit_setChange_one masked (Nat.mod_lt _ (by decide))]
    exact if_congr sameBit rfl rfl
  · have sameByte : write.1 = i := by
      simpa [setChange, Rvector.elemsPerWord, one] using sameWord
    rw [elementOf_of_ne one, if_pos sameByte, ← masked.and_perByteMask]
    simp only [setChange, if_neg one]

theorem masked_leafOutput
    (key : KeyType ellIn)
    (ellOut : Nat)
    (party : Evaluator)
    (state : Block) : Masked ellOut (key.leafOutput ellOut party state) := by
  rw [Masked, KeyType.leafOutput, UInt64.toUInt8_and, UInt8.toUInt8_toUInt64, UInt8.and_assoc,
    UInt8.and_self]

/-- The sets of one thread give every element the value that is set last. -/
theorem elementOf_settle
    {value : Nat -> UInt8}
    (writes : List Write)
    (values : ∀ write ∈ writes, write.2 = value write.1)
    (masked : ∀ write ∈ writes, Masked ellOut write.2)
    (i w : Nat) :
    elementOf ellOut i
        (Machine.settle (i / Rvector.elemsPerWord ellOut) (writes.map (setChange ellOut)) w) =
      if i ∈ writes.map Prod.fst then (value i).toNat else elementOf ellOut i w := by
  induction writes generalizing w with
  | nil => simp
  | cons write rest inductionHypothesis =>
      obtain ⟨isValue, values⟩ := List.forall_mem_cons.mp values
      obtain ⟨firstMasked, masked⟩ := List.forall_mem_cons.mp masked
      rw [List.map_cons, Machine.settle_cons, inductionHypothesis values masked, List.map_cons]
      by_cases again : i ∈ rest.map Prod.fst
      · rw [if_pos again, if_pos (List.mem_cons_of_mem _ again)]
      · rw [if_neg again]
        by_cases here : write.1 = i
        · have sameWord : (setChange ellOut write).cell = i / Rvector.elemsPerWord ellOut := by
            rw [← here]
            rfl
          rw [if_pos sameWord, elementOf_setChange firstMasked sameWord, if_pos here,
            if_pos (by simp [here]), isValue, here]
        · have outside : i ∉ write.1 :: rest.map Prod.fst := by
            rw [List.mem_cons, not_or]
            exact ⟨Ne.symm here, again⟩
          rw [if_neg outside]
          split
          · next sameWord => rw [elementOf_setChange firstMasked sameWord, if_neg here]
          · rfl

/-! ## Threads on one buffer -/

/-- The sets of thread `i`. -/
def threadSets (ellOut : Nat) (threads : List ThreadOut) (i : Nat) : List (Change Nat Nat) :=
  (threads[i]?.elim [] ThreadOut.writes).map (setChange ellOut)

/-- The threads of an evaluation, about to set the elements of the buffer. -/
def evalMachine (ellOut : Nat) (threads : List ThreadOut) (fdresBuf : Rvector) :
    Machine Nat Nat Nat :=
  .begin fdresBuf.word (threadSets ellOut threads)

/-- The buffer with the words that the threads left. -/
def bufferOf (fdresBuf : Rvector) (m : Machine Nat Nat Nat) : Rvector :=
  { fdresBuf with data := (List.range fdresBuf.data.length).map m.cells }

theorem get_bufferOf
    {v : Rvector}
    (canonical : v.Canonical ellOut)
    (m : Machine Nat Nat Nat)
    {k : Nat}
    (inside : k < v.n) :
    (bufferOf v m).get ellOut k =
      .ok (elementOf ellOut k (m.cells (k / Rvector.elemsPerWord ellOut))) := by
  have word : k / Rvector.elemsPerWord ellOut < v.data.length := by
    rw [canonical.size, Rvector.wordCount, Rvector.elemsPerWord]
    split <;> omega
  rw [Rvector.get, if_neg (by simpa [bufferOf] using inside), read_eq_elementOf, bufferOf,
    Rvector.word_map_range, if_pos word]

/-- The threads of an evaluation fill a buffer of `size` elements with `value`:
every position is set exactly once, with a value that `set` takes, and nothing
outside; whatever the buffer held and in whatever order the threads take their
steps, the buffer ends up with the values; and no stack outgrows its array. -/
structure Evaluates
    (ellOut : Nat)
    (threads : List ThreadOut)
    (size capacity : Nat)
    (value : Nat -> UInt8) : Prop where
  once : ((allWrites threads).map Prod.fst).Perm (List.range size)
  accepted : ∀ write ∈ allWrites threads, Rvector.checkRing ellOut write.2 = .ok ()
  buffer : ∀ fdresBuf : Rvector, fdresBuf.Canonical ellOut -> fdresBuf.n = size ->
    ∀ schedule, ((evalMachine ellOut threads fdresBuf).run schedule).Finished ->
      ∀ k < size,
        (bufferOf fdresBuf ((evalMachine ellOut threads fdresBuf).run schedule)).get ellOut k =
          .ok (value k).toNat
  stack : ∀ thread ∈ threads, thread.peak ≤ capacity

/-- No two threads set elements of one word. -/
def Apart (ellOut : Nat) (threads : List ThreadOut) : Prop :=
  ∀ i j, ∀ change ∈ threadSets ellOut threads i, ∀ change' ∈ threadSets ellOut threads j,
    change.cell = change'.cell -> i = j

section

variable {threads : List ThreadOut} {value : Nat -> UInt8}

theorem mem_threadSets
    {i : Nat}
    {change : Change Nat Nat} :
    change ∈ threadSets ellOut threads i ↔
      ∃ thread, threads[i]? = some thread ∧
        ∃ write ∈ thread.writes, setChange ellOut write = change := by
  rw [threadSets, List.mem_map]
  cases threads[i]? with
  | none => simp
  | some thread => simp

theorem threadSets_of_length_le
    {i : Nat}
    (outside : threads.length ≤ i) : threadSets ellOut threads i = [] := by
  rw [threadSets, List.getElem?_eq_none outside]
  rfl

theorem mem_allWrites
    {i : Nat}
    {thread : ThreadOut}
    {write : Write}
    (isThread : threads[i]? = some thread)
    (member : write ∈ thread.writes) : write ∈ allWrites threads :=
  List.mem_flatMap.mpr ⟨thread, List.mem_of_getElem? isThread, member⟩

/-- A position that is set once is set by one thread. -/
theorem thread_eq_of_once
    (once : ((allWrites threads).map Prod.fst).Nodup)
    {i j : Nat}
    {thread thread' : ThreadOut}
    (isThread : threads[i]? = some thread)
    (isThread' : threads[j]? = some thread')
    {write write' : Write}
    (member : write ∈ thread.writes)
    (member' : write' ∈ thread'.writes)
    (same : write.1 = write'.1) : i = j := by
  rw [allWrites, List.map_flatMap, List.nodup_flatMap, List.pairwise_iff_getElem] at once
  obtain ⟨inside, rfl⟩ := List.getElem?_eq_some_iff.mp isThread
  obtain ⟨inside', rfl⟩ := List.getElem?_eq_some_iff.mp isThread'
  have position := List.mem_map_of_mem (f := Prod.fst) member
  have position' := List.mem_map_of_mem (f := Prod.fst) member'
  rcases Nat.lt_trichotomy i j with less | equal | more
  · exact absurd (same ▸ position') (once.2 i j inside inside' less position)
  · exact equal
  · exact absurd (same ▸ position') fun again =>
      once.2 j i inside' inside more position' (same ▸ position)

/-- Elements of several bits have words of their own. -/
theorem apart_of_ne
    (several : ellOut ≠ 1)
    (once : ((allWrites threads).map Prod.fst).Nodup) : Apart ellOut threads := by
  intro i j change member change' member' sameWord
  obtain ⟨thread, isThread, write, wrote, rfl⟩ := mem_threadSets.mp member
  obtain ⟨thread', isThread', write', wrote', rfl⟩ := mem_threadSets.mp member'
  refine thread_eq_of_once once isThread isThread' wrote wrote' ?_
  simpa [setChange, Rvector.elemsPerWord, several] using sameWord

/-- Threads that set no elements of one word leave the values. -/
theorem Apart.get_bufferOf
    (apart : Apart ellOut threads)
    (once : ((allWrites threads).map Prod.fst).Perm (List.range size))
    (values : ∀ write ∈ allWrites threads, write.2 = value write.1)
    (masked : ∀ write ∈ allWrites threads, Masked ellOut write.2)
    {fdresBuf : Rvector}
    (canonical : fdresBuf.Canonical ellOut)
    (isSize : fdresBuf.n = size)
    {schedule : List Nat}
    (finished : ((evalMachine ellOut threads fdresBuf).run schedule).Finished)
    {k : Nat}
    (inside : k < size) :
    (bufferOf fdresBuf ((evalMachine ellOut threads fdresBuf).run schedule)).get ellOut k =
      .ok (value k).toNat := by
  have written : k ∈ (allWrites threads).map Prod.fst :=
    once.mem_iff.mpr (List.mem_range.mpr inside)
  obtain ⟨write, member, rfl⟩ := List.mem_map.mp written
  obtain ⟨thread, isMember, wrote⟩ := List.mem_flatMap.mp member
  obtain ⟨i, isThread⟩ := List.mem_iff_getElem?.mp isMember
  have alone : ∀ j, j ≠ i -> ∀ change ∈ threadSets ellOut threads j,
      change.cell ≠ write.1 / Rvector.elemsPerWord ellOut := by
    intro j different change set sameWord
    exact different (apart j i change set (setChange ellOut write)
      (mem_threadSets.mpr ⟨thread, isThread, write, wrote, rfl⟩) sameWord)
  rw [Dpf.get_bufferOf canonical _ (by omega)]
  rw [evalMachine, Machine.cells_of_alone alone finished, threadSets, isThread,
    Option.elim_some, elementOf_settle _
    (fun w inThread => values w (mem_allWrites isThread inThread))
    (fun w inThread => masked w (mem_allWrites isThread inThread)),
    if_pos (List.mem_map_of_mem wrote)]

/-- A bit vector that differs from a value at one element. -/
theorem exists_buffer_ne
    {k : Nat}
    (inside : k < size)
    (value : UInt8) :
    ∃ v : Rvector, v.Canonical 1 ∧ v.n = size ∧ v.read 1 k ≠ value.toNat := by
  have zero : (⟨size, List.replicate (Rvector.wordCount 1 size) 0⟩ : Rvector).Canonical 1 := by
    refine ⟨List.length_replicate, fun j => ?_, fun _ j _ => ?_⟩
    · rw [Rvector.word_replicate, ite_self]
      positivity
    · rw [Rvector.word_replicate, ite_self, Nat.zero_testBit]
  have other : ∀ bit : UInt8, bit.toNat < 2 ^ 1 -> bit.toNat ≠ value.toNat ->
      ∃ v : Rvector, v.Canonical 1 ∧ v.n = size ∧ v.read 1 k ≠ value.toNat := by
    intro bit inRing different
    obtain ⟨v, -, setTo⟩ := Rvector.set_eq_ok (by decide) zero inside inRing
    refine ⟨v, setTo.canonical, setTo.n, ?_⟩
    rw [setTo.read, if_pos rfl]
    exact different
  by_cases isZero : value.toNat = 0
  · exact other 1 (by decide) (by rw [isZero]; decide)
  · exact other 0 (by decide) (Ne.symm isZero)

/-- Two threads that set elements of one word can lose one of them. -/
theorem exists_lost_element
    (value : Nat -> UInt8)
    (once : ((allWrites threads).map Prod.fst).Perm (List.range size))
    (masked : ∀ write ∈ allWrites threads, Masked 1 write.2)
    {i j : Nat}
    (different : i ≠ j)
    {thread thread' : ThreadOut}
    (isThread : threads[i]? = some thread)
    (isThread' : threads[j]? = some thread')
    {write write' : Write}
    (wrote : write ∈ thread.writes)
    (wrote' : write' ∈ thread'.writes)
    (sameWord : (setChange 1 write).cell = (setChange 1 write').cell) :
    ∃ fdresBuf : Rvector, fdresBuf.Canonical 1 ∧ fdresBuf.n = size ∧
      ∃ schedule, ((evalMachine 1 threads fdresBuf).run schedule).Finished ∧
        (bufferOf fdresBuf ((evalMachine 1 threads fdresBuf).run schedule)).get 1 write'.1 ≠
          .ok (value write'.1).toNat := by
  have nodup : ((allWrites threads).map Prod.fst).Nodup := once.nodup_iff.mpr List.nodup_range
  have inside : write'.1 < size := by
    rw [← List.mem_range, ← once.mem_iff]
    exact List.mem_map_of_mem (mem_allWrites isThread' wrote')
  obtain ⟨fdresBuf, canonical, isSize, differs⟩ := exists_buffer_ne inside (value write'.1)
  have spares : ∀ k, k ≠ j -> ∀ change ∈ threadSets 1 threads k,
      change.cell = (setChange 1 write).cell ->
        ∀ w, elementOf 1 write'.1 (change.value w) = elementOf 1 write'.1 w := by
    intro k others change member shared w
    obtain ⟨thread₂, isThread₂, write₂, wrote₂, rfl⟩ := mem_threadSets.mp member
    have elsewhere : write₂.1 ≠ write'.1 := fun same =>
      others (thread_eq_of_once nodup isThread₂ isThread' wrote₂ wrote' same)
    rw [elementOf_setChange (masked _ (mem_allWrites isThread₂ wrote₂)) (shared.trans sameWord),
      if_neg elsewhere]
  obtain ⟨schedule, finished, kept⟩ := Machine.exists_lost fdresBuf.word (threadSets 1 threads)
    (List.range threads.length)
    (fun k outside => threadSets_of_length_le (by simpa using outside)) different
    (mem_threadSets.mpr ⟨thread, isThread, write, wrote, rfl⟩) spares
  refine ⟨fdresBuf, canonical, isSize, schedule, finished, ?_⟩
  rw [Dpf.get_bufferOf canonical _ (by omega)]
  rw [sameWord] at kept
  intro same
  refine differs ?_
  rw [read_eq_elementOf]
  exact kept.symm.trans (Except.ok.inj same)

/-- An evaluation is right exactly if no two of its threads set elements of one
word. -/
theorem evaluates_iff_apart
    (once : ((allWrites threads).map Prod.fst).Perm (List.range size))
    (values : ∀ write ∈ allWrites threads, write.2 = value write.1)
    (masked : ∀ write ∈ allWrites threads, Masked ellOut write.2)
    (stack : ∀ thread ∈ threads, thread.peak ≤ capacity) :
    Evaluates ellOut threads size capacity value ↔ Apart ellOut threads := by
  constructor
  · intro evaluates i j change member change' member' sameWord
    by_contra different
    by_cases one : ellOut = 1
    · subst one
      obtain ⟨thread, isThread, write, wrote, rfl⟩ := mem_threadSets.mp member
      obtain ⟨thread', isThread', write', wrote', rfl⟩ := mem_threadSets.mp member'
      obtain ⟨fdresBuf, canonical, isSize, schedule, finished, lost⟩ :=
        exists_lost_element value once masked different isThread isThread' wrote wrote' sameWord
      have inside : write'.1 < size := by
        rw [← List.mem_range, ← once.mem_iff]
        exact List.mem_map_of_mem (mem_allWrites isThread' wrote')
      exact lost (evaluates.buffer fdresBuf canonical isSize schedule finished _ inside)
    · exact different (apart_of_ne one (once.nodup_iff.mpr List.nodup_range) i j change member
        change' member' sameWord)
  · intro apart
    exact ⟨once, fun write member => (masked write member).accepted,
      fun fdresBuf canonical isSize schedule finished k inside =>
        apart.get_bufferOf once values masked canonical isSize finished inside,
      stack⟩

/-! ## Bytes -/

theorem blind_setChange (several : ellOut ≠ 1) (write : Write) :
    (setChange ellOut write).Blind := by
  intro w w'
  simp only [setChange, if_neg several]

theorem flatMap_threadSets (ellOut : Nat) (threads : List ThreadOut) :
    (List.range threads.length).flatMap (threadSets ellOut threads) =
      (allWrites threads).map (setChange ellOut) := by
  induction threads with
  | nil => rfl
  | cons thread rest inductionHypothesis =>
      rw [List.length_cons, List.range_succ_eq_map, List.flatMap_cons, List.flatMap_map, allWrites,
        List.flatMap_cons, List.map_append]
      exact congrArg₂ _ rfl inductionHypothesis

theorem foldl_setChange
    (several : ellOut ≠ 1)
    (order : List Write)
    {cells : Nat -> Nat}
    {initial : Nat -> UInt8}
    (same : ∀ k, (initial k).toNat = cells k)
    (k : Nat) :
    (applyWrites order initial k).toNat =
      (order.map (setChange ellOut)).foldl (fun cells change => change.apply cells) cells k := by
  induction order generalizing cells initial with
  | nil => exact same k
  | cons write rest inductionHypothesis =>
      refine inductionHypothesis fun j => ?_
      simp only [Change.apply, setChange, if_neg several, Rvector.elemsPerWord, Nat.div_one]
      by_cases here : j = write.1
      · subst here
        rw [Function.update_self, Function.update_self]
      · rw [Function.update_of_ne here, Function.update_of_ne here, same]

/-- For elements of several bits the words are the elements, and the stores of
all threads take effect in some order. -/
theorem exists_applyWrites
    (several : ellOut ≠ 1)
    (fdresBuf : Rvector)
    {schedule : List Nat}
    (finished : ((evalMachine ellOut threads fdresBuf).run schedule).Finished) :
    ∃ order : List Write, order.Perm (allWrites threads) ∧
      ∀ initial : Nat -> UInt8, (∀ k, (initial k).toNat = fdresBuf.word k) ->
        ∀ k, (applyWrites order initial k).toNat =
          ((evalMachine ellOut threads fdresBuf).run schedule).cells k := by
  have blind : ∀ i, ∀ change ∈ threadSets ellOut threads i, change.Blind := by
    intro i change member
    obtain ⟨_, _, write, _, rfl⟩ := mem_threadSets.mp member
    exact blind_setChange several write
  obtain ⟨changes, perm, cells⟩ := Machine.exists_order
    (m := evalMachine ellOut threads fdresBuf) (List.nodup_range (n := threads.length))
    (fun i outside => threadSets_of_length_le (by simpa using outside)) blind finished
  have isMap : (evalMachine ellOut threads fdresBuf).todo = threadSets ellOut threads := rfl
  rw [isMap, flatMap_threadSets] at perm
  obtain ⟨order, rfl, isPerm⟩ :
      ∃ order : List Write,
        changes = order.map (setChange ellOut) ∧ order.Perm (allWrites threads) := by
    have composed := congrFun (congrFun (List.eq_map_comp_perm (setChange ellOut)) changes)
      (allWrites threads)
    exact composed.mpr perm
  refine ⟨order, isPerm, fun initial same k => ?_⟩
  rw [cells]
  exact foldl_setChange several order same k

end

/-! ## The leaves of a thread -/

/-- The leaves below the tasks of one thread. -/
def leavesPerThread (ellIn cores : Nat) : Nat :=
  (2 ^ splitCoff ellIn cores + cores - 1) / cores * 2 ^ (ellIn - splitCoff ellIn cores)

theorem leavesPerThread_pos (coresPositive : 1 ≤ cores) (ellIn : Nat) :
    0 < leavesPerThread ellIn cores := by
  have tasks : 0 < 2 ^ splitCoff ellIn cores := by positivity
  exact Nat.mul_pos (Nat.div_pos (by omega) coresPositive) (by positivity)

/-- One thread has all the leaves, or every thread begins at a multiple of 64. -/
theorem leavesPerThread_cases (coresPositive : 1 ≤ cores) (ellIn : Nat) :
    2 ^ ellIn ≤ leavesPerThread ellIn cores ∨
      64 ∣ leavesPerThread ellIn cores ∧ 64 ∣ 2 ^ ellIn := by
  have splitLe := splitCoff_le ellIn cores
  rw [leavesPerThread]
  rcases Nat.eq_zero_or_pos (splitCoff ellIn cores) with unsplit | split
  · left
    rw [unsplit, Nat.sub_zero, Nat.pow_zero, Nat.add_sub_cancel_left, Nat.div_self coresPositive,
      Nat.one_mul]
  · right
    have deep : 8 ≤ ellIn - splitCoff ellIn cores := by
      rw [LOCAL_BFS_D] at splitLe
      split at splitLe <;> omega
    have divides : 64 ∣ 2 ^ (ellIn - splitCoff ellIn cores) :=
      Nat.pow_dvd_pow (m := 6) 2 (by omega)
    exact ⟨divides.mul_left _, Nat.pow_dvd_pow (m := 6) 2 (by omega)⟩

theorem getElem?_threadRanges (tasksPerThread totalTasks cores i k : Nat) :
    (threadRanges tasksPerThread totalTasks cores i)[k]? =
      if i + k < cores ∧ (i + k) * tasksPerThread < totalTasks then
        some ((i + k) * tasksPerThread,
          min ((i + k) * tasksPerThread + tasksPerThread) totalTasks)
      else none := by
  fun_induction threadRanges tasksPerThread totalTasks cores i generalizing k with
  | case1 i started startTask outside =>
      have later : i * tasksPerThread ≤ (i + k) * tasksPerThread :=
        Nat.mul_le_mul_right _ (by omega)
      rw [if_neg (by omega)]
      rfl
  | case2 i started startTask inside inductionHypothesis =>
      cases k with
      | zero =>
          simp only [Nat.add_zero]
          rw [if_pos ⟨started, Nat.lt_of_not_le inside⟩]
          rfl
      | succ k =>
          rw [List.getElem?_cons_succ, inductionHypothesis, Nat.add_right_comm, Nat.add_assoc]
  | case3 i finished =>
      rw [if_neg (by omega)]
      rfl

/-- The leaves below the tasks of thread `i`. -/
theorem leaf_of_thread
    {tasksPerThread totalTasks leaves point i : Nat}
    (positive : 0 < tasksPerThread * leaves)
    (inside : i * tasksPerThread < totalTasks) :
    i * tasksPerThread * leaves ≤ point ∧
        point < i * tasksPerThread * leaves +
          (min (i * tasksPerThread + tasksPerThread) totalTasks - i * tasksPerThread) * leaves ↔
      point < totalTasks * leaves ∧ point / (tasksPerThread * leaves) = i := by
  have start : i * tasksPerThread ≤ min (i * tasksPerThread + tasksPerThread) totalTasks :=
    Nat.le_min.mpr ⟨Nat.le_add_right _ _, Nat.le_of_lt inside⟩
  rw [← Nat.add_mul, Nat.add_sub_cancel' start, ← Nat.mul_min_mul_right, Nat.lt_min, Nat.add_mul,
    Nat.div_eq_iff positive, Nat.mul_assoc]
  omega

section

variable (ccrh : Block -> Block -> Block)
variable (key : KeyType ellIn)
variable (ellOut : Nat) (party : Evaluator)
variable {view : View}

theorem mem_naiveWrites
    {write : Write}
    {start count : Nat} :
    write ∈ naiveWrites ccrh key ellOut party view start count ↔
      ∃ point, start ≤ point ∧ point < start + count ∧ view.skipLeaf point = false ∧
        (view.offset point, key.evalPoint ccrh ellOut party point) = write := by
  rw [naiveWrites, List.mem_filterMap]
  constructor
  · rintro ⟨point, member, isWrite⟩
    rw [List.mem_range'_1] at member
    by_cases skipped : view.skipLeaf point = true
    · rw [if_pos skipped] at isWrite
      cases isWrite
    · rw [if_neg skipped] at isWrite
      exact ⟨point, member.1, member.2, Bool.eq_false_of_not_eq_true skipped,
        Option.some.inj isWrite⟩
  · rintro ⟨point, first, last, visited, rfl⟩
    refine ⟨point, List.mem_range'_1.mpr ⟨first, last⟩, ?_⟩
    rw [if_neg (by simp [visited])]

/-- A thread sets the elements of the visited leaves below its tasks. -/
theorem mem_threadSets_evalThreads
    (sound : view.Sound)
    (coresPositive : 1 ≤ cores)
    (scratch : Nat -> Bool -> Nat -> Block)
    {i : Nat}
    {change : Change Nat Nat} :
    change ∈ threadSets ellOut (evalThreads ccrh key ellOut party view cores scratch) i ↔
      ∃ point < 2 ^ ellIn, point / leavesPerThread ellIn cores = i ∧
        view.skipLeaf point = false ∧
        setChange ellOut (view.offset point, key.evalPoint ccrh ellOut party point) = change := by
  have splitLe := splitCoff_le ellIn cores
  have whole : 2 ^ splitCoff ellIn cores * 2 ^ (ellIn - splitCoff ellIn cores) = 2 ^ ellIn := by
    rw [← Nat.pow_add]
    congr 1
    omega
  have enough := totalTasks_le coresPositive (2 ^ splitCoff ellIn cores)
  have positive := leavesPerThread_pos coresPositive ellIn
  rw [leavesPerThread] at positive ⊢
  rw [mem_threadSets, evalThreads]
  generalize isTasks : (2 ^ splitCoff ellIn cores + cores - 1) / cores = tasksPerThread at *
  constructor
  · rintro ⟨thread, isThread, write, wrote, rfl⟩
    rw [List.getElem?_map, Option.map_eq_some_iff] at isThread
    obtain ⟨range, isRange, rfl⟩ := isThread
    rw [evalThread_writes_range ccrh key ellOut party view sound scratch
      (List.mem_of_getElem? isRange)] at wrote
    rw [getElem?_threadRanges, Nat.zero_add] at isRange
    obtain ⟨⟨_, inside⟩, isRange⟩ := Option.ite_none_right_eq_some.mp isRange
    obtain rfl := Option.some.inj isRange
    obtain ⟨point, first, last, visited, rfl⟩ := (mem_naiveWrites ..).mp wrote
    obtain ⟨pointLt, isIndex⟩ := (leaf_of_thread positive inside).mp ⟨first, last⟩
    exact ⟨point, whole ▸ pointLt, isIndex, visited, rfl⟩
  · rintro ⟨point, pointLt, isIndex, visited, rfl⟩
    have first : i * tasksPerThread * 2 ^ (ellIn - splitCoff ellIn cores) ≤ point := by
      rw [← isIndex, Nat.mul_assoc]
      exact Nat.div_mul_le_self _ _
    have inside : i * tasksPerThread < 2 ^ splitCoff ellIn cores :=
      Nat.lt_of_mul_lt_mul_right (Nat.lt_of_le_of_lt first (whole.symm ▸ pointLt))
    have started : i < cores := by
      by_contra late
      have behind : cores * tasksPerThread ≤ i * tasksPerThread :=
        Nat.mul_le_mul_right _ (by omega)
      omega
    obtain ⟨_, last⟩ :=
      (leaf_of_thread positive inside).mpr ⟨whole.symm ▸ pointLt, isIndex⟩
    have isRange : (threadRanges tasksPerThread (2 ^ splitCoff ellIn cores) cores 0)[i]? = _ :=
      (getElem?_threadRanges ..).trans
        (if_pos (by rw [Nat.zero_add]; exact ⟨started, inside⟩))
    rw [Nat.zero_add] at isRange
    refine ⟨_, by rw [List.getElem?_map, isRange]; rfl, _, ?_, rfl⟩
    rw [evalThread_writes_range ccrh key ellOut party view sound scratch
      (List.mem_of_getElem? isRange)]
    exact (mem_naiveWrites ..).mpr ⟨point, first, last, visited, rfl⟩

/-- Threads of bit elements are apart if leaves that go to one word are leaves
of one thread. -/
theorem apart_evalThreads_iff
    (sound : view.Sound)
    (coresPositive : 1 ≤ cores)
    (scratch : Nat -> Bool -> Nat -> Block) :
    Apart 1 (evalThreads ccrh key 1 party view cores scratch) ↔
      ∀ p < 2 ^ ellIn, ∀ q < 2 ^ ellIn, view.skipLeaf p = false -> view.skipLeaf q = false ->
        view.offset p / 64 = view.offset q / 64 ->
          p / leavesPerThread ellIn cores = q / leavesPerThread ellIn cores := by
  constructor
  · intro apart p pLt q qLt visited visited' sameWord
    exact apart _ _ _ ((mem_threadSets_evalThreads ccrh key 1 party sound coresPositive
      scratch).mpr ⟨p, pLt, rfl, visited, rfl⟩) _ ((mem_threadSets_evalThreads ccrh key 1 party
        sound coresPositive scratch).mpr ⟨q, qLt, rfl, visited', rfl⟩) sameWord
  · intro leaves i j change member change' member' sameWord
    rw [mem_threadSets_evalThreads ccrh key 1 party sound coresPositive scratch] at member member'
    obtain ⟨p, pLt, rfl, visited, rfl⟩ := member
    obtain ⟨q, qLt, rfl, visited', rfl⟩ := member'
    exact leaves p pLt q qLt visited visited' sameWord

end

/-! ## Where the threads begin in the output -/

/-- Points of one word lie below one thread if its leaves begin at a multiple
of 64. -/
theorem div_eq_of_dvd
    {leaves p q : Nat}
    (aligned : 64 ∣ leaves)
    (sameWord : p / 64 = q / 64) : p / leaves = q / leaves := by
  obtain ⟨words, rfl⟩ := aligned
  rw [← Nat.div_div_eq_div_mul, ← Nat.div_div_eq_div_mul, sameWord]

/-- The leaves of `[bg, ed]` that go to one word of the output are leaves of one
thread. -/
def OwnWords (ellIn ellOut cores bg ed : Nat) : Prop :=
  ellOut ≠ 1 ∨ bg % 64 = 0 ∨ 2 ^ ellIn ≤ leavesPerThread ellIn cores ∨
    bg ≤ ed ∧ bg / leavesPerThread ellIn cores = ed / leavesPerThread ellIn cores

instance (ellIn ellOut cores bg ed : Nat) : Decidable (OwnWords ellIn ellOut cores bg ed) :=
  inferInstanceAs (Decidable (_ ∨ _))

section

variable {vecLen leaves bg ed : Nat}

/-- Leaves of a range, in one word of the output. -/
def SameWord (vecLen bg ed p q : Nat) : Prop :=
  p < vecLen ∧ q < vecLen ∧ (rangeView vecLen bg ed).skipLeaf p = false ∧
    (rangeView vecLen bg ed).skipLeaf q = false ∧
    (rangeView vecLen bg ed).offset p / 64 = (rangeView vecLen bg ed).offset q / 64

theorem sameWord_iff_of_le
    (ordered : bg ≤ ed)
    {p q : Nat} :
    SameWord vecLen bg ed p q ↔
      p < vecLen ∧ q < vecLen ∧ (bg ≤ p ∧ p ≤ ed) ∧ (bg ≤ q ∧ q ≤ ed) ∧
        (p - bg) / 64 = (q - bg) / 64 := by
  have linear : ¬ ed < bg := by omega
  simp [SameWord, rangeView, linear]

theorem sameWord_iff_of_lt
    (circular : ed < bg)
    {p q : Nat} :
    SameWord vecLen bg ed p q ↔
      p < vecLen ∧ q < vecLen ∧ (ed < p -> bg ≤ p) ∧ (ed < q -> bg ≤ q) ∧
        (if bg ≤ p then p - bg else vecLen - bg + p) / 64 =
          (if bg ≤ q then q - bg else vecLen - bg + q) / 64 := by
  simp [SameWord, rangeView, circular]

/-- Where the output begins at a multiple of 64, so do its words in the
domain. -/
theorem SameWord.div_eq
    (same : SameWord vecLen bg ed p q)
    (aligned : bg % 64 = 0)
    (whole : 64 ∣ vecLen)
    (bgLt : bg < vecLen) : p / 64 = q / 64 := by
  rcases Nat.lt_or_ge ed bg with circular | ordered
  · obtain ⟨pLt, qLt, inP, inQ, word⟩ := (sameWord_iff_of_lt circular).mp same
    split at word <;> split at word <;> omega
  · obtain ⟨pLt, qLt, inP, inQ, word⟩ := (sameWord_iff_of_le ordered).mp same
    omega

/-- Two threads meet in a word otherwise, unless one has the whole range. -/
theorem exists_sameWord
    (bgLt : bg < vecLen)
    (edLt : ed < vecLen)
    (positive : 0 < leaves)
    (aligned : 64 ∣ leaves)
    (whole : 64 ∣ vecLen)
    (shifted : bg % 64 ≠ 0)
    (several : leaves < vecLen)
    (apart : ¬ (bg ≤ ed ∧ bg / leaves = ed / leaves)) :
    ∃ p q, SameWord vecLen bg ed p q ∧ p / leaves ≠ q / leaves := by
  rcases Nat.lt_or_ge ed bg with circular | ordered
  · -- the last leaf of the domain and the first, at the seam of a circular range
    refine ⟨vecLen - 1, 0, (sameWord_iff_of_lt circular).mpr ?_, ?_⟩
    · rw [if_pos (by omega), if_neg (by omega)]
      omega
    · have last : 1 ≤ (vecLen - 1) / leaves := (Nat.le_div_iff_mul_le positive).mpr (by omega)
      rw [Nat.zero_div]
      omega
  · -- the last leaf of the first thread and the first one of the next
    have first := Nat.div_add_mod bg leaves
    have firstLt := Nat.mod_lt bg positive
    have less : bg / leaves < ed / leaves :=
      Nat.lt_of_le_of_ne (Nat.div_le_div_right ordered) fun equal => apart ⟨ordered, equal⟩
    have start : leaves * (bg / leaves + 1) ≤ ed :=
      (Nat.mul_le_mul_left leaves less).trans (Nat.mul_div_le ed leaves)
    have startWord : 64 ∣ leaves * (bg / leaves + 1) := aligned.mul_right _
    rw [Nat.mul_succ] at start startWord
    generalize isStart : leaves * (bg / leaves) = before at *
    refine ⟨before + leaves - 1, before + leaves, (sameWord_iff_of_le ordered).mpr ?_, ?_⟩
    · omega
    · have thread : (before + leaves) / leaves = bg / leaves + 1 := by
        rw [← isStart, Nat.add_div_right _ positive, Nat.mul_div_cancel_left _ positive]
      have thread' : (before + leaves - 1) / leaves = bg / leaves := by
        refine Nat.div_eq_of_lt_le ?_ ?_
        · rw [Nat.mul_comm, isStart]
          omega
        · rw [Nat.mul_comm, Nat.mul_succ, isStart]
          omega
      omega

theorem ownWords_one_iff
    (coresPositive : 1 ≤ cores)
    (bgLt : bg < 2 ^ ellIn)
    (edLt : ed < 2 ^ ellIn) :
    OwnWords ellIn 1 cores bg ed ↔
      ∀ p q, SameWord (2 ^ ellIn) bg ed p q ->
        p / leavesPerThread ellIn cores = q / leavesPerThread ellIn cores := by
  have positive := leavesPerThread_pos coresPositive ellIn
  have cases := leavesPerThread_cases coresPositive ellIn
  rw [OwnWords]
  generalize leavesPerThread ellIn cores = leaves at *
  constructor
  · intro own p q same
    have pLt : p < 2 ^ ellIn := same.1
    have qLt : q < 2 ^ ellIn := same.2.1
    by_cases one : 2 ^ ellIn ≤ leaves
    · rw [Nat.div_eq_of_lt (by omega), Nat.div_eq_of_lt (by omega)]
    · obtain ⟨aligned, whole⟩ := cases.resolve_left one
      rcases own with several | atWord | oneThread | ⟨ordered, oneThread⟩
      · exact absurd rfl several
      · exact div_eq_of_dvd aligned (same.div_eq atWord whole bgLt)
      · exact absurd oneThread one
      · obtain ⟨-, -, ⟨low, high⟩, ⟨low', high'⟩, -⟩ := (sameWord_iff_of_le ordered).mp same
        have above := Nat.div_le_div_right (c := leaves) low
        have below := Nat.div_le_div_right (c := leaves) high
        have above' := Nat.div_le_div_right (c := leaves) low'
        have below' := Nat.div_le_div_right (c := leaves) high'
        omega
  · intro apart
    by_contra shared
    rw [not_or, not_or, not_or] at shared
    obtain ⟨-, shifted, several, threads⟩ := shared
    obtain ⟨aligned, whole⟩ := cases.resolve_left several
    obtain ⟨p, q, same, different⟩ := exists_sameWord bgLt edLt positive aligned whole shifted
      (by omega) threads
    exact different (apart p q same)

end

/-! ## The two evaluators -/

section

variable (ccrh : Block -> Block -> Block)
variable (key : KeyType ellIn)
variable (ellOut : Nat) (party : Evaluator)

theorem masked_evalThreads
    {view : View}
    (sound : view.Sound)
    (coresPositive : 1 ≤ cores)
    (scratch : Nat -> Bool -> Nat -> Block) :
    ∀ write ∈ allWrites (evalThreads ccrh key ellOut party view cores scratch),
      Masked ellOut write.2 := by
  intro write member
  rw [allWrites_evalThreads ccrh key ellOut party view sound coresPositive scratch,
    mem_naiveWrites] at member
  obtain ⟨point, -, -, -, rfl⟩ := member
  exact masked_leafOutput key ellOut party _

/-- `fullEval` leaves the naive values, whatever its threads do. -/
theorem fullEval_evaluates
    (coresPositive : 1 ≤ cores)
    (scratch : Nat -> Bool -> Nat -> Block) :
    ∃ threads,
      fullEval ccrh key ellOut party cores (2 ^ ellIn) scratch = .ok threads ∧
        Evaluates ellOut threads (2 ^ ellIn) (stackCapacity ellIn)
          (key.evalPoint ccrh ellOut party) := by
  have writes := allWrites_evalThreads ccrh key ellOut party fullView fullView_sound
    coresPositive scratch
  rw [fullView_naiveWrites] at writes
  have once : ((allWrites (evalThreads ccrh key ellOut party fullView cores scratch)).map
      Prod.fst).Perm (List.range (2 ^ ellIn)) := by
    rw [writes, List.map_map]
    exact List.Perm.of_eq (List.map_id _)
  refine ⟨_, if_neg (by simp), (evaluates_iff_apart once ?_ (masked_evalThreads ccrh key ellOut
    party fullView_sound coresPositive scratch)
    (evalThreads_peak_le ccrh key ellOut party fullView cores scratch)).mpr ?_⟩
  · intro write member
    rw [writes, List.mem_map] at member
    obtain ⟨point, _, rfl⟩ := member
    rfl
  · by_cases one : ellOut = 1
    · subst one
      rw [apart_evalThreads_iff ccrh key party fullView_sound coresPositive scratch]
      intro p pLt q qLt _ _ sameWord
      rcases leavesPerThread_cases coresPositive ellIn with oneThread | ⟨aligned, _⟩
      · rw [Nat.div_eq_of_lt (by omega), Nat.div_eq_of_lt (by omega)]
      · exact div_eq_of_dvd aligned sameWord
    · exact apart_of_ne one (once.nodup_iff.mpr List.nodup_range)

/-- `rangeEval` leaves the naive values exactly if every word of the output
belongs to one thread. -/
theorem rangeEval_evaluates_iff
    (coresPositive : 1 ≤ cores)
    (scratch : Nat -> Bool -> Nat -> Block)
    (bgLt : bg < 2 ^ ellIn)
    (edLt : ed < 2 ^ ellIn) :
    (∃ threads,
      rangeEval ccrh key ellOut party cores (rangeLen (2 ^ ellIn) bg ed) bg ed scratch =
        .ok threads ∧
      Evaluates ellOut threads (rangeLen (2 ^ ellIn) bg ed) (stackCapacity ellIn)
        fun k => key.evalPoint ccrh ellOut party ((bg + k) % 2 ^ ellIn)) ↔
      OwnWords ellIn ellOut cores bg ed := by
  have writes := allWrites_evalThreads ccrh key ellOut party (rangeView (2 ^ ellIn) bg ed)
    (rangeView_sound _ _ _) coresPositive scratch
  have returns : rangeEval ccrh key ellOut party cores (rangeLen (2 ^ ellIn) bg ed) bg ed scratch =
      .ok (evalThreads ccrh key ellOut party (rangeView (2 ^ ellIn) bg ed) cores scratch) := by
    rw [rangeEval, if_neg (by omega), if_neg (by omega), if_neg (by simp)]
  have once : ((allWrites (evalThreads ccrh key ellOut party (rangeView (2 ^ ellIn) bg ed) cores
      scratch)).map Prod.fst).Perm (List.range (rangeLen (2 ^ ellIn) bg ed)) := by
    rw [writes]
    exact rangeView_offsets_perm ccrh key ellOut party bgLt edLt
  rw [returns]
  simp only [Except.ok.injEq, exists_eq_left']
  rw [evaluates_iff_apart once ?_ (masked_evalThreads ccrh key ellOut party
    (rangeView_sound _ _ _) coresPositive scratch) (evalThreads_peak_le ccrh key ellOut party
      (rangeView (2 ^ ellIn) bg ed) cores scratch)]
  · by_cases one : ellOut = 1
    · subst one
      rw [apart_evalThreads_iff ccrh key party (rangeView_sound _ _ _) coresPositive scratch,
        ownWords_one_iff coresPositive bgLt edLt]
      constructor
      · intro apart p q same
        exact apart p same.1 q same.2.1 same.2.2.1 same.2.2.2.1 same.2.2.2.2
      · intro apart p pLt q qLt visited visited' sameWord
        exact apart p q ⟨pLt, qLt, visited, visited', sameWord⟩
    · exact ⟨fun _ => .inl one, fun _ => apart_of_ne one (once.nodup_iff.mpr List.nodup_range)⟩
  · intro write member
    rw [writes] at member
    exact rangeView_values ccrh key ellOut party bgLt edLt member

end

/-- The evaluators agree with the naive walk for every key, party and number of
threads: `fullEval` always, `rangeEval` exactly if no two of its threads share a
word of bit elements. -/
theorem eval_eq_naive_iff
    (ccrh : Block -> Block -> Block)
    (ellIn ellOut cores : Nat)
    (coresPositive : 1 ≤ cores)
    (key : KeyType ellIn)
    (party : Evaluator)
    (scratch : Nat -> Bool -> Nat -> Block) :
    (∃ threads,
      fullEval ccrh key ellOut party cores (2 ^ ellIn) scratch = .ok threads ∧
        Evaluates ellOut threads (2 ^ ellIn) (stackCapacity ellIn)
          (key.evalPoint ccrh ellOut party)) ∧
    ∀ bg ed, bg < 2 ^ ellIn -> ed < 2 ^ ellIn ->
      ((∃ threads,
        rangeEval ccrh key ellOut party cores (rangeLen (2 ^ ellIn) bg ed) bg ed scratch =
          .ok threads ∧
        Evaluates ellOut threads (rangeLen (2 ^ ellIn) bg ed) (stackCapacity ellIn)
          fun k => key.evalPoint ccrh ellOut party ((bg + k) % 2 ^ ellIn)) ↔
        OwnWords ellIn ellOut cores bg ed) :=
  ⟨fullEval_evaluates ccrh key ellOut party coresPositive scratch, fun _ _ bgLt edLt =>
    rangeEval_evaluates_iff ccrh key ellOut party coresPositive scratch bgLt edLt⟩

/-- A key over a nine-bit domain. -/
def nineBitKey : KeyType 9 where
  stOrigin := 7#128
  cws _ _ := 3#128
  cwLast := 1
  keyL _ := 1
  keyR _ := 2

/-- Two threads evaluate all of the domain, and a part of it that begins at a
word of the output. -/
theorem eval_eq_naive_nine_bits :
    (∃ threads,
      fullEval (fun key state => key + state) nineBitKey 1 .EVALUATOR_1 2 512
          (fun _ _ _ => 0) = .ok threads ∧
        Evaluates 1 threads 512 3 (nineBitKey.evalPoint (fun key state => key + state) 1
          .EVALUATOR_1)) ∧
    ∃ threads,
      rangeEval (fun key state => key + state) nineBitKey 1 .EVALUATOR_1 2 448 64 511
          (fun _ _ _ => 0) = .ok threads ∧
        Evaluates 1 threads 448 3 fun k => nineBitKey.evalPoint (fun key state => key + state) 1
          .EVALUATOR_1 ((64 + k) % 512) :=
  have both := eval_eq_naive_iff (fun key state => key + state) 9 1 2 (by decide) nineBitKey
    .EVALUATOR_1 fun _ _ _ => 0
  ⟨both.1, (both.2 64 511 (by decide) (by decide)).mpr (by decide)⟩

/-- Two threads on `[1, 511]` share the word of the output that holds the last
leaf of the first thread, and an element of it can be lost. -/
theorem rangeEval_loses_element :
    ¬ ∃ threads,
      rangeEval (fun key state => key + state) nineBitKey 1 .EVALUATOR_1 2 511 1 511
          (fun _ _ _ => 0) = .ok threads ∧
        Evaluates 1 threads 511 3 fun k => nineBitKey.evalPoint (fun key state => key + state) 1
          .EVALUATOR_1 ((1 + k) % 512) :=
  fun right => absurd ((rangeEval_evaluates_iff (fun key state => key + state) nineBitKey 1
    .EVALUATOR_1 (by decide) (fun _ _ _ => 0) (by decide) (by decide)).mp right) (by decide)

end Dpf
end Mpmt
