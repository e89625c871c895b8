import Mpmt.Rep3.Crng

/-!
# Every bit of the pseudorandom stream is used once

The blocks a key produces, in the order of the counter, form one long stream
of bits.  A sequence of `crng` calls reads it from left to right: every output
element comes from an interval of the stream, and the interval of a later
element starts where the earlier ones have ended.
-/

namespace Mpmt
namespace Rep3

open RingMath
open Dpf (Block Bytes16 blockBytes)

/-! ## Calls -/

/-- A call of `crng<ELL_V>()`, or of `crng<ELL_V>(oVec)` on `n` elements. -/
inductive CrngCall
  | scalar (ell : Nat)
  | vector (ell n : Nat)
  deriving DecidableEq, Repr

namespace CrngCall

/-- `ELL_V`. -/
def ell : CrngCall -> Nat
  | scalar ell => ell
  | vector ell _ => ell

/-- Number of elements a call returns. -/
def length : CrngCall -> Nat
  | scalar _ => 1
  | vector _ n => n

/-- What a call returns, and the state it leaves. -/
def draw
    (ccrh : Block -> Block -> Block)
    (s : CrngState) : (call : CrngCall) -> (Fin call.length -> UInt8) × CrngState
  | scalar ell => (fun _ => (crng ccrh ell s).1, (crng ccrh ell s).2)
  | vector ell n => crngVector ccrh ell n s

/-- Number of blocks a call draws from each key. -/
def blocks (s : CrngState) : CrngCall -> Nat
  | scalar ell =>
      if s.crngPtr ≥ BLOCK_CAPACITY * 8 || s.crngIsXor != (ell == 1) then 1
      else 0
  | vector ell n =>
      if ell = 1 then 4 * (((n + 63) / 64 + 7) / 8) else 4 * ((n + 63) / 64)

end CrngCall

section

variable (ccrh : Block -> Block -> Block)

/-- The state after a sequence of calls. -/
def drawAll (s : CrngState) (calls : List CrngCall) : CrngState :=
  calls.foldl (fun s call => (call.draw ccrh s).2) s

/-- Number of blocks a sequence of calls draws from each key. -/
def consumed (s : CrngState) : List CrngCall -> Nat
  | [] => 0
  | call :: calls => call.blocks s + consumed (call.draw ccrh s).2 calls

/-- An element of the output of a sequence of calls: the call, and the
position in what it returns. -/
abbrev Position (calls : List CrngCall) :=
  (call : Fin calls.length) × Fin calls[call].length

/-- The output element at a position. -/
def element
    (s : CrngState)
    (calls : List CrngCall)
    (position : Position calls) : UInt8 :=
  (calls[position.1].draw ccrh (drawAll ccrh s (calls.take position.1))).1
    position.2

/-- Bit `bit` of the block at counter value `id` contributes to `value`: it
changes with that bit alone, of one key or of both. -/
def Contributes
    (value : (Block -> Block -> Block) -> UInt8)
    (id : Block)
    (bit : Fin 128) : Prop :=
  ∃ ccrh ccrh' : Block -> Block -> Block,
    (∀ key id' (bit' : Fin 128), (id', bit') ≠ (id, bit) ->
      (ccrh key id').getLsbD bit' = (ccrh' key id').getLsbD bit') ∧
    value ccrh ≠ value ccrh'

end

/-! ## Counter values -/

namespace RngId

/-- The counter after `count` blocks. -/
def ofCount (count : Nat) : RngId where
  lo := UInt64.ofNat count
  hi := UInt64.ofNat (count / 2 ^ 64)

theorem toNat_block (id : RngId) :
    id.block.toNat = id.hi.toNat * 2 ^ 64 + id.lo.toNat := by
  rw [block, BitVec.toNat_append,
    ← Nat.shiftLeft_add_eq_or_of_lt id.lo.toBitVec.isLt, Nat.shiftLeft_eq]
  rfl

theorem toNat_block_ofCount (few : count < 2 ^ 128) :
    (ofCount count).block.toNat = count := by
  rw [toNat_block, ofCount]
  simp only [UInt64.toNat_ofNat']
  omega

theorem plus_ofCount (count : Nat) (small : k < 2 ^ 64) :
    (ofCount count).plus (UInt64.ofNat k) = ofCount (count + k) := by
  simp only [plus, ofCount, UInt64.ofNat_add, RngId.mk.injEq, true_and]
  apply UInt64.toNat_inj.mp
  simp only [UInt64.lt_iff_toNat_lt, UInt64.toNat_add, UInt64.toNat_ofNat']
  split <;> simp only [UInt64.toNat_one, UInt64.toNat_zero] <;> omega

theorem next_ofCount (count : Nat) :
    (ofCount count).next = ofCount (count + 1) := by
  simp only [next, ofCount, UInt64.ofNat_add, RngId.mk.injEq]
  refine ⟨rfl, ?_⟩
  apply UInt64.toNat_inj.mp
  simp only [← UInt64.toNat_inj, UInt64.toNat_add, UInt64.toNat_ofNat',
    UInt64.toNat_one, UInt64.toNat_zero]
  split <;>
    simp only [UInt64.toNat_add, UInt64.toNat_ofNat', UInt64.toNat_one] <;>
    omega

theorem advance4_ofCount (count : Nat) :
    (ofCount count).advance4 = ofCount (count + 4) := by
  simp only [advance4, ofCount, UInt64.ofNat_add, RngId.mk.injEq]
  refine ⟨rfl, ?_⟩
  apply UInt64.toNat_inj.mp
  simp only [UInt64.lt_iff_toNat_lt, UInt64.toNat_add, UInt64.toNat_ofNat']
  split <;>
    simp_all [UInt64.toNat_add, UInt64.toNat_ofNat', UInt64.toNat_one] <;>
    omega

theorem iterate_advance4_ofCount (rounds count : Nat) :
    RngId.advance4^[rounds] (ofCount count) = ofCount (count + 4 * rounds) := by
  induction rounds generalizing count with
  | zero => rfl
  | succ rounds inductionHypothesis =>
      rw [Function.iterate_succ_apply, advance4_ofCount, inductionHypothesis]
      congr 1
      omega

/-- The `q`-th block of a vector draw is the `q`-th of the stream from here. -/
theorem nth_ofCount (count q : Nat) :
    (ofCount count).nth q = ofCount (count + q) := by
  rw [nth, iterate_advance4_ofCount, plus_ofCount _ (by omega)]
  congr 1
  omega

end RngId

/-! ## The read position -/

/-- How far a sequence of calls has read: `count` blocks are drawn, and bits
from `ptr` on are left of the last one when it is cached. -/
structure ReadState where
  count : Nat
  ptr : Nat
  isXor : Bool
  cached : ptr < BLOCK_CAPACITY * 8 -> 1 ≤ count
  aligned : isXor = false -> ptr < BLOCK_CAPACITY * 8 -> ptr % 8 = 0

namespace ReadState

/-- Nothing is drawn yet. -/
def fresh : ReadState where
  count := 0
  ptr := BLOCK_CAPACITY * 8
  isXor := false
  cached inside := absurd inside (Nat.lt_irrefl _)
  aligned _ inside := absurd inside (Nat.lt_irrefl _)

/-- The position in the stream, in bits. -/
def frontier (k : ReadState) : Nat :=
  if BLOCK_CAPACITY * 8 ≤ k.ptr then 128 * k.count
  else 128 * (k.count - 1) + k.ptr

/-- A scalar call finds a usable block in the cache, or draws one. -/
def prepare (k : ReadState) (isXor : Bool) : ReadState :=
  if k.ptr ≥ BLOCK_CAPACITY * 8 || k.isXor != isXor then
    { count := k.count + 1
      ptr := 0
      isXor := isXor
      cached _ := Nat.le_add_left 1 _
      aligned _ _ := rfl }
  else k

theorem prepare_isXor (k : ReadState) (isXor : Bool) :
    (k.prepare isXor).isXor = isXor := by
  unfold prepare
  split
  · rfl
  · next kept =>
      simp only [Bool.or_eq_true, decide_eq_true_eq, bne_iff_ne, not_or,
        not_not] at kept
      exact kept.2

theorem prepare_ptr_lt (k : ReadState) (isXor : Bool) :
    (k.prepare isXor).ptr < BLOCK_CAPACITY * 8 := by
  unfold prepare
  split
  · exact Nat.zero_lt_succ _
  · next kept =>
      simp only [Bool.or_eq_true, decide_eq_true_eq, bne_iff_ne, not_or,
        not_not, ge_iff_le, not_le] at kept
      exact kept.1

/-- Skipping to the next block never goes back. -/
theorem frontier_le_prepare (k : ReadState) (isXor : Bool) :
    k.frontier ≤ (k.prepare isXor).frontier := by
  have whole : BLOCK_CAPACITY * 8 = 128 := rfl
  have inside := k.cached
  unfold prepare
  split
  · unfold frontier
    simp only [whole] at inside ⊢
    split <;> split <;> omega
  · exact le_refl _

/-- The bits a scalar call takes from the cache. -/
def width (ell : Nat) : Nat := if ell = 1 then 1 else 8

/-- The read position after a call. -/
def after (k : ReadState) : CrngCall -> ReadState
  | .scalar ell =>
      { count := (k.prepare (ell == 1)).count
        ptr := (k.prepare (ell == 1)).ptr + width ell
        isXor := ell == 1
        cached inside :=
          (k.prepare (ell == 1)).cached (Nat.lt_of_le_of_lt (by omega) inside)
        aligned bytes inside := by
          have bytes' : ell ≠ 1 := by simpa using bytes
          have before := (k.prepare (ell == 1)).aligned
            (by rw [prepare_isXor]; exact bytes)
            (Nat.lt_of_le_of_lt (by omega) inside)
          rw [width, if_neg bytes']
          omega }
  | .vector ell n =>
      { count := k.count +
          if ell = 1 then 4 * (((n + 63) / 64 + 7) / 8) else 4 * ((n + 63) / 64)
        ptr := BLOCK_CAPACITY * 8
        isXor := k.isXor
        cached inside := absurd inside (Nat.lt_irrefl _)
        aligned _ inside := absurd inside (Nat.lt_irrefl _) }

/-- Where in the stream element `i` of a call starts. -/
def start (k : ReadState) (call : CrngCall) (i : Nat) : Nat :=
  match call with
  | .scalar ell => (k.prepare (ell == 1)).frontier
  | .vector ell _ => 128 * k.count + width ell * i

theorem frontier_le_start (k : ReadState) (call : CrngCall) (i : Nat) :
    k.frontier ≤ k.start call i := by
  cases call with
  | scalar ell => exact k.frontier_le_prepare (ell == 1)
  | vector ell n =>
      have whole : BLOCK_CAPACITY * 8 = 128 := rfl
      have inside := k.cached
      unfold frontier start
      simp only [whole] at inside ⊢
      split <;> omega

/-- Every element of a call is read before the position after the call. -/
theorem start_le_frontier_after
    (k : ReadState)
    (call : CrngCall)
    (i : Fin call.length) :
    k.start call i + width call.ell ≤ (k.after call).frontier := by
  have whole : BLOCK_CAPACITY * 8 = 128 := rfl
  cases call with
  | scalar ell =>
      have inside := k.prepare_ptr_lt (ell == 1)
      have positive := (k.prepare (ell == 1)).cached inside
      have aligned := (k.prepare (ell == 1)).aligned
      rw [prepare_isXor] at aligned
      unfold start frontier after
      simp only [CrngCall.ell, whole] at inside aligned ⊢
      rw [if_neg (by omega)]
      by_cases bits : ell = 1
      · simp only [width, if_pos bits]
        split <;> omega
      · have aligned := aligned (by simpa using bits) inside
        simp only [width, if_neg bits]
        split <;> omega
  | vector ell n =>
      have iLt : i.val < n := i.isLt
      unfold start frontier after
      simp only [CrngCall.ell, le_refl, if_true]
      by_cases bits : ell = 1
      · simp only [width, if_pos bits]
        omega
      · simp only [width, if_neg bits]
        omega

/-- The elements of one call do not overlap. -/
theorem start_lt
    (k : ReadState)
    (call : CrngCall)
    {i j : Fin call.length}
    (before : i < j) :
    k.start call i + width call.ell ≤ k.start call j := by
  cases call with
  | scalar ell =>
      have i0 : i.val < 1 := i.isLt
      have j0 : j.val < 1 := j.isLt
      have := Fin.lt_def.mp before
      omega
  | vector ell n =>
      have := Fin.lt_def.mp before
      have next : width ell * (i.val + 1) ≤ width ell * j.val :=
        Nat.mul_le_mul_left _ this
      unfold start
      simp only [CrngCall.ell]
      rw [Nat.mul_succ] at next
      omega

/-- The read position after a sequence of calls. -/
def afterAll (k : ReadState) (calls : List CrngCall) : ReadState :=
  calls.foldl after k

theorem afterAll_append (k : ReadState) (calls calls' : List CrngCall) :
    k.afterAll (calls ++ calls') = (k.afterAll calls).afterAll calls' :=
  List.foldl_append

theorem afterAll_take_succ
    (k : ReadState)
    (calls : List CrngCall)
    (call : Fin calls.length) :
    k.afterAll (calls.take (call + 1)) =
      (k.afterAll (calls.take call)).after calls[call] := by
  rw [List.take_add_one, afterAll_append]
  simp [afterAll]

theorem frontier_le_after (k : ReadState) (call : CrngCall) :
    k.frontier ≤ (k.after call).frontier := by
  have whole : BLOCK_CAPACITY * 8 = 128 := rfl
  cases call with
  | scalar ell =>
      have i : Fin (CrngCall.scalar ell).length := ⟨0, Nat.one_pos⟩
      have first := k.frontier_le_start (.scalar ell) i
      have last := k.start_le_frontier_after (.scalar ell) i
      omega
  | vector ell n =>
      have inside := k.cached
      unfold frontier after
      simp only [whole, le_refl, if_true] at inside ⊢
      split <;> omega

theorem frontier_le_afterAll (k : ReadState) (calls : List CrngCall) :
    k.frontier ≤ (k.afterAll calls).frontier := by
  induction calls generalizing k with
  | nil => exact le_refl _
  | cons call calls inductionHypothesis =>
      exact (k.frontier_le_after call).trans (inductionHypothesis _)

/-- What a call has read stays behind while more calls follow. -/
theorem start_le_frontier_take
    (k : ReadState)
    (calls : List CrngCall)
    (call : Fin calls.length)
    (i : Fin calls[call].length)
    {done : Nat}
    (later : call < done) :
    (k.afterAll (calls.take call)).start calls[call] i +
        width calls[call].ell ≤
      (k.afterAll (calls.take done)).frontier := by
  have read := (k.afterAll (calls.take call)).start_le_frontier_after
    calls[call] i
  rw [← afterAll_take_succ] at read
  have split : calls.take done = calls.take (call + 1) ++
      (calls.take done).drop (call + 1) := by
    rw [← List.take_append_drop (call + 1) (calls.take done), List.take_take,
      Nat.min_eq_left (by omega)]
    simp
  rw [split, afterAll_append]
  exact read.trans (frontier_le_afterAll _ _)

theorem frontier_le_count (k : ReadState) : k.frontier ≤ 128 * k.count := by
  have whole : BLOCK_CAPACITY * 8 = 128 := rfl
  have inside := k.cached
  unfold frontier
  simp only [whole] at inside ⊢
  split <;> omega

end ReadState

/-! ## An instance at a read position -/

section

variable (ccrh : Block -> Block -> Block)

/-- An instance has read as far as `k` tells, and what is left of its cache
comes from the last block drawn. -/
structure Tracks
    (keyThis keyPrev : Block)
    (k : ReadState)
    (s : CrngState) : Prop where
  keyThis : s.keyThis = keyThis
  keyPrev : s.keyPrev = keyPrev
  id : s.cRngId = .ofCount k.count
  ptr : s.crngPtr = k.ptr
  isXor : s.crngIsXor = k.isXor
  cache : k.ptr < BLOCK_CAPACITY * 8 ->
    s.crngCache = s.correlated ccrh k.isXor (.ofCount (k.count - 1))

variable {ccrh} {keyThis keyPrev : Block} {k : ReadState} {s : CrngState}

theorem Tracks.prepare
    (tracks : Tracks ccrh keyThis keyPrev k s)
    (isXor : Bool) :
    Tracks ccrh keyThis keyPrev (k.prepare isXor) (s.prepare ccrh isXor) := by
  unfold CrngState.prepare ReadState.prepare
  rw [tracks.ptr, tracks.isXor]
  split
  · exact {
      keyThis := tracks.keyThis
      keyPrev := tracks.keyPrev
      id := by
        simp only [CrngState.refillCrngCache, tracks.id, RngId.next_ofCount]
      ptr := rfl
      isXor := rfl
      cache := fun _ => by
        simp only [CrngState.refillCrngCache, tracks.id,
          Nat.add_sub_cancel]
        rfl }
  · exact tracks

/-- Moving the read position inside the cache. -/
theorem Tracks.advance
    (tracks : Tracks ccrh keyThis keyPrev k s)
    (inside : k.ptr < BLOCK_CAPACITY * 8)
    {k' : ReadState}
    (count : k'.count = k.count)
    (ptr : k'.ptr = k.ptr + step)
    (isXor : k'.isXor = k.isXor) :
    Tracks ccrh keyThis keyPrev k'
      { s with crngPtr := s.crngPtr + step } where
  keyThis := tracks.keyThis
  keyPrev := tracks.keyPrev
  id := count ▸ tracks.id
  ptr := by rw [ptr, tracks.ptr]
  isXor := isXor ▸ tracks.isXor
  cache _ := by
    rw [count, isXor]
    exact tracks.cache inside

theorem Tracks.draw
    (tracks : Tracks ccrh keyThis keyPrev k s)
    (call : CrngCall) :
    Tracks ccrh keyThis keyPrev (k.after call) (call.draw ccrh s).2 := by
  cases call with
  | scalar ell =>
      have prepared := tracks.prepare (ell == 1)
      have inside := k.prepare_ptr_lt (ell == 1)
      by_cases bits : ell = 1
      · subst ell
        exact prepared.advance inside rfl rfl (k.prepare_isXor true).symm
      · have mode : (ell == 1) = false := by simpa using bits
        rw [mode] at prepared inside
        simp only [CrngCall.draw, crng, if_neg bits]
        apply prepared.advance inside
        · simp only [ReadState.after, mode]
        · simp only [ReadState.after, ReadState.width, mode, if_neg bits]
        · simp only [ReadState.after, mode, k.prepare_isXor]
  | vector ell n =>
      have moved : (crngVector ccrh ell n s).2.cRngId =
          .ofCount (k.after (.vector ell n)).count := by
        unfold crngVector
        split <;> rename_i bits <;>
          simp only [crngFill_fst, tracks.id, RngId.iterate_advance4_ofCount,
            ReadState.after, bits, if_true, if_false] <;>
          congr 1
      unfold CrngCall.draw
      dsimp only
      refine ⟨?_, ?_, moved, ?_, ?_, fun inside =>
        absurd inside (Nat.lt_irrefl _)⟩ <;>
        (unfold crngVector
         split <;>
          first | exact tracks.keyThis | exact tracks.keyPrev | rfl |
            exact tracks.isXor)

theorem Tracks.drawAll
    (tracks : Tracks ccrh keyThis keyPrev k s)
    (calls : List CrngCall) :
    Tracks ccrh keyThis keyPrev (k.afterAll calls)
      (Rep3.drawAll ccrh s calls) := by
  induction calls generalizing k s with
  | nil => exact tracks
  | cons call calls inductionHypothesis =>
      exact inductionHypothesis (tracks.draw call)

/-- The read position counts the blocks that are drawn. -/
theorem Tracks.count_after
    (tracks : Tracks ccrh keyThis keyPrev k s)
    (call : CrngCall) :
    (k.after call).count = k.count + call.blocks s := by
  cases call with
  | scalar ell =>
      simp only [ReadState.after, ReadState.prepare, CrngCall.blocks,
        tracks.ptr, tracks.isXor]
      split <;> rfl
  | vector ell n =>
      simp only [ReadState.after, CrngCall.blocks]

theorem Tracks.count_afterAll
    (tracks : Tracks ccrh keyThis keyPrev k s)
    (calls : List CrngCall) :
    (k.afterAll calls).count = k.count + consumed ccrh s calls := by
  induction calls generalizing k s with
  | nil => rfl
  | cons call calls inductionHypothesis =>
      have rest := inductionHypothesis (tracks.draw call)
      rw [consumed, ← Nat.add_assoc, ← tracks.count_after call, ← rest]
      rfl

end

/-! ## What an element is read from -/

section

/-- Two families of blocks agree on the bits of the stream from `lo` on and
before `hi`. -/
def AgreeOn (ccrh ccrh' : Block -> Block -> Block) (lo hi : Nat) : Prop :=
  ∀ key b bit, bit < 128 -> lo ≤ 128 * b + bit -> 128 * b + bit < hi ->
    (ccrh key (RngId.ofCount b).block).getLsbD bit =
      (ccrh' key (RngId.ofCount b).block).getLsbD bit

theorem testBit_blockBytes
    (v : Block)
    (index : Fin 16)
    (bitLt : bit < 8) :
    (blockBytes v index).toNat.testBit bit = v.getLsbD (8 * index.val + bit) := by
  show (v.extractLsb' (8 * index.val) 8).getLsbD bit = _
  rw [BitVec.getLsbD_extractLsb', decide_eq_true bitLt, Bool.true_and]

theorem blockBytes_congr
    {v v' : Block}
    {index : Fin 16}
    (same : ∀ bit < 8,
      v.getLsbD (8 * index.val + bit) = v'.getLsbD (8 * index.val + bit)) :
    blockBytes v index = blockBytes v' index := by
  apply UInt8.toBitVec_inj.mp
  apply BitVec.eq_of_getLsbD_eq
  intro bit bitLt
  have left := testBit_blockBytes v index bitLt
  have right := testBit_blockBytes v' index bitLt
  rw [← same bit bitLt, ← left] at right
  exact right.symm

variable {ccrh ccrh' : Block -> Block -> Block} {keyThis keyPrev : Block}
  {k : ReadState} {s s' : CrngState}

/-- A byte of correlated randomness is read from one byte of the stream. -/
theorem correlated_congr
    (tracks : Tracks ccrh keyThis keyPrev k s)
    (tracks' : Tracks ccrh' keyThis keyPrev k s')
    (isXor : Bool)
    (b : Nat)
    (index : Fin 16)
    (agree : AgreeOn ccrh ccrh' (128 * b + 8 * index.val)
      (128 * b + 8 * index.val + 8)) :
    s.correlated ccrh isXor (.ofCount b) index =
      s'.correlated ccrh' isXor (.ofCount b) index := by
  have same : ∀ key, blockBytes (ccrh key (RngId.ofCount b).block) index =
      blockBytes (ccrh' key (RngId.ofCount b).block) index := by
    intro key
    apply blockBytes_congr
    intro bit bitLt
    apply agree <;> omega
  simp only [CrngState.correlated, tracks.keyThis, tracks.keyPrev,
    tracks'.keyThis, tracks'.keyPrev, same]

/-- A correlated bit is read from one bit of the stream. -/
theorem testBit_correlated_congr
    (tracks : Tracks ccrh keyThis keyPrev k s)
    (tracks' : Tracks ccrh' keyThis keyPrev k s')
    (b : Nat)
    (index : Fin 16)
    (bitLt : bit < 8)
    (agree : AgreeOn ccrh ccrh' (128 * b + 8 * index.val + bit)
      (128 * b + 8 * index.val + bit + 1)) :
    (s.correlated ccrh true (.ofCount b) index).toNat.testBit bit =
      (s'.correlated ccrh' true (.ofCount b) index).toNat.testBit bit := by
  have same : ∀ key,
      (ccrh key (RngId.ofCount b).block).getLsbD (8 * index.val + bit) =
        (ccrh' key (RngId.ofCount b).block).getLsbD (8 * index.val + bit) := by
    intro key
    apply agree <;> omega
  simp only [CrngState.correlated, if_true, UInt8.toNat_xor, Nat.testBit_xor,
    testBit_blockBytes _ _ bitLt, tracks.keyThis, tracks.keyPrev,
    tracks'.keyThis, tracks'.keyPrev, same]

/-- A scalar is read from the bits of its interval. -/
theorem crng_congr
    (tracks : Tracks ccrh keyThis keyPrev k s)
    (tracks' : Tracks ccrh' keyThis keyPrev k s')
    (ell : Nat)
    (agree : AgreeOn ccrh ccrh' (k.start (.scalar ell) 0)
      (k.start (.scalar ell) 0 + ReadState.width ell)) :
    (crng ccrh ell s).1 = (crng ccrh' ell s').1 := by
  have whole : BLOCK_CAPACITY * 8 = 128 := rfl
  have inside := k.prepare_ptr_lt (ell == 1)
  have prepared := tracks.prepare (ell == 1)
  have prepared' := tracks'.prepare (ell == 1)
  have aligned := (k.prepare (ell == 1)).aligned
  have first : k.start (.scalar ell) 0 =
      128 * ((k.prepare (ell == 1)).count - 1) + (k.prepare (ell == 1)).ptr := by
    show (k.prepare (ell == 1)).frontier = _
    exact if_neg (by omega)
  have index : (Fin.ofNat 16 ((k.prepare (ell == 1)).ptr / 8)).val =
      (k.prepare (ell == 1)).ptr / 8 := by
    rw [Fin.val_ofNat]
    omega
  rw [first] at agree
  by_cases bits : ell = 1
  · subst ell
    simp only [beq_self_eq_true, k.prepare_isXor] at *
    simp only [crng, if_true, CrngState.cacheByte, prepared.ptr, prepared'.ptr,
      prepared.cache inside, prepared'.cache inside, k.prepare_isXor]
    apply UInt8.toNat_inj.mp
    have bitLt : (k.prepare true).ptr % 8 < 8 := Nat.mod_lt _ (by decide)
    rw [toNat_bit _ _ bitLt, toNat_bit _ _ bitLt,
      testBit_correlated_congr prepared prepared' _ _ bitLt]
    rw [index]
    have position : 128 * ((k.prepare true).count - 1) +
        8 * ((k.prepare true).ptr / 8) + (k.prepare true).ptr % 8 =
        128 * ((k.prepare true).count - 1) + (k.prepare true).ptr := by omega
    rw [position]
    exact agree
  · have mode : (ell == 1) = false := by simpa using bits
    simp only [mode, k.prepare_isXor, ReadState.width, if_neg bits] at *
    have aligned := aligned trivial inside
    simp only [crng, if_neg bits, CrngState.cacheByte, prepared.ptr,
      prepared'.ptr, prepared.cache inside, prepared'.cache inside,
      k.prepare_isXor]
    rw [correlated_congr prepared prepared' false]
    rw [index]
    have position : 128 * ((k.prepare false).count - 1) +
        8 * ((k.prepare false).ptr / 8) =
        128 * ((k.prepare false).count - 1) + (k.prepare false).ptr := by omega
    rw [position]
    exact agree

/-- An element of a vector is read from the bits of its interval. -/
theorem crngVector_congr
    (tracks : Tracks ccrh keyThis keyPrev k s)
    (tracks' : Tracks ccrh' keyThis keyPrev k s')
    (ell n : Nat)
    (i : Fin n)
    (agree : AgreeOn ccrh ccrh' (k.start (.vector ell n) i)
      (k.start (.vector ell n) i + ReadState.width ell)) :
    (crngVector ccrh ell n s).1 i = (crngVector ccrh' ell n s').1 i := by
  by_cases bits : ell = 1
  · subst ell
    have inside : i.val / 64 * 64 + i.val % 64 < n := by omega
    have position : 0 ≤ i.val / 64 ∧ i.val / 64 < (n + 63) / 64 := by omega
    simp only [ReadState.start, ReadState.width, if_true, Nat.one_mul] at agree
    have same : ∀ key,
        (ccrh key (RngId.ofCount (k.count + i.val / 64 / 2)).block).getLsbD
            (64 * (i.val / 64 % 2) + i.val % 64) =
          (ccrh' key (RngId.ofCount (k.count + i.val / 64 / 2)).block).getLsbD
            (64 * (i.val / 64 % 2) + i.val % 64) := by
      intro key
      apply agree <;> omega
    apply UInt8.toNat_inj.mp
    simp only [crngVector, if_true, toNat_wordBits, crngFill_snd,
      if_pos position, Nat.sub_zero, wordUnit_testBit _ _ inside
      (Nat.mod_lt _ (by decide)), tracks.id, tracks'.id, RngId.nth_ofCount,
      tracks.keyThis, tracks.keyPrev, tracks'.keyThis, tracks'.keyPrev,
      BitVec.getLsbD_xor, same]
  · have position : 0 ≤ i.val ∧ i.val < n := ⟨Nat.zero_le _, i.isLt⟩
    simp only [ReadState.start, ReadState.width, if_neg bits] at agree
    simp only [crngVector, if_neg bits, crngFill_snd, if_pos position,
      Nat.sub_zero, tracks.id, tracks'.id, RngId.nth_ofCount]
    rw [correlated_congr tracks tracks' false]
    have index : (Fin.ofNat 16 (i.val % 16)).val = i.val % 16 := by
      rw [Fin.val_ofNat, Nat.mod_mod]
    rw [index]
    have offset : 128 * (k.count + i.val / 16) + 8 * (i.val % 16) =
        128 * k.count + 8 * i.val := by omega
    rw [offset]
    exact agree

theorem draw_congr
    (tracks : Tracks ccrh keyThis keyPrev k s)
    (tracks' : Tracks ccrh' keyThis keyPrev k s')
    (call : CrngCall)
    (i : Fin call.length)
    (agree : AgreeOn ccrh ccrh' (k.start call i)
      (k.start call i + ReadState.width call.ell)) :
    (call.draw ccrh s).1 i = (call.draw ccrh' s').1 i := by
  cases call with
  | scalar ell => exact crng_congr tracks tracks' ell agree
  | vector ell n => exact crngVector_congr tracks tracks' ell n i agree

end

/-! ## Three instances -/

/-- A new instance that knows its two keys, as the constructor leaves it. -/
def CrngState.fresh
    (keyThis keyPrev : Block)
    (cache : Bytes16) : CrngState where
  cRngId := { lo := 0, hi := 0 }
  keyThis := keyThis
  keyPrev := keyPrev
  crngCache := cache
  crngPtr := BLOCK_CAPACITY * 8
  crngIsXor := false

theorem tracks_fresh
    (ccrh : Block -> Block -> Block)
    (keyThis keyPrev : Block)
    (cache : Bytes16) :
    Tracks ccrh keyThis keyPrev .fresh (.fresh keyThis keyPrev cache) where
  keyThis := rfl
  keyPrev := rfl
  id := rfl
  ptr := rfl
  isXor := rfl
  cache inside := absurd inside (Nat.lt_irrefl _)

theorem synchronised_fresh
    (key : ShrRep3Pid -> Block)
    (cache : ShrRep3Pid -> Bytes16) :
    Synchronised fun pid => .fresh (key pid) (key pid.PREV) (cache pid) where
  id _ := rfl
  ptr _ := rfl
  isXor _ := rfl
  keys _ := rfl
  cache inside := absurd inside (Nat.lt_irrefl _)

section

variable {ccrh : Block -> Block -> Block} {s : ShrRep3Pid -> CrngState}

/-- What the three instances return for one call adds up to zero, and they stay
synchronised. -/
theorem Synchronised.draw
    (sync : Synchronised s)
    (call : CrngCall)
    (ellLe : call.ell ≤ 8) :
    (∀ i, (sum3 fun pid => ringVal call.ell ((call.draw ccrh (s pid)).1 i)) =
      0) ∧
      Synchronised fun pid => (call.draw ccrh (s pid)).2 := by
  cases call with
  | scalar ell =>
      obtain ⟨zero, sync⟩ := sync.crng ccrh ellLe
      exact ⟨fun _ => zero, sync⟩
  | vector ell n =>
      obtain ⟨zero, sync⟩ := sync.crngVector ccrh ellLe n
      exact ⟨fun i => congrFun zero i, sync⟩

theorem Synchronised.drawAll
    (sync : Synchronised s)
    (calls : List CrngCall)
    (ells : ∀ call ∈ calls, 1 ≤ call.ell ∧ call.ell ≤ 8) :
    Synchronised fun pid => Rep3.drawAll ccrh (s pid) calls := by
  induction calls generalizing s with
  | nil => exact sync
  | cons call calls inductionHypothesis =>
      have next : Synchronised fun pid => (call.draw ccrh (s pid)).2 :=
        (sync.draw call (ells call (by simp)).2).2
      exact inductionHypothesis next fun call member =>
        ells call (by simp [member])

end

/-- The interval of an output element. -/
def streamStart
    (calls : List CrngCall)
    (position : Position calls) : Nat :=
  (ReadState.fresh.afterAll (calls.take position.1)).start calls[position.1]
    position.2

/-- Later elements are read further on in the stream. -/
theorem streamStart_le
    (calls : List CrngCall)
    (position position' : Position calls)
    (before : position.1 < position'.1 ∨
      ∃ same : position.1 = position'.1, same ▸ position.2 < position'.2) :
    streamStart calls position + ReadState.width calls[position.1].ell ≤
      streamStart calls position' := by
  obtain ⟨call, i⟩ := position
  obtain ⟨call', i'⟩ := position'
  rcases before with earlier | ⟨same, before⟩
  · have read := ReadState.fresh.start_le_frontier_take calls call i earlier
    exact read.trans (ReadState.frontier_le_start _ _ _)
  · obtain rfl : call = call' := same
    exact ReadState.start_lt _ _ before

theorem position_trichotomy
    {calls : List CrngCall}
    {position position' : Position calls}
    (different : position ≠ position') :
    (position.1 < position'.1 ∨
      ∃ same : position.1 = position'.1, same ▸ position.2 < position'.2) ∨
    (position'.1 < position.1 ∨
      ∃ same : position'.1 = position.1, same ▸ position'.2 < position.2) := by
  obtain ⟨call, i⟩ := position
  obtain ⟨call', i'⟩ := position'
  rcases lt_trichotomy call call' with before | rfl | before
  · exact .inl (.inl before)
  · rcases lt_trichotomy i i' with before | rfl | before
    · exact .inl (.inr ⟨rfl, before⟩)
    · exact absurd rfl different
    · exact .inr (.inr ⟨rfl, before⟩)
  · exact .inr (.inl before)

/-- The bits that contribute to an element lie in its interval. -/
theorem Contributes.inside
    {keyThis keyPrev : Block}
    {cache : Bytes16}
    {calls : List CrngCall}
    {position : Position calls}
    {id : Block}
    {bit : Fin 128}
    (contributes : Contributes (fun ccrh =>
      element ccrh (.fresh keyThis keyPrev cache) calls position) id bit) :
    ∃ b, (RngId.ofCount b).block = id ∧
      streamStart calls position ≤ 128 * b + bit.val ∧
      128 * b + bit.val < streamStart calls position +
        ReadState.width calls[position.1].ell := by
  by_contra outside
  obtain ⟨ccrh, ccrh', same, changed⟩ := contributes
  apply changed
  apply draw_congr
    ((tracks_fresh ccrh keyThis keyPrev cache).drawAll _)
    ((tracks_fresh ccrh' keyThis keyPrev cache).drawAll _)
  intro key b bit' bitLt from_start before_end
  apply same key _ ⟨bit', bitLt⟩
  intro equal
  obtain ⟨rfl, rfl⟩ : (RngId.ofCount b).block = id ∧ ⟨bit', bitLt⟩ = bit := by
    simpa using equal
  exact outside ⟨b, rfl, from_start, before_end⟩

/-- An interval lies before the position where the calls have ended. -/
theorem streamStart_lt_count
    (calls : List CrngCall)
    (position : Position calls) :
    streamStart calls position + ReadState.width calls[position.1].ell ≤
      128 * (ReadState.fresh.afterAll calls).count := by
  obtain ⟨call, i⟩ := position
  have read := ReadState.fresh.start_le_frontier_take calls call i call.isLt
  rw [List.take_length] at read
  exact read.trans (ReadState.frontier_le_count _)

/-- Three instances with the keys of a ring issue the same calls.  Their
counters stay equal, what they return adds up to zero, and no bit at any
counter value contributes to two elements, be it at one party or at two. -/
theorem crng_correlated
    (ccrh : Block -> Block -> Block)
    (key : ShrRep3Pid -> Block)
    (cache : ShrRep3Pid -> Bytes16)
    (calls : List CrngCall)
    (ells : ∀ call ∈ calls, 1 ≤ call.ell ∧ call.ell ≤ 8)
    (few : consumed ccrh (.fresh (key .P0) (key .P2) (cache .P0)) calls <
      2 ^ 128) :
    let s : ShrRep3Pid -> CrngState := fun pid =>
      .fresh (key pid) (key pid.PREV) (cache pid)
    (∀ done pid, (drawAll ccrh (s pid) (calls.take done)).cRngId =
      (drawAll ccrh (s .P0) (calls.take done)).cRngId) ∧
    (∀ position : Position calls,
      sum3 (M := ZMod (2 ^ calls[position.1].ell)) (fun pid =>
        ringVal calls[position.1].ell
          (element ccrh (s pid) calls position)) = 0) ∧
    (∀ (position position' : Position calls) (pid pid' : ShrRep3Pid) id bit,
      position ≠ position' ->
      ¬ (Contributes (fun ccrh => element ccrh (s pid) calls position) id bit ∧
        Contributes (fun ccrh => element ccrh (s pid') calls position')
          id bit)) := by
  intro s
  have prefixElls : ∀ done, ∀ call ∈ calls.take done,
      1 ≤ call.ell ∧ call.ell ≤ 8 := fun done call member =>
    ells call (List.mem_of_mem_take member)
  refine ⟨fun done => ?_, fun position => ?_, ?_⟩
  · exact ((synchronised_fresh key cache).drawAll _ (prefixElls done)).id
  · have sync : Synchronised fun pid =>
        drawAll ccrh (s pid) (calls.take position.1) :=
      (synchronised_fresh key cache).drawAll _ (prefixElls position.1)
    exact (sync.draw calls[position.1]
      (ells _ (List.getElem_mem _)).2).1 position.2
  · rintro position position' pid pid' id bit different ⟨first, second⟩
    obtain ⟨b, atId, lower, upper⟩ := first.inside
    obtain ⟨b', atId', lower', upper'⟩ := second.inside
    have total := (tracks_fresh ccrh (key .P0) (key .P2)
      (cache .P0)).count_afterAll calls
    have empty : ReadState.fresh.count = 0 := rfl
    have last := streamStart_lt_count calls position
    have last' := streamStart_lt_count calls position'
    have same : b = b' := by
      have small : b < 2 ^ 128 := by omega
      have small' : b' < 2 ^ 128 := by omega
      rw [← RngId.toNat_block_ofCount small, ← RngId.toNat_block_ofCount small',
        atId, atId']
    subst same
    rcases position_trichotomy different with before | before
    · have := streamStart_le calls position position' before
      omega
    · have := streamStart_le calls position' position before
      omega

/-- The keys of three parties. -/
def sampleKey : ShrRep3Pid -> Block
  | .P0 => 0x0123456789abcdef#128
  | .P1 => 77#128
  | .P2 => 0xfedcba9876543210fedcba9876543210#128

/-- A bit, a byte, a vector of bits and a bit again: four blocks and two
refills. -/
theorem crng_correlated_mixed :
    let s : ShrRep3Pid -> CrngState := fun pid =>
      .fresh (sampleKey pid) (sampleKey pid.PREV) fun _ => 0
    let calls : List CrngCall := [.scalar 1, .scalar 3, .vector 1 70, .scalar 1]
    (∀ done pid, (drawAll (fun key id => key + id) (s pid)
        (calls.take done)).cRngId =
      (drawAll (fun key id => key + id) (s .P0) (calls.take done)).cRngId) ∧
    (∀ position : Position calls,
      sum3 (M := ZMod (2 ^ calls[position.1].ell)) (fun pid =>
        ringVal calls[position.1].ell
          (element (fun key id => key + id) (s pid) calls position)) = 0) ∧
    (∀ (position position' : Position calls) (pid pid' : ShrRep3Pid) id bit,
      position ≠ position' ->
      ¬ (Contributes (fun ccrh => element ccrh (s pid) calls position) id bit ∧
        Contributes (fun ccrh => element ccrh (s pid') calls position')
          id bit)) :=
  crng_correlated (fun key id => key + id) sampleKey (fun _ _ => 0) _
    (by simp [CrngCall.ell])
    (by
      have total := (tracks_fresh (fun key id => key + id) (sampleKey .P0)
        (sampleKey .P2) (fun _ => 0)).count_afterAll
          [.scalar 1, .scalar 3, .vector 1 70, .scalar 1]
      have counted : (ReadState.fresh.afterAll
          [.scalar 1, .scalar 3, .vector 1 70, .scalar 1]).count = 7 := rfl
      have empty : ReadState.fresh.count = 0 := rfl
      omega)

end Rep3
end Mpmt
