import Mpmt.Dpf.Block
import Mpmt.Rep3.Share

/-!
# Correlated randomness

`Aby3::crng`.  Party `i` subtracts (or xors) the pseudorandom streams of its
own key and of its predecessor's key, so that the values the three parties
draw at one position cancel.  A scalar is drawn bit by bit or byte by byte
from a cached block; a vector is drawn from fresh blocks, four at a time.

`ccrh` stands for `emp::CCRH`, as in the point function modules.
-/

namespace Mpmt
namespace Rep3

open RingMath
open Dpf (Block Bytes16 blockBytes low64)

/-! ## The counter -/

/-- `cRngId_`, a 128-bit counter kept in two 64-bit halves. -/
structure RngId where
  lo : UInt64
  hi : UInt64
  deriving DecidableEq, Repr

namespace RngId

/-- `_mm_set_epi64x(hi, lo)`. -/
def block (id : RngId) : Block := id.hi.toBitVec ++ id.lo.toBitVec

/-- The `k`-th id of a batch. -/
def plus (id : RngId) (k : UInt64) : RngId :=
  let lo := id.lo + k
  { lo := lo, hi := id.hi + (if lo < id.lo then 1 else 0) }

/-- The counter after a batch of four. -/
def advance4 (id : RngId) : RngId :=
  let lo := id.lo + 4
  { lo := lo, hi := if lo < 4 then id.hi + 1 else id.hi }

/-- The counter after one refill of the cache. -/
def next (id : RngId) : RngId :=
  let lo := id.lo + 1
  { lo := lo, hi := if lo = 0 then id.hi + 1 else id.hi }

end RngId

/-! ## State -/

/-- `BLOCK_CAPACITY`. -/
def BLOCK_CAPACITY : Nat := 16

/-- The part of an `Aby3` instance that `crng` uses. -/
structure CrngState where
  cRngId : RngId
  keyThis : Block
  keyPrev : Block
  crngCache : Bytes16
  crngPtr : Nat
  crngIsXor : Bool

section

variable (ccrh : Block -> Block -> Block)

/-- `ccrhThis_.H` combined bytewise with `ccrhPrev_.H`: `_mm_xor_si128` or
`_mm_sub_epi8`. -/
def CrngState.correlated (s : CrngState) (isXor : Bool) (id : RngId) :
    Bytes16 := fun index =>
  let rawThis := blockBytes (ccrh s.keyThis id.block) index
  let rawPrev := blockBytes (ccrh s.keyPrev id.block) index
  if isXor then rawThis ^^^ rawPrev else rawThis - rawPrev

/-- `refillCrngCache`. -/
def CrngState.refillCrngCache (s : CrngState) (isXor : Bool) : CrngState :=
  { s with
    crngCache := s.correlated ccrh isXor s.cRngId
    cRngId := s.cRngId.next }

/-- The cache that the next draw in the given mode reads. -/
def CrngState.prepare (s : CrngState) (isXor : Bool) : CrngState :=
  if s.crngPtr ≥ BLOCK_CAPACITY * 8 || s.crngIsXor != isXor then
    { s.refillCrngCache ccrh isXor with crngPtr := 0, crngIsXor := isXor }
  else s

/-- Byte of the cache at the read position. -/
def CrngState.cacheByte (s : CrngState) : UInt8 :=
  s.crngCache (Fin.ofNat 16 (s.crngPtr / 8))

/-- Scalar `crng<ELL_V>()`. -/
def crng (ell : Nat) (s : CrngState) : UInt8 × CrngState :=
  if ell = 1 then
    let s := s.prepare ccrh true
    ((s.cacheByte >>> UInt8.ofNat (s.crngPtr % 8)) &&& 1,
      { s with crngPtr := s.crngPtr + 1 })
  else
    let s := s.prepare ccrh false
    (s.cacheByte &&& ringMask8 ell, { s with crngPtr := s.crngPtr + 8 })

/-! ## Vectors -/

/-- Copy a block to `batch` positions from `i` on. -/
def copyBlock
    (unit : Nat -> Nat -> Item)
    (i batch : Nat)
    (out : Nat -> Item) : Nat -> Item := fun position =>
  if i ≤ position ∧ position < i + batch then unit (position - i) position
  else out position

/-- The inner loop of a vector draw: blocks `k` to `3` of one batch are copied
to the positions from `i` on, `perBlock` units from each. -/
def crngRound
    (perBlock total : Nat)
    (unit : RngId -> Nat -> Nat -> Item)
    (id : RngId)
    (k i : Nat)
    (out : Nat -> Item) : Nat × (Nat -> Item) :=
  if k < 4 ∧ i < total then
    let batch := min (total - i) perBlock
    crngRound perBlock total unit id (k + 1) (i + batch)
      (copyBlock (unit (id.plus (UInt64.ofNat k))) i batch out)
  else (i, out)
termination_by 4 - k

theorem crngRound_fst
    (perBlock total : Nat)
    (unit : RngId -> Nat -> Nat -> Item)
    (id : RngId)
    (k i : Nat)
    (out : Nat -> Item)
    (inside : i ≤ total) :
    (crngRound perBlock total unit id k i out).1 =
      min total (i + (4 - k) * perBlock) := by
  fun_induction crngRound perBlock total unit id k i out with
  | case1 k i out more batch inductionHypothesis =>
      have rest : 4 - k = 4 - (k + 1) + 1 := by omega
      rw [inductionHypothesis (by omega), rest, Nat.succ_mul]
      generalize (4 - (k + 1)) * perBlock = later
      omega
  | case2 k i out finished =>
      by_cases last : k < 4
      · omega
      · have none : 4 - k = 0 := by omega
        rw [none]
        omega

/-- The outer loop: batches of four blocks until all positions are filled. -/
def crngFill
    (perBlock total : Nat)
    (perBlockPositive : 0 < perBlock)
    (unit : RngId -> Nat -> Nat -> Item)
    (id : RngId)
    (i : Nat)
    (out : Nat -> Item) : RngId × (Nat -> Item) :=
  if i < total then
    let round := crngRound perBlock total unit id 0 i out
    crngFill perBlock total perBlockPositive unit id.advance4 round.1 round.2
  else (id, out)
termination_by total - i
decreasing_by
  rw [crngRound_fst _ _ _ _ _ _ _ (by omega)]
  omega

theorem crngRound_snd
    (perBlock total : Nat)
    (perBlockPositive : 0 < perBlock)
    (unit : RngId -> Nat -> Nat -> Item)
    (id : RngId)
    (k i : Nat)
    (out : Nat -> Item)
    (inside : i ≤ total)
    (position : Nat) :
    (crngRound perBlock total unit id k i out).2 position =
      if i ≤ position ∧
          position < (crngRound perBlock total unit id k i out).1 then
        unit (id.plus (UInt64.ofNat (k + (position - i) / perBlock)))
          ((position - i) % perBlock) position
      else out position := by
  fun_induction crngRound perBlock total unit id k i out with
  | case1 k i out more batch inductionHypothesis =>
      have passed := crngRound_fst perBlock total unit id (k + 1) (i + batch)
        (copyBlock (unit (id.plus (UInt64.ofNat k))) i batch out) (by omega)
      rw [inductionHypothesis (by omega)]
      by_cases later : i + batch ≤ position ∧ position <
          (crngRound perBlock total unit id (k + 1) (i + batch)
            (copyBlock (unit (id.plus (UInt64.ofNat k))) i batch out)).1
      · have full : batch = perBlock := by omega
        have offset : position - i = position - (i + batch) + perBlock := by
          omega
        rw [if_pos later, if_pos (by omega), offset,
          Nat.add_div_right _ perBlockPositive, Nat.add_mod_right,
          Nat.add_right_comm, Nat.add_assoc]
      · rw [if_neg later, copyBlock]
        by_cases here : i ≤ position ∧ position < i + batch
        · have small : position - i < perBlock := by omega
          rw [if_pos here, if_pos (by omega), Nat.div_eq_of_lt small,
            Nat.mod_eq_of_lt small, Nat.add_zero]
        · rw [if_neg here, if_neg (by omega)]
  | case2 k i out finished =>
      rw [if_neg (by omega)]

/-- The `q`-th id of a vector draw that starts at `id`. -/
def RngId.nth (id : RngId) (q : Nat) : RngId :=
  (RngId.advance4^[q / 4] id).plus (UInt64.ofNat (q % 4))

/-- A vector draw reads the units of consecutive blocks in order. -/
theorem crngFill_snd
    (perBlock total : Nat)
    (perBlockPositive : 0 < perBlock)
    (unit : RngId -> Nat -> Nat -> Item)
    (id : RngId)
    (i : Nat)
    (out : Nat -> Item)
    (position : Nat) :
    (crngFill perBlock total perBlockPositive unit id i out).2 position =
      if i ≤ position ∧ position < total then
        unit (id.nth ((position - i) / perBlock))
          ((position - i) % perBlock) position
      else out position := by
  fun_induction crngFill perBlock total perBlockPositive unit id i out with
  | case1 id i out more round inductionHypothesis =>
      have passed : round.1 = min total (i + 4 * perBlock) :=
        crngRound_fst perBlock total unit id 0 i out (by omega)
      rw [inductionHypothesis]
      by_cases later : round.1 ≤ position ∧ position < total
      · have offset : position - i =
            position - round.1 + perBlock * 4 := by omega
        rw [if_pos later, if_pos (by omega), offset,
          Nat.add_mul_div_left _ _ perBlockPositive,
          Nat.add_mul_mod_self_left]
        congr 1
        rw [RngId.nth, RngId.nth, Nat.add_div_right _ (by decide),
          Function.iterate_succ_apply, Nat.add_mod_right]
      · rw [if_neg later, crngRound_snd _ _ perBlockPositive _ _ _ _ _
          (by omega)]
        by_cases here : i ≤ position ∧ position < round.1
        · have first : (position - i) / perBlock < 4 := by
            rw [Nat.div_lt_iff_lt_mul perBlockPositive]
            omega
          rw [if_pos here, if_pos (by omega), RngId.nth,
            Nat.div_eq_of_lt first, Nat.mod_eq_of_lt first, Nat.zero_add]
          rfl
        · rw [if_neg here, if_neg (by omega)]
  | case2 id i out finished =>
      rw [if_neg (by omega)]

/-- The counter moves by whole batches, whatever is drawn. -/
theorem crngFill_fst
    (perBlock total : Nat)
    (perBlockPositive : 0 < perBlock)
    (unit : RngId -> Nat -> Nat -> Item)
    (id : RngId)
    (i : Nat)
    (out : Nat -> Item) :
    (crngFill perBlock total perBlockPositive unit id i out).1 =
      RngId.advance4^[(total - i + (4 * perBlock - 1)) / (4 * perBlock)]
        id := by
  fun_induction crngFill perBlock total perBlockPositive unit id i out with
  | case1 id i out more round inductionHypothesis =>
      have passed : round.1 = min total (i + 4 * perBlock) :=
        crngRound_fst perBlock total unit id 0 i out (by omega)
      rw [inductionHypothesis, ← Function.iterate_succ_apply]
      congr 1
      by_cases last : total ≤ i + 4 * perBlock
      · have done : total - round.1 = 0 := by omega
        rw [done, Nat.div_eq_of_lt (by omega)]
        symm
        apply Nat.div_eq_of_lt_le <;> omega
      · have offset : total - i + (4 * perBlock - 1) =
            total - round.1 + (4 * perBlock - 1) + 4 * perBlock := by omega
        rw [offset, Nat.add_div_right _ (by omega)]
  | case2 id i out finished =>
      rw [Nat.sub_eq_zero_of_le (by omega), Nat.div_eq_of_lt (by omega)]
      rfl

/-- The elements of a vector of bits, read from its words. -/
def wordBits (n : Nat) (words : Nat -> UInt64) : Rvector n :=
  fun i => ((words (i.val / 64) >>> UInt64.ofNat (i.val % 64)) &&& 1).toUInt8

/-- One 64-bit word of a block, with the bits past the last element cleared. -/
def wordUnit (n : Nat) (raw : Block) (half position : Nat) : UInt64 :=
  let word : UInt64 := ⟨raw.extractLsb' (64 * half) 64⟩
  let bits := if n - position * 64 < 64 then n - position * 64 else 64
  if bits < 64 then word &&& ((1 <<< UInt64.ofNat bits) - 1) else word

/-- Vector `crng<ELL_V>(oVec)`. -/
def crngVector (ell n : Nat) (s : CrngState) : Rvector n × CrngState :=
  if ell = 1 then
    let fill := crngFill 2 ((n + 63) / 64) (by decide)
      (fun id half position =>
        wordUnit n (ccrh s.keyThis id.block ^^^ ccrh s.keyPrev id.block) half
          position)
      s.cRngId 0 (fun _ => 0)
    (wordBits n fill.2,
      { s with cRngId := fill.1, crngPtr := BLOCK_CAPACITY * 8 })
  else
    let fill := crngFill 16 n (by decide)
      (fun id index _ =>
        s.correlated ccrh false id (Fin.ofNat 16 index) &&& ringMask8 ell)
      s.cRngId 0 (fun _ => 0)
    (fun i => fill.2 i.val,
      { s with cRngId := fill.1, crngPtr := BLOCK_CAPACITY * 8 })

/-! ## Values that cancel -/

/-- Three bytes, one at each party, cancel: as bit patterns under xor, or as
elements of every ring under addition. -/
def Cancel (isXor : Bool) (f : ShrRep3Pid -> UInt8) : Prop :=
  if isXor then
    ∀ bit, ((f .P0).toNat.testBit bit ^^ (f .P1).toNat.testBit bit ^^
      (f .P2).toNat.testBit bit) = false
  else ∀ ell ≤ 8, (sum3 fun pid => ringVal ell (f pid)) = 0

/-- The three instances agree on everything but their keys, the keys are
shared around the ring, and the unread part of the cache cancels. -/
structure Synchronised (s : ShrRep3Pid -> CrngState) : Prop where
  id : ∀ pid, (s pid).cRngId = (s .P0).cRngId
  ptr : ∀ pid, (s pid).crngPtr = (s .P0).crngPtr
  isXor : ∀ pid, (s pid).crngIsXor = (s .P0).crngIsXor
  keys : ∀ pid, (s pid).keyPrev = (s pid.PREV).keyThis
  cache : (s .P0).crngPtr < BLOCK_CAPACITY * 8 -> ∀ index,
    Cancel (s .P0).crngIsXor fun pid => (s pid).crngCache index

variable {s : ShrRep3Pid -> CrngState}

/-- Every key is used by two neighbours with opposite signs. -/
theorem Synchronised.correlated
    (sync : Synchronised s)
    (isXor : Bool)
    (id : RngId)
    (index : Fin 16) :
    Cancel isXor fun pid => (s pid).correlated ccrh isXor id index := by
  cases isXor with
  | true =>
      intro bit
      simp only [CrngState.correlated, if_true, sync.keys, ShrRep3Pid.PREV,
        UInt8.toNat_xor, Nat.testBit_xor]
      generalize Nat.testBit _ _ = bit0
      generalize Nat.testBit _ _ = bit1
      generalize Nat.testBit _ _ = bit2
      cases bit0 <;> cases bit1 <;> cases bit2 <;> rfl
  | false =>
      intro ell ellLe
      simp only [CrngState.correlated, Bool.false_eq_true, if_false,
        sync.keys, ringVal_sub ellLe]
      rw [sum3_sub, sum3_PREV fun pid => ringVal ell
        (blockBytes (ccrh (s pid).keyThis id.block) index), sub_self]

theorem Synchronised.prepare
    (sync : Synchronised s)
    (isXor : Bool) :
    Synchronised (fun pid => (s pid).prepare ccrh isXor) ∧
      ((s .P0).prepare ccrh isXor).crngIsXor = isXor ∧
      ((s .P0).prepare ccrh isXor).crngPtr < BLOCK_CAPACITY * 8 := by
  by_cases refill : ((s .P0).crngPtr ≥ BLOCK_CAPACITY * 8 ||
      (s .P0).crngIsXor != isXor) = true
  · have refilled : ∀ pid, (s pid).prepare ccrh isXor =
        { (s pid).refillCrngCache ccrh isXor with
          crngPtr := 0, crngIsXor := isXor } := by
      intro pid
      rw [CrngState.prepare, sync.ptr pid, sync.isXor pid, if_pos refill]
    simp only [refilled, CrngState.refillCrngCache]
    refine ⟨?_, trivial, by decide⟩
    exact {
      id := fun pid => by rw [sync.id pid]
      ptr := fun _ => rfl
      isXor := fun _ => rfl
      keys := sync.keys
      cache := fun _ index => by
        simp only [sync.id]
        exact sync.correlated ccrh isXor (s .P0).cRngId index }
  · have kept : ∀ pid, (s pid).prepare ccrh isXor = s pid := by
      intro pid
      rw [CrngState.prepare, sync.ptr pid, sync.isXor pid, if_neg refill]
    simp only [kept]
    simp only [Bool.or_eq_true, decide_eq_true_eq, bne_iff_ne, not_or,
      not_not, ge_iff_le, not_le] at refill
    exact ⟨sync, refill.2, refill.1⟩

/-- Moving the read position of all three instances keeps them synchronised,
as long as it stays in the cache they share. -/
theorem Synchronised.advance
    (sync : Synchronised s)
    (step : Nat) :
    Synchronised fun pid =>
      { s pid with crngPtr := (s pid).crngPtr + step } where
  id := sync.id
  ptr := fun pid => by simp [sync.ptr pid]
  isXor := sync.isXor
  keys := sync.keys
  cache := fun inside => sync.cache (by
    simp only at inside
    omega)

theorem toNat_bit (byte : UInt8) (bit : Nat) (bitLt : bit < 8) :
    ((byte >>> UInt8.ofNat bit) &&& 1).toNat =
      (byte.toNat.testBit bit).toNat := by
  have small : bit % 256 % 8 = bit := by omega
  rw [Nat.toNat_testBit]
  simp [small, Nat.shiftRight_eq_div_pow]

private theorem ringVal_one_bit (byte : UInt8) (bit : Nat) (bitLt : bit < 8) :
    ringVal 1 ((byte >>> UInt8.ofNat bit) &&& 1) =
      ((byte.toNat.testBit bit).toNat : ZMod 2) := by
  rw [ringVal, toNat_bit byte bit bitLt]

private theorem sum_of_xor_eq_false
    (bit0 bit1 bit2 : Bool)
    (cancel : (bit0 ^^ bit1 ^^ bit2) = false) :
    ((bit0.toNat : ZMod 2) + bit1.toNat + bit2.toNat) = 0 := by
  revert bit0 bit1 bit2
  decide

/-- The three scalars drawn together add up to zero, and the instances stay
synchronised. -/
theorem Synchronised.crng
    (sync : Synchronised s)
    (ellLe : ell ≤ 8) :
    (sum3 fun pid => ringVal ell (crng ccrh ell (s pid)).1) = 0 ∧
      Synchronised fun pid => (Rep3.crng ccrh ell (s pid)).2 := by
  by_cases bits : ell = 1
  · subst ell
    obtain ⟨prepared, mode, inside⟩ := sync.prepare ccrh true
    simp only [Rep3.crng, if_true]
    refine ⟨?_, prepared.advance 1⟩
    have cancel := prepared.cache inside
      (Fin.ofNat 16 (((s .P0).prepare ccrh true).crngPtr / 8))
    simp only [mode] at cancel
    have bitLt : ((s .P0).prepare ccrh true).crngPtr % 8 < 8 :=
      Nat.mod_lt _ (by decide)
    simp only [CrngState.cacheByte, prepared.ptr, ringVal_one_bit _ _ bitLt]
    exact sum_of_xor_eq_false _ _ _ (cancel _)
  · obtain ⟨prepared, mode, inside⟩ := sync.prepare ccrh false
    simp only [Rep3.crng, if_neg bits]
    refine ⟨?_, prepared.advance 8⟩
    have cancel := prepared.cache inside
      (Fin.ofNat 16 (((s .P0).prepare ccrh false).crngPtr / 8))
    simp only [mode] at cancel
    simp only [CrngState.cacheByte, prepared.ptr,
      ringVal_and_ringMask8 ellLe]
    exact cancel ell ellLe

private theorem toNat_mask (bits : Nat) (bitsLt : bits < 64) :
    ((1 <<< UInt64.ofNat bits) - 1 : UInt64).toNat = 2 ^ bits - 1 := by
  have bound : 2 ^ bits < 2 ^ 64 := Nat.pow_lt_pow_right (by omega) bitsLt
  have shifted : (1 <<< UInt64.ofNat bits : UInt64).toNat = 2 ^ bits := by
    have small : bits % 18446744073709551616 % 64 = bits := by omega
    simp only [UInt64.toNat_shiftLeft, UInt64.toNat_one, UInt64.toNat_ofNat',
      Nat.reducePow, small, Nat.shiftLeft_eq, Nat.one_mul]
    exact Nat.mod_eq_of_lt bound
  have positive : 0 < 2 ^ bits := by positivity
  rw [UInt64.toNat_sub_of_le _ _ (by
    rw [UInt64.le_iff_toNat_le, shifted, UInt64.toNat_one]
    omega), shifted, UInt64.toNat_one]

/-- Clearing the tail does not touch the bits of elements. -/
theorem wordUnit_testBit
    (raw : Block)
    (half : Nat)
    (inside : position * 64 + bit < n)
    (bitLt : bit < 64) :
    (wordUnit n raw half position).toNat.testBit bit =
      raw.getLsbD (64 * half + bit) := by
  have word : (⟨raw.extractLsb' (64 * half) 64⟩ : UInt64).toNat.testBit bit =
      raw.getLsbD (64 * half + bit) := by
    show (raw.extractLsb' (64 * half) 64).getLsbD bit = _
    rw [BitVec.getLsbD_extractLsb', decide_eq_true bitLt, Bool.true_and]
  unfold wordUnit
  dsimp only
  generalize sizeEq :
    (if n - position * 64 < 64 then n - position * 64 else 64) = bits
  have bitInside : bit < bits := by
    rw [← sizeEq]
    split <;> omega
  split
  · next partialWord =>
      rw [UInt64.toNat_and, Nat.testBit_and, word, toNat_mask _ partialWord,
        Nat.testBit_two_pow_sub_one, decide_eq_true bitInside,
        Bool.and_true]
  · exact word

theorem toNat_wordBits (words : Nat -> UInt64) (i : Fin n) :
    (wordBits n words i).toNat =
      ((words (i.val / 64)).toNat.testBit (i.val % 64)).toNat := by
  have small : i.val % 64 % 18446744073709551616 % 64 = i.val % 64 := by
    omega
  rw [Nat.toNat_testBit]
  simp [wordBits, small, Nat.shiftRight_eq_div_pow]

private theorem ringVal_wordBits (words : Nat -> UInt64) (i : Fin n) :
    ringVal 1 (wordBits n words i) =
      (((words (i.val / 64)).toNat.testBit (i.val % 64)).toNat : ZMod 2) := by
  rw [ringVal, toNat_wordBits]

/-- The vectors drawn together add up to zero element by element, and the
instances stay synchronised. -/
theorem Synchronised.crngVector
    (sync : Synchronised s)
    (ellLe : ell ≤ 8)
    (n : Nat) :
    (sum3 fun pid => (crngVector ccrh ell n (s pid)).1.val ell) = 0 ∧
      Synchronised fun pid => (Rep3.crngVector ccrh ell n (s pid)).2 := by
  by_cases bits : ell = 1
  · subst ell
    simp only [Rep3.crngVector, if_true]
    constructor
    · funext i
      have inside : i.val / 64 * 64 + i.val % 64 < n := by omega
      have position : 0 ≤ i.val / 64 ∧ i.val / 64 < (n + 63) / 64 := by omega
      show ringVal 1 _ + ringVal 1 _ + ringVal 1 _ = (0 : ZMod 2)
      simp only [ringVal_wordBits, crngFill_snd, if_pos position, sync.id,
        wordUnit_testBit _ _ inside (Nat.mod_lt _ (by decide)), sync.keys,
        BitVec.getLsbD_xor, ShrRep3Pid.PREV]
      apply sum_of_xor_eq_false
      generalize BitVec.getLsbD _ _ = bit0
      generalize BitVec.getLsbD _ _ = bit1
      generalize BitVec.getLsbD _ _ = bit2
      cases bit0 <;> cases bit1 <;> cases bit2 <;> rfl
    · exact {
        id := fun pid => by simp only [crngFill_fst, sync.id]
        ptr := fun _ => rfl
        isXor := sync.isXor
        keys := sync.keys
        cache := fun inside => absurd inside (Nat.lt_irrefl _) }
  · simp only [Rep3.crngVector, if_neg bits]
    constructor
    · funext i
      have position : 0 ≤ i.val ∧ i.val < n := ⟨Nat.zero_le _, i.isLt⟩
      show ringVal ell _ + ringVal ell _ + ringVal ell _ = 0
      simp only [crngFill_snd, if_pos position, sync.id,
        ringVal_and_ringMask8 ellLe]
      exact sync.correlated ccrh false _ _ ell ellLe
    · exact {
        id := fun pid => by simp only [crngFill_fst, sync.id]
        ptr := fun _ => rfl
        isXor := sync.isXor
        keys := sync.keys
        cache := fun inside => absurd inside (Nat.lt_irrefl _) }

end

end Rep3
end Mpmt
