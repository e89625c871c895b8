import Mpmt.Rvector.Kernels

/-!
# Dot products and sums

The accumulators have 64 bits and wrap, which loses nothing modulo two to the
width of an element.  Whole words are counted for `ELL = 1`: their padding is
zero, so it adds nothing.
-/

namespace Mpmt

open BitStream Lanes RingMath

/-- Sums over blocks of `w`. -/
theorem sum_blocks [AddCommMonoid M] (w count : Nat) (g : Nat -> M) :
    (∑ k ∈ Finset.range count, ∑ j ∈ Finset.range w, g (w * k + j)) =
      ∑ i ∈ Finset.range (w * count), g i := by
  induction count with
  | zero => simp
  | succ count inductionHypothesis =>
      rw [Finset.sum_range_succ, inductionHypothesis, Nat.mul_succ, Finset.sum_range_add]

theorem sum_map_range [AddCommMonoid M] (n : Nat) (g : Nat -> M) :
    ((List.range n).map g).sum = ∑ i ∈ Finset.range n, g i := by
  induction n with
  | zero => simp
  | succ n inductionHypothesis =>
      rw [List.range_succ, List.map_append, List.sum_append, inductionHypothesis,
        Finset.sum_range_succ, List.map_singleton, List.sum_singleton]

namespace Rvector

section

variable {ell : Nat} {v a b : Rvector}

/-! ## Accumulators -/

theorem longVal_foldl_range
    (ellLe : ell ≤ 8)
    (count : Nat)
    (term : Nat -> UInt64)
    (init : UInt64) :
    longVal ell ((List.range count).foldl (fun acc i => acc + term i) init) =
      longVal ell init + ∑ i ∈ Finset.range count, longVal ell (term i) := by
  induction count with
  | zero => simp
  | succ count inductionHypothesis =>
      rw [List.range_succ, List.foldl_append, List.foldl_cons, List.foldl_nil,
        longVal_add (by omega), inductionHypothesis, Finset.sum_range_succ, add_assoc]

theorem longVal_accumulate
    (ellLe : ell ≤ 8)
    (count : Nat)
    (term : Nat -> UInt64) :
    longVal ell (accumulate count term) = ∑ i ∈ Finset.range count, longVal ell (term i) := by
  rw [accumulate, longVal_foldl_range ellLe, longVal_zero, zero_add]

theorem longVal_ofNat (ellLe : ell ≤ 8) (x : Nat) :
    longVal ell (UInt64.ofNat x) = (x : ZMod (2 ^ ell)) := by
  rw [longVal, UInt64.toNat_ofNat', cast_mod_two_pow (by omega)]

/-- A byte that is a given ring element. -/
structure IsElement (ell : Nat) (byte : UInt8) (value : ZMod (2 ^ ell)) : Prop where
  canonical : RingMath.Canonical ell byte
  value : ringVal ell byte = value

theorem isElement_ringElement (ellLe : ell ≤ 8) (acc : UInt64) :
    IsElement ell (ringElement ell acc) (longVal ell acc) := by
  rw [ringElement]
  split
  · next eight =>
      subst eight
      refine ⟨UInt8.toNat_lt _, ?_⟩
      rw [ringVal, longVal, UInt64.toNat_toUInt8, cast_mod_two_pow ellLe]
  · exact ⟨canonical_toUInt8_and_ringMask8 ellLe acc, ringVal_toUInt8_and_ringMask8 ellLe acc⟩

/-- The low bit of an accumulator. -/
theorem isElement_and_one (acc : UInt64) :
    IsElement 1 (acc &&& 1).toUInt8 (longVal 1 acc) :=
  ⟨canonical_toUInt8_and_ringMask8 (by decide) acc, ringVal_toUInt8_and_ringMask8 (by decide) acc⟩

/-! ## Bits -/

theorem cast_popcount (w : Nat) :
    (popcount w : ZMod (2 ^ 1)) =
      ∑ j ∈ Finset.range 64, ((w.testBit j).toNat : ZMod (2 ^ 1)) := by
  rw [popcount, sum_map_range]
  push_cast
  rfl

/-- The ones of whole words are those of the elements. -/
theorem sum_popcount
    (bits : Nat -> Bool)
    {words : Nat -> Nat}
    {n : Nat}
    (isBit : ∀ k, ∀ j < 64, (words k).testBit j = bits (64 * k + j))
    (padding : ∀ i, n ≤ i -> bits i = false) :
    (∑ k ∈ Finset.range ((n + 63) / 64), (popcount (words k) : ZMod (2 ^ 1))) =
      ∑ i ∈ Finset.range n, ((bits i).toNat : ZMod (2 ^ 1)) := by
  have count : ∀ k, (popcount (words k) : ZMod (2 ^ 1)) =
      ∑ j ∈ Finset.range 64, ((bits (64 * k + j)).toNat : ZMod (2 ^ 1)) := by
    intro k
    rw [cast_popcount]
    exact Finset.sum_congr rfl fun j inside => by rw [isBit k j (Finset.mem_range.mp inside)]
  simp only [count]
  rw [sum_blocks 64 ((n + 63) / 64) fun i => ((bits i).toNat : ZMod (2 ^ 1))]
  symm
  apply Finset.sum_subset
  · intro i inside
    rw [Finset.mem_range] at inside ⊢
    omega
  · intro i _ outside
    rw [padding i (by simpa using outside)]
    rfl

theorem bit_block (v : Rvector) (k : Nat) {j : Nat} (inside : j < 64) :
    v.bit (64 * k + j) = (v.word k).testBit j := by
  rw [bit, Nat.mul_add_div (by decide), Nat.div_eq_of_lt inside, Nat.add_zero, Nat.mul_add_mod,
    Nat.mod_eq_of_lt inside]

/-! ## Dot products -/

/-- `dot` is the sum of the products. -/
theorem isElement_dotKernel
    (ellLe : ell ≤ 8)
    (canonical : a.Canonical ell) :
    IsElement ell (dotKernel ell a b)
      (∑ i ∈ Finset.range a.n, element ell a i * element ell b i) := by
  by_cases one : ell = 1
  · subst one
    have words : a.data.length = (a.n + 63) / 64 := canonical.size
    have value : longVal 1
        (accumulate a.data.length fun i => UInt64.ofNat (popcount (a.word i &&& b.word i))) =
          ∑ i ∈ Finset.range a.n, element 1 a i * element 1 b i := by
      rw [longVal_accumulate ellLe, words]
      simp only [longVal_ofNat ellLe]
      rw [sum_popcount fun i => a.bit i && b.bit i]
      · refine Finset.sum_congr rfl fun i _ => ?_
        rw [element_one, element_one]
        cases a.bit i <;> cases b.bit i <;> decide
      · intro k j inside
        rw [Nat.testBit_and, bit_block a k inside, bit_block b k inside]
      · intro i outside
        have padding : a.bit i = false := canonical.padding rfl i outside
        rw [padding, Bool.false_and]
    rw [dotKernel, if_pos rfl, ← value]
    exact isElement_and_one _
  · have value : longVal ell (accumulate a.n fun i => UInt64.ofNat (a.word i * b.word i)) =
        ∑ i ∈ Finset.range a.n, element ell a i * element ell b i := by
      rw [longVal_accumulate ellLe]
      refine Finset.sum_congr rfl fun i _ => ?_
      rw [longVal_ofNat ellLe, Nat.cast_mul, element_of_ne one ellLe, element_of_ne one ellLe]
    rw [dotKernel, if_neg one, ← value]
    exact isElement_ringElement ellLe _

/-! ## Horizontal sums -/

theorem sum_lanes (word : Nat -> Nat) (bounded : ∀ i, word i < 2 ^ 8) (q l : Nat) :
    sadEpu8 (fun j => word (32 * q + j)) (fun _ => 0) l % 2 ^ 16 =
      ∑ j ∈ Finset.range 8, word (32 * q + (8 * l + j)) := by
  rw [sadEpu8_zero, sum_map_range, Nat.mod_eq_of_lt]
  refine Nat.lt_of_le_of_lt (Finset.sum_le_sum (g := fun _ => 255) fun j _ =>
    Nat.le_of_lt_succ (bounded _)) ?_
  simp

/-- `reduce` is the sum of the elements. -/
theorem isElement_reduce
    (ellLe : ell ≤ 8)
    (canonical : a.Canonical ell) :
    IsElement ell (reduce ell a) (∑ i ∈ Finset.range a.n, element ell a i) := by
  by_cases one : ell = 1
  · subst one
    have words : a.data.length = (a.n + 63) / 64 := canonical.size
    have value : longVal 1 (accumulate a.data.length fun i => UInt64.ofNat (popcount (a.word i))) =
        ∑ i ∈ Finset.range a.n, element 1 a i := by
      rw [longVal_accumulate ellLe, words]
      simp only [longVal_ofNat ellLe]
      rw [sum_popcount a.bit (fun k j inside => (bit_block a k inside).symm)
        fun i outside => canonical.padding rfl i outside]
      exact Finset.sum_congr rfl fun i _ => (element_one a i).symm
    rw [reduce, if_pos rfl, ← value]
    exact isElement_and_one _
  · have bounded : ∀ i, a.word i < 2 ^ 8 := by
      intro i
      rw [← wordBits_of_ne one]
      exact canonical.bounded i
    rw [reduce, if_neg one]
    convert isElement_ringElement ellLe _ using 1
    rw [longVal_foldl_range ellLe, longVal_accumulate ellLe]
    have block : ∀ q, longVal ell
        (UInt64.ofNat (sadEpu8 (fun j => a.word (32 * q + j)) (fun _ => 0) 0 % 2 ^ 16) +
          UInt64.ofNat (sadEpu8 (fun j => a.word (32 * q + j)) (fun _ => 0) 1 % 2 ^ 16) +
          UInt64.ofNat (sadEpu8 (fun j => a.word (32 * q + j)) (fun _ => 0) 2 % 2 ^ 16) +
          UInt64.ofNat (sadEpu8 (fun j => a.word (32 * q + j)) (fun _ => 0) 3 % 2 ^ 16)) =
        ∑ i ∈ Finset.range 32, (a.word (32 * q + i) : ZMod (2 ^ ell)) := by
      intro q
      rw [longVal_add (by omega), longVal_add (by omega), longVal_add (by omega),
        longVal_ofNat ellLe, longVal_ofNat ellLe, longVal_ofNat ellLe, longVal_ofNat ellLe,
        sum_lanes a.word bounded, sum_lanes a.word bounded, sum_lanes a.word bounded,
        sum_lanes a.word bounded]
      push_cast
      rw [← sum_blocks 8 4 fun i => (a.word (32 * q + i) : ZMod (2 ^ ell))]
      simp [Finset.sum_range_succ]
    simp only [block, longVal_ofNat ellLe]
    rw [sum_blocks 32 (a.n / 32) fun i => (a.word i : ZMod (2 ^ ell)), ← Finset.sum_range_add,
      Nat.add_sub_cancel' (Nat.mul_div_le a.n 32)]
    exact Finset.sum_congr rfl fun i _ => element_of_ne one ellLe a i

end

end Rvector
end Mpmt
