import Mathlib.Analysis.SpecialFunctions.Log.Base
import Mathlib.Analysis.Complex.ExponentialBounds
import Mathlib.Algebra.Order.Round
import Mathlib.Tactic

/-!
# Bloom filter parameters

`bf_param` chooses a filter size and a number of hash functions for a set size
and a false-positive rate.  Its checks admit rates for which the protocols have
no classes: the exact condition on the set size and the rate is given here.
The logarithms and the division are those of the real numbers.
-/

namespace Mpmt
namespace Bloom

/-! ## The computation -/

/-- Python's `round`: to the nearest integer, and to the even one of two. -/
noncomputable def pyRound (x : ℝ) : ℤ :=
  if Int.fract x < 1 / 2 then ⌊x⌋
  else if 1 / 2 < Int.fract x then ⌊x⌋ + 1
  else if Even ⌊x⌋ then ⌊x⌋
  else ⌊x⌋ + 1

/-- A `ValueError` and its message. -/
structure ValueError where
  message : String
  deriving DecidableEq, Repr

/-- `math.log2`. -/
noncomputable def mathLog2 (x : ℝ) : Except ValueError ℝ :=
  if 0 < x then .ok (Real.logb 2 x) else .error ⟨"math domain error"⟩

/-- `math.log`. -/
noncomputable def mathLog (x : ℝ) : Except ValueError ℝ :=
  if 0 < x then .ok (Real.log x) else .error ⟨"math domain error"⟩

def BF_SET_SIZE_MIN : ℤ := 2 ^ 10
def BF_SET_SIZE_MAX : ℤ := 2 ^ 25
def BF_FPR_EXPONENT_MIN : ℤ := -12
def BF_FPR_EXPONENT_MAX : ℤ := -1
def BF_FPR_MANTISSA_MIN : ℝ := 1
def BF_FPR_MANTISSA_MAX : ℝ := 10

/-- What `bf_param` returns. -/
structure BfParam where
  bf_size : ℤ
  bf_size_log2up : ℤ
  hf_num : ℤ
  hf_num_log2up : ℤ

/-- The part of `bf_param` behind the range checks. -/
noncomputable def bfParamOfRate (set_size : ℤ) (fpr : ℝ) :
    Except ValueError BfParam := do
  let ln2 ← mathLog 2
  let log_fpr ← mathLog fpr
  let bf_size_raw := set_size * (-log_fpr / (ln2 * ln2))
  let bf_size := pyRound bf_size_raw
  let bf_size_log2 ← mathLog2 bf_size
  let hf_num := pyRound (bf_size_raw / set_size * ln2)
  let hf_num_log2 ← mathLog2 hf_num
  return {
    bf_size := bf_size
    bf_size_log2up := ⌈bf_size_log2⌉
    hf_num := hf_num
    hf_num_log2up := ⌊hf_num_log2⌋ + 1 }

open Classical in
/-- `bf_param`.  Of the message about the mantissa, which shows the argument,
only the fixed part is kept. -/
noncomputable def bf_param
    (set_size : ℤ)
    (fpr_mantissa : ℝ)
    (fpr_exponent : ℤ) : Except ValueError BfParam :=
  if set_size < BF_SET_SIZE_MIN then
    .error ⟨"set_size must be >= 1024"⟩
  else if set_size > BF_SET_SIZE_MAX then
    .error ⟨"set_size must be <= 33554432"⟩
  else if ¬ (BF_FPR_EXPONENT_MIN ≤ fpr_exponent ∧
      fpr_exponent ≤ BF_FPR_EXPONENT_MAX) then
    .error ⟨"fpr_exponent must be in [-12, -1]"⟩
  else if ¬ (BF_FPR_MANTISSA_MIN ≤ fpr_mantissa ∧
      fpr_mantissa < BF_FPR_MANTISSA_MAX) then
    .error ⟨"fpr_mantissa must be in [1.0, 10.0)"⟩
  else bfParamOfRate set_size (fpr_mantissa * 10 ^ fpr_exponent)

/-! ## What the protocols demand -/

/-- The ranges for which `ring_mod`, `Emp2::mod`, `DpfDealer`, `DpfEvaluator`,
`ShrAdd2` and `ring_conv_vec` work. -/
structure BfParam.Usable (p : BfParam) : Prop where
  size_pos : 1 ≤ p.bf_size
  size_lt : p.bf_size < 2 ^ p.bf_size_log2up.toNat
  add2_ge : 13 ≤ p.bf_size_log2up
  add2_le : p.bf_size_log2up ≤ 31
  num_pos : 1 ≤ p.hf_num
  num_lt : p.hf_num < 2 ^ p.hf_num_log2up.toNat
  root_ge : 2 ≤ p.hf_num_log2up
  root_le : p.hf_num_log2up ≤ 6

/-- `bf_param` returns parameters that every protocol accepts. -/
def ReturnsUsable (set_size : ℤ) (fpr_mantissa : ℝ) (fpr_exponent : ℤ) : Prop :=
  ∃ p, bf_param set_size fpr_mantissa fpr_exponent = .ok p ∧ p.Usable

/-- The rate at which a filter for `set_size` elements has exactly `size`
bits. -/
noncomputable def rateOfSize (set_size : ℤ) (size : ℝ) : ℝ :=
  Real.exp (-(size * Real.log 2 ^ 2 / set_size))

/-- At least two hash functions, more than `2 ^ 12` bits, and no size that
rounds to a power of two. -/
structure RateFits (set_size : ℤ) (fpr : ℝ) : Prop where
  twoHashes : fpr ≤ 2 ^ (-(3 / 2) : ℝ)
  large : fpr < rateOfSize set_size (2 ^ 12 + 1 / 2)
  noPower : ∀ k : ℕ, 13 ≤ k -> k ≤ 30 ->
    fpr < rateOfSize set_size (2 ^ k + 1 / 2) ∨
      rateOfSize set_size (2 ^ k - 1 / 2) < fpr

/-! ## Rounding -/

/-- An even integer catches both halves around it. -/
theorem pyRound_le_iff_of_even
    {n : ℤ}
    (even : Even n)
    (x : ℝ) : pyRound x ≤ n ↔ x ≤ n + 1 / 2 := by
  have split := Int.floor_add_fract x
  have nonneg := Int.fract_nonneg x
  have lt_one := Int.fract_lt_one x
  unfold pyRound
  rcases lt_trichotomy ⌊x⌋ n with below | same | above
  · have whole : (⌊x⌋ : ℝ) + 1 ≤ n := by exact_mod_cast below
    refine iff_of_true ?_ (by linarith)
    split_ifs <;> omega
  · have whole : (⌊x⌋ : ℝ) = n := by exact_mod_cast same
    split_ifs with lower upper floorEven
    · exact iff_of_true (by omega) (by linarith)
    · exact iff_of_false (by omega) (by linarith)
    · exact iff_of_true (by omega) (by linarith)
    · exact absurd (same ▸ even) floorEven
  · have whole : (n : ℝ) + 1 ≤ ⌊x⌋ := by exact_mod_cast above
    refine iff_of_false ?_ (by linarith)
    split_ifs <;> omega

theorem le_pyRound_iff_of_even
    {n : ℤ}
    (even : Even n)
    (x : ℝ) : n ≤ pyRound x ↔ n - 1 / 2 ≤ x := by
  have split := Int.floor_add_fract x
  have nonneg := Int.fract_nonneg x
  have lt_one := Int.fract_lt_one x
  unfold pyRound
  rcases lt_trichotomy (⌊x⌋ + 1) n with below | same | above
  · have whole : (⌊x⌋ : ℝ) + 1 + 1 ≤ n := by exact_mod_cast below
    refine iff_of_false ?_ (by linarith)
    split_ifs <;> omega
  · have whole : (⌊x⌋ : ℝ) + 1 = n := by exact_mod_cast same
    split_ifs with lower upper floorEven
    · exact iff_of_false (by omega) (by linarith)
    · exact iff_of_true (by omega) (by linarith)
    · exact absurd (same ▸ floorEven.add_one) (Int.not_odd_iff_even.mpr even)
    · exact iff_of_true (by omega) (by linarith)
  · have whole : (n : ℝ) ≤ ⌊x⌋ := by exact_mod_cast Int.lt_add_one_iff.mp above
    refine iff_of_true ?_ (by linarith)
    split_ifs <;> omega

/-! ## Logarithms of the results -/

theorem ceil_log2 (n : ℕ) : ⌈Real.logb 2 (n : ℤ)⌉ = Nat.clog 2 n := by
  have exact := Real.ceil_logb_natCast (b := 2) (Nat.cast_nonneg (α := ℝ) n)
  rw [Int.clog_natCast] at exact
  simpa using exact

theorem floor_log2 (n : ℕ) : ⌊Real.logb 2 (n : ℤ)⌋ = Nat.log 2 n := by
  have exact := Real.floor_logb_natCast (b := 2) (Nat.cast_nonneg (α := ℝ) n)
  rw [Int.log_natCast] at exact
  simpa using exact

/-- What the protocols demand, in terms of the two rounded numbers. -/
theorem usable_iff (n h : ℕ) :
    (BfParam.mk n ⌈Real.logb 2 (n : ℤ)⌉ h (⌊Real.logb 2 (h : ℤ)⌋ + 1)).Usable ↔
      2 ^ 12 < n ∧ n ≤ 2 ^ 31 ∧ (∀ k, n ≠ 2 ^ k) ∧ 2 ≤ h ∧ h < 2 ^ 6 := by
  rw [ceil_log2, floor_log2]
  constructor
  · rintro ⟨-, size_lt, add2_ge, add2_le, num_pos, -, root_ge, root_le⟩
    dsimp only at size_lt add2_ge add2_le num_pos root_ge root_le
    have size_lt : n < 2 ^ Nat.clog 2 n := by exact_mod_cast size_lt
    have add2_ge : 12 < Nat.clog 2 n := by omega
    have add2_le : Nat.clog 2 n ≤ 31 := by omega
    have root_ge : 1 ≤ Nat.log 2 h := by omega
    have root_le : Nat.log 2 h < 6 := by omega
    refine ⟨(Nat.lt_clog_iff_pow_lt one_lt_two).mp add2_ge,
      (Nat.clog_le_iff_le_pow one_lt_two).mp add2_le, ?_,
      (Nat.le_log_iff_pow_le one_lt_two (by omega)).mp root_ge,
      (Nat.log_lt_iff_lt_pow one_lt_two (by omega)).mp root_le⟩
    rintro k rfl
    rw [Nat.clog_pow 2 k one_lt_two] at size_lt
    exact lt_irrefl _ size_lt
  · rintro ⟨large, small, noPower, two, few⟩
    have add2_ge := (Nat.lt_clog_iff_pow_lt one_lt_two).mpr large
    have add2_le := (Nat.clog_le_iff_le_pow one_lt_two).mpr small
    have size_lt := lt_of_le_of_ne (Nat.le_pow_clog one_lt_two n)
      (noPower _)
    have root_ge : 1 ≤ Nat.log 2 h :=
      (Nat.le_log_iff_pow_le one_lt_two (by omega)).mpr two
    have root_le : Nat.log 2 h < 6 :=
      (Nat.log_lt_iff_lt_pow one_lt_two (by omega)).mpr few
    have num_lt : h < 2 ^ (Nat.log 2 h + 1) :=
      Nat.lt_pow_succ_log_self one_lt_two h
    constructor <;> dsimp only
    · omega
    · exact_mod_cast size_lt
    · omega
    · omega
    · omega
    · have positive : ((Nat.log 2 h : ℤ) + 1).toNat = Nat.log 2 h + 1 := by
        omega
      rw [positive]
      exact_mod_cast num_lt
    · omega
    · omega

/-! ## The computation on a rate -/

section

variable {set_size : ℤ} {fpr : ℝ}

/-- `bf_size_raw`. -/
noncomputable def sizeRaw (set_size : ℤ) (fpr : ℝ) : ℝ :=
  set_size * (-Real.log fpr / (Real.log 2 * Real.log 2))

/-- The number of hash functions before rounding. -/
noncomputable def numRaw (fpr : ℝ) : ℝ := -Real.log fpr / Real.log 2

theorem log_two_pos : 0 < Real.log 2 := Real.log_pos one_lt_two

theorem numRaw_eq
    (sizePos : 0 < set_size)
    (fpr : ℝ) :
    sizeRaw set_size fpr / set_size * Real.log 2 = numRaw fpr := by
  have ln2 := log_two_pos.ne'
  have size : (set_size : ℝ) ≠ 0 := by exact_mod_cast sizePos.ne'
  unfold sizeRaw numRaw
  field_simp

/-- `bf_param` succeeds exactly when both rounded numbers are positive. -/
theorem bfParamOfRate_eq_ok_iff
    (sizePos : 0 < set_size)
    (fprPos : 0 < fpr)
    (p : BfParam) :
    bfParamOfRate set_size fpr = .ok p ↔
      0 < pyRound (sizeRaw set_size fpr) ∧ 0 < pyRound (numRaw fpr) ∧
      p = {
        bf_size := pyRound (sizeRaw set_size fpr)
        bf_size_log2up := ⌈Real.logb 2 (pyRound (sizeRaw set_size fpr))⌉
        hf_num := pyRound (numRaw fpr)
        hf_num_log2up := ⌊Real.logb 2 (pyRound (numRaw fpr))⌋ + 1 } := by
  have ln2 : mathLog 2 = .ok (Real.log 2) := if_pos two_pos
  have log_fpr : mathLog fpr = .ok (Real.log fpr) := if_pos fprPos
  have num := numRaw_eq sizePos fpr
  unfold sizeRaw at num
  simp only [bfParamOfRate, ln2, log_fpr, bind, Except.bind, num,
    sizeRaw, mathLog2, Int.cast_pos]
  generalize pyRound _ = n
  generalize pyRound _ = h
  by_cases size : 0 < n
  · by_cases hashes : 0 < h
    · simp [size, hashes, pure, Except.pure, eq_comm]
    · simp [size, hashes]
  · simp [size]

/-- Usable parameters, in terms of the numbers before rounding. -/
theorem usable_raw_iff
    (sizePos : 0 < set_size)
    (fprPos : 0 < fpr) :
    (∃ p, bfParamOfRate set_size fpr = .ok p ∧ p.Usable) ↔
      2 ^ 12 < pyRound (sizeRaw set_size fpr) ∧
      pyRound (sizeRaw set_size fpr) ≤ 2 ^ 31 ∧
      (∀ k : ℕ, pyRound (sizeRaw set_size fpr) ≠ 2 ^ k) ∧
      2 ≤ pyRound (numRaw fpr) ∧ pyRound (numRaw fpr) < 2 ^ 6 := by
  simp only [bfParamOfRate_eq_ok_iff sizePos fprPos]
  generalize pyRound (sizeRaw set_size fpr) = n
  generalize pyRound (numRaw fpr) = h
  constructor
  · rintro ⟨p, ⟨size, hashes, rfl⟩, usable⟩
    lift n to ℕ using size.le
    lift h to ℕ using hashes.le
    exact_mod_cast (usable_iff n h).mp usable
  · rintro ⟨large, small, noPower, two, few⟩
    lift n to ℕ using by omega
    lift h to ℕ using by omega
    refine ⟨_, ⟨by omega, by omega, rfl⟩, (usable_iff n h).mpr ?_⟩
    exact_mod_cast (⟨large, small, noPower, two, few⟩ : _ ∧ _ ∧ _ ∧ _ ∧ _)

/-! ## From sizes to rates -/

theorem sizeRaw_eq (set_size : ℤ) (fpr : ℝ) :
    sizeRaw set_size fpr = set_size * -Real.log fpr / Real.log 2 ^ 2 := by
  unfold sizeRaw
  ring

theorem lt_sizeRaw_iff
    (sizePos : 0 < set_size)
    (fprPos : 0 < fpr)
    (size : ℝ) :
    size < sizeRaw set_size fpr ↔ fpr < rateOfSize set_size size := by
  have ln2 : 0 < Real.log 2 ^ 2 := pow_pos log_two_pos 2
  have sizePos : (0 : ℝ) < set_size := by exact_mod_cast sizePos
  rw [rateOfSize, ← Real.log_lt_iff_lt_exp fprPos, sizeRaw_eq,
    lt_div_iff₀ ln2, lt_neg, div_lt_iff₀ sizePos, mul_comm (set_size : ℝ)]

theorem sizeRaw_lt_iff
    (sizePos : 0 < set_size)
    (fprPos : 0 < fpr)
    (size : ℝ) :
    sizeRaw set_size fpr < size ↔ rateOfSize set_size size < fpr := by
  have ln2 : 0 < Real.log 2 ^ 2 := pow_pos log_two_pos 2
  have sizePos : (0 : ℝ) < set_size := by exact_mod_cast sizePos
  rw [rateOfSize, ← Real.lt_log_iff_exp_lt fprPos, sizeRaw_eq,
    div_lt_iff₀ ln2, neg_lt, lt_div_iff₀ sizePos, mul_comm (set_size : ℝ)]

theorem even_two_pow (positive : 1 ≤ k) : Even ((2 : ℤ) ^ k) :=
  (even_two).pow_of_ne_zero (by omega)

/-- More than `2 ^ 12` bits. -/
theorem large_iff
    (sizePos : 0 < set_size)
    (fprPos : 0 < fpr) :
    2 ^ 12 < pyRound (sizeRaw set_size fpr) ↔
      fpr < rateOfSize set_size (2 ^ 12 + 1 / 2) := by
  have rounded := pyRound_le_iff_of_even (even_two_pow (k := 12) (by decide))
    (sizeRaw set_size fpr)
  rw [← not_le, rounded, not_le, ← lt_sizeRaw_iff sizePos fprPos]
  norm_num

/-- The size rounds to a power of two in a window of rates. -/
theorem ne_two_pow_iff
    (sizePos : 0 < set_size)
    (fprPos : 0 < fpr)
    (positive : 1 ≤ k) :
    pyRound (sizeRaw set_size fpr) ≠ 2 ^ k ↔
      fpr < rateOfSize set_size (2 ^ k + 1 / 2) ∨
        rateOfSize set_size (2 ^ k - 1 / 2) < fpr := by
  have upper := pyRound_le_iff_of_even (even_two_pow positive)
    (sizeRaw set_size fpr)
  have lower := le_pyRound_iff_of_even (even_two_pow positive)
    (sizeRaw set_size fpr)
  push_cast at upper lower
  rw [← lt_sizeRaw_iff sizePos fprPos, ← sizeRaw_lt_iff sizePos fprPos,
    ← not_le, ← not_le, ← upper, ← lower, ← not_and_or, ← le_antisymm_iff]

/-- At least two hash functions. -/
theorem twoHashes_iff (fprPos : 0 < fpr) :
    2 ≤ pyRound (numRaw fpr) ↔ fpr ≤ 2 ^ (-(3 / 2) : ℝ) := by
  have power : (0 : ℝ) < 2 ^ (-(3 / 2) : ℝ) := by positivity
  have half : ((2 : ℤ) : ℝ) - 1 / 2 = 3 / 2 := by norm_num
  rw [le_pyRound_iff_of_even even_two, half, numRaw,
    ← Real.log_le_log_iff fprPos power, Real.log_rpow two_pos,
    le_div_iff₀ log_two_pos, le_neg, neg_mul]

/-! ## Bounds that always hold -/

/-- Twelve decimal digits are less than forty binary ones. -/
theorem neg_log_le (rateGe : (10 : ℝ) ^ (-12 : ℤ) ≤ fpr) :
    -Real.log fpr ≤ 40 * Real.log 2 := by
  have digits : (2 : ℝ) ^ (-40 : ℤ) ≤ fpr := by
    refine le_trans ?_ rateGe
    norm_num
  have logs := Real.log_le_log (by positivity) digits
  rw [Real.log_zpow] at logs
  push_cast at logs
  linarith

theorem sizeRaw_small
    (sizePos : 0 < set_size)
    (sizeLe : set_size ≤ 2 ^ 25)
    (rateGe : (10 : ℝ) ^ (-12 : ℤ) ≤ fpr) :
    sizeRaw set_size fpr < 2 ^ 31 - 1 / 2 := by
  have ln2 := Real.log_two_gt_d9
  have log := neg_log_le rateGe
  have size : (set_size : ℝ) ≤ 2 ^ 25 := by exact_mod_cast sizeLe
  have sizePos : (0 : ℝ) < set_size := by exact_mod_cast sizePos
  rw [sizeRaw_eq, div_lt_iff₀ (by positivity)]
  calc (set_size : ℝ) * -Real.log fpr
      ≤ set_size * (40 * Real.log 2) :=
        mul_le_mul_of_nonneg_left log sizePos.le
    _ ≤ 2 ^ 25 * (40 * Real.log 2) :=
        mul_le_mul_of_nonneg_right size (by positivity)
    _ < (2 ^ 31 - 1 / 2) * Real.log 2 ^ 2 := by nlinarith

theorem numRaw_small (rateGe : (10 : ℝ) ^ (-12 : ℤ) ≤ fpr) :
    numRaw fpr ≤ 40 := by
  rw [numRaw, div_le_iff₀ log_two_pos]
  exact neg_log_le rateGe

/-! ## The main result -/

/-- Behind the range checks `bf_param` computes on the rate. -/
theorem bf_param_eq
    (sizeGe : BF_SET_SIZE_MIN ≤ set_size)
    (sizeLe : set_size ≤ BF_SET_SIZE_MAX)
    (exponentGe : BF_FPR_EXPONENT_MIN ≤ fpr_exponent)
    (exponentLe : fpr_exponent ≤ BF_FPR_EXPONENT_MAX)
    (mantissaGe : BF_FPR_MANTISSA_MIN ≤ fpr_mantissa)
    (mantissaLt : fpr_mantissa < BF_FPR_MANTISSA_MAX) :
    bf_param set_size fpr_mantissa fpr_exponent =
      bfParamOfRate set_size (fpr_mantissa * 10 ^ fpr_exponent) := by
  rw [bf_param, if_neg (not_lt.mpr sizeGe), if_neg (not_lt.mpr sizeLe),
    if_neg (not_not.mpr ⟨exponentGe, exponentLe⟩),
    if_neg (not_not.mpr ⟨mantissaGe, mantissaLt⟩)]

theorem rate_ge
    (exponentGe : BF_FPR_EXPONENT_MIN ≤ fpr_exponent)
    (mantissaGe : BF_FPR_MANTISSA_MIN ≤ fpr_mantissa) :
    (10 : ℝ) ^ (-12 : ℤ) ≤ fpr_mantissa * 10 ^ fpr_exponent := by
  have power : (10 : ℝ) ^ (-12 : ℤ) ≤ 10 ^ fpr_exponent :=
    zpow_le_zpow_right₀ (by norm_num) exponentGe
  have scaled := mul_le_mul mantissaGe power (by positivity)
    (zero_le_one.trans mantissaGe)
  rwa [BF_FPR_MANTISSA_MIN, one_mul] at scaled

/-- `bf_param` returns parameters that the protocols accept exactly for the
rates of `RateFits`. -/
theorem returnsUsable_iff
    (sizeGe : BF_SET_SIZE_MIN ≤ set_size)
    (sizeLe : set_size ≤ BF_SET_SIZE_MAX)
    (exponentGe : BF_FPR_EXPONENT_MIN ≤ fpr_exponent)
    (exponentLe : fpr_exponent ≤ BF_FPR_EXPONENT_MAX)
    (mantissaGe : BF_FPR_MANTISSA_MIN ≤ fpr_mantissa)
    (mantissaLt : fpr_mantissa < BF_FPR_MANTISSA_MAX) :
    ReturnsUsable set_size fpr_mantissa fpr_exponent ↔
      RateFits set_size (fpr_mantissa * 10 ^ fpr_exponent) := by
  have rateGe := rate_ge exponentGe mantissaGe
  have sizePos : 0 < set_size := lt_of_lt_of_le (by decide) sizeGe
  rw [ReturnsUsable, bf_param_eq sizeGe sizeLe exponentGe exponentLe mantissaGe
    mantissaLt]
  generalize fpr_mantissa * 10 ^ fpr_exponent = fpr at rateGe
  have fprPos : 0 < fpr := lt_of_lt_of_le (by positivity) rateGe
  have small : pyRound (sizeRaw set_size fpr) < 2 ^ 31 := by
    have below := sizeRaw_small sizePos sizeLe rateGe
    have rounded := le_pyRound_iff_of_even (even_two_pow (k := 31) (by decide))
      (sizeRaw set_size fpr)
    rw [← not_le, rounded, Int.cast_pow, Int.cast_ofNat]
    exact not_le.mpr below
  have few : pyRound (numRaw fpr) < 2 ^ 6 := by
    have most : pyRound (numRaw fpr) ≤ 40 :=
      (pyRound_le_iff_of_even (by decide) _).mpr
        ((numRaw_small rateGe).trans (by norm_num))
    omega
  rw [usable_raw_iff sizePos fprPos]
  constructor
  · rintro ⟨large, -, noPower, two, -⟩
    exact {
      twoHashes := (twoHashes_iff fprPos).mp two
      large := (large_iff sizePos fprPos).mp large
      noPower := fun k kGe _ =>
        (ne_two_pow_iff sizePos fprPos (by omega)).mp (noPower k) }
  · intro fits
    have large := (large_iff sizePos fprPos).mpr fits.large
    refine ⟨large, small.le, fun k => ?_, (twoHashes_iff fprPos).mpr
      fits.twoHashes, few⟩
    rcases Nat.lt_or_ge k 13 with low | kGe
    · have bound : (2 : ℤ) ^ k ≤ 2 ^ 12 :=
        pow_le_pow_right₀ (by norm_num) (by omega)
      omega
    · rcases Nat.lt_or_ge 30 k with high | kLe
      · have bound : (2 : ℤ) ^ 31 ≤ 2 ^ k :=
          pow_le_pow_right₀ (by norm_num) (by omega)
        omega
      · exact (ne_two_pow_iff sizePos fprPos (by omega)).mpr
          (fits.noPower k kGe kLe)

/-- About ten hash functions for a rate of one in a thousand. -/
private theorem sizeRaw_thousandth :
    13000 < sizeRaw 1024 (1 * 10 ^ (-3 : ℤ)) ∧
      sizeRaw 1024 (1 * 10 ^ (-3 : ℤ)) < 15000 := by
  have low : 9 * Real.log 2 < Real.log 1000 := by
    rw [← Real.log_rpow two_pos]
    exact Real.log_lt_log (by positivity) (by norm_num)
  have high : Real.log 1000 < 10 * Real.log 2 := by
    rw [← Real.log_rpow two_pos]
    exact Real.log_lt_log (by norm_num) (by norm_num)
  have rate : -Real.log (1 * 10 ^ (-3 : ℤ)) = Real.log 1000 := by
    rw [← Real.log_inv]
    norm_num
  have ln2Low := Real.log_two_gt_d9
  have ln2High := Real.log_two_lt_d9
  have ln2 : 0 < Real.log 2 ^ 2 := pow_pos log_two_pos 2
  rw [sizeRaw_eq, rate, lt_div_iff₀ ln2, div_lt_iff₀ ln2]
  push_cast
  constructor
  · nlinarith
  · nlinarith

/-- At the smallest set size and a rate of one in a thousand. -/
theorem returnsUsable_thousandth : ReturnsUsable 1024 1 (-3) := by
  obtain ⟨above, below⟩ := sizeRaw_thousandth
  have size : (0 : ℤ) < 1024 := by decide
  have rate : (0 : ℝ) < 1 * 10 ^ (-3 : ℤ) := by positivity
  refine (returnsUsable_iff (by decide) (by decide) (by decide) (by decide)
    (by norm_num [BF_FPR_MANTISSA_MIN])
    (by norm_num [BF_FPR_MANTISSA_MAX])).mpr ?_
  refine {
    twoHashes := ?_
    large := (lt_sizeRaw_iff size rate _).mp (above.trans' (by norm_num))
    noPower := fun k kGe _ => ?_ }
  · have power : (2 : ℝ) ^ (-2 : ℝ) ≤ 2 ^ (-(3 / 2) : ℝ) :=
      Real.rpow_le_rpow_of_exponent_le one_le_two (by norm_num)
    have quarter : (2 : ℝ) ^ (-2 : ℝ) = 1 / 4 := by norm_num [Real.rpow_neg]
    rw [quarter] at power
    norm_num at power ⊢
    linarith
  · rcases kGe.eq_or_lt with rfl | more
    · exact .inl ((lt_sizeRaw_iff size rate _).mp (above.trans' (by norm_num)))
    · have bound : (2 : ℝ) ^ 14 ≤ 2 ^ k :=
        pow_le_pow_right₀ one_le_two more
      exact .inr ((sizeRaw_lt_iff size rate _).mp (below.trans (by linarith)))

/-- A rate of nine tenths passes the range checks and asks for no hash function
at all, so that `math.log2` fails. -/
theorem not_returnsUsable_nine_tenths : ¬ ReturnsUsable 1024 9 (-1) := by
  rintro ⟨p, returned, usable⟩
  rw [bf_param_eq (by decide) (by decide) (by decide) (by decide)
    (by norm_num [BF_FPR_MANTISSA_MIN])
    (by norm_num [BF_FPR_MANTISSA_MAX])] at returned
  have size : (0 : ℤ) < 1024 := by decide
  have fits := (usable_raw_iff size (by positivity)).mp ⟨p, returned, usable⟩
  have two := (twoHashes_iff (by positivity)).mp fits.2.2.2.1
  have power : (2 : ℝ) ^ (-(3 / 2) : ℝ) ≤ 2 ^ (0 : ℝ) / 2 := by
    rw [← Real.rpow_sub_one two_ne_zero]
    exact Real.rpow_le_rpow_of_exponent_le one_le_two (by norm_num)
  norm_num at two power
  linarith

end

end Bloom
end Mpmt
