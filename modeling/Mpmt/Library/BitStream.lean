import Mathlib.Data.Nat.Bitwise
import Mathlib.Data.List.GetD

/-!
# Digits as bit streams

A sequence of `w`-bit digits is one stream of bits, least significant first.
Regrouping reads the same stream in digits of another width.  Regroupings
compose end to end wherever both widths meet.
-/

namespace BitStream

/-! ## Bits of a stream -/

/-- Bit `k` of a stream of `w`-bit digits. -/
def bitAt (w : Nat) (digits : Nat -> Nat) (k : Nat) : Bool :=
  (digits (k / w)).testBit (k % w)

theorem bitAt_mul_add
    (digits : Nat -> Nat)
    (i : Nat)
    (inside : j < w) : bitAt w digits (w * i + j) = (digits i).testBit j := by
  rw [bitAt, Nat.mul_add_div (by omega), Nat.div_eq_of_lt inside, Nat.add_zero,
    Nat.mul_add_mod, Nat.mod_eq_of_lt inside]

/-- The stream behind the first `a` digits. -/
theorem bitAt_shift
    (positive : 0 < w)
    (digits : Nat -> Nat)
    (a k : Nat) :
    bitAt w digits (w * a + k) = bitAt w (fun i => digits (a + i)) k := by
  rw [bitAt, bitAt, Nat.mul_add_div positive, Nat.mul_add_mod]

theorem eq_of_testBit_eq
    (aLt : a < 2 ^ w)
    (bLt : b < 2 ^ w)
    (same : ∀ j < w, a.testBit j = b.testBit j) : a = b := by
  apply Nat.eq_of_testBit_eq
  intro j
  by_cases inside : j < w
  · exact same j inside
  · have high : 2 ^ w ≤ 2 ^ j := Nat.pow_le_pow_right (by decide) (by omega)
    rw [Nat.testBit_lt_two_pow (by omega), Nat.testBit_lt_two_pow (by omega)]

/-! ## Regrouping -/

/-- `out` holds the first `m` bits of the stream of `digits`, in digits of
`w'` bits, and zeros behind them. -/
structure Regrouped
    (w : Nat)
    (digits : Nat -> Nat)
    (m w' : Nat)
    (out : List Nat) : Prop where
  size : out.length = (m + w' - 1) / w'
  bounded : ∀ d ∈ out, d < 2 ^ w'
  bits : ∀ k, bitAt w' (fun i => out.getD i 0) k =
    (decide (k < m) && bitAt w digits k)

theorem getD_lt
    {out : List Nat}
    (bounded : ∀ d ∈ out, d < 2 ^ w)
    (i : Nat) : out.getD i 0 < 2 ^ w := by
  rw [List.getD_eq_getElem?_getD]
  cases found : out[i]? with
  | none => exact Nat.two_pow_pos w
  | some d => exact bounded d (List.mem_of_getElem? found)

theorem Regrouped.nil (w : Nat) (digits : Nat -> Nat) (positive : 0 < w') :
    Regrouped w digits 0 w' [] where
  size := by
    rw [List.length_nil, Nat.zero_add, Nat.div_eq_of_lt (by omega)]
  bounded := by simp
  bits k := by simp [bitAt]

/-- A regrouping, digit by digit. -/
theorem regrouped_map
    (positive' : 0 < w')
    {f : Nat -> Nat}
    (isCount : count = (m + w' - 1) / w')
    (bounded : ∀ i, f i < 2 ^ w')
    (bits : ∀ i < count, ∀ j < w',
      (f i).testBit j = (decide (w' * i + j < m) && bitAt w digits (w' * i + j))) :
    Regrouped w digits m w' ((List.range count).map f) := by
  refine ⟨by rw [List.length_map, List.length_range, isCount], ?_, fun k => ?_⟩
  · intro d member
    obtain ⟨i, -, rfl⟩ := List.mem_map.mp member
    exact bounded i
  · have place : w' * (k / w') + k % w' = k := Nat.div_add_mod k w'
    rw [bitAt, List.getD_eq_getElem?_getD, List.getElem?_map]
    by_cases inside : k / w' < count
    · simp [inside, bits _ inside _ (Nat.mod_lt k positive'), place]
    · have behind : m ≤ k := by
        have above : count * w' ≤ k := by
          rw [← Nat.le_div_iff_mul_le positive']
          omega
        have bound := Nat.div_add_mod (m + w' - 1) w'
        have rest := Nat.mod_lt (m + w' - 1) positive'
        rw [← isCount, Nat.mul_comm] at bound
        omega
      simp [inside, show ¬ k < m by omega]

/-- The number of digits of a whole number of digits. -/
theorem length_digits (positive : 0 < w) (n : Nat) : (w * n + w - 1) / w = n := by
  rw [Nat.add_sub_assoc positive, Nat.mul_add_div positive, Nat.div_eq_of_lt (by omega),
    Nat.add_zero]

/-- Two regroupings that meet where both widths do. -/
theorem Regrouped.append
    (positive : 0 < w)
    (positive' : 0 < w')
    (first : Regrouped w digits (w * a) w' out)
    (aligned : w * a = w' * b)
    (second : Regrouped w (fun i => digits (a + i)) m w' out') :
    Regrouped w digits (w * a + m) w' (out ++ out') := by
  have length : out.length = b := by
    rw [first.size, aligned, Nat.add_sub_assoc positive',
      Nat.mul_add_div positive', Nat.div_eq_of_lt (by omega), Nat.add_zero]
  refine ⟨?_, ?_, fun k => ?_⟩
  · rw [List.length_append, length, second.size, aligned,
      show w' * b + m + w' - 1 = w' * b + (m + w' - 1) by omega,
      Nat.mul_add_div positive']
  · intro d member
    rcases List.mem_append.mp member with left | right
    · exact first.bounded d left
    · exact second.bounded d right
  · by_cases inside : k < w * a
    · have digit : k / w' < out.length := by
        rw [length, Nat.div_lt_iff_lt_mul positive', Nat.mul_comm]
        omega
      have whole := first.bits k
      rw [decide_eq_true inside, Bool.true_and] at whole
      rw [decide_eq_true (by omega), Bool.true_and, ← whole, bitAt, bitAt,
        List.getD_append _ _ _ _ digit]
    · obtain ⟨j, rfl⟩ : ∃ j, k = w * a + j :=
        ⟨k - w * a, by omega⟩
      have tail : (fun i => (out ++ out').getD (b + i) 0) =
          fun i => out'.getD i 0 := by
        funext i
        rw [List.getD_append_right _ _ _ _ (by omega), length,
          Nat.add_sub_cancel_left]
      have later : decide (w * a + j < w * a + m) = decide (j < m) := by
        rw [decide_eq_decide]
        omega
      rw [bitAt_shift positive, later, ← second.bits, aligned,
        bitAt_shift positive', tail]

/-- A loop over blocks of `g` digits. -/
theorem Regrouped.flatMap
    (positive : 0 < w)
    (positive' : 0 < w')
    (aligned : w * g = w' * c)
    {block : Nat -> List Nat}
    (blocks : ∀ q, Regrouped w (fun i => digits (g * q + i)) (w * g) w'
      (block q))
    (count : Nat) :
    Regrouped w digits (w * (g * count)) w'
      ((List.range count).flatMap block) := by
  induction count with
  | zero => exact Regrouped.nil w digits positive'
  | succ count inductionHypothesis =>
      have whole := inductionHypothesis.append positive positive'
        (show w * (g * count) = w' * (c * count) by
          rw [← Nat.mul_assoc, aligned, Nat.mul_assoc]) (blocks count)
      rw [← Nat.mul_add] at whole
      rwa [List.range_succ, List.flatMap_append, List.flatMap_singleton]

/-- A loop over blocks and what is left behind it. -/
theorem Regrouped.flatMap_append
    (positive : 0 < w)
    (positive' : 0 < w')
    (aligned : w * g = w' * c)
    {block : Nat -> List Nat}
    (blocks : ∀ q, Regrouped w (fun i => digits (g * q + i)) (w * g) w'
      (block q))
    (count : Nat)
    (rest : Regrouped w (fun i => digits (g * count + i)) m w' out) :
    Regrouped w digits (w * (g * count) + m) w'
      ((List.range count).flatMap block ++ out) :=
  Regrouped.append positive positive'
    (Regrouped.flatMap positive positive' aligned blocks count)
    (show w * (g * count) = w' * (c * count) by
      rw [← Nat.mul_assoc, aligned, Nat.mul_assoc]) rest

/-! ## Windows -/

/-- The first `n` digits side by side in one word. -/
def window (w : Nat) (digits : Nat -> Nat) : Nat -> Nat
  | 0 => 0
  | n + 1 => window w digits n ||| digits n <<< (w * n)

theorem window_one (w : Nat) (digits : Nat -> Nat) : window w digits 1 = digits 0 := by
  simp [window]

theorem window_two (w : Nat) (digits : Nat -> Nat) :
    window w digits 2 = digits 0 ||| digits 1 <<< w := by
  simp [window]

theorem window_four (w : Nat) (digits : Nat -> Nat) :
    window w digits 4 =
      digits 0 ||| digits 1 <<< w ||| digits 2 <<< (w * 2) ||| digits 3 <<< (w * 3) := by
  simp [window]

theorem testBit_window
    (positive : 0 < w)
    (n : Nat)
    (bounded : ∀ i < n, digits i < 2 ^ w)
    (k : Nat) :
    (window w digits n).testBit k =
      (decide (k < w * n) && bitAt w digits k) := by
  induction n with
  | zero => simp [window]
  | succ n inductionHypothesis =>
      have step : w * (n + 1) = w * n + w := Nat.mul_succ w n
      rw [window, Nat.testBit_or, Nat.testBit_shiftLeft,
        inductionHypothesis fun i inside => bounded i (by omega), step]
      by_cases before : k < w * n
      · simp [before, show ¬ w * n ≤ k by omega, show k < w * n + w by omega]
      · obtain ⟨j, rfl⟩ : ∃ j, k = w * n + j := ⟨k - w * n, by omega⟩
        by_cases inside : j < w
        · simp [inside, bitAt_mul_add digits n inside]
        · have high : (digits n).testBit j = false :=
            Nat.testBit_lt_two_pow (Nat.lt_of_lt_of_le (bounded n (by omega))
              (Nat.pow_le_pow_right (by decide) (by omega)))
          simp [inside, high]

theorem window_lt
    (positive : 0 < w)
    (n : Nat)
    (bounded : ∀ i < n, digits i < 2 ^ w) : window w digits n < 2 ^ (w * n) := by
  apply Nat.lt_pow_two_of_testBit
  intro k high
  rw [testBit_window positive n bounded, decide_eq_false (by omega),
    Bool.false_and]

/-- The digits do not overlap. -/
theorem window_succ
    (positive : 0 < w)
    (n : Nat)
    (bounded : ∀ i < n, digits i < 2 ^ w) :
    window w digits (n + 1) = window w digits n + 2 ^ (w * n) * digits n := by
  rw [window, Nat.or_comm, ← Nat.shiftLeft_add_eq_or_of_lt
    (window_lt positive n bounded), Nat.shiftLeft_eq, Nat.add_comm, Nat.mul_comm]

/-- The low `count` digits of a word. -/
def split (w word count : Nat) : List Nat :=
  (List.range count).map fun i => (word >>> (w * i)) % 2 ^ w

theorem bitAt_split
    (positive : 0 < w)
    (word count k : Nat) :
    bitAt w (fun i => (split w word count).getD i 0) k =
      (decide (k < w * count) && word.testBit k) := by
  have place : k / w < count ↔ k < w * count := by
    rw [Nat.div_lt_iff_lt_mul positive, Nat.mul_comm]
  rw [bitAt, split, List.getD_eq_getElem?_getD, List.getElem?_map]
  by_cases inside : k / w < count
  · have digit : w * (k / w) + k % w = k := Nat.div_add_mod k w
    simp [inside, place.mp inside, Nat.testBit_mod_two_pow,
      Nat.mod_lt k positive, digit]
  · simp [inside, mt place.mpr inside]

theorem split_bounded (w word count : Nat) :
    ∀ d ∈ split w word count, d < 2 ^ w := by
  intro d member
  obtain ⟨i, -, rfl⟩ := List.mem_map.mp member
  exact Nat.mod_lt _ (Nat.two_pow_pos w)

theorem length_split (w word count : Nat) :
    (split w word count).length = count := by
  simp [split]

/-- The digits of a word, side by side again. -/
theorem window_split
    (positive : 0 < w)
    {word count : Nat}
    (inside : word < 2 ^ (w * count)) :
    window w (fun i => (split w word count).getD i 0) count = word := by
  apply Nat.eq_of_testBit_eq
  intro k
  rw [testBit_window positive _ fun i _ => getD_lt (split_bounded w word count) i,
    bitAt_split positive]
  by_cases low : k < w * count
  · simp [low]
  · have high : word.testBit k = false := Nat.testBit_lt_two_pow
      (Nat.lt_of_lt_of_le inside (Nat.pow_le_pow_right (by decide) (by omega)))
    simp [low, high]

/-- Digits side by side, cut into the digits again. -/
theorem split_window
    (positive : 0 < w)
    {digits : List Nat}
    (bounded : ∀ d ∈ digits, d < 2 ^ w) :
    split w (window w (fun i => digits.getD i 0) digits.length) digits.length = digits := by
  apply List.ext_getElem (length_split _ _ _)
  intro i inside inside'
  rw [← List.getD_eq_getElem _ 0, ← List.getD_eq_getElem _ 0]
  refine eq_of_testBit_eq (getD_lt (split_bounded _ _ _) i) (getD_lt bounded i) fun j jLt => ?_
  have within : w * i + j < w * digits.length := by
    have step : w * (i + 1) ≤ w * digits.length := Nat.mul_le_mul_left w inside'
    rw [Nat.mul_add, Nat.mul_one] at step
    omega
  rw [← bitAt_mul_add (fun i => (split w _ digits.length).getD i 0) i jLt,
    ← bitAt_mul_add (fun i => digits.getD i 0) i jLt, bitAt_split positive,
    testBit_window positive _ fun i _ => getD_lt bounded i, decide_eq_true within,
    Bool.true_and, Bool.true_and]

/-- A word of digits, cut into digits of another width. -/
theorem regrouped_split
    (positive : 0 < w)
    (positive' : 0 < w')
    (digits : Nat -> Nat)
    (n : Nat)
    (bounded : ∀ i < n, digits i < 2 ^ w)
    (isCount : count = (w * n + w' - 1) / w') :
    Regrouped w digits (w * n) w' (split w' (window w digits n) count) := by
  refine ⟨by rw [length_split, isCount], split_bounded _ _ _, fun k => ?_⟩
  have covers : w * n ≤ w' * count := by
    have bound := Nat.div_add_mod (w * n + w' - 1) w'
    have rest := Nat.mod_lt (w * n + w' - 1) positive'
    rw [← isCount] at bound
    omega
  rw [bitAt_split positive', testBit_window positive n bounded]
  by_cases inside : k < w * n
  · simp [inside, show k < w' * count by omega]
  · simp [inside]

end BitStream
