import Mpmt.Rvector.Pack

/-!
# One bit stream for every width

Every pack kernel regroups the masked elements into bytes, and every unpack
kernel regroups bytes into elements.  Blocks end where bytes do, so the loop
over the blocks and the loop behind it read and write one stream.
-/

namespace Mpmt

open BitStream Lanes

/-! ## Masks and single bytes -/

section

variable {ell mask : Nat} {src : Nat -> Nat}

theorem testBit_and_mask
    (isMask : mask = 2 ^ ell - 1)
    (x j : Nat) : (x &&& mask).testBit j = (decide (j < ell) && x.testBit j) := by
  rw [isMask, Nat.testBit_and, Nat.testBit_two_pow_sub_one, Bool.and_comm]

theorem and_mask_lt (isMask : mask = 2 ^ ell - 1) (x : Nat) : x &&& mask < 2 ^ ell := by
  rw [isMask, Nat.and_two_pow_sub_one_eq_mod]
  exact Nat.mod_lt _ (Nat.two_pow_pos ell)

/-- As many elements as a byte holds, or fewer. -/
theorem regrouped_window_byte
    (positive : 0 < w)
    (some : 0 < g)
    (fits : w * g ≤ 8)
    {digits : Nat -> Nat}
    (bounded : ∀ i, digits i < 2 ^ w) :
    Regrouped w digits (w * g) 8 [window w digits g] := by
  have nonempty : 0 < w * g := Nat.mul_pos positive some
  have whole : window w digits g < 2 ^ 8 :=
    Nat.lt_of_lt_of_le (window_lt positive g fun i _ => bounded i)
      (Nat.pow_le_pow_right (by decide) fits)
  have cut := regrouped_split positive (show 0 < 8 by decide) digits g
    (fun i _ => bounded i) (show 1 = _ by omega)
  rwa [split, List.range_one, List.map_singleton, Nat.mul_zero, Nat.shiftRight_zero,
    Nat.mod_eq_of_lt whole] at cut

/-- The elements in a byte, or the first of them. -/
theorem regrouped_shift_byte
    (positive : 0 < ell)
    (isMask : mask = 2 ^ ell - 1)
    (fits : ell * m ≤ 8)
    (src : Nat -> Nat) :
    Regrouped 8 src (ell * m) ell ((List.range m).map fun j => src 0 >>> (ell * j) &&& mask) := by
  refine regrouped_map positive (length_digits positive m).symm
    (fun i => and_mask_lt isMask _) fun i inside j jLt => ?_
  have within : ell * i + j < ell * m := by
    have step : ell * (i + 1) ≤ ell * m := Nat.mul_le_mul_left ell inside
    rw [Nat.mul_add, Nat.mul_one] at step
    omega
  rw [testBit_and_mask isMask, decide_eq_true jLt, decide_eq_true within, Nat.testBit_shiftRight,
    bitAt, Nat.div_eq_of_lt (by omega), Nat.mod_eq_of_lt (by omega)]

/-! ## Kernels over windows -/

theorem regrouped_packWindow
    (positive : 0 < ell)
    (isMask : mask = 2 ^ ell - 1)
    (aligned : ell * group = 8 * bytes)
    (src : Nat -> Nat)
    (n : Nat) :
    Regrouped ell (fun i => src i &&& mask) (ell * n) 8
      (packWindow src n ell mask group bytes) := by
  have bounded : ∀ i, src i &&& mask < 2 ^ ell := fun i => and_mask_lt isMask _
  have whole : ell * n = ell * (group * (n / group)) + ell * (n - group * (n / group)) := by
    rw [← Nat.mul_add, Nat.add_sub_cancel' (Nat.mul_div_le n group)]
  rw [packWindow, whole]
  refine Regrouped.flatMap_append positive (by decide) aligned (fun q => ?_) _ ?_
  · exact regrouped_split positive (by decide) _ group (fun i _ => bounded _) (by omega)
  · split
    · exact regrouped_split positive (by decide) _ _ (fun i _ => bounded _)
        (by rw [Nat.mul_comm ell]; omega)
    · next complete =>
        rw [show n - group * (n / group) = 0 by omega, Nat.mul_zero]
        exact Regrouped.nil _ _ (by decide)

/-- An element read from the byte that it begins in, and from the next one
where it crosses into that. -/
theorem testBit_crossing
    (isMask : mask = 2 ^ ell - 1)
    (ellLe : ell ≤ 8)
    (bounded : ∀ i, src i < 2 ^ 8)
    (bit : Nat)
    {j : Nat}
    (inside : j < ell) :
    (let low := src (bit / 8) >>> (bit % 8) &&& mask
      if 8 < bit % 8 + ell then low ||| (src (bit / 8 + 1) <<< (8 - bit % 8) &&& mask)
      else low).testBit j = bitAt 8 src (bit + j) := by
  have high : ∀ i k, 8 ≤ k → (src i).testBit k = false := by
    intro i k behind
    exact Nat.testBit_lt_two_pow
      (Nat.lt_of_lt_of_le (bounded i) (Nat.pow_le_pow_right (by decide) behind))
  have low : (src (bit / 8) >>> (bit % 8) &&& mask).testBit j =
      (src (bit / 8)).testBit (bit % 8 + j) := by
    rw [testBit_and_mask isMask, decide_eq_true inside, Bool.true_and, Nat.testBit_shiftRight]
  have next : (src (bit / 8 + 1) <<< (8 - bit % 8) &&& mask).testBit j =
      (decide (8 - bit % 8 ≤ j) && (src (bit / 8 + 1)).testBit (j - (8 - bit % 8))) := by
    rw [testBit_and_mask isMask, decide_eq_true inside, Bool.true_and, Nat.testBit_shiftLeft]
  by_cases within : bit % 8 + j < 8
  · have here : bitAt 8 src (bit + j) = (src (bit / 8)).testBit (bit % 8 + j) := by
      rw [bitAt, show (bit + j) / 8 = bit / 8 by omega,
        show (bit + j) % 8 = bit % 8 + j by omega]
    rw [here, ← low]
    dsimp only
    split
    · rw [Nat.testBit_or, next, decide_eq_false (by omega), Bool.false_and, Bool.or_false]
    · rfl
  · have there : bitAt 8 src (bit + j) =
        (src (bit / 8 + 1)).testBit (j - (8 - bit % 8)) := by
      rw [bitAt, show (bit + j) / 8 = bit / 8 + 1 by omega,
        show (bit + j) % 8 = j - (8 - bit % 8) by omega]
    dsimp only
    rw [if_pos (by omega), Nat.testBit_or, low, next, high _ _ (by omega),
      decide_eq_true (by omega), Bool.true_and, Bool.false_or, there]

theorem crossing_lt
    (isMask : mask = 2 ^ ell - 1)
    (src : Nat -> Nat)
    (bit : Nat) :
    (let low := src (bit / 8) >>> (bit % 8) &&& mask
      if 8 < bit % 8 + ell then low ||| (src (bit / 8 + 1) <<< (8 - bit % 8) &&& mask)
      else low) < 2 ^ ell := by
  dsimp only
  split
  · exact Nat.or_lt_two_pow (and_mask_lt isMask _) (and_mask_lt isMask _)
  · exact and_mask_lt isMask _

theorem regrouped_unpackWindow
    (positive : 0 < ell)
    (ellLe : ell ≤ 8)
    (isMask : mask = 2 ^ ell - 1)
    (aligned : ell * group = 8 * bytes)
    (bounded : ∀ i, src i < 2 ^ 8)
    (n : Nat) :
    Regrouped 8 src (ell * n) ell (unpackWindow src n ell mask group bytes) := by
  have start : 8 * (bytes * (n / group)) = ell * (group * (n / group)) := by
    rw [← Nat.mul_assoc, ← aligned, Nat.mul_assoc]
  have whole : ell * n =
      8 * (bytes * (n / group)) + ell * (n - group * (n / group)) := by
    rw [start, ← Nat.mul_add, Nat.add_sub_cancel' (Nat.mul_div_le n group)]
  rw [unpackWindow, whole]
  refine Regrouped.flatMap_append (by decide) positive aligned.symm (fun q => ?_) _ ?_
  · have block := regrouped_split (show 0 < 8 by decide) positive
      (fun b => src (bytes * q + b)) bytes (fun i _ => bounded _)
      (show group = _ by rw [← aligned, length_digits positive])
    rw [split] at block
    simpa only [isMask, Nat.and_two_pow_sub_one_eq_mod] using block
  · refine regrouped_map positive (length_digits positive _).symm
      (fun i => crossing_lt isMask src _) fun i inside j jLt => ?_
    have within : ell * i + j < ell * (n - group * (n / group)) := by
      have step : ell * (i + 1) ≤ ell * (n - group * (n / group)) :=
        Nat.mul_le_mul_left ell inside
      rw [Nat.mul_add, Nat.mul_one] at step
      omega
    rw [testBit_crossing isMask ellLe bounded _ jLt, decide_eq_true within, Bool.true_and,
      ← bitAt_shift (by decide), start, Nat.add_mul, Nat.mul_comm (group * (n / group)),
      Nat.mul_comm i, Nat.add_assoc]

/-! ## Kernels over vector registers -/

/-- A loop that writes one byte at a time. -/
theorem regrouped_map_byte
    (positive : 0 < w)
    (aligned : w * g = 8)
    {digits : Nat -> Nat}
    (bounded : ∀ i, digits i < 2 ^ w)
    (count : Nat) :
    Regrouped w digits (w * (g * count)) 8
      ((List.range count).map fun q => window w (fun j => digits (g * q + j)) g) := by
  have some : 0 < g := Nat.pos_of_ne_zero (by rintro rfl; simp at aligned)
  rw [List.map_eq_flatMap]
  exact Regrouped.flatMap (c := 1) positive (by decide) aligned
    (fun q => regrouped_window_byte positive some (Nat.le_of_eq aligned) fun i => bounded _)
    count

/-- The multipliers of a register that are the same in every pair of bytes. -/
theorem set1Epi32_pack4 (i : Nat) :
    set1Epi32 0x10011001 (2 * i) = 1 ∧ set1Epi32 0x10011001 (2 * i + 1) = 16 := by
  have place : 2 * i % 4 = 0 ∨ 2 * i % 4 = 2 := by omega
  have next : (2 * i + 1) % 4 = 2 * i % 4 + 1 := by omega
  rcases place with first | second
  · simp [set1Epi32, next, first]
  · simp [set1Epi32, next, second]

/-- The multiplications of `_pack4` shift every second element by four bits. -/
theorem maddubs_pack4 (src : Nat -> Nat) (i : Nat) :
    maddubsEpi16 (set1Epi32 0x10011001) (fun j => src j &&& 0x0F) i =
      window 4 (fun j => src (2 * i + j) &&& 0x0F) 2 := by
  have small : ∀ j, src j &&& 0x0F < 2 ^ 4 := fun j =>
    and_mask_lt (show 0x0F = 2 ^ 4 - 1 from rfl) _
  have first := small (2 * i)
  have second := small (2 * i + 1)
  obtain ⟨even, odd⟩ := set1Epi32_pack4 i
  rw [maddubsEpi16_eq (fun j => Nat.lt_trans (small j) (by decide))
    (by rw [even, odd]; omega), even, odd,
    window_succ (by decide) 1 fun j _ => small _,
    window_succ (by decide) 0 fun j _ => small _]
  simp [window]

theorem pack4Stream_eq (src : Nat -> Nat) :
    pack4Stream src =
      (List.range 16).map fun q => window 4 (fun j => src (2 * q + j) &&& 0x0F) 2 := by
  have bounded : ∀ (src : Nat -> Nat) (i : Nat),
      maddubsEpi16 (set1Epi32 0x10011001) (fun j => src j &&& 0x0F) i < 2 ^ 8 := by
    intro src i
    rw [maddubs_pack4]
    exact window_lt (by decide) 2 fun j _ =>
      and_mask_lt (show 0x0F = 2 ^ 4 - 1 from rfl) _
  rw [pack4Stream]
  apply List.map_congr_left
  intro q _
  rw [packusEpi16_eq (bounded src) (bounded fun i => src (16 + i)), maddubs_pack4,
    maddubs_pack4 fun i => src (16 + i)]
  split
  · rfl
  · have place : ∀ j, 16 + (2 * (q - 8) + j) = 2 * q + j := fun j => by omega
    simp only [place]

/-- The 16 bytes of a half block. -/
theorem regrouped_pack4Stream (src : Nat -> Nat) :
    Regrouped 4 (fun i => src i &&& 0x0F) (4 * 32) 8 (pack4Stream src) := by
  rw [pack4Stream_eq]
  exact regrouped_map_byte (by decide) (show 4 * 2 = 8 from rfl)
    (fun i => and_mask_lt (show 0x0F = 2 ^ 4 - 1 from rfl) _) 16

/-- A group of elements that may be left behind the last whole byte. -/
theorem regrouped_window_rest
    (positive : 0 < w)
    {digits : Nat -> Nat}
    (fits : w * m ≤ 8)
    (bounded : ∀ i, digits i < 2 ^ w) :
    Regrouped w digits (w * m) 8 (if 0 < m then [window w digits m] else []) := by
  split
  · next some => exact regrouped_window_byte positive some fits bounded
  · next none =>
      rw [show m = 0 by omega, Nat.mul_zero]
      exact Regrouped.nil _ _ (by decide)

theorem regrouped_pack4Tail (src : Nat -> Nat) (n : Nat) :
    Regrouped 4 (fun i => src i &&& 0x0F) (4 * n) 8 (pack4Tail src n) := by
  have bounded : ∀ i, src i &&& 0x0F < 2 ^ 4 := fun i =>
    and_mask_lt (show 0x0F = 2 ^ 4 - 1 from rfl) _
  have pairs := regrouped_map_byte (show 0 < 4 by decide) (show 4 * 2 = 8 from rfl) bounded
    (n / 2)
  simp only [window_two, Nat.add_zero] at pairs
  have rest := regrouped_window_rest (m := n - 2 * (n / 2)) (show 0 < 4 by decide) (by omega)
    fun i => bounded (2 * (n / 2) + i)
  have joined := pairs.append (by decide) (by decide)
    (show 4 * (2 * (n / 2)) = 8 * (n / 2) by omega) rest
  rw [← Nat.mul_add, Nat.add_sub_cancel' (Nat.mul_div_le n 2)] at joined
  rw [pack4Tail]
  convert joined using 2
  by_cases left : 2 * (n / 2) < n
  · rw [if_pos left, if_pos (by omega), show n - 2 * (n / 2) = 1 by omega, window_one]
    rfl
  · rw [if_neg left, if_neg (by omega)]

/-- `_pack4` writes the stream of its elements. -/
theorem regrouped_pack4 (src : Nat -> Nat) (n : Nat) :
    Regrouped 4 (fun i => src i &&& 0x0F) (4 * n) 8 (pack4 src n) := by
  have whole : 4 * n = 4 * (128 * (n / 128)) + 4 * (n - 128 * (n / 128)) := by omega
  rw [pack4, whole]
  refine Regrouped.flatMap_append (c := 64) (by decide) (by decide) (by decide)
    (fun q => ?_) _ (regrouped_pack4Tail (fun j => src (128 * (n / 128) + j)) _)
  refine Regrouped.flatMap (g := 64) (c := 32) (by decide) (by decide) (by decide) (fun k => ?_) 2
  refine Regrouped.flatMap (g := 32) (c := 16) (by decide) (by decide) (by decide) (fun h => ?_) 2
  exact regrouped_pack4Stream fun j => src (128 * q + (64 * k + (32 * h + j)))

theorem set1Epi32_pack2 (i : Nat) :
    set1Epi32 0x40100401 (4 * i) = 1 ∧ set1Epi32 0x40100401 (4 * i + 1) = 4 ∧
      set1Epi32 0x40100401 (4 * i + 2) = 16 ∧ set1Epi32 0x40100401 (4 * i + 3) = 64 := by
  simp [set1Epi32]

/-- The multiplications and sums of `_pack2` put four elements side by side. -/
theorem madd_pack2 (src : Nat -> Nat) (i : Nat) :
    maddEpi16 (maddubsEpi16 (set1Epi32 0x40100401) fun j => src j &&& 3) (fun _ => 1) i =
      window 2 (fun j => src (4 * i + j) &&& 3) 4 := by
  have small : ∀ j, src j &&& 3 < 2 ^ 2 := fun j =>
    and_mask_lt (show 3 = 2 ^ 2 - 1 from rfl) _
  have product : ∀ j, set1Epi32 0x40100401 j * (src j &&& 3) ≤ 255 * 3 := fun j =>
    Nat.mul_le_mul (Nat.le_of_lt_succ (Nat.mod_lt _ (by decide))) (Nat.le_of_lt_succ (small j))
  have lane : ∀ k, maddubsEpi16 (set1Epi32 0x40100401) (fun j => src j &&& 3) k =
      set1Epi32 0x40100401 (2 * k) * (src (2 * k) &&& 3) +
        set1Epi32 0x40100401 (2 * k + 1) * (src (2 * k + 1) &&& 3) := by
    intro k
    have left := product (2 * k)
    have right := product (2 * k + 1)
    exact maddubsEpi16_eq (fun j => Nat.lt_trans (small j) (by decide)) (by omega)
  have low : ∀ k, maddubsEpi16 (set1Epi32 0x40100401) (fun j => src j &&& 3) k < 2 ^ 15 := by
    intro k
    have left := product (2 * k)
    have right := product (2 * k + 1)
    rw [lane]
    omega
  obtain ⟨first, second, third, fourth⟩ := set1Epi32_pack2 i
  rw [maddEpi16_one low, lane, lane, show 2 * (2 * i) = 4 * i by omega,
    show 2 * (2 * i + 1) = 4 * i + 2 by omega, first, second, third, fourth,
    window_succ (by decide) 3 fun j _ => small _,
    window_succ (by decide) 2 fun j _ => small _,
    window_succ (by decide) 1 fun j _ => small _,
    window_one]
  simp only [Nat.add_zero, Nat.add_assoc, Nat.reduceAdd]
  omega

theorem pack2Stream_eq (src : Nat -> Nat) :
    pack2Stream src =
      (List.range 4).map fun q => window 2 (fun j => src (4 * q + j) &&& 3) 4 := by
  rw [pack2Stream]
  apply List.map_congr_left
  intro q member
  have inside : q < 4 := List.mem_range.mp member
  have select : [0, 4, 8, 12].getD q 0x80 = 4 * q := by
    interval_cases q <;> rfl
  have bounded : window 2 (fun j => src (4 * q + j) &&& 3) 4 < 2 ^ 8 :=
    window_lt (by decide) 4 fun j _ => and_mask_lt (show 3 = 2 ^ 2 - 1 from rfl) _
  rw [shuffleEpi8, select, if_neg (by omega), Nat.mod_eq_of_lt (by omega),
    bytesEpi32_four_mul (by rwa [madd_pack2]), madd_pack2]

theorem regrouped_pack2Tail (src : Nat -> Nat) (n : Nat) :
    Regrouped 2 (fun i => src i &&& 3) (2 * n) 8 (pack2Tail src n) := by
  have bounded : ∀ i, src i &&& 3 < 2 ^ 2 := fun i =>
    and_mask_lt (show 3 = 2 ^ 2 - 1 from rfl) _
  have groups := regrouped_map_byte (show 0 < 2 by decide) (show 2 * 4 = 8 from rfl) bounded
    (n / 4)
  simp only [window_four, Nat.add_zero] at groups
  have rest := regrouped_window_rest (m := n - 4 * (n / 4)) (show 0 < 2 by decide) (by omega)
    fun i => bounded (4 * (n / 4) + i)
  have joined := groups.append (by decide) (by decide)
    (show 2 * (4 * (n / 4)) = 8 * (n / 4) by omega) rest
  rw [← Nat.mul_add, Nat.add_sub_cancel' (Nat.mul_div_le n 4)] at joined
  rw [pack2Tail]
  simpa only [Nat.sub_pos_iff_lt] using joined

/-- `_pack2` writes the stream of its elements. -/
theorem regrouped_pack2 (src : Nat -> Nat) (n : Nat) :
    Regrouped 2 (fun i => src i &&& 3) (2 * n) 8 (pack2 src n) := by
  have whole : 2 * n = 2 * (256 * (n / 256)) + 2 * (n - 256 * (n / 256)) := by omega
  rw [pack2, whole]
  refine Regrouped.flatMap_append (c := 64) (by decide) (by decide) (by decide)
    (fun q => ?_) _ (regrouped_pack2Tail (fun j => src (256 * (n / 256) + j)) _)
  refine Regrouped.flatMap (g := 64) (c := 16) (by decide) (by decide) (by decide) (fun b => ?_) 4
  refine Regrouped.flatMap (g := 16) (c := 4) (by decide) (by decide) (by decide) (fun k => ?_) 4
  rw [pack2Stream_eq]
  exact regrouped_map_byte (by decide) (show 2 * 4 = 8 from rfl)
    (fun i => and_mask_lt (show 3 = 2 ^ 2 - 1 from rfl) _) 4

/-! ## Reading back -/

theorem unpack4_lane (p : Nat -> Nat) (i : Nat) :
    packusEpi16
        (unpackloEpi16 (fun i => p i &&& 0x0F) fun i => p i >>> 4 &&& 0x0F)
        (unpackhiEpi16 (fun i => p i &&& 0x0F) fun i => p i >>> 4 &&& 0x0F) i =
      p (i / 2) >>> (4 * (i % 2)) &&& 0x0F := by
  have small : ∀ x, x &&& 0x0F < 2 ^ 8 := fun x =>
    Nat.lt_trans (and_mask_lt (show 0x0F = 2 ^ 4 - 1 from rfl) x) (by decide)
  rw [packusEpi16_eq]
  · rcases Nat.mod_two_eq_zero_or_one i with even | odd
    · split
      · simp [unpackloEpi16, even]
      · next high =>
          rw [unpackhiEpi16, if_pos (by omega), even, show 4 + (i - 8) / 2 = i / 2 by omega]
          rfl
    · split
      · simp [unpackloEpi16, odd]
      · next high =>
          rw [unpackhiEpi16, if_neg (by omega), odd, show 4 + (i - 8) / 2 = i / 2 by omega]
  · intro j
    rw [unpackloEpi16]
    split <;> exact small _
  · intro j
    rw [unpackhiEpi16]
    split <;> exact small _

/-- The elements of 8 bytes. -/
theorem regrouped_unpack4Stream (p : Nat -> Nat) :
    Regrouped 8 p (8 * 8) 4 (unpack4Stream p) := by
  refine regrouped_map (by decide) (by decide) (fun i => ?_) fun i inside j jLt => ?_
  · rw [unpack4_lane]
    exact and_mask_lt (show 0x0F = 2 ^ 4 - 1 from rfl) _
  · rw [unpack4_lane, testBit_and_mask (show 0x0F = 2 ^ 4 - 1 from rfl), decide_eq_true jLt,
      decide_eq_true (by omega), Nat.testBit_shiftRight, bitAt,
      show (4 * i + j) / 8 = i / 2 by omega, show (4 * i + j) % 8 = 4 * (i % 2) + j by omega]

theorem shiftRight_and_mask
    (isMask : mask = 2 ^ ell - 1)
    {x : Nat}
    (inside : x < 2 ^ (k + ell)) : x >>> k &&& mask = x >>> k := by
  rw [isMask, Nat.and_two_pow_sub_one_eq_mod, Nat.mod_eq_of_lt]
  rw [Nat.shiftRight_eq_div_pow, Nat.div_lt_iff_lt_mul (Nat.two_pow_pos k), ← Nat.pow_add,
    Nat.add_comm]
  exact inside

theorem regrouped_unpack4Tail
    (bounded : ∀ i, src i < 2 ^ 8)
    (n : Nat) : Regrouped 8 src (4 * n) 4 (unpack4Tail src n) := by
  have pair : ∀ q, Regrouped 8 (fun i => src (1 * q + i)) (8 * 1) 4
      [src q &&& 0xF, src q >>> 4] := by
    intro q
    have both := regrouped_shift_byte (m := 2) (show 0 < 4 by decide)
      (show 0xF = 2 ^ 4 - 1 from rfl) (by decide) fun i => src (1 * q + i)
    have second : src q >>> 4 &&& 0xF = src q >>> 4 :=
      shiftRight_and_mask (show 0xF = 2 ^ 4 - 1 from rfl) (bounded q)
    rw [← second]
    simpa [List.range_succ] using both
  have rest := regrouped_shift_byte (m := n - 2 * (n / 2)) (show 0 < 4 by decide)
    (show 0xF = 2 ^ 4 - 1 from rfl) (by omega) fun i => src (1 * (n / 2) + i)
  have joined := Regrouped.flatMap_append (c := 2) (by decide) (by decide) (by decide) pair
    (n / 2) rest
  rw [show 8 * (1 * (n / 2)) + 4 * (n - 2 * (n / 2)) = 4 * n by omega] at joined
  rw [unpack4Tail]
  convert joined using 2
  by_cases left : 2 * (n / 2) < n
  · rw [if_pos left, show n - 2 * (n / 2) = 1 by omega]
    simp
  · rw [if_neg left, show n - 2 * (n / 2) = 0 by omega]
    rfl

/-- `_unpack4` reads the stream of its bytes. -/
theorem regrouped_unpack4
    (bounded : ∀ i, src i < 2 ^ 8)
    (n : Nat) : Regrouped 8 src (4 * n) 4 (unpack4 src n) := by
  have whole : 4 * n = 8 * (64 * (n / 128)) + 4 * (n - 128 * (n / 128)) := by omega
  rw [unpack4, whole]
  refine Regrouped.flatMap_append (c := 128) (by decide) (by decide) (by decide)
    (fun q => ?_) _ (regrouped_unpack4Tail (fun i => bounded _) _)
  refine Regrouped.flatMap (g := 8) (c := 16) (by decide) (by decide) (by decide) (fun k => ?_) 8
  exact regrouped_unpack4Stream fun j => src (64 * q + (8 * k + j))

theorem regrouped_unpack2Byte
    (bounded : ∀ i, src i < 2 ^ 8) :
    Regrouped 8 src (8 * 1) 2 (unpack2Byte (src 0)) := by
  have all := regrouped_shift_byte (m := 4) (show 0 < 2 by decide)
    (show 3 = 2 ^ 2 - 1 from rfl) (by decide) src
  have last : src 0 >>> 6 &&& 3 = src 0 >>> 6 :=
    shiftRight_and_mask (show 3 = 2 ^ 2 - 1 from rfl) (bounded 0)
  rw [unpack2Byte, ← last]
  simpa [List.range_succ] using all

theorem regrouped_unpack2Tail
    (bounded : ∀ i, src i < 2 ^ 8)
    (n : Nat) : Regrouped 8 src (2 * n) 2 (unpack2Tail src n) := by
  have rest := regrouped_shift_byte (m := n - 4 * (n / 4)) (show 0 < 2 by decide)
    (show 3 = 2 ^ 2 - 1 from rfl) (by omega) fun i => src (1 * (n / 4) + i)
  have joined := Regrouped.flatMap_append (c := 4) (by decide) (by decide) (by decide)
    (fun q => regrouped_unpack2Byte fun i => bounded (1 * q + i)) (n / 4) rest
  rw [show 8 * (1 * (n / 4)) + 2 * (n - 4 * (n / 4)) = 2 * n by omega] at joined
  simp only [Nat.one_mul, Nat.add_zero] at joined
  rw [unpack2Tail]
  convert joined using 2
  split
  · rfl
  · rw [show n - 4 * (n / 4) = 0 by omega]
    rfl

/-- `_unpack2` reads the stream of its bytes. -/
theorem regrouped_unpack2
    (bounded : ∀ i, src i < 2 ^ 8)
    (n : Nat) : Regrouped 8 src (2 * n) 2 (unpack2 src n) := by
  have whole : 2 * n = 8 * (64 * (n / 256)) + 2 * (n - 256 * (n / 256)) := by omega
  rw [unpack2, whole]
  refine Regrouped.flatMap_append (c := 256) (by decide) (by decide) (by decide)
    (fun q => ?_) _ (regrouped_unpack2Tail (fun i => bounded _) _)
  refine Regrouped.flatMap (g := 4) (c := 16) (by decide) (by decide) (by decide) (fun k => ?_) 16
  refine Regrouped.flatMap (g := 1) (c := 4) (by decide) (by decide) (by decide) (fun b => ?_) 4
  have byte := regrouped_unpack2Byte fun i => bounded (64 * q + (4 * k + (1 * b + i)))
  simpa only [Nat.one_mul, Nat.add_zero] using byte

end

end Mpmt
