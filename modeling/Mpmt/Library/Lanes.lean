import Mathlib.Data.Nat.Bitwise
import Mathlib.Algebra.BigOperators.Group.Finset.Basic
import Mathlib.Tactic.Ring

/-!
# Vector registers

A vector register is a function from lane numbers to the bits of the lane, a
natural number below two to the lane's width.  The instructions read a lane as
a signed or an unsigned number, as they say, and cut what they compute back to
a lane.
-/

namespace Lanes

/-- The bits of an integer in a lane of `w` bits. -/
def toLane (w : Nat) (x : Int) : Nat := (x % 2 ^ w).toNat

/-- A lane of `w` bits, read as a signed number. -/
def signed (w lane : Nat) : Int :=
  if lane < 2 ^ (w - 1) then lane else lane - 2 ^ w

/-- The nearest integer from `low` to `high`. -/
def saturate (low high x : Int) : Int := max low (min high x)

/-- `_mm_set1_epi32`, in bytes. -/
def set1Epi32 (x : Nat) : Nat -> Nat := fun i => x >>> (8 * (i % 4)) % 2 ^ 8

/-- `_mm_maddubs_epi16`: products of unsigned and signed bytes, added in pairs
and saturated to 16 bits. -/
def maddubsEpi16 (a b : Nat -> Nat) : Nat -> Nat := fun i =>
  toLane 16 (saturate (-2 ^ 15) (2 ^ 15 - 1)
    (a (2 * i) * signed 8 (b (2 * i)) + a (2 * i + 1) * signed 8 (b (2 * i + 1))))

/-- `_mm_madd_epi16`: products of signed 16-bit lanes, added in pairs. -/
def maddEpi16 (a b : Nat -> Nat) : Nat -> Nat := fun i =>
  toLane 32 (signed 16 (a (2 * i)) * signed 16 (b (2 * i)) +
    signed 16 (a (2 * i + 1)) * signed 16 (b (2 * i + 1)))

/-- `_mm_packus_epi16`: signed 16-bit lanes of two registers, saturated to
unsigned bytes. -/
def packusEpi16 (a b : Nat -> Nat) : Nat -> Nat := fun i =>
  toLane 8 (saturate 0 255 (signed 16 (if i < 8 then a i else b (i - 8))))

/-- `_mm_unpacklo_epi16`: the low halves of two registers, interleaved. -/
def unpackloEpi16 (a b : Nat -> Nat) : Nat -> Nat := fun i =>
  if i % 2 = 0 then a (i / 2) else b (i / 2)

/-- `_mm_unpackhi_epi16`: the high halves of two registers, interleaved. -/
def unpackhiEpi16 (a b : Nat -> Nat) : Nat -> Nat := fun i =>
  if i % 2 = 0 then a (4 + i / 2) else b (4 + i / 2)

/-- The bytes of a register of 32-bit lanes. -/
def bytesEpi32 (a : Nat -> Nat) : Nat -> Nat := fun i => a (i / 4) >>> (8 * (i % 4)) % 2 ^ 8

/-- `_mm_shuffle_epi8` -/
def shuffleEpi8 (a selector : Nat -> Nat) : Nat -> Nat := fun i =>
  if 2 ^ 7 ≤ selector i then 0 else a (selector i % 16)

/-- `_mm256_sad_epu8`: absolute differences of bytes, added eight at a time. -/
def sadEpu8 (a b : Nat -> Nat) : Nat -> Nat := fun i =>
  ((List.range 8).map fun j => Int.natAbs (a (8 * i + j) - b (8 * i + j))).sum

/-! ## Small lanes -/

theorem toLane_natCast {x : Nat} (inside : x < 2 ^ w) : toLane w x = x := by
  have asNat : ((x : Int) % 2 ^ w) = ((x % 2 ^ w : Nat) : Int) := by
    push_cast
    rfl
  rw [toLane, asNat, Int.toNat_natCast, Nat.mod_eq_of_lt inside]

theorem signed_of_lt (inside : x < 2 ^ (w - 1)) : signed w x = x := if_pos inside

theorem saturate_of_mem (low : l ≤ x) (high : x ≤ h) : saturate l h x = x := by
  rw [saturate, min_eq_right high, max_eq_right low]

/-- Sums of products that stay in the lane are exact. -/
theorem maddubsEpi16_eq
    (smallB : ∀ i, b i < 2 ^ 7)
    (fits : a (2 * i) * b (2 * i) + a (2 * i + 1) * b (2 * i + 1) < 2 ^ 15) :
    maddubsEpi16 a b i = a (2 * i) * b (2 * i) + a (2 * i + 1) * b (2 * i + 1) := by
  have exact :
      (a (2 * i) : Int) * b (2 * i) + a (2 * i + 1) * b (2 * i + 1) =
        ((a (2 * i) * b (2 * i) + a (2 * i + 1) * b (2 * i + 1) : Nat) : Int) := by
    push_cast
    rfl
  rw [maddubsEpi16, signed_of_lt (smallB _), signed_of_lt (smallB _), exact,
    saturate_of_mem (by omega) (by omega), toLane_natCast (by omega)]

/-- The sums of neighbouring lanes. -/
theorem maddEpi16_one
    (small : ∀ i, a i < 2 ^ 15) :
    maddEpi16 a (fun _ => 1) i = a (2 * i) + a (2 * i + 1) := by
  have first := small (2 * i)
  have second := small (2 * i + 1)
  have exact : (a (2 * i) : Int) * 1 + a (2 * i + 1) * 1 =
      ((a (2 * i) + a (2 * i + 1) : Nat) : Int) := by
    push_cast
    ring
  rw [maddEpi16, signed_of_lt (w := 16) first, signed_of_lt (w := 16) second,
    show signed 16 1 = 1 from rfl, exact, toLane_natCast (by omega)]

/-- Bytes are packed as they are. -/
theorem packusEpi16_eq
    (smallA : ∀ i, a i < 2 ^ 8)
    (smallB : ∀ i, b i < 2 ^ 8) :
    packusEpi16 a b i = if i < 8 then a i else b (i - 8) := by
  have small : (if i < 8 then a i else b (i - 8)) < 2 ^ 8 := by
    split
    · exact smallA _
    · exact smallB _
  rw [packusEpi16, signed_of_lt (by omega), saturate_of_mem (by omega) (by omega),
    toLane_natCast small]

/-- The low byte of a lane of 32 bits. -/
theorem bytesEpi32_four_mul (small : a i < 2 ^ 8) : bytesEpi32 a (4 * i) = a i := by
  rw [bytesEpi32, Nat.mul_div_cancel_left i (by decide), Nat.mul_mod_right,
    Nat.mul_zero, Nat.shiftRight_zero, Nat.mod_eq_of_lt small]

/-- The sums of eight bytes. -/
theorem sadEpu8_zero (a : Nat -> Nat) (i : Nat) :
    sadEpu8 a (fun _ => 0) i = ((List.range 8).map fun j => a (8 * i + j)).sum := by
  rw [sadEpu8]
  simp

end Lanes
