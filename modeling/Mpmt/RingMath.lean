import Mathlib

/-!
# Ring arithmetic on bytes

The scalar helpers of `common.hpp`.  An element of `Z_{2^ELL}` with
`ELL ≤ 8` is stored in one byte; sums, differences and products are formed in
32-bit unsigned arithmetic and masked back.  `ringVal` reads a byte as a ring
element, and every helper is a ring operation under that reading.
-/

namespace Mpmt
namespace RingMath

/-- `RING_MASK8<ELL>`: the bits of a byte that belong to a ring element. -/
def ringMask8 (ell : Nat) : UInt8 :=
  if ell = 8 then 0xFF else UInt8.ofNat (2 ^ ell - 1)

/-- Truncate a 32-bit intermediate result to a ring element. -/
def maskResult (ell : Nat) (result : UInt32) : UInt8 :=
  if ell = 8 then result.toUInt8
  else (result &&& (ringMask8 ell).toUInt32).toUInt8

/-- `ringAdd8<ELL>`. -/
def ringAdd8 (ell : Nat) (a b : UInt8) : UInt8 :=
  maskResult ell (a.toUInt32 + b.toUInt32)

/-- `ringSub8<ELL>`. -/
def ringSub8 (ell : Nat) (a b : UInt8) : UInt8 :=
  maskResult ell (a.toUInt32 - b.toUInt32)

/-- `ringMul8<ELL>`. -/
def ringMul8 (ell : Nat) (a b : UInt8) : UInt8 :=
  maskResult ell (a.toUInt32 * b.toUInt32)

theorem toNat_ringMask8 (ellLe : ell ≤ 8) :
    (ringMask8 ell).toNat = 2 ^ ell - 1 := by
  interval_cases ell <;> rfl

/-- Masking keeps exactly the residue modulo `2^ELL`. -/
theorem toNat_maskResult
    (ellLe : ell ≤ 8)
    (result : UInt32) :
    (maskResult ell result).toNat = result.toNat % 2 ^ ell := by
  have divides : 2 ^ ell ∣ 256 := by
    simpa using Nat.pow_dvd_pow 2 ellLe
  unfold maskResult
  split
  · subst ell
    simp
  · simp [toNat_ringMask8 ellLe, Nat.mod_mod_of_dvd _ divides]

/-- The ring element stored in a byte. -/
def ringVal (ell : Nat) (byte : UInt8) : ZMod (2 ^ ell) :=
  (byte.toNat : ZMod (2 ^ ell))

/-- A 32-bit word read modulo `2^ELL`. -/
def wordVal (ell : Nat) (word : UInt32) : ZMod (2 ^ ell) :=
  (word.toNat : ZMod (2 ^ ell))

@[simp] theorem wordVal_toUInt32 (byte : UInt8) :
    wordVal ell byte.toUInt32 = ringVal ell byte := by
  simp [wordVal, ringVal]

theorem cast_mod_two_pow
    (ellLe : ell ≤ width)
    (value : Nat) :
    ((value % 2 ^ width : Nat) : ZMod (2 ^ ell)) = value := by
  rw [ZMod.natCast_eq_natCast_iff]
  exact (Nat.mod_modEq value (2 ^ width)).of_dvd (Nat.pow_dvd_pow 2 ellLe)

theorem wordVal_add
    (ellLe : ell ≤ 32)
    (a b : UInt32) :
    wordVal ell (a + b) = wordVal ell a + wordVal ell b := by
  rw [wordVal, UInt32.toNat_add, cast_mod_two_pow ellLe]
  push_cast
  rfl

theorem wordVal_mul
    (ellLe : ell ≤ 32)
    (a b : UInt32) :
    wordVal ell (a * b) = wordVal ell a * wordVal ell b := by
  rw [wordVal, UInt32.toNat_mul, cast_mod_two_pow ellLe]
  push_cast
  rfl

theorem wordVal_sub
    (ellLe : ell ≤ 32)
    (a b : UInt32) :
    wordVal ell (a - b) = wordVal ell a - wordVal ell b := by
  have restored : wordVal ell (a - b) + wordVal ell b = wordVal ell a := by
    rw [← wordVal_add ellLe, UInt32.sub_add_cancel]
  exact eq_sub_of_add_eq restored

theorem ringVal_maskResult
    (ellLe : ell ≤ 8)
    (result : UInt32) :
    ringVal ell (maskResult ell result) = wordVal ell result := by
  rw [ringVal, toNat_maskResult ellLe, wordVal, ZMod.natCast_mod]

@[simp] theorem ringVal_ringAdd8
    (ellLe : ell ≤ 8)
    (a b : UInt8) :
    ringVal ell (ringAdd8 ell a b) = ringVal ell a + ringVal ell b := by
  rw [ringAdd8, ringVal_maskResult ellLe, wordVal_add (by omega)]
  simp

@[simp] theorem ringVal_ringSub8
    (ellLe : ell ≤ 8)
    (a b : UInt8) :
    ringVal ell (ringSub8 ell a b) = ringVal ell a - ringVal ell b := by
  rw [ringSub8, ringVal_maskResult ellLe, wordVal_sub (by omega)]
  simp

@[simp] theorem ringVal_ringMul8
    (ellLe : ell ≤ 8)
    (a b : UInt8) :
    ringVal ell (ringMul8 ell a b) = ringVal ell a * ringVal ell b := by
  rw [ringMul8, ringVal_maskResult ellLe, wordVal_mul (by omega)]
  simp

/-- A 64-bit word read modulo `2^ELL`. -/
def longVal (ell : Nat) (word : UInt64) : ZMod (2 ^ ell) :=
  (word.toNat : ZMod (2 ^ ell))

@[simp] theorem longVal_toUInt64 (byte : UInt8) :
    longVal ell byte.toUInt64 = ringVal ell byte := by
  simp [longVal, ringVal]

theorem longVal_add
    (ellLe : ell ≤ 64)
    (a b : UInt64) :
    longVal ell (a + b) = longVal ell a + longVal ell b := by
  rw [longVal, UInt64.toNat_add, cast_mod_two_pow ellLe]
  push_cast
  rfl

theorem longVal_sub
    (ellLe : ell ≤ 64)
    (a b : UInt64) :
    longVal ell (a - b) = longVal ell a - longVal ell b := by
  have restored : longVal ell (a - b) + longVal ell b = longVal ell a := by
    rw [← longVal_add ellLe, UInt64.sub_add_cancel]
  exact eq_sub_of_add_eq restored

theorem longVal_mul
    (ellLe : ell ≤ 64)
    (a b : UInt64) :
    longVal ell (a * b) = longVal ell a * longVal ell b := by
  rw [longVal, UInt64.toNat_mul, cast_mod_two_pow ellLe]
  push_cast
  rfl

@[simp] theorem longVal_zero : longVal ell 0 = 0 := by
  simp [longVal]

theorem longVal_and_ringMask8
    (ellLe : ell ≤ 8)
    (word : UInt64) :
    longVal ell (word &&& (ringMask8 ell).toUInt64) = longVal ell word := by
  simp [longVal, toNat_ringMask8 ellLe]

/-- Masking a 64-bit intermediate result to a byte keeps the residue. -/
theorem ringVal_toUInt8_and_ringMask8
    (ellLe : ell ≤ 8)
    (word : UInt64) :
    ringVal ell (word &&& (ringMask8 ell).toUInt64).toUInt8 =
      longVal ell word := by
  rw [← longVal_and_ringMask8 ellLe, ringVal, longVal, UInt64.toNat_toUInt8]
  exact cast_mod_two_pow ellLe _

/-! ## Byte arithmetic -/

theorem ringVal_add
    (ellLe : ell ≤ 8)
    (a b : UInt8) :
    ringVal ell (a + b) = ringVal ell a + ringVal ell b := by
  rw [ringVal, UInt8.toNat_add, cast_mod_two_pow ellLe]
  push_cast
  rfl

theorem ringVal_sub
    (ellLe : ell ≤ 8)
    (a b : UInt8) :
    ringVal ell (a - b) = ringVal ell a - ringVal ell b := by
  have restored : ringVal ell (a - b) + ringVal ell b = ringVal ell a := by
    rw [← ringVal_add ellLe, UInt8.sub_add_cancel]
  exact eq_sub_of_add_eq restored

theorem ringVal_and_ringMask8
    (ellLe : ell ≤ 8)
    (byte : UInt8) :
    ringVal ell (byte &&& ringMask8 ell) = ringVal ell byte := by
  simp [ringVal, toNat_ringMask8 ellLe]

/-- Truncating a word to a byte keeps the residue. -/
theorem ringVal_toUInt8
    (ellLe : ell ≤ 8)
    (word : UInt32) :
    ringVal ell word.toUInt8 = wordVal ell word := by
  rw [ringVal, UInt32.toNat_toUInt8, cast_mod_two_pow ellLe]
  rfl

/-- A byte is a canonical element of `Z_{2^ELL}` when no bit above the ring
is set. -/
def Canonical (ell : Nat) (byte : UInt8) : Prop :=
  byte.toNat < 2 ^ ell

instance (ell : Nat) (byte : UInt8) : Decidable (Canonical ell byte) :=
  inferInstanceAs (Decidable (_ < _))

theorem canonical_maskResult
    (ellLe : ell ≤ 8)
    (result : UInt32) :
    Canonical ell (maskResult ell result) := by
  rw [Canonical, toNat_maskResult ellLe]
  exact Nat.mod_lt _ (by positivity)

theorem canonical_toUInt8_and_ringMask8
    (ellLe : ell ≤ 8)
    (word : UInt64) :
    Canonical ell (word &&& (ringMask8 ell).toUInt64).toUInt8 := by
  have below : word.toNat % 2 ^ ell < 2 ^ ell :=
    Nat.mod_lt _ (by positivity)
  have small : word.toNat % 2 ^ ell % 256 ≤ word.toNat % 2 ^ ell :=
    Nat.mod_le _ _
  simp only [Canonical, UInt64.toNat_toUInt8, UInt64.toNat_and,
    UInt8.toNat_toUInt64, toNat_ringMask8 ellLe,
    Nat.and_two_pow_sub_one_eq_mod]
  omega

end RingMath
end Mpmt
