import Mathlib

/-!
# 128-bit blocks of the distributed point function

A block carries a 127-bit seed and, in its most significant bit, the control
bit of a node.  This module has the bit-level helpers of `Bgi16Base` and the
hex encoding of `common.hpp`.  A `std::string` is the list of its characters.
-/

namespace Mpmt
namespace Dpf

/-- `__m128i` / `emp::block`. -/
abbrev Block := BitVec 128

/-- Left or right child; the source writes `L = 0` and `R = 1`. -/
abbrev Dir := Bool

/-- The left child. -/
abbrev L : Dir := false

/-- The right child. -/
abbrev R : Dir := true

/-- `STDMASK_MSB1`. -/
def STDMASK_MSB1 : Block := BitVec.twoPow 128 127

/-- `STDMASK_NOT_MSB1`. -/
def STDMASK_NOT_MSB1 : Block := ~~~STDMASK_MSB1

/-- `getMsb`: the control bit of a node state. -/
def getMsb (v : Block) : Bool := v.getLsbD 127

/-- `_mm_set1_epi32(-(int32_t) bit)`: all ones or all zeros. -/
def mulMask (bit : Bool) : Block :=
  if bit then BitVec.allOnes 128 else 0

/-- `(bit == 0) ? STDMASK_F0 : STDMASK_MSB1`. -/
def cbitMask (bit : Bool) : Block :=
  if bit then STDMASK_MSB1 else 0

/-- `_mm_cvtsi128_si64`: the low 64 bits. -/
def low64 (v : Block) : UInt64 := ⟨v.setWidth 64⟩

theorem getLsbD_STDMASK_NOT_MSB1 (index : Nat) :
    STDMASK_NOT_MSB1.getLsbD index = decide (index < 127) := by
  simp only [STDMASK_NOT_MSB1, STDMASK_MSB1, BitVec.getLsbD_not,
    BitVec.getLsbD_twoPow]
  by_cases below : index < 127
  · simp [below, show ¬ 127 = index by omega, show index < 128 by omega]
  · by_cases top : index = 127
    · simp [top]
    · simp [below, show ¬ index < 128 by omega]

theorem getLsbD_cbitMask (bit : Bool) (index : Nat) :
    (cbitMask bit).getLsbD index = (bit && decide (index = 127)) := by
  cases bit with
  | false => simp [cbitMask]
  | true =>
      simp only [cbitMask, STDMASK_MSB1, BitVec.getLsbD_twoPow, if_true]
      by_cases top : index = 127
      · simp [top]
      · simp [top, show ¬ 127 = index by omega]

@[simp] theorem getMsb_xor (v w : Block) :
    getMsb (v ^^^ w) = (getMsb v ^^ getMsb w) := by
  rw [getMsb, getMsb, getMsb, BitVec.getLsbD_xor]

@[simp] theorem getMsb_zero : getMsb 0#128 = false := by
  simp only [getMsb, BitVec.getLsbD_zero]

@[simp] theorem getMsb_cbitMask (bit : Bool) :
    getMsb (cbitMask bit) = bit := by
  simp only [getMsb, getLsbD_cbitMask, decide_true, Bool.and_true]

@[simp] theorem getMsb_and_not (v : Block) :
    getMsb (v &&& STDMASK_NOT_MSB1) = false := by
  simp only [getMsb, BitVec.getLsbD_and, getLsbD_STDMASK_NOT_MSB1,
    lt_self_iff_false, decide_false, Bool.and_false]

@[simp] theorem mulMask_true_and (v : Block) : mulMask true &&& v = v :=
  BitVec.allOnes_and

@[simp] theorem mulMask_false_and (v : Block) : mulMask false &&& v = 0#128 :=
  BitVec.zero_and

/-- A block is its seed part with its own control bit put back. -/
theorem seed_xor_cbitMask (v : Block) :
    (v &&& STDMASK_NOT_MSB1) ^^^ cbitMask (getMsb v) = v := by
  apply BitVec.eq_of_getLsbD_eq
  intro index indexLt
  rw [BitVec.getLsbD_xor, BitVec.getLsbD_and, getLsbD_STDMASK_NOT_MSB1,
    getLsbD_cbitMask]
  by_cases top : index = 127
  · subst index
    simp [getMsb]
  · have below : index < 127 := by omega
    simp only [top, below, decide_true, decide_false, Bool.and_true,
      Bool.and_false, Bool.xor_false]

/-! ## Bytes and hexadecimal strings -/

/-- Sixteen raw bytes. -/
abbrev Bytes16 := Fin 16 -> UInt8

/-- `memcpy` from a block: byte `i` holds bits `8*i .. 8*i+7`. -/
def blockBytes (v : Block) : Bytes16 :=
  fun i => ⟨v.extractLsb' (8 * i.val) 8⟩

/-- `memcpy` / `_mm_loadu_si128` into a block. -/
def bytesBlock (bytes : Bytes16) : Block :=
  BitVec.ofFnLE fun bit : Fin 128 =>
    (bytes ⟨bit.val / 8, by omega⟩).toBitVec.getLsbD (bit.val % 8)

@[simp] theorem bytesBlock_blockBytes (v : Block) :
    bytesBlock (blockBytes v) = v := by
  apply BitVec.eq_of_getLsbD_eq
  intro index indexLt
  have inByte : index % 8 < 8 := Nat.mod_lt _ (by omega)
  have position : 8 * (index / 8) + index % 8 = index :=
    Nat.div_add_mod index 8
  simp [bytesBlock, blockBytes, indexLt, BitVec.getLsbD_extractLsb',
    inByte, position]

/-- `HEX_CHARS`. -/
def HEX_CHARS : List Char := "0123456789abcdef".toList

/-- Character written for a four-bit value. -/
def hexChar (nibble : UInt8) : Char := HEX_CHARS.getD nibble.toNat '0'

/-- Errors thrown while a key is decoded. -/
inductive DecodeError
  | hexLength
  | hexCharacter
  | missingField
  | wrongType
  deriving DecidableEq, Repr

/-- `hexCharToNibble`. -/
def hexCharToNibble (c : Char) : Except DecodeError UInt8 :=
  if '0' ≤ c ∧ c ≤ '9' then .ok (UInt8.ofNat (c.toNat - '0'.toNat))
  else if 'A' ≤ c ∧ c ≤ 'F' then .ok (UInt8.ofNat (c.toNat - 'A'.toNat + 10))
  else if 'a' ≤ c ∧ c ≤ 'f' then .ok (UInt8.ofNat (c.toNat - 'a'.toNat + 10))
  else .error .hexCharacter

/-- The two characters of one byte. -/
def hexByte (byte : UInt8) : List Char :=
  [hexChar (byte >>> 4), hexChar (byte &&& 0x0F)]

/-- `bytesToHexString` for sixteen bytes. -/
def bytesToHexString (bytes : Bytes16) : List Char :=
  (List.finRange 16).flatMap fun i => hexByte (bytes i)

/-- `m128iToHexString`. -/
def m128iToHexString (v : Block) : List Char :=
  bytesToHexString (blockBytes v)

/-- Two characters read back as one byte. -/
def hexPair (high low : Char) : Except DecodeError UInt8 := do
  let highNibble ← hexCharToNibble high
  let lowNibble ← hexCharToNibble low
  return (highNibble <<< 4) ||| lowNibble

/-- The decoding loop of `hexStringToBytes`: byte `i` comes from characters
`2*i` and `2*i+1`, and the output buffer is filled in order. -/
def hexLoop (hex : List Char) : List (Fin 16) -> Bytes16 ->
    Except DecodeError Bytes16
  | [], out => .ok out
  | i :: rest, out => do
      let byte ← hexPair (hex.getD (2 * i.val) ' ')
        (hex.getD (2 * i.val + 1) ' ')
      hexLoop hex rest (Function.update out i byte)

/-- `hexStringToBytes`. -/
def hexStringToBytes (hex : List Char) (out : Bytes16) :
    Except DecodeError Bytes16 :=
  if hex.length ≠ 32 then .error .hexLength
  else hexLoop hex (List.finRange 16) out

/-- `hexStringToM128i`. -/
def hexStringToM128i (hex : List Char) : Except DecodeError Block :=
  (hexStringToBytes hex fun _ => 0).map bytesBlock

theorem hexPair_hexByte (byte : UInt8) :
    hexPair (hexChar (byte >>> 4)) (hexChar (byte &&& 0x0F)) = .ok byte := by
  have all : ∀ bits : BitVec 8,
      (hexPair (hexChar (UInt8.ofBitVec bits >>> 4))
        (hexChar (UInt8.ofBitVec bits &&& 0x0F))).toOption =
        some (UInt8.ofBitVec bits) := by
    decide +kernel
  have result := all byte.toBitVec
  cases decoded : hexPair (hexChar (byte >>> 4)) (hexChar (byte &&& 0x0F)) with
  | error failure => simp [decoded, Except.toOption] at result
  | ok value => simpa [decoded, Except.toOption] using result

theorem length_bytesToHexString (bytes : Bytes16) :
    (bytesToHexString bytes).length = 32 := rfl

theorem bytesToHexString_high (bytes : Bytes16) (i : Fin 16) (c : Char) :
    (bytesToHexString bytes).getD (2 * i.val) c = hexChar (bytes i >>> 4) := by
  fin_cases i <;> rfl

theorem bytesToHexString_low (bytes : Bytes16) (i : Fin 16) (c : Char) :
    (bytesToHexString bytes).getD (2 * i.val + 1) c =
      hexChar (bytes i &&& 0x0F) := by
  fin_cases i <;> rfl

/-- The decoding loop writes each listed byte once and leaves the others. -/
theorem hexLoop_bytesToHexString
    (bytes : Bytes16)
    (indices : List (Fin 16))
    (out : Bytes16) :
    hexLoop (bytesToHexString bytes) indices out =
      .ok fun i => if i ∈ indices then bytes i else out i := by
  induction indices generalizing out with
  | nil => simp [hexLoop]
  | cons index rest inductionHypothesis =>
      rw [hexLoop, bytesToHexString_high, bytesToHexString_low,
        hexPair_hexByte]
      simp only [bind, Except.bind]
      rw [inductionHypothesis]
      congr 1
      funext i
      by_cases same : i = index
      · subst i
        simp
      · simp [same]

@[simp] theorem hexStringToBytes_bytesToHexString
    (bytes out : Bytes16) :
    hexStringToBytes (bytesToHexString bytes) out = .ok bytes := by
  rw [hexStringToBytes, if_neg (by simp [length_bytesToHexString]),
    hexLoop_bytesToHexString]
  simp

@[simp] theorem hexStringToM128i_m128iToHexString (v : Block) :
    hexStringToM128i (m128iToHexString v) = .ok v := by
  simp [hexStringToM128i, m128iToHexString, Except.map]

end Dpf
end Mpmt
