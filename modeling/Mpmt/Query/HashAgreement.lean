import Mpmt.Query.Aes
import Mpmt.Query.Net

/-!
# Local hash against circuit hash

Set holders place bits with `hashAESDM`, queriers look them up through
`Emp2::hash`.  The two parties' shares open to the local hash exactly on the
non-empty preimages: without a full or partial block the local loop stops at
`H_0 = 0`, while the circuit still encrypts one zero block.
-/

namespace Mpmt
namespace Query

open Dpf (Block)

section

variable (aes : Block -> Block -> Block)

/-- Whatever the key, the shares and the masks, the two results of
`Emp2::hash` add up to the local hash of `preimage`. -/
def HashAgrees (ell : Nat) (preimage : List UInt8) : Prop :=
  ∀ (aPt bPt aKey bKey : List UInt8) (v v' : UInt32),
    aPt.length = preimage.length -> bPt.length = preimage.length ->
    aKey.length = 16 -> bKey.length = 16 ->
    xorBytes aPt bPt = preimage ->
    ∃ a b,
      Call.meaning aes (.hash ell aPt aKey (Emp2.rand_mask ell v))
        (.hash ell bPt bKey (Emp2.rand_mask ell v')) = some (a, b) ∧
      hashAESDM aes preimage (xorBytes aKey bKey) ell =
        .ok ((a + b) % 2 ^ ell)

/-- AES-128 of the zero block under the zero key. -/
def aesZero : Block := 0x2e2b34ca59fa4c883b2c8aefd44be966#128

/-! ## Opening the shares -/

theorem circuitHash_lt (ell : Nat) (aPt bPt aKey bKey : List UInt8) :
    circuitHash aes ell aPt bPt aKey bKey < 2 ^ ell :=
  Nat.mod_lt _ (by positivity)

/-- The two results of the circuit open to the value inside it. -/
theorem hash_shares
    (ell : Nat)
    {aPt bPt : List UInt8}
    (aKey bKey : List UInt8)
    (v v' : UInt32)
    (sameLength : aPt.length = bPt.length) :
    ∃ a b,
      Call.meaning aes (.hash ell aPt aKey (Emp2.rand_mask ell v))
        (.hash ell bPt bKey (Emp2.rand_mask ell v')) = some (a, b) ∧
      (a + b) % 2 ^ ell = circuitHash aes ell aPt bPt aKey bKey := by
  have sameBlocks : ell = ell ∧
      nBlocks aPt.length = nBlocks bPt.length := ⟨rfl, by rw [sameLength]⟩
  exact ⟨_, _, if_pos sameBlocks,
    add_reshared (circuitHash_lt aes ell aPt bPt aKey bKey)
      (rand_mask_lt ell v)⟩

/-! ## Non-empty preimages -/

theorem hashAgrees_of_ne_nil
    (ellPositive : 1 ≤ ell)
    (ellLe : ell ≤ 31)
    {preimage : List UInt8}
    (nonempty : preimage ≠ []) : HashAgrees aes ell preimage := by
  intro aPt bPt aKey bKey v v' aLength bLength aKeyLength bKeyLength pt
  obtain ⟨a, b, called, opened⟩ :=
    hash_shares aes ell aKey bKey v v' (aLength.trans bLength.symm)
  refine ⟨a, b, called, ?_⟩
  have keyLength : (xorBytes aKey bKey).length ≤ 16 := by
    rw [length_xorBytes, aKeyLength, bKeyLength]
    decide
  rw [hashAESDM_eq_ok aes ellPositive ellLe keyLength, opened,
    circuitHash_eq_dmLoop aes ellLe (aLength.trans bLength.symm)
      (aKeyLength.trans bKeyLength.symm) pt rfl nonempty]

/-! ## The empty preimage -/

/-- The local loop has no block to absorb. -/
theorem hashAESDM_nil
    (ellPositive : 1 ≤ ell)
    (ellLe : ell ≤ 31)
    {key : List UInt8}
    (keyLength : key.length ≤ 16) : hashAESDM aes [] key ell = .ok 0 := by
  rw [hashAESDM_eq_ok aes ellPositive ellLe keyLength, dmLoop]
  simp

theorem padBlock_zeros (count : Nat) :
    padBlock (List.replicate count 0) = 0 := by
  apply BitVec.eq_of_getLsbD_eq
  intro index indexLt
  rw [padBlock, getLsbD_bytesBlock _ ⟨index, indexLt⟩]
  simp

/-- The circuit encrypts a zero block, whatever the shares of nothing are. -/
theorem circuitHash_nil (ell : Nat) :
    circuitHash aes ell [] [] (List.replicate 16 0) (List.replicate 16 0) =
      (aes 0 0).toNat % 2 ^ ell := by
  rw [circuitHash, padBlock_zeros]
  simp [nBlocks, circuitChain]

theorem aesZero_mod_ne_zero (ellGe : 2 ≤ ell) :
    aesZero.toNat % 2 ^ ell ≠ 0 := by
  intro zero
  have divides : 2 ^ 2 ∣ aesZero.toNat :=
    (Nat.pow_dvd_pow 2 ellGe).trans (Nat.dvd_of_mod_eq_zero zero)
  revert divides
  decide

theorem not_hashAgrees_nil
    (vector : aes 0 0 = aesZero)
    (ellGe : 2 ≤ ell)
    (ellLe : ell ≤ 31) : ¬ HashAgrees aes ell [] := by
  intro agrees
  obtain ⟨a, b, called, hashed⟩ :=
    agrees [] [] (List.replicate 16 0) (List.replicate 16 0) 0 0
      rfl rfl (by simp) (by simp) rfl
  obtain ⟨a', b', called', opened⟩ :=
    hash_shares aes ell (List.replicate 16 0) (List.replicate 16 0) 0 0
      (rfl : ([] : List UInt8).length = ([] : List UInt8).length)
  rw [called] at called'
  obtain ⟨rfl, rfl⟩ : a = a' ∧ b = b' := by simpa using called'
  rw [hashAESDM_nil aes (by omega) ellLe (by simp [xorBytes]), opened,
    circuitHash_nil, vector] at hashed
  exact aesZero_mod_ne_zero ellGe (Except.ok.inj hashed).symm

/-! ## The main result -/

/-- The circuit and the local hash agree exactly on the non-empty preimages;
`vector` is the published value of AES-128 at zero. -/
theorem hashAgrees_iff
    (vector : aes 0 0 = aesZero)
    (ellGe : 2 ≤ ell)
    (ellLe : ell ≤ 31)
    (preimage : List UInt8) :
    HashAgrees aes ell preimage ↔ preimage ≠ [] := by
  constructor
  · rintro agrees rfl
    exact not_hashAgrees_nil aes vector ellGe ellLe agrees
  · exact hashAgrees_of_ne_nil aes (by omega) ellLe

theorem encrypt_zero : Aes.encrypt 0 0 = aesZero := by
  decide +kernel

theorem hashAgrees_one_byte :
    HashAgrees Aes.encrypt 24 [65] ↔ ([65] : List UInt8) ≠ [] :=
  hashAgrees_iff Aes.encrypt encrypt_zero (by decide) (by decide) [65]

theorem not_hashAgrees_empty : ¬ HashAgrees Aes.encrypt 24 [] :=
  not_hashAgrees_nil Aes.encrypt encrypt_zero (by decide) (by decide)

end

end Query
end Mpmt
