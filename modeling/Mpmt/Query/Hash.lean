import Mpmt.Dpf.Block

/-!
# The AES Davies-Meyer hash

`hashAESDM`, computed locally, and the chain `Emp2::hash` builds as a circuit
over xor shares.  The two walk the preimage differently and agree on every
non-empty one.  `aes` stands for AES-128: a key and a plaintext block.
-/

namespace Mpmt
namespace Query

open Dpf (Block Bytes16 bytesBlock)

section

variable (aes : Block -> Block -> Block)

/-- `memcpy` of at most sixteen bytes into a zeroed block. -/
def padBlock (bytes : List UInt8) : Block :=
  bytesBlock fun index => bytes.getD index.val 0

/-- One link of the Davies-Meyer chain. -/
def dmLink (key h m : Block) : Block := aes key (h ^^^ m) ^^^ h

/-! ## The local hash -/

/-- The loop of `hashAESDM` over the full blocks, then the final partial
block. -/
def dmLoop (key h : Block) (rest : List UInt8) : Block :=
  if 16 ≤ rest.length then
    dmLoop key (dmLink aes key h (padBlock (rest.take 16))) (rest.drop 16)
  else if 0 < rest.length then dmLink aes key h (padBlock rest)
  else h
termination_by rest.length

/-- Errors of `hashAESDM`. -/
inductive HashError
  | ellOutOfRange
  | keyTooLong
  deriving DecidableEq, Repr

/-- `hashAESDM`. -/
def hashAESDM (preimage key : List UInt8) (ell : Nat) :
    Except HashError Nat :=
  if ell < 1 ∨ ell > 31 then .error .ellOutOfRange
  else if key.length > 16 then .error .keyTooLong
  else .ok ((dmLoop aes (padBlock key) 0 preimage).toNat % 2 ^ 32 % 2 ^ ell)

/-! ## The circuit -/

/-- Number of blocks the circuit reads. -/
def nBlocks (ptLen : Nat) : Nat :=
  if (ptLen + 15) / 16 = 0 then 1 else (ptLen + 15) / 16

/-- Block `b` of a preimage, zero-padded. -/
def ptBlock (pt : List UInt8) (b : Nat) : Block :=
  padBlock ((pt.drop (16 * b)).take 16)

/-- The chain over the first `b + 1` blocks. -/
def circuitChain (key : Block) (wires : Nat -> Block) : Nat -> Block
  | 0 => aes key (wires 0)
  | b + 1 =>
      let h := circuitChain key wires b
      aes key (h ^^^ wires (b + 1)) ^^^ h

/-- The value inside the circuit of `Emp2::hash`: the xor of the two shares of
the preimage and of the key goes through the chain. -/
def circuitHash
    (ell : Nat)
    (aPt bPt aKey bKey : List UInt8) : Nat :=
  (circuitChain aes (padBlock aKey ^^^ padBlock bKey)
    (fun b => ptBlock aPt b ^^^ ptBlock bPt b)
    (nBlocks aPt.length - 1)).toNat % 2 ^ ell

end

/-! ## Xor shares -/

/-- Both parties' byte strings, position by position. -/
def xorBytes (left right : List UInt8) : List UInt8 :=
  List.zipWith (· ^^^ ·) left right

@[simp] theorem length_xorBytes (left right : List UInt8) :
    (xorBytes left right).length = min left.length right.length :=
  List.length_zipWith

theorem xorBytes_comm (left right : List UInt8) :
    xorBytes left right = xorBytes right left :=
  List.zipWith_comm_of_comm UInt8.xor_comm

theorem getLsbD_bytesBlock (bytes : Bytes16) (index : Fin 128) :
    (bytesBlock bytes).getLsbD index.val =
      (bytes ⟨index.val / 8, Nat.div_lt_of_lt_mul index.isLt⟩).toBitVec.getLsbD (index.val % 8) := by
  simp [bytesBlock]

theorem bytesBlock_xor (left right : Bytes16) :
    bytesBlock (fun index => left index ^^^ right index) =
      bytesBlock left ^^^ bytesBlock right := by
  apply BitVec.eq_of_getLsbD_eq
  intro index indexLt
  rw [BitVec.getLsbD_xor, getLsbD_bytesBlock _ ⟨index, indexLt⟩,
    getLsbD_bytesBlock _ ⟨index, indexLt⟩,
    getLsbD_bytesBlock _ ⟨index, indexLt⟩, UInt8.toBitVec_xor,
    BitVec.getLsbD_xor]

theorem padBlock_xorBytes
    {left right : List UInt8}
    (sameLength : left.length = right.length) :
    padBlock (xorBytes left right) = padBlock left ^^^ padBlock right := by
  unfold padBlock
  rw [← bytesBlock_xor]
  congr 1
  funext index
  by_cases inside : index.val < left.length
  · have inside' : index.val < right.length := sameLength ▸ inside
    simp [xorBytes, inside, inside']
  · have outside' : ¬ index.val < right.length := sameLength ▸ inside
    simp [xorBytes, inside, outside']

theorem ptBlock_xorBytes
    {left right : List UInt8}
    (sameLength : left.length = right.length)
    (b : Nat) :
    ptBlock (xorBytes left right) b = ptBlock left b ^^^ ptBlock right b := by
  unfold ptBlock
  rw [← padBlock_xorBytes (by simp [sameLength])]
  simp [xorBytes, List.drop_zipWith, List.take_zipWith]

/-! ## Agreement -/

section

variable (aes : Block -> Block -> Block)

/-- The local loop is the chain over all blocks of the preimage. -/
theorem dmLoop_eq_foldl (key h : Block) (preimage : List UInt8) :
    dmLoop aes key h preimage =
      (List.range ((preimage.length + 15) / 16)).foldl
        (fun h b => dmLink aes key h (ptBlock preimage b)) h := by
  fun_induction dmLoop aes key h preimage with
  | case1 h rest full inductionHypothesis =>
      have count : (rest.length + 15) / 16 =
          ((rest.drop 16).length + 15) / 16 + 1 := by
        rw [List.length_drop]
        omega
      rw [inductionHypothesis, count, List.range_succ_eq_map, List.foldl_cons,
        List.foldl_map]
      have later : ∀ b, ptBlock rest (b + 1) = ptBlock (rest.drop 16) b := by
        intro b
        rw [ptBlock, ptBlock, List.drop_drop]
        congr 3
        omega
      simp only [Nat.succ_eq_add_one, later]
      rfl
  | case2 h rest partial' nonempty =>
      have count : (rest.length + 15) / 16 = 1 := by omega
      have whole : rest.take 16 = rest := List.take_of_length_le (by omega)
      simp [count, ptBlock, whole]
  | case3 h rest short empty =>
      have count : (rest.length + 15) / 16 = 0 := by omega
      simp [count]

/-- The circuit sets its state from the first block, which is a link of the
chain from zero. -/
theorem circuitChain_eq_foldl
    (key : Block)
    (wires : Nat -> Block)
    (b : Nat) :
    circuitChain aes key wires b =
      (List.range (b + 1)).foldl (fun h b => dmLink aes key h (wires b)) 0 := by
  induction b with
  | zero => simp [circuitChain, dmLink]
  | succ b inductionHypothesis =>
      rw [List.range_succ, List.foldl_append, ← inductionHypothesis]
      rfl

/-- On a non-empty preimage the circuit computes the local hash. -/
theorem circuitHash_eq_dmLoop
    {aPt bPt aKey bKey preimage key : List UInt8}
    (ellLe : ell ≤ 31)
    (samePt : aPt.length = bPt.length)
    (sameKey : aKey.length = bKey.length)
    (pt : xorBytes aPt bPt = preimage)
    (ky : xorBytes aKey bKey = key)
    (nonempty : preimage ≠ []) :
    circuitHash aes ell aPt bPt aKey bKey =
      (dmLoop aes (padBlock key) 0 preimage).toNat % 2 ^ 32 % 2 ^ ell := by
  subst pt ky
  have positive : 0 < aPt.length := by
    have := List.length_pos_of_ne_nil nonempty
    rw [length_xorBytes] at this
    omega
  have count : nBlocks aPt.length - 1 + 1 =
      ((xorBytes aPt bPt).length + 15) / 16 := by
    rw [length_xorBytes, nBlocks, if_neg (by omega)]
    omega
  rw [circuitHash, circuitChain_eq_foldl, count, dmLoop_eq_foldl,
    padBlock_xorBytes sameKey,
    Nat.mod_mod_of_dvd _ (Nat.pow_dvd_pow 2 (by omega))]
  simp only [ptBlock_xorBytes samePt]

/-- The local hash accepts a 16-byte key and every ring the protocols use. -/
theorem hashAESDM_eq_ok
    (ellPositive : 1 ≤ ell)
    (ellLe : ell ≤ 31)
    (keyLength : key.length ≤ 16)
    (preimage : List UInt8) :
    hashAESDM aes preimage key ell =
      .ok ((dmLoop aes (padBlock key) 0 preimage).toNat % 2 ^ 32 %
        2 ^ ell) := by
  rw [hashAESDM, if_neg (by omega), if_neg (by omega)]

end

end Query
end Mpmt
