import Mpmt.Dpf.Block

/-!
# AES-128

The block cipher behind `hashAESDM` and the hash circuits, byte by byte.  A
block is given by its sixteen bytes in the order in which they stand in memory.
-/

namespace Mpmt
namespace Query
namespace Aes

open Dpf (Block)

/-! ## Bytes -/

/-- The product with `x` in the field of 256 elements. -/
def xtime (a : Nat) : Nat := if a < 128 then 2 * a else 2 * a ^^^ 0x11b

/-- The product with the low `bits` bits of `b`. -/
def mul : Nat -> Nat -> Nat -> Nat
  | 0, _, _ => 0
  | bits + 1, a, b =>
      (if b % 2 = 1 then a else 0) ^^^ mul bits (xtime a) (b / 2)

/-- The power with exponent 254, which is the inverse of all but zero. -/
def inverse (a : Nat) : Nat :=
  let power := (List.range 6).foldl (fun t _ => mul 8 (mul 8 t t) a) a
  mul 8 power power

/-- Rotate a byte to the left. -/
def rotl (b count : Nat) : Nat := (b <<< count ||| b >>> (8 - count)) % 256

/-- The S-box. -/
def subByte (a : Nat) : Nat :=
  let b := inverse a
  b ^^^ rotl b 1 ^^^ rotl b 2 ^^^ rotl b 3 ^^^ rotl b 4 ^^^ 0x63

/-! ## Rounds -/

/-- Add a key or a column. -/
def add (left right : List Nat) : List Nat := List.zipWith (· ^^^ ·) left right

/-- Row `i` of the columns moves `i` columns to the left. -/
def shiftRows (state : List Nat) : List Nat :=
  (List.range 16).map fun i =>
    state.getD (i % 4 + 4 * ((i / 4 + i % 4) % 4)) 0

/-- Multiply each column by the matrix of the cipher. -/
def mixColumns : List Nat -> List Nat
  | a :: b :: c :: d :: rest =>
      (xtime a ^^^ xtime b ^^^ b ^^^ c ^^^ d) ::
        (a ^^^ xtime b ^^^ xtime c ^^^ c ^^^ d) ::
        (a ^^^ b ^^^ xtime c ^^^ xtime d ^^^ d) ::
        (xtime a ^^^ a ^^^ b ^^^ c ^^^ xtime d) :: mixColumns rest
  | rest => rest

/-- The key of the next round. -/
def nextKey (rcon : Nat) (key : List Nat) : List Nat :=
  let w0 := add (key.take 4) [subByte (key.getD 13 0) ^^^ rcon,
    subByte (key.getD 14 0), subByte (key.getD 15 0), subByte (key.getD 12 0)]
  let w1 := add ((key.drop 4).take 4) w0
  let w2 := add ((key.drop 8).take 4) w1
  w0 ++ w1 ++ w2 ++ add (key.drop 12) w2

/-- One round for each constant; the last one does not mix. -/
def rounds : List Nat -> List Nat -> List Nat -> List Nat
  | [], _, state => state
  | rcon :: rest, key, state =>
      let key := nextKey rcon key
      let state := shiftRows (state.map subByte)
      rounds rest key (add (if rest.isEmpty then state else mixColumns state) key)

/-- The bytes of a block. -/
def bytes (v : Block) : List Nat :=
  (List.range 16).map fun i => v.toNat / 256 ^ i % 256

/-- The block of sixteen bytes. -/
def ofBytes (state : List Nat) : Block :=
  BitVec.ofNat 128 (state.foldr (fun byte rest => byte + 256 * rest) 0)

/-- AES-128 of one block under a key. -/
def encrypt (key block : Block) : Block :=
  ofBytes (rounds [1, 2, 4, 8, 16, 32, 64, 128, 0x1b, 0x36] (bytes key)
    (add (bytes block) (bytes key)))

/-- The key 00 01 .. 0f and the block 00 11 .. ff. -/
example : encrypt 0x0f0e0d0c0b0a09080706050403020100#128
    0xffeeddccbbaa99887766554433221100#128 =
      0x5ac5b47080b7cdd830047b6ad8e0c469#128 := by
  decide +kernel

end Aes
end Query
end Mpmt
