import Mpmt.Library.BitStream
import Mpmt.Library.Lanes
import Mpmt.Rvector.Vector

/-!
# The packed form of ring vectors

`packRvec` writes the elements of a vector side by side, `ELL` bits each, and
`unpackRvec` reads them back.  A kernel is a loop over blocks followed by a loop
over the elements behind the last block.  The kernels read their source from
index zero on; what they return is what they write, in order.
-/

namespace Mpmt

open BitStream Lanes

/-- Write `new` over the front of `old`, no further than its end. -/
def writeFront (new old : List α) : List α := (new ++ old.drop new.length).take old.length

theorem length_writeFront (new old : List α) : (writeFront new old).length = old.length := by
  rw [writeFront, List.length_take, List.length_append, List.length_drop]
  omega

theorem writeFront_of_length_eq
    {new old : List α}
    (fits : new.length = old.length) : writeFront new old = new := by
  rw [writeFront, List.drop_of_length_le (by omega), List.append_nil,
    List.take_of_length_le (by omega)]

/-! ## Pack buffers -/

/-- `SIZE_MAX` -/
def sizeMax : Nat := 2 ^ 64 - 1

/-- `RvectorPack::_bytesFor` -/
def bytesFor (ell n : Nat) : Except RvectorError Nat :=
  if ell < 1 ∨ 8 < ell then .error .invalidArgument
  else if sizeMax / 8 < n then .error .overflowError
  else if ell = 1 then .ok ((n + 63) / 64 * 8)
  else if ell = 8 then .ok n
  else if sizeMax / ell < n then .error .overflowError
  else .ok ((n * ell + 7) / 8)

/-- `RvectorPack`: a buffer of the bytes that `n` elements of `ell` bits need. -/
structure RvectorPack where
  ell : Nat
  n : Nat
  buf : List UInt8
  sized : bytesFor ell n = .ok buf.length

namespace RvectorPack

/-- `RvectorPack(ell, n)` -/
def construct (ell n : Nat) : Except RvectorError RvectorPack :=
  match count : bytesFor ell n with
  | .error error => .error error
  | .ok bytes => .ok ⟨ell, n, List.replicate bytes 0, by rw [count, List.length_replicate]⟩

/-- Write over the front of the buffer. -/
def write (auxBuf : RvectorPack) (bytes : List UInt8) : RvectorPack :=
  { auxBuf with
    buf := writeFront bytes auxBuf.buf
    sized := by rw [length_writeFront]; exact auxBuf.sized }

/-- The byte at an index. -/
def byte (auxBuf : RvectorPack) (k : Nat) : Nat := (auxBuf.buf.map UInt8.toNat).getD k 0

/-- The buffer as a bit stream, least significant bits first. -/
def bit (auxBuf : RvectorPack) (k : Nat) : Bool := bitAt 8 auxBuf.byte k

end RvectorPack

/-! ## Kernels over windows -/

section

variable (src : Nat -> Nat) (n : Nat)

/-- `_pack3`, `_pack5`, `_pack6` and `_pack7`: `group` masked elements in one
word, whose low `bytes` bytes are written. -/
def packWindow (ell mask group bytes : Nat) : List Nat :=
  let i := group * (n / group)
  ((List.range (n / group)).flatMap fun q =>
    split 8 (window ell (fun j => src (group * q + j) &&& mask) group) bytes) ++
  if i < n then
    split 8 (window ell (fun j => src (i + j) &&& mask) (n - i)) (((n - i) * ell + 7) / 8)
  else []

/-- `_unpack3`, `_unpack5`, `_unpack6` and `_unpack7`: `bytes` bytes in one
word, which is shifted and masked for each of `group` elements.  An element
behind the last block is read from the byte that its first bit is in, and from
the next one where it crosses into that. -/
def unpackWindow (ell mask group bytes : Nat) : List Nat :=
  let i := group * (n / group)
  ((List.range (n / group)).flatMap fun q =>
    (List.range group).map fun j =>
      window 8 (fun b => src (bytes * q + b)) bytes >>> (ell * j) &&& mask) ++
  (List.range (n - i)).map fun j =>
    let bit := (i + j) * ell
    let low := src (bit / 8) >>> (bit % 8) &&& mask
    if 8 < bit % 8 + ell then low ||| (src (bit / 8 + 1) <<< (8 - bit % 8) &&& mask) else low

/-- `_pack3` -/
def pack3 : List Nat := packWindow src n 3 7 8 3

/-- `_unpack3` -/
def unpack3 : List Nat := unpackWindow src n 3 7 8 3

/-- `_pack5` -/
def pack5 : List Nat := packWindow src n 5 31 8 5

/-- `_unpack5` -/
def unpack5 : List Nat := unpackWindow src n 5 31 8 5

/-- `_pack6` -/
def pack6 : List Nat := packWindow src n 6 63 4 3

/-- `_unpack6` -/
def unpack6 : List Nat := unpackWindow src n 6 63 4 3

/-- `_pack7` -/
def pack7 : List Nat := packWindow src n 7 127 8 7

/-- `_unpack7` -/
def unpack7 : List Nat := unpackWindow src n 7 127 8 7

/-! ## Kernels over vector registers -/

/-- The 16 bytes that `_pack4` makes of 32 elements. -/
def pack4Stream (src : Nat -> Nat) : List Nat :=
  let mul := set1Epi32 0x10011001
  let lo := fun i => src i &&& 0x0F
  let hi := fun i => src (16 + i) &&& 0x0F
  (List.range 16).map (packusEpi16 (maddubsEpi16 mul lo) (maddubsEpi16 mul hi))

/-- The loops of `_pack4` behind its blocks: pairs, then what may be left. -/
def pack4Tail (src : Nat -> Nat) (n : Nat) : List Nat :=
  let i := 2 * (n / 2)
  ((List.range (n / 2)).map fun p =>
    (src (2 * p) &&& 0x0F) ||| (src (2 * p + 1) &&& 0x0F) <<< 4) ++
  if i < n then [src i &&& 0x0F] else []

/-- `_pack4` -/
def pack4 : List Nat :=
  let i := 128 * (n / 128)
  ((List.range (n / 128)).flatMap fun q =>
    (List.range 2).flatMap fun k =>
      (List.range 2).flatMap fun h =>
        pack4Stream fun j => src (128 * q + (64 * k + (32 * h + j)))) ++
  pack4Tail (fun j => src (i + j)) (n - i)

/-- The 16 elements that `_unpack4` makes of 8 bytes. -/
def unpack4Stream (p : Nat -> Nat) : List Nat :=
  let lo := fun i => p i &&& 0x0F
  let hi := fun i => p i >>> 4 &&& 0x0F
  (List.range 16).map (packusEpi16 (unpackloEpi16 lo hi) (unpackhiEpi16 lo hi))

/-- The loops of `_unpack4` behind its blocks. -/
def unpack4Tail (src : Nat -> Nat) (n : Nat) : List Nat :=
  ((List.range (n / 2)).flatMap fun p => [src p &&& 0xF, src p >>> 4]) ++
  if 2 * (n / 2) < n then [src (n / 2) &&& 0xF] else []

/-- `_unpack4` -/
def unpack4 : List Nat :=
  ((List.range (n / 128)).flatMap fun q =>
    (List.range 8).flatMap fun k =>
      unpack4Stream fun j => src (64 * q + (8 * k + j))) ++
  unpack4Tail (fun j => src (64 * (n / 128) + j)) (n - 128 * (n / 128))

/-- The 4 bytes that `_pack2` makes of 16 elements. -/
def pack2Stream (src : Nat -> Nat) : List Nat :=
  let mul := set1Epi32 0x40100401
  let sel := fun i => [0, 4, 8, 12].getD i 0x80
  let v := fun i => src i &&& 3
  let q := maddEpi16 (maddubsEpi16 mul v) fun _ => 1
  (List.range 4).map (shuffleEpi8 (bytesEpi32 q) sel)

/-- The loops of `_pack2` behind its blocks: groups of four, then what may be
left. -/
def pack2Tail (src : Nat -> Nat) (n : Nat) : List Nat :=
  let i := 4 * (n / 4)
  ((List.range (n / 4)).map fun p =>
    (src (4 * p) &&& 3) ||| (src (4 * p + 1) &&& 3) <<< 2 |||
      (src (4 * p + 2) &&& 3) <<< 4 ||| (src (4 * p + 3) &&& 3) <<< 6) ++
  if i < n then [window 2 (fun j => src (i + j) &&& 3) (n - i)] else []

/-- `_pack2` -/
def pack2 : List Nat :=
  let i := 256 * (n / 256)
  ((List.range (n / 256)).flatMap fun q =>
    (List.range 4).flatMap fun b =>
      (List.range 4).flatMap fun k =>
        pack2Stream fun j => src (256 * q + (64 * b + (16 * k + j)))) ++
  pack2Tail (fun j => src (i + j)) (n - i)

/-- The four elements in a byte. -/
def unpack2Byte (b : Nat) : List Nat := [b &&& 3, b >>> 2 &&& 3, b >>> 4 &&& 3, b >>> 6]

/-- The loops of `_unpack2` behind its blocks. -/
def unpack2Tail (src : Nat -> Nat) (n : Nat) : List Nat :=
  ((List.range (n / 4)).flatMap fun p => unpack2Byte (src p)) ++
  if 4 * (n / 4) < n then
    (List.range (n - 4 * (n / 4))).map fun j => src (n / 4) >>> (2 * j) &&& 3
  else []

/-- `_unpack2` -/
def unpack2 : List Nat :=
  ((List.range (n / 256)).flatMap fun q =>
    (List.range 16).flatMap fun k =>
      (List.range 4).flatMap fun b => unpack2Byte (src (64 * q + (4 * k + b)))) ++
  unpack2Tail (fun j => src (64 * (n / 256) + j)) (n - 256 * (n / 256))

end

/-! ## Packing and unpacking -/

namespace Rvector

/-- `bytes`: the words in memory, least significant byte first. -/
def bytes (ell : Nat) (v : Rvector) : List Nat :=
  (List.range v.data.length).flatMap fun k => split 8 (v.word k) (wordBytes ell)

/-- The words that bytes in memory make. -/
def ofBytes (ell n : Nat) (bytes : List Nat) : Rvector where
  n := n
  data := (List.range (bytes.length / wordBytes ell)).map fun k =>
    window 8 (fun b => bytes.getD (wordBytes ell * k + b) 0) (wordBytes ell)

/-- What `packRvec` writes. -/
def packed (ell : Nat) (v : Rvector) : List Nat :=
  match ell with
  | 2 => pack2 v.word v.n
  | 3 => pack3 v.word v.n
  | 4 => pack4 v.word v.n
  | 5 => pack5 v.word v.n
  | 6 => pack6 v.word v.n
  | 7 => pack7 v.word v.n
  | ell => v.bytes ell

/-- `packRvec` -/
def packRvec (ell : Nat) (src : Rvector) (auxBuf : RvectorPack) :
    Except RvectorError RvectorPack :=
  if auxBuf.ell ≠ ell ∨ auxBuf.n ≠ src.n then .error .invalidArgument
  else .ok (auxBuf.write ((src.packed ell).map UInt8.ofNat))

/-- What `unpackRvec` writes over the bytes of the vector. -/
def unpacked (ell : Nat) (auxBuf : RvectorPack) (dst : Rvector) : List Nat :=
  match ell with
  | 2 => unpack2 auxBuf.byte dst.n
  | 3 => unpack3 auxBuf.byte dst.n
  | 4 => unpack4 auxBuf.byte dst.n
  | 5 => unpack5 auxBuf.byte dst.n
  | 6 => unpack6 auxBuf.byte dst.n
  | 7 => unpack7 auxBuf.byte dst.n
  | ell => (auxBuf.buf.map UInt8.toNat).take
      (min auxBuf.buf.length (dst.bytes ell).length)

/-- `unpackRvec` -/
def unpackRvec (ell : Nat) (auxBuf : RvectorPack) (dst : Rvector) :
    Except RvectorError Rvector :=
  if auxBuf.ell ≠ ell ∨ auxBuf.n ≠ dst.n then .error .invalidArgument
  else .ok (canonicalize ell
    (ofBytes ell dst.n (writeFront (dst.unpacked ell auxBuf) (dst.bytes ell))))

end Rvector
end Mpmt
