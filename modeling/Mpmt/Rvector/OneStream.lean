import Mpmt.Rvector.PackStream

/-!
# Packing and unpacking

`packRvec` writes as many bytes as the buffer has, and their bit stream is that
of the elements followed by zeros.  `unpackRvec` makes the canonical vector of
the elements that it reads off the bit stream of the buffer.
-/

namespace Mpmt

open BitStream

namespace Rvector

section

variable {ell : Nat} {v : Rvector}

/-! ## Words in memory -/

theorem wordBytes_of_ne (several : ell ≠ 1) : wordBytes ell = 1 := by
  rw [wordBytes, wordBits_of_ne several]

theorem eight_mul_wordBytes (ell : Nat) : 8 * wordBytes ell = wordBits ell := by
  unfold wordBytes wordBits
  split <;> rfl

theorem wordBits_pos (ell : Nat) : 0 < wordBits ell := by
  unfold wordBits
  split <;> decide

/-- The bytes of a vector are the stream of its words. -/
theorem regrouped_bytes (sized : v.Sized ell) :
    Regrouped (wordBits ell) v.word (wordBits ell * (1 * v.data.length)) 8 (v.bytes ell) := by
  refine Regrouped.flatMap (c := wordBytes ell) (wordBits_pos ell) (by decide)
    (by rw [Nat.mul_one, eight_mul_wordBytes]) (fun q => ?_) _
  have cut := regrouped_split (wordBits_pos ell) (show 0 < 8 by decide)
    (fun i => v.word (1 * q + i)) 1 (fun i _ => sized.bounded _)
    (show wordBytes ell = _ by rw [Nat.mul_one, ← eight_mul_wordBytes, length_digits (by decide)])
  simpa only [window_one, Nat.one_mul, Nat.add_zero] using cut

theorem length_bytes (sized : v.Sized ell) :
    (v.bytes ell).length = wordBytes ell * v.data.length := by
  rw [(regrouped_bytes sized).size, Nat.one_mul, ← eight_mul_wordBytes, Nat.mul_assoc,
    length_digits (by decide)]

theorem word_ofBytes (ell n : Nat) (bytes : List Nat) (k : Nat) :
    (ofBytes ell n bytes).word k =
      if k < bytes.length / wordBytes ell then
        window 8 (fun b => bytes.getD (wordBytes ell * k + b) 0) (wordBytes ell)
      else 0 :=
  word_map_range _ _ _ _

/-- Bytes enough for the words make words of the right width. -/
theorem sized_ofBytes
    {n : Nat}
    {bytes : List Nat}
    (count : bytes.length = wordBytes ell * wordCount ell n)
    (bounded : ∀ d ∈ bytes, d < 2 ^ 8) : (ofBytes ell n bytes).Sized ell where
  size := by
    have positive : 0 < wordBytes ell := by
      have whole := eight_mul_wordBytes ell
      have some := wordBits_pos ell
      omega
    rw [ofBytes, List.length_map, List.length_range, count, Nat.mul_div_cancel_left _ positive]
  bounded := by
    intro k
    rw [word_ofBytes]
    split
    · rw [← eight_mul_wordBytes]
      exact window_lt (by decide) _ fun i _ => getD_lt bounded _
    · exact Nat.two_pow_pos _

/-- The words that bytes make are their stream. -/
theorem bitAt_word_ofBytes
    {n : Nat}
    {bytes : List Nat}
    (count : bytes.length = wordBytes ell * wordCount ell n)
    (bounded : ∀ d ∈ bytes, d < 2 ^ 8)
    (k : Nat) :
    bitAt (wordBits ell) (ofBytes ell n bytes).word k =
      bitAt 8 (fun i => bytes.getD i 0) k := by
  have positive := wordBits_pos ell
  have whole := eight_mul_wordBytes ell
  have place : wordBits ell * (k / wordBits ell) + k % wordBits ell = k := Nat.div_add_mod k _
  rw [bitAt, word_ofBytes, count, Nat.mul_div_cancel_left _ (by omega)]
  split
  · have inside : k % wordBits ell < 8 * wordBytes ell := by
      rw [whole]
      exact Nat.mod_lt k positive
    rw [testBit_window (by decide) _ fun i _ => getD_lt bounded _, decide_eq_true inside,
      Bool.true_and]
    refine (bitAt_shift (by decide) (fun i => bytes.getD i 0) _ _).symm.trans ?_
    rw [← Nat.mul_assoc, whole, place]
  · next behind =>
      have outside : bytes.length ≤ k / 8 := by
        rw [count, Nat.le_div_iff_mul_le (by decide), Nat.mul_comm, ← Nat.mul_assoc, whole,
          Nat.mul_comm, ← Nat.le_div_iff_mul_le positive]
        omega
      rw [Nat.zero_testBit, bitAt, List.getD_eq_default _ _ outside, Nat.zero_testBit]

/-! ## What is packed -/

/-- The bytes that a vector is packed to: as many as a buffer has, whose stream
is that of the elements followed by zeros. -/
structure Packs (ell : Nat) (v : Rvector) (out : List Nat) : Prop where
  size : bytesFor ell v.n = .ok out.length
  bounded : ∀ d ∈ out, d < 2 ^ 8
  bits : ∀ k, bitAt 8 (fun i => out.getD i 0) k =
    (decide (k < ell * v.n) && bitAt ell (v.read ell) k)

theorem bytesFor_eq_ok
    (ellPos : 0 < ell)
    (ellLe : ell ≤ 8)
    {n : Nat}
    (room : n ≤ sizeMax / 8) :
    bytesFor ell n =
      .ok (if ell = 1 then (n + 63) / 64 * 8 else (ell * n + 8 - 1) / 8) := by
  have product : n ≤ sizeMax / ell :=
    Nat.le_trans room (Nat.div_le_div_left ellLe ellPos)
  rw [bytesFor, if_neg (by omega), if_neg (by omega)]
  split
  · rfl
  · split
    · next eight =>
        rw [eight, show (8 * n + 8 - 1) / 8 = n by omega]
    · rw [if_neg (by omega), Nat.mul_comm]
      rfl

theorem Regrouped.packs
    (ellPos : 0 < ell)
    (ellLe : ell ≤ 8)
    (several : ell ≠ 1)
    (room : v.n ≤ sizeMax / 8)
    {out : List Nat}
    (regrouped : Regrouped ell (v.read ell) (ell * v.n) 8 out) : Packs ell v out where
  size := by rw [bytesFor_eq_ok ellPos ellLe room, if_neg several, regrouped.size]
  bounded := regrouped.bounded
  bits := regrouped.bits

/-- The elements of a bit vector are its bits. -/
theorem bitAt_read_one (v : Rvector) (k : Nat) : bitAt 1 (v.read 1) k = v.bit k := by
  rw [bitAt, Nat.div_one, Nat.mod_one, read_one]
  cases v.bit k <;> rfl

theorem packs_bytes_one
    (canonical : v.Canonical 1)
    (room : v.n ≤ sizeMax / 8) : Packs 1 v (v.bytes 1) where
  size := by
    have size : v.data.length = (v.n + 63) / 64 := canonical.size
    rw [bytesFor_eq_ok (by decide) (by decide) room, if_pos rfl, length_bytes canonical.sized,
      size, Nat.mul_comm]
    rfl
  bounded := (regrouped_bytes canonical.sized).bounded
  bits := by
    intro k
    have size : v.data.length = (v.n + 63) / 64 := canonical.size
    have all := (regrouped_bytes canonical.sized).bits k
    rw [all, bitAt_read_one]
    by_cases inside : k < v.n
    · rw [decide_eq_true (show k < wordBits 1 * (1 * v.data.length) by
        rw [show wordBits 1 = 64 from rfl]; omega), decide_eq_true (by omega)]
      rfl
    · have padding : bitAt (wordBits 1) v.word k = false := canonical.padding rfl k (by omega)
      rw [padding, decide_eq_false (show ¬ k < 1 * v.n by omega), Bool.and_false, Bool.false_and]

theorem regrouped_bytes_eight (canonical : v.Canonical 8) :
    Regrouped 8 (v.read 8) (8 * v.n) 8 (v.bytes 8) := by
  have size : v.data.length = v.n := by
    rw [canonical.size, wordCount_of_ne (by decide)]
  have read : v.read 8 = v.word := by
    funext i
    have bounded : v.word i < 2 ^ 8 := canonical.bounded i
    rw [read_of_ne (by decide) (by decide), Nat.mod_eq_of_lt bounded]
  have all := regrouped_bytes canonical.sized
  rw [show wordBits 8 = 8 from rfl, Nat.one_mul, size] at all
  rwa [read]

/-- Every width writes the stream of its elements. -/
theorem packs_packed
    (ellPos : 0 < ell)
    (ellLe : ell ≤ 8)
    (canonical : v.Canonical ell)
    (room : v.n ≤ sizeMax / 8) : Packs ell v (v.packed ell) := by
  by_cases one : ell = 1
  · subst one
    exact packs_bytes_one canonical room
  · apply Regrouped.packs ellPos ellLe one room
    interval_cases ell
    · exact absurd rfl one
    · exact regrouped_pack2 v.word v.n
    · exact regrouped_packWindow (by decide) rfl (by decide) v.word v.n
    · exact regrouped_pack4 v.word v.n
    · exact regrouped_packWindow (by decide) rfl (by decide) v.word v.n
    · exact regrouped_packWindow (by decide) rfl (by decide) v.word v.n
    · exact regrouped_packWindow (by decide) rfl (by decide) v.word v.n
    · exact regrouped_bytes_eight canonical

/-! ## What is unpacked -/

theorem bytesFor_valid
    {n count : Nat}
    (valid : bytesFor ell n = .ok count) : 0 < ell ∧ ell ≤ 8 ∧ n ≤ sizeMax / 8 := by
  unfold bytesFor at valid
  split at valid
  · cases valid
  · split at valid
    · cases valid
    · omega

/-- The canonical vector of the elements in a buffer. -/
structure Unpacks (ell : Nat) (auxBuf : RvectorPack) (w : Rvector) : Prop where
  n : w.n = auxBuf.n
  reduced : w.Reduced ell
  bits : ∀ i < w.n, ∀ j < ell, (w.read ell i).testBit j = auxBuf.bit (ell * i + j)

theorem toNat_lt_of_mem (buf : List UInt8) : ∀ d ∈ buf.map UInt8.toNat, d < 2 ^ 8 := by
  intro d member
  obtain ⟨byte, -, rfl⟩ := List.mem_map.mp member
  exact byte.toNat_lt

theorem byte_lt (auxBuf : RvectorPack) (k : Nat) : auxBuf.byte k < 2 ^ 8 :=
  getD_lt (toNat_lt_of_mem auxBuf.buf) k

theorem mem_writeFront
    {new old : List α}
    (member : d ∈ writeFront new old) : d ∈ new ∨ d ∈ old := by
  rcases List.mem_append.mp (List.mem_of_mem_take member) with left | right
  · exact Or.inl left
  · exact Or.inr (List.mem_of_mem_drop right)

/-- Bytes over the front of the words of a vector make words. -/
theorem sized_writeFront
    (sized : v.Sized ell)
    {out : List Nat}
    (bounded : ∀ d ∈ out, d < 2 ^ 8) :
    (ofBytes ell v.n (writeFront out (v.bytes ell))).Sized ell := by
  refine sized_ofBytes (by rw [length_writeFront, length_bytes sized, sized.size]) ?_
  intro d member
  rcases mem_writeFront member with new | old
  · exact bounded d new
  · exact (regrouped_bytes sized).bounded d old

/-- The elements of several bits that a kernel writes. -/
theorem unpacks_of_regrouped
    {auxBuf : RvectorPack}
    (ellPos : 0 < ell)
    (ellLe : ell ≤ 8)
    (several : ell ≠ 1)
    (sized : v.Sized ell)
    (sameN : auxBuf.n = v.n)
    {out : List Nat}
    (regrouped : Regrouped 8 auxBuf.byte (ell * v.n) ell out) :
    Unpacks ell auxBuf
      (canonicalize ell (ofBytes ell v.n (writeFront out (v.bytes ell)))) := by
  have length : out.length = v.n := by rw [regrouped.size, length_digits ellPos]
  have lengthBytes : (v.bytes ell).length = v.n := by
    rw [length_bytes sized, wordBytes_of_ne several, sized.size, wordCount_of_ne several,
      Nat.one_mul]
  have bounded : ∀ d ∈ out, d < 2 ^ 8 := fun d member =>
    Nat.lt_of_lt_of_le (regrouped.bounded d member) (Nat.pow_le_pow_right (by decide) ellLe)
  have sized' := sized_writeFront sized bounded
  refine ⟨by rw [n_canonicalize, sameN]; rfl, sized'.reduced_canonicalize ellLe,
    fun i inside j jLt => ?_⟩
  rw [n_canonicalize] at inside
  have inside' : i < v.n := inside
  have word : (ofBytes ell v.n (writeFront out (v.bytes ell))).word i = out.getD i 0 := by
    rw [writeFront_of_length_eq (by omega), word_ofBytes, wordBytes_of_ne several, Nat.div_one,
      if_pos (by omega), window_one, Nat.one_mul, Nat.add_zero]
  have digit := regrouped.bits (ell * i + j)
  have within : ell * i + j < ell * v.n := by
    have step : ell * (i + 1) ≤ ell * v.n := Nat.mul_le_mul_left ell inside'
    rw [Nat.mul_add, Nat.mul_one] at step
    omega
  rw [decide_eq_true within, Bool.true_and, bitAt_mul_add _ i jLt] at digit
  rw [read_canonicalize ellLe sized' inside, read_of_ne several ellLe, word,
    Nat.mod_eq_of_lt (getD_lt regrouped.bounded i), digit]
  rfl

/-- Where bytes are copied, the buffer has as many as the vector. -/
theorem length_buf_of_copied
    {auxBuf : RvectorPack}
    (copied : ell = 1 ∨ ell = 8)
    (sized : v.Sized ell)
    (sameEll : auxBuf.ell = ell)
    (sameN : auxBuf.n = v.n) : auxBuf.buf.length = (v.bytes ell).length := by
  obtain ⟨ellPos, ellLe, room⟩ := bytesFor_valid auxBuf.sized
  have count := auxBuf.sized
  rw [bytesFor_eq_ok ellPos ellLe room, sameEll, sameN] at count
  rw [length_bytes sized, sized.size, ← Except.ok.inj count]
  rcases copied with rfl | rfl
  · rw [if_pos rfl, Nat.mul_comm]
    rfl
  · rw [if_neg (by decide), wordBytes_of_ne (by decide), wordCount_of_ne (by decide)]
    omega

theorem unpacked_of_copied
    {auxBuf : RvectorPack}
    (sameLength : auxBuf.buf.length = (v.bytes ell).length) :
    (auxBuf.buf.map UInt8.toNat).take (min auxBuf.buf.length (v.bytes ell).length) =
      auxBuf.buf.map UInt8.toNat :=
  List.take_of_length_le (by rw [List.length_map, ← sameLength, min_self])

theorem unpacks_one
    {auxBuf : RvectorPack}
    (sized : v.Sized 1)
    (sameEll : auxBuf.ell = 1)
    (sameN : auxBuf.n = v.n) :
    Unpacks 1 auxBuf
      (canonicalize 1 (ofBytes 1 v.n (writeFront (v.unpacked 1 auxBuf) (v.bytes 1)))) := by
  have sameLength := length_buf_of_copied (Or.inl rfl) sized sameEll sameN
  have whole : v.unpacked 1 auxBuf = auxBuf.buf.map UInt8.toNat := unpacked_of_copied sameLength
  have sized' := sized_writeFront sized (toNat_lt_of_mem auxBuf.buf)
  rw [whole]
  refine ⟨by rw [n_canonicalize, sameN]; rfl, sized'.reduced_canonicalize (by decide),
    fun i inside j jLt => ?_⟩
  rw [n_canonicalize] at inside
  obtain rfl : j = 0 := by omega
  have count : (auxBuf.buf.map UInt8.toNat).length = wordBytes 1 * wordCount 1 v.n := by
    rw [List.length_map, sameLength, length_bytes sized, sized.size]
  have stream := bitAt_word_ofBytes count (toNat_lt_of_mem auxBuf.buf) i
  rw [read_canonicalize (by decide) sized' inside, read_one,
    writeFront_of_length_eq (by rw [List.length_map, sameLength]), Nat.one_mul, Nat.add_zero,
    RvectorPack.bit]
  refine Eq.trans ?_ stream
  show _ = bit _ i
  cases bit (ofBytes 1 v.n (auxBuf.buf.map UInt8.toNat)) i <;> rfl

theorem regrouped_buf (auxBuf : RvectorPack) (w : Nat) (isLength : auxBuf.buf.length = w) :
    Regrouped 8 auxBuf.byte (8 * w) 8 (auxBuf.buf.map UInt8.toNat) where
  size := by rw [List.length_map, isLength, length_digits (by decide)]
  bounded := toNat_lt_of_mem auxBuf.buf
  bits := by
    intro k
    by_cases inside : k < 8 * w
    · rw [decide_eq_true inside, Bool.true_and]
      rfl
    · rw [decide_eq_false inside, Bool.false_and, bitAt, List.getD_eq_default, Nat.zero_testBit]
      rw [List.length_map]
      omega

/-- Every width reads the stream of the buffer. -/
theorem unpacks_unpacked
    {auxBuf : RvectorPack}
    (sized : v.Sized ell)
    (sameEll : auxBuf.ell = ell)
    (sameN : auxBuf.n = v.n) :
    Unpacks ell auxBuf
      (canonicalize ell (ofBytes ell v.n (writeFront (v.unpacked ell auxBuf) (v.bytes ell)))) := by
  obtain ⟨ellPos, ellLe, room⟩ := bytesFor_valid auxBuf.sized
  rw [sameEll] at ellPos ellLe
  by_cases one : ell = 1
  · subst one
    exact unpacks_one sized sameEll sameN
  · apply unpacks_of_regrouped ellPos ellLe one sized sameN
    interval_cases ell
    · exact absurd rfl one
    · exact regrouped_unpack2 (byte_lt auxBuf) v.n
    · exact regrouped_unpackWindow (by decide) (by decide) rfl (by decide) (byte_lt auxBuf) v.n
    · exact regrouped_unpack4 (byte_lt auxBuf) v.n
    · exact regrouped_unpackWindow (by decide) (by decide) rfl (by decide) (byte_lt auxBuf) v.n
    · exact regrouped_unpackWindow (by decide) (by decide) rfl (by decide) (byte_lt auxBuf) v.n
    · exact regrouped_unpackWindow (by decide) (by decide) rfl (by decide) (byte_lt auxBuf) v.n
    · have sameLength := length_buf_of_copied (Or.inr rfl) sized sameEll sameN
      have whole : v.unpacked 8 auxBuf = auxBuf.buf.map UInt8.toNat :=
        unpacked_of_copied sameLength
      rw [whole]
      refine regrouped_buf auxBuf v.n ?_
      rw [sameLength, length_bytes sized, sized.size, wordBytes_of_ne one, wordCount_of_ne one,
        Nat.one_mul]

/-! ## Both ways -/

/-- What packing a vector leaves in a buffer: every byte is written, element
`i` is in the bits from `ell * i` on, and the bits behind the last element are
zero. -/
structure PackedIn (ell : Nat) (v : Rvector) (out : RvectorPack) : Prop where
  sameEll : out.ell = ell
  sameN : out.n = v.n
  written : out.buf.map UInt8.toNat = v.packed ell
  size : bytesFor ell v.n = .ok (v.packed ell).length
  bits : ∀ i < v.n, ∀ j < ell, out.bit (ell * i + j) = (v.read ell i).testBit j
  tail : ∀ k, ell * v.n ≤ k → out.bit k = false

theorem map_toNat_map_ofNat
    {out : List Nat}
    (bounded : ∀ d ∈ out, d < 2 ^ 8) : (out.map UInt8.ofNat).map UInt8.toNat = out := by
  rw [List.map_map]
  refine (List.map_congr_left fun d member => ?_).trans (List.map_id out)
  rw [Function.comp_apply, UInt8.toNat_ofNat', Nat.mod_eq_of_lt (bounded d member), id]

/-- `packRvec` writes the whole buffer. -/
theorem packRvec_eq_ok
    {auxBuf : RvectorPack}
    (canonical : v.Canonical ell)
    (sameEll : auxBuf.ell = ell)
    (sameN : auxBuf.n = v.n) :
    ∃ out, packRvec ell v auxBuf = .ok out ∧ PackedIn ell v out := by
  obtain ⟨ellPos, ellLe, room⟩ := bytesFor_valid auxBuf.sized
  rw [sameEll] at ellPos ellLe
  rw [sameN] at room
  have packs := packs_packed ellPos ellLe canonical room
  have length : (v.packed ell).length = auxBuf.buf.length := by
    have count := auxBuf.sized
    rw [sameEll, sameN, packs.size] at count
    exact Except.ok.inj count
  refine ⟨_, by rw [packRvec, if_neg (by simp [sameEll, sameN])], ?_⟩
  have written : (auxBuf.write ((v.packed ell).map UInt8.ofNat)).buf.map UInt8.toNat =
      v.packed ell := by
    show (writeFront _ auxBuf.buf).map UInt8.toNat = _
    rw [writeFront_of_length_eq (by rw [List.length_map, length]),
      map_toNat_map_ofNat packs.bounded]
  have bits : ∀ k, (auxBuf.write ((v.packed ell).map UInt8.ofNat)).bit k =
      (decide (k < ell * v.n) && bitAt ell (v.read ell) k) := by
    intro k
    have stream := packs.bits k
    rw [← written] at stream
    exact stream
  refine ⟨sameEll, sameN, written, packs.size, fun i inside j jLt => ?_, fun k behind => ?_⟩
  · have within : ell * i + j < ell * v.n := by
      have step : ell * (i + 1) ≤ ell * v.n := Nat.mul_le_mul_left ell inside
      rw [Nat.mul_add, Nat.mul_one] at step
      omega
    rw [bits, decide_eq_true within, Bool.true_and, bitAt_mul_add _ i jLt]
  · rw [bits, decide_eq_false (by omega), Bool.false_and]

/-- `unpackRvec` makes the canonical vector of the buffer, whatever the vector
held before. -/
theorem unpackRvec_eq_ok
    {auxBuf : RvectorPack}
    (canonical : v.Canonical ell)
    (sameEll : auxBuf.ell = ell)
    (sameN : auxBuf.n = v.n) :
    ∃ w, unpackRvec ell auxBuf v = .ok w ∧ Unpacks ell auxBuf w :=
  ⟨_, by rw [unpackRvec, if_neg (by simp [sameEll, sameN])],
    unpacks_unpacked canonical.sized sameEll sameN⟩

/-- Elements are determined by their bits. -/
theorem read_eq_of_testBit
    (ellLe : ell ≤ 8)
    {w : Rvector}
    {i i' : Nat}
    (same : ∀ j < ell, (w.read ell i).testBit j = (v.read ell i').testBit j) :
    w.read ell i = v.read ell i' :=
  eq_of_testBit_eq (read_lt ellLe w i) (read_lt ellLe v i') same

/-- What was packed is read back. -/
theorem PackedIn.read_eq
    {out filled : RvectorPack}
    {w : Rvector}
    (packed : PackedIn ell v out)
    (ellLe : ell ≤ 8)
    (same : filled.buf = out.buf)
    (unpacks : Unpacks ell filled w)
    (sameN : w.n = v.n)
    {i : Nat}
    (inside : i < v.n) : w.read ell i = v.read ell i := by
  have sameBit : filled.bit = out.bit := by
    funext k
    rw [RvectorPack.bit, RvectorPack.bit]
    unfold RvectorPack.byte
    rw [same]
  refine read_eq_of_testBit ellLe fun j jLt => ?_
  rw [unpacks.bits i (by omega) j jLt, sameBit, packed.bits i inside j jLt]

/-- The packed form is one bit stream for every width and every length.  A
packed vector reads back as it was, and a buffer that is read and packed again
keeps every bit of an element and no other. -/
theorem packed_one_stream
    (auxBuf : RvectorPack)
    (canonical : v.Canonical ell)
    (sameEll : auxBuf.ell = ell)
    (sameN : auxBuf.n = v.n) :
    (∃ out, packRvec ell v auxBuf = .ok out ∧ PackedIn ell v out ∧
      ∀ dst : Rvector, dst.Canonical ell -> dst.n = v.n ->
        ∃ w, unpackRvec ell out dst = .ok w ∧ w.Canonical ell ∧ w.n = v.n ∧
          ∀ i < v.n, w.read ell i = v.read ell i) ∧
    ∃ w, unpackRvec ell auxBuf v = .ok w ∧ Unpacks ell auxBuf w ∧
      ∀ scratch : RvectorPack, scratch.ell = ell -> scratch.n = v.n ->
        ∃ out, packRvec ell w scratch = .ok out ∧
          ∀ k, out.bit k = (decide (k < ell * v.n) && auxBuf.bit k) := by
  obtain ⟨ellPos, ellLe, -⟩ := bytesFor_valid auxBuf.sized
  rw [sameEll] at ellPos ellLe
  constructor
  · obtain ⟨out, isPacked, packed⟩ := packRvec_eq_ok canonical sameEll sameN
    refine ⟨out, isPacked, packed, fun dst canonical' sameN' => ?_⟩
    obtain ⟨w, isUnpacked, unpacks⟩ := unpackRvec_eq_ok canonical' packed.sameEll
      (packed.sameN.trans sameN'.symm)
    have n : w.n = v.n := unpacks.n.trans packed.sameN
    exact ⟨w, isUnpacked, unpacks.reduced.toCanonical, n, fun i inside =>
      packed.read_eq ellLe rfl unpacks n inside⟩
  · obtain ⟨w, isUnpacked, unpacks⟩ := unpackRvec_eq_ok canonical sameEll sameN
    have n : w.n = v.n := unpacks.n.trans sameN
    refine ⟨w, isUnpacked, unpacks, fun scratch sameEll' sameN' => ?_⟩
    obtain ⟨out, isPacked, packed⟩ := packRvec_eq_ok unpacks.reduced.toCanonical sameEll'
      (sameN'.trans n.symm)
    refine ⟨out, isPacked, fun k => ?_⟩
    by_cases inside : k < ell * v.n
    · have place : ell * (k / ell) + k % ell = k := Nat.div_add_mod k ell
      have digit : k / ell < w.n := by
        rw [n, Nat.div_lt_iff_lt_mul ellPos, Nat.mul_comm]
        exact inside
      have jLt : k % ell < ell := Nat.mod_lt k ellPos
      rw [decide_eq_true inside, Bool.true_and, ← place, packed.bits _ digit _ jLt,
        unpacks.bits _ digit _ jLt]
    · rw [decide_eq_false inside, Bool.false_and, packed.tail k (by rw [n]; omega)]

/-- Elements of two bits: a block of 256 and a tail of 44. -/
theorem packed_one_stream_blocks :
    (∃ out, packRvec 2 (construct 2 300 fun k => 7 * k) ⟨2, 300, List.replicate 75 0, rfl⟩ =
        .ok out ∧
      PackedIn 2 (construct 2 300 fun k => 7 * k) out ∧
      ∀ dst : Rvector, dst.Canonical 2 -> dst.n = 300 ->
        ∃ w, unpackRvec 2 out dst = .ok w ∧ w.Canonical 2 ∧ w.n = 300 ∧
          ∀ i < 300, w.read 2 i = (construct 2 300 fun k => 7 * k).read 2 i) ∧
    ∃ w, unpackRvec 2 ⟨2, 300, List.replicate 75 0xAB, rfl⟩ (construct 2 300 fun k => 7 * k) =
        .ok w ∧ Unpacks 2 ⟨2, 300, List.replicate 75 0xAB, rfl⟩ w := by
  have canonical := canonical_construct 2 (n := 300) (by decide) fun k => 7 * k
  obtain ⟨packs, -⟩ := packed_one_stream ⟨2, 300, List.replicate 75 0, rfl⟩ canonical rfl rfl
  obtain ⟨-, w, isUnpacked, unpacks, -⟩ :=
    packed_one_stream ⟨2, 300, List.replicate 75 0xAB, rfl⟩ canonical rfl rfl
  exact ⟨packs, w, isUnpacked, unpacks⟩

end

end Rvector
end Mpmt
