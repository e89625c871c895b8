import Mpmt.Rvector.OneStream

/-!
# Vector files

A vector file is a magic number, the width and the number of the elements, and
the packed elements.  `load` compares all of it, and the size of what follows,
before it unpacks into the vector.
-/

namespace Mpmt

open BitStream

namespace Rvector

/-- `FILE_MAGIC` -/
def fileMagic : Nat := 0x4D504D54

/-- The `k` bytes of a number in memory. -/
def toMemory (k x : Nat) : List UInt8 := (split 8 x k).map UInt8.ofNat

/-- The number that bytes in memory are. -/
def ofMemory (bytes : List UInt8) : Nat :=
  window 8 (fun i => (bytes.map UInt8.toNat).getD i 0) (bytes.map UInt8.toNat).length

/-- The bytes before the payload. -/
def fileHeader (ell n : Nat) : List UInt8 :=
  toMemory 4 fileMagic ++ (toMemory 8 ell ++ toMemory 8 n)

/-- The extension of vector files. -/
def extension : String := ".mpmtrvp"

/-- `_checkExt` -/
def checkExt (path : String) : Except RvectorError Unit :=
  if extension.toList <:+ path.toList then .ok () else .error .runtimeError

/-- `save` into a file that can be opened and written: its bytes, and the
buffer. -/
def save (ell : Nat) (path : String) (v : Rvector) (auxBuf : RvectorPack) :
    Except RvectorError (List UInt8 × RvectorPack) := do
  checkExt path
  let auxBuf ← packRvec ell v auxBuf
  pure (fileHeader ell v.n ++ auxBuf.buf, auxBuf)

/-- What `load` reads and compares before the payload: the magic number, the
header and the number of bytes to the end of the file. -/
def readHeader (ell n size : Nat) (content : List UInt8) : Except RvectorError (List UInt8) :=
  if content.length < 4 then .error .runtimeError
  else if ofMemory (content.take 4) ≠ fileMagic then .error .runtimeError
  else if (content.drop 4).length < 16 then .error .runtimeError
  else if ofMemory ((content.drop 4).take 8) ≠ ell then .error .runtimeError
  else if ofMemory ((content.drop 12).take 8) ≠ n then .error .runtimeError
  else if (content.drop 20).length ≠ size then .error .runtimeError
  else .ok (content.drop 20)

/-- What is left of a call of `load`. -/
structure Loaded where
  auxBuf : RvectorPack
  vector : Rvector
  result : Except RvectorError Unit

/-- `load`.  There is no content where the file cannot be opened. -/
def load (ell : Nat) (path : String) (file : Option (List UInt8)) (auxBuf : RvectorPack)
    (v : Rvector) : Loaded :=
  match checkExt path, file with
  | .error error, _ => ⟨auxBuf, v, .error error⟩
  | .ok _, none => ⟨auxBuf, v, .error .runtimeError⟩
  | .ok _, some content =>
      match readHeader ell v.n auxBuf.buf.length content with
      | .error error => ⟨auxBuf, v, .error error⟩
      | .ok payload =>
          let auxBuf := auxBuf.write payload
          match unpackRvec ell auxBuf v with
          | .error error => ⟨auxBuf, v, .error error⟩
          | .ok v => ⟨auxBuf, if ell = 1 then v.maskPartialLastWord ell else v, .ok ()⟩

section

variable {ell : Nat} {v w : Rvector}

/-! ## Numbers in memory -/

theorem length_toMemory (k x : Nat) : (toMemory k x).length = k := by
  rw [toMemory, List.length_map, length_split]

theorem ofMemory_toMemory
    {k x : Nat}
    (inside : x < 2 ^ (8 * k)) : ofMemory (toMemory k x) = x := by
  rw [ofMemory, toMemory, map_toNat_map_ofNat (split_bounded 8 x k), length_split,
    window_split (by decide) inside]

theorem toMemory_ofMemory (bytes : List UInt8) :
    toMemory bytes.length (ofMemory bytes) = bytes := by
  have digits := split_window (show 0 < 8 by decide) (toNat_lt_of_mem bytes)
  rw [List.length_map] at digits
  rw [toMemory, ofMemory, List.length_map, digits, List.map_map]
  refine (List.map_congr_left fun byte _ => ?_).trans (List.map_id bytes)
  exact UInt8.ofNat_toNat

/-- A field of a file holds a number when it holds the bytes of the number. -/
theorem ofMemory_eq_iff
    {k x : Nat}
    {bytes : List UInt8}
    (length : bytes.length = k)
    (inside : x < 2 ^ (8 * k)) : ofMemory bytes = x ↔ bytes = toMemory k x := by
  constructor
  · rintro rfl
    rw [← length, toMemory_ofMemory]
  · rintro rfl
    exact ofMemory_toMemory inside

theorem length_fileHeader (ell n : Nat) : (fileHeader ell n).length = 20 := by
  simp only [fileHeader, List.length_append, length_toMemory]

/-- `load` accepts what begins with the header and has the right size. -/
theorem readHeader_eq_ok
    {n size : Nat}
    (ellLt : ell < 2 ^ 64)
    (nLt : n < 2 ^ 64)
    {content payload : List UInt8} :
    readHeader ell n size content = .ok payload ↔
      content = fileHeader ell n ++ payload ∧ payload.length = size := by
  unfold readHeader
  constructor
  · intro accepted
    split at accepted
    · cases accepted
    next magicRoom =>
    split at accepted
    · cases accepted
    next isMagic =>
    split at accepted
    · cases accepted
    next headerRoom =>
    split at accepted
    · cases accepted
    next isEll =>
    split at accepted
    · cases accepted
    next isN =>
    split at accepted
    · cases accepted
    next isSize =>
    obtain rfl := Except.ok.inj accepted
    rw [List.length_drop] at headerRoom
    have magic := (ofMemory_eq_iff (k := 4) (by rw [List.length_take]; omega)
      (by decide)).mp (not_not.mp isMagic)
    have width := (ofMemory_eq_iff (k := 8)
      (by rw [List.length_take, List.length_drop]; omega) ellLt).mp (not_not.mp isEll)
    have count := (ofMemory_eq_iff (k := 8)
      (by rw [List.length_take, List.length_drop]; omega) nLt).mp (not_not.mp isN)
    refine ⟨?_, not_not.mp isSize⟩
    rw [fileHeader, ← magic, ← width, ← count, List.append_assoc, List.append_assoc,
      show content.drop 20 = ((content.drop 12).drop 8) by rw [List.drop_drop],
      List.take_append_drop, show content.drop 12 = ((content.drop 4).drop 8) by
        rw [List.drop_drop], List.take_append_drop, List.take_append_drop]
  · rintro ⟨rfl, isSize⟩
    have dropAll : (fileHeader ell n ++ payload).drop 20 = payload :=
      List.drop_left' (length_fileHeader ell n)
    have magic : (fileHeader ell n ++ payload).take 4 = toMemory 4 fileMagic := by
      rw [fileHeader, List.append_assoc, List.take_left' (length_toMemory _ _)]
    have afterMagic : (fileHeader ell n ++ payload).drop 4 =
        toMemory 8 ell ++ (toMemory 8 n ++ payload) := by
      rw [fileHeader, List.append_assoc, List.drop_left' (length_toMemory _ _),
        List.append_assoc]
    have afterEll : (fileHeader ell n ++ payload).drop 12 = toMemory 8 n ++ payload := by
      rw [show 12 = 4 + 8 from rfl, ← List.drop_drop, afterMagic,
        List.drop_left' (length_toMemory _ _)]
    rw [dropAll, magic, afterMagic, afterEll, List.take_left' (length_toMemory _ _),
      List.take_left' (length_toMemory _ _), ofMemory_toMemory (by decide),
      ofMemory_toMemory ellLt, ofMemory_toMemory nLt]
    have whole : (fileHeader ell n ++ payload).length = 20 + payload.length := by
      rw [List.length_append, length_fileHeader]
    have rest : (toMemory 8 ell ++ (toMemory 8 n ++ payload)).length = 16 + payload.length := by
      rw [List.length_append, List.length_append, length_toMemory, length_toMemory]
      omega
    rw [if_neg (by omega), if_neg (not_not.mpr rfl), if_neg (by omega), if_neg (not_not.mpr rfl),
      if_neg (not_not.mpr rfl), if_neg (not_not.mpr isSize)]

/-! ## Loading -/

/-- Masking changes nothing in a canonical vector. -/
theorem mask_eq_self
    (ellLe : ell ≤ 8)
    (reduced : v.Reduced ell) : v.maskPartialLastWord ell = v := by
  have sized := reduced.toCanonical.sized
  refine reduced.eq_of_read ellLe ⟨sized.canonical_mask, fun several k => ?_⟩
    (n_maskPartialLastWord ell v) fun i inside => read_maskPartialLastWord sized inside
  rw [maskPartialLastWord_of_ne several]
  exact reduced.elements several k

/-- What a file must be for `load` to succeed, and with which buffer. -/
structure Loadable (ell : Nat) (path : String) (content : List UInt8) (auxBuf : RvectorPack)
    (v : Rvector) (payload : List UInt8) : Prop where
  named : checkExt path = .ok ()
  sameEll : auxBuf.ell = ell
  sameN : auxBuf.n = v.n
  isContent : content = fileHeader ell v.n ++ payload
  size : payload.length = auxBuf.buf.length

/-- A file that fits is unpacked. -/
theorem Loadable.load
    {path : String}
    {content payload : List UInt8}
    {auxBuf : RvectorPack}
    (loadable : Loadable ell path content auxBuf v payload)
    (canonical : v.Canonical ell) :
    ∃ filled w, Rvector.load ell path (some content) auxBuf v = ⟨filled, w, .ok ()⟩ ∧
      filled.buf = payload ∧ Unpacks ell filled w ∧ w.n = v.n := by
  obtain ⟨ellPos, ellLe, room⟩ := bytesFor_valid auxBuf.sized
  rw [loadable.sameEll] at ellPos ellLe
  rw [loadable.sameN, sizeMax] at room
  have accepted : readHeader ell v.n auxBuf.buf.length content = .ok payload :=
    (readHeader_eq_ok (by omega) (by omega)).mpr ⟨loadable.isContent, loadable.size⟩
  have filled : (auxBuf.write payload).buf = payload := writeFront_of_length_eq loadable.size
  obtain ⟨w, isUnpacked, unpacks⟩ : ∃ w, unpackRvec ell (auxBuf.write payload) v = .ok w ∧
      Unpacks ell (auxBuf.write payload) w :=
    unpackRvec_eq_ok canonical loadable.sameEll loadable.sameN
  refine ⟨auxBuf.write payload, w, ?_, filled, unpacks, unpacks.n.trans loadable.sameN⟩
  have masked : (if ell = 1 then w.maskPartialLastWord ell else w) = w := by
    split
    · exact mask_eq_self ellLe unpacks.reduced
    · rfl
  simp only [Rvector.load, loadable.named, accepted, isUnpacked, masked]

/-- `load` succeeds on nothing else. -/
theorem loadable_of_load
    {path : String}
    {content : List UInt8}
    {auxBuf : RvectorPack}
    (loaded : (load ell path (some content) auxBuf v).result = .ok ()) :
    ∃ payload, Loadable ell path content auxBuf v payload := by
  unfold load at loaded
  split at loaded
  · cases loaded
  · cases loaded
  next named same =>
  obtain rfl := Option.some.inj same
  split at loaded
  · cases loaded
  next payload accepted =>
  dsimp only at loaded
  split at loaded
  · cases loaded
  next w isUnpacked =>
  rw [unpackRvec] at isUnpacked
  split at isUnpacked
  · cases isUnpacked
  next matching =>
  obtain ⟨sameEll, sameN⟩ : auxBuf.ell = ell ∧ auxBuf.n = v.n := by
    rw [not_or, not_not, not_not] at matching
    exact matching
  obtain ⟨ellPos, ellLe, room⟩ := bytesFor_valid auxBuf.sized
  rw [sameEll] at ellPos ellLe
  rw [sameN, sizeMax] at room
  obtain ⟨isContent, size⟩ := (readHeader_eq_ok (show ell < 2 ^ 64 by omega)
    (show v.n < 2 ^ 64 by omega)).mp accepted
  exact ⟨payload, named, sameEll, sameN, isContent, size⟩

/-- A failed `load` leaves the vector alone. -/
theorem load_unchanged
    {path : String}
    {file : Option (List UInt8)}
    {auxBuf : RvectorPack}
    (failed : (load ell path file auxBuf v).result ≠ .ok ()) :
    (load ell path file auxBuf v).vector = v := by
  cases named : checkExt path with
  | error error => simp [load, named]
  | ok _ =>
      cases file with
      | none => simp [load, named]
      | some content =>
          cases accepted : readHeader ell v.n auxBuf.buf.length content with
          | error error => simp [load, named, accepted]
          | ok payload =>
              cases isUnpacked : unpackRvec ell (auxBuf.write payload) v with
              | error error => simp [load, named, accepted, isUnpacked]
              | ok w => simp [load, named, accepted, isUnpacked] at failed

/-- What `save` writes can be loaded. -/
theorem save_eq_ok
    {path : String}
    {auxBuf : RvectorPack}
    (named : checkExt path = .ok ())
    (canonical : v.Canonical ell)
    (sameEll : auxBuf.ell = ell)
    (sameN : auxBuf.n = v.n) :
    ∃ out, save ell path v auxBuf = .ok (fileHeader ell v.n ++ out.buf, out) ∧
      PackedIn ell v out := by
  obtain ⟨out, isPacked, packed⟩ := packRvec_eq_ok canonical sameEll sameN
  exact ⟨out, by rw [save, named, isPacked]; rfl, packed⟩

/-- Vector files load exactly what was saved, and nothing else loads. -/
theorem load_exact
    (canonical : w.Canonical ell)
    (path : String) :
    (∀ (v : Rvector) (auxBuf other : RvectorPack), v.Canonical ell -> v.n = w.n ->
      auxBuf.ell = ell -> auxBuf.n = v.n -> other.ell = ell -> other.n = w.n ->
      checkExt path = .ok () ->
      ∃ content out, save ell path v auxBuf = .ok (content, out) ∧
        ∃ filled w', load ell path (some content) other w = ⟨filled, w', .ok ()⟩ ∧
          w'.Reduced ell ∧ w'.n = v.n ∧ (∀ i < v.n, w'.read ell i = v.read ell i) ∧
          (v.Reduced ell -> w' = v)) ∧
    ∀ (content : List UInt8) (auxBuf : RvectorPack),
      ((load ell path (some content) auxBuf w).result = .ok () ↔
        ∃ payload, Loadable ell path content auxBuf w payload) ∧
      ((load ell path (some content) auxBuf w).result ≠ .ok () ->
        (load ell path (some content) auxBuf w).vector = w) ∧
      ∀ payload, Loadable ell path content auxBuf w payload ->
        ∃ filled w', load ell path (some content) auxBuf w = ⟨filled, w', .ok ()⟩ ∧
          filled.buf = payload ∧ Unpacks ell filled w' ∧ w'.n = w.n := by
  refine ⟨fun v auxBuf other canonical' sameSize sameEll sameN sameEll' sameN' named => ?_,
    fun content auxBuf => ⟨⟨loadable_of_load, ?_⟩, load_unchanged, fun payload loadable =>
      loadable.load canonical⟩⟩
  · obtain ⟨out, isSaved, packed⟩ := save_eq_ok named canonical' sameEll sameN
    have sameLength : out.buf.length = other.buf.length := by
      have count := out.sized
      rw [packed.sameEll, packed.sameN, sameSize, ← sameEll', ← sameN', other.sized] at count
      exact (Except.ok.inj count).symm
    have loadable : Loadable ell path (fileHeader ell v.n ++ out.buf) other w out.buf :=
      ⟨named, sameEll', sameN', by rw [sameSize], sameLength⟩
    obtain ⟨filled, w', isLoaded, isFilled, unpacks, n⟩ := loadable.load canonical
    obtain ⟨-, ellLe, -⟩ := bytesFor_valid auxBuf.sized
    rw [sameEll] at ellLe
    rw [← sameSize] at n
    have read : ∀ i < v.n, w'.read ell i = v.read ell i := fun i inside =>
      packed.read_eq ellLe isFilled unpacks n inside
    exact ⟨_, out, isSaved, filled, w', isLoaded, unpacks.reduced, n, read, fun reduced =>
      reduced.eq_of_read ellLe unpacks.reduced n read⟩
  · rintro ⟨payload, loadable⟩
    obtain ⟨filled, w', isLoaded, -⟩ := loadable.load canonical
    rw [isLoaded]

theorem load_exact_four :
    ∃ content out, save 4 "a.mpmtrvp" (construct 4 3 fun k => k) ⟨4, 3, [0, 0], rfl⟩ =
        .ok (content, out) ∧
      (load 4 "a.mpmtrvp" (some content) ⟨4, 3, [7, 7], rfl⟩ (construct 4 3 fun _ => 9)).result =
        .ok () := by
  obtain ⟨saved, -⟩ := load_exact
    (canonical_construct 4 (n := 3) (by decide) fun _ => 9) "a.mpmtrvp"
  obtain ⟨content, out, isSaved, filled, w', isLoaded, -⟩ := saved (construct 4 3 fun k => k)
    ⟨4, 3, [0, 0], rfl⟩ ⟨4, 3, [7, 7], rfl⟩ (canonical_construct 4 (by decide) _)
    rfl rfl rfl rfl rfl (by decide)
  exact ⟨content, out, isSaved, by rw [isLoaded]⟩

end

end Rvector
end Mpmt
