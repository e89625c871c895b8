import Mpmt.Rvector.Sums

/-!
# Ring vectors are vectors over the ring

The objects of a store stand for lists of elements of `Z_{2^ELL}`, and every
call does to the lists what it says.  What stands for a list is canonical, so
the padding of a bit vector is zero after every call.
-/

namespace Mpmt

open BitStream RingMath

namespace Rvector

/-! ## Vectors over the ring -/

/-- Vectors over the ring, by their references. -/
abbrev RingStore (ell : Nat) := Nat -> List (ZMod (2 ^ ell))

/-- A value as a ring element, where it is one. -/
def InRing (ell : Nat) (val : UInt8) : Prop := val.toNat < 2 ^ ell

instance (ell : Nat) (val : UInt8) : Decidable (InRing ell val) :=
  inferInstanceAs (Decidable (_ < _))

/-- The bytes that `n` elements take in memory. -/
def memorySize (ell n : Nat) : Nat := wordBytes ell * wordCount ell n

/-- The elements that bytes in memory hold: bits, or bytes modulo `2^ELL`. -/
def fromMemory (ell n : Nat) (bytes : List UInt8) : List (ZMod (2 ^ ell)) :=
  let byte := fun i => (bytes.map UInt8.toNat).getD i 0
  (List.range n).map fun i =>
    if ell = 1 then ((bitAt 8 byte i).toNat : ZMod (2 ^ ell)) else (byte i : ZMod (2 ^ ell))

/-- The elements in the bit stream of a buffer. -/
def fromStream (ell n : Nat) (auxBuf : RvectorPack) : List (ZMod (2 ^ ell)) :=
  (List.range n).map fun i =>
    ((Nat.ofBits fun j : Fin ell => auxBuf.bit (ell * i + j) : Nat) : ZMod (2 ^ ell))

/-- Give the elements at the indices a value. -/
def assign (indices : List Nat) (value : ZMod (2 ^ ell)) (l : List (ZMod (2 ^ ell))) :
    List (ZMod (2 ^ ell)) :=
  l.mapIdx fun i e => if i ∈ indices then value else e

namespace RingStore

variable {ell : Nat}

def put (t : RingStore ell) (x : Nat) (l : List (ZMod (2 ^ ell))) : RingStore ell :=
  fun y => if y = x then l else t y

/-- An element-wise operation. -/
def elementwise (op : ZMod (2 ^ ell) -> ZMod (2 ^ ell) -> ZMod (2 ^ ell)) (a b out : Nat)
    (t : RingStore ell) : RingStore ell × Except RvectorError Unit :=
  if (t a).length = (t b).length ∧ (t a).length = (t out).length then
    (t.put out (List.zipWith op (t a) (t b)), .ok ())
  else (t, .error .logicError)

/-- An operation with a scalar. -/
def withScalar (op : ZMod (2 ^ ell) -> ZMod (2 ^ ell) -> ZMod (2 ^ ell)) (a : Nat)
    (scalar : UInt8) (out : Nat) (t : RingStore ell) : RingStore ell × Except RvectorError Unit :=
  if InRing ell scalar then
    if (t a).length = (t out).length then
      (t.put out ((t a).map fun e => op e scalar.toNat), .ok ())
    else (t, .error .logicError)
  else (t, .error .invalidArgument)

/-- What a call does to vectors over the ring. -/
def call : Call -> RingStore ell -> RingStore ell × Except RvectorError Unit
  | .fill x val, t =>
      if InRing ell val then (t.put x (List.replicate (t x).length val.toNat), .ok ())
      else (t, .error .invalidArgument)
  | .set x i val, t =>
      if i < (t x).length then
        if InRing ell val then (t.put x (assign [i] val.toNat (t x)), .ok ())
        else (t, .error .invalidArgument)
      else (t, .error .outOfRange)
  | .batchSet x indices val, t =>
      if InRing ell val then
        (t.put x (assign (indices.takeWhile fun i => i < (t x).length) val.toNat (t x)),
          if indices.all fun i => i < (t x).length then .ok () else .error .outOfRange)
      else (t, .error .invalidArgument)
  | .randFill x prg, t =>
      (t.put x (fromMemory ell (t x).length (randBytes prg (memorySize ell (t x).length))), .ok ())
  | .copy src dst, t => (t.put dst (t src), .ok ())
  | .move src dst, t => (if dst = src then t else (t.put dst (t src)).put src [], .ok ())
  | .fromBytes x bytes, t =>
      if bytes.length = memorySize ell (t x).length then
        (t.put x (fromMemory ell (t x).length bytes), .ok ())
      else (t, .error .invalidArgument)
  | .unpack auxBuf x, t =>
      if auxBuf.ell = ell ∧ auxBuf.n = (t x).length then
        (t.put x (fromStream ell (t x).length auxBuf), .ok ())
      else (t, .error .invalidArgument)
  | .add a b out, t => elementwise (· + ·) a b out t
  | .sub a b out, t => elementwise (· - ·) a b out t
  | .hadamard a b out, t => elementwise (· * ·) a b out t
  | .addScalar a scalar out, t => withScalar (· + ·) a scalar out t
  | .subScalar a scalar out, t => withScalar (· - ·) a scalar out t
  | .mulScalar a scalar out, t => withScalar (· * ·) a scalar out t

/-- A sequence of calls on vectors over the ring. -/
def calls : List Call -> RingStore ell -> RingStore ell × List (Except RvectorError Unit)
  | [], t => (t, [])
  | first :: rest, t =>
      let (t, result) := call first t
      let (t, results) := calls rest t
      (t, result :: results)

end RingStore

section

variable {ell : Nat} {v : Rvector}

/-! ## What a vector stands for -/

/-- The ring elements of a vector. -/
def elements (ell : Nat) (v : Rvector) : List (ZMod (2 ^ ell)) :=
  (List.range v.n).map (element ell v)

@[simp] theorem length_elements (ell : Nat) (v : Rvector) : (elements ell v).length = v.n := by
  rw [elements, List.length_map, List.length_range]

theorem elements_eq_map
    {n : Nat}
    {value : Nat -> ZMod (2 ^ ell)}
    (sameN : v.n = n)
    (same : ∀ i < n, element ell v i = value i) : elements ell v = (List.range n).map value := by
  rw [elements, sameN]
  exact List.map_congr_left fun i member => same i (List.mem_range.mp member)

theorem getElem?_elements (ell : Nat) (v : Rvector) (i : Nat) :
    (elements ell v)[i]? = if i < v.n then some (element ell v i) else none := by
  rw [elements, List.getElem?_map]
  by_cases inside : i < v.n
  · simp [inside]
  · simp [inside]

/-- A list of ring elements, by its elements. -/
theorem elements_eq
    {l : List (ZMod (2 ^ ell))}
    (length : l.length = v.n)
    (same : ∀ i < v.n, l[i]? = some (element ell v i)) : elements ell v = l := by
  apply List.ext_getElem?
  intro i
  rw [getElem?_elements]
  split
  · next inside => exact (same i inside).symm
  · next outside => rw [List.getElem?_eq_none (by omega)]

/-- The objects are canonical and stand for the lists. -/
structure Represents (ell : Nat) (s : VectorStore) (t : RingStore ell) : Prop where
  canonical : ∀ x, (s x).Canonical ell
  elements : ∀ x, elements ell (s x) = t x

variable {s : VectorStore} {t : RingStore ell}

theorem Represents.length (represents : Represents ell s t) (x : Nat) :
    (t x).length = (s x).n := by
  rw [← represents.elements x, length_elements]

theorem Represents.put
    (represents : Represents ell s t)
    (x : Nat)
    (canonical : v.Canonical ell)
    {l : List (ZMod (2 ^ ell))}
    (isElements : Rvector.elements ell v = l) : Represents ell (s.put x v) (t.put x l) := by
  constructor
  · intro y
    rw [VectorStore.put]
    split
    · exact canonical
    · exact represents.canonical y
  · intro y
    rw [VectorStore.put, RingStore.put]
    split
    · exact isElements
    · exact represents.elements y

/-- An operation with an output. -/
theorem Represents.stored
    (represents : Represents ell s t)
    {out : Nat}
    {value : Nat -> ZMod (2 ^ ell)}
    {s' : VectorStore}
    (stored : Stored ell s out value s') :
    Represents ell s' (t.put out ((List.range (s out).n).map value)) := by
  have isPut : s' = s.put out (s' out) := by
    funext x
    rw [VectorStore.put]
    split
    · next same => rw [same]
    · next different => exact stored.other x different
  rw [isPut]
  exact represents.put out stored.canonical (elements_eq_map stored.n stored.element)

/-! ## Elements from memory -/

theorem cast_mod_self (x : Nat) : ((x % 2 ^ ell : Nat) : ZMod (2 ^ ell)) = x :=
  ZMod.natCast_mod x _

theorem elements_ofBytes
    (ellLe : ell ≤ 8)
    {n : Nat}
    {bytes : List UInt8}
    (count : bytes.length = memorySize ell n) :
    (canonicalize ell (ofBytes ell n (bytes.map UInt8.toNat))).Canonical ell ∧
      elements ell (canonicalize ell (ofBytes ell n (bytes.map UInt8.toNat))) =
        fromMemory ell n bytes := by
  have length : (bytes.map UInt8.toNat).length = wordBytes ell * wordCount ell n := by
    rw [List.length_map, count, memorySize]
  have sized : (ofBytes ell n (bytes.map UInt8.toNat)).Sized ell :=
    sized_ofBytes length (toNat_lt_of_mem bytes)
  refine ⟨(sized.reduced_canonicalize ellLe).toCanonical,
    elements_eq_map (by rw [n_canonicalize]; rfl) fun i inside => ?_⟩
  rw [element, read_canonicalize ellLe sized inside]
  split
  · next one =>
      subst one
      rw [read_one, ← bitAt_word_ofBytes length (toNat_lt_of_mem bytes) i]
      rfl
  · next several =>
      have words : wordCount ell n = n := wordCount_of_ne several n
      rw [read_of_ne several ellLe, cast_mod_self, word_ofBytes, length, wordBytes_of_ne several,
        words, Nat.div_one, Nat.one_mul, if_pos inside, window_one, Nat.one_mul, Nat.add_zero]

theorem length_randBytes (prg : Nat -> Nat -> UInt8) (total : Nat) :
    (randBytes prg total).length = total := by
  have four : ∀ counter, ((List.range 4).flatMap fun k =>
      (List.range 16).map fun b => prg (counter + k) b).length = 64 := fun counter => rfl
  have blocks : ∀ count, ((List.range count).flatMap fun q => (List.range 4).flatMap fun k =>
      (List.range 16).map fun b => prg (4 * q + k) b).length = 64 * count := by
    intro count
    induction count with
    | zero => rfl
    | succ count inductionHypothesis =>
        rw [List.range_succ (n := count), List.flatMap_append, List.length_append,
          inductionHypothesis, List.flatMap_singleton, four]
        omega
  rw [randBytes, List.length_append, blocks, List.length_take, four]
  omega

/-- `randFill` is `from_bytes` of what the generator gives. -/
theorem randFill_eq
    (sized : v.Sized ell)
    (some : v.n ≠ 0)
    (prg : Nat -> Nat -> UInt8) :
    randFill ell prg v =
      canonicalize ell
        (ofBytes ell v.n ((randBytes prg (memorySize ell v.n)).map UInt8.toNat)) := by
  have length : (v.bytes ell).length = memorySize ell v.n := by
    rw [length_bytes sized, sized.size, memorySize]
  rw [randFill, if_neg some, length,
    writeFront_of_length_eq (by rw [List.length_map, length_randBytes, length]), canonicalize]
  by_cases one : ell = 1
  · simp [one]
  · by_cases eight : ell = 8
    · simp [eight]
    · simp [one, eight]

theorem elements_unpacks
    (ellLe : ell ≤ 8)
    {auxBuf : RvectorPack}
    (unpacks : Unpacks ell auxBuf v) : elements ell v = fromStream ell v.n auxBuf := by
  refine elements_eq_map rfl fun i inside => ?_
  rw [element]
  congr 1
  refine eq_of_testBit_eq (read_lt ellLe v i) (Nat.ofBits_lt_two_pow _) fun j jLt => ?_
  rw [unpacks.bits i inside j jLt, Nat.testBit_ofBits_lt _ _ jLt]

/-! ## One call -/

/-- A call on the objects and a call on what they stand for end alike. -/
structure Agrees (ell : Nat) (called : Called)
    (expected : RingStore ell × Except RvectorError Unit) : Prop where
  represents : Represents ell called.1 expected.1
  result : called.2 = expected.2

theorem checkRing_eq_ite (ellLe : ell ≤ 8) (val : UInt8) :
    checkRing ell val = if InRing ell val then .ok () else .error .invalidArgument := by
  split
  · next inRing => exact (checkRing_eq_ok ellLe).mpr inRing
  · next outside =>
      have refused := mt (checkRing_eq_ok ellLe).mp outside
      rw [checkRing] at refused ⊢
      split
      · rfl
      · next accepted => exact absurd (if_neg accepted) refused

theorem checkSizes_eq_ite (a b : Rvector) :
    checkSizes a b = if a.n = b.n then .ok () else .error .logicError := by
  rw [checkSizes]
  by_cases same : a.n = b.n
  · rw [if_pos same, if_neg (not_not.mpr same)]
  · rw [if_neg same, if_pos same]

theorem getElem?_assign
    (indices : List Nat)
    (value : ZMod (2 ^ ell))
    (l : List (ZMod (2 ^ ell)))
    (i : Nat) :
    (assign indices value l)[i]? = l[i]?.map fun e => if i ∈ indices then value else e := by
  rw [assign, List.getElem?_mapIdx]

theorem elements_assign
    {v' : Rvector}
    {indices : List Nat}
    {val : UInt8}
    (sameN : v'.n = v.n)
    (read : ∀ j, v'.read ell j = if j ∈ indices then val.toNat else v.read ell j) :
    elements ell v' = assign indices val.toNat (elements ell v) := by
  refine elements_eq (by rw [assign, List.length_mapIdx, length_elements, sameN])
    fun i inside => ?_
  rw [getElem?_assign, getElem?_elements, if_pos (by omega), Option.map_some, element, element,
    read]
  split <;> rfl

theorem zipWith_elements
    (op : ZMod (2 ^ ell) -> ZMod (2 ^ ell) -> ZMod (2 ^ ell))
    {a b : Rvector}
    (sameN : b.n = a.n) :
    List.zipWith op (elements ell a) (elements ell b) =
      (List.range a.n).map fun i => op (element ell a i) (element ell b i) := by
  rw [elements, elements, sameN, List.zipWith_map, List.zipWith_self]

theorem agrees_elementwise
    (represents : Represents ell s t)
    {op : ZMod (2 ^ ell) -> ZMod (2 ^ ell) -> ZMod (2 ^ ell)}
    {kernel : Nat -> Nat -> Nat -> VectorStore -> VectorStore}
    (a b out : Nat)
    (stored : (s a).n = (s out).n ->
      Stored ell s out (fun i => op (element ell (s a) i) (element ell (s b) i))
        (maskObject ell out (kernel a b out s))) :
    Agrees ell (elementwise ell kernel a b out s) (RingStore.elementwise op a b out t) := by
  rw [elementwise, RingStore.elementwise, checkSizes_eq_ite, checkSizes_eq_ite,
    represents.length, represents.length, represents.length]
  by_cases sameB : (s a).n = (s b).n
  · by_cases sameOut : (s a).n = (s out).n
    · rw [if_pos sameB, if_pos sameOut, if_pos ⟨sameB, sameOut⟩]
      have result := represents.stored (stored sameOut)
      rw [← sameOut, ← zipWith_elements op sameB.symm, represents.elements,
        represents.elements] at result
      exact ⟨result, rfl⟩
    · rw [if_pos sameB, if_neg sameOut, if_neg fun both => sameOut both.2]
      exact ⟨represents, rfl⟩
  · have notBoth : ¬ ((s a).n = (s b).n ∧ (s a).n = (s out).n) := fun both => sameB both.1
    rw [if_neg sameB, if_neg notBoth]
    exact ⟨represents, rfl⟩

theorem agrees_withScalar
    (ellLe : ell ≤ 8)
    (represents : Represents ell s t)
    {op : ZMod (2 ^ ell) -> ZMod (2 ^ ell) -> ZMod (2 ^ ell)}
    {kernel : Nat -> UInt8 -> Nat -> VectorStore -> VectorStore}
    (a : Nat)
    (scalar : UInt8)
    (out : Nat)
    (stored : (s a).n = (s out).n -> scalar.toNat < 2 ^ ell ->
      Stored ell s out (fun i => op (element ell (s a) i) scalar.toNat)
        (maskObject ell out (kernel a scalar out s))) :
    Agrees ell (withScalar ell kernel a scalar out s)
      (RingStore.withScalar op a scalar out t) := by
  rw [withScalar, RingStore.withScalar, checkRing_eq_ite ellLe, checkSizes_eq_ite,
    represents.length, represents.length]
  by_cases inRing : InRing ell scalar
  · by_cases sameOut : (s a).n = (s out).n
    · rw [if_pos inRing, if_pos sameOut, if_pos inRing, if_pos sameOut]
      have result := represents.stored (stored sameOut inRing)
      have isMap : (t a).map (fun e => op e scalar.toNat) =
          (List.range (s out).n).map fun i => op (element ell (s a) i) scalar.toNat := by
        rw [← represents.elements a, elements, List.map_map, sameOut]
        rfl
      rw [isMap]
      exact ⟨result, rfl⟩
    · rw [if_pos inRing, if_neg sameOut, if_pos inRing, if_neg sameOut]
      exact ⟨represents, rfl⟩
  · rw [if_neg inRing, if_neg inRing]
    exact ⟨represents, rfl⟩

theorem agrees_fill
    (ellLe : ell ≤ 8)
    (represents : Represents ell s t)
    (x : Nat)
    (val : UInt8) :
    Agrees ell (call ell (.fill x val) s) (RingStore.call (.fill x val) t) := by
  rw [call, RingStore.call]
  by_cases inRing : InRing ell val
  · obtain ⟨v', isFilled, sameN, canonical, read⟩ :=
      fill_eq_ok ellLe (represents.canonical x) inRing
    rw [isFilled, putResult, if_pos inRing]
    refine ⟨represents.put x canonical (elements_eq ?_ fun i inside => ?_), rfl⟩
    · rw [List.length_replicate, represents.length, sameN]
    · rw [sameN] at inside
      rw [List.getElem?_replicate, represents.length, if_pos inside, element, read i inside]
  · have refused : (s x).fill ell val = .error .invalidArgument := by
      rw [fill, checkRing_eq_ite ellLe, if_neg inRing]
      rfl
    rw [refused, putResult, if_neg inRing]
    exact ⟨represents, rfl⟩

theorem agrees_set
    (ellLe : ell ≤ 8)
    (represents : Represents ell s t)
    (x i : Nat)
    (val : UInt8) :
    Agrees ell (call ell (.set x i val) s) (RingStore.call (.set x i val) t) := by
  rw [call, RingStore.call, represents.length]
  by_cases inside : i < (s x).n
  · by_cases inRing : InRing ell val
    · obtain ⟨v', isSet, setTo⟩ := set_eq_ok ellLe (represents.canonical x) inside inRing
      rw [isSet, putResult, if_pos inside, if_pos inRing]
      have isElements : elements ell v' = assign [i] val.toNat (elements ell (s x)) :=
        elements_assign setTo.n fun j => by
          rw [setTo.read]
          simp only [List.mem_singleton]
      rw [represents.elements] at isElements
      exact ⟨represents.put x setTo.canonical isElements, rfl⟩
    · have refused : (s x).set ell i val = .error .invalidArgument := by
        rw [set, if_neg (by omega), checkRing_eq_ite ellLe, if_neg inRing]
        rfl
      rw [refused, putResult, if_pos inside, if_neg inRing]
      exact ⟨represents, rfl⟩
  · have refused : (s x).set ell i val = .error .outOfRange := by
      rw [set, if_pos (by omega)]
    rw [refused, putResult, if_neg inside]
    exact ⟨represents, rfl⟩

theorem agrees_batchSet
    (ellLe : ell ≤ 8)
    (represents : Represents ell s t)
    (x : Nat)
    (indices : List Nat)
    (val : UInt8) :
    Agrees ell (call ell (.batchSet x indices val) s)
      (RingStore.call (.batchSet x indices val) t) := by
  rw [call, RingStore.call, batchSet, checkRing_eq_ite ellLe, represents.length]
  by_cases inRing : InRing ell val
  · obtain ⟨v', isLoop, setTo⟩ := batchSetLoop_eq ellLe inRing indices (represents.canonical x)
    rw [if_pos inRing, if_pos inRing, isLoop]
    refine ⟨represents.put x setTo.canonical ?_, rfl⟩
    rw [elements_assign setTo.n setTo.read, represents.elements]
  · rw [if_neg inRing, if_neg inRing]
    have same : s.put x (s x) = s := by
      funext y
      rw [VectorStore.put]
      split
      · next isX => rw [isX]
      · rfl
    refine ⟨?_, rfl⟩
    show Represents ell (s.put x (s x)) t
    rw [same]
    exact represents

theorem agrees_randFill
    (ellLe : ell ≤ 8)
    (represents : Represents ell s t)
    (x : Nat)
    (prg : Nat -> Nat -> UInt8) :
    Agrees ell (call ell (.randFill x prg) s) (RingStore.call (.randFill x prg) t) := by
  rw [call, RingStore.call, represents.length]
  refine ⟨?_, rfl⟩
  by_cases none : (s x).n = 0
  · refine represents.put x ?_ ?_
    · rw [randFill, if_pos none]
      exact represents.canonical x
    · rw [randFill, if_pos none, elements, none]
      rfl
  · rw [randFill_eq (represents.canonical x).sized none]
    obtain ⟨canonical, isElements⟩ := elements_ofBytes ellLe
      (length_randBytes prg (memorySize ell (s x).n))
    exact represents.put x canonical isElements

theorem agrees_fromBytes
    (ellLe : ell ≤ 8)
    (represents : Represents ell s t)
    (x : Nat)
    (bytes : List UInt8) :
    Agrees ell (call ell (.fromBytes x bytes) s) (RingStore.call (.fromBytes x bytes) t) := by
  have length : ((s x).bytes ell).length = memorySize ell (s x).n := by
    rw [length_bytes (represents.canonical x).sized, (represents.canonical x).size, memorySize]
  rw [call, RingStore.call, represents.length, fromBytes, length]
  by_cases count : bytes.length = memorySize ell (s x).n
  · rw [if_neg (not_not.mpr count), if_pos count, putResult]
    obtain ⟨canonical, isElements⟩ := elements_ofBytes ellLe count
    exact ⟨represents.put x canonical isElements, rfl⟩
  · rw [if_pos count, if_neg count, putResult]
    exact ⟨represents, rfl⟩

theorem agrees_unpack
    (ellLe : ell ≤ 8)
    (represents : Represents ell s t)
    (auxBuf : RvectorPack)
    (x : Nat) :
    Agrees ell (call ell (.unpack auxBuf x) s) (RingStore.call (.unpack auxBuf x) t) := by
  rw [call, RingStore.call, represents.length]
  by_cases matching : auxBuf.ell = ell ∧ auxBuf.n = (s x).n
  · obtain ⟨w, isUnpacked, unpacks⟩ := unpackRvec_eq_ok (represents.canonical x) matching.1
      matching.2
    have sameN : w.n = (s x).n := unpacks.n.trans matching.2
    rw [isUnpacked, putResult, if_pos matching, ← sameN]
    exact ⟨represents.put x unpacks.reduced.toCanonical (elements_unpacks ellLe unpacks), rfl⟩
  · have refused : unpackRvec ell auxBuf (s x) = .error .invalidArgument := by
      rw [unpackRvec, if_pos (by tauto)]
    rw [refused, putResult, if_neg matching]
    exact ⟨represents, rfl⟩

/-- The vector that a move leaves behind. -/
theorem canonical_moved (ell : Nat) : (⟨0, []⟩ : Rvector).Canonical ell where
  size := by simp [wordCount, elemsPerWord]; split <;> rfl
  bounded k := by simp [word]
  padding _ i _ := by simp [word]

/-- Every call does to the objects what it does to what they stand for. -/
theorem agrees_call
    (ellLe : ell ≤ 8)
    (represents : Represents ell s t)
    (c : Call) : Agrees ell (call ell c s) (RingStore.call c t) := by
  have canonical := represents.canonical
  cases c with
  | fill x val => exact agrees_fill ellLe represents x val
  | set x i val => exact agrees_set ellLe represents x i val
  | batchSet x indices val => exact agrees_batchSet ellLe represents x indices val
  | randFill x prg => exact agrees_randFill ellLe represents x prg
  | copy src dst =>
      exact ⟨represents.put dst (canonical src) (represents.elements src), rfl⟩
  | move src dst =>
      refine ⟨?_, rfl⟩
      rw [call, move, RingStore.call]
      by_cases same : dst = src
      · rw [if_pos same, if_pos same]
        exact represents
      · rw [if_neg same, if_neg same]
        exact (represents.put dst (canonical src) (represents.elements src)).put src
          (canonical_moved ell) rfl
  | fromBytes x bytes => exact agrees_fromBytes ellLe represents x bytes
  | unpack auxBuf x => exact agrees_unpack ellLe represents auxBuf x
  | add a b out =>
      exact agrees_elementwise represents a b out fun sameOut =>
        stored_add ellLe canonical sameOut
  | sub a b out =>
      exact agrees_elementwise represents a b out fun sameOut =>
        stored_sub ellLe canonical sameOut
  | hadamard a b out =>
      exact agrees_elementwise represents a b out fun sameOut =>
        stored_hadamard ellLe canonical sameOut
  | addScalar a scalar out =>
      exact agrees_withScalar ellLe represents a scalar out fun sameOut inRing =>
        stored_addScalar ellLe canonical sameOut inRing
  | subScalar a scalar out =>
      exact agrees_withScalar ellLe represents a scalar out fun sameOut inRing =>
        stored_subScalar ellLe canonical sameOut inRing
  | mulScalar a scalar out =>
      exact agrees_withScalar ellLe represents a scalar out fun sameOut inRing =>
        stored_mulScalar ellLe canonical sameOut inRing

/-! ## Runs -/

/-- Every sequence of calls does to the objects what it does to what they stand
for, exceptions included. -/
theorem agrees_calls
    (ellLe : ell ≤ 8)
    (sequence : List Call)
    (represents : Represents ell s t) :
    Represents ell (calls ell sequence s).1 (RingStore.calls sequence t).1 ∧
      (calls ell sequence s).2 = (RingStore.calls sequence t).2 := by
  induction sequence generalizing s t with
  | nil => exact ⟨represents, rfl⟩
  | cons first rest inductionHypothesis =>
      have agrees := agrees_call ellLe represents first
      obtain ⟨restRepresents, restResults⟩ := inductionHypothesis agrees.represents
      refine ⟨restRepresents, ?_⟩
      rw [calls, RingStore.calls]
      exact congrArg₂ List.cons agrees.result restResults

/-! ## Reading -/

theorem cast_inj_of_lt
    {x : Nat}
    {z : ZMod (2 ^ ell)}
    (inside : x < 2 ^ ell)
    (isZ : (x : ZMod (2 ^ ell)) = z) : x = z.val := by
  rw [← isZ, ZMod.val_natCast_of_lt inside]

theorem IsElement.toNat_eq
    {byte : UInt8}
    {value : ZMod (2 ^ ell)}
    (isElement : IsElement ell byte value) : byte.toNat = value.val :=
  cast_inj_of_lt isElement.canonical isElement.value

/-- What `get`, `dot` and `reduce` give on vectors over the ring. -/
structure Reads (ell : Nat) (s : VectorStore) (t : RingStore ell) : Prop where
  get : ∀ x i, (s x).get ell i =
    match (t x)[i]? with
    | some e => .ok e.val
    | none => .error .outOfRange
  dot : ∀ x y, (dot ell (s x) (s y)).map UInt8.toNat =
    if (t x).length = (t y).length then .ok (List.zipWith (· * ·) (t x) (t y)).sum.val
    else .error .logicError
  reduce : ∀ x, (reduce ell (s x)).toNat = (t x).sum.val

theorem Represents.reads
    (ellLe : ell ≤ 8)
    (represents : Represents ell s t) : Reads ell s t := by
  refine ⟨fun x i => ?_, fun x y => ?_, fun x => ?_⟩
  · rw [← represents.elements x, getElem?_elements, Rvector.get]
    by_cases inside : i < (s x).n
    · rw [if_pos inside, if_neg (by omega)]
      exact congrArg Except.ok (cast_inj_of_lt (read_lt ellLe _ i) rfl)
    · rw [if_neg inside, if_pos (by omega)]
  · rw [Rvector.dot, checkSizes_eq_ite, represents.length, represents.length]
    by_cases sameN : (s x).n = (s y).n
    · have isSum := isElement_dotKernel ellLe (b := s y) (represents.canonical x)
      rw [← sum_map_range, ← zipWith_elements (· * ·) sameN.symm, represents.elements,
        represents.elements] at isSum
      rw [if_pos sameN, if_pos sameN]
      exact congrArg Except.ok isSum.toNat_eq
    · rw [if_neg sameN, if_neg sameN]
      rfl
  · have isSum := isElement_reduce ellLe (represents.canonical x)
    rw [← sum_map_range, ← Rvector.elements, represents.elements] at isSum
    exact isSum.toNat_eq

/-! ## Every sequence of calls -/

/-- Objects that have just been constructed, with whatever the memory held. -/
def constructed (ell : Nat) (sizes : Nat -> Nat) (memory : Nat -> Nat -> Nat) : VectorStore :=
  fun x => Rvector.construct ell (sizes x) (memory x)

/-- What a sequence of calls on constructed objects comes to: the calls end as
they do on vectors over the ring, every object is canonical, and what is read
off the objects is what the vectors over the ring hold. -/
structure Refines (ell : Nat) (sizes : Nat -> Nat) (memory : Nat -> Nat -> Nat)
    (sequence : List Call) : Prop where
  results : (calls ell sequence (constructed ell sizes memory)).2 =
    (RingStore.calls sequence fun x => elements ell (constructed ell sizes memory x)).2
  canonical : ∀ x, ((calls ell sequence (constructed ell sizes memory)).1 x).Canonical ell
  reads : Reads ell (calls ell sequence (constructed ell sizes memory)).1
    (RingStore.calls sequence fun x => elements ell (constructed ell sizes memory x)).1

/-- Vectors whose sizes fit refine vectors over the ring, for every sequence of
calls with any aliasing. -/
theorem refines_of_fits
    (ellLe : ell ≤ 8)
    {sizes : Nat -> Nat}
    (fits : ∀ x, SizeFits ell (sizes x))
    (memory : Nat -> Nat -> Nat)
    (sequence : List Call) : Refines ell sizes memory sequence := by
  have represents : Represents ell (constructed ell sizes memory)
      fun x => elements ell (constructed ell sizes memory x) :=
    ⟨fun x => canonical_construct ell (fits x) (memory x), fun _ => rfl⟩
  obtain ⟨after, results⟩ := agrees_calls ellLe sequence represents
  exact ⟨results, after.canonical, after.reads ellLe⟩

/-- A vector whose size wraps around has no words. -/
theorem data_construct_of_not_fits
    {n : Nat}
    (nLt : n < 2 ^ 64)
    (wraps : ¬ SizeFits ell n)
    (memory : Nat -> Nat) : (construct ell n memory).data = [] := by
  have count := construct_count nLt ell
  rw [if_neg wraps] at count
  simp [construct, count]

/-- Filled with ones, it still reads as zero. -/
theorem not_refines_of_not_fits
    (ellPos : 1 ≤ ell)
    (ellLe : ell ≤ 8)
    {sizes : Nat -> Nat}
    {x : Nat}
    (sizeLt : sizes x < 2 ^ 64)
    (wraps : ¬ SizeFits ell (sizes x))
    (memory : Nat -> Nat -> Nat) : ¬ Refines ell sizes memory [.fill x 1] := by
  intro refines
  have one : (1 : UInt8).toNat < 2 ^ ell := Nat.one_lt_two_pow (by omega)
  have data : (constructed ell sizes memory x).data = [] :=
    data_construct_of_not_fits sizeLt wraps (memory x)
  have sizeIs : (constructed ell sizes memory x).n = sizes x := n_construct ..
  have nonempty : 0 < sizes x := by
    unfold SizeFits at wraps
    split at wraps <;> omega
  have filled : (constructed ell sizes memory x).fill ell 1 =
      .ok (constructed ell sizes memory x) := by
    rw [fill, (checkRing_eq_ok ellLe).mpr one, data]
    rfl
  have read := refines.reads.get x 0
  have called : ((calls ell [.fill x 1] (constructed ell sizes memory)).1 x) =
      constructed ell sizes memory x := by
    simp [calls, call, filled, putResult, VectorStore.put]
  have expected : (RingStore.calls [.fill x 1] fun x =>
      elements ell (constructed ell sizes memory x)).1 x =
        List.replicate (sizes x) ((1 : UInt8).toNat : ZMod (2 ^ ell)) := by
    simp only [RingStore.calls, RingStore.call, if_pos (show InRing ell 1 from one),
      RingStore.put, if_true, length_elements, sizeIs]
  have zero : (constructed ell sizes memory x).read ell 0 = 0 := by
    simp [Rvector.read, word, data]
  rw [called, expected, List.getElem?_replicate, if_pos nonempty, Rvector.get, if_neg (by omega),
    zero] at read
  have isOne := Except.ok.inj read
  rw [ZMod.val_natCast_of_lt one] at isOne
  cases isOne

/-- Ring vectors refine vectors over `Z_{2^ELL}` for every sequence of calls,
and the padding of bit vectors stays zero, exactly if no size is so large that
the number of its words or bytes wraps around. -/
theorem refines_vector_iff
    (ellPos : 1 ≤ ell)
    (ellLe : ell ≤ 8)
    (sizes : Nat -> Nat)
    (sizesLt : ∀ x, sizes x < 2 ^ 64) :
    (∀ memory sequence, Refines ell sizes memory sequence) ↔
      ∀ x, SizeFits ell (sizes x) := by
  constructor
  · intro refines x
    by_contra wraps
    exact not_refines_of_not_fits ellPos ellLe (sizesLt x) wraps (fun _ _ => 0)
      (refines _ _)
  · intro fits memory sequence
    exact refines_of_fits ellLe fits memory sequence

/-- Two bit vectors with padding, filled and added in place. -/
theorem refines_vector_seventy :
    Refines 1 (fun _ => 70) (fun _ k => k) [.fill 0 1, .add 0 1 0, .addScalar 0 1 0] :=
  (refines_vector_iff (by decide) (by decide) (fun _ => 70) fun _ => by decide).mpr
    (fun _ => by decide) _ _

/-- The largest size leaves a bit vector without words. -/
theorem not_refines_largest :
    ¬ Refines 1 (fun _ => 2 ^ 64 - 1) (fun _ _ => 0) [.fill 0 1] :=
  not_refines_of_not_fits (by decide) (by decide) (by decide) (by decide) _

end

end Rvector
end Mpmt
