import Mpmt.Query.Aes
import Mpmt.Query.Hash
import Mpmt.Rvector.Vector

/-!
# Building a Bloom filter

`gen_bf` collects the indices of the elements in a batch that it reuses, and
sets the batch in the filter when it is full and once more at the end.  The
filter has ones exactly at the indices of the elements.
-/

namespace Mpmt
namespace Bloom

open Query (HashError hashAESDM dmLoop padBlock hashAESDM_eq_ok)

/-- The exceptions of `gen_bf`. -/
inductive GenBfError
  | ell
  | vector (error : RvectorError)
  | hash (error : HashError)
  | ringMod
  | index
  deriving DecidableEq, Repr

/-- `ring_mod` -/
def ringMod (ell val mod : Nat) : Except GenBfError Nat :=
  if ell < 1 ∨ 31 < ell then .error .ringMod
  else if 2 ^ ell - 1 < val then .error .ringMod
  else if 2 ^ ell - 1 < mod then .error .ringMod
  else if mod = 0 then .error .ringMod
  else .ok (val % mod)

/-- An exception of a vector operation. -/
def liftVector : Except RvectorError Out -> Except GenBfError Out
  | .ok out => .ok out
  | .error error => .error (.vector error)

/-- `batch_size` -/
def batchSize (bfSize : Nat) : Nat := min (2 ^ 20) (max (2 ^ 18) (bfSize / 128))

/-- The number of elements in a full batch is positive. -/
theorem batchSize_pos (bfSize : Nat) : 0 < batchSize bfSize := by
  unfold batchSize
  omega

section

variable (aes : Dpf.Block -> Dpf.Block -> Dpf.Block)

/-- The index of an element under a seed. -/
def index (ellAdd2 bfSize : Nat) (e hs : List UInt8) : Except GenBfError Nat :=
  match hashAESDM aes e hs ellAdd2 with
  | .error error => .error (.hash error)
  | .ok h => ringMod ellAdd2 h bfSize

/-- The inner loop: the indices of `e` go into the batch from `pos` on. -/
def indexElement (ellAdd2 bfSize : Nat) (e : List UInt8) :
    List (List UInt8) -> List Nat × Nat -> Except GenBfError (List Nat × Nat)
  | [], s => .ok s
  | hs :: rest, (batchIdx, pos) => do
      let idx ← index aes ellAdd2 bfSize e hs
      if pos < batchIdx.length then
        indexElement ellAdd2 bfSize e rest (batchIdx.set pos idx, pos + 1)
      else .error .index

/-- `batch_set` in the filter. -/
def batchSetBf (ell : Nat) (indices : List Nat) (bf : Rvector) : Except GenBfError Rvector :=
  match bf.batchSet ell indices 1 with
  | (bf, .ok _) => .ok bf
  | (_, .error error) => .error (.vector error)

/-- The outer loop: the filter, the batch and the number of indices in it. -/
def indexSet (ell ellAdd2 bfSize batchCap : Nat) (hashSeedList : List (List UInt8)) :
    List (List UInt8) -> Rvector × List Nat × Nat ->
      Except GenBfError (Rvector × List Nat × Nat)
  | [], s => .ok s
  | e :: rest, (bf, batchIdx, pos) => do
      let (batchIdx, pos) ← indexElement aes ellAdd2 bfSize e hashSeedList (batchIdx, pos)
      if batchCap ≤ pos then do
        let bf ← batchSetBf ell batchIdx bf
        indexSet ell ellAdd2 bfSize batchCap hashSeedList rest (bf, batchIdx, 0)
      else indexSet ell ellAdd2 bfSize batchCap hashSeedList rest (bf, batchIdx, pos)

/-- `gen_bf`; `memory` is what the new vector finds in its words. -/
def genBf
    (ell : Nat)
    (set : List (List UInt8))
    (hashSeedList : List (List UInt8))
    (bfSize hfNum ellAdd2 : Nat)
    (memory : Nat -> Nat) : Except GenBfError Rvector :=
  if ell < 1 ∨ 8 < ell then .error .ell
  else do
    let bf ← liftVector ((Rvector.construct ell bfSize memory).fill ell 0)
    let batchCap := batchSize bfSize * hfNum
    let (bf, batchIdx, pos) ← indexSet aes ell ellAdd2 bfSize batchCap hashSeedList set
      (bf, List.replicate batchCap 0, 0)
    if 0 < pos then batchSetBf ell (batchIdx.take pos) bf else .ok bf

/-! ## Indices -/

/-- The hash of an element under a seed, modulo the size of the filter. -/
def hashIndex (ellAdd2 bfSize : Nat) (e hs : List UInt8) : Nat :=
  (dmLoop aes (padBlock hs) 0 e).toNat % 2 ^ 32 % 2 ^ ellAdd2 % bfSize

/-- All indices of a set, in the order in which they are computed. -/
def setIndices (ellAdd2 bfSize : Nat) (hashSeedList set : List (List UInt8)) : List Nat :=
  set.flatMap fun e => hashSeedList.map (hashIndex aes ellAdd2 bfSize e)

/-- What the hash functions and the size of the filter have to satisfy. -/
structure Hashable (hashSeedList : List (List UInt8)) (bfSize ellAdd2 : Nat) : Prop where
  seeds : ∀ hs ∈ hashSeedList, hs.length ≤ 16
  ellPos : 1 ≤ ellAdd2
  ellLe : ellAdd2 ≤ 31
  sizePos : 1 ≤ bfSize
  sizeLt : bfSize < 2 ^ ellAdd2

variable {aes} {ell ellAdd2 bfSize hfNum batchCap pos : Nat}
  {hashSeedList set : List (List UInt8)} {batchIdx indices : List Nat} {bf : Rvector}

theorem ringMod_eq_ok
    (hashable : Hashable hashSeedList bfSize ellAdd2)
    {val : Nat}
    (inRing : val < 2 ^ ellAdd2) : ringMod ellAdd2 val bfSize = .ok (val % bfSize) := by
  obtain ⟨-, ellPos, ellLe, sizePos, sizeLt⟩ := hashable
  rw [ringMod, if_neg (by omega), if_neg (by omega), if_neg (by omega), if_neg (by omega)]

theorem index_eq_ok
    (hashable : Hashable hashSeedList bfSize ellAdd2)
    (e : List UInt8)
    {hs : List UInt8}
    (member : hs ∈ hashSeedList) :
    index aes ellAdd2 bfSize e hs = .ok (hashIndex aes ellAdd2 bfSize e hs) := by
  rw [index, hashAESDM_eq_ok aes hashable.ellPos hashable.ellLe (hashable.seeds hs member)]
  exact ringMod_eq_ok hashable (Nat.mod_lt _ (by positivity))

theorem hashIndex_lt
    (hashable : Hashable hashSeedList bfSize ellAdd2)
    (e hs : List UInt8) : hashIndex aes ellAdd2 bfSize e hs < bfSize :=
  Nat.mod_lt _ hashable.sizePos

theorem setIndices_lt
    (hashable : Hashable hashSeedList bfSize ellAdd2)
    {i : Nat}
    (member : i ∈ setIndices aes ellAdd2 bfSize hashSeedList set) : i < bfSize := by
  simp only [setIndices, List.mem_flatMap, List.mem_map] at member
  obtain ⟨e, -, hs, -, rfl⟩ := member
  exact hashIndex_lt hashable e hs

/-! ## The loops -/

/-- The inner loop appends the indices of one element to the batch. -/
theorem indexElement_eq_ok
    (aes : Dpf.Block -> Dpf.Block -> Dpf.Block)
    (hashable : Hashable hashSeedList bfSize ellAdd2)
    (e : List UInt8)
    {seeds : List (List UInt8)}
    (members : ∀ hs ∈ seeds, hs ∈ hashSeedList)
    (room : pos + seeds.length ≤ batchIdx.length) :
    ∃ batchIdx', indexElement aes ellAdd2 bfSize e seeds (batchIdx, pos) =
        .ok (batchIdx', pos + seeds.length) ∧
      batchIdx'.length = batchIdx.length ∧
      batchIdx'.take (pos + seeds.length) =
        batchIdx.take pos ++ seeds.map (hashIndex aes ellAdd2 bfSize e) := by
  induction seeds generalizing batchIdx pos with
  | nil => exact ⟨batchIdx, rfl, rfl, by simp⟩
  | cons hs rest inductionHypothesis =>
      rw [List.length_cons] at room
      have room' : pos + 1 + rest.length ≤
          (batchIdx.set pos (hashIndex aes ellAdd2 bfSize e hs)).length := by
        rw [List.length_set]
        omega
      obtain ⟨batchIdx', loop, length, taken⟩ := inductionHypothesis
        (fun hs' member => members hs' (List.mem_cons_of_mem _ member)) room'
      have next : pos + (hs :: rest).length = pos + 1 + rest.length := by
        rw [List.length_cons]
        omega
      refine ⟨batchIdx', ?_, by rw [length, List.length_set], ?_⟩
      · rw [indexElement, index_eq_ok hashable e (members hs List.mem_cons_self), next]
        show (if pos < batchIdx.length then _ else _) = _
        rw [if_pos (by omega), loop]
      · rw [next, taken, List.map_cons, List.take_add_one,
          List.take_set_of_le (Nat.le_refl pos), List.getElem?_set_self (by omega)]
        simp

/-- The filter and the batch hold the indices so far: those that were set and
those that wait in the batch. -/
structure Building (ell bfSize hfNum batchCap : Nat) (indices : List Nat)
    (bf : Rvector) (batchIdx : List Nat) (pos : Nat) : Prop where
  size : bf.n = bfSize
  canonical : bf.Canonical ell
  length : batchIdx.length = batchCap
  whole : hfNum ∣ pos
  room : pos < batchCap
  held : ∃ flushed, indices = flushed ++ batchIdx.take pos ∧
    ∀ i < bfSize, bf.read ell i = if i ∈ flushed then 1 else 0

/-- Setting the batch in the filter. -/
theorem batchSetBf_eq_ok
    (ellPos : 1 ≤ ell)
    (ellLe : ell ≤ 8)
    (canonical : bf.Canonical ell)
    {flushed : List Nat}
    (holds : ∀ i < bf.n, bf.read ell i = if i ∈ flushed then 1 else 0)
    (inside : ∀ i ∈ indices, i < bf.n) :
    ∃ bf', batchSetBf ell indices bf = .ok bf' ∧ bf'.n = bf.n ∧ bf'.Canonical ell ∧
      ∀ i < bf.n, bf'.read ell i = if i ∈ flushed ++ indices then 1 else 0 := by
  have inRing : (1 : UInt8).toNat < 2 ^ ell := Nat.one_lt_two_pow (by omega)
  obtain ⟨bf', isSet, setTo⟩ := Rvector.batchSet_eq_ok ellLe inRing inside canonical
  refine ⟨bf', by rw [batchSetBf, isSet], setTo.n, setTo.canonical, fun i small => ?_⟩
  rw [setTo.read, holds i small]
  by_cases now : i ∈ indices
  · simp [now]
  · simp [now]

/-- The outer loop keeps the invariant. -/
theorem indexSet_eq_ok
    (aes : Dpf.Block -> Dpf.Block -> Dpf.Block)
    (ellPos : 1 ≤ ell)
    (ellLe : ell ≤ 8)
    (hashable : Hashable hashSeedList bfSize ellAdd2)
    (hfNumIs : hashSeedList.length = hfNum)
    (batchWhole : hfNum ∣ batchCap)
    (set : List (List UInt8))
    (building : Building ell bfSize hfNum batchCap indices bf batchIdx pos)
    (inside : ∀ i ∈ indices, i < bfSize) :
    ∃ bf' batchIdx' pos', indexSet aes ell ellAdd2 bfSize batchCap hashSeedList set
        (bf, batchIdx, pos) = .ok (bf', batchIdx', pos') ∧
      Building ell bfSize hfNum batchCap
        (indices ++ setIndices aes ellAdd2 bfSize hashSeedList set) bf' batchIdx' pos' := by
  induction set generalizing bf batchIdx pos indices with
  | nil => exact ⟨bf, batchIdx, pos, rfl, by simpa [setIndices] using building⟩
  | cons e rest inductionHypothesis =>
      obtain ⟨size, canonical, length, whole, room, flushed, isIndices, holds⟩ := building
      -- both the place and the capacity are multiples of the number of seeds
      have fits : pos + hfNum ≤ batchCap := by
        obtain ⟨elements, rfl⟩ := whole
        obtain ⟨capacity, rfl⟩ := batchWhole
        have fewer : elements < capacity := Nat.lt_of_mul_lt_mul_left room
        calc hfNum * elements + hfNum = hfNum * (elements + 1) := by rw [Nat.mul_succ]
          _ ≤ hfNum * capacity := Nat.mul_le_mul_left hfNum fewer
      have fits' : pos + hashSeedList.length ≤ batchIdx.length := by
        rw [length, hfNumIs]
        exact fits
      obtain ⟨batchIdx', inner, length', taken⟩ := indexElement_eq_ok aes hashable e
        (fun hs member => member) fits'
      rw [hfNumIs] at inner taken
      have further : indices ++ setIndices aes ellAdd2 bfSize hashSeedList (e :: rest) =
          (flushed ++ batchIdx'.take (pos + hfNum)) ++
            setIndices aes ellAdd2 bfSize hashSeedList rest := by
        rw [taken, isIndices, setIndices, List.flatMap_cons]
        simp [setIndices]
      have inside' : ∀ i ∈ flushed ++ batchIdx'.take (pos + hfNum), i < bfSize := by
        intro i member
        rw [taken, ← List.append_assoc, ← isIndices, List.mem_append] at member
        rcases member with before | now
        · exact inside i before
        · obtain ⟨hs, -, rfl⟩ := List.mem_map.mp now
          exact hashIndex_lt hashable e hs
      rw [further, indexSet, inner]
      show ∃ bf' batchIdx'' pos', (if batchCap ≤ pos + hfNum then _ else _) = _ ∧ _
      by_cases full : batchCap ≤ pos + hfNum
      · have all : batchIdx'.take (pos + hfNum) = batchIdx' :=
          List.take_of_length_le (by omega)
        rw [all] at inside' ⊢
        obtain ⟨bf', isSet, size', canonical', holds'⟩ := batchSetBf_eq_ok ellPos ellLe canonical
          (size.symm ▸ holds) (fun i member =>
            size ▸ inside' i (List.mem_append_right _ member))
        rw [if_pos full, isSet]
        refine inductionHypothesis ⟨size'.trans size, canonical', length'.trans length,
          Nat.dvd_zero _, by omega, flushed ++ batchIdx', by simp, size ▸ holds'⟩ inside'
      · rw [if_neg full]
        exact inductionHypothesis ⟨size, canonical, length'.trans length,
          Nat.dvd_add whole (Nat.dvd_refl _), by omega, flushed, rfl, holds⟩ inside'

/-- `gen_bf` returns a filter of the requested size with ones exactly at the
indices of the elements. -/
theorem genBf_eq_ok
    (aes : Dpf.Block -> Dpf.Block -> Dpf.Block)
    (ellPos : 1 ≤ ell)
    (ellLe : ell ≤ 8)
    (hashable : Hashable hashSeedList bfSize ellAdd2)
    (hfNumPos : 1 ≤ hfNum)
    (hfNumIs : hashSeedList.length = hfNum)
    (set : List (List UInt8))
    (memory : Nat -> Nat) :
    ∃ bf, genBf aes ell set hashSeedList bfSize hfNum ellAdd2 memory = .ok bf ∧
      bf.n = bfSize ∧ bf.Canonical ell ∧
      ∀ i < bfSize, bf.read ell i =
        if i ∈ setIndices aes ellAdd2 bfSize hashSeedList set then 1 else 0 := by
  have inRing : (0 : UInt8).toNat < 2 ^ ell := by
    show 0 < 2 ^ ell
    positivity
  have fits : Rvector.SizeFits ell bfSize := by
    have small : bfSize < 2 ^ 31 :=
      hashable.sizeLt.trans_le (Nat.pow_le_pow_right (by decide) hashable.ellLe)
    unfold Rvector.SizeFits
    split <;> omega
  obtain ⟨empty, filled, size, canonical, zero⟩ := Rvector.fill_eq_ok ellLe
    (Rvector.canonical_construct ell fits memory) inRing
  rw [Rvector.n_construct] at size zero
  have capacity : 0 < batchSize bfSize * hfNum :=
    Nat.mul_pos (batchSize_pos bfSize) (by omega)
  have start : Building ell bfSize hfNum (batchSize bfSize * hfNum) [] empty
      (List.replicate (batchSize bfSize * hfNum) 0) 0 :=
    ⟨size, canonical, List.length_replicate, Nat.dvd_zero _, capacity, [], by simp,
      fun i small => by rw [zero i small]; rfl⟩
  obtain ⟨bf, batchIdx, pos, loop, building⟩ := indexSet_eq_ok aes ellPos ellLe hashable hfNumIs
    (Nat.dvd_mul_left hfNum _) set start (by simp)
  obtain ⟨size', canonical', length, whole, room, flushed, isIndices, holds⟩ := building
  rw [List.nil_append] at isIndices
  rw [genBf, if_neg (by omega), filled]
  simp only [liftVector, bind, Except.bind]
  rw [loop]
  show ∃ bf', (if 0 < pos then _ else _) = _ ∧ _
  by_cases rest : 0 < pos
  · have inside : ∀ i ∈ batchIdx.take pos, i < bf.n := by
      intro i member
      rw [size']
      exact setIndices_lt hashable (isIndices ▸ List.mem_append_right _ member)
    obtain ⟨bf', isSet, size'', canonical'', holds'⟩ :=
      batchSetBf_eq_ok ellPos ellLe canonical' (size'.symm ▸ holds) inside
    rw [if_pos rest, isIndices]
    exact ⟨bf', isSet, size''.trans size', canonical'', size' ▸ holds'⟩
  · have none : pos = 0 := by omega
    subst none
    rw [if_neg rest, isIndices, List.take_zero, List.append_nil]
    exact ⟨bf, rfl, size', canonical', holds⟩

theorem mem_setIndices {i : Nat} :
    i ∈ setIndices aes ellAdd2 bfSize hashSeedList set ↔
      ∃ e ∈ set, ∃ hs ∈ hashSeedList, hashIndex aes ellAdd2 bfSize e hs = i := by
  simp [setIndices]

/-- An entry of a filter that `gen_bf` has built. -/
theorem get_of_read
    (holds : ∀ i < bf.n, bf.read ell i =
      if i ∈ setIndices aes ellAdd2 bfSize hashSeedList set then 1 else 0)
    {i : Nat}
    (inside : i < bf.n) :
    bf.get ell i = .ok (if ∃ e ∈ set, ∃ hs ∈ hashSeedList,
      hashIndex aes ellAdd2 bfSize e hs = i then 1 else 0) := by
  rw [Rvector.get, if_neg (by omega), holds i inside]
  simp only [mem_setIndices]

/-- `gen_bf` builds the Bloom filter of the elements, and the filter of two lists
together is the elementwise OR of their filters. -/
theorem genBf_isBloomFilter
    (aes : Dpf.Block -> Dpf.Block -> Dpf.Block)
    (ellPos : 1 ≤ ell)
    (ellLe : ell ≤ 8)
    (hashable : Hashable hashSeedList bfSize ellAdd2)
    (hfNumPos : 1 ≤ hfNum)
    (hfNumIs : hashSeedList.length = hfNum) :
    (∀ set memory, ∃ bf,
      genBf aes ell set hashSeedList bfSize hfNum ellAdd2 memory = .ok bf ∧ bf.n = bfSize ∧
        ∀ i < bfSize, bf.get ell i = .ok (if ∃ e ∈ set, ∃ hs ∈ hashSeedList,
          hashIndex aes ellAdd2 bfSize e hs = i then 1 else 0)) ∧
      ∀ set set' memory memory' memory'', ∃ bf bf' bf'',
        genBf aes ell set hashSeedList bfSize hfNum ellAdd2 memory = .ok bf ∧
          genBf aes ell set' hashSeedList bfSize hfNum ellAdd2 memory' = .ok bf' ∧
          genBf aes ell (set ++ set') hashSeedList bfSize hfNum ellAdd2 memory'' = .ok bf'' ∧
          ∀ i < bfSize, bf''.read ell i = bf.read ell i ||| bf'.read ell i := by
  refine ⟨fun set memory => ?_, fun set set' memory memory' memory'' => ?_⟩
  · obtain ⟨bf, built, size, -, holds⟩ :=
      genBf_eq_ok aes ellPos ellLe hashable hfNumPos hfNumIs set memory
    exact ⟨bf, built, size, fun i inside => get_of_read (size.symm ▸ holds) (size.symm ▸ inside)⟩
  · obtain ⟨bf, built, -, -, holds⟩ :=
      genBf_eq_ok aes ellPos ellLe hashable hfNumPos hfNumIs set memory
    obtain ⟨bf', built', -, -, holds'⟩ :=
      genBf_eq_ok aes ellPos ellLe hashable hfNumPos hfNumIs set' memory'
    obtain ⟨bf'', built'', -, -, holds''⟩ :=
      genBf_eq_ok aes ellPos ellLe hashable hfNumPos hfNumIs (set ++ set') memory''
    refine ⟨bf, bf', bf'', built, built', built'', fun i inside => ?_⟩
    rw [holds i inside, holds' i inside, holds'' i inside, setIndices, List.flatMap_append,
      ← setIndices, ← setIndices]
    by_cases first : i ∈ setIndices aes ellAdd2 bfSize hashSeedList set
    · by_cases second : i ∈ setIndices aes ellAdd2 bfSize hashSeedList set' <;>
        simp [first, second]
    · by_cases second : i ∈ setIndices aes ellAdd2 bfSize hashSeedList set' <;>
        simp [first, second]

/-- Where two elements go under two seeds. -/
theorem hashIndex_sample :
    hashIndex Query.Aes.encrypt 2 3 [1] [7] = 2 ∧
      hashIndex Query.Aes.encrypt 2 3 [1] [8] = 0 ∧
      hashIndex Query.Aes.encrypt 2 3 [2] [7] = 2 ∧
      hashIndex Query.Aes.encrypt 2 3 [2] [8] = 0 := by
  simp only [hashIndex, Query.dmLoop_eq_foldl]
  decide +kernel

/-- Two elements under two seeds, in a filter of three bits. -/
theorem genBf_isBloomFilter_three :
    ∃ bf, genBf Query.Aes.encrypt 1 [[1], [2]] [[7], [8]] 3 2 2 (fun _ => 0) = .ok bf ∧
      bf.n = 3 ∧ bf.get 1 0 = .ok 1 ∧ bf.get 1 1 = .ok 0 ∧ bf.get 1 2 = .ok 1 := by
  have hashable : Hashable [[7], [8]] 3 2 :=
    ⟨by decide, by decide, by decide, by decide, by decide⟩
  obtain ⟨bf, built, size, entry⟩ :=
    (genBf_isBloomFilter Query.Aes.encrypt (by decide : 1 ≤ 1) (by decide : 1 ≤ 8) hashable
      (by decide : 1 ≤ 2) rfl).1 [[1], [2]] fun _ => 0
  refine ⟨bf, built, size, ?_, ?_, ?_⟩
  · rw [entry 0 (by decide)]
    simp [hashIndex_sample]
  · rw [entry 1 (by decide)]
    simp [hashIndex_sample]
  · rw [entry 2 (by decide)]
    simp [hashIndex_sample]

/-- A seed of more than sixteen bytes is no key. -/
theorem genBf_long_seed :
    ¬∃ bf, genBf (fun _ block => block) 1 [[1]] [List.replicate 17 0] 1 1 1 (fun _ => 0) =
      .ok bf := by
  have refused : index (fun _ block => block) 1 1 [1] (List.replicate 17 0) =
      .error (.hash .keyTooLong) := rfl
  have empty : ∃ bf, liftVector ((Rvector.construct 1 1 fun _ => 0).fill 1 0) = .ok bf :=
    ⟨_, rfl⟩
  obtain ⟨bf, filled⟩ := empty
  rintro ⟨bf', built⟩
  rw [genBf, if_neg (by decide), filled] at built
  simp only [bind, Except.bind, indexSet, indexElement, refused, reduceCtorEq] at built

end

end Bloom
end Mpmt
