import Mathlib.Data.Nat.Bitwise
import Mpmt.RingMath

/-!
# The storage of ring vectors

`Rvector<ELL>` keeps one element a byte, or 64 elements a word when `ELL = 1`.
A word is a natural number below two to the number of its bits.  The elements
of the last word of a bit vector end where the vector ends; the bits above them
are padding, and whole-word operations rely on their being zero.
-/

namespace Mpmt

/-- The exceptions of the vector operations, by their classes. -/
inductive RvectorError
  | outOfRange
  | invalidArgument
  | logicError
  | overflowError
  | runtimeError
  deriving DecidableEq, Repr

/-- A vector object: the number of its elements and its words. -/
structure Rvector where
  n : Nat
  data : List Nat
  deriving DecidableEq, Repr

namespace Rvector

/-- The bits of a word. -/
def wordBits (ell : Nat) : Nat := if ell = 1 then 64 else 8

/-- `ELEMS_PER_WORD` -/
def elemsPerWord (ell : Nat) : Nat := if ell = 1 then 64 else 1

/-- The bytes of a word. -/
def wordBytes (ell : Nat) : Nat := wordBits ell / 8

/-- The words that `n` elements take. -/
def wordCount (ell n : Nat) : Nat := (n + elemsPerWord ell - 1) / elemsPerWord ell

/-- `wordsFor`, in the 64 bits of a `size_t`. -/
def wordsFor (ell n : Nat) : Nat := (n + elemsPerWord ell - 1) % 2 ^ 64 / elemsPerWord ell

/-- The bytes that `allocData` asks for to hold `w` words, rounded up to 32 in
the 64 bits of a `size_t`. -/
def allocBytes (ell w : Nat) : Nat :=
  let bytes := w * wordBytes ell % 2 ^ 64
  if bytes % 32 ≠ 0 then (bytes + 31) % 2 ^ 64 / 32 * 32 else bytes

/-- `PER_BYTE_MASK` -/
def perByteMask (ell : Nat) : Nat := (RingMath.ringMask8 ell).toNat

theorem perByteMask_eq (ellLe : ell ≤ 8) : perByteMask ell = 2 ^ ell - 1 :=
  RingMath.toNat_ringMask8 ellLe

theorem and_perByteMask (ellLe : ell ≤ 8) (w : Nat) : w &&& perByteMask ell = w % 2 ^ ell := by
  rw [perByteMask_eq ellLe, Nat.and_two_pow_sub_one_eq_mod]

/-- The word at index `k`. -/
def word (v : Rvector) (k : Nat) : Nat := v.data.getD k 0

/-- Change the word at index `k`. -/
def updateWord (v : Rvector) (k : Nat) (f : Nat -> Nat) : Rvector :=
  { v with data := v.data.set k (f (v.word k)) }

theorem word_updateWord (v : Rvector) (k : Nat) (f : Nat -> Nat) (j : Nat) :
    (v.updateWord k f).word j =
      if j = k ∧ k < v.data.length then f (v.word k) else v.word j := by
  unfold updateWord word
  simp only [List.getD_eq_getElem?_getD, List.getElem?_set]
  by_cases same : k = j
  · subst same
    by_cases inside : k < v.data.length
    · simp [inside]
    · simp [inside]
  · simp [same, Ne.symm same]

@[simp] theorem n_updateWord (v : Rvector) (k : Nat) (f : Nat -> Nat) :
    (v.updateWord k f).n = v.n := rfl

@[simp] theorem length_updateWord (v : Rvector) (k : Nat) (f : Nat -> Nat) :
    (v.updateWord k f).data.length = v.data.length := by
  simp [updateWord]

/-! ## Canonical vectors -/

/-- The words that a vector of `n` elements has, each within its width; the
padding of a bit vector is zero. -/
structure Canonical (ell : Nat) (v : Rvector) : Prop where
  size : v.data.length = wordCount ell v.n
  bounded : ∀ k, v.word k < 2 ^ wordBits ell
  padding : ell = 1 -> ∀ i, v.n ≤ i -> (v.word (i / 64)).testBit (i % 64) = false

/-- `checkRing` -/
def checkRing (ell : Nat) (val : UInt8) : Except RvectorError Unit :=
  if ell < 8 ∧ perByteMask ell < val.toNat then .error .invalidArgument else .ok ()

/-- `maskPartialLastWord` -/
def maskPartialLastWord (ell : Nat) (v : Rvector) : Rvector :=
  if ell ≠ 1 then v
  else if v.n = 0 then v
  else if v.n % 64 = 0 then v
  else v.updateWord (v.data.length - 1) fun w => w &&& (2 ^ (v.n % 64) - 1)

/-- `canonicalize` -/
def canonicalize (ell : Nat) (v : Rvector) : Rvector :=
  if ell = 1 then v.maskPartialLastWord ell
  else if ell ≠ 8 then { v with data := v.data.map fun w => w &&& perByteMask ell }
  else v

/-- `Rvector(n)`: what the words are is up to the memory, which holds `memory k`
at word `k`; the last word of a bit vector with padding is cleared.  A vector
has the words that its allocation holds; memory behind them is not its own. -/
def construct (ell n : Nat) (memory : Nat -> Nat) : Rvector :=
  let count := min (wordsFor ell n) (allocBytes ell (wordsFor ell n) / wordBytes ell)
  let words := (List.range count).map fun k => memory k % 2 ^ wordBits ell
  if ell = 1 ∧ 0 < words.length ∧ n % 64 ≠ 0 then ⟨n, words.set (words.length - 1) 0⟩
  else ⟨n, words⟩

/-- `fill` -/
def fill (ell : Nat) (val : UInt8) (v : Rvector) : Except RvectorError Rvector := do
  checkRing ell val
  if v.data.length = 0 then pure v
  else
    let w := if ell = 1 then if val.toNat &&& 1 = 1 then 2 ^ 64 - 1 else 0 else val.toNat
    pure (maskPartialLastWord ell { v with data := List.replicate v.data.length w })

/-- The element at index `i`, without the check of `get`. -/
def read (ell : Nat) (v : Rvector) (i : Nat) : Nat :=
  if ell = 1 then v.word (i / 64) >>> (i % 64) &&& 1 else v.word i &&& perByteMask ell

/-- `get` -/
def get (ell : Nat) (v : Rvector) (i : Nat) : Except RvectorError Nat :=
  if v.n ≤ i then .error .outOfRange else .ok (v.read ell i)

/-- `set` -/
def set (ell : Nat) (i : Nat) (val : UInt8) (v : Rvector) : Except RvectorError Rvector :=
  if v.n ≤ i then .error .outOfRange
  else do
    checkRing ell val
    pure <|
      if ell = 1 then
        if val.toNat &&& 1 = 1 then v.updateWord (i / 64) fun w => w ||| 2 ^ (i % 64)
        else v.updateWord (i / 64) fun w => w &&& (2 ^ 64 - 1 ^^^ 2 ^ (i % 64))
      else v.updateWord i fun _ => val.toNat

/-- The loop of `batchSet`: the vector behind it, and the exception that ended
it early. -/
def batchSetLoop (ell : Nat) (val : UInt8) : List Nat -> Rvector -> Rvector × Except RvectorError Unit
  | [], v => (v, .ok ())
  | i :: rest, v =>
      if v.n ≤ i then (v, .error .outOfRange)
      else
        match v.set ell i val with
        | .ok v' => batchSetLoop ell val rest v'
        | .error error => (v, .error error)

/-- `batchSet`.  What was set before an exception stays set. -/
def batchSet (ell : Nat) (indices : List Nat) (val : UInt8) (v : Rvector) :
    Rvector × Except RvectorError Unit :=
  match checkRing ell val with
  | .ok _ => batchSetLoop ell val indices v
  | .error error => (v, .error error)

/-! ## Words and bits -/

section

variable {ell : Nat} {v v' : Rvector}

/-- The bit at index `i` of a bit vector. -/
def bit (v : Rvector) (i : Nat) : Bool := (v.word (i / 64)).testBit (i % 64)

theorem read_one (v : Rvector) (i : Nat) : v.read 1 i = (v.bit i).toNat := by
  rw [read, if_pos rfl, bit, Nat.and_one_is_mod, Nat.testBit, Nat.and_comm, Nat.and_one_is_mod]
  rcases Nat.mod_two_eq_zero_or_one (v.word (i / 64) >>> (i % 64)) with even | odd
  · rw [even]
    rfl
  · rw [odd]
    rfl

theorem read_of_ne (several : ell ≠ 1) (ellLe : ell ≤ 8) (v : Rvector) (i : Nat) :
    v.read ell i = v.word i % 2 ^ ell := by
  rw [read, if_neg several, and_perByteMask ellLe]

/-- What is read is a ring element. -/
theorem read_lt (ellLe : ell ≤ 8) (v : Rvector) (i : Nat) : v.read ell i < 2 ^ ell := by
  by_cases one : ell = 1
  · subst one
    rw [read_one]
    exact Bool.toNat_lt _
  · rw [read_of_ne one ellLe]
    exact Nat.mod_lt _ (by positivity)

theorem wordCount_one (n : Nat) : wordCount 1 n = (n + 63) / 64 := rfl

theorem wordCount_of_ne (several : ell ≠ 1) (n : Nat) : wordCount ell n = n := by
  simp [wordCount, elemsPerWord, several]

theorem wordBits_of_ne (several : ell ≠ 1) : wordBits ell = 8 := if_neg several

/-- A word behind the last one reads as zero. -/
theorem word_of_length_le {k : Nat} (outside : v.data.length ≤ k) : v.word k = 0 := by
  simp [word, outside]

/-- A vector with the words that its size asks for, each within its width. -/
structure Sized (ell : Nat) (v : Rvector) : Prop where
  size : v.data.length = wordCount ell v.n
  bounded : ∀ k, v.word k < 2 ^ wordBits ell

theorem Canonical.sized (canonical : v.Canonical ell) : v.Sized ell :=
  ⟨canonical.size, canonical.bounded⟩

/-- Elements of several bits have no padding. -/
theorem Sized.canonical_of_ne (sized : v.Sized ell) (several : ell ≠ 1) : v.Canonical ell :=
  ⟨sized.size, sized.bounded, fun one => absurd one several⟩

/-- A change of one word that keeps the width. -/
theorem Sized.updateWord
    (sized : v.Sized ell)
    (k : Nat)
    {f : Nat -> Nat}
    (within : f (v.word k) < 2 ^ wordBits ell) : (v.updateWord k f).Sized ell where
  size := by rw [length_updateWord, n_updateWord, sized.size]
  bounded := by
    intro j
    rw [word_updateWord]
    split
    · exact within
    · exact sized.bounded j

@[simp] theorem n_maskPartialLastWord (ell : Nat) (v : Rvector) :
    (v.maskPartialLastWord ell).n = v.n := by
  unfold maskPartialLastWord
  split
  · rfl
  · split
    · rfl
    · split <;> rfl

theorem maskPartialLastWord_of_ne (several : ell ≠ 1) (v : Rvector) :
    v.maskPartialLastWord ell = v := if_pos several

theorem Sized.maskPartialLastWord (sized : v.Sized ell) :
    (v.maskPartialLastWord ell).Sized ell := by
  unfold Rvector.maskPartialLastWord
  split
  · exact sized
  · split
    · exact sized
    · split
      · exact sized
      · exact sized.updateWord _ (Nat.lt_of_le_of_lt Nat.and_le_left (sized.bounded _))

/-- Masking the last word clears the padding and nothing else. -/
theorem bit_maskPartialLastWord (sized : v.Sized 1) (i : Nat) :
    (v.maskPartialLastWord 1).bit i = (v.bit i && decide (i < v.n)) := by
  have length : v.data.length = (v.n + 63) / 64 := sized.size
  have outside : v.data.length ≤ i / 64 → v.bit i = false := by
    intro behind
    rw [bit, word_of_length_le behind, Nat.zero_testBit]
  unfold maskPartialLastWord
  rw [if_neg (by decide)]
  split
  · next empty =>
      rw [outside (by omega)]
      rfl
  · split
    · next whole =>
        by_cases inside : i < v.n
        · simp [inside]
        · rw [outside (by omega)]
          simp
    · next nonempty partial_ =>
        rw [bit, word_updateWord]
        by_cases last : i / 64 = v.data.length - 1
        · rw [if_pos ⟨last, by omega⟩, Nat.testBit_and, Nat.testBit_two_pow_sub_one, bit, last]
          congr 1
          rw [decide_eq_decide]
          omega
        · rw [if_neg fun same => last same.1]
          by_cases inside : i < v.n
          · simp [inside, bit]
          · show v.bit i = _
            rw [outside (by omega)]
            rfl

/-- A masked vector is canonical. -/
theorem Sized.canonical_mask (sized : v.Sized ell) :
    (v.maskPartialLastWord ell).Canonical ell where
  size := sized.maskPartialLastWord.size
  bounded := sized.maskPartialLastWord.bounded
  padding := by
    rintro rfl i outside
    rw [n_maskPartialLastWord] at outside
    have cleared := bit_maskPartialLastWord sized i
    rw [decide_eq_false (by omega), Bool.and_false] at cleared
    exact cleared

/-- Masking changes no element. -/
theorem read_maskPartialLastWord
    (sized : v.Sized ell)
    {i : Nat}
    (inside : i < v.n) : (v.maskPartialLastWord ell).read ell i = v.read ell i := by
  by_cases one : ell = 1
  · subst one
    rw [read_one, read_one, bit_maskPartialLastWord sized, decide_eq_true inside,
      Bool.and_true]
  · rw [maskPartialLastWord_of_ne one]

/-- Canonical, with no bit of an element above the ring. -/
structure Reduced (ell : Nat) (v : Rvector) : Prop extends v.Canonical ell where
  elements : ell ≠ 1 -> ∀ k, v.word k < 2 ^ ell

@[simp] theorem n_canonicalize (ell : Nat) (v : Rvector) : (v.canonicalize ell).n = v.n := by
  unfold canonicalize
  split
  · exact n_maskPartialLastWord ell v
  · split <;> rfl

theorem word_canonicalize (several : ell ≠ 1) (ellLe : ell ≤ 8) (sized : v.Sized ell) (k : Nat) :
    (v.canonicalize ell).word k = v.word k % 2 ^ ell := by
  have bounded := sized.bounded k
  rw [wordBits_of_ne several] at bounded
  rw [canonicalize, if_neg several]
  split
  · rw [← and_perByteMask ellLe, word, word, List.getD_eq_getElem?_getD,
      List.getD_eq_getElem?_getD, List.getElem?_map]
    cases v.data[k]? <;> simp
  · next eight =>
      obtain rfl : ell = 8 := by omega
      rw [Nat.mod_eq_of_lt bounded]

/-- `canonicalize` makes any words canonical. -/
theorem Sized.reduced_canonicalize
    (ellLe : ell ≤ 8)
    (sized : v.Sized ell) : (v.canonicalize ell).Reduced ell := by
  by_cases one : ell = 1
  · subst one
    exact ⟨sized.canonical_mask, fun several => absurd rfl several⟩
  · have elements : ∀ k, (v.canonicalize ell).word k < 2 ^ ell := by
      intro k
      rw [word_canonicalize one ellLe sized]
      exact Nat.mod_lt _ (Nat.two_pow_pos ell)
    have sized' : (v.canonicalize ell).Sized ell := by
      refine ⟨?_, fun k => Nat.lt_of_lt_of_le (elements k) ?_⟩
      · rw [n_canonicalize, ← sized.size, canonicalize, if_neg one]
        split
        · exact List.length_map _
        · rfl
      · rw [wordBits_of_ne one]
        exact Nat.pow_le_pow_right (by decide) ellLe
    exact ⟨sized'.canonical_of_ne one, fun _ => elements⟩

/-- `canonicalize` changes no element. -/
theorem read_canonicalize
    (ellLe : ell ≤ 8)
    (sized : v.Sized ell)
    {i : Nat}
    (inside : i < v.n) : (v.canonicalize ell).read ell i = v.read ell i := by
  by_cases one : ell = 1
  · subst one
    exact read_maskPartialLastWord sized inside
  · rw [read_of_ne one ellLe, read_of_ne one ellLe, word_canonicalize one ellLe sized,
      Nat.mod_mod]

/-- Canonical vectors that read the same are the same. -/
theorem Reduced.eq_of_read
    (ellLe : ell ≤ 8)
    (reduced : v.Reduced ell)
    (reduced' : v'.Reduced ell)
    (sameN : v'.n = v.n)
    (same : ∀ i < v.n, v'.read ell i = v.read ell i) : v' = v := by
  have words : ∀ k, v'.word k = v.word k := by
    intro k
    by_cases one : ell = 1
    · subst one
      apply Nat.eq_of_testBit_eq
      intro j
      by_cases high : 64 ≤ j
      · have none : ∀ {u : Rvector}, u.Reduced 1 -> (u.word k).testBit j = false := fun ok =>
          Nat.testBit_lt_two_pow (Nat.lt_of_lt_of_le (ok.bounded k)
            (Nat.pow_le_pow_right (by decide) high))
        rw [none reduced, none reduced']
      · have bits : ∀ i, v'.bit i = v.bit i := by
          intro i
          by_cases inside : i < v.n
          · have read := same i inside
            rw [read_one, read_one] at read
            rw [Bool.eq_iff_iff, ← Bool.toNat_eq_one, ← Bool.toNat_eq_one, read]
          · exact (reduced'.padding rfl i (by omega)).trans
              (reduced.padding rfl i (by omega)).symm
        have at_ := bits (64 * k + j)
        rw [bit, bit, Nat.mul_add_div (by decide), Nat.div_eq_of_lt (by omega), Nat.add_zero,
          Nat.mul_add_mod, Nat.mod_eq_of_lt (by omega)] at at_
        exact at_
    · by_cases inside : k < v.n
      · have read := same k inside
        rwa [read_of_ne one ellLe, read_of_ne one ellLe, Nat.mod_eq_of_lt (reduced'.elements one k),
          Nat.mod_eq_of_lt (reduced.elements one k)] at read
      · have size := reduced.size
        have size' := reduced'.size
        rw [wordCount_of_ne one] at size size'
        rw [word_of_length_le (by omega), word_of_length_le (by omega)]
  have data : v'.data = v.data := by
    apply List.ext_getElem
    · rw [reduced.size, reduced'.size, sameN]
    · intro k inside' inside
      have word := words k
      rwa [Rvector.word, Rvector.word, List.getD_eq_getElem _ _ inside',
        List.getD_eq_getElem _ _ inside] at word
  cases v
  cases v'
  simp_all

/-! ## Constructing, filling and setting -/

theorem word_map_range (n count k : Nat) (f : Nat -> Nat) :
    (⟨n, (List.range count).map f⟩ : Rvector).word k = if k < count then f k else 0 := by
  unfold word
  by_cases inside : k < count
  · simp [inside]
  · simp [inside]

/-- A size for which neither the number of words nor that of bytes wraps
around. -/
def SizeFits (ell n : Nat) : Prop := n + (if ell = 1 then 63 else 31) < 2 ^ 64

instance (ell n : Nat) : Decidable (SizeFits ell n) := inferInstanceAs (Decidable (_ < _))

/-- The words of a new vector: all that its elements take, or none where the
size wraps around. -/
theorem construct_count {n : Nat} (nLt : n < 2 ^ 64) (ell : Nat) :
    min (wordsFor ell n) (allocBytes ell (wordsFor ell n) / wordBytes ell) =
      if SizeFits ell n then wordCount ell n else 0 := by
  unfold SizeFits wordsFor wordCount allocBytes wordBytes wordBits elemsPerWord
  by_cases one : ell = 1
  · simp only [one, if_true]
    split <;> split <;> omega
  · simp only [one, if_false]
    split <;> split <;> omega

theorem canonical_construct
    (ell : Nat)
    {n : Nat}
    (fits : SizeFits ell n)
    (memory : Nat -> Nat) : (construct ell n memory).Canonical ell := by
  have nLt : n < 2 ^ 64 := by
    unfold SizeFits at fits
    omega
  have count := construct_count nLt ell
  rw [if_pos fits] at count
  have sized : (⟨n, (List.range (wordCount ell n)).map fun k =>
      memory k % 2 ^ wordBits ell⟩ : Rvector).Sized ell := by
    refine ⟨by simp, fun k => ?_⟩
    rw [word_map_range]
    split
    · exact Nat.mod_lt _ (by positivity)
    · positivity
  by_cases one : ell = 1
  · subst one
    have length : wordCount 1 n = (n + 63) / 64 := rfl
    simp only [construct, count, List.length_map, List.length_range, true_and]
    split
    · next padded =>
        refine ⟨by simp, (sized.updateWord (wordCount 1 n - 1)
          (f := fun _ => 0) (by positivity)).bounded, fun _ i outside => ?_⟩
        have cleared := word_updateWord (⟨n, (List.range (wordCount 1 n)).map fun k =>
          memory k % 2 ^ wordBits 1⟩ : Rvector) (wordCount 1 n - 1) (fun _ => 0) (i / 64)
        rw [List.length_map, List.length_range, word_map_range] at cleared
        rw [show (⟨n, ((List.range (wordCount 1 n)).map fun k =>
          memory k % 2 ^ wordBits 1).set (wordCount 1 n - 1) 0⟩ : Rvector).word (i / 64) = 0 by
            refine cleared.trans ?_
            split
            · rfl
            · rw [if_neg (by dsimp only at outside; omega)]]
        exact Nat.zero_testBit _
    · next whole =>
        refine ⟨sized.size, sized.bounded, fun _ i outside => ?_⟩
        rw [word_map_range, if_neg (by dsimp only at outside; omega)]
        exact Nat.zero_testBit _
  · rw [construct, count, if_neg fun padded => one padded.1]
    exact sized.canonical_of_ne one

theorem n_construct (ell n : Nat) (memory : Nat -> Nat) :
    (construct ell n memory).n = n := by
  rw [construct]
  split <;> rfl

/-- A value that `checkRing` accepts is a ring element. -/
theorem checkRing_eq_ok
    (ellLe : ell ≤ 8)
    {val : UInt8} :
    checkRing ell val = .ok () ↔ val.toNat < 2 ^ ell := by
  rw [checkRing, perByteMask_eq ellLe]
  have positive : 0 < 2 ^ ell := by positivity
  split
  · next refused =>
      simp only [reduceCtorEq, false_iff]
      omega
  · next accepted =>
      simp only [true_iff]
      by_cases eight : ell = 8
      · subst eight
        exact val.toNat_lt
      · omega

/-- `set` on bit vectors. -/
theorem bit_updateWord
    (sized : v.Sized 1)
    {i : Nat}
    (inside : i < v.n)
    {f : Nat -> Nat}
    (value : Bool)
    (sets : ∀ k, (f (v.word (i / 64))).testBit k =
      if k = i % 64 then value else (v.word (i / 64)).testBit k)
    (j : Nat) :
    (v.updateWord (i / 64) f).bit j = if j = i then value else v.bit j := by
  have length : v.data.length = (v.n + 63) / 64 := sized.size
  rw [bit, word_updateWord]
  by_cases same : j / 64 = i / 64
  · rw [if_pos ⟨same, by omega⟩, sets, bit, same]
    by_cases place : j % 64 = i % 64
    · rw [if_pos place, if_pos (by omega)]
    · rw [if_neg place, if_neg (by omega)]
  · rw [if_neg fun both => same both.1, if_neg (by omega)]
    rfl

theorem testBit_and_not_two_pow {w k : Nat} (bounded : w < 2 ^ 64) (kLt : k < 64) (j : Nat) :
    (w &&& (2 ^ 64 - 1 ^^^ 2 ^ k)).testBit j = if j = k then false else w.testBit j := by
  rw [Nat.testBit_and, Nat.testBit_xor, Nat.testBit_two_pow_sub_one, Nat.testBit_two_pow]
  by_cases same : j = k
  · simp [same, kLt]
  · by_cases high : j < 64
    · simp [same, high, Ne.symm same]
    · have none : w.testBit j = false := Nat.testBit_lt_two_pow
        (Nat.lt_of_lt_of_le bounded (Nat.pow_le_pow_right (by decide) (by omega)))
      simp [same, none]

theorem testBit_or_two_pow (w k j : Nat) :
    (w ||| 2 ^ k).testBit j = if j = k then true else w.testBit j := by
  rw [Nat.testBit_or, Nat.testBit_two_pow]
  by_cases same : j = k
  · simp [same]
  · simp [same, Ne.symm same]

/-- What `set` does when it returns. -/
structure SetTo (ell : Nat) (v : Rvector) (i : Nat) (val : UInt8) (v' : Rvector) : Prop where
  n : v'.n = v.n
  read : ∀ j, v'.read ell j = if j = i then val.toNat else v.read ell j
  canonical : v'.Canonical ell

/-- `set` changes one element. -/
theorem set_eq_ok
    (ellLe : ell ≤ 8)
    (canonical : v.Canonical ell)
    {i : Nat}
    {val : UInt8}
    (inside : i < v.n)
    (inRing : val.toNat < 2 ^ ell) :
    ∃ v', v.set ell i val = .ok v' ∧ SetTo ell v i val v' := by
  rw [set, if_neg (by omega), (checkRing_eq_ok ellLe).mpr inRing]
  refine ⟨_, rfl, ?_⟩
  by_cases one : ell = 1
  · subst one
    have sized := canonical.sized
    have bounded : ∀ k, v.word k < 2 ^ 64 := canonical.bounded
    rw [if_pos rfl]
    have changed : ∀ (value : Bool) (f : Nat -> Nat),
        val.toNat = value.toNat ->
        f (v.word (i / 64)) < 2 ^ 64 ->
        (∀ k, (f (v.word (i / 64))).testBit k =
          if k = i % 64 then value else (v.word (i / 64)).testBit k) ->
        SetTo 1 v i val (v.updateWord (i / 64) f) := by
      intro value f isVal within sets
      have bits := bit_updateWord sized inside value sets
      refine ⟨rfl, fun j => ?_, (sized.updateWord _ within).size,
        (sized.updateWord _ within).bounded, fun _ j outside => ?_⟩
      · rw [read_one, bits, read_one, isVal]
        split <;> rfl
      · rw [n_updateWord] at outside
        have kept := bits j
        rw [if_neg (by omega)] at kept
        exact kept.trans (canonical.padding rfl j outside)
    split
    · next odd =>
        refine changed true _ ?_ ?_ fun k => testBit_or_two_pow _ _ _
        · rw [Nat.and_one_is_mod] at odd
          have : val.toNat = 1 := by omega
          exact this
        · exact Nat.or_lt_two_pow (bounded _)
            (Nat.pow_lt_pow_right (by decide) (Nat.mod_lt _ (by decide)))
    · next even =>
        refine changed false _ ?_ ?_ fun k =>
          testBit_and_not_two_pow (bounded _) (Nat.mod_lt _ (by decide)) k
        · rw [Nat.and_one_is_mod] at even
          have : val.toNat = 0 := by omega
          exact this
        · exact Nat.lt_of_le_of_lt Nat.and_le_left (bounded _)
  · rw [if_neg one]
    have within : val.toNat < 2 ^ wordBits ell := by
      rw [wordBits_of_ne one]
      exact val.toNat_lt
    refine ⟨rfl, fun j => ?_, (canonical.sized.updateWord i
      (f := fun _ => val.toNat) within).canonical_of_ne one⟩
    rw [read_of_ne one ellLe, read_of_ne one ellLe, word_updateWord]
    have length := canonical.size
    rw [wordCount_of_ne one] at length
    by_cases same : j = i
    · rw [if_pos ⟨same, by omega⟩, if_pos same, Nat.mod_eq_of_lt inRing]
    · rw [if_neg fun both => same both.1, if_neg same]

/-- What `batchSet` does when it returns. -/
structure BatchSetTo (ell : Nat) (v : Rvector) (indices : List Nat) (val : UInt8)
    (v' : Rvector) : Prop where
  n : v'.n = v.n
  read : ∀ j, v'.read ell j = if j ∈ indices then val.toNat else v.read ell j
  canonical : v'.Canonical ell

/-- The loop sets the indices that come before the first one outside. -/
theorem batchSetLoop_eq
    (ellLe : ell ≤ 8)
    {val : UInt8}
    (inRing : val.toNat < 2 ^ ell)
    (indices : List Nat)
    (canonical : v.Canonical ell) :
    ∃ v', batchSetLoop ell val indices v = (v',
        if indices.all fun i => i < v.n then .ok () else .error .outOfRange) ∧
      BatchSetTo ell v (indices.takeWhile fun i => i < v.n) val v' := by
  induction indices generalizing v with
  | nil => exact ⟨v, rfl, rfl, fun j => by simp, canonical⟩
  | cons i rest inductionHypothesis =>
      rw [batchSetLoop]
      by_cases inside : i < v.n
      · obtain ⟨v₁, isSet, setTo⟩ := set_eq_ok ellLe canonical inside inRing
        rw [if_neg (by omega), isSet]
        obtain ⟨v₂, isLoop, loopTo⟩ := inductionHypothesis setTo.canonical
        rw [setTo.n] at isLoop loopTo
        refine ⟨v₂, ?_, loopTo.n.trans setTo.n, fun j => ?_, loopTo.canonical⟩
        · simp [isLoop, inside]
        · rw [loopTo.read, setTo.read, List.takeWhile_cons_of_pos (by simpa using inside)]
          by_cases later : j ∈ rest.takeWhile fun i => i < v.n
          · simp [later]
          · by_cases now : j = i
            · simp [now]
            · simp [later, now]
      · rw [if_pos (by omega)]
        refine ⟨v, by simp [inside], rfl, fun j => ?_, canonical⟩
        rw [List.takeWhile_cons_of_neg (by simpa using inside)]
        simp

/-- `batchSet` of indices that are all inside. -/
theorem batchSet_eq_ok
    (ellLe : ell ≤ 8)
    {val : UInt8}
    (inRing : val.toNat < 2 ^ ell)
    {indices : List Nat}
    (inside : ∀ i ∈ indices, i < v.n)
    (canonical : v.Canonical ell) :
    ∃ v', v.batchSet ell indices val = (v', .ok ()) ∧ BatchSetTo ell v indices val v' := by
  obtain ⟨v', isLoop, setTo⟩ := batchSetLoop_eq ellLe inRing indices canonical
  have all : (indices.all fun i => i < v.n) = true := by simpa using inside
  rw [if_pos all] at isLoop
  rw [List.takeWhile_eq_self_iff.mpr (by simpa using inside)] at setTo
  rw [batchSet, (checkRing_eq_ok ellLe).mpr inRing]
  exact ⟨v', isLoop, setTo⟩

theorem word_replicate (n count w k : Nat) :
    (⟨n, List.replicate count w⟩ : Rvector).word k = if k < count then w else 0 := by
  unfold word
  by_cases inside : k < count
  · simp [inside]
  · simp [inside]

/-- `fill` gives every element the value. -/
theorem fill_eq_ok
    (ellLe : ell ≤ 8)
    (canonical : v.Canonical ell)
    {val : UInt8}
    (inRing : val.toNat < 2 ^ ell) :
    ∃ v', v.fill ell val = .ok v' ∧ v'.n = v.n ∧ v'.Canonical ell ∧
      ∀ i < v.n, v'.read ell i = val.toNat := by
  rw [fill, (checkRing_eq_ok ellLe).mpr inRing]
  simp only [bind, Except.bind]
  split
  · next empty =>
      refine ⟨v, rfl, rfl, canonical, fun i inside => ?_⟩
      have size := canonical.size
      by_cases one : ell = 1
      · subst one
        rw [wordCount_one] at size
        omega
      · rw [wordCount_of_ne one] at size
        omega
  · next nonempty =>
      refine ⟨_, rfl, by rw [n_maskPartialLastWord], ?_⟩
      have sized : (⟨v.n, List.replicate v.data.length
          (if ell = 1 then if val.toNat &&& 1 = 1 then 2 ^ 64 - 1 else 0 else val.toNat)⟩ :
            Rvector).Sized ell := by
        refine ⟨by simpa using canonical.size, fun k => ?_⟩
        rw [word_replicate]
        have positive : 0 < 2 ^ wordBits ell := by positivity
        split
        · split
          · next one =>
              subst one
              split
              · decide
              · exact positive
          · next several =>
              rw [wordBits_of_ne several]
              exact val.toNat_lt
        · exact positive
      refine ⟨sized.canonical_mask, fun i inside => ?_⟩
      rw [read_maskPartialLastWord sized inside]
      by_cases one : ell = 1
      · subst one
        have length : v.data.length = (v.n + 63) / 64 := canonical.size
        have bitVal : val.toNat = 0 ∨ val.toNat = 1 := by omega
        rw [read_one, bit, word_replicate, if_pos (by omega), if_pos rfl]
        rcases bitVal with zero | one
        · simp [zero]
        · rw [one, if_pos (by decide), Nat.testBit_two_pow_sub_one,
            decide_eq_true (Nat.mod_lt _ (by decide))]
          rfl
      · have length := canonical.size
        rw [wordCount_of_ne one] at length
        rw [read_of_ne one ellLe, word_replicate, if_pos (by omega), if_neg one,
          Nat.mod_eq_of_lt inRing]

end

end Rvector
end Mpmt
