import Mpmt.Rvector.Arithmetic
import Mpmt.Rvector.OneStream

/-!
# What the kernels compute

A loop reads every word before it writes it, so an output that is an input
changes nothing.  On words of bits and on bytes the operations are those of the
ring, and the masking behind the loop makes the result canonical again.
-/

namespace Mpmt

open BitStream Lanes RingMath

namespace VectorStore

variable {s : VectorStore}

@[simp] theorem put_self (s : VectorStore) (x : Nat) (v : Rvector) : s.put x v x = v := if_pos rfl

theorem put_of_ne {x y : Nat} (different : y ≠ x) (v : Rvector) : s.put x v y = s y :=
  if_neg different

/-- What a loop leaves: the first words of the output are computed from the
words that the inputs had before the loop. -/
structure Looped (count : Nat) (f : Nat -> Nat -> Nat) (a b out : Nat)
    (s s' : VectorStore) : Prop where
  other : ∀ x, x ≠ out -> s' x = s x
  n : (s' out).n = (s out).n
  length : (s' out).data.length = (s out).data.length
  word : ∀ k, (s' out).word k =
    if k < count ∧ k < (s out).data.length then f ((s a).word k) ((s b).word k)
    else (s out).word k

/-- Words behind those that a loop has written are unchanged, in every object. -/
theorem Looped.word_of_le
    {count a b out : Nat}
    {f : Nat -> Nat -> Nat}
    {s' : VectorStore}
    (looped : Looped count f a b out s s')
    (x : Nat)
    {k : Nat}
    (behind : count ≤ k) : (s' x).word k = (s x).word k := by
  by_cases same : x = out
  · rw [same, looped.word, if_neg (by omega)]
  · rw [looped.other x same]

theorem looped_loop (count : Nat) (f : Nat -> Nat -> Nat) (a b out : Nat) (s : VectorStore) :
    Looped count f a b out s (s.loop count f a b out) := by
  induction count with
  | zero => exact ⟨fun _ _ => rfl, rfl, rfl, fun k => by rw [if_neg (by omega)]; rfl⟩
  | succ count inductionHypothesis =>
      have step : s.loop (count + 1) f a b out =
          (s.loop count f a b out).setWord out count
            (f ((s.loop count f a b out a).word count)
              ((s.loop count f a b out b).word count)) := by
        rw [loop, List.range_succ, List.foldl_append]
        rfl
      rw [inductionHypothesis.word_of_le a (Nat.le_refl count),
        inductionHypothesis.word_of_le b (Nat.le_refl count)] at step
      rw [step]
      refine ⟨fun x different => ?_, ?_, ?_, fun k => ?_⟩
      · rw [setWord, put_of_ne different, inductionHypothesis.other x different]
      · rw [setWord, put_self, Rvector.n_updateWord, inductionHypothesis.n]
      · rw [setWord, put_self, Rvector.length_updateWord, inductionHypothesis.length]
      · rw [setWord, put_self, Rvector.word_updateWord, inductionHypothesis.word,
          inductionHypothesis.length]
        by_cases last : k = count
        · subst last
          by_cases inside : k < (s out).data.length
          · rw [if_pos ⟨rfl, inside⟩, if_pos ⟨by omega, inside⟩]
          · rw [if_neg (by omega), if_neg (by omega), if_neg (by omega)]
        · rw [if_neg fun both => last both.1]
          by_cases written : k < count ∧ k < (s out).data.length
          · rw [if_pos written, if_pos ⟨by omega, written.2⟩]
          · rw [if_neg written, if_neg (by omega)]

end VectorStore

namespace Rvector

/-- The ring element at an index. -/
def element (ell : Nat) (v : Rvector) (i : Nat) : ZMod (2 ^ ell) :=
  ((v.read ell i : Nat) : ZMod (2 ^ ell))

/-- What an operation with an output leaves: element `i` of the output is
`value i`, the output is canonical, and no other object has changed. -/
structure Stored (ell : Nat) (s : VectorStore) (out : Nat) (value : Nat -> ZMod (2 ^ ell))
    (s' : VectorStore) : Prop where
  other : ∀ x, x ≠ out -> s' x = s x
  n : (s' out).n = (s out).n
  canonical : (s' out).Canonical ell
  element : ∀ i < (s out).n, element ell (s' out) i = value i

section

variable {ell : Nat} {s : VectorStore}

theorem Stored.congr
    {out : Nat}
    {value value' : Nat -> ZMod (2 ^ ell)}
    {s' : VectorStore}
    (stored : Stored ell s out value s')
    (same : ∀ i < (s out).n, value i = value' i) : Stored ell s out value' s' :=
  ⟨stored.other, stored.n, stored.canonical, fun i inside =>
    (stored.element i inside).trans (same i inside)⟩

/-- A loop over words of bits. -/
theorem stored_bits
    {a b out : Nat}
    {f : Nat -> Nat -> Nat}
    {g : Bool -> Bool -> Bool}
    (canonical : ∀ x, (s x).Canonical 1)
    (sameOut : (s a).n = (s out).n)
    (within : ∀ x y, x < 2 ^ 64 -> y < 2 ^ 64 -> f x y < 2 ^ 64)
    (bitwise : ∀ x y, ∀ j < 64, (f x y).testBit j = g (x.testBit j) (y.testBit j)) :
    Stored 1 s out (fun i => ((g ((s a).bit i) ((s b).bit i)).toNat : ZMod (2 ^ 1)))
      (maskObject 1 out (s.loop (s a).data.length f a b out)) := by
  have looped := VectorStore.looped_loop (s a).data.length f a b out s
  have length : (s a).data.length = (s out).data.length := by
    rw [(canonical a).size, (canonical out).size, sameOut]
  have sized : (s.loop (s a).data.length f a b out out).Sized 1 := by
    refine ⟨by rw [looped.length, looped.n, (canonical out).size], fun k => ?_⟩
    rw [looped.word]
    split
    · exact within _ _ ((canonical a).bounded k) ((canonical b).bounded k)
    · exact (canonical out).bounded k
  refine ⟨fun x different => ?_, ?_, ?_, fun i inside => ?_⟩
  · rw [maskObject, VectorStore.put_of_ne different, looped.other x different]
  · rw [maskObject, VectorStore.put_self, n_maskPartialLastWord, looped.n]
  · rw [maskObject, VectorStore.put_self]
    exact sized.canonical_mask
  · have words : (s out).data.length = ((s out).n + 63) / 64 := (canonical out).size
    rw [maskObject, VectorStore.put_self, element,
      read_maskPartialLastWord sized (by rw [looped.n]; exact inside), read_one, bit, looped.word, if_pos ⟨by omega, by omega⟩,
      bitwise _ _ _ (Nat.mod_lt _ (by decide))]
    rfl

/-- A loop over bytes. -/
theorem stored_bytes
    {a b out : Nat}
    {f : Nat -> Nat -> Nat}
    (several : ell ≠ 1)
    (ellLe : ell ≤ 8)
    (canonical : ∀ x, (s x).Canonical ell)
    (sameOut : (s a).n = (s out).n)
    (within : ∀ x y, f x y < 2 ^ ell) :
    Stored ell s out (fun i => (f ((s a).word i) ((s b).word i) : ZMod (2 ^ ell)))
      (maskObject ell out (s.loop (s a).n f a b out)) := by
  have looped := VectorStore.looped_loop (s a).n f a b out s
  have length : (s out).data.length = (s out).n := by
    rw [(canonical out).size, wordCount_of_ne several]
  have sized : (s.loop (s a).n f a b out out).Sized ell := by
    refine ⟨by rw [looped.length, looped.n, (canonical out).size], fun k => ?_⟩
    rw [looped.word]
    split
    · rw [wordBits_of_ne several]
      exact Nat.lt_of_lt_of_le (within _ _) (Nat.pow_le_pow_right (by decide) ellLe)
    · exact (canonical out).bounded k
  refine ⟨fun x different => ?_, ?_, ?_, fun i inside => ?_⟩
  · rw [maskObject, VectorStore.put_of_ne different, looped.other x different]
  · rw [maskObject, VectorStore.put_self, n_maskPartialLastWord, looped.n]
  · rw [maskObject, VectorStore.put_self]
    exact sized.canonical_mask
  · rw [maskObject, VectorStore.put_self, maskPartialLastWord_of_ne several, element,
      read_of_ne several ellLe, looped.word, if_pos ⟨by omega, by omega⟩,
      Nat.mod_eq_of_lt (within _ _)]

/-! ## Elements -/

theorem element_one (v : Rvector) (i : Nat) :
    element 1 v i = ((v.bit i).toNat : ZMod (2 ^ 1)) := by
  rw [element, read_one]

theorem element_of_ne
    (several : ell ≠ 1)
    (ellLe : ell ≤ 8)
    (v : Rvector)
    (i : Nat) : element ell v i = (v.word i : ZMod (2 ^ ell)) := by
  rw [element, read_of_ne several ellLe, ZMod.natCast_mod]

theorem byteOp_lt (ellLe : ell ≤ 8) (op : UInt32 -> UInt32 -> UInt32) (x y : Nat) :
    byteOp ell op x y < 2 ^ ell := by
  rw [byteOp, toNat_maskResult ellLe]
  exact Nat.mod_lt _ (Nat.two_pow_pos ell)

theorem wordVal_ofNat (ellLe : ell ≤ 8) (x : Nat) :
    wordVal ell (UInt32.ofNat x) = (x : ZMod (2 ^ ell)) := by
  rw [wordVal, UInt32.toNat_ofNat', cast_mod_two_pow (by omega)]

theorem cast_byteOp
    (ellLe : ell ≤ 8)
    (op : UInt32 -> UInt32 -> UInt32)
    (x y : Nat) :
    (byteOp ell op x y : ZMod (2 ^ ell)) = wordVal ell (op (UInt32.ofNat x) (UInt32.ofNat y)) :=
  ringVal_maskResult ellLe _

/-! ## Sums, differences and products -/

section

variable {a b out : Nat}

theorem stored_add
    (ellLe : ell ≤ 8)
    (canonical : ∀ x, (s x).Canonical ell)
    (sameOut : (s a).n = (s out).n) :
    Stored ell s out (fun i => element ell (s a) i + element ell (s b) i)
      (maskObject ell out (addKernel ell a b out s)) := by
  by_cases one : ell = 1
  · subst one
    rw [addKernel, if_pos rfl]
    refine (stored_bits (b := b) (g := Bool.xor) canonical sameOut
      (fun x y xLt yLt => Nat.xor_lt_two_pow xLt yLt)
      fun x y j _ => Nat.testBit_xor x y j).congr fun i _ => ?_
    rw [element_one, element_one]
    cases (s a).bit i <;> cases (s b).bit i <;> decide
  · rw [addKernel, if_neg one]
    refine (stored_bytes (b := b) one ellLe canonical sameOut (byteOp_lt ellLe _)).congr
      fun i _ => ?_
    rw [cast_byteOp ellLe, wordVal_add (by omega), wordVal_ofNat ellLe, wordVal_ofNat ellLe,
      element_of_ne one ellLe, element_of_ne one ellLe]

theorem stored_sub
    (ellLe : ell ≤ 8)
    (canonical : ∀ x, (s x).Canonical ell)
    (sameOut : (s a).n = (s out).n) :
    Stored ell s out (fun i => element ell (s a) i - element ell (s b) i)
      (maskObject ell out (subKernel ell a b out s)) := by
  by_cases one : ell = 1
  · subst one
    rw [subKernel, if_pos rfl]
    refine (stored_add (b := b) ellLe canonical sameOut).congr fun i _ => ?_
    rw [element_one, element_one]
    cases (s a).bit i <;> cases (s b).bit i <;> decide
  · rw [subKernel, if_neg one]
    refine (stored_bytes (b := b) one ellLe canonical sameOut (byteOp_lt ellLe _)).congr
      fun i _ => ?_
    rw [cast_byteOp ellLe, wordVal_sub (by omega), wordVal_ofNat ellLe, wordVal_ofNat ellLe,
      element_of_ne one ellLe, element_of_ne one ellLe]

theorem stored_hadamard
    (ellLe : ell ≤ 8)
    (canonical : ∀ x, (s x).Canonical ell)
    (sameOut : (s a).n = (s out).n) :
    Stored ell s out (fun i => element ell (s a) i * element ell (s b) i)
      (maskObject ell out (hadamardKernel ell a b out s)) := by
  by_cases one : ell = 1
  · subst one
    rw [hadamardKernel, if_pos rfl]
    refine (stored_bits (b := b) (g := Bool.and) canonical sameOut
      (fun x y xLt _ => Nat.lt_of_le_of_lt Nat.and_le_left xLt)
      fun x y j _ => Nat.testBit_and x y j).congr fun i _ => ?_
    rw [element_one, element_one]
    cases (s a).bit i <;> cases (s b).bit i <;> decide
  · rw [hadamardKernel, if_neg one]
    refine (stored_bytes (b := b) one ellLe canonical sameOut (byteOp_lt ellLe _)).congr
      fun i _ => ?_
    rw [cast_byteOp ellLe, wordVal_mul (by omega), wordVal_ofNat ellLe, wordVal_ofNat ellLe,
      element_of_ne one ellLe, element_of_ne one ellLe]

/-! ## Scalars -/

theorem complement_lt {w : Nat} (inside : w < 2 ^ 64) : complement w < 2 ^ 64 :=
  Nat.xor_lt_two_pow inside (by decide)

theorem testBit_complement (w : Nat) {j : Nat} (inside : j < 64) :
    (complement w).testBit j = !w.testBit j := by
  rw [complement, Nat.testBit_xor, Nat.testBit_two_pow_sub_one, decide_eq_true inside,
    Bool.xor_true]

/-- An operation without effect on an output that is its input. -/
theorem stored_nop
    (canonical : ∀ x, (s x).Canonical 1)
    (samePointer : s.samePointer out a) :
    Stored 1 s out (fun i => element 1 (s a) i) (maskObject 1 out s) := by
  refine ⟨fun x different => ?_, ?_, ?_, fun i inside => ?_⟩
  · rw [maskObject, VectorStore.put_of_ne different]
  · rw [maskObject, VectorStore.put_self, n_maskPartialLastWord]
  · rw [maskObject, VectorStore.put_self]
    exact (canonical out).sized.canonical_mask
  · rw [maskObject, VectorStore.put_self, element,
      read_maskPartialLastWord (canonical out).sized inside]
    rcases samePointer with same | ⟨empty, -⟩
    · rw [same]
      rfl
    · have words : (s out).data.length = ((s out).n + 63) / 64 := (canonical out).size
      rw [empty, List.length_nil] at words
      omega

/-- The scalars of bits. -/
theorem scalar_bit {scalar : UInt8} (inRing : scalar.toNat < 2 ^ 1) : scalar = 0 ∨ scalar = 1 := by
  have two : scalar.toNat = 0 ∨ scalar.toNat = 1 := by omega
  rcases two with zero | one
  · exact Or.inl (UInt8.toNat_inj.mp zero)
  · exact Or.inr (UInt8.toNat_inj.mp one)

theorem stored_addScalar
    (ellLe : ell ≤ 8)
    (canonical : ∀ x, (s x).Canonical ell)
    (sameOut : (s a).n = (s out).n)
    {scalar : UInt8}
    (inRing : scalar.toNat < 2 ^ ell) :
    Stored ell s out (fun i => element ell (s a) i + (scalar.toNat : ZMod (2 ^ ell)))
      (maskObject ell out (addScalarKernel ell a scalar out s)) := by
  by_cases one : ell = 1
  · subst one
    have copied : Stored 1 s out (fun i => element 1 (s a) i)
        (maskObject 1 out (s.loop (s a).data.length (fun x _ => x) a a out)) :=
      (stored_bits (g := fun p _ => p) canonical sameOut (fun x _ xLt _ => xLt)
        fun x y j _ => rfl).congr fun i _ => (element_one _ _).symm
    have inverted : Stored 1 s out (fun i => element 1 (s a) i + 1)
        (maskObject 1 out (s.loop (s a).data.length (fun x _ => complement x) a a out)) :=
      (stored_bits (g := fun p _ => !p) canonical sameOut (fun x _ xLt _ => complement_lt xLt)
        fun x y j inside => testBit_complement x inside).congr fun i _ => by
          rw [element_one]
          cases (s a).bit i <;> decide
    rw [addScalarKernel, if_pos rfl]
    rcases scalar_bit inRing with rfl | rfl
    · have value : ∀ i < (s out).n, element 1 (s a) i =
          element 1 (s a) i + ((0 : UInt8).toNat : ZMod (2 ^ 1)) := fun i _ => by simp
      split
      · next aliased => exact (stored_nop canonical aliased).congr value
      · exact copied.congr value
    · have value : ∀ i < (s out).n, element 1 (s a) i + 1 =
          element 1 (s a) i + ((1 : UInt8).toNat : ZMod (2 ^ 1)) := fun i _ => by simp
      split
      · rw [if_neg (by decide)]
        exact inverted.congr value
      · rw [if_neg (by decide)]
        exact inverted.congr value
  · rw [addScalarKernel, if_neg one]
    refine (stored_bytes (b := a) one ellLe canonical sameOut
      fun x _ => byteOp_lt ellLe _ x scalar.toNat).congr fun i _ => ?_
    rw [cast_byteOp ellLe, wordVal_add (by omega), wordVal_ofNat ellLe, wordVal_ofNat ellLe,
      element_of_ne one ellLe]

theorem stored_subScalar
    (ellLe : ell ≤ 8)
    (canonical : ∀ x, (s x).Canonical ell)
    (sameOut : (s a).n = (s out).n)
    {scalar : UInt8}
    (inRing : scalar.toNat < 2 ^ ell) :
    Stored ell s out (fun i => element ell (s a) i - (scalar.toNat : ZMod (2 ^ ell)))
      (maskObject ell out (subScalarKernel ell a scalar out s)) := by
  by_cases one : ell = 1
  · subst one
    rw [subScalarKernel, if_pos rfl]
    refine (stored_addScalar ellLe canonical sameOut inRing).congr fun i _ => ?_
    rw [element_one]
    rcases scalar_bit inRing with rfl | rfl
    · simp
    · cases (s a).bit i <;> decide
  · rw [subScalarKernel, if_neg one]
    refine (stored_bytes (b := a) one ellLe canonical sameOut
      fun x _ => byteOp_lt ellLe _ x scalar.toNat).congr fun i _ => ?_
    rw [cast_byteOp ellLe, wordVal_sub (by omega), wordVal_ofNat ellLe, wordVal_ofNat ellLe,
      element_of_ne one ellLe]

theorem stored_mulScalar
    (ellLe : ell ≤ 8)
    (canonical : ∀ x, (s x).Canonical ell)
    (sameOut : (s a).n = (s out).n)
    {scalar : UInt8}
    (inRing : scalar.toNat < 2 ^ ell) :
    Stored ell s out (fun i => element ell (s a) i * (scalar.toNat : ZMod (2 ^ ell)))
      (maskObject ell out (mulScalarKernel ell a scalar out s)) := by
  by_cases one : ell = 1
  · subst one
    have copied : Stored 1 s out (fun i => element 1 (s a) i)
        (maskObject 1 out (s.loop (s a).data.length (fun x _ => x) a a out)) :=
      (stored_bits (g := fun p _ => p) canonical sameOut (fun x _ xLt _ => xLt)
        fun x y j _ => rfl).congr fun i _ => (element_one _ _).symm
    have cleared : Stored 1 s out (fun _ => 0)
        (maskObject 1 out (s.loop (s a).data.length (fun _ _ => 0) a a out)) :=
      (stored_bits (g := fun _ _ => false) canonical sameOut (fun _ _ _ _ => by decide)
        fun x y j _ => Nat.zero_testBit j).congr fun i _ => by simp
    rw [mulScalarKernel, if_pos rfl]
    rcases scalar_bit inRing with rfl | rfl
    · have value : ∀ i < (s out).n, 0 =
          element 1 (s a) i * ((0 : UInt8).toNat : ZMod (2 ^ 1)) := fun i _ => by simp
      split
      · rw [if_neg (by decide)]
        exact cleared.congr value
      · rw [if_neg (by decide)]
        exact cleared.congr value
    · have value : ∀ i < (s out).n, element 1 (s a) i =
          element 1 (s a) i * ((1 : UInt8).toNat : ZMod (2 ^ 1)) := fun i _ => by simp
      split
      · next aliased => exact (stored_nop canonical aliased).congr value
      · exact copied.congr value
  · rw [mulScalarKernel, if_neg one]
    refine (stored_bytes (b := a) one ellLe canonical sameOut
      fun x _ => byteOp_lt ellLe _ x scalar.toNat).congr fun i _ => ?_
    rw [cast_byteOp ellLe, wordVal_mul (by omega), wordVal_ofNat ellLe, wordVal_ofNat ellLe,
      element_of_ne one ellLe]

end

end

end Rvector
end Mpmt
