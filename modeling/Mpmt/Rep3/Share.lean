import Mpmt.RingMath

/-!
# Replicated shares

Three parties sit on a ring.  A replicated share of a value is an additive
share at every party together with a copy of the share of the next party.
-/

namespace Mpmt
namespace Rep3

open RingMath

/-! ## Parties -/

/-- `ShrRep3Pid`. -/
inductive ShrRep3Pid
  | P0
  | P1
  | P2
  deriving DecidableEq, Repr

instance : Fintype ShrRep3Pid where
  elems := {.P0, .P1, .P2}
  complete pid := by cases pid <;> decide

/-- `Aby3::PREV`. -/
def ShrRep3Pid.PREV : ShrRep3Pid -> ShrRep3Pid
  | .P0 => .P2
  | .P1 => .P0
  | .P2 => .P1

/-- `Aby3::NEXT`. -/
def ShrRep3Pid.NEXT : ShrRep3Pid -> ShrRep3Pid
  | .P0 => .P1
  | .P1 => .P2
  | .P2 => .P0

@[simp] theorem ShrRep3Pid.PREV_NEXT (pid : ShrRep3Pid) :
    pid.NEXT.PREV = pid := by
  cases pid <;> rfl

@[simp] theorem ShrRep3Pid.NEXT_PREV (pid : ShrRep3Pid) :
    pid.PREV.NEXT = pid := by
  cases pid <;> rfl

/-- A value for each of the three parties. -/
def ShrRep3Pid.each (zero one two : A) : ShrRep3Pid -> A
  | .P0 => zero
  | .P1 => one
  | .P2 => two

/-- Sum of what the three parties hold. -/
def sum3 [Add M] (f : ShrRep3Pid -> M) : M := f .P0 + f .P1 + f .P2

theorem sum3_NEXT [AddCommMonoid M] (f : ShrRep3Pid -> M) :
    (sum3 fun pid => f pid.NEXT) = sum3 f := by
  show f .P1 + f .P2 + f .P0 = f .P0 + f .P1 + f .P2
  rw [add_comm, add_assoc]

theorem sum3_PREV [AddCommMonoid M] (f : ShrRep3Pid -> M) :
    (sum3 fun pid => f pid.PREV) = sum3 f := by
  have shifted := sum3_NEXT fun pid => f pid.PREV
  simpa using shifted.symm

@[simp] theorem sum3_zero [AddCommMonoid M] :
    (sum3 fun _ => (0 : M)) = 0 := by
  simp [sum3]

theorem sum3_add [AddCommMonoid M] (f g : ShrRep3Pid -> M) :
    (sum3 fun pid => f pid + g pid) = sum3 f + sum3 g := by
  simp only [sum3]
  abel

theorem sum3_sub [AddCommGroup M] (f g : ShrRep3Pid -> M) :
    (sum3 fun pid => f pid - g pid) = sum3 f - sum3 g := by
  simp only [sum3]
  abel

/-- Each party can form its own square, and the cross terms of its share with
the next one; together these are all nine terms of a product. -/
theorem sum3_cross [CommRing M] (f g : ShrRep3Pid -> M) :
    (sum3 fun pid => f pid * g pid + f pid * g pid.NEXT +
      f pid.NEXT * g pid) = sum3 f * sum3 g := by
  simp only [sum3, ShrRep3Pid.NEXT]
  ring

/-! ## Vectors -/

/-- `Rvector<ELL>` with `n` elements, seen through its elements. -/
abbrev Rvector (n : Nat) := Fin n -> UInt8

namespace Rvector

/-- `Rvector::add`. -/
def add (ell : Nat) (a b : Rvector n) : Rvector n :=
  fun i => ringAdd8 ell (a i) (b i)

/-- `Rvector::sub`; for bits it is the same xor as `add`. -/
def sub (ell : Nat) (a b : Rvector n) : Rvector n :=
  if ell = 1 then add ell a b else fun i => ringSub8 ell (a i) (b i)

/-- `Rvector::hadamard`. -/
def hadamard (ell : Nat) (a b : Rvector n) : Rvector n :=
  fun i => ringMul8 ell (a i) (b i)

/-- `Rvector::dot`: the sum of the products in 64-bit arithmetic, masked at
the end. -/
def dot (ell : Nat) (a b : Rvector n) : UInt8 :=
  let acc := (List.finRange n).foldl
    (fun acc i => acc + (a i).toUInt64 * (b i).toUInt64) (0 : UInt64)
  (acc &&& (ringMask8 ell).toUInt64).toUInt8

/-- The elements that `send_data` puts on the wire, one byte each.  For `ell = 1`
the wire carries them as the bits of 64-bit words. -/
def data (a : Rvector n) : List UInt8 := List.ofFn a

/-- The vector that `recv_data` stores, from the elements that it reads. -/
def ofData (n : Nat) (bytes : List UInt8) : Rvector n :=
  fun i => bytes.getD i.val 0

@[simp] theorem length_data (a : Rvector n) : a.data.length = n :=
  List.length_ofFn

@[simp] theorem ofData_data (a : Rvector n) : ofData n a.data = a := by
  funext i
  simp [ofData, data]

/-- The ring elements of a vector. -/
def val (ell : Nat) (a : Rvector n) : Fin n -> ZMod (2 ^ ell) :=
  fun i => ringVal ell (a i)

theorem val_add (ellLe : ell ≤ 8) (a b : Rvector n) :
    val ell (add ell a b) = val ell a + val ell b := by
  funext i
  exact ringVal_ringAdd8 ellLe (a i) (b i)

/-- In characteristic two a difference is a sum. -/
theorem val_sub (ellLe : ell ≤ 8) (a b : Rvector n) :
    val ell (sub ell a b) = val ell a - val ell b := by
  funext i
  unfold sub
  split
  · next bits =>
      subst ell
      have add := ringVal_ringAdd8 ellLe (a i) (b i)
      simp only [Rvector.add, val, Pi.sub_apply, add]
      exact (CharTwo.sub_eq_add (R := ZMod 2) _ _).symm
  · exact ringVal_ringSub8 ellLe (a i) (b i)

theorem val_hadamard (ellLe : ell ≤ 8) (a b : Rvector n) :
    val ell (hadamard ell a b) = val ell a * val ell b := by
  funext i
  exact ringVal_ringMul8 ellLe (a i) (b i)

private theorem longVal_foldl
    (ellLe : ell ≤ 64)
    (a b : Rvector n)
    (indices : List (Fin n))
    (acc : UInt64) :
    longVal ell (indices.foldl
        (fun acc i => acc + (a i).toUInt64 * (b i).toUInt64) acc) =
      longVal ell acc +
        (indices.map fun i => val ell a i * val ell b i).sum := by
  induction indices generalizing acc with
  | nil => simp
  | cons i rest inductionHypothesis =>
      rw [List.foldl_cons, inductionHypothesis, longVal_add ellLe,
        longVal_mul ellLe, longVal_toUInt64, longVal_toUInt64, List.map_cons,
        List.sum_cons, add_assoc]
      rfl

theorem ringVal_dot (ellLe : ell ≤ 8) (a b : Rvector n) :
    ringVal ell (dot ell a b) = ∑ i, val ell a i * val ell b i := by
  unfold dot
  rw [ringVal_toUInt8_and_ringMask8 ellLe, longVal_foldl (by omega),
    longVal_zero, zero_add, ← List.ofFn_eq_map, List.sum_ofFn]

end Rvector

/-! ## Shares -/

/-- `ShrRep3ShareScalar`. -/
structure ShareScalar where
  thisShare : UInt32
  nxtShare : UInt32
  deriving DecidableEq, Repr

/-- `ShrRep3ShareVec`. -/
structure ShareVec (n : Nat) where
  thisShare : Rvector n
  nxtShare : Rvector n

/-- The shares of the three parties are replicated and add up to `value`. -/
structure ScalarHolds
    (ell : Nat)
    (shares : ShrRep3Pid -> ShareScalar)
    (value : ZMod (2 ^ ell)) : Prop where
  replicated : ∀ pid, (shares pid).nxtShare = (shares pid.NEXT).thisShare
  total : (sum3 fun pid => wordVal ell (shares pid).thisShare) = value

/-- The same for a vector, element by element. -/
structure VectorHolds
    (ell : Nat)
    (shares : ShrRep3Pid -> ShareVec n)
    (value : Fin n -> ZMod (2 ^ ell)) : Prop where
  replicated : ∀ pid, (shares pid).nxtShare = (shares pid.NEXT).thisShare
  total : (sum3 fun pid => (shares pid).thisShare.val ell) = value

end Rep3
end Mpmt
