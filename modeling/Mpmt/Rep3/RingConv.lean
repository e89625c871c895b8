import Mpmt.Rep3.Correct

/-!
# Conversion of shared bits

`ringConv` turns a replicated share of a bit over `Z_2` into one of the same
bit over `Z_{2^ELL_TO}`.  A bit is the exclusive or of its three shares, and
`x xor y = x + y - 2xy` gives it in two rounds: first for the shares of `P0`
and `P1`, which `P0` holds both, then for the result and the share of `P2`.

The masks come from an arbitrary supply; `crng` is one.
-/

namespace Mpmt
namespace Rep3

open RingMath Network
open Dpf (Block Bytes16)

/-! ## The protocol -/

section

variable {S : Type} (ellTo : Nat) (pid : ShrRep3Pid)

section

variable (crng : S -> UInt8 × S)

/-- The masked local part of `Jprod01 = Jb0 * Jb1`. -/
def ringConvProd01 (b0 b1 : UInt8) : StateT S (Proc aby3Net) UInt8 :=
  match pid with
  | .P0 => do
      let prod01 := ringMul8 ellTo b0 b1
      let mask ← modifyGet crng
      return ringAdd8 ellTo prod01 mask
  | .P1 | .P2 => modifyGet crng

/-- `Jd = Jb0 + Jb1 - 2 * Jprod01`. -/
def ringConvJd (b0 b1 : UInt8) (Jprod01 : ShareScalar) : ShareScalar :=
  let this := Jprod01.thisShare.toUInt8
  let nxt := Jprod01.nxtShare.toUInt8
  match pid with
  | .P0 => {
      thisShare := (ringSub8 ellTo b0 (ringAdd8 ellTo this this)).toUInt32
      nxtShare := (ringSub8 ellTo b1 (ringAdd8 ellTo nxt nxt)).toUInt32 }
  | .P1 => {
      thisShare := (ringSub8 ellTo b0 (ringAdd8 ellTo this this)).toUInt32
      nxtShare := (ringSub8 ellTo 0 (ringAdd8 ellTo nxt nxt)).toUInt32 }
  | .P2 => {
      thisShare := (ringSub8 ellTo 0 (ringAdd8 ellTo this this)).toUInt32
      nxtShare := (ringSub8 ellTo b1 (ringAdd8 ellTo nxt nxt)).toUInt32 }

/-- The masked local part of `Jprod2 = Jd * Jb2`. -/
def ringConvProd2 (b0 b1 : UInt8) (Jd : ShareScalar) :
    StateT S (Proc aby3Net) UInt8 :=
  match pid with
  | .P0 => modifyGet crng
  | .P1 => do
      let prod2 := ringMul8 ellTo Jd.thisShare.toUInt8 b1
      let mask ← modifyGet crng
      return ringAdd8 ellTo prod2 mask
  | .P2 => do
      let sum := ringAdd8 ellTo Jd.thisShare.toUInt8 Jd.nxtShare.toUInt8
      let prod2 := ringMul8 ellTo sum b0
      let mask ← modifyGet crng
      return ringAdd8 ellTo prod2 mask

/-- `Je = Jd + Jb2 - 2 * Jprod2`. -/
def ringConvJe (b0 b1 : UInt8) (Jd Jprod2 : ShareScalar) : ShareScalar :=
  let this := Jprod2.thisShare.toUInt8
  let nxt := Jprod2.nxtShare.toUInt8
  let dThis := Jd.thisShare.toUInt8
  let dNxt := Jd.nxtShare.toUInt8
  match pid with
  | .P0 => {
      thisShare := (ringSub8 ellTo dThis (ringAdd8 ellTo this this)).toUInt32
      nxtShare := (ringSub8 ellTo dNxt (ringAdd8 ellTo nxt nxt)).toUInt32 }
  | .P1 => {
      thisShare := (ringSub8 ellTo dThis (ringAdd8 ellTo this this)).toUInt32
      nxtShare := (ringSub8 ellTo (ringAdd8 ellTo dNxt b1)
        (ringAdd8 ellTo nxt nxt)).toUInt32 }
  | .P2 => {
      thisShare := (ringSub8 ellTo (ringAdd8 ellTo dThis b0)
        (ringAdd8 ellTo this this)).toUInt32
      nxtShare := (ringSub8 ellTo dNxt (ringAdd8 ellTo nxt nxt)).toUInt32 }

/-- `ringConv` of a scalar. -/
def ringConv (num : ShareScalar) : StateT S (Proc aby3Net) ShareScalar := do
  let b0 := num.thisShare.toUInt8
  let b1 := num.nxtShare.toUInt8
  let m1 ← ringConvProd01 ellTo pid crng b0 b1
  let Jprod01 ← exchange pid m1.toUInt32
  let Jd := ringConvJd ellTo pid b0 b1 Jprod01
  let m2 ← ringConvProd2 ellTo pid crng b0 b1 Jd
  let Jprod2 ← exchange pid m2.toUInt32
  return ringConvJe ellTo pid b0 b1 Jd Jprod2

end

/-- `Rvector::set`; a value outside the ring is refused. -/
def Rvector.set
    (vec : Rvector n)
    (i : Fin n)
    (val : UInt8) : Proc aby3Net (Rvector n) :=
  if ringMask8 ellTo < val then throw .invalid_argument
  else return Function.update vec i val

/-- A loop that sets every element from the vector as it is then. -/
def Rvector.setEach
    (val : Rvector n -> Fin n -> UInt8)
    (vec : Rvector n) : Proc aby3Net (Rvector n) :=
  (List.finRange n).foldlM (fun vec i => vec.set ellTo i (val vec i)) vec

/-- `Rvector::fill` with its default value. -/
def Rvector.fill : Rvector n := fun _ => 0

/-- Lift `b0`, `b1` into `oVec`. -/
def ringConvLift (iVec oVec : ShareVec n) : Proc aby3Net (ShareVec n) :=
  (List.finRange n).foldlM
    (fun oVec i => do
      let thisShare ← oVec.thisShare.set ellTo i (iVec.thisShare i)
      let nxtShare ← oVec.nxtShare.set ellTo i (iVec.nxtShare i)
      return { thisShare := thisShare, nxtShare := nxtShare })
    oVec

section

variable (crngVector : S -> Rvector n × S)

/-- The masked local part of `Jprod01`, in the buffer `prod01`. -/
def ringConvVecProd01 (oVec : ShareVec n) :
    StateT S (Proc aby3Net) (Rvector n) :=
  match pid with
  | .P0 => do
      let prod01 := Rvector.hadamard ellTo oVec.thisShare oVec.nxtShare
      let tmp ← modifyGet crngVector
      return Rvector.add ellTo prod01 tmp
  | .P1 | .P2 => do
      let prod01 := Rvector.fill
      let tmp ← modifyGet crngVector
      return Rvector.add ellTo prod01 tmp

/-- `Jd` in place of `oVec`, from the doubled buffers. -/
def ringConvVecJd (oVec : ShareVec n) (prod01 tmp : Rvector n) :
    ShareVec n :=
  match pid with
  | .P0 => {
      thisShare := Rvector.sub ellTo oVec.thisShare prod01
      nxtShare := Rvector.sub ellTo oVec.nxtShare tmp }
  | .P1 => {
      thisShare := Rvector.sub ellTo oVec.thisShare prod01
      nxtShare := Rvector.sub ellTo Rvector.fill tmp }
  | .P2 => {
      thisShare := Rvector.sub ellTo Rvector.fill prod01
      nxtShare := Rvector.sub ellTo oVec.nxtShare tmp }

/-- The masked local part of `Jprod2`, in the buffer `prod01`. -/
def ringConvVecProd2 (iVec oVec : ShareVec n) (prod01 : Rvector n) :
    StateT S (Proc aby3Net) (Rvector n) :=
  match pid with
  | .P0 => do
      let prod01 := Rvector.fill
      let tmp ← modifyGet crngVector
      return Rvector.add ellTo prod01 tmp
  | .P1 => do
      let prod01 ← prod01.setEach ellTo fun _ i =>
        ringMul8 ellTo (oVec.thisShare i) (iVec.nxtShare i)
      let tmp ← modifyGet crngVector
      return Rvector.add ellTo prod01 tmp
  | .P2 => do
      let prod01 ← prod01.setEach ellTo fun _ i =>
        let sum := ringAdd8 ellTo (oVec.thisShare i) (oVec.nxtShare i)
        ringMul8 ellTo sum (iVec.thisShare i)
      let tmp ← modifyGet crngVector
      return Rvector.add ellTo prod01 tmp

/-- `Je` in place of `oVec`, from the doubled buffers. -/
def ringConvVecJe (iVec oVec : ShareVec n) (prod01 tmp : Rvector n) :
    Proc aby3Net (ShareVec n) :=
  match pid with
  | .P0 => return {
      thisShare := Rvector.sub ellTo oVec.thisShare prod01
      nxtShare := Rvector.sub ellTo oVec.nxtShare tmp }
  | .P1 => do
      let thisShare := Rvector.sub ellTo oVec.thisShare prod01
      let nxtShare ← oVec.nxtShare.setEach ellTo fun nxtShare i =>
        ringSub8 ellTo (ringAdd8 ellTo (nxtShare i) (iVec.nxtShare i)) (tmp i)
      return { thisShare := thisShare, nxtShare := nxtShare }
  | .P2 => do
      let thisShare ← oVec.thisShare.setEach ellTo fun thisShare i =>
        ringSub8 ellTo (ringAdd8 ellTo (thisShare i) (iVec.thisShare i))
          (prod01 i)
      let nxtShare := Rvector.sub ellTo oVec.nxtShare tmp
      return { thisShare := thisShare, nxtShare := nxtShare }

/-- `ringConv` of a vector; `oVec` has the size of `iVec`. -/
def ringConvVec (iVec oVec : ShareVec n) :
    StateT S (Proc aby3Net) (ShareVec n) := do
  if n = 0 then
    return oVec
  let oVec ← ringConvLift ellTo iVec oVec
  let prod01 ← ringConvVecProd01 ellTo pid crngVector oVec
  let tmp ← reshare_ring pid prod01
  let prod01 := Rvector.add ellTo prod01 prod01
  let tmp := Rvector.add ellTo tmp tmp
  let oVec := ringConvVecJd ellTo pid oVec prod01 tmp
  let prod01 ← ringConvVecProd2 ellTo pid crngVector iVec oVec prod01
  let tmp ← reshare_ring pid prod01
  let prod01 := Rvector.add ellTo prod01 prod01
  let tmp := Rvector.add ellTo tmp tmp
  ringConvVecJe ellTo pid iVec oVec prod01 tmp

end

end

/-! ## Additive shares through the two rounds -/

section

variable {R : Type} [CommRing R] (x m1 m2 : ShrRep3Pid -> R)

/-- The share of `Jprod01` that each party ends up with. -/
private def prod01Share : ShrRep3Pid -> R
  | .P0 => x .P0 * x .P1 + m1 .P0
  | .P1 => m1 .P1
  | .P2 => m1 .P2

/-- The share of `Jd`. -/
private def dShare : ShrRep3Pid -> R
  | .P0 => x .P0 - (prod01Share x m1 .P0 + prod01Share x m1 .P0)
  | .P1 => x .P1 - (prod01Share x m1 .P1 + prod01Share x m1 .P1)
  | .P2 => 0 - (prod01Share x m1 .P2 + prod01Share x m1 .P2)

/-- The share of `Jprod2`; between them `P1` and `P2` hold all of `Jd` and
both hold the share of `P2`. -/
private def prod2Share : ShrRep3Pid -> R
  | .P0 => m2 .P0
  | .P1 => dShare x m1 .P1 * x .P2 + m2 .P1
  | .P2 => (dShare x m1 .P2 + dShare x m1 .P0) * x .P2 + m2 .P2

/-- The share of `Je`. -/
private def eShare : ShrRep3Pid -> R
  | .P0 => dShare x m1 .P0 - (prod2Share x m1 m2 .P0 + prod2Share x m1 m2 .P0)
  | .P1 => dShare x m1 .P1 - (prod2Share x m1 m2 .P1 + prod2Share x m1 m2 .P1)
  | .P2 => dShare x m1 .P2 + x .P2 -
      (prod2Share x m1 m2 .P2 + prod2Share x m1 m2 .P2)

/-- When the masks cancel, the shares of `Je` add up to the exclusive or. -/
private theorem sum3_eShare
    (cancel1 : sum3 m1 = 0)
    (cancel2 : sum3 m2 = 0) :
    sum3 (eShare x m1 m2) =
      (x .P0 + x .P1 - 2 * (x .P0 * x .P1)) + x .P2 -
        2 * ((x .P0 + x .P1 - 2 * (x .P0 * x .P1)) * x .P2) := by
  simp only [sum3, eShare, prod2Share, dShare, prod01Share] at *
  linear_combination (4 * x .P2 - 2) * cancel1 - 2 * cancel2

/-- The exclusive or of three bits, read as an integer. -/
private theorem cast_xor (b0 b1 b2 : Bool) :
    (((b0 ^^ b1 ^^ b2).toNat : Nat) : R) =
      ((b0.toNat : R) + (b1.toNat : R) - 2 * ((b0.toNat : R) * (b1.toNat : R))) +
        (b2.toNat : R) -
        2 * (((b0.toNat : R) + (b1.toNat : R) -
          2 * ((b0.toNat : R) * (b1.toNat : R))) * (b2.toNat : R)) := by
  cases b0 <;> cases b1 <;> cases b2 <;> norm_num

end

/-! ## Shared bits -/

/-- A consistent replicated share over `Z_2` of a bit; shares are bits. -/
structure BitShared (num : ShrRep3Pid -> ShareScalar) (b : Bool) : Prop where
  holds : ScalarHolds 1 num b.toNat
  bits : ∀ pid, (num pid).thisShare.toNat < 2

/-- A consistent replicated share over `Z_2` of a vector of bits. -/
structure BitsShared
    (iVec : ShrRep3Pid -> ShareVec n)
    (b : Fin n -> Bool) : Prop where
  holds : VectorHolds 1 iVec fun i => (b i).toNat
  bits : ∀ pid i, Canonical 1 ((iVec pid).thisShare i)

/-- The element at an index of a shared vector. -/
def ShareVec.at (vec : ShareVec n) (i : Fin n) : ShareScalar where
  thisShare := (vec.thisShare i).toUInt32
  nxtShare := (vec.nxtShare i).toUInt32

theorem BitsShared.at
    {iVec : ShrRep3Pid -> ShareVec n}
    {b : Fin n -> Bool}
    (shared : BitsShared iVec b)
    (i : Fin n) : BitShared (fun pid => (iVec pid).at i) (b i) where
  holds := {
    replicated := fun pid => by
      simp only [ShareVec.at, shared.holds.replicated]
    total := by
      have total := congrFun shared.holds.total i
      simp only [ShareVec.at, wordVal_toUInt32]
      exact total }
  bits pid := by
    rw [ShareVec.at, UInt8.toNat_toUInt32]
    exact shared.bits pid i

/-- The word that stores a bit. -/
private def bitWord (b : Bool) : UInt32 := if b then 1 else 0

/-- A shared bit is the exclusive or of three bits, each held twice. -/
private theorem BitShared.cases
    (shared : BitShared num b) :
    ∃ x : ShrRep3Pid -> Bool, b = (x .P0 ^^ x .P1 ^^ x .P2) ∧
      ∀ pid, num pid = ⟨bitWord (x pid), bitWord (x pid.NEXT)⟩ := by
  have isBit : ∀ pid, (num pid).thisShare =
      bitWord ((num pid).thisShare.toNat == 1) := by
    intro pid
    have bit := shared.bits pid
    have : (num pid).thisShare.toNat = 0 ∨ (num pid).thisShare.toNat = 1 := by
      omega
    rcases this with zero | one
    · rw [zero]
      exact UInt32.toNat_inj.mp zero
    · rw [one]
      exact UInt32.toNat_inj.mp one
  refine ⟨fun pid => (num pid).thisShare.toNat == 1, ?_, fun pid => ?_⟩
  · have total := shared.holds.total
    simp only [sum3] at total
    rw [isBit .P0, isBit .P1, isBit .P2] at total
    revert total
    dsimp only
    generalize ((num .P0).thisShare.toNat == 1) = x0
    generalize ((num .P1).thisShare.toNat == 1) = x1
    generalize ((num .P2).thisShare.toNat == 1) = x2
    cases b <;> cases x0 <;> cases x1 <;> cases x2 <;> decide
  · rw [← isBit pid, ← isBit pid.NEXT, ← shared.holds.replicated pid]

private theorem wordVal_bitWord (ell : Nat) (b : Bool) :
    wordVal ell (bitWord b) = (b.toNat : ZMod (2 ^ ell)) := by
  cases b <;> simp [bitWord, wordVal]

private theorem ringVal_zero (ell : Nat) : ringVal ell 0 = 0 := by
  simp [ringVal]

private theorem Rvector.val_fill (ell : Nat) (i : Fin n) :
    Rvector.val ell Rvector.fill i = 0 :=
  ringVal_zero ell

/-! ## Canonical words -/

/-- A word stores a ring element in its canonical form. -/
private def Stores
    (ell : Nat)
    (word : UInt32)
    (value : ZMod (2 ^ ell)) : Prop :=
  word.toNat < 2 ^ ell ∧ wordVal ell word = value

private theorem Stores.unique
    (stores : Stores ell word value)
    (stores' : Stores ell word' value) : word = word' := by
  have equal := stores.2.trans stores'.2.symm
  rw [wordVal, wordVal, ZMod.natCast_eq_natCast_iff, Nat.ModEq,
    Nat.mod_eq_of_lt stores.1, Nat.mod_eq_of_lt stores'.1] at equal
  exact UInt32.toNat_inj.mp equal

private theorem canonical_ringMul8 (ellLe : ell ≤ 8) (a b : UInt8) :
    Canonical ell (ringMul8 ell a b) :=
  canonical_maskResult ellLe _

private theorem canonical_ringSub8 (ellLe : ell ≤ 8) (a b : UInt8) :
    Canonical ell (ringSub8 ell a b) :=
  canonical_maskResult ellLe _

private theorem stores_ringSub8
    (ellLe : ell ≤ 8)
    {a b : UInt8}
    (equal : ringVal ell a - ringVal ell b = value) :
    Stores ell (ringSub8 ell a b).toUInt32 value := by
  refine ⟨?_, ?_⟩
  · rw [UInt8.toNat_toUInt32]
    exact canonical_ringSub8 ellLe a b
  · rw [wordVal_toUInt32, ringVal_ringSub8 ellLe, equal]

/-- The parties hold the additive shares `e`, each in canonical form. -/
private def Converted
    (ell : Nat)
    (e : ShrRep3Pid -> ZMod (2 ^ ell))
    (res : ShrRep3Pid -> ShareScalar) : Prop :=
  ∀ pid, Stores ell (res pid).thisShare (e pid) ∧
    Stores ell (res pid).nxtShare (e pid.NEXT)

private theorem Converted.unique
    (converted : Converted ell e res)
    (converted' : Converted ell e res') : res = res' := by
  funext pid
  have this := (converted pid).1.unique (converted' pid).1
  have nxt := (converted pid).2.unique (converted' pid).2
  cases left : res pid
  cases right : res' pid
  simp_all

private theorem Converted.holds
    (converted : Converted ell e res) : ScalarHolds ell res (sum3 e) where
  replicated pid := (converted pid).2.unique (converted pid.NEXT).1
  total := by
    simp only [fun pid => (converted pid).1.2]

/-! ## Runs of three parties -/

/-- Run by all three parties from the states `s`, the protocols complete in
the states `s'` with results that satisfy `good`. -/
private def Yields
    (procs : ShrRep3Pid -> StateT S (Proc aby3Net) Out)
    (s s' : ShrRep3Pid -> S)
    (good : (ShrRep3Pid -> Out) -> Prop) : Prop :=
  ∃ out, Completes (fun pid => (procs pid).run (s pid))
    (fun pid => (out pid, s' pid)) ∧ good out

private theorem Yields.bind
    {procs : ShrRep3Pid -> StateT S (Proc aby3Net) Out}
    {next : ShrRep3Pid -> Out -> StateT S (Proc aby3Net) Out'}
    {good : (ShrRep3Pid -> Out) -> Prop}
    {good' : (ShrRep3Pid -> Out') -> Prop}
    (first : Yields procs s s' good)
    (second : ∀ out, good out ->
      Yields (fun pid => next pid (out pid)) s' s'' good') :
    Yields (fun pid => procs pid >>= next pid) s s'' good' := by
  obtain ⟨out, completes, isGood⟩ := first
  obtain ⟨out', completes', isGood'⟩ := second out isGood
  refine ⟨out', ?_, isGood'⟩
  simp only [StateT.run_bind]
  exact completes.bind completes'

/-- Every party computes on its own. -/
private theorem Yields.of_run
    {procs : ShrRep3Pid -> StateT S (Proc aby3Net) Out}
    (good : ShrRep3Pid -> Out -> Prop)
    (runs : ∀ pid, ∃ out, (procs pid).run (s pid) = .ret (out, s' pid) ∧
      good pid out) :
    Yields procs s s' fun out => ∀ pid, good pid (out pid) := by
  choose out run isGood using runs
  refine ⟨out, ?_, isGood⟩
  simp only [run]
  exact Completes.pure (I := aby3Net) fun pid => (out pid, s' pid)

private theorem Yields.lift
    {procs : ShrRep3Pid -> Proc aby3Net Out}
    {out : ShrRep3Pid -> Out}
    (completes : Completes (I := aby3Net) procs out)
    (s : ShrRep3Pid -> S) :
    Yields (fun pid => (procs pid : StateT S (Proc aby3Net) Out)) s s
      fun out' => out' = out :=
  ⟨out, completes.bind
    (Completes.pure (I := aby3Net) fun pid => (out pid, s pid)), rfl⟩

/-! ## The scalar protocol -/

section

variable {S : Type} {crng : S -> UInt8 × S} {s : ShrRep3Pid -> S}

/-- The bits as elements of the target ring. -/
private abbrev lifted (ell : Nat) (x : ShrRep3Pid -> Bool) :
    ShrRep3Pid -> ZMod (2 ^ ell) :=
  fun pid => ((x pid).toNat : ZMod (2 ^ ell))

private theorem ringConvProd01_yields
    (ellLe : ellTo ≤ 8)
    (x : ShrRep3Pid -> Bool)
    {m1 : ShrRep3Pid -> ZMod (2 ^ ellTo)}
    (isM1 : ∀ pid, ringVal ellTo (crng (s pid)).1 = m1 pid) :
    Yields (fun pid => ringConvProd01 ellTo pid crng (bitWord (x pid)).toUInt8
        (bitWord (x pid.NEXT)).toUInt8) s (fun pid => (crng (s pid)).2)
      fun byte => ∀ pid, ringVal ellTo (byte pid) =
        prod01Share (lifted ellTo x) m1 pid := by
  apply Yields.of_run fun pid byte =>
    ringVal ellTo byte = prod01Share (lifted ellTo x) m1 pid
  intro pid
  cases pid with
  | P0 =>
      refine ⟨_, rfl, ?_⟩
      simp only [ringVal_ringAdd8 ellLe, ringVal_ringMul8 ellLe,
        ringVal_toUInt8 ellLe, wordVal_bitWord, isM1, ShrRep3Pid.NEXT, prod01Share]
  | P1 => exact ⟨_, rfl, isM1 .P1⟩
  | P2 => exact ⟨_, rfl, isM1 .P2⟩

private theorem ringConvJd_val
    (ellLe : ellTo ≤ 8)
    (x : ShrRep3Pid -> Bool)
    {m1 : ShrRep3Pid -> ZMod (2 ^ ellTo)}
    {byte : ShrRep3Pid -> UInt8}
    (isProd01 : ∀ pid, ringVal ellTo (byte pid) =
      prod01Share (lifted ellTo x) m1 pid)
    (pid : ShrRep3Pid) :
    let Jd := ringConvJd ellTo pid (bitWord (x pid)).toUInt8
      (bitWord (x pid.NEXT)).toUInt8
      { thisShare := (byte pid).toUInt32
        nxtShare := (byte pid.NEXT).toUInt32 }
    wordVal ellTo Jd.thisShare = dShare (lifted ellTo x) m1 pid ∧
      wordVal ellTo Jd.nxtShare = dShare (lifted ellTo x) m1 pid.NEXT := by
  cases pid <;>
    simp [ringConvJd, ringVal_ringSub8 ellLe, ringVal_ringAdd8 ellLe,
      ringVal_toUInt8 ellLe, wordVal_bitWord, isProd01, dShare, ShrRep3Pid.NEXT, ringVal_zero]

private theorem ringConvProd2_yields
    (ellLe : ellTo ≤ 8)
    (x : ShrRep3Pid -> Bool)
    {m1 m2 : ShrRep3Pid -> ZMod (2 ^ ellTo)}
    (isM2 : ∀ pid, ringVal ellTo (crng (s pid)).1 = m2 pid)
    {Jd : ShrRep3Pid -> ShareScalar}
    (isJd : ∀ pid,
      wordVal ellTo (Jd pid).thisShare = dShare (lifted ellTo x) m1 pid ∧
      wordVal ellTo (Jd pid).nxtShare =
        dShare (lifted ellTo x) m1 pid.NEXT) :
    Yields (fun pid => ringConvProd2 ellTo pid crng (bitWord (x pid)).toUInt8
        (bitWord (x pid.NEXT)).toUInt8 (Jd pid)) s
      (fun pid => (crng (s pid)).2)
      fun byte => ∀ pid, ringVal ellTo (byte pid) =
        prod2Share (lifted ellTo x) m1 m2 pid := by
  apply Yields.of_run fun pid byte =>
    ringVal ellTo byte = prod2Share (lifted ellTo x) m1 m2 pid
  intro pid
  cases pid with
  | P0 => exact ⟨_, rfl, isM2 .P0⟩
  | P1 =>
      refine ⟨_, rfl, ?_⟩
      simp only [ringVal_ringAdd8 ellLe, ringVal_ringMul8 ellLe,
        ringVal_toUInt8 ellLe, wordVal_bitWord, isJd, isM2, ShrRep3Pid.NEXT,
        prod2Share]
  | P2 =>
      refine ⟨_, rfl, ?_⟩
      simp only [ringVal_ringAdd8 ellLe, ringVal_ringMul8 ellLe,
        ringVal_toUInt8 ellLe, wordVal_bitWord, isJd, isM2, ShrRep3Pid.NEXT,
        prod2Share]

private theorem ringConvJe_converted
    (ellLe : ellTo ≤ 8)
    (x : ShrRep3Pid -> Bool)
    {m1 m2 : ShrRep3Pid -> ZMod (2 ^ ellTo)}
    {Jd : ShrRep3Pid -> ShareScalar}
    (isJd : ∀ pid,
      wordVal ellTo (Jd pid).thisShare = dShare (lifted ellTo x) m1 pid ∧
      wordVal ellTo (Jd pid).nxtShare = dShare (lifted ellTo x) m1 pid.NEXT)
    {byte : ShrRep3Pid -> UInt8}
    (isProd2 : ∀ pid, ringVal ellTo (byte pid) =
      prod2Share (lifted ellTo x) m1 m2 pid) :
    Converted ellTo (eShare (lifted ellTo x) m1 m2) fun pid =>
      ringConvJe ellTo pid (bitWord (x pid)).toUInt8
        (bitWord (x pid.NEXT)).toUInt8 (Jd pid)
        { thisShare := (byte pid).toUInt32
          nxtShare := (byte pid.NEXT).toUInt32 } := by
  intro pid
  cases pid <;>
    refine ⟨stores_ringSub8 ellLe ?_, stores_ringSub8 ellLe ?_⟩ <;>
    simp only [ringVal_ringAdd8 ellLe, ringVal_toUInt8 ellLe,
      wordVal_toUInt32, wordVal_bitWord, isJd, isProd2,
      ShrRep3Pid.NEXT, eShare]

/-- The scalar protocol with masks `m1` and `m2`. -/
private theorem ringConv_yields
    {num : ShrRep3Pid -> ShareScalar}
    (ellLe : ellTo ≤ 8)
    (x : ShrRep3Pid -> Bool)
    (isNum : ∀ pid, num pid = ⟨bitWord (x pid), bitWord (x pid.NEXT)⟩)
    {m1 m2 : ShrRep3Pid -> ZMod (2 ^ ellTo)}
    (isM1 : ∀ pid, ringVal ellTo (crng (s pid)).1 = m1 pid)
    (isM2 : ∀ pid, ringVal ellTo (crng (crng (s pid)).2).1 = m2 pid) :
    Yields (fun pid => ringConv ellTo pid crng (num pid)) s
      (fun pid => (crng (crng (s pid)).2).2)
      (Converted ellTo (eShare (lifted ellTo x) m1 m2)) := by
  simp only [ringConv, isNum]
  refine (ringConvProd01_yields ellLe x isM1).bind fun byte1 isProd01 => ?_
  refine (Yields.lift (exchange_completes fun pid => (byte1 pid).toUInt32)
    _).bind ?_
  rintro _ rfl
  simp only [UInt8.toUInt8_toUInt32]
  have isJd := ringConvJd_val ellLe x isProd01
  refine (ringConvProd2_yields ellLe x isM2 isJd).bind fun byte2 isProd2 => ?_
  refine (Yields.lift (exchange_completes fun pid => (byte2 pid).toUInt32)
    _).bind ?_
  rintro _ rfl
  simp only [UInt8.toUInt8_toUInt32]
  exact ⟨_, Completes.pure _, ringConvJe_converted ellLe x isJd isProd2⟩

end

/-! ## The vector protocol -/

private theorem foldl_update
    (val : Rvector n -> Fin n -> UInt8)
    (own : ∀ vec vec' i, vec i = vec' i -> val vec i = val vec' i)
    (indices : List (Fin n))
    (distinct : indices.Nodup)
    (vec : Rvector n) :
    indices.foldl (fun vec i => Function.update vec i (val vec i)) vec =
      fun i => if i ∈ indices then val vec i else vec i := by
  induction indices generalizing vec with
  | nil => simp
  | cons k rest inductionHypothesis =>
      obtain ⟨fresh, distinct'⟩ := List.nodup_cons.mp distinct
      rw [List.foldl_cons, inductionHypothesis distinct']
      funext i
      by_cases now : i = k
      · subst now
        simp [fresh]
      · have kept : Function.update vec k (val vec k) i = vec i :=
          Function.update_of_ne now _ _
        simp only [List.mem_cons, now, false_or, kept, own _ vec i kept]

private theorem set_eq_ret
    (ellLe : ellTo ≤ 8)
    (vec : Rvector n)
    (i : Fin n)
    (canonical : Canonical ellTo val) :
    vec.set ellTo i val = .ret (Function.update vec i val) := by
  have accepted : ¬ ringMask8 ellTo < val := by
    rw [UInt8.lt_iff_toNat_lt, toNat_ringMask8 ellLe]
    unfold Canonical at canonical
    omega
  rw [Rvector.set, if_neg accepted]
  rfl

/-- A loop whose values come from the element itself sets every element. -/
private theorem setEach_eq_ret
    (ellLe : ellTo ≤ 8)
    {val : Rvector n -> Fin n -> UInt8}
    (own : ∀ vec vec' i, vec i = vec' i -> val vec i = val vec' i)
    (canonical : ∀ vec i, Canonical ellTo (val vec i))
    (vec : Rvector n) :
    vec.setEach ellTo val = .ret (val vec) := by
  have step : (fun (vec : Rvector n) i => vec.set ellTo i (val vec i)) =
      fun vec i => pure (Function.update vec i (val vec i)) := by
    funext vec i
    exact set_eq_ret ellLe vec i (canonical vec i)
  rw [Rvector.setEach, step, List.foldlM_pure,
    foldl_update val own _ (List.nodup_finRange n)]
  simp only [List.mem_finRange, if_true]
  rfl

private theorem foldl_shareVec
    (iVec : ShareVec n)
    (indices : List (Fin n))
    (oVec : ShareVec n) :
    indices.foldl (fun oVec i => ({
        thisShare := Function.update oVec.thisShare i (iVec.thisShare i)
        nxtShare := Function.update oVec.nxtShare i (iVec.nxtShare i) } :
          ShareVec n)) oVec = {
      thisShare := indices.foldl
        (fun vec i => Function.update vec i (iVec.thisShare i)) oVec.thisShare
      nxtShare := indices.foldl
        (fun vec i => Function.update vec i (iVec.nxtShare i))
          oVec.nxtShare } := by
  induction indices generalizing oVec with
  | nil => rfl
  | cons i rest inductionHypothesis =>
      simp only [List.foldl_cons, inductionHypothesis]

/-- The lifted bits take the place of what `oVec` held. -/
private theorem ringConvLift_eq_ret
    (ellLe : ellTo ≤ 8)
    (thisCanonical : ∀ i, Canonical ellTo (iVec.thisShare i))
    (nxtCanonical : ∀ i, Canonical ellTo (iVec.nxtShare i))
    (oVec : ShareVec n) :
    ringConvLift ellTo iVec oVec = .ret iVec := by
  have step : (fun (oVec : ShareVec n) (i : Fin n) => (do
      let thisShare ← oVec.thisShare.set ellTo i (iVec.thisShare i)
      let nxtShare ← oVec.nxtShare.set ellTo i (iVec.nxtShare i)
      return { thisShare := thisShare, nxtShare := nxtShare } :
        Proc aby3Net (ShareVec n))) = fun oVec i => pure {
      thisShare := Function.update oVec.thisShare i (iVec.thisShare i)
      nxtShare := Function.update oVec.nxtShare i (iVec.nxtShare i) } := by
    funext oVec i
    rw [set_eq_ret ellLe _ i (thisCanonical i), Proc.ret_bind,
      set_eq_ret ellLe _ i (nxtCanonical i), Proc.ret_bind]
  rw [ringConvLift, step, List.foldlM_pure, foldl_shareVec,
    foldl_update (fun _ => iVec.thisShare) (fun _ _ _ _ => rfl) _
      (List.nodup_finRange n),
    foldl_update (fun _ => iVec.nxtShare) (fun _ _ _ _ => rfl) _
      (List.nodup_finRange n)]
  simp only [List.mem_finRange, if_true]
  rfl

section

variable {S : Type} {crngVector : S -> Rvector n × S} {s : ShrRep3Pid -> S}

private theorem ringConvVecProd01_yields
    {iVec : ShrRep3Pid -> ShareVec n}
    (ellLe : ellTo ≤ 8)
    (x : Fin n -> ShrRep3Pid -> Bool)
    (isVec : ∀ pid i,
      (iVec pid).thisShare.val ellTo i = lifted ellTo (x i) pid ∧
      (iVec pid).nxtShare.val ellTo i = lifted ellTo (x i) pid.NEXT)
    {m1 : Fin n -> ShrRep3Pid -> ZMod (2 ^ ellTo)}
    (isM1 : ∀ pid i, (crngVector (s pid)).1.val ellTo i = m1 i pid) :
    Yields (fun pid => ringConvVecProd01 ellTo pid crngVector (iVec pid)) s
      (fun pid => (crngVector (s pid)).2)
      fun prod01 => ∀ pid, ∀ i, (prod01 pid).val ellTo i =
        prod01Share (lifted ellTo (x i)) (m1 i) pid := by
  apply Yields.of_run fun pid prod01 => ∀ i, Rvector.val ellTo prod01 i =
    prod01Share (lifted ellTo (x i)) (m1 i) pid
  intro pid
  cases pid <;>
    refine ⟨_, rfl, fun i => ?_⟩ <;>
    simp only [Rvector.val_add ellLe, Rvector.val_hadamard ellLe,
      Rvector.val_fill, Pi.add_apply, Pi.mul_apply, isVec, isM1, zero_add,
      ShrRep3Pid.NEXT, prod01Share]

private theorem ringConvVecJd_val
    {iVec : ShrRep3Pid -> ShareVec n}
    (ellLe : ellTo ≤ 8)
    (x : Fin n -> ShrRep3Pid -> Bool)
    (isVec : ∀ pid i,
      (iVec pid).thisShare.val ellTo i = lifted ellTo (x i) pid ∧
      (iVec pid).nxtShare.val ellTo i = lifted ellTo (x i) pid.NEXT)
    {m1 : Fin n -> ShrRep3Pid -> ZMod (2 ^ ellTo)}
    {prod01 : ShrRep3Pid -> Rvector n}
    (isProd01 : ∀ pid, ∀ i, (prod01 pid).val ellTo i =
      prod01Share (lifted ellTo (x i)) (m1 i) pid)
    (pid : ShrRep3Pid)
    (i : Fin n) :
    let Jd := ringConvVecJd ellTo pid (iVec pid)
      (Rvector.add ellTo (prod01 pid) (prod01 pid))
      (Rvector.add ellTo (prod01 pid.NEXT) (prod01 pid.NEXT))
    Jd.thisShare.val ellTo i = dShare (lifted ellTo (x i)) (m1 i) pid ∧
      Jd.nxtShare.val ellTo i =
        dShare (lifted ellTo (x i)) (m1 i) pid.NEXT := by
  cases pid <;>
    simp only [ringConvVecJd, Rvector.val_sub ellLe, Rvector.val_add ellLe,
      Rvector.val_fill, Pi.sub_apply, Pi.add_apply, isVec, isProd01,
      ShrRep3Pid.NEXT, dShare, and_self]

private theorem ringConvVecProd2_yields
    {iVec oVec : ShrRep3Pid -> ShareVec n}
    (ellLe : ellTo ≤ 8)
    (x : Fin n -> ShrRep3Pid -> Bool)
    (isVec : ∀ pid i,
      (iVec pid).thisShare.val ellTo i = lifted ellTo (x i) pid ∧
      (iVec pid).nxtShare.val ellTo i = lifted ellTo (x i) pid.NEXT)
    {m1 m2 : Fin n -> ShrRep3Pid -> ZMod (2 ^ ellTo)}
    (isM2 : ∀ pid i, (crngVector (s pid)).1.val ellTo i = m2 i pid)
    (isJd : ∀ pid i,
      (oVec pid).thisShare.val ellTo i =
        dShare (lifted ellTo (x i)) (m1 i) pid ∧
      (oVec pid).nxtShare.val ellTo i =
        dShare (lifted ellTo (x i)) (m1 i) pid.NEXT)
    (prod01 : ShrRep3Pid -> Rvector n) :
    Yields (fun pid => ringConvVecProd2 ellTo pid crngVector (iVec pid)
        (oVec pid) (prod01 pid)) s
      (fun pid => (crngVector (s pid)).2)
      fun prod2 => ∀ pid, ∀ i, (prod2 pid).val ellTo i =
        prod2Share (lifted ellTo (x i)) (m1 i) (m2 i) pid := by
  apply Yields.of_run fun pid prod2 => ∀ i, Rvector.val ellTo prod2 i =
    prod2Share (lifted ellTo (x i)) (m1 i) (m2 i) pid
  intro pid
  cases pid with
  | P0 =>
      refine ⟨_, rfl, fun i => ?_⟩
      simp only [Rvector.val_add ellLe, Rvector.val_fill, Pi.add_apply, isM2,
        zero_add, prod2Share]
  | P1 =>
      simp only [ringConvVecProd2]
      rw [setEach_eq_ret ellLe]
      · refine ⟨_, rfl, fun i => ?_⟩
        have thisVal := (isJd .P1 i).1
        have bitVal := (isVec .P1 i).2
        simp only [Rvector.val] at thisVal bitVal
        simp only [Rvector.val_add ellLe, Pi.add_apply, isM2, prod2Share]
        simp only [Rvector.val, ringVal_ringMul8 ellLe, thisVal, bitVal,
          ShrRep3Pid.NEXT]
      · exact fun _ _ _ _ => rfl
      · exact fun _ _ => canonical_ringMul8 ellLe _ _
  | P2 =>
      simp only [ringConvVecProd2]
      rw [setEach_eq_ret ellLe]
      · refine ⟨_, rfl, fun i => ?_⟩
        have thisVal := (isJd .P2 i).1
        have nxtVal := (isJd .P2 i).2
        have bitVal := (isVec .P2 i).1
        simp only [Rvector.val] at thisVal nxtVal bitVal
        simp only [Rvector.val_add ellLe, Pi.add_apply, isM2, prod2Share]
        simp only [Rvector.val, ringVal_ringMul8 ellLe,
          ringVal_ringAdd8 ellLe, thisVal, nxtVal, bitVal, ShrRep3Pid.NEXT]
      · exact fun _ _ _ _ => rfl
      · exact fun _ _ => canonical_ringMul8 ellLe _ _

private theorem stores_sub
    (ellLe : ell ≤ 8)
    (several : ell ≠ 1)
    {a b : Rvector n}
    (equal : a.val ell i - b.val ell i = value) :
    Stores ell (Rvector.sub ell a b i).toUInt32 value := by
  rw [Rvector.sub, if_neg several]
  exact stores_ringSub8 ellLe equal

private theorem ringConvVecJe_converted
    {iVec oVec : ShrRep3Pid -> ShareVec n}
    (ellLe : ellTo ≤ 8)
    (several : ellTo ≠ 1)
    (x : Fin n -> ShrRep3Pid -> Bool)
    (isVec : ∀ pid i,
      (iVec pid).thisShare.val ellTo i = lifted ellTo (x i) pid ∧
      (iVec pid).nxtShare.val ellTo i = lifted ellTo (x i) pid.NEXT)
    {m1 m2 : Fin n -> ShrRep3Pid -> ZMod (2 ^ ellTo)}
    (isJd : ∀ pid i,
      (oVec pid).thisShare.val ellTo i =
        dShare (lifted ellTo (x i)) (m1 i) pid ∧
      (oVec pid).nxtShare.val ellTo i =
        dShare (lifted ellTo (x i)) (m1 i) pid.NEXT)
    {prod2 : ShrRep3Pid -> Rvector n}
    (isProd2 : ∀ pid, ∀ i, (prod2 pid).val ellTo i =
      prod2Share (lifted ellTo (x i)) (m1 i) (m2 i) pid)
    (pid : ShrRep3Pid) :
    ∃ out, ringConvVecJe ellTo pid (iVec pid) (oVec pid)
        (Rvector.add ellTo (prod2 pid) (prod2 pid))
        (Rvector.add ellTo (prod2 pid.NEXT) (prod2 pid.NEXT)) = .ret out ∧
      ∀ i, Stores ellTo (out.at i).thisShare
          (eShare (lifted ellTo (x i)) (m1 i) (m2 i) pid) ∧
        Stores ellTo (out.at i).nxtShare
          (eShare (lifted ellTo (x i)) (m1 i) (m2 i) pid.NEXT) := by
  cases pid with
  | P0 =>
      refine ⟨_, rfl, fun i => ⟨stores_sub ellLe several ?_,
        stores_sub ellLe several ?_⟩⟩ <;>
      simp only [Rvector.val_add ellLe, Pi.add_apply, isJd, isProd2,
        ShrRep3Pid.NEXT, eShare]
  | P1 =>
      simp only [ringConvVecJe]
      rw [setEach_eq_ret ellLe]
      · refine ⟨_, rfl, fun i => ⟨stores_sub ellLe several ?_,
          stores_ringSub8 ellLe ?_⟩⟩
        · simp only [Rvector.val_add ellLe, Pi.add_apply, isJd, isProd2,
            eShare]
        · have nxtVal := (isJd .P1 i).2
          have bitVal := (isVec .P1 i).2
          have prodVal := isProd2 .P2 i
          simp only [Rvector.val] at nxtVal bitVal prodVal
          simp only [Rvector.add, ringVal_ringAdd8 ellLe, nxtVal, bitVal,
            prodVal, ShrRep3Pid.NEXT, eShare]
      · exact fun _ _ i same => by rw [same]
      · exact fun _ _ => canonical_ringSub8 ellLe _ _
  | P2 =>
      simp only [ringConvVecJe]
      rw [setEach_eq_ret ellLe]
      · refine ⟨_, rfl, fun i => ⟨stores_ringSub8 ellLe ?_,
          stores_sub ellLe several ?_⟩⟩
        · have thisVal := (isJd .P2 i).1
          have bitVal := (isVec .P2 i).1
          have prodVal := isProd2 .P2 i
          simp only [Rvector.val] at thisVal bitVal prodVal
          simp only [Rvector.add, ringVal_ringAdd8 ellLe, thisVal, bitVal,
            prodVal, eShare]
        · simp only [Rvector.val_add ellLe, Pi.add_apply, isJd, isProd2,
            ShrRep3Pid.NEXT, eShare]
      · exact fun _ _ i same => by rw [same]
      · exact fun _ _ => canonical_ringSub8 ellLe _ _

/-- The vector protocol with masks `m1` and `m2`, on vectors with elements. -/
private theorem ringConvVec_yields
    {iVec : ShrRep3Pid -> ShareVec n}
    (ellLe : ellTo ≤ 8)
    (several : ellTo ≠ 1)
    (nonempty : n ≠ 0)
    (x : Fin n -> ShrRep3Pid -> Bool)
    (isVec : ∀ pid i,
      (iVec pid).thisShare.val ellTo i = lifted ellTo (x i) pid ∧
      (iVec pid).nxtShare.val ellTo i = lifted ellTo (x i) pid.NEXT)
    (thisCanonical : ∀ pid i, Canonical ellTo ((iVec pid).thisShare i))
    (nxtCanonical : ∀ pid i, Canonical ellTo ((iVec pid).nxtShare i))
    (oVec : ShrRep3Pid -> ShareVec n)
    {m1 m2 : Fin n -> ShrRep3Pid -> ZMod (2 ^ ellTo)}
    (isM1 : ∀ pid i, (crngVector (s pid)).1.val ellTo i = m1 i pid)
    (isM2 : ∀ pid i,
      (crngVector (crngVector (s pid)).2).1.val ellTo i = m2 i pid) :
    Yields (fun pid => ringConvVec ellTo pid crngVector (iVec pid) (oVec pid))
      s (fun pid => (crngVector (crngVector (s pid)).2).2)
      fun out => ∀ i, Converted ellTo
        (eShare (lifted ellTo (x i)) (m1 i) (m2 i))
        fun pid => (out pid).at i := by
  have lifts : Completes (I := aby3Net)
      (fun pid => ringConvLift ellTo (iVec pid) (oVec pid)) iVec := by
    simp only [fun pid => ringConvLift_eq_ret ellLe (thisCanonical pid)
      (nxtCanonical pid) (oVec pid)]
    exact Completes.pure (I := aby3Net) iVec
  simp only [ringConvVec, if_neg nonempty]
  refine (Yields.lift lifts s).bind ?_
  rintro _ rfl
  refine (ringConvVecProd01_yields ellLe x isVec isM1).bind
    fun prod01 isProd01 => ?_
  refine (Yields.lift (reshare_ring_completes prod01) _).bind ?_
  rintro _ rfl
  have isJd := ringConvVecJd_val ellLe x isVec isProd01
  refine (ringConvVecProd2_yields ellLe x isVec isM2 isJd _).bind
    fun prod2 isProd2 => ?_
  refine (Yields.lift (reshare_ring_completes prod2) _).bind ?_
  rintro _ rfl
  have converted := ringConvVecJe_converted ellLe several x isVec isJd isProd2
  choose out isOut isConverted using converted
  have returns := Completes.pure (I := aby3Net) out
  simp only [Proc.pure_eq, ← isOut] at returns
  obtain ⟨out', completes, rfl⟩ := Yields.lift returns _
  exact ⟨out', completes, fun i pid => isConverted pid i⟩

end

/-! ## Conversion -/

/-- Shared bits, with each bit as the exclusive or of three. -/
private theorem BitsShared.cases
    {iVec : ShrRep3Pid -> ShareVec n}
    {b : Fin n -> Bool}
    (shared : BitsShared iVec b) :
    ∃ x : Fin n -> ShrRep3Pid -> Bool,
      (∀ i, b i = (x i .P0 ^^ x i .P1 ^^ x i .P2)) ∧
      ∀ i pid, (iVec pid).at i =
        ⟨bitWord (x i pid), bitWord (x i pid.NEXT)⟩ := by
  choose x isBit isShare using fun i => (shared.at i).cases
  exact ⟨x, isBit, isShare⟩

private theorem val_of_toUInt32_eq
    (equal : byte.toUInt32 = bitWord b)
    (ell : Nat) : ringVal ell byte = (b.toNat : ZMod (2 ^ ell)) := by
  rw [← wordVal_toUInt32, equal, wordVal_bitWord]

private theorem canonical_of_toUInt32_eq
    (equal : byte.toUInt32 = bitWord b)
    (ellPositive : 1 ≤ ell) : Canonical ell byte := by
  have two : 2 ^ 1 ≤ 2 ^ ell := Nat.pow_le_pow_right (by decide) ellPositive
  have small : (bitWord b).toNat < 2 := by
    cases b <;> decide
  rw [Canonical, ← UInt8.toNat_toUInt32, equal]
  omega

private theorem sum3_eShare_lifted
    {m1 m2 : ShrRep3Pid -> ZMod (2 ^ ell)}
    (isBit : b = (x .P0 ^^ x .P1 ^^ x .P2))
    (cancel1 : sum3 m1 = 0)
    (cancel2 : sum3 m2 = 0) :
    sum3 (eShare (lifted ell x) m1 m2) = (b.toNat : ZMod (2 ^ ell)) := by
  rw [sum3_eShare _ _ _ cancel1 cancel2, isBit, cast_xor]

/-- An element of vectors of masks that cancel. -/
private theorem Converted.holds_element
    {m1 m2 : ShrRep3Pid -> Rvector n}
    (isBit : b = (x .P0 ^^ x .P1 ^^ x .P2))
    (cancel1 : (sum3 fun pid => (m1 pid).val ell) = 0)
    (cancel2 : (sum3 fun pid => (m2 pid).val ell) = 0)
    {i : Fin n}
    (converted : Converted ell (eShare (lifted ell x)
      (fun pid => (m1 pid).val ell i) fun pid => (m2 pid).val ell i) res) :
    ScalarHolds ell res b.toNat := by
  have cancelled1 : (sum3 fun pid => (m1 pid).val ell i) = 0 :=
    congrFun cancel1 i
  have cancelled2 : (sum3 fun pid => (m2 pid).val ell i) = 0 :=
    congrFun cancel2 i
  rw [← sum3_eShare_lifted isBit cancelled1 cancelled2]
  exact converted.holds

/-- The vector protocol on shared bits, one element at a time. -/
private theorem ringConvVec_runs
    {S : Type}
    (ellFrom : 2 ≤ ellTo)
    (ellLe : ellTo ≤ 6)
    (crngVector : S -> Rvector n × S)
    {iVec : ShrRep3Pid -> ShareVec n}
    (nonempty : n ≠ 0)
    (x : Fin n -> ShrRep3Pid -> Bool)
    (isShare : ∀ i pid, (iVec pid).at i =
      ⟨bitWord (x i pid), bitWord (x i pid.NEXT)⟩)
    (oVec : ShrRep3Pid -> ShareVec n)
    (s : ShrRep3Pid -> S) :
    Yields (fun pid => ringConvVec ellTo pid crngVector (iVec pid) (oVec pid))
      s (fun pid => (crngVector (crngVector (s pid)).2).2)
      fun out => ∀ i, Converted ellTo
        (eShare (lifted ellTo (x i))
          (fun pid => (crngVector (s pid)).1.val ellTo i)
          (fun pid => (crngVector (crngVector (s pid)).2).1.val ellTo i))
        fun pid => (out pid).at i := by
  have thisWord : ∀ pid i, ((iVec pid).thisShare i).toUInt32 =
      bitWord (x i pid) := fun pid i =>
    congrArg ShareScalar.thisShare (isShare i pid)
  have nxtWord : ∀ pid i, ((iVec pid).nxtShare i).toUInt32 =
      bitWord (x i pid.NEXT) := fun pid i =>
    congrArg ShareScalar.nxtShare (isShare i pid)
  exact ringConvVec_yields (by omega) (by omega) nonempty x
    (fun pid i => ⟨val_of_toUInt32_eq (thisWord pid i) ellTo,
      val_of_toUInt32_eq (nxtWord pid i) ellTo⟩)
    (fun pid i => canonical_of_toUInt32_eq (thisWord pid i) (by omega))
    (fun pid i => canonical_of_toUInt32_eq (nxtWord pid i) (by omega))
    oVec (fun _ _ => rfl) (fun _ _ => rfl)

private theorem vectorHolds_of_at
    {out : ShrRep3Pid -> ShareVec n}
    (holds : ∀ i, ScalarHolds ell (fun pid => (out pid).at i) (value i)) :
    VectorHolds ell out value where
  replicated pid := funext fun i =>
    UInt8.toUInt32_inj.mp ((holds i).replicated pid)
  total := funext fun i => by
    have total := (holds i).total
    simp only [ShareVec.at, wordVal_toUInt32] at total
    exact total

private theorem vectorHolds_empty
    (out : ShrRep3Pid -> ShareVec 0)
    (value : Fin 0 -> ZMod (2 ^ ell)) : VectorHolds ell out value :=
  vectorHolds_of_at fun i => i.elim0

/-- When the masks of each of the two rounds cancel, `ringConv` completes at
the three parties with a replicated share of the same bits over the target
ring.  Element by element the vector protocol gives what the scalar one gives
with the same masks. -/
theorem ringConv_correct
    {S S' : Type}
    (ellFrom : 2 ≤ ellTo)
    (ellLe : ellTo ≤ 6)
    (crngVector : S -> Rvector n × S)
    (crng : S' -> UInt8 × S')
    {iVec : ShrRep3Pid -> ShareVec n}
    {b : Fin n -> Bool}
    (shared : BitsShared iVec b)
    (oVec : ShrRep3Pid -> ShareVec n)
    (s : ShrRep3Pid -> S)
    (cancel1 : (sum3 fun pid => (crngVector (s pid)).1.val ellTo) = 0)
    (cancel2 : (sum3 fun pid =>
      (crngVector (crngVector (s pid)).2).1.val ellTo) = 0)
    (t : Fin n -> ShrRep3Pid -> S')
    (same1 : ∀ i pid, (crng (t i pid)).1 = (crngVector (s pid)).1 i)
    (same2 : ∀ i pid, (crng (crng (t i pid)).2).1 =
      (crngVector (crngVector (s pid)).2).1 i) :
    ∃ (out : ShrRep3Pid -> ShareVec n) (s' : ShrRep3Pid -> S),
      Completes
        (fun pid => (ringConvVec ellTo pid crngVector (iVec pid)
          (oVec pid)).run (s pid))
        (fun pid => (out pid, s' pid)) ∧
      VectorHolds ellTo out (fun i => (b i).toNat) ∧
      ∀ i, ∃ (res : ShrRep3Pid -> ShareScalar) (t' : ShrRep3Pid -> S'),
        Completes
          (fun pid => (ringConv ellTo pid crng ((iVec pid).at i)).run
            (t i pid))
          (fun pid => (res pid, t' pid)) ∧
        ScalarHolds ellTo res (b i).toNat ∧
        ∀ pid, res pid = (out pid).at i := by
  by_cases empty : n = 0
  · subst empty
    exact ⟨oVec, s, Completes.pure _, vectorHolds_empty _ _, fun i => i.elim0⟩
  obtain ⟨x, isBit, isShare⟩ := shared.cases
  obtain ⟨out, completes, converted⟩ := ringConvVec_runs ellFrom ellLe
    crngVector empty x isShare oVec s
  have holds : ∀ i, ScalarHolds ellTo (fun pid => (out pid).at i)
      (b i).toNat := fun i =>
    (converted i).holds_element (isBit i) cancel1 cancel2
  refine ⟨out, _, completes, vectorHolds_of_at holds, fun i => ?_⟩
  obtain ⟨res, completes', converted'⟩ := ringConv_yields (by omega) (x i)
    (isShare i) (fun pid => congrArg (ringVal ellTo) (same1 i pid))
    (fun pid => congrArg (ringVal ellTo) (same2 i pid))
  have equal := converted'.unique (converted i)
  subst equal
  exact ⟨_, _, completes', holds i, fun pid => rfl⟩

/-- A supply of masks. -/
def supply (default : Mask) : List Mask -> Mask × List Mask
  | [] => (default, [])
  | mask :: rest => (mask, rest)

/-- Three bits. -/
def sampleBits : Fin 3 -> Bool := ![true, false, true]

/-- Their shares. -/
def sampleShare : ShrRep3Pid -> Rvector 3
  | .P0 => ![1, 1, 0]
  | .P1 => ![0, 1, 1]
  | .P2 => ![0, 0, 0]

/-- Masks for two rounds, which cancel modulo 8. -/
def sampleMask (pid : ShrRep3Pid) : List (Rvector 3) :=
  match pid with
  | .P0 => [![1, 2, 3], ![5, 0, 1]]
  | .P1 => [![3, 3, 3], ![1, 1, 1]]
  | .P2 => [![4, 3, 2], ![2, 7, 6]]

/-- Three bits, converted to the ring of eight elements as a vector and one by
one with the same masks. -/
theorem ringConv_correct_three :
    ∃ (out : ShrRep3Pid -> ShareVec 3) (s' : ShrRep3Pid -> List (Rvector 3)),
      Completes
        (fun (pid : ShrRep3Pid) => (ringConvVec 3 pid (supply fun _ => 0)
          ⟨sampleShare pid, sampleShare pid.NEXT⟩
          ⟨fun _ => 0, fun _ => 0⟩).run (sampleMask pid))
        (fun pid => (out pid, s' pid)) ∧
      VectorHolds 3 out (fun i => (sampleBits i).toNat) ∧
      ∀ i, ∃ (res : ShrRep3Pid -> ShareScalar)
          (t' : ShrRep3Pid -> List UInt8),
        Completes
          (fun (pid : ShrRep3Pid) => (ringConv 3 pid (supply 0)
            (ShareVec.at ⟨sampleShare pid, sampleShare pid.NEXT⟩ i)).run
              ((sampleMask pid).map fun mask => mask i))
          (fun pid => (res pid, t' pid)) ∧
        ScalarHolds 3 res (sampleBits i).toNat ∧
        ∀ pid, res pid = (out pid).at i := by
  have shared : BitsShared
      (fun pid => (⟨sampleShare pid, sampleShare pid.NEXT⟩ : ShareVec 3))
      sampleBits :=
    ⟨⟨fun pid => by cases pid <;> rfl, by decide⟩, by decide⟩
  exact ringConv_correct (by decide : 2 ≤ 3) (by decide : 3 ≤ 6)
    (supply fun _ => 0) (supply 0) shared (fun _ => ⟨fun _ => 0, fun _ => 0⟩)
    sampleMask (by decide) (by decide)
    (fun i pid => (sampleMask pid).map fun mask => mask i)
    (fun i pid => by cases pid <;> rfl) (fun i pid => by cases pid <;> rfl)

/-! ## With the masks of `crng` -/

section

variable {ccrh : Block -> Block -> Block} {s : ShrRep3Pid -> CrngState}

/-- Synchronised parties draw masks that cancel, in both rounds. -/
theorem ringConv_computes
    (ellFrom : 2 ≤ ellTo)
    (ellLe : ellTo ≤ 6)
    (sync : Synchronised s)
    (shared : BitShared num b) :
    Computes (fun pid => ringConv ellTo pid (Rep3.crng ccrh ellTo) (num pid))
      s fun out => ScalarHolds ellTo out b.toNat := by
  obtain ⟨x, isBit, isShare⟩ := shared.cases
  obtain ⟨cancel1, sync1⟩ := sync.crng ccrh (by omega : ellTo ≤ 8)
  obtain ⟨cancel2, sync2⟩ := sync1.crng ccrh (by omega : ellTo ≤ 8)
  obtain ⟨out, completes, converted⟩ := ringConv_yields
    (by omega : ellTo ≤ 8) x isShare (fun _ => rfl) (fun _ => rfl)
  refine ⟨out, _, completes, sync2, ?_⟩
  rw [← sum3_eShare_lifted isBit cancel1 cancel2]
  exact converted.holds

theorem ringConvVec_computes
    (ellFrom : 2 ≤ ellTo)
    (ellLe : ellTo ≤ 6)
    (sync : Synchronised s)
    {iVec : ShrRep3Pid -> ShareVec n}
    {b : Fin n -> Bool}
    (shared : BitsShared iVec b)
    (oVec : ShrRep3Pid -> ShareVec n) :
    Computes (fun pid => ringConvVec ellTo pid
        (Rep3.crngVector ccrh ellTo n) (iVec pid) (oVec pid)) s
      fun out => VectorHolds ellTo out fun i => (b i).toNat := by
  by_cases empty : n = 0
  · subst empty
    exact Computes.pure sync oVec (vectorHolds_empty _ _)
  obtain ⟨x, isBit, isShare⟩ := shared.cases
  obtain ⟨cancel1, sync1⟩ := sync.crngVector ccrh (by omega : ellTo ≤ 8) n
  obtain ⟨cancel2, sync2⟩ := sync1.crngVector ccrh (by omega : ellTo ≤ 8) n
  obtain ⟨out, completes, converted⟩ := ringConvVec_runs ellFrom ellLe
    (Rep3.crngVector ccrh ellTo n) empty x isShare oVec s
  exact ⟨out, _, completes, sync2, vectorHolds_of_at fun i =>
    (converted i).holds_element (isBit i) cancel1 cancel2⟩

end

end Rep3
end Mpmt
