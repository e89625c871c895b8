import Mpmt.Rep3.Aby3

/-!
# Replicated sharing computes the plaintext

Every protocol of three synchronised parties completes, leaves them
synchronised, and turns replicated shares of its inputs into a replicated
share of its result.  A straight-line program is a sequence of these steps,
so under every schedule its registers follow the run on plain ring elements.
-/

namespace Mpmt
namespace Rep3

open RingMath Network
open Dpf (Block Bytes16 blockBytes bytesBlock bytesBlock_blockBytes)

section

variable {ccrh : Block -> Block -> Block} {ell : Nat}
variable {s : ShrRep3Pid -> CrngState}

/-! ## Joint execution -/

/-- Run by all three parties from the states `s`, the protocols complete with
results that satisfy `good`, and the parties are synchronised afterwards. -/
def Computes
    (procs : ShrRep3Pid -> Aby3M Out)
    (s : ShrRep3Pid -> CrngState)
    (good : (ShrRep3Pid -> Out) -> Prop) : Prop :=
  ∃ out s', Completes (fun pid => (procs pid).run (s pid))
      (fun pid => (out pid, s' pid)) ∧
    Synchronised s' ∧ good out

theorem Computes.pure
    {good : (ShrRep3Pid -> Out) -> Prop}
    (sync : Synchronised s)
    (out : ShrRep3Pid -> Out)
    (isGood : good out) :
    Computes (fun pid => Pure.pure (out pid)) s good :=
  ⟨out, s, Completes.pure _, sync, isGood⟩

theorem Computes.bind
    {procs : ShrRep3Pid -> Aby3M Out}
    {next : ShrRep3Pid -> Out -> Aby3M Out'}
    {good : (ShrRep3Pid -> Out) -> Prop}
    {good' : (ShrRep3Pid -> Out') -> Prop}
    (first : Computes procs s good)
    (second : ∀ out s', Synchronised s' -> good out ->
      Computes (fun pid => next pid (out pid)) s' good') :
    Computes (fun pid => procs pid >>= next pid) s good' := by
  obtain ⟨out, s', completes, sync, isGood⟩ := first
  obtain ⟨out', s'', completes', sync', isGood'⟩ := second out s' sync isGood
  refine ⟨out', s'', ?_, sync', isGood'⟩
  simp only [StateT.run_bind]
  exact completes.bind completes'

theorem Computes.mono
    {procs : ShrRep3Pid -> Aby3M Out}
    {good good' : (ShrRep3Pid -> Out) -> Prop}
    (computes : Computes procs s good)
    (weaker : ∀ out, good out -> good' out) : Computes procs s good' := by
  obtain ⟨out, s', completes, sync, isGood⟩ := computes
  exact ⟨out, s', completes, sync, weaker out isGood⟩

/-- A protocol that does not draw randomness. -/
theorem Computes.lift
    {procs : ShrRep3Pid -> Proc aby3Net Out}
    {out : ShrRep3Pid -> Out}
    {good : (ShrRep3Pid -> Out) -> Prop}
    (sync : Synchronised s)
    (completes : Completes (I := aby3Net) procs out)
    (isGood : good out) :
    Computes (fun pid => (procs pid : Aby3M Out)) s good := by
  refine ⟨out, s, ?_, sync, isGood⟩
  exact completes.bind
    (Completes.pure (I := aby3Net) fun pid => (out pid, s pid))

theorem Computes.crng
    (sync : Synchronised s)
    (ellLe : ell ≤ 8) :
    Computes (fun _ => modifyGet (crng ccrh ell)) s fun mask =>
      (sum3 fun pid => ringVal ell (mask pid)) = 0 := by
  obtain ⟨cancel, sync'⟩ := sync.crng ccrh ellLe
  refine ⟨fun pid => (Rep3.crng ccrh ell (s pid)).1,
    fun pid => (Rep3.crng ccrh ell (s pid)).2, ?_, sync', cancel⟩
  exact Completes.pure (I := aby3Net) fun pid => Rep3.crng ccrh ell (s pid)

theorem Computes.crngVector
    (sync : Synchronised s)
    (ellLe : ell ≤ 8)
    (n : Nat) :
    Computes (fun _ => modifyGet (crngVector ccrh ell n)) s fun mask =>
      (sum3 fun pid => (mask pid).val ell) = 0 := by
  obtain ⟨cancel, sync'⟩ := sync.crngVector ccrh ellLe n
  refine ⟨fun pid => (Rep3.crngVector ccrh ell n (s pid)).1,
    fun pid => (Rep3.crngVector ccrh ell n (s pid)).2, ?_, sync', cancel⟩
  exact Completes.pure (I := aby3Net) fun pid =>
    Rep3.crngVector ccrh ell n (s pid)

/-! ## Exchanges -/

theorem exchange_completes (thisShare : ShrRep3Pid -> UInt32) :
    Completes (fun pid => exchange pid (thisShare pid)) fun pid =>
      { thisShare := thisShare pid
        nxtShare := (thisShare pid.NEXT).toUInt8.toUInt32 } := by
  have rotated := completes_exchange (I := aby3Net) ShrRep3Pid.PREV
    ShrRep3Pid.NEXT (fun pid => [(thisShare pid).toUInt8]) (fun _ => 1)
    ShrRep3Pid.NEXT_PREV ShrRep3Pid.PREV_NEXT (fun _ => rfl)
  exact rotated.bind (Completes.pure _)

theorem reshare_ring_completes (sendBuf : ShrRep3Pid -> Rvector n) :
    Completes (I := aby3Net) (fun pid => reshare_ring pid (sendBuf pid))
      fun pid => sendBuf pid.NEXT := by
  have rotated := completes_exchange (I := aby3Net) ShrRep3Pid.PREV
    ShrRep3Pid.NEXT (fun pid => (sendBuf pid).data) (fun _ => n)
    ShrRep3Pid.NEXT_PREV ShrRep3Pid.PREV_NEXT
    (fun pid => Rvector.length_data (sendBuf pid.NEXT))
  have stored : (fun pid => sendBuf (ShrRep3Pid.NEXT pid)) =
      fun pid => Rvector.ofData n (sendBuf pid.NEXT).data := by
    simp only [Rvector.ofData_data]
  rw [stored]
  exact rotated.bind (Completes.pure _)

/-- The re-sharing of a vector is one exchange. -/
theorem reshareVec_run (pid : ShrRep3Pid) (vec : Rvector n) (s : CrngState) :
    (reshareVec pid vec).run s = (do
      send (I := aby3Net) pid.PREV vec.data
      recv (I := aby3Net) pid.NEXT n) >>= fun bytes =>
        pure ({ thisShare := vec, nxtShare := Rvector.ofData n bytes }, s) :=
  rfl

/-- What a party keeps of a scalar product. -/
def dotShare
    (ccrh : Block -> Block -> Block)
    (ell : Nat)
    (iVec1 iVec2 : ShareVec n)
    (s : CrngState) : UInt8 :=
  ringAdd8 ell
    (ringAdd8 ell
      (ringAdd8 ell (Rvector.dot ell iVec1.thisShare iVec2.thisShare)
        (Rvector.dot ell iVec1.thisShare iVec2.nxtShare))
      (Rvector.dot ell iVec1.nxtShare iVec2.thisShare))
    (crng ccrh ell s).1

/-- So is a scalar product. -/
theorem dot_run
    (pid : ShrRep3Pid)
    (iVec1 iVec2 : ShareVec n)
    (s : CrngState) :
    (dot ccrh ell pid iVec1 iVec2).run s = (do
      send (I := aby3Net) pid.PREV
        [(dotShare ccrh ell iVec1 iVec2 s).toUInt32.toUInt8]
      recv (I := aby3Net) pid.NEXT 1) >>= fun bytes =>
        pure ({
          thisShare := (dotShare ccrh ell iVec1 iVec2 s).toUInt32
          nxtShare := (bytes.getD 0 0).toUInt32 }, (crng ccrh ell s).2) :=
  rfl

/-- Exchanging additive shares makes them replicated. -/
theorem Computes.exchange
    (ell : Nat)
    {value : ZMod (2 ^ ell)}
    (sync : Synchronised s)
    {thisShare : ShrRep3Pid -> UInt8}
    (total : (sum3 fun pid => ringVal ell (thisShare pid)) = value) :
    Computes (fun pid => (exchange pid (thisShare pid).toUInt32 :
      Aby3M ShareScalar)) s fun out => ScalarHolds ell out value := by
  refine Computes.lift sync
    (exchange_completes fun pid => (thisShare pid).toUInt32) ?_
  exact {
    replicated := fun pid => by simp
    total := by simpa using total }

/-- A local value, masked and exchanged, becomes a share of the sum of the
local values. -/
theorem Computes.maskedExchange
    (ccrh : Block -> Block -> Block)
    (sync : Synchronised s)
    (ellLe : ell ≤ 8)
    (combine : ShrRep3Pid -> UInt8 -> UInt8)
    (local' : ShrRep3Pid -> ZMod (2 ^ ell))
    (combined : ∀ pid mask, ringVal ell (combine pid mask) =
      local' pid + ringVal ell mask) :
    Computes
      (fun pid => do
        let mask ← modifyGet (Rep3.crng ccrh ell)
        (Rep3.exchange pid (combine pid mask).toUInt32 : Aby3M ShareScalar))
      s fun out => ScalarHolds ell out (sum3 local') := by
  refine (Computes.crng sync ellLe).bind ?_
  intro mask s' sync' cancel
  refine (Computes.exchange ell sync' rfl).mono ?_
  intro out holds
  simp only [combined] at holds
  rwa [sum3_add, cancel, add_zero] at holds

/-- Exchanging additive shares of a vector makes them replicated. -/
theorem Computes.reshare_ring
    (sync : Synchronised s)
    (thisShare : ShrRep3Pid -> Rvector n)
    (total : (sum3 fun pid => (thisShare pid).val ell) = value) :
    Computes
      (fun pid => do
        let nxtShare ← Rep3.reshare_ring pid (thisShare pid)
        (Pure.pure { thisShare := thisShare pid, nxtShare := nxtShare } :
          Aby3M (ShareVec n)))
      s fun out => VectorHolds ell out value := by
  have received : Computes
      (fun pid => (Rep3.reshare_ring pid (thisShare pid) : Aby3M _)) s
      fun nxtShare => ∀ pid, nxtShare pid = thisShare pid.NEXT :=
    Computes.lift sync (reshare_ring_completes thisShare) fun _ => rfl
  refine received.bind ?_
  intro nxtShare s' sync' replicated
  apply Computes.pure sync'
  exact { replicated := replicated, total := total }

/-- The same for a vector. -/
theorem Computes.maskedReshare
    (ccrh : Block -> Block -> Block)
    (sync : Synchronised s)
    (ellLe : ell ≤ 8)
    (combine : ShrRep3Pid -> Rvector n -> Rvector n)
    (local' : ShrRep3Pid -> Fin n -> ZMod (2 ^ ell))
    (combined : ∀ pid mask, (combine pid mask).val ell =
      local' pid + mask.val ell) :
    Computes
      (fun pid => do
        let mask ← modifyGet (Rep3.crngVector ccrh ell n)
        let nxtShare ← Rep3.reshare_ring pid (combine pid mask)
        (Pure.pure { thisShare := combine pid mask, nxtShare := nxtShare } :
          Aby3M (ShareVec n)))
      s fun out => VectorHolds ell out (sum3 local') := by
  refine (Computes.crngVector sync ellLe n).bind ?_
  intro mask s' sync' cancel
  apply Computes.reshare_ring sync' fun pid => combine pid (mask pid)
  simp only [combined]
  rw [sum3_add, cancel, add_zero]

/-! ## Protocols -/

private theorem sum3_dealer [AddCommMonoid M]
    (dealer : ShrRep3Pid)
    (value : M) :
    (sum3 fun pid => if pid = dealer then value else 0) = value := by
  cases dealer <;> simp [sum3]

/-- One party shares a value and the others take part. -/
theorem share_computes
    (sync : Synchronised s)
    (ellLe : ell ≤ 8)
    (dealer : ShrRep3Pid)
    (num : UInt8) :
    Computes (fun pid => shareFrom ccrh ell pid dealer num) s fun out =>
      ScalarHolds ell out (ringVal ell num) := by
  have masked := Computes.maskedExchange ccrh sync ellLe
    (fun pid mask => if pid = dealer then ringAdd8 ell num mask else mask)
    (fun pid => if pid = dealer then ringVal ell num else 0)
    (by
      intro pid mask
      split
      · exact ringVal_ringAdd8 ellLe num mask
      · rw [zero_add])
  rw [sum3_dealer] at masked
  convert masked using 2 with pid
  unfold shareFrom
  split <;> rfl

theorem reshare_computes
    (ell : Nat)
    (sync : Synchronised s)
    (val : ShrRep3Pid -> UInt8) :
    Computes (fun pid => reshare pid (val pid)) s fun out =>
      ScalarHolds ell out (sum3 fun pid => ringVal ell (val pid)) :=
  Computes.exchange ell sync rfl

theorem ScalarHolds.add
    (ellLe : ell ≤ 8)
    (holds1 : ScalarHolds ell num1 value1)
    (holds2 : ScalarHolds ell num2 value2) :
    ScalarHolds ell (fun pid => Rep3.add ell (num1 pid) (num2 pid))
      (value1 + value2) where
  replicated pid := by
    simp only [Rep3.add, holds1.replicated, holds2.replicated]
  total := by
    simp only [Rep3.add, wordVal_toUInt32, ringVal_ringAdd8 ellLe,
      ringVal_toUInt8 ellLe]
    rw [sum3_add, holds1.total, holds2.total]

theorem ScalarHolds.sub
    (ellLe : ell ≤ 8)
    (holds1 : ScalarHolds ell num1 value1)
    (holds2 : ScalarHolds ell num2 value2) :
    ScalarHolds ell (fun pid => Rep3.sub ell (num1 pid) (num2 pid))
      (value1 - value2) where
  replicated pid := by
    simp only [Rep3.sub, holds1.replicated, holds2.replicated]
  total := by
    simp only [Rep3.sub, wordVal_toUInt32, ringVal_ringSub8 ellLe,
      ringVal_toUInt8 ellLe]
    rw [sum3_sub, holds1.total, holds2.total]

theorem mul_computes
    (sync : Synchronised s)
    (ellLe : ell ≤ 8)
    (holds1 : ScalarHolds ell num1 value1)
    (holds2 : ScalarHolds ell num2 value2) :
    Computes (fun pid => mul ccrh ell pid (num1 pid) (num2 pid)) s
      fun out => ScalarHolds ell out (value1 * value2) := by
  rw [← holds1.total, ← holds2.total, ← sum3_cross]
  refine Computes.maskedExchange ccrh sync ellLe _ _ ?_
  intro pid mask
  simp only [ringVal_ringAdd8 ellLe, ringVal_ringMul8 ellLe,
    ringVal_toUInt8 ellLe, holds1.replicated, holds2.replicated]

theorem shareVec_computes
    (sync : Synchronised s)
    (ellLe : ell ≤ 8)
    (dealer : ShrRep3Pid)
    (vec : Rvector n) :
    Computes (fun pid => shareVecFrom ccrh ell pid dealer vec) s fun out =>
      VectorHolds ell out (vec.val ell) := by
  have masked := Computes.maskedReshare ccrh sync ellLe
    (fun pid mask => if pid = dealer then Rvector.add ell vec mask else mask)
    (fun pid => if pid = dealer then vec.val ell else 0)
    (by
      intro pid mask
      split
      · exact Rvector.val_add ellLe vec mask
      · rw [zero_add])
  rw [sum3_dealer] at masked
  convert masked using 2 with pid
  unfold shareVecFrom
  split <;> rfl

theorem reshareVec_computes
    (ell : Nat)
    (sync : Synchronised s)
    (vec : ShrRep3Pid -> Rvector n) :
    Computes (fun pid => reshareVec pid (vec pid)) s fun out =>
      VectorHolds ell out (sum3 fun pid => (vec pid).val ell) :=
  Computes.reshare_ring sync vec rfl

theorem VectorHolds.add
    {iVec1 iVec2 : ShrRep3Pid -> ShareVec n}
    (ellLe : ell ≤ 8)
    (holds1 : VectorHolds ell iVec1 value1)
    (holds2 : VectorHolds ell iVec2 value2) :
    VectorHolds ell (fun pid => addVec ell (iVec1 pid) (iVec2 pid))
      (value1 + value2) where
  replicated pid := by
    simp only [addVec, holds1.replicated, holds2.replicated]
  total := by
    simp only [addVec, Rvector.val_add ellLe]
    rw [sum3_add, holds1.total, holds2.total]

theorem VectorHolds.sub
    {iVec1 iVec2 : ShrRep3Pid -> ShareVec n}
    (ellLe : ell ≤ 8)
    (holds1 : VectorHolds ell iVec1 value1)
    (holds2 : VectorHolds ell iVec2 value2) :
    VectorHolds ell (fun pid => subVec ell (iVec1 pid) (iVec2 pid))
      (value1 - value2) where
  replicated pid := by
    simp only [subVec, holds1.replicated, holds2.replicated]
  total := by
    simp only [subVec, Rvector.val_sub ellLe]
    rw [sum3_sub, holds1.total, holds2.total]

theorem hadamard_computes
    {iVec1 iVec2 : ShrRep3Pid -> ShareVec n}
    (sync : Synchronised s)
    (ellLe : ell ≤ 8)
    (holds1 : VectorHolds ell iVec1 value1)
    (holds2 : VectorHolds ell iVec2 value2) :
    Computes (fun pid => hadamard ccrh ell pid (iVec1 pid) (iVec2 pid)) s
      fun out => VectorHolds ell out (value1 * value2) := by
  rw [← holds1.total, ← holds2.total, ← sum3_cross]
  apply Computes.maskedReshare ccrh sync ellLe
  intro pid mask
  simp only [Rvector.val_add ellLe, Rvector.val_hadamard ellLe,
    holds1.replicated, holds2.replicated]

/-- What a party adds up locally in a scalar product: its own products and the
cross terms with the next party. -/
private def dotTerms
    (ell : Nat)
    (iVec1 iVec2 : ShrRep3Pid -> ShareVec n)
    (pid : ShrRep3Pid) : ZMod (2 ^ ell) :=
  (∑ i, (iVec1 pid).thisShare.val ell i * (iVec2 pid).thisShare.val ell i) +
    (∑ i, (iVec1 pid).thisShare.val ell i *
      (iVec2 pid.NEXT).thisShare.val ell i) +
    ∑ i, (iVec1 pid.NEXT).thisShare.val ell i *
      (iVec2 pid).thisShare.val ell i

private theorem sum3_dotTerms
    {iVec1 iVec2 : ShrRep3Pid -> ShareVec n}
    (holds1 : VectorHolds ell iVec1 value1)
    (holds2 : VectorHolds ell iVec2 value2) :
    sum3 (dotTerms ell iVec1 iVec2) = ∑ i, value1 i * value2 i := by
  have elements := fun i => sum3_cross
    (fun pid => (iVec1 pid).thisShare.val ell i)
    (fun pid => (iVec2 pid).thisShare.val ell i)
  rw [← holds1.total, ← holds2.total]
  simp only [sum3, dotTerms, ← Finset.sum_add_distrib] at elements ⊢
  exact Finset.sum_congr rfl fun i _ => elements i

theorem dot_computes
    {iVec1 iVec2 : ShrRep3Pid -> ShareVec n}
    (sync : Synchronised s)
    (ellLe : ell ≤ 8)
    (holds1 : VectorHolds ell iVec1 value1)
    (holds2 : VectorHolds ell iVec2 value2) :
    Computes (fun pid => dot ccrh ell pid (iVec1 pid) (iVec2 pid)) s
      fun out => ScalarHolds ell out (∑ i, value1 i * value2 i) := by
  rw [← sum3_dotTerms holds1 holds2]
  refine Computes.maskedExchange ccrh sync ellLe _
    (dotTerms ell iVec1 iVec2) ?_
  intro pid mask
  simp only [dotTerms, ringVal_ringAdd8 ellLe, Rvector.ringVal_dot ellLe,
    holds1.replicated, holds2.replicated]

/-- What the parties hold after a scalar product, whatever they had. -/
def dotShares
    (ccrh : Block -> Block -> Block)
    (ell : Nat)
    (iVec1 iVec2 : ShrRep3Pid -> ShareVec n)
    (s : ShrRep3Pid -> CrngState)
    (pid : ShrRep3Pid) : ShareScalar where
  thisShare := (dotShare ccrh ell (iVec1 pid) (iVec2 pid) (s pid)).toUInt32
  nxtShare := (dotShare ccrh ell (iVec1 pid.NEXT) (iVec2 pid.NEXT)
    (s pid.NEXT)).toUInt32

theorem dot_completes
    (ccrh : Block -> Block -> Block)
    (ell : Nat)
    (iVec1 iVec2 : ShrRep3Pid -> ShareVec n)
    (s : ShrRep3Pid -> CrngState) :
    Completes (I := aby3Net)
      (fun pid => (dot ccrh ell pid (iVec1 pid) (iVec2 pid)).run (s pid))
      fun pid => (dotShares ccrh ell iVec1 iVec2 s pid,
        (crng ccrh ell (s pid)).2) := by
  have rotated := completes_exchange (I := aby3Net) ShrRep3Pid.PREV
    ShrRep3Pid.NEXT
    (fun pid => [(dotShare ccrh ell (iVec1 pid) (iVec2 pid)
      (s pid)).toUInt32.toUInt8]) (fun _ => 1)
    ShrRep3Pid.NEXT_PREV ShrRep3Pid.PREV_NEXT (fun _ => rfl)
  simp only [dot_run]
  refine rotated.bind ?_
  simp only [UInt8.toUInt8_toUInt32]
  exact Completes.pure (I := aby3Net) _

theorem dotShares_hold
    {iVec1 iVec2 : ShrRep3Pid -> ShareVec n}
    (ccrh : Block -> Block -> Block)
    (sync : Synchronised s)
    (ellLe : ell ≤ 8)
    (holds1 : VectorHolds ell iVec1 value1)
    (holds2 : VectorHolds ell iVec2 value2) :
    ScalarHolds ell (dotShares ccrh ell iVec1 iVec2 s)
      (∑ i, value1 i * value2 i) := by
  have computes : Computes
      (fun pid => dot ccrh ell pid (iVec1 pid) (iVec2 pid)) s
      fun out => ScalarHolds ell out (∑ i, value1 i * value2 i) :=
    dot_computes sync ellLe holds1 holds2
  obtain ⟨out, s', completes, -, holds⟩ := computes
  have same := (dot_completes ccrh ell iVec1 iVec2 s).unique completes
  have kept : dotShares ccrh ell iVec1 iVec2 s = out :=
    funext fun pid => congrArg Prod.fst (congrFun same pid)
  rwa [kept]

theorem dotShares_lt
    (ellLe : ell ≤ 8)
    (iVec1 iVec2 : ShrRep3Pid -> ShareVec n)
    (s : ShrRep3Pid -> CrngState)
    (pid : ShrRep3Pid) :
    (dotShares ccrh ell iVec1 iVec2 s pid).thisShare.toNat < 2 ^ ell ∧
      (dotShares ccrh ell iVec1 iVec2 s pid).nxtShare.toNat < 2 ^ ell := by
  simp only [dotShares, UInt8.toNat_toUInt32]
  exact ⟨canonical_maskResult ellLe _, canonical_maskResult ellLe _⟩

/-! ## Reveal -/

/-- The message pattern of `revealAll`: `P1` sends what `P0` misses, and `P0`
sends the result to both. -/
private def revealWith
    (count : Nat)
    (missing : List UInt8)
    (result : List UInt8 -> List UInt8)
    (store : List UInt8 -> Out) : ShrRep3Pid -> Proc aby3Net Out
  | .P0 => .recv .P1 count fun data =>
      .send .P1 (result data)
        (.send .P2 (result data) (.ret (store (result data))))
  | .P1 => .send .P0 missing (.recv .P0 count fun data => .ret (store data))
  | .P2 => .recv .P0 count fun data => .ret (store data)

private theorem revealWith_completes
    (missing : List UInt8)
    (result : List UInt8 -> List UInt8)
    (store : List UInt8 -> Out)
    (size : missing.length = count)
    (resultSize : (result missing).length = count) :
    Completes (I := aby3Net) (revealWith count missing result store)
      fun _ => store (result missing) := by
  intro Out' next
  refine ⟨2 + (2 + (2 + 0)), ?_⟩
  refine (Run.transfer (I := aby3Net) .P1 .P0 (by decide) rfl rfl
    size).trans ?_
  refine (Run.transfer (I := aby3Net) .P0 .P1 (by decide) rfl rfl
    resultSize).trans ?_
  refine (Run.transfer (I := aby3Net) .P0 .P2 (by decide) rfl rfl
    resultSize).trans (Run.of_procs_eq fun party => ?_)
  cases party <;> rfl

theorem revealAll_completes (ss : ShrRep3Pid -> ShareScalar) :
    Completes (I := aby3Net) (fun pid => revealAll ell pid (ss pid)) fun _ =>
      revealSum ell (ss .P0).thisShare (ss .P0).nxtShare
        (ss .P1).nxtShare.toUInt8 := by
  have same : (fun pid => revealAll ell pid (ss pid)) = revealWith 1
      [(ss .P1).nxtShare.toUInt8]
      (fun missing => [revealSum ell (ss .P0).thisShare (ss .P0).nxtShare
        (missing.getD 0 0)])
      fun data => data.getD 0 0 := by
    funext pid
    cases pid <;> rfl
  rw [same]
  exact revealWith_completes _ _ _ rfl rfl

theorem revealAllVec_completes (sv : ShrRep3Pid -> ShareVec n) :
    Completes (I := aby3Net) (fun pid => revealAllVec ell pid (sv pid))
      fun _ => Rvector.add ell
        (Rvector.add ell (sv .P0).thisShare (sv .P0).nxtShare)
        (sv .P1).nxtShare := by
  have same : (fun pid => revealAllVec ell pid (sv pid)) = revealWith n
      (sv .P1).nxtShare.data
      (fun missing => (Rvector.add ell
        (Rvector.add ell (sv .P0).thisShare (sv .P0).nxtShare)
        (Rvector.ofData n missing)).data)
      (Rvector.ofData n) := by
    funext pid
    cases pid with
    | P0 =>
        simp only [revealWith, Rvector.ofData_data]
        rfl
    | P1 => rfl
    | P2 => rfl
  have pattern := revealWith_completes (sv .P1).nxtShare.data
    (fun missing => (Rvector.add ell
      (Rvector.add ell (sv .P0).thisShare (sv .P0).nxtShare)
      (Rvector.ofData n missing)).data)
    (Rvector.ofData n) (Rvector.length_data _) (Rvector.length_data _)
  simp only [Rvector.ofData_data] at pattern
  rw [same]
  exact pattern

/-- The residue that the 16-bit sum of three shares leaves in a byte. -/
theorem toNat_revealSum
    (ellPositive : 1 ≤ ell)
    (ellLe : ell ≤ 8)
    (thisShare nxtShare : UInt32)
    (missing : UInt8) :
    (revealSum ell thisShare nxtShare missing).toNat =
      (thisShare.toNat + nxtShare.toNat + missing.toNat) % 2 ^ ell := by
  have whole : (thisShare.toUInt16 + nxtShare.toUInt16 +
      missing.toUInt16).toNat =
      (thisShare.toNat + nxtShare.toNat + missing.toNat) % 2 ^ 16 := by
    simp only [UInt16.toNat_add, UInt32.toNat_toUInt16,
      UInt8.toNat_toUInt16]
    omega
  have divides : 2 ^ ell ∣ 2 ^ 16 := Nat.pow_dvd_pow 2 (by omega)
  have byte : 2 ^ ell ≤ 2 ^ 8 := Nat.pow_le_pow_right (by omega) ellLe
  unfold revealSum
  dsimp only
  split
  · next small =>
      have below := Nat.mod_lt
        (thisShare.toNat + nxtShare.toNat + missing.toNat)
        (show 0 < 2 ^ ell by positivity)
      rw [UInt16.toNat_toUInt8, UInt16.toNat_and, whole,
        UInt8.toNat_toUInt16, toNat_ringMask8 ellLe,
        Nat.and_two_pow_sub_one_eq_mod, Nat.mod_mod_of_dvd _ divides]
      exact Nat.mod_eq_of_lt (by omega)
  · next full =>
      have exact : ell = 8 := by omega
      subst exact
      rw [UInt16.toNat_toUInt8, whole]
      exact Nat.mod_mod_of_dvd _ divides

theorem ringVal_revealSum
    (ellPositive : 1 ≤ ell)
    (ellLe : ell ≤ 8)
    (thisShare nxtShare : UInt32)
    (missing : UInt8) :
    ringVal ell (revealSum ell thisShare nxtShare missing) =
      wordVal ell thisShare + wordVal ell nxtShare + ringVal ell missing := by
  rw [ringVal, toNat_revealSum ellPositive ellLe, ZMod.natCast_mod]
  push_cast
  rfl

theorem canonical_revealSum
    (ellPositive : 1 ≤ ell)
    (ellLe : ell ≤ 8)
    (thisShare nxtShare : UInt32)
    (missing : UInt8) :
    Canonical ell (revealSum ell thisShare nxtShare missing) := by
  rw [Canonical, toNat_revealSum ellPositive ellLe]
  exact Nat.mod_lt _ (by positivity)

/-- Every party gets the same canonical byte, the shared value. -/
theorem revealAll_computes
    (sync : Synchronised s)
    (ellPositive : 1 ≤ ell)
    (ellLe : ell ≤ 8)
    (holds : ScalarHolds ell ss value) :
    Computes (fun pid => (revealAll ell pid (ss pid) : Aby3M UInt8)) s
      fun out => ∃ byte, (∀ pid, out pid = byte) ∧
        ringVal ell byte = value ∧ Canonical ell byte := by
  refine Computes.lift sync (revealAll_completes ss)
    ⟨_, fun _ => rfl, ?_, canonical_revealSum ellPositive ellLe _ _ _⟩
  rw [ringVal_revealSum ellPositive ellLe, ringVal_toUInt8 ellLe,
    holds.replicated, holds.replicated, ← holds.total]
  rfl

theorem revealAllVec_computes
    {sv : ShrRep3Pid -> ShareVec n}
    (sync : Synchronised s)
    (ellLe : ell ≤ 8)
    (holds : VectorHolds ell sv value) :
    Computes (fun pid => (revealAllVec ell pid (sv pid) : Aby3M (Rvector n)))
      s fun out => ∃ vec, (∀ pid, out pid = vec) ∧ vec.val ell = value ∧
        ∀ i, Canonical ell (vec i) := by
  refine Computes.lift sync (revealAllVec_completes sv)
    ⟨_, fun _ => rfl, ?_, fun i => canonical_maskResult ellLe _⟩
  rw [Rvector.val_add ellLe, Rvector.val_add ellLe, holds.replicated,
    holds.replicated, ← holds.total]
  rfl

end

end Rep3
end Mpmt
