import Mpmt.Library.Views
import Mpmt.Query.Protocol

/-!
# The index hand-off hides the indices

After the circuits an index is the sum of a share of the Steward and a mask of
the Querier, who splits the mask between the two peers.  Each Agent then learns
the share of its next neighbour.  Whatever an Agent sees is, for every list of
indices, the same up to a shift of the masks.
-/

namespace Mpmt
namespace Query

open Network
open Dpf (Block Bytes16)
open Rep3 (ShrRep3Pid)

/-! ## The hand-off -/

section

variable {sizes : Sizes}

/-- The masks of a hand-off: those of the mod circuits and those of
`share_scalar`. -/
structure Masks (sizes : Sizes) where
  t : Fin sizes.hfNum -> ZMod (2 ^ sizes.ellAdd2)
  r : Fin sizes.hfNum -> ZMod (2 ^ sizes.ellAdd2)

/-- Both families of masks. -/
def Masks.equiv : Masks sizes ≃
    (Fin sizes.hfNum -> ZMod (2 ^ sizes.ellAdd2)) ×
      (Fin sizes.hfNum -> ZMod (2 ^ sizes.ellAdd2)) where
  toFun masks := (masks.t, masks.r)
  invFun pair := ⟨pair.1, pair.2⟩
  left_inv _ := rfl
  right_inv _ := rfl

instance : Fintype (Masks sizes) := Fintype.ofEquiv _ Masks.equiv.symm

/-- What the mod circuit leaves the Querier and the Steward of an index. -/
def splitIndex (masks : Masks sizes) (idx : Nat) (k : Fin sizes.hfNum) :
    Nat × Nat :=
  reshared sizes.ellAdd2 idx (masks.t k).val

variable (env : Env sizes)

/-- The rest of a round of `query`, from the index share on. -/
def passIndex (v : UInt32) (idx_share : Nat) :
    Proc (queryNet env.aes) Unit := do
  let kept ← Emp2.share sizes.ellAdd2 .PEER0 idx_share v
  RingTransport.send_scalar sizes.ellAdd2 .PEER1 kept

theorem queryRound_eq
    (coins : QuerierCoins sizes.hfNum)
    (element_share : List UInt8)
    (k : Fin sizes.hfNum) :
    queryRound env coins element_share k =
      queryIndex env coins element_share k >>=
        passIndex env (coins.shareMask k) := rfl

/-- What an Agent holds after the hand-off: its own index shares, and the
alpha or bias values. -/
structure Derived where
  idx_shares : List Nat
  values : List Nat

/-- The Querier, from its index shares on. -/
def querierHandOff
    (seed : Bytes16)
    (idx : Fin sizes.hfNum -> Nat)
    (masks : Masks sizes) : Proc (queryNet env.aes) Derived := do
  Emp2.construct true .PEER0 seed
  forM (List.finRange sizes.hfNum) fun k =>
    passIndex env (UInt32.ofNat (masks.r k).val)
      (splitIndex masks (idx k) k).1
  return { idx_shares := [], values := [] }

/-- The Steward, from its index shares on. -/
def stewardHandOff (idx_shares : List Nat) :
    Proc (queryNet env.aes) Derived := do
  let alpha_set ← idx_shares.mapM (alphaRound env)
  return { idx_shares := idx_shares, values := alpha_set }

/-- A peer, up to its bias values. -/
def peerHandOff (pid : ShrRep3Pid) : Proc (queryNet env.aes) Derived := do
  let idx_shares ← recvIdxShares env pid
  let bias_set ← idx_shares.mapM (biasRound env pid)
  return { idx_shares := idx_shares, values := bias_set }

/-- All four parties from the end of the circuits to the alpha and bias
values. -/
def handOff
    (seed : Bytes16)
    (idx : Fin sizes.hfNum -> Nat)
    (masks : Masks sizes) : Party -> Proc (queryNet env.aes) Derived :=
  group (querierHandOff env seed idx masks)
    (stewardHandOff env ((List.finRange sizes.hfNum).map fun k =>
      (splitIndex masks (idx k) k).2))
    (peerHandOff env .P1) (peerHandOff env .P2)

/-- What an Agent holds at the end, and everything that reached it. -/
abbrev View (env : Env sizes) := Derived × List (Seen (queryNet env.aes))

end

/-! ## Recorded scalars -/

section

variable {aes : Block -> Block -> Block} {p q : Party}
variable (log log' : List (Seen (queryNet aes)))

private theorem dialog_observe_scalar
    (valLt : val < 2 ^ ell) :
    Dialog (I := queryNet aes) p q
      ((RingTransport.send_scalar ell q val).observe log)
      ((RingTransport.recv_scalar ell p).observe log') ((), log)
      (val, log' ++ [.got p (leBytes (BYTES ell) val)]) := by
  have sent : (RingTransport.send_scalar ell q val :
      Proc (queryNet aes) Unit) =
        send (I := queryNet aes) q (leBytes (BYTES ell) val) :=
    if_neg (by omega)
  have read := (Dialog.observe_transfer (I := queryNet aes) (p := p) (q := q)
    (leBytes (BYTES ell) val) (length_leBytes _ _) log log').map_right
      fun seen => (ofLeBytes seen.1 % 2 ^ ell, seen.2)
  dsimp only at read
  rw [ofLeBytes_leBytes _ (valLt.trans_le (two_pow_le_bytes ell)),
    Nat.mod_eq_of_lt valLt] at read
  rw [sent]
  exact read

private theorem dialog_observe_share
    (ellLe : ell ≤ 31)
    (value : Nat)
    (v : UInt32) :
    Dialog (I := queryNet aes) p q
      ((Emp2.share ell q value v).observe log)
      ((Emp2.recvShare p).observe log') (Emp2.rand_mask ell v, log)
      (passedShare ell value v,
        log' ++ [.got p (leBytes 4 (passedShare ell value v))]) := by
  have below := passedShare_lt ell value v
  have fits : passedShare ell value v < 256 ^ 4 :=
    below.trans_le ((Nat.pow_le_pow_right (by decide) ellLe).trans (by decide))
  have read := ((Dialog.observe_transfer (I := queryNet aes) (p := p) (q := q)
    (leBytes 4 (passedShare ell value v)) (length_leBytes _ _) log
      log').map_left fun seen =>
        (Emp2.rand_mask ell v, seen.2)).map_right fun seen =>
          (ofLeBytes seen.1, seen.2)
  dsimp only at read
  rw [ofLeBytes_leBytes _ fits] at read
  have sent : (Emp2.share ell q value v : Proc (queryNet aes) Nat) = do
      send (I := queryNet aes) q (leBytes 4 (passedShare ell value v))
      return Emp2.rand_mask ell v := by
    rw [Emp2.share, ringSub32_eq ellLe (rand_mask_lt ell v)]
    rfl
  rw [sent]
  exact read

private theorem dialog_observe_construct
    (seed unused : Bytes16) :
    Dialog (I := queryNet aes) p q
      ((Emp2.construct true q seed).observe log)
      ((Emp2.construct false p unused).observe log')
      ((), log ++ [.met q 0])
      ((), log' ++ [.got p (List.ofFn seed), .met p 0]) := by
  have left : (Emp2.construct true q seed :
      Proc (queryNet aes) Unit).observe log =
        (send (I := queryNet aes) q (List.ofFn seed)).observe log >>=
          fun seen =>
            (join (I := queryNet aes) true q .session).observe seen.2 >>=
              fun seen => pure ((), seen.2) := rfl
  have right : (Emp2.construct false p unused :
      Proc (queryNet aes) Unit).observe log' =
        ((recv (I := queryNet aes) p 16).observe log' >>=
          fun seen => pure ((), seen.2)) >>=
          fun seen =>
            (join (I := queryNet aes) false p .session).observe seen.2 >>=
              fun seen => pure ((), seen.2) := rfl
  have seeded := (Dialog.observe_transfer (I := queryNet aes) (p := p) (q := q)
    (List.ofFn seed) List.length_ofFn log log').map_right
      fun seen => ((), seen.2)
  have met : Dialog (I := queryNet aes) p q
      ((join (I := queryNet aes) true q .session).observe log)
      ((join (I := queryNet aes) false p .session).observe (log' ++ [.got p (List.ofFn seed)]))
      (0, log ++ [.met q 0])
      (0, log' ++ [.got p (List.ofFn seed)] ++ [.met p 0]) :=
    Dialog.observe_joint rfl _ _
  have ended := (met.map_left fun seen => ((), seen.2)).map_right
    fun seen => ((), seen.2)
  rw [List.append_assoc] at ended
  rw [left, right]
  exact seeded.bind ended

end

/-! ## The run -/

section

variable {sizes : Sizes} {env : Env sizes}

private theorem passes_lead
    {Out : Type}
    (v : Fin sizes.hfNum -> UInt32)
    (share : Fin sizes.hfNum -> Nat)
    (ks : List (Fin sizes.hfNum))
    (log log' log'' : List (Seen (queryNet env.aes)))
    (steward : Proc (queryNet env.aes) Out)
    (next : Unit × List (Seen (queryNet env.aes)) ->
      Proc (queryNet env.aes) Out)
    (next' next'' : List Nat × List (Seen (queryNet env.aes)) ->
      Proc (queryNet env.aes) Out) :
    Leads (I := queryNet env.aes)
      (group
        ((forM ks fun k => passIndex env (v k) (share k)).observe log >>= next)
        steward
        ((ks.mapM fun _ => Emp2.recvShare .QUERIER).observe log' >>= next')
        ((ks.mapM fun _ =>
          RingTransport.recv_scalar sizes.ellAdd2 .QUERIER).observe log''
          >>= next''))
      (group (next ((), log)) steward
        (next' (ks.map fun k => passedShare sizes.ellAdd2 (share k) (v k),
          log' ++ ks.map fun k => .got .QUERIER
            (leBytes 4 (passedShare sizes.ellAdd2 (share k) (v k)))))
        (next'' (ks.map fun k => Emp2.rand_mask sizes.ellAdd2 (v k),
          log'' ++ ks.map fun k => .got .QUERIER
            (leBytes (BYTES sizes.ellAdd2)
              (Emp2.rand_mask sizes.ellAdd2 (v k)))))) := by
  induction ks generalizing next' next'' log' log'' with
  | nil =>
      simp only [List.forM_nil, List.mapM_nil, Proc.observe_pure, pure_bind,
        List.map_nil, List.append_nil]
      exact Leads.refl _
  | cons k ks inductionHypothesis =>
      simp only [List.forM_cons, List.mapM_cons, passIndex, Proc.observe_bind,
        Proc.observe_pure, bind_assoc, pure_bind, List.map_cons]
      refine (leads_querier_peer0 (dialog_observe_share log log'
        sizes.ellAdd2Le (share k) (v k))).trans ?_
      refine (leads_querier_peer1 (dialog_observe_scalar log log''
        (rand_mask_lt _ _))).trans ?_
      simp only [List.append_cons _ _ (List.map _ ks)]
      exact inductionHypothesis _ _ _ _

private theorem alphas_observe_lead
    {Out : Type}
    (ishare passed kept : Fin sizes.hfNum -> Nat)
    (ishareLt : ∀ k, ishare k < 2 ^ sizes.ellAdd2)
    (passedLt : ∀ k, passed k < 2 ^ sizes.ellAdd2)
    (keptLt : ∀ k, kept k < 2 ^ sizes.ellAdd2)
    (ks : List (Fin sizes.hfNum))
    (log log' log'' : List (Seen (queryNet env.aes)))
    (querier : Proc (queryNet env.aes) Out)
    (next next' next'' : List Nat × List (Seen (queryNet env.aes)) ->
      Proc (queryNet env.aes) Out) :
    Leads (I := queryNet env.aes)
      (group querier
        (((ks.map ishare).mapM (alphaRound env)).observe log >>= next)
        (((ks.map passed).mapM (biasRound env .P1)).observe log' >>= next')
        (((ks.map kept).mapM (biasRound env .P2)).observe log'' >>= next''))
      (group querier
        (next (ks.map fun k => (ishare k + passed k) % 2 ^ sizes.ellAdd2,
          log ++ ks.map fun k => .got .PEER0
            (leBytes (BYTES sizes.ellAdd2) (passed k))))
        (next' (ks.map kept, log' ++ ks.map fun k => .got .PEER1
            (leBytes (BYTES sizes.ellAdd2) (kept k))))
        (next'' (ks.map kept, log'' ++ ks.map fun k => .got .STEWARD
            (leBytes (BYTES sizes.ellAdd2) (ishare k))))) := by
  induction ks generalizing next next' next'' log log' log'' with
  | nil =>
      simp only [List.mapM_nil, Proc.observe_pure, pure_bind, List.map_nil,
        List.append_nil]
      exact Leads.refl _
  | cons k ks inductionHypothesis =>
      have low : 1 ≤ sizes.ellAdd2 := by
        have := sizes.ellAdd2Ge
        omega
      simp only [List.mapM_cons, alphaRound, biasRound, reshare_idx_share,
        Proc.observe_bind, Proc.observe_pure, bind_assoc, pure_bind,
        List.map_cons]
      refine (leads_steward_peer1
        (dialog_observe_scalar log log'' (ishareLt k))).trans ?_
      refine (leads_steward_peer0
        (dialog_observe_scalar log' log (passedLt k)).symm).trans ?_
      refine (leads_peer0_peer1
        (dialog_observe_scalar _ log' (keptLt k)).symm).trans ?_
      simp only [ring_add_eq_ok low sizes.ellAdd2Le (ishareLt k) (passedLt k),
        raise_ok, Proc.observe_pure, pure_bind,
        List.append_cons _ _ (List.map _ ks)]
      exact inductionHypothesis _ _ _ _ _ _

/-- The views of a hand-off in which the Steward starts with `ishare` and the
peers get `passed` and `kept`. -/
def handOffViews
    (env : Env sizes)
    (seed : Bytes16)
    (ishare passed kept : Fin sizes.hfNum -> Nat) : Party -> View env :=
  let all := fun f : Fin sizes.hfNum -> Nat =>
    (List.finRange sizes.hfNum).map f
  let words := fun (peer : Party) (f : Fin sizes.hfNum -> Nat) =>
    (List.finRange sizes.hfNum).map fun k =>
      (Seen.got peer (leBytes (BYTES sizes.ellAdd2) (f k)) :
        Seen (queryNet env.aes))
  fun
  | .QUERIER => ({ idx_shares := [], values := [] }, [.met .PEER0 0])
  | .STEWARD => ({
      idx_shares := all ishare
      values := all fun k => (ishare k + passed k) % 2 ^ sizes.ellAdd2 },
      words .PEER0 passed)
  | .PEER0 => ({ idx_shares := all passed, values := all kept },
      [.got .QUERIER (List.ofFn seed), .met .QUERIER 0] ++
        (List.finRange sizes.hfNum).map
          (fun k => .got .QUERIER (leBytes 4 (passed k))) ++
        words .PEER1 kept)
  | .PEER1 => ({ idx_shares := all kept, values := all kept },
      words .QUERIER kept ++ words .STEWARD ishare)

theorem handOff_completes
    (env : Env sizes)
    (seed : Bytes16)
    (idx : Fin sizes.hfNum -> Nat)
    (masks : Masks sizes) :
    Completes (I := queryNet env.aes)
      (fun party => (handOff env seed idx masks party).observe [])
      (handOffViews env seed
        (fun k => (splitIndex masks (idx k) k).2)
        (fun k => passedShare sizes.ellAdd2 (splitIndex masks (idx k) k).1
          (UInt32.ofNat (masks.r k).val))
        (fun k => Emp2.rand_mask sizes.ellAdd2
          (UInt32.ofNat (masks.r k).val))) := by
  intro Out next
  show Leads (I := queryNet env.aes) _ _
  have grouped : (fun party =>
      (handOff env seed idx masks party).observe [] >>= next party) =
      group
        ((querierHandOff env seed idx masks).observe [] >>= next .QUERIER)
        ((stewardHandOff env ((List.finRange sizes.hfNum).map fun k =>
          (splitIndex masks (idx k) k).2)).observe [] >>= next .STEWARD)
        ((peerHandOff env .P1).observe [] >>= next .PEER0)
        ((peerHandOff env .P2).observe [] >>= next .PEER1) := by
    funext party
    cases party <;> rfl
  rw [grouped]
  simp only [querierHandOff, stewardHandOff, peerHandOff, recvIdxShares,
    Proc.observe_bind, Proc.observe_pure, bind_assoc, pure_bind]
  refine (leads_querier_peer0 (dialog_observe_construct [] [] seed
    _)).trans ?_
  refine (passes_lead _ _ _ _ _ _ _ _ _ _).trans ?_
  refine (alphas_observe_lead _ _ _ (fun k => reshared_snd_lt _ _ _)
    (fun k => Nat.mod_lt _ (by positivity)) (fun k => rand_mask_lt _ _)
    _ _ _ _ _ _ _ _).trans ?_
  exact Leads.of_eq fun party => by cases party <;> rfl

/-! ## Two lists of indices -/

private theorem sub_mod_eq_val
    (a : Nat)
    (b : ZMod (2 ^ ell)) :
    (a + 2 ^ ell - b.val) % 2 ^ ell = ((a : ZMod (2 ^ ell)) - b).val := by
  have below : b.val ≤ a + 2 ^ ell := by
    have := ZMod.val_lt b
    omega
  have cast : ((a + 2 ^ ell - b.val : Nat) : ZMod (2 ^ ell)) = a - b := by
    rw [Nat.cast_sub below]
    simp
  rw [← cast, ZMod.val_natCast]

private theorem rand_mask_val
    (ellLe : ell ≤ 31)
    (r : ZMod (2 ^ ell)) :
    Emp2.rand_mask ell (UInt32.ofNat r.val) = r.val := by
  have below := ZMod.val_lt r
  have word : (2 : Nat) ^ ell ≤ 2 ^ 31 :=
    Nat.pow_le_pow_right (by decide) ellLe
  rw [Emp2.rand_mask, UInt32.toNat_ofNat_of_lt' (by
    show r.val < 2 ^ 32
    omega), Nat.mod_eq_of_lt below]

/-- The views, from the differences that the masks hide. -/
private theorem handOffViews_masks
    (env : Env sizes)
    (seed : Bytes16)
    (idx : Fin sizes.hfNum -> Nat)
    (masks : Masks sizes) :
    handOffViews env seed
        (fun k => (splitIndex masks (idx k) k).2)
        (fun k => passedShare sizes.ellAdd2 (splitIndex masks (idx k) k).1
          (UInt32.ofNat (masks.r k).val))
        (fun k => Emp2.rand_mask sizes.ellAdd2
          (UInt32.ofNat (masks.r k).val)) =
      handOffViews env seed (fun k => (idx k - masks.t k).val)
        (fun k => (masks.t k - masks.r k).val) (fun k => (masks.r k).val) := by
  simp only [splitIndex, reshared, passedShare,
    rand_mask_val sizes.ellAdd2Le, sub_mod_eq_val, ZMod.natCast_zmod_val]

/-- Move both families of masks. -/
private def shift
    (dt dr : Fin sizes.hfNum -> ZMod (2 ^ sizes.ellAdd2)) :
    Masks sizes ≃ Masks sizes where
  toFun masks := { t := masks.t + dt, r := masks.r + dr }
  invFun masks := { t := masks.t - dt, r := masks.r - dr }
  left_inv masks := by simp
  right_inv masks := by simp

/-- Run from the end of the mod circuits, the hand-off completes, and over all
masks each Agent has the same views of any two lists of indices. -/
theorem handOff_hides_indices (env : Env sizes) (seed : Bytes16) :
    ∃ view : (Fin sizes.hfNum -> Nat) -> Masks sizes -> Party -> View env,
      (∀ idx masks, Completes (I := queryNet env.aes)
        (fun party => (handOff env seed idx masks party).observe [])
        (view idx masks)) ∧
      ∀ (idx idx' : Fin sizes.hfNum -> Nat) (pid : ShrRep3Pid),
        SameViews (fun masks => view idx masks (agent pid))
          (fun masks => view idx' masks (agent pid)) := by
  refine ⟨fun idx masks => handOffViews env seed
    (fun k => (idx k - masks.t k).val)
    (fun k => (masks.t k - masks.r k).val) (fun k => (masks.r k).val),
    fun idx masks => ?_, fun idx idx' pid => ?_⟩
  · dsimp only
    rw [← handOffViews_masks]
    exact handOff_completes env seed idx masks
  let d : Fin sizes.hfNum -> ZMod (2 ^ sizes.ellAdd2) :=
    fun k => idx' k - idx k
  have moved : ∀ k (t : ZMod (2 ^ sizes.ellAdd2)),
      idx' k - (t + d k) = idx k - t := by
    intro k t
    simp only [d]
    ring
  cases pid with
  | P0 =>
      -- the Steward sees `idx - t` and `t - r`
      refine SameViews.of_equiv (shift d d) fun masks => ?_
      simp only [agent, handOffViews, shift, Equiv.coe_fn_mk, Pi.add_apply,
        add_sub_add_right_eq_sub, moved]
  | P1 => exact SameViews.of_equiv (Equiv.refl _) fun _ => rfl
  | P2 =>
      -- PEER1 sees `r` and `idx - t`
      refine SameViews.of_equiv (shift d 0) fun masks => ?_
      simp only [agent, handOffViews, shift, Equiv.coe_fn_mk, Pi.add_apply,
        add_zero, moved]

end

end Query
end Mpmt
