import Mpmt.Query.Streams
import Mpmt.Rep3.Correct

/-!
# The loops of a query

Each loop of the protocol runs in step at the parties that take part in it,
every message is read for the step it is written for, and nothing is in flight
between two rounds.  The index of a round is split between the Querier and the
Steward, moves on to additive shares at the three Agents, and reaches the peers
as a bias and a DPF key.
-/

namespace Mpmt
namespace Query

open Network RingMath
open Dpf (Block Bytes16 KeyType GenRandomness Evaluator)
open Rep3 (ShrRep3Pid ShareVec Rvector CrngState)

section

variable {sizes : Sizes}

/-! ## The Bloom indices -/

/-- The position of the filter that the circuits of round `k` come to. -/
def circuitIndex
    (env : Env sizes)
    (coins : Coins sizes)
    (element : List UInt8)
    (seeds : Fin sizes.hfNum -> Bytes16)
    (k : Fin sizes.hfNum) : Nat :=
  let element_share := Emp2.localShare element coins.querier.elementMask
  let key_share := Emp2.localShare (List.ofFn (seeds k))
    (coins.steward.keyMask k)
  circuitHash env.aes sizes.ellAdd2 element_share
    (xorBytes element element_share)
    (xorBytes (List.ofFn (seeds k)) key_share) key_share % sizes.bfSize

/-- The share of an index that stays with the Querier, and the Steward's. -/
def indexShares
    (env : Env sizes)
    (coins : Coins sizes)
    (element : List UInt8)
    (seeds : Fin sizes.hfNum -> Bytes16)
    (k : Fin sizes.hfNum) : Nat × Nat :=
  reshared sizes.ellAdd2 (circuitIndex env coins element seeds k)
    (Emp2.rand_mask sizes.ellAdd2 (coins.querier.modMask k))

variable {env : Env sizes}

/-! ## The keys -/

/-- The text of a key is read back. -/
theorem parseKey_dump
    (faithful : env.json.Faithful sizes.ellAdd2)
    (key : KeyType sizes.ellAdd2) :
    parseKey env (env.json.dump key.to_json) = .ok key := by
  simp [parseKey, faithful.parse_dump, KeyType.from_json_to_json]

/-- A key arrives as it was sent. -/
theorem dialog_key
    {p q : Party}
    (faithful : env.json.Faithful sizes.ellAdd2)
    (key : KeyType sizes.ellAdd2) :
    Dialog (I := queryNet env.aes) p q
      (send_key env (env.json.dump key.to_json) q) (recv_key env p)
      () (env.json.dump key.to_json) := by
  have size : ofLeBytes (leBytes 8 (env.json.dump key.to_json).length) =
      (env.json.dump key.to_json).length :=
    ofLeBytes_leBytes 8 (faithful.size_lt key)
  have text : Dialog (I := queryNet env.aes) p q
      (send (I := queryNet env.aes) q (env.json.dump key.to_json))
      (recv (I := queryNet env.aes) p
        (ofLeBytes (leBytes 8 (env.json.dump key.to_json).length))) ()
      (env.json.dump key.to_json) :=
    Dialog.transfer _ size.symm
  have read : Dialog (I := queryNet env.aes) p q
      (send (I := queryNet env.aes) q (env.json.dump key.to_json) >>= pure)
      (do
        let keyStr ← recv (I := queryNet env.aes) p
          (ofLeBytes (leBytes 8 (env.json.dump key.to_json).length))
        let key ← raise (parseKey env keyStr)
        return env.json.dump key.to_json) ()
      (env.json.dump key.to_json) := by
    refine text.bind ?_
    rw [parseKey_dump faithful key]
    exact .ret () (env.json.dump key.to_json)
  rw [bind_pure] at read
  unfold send_key recv_key
  rw [parseKey_dump faithful key, raise_ok, pure_bind]
  exact (Dialog.transfer (I := queryNet env.aes) _ (length_leBytes 8 _)).bind
    read

namespace Streams

@[simp] theorem raise_ok {aes : Block -> Block -> Block} (out : Out) :
    (raise (.ok out) : Proc (streamNet aes) Out) = pure out := rfl

/-- The rounds of a loop over the results of an earlier one. -/
theorem zipIdx_map_finRange (f : Fin n -> A) :
    ((List.finRange n).map f).zipIdx =
      (List.finRange n).map fun k => (f k, k.val) := by
  apply List.ext_getElem
  · simp
  · intro place inside inside'
    simp

/-! ## The rounds of the Querier -/

section Rounds

variable (usable : sizes.Usable) (coins : Coins sizes)
variable (element : List UInt8) (seeds : Fin sizes.hfNum -> Bytes16)

include usable

/-- One round of the Querier and the Steward, up to the index shares. -/
theorem dialog_index (k : Fin sizes.hfNum) :
    Dialog (I := streamNet env.aes) .QUERIER .STEWARD
      (queryIndex env coins.querier
        (Emp2.localShare element coins.querier.elementMask) k)
      (stewardRound env coins.steward seeds
        (xorBytes element
          (Emp2.localShare element coins.querier.elementMask)) k)
      (indexShares env coins element seeds k).1
      (indexShares env coins element seeds k).2 := by
  refine ((dialog_shareBytes (List.ofFn (seeds k)) (by simp)
    (coins.steward.keyMask k)).symm.tag _).bind ?_
  refine ((dialog_hash (by simp [length_localShare])).tag _).bind ?_
  exact (dialog_mod usable.1 usable.2 (add_reshared
    (Nat.mod_lt _ (by positivity)) (rand_mask_lt _ _))).tag _

private theorem round_leads
    {Out : Type}
    (k : Fin sizes.hfNum)
    (next : Unit -> Proc (streamNet env.aes) Out)
    (stewardNext peer0Next peer1Next : Nat -> Proc (streamNet env.aes) Out) :
    Leads (I := streamNet env.aes)
      (group
        (queryRound env coins.querier
          (Emp2.localShare element coins.querier.elementMask) k >>= next)
        (stewardRound env coins.steward seeds
          (xorBytes element
            (Emp2.localShare element coins.querier.elementMask)) k
          >>= stewardNext)
        ((Emp2.recvShare .QUERIER).tag (.indexToPeer0 k) >>= peer0Next)
        ((RingTransport.recv_scalar sizes.ellAdd2 .QUERIER).tag
          (.indexToPeer1 k) >>= peer1Next))
      (group (next ())
        (stewardNext (indexShares env coins element seeds k).2)
        (peer0Next (passedShare sizes.ellAdd2
          (indexShares env coins element seeds k).1
          (coins.querier.shareMask k)))
        (peer1Next (Emp2.rand_mask sizes.ellAdd2
          (coins.querier.shareMask k)))) := by
  rw [queryRound, bind_assoc]
  refine (leads_querier_steward
    (dialog_index usable coins element seeds k)).trans ?_
  rw [bind_assoc]
  refine (leads_querier_peer0 ((dialog_share sizes.ellAdd2Le _
    (coins.querier.shareMask k)).tag _)).trans ?_
  exact leads_querier_peer1
    ((dialog_scalar (rand_mask_lt _ _)).tag _)

theorem rounds_lead
    {Out : Type}
    (ks : List (Fin sizes.hfNum))
    (next : Unit -> Proc (streamNet env.aes) Out)
    (stewardNext peer0Next peer1Next :
      List Nat -> Proc (streamNet env.aes) Out) :
    Leads (I := streamNet env.aes)
      (group
        (forM ks (queryRound env coins.querier
          (Emp2.localShare element coins.querier.elementMask)) >>= next)
        (ks.mapM (stewardRound env coins.steward seeds
          (xorBytes element
            (Emp2.localShare element coins.querier.elementMask)))
          >>= stewardNext)
        (ks.mapM (fun (k : Fin sizes.hfNum) =>
          (Emp2.recvShare .QUERIER).tag (.indexToPeer0 k)) >>= peer0Next)
        (ks.mapM (fun (k : Fin sizes.hfNum) =>
          (RingTransport.recv_scalar sizes.ellAdd2 .QUERIER).tag
            (.indexToPeer1 k)) >>= peer1Next))
      (group (next ())
        (stewardNext (ks.map fun k =>
          (indexShares env coins element seeds k).2))
        (peer0Next (ks.map fun k => passedShare sizes.ellAdd2
          (indexShares env coins element seeds k).1
          (coins.querier.shareMask k)))
        (peer1Next (ks.map fun k =>
          Emp2.rand_mask sizes.ellAdd2 (coins.querier.shareMask k)))) := by
  induction ks generalizing stewardNext peer0Next peer1Next with
  | nil =>
      simp only [List.forM_nil, List.mapM_nil, pure_bind, List.map_nil]
      exact Leads.refl _
  | cons k ks inductionHypothesis =>
      simp only [List.forM_cons, List.mapM_cons, bind_assoc, pure_bind,
        List.map_cons]
      refine (round_leads usable coins element seeds k _ _ _ _).trans ?_
      exact inductionHypothesis _ _ _

end Rounds

/-! ## The re-shared indices -/

private theorem alpha_leads
    {Out : Type}
    (ishareLt : ishare < 2 ^ sizes.ellAdd2)
    (passedLt : passed < 2 ^ sizes.ellAdd2)
    (keptLt : kept < 2 ^ sizes.ellAdd2)
    (k : Nat)
    (querier : Proc (streamNet env.aes) Out)
    (next next' next'' : Nat -> Proc (streamNet env.aes) Out) :
    Leads (I := streamNet env.aes)
      (group querier (alphaRound env (ishare, k) >>= next)
        (biasRound env .P1 (passed, k) >>= next')
        (biasRound env .P2 (kept, k) >>= next''))
      (group querier (next ((ishare + passed) % 2 ^ sizes.ellAdd2))
        (next' kept) (next'' kept)) := by
  have low : 1 ≤ sizes.ellAdd2 := by
    have := sizes.ellAdd2Ge
    omega
  simp only [alphaRound, biasRound, reshare_idx_share, bind_assoc, pure_bind]
  refine (leads_steward_peer1
    ((dialog_scalar ishareLt).tag _)).trans ?_
  refine (leads_steward_peer0
    ((dialog_scalar passedLt).symm.tag _)).trans ?_
  refine (leads_peer0_peer1
    ((dialog_scalar keptLt).symm.tag _)).trans ?_
  rw [ring_add_eq_ok low sizes.ellAdd2Le ishareLt passedLt]
  exact Leads.refl _

/-- Every Agent learns the share of its next neighbour: the Steward the point
of the key, both peers the bias. -/
theorem alphas_lead
    {Out : Type}
    (ishare passed kept : Fin sizes.hfNum -> Nat)
    (ishareLt : ∀ k, ishare k < 2 ^ sizes.ellAdd2)
    (passedLt : ∀ k, passed k < 2 ^ sizes.ellAdd2)
    (keptLt : ∀ k, kept k < 2 ^ sizes.ellAdd2)
    (ks : List (Fin sizes.hfNum))
    (querier : Proc (streamNet env.aes) Out)
    (next next' next'' : List Nat -> Proc (streamNet env.aes) Out) :
    Leads (I := streamNet env.aes)
      (group querier
        ((ks.map fun k => (ishare k, k.val)).mapM (alphaRound env) >>= next)
        ((ks.map fun k => (passed k, k.val)).mapM (biasRound env .P1)
          >>= next')
        ((ks.map fun k => (kept k, k.val)).mapM (biasRound env .P2)
          >>= next''))
      (group querier
        (next (ks.map fun k =>
          (ishare k + passed k) % 2 ^ sizes.ellAdd2))
        (next' (ks.map kept)) (next'' (ks.map kept))) := by
  induction ks generalizing next next' next'' with
  | nil =>
      simp only [List.mapM_nil, pure_bind, List.map_nil]
      exact Leads.refl _
  | cons k ks inductionHypothesis =>
      simp only [List.map_cons, List.mapM_cons, bind_assoc, pure_bind]
      refine (alpha_leads (ishareLt k) (passedLt k) (keptLt k) k querier
        _ _ _).trans ?_
      exact inductionHypothesis _ _ _

/-- The keys of all rounds reach both peers. -/
theorem keys_lead
    {Out : Type}
    (faithful : env.json.Faithful sizes.ellAdd2)
    (key0 key1 : Fin sizes.hfNum -> KeyType sizes.ellAdd2)
    (ks : List (Fin sizes.hfNum))
    (querier : Proc (streamNet env.aes) Out)
    (next : Unit -> Proc (streamNet env.aes) Out)
    (next' next'' : List (List UInt8) -> Proc (streamNet env.aes) Out) :
    Leads (I := streamNet env.aes)
      (group querier
        (forM (ks.map fun k => ((env.json.dump (key0 k).to_json,
          env.json.dump (key1 k).to_json), k.val)) (sendRound env) >>= next)
        (ks.mapM (fun (k : Fin sizes.hfNum) =>
          (recv_key env .STEWARD).tag (.dpfKey k .P1)) >>= next')
        (ks.mapM (fun (k : Fin sizes.hfNum) =>
          (recv_key env .STEWARD).tag (.dpfKey k .P2)) >>= next''))
      (group querier (next ())
        (next' (ks.map fun k => env.json.dump (key0 k).to_json))
        (next'' (ks.map fun k => env.json.dump (key1 k).to_json))) := by
  induction ks generalizing next' next'' with
  | nil =>
      simp only [List.map_nil, List.forM_nil, List.mapM_nil, pure_bind]
      exact Leads.refl _
  | cons k ks inductionHypothesis =>
      simp only [List.map_cons, List.forM_cons, List.mapM_cons, sendRound,
        bind_assoc, pure_bind]
      refine (leads_steward_peer0
        ((dialog_key faithful (key0 k)).tag _)).trans ?_
      refine (leads_steward_peer1
        ((dialog_key faithful (key1 k)).tag _)).trans ?_
      exact inductionHypothesis _ _

end Streams

end

end Query
end Mpmt
