import Mpmt.Query.Windows

/-!
# A query runs to its end

When `Emp2::mod` accepts the size of the filter, one schedule leads all four
parties to their results, and every message is read for the step it is written
for.  What the Querier answers compares the shares of the scalar product with
the number of rounds.
-/

namespace Mpmt
namespace Query

open Network RingMath
open Dpf (Block Bytes16 KeyType Evaluator)
open Rep3 (ShrRep3Pid ShareVec ShareScalar Rvector CrngState Synchronised sum3
  VectorHolds)

/-- How a completed query ends. -/
def ends (answer : Nat) (s : ShrRep3Pid -> CrngState) : Party -> Outcome
  | .QUERIER => .answered answer
  | .STEWARD => .served (s .P0)
  | .PEER0 => .served (s .P1)
  | .PEER1 => .served (s .P2)

section

variable {sizes : Sizes}

/-- What the equality test says of the shares of the scalar product. -/
def rootAnswer (sizes : Sizes) (dr : ShrRep3Pid -> ShareScalar) : Nat :=
  if ((dr .P2).thisShare.toNat + ((dr .P0).thisShare.toNat +
      (dr .P0).nxtShare.toNat) % 2 ^ sizes.ellRoot) % 2 ^ sizes.ellRoot =
    (0 + sizes.hfNum) % 2 ^ sizes.ellRoot then 1 else 0

/-- The zero shares that an Agent draws for a query, and its state after
them. -/
def zeroShares
    (env : Env sizes)
    (s : ShrRep3Pid -> CrngState)
    (pid : ShrRep3Pid) : Rvector sizes.bfSize × CrngState :=
  Rep3.crngVector env.ccrh sizes.ellRoot sizes.bfSize (s pid)

/-- The states of the Agents after a query. -/
def nextState
    (env : Env sizes)
    (s : ShrRep3Pid -> CrngState)
    (pid : ShrRep3Pid) : CrngState :=
  (Rep3.crng env.ccrh sizes.ellRoot (zeroShares env s pid).2).2

namespace Streams

/-! ## The shares of an index -/

section Shares

variable (env : Env sizes) (coins : Coins sizes) (element : List UInt8)
variable (seeds : Fin sizes.hfNum -> Bytes16)

/-- The Steward's share of an index. -/
private def ishare (k : Fin sizes.hfNum) : Nat :=
  (indexShares env coins element seeds k).2

/-- The share of PEER0. -/
private def passed (k : Fin sizes.hfNum) : Nat :=
  passedShare sizes.ellAdd2 (indexShares env coins element seeds k).1
    (coins.querier.shareMask k)

/-- The share of PEER1, which is the bias of both peers. -/
private def kept (k : Fin sizes.hfNum) : Nat :=
  Emp2.rand_mask sizes.ellAdd2 (coins.querier.shareMask k)

private theorem ishare_lt (k : Fin sizes.hfNum) :
    ishare env coins element seeds k < 2 ^ sizes.ellAdd2 :=
  reshared_snd_lt _ _ _

private theorem passed_lt (k : Fin sizes.hfNum) :
    passed env coins element seeds k < 2 ^ sizes.ellAdd2 :=
  passedShare_lt _ _ _

private theorem kept_lt (k : Fin sizes.hfNum) :
    kept coins k < 2 ^ sizes.ellAdd2 :=
  rand_mask_lt _ _

variable (usable : sizes.Usable)

include usable

/-- The point of the key, seen through the window of round `k`. -/
private theorem kept_hits (k : Fin sizes.hfNum) :
    ∀ i < 2 ^ sizes.ellAdd2,
      ((0 + 2 ^ sizes.ellAdd2 - kept coins k) % 2 ^ sizes.ellAdd2 + i) %
          2 ^ sizes.ellAdd2 =
        (ishare env coins element seeds k +
          passed env coins element seeds k) % 2 ^ sizes.ellAdd2 ↔
        i = circuitIndex env coins element seeds k := by
  intro i iLt
  exact window_hits _ _ _ (rand_mask_lt _ _) (rand_mask_lt _ _)
    ((Nat.mod_lt _ usable.1).trans usable.2) iLt rfl rfl rfl

/-- The Steward generates a key for every round, and the windows of the two
peers add up to the unit vector of its index. -/
private theorem keys_exist :
    ∃ key0 key1 : Fin sizes.hfNum -> KeyType sizes.ellAdd2,
      (((List.finRange sizes.hfNum).map fun k =>
        (ishare env coins element seeds k +
          passed env coins element seeds k) %
          2 ^ sizes.ellAdd2).zip (List.finRange sizes.hfNum)).mapM
        (fun (alpha, k) => gen env (coins.steward.gen k) alpha 1) =
        .ok ((List.finRange sizes.hfNum).map fun k =>
          (env.json.dump (key0 k).to_json,
            env.json.dump (key1 k).to_json)) ∧
      ∀ k, (window env .EVALUATOR_0 (key0 k) (kept coins k)).val
            sizes.ellRoot +
          (window env .EVALUATOR_1 (key1 k) (kept coins k)).val
            sizes.ellRoot =
        selects sizes.bfSize sizes.ellRoot
          (circuitIndex env coins element seeds k) := by
  choose key0 key1 generated shares using fun k => gen_eq_ok env
    (coins.steward.gen k)
    (Nat.mod_lt (ishare env coins element seeds k +
      passed env coins element seeds k)
      (show 0 < 2 ^ sizes.ellAdd2 by positivity))
  exact ⟨key0, key1, gens_eq_ok coins.steward.gen _ key0 key1 generated _,
    fun k => window_sum usable (shares k)
      (kept_hits env coins element seeds usable k)⟩

/-- What an Agent re-shares: zero shares at the Steward, and at a peer the sum
of its windows on top of them. -/
private def beforeReshare
    (mask : ShrRep3Pid -> Rvector sizes.bfSize)
    (buf0 buf1 : ShareVec sizes.bfSize) : ShrRep3Pid -> Rvector sizes.bfSize
  | .P0 => mask .P0
  | .P1 => buf0.nxtShare
  | .P2 => buf1.nxtShare

/-- The peers evaluate all keys; with the zero shares of the Steward this is
an additive sharing of the counts. -/
private theorem vectors_exist
    (faithful : env.json.Faithful sizes.ellAdd2)
    {key0 key1 : Fin sizes.hfNum -> KeyType sizes.ellAdd2}
    (windows : ∀ k,
      (window env .EVALUATOR_0 (key0 k) (kept coins k)).val sizes.ellRoot +
          (window env .EVALUATOR_1 (key1 k) (kept coins k)).val
            sizes.ellRoot =
        selects sizes.bfSize sizes.ellRoot
          (circuitIndex env coins element seeds k))
    (mask : ShrRep3Pid -> Rvector sizes.bfSize) :
    ∃ buf0 buf1 : ShareVec sizes.bfSize,
      ((((List.finRange sizes.hfNum).map fun k =>
          env.json.dump (key0 k).to_json).zip
        ((List.finRange sizes.hfNum).map (kept coins))).zip
        (List.finRange sizes.hfNum)).foldlM
        (evalRound env .EVALUATOR_0 coins.peer0)
        { thisShare := coins.peer0.buf, nxtShare := mask .P1 } =
          .ok buf0 ∧
      ((((List.finRange sizes.hfNum).map fun k =>
          env.json.dump (key1 k).to_json).zip
        ((List.finRange sizes.hfNum).map (kept coins))).zip
        (List.finRange sizes.hfNum)).foldlM
        (evalRound env .EVALUATOR_1 coins.peer1)
        { thisShare := coins.peer1.buf, nxtShare := mask .P2 } =
          .ok buf1 ∧
      ((sum3 fun pid => (mask pid).val sizes.ellRoot) = 0 ->
        (sum3 fun pid => (beforeReshare mask buf0 buf1 pid).val
          sizes.ellRoot) =
          ((List.finRange sizes.hfNum).map fun k =>
            selects sizes.bfSize sizes.ellRoot
              (circuitIndex env coins element seeds k)).sum) := by
  have zipped : ∀ text : Fin sizes.hfNum -> List UInt8,
      ((((List.finRange sizes.hfNum).map text).zip
        ((List.finRange sizes.hfNum).map (kept coins))).zip
        (List.finRange sizes.hfNum)) =
        (List.finRange sizes.hfNum).map fun k =>
          ((text k, kept coins k), k) := by
    intro text
    rw [List.zip_map']
    simpa using List.zip_map' (f := fun k => (text k, kept coins k))
      (g := id) (l := List.finRange sizes.hfNum)
  obtain ⟨buf0, evaluated0, total0⟩ := evalRounds_eq_ok usable faithful
    .EVALUATOR_0 coins.peer0 key0 (kept coins) (kept_lt coins)
    (List.finRange sizes.hfNum)
    { thisShare := coins.peer0.buf, nxtShare := mask .P1 }
  obtain ⟨buf1, evaluated1, total1⟩ := evalRounds_eq_ok usable faithful
    .EVALUATOR_1 coins.peer1 key1 (kept coins) (kept_lt coins)
    (List.finRange sizes.hfNum)
    { thisShare := coins.peer1.buf, nxtShare := mask .P2 }
  refine ⟨buf0, buf1, by rw [zipped, evaluated0], by rw [zipped, evaluated1],
    fun cancel => ?_⟩
  simp only [← windows, List.sum_map_add]
  simp only [sum3, beforeReshare] at cancel ⊢
  rw [total0, total1]
  linear_combination cancel

end Shares

/-! ## The replicated protocols -/

/-- An exchange among the three Agents, while the Querier waits. -/
private theorem exchange_leads
    {Out A : Type}
    (env : Env sizes)
    (step : ProtStep)
    {procs : ShrRep3Pid -> Proc Rep3.aby3Net A}
    (data : ShrRep3Pid -> List UInt8)
    (count : Nat)
    (f : ShrRep3Pid -> List UInt8 -> A)
    (isExchange : ∀ pid, procs pid = (do
      send (I := Rep3.aby3Net) pid.PREV (data pid)
      recv (I := Rep3.aby3Net) pid.NEXT count) >>= fun bytes =>
        pure (f pid bytes))
    (size : ∀ pid, (data pid).length = count)
    (querier : Proc (streamNet env.aes) Out)
    (next next' next'' : A -> Proc (streamNet env.aes) Out) :
    Leads (I := streamNet env.aes)
      (group querier
        (((rep3Embedding env.aes).proc (procs .P0)).tag step >>= next)
        (((rep3Embedding env.aes).proc (procs .P1)).tag step >>= next')
        (((rep3Embedding env.aes).proc (procs .P2)).tag step >>= next''))
      (group querier (next (f .P0 (data .P1))) (next' (f .P1 (data .P2)))
        (next'' (f .P2 (data .P0)))) := by
  have completes : Completes (I := tagged Rep3.aby3Net ProtStep)
      (fun pid => (procs pid).tag step) fun pid => f pid (data pid.NEXT) := by
    have exchanged := completes_tag_exchange (I := Rep3.aby3Net)
      ShrRep3Pid.PREV ShrRep3Pid.NEXT data (fun _ => count)
      ShrRep3Pid.NEXT_PREV ShrRep3Pid.PREV_NEXT (fun pid => size pid.NEXT) step
    simp only [isExchange, Proc.tag, Proc.tagFrom_map]
    exact exchanged.bind (Completes.pure (I := tagged Rep3.aby3Net ProtStep) _)
  refine (rep3Embedding env.aes).tagged.leads completes
    (ShrRep3Pid.each next next' next'') ?_ ?_ ?_
  · intro pid
    have inside : ((rep3Embedding env.aes).proc (procs pid)).tag step =
        (rep3Embedding env.aes).tagged.proc ((procs pid).tag step) :=
      Embedding.tagFrom_proc _ step 0 0 (procs pid)
    rw [← inside]
    cases pid <;> rfl
  · intro pid
    cases pid <;> rfl
  · intro party outside
    cases party with
    | QUERIER => rfl
    | STEWARD => cases outside
    | PEER0 => cases outside
    | PEER1 => cases outside

private theorem reshareVec_leads
    {Out : Type}
    (env : Env sizes)
    (vec : ShrRep3Pid -> Rvector n)
    (s : ShrRep3Pid -> CrngState)
    (querier : Proc (streamNet env.aes) Out)
    (next next' next'' :
      ShareVec n × CrngState -> Proc (streamNet env.aes) Out) :
    Leads (I := streamNet env.aes)
      (group querier
        ((rep3 env (Rep3.reshareVec .P0 (vec .P0)) (s .P0)).tag .reshareVec
          >>= next)
        ((rep3 env (Rep3.reshareVec .P1 (vec .P1)) (s .P1)).tag .reshareVec
          >>= next')
        ((rep3 env (Rep3.reshareVec .P2 (vec .P2)) (s .P2)).tag .reshareVec
          >>= next''))
      (group querier
        (next ({ thisShare := vec .P0, nxtShare := vec .P1 }, s .P0))
        (next' ({ thisShare := vec .P1, nxtShare := vec .P2 }, s .P1))
        (next'' ({ thisShare := vec .P2, nxtShare := vec .P0 }, s .P2))) := by
  have exchanged := exchange_leads env .reshareVec (fun pid => (vec pid).data)
    n (fun pid bytes =>
      (({ thisShare := vec pid, nxtShare := Rvector.ofData n bytes } :
        ShareVec n), s pid))
    (fun pid => Rep3.reshareVec_run pid (vec pid) (s pid))
    (fun pid => Rvector.length_data (vec pid)) querier next next' next''
  simp only [Rvector.ofData_data] at exchanged
  exact exchanged

private theorem dot_leads
    {Out : Type}
    (env : Env sizes)
    (iVec1 iVec2 : ShrRep3Pid -> ShareVec n)
    (s : ShrRep3Pid -> CrngState)
    (querier : Proc (streamNet env.aes) Out)
    (next next' next'' :
      ShareScalar × CrngState -> Proc (streamNet env.aes) Out) :
    Leads (I := streamNet env.aes)
      (group querier
        ((rep3 env (Rep3.dot env.ccrh sizes.ellRoot .P0 (iVec1 .P0)
          (iVec2 .P0)) (s .P0)).tag .dot >>= next)
        ((rep3 env (Rep3.dot env.ccrh sizes.ellRoot .P1 (iVec1 .P1)
          (iVec2 .P1)) (s .P1)).tag .dot >>= next')
        ((rep3 env (Rep3.dot env.ccrh sizes.ellRoot .P2 (iVec1 .P2)
          (iVec2 .P2)) (s .P2)).tag .dot >>= next''))
      (group querier
        (next (Rep3.dotShares env.ccrh sizes.ellRoot iVec1 iVec2 s .P0,
          (Rep3.crng env.ccrh sizes.ellRoot (s .P0)).2))
        (next' (Rep3.dotShares env.ccrh sizes.ellRoot iVec1 iVec2 s .P1,
          (Rep3.crng env.ccrh sizes.ellRoot (s .P1)).2))
        (next'' (Rep3.dotShares env.ccrh sizes.ellRoot iVec1 iVec2 s .P2,
          (Rep3.crng env.ccrh sizes.ellRoot (s .P2)).2))) := by
  have exchanged := exchange_leads env .dot
    (fun pid => [(Rep3.dotShare env.ccrh sizes.ellRoot (iVec1 pid) (iVec2 pid)
      (s pid)).toUInt32.toUInt8]) 1
    (fun pid bytes => (({
      thisShare := (Rep3.dotShare env.ccrh sizes.ellRoot (iVec1 pid)
        (iVec2 pid) (s pid)).toUInt32
      nxtShare := (bytes.getD 0 0).toUInt32 } : ShareScalar),
        (Rep3.crng env.ccrh sizes.ellRoot (s pid)).2))
    (fun pid => Rep3.dot_run pid (iVec1 pid) (iVec2 pid) (s pid))
    (fun _ => rfl) querier next next' next''
  simp only [UInt8.toUInt8_toUInt32] at exchanged
  exact exchanged

/-! ## The answer -/

/-- The last phase: PEER1 and the Steward hold additive shares of the scalar
product, and the equality test compares it with the number of rounds. -/
private theorem root_leads
    (env : Env sizes)
    (dr : ShrRep3Pid -> ShareScalar)
    (canonical : ∀ pid, (dr pid).thisShare.toNat < 2 ^ sizes.ellRoot ∧
      (dr pid).nxtShare.toNat < 2 ^ sizes.ellRoot)
    (seed : Bytes16)
    (v v' : UInt32)
    (s : ShrRep3Pid -> CrngState) :
    Leads (I := streamNet env.aes)
      (group
        (do
          let dr_share ←
            (RingTransport.recv_scalar sizes.ellRoot .PEER1).tag .rootShare
          (Emp2.construct true .STEWARD seed).tag (.session .root)
          let qr_share ← (Emp2.equalityTest sizes.ellRoot true .STEWARD
            dr_share 0 v).tag .equalityTest
          let sent ← (Emp2.recvShare .STEWARD).tag .answer
          let answer ← raise (ring_add sizes.ellRoot sent qr_share)
          pure (.answered answer))
        (do
          let dr_share ← raise (ring_add sizes.ellRoot
            (dr .P0).thisShare.toNat (dr .P0).nxtShare.toNat)
          (Emp2.construct false .QUERIER fun _ => 0).tag (.session .root)
          let qr_share ← (Emp2.equalityTest sizes.ellRoot false .QUERIER
            dr_share sizes.hfNum v').tag .equalityTest
          (Emp2.send_data sizes.ellRoot .QUERIER qr_share).tag .answer
          pure (.served (s .P0)))
        (do
          sendRootShare env .P1 (dr .P1).thisShare.toNat
          pure (.served (s .P1)))
        (do
          sendRootShare env .P2 (dr .P2).thisShare.toNat
          pure (.served (s .P2))))
      fun party => .ret (ends (rootAnswer sizes dr) s party) := by
  have ellLow : 1 ≤ sizes.ellRoot := by
    have := sizes.ellRootGe
    omega
  have ellHigh : sizes.ellRoot ≤ 31 := by
    have := sizes.ellRootLe
    omega
  rw [ring_add_eq_ok ellLow ellHigh (canonical .P0).1 (canonical .P0).2,
    raise_ok, pure_bind]
  refine (leads_querier_peer1
    ((dialog_scalar (canonical .P2).1).symm.tag _)).trans ?_
  refine (leads_querier_steward
    ((dialog_construct _ _).tag _)).trans ?_
  refine (leads_querier_steward
    ((dialog_equalityTest rfl rfl).tag _)).trans ?_
  refine (leads_querier_steward ((dialog_data ellHigh
    (reshared_snd_lt _ _ _)).symm.tag _)).trans ?_
  have bit : rootAnswer sizes dr < 2 ^ sizes.ellRoot := by
    have := Nat.one_lt_two_pow (n := sizes.ellRoot) (by omega)
    rw [rootAnswer]
    split <;> omega
  have opened := ring_add_reshared ellLow ellHigh bit
    (rand_mask_lt sizes.ellRoot v)
  rw [rootAnswer] at opened
  rw [opened]
  refine Leads.of_eq fun party => ?_
  cases party <;> rfl

/-- Every party of a query returns, and every message is read for the step it
is written for. -/
theorem system_leads
    (env : Env sizes)
    (usable : sizes.Usable)
    (faithful : env.json.Faithful sizes.ellAdd2)
    (coins : Coins sizes)
    (element : PyBytes)
    (hash_seed_list : Fin sizes.hfNum -> Bytes16)
    (root_node : ShrRep3Pid -> ShareVec sizes.bfSize)
    (s : ShrRep3Pid -> CrngState) :
    ∃ query_buf : ShrRep3Pid -> ShareVec sizes.bfSize,
      Leads (I := streamNet env.aes)
        (system env coins element hash_seed_list root_node s)
        (fun party => .ret (ends
          (rootAnswer sizes (Rep3.dotShares env.ccrh sizes.ellRoot query_buf
            root_node fun pid => (zeroShares env s pid).2))
          (nextState env s) party)) ∧
      (Synchronised s -> VectorHolds sizes.ellRoot query_buf
        ((List.finRange sizes.hfNum).map fun k =>
          selects sizes.bfSize sizes.ellRoot
            (circuitIndex env coins element.data hash_seed_list k)).sum) := by
  have ellLe : sizes.ellRoot ≤ 8 := by
    have := sizes.ellRootLe
    omega
  have fits : element.data.length < 2 ^ 64 :=
    element.fits.trans (by norm_num)
  obtain ⟨key0, key1, generated, windows⟩ :=
    keys_exist env coins element.data hash_seed_list usable
  obtain ⟨buf0, buf1, evaluated0, evaluated1, counted⟩ :=
    vectors_exist env coins element.data hash_seed_list usable faithful windows
      fun pid => (zeroShares env s pid).1
  let vec := beforeReshare (fun pid => (zeroShares env s pid).1) buf0 buf1
  let buf := fun pid : ShrRep3Pid =>
    ({ thisShare := vec pid, nxtShare := vec pid.NEXT } : ShareVec sizes.bfSize)
  refine ⟨buf, ?_, fun sync => ?_⟩
  · simp only [system, query, responseSteward, responsePeer, recvIdxShares,
      bind_assoc]
    refine (leads_querier_steward
      ((dialog_construct _ _).tag _)).trans ?_
    refine (leads_querier_peer0
      ((dialog_construct _ _).tag _)).trans ?_
    refine (leads_querier_steward
      ((dialog_shareBytes _ fits _).tag _)).trans ?_
    refine (rounds_lead usable coins element.data hash_seed_list _ _ _ _
      _).trans ?_
    simp only [zipIdx_map_finRange]
    refine (alphas_lead (ishare env coins element.data hash_seed_list)
      (passed env coins element.data hash_seed_list) (kept coins)
      (ishare_lt env coins element.data hash_seed_list)
      (passed_lt env coins element.data hash_seed_list) (kept_lt coins) _ _ _
      _ _).trans ?_
    rw [generated, raise_ok, pure_bind, zipIdx_map_finRange]
    refine (keys_lead faithful key0 key1 _ _ _ _ _).trans ?_
    simp only [evaluator]
    simp only [zeroShares] at evaluated0 evaluated1
    rw [evaluated0, evaluated1, raise_ok, raise_ok, pure_bind, pure_bind]
    refine (reshareVec_leads env vec (fun pid => (zeroShares env s pid).2) _ _
      _ _).trans ?_
    refine (dot_leads env buf root_node (fun pid => (zeroShares env s pid).2) _ _
      _ _).trans ?_
    exact root_leads env _ (fun pid => Rep3.dotShares_lt ellLe buf root_node
      (fun pid => (zeroShares env s pid).2) pid) _ _ _ (nextState env s)
  · obtain ⟨cancel, -⟩ := sync.crngVector env.ccrh ellLe sizes.bfSize
    rw [← counted cancel]
    exact { replicated := fun _ => rfl, total := rfl }

end Streams

end

end Query
end Mpmt
