import Mpmt.Query.Correct

/-!
# The message streams stay aligned

They do exactly when `Emp2::mod` accepts the size of the filter.  Otherwise the
Querier and the Steward end in the first round and both peers wait for an index
share for ever.
-/

namespace Mpmt
namespace Query
namespace Streams

open Network
open Dpf (Block Bytes16)
open Rep3 (ShrRep3Pid ShareVec CrngState)

section

variable {sizes : Sizes} (env : Env sizes)

/-! ## A size that is refused -/

/-- The Querier and the Steward have raised, and the peers wait for the
Querier. -/
private structure Blocked
    (env : Env sizes)
    (procs : Party -> Proc (streamNet env.aes) Outcome) : Prop where
  querier : procs .QUERIER = .throw (some .invalid_argument)
  steward : procs .STEWARD = .throw (some .invalid_argument)
  peer0 : ∃ next, procs .PEER0 = .recv .QUERIER 4 next
  peer1 : ∃ next, procs .PEER1 = .recv .QUERIER (BYTES sizes.ellAdd2) next

private theorem Blocked.stuck
    {procs : Party -> Proc (streamNet env.aes) Outcome}
    (blocked : Blocked env procs) :
    Stuck (start (I := streamNet env.aes) procs) := by
  have empty : ∀ {party peer count next d},
      procs party = .recv peer count next -> 0 < count ->
        ¬Step (I := streamNet env.aes) party
          (start (I := streamNet env.aes) procs) d := by
    intro party peer count next d waits positive step
    cases step with
    | send isNext => cases waits.symm.trans isNext
    | recv isNext available =>
        cases waits.symm.trans isNext
        exact absurd (positive.trans_le available) (Nat.lt_irrefl 0)
    | join isFirst _ _ _ => cases waits.symm.trans isFirst
  intro party d
  cases party with
  | QUERIER => exact Step.of_ended (by
      show (procs .QUERIER).Ended
      rw [blocked.querier]
      trivial)
  | STEWARD => exact Step.of_ended (by
      show (procs .STEWARD).Ended
      rw [blocked.steward]
      trivial)
  | PEER0 =>
      obtain ⟨next, waits⟩ := blocked.peer0
      exact empty waits (by decide)
  | PEER1 =>
      obtain ⟨next, waits⟩ := blocked.peer1
      refine empty waits ?_
      have := sizes.ellAdd2Ge
      unfold BYTES
      omega

private theorem Blocked.fine
    {procs : Party -> Proc (streamNet env.aes) Outcome}
    (blocked : Blocked env procs) :
    ¬Misaligned (start (I := streamNet env.aes) procs) := by
  rintro ⟨party, failed⟩
  obtain ⟨next, waits⟩ := blocked.peer0
  obtain ⟨next', waits'⟩ := blocked.peer1
  cases party with
  | QUERIER => cases blocked.querier.symm.trans failed
  | STEWARD => cases blocked.steward.symm.trans failed
  | PEER0 => cases waits.symm.trans failed
  | PEER1 => cases waits'.symm.trans failed

/-- Every schedule leads there when the circuits refuse the modulus. -/
private theorem system_blocks
    (unusable : ¬sizes.Usable)
    (coins : Coins sizes)
    (element : PyBytes)
    (hash_seed_list : Fin sizes.hfNum -> Bytes16)
    (root_node : ShrRep3Pid -> ShareVec sizes.bfSize)
    (s : ShrRep3Pid -> CrngState) :
    ∃ last, Leads (I := streamNet env.aes)
      (system env coins element hash_seed_list root_node s) last ∧
        Blocked env last := by
  have fits : element.data.length < 2 ^ 64 :=
    element.fits.trans (by norm_num)
  obtain ⟨k, ks, rounds⟩ : ∃ k ks, List.finRange sizes.hfNum = k :: ks :=
    List.exists_cons_of_length_pos
      (by rw [List.length_finRange]; exact sizes.hfNumPositive)
  simp only [system, query, responseSteward, responsePeer, recvIdxShares,
    rounds, List.forM_cons, List.mapM_cons, queryRound, queryIndex,
    stewardRound, mod_eq_throw unusable, bind_assoc]
  refine (leads_querier_steward
    ((dialog_construct _ _).tag _)).before ?_
  refine (leads_querier_peer0
    ((dialog_construct _ _).tag _)).before ?_
  refine (leads_querier_steward
    ((dialog_shareBytes _ fits _).tag _)).before ?_
  refine (leads_querier_steward ((dialog_shareBytes
    (List.ofFn (hash_seed_list k)) (by simp)
    (coins.steward.keyMask k)).symm.tag _)).before ?_
  refine (leads_querier_steward
    ((dialog_hash (by simp [length_localShare])).tag _)).before ?_
  exact ⟨_, Leads.refl _, {
    querier := rfl
    steward := rfl
    peer0 := ⟨_, rfl⟩
    peer1 := ⟨_, rfl⟩ }⟩

/-! ## All sizes -/

/-- The schedule does not matter. -/
private theorem not_aligned_of_not_usable
    (unusable : ¬sizes.Usable)
    (coins : Coins sizes)
    (element : PyBytes)
    (hash_seed_list : Fin sizes.hfNum -> Bytes16)
    (root_node : ShrRep3Pid -> ShareVec sizes.bfSize)
    (s : ShrRep3Pid -> CrngState) :
    ¬Aligned (I := queryNet env.aes)
      (system env coins element hash_seed_list root_node s)
      (Query.system env coins element hash_seed_list root_node s) := by
  obtain ⟨last, leads, blocked⟩ := system_blocks env unusable coins element
    hash_seed_list root_node s
  have waiting : ¬(last .PEER0).Ended := by
    obtain ⟨next, waits⟩ := blocked.peer0
    rw [waits]
    exact id
  exact not_aligned_of_leads leads (blocked.stuck env) (blocked.fine env)
    (tracks_system env coins element hash_seed_list root_node s) waiting

/-- The message streams of a query are aligned exactly when the modulus of its
circuits is one that they accept.  Then, whatever the parties draw and find in
memory and under every schedule, each receive consumes the message that was
written for its step, nothing is left in a channel when all four have ended,
and some party can move as long as one has not. -/
theorem streams_aligned_iff
    (faithful : env.json.Faithful sizes.ellAdd2)
    (coins : Coins sizes)
    (element : PyBytes)
    (hash_seed_list : Fin sizes.hfNum -> Bytes16)
    (root_node : ShrRep3Pid -> ShareVec sizes.bfSize)
    (s : ShrRep3Pid -> CrngState) :
    Aligned (I := queryNet env.aes)
      (system env coins element hash_seed_list root_node s)
      (Query.system env coins element hash_seed_list root_node s) ↔
      0 < sizes.bfSize ∧ sizes.bfSize < 2 ^ sizes.ellAdd2 := by
  constructor
  · intro aligned
    by_contra unusable
    exact not_aligned_of_not_usable env unusable coins element hash_seed_list
      root_node s aligned
  · intro usable
    obtain ⟨query_buf, leads, -⟩ := system_leads env usable faithful coins
      element hash_seed_list root_node s
    exact Aligned.of_leads leads
      (tracks_system env coins element hash_seed_list root_node s)

/-- A filter of three positions. -/
theorem streams_aligned_iff_sample :
    Aligned (I := queryNet (sampleEnv sampleParams).aes)
      (system (sampleEnv sampleParams) (sampleCoins sampleParams)
        { data := [1], fits := by decide } (fun _ _ => 0) sampleRoot
        sampleState)
      (Query.system (sampleEnv sampleParams) (sampleCoins sampleParams)
        { data := [1], fits := by decide } (fun _ _ => 0) sampleRoot
        sampleState) :=
  (streams_aligned_iff (sampleEnv sampleParams)
    (compactJson_faithful (by decide)) (sampleCoins sampleParams)
    { data := [1], fits := by decide } (fun _ _ => 0) sampleRoot
    sampleState).mpr sampleParams.usable

end

/-- A root of zeros. -/
def zeroRoot (_ : ShrRep3Pid) : ShareVec fullSizes.bfSize where
  thisShare _ := 0
  nxtShare _ := 0

/-- The filter fills the whole ring, so that its size is no modulus of it. -/
theorem not_aligned_full :
    ¬Aligned (I := queryNet (sampleEnv fullSizes).aes)
      (system (sampleEnv fullSizes) (sampleCoins fullSizes)
        { data := [1], fits := by decide } (fun _ _ => 0) zeroRoot sampleState)
      (Query.system (sampleEnv fullSizes) (sampleCoins fullSizes)
        { data := [1], fits := by decide } (fun _ _ => 0) zeroRoot
        sampleState) :=
  not_aligned_of_not_usable _ (fun usable => absurd usable.2 (by decide)) _ _ _ _
    _

end Streams
end Query
end Mpmt
