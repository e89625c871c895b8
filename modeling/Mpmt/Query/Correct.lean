import Mpmt.Dpf.JsonText
import Mpmt.Query.Execution

/-!
# The answer of a query

The two evaluated windows of a key add up to the unit vector of its index, so
the replicated query vector counts how often each position is selected and its
scalar product with the root counts the hits.  The answer is 1 exactly when
every selected position is a hit.
-/

namespace Mpmt
namespace Query

open Network RingMath
open Dpf (Bytes16 KeyType)
open Rep3 (ShrRep3Pid ShareVec CrngState Synchronised sum3 VectorHolds
  ScalarHolds)

/-! ## The selected positions -/

section

variable {params : Params}

/-- The position of the filter that a seed selects for an element. -/
def position (env : Env params) (element : List UInt8) (seed : Bytes16) : Nat :=
  ((hashAESDM env.aes element (List.ofFn seed) params.ellAdd2).toOption.getD
    0) % params.bfSize

theorem position_lt
    (env : Env params)
    (element : List UInt8)
    (seed : Bytes16) : position env element seed < params.bfSize :=
  Nat.mod_lt _ params.bfSizePositive

/-- The position of the filter that round `k` looks at. -/
def index
    (env : Env params)
    (element : PyBytes)
    (hash_seed_list : Fin params.hfNum -> Bytes16)
    (k : Fin params.hfNum) : Fin params.bfSize :=
  ⟨position env element.data (hash_seed_list k), position_lt _ _ _⟩

/-- The circuits come to the position that the hash selects. -/
theorem circuitIndex_eq_index
    (env : Env params)
    (coins : Coins params)
    {element : PyBytes}
    (nonempty : element.data ≠ [])
    (seeds : Fin params.hfNum -> Bytes16)
    (k : Fin params.hfNum) :
    circuitIndex env coins element.data seeds k =
      (index env element seeds k).val := by
  show _ = position env element.data (seeds k)
  rw [circuitIndex, position, hashAESDM_eq_ok env.aes
      (by have := params.ellAdd2Ge; omega) params.ellAdd2Le (by simp),
    circuitHash_eq_dmLoop env.aes params.ellAdd2Le
      (by simp [length_localShare]) (by simp [length_localShare])
      (xorBytes_localShare element.data coins.querier.elementMask)
      ((xorBytes_comm _ _).trans (xorBytes_localShare _ _)) nonempty]
  rfl

/-- Set membership as the filter with root `R` has it. -/
def answer
    (env : Env params)
    (element : PyBytes)
    (hash_seed_list : Fin params.hfNum -> Bytes16)
    (R : Fin params.bfSize -> ZMod (2 ^ params.ellRoot)) : Nat :=
  if ∀ k, R (index env element hash_seed_list k) = 1 then 1 else 0

end

/-! ## The count of hits -/

/-- The scalar product of the selected unit vectors with the root. -/
theorem sum_hits
    (root : Fin n -> ZMod (2 ^ ell))
    (idx : Fin h -> Fin n) :
    (∑ i, ((List.finRange h).map fun k =>
      selects n ell (idx k).val).sum i * root i) = ∑ k, root (idx k) := by
  have counted : ∀ i, ((List.finRange h).map fun k =>
      selects n ell (idx k).val).sum i = ∑ k, if i = idx k then 1 else 0 := by
    intro i
    rw [← List.ofFn_eq_map, List.sum_ofFn, Finset.sum_apply]
    simp only [selects, Fin.ext_iff]
  simp only [counted, Finset.sum_mul, ite_mul, one_mul, zero_mul]
  rw [Finset.sum_comm]
  simp

/-- Zeros and ones add up to their number exactly when all of them are ones. -/
theorem sum_eq_count_iff
    (hLt : h < 2 ^ ell)
    (value : Fin h -> ZMod (2 ^ ell))
    (bits : ∀ k, value k = 0 ∨ value k = 1)
    (ellPositive : 1 ≤ ell) :
    (∑ k, value k) = (h : ZMod (2 ^ ell)) ↔ ∀ k, value k = 1 := by
  have : Fact (1 < 2 ^ ell) := ⟨Nat.one_lt_two_pow (by omega)⟩
  have counted : (∑ k, value k) =
      ((Finset.univ.filter fun k => value k = 1).card : ZMod (2 ^ ell)) := by
    rw [Finset.card_filter, Nat.cast_sum]
    refine Finset.sum_congr rfl fun k _ => ?_
    rcases bits k with zero | one
    · simp [zero]
    · simp [one]
  have most : (Finset.univ.filter fun k => value k = 1).card ≤ h :=
    (Finset.card_filter_le _ _).trans (by simp)
  rw [counted, ZMod.natCast_eq_natCast_iff]
  constructor
  · intro congruent k
    have all : (Finset.univ.filter fun k => value k = 1).card =
        (Finset.univ : Finset (Fin h)).card := by
      rw [Finset.card_univ, Fintype.card_fin]
      exact Nat.ModEq.eq_of_lt_of_lt congruent (by omega) hLt
    exact Finset.card_filter_eq_iff.mp all k (Finset.mem_univ k)
  · intro ones
    have all : (Finset.univ.filter fun k => value k = 1) = Finset.univ :=
      Finset.filter_true_of_mem fun k _ => ones k
    rw [all, Finset.card_univ, Fintype.card_fin]

/-- The Querier and the Steward hold additive shares of the scalar product. -/
theorem root_shares
    {out : ShrRep3Pid -> Rep3.ShareScalar}
    (holds : ScalarHolds ell out value) :
    ((((out .P2).thisShare.toNat + ((out .P0).thisShare.toNat +
      (out .P0).nxtShare.toNat) % 2 ^ ell) % 2 ^ ell : Nat) :
        ZMod (2 ^ ell)) = value := by
  rw [← holds.total, holds.replicated .P0]
  simp only [ZMod.natCast_mod, Nat.cast_add, sum3, wordVal, ShrRep3Pid.NEXT]
  ring

/-- The equality test tells whether all values are ones. -/
theorem rootAnswer_eq
    {params : Params}
    {out : ShrRep3Pid -> Rep3.ShareScalar}
    {value : Fin params.hfNum -> ZMod (2 ^ params.ellRoot)}
    (bits : ∀ k, value k = 0 ∨ value k = 1)
    (holds : ScalarHolds params.ellRoot out (∑ k, value k)) :
    rootAnswer params out = if ∀ k, value k = 1 then 1 else 0 := by
  have ellLow : 1 ≤ params.ellRoot := by
    have := params.ellRootGe
    omega
  have count : ((out .P2).thisShare.toNat + ((out .P0).thisShare.toNat +
      (out .P0).nxtShare.toNat) % 2 ^ params.ellRoot) % 2 ^ params.ellRoot =
      (0 + params.hfNum) % 2 ^ params.ellRoot ↔ ∀ k, value k = 1 := by
    rw [← sum_eq_count_iff params.hfNumLt value bits ellLow,
      ← root_shares holds, ZMod.natCast_eq_natCast_iff, Nat.ModEq,
      Nat.mod_mod, Nat.zero_add]
  simp only [rootAnswer, count]

/-- The query is correct.  Whatever is drawn, however the evaluating threads
write, and under every schedule, no party gets stuck, the Querier ends with 1
when the root is 1 at every selected position and with 0 otherwise, and the
Agents stay synchronised. -/
theorem query_correct
    (params : Params)
    (env : Env params)
    (faithful : env.json.Faithful params.ellAdd2)
    (coins : Coins params)
    (element : PyBytes)
    (nonempty : element.data ≠ [])
    (hash_seed_list : Fin params.hfNum -> Bytes16)
    (root_node : ShrRep3Pid -> ShareVec params.bfSize)
    (R : Fin params.bfSize -> ZMod (2 ^ params.ellRoot))
    (holds : VectorHolds params.ellRoot root_node R)
    (bits : ∀ i, R i = 0 ∨ R i = 1)
    (s : ShrRep3Pid -> CrngState)
    (sync : Synchronised s) :
    ∃ s', Synchronised s' ∧ ∃ length, ∀ steps d,
      Run (I := queryNet env.aes) steps
        (start (system env coins element hash_seed_list root_node s)) d ->
      ∃ rest, length = steps + rest ∧
        Run (I := queryNet env.aes) rest d
          (returned (ends (answer env element hash_seed_list R) s')) := by
  have ellLe : params.ellRoot ≤ 8 := by
    have := params.ellRootLe
    omega
  obtain ⟨query_buf, leads, holdsBuf⟩ := Streams.system_leads env
    params.usable faithful coins element hash_seed_list root_node s
  obtain ⟨-, sync₁⟩ := sync.crngVector env.ccrh ellLe params.bfSize
  obtain ⟨-, sync₂⟩ := sync₁.crng env.ccrh ellLe
  have counted := Rep3.dotShares_hold env.ccrh sync₁ ellLe (holdsBuf sync) holds
  simp only [circuitIndex_eq_index env coins nonempty, sum_hits] at counted
  refine ⟨nextState env s, sync₂, ?_⟩
  rw [answer, ← rootAnswer_eq (fun k => bits _) counted]
  exact (leads.of_tracks
    (Streams.tracks_system env coins element hash_seed_list root_node s)).every_run

/-! ## A query for one element -/

/-- The JSON library that writes documents without white space. -/
def compactJson : JsonLibrary where
  dump := Dpf.Json.dump
  parse := Dpf.Json.parse

theorem compactJson_faithful (ellInLe : ellIn ≤ 31) :
    compactJson.Faithful ellIn where
  parse_dump := KeyType.parse_dump_to_json
  size_lt key := key.length_dump_to_json.trans_lt (by omega)

/-- A filter of three positions with two hash functions. -/
def sampleParams : Params where
  bfSize := 3
  ellAdd2 := 13
  hfNum := 2
  ellRoot := 2
  cores := 2
  bfSizePositive := by decide
  bfSizeLt := by decide
  hfNumPositive := by decide
  hfNumLt := by decide
  ellAdd2Ge := by decide
  ellAdd2Le := by decide
  ellRootGe := by decide
  ellRootLe := by decide
  coresValid := by decide

/-- What `bf_param(1024, 2.142, -2)` returns. -/
def fullSizes : Sizes where
  bfSize := 8192
  ellAdd2 := 13
  hfNum := 6
  ellRoot := 3
  cores := 2
  hfNumPositive := by decide
  ellAdd2Ge := by decide
  ellAdd2Le := by decide
  ellRootGe := by decide
  ellRootLe := by decide
  coresValid := by decide

/-- Stand-ins for the two ciphers. -/
def sampleEnv (sizes : Sizes) : Env sizes where
  aes key block := key + block
  ccrh key block := key + block
  json := compactJson
  freshKey :=
    { stOrigin := 0, cws := fun _ _ => 0, cwLast := 0, keyL := fun _ => 0
      keyR := fun _ => 0 }

/-- An evaluating Agent whose threads write one after the other. -/
def sampleMemory (sizes : Sizes) : PeerMemory sizes where
  buf _ := 3
  scratch _ _ _ _ := 0
  schedule _ := { order := Dpf.allWrites, perm := fun _ => .refl _ }

/-- Some draw of all random bytes. -/
def sampleCoins (sizes : Sizes) : Coins sizes where
  querier :=
    { stewardSeed := fun _ => 1, peer0Seed := fun _ => 2
      rootSeed := fun _ => 3, elementMask := fun _ => 77
      hashMask := fun _ => 123456, modMask := fun _ => 7001
      shareMask := fun _ => 40000, testMask := 3 }
  steward :=
    { keyMask := fun _ _ => 9, hashMask := fun _ => 5, modMask := fun _ => 6
      gen := fun _ => { stRoot0 := 5#128, stRoot1 := 9#128
                        keyL := fun _ => 1, keyR := fun _ => 2 }
      testMask := 1 }
  peer0 := sampleMemory sizes
  peer1 := sampleMemory sizes

/-- A root that holds only its middle position, all of it at STEWARD. -/
def sampleRoot : ShrRep3Pid -> ShareVec 3
  | .P0 => { thisShare := ![0, 1, 0], nxtShare := ![0, 0, 0] }
  | .P1 => { thisShare := ![0, 0, 0], nxtShare := ![0, 0, 0] }
  | .P2 => { thisShare := ![0, 0, 0], nxtShare := ![0, 1, 0] }

/-- Three instances right after their key exchange. -/
def sampleState (_ : ShrRep3Pid) : CrngState where
  cRngId := { lo := 0, hi := 0 }
  keyThis := 7
  keyPrev := 7
  crngCache _ := 0
  crngPtr := Rep3.BLOCK_CAPACITY * 8
  crngIsXor := false

/-- Both seeds select the middle position for this element, so it is a
member. -/
theorem query_correct_sample :
    answer (sampleEnv sampleParams) { data := [1], fits := by decide } (fun _ _ => 0)
      ![0, 1, 0] = 1 ∧
    ∃ s', Synchronised s' ∧ ∃ length, ∀ steps d,
      Run (I := queryNet (sampleEnv sampleParams).aes) steps
        (start (system (sampleEnv sampleParams) (sampleCoins sampleParams)
          { data := [1], fits := by decide } (fun _ _ => 0) sampleRoot
          sampleState)) d ->
      ∃ rest, length = steps + rest ∧
        Run (I := queryNet (sampleEnv sampleParams).aes) rest d
          (returned (ends (answer (sampleEnv sampleParams)
            { data := [1], fits := by decide } (fun _ _ => 0) ![0, 1, 0])
            s')) := by
  refine ⟨?_, query_correct sampleParams (sampleEnv sampleParams)
    (compactJson_faithful (by decide)) (sampleCoins sampleParams)
    { data := [1], fits := by decide } (by decide) (fun _ _ => 0) sampleRoot
    ![0, 1, 0] ?_ ?_ sampleState ?_⟩
  · have middle : position (sampleEnv sampleParams) [1] (fun _ => 0) = 1 := by
      rw [position, hashAESDM_eq_ok _ (by decide) (by decide) (by decide),
        dmLoop_eq_foldl]
      decide +kernel
    have selected : ∀ k, index (sampleEnv sampleParams)
        { data := [1], fits := by decide } (fun _ _ => 0) k =
          ⟨1, by decide⟩ := fun _ => Fin.ext middle
    refine if_pos fun k => ?_
    rw [selected]
    rfl
  · refine { replicated := fun pid => by cases pid <;> rfl, total := ?_ }
    funext i
    fin_cases i <;> rfl
  · intro i
    fin_cases i
    · exact .inl rfl
    · exact .inr rfl
    · exact .inl rfl
  · exact {
      id := fun _ => rfl
      ptr := fun _ => rfl
      isXor := fun _ => rfl
      keys := fun _ => rfl
      cache := fun inside => absurd inside (Nat.lt_irrefl _) }

end Query
end Mpmt
