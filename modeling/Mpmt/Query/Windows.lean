import Mpmt.Dpf.Correct
import Mpmt.Query.Rounds

/-!
# The windows of a key

Every key of a query is evaluated over the window that starts at the rotated
bias, so that the two peers obtain shares of the unit vector of the index.
-/

namespace Mpmt
namespace Query

open Network RingMath
open Dpf (Block Bytes16 KeyType GenRandomness Evaluator SharesPoint)
open Rep3 (ShareVec Rvector)

/-! ## The window of an evaluation -/

/-- The window that starts at `bg` and has `size` elements, wrapped around the
domain. -/
theorem window_size
    (bgLt : bg < N)
    (sizePositive : 1 ≤ size)
    (sizeLt : size < N) :
    Dpf.rangeLen N bg (((bg + size) % N + N - 1) % N) = size := by
  rcases Nat.lt_trichotomy (bg + size) N with inside | full | around
  · rw [Nat.mod_eq_of_lt inside]
    have last : (bg + size + N - 1) % N = bg + size - 1 := by
      have whole : bg + size + N - 1 = bg + size - 1 + N := by omega
      rw [whole, Nat.add_mod_right, Nat.mod_eq_of_lt (by omega)]
    rw [last, Dpf.rangeLen, if_neg (by omega)]
    omega
  · rw [full, Nat.mod_self, Nat.zero_add, Nat.mod_eq_of_lt (by omega),
      Dpf.rangeLen, if_neg (by omega)]
    omega
  · have start : (bg + size) % N = bg + size - N := by
      rw [Nat.mod_eq_sub_mod (by omega), Nat.mod_eq_of_lt (by omega)]
    have last : (bg + size - N + N - 1) % N = bg + size - N - 1 := by
      have whole : bg + size - N + N - 1 = bg + size - N - 1 + N := by omega
      rw [whole, Nat.add_mod_right, Nat.mod_eq_of_lt (by omega)]
    rw [start, last, Dpf.rangeLen, if_pos (by omega)]
    omega

/-- The rotated window hits the rotated point exactly at the index. -/
theorem window_hits
    (ishare passed kept : Nat)
    (tLt : t < N)
    (rLt : r < N)
    (idxLt : idx < N)
    (iLt : i < N)
    (isIshare : ishare = (idx + N - t) % N)
    (isPassed : passed = (t + N - r) % N)
    (isKept : kept = r) :
    ((0 + N - kept) % N + i) % N = (ishare + passed) % N ↔ i = idx := by
  subst isIshare isPassed isKept
  have rotated : ((idx + N - t) % N + (t + N - kept) % N) % N =
      (N - kept + idx) % N := by
    have whole : idx + N - t + (t + N - kept) = N - kept + idx + N := by omega
    rw [← Nat.add_mod, whole, Nat.add_mod_right]
  rw [rotated, Nat.mod_add_mod, Nat.zero_add]
  constructor
  · intro equal
    have cancelled : i ≡ idx [MOD N] := Nat.ModEq.add_left_cancel' _ equal
    exact Nat.ModEq.eq_of_lt_of_lt cancelled iLt idxLt
  · rintro rfl
    rfl

section

variable {sizes : Sizes} {env : Env sizes}

/-- What a peer adds to its query vector for one key. -/
def window
    (env : Env sizes)
    (party : Evaluator)
    (key : KeyType sizes.ellAdd2)
    (bias : Nat) : Rvector sizes.bfSize :=
  fun i => key.evalPoint env.ccrh sizes.ellRoot party
    (((0 + 2 ^ sizes.ellAdd2 - bias) % 2 ^ sizes.ellAdd2 + i.val) %
      2 ^ sizes.ellAdd2)

theorem eval_range_eq_ok
    (faithful : env.json.Faithful sizes.ellAdd2)
    (party : Evaluator)
    (key : KeyType sizes.ellAdd2)
    (buf : Rvector sizes.bfSize)
    (bgLt : bg < 2 ^ sizes.ellAdd2)
    (edLt : ed < 2 ^ sizes.ellAdd2)
    (size : Dpf.rangeLen (2 ^ sizes.ellAdd2) bg ed = sizes.bfSize)
    (scratch : Nat -> Bool -> Nat -> Block)
    (schedule : Schedule) :
    eval_range env party (env.json.dump key.to_json) buf bg ed scratch
        schedule = .ok fun i => key.evalPoint env.ccrh sizes.ellRoot party
          ((bg + i.val) % 2 ^ sizes.ellAdd2) := by
  have coresPositive : 1 ≤ sizes.cores := by
    have valid := sizes.coresValid
    simp only [List.mem_cons, List.not_mem_nil, or_false] at valid
    omega
  obtain ⟨threads, evaluated, fills⟩ := Dpf.rangeEval_fills env.ccrh key
    sizes.ellRoot party coresPositive scratch bgLt edLt
  rw [size] at evaluated fills
  rw [eval_range, parseKey_dump faithful key]
  dsimp only
  rw [if_pos sizes.coresValid, evaluated]
  dsimp only
  congr 1
  funext i
  rw [fills.buffer _ (schedule.perm threads), if_pos i.isLt]

theorem evalRound_eq_ok
    (usable : sizes.Usable)
    (faithful : env.json.Faithful sizes.ellAdd2)
    (party : Evaluator)
    (memory : PeerMemory sizes)
    (query_buf : ShareVec sizes.bfSize)
    (key : KeyType sizes.ellAdd2)
    (biasLt : bias < 2 ^ sizes.ellAdd2)
    (k : Fin sizes.hfNum) :
    evalRound env party memory query_buf
        ((env.json.dump key.to_json, bias), k) =
      .ok {
        thisShare := window env party key bias
        nxtShare := Rvector.add sizes.ellRoot query_buf.nxtShare
          (window env party key bias) } := by
  have low : 1 ≤ sizes.ellAdd2 := by
    have := sizes.ellAdd2Ge
    omega
  have domain : 1 < 2 ^ sizes.ellAdd2 := Nat.one_lt_two_pow (by omega)
  have start : (0 + 2 ^ sizes.ellAdd2 - bias) % 2 ^ sizes.ellAdd2 <
      2 ^ sizes.ellAdd2 := Nat.mod_lt _ (by omega)
  simp only [evalRound]
  rw [ring_sub_eq_ok low sizes.ellAdd2Le (by omega) biasLt]
  simp only [bind, Except.bind]
  rw [ring_add_eq_ok low sizes.ellAdd2Le start usable.2]
  simp only
  rw [ring_sub_eq_ok low sizes.ellAdd2Le (Nat.mod_lt _ (by omega)) domain]
  simp only
  rw [eval_range_eq_ok faithful party key _ start (Nat.mod_lt _ (by omega))
    (window_size start usable.1 usable.2)]
  rfl

/-- The windows of all keys are added to the query vector. -/
theorem evalRounds_eq_ok
    (usable : sizes.Usable)
    (faithful : env.json.Faithful sizes.ellAdd2)
    (party : Evaluator)
    (memory : PeerMemory sizes)
    (key : Fin sizes.hfNum -> KeyType sizes.ellAdd2)
    (bias : Fin sizes.hfNum -> Nat)
    (biasLt : ∀ k, bias k < 2 ^ sizes.ellAdd2)
    (ks : List (Fin sizes.hfNum))
    (query_buf : ShareVec sizes.bfSize) :
    ∃ query_buf' : ShareVec sizes.bfSize,
      (ks.map fun k => ((env.json.dump (key k).to_json, bias k), k)).foldlM
        (evalRound env party memory) query_buf = .ok query_buf' ∧
      query_buf'.nxtShare.val sizes.ellRoot =
        query_buf.nxtShare.val sizes.ellRoot +
          (ks.map fun k =>
            (window env party (key k) (bias k)).val sizes.ellRoot).sum := by
  have ellLe : sizes.ellRoot ≤ 8 := by
    have := sizes.ellRootLe
    omega
  induction ks generalizing query_buf with
  | nil => exact ⟨query_buf, rfl, by simp⟩
  | cons k ks inductionHypothesis =>
      simp only [List.map_cons, List.foldlM_cons]
      rw [evalRound_eq_ok usable faithful party memory query_buf (key k)
        (biasLt k) k]
      obtain ⟨query_buf', folded, total⟩ := inductionHypothesis
        { thisShare := window env party (key k) (bias k)
          nxtShare := Rvector.add sizes.ellRoot query_buf.nxtShare
            (window env party (key k) (bias k)) }
      refine ⟨query_buf', folded, ?_⟩
      rw [total, List.sum_cons, Rvector.val_add ellLe, add_assoc]

/-! ## The keys -/

/-- The Steward can generate a key for every point. -/
theorem gen_eq_ok
    (env : Env sizes)
    (random : GenRandomness)
    (alphaLt : alpha < 2 ^ sizes.ellAdd2) :
    ∃ key0 key1 : KeyType sizes.ellAdd2,
      gen env random alpha 1 =
        .ok (env.json.dump key0.to_json, env.json.dump key1.to_json) ∧
      SharesPoint env.ccrh sizes.ellRoot (UInt32.ofNat alpha) 1 key0 key1 := by
  have word : alpha < 2 ^ 32 := alphaLt.trans
    (Nat.pow_lt_pow_right (by omega)
      (by have := sizes.ellAdd2Le; omega))
  have whole : (UInt32.ofNat alpha).toNat = alpha :=
    UInt32.toNat_ofNat_of_lt' word
  have pointLt : (UInt32.ofNat alpha).toNat < 2 ^ sizes.ellAdd2 := by
    rwa [whole]
  obtain ⟨key0, key1, generated, shares⟩ := Dpf.gen_sharesPoint env.ccrh
    sizes.ellRoot sizes.ellAdd2Le (by have := sizes.ellRootLe; omega)
    random pointLt 1
  refine ⟨key0, key1, ?_, shares⟩
  rw [gen, generated]

theorem gens_eq_ok
    (random : Fin sizes.hfNum -> GenRandomness)
    (alpha : Fin sizes.hfNum -> Nat)
    (key0 key1 : Fin sizes.hfNum -> KeyType sizes.ellAdd2)
    (generated : ∀ k, gen env (random k) (alpha k) 1 =
      .ok (env.json.dump (key0 k).to_json, env.json.dump (key1 k).to_json))
    (ks : List (Fin sizes.hfNum)) :
    ((ks.map alpha).zip ks).mapM
        (fun (alpha, k) => gen env (random k) alpha 1) =
      .ok (ks.map fun k =>
        (env.json.dump (key0 k).to_json, env.json.dump (key1 k).to_json)) := by
  induction ks with
  | nil => rfl
  | cons k ks inductionHypothesis =>
      simp only [List.map_cons, List.zip_cons_cons, List.mapM_cons, generated,
        inductionHypothesis]
      rfl

/-- The unit vector of a position. -/
def selects (n ell idx : Nat) : Fin n -> ZMod (2 ^ ell) :=
  fun i => if i.val = idx then 1 else 0

/-- The two windows of a key are shares of the unit vector of its index. -/
theorem window_sum
    (usable : sizes.Usable)
    {key0 key1 : KeyType sizes.ellAdd2}
    (shares : SharesPoint env.ccrh sizes.ellRoot
      (UInt32.ofNat ((ishare + passed) % 2 ^ sizes.ellAdd2)) 1 key0 key1)
    (hits : ∀ i < 2 ^ sizes.ellAdd2,
      ((0 + 2 ^ sizes.ellAdd2 - bias) % 2 ^ sizes.ellAdd2 + i) %
          2 ^ sizes.ellAdd2 =
        (ishare + passed) % 2 ^ sizes.ellAdd2 ↔ i = idx) :
    (window env .EVALUATOR_0 key0 bias).val sizes.ellRoot +
        (window env .EVALUATOR_1 key1 bias).val sizes.ellRoot =
      selects sizes.bfSize sizes.ellRoot idx := by
  funext i
  have iLt : i.val < 2 ^ sizes.ellAdd2 := i.isLt.trans usable.2
  have domain : 0 < 2 ^ sizes.ellAdd2 := by positivity
  have word : (ishare + passed) % 2 ^ sizes.ellAdd2 < 2 ^ 32 :=
    (Nat.mod_lt _ domain).trans (Nat.pow_lt_pow_right (by omega)
      (by have := sizes.ellAdd2Le; omega))
  have whole : (UInt32.ofNat ((ishare + passed) %
      2 ^ sizes.ellAdd2)).toNat = (ishare + passed) % 2 ^ sizes.ellAdd2 :=
    UInt32.toNat_ofNat_of_lt' word
  have point := shares
    (((0 + 2 ^ sizes.ellAdd2 - bias) % 2 ^ sizes.ellAdd2 + i.val) %
      2 ^ sizes.ellAdd2) (Nat.mod_lt _ domain)
  rw [whole] at point
  simp only [hits i.val iLt] at point
  simp only [Pi.add_apply, Rvector.val, window, ringVal, selects]
  rw [← Nat.cast_add, ← ZMod.natCast_mod, point]
  split <;> simp

end

end Query
end Mpmt
