import Mpmt.Dpf.Gen

/-!
# Correctness of generated keys

The two walks of a generated key pair carry equal states as soon as they leave
the path to `alpha`, and states with opposite control bits while they are on
it.  The last correction word then turns the two leaf outputs into shares of
`beta` at `alpha` and of zero everywhere else.
-/

namespace Mpmt
namespace Dpf

open RingMath

variable (ccrh : Block -> Block -> Block)

/-! ## One round of the generator -/

section Layer

variable (H : Dir -> Block -> Block) (ai : Dir) (layer : Nat)
variable (state : GenState)

/-- The correction word written at the current layer. -/
private theorem genLayer_cws :
    (genLayer H ai layer state).cws layer = fun dir =>
      ((H (!ai) state.st0 ^^^ H (!ai) state.st1) &&& STDMASK_NOT_MSB1) ^^^
        cbitMask ((if dir then ai else !ai) ^^
          (getMsb (H dir state.st0) ^^ getMsb (H dir state.st1))) := by
  funext dir
  cases dir <;> simp [genLayer]

/-- The correction word of the lost direction is the difference of the two
hashes there. -/
theorem genLayer_cws_lose :
    (genLayer H ai layer state).cws layer (!ai) =
      H (!ai) state.st0 ^^^ H (!ai) state.st1 := by
  rw [genLayer_cws]
  have control : ((if (!ai) = true then ai else !ai) : Bool) = false := by
    cases ai <;> rfl
  simp only [control, Bool.false_xor, ← getMsb_xor]
  exact seed_xor_cbitMask _

/-- The correction word of the kept direction makes the control bits differ. -/
theorem getMsb_genLayer_cws_keep :
    getMsb ((genLayer H ai layer state).cws layer ai) =
      !(getMsb (H ai state.st0) ^^ getMsb (H ai state.st1)) := by
  rw [genLayer_cws]
  have control : ((if ai = true then ai else !ai) : Bool) = true := by
    cases ai <;> rfl
  simp [control]

theorem genLayer_st0 :
    (genLayer H ai layer state).st0 =
      H ai state.st0 ^^^ (mulMask (getMsb state.st0) &&&
        (genLayer H ai layer state).cws layer ai) := by
  simp [genLayer, BitVec.and_comm, BitVec.xor_comm]

theorem genLayer_st1 :
    (genLayer H ai layer state).st1 =
      H ai state.st1 ^^^ (mulMask (getMsb state.st1) &&&
        (genLayer H ai layer state).cws layer ai) := by
  simp [genLayer, BitVec.and_comm, BitVec.xor_comm]

/-- Opposite control bits stay opposite along the path. -/
theorem genLayer_control
    (opposite : getMsb state.st1 = !getMsb state.st0) :
    getMsb (genLayer H ai layer state).st1 =
      !getMsb (genLayer H ai layer state).st0 := by
  rw [genLayer_st0, genLayer_st1, getMsb_xor, getMsb_xor, opposite]
  have keep := getMsb_genLayer_cws_keep H ai layer state
  generalize (genLayer H ai layer state).cws layer ai = stCw at keep ⊢
  cases getMsb state.st0 <;>
    simp only [keep, Bool.not_true, Bool.not_false, mulMask_true_and,
      mulMask_false_and, getMsb_zero] <;>
    cases getMsb (H ai state.st0) <;>
    cases getMsb (H ai state.st1) <;>
    rfl

end Layer

/-! ## The loop -/

/-- Later rounds do not touch a correction word already written. -/
theorem genLoop_cws_of_lt
    (H : Dir -> Block -> Block)
    (alpha : UInt32)
    (initial : GenState)
    (before : layer < rounds) :
    (genLoop H ellIn alpha initial rounds).cws layer =
      (genLoop H ellIn alpha initial (layer + 1)).cws layer := by
  induction rounds with
  | zero => omega
  | succ rounds inductionHypothesis =>
      by_cases last : layer = rounds
      · subst layer
        rfl
      · have earlier : layer < rounds := by omega
        rw [← inductionHypothesis earlier]
        simp [genLoop, genLayer, last]

theorem genLoop_control
    (ellIn : Nat)
    (H : Dir -> Block -> Block)
    (alpha : UInt32)
    (initial : GenState)
    (opposite : getMsb initial.st1 = !getMsb initial.st0)
    (rounds : Nat) :
    getMsb (genLoop H ellIn alpha initial rounds).st1 =
      !getMsb (genLoop H ellIn alpha initial rounds).st0 := by
  induction rounds with
  | zero => exact opposite
  | succ layer inductionHypothesis =>
      exact genLayer_control H _ layer _ inductionHypothesis

/-! ## The two walks -/

/-- A walk depends only on the bits it has read. -/
theorem KeyType.walk_congr
    (key : KeyType ellIn)
    {point target layer : Nat}
    (agree : ∀ earlier < layer,
      pathBit ellIn point earlier = pathBit ellIn target earlier) :
    key.walk ccrh point layer = key.walk ccrh target layer := by
  induction layer with
  | zero => rfl
  | succ layer inductionHypothesis =>
      have prior := inductionHypothesis
        fun earlier before => agree earlier (by omega)
      rw [KeyType.walk, KeyType.walk, prior, agree layer (by omega)]

/-- The path bits determine a point of the domain. -/
theorem eq_of_pathBit_eq
    (pointLt : point < 2 ^ ellIn)
    (targetLt : target < 2 ^ ellIn)
    (agree : ∀ layer < ellIn,
      pathBit ellIn point layer = pathBit ellIn target layer) :
    point = target := by
  apply Nat.eq_of_testBit_eq
  intro bit
  by_cases inside : bit < ellIn
  · have same := agree (ellIn - 1 - bit) (by omega)
    have position : ellIn - 1 - (ellIn - 1 - bit) = bit := by omega
    simpa only [pathBit, position] using same
  · have above : 2 ^ ellIn ≤ 2 ^ bit :=
      Nat.pow_le_pow_right (by omega) (by omega)
    rw [Nat.testBit_lt_two_pow (by omega), Nat.testBit_lt_two_pow (by omega)]

/-- What the walks need to know about a key pair: both keys carry the hash
keys and the correction words of one run of the generation loop. -/
structure GeneratedPair
    (ellIn : Nat)
    (alpha : UInt32)
    (initial : GenState)
    (key0 key1 : KeyType ellIn) : Prop where
  origin0 : key0.stOrigin = initial.st0
  origin1 : key1.stOrigin = initial.st1
  keyL : key1.keyL = key0.keyL
  keyR : key1.keyR = key0.keyR
  cwLast : key1.cwLast = key0.cwLast
  cws : key1.cws = key0.cws
  opposite : getMsb initial.st1 = !getMsb initial.st0
  fromLoop : ∀ layer : Fin ellIn,
    key0.cws layer =
      (genLoop (key0.hash ccrh) ellIn alpha initial ellIn).cws layer.val

namespace GeneratedPair

variable {ccrh}
variable {ellIn : Nat} {alpha : UInt32} {initial : GenState}
variable {key0 key1 : KeyType ellIn}

/-- Both keys hash alike. -/
theorem hash_eq (pair : GeneratedPair ccrh ellIn alpha initial key0 key1) :
    key1.hash ccrh = key0.hash ccrh := by
  funext dir
  simp [KeyType.hash, pair.keyL, pair.keyR]

theorem cw_eq_loop
    (pair : GeneratedPair ccrh ellIn alpha initial key0 key1)
    (inside : layer < ellIn) :
    key0.cw layer =
      (genLoop (key0.hash ccrh) ellIn alpha initial (layer + 1)).cws layer := by
  funext dir
  rw [key0.cw_of_lt inside, pair.fromLoop ⟨layer, inside⟩,
    genLoop_cws_of_lt _ alpha initial inside]

theorem child_eq
    (pair : GeneratedPair ccrh ellIn alpha initial key0 key1)
    (state : Block)
    (layer : Nat)
    (dir : Dir) :
    key1.child ccrh state layer dir = key0.child ccrh state layer dir := by
  simp [KeyType.child, KeyType.cw, pair.hash_eq, pair.cws]

/-- Along `alpha` the walks follow the states of the generation loop. -/
theorem walk_alpha
    (pair : GeneratedPair ccrh ellIn alpha initial key0 key1)
    (inside : layer ≤ ellIn) :
    key0.walk ccrh alpha.toNat layer =
        (genLoop (key0.hash ccrh) ellIn alpha initial layer).st0 ∧
      key1.walk ccrh alpha.toNat layer =
        (genLoop (key0.hash ccrh) ellIn alpha initial layer).st1 := by
  induction layer with
  | zero => exact ⟨pair.origin0, pair.origin1⟩
  | succ layer inductionHypothesis =>
      obtain ⟨walk0, walk1⟩ := inductionHypothesis (by omega)
      constructor
      · rw [KeyType.walk, walk0, KeyType.child, pair.cw_eq_loop (by omega)]
        exact (genLayer_st0 _ _ _ _).symm
      · rw [KeyType.walk, walk1, pair.child_eq, KeyType.child,
          pair.cw_eq_loop (by omega)]
        exact (genLayer_st1 _ _ _ _).symm

/-- The two children in the lost direction are equal. -/
theorem child_lose
    (pair : GeneratedPair ccrh ellIn alpha initial key0 key1)
    (inside : layer < ellIn) :
    key1.child ccrh
        (genLoop (key0.hash ccrh) ellIn alpha initial layer).st1 layer
        (!alphaBit ellIn alpha layer) =
      key0.child ccrh
        (genLoop (key0.hash ccrh) ellIn alpha initial layer).st0 layer
        (!alphaBit ellIn alpha layer) := by
  have opposite := genLoop_control ellIn (key0.hash ccrh) alpha
    initial pair.opposite layer
  rw [pair.child_eq, KeyType.child, KeyType.child, pair.cw_eq_loop inside,
    genLoop, genLayer_cws_lose, opposite]
  cases getMsb (genLoop (key0.hash ccrh) ellIn alpha initial layer).st0 with
  | false => simp [BitVec.xor_comm]
  | true => simp

/-- The walks to a point are on the path to `alpha` until the first bit in
which the point differs, and equal from there on. -/
theorem walk_eq_or_on_path
    (pair : GeneratedPair ccrh ellIn alpha initial key0 key1)
    (point : Nat)
    (inside : layer ≤ ellIn) :
    key1.walk ccrh point layer = key0.walk ccrh point layer ∨
      (∀ earlier < layer,
        pathBit ellIn point earlier =
          pathBit ellIn alpha.toNat earlier) := by
  induction layer with
  | zero => exact .inr fun earlier before => absurd before (by omega)
  | succ layer inductionHypothesis =>
      rcases inductionHypothesis (by omega) with equal | onPath
      · left
        rw [KeyType.walk, KeyType.walk, pair.child_eq, equal]
      · by_cases same :
            pathBit ellIn point layer = pathBit ellIn alpha.toNat layer
        · right
          intro earlier before
          by_cases last : earlier = layer
          · subst earlier
            exact same
          · exact onPath earlier (by omega)
        · left
          have lost : pathBit ellIn point layer =
              !alphaBit ellIn alpha layer := by
            exact Bool.eq_not.mpr same
          obtain ⟨walk0, walk1⟩ := pair.walk_alpha (show layer ≤ ellIn by omega)
          rw [KeyType.walk, KeyType.walk, lost, key0.walk_congr ccrh onPath,
            key1.walk_congr ccrh onPath, walk0, walk1]
          exact pair.child_lose (by omega)

/-- Off the path to `alpha` the two leaves are equal. -/
theorem walk_eq_of_ne
    (pair : GeneratedPair ccrh ellIn alpha initial key0 key1)
    (alphaLt : alpha.toNat < 2 ^ ellIn)
    (pointLt : point < 2 ^ ellIn)
    (different : point ≠ alpha.toNat) :
    key1.walk ccrh point ellIn = key0.walk ccrh point ellIn := by
  rcases pair.walk_eq_or_on_path point (Nat.le_refl ellIn) with
    equal | onPath
  · exact equal
  · exact absurd (eq_of_pathBit_eq pointLt alphaLt onPath) different

end GeneratedPair

/-! ## Leaves -/

/-- The leaf value of evaluator 0, before the party sign. -/
def KeyType.leafVal
    (key : KeyType ellIn)
    (ellOut : Nat)
    (state : Block) : ZMod (2 ^ ellOut) :=
  longVal ellOut (low64 state) +
    if getMsb state then longVal ellOut key.cwLast else 0

private theorem longVal_and_msbMask
    (word : UInt64)
    (state : Block) :
    longVal ell (word &&& msbMask state) =
      if getMsb state then longVal ell word else 0 := by
  cases control : getMsb state <;> simp [msbMask, control]

theorem ringVal_leafOutput_zero
    (key : KeyType ellIn)
    (ellOutLe : ellOut ≤ 8)
    (state : Block) :
    ringVal ellOut (key.leafOutput ellOut .EVALUATOR_0 state) =
      key.leafVal ellOut state := by
  rw [KeyType.leafOutput, ringVal_toUInt8_and_ringMask8 ellOutLe, pidMask]
  rw [UInt64.xor_zero, UInt64.sub_zero, longVal_add (by omega),
    longVal_and_msbMask]
  rfl

/-- Evaluator 1 complements and adds one: it outputs the negated value. -/
theorem ringVal_leafOutput_one
    (key : KeyType ellIn)
    (ellOutLe : ellOut ≤ 8)
    (state : Block) :
    ringVal ellOut (key.leafOutput ellOut .EVALUATOR_1 state) =
      -key.leafVal ellOut state := by
  have negate : ∀ raw : UInt64, (raw ^^^ ~~~0) - ~~~0 = 0 - raw := by
    intro raw
    apply UInt64.toBitVec_inj.mp
    simpa using (BitVec.neg_eq_not_add raw.toBitVec).symm
  rw [KeyType.leafOutput, ringVal_toUInt8_and_ringMask8 ellOutLe, pidMask,
    negate, longVal_sub (by omega), longVal_add (by omega),
    longVal_and_msbMask, longVal_zero, zero_sub]
  rfl

theorem longVal_genCwLast
    (ellOutLe : ellOut ≤ 8)
    (st0 st1 : Block)
    (beta : UInt8) :
    longVal ellOut (genCwLast ellOut st0 st1 beta) =
      if getMsb st1 then
        longVal ellOut (low64 st0) - longVal ellOut (low64 st1) -
          ringVal ellOut beta
      else
        ringVal ellOut beta - longVal ellOut (low64 st0) +
          longVal ellOut (low64 st1) := by
  have trunc : ∀ v, longVal ellOut (getTrunc ellOut v) =
      longVal ellOut (low64 v) := fun v => longVal_and_ringMask8 ellOutLe _
  have fits : ellOut ≤ 64 := by omega
  rw [genCwLast, longVal_and_ringMask8 ellOutLe]
  split
  · rw [longVal_sub fits, longVal_sub fits, trunc, trunc, longVal_toUInt64]
  · rw [longVal_add fits, longVal_sub fits, trunc, trunc, longVal_toUInt64]

/-- On the path the last correction word leaves exactly `beta`. -/
theorem leafVal_sub_on_path
    (ellOutLe : ellOut ≤ 8)
    {key0 key1 : KeyType ellIn}
    {st0 st1 : Block}
    {beta : UInt8}
    (cwLast0 : key0.cwLast = genCwLast ellOut st0 st1 beta)
    (cwLast1 : key1.cwLast = genCwLast ellOut st0 st1 beta)
    (opposite : getMsb st1 = !getMsb st0) :
    key0.leafVal ellOut st0 + -key1.leafVal ellOut st1 =
      ringVal ellOut beta := by
  rw [KeyType.leafVal, KeyType.leafVal, cwLast0, cwLast1,
    longVal_genCwLast ellOutLe, opposite]
  cases getMsb st0 <;> simp <;> ring

/-! ## The generated pair -/

/-- Correct shares of a point function: the two leaf values add up to `beta`
at `alpha` and to zero at every other point. -/
def SharesPoint
    (ellOut : Nat)
    (alpha : UInt32)
    (beta : UInt8)
    (key0 key1 : KeyType ellIn) : Prop :=
  ∀ point < 2 ^ ellIn,
    ((key0.evalPoint ccrh ellOut .EVALUATOR_0 point).toNat +
        (key1.evalPoint ccrh ellOut .EVALUATOR_1 point).toNat) % 2 ^ ellOut =
      if point = alpha.toNat then beta.toNat % 2 ^ ellOut else 0

/-- `gen` returns a pair of keys, each key survives its JSON form, and the
decoded keys share the point function. -/
def GenCorrect
    (ellIn ellOut : Nat)
    (random : GenRandomness)
    (alpha : UInt32)
    (beta : UInt8) : Prop :=
  ∃ key0 key1 : KeyType ellIn,
    gen ccrh ellIn ellOut random alpha beta = .ok (key0, key1) ∧
    ∀ old0 old1 : KeyType ellIn, ∃ decoded0 decoded1 : KeyType ellIn,
      KeyType.from_json key0.to_json old0 = .ok decoded0 ∧
      KeyType.from_json key1.to_json old1 = .ok decoded1 ∧
      SharesPoint ccrh ellOut alpha beta decoded0 decoded1

/-- The roots start with opposite control bits. -/
private theorem root_control (random : GenRandomness) :
    getMsb ((STDMASK_NOT_MSB1 &&& random.stRoot1) ^^^ STDMASK_MSB1) =
      !getMsb ((STDMASK_NOT_MSB1 &&& random.stRoot0) ^^^ 0) := by
  have top : STDMASK_MSB1 = cbitMask true := rfl
  have bottom : (0 : Block) = cbitMask false := rfl
  rw [top, bottom, BitVec.and_comm, getMsb_xor, getMsb_and_not,
    BitVec.and_comm, getMsb_xor, getMsb_and_not]
  simp

theorem GeneratedPair.sharesPoint
    {ccrh : Block -> Block -> Block}
    {initial : GenState}
    {key0 key1 : KeyType ellIn}
    (pair : GeneratedPair ccrh ellIn alpha initial key0 key1)
    (ellOutLe : ellOut ≤ 8)
    (alphaLt : alpha.toNat < 2 ^ ellIn)
    (cwLast : key0.cwLast = genCwLast ellOut
      (genLoop (key0.hash ccrh) ellIn alpha initial ellIn).st0
      (genLoop (key0.hash ccrh) ellIn alpha initial ellIn).st1 beta) :
    SharesPoint ccrh ellOut alpha beta key0 key1 := by
  intro point pointLt
  have sum : ringVal ellOut
        (key0.evalPoint ccrh ellOut .EVALUATOR_0 point) +
      ringVal ellOut (key1.evalPoint ccrh ellOut .EVALUATOR_1 point) =
      if point = alpha.toNat then ringVal ellOut beta else 0 := by
    rw [KeyType.evalPoint, KeyType.evalPoint,
      ringVal_leafOutput_zero key0 ellOutLe,
      ringVal_leafOutput_one key1 ellOutLe]
    split
    · next onPath =>
        obtain ⟨walk0, walk1⟩ := pair.walk_alpha (Nat.le_refl ellIn)
        rw [onPath, walk0, walk1]
        exact leafVal_sub_on_path ellOutLe cwLast
          (pair.cwLast.trans cwLast)
          (genLoop_control ellIn _ alpha initial pair.opposite ellIn)
    · next offPath =>
        rw [pair.walk_eq_of_ne alphaLt pointLt offPath, KeyType.leafVal,
          KeyType.leafVal, pair.cwLast]
        ring
  have cast : (((key0.evalPoint ccrh ellOut .EVALUATOR_0 point).toNat +
        (key1.evalPoint ccrh ellOut .EVALUATOR_1 point).toNat : Nat) :
      ZMod (2 ^ ellOut)) =
      ((if point = alpha.toNat then beta.toNat else 0 : Nat) :
        ZMod (2 ^ ellOut)) := by
    push_cast
    exact sum
  rw [ZMod.natCast_eq_natCast_iff'] at cast
  rw [cast]
  split <;> simp

theorem toNat_DOMAIN_SIZE (ellIn : Nat) :
    (DOMAIN_SIZE ellIn).toNat = 2 ^ ellIn % 2 ^ 32 := by
  simp [DOMAIN_SIZE]

/-- From 32 input bits on, `DOMAIN_SIZE` is truncated to zero. -/
theorem gen_eq_error
    (wide : 32 ≤ ellIn)
    (random : GenRandomness)
    (alpha : UInt32)
    (beta : UInt8) :
    gen ccrh ellIn ellOut random alpha beta = .error .alphaOutOfRange := by
  have zero : DOMAIN_SIZE ellIn = 0 := by
    apply UInt32.toNat_inj.mp
    rw [toNat_DOMAIN_SIZE]
    exact Nat.mod_eq_zero_of_dvd (Nat.pow_dvd_pow 2 wide)
  rw [gen, zero, if_pos (UInt32.zero_le)]

/-- As long as the domain size fits its constant, `gen` shares the point
function. -/
theorem gen_sharesPoint
    (ellOut : Nat)
    (ellInLe : ellIn ≤ 31)
    (ellOutLe : ellOut ≤ 8)
    (random : GenRandomness)
    (alphaLt : alpha.toNat < 2 ^ ellIn)
    (beta : UInt8) :
    ∃ key0 key1 : KeyType ellIn,
      gen ccrh ellIn ellOut random alpha beta = .ok (key0, key1) ∧
      SharesPoint ccrh ellOut alpha beta key0 key1 := by
  have domain : (DOMAIN_SIZE ellIn).toNat = 2 ^ ellIn := by
    rw [toNat_DOMAIN_SIZE]
    exact Nat.mod_eq_of_lt (Nat.pow_lt_pow_right (by omega) (by omega))
  have accepted : ¬ alpha ≥ DOMAIN_SIZE ellIn := by
    rw [ge_iff_le, UInt32.le_iff_toNat_le, domain]
    omega
  refine ⟨_, _, by rw [gen, if_neg accepted], ?_⟩
  apply GeneratedPair.sharesPoint _ ellOutLe alphaLt rfl
  exact {
    origin0 := rfl
    origin1 := rfl
    keyL := rfl
    keyR := rfl
    cwLast := rfl
    cws := rfl
    opposite := root_control random
    fromLoop := fun _ => rfl }

/-- Key generation is correct at an input exactly when the domain size fits
its 32-bit constant: for `ELL_IN = 32` the range check rejects every point. -/
theorem genCorrect_iff
    (ellIn ellOut : Nat)
    (ellOutLe : ellOut ≤ 8)
    (random : GenRandomness)
    (alpha : UInt32)
    (alphaLt : alpha.toNat < 2 ^ ellIn)
    (beta : UInt8) :
    GenCorrect ccrh ellIn ellOut random alpha beta ↔ ellIn ≤ 31 := by
  constructor
  · rintro ⟨key0, key1, returned, -⟩
    by_contra wide
    rw [gen_eq_error ccrh (by omega)] at returned
    cases returned
  · intro narrow
    obtain ⟨key0, key1, returned, shares⟩ :=
      gen_sharesPoint ccrh ellOut narrow ellOutLe random alphaLt beta
    exact ⟨key0, key1, returned, fun old0 old1 => ⟨key0, key1,
      KeyType.from_json_to_json key0 old0, KeyType.from_json_to_json key1 old1,
      shares⟩⟩

/-- A two-bit domain shared with a three-bit output ring. -/
theorem genCorrect_two_bits :
    GenCorrect (fun key state => key + state) 2 3
      { stRoot0 := 5#128, stRoot1 := 9#128, keyL := fun _ => 1,
        keyR := fun _ => 2 } 2 5 :=
  (genCorrect_iff (fun key state => key + state) 2 3 (by decide) _ 2
    (by decide) 5).mpr (by decide)

/-- The widest domain the class admits has 32 input bits, and there no point
is accepted. -/
theorem not_genCorrect_thirtyTwo_bits :
    (5 : UInt32).toNat < 2 ^ 32 ∧
      ¬ GenCorrect (fun key state => key + state) 32 8
        { stRoot0 := 5#128, stRoot1 := 9#128, keyL := fun _ => 1,
          keyR := fun _ => 2 } 5 1 := by
  refine ⟨by decide, ?_⟩
  rintro ⟨key0, key1, returned, -⟩
  rw [gen_eq_error _ (Nat.le_refl 32)] at returned
  cases returned

end Dpf
end Mpmt
