import Mpmt.RingMath
import Mpmt.Dpf.Key

/-!
# Key generation and the naive evaluation of a key

`Bgi16<DEALER>::gen` and the value of a key at one point.  A key is evaluated
by walking from its root along the bits of the point, most significant first;
the optimised evaluators are compared with this walk elsewhere.

`ccrh` stands for `emp::CCRH`: a key block selects a hash on blocks.
-/

namespace Mpmt
namespace Dpf

open RingMath

section

variable (ccrh : Block -> Block -> Block)

/-! ## Evaluation -/

/-- The two evaluating parties. -/
inductive Evaluator
  | EVALUATOR_0
  | EVALUATOR_1
  deriving DecidableEq, Repr

/-- The hash of the key for one direction: `ccrhL.H` or `ccrhR.H`. -/
def KeyType.hash (key : KeyType ellIn) (dir : Dir) : Block -> Block :=
  ccrh (bytesBlock (if dir then key.keyR else key.keyL))

/-- One step of the walk: hash, then xor in the correction word when the
control bit is set. -/
def KeyType.child
    (key : KeyType ellIn)
    (state : Block)
    (layer : Nat)
    (dir : Dir) : Block :=
  key.hash ccrh dir state ^^^ (mulMask (getMsb state) &&& key.cw layer dir)

/-- Bit of `point` that selects the child at `layer`. -/
def pathBit (ellIn : Nat) (point layer : Nat) : Dir :=
  point.testBit (ellIn - 1 - layer)

/-- State reached after `layer` steps along the bits of `point`. -/
def KeyType.walk (key : KeyType ellIn) (point : Nat) : Nat -> Block
  | 0 => key.stOrigin
  | layer + 1 =>
      key.child ccrh (key.walk point layer) layer
        (pathBit ellIn point layer)

/-- `pidMask`. -/
def pidMask : Evaluator -> UInt64
  | .EVALUATOR_0 => 0
  | .EVALUATOR_1 => ~~~0

/-- `0ULL - getMsb(st)`. -/
def msbMask (state : Block) : UInt64 :=
  0 - (if getMsb state then 1 else 0)

/-- The output computed at a leaf state (`finalRes`). -/
def KeyType.leafOutput
    (key : KeyType ellIn)
    (ellOut : Nat)
    (party : Evaluator)
    (state : Block) : UInt8 :=
  let rawRes := low64 state + (key.cwLast &&& msbMask state)
  (((rawRes ^^^ pidMask party) - pidMask party) &&&
    (ringMask8 ellOut).toUInt64).toUInt8

/-- Value of a key at one point, by the naive walk. -/
def KeyType.evalPoint
    (key : KeyType ellIn)
    (ellOut : Nat)
    (party : Evaluator)
    (point : Nat) : UInt8 :=
  key.leafOutput ellOut party (key.walk ccrh point ellIn)

/-! ## Generation -/

/-- The bytes `gen` draws. -/
structure GenRandomness where
  stRoot0 : Block
  stRoot1 : Block
  keyL : Bytes16
  keyR : Bytes16

/-- State of the generation loop: the two parties' states on the path and the
correction words written so far. -/
structure GenState where
  st0 : Block
  st1 : Block
  cws : Nat -> Dir -> Block

/-- Bit of `alpha` at `layer` (`ai`). -/
def alphaBit (ellIn : Nat) (alpha : UInt32) (layer : Nat) : Dir :=
  alpha.toNat.testBit (ellIn - 1 - layer)

/-- One round of the loop of `gen`. -/
def genLayer
    (H : Dir -> Block -> Block)
    (ai : Dir)
    (layer : Nat)
    (state : GenState) : GenState :=
  let stExp0 := fun dir => H dir state.st0
  let stExp1 := fun dir => H dir state.st1
  let seedCw := (stExp0 (!ai) ^^^ stExp1 (!ai)) &&& STDMASK_NOT_MSB1
  let cbitR := ai ^^ getMsb (stExp0 R ^^^ stExp1 R)
  let cbitL := (true ^^ ai) ^^ getMsb (stExp0 L ^^^ stExp1 L)
  let stCw : Dir -> Block := fun dir =>
    seedCw ^^^ cbitMask (if dir then cbitR else cbitL)
  { st0 := (stCw ai &&& mulMask (getMsb state.st0)) ^^^ stExp0 ai
    st1 := (stCw ai &&& mulMask (getMsb state.st1)) ^^^ stExp1 ai
    cws := Function.update state.cws layer stCw }

/-- The loop of `gen` after `rounds` rounds. -/
def genLoop
    (H : Dir -> Block -> Block)
    (ellIn : Nat)
    (alpha : UInt32)
    (initial : GenState) : Nat -> GenState
  | 0 => initial
  | layer + 1 =>
      genLayer H (alphaBit ellIn alpha layer) layer
        (genLoop H ellIn alpha initial layer)

/-- `getTrunc`. -/
def getTrunc (ellOut : Nat) (v : Block) : UInt64 :=
  low64 v &&& (ringMask8 ellOut).toUInt64

/-- The last correction word. -/
def genCwLast
    (ellOut : Nat)
    (st0 st1 : Block)
    (beta : UInt8) : UInt64 :=
  let g0 := getTrunc ellOut st0
  let g1 := getTrunc ellOut st1
  (if getMsb st1 then g0 - g1 - beta.toUInt64
    else beta.toUInt64 - g0 + g1) &&& (ringMask8 ellOut).toUInt64

/-- Errors thrown by `gen`. -/
inductive GenError
  | alphaOutOfRange
  deriving DecidableEq, Repr

/-- `DOMAIN_SIZE`, a `uint32_t` initialised with `1ULL << ELL_IN`. -/
def DOMAIN_SIZE (ellIn : Nat) : UInt32 := UInt32.ofNat (2 ^ ellIn)

/-- `Bgi16<DEALER>::gen`. -/
def gen
    (ellIn ellOut : Nat)
    (random : GenRandomness)
    (alpha : UInt32)
    (beta : UInt8) : Except GenError (KeyType ellIn × KeyType ellIn) :=
  if alpha ≥ DOMAIN_SIZE ellIn then .error .alphaOutOfRange
  else
    let H : Dir -> Block -> Block := fun dir =>
      ccrh (bytesBlock (if dir then random.keyR else random.keyL))
    let root0 := (STDMASK_NOT_MSB1 &&& random.stRoot0) ^^^ 0
    let root1 := (STDMASK_NOT_MSB1 &&& random.stRoot1) ^^^ STDMASK_MSB1
    let last := genLoop H ellIn alpha
      { st0 := root0, st1 := root1, cws := fun _ _ => 0 } ellIn
    let key : Block -> KeyType ellIn := fun stOrigin =>
      { stOrigin := stOrigin
        cws := fun layer dir => last.cws layer.val dir
        cwLast := genCwLast ellOut last.st0 last.st1 beta
        keyL := random.keyL
        keyR := random.keyR }
    .ok (key root0, key root1)

end

end Dpf
end Mpmt
