import Mpmt.Rvector.Pack

/-!
# Arithmetic of ring vectors

The element-wise kernels are loops over words in memory.  The output may be an
input: an iteration then reads what the earlier ones have written.  Vectors are
therefore objects of a store, and a kernel changes the store word by word.
-/

namespace Mpmt

open BitStream Lanes RingMath

/-- The vector objects of a program, by their references. -/
abbrev VectorStore := Nat -> Rvector

namespace VectorStore

/-- Replace the object at a reference. -/
def put (s : VectorStore) (x : Nat) (v : Rvector) : VectorStore :=
  fun y => if y = x then v else s y

/-- Assign to the word at an index of an object. -/
def setWord (s : VectorStore) (x k w : Nat) : VectorStore :=
  s.put x ((s x).updateWord k fun _ => w)

/-- Equality of the data pointers.  An object without words has none. -/
def samePointer (s : VectorStore) (x y : Nat) : Prop :=
  x = y ∨ (s x).data = [] ∧ (s y).data = []

instance (s : VectorStore) (x y : Nat) : Decidable (s.samePointer x y) :=
  inferInstanceAs (Decidable (_ ∨ _))

/-- A loop over the first `count` words: word `i` of `out` becomes what `f`
makes of word `i` of `a` and word `i` of `b` at that time. -/
def loop (count : Nat) (f : Nat -> Nat -> Nat) (a b out : Nat) (s : VectorStore) : VectorStore :=
  (List.range count).foldl (fun s i => s.setWord out i (f ((s a).word i) ((s b).word i))) s

end VectorStore

namespace Rvector

/-! ## Kernels -/

section

variable (ell : Nat)

/-- A byte operation of the kernels: 32-bit arithmetic on two bytes, cut back to
a ring element. -/
def byteOp (op : UInt32 -> UInt32 -> UInt32) (x y : Nat) : Nat :=
  (maskResult ell (op (UInt32.ofNat x) (UInt32.ofNat y))).toNat

/-- `~` on 64-bit words -/
def complement (w : Nat) : Nat := w ^^^ (2 ^ 64 - 1)

/-- `_add`.  The loops for an output that is an input and for one that is not
are the same. -/
def addKernel (a b out : Nat) (s : VectorStore) : VectorStore :=
  if ell = 1 then s.loop (s a).data.length (fun x y => x ^^^ y) a b out
  else s.loop (s a).n (byteOp ell (· + ·)) a b out

/-- `_sub` -/
def subKernel (a b out : Nat) (s : VectorStore) : VectorStore :=
  if ell = 1 then addKernel ell a b out s
  else s.loop (s a).n (byteOp ell (· - ·)) a b out

/-- `_hadamard` -/
def hadamardKernel (a b out : Nat) (s : VectorStore) : VectorStore :=
  if ell = 1 then s.loop (s a).data.length (fun x y => x &&& y) a b out
  else s.loop (s a).n (byteOp ell (· * ·)) a b out

/-- `_addScalar` -/
def addScalarKernel (a : Nat) (scalar : UInt8) (out : Nat) (s : VectorStore) : VectorStore :=
  if ell = 1 then
    if s.samePointer out a then
      if scalar = 0 then s
      else s.loop (s a).data.length (fun x _ => complement x) a a out
    else if scalar = 0 then s.loop (s a).data.length (fun x _ => x) a a out
    else s.loop (s a).data.length (fun x _ => complement x) a a out
  else s.loop (s a).n (fun x _ => byteOp ell (· + ·) x scalar.toNat) a a out

/-- `_subScalar` -/
def subScalarKernel (a : Nat) (scalar : UInt8) (out : Nat) (s : VectorStore) : VectorStore :=
  if ell = 1 then addScalarKernel ell a scalar out s
  else s.loop (s a).n (fun x _ => byteOp ell (· - ·) x scalar.toNat) a a out

/-- `_mulScalar` -/
def mulScalarKernel (a : Nat) (scalar : UInt8) (out : Nat) (s : VectorStore) : VectorStore :=
  if ell = 1 then
    if s.samePointer out a then
      if scalar = 1 then s
      else s.loop (s a).data.length (fun _ _ => 0) a a out
    else if scalar = 1 then s.loop (s a).data.length (fun x _ => x) a a out
    else s.loop (s a).data.length (fun _ _ => 0) a a out
  else s.loop (s a).n (fun x _ => byteOp ell (· * ·) x scalar.toNat) a a out

/-! ## Operations on objects -/

/-- A store and how the call that left it ended. -/
abbrev Called := VectorStore × Except RvectorError Unit

/-- Store the result of a call on the object at a reference. -/
def putResult (s : VectorStore) (x : Nat) : Except RvectorError Rvector -> Called
  | .ok v => (s.put x v, .ok ())
  | .error error => (s, .error error)

/-- `checkVecSizes` and `checkOutSize`: two vectors have the same size. -/
def checkSizes (v other : Rvector) : Except RvectorError Unit :=
  if v.n ≠ other.n then .error .logicError else .ok ()

/-- `maskPartialLastWord` of an object. -/
def maskObject (x : Nat) (s : VectorStore) : VectorStore :=
  s.put x ((s x).maskPartialLastWord ell)

/-- `add`, `sub` and `hadamard` around their kernels. -/
def elementwise (kernel : Nat -> Nat -> Nat -> VectorStore -> VectorStore) (a b out : Nat)
    (s : VectorStore) : Called :=
  match checkSizes (s a) (s b), checkSizes (s a) (s out) with
  | .error error, _ => (s, .error error)
  | .ok _, .error error => (s, .error error)
  | .ok _, .ok _ => (maskObject ell out (kernel a b out s), .ok ())

/-- `add` -/
def add (a b out : Nat) (s : VectorStore) : Called :=
  elementwise ell (addKernel ell) a b out s

/-- `sub` -/
def sub (a b out : Nat) (s : VectorStore) : Called :=
  elementwise ell (subKernel ell) a b out s

/-- `hadamard` -/
def hadamard (a b out : Nat) (s : VectorStore) : Called :=
  elementwise ell (hadamardKernel ell) a b out s

/-- `addScalar`, `subScalar` and `mulScalar` around their kernels. -/
def withScalar (kernel : Nat -> UInt8 -> Nat -> VectorStore -> VectorStore) (a : Nat)
    (scalar : UInt8) (out : Nat) (s : VectorStore) : Called :=
  match checkRing ell scalar, checkSizes (s a) (s out) with
  | .error error, _ => (s, .error error)
  | .ok _, .error error => (s, .error error)
  | .ok _, .ok _ => (maskObject ell out (kernel a scalar out s), .ok ())

/-- `addScalar` -/
def addScalar (a : Nat) (scalar : UInt8) (out : Nat) (s : VectorStore) : Called :=
  withScalar ell (addScalarKernel ell) a scalar out s

/-- `subScalar` -/
def subScalar (a : Nat) (scalar : UInt8) (out : Nat) (s : VectorStore) : Called :=
  withScalar ell (subScalarKernel ell) a scalar out s

/-- `mulScalar` -/
def mulScalar (a : Nat) (scalar : UInt8) (out : Nat) (s : VectorStore) : Called :=
  withScalar ell (mulScalarKernel ell) a scalar out s

/-! ## Filling from bytes -/

/-- The bytes that `randFill` writes: the blocks that the generator makes of the
counters from zero on, four at a time, the last four cut to the end of the
words. -/
def randBytes (prg : Nat -> Nat -> UInt8) (total : Nat) : List UInt8 :=
  let four := fun counter =>
    (List.range 4).flatMap fun k => (List.range 16).map fun b => prg (counter + k) b
  ((List.range (total / 64)).flatMap fun q => four (4 * q)) ++
    (four (4 * (total / 64))).take (total % 64)

/-- `randFill`.  `prg` is the keyed hash of a counter, in bytes. -/
def randFill (prg : Nat -> Nat -> UInt8) (v : Rvector) : Rvector :=
  if v.n = 0 then v
  else
    let filled := ofBytes ell v.n
      (writeFront ((randBytes prg (v.bytes ell).length).map UInt8.toNat) (v.bytes ell))
    if ell ≠ 8 ∧ ell ≠ 1 then
      { filled with data := filled.data.map fun w => w &&& perByteMask ell }
    else if ell = 1 then filled.maskPartialLastWord ell
    else filled

/-- `from_bytes` -/
def fromBytes (bytes : List UInt8) (v : Rvector) : Except RvectorError Rvector :=
  if bytes.length ≠ (v.bytes ell).length then .error .invalidArgument
  else .ok (canonicalize ell (ofBytes ell v.n (bytes.map UInt8.toNat)))

/-- Copy construction and assignment. -/
def copy (src dst : Nat) (s : VectorStore) : VectorStore := s.put dst (s src)

/-- Move construction and assignment: the source is left without elements,
unless it is the destination. -/
def move (src dst : Nat) (s : VectorStore) : VectorStore :=
  if dst = src then s else (s.put dst (s src)).put src ⟨0, []⟩

/-! ## Sums -/

/-- `__builtin_popcountll` -/
def popcount (w : Nat) : Nat := ((List.range 64).map fun j => (w.testBit j).toNat).sum

/-- A 64-bit accumulator over indices. -/
def accumulate (count : Nat) (term : Nat -> UInt64) : UInt64 :=
  (List.range count).foldl (fun acc i => acc + term i) 0

/-- The ring element in an accumulator. -/
def ringElement (acc : UInt64) : UInt8 :=
  if ell = 8 then acc.toUInt8 else (acc &&& (ringMask8 ell).toUInt64).toUInt8

/-- `_dot` -/
def dotKernel (a b : Rvector) : UInt8 :=
  if ell = 1 then
    (accumulate a.data.length (fun i => UInt64.ofNat (popcount (a.word i &&& b.word i))) &&& 1).toUInt8
  else ringElement ell (accumulate a.n fun i => UInt64.ofNat (a.word i * b.word i))

/-- `dot` -/
def dot (a b : Rvector) : Except RvectorError UInt8 := do
  checkSizes a b
  pure (dotKernel ell a b)

/-- `reduce`: 32 bytes at a time, as sums of eight in four 64-bit lanes, then
byte by byte. -/
def reduce (a : Rvector) : UInt8 :=
  if ell = 1 then
    (accumulate a.data.length (fun i => UInt64.ofNat (popcount (a.word i))) &&& 1).toUInt8
  else
    let i := 32 * (a.n / 32)
    let blocks := accumulate (a.n / 32) fun q =>
      let vsad := sadEpu8 (fun j => a.word (32 * q + j)) fun _ => 0
      UInt64.ofNat (vsad 0 % 2 ^ 16) + UInt64.ofNat (vsad 1 % 2 ^ 16) +
        UInt64.ofNat (vsad 2 % 2 ^ 16) + UInt64.ofNat (vsad 3 % 2 ^ 16)
    let acc := (List.range (a.n - i)).foldl
      (fun acc j => acc + UInt64.ofNat (a.word (i + j))) blocks
    ringElement ell acc

end

/-! ## Runs -/

/-- A call on the objects of a store. -/
inductive Call
  | fill (x : Nat) (val : UInt8)
  | set (x i : Nat) (val : UInt8)
  | batchSet (x : Nat) (indices : List Nat) (val : UInt8)
  | randFill (x : Nat) (prg : Nat -> Nat -> UInt8)
  | copy (src dst : Nat)
  | move (src dst : Nat)
  | fromBytes (x : Nat) (bytes : List UInt8)
  | unpack (auxBuf : RvectorPack) (x : Nat)
  | add (a b out : Nat)
  | sub (a b out : Nat)
  | hadamard (a b out : Nat)
  | addScalar (a : Nat) (scalar : UInt8) (out : Nat)
  | subScalar (a : Nat) (scalar : UInt8) (out : Nat)
  | mulScalar (a : Nat) (scalar : UInt8) (out : Nat)

/-- One call. -/
def call (ell : Nat) : Call -> VectorStore -> Called
  | .fill x val, s => putResult s x ((s x).fill ell val)
  | .set x i val, s => putResult s x ((s x).set ell i val)
  | .batchSet x indices val, s =>
      let (v, result) := (s x).batchSet ell indices val
      (s.put x v, result)
  | .randFill x prg, s => (s.put x ((s x).randFill ell prg), .ok ())
  | .copy src dst, s => (Rvector.copy src dst s, .ok ())
  | .move src dst, s => (Rvector.move src dst s, .ok ())
  | .fromBytes x bytes, s => putResult s x (Rvector.fromBytes ell bytes (s x))
  | .unpack auxBuf x, s => putResult s x (unpackRvec ell auxBuf (s x))
  | .add a b out, s => Rvector.add ell a b out s
  | .sub a b out, s => Rvector.sub ell a b out s
  | .hadamard a b out, s => Rvector.hadamard ell a b out s
  | .addScalar a scalar out, s => Rvector.addScalar ell a scalar out s
  | .subScalar a scalar out, s => Rvector.subScalar ell a scalar out s
  | .mulScalar a scalar out, s => Rvector.mulScalar ell a scalar out s

/-- A sequence of calls, whose exceptions are caught: the store behind them, and
how each of them ended. -/
def calls (ell : Nat) : List Call -> VectorStore -> VectorStore × List (Except RvectorError Unit)
  | [], s => (s, [])
  | first :: rest, s =>
      let (s, result) := call ell first s
      let (s, results) := calls ell rest s
      (s, result :: results)

end Rvector
end Mpmt
