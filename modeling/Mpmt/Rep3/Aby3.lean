import Mpmt.Library.Network
import Mpmt.Rep3.Crng

/-!
# Replicated secret sharing

The protocols of `Aby3`, each as the program of one party.  A party talks to
its two neighbours on the ring; every re-sharing sends to the previous party
and waits for the next one.  The worker threads of `_reshare_ring` and its
64 KiB chunks only cut the same byte stream differently, so a vector is one
send and one receive; it travels element by element.
-/

namespace Mpmt
namespace Rep3

open RingMath Network
open Dpf (Block Bytes16 blockBytes bytesBlock)

/-- Exceptions of `Aby3`. -/
inductive Aby3Error
  | invalid_argument
  deriving DecidableEq, Repr

/-- Three parties exchanging bytes. -/
abbrev aby3Net : Signature where
  Party := ShrRep3Pid
  Sym := UInt8
  Call := Empty
  Res := Empty
  Err := Aby3Error
  meaning call := nomatch call

/-- A protocol of one `Aby3` instance. -/
abbrev Aby3M := StateT CrngState (Proc aby3Net)

section

variable (ccrh : Block -> Block -> Block) (ell : Nat) (pid : ShrRep3Pid)

/-! ## Construction -/

/-- `Aby3::Aby3`: send a fresh key to the next party and take the key of the
previous one.  `cache` is the uninitialised `crngCache_`. -/
def construct (keyThis : Block) (cache : Bytes16) :
    Proc aby3Net CrngState := do
  let keyPrev ← (do
    send pid.NEXT (List.ofFn (blockBytes keyThis))
    recv pid.PREV 16)
  return {
    cRngId := { lo := 0, hi := 0 }
    keyThis := keyThis
    keyPrev := bytesBlock fun index => keyPrev.getD index.val 0
    crngCache := cache
    crngPtr := BLOCK_CAPACITY * 8
    crngIsXor := false }

/-! ## Exchanges -/

/-- Send the low byte of `thisShare` to the previous party and take
`nxtShare` from the next one. -/
def exchange (thisShare : UInt32) : Proc aby3Net ShareScalar := do
  let byte ← (do
    send pid.PREV [thisShare.toUInt8]
    recv pid.NEXT 1)
  return { thisShare := thisShare, nxtShare := (byte.getD 0 0).toUInt32 }

/-- `_reshare_ring`. -/
def reshare_ring (sendBuf : Rvector n) : Proc aby3Net (Rvector n) := do
  let bytes ← (do
    send pid.PREV sendBuf.data
    recv pid.NEXT n)
  return Rvector.ofData n bytes

/-! ## Scalars -/

/-- `share` of a scalar. -/
def share (num : UInt8) : Aby3M ShareScalar := do
  let mask ← modifyGet (crng ccrh ell)
  exchange pid (ringAdd8 ell num mask).toUInt32

/-- `recvShare` of a scalar. -/
def recvShare : Aby3M ShareScalar := do
  let mask ← modifyGet (crng ccrh ell)
  exchange pid mask.toUInt32

/-- `reshare` of a scalar. -/
def reshare (val : UInt8) : Aby3M ShareScalar :=
  exchange pid val.toUInt32

/-- `add` of scalars. -/
def add (num1 num2 : ShareScalar) : ShareScalar where
  thisShare := (ringAdd8 ell num1.thisShare.toUInt8
    num2.thisShare.toUInt8).toUInt32
  nxtShare := (ringAdd8 ell num1.nxtShare.toUInt8
    num2.nxtShare.toUInt8).toUInt32

/-- `sub` of scalars. -/
def sub (num1 num2 : ShareScalar) : ShareScalar where
  thisShare := (ringSub8 ell num1.thisShare.toUInt8
    num2.thisShare.toUInt8).toUInt32
  nxtShare := (ringSub8 ell num1.nxtShare.toUInt8
    num2.nxtShare.toUInt8).toUInt32

/-- `mul` of scalars. -/
def mul (num1 num2 : ShareScalar) : Aby3M ShareScalar := do
  let this1 := num1.thisShare.toUInt8
  let this2 := num2.thisShare.toUInt8
  let nxt1 := num1.nxtShare.toUInt8
  let nxt2 := num2.nxtShare.toUInt8
  let mulRes33 := ringMul8 ell this1 this2
  let mulRes33 := ringAdd8 ell mulRes33 (ringMul8 ell this1 nxt2)
  let mulRes33 := ringAdd8 ell mulRes33 (ringMul8 ell nxt1 this2)
  let mask ← modifyGet (crng ccrh ell)
  exchange pid (ringAdd8 ell mulRes33 mask).toUInt32

/-- `RING_MASK8<ELL>` applied to the 16-bit sum of the three shares. -/
def revealSum (thisShare nxtShare : UInt32) (missing : UInt8) : UInt8 :=
  let r := thisShare.toUInt16 + nxtShare.toUInt16 + missing.toUInt16
  (if ell < 8 then r &&& (ringMask8 ell).toUInt16 else r).toUInt8

/-- `revealAll` of a scalar. -/
def revealAll (ss : ShareScalar) : Proc aby3Net UInt8 :=
  match pid with
  | .P0 => do
      let missing ← recv ShrRep3Pid.P0.NEXT 1
      let result := revealSum ell ss.thisShare ss.nxtShare (missing.getD 0 0)
      send ShrRep3Pid.P0.NEXT [result]
      send ShrRep3Pid.P0.PREV [result]
      return result
  | .P1 => do
      send ShrRep3Pid.P1.PREV [ss.nxtShare.toUInt8]
      let result ← recv ShrRep3Pid.P1.PREV 1
      return result.getD 0 0
  | .P2 => do
      let result ← recv ShrRep3Pid.P2.NEXT 1
      return result.getD 0 0

/-! ## Vectors -/

/-- `share` of a vector; `vec` is not `oVec.thisShare`. -/
def shareVec (vec : Rvector n) : Aby3M (ShareVec n) := do
  let mask ← modifyGet (crngVector ccrh ell n)
  let thisShare := Rvector.add ell vec mask
  let nxtShare ← reshare_ring pid thisShare
  return { thisShare := thisShare, nxtShare := nxtShare }

/-- `recvShare` of a vector. -/
def recvShareVec (n : Nat) : Aby3M (ShareVec n) := do
  let thisShare ← modifyGet (crngVector ccrh ell n)
  let nxtShare ← reshare_ring pid thisShare
  return { thisShare := thisShare, nxtShare := nxtShare }

/-- `reshare` of a vector; `vec` is not `oVec.thisShare`. -/
def reshareVec (vec : Rvector n) : Aby3M (ShareVec n) := do
  let nxtShare ← reshare_ring pid vec
  return { thisShare := vec, nxtShare := nxtShare }

/-- `add` of vectors. -/
def addVec (iVec1 iVec2 : ShareVec n) : ShareVec n where
  thisShare := Rvector.add ell iVec1.thisShare iVec2.thisShare
  nxtShare := Rvector.add ell iVec1.nxtShare iVec2.nxtShare

/-- `sub` of vectors. -/
def subVec (iVec1 iVec2 : ShareVec n) : ShareVec n where
  thisShare := Rvector.sub ell iVec1.thisShare iVec2.thisShare
  nxtShare := Rvector.sub ell iVec1.nxtShare iVec2.nxtShare

/-- `hadamard`; `oVec` is neither of the inputs. -/
def hadamard (iVec1 iVec2 : ShareVec n) : Aby3M (ShareVec n) := do
  let thisShare := Rvector.hadamard ell iVec1.thisShare iVec2.thisShare
  let thisShare := Rvector.add ell thisShare
    (Rvector.hadamard ell iVec1.thisShare iVec2.nxtShare)
  let thisShare := Rvector.add ell thisShare
    (Rvector.hadamard ell iVec1.nxtShare iVec2.thisShare)
  let mask ← modifyGet (crngVector ccrh ell n)
  let thisShare := Rvector.add ell thisShare mask
  let nxtShare ← reshare_ring pid thisShare
  return { thisShare := thisShare, nxtShare := nxtShare }

/-- `dot`. -/
def dot (iVec1 iVec2 : ShareVec n) : Aby3M ShareScalar := do
  let dotVal := Rvector.dot ell iVec1.thisShare iVec2.thisShare
  let dotVal := ringAdd8 ell dotVal
    (Rvector.dot ell iVec1.thisShare iVec2.nxtShare)
  let dotVal := ringAdd8 ell dotVal
    (Rvector.dot ell iVec1.nxtShare iVec2.thisShare)
  let mask ← modifyGet (crng ccrh ell)
  exchange pid (ringAdd8 ell dotVal mask).toUInt32

/-- `revealAll` of a vector. -/
def revealAllVec (sv : ShareVec n) : Proc aby3Net (Rvector n) :=
  match pid with
  | .P0 => do
      let missing ← recv ShrRep3Pid.P0.NEXT n
      let tmp := Rvector.add ell sv.thisShare sv.nxtShare
      let out := Rvector.add ell tmp (Rvector.ofData n missing)
      send ShrRep3Pid.P0.NEXT out.data
      send ShrRep3Pid.P0.PREV out.data
      return out
  | .P1 => do
      send ShrRep3Pid.P1.PREV sv.nxtShare.data
      let out ← recv ShrRep3Pid.P1.PREV n
      return Rvector.ofData n out
  | .P2 => do
      let out ← recv ShrRep3Pid.P2.NEXT n
      return Rvector.ofData n out

/-! ## Programs -/

/-- The scalar and vector shares a party holds. -/
structure Registers (n : Nat) where
  scalar : Nat -> ShareScalar
  vector : Nat -> ShareVec n

/-- Where the input of `reshare` comes from: a value of its own at every
party, or a component of a share. -/
inductive ReshareSource (Value : Type)
  | own (value : ShrRep3Pid -> Value)
  | thisShare (src : Nat)
  | nxtShare (src : Nat)

/-- One instruction.  `share` is `share` at the dealer and `recvShare` at the
other two. -/
inductive Instr (n : Nat)
  | share (dst : Nat) (dealer : ShrRep3Pid) (num : UInt8)
  | reshare (dst : Nat) (source : ReshareSource UInt8)
  | add (dst src1 src2 : Nat)
  | sub (dst src1 src2 : Nat)
  | mul (dst src1 src2 : Nat)
  | revealAll (src : Nat)
  | shareVec (dst : Nat) (dealer : ShrRep3Pid) (vec : Rvector n)
  | reshareVec (dst : Nat) (source : ReshareSource (Rvector n))
  | addVec (dst src1 src2 : Nat)
  | subVec (dst src1 src2 : Nat)
  | hadamard (dst src1 src2 : Nat)
  | dot (dst src1 src2 : Nat)
  | revealAllVec (src : Nat)

/-- What is visible of a party after an instruction: its registers, and the
plaintext when the instruction revealed one. -/
structure Observation (n : Nat) where
  registers : Registers n
  revealed : Option (List UInt8)

/-- Store a scalar share. -/
def Registers.setScalar
    (registers : Registers n)
    (dst : Nat)
    (share : ShareScalar) : Observation n where
  registers := { registers with
    scalar := Function.update registers.scalar dst share }
  revealed := none

/-- Store a vector share. -/
def Registers.setVector
    (registers : Registers n)
    (dst : Nat)
    (share : ShareVec n) : Observation n where
  registers := { registers with
    vector := Function.update registers.vector dst share }
  revealed := none

/-- The part of a party in sharing a scalar of the dealer. -/
def shareFrom (dealer : ShrRep3Pid) (num : UInt8) : Aby3M ShareScalar :=
  if pid = dealer then Rep3.share ccrh ell pid num
  else Rep3.recvShare ccrh ell pid

/-- The part of a party in sharing a vector of the dealer. -/
def shareVecFrom (dealer : ShrRep3Pid) (vec : Rvector n) :
    Aby3M (ShareVec n) :=
  if pid = dealer then Rep3.shareVec ccrh ell pid vec
  else Rep3.recvShareVec ccrh ell pid n

/-- One instruction at one party. -/
def Instr.exec (registers : Registers n) : Instr n -> Aby3M (Observation n)
  | .share dst dealer num => do
      let res ← shareFrom ccrh ell pid dealer num
      return registers.setScalar dst res
  | .reshare dst (.own value) => do
      let res ← Rep3.reshare pid (value pid)
      return registers.setScalar dst res
  | .reshare dst (.thisShare src) => do
      let res ← Rep3.reshare pid (registers.scalar src).thisShare.toUInt8
      return registers.setScalar dst res
  | .reshare dst (.nxtShare src) => do
      let res ← Rep3.reshare pid (registers.scalar src).nxtShare.toUInt8
      return registers.setScalar dst res
  | .add dst src1 src2 =>
      return registers.setScalar dst
        (Rep3.add ell (registers.scalar src1) (registers.scalar src2))
  | .sub dst src1 src2 =>
      return registers.setScalar dst
        (Rep3.sub ell (registers.scalar src1) (registers.scalar src2))
  | .mul dst src1 src2 => do
      let res ← Rep3.mul ccrh ell pid (registers.scalar src1)
        (registers.scalar src2)
      return registers.setScalar dst res
  | .revealAll src => do
      let result ← Rep3.revealAll ell pid (registers.scalar src)
      return { registers := registers, revealed := some [result] }
  | .shareVec dst dealer vec => do
      let res ← shareVecFrom ccrh ell pid dealer vec
      return registers.setVector dst res
  | .reshareVec dst (.own value) => do
      let res ← Rep3.reshareVec pid (value pid)
      return registers.setVector dst res
  | .reshareVec dst (.thisShare src) =>
      if src = dst then throw (I := aby3Net) .invalid_argument
      else do
        let res ← Rep3.reshareVec pid (registers.vector src).thisShare
        return registers.setVector dst res
  | .reshareVec dst (.nxtShare src) => do
      let res ← Rep3.reshareVec pid (registers.vector src).nxtShare
      return registers.setVector dst res
  | .addVec dst src1 src2 =>
      return registers.setVector dst
        (Rep3.addVec ell (registers.vector src1) (registers.vector src2))
  | .subVec dst src1 src2 =>
      return registers.setVector dst
        (Rep3.subVec ell (registers.vector src1) (registers.vector src2))
  | .hadamard dst src1 src2 =>
      if dst = src1 ∨ dst = src2 then
        throw (I := aby3Net) .invalid_argument
      else do
        let res ← Rep3.hadamard ccrh ell pid (registers.vector src1)
          (registers.vector src2)
        return registers.setVector dst res
  | .dot dst src1 src2 => do
      let res ← Rep3.dot ccrh ell pid (registers.vector src1)
        (registers.vector src2)
      return registers.setScalar dst res
  | .revealAllVec src => do
      let out ← Rep3.revealAllVec ell pid (registers.vector src)
      return { registers := registers, revealed := some out.data }

/-- A straight-line program at one party, with what is visible after each
instruction. -/
def execProgram : List (Instr n) -> Registers n -> Aby3M (List (Observation n))
  | [], _ => return []
  | instr :: rest, registers => do
      let seen ← instr.exec ccrh ell pid registers
      let later ← execProgram rest seen.registers
      return seen :: later

/-- One party from the construction of its instance on. -/
def partyProgram
    (program : List (Instr n))
    (keyThis : Block)
    (cache : Bytes16)
    (registers : Registers n) : Proc aby3Net (List (Observation n)) := do
  let s ← construct pid keyThis cache
  (execProgram ccrh ell pid program registers).run' s

end

end Rep3
end Mpmt
