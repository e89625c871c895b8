import Mpmt.Rep3.Correct

/-!
# Straight-line programs on replicated shares

The run of a program on plain ring elements, and the simulation of that run by
the three parties.
-/

namespace Mpmt
namespace Rep3

open RingMath Network
open Dpf (Block Bytes16 blockBytes bytesBlock bytesBlock_blockBytes)

/-! ## The plain run -/

/-- Plain registers; a register is `none` until it is written. -/
structure PlainRegisters (ell n : Nat) where
  scalar : Nat -> Option (ZMod (2 ^ ell))
  vector : Nat -> Option (Fin n -> ZMod (2 ^ ell))

/-- Registers after an instruction, and what it revealed. -/
structure PlainObservation (ell n : Nat) where
  registers : PlainRegisters ell n
  revealed : Option (List (ZMod (2 ^ ell)))

/-- No register has been written. -/
def PlainRegisters.empty (ell n : Nat) : PlainRegisters ell n where
  scalar _ := none
  vector _ := none

namespace PlainRegisters

variable {ell n : Nat}

/-- Write a scalar register. -/
def setScalar
    (registers : PlainRegisters ell n)
    (dst : Nat)
    (value : ZMod (2 ^ ell)) : PlainObservation ell n where
  registers := { registers with
    scalar := Function.update registers.scalar dst (some value) }
  revealed := none

/-- Write a vector register. -/
def setVector
    (registers : PlainRegisters ell n)
    (dst : Nat)
    (value : Fin n -> ZMod (2 ^ ell)) : PlainObservation ell n where
  registers := { registers with
    vector := Function.update registers.vector dst (some value) }
  revealed := none

end PlainRegisters

/-- The plain meaning of an instruction.  It is `none` when the program reads a
register before writing it or asks for an output in place of an input where
the protocol forbids that. -/
def Instr.plain
    (ell : Nat)
    (registers : PlainRegisters ell n) :
    Instr n -> Option (PlainObservation ell n)
  | .share dst _ num => some (registers.setScalar dst (ringVal ell num))
  | .reshare dst (.own value) =>
      some (registers.setScalar dst (sum3 fun pid => ringVal ell (value pid)))
  | .reshare dst (.thisShare src) | .reshare dst (.nxtShare src) => do
      let value ← registers.scalar src
      return registers.setScalar dst value
  | .add dst src1 src2 => do
      let value1 ← registers.scalar src1
      let value2 ← registers.scalar src2
      return registers.setScalar dst (value1 + value2)
  | .sub dst src1 src2 => do
      let value1 ← registers.scalar src1
      let value2 ← registers.scalar src2
      return registers.setScalar dst (value1 - value2)
  | .mul dst src1 src2 => do
      let value1 ← registers.scalar src1
      let value2 ← registers.scalar src2
      return registers.setScalar dst (value1 * value2)
  | .revealAll src => do
      let value ← registers.scalar src
      return { registers := registers, revealed := some [value] }
  | .shareVec dst _ vec => some (registers.setVector dst (vec.val ell))
  | .reshareVec dst (.own value) =>
      some (registers.setVector dst (sum3 fun pid => (value pid).val ell))
  | .reshareVec dst (.thisShare src) =>
      if src = dst then none
      else do
        let value ← registers.vector src
        return registers.setVector dst value
  | .reshareVec dst (.nxtShare src) => do
      let value ← registers.vector src
      return registers.setVector dst value
  | .addVec dst src1 src2 => do
      let value1 ← registers.vector src1
      let value2 ← registers.vector src2
      return registers.setVector dst (value1 + value2)
  | .subVec dst src1 src2 => do
      let value1 ← registers.vector src1
      let value2 ← registers.vector src2
      return registers.setVector dst (value1 - value2)
  | .hadamard dst src1 src2 =>
      if dst = src1 ∨ dst = src2 then none
      else do
        let value1 ← registers.vector src1
        let value2 ← registers.vector src2
        return registers.setVector dst (value1 * value2)
  | .dot dst src1 src2 => do
      let value1 ← registers.vector src1
      let value2 ← registers.vector src2
      return registers.setScalar dst (∑ i, value1 i * value2 i)
  | .revealAllVec src => do
      let value ← registers.vector src
      return { registers := registers, revealed := some (List.ofFn value) }

/-- The plain run of a program: what is visible after each instruction. -/
def plainProgram (ell : Nat) :
    List (Instr n) -> PlainRegisters ell n ->
      Option (List (PlainObservation ell n))
  | [], _ => some []
  | instr :: rest, registers => do
      let seen ← instr.plain ell registers
      let later ← plainProgram ell rest seen.registers
      return seen :: later

/-! ## Simulation -/

/-- Every written register is a replicated share of its plain value. -/
structure RegistersHold
    (registers : ShrRep3Pid -> Registers n)
    (plain : PlainRegisters ell n) : Prop where
  scalar : ∀ reg value, plain.scalar reg = some value ->
    ScalarHolds ell (fun pid => (registers pid).scalar reg) value
  vector : ∀ reg value, plain.vector reg = some value ->
    VectorHolds ell (fun pid => (registers pid).vector reg) value

/-- The registers hold the plain values, and a revealed value is the plain
value, as canonical bytes, at every party. -/
structure Agrees
    (seen : ShrRep3Pid -> Observation n)
    (plain : PlainObservation ell n) : Prop where
  registers : RegistersHold (fun pid => (seen pid).registers) plain.registers
  revealed : ∃ bytes : Option (List UInt8),
    (∀ pid, (seen pid).revealed = bytes) ∧
    bytes.map (List.map (ringVal ell)) = plain.revealed ∧
    ∀ byte ∈ bytes.getD [], Canonical ell byte

section

variable {ell n : Nat}
variable {registers : ShrRep3Pid -> Registers n}
variable {plain : PlainRegisters ell n}

theorem RegistersHold.setScalar
    (holds : RegistersHold registers plain)
    (dst : Nat)
    (shares : ScalarHolds ell res value) :
    Agrees (fun pid => (registers pid).setScalar dst (res pid))
      (plain.setScalar dst value) where
  registers := {
    scalar := by
      intro reg value' written
      by_cases same : reg = dst
      · subst reg
        simp only [PlainRegisters.setScalar, Function.update_self,
          Option.some.injEq] at written
        subst value'
        simpa [Registers.setScalar] using shares
      · simp only [PlainRegisters.setScalar,
          Function.update_of_ne same] at written
        simpa [Registers.setScalar, same] using holds.scalar reg value' written
    vector := holds.vector }
  revealed := ⟨none, fun _ => rfl, rfl, by simp⟩

theorem RegistersHold.setVector
    (holds : RegistersHold registers plain)
    (dst : Nat)
    (shares : VectorHolds ell res value) :
    Agrees (fun pid => (registers pid).setVector dst (res pid))
      (plain.setVector dst value) where
  registers := {
    scalar := holds.scalar
    vector := by
      intro reg value' written
      by_cases same : reg = dst
      · subst reg
        simp only [PlainRegisters.setVector, Function.update_self,
          Option.some.injEq] at written
        subst value'
        simpa [Registers.setVector] using shares
      · simp only [PlainRegisters.setVector,
          Function.update_of_ne same] at written
        simpa [Registers.setVector, same] using
          holds.vector reg value' written }
  revealed := ⟨none, fun _ => rfl, rfl, by simp⟩

/-- A protocol whose result is stored in a scalar register. -/
theorem Computes.setScalar
    {procs : ShrRep3Pid -> Aby3M ShareScalar}
    (holds : RegistersHold registers plain)
    (dst : Nat)
    (computes : Computes procs s fun out => ScalarHolds ell out value) :
    Computes
      (fun pid => do
        let res ← procs pid
        return (registers pid).setScalar dst res) s
      fun seen => Agrees seen (plain.setScalar dst value) :=
  computes.bind fun res _ sync shares =>
    Computes.pure sync (fun pid => (registers pid).setScalar dst (res pid))
      (holds.setScalar dst shares)

/-- A protocol whose result is stored in a vector register. -/
theorem Computes.setVector
    {procs : ShrRep3Pid -> Aby3M (ShareVec n)}
    (holds : RegistersHold registers plain)
    (dst : Nat)
    (computes : Computes procs s fun out => VectorHolds ell out value) :
    Computes
      (fun pid => do
        let res ← procs pid
        return (registers pid).setVector dst res) s
      fun seen => Agrees seen (plain.setVector dst value) :=
  computes.bind fun res _ sync shares =>
    Computes.pure sync (fun pid => (registers pid).setVector dst (res pid))
      (holds.setVector dst shares)

variable {ccrh : Block -> Block -> Block}
variable {s : ShrRep3Pid -> CrngState}

/-- Either component of a share is an additive sharing of its value. -/
theorem reshare_own_computes
    (sync : Synchronised s)
    (ellLe : ell ≤ 8)
    (shares : ScalarHolds ell ss value) :
    (Computes (fun pid => reshare pid (ss pid).thisShare.toUInt8) s
      fun out => ScalarHolds ell out value) ∧
    (Computes (fun pid => reshare pid (ss pid).nxtShare.toUInt8) s
      fun out => ScalarHolds ell out value) := by
  have this := reshare_computes ell sync
    fun pid => (ss pid).thisShare.toUInt8
  have next := reshare_computes ell sync
    fun pid => (ss pid).nxtShare.toUInt8
  simp only [ringVal_toUInt8 ellLe] at this next
  rw [shares.total] at this
  simp only [shares.replicated] at next
  rw [sum3_NEXT fun pid => wordVal ell (ss pid).thisShare,
    shares.total] at next
  simp only [shares.replicated]
  exact ⟨this, next⟩

theorem reshareVec_own_computes
    {sv : ShrRep3Pid -> ShareVec n}
    (sync : Synchronised s)
    (shares : VectorHolds ell sv value) :
    (Computes (fun pid => reshareVec pid (sv pid).thisShare) s
      fun out => VectorHolds ell out value) ∧
    (Computes (fun pid => reshareVec pid (sv pid).nxtShare) s
      fun out => VectorHolds ell out value) := by
  have this := reshareVec_computes ell sync
    fun pid => (sv pid).thisShare
  have next := reshareVec_computes ell sync
    fun pid => (sv pid).nxtShare
  rw [shares.total] at this
  simp only [shares.replicated] at next
  rw [sum3_NEXT fun pid => (sv pid).thisShare.val ell, shares.total] at next
  simp only [shares.replicated]
  exact ⟨this, next⟩

/-- One instruction follows its plain meaning. -/
theorem Instr.computes
    (sync : Synchronised s)
    (ellPositive : 1 ≤ ell)
    (ellLe : ell ≤ 8)
    (holds : RegistersHold registers plain)
    (instr : Instr n)
    (meaning : instr.plain ell plain = some seen) :
    Computes (fun pid => instr.exec ccrh ell pid (registers pid)) s
      fun out => Agrees out seen := by
  cases instr with
  | share dst dealer num =>
      cases meaning
      exact (share_computes sync ellLe dealer num).setScalar holds dst
  | reshare dst source =>
      cases source with
      | own value =>
          cases meaning
          exact (reshare_computes ell sync value).setScalar holds dst
      | thisShare src =>
          obtain ⟨value, read, stored⟩ := Option.bind_eq_some_iff.mp meaning
          cases stored
          exact (reshare_own_computes sync ellLe
            (holds.scalar src value read)).1.setScalar holds dst
      | nxtShare src =>
          obtain ⟨value, read, stored⟩ := Option.bind_eq_some_iff.mp meaning
          cases stored
          exact (reshare_own_computes sync ellLe
            (holds.scalar src value read)).2.setScalar holds dst
  | add dst src1 src2 =>
      obtain ⟨value1, read1, rest⟩ := Option.bind_eq_some_iff.mp meaning
      obtain ⟨value2, read2, stored⟩ := Option.bind_eq_some_iff.mp rest
      cases stored
      exact Computes.pure sync _ (holds.setScalar dst
        ((holds.scalar src1 value1 read1).add ellLe
          (holds.scalar src2 value2 read2)))
  | sub dst src1 src2 =>
      obtain ⟨value1, read1, rest⟩ := Option.bind_eq_some_iff.mp meaning
      obtain ⟨value2, read2, stored⟩ := Option.bind_eq_some_iff.mp rest
      cases stored
      exact Computes.pure sync _ (holds.setScalar dst
        ((holds.scalar src1 value1 read1).sub ellLe
          (holds.scalar src2 value2 read2)))
  | mul dst src1 src2 =>
      obtain ⟨value1, read1, rest⟩ := Option.bind_eq_some_iff.mp meaning
      obtain ⟨value2, read2, stored⟩ := Option.bind_eq_some_iff.mp rest
      cases stored
      exact (mul_computes sync ellLe (holds.scalar src1 value1 read1)
        (holds.scalar src2 value2 read2)).setScalar holds dst
  | revealAll src =>
      obtain ⟨value, read, stored⟩ := Option.bind_eq_some_iff.mp meaning
      cases stored
      refine (revealAll_computes sync ellPositive ellLe
        (holds.scalar src value read)).bind ?_
      rintro out s' sync' ⟨byte, same, plainByte, canonical⟩
      refine Computes.pure sync' _ ⟨holds, some [byte], ?_, ?_, ?_⟩
      · intro pid
        rw [same]
      · rw [← plainByte]
        rfl
      · simpa using canonical
  | shareVec dst dealer vec =>
      cases meaning
      exact (shareVec_computes sync ellLe dealer vec).setVector holds dst
  | reshareVec dst source =>
      cases source with
      | own value =>
          cases meaning
          exact (reshareVec_computes ell sync value).setVector holds dst
      | thisShare src =>
          simp only [Instr.plain] at meaning
          split at meaning
          · cases meaning
          · next distinct =>
              obtain ⟨value, read, stored⟩ :=
                Option.bind_eq_some_iff.mp meaning
              cases stored
              simp only [Instr.exec, if_neg distinct]
              exact (reshareVec_own_computes sync
                (holds.vector src value read)).1.setVector holds dst
      | nxtShare src =>
          obtain ⟨value, read, stored⟩ := Option.bind_eq_some_iff.mp meaning
          cases stored
          exact (reshareVec_own_computes sync
            (holds.vector src value read)).2.setVector holds dst
  | addVec dst src1 src2 =>
      obtain ⟨value1, read1, rest⟩ := Option.bind_eq_some_iff.mp meaning
      obtain ⟨value2, read2, stored⟩ := Option.bind_eq_some_iff.mp rest
      cases stored
      exact Computes.pure sync _ (holds.setVector dst
        ((holds.vector src1 value1 read1).add ellLe
          (holds.vector src2 value2 read2)))
  | subVec dst src1 src2 =>
      obtain ⟨value1, read1, rest⟩ := Option.bind_eq_some_iff.mp meaning
      obtain ⟨value2, read2, stored⟩ := Option.bind_eq_some_iff.mp rest
      cases stored
      exact Computes.pure sync _ (holds.setVector dst
        ((holds.vector src1 value1 read1).sub ellLe
          (holds.vector src2 value2 read2)))
  | hadamard dst src1 src2 =>
      simp only [Instr.plain] at meaning
      split at meaning
      · cases meaning
      · next distinct =>
          obtain ⟨value1, read1, rest⟩ := Option.bind_eq_some_iff.mp meaning
          obtain ⟨value2, read2, stored⟩ := Option.bind_eq_some_iff.mp rest
          cases stored
          simp only [Instr.exec, if_neg distinct]
          exact (hadamard_computes sync ellLe
            (holds.vector src1 value1 read1)
            (holds.vector src2 value2 read2)).setVector holds dst
  | dot dst src1 src2 =>
      obtain ⟨value1, read1, rest⟩ := Option.bind_eq_some_iff.mp meaning
      obtain ⟨value2, read2, stored⟩ := Option.bind_eq_some_iff.mp rest
      cases stored
      exact (dot_computes sync ellLe (holds.vector src1 value1 read1)
        (holds.vector src2 value2 read2)).setScalar holds dst
  | revealAllVec src =>
      obtain ⟨value, read, stored⟩ := Option.bind_eq_some_iff.mp meaning
      cases stored
      refine (revealAllVec_computes sync ellLe
        (holds.vector src value read)).bind ?_
      rintro out s' sync' ⟨vec, same, plainVec, canonical⟩
      refine Computes.pure sync' _ ⟨holds, some vec.data, ?_, ?_, ?_⟩
      · intro pid
        rw [same]
      · rw [← plainVec]
        simp only [Rvector.data, List.map_ofFn, Option.map_some]
        rfl
      · simpa [Rvector.data] using canonical

/-- A program follows its plain run, instruction by instruction. -/
theorem execProgram_computes
    (ccrh : Block -> Block -> Block)
    (sync : Synchronised s)
    (ellPositive : 1 ≤ ell)
    (ellLe : ell ≤ 8)
    (holds : RegistersHold registers plain)
    (program : List (Instr n))
    (meaning : plainProgram ell program plain = some trace) :
    Computes (fun pid => execProgram ccrh ell pid program (registers pid)) s
      fun out => ∃ seen : List (ShrRep3Pid -> Observation n),
        (∀ pid, out pid = seen.map (· pid)) ∧
        List.Forall₂ Agrees seen trace := by
  induction program generalizing s registers plain trace with
  | nil =>
      cases meaning
      exact Computes.pure sync _ ⟨[], fun _ => rfl, .nil⟩
  | cons instr rest inductionHypothesis =>
      obtain ⟨now, first, afterwards⟩ := Option.bind_eq_some_iff.mp meaning
      obtain ⟨later, others, whole⟩ := Option.bind_eq_some_iff.mp afterwards
      cases whole
      refine (instr.computes sync ellPositive ellLe holds first).bind ?_
      intro out s' sync' agrees
      refine (inductionHypothesis sync' agrees.registers others).bind ?_
      rintro out' s'' sync'' ⟨seen, same, agree⟩
      refine Computes.pure sync'' (fun pid => out pid :: out' pid)
        ⟨out :: seen, ?_, .cons agrees agree⟩
      intro pid
      exact congrArg (out pid :: ·) (same pid)

/-- Construction exchanges the keys and leaves the instances synchronised. -/
theorem construct_completes
    (keyThis : ShrRep3Pid -> Block)
    (cache : ShrRep3Pid -> Bytes16) :
    ∃ s', Completes (I := aby3Net)
      (fun pid => construct pid (keyThis pid) (cache pid)) s' ∧
        Synchronised s' := by
  have rotated := completes_exchange (I := aby3Net) ShrRep3Pid.NEXT
    ShrRep3Pid.PREV (fun pid => List.ofFn (blockBytes (keyThis pid)))
    (fun _ => 16) ShrRep3Pid.PREV_NEXT ShrRep3Pid.NEXT_PREV
    (fun _ => List.length_ofFn)
  refine ⟨_, rotated.bind (Completes.pure (I := aby3Net) _), ?_⟩
  exact {
    id := fun _ => rfl
    ptr := fun _ => rfl
    isXor := fun _ => rfl
    keys := fun pid => by
      simp only [List.getD_eq_getElem?_getD, List.getElem?_ofFn]
      simp
    cache := fun inside => absurd inside (Nat.lt_irrefl _) }

end

/-- Under every schedule, the three parties follow the plain run of the
program: no schedule gets stuck or runs forever, and in the end every party
has seen, after every instruction, replicated shares of the plain registers
and the plain value of everything revealed. -/
theorem program_correct
    (ccrh : Block -> Block -> Block)
    (ell n : Nat)
    (ellPositive : 1 ≤ ell)
    (ellLe : ell ≤ 8)
    (program : List (Instr n))
    (trace : List (PlainObservation ell n))
    (meaning : plainProgram ell program (.empty ell n) = some trace)
    (keyThis : ShrRep3Pid -> Block)
    (cache : ShrRep3Pid -> Bytes16)
    (registers : ShrRep3Pid -> Registers n) :
    ∃ seen : List (ShrRep3Pid -> Observation n),
      List.Forall₂ Agrees seen trace ∧
      ∃ length, ∀ steps d,
        Run steps (start (I := aby3Net) fun pid =>
          partyProgram ccrh ell pid program (keyThis pid) (cache pid)
            (registers pid)) d ->
        ∃ rest, length = steps + rest ∧
          Run rest d (returned fun pid => seen.map (· pid)) := by
  obtain ⟨s, constructed, sync⟩ := construct_completes keyThis cache
  have unwritten : RegistersHold registers (.empty ell n) :=
    { scalar := fun _ _ written => by cases written
      vector := fun _ _ written => by cases written }
  obtain ⟨out, s', completes, -, seen, same, agree⟩ :=
    execProgram_computes ccrh sync ellPositive ellLe unwritten
      program meaning
  refine ⟨seen, agree, ?_⟩
  have results : out = fun pid => seen.map (· pid) := funext same
  subst results
  have executed : Completes (I := aby3Net)
      (fun pid => (execProgram ccrh ell pid program (registers pid)).run'
        (s pid))
      fun pid => seen.map (· pid) :=
    completes.bind fun Out' next => ⟨0, .refl _⟩
  have whole : Completes (I := aby3Net)
      (fun pid => partyProgram ccrh ell pid program (keyThis pid) (cache pid)
        (registers pid))
      fun pid => seen.map (· pid) :=
    constructed.bind executed
  exact whole.every_run

/-- Two vectors are multiplied element by element and revealed. -/
def sampleProgram : List (Instr 2) :=
  [.shareVec 0 .P0 ![1, 7], .shareVec 1 .P1 ![2, 3], .hadamard 2 0 1,
    .revealAllVec 2]

/-- Over `Z_8` the three parties reveal `1 * 2` and `7 * 3`. -/
theorem program_correct_sample :
    ∃ trace, plainProgram 3 sampleProgram (.empty 3 2) = some trace ∧
      trace.map (·.revealed) = [none, none, none, some [2, 5]] ∧
      ∃ seen : List (ShrRep3Pid -> Observation 2),
        List.Forall₂ Agrees seen trace ∧
        ∃ length, ∀ steps d,
          Run steps (start (I := aby3Net) fun pid =>
            partyProgram (fun key state => key + state) 3 pid sampleProgram 7
              (fun _ => 0)
              { scalar := fun _ => { thisShare := 0, nxtShare := 0 }
                vector := fun _ => { thisShare := fun _ => 0
                                     nxtShare := fun _ => 0 } }) d ->
          ∃ rest, length = steps + rest ∧
            Run rest d (returned fun pid => seen.map (· pid)) :=
  ⟨_, rfl, by decide, program_correct (fun key state => key + state) 3 2
    (by decide) (by decide) sampleProgram _ rfl (fun _ => 7) (fun _ _ => 0)
    fun _ => _⟩

end Rep3
end Mpmt
