import Mpmt.Dpf.Eval
import Mpmt.Library.Dialogs
import Mpmt.Query.Hash
import Mpmt.Rep3.Aby3

/-!
# The Querier, the three Agents and their channels

`RingTransport`, `Emp2` and the scalar ring operations, over the network of
the query protocol.  All instances two parties build between them share one
channel.  A circuit of `Emp2` is a joint step of its two parties that leaves an
additive share of the named function at each: the first party keeps its mask.
-/

namespace Mpmt
namespace Query

open Network
open Dpf (Block Bytes16)

/-- The four parties of a query. -/
inductive Party
  | QUERIER
  | STEWARD
  | PEER0
  | PEER1
  deriving DecidableEq, Repr

/-- What ends a party early. -/
inductive Error
  | invalid_argument
  | out_of_range
  | decode (error : Dpf.DecodeError)
  | eval (error : Dpf.EvalError)
  | rep3 (error : Rep3.Aby3Error)
  deriving DecidableEq, Repr

/-! ## Circuits -/

/-- A circuit as one party calls it, with its own inputs and mask. -/
inductive Call
  | session
  | hash (ell : Nat) (my_pt my_key : List UInt8) (r : Nat)
  | mod (ell my_a mv t : Nat)
  | equalityTest (ell my_a my_b r : Nat)

/-- The mask stays with the first party and the second gets the rest. -/
def reshared (ell value r : Nat) : Nat × Nat :=
  (r, (value + 2 ^ ell - r) % 2 ^ ell)

/-- What a circuit gives its two parties. -/
def Call.meaning (aes : Block -> Block -> Block) :
    Call -> Call -> Option (Nat × Nat)
  | .session, .session => some (0, 0)
  | .hash ell pt key r, .hash ell' pt' key' _ =>
      if ell = ell' ∧ nBlocks pt.length = nBlocks pt'.length then
        some (reshared ell (circuitHash aes ell pt pt' key key') r)
      else none
  | .mod ell a mv t, .mod ell' a' mv' _ =>
      if ell = ell' ∧ mv = mv' then
        some (reshared ell ((a + a') % 2 ^ ell % mv) t)
      else none
  | .equalityTest ell a b r, .equalityTest ell' a' b' _ =>
      if ell = ell' then
        some (reshared ell
          (if (a + a') % 2 ^ ell = (b + b') % 2 ^ ell then 1 else 0) r)
      else none
  | _, _ => none

/-- The network of the query protocol. -/
abbrev queryNet (aes : Block -> Block -> Block) : Signature where
  Party := Party
  Sym := UInt8
  Call := Call
  Res := Nat
  Err := Error
  meaning := Call.meaning aes

/-! ## Scalars on the wire -/

/-- The low `count` bytes of a value, least significant first. -/
def leBytes : Nat -> Nat -> List UInt8
  | 0, _ => []
  | count + 1, val => UInt8.ofNat val :: leBytes count (val / 256)

/-- The value of little-endian bytes. -/
def ofLeBytes : List UInt8 -> Nat
  | [] => 0
  | byte :: rest => byte.toNat + 256 * ofLeBytes rest

@[simp] theorem length_leBytes (count val : Nat) :
    (leBytes count val).length = count := by
  induction count generalizing val with
  | zero => rfl
  | succ count inductionHypothesis => simp [leBytes, inductionHypothesis]

theorem ofLeBytes_leBytes
    (count : Nat)
    (fits : val < 256 ^ count) : ofLeBytes (leBytes count val) = val := by
  induction count generalizing val with
  | zero =>
      rw [Nat.pow_zero] at fits
      simp only [leBytes, ofLeBytes]
      omega
  | succ count inductionHypothesis =>
      have later : val / 256 < 256 ^ count :=
        Nat.div_lt_of_lt_mul (by rwa [← Nat.pow_succ'])
      rw [leBytes, ofLeBytes, inductionHypothesis later]
      simp only [UInt8.toNat_ofNat']
      omega

/-- Bytes of a scalar of `RingTransport`. -/
def BYTES (ell : Nat) : Nat := (ell + 7) / 8

theorem two_pow_le_bytes (ell : Nat) : 2 ^ ell ≤ 256 ^ BYTES ell := by
  have base : (256 : Nat) = 2 ^ 8 := rfl
  rw [base, ← Nat.pow_mul]
  apply Nat.pow_le_pow_right (by omega)
  unfold BYTES
  omega

section

variable {aes : Block -> Block -> Block}

/-! ## Ring operations -/

/-- `ring_add`. -/
def ring_add (ell a b : Nat) : Except Error Nat :=
  if ell < 1 ∨ ell > 31 then .error .invalid_argument
  else if a ≥ 2 ^ ell then .error .invalid_argument
  else if b ≥ 2 ^ ell then .error .invalid_argument
  else .ok ((a + b) % 2 ^ 64 % 2 ^ ell)

/-- `ring_sub`. -/
def ring_sub (ell a b : Nat) : Except Error Nat :=
  if ell < 1 ∨ ell > 31 then .error .invalid_argument
  else if a ≥ 2 ^ ell then .error .invalid_argument
  else if b ≥ 2 ^ ell then .error .invalid_argument
  else .ok ((a + 2 ^ 64 - b) % 2 ^ 64 % 2 ^ ell)

/-- `ringSub32<ELL>` on 32-bit words. -/
def ringSub32 (ell a b : Nat) : Nat := (a + 2 ^ 32 - b) % 2 ^ 32 % 2 ^ ell

/-- An exception ends the party. -/
def raise : Except Error Out -> Proc (queryNet aes) Out
  | .ok out => pure out
  | .error error => throw (I := queryNet aes) error

@[simp] theorem raise_ok (out : Out) :
    (raise (.ok out) : Proc (queryNet aes) Out) = pure out := rfl

/-! ## `RingTransport` -/

namespace RingTransport

/-- `send_scalar`. -/
def send_scalar (ell : Nat) (peer : Party) (val : Nat) :
    Proc (queryNet aes) Unit :=
  if val > 2 ^ ell - 1 then throw (I := queryNet aes) .invalid_argument
  else send (I := queryNet aes) peer (leBytes (BYTES ell) val)

/-- `recv_scalar`. -/
def recv_scalar (ell : Nat) (peer : Party) : Proc (queryNet aes) Nat := do
  let buf ← recv (I := queryNet aes) peer (BYTES ell)
  return ofLeBytes buf % 2 ^ ell

end RingTransport

/-! ## `Emp2` -/

namespace Emp2

/-- `rand_mask`: a random 32-bit word, cut to the ring. -/
def rand_mask (ell : Nat) (v : UInt32) : Nat := v.toNat % 2 ^ ell

/-- `Emp2::Emp2`; `a` tells whether this party is `ALICE`. -/
def construct (a : Bool) (peer : Party) (seed : Bytes16) :
    Proc (queryNet aes) Unit := do
  if a then send (I := queryNet aes) peer (List.ofFn seed)
  else discard (recv (I := queryNet aes) peer 16)
  discard (join (I := queryNet aes) a peer .session)

/-- `share`: send the complement and keep the mask. -/
def share (ell : Nat) (peer : Party) (value : Nat) (v : UInt32) :
    Proc (queryNet aes) Nat := do
  let r := rand_mask ell v
  send (I := queryNet aes) peer (leBytes 4 (ringSub32 ell value r))
  return r

/-- `recvShare`, and `recv` of a scalar. -/
def recvShare (peer : Party) : Proc (queryNet aes) Nat := do
  let bytes ← recv (I := queryNet aes) peer 4
  return ofLeBytes bytes

/-- `send` of a scalar, behind the range check of `send_data`. -/
def send_data (ell : Nat) (peer : Party) (val : Nat) :
    Proc (queryNet aes) Unit :=
  if val ≥ 2 ^ ell then throw (I := queryNet aes) .invalid_argument
  else send (I := queryNet aes) peer (leBytes 4 val)

/-- The bytes `shareBytes` draws. -/
def localShare (plain : List UInt8) (mask : Nat -> UInt8) : List UInt8 :=
  (List.range plain.length).map mask

/-- `shareBytes`: the length, then the peer's share. -/
def shareBytes (peer : Party) (plain : List UInt8) (mask : Nat -> UInt8) :
    Proc (queryNet aes) (List UInt8) := do
  let myShare := localShare plain mask
  send (I := queryNet aes) peer (leBytes 8 plain.length)
  send (I := queryNet aes) peer (xorBytes plain myShare)
  return myShare

/-- `recvBytes`. -/
def recvBytes (peer : Party) : Proc (queryNet aes) (List UInt8) := do
  let len ← recv (I := queryNet aes) peer 8
  recv (I := queryNet aes) peer (ofLeBytes len)

/-- `hash`. -/
def hash (ell : Nat) (a : Bool) (peer : Party) (my_pt my_key : List UInt8)
    (v : UInt32) : Proc (queryNet aes) Nat :=
  join (I := queryNet aes) a peer (.hash ell my_pt my_key (rand_mask ell v))

/-- `mod`. -/
def mod (ell : Nat) (a : Bool) (peer : Party) (my_a mv : Nat) (v : UInt32) :
    Proc (queryNet aes) Nat :=
  if mv = 0 then throw (I := queryNet aes) .invalid_argument
  else if mv ≥ 2 ^ ell then throw (I := queryNet aes) .invalid_argument
  else join (I := queryNet aes) a peer (.mod ell my_a mv (rand_mask ell v))

/-- `equalityTest`. -/
def equalityTest (ell : Nat) (a : Bool) (peer : Party) (my_a my_b : Nat)
    (v : UInt32) : Proc (queryNet aes) Nat :=
  join (I := queryNet aes) a peer
    (.equalityTest ell my_a my_b (rand_mask ell v))

end Emp2

end

/-! ## What the operations do -/

section

variable {aes : Block -> Block -> Block} {p q : Party}

theorem ring_add_eq_ok
    (ellPositive : 1 ≤ ell)
    (ellLe : ell ≤ 31)
    (aLt : a < 2 ^ ell)
    (bLt : b < 2 ^ ell) : ring_add ell a b = .ok ((a + b) % 2 ^ ell) := by
  rw [ring_add, if_neg (by omega), if_neg (by omega), if_neg (by omega),
    Nat.mod_mod_of_dvd _ (Nat.pow_dvd_pow 2 (by omega))]

/-- Subtraction wraps around in the ring. -/
theorem ring_sub_eq_ok
    (ellPositive : 1 ≤ ell)
    (ellLe : ell ≤ 31)
    (aLt : a < 2 ^ ell)
    (bLt : b < 2 ^ ell) :
    ring_sub ell a b = .ok ((a + 2 ^ ell - b) % 2 ^ ell) := by
  obtain ⟨c, whole⟩ : 2 ^ ell ∣ 2 ^ 64 := Nat.pow_dvd_pow 2 (by omega)
  have cPositive : 0 < c := Nat.pos_of_ne_zero fun zero => by
    simp [zero] at whole
  obtain ⟨c, rfl⟩ := Nat.exists_eq_succ_of_ne_zero cPositive.ne'
  have wrapped : a + 2 ^ 64 - b = a + 2 ^ ell - b + 2 ^ ell * c := by
    rw [whole, Nat.mul_succ]
    omega
  rw [ring_sub, if_neg (by omega), if_neg (by omega), if_neg (by omega),
    Nat.mod_mod_of_dvd _ (Nat.pow_dvd_pow 2 (by omega)), wrapped,
    Nat.add_mul_mod_self_left]

theorem ringSub32_eq
    (ellLe : ell ≤ 31)
    (bLt : b < 2 ^ ell) :
    ringSub32 ell a b = (a + 2 ^ ell - b) % 2 ^ ell := by
  obtain ⟨c, whole⟩ : 2 ^ ell ∣ 2 ^ 32 := Nat.pow_dvd_pow 2 (by omega)
  have cPositive : 0 < c := Nat.pos_of_ne_zero fun zero => by
    simp [zero] at whole
  obtain ⟨c, rfl⟩ := Nat.exists_eq_succ_of_ne_zero cPositive.ne'
  have wrapped : a + 2 ^ 32 - b = a + 2 ^ ell - b + 2 ^ ell * c := by
    rw [whole, Nat.mul_succ]
    omega
  rw [ringSub32, Nat.mod_mod_of_dvd _ (Nat.pow_dvd_pow 2 (by omega)), wrapped,
    Nat.add_mul_mod_self_left]

theorem reshared_snd_lt (ell value r : Nat) :
    (reshared ell value r).2 < 2 ^ ell :=
  Nat.mod_lt _ (by positivity)

/-- The two results of a circuit are additive shares of its value. -/
theorem add_reshared
    (valueLt : value < 2 ^ ell)
    (rLt : r < 2 ^ ell) :
    ((reshared ell value r).1 + (reshared ell value r).2) % 2 ^ ell =
      value := by
  rw [reshared]
  dsimp only
  rw [Nat.add_mod_mod]
  have whole : r + (value + 2 ^ ell - r) = value + 2 ^ ell := by omega
  rw [whole, Nat.add_mod_right, Nat.mod_eq_of_lt valueLt]

/-- Opening a circuit result. -/
theorem ring_add_reshared
    (ellPositive : 1 ≤ ell)
    (ellLe : ell ≤ 31)
    (valueLt : value < 2 ^ ell)
    (rLt : r < 2 ^ ell) :
    ring_add ell (reshared ell value r).2 (reshared ell value r).1 =
      .ok value := by
  have kept : (reshared ell value r).1 < 2 ^ ell := rLt
  rw [ring_add_eq_ok ellPositive ellLe (reshared_snd_lt _ _ _) kept,
    Nat.add_comm, add_reshared valueLt rLt]

theorem rand_mask_lt (ell : Nat) (v : UInt32) :
    Emp2.rand_mask ell v < 2 ^ ell :=
  Nat.mod_lt _ (by positivity)

/-- A scalar in range arrives. -/
theorem dialog_scalar (valLt : val < 2 ^ ell) :
    Dialog (I := queryNet aes) p q (RingTransport.send_scalar ell q val)
      (RingTransport.recv_scalar ell p) () val := by
  have sent : (RingTransport.send_scalar ell q val :
      Proc (queryNet aes) Unit) =
        send (I := queryNet aes) q (leBytes (BYTES ell) val) :=
    if_neg (by omega)
  have read := (Dialog.transfer (I := queryNet aes) (p := p) (q := q)
    (leBytes (BYTES ell) val) (length_leBytes _ _)).map_right
      fun buf => ofLeBytes buf % 2 ^ ell
  rw [ofLeBytes_leBytes _ (valLt.trans_le (two_pow_le_bytes ell)),
    Nat.mod_eq_of_lt valLt] at read
  rw [sent]
  exact read

private theorem dialog_word (valLt : val < 2 ^ 31) :
    Dialog (I := queryNet aes) p q
      (send (I := queryNet aes) q (leBytes 4 val)) (Emp2.recvShare p) ()
      val := by
  have read := (Dialog.transfer (I := queryNet aes) (p := p) (q := q)
    (leBytes 4 val) (length_leBytes _ _)).map_right ofLeBytes
  rw [ofLeBytes_leBytes _ (by omega)] at read
  exact read

theorem dialog_data
    (ellLe : ell ≤ 31)
    (valLt : val < 2 ^ ell) :
    Dialog (I := queryNet aes) p q (Emp2.send_data ell q val)
      (Emp2.recvShare p) () val := by
  have sent : (Emp2.send_data ell q val : Proc (queryNet aes) Unit) =
      send (I := queryNet aes) q (leBytes 4 val) := if_neg (by omega)
  rw [sent]
  exact dialog_word (valLt.trans_le (Nat.pow_le_pow_right (by omega) ellLe))

/-- What the receiver of a shared scalar gets. -/
def passedShare (ell value : Nat) (v : UInt32) : Nat :=
  (value + 2 ^ ell - Emp2.rand_mask ell v) % 2 ^ ell

theorem passedShare_lt (ell value : Nat) (v : UInt32) :
    passedShare ell value v < 2 ^ ell :=
  Nat.mod_lt _ (by positivity)

/-- The sender of a shared scalar keeps its mask. -/
theorem dialog_share
    (ellLe : ell ≤ 31)
    (value : Nat)
    (v : UInt32) :
    Dialog (I := queryNet aes) p q (Emp2.share ell q value v)
      (Emp2.recvShare p) (Emp2.rand_mask ell v) (passedShare ell value v) := by
  have below := passedShare_lt ell value v
  rw [passedShare, ← ringSub32_eq ellLe (rand_mask_lt ell v)] at below ⊢
  refine (dialog_word ?_).map_left fun _ => Emp2.rand_mask ell v
  exact below.trans_le (Nat.pow_le_pow_right (by omega) ellLe)

/-- A circuit, whichever of the two parties is named first. -/
theorem dialog_construct (seed unused : Bytes16) :
    Dialog (I := queryNet aes) p q (Emp2.construct true q seed)
      (Emp2.construct false p unused) () () := by
  have seeded := (Dialog.transfer (I := queryNet aes) (p := p) (q := q)
    (List.ofFn seed) List.length_ofFn).map_right fun _ => ()
  have met : Dialog (I := queryNet aes) p q
      (join true q .session) (join false p .session) 0 0 :=
    Dialog.joint rfl
  exact seeded.bind ((met.map_right fun _ => ()).map_left fun _ => ())

theorem length_localShare (plain : List UInt8) (mask : Nat -> UInt8) :
    (Emp2.localShare plain mask).length = plain.length := by
  simp [Emp2.localShare]

/-- The two shares of a byte string. -/
theorem dialog_shareBytes
    (plain : List UInt8)
    (fits : plain.length < 2 ^ 64)
    (mask : Nat -> UInt8) :
    Dialog (I := queryNet aes) p q (Emp2.shareBytes q plain mask)
      (Emp2.recvBytes p) (Emp2.localShare plain mask)
      (xorBytes plain (Emp2.localShare plain mask)) := by
  have size : ofLeBytes (leBytes 8 plain.length) = plain.length :=
    ofLeBytes_leBytes 8 fits
  have announced := Dialog.transfer (I := queryNet aes) (p := p) (q := q)
    (leBytes 8 plain.length) (length_leBytes _ _)
  have sent : Dialog (I := queryNet aes) p q
      (send (I := queryNet aes) q
        (xorBytes plain (Emp2.localShare plain mask)))
      (recv (I := queryNet aes) p (ofLeBytes (leBytes 8 plain.length))) ()
      (xorBytes plain (Emp2.localShare plain mask)) :=
    Dialog.transfer _
      (by rw [length_xorBytes, length_localShare, size, Nat.min_self])
  exact announced.bind (sent.map_left fun _ => Emp2.localShare plain mask)

/-- The shares of a byte string cancel. -/
theorem xorBytes_localShare (plain : List UInt8) (mask : Nat -> UInt8) :
    xorBytes (Emp2.localShare plain mask)
      (xorBytes plain (Emp2.localShare plain mask)) = plain := by
  apply List.ext_getElem
  · simp [length_localShare]
  · intro index inside inside'
    simp only [xorBytes, List.getElem_zipWith]
    rw [UInt8.xor_comm plain[index], ← UInt8.xor_assoc, UInt8.xor_self,
      UInt8.zero_xor]

theorem dialog_hash (sameBlocks : aPt.length = bPt.length) :
    Dialog (I := queryNet aes) p q (Emp2.hash ell true q aPt aKey v)
      (Emp2.hash ell false p bPt bKey v')
      (reshared ell (circuitHash aes ell aPt bPt aKey bKey)
        (Emp2.rand_mask ell v)).1
      (reshared ell (circuitHash aes ell aPt bPt aKey bKey)
        (Emp2.rand_mask ell v)).2 :=
  Dialog.joint (by simp [Call.meaning, sameBlocks])

theorem mod_eq_join
    (mvPositive : 0 < mv)
    (mvLt : mv < 2 ^ ell)
    (a : Bool)
    (peer : Party)
    (my_a : Nat)
    (v : UInt32) :
    (Emp2.mod ell a peer my_a mv v : Proc (queryNet aes) Nat) =
      join (I := queryNet aes) a peer
        (.mod ell my_a mv (Emp2.rand_mask ell v)) := by
  rw [Emp2.mod, if_neg (by omega), if_neg (by omega)]

/-- Any other modulus is refused. -/
theorem mod_eq_throw
    (unusable : ¬(0 < mv ∧ mv < 2 ^ ell))
    (a : Bool)
    (peer : Party)
    (my_a : Nat)
    (v : UInt32) :
    (Emp2.mod ell a peer my_a mv v : Proc (queryNet aes) Nat) =
      throw (I := queryNet aes) .invalid_argument := by
  rw [Emp2.mod]
  split
  · rfl
  · rw [if_pos (by omega)]

theorem dialog_mod
    (mvPositive : 0 < mv)
    (mvLt : mv < 2 ^ ell)
    (sum : (a + a') % 2 ^ ell = value) :
    Dialog (I := queryNet aes) p q (Emp2.mod ell true q a mv v)
      (Emp2.mod ell false p a' mv v')
      (reshared ell (value % mv) (Emp2.rand_mask ell v)).1
      (reshared ell (value % mv) (Emp2.rand_mask ell v)).2 := by
  rw [mod_eq_join mvPositive mvLt, mod_eq_join mvPositive mvLt]
  exact Dialog.joint (by simp [Call.meaning, sum])

theorem dialog_equalityTest
    (sum : (a + a') % 2 ^ ell = value)
    (sum' : (b + b') % 2 ^ ell = value') :
    Dialog (I := queryNet aes) p q (Emp2.equalityTest ell true q a b v)
      (Emp2.equalityTest ell false p a' b' v')
      (reshared ell (if value = value' then 1 else 0)
        (Emp2.rand_mask ell v)).1
      (reshared ell (if value = value' then 1 else 0)
        (Emp2.rand_mask ell v)).2 :=
  Dialog.joint (by simp [Call.meaning, sum, sum'])

end

/-! ## The four parties -/

/-- What each of the four parties has. -/
def group (querier steward peer0 peer1 : A) : Party -> A
  | .QUERIER => querier
  | .STEWARD => steward
  | .PEER0 => peer0
  | .PEER1 => peer1

/-- A network of the four parties, whatever they exchange. -/
abbrev partyNet
    (Sym Err : Type)
    (meaning : C -> C -> Option (R × R)) : Signature where
  Party := Party
  Sym := Sym
  Call := C
  Res := R
  Err := Err
  meaning := meaning

section

variable {Sym Err C R Out A B : Type} {meaning : C -> C -> Option (R × R)}
variable {querier steward peer0 peer1 : Proc (partyNet Sym Err meaning) Out}
variable {left : Proc (partyNet Sym Err meaning) A}
variable {right : Proc (partyNet Sym Err meaning) B}
variable {next : A -> Proc (partyNet Sym Err meaning) Out}
variable {next' : B -> Proc (partyNet Sym Err meaning) Out}

private theorem leads_of_dialog
    {p q : Party}
    {procs procs' : Party -> Proc (partyNet Sym Err meaning) Out}
    (different : p ≠ q)
    (dialog : Dialog (I := partyNet Sym Err meaning) p q left right a b)
    (atLeft : procs p = left >>= next)
    (atRight : procs q = right >>= next')
    (after : replace (I := partyNet Sym Err meaning) procs p q (next a)
      (next' b) = procs') :
    Leads (I := partyNet Sym Err meaning) procs procs' :=
  after ▸ dialog.leads different procs atLeft atRight

theorem leads_querier_steward
    (dialog : Dialog (I := partyNet Sym Err meaning) .QUERIER .STEWARD left right
      a b) :
    Leads (I := partyNet Sym Err meaning)
      (group (left >>= next) (right >>= next') peer0 peer1)
      (group (next a) (next' b) peer0 peer1) :=
  leads_of_dialog (by decide) dialog rfl rfl
    (by funext party; cases party <;> rfl)

theorem leads_querier_peer0
    (dialog : Dialog (I := partyNet Sym Err meaning) .QUERIER .PEER0 left right
      a b) :
    Leads (I := partyNet Sym Err meaning)
      (group (left >>= next) steward (right >>= next') peer1)
      (group (next a) steward (next' b) peer1) :=
  leads_of_dialog (by decide) dialog rfl rfl
    (by funext party; cases party <;> rfl)

theorem leads_querier_peer1
    (dialog : Dialog (I := partyNet Sym Err meaning) .QUERIER .PEER1 left right
      a b) :
    Leads (I := partyNet Sym Err meaning)
      (group (left >>= next) steward peer0 (right >>= next'))
      (group (next a) steward peer0 (next' b)) :=
  leads_of_dialog (by decide) dialog rfl rfl
    (by funext party; cases party <;> rfl)

theorem leads_steward_peer0
    (dialog : Dialog (I := partyNet Sym Err meaning) .STEWARD .PEER0 left right
      a b) :
    Leads (I := partyNet Sym Err meaning)
      (group querier (left >>= next) (right >>= next') peer1)
      (group querier (next a) (next' b) peer1) :=
  leads_of_dialog (by decide) dialog rfl rfl
    (by funext party; cases party <;> rfl)

theorem leads_steward_peer1
    (dialog : Dialog (I := partyNet Sym Err meaning) .STEWARD .PEER1 left right
      a b) :
    Leads (I := partyNet Sym Err meaning)
      (group querier (left >>= next) peer0 (right >>= next'))
      (group querier (next a) peer0 (next' b)) :=
  leads_of_dialog (by decide) dialog rfl rfl
    (by funext party; cases party <;> rfl)

theorem leads_peer0_peer1
    (dialog : Dialog (I := partyNet Sym Err meaning) .PEER0 .PEER1 left right
      a b) :
    Leads (I := partyNet Sym Err meaning)
      (group querier steward (left >>= next) (right >>= next'))
      (group querier steward (next a) (next' b)) :=
  leads_of_dialog (by decide) dialog rfl rfl
    (by funext party; cases party <;> rfl)

end

end Query
end Mpmt
