import Mpmt.Library.Views
import Mpmt.Rep3.CrngStream
import Mpmt.Rep3.Correct

/-!
# Sharing a Bloom filter

`SetHolder.share_bf` and `AgentServer.response_share_bf`.  The holder takes the
place of `P0` in a ring with PEER0 and PEER1, shares its filter there, and
hands its own pair of shares to the Steward, who takes no part in the ring.

The pseudorandom stream of a key is what privacy rests on; an Agent knows the
streams of the keys it holds.
-/

namespace Mpmt
namespace Rep3

open Network RingMath
open Dpf (Block Bytes16 blockBytes bytesBlock bytesBlock_blockBytes)

/-! ## Parties and channels -/

/-- The parties that share a filter. -/
inductive BfParty
  | HOLDER
  | STEWARD
  | PEER0
  | PEER1
  deriving DecidableEq, Repr

/-- Their network. -/
abbrev shareNet : Signature where
  Party := BfParty
  Sym := UInt8
  Call := Empty
  Res := Empty
  Err := Aby3Error
  meaning call := nomatch call

/-- `ServerRole`. -/
inductive ServerRole
  | STEWARD
  | PEER0
  | PEER1
  deriving DecidableEq, Repr

/-- The Agent with a role. -/
def ServerRole.party : ServerRole -> BfParty
  | .STEWARD => .STEWARD
  | .PEER0 => .PEER0
  | .PEER1 => .PEER1

/-- `int(server_role)`, as a party of the replicated sharing. -/
def ServerRole.pid : ServerRole -> ShrRep3Pid
  | .STEWARD => .P0
  | .PEER0 => .P1
  | .PEER1 => .P2

/-- `_ch_prev` of an Agent. -/
def ServerRole.ch_prev : ServerRole -> BfParty
  | .STEWARD => .PEER1
  | .PEER0 => .STEWARD
  | .PEER1 => .PEER0

/-- `_ch_nxt` of an Agent. -/
def ServerRole.ch_nxt : ServerRole -> BfParty
  | .STEWARD => .PEER0
  | .PEER0 => .PEER1
  | .PEER1 => .STEWARD

/-- The party at the other end of the channel to a party of the ring; an
instance does not talk to itself. -/
def channel (me ch_prev ch_nxt : BfParty) (pid peer : ShrRep3Pid) : BfParty :=
  if peer = pid.PREV then ch_prev
  else if peer = pid.NEXT then ch_nxt
  else me

/-- A protocol of an instance over the channels it was built with. -/
def overChannels (channel : ShrRep3Pid -> BfParty) :
    Proc aby3Net Out -> Proc shareNet Out
  | .ret out => .ret out
  | .throw error => .throw error
  | .send peer data next => .send (channel peer) data
      (overChannels channel next)
  | .recv peer count next => .recv (channel peer) count fun data =>
      overChannels channel (next data)
  | .join _ _ call _ => nomatch call

/-! ## The protocol -/

/-- The pseudorandom bits of a key. -/
def keyStream
    (ccrh : Block -> Block -> Block)
    (n : Nat)
    (key : Block) : Fin n -> Bool :=
  fun i => (ccrh key (RngId.ofCount (i.val / 128)).block).getLsbD (i.val % 128)

/-- What a party has at the end: its shares, the keys it holds, and their
streams. -/
structure Held (n : Nat) where
  share : ShareVec n
  keys : List Block
  streams : List (Fin n -> Bool)

section

variable (ccrh : Block -> Block -> Block)

/-- What the owner of an instance has. -/
def CrngState.held (s : CrngState) (share : ShareVec n) : Held n where
  share := share
  keys := [s.keyThis, s.keyPrev]
  streams := [keyStream ccrh n s.keyThis, keyStream ccrh n s.keyPrev]

/-- The instance of the holder, `ShrRep3(ell=1, party=0)(ch_peer1, ch_peer0)`. -/
def holderRing : Proc aby3Net Out -> Proc shareNet Out :=
  overChannels (channel .HOLDER .PEER1 .PEER0 .P0)

/-- The instance of a peer: one channel leads to the holder, the other one is
the Agent's own. -/
def peerRing (server_role : ServerRole) :
    Proc aby3Net Out -> Proc shareNet Out :=
  let (ch_prev, ch_nxt) :=
    if server_role = .PEER0 then (.HOLDER, server_role.ch_nxt)
    else (server_role.ch_prev, .HOLDER)
  overChannels (channel server_role.party ch_prev ch_nxt server_role.pid)

/-- `SetHolder.share_bf`, from the filter on. -/
def share_bf (keyThis : Block) (cache : Bytes16) (bf : Rvector n) :
    Proc shareNet (Held n) := do
  let s ← holderRing (construct .P0 keyThis cache)
  let (sv, s) ← holderRing ((shareVec ccrh 1 .P0 bf).run s)
  send (I := shareNet) .STEWARD sv.thisShare.data
  send (I := shareNet) .STEWARD sv.nxtShare.data
  return s.held ccrh sv

/-- `response_share_bf` of an Agent, until it has its share of the filter. -/
def response_share_bf
    (n : Nat)
    (server_role : ServerRole)
    (keyThis : Block)
    (cache : Bytes16) : Proc shareNet (Held n) :=
  match server_role with
  | .STEWARD => do
      let this_share ← recv (I := shareNet) .HOLDER n
      let nxt_share ← recv (I := shareNet) .HOLDER n
      return {
        share := {
          thisShare := Rvector.ofData n this_share
          nxtShare := Rvector.ofData n nxt_share }
        keys := []
        streams := [] }
  | server_role => do
      let s ← peerRing server_role (construct server_role.pid keyThis cache)
      let (sv, s) ← peerRing server_role
        ((recvShareVec ccrh 1 server_role.pid n).run s)
      return s.held ccrh sv

/-- All four parties; the party at a place of the ring draws the key there. -/
def shareBf
    (key : ShrRep3Pid -> Block)
    (cache : ShrRep3Pid -> Bytes16)
    (bf : Rvector n) : BfParty -> Proc shareNet (Held n)
  | .HOLDER => share_bf ccrh (key .P0) (cache .P0) bf
  | .STEWARD => response_share_bf ccrh n .STEWARD 0 fun _ => 0
  | .PEER0 => response_share_bf ccrh n .PEER0 (key .P1) (cache .P1)
  | .PEER1 => response_share_bf ccrh n .PEER1 (key .P2) (cache .P2)

end

/-! ## The ring inside the network -/

/-- The holder, PEER0 and PEER1 are a ring of their own. -/
def ringEmbedding : Embedding aby3Net shareNet where
  party
    | .P0 => .HOLDER
    | .P1 => .PEER0
    | .P2 => .PEER1
  member
    | .HOLDER => some .P0
    | .STEWARD => none
    | .PEER0 => some .P1
    | .PEER1 => some .P2
  member_party p := by cases p <;> rfl
  party_member := by
    intro q p inside
    cases q <;> cases p <;> simp at inside ⊢
  sym := id
  unsym := id
  unsym_sym _ := rfl
  err := id
  call := id
  res call := nomatch call
  meaning_call := by
    intro c
    exact nomatch c

private theorem overChannels_eq_proc
    (proc : Proc aby3Net Out) :
    overChannels ringEmbedding.party proc = ringEmbedding.proc proc := by
  induction proc with
  | ret out => rfl
  | throw error => rfl
  | send peer data next inductionHypothesis =>
      simp only [overChannels, Embedding.proc, inductionHypothesis]
      rw [show ringEmbedding.sym = id from rfl, List.map_id]
  | recv peer count next inductionHypothesis =>
      simp only [overChannels, Embedding.proc, inductionHypothesis]
      congr
      funext data
      rw [show ringEmbedding.unsym = id from rfl, List.map_id]
  | join first peer call next _ => exact nomatch call

private theorem holderRing_eq (proc : Proc aby3Net Out) :
    holderRing proc = ringEmbedding.proc proc := by
  rw [← overChannels_eq_proc, holderRing]
  congr
  funext peer
  cases peer <;> rfl

private theorem peerRing_PEER0 (proc : Proc aby3Net Out) :
    peerRing .PEER0 proc = ringEmbedding.proc proc := by
  rw [← overChannels_eq_proc]
  show overChannels _ proc = _
  congr
  funext peer
  cases peer <;> rfl

private theorem peerRing_PEER1 (proc : Proc aby3Net Out) :
    peerRing .PEER1 proc = ringEmbedding.proc proc := by
  rw [← overChannels_eq_proc]
  show overChannels _ proc = _
  congr
  funext peer
  cases peer <;> rfl

/-! ## Vectors of bits -/

/-- The element of `Z_2` for a bit. -/
def bitByte (b : Bool) : UInt8 := if b then 1 else 0

/-- A vector over `Z_2`. -/
def bits (b : Fin n -> Bool) : Rvector n := fun i => bitByte (b i)

private theorem toNat_bitByte (b : Bool) : (bitByte b).toNat = b.toNat := by
  cases b <;> rfl

private theorem ringAdd8_bitByte (a b : Bool) :
    ringAdd8 1 (bitByte a) (bitByte b) = bitByte (a ^^ b) := by
  cases a <;> cases b <;> decide

private theorem add_bits (a b : Fin n -> Bool) :
    Rvector.add 1 (bits a) (bits b) = bits fun i => (a i ^^ b i) :=
  funext fun i => ringAdd8_bitByte (a i) (b i)

/-- A fresh instance draws the difference of the streams of its two keys. -/
private theorem crngVector_fresh
    (ccrh : Block -> Block -> Block)
    (n : Nat)
    {s : CrngState}
    (fresh : s.cRngId = .ofCount 0) :
    (crngVector ccrh 1 n s).1 = bits fun i =>
      (keyStream ccrh n s.keyThis i ^^ keyStream ccrh n s.keyPrev i) := by
  funext i
  have inside : i.val / 64 * 64 + i.val % 64 < n := by omega
  have position : 0 ≤ i.val / 64 ∧ i.val / 64 < (n + 63) / 64 := by omega
  have block : i.val / 64 / 2 = i.val / 128 := by omega
  have bit : 64 * (i.val / 64 % 2) + i.val % 64 = i.val % 128 := by omega
  apply UInt8.toNat_inj.mp
  simp only [crngVector, if_true, toNat_wordBits, crngFill_snd,
    if_pos position, Nat.sub_zero, wordUnit_testBit _ _ inside
    (Nat.mod_lt _ (by decide)), fresh, RngId.nth_ofCount, BitVec.getLsbD_xor,
    Nat.zero_add, block, bit]
  exact (toNat_bitByte _).symm

/-! ## The run -/

section

variable (key : ShrRep3Pid -> Block) (f : ShrRep3Pid -> Fin n -> Bool)
variable (B : Fin n -> Bool)

/-- The additive share of a party of the ring, from the streams of the keys:
the difference of the stream of its own key and of the previous one, and at the
holder the filter on top. -/
def ringShare : ShrRep3Pid -> Rvector n
  | .P0 => bits fun i => (B i ^^ (f .P0 i ^^ f .P2 i))
  | .P1 => bits fun i => (f .P1 i ^^ f .P0 i)
  | .P2 => bits fun i => (f .P2 i ^^ f .P1 i)

/-- What a party of the ring holds. -/
def ringHeld (pid : ShrRep3Pid) : Held n where
  share := {
    thisShare := ringShare f B pid
    nxtShare := ringShare f B pid.NEXT }
  keys := [key pid, key pid.PREV]
  streams := [f pid, f pid.PREV]

/-- The views of the four parties, from the streams of the three keys. -/
def shareBfViews : BfParty -> Held n × List (Seen shareNet)
  | .HOLDER => (ringHeld key f B .P0,
      [.got .PEER1 (List.ofFn (blockBytes (key .P2))),
        .got .PEER0 (ringShare f B .P1).data])
  | .STEWARD => ({
      share := {
        thisShare := ringShare f B .P0
        nxtShare := ringShare f B .P1 }
      keys := []
      streams := [] },
      [.got .HOLDER (ringShare f B .P0).data,
        .got .HOLDER (ringShare f B .P1).data])
  | .PEER0 => (ringHeld key f B .P1,
      [.got .HOLDER (List.ofFn (blockBytes (key .P0))),
        .got .PEER1 (ringShare f B .P2).data])
  | .PEER1 => (ringHeld key f B .P2,
      [.got .PEER0 (List.ofFn (blockBytes (key .P1))),
        .got .HOLDER (ringShare f B .P0).data])

end

section

variable (ccrh : Block -> Block -> Block)

/-- A party of the ring, from the construction of its instance on. -/
private def ringParty
    (key : ShrRep3Pid -> Block)
    (cache : ShrRep3Pid -> Bytes16)
    (bf : Rvector n)
    (pid : ShrRep3Pid) : Proc aby3Net (ShareVec n × CrngState) := do
  let s ← construct pid (key pid) (cache pid)
  (shareVecFrom ccrh 1 pid .P0 bf).run s

private theorem construct_observed
    (key : ShrRep3Pid -> Block)
    (cache : ShrRep3Pid -> Bytes16) :
    Completes (I := aby3Net)
      (fun pid => (construct pid (key pid) (cache pid)).observe [])
      fun pid => (.fresh (key pid) (key pid.PREV) (cache pid),
        [.got pid.PREV (List.ofFn (blockBytes (key pid.PREV)))]) := by
  have read : ∀ k : Block, bytesBlock (fun index =>
      (List.ofFn (blockBytes k)).getD index.val 0) = k := by
    intro k
    simp only [List.getD_eq_getElem?_getD, List.getElem?_ofFn]
    simp
  have exchanged := completes_observe_exchange (I := aby3Net) ShrRep3Pid.NEXT
    ShrRep3Pid.PREV (fun pid => List.ofFn (blockBytes (key pid)))
    (fun _ => 16) ShrRep3Pid.PREV_NEXT ShrRep3Pid.NEXT_PREV
    (fun _ => List.length_ofFn) fun _ => []
  have stored : ∀ pid, (construct pid (key pid) (cache pid)).observe [] =
      ((do
        send (I := aby3Net) pid.NEXT (List.ofFn (blockBytes (key pid)))
        recv pid.PREV 16).observe [] >>= fun seen =>
          pure (CrngState.fresh (key pid)
            (bytesBlock fun index => seen.1.getD index.val 0) (cache pid),
            seen.2)) := fun pid => rfl
  simp only [stored]
  refine exchanged.bind ?_
  simp only [read, List.nil_append]
  exact Completes.pure _

private theorem shareVec_observed
    (bf : Rvector n)
    {s : ShrRep3Pid -> CrngState}
    (log : ShrRep3Pid -> List (Seen aby3Net))
    (share : ShrRep3Pid -> Rvector n)
    (isShare : ∀ pid, share pid =
      if pid = .P0 then Rvector.add 1 bf (crngVector ccrh 1 n (s pid)).1
      else (crngVector ccrh 1 n (s pid)).1) :
    Completes (I := aby3Net)
      (fun pid => ((shareVecFrom ccrh 1 pid .P0 bf).run (s pid)).observe
        (log pid))
      fun pid => ((({ thisShare := share pid, nxtShare := share pid.NEXT } :
        ShareVec n), (crngVector ccrh 1 n (s pid)).2),
        log pid ++ [.got pid.NEXT (share pid.NEXT).data]) := by
  have exchanged := completes_observe_exchange (I := aby3Net) ShrRep3Pid.PREV
    ShrRep3Pid.NEXT (fun pid => (share pid).data) (fun _ => n)
    ShrRep3Pid.NEXT_PREV ShrRep3Pid.PREV_NEXT
    (fun pid => Rvector.length_data (share pid.NEXT)) log
  have stored : ∀ pid,
      ((shareVecFrom ccrh 1 pid .P0 bf).run (s pid)).observe (log pid) =
      ((do
        send (I := aby3Net) pid.PREV (share pid).data
        recv pid.NEXT n).observe (log pid) >>= fun seen =>
          pure ((({ thisShare := share pid
                    nxtShare := Rvector.ofData n seen.1 } : ShareVec n),
            (crngVector ccrh 1 n (s pid)).2), seen.2)) := by
    intro pid
    rw [isShare]
    cases pid <;> rfl
  simp only [stored]
  refine exchanged.bind ?_
  simp only [Rvector.ofData_data]
  exact Completes.pure _

/-- What a party of the ring gets, and what reaches it. -/
private def ringOut
    (key : ShrRep3Pid -> Block)
    (f : ShrRep3Pid -> Fin n -> Bool)
    (B : Fin n -> Bool)
    (s : ShrRep3Pid -> CrngState)
    (pid : ShrRep3Pid) :
    (ShareVec n × CrngState) × List (Seen aby3Net) :=
  (({ thisShare := ringShare f B pid
      nxtShare := ringShare f B pid.NEXT }, s pid),
    [.got pid.PREV (List.ofFn (blockBytes (key pid.PREV))),
      .got pid.NEXT (ringShare f B pid.NEXT).data])

private theorem seen_ringOut
    (key : ShrRep3Pid -> Block)
    (f : ShrRep3Pid -> Fin n -> Bool)
    (B : Fin n -> Bool)
    (s : ShrRep3Pid -> CrngState)
    (pid : ShrRep3Pid) :
    (ringOut key f B s pid).2.filterMap ringEmbedding.seen =
      [.got (ringEmbedding.party pid.PREV)
          (List.ofFn (blockBytes (key pid.PREV))),
        .got (ringEmbedding.party pid.NEXT) (ringShare f B pid.NEXT).data] := by
  have unchanged : ∀ data : List UInt8, data.map ringEmbedding.sym = data :=
    List.map_id
  simp only [ringOut, List.filterMap_cons, List.filterMap_nil, Embedding.seen,
    unchanged]

/-- The ring, with everything that reaches its parties. -/
private theorem ringParty_observed
    (key : ShrRep3Pid -> Block)
    (cache : ShrRep3Pid -> Bytes16)
    (B : Fin n -> Bool) :
    ∃ s : ShrRep3Pid -> CrngState,
      (∀ pid, (s pid).keyThis = key pid ∧ (s pid).keyPrev = key pid.PREV) ∧
      Completes (I := aby3Net)
        (fun pid => (ringParty ccrh key cache (bits B) pid).observe [])
        (ringOut key (fun pid => keyStream ccrh n (key pid)) B s) := by
  have isShare : ∀ pid,
      ringShare (fun pid => keyStream ccrh n (key pid)) B pid =
        if pid = .P0 then Rvector.add 1 (bits B) (crngVector ccrh 1 n
          (.fresh (key pid) (key pid.PREV) (cache pid))).1
        else (crngVector ccrh 1 n
          (.fresh (key pid) (key pid.PREV) (cache pid))).1 := by
    intro pid
    have drawn := crngVector_fresh ccrh n
      (s := .fresh (key pid) (key pid.PREV) (cache pid)) rfl
    rw [drawn]
    cases pid with
    | P0 => exact (add_bits _ _).symm
    | P1 => rfl
    | P2 => rfl
  have shared := shareVec_observed ccrh (bits B)
    (fun pid => [.got pid.PREV (List.ofFn (blockBytes (key pid.PREV)))])
    (ringShare (fun pid => keyStream ccrh n (key pid)) B) isShare
  refine ⟨fun pid => (crngVector ccrh 1 n
    (.fresh (key pid) (key pid.PREV) (cache pid))).2,
    fun pid => ⟨rfl, rfl⟩, ?_⟩
  simp only [ringParty, Proc.observe_bind]
  exact (construct_observed key cache).bind shared

/-- What a party of the ring does after the protocol. -/
private def afterRing
    (pid : ShrRep3Pid)
    (out : ShareVec n × CrngState) : Proc shareNet (Held n) :=
  match pid with
  | .P0 => do
      send (I := shareNet) .STEWARD out.1.thisShare.data
      send (I := shareNet) .STEWARD out.1.nxtShare.data
      return out.2.held ccrh out.1
  | .P1 | .P2 => return out.2.held ccrh out.1

private theorem shareBf_ring
    (key : ShrRep3Pid -> Block)
    (cache : ShrRep3Pid -> Bytes16)
    (bf : Rvector n)
    (pid : ShrRep3Pid) :
    shareBf ccrh key cache bf (ringEmbedding.party pid) =
      ringEmbedding.proc (ringParty ccrh key cache bf pid) >>=
        afterRing ccrh pid := by
  simp only [ringParty, Embedding.proc_bind, bind_assoc]
  cases pid with
  | P0 =>
      simp only [ringEmbedding, shareBf, share_bf, holderRing_eq]
      rfl
  | P1 =>
      simp only [ringEmbedding, shareBf, response_share_bf, peerRing_PEER0]
      rfl
  | P2 =>
      simp only [ringEmbedding, shareBf, response_share_bf, peerRing_PEER1]
      rfl

private theorem dialog_hand_on
    (key : ShrRep3Pid -> Block)
    (cache : ShrRep3Pid -> Bytes16)
    (bf : Rvector n)
    (out : ShareVec n × CrngState)
    (log : List (Seen shareNet)) :
    Dialog (I := shareNet) .HOLDER .STEWARD
      ((afterRing ccrh .P0 out).observe log)
      ((shareBf ccrh key cache bf .STEWARD).observe [])
      (out.2.held ccrh out.1, log)
      ({ share := out.1, keys := [], streams := [] },
        [.got .HOLDER out.1.thisShare.data,
          .got .HOLDER out.1.nxtShare.data]) := by
  have first := Dialog.observe_transfer (I := shareNet) (p := .HOLDER) (q := .STEWARD)
    out.1.thisShare.data (Rvector.length_data _) log []
  have second := ((Dialog.observe_transfer (I := shareNet) (p := .HOLDER) (q := .STEWARD)
    out.1.nxtShare.data (Rvector.length_data _) log
    [.got .HOLDER out.1.thisShare.data]).map_left
      fun seen => (out.2.held ccrh out.1, seen.2)).map_right
        fun seen => (({
          share := {
            thisShare := Rvector.ofData n out.1.thisShare.data
            nxtShare := Rvector.ofData n seen.1 }
          keys := []
          streams := [] } : Held n), seen.2)
  simp only [Rvector.ofData_data] at second
  have left : (afterRing ccrh .P0 out).observe log =
      (send (I := shareNet) .STEWARD out.1.thisShare.data).observe log >>=
        fun seen =>
          (send (I := shareNet) .STEWARD out.1.nxtShare.data).observe seen.2
            >>= fun seen => pure (out.2.held ccrh out.1, seen.2) := rfl
  have right : (shareBf ccrh key cache bf .STEWARD).observe [] =
      (recv (I := shareNet) .HOLDER n).observe [] >>= fun seen =>
        (recv (I := shareNet) .HOLDER n).observe seen.2 >>= fun seen' =>
          pure (({
            share := {
              thisShare := Rvector.ofData n seen.1
              nxtShare := Rvector.ofData n seen'.1 }
            keys := []
            streams := [] } : Held n), seen'.2) := rfl
  rw [left, right]
  refine first.bind ?_
  simp only [Rvector.ofData_data]
  exact second

theorem shareBf_completes
    (key : ShrRep3Pid -> Block)
    (cache : ShrRep3Pid -> Bytes16)
    (B : Fin n -> Bool) :
    Completes (I := shareNet)
      (fun party => (shareBf ccrh key cache (bits B) party).observe [])
      (shareBfViews key (fun pid => keyStream ccrh n (key pid)) B) := by
  obtain ⟨s, keys, ring⟩ := ringParty_observed ccrh key cache B
  intro Out next
  show Leads (I := shareNet) _ _
  let goOn : ShrRep3Pid -> (ShareVec n × CrngState) × List (Seen aby3Net) ->
      Proc shareNet Out := fun pid seen =>
    (afterRing ccrh pid seen.1).observe (seen.2.filterMap ringEmbedding.seen)
      >>= next (ringEmbedding.party pid)
  let whole : BfParty -> Proc shareNet Out := fun party =>
    (shareBf ccrh key cache (bits B) party).observe [] >>= next party
  let out := ringOut key (fun pid => keyStream ccrh n (key pid)) B s
  -- the ring runs while the Steward waits
  have inRing : Leads (I := shareNet) whole fun party =>
      match ringEmbedding.member party with
      | some pid => goOn pid (out pid)
      | none => whole party :=
    ringEmbedding.leads ring goOn
      (fun pid => by
        simp only [whole, goOn, shareBf_ring, Proc.observe_bind, bind_assoc,
          ringEmbedding.observe_proc (fun _ => rfl), List.nil_append,
          pure_bind])
      (fun pid => by cases pid <;> rfl)
      (fun party outside => by rw [outside])
  refine inRing.trans ?_
  refine ((dialog_hand_on ccrh key cache (bits B) _ _).leads (by decide) _
    rfl rfl).trans (Leads.of_eq fun party => ?_)
  have held : ∀ pid, (s pid).held ccrh (out pid).1.1 =
      ringHeld key (fun pid => keyStream ccrh n (key pid)) B pid := by
    intro pid
    simp only [CrngState.held, ringHeld, (keys pid).1, (keys pid).2]
    rfl
  cases party with
  | HOLDER =>
      show next .HOLDER ((s .P0).held ccrh (out .P0).1.1,
        (out .P0).2.filterMap ringEmbedding.seen) = _
      rw [held, seen_ringOut]
      rfl
  | STEWARD => rfl
  | PEER0 =>
      show next .PEER0 ((s .P1).held ccrh (out .P1).1.1,
        (out .P1).2.filterMap ringEmbedding.seen) = _
      rw [held, seen_ringOut]
      rfl
  | PEER1 =>
      show next .PEER1 ((s .P2).held ccrh (out .P2).1.1,
        (out .P2).2.filterMap ringEmbedding.seen) = _
      rw [held, seen_ringOut]
      rfl

end

/-! ## Two filters -/

/-- Move the stream of one key. -/
private def shiftStream (pid : ShrRep3Pid) (d : Fin n -> Bool) :
    (ShrRep3Pid -> Fin n -> Bool) ≃ (ShrRep3Pid -> Fin n -> Bool) where
  toFun f := Function.update f pid fun i => (f pid i ^^ d i)
  invFun f := Function.update f pid fun i => (f pid i ^^ d i)
  left_inv f := by simp
  right_inv f := by simp

private theorem ringShare_P0_shift
    (pid : ShrRep3Pid)
    (notOwn : pid ≠ .P1)
    (f : ShrRep3Pid -> Fin n -> Bool)
    (B B' : Fin n -> Bool) :
    ringShare (shiftStream pid (fun i => (B i ^^ B' i)) f) B' .P0 =
      ringShare f B .P0 := by
  simp only [ringShare]
  congr
  funext i
  cases pid with
  | P0 =>
      show (B' i ^^ ((f .P0 i ^^ (B i ^^ B' i)) ^^ f .P2 i)) = _
      cases B i <;> cases B' i <;> simp
  | P1 => exact absurd rfl notOwn
  | P2 =>
      show (B' i ^^ (f .P0 i ^^ (f .P2 i ^^ (B i ^^ B' i)))) = _
      cases B i <;> cases B' i <;> simp

private theorem ringVal_bits (b f0 f1 f2 : Bool) :
    ringVal 1 (bitByte (b ^^ (f0 ^^ f2))) + ringVal 1 (bitByte (f1 ^^ f0)) +
      ringVal 1 (bitByte (f2 ^^ f1)) = b.toNat := by
  cases b <;> cases f0 <;> cases f1 <;> cases f2 <;> decide

/-- The shares of STEWARD, PEER0 and PEER1 as the three parties. -/
theorem ringShare_holds
    (f : ShrRep3Pid -> Fin n -> Bool)
    (B : Fin n -> Bool) :
    VectorHolds 1
      (fun pid => ({
        thisShare := ringShare f B pid
        nxtShare := ringShare f B pid.NEXT } : ShareVec n))
      (fun i => (B i).toNat) where
  replicated _ := rfl
  total := funext fun i =>
    ringVal_bits (B i) (f .P0 i) (f .P1 i) (f .P2 i)

/-- The sharing of a filter completes; what each Agent sees of it under two
filters differs by a relabelling of the streams; and the three Agents end up
with a replicated share of the filter. -/
theorem shareBf_hides_filter (n : Nat) (key : ShrRep3Pid -> Block) :
    (∀ ccrh cache (B : Fin n -> Bool), Completes (I := shareNet)
      (fun party => (shareBf ccrh key cache (bits B) party).observe [])
      (shareBfViews key (fun pid => keyStream ccrh n (key pid)) B)) ∧
    (∀ (role : ServerRole) (B B' : Fin n -> Bool),
      ∃ relabel : (ShrRep3Pid -> Fin n -> Bool) ≃ (ShrRep3Pid -> Fin n -> Bool),
        ∀ f, shareBfViews key f B role.party =
          shareBfViews key (relabel f) B' role.party) ∧
    ∀ (f : ShrRep3Pid -> Fin n -> Bool) (B : Fin n -> Bool), VectorHolds 1
      (fun pid => match pid with
        | .P0 => (shareBfViews key f B .STEWARD).1.share
        | .P1 => (shareBfViews key f B .PEER0).1.share
        | .P2 => (shareBfViews key f B .PEER1).1.share)
      (fun i => (B i).toNat) := by
  refine ⟨fun ccrh cache B => shareBf_completes ccrh key cache B,
    fun role B B' => ?_, fun f B => ?_⟩
  · cases role with
    | STEWARD =>
        -- the stream of PEER1 is in one of the two shares only
        refine ⟨shiftStream .P2 fun i => (B i ^^ B' i), fun f => ?_⟩
        simp only [ServerRole.party, shareBfViews,
          ringShare_P0_shift .P2 (by decide) f B B']
        rfl
    | PEER0 => exact ⟨Equiv.refl _, fun f => rfl⟩
    | PEER1 =>
        -- the stream of the holder is in one of the two shares only
        refine ⟨shiftStream .P0 fun i => (B i ^^ B' i), fun f => ?_⟩
        simp only [ServerRole.party, shareBfViews, ringHeld, ShrRep3Pid.NEXT,
          ringShare_P0_shift .P0 (by decide) f B B']
        rfl
  · convert ringShare_holds f B using 2 with pid
    cases pid <;> rfl

end Rep3
end Mpmt
