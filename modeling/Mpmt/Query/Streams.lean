import Mpmt.Library.Tags
import Mpmt.Query.Protocol

/-!
# The message streams of a query

The programs of `Querier.query` and of the three roles of
`AgentServer.response_query`, each part under the name of the step it belongs
to.  What is sent, received and computed is what the protocol sends, receives
and computes; every byte also carries its step and its place in the message, and
a receive that gets something else than the message of its step ends the party.
-/

namespace Mpmt
namespace Query
namespace Streams

open Network
open Dpf (Block Bytes16)
open Rep3 (ShrRep3Pid ShareVec CrngState)

/-! ## Steps -/

/-- The circuit sessions of a query. -/
inductive SessionId
  | steward
  | peer0
  | root
  deriving DecidableEq, Repr

/-- The steps of the protocol that write a message or meet a peer; `k` is the
round. -/
inductive ProtStep
  | session (session : SessionId)
  | element
  | key (k : Nat)
  | hash (k : Nat)
  | mod (k : Nat)
  | indexToPeer0 (k : Nat)
  | indexToPeer1 (k : Nat)
  | reshareIdx (k : Nat) (sender : ShrRep3Pid)
  | dpfKey (k : Nat) (peer : ShrRep3Pid)
  | reshareVec
  | dot
  | rootShare
  | equalityTest
  | answer
  deriving DecidableEq, Repr

/-- The network of the query protocol, with tagged bytes. -/
abbrev streamNet (aes : Block -> Block -> Block) : Signature :=
  tagged (queryNet aes) ProtStep

/-- An exception ends the party. -/
def raise {aes : Block -> Block -> Block} :
    Except Error Out -> Proc (streamNet aes) Out
  | .ok out => pure out
  | .error error => .throw (some error)

section

variable {sizes : Sizes} (env : Env sizes)

/-! ## The Querier -/

/-- The Querier's share of the next index. -/
def queryIndex
    (coins : QuerierCoins sizes.hfNum)
    (element_share : List UInt8)
    (k : Fin sizes.hfNum) : Proc (streamNet env.aes) Nat := do
  let key_share ← (Emp2.recvBytes .STEWARD).tag (.key k)
  let h_share ← (Emp2.hash sizes.ellAdd2 true .STEWARD element_share key_share
    (coins.hashMask k)).tag (.hash k)
  (Emp2.mod sizes.ellAdd2 true .STEWARD h_share sizes.bfSize
    (coins.modMask k)).tag (.mod k)

/-- One round of the loop of `query`. -/
def queryRound
    (coins : QuerierCoins sizes.hfNum)
    (element_share : List UInt8)
    (k : Fin sizes.hfNum) : Proc (streamNet env.aes) Unit := do
  let idx_share ← queryIndex env coins element_share k
  let kept ← (Emp2.share sizes.ellAdd2 .PEER0 idx_share
    (coins.shareMask k)).tag (.indexToPeer0 k)
  (RingTransport.send_scalar sizes.ellAdd2 .PEER1 kept).tag (.indexToPeer1 k)

/-- `Querier.query`. -/
def query (coins : QuerierCoins sizes.hfNum) (element : PyBytes) :
    Proc (streamNet env.aes) Nat := do
  (Emp2.construct true .STEWARD coins.stewardSeed).tag (.session .steward)
  (Emp2.construct true .PEER0 coins.peer0Seed).tag (.session .peer0)
  let element_share ←
    (Emp2.shareBytes .STEWARD element.data coins.elementMask).tag .element
  forM (List.finRange sizes.hfNum) (queryRound env coins element_share)
  let dr_share ←
    (RingTransport.recv_scalar sizes.ellRoot .PEER1).tag .rootShare
  (Emp2.construct true .STEWARD coins.rootSeed).tag (.session .root)
  let qr_share ← (Emp2.equalityTest sizes.ellRoot true .STEWARD dr_share 0
    coins.testMask).tag .equalityTest
  let sent ← (Emp2.recvShare .STEWARD).tag .answer
  raise (ring_add sizes.ellRoot sent qr_share)

/-! ## The Agents -/

/-- `_reshare_idx_share`. -/
def reshare_idx_share (pid : ShrRep3Pid) (val k : Nat) :
    Proc (streamNet env.aes) IdxShare :=
  match pid with
  | .P2 => do
      let nxt ← (RingTransport.recv_scalar sizes.ellAdd2 .STEWARD).tag
        (.reshareIdx k .P0)
      (RingTransport.send_scalar sizes.ellAdd2 .PEER0 val).tag
        (.reshareIdx k .P2)
      return { thisShare := val, nxtShare := nxt }
  | pid => do
      (RingTransport.send_scalar sizes.ellAdd2 (agent pid.PREV) val).tag
        (.reshareIdx k pid)
      let nxt ← (RingTransport.recv_scalar sizes.ellAdd2 (agent pid.NEXT)).tag
        (.reshareIdx k pid.NEXT)
      return { thisShare := val, nxtShare := nxt }

/-- One round of the first loop of the Steward. -/
def stewardRound
    (coins : StewardCoins sizes.hfNum)
    (hash_seed_list : Fin sizes.hfNum -> Bytes16)
    (element_share : List UInt8)
    (k : Fin sizes.hfNum) : Proc (streamNet env.aes) Nat := do
  let key_share ← (Emp2.shareBytes .QUERIER (List.ofFn (hash_seed_list k))
    (coins.keyMask k)).tag (.key k)
  let h_share ← (Emp2.hash sizes.ellAdd2 false .QUERIER element_share
    key_share (coins.hashMask k)).tag (.hash k)
  (Emp2.mod sizes.ellAdd2 false .QUERIER h_share sizes.bfSize
    (coins.modMask k)).tag (.mod k)

/-- One round of the second loop. -/
def alphaRound (numbered : Nat × Nat) : Proc (streamNet env.aes) Nat := do
  let idx_rep_share ← reshare_idx_share env .P0 numbered.1 numbered.2
  raise (ring_add sizes.ellAdd2 idx_rep_share.thisShare
    idx_rep_share.nxtShare)

/-- One round of the last loop. -/
def sendRound (numbered : (List UInt8 × List UInt8) × Nat) :
    Proc (streamNet env.aes) Unit := do
  (send_key env numbered.1.1 .PEER0).tag (.dpfKey numbered.2 .P1)
  (send_key env numbered.1.2 .PEER1).tag (.dpfKey numbered.2 .P2)

/-- `response_query` of STEWARD. -/
def responseSteward
    (coins : StewardCoins sizes.hfNum)
    (hash_seed_list : Fin sizes.hfNum -> Bytes16)
    (root_node : ShareVec sizes.bfSize)
    (s : CrngState) : Proc (streamNet env.aes) CrngState := do
  (Emp2.construct false .QUERIER fun _ => 0).tag (.session .steward)
  let element_share ← (Emp2.recvBytes .QUERIER).tag .element
  let idx_shares ← (List.finRange sizes.hfNum).mapM
    (stewardRound env coins hash_seed_list element_share)
  let alpha_set ← idx_shares.zipIdx.mapM (alphaRound env)
  let keylist ← raise ((alpha_set.zip (List.finRange sizes.hfNum)).mapM
    fun (alpha, k) => gen env (coins.gen k) alpha 1)
  forM keylist.zipIdx (sendRound env)
  let drawn := Rep3.crngVector env.ccrh sizes.ellRoot sizes.bfSize s
  let (query_buf, s) ←
    (rep3 env (Rep3.reshareVec .P0 drawn.1) drawn.2).tag .reshareVec
  let (dr_rep_share, s) ← (rep3 env
    (Rep3.dot env.ccrh sizes.ellRoot .P0 query_buf root_node) s).tag .dot
  let dr_share ← raise (ring_add sizes.ellRoot
    dr_rep_share.thisShare.toNat dr_rep_share.nxtShare.toNat)
  (Emp2.construct false .QUERIER fun _ => 0).tag (.session .root)
  let qr_share ← (Emp2.equalityTest sizes.ellRoot false .QUERIER dr_share
    sizes.hfNum coins.testMask).tag .equalityTest
  (Emp2.send_data sizes.ellRoot .QUERIER qr_share).tag .answer
  return s

/-- The index shares an evaluating Agent gets from the Querier. -/
def recvIdxShares (pid : ShrRep3Pid) :
    Proc (streamNet env.aes) (List Nat) :=
  match pid with
  | .P1 => do
      (Emp2.construct false .QUERIER fun _ => 0).tag (.session .peer0)
      (List.finRange sizes.hfNum).mapM fun (k : Fin sizes.hfNum) =>
        (Emp2.recvShare .QUERIER).tag (.indexToPeer0 k)
  | _ => (List.finRange sizes.hfNum).mapM fun (k : Fin sizes.hfNum) =>
      (RingTransport.recv_scalar sizes.ellAdd2 .QUERIER).tag (.indexToPeer1 k)

/-- One round of the loop that collects the biases. -/
def biasRound (pid : ShrRep3Pid) (numbered : Nat × Nat) :
    Proc (streamNet env.aes) Nat := do
  let idx_rep_share ← reshare_idx_share env pid numbered.1 numbered.2
  return if pid = .P1 then idx_rep_share.nxtShare
    else idx_rep_share.thisShare

/-- Only PEER1 hands its share of the result to the Querier. -/
def sendRootShare (pid : ShrRep3Pid) (this_share : Nat) :
    Proc (streamNet env.aes) Unit :=
  match pid with
  | .P2 => (RingTransport.send_scalar sizes.ellRoot .QUERIER this_share).tag
      .rootShare
  | _ => return

/-- `response_query` of PEER0 and PEER1. -/
def responsePeer
    (pid : ShrRep3Pid)
    (memory : PeerMemory sizes)
    (root_node : ShareVec sizes.bfSize)
    (s : CrngState) : Proc (streamNet env.aes) CrngState := do
  let drawn := Rep3.crngVector env.ccrh sizes.ellRoot sizes.bfSize s
  let idx_shares ← recvIdxShares env pid
  let bias_set ← idx_shares.zipIdx.mapM (biasRound env pid)
  let keylist ← (List.finRange sizes.hfNum).mapM fun (k : Fin sizes.hfNum) =>
    (recv_key env .STEWARD).tag (.dpfKey k pid)
  let query_buf ← raise
    (((keylist.zip bias_set).zip (List.finRange sizes.hfNum)).foldlM
      (evalRound env (evaluator pid) memory)
      { thisShare := memory.buf, nxtShare := drawn.1 })
  let (query_buf, s) ←
    (rep3 env (Rep3.reshareVec pid query_buf.nxtShare) drawn.2).tag .reshareVec
  let (dr_rep_share, s) ← (rep3 env
    (Rep3.dot env.ccrh sizes.ellRoot pid query_buf root_node) s).tag .dot
  sendRootShare env pid dr_rep_share.thisShare.toNat
  return s

/-! ## All four -/

/-- The four parties of one query. -/
def system
    (coins : Coins sizes)
    (element : PyBytes)
    (hash_seed_list : Fin sizes.hfNum -> Bytes16)
    (root_node : ShrRep3Pid -> ShareVec sizes.bfSize)
    (s : ShrRep3Pid -> CrngState) : Party -> Proc (streamNet env.aes) Outcome :=
  group
    (query env coins.querier element >>= fun answer => pure (.answered answer))
    (responseSteward env coins.steward hash_seed_list (root_node .P0) (s .P0)
      >>= fun s => pure (.served s))
    (responsePeer env .P1 coins.peer0 (root_node .P1) (s .P1)
      >>= fun s => pure (.served s))
    (responsePeer env .P2 coins.peer1 (root_node .P2) (s .P2)
      >>= fun s => pure (.served s))

/-! ## The protocol behind the tags -/

theorem tracks_raise {aes : Block -> Block -> Block} (e : Except Error Out) :
    Tracks (raise e : Proc (streamNet aes) Out) (Query.raise e) := by
  cases e with
  | ok out => exact .ret out
  | error error => exact .throw (I := queryNet aes) error

theorem tracks_queryRound
    (coins : QuerierCoins sizes.hfNum)
    (element_share : List UInt8)
    (k : Fin sizes.hfNum) :
    Tracks (queryRound env coins element_share k)
      (Query.queryRound env coins element_share k) := by
  have index : Tracks (queryIndex env coins element_share k)
      (Query.queryIndex env coins element_share k) :=
    (tracks_tag _ _).bind fun _ => (tracks_tag _ _).bind fun _ => tracks_tag _ _
  exact index.bind fun _ => (tracks_tag _ _).bind fun _ => tracks_tag _ _

theorem tracks_query (coins : QuerierCoins sizes.hfNum) (element : PyBytes) :
    Tracks (query env coins element) (Query.query env coins element) := by
  refine (tracks_tag _ _).bind fun _ => (tracks_tag _ _).bind fun _ =>
    (tracks_tag _ _).bind fun element_share => ?_
  refine (Tracks.forM (tracks_queryRound env coins element_share) _).bind
    fun _ => ?_
  exact (tracks_tag _ _).bind fun _ => (tracks_tag _ _).bind fun _ =>
    (tracks_tag _ _).bind fun _ => (tracks_tag _ _).bind fun _ =>
      tracks_raise _

theorem tracks_reshare_idx_share (pid : ShrRep3Pid) (val k : Nat) :
    Tracks (reshare_idx_share env pid val k)
      (Query.reshare_idx_share env pid val) := by
  cases pid with
  | P0 => exact (tracks_tag _ _).bind fun _ => (tracks_tag _ _).bind fun _ => .pure _
  | P1 => exact (tracks_tag _ _).bind fun _ => (tracks_tag _ _).bind fun _ => .pure _
  | P2 => exact (tracks_tag _ _).bind fun _ => (tracks_tag _ _).bind fun _ => .pure _

theorem tracks_responseSteward
    (coins : StewardCoins sizes.hfNum)
    (hash_seed_list : Fin sizes.hfNum -> Bytes16)
    (root_node : ShareVec sizes.bfSize)
    (s : CrngState) :
    Tracks (responseSteward env coins hash_seed_list root_node s)
      (Query.responseSteward env coins hash_seed_list root_node s) := by
  refine (tracks_tag _ _).bind fun _ => (tracks_tag _ _).bind fun _ => ?_
  refine (Tracks.mapM (fun k => ?_) _).bind fun idx_shares => ?_
  · exact (tracks_tag _ _).bind fun _ => (tracks_tag _ _).bind fun _ => tracks_tag _ _
  refine (Tracks.mapM_zipIdx (fun ishare k => ?_) idx_shares 0).bind fun _ => ?_
  · exact (tracks_reshare_idx_share env .P0 ishare k).bind fun _ => tracks_raise _
  refine (tracks_raise _).bind fun keylist => ?_
  refine (Tracks.forM_zipIdx (fun keys k => ?_) keylist 0).bind fun _ => ?_
  · exact (tracks_tag _ _).bind fun _ => tracks_tag _ _
  refine (tracks_tag _ _).bind fun _ => (tracks_tag _ _).bind fun _ => ?_
  exact (tracks_raise _).bind fun _ => (tracks_tag _ _).bind fun _ =>
    (tracks_tag _ _).bind fun _ => (tracks_tag _ _).bind fun _ => .pure _

theorem tracks_recvIdxShares (pid : ShrRep3Pid) :
    Tracks (recvIdxShares env pid) (Query.recvIdxShares env pid) := by
  cases pid with
  | P0 => exact Tracks.mapM (fun _ => tracks_tag _ _) _
  | P1 => exact (tracks_tag _ _).bind fun _ => Tracks.mapM (fun _ => tracks_tag _ _) _
  | P2 => exact Tracks.mapM (fun _ => tracks_tag _ _) _

theorem tracks_sendRootShare (pid : ShrRep3Pid) (this_share : Nat) :
    Tracks (sendRootShare env pid this_share)
      (Query.sendRootShare env pid this_share) := by
  cases pid with
  | P0 => exact .pure _
  | P1 => exact .pure _
  | P2 => exact tracks_tag _ _

theorem tracks_responsePeer
    (pid : ShrRep3Pid)
    (memory : PeerMemory sizes)
    (root_node : ShareVec sizes.bfSize)
    (s : CrngState) :
    Tracks (responsePeer env pid memory root_node s)
      (Query.responsePeer env pid memory root_node s) := by
  refine (tracks_recvIdxShares env pid).bind fun idx_shares => ?_
  refine (Tracks.mapM_zipIdx (fun ishare k => ?_) idx_shares 0).bind fun _ => ?_
  · exact (tracks_reshare_idx_share env pid ishare k).bind fun _ => .pure _
  refine (Tracks.mapM (fun _ => tracks_tag _ _) _).bind fun _ => ?_
  refine (tracks_raise _).bind fun _ => (tracks_tag _ _).bind fun _ =>
    (tracks_tag _ _).bind fun _ => ?_
  exact (tracks_sendRootShare env pid _).bind fun _ => .pure _

/-- Every party does what it does in the protocol. -/
theorem tracks_system
    (coins : Coins sizes)
    (element : PyBytes)
    (hash_seed_list : Fin sizes.hfNum -> Bytes16)
    (root_node : ShrRep3Pid -> ShareVec sizes.bfSize)
    (s : ShrRep3Pid -> CrngState)
    (party : Party) :
    Tracks (system env coins element hash_seed_list root_node s party)
      (Query.system env coins element hash_seed_list root_node s party) := by
  cases party with
  | QUERIER => exact (tracks_query env _ _).bind fun _ => .pure _
  | STEWARD => exact (tracks_responseSteward env _ _ _ _).bind fun _ => .pure _
  | PEER0 => exact (tracks_responsePeer env .P1 _ _ _).bind fun _ => .pure _
  | PEER1 => exact (tracks_responsePeer env .P2 _ _ _).bind fun _ => .pure _

end

end Streams
end Query
end Mpmt
