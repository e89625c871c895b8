import Mpmt.Dpf.EvalCorrect
import Mpmt.Query.Net

/-!
# The query protocol

`Querier.query` and `AgentServer.response_query`, each as the program of one
party, with the key exchange of `DpfDealer` and `DpfEvaluator`.
-/

namespace Mpmt
namespace Query

open Network
open Dpf (Block Bytes16 KeyType GenRandomness Evaluator)
open Rep3 (ShrRep3Pid ShareVec Rvector CrngState)

/-! ## Parameters -/

/-- What `bf_param` returns, where `ShrAdd2`, `DpfDealer` and `DpfEvaluator` have
a class for it, and the cores of an Agent. -/
structure Sizes where
  bfSize : Nat
  ellAdd2 : Nat
  hfNum : Nat
  ellRoot : Nat
  cores : Nat
  hfNumPositive : 1 ≤ hfNum
  ellAdd2Ge : 13 ≤ ellAdd2
  ellAdd2Le : ellAdd2 ≤ 31
  ellRootGe : 2 ≤ ellRoot
  ellRootLe : ellRoot ≤ 6
  coresValid : cores ∈ [1, 2, 4, 8, 16, 32]

/-- `Emp2::mod` takes the size of the filter as modulus of its ring. -/
def Sizes.Usable (sizes : Sizes) : Prop :=
  0 < sizes.bfSize ∧ sizes.bfSize < 2 ^ sizes.ellAdd2

/-- Sizes for which a query goes through and its count of hits does not wrap
around. -/
structure Params extends Sizes where
  bfSizePositive : 1 ≤ bfSize
  bfSizeLt : bfSize < 2 ^ ellAdd2
  hfNumLt : hfNum < 2 ^ ellRoot

instance : Coe Params Sizes := ⟨Params.toSizes⟩

theorem Params.usable (params : Params) : (params : Sizes).Usable :=
  ⟨params.bfSizePositive, params.bfSizeLt⟩

/-- A `bytes` object, whose length is a `Py_ssize_t`. -/
structure PyBytes where
  data : List UInt8
  fits : data.length < 2 ^ 63

/-- `nlohmann::json`: `dump` writes a document as text and `parse` reads it. -/
structure JsonLibrary where
  dump : Dpf.Json -> List UInt8
  parse : List UInt8 -> Except Dpf.DecodeError Dpf.Json

/-- The third-party code and what a fresh key object holds. -/
structure Env (sizes : Sizes) where
  aes : Block -> Block -> Block
  ccrh : Block -> Block -> Block
  json : JsonLibrary
  freshKey : KeyType sizes.ellAdd2

/-- The text of a key is read back as the same document, and its size fits the
length that precedes it. -/
structure JsonLibrary.Faithful (json : JsonLibrary) (ellIn : Nat) : Prop where
  parse_dump : ∀ key : KeyType ellIn,
    json.parse (json.dump key.to_json) = .ok key.to_json
  size_lt : ∀ key : KeyType ellIn, (json.dump key.to_json).length < 2 ^ 64

/-! ## Parties -/

/-- The Agent behind a party of the replicated sharing: its server role. -/
def agent : ShrRep3Pid -> Party
  | .P0 => .STEWARD
  | .P1 => .PEER0
  | .P2 => .PEER1

/-- The server role of a party. -/
def role : Party -> Option ShrRep3Pid
  | .QUERIER => none
  | .STEWARD => some .P0
  | .PEER0 => some .P1
  | .PEER1 => some .P2

/-- The Agents run the replicated protocols among themselves. -/
def rep3Embedding (aes : Block -> Block -> Block) :
    Embedding Rep3.aby3Net (queryNet aes) where
  party := agent
  member := role
  member_party p := by cases p <;> rfl
  party_member := by
    intro q p inside
    cases q <;> cases p <;> simp [role, agent] at inside ⊢
  sym := id
  unsym := id
  unsym_sym _ := rfl
  err := .rep3
  call call := nomatch call
  res call := nomatch call
  meaning_call := by
    intro c
    exact nomatch c

section

variable {sizes : Sizes} (env : Env sizes)

/-- A protocol of the replicated sharing at one Agent, from the state of its
correlated randomness. -/
def rep3 (protocol : Rep3.Aby3M Out) (s : CrngState) :
    Proc (queryNet env.aes) (Out × CrngState) :=
  (rep3Embedding env.aes).proc (protocol.run s)

/-! ## Keys -/

/-- `json::parse(text).get<KeyType>()`. -/
def parseKey (text : List UInt8) : Except Error (KeyType sizes.ellAdd2) :=
  match env.json.parse text with
  | .error error => .error (.decode error)
  | .ok j =>
      match KeyType.from_json j env.freshKey with
      | .error error => .error (.decode error)
      | .ok key => .ok key

/-- `DpfDealer.gen`. -/
def gen (random : GenRandomness) (alpha : Nat) (beta : UInt8) :
    Except Error (List UInt8 × List UInt8) :=
  match Dpf.gen env.ccrh sizes.ellAdd2 sizes.ellRoot random
      (UInt32.ofNat alpha) beta with
  | .error _ => .error .out_of_range
  | .ok (k0, k1) => .ok (env.json.dump k0.to_json, env.json.dump k1.to_json)

/-- `DpfDealer.send_key`. -/
def send_key (key_json : List UInt8) (peer : Party) :
    Proc (queryNet env.aes) Unit := do
  let key ← raise (parseKey env key_json)
  let keyStr := env.json.dump key.to_json
  send (I := queryNet env.aes) peer (leBytes 8 keyStr.length)
  send (I := queryNet env.aes) peer keyStr

/-- `DpfEvaluator.recv_key`. -/
def recv_key (peer : Party) : Proc (queryNet env.aes) (List UInt8) := do
  let keyStrLen ← recv (I := queryNet env.aes) peer 8
  let keyStr ← recv (I := queryNet env.aes) peer (ofLeBytes keyStrLen)
  let key ← raise (parseKey env keyStr)
  return env.json.dump key.to_json

/-- An order in which the writes of the evaluating threads take effect.  The
ring of the root has more than one bit, so an element is a word of its own and
each write is one store. -/
structure Schedule where
  order : List Dpf.ThreadOut -> List Dpf.Write
  perm : ∀ threads, (order threads).Perm (Dpf.allWrites threads)

/-- `DpfEvaluator.eval_range` into the buffer `buf`. -/
def eval_range
    (party : Evaluator)
    (key_json : List UInt8)
    (buf : Rvector n)
    (bg ed : Nat)
    (scratch : Nat -> Bool -> Nat -> Block)
    (schedule : Schedule) : Except Error (Rvector n) :=
  match parseKey env key_json with
  | .error error => .error error
  | .ok key =>
      if sizes.cores ∈ [1, 2, 4, 8, 16, 32] then
        match Dpf.rangeEval env.ccrh key sizes.ellRoot party sizes.cores n
            bg ed scratch with
        | .error error => .error (.eval error)
        | .ok threads => .ok fun i =>
            Dpf.applyWrites (schedule.order threads)
              (fun j => if inside : j < n then buf ⟨j, inside⟩ else 0) i.val
      else .error .invalid_argument

/-! ## The Querier -/

/-- What the Querier draws. -/
structure QuerierCoins (hfNum : Nat) where
  stewardSeed : Bytes16
  peer0Seed : Bytes16
  rootSeed : Bytes16
  elementMask : Nat -> UInt8
  hashMask : Fin hfNum -> UInt32
  modMask : Fin hfNum -> UInt32
  shareMask : Fin hfNum -> UInt32
  testMask : UInt32

/-- The Querier's share of the next index. -/
def queryIndex
    (coins : QuerierCoins sizes.hfNum)
    (element_share : List UInt8)
    (k : Fin sizes.hfNum) : Proc (queryNet env.aes) Nat := do
  let key_share ← Emp2.recvBytes .STEWARD
  let h_share ← Emp2.hash sizes.ellAdd2 true .STEWARD element_share key_share
    (coins.hashMask k)
  Emp2.mod sizes.ellAdd2 true .STEWARD h_share sizes.bfSize
    (coins.modMask k)

/-- One round of the loop of `query`: the index share goes on to the peers. -/
def queryRound
    (coins : QuerierCoins sizes.hfNum)
    (element_share : List UInt8)
    (k : Fin sizes.hfNum) : Proc (queryNet env.aes) Unit := do
  let idx_share ← queryIndex env coins element_share k
  let kept ← Emp2.share sizes.ellAdd2 .PEER0 idx_share (coins.shareMask k)
  RingTransport.send_scalar sizes.ellAdd2 .PEER1 kept

/-- `Querier.query`. -/
def query (coins : QuerierCoins sizes.hfNum) (element : PyBytes) :
    Proc (queryNet env.aes) Nat := do
  Emp2.construct true .STEWARD coins.stewardSeed
  Emp2.construct true .PEER0 coins.peer0Seed
  let element_share ←
    Emp2.shareBytes .STEWARD element.data coins.elementMask
  forM (List.finRange sizes.hfNum) (queryRound env coins element_share)
  let dr_share ← RingTransport.recv_scalar sizes.ellRoot .PEER1
  Emp2.construct true .STEWARD coins.rootSeed
  let qr_share ← Emp2.equalityTest sizes.ellRoot true .STEWARD dr_share 0
    coins.testMask
  let sent ← Emp2.recvShare .STEWARD
  raise (ring_add sizes.ellRoot sent qr_share)

/-! ## The Agents -/

/-- A `ShrRep3ShareScalar` that holds index shares. -/
structure IdxShare where
  thisShare : Nat
  nxtShare : Nat

/-- `_reshare_idx_share`: the two neighbours get to know each other's shares;
PEER1 receives first. -/
def reshare_idx_share (pid : ShrRep3Pid) (val : Nat) :
    Proc (queryNet env.aes) IdxShare :=
  match pid with
  | .P2 => do
      let nxt ← RingTransport.recv_scalar sizes.ellAdd2 .STEWARD
      RingTransport.send_scalar sizes.ellAdd2 .PEER0 val
      return { thisShare := val, nxtShare := nxt }
  | pid => do
      RingTransport.send_scalar sizes.ellAdd2 (agent pid.PREV) val
      let nxt ← RingTransport.recv_scalar sizes.ellAdd2 (agent pid.NEXT)
      return { thisShare := val, nxtShare := nxt }

/-- What the Steward draws. -/
structure StewardCoins (hfNum : Nat) where
  keyMask : Fin hfNum -> Nat -> UInt8
  hashMask : Fin hfNum -> UInt32
  modMask : Fin hfNum -> UInt32
  gen : Fin hfNum -> GenRandomness
  testMask : UInt32

/-- One round of the first loop of the Steward. -/
def stewardRound
    (coins : StewardCoins sizes.hfNum)
    (hash_seed_list : Fin sizes.hfNum -> Bytes16)
    (element_share : List UInt8)
    (k : Fin sizes.hfNum) : Proc (queryNet env.aes) Nat := do
  let key_share ← Emp2.shareBytes .QUERIER (List.ofFn (hash_seed_list k))
    (coins.keyMask k)
  let h_share ← Emp2.hash sizes.ellAdd2 false .QUERIER element_share
    key_share (coins.hashMask k)
  Emp2.mod sizes.ellAdd2 false .QUERIER h_share sizes.bfSize
    (coins.modMask k)

/-- One round of the second loop. -/
def alphaRound (ishare : Nat) : Proc (queryNet env.aes) Nat := do
  let idx_rep_share ← reshare_idx_share env .P0 ishare
  raise (ring_add sizes.ellAdd2 idx_rep_share.thisShare
    idx_rep_share.nxtShare)

/-- One round of the last loop. -/
def sendRound (keys : List UInt8 × List UInt8) :
    Proc (queryNet env.aes) Unit := do
  send_key env keys.1 .PEER0
  send_key env keys.2 .PEER1

/-- `response_query` of STEWARD. -/
def responseSteward
    (coins : StewardCoins sizes.hfNum)
    (hash_seed_list : Fin sizes.hfNum -> Bytes16)
    (root_node : ShareVec sizes.bfSize)
    (s : CrngState) : Proc (queryNet env.aes) CrngState := do
  Emp2.construct false .QUERIER fun _ => 0
  let element_share ← Emp2.recvBytes .QUERIER
  let idx_shares ← (List.finRange sizes.hfNum).mapM
    (stewardRound env coins hash_seed_list element_share)
  let alpha_set ← idx_shares.mapM (alphaRound env)
  let keylist ← raise ((alpha_set.zip (List.finRange sizes.hfNum)).mapM
    fun (alpha, k) => gen env (coins.gen k) alpha 1)
  forM keylist (sendRound env)
  let drawn := Rep3.crngVector env.ccrh sizes.ellRoot sizes.bfSize s
  let (query_buf, s) ← rep3 env (Rep3.reshareVec .P0 drawn.1) drawn.2
  let (dr_rep_share, s) ←
    rep3 env (Rep3.dot env.ccrh sizes.ellRoot .P0 query_buf root_node) s
  let dr_share ← raise (ring_add sizes.ellRoot
    dr_rep_share.thisShare.toNat dr_rep_share.nxtShare.toNat)
  Emp2.construct false .QUERIER fun _ => 0
  let qr_share ← Emp2.equalityTest sizes.ellRoot false .QUERIER dr_share
    sizes.hfNum coins.testMask
  Emp2.send_data sizes.ellRoot .QUERIER qr_share
  return s

/-- What an evaluating Agent finds in memory, and how its threads happen to
run: `buf` is `_query_buf.this_share` as the last query left it. -/
structure PeerMemory (sizes : Sizes) where
  buf : Rvector sizes.bfSize
  scratch : Fin sizes.hfNum -> Nat -> Bool -> Nat -> Block
  schedule : Fin sizes.hfNum -> Schedule

/-- The index shares an evaluating Agent gets from the Querier. -/
def recvIdxShares (pid : ShrRep3Pid) :
    Proc (queryNet env.aes) (List Nat) :=
  match pid with
  | .P1 => do
      Emp2.construct false .QUERIER fun _ => 0
      (List.finRange sizes.hfNum).mapM fun _ => Emp2.recvShare .QUERIER
  | _ => (List.finRange sizes.hfNum).mapM fun _ =>
      RingTransport.recv_scalar sizes.ellAdd2 .QUERIER

/-- One round of the loop that collects the biases. -/
def biasRound (pid : ShrRep3Pid) (ishare : Nat) :
    Proc (queryNet env.aes) Nat := do
  let idx_rep_share ← reshare_idx_share env pid ishare
  return if pid = .P1 then idx_rep_share.nxtShare
    else idx_rep_share.thisShare

/-- One round of the evaluation loop: evaluate the key over the window that
starts at `-bias`, and add up. -/
def evalRound
    (party : Evaluator)
    (memory : PeerMemory sizes)
    (query_buf : ShareVec sizes.bfSize)
    (keyed : (List UInt8 × Nat) × Fin sizes.hfNum) :
    Except Error (ShareVec sizes.bfSize) := do
  let ((key, bias), k) := keyed
  let eval_bg ← ring_sub sizes.ellAdd2 0 bias
  let eval_ed ← ring_add sizes.ellAdd2 eval_bg sizes.bfSize
  let eval_ed ← ring_sub sizes.ellAdd2 eval_ed 1
  let this_share ← eval_range env party key query_buf.thisShare eval_bg eval_ed
    (memory.scratch k) (memory.schedule k)
  return {
    thisShare := this_share
    nxtShare := Rvector.add sizes.ellRoot query_buf.nxtShare this_share }

/-- The evaluator behind a peer. -/
def evaluator : ShrRep3Pid -> Evaluator
  | .P1 => .EVALUATOR_0
  | _ => .EVALUATOR_1

/-- Only PEER1 hands its share of the result to the Querier. -/
def sendRootShare (pid : ShrRep3Pid) (this_share : Nat) :
    Proc (queryNet env.aes) Unit :=
  match pid with
  | .P2 => RingTransport.send_scalar sizes.ellRoot .QUERIER this_share
  | _ => return

/-- `response_query` of PEER0 and PEER1. -/
def responsePeer
    (pid : ShrRep3Pid)
    (memory : PeerMemory sizes)
    (root_node : ShareVec sizes.bfSize)
    (s : CrngState) : Proc (queryNet env.aes) CrngState := do
  let drawn := Rep3.crngVector env.ccrh sizes.ellRoot sizes.bfSize s
  let idx_shares ← recvIdxShares env pid
  let bias_set ← idx_shares.mapM (biasRound env pid)
  let keylist ← (List.finRange sizes.hfNum).mapM fun _ =>
    recv_key env .STEWARD
  let query_buf ← raise
    (((keylist.zip bias_set).zip (List.finRange sizes.hfNum)).foldlM
      (evalRound env (evaluator pid) memory)
      { thisShare := memory.buf, nxtShare := drawn.1 })
  let (query_buf, s) ←
    rep3 env (Rep3.reshareVec pid query_buf.nxtShare) drawn.2
  let (dr_rep_share, s) ←
    rep3 env (Rep3.dot env.ccrh sizes.ellRoot pid query_buf root_node) s
  sendRootShare env pid dr_rep_share.thisShare.toNat
  return s

/-! ## All four -/

/-- How a party ends: the Querier with its answer, an Agent with the next state
of its correlated randomness. -/
inductive Outcome
  | answered (answer : Nat)
  | served (s : CrngState)

/-- What all parties draw and find in memory. -/
structure Coins (sizes : Sizes) where
  querier : QuerierCoins sizes.hfNum
  steward : StewardCoins sizes.hfNum
  peer0 : PeerMemory sizes
  peer1 : PeerMemory sizes

/-- The four parties of one query. -/
def system
    (coins : Coins sizes)
    (element : PyBytes)
    (hash_seed_list : Fin sizes.hfNum -> Bytes16)
    (root_node : ShrRep3Pid -> ShareVec sizes.bfSize)
    (s : ShrRep3Pid -> CrngState) : Party -> Proc (queryNet env.aes) Outcome :=
  group
    (query env coins.querier element >>= fun answer => pure (.answered answer))
    (responseSteward env coins.steward hash_seed_list (root_node .P0) (s .P0)
      >>= fun s => pure (.served s))
    (responsePeer env .P1 coins.peer0 (root_node .P1) (s .P1)
      >>= fun s => pure (.served s))
    (responsePeer env .P2 coins.peer1 (root_node .P2) (s .P2)
      >>= fun s => pure (.served s))

end

end Query
end Mpmt
