import Mathlib.Data.Fintype.Basic
import Mpmt.Library.Dialogs

/-!
# What a party gets to see

The view of a party is everything that reaches it: the data it receives and the
results of its joint computations, in the order in which it gets them.  A
secret stays hidden from a party when its views under two secrets are the same
up to a relabelling of the coins.
-/

namespace Network

/-- What reaches a party. -/
inductive Seen (I : Signature)
  | got (peer : I.Party) (data : List I.Sym)
  | met (peer : I.Party) (result : I.Res)

variable {I J : Signature}

/-! ## Recording -/

namespace Proc

/-- The same program, which records what reaches it behind `log`. -/
def observe (log : List (Seen I)) :
    Proc I Out -> Proc I (Out × List (Seen I))
  | .ret out => .ret (out, log)
  | .throw error => .throw error
  | .send peer data next => .send peer data (next.observe log)
  | .recv peer count next => .recv peer count fun data =>
      (next data).observe (log ++ [.got peer data])
  | .join first peer call next => .join first peer call fun result =>
      (next result).observe (log ++ [.met peer result])

@[simp] theorem observe_pure (log : List (Seen I)) (out : Out) :
    (pure out : Proc I Out).observe log = pure (out, log) := rfl

@[simp] theorem observe_bind
    (log : List (Seen I))
    (proc : Proc I Out)
    (next : Out -> Proc I Out') :
    (proc >>= next).observe log =
      proc.observe log >>= fun seen => (next seen.1).observe seen.2 := by
  induction proc generalizing log with
  | ret out => rfl
  | throw error => rfl
  | send peer data rest inductionHypothesis =>
      simp only [send_bind, observe, inductionHypothesis]
  | recv peer count rest inductionHypothesis =>
      simp only [recv_bind, observe, inductionHypothesis]
  | join first peer call rest inductionHypothesis =>
      simp only [join_bind, observe, inductionHypothesis]

end Proc

/-! ## Steps that are recorded -/

section

variable [DecidableEq I.Party]

omit [DecidableEq I.Party] in
/-- One recorded message. -/
theorem Dialog.observe_transfer
    {p q : I.Party}
    (data : List I.Sym)
    (size : data.length = count)
    (log log' : List (Seen I)) :
    Dialog p q ((Network.send q data).observe log)
      ((Network.recv p count).observe log')
      ((), log) (data, log' ++ [.got p data]) := by
  have recorded := ((Dialog.transfer (p := p) (q := q) data size).map_left
    fun _ => ((), log)).map_right fun data => (data, log' ++ [Seen.got p data])
  exact recorded

omit [DecidableEq I.Party] in
/-- One recorded joint computation. -/
theorem Dialog.observe_joint
    {p q : I.Party}
    (agreed : I.meaning call call' = some (result, result'))
    (log log' : List (Seen I)) :
    Dialog p q ((Network.join true q call).observe log)
      ((Network.join false p call').observe log')
      (result, log ++ [.met q result]) (result', log' ++ [.met p result']) := by
  have recorded := ((Dialog.joint (p := p) (q := q) agreed).map_left
    fun result => (result, log ++ [Seen.met q result])).map_right
      fun result' => (result', log' ++ [Seen.met p result'])
  exact recorded

/-- A recorded exchange between neighbours. -/
theorem completes_observe_exchange
    [Fintype I.Party]
    (peer source : I.Party -> I.Party)
    (data : I.Party -> List I.Sym)
    (count : I.Party -> Nat)
    (sourcePeer : ∀ party, source (peer party) = party)
    (peerSource : ∀ party, peer (source party) = party)
    (sizes : ∀ party, (data (source party)).length = count party)
    (log : I.Party -> List (Seen I)) :
    Completes
      (fun party => (do
        send (I := I) (peer party) (data party)
        recv (source party) (count party)).observe (log party))
      (fun party => (data (source party),
        log party ++ [.got (source party) (data (source party))])) :=
  (completes_exchange peer source data count sourcePeer peerSource sizes).bind
    (Completes.pure (I := I) fun party => (data (source party),
      log party ++ [.got (source party) (data (source party))]))

end

/-! ## Recording inside a larger network -/

namespace Embedding

variable (e : Embedding I J)

/-- What reaches a party of the inner network, as the outer one sees it. -/
def seen : Seen I -> Option (Seen J)
  | .got peer data => some (.got (e.party peer) (data.map e.sym))
  | .met _ _ => none

private theorem observe_proc_from
    [IsEmpty I.Call]
    (sym_unsym : ∀ s, e.sym (e.unsym s) = s)
    (log : List (Seen J))
    (inner : List (Seen I))
    (proc : Proc I Out) :
    (e.proc proc).observe (log ++ inner.filterMap e.seen) =
      e.proc (proc.observe inner) >>= fun out =>
        pure (out.1, log ++ out.2.filterMap e.seen) := by
  induction proc generalizing inner with
  | ret out => rfl
  | throw error => rfl
  | send peer data next inductionHypothesis =>
      simp only [Embedding.proc, Proc.observe, Proc.send_bind,
        inductionHypothesis]
  | recv peer count next inductionHypothesis =>
      simp only [Embedding.proc, Proc.observe, Proc.recv_bind,
        ← inductionHypothesis]
      congr
      funext data
      simp [seen, Function.comp_def, sym_unsym]
  | join first peer call next inductionHypothesis =>
      exact isEmptyElim call

/-- A group without joint computations records the same inside a larger
network. -/
theorem observe_proc
    [IsEmpty I.Call]
    (sym_unsym : ∀ s, e.sym (e.unsym s) = s)
    (log : List (Seen J))
    (proc : Proc I Out) :
    (e.proc proc).observe log =
      e.proc (proc.observe []) >>= fun out =>
        pure (out.1, log ++ out.2.filterMap e.seen) := by
  have whole := e.observe_proc_from sym_unsym log [] proc
  rwa [List.filterMap_nil, List.append_nil] at whole

end Embedding

/-! ## Two secrets -/

/-- Over all coins the two views take the same values, each as often. -/
def SameViews [Fintype Coins] (view view' : Coins -> View) : Prop :=
  Finset.univ.val.map view = Finset.univ.val.map view'

/-- A relabelling of the coins that turns one view into the other. -/
theorem SameViews.of_equiv
    [Fintype Coins]
    {view view' : Coins -> View}
    (relabel : Coins ≃ Coins)
    (same : ∀ coins, view coins = view' (relabel coins)) :
    SameViews view view' := by
  have relabelled : view = view' ∘ relabel := funext same
  rw [SameViews, relabelled, ← Multiset.map_map,
    Multiset.map_univ_val_equiv]

end Network
