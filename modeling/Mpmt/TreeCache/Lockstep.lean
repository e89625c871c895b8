import Mpmt.TreeCache.Visits

/-!
# The Agents' caches in lockstep

Every Agent draws tokens of its own and stores shares of its own.  Where the
holders' leaves are, which of them are dirty and whether the root has its files
is the same for all of them, and so are the nodes of all joint calls: each cache
follows one skeleton without tokens and contents.
-/

namespace Mpmt
namespace TreeCache

open Effects Heap

variable {Holder Leaf Root : Type} [DecidableEq Holder]

/-! ## Requests -/

/-- What the holders ask for. -/
inductive Request (Holder : Type)
  | join (holder : Holder)
  | update (holder : Holder)
  | quit (holder : Holder)

/-- What happens to all Agents in the same order. -/
inductive Event (Holder : Type)
  | request (request : Request Holder)
  | sync
  | restart

/-- The operation of one Agent.  A holder joins only without a token, and
updates and quits only with the one that it got from the Agent. -/
def Request.operation
    (tokens : Holder -> Option String)
    (draws : List Dpf.Bytes16)
    (node : ShareVec Leaf) : Request Holder -> Option (Operation Leaf)
  | .join holder =>
      if tokens holder = none then some (.insert draws node) else none
  | .update holder => (tokens holder).map fun token => .update token node
  | .quit holder => (tokens holder).map .remove

/-- The tokens behind an operation. -/
def Request.tokens
    (tokens : Holder -> Option String) :
    Request Holder -> Outcome PyError (Option String) -> Holder -> Option String
  | .join holder, .returned token => Function.update tokens holder token
  | .quit holder, .returned _ => Function.update tokens holder none
  | _, _ => tokens

/-! ## The Agents -/

/-- An Agent's cache with the tokens that it gave. -/
structure Replica (Holder Leaf Root : Type) where
  cache : Cache Root × World Leaf Root
  tokens : Holder -> Option String

/-- A new cache, in an empty directory. -/
def Replica.start
    (alloc : ShareVec Root)
    (calls : Nat) : Replica Holder Leaf Root where
  cache := (initial alloc, { disk := ∅, calls := calls })
  tokens := fun _ => none

/-- The node of a holder's leaf. -/
def placeOf
    (maps : Maps)
    (tokens : Holder -> Option String)
    (holder : Holder) : Option Nat :=
  (tokens holder).bind maps.phi_f.get?

/-- One event at one Agent, with what a merge or a construction visits. -/
inductive Replica.Step
    [Zero Root]
    (cfg : Config)
    (fns : Functions Leaf Root) :
    Event Holder -> Replica Holder Leaf Root -> List Visit ->
      Replica Holder Leaf Root -> Prop
  | done {request draws node operation outcome r s'}
      (asks : request.operation r.tokens draws node = some operation)
      (ended : run (handler fns) (operation.prog cfg) r.cache = (outcome, s'))
      (finished : outcome ≠ .unfinished) :
      Step cfg fns (.request request) r []
        { cache := s', tokens := request.tokens r.tokens outcome }
  | refused {request draws r} {node : ShareVec Leaf}
      (asks : request.operation r.tokens draws node = none) :
      Step cfg fns (.request request) r [] r
  | merged {outcome r s'}
      (ended : run (handler fns) (executeMerge cfg) r.cache = (outcome, s')) :
      Step cfg fns .sync r
        (visits fns r.cache.1.toMaps (executeMerge cfg) r.cache)
        { r with cache := s' }
  | constructed {alloc r s'}
      (ended : run (handler fns) (construct cfg) (initial alloc, r.cache.2) =
        (.returned (), s')) :
      Step cfg fns .restart r
        (visits fns r.cache.1.toMaps (construct cfg)
          (initial alloc, r.cache.2))
        { r with cache := s' }

/-- A sequence of events, with the visits of each. -/
inductive Replica.Steps
    [Zero Root]
    (cfg : Config)
    (fns : Functions Leaf Root) :
    List (Event Holder) -> Replica Holder Leaf Root -> List (List Visit) ->
      Replica Holder Leaf Root -> Prop
  | nil (r : Replica Holder Leaf Root) : Steps cfg fns [] r [] r
  | cons {event events r visited r' rest r''}
      (step : Replica.Step cfg fns event r visited r')
      (steps : Steps cfg fns events r' rest r'') :
      Steps cfg fns (event :: events) r (visited :: rest) r''

/-! ## The skeleton -/

/-- What all Agents have in common. -/
structure Skeleton (Holder : Type) where
  leaf_num : Nat
  dirty_leaf : Finset Nat
  hasRoot : Bool
  place : Holder -> Option Nat

namespace Skeleton

/-- The new leaf is the first one, or shares the place of the leaf with the
smallest number with that. -/
def join (holder : Holder) (sk : Skeleton Holder) : Skeleton Holder :=
  if sk.leaf_num = 0 then
    { sk with
      leaf_num := 1
      dirty_leaf := Insert.insert 1 sk.dirty_leaf
      place := Function.update sk.place holder (some 1) }
  else
    { sk with
      leaf_num := sk.leaf_num + 1
      dirty_leaf := Insert.insert (sk.leaf_num * 2 + 1)
        (if sk.leaf_num ∈ sk.dirty_leaf then
          Insert.insert (sk.leaf_num * 2) (sk.dirty_leaf.erase sk.leaf_num)
        else sk.dirty_leaf)
      place := Function.update
        (fun other =>
          if sk.place other = some sk.leaf_num then some (sk.leaf_num * 2)
          else sk.place other)
        holder (some (sk.leaf_num * 2 + 1)) }

/-- Where a leaf goes when the last internal node collapses. -/
def collapse (leaf_num del_id node_id : Nat) : Nat :=
  let left_id := (leaf_num - 1) * 2
  let right_id := left_id + 1
  let promoted_id := if del_id = left_id then right_id else left_id
  if node_id = promoted_id then leaf_num - 1
  else if node_id = right_id then del_id
  else node_id

def quit
    (holder : Holder)
    (del_id : Nat)
    (sk : Skeleton Holder) : Skeleton Holder :=
  let left_id := (sk.leaf_num - 1) * 2
  let right_id := left_id + 1
  if sk.leaf_num = 1 then
    { sk with
      leaf_num := 0
      dirty_leaf := ∅
      place := Function.update sk.place holder none }
  else
    { sk with
      leaf_num := sk.leaf_num - 1
      dirty_leaf := Insert.insert (sk.leaf_num - 1)
        (((if ¬ (del_id = left_id ∨ del_id = right_id) then
            Insert.insert del_id sk.dirty_leaf
          else sk.dirty_leaf).erase left_id).erase right_id)
      place := Function.update
        (fun other => (sk.place other).map (collapse sk.leaf_num del_id))
        holder none }

/-- What an event does to the skeleton. -/
def step (sk : Skeleton Holder) : Event Holder -> Skeleton Holder
  | .request (.join holder) =>
      if sk.place holder = none then sk.join holder else sk
  | .request (.update holder) =>
      match sk.place holder with
      | some node_id => { sk with dirty_leaf := Insert.insert node_id sk.dirty_leaf }
      | none => sk
  | .request (.quit holder) =>
      match sk.place holder with
      | some del_id => sk.quit holder del_id
      | none => sk
  | .sync => { sk with dirty_leaf := ∅, hasRoot := decide (sk.leaf_num ≠ 0) }
  | .restart => { sk with hasRoot := sk.hasRoot || decide (sk.leaf_num = 1) }

/-- What is visited in an event. -/
def visits (sk : Skeleton Holder) : Event Holder -> List Visit
  | .request _ => []
  | .sync => mergeVisits sk.leaf_num sk.dirty_leaf sk.hasRoot
  | .restart => constructVisits sk.leaf_num sk.hasRoot

end Skeleton

/-! ## Tokens of leaves -/

/-- The holders' tokens name different leaves. -/
structure Tracked (maps : Maps) (tokens : Holder -> Option String) : Prop where
  leaf : ∀ holder token, tokens holder = some token ->
    ∃ node_id, maps.phi_f.get? token = some node_id ∧ maps.leaf_num ≤ node_id
  distinct : ∀ holder holder' token, tokens holder = some token ->
    tokens holder' = some token -> holder = holder'

section

variable {maps : Maps} {tokens : Holder -> Option String} {holder : Holder}

omit [DecidableEq Holder] in
/-- A holder has a place when it has a token. -/
theorem Tracked.placeOf_eq_none
    (tracked : Tracked maps tokens)
    (holder : Holder) :
    placeOf maps tokens holder = none ↔ tokens holder = none := by
  cases held : tokens holder with
  | none => simp [placeOf, held]
  | some token =>
      obtain ⟨node_id, found, _⟩ := tracked.leaf holder token held
      simp [placeOf, held, found]

omit [DecidableEq Holder] in
/-- Without leaves there are no tokens. -/
theorem Tracked.nobody
    (tracked : Tracked maps tokens)
    (shape : maps.Shape)
    (leafless : maps.leaf_num = 0)
    (holder : Holder) : tokens holder = none := by
  cases held : tokens holder with
  | none => rfl
  | some token =>
      obtain ⟨node_id, found, _⟩ := tracked.leaf holder token held
      have inside := shape.inside_of_phi_f found
      omega

/-- A new token changes no other. -/
theorem Tracked.join
    {maps' : Maps}
    (tracked : Tracked maps tokens)
    (fresh : token ∉ maps.phi_f)
    (found : maps'.phi_f.get? token = some node_id)
    (leaf : maps'.leaf_num ≤ node_id)
    (kept : ∀ other node_id, maps.phi_f.get? other = some node_id ->
      maps.leaf_num ≤ node_id ->
        ∃ node_id', maps'.phi_f.get? other = some node_id' ∧
          maps'.leaf_num ≤ node_id') :
    Tracked maps' (Function.update tokens holder (some token)) where
  leaf := by
    intro other token' held
    rw [Function.update_apply] at held
    split at held
    · obtain rfl := Option.some.inj held
      exact ⟨node_id, found, leaf⟩
    · obtain ⟨node_id', found', leaf'⟩ := tracked.leaf other token' held
      exact kept token' node_id' found' leaf'
  distinct := by
    have new : ∀ other, tokens other ≠ some token := by
      intro other held
      obtain ⟨node_id', found', _⟩ := tracked.leaf other token held
      exact fresh (Dict.mem_of_get? found')
    intro other other' token' held held'
    have old := tracked.distinct other other' token'
    rw [Function.update_apply] at held held'
    grind

/-- A holder that quits takes only its token along. -/
theorem Tracked.quit
    {maps' : Maps}
    (tracked : Tracked maps tokens)
    (held : tokens holder = some del_token)
    (kept : ∀ other node_id, other ≠ del_token ->
      maps.phi_f.get? other = some node_id -> maps.leaf_num ≤ node_id ->
        ∃ node_id', maps'.phi_f.get? other = some node_id' ∧
          maps'.leaf_num ≤ node_id') :
    Tracked maps' (Function.update tokens holder none) where
  leaf := by
    intro other token' held'
    rw [Function.update_apply] at held'
    split at held'
    · cases held'
    · next different =>
        obtain ⟨node_id', found', leaf'⟩ := tracked.leaf other token' held'
        refine kept token' node_id' ?_ found' leaf'
        rintro rfl
        exact different (tracked.distinct other holder _ held' held)
  distinct := by
    intro other other' token' held' held''
    have old := tracked.distinct other other' token'
    rw [Function.update_apply] at held' held''
    grind

/-! ## The places behind the changes of the maps -/

theorem placeOf_join
    {maps' : Maps}
    (tokens : Holder -> Option String)
    (found : maps'.phi_f.get? token = some node_id) :
    placeOf maps' (Function.update tokens holder (some token)) =
      Function.update (placeOf maps' tokens) holder (some node_id) := by
  funext other
  unfold placeOf
  by_cases same : other = holder
  · rw [same, Function.update_self, Function.update_self]
    exact found
  · rw [Function.update_of_ne same, Function.update_of_ne same]

theorem placeOf_quit
    {maps' : Maps}
    (tokens : Holder -> Option String) :
    placeOf maps' (Function.update tokens holder none) =
      Function.update (placeOf maps' tokens) holder none := by
  funext other
  unfold placeOf
  by_cases same : other = holder
  · rw [same, Function.update_self, Function.update_self]
    rfl
  · rw [Function.update_of_ne same, Function.update_of_ne same]

omit [DecidableEq Holder] in
/-- The place of a holder whose token the change treats in a known way. -/
theorem placeOf_congr
    {maps' : Maps}
    (place : Option Nat -> Option Nat)
    (tracked : Tracked maps tokens)
    (none : place none = none)
    (changed : ∀ token node_id, tokens holder = some token ->
      maps.phi_f.get? token = some node_id -> maps.leaf_num ≤ node_id ->
        maps'.phi_f.get? token = place (some node_id)) :
    placeOf maps' tokens holder = place (placeOf maps tokens holder) := by
  cases held : tokens holder with
  | none => simp [placeOf, held, none]
  | some token =>
      obtain ⟨node_id, found, leaf⟩ := tracked.leaf holder token held
      simp only [placeOf, held, Option.bind_some, found]
      exact changed token node_id held found leaf

/-- The leaf that is split moves down, the others stay. -/
theorem phi_f_splitted
    (shape : maps.Shape)
    (splits : maps.Splits ori_root_token token new_root_token)
    (found : maps.phi_f.get? other = some node_id) :
    (maps.splitted ori_root_token token new_root_token).phi_f.get? other =
      if node_id = maps.leaf_num then some (maps.leaf_num * 2)
      else some node_id := by
  have ori := (shape.inverse _ _).mpr splits.ori
  have first := Dict.get?_eq_none_of_not_mem splits.fresh
  have second := Dict.get?_eq_none_of_not_mem splits.fresh'
  have inverse := shape.inverse other node_id
  have inverse' := shape.inverse other maps.leaf_num
  have split := splits.ori
  simp only [Maps.splitted, Dict.get?_set]
  grind

/-- The leaves of the internal node that goes move, the others stay. -/
theorem phi_f_collapsed
    (shape : maps.Shape)
    (collapses : maps.Collapses internal_token left_token right_token del_token
      del_id)
    (different : other ≠ del_token)
    (found : maps.phi_f.get? other = some node_id)
    (leaf : maps.leaf_num ≤ node_id) :
    (maps.collapsed internal_token left_token right_token del_token
        del_id).phi_f.get? other =
      some (Skeleton.collapse maps.leaf_num del_id node_id) := by
  obtain ⟨many, internal, left, right, deleted, del_leaf⟩ := collapses
  have internal' := (shape.inverse _ _).mpr internal
  have left' := (shape.inverse _ _).mpr left
  have right' := (shape.inverse _ _).mpr right
  have deleted' := (shape.inverse _ _).mpr deleted
  have inverse := (shape.inverse other node_id).mp found
  simp only [Maps.collapsed, Skeleton.collapse]
  split
  · simp only [Dict.get?_set, Dict.get?_del]
    grind
  · simp only [Dict.get?_set, Dict.get?_del]
    grind

end

/-! ## A cache follows the skeleton -/

/-- The skeleton is that of the Agent. -/
structure Follows
    (cfg : Config)
    (sk : Skeleton Holder)
    (m : Cache Root)
    (w : World Leaf Root)
    (tokens : Holder -> Option String) : Prop where
  live : ∃ holders, Live (plain Leaf Root) cfg (m, w) holders
  tracked : Tracked m.toMaps tokens
  leaf_num : m.leaf_num = sk.leaf_num
  dirty_leaf : m.dirty_leaf = sk.dirty_leaf
  root : w.hasRoot = sk.hasRoot
  place : placeOf m.toMaps tokens = sk.place

section

variable {cfg : Config} {fns : Functions Leaf Root} {sk : Skeleton Holder}
variable {m : Cache Root} {w : World Leaf Root} {s' : Cache Root × World Leaf Root}
variable {tokens : Holder -> Option String} {holder : Holder}
variable {holders : String -> Option (ShareVec Leaf)}

theorem Live.hasRoot_eq
    (live : Live (plain Leaf Root) cfg (m, w) holders) :
    w.hasRoot = w.root?.isSome := by
  cases root : w.hasRoot with
  | true =>
      obtain ⟨root, found⟩ := live.stored.root root
      rw [found]
      rfl
  | false =>
      cases found : w.root? with
      | none => rfl
      | some root' =>
          rw [World.hasRoot_of_root? found] at root
          cases root

/-- Operations other than a merge keep the files of the root. -/
theorem Live.sameHasRoot
    {holders' : String -> Option (ShareVec Leaf)}
    (live : Live (plain Leaf Root) cfg (m, w) holders)
    (live' : Live (plain Leaf Root) cfg s' holders')
    (same : SameRoot (m, w) s') : s'.2.hasRoot = w.hasRoot := by
  rw [Live.hasRoot_eq (m := s'.1) (w := s'.2) live', live.hasRoot_eq, same.files]

theorem Follows.join
    [Zero Root]
    {draws : List Dpf.Bytes16}
    {node : ShareVec Leaf}
    (follows : Follows cfg sk m w tokens)
    (holder : Holder)
    (ended : run (handler fns) (Operation.prog cfg (.insert draws node))
      (m, w) = (outcome, s'))
    (finished : outcome ≠ .unfinished) :
    ∃ token, outcome = .returned (some token) ∧
      Follows cfg (sk.join holder) s'.1 s'.2
        (Function.update tokens holder (some token)) := by
  obtain ⟨⟨holders, live⟩, tracked, leaf_num, dirty_leaf, root, place⟩ := follows
  have shape : m.Shape := live.stored.shape
  obtain ⟨token, inserted, rfl, same, live'⟩ : ∃ token,
      run (handler fns) (TreeCache.insert cfg draws node) (m, w) =
          (.returned token, s') ∧
        outcome = .returned (some token) ∧ SameRoot (m, w) s' ∧
        ∃ holders', Live (plain Leaf Root) cfg s' holders' := by
    rcases live.insert fns draws node with
      ⟨stuck, _⟩ | ⟨token, s'', ended', _, same, next⟩
    · have whole : run (handler fns) (TreeCache.insert cfg draws node)
          (m, w) = (.unfinished, _) := Prod.ext stuck rfl
      have ended' := run_bind_of_unfinished whole fun token =>
        (return some token : CacheM Leaf Root (Option String))
      exact absurd (Prod.mk.inj (ended.symm.trans ended')).1 finished
    · have whole : run (handler fns) (Operation.prog cfg (.insert draws node))
          (m, w) = (.returned (some token), s'') :=
        run_bind_of_returned ended' _
      obtain ⟨rfl, rfl⟩ := Prod.mk.inj (ended.symm.trans whole)
      exact ⟨token, ended', rfl, same, _, next⟩
  have root' : s'.2.hasRoot = sk.hasRoot := by
    rw [live.sameHasRoot live'.choose_spec same]
    exact root
  refine ⟨token, rfl, ?_⟩
  rcases live.run_insert fns draws node with
    ⟨stuck, _⟩ | ⟨token', leafless, fresh, _, ended'⟩ |
      ⟨ori_root_token, token', new_root_token, splits, ended'⟩
  · rw [inserted] at stuck
    cases stuck
  · rw [inserted] at ended'
    obtain ⟨same', rfl⟩ := Prod.mk.inj ended'
    obtain rfl := Outcome.returned.inj same'
    have found : ((m.placed token).dirtied 1).phi_f.get? token = some 1 := by
      simp [Maps.placed, Maps.dirtied]
    have nobody : ∀ other, tokens other = none :=
      tracked.nobody shape leafless
    have none : sk.leaf_num = 0 := leaf_num.symm.trans leafless
    have places : placeOf ((m.placed token).dirtied 1) tokens = sk.place := by
      rw [← place]
      funext other
      simp only [placeOf, nobody other, Option.bind_none]
    rw [Skeleton.join, if_pos none]
    refine ⟨live', ?_, rfl, ?_, root', ?_⟩
    · exact tracked.join fresh found (le_refl 1) fun other node_id found' => by
        have inside := shape.inside_of_phi_f found'
        omega
    · exact congrArg (Insert.insert 1) dirty_leaf
    · exact (placeOf_join tokens found).trans (by rw [places])
  · rw [inserted] at ended'
    obtain ⟨same', rfl⟩ := Prod.mk.inj ended'
    obtain rfl := Outcome.returned.inj same'
    have some_leaf : sk.leaf_num ≠ 0 := fun none =>
      splits.some_leaf (leaf_num.trans none)
    have ori_ne : ori_root_token ≠ token := by
      rintro rfl
      exact splits.fresh
        (Dict.mem_of_get? ((shape.inverse _ _).mpr splits.ori))
    have found : ((m.splitted ori_root_token token new_root_token).dirtied
        (m.leaf_num * 2 + 1)).phi_f.get? token =
          some (m.leaf_num * 2 + 1) := by
      simp [Maps.splitted, Maps.dirtied, Dict.get?_set, ori_ne.symm,
        splits.different.symm]
    have moved := fun other node_id
        (found' : m.phi_f.get? other = some node_id) =>
      phi_f_splitted shape splits found'
    rw [Skeleton.join, if_neg some_leaf]
    refine ⟨live', ?_, ?_, ?_, root', ?_⟩
    · refine tracked.join splits.fresh found ?_ fun other node_id found' leaf =>
        ?_
      · show m.leaf_num + 1 ≤ m.leaf_num * 2 + 1
        omega
      · have moved' := moved other node_id found'
        have leaf' : m.leaf_num ≤ node_id := leaf
        have positive := splits.some_leaf
        by_cases same : node_id = m.leaf_num
        · rw [if_pos same] at moved'
          exact ⟨_, moved', by show m.leaf_num + 1 ≤ m.leaf_num * 2; omega⟩
        · rw [if_neg same] at moved'
          exact ⟨_, moved', by show m.leaf_num + 1 ≤ node_id; omega⟩
    · exact congrArg (· + 1) leaf_num
    · simp only [← leaf_num, ← dirty_leaf]
      rfl
    · refine (placeOf_join tokens found).trans ?_
      rw [← leaf_num, ← place]
      congr 1
      funext other
      refine placeOf_congr (fun place =>
        if place = some m.leaf_num then some (m.leaf_num * 2) else place)
        tracked (by simp) fun token' node_id _ found' _ => ?_
      have moved' := moved token' node_id found'
      simp only [Option.some.injEq]
      exact moved'

omit [DecidableEq Holder] in
theorem Follows.update
    (follows : Follows cfg sk m w tokens)
    (fns : Functions Leaf Root)
    (held : tokens holder = some token)
    (new_node : ShareVec Leaf) :
    ∃ s' node_id,
      run (handler fns) (TreeCache.update cfg token new_node) (m, w) =
          (.returned (), s') ∧
        sk.place holder = some node_id ∧
        Follows cfg
          { sk with dirty_leaf := Insert.insert node_id sk.dirty_leaf }
          s'.1 s'.2 tokens := by
  obtain ⟨⟨holders, live⟩, tracked, leaf_num, dirty_leaf, root, place⟩ := follows
  obtain ⟨node_id, found, leaf⟩ := tracked.leaf holder token held
  have found' := (live.stored.shape.inverse _ _).mp found
  have ended : run (handler fns) (TreeCache.update cfg token new_node)
      (m, w) = _ := run_update_leaf live.valid found leaf new_node
  refine ⟨_, node_id, ended, ?_, ?_⟩
  · rw [← place, placeOf, held]
    exact found
  · rcases live.update fns token new_node with
      ⟨_, ended', _⟩ | ⟨s', _, ended', _, same, next⟩
    · rw [ended] at ended'
      cases ended'
    · rw [ended] at ended'
      obtain ⟨_, rfl⟩ := Prod.mk.inj ended'
      refine ⟨⟨_, next⟩, ⟨tracked.leaf, tracked.distinct⟩, leaf_num, ?_,
        (live.sameHasRoot next same).trans root, place⟩
      exact congrArg (Insert.insert node_id) dirty_leaf

theorem Follows.quit
    (follows : Follows cfg sk m w tokens)
    (fns : Functions Leaf Root)
    (held : tokens holder = some del_token) :
    ∃ s' del_id,
      run (handler fns) (TreeCache.remove cfg del_token) (m, w) =
          (.returned (), s') ∧
        sk.place holder = some del_id ∧
        Follows cfg (sk.quit holder del_id) s'.1 s'.2
          (Function.update tokens holder none) := by
  obtain ⟨⟨holders, live⟩, tracked, leaf_num, dirty_leaf, root, place⟩ := follows
  have shape : m.Shape := live.stored.shape
  obtain ⟨del_id, found, leaf⟩ := tracked.leaf holder del_token held
  have found' := (shape.inverse _ _).mp found
  have placed : sk.place holder = some del_id := by
    rw [← place, placeOf, held]
    exact found
  obtain ⟨s', ended, sameRoot, live'⟩ : ∃ s',
      run (handler fns) (TreeCache.remove cfg del_token) (m, w) =
          (.returned (), s') ∧
        SameRoot (m, w) s' ∧
        ∃ holders', Live (plain Leaf Root) cfg s' holders' := by
    obtain ⟨old, there⟩ := live.there found leaf
    rcases live.remove fns del_token with
      ⟨_, _, _, absent⟩ | ⟨s', _, ended, _, same, next⟩
    · rw [there] at absent
      cases absent
    · exact ⟨s', ended, same, _, next⟩
  have root' : s'.2.hasRoot = sk.hasRoot :=
    (live.sameHasRoot live'.choose_spec sameRoot).trans root
  refine ⟨s', del_id, ended, placed, ?_⟩
  rcases live.run_remove fns del_token with
    ⟨_, _, _, missing⟩ | ⟨single, _, ended'⟩ |
      ⟨internal_token, left_token, right_token, del_id', collapses, ended'⟩
  · have inserted := Maps.hasInserted_iff.mpr ⟨del_id, found, leaf⟩
    rw [missing] at inserted
    cases inserted
  · rw [ended] at ended'
    obtain ⟨_, rfl⟩ := Prod.mk.inj ended'
    have only : ∀ other node_id, m.phi_f.get? other = some node_id ->
        other = del_token := by
      intro other node_id other_found
      have inside := shape.inside_of_phi_f other_found
      have inside' := shape.inside_of_phi_f found
      obtain rfl : node_id = del_id := by omega
      have other_found' := (shape.inverse _ _).mp other_found
      rw [found'] at other_found'
      exact (Option.some.inj other_found').symm
    rw [Skeleton.quit, if_pos (leaf_num.symm.trans single)]
    refine ⟨live', ?_, rfl, rfl, root', ?_⟩
    · exact tracked.quit held fun other node_id different other_found _ =>
        absurd (only other node_id other_found) different
    · refine (placeOf_quit tokens).trans (funext fun other => ?_)
      dsimp only
      by_cases same : other = holder
      · rw [same, Function.update_self, Function.update_self]
      · rw [Function.update_of_ne same, Function.update_of_ne same, ← place]
        cases other_held : tokens other with
        | none => simp [placeOf, other_held]
        | some token =>
            obtain ⟨node_id, other_found, _⟩ :=
              tracked.leaf other token other_held
            obtain rfl := only token node_id other_found
            exact absurd (tracked.distinct _ _ _ other_held held) same
  · rw [ended] at ended'
    obtain ⟨_, rfl⟩ := Prod.mk.inj ended'
    obtain rfl := shape.injective collapses.deleted found'
    have several : sk.leaf_num ≠ 1 := by
      have many := collapses.many
      omega
    have moved := fun other node_id (different : other ≠ del_token)
        (other_found : m.phi_f.get? other = some node_id)
        (other_leaf : m.leaf_num ≤ node_id) =>
      phi_f_collapsed shape collapses different other_found other_leaf
    rw [Skeleton.quit, if_neg several]
    refine ⟨live', ?_, ?_, ?_, root', ?_⟩
    · refine tracked.quit held fun other node_id different other_found
        other_leaf => ⟨_, moved other node_id different other_found other_leaf,
          ?_⟩
      show m.leaf_num - 1 ≤ Skeleton.collapse m.leaf_num del_id' node_id
      unfold Skeleton.collapse
      grind
    · exact congrArg (· - 1) leaf_num
    · simp only [← leaf_num, ← dirty_leaf]
      rfl
    · refine (placeOf_quit tokens).trans (funext fun other => ?_)
      dsimp only
      by_cases same : other = holder
      · rw [same, Function.update_self, Function.update_self]
      · rw [Function.update_of_ne same, Function.update_of_ne same, ← leaf_num,
          ← place]
        refine placeOf_congr
          (Option.map (Skeleton.collapse m.leaf_num del_id')) tracked
          rfl fun token node_id other_held => moved token node_id ?_
        rintro rfl
        exact same (tracked.distinct _ _ _ other_held held)

variable [Zero Root]

/-- Without leaves a merge removes the files of the root. -/
theorem run_executeMerge_leafless
    (valid : m.corrupted = false)
    (leafless : m.leaf_num = 0) :
    run (handler fns) (executeMerge cfg) (m, w) =
      (.returned (), committed cfg
        ({ m with root_node := { this_share := 0, nxt_share := 0 } } :
          Cache Root) m.cleaned
        ((w.dumpMeta (dirtyMeta cfg m.toMaps)).unlinkNode "root")) := by
  unfold executeMerge
  rw [run_bind_of_returned (run_checkCorrupted valid),
    run_bind_of_returned run_markCorrupted, run_bind_of_returned run_get]
  dsimp only
  rw [if_pos leafless]
  rfl

omit [DecidableEq Holder] in
/-- A merge cleans the leaves; the root has its files unless there is no leaf. -/
theorem Follows.merge
    (follows : Follows cfg sk m w tokens)
    (fns : Functions Leaf Root) :
    ∃ s', run (handler fns) (executeMerge cfg) (m, w) = (.returned (), s') ∧
      Follows cfg
        { sk with dirty_leaf := ∅, hasRoot := decide (sk.leaf_num ≠ 0) }
        s'.1 s'.2 tokens := by
  obtain ⟨⟨holders, live⟩, tracked, leaf_num, dirty_leaf, root, place⟩ := follows
  obtain ⟨root_node, w', ended, result⟩ :=
    run_executeMerge cfg (plain_computes fns) live.valid live.stored
  obtain ⟨s', ended', _, _, next⟩ :=
    live.execute_merge (plain_computes fns)
  rw [ended] at ended'
  obtain ⟨_, rfl⟩ := Prod.mk.inj ended'
  refine ⟨_, ended, ⟨_, next⟩, ⟨tracked.leaf, tracked.distinct⟩, leaf_num, rfl,
    ?_, place⟩
  by_cases leafless : m.leaf_num = 0
  · rw [run_executeMerge_leafless live.valid leafless] at ended
    obtain ⟨_, same⟩ := Prod.mk.inj ended
    rw [← same, committed, World.hasRoot_dumpMeta, World.hasRoot_unlinkNode_root]
    simp [← leaf_num, leafless]
  · have settled := next.stored.settled rfl (Nat.one_le_iff_ne_zero.mpr leafless)
    rw [settled.hasRoot]
    simp [← leaf_num, leafless]

omit [DecidableEq Holder] [Zero Root] in
theorem Follows.restart
    (follows : Follows cfg sk m w tokens)
    (fns : Functions Leaf Root)
    (alloc : ShareVec Root) :
    ∃ s', run (handler fns) (construct cfg) (initial alloc, w) =
        (.returned (), s') ∧
      Follows cfg { sk with hasRoot := sk.hasRoot || decide (sk.leaf_num = 1) }
        s'.1 s'.2 tokens := by
  obtain ⟨⟨holders, live⟩, tracked, leaf_num, dirty_leaf, root, place⟩ := follows
  obtain ⟨root_node, w', ended, recovery⟩ :=
    run_construct fns live alloc
  refine ⟨_, ended, ⟨_, live.recovered recovery⟩, tracked, leaf_num, dirty_leaf,
    ?_, place⟩
  show w'.hasRoot = _
  cases recovery with
  | leafless none => simp [root, ← leaf_num, none]
  | loaded some_leaf found =>
      rw [World.hasRoot_of_root? found] at root ⊢
      simp [← root]
  | converted single noRoot leaf =>
      rw [World.hasRoot_saveRoot]
      simp [← leaf_num, single]
  | unmerged many noRoot =>
      have several : m.leaf_num ≠ 1 := by omega
      simp [root, ← leaf_num, several]

end

/-! ## Lockstep -/

section

variable [Zero Root] {cfg : Config} {fns : Functions Leaf Root}

/-- An Agent's step is the step of the skeleton. -/
theorem Follows.step
    {sk : Skeleton Holder}
    {event : Event Holder}
    {r r' : Replica Holder Leaf Root}
    {visited : List Visit}
    (follows : Follows cfg sk r.cache.1 r.cache.2 r.tokens)
    (step : Replica.Step cfg fns event r visited r') :
    visited = sk.visits event ∧
      Follows cfg (sk.step event) r'.cache.1 r'.cache.2 r'.tokens := by
  obtain ⟨⟨m, w⟩, tokens⟩ := r
  have placed := fun holder =>
    follows.tracked.placeOf_eq_none holder
  cases step with
  | @done request draws node operation outcome _ s' asks ended finished =>
      refine ⟨rfl, ?_⟩
      cases request with
      | join holder =>
          by_cases absent : tokens holder = none
          · simp only [Request.operation, absent, if_true] at asks
            obtain rfl := Option.some.inj asks
            obtain ⟨token, rfl, next⟩ := follows.join holder ended
              finished
            rw [Skeleton.step, ← follows.place, if_pos ((placed holder).mpr absent)]
            exact next
          · simp [Request.operation, absent] at asks
      | update holder =>
          obtain ⟨token, held, rfl⟩ := Option.map_eq_some_iff.mp asks
          obtain ⟨s'', node_id, ended', place, next⟩ :=
            follows.update fns held node
          have whole : run (handler fns)
              (Operation.prog cfg (.update token node)) (m, w) =
                (.returned none, s'') := run_bind_of_returned ended' _
          obtain ⟨rfl, rfl⟩ := Prod.mk.inj (ended.symm.trans whole)
          rw [Skeleton.step, place]
          exact next
      | quit holder =>
          obtain ⟨token, held, rfl⟩ := Option.map_eq_some_iff.mp asks
          obtain ⟨s'', del_id, ended', place, next⟩ :=
            follows.quit fns held
          have whole : run (handler fns) (Operation.prog cfg (.remove token))
              (m, w) = (.returned none, s'') := run_bind_of_returned ended' _
          obtain ⟨rfl, rfl⟩ := Prod.mk.inj (ended.symm.trans whole)
          rw [Skeleton.step, place]
          exact next
  | @refused request draws _ node asks =>
      refine ⟨rfl, ?_⟩
      cases request with
      | join holder =>
          have held : tokens holder ≠ none := by
            intro absent
            simp [Request.operation, absent] at asks
          rw [Skeleton.step, ← follows.place,
            if_neg fun absent => held ((placed holder).mp absent)]
          exact follows
      | update holder =>
          have absent := (placed holder).mpr (Option.map_eq_none_iff.mp asks)
          rw [follows.place] at absent
          rw [Skeleton.step, absent]
          exact follows
      | quit holder =>
          have absent := (placed holder).mpr (Option.map_eq_none_iff.mp asks)
          rw [follows.place] at absent
          rw [Skeleton.step, absent]
          exact follows
  | merged ended =>
      obtain ⟨holders, live⟩ := follows.live
      obtain ⟨s', ended', next⟩ := follows.merge fns
      obtain ⟨_, rfl⟩ := Prod.mk.inj (ended.symm.trans ended')
      refine ⟨?_, next⟩
      rw [Skeleton.visits, ← follows.leaf_num, ← follows.dirty_leaf,
        ← follows.root]
      exact visits_executeMerge (plain_computes fns) live.valid
        live.stored
  | @constructed alloc _ s' ended =>
      obtain ⟨holders, live⟩ := follows.live
      obtain ⟨s', ended', next⟩ := follows.restart fns alloc
      obtain ⟨_, rfl⟩ := Prod.mk.inj (ended.symm.trans ended')
      refine ⟨?_, next⟩
      rw [Skeleton.visits, ← follows.leaf_num, ← follows.root]
      exact visits_construct live alloc

/-- The visits of a sequence of events. -/
def Skeleton.visitsOf (sk : Skeleton Holder) :
    List (Event Holder) -> List (List Visit)
  | [] => []
  | event :: events => sk.visits event :: (sk.step event).visitsOf events

/-- A run of an Agent is a run of the skeleton. -/
theorem Follows.steps
    {sk : Skeleton Holder}
    {events : List (Event Holder)}
    {r r' : Replica Holder Leaf Root}
    {visited : List (List Visit)}
    (follows : Follows cfg sk r.cache.1 r.cache.2 r.tokens)
    (steps : Replica.Steps cfg fns events r visited r') :
    visited = sk.visitsOf events ∧
      Follows cfg (events.foldl Skeleton.step sk) r'.cache.1 r'.cache.2
        r'.tokens := by
  induction steps generalizing sk with
  | nil r => exact ⟨rfl, follows⟩
  | cons step steps inductionHypothesis =>
      obtain ⟨rfl, next⟩ := follows.step step
      obtain ⟨rfl, last⟩ := inductionHypothesis next
      exact ⟨rfl, last⟩

/-- The skeleton of a new cache. -/
def Skeleton.blank : Skeleton Holder where
  leaf_num := 0
  dirty_leaf := ∅
  hasRoot := false
  place := fun _ => none

omit [DecidableEq Holder] [Zero Root] in
theorem follows_start (alloc : ShareVec Root) (calls : Nat) :
    Follows cfg (Skeleton.blank : Skeleton Holder)
      (initial alloc) ({ disk := ∅, calls := calls } : World Leaf Root)
      fun _ => none where
  live := ⟨_, live_initial alloc calls⟩
  tracked := ⟨nofun, nofun⟩
  leaf_num := rfl
  dirty_leaf := rfl
  root := rfl
  place := rfl

/-- What two Agents agree on. -/
structure Lockstep (r r' : Replica Holder Leaf Root) : Prop where
  leaf_num : r.cache.1.leaf_num = r'.cache.1.leaf_num
  place : ∀ holder, placeOf r.cache.1.toMaps r.tokens holder =
    placeOf r'.cache.1.toMaps r'.tokens holder
  dirty_leaf : r.cache.1.dirty_leaf = r'.cache.1.dirty_leaf
  root : r.cache.2.hasRoot = r'.cache.2.hasRoot

/-- Agents to which the same events happen agree on the places of the leaves,
the dirty leaves and the files of the root, and visit the same nodes in every
merge and construction; and every Agent can be restarted. -/
theorem lockstep
    {Agent : Type}
    {cfg : Agent -> Config}
    {fns : Agent -> Functions Leaf Root}
    {alloc : Agent -> ShareVec Root}
    {calls : Agent -> Nat}
    {events : List (Event Holder)}
    {visited : Agent -> List (List Visit)}
    {r : Agent -> Replica Holder Leaf Root}
    (steps : ∀ agent, Replica.Steps (cfg agent) (fns agent) events
      (Replica.start (alloc agent) (calls agent)) (visited agent) (r agent)) :
    (∀ agent agent', visited agent = visited agent' ∧
      Lockstep (r agent) (r agent')) ∧
    ∀ agent alloc, (run (handler (fns agent)) (construct (cfg agent))
      (initial alloc, (r agent).cache.2)).1 = .returned () := by
  have follow := fun agent =>
    Follows.steps (follows_start (alloc agent) (calls agent)) (steps agent)
  constructor
  · intro agent agent'
    obtain ⟨visited_eq, follows⟩ := follow agent
    obtain ⟨visited_eq', follows'⟩ := follow agent'
    refine ⟨visited_eq.trans visited_eq'.symm, ?_, ?_, ?_, ?_⟩
    · exact follows.leaf_num.trans follows'.leaf_num.symm
    · intro holder
      rw [follows.place, follows'.place]
    · exact follows.dirty_leaf.trans follows'.dirty_leaf.symm
    · exact follows.root.trans follows'.root.symm
  · intro agent alloc
    obtain ⟨_, ended, _⟩ := (follow agent).2.restart (fns agent) alloc
    rw [ended]

end

/-! ## Runs that are evaluated -/

section

variable [Zero Root] (cfg : Config) (fns : Functions Leaf Root)
variable (node : ShareVec Leaf) (alloc : ShareVec Root)

/-- One event at one Agent, and whether it comes to an end.  `draws` is what the
random source gives, `node` what a holder sends and `alloc` the memory of a new
object. -/
def Replica.next
    (draws : List Dpf.Bytes16)
    (r : Replica Holder Leaf Root) : Event Holder -> Bool × Replica Holder Leaf Root
  | .request request =>
      match request.operation r.tokens draws node with
      | some operation =>
          let (outcome, s') := run (handler fns) (operation.prog cfg) r.cache
          (outcome ≠ .unfinished, { cache := s', tokens := request.tokens r.tokens outcome })
      | none => (true, r)
  | .sync => (true, { r with cache := (run (handler fns) (evaluatedMerge cfg) r.cache).2 })
  | .restart =>
      let (outcome, s') := run (handler fns) (construct cfg) (initial alloc, r.cache.2)
      (outcome = .returned (), { r with cache := s' })

/-- What the event visits. -/
def Replica.seen (r : Replica Holder Leaf Root) : Event Holder -> List Visit
  | .request _ => []
  | .sync => visits fns r.cache.1.toMaps (executeMerge cfg) r.cache
  | .restart => visits fns r.cache.1.toMaps (construct cfg) (initial alloc, r.cache.2)

variable {cfg fns node alloc}

theorem Replica.step_next
    {draws : List Dpf.Bytes16}
    {r : Replica Holder Leaf Root}
    {event : Event Holder}
    (ended : (r.next cfg fns node alloc draws event).1 = true) :
    Replica.Step cfg fns event r (r.seen cfg fns alloc event)
      (r.next cfg fns node alloc draws event).2 := by
  cases event with
  | request request =>
      cases asks : request.operation r.tokens draws node with
      | none =>
          simp only [Replica.next, asks]
          exact .refused asks
      | some operation =>
          simp only [Replica.next, asks, decide_eq_true_eq] at ended ⊢
          exact .done asks rfl ended
  | sync =>
      have merged : run (handler fns) (executeMerge cfg) r.cache =
          ((run (handler fns) (evaluatedMerge cfg) r.cache).1,
            (run (handler fns) (evaluatedMerge cfg) r.cache).2) := by
        rw [executeMerge_eq]
      exact .merged merged
  | restart =>
      simp only [Replica.next, decide_eq_true_eq] at ended
      have restarted : run (handler fns) (construct cfg) (initial alloc, r.cache.2) =
          (.returned (), (run (handler fns) (construct cfg) (initial alloc, r.cache.2)).2) :=
        Prod.ext ended rfl
      exact .constructed restarted

variable (cfg fns node alloc)

/-- A sequence of events with the draws of each, and the Agent behind it. -/
def Replica.nextAll : Replica Holder Leaf Root ->
    List (Event Holder × List Dpf.Bytes16) -> Bool × Replica Holder Leaf Root
  | r, [] => (true, r)
  | r, (event, draws) :: rest =>
      let (ended, r') := r.next cfg fns node alloc draws event
      let (later, r'') := r'.nextAll rest
      (ended && later, r'')

def Replica.seenAll : Replica Holder Leaf Root ->
    List (Event Holder × List Dpf.Bytes16) -> List (List Visit)
  | _, [] => []
  | r, (event, draws) :: rest =>
      r.seen cfg fns alloc event ::
        (r.next cfg fns node alloc draws event).2.seenAll rest

variable {cfg fns node alloc}

theorem Replica.steps_nextAll
    {events : List (Event Holder × List Dpf.Bytes16)}
    {r : Replica Holder Leaf Root}
    (ended : (r.nextAll cfg fns node alloc events).1 = true) :
    Replica.Steps cfg fns (events.map Prod.fst) r (r.seenAll cfg fns node alloc events)
      (r.nextAll cfg fns node alloc events).2 := by
  induction events generalizing r with
  | nil => exact .nil r
  | cons entry rest inductionHypothesis =>
      simp only [Replica.nextAll, Bool.and_eq_true] at ended
      exact .cons (Replica.step_next ended.1) (inductionHypothesis ended.2)

end

/-! ## Three Agents and three holders -/

/-- The Agents draw different tokens. -/
def agentDraws (agent holder : Fin 3) : List Dpf.Bytes16 :=
  [fun _ => UInt8.ofNat (16 * agent + holder),
    fun _ => UInt8.ofNat (16 * agent + holder + 128)]

/-- Three holders join and are merged.  The first one quits, so that another
takes its place, and the Agents are restarted behind the next merge. -/
def sampleEvents : List (Event (Fin 3)) :=
  [.request (.join 0), .request (.join 1), .request (.join 2), .sync,
    .request (.quit 0), .sync, .restart, .request (.update 1), .sync]

def agentEvents (agent : Fin 3) : List (Event (Fin 3) × List Dpf.Bytes16) :=
  sampleEvents.zip [agentDraws agent 0, agentDraws agent 1, agentDraws agent 2, [], [],
    [], [], [], []]

def agentStart : Replica (Fin 3) Bool Nat :=
  Replica.start { this_share := 3, nxt_share := 3 } 0

/-- The Agents behind that. -/
def agentEnd (agent : Fin 3) : Bool × Replica (Fin 3) Bool Nat :=
  agentStart.nextAll bitConfig bitFunctions (bitNode true)
    { this_share := 5, nxt_share := 5 } (agentEvents agent)

/-- What they visit. -/
def agentVisits (agent : Fin 3) : List (List Visit) :=
  agentStart.seenAll bitConfig bitFunctions (bitNode true)
    { this_share := 5, nxt_share := 5 } (agentEvents agent)

theorem lockstep_join :
    (∀ agent agent' : Fin 3, agentVisits agent = agentVisits agent' ∧
      Lockstep (agentEnd agent).2 (agentEnd agent').2) ∧
    ∀ (agent : Fin 3) alloc, (run (handler bitFunctions) (construct bitConfig)
      (initial alloc, (agentEnd agent).2.cache.2)).1 = .returned () := by
  have ended : ∀ agent, (agentEnd agent).1 = true := by decide +kernel
  have steps : ∀ agent, Replica.Steps bitConfig bitFunctions sampleEvents
      (Replica.start { this_share := 3, nxt_share := 3 } 0) (agentVisits agent)
      (agentEnd agent).2 :=
    fun agent => Replica.steps_nextAll (ended agent)
  exact lockstep steps

end TreeCache
end Mpmt
