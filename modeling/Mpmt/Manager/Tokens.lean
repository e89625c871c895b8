import Mpmt.Manager.Faces
import Mpmt.Manager.Fifo

/-!
# Tokens and memberships

A set holder gets the tokens of all three Agents with the commit that makes it
JOINED, and loses them with the commit that makes it QUITTED.  No method writes
one without the other, so the two tables agree in every state.
-/

namespace Mpmt
namespace Manager

open Effects Threads Contract

namespace Db

variable {db db' : Db}

/-- A user has joined exactly with a token of each Agent, and has none
otherwise. -/
structure Registered (db : Db) : Prop where
  equipped : ∀ userId, db.Joined userId -> ∀ role, db.HasToken userId role
  joined : ∀ userId role token, db.getAgentToken userId role = some token ->
    db.Joined userId ∧ token ≠ ""

theorem registered_empty : Registered empty where
  equipped := fun _ ⟨_, found, _⟩ => by cases found
  joined := fun _ _ _ found => by cases found

theorem Registered.of_same
    (registered : db.Registered)
    (tokens : db'.tokens = db.tokens)
    (joined : ∀ userId, db'.Joined userId ↔ db.Joined userId) : db'.Registered where
  equipped := by
    intro userId isJoined role
    rw [hasToken_congr tokens]
    exact registered.equipped userId ((joined userId).mp isJoined) role
  joined := by
    intro userId role token found
    rw [getAgentToken, tokens] at found
    obtain ⟨isJoined, full⟩ := registered.joined userId role token found
    exact ⟨(joined userId).mpr isJoined, full⟩

/-- The tokens that `complete_join` stores. -/
theorem getAgentToken_setTokens
    (db : Db)
    (userId : String)
    {tokens : List (Role × String)}
    (complete : Complete tokens)
    (role : Role) :
    ∃ token, token ≠ "" ∧ (db.setTokens userId tokens).getAgentToken userId role = some token := by
  obtain ⟨all, full⟩ := complete
  have kept : tokens.filter (fun entry => entry.2 ≠ "") = tokens :=
    List.filter_eq_self.mpr fun entry member => decide_eq_true (full entry member)
  have member : (userId, role) ∈
      (tokens.map fun entry => ((userId, entry.1), entry.2)).map Prod.fst := by
    obtain ⟨entry, inside, rfl⟩ := List.mem_map.mp (all role)
    exact List.mem_map.mpr ⟨_, List.mem_map.mpr ⟨entry, inside, rfl⟩, rfl⟩
  obtain ⟨token, stored, found⟩ := db.tokens.get?_setAll_of_mem member
  obtain ⟨entry, inside, same⟩ := List.mem_map.mp stored
  refine ⟨token, ?_, ?_⟩
  · have isToken : entry.2 = token := congrArg Prod.snd same
    exact isToken ▸ full entry inside
  · rw [getAgentToken, setTokens]
    dsimp only
    rw [kept]
    exact found

theorem Registered.completedJoin
    (registered : db.Registered)
    {tokens : List (Role × String)}
    (complete : Complete tokens)
    (completed : db.completeJoin opId userId tokens now = .ok db') : db'.Registered := by
  obtain ⟨_, _, stored, joined⟩ := completeJoin_eq_ok completed
  have known : userId ∈ db.users := by
    by_contra unknown
    unfold Db.completeJoin at completed
    split at completed
    · cases completed
    · next fine =>
        obtain ⟨entry, member, _⟩ := List.mem_map.mp (complete.1 .steward)
        exact fine ⟨unknown, List.any_eq_true.mpr
          ⟨entry, member, decide_eq_true (complete.2 entry member)⟩⟩
  refine ⟨fun other isJoined role => ?_, fun other role token found => ?_⟩
  · rw [hasToken_congr stored]
    by_cases same : other = userId
    · obtain ⟨token, full, found⟩ :=
        getAgentToken_setTokens (db.finish opId now) userId complete role
      rw [same]
      exact ⟨token, found, full⟩
    · rw [hasToken_setTokens_other tokens same]
      rw [joined, if_neg same] at isJoined
      exact registered.equipped other isJoined role
  · rw [joined]
    by_cases same : other = userId
    · rw [if_pos same]
      obtain ⟨token', full, found'⟩ :=
        getAgentToken_setTokens (db.finish opId now) userId complete role
      rw [getAgentToken, stored, same] at found
      cases found.symm.trans found'
      exact ⟨known, full⟩
    · rw [if_neg same]
      refine registered.joined other role token ?_
      rw [getAgentToken, stored] at found
      exact (getAgentToken_setTokens_other tokens same role).symm.trans found

theorem Registered.completedQuit
    (registered : db.Registered)
    (opId : Nat)
    (userId : String)
    (now : Time) : (db.completeQuit opId userId now).Registered := by
  have tokens : ∀ other role, (db.completeQuit opId userId now).getAgentToken other role =
      if other = userId then none else db.getAgentToken other role := by
    intro other role
    rw [getAgentToken, completeQuit, setUserStatus]
    dsimp only
    rw [Dict.get?_filterKeys]
    by_cases same : other = userId
    · simp [same]
    · simp [same, getAgentToken, finish, updateOperation, updateOperations]
  refine ⟨fun other isJoined role => ?_, fun other role token found => ?_⟩
  · obtain ⟨different, is⟩ := (joined_completeQuit ..).mp isJoined
    rw [HasToken, tokens, if_neg different]
    exact registered.equipped other is role
  · rw [tokens] at found
    split at found
    · cases found
    · next different =>
        obtain ⟨is, full⟩ := registered.joined other role token found
        exact ⟨(joined_completeQuit ..).mpr ⟨different, is⟩, full⟩

/-- Every method keeps the two tables together, if a JOIN is completed with a
token for each Agent. -/
theorem Registered.apply
    (registered : db.Registered)
    {dbCall : DbCall}
    {reply : dbCall.Reply}
    (proper : Cmd.Proper (.db dbCall))
    (applied : dbCall.apply now db = .ok (reply, db')) : db'.Registered := by
  cases dbCall with
  | ensureUser userId role =>
      cases applied
      refine registered.of_same ?_ fun other => db.joined_ensureUser userId other role
      unfold ensureUser
      split
      · rfl
      · rfl
  | completeJoin opId userId tokens =>
      rw [DbCall.apply] at applied
      cases completed : db.completeJoin opId userId tokens now with
      | error error =>
          rw [completed] at applied
          cases applied
      | ok after =>
          rw [completed] at applied
          cases applied
          exact registered.completedJoin proper completed
  | completeQuit opId userId =>
      cases applied
      exact registered.completedQuit opId userId now
  | createReservedOperation userId protType =>
      obtain ⟨_, _, users, tokens, _⟩ := createReservedOperation_eq_ok applied
      exact registered.of_same tokens (joined_congr users)
  | enqueueReserved opId =>
      obtain ⟨users, tokens, _⟩ := db.tables_enqueueReserved opId now
      have after : (db.enqueueReserved opId now).2 = db' :=
        congrArg Prod.snd (Except.ok.inj applied)
      rw [← after]
      exact registered.of_same tokens (joined_congr users)
  | promoteFirstQueued =>
      obtain ⟨users, tokens, _⟩ := db.tables_promoteFirstQueued now
      have after : (db.promoteFirstQueued now).2 = db' :=
        congrArg Prod.snd (Except.ok.inj applied)
      rw [← after]
      exact registered.of_same tokens (joined_congr users)
  | _ =>
      cases applied
      exact registered.of_same rfl (joined_congr rfl)

end Db

/-! ## All threads -/

/-- The contract of a thread: every command keeps the two tables together. -/
def tokenContract (cfg : Settings) : Contract (manager cfg) Unit where
  Inv x := x.1.db.Registered
  Guar _ _ x' := x'.1.db.Registered
  Pre _ _ _ := True
  fresh _ := ()

theorem token_verified (cfg : Settings) : (tokenContract cfg).Verified :=
  .of_only (fun _ _ _ _ guar => guar) (fun _ registered => registered) (fun _ _ _ => trivial)
    (fun cmd proper tid x choice next done registered performed => by
      have before : x.1.db.Registered := registered
      have performed' : perform tid next choice cmd x.1 = some done := performed
      refine ⟨(), ?_⟩
      show done.state.db.Registered
      rcases db_of_perform performed' with same | ⟨dbCall, now, reply, rfl, applied⟩
      · rw [same]
        exact before
      · exact before.apply proper applied)
    (proper_program cfg)

theorem registered_of_run
    {trace : List Instant}
    {c : Config interface PyError State}
    (run : Run (manager cfg) (initial cfg) trace c) : c.state.db.Registered := by
  have good : (tokenContract cfg).Good (initial cfg) () :=
    .boot (token_verified cfg) Db.registered_empty trivial
  obtain ⟨_, good'⟩ := good.run (token_verified cfg) run
  exact good'.inv

/-- In every run a user has the status JOINED exactly when it has a token of the
Steward and of both peers, and a user without that status has none of them. -/
theorem tokens_of_members
    {trace : List Instant}
    {c : Config interface PyError State}
    (cfg : Settings)
    (run : Run (manager cfg) (initial cfg) trace c)
    (userId : String) :
    (c.state.db.Joined userId ↔ ∀ role, c.state.db.HasToken userId role) ∧
      (¬ c.state.db.Joined userId -> ∀ role, c.state.db.getAgentToken userId role = none) := by
  have registered := registered_of_run run
  refine ⟨⟨registered.equipped userId, fun all => ?_⟩, fun outside role => ?_⟩
  · obtain ⟨token, found, _⟩ := all .steward
    exact (registered.joined userId .steward token found).1
  · rw [Option.eq_none_iff_forall_ne_some]
    intro token found
    exact outside (registered.joined userId role token found).1

theorem tokens_of_members_two :
    (sampleDriven.2.state.db.Joined "a" ↔
        ∀ role, sampleDriven.2.state.db.HasToken "a" role) ∧
      (¬ sampleDriven.2.state.db.Joined "a" ->
        ∀ role, sampleDriven.2.state.db.getAgentToken "a" role = none) :=
  tokens_of_members sampleSettings (.driven _) "a"

end Manager
end Mpmt
