import AoSdl.AuthTokens
import AoSdl.Lib.Tally
import AoSdl.ServerPacketFrames
import Mathlib.Algebra.Group.Prod

/-! Each session has a weight in the four counters of the statistics. How far the counters are from
the sum of the weights changes only where a counter moves and a session does not. -/
namespace AoSdl
open Lib.Bindings

namespace SessionMap

variable {M : Type*} [AddCommGroup M] (weight : ServerSession → M) (m : SessionMap) (k : UInt64)

theorem total_set (session : ServerSession) : total weight (m.set k session).for_each =
    total weight m.for_each - share weight (m.find k) + weight session := by
  have changed := (PersistentMap.set_spec m.valid k session (m.separate k session)).2
  have listed := (m.set k session).lists
  apply m.lists.total_set weight
  rwa [show (m.set k session).find = _ from changed] at listed

theorem total_erase : total weight (m.erase k).for_each =
    total weight m.for_each - share weight (m.find k) := by
  have changed := (PersistentMap.erase_spec m.valid k).2
  have listed := (m.erase k).lists
  apply m.lists.total_erase weight
  rwa [show (m.erase k).find = _ from changed] at listed

theorem total_modify (f : ServerSession → ServerSession) : total weight (m.modify k f).for_each =
    total weight m.for_each + share (fun session => weight (f session) - weight session) (m.find k) := by
  unfold modify
  cases found : m.find k with
  | none => simp
  | some session =>
    rw [total_set, found, share_some, share_some]
    abel

end SessionMap

namespace GameRoom

/-- The counters `joined`, `moderators`, `sessions_ao` and `sessions_nx`. -/
abbrev Tally := Int × Int × Int × Int

def weight (roles : Bool × Bool × Bytes) : Tally :=
  (if roles.1 then 1 else 0, if roles.2.1 then 1 else 0,
    if roles.2.2 = bytes "ao2" then 1 else 0, if roles.2.2 = bytes "ao2" then 0 else 1)

def counted (stats : RoomStats) : Tally :=
  (stats.joined, stats.moderators, stats.sessions_ao, stats.sessions_nx)

/-- How far the counters are from the sessions. -/
def drift (r : GameRoom) : Tally :=
  counted r.stats - total (weight ∘ ServerSession.roles) r.sessions_.for_each

/-- The statistics agree with the live sessions. -/
structure StatsAgree (r : GameRoom) : Prop where
  joined : r.stats.joined = (r.sessions.filter (·.joined)).length
  moderators : r.stats.moderators = (r.sessions.filter (·.moderator)).length
  sessions_ao : r.stats.sessions_ao = (r.sessions.filter (·.protocol = bytes "ao2")).length
  sessions_nx : r.stats.sessions_nx = (r.sessions.filter (·.protocol ≠ bytes "ao2")).length

theorem total_roles (l : List (UInt64 × ServerSession)) :
    total (weight ∘ ServerSession.roles) l =
      ((((l.map Prod.snd).filter (·.joined)).length : Int),
        (((l.map Prod.snd).filter (·.moderator)).length : Int),
        (((l.map Prod.snd).filter (·.protocol = bytes "ao2")).length : Int),
        (((l.map Prod.snd).filter (·.protocol ≠ bytes "ao2")).length : Int)) := by
  induction l with
  | nil => rfl
  | cons e l ih =>
    obtain ⟨k, session⟩ := e
    rw [total_cons, ih]
    simp only [weight, ServerSession.roles, Function.comp_apply, List.map_cons, List.filter_cons]
    by_cases joined : session.joined = true <;> by_cases moderator : session.moderator = true <;>
      by_cases protocol : session.protocol = bytes "ao2" <;>
      simp [joined, moderator, protocol, add_comm]

theorem agree_iff {r : GameRoom} : StatsAgree r ↔ drift r = 0 := by
  rw [drift, sub_eq_zero, total_roles]
  simp only [counted, Prod.mk.injEq]
  exact ⟨fun agree => ⟨agree.joined, agree.moderators, agree.sessions_ao, agree.sessions_nx⟩,
    fun ⟨joined, moderators, sessions_ao, sessions_nx⟩ =>
      ⟨joined, moderators, sessions_ao, sessions_nx⟩⟩

variable {r : GameRoom}

theorem drift_of_same {r' : GameRoom}
    (roles : ∀ k, (r'.get_session k).map ServerSession.roles = (r.get_session k).map ServerSession.roles)
    (stats : counted r'.stats = counted r.stats) : drift r' = drift r := by
  rw [drift, drift, stats, r'.sessions_.lists.total_congr weight r.sessions_.lists roles]

theorem counted_countSession (stats : RoomStats) (protocol : Bytes) :
    counted (countSession stats protocol 1) = counted stats + weight (false, false, protocol) ∧
    counted (countSession stats protocol (-1)) = counted stats - weight (false, false, protocol) := by
  by_cases ao : protocol = bytes "ao2" <;> simp [countSession, counted, weight, ao, sub_eq_add_neg]

theorem drift_set {k : UInt64} {session : ServerSession} {r' : GameRoom}
    (sessions : r'.sessions_ = r.sessions_.set k session)
    (stats : counted r'.stats = counted r.stats + weight session.roles) :
    drift r' = drift r + share (weight ∘ ServerSession.roles) (r.get_session k) := by
  rw [drift, drift, sessions, stats, SessionMap.total_set, get_session, Function.comp_apply]
  abel

theorem drift_create (k : UInt64) (protocol : Bytes) : drift (r.create_session k protocol) =
    drift r + share (weight ∘ ServerSession.roles) (r.get_session k) :=
  drift_set rfl (counted_countSession r.stats protocol).1

theorem drift_create_with_token (strHash : Bytes → BitVec 64) (k : UInt64) (protocol token : Bytes) :
    drift (r.create_session_with_token strHash k protocol token) =
      drift r + share (weight ∘ ServerSession.roles) (r.get_session k) :=
  drift_set rfl (counted_countSession r.stats protocol).1

theorem release_frame (c : Int) :
    (r.release c).sessions_ = r.sessions_ ∧ counted (r.release c).stats = counted r.stats := by
  unfold release
  split <;> exact ⟨rfl, rfl⟩

theorem drift_erase {k : UInt64} {session : ServerSession} {r' : GameRoom}
    (found : r.sessions_.find k = some session) (sessions : r'.sessions_ = r.sessions_.erase k)
    (stats : counted r'.stats = counted r.stats - weight session.roles) : drift r' = drift r := by
  rw [drift, drift, sessions, stats, SessionMap.total_erase, found, share_some, Function.comp_apply]
  abel

theorem drift_destroy (strHash : Bytes → BitVec 64) (k : UInt64) :
    drift (r.destroy_session strHash k) = drift r := by
  unfold destroy_session
  split
  · rfl
  · next session found =>
    refine drift_erase found (congrArg (·.erase k) (release_frame _).1) ?_
    refine (release_frame _).2.trans ?_
    have left := (counted_countSession r.stats session.protocol).2
    have weighs : weight session.roles = weight (false, false, session.protocol) +
        ((if session.joined then 1 else 0, if session.moderator then 1 else 0, 0, 0) : Tally) := by
      unfold weight ServerSession.roles
      cases session.joined <;> cases session.moderator <;> simp
    rw [weighs, ← sub_sub, ← left]
    cases session.joined <;> cases session.moderator <;> simp [counted]

/-- `expire_sessions`; `idle` says which sessions were last active longer ago than the limit. -/
def expire_sessions (strHash : Bytes → BitVec 64) (r : GameRoom) (ttl_seconds : Int)
    (idle : ServerSession → Bool) : List UInt64 × GameRoom :=
  if ttl_seconds ≤ 0 then ([], r)
  else
    let to_expire := (r.sessions_.for_each.filter fun e =>
      !e.2.session_token.isEmpty && idle e.2).map Prod.fst
    (to_expire, to_expire.foldl (fun r client_id => r.destroy_session strHash client_id) r)

/-- The section of a create that binds the identity of an auth token to the session that
`find_session_by_token` points to. -/
def bind_session (strHash : Bytes → BitVec 64) (r : GameRoom) (token auth : Bytes)
    (entry : AuthTokenEntry) : GameRoom :=
  match r.token_index_.find strHash token with
  | none => r
  | some client_id =>
    match r.get_session client_id with
    | none => r
    | some _ =>
      { r.update_session client_id fun session =>
          { session with
            moderator := true, acl_role := entry.acl, moderator_name := entry.username
            auth_token_id := auth } with
        stats := { r.stats with moderators := r.stats.moderators + 1 } }

theorem drift_expire (strHash : Bytes → BitVec 64) (ttl_seconds : Int) (idle : ServerSession → Bool) :
    drift (r.expire_sessions strHash ttl_seconds idle).2 = drift r := by
  have destroyed (ids : List UInt64) (r : GameRoom) :
      drift (ids.foldl (fun r client_id => r.destroy_session strHash client_id) r) = drift r := by
    induction ids generalizing r with
    | nil => rfl
    | cons id ids ih => rw [List.foldl_cons, ih, drift_destroy]
  unfold expire_sessions
  split
  · rfl
  · exact destroyed _ r

theorem drift_write {k : UInt64} {session : ServerSession} {f : ServerSession → ServerSession}
    {r' : GameRoom} (found : r.get_session k = some session)
    (sessions : r'.sessions_ = r.sessions_.modify k f) :
    drift r' = drift r + (counted r'.stats - counted r.stats) -
      (weight (f session).roles - weight session.roles) := by
  have found : r.sessions_.find k = some session := found
  rw [drift, drift, sessions, SessionMap.total_modify, found, share_some, Function.comp_apply,
    Function.comp_apply]
  abel

theorem drift_join {k : UInt64} {session : ServerSession} {f : ServerSession → ServerSession}
    {r' : GameRoom} (found : r.get_session k = some session)
    (sessions : r'.sessions_ = r.sessions_.modify k f)
    (joins : (f session).roles = (true, session.moderator, session.protocol))
    (stats : counted r'.stats = counted r.stats + (1, 0, 0, 0)) :
    drift r' = drift r + if session.joined then (1, 0, 0, 0) else 0 := by
  have gained : weight (f session).roles - weight session.roles =
      (1, 0, 0, 0) - if session.joined then (1, 0, 0, 0) else 0 := by
    rw [joins]
    unfold weight ServerSession.roles
    cases session.joined <;> simp [Prod.mk_zero_zero]
  rw [drift_write found sessions, stats, gained]
  abel

theorem drift_moderate {k : UInt64} {session : ServerSession} {f : ServerSession → ServerSession}
    {r' : GameRoom} (moderator : Bool) (found : r.get_session k = some session)
    (sessions : r'.sessions_ = r.sessions_.modify k f)
    (moderates : (f session).roles = (session.joined, moderator, session.protocol))
    (stats : counted r'.stats = counted r.stats + (0, if moderator then 1 else -1, 0, 0)) :
    drift r' = drift r +
      if session.moderator = moderator then (0, if moderator then 1 else -1, 0, 0) else 0 := by
  have gained : weight (f session).roles - weight session.roles =
      (0, if moderator then 1 else -1, 0, 0) -
        if session.moderator = moderator then (0, if moderator then 1 else -1, 0, 0) else 0 := by
    rw [moderates]
    unfold weight ServerSession.roles
    cases session.moderator <;> cases moderator <;> simp [Prod.mk_zero_zero]
  rw [drift_write found sessions, stats, gained]
  abel

theorem drift_nx_create (sha256 : Bytes → Bytes) (strHash : Bytes → BitVec 64) (k : UInt64)
    (token : Bytes) (client : NXClient) :
    drift (NXServer.create_session sha256 strHash r k token client) =
      drift r + share (weight ∘ ServerSession.roles) (r.get_session k) := by
  have made := drift_create_with_token (r := r) strHash k (bytes "aonx") token
  have found := get_session_create_with_token strHash r k k (bytes "aonx") token
  rw [if_pos rfl] at found
  rw [NXServer.create_session, ← made, drift_join found rfl rfl]
  · simp
  · simp [counted, NXServer.introduce, update_session]

theorem drift_bind (strHash : Bytes → BitVec 64) (token auth : Bytes) (entry : AuthTokenEntry) :
    drift (r.bind_session strHash token auth entry) = drift r +
      if (r.find_session_by_token strHash token).any (·.moderator) then (0, 1, 0, 0) else 0 := by
  unfold bind_session find_session_by_token
  cases token_found : r.token_index_.find strHash token with
  | none => simp
  | some k =>
    have looked : r.sessions_.find k = r.get_session k := rfl
    cases found : r.get_session k with
    | none => simp [looked, found]
    | some session =>
      simp only [looked, found, Option.bind_eq_bind, Option.bind_some, Option.any_some]
      exact drift_moderate true found rfl rfl (by simp [counted])

end GameRoom

end AoSdl
