import AoSdl.Lib.Bindings
import AoSdl.SessionWeights

/-! The session registry: the sessions by client id and the token index, under every order of the
operations that make and end sessions. Beside the room stands what the operations amount to: the
client ids of the live sessions, each with its token. -/
namespace AoSdl
open Lib.Bindings Lib.Runs

namespace GameRoom

variable (strHash : Bytes → BitVec 64)

/-- The callers of `register_session_token` set the token of the session first. -/
def give_token (r : GameRoom) (token : Bytes) (client_id : UInt64) : GameRoom :=
  (r.update_session client_id fun s => { s with session_token := token }).register_session_token
    strHash token client_id

/-- What a handler writes into a session through its pointer. -/
def write (r : GameRoom) (client_id : UInt64) (f : ServerSession → ServerSession) : GameRoom :=
  r.update_session client_id fun s =>
    { f s with client_id := s.client_id, session_token := s.session_token }

def token_of (r : GameRoom) (client_id : UInt64) : Option Bytes :=
  (r.get_session client_id).map (·.session_token)

theorem token_of_eq {r r' : GameRoom} {k : UInt64} {s : Option ServerSession}
    (sessions : ∀ q, r'.get_session q = if q = k then s else r.get_session q) :
    r'.token_of = Function.update r.token_of k (s.map (·.session_token)) := by
  funext q
  rw [token_of, sessions, Function.update_apply]
  split <;> rfl

theorem token_of_create (r : GameRoom) (k : UInt64) (protocol : Bytes) :
    (r.create_session k protocol).token_of = Function.update r.token_of k (some []) :=
  token_of_eq fun q => get_session_create r k q protocol

theorem token_of_create_with_token (r : GameRoom) (k : UInt64) (protocol token : Bytes) :
    (r.create_session_with_token strHash k protocol token).token_of =
      Function.update r.token_of k (some token) :=
  token_of_eq fun q => get_session_create_with_token strHash r k q protocol token

theorem token_of_destroy (r : GameRoom) (k : UInt64) :
    (r.destroy_session strHash k).token_of = Function.update r.token_of k none :=
  token_of_eq fun q => get_session_destroy strHash r k q

theorem get_session_register (r : GameRoom) (token : Bytes) (k q : UInt64) :
    (r.register_session_token strHash token k).get_session q = r.get_session q := by
  unfold register_session_token
  split <;> rfl

theorem get_session_give_token (r : GameRoom) (token : Bytes) (k q : UInt64) :
    (r.give_token strHash token k).get_session q =
      if q = k then (r.get_session k).map fun s => { s with session_token := token }
      else r.get_session q := by
  rw [give_token, get_session_register, get_session_update]

theorem token_of_give_token (r : GameRoom) (token : Bytes) {k : UInt64}
    (live : (r.token_of k).isSome) :
    (r.give_token strHash token k).token_of = Function.update r.token_of k (some token) := by
  obtain ⟨s, here⟩ := Option.isSome_iff_exists.mp (Option.isSome_map.symm.trans live)
  rw [token_of_eq fun q => get_session_give_token strHash r token k q, here]
  rfl

theorem get_session_write (r : GameRoom) (k q : UInt64) (f : ServerSession → ServerSession) :
    (r.write k f).get_session q =
      if q = k then (r.get_session k).map fun s =>
        { f s with client_id := s.client_id, session_token := s.session_token }
      else r.get_session q := get_session_update _ _ _ _

theorem token_of_write (r : GameRoom) (k : UInt64) (f : ServerSession → ServerSession) :
    (r.write k f).token_of = r.token_of := by
  rw [token_of_eq fun q => get_session_write r k q f, Option.map_map]
  exact Function.update_eq_self k r.token_of

theorem token_index_release (r : GameRoom) (c : Int) : (r.release c).token_index_ = r.token_index_ := by
  unfold release
  split <;> rfl

/-- The two maps of the registry agree. -/
structure Indexed (r : GameRoom) : Prop where
  valid : r.token_index_.Valid strHash
  own : ∀ k s, r.get_session k = some s → s.client_id = k
  index : Inverse (· ≠ []) r.token_of (r.token_index_.find strHash)

/-- No live session has `token`, and none has another token with its hash. -/
structure FreshToken (r : GameRoom) (token : Bytes) : Prop where
  unused : ∀ k, r.token_of k ≠ some token
  separate : ∀ k t, r.token_of k = some t → t ≠ [] → strHash t ≠ strHash token

variable {strHash}

theorem own_update {r r' : GameRoom} {k : UInt64} {s : Option ServerSession}
    (own : ∀ k s, r.get_session k = some s → s.client_id = k)
    (sessions : ∀ q, r'.get_session q = if q = k then s else r.get_session q)
    (here : ∀ session, s = some session → session.client_id = k) (q : UInt64) (session : ServerSession)
    (found : r'.get_session q = some session) : session.client_id = q := by
  rw [sessions] at found
  split at found
  · next same => exact (here session found).trans same.symm
  · exact own q session found

theorem Indexed.set_index {r : GameRoom} (indexed : r.Indexed strHash) {token : Bytes}
    (fresh : r.FreshToken strHash token) (k : UInt64) :
    (r.token_index_.set strHash token k).Valid strHash ∧
    (r.token_index_.set strHash token k).find strHash =
      Function.update (r.token_index_.find strHash) token (some k) := by
  refine PersistentMap.set_spec indexed.valid token k fun t bound same => ?_
  obtain ⟨q, found⟩ := Option.isSome_iff_exists.mp bound
  obtain ⟨counted, held⟩ := (indexed.index.iff t q).mp found
  exact absurd same (fresh.separate q t held counted)

theorem Indexed.create_session {r : GameRoom} (indexed : r.Indexed strHash) {k : UInt64}
    (protocol : Bytes) (free : r.token_of k = none) : (r.create_session k protocol).Indexed strHash where
  valid := indexed.valid
  own := own_update indexed.own (fun q => get_session_create r k q protocol) fun _ same => by
    cases same
    rfl
  index := by
    rw [token_of_create]
    refine indexed.index.skip (fun u bound => ?_) (not_not.mpr rfl)
    rw [free] at bound
    cases bound

/-- A session that was in no index gets a token, and the index with it unless it is empty. -/
theorem Indexed.tokened {r r' : GameRoom} (indexed : r.Indexed strHash) {k : UInt64} {token : Bytes}
    (own : ∀ q s, r'.get_session q = some s → s.client_id = q)
    (unbound : ∀ u, r.token_of k = some u → ¬ u ≠ [])
    (fresh : token ≠ [] → r.FreshToken strHash token)
    (tokens : r'.token_of = Function.update r.token_of k (some token))
    (index : r'.token_index_ =
      if token.isEmpty then r.token_index_ else r.token_index_.set strHash token k) :
    r'.Indexed strHash := by
  by_cases counted : token = []
  · subst counted
    rw [List.isEmpty_nil, if_pos rfl] at index
    refine ⟨index ▸ indexed.valid, own, ?_⟩
    rw [tokens, index]
    exact indexed.index.skip unbound (not_not.mpr rfl)
  · rw [if_neg (mt List.isEmpty_iff.mp counted)] at index
    obtain ⟨valid, find⟩ := indexed.set_index (fresh counted) k
    refine ⟨index ▸ valid, own, ?_⟩
    rw [tokens, index, find]
    exact indexed.index.bind unbound counted (fresh counted).unused

theorem Indexed.create_session_with_token {r : GameRoom} (indexed : r.Indexed strHash) {k : UInt64}
    (protocol : Bytes) {token : Bytes} (free : r.token_of k = none)
    (fresh : token ≠ [] → r.FreshToken strHash token) :
    (r.create_session_with_token strHash k protocol token).Indexed strHash := by
  refine indexed.tokened (own_update indexed.own
    (fun q => get_session_create_with_token strHash r k q protocol token) fun session same => ?_)
    (fun u bound => ?_) fresh (token_of_create_with_token strHash r k protocol token) rfl
  · cases same
    rfl
  · rw [free] at bound
    cases bound

theorem Indexed.destroy_session {r : GameRoom} (indexed : r.Indexed strHash) (k : UInt64) :
    (r.destroy_session strHash k).Indexed strHash := by
  have own := own_update indexed.own (fun q => get_session_destroy strHash r k q) fun _ same => by
    cases same
  have tokens := token_of_destroy strHash r k
  cases found : r.sessions_.find k with
  | none =>
    have same : r.destroy_session strHash k = r := by simp only [GameRoom.destroy_session, found]
    rw [same]
    exact indexed
  | some session =>
    have held : r.token_of k = some session.session_token := congrArg (Option.map _) found
    have index : (r.destroy_session strHash k).token_index_ =
        if session.session_token.isEmpty then r.token_index_
        else r.token_index_.erase strHash session.session_token := by
      simp only [GameRoom.destroy_session, found, token_index_release]
    by_cases counted : session.session_token = []
    · rw [counted] at index
      refine ⟨index ▸ indexed.valid, own, ?_⟩
      rw [tokens, index]
      refine indexed.index.skip_unbind fun u bound => ?_
      rw [held, counted] at bound
      exact not_not.mpr (Option.some.inj bound).symm
    · rw [if_neg (mt List.isEmpty_iff.mp counted)] at index
      obtain ⟨valid, find⟩ := PersistentMap.erase_spec indexed.valid session.session_token
      refine ⟨index ▸ valid, own, ?_⟩
      rw [tokens, index, find]
      exact indexed.index.unbind counted held

theorem Indexed.give_token {r : GameRoom} (indexed : r.Indexed strHash) {k : UInt64} {token : Bytes}
    (free : r.token_of k = some []) (fresh : token ≠ [] → r.FreshToken strHash token) :
    (r.give_token strHash token k).Indexed strHash := by
  refine indexed.tokened (own_update indexed.own
    (fun q => get_session_give_token strHash r token k q) fun session same => ?_) (fun u bound => ?_) fresh
    (token_of_give_token strHash r token (Option.isSome_iff_exists.mpr ⟨[], free⟩)) ?_
  · obtain ⟨s, here, rfl⟩ := Option.map_eq_some_iff.mp same
    exact indexed.own k s here
  · rw [free] at bound
    exact not_not.mpr (Option.some.inj bound).symm
  · simp only [GameRoom.give_token, register_session_token]
    split <;> rfl

theorem Indexed.write {r : GameRoom} (indexed : r.Indexed strHash) (k : UInt64)
    (f : ServerSession → ServerSession) : (r.write k f).Indexed strHash where
  valid := indexed.valid
  own := own_update indexed.own (fun q => get_session_write r k q f) fun session same => by
    obtain ⟨s, here, rfl⟩ := Option.map_eq_some_iff.mp same
    exact indexed.own k s here
  index := by
    rw [token_of_write]
    exact indexed.index

theorem Indexed.destroy_all {r : GameRoom} (indexed : r.Indexed strHash) (ids : List UInt64) :
    (ids.foldl (fun r client_id => r.destroy_session strHash client_id) r).Indexed strHash := by
  induction ids generalizing r with
  | nil => exact indexed
  | cons k ids ih => exact ih (indexed.destroy_session k)

theorem token_of_destroy_all (r : GameRoom) (ids : List UInt64) (q : UInt64) :
    (ids.foldl (fun r client_id => r.destroy_session strHash client_id) r).token_of q =
      if q ∈ ids then none else r.token_of q := by
  induction ids generalizing r with
  | nil => simp
  | cons k ids ih =>
    rw [List.foldl_cons, ih, token_of_destroy, Function.update_apply]
    by_cases same : q = k
    · simp [same]
    · simp [same]

theorem Indexed.expire_sessions {r : GameRoom} (indexed : r.Indexed strHash) (ttl_seconds : Int)
    (idle : ServerSession → Bool) : (r.expire_sessions strHash ttl_seconds idle).2.Indexed strHash := by
  unfold GameRoom.expire_sessions
  split
  · exact indexed
  · exact indexed.destroy_all _

/-- The sessions that expire are the idle ones with a token. -/
theorem Indexed.token_of_expire {r : GameRoom} (indexed : r.Indexed strHash) (ttl_seconds : Int)
    (idle : UInt64 → Bool) (q : UInt64) :
    (r.expire_sessions strHash ttl_seconds fun s => idle s.client_id).2.token_of q =
      (r.token_of q).filter fun token => !(0 < ttl_seconds && !token.isEmpty && idle q) := by
  unfold GameRoom.expire_sessions
  by_cases off : ttl_seconds ≤ 0
  · have zero : ¬ 0 < ttl_seconds := not_lt.mpr off
    rw [if_pos off]
    change r.token_of q = _
    cases r.token_of q <;> simp [zero, Option.filter]
  · have positive : 0 < ttl_seconds := not_le.mp off
    rw [if_neg off, token_of_destroy_all]
    have listed : q ∈ ((r.sessions_.for_each.filter fun e =>
        !e.2.session_token.isEmpty && idle e.2.client_id).map Prod.fst) ↔
        ∃ s, r.get_session q = some s ∧ (!s.session_token.isEmpty && idle q) = true := by
      rw [List.mem_map]
      constructor
      · rintro ⟨⟨k, s⟩, member, rfl⟩
        obtain ⟨there, expired⟩ := List.mem_filter.mp member
        have here : r.get_session k = some s := (r.sessions_.lists.mem k s).mp there
        rw [indexed.own k s here] at expired
        exact ⟨s, here, expired⟩
      · rintro ⟨s, here, expired⟩
        refine ⟨(q, s), List.mem_filter.mpr ⟨(r.sessions_.lists.mem q s).mpr here, ?_⟩, rfl⟩
        rw [indexed.own q s here]
        exact expired
    cases here : r.get_session q with
    | none =>
      have none_held : r.token_of q = none := by rw [token_of, here]; rfl
      simp [none_held]
    | some s =>
      have held : r.token_of q = some s.session_token := by rw [token_of, here]; rfl
      rw [here] at listed
      simp only [listed, Option.some.injEq, exists_eq_left', held, positive, Option.filter_some,
        decide_true, Bool.true_and, Bool.not_eq_true']
      split <;> simp_all

end GameRoom

/-- The room beside the live sessions and their tokens. -/
structure SessionRegistry where
  room : GameRoom
  live : List (UInt64 × Bytes) := []

namespace SessionRegistry

/-- The operations on sessions, the writes of handlers among them. -/
inductive Event where
  | create_session (client_id : UInt64) (protocol : Bytes)
  | create_session_with_token (client_id : UInt64) (protocol token : Bytes)
  | register_session_token (token : Bytes) (client_id : UInt64)
  | destroy_session (client_id : UInt64)
  | expire_sessions (ttl_seconds : Int) (idle : UInt64 → Bool)
  | write (client_id : UInt64) (f : ServerSession → ServerSession)

/-- A room before its first session. -/
def start (base : GameRoom) : SessionRegistry :=
  { room := { base with sessions_ := .empty, token_index_ := {} } }

variable (strHash : Bytes → BitVec 64)

def room_step (r : GameRoom) : Event → GameRoom
  | .create_session client_id protocol => r.create_session client_id protocol
  | .create_session_with_token client_id protocol token =>
    r.create_session_with_token strHash client_id protocol token
  | .register_session_token token client_id => r.give_token strHash token client_id
  | .destroy_session client_id => r.destroy_session strHash client_id
  | .expire_sessions ttl_seconds idle =>
    (r.expire_sessions strHash ttl_seconds fun s => idle s.client_id).2
  | .write client_id f => r.write client_id f

/-- What an operation means for the live sessions. -/
def live_step (live : List (UInt64 × Bytes)) : Event → List (UInt64 × Bytes)
  | .create_session client_id _ => (client_id, []) :: live
  | .create_session_with_token client_id _ token => (client_id, token) :: live
  | .register_session_token token client_id => (client_id, token) :: live.filter (·.1 ≠ client_id)
  | .destroy_session client_id => live.filter (·.1 ≠ client_id)
  | .expire_sessions ttl_seconds idle =>
    live.filter fun e => !(0 < ttl_seconds && !e.2.isEmpty && idle e.1)
  | .write _ _ => live

def step (s : SessionRegistry) (e : Event) : SessionRegistry :=
  ⟨room_step strHash s.room e, live_step s.live e⟩

/-- A token that no live session has, nor one with another token of the same hash. -/
def FreshToken (s : SessionRegistry) (token : Bytes) : Prop :=
  token ≠ [] → ∀ e ∈ s.live, e.2 ≠ [] → strHash e.2 ≠ strHash token

/-- Client ids and tokens are fresh while live. A token is registered for a session that has none
yet. -/
def Fresh (s : SessionRegistry) : Event → Prop
  | .create_session client_id _ => client_id ∉ s.live.map Prod.fst
  | .create_session_with_token client_id _ token =>
    client_id ∉ s.live.map Prod.fst ∧ s.FreshToken strHash token
  | .register_session_token token client_id =>
    (client_id, []) ∈ s.live ∧ s.FreshToken strHash token
  | .destroy_session _ | .expire_sessions _ _ | .write _ _ => True

/-- The registry answers by the live sessions. -/
structure Agrees (s : SessionRegistry) : Prop where
  by_token : ∀ t, t ≠ [] → ∀ session, s.room.find_session_by_token strHash t = some session ↔
    (session.client_id, t) ∈ s.live ∧ s.room.get_session session.client_id = some session
  gone : ∀ t, (∀ e ∈ s.live, e.2 ≠ t) → s.room.find_session_by_token strHash t = none
  no_token : s.room.find_session_by_token strHash [] = none
  distinct : (s.live.map Prod.fst).Nodup
  for_each_session : (s.room.sessions.map fun session =>
    (session.client_id, session.session_token)).Perm s.live
  sessions_in_area : ∀ area, ((s.room.sessions_in_area area).map (·.client_id)).Nodup ∧
    ∀ session, session ∈ s.room.sessions_in_area area ↔
      s.room.get_session session.client_id = some session ∧ session.area = area
  session_count : s.room.session_count = s.live.length

structure Invariant (s : SessionRegistry) : Prop where
  indexed : s.room.Indexed strHash
  lists : Lists s.room.token_of s.live

variable {strHash} {s : SessionRegistry}

theorem token_of_start (base : GameRoom) : (start base).room.token_of = fun _ => none := by
  funext k
  rw [GameRoom.token_of, GameRoom.get_session, start, SessionMap.find_empty, Option.map_none]

theorem invariant_start (base : GameRoom) : Invariant strHash (start base) where
  indexed := by
    refine ⟨PersistentMap.valid_empty, fun k session found => ?_, ⟨fun t k => ?_⟩⟩
    · rw [GameRoom.get_session, start, SessionMap.find_empty] at found
      cases found
    · rw [token_of_start, start, PersistentMap.find_eq]
      simp [PersistentMap.lookFrom]
  lists := by
    rw [token_of_start]
    exact lists_nil

theorem Invariant.unbound (inv : Invariant strHash s) {client_id : UInt64}
    (fresh : client_id ∉ s.live.map Prod.fst) : s.room.token_of client_id = none := by
  rw [inv.lists.mem_keys] at fresh
  exact Option.not_isSome_iff_eq_none.mp fresh

theorem Invariant.fresh_token (inv : Invariant strHash s) {token : Bytes}
    (fresh : s.FreshToken strHash token) (counted : token ≠ []) :
    s.room.FreshToken strHash token where
  unused := fun k held => fresh counted (k, token) ((inv.lists.mem k token).mpr held) counted rfl
  separate := fun k t held counts => fresh counted (k, t) ((inv.lists.mem k t).mpr held) counts

theorem invariant_step (s : SessionRegistry) (e : Event) (inv : Invariant strHash s)
    (fresh : Fresh strHash s e) : Invariant strHash (step strHash s e) := by
  cases e with
  | create_session client_id protocol =>
    have free := inv.unbound fresh
    refine ⟨inv.indexed.create_session protocol free, ?_⟩
    rw [step, room_step, GameRoom.token_of_create]
    exact inv.lists.cons free []
  | create_session_with_token client_id protocol token =>
    have free := inv.unbound fresh.1
    refine ⟨inv.indexed.create_session_with_token protocol free (inv.fresh_token fresh.2), ?_⟩
    rw [step, room_step, GameRoom.token_of_create_with_token]
    exact inv.lists.cons free token
  | register_session_token token client_id =>
    have held : s.room.token_of client_id = some [] := (inv.lists.mem client_id []).mp fresh.1
    refine ⟨inv.indexed.give_token held (inv.fresh_token fresh.2), ?_⟩
    have live := Option.isSome_iff_exists.mpr ⟨[], held⟩
    rw [step, room_step, GameRoom.token_of_give_token strHash s.room token live]
    have changed := (inv.lists.without client_id).cons (Function.update_self ..) token
    rw [Function.update_idem] at changed
    exact changed
  | destroy_session client_id =>
    refine ⟨inv.indexed.destroy_session client_id, ?_⟩
    rw [step, room_step, GameRoom.token_of_destroy]
    exact inv.lists.without client_id
  | expire_sessions ttl_seconds idle =>
    refine ⟨inv.indexed.expire_sessions ttl_seconds _, ?_⟩
    have tokens := funext (inv.indexed.token_of_expire ttl_seconds idle)
    rw [step, room_step, tokens]
    exact inv.lists.filter fun e => !(0 < ttl_seconds && !e.2.isEmpty && idle e.1)
  | write client_id f =>
    refine ⟨inv.indexed.write client_id f, ?_⟩
    rw [step, room_step, GameRoom.token_of_write]
    exact inv.lists

theorem Invariant.found_iff (inv : Invariant strHash s) (t : Bytes) (session : ServerSession) :
    s.room.find_session_by_token strHash t = some session ↔
      t ≠ [] ∧ (session.client_id, t) ∈ s.live ∧
        s.room.get_session session.client_id = some session := by
  have found : s.room.find_session_by_token strHash t = some session ↔
      ∃ k, s.room.token_index_.find strHash t = some k ∧ s.room.get_session k = some session :=
    Option.bind_eq_some_iff
  rw [found]
  constructor
  · rintro ⟨k, indexed, here⟩
    obtain ⟨counted, held⟩ := (inv.indexed.index.iff t k).mp indexed
    rw [inv.indexed.own k session here]
    exact ⟨counted, (inv.lists.mem k t).mpr held, here⟩
  · rintro ⟨counted, member, here⟩
    have held := (inv.lists.mem _ t).mp member
    exact ⟨_, (inv.indexed.index.iff t _).mpr ⟨counted, held⟩, here⟩

theorem Invariant.not_found (inv : Invariant strHash s) {t : Bytes}
    (none_has : t = [] ∨ ∀ e ∈ s.live, e.2 ≠ t) : s.room.find_session_by_token strHash t = none := by
  cases found : s.room.find_session_by_token strHash t with
  | none => rfl
  | some session =>
    obtain ⟨counted, member, _⟩ := (inv.found_iff t session).mp found
    rcases none_has with empty | absent
    · exact absurd empty counted
    · exact absurd rfl (absent _ member)

theorem Invariant.entries (inv : Invariant strHash s) :
    s.room.sessions_.for_each = s.room.sessions.map fun session => (session.client_id, session) := by
  rw [GameRoom.sessions, List.map_map]
  refine (List.map_id _).symm.trans (List.map_congr_left ?_)
  rintro ⟨k, session⟩ member
  have own := inv.indexed.own k session ((s.room.sessions_.lists.mem k session).mp member)
  exact congrArg (·, session) own.symm

theorem Invariant.mem_sessions (inv : Invariant strHash s) (session : ServerSession) :
    session ∈ s.room.sessions ↔ s.room.get_session session.client_id = some session := by
  rw [GameRoom.get_session, ← s.room.sessions_.lists.mem, inv.entries, List.mem_map]
  constructor
  · exact fun member => ⟨session, member, rfl⟩
  · rintro ⟨other, member, same⟩
    have this : other = session := congrArg Prod.snd same
    exact this ▸ member

theorem Invariant.ids_nodup (inv : Invariant strHash s) :
    (s.room.sessions.map (·.client_id)).Nodup := by
  have distinct := s.room.sessions_.lists.nodup
  rw [inv.entries, List.map_map] at distinct
  exact distinct

theorem Invariant.sessions_perm (inv : Invariant strHash s) :
    (s.room.sessions.map fun session => (session.client_id, session.session_token)).Perm s.live := by
  have listed := s.room.sessions_.lists.map (·.session_token)
  rw [inv.entries, List.map_map] at listed
  exact listed.perm inv.lists

theorem Invariant.agrees (inv : Invariant strHash s) : Agrees strHash s where
  by_token := fun t counted session => (inv.found_iff t session).trans (and_iff_right counted)
  gone := fun t absent => inv.not_found (Or.inr absent)
  no_token := inv.not_found (Or.inl rfl)
  distinct := inv.lists.nodup
  for_each_session := inv.sessions_perm
  sessions_in_area := by
    intro area
    refine ⟨inv.ids_nodup.sublist (List.filter_sublist.map _), fun session => ?_⟩
    rw [GameRoom.sessions_in_area, List.mem_filter, inv.mem_sessions, decide_eq_true_eq]
  session_count := by
    have counted : s.room.session_count = s.room.sessions_.for_each.length :=
      s.room.sessions_.valid.counted
    rw [counted, inv.entries, List.length_map, ← inv.sessions_perm.length_eq, List.length_map]

/-- Every order of the operations, from a room without sessions. -/
theorem agrees_of_fresh (strHash : Bytes → BitVec 64) (base : GameRoom) (events : List Event)
    (fresh : Throughout (step strHash) (Fresh strHash) (start base) events) :
    Always (step strHash) (Agrees strHash) (start base) events := by
  have invariant : Always (step strHash) (Invariant strHash) (start base) events :=
    always_of_throughout invariant_step (invariant_start base) fresh
  exact invariant.mono fun _ inv => inv.agrees

instance decidableFreshToken (s : SessionRegistry) (token : Bytes) :
    Decidable (s.FreshToken strHash token) :=
  inferInstanceAs (Decidable (token ≠ [] → ∀ e ∈ s.live, e.2 ≠ [] → strHash e.2 ≠ strHash token))

instance decidableFresh (s : SessionRegistry) : (e : Event) → Decidable (Fresh strHash s e)
  | .create_session client_id _ => inferInstanceAs (Decidable (client_id ∉ s.live.map Prod.fst))
  | .create_session_with_token client_id _ token => inferInstanceAs
      (Decidable (client_id ∉ s.live.map Prod.fst ∧ s.FreshToken strHash token))
  | .register_session_token token client_id => inferInstanceAs
      (Decidable ((client_id, []) ∈ s.live ∧ s.FreshToken strHash token))
  | .destroy_session _ | .expire_sessions .. | .write .. => inferInstanceAs (Decidable True)

/-- Clients of both protocols come and go, and a token is used again when its session is gone. -/
def visits : List Event :=
  let rest : UInt64 := 0x8000000000000000
  [.create_session 1 (bytes "ao2"), .create_session_with_token rest (bytes "nx") (bytes "a"),
    .create_session (rest + 1) (bytes "nx"), .register_session_token (bytes "b") (rest + 1),
    .write 1 fun session => { session with area := bytes "Lobby" },
    .expire_sessions 300 fun client_id => client_id = rest,
    .create_session_with_token (rest + 2) (bytes "nx") (bytes "a"), .destroy_session 1]

theorem visits_agree : Always (step fun t => BitVec.ofNat 64 (t.foldl (fun h b => 31 * h + b.toNat) 0))
    (Agrees fun t => BitVec.ofNat 64 (t.foldl (fun h b => 31 * h + b.toNat) 0))
    (start { areas := [bytes "Basement"] }) visits :=
  agrees_of_fresh _ _ visits (by decide)

def first_session : ServerSession := { client_id := 1, protocol := bytes "ao2" }

theorem first_session_live (inv : Invariant strHash s) {base : GameRoom}
    (made : s.room = base.create_session 1 (bytes "ao2")) (no_areas : base.areas = [])
    (numbered : base.next_session_id_ = 0) : first_session ∈ s.room.sessions := by
  refine (inv.mem_sessions first_session).mpr ?_
  rw [made]
  refine (GameRoom.get_session_create _ _ _ _).trans ((if_pos rfl).trans ?_)
  rw [first_session, no_areas, numbered]
  rfl

/-- A session without a token is not found by its empty one, and a token registered for a session
whose own is another leads to it all the same. -/
theorem empty_token_finds_none : (¬ ∀ strHash base events,
    Throughout (step strHash) (Fresh strHash) (start base) events →
      Always (step strHash) (fun s => ∀ t, (s.room.find_session_by_token strHash t).isSome ↔
        ∃ session ∈ s.room.sessions, session.session_token = t) (start base) events) ∧
    ∃ session, ((({} : GameRoom).create_session 1 (bytes "nx")).register_session_token
      (fun _ => 0) (bytes "t") 1).find_session_by_token (fun _ => 0) (bytes "t") = some session ∧
      session.session_token ≠ bytes "t" := by
  constructor
  · intro every
    have fresh : Throughout (step fun _ => 0) (Fresh fun _ => 0) (start {})
        [.create_session 1 (bytes "ao2")] := by decide
    have inv := invariant_step (start {}) (.create_session 1 (bytes "ao2"))
      (invariant_start {}) fresh.1
    have live := first_session_live inv rfl rfl rfl
    have found := ((every (fun _ => 0) {} _ fresh).2 []).mpr ⟨first_session, live, rfl⟩
    rw [inv.not_found (Or.inl rfl)] at found
    cases found
  · exact ⟨{ client_id := 1, protocol := bytes "nx" }, by decide, by decide⟩

end SessionRegistry

end AoSdl
