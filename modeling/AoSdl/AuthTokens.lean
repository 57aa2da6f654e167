import AoSdl.GameRoom
import AoSdl.Lib.Runs

/-! `NXServer`: the sessions of clients of the REST interface. The random part of a token is an
input. -/
namespace AoSdl

/-- A client that asks for a session. -/
structure NXClient where
  hdid : Bytes := []
  client_name : Bytes := []
  client_version : Bytes := []
  remote_addr : Bytes := []

namespace NXServer

variable (sha256 : Bytes → Bytes) (strHash : Bytes → BitVec 64)

/-- What a new session is told about its client. -/
def introduced (client : NXClient) (session : ServerSession) : ServerSession :=
  { session with
    display_name := client.client_name
    client_software := client.client_name ++ bytes "/" ++ client.client_version
    hardware_id := client.hdid
    ip_address := client.remote_addr
    ipid := if client.remote_addr.isEmpty then session.ipid else (sha256 client.remote_addr).take 8
    joined := true }

/-- The second half of `create_session`: the session is filled in and counted. -/
def introduce (r : GameRoom) (client_id : UInt64) (client : NXClient) : GameRoom :=
  { r.update_session client_id (introduced sha256 client) with
    stats := { r.stats with joined := r.stats.joined + 1 } }

def create_session (r : GameRoom) (client_id : UInt64) (token : Bytes) (client : NXClient) : GameRoom :=
  introduce sha256 (r.create_session_with_token strHash client_id (bytes "aonx") token) client_id client

end NXServer

end AoSdl

/-! Sessions that are created with an auth token, and the logout that revokes one. The handlers run
side by side; each read or write of the database and each section on the room is a step. A
token is looked up as the null-terminated text it is bound as. -/
namespace AoSdl
open Lib.Runs

structure AuthTokenEntry where
  username : Bytes
  acl : Bytes
  /-- 0 for a token that does not expire. -/
  expires_at : Int := 0
  revoked : Bool := false

/-- The table of auth tokens, which are unique. -/
abbrev AuthTokenTable := AList (fun _ : Bytes => AuthTokenEntry)

namespace AuthTokenTable

def create_auth_token (db : AuthTokenTable) (token : Bytes) (entry : AuthTokenEntry) : AuthTokenTable :=
  if c_str token ∈ db then db
  else db.insert (c_str token) { entry with revoked := false }

def validate_auth_token (db : AuthTokenTable) (now : Int) (token : Bytes) : Option AuthTokenEntry :=
  (db.lookup (c_str token)).filter fun entry =>
    !entry.revoked && !(0 < entry.expires_at && entry.expires_at ≤ now)

/-- Whether a row was changed, and the table after it. -/
def revoke_auth_token (db : AuthTokenTable) (token : Bytes) : Bool × AuthTokenTable :=
  match db.lookup (c_str token) with
  | none => (false, db)
  | some entry =>
    if entry.revoked then (false, db)
    else (true, db.insert (c_str token) { entry with revoked := true })

end AuthTokenTable

/-- The writes that bind an identity to a session, in order. -/
inductive BindWrite where
  | moderator
  | acl_role
  | moderator_name
  | auth_token_id
  | count
  deriving DecidableEq

structure CreateRequest where
  auth : Bytes := []
  client : NXClient := {}
  /-- The token that is generated for the session. -/
  token : Bytes := []

/-- Where a `SessionCreateEndpoint::handle` is. -/
inductive CreateState where
  | validate
  | create (entry : Option AuthTokenEntry)
  | introduce (entry : Option AuthTokenEntry) (client_id : UInt64)
  | find (entry : AuthTokenEntry)
  | bind (entry : AuthTokenEntry) (client_id : UInt64) (todo : List BindWrite)
  | done (status : Nat)

structure CreateTask where
  request : CreateRequest
  state : CreateState := .validate

/-- Where an `AuthLogoutEndpoint::handle` is. -/
inductive LogoutState where
  | revoke
  | snapshot
  /-- The sessions still to be read, and those found so far. -/
  | collect (todo to_destroy : List UInt64)
  | destroy (to_destroy : List UInt64)
  | done (status : Nat)
  deriving DecidableEq

structure LogoutTask where
  bearer_token : Bytes
  state : LogoutState := .revoke
  deriving DecidableEq

/-- The create has found a token valid and has yet to write it into the session. -/
def CreateTask.holds (task : CreateTask) : Bool :=
  match task.state with
  | .create entry | .introduce entry _ => entry.isSome
  | .find _ => true
  | .bind _ _ todo => .auth_token_id ∈ todo
  | _ => false

/-- The token was revoked by the logout. -/
def LogoutTask.past (task : LogoutTask) : Bool :=
  match task.state with
  | .revoke => false
  | .done status => status = 200
  | _ => true

/-- The logout has taken its snapshot. -/
def LogoutTask.swept (task : LogoutTask) : Bool := task.past && task.state ≠ .snapshot

/-- The sessions the logout may still destroy. -/
def LogoutTask.left (task : LogoutTask) : List UInt64 :=
  match task.state with
  | .collect todo to_destroy => todo ++ to_destroy
  | .destroy to_destroy => to_destroy
  | _ => []

structure AuthSystem where
  auth_tokens : AuthTokenTable := ∅
  room : GameRoom := {}
  next_rest_id_ : UInt64 := 0
  creates : List CreateTask := []
  logouts : List LogoutTask := []

namespace AuthSystem

variable (sha256 : Bytes → Bytes) (strHash : Bytes → BitVec 64)

/-- Caps the length and drops control characters. -/
def sanitize (s : Bytes) (max_len : Nat) : Bytes := (s.take max_len).filter (32 ≤ ·)

def sanitized (client : NXClient) : NXClient :=
  { client with
    client_name := sanitize client.client_name 64
    client_version := sanitize client.client_version 32
    hdid := sanitize client.hdid 128 }

def bind_write (room : GameRoom) (entry : AuthTokenEntry) (auth : Bytes) (client_id : UInt64) :
    BindWrite → GameRoom
  | .moderator => room.update_session client_id fun session => { session with moderator := true }
  | .acl_role => room.update_session client_id fun session => { session with acl_role := entry.acl }
  | .moderator_name => room.update_session client_id fun session =>
    { session with moderator_name := entry.username }
  | .auth_token_id => room.update_session client_id fun session => { session with auth_token_id := auth }
  | .count => { room with stats := { room.stats with moderators := room.stats.moderators + 1 } }

/-- The next step of a create: the table is only read. -/
def create_next (s : AuthSystem) (now : Int) (task : CreateTask) : AuthSystem × CreateState :=
  let request := task.request
  match task.state with
  | .validate =>
    if request.auth.isEmpty then (s, .create none)
    else match s.auth_tokens.validate_auth_token now request.auth with
      | none => (s, .done 401)
      | some entry => (s, .create (some entry))
  | .create entry =>
    let client_id := s.next_rest_id_
    ({ s with
        next_rest_id_ := s.next_rest_id_ + 1
        room := s.room.create_session_with_token strHash client_id (bytes "aonx") request.token },
      .introduce entry client_id)
  | .introduce entry client_id =>
    let room := NXServer.introduce sha256 s.room client_id (sanitized request.client)
    ({ s with room }, match entry with
      | none => .done 201
      | some entry => .find entry)
  | .find entry =>
    match s.room.find_session_by_token strHash request.token with
    | none => (s, .done 201)
    | some session => (s, .bind entry session.client_id
        [.moderator, .acl_role, .moderator_name, .auth_token_id, .count])
  | .bind entry client_id (write :: todo) =>
    ({ s with room := bind_write s.room entry request.auth client_id write },
      .bind entry client_id todo)
  | .bind _ _ [] => (s, .done 201)
  | .done status => (s, .done status)

/-- The next step of a logout. -/
def logout_next (s : AuthSystem) (task : LogoutTask) : AuthSystem × LogoutState :=
  match task.state with
  | .revoke =>
    if task.bearer_token.isEmpty then (s, .done 401)
    else
      let (revoked, auth_tokens) := s.auth_tokens.revoke_auth_token task.bearer_token
      ({ s with auth_tokens }, if revoked then .snapshot else .done 401)
  | .snapshot => (s, .collect (s.room.sessions_.for_each.map Prod.fst) [])
  | .collect (id :: todo) to_destroy =>
    match s.room.get_session id with
    | none => (s, .collect todo to_destroy)
    | some session =>
      (s, .collect todo
        (if session.auth_token_id = task.bearer_token then to_destroy ++ [id] else to_destroy))
  | .collect [] to_destroy => (s, .destroy to_destroy)
  | .destroy (id :: to_destroy) =>
    ({ s with room := s.room.destroy_session strHash id }, .destroy to_destroy)
  | .destroy [] => (s, .done 200)
  | .done status => (s, .done status)

/-- What can happen next. `touch` stands for all other changes of a session: only the create writes
the token a session is bound to. -/
inductive Event where
  | create (request : CreateRequest)
  | logout (bearer_token : Bytes)
  | create_next (i : Nat) (now : Int)
  | logout_next (i : Nat)
  | issue (token : Bytes) (entry : AuthTokenEntry)
  | revoke (token : Bytes)
  | connect (client_id : UInt64) (protocol : Bytes)
  | destroy_session (client_id : UInt64)
  | touch (client_id : UInt64) (session : ServerSession)

def step (s : AuthSystem) : Event → AuthSystem
  | .create request => { s with creates := s.creates ++ [⟨request, .validate⟩] }
  | .logout bearer_token => { s with logouts := s.logouts ++ [⟨bearer_token, .revoke⟩] }
  | .create_next i now =>
    match s.creates[i]? with
    | none => s
    | some task =>
      let (s', state) := create_next sha256 strHash s now task
      { s' with creates := s.creates.set i { task with state } }
  | .logout_next i =>
    match s.logouts[i]? with
    | none => s
    | some task =>
      let (s', state) := logout_next strHash s task
      { s' with logouts := s.logouts.set i { task with state } }
  | .issue token entry => { s with auth_tokens := s.auth_tokens.create_auth_token token entry }
  | .revoke token => { s with auth_tokens := (s.auth_tokens.revoke_auth_token token).2 }
  | .connect client_id protocol => { s with room := s.room.create_session client_id protocol }
  | .destroy_session client_id => { s with room := s.room.destroy_session strHash client_id }
  | .touch client_id session => { s with room := s.room.update_session client_id fun old =>
    { session with client_id := old.client_id, auth_token_id := old.auth_token_id } }

/-- A live session has moderator rights from the row that the token names. -/
def Bound (token : Bytes) (session : ServerSession) : Prop :=
  session.moderator = true ∧ c_str session.auth_token_id = c_str token

/-- Once a logout has answered 200, no live session has rights from its token. -/
def LoggedOut (s : AuthSystem) : Prop :=
  ∀ task ∈ s.logouts, task.state = .done 200 → ∀ k session, s.room.get_session k = some session →
    ¬ Bound task.bearer_token session

/-- When a logout takes its snapshot of the sessions, no create holds its token. Tokens have no null
character. -/
def Guarded (s : AuthSystem) : Event → Prop
  | .create request => 0 ∉ request.auth
  | .logout bearer_token => 0 ∉ bearer_token
  | .logout_next i => ∀ task, s.logouts[i]? = some task → task.state = .snapshot →
      ∀ create ∈ s.creates, create.holds = true → create.request.auth ≠ task.bearer_token
  | _ => True

def Revoked (db : AuthTokenTable) (token : Bytes) : Prop :=
  ∃ entry, db.lookup (c_str token) = some entry ∧ entry.revoked = true

/-- Behind the snapshot of a logout no create holds its token, and the sessions bound to it are those
the logout is about to destroy. -/
structure Settled (s : AuthSystem) : Prop where
  creates : ∀ c ∈ s.creates, 0 ∉ c.request.auth
  logouts : ∀ l ∈ s.logouts, 0 ∉ l.bearer_token
  bound : ∀ k session, s.room.get_session k = some session → 0 ∉ session.auth_token_id
  revoked : ∀ l ∈ s.logouts, l.past = true → l.bearer_token ≠ [] ∧ Revoked s.auth_tokens l.bearer_token
  quiet : ∀ l ∈ s.logouts, l.swept = true → ∀ c ∈ s.creates, c.holds = true →
    c.request.auth ≠ l.bearer_token
  listed : ∀ l ∈ s.logouts, l.swept = true → ∀ k session, s.room.get_session k = some session →
    session.auth_token_id = l.bearer_token → k ∈ l.left

section Proof

variable {sha256 : Bytes → Bytes} {strHash : Bytes → BitVec 64} {s : AuthSystem}

theorem past_of_swept {l : LogoutTask} (swept : l.swept = true) : l.past = true := by
  rw [LogoutTask.swept, Bool.and_eq_true] at swept
  exact swept.1

/-- A session of a changed room has no token, the one it had, or one that no logout has swept. -/
def Inherits (s : AuthSystem) (room : GameRoom) : Prop :=
  ∀ k session, room.get_session k = some session → session.auth_token_id = [] ∨
    (∃ old, s.room.get_session k = some old ∧ old.auth_token_id = session.auth_token_id) ∨
    (0 ∉ session.auth_token_id ∧
      ∀ l ∈ s.logouts, l.swept = true → session.auth_token_id ≠ l.bearer_token)

theorem Settled.room (settled : Settled s) {room : GameRoom} (next_rest_id_ : UInt64)
    (inherits : Inherits s room) : Settled { s with room, next_rest_id_ } := by
  refine ⟨settled.creates, settled.logouts, fun k session live => ?_, settled.revoked, settled.quiet,
    fun l member swept k session live same => ?_⟩
  · rcases inherits k session live with empty | ⟨old, was, kept⟩ | ⟨plain, _⟩
    · rw [empty]
      exact List.not_mem_nil
    · rw [← kept]
      exact settled.bound k old was
    · exact plain
  · rcases inherits k session live with empty | ⟨old, was, kept⟩ | ⟨_, foreign⟩
    · exact absurd (same.symm.trans empty) (settled.revoked l member (past_of_swept swept)).1
    · exact settled.listed l member swept k old was (kept.trans same)
    · exact absurd same (foreign l member swept)

theorem inherits_update {room : GameRoom} {k : UInt64} {f : ServerSession → ServerSession}
    (changed : ∀ q, room.get_session q = (s.room.update_session k f).get_session q)
    (written : ∀ session, (f session).auth_token_id = session.auth_token_id ∨
      (0 ∉ (f session).auth_token_id ∧
        ∀ l ∈ s.logouts, l.swept = true → (f session).auth_token_id ≠ l.bearer_token)) : Inherits s room := by
  intro q session live
  rw [changed, GameRoom.get_session_update] at live
  by_cases here : q = k
  · subst here
    rw [if_pos rfl] at live
    obtain ⟨old, was, rfl⟩ := Option.map_eq_some_iff.mp live
    rcases written old with same | foreign
    · exact .inr (.inl ⟨old, was, same.symm⟩)
    · exact .inr (.inr foreign)
  · rw [if_neg here] at live
    exact .inr (.inl ⟨session, live, rfl⟩)

theorem inherits_bind (entry : AuthTokenEntry) {auth : Bytes} (client_id : UInt64) (write : BindWrite)
    (plain : 0 ∉ auth)
    (foreign : write = .auth_token_id → ∀ l ∈ s.logouts, l.swept = true → auth ≠ l.bearer_token) :
    Inherits s (bind_write s.room entry auth client_id write) := by
  cases write with
  | moderator | acl_role | moderator_name =>
    exact inherits_update (fun _ => rfl) fun _ => .inl rfl
  | auth_token_id =>
    exact inherits_update (fun _ => rfl) fun _ => .inr ⟨plain, foreign rfl⟩
  | count => exact fun q session live => .inr (.inl ⟨session, live, rfl⟩)

theorem Settled.destroy_session (settled : Settled s) (k : UInt64) :
    Settled { s with room := s.room.destroy_session strHash k } := by
  refine settled.room s.next_rest_id_ fun q session live => .inr (.inl ⟨session, ?_, rfl⟩)
  rw [GameRoom.get_session_destroy] at live
  split at live
  · cases live
  · exact live

theorem Settled.auth_tokens (settled : Settled s) {db : AuthTokenTable}
    (keeps : ∀ token, Revoked s.auth_tokens token → Revoked db token) :
    Settled { s with auth_tokens := db } :=
  ⟨settled.creates, settled.logouts, settled.bound,
    fun l member past => (settled.revoked l member past).imp_right (keeps _), settled.quiet,
    settled.listed⟩

theorem revoked_create {db : AuthTokenTable} {token other : Bytes} {entry : AuthTokenEntry}
    (revoked : Revoked db token) : Revoked (db.create_auth_token other entry) token := by
  obtain ⟨row, found, flag⟩ := revoked
  unfold AuthTokenTable.create_auth_token
  split
  · exact ⟨row, found, flag⟩
  · next absent =>
    have apart : c_str token ≠ c_str other := by
      intro same
      rw [same, AList.lookup_eq_none.mpr absent] at found
      cases found
    exact ⟨row, by rw [AList.lookup_insert_ne apart]; exact found, flag⟩

theorem revoked_revoke {db : AuthTokenTable} {token other : Bytes} (revoked : Revoked db token) :
    Revoked (db.revoke_auth_token other).2 token := by
  obtain ⟨row, found, flag⟩ := revoked
  unfold AuthTokenTable.revoke_auth_token
  split
  · exact ⟨row, found, flag⟩
  · next entry known =>
    split
    · exact ⟨row, found, flag⟩
    · next fresh =>
      have apart : c_str token ≠ c_str other := by
        intro same
        rw [same, known] at found
        cases found
        exact fresh flag
      exact ⟨row, by rw [AList.lookup_insert_ne apart]; exact found, flag⟩

theorem revokes {db : AuthTokenTable} {token : Bytes} (done : (db.revoke_auth_token token).1 = true) :
    Revoked (db.revoke_auth_token token).2 token := by
  unfold AuthTokenTable.revoke_auth_token at done ⊢
  split at done
  · cases done
  · split at done
    · cases done
    · next fresh =>
      simp only [fresh]
      exact ⟨_, AList.lookup_insert _, rfl⟩

theorem invalid_of_revoked {db : AuthTokenTable} {now : Int} {token : Bytes}
    (revoked : Revoked db token) : db.validate_auth_token now token = none := by
  obtain ⟨entry, found, flag⟩ := revoked
  rw [AuthTokenTable.validate_auth_token, found]
  simp [flag]

/-- A create goes to another state, and holds no token that a logout has swept. -/
theorem Settled.creates_set (settled : Settled s) {i : Nat} {task : CreateTask}
    (here : s.creates[i]? = some task) (state : CreateState)
    (free : CreateTask.holds { task with state } = true → ∀ l ∈ s.logouts, l.swept = true →
      task.request.auth ≠ l.bearer_token) :
    Settled { s with creates := s.creates.set i { task with state } } := by
  have known : task ∈ s.creates := List.mem_of_getElem? here
  refine ⟨fun c member => ?_, settled.logouts, settled.bound, settled.revoked,
    fun l inside swept c member holds => ?_, settled.listed⟩
  · rcases List.mem_or_eq_of_mem_set member with old | rfl
    · exact settled.creates c old
    · exact settled.creates task known
  · rcases List.mem_or_eq_of_mem_set member with old | rfl
    · exact settled.quiet l inside swept c old holds
    · exact free holds l inside swept

/-- A logout goes to another state that its own progress bears out. -/
theorem Settled.logouts_set (settled : Settled s) {i : Nat} {task : LogoutTask}
    (here : s.logouts[i]? = some task) (state : LogoutState)
    (revoked : LogoutTask.past { task with state } = true →
      task.bearer_token ≠ [] ∧ Revoked s.auth_tokens task.bearer_token)
    (quiet : LogoutTask.swept { task with state } = true → ∀ c ∈ s.creates,
      c.holds = true → c.request.auth ≠ task.bearer_token)
    (listed : LogoutTask.swept { task with state } = true → ∀ k session,
      s.room.get_session k = some session → session.auth_token_id = task.bearer_token →
      k ∈ LogoutTask.left { task with state }) :
    Settled { s with logouts := s.logouts.set i { task with state } } := by
  have known : task ∈ s.logouts := List.mem_of_getElem? here
  refine ⟨settled.creates, fun l member => ?_, settled.bound, fun l member past => ?_,
    fun l member swept => ?_, fun l member swept => ?_⟩
  · rcases List.mem_or_eq_of_mem_set member with old | rfl
    · exact settled.logouts l old
    · exact settled.logouts task known
  · rcases List.mem_or_eq_of_mem_set member with old | rfl
    · exact settled.revoked l old past
    · exact revoked past
  · rcases List.mem_or_eq_of_mem_set member with old | rfl
    · exact settled.quiet l old swept
    · exact quiet swept
  · rcases List.mem_or_eq_of_mem_set member with old | rfl
    · exact settled.listed l old swept
    · exact listed swept

theorem holds_bind {request : CreateRequest} {entry : AuthTokenEntry} {client_id : UInt64}
    {todo : List BindWrite} :
    CreateTask.holds ⟨request, .bind entry client_id todo⟩ = true ↔ .auth_token_id ∈ todo :=
  decide_eq_true_iff

/-- A create that goes on changes no list of requests, and picks up no token that was revoked. -/
theorem Settled.create_next (settled : Settled s) {i : Nat} {task : CreateTask}
    (here : s.creates[i]? = some task) (now : Int) :
    Settled (step sha256 strHash s (.create_next i now)) := by
  have known : task ∈ s.creates := List.mem_of_getElem? here
  have held (holds : task.holds = true) : ∀ l ∈ s.logouts, l.swept = true →
      task.request.auth ≠ l.bearer_token := fun l member swept =>
    settled.quiet l member swept task known holds
  obtain ⟨request, state⟩ := task
  simp only [step, here]
  cases state with
  | validate =>
    simp only [AuthSystem.create_next]
    split
    · exact settled.creates_set here _ nofun
    · split
      · exact settled.creates_set here _ nofun
      · next entry valid =>
        refine settled.creates_set here _ fun _ l member swept same => ?_
        have dead := (settled.revoked l member (past_of_swept swept)).2
        have same : request.auth = l.bearer_token := same
        rw [same, invalid_of_revoked dead] at valid
        cases valid
  | create entry =>
    simp only [AuthSystem.create_next]
    have grown : Inherits s (s.room.create_session_with_token strHash s.next_rest_id_ (bytes "aonx")
        request.token) := by
      intro q session live
      rw [GameRoom.get_session_create_with_token] at live
      split at live
      · cases live
        exact .inl rfl
      · exact .inr (.inl ⟨session, live, rfl⟩)
    exact (settled.room (s.next_rest_id_ + 1) grown).creates_set here _ held
  | introduce entry client_id =>
    have told : Inherits s (NXServer.introduce sha256 s.room client_id (sanitized request.client)) :=
      inherits_update (fun _ => rfl) fun _ => .inl rfl
    have told := settled.room s.next_rest_id_ told
    cases entry with
    | none => exact told.creates_set here _ nofun
    | some entry => exact told.creates_set here _ fun _ => held rfl
  | find entry =>
    simp only [AuthSystem.create_next]
    split
    · exact settled.creates_set here _ nofun
    · exact settled.creates_set here _ fun _ => held rfl
  | bind entry client_id todo =>
    cases todo with
    | nil => exact settled.creates_set here _ nofun
    | cons write todo =>
      have earlier (holds : CreateTask.holds ⟨request, .bind entry client_id todo⟩ = true) :
          CreateTask.holds ⟨request, .bind entry client_id (write :: todo)⟩ = true :=
        holds_bind.mpr (List.mem_cons_of_mem _ (holds_bind.mp holds))
      have bound : Inherits s (bind_write s.room entry request.auth client_id write) :=
        inherits_bind entry client_id write (settled.creates _ known) fun writes =>
          held (holds_bind.mpr (writes ▸ List.mem_cons_self))
      exact (settled.room s.next_rest_id_ bound).creates_set here (.bind entry client_id todo)
        fun holds => held (earlier holds)
  | done status => exact settled.creates_set here _ nofun

theorem mem_keys_of_live {room : GameRoom} {k : UInt64} {session : ServerSession}
    (live : room.get_session k = some session) : k ∈ room.sessions_.for_each.map Prod.fst := by
  apply (room.sessions_.valid.lists.mem_keys k).mpr
  exact Option.isSome_iff_exists.mpr ⟨session, live⟩

section Logout

variable {i : Nat} {bearer_token : Bytes}

theorem Settled.logout_revoke (settled : Settled s) (here : s.logouts[i]? = some ⟨bearer_token, .revoke⟩) :
    Settled (step sha256 strHash s (.logout_next i)) := by
  simp only [step, here, AuthSystem.logout_next]
  split
  · exact settled.logouts_set here _ nofun nofun nofun
  · next filled =>
    have changed := settled.auth_tokens fun token dead =>
      @revoked_revoke s.auth_tokens token bearer_token dead
    by_cases done : (s.auth_tokens.revoke_auth_token bearer_token).1 = true
    · simp only [done, if_true]
      exact changed.logouts_set here _ (fun _ => ⟨fun empty => filled (List.isEmpty_iff.mpr empty),
        revokes done⟩) nofun nofun
    · simp only [done]
      exact changed.logouts_set here _ nofun nofun nofun

theorem Settled.logout_collect (settled : Settled s) {todo to_destroy : List UInt64}
    (here : s.logouts[i]? = some ⟨bearer_token, .collect todo to_destroy⟩) :
    Settled (step sha256 strHash s (.logout_next i)) := by
  have known : _ ∈ s.logouts := List.mem_of_getElem? here
  have revoked := settled.revoked _ known rfl
  have quiet := settled.quiet _ known rfl
  have listed := settled.listed _ known rfl
  simp only [step, here]
  cases todo with
  | nil => exact settled.logouts_set here _ (fun _ => revoked) (fun _ => quiet) fun _ => listed
  | cons id todo =>
    simp only [AuthSystem.logout_next]
    split
    · next missing =>
      refine settled.logouts_set here _ (fun _ => revoked) (fun _ => quiet)
        fun _ k session live same => ?_
      rcases List.mem_cons.mp (listed k session live same) with rfl | later
      · rw [missing] at live
        cases live
      · exact later
    · next found present =>
      refine settled.logouts_set here _ (fun _ => revoked) (fun _ => quiet)
        fun _ k session live same => ?_
      simp only [LogoutTask.left]
      rcases List.mem_cons.mp (listed k session live same) with rfl | later
      · obtain rfl := Option.some.inj (present.symm.trans live)
        rw [if_pos same]
        simp
      · rcases List.mem_append.mp later with ahead | chosen
        · exact List.mem_append_left _ ahead
        · apply List.mem_append_right
          split
          · exact List.mem_append_left _ chosen
          · exact chosen

theorem Settled.logout_destroy (settled : Settled s) {to_destroy : List UInt64}
    (here : s.logouts[i]? = some ⟨bearer_token, .destroy to_destroy⟩) :
    Settled (step sha256 strHash s (.logout_next i)) := by
  have known : _ ∈ s.logouts := List.mem_of_getElem? here
  have revoked := settled.revoked _ known rfl
  have quiet := settled.quiet _ known rfl
  have listed := settled.listed _ known rfl
  simp only [step, here]
  cases to_destroy with
  | nil => exact settled.logouts_set here _ (fun _ => revoked) (fun _ => quiet) fun _ => listed
  | cons id to_destroy =>
    refine (settled.destroy_session id).logouts_set here _ (fun _ => revoked) (fun _ => quiet)
      fun _ k session live same => ?_
    have live : (s.room.destroy_session strHash id).get_session k = some session := live
    rw [GameRoom.get_session_destroy] at live
    split at live
    · cases live
    · next other =>
      rcases List.mem_cons.mp (listed k session live same) with here | later
      · exact absurd here other
      · exact later

end Logout

/-- A logout that goes on revokes its token first, and leaves no session of its token behind. -/
theorem Settled.logout_next (settled : Settled s) {i : Nat} {task : LogoutTask}
    (here : s.logouts[i]? = some task)
    (guarded : task.state = .snapshot → ∀ c ∈ s.creates, c.holds = true →
      c.request.auth ≠ task.bearer_token) :
    Settled (step sha256 strHash s (.logout_next i)) := by
  have known : task ∈ s.logouts := List.mem_of_getElem? here
  have revoked := settled.revoked task known
  obtain ⟨bearer_token, state⟩ := task
  cases state with
  | revoke => exact settled.logout_revoke here
  | snapshot =>
    simp only [step, here]
    exact settled.logouts_set here _ (fun _ => revoked rfl) (fun _ => guarded rfl)
      fun _ k session live _ => List.mem_append_left _ (mem_keys_of_live live)
  | collect todo to_destroy => exact settled.logout_collect here
  | destroy to_destroy => exact settled.logout_destroy here
  | done status =>
    simp only [step, here]
    exact settled.logouts_set here _ revoked (settled.quiet _ known) (settled.listed _ known)

theorem Settled.step (settled : Settled s) {event : Event} (guarded : Guarded s event) :
    Settled (step sha256 strHash s event) := by
  cases event with
  | create request =>
    refine ⟨fun c member => ?_, settled.logouts, settled.bound, settled.revoked,
      fun l inside swept c member holds => ?_, settled.listed⟩
    · rcases List.mem_append.mp member with old | new
      · exact settled.creates c old
      · rw [List.mem_singleton.mp new]
        exact guarded
    · rcases List.mem_append.mp member with old | new
      · exact settled.quiet l inside swept c old holds
      · rw [List.mem_singleton.mp new] at holds
        cases holds
  | logout bearer_token =>
    have kept {P : LogoutTask → Prop} (old : ∀ l ∈ s.logouts, P l) (fresh : P ⟨bearer_token, .revoke⟩) :
        ∀ l ∈ s.logouts ++ [⟨bearer_token, .revoke⟩], P l := by
      intro l member
      rcases List.mem_append.mp member with known | new
      · exact old l known
      · rw [List.mem_singleton.mp new]
        exact fresh
    exact ⟨settled.creates, kept settled.logouts guarded, settled.bound, kept settled.revoked nofun,
      kept settled.quiet nofun, kept settled.listed nofun⟩
  | create_next i now =>
    cases here : s.creates[i]? with
    | none => simpa only [AuthSystem.step, here] using settled
    | some task => exact settled.create_next here now
  | logout_next i =>
    cases here : s.logouts[i]? with
    | none => simpa only [AuthSystem.step, here] using settled
    | some task => exact settled.logout_next here (guarded task here)
  | issue token entry => exact settled.auth_tokens fun _ => revoked_create
  | revoke token => exact settled.auth_tokens fun _ => revoked_revoke
  | connect client_id protocol =>
    refine settled.room s.next_rest_id_ fun q session live => ?_
    rw [GameRoom.get_session_create] at live
    split at live
    · cases live
      exact .inl rfl
    · exact .inr (.inl ⟨session, live, rfl⟩)
  | destroy_session client_id => exact settled.destroy_session client_id
  | touch client_id session =>
    exact settled.room s.next_rest_id_ (inherits_update (fun _ => rfl) fun _ => .inl rfl)

theorem Settled.logged_out (settled : Settled s) : LoggedOut s := by
  intro task member done k session live bound
  have swept : task.swept = true := by simp [LogoutTask.swept, LogoutTask.past, done]
  have same : session.auth_token_id = task.bearer_token := by
    have named := bound.2
    rwa [c_str_eq (settled.bound k session live), c_str_eq (settled.logouts task member)] at named
  have left := settled.listed task member swept k session live same
  rw [LogoutTask.left, done] at left
  cases left

/-- In a run where no create holds a token when its logout looks for sessions, a logout that has
answered leaves no session with rights from its token. -/
theorem logout_ends_sessions (auth_tokens : AuthTokenTable) (room : GameRoom) (next_rest_id_ : UInt64)
    (no_sessions : ∀ k, room.get_session k = none) {events : List Event}
    (guarded : Throughout (step sha256 strHash) Guarded { auth_tokens, room, next_rest_id_ } events) :
    Always (step sha256 strHash) LoggedOut { auth_tokens, room, next_rest_id_ } events := by
  have start : Settled { auth_tokens, room, next_rest_id_ } := by
    refine ⟨nofun, nofun, fun k session live => ?_, nofun, nofun, nofun⟩
    exact absurd (live.symm.trans (no_sessions k)) nofun
  have always : Always (step sha256 strHash) Settled { auth_tokens, room, next_rest_id_ } events :=
    always_of_throughout (fun _ _ settled here => settled.step here) start guarded
  exact always.mono fun _ settled => settled.logged_out

theorem guarded_of_idle {i : Nat} (idle : ∀ c ∈ s.creates, c.holds = false) :
    Guarded s (.logout_next i) := fun _ _ _ c member holds =>
  absurd ((idle c member).symm.trans holds) nofun

end Proof

/-- A token that belongs to a moderator, and a request for a session that names it. -/
def modToken : AuthTokenTable := AList.singleton (bytes "t") { username := bytes "mod", acl := bytes "SUPER" }

def withToken : CreateRequest := { auth := bytes "t", token := bytes "s" }

/-- The logout runs to its answer after the create has found the token valid, and before the create
has a session. -/
def overtaken : List Event :=
  [.create withToken, .create_next 0 5, .logout (bytes "t")] ++
  List.replicate 4 (.logout_next 0) ++ List.replicate 8 (.create_next 0 5)

/-- The create runs to its answer before the logout starts. -/
def inOrder : List Event :=
  [.create withToken] ++ List.replicate 10 (.create_next 0 5) ++ [.logout (bytes "t")] ++
  List.replicate 6 (.logout_next 0)

theorem overtaken_create_survives :
    ¬ LoggedOut (run (step (fun _ => []) fun _ => 0) { auth_tokens := modToken } overtaken) := by
  intro out
  have answered : (run (step (fun _ => []) fun _ => 0) { auth_tokens := modToken } overtaken).logouts =
      [⟨bytes "t", .done 200⟩] := by decide
  have live : (run (step (fun _ => []) fun _ => 0) { auth_tokens := modToken } overtaken).room.get_session 0 =
      some { session_token := bytes "s", client_software := bytes "/", protocol := bytes "aonx",
             joined := true, moderator := true, acl_role := bytes "SUPER",
             moderator_name := bytes "mod", auth_token_id := bytes "t" } := by decide
  rw [LoggedOut, answered] at out
  exact out _ List.mem_cons_self rfl 0 _ live ⟨rfl, rfl⟩

theorem logout_in_order :
    (run (step (fun _ => []) fun _ => 0) { auth_tokens := modToken } inOrder).logouts =
      [⟨bytes "t", .done 200⟩] ∧
    Always (step (fun _ => []) fun _ => 0) LoggedOut { auth_tokens := modToken } inOrder := by
  refine ⟨by decide, logout_ends_sessions modToken {} 0 (fun _ => SessionMap.find_empty _) ?_⟩
  have plain : 0 ∉ bytes "t" := by decide
  have idle : Throughout (step (fun _ => []) fun _ => 0) Guarded
      (run (step (fun _ => []) fun _ => 0) { auth_tokens := modToken } (inOrder.take 12))
      (List.replicate 6 (.logout_next 0)) := by
    refine ⟨guarded_of_idle ?_, guarded_of_idle ?_, guarded_of_idle ?_, guarded_of_idle ?_,
      guarded_of_idle ?_, guarded_of_idle ?_, trivial⟩ <;> decide
  exact ⟨plain, trivial, trivial, trivial, trivial, trivial, trivial, trivial, trivial, trivial,
    trivial, plain, idle⟩

end AuthSystem

end AoSdl
