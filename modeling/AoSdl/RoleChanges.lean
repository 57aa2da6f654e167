import AoSdl.ModeratorRoles

/-! The change of a user's role, and what it leaves of the sessions that are logged in as the user.
The command looks for the sessions that have an auth token and closes their connections. -/
namespace AoSdl
open Lib.Runs ACLPermission

/-- The tables of users and of auth tokens. -/
structure UserDatabase where
  users : AList (fun _ : Bytes => UserEntry) := ∅
  auth_tokens : AuthTokenTable := ∅

namespace UserDatabase

/-- Whether a row was changed, and the database after it. -/
def update_acl (db : UserDatabase) (username acl : Bytes) : Bool × UserDatabase :=
  match db.users.lookup (c_str username) with
  | none => (false, db)
  | some user =>
    (true, { db with users := db.users.replace (c_str username) { user with acl := c_str acl } })

def revoke_all_tokens_for_user (db : UserDatabase) (username : Bytes) : UserDatabase :=
  { db with auth_tokens := Lib.Entries.mapValues (fun _ entry =>
      if entry.username = c_str username then { entry with revoked := true } else entry) db.auth_tokens }

end UserDatabase

theorem permissions_cases (role : Bytes) :
    acl_permissions_for_role role = .SUPER ∨ acl_permissions_for_role role = .NONE := by
  unfold acl_permissions_for_role
  split
  · exact .inl rfl
  · exact .inr rfl

theorem has_permission_none (permission : ACLPermission) :
    has_permission .NONE permission = true ↔ permission = .NONE := by
  have other : ACLPermission.NONE ≠ .SUPER := by decide
  have empty : (ACLPermission.NONE &&& permission != 0) = false := by simp [ACLPermission.NONE]
  simp only [has_permission, other, empty, decide_false, Bool.or_false]
  exact decide_eq_true_iff

theorem grants_iff (held granted : Bytes) :
    (∀ permission, (acl_permissions_for_role held).has_permission permission = true →
      (acl_permissions_for_role granted).has_permission permission = true) ↔
    (acl_permissions_for_role held = .SUPER → acl_permissions_for_role granted = .SUPER) := by
  have all (permission : ACLPermission) : has_permission .SUPER permission = true := by
    simp [has_permission]
  have apart : ACLPermission.SUPER ≠ .NONE := by decide
  rcases permissions_cases granted with super | weak
  · simp [super, all]
  · rw [weak]
    rcases permissions_cases held with super | none
    · rw [super]
      refine iff_of_false (fun grants => ?_) fun same => apart (same rfl).symm
      exact apart ((has_permission_none .SUPER).mp (grants .SUPER (all _)))
    · rw [none]
      exact iff_of_true (fun _ permits => permits) fun same => same

namespace SetPermsCommand

variable (db : Option UserDatabase) (room : GameRoom) (client_id : UInt64) (session : ServerSession)
  (args : List Bytes)

/-- The database with the user's new role and without the user's tokens, or why the role stays. -/
def change : Except Bytes UserDatabase :=
  match db with
  | none => .error (bytes "Database is not available.")
  | some db =>
    let username := args.getD 1 []
    let role := (args.getD 2 []).map toupper
    if role ≠ bytes "SUPER" ∧ role ≠ bytes "NONE" then
      .error (bytes "Unknown role '" ++ role ++ bytes "'. Known roles: SUPER, NONE.")
    else if acl_permissions_for_role role = .SUPER ∧
        !(acl_permissions_for_role session.acl_role).has_permission .SUPER then
      .error (bytes "Only SUPER users can assign the SUPER role.")
    else if username = bytes "root" then .error (bytes "Cannot change the root user's role.")
    else
      let (updated, db) := db.update_acl username role
      if !updated then .error (bytes "User '" ++ username ++ bytes "' not found.")
      else .ok (db.revoke_all_tokens_for_user username)

/-- The sessions of the user that an auth token has created. -/
def bound (username : Bytes) : List ServerSession :=
  room.sessions.filter fun s => s.moderator_name = username && !s.auth_token_id.isEmpty

def execute : List CommandEffect × Option UserDatabase :=
  match change db session args with
  | .error message => ([.send_system_message client_id message], db)
  | .ok db =>
    let username := args.getD 1 []
    let role := (args.getD 2 []).map toupper
    ((bound room username).map (fun s =>
        .send_kick_message s.client_id (bytes "Your permissions were updated. Please log in again.")) ++
      [.send_system_message client_id
        (bytes "Set " ++ username ++ bytes "'s role to " ++ role ++ bytes ".")], some db)

def handler : CommandHandler where
  required_permission := .MODIFY_USERS
  min_args := 2
  usage := bytes "/setperms <username> <role>"
  permission_name := bytes "MODIFY_USERS"
  execute := fun args => (execute db room client_id session args).1

end SetPermsCommand

/-- The client whose close is queued, if the effect queues one. -/
def Effect.deferred_close : Effect → Option UInt64
  | .close .deferred client_id => some client_id
  | _ => none

namespace AOServer

/-- The registry with `/setperms`. -/
def with_setperms (s : AOServer) (db : Option UserDatabase) (k : UInt64) (ctx : CommandContext) :
    CommandContext :=
  { ctx with find := fun name =>
      if name = bytes "setperms" then
        (s.room_.get_session k).map fun session => SetPermsCommand.handler db s.room_ k session
      else ctx.find name }

/-- The poll thread closes the connections it still has, and their sessions end. -/
def flush_closes (deps : Deps) (env : Env) (s : AOServer) (queue : List UInt64) : AOServer :=
  queue.foldl (fun s k => if env.has_client k then on_client_disconnected deps s k else s) s

/-- The packet's player and words, if it is a `/setperms` the registry does not refuse. -/
def setperms (s : AOServer) (db : Option UserDatabase) (k : UInt64) (packet_str : Bytes) :
    Option (ServerSession × List Bytes) :=
  match s.slash_command k packet_str with
  | some (session, word :: words) =>
    if word.map tolower = bytes "setperms" ∧
        CommandRegistry.refusal session (SetPermsCommand.handler db s.room_ k session)
          (word.map tolower :: words) = none then
      some (session, word.map tolower :: words)
    else none
  | _ => none

/-- The room stays, and the closes of some clients are queued. -/
structure Queues (s t : AOServer) (queue : List UInt64) : Prop where
  room : t.room_ = s.room_
  log : ∃ rest, t.log = s.log ++ rest ∧ rest.filterMap Effect.deferred_close = queue

section Queues

variable {deps : Deps} {env : Env} {k : UInt64} {s t u : AOServer} {queue later : List UInt64}

theorem Queues.refl (s : AOServer) : Queues s s [] := ⟨rfl, [], (List.append_nil _).symm, rfl⟩

theorem Queues.trans (first : Queues s t queue) (second : Queues t u later) :
    Queues s u (queue ++ later) := by
  obtain ⟨front, logged, queued⟩ := first.log
  obtain ⟨back, more, last⟩ := second.log
  refine ⟨second.room.trans first.room, front ++ back, ?_, ?_⟩
  · rw [more, logged, List.append_assoc]
  · rw [List.filterMap_append, queued, last]

theorem queues_emit (s : AOServer) (e : Effect) : Queues s (s.emit e) e.deferred_close.toList := by
  refine ⟨rfl, [e], rfl, ?_⟩
  cases closes : e.deferred_close <;> simp [closes]

theorem queues_send (s : AOServer) (k : UInt64) (p : AOPacket) : Queues s (s.send k p) [] := queues_emit s _

theorem queues_kicks (env : Env) (reason : Bytes) (kicked : List ServerSession) (s : AOServer) :
    Queues s ((kicked.map fun player => .send_kick_message player.client_id reason).foldl
      (run_effect env) s) [] := by
  induction kicked generalizing s with
  | nil => exact .refl s
  | cons player kicked ih => exact (queues_send s player.client_id ⟨bytes "KK", [reason]⟩).trans (ih _)

theorem queues_closes (env : Env) (closes : List UInt64) (s : AOServer) :
    Queues s (closes.foldl (fun s k => s.close_client_deferred env k) s)
      (if env.ws.isSome then closes else []) := by
  have closed (s : AOServer) (k : UInt64) :
      Queues s (s.close_client_deferred env k) (if env.ws.isSome then [k] else []) := by
    unfold close_client_deferred close
    split
    · exact queues_emit _ _
    · exact .refl s
  induction closes generalizing s with
  | nil => simpa using Queues.refl s
  | cons k closes ih =>
    have both := (closed s k).trans (ih _)
    cases ws : env.ws.isSome with
    | true =>
      simp only [ws, if_true] at both ⊢
      exact both
    | false =>
      simp only [ws] at both ⊢
      exact both

/-- The sessions that a flush ends are those whose closes are queued. -/
theorem get_session_flush (deps : Deps) (env : Env) (queue : List UInt64) (s : AOServer) (q : UInt64) :
    (flush_closes deps env s queue).room_.get_session q =
      if q ∈ queue ∧ env.has_client q = true then none else s.room_.get_session q := by
  induction queue generalizing s with
  | nil => simp [flush_closes]
  | cons k queue ih =>
    refine (ih _).trans ?_
    by_cases has : env.has_client k = true
    · simp only [has, if_true, (room_disconnected deps k s).1, List.mem_cons]
      by_cases same : q = k
      · subst same
        simp [has]
      · simp [same]
    · simp only [has, List.mem_cons]
      by_cases same : q = k
      · subst same
        simp [has]
      · simp [same]

theorem own_setperms (s : AOServer) (db : Option UserDatabase) (k : UInt64) (session : ServerSession)
    (args : List Bytes) :
    (((SetPermsCommand.execute db s.room_ k session args).1.map (tame s)).map (spare s)) =
      (SetPermsCommand.execute db s.room_ k session args).1 := by
  rw [List.map_map]
  refine (List.map_congr_left ?_).trans (List.map_id _)
  unfold SetPermsCommand.execute
  split
  · simp [tame, spare]
  · intro e inside
    rcases List.mem_append.mp inside with kick | told
    · obtain ⟨player, _, rfl⟩ := List.mem_map.mp kick
      rfl
    · cases List.mem_singleton.mp told
      rfl

theorem find_setperms (deps : Deps) (db : Option UserDatabase) (ctx : CommandContext) {session : ServerSession}
    (found : s.room_.get_session k = some session) :
    CommandRegistry.find deps (spared s (with_area_commands s k (with_setperms s db k ctx))) k session
        (bytes "setperms") = some (SetPermsCommand.handler db s.room_ k session) := by
  have apart : AreaCommands.find s.room_ k session (bytes "setperms") = none := rfl
  have listed : (with_setperms s db k ctx).find (bytes "setperms") =
      some (SetPermsCommand.handler db s.room_ k session) := by
    simp only [with_setperms, if_true, found, Option.map_some]
  unfold CommandRegistry.find
  rw [if_neg (by decide), if_neg (by decide), if_neg (by decide)]
  simp only [spared, with_area_commands, found, Option.bind_some, apart, listed, Option.none_or,
    Option.map_some, SetPermsCommand.handler, own_setperms]

theorem setperms_spec {db : Option UserDatabase} {session : ServerSession} {args : List Bytes}
    {packet_str : Bytes} (issued : s.setperms db k packet_str = some (session, args)) :
    ∃ word words, s.slash_command k packet_str = some (session, word :: words) ∧
      word.map tolower = bytes "setperms" ∧ args = word.map tolower :: words ∧
      CommandRegistry.refusal session (SetPermsCommand.handler db s.room_ k session) args = none := by
  unfold setperms at issued
  split at issued
  · next player word words slash =>
    split at issued
    · next known =>
      obtain ⟨rfl, rfl⟩ := Prod.mk.inj (Option.some.inj issued)
      exact ⟨word, words, slash, known.1, rfl, known.2⟩
    · cases issued
  · cases issued

theorem command_setperms {db : Option UserDatabase} {session : ServerSession} {args : List Bytes}
    {packet_str : Bytes} (ctx : CommandContext)
    (issued : s.setperms db k packet_str = some (session, args)) :
    command deps (with_area_commands s k (with_setperms s db k ctx)) s k packet_str =
      (SetPermsCommand.execute db s.room_ k session args).1 := by
  obtain ⟨word, words, slash, named, rfl, allowed⟩ := setperms_spec issued
  refine command_registered deps k _ slash ?_ allowed
  rw [named]
  exact find_setperms deps db ctx (slash_session k slash)

theorem throws_setperms (env : Env) {db : Option UserDatabase} {session : ServerSession} {args : List Bytes}
    {packet_str : Bytes} (ctx : CommandContext)
    (issued : s.setperms db k packet_str = some (session, args)) :
    (commanded deps (with_area_commands s k (with_setperms s db k ctx)) s env k packet_str).command_throws =
      false := by
  obtain ⟨word, words, slash, named, rfl, -⟩ := setperms_spec issued
  have registered := find_setperms deps db ctx (slash_session k slash)
  rw [← named] at registered
  rw [throws_registered deps env k _ slash registered]
  exact Bool.and_false _

end Queues

/-- No session of the user has a permission that the role does not grant. -/
def Demoted (s : AOServer) (username role : Bytes) : Prop :=
  ∀ session ∈ s.room_.sessions, session.moderator_name = username → ∀ permission,
    (acl_permissions_for_role session.acl_role).has_permission permission = true →
      (acl_permissions_for_role role).has_permission permission = true

end AOServer

/-- The server beside its database. -/
structure RoleServer where
  server : AOServer := {}
  db : Option UserDatabase := some {}
  keyed : server.Keyed

namespace RoleServer
open AOServer

variable (deps : Deps) (env : Env) (ctx : CommandContext) (s : RoleServer) (k : UInt64)
  (packet_str : Bytes)

/-- What a packet leaves, before the queued closes. -/
def processed : AOServer :=
  commandStep deps s.server (.ao (with_setperms s.server s.db k ctx) (.packet env k packet_str))

/-- A packet, and the closes it has queued. -/
def settled : AOServer :=
  flush_closes deps env (processed deps env ctx s k packet_str)
    (((processed deps env ctx s k packet_str).log.drop s.server.log.length).filterMap
      Effect.deferred_close)

theorem keyed_flush {t : AOServer} (keyed : t.Keyed) (queue : List UInt64) :
    (flush_closes deps env t queue).Keyed := by
  refine List.foldlRecOn (motive := Keyed) queue _ keyed fun t keyed q _ => ?_
  split
  · exact keyed.step deps (.ao {} (.disconnected q))
  · exact keyed

def packet : RoleServer where
  server := settled deps env ctx s k packet_str
  db := match s.server.setperms s.db k packet_str with
    | none => s.db
    | some (session, args) => (SetPermsCommand.execute s.db s.server.room_ k session args).2
  keyed := keyed_flush deps env (s.keyed.step deps _) _

/-- The user and the role that the packet sets. -/
def sets : Option (Bytes × Bytes) :=
  match s.server.setperms s.db k packet_str with
  | none => none
  | some (session, args) =>
    match SetPermsCommand.change s.db session args with
    | .error _ => none
    | .ok _ => some (args.getD 1 [], (args.getD 2 []).map toupper)

variable {s k packet_str}

theorem sets_spec {username role : Bytes} (sets : s.sets k packet_str = some (username, role)) :
    ∃ session args db, s.server.setperms s.db k packet_str = some (session, args) ∧
      SetPermsCommand.change s.db session args = .ok db ∧
      args.getD 1 [] = username ∧ (args.getD 2 []).map toupper = role := by
  unfold RoleServer.sets at sets
  split at sets
  · cases sets
  · next session args issued =>
    split at sets
    · cases sets
    · next db changed =>
      cases sets
      exact ⟨session, args, db, issued, changed, rfl, rfl⟩

theorem processed_queues {username role : Bytes}
    (sets : s.sets k packet_str = some (username, role)) :
    Queues s.server (processed deps env ctx s k packet_str)
      (if env.ws.isSome then
        (SetPermsCommand.bound s.server.room_ username).map (·.client_id) else []) := by
  obtain ⟨session, args, db, issued, changed, rfl, rfl⟩ := sets_spec sets
  obtain ⟨word, words, slash, _⟩ := setperms_spec issued
  obtain ⟨env', left, runs, falls, ws⟩ : ∃ env' : Env,
      processed deps env ctx s k packet_str = process_packet deps env' s.server k packet_str ∧
      env'.command = (SetPermsCommand.execute s.db s.server.room_ k session args).1 ∧
      env'.command_throws = false ∧ env'.ws = env.ws :=
    ⟨_, rfl, command_setperms ctx issued, throws_setperms env ctx issued, rfl⟩
  obtain ⟨packet, t, ran, done⟩ := process_slash deps env' k slash
  have asked : env'.command.filterMap CommandEffect.deferred_close =
      (SetPermsCommand.bound s.server.room_ (args.getD 1 [])).map (·.client_id) := by
    rw [runs, SetPermsCommand.execute, changed]
    simp [List.filterMap_append, List.filterMap_map, CommandEffect.deferred_close, Function.comp_def]
  rw [run_effects, falls, if_neg Bool.false_ne_true, asked, runs, SetPermsCommand.execute, changed,
    List.foldl_append] at ran
  rw [left, ← ws]
  have entered : Queues s.server (s.server.emit (.dispatch k packet)) [] := queues_emit _ _
  have told := ((entered.trans (queues_kicks env' (bytes "Your permissions were updated. Please log in again.")
    (SetPermsCommand.bound s.server.room_ (args.getD 1 [])) (s.server.emit (.dispatch k packet)))).trans
    (queues_send _ k (system_message (bytes "Set " ++ args.getD 1 [] ++ bytes "'s role to " ++
      (args.getD 2 []).map toupper ++ bytes "."))))
  have finished := told.trans (queues_closes env'
    ((SetPermsCommand.bound s.server.room_ (args.getD 1 [])).map (·.client_id)) _)
  rcases done with done | ⟨reply, done⟩
  · rw [done, ran]
    exact finished
  · have replied := finished.trans (queues_send _ k reply)
    rw [List.append_nil] at replied
    rw [done, ran]
    exact replied

theorem mem_settled {username role : Bytes} (sets : s.sets k packet_str = some (username, role))
    (session : ServerSession) :
    session ∈ (settled deps env ctx s k packet_str).room_.sessions ↔
      session ∈ s.server.room_.sessions ∧ ¬ (session.moderator_name = username ∧
        session.auth_token_id ≠ [] ∧ env.ws.isSome = true ∧
          env.has_client session.client_id = true) := by
  obtain ⟨room, rest, logged, queued⟩ := processed_queues deps env ctx sets
  have found (q : UInt64) : (settled deps env ctx s k packet_str).room_.get_session q =
      if q ∈ rest.filterMap Effect.deferred_close ∧ env.has_client q = true then none
      else s.server.room_.get_session q := by
    unfold settled
    rw [get_session_flush, logged, List.drop_left, room]
  have closed (live : session ∈ s.server.room_.sessions) :
      session.client_id ∈ rest.filterMap Effect.deferred_close ↔
        session.moderator_name = username ∧ session.auth_token_id ≠ [] ∧ env.ws.isSome = true := by
    rw [queued]
    split
    · next ws =>
      simp only [List.mem_map, SetPermsCommand.bound, List.mem_filter, Bool.and_eq_true,
        decide_eq_true_eq, Bool.not_eq_true', List.isEmpty_eq_false_iff, ws, and_true]
      constructor
      · rintro ⟨player, ⟨listed, bound⟩, same⟩
        have known := s.keyed.mem_sessions.mp listed
        rw [same, s.keyed.mem_sessions.mp live] at known
        cases known
        exact bound
      · intro bound
        exact ⟨session, ⟨live, bound⟩, rfl⟩
    · next ws => simp [ws]
  have keyed : (settled deps env ctx s k packet_str).Keyed := (packet deps env ctx s k packet_str).keyed
  rw [keyed.mem_sessions, found]
  split
  · next gone =>
    refine iff_of_false (Option.some_ne_none _).symm fun ⟨live, stays⟩ => stays ?_
    obtain ⟨named, bound, ws⟩ := (closed live).mp gone.1
    exact ⟨named, bound, ws, gone.2⟩
  · next stays =>
    rw [← s.keyed.mem_sessions]
    refine (and_iff_left_of_imp fun live reached => stays ?_).symm
    obtain ⟨named, bound, ws, has⟩ := reached
    exact ⟨(closed live).mpr ⟨named, bound, ws⟩, has⟩

/-- The user's row has the new role, and none of the user's tokens is valid. -/
theorem packet_db {username role : Bytes} (sets : s.sets k packet_str = some (username, role)) :
    ∃ db user, (packet deps env ctx s k packet_str).db = some db ∧
      db.users.lookup (c_str username) = some user ∧ user.acl = c_str role ∧
      ∀ token entry, db.auth_tokens.lookup token = some entry → entry.username = c_str username →
        entry.revoked = true := by
  obtain ⟨session, args, db, issued, changed, rfl, rfl⟩ := sets_spec sets
  have kept : (packet deps env ctx s k packet_str).db = some db := by
    simp only [packet, issued, SetPermsCommand.execute, changed]
  unfold SetPermsCommand.change at changed
  split at changed
  · cases changed
  · next old _ =>
    dsimp only at changed
    split at changed
    · cases changed
    split at changed
    · cases changed
    split at changed
    · cases changed
    unfold UserDatabase.update_acl at changed
    cases known : old.users.lookup (c_str (args.getD 1 [])) with
    | none =>
      rw [known] at changed
      cases changed
    | some user =>
      rw [known] at changed
      cases changed
      refine ⟨_, { user with acl := c_str ((args.getD 2 []).map toupper) }, kept, ?_, rfl,
        fun token entry found own => ?_⟩
      · simp only [UserDatabase.revoke_all_tokens_for_user, Lib.Entries.lookup_replace, known,
          if_true, Option.map_some]
      · simp only [UserDatabase.revoke_all_tokens_for_user, Lib.Entries.lookup_mapValues] at found
        obtain ⟨was, _, same⟩ := Option.map_eq_some_iff.mp found
        split at same
        · rw [← same]
        · next other =>
          subst same
          exact absurd own other

/-- Every session of the user with all rights was created by an auth token, and is a connection of the
WebSocket server. -/
def Reaches (env : Env) (s : RoleServer) (username : Bytes) : Prop :=
  ∀ session ∈ s.server.room_.sessions, session.moderator_name = username →
    acl_permissions_for_role session.acl_role = .SUPER →
      session.auth_token_id ≠ [] ∧ env.ws.isSome = true ∧ env.has_client session.client_id = true

instance (env : Env) (s : RoleServer) (username : Bytes) : Decidable (Reaches env s username) :=
  inferInstanceAs (Decidable (∀ session ∈ s.server.room_.sessions, session.moderator_name = username →
    acl_permissions_for_role session.acl_role = .SUPER →
      session.auth_token_id ≠ [] ∧ env.ws.isSome = true ∧ env.has_client session.client_id = true))

/-- After the change no live session of the user has more rights than the role exactly if the role has
all, or the command reaches every session of the user that has all. -/
theorem demoted_iff {username role : Bytes} (sets : s.sets k packet_str = some (username, role)) :
    (packet deps env ctx s k packet_str).server.Demoted username role ↔
      acl_permissions_for_role role = .SUPER ∨ s.Reaches env username := by
  have left (session : ServerSession) :
      session ∈ (packet deps env ctx s k packet_str).server.room_.sessions ↔ _ :=
    mem_settled deps env ctx sets session
  simp only [Demoted, grants_iff, left]
  constructor
  · intro demoted
    refine or_iff_not_imp_left.mpr fun weak session live named super => ?_
    by_contra missed
    exact weak (demoted session ⟨live, fun reached => missed reached.2⟩ named super)
  · rintro (super | reaches) session ⟨live, stays⟩ named rights
    · exact super
    · exact absurd ⟨named, reaches session live named rights⟩ stays

/-- Two users with all rights, `maya` and `root`, play. -/
def twoUsers : List SessionEvent :=
  let ctx : CommandContext :=
    { auth_type := .ADVANCED, get_user := fun name => some ⟨name, [], [], bytes "SUPER"⟩
      verify_password := fun _ _ _ => true }
  userLogin (bytes "SUPER") ++ [.ao {} (.connected {} 8), .ao {} (.packet {} 8 (bytes "RD#%")),
    .ao ctx (.packet {} 8 (bytes "CT#a#/login root pw#%"))]

/-- The server after a run, with `maya` and a token of hers in its database. -/
def reached (events : List SessionEvent) : RoleServer where
  server := run (commandStep plainDeps) {} events
  db := some {
    users := AList.insert (bytes "maya") ⟨bytes "maya", [], [], bytes "SUPER"⟩ ∅
    auth_tokens := AList.insert (bytes "t") { username := bytes "maya", acl := bytes "SUPER" } ∅ }
  keyed := invariant_run (fun _ event keyed => keyed.step plainDeps event) keyed_start events

/-- The clients' connections are all there. -/
def online : Env := { ws := some fun _ => [] }

theorem role_taken : ∃ db user, (packet plainDeps online {} (reached twoUsers) 8
      (bytes "CT#a#/setperms maya none#%")).db = some db ∧
    db.users.lookup (c_str (bytes "maya")) = some user ∧ user.acl = c_str (bytes "NONE") ∧
    ∀ token entry, db.auth_tokens.lookup token = some entry → entry.username = c_str (bytes "maya") →
      entry.revoked = true :=
  packet_db plainDeps online {} (by decide +kernel)

/-- The role is taken from a user who is logged out. -/
theorem logged_out_demoted :
    (packet plainDeps online {}
      (reached (twoUsers ++ [.ao {} (.packet {} 7 (bytes "CT#a#/logout#%"))])) 8
      (bytes "CT#a#/setperms maya none#%")).server.Demoted (bytes "maya") (bytes "NONE") :=
  (demoted_iff plainDeps online {} (by decide +kernel)).mpr (.inr (by decide +kernel))

/-- A player keeps all rights when the role is taken from the user. -/
theorem login_keeps_rights :
    (reached twoUsers).sets 8 (bytes "CT#a#/setperms maya none#%") = some (bytes "maya", bytes "NONE") ∧
    ¬ (packet plainDeps online {} (reached twoUsers) 8
      (bytes "CT#a#/setperms maya none#%")).server.Demoted (bytes "maya") (bytes "NONE") := by
  refine ⟨by decide +kernel, fun demoted => ?_⟩
  have keeps : (packet plainDeps online {} (reached twoUsers) 8
      (bytes "CT#a#/setperms maya none#%")).server.room_.sessions.any (fun session =>
        session.moderator_name = bytes "maya" &&
          acl_permissions_for_role session.acl_role = .SUPER) = true := by decide +kernel
  obtain ⟨session, live, rights⟩ := List.any_eq_true.mp keeps
  rw [Bool.and_eq_true, decide_eq_true_eq, decide_eq_true_eq] at rights
  have granted := demoted session live rights.1 .SUPER (by rw [rights.2]; decide)
  exact absurd granted (by decide)

end RoleServer

end AoSdl
