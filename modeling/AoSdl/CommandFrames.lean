import AoSdl.AreaCommands
import AoSdl.RoomFrames

/-! What a packet leaves of the room is what it was, up to the sessions' identities and the case
masters' areas, or what a slash command of the registry leaves. -/
namespace AoSdl

namespace AOServer

variable (deps : Deps) (env : Env) (k : UInt64) {s t u : AOServer}

/-- The player who sends a slash command, and its words. -/
def slash_command (s : AOServer) (k : UInt64) (packet_str : Bytes) :
    Option (ServerSession × List Bytes) :=
  match AOPacket.deserialize packet_str, s.room_.get_session k with
  | some packet, some session =>
    let message := AOPacketCT.message packet.fields
    if PacketFactory.find packet.header = some .CT ∧ session.joined ∧ try_dispatch message then
      some (session, command_args message)
    else none
  | _, _ => none

theorem slash_parsed {session : ServerSession} {args : List Bytes} {packet_str : Bytes}
    (slash : s.slash_command k packet_str = some (session, args)) :
    ∃ packet, AOPacket.deserialize packet_str = some packet ∧ s.room_.get_session k = some session ∧
      (PacketFactory.find packet.header = some .CT ∧ session.joined ∧
        try_dispatch (AOPacketCT.message packet.fields)) ∧
      command_args (AOPacketCT.message packet.fields) = args := by
  unfold slash_command at slash
  split at slash
  · next packet player parsed found =>
    dsimp only at slash
    split at slash
    · next known =>
      obtain ⟨rfl, rfl⟩ := Prod.mk.inj (Option.some.inj slash)
      exact ⟨packet, parsed, found, known, rfl⟩
    · cases slash
  · cases slash

theorem slash_session {session : ServerSession} {args : List Bytes} {packet_str : Bytes}
    (slash : s.slash_command k packet_str = some (session, args)) :
    s.room_.get_session k = some session := by
  obtain ⟨_, _, found, _⟩ := slash_parsed k slash
  exact found

theorem room_process (s : AOServer) {packet_str : Bytes} {packet : AOPacket}
    (parsed : AOPacket.deserialize packet_str = some packet) :
    (process_packet deps env s k packet_str).room_ = (dispatch deps env s k packet).1.room_ := by
  rcases process_packet_cases deps env s k parsed with same | ⟨reply, same⟩
  · rw [same]
  · rw [same]
    rfl

theorem process_slash {session : ServerSession} {args : List Bytes} {packet_str : Bytes}
    (slash : s.slash_command k packet_str = some (session, args)) :
    ∃ (packet : AOPacket) (t : AOServer),
      t = run_effects env env.command_throws (s.emit (.dispatch k packet)) env.command ∧
      (process_packet deps env s k packet_str = t ∨
        ∃ reply, process_packet deps env s k packet_str = t.send k reply) := by
  obtain ⟨packet, parsed, found, known, _⟩ := slash_parsed k slash
  have handled : (dispatch deps env s k packet).1 =
      run_effects env env.command_throws (s.emit (.dispatch k packet)) env.command := by
    rw [dispatch_handler deps env s k found known.1]
    simp only [handle_server, AOPacketCT.handle_server, known.2.1, known.2.2, Bool.not_true,
      Bool.false_eq_true, if_false, if_true]
  exact ⟨packet, _, handled, process_packet_cases deps env s k parsed⟩

theorem room_slash {session : ServerSession} {args : List Bytes} {packet_str : Bytes}
    (slash : s.slash_command k packet_str = some (session, args)) :
    ∃ t : AOServer, t.room_ = s.room_ ∧ (process_packet deps env s k packet_str).room_ =
      (env.command.foldl (run_effect env) t).room_ := by
  obtain ⟨packet, t, rfl, done | ⟨reply, done⟩⟩ := process_slash deps env k slash
  · exact ⟨s.emit (.dispatch k packet), rfl, by rw [done, room_run_effects]⟩
  · refine ⟨s.emit (.dispatch k packet), rfl, ?_⟩
    rw [done]
    exact room_run_effects env _ _ _

theorem room_command (ctx : CommandContext) {session : ServerSession} {args : List Bytes}
    {packet_str : Bytes} (slash : s.slash_command k packet_str = some (session, args)) :
    ∃ (issued : Env) (t : AOServer), t.room_ = s.room_ ∧
      (commandStep deps s (.ao ctx (.packet env k packet_str))).room_ =
        ((command deps (with_area_commands s k ctx) s k packet_str).foldl (run_effect issued) t).room_ := by
  obtain ⟨t, same, room⟩ := room_slash deps
    (commanded deps (with_area_commands s k ctx) s env k packet_str) k slash
  exact ⟨_, t, same, room⟩

theorem calm_packet {packet_str : Bytes} (spoken : s.slash_command k packet_str = none) :
    Calm s (process_packet deps env s k packet_str) := by
  cases parsed : AOPacket.deserialize packet_str with
  | none =>
    refine calm_room ?_
    unfold process_packet
    rw [parsed]
    rfl
  | some packet =>
    refine Calm.trans ?_ (calm_room (room_process deps env k s parsed))
    have handled := dispatch_cases deps env s k packet
    generalize dispatch deps env s k packet = result at handled ⊢
    cases handled with
    | stranger absent => exact calm_room rfl
    | unknown found unnamed reply => exact calm_room rfl
    | @handler session type found named =>
      refine (calm_room (s := s) (t := s.emit (.dispatch k packet)) rfl).trans ?_
      by_cases joined : session.joined = true
      · refine calm_handle_server deps env k session packet.fields _ ?_
        rintro rfl
        simpa [slash_command, parsed, found, named, joined] using spoken
      · by_cases chat : type = .CT
        · subst chat
          simp only [handle_server, AOPacketCT.handle_server, joined]
          exact .refl _
        · exact calm_handle_server deps env k session packet.fields _ fun same => absurd same chat

/-- What a slash command of a session does. -/
inductive Dispatched (ctx : CommandContext) (s : AOServer) (session : ServerSession) (args : List Bytes) :
    List CommandEffect → Prop
  | tell (message : Bytes) : Dispatched ctx s session args [.send_system_message k message]
  | login {word : Bytes} {words : List Bytes} (named : args = word :: words)
    (login : word.map tolower = bytes "login") :
    Dispatched ctx s session args
      (LoginCommand.execute deps ctx k session (word.map tolower :: words))
  | logout (moderator : session.moderator = true) :
    Dispatched ctx s session args (LogoutCommand.execute k session)
  | rootpass (words : List Bytes) (moderator : session.moderator = true) :
    Dispatched ctx s session args (RootPassCommand.execute ctx k session words)
  | area {word : Bytes} {words : List Bytes} {handler : CommandHandler} (named : args = word :: words)
    (found : AreaCommands.find s.room_ k session (word.map tolower) = some handler)
    (allowed : CommandRegistry.refusal session handler (word.map tolower :: words) = none) :
    Dispatched ctx s session args ((handler.execute (word.map tolower :: words)).map (spare s))
  | other (effects : List CommandEffect) :
    Dispatched ctx s session args ((effects.map (tame s)).map (spare s))

theorem slash_dispatched (ctx : CommandContext) {session : ServerSession} {args : List Bytes}
    {packet_str : Bytes} (slash : s.slash_command k packet_str = some (session, args)) :
    Dispatched deps k ctx s session args
      (command deps (with_area_commands s k ctx) s k packet_str) := by
  obtain ⟨packet, parsed, found, _, rfl⟩ := slash_parsed k slash
  unfold command
  rw [parsed, found]
  dsimp only
  unfold CommandRegistry.try_dispatch
  split
  · exact .other []
  · next word words split_words =>
    rw [split_words]
    dsimp only
    split
    · exact .tell _
    · next handler known =>
      split
      · exact .tell _
      · next allowed =>
        unfold CommandRegistry.find at known
        split at known
        · next login =>
          cases known
          exact .login rfl login
        split at known
        · cases known
          exact .logout (moderator_of_allowed allowed rfl)
        split at known
        · cases known
          exact .rootpass _ (moderator_of_allowed allowed rfl)
        · obtain ⟨plain, listed, rfl⟩ := Option.map_eq_some_iff.mp known
          simp only [with_area_commands, found, Option.bind_some] at listed
          rcases Option.or_eq_some_iff.mp listed with area | ⟨_, rest⟩
          · exact .area rfl area allowed
          · obtain ⟨handler, _, rfl⟩ := Option.map_eq_some_iff.mp rest
            exact .other _

theorem command_registered (ctx : CommandContext) {session : ServerSession} {word : Bytes}
    {words : List Bytes} {packet_str : Bytes}
    (slash : s.slash_command k packet_str = some (session, word :: words)) {handler : CommandHandler}
    (known : CommandRegistry.find deps (spared s ctx) k session (word.map tolower) = some handler)
    (allowed : CommandRegistry.refusal session handler (word.map tolower :: words) = none) :
    command deps ctx s k packet_str = handler.execute (word.map tolower :: words) := by
  obtain ⟨packet, parsed, found, _, split_words⟩ := slash_parsed k slash
  simp only [command, parsed, found, CommandRegistry.try_dispatch, split_words, known, allowed]

theorem throws_registered (ctx : CommandContext) {session : ServerSession} {word : Bytes}
    {words : List Bytes} {packet_str : Bytes}
    (slash : s.slash_command k packet_str = some (session, word :: words)) {handler : CommandHandler}
    (known : CommandRegistry.find deps (spared s ctx) k session (word.map tolower) = some handler) :
    (commanded deps ctx s env k packet_str).command_throws =
      ((CommandRegistry.refusal session handler (word.map tolower :: words)).isNone &&
        handler.throws (word.map tolower :: words)) := by
  obtain ⟨packet, parsed, found, _, split_words⟩ := slash_parsed k slash
  simp only [commanded, parsed, found, CommandRegistry.throws, split_words, known, Option.any_some]

section Effects

/-- The effects that write an area, or all of them. -/
def writes_areas : CommandEffect → Bool
  | .write_area _ _ | .write_content _ => true
  | _ => false

/-- The effects that write a session. -/
def writes_session : CommandEffect → Bool
  | .write_session _ _ => true
  | _ => false

theorem calm_effect (s : AOServer) {e : CommandEffect} (apart : writes_areas e = false)
    (beside : writes_session e = false) : Calm s (s.run_effect env e) := by
  cases e with
  | write_session k w => cases beside
  | write_area area state => cases apart
  | write_content c => cases apart
  | count_moderator change =>
    exact calm_update_stats s fun stats => { stats with moderators := stats.moderators + change }
  | _ => exact (still_run_effect env s rfl).calm

theorem calm_closes (throws : Bool) (s : AOServer) (effects : List CommandEffect) :
    Calm (effects.foldl (run_effect env) s) (run_effects env throws s effects) :=
  calm_room (room_run_effects env throws s effects)

theorem calm_effects {effects : List CommandEffect}
    (quiet : ∀ e ∈ effects, writes_areas e = false ∧ writes_session e = false) (s : AOServer) :
    Calm s (effects.foldl (run_effect env) s) := by
  induction effects generalizing s with
  | nil => exact .refl s
  | cons e effects ih =>
    obtain ⟨apart, beside⟩ := quiet e List.mem_cons_self
    exact (calm_effect env s apart beside).trans
      (ih (fun d inside => quiet d (List.mem_cons_of_mem _ inside)) _)

theorem identity_write
    (same : ∀ p, (t.room_.get_session p).map ServerSession.identity =
      (s.room_.get_session p).map ServerSession.identity) {q : UInt64} {w : SessionWrite}
    (keeps : ∀ session, s.room_.get_session q = some session → w.moderator = session.moderator ∧
      w.acl_role = session.acl_role ∧ w.moderator_name = session.moderator_name) (p : UInt64) :
    ((t.run_effect env (.write_session q w)).room_.get_session p).map ServerSession.identity =
      (s.room_.get_session p).map ServerSession.identity := by
  simp only [run_effect, update_session, GameRoom.get_session_update]
  split
  · next here =>
    subst here
    have was := same p
    cases known : s.room_.get_session p with
    | none =>
      rw [known, Option.map_none, Option.map_eq_none_iff] at was
      rw [was]
      rfl
    | some session =>
      obtain ⟨moderator, role, name⟩ := keeps session known
      rw [known] at was
      obtain ⟨live, mine, identity⟩ := Option.map_eq_some_iff.mp was
      simp only [ServerSession.identity, Prod.mk.injEq] at identity
      simp [mine, ServerSession.identity, identity, moderator, role, name]
  · exact same p

theorem calm_tame (calm : Calm s t) (e : CommandEffect) :
    Calm s (t.run_effect env (spare s (tame s e))) := by
  cases e with
  | write_session q w =>
    obtain ⟨w', same, keeps⟩ : ∃ w', spare s (tame s (.write_session q w)) = .write_session q w' ∧
        ∀ session, s.room_.get_session q = some session → w'.moderator = session.moderator ∧
          w'.acl_role = session.acl_role ∧ w'.moderator_name = session.moderator_name := by
      cases known : s.room_.get_session q with
      | none => exact ⟨_, by simp only [tame, known, spare]; rfl, fun _ missing => absurd missing (by simp)⟩
      | some session =>
        refine ⟨_, by simp only [tame, known, spare]; rfl, ?_⟩
        intro other same
        cases same
        exact ⟨rfl, rfl, rfl⟩
    rw [same]
    exact ⟨identity_write env calm.sessions keeps, calm.areas, calm.names⟩
  | write_area area state =>
    refine ⟨fun p => ?_, fun id => ?_, ?_⟩
    · simp only [tame]
      split <;>
      · simp only [spare, run_effect, update_area, GameRoom.get_session,
          (update_area_frame t.room_ area _).1]
        exact calm.sessions p
    · simp only [tame]
      split
      · next absent =>
        simp only [spare, run_effect, update_area, GameRoom.lookup_update_area, calm.names]
        split
        · next named =>
          have missing : s.room_.area_states_.lookup id = none := by
            simpa [GameRoom.find_area_by_name, GameRoom.find_area, named] using absent
          have same := calm.areas id
          rw [missing, Option.map_none, Option.map_eq_none_iff] at same
          rw [same, missing]
          rfl
        · exact calm.areas id
      · next old found =>
        simp only [spare, run_effect, update_area, GameRoom.lookup_update_area, calm.names]
        split
        · next named =>
          have here : s.room_.area_states_.lookup id = some old := by
            simpa [GameRoom.find_area_by_name, GameRoom.find_area, named] using found
          have same := calm.areas id
          rw [here] at same ⊢
          obtain ⟨mine, there, _⟩ := Option.map_eq_some_iff.mp same
          rw [there]
          rfl
        · exact calm.areas id
    · simp only [tame]
      split <;>
      · simp only [spare, run_effect, update_area, GameRoom.names_update_area]
        exact calm.names
  | write_content c => exact ⟨calm.sessions, fun _ => rfl, rfl⟩
  | _ => exact calm.trans (calm_effect env t rfl rfl)

theorem calm_others (calm : Calm s t) (effects : List CommandEffect) :
    Calm s (((effects.map (tame s)).map (spare s)).foldl (run_effect env) t) := by
  induction effects generalizing t with
  | nil => exact calm
  | cons e effects ih => exact ih (calm_tame env calm e)

theorem calm_outside (s : AOServer) (ctx : CommandContext) (effect : CommandEffect) :
    Calm s (commandStep deps s (.ao ctx (.outside env effect))) :=
  (calm_tame env (.refl s) effect).trans (calm_closes env false s [spare s (tame s effect)])

end Effects

section Keyed

/-- Sessions are stored under their own ids. -/
def Keyed (s : AOServer) : Prop := ∀ k session, s.room_.get_session k = some session → session.client_id = k

theorem Keyed.mem_sessions (keyed : Keyed s) {session : ServerSession} :
    session ∈ s.room_.sessions ↔ s.room_.get_session session.client_id = some session := by
  rw [GameRoom.sessions, List.mem_map]
  constructor
  · rintro ⟨⟨q, found⟩, listed, rfl⟩
    have known : s.room_.get_session q = some found := (s.room_.sessions_.lists.mem q found).mp listed
    rwa [keyed q found known]
  · intro found
    exact ⟨_, (s.room_.sessions_.lists.mem session.client_id session).mpr found, rfl⟩

theorem Keyed.of (keyed : Keyed s) (ids : ∀ q,
    (t.room_.get_session q).map (·.client_id) = (s.room_.get_session q).map (·.client_id) ∨
      (t.room_.get_session q).map (·.client_id) = some q ∨ t.room_.get_session q = none) : Keyed t := by
  intro q session found
  have ids := ids q
  rw [found] at ids
  rcases ids with kept | own | gone
  · obtain ⟨old, was, id⟩ := Option.map_eq_some_iff.mp kept.symm
    exact id.symm.trans (keyed q old was)
  · exact Option.some.inj own
  · cases gone

theorem Calm.ids (calm : Calm s t) (q : UInt64) :
    (t.room_.get_session q).map (·.client_id) = (s.room_.get_session q).map (·.client_id) := by
  have same := congrArg (Option.map Prod.fst) (calm.sessions q)
  rw [Option.map_map, Option.map_map] at same
  exact same

theorem ids_update (r : GameRoom) (k q : UInt64) {f : ServerSession → ServerSession}
    (keeps : ∀ x, (f x).client_id = x.client_id) :
    ((r.update_session k f).get_session q).map (·.client_id) = (r.get_session q).map (·.client_id) := by
  rw [GameRoom.get_session_update]
  split
  · next here =>
    rw [here, Option.map_map]
    exact congrArg (Option.map · _) (funext keeps)
  · rfl

theorem ids_effect (s : AOServer) (e : CommandEffect) (q : UInt64) :
    ((s.run_effect env e).room_.get_session q).map (·.client_id) =
      (s.room_.get_session q).map (·.client_id) := by
  cases e with
  | write_session p w => exact ids_update s.room_ p q fun _ => rfl
  | write_area area state =>
    simp only [run_effect, update_area, GameRoom.get_session, (update_area_frame s.room_ area _).1]
  | write_content c => rfl
  | _ => exact (calm_effect env s rfl rfl).ids q

theorem ids_effects (effects : List CommandEffect) (s : AOServer) (q : UInt64) :
    ((effects.foldl (run_effect env) s).room_.get_session q).map (·.client_id) =
      (s.room_.get_session q).map (·.client_id) := by
  induction effects generalizing s with
  | nil => rfl
  | cons e effects ih => exact (ih _).trans (ids_effect env s e q)

theorem ids_packet (s : AOServer) (packet_str : Bytes) (q : UInt64) :
    ((process_packet deps env s k packet_str).room_.get_session q).map (·.client_id) =
      (s.room_.get_session q).map (·.client_id) := by
  cases slash : s.slash_command k packet_str with
  | none => exact (calm_packet deps env k slash).ids q
  | some player =>
    obtain ⟨t, same, room⟩ := room_slash deps env k slash
    rw [room, ids_effects, same]

theorem ids_bind (strHash : Bytes → BitVec 64) (r : GameRoom) (token auth : Bytes)
    (entry : AuthTokenEntry) (q : UInt64) :
    ((r.bind_session strHash token auth entry).get_session q).map (·.client_id) =
      (r.get_session q).map (·.client_id) := by
  unfold GameRoom.bind_session
  cases r.token_index_.find strHash token with
  | none => rfl
  | some client_id =>
    dsimp only
    cases r.get_session client_id with
    | none => rfl
    | some session => exact ids_update r client_id q fun _ => rfl

theorem room_expired (s : AOServer) (ttl_seconds : Int) (idle : ServerSession → Bool) :
    (commandStep deps s (.expire ttl_seconds idle)).room_ =
      (s.room_.expire_sessions deps.strHash ttl_seconds idle).2 := by
  simp only [commandStep, sessionStep]
  split
  · rfl
  · exact room_broadcast_chars_taken _ _

theorem Keyed.step (keyed : Keyed s) (event : SessionEvent) : Keyed (commandStep deps s event) := by
  refine keyed.of fun q => ?_
  cases event with
  | ao ctx input =>
    cases input with
    | connected env k =>
      have made : ((commandStep deps s (.ao ctx (.connected env k))).room_.get_session q).map
          (·.client_id) = ((s.room_.create_session k (bytes "ao2")).get_session q).map (·.client_id) :=
        (calm_connected env k s).ids q
      rw [made, GameRoom.get_session_create]
      split
      · next same => exact .inr (.inl (congrArg some same.symm))
      · exact .inl rfl
    | disconnected k =>
      have left : (commandStep deps s (.ao ctx (.disconnected k))).room_.get_session q =
          if q = k then none else s.room_.get_session q := (room_disconnected deps k s).1 q
      rw [left]
      split
      · exact .inr (.inr rfl)
      · exact .inl rfl
    | buffered k buf => exact .inl ((calm_update_proto s k _).ids q)
    | packet env k packet_str => exact .inl (ids_packet deps _ k s packet_str q)
    | outside env effect =>
      exact .inl (((calm_closes env false s _).ids q).trans (ids_effect env s _ q))
  | nx_create k token client =>
    have made := congrArg (Option.map Prod.fst) (identity_nx_create deps k q s.room_ token client)
    rw [Option.map_map] at made
    split at made
    · next same => exact .inr (.inl (made.trans (congrArg some same.symm)))
    · rw [Option.map_map] at made
      exact .inl made
  | nx_bind token auth entry => exact .inl (ids_bind deps.strHash s.room_ token auth entry q)
  | nx_destroy k =>
    have left : (commandStep deps s (.nx_destroy k)).room_.get_session q =
        if q = k then none else s.room_.get_session q := GameRoom.get_session_destroy _ _ _ _
    rw [left]
    split
    · exact .inr (.inr rfl)
    · exact .inl rfl
  | expire ttl_seconds idle =>
    rw [room_expired, (room_expire deps.strHash s.room_ ttl_seconds idle).1]
    split
    · exact .inr (.inr rfl)
    · exact .inl rfl

end Keyed

end AOServer

end AoSdl
