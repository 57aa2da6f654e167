import AoSdl.HandshakeGate
import AoSdl.ModeratorCommands
import AoSdl.SessionWeights

/-! The statistics of the sessions through every run of the server and of the REST interface. Only a
repeated `RD` counts a session that is counted already. -/
namespace AoSdl
open Lib.Bindings Lib.Runs

namespace AOServer
open GameRoom

variable (deps : Deps) (env : Env) (k : UInt64) {s t : AOServer}

theorem Still.drift (still : Still s t) : t.room_.drift = s.room_.drift := by
  have same : counted t.tallies = counted s.tallies := congrArg counted still.tallies
  exact drift_of_same still.roles same

theorem drift_update_proto (f : AOProtocolState → AOProtocolState) :
    (s.update_proto k f).room_.drift = s.room_.drift := by rw [(update_proto_room s k f).1]

theorem drift_close_client (env : Env) : (s.close_client env k).room_.drift = s.room_.drift := by
  unfold close_client close
  split
  · split <;> rfl
  · rfl

theorem drift_HI (session : ServerSession) (hardware_id : Bytes) :
    (AOPacketHI.handle_server deps env s k session hardware_id).room_.drift = s.room_.drift := by
  have greeted := AOPacketHI.handle_server_cases deps env s k session hardware_id
  generalize AOPacketHI.handle_server deps env s k session hardware_id = t at greeted ⊢
  have noted : (AOPacketHI.noted deps env s k hardware_id).room_.drift = s.room_.drift := by
    have kept : ∀ x, (AOPacketHI.identified deps env k hardware_id x).roles = x.roles ∧
        (AOPacketHI.identified deps env k hardware_id x).identity = x.identity := by
      intro x
      simp only [AOPacketHI.identified]
      split <;> exact ⟨rfl, rfl⟩
    exact (still_update_session _ k kept).drift.trans (drift_update_proto k _)
  cases greeted with
  | early other reply => exact (still_send _ _ _).drift
  | turned_away connected turned reply =>
    exact (drift_close_client k env).trans ((still_send _ _ _).drift.trans noted)
  | identified connected clean free replies =>
    exact (drift_update_proto k _).trans
      ((Still.foldl (fun s p => still_send s k p) replies _).drift.trans noted)

theorem drift_ID (fields : List Bytes) :
    (AOPacketIDClient.handle_server s k fields).room_.drift = s.room_.drift := by
  unfold AOPacketIDClient.handle_server
  split
  · exact (still_send _ _ _).drift
  · have told := still_update_session s k (f := fun session => { session with
      client_software := AOPacketIDClient.software fields ++ bytes " " ++
        AOPacketIDClient.version fields }) fun _ => ⟨rfl, rfl⟩
    exact (drift_update_proto k _).trans
      ((told.trans (still_send _ k _)).trans (still_send _ k _)).drift

/-- Only an `RD` from a session that is joined already moves a counter alone. -/
theorem drift_RD {session : ServerSession} (found : s.room_.get_session k = some session) :
    (AOPacketRD.handle_server s k session).room_.drift = s.room_.drift +
      if (s.get_protocol_state k).isSome && session.joined then (1, 0, 0, 0) else 0 := by
  unfold AOPacketRD.handle_server
  cases known : s.get_protocol_state k with
  | none => simp
  | some proto =>
    have told := ((still_greet (AOPacketRD.join s k) k session).trans
      (still_announce_area _ k session)).trans (still_send_motd _ k)
    have room : (AOPacketRD.join s k).room_ =
        { s.room_.update_session k fun session => { session with joined := true } with
          stats := { s.room_.stats with joined := s.room_.stats.joined + 1 } } := by
      simp only [AOPacketRD.join, update_stats, update_session, (update_proto_room s k _).1]
      rfl
    have joined : (AOPacketRD.join s k).room_.drift = s.room_.drift +
        if session.joined then (1, 0, 0, 0) else 0 := by
      rw [room]
      exact drift_join found rfl rfl (by simp [counted])
    simpa using told.drift.trans joined

theorem drift_connected : (on_client_connected env s k).room_.drift = s.room_.drift +
    share (weight ∘ ServerSession.roles) (s.room_.get_session k) := by
  have made := drift_create (r := s.room_) k (bytes "ao2")
  unfold on_client_connected
  dsimp only
  rw [← made]
  refine (still_send _ _ _).drift.trans ?_
  split
  · split <;> rfl
  · refine (still_update_session _ k (f := fun session =>
      { session with ip_address := env.client_addr k }) fun _ => ⟨rfl, rfl⟩).drift.trans ?_
    split <;> rfl

theorem drift_disconnected : (on_client_disconnected deps s k).room_.drift = s.room_.drift := by
  obtain ⟨t, -, sessions, stats, last⟩ := disconnected_apart deps s k
  have left : t.room_.drift = s.room_.drift :=
    drift_of_same (fun q => by simp only [get_session, sessions]) (congrArg counted stats)
  exact last.drift.trans ((drift_destroy deps.strHash k).trans left)

/-- No command but `login`, `logout` and `rootpass` assigns `moderator` or counts. -/
def spare (s : AOServer) : CommandEffect → CommandEffect
  | .count_moderator _ => .count_moderator 0
  | .write_session k w => .write_session k
    { w with moderator := ((s.room_.get_session k).map (·.moderator)).getD w.moderator }
  | effect => effect

def spared (s : AOServer) (ctx : CommandContext) : CommandContext :=
  { ctx with find := fun name => (ctx.find name).map fun handler =>
      { handler with execute := fun args => (handler.execute args).map (spare s) } }

/-- What the packet's command does, if it is one. -/
def command (deps : Deps) (ctx : CommandContext) (s : AOServer) (k : UInt64) (packet_str : Bytes) :
    List CommandEffect :=
  match AOPacket.deserialize packet_str, s.room_.get_session k with
  | some packet, some session =>
    CommandRegistry.try_dispatch deps (spared s ctx) k session (AOPacketCT.message packet.fields)
  | _, _ => []

/-- The environment with the command of the packet. -/
def commanded (deps : Deps) (ctx : CommandContext) (s : AOServer) (env : Env) (k : UInt64) (packet_str : Bytes) :
    Env :=
  { env with
    command := command deps ctx s k packet_str
    command_throws := match AOPacket.deserialize packet_str, s.room_.get_session k with
      | some packet, some session =>
        CommandRegistry.throws deps (spared s ctx) k session (AOPacketCT.message packet.fields)
      | _, _ => false }

/-- The packet is an `RD` from a session that is joined already. -/
def rejoins (s : AOServer) (k : UInt64) (packet_str : Bytes) : Bool :=
  match AOPacket.deserialize packet_str, s.room_.get_session k with
  | some packet, some session => PacketFactory.find packet.header = some .RD &&
    ((s.get_protocol_state k).isSome && session.joined)
  | _, _ => false

structure Alike (s t : AOServer) : Prop where
  roles : ∀ k, t.roles k = s.roles k
  counted : counted t.room_.stats = counted s.room_.stats

theorem Alike.drift (alike : Alike s t) : t.room_.drift = s.room_.drift :=
  drift_of_same alike.roles alike.counted

theorem Still.alike {u : AOServer} (still : Still t u) (alike : Alike s t) : Alike s u := by
  have same : GameRoom.counted u.tallies = GameRoom.counted t.tallies :=
    congrArg GameRoom.counted still.tallies
  exact ⟨fun k => (still.roles k).trans (alike.roles k), Eq.trans same alike.counted⟩

theorem alike_spare (alike : Alike s t) (e : CommandEffect) : Alike s (t.run_effect env (spare s e)) := by
  cases e with
  | write_session q w =>
    refine ⟨fun p => ?_, alike.counted⟩
    simp only [spare, run_effect]
    rw [roles_update_session]
    split
    · next here =>
      subst here
      have was := alike.roles p
      unfold AOServer.roles at was ⊢
      cases mine : t.room_.get_session p with
      | none => rw [mine] at was; exact was
      | some x =>
        rw [mine] at was
        obtain ⟨y, theirs, same⟩ := Option.map_eq_some_iff.mp was.symm
        simp only [ServerSession.roles, Prod.mk.injEq] at same
        simp [theirs, ServerSession.roles, same]
    · exact alike.roles p
  | write_area area state =>
    obtain ⟨sessions, stats⟩ := update_area_frame t.room_ area fun _ => state
    refine ⟨fun q => Eq.trans ?_ (alike.roles q), Eq.trans (congrArg counted stats) alike.counted⟩
    exact congrArg (fun m => (SessionMap.find m q).map ServerSession.roles) sessions
  | write_content c => exact ⟨alike.roles, alike.counted⟩
  | count_moderator change =>
    have same : GameRoom.counted { t.room_.stats with moderators := t.room_.stats.moderators + 0 } =
        GameRoom.counted t.room_.stats := by simp [GameRoom.counted]
    exact ⟨alike.roles, same.trans alike.counted⟩
  | _ => exact (still_run_effect env t rfl).alike alike

theorem alike_spares (alike : Alike s t) (effects : List CommandEffect) :
    Alike s ((effects.map (spare s)).foldl (run_effect env) t) := by
  induction effects generalizing t with
  | nil => exact alike
  | cons e effects ih => exact ih (alike_spare env alike e)

/-- What the commands on moderators do: they tell the client, they write the session and leave it the
moderator it is, or they make it one or none and count that. -/
inductive Balanced (k : UInt64) (session : ServerSession) : List CommandEffect → Prop
  | tell (message : Bytes) : Balanced k session [.send_system_message k message]
  | write (w : SessionWrite) (message : Bytes) (keeps : w.moderator = session.moderator) :
    Balanced k session [.write_session k w, .send_system_message k message]
  | moderate (w : SessionWrite) (message : Bytes) (changes : session.moderator ≠ w.moderator) :
    Balanced k session [.write_session k w, .count_moderator (if w.moderator then 1 else -1),
      .send_system_message k message]

theorem Balanced.drift {session : ServerSession} {effects : List CommandEffect}
    (balanced : Balanced k session effects) (found : s.room_.get_session k = some session) :
    (effects.foldl (run_effect env) s).room_.drift = s.room_.drift := by
  cases balanced with
  | tell message => rfl
  | write w message keeps =>
    refine (still_send _ _ _).drift.trans ((drift_write found rfl).trans ?_)
    have same : (s.run_effect env (.write_session k w)).room_.stats = s.room_.stats := rfl
    rw [same, sub_self, add_zero]
    simp [ServerSession.roles, keeps]
  | moderate w message changes =>
    refine (still_send _ _ _).drift.trans ((drift_moderate w.moderator found rfl rfl ?_).trans ?_)
    · simp [run_effect, update_stats, AOServer.update_session, GameRoom.update_session, counted]
    · rw [if_neg changes, add_zero]

theorem login_balanced (ctx : CommandContext) (session : ServerSession) (args : List Bytes) :
    Balanced k session (LoginCommand.execute deps ctx k session args) := by
  unfold LoginCommand.execute
  split
  · exact .tell _
  · next guest =>
    have guest : session.moderator = false := by simpa using guest
    dsimp only
    split
    · exact .tell _
    · split
      · unfold LoginCommand.login_advanced
        split
        · exact .tell _
        split
        · exact .tell _
        split
        · exact .write _ _ rfl
        split
        · exact .write _ _ rfl
        · exact .moderate _ _ (by simp [guest])
      · unfold LoginCommand.login_simple
        dsimp only
        split
        · exact .tell _
        split
        · exact .write _ _ rfl
        · exact .moderate _ _ (by simp [guest])

theorem logout_balanced {session : ServerSession} (moderator : session.moderator = true) :
    Balanced k session (LogoutCommand.execute k session) := .moderate _ _ (by simp [moderator])

theorem rootpass_balanced (ctx : CommandContext) {session : ServerSession} (args : List Bytes)
    (moderator : session.moderator = true) :
    Balanced k session (RootPassCommand.execute ctx k session args) := by
  unfold RootPassCommand.execute
  split
  · exact .tell _
  split
  · exact .tell _
  split
  · exact .tell _
  split
  · exact .tell _
  · exact .moderate _ _ (by simp [moderator])

theorem moderator_of_allowed {session : ServerSession} {handler : CommandHandler} {args : List Bytes}
    (allowed : CommandRegistry.refusal session handler args = none)
    (gated : handler.requires_moderator = true) : session.moderator = true := by
  by_contra guest
  have guest : session.moderator = false := by simpa using guest
  simp only [CommandRegistry.refusal, guest, gated] at allowed
  split at allowed <;> simp at allowed

theorem drift_command (ctx : CommandContext) {session : ServerSession}
    (found : s.room_.get_session k = some session) (message : Bytes) (room : t.room_ = s.room_) :
    ((CommandRegistry.try_dispatch deps (spared s ctx) k session message).foldl (run_effect env)
      t).room_.drift = s.room_.drift := by
  have found' : t.room_.get_session k = some session := room ▸ found
  have balances {effects : List CommandEffect} (balanced : Balanced k session effects) :
      (effects.foldl (run_effect env) t).room_.drift = s.room_.drift := by
    rw [balanced.drift env k found', room]
  have start : Alike s t := ⟨fun q => by rw [AOServer.roles, room, AOServer.roles], by rw [room]⟩
  unfold CommandRegistry.try_dispatch
  split
  · exact start.drift
  · next word words _ =>
    dsimp only
    split
    · exact balances (.tell _)
    · next handler known =>
      split
      · exact balances (.tell _)
      · next allowed =>
        unfold CommandRegistry.find at known
        split at known
        · cases known
          exact balances (login_balanced _ _ _ _ _)
        split at known
        · cases known
          exact balances (logout_balanced k (moderator_of_allowed allowed rfl))
        split at known
        · cases known
          exact balances (rootpass_balanced k _ _ (moderator_of_allowed allowed rfl))
        · obtain ⟨other, _, rfl⟩ := Option.map_eq_some_iff.mp known
          exact (alike_spares env start _).drift

theorem drift_handle_server (ctx : CommandContext) {packet : AOPacket} {session : ServerSession}
    {packet_str : Bytes} (parsed : AOPacket.deserialize packet_str = some packet)
    (found : s.room_.get_session k = some session) (room : t.room_ = s.room_)
    (proto : t.get_protocol_state k = s.get_protocol_state k) (type : PacketType) :
    (handle_server deps (commanded deps ctx s env k packet_str) t k session type packet.fields).1.room_.drift = s.room_.drift +
      if type = .RD && ((s.get_protocol_state k).isSome && session.joined) then (1, 0, 0, 0) else 0 := by
  have found' : t.room_.get_session k = some session := room ▸ found
  by_cases handshake : Handshake type
  · rcases handshake with rfl | rfl | rfl
    · rw [← room]
      simpa [handle_server] using drift_HI deps _ k session _
    · rw [← room]
      simpa [handle_server] using drift_ID k _
    · rw [← room, ← proto]
      simpa [handle_server] using drift_RD k found'
  · have other : type ≠ .RD := fun same => handshake (.inr (.inr same))
    simp only [other, decide_false, Bool.false_and, Bool.false_eq_true, if_false, add_zero]
    by_cases spoken : type = .CT → try_dispatch (AOPacketCT.message packet.fields) = false
    · rw [(still_handle_server _ k session packet.fields deps t handshake spoken).drift, room]
    · simp only [Classical.not_imp, Bool.not_eq_false] at spoken
      obtain ⟨rfl, slash⟩ := spoken
      simp only [handle_server, AOPacketCT.handle_server, slash, if_true]
      split
      · rw [room]
      · refine (still_run_effects _ _ _ _).drift.trans ?_
        simp only [commanded, command, parsed, found]
        exact drift_command deps _ k ctx found _ room

theorem drift_packet (ctx : CommandContext) (packet_str : Bytes) :
    (process_packet deps (commanded deps ctx s env k packet_str) s k packet_str).room_.drift = s.room_.drift +
      if s.rejoins k packet_str then (1, 0, 0, 0) else 0 := by
  cases parsed : AOPacket.deserialize packet_str with
  | none => simpa [process_packet, rejoins, parsed] using (still_send s k _).drift
  | some packet =>
    generalize env' : commanded deps ctx s env k packet_str = issued
    suffices handled : (dispatch deps issued s k packet).1.room_.drift = s.room_.drift +
        if s.rejoins k packet_str then (1, 0, 0, 0) else 0 by
      rcases process_packet_cases deps issued s k parsed with same | ⟨reply, same⟩
      · rw [same, handled]
      · rw [same]
        exact (still_send _ _ _).drift.trans handled
    unfold rejoins
    rw [parsed]
    have handled := dispatch_cases deps issued s k packet
    generalize dispatch deps issued s k packet = result at handled ⊢
    have entered : (s.emit (.dispatch k packet)).room_ = s.room_ := rfl
    cases handled with
    | stranger absent => simp [entered, absent]
    | unknown found unnamed reply =>
      simpa [entered, found, unnamed] using (still_send (s.emit (.dispatch k packet)) k _).drift
    | @handler session type found named =>
      simp only [found, named, Option.some.injEq, ← env']
      exact drift_handle_server (t := s.emit (.dispatch k packet)) deps env k ctx parsed found rfl rfl type

end AOServer

/-- What changes the sessions or the statistics. -/
inductive SessionEvent where
  | ao (ctx : CommandContext) (input : AOServer.AOInput)
  | nx_create (client_id : UInt64) (token : Bytes) (client : NXClient)
  | nx_bind (token auth : Bytes) (entry : AuthTokenEntry)
  | nx_destroy (client_id : UInt64)
  | expire (ttl_seconds : Int) (idle : ServerSession → Bool)

namespace AOServer
open GameRoom

/-- Commands come from the registry; the operator's calls assign no `moderator`. -/
def ruled (deps : Deps) (ctx : CommandContext) (s : AOServer) : AOInput → AOInput
  | .packet env k packet_str => .packet (commanded deps ctx s env k packet_str) k packet_str
  | .outside env effect => .outside env (spare s effect)
  | input => input

def sessionStep (deps : Deps) (s : AOServer) : SessionEvent → AOServer
  | .ao ctx input => aoStep deps s (ruled deps ctx s input)
  | .nx_create client_id token client =>
    { s with room_ := NXServer.create_session deps.sha256 deps.strHash s.room_ client_id token client }
  | .nx_bind token auth entry => { s with room_ := s.room_.bind_session deps.strHash token auth entry }
  | .nx_destroy client_id => { s with room_ := s.room_.destroy_session deps.strHash client_id }
  | .expire ttl_seconds idle =>
    let (expired, room_) := s.room_.expire_sessions deps.strHash ttl_seconds idle
    let s := { s with room_ }
    if expired.isEmpty then s else s.broadcast_chars_taken s.room_.char_taken

/-- A new session has an id of its own, `RD` comes from a session that is not joined yet, and a token
is bound to a session that is no moderator. -/
def Once (deps : Deps) (s : AOServer) : SessionEvent → Prop
  | .ao _ (.connected _ k) => s.room_.get_session k = none
  | .ao _ (.packet _ k packet_str) => s.rejoins k packet_str = false
  | .nx_create k _ _ => s.room_.get_session k = none
  | .nx_bind token _ _ => (s.room_.find_session_by_token deps.strHash token).any (·.moderator) = false
  | _ => True

instance (deps : Deps) (s : AOServer) : (event : SessionEvent) → Decidable (Once deps s event)
  | .ao _ (.connected _ k) => inferInstanceAs (Decidable (s.room_.get_session k = none))
  | .ao _ (.packet _ k packet_str) => inferInstanceAs (Decidable (s.rejoins k packet_str = false))
  | .nx_create k _ _ => inferInstanceAs (Decidable (s.room_.get_session k = none))
  | .nx_bind token _ _ => inferInstanceAs
    (Decidable ((s.room_.find_session_by_token deps.strHash token).any (·.moderator) = false))
  | .ao _ (.disconnected _) | .ao _ (.buffered _ _) | .ao _ (.outside _ _) | .nx_destroy _
  | .expire _ _ => inferInstanceAs (Decidable True)

theorem share_weight_eq_zero (session : Option ServerSession) :
    share (weight ∘ ServerSession.roles) session = 0 ↔ session = none := by
  cases session with
  | none => simp
  | some session =>
    simp only [share_some, reduceCtorEq, iff_false]
    intro zero
    have ao := congrArg (fun t : Tally => t.2.2.1 + t.2.2.2) zero
    simp only [weight, Function.comp_apply, Prod.snd_zero, Prod.fst_zero] at ao
    split at ao <;> simp at ao

theorem drift_step_iff (deps : Deps) (s : AOServer) (event : SessionEvent) :
    (sessionStep deps s event).room_.drift = s.room_.drift ↔ Once deps s event := by
  have exactly {t : Tally} {P : Prop} (drifts : (sessionStep deps s event).room_.drift = s.room_.drift + t)
      (zero : t = 0 ↔ P) : (sessionStep deps s event).room_.drift = s.room_.drift ↔ P := by
    rw [drifts, add_eq_left, zero]
  have never (same : (sessionStep deps s event).room_.drift = s.room_.drift) :
      (sessionStep deps s event).room_.drift = s.room_.drift ↔ True := iff_true_intro same
  cases event with
  | ao ctx input =>
    cases input with
    | connected env k => exact exactly (drift_connected env k) (share_weight_eq_zero _)
    | disconnected k => exact never (drift_disconnected deps k)
    | buffered k buf => exact never (drift_update_proto k _)
    | packet env k packet_str => exact exactly (drift_packet deps env k ctx packet_str) (by simp [Once])
    | outside env effect =>
      exact never ((still_run_effects env false s [spare s effect]).alike
        (alike_spare env ⟨fun _ => rfl, rfl⟩ effect)).drift
  | nx_create k token client => exact exactly (drift_nx_create _ _ _ _ _) (share_weight_eq_zero _)
  | nx_bind token auth entry => exact exactly (drift_bind _ _ _ _) (by simp [Once])
  | nx_destroy k => exact never (drift_destroy _ _)
  | expire ttl_seconds idle =>
    refine never ?_
    simp only [sessionStep]
    split
    · exact drift_expire _ _ _
    · exact (still_broadcast_chars_taken _ _).drift.trans (drift_expire _ _ _)

/-- In a run that starts with statistics that agree with the sessions, they always agree exactly if
every step counts a session once. -/
theorem stats_agree_iff (deps : Deps) {s : AOServer} (agree : StatsAgree s.room_)
    (events : List SessionEvent) :
    Always (sessionStep deps) (fun s => StatsAgree s.room_) s events ↔
      Throughout (sessionStep deps) (Once deps) s events := by
  refine always_iff_throughout (I := fun _ => True) (Q := fun s : AOServer => StatsAgree s.room_)
    (fun _ _ _ _ _ => trivial) ?_ trivial agree events
  intro s event _ agree
  rw [agree_iff] at agree ⊢
  rw [← drift_step_iff, agree]

/-- A player logs in and out, and a REST client comes and goes. -/
def mixedTraffic : List SessionEvent :=
  let simple : CommandContext := { mod_password := bytes "pw" }
  let entry : AuthTokenEntry := { username := bytes "mod", acl := bytes "SUPER" }
  [.ao {} (.connected {} 7), .ao {} (.packet {} 7 (bytes "RD#%")),
    .ao simple (.packet {} 7 (bytes "CT#a#/login pw#%")), .nx_create 9 (bytes "s") {},
    .nx_bind (bytes "s") (bytes "t") entry, .ao simple (.packet {} 7 (bytes "CT#a#/logout#%")),
    .nx_destroy 9, .ao {} (.disconnected 7)]

theorem mixed_traffic_agrees :
    (run (sessionStep plainDeps) {} (mixedTraffic.take 5)).room_.stats.moderators = 2 ∧
    Always (sessionStep plainDeps) (fun s : AOServer => StatsAgree s.room_) {} mixedTraffic := by
  refine ⟨by decide, (stats_agree_iff plainDeps ⟨rfl, rfl, rfl, rfl⟩ mixedTraffic).mpr ?_⟩
  decide

/-- A client that sends `RD` twice is counted twice. -/
theorem repeated_join_counts_twice :
    ¬ Always (sessionStep plainDeps) (fun s : AOServer => StatsAgree s.room_) {}
      [.ao {} (.connected {} 7), .ao {} (.packet {} 7 (bytes "RD#%")),
        .ao {} (.packet {} 7 (bytes "RD#%"))] := by
  intro always
  have counted := always.2.2.2.joined
  exact absurd counted (by decide)

end AOServer

end AoSdl
