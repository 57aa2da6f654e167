import AoSdl.Lib.Entries
import AoSdl.ServerPacketBehavior

/-! What the handlers leave alone. Only `HI`, `ID` and `RD` write a protocol state, only `RD`
makes a session joined, and no handler touches a receive buffer or dispatches a packet. -/
namespace AoSdl

/-- What the statistics count of a session. -/
def ServerSession.roles (session : ServerSession) : Bool × Bool × Bytes :=
  (session.joined, session.moderator, session.protocol)

/-- Who a session is, and what it may do. -/
def ServerSession.identity (session : ServerSession) : UInt64 × Bool × Bytes × Bytes × Bytes :=
  (session.client_id, session.moderator, session.acl_role, session.moderator_name,
    session.auth_token_id)

/-- Who runs an area, and whom it admits. -/
def AreaState.casting (area : AreaState) : AreaLockMode × List UInt64 × List UInt64 :=
  (area.lock_mode, area.cm_owners, area.invited)

theorem GameRoom.lookup_update_area (r : GameRoom) (area : Bytes) (f : AreaState → AreaState)
    (id : Bytes) : (r.update_area area f).area_states_.lookup id =
      if r.area_name_to_id_.lookup area = some id then (r.area_states_.lookup id).map f
      else r.area_states_.lookup id := by
  unfold GameRoom.update_area
  split
  · next unknown => simp [unknown]
  · next known named =>
    rw [named]
    split
    · next missing =>
      by_cases same : known = id
      · subst same
        simp [missing]
      · simp [same]
    · next state found =>
      rw [Lib.Entries.lookup_replace]
      by_cases same : known = id
      · subst same
        simp [found]
      · simp [same, Ne.symm same]

theorem GameRoom.names_update_area (r : GameRoom) (area : Bytes) (f : AreaState → AreaState) :
    (r.update_area area f).area_name_to_id_ = r.area_name_to_id_ := by
  unfold GameRoom.update_area
  split
  · rfl
  · split <;> rfl

namespace AOServer

def buffer (s : AOServer) (k : UInt64) : Option Bytes :=
  (s.get_protocol_state k).map (·.incomplete_buf)

def joined (s : AOServer) (k : UInt64) : Option Bool := (s.room_.get_session k).map (·.joined)

def dispatched (s : AOServer) : List (UInt64 × AOPacket) :=
  s.log.filterMap fun
    | .dispatch client_id packet => some (client_id, packet)
    | _ => none

/-- The clients whose connection a handler closed on the spot. -/
def closed (s : AOServer) : List UInt64 :=
  s.log.filterMap fun
    | .close .immediate client_id => some client_id
    | _ => none

def roles (s : AOServer) (k : UInt64) : Option (Bool × Bool × Bytes) :=
  (s.room_.get_session k).map ServerSession.roles

/-- The statistics of the sessions. -/
def tallies (s : AOServer) : RoomStats := { s.room_.stats with chars_taken := 0 }

/-- The sessions' identities and the areas' castings stay. -/
structure Calm (s t : AOServer) : Prop where
  sessions : ∀ k, (t.room_.get_session k).map ServerSession.identity =
    (s.room_.get_session k).map ServerSession.identity
  areas : ∀ id, (t.room_.area_states_.lookup id).map AreaState.casting =
    (s.room_.area_states_.lookup id).map AreaState.casting
  names : t.room_.area_name_to_id_ = s.room_.area_name_to_id_

structure Still (s t : AOServer) : Prop where
  calm : Calm s t
  proto : t.proto_state_ = s.proto_state_
  roles : ∀ k, t.roles k = s.roles k
  tallies : t.tallies = s.tallies
  dispatched : t.dispatched = s.dispatched
  closed : t.closed = s.closed

/-- The weaker law that slash commands keep as well. -/
structure Steady (s t : AOServer) : Prop where
  proto : t.proto_state_ = s.proto_state_
  joined : ∀ k, t.joined k = s.joined k
  dispatched : t.dispatched = s.dispatched

/-- What is left of it in the handshake. -/
structure Framed (s t : AOServer) : Prop where
  buffer : ∀ k, t.buffer k = s.buffer k
  dispatched : t.dispatched = s.dispatched

variable {s t u : AOServer}

theorem joined_eq_roles (s : AOServer) (k : UInt64) : s.joined k = (s.roles k).map (·.1) := by
  unfold joined roles
  rw [Option.map_map]
  rfl

theorem Calm.refl (s : AOServer) : Calm s s := ⟨fun _ => rfl, fun _ => rfl, rfl⟩

theorem Calm.trans (first : Calm s t) (second : Calm t u) : Calm s u :=
  ⟨fun k => (second.sessions k).trans (first.sessions k),
    fun id => (second.areas id).trans (first.areas id), second.names.trans first.names⟩

theorem calm_room (same : t.room_ = s.room_) : Calm s t :=
  ⟨fun _ => by rw [same], fun _ => by rw [same], by rw [same]⟩

theorem Still.refl (s : AOServer) : Still s s := ⟨.refl s, rfl, fun _ => rfl, rfl, rfl, rfl⟩

theorem Still.trans (first : Still s t) (second : Still t u) : Still s u where
  calm := first.calm.trans second.calm
  proto := second.proto.trans first.proto
  roles k := (second.roles k).trans (first.roles k)
  tallies := second.tallies.trans first.tallies
  dispatched := second.dispatched.trans first.dispatched
  closed := second.closed.trans first.closed

theorem Still.steady (still : Still s t) : Steady s t where
  proto := still.proto
  joined k := by rw [joined_eq_roles, still.roles, joined_eq_roles]
  dispatched := still.dispatched

theorem Steady.refl (s : AOServer) : Steady s s := ⟨rfl, fun _ => rfl, rfl⟩

theorem Steady.trans (first : Steady s t) (second : Steady t u) : Steady s u :=
  ⟨second.proto.trans first.proto, fun k => (second.joined k).trans (first.joined k),
    second.dispatched.trans first.dispatched⟩

theorem Framed.refl (s : AOServer) : Framed s s := ⟨fun _ => rfl, rfl⟩

theorem Framed.trans (first : Framed s t) (second : Framed t u) : Framed s u :=
  ⟨fun k => (second.buffer k).trans (first.buffer k), second.dispatched.trans first.dispatched⟩

theorem Steady.framed (steady : Steady s t) : Framed s t :=
  ⟨fun k => by simp only [AOServer.buffer, get_protocol_state, steady.proto], steady.dispatched⟩

theorem Still.foldl {α : Type} {f : AOServer → α → AOServer} (each : ∀ s a, Still s (f s a))
    (l : List α) (s : AOServer) : Still s (l.foldl f s) := by
  induction l generalizing s with
  | nil => exact .refl s
  | cons a l ih => exact (each s a).trans (ih (f s a))

theorem Steady.foldl {α : Type} {f : AOServer → α → AOServer} (each : ∀ s a, Steady s (f s a))
    (l : List α) (s : AOServer) : Steady s (l.foldl f s) := by
  induction l generalizing s with
  | nil => exact .refl s
  | cons a l ih => exact (each s a).trans (ih (f s a))

section Primitives

theorem dispatched_emit {e : Effect} (other : ∀ k p, e ≠ .dispatch k p) (s : AOServer) :
    (s.emit e).dispatched = s.dispatched := by
  cases e with
  | dispatch k p => exact absurd rfl (other k p)
  | _ => simp [dispatched, emit]

theorem closed_emit {e : Effect} (other : ∀ k, e ≠ .close .immediate k) (s : AOServer) :
    (s.emit e).closed = s.closed := by
  cases e with
  | close mode k =>
    cases mode with
    | immediate => exact absurd rfl (other k)
    | deferred => simp [closed, emit]
  | _ => simp [closed, emit]

theorem still_emit {e : Effect} (other : ∀ k p, e ≠ .dispatch k p)
    (leaves : ∀ k, e ≠ .close .immediate k) (s : AOServer) : Still s (s.emit e) :=
  ⟨calm_room rfl, rfl, fun _ => rfl, rfl, dispatched_emit other s, closed_emit leaves s⟩

theorem still_send (s : AOServer) (k : UInt64) (p : AOPacket) : Still s (s.send k p) :=
  still_emit (by simp) (by simp) s

theorem still_send_to_area (s : AOServer) (area : Bytes) (p : AOPacket) :
    Still s (s.send_to_area area p) := still_emit (by simp) (by simp) s

theorem still_send_to_all (s : AOServer) (p : AOPacket) : Still s (s.send_to_all p) :=
  still_emit (by simp) (by simp) s

theorem still_close_client_deferred (env : Env) (s : AOServer) (k : UInt64) :
    Still s (s.close_client_deferred env k) := by
  unfold close_client_deferred close
  split
  · exact still_emit (by simp) (by simp) s
  · exact .refl s

theorem steady_close_client (env : Env) (s : AOServer) (k : UInt64) :
    Steady s (s.close_client env k) := by
  unfold close_client close
  split
  · split
    · exact ⟨rfl, fun _ => rfl, dispatched_emit (by simp) s⟩
    · exact .refl s
  · exact .refl s

theorem still_bans (s : AOServer) (r : BanManager × BanEffects) : Still s (s.bans r) :=
  Still.trans (t := { s with ban_manager := some r.1 }) ⟨calm_room rfl, rfl, fun _ => rfl, rfl, rfl, rfl⟩
    (still_emit (e := .bans r.2) (by simp) (by simp) _)

theorem joined_update_session (s : AOServer) (k q : UInt64) (f : ServerSession → ServerSession) :
    (s.update_session k f).joined q =
      if q = k then (s.room_.get_session k).map fun x => (f x).joined else s.joined q := by
  unfold AOServer.joined update_session GameRoom.update_session GameRoom.get_session
  rw [SessionMap.find_modify]
  split
  · rw [Option.map_map]
    rfl
  · rfl

theorem roles_update_session (s : AOServer) (k q : UInt64) (f : ServerSession → ServerSession) :
    (s.update_session k f).roles q =
      if q = k then (s.room_.get_session k).map fun x => (f x).roles else s.roles q := by
  unfold roles update_session GameRoom.update_session GameRoom.get_session
  rw [SessionMap.find_modify]
  split
  · rw [Option.map_map]
    rfl
  · rfl

theorem calm_update_session (s : AOServer) (k : UInt64) {f : ServerSession → ServerSession}
    (keeps : ∀ x, (f x).identity = x.identity) : Calm s (s.update_session k f) := by
  refine ⟨fun q => ?_, fun _ => rfl, rfl⟩
  simp only [update_session, GameRoom.get_session_update]
  split
  · next same =>
    rw [same, Option.map_map]
    exact congrArg (Option.map · _) (funext keeps)
  · rfl

theorem still_update_session (s : AOServer) (k : UInt64) {f : ServerSession → ServerSession}
    (keeps : ∀ x, (f x).roles = x.roles ∧ (f x).identity = x.identity) : Still s (s.update_session k f) := by
  refine ⟨calm_update_session s k fun x => (keeps x).2, rfl, fun q => ?_, rfl, rfl, rfl⟩
  rw [roles_update_session]
  split
  · next same => rw [same, roles, funext fun x => (keeps x).1]
  · rfl

theorem steady_update_session (s : AOServer) (k : UInt64) {f : ServerSession → ServerSession}
    (keeps : ∀ x, (f x).joined = x.joined) : Steady s (s.update_session k f) := by
  refine ⟨rfl, fun q => ?_, rfl⟩
  rw [joined_update_session]
  split
  · next same => rw [same, AOServer.joined, funext keeps]
  · rfl

theorem steady_room (s : AOServer) {room : GameRoom} (same : room.sessions_ = s.room_.sessions_) :
    Steady s { s with room_ := room } :=
  ⟨rfl, fun k => by simp only [joined, GameRoom.get_session, same], rfl⟩

theorem disconnected_apart (deps : Deps) (s : AOServer) (k : UInt64) :
    ∃ t : AOServer, t.proto_state_ = s.proto_state_ ∧ t.room_.sessions_ = s.room_.sessions_ ∧
      t.room_.stats = s.room_.stats ∧ Still { t with
      room_ := t.room_.destroy_session deps.strHash k, proto_state_ := t.proto_state_.erase k }
        (on_client_disconnected deps s k) := by
  have announced (t : AOServer) (joined cm : Bool) : Still t
      (if joined then
        let t := t.broadcast_arup .ARUP_PLAYERS
        if cm then (t.broadcast_arup .ARUP_CM).broadcast_arup .ARUP_LOCKED else t
      else t) := by
    split
    · dsimp only
      split
      · exact ((still_send_to_all _ _).trans (still_send_to_all _ _)).trans (still_send_to_all _ _)
      · exact still_send_to_all _ _
    · exact .refl t
  refine ⟨_, ?_, ?_, ?_, announced _ _ _⟩ <;> split
  all_goals first | rfl | (split <;> rfl)

theorem update_area_frame (r : GameRoom) (area : Bytes) (f : AreaState → AreaState) :
    (r.update_area area f).sessions_ = r.sessions_ ∧ (r.update_area area f).stats = r.stats := by
  unfold GameRoom.update_area
  split
  · exact ⟨rfl, rfl⟩
  · split <;> exact ⟨rfl, rfl⟩

theorem calm_update_area (s : AOServer) (area : Bytes) {f : AreaState → AreaState}
    (keeps : ∀ a, (f a).casting = a.casting) : Calm s (s.update_area area f) := by
  refine ⟨fun q => ?_, fun id => ?_, s.room_.names_update_area area f⟩
  · simp only [update_area, GameRoom.get_session, (update_area_frame s.room_ area f).1]
  · simp only [update_area, GameRoom.lookup_update_area]
    split
    · rw [Option.map_map]
      exact congrArg (Option.map · _) (funext keeps)
    · rfl

theorem still_update_area (s : AOServer) (area : Bytes) {f : AreaState → AreaState}
    (keeps : ∀ a, (f a).casting = a.casting) : Still s (s.update_area area f) := by
  obtain ⟨sessions, stats⟩ := update_area_frame s.room_ area f
  refine ⟨calm_update_area s area keeps, rfl, fun q => ?_, ?_, rfl, rfl⟩
  · simp only [roles, update_area, GameRoom.get_session, sessions]
  · simp only [tallies, update_area, stats]

theorem steady_update_stats (s : AOServer) (f : RoomStats → RoomStats) :
    Steady s (s.update_stats f) := steady_room s rfl

end Primitives

section Sending

theorem still_broadcast_char_select (s : AOServer) (k : UInt64) (id : Int) :
    Still s (s.broadcast_char_select k id) := by
  unfold broadcast_char_select
  split
  · exact .refl s
  · exact still_send _ _ _

theorem still_broadcast_chars_taken (s : AOServer) (taken : List Int) :
    Still s (s.broadcast_chars_taken taken) := .foldl (fun s k => still_send s k _) _ s

theorem still_deliver (s : AOServer) (event : RoomEvent) : Still s (s.deliver event) := by
  cases event with
  | ic area action => exact still_send_to_area _ _ _
  | ooc area action => exact still_send_to_area _ _ _
  | char_select k id name => exact still_broadcast_char_select _ _ _
  | music area action => exact still_send_to_area _ _ _
  | chars_taken taken => exact still_broadcast_chars_taken _ _

theorem still_deliver_all (s : AOServer) (events : List RoomEvent) :
    Still s (events.foldl deliver s) := .foldl still_deliver events s

theorem still_send_area_join_info (s : AOServer) (k : UInt64) (area : Bytes) :
    Still s (s.send_area_join_info k area) := by
  unfold send_area_join_info
  split
  · exact .refl s
  · have shown (p q r : AOPacket) : Still s (((s.send k p).send k q).send k r) :=
      ((still_send s k p).trans (still_send _ k q)).trans (still_send _ k r)
    dsimp only
    split
    · exact shown _ _ _
    · exact (shown _ _ _).trans (still_send _ k _)

theorem still_send_player_list_snapshot (s : AOServer) (k : UInt64) :
    Still s (s.send_player_list_snapshot k) := .foldl (fun s p => still_send s k p) _ s

theorem still_send_full_arup (s : AOServer) (k : UInt64) : Still s (s.send_full_arup k) :=
  .foldl (fun s _ => still_send s k _) _ s

/-- The effects that write to the room. -/
def writes_room : CommandEffect → Bool
  | .write_session _ _ | .write_area _ _ | .write_content _ | .count_moderator _ => true
  | _ => false

theorem still_run_effect (env : Env) (s : AOServer) {e : CommandEffect} (apart : writes_room e = false) :
    Still s (s.run_effect env e) := by
  cases e with
  | send_system_message | send_kick_message | send_ban_message => exact still_send _ _ _
  | disconnect_client k => exact .refl s
  | send_area_join_info k area => exact still_send_area_join_info _ _ _
  | broadcast_background area bg => exact still_send_to_area _ _ _
  | broadcast_arup type => exact still_send_to_all _ _
  | broadcast_chars_taken => exact still_broadcast_chars_taken _ _
  | write_session | write_area | write_content | count_moderator => cases apart
  | add_ban | remove_ban | update_ban =>
    simp only [run_effect]
    split
    · exact .refl s
    · exact still_bans _ _

theorem steady_run_effect (env : Env) (s : AOServer) (e : CommandEffect) :
    Steady s (s.run_effect env e) := by
  cases e with
  | write_session k w => exact steady_update_session _ _ fun _ => rfl
  | write_area area state => exact steady_room s (update_area_frame _ _ _).1
  | write_content c => exact steady_room s rfl
  | count_moderator change =>
    exact steady_update_stats s fun stats => { stats with moderators := stats.moderators + change }
  | _ => exact (still_run_effect env s rfl).steady

theorem still_run_effects (env : Env) (throws : Bool) (s : AOServer) (effects : List CommandEffect) :
    Still (effects.foldl (run_effect env) s) (run_effects env throws s effects) := by
  obtain ⟨closes, done⟩ := run_effects_closes env throws s effects
  rw [done]
  exact .foldl (still_close_client_deferred env) closes _

theorem steady_run_effects (env : Env) (throws : Bool) (s : AOServer) (effects : List CommandEffect) :
    Steady s (run_effects env throws s effects) :=
  (Steady.foldl (steady_run_effect env) effects s).trans (still_run_effects env throws s effects).steady

end Sending

section Handlers

variable (env : Env) (k : UInt64) (session : ServerSession) (fields : List Bytes)

theorem char_select_roles (r : GameRoom) (action : CharSelectAction) (q : UInt64) :
    ((r.handle_char_select action).2.1.get_session q).map ServerSession.roles =
      (r.get_session q).map ServerSession.roles := by
  have released (c : Int) : (r.release c).sessions_ = r.sessions_ := by
    unfold GameRoom.release
    split <;> rfl
  have took (r : GameRoom) (c : Int) : (r.take c).sessions_ = r.sessions_ := by
    unfold GameRoom.take
    split <;> rfl
  unfold GameRoom.handle_char_select
  split
  · rfl
  · dsimp only
    split
    · rfl
    · split
      · simp only [GameRoom.get_session, released]
      · simp only [GameRoom.get_session, GameRoom.update_session, SessionMap.find_modify, took,
          released]
        split
        · next same =>
          rw [same, Option.map_map]
          rfl
        · rfl

theorem char_select_tallies (r : GameRoom) (action : CharSelectAction) :
    { (r.handle_char_select action).2.1.stats with chars_taken := 0 } =
      { r.stats with chars_taken := 0 } := by
  have released (c : Int) : { (r.release c).stats with chars_taken := 0 } =
      { r.stats with chars_taken := 0 } := by
    unfold GameRoom.release
    split <;> rfl
  have took (r : GameRoom) (c : Int) : { (r.take c).stats with chars_taken := 0 } =
      { r.stats with chars_taken := 0 } := by
    unfold GameRoom.take
    split <;> rfl
  unfold GameRoom.handle_char_select
  split
  · rfl
  · dsimp only
    split
    · rfl
    · split
      · exact released _
      · exact (took _ _).trans (released _)

theorem calm_char_select (s : AOServer) (requested : Int) :
    Calm s { s with room_ := (s.room_.handle_char_select ⟨k, requested⟩).2.1 } := by
  have released (r : GameRoom) (c : Int) : (r.release c).sessions_ = r.sessions_ ∧
      (r.release c).area_states_ = r.area_states_ ∧
      (r.release c).area_name_to_id_ = r.area_name_to_id_ := by
    unfold GameRoom.release
    split <;> exact ⟨rfl, rfl, rfl⟩
  have took (r : GameRoom) (c : Int) : (r.take c).sessions_ = r.sessions_ ∧
      (r.take c).area_states_ = r.area_states_ ∧ (r.take c).area_name_to_id_ = r.area_name_to_id_ := by
    unfold GameRoom.take
    split <;> exact ⟨rfl, rfl, rfl⟩
  have kept {r : GameRoom} (same : r.sessions_ = s.room_.sessions_ ∧
      r.area_states_ = s.room_.area_states_ ∧ r.area_name_to_id_ = s.room_.area_name_to_id_) :
      Calm s { s with room_ := r } :=
    ⟨fun q => by simp only [GameRoom.get_session, same.1], fun id => by simp only [same.2.1], same.2.2⟩
  unfold GameRoom.handle_char_select
  split
  · exact .refl s
  · dsimp only
    split
    · exact .refl s
    · split
      · exact kept (released _ _)
      · next session _ _ _ =>
        obtain ⟨sessions, states, names⟩ := took (s.room_.release session.character_id) requested
        have free := released s.room_ session.character_id
        refine Calm.trans (kept (r := (s.room_.release session.character_id).take requested)
          ⟨sessions.trans free.1, states.trans free.2.1, names.trans free.2.2⟩) ?_
        exact calm_update_session _ k (f := fun session => { session with
          character_id := requested, display_name := _ }) fun _ => rfl

theorem still_CC (s : AOServer) : Still s (AOPacketCC.handle_server s k session fields) := by
  unfold AOPacketCC.handle_server
  split
  · exact .refl s
  · split
    · exact .refl s
    · next requested _ =>
      have selected : Still s { s with room_ := (s.room_.handle_char_select ⟨k, requested⟩).2.1 } :=
        ⟨calm_char_select _ _ _, rfl, char_select_roles _ _, char_select_tallies _ _, rfl, rfl⟩
      have told := selected.trans
        (still_deliver_all _ (s.room_.handle_char_select ⟨k, requested⟩).2.2)
      dsimp only
      split
      · exact told.trans (still_send_to_all _ _)
      · exact told

theorem still_send_mod_notice (s : AOServer) (verdict : ModerationVerdict) :
    Still s (send_mod_notice env s k verdict) := by
  unfold send_mod_notice
  dsimp only
  split
  · exact still_send _ _ _
  · exact still_send _ _ _
  · exact still_send _ _ _
  · exact .refl s

theorem still_apply_content_verdict (s : AOServer) (verdict : ModerationVerdict) :
    Still s (apply_content_verdict env s k session verdict).1 := by
  have expelled (s : AOServer) (p : AOPacket) :
      Still s ((s.send k p).close_client_deferred env k) :=
    (still_send _ _ _).trans (still_close_client_deferred _ _ _)
  unfold apply_content_verdict
  split
  · exact .refl s
  · exact .refl s
  · exact still_send_mod_notice _ _ _ _
  · exact still_send_mod_notice _ _ _ _
  · exact still_send_mod_notice _ _ _ _
  · exact expelled s _
  all_goals
    dsimp only
    split
    · exact expelled s _
    · exact (still_bans _ _).trans (expelled _ _)

theorem still_moderate (s : AOServer) (message : Bytes) :
    Still s (moderate env s k session message).1 := by
  unfold moderate
  split
  · exact .refl s
  · next verdict _ =>
    have judged := still_apply_content_verdict env k session s verdict
    dsimp only
    split <;> exact judged

theorem still_MS (s : AOServer) : Still s (AOPacketMS.handle_server env s k session fields) := by
  unfold AOPacketMS.handle_server
  split
  · exact .refl s
  · dsimp only
    split
    · exact .refl s
    · have judged := still_moderate env k session s (AOPacketMS.action k fields).message
      split
      · next stopped =>
        rw [stopped] at judged
        exact judged
      · next passed =>
        rw [passed] at judged
        split
        · exact (judged.trans (still_send_to_all _ _)).trans (still_deliver_all _ _)
        · exact judged.trans (still_deliver_all _ _)

theorem still_CT (s : AOServer) (spoken : try_dispatch (AOPacketCT.message fields) = false) :
    Still s (AOPacketCT.handle_server env s k session fields).1 := by
  unfold AOPacketCT.handle_server
  dsimp only
  rw [spoken]
  split
  · exact .refl s
  rw [if_neg Bool.false_ne_true]
  split
  · exact .refl s
  split
  · exact .refl s
  · have judged := still_moderate env k session s (AOPacketCT.message fields)
    split
    · next stopped =>
      rw [stopped] at judged
      exact judged
    · next passed =>
      rw [passed] at judged
      split
      · have named := judged.trans (still_update_session _ k (f := fun session =>
          { session with display_name := AOPacketCT.sender_name fields }) fun _ => ⟨rfl, rfl⟩)
        exact (named.trans (still_send_to_all _ _)).trans (still_deliver_all _ _)
      · exact judged.trans (still_deliver_all _ _)

theorem steady_CT (s : AOServer) : Steady s (AOPacketCT.handle_server env s k session fields).1 := by
  cases spoken : try_dispatch (AOPacketCT.message fields) with
  | false => exact (still_CT env k session fields s spoken).steady
  | true =>
    unfold AOPacketCT.handle_server
    simp only [spoken, if_true]
    split
    · exact .refl s
    · exact steady_run_effects env _ s _

theorem still_HP (s : AOServer) : Still s (AOPacketHP.handle_server s session fields) := by
  unfold AOPacketHP.handle_server
  dsimp only
  split
  · exact .refl s
  split
  · exact .refl s
  · refine (still_update_area _ _ ?_).trans (still_send_to_area _ _ _)
    exact fun _ => rfl

theorem still_switch_area (s : AOServer) (name : Bytes) :
    Still s (AOPacketMC.switch_area s k session name) := by
  have moved := (still_update_session s k (f := fun session => { session with area := name })
    fun _ => ⟨rfl, rfl⟩).trans (still_send_area_join_info _ k name)
  unfold AOPacketMC.switch_area
  dsimp only
  split
  · exact (moved.trans (still_send_to_all _ _)).trans (still_send_to_all _ _)
  · exact moved.trans (still_send_to_all _ _)

theorem still_MC (s : AOServer) : Still s (AOPacketMC.handle_server s k session fields) := by
  unfold AOPacketMC.handle_server
  dsimp only
  split
  · exact .refl s
  split
  · split
    · exact still_switch_area _ _ _ _
    · exact still_send _ _ _
  · exact still_deliver_all _ _

theorem still_ZZ (s : AOServer) : Still s (AOPacketZZ.handle_server s session fields) := by
  unfold AOPacketZZ.handle_server
  split
  · exact .refl s
  · exact .foldl (fun s (other : ServerSession) => still_send s other.client_id _) _ s

theorem still_PW (s : AOServer) : Still s (AOPacketPW.handle_server s k fields) :=
  still_update_session _ _ fun _ => ⟨rfl, rfl⟩

theorem still_MA (s : AOServer) : Still s (AOPacketMA.handle_server env s session fields) := by
  have notified (s : AOServer) (targets : List ServerSession) (p : AOPacket) :
      Still s (targets.foldl (fun s t => s.close_client_deferred env t.client_id)
        (targets.foldl (fun s t => s.send t.client_id p) s)) :=
    (Still.foldl (fun s t => still_send s t.client_id _) targets s).trans
      (.foldl (fun s t => still_close_client_deferred env s t.client_id) targets _)
  unfold AOPacketMA.handle_server
  dsimp only
  split
  · exact .refl s
  split
  · exact notified s _ _
  · split
    · exact .refl s
    · exact (still_bans _ _).trans (notified _ _ _)

theorem still_RT (s : AOServer) : Still s (AOPacketRT.handle_server s session fields) := by
  unfold AOPacketRT.handle_server
  split
  · exact .refl s
  · exact still_send_to_area _ _ _

theorem still_change_evidence (s : AOServer)
    (change : List EvidenceItem → Option (List EvidenceItem)) :
    Still s (change_evidence s session change) := by
  unfold change_evidence
  split
  · exact .refl s
  split
  · exact .refl s
  split
  · exact .refl s
  · refine (still_update_area _ _ ?_).trans (still_send_to_area _ _ _)
    exact fun _ => rfl

theorem still_PE (s : AOServer) : Still s (AOPacketPE.handle_server s session fields) :=
  still_change_evidence _ _ _

theorem still_EE (s : AOServer) : Still s (AOPacketEE.handle_server s session fields) :=
  still_change_evidence _ _ _

theorem still_DE (s : AOServer) : Still s (AOPacketDE.handle_server s session fields) :=
  still_change_evidence _ _ _

theorem still_CASEA (s : AOServer) : Still s (AOPacketCASEA.handle_server s session fields) := by
  unfold AOPacketCASEA.handle_server
  split
  · exact .refl s
  · exact .foldl (fun s (other : ServerSession) => still_send s other.client_id _) _ s

theorem still_SETCASE (s : AOServer) :
    Still s (AOPacketSETCASE.handle_server s k session fields) := by
  unfold AOPacketSETCASE.handle_server
  split
  · exact .refl s
  · exact still_update_session _ _ fun _ => ⟨rfl, rfl⟩

/-- The packets whose handlers write a protocol state. -/
def Handshake (type : PacketType) : Prop := type = .HI ∨ type = .ID ∨ type = .RD

theorem still_handle_server (deps : Deps) (s : AOServer) {type : PacketType}
    (other : ¬ Handshake type)
    (spoken : type = .CT → try_dispatch (AOPacketCT.message fields) = false) :
    Still s (handle_server deps env s k session type fields).1 := by
  cases type with
  | HI => exact absurd (.inl rfl) other
  | ID => exact absurd (.inr (.inl rfl)) other
  | RD => exact absurd (.inr (.inr rfl)) other
  | askchaa => exact still_send _ _ _
  | RC => exact still_send _ _ _
  | RM => exact still_send _ _ _
  | CC => exact still_CC _ _ _ _
  | MS => exact still_MS _ _ _ _ _
  | CT => exact still_CT _ _ _ _ _ (spoken rfl)
  | HP => exact still_HP _ _ _
  | MC => exact still_MC _ _ _ _
  | ZZ => exact still_ZZ _ _ _
  | PW => exact still_PW _ _ _
  | MA => exact still_MA _ _ _ _
  | RT => exact still_RT _ _ _
  | PE => exact still_PE _ _ _
  | EE => exact still_EE _ _ _
  | DE => exact still_DE _ _ _
  | CASEA => exact still_CASEA _ _ _
  | SETCASE => exact still_SETCASE _ _ _ _
  | CH => exact still_send _ _ _
  | _ => exact .refl s

theorem steady_handle_server (deps : Deps) (s : AOServer) {type : PacketType}
    (other : ¬ Handshake type) : Steady s (handle_server deps env s k session type fields).1 := by
  by_cases chat : type = .CT
  · subst chat
    exact steady_CT _ _ _ _ _
  · exact (still_handle_server env k session fields deps s other fun eq => absurd eq chat).steady

end Handlers

section Handshakes

def phase (s : AOServer) (k : UInt64) : Option ProtocolState :=
  (s.get_protocol_state k).map (·.state)

theorem lookup_update_proto (s : AOServer) (k q : UInt64) (f : AOProtocolState → AOProtocolState) :
    (s.update_proto k f).get_protocol_state q =
      if q = k then (s.get_protocol_state k).map f else s.get_protocol_state q := by
  unfold update_proto get_protocol_state
  cases found : s.proto_state_.lookup k with
  | none =>
    by_cases same : q = k
    · subst q
      simp [found]
    · simp [same]
  | some proto =>
    by_cases same : q = k
    · subst q
      simp
    · simp [same, AList.lookup_insert_ne same]

theorem phase_update_proto (s : AOServer) (k q : UInt64) (f : AOProtocolState → AOProtocolState) :
    (s.update_proto k f).phase q =
      if q = k then (s.get_protocol_state k).map fun x => (f x).state else s.phase q := by
  rw [phase, lookup_update_proto]
  split
  · rw [Option.map_map]
    rfl
  · rfl

theorem buffer_update_proto (s : AOServer) (k q : UInt64) (f : AOProtocolState → AOProtocolState) :
    (s.update_proto k f).buffer q =
      if q = k then (s.get_protocol_state k).map fun x => (f x).incomplete_buf else s.buffer q := by
  rw [buffer, lookup_update_proto]
  split
  · rw [Option.map_map]
    rfl
  · rfl

theorem update_proto_room (s : AOServer) (k : UInt64) (f : AOProtocolState → AOProtocolState) :
    (s.update_proto k f).room_ = s.room_ ∧ (s.update_proto k f).log = s.log := by
  unfold update_proto
  split <;> exact ⟨rfl, rfl⟩

theorem joined_update_proto (s : AOServer) (k q : UInt64) (f : AOProtocolState → AOProtocolState) :
    (s.update_proto k f).joined q = s.joined q := by
  rw [joined, (update_proto_room s k f).1, joined]

theorem dispatched_update_proto (s : AOServer) (k : UInt64) (f : AOProtocolState → AOProtocolState) :
    (s.update_proto k f).dispatched = s.dispatched := by
  rw [dispatched, (update_proto_room s k f).2, dispatched]

theorem framed_update_proto (s : AOServer) (k : UInt64) {f : AOProtocolState → AOProtocolState}
    (keeps : ∀ x, (f x).incomplete_buf = x.incomplete_buf) : Framed s (s.update_proto k f) := by
  refine ⟨fun q => ?_, dispatched_update_proto s k f⟩
  rw [buffer_update_proto]
  split
  · next same => rw [same, buffer, funext keeps]
  · rfl

theorem Steady.phase (steady : Steady s t) (k : UInt64) : t.phase k = s.phase k := by
  simp only [AOServer.phase, get_protocol_state, steady.proto]

/-- What a handshake packet of client `k` may do: `allowed` says when the phase of `k`
changes, `joins` whether its session may become joined. -/
structure Moves (k : UInt64) (allowed joins : Prop) (s t : AOServer) : Prop where
  framed : Framed s t
  phase : ∀ q, t.phase q = s.phase q ∨ (q = k ∧ allowed)
  joined : ∀ q, t.joined q = s.joined q ∨ (q = k ∧ joins)

theorem Steady.moves (steady : Steady s t) (k : UInt64) (allowed joins : Prop) :
    Moves k allowed joins s t :=
  ⟨steady.framed, fun q => .inl (steady.phase q), fun q => .inl (steady.joined q)⟩

theorem Moves.trans {k : UInt64} {allowed joins : Prop} (first : Moves k allowed joins s t)
    (second : Moves k allowed joins t u) : Moves k allowed joins s u := by
  refine ⟨first.framed.trans second.framed, fun q => ?_, fun q => ?_⟩
  · rcases second.phase q with same | moved
    · exact same ▸ first.phase q
    · exact .inr moved
  · rcases second.joined q with same | moved
    · exact same ▸ first.joined q
    · exact .inr moved

theorem moves_update_proto (s : AOServer) (k : UInt64) {f : AOProtocolState → AOProtocolState}
    {allowed joins : Prop} (keeps : ∀ x, (f x).incomplete_buf = x.incomplete_buf)
    (free : allowed ∨ ∀ x, (f x).state = x.state) : Moves k allowed joins s (s.update_proto k f) := by
  refine ⟨framed_update_proto s k keeps, fun q => ?_, fun q => .inl (joined_update_proto s k q f)⟩
  by_cases same : q = k
  · rcases free with yes | keeps
    · exact .inr ⟨same, yes⟩
    · rw [phase_update_proto, if_pos same, funext keeps, same]
      exact .inl rfl
  · rw [phase_update_proto, if_neg same]
    exact .inl rfl

theorem moves_HI (deps : Deps) (env : Env) (s : AOServer) (k : UInt64) (session : ServerSession)
    (hardware_id : Bytes) :
    Moves k (s.phase k = some .CONNECTED ∧ AOPacketHI.banned deps env s k hardware_id session = none)
      False s (AOPacketHI.handle_server deps env s k session hardware_id) := by
  have greeted := AOPacketHI.handle_server_cases deps env s k session hardware_id
  generalize AOPacketHI.handle_server deps env s k session hardware_id = t at greeted ⊢
  have noted (allowed : Prop) :
      Moves k allowed False s (AOPacketHI.noted deps env s k hardware_id) := by
    have kept : ∀ x, (AOPacketHI.identified deps env k hardware_id x).joined = x.joined := by
      intro x
      simp only [AOPacketHI.identified]
      split <;> rfl
    exact (moves_update_proto s k (f := fun proto => { proto with hardware_id }) (fun _ => rfl)
      (.inr fun _ => rfl)).trans ((steady_update_session _ k kept).moves _ _ _)
  cases greeted with
  | early other reply => exact (still_send _ _ _).steady.moves _ _ _
  | turned_away connected turned reply =>
    exact (noted _).trans (((still_send _ _ _).steady.trans (steady_close_client _ _ _)).moves _ _ _)
  | identified connected clean free replies =>
    refine (noted _).trans (Moves.trans ?_
      (moves_update_proto _ k (fun _ => rfl) (.inl ⟨connected, clean⟩)))
    exact (Still.foldl (fun s p => still_send s k p) replies _).steady.moves _ _ _

theorem moves_ID (s : AOServer) (k : UInt64) (fields : List Bytes) :
    Moves k (s.phase k = some .IDENTIFIED) False s (AOPacketIDClient.handle_server s k fields) := by
  unfold AOPacketIDClient.handle_server
  split
  · exact (still_send _ _ _).steady.moves _ _ _
  · next identified =>
    rw [not_not] at identified
    have told := (steady_update_session s k (f := fun session => { session with
      client_software := AOPacketIDClient.software fields ++ bytes " " ++
        AOPacketIDClient.version fields }) fun _ => rfl)
    exact ((told.trans ((still_send _ k _).trans (still_send _ k _)).steady).moves _ _ _).trans
      (moves_update_proto _ k (fun _ => rfl) (.inl identified))

theorem still_greet (s : AOServer) (k : UInt64) (session : ServerSession) :
    Still s (AOPacketRD.greet s k session) :=
  ((((still_send _ _ _).trans (still_send _ _ _)).trans
    (still_send_area_join_info _ _ _)).trans (still_send_player_list_snapshot _ _)).trans
    (still_send_to_all _ _)

theorem still_announce_area (s : AOServer) (k : UInt64) (session : ServerSession) :
    Still s (AOPacketRD.announce_area s k session) := by
  have updated (s : AOServer) : Still s ((s.send_full_arup k).broadcast_arup .ARUP_PLAYERS) :=
    (still_send_full_arup _ _).trans (still_send_to_all _ _)
  unfold AOPacketRD.announce_area
  dsimp only
  split
  · exact (still_send_to_all _ _).trans (updated _)
  · exact updated _

theorem still_send_motd (s : AOServer) (k : UInt64) : Still s (AOPacketRD.send_motd s k) := by
  unfold AOPacketRD.send_motd
  split
  · exact .refl s
  · exact still_send _ _ _

theorem moves_join (s : AOServer) (k : UInt64) : Moves k True True s (AOPacketRD.join s k) := by
  have marked (s : AOServer) : Moves k True True s
      (s.update_session k fun session => { session with joined := true }) := by
    refine ⟨⟨fun _ => rfl, rfl⟩, fun _ => .inl rfl, fun q => ?_⟩
    by_cases same : q = k
    · exact .inr ⟨same, trivial⟩
    · rw [joined_update_session, if_neg same]
      exact .inl rfl
  exact ((moves_update_proto s k (f := fun proto => { proto with state := .JOINED }) (fun _ => rfl)
    (.inl trivial)).trans (marked _)).trans
    ((steady_update_stats _ fun stats => { stats with joined := stats.joined + 1 }).moves _ _ _)

theorem moves_RD (s : AOServer) (k : UInt64) (session : ServerSession) :
    Moves k True True s (AOPacketRD.handle_server s k session) := by
  unfold AOPacketRD.handle_server
  split
  · exact (Steady.refl s).moves _ _ _
  · exact (moves_join s k).trans ((((still_greet _ _ _).trans (still_announce_area _ _ _)).trans
      (still_send_motd _ _)).steady.moves _ _ _)

theorem framed_handle_server (deps : Deps) (env : Env) (s : AOServer) (k : UInt64)
    (session : ServerSession) (type : PacketType) (fields : List Bytes) :
    Framed s (handle_server deps env s k session type fields).1 := by
  by_cases handshake : Handshake type
  · rcases handshake with rfl | rfl | rfl
    · exact (moves_HI deps env s k session _).framed
    · exact (moves_ID s k fields).framed
    · exact (moves_RD s k session).framed
  · exact (steady_handle_server env k session fields deps s handshake).framed

end Handshakes

end AOServer
end AoSdl
