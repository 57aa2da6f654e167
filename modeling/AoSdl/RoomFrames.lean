import AoSdl.Lib.Entries
import AoSdl.SessionWeights

/-! What packets leave of the sessions' identities and of the case masters' areas. Only slash commands
and the ends of sessions change them. -/
namespace AoSdl

def GameRoom.states (r : GameRoom) : List AreaState := r.area_states_.entries.map Sigma.snd

theorem GameRoom.mem_states {r : GameRoom} {area : AreaState} :
    area ∈ r.states ↔ ∃ id, r.area_states_.lookup id = some area := by
  rw [states, List.mem_map]
  constructor
  · rintro ⟨⟨id, state⟩, inside, rfl⟩
    exact ⟨id, AList.mem_lookup_iff.mpr inside⟩
  · rintro ⟨id, found⟩
    exact ⟨⟨id, area⟩, AList.mem_lookup_iff.mp found, rfl⟩

namespace AOServer

variable {s t u : AOServer}

section Primitives

theorem calm_close (s : AOServer) (mode : CloseMode) (env : Env) (k : UInt64) :
    Calm s (s.close mode env k) := by
  unfold close
  split
  · exact calm_room rfl
  · exact .refl s

theorem calm_close_client (env : Env) (s : AOServer) (k : UInt64) : Calm s (s.close_client env k) := by
  unfold close_client
  split
  · exact calm_close _ _ _ _
  · exact .refl s

theorem calm_update_proto (s : AOServer) (k : UInt64) (f : AOProtocolState → AOProtocolState) :
    Calm s (s.update_proto k f) := calm_room (update_proto_room s k f).1

theorem calm_update_stats (s : AOServer) (f : RoomStats → RoomStats) : Calm s (s.update_stats f) :=
  ⟨fun _ => rfl, fun _ => rfl, rfl⟩

end Primitives

section Handlers

variable (deps : Deps) (env : Env) (k : UInt64) (session : ServerSession) (fields : List Bytes)

theorem calm_HI (s : AOServer) (hardware_id : Bytes) :
    Calm s (AOPacketHI.handle_server deps env s k session hardware_id) := by
  have greeted := AOPacketHI.handle_server_cases deps env s k session hardware_id
  generalize AOPacketHI.handle_server deps env s k session hardware_id = t at greeted ⊢
  have kept : ∀ x, (AOPacketHI.identified deps env k hardware_id x).identity = x.identity := by
    intro x
    simp only [AOPacketHI.identified]
    split <;> rfl
  have noted : Calm s (AOPacketHI.noted deps env s k hardware_id) :=
    (calm_update_proto _ _ _).trans (calm_update_session _ k kept)
  cases greeted with
  | early other reply => exact calm_room rfl
  | turned_away connected turned reply =>
    exact noted.trans ((still_send _ _ _).calm.trans (calm_close_client _ _ _))
  | identified connected clean free replies =>
    exact (noted.trans (Still.foldl (fun s p => still_send s k p) replies _).calm).trans (calm_update_proto _ _ _)

theorem calm_ID (s : AOServer) : Calm s (AOPacketIDClient.handle_server s k fields) := by
  unfold AOPacketIDClient.handle_server
  split
  · exact calm_room rfl
  · have told := calm_update_session s k (f := fun session => { session with
      client_software := AOPacketIDClient.software fields ++ bytes " " ++
        AOPacketIDClient.version fields }) fun _ => rfl
    exact (told.trans ((still_send _ _ _).trans (still_send _ _ _)).calm).trans (calm_update_proto _ _ _)

theorem calm_RD (s : AOServer) : Calm s (AOPacketRD.handle_server s k session) := by
  unfold AOPacketRD.handle_server
  split
  · exact .refl s
  · have joins : Calm s (AOPacketRD.join s k) := by
      unfold AOPacketRD.join
      refine Calm.trans (Calm.trans (calm_update_proto _ _ _) (calm_update_session _ k ?_))
        (calm_update_stats _ fun stats => { stats with joined := stats.joined + 1 })
      exact fun _ => rfl
    exact joins.trans (((still_greet _ _ _).trans (still_announce_area _ _ _)).trans (still_send_motd _ _)).calm

theorem calm_handle_server (s : AOServer) {type : PacketType}
    (spoken : type = .CT → try_dispatch (AOPacketCT.message fields) = false) :
    Calm s (handle_server deps env s k session type fields).1 := by
  by_cases handshake : Handshake type
  · rcases handshake with rfl | rfl | rfl
    · exact calm_HI deps env k session s _
    · exact calm_ID k fields s
    · exact calm_RD k session s
  · exact (still_handle_server env k session fields deps s handshake spoken).calm

end Handlers

section Sessions

variable (deps : Deps) (env : Env) (k q : UInt64)

theorem room_broadcast_chars_taken (s : AOServer) (taken : List Int) :
    (s.broadcast_chars_taken taken).room_ = s.room_ :=
  List.foldlRecOn (motive := fun t : AOServer => t.room_ = s.room_) _ _ rfl fun _ same _ _ => same

theorem area_states_destroy (strHash : Bytes → BitVec 64) (r : GameRoom) :
    (r.destroy_session strHash k).area_states_ = r.area_states_ ∧
    (r.destroy_session strHash k).area_name_to_id_ = r.area_name_to_id_ := by
  have released (r : GameRoom) (c : Int) : (r.release c).area_states_ = r.area_states_ ∧
      (r.release c).area_name_to_id_ = r.area_name_to_id_ := by
    unfold GameRoom.release
    split <;> exact ⟨rfl, rfl⟩
  unfold GameRoom.destroy_session
  split
  · exact ⟨rfl, rfl⟩
  · exact released _ _

theorem lookup_drop_cm (states : AList fun _ : Bytes => AreaState) (id : Bytes) :
    (states.keys.foldl (fun states id =>
      match states.lookup id with
      | none => states
      | some state => states.replace id (drop_cm k state)) states).lookup id =
      (states.lookup id).map (drop_cm k) := by
  refine (Lib.Entries.lookup_foldl_change (f := drop_cm k) (fun m id p => ?_) states.nodupKeys states
    id).trans ?_
  · cases found : m.lookup id with
    | none =>
      by_cases same : p = id
      · subst same
        simp [found]
      · simp [same]
    | some state => simp [Lib.Entries.lookup_replace, found]
  · by_cases listed : id ∈ states.keys
    · exact if_pos listed
    · have absent : states.lookup id = none := AList.lookup_eq_none.mpr listed
      simp [absent]

theorem room_disconnected (s : AOServer) :
    (∀ q, (on_client_disconnected deps s k).room_.get_session q =
      if q = k then none else s.room_.get_session q) ∧
    (∀ id, (on_client_disconnected deps s k).room_.area_states_.lookup id =
      if s.joined k = some true then (s.room_.area_states_.lookup id).map (drop_cm k)
      else s.room_.area_states_.lookup id) ∧
    (on_client_disconnected deps s k).room_.area_name_to_id_ = s.room_.area_name_to_id_ := by
  have told (t : AOServer) (joined cm : Bool) :
      (if joined then
        let t := t.broadcast_arup .ARUP_PLAYERS
        if cm then (t.broadcast_arup .ARUP_CM).broadcast_arup .ARUP_LOCKED else t
      else t).room_ = t.room_ := by
    cases joined <;> cases cm <;> rfl
  unfold on_client_disconnected
  dsimp only
  rw [told]
  dsimp only
  cases found : s.room_.get_session k with
  | none =>
    refine ⟨fun q => GameRoom.get_session_destroy _ _ _ _, fun id => ?_, (area_states_destroy k _ _).2⟩
    rw [(area_states_destroy k _ _).1]
    simp [joined, found]
  | some session =>
    cases player : session.joined with
    | false =>
      simp only [player, Bool.false_eq_true, if_false]
      refine ⟨fun q => GameRoom.get_session_destroy _ _ _ _, fun id => ?_, (area_states_destroy k _ _).2⟩
      rw [(area_states_destroy k _ _).1]
      simp [joined, found, player]
    | true =>
      have marked : s.joined k = some true := by simp [joined, found, player]
      simp only [player, if_true]
      refine ⟨fun q => GameRoom.get_session_destroy _ _ _ _, fun id => ?_, (area_states_destroy k _ _).2⟩
      rw [(area_states_destroy k _ _).1, if_pos marked]
      exact lookup_drop_cm k _ id

theorem calm_connected (s : AOServer) :
    Calm { s with room_ := s.room_.create_session k (bytes "ao2") } (on_client_connected env s k) := by
  have noted (t : AOServer) (addr : Bytes) : Calm t (if addr.isEmpty then t
      else t.update_session k fun session => { session with ip_address := addr }) := by
    split
    · exact .refl t
    · exact calm_update_session t k (f := fun session => { session with ip_address := addr }) fun _ => rfl
  unfold on_client_connected
  refine Calm.trans (Calm.trans ?_ (noted _ _)) (still_send _ _ _).calm
  split <;> exact calm_room rfl

/-- A session that is created has no rights. -/
theorem identity_create (r : GameRoom) (protocol : Bytes) :
    ((r.create_session k protocol).get_session q).map ServerSession.identity =
      if q = k then some (k, false, [], [], []) else (r.get_session q).map ServerSession.identity := by
  rw [GameRoom.get_session_create]
  split <;> rfl

theorem identity_nx_create (r : GameRoom) (token : Bytes) (client : NXClient) :
    ((NXServer.create_session deps.sha256 deps.strHash r k token client).get_session q).map
      ServerSession.identity =
      if q = k then some (k, false, [], [], []) else (r.get_session q).map ServerSession.identity := by
  have introduced (session : ServerSession) :
      (NXServer.introduced deps.sha256 client session).identity = session.identity := rfl
  have made : (NXServer.create_session deps.sha256 deps.strHash r k token client).get_session q =
      ((r.create_session_with_token deps.strHash k (bytes "aonx") token).update_session k
        (NXServer.introduced deps.sha256 client)).get_session q := rfl
  rw [made, GameRoom.get_session_update, GameRoom.get_session_create_with_token]
  split
  · rw [if_pos rfl]
    rfl
  · next other =>
    rw [GameRoom.get_session_create_with_token, if_neg other]

theorem room_expire (strHash : Bytes → BitVec 64) (r : GameRoom) (ttl_seconds : Int)
    (idle : ServerSession → Bool) :
    (∀ q, (r.expire_sessions strHash ttl_seconds idle).2.get_session q =
      if q ∈ (r.expire_sessions strHash ttl_seconds idle).1 then none else r.get_session q) ∧
    (r.expire_sessions strHash ttl_seconds idle).2.area_states_ = r.area_states_ ∧
    (r.expire_sessions strHash ttl_seconds idle).2.area_name_to_id_ = r.area_name_to_id_ := by
  have destroyed (ids : List UInt64) (r : GameRoom) :
      (∀ q, (ids.foldl (fun r id => r.destroy_session strHash id) r).get_session q =
        if q ∈ ids then none else r.get_session q) ∧
      (ids.foldl (fun r id => r.destroy_session strHash id) r).area_states_ = r.area_states_ ∧
      (ids.foldl (fun r id => r.destroy_session strHash id) r).area_name_to_id_ =
        r.area_name_to_id_ := by
    induction ids generalizing r with
    | nil => exact ⟨fun q => by simp, rfl, rfl⟩
    | cons id ids ih =>
      obtain ⟨sessions, states, names⟩ := ih (r.destroy_session strHash id)
      have frame := area_states_destroy id strHash r
      refine ⟨fun q => ?_, states.trans frame.1, names.trans frame.2⟩
      rw [List.foldl_cons, sessions, GameRoom.get_session_destroy]
      by_cases same : q = id
      · simp [same]
      · simp [same]
  unfold GameRoom.expire_sessions
  split
  · exact ⟨fun q => by simp, rfl, rfl⟩
  · exact destroyed _ r

end Sessions

end AOServer

end AoSdl
