import AoSdl.Lib.Runs
import AoSdl.ServerPacketFrames

/-! The handshake gate. A session is meant to become joined only behind an `HI` packet whose
ban check found nothing; the phases of the protocol carry that, and `RD` does not look at
them. -/
namespace AoSdl
namespace AOServer
open Lib.Runs

/-- What happens to the server, packet by packet. `buffered` stands for the bytes a client's
receive buffer gains and loses, `outside` for what the operator and the other subsystems do. -/
inductive AOInput where
  | connected (env : Env) (client_id : UInt64)
  | disconnected (client_id : UInt64)
  | buffered (client_id : UInt64) (buf : Bytes)
  | packet (env : Env) (client_id : UInt64) (packet_str : Bytes)
  | outside (env : Env) (effect : CommandEffect)

def aoStep (deps : Deps) (s : AOServer) : AOInput → AOServer
  | .connected env k => on_client_connected env s k
  | .disconnected k => on_client_disconnected deps s k
  | .buffered k buf => s.update_proto k fun proto => { proto with incomplete_buf := buf }
  | .packet env k packet_str => process_packet deps env s k packet_str
  | .outside env effect => s.run_effects env false [effect]

/-- The message loop is a run of packets. -/
theorem receive_packets_run (deps : Deps) (n : Nat) (envs : Nat → Env) (s : AOServer) (k : UInt64) :
    ∃ inputs, receive_packets deps n envs s k = run (aoStep deps) s inputs := by
  induction n generalizing envs s with
  | zero => exact ⟨[], rfl⟩
  | succ n ih =>
    unfold receive_packets
    split
    · exact ⟨[], rfl⟩
    · split
      · exact ⟨[], rfl⟩
      · next content rest _ =>
        obtain ⟨inputs, later⟩ := ih (fun i => envs (i + 1)) (process_packet deps (envs 0)
          (s.update_proto k fun proto => { proto with incomplete_buf := rest }) k (content ++ bytes "#%"))
        exact ⟨.buffered k rest :: .packet (envs 0) k (content ++ bytes "#%") :: inputs, later⟩

theorem on_client_message_run (deps : Deps) (envs : Nat → Env) (s : AOServer) (k : UInt64) (raw : Bytes) :
    ∃ inputs, on_client_message deps envs s k raw = run (aoStep deps) s inputs := by
  unfold on_client_message
  split
  · exact ⟨[], rfl⟩
  · next proto _ =>
    dsimp only
    split
    · exact ⟨[.buffered k (proto.incomplete_buf ++ raw),
        .outside (envs 0) (.send_system_message k (bytes "[ERROR] Message too large")),
        .buffered k []], rfl⟩
    · obtain ⟨inputs, later⟩ := receive_packets_run deps (proto.incomplete_buf ++ raw).length envs
        (s.update_proto k fun p => { p with incomplete_buf := proto.incomplete_buf ++ raw }) k
      exact ⟨.buffered k (proto.incomplete_buf ++ raw) :: inputs, later⟩

/-- The packet is an `HI` that the server checks, and the check finds no ban. -/
def clears (deps : Deps) (env : Env) (s : AOServer) (k : UInt64) (packet_str : Bytes) : Bool :=
  match AOPacket.deserialize packet_str, s.room_.get_session k with
  | some packet, some session =>
    PacketFactory.find packet.header = some .HI && s.phase k = some .CONNECTED &&
      (AOPacketHI.banned deps env s k (AOPacketHI.hardware_id packet.fields) session).isNone
  | _, _ => false

/-- The server, and the clients whose present session had its ban check and passed it. -/
structure Gate where
  server : AOServer
  cleared : List UInt64 := []

def gateStep (deps : Deps) (g : Gate) (input : AOInput) : Gate where
  server := aoStep deps g.server input
  cleared := match input with
    | .connected _ k => g.cleared.filter (· ≠ k)
    | .packet env k packet_str =>
      if clears deps env g.server k packet_str then k :: g.cleared else g.cleared
    | _ => g.cleared

/-- Every joined session has passed the ban check. -/
def Gated (g : Gate) : Prop := ∀ k, g.server.joined k = some true → k ∈ g.cleared

/-- New connections have new ids, and `RD` comes only behind an accepted `HI`. -/
def Guarded (g : Gate) : AOInput → Prop
  | .connected _ k => g.server.get_protocol_state k = none
  | .packet _ k packet_str =>
    match AOPacket.deserialize packet_str with
    | none => True
    | some packet => PacketFactory.find packet.header = some .RD → g.server.phase k ≠ some .CONNECTED
  | _ => True

/-- Phases past the first are reached only through the ban check. -/
structure GateInv (g : Gate) : Prop where
  gated : Gated g
  past : ∀ k phase, g.server.phase k = some phase → phase ≠ .CONNECTED → k ∈ g.cleared

theorem GateInv.of_same {g h : Gate} (inv : GateInv g)
    (joined : ∀ k, h.server.joined k = g.server.joined k)
    (phase : ∀ k, h.server.phase k = g.server.phase k)
    (cleared : ∀ k, k ∈ g.cleared → k ∈ h.cleared) : GateInv h :=
  ⟨fun k live => cleared k (inv.gated k (joined k ▸ live)),
    fun k p at_phase past => cleared k (inv.past k p (phase k ▸ at_phase) past)⟩

theorem GateInv.of_moves {g h : Gate} (inv : GateInv g) {k : UInt64} {allowed joins : Prop}
    (moves : Moves k allowed joins g.server h.server)
    (cleared : ∀ q, q ∈ g.cleared → q ∈ h.cleared)
    (passed : allowed ∨ joins → k ∈ h.cleared) : GateInv h := by
  refine ⟨fun q live => ?_, fun q p at_phase past => ?_⟩
  · rcases moves.joined q with same | ⟨rfl, now⟩
    · exact cleared q (inv.gated q (same ▸ live))
    · exact passed (.inr now)
  · rcases moves.phase q with same | ⟨rfl, now⟩
    · exact cleared q (inv.past q p (same ▸ at_phase) past)
    · exact passed (.inl now)

theorem joined_create_session (s : AOServer) (k q : UInt64) :
    joined { s with room_ := s.room_.create_session k (bytes "ao2") } q =
      if q = k then some false else s.joined q := by
  simp only [joined, GameRoom.get_session, GameRoom.create_session, SessionMap.find_set]
  split <;> rfl

theorem inv_connected (deps : Deps) (env : Env) {g : Gate} (inv : GateInv g) (k : UInt64)
    (fresh : g.server.get_protocol_state k = none) :
    GateInv (gateStep deps g (.connected env k)) := by
  have absent : k ∉ g.server.proto_state_ := AList.lookup_eq_none.mp fresh
  have kept (q : UInt64) (other : q ≠ k) (member : q ∈ g.cleared) :
      q ∈ g.cleared.filter (· ≠ k) := List.mem_filter.mpr ⟨member, by simpa using other⟩
  let made : AOServer := { g.server with
    room_ := g.server.room_.create_session k (bytes "ao2")
    proto_state_ := g.server.proto_state_.insert k {} }
  have told : Steady made (on_client_connected env g.server k) := by
    unfold on_client_connected
    dsimp only
    rw [if_neg absent]
    split
    · exact (still_send _ _ _).steady
    · exact (steady_update_session made k (f := fun session =>
        { session with ip_address := env.client_addr k }) fun _ => rfl).trans (still_send _ _ _).steady
  refine ⟨fun q live => ?_, fun q p at_phase past => ?_⟩
  · have live : made.joined q = some true := (told.joined q).symm.trans live
    rw [show made.joined q = if q = k then some false else g.server.joined q from
      joined_create_session g.server k q] at live
    split at live
    · cases live
    · next other => exact kept q other (inv.gated q live)
  · have at_phase : made.phase q = some p := (told.phase q).symm.trans at_phase
    by_cases same : q = k
    · subst q
      rw [phase, get_protocol_state, AList.lookup_insert] at at_phase
      cases at_phase
      exact absurd rfl past
    · rw [phase, get_protocol_state, AList.lookup_insert_ne same] at at_phase
      exact kept q same (inv.past q p at_phase past)

theorem disconnected_spec (deps : Deps) (s : AOServer) (k q : UInt64) :
    (on_client_disconnected deps s k).joined q = (if q = k then none else s.joined q) ∧
      (on_client_disconnected deps s k).phase q = if q = k then none else s.phase q := by
  obtain ⟨t, proto, sessions, -, last⟩ := disconnected_apart deps s k
  refine ⟨?_, ?_⟩
  · rw [last.steady.joined q, joined, GameRoom.get_session_destroy]
    split
    · rfl
    · exact congrArg (fun m => (SessionMap.find m q).map (·.joined)) sessions
  · rw [last.steady.phase q]
    by_cases here : q = k
    · subst q
      simp [phase, get_protocol_state]
    · rw [if_neg here]
      simp [phase, get_protocol_state, AList.lookup_erase_ne here, proto]

theorem inv_disconnected (deps : Deps) {g : Gate} (inv : GateInv g) (k : UInt64) :
    GateInv (gateStep deps g (.disconnected k)) := by
  refine ⟨fun q live => ?_, fun q p at_phase past => ?_⟩
  · have live : (on_client_disconnected deps g.server k).joined q = some true := live
    rw [(disconnected_spec deps g.server k q).1] at live
    split at live
    · cases live
    · exact inv.gated q live
  · have at_phase : (on_client_disconnected deps g.server k).phase q = some p := at_phase
    rw [(disconnected_spec deps g.server k q).2] at at_phase
    split at at_phase
    · cases at_phase
    · exact inv.past q p at_phase past

/-- A handler moves a client past the gate only if the client is past it already, or by a
ban check that finds nothing. -/
theorem handle_server_moves (deps : Deps) (env : Env) {g : Gate} (inv : GateInv g) (k : UInt64)
    (session : ServerSession) (type : PacketType) (fields : List Bytes)
    (guarded : type = .RD → g.server.phase k ≠ some .CONNECTED) :
    ∃ allowed joins, Moves k allowed joins g.server
        (handle_server deps env g.server k session type fields).1 ∧
      (allowed ∨ joins → k ∈ g.cleared ∨ (type = .HI ∧ g.server.phase k = some .CONNECTED ∧
        AOPacketHI.banned deps env g.server k (AOPacketHI.hardware_id fields) session = none)) := by
  by_cases handshake : Handshake type
  · rcases handshake with rfl | rfl | rfl
    · refine ⟨_, _, moves_HI deps env g.server k session _, fun either => .inr ⟨rfl, ?_⟩⟩
      exact either.resolve_right id
    · refine ⟨_, _, moves_ID g.server k fields, fun either => .inl ?_⟩
      exact inv.past k .IDENTIFIED (either.resolve_right id) (by decide)
    · cases at_phase : g.server.phase k with
      | none =>
        have unknown : (g.server.get_protocol_state k).isNone := by
          simpa [phase] using at_phase
        have idle : AOPacketRD.handle_server g.server k session = g.server := by
          rw [AOPacketRD.handle_server, if_pos unknown]
        have same : (handle_server deps env g.server k session .RD fields).1 = g.server := idle
        refine ⟨False, False, ?_, fun either => either.elim False.elim False.elim⟩
        rw [same]
        exact (Steady.refl g.server).moves k False False
      | some p =>
        refine ⟨_, _, moves_RD g.server k session, fun _ => .inl (inv.past k p at_phase ?_)⟩
        rintro rfl
        exact guarded rfl at_phase
  · exact ⟨False, False, (steady_handle_server env k session fields deps g.server handshake).moves k _ _,
      fun either => either.elim False.elim False.elim⟩

theorem inv_packet (deps : Deps) (env : Env) {g : Gate} (inv : GateInv g) (k : UInt64)
    (packet_str : Bytes) (guarded : Guarded g (.packet env k packet_str)) :
    GateInv (gateStep deps g (.packet env k packet_str)) := by
  have kept (q : UInt64) (member : q ∈ g.cleared) :
      q ∈ (gateStep deps g (.packet env k packet_str)).cleared := by
    simp only [gateStep]
    split
    · exact List.mem_cons_of_mem k member
    · exact member
  have steady (told : Steady g.server (process_packet deps env g.server k packet_str)) :
      GateInv (gateStep deps g (.packet env k packet_str)) :=
    inv.of_same told.joined told.phase kept
  cases parsed : AOPacket.deserialize packet_str with
  | none =>
    refine steady ?_
    simp only [process_packet, parsed]
    exact (still_send _ _ _).steady
  | some packet =>
    let entered : Gate := ⟨g.server.emit (.dispatch k packet), g.cleared⟩
    have inv' : GateInv entered := inv.of_same (fun _ => rfl) (fun _ => rfl) fun _ => id
    suffices handled : GateInv ⟨(dispatch deps env g.server k packet).1,
        (gateStep deps g (.packet env k packet_str)).cleared⟩ by
      have replied : Steady (dispatch deps env g.server k packet).1
          (process_packet deps env g.server k packet_str) := by
        rcases process_packet_cases deps env g.server k parsed with same | ⟨reply, same⟩
        · rw [same]
          exact .refl _
        · rw [same]
          exact (still_send _ _ _).steady
      exact handled.of_same replied.joined replied.phase fun _ => id
    have handled := dispatch_cases deps env g.server k packet
    generalize dispatch deps env g.server k packet = result at handled ⊢
    cases handled with
    | stranger absent => exact inv'.of_same (fun _ => rfl) (fun _ => rfl) kept
    | unknown found unnamed reply =>
      have told : Steady entered.server (entered.server.send k reply) := (still_send _ _ _).steady
      exact inv'.of_same told.joined told.phase kept
    | @handler session type found named =>
      obtain ⟨allowed, joins, moves, passed⟩ := handle_server_moves deps env inv' k session type
        packet.fields (by rintro rfl; simp only [Guarded, parsed] at guarded; exact guarded named)
      refine inv'.of_moves moves kept fun either => ?_
      rcases passed either with member | ⟨rfl, connected, clean⟩
      · exact kept k member
      · have cleared : clears deps env g.server k packet_str = true := by
          have clean : AOPacketHI.banned deps env g.server k
            (AOPacketHI.hardware_id packet.fields) session = none := clean
          have connected : g.server.phase k = some .CONNECTED := connected
          simp [clears, parsed, found, named, clean, connected]
        simp only [gateStep, cleared]
        exact List.mem_cons_self

theorem inv_step (deps : Deps) {g : Gate} {input : AOInput} (inv : GateInv g)
    (guarded : Guarded g input) : GateInv (gateStep deps g input) := by
  cases input with
  | connected env k => exact inv_connected deps env inv k guarded
  | disconnected k => exact inv_disconnected deps inv k
  | buffered k buf =>
    refine inv.of_same (fun q => joined_update_proto _ _ _ _) (fun q => ?_) fun _ => id
    have same := (phase_update_proto g.server k q fun proto => { proto with incomplete_buf := buf })
    refine same.trans ?_
    split
    · next here => rw [here]; rfl
    · rfl
  | packet env k packet_str => exact inv_packet deps env inv k packet_str guarded
  | outside env effect =>
    have told := steady_run_effects env false g.server [effect]
    exact inv.of_same told.joined told.phase fun _ => id

/-- In every run whose connections have new ids and whose `RD` packets come behind an accepted
`HI`, every joined session has passed the ban check. -/
theorem joined_only_cleared (deps : Deps) (s : AOServer) (no_sessions : ∀ k, s.joined k = none)
    (no_states : ∀ k, s.get_protocol_state k = none) (inputs : List AOInput)
    (guarded : Throughout (gateStep deps) Guarded ⟨s, []⟩ inputs) :
    Always (gateStep deps) Gated ⟨s, []⟩ inputs := by
  have start : GateInv ⟨s, []⟩ := by
    refine ⟨fun k live => ?_, fun k p at_phase _ => ?_⟩
    · exact absurd ((no_sessions k).symm.trans live) (by simp)
    · have none : s.phase k = none := by rw [phase, no_states k]; rfl
      exact absurd (none.symm.trans at_phase) (by simp)
  have all := always_of_throughout (fun g input inv meets => inv_step deps inv meets) start guarded
  rw [always_iff_isPrefix] at all ⊢
  exact fun front inside => (all front inside).gated

theorem joined_only_cleared_handshake :
    (run (gateStep plainDeps) ⟨{}, []⟩ [.connected {} 7, .packet {} 7 (bytes "HI#hw#%"),
      .packet {} 7 (bytes "ID#client#2#%"), .packet {} 7 (bytes "RD#%")]).server.joined 7 = some true ∧
    Always (gateStep plainDeps) Gated ⟨{}, []⟩ [.connected {} 7, .packet {} 7 (bytes "HI#hw#%"),
      .packet {} 7 (bytes "ID#client#2#%"), .packet {} 7 (bytes "RD#%")] := by
  refine ⟨by decide, joined_only_cleared plainDeps {} (fun k => ?_) (fun _ => rfl) _ ?_⟩
  · rw [joined, GameRoom.get_session, SessionMap.find_empty]
    rfl
  · refine ⟨rfl, ?_, ?_, ?_, trivial⟩
    · exact fun type => absurd type (by decide)
    · exact fun type => absurd type (by decide)
    · exact fun _ => by decide

/-- The address every client comes from is banned. -/
def addressBan : BanManager :=
  { bans_ := AList.singleton (bytes "10.0.0.1")
      { ipid := bytes "10.0.0.1", ip := bytes "10.0.0.1", duration := DURATION_PERMANENT } }

def bannedEnv : Env := { ws := some fun _ => bytes "10.0.0.1" }

/-- The client is banned, whatever hardware id it sends, and joins with `RD` alone. -/
theorem banned_client_joins :
    (∀ hardware_id session, AOPacketHI.banned plainDeps bannedEnv { ban_manager := some addressBan } 7
      hardware_id session ≠ none) ∧
    ¬ Always (gateStep plainDeps) Gated ⟨{ ban_manager := some addressBan }, []⟩
      [.connected bannedEnv 7, .packet bannedEnv 7 (bytes "RD#%")] := by
  refine ⟨fun hardware_id session clean => ?_, fun always => ?_⟩
  · have found : (addressBan.find_ban 0 (bytes "10.0.0.1")).isSome := by decide
    have checked : addressBan.check_ban 0 (bytes "10.0.0.1") hardware_id = none := clean
    rw [BanManager.check_ban, Option.or_eq_none_iff] at checked
    rw [checked.1] at found
    cases found
  · exact absurd (always.2.2 7 (by decide)) (by decide)

end AOServer
end AoSdl
