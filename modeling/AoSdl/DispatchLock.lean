import AoSdl.Lib.Runs
import AoSdl.ServerPacketFrames

/-! The dispatch lock around a message. `close_client` runs the disconnect callback before it
returns, and the callback takes the same lock. -/
namespace AoSdl
open Lib.Framing

inductive LockOp where
  | acquire
  | release

/-- What one thread does to a lock that is not recursive: whether it holds the lock in the end,
or `none` if it waits for a lock it holds. -/
def hold : Bool → List LockOp → Option Bool
  | held, [] => some held
  | false, .acquire :: ops => hold true ops
  | true, .acquire :: _ => none
  | _, .release :: ops => hold false ops

def RestRouter.with_lock (func : List LockOp) : List LockOp := .acquire :: func ++ [.release]

/-- The callback wired to disconnects. `on_client_disconnected` closes nobody. -/
def on_disconnected : List LockOp := RestRouter.with_lock []

namespace AOServer

variable (deps : Deps)

/-- What a worker does to the dispatch lock with one message: each close on the spot that the
message adds runs the callback inside the worker's own section. -/
def lock_calls (envs : Nat → Env) (s : AOServer) (client_id : UInt64) (raw : Bytes) : List LockOp :=
  let closed := (on_client_message deps envs s client_id raw).closed.drop s.closed.length
  RestRouter.with_lock (closed.flatMap fun _ => on_disconnected)

/-- Whether the packet is a `HI` whose client is turned away and still connected. -/
def turns_away (env : Env) (s : AOServer) (client_id : UInt64) (packet_str : Bytes) : Bool :=
  match AOPacket.deserialize packet_str, s.room_.get_session client_id with
  | some packet, some session =>
    PacketFactory.find packet.header = some .HI && s.phase client_id = some .CONNECTED &&
      ((AOPacketHI.banned deps env s client_id (AOPacketHI.hardware_id packet.fields) session).isSome ||
        env.asn_blocked) && env.ws.isSome && env.has_client client_id
  | _, _ => false

/-- The packets the loop processes, each with the state it meets. -/
def packets_met : Nat → (Nat → Env) → AOServer → UInt64 → List (Env × AOServer × Bytes)
  | 0, _, _, _ => []
  | n + 1, envs, s, client_id =>
    match s.get_protocol_state client_id with
    | none => []
    | some proto =>
      match cutAt 35 37 proto.incomplete_buf with
      | none => []
      | some (content, rest) =>
        let s := s.update_proto client_id fun proto => { proto with incomplete_buf := rest }
        (envs 0, s, content ++ bytes "#%") ::
          packets_met n (fun i => envs (i + 1))
            (process_packet deps (envs 0) s client_id (content ++ bytes "#%")) client_id

/-- The packets of a message, each with the state it meets. -/
def message_packets (envs : Nat → Env) (s : AOServer) (client_id : UInt64) (raw : Bytes) :
    List (Env × AOServer × Bytes) :=
  match s.get_protocol_state client_id with
  | none => []
  | some proto =>
    let buf := proto.incomplete_buf ++ raw
    if MAX_INCOMPLETE_BUF < buf.length then []
    else
      packets_met deps buf.length envs
        (s.update_proto client_id fun proto => { proto with incomplete_buf := buf }) client_id

section Proof

variable {deps}

theorem closed_update_proto (s : AOServer) (k : UInt64) (f : AOProtocolState → AOProtocolState) :
    (s.update_proto k f).closed = s.closed := by
  rw [closed, (update_proto_room s k f).2, closed]

theorem closed_close_client (env : Env) (s : AOServer) (k : UInt64) :
    (s.close_client env k).closed =
      s.closed ++ if env.ws.isSome && env.has_client k then [k] else [] := by
  unfold close_client close
  cases env.has_client k <;> cases env.ws.isSome <;> simp [closed, emit]

theorem closed_HI (env : Env) (s : AOServer) (k : UInt64) (session : ServerSession)
    (hardware_id : Bytes) :
    (AOPacketHI.handle_server deps env s k session hardware_id).closed = s.closed ++
      if s.phase k = some .CONNECTED ∧
          ((AOPacketHI.banned deps env s k hardware_id session).isSome || env.asn_blocked) ∧
          (env.ws.isSome && env.has_client k) then [k] else [] := by
  have greeted := AOPacketHI.handle_server_cases deps env s k session hardware_id
  generalize AOPacketHI.handle_server deps env s k session hardware_id = t at greeted ⊢
  have noted : (AOPacketHI.noted deps env s k hardware_id).closed = s.closed := closed_update_proto s k _
  cases greeted with
  | early other reply =>
    rw [if_neg fun turned => other turned.1, List.append_nil]
    exact (still_send _ _ _).closed
  | turned_away connected turned reply =>
    have here : s.phase k = some .CONNECTED := connected
    rw [closed_close_client, (still_send _ _ _).closed, noted]
    simp only [here, turned, true_and]
  | identified connected clean free replies =>
    rw [closed_update_proto, (Still.foldl (fun s p => still_send s k p) replies _).closed, noted]
    simp [clean, free]

theorem closed_ID (s : AOServer) (k : UInt64) (fields : List Bytes) :
    (AOPacketIDClient.handle_server s k fields).closed = s.closed := by
  unfold AOPacketIDClient.handle_server
  split
  · exact (still_send _ _ _).closed
  · rw [closed_update_proto]
    exact ((still_send _ _ _).trans (still_send _ _ _)).closed

theorem closed_RD (s : AOServer) (k : UInt64) (session : ServerSession) :
    (AOPacketRD.handle_server s k session).closed = s.closed := by
  unfold AOPacketRD.handle_server
  split
  · rfl
  · have told := ((still_greet (AOPacketRD.join s k) k session).trans
      (still_announce_area _ k session)).trans (still_send_motd _ k)
    exact told.closed.trans (closed_update_proto s k _)

theorem closed_run_effect (env : Env) (s : AOServer) (e : CommandEffect) :
    (s.run_effect env e).closed = s.closed := by
  cases e with
  | write_session | write_area | write_content | count_moderator => rfl
  | _ => exact (still_run_effect env s rfl).closed

theorem closed_CT (env : Env) (s : AOServer) (k : UInt64) (session : ServerSession)
    (fields : List Bytes) : (AOPacketCT.handle_server env s k session fields).1.closed = s.closed := by
  cases spoken : try_dispatch (AOPacketCT.message fields) with
  | false => exact (still_CT env k session fields s spoken).closed
  | true =>
    have ran (effects : List CommandEffect) : (effects.foldl (run_effect env) s).closed = s.closed :=
      @Lib.Runs.invariant_run _ _ (run_effect env) (fun t => t.closed = s.closed)
        (fun t e same => (closed_run_effect env t e).trans same) s rfl effects
    unfold AOPacketCT.handle_server
    simp only [spoken, if_true]
    split
    · rfl
    · exact (still_run_effects env _ s env.command).closed.trans (ran _)

/-- Only a `HI` closes a connection on the spot. -/
theorem closed_handle_server (env : Env) (s : AOServer) (k : UInt64) (session : ServerSession)
    (type : PacketType) (fields : List Bytes) (other : type ≠ .HI) :
    (handle_server deps env s k session type fields).1.closed = s.closed := by
  by_cases handshake : Handshake type
  · rcases handshake with rfl | rfl | rfl
    · exact absurd rfl other
    · exact closed_ID s k fields
    · exact closed_RD s k session
  · by_cases chat : type = .CT
    · subst chat
      exact closed_CT env s k session fields
    · exact (still_handle_server env k session fields deps s handshake fun eq => absurd eq chat).closed

theorem closed_dispatch (env : Env) (s : AOServer) (k : UInt64) {packet_str : Bytes} {packet : AOPacket}
    (parsed : AOPacket.deserialize packet_str = some packet) :
    (dispatch deps env s k packet).1.closed =
      s.closed ++ if turns_away deps env s k packet_str then [k] else [] := by
  have entered : (s.emit (.dispatch k packet)).closed = s.closed := closed_emit (by simp) s
  unfold turns_away
  rw [parsed]
  have handled := dispatch_cases deps env s k packet
  generalize dispatch deps env s k packet = result at handled ⊢
  cases handled with
  | stranger absent => simpa [absent] using entered
  | unknown found unnamed reply =>
    simpa [found, unnamed] using ((still_send _ _ _).closed).trans entered
  | @handler session type found named =>
    by_cases hello : type = .HI
    · subst hello
      have handled := @closed_HI deps env (s.emit (.dispatch k packet)) k session
        (AOPacketHI.hardware_id packet.fields)
      have same : AOPacketHI.banned deps env (s.emit (.dispatch k packet)) k
          (AOPacketHI.hardware_id packet.fields) session =
        AOPacketHI.banned deps env s k (AOPacketHI.hardware_id packet.fields) session := rfl
      have phase : (s.emit (.dispatch k packet)).phase k = s.phase k := rfl
      rw [entered, same, phase] at handled
      simpa [handle_server, found, named, and_assoc] using handled
    · rw [closed_handle_server _ _ _ _ _ _ hello, entered]
      simp [hello, found, named]

theorem closed_process_packet (env : Env) (s : AOServer) (k : UInt64) (packet_str : Bytes) :
    (process_packet deps env s k packet_str).closed =
      s.closed ++ if turns_away deps env s k packet_str then [k] else [] := by
  cases parsed : AOPacket.deserialize packet_str with
  | none => simpa [process_packet, turns_away, parsed] using (still_send s k _).closed
  | some packet =>
    rw [← closed_dispatch env s k parsed]
    rcases process_packet_cases deps env s k parsed with same | ⟨reply, same⟩
    · rw [same]
    · rw [same]
      exact (still_send _ _ _).closed

/-- The clients closed on the spot by the packets of a list. -/
def closed_by (deps : Deps) (k : UInt64) (met : List (Env × AOServer × Bytes)) : List UInt64 :=
  met.flatMap fun m => if turns_away deps m.1 m.2.1 k m.2.2 then [k] else []

theorem closed_receive_packets (n : Nat) (envs : Nat → Env) (s : AOServer) (k : UInt64) :
    (receive_packets deps n envs s k).closed =
      s.closed ++ closed_by deps k (packets_met deps n envs s k) := by
  induction n generalizing envs s with
  | zero => simp [receive_packets, packets_met, closed_by]
  | succ n ih =>
    unfold receive_packets packets_met
    cases s.get_protocol_state k with
    | none => simp [closed_by]
    | some proto =>
      dsimp only
      cases cutAt 35 37 proto.incomplete_buf with
      | none => simp [closed_by]
      | some parts =>
        dsimp only
        rw [ih, closed_process_packet, closed_update_proto, List.append_assoc]
        rfl

theorem closed_on_client_message (envs : Nat → Env) (s : AOServer) (k : UInt64) (raw : Bytes) :
    (on_client_message deps envs s k raw).closed =
      s.closed ++ closed_by deps k (message_packets deps envs s k raw) := by
  unfold on_client_message message_packets
  cases s.get_protocol_state k with
  | none => simp [closed_by]
  | some proto =>
    dsimp only
    split
    · rw [closed_update_proto, (still_send _ _ _).closed, closed_update_proto]
      simp [closed_by]
    · rw [closed_receive_packets, closed_update_proto]

theorem closed_by_eq_nil (k : UInt64) (met : List (Env × AOServer × Bytes)) :
    closed_by deps k met = [] ↔ ¬ ∃ m ∈ met, turns_away deps m.1 m.2.1 k m.2.2 = true := by
  rw [closed_by, List.flatMap_eq_nil_iff]
  constructor
  · rintro quiet ⟨m, member, turned⟩
    have closes := quiet m member
    rw [if_pos turned] at closes
    cases closes
  · intro quiet m member
    exact if_neg fun turned => quiet ⟨m, member, turned⟩

end Proof

end AOServer

/-- A callback inside the section waits for the lock that its own thread holds. -/
theorem hold_with_lock {α : Type} (closed : List α) :
    hold false (RestRouter.with_lock (closed.flatMap fun _ => on_disconnected)) = none ↔
      closed ≠ [] := by
  cases closed with
  | nil => simp [RestRouter.with_lock, hold]
  | cons k rest => simp [RestRouter.with_lock, on_disconnected, hold]

namespace AOServer

/-- A worker waits for the lock it holds exactly when its message has a `HI` that is turned away
while its client is still connected. -/
theorem relocks_iff_turns_away (deps : Deps) (envs : Nat → Env) (s : AOServer) (client_id : UInt64)
    (raw : Bytes) :
    hold false (lock_calls deps envs s client_id raw) = none ↔
      ∃ m ∈ message_packets deps envs s client_id raw,
        turns_away deps m.1 m.2.1 client_id m.2.2 = true := by
  have added : (on_client_message deps envs s client_id raw).closed.drop s.closed.length =
      closed_by deps client_id (message_packets deps envs s client_id raw) := by
    rw [closed_on_client_message, List.drop_left]
  unfold lock_calls
  rw [added, hold_with_lock, Ne, closed_by_eq_nil, not_not]

def hardwareBan : BanManager :=
  (({} : BanManager).add_ban { ipid := bytes "x", hdid := bytes "bad", duration := -2 } 0).1

def bannedServer : AOServer :=
  on_client_connected { ws := some fun _ => bytes "10.0.0.1" } { ban_manager := some hardwareBan } 7

/-- A banned client that says who it is stops the server. -/
theorem banned_client_relocks :
    hold false (lock_calls plainDeps (fun _ => { ws := some fun _ => bytes "10.0.0.1" })
      bannedServer 7 (bytes "HI#bad#%")) = none := by
  decide

end AOServer

end AoSdl
