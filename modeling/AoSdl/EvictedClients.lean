import AoSdl.DispatchLock
import AoSdl.PacketReach
import AoSdl.SendQueue
import AoSdl.WsWorkerPool

/-! Clients that are kicked or banned, from the goodbye to the end of the connection. The close is
queued for the next flush, and until then the workers go on with what the client has sent. -/
namespace AoSdl
open Lib.Runs

namespace AOServer

/-- The packet of a kick or of a ban. -/
def goodbye (wire : Bytes) : Bool := (bytes "KK#").isPrefixOf wire || (bytes "KB#").isPrefixOf wire

/-- A message that is moderated, or one of the commands that kick and ban. -/
def may_evict (packet : AOPacket) : Bool :=
  match PacketFactory.find packet.header with
  | some .MS => true
  | some .CT =>
    let message := AOPacketCT.message packet.fields
    !try_dispatch message || (command_args message).head?.any fun word =>
      word.map tolower = bytes "kick" || word.map tolower = bytes "ban"
  | _ => false

/-- The clients that a moderated message or such a command has told goodbye and queued to be closed;
`evicts` is said of the packet at hand, and `told` are those it has told goodbye. -/
def evictions (evicts : Bool) (told : List UInt64) : List Effect → List UInt64
  | [] => []
  | .dispatch _ packet :: log => evictions (may_evict packet) [] log
  | .send client_id wire :: log => evictions evicts (if goodbye wire then client_id :: told else told) log
  | .close .deferred client_id :: log =>
    if evicts && told.contains client_id then client_id :: evictions evicts told log
    else evictions evicts told log
  | _ :: log => evictions evicts told log

def Evicted (s : AOServer) (k : UInt64) : Prop := k ∈ evictions false [] s.log

instance (s : AOServer) (k : UInt64) : Decidable (s.Evicted k) :=
  inferInstanceAs (Decidable (k ∈ evictions false [] s.log))

end AOServer

/-- The workers with the server, and the WebSocket server. -/
structure Backend where
  pool : WsWorkerPool := {}
  ws : WebSocketServer := {}

namespace Backend

open AOServer

/-- What an effect puts into the queues of the WebSocket server. -/
def forward (ws : WebSocketServer) : Effect → WebSocketServer
  | .send client_id wire => ws.queue_send client_id (WebSocketServer.text_frame wire).serialize
  | .broadcast clients wire => clients.foldl (fun ws client_id =>
      ws.queue_send client_id (WebSocketServer.text_frame wire).serialize) ws
  | .close .deferred client_id => ws.close_client_deferred client_id 1000 []
  | _ => ws

/-- The server has done something, and its effects are forwarded. -/
def follow (b : Backend) (pool : WsWorkerPool) : Backend :=
  ⟨pool, (Lib.Journal.news log b.pool.ao_ pool.ao_).foldl forward b.ws⟩

def connected (b : Backend) (client_id : UInt64) : Bool := (b.ws.clients_ client_id).isSome

/-- The callback of a connection that has ended. -/
def disconnect (deps : Deps) (b : Backend) (client_id : UInt64) : Backend :=
  b.follow { b.pool with ao_ := on_client_disconnected deps b.pool.ao_ client_id }

/-- What the threads do. `pool` is anything that happens in the pool. -/
inductive Event where
  | accept (client_id : UInt64)
  | handshake (client_id : UInt64) (response : Bytes) (env : Env)
  | pool (event : WsWorkerPool.Event)
  | begin_flush
  | continue_flush
  | gone (client_id : UInt64)

def step (deps : Deps) (slot_count_ : Nat) (b : Backend) (e : ℚ × Event) : Backend :=
  match e.2 with
  | .accept client_id => { b with ws := b.ws.step (.accept client_id) }
  | .handshake client_id response env =>
    let b := { b with ws := b.ws.step (.handshake client_id response) }
    b.follow { b.pool with ao_ := on_client_connected env b.pool.ao_ client_id }
  | .pool (.frame client_id data) =>
    if b.connected client_id then
      b.follow (b.pool.step deps slot_count_ e.1 (.frame client_id data))
    else b
  | .pool event => b.follow (b.pool.step deps slot_count_ e.1 event)
  | .begin_flush => { b with ws := b.ws.begin_flush }
  | .continue_flush =>
    let ended := { b with ws := b.ws.continue_flush }
    match b.ws.flush with
    | some (close :: _, _) =>
      if b.connected close.client_id then ended.disconnect deps close.client_id else ended
    | _ => ended
  | .gone client_id =>
    let ended := { b with ws := b.ws.step (.gone client_id) }
    if b.connected client_id then ended.disconnect deps client_id else ended

/-- The client of the message a worker dispatches, and its packets with the states they meet. -/
def processed (deps : Deps) (b : Backend) : Event → Option (UInt64 × List (Env × AOServer × Bytes))
  | .pool (.dispatch i envs) =>
    (b.pool.slots_ i).item.map fun (_, item) =>
      (item.client_id, message_packets deps envs b.pool.ao_ item.client_id item.data)
  | _ => none

/-- What still waits in a slot when the flush ends its client is not processed. -/
theorem processed_disconnect (deps : Deps) (b : Backend) (k : UInt64) {i : Nat} {envs : Nat → Env}
    {met : List (Env × AOServer × Bytes)}
    (handed : (b.disconnect deps k).processed deps (.pool (.dispatch i envs)) = some (k, met)) : met = [] := by
  have ended : (b.disconnect deps k).pool.ao_.get_protocol_state k = none := by
    have phase := (disconnected_spec deps b.pool.ao_ k k).2
    rw [if_pos rfl, AOServer.phase, Option.map_eq_none_iff] at phase
    exact phase
  obtain ⟨⟨_, item⟩, _, same⟩ := Option.map_eq_some_iff.mp handed
  obtain ⟨rfl, rfl⟩ := Prod.mk.inj same
  rw [message_packets, ended]

/-- Of the packets in a message, each chat packet of a client that was evicted before has `P`. -/
def EachEvicted (deps : Deps) (P : Env → AOServer → UInt64 → Bytes → AOPacket → PacketType → Prop)
    (b : Backend) (e : ℚ × Event) : Prop :=
  ∀ k met, b.processed deps e.2 = some (k, met) → ∀ env s packet_str, (env, s, packet_str) ∈ met →
    s.Evicted k → ∀ packet type, AOPacket.deserialize packet_str = some packet →
      PacketFactory.find packet.header = some type → type.Chat → P env s k packet_str packet type

/-- What a client sends behind its goodbye reaches nobody and leaves the room as it is. -/
def Silent (deps : Deps) : Backend → ℚ × Event → Prop :=
  EachEvicted deps fun env s k packet_str _ _ => s.Quiet k (process_packet deps env s k packet_str)

/-- It is nothing that its handler takes up. -/
def Unheeded (deps : Deps) : Backend → ℚ × Event → Prop :=
  EachEvicted deps fun env s k _ packet type => ¬ packet_acts env s k packet type

theorem silent_iff (deps : Deps) (b : Backend) (e : ℚ × Event) : b.Silent deps e ↔ b.Unheeded deps e := by
  unfold Silent Unheeded EachEvicted
  refine forall₂_congr fun k met => forall_congr' fun _ => forall₃_congr fun env s packet_str => ?_
  refine forall₂_congr fun _ _ => forall₂_congr fun packet type => ?_
  exact forall₃_congr fun parsed named chat => quiet_packet deps parsed named chat

/-- In every run the clients that are kicked or banned are silent exactly if, up to the flush, none of
them sends a packet that its handler takes up. -/
theorem evicted_silent_iff (deps : Deps) (slot_count_ : Nat) (b : Backend) (events : List (ℚ × Event)) :
    Throughout (step deps slot_count_) (Silent deps) b events ↔
      Throughout (step deps slot_count_) (Unheeded deps) b events := by
  refine throughout_iff_of_simulation (R := Eq) ?_ ?_ rfl events
  · rintro b _ e rfl
    exact silent_iff deps b e
  · rintro b _ e rfl -
    rfl

/-- A server with one area. -/
def lobby : Backend :=
  { pool.ao_.room_ := ({ areas := [bytes "Lobby"] } : GameRoom).build_area_index id }

def joins (client_id : UInt64) : List (ℚ × Event) :=
  [(0, .accept client_id), (0, .handshake client_id [] {}),
    (0, .pool (.frame client_id (bytes "HI#h#%ID#AO2#2#%RD#%"))), (0, .pool (.take 0)),
    (0, .pool (.dispatch 0 fun _ => {}))]

def talk : Bytes := bytes "CT#a#slur#%CT#a#still here#%"

/-- Two clients, and two messages of the first in one frame. -/
def arrivals : List (ℚ × Event) :=
  joins 1 ++ joins 2 ++ [(1, .pool (.frame 1 talk)), (1, .pool (.take 0))]

/-- The moderator kicks for the first message. -/
def kicks (i : Nat) : Env :=
  if i = 0 then { ws := some fun _ => [], verdict := some { action := .KICK } } else {}

/-- The server with both messages, and the packets of the frame. -/
def crowded : Backend := run (step plainDeps 1) lobby arrivals

def packets : List (Env × AOServer × Bytes) := message_packets plainDeps kicks crowded.pool.ao_ 1 talk

theorem kicked_client_is_heard : ¬ Throughout (step plainDeps 1) (Silent plainDeps) lobby
    (arrivals ++ [(1, .pool (.dispatch 0 kicks))]) := by
  intro silent
  have last : crowded.Silent plainDeps (1, .pool (.dispatch 0 kicks)) := silent.at
  have item : (crowded.pool.slots_ 0).item = some (1, ⟨1, talk⟩) := by decide +kernel
  have handed : crowded.processed plainDeps (.pool (.dispatch 0 kicks)) = some (1, packets) := by
    rw [processed, item]
    rfl
  have two : 1 < packets.length := by decide +kernel
  have second : (packets.get ⟨1, two⟩).2.1.Evicted 1 := by decide +kernel +revert
  have parsed : AOPacket.deserialize (packets.get ⟨1, two⟩).2.2 =
      some ⟨bytes "CT", [bytes "a", bytes "still here"]⟩ := by decide +kernel +revert
  have named : PacketFactory.find (bytes "CT") = some .CT := by decide +kernel
  have quiet := last 1 packets handed _ _ _ (List.get_mem packets ⟨1, two⟩) second _ _ parsed named
    (.inr (.inl rfl))
  exact quiet.sent (.broadcast [1, 2] (bytes "CT#a#still here#0#%")) (by decide +kernel +revert)
    ⟨2, by decide, by decide⟩

end Backend

end AoSdl
