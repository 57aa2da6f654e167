import AoSdl.AoWire
import AoSdl.DispatchLock

/-! The receive path of the server as a framing of the byte stream: which packets are
dispatched does not depend on how a client's bytes are cut into messages. A worker handles each
message under the dispatch lock. -/
namespace AoSdl
open Lib.Framing

namespace AOServer

variable (deps : Deps)

theorem dispatched_emit_dispatch (s : AOServer) (k : UInt64) (p : AOPacket) :
    (s.emit (.dispatch k p)).dispatched = s.dispatched ++ [(k, p)] := by
  simp [dispatched, emit]

theorem dispatch_spec (env : Env) (s : AOServer) (k : UInt64) (p : AOPacket) :
    (∀ q, (dispatch deps env s k p).1.buffer q = s.buffer q) ∧
      (dispatch deps env s k p).1.dispatched = s.dispatched ++ [(k, p)] := by
  have handled : Framed (s.emit (.dispatch k p)) (dispatch deps env s k p).1 := by
    have handled := dispatch_cases deps env s k p
    generalize dispatch deps env s k p = result at handled ⊢
    cases handled with
    | stranger absent => exact .refl _
    | unknown found unnamed reply => exact (still_send _ _ _).steady.framed
    | handler found named => exact framed_handle_server _ _ _ _ _ _ _
  exact ⟨handled.buffer, handled.dispatched.trans (dispatched_emit_dispatch s k p)⟩

theorem process_packet_spec (env : Env) (s : AOServer) (k : UInt64) (content : Bytes) :
    (∀ q, (process_packet deps env s k (content ++ bytes "#%")).buffer q = s.buffer q) ∧
      (process_packet deps env s k (content ++ bytes "#%")).dispatched =
        s.dispatched ++ [(k, parse_content content)] := by
  obtain ⟨buffers, log⟩ := dispatch_spec deps env s k (parse_content content)
  rcases process_packet_cases deps env s k (deserialize_frame content) with same | ⟨reply, same⟩
  · rw [same]
    exact ⟨buffers, log⟩
  · have told := (still_send (dispatch deps env s k (parse_content content)).1 k reply).steady.framed
    rw [same]
    exact ⟨fun q => (told.buffer q).trans (buffers q), told.dispatched.trans log⟩

/-- The loop drains the buffer and dispatches the packet of every frame. -/
theorem receive_packets_spec (n : Nat) (envs : Nat → Env) (s : AOServer) (k : UInt64) {buf : Bytes}
    (holds : s.buffer k = some buf) (enough : buf.length ≤ n) :
    (receive_packets deps n envs s k).buffer k = some (packetCutter.drain buf).2 ∧
      (receive_packets deps n envs s k).dispatched =
        s.dispatched ++ (packetCutter.drain buf).1.map fun content => (k, parse_content content) := by
  induction n generalizing envs s buf with
  | zero =>
    obtain rfl := List.length_eq_zero_iff.mp (Nat.le_zero.mp enough)
    simp [receive_packets, holds, Cutter.drain_none (c := packetCutter) Cutter.cut_nil]
  | succ n ih =>
    obtain ⟨proto, found, rfl⟩ := Option.map_eq_some_iff.mp holds
    unfold receive_packets
    simp only [found]
    cases cut : cutAt 35 37 proto.incomplete_buf with
    | none => simp [Cutter.drain_none (c := packetCutter) cut, holds]
    | some frame =>
      obtain ⟨content, rest⟩ := frame
      have less : rest.length < proto.incomplete_buf.length := packetCutter.shorter cut
      have taken : (s.update_proto k fun proto => { proto with incomplete_buf := rest }).buffer k =
          some rest := by
        rw [buffer_update_proto, if_pos rfl, found]
        rfl
      obtain ⟨buffers, log⟩ := process_packet_spec deps (envs 0)
        (s.update_proto k fun proto => { proto with incomplete_buf := rest }) k content
      obtain ⟨left, dispatches⟩ := ih (fun i => envs (i + 1)) _ ((buffers k).trans taken) (by omega)
      rw [Cutter.drain_some (c := packetCutter) cut]
      refine ⟨left, ?_⟩
      rw [dispatches, log, dispatched_update_proto, List.map_cons, List.append_assoc]
      rfl

theorem on_client_message_spec (envs : Nat → Env) (s : AOServer) (k : UInt64) {buf raw : Bytes}
    (holds : s.buffer k = some buf) (fits : (buf ++ raw).length ≤ MAX_INCOMPLETE_BUF) :
    (on_client_message deps envs s k raw).buffer k = some (packetCutter.drain (buf ++ raw)).2 ∧
      (on_client_message deps envs s k raw).dispatched = s.dispatched ++
        (packetCutter.drain (buf ++ raw)).1.map fun content => (k, parse_content content) := by
  obtain ⟨proto, found, rfl⟩ := Option.map_eq_some_iff.mp holds
  have appended : (s.update_proto k fun p =>
      { p with incomplete_buf := proto.incomplete_buf ++ raw }).buffer k =
        some (proto.incomplete_buf ++ raw) := by
    rw [buffer_update_proto, if_pos rfl, found]
    rfl
  obtain ⟨left, dispatches⟩ := receive_packets_spec deps _ envs _ k appended (Nat.le_refl _)
  unfold on_client_message
  simp only [found]
  rw [if_neg (Nat.not_lt.mpr fits)]
  exact ⟨left, by rw [dispatches, dispatched_update_proto]⟩

/-- One client's messages, each with the answers its packets get. -/
def receive (s : AOServer) (k : UInt64) (messages : List (Bytes × (Nat → Env))) : AOServer :=
  messages.foldl (fun s m => on_client_message deps m.2 s k m.1) s

/-- The receive buffer stays within the limit whenever it is checked, which is after each
append. -/
def WithinLimit : Bytes → List Bytes → Prop
  | _, [] => True
  | buf, raw :: rest =>
    (buf ++ raw).length ≤ MAX_INCOMPLETE_BUF ∧ WithinLimit (packetCutter.drain (buf ++ raw)).2 rest

theorem receive_spec (s : AOServer) (k : UInt64) {buf : Bytes} (holds : s.buffer k = some buf)
    (drained : packetCutter.cut buf = none) (messages : List (Bytes × (Nat → Env)))
    (within : WithinLimit buf (messages.map Prod.fst)) :
    (receive deps s k messages).buffer k =
        some (packetCutter.drain (buf ++ (messages.map Prod.fst).flatten)).2 ∧
      (receive deps s k messages).dispatched = s.dispatched ++
        (packetCutter.drain (buf ++ (messages.map Prod.fst).flatten)).1.map
          fun content => (k, parse_content content) := by
  induction messages generalizing s buf with
  | nil => simp [receive, holds, Cutter.drain_none drained]
  | cons m messages ih =>
    obtain ⟨fits, later⟩ := within
    obtain ⟨left, dispatches⟩ := on_client_message_spec deps m.2 s k holds fits
    obtain ⟨rest, more⟩ := ih _ left (Cutter.cut_drain _) later
    have whole := Cutter.drain_append (c := packetCutter) (buf ++ m.1)
      (messages.map Prod.fst).flatten
    rw [List.map_cons, List.flatten_cons, ← List.append_assoc, whole]
    refine ⟨rest, ?_⟩
    rw [List.map_append, ← List.append_assoc, ← dispatches]
    exact more

/-- A worker handles a message under the dispatch lock, and never comes back if it waits for that lock
itself. -/
def work (s : AOServer) (k : UInt64) (m : Bytes × (Nat → Env)) : Option AOServer :=
  (hold false (lock_calls deps m.2 s k m.1)).map fun _ => on_client_message deps m.2 s k m.1

def work_all (s : AOServer) (k : UInt64) (messages : List (Bytes × (Nat → Env))) : Option AOServer :=
  messages.foldlM (fun s m => work deps s k m) s

/-- No packet of the messages, in the state it meets, is a `HI` that is turned away. -/
def Welcome (k : UInt64) : AOServer → List (Bytes × (Nat → Env)) → Prop
  | _, [] => True
  | s, m :: rest =>
    (∀ p ∈ message_packets deps m.2 s k m.1, turns_away deps p.1 p.2.1 k p.2.2 = false) ∧
      Welcome k (on_client_message deps m.2 s k m.1) rest

theorem work_eq {s : AOServer} {k : UInt64} {m : Bytes × (Nat → Env)}
    (welcome : ∀ p ∈ message_packets deps m.2 s k m.1, turns_away deps p.1 p.2.1 k p.2.2 = false) :
    work deps s k m = some (on_client_message deps m.2 s k m.1) := by
  have quiet : closed_by deps k (message_packets deps m.2 s k m.1) = [] := by
    rw [closed_by_eq_nil]
    rintro ⟨p, member, turned⟩
    rw [welcome p member] at turned
    cases turned
  have added : (on_client_message deps m.2 s k m.1).closed.drop s.closed.length = [] := by
    rw [closed_on_client_message, List.drop_left, quiet]
  unfold work lock_calls
  rw [added]
  rfl

theorem work_all_eq {s : AOServer} {k : UInt64} {messages : List (Bytes × (Nat → Env))}
    (welcome : Welcome deps k s messages) : work_all deps s k messages = some (receive deps s k messages) := by
  induction messages generalizing s with
  | nil => rfl
  | cons m messages ih =>
    obtain ⟨first, rest⟩ := welcome
    rw [work_all, List.foldlM_cons, work_eq deps first]
    exact ih rest

end AOServer

/-- A packet whose header has neither `#` nor `%` and whose fields are encoded texts. -/
structure Encoded (p : AOPacket) : Prop where
  header : 35 ∉ p.header ∧ 37 ∉ p.header
  fields : ∀ f ∈ p.fields, ∃ text, f = ao_encode text

theorem Encoded.clean {p : AOPacket} (encoded : Encoded p) : WireClean p where
  header := encoded.header.1
  fields f inside := by
    obtain ⟨text, rfl⟩ := encoded.fields f inside
    exact (ao_encode_clean text).1

theorem Encoded.content_clean {p : AOPacket} (encoded : Encoded p) : ¬ [35, 37] <:+: p.content := by
  intro occurs
  have inside : (37 : UInt8) ∈ p.content := occurs.subset (by simp)
  rcases mem_content inside with mark | header | ⟨f, member, field⟩
  · exact absurd mark (by decide)
  · exact encoded.header.2 header
  · obtain ⟨text, rfl⟩ := encoded.fields f member
    exact (ao_encode_clean text).2 field

theorem drain_serialized {packets : List AOPacket} (encoded : ∀ p ∈ packets, Encoded p) :
    packetCutter.drain (packets.map AOPacket.serialize).flatten = (packets.map AOPacket.content, []) := by
  have whole : ∀ frame ∈ packets.map fun p => (p.serialize, p.content), ∀ t,
      packetCutter.cut (frame.1 ++ t) = some (frame.2, t) := by
    intro frame inside t
    obtain ⟨p, member, rfl⟩ := List.mem_map.mp inside
    rw [serialize_eq, List.append_assoc]
    exact cutAt_append (by decide) (encoded p member).content_clean t
  have drained := Cutter.drain_flatten whole []
  rw [List.map_map, List.map_map, Cutter.drain_none Cutter.cut_nil] at drained
  simpa [Function.comp_def] using drained

namespace AOServer

/-- Any segmentation of serialised packets into messages, none of which turns the client away, dispatches
the packets the factory builds from their headers and fields, in order, and leaves the receive buffer
empty. -/
theorem segments_dispatch (deps : Deps) (s : AOServer) (k : UInt64) (empty : s.buffer k = some [])
    (packets : List AOPacket) (encoded : ∀ p ∈ packets, Encoded p)
    (messages : List (Bytes × (Nat → Env)))
    (segments : (messages.map Prod.fst).flatten = (packets.map AOPacket.serialize).flatten)
    (within : WithinLimit [] (messages.map Prod.fst)) (welcome : Welcome deps k s messages) :
    ∃ t, work_all deps s k messages = some t ∧
      t.dispatched = s.dispatched ++
        packets.map (fun p => (k, PacketFactory.create_packet p.header p.fields)) ∧
      t.buffer k = some [] := by
  obtain ⟨left, dispatches⟩ := receive_spec deps s k empty Cutter.cut_nil messages within
  rw [List.nil_append, segments, drain_serialized encoded] at left dispatches
  refine ⟨_, work_all_eq deps welcome, ?_, left⟩
  rw [dispatches, List.map_map]
  congr 1
  refine List.map_congr_left fun p member => ?_
  rw [Function.comp_apply, parse_content_eq (encoded p member).clean]

/-- A server with one connected client. -/
def oneClient : AOServer := { proto_state_ := AList.singleton 7 {} }

theorem segments_dispatch_inside_delimiter :
    ∃ t, work_all plainDeps oneClient 7
        [(bytes "CT#a<and>#", fun _ => {}), (bytes "#", fun _ => {}), (bytes "%RC#%", fun _ => {})] = some t ∧
      t.dispatched = oneClient.dispatched ++
        [⟨bytes "CT", [bytes "a<and>", []]⟩, ⟨bytes "RC", []⟩].map
          (fun p : AOPacket => (7, PacketFactory.create_packet p.header p.fields)) ∧
      t.buffer 7 = some [] := by
  refine segments_dispatch plainDeps oneClient 7 (by decide)
    [⟨bytes "CT", [bytes "a<and>", []]⟩, ⟨bytes "RC", []⟩] ?_ _ (by decide) ?_ ?_
  · intro p member
    rcases List.mem_pair.mp member with rfl | rfl
    · refine ⟨by decide, fun f inside => ?_⟩
      rcases List.mem_pair.mp inside with rfl | rfl
      · exact ⟨bytes "a&", by decide⟩
      · exact ⟨[], rfl⟩
    · exact ⟨by decide, nofun⟩
  · exact ⟨by decide, by decide, by decide, trivial⟩
  · exact ⟨by decide, by decide, by decide, trivial⟩

/-- A message that takes the buffer over the limit is lost whole. -/
theorem overflow_dispatches_none (deps : Deps) (envs : Nat → Env) (s : AOServer) (k : UInt64)
    {buf raw : Bytes} (holds : s.buffer k = some buf)
    (past : MAX_INCOMPLETE_BUF < (buf ++ raw).length) :
    (on_client_message deps envs s k raw).dispatched = s.dispatched := by
  obtain ⟨proto, found, rfl⟩ := Option.map_eq_some_iff.mp holds
  unfold on_client_message
  simp only [found]
  rw [if_pos past, dispatched_update_proto, (still_send _ _ _).dispatched, dispatched_update_proto]

/-- Keepalives without fields. -/
def keepalives (n : Nat) : List AOPacket := List.replicate n ⟨bytes "CH", []⟩

theorem keepalives_encoded (n : Nat) : ∀ p ∈ keepalives n, Encoded p := by
  intro p member
  rw [List.eq_of_mem_replicate member]
  exact ⟨by decide, nofun⟩

theorem keepalives_length (n : Nat) :
    ((keepalives n).map AOPacket.serialize).flatten.length = n * 4 := by
  have four : (AOPacket.serialize ⟨bytes "CH", []⟩).length = 4 := by decide
  simp [keepalives, four]

/-- A field of a `DONE` packet is dropped, and one message of complete packets that exceeds
the limit is dropped although nothing of it would stay buffered. -/
theorem fields_and_messages_dropped :
    (Encoded ⟨bytes "DONE", [bytes "x"]⟩ ∧
      (receive plainDeps oneClient 7
        [(AOPacket.serialize ⟨bytes "DONE", [bytes "x"]⟩, fun _ => {})]).dispatched ≠
          [(7, ⟨bytes "DONE", [bytes "x"]⟩)]) ∧
    ((∀ p ∈ keepalives 16385, Encoded p) ∧
      (packetCutter.drain ((keepalives 16385).map AOPacket.serialize).flatten).2 = [] ∧
      (receive plainDeps oneClient 7
        [(((keepalives 16385).map AOPacket.serialize).flatten, fun _ => {})]).dispatched ≠
          (keepalives 16385).map fun p => (7, p)) := by
  refine ⟨⟨⟨by decide, fun f inside => ?_⟩, by decide⟩, keepalives_encoded _, ?_, ?_⟩
  · rw [List.mem_singleton.mp inside]
    exact ⟨bytes "x", by decide⟩
  · rw [drain_serialized (keepalives_encoded _)]
  · have past : MAX_INCOMPLETE_BUF <
        ([] ++ ((keepalives 16385).map AOPacket.serialize).flatten).length := by
      rw [List.nil_append, keepalives_length, MAX_INCOMPLETE_BUF]
      omega
    have dropped (raw : Bytes) (past : MAX_INCOMPLETE_BUF < ([] ++ raw).length) :
        (receive plainDeps oneClient 7 [(raw, fun _ => {})]).dispatched = [] :=
      overflow_dispatches_none plainDeps (fun _ => {}) oneClient 7
        (by decide : oneClient.buffer 7 = some []) past
    have nothing := dropped _ past
    have many (n : Nat) : ((keepalives n).map fun p => ((7 : UInt64), p)).length = n := by
      simp [keepalives]
    intro all
    have lengths := congrArg List.length (nothing.symm.trans all)
    exact absurd (lengths.trans (many 16385)) (by simp)

end AOServer

end AoSdl
