import AoSdl.Lib.FrameMachine
import AoSdl.WebSocketFrame

/-! The server's side of a WebSocket connection after the handshake: frames are read off the
stream, control frames are answered and fragments put together. Sends succeed. A client is
`none` once the server has removed it. -/
namespace AoSdl

structure ClientConnection where
  remote_addr : Bytes := []
  proxy_protocol_resolved : Bool := false
  handshake_complete : Bool := false
  extra_data : Bytes := []
  fragment_buf : Bytes := []
  fragment_opcode : Opcode := .TEXT
  in_fragment : Bool := false
  selected_subprotocol : Bytes := []
  /-- What the socket was given to send. -/
  sent : List Bytes := []

namespace WebSocketServer

def send_frame (client : ClientConnection) (frame : WebSocketFrame) : ClientConnection :=
  { client with sent := client.sent ++ [frame.serialize] }

def close_response (data : Bytes) : WebSocketFrame :=
  let data := if 2 ≤ data.length then data.take 2 else toNetwork 2 1000
  { fin := true, opcode := .CLOSE, mask := false, data
    len := UInt64.ofNat data.length, len_code := UInt8.ofNat data.length }

def pong (data : Bytes) : WebSocketFrame :=
  { fin := true, opcode := .PONG, mask := false, data, len := UInt64.ofNat data.length
    len_code := if data.length ≤ 125 then UInt8.ofNat data.length else 126 }

def assembled (opcode : Opcode) (data : Bytes) : WebSocketFrame :=
  { complete := true, fin := true, opcode, mask := false, len := UInt64.ofNat data.length, data }

/-- The messages a frame completes; `none` stands for an exception. -/
def handle_frame (client : ClientConnection) (frame : WebSocketFrame) :
    ClientConnection × Option (List WebSocketFrame) :=
  match frame.opcode with
  | .CLOSE => (send_frame client (close_response frame.data), none)
  | .PING => (send_frame client (pong frame.data), some [])
  | .PONG => (client, some [])
  | .CONTINUATION =>
    if !client.in_fragment then (client, none)
    else
      let client := { client with fragment_buf := client.fragment_buf ++ frame.data }
      if frame.fin then
        ({ client with fragment_buf := [], in_fragment := false },
          some [assembled client.fragment_opcode client.fragment_buf])
      else (client, some [])
  | _ =>
    if client.in_fragment then (client, none)
    else if frame.fin then (client, some [frame])
    else
      ({ client with
        in_fragment := true, fragment_opcode := frame.opcode, fragment_buf := frame.data }, some [])

/-- The loop over the frames of a buffer of at most `n` bytes. -/
def read_frames : Nat → ClientConnection → Bytes → ClientConnection × Option (List WebSocketFrame)
  | 0, client, bytes => ({ client with extra_data := bytes }, some [])
  | n + 1, client, bytes =>
    match next_frame bytes with
    | none => ({ client with extra_data := bytes }, some [])
    | some (none, _) => (client, none)
    | some (some frame, rest) =>
      match handle_frame client frame with
      | (client, none) => (client, none)
      | (client, some messages) =>
        let (client, more) := read_frames n client rest
        (client, more.map (messages ++ ·))

def read_client_frames (client : ClientConnection) (bytes : Bytes) :
    ClientConnection × Option (List WebSocketFrame) :=
  let bytes := client.extra_data ++ bytes
  read_frames bytes.length { client with extra_data := [] } bytes

/-- A read of a client's bytes and the messages it returns. An exception removes the client. -/
def poll_client (client : Option ClientConnection) (bytes : Bytes) :
    Option ClientConnection × List WebSocketFrame :=
  match client with
  | none => (none, [])
  | some client =>
    match read_client_frames client bytes with
    | (_, none) => (none, [])
    | (client, some messages) => (some client, messages)

/-- The messages the application is given in a sequence of reads. -/
def delivered (client : Option ClientConnection) : List Bytes → List WebSocketFrame
  | [] => []
  | bytes :: reads =>
    (poll_client client bytes).2 ++ delivered (poll_client client bytes).1 reads

section Machine

open Lib.Framing Lib.FrameMachine

def frameMachine : Machine ClientConnection (Option WebSocketFrame) WebSocketFrame where
  step client
    | none => (client, none)
    | some frame => handle_frame client frame

/-- A frame changes what was sent and the fragments. -/
theorem handle_frame_kept (client : ClientConnection) (frame : WebSocketFrame) :
    ∃ sent fragment_buf fragment_opcode in_fragment, (handle_frame client frame).1 =
      { client with sent, fragment_buf, fragment_opcode, in_fragment } := by
  unfold handle_frame
  split
  · exact ⟨_, _, _, _, rfl⟩
  · exact ⟨_, _, _, _, rfl⟩
  · exact ⟨_, _, _, _, rfl⟩
  · dsimp only
    split
    · exact ⟨_, _, _, _, rfl⟩
    · split <;> exact ⟨_, _, _, _, rfl⟩
  · split
    · exact ⟨_, _, _, _, rfl⟩
    · split <;> exact ⟨_, _, _, _, rfl⟩

theorem handle_frame_extra (client : ClientConnection) (frame : WebSocketFrame) :
    (handle_frame client frame).1.extra_data = client.extra_data := by
  obtain ⟨_, _, _, _, kept⟩ := handle_frame_kept client frame
  rw [kept]

theorem read_frames_complete (n : Nat) (client : ClientConnection) (bytes : Bytes) :
    (read_frames n client bytes).1.handshake_complete = client.handshake_complete := by
  induction n generalizing client bytes with
  | zero => rfl
  | succ n ih =>
    rw [read_frames]
    split
    · rfl
    · rfl
    · next frame rest _ =>
      obtain ⟨_, _, _, _, kept⟩ := handle_frame_kept client frame
      have same := congrArg ClientConnection.handshake_complete kept
      split
      · next handled => rw [handled] at same; exact same
      · next handled =>
        rw [handled] at same
        exact (ih _ rest).trans same

theorem run_extra (client : ClientConnection) (frames : List (Option WebSocketFrame)) :
    (frameMachine.run client frames).1.extra_data = client.extra_data := by
  induction frames generalizing client with
  | nil => rfl
  | cons f frames ih =>
    cases f with
    | none => rfl
    | some frame =>
      have kept := handle_frame_extra client frame
      cases handled : handle_frame client frame with
      | mk client' out =>
        rw [handled] at kept
        cases out with
        | none =>
          rw [Machine.run_cons_none (m := frameMachine) (f := some frame) handled]
          exact kept
        | some messages =>
          rw [Machine.run_cons_some (m := frameMachine) (f := some frame) handled]
          exact (ih client').trans kept

theorem read_frames_eq (n : Nat) (client : ClientConnection) {bytes : Bytes} (enough : bytes.length ≤ n) :
    read_frames n client bytes =
      match frameMachine.run client (frameCutter.drain bytes).1 with
      | (client, none) => (client, none)
      | (client, some messages) =>
        ({ client with extra_data := (frameCutter.drain bytes).2 }, some messages) := by
  induction n generalizing client bytes with
  | zero =>
    obtain rfl := List.length_eq_zero_iff.mp (Nat.le_zero.mp enough)
    rw [Cutter.drain_none Cutter.cut_nil]
    rfl
  | succ n ih =>
    rw [read_frames]
    cases next : next_frame bytes with
    | none =>
      rw [Cutter.drain_none (c := frameCutter) next]
      rfl
    | some found =>
      obtain ⟨f, rest⟩ := found
      rw [Cutter.drain_some (c := frameCutter) next]
      cases f with
      | none => rfl
      | some frame =>
        have less : rest.length < bytes.length := frameCutter.shorter next
        dsimp only
        cases handled : handle_frame client frame with
        | mk client' out =>
          cases out with
          | none => rw [Machine.run_cons_none (m := frameMachine) (f := some frame) handled]
          | some messages =>
            rw [Machine.run_cons_some (m := frameMachine) (f := some frame) handled]
            dsimp only
            rw [ih client' (by omega)]
            cases frameMachine.run client' (frameCutter.drain rest).1 with
            | mk client'' out => cases out <;> rfl

/-- A client as a connection of the machine: what is left over is kept apart. -/
def connection (client : Option ClientConnection) : Connection UInt8 ClientConnection :=
  client.map fun client => ({ client with extra_data := [] }, client.extra_data)

theorem poll_client_eq (client : Option ClientConnection) (bytes : Bytes) :
    (connection (poll_client client bytes).1, (poll_client client bytes).2) =
      Lib.FrameMachine.read frameCutter frameMachine (connection client) bytes := by
  cases client with
  | none => rfl
  | some client =>
    have kept := run_extra { client with extra_data := [] }
      (frameCutter.drain (client.extra_data ++ bytes)).1
    unfold poll_client read_client_frames
    dsimp only
    rw [read_frames_eq _ _ (Nat.le_refl _)]
    simp only [connection, Option.map_some, Lib.FrameMachine.read]
    cases ran : frameMachine.run { client with extra_data := [] }
        (frameCutter.drain (client.extra_data ++ bytes)).1 with
    | mk client' out =>
      rw [ran] at kept
      cases out with
      | none => rfl
      | some messages =>
        dsimp only at kept ⊢
        rw [← kept]
        rfl

theorem delivered_eq (client : Option ClientConnection) (reads : List Bytes) :
    delivered client reads = deliver frameCutter frameMachine (connection client) reads := by
  induction reads generalizing client with
  | nil => rfl
  | cons bytes reads ih =>
    obtain ⟨next, messages⟩ := Prod.ext_iff.mp (poll_client_eq client bytes)
    rw [delivered, deliver, ih, ← next, ← messages]

theorem frames_exact : Exact frameCutter := by
  intro s f r next
  obtain ⟨n, _, _, rfl, kept⟩ := next_frame_local next
  refine ⟨s.take n, (List.take_append_drop n s).symm, ?_⟩
  have whole := kept []
  rwa [List.append_nil] at whole

end Machine

section Chunking

open Lib.Framing Lib.FrameMachine

def is_control (opcode : Opcode) : Bool := opcode = .CLOSE || opcode = .PING || opcode = .PONG

/-- The server drops the connection over the frame. -/
def fatal (in_fragment : Bool) : Option WebSocketFrame → Bool
  | none => true
  | some frame =>
    if is_control frame.opcode then frame.opcode = .CLOSE
    else if frame.opcode = .CONTINUATION then !in_fragment
    else in_fragment

/-- A frame that is not fatal ends a message. -/
def completes (frame : WebSocketFrame) : Bool := !is_control frame.opcode && frame.fin

/-- Whether a fatal frame follows a completed message. -/
def fatal_behind_message (in_fragment completed : Bool) : List (Option WebSocketFrame) → Bool
  | [] => false
  | none :: _ => completed
  | some frame :: frames =>
    if fatal in_fragment (some frame) then completed
    else fatal_behind_message
      (if is_control frame.opcode then in_fragment else !frame.fin)
      (completed || completes frame) frames

theorem handle_frame_spec (client : ClientConnection) (frame : WebSocketFrame) :
    (fatal client.in_fragment (some frame) = true ∧ (handle_frame client frame).2 = none) ∨
    (fatal client.in_fragment (some frame) = false ∧
      (handle_frame client frame).1.in_fragment =
        (if is_control frame.opcode then client.in_fragment else !frame.fin) ∧
      ∃ messages, (handle_frame client frame).2 = some messages ∧
        (messages = [] ↔ completes frame = false)) := by
  unfold handle_frame fatal completes
  dsimp only
  cases op : frame.opcode with
  | CLOSE => exact .inl ⟨rfl, rfl⟩
  | PING | PONG => exact .inr ⟨rfl, rfl, [], rfl, by simp [is_control]⟩
  | CONTINUATION =>
    cases open_ : client.in_fragment with
    | false => exact .inl ⟨rfl, by simp⟩
    | true =>
      refine .inr ⟨rfl, ?_⟩
      cases fin : frame.fin <;> simp [is_control]
  | TEXT | BINARY | reserved code =>
    cases open_ : client.in_fragment with
    | true => exact .inl ⟨rfl, by simp⟩
    | false =>
      refine .inr ⟨rfl, ?_⟩
      cases fin : frame.fin <;> simp [is_control, open_]

theorem quiet_failure_iff (client : ClientConnection) (completed : Bool)
    (frames : List (Option WebSocketFrame)) :
    ((frameMachine.run client frames).2 = none →
        completed = false ∧ frameMachine.before client frames = []) ↔
      fatal_behind_message client.in_fragment completed frames = false := by
  induction frames generalizing client completed with
  | nil => simp [Machine.run, fatal_behind_message]
  | cons f frames ih =>
    cases f with
    | none =>
      have stepped : frameMachine.step client none = (client, none) := rfl
      rw [Machine.run_cons_none stepped, Machine.before_cons_none stepped]
      simp [fatal_behind_message]
    | some frame =>
      have spec := handle_frame_spec client frame
      rw [fatal_behind_message]
      cases handled : handle_frame client frame with
      | mk client' out =>
        rw [handled] at spec
        rcases spec with ⟨fatal, failed⟩ | ⟨fine, inside, messages, yields, quiet⟩
        · obtain rfl : out = none := failed
          rw [Machine.run_cons_none (m := frameMachine) (f := some frame) handled,
            Machine.before_cons_none (m := frameMachine) (f := some frame) handled]
          simp [fatal]
        · obtain rfl : out = some messages := yields
          dsimp only at inside
          have later := ih client' (completed || completes frame)
          rw [inside] at later
          rw [Machine.run_cons_some (m := frameMachine) (f := some frame) handled,
            Machine.before_cons_some (m := frameMachine) (f := some frame) handled, fine, if_neg Bool.false_ne_true,
            ← later, Bool.or_eq_false_iff, List.append_eq_nil_iff, quiet, and_assoc,
            Option.map_eq_none_iff]

/-- The messages of a stream do not depend on how it comes in exactly if no message is complete
before a frame over which the server drops the connection. -/
theorem messages_agree_iff (client : ClientConnection) (stream : Bytes) (fresh : client.extra_data = []) :
    (∀ reads reads' : List Bytes, reads.flatten = stream → reads'.flatten = stream →
        delivered (some client) reads = delivered (some client) reads') ↔
      fatal_behind_message client.in_fragment false (frameCutter.drain stream).1 = false := by
  have same : connection (some client) = some (client, []) := by
    rw [connection, Option.map_some, fresh, ← fresh]
  simp only [delivered_eq, same]
  rw [deliver_agree_iff frames_exact, ← quiet_failure_iff]
  simp

/-- A text in two fragments with a ping between them. -/
def fragments : Bytes := [0x01, 1, 104, 0x89, 0, 0x80, 1, 105]

theorem fragments_agree :
    delivered (some {}) [fragments] = [assembled .TEXT (bytes "hi")] ∧
      delivered (some {}) [fragments.take 4, fragments.drop 4] = [assembled .TEXT (bytes "hi")] := by
  have whole : delivered (some {}) [fragments] = [assembled .TEXT (bytes "hi")] := by decide
  refine ⟨whole, ?_⟩
  rw [← whole]
  exact (messages_agree_iff {} fragments rfl).mpr (by decide) _ [fragments] (by decide) (by decide)

/-- A text followed by a close frame. -/
def goodbye : Bytes := [0x81, 2, 104, 105, 0x88, 0]

theorem message_lost_with_close :
    delivered (some {}) [goodbye] = [] ∧
    (delivered (some {}) [goodbye.take 4, goodbye.drop 4]).map (·.data) = [bytes "hi"] ∧
    ¬ ∀ reads reads' : List Bytes, reads.flatten = goodbye → reads'.flatten = goodbye →
      delivered (some {}) reads = delivered (some {}) reads' := by
  refine ⟨by decide, by decide, fun agree => ?_⟩
  have same := agree [goodbye] [goodbye.take 4, goodbye.drop 4] (by decide) (by decide)
  exact absurd same (by decide)

end Chunking

end WebSocketServer

end AoSdl
