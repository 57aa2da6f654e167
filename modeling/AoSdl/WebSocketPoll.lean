import AoSdl.ProxyProtocol
import AoSdl.WebSocketHandshake

/-! What one `poll` does with one connection: the timeouts, the PROXY header, the handshake and the
frames. Bytes come as completion data, or are drained from the socket. The clock stands still
while it runs. -/
namespace AoSdl

/-- Seconds. -/
structure TimeoutConfig where
  handshake_sec : Int := 10
  idle_sec : Int := 120
  partial_frame_sec : Int := 30

structure PollConfig extends HandshakeConfig where
  proxy_protocol : Bool := false
  timeouts : TimeoutConfig := {}

structure Connection extends ClientConnection where
  proxy_protocol_parsed : Bool := false
  /-- Nanoseconds. -/
  connected_at : Int := 0
  last_data_at : Int := 0
  recv_buf : Bytes := []
  closed : Bool := false
  /-- What the socket has received and nobody read. -/
  unread : Bytes := []

/-- What happens to a connection from one `poll` to the next, and to what it sends. -/
structure Turn where
  /-- A hang-up or error event. -/
  hang_up : Bool := false
  /-- Completion data. -/
  data : Bytes := []
  /-- What arrived in the socket, and what still does between the handshake and the frames. -/
  arrived : Bytes := []
  later : Bytes := []
  /-- `recv` throws once nothing is left. -/
  broken : Bool := false
  /-- The socket throws at the response of the handshake, or at a `PONG`. -/
  response_fails : Bool := false
  pong_fails : Bool := false

/-- What the loop of `poll` does with a connection: what it leaves of it, whether it is new or dead,
and the messages it brings. -/
structure Visit where
  client : Connection
  connected : Bool := false
  dead : Bool := false
  frames : List WebSocketFrame := []

namespace WebSocketServer

variable (cfg : PollConfig)

/-- `now - since > std::chrono::seconds(sec)`. -/
def past (now since sec : Int) : Bool := sec * 1000000000 < now - since

/-- The bytes, and the connection without them; `none` stands for an exception. -/
def drain_client (now : Int) (broken : Bool) (client : Connection) : Option (Bytes × Connection) :=
  if !client.recv_buf.isEmpty then
    some (client.recv_buf, { client with recv_buf := [], last_data_at := now })
  else if client.unread.isEmpty then
    if broken then none else some ([], client)
  else some (client.unread, { client with unread := [], last_data_at := now })

/-- The events of the poller for a connection. -/
def dispatch (turn : Turn) (client : Connection) : Connection :=
  { client with
    recv_buf := client.recv_buf ++ turn.data
    unread := client.unread ++ turn.arrived
    closed := client.closed || turn.hang_up }

/-- The first timeout that is over. -/
def overdue (now : Int) (client : Connection) : Bool :=
  (!client.handshake_complete && past now client.connected_at cfg.timeouts.handshake_sec) ||
  (client.handshake_complete && past now client.last_data_at cfg.timeouts.idle_sec) ||
  (!client.extra_data.isEmpty && past now client.last_data_at cfg.timeouts.partial_frame_sec)

/-- The buffer the PROXY header is looked for in. -/
def proxy_buffer (client : Connection) : Bytes :=
  if client.extra_data.isEmpty then client.recv_buf else client.extra_data

/-- The connection behind a header, which is taken off the buffer it was found in. -/
def take_header (client : Connection) (pp : net.ProxyProtocolResult) : Connection :=
  let resolved := pp.valid && !pp.client_addr.isEmpty
  { client with
    remote_addr := if resolved then pp.client_addr else client.remote_addr
    proxy_protocol_resolved := resolved || client.proxy_protocol_resolved
    extra_data := client.extra_data.drop pp.header_length
    recv_buf := if client.extra_data.isEmpty then client.recv_buf.drop pp.header_length
      else client.recv_buf
    proxy_protocol_parsed := true }

/-- The PROXY header, once for a connection. `none` while it is not all there. -/
def proxy_header (client : Connection) : Option Connection :=
  if client.proxy_protocol_parsed then some client
  else if cfg.proxy_protocol && cfg.is_trusted client.remote_addr then
    if (proxy_buffer client).isEmpty then some client
    else
      let pp := net.parse_proxy_protocol (proxy_buffer client)
      if pp.need_more_data then none else some (take_header client pp)
  else some { client with proxy_protocol_parsed := true }

/-- `perform_server_handshake`; `none` stands for an exception. -/
def shake (now : Int) (turn : Turn) (client : Connection) : Option (Bool × Connection) :=
  match drain_client now turn.broken client with
  | none => none
  | some (bytes, client) =>
    match perform_server_handshake cfg.toHandshakeConfig client.toClientConnection bytes with
    | none => none
    | some (complete, answered) =>
      if complete && turn.response_fails then none
      else some (complete, { client with toClientConnection := answered })

/-- `read_client_frames`; `none` stands for an exception. What is sent without one is `PONG`s. -/
def read_connection (now : Int) (turn : Turn) (client : Connection) :
    Option (List WebSocketFrame × Connection) :=
  match drain_client now turn.broken client with
  | none => none
  | some (bytes, client) =>
    match read_client_frames client.toClientConnection bytes with
    | (_, none) => none
    | (read, some messages) =>
      if turn.pong_fails && client.sent.length < read.sent.length then none
      else some (messages, { client with toClientConnection := read })

/-- The frames of a connection whose handshake is complete. -/
def read_turn (now : Int) (turn : Turn) (connected : Bool) (client : Connection) : Visit :=
  match read_connection now turn client with
  | none => { client, connected, dead := true }
  | some (frames, client) => { client, connected, frames }

/-- A connection whose handshake is not complete: the PROXY header, then the handshake. The flag says
whether the handshake is complete now, and `none` stands for an exception. -/
def greet (now : Int) (turn : Turn) (client : Connection) : Option (Bool × Connection) :=
  match proxy_header cfg client with
  | none => some (false, client)
  | some client => shake cfg now turn client

/-- What `poll` does with a connection that nothing has ended. -/
def serve (now : Int) (turn : Turn) (client : Connection) : Visit :=
  if client.handshake_complete then read_turn now turn false client
  else
    match greet cfg now turn client with
    | none => { client, dead := true }
    | some (false, client) => { client }
    | some (true, client) =>
      read_turn now turn true { client with unread := client.unread ++ turn.later }

def visit (now : Int) (turn : Turn) (client : Connection) : Visit :=
  if client.closed || overdue cfg now client then { client, dead := true }
  else serve cfg now turn client

/-- A connection ends before its handshake is complete: it is hung up, overdue or refused. -/
def lost (now : Int) (turn : Turn) (client : Connection) : Bool :=
  client.closed || overdue cfg now client || (greet cfg now turn client).isNone

section Visit

variable {cfg} {now : Int} {turn : Turn} {client : Connection}

theorem drain_complete {broken : Bool} {bytes : Bytes} {drained : Connection}
    (drains : drain_client now broken client = some (bytes, drained)) :
    drained.handshake_complete = client.handshake_complete := by
  unfold drain_client at drains
  split at drains
  · cases drains
    rfl
  · split at drains
    · split at drains <;> cases drains
      rfl
    · cases drains
      rfl

theorem proxy_header_complete {client' : Connection} (header : proxy_header cfg client = some client') :
    client'.handshake_complete = client.handshake_complete := by
  unfold proxy_header at header
  split at header
  · cases header
    rfl
  · split at header
    · dsimp only at header
      split at header
      · cases header
        rfl
      · split at header
        · cases header
        · cases header
          rfl
    · cases header
      rfl

theorem perform_complete {cfg : HandshakeConfig} {client answered : ClientConnection} {chunk : Bytes}
    {complete : Bool} (done : perform_server_handshake cfg client chunk = some (complete, answered)) :
    answered.handshake_complete = (client.handshake_complete || complete) := by
  rw [perform_eq] at done
  split at done
  · cases done
    exact (Bool.or_false _).symm
  · obtain ⟨answered, answers, same⟩ := Option.map_eq_some_iff.mp done
    cases same
    unfold answer at answers
    split at answers
    · cases answers
    · dsimp only at answers
      split at answers
      · cases answers
      · split at answers
        · cases answers
        · split at answers
          · cases answers
          · split at answers <;> cases answers
            exact (Bool.or_true _).symm

theorem shake_complete {complete : Bool} {client' : Connection}
    (done : shake cfg now turn client = some (complete, client')) :
    client'.handshake_complete = (client.handshake_complete || complete) := by
  unfold shake at done
  split at done
  · cases done
  · next drains =>
    split at done
    · cases done
    · next performed =>
      split at done
      · cases done
      · cases done
        rw [← drain_complete drains]
        exact perform_complete performed

theorem greet_complete {complete : Bool} {client' : Connection}
    (done : greet cfg now turn client = some (complete, client')) :
    client'.handshake_complete = (client.handshake_complete || complete) := by
  unfold greet at done
  split at done
  · cases done
    exact (Bool.or_false _).symm
  · next header =>
    rw [shake_complete done, proxy_header_complete header]

theorem read_turn_spec (now : Int) (turn : Turn) (client : Connection) (connected : Bool) :
    (read_turn now turn connected client).connected = connected ∧
      (read_turn now turn connected client).client.handshake_complete = client.handshake_complete := by
  unfold read_turn
  split
  · exact ⟨rfl, rfl⟩
  · next frames read reads =>
    refine ⟨rfl, ?_⟩
    unfold read_connection at reads
    split at reads
    · cases reads
    · next bytes drained drains =>
      split at reads
      · cases reads
      · next result _ got =>
        split at reads
        · cases reads
        · cases reads
          have same := read_frames_complete (drained.extra_data ++ bytes).length
            { drained.toClientConnection with extra_data := [] } (drained.extra_data ++ bytes)
          have kept := congrArg (·.1.handshake_complete) got
          exact kept.symm.trans (same.trans (drain_complete drains))

/-- What a visit makes of a connection. One whose handshake was not complete is either new or not,
and if it is not new, it is dead exactly if it is lost. -/
theorem visit_spec (cfg : PollConfig) (now : Int) (turn : Turn) (client : Connection) :
    (client.handshake_complete = true → (visit cfg now turn client).connected = false) ∧
    (client.handshake_complete = false → (visit cfg now turn client).connected = false →
      (visit cfg now turn client).dead = lost cfg now turn client) ∧
    (visit cfg now turn client).client.handshake_complete =
      (client.handshake_complete || (visit cfg now turn client).connected) := by
  unfold visit lost
  cases ended : client.closed || overdue cfg now client with
  | true => simp
  | false =>
    unfold serve
    cases complete : client.handshake_complete with
    | true =>
      obtain ⟨old, same⟩ := read_turn_spec now turn client false
      simp [old, same, complete]
    | false =>
      cases greeted : greet cfg now turn client with
      | none => simp [complete]
      | some result =>
        obtain ⟨done, answered⟩ := result
        have after := greet_complete greeted
        cases done with
        | false => simp [after, complete]
        | true =>
          obtain ⟨new, kept⟩ := read_turn_spec now turn
            { answered with unread := answered.unread ++ turn.later } true
          simp [new, kept, after]

end Visit

end WebSocketServer

end AoSdl
