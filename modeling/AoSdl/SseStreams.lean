import AoSdl.HttpServer
import AoSdl.Lib.Window

/-! Server-Sent Events: the poll thread numbers the events that game logic publishes, buffers them,
and writes them to the open streams they are for. A stream that names the last event it had is first
replayed from the buffer, which does not hold the token an event is targeted at. -/
namespace AoSdl.http.sse
open Lib.Runs

structure SSEEvent where
  event : Bytes
  data : Bytes
  /-- Empty for all areas. -/
  area : Bytes := []
  /-- Empty for all sessions. -/
  target_token : Bytes := []
  deriving DecidableEq

structure BufferedSSEEvent where
  id : Nat
  event : Bytes
  data : Bytes
  area : Bytes

structure SSEConnection where
  id : Nat
  area : Bytes
  session_token : Bytes
  deriving DecidableEq

def SSE_BUFFER_CAPACITY : Nat := 1024

/-- An event as it stands on the wire. -/
def frame (id : Nat) (event data : Bytes) : Bytes :=
  bytes "id: " ++ (to_string id ++ 10 :: (bytes "event: " ++ event ++ bytes "\ndata: " ++ data ++
    bytes "\n\n"))

def KEEPALIVE : Bytes := bytes ":keepalive\n\n"

structure ServerState where
  next_event_id : Nat := 1
  sse_event_buffer : List BufferedSSEEvent := []
  sse_by_fd : List (Nat × SSEConnection) := []
  default_headers : List (Bytes × Bytes) := []
  /-- What the streams were given to write, oldest first. -/
  sent : List (SSEConnection × Bytes) := []

def for_token (target_token : Bytes) (sse : SSEConnection) : Bool :=
  target_token.isEmpty || sse.session_token = target_token

def in_area (area : Bytes) (sse : SSEConnection) : Bool :=
  area.isEmpty || sse.area.isEmpty || sse.area = area

/-- The streams a live event is written to. -/
def receives (e : SSEEvent) (sse : SSEConnection) : Bool :=
  for_token e.target_token sse && in_area e.area sse

/-- A stream whose writes fail is dropped. -/
def push_sse (s : ServerState) (e : SSEEvent) (failing : List Nat) : ServerState :=
  let eid := s.next_event_id
  let reached := s.sse_by_fd.filter fun entry => receives e entry.2
  { s with
    next_event_id := eid + 1
    sse_event_buffer :=
      Lib.Window.slide SSE_BUFFER_CAPACITY s.sse_event_buffer ⟨eid, e.event, e.data, e.area⟩
    sse_by_fd := s.sse_by_fd.filter fun entry => !(receives e entry.2 && entry.1 ∈ failing)
    sent := s.sent ++ reached.map fun entry => (entry.2, frame eid e.event e.data) }

def keepalive (s : ServerState) (failing : List Nat) : ServerState :=
  { s with
    sse_by_fd := s.sse_by_fd.filter fun entry => !(entry.1 ∈ failing)
    sent := s.sent ++ s.sse_by_fd.map fun entry => (entry.2, KEEPALIVE) }

structure SSEAcceptResult where
  accepted : Bool := false
  session_token : Bytes := []

/-- The handler of the event endpoint. -/
def events_handler (find_session_by_token : Bytes → Bool) (req : Request) : SSEAcceptResult :=
  let auth := req.headers.get_header_value (bytes "Authorization")
  if auth.length ≤ 7 ∨ auth.take 7 ≠ bytes "Bearer " then {}
  else
    let token := auth.drop 7
    if find_session_by_token token then { accepted := true, session_token := token } else {}

def EVENTS_PATTERN : Bytes := bytes "/aonx/v1/events"

/-- The stream a request opens. -/
def accept (find_session_by_token : Bytes → Bool) (id : Nat) (req : Request) : Option SSEConnection :=
  if is_get req.method && (EVENTS_PATTERN = req.path || (match_path EVENTS_PATTERN req.path).1) then
    let result := events_handler find_session_by_token req
    if result.accepted then
      let area := (req.params.find? fun param => param.1 = bytes "area").elim [] (·.2)
      some { id, area, session_token := result.session_token }
    else none
  else none

/-- `none` when the header is missing or malformed. -/
def last_event_id (req : Request) : Option Nat :=
  let leid := req.headers.get_header_value (bytes "Last-Event-ID")
  if leid.isEmpty then none else (stoull leid).map UInt64.toNat

/-- Whether a buffered event is replayed. -/
def replays (last_id : Nat) (sse : SSEConnection) (buf : BufferedSSEEvent) : Bool :=
  !(buf.id ≤ last_id) && in_area buf.area sse

def replay_frames (s : ServerState) (last_id : Nat) (sse : SSEConnection) : List Bytes :=
  if 0 < last_id then
    (s.sse_event_buffer.filter (replays last_id sse)).map fun buf => frame buf.id buf.event buf.data
  else []

def sse_headers (default_headers : List (Bytes × Bytes)) (date : Bytes) : Bytes :=
  bytes "HTTP/1.1 200 OK\r\n" ++ (bytes "Content-Type: text/event-stream\r\n" ++
    bytes "Cache-Control: no-cache\r\n" ++ bytes "Connection: keep-alive\r\n" ++
    bytes "Date: " ++ date ++ CRLF ++
    (default_headers.map fun (k, v) => k ++ bytes ": " ++ v ++ CRLF).flatten ++ CRLF)

/-- Replays to a new stream, then adds it to the live ones. -/
def open_stream (s : ServerState) (fd : Nat) (sse : SSEConnection) (last_id : Nat) (date : Bytes) :
    ServerState :=
  { s with
    sse_by_fd := if s.sse_by_fd.any fun entry => entry.1 = fd then s.sse_by_fd
      else s.sse_by_fd ++ [(fd, sse)]
    sent := s.sent ++ (sse, sse_headers s.default_headers date) ::
      (replay_frames s last_id sse).map fun frame => (sse, frame) }

/-- The server, the channel its events come through, and all the events it numbered so far. -/
structure World where
  server : ServerState := {}
  channel : List SSEEvent := []
  published : List (Nat × SSEEvent) := []

inductive Event where
  | published (e : SSEEvent)
  /-- The poll thread takes an event from the channel. -/
  | drained (failing : List Nat)
  | requested (fd id : Nat) (req : Request) (find_session_by_token : Bytes → Bool) (date : Bytes)
  | kept_alive (failing : List Nat)
  | disconnected (fd : Nat)

def step (w : World) : Event → World
  | .published e => { w with channel := w.channel ++ [e] }
  | .drained failing =>
    match w.channel with
    | [] => w
    | e :: channel =>
      { server := push_sse w.server e failing
        channel
        published := w.published ++ [(w.server.next_event_id, e)] }
  | .requested fd id req find_session_by_token date =>
    match accept find_session_by_token id req with
    | none => w
    | some sse =>
      { w with server := open_stream w.server fd sse ((last_event_id req).getD 0) date }
  | .kept_alive failing => { w with server := keepalive w.server failing }
  | .disconnected fd =>
    { w with server.sse_by_fd := w.server.sse_by_fd.filter fun entry => entry.1 ≠ fd }

section Frames

theorem to_string_clean (id : Nat) : 10 ∉ to_string id := by
  intro inside
  rcases Lib.Decimal.text_digits id 10 inside with digit | minus
  · exact absurd digit (by decide)
  · exact absurd minus (by decide)

/-- The number leads the frame, so that it tells it from all others. -/
theorem frame_number {i j : Nat} {event data event' data' : Bytes}
    (same : frame i event data = frame j event' data') : i = j := by
  have text : to_string i = to_string j :=
    (Lib.Fields.append_cons_inj (to_string_clean i) (to_string_clean j) (List.append_cancel_left same)).1
  have number := congrArg Lib.Decimal.read text
  simp only [to_string, Lib.Decimal.read_text, Option.some.injEq] at number
  omega

theorem frame_head (id : Nat) (event data : Bytes) : (frame id event data).head? = some 105 := by
  have start : bytes "id: " = [105, 100, 58, 32] := by decide +kernel
  rw [frame, start]
  rfl

theorem keepalive_ne_frame (id : Nat) (event data : Bytes) : KEEPALIVE ≠ frame id event data := by
  intro same
  have first : KEEPALIVE.head? = some 58 := by decide +kernel
  rw [same, frame_head] at first
  exact absurd first (by decide)

theorem headers_ne_frame (default_headers : List (Bytes × Bytes)) (date : Bytes) (id : Nat)
    (event data : Bytes) : sse_headers default_headers date ≠ frame id event data := by
  intro same
  have start : bytes "HTTP/1.1 200 OK\r\n" = 72 :: (bytes "HTTP/1.1 200 OK\r\n").tail := by
    decide +kernel
  have first : (sse_headers default_headers date).head? = some 72 := by
    rw [sse_headers, start]
    rfl
  rw [same, frame_head] at first
  exact absurd first (by decide)

end Frames

end AoSdl.http.sse
