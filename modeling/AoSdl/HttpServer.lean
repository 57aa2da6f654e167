import AoSdl.HttpParsing
import AoSdl.Lib.Runs
import AoSdl.ProxyProtocol

/-! The HTTP server: the poll thread cuts requests off the connections and publishes them, the
workers answer them in any order, and the poll thread writes the answers. What a handler makes of
a request is an input. -/
namespace AoSdl.http
open Lib.Runs

/-- The handlers by pattern, and the reverse proxies. -/
structure ServerConfig (H : Type) where
  sse_handlers : List (Bytes × H) := []
  inline_get_handlers : List (Bytes × H) := []
  get_handlers : List (Bytes × H) := []
  post_handlers : List (Bytes × H) := []
  put_handlers : List (Bytes × H) := []
  patch_handlers : List (Bytes × H) := []
  delete_handlers : List (Bytes × H) := []
  options_handlers : List (Bytes × H) := []
  reverse_proxy_enabled : Bool := false
  proxy_protocol : Bool := false
  header_priority : List Bytes := []
  is_trusted : Bytes → Bool := fun _ => false
  extract_forwarded_ip : Bytes → Bytes := id

structure HttpConnection where
  recv_buf : Bytes := []
  remote_addr : Bytes := []
  proxy_protocol_parsed : Bool := false
  headers_complete : Bool := false
  dispatched : Bool := false
  header_end_pos : Nat := 0
  content_length : Nat := 0
  keep_alive : Bool := false
  /-- The response whose bytes these are, and if it is one to `HEAD`. -/
  pending_send : Option (Response × Bool) := none
  send_keep_alive : Bool := false

/-- What a read makes of a connection. -/
inductive Reading where
  | waits (conn : HttpConnection)
  | leaves
  | refuses (res : Response)
  | reads (conn : HttpConnection) (req : Request)

section Reading

variable {H : Type} (cfg : ServerConfig H)

/-- Takes the header of the PROXY protocol off, once for each connection. `none` waits for
more bytes. -/
def unwrap_proxy (conn : HttpConnection) : Option HttpConnection :=
  if cfg.proxy_protocol && !conn.proxy_protocol_parsed && cfg.is_trusted conn.remote_addr &&
      !conn.recv_buf.isEmpty then
    let pp := net.parse_proxy_protocol conn.recv_buf
    if pp.need_more_data then none
    else some { conn with
      remote_addr := if pp.valid && !pp.client_addr.isEmpty then pp.client_addr else conn.remote_addr
      recv_buf := conn.recv_buf.drop pp.header_length
      proxy_protocol_parsed := true }
  else some { conn with proxy_protocol_parsed := true }

/-- The limits on a request line and on header sections that are not complete yet. -/
def check_sizes (conn : HttpConnection) : Option Response :=
  let long_line :=
    match Lib.Framing.cutAt 13 10 conn.recv_buf with
    | some (req_line, _) => uri_too_long req_line
    | none => MAX_URI_LENGTH + 100 < conn.recv_buf.length
  if !conn.headers_complete && long_line then some (.plain 414 "URI Too Long")
  else if MAX_HEADER_SECTION_LENGTH < conn.recv_buf.length ∧ find_header_end conn.recv_buf = none then
    some (.plain 431 "Request Header Fields Too Large")
  else none

/-- Runs once for each request, when the empty line has arrived. -/
def read_headers (conn : HttpConnection) : Except Response HttpConnection :=
  if conn.headers_complete then .ok conn
  else
    match find_header_end conn.recv_buf with
    | none => .ok conn
    | some header_end =>
      let raw_err := validate_raw_request conn.recv_buf
      let header_section := conn.recv_buf.take header_end
      let content_length := (extract_content_length_raw header_section).getD conn.content_length
      if raw_err ≠ 0 then .error (.plain raw_err (status_message raw_err))
      else if has_transfer_encoding_raw header_section then .error (.plain 411 "Length Required")
      else if MAX_BODY_LENGTH < content_length then .error (.plain 413 "Content Too Large")
      else .ok { conn with headers_complete := true, header_end_pos := header_end, content_length }

def read_body (conn : HttpConnection) (closed : Bool) : Reading :=
  let body_start := conn.header_end_pos + 4
  if conn.recv_buf.length - body_start < conn.content_length then
    if closed then .leaves else .waits conn
  else
    let req := parse_http_request (conn.recv_buf.take body_start)
      ((conn.recv_buf.drop body_start).take conn.content_length)
    let parsed_err := validate_parsed_request req
    if parsed_err ≠ 0 then .refuses (.plain parsed_err (status_message parsed_err))
    else .reads { conn with dispatched := true } req

/-- A read of the connection, up to the dispatch of a complete request. -/
def receive (conn : HttpConnection) (chunk : Bytes) (closed : Bool) : Reading :=
  let conn := { conn with recv_buf := conn.recv_buf ++ chunk }
  if closed && conn.recv_buf.isEmpty then .leaves
  else
    match unwrap_proxy cfg conn with
    | none => .waits conn
    | some conn =>
      match check_sizes conn with
      | some res => .refuses res
      | none =>
        match read_headers conn with
        | .error res => .refuses res
        | .ok conn =>
          if conn.headers_complete && !conn.dispatched then read_body conn closed else .waits conn

end Reading

section Routes

/-- The static parts of a pattern, each before a parameter, and the last static part. The fuel is
the length of the pattern. -/
def PathParamsMatcher : Nat → Bytes → List (Bytes × Bytes) × Bytes
  | 0, pattern => ([], pattern)
  | fuel + 1, pattern =>
    match Lib.Fields.splitFirst 58 pattern with
    | none => ([], pattern)
    | some (fragment, rest) =>
      let (parts, last) := PathParamsMatcher fuel (rest.dropWhile (· ≠ 47))
      ((fragment, rest.takeWhile (· ≠ 47)) :: parts, last)

def set_param (params : List (Bytes × Bytes)) (name value : Bytes) : List (Bytes × Bytes) :=
  (name, value) :: params.filter (·.1 ≠ name)

/-- Whether the path matches, and the parameters found until then. -/
def match_parts (last : Bytes) : List (Bytes × Bytes) → Bytes → List (Bytes × Bytes) →
    Bool × List (Bytes × Bytes)
  | [], path, params => (path = last, params)
  | (fragment, name) :: parts, path, params =>
    if fragment <+: path then
      let rest := path.drop fragment.length
      match_parts last parts (rest.dropWhile (· ≠ 47)) (set_param params name (rest.takeWhile (· ≠ 47)))
    else (false, params)

def match_path (pattern path : Bytes) : Bool × List (Bytes × Bytes) :=
  let (parts, last) := PathParamsMatcher pattern.length pattern
  match_parts last parts path []

variable {H : Type} (cfg : ServerConfig H)

def find_handler : List (Bytes × H) → Request → Option H × Request
  | [], req => (none, req)
  | (pattern, handler) :: handlers, req =>
    if pattern = req.path then (some handler, req)
    else
      let (found, path_params) := match_path pattern req.path
      let req := { req with path_params }
      if found then (some handler, req) else find_handler handlers req

def is_get (method : Bytes) : Bool := method = bytes "GET"

def is_head (method : Bytes) : Bool := method = bytes "HEAD"

/-- `HEAD` is answered by the handlers for `GET`. -/
def ServerConfig.handlers_for (method : Bytes) : List (Bytes × H) :=
  if is_get method || is_head method then cfg.get_handlers
  else if method = bytes "POST" then cfg.post_handlers
  else if method = bytes "PUT" then cfg.put_handlers
  else if method = bytes "PATCH" then cfg.patch_handlers
  else if method = bytes "DELETE" then cfg.delete_handlers
  else if method = bytes "OPTIONS" then cfg.options_handlers
  else []

inductive Route (H : Type) where
  | sse (req : Request)
  | inlined (req : Request)
  | worker (handler : Option H) (req : Request)

def Route.request {H : Type} : Route H → Request
  | .sse req | .inlined req | .worker _ req => req

def Route.to_worker {H : Type} : Route H → Bool
  | .worker _ _ => true
  | _ => false

/-- Event streams come first, then the handlers that run on the poll thread. -/
def route (req : Request) : Route H :=
  match find_handler (if is_get req.method then cfg.sse_handlers else []) req with
  | (some _, req) => .sse req
  | (none, req) =>
    let handlers := if is_get req.method || is_head req.method then cfg.inline_get_handlers else []
    match find_handler handlers req with
    | (some _, req) => .inlined req
    | (none, req) =>
      let (handler, req) := find_handler (cfg.handlers_for req.method) req
      .worker handler req

theorem find_handler_request (handlers : List (Bytes × H)) (req : Request) :
    ∃ path_params, (find_handler handlers req).2 = { req with path_params } := by
  induction handlers generalizing req with
  | nil => exact ⟨req.path_params, rfl⟩
  | cons entry handlers ih =>
    simp only [find_handler]
    split
    · exact ⟨req.path_params, rfl⟩
    · split
      · exact ⟨_, rfl⟩
      · exact ih { req with path_params := (match_path entry.1 req.path).2 }

/-- Looking for handlers changes a request in the parameters of its path only. -/
theorem route_request (req : Request) :
    ∃ path_params, (route cfg req).request = { req with path_params } := by
  rw [route]
  generalize (if is_get req.method then cfg.sse_handlers else []) = streams
  obtain ⟨first, same⟩ := find_handler_request streams req
  generalize find_handler streams req = found at same ⊢
  obtain ⟨_ | _, req₁⟩ := found
  · obtain rfl : req₁ = { req with path_params := first } := same
    simp only
    generalize (if is_get req.method || is_head req.method then cfg.inline_get_handlers else []) = handlers
    obtain ⟨second, same⟩ := find_handler_request handlers { req with path_params := first }
    generalize find_handler handlers { req with path_params := first } = found at same ⊢
    obtain ⟨_ | _, req₂⟩ := found
    · obtain rfl : req₂ = { req with path_params := second } := same
      exact find_handler_request (cfg.handlers_for req.method) { req with path_params := second }
    · exact ⟨second, same⟩
  · exact ⟨first, same⟩

/-- The address behind trusted proxies. -/
def real_addr (remote_addr : Bytes) (headers : Headers) : Bytes :=
  if cfg.reverse_proxy_enabled && cfg.is_trusted remote_addr then
    (cfg.header_priority.findSome? fun hdr =>
      let val := headers.get_header_value hdr
      let real_ip := cfg.extract_forwarded_ip val
      if val.isEmpty || real_ip.isEmpty then none else some real_ip).getD remote_addr
  else remote_addr

end Routes

structure WorkItem (H : Type) where
  connection_id : Nat
  request : Request
  handler : Option H
  is_head : Bool

structure WorkResult where
  connection_id : Nat
  response : Response
  is_head : Bool
  request_keep_alive : Bool

/-- A response as it is written to a socket. -/
structure Sent where
  response : Response
  is_head : Bool
  keep_alive : Bool

/-- What happened on a connection. Nothing reads it. -/
structure History where
  received : Bytes := []
  dispatched : List Request := []
  answers : List (Request × Response) := []
  written : List Sent := []

structure ServerState (H : Type) where
  connections : Nat → Option HttpConnection := fun _ => none
  next_conn_id : Nat := 1
  /-- What is published or in the hands of a worker. -/
  work_channel : List (WorkItem H) := []
  result_channel : List WorkResult := []
  history : Nat → History := fun _ => {}

/-- What a handler leaves behind. -/
structure HandlerRun where
  res : Response := { status := 200 }
  threw : Bool := false
  accepted : Bool := false

def HandlerRun.response (handled : HandlerRun) : Response :=
  if handled.threw then
    { handled.res with status := 500 }.set_content (bytes "Internal Server Error") (bytes "text/plain")
  else handled.res

def asks_keep_alive (req : Request) : Bool :=
  case_ignore.equal (req.headers.get_header_value (bytes "Connection")) (bytes "keep-alive")

/-- What a worker publishes. -/
def WorkItem.result {H : Type} (item : WorkItem H) (handled : HandlerRun) : WorkResult where
  connection_id := item.connection_id
  response :=
    match item.handler with
    | some _ => handled.response
    | none => .plain 404 "Not Found"
  is_head := item.is_head
  request_keep_alive := asks_keep_alive item.request

/-- The start of an event stream. -/
def sse_response : Response :=
  { status := 200
    headers := [(bytes "Cache-Control", bytes "no-cache"), (bytes "Content-Type", bytes "text/event-stream")] }

namespace ServerState

variable {H : Type} (cfg : ServerConfig H) (s : ServerState H)

def set_connection (id : Nat) (conn : Option HttpConnection) : ServerState H :=
  { s with connections := Function.update s.connections id conn }

def remove_connection (id : Nat) : ServerState H := s.set_connection id none

def record (id : Nat) (change : History → History) : ServerState H :=
  { s with history := Function.update s.history id (change (s.history id)) }

def accept (remote_addr : Bytes) : ServerState H :=
  { s.set_connection s.next_conn_id (some { remote_addr }) with next_conn_id := s.next_conn_id + 1 }

def write (id : Nat) (sent : Sent) : ServerState H :=
  s.record id fun h => { h with written := h.written ++ [sent] }

/-- An answer of the poll thread itself, after which the connection is not read any more. -/
def answer (id : Nat) (req : Request) (sent : Sent) : ServerState H :=
  (s.record id fun h =>
    { h with
      dispatched := h.dispatched ++ [req]
      answers := h.answers ++ [(req, sent.response)]
      written := h.written ++ [sent] }).remove_connection id

def dispatch (id : Nat) (conn : HttpConnection) (req : Request) (handled : HandlerRun) : ServerState H :=
  match route cfg req with
  | .sse req =>
    if handled.accepted then s.answer id req ⟨sse_response, false, true⟩
    else s.answer id req ⟨handled.res, false, false⟩
  | .inlined req => s.answer id req ⟨handled.response, is_head req.method, false⟩
  | .worker handler req =>
    let req := { req with remote_addr := real_addr cfg conn.remote_addr req.headers }
    let s := (s.set_connection id (some conn)).record id fun h => { h with dispatched := h.dispatched ++ [req] }
    { s with work_channel := s.work_channel ++ [⟨id, req, handler, is_head req.method⟩] }

def on_readable (id : Nat) (chunk : Bytes) (closed : Bool) (handled : HandlerRun) : ServerState H :=
  match s.connections id with
  | none => s
  | some conn =>
    let s := s.record id fun h => { h with received := h.received ++ chunk }
    match receive cfg conn chunk closed with
    | .waits conn => s.set_connection id (some conn)
    | .leaves => s.remove_connection id
    | .refuses res => (s.write id ⟨res, false, false⟩).remove_connection id
    | .reads conn req => s.dispatch cfg id conn req handled

/-- A worker finishes one of the items. -/
def work (i : Nat) (handled : HandlerRun) : ServerState H :=
  match s.work_channel[i]? with
  | none => s
  | some item =>
    let result := item.result handled
    let s := s.record item.connection_id fun h =>
      { h with answers := h.answers ++ [(item.request, result.response)] }
    { s with
      work_channel := s.work_channel.eraseIdx i
      result_channel := s.result_channel ++ [result] }

def write_pending (id : Nat) (conn : HttpConnection) (fully_sent : Bool) : ServerState H :=
  match conn.pending_send with
  | none => s
  | some (response, is_head) =>
    if fully_sent then s.write id ⟨response, is_head, conn.send_keep_alive⟩ else s

/-- The end of a send. A connection that is kept starts again with an empty buffer. -/
def sent (id : Nat) (conn : HttpConnection) (fully_sent : Bool) : ServerState H :=
  let s := s.write_pending id conn fully_sent
  if conn.send_keep_alive && fully_sent then
    s.set_connection id (some { conn with
      pending_send := none
      headers_complete := false
      dispatched := false
      header_end_pos := 0
      content_length := 0
      recv_buf := []
      keep_alive := true })
  else s.remove_connection id

def closes (response : Response) : Bool :=
  case_ignore.equal (response.headers.get_header_value (bytes "Connection")) (bytes "close")

/-- The poll thread takes a result. `done` tells if the send that follows at once writes the whole
response, and is `none` for a send that goes on by itself. -/
def respond (done : Option Bool) : ServerState H :=
  match s.result_channel with
  | [] => s
  | result :: results =>
    let s := { s with result_channel := results }
    match s.connections result.connection_id with
    | none => s
    | some conn =>
      let conn := { conn with
        pending_send := some (result.response, result.is_head)
        send_keep_alive := result.request_keep_alive && !closes result.response }
      match done with
      | some fully_sent => s.sent result.connection_id conn fully_sent
      | none => s.set_connection result.connection_id (some { conn with dispatched := true })

def send_done (id : Nat) (fully_sent : Bool) : ServerState H :=
  match s.connections id with
  | none => s
  | some conn => s.sent id conn fully_sent

end ServerState

inductive ServerEvent where
  | accept (remote_addr : Bytes)
  | readable (id : Nat) (chunk : Bytes) (closed : Bool) (handled : HandlerRun)
  | work (i : Nat) (handled : HandlerRun)
  | respond (done : Option Bool)
  | send_done (id : Nat) (fully_sent : Bool)

def step {H : Type} (cfg : ServerConfig H) (s : ServerState H) : ServerEvent → ServerState H
  | .accept remote_addr => s.accept remote_addr
  | .readable id chunk closed handled => s.on_readable cfg id chunk closed handled
  | .work i handled => s.work i handled
  | .respond done => s.respond done
  | .send_done id fully_sent => s.send_done id fully_sent

end AoSdl.http
