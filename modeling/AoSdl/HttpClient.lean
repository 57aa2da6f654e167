import AoSdl.HttpParsing
import AoSdl.InetAddress
import AoSdl.Lib.Arrivals

/-! The HTTP client: the bytes of a request, one connection that is kept from request to request, and
the reading of a response off it. What the server sends, and when, is an input. -/
namespace AoSdl.http.client
open Lib.Arrivals

abbrev Wire := Lib.Arrivals.Wire UInt8

abbrev Line := List (Arrival UInt8)

def MAX_CLIENT_HEADER_SIZE : Nat := 65536

/-- The number a text starts with; `none` stands for the errors of `std::from_chars`. -/
def from_chars_int (s : Bytes) : Option Int :=
  (match s with
    | 45 :: rest => (Lib.Decimal.readNat rest).map fun n : Nat => -(n : Int)
    | _ => (Lib.Decimal.readNat s).map Int.ofNat).filter fun n => -2 ^ 31 ≤ n && n < 2 ^ 31

def from_chars_u64 (s : Bytes) : Option Nat := (Lib.Decimal.readNat s).filter (· < 2 ^ 64)

def from_chars_hex (s : Bytes) : Option Nat :=
  let digits := s.takeWhile fun c => (hex_digit_value c).isSome
  if digits.isEmpty then none
  else some (digits.foldl (fun n c => n * 16 + (hex_digit_value c).getD 0) 0) |>.filter (· < 2 ^ 64)

def build_request (method path host : Bytes) (headers : Headers) (body : Bytes) : Bytes :=
  method ++ bytes " " ++ path ++ bytes " HTTP/1.1\r\n" ++
    (bytes "Host: " ++ host ++ CRLF) ++
    headers.flatMap (fun (k, v) =>
      -- The host was written already.
      if case_ignore.equal k (bytes "Host") then [] else k ++ bytes ": " ++ v ++ CRLF) ++
    (if body.isEmpty then [] else bytes "Content-Length: " ++ to_string body.length ++ CRLF) ++
    CRLF ++ body

section Headers

def headers_read (buf : Bytes) : Bool :=
  (find_header_end buf).isSome || MAX_CLIENT_HEADER_SIZE < buf.length

/-- Headers and what came with them of the body; empty when there is too much of them. -/
def read_headers (w : Wire) : Bytes × Wire :=
  let (buf, w) := gather headers_read (fun _ => 4096) [] w
  (if (find_header_end buf).isSome || buf.length ≤ MAX_CLIENT_HEADER_SIZE then buf else [], w)

/-- The status code that tells interim responses. -/
def interim_code (raw : Bytes) : Option Int :=
  match Lib.Fields.splitFirst 32 raw with
  | none => none
  | some (_, rest) =>
    from_chars_int (match Lib.Fields.splitFirst 32 rest with
      | some (code_str, _) => code_str
      | none => rest.take 3)

def is_interim (raw : Bytes) : Bool := (interim_code raw).any fun status => 100 ≤ status && status < 200

/-- Skips interim responses; `carry` came with the last of them. The fuel is more than there is to
read. -/
def read_final_headers : Nat → Bytes → Wire → Bytes × Wire
  | 0, carry, w => (carry, w)
  | fuel + 1, carry, w =>
    let (raw, w) :=
      if (find_header_end carry).isSome then (carry, w)
      else
        let (more, w) := read_headers w
        (carry ++ more, w)
    if !raw.isEmpty && is_interim raw then
      read_final_headers fuel ((find_header_end raw).elim [] fun header_end => raw.drop (header_end + 4)) w
    else (raw, w)

structure ParsedResponse where
  status : Int := 0
  headers : Headers := []
  /-- What of the body came with the headers. -/
  body_start : Bytes := []

def flush_header (headers : Headers) (key val : Bytes) : Headers :=
  if key.isEmpty then headers else headers.emplace key (val.dropWhile (· = 32))

/-- The fields so far, and the one that the next line may continue. -/
def parse_header_line (p : Headers × Bytes × Bytes) (line : Bytes) : Headers × Bytes × Bytes :=
  let (headers, key, val) := p
  if line.head?.any is_blank then
    if key.isEmpty then p else (headers, key, val ++ 32 :: line.dropWhile is_blank)
  else
    let (key', val') := (Lib.Fields.splitFirst 58 line).getD ([], [])
    (flush_header headers key val, key', val')

/-- The status and the fields of a header section. -/
def parse_header_section (header_raw : Bytes) : Int × Headers :=
  match Lib.Framing.cutAt 13 10 header_raw with
  | none => (0, [])
  | some (status_line, rest) =>
    let status := match Lib.Fields.splitFirst 32 status_line with
      | none => 0
      | some (_, text) =>
        (from_chars_int ((Lib.Fields.splitFirst 32 text).elim text (·.1))).getD 0
    let (headers, key, val) := (lines rest).foldl parse_header_line ([], [], [])
    (status, flush_header headers key val)

def parse_response_headers (raw : Bytes) : ParsedResponse :=
  match find_header_end raw with
  | none => {}
  | some header_end =>
    let (status, headers) := parse_header_section (raw.take header_end)
    { status, headers, body_start := raw.drop (header_end + 4) }

end Headers

section Body

/-- Reads exactly `content_length` bytes. The flag is false if there were not as many. -/
def read_body (body_start : Bytes) (content_length : Nat) (w : Wire) : Bytes × Bool × Wire :=
  if content_length ≤ body_start.length then (body_start.take content_length, true, w)
  else
    let (body, w) := gather (fun body => content_length ≤ body.length)
      (fun body => min 8192 (content_length - body.length)) body_start w
    (body, content_length ≤ body.length, w)

/-- Reads on until a line is complete. -/
def read_line (pending : Bytes) (w : Wire) : Bytes × Wire :=
  gather (fun pending => (Lib.Framing.cutAt 13 10 pending).isSome) (fun _ => 8192) pending w

def read_more (needed : Nat) (pending : Bytes) (w : Wire) : Bytes × Wire :=
  gather (fun pending => needed ≤ pending.length) (fun _ => 8192) pending w

/-- Reads up to the empty line behind the trailer fields. The fuel is more than there is to read. -/
def read_trailers : Nat → Bytes → Wire → Wire
  | 0, _, w => w
  | fuel + 1, pending, w =>
    let (pending, w) := read_line pending w
    match Lib.Framing.cutAt 13 10 pending with
    | none => w
    | some (line, rest) => if line.isEmpty then w else read_trailers fuel rest w

def read_chunks : Nat → Bytes → Bytes → Wire → Bytes × Wire
  | 0, body, _, w => (body, w)
  | fuel + 1, body, pending, w =>
    let (pending, w) := read_line pending w
    match Lib.Framing.cutAt 13 10 pending with
    | none => (body, w)
    | some (size_line, pending) =>
      let size_str := (Lib.Fields.splitFirst 59 size_line).elim size_line (·.1)
      match from_chars_hex size_str with
      | none | some 0 => (body, read_trailers fuel pending w)
      | some chunk_size =>
        let needed := (chunk_size + 2) % 2 ^ 64
        let (pending, w) := read_more needed pending w
        if needed ≤ pending.length then
          read_chunks fuel (body ++ pending.take chunk_size) (pending.drop needed) w
        else (body ++ pending.take chunk_size, w)

def read_chunked_body (initial : Bytes) (w : Wire) : Bytes × Wire :=
  read_chunks (initial.length + (letters w.line).length + 1) [] initial w

/-- The answer to the last of the pieces handed over so far. -/
abbrev ContentReceiver := List Bytes → Bool

/-- What the receiver was handed, and if it goes on. -/
def hand (receiver : ContentReceiver) (s : List Bytes × Bool) (piece : Bytes) : List Bytes × Bool :=
  (s.1 ++ [piece], receiver (s.1 ++ [piece]))

def read_body_streaming (body_start : Bytes) (content_length : Nat) (receiver : ContentReceiver)
    (w : Wire) : (List Bytes × Bool) × Wire :=
  reading (fun s : List Bytes × Bool => !s.2 || content_length ≤ s.1.flatten.length)
    (fun s => min 8192 (content_length - s.1.flatten.length)) (hand receiver)
    (if body_start.isEmpty then ([], true) else hand receiver ([], true) body_start) w

end Body

inductive Error where
  | Success | Connection | Read | Write | Canceled

/-- A request, as far as the reading of its response depends on it. -/
structure Exchange where
  method : Bytes
  content_receiver : Option ContentReceiver := none
  response_handler : Option (Response → Bool) := none

/-- The response, the error, and the pieces that the receiver was handed. -/
structure Result where
  res : Option Response := none
  error : Error
  handed : List Bytes := []

def is_chunked (headers : Headers) : Bool :=
  (Lib.Search.find (bytes "chunked") (headers.get_header_value (bytes "Transfer-Encoding"))).isSome

def get_content_length (headers : Headers) : Nat :=
  (from_chars_u64 (headers.get_header_value (bytes "Content-Length"))).getD 0

/-- The body, the pieces handed to a receiver instead, and if the body is known to be complete. -/
def receive_body (e : Exchange) (pr : ParsedResponse) (w : Wire) :
    (Bytes × List Bytes × Bool) × Wire :=
  let content_length := get_content_length pr.headers
  match e.content_receiver with
  | some receiver =>
    if is_chunked pr.headers then
      let (full_body, w) := read_chunked_body pr.body_start w
      (([], if full_body.isEmpty then [] else [full_body], true), w)
    else if 0 < content_length then
      let ((handed, _), w) := read_body_streaming pr.body_start content_length receiver w
      (([], handed, true), w)
    else (([], if pr.body_start.isEmpty then [] else [pr.body_start], true), w)
  | none =>
    if is_chunked pr.headers then
      let (body, w) := read_chunked_body pr.body_start w
      ((body, [], true), w)
    else if 0 < content_length then
      let (body, complete, w) := read_body pr.body_start content_length w
      ((body, [], complete), w)
    else ((pr.body_start, [], true), w)

def closes (headers : Headers) : Bool :=
  case_ignore.equal (headers.get_header_value (bytes "Connection")) (bytes "close")

/-- What is made of a response once its headers were read. Without a wire the connection is
closed. -/
def receive_response (keep_alive_ : Bool) (e : Exchange) (raw_resp : Bytes) (w : Wire) :
    Result × Option Wire :=
  let pr := parse_response_headers raw_resp
  let res : Response := { status := pr.status, headers := pr.headers }
  if e.response_handler.any fun response_handler => !response_handler res then
    ({ error := .Canceled }, none)
  else
    let ((body, handed, body_complete), w) := receive_body e pr w
    ({ res := some { res with body }, error := .Success, handed },
      if !keep_alive_ || !body_complete || closes pr.headers then none else some w)

/-- A connection: the method of the last request, what was taken off the wire since that was sent,
and what is still to come. -/
structure Connection where
  method : Bytes := []
  wire : Wire := {}
  deriving DecidableEq

structure ClientImpl where
  socket_ : Option Connection := none
  keep_alive_ : Bool := false
  is_stopping_ : Bool := false

/-- The wire once a request is sent, with what the server sends for it. -/
def Connection.ask (conn : Connection) (reply : Line) : Wire := { line := conn.wire.line ++ reply }

/-- What a connection has in store: if the request can be sent, and what comes for it. -/
structure Prospect where
  sends : Bool
  reply : Line

def final_headers (w : Wire) : Bytes × Wire := read_final_headers ((letters w.line).length + 1) [] w

def ClientImpl.receive (c : ClientImpl) (e : Exchange) (raw_resp : Bytes) (w : Wire) :
    Result × ClientImpl :=
  let (result, wire) := receive_response c.keep_alive_ e raw_resp w
  (result, { c with socket_ := wire.map fun wire => { method := e.method, wire } })

def ClientImpl.drop_socket (c : ClientImpl) (error : Error) : Result × ClientImpl :=
  ({ error }, { c with socket_ := none })

/-- The request on a new connection; without a prospect there is none. -/
def ClientImpl.ask_fresh (c : ClientImpl) (e : Exchange) : Option Prospect → Result × ClientImpl
  | none => c.drop_socket .Connection
  | some fresh =>
    if fresh.sends then
      let (raw_resp, w) := final_headers (Connection.ask {} fresh.reply)
      if raw_resp.isEmpty then c.drop_socket .Read else c.receive e raw_resp w
    else c.drop_socket .Write

/-- A kept connection is used if `poll` finds nothing to read on it. -/
def ClientImpl.execute_request (c : ClientImpl) (e : Exchange) (idle : Bool) (kept : Prospect)
    (fresh : Option Prospect) : Result × ClientImpl :=
  if c.is_stopping_ then ({ error := .Connection }, c)
  else
    match c.socket_ with
    | none => c.ask_fresh e fresh
    | some conn =>
      if idle && kept.sends then
        let (raw_resp, w) := final_headers (conn.ask kept.reply)
        if raw_resp.isEmpty then c.ask_fresh e fresh else c.receive e raw_resp w
      else c.ask_fresh e fresh

inductive Event where
  | execute_request (e : Exchange) (idle : Bool) (kept : Prospect) (fresh : Option Prospect)
  | set_keep_alive (on : Bool)
  | stop

def step (c : ClientImpl) : Event → ClientImpl
  | .execute_request e idle kept fresh => (c.execute_request e idle kept fresh).2
  | .set_keep_alive on => { c with keep_alive_ := on }
  | .stop => { c with socket_ := none, is_stopping_ := true }

end AoSdl.http.client
