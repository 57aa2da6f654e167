import AoSdl.SendQueue
import AoSdl.WebSocketHandshake

/-! The client's side of a WebSocket connection: the response of the handshake, the frames it writes
and the frame at the start of what it has read. The mask keys are random. -/
namespace AoSdl

structure HTTPResponse.StatusLine where
  http_version : Bytes
  status_code : Int
  status_reason : Bytes

structure HTTPResponse where
  status_line : HTTPResponse.StatusLine
  headers : HTTPHeaders

namespace HTTPResponse

def get_header (response : HTTPResponse) (header : Bytes) : Bytes := response.headers.get header

end HTTPResponse

namespace ws

/-- `none` stands for the exceptions. -/
def parse_status_line (line : Bytes) : Option HTTPResponse.StatusLine :=
  match Lib.Fields.splitFirst 32 line with
  | none => none
  | some (http_version, rest) =>
    match Lib.Fields.splitFirst 32 rest with
    | none => none
    | some (status_code, status_reason) =>
      if http_version.take 5 ≠ bytes "HTTP/" then none
      else
        match stoi status_code with
        | none => none
        | some status_code =>
          if status_code < 100 || 599 < status_code then none
          else if status_reason.isEmpty then none
          else some { http_version, status_code, status_reason }

end ws

namespace WebSocket

/-- `write`. -/
def text_frame (data : Bytes) (mask_key : UInt32) : WebSocketFrame :=
  { WebSocketServer.text_frame data with mask := true, mask_key }

/-- The answer to a `PING`. -/
def pong (data : Bytes) (mask_key : UInt32) : WebSocketFrame :=
  { fin := true, rsv := 0, opcode := .PONG, mask := true, len := UInt64.ofNat data.length
    len_code := if data.length ≤ 125 then UInt8.ofNat data.length else 126, mask_key, data }

/-- `send_close`. -/
def close_frame (code : UInt16) (reason : Bytes) (mask_key : UInt32) : WebSocketFrame :=
  let data := toNetwork 2 code.toNat ++ reason.take 123
  { fin := true, rsv := 0, opcode := .CLOSE, mask := true, data, len := UInt64.ofNat data.length
    len_code := UInt8.ofNat data.length, mask_key }

/-- The next frame of `read` and the bytes behind it, or in place of the frame the exception on a mask
or on a payload of 2^63 bytes or more. -/
def next_frame (bytes : Bytes) : Option (Option WebSocketFrame × Bytes) :=
  if bytes.length < 2 then none
  else if bytes.getD 1 0 &&& 0x80 ≠ 0 then some (none, bytes)
  else
    match payload_header bytes with
    | none => none
    | some (header_size, pl_len) =>
      let bytes_needed := (header_size + pl_len) % 2 ^ 64
      if bytes.length < bytes_needed then none
      else if 2 ^ 63 ≤ pl_len then some (none, bytes)
      else some (some (build_frame bytes header_size pl_len), bytes.drop bytes_needed)

section Handshake

variable (cfg : HandshakeConfig) (sec_ws_key : Bytes)

/-- Whether no exception is thrown. -/
def validate_handshake (response : HTTPResponse) : Bool :=
  let ws_accept_recvd := response.get_header (bytes "Sec-WebSocket-Accept")
  response.status_line.status_code = 101 &&
    ws.case_insensitive_equal (response.get_header (bytes "Upgrade")) (bytes "websocket") &&
    ws.case_insensitive_equal (response.get_header (bytes "Connection")) (bytes "Upgrade") &&
    !ws_accept_recvd.isEmpty &&
    WebSocketServer.compute_accept_key cfg (cfg.base64_encode sec_ws_key) = ws_accept_recvd &&
    (response.get_header (bytes "Sec-WebSocket-Extensions")).isEmpty &&
    (response.get_header (bytes "Sec-WebSocket-Protocol")).isEmpty

/-- The loop of `read_handshake`: the lines up to the read that brings the empty one, what that
read leaves in `extra_data`, and the reads behind it. -/
def read_response (response_lines : List Bytes) (extra_data : Bytes) :
    List Bytes → Option (List Bytes × Bytes × List Bytes)
  | [] => if [] ∈ response_lines then some (response_lines, extra_data, []) else none
  | chunk :: reads =>
    if [] ∈ response_lines then some (response_lines, extra_data, chunk :: reads)
    else
      let (new_lines, remainder) := ws.get_lines (extra_data ++ chunk) []
      read_response (response_lines ++ new_lines) remainder reads

/-- All lines behind the status line are taken for header fields. -/
def parse_response (response_lines : List Bytes) : Option HTTPResponse :=
  (ws.parse_status_line (response_lines.headD [])).map fun status_line =>
    { status_line, headers := response_lines.tail.map ws.parse_http_header }

/-- What `read` finds behind the handshake in a connection with these reads: what the handshake
left in `extra_data`, and the reads it did not make. `none` stands for an exception, or for a
handshake that waits for more. -/
def handed (reads : List Bytes) : Option Bytes :=
  match read_response [] [] reads with
  | none => none
  | some (response_lines, extra_data, later) =>
    match parse_response response_lines with
    | none => none
    | some response =>
      if validate_handshake cfg sec_ws_key response then some (extra_data ++ later.flatten) else none

end Handshake

end WebSocket

end AoSdl
