import Mathlib.Data.List.DropRight
import AoSdl.Lib.Fields
import AoSdl.Lib.Search
import AoSdl.Text

/-! How the HTTP server reads a request off its buffer: the checks on the raw bytes, the length
of the body, and the parsed request. -/
namespace AoSdl.http

def MAX_URI_LENGTH : Nat := 8192
def MAX_HEADER_SECTION_LENGTH : Nat := 65536
def MAX_BODY_LENGTH : Nat := 1048576

def CRLF : Bytes := [13, 10]

def is_blank (c : UInt8) : Bool := c = 32 || c = 9

/-- Latin-1 letters in lower case. -/
def to_lower (c : UInt8) : UInt8 :=
  if (65 ≤ c && c ≤ 90) || (192 ≤ c && c ≤ 222 && c ≠ 215) then c + 32 else c

namespace case_ignore

def equal (a b : Bytes) : Bool := a.map to_lower = b.map to_lower

end case_ignore

/-- A multimap by `case_ignore::equal`; of the fields of one name the newest comes first. -/
abbrev Headers := List (Bytes × Bytes)

namespace Headers

def emplace (headers : Headers) (key val : Bytes) : Headers := (key, val) :: headers

def equal_range (headers : Headers) (key : Bytes) : Headers :=
  headers.filter fun field => case_ignore.equal field.1 key

/-- Empty when there is no such field. -/
def get_header_value (headers : Headers) (key : Bytes) : Bytes :=
  (headers.equal_range key).head?.elim [] (·.2)

def get_header_value_count (headers : Headers) (key : Bytes) : Nat :=
  (headers.equal_range key).length

end Headers

structure Request where
  method : Bytes := []
  path : Bytes := []
  params : List (Bytes × Bytes) := []
  headers : Headers := []
  body : Bytes := []
  remote_addr : Bytes := []
  version : Bytes := []
  target : Bytes := []
  path_params : List (Bytes × Bytes) := []
  deriving DecidableEq

structure Response where
  status : Int := -1
  headers : Headers := []
  body : Bytes := []

namespace Response

def set_content (res : Response) (s content_type : Bytes) : Response :=
  { res with body := s, headers := res.headers.emplace (bytes "Content-Type") content_type }

/-- An answer of the server itself. -/
def plain (status : Int) (text : String) : Response :=
  ({ status } : Response).set_content (bytes text) (bytes "text/plain")

end Response

/-- The text of a status. -/
def status_message : Int → String
  | 100 => "Continue"
  | 101 => "Switching Protocols"
  | 102 => "Processing"
  | 103 => "Early Hints"
  | 200 => "OK"
  | 201 => "Created"
  | 202 => "Accepted"
  | 203 => "Non-Authoritative Information"
  | 204 => "No Content"
  | 205 => "Reset Content"
  | 206 => "Partial Content"
  | 207 => "Multi-Status"
  | 208 => "Already Reported"
  | 226 => "IM Used"
  | 300 => "Multiple Choices"
  | 301 => "Moved Permanently"
  | 302 => "Found"
  | 303 => "See Other"
  | 304 => "Not Modified"
  | 305 => "Use Proxy"
  | 307 => "Temporary Redirect"
  | 308 => "Permanent Redirect"
  | 400 => "Bad Request"
  | 401 => "Unauthorized"
  | 402 => "Payment Required"
  | 403 => "Forbidden"
  | 404 => "Not Found"
  | 405 => "Method Not Allowed"
  | 406 => "Not Acceptable"
  | 407 => "Proxy Authentication Required"
  | 408 => "Request Timeout"
  | 409 => "Conflict"
  | 410 => "Gone"
  | 411 => "Length Required"
  | 412 => "Precondition Failed"
  | 413 => "Content Too Large"
  | 414 => "URI Too Long"
  | 415 => "Unsupported Media Type"
  | 416 => "Range Not Satisfiable"
  | 417 => "Expectation Failed"
  | 418 => "I'm a Teapot"
  | 421 => "Misdirected Request"
  | 422 => "Unprocessable Content"
  | 423 => "Locked"
  | 424 => "Failed Dependency"
  | 425 => "Too Early"
  | 426 => "Upgrade Required"
  | 428 => "Precondition Required"
  | 429 => "Too Many Requests"
  | 431 => "Request Header Fields Too Large"
  | 451 => "Unavailable For Legal Reasons"
  | 500 => "Internal Server Error"
  | 501 => "Not Implemented"
  | 502 => "Bad Gateway"
  | 503 => "Service Unavailable"
  | 504 => "Gateway Timeout"
  | 505 => "HTTP Version Not Supported"
  | 506 => "Variant Also Negotiates"
  | 507 => "Insufficient Storage"
  | 508 => "Loop Detected"
  | 510 => "Not Extended"
  | 511 => "Network Authentication Required"
  | _ => ""

/-- Where the empty line behind the header section starts. -/
def find_header_end (buf : Bytes) : Option Nat := Lib.Search.find (CRLF ++ CRLF) buf

/-- The length of the text between the first two spaces. -/
def uri_length (req_line : Bytes) : Option Nat :=
  match Lib.Fields.splitFirst 32 req_line with
  | none => none
  | some (_, rest) => (Lib.Fields.splitFirst 32 rest).map (·.1.length)

def uri_too_long (req_line : Bytes) : Bool := (uri_length req_line).any (MAX_URI_LENGTH < ·)

/-- The complete lines of a text. -/
def complete_lines (s : Bytes) : List Bytes := ((Lib.Framing.delimited 13 10 cr_ne_lf).drain s).1

/-- The lines of a text; the last one needs no end. -/
def lines (s : Bytes) : List Bytes :=
  let parts := (Lib.Framing.delimited 13 10 cr_ne_lf).drain s
  if parts.2.isEmpty then parts.1 else parts.1 ++ [parts.2]

def folds (s : Bytes) : Bool :=
  (Lib.Search.find (CRLF ++ [32]) s).isSome || (Lib.Search.find (CRLF ++ [9]) s).isSome

def blank_before_colon (line : Bytes) : Bool :=
  match Lib.Fields.splitFirst 58 line with
  | none => false
  | some (name, _) => name.getLast?.any is_blank

/-- An error status, or 0. -/
def validate_raw_request (raw : Bytes) : Int :=
  match find_header_end raw with
  | none => 0
  | some header_end =>
    let header_section := raw.take header_end
    match Lib.Framing.cutAt 13 10 raw with
    | none => 0
    | some (req_line, _) =>
      if uri_too_long req_line then 414
      else if MAX_HEADER_SECTION_LENGTH < header_end then 431
      else if folds (header_section.drop req_line.length) then 400
      else if ((complete_lines (header_section.drop (req_line.length + 2))).takeWhile (· ≠ [])).any
        blank_before_colon then 400
      else 0

/-- The last of the transfer encodings. -/
def final_encoding (te : Bytes) : Bytes :=
  ((te.rdropWhile is_blank).splitOn 44).getLastD [] |>.dropWhile (· = 32)

def validate_parsed_request (req : Request) : Int :=
  if req.version = bytes "HTTP/1.1" ∧ req.headers.get_header_value_count (bytes "Host") ≠ 1 then 400
  else if !(req.headers.get_header_value (bytes "Content-Length")).all Lib.Decimal.isDigit then 400
  else
    let te_val := req.headers.get_header_value (bytes "Transfer-Encoding")
    if te_val ≠ [] ∧ final_encoding te_val ≠ bytes "chunked" then 400 else 0

/-- What stands behind the name in the first line of the section, after the request line, that
starts with it. -/
def find_raw_header_value (name : Bytes) : Bytes → Option Bytes
  | [] => none
  | c :: section_ =>
    if c = 10 ∧ (section_.take name.length).map tolower = name then some (section_.drop name.length)
    else find_raw_header_value name section_

def extract_content_length_raw (header_section : Bytes) : Option Nat :=
  (find_raw_header_value (bytes "content-length:") header_section).map fun rest =>
    ((rest.dropWhile is_blank).takeWhile Lib.Decimal.isDigit).foldl
      (fun val c => (val * 10 + (c.toNat - 48)) % 2 ^ 64) 0

def has_transfer_encoding_raw (header_section : Bytes) : Bool :=
  (find_raw_header_value (bytes "transfer-encoding:") header_section).isSome

/-- Leaves the path of an absolute URI. -/
def strip_authority (path : Bytes) : Bytes :=
  match Lib.Search.find (bytes "://") path with
  | none => path
  | some scheme_end =>
    match Lib.Fields.splitFirst 47 (path.drop (scheme_end + 3)) with
    | none => bytes "/"
    | some (_, rest) => 47 :: rest

def parse_query (query : Bytes) : List (Bytes × Bytes) :=
  (query.splitOn 38).filterMap (Lib.Fields.splitFirst 61)

/-- The path and the parameters of a target. -/
def parse_target (uri : Bytes) : Bytes × List (Bytes × Bytes) :=
  match Lib.Fields.splitFirst 63 (strip_authority uri) with
  | none => (strip_authority uri, [])
  | some (path, query) => (path, parse_query query)

def parse_header (headers : Headers) (line : Bytes) : Headers :=
  match Lib.Fields.splitFirst 58 line with
  | none => headers
  | some (key, val) => headers.emplace key ((val.dropWhile is_blank).rdropWhile is_blank)

/-- Method, target and version; all empty without two spaces. -/
def parse_request_line (req_line : Bytes) : Bytes × Bytes × Bytes :=
  match Lib.Fields.splitFirst 32 req_line with
  | none => ([], [], [])
  | some (method, rest) =>
    match Lib.Fields.splitFirst 32 rest with
    | none => ([], [], [])
    | some (uri, version) => (method, uri, version)

def parse_http_request (raw_headers body : Bytes) : Request :=
  let headers_str := raw_headers.take ((find_header_end raw_headers).getD raw_headers.length)
  -- Without a line end the header lines are looked for from position `npos + 2`, which is 1.
  let (req_line, rest) := (Lib.Framing.cutAt 13 10 headers_str).getD (headers_str, headers_str.drop 1)
  let (method, uri, version) := parse_request_line req_line
  let (path, params) := parse_target uri
  { method, path, params, version, body, target := path
    headers := (lines rest).foldl parse_header [] }

end AoSdl.http
