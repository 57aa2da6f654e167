import Mathlib.Data.List.DropRight
import AoSdl.Lib.Fields
import AoSdl.WebSocketServer

/-! The server's side of the WebSocket handshake: HTTP lines are cut off the buffer read by
read, and the request is answered in the read that brings the empty line. -/
namespace AoSdl

namespace ws

def isspace (c : UInt8) : Bool := Lib.Decimal.isSpace c

def trim (str : Bytes) : Bytes := (str.dropWhile isspace).rdropWhile isspace

def collapse_from : Bool → Bytes → Bytes
  | _, [] => []
  | in_whitespace, c :: str =>
    if isspace c then collapse_from true str
    else if in_whitespace then 32 :: c :: collapse_from false str
    else c :: collapse_from false str

def collapse_lws (str : Bytes) : Bytes := collapse_from false str

def parse_http_header (header : Bytes) : Bytes × Bytes :=
  match Lib.Fields.splitFirst 58 header with
  | none => (trim header, [])
  | some (name, value) => (trim name, collapse_lws (trim value))

structure HTTPRequestLine where
  method : Bytes
  uri : Bytes
  http_version : Bytes

/-- `none` stands for the exception on a missing space. -/
def parse_request_line (line : Bytes) : Option HTTPRequestLine :=
  match Lib.Fields.splitFirst 32 line with
  | none => none
  | some (method, rest) =>
    match Lib.Fields.splitFirst 32 rest with
    | none => none
    | some (uri, http_version) => some { method, uri, http_version }

def case_insensitive_equal (a b : Bytes) : Bool := a.map tolower = b.map tolower

/-- Lines end with CR LF. -/
def lineCutter : Lib.Framing.Cutter UInt8 Bytes := Lib.Framing.delimited 13 10 cr_ne_lf

/-- The complete lines, and the bytes that remain. -/
def get_lines (input remainder : Bytes) : List Bytes × Bytes := lineCutter.drain (remainder ++ input)

/-- The tokens `std::getline` reads up to a comma each. -/
def getline_tokens (str : Bytes) : List Bytes :=
  let parts := str.splitOn 44
  if parts.getLastD [] = [] then parts.dropLast else parts

end ws

/-- Header lines in order; an earlier one hides a later one of the same name. -/
abbrev HTTPHeaders := List (Bytes × Bytes)

namespace HTTPHeaders

def find (headers : HTTPHeaders) (name : Bytes) : Option Bytes :=
  (List.find? (fun kv => ws.case_insensitive_equal kv.1 name) headers).map (·.2)

/-- `headers[name]`, which is empty for a name that is not there. -/
def get (headers : HTTPHeaders) (name : Bytes) : Bytes := (headers.find name).getD []

end HTTPHeaders

/-- What the server was configured with, and functions of other subsystems. -/
structure HandshakeConfig where
  reverse_proxy_enabled : Bool := false
  header_priority : List Bytes := []
  is_trusted : Bytes → Bool := fun _ => false
  extract_forwarded_ip : Bytes → Bytes := id
  supported_subprotocols_ : List Bytes := []
  cors_wildcard_ : Bool := false
  cors_origins_ : List Bytes := []
  sha1_raw : Bytes → Bytes := id
  base64_encode : Bytes → Bytes := id

namespace WebSocketServer

variable (cfg : HandshakeConfig)

def compute_accept_key (client_key_b64 : Bytes) : Bytes :=
  cfg.base64_encode (cfg.sha1_raw (client_key_b64 ++ bytes "258EAFA5-E914-47DA-95CA-C5AB0DC85B11"))

/-- The address behind trusted proxies. -/
def real_addr (client : ClientConnection) (headers : HTTPHeaders) : Bytes :=
  if cfg.reverse_proxy_enabled && !client.proxy_protocol_resolved && cfg.is_trusted client.remote_addr then
    (cfg.header_priority.findSome? fun header_name =>
      match headers.find header_name with
      | none => none
      | some value =>
        if value.isEmpty then none
        else
          let real_ip := cfg.extract_forwarded_ip value
          if real_ip.isEmpty then none else some real_ip).getD client.remote_addr
  else client.remote_addr

def has_upgrade_token (connection : Bytes) : Bool :=
  (ws.getline_tokens connection).any fun token =>
    ws.case_insensitive_equal (ws.trim token) (bytes "Upgrade")

def select_protocol (headers : HTTPHeaders) : Bytes :=
  match headers.find (bytes "Sec-WebSocket-Protocol") with
  | none => []
  | some protocols =>
    (((ws.getline_tokens protocols).map ws.trim).find? fun proto =>
      cfg.supported_subprotocols_.contains proto).getD []

def cors_header (headers : HTTPHeaders) : Bytes :=
  let allow (origin : Bytes) := bytes "Access-Control-Allow-Origin: " ++ origin ++ bytes "\r\n"
  if cfg.cors_wildcard_ then allow (bytes "*")
  else
    match headers.find (bytes "Origin") with
    | none => []
    | some origin => if cfg.cors_origins_.contains origin then allow origin else []

def response (headers : HTTPHeaders) (key : Bytes) : Bytes :=
  let selected_protocol := select_protocol cfg headers
  bytes "HTTP/1.1 101 Switching Protocols\r\nUpgrade: websocket\r\nConnection: Upgrade\r\n" ++
    bytes "Sec-WebSocket-Accept: " ++ compute_accept_key cfg key ++ bytes "\r\n" ++
    (if selected_protocol.isEmpty then []
      else bytes "Sec-WebSocket-Protocol: " ++ selected_protocol ++ bytes "\r\n") ++
    cors_header cfg headers ++ bytes "\r\n"

/-- The client once its request is answered. -/
def accept (client : ClientConnection) (headers : HTTPHeaders) (key : Bytes) : ClientConnection :=
  { client with
    remote_addr := real_addr cfg client headers
    selected_subprotocol := select_protocol cfg headers
    sent := client.sent ++ [response cfg headers key]
    handshake_complete := true }

/-- The header fields of the lines behind the request line, up to the empty line. -/
def parse_headers (lines : List Bytes) : HTTPHeaders :=
  (lines.takeWhile fun line => !line.isEmpty).map ws.parse_http_header

/-- Answers the request in the lines; `none` stands for an exception. -/
def answer (client : ClientConnection) (lines : List Bytes) : Option ClientConnection :=
  match ws.parse_request_line (lines.headD []) with
  | none => none
  | some req_line =>
    let headers := parse_headers lines.tail
    if req_line.method ≠ bytes "GET" then none
    else if !ws.case_insensitive_equal (headers.get (bytes "Upgrade")) (bytes "websocket") then none
    else if !has_upgrade_token (headers.get (bytes "Connection")) then none
    else
      let key := headers.get (bytes "Sec-WebSocket-Key")
      if key.isEmpty then none else some (accept cfg client headers key)

/-- One read of the handshake. The flag says whether the handshake is complete. -/
def perform_server_handshake (client : ClientConnection) (bytes : Bytes) :
    Option (Bool × ClientConnection) :=
  if bytes.isEmpty && client.extra_data.isEmpty then some (false, client)
  else
    let (lines, extra_data) := ws.get_lines bytes client.extra_data
    let client := { client with extra_data }
    if [] ∉ lines then some (false, client)
    else (answer cfg client lines).map fun client => (true, client)

/-- The handshake over a sequence of reads. Those behind the one that completes it go behind
what that one left over. `none` stands for a client that is removed. -/
def handshake (client : ClientConnection) : List Bytes → Option ClientConnection
  | [] => some client
  | bytes :: reads =>
    match perform_server_handshake cfg client bytes with
    | none => none
    | some (false, client) => handshake client reads
    | some (true, client) => some { client with extra_data := client.extra_data ++ reads.flatten }

/-- A request head as lines: the request line, then the header lines. It is valid to the server's own parser
and checks, which leave out a request whose token `Upgrade` stands in a second `Connection` line. -/
structure ValidRequest (request_line : Bytes) (header_lines : List Bytes) : Prop where
  clean : ∀ line ∈ request_line :: header_lines, line ≠ [] ∧ ¬ [13, 10] <:+: line
  method : ∃ line, ws.parse_request_line request_line = some line ∧ line.method = bytes "GET"
  /-- A header line starts with a name without blanks and a colon. -/
  names : ∀ line ∈ header_lines, 58 ∈ line.takeWhile (· ≠ 32)
  upgrade : ws.case_insensitive_equal
    ((parse_headers header_lines).get (bytes "Upgrade")) (bytes "websocket")
  connection : has_upgrade_token ((parse_headers header_lines).get (bytes "Connection"))
  key : (parse_headers header_lines).get (bytes "Sec-WebSocket-Key") ≠ []

/-- The bytes of a head. -/
def head_bytes (lines : List Bytes) : Bytes := Lib.Framing.lines 13 10 (lines ++ [[]])

/-- The client a valid request should leave behind. -/
def welcomed (client : ClientConnection) (header_lines : List Bytes) (trailing : Bytes) :
    ClientConnection :=
  { accept cfg client (parse_headers header_lines)
      ((parse_headers header_lines).get (bytes "Sec-WebSocket-Key")) with extra_data := trailing }

/-- Behind a buffer, one read brings all lines of the head, the buffer and the reads before it
bring no line end, and what comes behind the head in that read has none either. -/
def HeadInOneRead (buffer : Bytes) (lines : List Bytes) (reads : List Bytes) : Prop :=
  ∃ before completing after behind, reads = before ++ completing :: after ∧
    buffer ++ before.flatten ++ completing = head_bytes lines ++ behind ∧
    ¬ [13, 10] <:+: buffer ++ before.flatten ∧ ¬ [13, 10] <:+: behind

section Proof

open Lib.Framing

variable {cfg} {client : ClientConnection} {request_line : Bytes} {header_lines : List Bytes}

theorem takeWhile_headers {hs more : List Bytes} (solid : ∀ line ∈ hs, line ≠ []) :
    (hs ++ [] :: more).takeWhile (fun line => !line.isEmpty) = hs := by
  rw [List.takeWhile_append_of_pos (by simpa using solid), List.takeWhile_cons_of_neg (by simp),
    List.append_nil]

theorem ValidRequest.answer_eq (valid : ValidRequest request_line header_lines)
    (more : List Bytes) (trailing : Bytes) :
    answer cfg { client with extra_data := trailing } (request_line :: header_lines ++ [] :: more) =
      some (welcomed cfg client header_lines trailing) := by
  obtain ⟨req_line, parsed, get⟩ := valid.method
  have headers : parse_headers (header_lines ++ [] :: more) = parse_headers header_lines := by
    have solid : ∀ line ∈ header_lines, line ≠ [] := fun line member =>
      (valid.clean line (List.mem_cons_of_mem _ member)).1
    have all : header_lines.takeWhile (fun line => !line.isEmpty) = header_lines :=
      List.takeWhile_eq_self_iff.mpr (by simpa using solid)
    rw [parse_headers, parse_headers, takeWhile_headers solid, all]
  unfold answer
  simp only [List.cons_append, List.headD_cons, List.tail_cons, parsed, headers, get, ne_eq,
    not_true_eq_false, if_false, valid.upgrade, valid.connection, Bool.not_true,
    Bool.false_eq_true, List.isEmpty_eq_false_iff.mpr valid.key]
  rfl

theorem answer_lost (names : ∀ line ∈ header_lines, 58 ∈ line.takeWhile (· ≠ 32))
    (more : List Bytes) : answer cfg client (header_lines ++ [] :: more) = none := by
  cases header_lines with
  | nil => rfl
  | cons line lines =>
    unfold answer ws.parse_request_line
    rw [List.cons_append, List.headD_cons]
    cases first : Lib.Fields.splitFirst 32 line with
    | none => rfl
    | some parts =>
      obtain ⟨method, rest⟩ := parts
      obtain ⟨text, clean⟩ := Lib.Fields.splitFirst_some first
      have colon : 58 ∈ method := by
        have inside := names line List.mem_cons_self
        have solid : ∀ c ∈ method, c ≠ 32 := fun c member blank => clean (blank ▸ member)
        rw [text, List.takeWhile_append_of_pos (by simpa using solid),
          List.takeWhile_cons_of_neg (by simp), List.append_nil] at inside
        exact inside
      have other : method ≠ bytes "GET" := by
        rintro rfl
        exact absurd colon (by decide)
      dsimp only
      cases Lib.Fields.splitFirst 32 rest with
      | none => rfl
      | some parts => simp [other]

theorem perform_eq (client : ClientConnection) (chunk : Bytes) :
    perform_server_handshake cfg client chunk =
      if [] ∉ (ws.lineCutter.drain (client.extra_data ++ chunk)).1 then
        some (false, { client with extra_data := (ws.lineCutter.drain (client.extra_data ++ chunk)).2 })
      else
        (answer cfg { client with extra_data := (ws.lineCutter.drain (client.extra_data ++ chunk)).2 }
          (ws.lineCutter.drain (client.extra_data ++ chunk)).1).map fun client => (true, client) := by
  unfold perform_server_handshake
  split
  · next empty =>
    rw [Bool.and_eq_true, List.isEmpty_iff, List.isEmpty_iff] at empty
    rw [empty.1, empty.2, List.append_nil, Cutter.drain_none Cutter.cut_nil, ← empty.2]
    rfl
  · rfl

theorem drain_clean {s : Bytes} : (ws.lineCutter.drain s).1 = [] ↔ ¬ [13, 10] <:+: s := by
  rw [← cutAt_none]
  cases cut : cutAt 13 10 s with
  | none => simp [Cutter.drain_none (c := ws.lineCutter) cut]
  | some frame => simp [Cutter.drain_some (c := ws.lineCutter) (f := frame.1) (r := frame.2) cut]

theorem head_bytes_append (ls ms : List Bytes) :
    head_bytes (ls ++ ms) = lines 13 10 ls ++ head_bytes ms := by
  rw [head_bytes, List.append_assoc, lines_append]
  rfl

theorem head_clean {hs : List Bytes} (clean : ∀ line ∈ hs, line ≠ [] ∧ ¬ [13, 10] <:+: line) :
    ∀ line ∈ hs ++ [[]], ¬ [13, 10] <:+: line := by
  intro line member
  rcases List.mem_append.mp member with inside | last
  · exact (clean line inside).2
  · rw [List.mem_singleton.mp last]
    simp

/-- What a buffer at the start of a head and the bytes behind it brings: all lines of the head
and maybe more, or some of them. -/
theorem buffer_lines {hs : List Bytes} (clean : ∀ line ∈ hs, line ≠ [] ∧ ¬ [13, 10] <:+: line)
    {b rest trailing : Bytes} (cuts : b ++ rest = head_bytes hs ++ trailing) :
    (∃ more, (ws.lineCutter.drain b).1 = hs ++ [] :: more ∧
        trailing = lines 13 10 more ++ ((ws.lineCutter.drain b).2 ++ rest)) ∨
      ([] ∉ (ws.lineCutter.drain b).1 ∧ ∃ hs', hs = (ws.lineCutter.drain b).1 ++ hs' ∧
        (ws.lineCutter.drain b).2 ++ rest = head_bytes hs' ++ trailing) := by
  have own := lines_drain (a := 13) (b := 10) (by decide) b
  have all : (ws.lineCutter.drain b).1 ++ (ws.lineCutter.drain ((ws.lineCutter.drain b).2 ++ rest)).1 =
      hs ++ [] :: (ws.lineCutter.drain trailing).1 := by
    have left := congrArg Prod.fst (Cutter.drain_append (c := ws.lineCutter) b rest)
    have right := congrArg Prod.fst
      (drain_lines (by decide : (13 : UInt8) ≠ 10) (head_clean clean) trailing)
    rw [cuts] at left
    exact left.symm.trans (right.trans (List.append_assoc hs [[]] _))
  change lines 13 10 (ws.lineCutter.drain b).1 ++ (ws.lineCutter.drain b).2 = b at own
  generalize (ws.lineCutter.drain b).1 = fs at own all ⊢
  generalize (ws.lineCutter.drain b).2 = left at own all ⊢
  have some_lines (hs' : List Bytes) (split : hs = fs ++ hs') :
      [] ∉ fs ∧ ∃ hs', hs = fs ++ hs' ∧ left ++ rest = head_bytes hs' ++ trailing := by
    refine ⟨fun empty => (clean [] (split ▸ List.mem_append_left _ empty)).1 rfl, hs', split, ?_⟩
    rw [← own, split, head_bytes_append, List.append_assoc, List.append_assoc] at cuts
    exact List.append_cancel_left cuts
  rcases List.append_eq_append_iff.mp all with ⟨hs', split, _⟩ | ⟨beyond, split, tail⟩
  · exact .inr (some_lines hs' split)
  · cases beyond with
    | nil => exact .inr (some_lines [] (by rw [split, List.append_nil, List.append_nil]))
    | cons empty more =>
      obtain rfl : [] = empty := (List.cons.inj tail).1
      refine .inl ⟨more, split, ?_⟩
      have whole : head_bytes hs ++ (lines 13 10 more ++ (left ++ rest)) = head_bytes hs ++ trailing := by
        rw [← cuts, ← own, split, head_bytes]
        simp
      exact (List.append_cancel_left whole).symm

/-- Once the request line is lost, the handshake is never completed. -/
theorem handshake_lost {reads : List Bytes} {trailing : Bytes}
    (clean : ∀ line ∈ header_lines, line ≠ [] ∧ ¬ [13, 10] <:+: line)
    (names : ∀ line ∈ header_lines, 58 ∈ line.takeWhile (· ≠ 32))
    (incomplete : client.handshake_complete = false)
    (cuts : client.extra_data ++ reads.flatten = head_bytes header_lines ++ trailing)
    {left : ClientConnection} (ends : handshake cfg client reads = some left) :
    left.handshake_complete = false := by
  induction reads generalizing client header_lines with
  | nil =>
    cases ends
    exact incomplete
  | cons chunk reads ih =>
    rw [List.flatten_cons, ← List.append_assoc] at cuts
    rw [handshake, perform_eq] at ends
    rcases buffer_lines clean cuts with ⟨more, brought, _⟩ | ⟨none_empty, later, split, rest⟩
    · rw [if_neg (by rw [brought]; simp), brought, answer_lost names] at ends
      cases ends
    · rw [if_pos none_empty] at ends
      have clean' : ∀ line ∈ later, line ≠ [] ∧ ¬ [13, 10] <:+: line := fun line member =>
        clean line (split ▸ List.mem_append_right _ member)
      have names' : ∀ line ∈ later, 58 ∈ line.takeWhile (· ≠ 32) := fun line member =>
        names line (split ▸ List.mem_append_right _ member)
      exact @ih { client with extra_data := (ws.lineCutter.drain (client.extra_data ++ chunk)).2 } _
        clean' names' incomplete rest ends

theorem HeadInOneRead.quiet {buffer : Bytes} {ls reads : List Bytes}
    (whole : HeadInOneRead buffer ls reads) : ¬ [13, 10] <:+: buffer := by
  obtain ⟨before, _, _, _, _, _, quiet, _⟩ := whole
  exact fun occurs => quiet (occurs.trans (List.prefix_append _ _).isInfix)

theorem headInOneRead_cons {buffer chunk : Bytes} {ls reads : List Bytes}
    (quiet : ¬ [13, 10] <:+: buffer) : HeadInOneRead buffer ls (chunk :: reads) ↔
      (∃ behind, buffer ++ chunk = head_bytes ls ++ behind ∧ ¬ [13, 10] <:+: behind) ∨
        HeadInOneRead (buffer ++ chunk) ls reads := by
  constructor
  · rintro ⟨before, completing, after, behind, shape, whole, silent, clean⟩
    cases before with
    | nil =>
      obtain ⟨rfl, rfl⟩ := List.cons.inj shape
      exact .inl ⟨behind, by simpa using whole, clean⟩
    | cons c before =>
      obtain ⟨rfl, rest⟩ := List.cons.inj shape
      rw [List.flatten_cons, ← List.append_assoc] at whole silent
      exact .inr ⟨before, completing, after, behind, rest, whole, silent, clean⟩
  · rintro (⟨behind, whole, clean⟩ | ⟨before, completing, after, behind, rest, whole, silent, clean⟩)
    · exact ⟨[], chunk, reads, behind, rfl, by simpa using whole, by simpa using quiet, clean⟩
    · refine ⟨chunk :: before, completing, after, behind, by rw [rest]; rfl, ?_, ?_, clean⟩
      · rw [List.flatten_cons, ← List.append_assoc, whole]
      · rwa [List.flatten_cons, ← List.append_assoc]

theorem drain_head {hs : List Bytes} (clean : ∀ line ∈ hs, line ≠ [] ∧ ¬ [13, 10] <:+: line)
    {b behind : Bytes} (whole : b = head_bytes hs ++ behind) :
    ws.lineCutter.drain b =
      (hs ++ [] :: (ws.lineCutter.drain behind).1, (ws.lineCutter.drain behind).2) := by
  rw [whole]
  exact (drain_lines (by decide : (13 : UInt8) ≠ 10) (head_clean clean) behind).trans
    (congrArg (·, _) (List.append_assoc _ [[]] _))

/-- A buffer with all lines of the head has no line more exactly if no line end is behind the head. -/
theorem no_more_iff {hs : List Bytes} (clean : ∀ line ∈ hs, line ≠ [] ∧ ¬ [13, 10] <:+: line)
    {b : Bytes} {more : List Bytes} (brought : (ws.lineCutter.drain b).1 = hs ++ [] :: more) :
    more = [] ↔ ∃ behind, b = head_bytes hs ++ behind ∧ ¬ [13, 10] <:+: behind := by
  constructor
  · intro none
    have own : lines 13 10 (ws.lineCutter.drain b).1 ++ (ws.lineCutter.drain b).2 = b :=
      lines_drain (by decide) _
    rw [brought, none] at own
    exact ⟨_, own.symm, cutAt_none.mp (Cutter.cut_drain (c := ws.lineCutter) _)⟩
  · rintro ⟨behind, whole, quiet⟩
    have same := brought.symm.trans (congrArg Prod.fst (drain_head clean whole))
    rw [drain_clean.mpr quiet] at same
    exact (List.cons.inj (List.append_cancel_left same)).2

/-- From a buffer without a line end, the handshake ends as it should exactly if the head comes
in one read and the bytes behind it there have no line end. -/
theorem handshake_eq_iff (valid : ValidRequest request_line header_lines)
    (incomplete : client.handshake_complete = false) (quiet : ¬ [13, 10] <:+: client.extra_data)
    {reads : List Bytes} {trailing : Bytes}
    (cuts : client.extra_data ++ reads.flatten = head_bytes (request_line :: header_lines) ++ trailing) :
    handshake cfg client reads = some (welcomed cfg client header_lines trailing) ↔
      HeadInOneRead client.extra_data (request_line :: header_lines) reads := by
  induction reads generalizing client with
  | nil =>
    refine iff_of_false (fun ends => ?_) (by simp [HeadInOneRead])
    have complete := congrArg ClientConnection.handshake_complete (Option.some.inj ends)
    rw [incomplete] at complete
    cases complete
  | cons chunk reads ih =>
    rw [List.flatten_cons, ← List.append_assoc] at cuts
    rw [handshake, perform_eq, headInOneRead_cons quiet]
    rcases buffer_lines valid.clean cuts with ⟨more, brought, behind_eq⟩ | ⟨none_empty, later, split, rest⟩
    · have ended : ¬ HeadInOneRead (client.extra_data ++ chunk) (request_line :: header_lines) reads := by
        intro whole
        rw [drain_clean.mpr whole.quiet] at brought
        simp at brought
      rw [if_neg (by rw [brought]; simp), brought, valid.answer_eq, Option.map_some, or_iff_left ended]
      rw [← no_more_iff valid.clean brought]
      constructor
      · intro ends
        have left_over : (ws.lineCutter.drain (client.extra_data ++ chunk)).2 ++ reads.flatten = trailing :=
          congrArg ClientConnection.extra_data (Option.some.inj ends)
        cases more with
        | nil => rfl
        | cons line more =>
          have lengths := congrArg List.length (left_over.trans behind_eq)
          simp at lengths
          omega
      · intro no_more
        rw [behind_eq, no_more]
        rfl
    · rw [if_pos none_empty]
      have not_yet : ¬ ∃ behind, client.extra_data ++ chunk =
          head_bytes (request_line :: header_lines) ++ behind ∧ ¬ [13, 10] <:+: behind := by
        rintro ⟨behind, whole, _⟩
        rw [drain_head valid.clean whole] at none_empty
        simp at none_empty
      rw [or_iff_right not_yet]
      cases brought : (ws.lineCutter.drain (client.extra_data ++ chunk)).1 with
      | nil =>
        have silent := drain_clean.mp brought
        have kept : (ws.lineCutter.drain (client.extra_data ++ chunk)).2 = client.extra_data ++ chunk := by
          rw [Cutter.drain_none (c := ws.lineCutter) (cutAt_none.mpr silent)]
        rw [kept]
        exact @ih { client with extra_data := client.extra_data ++ chunk } incomplete silent cuts
      | cons line others =>
        rw [brought] at split
        have suffix : header_lines = others ++ later := (List.cons.inj split).2
        refine iff_of_false (fun ends => ?_) fun whole => ?_
        · have clean : ∀ line ∈ later, line ≠ [] ∧ ¬ [13, 10] <:+: line := fun line member =>
            valid.clean line (List.mem_cons_of_mem _ (suffix ▸ List.mem_append_right _ member))
          have names : ∀ line ∈ later, 58 ∈ line.takeWhile (· ≠ 32) := fun line member =>
            valid.names line (suffix ▸ List.mem_append_right _ member)
          cases handshake_lost clean names (by exact incomplete) rest ends
        · rw [drain_clean.mpr whole.quiet] at brought
          cases brought

/-- A small request. -/
def greeting : List Bytes :=
  [bytes "GET /ws HTTP/1.1", bytes "Upgrade: websocket", bytes "Connection: keep-alive, Upgrade",
    bytes "Sec-WebSocket-Key: abc"]

set_option maxRecDepth 20000 in
theorem greeting_valid : ValidRequest (greeting.headD []) greeting.tail where
  clean := by decide
  method := ⟨_, rfl, by decide⟩
  names := by decide
  upgrade := by decide
  connection := by decide
  key := by decide

/-- The request may be cut inside its first line, with a frame behind it. -/
theorem handshake_cut_in_first_line :
    handshake {} {} [(head_bytes greeting).take 5, (head_bytes greeting).drop 5 ++ [0x89, 0]] =
      some (welcomed {} {} greeting.tail [0x89, 0]) :=
  (handshake_eq_iff greeting_valid rfl (by decide) (by decide)).mpr
    ⟨[(head_bytes greeting).take 5], (head_bytes greeting).drop 5 ++ [0x89, 0], [], [0x89, 0], rfl,
      by decide, by decide, by decide⟩

/-- The same request is refused when its first line comes on its own, and bytes behind it up to
a line end are dropped. -/
theorem handshake_refused_line_by_line :
    handshake {} {} [head_bytes greeting] = some (welcomed {} {} greeting.tail []) ∧
    handshake {} {} [(head_bytes greeting).take 18, (head_bytes greeting).drop 18] = none ∧
    (handshake {} {} [head_bytes greeting ++ bytes "a\r\nb"]).map (·.extra_data) = some (bytes "b") ∧
    ¬ ∀ (request_line : Bytes) (header_lines : List Bytes), ValidRequest request_line header_lines →
      ∀ reads reads' : List Bytes, reads.flatten = head_bytes (request_line :: header_lines) →
        reads'.flatten = head_bytes (request_line :: header_lines) →
        handshake {} {} reads = handshake {} {} reads' := by
  have whole : handshake {} {} [head_bytes greeting] = some (welcomed {} {} greeting.tail []) := by
    rfl
  have refused : handshake {} {} [(head_bytes greeting).take 18, (head_bytes greeting).drop 18] = none := by
    rfl
  refine ⟨whole, refused, rfl, fun agree => ?_⟩
  have same := agree _ _ greeting_valid [head_bytes greeting]
    [(head_bytes greeting).take 18, (head_bytes greeting).drop 18] (List.append_nil _) (by decide)
  rw [whole, refused] at same
  cases same

end Proof

end WebSocketServer

end AoSdl
