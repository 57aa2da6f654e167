import AoSdl.WebSocketPoll

/-! A connection behind a trusted proxy, up to the end of its handshake: polls that nothing else ends
bring one segment of its bytes each, as completion data or in the socket. -/
namespace AoSdl.WebSocketServer

open Lib.Framing

inductive Backend where
  | completion
  | readiness

def Backend.turn : Backend → Bytes → Turn
  | completion, segment => { data := segment }
  | readiness, segment => { arrived := segment }

variable (cfg : PollConfig)

/-- The polls up to the one that completes the handshake; `none` for a connection that is dropped. -/
def greet_all (backend : Backend) (client : Connection) : List Bytes → Option Connection
  | [] => some client
  | segment :: segments =>
    match greet cfg 0 (backend.turn segment) (dispatch (backend.turn segment) client) with
    | none => none
    | some (false, client) => greet_all backend client segments
    | some (true, client) => some client

/-- The address, the subprotocol and the response of a complete handshake. -/
def outcome (left : Option Connection) : Option (Bytes × Bytes × List Bytes) :=
  left.bind fun client =>
    if client.handshake_complete then
      some (client.remote_addr, client.selected_subprotocol, client.sent)
    else none

/-- A connection as it was accepted, with what completions brought. -/
def accepted (remote_addr recv_buf : Bytes) : Connection := { remote_addr, recv_buf }

/-- Behind a buffer, one read brings all lines of the head, and the buffer and the reads before it
bring no line end. -/
def HeadWhole (buffer : Bytes) (lines : List Bytes) (reads : List Bytes) : Prop :=
  ∃ before completing after behind, reads = before ++ completing :: after ∧
    buffer ++ before.flatten ++ completing = head_bytes lines ++ behind ∧
    ¬ [13, 10] <:+: buffer ++ before.flatten

/-- Behind the PROXY header, one segment brings all lines of the head, and what comes of it before has
no line end. -/
def HeadBehind (header : Bytes) (lines : List Bytes) (segments : List Bytes) : Prop :=
  ∃ before completing after behind, segments = before ++ completing :: after ∧
    before.flatten.length < header.length ∧ before.flatten ++ completing = header ++ behind ∧
    HeadWhole [] lines (behind :: after)

/-- The PROXY header is a line and comes in the first segment that is not empty, with no other line
end, and then the head in one segment. -/
def HeaderAlone (header : Bytes) (lines : List Bytes) (segments : List Bytes) : Prop :=
  ∃ empty rest after, bytes "PROXY " <+: header ∧ segments = empty ++ (header ++ rest) :: after ∧
    empty.flatten = [] ∧ ¬ [13, 10] <:+: rest ∧ HeadWhole rest lines after

section Proof

variable {cfg} {backend : Backend} {client : Connection} {request_line : Bytes}
  {header_lines : List Bytes} {segment : Bytes} {segments : List Bytes}

/-- What the handshake of a valid request should lead to. -/
def welcome (cfg : PollConfig) (client : Connection) (header_lines : List Bytes) :
    Bytes × Bytes × List Bytes :=
  (real_addr cfg.toHandshakeConfig client.toClientConnection (parse_headers header_lines),
    select_protocol cfg.toHandshakeConfig (parse_headers header_lines),
    client.sent ++ [response cfg.toHandshakeConfig (parse_headers header_lines)
      ((parse_headers header_lines).get (bytes "Sec-WebSocket-Key"))])

/-- Nothing waits to be drained. -/
structure Drained (client : Connection) : Prop where
  recv_buf : client.recv_buf = []
  unread : client.unread = []

/-- The bytes that come are not looked at for a PROXY header. -/
def Clear (cfg : PollConfig) (backend : Backend) (client : Connection) : Prop :=
  client.proxy_protocol_parsed = true ∨ backend = .readiness ∧
    (client.extra_data = [] ∨ net.parse_proxy_protocol client.extra_data = {} ∨
      (cfg.proxy_protocol && cfg.is_trusted client.remote_addr) = false)

theorem proxy_header_clear (drained : Drained client) (clear : Clear cfg backend client)
    (segment : Bytes) :
    ∃ headed, proxy_header cfg (dispatch (backend.turn segment) client) = some headed ∧
      headed.toClientConnection = client.toClientConnection ∧
      headed.recv_buf = (backend.turn segment).data ∧ headed.unread = (backend.turn segment).arrived ∧
      (client.proxy_protocol_parsed → headed.proxy_protocol_parsed) := by
  have buffers : (dispatch (backend.turn segment) client).recv_buf = (backend.turn segment).data ∧
      (dispatch (backend.turn segment) client).unread = (backend.turn segment).arrived := by
    simp [dispatch, drained.recv_buf, drained.unread]
  unfold proxy_header
  by_cases parsed : client.proxy_protocol_parsed = true
  · rw [if_pos (by exact parsed)]
    exact ⟨_, rfl, rfl, buffers.1, buffers.2, id⟩
  · rw [if_neg (by exact parsed)]
    obtain ⟨rfl, plain⟩ := clear.resolve_left parsed
    split
    · next trusted =>
      split
      · exact ⟨_, rfl, rfl, buffers.1, buffers.2, id⟩
      · next filled =>
        have some : client.extra_data ≠ [] := by
          intro none
          simp [proxy_buffer, dispatch, none, drained.recv_buf, Backend.turn] at filled
        have parsed : net.parse_proxy_protocol
            (proxy_buffer (dispatch (Backend.readiness.turn segment) client)) = {} := by
          rcases plain with none | other | untrusted
          · exact absurd none some
          · simpa [proxy_buffer, dispatch, some] using other
          · exact absurd trusted (by simpa [dispatch] using untrusted)
        refine ⟨_, by rw [parsed, if_neg (by simp)], ?_, ?_, ?_, fun _ => rfl⟩
        · simp [take_header, dispatch]
        · simp [take_header, dispatch, some, drained.recv_buf, Backend.turn]
        · simp [take_header, dispatch, drained.unread]
    · exact ⟨_, rfl, rfl, buffers.1, buffers.2, fun _ => rfl⟩

theorem shake_turn (cfg : PollConfig) {headed : Connection}
    (recv_buf : headed.recv_buf = (backend.turn segment).data)
    (unread : headed.unread = (backend.turn segment).arrived) :
    ∃ drained, Drained drained ∧ drained.toClientConnection = headed.toClientConnection ∧
      drained.proxy_protocol_parsed = headed.proxy_protocol_parsed ∧
      shake cfg 0 (backend.turn segment) headed =
        (perform_server_handshake cfg.toHandshakeConfig headed.toClientConnection segment).map
          fun done => (done.1, { drained with toClientConnection := done.2 }) := by
  obtain ⟨drained, drains, empty, same, parsed⟩ : ∃ drained,
      drain_client 0 (backend.turn segment).broken headed = some (segment, drained) ∧ Drained drained ∧
      drained.toClientConnection = headed.toClientConnection ∧
      drained.proxy_protocol_parsed = headed.proxy_protocol_parsed := by
    cases backend with
    | completion =>
      cases segment with
      | nil =>
        exact ⟨headed, by simp [drain_client, Backend.turn, recv_buf, unread], ⟨recv_buf, unread⟩, rfl, rfl⟩
      | cons c rest =>
        exact ⟨{ headed with recv_buf := [], last_data_at := 0 },
          by simp [drain_client, Backend.turn, recv_buf], ⟨rfl, unread⟩, rfl, rfl⟩
    | readiness =>
      cases segment with
      | nil =>
        exact ⟨headed, by simp [drain_client, Backend.turn, recv_buf, unread], ⟨recv_buf, unread⟩, rfl, rfl⟩
      | cons c rest =>
        exact ⟨{ headed with unread := [], last_data_at := 0 },
          by simp [drain_client, Backend.turn, recv_buf, unread], ⟨recv_buf, rfl⟩, rfl, rfl⟩
  refine ⟨drained, empty, same, parsed, ?_⟩
  have fine : (backend.turn segment).response_fails = false := by cases backend <;> rfl
  rw [shake, drains]
  dsimp only
  rw [same, fine]
  cases perform_server_handshake cfg.toHandshakeConfig headed.toClientConnection segment with
  | none => rfl
  | some done => simp

/-- One poll of a connection whose bytes are not looked at is one read of the handshake. -/
theorem greet_clear (drained : Drained client) (clear : Clear cfg backend client) (segment : Bytes) :
    ∃ next, Drained next ∧ (client.proxy_protocol_parsed → next.proxy_protocol_parsed) ∧
      greet cfg 0 (backend.turn segment) (dispatch (backend.turn segment) client) =
        (perform_server_handshake cfg.toHandshakeConfig client.toClientConnection segment).map
          fun done => (done.1, { next with toClientConnection := done.2 }) := by
  obtain ⟨headed, header, same, recv_buf, unread, parsed⟩ :=
    proxy_header_clear drained clear segment
  obtain ⟨next, empty, _, parsed', shaken⟩ := shake_turn cfg recv_buf unread
  refine ⟨next, empty, fun before => parsed' ▸ parsed before, ?_⟩
  rw [greet, header]
  dsimp only
  rw [shaken, same]

/-- A connection waits for a PROXY header that looks begun in what the handshake left over. -/
theorem stuck_never (waits : client.proxy_protocol_parsed = false)
    (trusted : (cfg.proxy_protocol && cfg.is_trusted client.remote_addr) = true)
    (some : client.extra_data ≠ [])
    (begun : (net.parse_proxy_protocol client.extra_data).need_more_data = true)
    (incomplete : client.handshake_complete = false) (segments : List Bytes) :
    outcome (greet_all cfg backend client segments) = none := by
  induction segments generalizing client with
  | nil => simp [greet_all, outcome, incomplete]
  | cons segment segments ih =>
    have header : proxy_header cfg (dispatch (backend.turn segment) client) = none := by
      have buffer : proxy_buffer (dispatch (backend.turn segment) client) = client.extra_data := by
        simp [proxy_buffer, dispatch, some]
      unfold proxy_header
      rw [buffer, if_neg (by simp [dispatch, waits]), if_pos (by exact trusted),
        if_neg (by simpa using some), if_pos begun]
    rw [greet_all, greet, header]
    exact @ih (dispatch (backend.turn segment) client) waits trusted some begun incomplete

/-- A line that starts with a name and a colon does not start a PROXY header. -/
theorem not_proxy_line {line : Bytes} (named : 58 ∈ line.takeWhile (· ≠ 32)) (rest : Bytes) :
    ¬ bytes "PROXY " <+: line ++ rest := by
  rintro ⟨tail, text⟩
  have solid : 32 ∉ line.takeWhile (· ≠ 32) := fun inside => by
    simpa using List.mem_takeWhile_imp inside
  rw [← List.takeWhile_append_dropWhile (p := fun c => decide (c ≠ 32)) (l := line), List.append_assoc] at text
  rcases List.append_eq_append_iff.mp text with ⟨more, longer, _⟩ | ⟨more, shorter, _⟩
  · exact solid (longer ▸ List.mem_append_left more (by decide))
  · have colon : 58 ∈ bytes "PROXY " := shorter ▸ List.mem_append_left more named
    exact absurd colon (by decide)

theorem not_v2_quiet {buffer : Bytes} (quiet : ¬ [13, 10] <:+: buffer) :
    ¬ net.PP2_SIGNATURE <+: buffer := by
  rintro ⟨tail, rfl⟩
  exact quiet ⟨[], _, rfl⟩

/-- A connection that is not clear is stuck, unless it has a v1 header to take. -/
theorem clear_or_stuck (cfg : PollConfig) (mode : client.proxy_protocol_parsed = true ∨ backend = .readiness)
    (quiet : ¬ [13, 10] <:+: client.extra_data) (no_v1 : ¬ bytes "PROXY " <+: client.extra_data)
    (incomplete : client.handshake_complete = false) :
    Clear cfg backend client ∨
      ∀ segments, outcome (greet_all cfg backend client segments) = none := by
  by_cases clear : Clear cfg backend client
  · exact .inl clear
  · rw [Clear, not_or, not_and] at clear
    obtain ⟨unparsed, other⟩ := clear
    have waiting := other (mode.resolve_left unparsed)
    rw [not_or, not_or, Bool.not_eq_false] at waiting
    obtain ⟨some, seen, trusted⟩ := waiting
    have begun := (net.parse_other some no_v1 (not_v2_quiet quiet)).resolve_right seen
    exact .inr (stuck_never (by simpa using unparsed) trusted some (by rw [begun]) incomplete)

theorem head_bytes_cons (line : Bytes) (hs : List Bytes) (rest : Bytes) :
    head_bytes (line :: hs) ++ rest = line ++ (13 :: 10 :: head_bytes hs ++ rest) := by
  rw [head_bytes, List.cons_append, lines_cons, ← head_bytes]
  simp

theorem head_starts_named {hs : List Bytes} {buffer rest trailing : Bytes}
    (names : ∀ line ∈ hs, 58 ∈ line.takeWhile (· ≠ 32))
    (cuts : buffer ++ rest = head_bytes hs ++ trailing) : ¬ bytes "PROXY " <+: buffer := by
  intro starts
  have whole := starts.trans (List.prefix_append buffer rest)
  rw [cuts] at whole
  cases hs with
  | nil =>
    obtain ⟨tail, text⟩ := whole
    exact absurd (List.cons.inj text).1 (by decide)
  | cons line hs =>
    rw [head_bytes_cons] at whole
    exact not_proxy_line (names line List.mem_cons_self) _ whole

/-- Without its request line, a handshake is not completed. -/
theorem lost_never {hs : List Bytes} {trailing : Bytes} (drained : Drained client)
    (mode : client.proxy_protocol_parsed = true ∨ backend = .readiness)
    (incomplete : client.handshake_complete = false) (quiet : ¬ [13, 10] <:+: client.extra_data)
    (clean : ∀ line ∈ hs, line ≠ [] ∧ ¬ [13, 10] <:+: line)
    (names : ∀ line ∈ hs, 58 ∈ line.takeWhile (· ≠ 32))
    (cuts : client.extra_data ++ segments.flatten = head_bytes hs ++ trailing) :
    outcome (greet_all cfg backend client segments) = none := by
  induction segments generalizing client hs with
  | nil => simp [greet_all, outcome, incomplete]
  | cons segment segments ih =>
    rcases clear_or_stuck cfg mode quiet (head_starts_named names cuts) incomplete with
      clear | stuck
    · rw [List.flatten_cons, ← List.append_assoc] at cuts
      obtain ⟨next, empty, parsed, polled⟩ := greet_clear drained clear segment
      rw [greet_all, polled, perform_eq]
      rcases buffer_lines clean cuts with ⟨more, brought, _⟩ | ⟨none_empty, later, split, rest⟩
      · rw [if_neg (by rw [brought]; simp), brought, answer_lost names]
        rfl
      · rw [if_pos none_empty]
        refine ih ⟨empty.recv_buf, empty.unread⟩ (mode.imp_left parsed) incomplete ?_ ?_ ?_ rest
        · exact cutAt_none.mp (Cutter.cut_drain (c := ws.lineCutter) _)
        · exact fun line member => clean line (split ▸ List.mem_append_right _ member)
        · exact fun line member => names line (split ▸ List.mem_append_right _ member)
    · exact stuck _

theorem headWhole_cons {buffer chunk : Bytes} {ls reads : List Bytes}
    (quiet : ¬ [13, 10] <:+: buffer) : HeadWhole buffer ls (chunk :: reads) ↔
      (∃ behind, buffer ++ chunk = head_bytes ls ++ behind) ∨ HeadWhole (buffer ++ chunk) ls reads := by
  constructor
  · rintro ⟨before, completing, after, behind, shape, whole, silent⟩
    cases before with
    | nil =>
      obtain ⟨rfl, rfl⟩ := List.cons.inj shape
      exact .inl ⟨behind, by simpa using whole⟩
    | cons c before =>
      obtain ⟨rfl, rest⟩ := List.cons.inj shape
      rw [List.flatten_cons, ← List.append_assoc] at whole silent
      exact .inr ⟨before, completing, after, behind, rest, whole, silent⟩
  · rintro (⟨behind, whole⟩ | ⟨before, completing, after, behind, rest, whole, silent⟩)
    · exact ⟨[], chunk, reads, behind, rfl, by simpa using whole, by simpa using quiet⟩
    · refine ⟨chunk :: before, completing, after, behind, by rw [rest]; rfl, ?_, ?_⟩
      · rw [List.flatten_cons, ← List.append_assoc, whole]
      · rwa [List.flatten_cons, ← List.append_assoc]

theorem HeadWhole.quiet {buffer : Bytes} {ls reads : List Bytes} (whole : HeadWhole buffer ls reads) :
    ¬ [13, 10] <:+: buffer := by
  obtain ⟨before, _, _, _, _, _, silent⟩ := whole
  exact fun occurs => silent (occurs.trans (List.prefix_append _ _).isInfix)

theorem request_starts (valid : ValidRequest request_line header_lines) {c : UInt8}
    {buffer rest trailing : Bytes}
    (cuts : c :: buffer ++ rest = head_bytes (request_line :: header_lines) ++ trailing) : c = 71 := by
  obtain ⟨line, parsed, get⟩ := valid.method
  unfold ws.parse_request_line at parsed
  cases first : Lib.Fields.splitFirst 32 request_line with
  | none => simp [first] at parsed
  | some parts =>
    obtain ⟨method, more⟩ := parts
    simp only [first] at parsed
    have method_eq : method = bytes "GET" := by
      cases second : Lib.Fields.splitFirst 32 more with
      | none => simp [second] at parsed
      | some parts =>
        simp only [second, Option.some.injEq] at parsed
        rw [← get, ← parsed]
    have text := (Lib.Fields.splitFirst_some first).1
    rw [head_bytes_cons, text, method_eq] at cuts
    exact (List.cons.inj cuts).1

/-- Once the header is out of the way, a connection is greeted exactly if the head comes whole. -/
theorem greeted_iff (valid : ValidRequest request_line header_lines) {trailing : Bytes}
    (drained : Drained client)
    (mode : client.proxy_protocol_parsed = true ∨ backend = .readiness)
    (incomplete : client.handshake_complete = false) (quiet : ¬ [13, 10] <:+: client.extra_data)
    (cuts : client.extra_data ++ segments.flatten =
      head_bytes (request_line :: header_lines) ++ trailing) (result : Bytes × Bytes × List Bytes) :
    outcome (greet_all cfg backend client segments) = some result ↔
      HeadWhole client.extra_data (request_line :: header_lines) segments ∧
        result = welcome cfg client header_lines := by
  induction segments generalizing client with
  | nil => simp [greet_all, outcome, incomplete, HeadWhole]
  | cons segment segments ih =>
    have clear : Clear cfg backend client := by
      rcases mode with parsed | ready
      · exact .inl parsed
      · refine .inr ⟨ready, ?_⟩
        cases extra : client.extra_data with
        | nil => exact .inl rfl
        | cons c rest =>
          rw [extra] at cuts
          obtain rfl := request_starts valid cuts
          exact .inr (.inl (net.parse_plain (by decide) (by decide) rest))
    obtain ⟨next, empty, parsed, polled⟩ := greet_clear drained clear segment
    rw [List.flatten_cons, ← List.append_assoc] at cuts
    rw [greet_all, polled, perform_eq, headWhole_cons quiet]
    rcases buffer_lines valid.clean cuts with ⟨more, brought, behind_eq⟩ | ⟨none_empty, later, split, rest⟩
    · have here : ∃ behind, client.extra_data ++ segment =
          head_bytes (request_line :: header_lines) ++ behind := by
        rw [behind_eq, ← List.append_assoc, ← List.append_assoc] at cuts
        exact ⟨_, (List.append_cancel_right cuts).trans (List.append_assoc _ _ _)⟩
      rw [if_neg (by rw [brought]; simp), brought, valid.answer_eq, and_iff_right (.inl here)]
      change some (welcome cfg client header_lines) = some result ↔ _
      rw [Option.some.injEq, eq_comm]
    · rw [if_pos none_empty]
      have not_yet : ¬ ∃ behind, client.extra_data ++ segment =
          head_bytes (request_line :: header_lines) ++ behind := by
        rintro ⟨behind, whole⟩
        rw [drain_head valid.clean whole] at none_empty
        simp at none_empty
      rw [or_iff_right not_yet]
      cases brought : (ws.lineCutter.drain (client.extra_data ++ segment)).1 with
      | nil =>
        have silent := drain_clean.mp brought
        have kept : (ws.lineCutter.drain (client.extra_data ++ segment)).2 =
            client.extra_data ++ segment := by
          rw [Cutter.drain_none (c := ws.lineCutter) (cutAt_none.mpr silent)]
        rw [kept]
        exact @ih { next with toClientConnection :=
            { client.toClientConnection with extra_data := client.extra_data ++ segment } }
          ⟨empty.recv_buf, empty.unread⟩ (mode.imp_left parsed) incomplete silent cuts
      | cons line others =>
        rw [brought] at split
        have suffix : header_lines = others ++ later := (List.cons.inj split).2
        have lost : outcome (greet_all cfg backend { next with toClientConnection :=
            { client.toClientConnection with
              extra_data := (ws.lineCutter.drain (client.extra_data ++ segment)).2 } } segments) = none :=
          lost_never ⟨empty.recv_buf, empty.unread⟩ (mode.imp_left parsed) incomplete
            (cutAt_none.mp (Cutter.cut_drain (c := ws.lineCutter) _))
            (fun l member => valid.clean l (List.mem_cons_of_mem _ (suffix ▸ List.mem_append_right _ member)))
            (fun l member => valid.names l (suffix ▸ List.mem_append_right _ member)) rest
        refine iff_of_false (fun ends => ?_) fun whole => ?_
        · cases lost.symm.trans ends
        · rw [drain_clean.mpr whole.1.quiet] at brought
          cases brought

theorem answer_proxy_line {cfg : HandshakeConfig} {client : ClientConnection} {line : Bytes}
    (starts : bytes "PROXY " <+: line) (more : List Bytes) : answer cfg client (line :: more) = none := by
  obtain ⟨rest, rfl⟩ := starts
  have cut : Lib.Fields.splitFirst 32 (bytes "PROXY " ++ rest) = some (bytes "PROXY", rest) :=
    Lib.Fields.splitFirst_append (p := bytes "PROXY") (by decide) rest
  unfold answer ws.parse_request_line
  rw [List.headD_cons, cut]
  dsimp only
  cases Lib.Fields.splitFirst 32 rest with
  | none => rfl
  | some parts =>
    have other : bytes "PROXY" ≠ bytes "GET" := by decide
    exact if_pos other

/-- An accepted connection with what the handshake has left over so far. -/
def reading (remote_addr extra_data : Bytes) : Connection := { remote_addr, extra_data }

section Header

variable {header remote_addr : Bytes} {trailing : Bytes}
  (proxied : cfg.proxy_protocol = true) (trusted : cfg.is_trusted remote_addr = true)

include proxied trusted

theorem proxy_header_accepted {buffer : Bytes} (some_ : buffer ≠ []) :
    proxy_header cfg (accepted remote_addr buffer) =
      if (net.parse_proxy_protocol buffer).need_more_data then none
      else some (take_header (accepted remote_addr buffer) (net.parse_proxy_protocol buffer)) := by
  unfold proxy_header
  rw [if_neg (by simp [accepted]), if_pos (by simp [accepted, proxied, trusted]),
    if_neg (by simpa [proxy_buffer, accepted] using some_)]
  rfl

theorem header_waits {buffer missing : Bytes} (valid : net.ValidHeader (buffer ++ missing))
    (more : missing ≠ []) (segment : Bytes) :
    greet cfg 0 (Backend.completion.turn segment) (accepted remote_addr buffer) =
      some (false, accepted remote_addr buffer) := by
  unfold greet
  cases buffer with
  | nil =>
    unfold proxy_header
    rw [if_neg (by simp [accepted]), if_pos (by simp [accepted, proxied, trusted])]
    rfl
  | cons c rest =>
    have some_ := List.cons_ne_nil c rest
    rw [proxy_header_accepted proxied trusted some_, if_pos (valid.needs_more more)]

/-- The polls up to the one that brings all of the header are as one that brings what is behind it to a
connection with the address resolved. -/
theorem completion_header (valid : net.ValidHeader header) {before after : List Bytes}
    {buffer completing behind : Bytes} (short : (buffer ++ before.flatten).length < header.length)
    (whole : buffer ++ before.flatten ++ completing = header ++ behind) :
    greet_all cfg .completion (accepted remote_addr buffer) (before ++ completing :: after) =
      greet_all cfg .completion
        (take_header (accepted remote_addr []) (net.parse_proxy_protocol header)) (behind :: after) := by
  induction before generalizing buffer with
  | nil =>
    rw [List.flatten_nil, List.append_nil] at whole short
    have stripped : greet cfg 0 (Backend.completion.turn completing)
        (dispatch (Backend.completion.turn completing) (accepted remote_addr buffer)) =
        greet cfg 0 (Backend.completion.turn behind) (dispatch (Backend.completion.turn behind)
          (take_header (accepted remote_addr []) (net.parse_proxy_protocol header))) := by
      have brought : dispatch (Backend.completion.turn completing) (accepted remote_addr buffer) =
          accepted remote_addr (header ++ behind) := whole ▸ rfl
      have some_ : header ++ behind ≠ [] := by
        intro none
        simp [(List.append_eq_nil_iff.mp none).1] at short
      have same : take_header (accepted remote_addr (header ++ behind)) (net.parse_proxy_protocol header) =
          dispatch (Backend.completion.turn behind)
            (take_header (accepted remote_addr []) (net.parse_proxy_protocol header)) := by
        simp [take_header, dispatch, accepted, valid.whole, Backend.turn]
      obtain ⟨parsed, decided⟩ := valid.parse_append behind
      rw [brought, greet, proxy_header_accepted proxied trusted some_, parsed, decided,
        if_neg Bool.false_ne_true, same]
      rfl
    rw [List.nil_append, greet_all, stripped, greet_all]
  | cons chunk before ih =>
    rw [List.flatten_cons, ← List.append_assoc] at whole short
    obtain ⟨missing, text⟩ : buffer ++ chunk <+: header := by
      have front : buffer ++ chunk <+: header ++ behind := by
        rw [← whole, List.append_assoc]
        exact List.prefix_append _ _
      refine List.prefix_of_prefix_length_le front (List.prefix_append _ _) ?_
      rw [List.length_append] at short
      omega
    have more : missing ≠ [] := by
      rintro rfl
      rw [← text, List.append_nil, List.length_append] at short
      omega
    have waits := header_waits proxied trusted (text ▸ valid) more chunk
    have brought : dispatch (Backend.completion.turn chunk) (accepted remote_addr buffer) =
        accepted remote_addr (buffer ++ chunk) := rfl
    rw [List.cons_append, greet_all, brought, waits]
    exact ih short whole

theorem completion_iff (valid : net.ValidHeader header)
    (request : ValidRequest request_line header_lines)
    (cuts : segments.flatten = header ++ (head_bytes (request_line :: header_lines) ++ trailing))
    (result : Bytes × Bytes × List Bytes) :
    outcome (greet_all cfg .completion (accepted remote_addr []) segments) = some result ↔
      HeadBehind header (request_line :: header_lines) segments ∧ result =
        welcome cfg (take_header (accepted remote_addr []) (net.parse_proxy_protocol header))
          header_lines := by
  have step {before after : List Bytes} {completing behind : Bytes}
      (shape : segments = before ++ completing :: after) (short : before.flatten.length < header.length)
      (whole : before.flatten ++ completing = header ++ behind) :
      outcome (greet_all cfg .completion (accepted remote_addr []) segments) = some result ↔
        HeadWhole [] (request_line :: header_lines) (behind :: after) ∧ result =
          welcome cfg (take_header (accepted remote_addr []) (net.parse_proxy_protocol header))
            header_lines := by
    have rest : (behind :: after).flatten = head_bytes (request_line :: header_lines) ++ trailing := by
      rw [shape, List.flatten_append, List.flatten_cons, ← List.append_assoc, whole,
        List.append_assoc] at cuts
      exact List.append_cancel_left cuts
    have emptied : (take_header (accepted remote_addr [])
        (net.parse_proxy_protocol header)).extra_data = [] := List.drop_nil
    rw [shape, completion_header proxied trusted valid (by simpa using short) (by simpa using whole),
      greeted_iff request ⟨List.drop_nil, rfl⟩ (.inl rfl) rfl (by rw [emptied]; simp)
        (by rw [emptied, List.nil_append]; exact rest), emptied]
  constructor
  · intro ends
    obtain ⟨before, completing, after, shape, short, enough⟩ :=
      exists_piece (List.length_pos_of_ne_nil valid.filled) (by rw [cuts, List.length_append]; omega)
    obtain ⟨behind, whole⟩ : ∃ behind, before.flatten ++ completing = header ++ behind := by
      have front : header <+: before.flatten ++ completing := by
        have whole : header <+: segments.flatten := by
          rw [cuts]
          exact List.prefix_append _ _
        have part : before.flatten ++ completing <+: segments.flatten := by
          rw [shape, List.flatten_append, List.flatten_cons, ← List.append_assoc]
          exact List.prefix_append _ _
        exact List.prefix_of_prefix_length_le whole part enough
      obtain ⟨behind, text⟩ := front
      exact ⟨behind, text.symm⟩
    obtain ⟨head, same⟩ := (step shape short whole).mp ends
    exact ⟨⟨before, completing, after, behind, shape, short, whole, head⟩, same⟩
  · rintro ⟨⟨before, completing, after, behind, shape, short, whole, head⟩, same⟩
    exact (step shape short whole).mpr ⟨head, same⟩

/-- In readiness mode the first segment goes to the handshake. -/
theorem readiness_greet (segment : Bytes) :
    greet cfg 0 (Backend.readiness.turn segment)
        (dispatch (Backend.readiness.turn segment) (reading remote_addr [])) =
      (perform_server_handshake cfg.toHandshakeConfig { remote_addr } segment).map
        fun done => (done.1, { reading remote_addr [] with toClientConnection := done.2 }) := by
  have header : proxy_header cfg (dispatch (Backend.readiness.turn segment) (reading remote_addr [])) =
      some (dispatch (Backend.readiness.turn segment) (reading remote_addr [])) := by
    unfold proxy_header
    rw [if_neg (by simp [reading, dispatch]), if_pos (by simp [reading, dispatch, proxied, trusted])]
    rfl
  rw [greet, header]
  cases segment with
  | nil => rfl
  | cons c rest =>
    dsimp only
    rw [shake]
    have drains : drain_client 0 (Backend.readiness.turn (c :: rest)).broken
        (dispatch (Backend.readiness.turn (c :: rest)) (reading remote_addr [])) =
        some (c :: rest, reading remote_addr []) := rfl
    rw [drains]
    dsimp only [reading]
    cases perform_server_handshake cfg.toHandshakeConfig { remote_addr } (c :: rest) with
    | none => rfl
    | some done => simp [Backend.turn]

theorem readiness_empty {empty : List Bytes} (nothing : empty.flatten = []) (segments : List Bytes) :
    greet_all cfg .readiness (reading remote_addr []) (empty ++ segments) =
      greet_all cfg .readiness (reading remote_addr []) segments := by
  induction empty with
  | nil => rfl
  | cons segment empty ih =>
    rw [List.flatten_cons, List.append_eq_nil_iff] at nothing
    rw [List.cons_append, greet_all, readiness_greet proxied trusted, nothing.1]
    exact ih nothing.2

theorem readiness_kept {first : Bytes} (waits : [] ∉ (ws.lineCutter.drain first).1)
    (after : List Bytes) : greet_all cfg .readiness (reading remote_addr []) (first :: after) =
      greet_all cfg .readiness (reading remote_addr (ws.lineCutter.drain first).2) after := by
  have drained : ws.lineCutter.drain ([] ++ first) = ws.lineCutter.drain first := rfl
  rw [greet_all, readiness_greet proxied trusted, perform_eq]
  dsimp only
  rw [drained, if_pos waits]
  rfl

theorem readiness_refused {first : Bytes} (ends : [] ∈ (ws.lineCutter.drain first).1)
    (refused : ∀ client, answer cfg.toHandshakeConfig client (ws.lineCutter.drain first).1 = none)
    (after : List Bytes) :
    greet_all cfg .readiness (reading remote_addr []) (first :: after) = none := by
  have drained : ws.lineCutter.drain ([] ++ first) = ws.lineCutter.drain first := rfl
  rw [greet_all, readiness_greet proxied trusted, perform_eq]
  dsimp only
  rw [drained, if_neg (not_not_intro ends), refused]
  rfl

/-- A segment without a line end is a part of the header that waits for the rest. -/
theorem readiness_part (valid : net.ValidHeader header) {first : Bytes} (after : List Bytes)
    (some_ : first ≠ []) (quiet : ¬ [13, 10] <:+: first)
    (cuts : first ++ after.flatten = header ++ (head_bytes (request_line :: header_lines) ++ trailing)) :
    outcome (greet_all cfg .readiness (reading remote_addr []) (first :: after)) = none := by
  have line_end := valid.line_end
  have kept : ws.lineCutter.drain first = ([], first) := Cutter.drain_none (cutAt_none.mpr quiet)
  have front : first <+: header ++ (head_bytes (request_line :: header_lines) ++ trailing) :=
    cuts ▸ List.prefix_append _ _
  obtain ⟨missing, text⟩ : first <+: header := by
    rcases List.prefix_or_prefix_of_prefix front (List.prefix_append header _) with short | long
    · exact short
    · exact absurd (line_end.trans long.isInfix) quiet
  have more : missing ≠ [] := by
    rintro rfl
    rw [List.append_nil] at text
    exact quiet (text ▸ line_end)
  rw [readiness_kept proxied trusted (by rw [kept]; exact List.not_mem_nil), kept]
  exact stuck_never rfl (by simp [reading, proxied, trusted]) some_
    (net.ValidHeader.needs_more (text ▸ valid) more) rfl after

/-- The signature of a v2 header starts with an empty line. -/
theorem readiness_v2 (v2 : net.IsV2 header) {first line rest : Bytes} (after : List Bytes)
    (cut : cutAt 13 10 first = some (line, rest))
    (cuts : first ++ after.flatten = header ++ (head_bytes (request_line :: header_lines) ++ trailing)) :
    outcome (greet_all cfg .readiness (reading remote_addr []) (first :: after)) = none := by
  have drained : ws.lineCutter.drain first =
      (line :: (ws.lineCutter.drain rest).1, (ws.lineCutter.drain rest).2) := Cutter.drain_some cut
  have stream : cutAt 13 10 (header ++ (head_bytes (request_line :: header_lines) ++ trailing)) =
      some (line, rest ++ after.flatten) := cuts ▸ ws.lineCutter.stable after.flatten cut
  obtain ⟨tail, text⟩ := v2.starts
  have empty : line = [] := by
    rw [← text, List.append_assoc] at stream
    have cut_empty : cutAt 13 10 (net.PP2_SIGNATURE ++ (tail ++
        (head_bytes (request_line :: header_lines) ++ trailing))) = some ([], _) :=
      cutAt_append (p := []) cr_ne_lf (by simp) _
    exact (congrArg Prod.fst (Option.some.inj (cut_empty.symm.trans stream))).symm
  rw [readiness_refused proxied trusted (by rw [drained, empty]; exact List.mem_cons_self)
    (fun client => by rw [drained, empty]; rfl)]
  rfl

section V1

variable {header_line first rest : Bytes} (v1 : net.IsV1 header header_line) {after : List Bytes}
  (first_eq : first = header ++ rest)
  (behind : rest ++ after.flatten = head_bytes (request_line :: header_lines) ++ trailing)
include v1 first_eq

omit proxied trusted in
/-- The header is the first line of the segment. -/
theorem drain_v1 : ws.lineCutter.drain first =
    (header_line :: (ws.lineCutter.drain rest).1, (ws.lineCutter.drain rest).2) := by
  have cut : cutAt 13 10 first = some (header_line, rest) := by
    rw [first_eq, v1.text, List.append_assoc]
    exact cutAt_append cr_ne_lf v1.clean rest
  exact Cutter.drain_some cut

omit proxied trusted first_eq in
theorem header_line_ne_nil : header_line ≠ [] := by
  rintro rfl
  exact absurd (List.prefix_nil.mp v1.starts) (by decide)

include behind

/-- Lines that come with the header are lost with it. -/
theorem readiness_crowded (request : ValidRequest request_line header_lines)
    (crowded : [13, 10] <:+: rest) :
    outcome (greet_all cfg .readiness (reading remote_addr []) (first :: after)) = none := by
  have drained := drain_v1 v1 first_eq
  rcases buffer_lines request.clean behind with ⟨more, brought, _⟩ | ⟨none_empty, later, split, left⟩
  · rw [readiness_refused proxied trusted (by rw [drained, brought]; simp)
      (fun client => by rw [drained]; exact answer_proxy_line v1.starts _)]
    rfl
  · cases brought : (ws.lineCutter.drain rest).1 with
    | nil => exact absurd crowded (drain_clean.mp brought)
    | cons l others =>
      rw [brought] at split
      have suffix : header_lines = others ++ later := (List.cons.inj split).2
      have kept : [] ∉ (ws.lineCutter.drain first).1 := by
        rw [drained]
        exact List.not_mem_cons_of_ne_of_not_mem (header_line_ne_nil v1).symm none_empty
      rw [readiness_kept proxied trusted kept, drained]
      exact lost_never ⟨rfl, rfl⟩ (.inr rfl) rfl
        (cutAt_none.mp (Cutter.cut_drain (c := ws.lineCutter) _))
        (fun l member =>
          request.clean l (List.mem_cons_of_mem _ (suffix ▸ List.mem_append_right _ member)))
        (fun l member => request.names l (suffix ▸ List.mem_append_right _ member)) left

/-- A header that comes without another line end is passed over. -/
theorem readiness_alone (request : ValidRequest request_line header_lines)
    (quiet : ¬ [13, 10] <:+: rest) (result : Bytes × Bytes × List Bytes) :
    outcome (greet_all cfg .readiness (reading remote_addr []) (first :: after)) = some result ↔
      HeadWhole rest (request_line :: header_lines) after ∧
        result = welcome cfg (accepted remote_addr []) header_lines := by
  have drained := drain_v1 v1 first_eq
  have kept : ws.lineCutter.drain rest = ([], rest) := Cutter.drain_none (cutAt_none.mpr quiet)
  have filled := header_line_ne_nil v1
  rw [readiness_kept proxied trusted (by rw [drained, kept]; simpa using filled.symm), drained, kept]
  exact greeted_iff request (⟨rfl, rfl⟩ : Drained (reading remote_addr rest)) (.inr rfl) rfl quiet behind
    result

end V1

/-- In readiness mode, the first bytes are taken for the request line. The PROXY header is passed over
where it is a line and no other line end comes with it. -/
theorem readiness_first (valid : net.ValidHeader header)
    (request : ValidRequest request_line header_lines) {first : Bytes} (after : List Bytes)
    (some_ : first ≠ [])
    (cuts : first ++ after.flatten = header ++ (head_bytes (request_line :: header_lines) ++ trailing))
    (result : Bytes × Bytes × List Bytes) :
    outcome (greet_all cfg .readiness (reading remote_addr []) (first :: after)) = some result ↔
      ∃ rest, bytes "PROXY " <+: header ∧ first = header ++ rest ∧ ¬ [13, 10] <:+: rest ∧
        HeadWhole rest (request_line :: header_lines) after ∧
        result = welcome cfg (accepted remote_addr []) header_lines := by
  cases cut : cutAt 13 10 first with
  | none =>
    have quiet := cutAt_none.mp cut
    rw [readiness_part proxied trusted valid after some_ quiet cuts]
    refine iff_of_false (fun ends => nomatch ends) ?_
    rintro ⟨rest, _, whole, _⟩
    exact quiet (whole ▸ valid.line_end.trans (List.prefix_append header rest).isInfix)
  | some frame =>
    obtain ⟨line, rest⟩ := frame
    rcases valid.version with ⟨header_line, v1⟩ | v2
    · have stream : cutAt 13 10 (header ++ (head_bytes (request_line :: header_lines) ++ trailing)) =
          some (line, rest ++ after.flatten) := cuts ▸ ws.lineCutter.stable after.flatten cut
      rw [v1.text, List.append_assoc] at stream
      obtain ⟨rfl, behind⟩ := Prod.mk.inj (Option.some.inj
        ((cutAt_append cr_ne_lf v1.clean (head_bytes (request_line :: header_lines) ++ trailing)).symm.trans
          stream))
      have first_eq : first = header ++ rest := by
        rw [cutAt_eq cut, v1.text]
        simp
      have same_rest {other : Bytes} (whole : first = header ++ other) : other = rest :=
        (List.append_cancel_left (first_eq.symm.trans whole)).symm
      by_cases quiet : [13, 10] <:+: rest
      · rw [readiness_crowded proxied trusted v1 first_eq behind.symm request quiet]
        refine iff_of_false (fun ends => nomatch ends) ?_
        rintro ⟨other, _, whole, silent, _⟩
        exact silent (same_rest whole ▸ quiet)
      · have starts : bytes "PROXY " <+: header := v1.text ▸ v1.starts.trans (List.prefix_append _ _)
        rw [readiness_alone proxied trusted v1 first_eq behind.symm request quiet]
        constructor
        · rintro ⟨head, same⟩
          exact ⟨rest, starts, first_eq, quiet, head, same⟩
        · rintro ⟨other, _, whole, _, head, same⟩
          exact ⟨same_rest whole ▸ head, same⟩
    · rw [readiness_v2 proxied trusted v2 after cut cuts]
      refine iff_of_false (fun ends => nomatch ends) ?_
      rintro ⟨_, starts, _⟩
      exact net.not_v1_of_v2 v2.starts starts

theorem readiness_iff (valid : net.ValidHeader header)
    (request : ValidRequest request_line header_lines)
    (cuts : segments.flatten = header ++ (head_bytes (request_line :: header_lines) ++ trailing))
    (result : Bytes × Bytes × List Bytes) :
    outcome (greet_all cfg .readiness (accepted remote_addr []) segments) = some result ↔
      HeaderAlone header (request_line :: header_lines) segments ∧
        result = welcome cfg (accepted remote_addr []) header_lines := by
  have step {empty after : List Bytes} {first : Bytes} (shape : segments = empty ++ first :: after)
      (nothing : empty.flatten = []) (some_ : first ≠ []) :=
    readiness_first proxied trusted valid request after some_
      (by rwa [shape, List.flatten_append, nothing, List.nil_append, List.flatten_cons] at cuts) result
  have skip {empty after : List Bytes} {first : Bytes} (shape : segments = empty ++ first :: after)
      (nothing : empty.flatten = []) : greet_all cfg .readiness (accepted remote_addr []) segments =
        greet_all cfg .readiness (reading remote_addr []) (first :: after) :=
    shape ▸ readiness_empty proxied trusted nothing (first :: after)
  have filled := valid.filled
  constructor
  · intro ends
    have some_bytes : 1 ≤ segments.flatten.length := by
      have := List.length_pos_of_ne_nil filled
      rw [cuts, List.length_append]
      omega
    obtain ⟨empty, first, after, shape, short, enough⟩ := exists_piece Nat.one_pos some_bytes
    have nothing : empty.flatten = [] := List.length_eq_zero_iff.mp (by omega)
    have some_ : first ≠ [] := by
      rintro rfl
      simp [nothing] at enough
    rw [skip shape nothing, step shape nothing some_] at ends
    obtain ⟨rest, starts, text, quiet, head, same⟩ := ends
    exact ⟨⟨empty, rest, after, starts, text ▸ shape, nothing, quiet, head⟩, same⟩
  · rintro ⟨⟨empty, rest, after, starts, shape, nothing, quiet, head⟩, same⟩
    rw [skip shape nothing, step shape nothing (List.append_ne_nil_of_left_ne_nil filled rest)]
    exact ⟨rest, starts, rfl, quiet, head, same⟩

end Header

theorem HeaderAlone.behind {header : Bytes} {lines : List Bytes}
    (alone : HeaderAlone header lines segments) (filled : header ≠ []) :
    HeadBehind header lines segments := by
  obtain ⟨empty, rest, after, _, shape, nothing, quiet, head⟩ := alone
  refine ⟨empty, header ++ rest, after, rest, shape, ?_, by rw [nothing, List.nil_append], ?_⟩
  · rw [nothing]
    exact List.length_pos_of_ne_nil filled
  · exact (headWhole_cons (by simp)).mpr (.inr head)

/-- The address the two backends resolve, from the header or from the request, is the same. -/
theorem welcome_eq_iff (cfg : PollConfig) (remote_addr : Bytes) (header_lines : List Bytes)
    {header : Bytes} (valid : net.ValidHeader header) :
    welcome cfg (take_header (accepted remote_addr []) (net.parse_proxy_protocol header)) header_lines =
        welcome cfg (accepted remote_addr []) header_lines ↔
      (net.parse_proxy_protocol header).client_addr = [] ∨
        (net.parse_proxy_protocol header).client_addr =
          real_addr cfg.toHandshakeConfig { remote_addr } (parse_headers header_lines) := by
  by_cases none : (net.parse_proxy_protocol header).client_addr = []
  · simp [none, welcome, take_header, accepted]
  · have resolved : take_header (accepted remote_addr []) (net.parse_proxy_protocol header) =
        { accepted remote_addr [] with
          remote_addr := (net.parse_proxy_protocol header).client_addr
          proxy_protocol_resolved := true
          proxy_protocol_parsed := true } := by
      simp [take_header, accepted, valid.valid, none]
    have address (addr : Bytes) : real_addr cfg.toHandshakeConfig
        { remote_addr := addr, proxy_protocol_resolved := true } (parse_headers header_lines) = addr := by
      simp [real_addr]
    rw [or_iff_right none, resolved, welcome, welcome, Prod.mk.injEq]
    simp only [accepted, address, and_true]

/-- For a connection of a trusted proxy that brings a PROXY header and a valid request, the backends
come to the same exactly if the header comes alone in a line and names no other address, or the request
is cut in a way that neither completes the handshake. They complete the same handshake with the same
address exactly in the first case. -/
theorem backends_agree_iff (cfg : PollConfig) {header remote_addr request_line trailing : Bytes}
    {header_lines segments : List Bytes} (proxied : cfg.proxy_protocol = true)
    (trusted : cfg.is_trusted remote_addr = true) (valid : net.ValidHeader header)
    (request : ValidRequest request_line header_lines)
    (cuts : segments.flatten = header ++ (head_bytes (request_line :: header_lines) ++ trailing)) :
    (outcome (greet_all cfg .completion (accepted remote_addr []) segments) =
        outcome (greet_all cfg .readiness (accepted remote_addr []) segments) ↔
      (HeadBehind header (request_line :: header_lines) segments →
        HeaderAlone header (request_line :: header_lines) segments ∧
          ((net.parse_proxy_protocol header).client_addr = [] ∨
            (net.parse_proxy_protocol header).client_addr =
              real_addr cfg.toHandshakeConfig { remote_addr } (parse_headers header_lines)))) ∧
    ((∃ result, outcome (greet_all cfg .completion (accepted remote_addr []) segments) = some result ∧
        outcome (greet_all cfg .readiness (accepted remote_addr []) segments) = some result) ↔
      HeaderAlone header (request_line :: header_lines) segments ∧
        ((net.parse_proxy_protocol header).client_addr = [] ∨
          (net.parse_proxy_protocol header).client_addr =
            real_addr cfg.toHandshakeConfig { remote_addr } (parse_headers header_lines))) := by
  have completion := completion_iff proxied trusted valid request cuts
  have readiness := readiness_iff proxied trusted valid request cuts
  have later (alone : HeaderAlone header (request_line :: header_lines) segments) :=
    alone.behind valid.filled
  rw [← welcome_eq_iff cfg remote_addr header_lines valid]
  generalize outcome (greet_all cfg .completion (accepted remote_addr []) segments) = completed at *
  generalize outcome (greet_all cfg .readiness (accepted remote_addr []) segments) = drained at *
  refine ⟨⟨fun same whole => ?_, fun agree => ?_⟩, fun ⟨result, done, done'⟩ => ?_, fun ⟨alone, same⟩ => ?_⟩
  · exact (readiness _).mp (same ▸ (completion _).mpr ⟨whole, rfl⟩)
  · by_cases whole : HeadBehind header (request_line :: header_lines) segments
    · obtain ⟨alone, same⟩ := agree whole
      rw [(completion _).mpr ⟨whole, rfl⟩, (readiness _).mpr ⟨alone, same⟩]
    · have nothing : completed = none :=
        Option.eq_none_iff_forall_ne_some.mpr fun result done => whole ((completion result).mp done).1
      have nothing' : drained = none :=
        Option.eq_none_iff_forall_ne_some.mpr fun result done => whole (later ((readiness result).mp done).1)
      rw [nothing, nothing']
  · obtain ⟨_, resolved⟩ := (completion result).mp done
    obtain ⟨alone, resolved'⟩ := (readiness result).mp done'
    exact ⟨alone, resolved.symm.trans resolved'⟩
  · exact ⟨_, (completion _).mpr ⟨later alone, rfl⟩, (readiness _).mpr ⟨alone, same⟩⟩

/-- A server behind a proxy at 10.0.0.1 that writes PROXY headers, with the digest and its encoding
for the key of the small request. -/
def behindProxy : PollConfig where
  proxy_protocol := true
  is_trusted addr := addr = bytes "10.0.0.1"
  sha1_raw _ := [207, 2, 157, 228, 25, 232, 91, 20, 58, 27, 20, 241,
    197, 41, 129, 72, 113, 135, 95, 211]
  base64_encode _ := bytes "zwKd5BnoWxQ6GxTxxSmBSHGHX9M="

/-- A header without an address that comes on its own. -/
theorem backends_agree_unknown :
    ∃ result,
      outcome (greet_all behindProxy .completion (accepted (bytes "10.0.0.1") [])
        [bytes "PROXY UNKNOWN\r\n", head_bytes greeting]) = some result ∧
      outcome (greet_all behindProxy .readiness (accepted (bytes "10.0.0.1") [])
        [bytes "PROXY UNKNOWN\r\n", head_bytes greeting]) = some result :=
  (backends_agree_iff behindProxy rfl (by decide +kernel)
    (⟨by decide +kernel, by decide +kernel⟩ : net.ValidHeader (bytes "PROXY UNKNOWN\r\n")) greeting_valid
    (by decide +kernel : _ = _ ++ (_ ++ []))).2.mpr
    ⟨⟨[], [], [head_bytes greeting], by decide +kernel, by decide +kernel, rfl, by decide,
      ⟨[], head_bytes greeting, [], [], rfl, by decide +kernel, by decide⟩⟩, .inl (by decide +kernel)⟩

/-- A header and a request in one segment: completions resolve the address and complete the handshake,
and in readiness mode the connection is dropped. -/
theorem backends_differ :
    outcome (greet_all behindProxy .completion (accepted (bytes "10.0.0.1") [])
      [bytes "PROXY TCP4 1.2.3.4 5.6.7.8 1234 80\r\n" ++ head_bytes greeting]) =
        some (bytes "1.2.3.4", [],
          [response behindProxy.toHandshakeConfig (parse_headers greeting.tail) (bytes "abc")]) ∧
    greet_all behindProxy .readiness (accepted (bytes "10.0.0.1") [])
      [bytes "PROXY TCP4 1.2.3.4 5.6.7.8 1234 80\r\n" ++ head_bytes greeting] = none ∧
    ¬ ∀ (header request_line : Bytes) (header_lines segments : List Bytes), net.ValidHeader header →
      ValidRequest request_line header_lines →
      segments.flatten = header ++ head_bytes (request_line :: header_lines) →
      outcome (greet_all behindProxy .completion (accepted (bytes "10.0.0.1") []) segments) =
        outcome (greet_all behindProxy .readiness (accepted (bytes "10.0.0.1") []) segments) := by
  have completed : outcome (greet_all behindProxy .completion (accepted (bytes "10.0.0.1") [])
      [bytes "PROXY TCP4 1.2.3.4 5.6.7.8 1234 80\r\n" ++ head_bytes greeting]) =
        some (bytes "1.2.3.4", [],
          [response behindProxy.toHandshakeConfig (parse_headers greeting.tail) (bytes "abc")]) := by
    decide +kernel
  have dropped : greet_all behindProxy .readiness (accepted (bytes "10.0.0.1") [])
      [bytes "PROXY TCP4 1.2.3.4 5.6.7.8 1234 80\r\n" ++ head_bytes greeting] = none := by
    decide +kernel
  refine ⟨completed, dropped, fun agree => ?_⟩
  have same := agree (bytes "PROXY TCP4 1.2.3.4 5.6.7.8 1234 80\r\n") _ _
    [bytes "PROXY TCP4 1.2.3.4 5.6.7.8 1234 80\r\n" ++ head_bytes greeting]
    ⟨by decide +kernel, by decide +kernel⟩ greeting_valid (by decide +kernel)
  rw [completed, dropped] at same
  cases same

end Proof

end AoSdl.WebSocketServer
