import AoSdl.HttpConnections
import AoSdl.HttpRoundTrip

/-! The reads that bring a well-formed request: the connection waits until the last byte is
there, and the read that brings it hands the request over as it was written. -/
namespace AoSdl.http
open scoped List

/-- What the connection knows of a request of which its buffer holds a part. -/
structure Underway (r : WireRequest) (conn : HttpConnection) : Prop where
  undispatched : conn.dispatched = false
  unsent : conn.pending_send = none
  known : conn.headers_complete = true → r.head.length + 4 ≤ conn.recv_buf.length ∧
    conn.header_end_pos = r.head.length ∧ conn.content_length = r.body.length
  unknown : conn.headers_complete = false → conn.content_length = 0

/-- A connection that waits for the answer to a request. -/
structure Dispatched (r : WireRequest) (conn : HttpConnection) : Prop where
  buffered : conn.recv_buf = r.encode
  parsed : conn.proxy_protocol_parsed = true
  read : conn.headers_complete = true
  dispatched : conn.dispatched = true

theorem Fresh.underway {conn : HttpConnection} (fresh : Fresh conn) (r : WireRequest) :
    Underway r conn where
  undispatched := fresh.undispatched
  unsent := fresh.unsent
  known read := absurd (fresh.unread.symm.trans read) (by decide)
  unknown _ := fresh.no_length

section Receive

variable {H : Type} (cfg : ServerConfig H) {r : WireRequest} {conn : HttpConnection} {chunk : Bytes}
  {closed : Bool}

theorem encode_start : ∃ c rest, r.encode = c :: rest ∧ c ≠ 13 := by
  obtain ⟨rest, shape⟩ := WireRequest.head_eq (r := r)
  have line : r.line ≠ [] := by simp [WireRequest.line, request_line]
  obtain ⟨c, l, starts⟩ := List.exists_cons_of_ne_nil line
  refine ⟨c, l ++ 13 :: 10 :: rest ++ r.body, by rw [WireRequest.encode, shape, starts]; simp, ?_⟩
  rintro rfl
  exact WireRequest.line_clean.1 (starts ▸ List.mem_cons_self)

theorem encode_long : 6 ≤ r.encode.length := by
  simp only [WireRequest.encode_length, WireRequest.head, header_section, WireRequest.line,
    request_line, List.length_append, List.length_cons]
  omega

/-- A request is no header of the PROXY protocol; its first bytes may look like one. -/
theorem parse_proxy_part {p : Bytes} (direct : r.method ≠ bytes "PROXY") (some_byte : p ≠ [])
    (part : p <+: r.encode) : net.parse_proxy_protocol p = {} ∨
      net.parse_proxy_protocol p = { need_more_data := true } ∧ p.length < 6 := by
  obtain ⟨c, rest, starts, other⟩ := encode_start (r := r)
  have first : ∃ t, p = c :: t := by
    obtain ⟨d, t, rfl⟩ := List.exists_cons_of_ne_nil some_byte
    rw [starts] at part
    exact ⟨t, by rw [(List.cons_prefix_cons.mp part).1]⟩
  have no_v1 : ¬ bytes "PROXY " <+: p := by
    intro here
    have method : 32 ∉ r.method := fun member => (r.method_token 32 member).1 rfl
    have line : bytes "PROXY" ++ [32] <+: r.method ++ 32 :: (r.target.text ++ 32 :: r.version ++
        Lib.Search.behind 13 10 (r.fields.map Field.line) ++ (CRLF ++ CRLF) ++ r.body) := by
      have shape : r.encode = r.method ++ 32 :: (r.target.text ++ 32 :: r.version ++
          Lib.Search.behind 13 10 (r.fields.map Field.line) ++ (CRLF ++ CRLF) ++ r.body) := by
        simp [WireRequest.encode, WireRequest.head, header_section, WireRequest.line, request_line]
      exact shape ▸ here.trans part
    exact direct (Lib.Fields.eq_of_prefix (by decide) method line).symm
  obtain ⟨t, rfl⟩ := first
  cases net.stage (c :: t) with
  | v1 starts => exact absurd starts no_v1
  | v2 starts => exact absurd (List.cons_prefix_cons.mp starts).1.symm other
  | unfinished front parsed =>
    rcases front with ⟨-, short⟩ | ⟨starts, -⟩
    · exact .inr ⟨parsed, short⟩
    · exact absurd (List.cons_prefix_cons.mp starts).1 other
  | none _ _ parsed => exact .inl parsed

theorem unwrap_part (conn : HttpConnection) (direct : cfg.proxy_protocol = true → r.method ≠ bytes "PROXY")
    (part : conn.recv_buf <+: r.encode) :
    unwrap_proxy cfg conn = some { conn with proxy_protocol_parsed := true } ∨
      unwrap_proxy cfg conn = none ∧ conn.recv_buf.length < 6 := by
  rw [unwrap_proxy]
  split
  · next spoken =>
    simp only [Bool.and_eq_true, Bool.not_eq_true', List.isEmpty_eq_false_iff] at spoken
    rcases parse_proxy_part (direct spoken.1.1.1) spoken.2 part with whole | ⟨more, short⟩
    · simp [whole]
    · simp [more, short]
  · exact .inl rfl

theorem check_sizes_part (part : conn.recv_buf <+: r.encode) : check_sizes conn = none := by
  have fits := r.section_fits
  have short : ¬ (MAX_HEADER_SECTION_LENGTH < conn.recv_buf.length ∧ find_header_end conn.recv_buf = none) := by
    rintro ⟨long, unfinished⟩
    rw [WireRequest.find_header_end_part part] at unfinished
    split at unfinished
    · exact absurd unfinished (by simp)
    · next early =>
      simp only [WireRequest.head, WireRequest.line] at early
      omega
  rcases WireRequest.cut_line part with ⟨rest, cut⟩ | ⟨none, bound⟩
  · simp [check_sizes, cut, WireRequest.uri_in_bounds, short]
  · have narrow : ¬ MAX_URI_LENGTH + 100 < conn.recv_buf.length := by omega
    simp [check_sizes, none, narrow, short]

/-- Once the empty line has arrived, the connection knows where it is and how long the body is. -/
theorem read_headers_part (underway : Underway r conn) (part : conn.recv_buf <+: r.encode) :
    ∃ conn', read_headers conn = .ok conn' ∧ Underway r conn' ∧ conn'.recv_buf = conn.recv_buf ∧
      conn'.proxy_protocol_parsed = conn.proxy_protocol_parsed ∧
      conn'.headers_complete = decide (r.head.length + 4 ≤ conn.recv_buf.length) := by
  rw [read_headers]
  cases read : conn.headers_complete with
  | true => exact ⟨conn, rfl, underway, rfl, rfl, by simpa [read] using (underway.known read).1⟩
  | false =>
    rw [if_neg (by decide), WireRequest.find_header_end_part part]
    by_cases whole_head : r.head.length + 4 ≤ conn.recv_buf.length
    · have section_eq : conn.recv_buf.take r.head.length = r.head := by
        rw [WireRequest.part_eq part whole_head, List.append_assoc, List.take_left]
      have length : (extract_content_length_raw r.head).getD 0 = r.body.length :=
        WireRequest.content_length_eq
      have fits : ¬ MAX_BODY_LENGTH < r.body.length := Nat.not_lt.mpr r.body_fits
      refine ⟨{ conn with
        headers_complete := true, header_end_pos := r.head.length, content_length := r.body.length }, ?_, ?_⟩
      · simp only [if_pos whole_head, section_eq, WireRequest.validate_raw_request_part part,
          WireRequest.no_transfer_encoding, underway.unknown read, length, fits]
        rfl
      · exact ⟨⟨underway.undispatched, underway.unsent, fun _ => ⟨whole_head, rfl, rfl⟩,
          fun unread => absurd unread (by simp)⟩, rfl, rfl, by simpa using whole_head⟩
    · rw [if_neg whole_head]
      exact ⟨conn, rfl, underway, rfl, rfl, by simpa [read] using Nat.not_le.mp whole_head⟩

theorem receive_eq {conn₁ conn₂ : HttpConnection}
    (some_byte : (closed && (conn.recv_buf ++ chunk).isEmpty) = false)
    (resolved : unwrap_proxy cfg { conn with recv_buf := conn.recv_buf ++ chunk } = some conn₁)
    (in_bounds : check_sizes conn₁ = none) (read : read_headers conn₁ = .ok conn₂) :
    receive cfg conn chunk closed =
      if conn₂.headers_complete && !conn₂.dispatched then read_body conn₂ closed else .waits conn₂ := by
  simp only [receive, some_byte, resolved, in_bounds, read, Bool.false_eq_true, if_false]

theorem Underway.grow (underway : Underway r conn) (chunk : Bytes) (parsed : Bool) : Underway r { conn with
    recv_buf := conn.recv_buf ++ chunk, proxy_protocol_parsed := parsed } where
  undispatched := underway.undispatched
  unsent := underway.unsent
  known read := by
    obtain ⟨whole_head, known⟩ := underway.known read
    exact ⟨whole_head.trans (List.prefix_append _ _).length_le, known⟩
  unknown := underway.unknown

theorem receive_part (direct : cfg.proxy_protocol = true → r.method ≠ bytes "PROXY")
    (underway : Underway r conn) (part : conn.recv_buf ++ chunk <+: r.encode)
    (short : (conn.recv_buf ++ chunk).length < r.encode.length) :
    ∃ conn', receive cfg conn chunk false = .waits conn' ∧ Underway r conn' ∧
      conn'.recv_buf = conn.recv_buf ++ chunk := by
  rcases unwrap_part cfg { conn with recv_buf := conn.recv_buf ++ chunk } direct part with
    resolved | ⟨wait, _⟩
  · obtain ⟨conn', read, underway', buffer, _, _⟩ := read_headers_part (underway.grow chunk true) part
    replace buffer : conn'.recv_buf = conn.recv_buf ++ chunk := buffer
    refine ⟨conn', ?_, underway', buffer⟩
    rw [receive_eq cfg rfl resolved (check_sizes_part part) read]
    split
    · next ready =>
      have complete : conn'.headers_complete = true := (Bool.and_eq_true_iff.mp ready).1
      obtain ⟨whole_head, position, length⟩ := underway'.known complete
      rw [← buffer, WireRequest.encode_length] at short
      have missing : conn'.recv_buf.length - (conn'.header_end_pos + 4) < conn'.content_length := by
        rw [position, length]
        omega
      rw [read_body, if_pos missing]
      rfl
    · rfl
  · refine ⟨{ conn with recv_buf := conn.recv_buf ++ chunk }, ?_, underway.grow chunk _, rfl⟩
    simp only [receive, wait, Bool.false_and, Bool.false_eq_true, if_false]

theorem read_body_whole (plain : r.target.Plain) (buffer : conn.recv_buf = r.encode)
    (position : conn.header_end_pos = r.head.length) (length : conn.content_length = r.body.length) :
    read_body conn closed = .reads { conn with dispatched := true } r.request := by
  have head : conn.recv_buf.take (conn.header_end_pos + 4) = r.head ++ (CRLF ++ CRLF) := by
    rw [buffer, position]
    exact List.take_left' (by simp [CRLF])
  have body : (conn.recv_buf.drop (conn.header_end_pos + 4)).take conn.content_length = r.body := by
    rw [buffer, position, length, WireRequest.encode, List.drop_left' (by simp [CRLF]), List.take_length]
  have enough : ¬ conn.recv_buf.length - (conn.header_end_pos + 4) < conn.content_length := by
    have size := r.encode_length
    rw [buffer, position, length]
    omega
  rw [read_body, if_neg enough, head, body, WireRequest.parse_encode plain]
  simp only [WireRequest.validate_request]
  rfl

theorem receive_whole (closed : Bool) (direct : cfg.proxy_protocol = true → r.method ≠ bytes "PROXY")
    (plain : r.target.Plain) (underway : Underway r conn)
    (whole : conn.recv_buf ++ chunk = r.encode) :
    ∃ conn', receive cfg conn chunk closed = .reads conn' r.request ∧ Dispatched r conn' ∧
      conn'.pending_send = none := by
  have part : conn.recv_buf ++ chunk <+: r.encode := whole ▸ List.prefix_rfl
  have size := r.encode_length
  have long := encode_long (r := r)
  rcases unwrap_part cfg { conn with recv_buf := conn.recv_buf ++ chunk } direct part with
    resolved | ⟨_, early⟩
  · obtain ⟨conn', read, underway', buffer, parsed, seen⟩ := read_headers_part (underway.grow chunk true) part
    replace buffer : conn'.recv_buf = r.encode := buffer.trans whole
    have complete : conn'.headers_complete = true := by
      rw [seen, decide_eq_true_iff]
      simp only [whole]
      omega
    obtain ⟨_, position, length⟩ := underway'.known complete
    have some_byte : (closed && (conn.recv_buf ++ chunk).isEmpty) = false := by
      obtain ⟨c, rest, starts, _⟩ := encode_start (r := r)
      simp [whole, starts]
    refine ⟨{ conn' with dispatched := true }, ?_, ⟨buffer, parsed, complete, rfl⟩, underway'.unsent⟩
    have ready : (conn'.headers_complete && !conn'.dispatched) = true := by
      rw [complete, underway'.undispatched]
      rfl
    rw [receive_eq cfg some_byte resolved (check_sizes_part part) read, if_pos ready,
      read_body_whole plain buffer position length]
  · simp only [whole] at early
    omega

theorem receive_dispatched (dispatched : Dispatched r conn) :
    receive cfg conn [] closed = .waits conn := by
  have part : conn.recv_buf <+: r.encode := dispatched.buffered ▸ List.prefix_rfl
  have some_byte : conn.recv_buf.isEmpty = false := by
    obtain ⟨c, rest, starts, _⟩ := encode_start (r := r)
    rw [dispatched.buffered, starts]
    rfl
  have resolved : unwrap_proxy cfg conn = some conn := by
    have same : { conn with proxy_protocol_parsed := true } = conn := by rw [← dispatched.parsed]
    rw [unwrap_proxy, if_neg (by simp [dispatched.parsed]), same]
  simp only [receive, List.append_nil, some_byte, Bool.and_false, Bool.false_eq_true, if_false]
  rw [resolved]
  simp [check_sizes_part part, read_headers, dispatched.read, dispatched.dispatched]

/-- A connection without bytes stays so, or ends with its peer. -/
theorem receive_nothing (fresh : Fresh conn) : receive cfg conn [] closed =
    if closed then .leaves else .waits { conn with proxy_protocol_parsed := true } := by
  have nothing : find_header_end [] = none := by decide
  simp only [receive, List.append_nil, fresh.empty, List.isEmpty_nil, Bool.and_true]
  split
  · rfl
  · simp [unwrap_proxy, check_sizes, Lib.Framing.cutAt, read_headers, fresh.unread, nothing]

end Receive

end AoSdl.http
