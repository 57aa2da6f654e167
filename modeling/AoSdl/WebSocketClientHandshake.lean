import AoSdl.WebSocketClient

/-! What the client's handshake leaves of the bytes behind the response. The lines of a read are
all cut off it before the empty one is looked for. -/
namespace AoSdl.WebSocket

open Lib.Framing WebSocketServer

/-- A response the client has no objection to. -/
structure ValidResponse (cfg : HandshakeConfig) (sec_ws_key : Bytes) (status_line : Bytes)
    (header_lines : List Bytes) : Prop where
  clean : ∀ line ∈ status_line :: header_lines, line ≠ [] ∧ ¬ [13, 10] <:+: line
  switching : ∃ line, ws.parse_status_line status_line = some line ∧ line.status_code = 101
  upgrade : ws.case_insensitive_equal
    (HTTPHeaders.get (header_lines.map ws.parse_http_header) (bytes "Upgrade")) (bytes "websocket")
  connection : ws.case_insensitive_equal
    (HTTPHeaders.get (header_lines.map ws.parse_http_header) (bytes "Connection")) (bytes "Upgrade")
  accepted : HTTPHeaders.get (header_lines.map ws.parse_http_header) (bytes "Sec-WebSocket-Accept") =
    compute_accept_key cfg (cfg.base64_encode sec_ws_key)
  present : compute_accept_key cfg (cfg.base64_encode sec_ws_key) ≠ []
  extensions :
    HTTPHeaders.get (header_lines.map ws.parse_http_header) (bytes "Sec-WebSocket-Extensions") = []
  protocol :
    HTTPHeaders.get (header_lines.map ws.parse_http_header) (bytes "Sec-WebSocket-Protocol") = []

/-- The read that brings the end of the head brings no line end behind it. -/
def QuietBehind (lines : List Bytes) (reads : List Bytes) : Prop :=
  ∃ before completing after behind, reads = before ++ completing :: after ∧
    before.flatten.length < (head_bytes lines).length ∧
    before.flatten ++ completing = head_bytes lines ++ behind ∧ ¬ [13, 10] <:+: behind

section Proof

variable {cfg : HandshakeConfig} {sec_ws_key status_line : Bytes} {header_lines : List Bytes}

/-- The empty line is a field without a name and a value. -/
theorem get_empty_line (headers : HTTPHeaders) (name : Bytes) :
    HTTPHeaders.get (headers ++ [ws.parse_http_header []]) name = HTTPHeaders.get headers name := by
  unfold HTTPHeaders.get HTTPHeaders.find
  rw [List.find?_append]
  cases List.find? (fun kv => ws.case_insensitive_equal kv.1 name) headers with
  | some field => rfl
  | none =>
    rw [Option.none_or, List.find?_singleton]
    split <;> rfl

theorem ValidResponse.validated (valid : ValidResponse cfg sec_ws_key status_line header_lines) :
    ∃ response, parse_response (status_line :: header_lines ++ [[]]) = some response ∧
      validate_handshake cfg sec_ws_key response := by
  obtain ⟨line, parsed, code⟩ := valid.switching
  refine ⟨{ status_line := line, headers := (header_lines ++ [[]]).map ws.parse_http_header }, ?_, ?_⟩
  · rw [parse_response, List.cons_append, List.headD_cons, parsed]
    rfl
  · simp [validate_handshake, HTTPResponse.get_header, get_empty_line, code, valid.upgrade,
      valid.connection, valid.accepted, valid.present, valid.extensions, valid.protocol]

theorem read_response_done {b : Bytes} (done : [] ∈ (ws.lineCutter.drain b).1) (reads : List Bytes) :
    read_response (ws.lineCutter.drain b).1 (ws.lineCutter.drain b).2 reads =
      some ((ws.lineCutter.drain b).1, (ws.lineCutter.drain b).2, reads) := by
  cases reads <;> rw [read_response, if_pos done]

/-- Reads that do not bring the empty line are put together. -/
theorem read_response_through {b : Bytes} {before : List Bytes}
    (waits : [] ∉ (ws.lineCutter.drain (b ++ before.flatten)).1) (reads : List Bytes) :
    read_response (ws.lineCutter.drain b).1 (ws.lineCutter.drain b).2 (before ++ reads) =
      read_response (ws.lineCutter.drain (b ++ before.flatten)).1
        (ws.lineCutter.drain (b ++ before.flatten)).2 reads := by
  induction before generalizing b with
  | nil => simp
  | cons chunk before ih =>
    have step : [] ∉ (ws.lineCutter.drain b).1 := by
      rw [Cutter.drain_append] at waits
      exact fun inside => waits (List.mem_append_left _ inside)
    rw [List.flatten_cons, ← List.append_assoc] at waits ⊢
    rw [List.cons_append, read_response, if_neg step, ← ih waits, Cutter.drain_append b chunk]
    rfl

theorem head_waits {hs : List Bytes} (clean : ∀ line ∈ hs, line ≠ [] ∧ ¬ [13, 10] <:+: line)
    {b rest : Bytes} (starts : head_bytes hs = b ++ rest) (short : rest ≠ []) :
    [] ∉ (ws.lineCutter.drain b).1 := by
  rcases buffer_lines clean (starts.symm.trans (List.append_nil _).symm) with
    ⟨more, _, nothing⟩ | ⟨waits, _⟩
  · exact absurd (List.append_eq_nil_iff.mp (List.append_eq_nil_iff.mp nothing.symm).2).2 short
  · exact waits

/-- The lines behind the head are taken for header fields. -/
theorem read_response_eq (clean : ∀ line ∈ status_line :: header_lines, line ≠ [] ∧ ¬ [13, 10] <:+: line)
    {before after : List Bytes} {completing behind : Bytes}
    (short : before.flatten.length < (head_bytes (status_line :: header_lines)).length)
    (whole : before.flatten ++ completing = head_bytes (status_line :: header_lines) ++ behind) :
    read_response [] [] (before ++ completing :: after) =
      some (status_line :: header_lines ++ [] :: (ws.lineCutter.drain behind).1,
        (ws.lineCutter.drain behind).2, after) := by
  obtain ⟨rest, starts, tail⟩ : ∃ rest, head_bytes (status_line :: header_lines) =
      before.flatten ++ rest ∧ completing = rest ++ behind := by
    rcases List.append_eq_append_iff.mp whole with ⟨rest, starts, tail⟩ | ⟨rest, longer, _⟩
    · exact ⟨rest, starts, tail⟩
    · rw [longer, List.length_append] at short
      omega
  have waits := head_waits clean starts (by rintro rfl; rw [starts, List.append_nil] at short; omega)
  have drained := drain_head clean whole
  have step : read_response (ws.lineCutter.drain before.flatten).1 (ws.lineCutter.drain before.flatten).2
      (completing :: after) = read_response (ws.lineCutter.drain (before.flatten ++ completing)).1
        (ws.lineCutter.drain (before.flatten ++ completing)).2 after := by
    rw [read_response, if_neg waits, Cutter.drain_append before.flatten completing]
    rfl
  refine (read_response_through (b := []) waits (completing :: after)).trans (step.trans ?_)
  rw [read_response_done (by rw [drained]; simp), drained]

theorem handed_out {reads lines later : List Bytes} {extra_data out : Bytes}
    (read : read_response [] [] reads = some (lines, extra_data, later))
    (ends : handed cfg sec_ws_key reads = some out) : out = extra_data ++ later.flatten := by
  unfold handed at ends
  rw [read] at ends
  dsimp only at ends
  split at ends
  · cases ends
  · split at ends
    · exact (Option.some.inj ends).symm
    · cases ends

/-- The frame reader gets the bytes behind the head exactly if the read that brings the end of the
head brings no line end behind it. -/
theorem handed_iff (valid : ValidResponse cfg sec_ws_key status_line header_lines)
    {reads : List Bytes} {trailing : Bytes}
    (cuts : reads.flatten = head_bytes (status_line :: header_lines) ++ trailing) :
    handed cfg sec_ws_key reads = some trailing ↔ QuietBehind (status_line :: header_lines) reads := by
  constructor
  · intro ends
    have positive : 0 < (head_bytes (status_line :: header_lines)).length := by
      simp [head_bytes]
    obtain ⟨before, completing, after, shape, short, enough⟩ :=
      exists_piece positive (by rw [cuts, List.length_append]; omega)
    obtain ⟨behind, whole, rest⟩ : ∃ behind, before.flatten ++ completing =
        head_bytes (status_line :: header_lines) ++ behind ∧ trailing = behind ++ after.flatten := by
      rw [shape, List.flatten_append, List.flatten_cons, ← List.append_assoc] at cuts
      rcases List.append_eq_append_iff.mp cuts with ⟨missing, longer, _⟩ | ⟨behind, whole, rest⟩
      · rw [longer, List.length_append] at enough
        obtain rfl := List.length_eq_zero_iff.mp (by omega : missing.length = 0)
        exact ⟨[], by rw [longer, List.append_nil, List.append_nil], by simp_all⟩
      · exact ⟨behind, whole, rest⟩
    refine ⟨before, completing, after, behind, shape, short, whole, ?_⟩
    have out := handed_out (shape ▸ read_response_eq valid.clean short whole) ends
    have kept : (ws.lineCutter.drain behind).2 = behind :=
      List.append_cancel_right (out.symm.trans rest)
    have last : ws.lineCutter.cut (ws.lineCutter.drain behind).2 = none := Cutter.cut_drain behind
    rw [kept] at last
    exact cutAt_none.mp last
  · rintro ⟨before, completing, after, behind, shape, short, whole, quiet⟩
    obtain ⟨response, parsed, validated⟩ := valid.validated
    have rest : trailing = behind ++ after.flatten := by
      rw [shape, List.flatten_append, List.flatten_cons, ← List.append_assoc, whole,
        List.append_assoc] at cuts
      exact (List.append_cancel_left cuts).symm
    have kept : ws.lineCutter.drain behind = ([], behind) := Cutter.drain_none (cutAt_none.mpr quiet)
    unfold handed
    rw [shape, read_response_eq valid.clean short whole, kept]
    dsimp only
    rw [parsed]
    dsimp only
    rw [if_pos validated, rest]

/-- A response to the key of the protocol's own example. -/
def switching_protocols : List Bytes :=
  [bytes "HTTP/1.1 101 Switching Protocols", bytes "Upgrade: websocket", bytes "Connection: Upgrade",
    bytes "Sec-WebSocket-Accept: s3pPLMBiTxaQ9kYGzzhZRbK+xOo="]

/-- The digest and the two encodings of that example. -/
def sampleConfig : HandshakeConfig where
  sha1_raw _ := [179, 122, 79, 44, 192, 98, 79, 22, 144, 246, 70, 6, 207, 56, 89, 69, 178, 190, 196, 234]
  base64_encode raw :=
    if raw = bytes "the sample nonce" then bytes "dGhlIHNhbXBsZSBub25jZQ=="
    else bytes "s3pPLMBiTxaQ9kYGzzhZRbK+xOo="

set_option maxRecDepth 20000 in
theorem switching_protocols_valid : ValidResponse sampleConfig (bytes "the sample nonce")
    (switching_protocols.headD []) switching_protocols.tail where
  clean := by decide
  switching := ⟨_, rfl, by decide⟩
  upgrade := by decide
  connection := by decide
  accepted := by decide
  present := by decide
  extensions := by decide
  protocol := by decide

/-- The response may be cut inside its first line, with a frame behind it. -/
theorem handed_behind_cut : handed sampleConfig (bytes "the sample nonce")
    [(head_bytes switching_protocols).take 5, (head_bytes switching_protocols).drop 5 ++ [0x81, 1],
      [97]] = some [0x81, 1, 97] :=
  (handed_iff switching_protocols_valid (by decide +kernel)).mpr
    ⟨[(head_bytes switching_protocols).take 5], (head_bytes switching_protocols).drop 5 ++ [0x81, 1],
      [[97]], [0x81, 1], rfl, by decide +kernel, by decide +kernel, by decide⟩

/-- A first message with a line end that comes in the segment of the response loses its start. -/
theorem first_message_cut :
    handed sampleConfig (bytes "the sample nonce")
      [head_bytes switching_protocols ++ ([0x81, 4] ++ bytes "a\r\nb")] = some (bytes "b") ∧
    ¬ ∀ (status_line : Bytes) (header_lines : List Bytes),
      ValidResponse sampleConfig (bytes "the sample nonce") status_line header_lines →
      ∀ (reads : List Bytes) (trailing : Bytes),
        reads.flatten = head_bytes (status_line :: header_lines) ++ trailing →
        handed sampleConfig (bytes "the sample nonce") reads = some trailing := by
  have cut : handed sampleConfig (bytes "the sample nonce")
      [head_bytes switching_protocols ++ ([0x81, 4] ++ bytes "a\r\nb")] = some (bytes "b") := by
    decide +kernel
  refine ⟨cut, fun keeps => ?_⟩
  have whole := keeps _ _ switching_protocols_valid
    [head_bytes switching_protocols ++ ([0x81, 4] ++ bytes "a\r\nb")] ([0x81, 4] ++ bytes "a\r\nb")
    (List.append_nil _)
  rw [cut] at whole
  revert whole
  decide

end Proof

end AoSdl.WebSocket
