import AoSdl.HttpConnections
import AoSdl.HttpFramingViews

/-! How many bytes of body the server takes for a request. The length is read off the raw head once,
in a 64 bit word, and the bytes are counted against it as they arrive. -/
namespace AoSdl.http

/-- The bytes of a request before the empty line. -/
structure RequestHead where
  text : Bytes
  ends : find_header_end (text ++ (CRLF ++ CRLF)) = some text.length

/-- The header lines, without the request line. -/
def field_lines (head : Bytes) : List Bytes := (Lib.Framing.cutAt 13 10 head).elim [] fun p => lines p.2

/-- The values of the fields `Content-Length`. -/
def content_lengths (head : Bytes) : List Bytes :=
  ((field_lines head).filter (named (bytes "content-length:"))).map fun l =>
    trim (l.drop (bytes "content-length:").length)

/-- The number the server goes by: the leading digits in the first line, of those cut at LF, that
begins with the name, in 64 bits. -/
def scanned_length (head : Bytes) : Nat :=
  ((scanned_lines head).find? (named (bytes "content-length:"))).elim 0 fun l =>
    Lib.Decimal.value (leading (l.drop (bytes "content-length:").length)) % 2 ^ 64

/-- The server's checks of a head. -/
structure Passes (head : Bytes) : Prop where
  raw : validate_raw_request (head ++ (CRLF ++ CRLF)) = 0
  plain : has_transfer_encoding_raw head = false
  small : scanned_length head ≤ MAX_BODY_LENGTH
  parsed : validate_parsed_request (parse_http_request (head ++ (CRLF ++ CRLF)) []) = 0

section Reads

variable {H : Type} (cfg : ServerConfig H)

/-- The reads of a connection, up to the first that does not leave it waiting. -/
def receive_all (conn : HttpConnection) : List (Bytes × Bool) → Reading
  | [] => .waits conn
  | (chunk, closed) :: reads =>
    match receive cfg conn chunk closed with
    | .waits conn => receive_all conn reads
    | reading => reading

end Reads

/-- Whatever way a request with this head arrives on a connection: if it is handed over, each of its
fields `Content-Length` is the number of bytes of its body. -/
def BodyExact (head : RequestHead) : Prop :=
  ∀ (H : Type) (cfg : ServerConfig H) (conn conn' : HttpConnection) (reads : List (Bytes × Bool))
    (req : Request), Fresh conn → receive_all cfg conn reads = .reads conn' req →
    find_header_end conn'.recv_buf = some head.text.length →
    conn'.recv_buf.take head.text.length = head.text →
    ∀ v ∈ content_lengths head.text, numeral v = some req.body.length

theorem extract_scanned (head : Bytes) : (extract_content_length_raw head).getD 0 = scanned_length head := by
  rw [extract_lines, scanned_length]
  cases (scanned_lines head).find? (named (bytes "content-length:")) <;> rfl

section Head

variable {raw : Bytes} {header_end : Nat}

theorem head_split (found : find_header_end raw = some header_end) :
    ∃ body, raw = raw.take header_end ++ (CRLF ++ CRLF) ++ body ∧
      raw.take (header_end + 4) = raw.take header_end ++ (CRLF ++ CRLF) := by
  obtain ⟨p, r, shape, size⟩ := Lib.Search.find_split found
  have front : raw.take header_end = p := by rw [shape, ← size, List.take_left]
  have length : header_end + 4 = (p ++ (CRLF ++ CRLF)).length := by simp [CRLF, size]
  refine ⟨r, by rw [front, List.append_assoc, ← shape], ?_⟩
  have parts : raw = p ++ (CRLF ++ CRLF) ++ r := by rw [List.append_assoc, ← shape]
  rw [front, length, parts, List.take_left]

theorem validate_raw_head (found : find_header_end raw = some header_end) :
    validate_raw_request raw = validate_raw_request (raw.take header_end ++ (CRLF ++ CRLF)) := by
  obtain ⟨body, shape, front⟩ := head_split found
  have found' := find_header_end_take found
  rw [front] at found'
  have low : header_end ≤ raw.length := by
    have size := congrArg List.length shape
    simp only [List.length_append, List.length_take, CRLF, List.length_cons, List.length_nil] at size
    omega
  have same : (raw.take header_end ++ (CRLF ++ CRLF)).take header_end = raw.take header_end :=
    List.take_left' (by rw [List.length_take, Nat.min_eq_left low])
  cases cut : Lib.Framing.cutAt 13 10 (raw.take header_end ++ (CRLF ++ CRLF)) with
  | none =>
    refine absurd ?_ (Lib.Framing.cutAt_none.mp cut)
    exact ⟨raw.take header_end, CRLF, by simp [CRLF]⟩
  | some parts =>
    obtain ⟨req_line, rest⟩ := parts
    have cut' : Lib.Framing.cutAt 13 10 raw = some (req_line, rest ++ body) := by
      have stable := (Lib.Framing.delimited 13 10 cr_ne_lf).stable body cut
      exact shape ▸ stable
    unfold validate_raw_request
    simp only [found, found', cut, cut', same]

theorem validate_parsed_body (raw_headers body : Bytes) :
    validate_parsed_request (parse_http_request raw_headers body) =
      validate_parsed_request (parse_http_request raw_headers []) := rfl

end Head

section Receive

variable {H : Type} {cfg : ServerConfig H} {conn conn' : HttpConnection}

/-- What a connection keeps of a request whose body is still to come. -/
structure Known (conn : HttpConnection) (header_end : Nat) : Prop where
  unwrapped : conn.proxy_protocol_parsed = true
  found : find_header_end conn.recv_buf = some header_end
  position : conn.header_end_pos = header_end
  length : conn.content_length = scanned_length (conn.recv_buf.take header_end)
  raw : validate_raw_request (conn.recv_buf.take header_end ++ (CRLF ++ CRLF)) = 0
  plain : has_transfer_encoding_raw (conn.recv_buf.take header_end) = false
  small : scanned_length (conn.recv_buf.take header_end) ≤ MAX_BODY_LENGTH

/-- A connection between its first byte and the dispatch of a request. -/
structure Accumulating (conn : HttpConnection) : Prop where
  undispatched : conn.dispatched = false
  unknown : conn.headers_complete = false → conn.content_length = 0
  known : conn.headers_complete = true → ∃ header_end, Known conn header_end

theorem Fresh.accumulating (fresh : Fresh conn) : Accumulating conn where
  undispatched := fresh.undispatched
  unknown _ := fresh.no_length
  known complete := absurd (fresh.unread.symm.trans complete) (by decide)

theorem Known.grow {header_end : Nat} (known : Known conn header_end) (chunk : Bytes) :
    Known { conn with recv_buf := conn.recv_buf ++ chunk } header_end := by
  have front : (conn.recv_buf ++ chunk).take header_end = conn.recv_buf.take header_end := by
    obtain ⟨body, shape, _⟩ := head_split known.found
    have size := congrArg List.length shape
    simp only [List.length_append, List.length_take, CRLF, List.length_cons, List.length_nil] at size
    exact List.take_append_of_le_length (by omega)
  obtain ⟨unwrapped, found, position, length, raw, plain, small⟩ := known
  rw [← front] at length raw plain small
  exact ⟨unwrapped, Lib.Search.find_stable found chunk, position, length, raw, plain, small⟩

theorem Accumulating.grow (waiting : Accumulating conn) (chunk : Bytes) :
    Accumulating { conn with recv_buf := conn.recv_buf ++ chunk } where
  undispatched := waiting.undispatched
  unknown := waiting.unknown
  known complete := (waiting.known complete).imp fun _ known => known.grow chunk

theorem unwrap_accumulating (waiting : Accumulating conn) (resolved : unwrap_proxy cfg conn = some conn') :
    Accumulating conn' ∧ conn'.proxy_protocol_parsed = true := by
  unfold unwrap_proxy at resolved
  split at resolved
  · next spoken =>
    simp only [Bool.and_eq_true, Bool.not_eq_true'] at spoken
    have unread : conn.headers_complete = false := by
      by_contra complete
      obtain ⟨_, known⟩ := waiting.known (by simpa using complete)
      exact absurd (spoken.1.1.2.symm.trans known.unwrapped) (by decide)
    dsimp only at resolved
    split at resolved
    · cases resolved
    · cases resolved
      exact ⟨⟨waiting.undispatched, waiting.unknown, fun complete =>
        absurd (unread.symm.trans complete) (by decide)⟩, rfl⟩
  · cases resolved
    refine ⟨⟨waiting.undispatched, waiting.unknown, fun complete => ?_⟩, rfl⟩
    obtain ⟨header_end, known⟩ := waiting.known complete
    exact ⟨header_end, rfl, known.found, known.position, known.length, known.raw, known.plain, known.small⟩

/-- The head is looked at when it is complete, and once. -/
theorem read_headers_accumulating (waiting : Accumulating conn) (unwrapped : conn.proxy_protocol_parsed = true)
    (read : read_headers conn = .ok conn') : Accumulating conn' := by
  unfold read_headers at read
  split at read
  · cases read
    exact waiting
  · next unread =>
    split at read
    · cases read
      exact waiting
    · next header_end found =>
      have none_yet : conn.content_length = 0 := waiting.unknown (by simpa using unread)
      simp only [none_yet, extract_scanned] at read
      split at read
      · cases read
      · next raw =>
        split at read
        · cases read
        · next plain =>
          split at read
          · cases read
          · next small =>
            cases read
            refine ⟨waiting.undispatched, nofun, fun _ => ⟨header_end, unwrapped, found, rfl, rfl, ?_, ?_, ?_⟩⟩
            · rw [← validate_raw_head found]
              simpa using raw
            · simpa using plain
            · simpa using small

theorem read_body_reads {closed : Bool} {req : Request} (read : read_body conn closed = .reads conn' req) :
    conn'.recv_buf = conn.recv_buf ∧ req.body.length = conn.content_length ∧
      validate_parsed_request (parse_http_request (conn.recv_buf.take (conn.header_end_pos + 4)) []) = 0 := by
  unfold read_body at read
  dsimp only at read
  split at read
  · split at read <;> cases read
  · next enough =>
    split at read
    · cases read
    · next accepted =>
      cases read
      refine ⟨rfl, ?_, by simpa [validate_parsed_body] using accepted⟩
      have body : ((conn.recv_buf.drop (conn.header_end_pos + 4)).take conn.content_length).length =
          conn.content_length := by
        rw [List.length_take, List.length_drop]
        omega
      exact body

/-- A read leaves the connection accumulating, or hands over a request whose head passes and whose
body has the length that was read off it. -/
theorem receive_accumulating (cfg : ServerConfig H) (waiting : Accumulating conn) (chunk : Bytes)
    (closed : Bool) :
    (∀ conn', receive cfg conn chunk closed = .waits conn' → Accumulating conn') ∧
    ∀ conn' req, receive cfg conn chunk closed = .reads conn' req →
      ∃ header_end, find_header_end conn'.recv_buf = some header_end ∧
        Passes (conn'.recv_buf.take header_end) ∧
        req.body.length = scanned_length (conn'.recv_buf.take header_end) := by
  have grown := waiting.grow chunk
  have headed {unwrapped read_to : HttpConnection}
      (unwraps : unwrap_proxy cfg { conn with recv_buf := conn.recv_buf ++ chunk } = some unwrapped)
      (read : read_headers unwrapped = .ok read_to) : Accumulating read_to := by
    obtain ⟨waiting₁, parsed⟩ := unwrap_accumulating grown unwraps
    exact read_headers_accumulating waiting₁ parsed read
  have course := receive_course cfg conn chunk closed
  generalize receive cfg conn chunk closed = reading at course ⊢
  cases course with
  | ended | too_long | malformed => exact ⟨nofun, nofun⟩
  | unwrapping =>
    refine ⟨fun conn' same => ?_, nofun⟩
    cases same
    exact grown
  | unheaded _ unwraps _ read =>
    refine ⟨fun conn' same => ?_, nofun⟩
    cases same
    exact headed unwraps read
  | headed _ unwraps _ read complete =>
    obtain ⟨header_end, known⟩ := (headed unwraps read).known complete
    constructor
    · intro conn' same
      cases read_body_waits same
      exact headed unwraps read
    · intro conn' req same
      obtain ⟨buffer, body, parsed⟩ := read_body_reads same
      obtain ⟨_, _, front⟩ := head_split known.found
      rw [known.position, front] at parsed
      refine ⟨header_end, buffer ▸ known.found, ?_, ?_⟩
      · rw [buffer]
        exact ⟨known.raw, known.plain, known.small, parsed⟩
      · rw [buffer, body, known.length]

theorem receive_all_reads {req : Request} {reads : List (Bytes × Bool)} (waiting : Accumulating conn)
    (read : receive_all cfg conn reads = .reads conn' req) :
    ∃ header_end, find_header_end conn'.recv_buf = some header_end ∧
      Passes (conn'.recv_buf.take header_end) ∧
      req.body.length = scanned_length (conn'.recv_buf.take header_end) := by
  induction reads generalizing conn with
  | nil => cases read
  | cons first reads ih =>
    obtain ⟨chunk, closed⟩ := first
    obtain ⟨waits, dispatches⟩ := receive_accumulating cfg waiting chunk closed
    rw [receive_all] at read
    cases received : receive cfg conn chunk closed with
    | waits conn₁ =>
      rw [received] at read
      exact ih (waits conn₁ received) read
    | reads conn₁ req₁ =>
      rw [received] at read
      cases read
      exact dispatches _ _ received
    | leaves =>
      rw [received] at read
      cases read
    | refuses res =>
      rw [received] at read
      cases read

end Receive

section Whole

variable {buf : Bytes} {header_end : Nat}

/-- Behind a whole head that passes the raw checks the size limits hold. -/
theorem check_sizes_valid (found : find_header_end buf = some header_end) (valid : validate_raw_request buf = 0) :
    check_sizes { recv_buf := buf, proxy_protocol_parsed := true } = none := by
  unfold check_sizes
  cases cut : Lib.Framing.cutAt 13 10 buf with
  | none =>
    obtain ⟨body, shape, _⟩ := head_split found
    have line_end : [13, 10] <:+: buf := by
      rw [shape]
      exact ⟨buf.take header_end, CRLF ++ body, by simp [CRLF]⟩
    exact absurd line_end (Lib.Framing.cutAt_none.mp cut)
  | some parts =>
    have short : uri_too_long parts.1 = false := by
      by_contra long
      unfold validate_raw_request at valid
      simp only [found, cut] at valid
      rw [if_pos (by simpa using long)] at valid
      cases valid
    simp [short, found]

theorem read_headers_valid (found : find_header_end buf = some header_end)
    (valid : validate_raw_request buf = 0)
    (plain : has_transfer_encoding_raw (buf.take header_end) = false)
    (small : scanned_length (buf.take header_end) ≤ MAX_BODY_LENGTH) :
    read_headers { recv_buf := buf, proxy_protocol_parsed := true } = .ok {
      recv_buf := buf, proxy_protocol_parsed := true, headers_complete := true
      header_end_pos := header_end, content_length := scanned_length (buf.take header_end) } := by
  have length : (extract_content_length_raw (buf.take header_end)).getD 0 =
      scanned_length (buf.take header_end) := extract_scanned _
  have fits : ¬ MAX_BODY_LENGTH < scanned_length (buf.take header_end) := Nat.not_lt.mpr small
  simp only [read_headers, found, valid, plain, length, fits]
  rfl

end Whole

/-- A head that passes, and as much body as the server waits for, in one read. -/
theorem receive_whole_head {head : RequestHead} (passes : Passes head.text) {body : Bytes}
    (size : body.length = scanned_length head.text) :
    ∃ conn' req, receive_all ({} : ServerConfig Unit) {} [(head.text ++ (CRLF ++ CRLF) ++ body, false)] =
        .reads conn' req ∧
      conn'.recv_buf = head.text ++ (CRLF ++ CRLF) ++ body ∧ req.body = body := by
  obtain ⟨raw, plain, small, parsed⟩ := passes
  generalize whole : head.text ++ (CRLF ++ CRLF) ++ body = buf
  have found : find_header_end buf = some head.text.length := by
    rw [← whole]
    exact Lib.Search.find_stable head.ends body
  have front : buf.take head.text.length = head.text := by
    rw [← whole, List.append_assoc, List.take_left]
  have start : head.text.length + 4 = (head.text ++ (CRLF ++ CRLF)).length := by simp [CRLF]
  have head_bytes : buf.take (head.text.length + 4) = head.text ++ (CRLF ++ CRLF) := by
    rw [← whole, start, List.take_left]
  have body_bytes : buf.drop (head.text.length + 4) = body := by
    rw [← whole, start, List.drop_left]
  have valid : validate_raw_request buf = 0 := by
    rw [validate_raw_head found, front]
    exact raw
  have read := read_headers_valid found valid (front.symm ▸ plain) (front.symm ▸ small)
  rw [front, ← size] at read
  have enough : ¬ buf.length - (head.text.length + 4) < body.length := by
    rw [← whole, List.length_append, ← start]
    omega
  have accepted : validate_parsed_request (parse_http_request (head.text ++ (CRLF ++ CRLF)) body) = 0 := by
    rw [validate_parsed_body]
    exact parsed
  have unwrapped : unwrap_proxy ({} : ServerConfig Unit) { recv_buf := buf } =
      some { recv_buf := buf, proxy_protocol_parsed := true } := rfl
  have received : receive ({} : ServerConfig Unit) {} buf false = .reads
      { recv_buf := buf, proxy_protocol_parsed := true, headers_complete := true, dispatched := true
        header_end_pos := head.text.length, content_length := body.length }
      (parse_http_request (head.text ++ (CRLF ++ CRLF)) body) := by
    simp only [receive, List.nil_append, Bool.false_and, Bool.false_eq_true, if_false, unwrapped,
      check_sizes_valid found valid, read, Bool.not_false, Bool.and_self, if_true, read_body, if_neg enough,
      head_bytes, body_bytes, List.take_length, accepted]
    rfl
  exact ⟨_, _, by rw [receive_all, received], rfl, rfl⟩

/-- A head that passes is handed over with the length that was scanned. -/
theorem BodyExact.honest {head : RequestHead} (exact : BodyExact head) (passes : Passes head.text)
    {v : Bytes} (member : v ∈ content_lengths head.text) :
    numeral v = some (scanned_length head.text) := by
  have size : (List.replicate (scanned_length head.text) (0 : UInt8)).length = scanned_length head.text :=
    List.length_replicate
  obtain ⟨conn', req, received, buffer, body⟩ := receive_whole_head passes size
  have number := exact Unit {} {} conn' _ req ⟨rfl, rfl, rfl, rfl, rfl⟩ received
    (by rw [buffer]; exact Lib.Search.find_stable head.ends _)
    (by rw [buffer, List.append_assoc, List.take_left]) v member
  rw [number, body, size]

/-- The server takes exactly the announced bytes for a head exactly if one of its checks turns the
head away or every field `Content-Length` is the number that the scan of the raw bytes gives. -/
theorem body_exact_iff (head : RequestHead) : BodyExact head ↔
    (Passes head.text → ∀ v ∈ content_lengths head.text, numeral v = some (scanned_length head.text)) := by
  constructor
  · intro exact passes v member
    exact exact.honest passes member
  · intro honest H cfg conn conn' reads req fresh received found front v member
    obtain ⟨header_end, found', passes, body⟩ := receive_all_reads fresh.accumulating received
    obtain rfl : head.text.length = header_end := Option.some.inj (found.symm.trans found')
    rw [front] at passes body
    rw [body]
    exact honest passes v member

def wrapped_length : RequestHead where
  text := bytes "POST /a HTTP/1.1\r\nHost: h\r\nContent-Length: 18446744073709551618"
  ends := by decide +kernel

def two_lengths : RequestHead where
  text := bytes "POST /a HTTP/1.1\r\nHost: h\r\nContent-Length: 2\r\nContent-Length: 3"
  ends := by decide +kernel

/-- 2^64 + 2 announces two bytes, and of two lengths the first is used. -/
theorem lengths_accepted : ¬ BodyExact wrapped_length ∧ ¬ BodyExact two_lengths := by
  have wrapped : Passes wrapped_length.text := by
    constructor <;> decide +kernel
  have two : Passes two_lengths.text := by
    constructor <;> decide +kernel
  constructor
  · intro exact
    have number := exact.honest wrapped (v := bytes "18446744073709551618") (by decide +kernel)
    revert number
    decide +kernel
  · intro exact
    have number := exact.honest two (v := bytes "3") (by decide +kernel)
    revert number
    decide +kernel

end AoSdl.http
