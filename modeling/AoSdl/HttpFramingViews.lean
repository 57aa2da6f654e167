import AoSdl.HttpCodec

/-! The two readers of a header section. Before a request is complete a scanner looks in the raw
bytes for the length of the body; the parser then reads the fields that the checks and the handlers
see. The scanner takes a line to begin behind any LF, the parser behind a CRLF; of two fields of one
name the scanner goes by the first and the parser by the last. -/
namespace AoSdl.http
open client

/-- The lines as the scanner takes them. -/
def scanned_lines (header_section : Bytes) : List Bytes := (header_section.splitOn 10).tail

/-- The lines as the parser takes them. A section of one line is read again from its second byte. -/
def header_lines (header_section : Bytes) : List Bytes :=
  lines ((Lib.Framing.cutAt 13 10 header_section).elim (header_section.drop 1) (·.2))

/-- Whether the line begins with the lower-case name and its colon, in letters of any case. -/
def named (name line : Bytes) : Bool := (line.take name.length).map tolower = name

/-- The digits at the start of a value. -/
def leading (val : Bytes) : Bytes := (val.dropWhile is_blank).takeWhile Lib.Decimal.isDigit

def trim (val : Bytes) : Bytes := (val.dropWhile is_blank).rdropWhile is_blank

/-- The number that a value is, if it is one. -/
def numeral (val : Bytes) : Option Nat :=
  if val ≠ [] ∧ val.all Lib.Decimal.isDigit then some (Lib.Decimal.value val) else none

/-- The scanner and the request that is parsed from the same bytes. -/
structure OneView (recv_buf : Bytes) (header_end : Nat) : Prop where
  encoding : has_transfer_encoding_raw (recv_buf.take header_end) = true ↔
    0 < (parse_http_request (recv_buf.take (header_end + 4)) []).headers.get_header_value_count
      (bytes "Transfer-Encoding")
  present : (extract_content_length_raw (recv_buf.take header_end)).isSome ↔
    0 < (parse_http_request (recv_buf.take (header_end + 4)) []).headers.get_header_value_count
      (bytes "Content-Length")
  length : ∀ n, extract_content_length_raw (recv_buf.take header_end) = some n ↔
    numeral ((parse_http_request (recv_buf.take (header_end + 4)) []).headers.get_header_value
      (bytes "Content-Length")) = some n
  body : ∀ req, cut_request recv_buf = some req → ∀ n,
    numeral (req.headers.get_header_value (bytes "Content-Length")) = some n → req.body.length = n

/-- The line the scanner goes by and the one the parser goes by hold one number. -/
inductive SameNumber (name : Bytes) : Option Bytes → Option Bytes → Prop where
  | absent : SameNumber name none none
  | both {scanned parsed : Bytes}
      (same : numeral (trim (parsed.drop name.length)) =
        some (Lib.Decimal.value (leading (scanned.drop name.length)) % 2 ^ 64)) :
      SameNumber name (some scanned) (some parsed)

/-- What has to hold of the lines of a header section. -/
structure Framed (header_section : Bytes) : Prop where
  encoding : (∃ l ∈ scanned_lines header_section, named (bytes "transfer-encoding:") l) ↔
    ∃ l ∈ header_lines header_section, named (bytes "transfer-encoding:") l
  length : SameNumber (bytes "content-length:")
    ((scanned_lines header_section).find? (named (bytes "content-length:")))
    ((header_lines header_section).reverse.find? (named (bytes "content-length:")))

@[simp] theorem named_nil (line : Bytes) : named [] line = true := rfl

@[simp] theorem named_empty (x : UInt8) (name : Bytes) : named (x :: name) [] = false := rfl

@[simp] theorem named_cons (x c : UInt8) (name line : Bytes) :
    named (x :: name) (c :: line) = (decide (tolower c = x) && named name line) := by
  simp [named]

section Scanner

variable {name : Bytes}

theorem scanned_cons (c : UInt8) (s : Bytes) : (c :: s).splitOn 10 =
    if c = 10 then [] :: s.splitOn 10 else (s.splitOn 10).modifyHead (c :: ·) := by
  simp only [List.splitOn_cons_eq_if_modifyHead, beq_iff_eq]

theorem splitOn_lf (s : Bytes) : s.splitOn 10 = s.takeWhile (· ≠ 10) :: scanned_lines s := by
  induction s with
  | nil => rfl
  | cons c s ih =>
    rw [scanned_lines, scanned_cons]
    split
    · next lf => simp [lf]
    · next other =>
      rw [ih]
      simp [other]

theorem scanned_lines_lf (s : Bytes) :
    scanned_lines (10 :: s) = s.takeWhile (· ≠ 10) :: scanned_lines s := by
  rw [scanned_lines, scanned_cons, if_pos rfl, List.tail_cons, splitOn_lf]

theorem scanned_lines_other {c : UInt8} (other : c ≠ 10) (s : Bytes) :
    scanned_lines (c :: s) = scanned_lines s := by
  rw [scanned_lines, scanned_cons, if_neg other, splitOn_lf]
  rfl

/-- A name is within the line that the text begins with. -/
theorem named_takeWhile (clean : 10 ∉ name) (s : Bytes) :
    named name (s.takeWhile (· ≠ 10)) = named name s := by
  induction name generalizing s with
  | nil => rfl
  | cons x name ih =>
    rw [List.mem_cons, not_or] at clean
    cases s with
    | nil => rfl
    | cons c s =>
      by_cases lf : c = 10
      · have other : tolower 10 ≠ x := fun same => clean.1 same
        simp [lf, other]
      · rw [List.takeWhile_cons_of_pos (by simpa using lf), named_cons, named_cons, ih clean.2]

theorem drop_takeWhile (clean : 10 ∉ name) {s : Bytes} (here : named name s = true) :
    (s.takeWhile (· ≠ 10)).drop name.length = (s.drop name.length).takeWhile (· ≠ 10) := by
  induction name generalizing s with
  | nil => rfl
  | cons x name ih =>
    rw [List.mem_cons, not_or] at clean
    cases s with
    | nil => rfl
    | cons c s =>
      rw [named_cons, Bool.and_eq_true, decide_eq_true_eq] at here
      have other : c ≠ 10 := by
        rintro rfl
        exact clean.1 here.1
      rw [List.takeWhile_cons_of_pos (by simpa using other)]
      exact ih clean.2 here.2

theorem leading_takeWhile (s : Bytes) : leading (s.takeWhile (· ≠ 10)) = leading s := by
  induction s with
  | nil => rfl
  | cons c s ih =>
    by_cases lf : c = 10
    · subst lf
      rfl
    · rw [List.takeWhile_cons_of_pos (by simpa using lf)]
      by_cases blank : is_blank c = true
      · rw [leading, leading, List.dropWhile_cons_of_pos blank, List.dropWhile_cons_of_pos blank]
        exact ih
      · have digits : (s.takeWhile (· ≠ 10)).takeWhile Lib.Decimal.isDigit =
            s.takeWhile Lib.Decimal.isDigit := by
          rw [List.takeWhile_takeWhile]
          congr 1
          funext d
          by_cases last : d = 10
          · simp [last, Lib.Decimal.isDigit]
          · simp [last]
        rw [leading, leading, List.dropWhile_cons_of_neg blank, List.dropWhile_cons_of_neg blank,
          List.takeWhile_cons, List.takeWhile_cons, digits]

/-- What a raw lookup finds, by lines. -/
theorem find_raw_lines (clean : 10 ∉ name) (s : Bytes) : (find_raw_header_value name s).map leading =
    ((scanned_lines s).find? (named name)).map fun l => leading (l.drop name.length) := by
  induction s with
  | nil => rfl
  | cons c s ih =>
    rw [find_raw_header_value]
    by_cases lf : c = 10
    · subst lf
      rw [scanned_lines_lf]
      by_cases here : named name s = true
      · have first : named name (s.takeWhile (· ≠ 10)) = true := (named_takeWhile clean s).trans here
        rw [if_pos ⟨rfl, of_decide_eq_true here⟩, List.find?_cons_of_pos first, Option.map_some,
          Option.map_some, drop_takeWhile clean here, leading_takeWhile]
      · have first : ¬ named name (s.takeWhile (· ≠ 10)) = true := by
          rw [named_takeWhile clean]
          exact here
        rw [if_neg fun both => here (decide_eq_true both.2), List.find?_cons_of_neg first]
        exact ih
    · rw [if_neg fun both => lf both.1, scanned_lines_other lf]
      exact ih

theorem isSome_find_raw (clean : 10 ∉ name) (s : Bytes) :
    (find_raw_header_value name s).isSome = ((scanned_lines s).find? (named name)).isSome := by
  have found := congrArg Option.isSome (find_raw_lines clean s)
  rw [Option.isSome_map, Option.isSome_map] at found
  exact found

theorem extract_lines (s : Bytes) : extract_content_length_raw s =
    ((scanned_lines s).find? (named (bytes "content-length:"))).map fun l =>
      Lib.Decimal.value (leading (l.drop (bytes "content-length:").length)) % 2 ^ 64 := by
  have clean : (10 : UInt8) ∉ bytes "content-length:" := by decide
  have found := congrArg (Option.map fun ds => Lib.Decimal.value ds % 2 ^ 64) (find_raw_lines clean s)
  rw [Option.map_map, Option.map_map] at found
  refine Eq.trans ?_ found
  rw [extract_content_length_raw]
  congr 1
  funext rest
  exact digits_value _

end Scanner

section Parser

theorem named_colon {n : Bytes} (no_colon : 58 ∉ n) (line : Bytes) : named (n ++ [58]) line =
    (Lib.Fields.splitFirst 58 line).any fun p => decide (p.1.map tolower = n) := by
  induction line generalizing n with
  | nil => cases n <;> rfl
  | cons c line ih =>
    by_cases colon : c = 58
    · subst colon
      cases n with
      | nil => rfl
      | cons x n =>
        have other : tolower 58 ≠ x := fun same => no_colon (same ▸ List.mem_cons_self)
        simp [Lib.Fields.splitFirst, other]
    · cases n with
      | nil =>
        have other : tolower c ≠ 58 := fun same => colon (tolower_colon same)
        cases split : Lib.Fields.splitFirst 58 line <;>
          simp [Lib.Fields.splitFirst, colon, split, other]
      | cons x n =>
        have rest := ih (List.not_mem_of_not_mem_cons no_colon)
        rw [List.cons_append, named_cons, rest, Lib.Fields.splitFirst, if_neg colon]
        cases Lib.Fields.splitFirst 58 line <;> simp [Bool.decide_and]

theorem values_parse {key n : Bytes} (lowered : key.map to_lower = n) (ascii : ∀ c ∈ n, c < 128)
    (no_colon : 58 ∉ n) (ls : List Bytes) :
    (Headers.equal_range (ls.foldl parse_header []) key).map (·.2) =
      (ls.reverse.filter (named (n ++ [58]))).map fun l => trim (l.drop (n ++ [58]).length) := by
  induction ls using List.reverseRecOn with
  | nil => rfl
  | append_singleton ls l ih =>
    rw [List.foldl_append, List.foldl_cons, List.foldl_nil, List.reverse_append, List.reverse_singleton,
      List.singleton_append, List.filter_cons, named_colon no_colon]
    cases split : Lib.Fields.splitFirst 58 l with
    | none =>
      rw [parse_header, split]
      exact ih
    | some parts =>
      obtain ⟨k, v⟩ := parts
      obtain ⟨shape, _⟩ := Lib.Fields.splitFirst_some split
      have equal : case_ignore.equal k key = decide (k.map tolower = n) := by
        rw [case_ignore.equal, lowered]
        exact decide_eq_decide.mpr (map_tolower_eq_iff ascii k).symm
      rw [parse_header, split, Option.any_some]
      by_cases here : k.map tolower = n
      · have behind : l.drop (n ++ [58]).length = v := by
          have size : (n ++ [58]).length = (k ++ [58]).length := by simp [← here]
          rw [shape, size, show k ++ 58 :: v = k ++ [58] ++ v by simp, List.drop_left]
        rw [if_pos (decide_eq_true here), List.map_cons, behind, ← ih]
        simp [Headers.emplace, Headers.equal_range, equal, here, trim]
      · rw [if_neg (by simpa using here), ← ih]
        simp [Headers.emplace, Headers.equal_range, equal, here]

theorem count_parse {key n : Bytes} (lowered : key.map to_lower = n) (ascii : ∀ c ∈ n, c < 128)
    (no_colon : 58 ∉ n) (ls : List Bytes) :
    0 < Headers.get_header_value_count (ls.foldl parse_header []) key ↔
      ∃ l ∈ ls, named (n ++ [58]) l = true := by
  have counted := congrArg List.length (values_parse lowered ascii no_colon ls)
  rw [List.length_map, List.length_map] at counted
  rw [Headers.get_header_value_count, counted, List.length_pos_iff_exists_mem]
  simp only [List.mem_filter, List.mem_reverse]

theorem value_parse {key n : Bytes} (lowered : key.map to_lower = n) (ascii : ∀ c ∈ n, c < 128)
    (no_colon : 58 ∉ n) (ls : List Bytes) :
    Headers.get_header_value (ls.foldl parse_header []) key =
      (ls.reverse.find? (named (n ++ [58]))).elim [] fun l => trim (l.drop (n ++ [58]).length) := by
  have first := congrArg List.head? (values_parse lowered ascii no_colon ls)
  rw [List.head?_map, List.head?_map, List.head?_filter] at first
  have value : Headers.get_header_value (ls.foldl parse_header []) key =
      ((Headers.equal_range (ls.foldl parse_header []) key).head?.map (·.2)).elim [] id := by
    rw [Headers.get_header_value]
    cases (Headers.equal_range (ls.foldl parse_header []) key).head? <;> rfl
  rw [value, first]
  cases ls.reverse.find? (named (n ++ [58])) <;> rfl

theorem find_header_end_take {recv_buf : Bytes} {header_end : Nat}
    (found : find_header_end recv_buf = some header_end) :
    find_header_end (recv_buf.take (header_end + 4)) = some header_end := by
  obtain ⟨p, r, shape, size⟩ := Lib.Search.find_split found
  have front : recv_buf.take (header_end + 4) = p ++ (CRLF ++ CRLF) := by
    have length : header_end + 4 = (p ++ (CRLF ++ CRLF)).length := by simp [CRLF, size]
    rw [shape, ← List.append_assoc, length, List.take_left]
  cases there : find_header_end (recv_buf.take (header_end + 4)) with
  | none =>
    have absent := Lib.Search.find_none.mp there
    rw [front] at absent
    exact absurd (List.suffix_append p _).isInfix absent
  | some m =>
    have same := Lib.Search.find_stable there (recv_buf.drop (header_end + 4))
    rw [List.take_append_drop] at same
    exact same.symm.trans found

theorem request_headers {recv_buf : Bytes} {header_end : Nat}
    (found : find_header_end recv_buf = some header_end) (body : Bytes) :
    (parse_http_request (recv_buf.take (header_end + 4)) body).headers =
      (header_lines (recv_buf.take header_end)).foldl parse_header [] := by
  rw [parse_http_request, find_header_end_take found, header_lines]
  simp only [Option.getD_some, List.take_take, Nat.min_eq_left (Nat.le_add_right header_end 4)]
  cases Lib.Framing.cutAt 13 10 (recv_buf.take header_end) <;> rfl

end Parser

theorem transfer_encoding_name : (bytes "Transfer-Encoding").map to_lower = bytes "transfer-encoding" ∧
    (∀ c ∈ bytes "transfer-encoding", c < 128) ∧ 58 ∉ bytes "transfer-encoding" ∧
    bytes "transfer-encoding:" = bytes "transfer-encoding" ++ [58] :=
  ⟨by decide, List.all_iff_forall_prop.mp (by decide), by decide, by decide⟩

theorem content_length_name : (bytes "Content-Length").map to_lower = bytes "content-length" ∧
    (∀ c ∈ bytes "content-length", c < 128) ∧ 58 ∉ bytes "content-length" ∧
    bytes "content-length:" = bytes "content-length" ++ [58] :=
  ⟨by decide, List.all_iff_forall_prop.mp (by decide), by decide, by decide⟩

section Views

variable {recv_buf : Bytes} {header_end : Nat} (found : find_header_end recv_buf = some header_end)

theorem encoding_seen (header_section : Bytes) : has_transfer_encoding_raw header_section = true ↔
    ∃ l ∈ scanned_lines header_section, named (bytes "transfer-encoding:") l = true := by
  rw [has_transfer_encoding_raw, isSome_find_raw (by decide), List.find?_isSome]

include found

theorem encoding_parsed (body : Bytes) :
    0 < (parse_http_request (recv_buf.take (header_end + 4)) body).headers.get_header_value_count
        (bytes "Transfer-Encoding") ↔
      ∃ l ∈ header_lines (recv_buf.take header_end), named (bytes "transfer-encoding:") l = true := by
  obtain ⟨lowered, ascii, no_colon, name⟩ := transfer_encoding_name
  rw [request_headers found, count_parse lowered ascii no_colon, name]

theorem length_present (body : Bytes) :
    0 < (parse_http_request (recv_buf.take (header_end + 4)) body).headers.get_header_value_count
        (bytes "Content-Length") ↔
      ((header_lines (recv_buf.take header_end)).reverse.find?
        (named (bytes "content-length:"))).isSome = true := by
  obtain ⟨lowered, ascii, no_colon, name⟩ := content_length_name
  rw [request_headers found, count_parse lowered ascii no_colon, name, List.find?_isSome]
  simp only [List.mem_reverse]

theorem length_parsed (body : Bytes) :
    (parse_http_request (recv_buf.take (header_end + 4)) body).headers.get_header_value
        (bytes "Content-Length") =
      ((header_lines (recv_buf.take header_end)).reverse.find? (named (bytes "content-length:"))).elim []
        fun l => trim (l.drop (bytes "content-length:").length) := by
  obtain ⟨lowered, ascii, no_colon, name⟩ := content_length_name
  rw [request_headers found, value_parse lowered ascii no_colon, name]

/-- The number that the parser's line gives is the length, if both are there or both are not. -/
theorem same_number_iff : SameNumber (bytes "content-length:")
      ((scanned_lines (recv_buf.take header_end)).find? (named (bytes "content-length:")))
      ((header_lines (recv_buf.take header_end)).reverse.find? (named (bytes "content-length:"))) ↔
    ((extract_content_length_raw (recv_buf.take header_end)).isSome ↔
      0 < (parse_http_request (recv_buf.take (header_end + 4)) []).headers.get_header_value_count
        (bytes "Content-Length")) ∧
    ∀ n, extract_content_length_raw (recv_buf.take header_end) = some n ↔
      numeral ((parse_http_request (recv_buf.take (header_end + 4)) []).headers.get_header_value
        (bytes "Content-Length")) = some n := by
  rw [length_present found, length_parsed found, extract_lines, Option.isSome_map]
  generalize (scanned_lines (recv_buf.take header_end)).find? (named (bytes "content-length:")) = scanned
  generalize (header_lines (recv_buf.take header_end)).reverse.find?
    (named (bytes "content-length:")) = parsed
  constructor
  · intro same
    cases same with
    | absent => exact ⟨Iff.rfl, fun n => Iff.rfl⟩
    | both same =>
      refine ⟨iff_of_true rfl rfl, fun n => ?_⟩
      rw [Option.map_some, Option.elim_some, same]
  · rintro ⟨present, length⟩
    cases scanned with
    | none =>
      cases parsed with
      | none => exact .absent
      | some l => exact absurd (present.mpr rfl) (by decide)
    | some l =>
      cases parsed with
      | none => exact absurd (present.mp rfl) (by decide)
      | some l' => exact .both ((length _).mp rfl)

/-- The body of a request that is cut off has the length the scanner found. -/
theorem body_cut {req : Request} (cut : cut_request recv_buf = some req) :
    req.headers = (parse_http_request (recv_buf.take (header_end + 4)) []).headers ∧
    req.body.length = (extract_content_length_raw (recv_buf.take header_end)).getD 0 := by
  rw [cut_request, found, Option.bind_some] at cut
  simp only at cut
  split at cut
  · cases cut
  · next enough =>
    cases cut
    refine ⟨(request_headers found _).trans (request_headers found []).symm, ?_⟩
    change (List.take _ _).length = _
    rw [List.length_take, List.length_drop]
    omega

omit found in
/-- The two readers agree exactly on the sections whose lines say one thing. -/
theorem one_view_iff (found : find_header_end recv_buf = some header_end) :
    OneView recv_buf header_end ↔ Framed (recv_buf.take header_end) := by
  have number := same_number_iff found
  constructor
  · intro view
    have encoding := view.encoding
    rw [encoding_seen, encoding_parsed found] at encoding
    exact ⟨encoding, number.mpr ⟨view.present, view.length⟩⟩
  · intro framed
    obtain ⟨present, length⟩ := number.mp framed.length
    refine ⟨?_, present, length, fun req cut n declared => ?_⟩
    · rw [encoding_seen, encoding_parsed found]
      exact framed.encoding
    · obtain ⟨headers, body⟩ := body_cut found cut
      rw [headers] at declared
      rw [body, (length n).mpr declared, Option.getD_some]

end Views

def announced : Bytes := bytes "POST /a HTTP/1.1\r\nHost: h\r\nContent-Length: 2\r\n\r\nok"

theorem announced_one_view : find_header_end announced = some 44 ∧ OneView announced 44 := by
  have found : find_header_end announced = some 44 := by decide +kernel
  have scanned : (scanned_lines (announced.take 44)).find? (named (bytes "content-length:")) =
      some (bytes "Content-Length: 2") := by decide +kernel
  have parsed : (header_lines (announced.take 44)).reverse.find? (named (bytes "content-length:")) =
      some (bytes "Content-Length: 2") := by decide +kernel
  refine ⟨found, (one_view_iff found).mpr ⟨by decide +kernel, ?_⟩⟩
  rw [scanned, parsed]
  exact .both (by decide +kernel)

/-- A length behind a bare LF is used, and the request that passes the checks has none. -/
def hidden_length : Bytes :=
  bytes "GET /a HTTP/1.1\r\nHost: h\r\nX: y\nContent-Length: 2\r\n\r\nok"

theorem hidden_length_two_views : (validate_raw_request hidden_length = 0 ∧
      (cut_request hidden_length).any (fun req => validate_parsed_request req = 0 && req.body.length = 2)) ∧
    ¬ ∀ recv_buf header_end, find_header_end recv_buf = some header_end → OneView recv_buf header_end := by
  refine ⟨by decide +kernel, fun every => ?_⟩
  have view := every hidden_length 48 (by decide +kernel)
  have missing := view.present
  revert missing
  decide +kernel

end AoSdl.http
