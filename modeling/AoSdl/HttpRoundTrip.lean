import AoSdl.HttpRequests

/-! The parser reads every well-formed request back from its bytes, and its checks see no more of
a request than has arrived. -/
namespace AoSdl.http

theorem length_name : ∀ c ∈ bytes "Content-Length", is_blank c = false ∧ c ≠ 58 ∧ c ≠ 13 ∧ c ≠ 10 := by
  decide +kernel

section Lines

variable {line l : Bytes} {ls : List Bytes}

theorem lines_open (clean : 13 ∉ line) (each : ∀ l ∈ ls, l ≠ [] ∧ 13 ∉ l) :
    ¬ CRLF ++ CRLF <:+: line ++ Lib.Search.behind 13 10 ls ++ [13, 10, 13] :=
  Lib.Search.no_empty_line (by decide) each clean

theorem find_lines_end (clean : 13 ∉ line) (each : ∀ l ∈ ls, l ≠ [] ∧ 13 ∉ l) (rest : Bytes) :
    find_header_end (line ++ Lib.Search.behind 13 10 ls ++ (CRLF ++ CRLF) ++ rest) =
      some (line ++ Lib.Search.behind 13 10 ls).length := by
  have open_section : ¬ [13, 10, 13] ++ [10] <:+: line ++ Lib.Search.behind 13 10 ls ++ [13, 10, 13] :=
    lines_open clean each
  exact Lib.Search.find_append open_section rest

theorem drain_lines (each : ∀ m ∈ l :: ls, m ≠ [] ∧ 13 ∉ m) :
    (Lib.Framing.delimited 13 10 cr_ne_lf).drain (l ++ Lib.Search.behind 13 10 ls) =
      ((l :: ls).dropLast, (l :: ls).getLast (List.cons_ne_nil l ls)) := by
  apply Lib.Search.drain_behind
  intro m member inside
  exact (each m member).2 (inside.subset List.mem_cons_self)

theorem lines_of_behind (each : ∀ m ∈ l :: ls, m ≠ [] ∧ 13 ∉ m) :
    lines (l ++ Lib.Search.behind 13 10 ls) = l :: ls := by
  have last : (l :: ls).getLast (List.cons_ne_nil l ls) ≠ [] := (each _ (List.getLast_mem _)).1
  rw [lines, drain_lines each]
  simp only [List.isEmpty_iff, if_neg last, List.dropLast_append_getLast]

theorem lines_ended (ls : List Bytes) :
    CRLF ++ ls.flatMap (· ++ CRLF) = Lib.Search.behind 13 10 ls ++ CRLF := by
  induction ls with
  | nil => rfl
  | cons l ls ih =>
    rw [List.flatMap_cons, Lib.Search.behind_cons, List.append_assoc l, ih]
    simp [CRLF]

end Lines

section Sections

variable {line : Bytes} {fields : List Field}

theorem line_of_fields {l : Bytes} (member : l ∈ fields.map Field.line) : l ≠ [] ∧ 13 ∉ l := by
  obtain ⟨f, _, rfl⟩ := List.mem_map.mp member
  exact ⟨f.line_ne_nil, f.line_clean.1⟩

theorem section_open (clean : 13 ∉ line) :
    ¬ CRLF ++ CRLF <:+: header_section line fields ++ [13, 10, 13] :=
  lines_open clean fun _ => line_of_fields

theorem find_section_end (clean : 13 ∉ line) (rest : Bytes) :
    find_header_end (header_section line fields ++ (CRLF ++ CRLF) ++ rest) =
      some (header_section line fields).length :=
  find_lines_end clean (fun _ => line_of_fields) rest

theorem lines_fields {f : Field} {fields : List Field} :
    lines (f.line ++ Lib.Search.behind 13 10 (fields.map Field.line)) = (f :: fields).map Field.line :=
  lines_of_behind fun _ member => line_of_fields (List.map_cons ▸ member)

theorem parse_section (clean : 13 ∉ line) (some_field : fields ≠ []) (body : Bytes) :
    parse_http_request (header_section line fields ++ (CRLF ++ CRLF)) body =
      { method := (parse_request_line line).1
        path := (parse_target (parse_request_line line).2.1).1
        params := (parse_target (parse_request_line line).2.1).2
        version := (parse_request_line line).2.2
        body
        target := (parse_target (parse_request_line line).2.1).1
        headers := (fields.map fun f => (f.name, f.value)).reverse } := by
  obtain ⟨f, rest, shape⟩ := List.exists_cons_of_ne_nil some_field
  have whole : find_header_end (header_section line fields ++ (CRLF ++ CRLF)) =
      some (header_section line fields).length := by
    rw [← List.append_nil (_ ++ (CRLF ++ CRLF)), find_section_end clean]
  have cut : Lib.Framing.cutAt 13 10 (header_section line fields) =
      some (line, f.line ++ Lib.Search.behind 13 10 (rest.map Field.line)) := by
    rw [header_section, shape]
    apply Lib.Framing.cutAt_append (by decide)
    exact fun inside => clean (inside.subset List.mem_cons_self)
  have read (fs : List Field) (headers : Headers) : (fs.map Field.line).foldl parse_header headers =
      (fs.map fun f => (f.name, f.value)).reverse ++ headers := by
    induction fs generalizing headers with
    | nil => rfl
    | cons f fs ih => simp [Field.parse_header_line, ih]
  simp only [parse_http_request, whole, Option.getD_some, List.take_left, cut, lines_fields, ← shape,
    read, List.append_nil]

theorem find_raw_skip {name p : Bytes} (clean : 10 ∉ p) (s : Bytes) :
    find_raw_header_value name (p ++ s) = find_raw_header_value name s := by
  induction p with
  | nil => rfl
  | cons c p ih =>
    rw [List.mem_cons, not_or] at clean
    rw [List.cons_append, find_raw_header_value, if_neg fun here => clean.1 here.1.symm, ih clean.2]

/-- A raw lookup finds the value of the first field of that name. -/
theorem find_raw_fields {n : Bytes} (no_colon : 58 ∉ n) (fields : List Field) :
    (fields.find? fun f => f.name.map tolower = n) = none ∧
        find_raw_header_value (n ++ [58]) (Lib.Search.behind 13 10 (fields.map Field.line)) = none ∨
      ∃ f, (fields.find? fun f => f.name.map tolower = n) = some f ∧ ∃ t : Bytes, t.head?.all (· = 13) ∧
        find_raw_header_value (n ++ [58]) (Lib.Search.behind 13 10 (fields.map Field.line)) =
          some (f.before ++ (f.value ++ (f.after ++ t))) := by
  induction fields with
  | nil => exact .inl ⟨rfl, rfl⟩
  | cons f fields ih =>
    have line_end (s : Bytes) : find_raw_header_value (n ++ [58]) (13 :: s) =
        find_raw_header_value (n ++ [58]) s := find_raw_skip (p := [13]) (by decide) s
    rw [List.map_cons, Lib.Search.behind_cons, line_end, find_raw_header_value]
    by_cases named : f.name.map tolower = n
    · rw [if_pos ⟨rfl, (f.starts_iff no_colon _).mpr named⟩]
      refine .inr ⟨f, List.find?_cons_of_pos (by simpa using named),
        Lib.Search.behind 13 10 (fields.map Field.line), ?_, ?_⟩
      · cases fields <;> rfl
      · have size : (n ++ [58]).length = (f.name ++ [58]).length := by simp [← named]
        have text (s : Bytes) : f.line ++ s = f.name ++ [58] ++ (f.before ++ (f.value ++ (f.after ++ s))) := by
          simp [Field.line]
        rw [size, text, List.drop_left]
    · rw [if_neg fun here => named ((f.starts_iff no_colon _).mp here.2), find_raw_skip f.line_clean.2,
        List.find?_cons_of_neg (by simpa using named)]
      exact ih

/-- Reading digits with the reductions of a machine word. -/
theorem foldl_mod {β : Type} (g : Nat → β → Nat) (m : Nat) (step : ∀ v c, g (v % m) c % m = g v c % m)
    (cs : List β) (v : Nat) : cs.foldl (fun v c => g v c % m) (v % m) = cs.foldl g v % m := by
  induction cs generalizing v with
  | nil => rfl
  | cons c cs ih => rw [List.foldl_cons, List.foldl_cons, step, ih]

theorem digits_value (ds : Bytes) :
    ds.foldl (fun val c => (val * 10 + (c.toNat - 48)) % 2 ^ 64) 0 = Lib.Decimal.value ds % 2 ^ 64 :=
  foldl_mod (fun val (c : UInt8) => val * 10 + (c.toNat - 48)) (2 ^ 64) (fun v c => by omega) ds 0

/-- The digits at the start of a value are read, whatever stands around it. -/
theorem read_digits {f : Field} {t : Bytes} (line_end : t.head?.all (· = 13)) :
    ((f.before ++ (f.value ++ (f.after ++ t))).dropWhile is_blank).takeWhile Lib.Decimal.isDigit =
      f.value.takeWhile Lib.Decimal.isDigit := by
  have before : ∀ c ∈ f.before, is_blank c = true := fun c member =>
    f.blank c (List.mem_append_left _ member)
  have after : ∀ c ∈ f.after, is_blank c = true := fun c member =>
    f.blank c (List.mem_append_right _ member)
  have line : t.takeWhile Lib.Decimal.isDigit = [] ∧ t.dropWhile is_blank = t := by
    cases t with
    | nil => exact ⟨rfl, rfl⟩
    | cons c t =>
      obtain rfl : c = 13 := by simpa using line_end
      exact ⟨rfl, rfl⟩
  have ends : (f.after ++ t).takeWhile Lib.Decimal.isDigit = [] := by
    cases rest : f.after with
    | nil => exact line.1
    | cons c rest' =>
      have blank := after c (rest ▸ List.mem_cons_self)
      rw [List.cons_append, List.takeWhile_cons_of_neg]
      simp only [is_blank, Bool.or_eq_true, decide_eq_true_eq] at blank
      rcases blank with rfl | rfl <;> decide
  rw [List.dropWhile_append_of_pos before]
  by_cases empty : f.value = []
  · rw [empty, List.nil_append, List.dropWhile_append_of_pos after, line.2, line.1]
    rfl
  · rw [dropWhile_solid (by rw [List.head?_append_of_ne_nil _ empty]; exact f.trimmed.1),
      List.takeWhile_append]
    split
    · next whole => rw [ends, List.append_nil, (List.takeWhile_prefix _).eq_of_length whole]
    · rfl

end Sections

section RequestLine

variable {method target : Bytes}

theorem request_line_clean {version : Bytes} (method_token : ∀ c ∈ method, c ≠ 32 ∧ c ≠ 13 ∧ c ≠ 10)
    (target_token : ∀ c ∈ target, c ≠ 32 ∧ c ≠ 13 ∧ c ≠ 10) (version_line : ∀ c ∈ version, c ≠ 13 ∧ c ≠ 10) :
    13 ∉ method ++ 32 :: (target ++ 32 :: version) ∧ 10 ∉ method ++ 32 :: (target ++ 32 :: version) := by
  simp only [List.mem_append, List.mem_cons, not_or]
  exact ⟨⟨fun m => (method_token _ m).2.1 rfl, by decide, fun m => (target_token _ m).2.1 rfl, by decide,
    fun m => (version_line _ m).1 rfl⟩, fun m => (method_token _ m).2.2 rfl, by decide,
    fun m => (target_token _ m).2.2 rfl, by decide, fun m => (version_line _ m).2 rfl⟩

theorem parse_of_request_line (method_token : ∀ c ∈ method, c ≠ 32 ∧ c ≠ 13 ∧ c ≠ 10)
    (target_token : ∀ c ∈ target, c ≠ 32 ∧ c ≠ 13 ∧ c ≠ 10) (version : Bytes) :
    parse_request_line (method ++ 32 :: (target ++ 32 :: version)) = (method, target, version) := by
  have first : 32 ∉ method := fun m => (method_token _ m).1 rfl
  have second : 32 ∉ target := fun m => (target_token _ m).1 rfl
  simp only [parse_request_line, Lib.Fields.splitFirst_append first, Lib.Fields.splitFirst_append second]

end RequestLine

namespace WireRequest

variable {r : WireRequest} {p : Bytes}

theorem line_clean : 13 ∉ r.line ∧ 10 ∉ r.line :=
  request_line_clean r.method_token r.target_token r.version_line

theorem parse_request_line_eq :
    parse_request_line r.line = (r.method, r.target.text, r.version) :=
  parse_of_request_line r.method_token r.target_token r.version

theorem uri_in_bounds : uri_too_long r.line = false := by
  have method : 32 ∉ r.method := fun m => (r.method_token _ m).1 rfl
  have target : 32 ∉ r.target.text := fun m => (r.target_token _ m).1 rfl
  simp only [uri_too_long, uri_length, line, request_line, Lib.Fields.splitFirst_append method,
    Lib.Fields.splitFirst_append target, Option.map_some, Option.any_some, decide_eq_false_iff_not,
    Nat.not_lt]
  exact r.uri_fits

theorem head_open : ¬ CRLF ++ CRLF <:+: r.head ++ [13, 10, 13] := section_open line_clean.1

theorem encode_length : r.encode.length = r.head.length + 4 + r.body.length := by
  simp [encode, CRLF]
  omega

/-- The part of a request that has arrived, once it includes the empty line. -/
theorem part_eq (part : p <+: r.encode) (whole_head : r.head.length + 4 ≤ p.length) :
    p = r.head ++ (CRLF ++ CRLF) ++ r.body.take (p.length - (r.head.length + 4)) := by
  have taken := List.prefix_iff_eq_take.mp part
  rw [encode, List.take_append, List.take_of_length_le (by simpa [CRLF] using whole_head)] at taken
  simpa [CRLF] using taken

theorem find_header_end_part (part : p <+: r.encode) :
    find_header_end p = if r.head.length + 4 ≤ p.length then some r.head.length else none := by
  split
  · next whole_head =>
    rw [part_eq part whole_head]
    exact find_section_end line_clean.1 _
  · next short =>
    apply Lib.Search.find_absent head_open
    have longer : r.head ++ [13, 10, 13] <+: r.encode := ⟨10 :: r.body, by simp [encode, CRLF]⟩
    exact List.prefix_of_prefix_length_le part longer (by simp; omega)

theorem head_eq : ∃ rest, r.head ++ (CRLF ++ CRLF) = r.line ++ 13 :: 10 :: rest := by
  obtain ⟨f, fields, shape⟩ := List.exists_cons_of_ne_nil r.some_field
  refine ⟨f.line ++ (Lib.Search.behind 13 10 (fields.map Field.line) ++ (CRLF ++ CRLF)), ?_⟩
  simp only [head, header_section, shape, List.map_cons, Lib.Search.behind_cons, List.append_assoc,
    List.cons_append]

theorem cut_line (part : p <+: r.encode) :
    (∃ rest, Lib.Framing.cutAt 13 10 p = some (r.line, rest)) ∨
      Lib.Framing.cutAt 13 10 p = none ∧ p.length < MAX_URI_LENGTH + 100 + 1 := by
  obtain ⟨rest, shape⟩ := head_eq (r := r)
  have start : r.line ++ 13 :: 10 :: (rest ++ r.body) = r.encode := by
    simp [encode, shape]
  by_cases long : r.line.length + 2 ≤ p.length
  · have line : r.line ++ [13, 10] <+: p := by
      have written : r.line ++ [13, 10] <+: r.encode := ⟨rest ++ r.body, by simp [← start]⟩
      exact List.prefix_of_prefix_length_le written part (by simpa using long)
    obtain ⟨t, rfl⟩ := line
    refine .inl ⟨t, ?_⟩
    rw [List.append_assoc]
    apply Lib.Framing.cutAt_append (by decide)
    exact fun inside => line_clean.1 (inside.subset List.mem_cons_self)
  · refine .inr ⟨Lib.Framing.cutAt_none.mpr fun inside => ?_, ?_⟩
    · have short : p <+: r.line ++ [13] := by
        apply List.prefix_of_prefix_length_le part ⟨10 :: (rest ++ r.body), by simp [← start]⟩
        simp
        omega
      have behind := (Lib.Search.infix_append_iff line_clean.1).mp (inside.trans short.isInfix)
      simpa using behind.length_le
    · have fits := r.line_fits
      simp only [line] at long
      omega

theorem no_folds (fields : List Field) {c : UInt8} (blank : is_blank c = true) :
    ¬ CRLF ++ [c] <:+: Lib.Search.behind 13 10 (fields.map Field.line) := by
  rw [← List.append_nil (Lib.Search.behind _ _ _)]
  apply Lib.Search.behind_avoids (by decide)
  · intro l member
    obtain ⟨f, _, rfl⟩ := List.mem_map.mp member
    exact ⟨f.line_clean.1, f.line_starts blank⟩
  · intro inside
    simpa using inside.length_le

/-- The checks on the raw bytes let a well-formed request through. -/
theorem validate_raw_request_part (part : p <+: r.encode) : validate_raw_request p = 0 := by
  rw [validate_raw_request, find_header_end_part part]
  split
  · rfl
  · next header_end found =>
    split at found
    · next whole_head =>
      cases found
      have section_eq : p.take r.head.length = r.head := by
        rw [part_eq part whole_head, List.append_assoc, List.take_left]
      have fits : ¬ MAX_HEADER_SECTION_LENGTH < r.head.length := by
        have := r.section_fits
        simp only [head, line]
        omega
      rcases cut_line part with ⟨rest, cut⟩ | ⟨none, _⟩
      · obtain ⟨f, fields, shape⟩ := List.exists_cons_of_ne_nil r.some_field
        have behind_line : r.head.drop r.line.length = Lib.Search.behind 13 10 (r.fields.map Field.line) := by
          rw [head, header_section, List.drop_left]
        have first_field : r.head.drop (r.line.length + 2) =
            f.line ++ Lib.Search.behind 13 10 (fields.map Field.line) := by
          rw [← List.drop_drop, behind_line, shape]
          rfl
        have unfolded : folds (Lib.Search.behind 13 10 (r.fields.map Field.line)) = false := by
          rw [folds, Lib.Search.find_none.mpr (no_folds _ (by decide)),
            Lib.Search.find_none.mpr (no_folds _ (by decide))]
          rfl
        have tight : ((complete_lines (f.line ++ Lib.Search.behind 13 10 (fields.map Field.line))).takeWhile
            (· ≠ [])).any blank_before_colon = false := by
          rw [List.any_eq_false]
          intro l member
          rw [complete_lines, drain_lines fun _ inside => line_of_fields (List.map_cons ▸ inside)] at member
          have inside : l ∈ (f :: fields).map Field.line :=
            List.mem_of_mem_dropLast (List.takeWhile_subset _ member)
          obtain ⟨g, _, rfl⟩ := List.mem_map.mp inside
          simp [g.no_blank_before_colon]
        simp only [cut, section_eq, uri_in_bounds, fits, behind_line, first_field, unfolded, tight]
        rfl
      · rw [none]
    · exact absurd found (by simp)

theorem find_raw_head {name : Bytes} : find_raw_header_value name r.head =
    find_raw_header_value name (Lib.Search.behind 13 10 (r.fields.map Field.line)) :=
  find_raw_skip line_clean.2 _

theorem no_transfer_encoding : has_transfer_encoding_raw r.head = false := by
  have name : bytes "transfer-encoding:" = bytes "transfer-encoding" ++ [58] := by decide +kernel
  rw [has_transfer_encoding_raw, find_raw_head, name]
  rcases find_raw_fields (n := bytes "transfer-encoding") (by decide +kernel) r.fields with
    ⟨_, none⟩ | ⟨f, first, _⟩
  · rw [none]
    rfl
  · have named : f.name.map tolower = bytes "transfer-encoding" := by simpa using List.find?_some first
    exact absurd (f.is_transfer_encoding.mpr named) (r.not_encoded f (List.mem_of_find?_eq_some first))

/-- The announced length, and 0 when there is none, is that of the body. -/
theorem content_length_eq : (extract_content_length_raw r.head).getD 0 = r.body.length := by
  have name : bytes "content-length:" = bytes "content-length" ++ [58] := by decide +kernel
  rw [extract_content_length_raw, find_raw_head, name]
  rcases find_raw_fields (n := bytes "content-length") (by decide +kernel) r.fields with
    ⟨others, none⟩ | ⟨f, first, t, line_end, found⟩
  · rw [none]
    by_cases empty : r.body = []
    · rw [empty]
      rfl
    · obtain ⟨f, member, named⟩ := r.body_announced empty
      have other := List.find?_eq_none.mp others f member
      exact absurd (f.is_content_length.mp named) (by simpa using other)
  · have member := List.mem_of_find?_eq_some first
    have named : f.name.map tolower = bytes "content-length" := by simpa using List.find?_some first
    obtain ⟨_, digits, announced⟩ := r.announced f member (f.is_content_length.mpr named)
    have all : f.value.takeWhile Lib.Decimal.isDigit = f.value :=
      List.takeWhile_eq_self_iff.mpr (List.all_eq_true.mp digits)
    have small := r.body_fits
    rw [MAX_BODY_LENGTH] at small
    rw [found, Option.map_some, Option.getD_some, read_digits line_end, all, digits_value, announced]
    exact Nat.mod_eq_of_lt (by omega)

theorem parse_encode (plain : r.target.Plain) :
    parse_http_request (r.head ++ (CRLF ++ CRLF)) r.body = r.request := by
  rw [head, parse_section line_clean.1 r.some_field, parse_request_line_eq,
    Target.parse_target_text plain]
  rfl

theorem equal_range_header (name : String) : r.request.headers.equal_range (bytes name) =
    ((r.fields.filter (·.Is name)).map fun f => (f.name, f.value)).reverse := by
  have named : (fun f : Field => case_ignore.equal f.name (bytes name)) = fun f => decide (f.Is name) := by
    funext f
    exact Bool.decide_eq_true.symm
  simp only [request, Headers.equal_range, List.filter_reverse, List.filter_map, ← named]
  rfl

theorem validate_request : validate_parsed_request r.request = 0 := by
  have host : ¬ (r.request.version = bytes "HTTP/1.1" ∧
      r.request.headers.get_header_value_count (bytes "Host") ≠ 1) := by
    rintro ⟨version, count⟩
    apply count
    rw [Headers.get_header_value_count, equal_range_header]
    simpa using r.one_host version
  have digits : (r.request.headers.get_header_value (bytes "Content-Length")).all Lib.Decimal.isDigit := by
    rw [Headers.get_header_value, equal_range_header]
    cases first : ((r.fields.filter (·.Is "Content-Length")).map fun f => (f.name, f.value)).reverse.head? with
    | none => rfl
    | some field =>
      have member := List.mem_reverse.mp (List.mem_of_head? first)
      obtain ⟨f, inside, rfl⟩ := List.mem_map.mp member
      obtain ⟨own, named⟩ := List.mem_filter.mp inside
      exact (r.announced f own (of_decide_eq_true named)).2.1
  have plain : r.request.headers.get_header_value (bytes "Transfer-Encoding") = [] := by
    have none : r.fields.filter (·.Is "Transfer-Encoding") = [] :=
      List.filter_eq_nil_iff.mpr fun f member => by simpa using r.not_encoded f member
    rw [Headers.get_header_value, equal_range_header, none]
    rfl
  simp [validate_parsed_request, host, digits, plain]

end WireRequest

end AoSdl.http
