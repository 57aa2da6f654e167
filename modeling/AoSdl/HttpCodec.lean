import AoSdl.HttpClient
import AoSdl.HttpRoundTrip
import Mathlib.Data.Bool.AllAny

/-! The client's serialiser against the server's parser: which requests come back from their bytes
with the method, path, parameters, headers and body they were sent with. -/
namespace AoSdl.http.client

/-- A request to send. The target may be more than a path with a query. -/
structure ClientRequest where
  method : Bytes
  target : Bytes
  host : Bytes
  /-- The list of the caller, as it is written. -/
  fields : List Field := []
  body : Bytes := []
  method_token : ∀ c ∈ method, c ≠ 32 ∧ c ≠ 13 ∧ c ≠ 10
  target_token : ∀ c ∈ target, c ≠ 32 ∧ c ≠ 13 ∧ c ≠ 10
  host_line : ∀ c ∈ host, c ≠ 13 ∧ c ≠ 10
  host_trimmed : host.head?.all (!is_blank ·) ∧ host.getLast?.all (!is_blank ·)
  written : ∀ f ∈ fields, f.before = [32] ∧ f.after = []
  body_size : body.length < 2 ^ 64

/-- The server's cut of a buffer into the header section and the body, parsed; nothing while it waits
for more of the body. -/
def cut_request (recv_buf : Bytes) : Option Request :=
  (find_header_end recv_buf).bind fun header_end =>
    let content_length := (extract_content_length_raw (recv_buf.take header_end)).getD 0
    let body_start := header_end + 4
    if recv_buf.length < body_start + content_length then none
    else some (parse_http_request (recv_buf.take body_start) ((recv_buf.drop body_start).take content_length))

section Targets

/-- The text before the first question mark. -/
def path_of (target : Bytes) : Bytes := (Lib.Fields.splitFirst 63 target).elim target (·.1)

def query_of (target : Bytes) : Bytes := (Lib.Fields.splitFirst 63 target).elim [] (·.2)

/-- The parameters of a query; one without a value has an empty one. -/
def query_params (query : Bytes) : List (Bytes × Bytes) :=
  ((query.splitOn 38).filter (· ≠ [])).map fun c => (Lib.Fields.splitFirst 61 c).getD (c, [])

variable (target : Bytes)

theorem parse_target_eq : parse_target target =
    (path_of (strip_authority target), parse_query (query_of (strip_authority target))) := by
  rw [parse_target, path_of, query_of]
  cases Lib.Fields.splitFirst 63 (strip_authority target) <;> rfl

theorem strip_plain (plain : ¬ bytes "://" <:+: target) : strip_authority target = target := by
  rw [strip_authority, Lib.Search.find_none.mpr plain]

/-- The parser skips parameters without a value. -/
theorem parse_query_eq (query : Bytes) : parse_query query =
    ((query.splitOn 38).filter (· ≠ [])).filterMap (Lib.Fields.splitFirst 61) := by
  rw [parse_query, List.filterMap_filter]
  apply List.filterMap_congr
  intro c _
  cases c <;> rfl

theorem params_agree_iff (query : Bytes) : parse_query query = query_params query ↔
    ∀ c ∈ query.splitOn 38, c ≠ [] → 61 ∈ c := by
  have assigned (c : Bytes) : (Lib.Fields.splitFirst 61 c).isSome ↔ 61 ∈ c := by
    rw [← not_iff_not, Option.not_isSome_iff_eq_none, Lib.Fields.splitFirst_none]
  rw [parse_query_eq, query_params]
  constructor
  · intro same c member letters
    have lengths := congrArg List.length same
    rw [List.length_map, List.filterMap_length_eq_length] at lengths
    exact (assigned c).mp (lengths c (List.mem_filter.mpr ⟨member, by simpa using letters⟩))
  · intro each
    rw [← List.filterMap_eq_map]
    apply List.filterMap_congr
    intro c member
    obtain ⟨inside, letters⟩ := List.mem_filter.mp member
    obtain ⟨pair, split⟩ := Option.isSome_iff_exists.mp ((assigned c).mpr (each c inside (by simpa using letters)))
    rw [split, Function.comp_apply, split]
    rfl

/-- The colons of parameters. -/
def colons (params : List (Bytes × Bytes)) : Nat :=
  (params.map fun p => p.1.count 58 + p.2.count 58).sum

theorem count_path_query : (path_of target).count 58 + (query_of target).count 58 = target.count 58 := by
  rw [path_of, query_of]
  cases split : Lib.Fields.splitFirst 63 target with
  | none => rfl
  | some parts => exact Lib.Fields.count_splitFirst (by decide) split

theorem sum_components (query : Bytes) :
    (((query.splitOn 38).filter (· ≠ [])).map (List.count 58)).sum = query.count 58 := by
  rw [← Lib.Fields.sum_count_splitOn (a := 38) (by decide) query]
  induction query.splitOn 38 with
  | nil => rfl
  | cons c parts ih =>
    cases c with
    | nil => simpa using ih
    | cons d c => simpa using ih

theorem colons_params (query : Bytes) : colons (query_params query) = query.count 58 := by
  rw [← sum_components, colons, query_params, List.map_map]
  congr 2
  funext c
  rw [Function.comp_apply]
  cases split : Lib.Fields.splitFirst 61 c with
  | none => simp
  | some parts => exact Lib.Fields.count_splitFirst (by decide) split

theorem colons_parsed_le (query : Bytes) : colons (parse_query query) ≤ query.count 58 := by
  rw [← sum_components, parse_query_eq, colons]
  induction (query.splitOn 38).filter (· ≠ []) with
  | nil => exact Nat.le_refl _
  | cons c parts ih =>
    rw [List.map_cons, List.sum_cons]
    cases split : Lib.Fields.splitFirst 61 c with
    | none =>
      rw [List.filterMap_cons_none split]
      exact ih.trans (Nat.le_add_left _ _)
    | some pair =>
      rw [List.filterMap_cons_some split, List.map_cons, List.sum_cons,
        Lib.Fields.count_splitFirst (by decide) split]
      exact Nat.add_le_add_left ih _

theorem colons_lost (scheme : bytes "://" <:+: target) : (strip_authority target).count 58 < target.count 58 := by
  rw [strip_authority]
  cases found : Lib.Search.find (bytes "://") target with
  | none => exact absurd scheme (Lib.Search.find_none.mp found)
  | some scheme_end =>
    obtain ⟨p, rest, shape, length⟩ := Lib.Search.find_split found
    have separator : bytes "://" = [58, 47, 47] := by decide
    have total : target.count 58 = p.count 58 + (1 + rest.count 58) := by
      rw [shape, List.count_append, List.count_append, separator]
      rfl
    have behind : target.drop (scheme_end + 3) = rest := by
      rw [shape, ← length, separator]
      simp
    simp only [behind, total]
    cases slash : Lib.Fields.splitFirst 47 rest with
    | none =>
      have plain : (bytes "/").count 58 = 0 := by decide
      simp only [plain]
      omega
    | some parts =>
      have kept := Lib.Fields.count_splitFirst (c := 58) (by decide) slash
      simp only [List.count_cons_of_ne (show (47 : UInt8) ≠ 58 by decide)]
      omega

theorem target_agrees_iff : parse_target target = (path_of target, query_params (query_of target)) ↔
    ¬ bytes "://" <:+: target ∧ ∀ c ∈ (query_of target).splitOn 38, c ≠ [] → 61 ∈ c := by
  by_cases scheme : bytes "://" <:+: target
  · refine iff_of_false (fun same => ?_) (fun h => h.1 scheme)
    have fewer := colons_lost target scheme
    rw [parse_target_eq, Prod.mk.injEq] at same
    have parsed := colons_parsed_le (query_of (strip_authority target))
    rw [same.2, colons_params] at parsed
    have kept := count_path_query (strip_authority target)
    have whole := count_path_query target
    rw [same.1] at kept
    omega
  · rw [parse_target_eq, strip_plain target scheme, Prod.mk.injEq, params_agree_iff]
    simp [scheme]

end Targets

namespace ClientRequest

variable (r : ClientRequest)

def encode : Bytes :=
  build_request r.method r.target r.host (r.fields.map fun f => (f.name, f.value)) r.body

def others : List Field := r.fields.filter fun f => ¬ f.Is "Host"

/-- The length that the list of the caller announces. -/
def announced : Option Field := r.fields.find? fun f => f.Is "Content-Length"

/-- The digits that a length starts with, in a machine word. -/
def reading (f : Field) : Nat := Lib.Decimal.value (f.value.takeWhile Lib.Decimal.isDigit) % 2 ^ 64

/-- The host, the list of the caller but for its hosts, and the length of a body that the list does
not announce. -/
def headers : Headers :=
  (bytes "Host", r.host) :: (r.others.map (fun f => (f.name, f.value)) ++
    if r.body.isEmpty || r.announced.isSome then [] else [(bytes "Content-Length", to_string r.body.length)])

structure Same (req : Request) : Prop where
  method : req.method = r.method
  path : req.path = path_of r.target
  params : req.params = query_params (query_of r.target)
  headers : req.headers.Perm r.headers
  body : req.body = r.body

def Agrees : Prop := ∃ req, cut_request r.encode = some req ∧ r.Same req

/-- A request that the parser reads as it was meant. -/
structure Clear : Prop where
  no_scheme : ¬ bytes "://" <:+: r.target
  assigned : ∀ c ∈ (query_of r.target).splitOn 38, c ≠ [] → 61 ∈ c
  unannounced : ∀ f ∈ r.announced, r.body = [] ∧ reading f = 0

section Fields

theorem host_name : ∀ c ∈ bytes "Host", is_blank c = false ∧ c ≠ 58 ∧ c ≠ 13 ∧ c ≠ 10 :=
  List.all_iff_forall_prop.mp (by decide)

theorem host_ne_nil : bytes "Host" ≠ [] := by decide

theorem length_ne_nil : bytes "Content-Length" ≠ [] := by decide

theorem one_space : ∀ c ∈ ([32] ++ [] : Bytes), is_blank c = true :=
  List.all_iff_forall_prop.mp rfl

def host_field : Field where
  name := bytes "Host"
  before := [32]
  value := r.host
  named := host_ne_nil
  token := host_name
  blank := one_space
  one_line := r.host_line
  trimmed := r.host_trimmed

theorem length_digits : ∀ c ∈ to_string r.body.length, Lib.Decimal.isDigit c = true :=
  Lib.Decimal.natText_digits r.body.length

def length_field : Field where
  name := bytes "Content-Length"
  before := [32]
  value := to_string r.body.length
  named := length_ne_nil
  token := length_name
  blank := one_space
  one_line c member := by
    have digit := r.length_digits c member
    constructor <;> rintro rfl <;> exact absurd digit (by decide)
  trimmed := by
    have solid (c : UInt8) (member : c ∈ to_string r.body.length) : is_blank c = false := by
      have digit := r.length_digits c member
      cases blank : is_blank c with
      | false => rfl
      | true =>
        simp only [is_blank, Bool.or_eq_true, decide_eq_true_eq] at blank
        rcases blank with rfl | rfl <;> exact absurd digit (by decide)
    constructor
    · rw [Option.all_eq_true]
      intro c first
      simp [solid c (List.mem_of_head? first)]
    · rw [Option.all_eq_true]
      intro c last
      simp [solid c (List.mem_of_getLast? last)]

/-- The fields as they are sent. -/
def sent : List Field := r.host_field :: (r.others ++ if r.body.isEmpty then [] else [r.length_field])

def line : Bytes := r.method ++ 32 :: (r.target ++ 32 :: bytes "HTTP/1.1")

def head : Bytes := header_section r.line r.sent

end Fields

section Bytes

variable {r}

theorem line_clean : 13 ∉ r.line ∧ 10 ∉ r.line :=
  request_line_clean r.method_token r.target_token (by decide +kernel)

theorem parse_line : parse_request_line r.line = (r.method, r.target, bytes "HTTP/1.1") :=
  parse_of_request_line r.method_token r.target_token (bytes "HTTP/1.1")

theorem listed_lines : (r.fields.map fun f => (f.name, f.value)).flatMap (fun (k, v) =>
      if case_ignore.equal k (bytes "Host") then [] else k ++ bytes ": " ++ v ++ CRLF) =
    (r.others.map Field.line).flatMap (· ++ CRLF) := by
  have separator : bytes ": " = [58, 32] := by decide
  have written := r.written
  rw [others]
  generalize r.fields = fields at written ⊢
  induction fields with
  | nil => rfl
  | cons f fields ih =>
    obtain ⟨before, after⟩ := written f List.mem_cons_self
    rw [List.map_cons, List.flatMap_cons, ih fun g member => written g (List.mem_cons_of_mem f member)]
    by_cases host : f.Is "Host"
    · have named : case_ignore.equal f.name (bytes "Host") = true := host
      rw [List.filter_cons_of_neg (by simpa using host)]
      simp only [named, if_true, List.nil_append]
    · have other : ¬ case_ignore.equal f.name (bytes "Host") = true := host
      rw [List.filter_cons_of_pos (by simpa using host), List.map_cons, List.flatMap_cons]
      simp only [if_neg other, separator, Field.line, before, after]
      simp

theorem encode_eq : r.encode = r.head ++ (CRLF ++ CRLF) ++ r.body := by
  have first : bytes " HTTP/1.1\r\n" = 32 :: bytes "HTTP/1.1" ++ CRLF := by decide +kernel
  have host : bytes "Host: " ++ r.host = r.host_field.line := by
    have name : bytes "Host: " = bytes "Host" ++ [58, 32] := by decide
    simp [name, Field.line, host_field]
  have length : (if r.body.isEmpty then [] else bytes "Content-Length: " ++ to_string r.body.length ++ CRLF) =
      ((if r.body.isEmpty then [] else [r.length_field]).map Field.line).flatMap (· ++ CRLF) := by
    have name : bytes "Content-Length: " = bytes "Content-Length" ++ [58, 32] := by decide +kernel
    split
    · rfl
    · simp [name, Field.line, length_field]
  have fields : CRLF ++ (r.host_field.line ++ CRLF ++
      ((r.others.map Field.line).flatMap (· ++ CRLF) ++
        ((if r.body.isEmpty then [] else [r.length_field]).map Field.line).flatMap (· ++ CRLF))) =
      Lib.Search.behind 13 10 (r.sent.map Field.line) ++ CRLF := by
    rw [← lines_ended, sent]
    simp
  have blank : bytes " " = [32] := by decide
  rw [encode, build_request, listed_lines, length, host, first, blank, head, header_section]
  calc _ = r.line ++ (CRLF ++ (r.host_field.line ++ CRLF ++
      ((r.others.map Field.line).flatMap (· ++ CRLF) ++
        ((if r.body.isEmpty then [] else [r.length_field]).map Field.line).flatMap (· ++ CRLF)))) ++
        (CRLF ++ r.body) := by simp [line]
    _ = _ := by
      rw [fields]
      simp

/-- The Content-Length that the server goes by: one of the list comes before that of the body. -/
def governing (r : ClientRequest) : Option Field :=
  if r.announced.isSome || r.body.isEmpty then r.announced else some r.length_field

theorem find_sent : r.sent.find? (fun f => f.name.map tolower = bytes "content-length") = r.governing := by
  have lowered : (fun f : Field => decide (f.name.map tolower = bytes "content-length")) =
      fun f => decide (f.Is "Content-Length") := by
    funext f
    exact decide_eq_decide.mpr f.is_content_length.symm
  have host : ¬ r.host_field.Is "Content-Length" := by
    change ¬ case_ignore.equal (bytes "Host") (bytes "Content-Length") = true
    decide +kernel
  have length : r.length_field.Is "Content-Length" := decide_eq_true rfl
  have others : r.others.find? (fun f => f.Is "Content-Length") = r.announced := by
    rw [ClientRequest.others, List.find?_filter, announced]
    congr 1
    funext f
    by_cases named : f.Is "Content-Length"
    · have other : ¬ f.Is "Host" := by
        intro host
        have lengths := congrArg List.length ((of_decide_eq_true named).symm.trans (of_decide_eq_true host))
        exact absurd lengths (by decide +kernel)
      simp [named, other]
    · simp [named]
  rw [lowered, sent, List.find?_cons_of_neg (by simpa using host), List.find?_append, others, governing]
  cases r.announced with
  | some f => rfl
  | none =>
    cases r.body with
    | nil => rfl
    | cons c body => simp [length]

theorem content_length_eq : (extract_content_length_raw r.head).getD 0 = r.governing.elim 0 reading := by
  have name : bytes "content-length:" = bytes "content-length" ++ [58] := by decide +kernel
  rw [extract_content_length_raw, name, head, header_section, find_raw_skip line_clean.2, ← find_sent]
  rcases find_raw_fields (n := bytes "content-length") (by decide +kernel) r.sent with
    ⟨others, none⟩ | ⟨f, first, t, line_end, found⟩
  · rw [none, others]
    rfl
  · rw [found, first, Option.map_some, Option.getD_some, read_digits line_end, digits_value]
    rfl

theorem cut_encode : cut_request r.encode =
    if r.body.length < r.governing.elim 0 reading then none
    else some {
      method := r.method
      path := (parse_target r.target).1
      params := (parse_target r.target).2
      version := bytes "HTTP/1.1"
      body := r.body.take (r.governing.elim 0 reading)
      target := (parse_target r.target).1
      headers := (r.sent.map fun f => (f.name, f.value)).reverse } := by
  have found : find_header_end r.encode = some r.head.length := by
    rw [encode_eq, head, find_section_end line_clean.1]
  have head_part : r.encode.take r.head.length = r.head := by
    rw [encode_eq, List.append_assoc, List.take_left]
  have section_part : r.encode.take (r.head.length + 4) = r.head ++ (CRLF ++ CRLF) := by
    have size : r.head.length + 4 = (r.head ++ (CRLF ++ CRLF)).length := by simp [CRLF]
    rw [encode_eq, size, List.take_left]
  have body_part : r.encode.drop (r.head.length + 4) = r.body := by
    have size : r.head.length + 4 = (r.head ++ (CRLF ++ CRLF)).length := by simp [CRLF]
    rw [encode_eq, size, List.drop_left]
  have size : r.encode.length = r.head.length + 4 + r.body.length := by
    rw [encode_eq]
    simp [CRLF]
    omega
  have waits : r.encode.length < r.head.length + 4 + r.governing.elim 0 reading ↔
      r.body.length < r.governing.elim 0 reading := by omega
  simp only [cut_request, found, Option.bind_some, head_part, content_length_eq, section_part, body_part, waits]
  congr 1
  have some_field : r.sent ≠ [] := List.cons_ne_nil _ _
  rw [head, parse_section line_clean.1 some_field, parse_line]

/-- The length of a body is written once and only if the list does not announce one. -/
theorem headers_agree_iff : (r.sent.map fun f => (f.name, f.value)).reverse.Perm r.headers ↔
    r.body = [] ∨ r.announced = none := by
  constructor
  · intro same
    have lengths := same.length_eq
    rw [List.length_reverse, List.length_map, sent, headers, List.length_cons, List.length_cons,
      List.length_append, List.length_append, List.length_map] at lengths
    by_contra neither
    obtain ⟨letters, listed⟩ := not_or.mp neither
    have some_listed : r.announced.isSome = true := Option.isSome_iff_ne_none.mpr listed
    simp [letters, some_listed] at lengths
  · intro clear
    apply (List.reverse_perm _).trans
    have written : (if r.body.isEmpty || r.announced.isSome then []
        else [(bytes "Content-Length", to_string r.body.length)]) =
        (if r.body.isEmpty then [] else [r.length_field]).map fun f => (f.name, f.value) := by
      rcases clear with empty | none
      · simp [empty]
      · rw [none, Option.isSome_none, Bool.or_false]
        split <;> rfl
    rw [sent, headers, written, List.map_cons, List.map_append]
    exact List.Perm.refl _

theorem reading_length : reading r.length_field = r.body.length := by
  have all : (to_string r.body.length).takeWhile Lib.Decimal.isDigit = to_string r.body.length :=
    List.takeWhile_eq_self_iff.mpr r.length_digits
  have value : Lib.Decimal.value (to_string r.body.length) = r.body.length := Lib.Decimal.value_natText _
  rw [reading, length_field, all, value, Nat.mod_eq_of_lt r.body_size]

/-- The server reads all of the body and nothing else, and the headers agree. -/
theorem framing_iff : (r.governing.elim 0 reading = r.body.length ∧ (r.body = [] ∨ r.announced = none)) ↔
    ∀ f ∈ r.announced, r.body = [] ∧ reading f = 0 := by
  rw [governing]
  cases listed : r.announced with
  | none =>
    cases body : r.body with
    | nil => simp
    | cons c rest =>
      have length := reading_length (r := r)
      rw [body] at length
      simp [length]
  | some f =>
    cases body : r.body with
    | nil => simp
    | cons c rest => simp

theorem agrees_iff : r.Agrees ↔
    parse_target r.target = (path_of r.target, query_params (query_of r.target)) ∧
      (r.governing.elim 0 reading = r.body.length ∧ (r.body = [] ∨ r.announced = none)) := by
  rw [Agrees, cut_encode, ← headers_agree_iff]
  constructor
  · rintro ⟨req, cut, same⟩
    split at cut
    · cases cut
    · next whole =>
      cases cut
      have lengths := congrArg List.length same.body
      rw [List.length_take] at lengths
      exact ⟨Prod.ext same.path same.params, by omega, same.headers⟩
  · rintro ⟨target, framed, headers⟩
    rw [framed, if_neg (Nat.lt_irrefl _)]
    exact ⟨_, rfl, rfl, congrArg Prod.fst target, congrArg Prod.snd target, headers, List.take_length⟩

end Bytes

end ClientRequest

/-- The parser reads a request as it was meant if its target has no scheme in it, every parameter has
a value and the list of the caller does not announce a body. -/
theorem codec_agrees_iff (r : ClientRequest) : r.Agrees ↔ r.Clear := by
  rw [ClientRequest.agrees_iff, target_agrees_iff, ClientRequest.framing_iff]
  constructor
  · rintro ⟨⟨no_scheme, assigned⟩, unannounced⟩
    exact ⟨no_scheme, assigned, unannounced⟩
  · rintro ⟨no_scheme, assigned, unannounced⟩
    exact ⟨⟨no_scheme, assigned⟩, unannounced⟩

theorem login_token : ∀ c ∈ bytes "/login?next=http://h/x", c ≠ 32 ∧ c ≠ 13 ∧ c ≠ 10 :=
  List.all_iff_forall_prop.mp (by decide)

theorem get_token : ∀ c ∈ bytes "GET", c ≠ 32 ∧ c ≠ 13 ∧ c ≠ 10 :=
  List.all_iff_forall_prop.mp (by decide)

theorem empty_size : ([] : Bytes).length < 2 ^ 64 := by decide

theorem h_line : ∀ c ∈ bytes "h", c ≠ 13 ∧ c ≠ 10 :=
  List.all_iff_forall_prop.mp (by decide)

/-- A login that is to lead back to another page. -/
def login_request : ClientRequest where
  method := bytes "GET"
  target := bytes "/login?next=http://h/x"
  host := bytes "h"
  method_token := get_token
  target_token := login_token
  host_line := h_line
  host_trimmed := ⟨rfl, rfl⟩
  written _ member := absurd member List.not_mem_nil
  body_size := empty_size

/-- The parser takes the page for the path and loses the parameter. -/
theorem login_path_lost : ¬ login_request.Agrees ∧ cut_request login_request.encode = some {
    method := bytes "GET", path := bytes "/x", version := bytes "HTTP/1.1", target := bytes "/x"
    headers := [(bytes "Host", bytes "h")] } := by
  have cut : cut_request login_request.encode = some {
      method := bytes "GET", path := bytes "/x", version := bytes "HTTP/1.1", target := bytes "/x"
      headers := [(bytes "Host", bytes "h")] } := by decide +kernel
  refine ⟨?_, cut⟩
  rintro ⟨req, same_cut, same⟩
  obtain rfl := Option.some.inj (cut.symm.trans same_cut)
  exact absurd same.path (by decide +kernel)

end AoSdl.http.client
