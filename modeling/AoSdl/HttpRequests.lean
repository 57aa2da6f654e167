import AoSdl.HttpParsing

/-! Well-formed requests as a client writes them. -/
namespace AoSdl.http

theorem tolower_eq_iff {c x : UInt8} (ascii : x < 128) : tolower c = x ↔ to_lower c = x := by
  by_cases low : c < 192
  · have same : to_lower c = tolower c := by
      have plain : (decide (192 ≤ c)) = false := by simpa using low
      simp [to_lower, tolower, plain]
    rw [same]
  · have high : 192 ≤ c.toNat := UInt8.le_iff_toNat_le.mp (UInt8.not_lt.mp low)
    have limit : x.toNat < 128 := UInt8.lt_iff_toNat_lt.mp ascii
    have size := c.toNat_lt
    refine iff_of_false ?_ ?_ <;> rintro rfl
    · simp only [tolower] at limit
      split at limit
      · next upper =>
        simp [UInt8.le_iff_toNat_le] at upper
        omega
      · omega
    · simp only [to_lower] at limit
      split at limit
      · next upper =>
        have bound : c.toNat ≤ 222 := by
          simp [UInt8.le_iff_toNat_le] at upper
          omega
        rw [UInt8.toNat_add] at limit
        simp at limit
        omega
      · omega

theorem map_tolower_eq_iff {n : Bytes} (ascii : ∀ c ∈ n, c < 128) (s : Bytes) :
    s.map tolower = n ↔ s.map to_lower = n := by
  induction n generalizing s with
  | nil => simp
  | cons x n ih =>
    cases s with
    | nil => simp
    | cons c s =>
      rw [List.map_cons, List.map_cons, List.cons.injEq, List.cons.injEq,
        tolower_eq_iff (ascii x List.mem_cons_self), ih fun c member => ascii c (List.mem_cons_of_mem x member)]

theorem tolower_colon {c : UInt8} (colon : tolower c = 58) : c = 58 := by
  rw [tolower] at colon
  split at colon
  · next upper =>
    simp only [Bool.and_eq_true, decide_eq_true_eq, UInt8.le_iff_toNat_le] at upper
    have sum := congrArg UInt8.toNat colon
    rw [UInt8.toNat_add] at sum
    simp at upper sum
    omega
  · exact colon

theorem dropWhile_solid {s : Bytes} (solid : s.head?.all (!is_blank ·)) :
    s.dropWhile is_blank = s := by
  cases s with
  | nil => rfl
  | cons c s => exact List.dropWhile_cons_of_neg (by simpa using solid)

/-- A header field with the blanks around its value. -/
structure Field where
  name : Bytes
  before : Bytes := []
  value : Bytes
  after : Bytes := []
  named : name ≠ []
  token : ∀ c ∈ name, is_blank c = false ∧ c ≠ 58 ∧ c ≠ 13 ∧ c ≠ 10
  blank : ∀ c ∈ before ++ after, is_blank c = true
  one_line : ∀ c ∈ value, c ≠ 13 ∧ c ≠ 10
  trimmed : value.head?.all (!is_blank ·) ∧ value.getLast?.all (!is_blank ·)

namespace Field

def line (f : Field) : Bytes := f.name ++ 58 :: (f.before ++ (f.value ++ f.after))

def Is (f : Field) (name : String) : Prop := case_ignore.equal f.name (bytes name) = true

instance (f : Field) (name : String) : Decidable (f.Is name) :=
  inferInstanceAs (Decidable (case_ignore.equal f.name (bytes name) = true))

variable (f : Field)

theorem line_ne_nil : f.line ≠ [] := by simp [line, f.named]

theorem line_clean : 13 ∉ f.line ∧ 10 ∉ f.line := by
  have token := f.token
  have value := f.one_line
  have blank (c : UInt8) (member : c ∈ f.before ∨ c ∈ f.after) : c ≠ 13 ∧ c ≠ 10 := by
    have is_blank_c := f.blank c (List.mem_append.mpr member)
    constructor <;> rintro rfl <;> simp [is_blank] at is_blank_c
  simp only [line, List.mem_append, List.mem_cons, not_or]
  exact ⟨⟨fun m => (token _ m).2.2.1 rfl, by decide, fun m => (blank _ (.inl m)).1 rfl,
      fun m => (value _ m).1 rfl, fun m => (blank _ (.inr m)).1 rfl⟩,
    fun m => (token _ m).2.2.2 rfl, by decide, fun m => (blank _ (.inl m)).2 rfl,
    fun m => (value _ m).2 rfl, fun m => (blank _ (.inr m)).2 rfl⟩

theorem line_starts {c : UInt8} (blank : is_blank c = true) : ∃ d m, f.line = d :: m ∧ d ≠ c := by
  obtain ⟨d, m, name⟩ := List.exists_cons_of_ne_nil f.named
  refine ⟨d, m ++ 58 :: (f.before ++ (f.value ++ f.after)), by rw [line, name]; rfl, ?_⟩
  rintro rfl
  have solid := (f.token d (name ▸ List.mem_cons_self)).1
  exact absurd (blank.symm.trans solid) (by decide)

theorem split_line : Lib.Fields.splitFirst 58 f.line = some (f.name, f.before ++ (f.value ++ f.after)) :=
  Lib.Fields.splitFirst_append (fun colon => (f.token 58 colon).2.1 rfl) _

theorem no_blank_before_colon : blank_before_colon f.line = false := by
  simp only [blank_before_colon, split_line, List.getLast?_eq_some_getLast f.named, Option.any_some]
  exact (f.token _ (List.getLast_mem f.named)).1

theorem trim_value :
    ((f.before ++ (f.value ++ f.after)).dropWhile is_blank).rdropWhile is_blank = f.value := by
  have before : ∀ c ∈ f.before, is_blank c = true := fun c member =>
    f.blank c (List.mem_append_left _ member)
  have after : ∀ c ∈ f.after.reverse, is_blank c = true := fun c member =>
    f.blank c (List.mem_append_right _ (List.mem_reverse.mp member))
  obtain ⟨first, last⟩ := f.trimmed
  rw [List.dropWhile_append_of_pos before]
  by_cases empty : f.value = []
  · rw [empty, List.nil_append, List.dropWhile_eq_nil_iff.mpr fun c member =>
      after c (List.mem_reverse.mpr member)]
    rfl
  · rw [dropWhile_solid (by rwa [List.head?_append_of_ne_nil _ empty]), List.rdropWhile,
      List.reverse_append, List.dropWhile_append_of_pos after,
      dropWhile_solid (by rwa [← List.getLast?_eq_head?_reverse]), List.reverse_reverse]

theorem is_iff {name : String} {n : Bytes} (lowered : (bytes name).map to_lower = n)
    (ascii : ∀ c ∈ n, c < 128) : f.Is name ↔ f.name.map tolower = n := by
  rw [map_tolower_eq_iff ascii, Is, case_ignore.equal, decide_eq_true_iff, lowered]

theorem is_content_length : f.Is "Content-Length" ↔ f.name.map tolower = bytes "content-length" :=
  f.is_iff (by decide +kernel) (by decide +kernel)

theorem is_transfer_encoding :
    f.Is "Transfer-Encoding" ↔ f.name.map tolower = bytes "transfer-encoding" :=
  f.is_iff (by decide +kernel) (by decide +kernel)

/-- A line starts with a name and a colon when that is the name of its field. -/
theorem starts_iff {n : Bytes} (no_colon : 58 ∉ n) (rest : Bytes) :
    ((f.line ++ rest).take (n ++ [58]).length).map tolower = n ++ [58] ↔ f.name.map tolower = n := by
  obtain ⟨value, lowered⟩ : ∃ value, (f.line ++ rest).map tolower = f.name.map tolower ++ 58 :: value :=
    ⟨_, by rw [line, List.append_assoc, List.map_append, List.cons_append, List.map_cons]; rfl⟩
  have name : 58 ∉ f.name.map tolower := by
    intro member
    obtain ⟨c, inside, colon⟩ := List.mem_map.mp member
    exact (f.token c inside).2.1 (tolower_colon colon)
  rw [List.map_take, lowered]
  constructor
  · intro starts
    exact (Lib.Fields.eq_of_prefix no_colon name (starts ▸ List.take_prefix _ _)).symm
  · rintro rfl
    rw [List.append_cons _ _ value, List.take_left]

theorem parse_header_line (headers : Headers) :
    parse_header headers f.line = (f.name, f.value) :: headers := by
  rw [parse_header, split_line]
  exact congrArg (headers.emplace f.name) f.trim_value

end Field

/-- A target with or without scheme and host. -/
structure Target where
  authority : Option (Bytes × Bytes) := none
  path : Bytes
  query : Option Bytes := none
  no_query : 63 ∉ path
  /-- The scheme ends at the first colon and the host at the first slash. -/
  absolute : ∀ a ∈ authority, 58 ∉ a.1 ∧ 47 ∉ a.2 ∧ path.head? = some 47

namespace Target

def text (t : Target) : Bytes :=
  t.authority.elim [] (fun a => a.1 ++ (bytes "://" ++ a.2)) ++
    (t.path ++ t.query.elim [] (63 :: ·))

theorem strip_authority_absolute {scheme host : Bytes} (no_colon : 58 ∉ scheme) (no_slash : 47 ∉ host)
    (path : Bytes) : strip_authority (scheme ++ (bytes "://" ++ (host ++ 47 :: path))) = 47 :: path := by
  have separator : bytes "://" = [58, 47] ++ [47] := by decide
  have clean : ¬ [58, 47] ++ [47] <:+: scheme ++ [58, 47] := by
    intro inside
    have behind := (Lib.Search.infix_append_iff no_colon).mp inside
    simpa using behind.length_le
  have found := Lib.Search.find_append clean (host ++ 47 :: path)
  have behind : (scheme ++ (([58, 47] ++ [47]) ++ (host ++ 47 :: path))).drop (scheme.length + 3) =
      host ++ 47 :: path := by simp
  rw [List.append_assoc] at found
  rw [separator, strip_authority]
  simp only [separator, found, behind, Lib.Fields.splitFirst_append no_slash]

/-- A target that is no absolute URI does not look like one. -/
def Plain (t : Target) : Prop :=
  t.authority = none → ¬ bytes "://" <:+: t.path ++ t.query.elim [] (63 :: ·)

instance (t : Target) : Decidable t.Plain :=
  inferInstanceAs (Decidable (t.authority = none → ¬ bytes "://" <:+: t.path ++ t.query.elim [] (63 :: ·)))

theorem strip_authority_text {t : Target} (plain : t.Plain) :
    strip_authority t.text = t.path ++ t.query.elim [] (63 :: ·) := by
  obtain ⟨authority, path, query, no_query, absolute⟩ := t
  cases authority with
  | none =>
    simp only [strip_authority, text, Option.elim_none, List.nil_append]
    rw [Lib.Search.find_none.mpr (plain rfl)]
  | some authority =>
    obtain ⟨no_colon, no_slash, slash⟩ := absolute authority rfl
    obtain ⟨p, rfl⟩ : ∃ p, path = 47 :: p := by
      cases path with
      | nil => simp at slash
      | cons c p => exact ⟨p, by simpa using slash⟩
    have written := strip_authority_absolute no_colon no_slash (p ++ query.elim [] (63 :: ·))
    simpa [text] using written

theorem parse_target_text {t : Target} (plain : t.Plain) :
    parse_target t.text = (t.path, t.query.elim [] parse_query) := by
  rw [parse_target, strip_authority_text plain]
  cases t.query with
  | none => simp [Lib.Fields.splitFirst_none.mpr t.no_query]
  | some query =>
    rw [Option.elim_some, Lib.Fields.splitFirst_append t.no_query]
    rfl

end Target

def request_line (method : Bytes) (target : Target) (version : Bytes) : Bytes :=
  method ++ 32 :: (target.text ++ 32 :: version)

/-- The header section without the empty line that ends it. -/
def header_section (line : Bytes) (fields : List Field) : Bytes :=
  line ++ Lib.Search.behind 13 10 (fields.map Field.line)

/-- A request within the limits of the server, with a body of the announced length or none. -/
structure WireRequest where
  method : Bytes
  target : Target
  version : Bytes
  fields : List Field
  body : Bytes := []
  method_token : ∀ c ∈ method, c ≠ 32 ∧ c ≠ 13 ∧ c ≠ 10
  target_token : ∀ c ∈ target.text, c ≠ 32 ∧ c ≠ 13 ∧ c ≠ 10
  version_line : ∀ c ∈ version, c ≠ 13 ∧ c ≠ 10
  some_field : fields ≠ []
  one_host : version = bytes "HTTP/1.1" → (fields.filter (·.Is "Host")).length = 1
  announced : ∀ f ∈ fields, f.Is "Content-Length" →
    f.value ≠ [] ∧ f.value.all Lib.Decimal.isDigit ∧ Lib.Decimal.value f.value = body.length
  body_announced : body ≠ [] → ∃ f ∈ fields, f.Is "Content-Length"
  not_encoded : ∀ f ∈ fields, ¬ f.Is "Transfer-Encoding"
  uri_fits : target.text.length ≤ MAX_URI_LENGTH
  line_fits : (request_line method target version).length < MAX_URI_LENGTH + 100
  section_fits : (header_section (request_line method target version) fields).length + 4 ≤
    MAX_HEADER_SECTION_LENGTH
  body_fits : body.length ≤ MAX_BODY_LENGTH

namespace WireRequest

variable (r : WireRequest)

def line : Bytes := request_line r.method r.target r.version

def head : Bytes := header_section r.line r.fields

/-- The bytes of the request. -/
def encode : Bytes := r.head ++ (CRLF ++ CRLF) ++ r.body

/-- What the parser makes of the request. -/
def request : Request :=
  let params := r.target.query.elim [] parse_query
  { method := r.method, path := r.target.path, params, body := r.body, version := r.version
    target := r.target.path
    headers := (r.fields.map fun f => (f.name, f.value)).reverse }

end WireRequest

end AoSdl.http
