import AoSdl.HttpClientHeaders
import AoSdl.HttpRoundTrip
import Mathlib.Data.Bool.AllAny

/-! Response heads as they are written, with values that go on over several lines, and what the client
reads of them. -/
namespace AoSdl.http

namespace Response

/-- The fields in the order in which the server writes them. -/
def sent (res : Response) (date : Bytes) (default_headers : Headers) (keep_alive : Bool) : Headers :=
  [(bytes "Connection", if keep_alive then bytes "keep-alive" else bytes "close")] ++
    (if 200 ≤ res.status && res.status < 500 then [(bytes "Date", date)] else []) ++
    default_headers ++ res.headers ++
    (if res.status ≠ 204 && !res.body.isEmpty then
      [(bytes "Content-Length", to_string res.body.length)]
    else [])

end Response

/-- The bytes of a response; the clock gives the date. -/
def serialize_response (date : Bytes) (res : Response) (default_headers : Headers)
    (is_head keep_alive : Bool) : Bytes :=
  let field (k v : Bytes) : Bytes := k ++ bytes ": " ++ v ++ CRLF
  bytes "HTTP/1.1 " ++ to_string res.status ++ bytes " " ++ bytes (status_message res.status) ++
    CRLF ++
    (if keep_alive then bytes "Connection: keep-alive\r\n" else bytes "Connection: close\r\n") ++
    (if 200 ≤ res.status && res.status < 500 then field (bytes "Date") date else []) ++
    default_headers.flatMap (fun (k, v) => field k v) ++
    res.headers.flatMap (fun (k, v) => field k v) ++
    -- No length with 204.
    (if res.status ≠ 204 && !res.body.isEmpty then
      field (bytes "Content-Length") (to_string res.body.length)
    else []) ++
    CRLF ++
    -- The answer to HEAD has no body.
    (if is_head then [] else res.body)

namespace client

/-- A value with what continues it, each behind one space. -/
def unfold_value (first : Bytes) (folds : List (Bytes × Bytes)) : Bytes :=
  first ++ folds.flatMap fun (_, more) => 32 :: more

@[simp] theorem unfold_value_nil (first : Bytes) : unfold_value first [] = first := List.append_nil _

/-- A header field. Each fold is blanks on a line of their own and the text behind them. -/
structure FoldedField where
  name : Bytes
  first : Bytes
  folds : List (Bytes × Bytes) := []
  named : name ≠ []
  token : ∀ c ∈ name, is_blank c = false ∧ c ≠ 58 ∧ c ≠ 13 ∧ c ≠ 10
  one_line : ∀ c ∈ unfold_value first folds, c ≠ 13 ∧ c ≠ 10
  trimmed : (unfold_value first folds).head?.all (!is_blank ·) ∧
    (unfold_value first folds).getLast?.all (!is_blank ·)
  blanks : ∀ fold ∈ folds, fold.1 ≠ [] ∧ ∀ c ∈ fold.1, is_blank c = true
  /-- A single space was folded. -/
  single : ∀ fold ∈ folds, fold.2.head?.any (!is_blank ·)

namespace FoldedField

variable (f : FoldedField)

def value : Bytes := unfold_value f.first f.folds

def lines : List Bytes :=
  (f.name ++ bytes ": " ++ f.first) :: f.folds.map fun (blanks, more) => blanks ++ more

/-- The field on one line. -/
def unfolded : FoldedField :=
  { f with
    first := f.value, folds := []
    one_line := (unfold_value_nil f.value).symm ▸ f.one_line
    trimmed := (unfold_value_nil f.value).symm ▸ f.trimmed
    blanks := nofun, single := nofun }

@[simp] theorem unfolded_name : f.unfolded.name = f.name := rfl

@[simp] theorem unfolded_value : f.unfolded.value = f.value := unfold_value_nil _

end FoldedField

/-- The head of a response; any text may stand for the status. -/
structure ResponseHead where
  version : Bytes := bytes "HTTP/1.1"
  status : Nat
  reason : Bytes
  fields : List FoldedField
  version_token : ∀ c ∈ version, c ≠ 32 ∧ c ≠ 13 ∧ c ≠ 10
  range : 100 ≤ status ∧ status ≤ 599
  reason_line : ∀ c ∈ reason, c ≠ 13 ∧ c ≠ 10

namespace ResponseHead

variable (r : ResponseHead)

def status_line : Bytes := r.version ++ 32 :: (to_string r.status ++ 32 :: r.reason)

def lines : List Bytes := r.fields.flatMap FoldedField.lines

/-- The status line, the fields and the empty line. -/
def text : Bytes := r.status_line ++ Lib.Search.behind 13 10 r.lines ++ (CRLF ++ CRLF)

def unfolded : ResponseHead := { r with fields := r.fields.map FoldedField.unfolded }

/-- The response is read back, the same with and without folds. -/
structure ReadsBack (body : Bytes) : Prop where
  status : (parse_response_headers (r.text ++ body)).status = r.status
  fields : (parse_response_headers (r.text ++ body)).headers.Perm (r.fields.map fun f => (f.name, f.value))
  body_start : (parse_response_headers (r.text ++ body)).body_start = body
  folds : parse_response_headers (r.text ++ body) = parse_response_headers (r.unfolded.text ++ body)

end ResponseHead

section Proof

namespace FoldedField

variable (f : FoldedField)

theorem line_clean {l : Bytes} (member : l ∈ f.lines) : l ≠ [] ∧ 13 ∉ l := by
  have value := f.one_line
  rcases List.mem_cons.mp member with rfl | continued
  · refine ⟨by simp [f.named], fun cr => ?_⟩
    simp only [List.mem_append] at cr
    rcases cr with (name | separator) | first
    · exact (f.token 13 name).2.2.1 rfl
    · exact absurd separator (by decide)
    · exact (value 13 (List.mem_append_left _ first)).1 rfl
  · obtain ⟨⟨blanks, more⟩, inside, rfl⟩ := List.mem_map.mp continued
    obtain ⟨filled, blank⟩ := f.blanks _ inside
    refine ⟨by simp [filled], fun cr => ?_⟩
    rcases List.mem_append.mp cr with here | there
    · exact absurd (blank 13 here) (by decide)
    · have text : 13 ∈ f.folds.flatMap fun (_, more) => 32 :: more :=
        List.mem_flatMap.mpr ⟨_, inside, List.mem_cons_of_mem 32 there⟩
      exact (value 13 (List.mem_append_right _ text)).1 rfl

theorem flush_field (headers : Headers) :
    flush_header headers f.name (32 :: f.value) = (f.name, f.value) :: headers := by
  have solid : (32 :: f.value).dropWhile (· = 32) = f.value := by
    have starts := f.trimmed.1
    change f.value.head?.all (!is_blank ·) = true at starts
    rw [List.dropWhile_cons_of_pos (by simp)]
    cases value : f.value with
    | nil => rfl
    | cons c v =>
      have other : c ≠ 32 := by
        rintro rfl
        rw [value] at starts
        cases starts
      rw [List.dropWhile_cons_of_neg (by simpa using other)]
  rw [flush_header, if_neg (by simpa using f.named), solid]
  rfl

theorem parse_fold {headers : Headers} {key val blanks more : Bytes} (named : key ≠ [])
    (filled : blanks ≠ []) (blank : ∀ c ∈ blanks, is_blank c = true)
    (single : more.head?.any (!is_blank ·) = true) :
    client.parse_header_line (headers, key, val) (blanks ++ more) = (headers, key, val ++ 32 :: more) := by
  have starts : (blanks ++ more).head?.any is_blank = true := by
    obtain ⟨c, rest, rfl⟩ := List.exists_cons_of_ne_nil filled
    simpa using blank c List.mem_cons_self
  have behind : (blanks ++ more).dropWhile is_blank = more := by
    rw [List.dropWhile_append_of_pos blank]
    cases more with
    | nil => rfl
    | cons c rest => exact List.dropWhile_cons_of_neg (by simpa using single)
  rw [client.parse_header_line]
  simp only [starts, behind, List.isEmpty_iff, named, if_true, if_false]

theorem parse_folds {headers : Headers} {key val : Bytes} (named : key ≠ []) {folds : List (Bytes × Bytes)}
    (blanks : ∀ fold ∈ folds, fold.1 ≠ [] ∧ ∀ c ∈ fold.1, is_blank c = true)
    (single : ∀ fold ∈ folds, fold.2.head?.any (!is_blank ·)) :
    (folds.map fun (blanks, more) => blanks ++ more).foldl client.parse_header_line (headers, key, val) =
      (headers, key, unfold_value val folds) := by
  induction folds generalizing val with
  | nil => simp [unfold_value]
  | cons fold folds ih =>
    obtain ⟨front, more⟩ := fold
    have here := blanks _ List.mem_cons_self
    rw [List.map_cons, List.foldl_cons,
      parse_fold named here.1 here.2 (single _ List.mem_cons_self),
      ih (fun fold member => blanks fold (List.mem_cons_of_mem _ member))
        (fun fold member => single fold (List.mem_cons_of_mem _ member))]
    simp [unfold_value]

theorem parse_lines (headers : Headers) (key val : Bytes) :
    f.lines.foldl client.parse_header_line (headers, key, val) =
      (flush_header headers key val, f.name, 32 :: f.value) := by
  have solid : (f.name ++ bytes ": " ++ f.first).head?.any is_blank = false := by
    obtain ⟨c, rest, name⟩ := List.exists_cons_of_ne_nil f.named
    rw [name]
    exact (f.token c (name ▸ List.mem_cons_self)).1
  have colon : Lib.Fields.splitFirst 58 (f.name ++ bytes ": " ++ f.first) = some (f.name, 32 :: f.first) := by
    rw [List.append_assoc]
    exact Lib.Fields.splitFirst_append (fun member => (f.token 58 member).2.1 rfl) _
  have first : client.parse_header_line (headers, key, val) (f.name ++ bytes ": " ++ f.first) =
      (flush_header headers key val, f.name, 32 :: f.first) := by
    rw [client.parse_header_line]
    simp only [solid, colon, Option.getD_some, Bool.false_eq_true, if_false]
  rw [lines, List.foldl_cons, first, parse_folds f.named f.blanks f.single]
  rfl

end FoldedField

/-- The fields of a section are those of its lines, and one that is not yet kept. -/
theorem parse_fields (fields : List FoldedField) (headers : Headers) (key val : Bytes) :
    let p := (fields.flatMap FoldedField.lines).foldl parse_header_line (headers, key, val)
    flush_header p.1 p.2.1 p.2.2 =
      (fields.map fun f => (f.name, f.value)).reverse ++ flush_header headers key val := by
  induction fields generalizing headers key val with
  | nil => rfl
  | cons f fields ih =>
    rw [List.flatMap_cons, List.foldl_append, f.parse_lines]
    simp [ih, f.flush_field]

namespace ResponseHead

variable (r : ResponseHead)

theorem digits : ∀ c ∈ to_string (r.status : Int), Lib.Decimal.isDigit c = true :=
  Lib.Decimal.natText_digits r.status

theorem status_line_clean : 13 ∉ r.status_line := by
  simp only [status_line, List.mem_append, List.mem_cons, not_or]
  exact ⟨fun m => (r.version_token _ m).2.1 rfl, by decide, fun m => absurd (r.digits _ m) (by decide),
    by decide, fun m => (r.reason_line _ m).1 rfl⟩

theorem line_clean {l : Bytes} (member : l ∈ r.lines) : l ≠ [] ∧ 13 ∉ l := by
  obtain ⟨f, _, inside⟩ := List.mem_flatMap.mp member
  exact f.line_clean inside

theorem from_chars_status : from_chars_int (to_string (r.status : Int)) = some (r.status : Int) := by
  have read : Lib.Decimal.readNat (to_string (r.status : Int)) = some r.status :=
    Lib.Decimal.readNat_natText r.status
  have range := r.range
  unfold from_chars_int
  split
  · next rest shape =>
    have sign : 45 ∈ to_string (r.status : Int) := by simp [shape]
    exact absurd (r.digits 45 sign) (by decide)
  · rw [read, Option.map_some, Option.filter_some, if_pos]
    · rfl
    · simp
      omega

theorem parse_section (some_field : r.fields ≠ []) :
    parse_header_section (r.status_line ++ Lib.Search.behind 13 10 r.lines) =
      ((r.status : Int), (r.fields.map fun f => (f.name, f.value)).reverse) := by
  have version : 32 ∉ r.version := fun member => (r.version_token 32 member).1 rfl
  have digits : 32 ∉ to_string (r.status : Int) := fun member => absurd (r.digits 32 member) (by decide)
  have line_open : ¬ [13, 10] <:+: r.status_line := fun inside =>
    r.status_line_clean (inside.subset List.mem_cons_self)
  have status : Lib.Fields.splitFirst 32 r.status_line = some (r.version, to_string r.status ++ 32 :: r.reason) :=
    Lib.Fields.splitFirst_append version _
  have code : Lib.Fields.splitFirst 32 (to_string r.status ++ 32 :: r.reason) =
      some (to_string r.status, r.reason) := Lib.Fields.splitFirst_append digits _
  have fields := parse_fields r.fields [] [] []
  cases behind : r.lines with
  | nil =>
    obtain ⟨f, fields, shape⟩ := List.exists_cons_of_ne_nil some_field
    simp [lines, shape, FoldedField.lines] at behind
  | cons l ls =>
    have cut : Lib.Framing.cutAt 13 10 (r.status_line ++ Lib.Search.behind 13 10 (l :: ls)) =
        some (r.status_line, l ++ Lib.Search.behind 13 10 ls) := Lib.Framing.cutAt_append cr_ne_lf line_open _
    have each : ∀ m ∈ l :: ls, m ≠ [] ∧ 13 ∉ m := fun m member => r.line_clean (behind ▸ member)
    change r.fields.flatMap FoldedField.lines = l :: ls at behind
    rw [behind] at fields
    dsimp only at fields
    simp only [parse_header_section, cut, lines_of_behind each, status, code, Option.elim_some,
      r.from_chars_status, Option.getD_some, fields]
    simp [flush_header]

/-- Without a field the status line is all there is, and its status is not read. -/
theorem parse_text (body : Bytes) : parse_response_headers (r.text ++ body) =
    { status := if r.fields = [] then 0 else r.status
      headers := (r.fields.map fun f => (f.name, f.value)).reverse, body_start := body } := by
  have found := find_lines_end r.status_line_clean (fun _ => r.line_clean) body
  have front : (r.text ++ body).take (r.status_line ++ Lib.Search.behind 13 10 r.lines).length =
      r.status_line ++ Lib.Search.behind 13 10 r.lines := by
    rw [text, List.append_assoc, List.take_left]
  have rest : (r.text ++ body).drop ((r.status_line ++ Lib.Search.behind 13 10 r.lines).length + 4) = body := by
    rw [text]
    exact List.drop_left' (by simp [CRLF, Nat.add_assoc])
  change find_header_end (r.text ++ body) = _ at found
  simp only [parse_response_headers, found, front, rest]
  by_cases empty : r.fields = []
  · have none : Lib.Framing.cutAt 13 10 r.status_line = none :=
      Lib.Framing.cutAt_none.mpr fun inside => r.status_line_clean (inside.subset List.mem_cons_self)
    simp [lines, empty, parse_header_section, none]
  · rw [r.parse_section empty, if_neg empty]

end ResponseHead

end Proof

section Server

theorem ok_line : ∀ c ∈ bytes "OK", c ≠ 13 ∧ c ≠ 10 := by decide +kernel

theorem http_token : ∀ c ∈ bytes "HTTP/1.1", c ≠ 32 ∧ c ≠ 13 ∧ c ≠ 10 := by decide +kernel

/-- A field that a header can have. -/
structure Fits (p : Bytes × Bytes) : Prop where
  named : p.1 ≠ []
  token : ∀ c ∈ p.1, is_blank c = false ∧ c ≠ 58 ∧ c ≠ 13 ∧ c ≠ 10
  one_line : ∀ c ∈ p.2, c ≠ 13 ∧ c ≠ 10
  trimmed : p.2.head?.all (!is_blank ·) ∧ p.2.getLast?.all (!is_blank ·)

def Fits.field {p : Bytes × Bytes} (fits : Fits p) : FoldedField where
  name := p.1
  first := p.2
  folds := []
  named := fits.named
  token := fits.token
  one_line := (unfold_value_nil p.2).symm ▸ fits.one_line
  trimmed := (unfold_value_nil p.2).symm ▸ fits.trimmed
  blanks := nofun
  single := nofun

theorem Fits.digits {name s : Bytes} (named : name ≠ [])
    (token : ∀ c ∈ name, is_blank c = false ∧ c ≠ 58 ∧ c ≠ 13 ∧ c ≠ 10)
    (all : ∀ c ∈ s, Lib.Decimal.isDigit c = true) : Fits (name, s) := by
  have plain {c : UInt8} (digit : Lib.Decimal.isDigit c = true) : is_blank c = false ∧ c ≠ 13 ∧ c ≠ 10 := by
    refine ⟨Bool.eq_false_of_not_eq_true fun blank => ?_, ?_, ?_⟩
    · rcases (by simpa [is_blank] using blank : c = 32 ∨ c = 9) with rfl | rfl <;> cases digit
    · rintro rfl
      cases digit
    · rintro rfl
      cases digit
  refine ⟨named, token, fun c member => (plain (all c member)).2, ?_, ?_⟩
  · cases first : s.head? with
    | none => rfl
    | some c => simp [(plain (all c (List.mem_of_mem_head? first))).1]
  · cases last : s.getLast? with
    | none => rfl
    | some c => simp [(plain (all c (List.mem_of_getLast? last))).1]

theorem status_message_line (status : Int) : ∀ c ∈ bytes (status_message status), c ≠ 13 ∧ c ≠ 10 := by
  have clean : (bytes (status_message status)).all (fun c => c != 13 && c != 10) = true := by
    fun_cases status_message status <;> decide +kernel
  simpa using clean

variable {date : Bytes} {res : Response} {default_headers : Headers} (keep_alive : Bool)

theorem sent_fits (dated : Fits (bytes "Date", date)) (fits : ∀ p ∈ default_headers ++ res.headers, Fits p) :
    ∀ p ∈ res.sent date default_headers keep_alive, Fits p := by
  have connection : ∀ c ∈ bytes "Connection", is_blank c = false ∧ c ≠ 58 ∧ c ≠ 13 ∧ c ≠ 10 := by
    decide +kernel
  intro p member
  simp only [Response.sent, List.mem_append, List.mem_singleton] at member
  rcases member with (((rfl | inside) | inside) | inside) | inside
  · cases keep_alive
    · exact ⟨by decide, connection, by decide +kernel, by decide +kernel⟩
    · exact ⟨by decide, connection, by decide +kernel, by decide +kernel⟩
  · split at inside
    · exact List.mem_singleton.mp inside ▸ dated
    · cases inside
  · exact fits p (List.mem_append_left _ inside)
  · exact fits p (List.mem_append_right _ inside)
  · split at inside
    · obtain rfl := List.mem_singleton.mp inside
      exact .digits (by decide) length_name (Lib.Decimal.natText_digits _)
    · cases inside

/-- The head that the server writes. -/
def head_of (status : Nat) (range : 100 ≤ status ∧ status ≤ 599) {sent : Headers} (fits : ∀ p ∈ sent, Fits p) :
    ResponseHead where
  status := status
  reason := bytes (status_message status)
  fields := sent.pmap (fun _ => Fits.field) fits
  version_token := http_token
  range := range
  reason_line := status_message_line status

theorem head_of_fields {status : Nat} {range : 100 ≤ status ∧ status ≤ 599} {sent : Headers}
    (fits : ∀ p ∈ sent, Fits p) :
    ((head_of status range fits).fields.map fun f => (f.name, f.value)) = sent := by
  rw [head_of, List.map_pmap]
  simp [Fits.field, FoldedField.value]

theorem lines_pmap {sent : Headers} (fits : ∀ p ∈ sent, Fits p) :
    (sent.pmap (fun _ => Fits.field) fits).flatMap FoldedField.lines =
      sent.map fun (k, v) => k ++ bytes ": " ++ v := by
  induction sent with
  | nil => rfl
  | cons p sent ih =>
    rw [List.pmap_cons, List.flatMap_cons, ih, List.map_cons]
    rfl

theorem head_of_text {status : Nat} {range : 100 ≤ status ∧ status ≤ 599} {sent : Headers}
    (fits : ∀ p ∈ sent, Fits p) : (head_of status range fits).text =
      bytes "HTTP/1.1 " ++ to_string status ++ bytes " " ++ bytes (status_message status) ++ CRLF ++
        sent.flatMap (fun (k, v) => k ++ bytes ": " ++ v ++ CRLF) ++ CRLF := by
  have version : bytes "HTTP/1.1 " = bytes "HTTP/1.1" ++ [32] := by decide +kernel
  have space : bytes " " = [32] := by decide
  have lines : (head_of status range fits).lines = sent.map fun (k, v) => k ++ bytes ": " ++ v := lines_pmap fits
  calc (head_of status range fits).text
      = (head_of status range fits).status_line ++
          (Lib.Search.behind 13 10 (head_of status range fits).lines ++ CRLF) ++ CRLF := by
        simp only [ResponseHead.text, List.append_assoc]
    _ = (head_of status range fits).status_line ++
          (CRLF ++ (sent.map fun (k, v) => k ++ bytes ": " ++ v).flatMap (· ++ CRLF)) ++ CRLF := by
        rw [lines_ended, lines]
    _ = _ := by
        simp only [ResponseHead.status_line, head_of, version, space, List.flatMap_map, List.append_assoc,
          List.cons_append, List.nil_append]

theorem serialize_response_eq (is_head : Bool) :
    serialize_response date res default_headers is_head keep_alive =
      bytes "HTTP/1.1 " ++ to_string res.status ++ bytes " " ++ bytes (status_message res.status) ++
        CRLF ++ (res.sent date default_headers keep_alive).flatMap (fun (k, v) => k ++ bytes ": " ++ v ++ CRLF) ++
        CRLF ++ if is_head then [] else res.body := by
  have connection : (if keep_alive then bytes "Connection: keep-alive\r\n" else bytes "Connection: close\r\n") =
      bytes "Connection" ++ bytes ": " ++ (if keep_alive then bytes "keep-alive" else bytes "close") ++ CRLF := by
    cases keep_alive <;> decide +kernel
  have optional (b : Bool) (k v : Bytes) :
      (if b then [(k, v)] else []).flatMap (fun p => p.1 ++ (bytes ": " ++ (p.2 ++ CRLF))) =
        if b then k ++ (bytes ": " ++ (v ++ CRLF)) else [] := by
    cases b <;> simp
  rw [serialize_response, Response.sent, connection]
  simp only [List.flatMap_append, optional, List.flatMap_singleton, List.append_assoc]

/-- Whatever the server writes is read back: it writes one field at least. -/
theorem serialize_response_reads_back {status : Nat} (range : 100 ≤ status ∧ status ≤ 599)
    (code : res.status = status) (dated : Fits (bytes "Date", date))
    (fits : ∀ p ∈ default_headers ++ res.headers, Fits p) (is_head : Bool) :
    parse_response_headers (serialize_response date res default_headers is_head keep_alive) =
      { status := res.status, headers := (res.sent date default_headers keep_alive).reverse
        body_start := if is_head then [] else res.body } := by
  have all := sent_fits keep_alive dated fits
  have some_field : (head_of status range all).fields ≠ [] := by
    simp [head_of, Response.sent]
  rw [serialize_response_eq, code, ← @head_of_text status range _ all, ResponseHead.parse_text,
    if_neg some_field, head_of_fields]
  rfl

theorem date_fits : Fits (bytes "Date", bytes "Thu, 01 Jan 1970 00:00:00 GMT") :=
  ⟨by decide, List.all_iff_forall_prop.mp (by decide), List.all_iff_forall_prop.mp (by decide), by decide⟩

theorem type_fits : Fits (bytes "Content-Type", bytes "text/plain") :=
  ⟨by decide, List.all_iff_forall_prop.mp (by decide), List.all_iff_forall_prop.mp (by decide), by decide⟩

/-- A page of text over a connection that is kept. -/
def page : Response where
  status := 200
  headers := [(bytes "Content-Type", bytes "text/plain")]
  body := bytes "hi"

theorem page_reads_back :
    parse_response_headers (serialize_response (bytes "Thu, 01 Jan 1970 00:00:00 GMT") page [] false true) =
      { status := 200, headers := (page.sent (bytes "Thu, 01 Jan 1970 00:00:00 GMT") [] true).reverse
        body_start := bytes "hi" } :=
  serialize_response_reads_back true (show 100 ≤ 200 ∧ 200 ≤ 599 by decide) rfl date_fits
    (List.forall_mem_singleton.mpr type_fits) false

end Server

namespace ResponseHead

/-- A head is read back exactly if it has a field. -/
theorem reads_back_iff (r : ResponseHead) (body : Bytes) : r.ReadsBack body ↔ r.fields ≠ [] := by
  have range := r.range
  constructor
  · intro back empty
    have status := back.status
    simp only [r.parse_text, empty, if_true] at status
    omega
  · intro some_field
    constructor
    · rw [r.parse_text, if_neg some_field]
    · rw [r.parse_text]
      exact List.reverse_perm _
    · rw [r.parse_text]
    · rw [r.parse_text, r.unfolded.parse_text]
      simp [unfolded, Function.comp_def]

def bare_response : ResponseHead where
  status := 200
  reason := bytes "OK"
  fields := []
  version_token := http_token
  range := by decide
  reason_line := ok_line

/-- The status of a response without fields is lost. -/
theorem bare_status_lost : ¬ ∀ (r : ResponseHead) (body : Bytes), r.ReadsBack body := by
  intro back
  have status := (back bare_response []).status
  exact absurd status (by decide +kernel)

end ResponseHead

end client

end AoSdl.http
