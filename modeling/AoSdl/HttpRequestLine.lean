import AoSdl.HttpHeadChecks

/-! What `parse_http_request` makes of a request in origin form. The scheme of an absolute URI is
looked for anywhere in the target, and without a header line the fields are looked for in the request
line. -/
namespace AoSdl.http
open client

/-- The components of a query that have an `=`, cut at the first one. -/
def pairs (query : Bytes) : List (Bytes × Bytes) :=
  ((query.splitOn 38).filter (61 ∈ ·)).map fun c => (c.takeWhile (· ≠ 61), (c.dropWhile (· ≠ 61)).tail)

/-- A request whose target starts with a slash, with header lines of any content. -/
structure OriginRequest where
  method : Bytes
  target : Bytes
  version : Bytes
  lines : List Bytes
  method_token : ∀ c ∈ method, c ≠ 32 ∧ c ≠ 13 ∧ c ≠ 10
  origin : target.head? = some 47
  target_token : ∀ c ∈ target, c ≠ 32 ∧ c ≠ 13 ∧ c ≠ 10
  version_line : ∀ c ∈ version, c ≠ 13 ∧ c ≠ 10
  each_line : ∀ l ∈ lines, l ≠ [] ∧ 13 ∉ l ∧ 10 ∉ l

namespace OriginRequest

def line (r : OriginRequest) : Bytes := r.method ++ 32 :: (r.target ++ 32 :: r.version)

def head (r : OriginRequest) : Bytes := r.line ++ Lib.Search.behind 13 10 r.lines

/-- What is read off the target and the header lines. -/
structure ParsedAs (r : OriginRequest) (req : Request) : Prop where
  path : req.path = path_of r.target
  params : req.params = pairs (query_of r.target)
  headers : req.headers = r.lines.foldl parse_header []

end OriginRequest

/-- What a target in origin form loses of its query when it is taken for an absolute URI, with the
first component of what is kept. -/
def skipped_query (target : Bytes) : Bytes :=
  let kept := query_of (strip_authority target)
  (query_of target).take ((query_of target).length - (kept.dropWhile (· ≠ 38)).length)

/-- From the first slash behind its first `://` on the target has its path once more, and no pair is
lost. -/
structure Echoes (target : Bytes) : Prop where
  path : path_of (strip_authority target) = path_of target
  no_pair : 61 ∉ skipped_query target

section Pairs

theorem splitFirst_eq (c : Bytes) : Lib.Fields.splitFirst 61 c =
    if 61 ∈ c then some (c.takeWhile (· ≠ 61), (c.dropWhile (· ≠ 61)).tail) else none := by
  induction c with
  | nil => rfl
  | cons d c ih =>
    rw [Lib.Fields.splitFirst, ih]
    by_cases here : d = 61
    · simp [here]
    · have other : ¬ (61 : UInt8) = d := fun same => here same.symm
      by_cases later : (61 : UInt8) ∈ c
      · simp [here, later]
      · simp [here, later, other]

theorem parse_query_pairs (query : Bytes) : parse_query query = pairs query := by
  rw [parse_query, pairs]
  induction query.splitOn 38 with
  | nil => rfl
  | cons c cs ih =>
    have head := splitFirst_eq c
    by_cases assigned : (61 : UInt8) ∈ c
    · rw [if_pos assigned] at head
      rw [List.filterMap_cons_some head, List.filter_cons_of_pos (by simpa using assigned), List.map_cons, ih]
    · rw [if_neg assigned] at head
      rw [List.filterMap_cons_none head, List.filter_cons_of_neg (by simpa using assigned), ih]

theorem splitOn_component {c : Bytes} (clean : 38 ∉ c) (q : Bytes) :
    (c ++ 38 :: q).splitOn 38 = c :: q.splitOn 38 := by
  induction c with
  | nil => simp [List.splitOn_cons_eq_if_modifyHead]
  | cons d c ih =>
    rw [List.mem_cons, not_or] at clean
    have other : ¬ d = 38 := fun same => clean.1 same.symm
    rw [List.cons_append, List.splitOn_cons_eq_if_modifyHead, ih clean.2]
    simp [other]

theorem splitOn_last {c : Bytes} (clean : 38 ∉ c) : c.splitOn 38 = [c] := by
  induction c with
  | nil => rfl
  | cons d c ih =>
    rw [List.mem_cons, not_or] at clean
    have other : ¬ d = 38 := fun same => clean.1 same.symm
    rw [List.splitOn_cons_eq_if_modifyHead, ih clean.2]
    simp [other]

theorem pairs_component {c : Bytes} (clean : 38 ∉ c) (q : Bytes) :
    pairs (c ++ 38 :: q) = pairs c ++ pairs q := by
  rw [← parse_query_pairs, ← parse_query_pairs, ← parse_query_pairs, parse_query, parse_query, parse_query,
    splitOn_component clean, splitOn_last clean, ← List.singleton_append, List.filterMap_append]

theorem pairs_last {c : Bytes} (clean : 38 ∉ c) :
    pairs c = if 61 ∈ c then [(c.takeWhile (· ≠ 61), (c.dropWhile (· ≠ 61)).tail)] else [] := by
  rw [← parse_query_pairs, parse_query, splitOn_last clean, List.filterMap_cons, splitFirst_eq]
  split <;> simp_all

/-- The signs that the pairs of a query account for. -/
def signs (params : List (Bytes × Bytes)) : Nat := (params.map fun p => p.2.count 61 + 1).sum

theorem signs_pairs (query : Bytes) : signs (pairs query) = query.count 61 := by
  rw [← Lib.Fields.sum_count_splitOn (a := 38) (by decide) query, ← parse_query_pairs, parse_query, signs]
  induction query.splitOn 38 with
  | nil => rfl
  | cons c cs ih =>
    cases split : Lib.Fields.splitFirst 61 c with
    | none =>
      rw [List.filterMap_cons_none split, List.map_cons, List.sum_cons, ← ih,
        List.count_eq_zero_of_not_mem (Lib.Fields.splitFirst_none.mp split), Nat.zero_add]
    | some parts =>
      obtain ⟨shape, clean⟩ := Lib.Fields.splitFirst_some split
      have here : c.count 61 = parts.2.count 61 + 1 := by
        rw [shape, List.count_append, List.count_eq_zero_of_not_mem clean, List.count_cons_self, Nat.zero_add]
      rw [List.filterMap_cons_some split, List.map_cons, List.map_cons, List.sum_cons, List.sum_cons, ih, here]

theorem pairs_eq_nil {query : Bytes} : pairs query = [] ↔ 61 ∉ query := by
  rw [← List.count_eq_zero, ← signs_pairs]
  cases pairs query with
  | nil => simp [signs]
  | cons p ps => simp [signs]

theorem pairs_extend {y c : Bytes} (clean : 38 ∉ y ∧ 61 ∉ y) (some_letter : y ≠ []) (whole : 38 ∉ c) :
    pairs (y ++ c) = pairs c ↔ 61 ∉ c := by
  have both : 38 ∉ y ++ c := by simp [clean.1, whole]
  rw [pairs_last both, pairs_last whole]
  by_cases assigned : (61 : UInt8) ∈ c
  · have inside : (61 : UInt8) ∈ y ++ c := List.mem_append_right _ assigned
    have key : (y ++ c).takeWhile (· ≠ 61) = y ++ c.takeWhile (· ≠ 61) :=
      List.takeWhile_append_of_pos fun d member => by
        simpa using fun same : d = 61 => clean.2 (same ▸ member)
    rw [if_pos inside, if_pos assigned, key]
    simp [assigned, some_letter]
  · have outside : (61 : UInt8) ∉ y ++ c := by simp [clean.2, assigned]
    simp [assigned, outside]

/-- Text with no `=` in front of a query changes the first component only. -/
theorem pairs_skip {x q : Bytes} (unassigned : 61 ∉ x) :
    pairs (x ++ 63 :: q) = pairs q ↔ 61 ∉ q.takeWhile (· ≠ 38) := by
  suffices general : ∀ y : Bytes, 38 ∉ y ∧ 61 ∉ y →
      (pairs (y ++ (x ++ 63 :: q)) = pairs q ↔ 61 ∉ q.takeWhile (· ≠ 38)) from
    general [] ⟨List.not_mem_nil, List.not_mem_nil⟩
  induction x with
  | nil =>
    intro y clean
    have first : 38 ∉ q.takeWhile (· ≠ 38) := fun member => by
      simpa using List.mem_takeWhile_imp member
    have front : 38 ∉ y ++ [63] ∧ 61 ∉ y ++ [63] := by simp [clean]
    have shape : y ++ ([] ++ 63 :: q) = (y ++ [63]) ++ q := by simp
    have extend := pairs_extend front (by simp) first
    rw [shape]
    cases more : q.dropWhile (· ≠ 38) with
    | nil =>
      have all : q.takeWhile (· ≠ 38) = q := by
        have parts := List.takeWhile_append_dropWhile (p := fun c : UInt8 => decide (c ≠ 38)) (l := q)
        rwa [more, List.append_nil] at parts
      rw [all] at extend ⊢
      exact extend
    | cons d rest =>
      have separator : d = 38 := by
        have head := List.head?_dropWhile_not (fun c : UInt8 => decide (c ≠ 38)) q
        rw [more] at head
        simpa using head
      have parts : q = q.takeWhile (· ≠ 38) ++ 38 :: rest := by
        conv_lhs => rw [← List.takeWhile_append_dropWhile (p := fun c : UInt8 => decide (c ≠ 38)) (l := q)]
        rw [more, separator]
      have joined : 38 ∉ (y ++ [63]) ++ q.takeWhile (· ≠ 38) := by
        rw [List.mem_append, not_or]
        exact ⟨front.1, first⟩
      generalize q.takeWhile (· ≠ 38) = c at *
      rw [parts, ← List.append_assoc, pairs_component joined, pairs_component first,
        List.append_left_inj, extend]
  | cons d x ih =>
    intro y clean
    rw [List.mem_cons, not_or] at unassigned
    by_cases separator : d = 38
    · have shape : y ++ (d :: x ++ 63 :: q) = y ++ 38 :: (x ++ 63 :: q) := by rw [separator]; rfl
      rw [shape, pairs_component clean.1, pairs_eq_nil.mpr clean.2, List.nil_append]
      exact ih unassigned.2 [] ⟨List.not_mem_nil, List.not_mem_nil⟩
    · have shape : y ++ (d :: x ++ 63 :: q) = (y ++ [d]) ++ (x ++ 63 :: q) := by simp
      rw [shape]
      exact ih unassigned.2 (y ++ [d]) (by simp [clean, unassigned.1, Ne.symm separator])

end Pairs

section Target

variable {target : Bytes}

theorem path_query (target : Bytes) : target = path_of target ∧ query_of target = [] ∧ 63 ∉ target ∨
    target = path_of target ++ 63 :: query_of target := by
  rw [path_of, query_of]
  cases split : Lib.Fields.splitFirst 63 target with
  | none => exact .inl ⟨rfl, rfl, Lib.Fields.splitFirst_none.mp split⟩
  | some parts => exact .inr (Lib.Fields.splitFirst_some split).1

/-- What is left of a target taken for an absolute URI is a slash or ends the target. -/
theorem strip_suffix (scheme : bytes "://" <:+: target) : strip_authority target = [47] ∨
    ∃ w, w ≠ [] ∧ target = w ++ strip_authority target := by
  rw [strip_authority]
  cases found : Lib.Search.find (bytes "://") target with
  | none => exact absurd scheme (Lib.Search.find_none.mp found)
  | some scheme_end =>
    obtain ⟨p, rest, shape, length⟩ := Lib.Search.find_split found
    have separator : bytes "://" = [58, 47, 47] := by decide
    have behind : target.drop (scheme_end + 3) = rest := by
      rw [shape, ← length, separator]
      simp
    simp only [behind]
    cases slash : Lib.Fields.splitFirst 47 rest with
    | none => exact .inl (by decide)
    | some parts =>
      refine .inr ⟨p ++ (bytes "://" ++ parts.1), by simp [separator], ?_⟩
      conv_lhs => rw [shape, (Lib.Fields.splitFirst_some slash).1]
      simp

/-- Where the path is the same, so are the pairs if what is skipped holds none. -/
theorem pairs_strip_iff (scheme : bytes "://" <:+: target)
    (path : path_of (strip_authority target) = path_of target) :
    pairs (query_of (strip_authority target)) = pairs (query_of target) ↔ 61 ∉ skipped_query target := by
  have none_kept (no_query : query_of (strip_authority target) = []) :
      pairs (query_of (strip_authority target)) = pairs (query_of target) ↔ 61 ∉ skipped_query target := by
    have whole : skipped_query target = query_of target := by simp [skipped_query, no_query]
    rw [no_query, whole, ← pairs_eq_nil]
    exact eq_comm
  rcases strip_suffix scheme with slash | ⟨w, some_letter, shape⟩
  · exact none_kept (by rw [slash]; rfl)
  · rcases path_query (strip_authority target) with ⟨_, no_query, _⟩ | kept
    · exact none_kept no_query
    · rcases path_query target with ⟨_, _, no_mark⟩ | whole
      · refine absurd ?_ no_mark
        rw [shape, kept]
        simp
      · -- the kept query, with its question mark, ends the query of the target
        have ends : 63 :: query_of (strip_authority target) <:+ query_of target := by
          have first : 63 :: query_of (strip_authority target) <:+ target :=
            ⟨w ++ path_of (strip_authority target), by rw [List.append_assoc, ← kept, ← shape]⟩
          have second : query_of target <:+ target := ⟨path_of target ++ [63], by simp [← whole]⟩
          refine List.suffix_of_suffix_length_le first second ?_
          have lengths := congrArg List.length shape
          have letters : 0 < w.length := List.length_pos_of_ne_nil some_letter
          have kept_length := congrArg List.length kept
          have whole_length := congrArg List.length whole
          simp only [List.length_append, List.length_cons, path] at lengths kept_length whole_length ⊢
          omega
        obtain ⟨x, query⟩ := ends
        have skipped : skipped_query target =
            x ++ 63 :: (query_of (strip_authority target)).takeWhile (· ≠ 38) := by
          rw [skipped_query, ← query]
          generalize query_of (strip_authority target) = q
          have parts : x ++ 63 :: q = (x ++ 63 :: q.takeWhile (· ≠ 38)) ++ q.dropWhile (· ≠ 38) := by
            rw [List.append_assoc, List.cons_append, List.takeWhile_append_dropWhile]
          have count : (x ++ 63 :: q).length - (q.dropWhile (· ≠ 38)).length =
              (x ++ 63 :: q.takeWhile (· ≠ 38)).length := by
            rw [parts, List.length_append]
            omega
          rw [count, parts, List.take_left]
        rw [skipped, ← query]
        constructor
        · intro same
          have signed := congrArg signs same
          rw [signs_pairs, signs_pairs, List.count_append] at signed
          have none_skipped : 61 ∉ x := by
            rw [← List.count_eq_zero]
            simp at signed
            omega
          have later := (pairs_skip none_skipped).mp same.symm
          simp only [List.mem_append, List.mem_cons, not_or]
          exact ⟨none_skipped, by decide, later⟩
        · intro unassigned
          simp only [List.mem_append, List.mem_cons, not_or] at unassigned
          exact ((pairs_skip unassigned.1).mpr unassigned.2.2).symm

/-- A target is read as its path and its pairs exactly if it holds no `://` or echoes. -/
theorem parse_target_iff : parse_target target = (path_of target, pairs (query_of target)) ↔
    ¬ bytes "://" <:+: target ∨ Echoes target := by
  rw [parse_target_eq, parse_query_pairs, Prod.mk.injEq]
  by_cases scheme : bytes "://" <:+: target
  · constructor
    · rintro ⟨path, params⟩
      exact .inr ⟨path, (pairs_strip_iff scheme path).mp params⟩
    · rintro (plain | ⟨path, no_pair⟩)
      · exact absurd scheme plain
      · exact ⟨path, (pairs_strip_iff scheme path).mpr no_pair⟩
  · simp [strip_plain target scheme, scheme]

end Target

namespace OriginRequest

variable (r : OriginRequest)

theorem line_clean : 13 ∉ r.line ∧ 10 ∉ r.line :=
  request_line_clean r.method_token r.target_token r.version_line

theorem parse_line : parse_request_line r.line = (r.method, r.target, r.version) :=
  parse_of_request_line r.method_token r.target_token r.version

theorem head_ends : find_header_end (r.head ++ (CRLF ++ CRLF)) = some r.head.length := by
  have each : ∀ l ∈ r.lines, l ≠ [] ∧ 13 ∉ l := fun l member =>
    ⟨(r.each_line l member).1, (r.each_line l member).2.1⟩
  have found := find_lines_end r.line_clean.1 each []
  rw [List.append_nil] at found
  exact found

/-- The fields are those of the header lines; without any, the request line is read from its second
byte. -/
theorem parsed_headers (body : Bytes) :
    (parse_http_request (r.head ++ (CRLF ++ CRLF)) body).headers =
      (if r.lines = [] then [r.line.drop 1] else r.lines).foldl parse_header [] := by
  have line_open : ¬ [13, 10] <:+: r.line := fun inside => r.line_clean.1 (inside.subset List.mem_cons_self)
  simp only [parse_http_request, r.head_ends, Option.getD_some, List.take_left]
  rw [head]
  cases some_line : r.lines with
  | nil =>
    have uncut : Lib.Framing.cutAt 13 10 r.line = none := Lib.Framing.cutAt_none.mpr line_open
    have second : r.line.drop 1 ≠ [] ∧ 13 ∉ r.line.drop 1 := by
      refine ⟨?_, fun member => r.line_clean.1 (List.mem_of_mem_drop member)⟩
      intro empty
      have length := congrArg List.length empty
      simp [line] at length
    have one : http.lines (r.line.drop 1 ++ Lib.Search.behind 13 10 []) = [r.line.drop 1] :=
      lines_of_behind (by simpa using second)
    rw [Lib.Search.behind_nil, List.append_nil] at one ⊢
    rw [uncut, Option.getD_none, one, if_pos rfl]
  | cons l ls =>
    have cut : Lib.Framing.cutAt 13 10 (r.line ++ Lib.Search.behind 13 10 (l :: ls)) =
        some (r.line, l ++ Lib.Search.behind 13 10 ls) := Lib.Framing.cutAt_append cr_ne_lf line_open _
    have each : ∀ m ∈ l :: ls, m ≠ [] ∧ 13 ∉ m := fun m member =>
      ⟨(r.each_line m (some_line ▸ member)).1, (r.each_line m (some_line ▸ member)).2.1⟩
    rw [cut, Option.getD_some, lines_of_behind each, if_neg (List.cons_ne_nil l ls)]

theorem parsed_target (body : Bytes) :
    ((parse_http_request (r.head ++ (CRLF ++ CRLF)) body).path,
      (parse_http_request (r.head ++ (CRLF ++ CRLF)) body).params) = parse_target r.target := by
  have line_open : ¬ [13, 10] <:+: r.line := fun inside => r.line_clean.1 (inside.subset List.mem_cons_self)
  have first : ((Lib.Framing.cutAt 13 10 r.head).getD (r.head, r.head.drop 1)).1 = r.line := by
    rw [head]
    cases r.lines with
    | nil => rw [Lib.Search.behind_nil, List.append_nil, Lib.Framing.cutAt_none.mpr line_open]; rfl
    | cons l ls => rw [Lib.Search.behind_cons, Lib.Framing.cutAt_append cr_ne_lf line_open]; rfl
  simp only [parse_http_request, r.head_ends, Option.getD_some, List.take_left, first, r.parse_line]

theorem parse_header_eq_nil (l : Bytes) : parse_header [] l = [] ↔ 58 ∉ l := by
  rw [parse_header, ← Lib.Fields.splitFirst_none]
  cases Lib.Fields.splitFirst 58 l with
  | none => exact iff_of_true rfl rfl
  | some parts => exact iff_of_false (List.cons_ne_nil _ _) (Option.some_ne_none _)

/-- A request in origin form is read as it is written exactly if its target holds no `://` that
matters and there is a header line or no colon in the request line. -/
theorem parsed_iff (body : Bytes) : r.ParsedAs (parse_http_request (r.head ++ (CRLF ++ CRLF)) body) ↔
    (¬ bytes "://" <:+: r.target ∨ Echoes r.target) ∧ (r.lines ≠ [] ∨ 58 ∉ r.line.drop 1) := by
  have target := r.parsed_target body
  have fields := r.parsed_headers body
  have second : (r.lines ≠ [] ∨ 58 ∉ r.line.drop 1) ↔
      (parse_http_request (r.head ++ (CRLF ++ CRLF)) body).headers = r.lines.foldl parse_header [] := by
    rw [fields]
    by_cases none : r.lines = []
    · rw [if_pos none, none]
      rw [List.foldl_cons, List.foldl_nil, List.foldl_nil, parse_header_eq_nil]
      exact or_iff_right (not_not_intro rfl)
    · rw [if_neg none]
      exact iff_of_true (.inl none) rfl
  rw [← parse_target_iff, ← target, second]
  constructor
  · rintro ⟨path, params, headers⟩
    exact ⟨Prod.ext path params, headers⟩
  · rintro ⟨same, headers⟩
    exact ⟨congrArg Prod.fst same, congrArg Prod.snd same, headers⟩

theorem get_clean : ∀ c ∈ bytes "GET", c ≠ 32 ∧ c ≠ 13 ∧ c ≠ 10 := by decide +kernel

theorem http_clean : ∀ c ∈ bytes "HTTP/1.1", c ≠ 13 ∧ c ≠ 10 := by decide +kernel

/-- A link back in the query of a login page. -/
def login_link : OriginRequest where
  method := bytes "GET"
  target := bytes "/login?next=http://h/x"
  version := bytes "HTTP/1.1"
  lines := [bytes "Host: h"]
  method_token := get_clean
  origin := by decide +kernel
  target_token := by decide +kernel
  version_line := http_clean
  each_line := by decide +kernel

/-- No header line, and a colon in the target. -/
def bare_line : OriginRequest where
  method := bytes "GET"
  target := bytes "/a:b"
  version := bytes "HTTP/1.0"
  lines := []
  method_token := get_clean
  origin := by decide +kernel
  target_token := by decide +kernel
  version_line := by decide +kernel
  each_line := by decide +kernel

/-- The link is taken for the target, and the request line for a field. -/
theorem link_and_line_misread :
    ¬ login_link.ParsedAs (parse_http_request (login_link.head ++ (CRLF ++ CRLF)) []) ∧
    ¬ bare_line.ParsedAs (parse_http_request (bare_line.head ++ (CRLF ++ CRLF)) []) := by
  constructor
  · intro parsed
    have path := parsed.path
    revert path
    decide +kernel
  · intro parsed
    have headers := parsed.headers
    revert headers
    decide +kernel

end OriginRequest

end AoSdl.http
