import AoSdl.HttpClientFraming

/-! How the client comes to the head of a final response, and when the response leaves the
connection fit for another request. -/
namespace AoSdl.http.client
open Lib.Arrivals

section Heads

variable {text buf more head rest : Bytes} {code : Nat}

/-- The head is in a front of the text as soon as an empty line is. -/
theorem Head.part (starts : Head text code head rest) (all : buf ++ more = text)
    (found : (find_header_end buf).isSome = true) :
    ∃ extra, Head buf code head extra ∧ extra ++ more = rest := by
  obtain ⟨n, here⟩ := Option.isSome_iff_exists.mp found
  obtain ⟨p, extra, shape, length⟩ := Lib.Search.find_split here
  have there : find_header_end text = some n := all ▸ Lib.Search.find_stable here more
  have same : head.length = n := Option.some.inj (starts.ends.symm.trans there)
  have split : head ++ (CRLF ++ CRLF ++ rest) = p ++ (CRLF ++ CRLF ++ (extra ++ more)) := by
    rw [← starts.shape, ← all, shape]
    simp only [List.append_assoc]
  obtain ⟨front, behind⟩ := List.append_inj split (same.trans length.symm)
  refine ⟨extra, ⟨by rw [shape, front], by rw [here, same], starts.status⟩, ?_⟩
  exact (List.append_cancel_left behind).symm

theorem Head.parsed (starts : Head text code head rest) : parse_response_headers text =
    { status := (parse_header_section head).1, headers := headers_of head, body_start := rest } := by
  have front : text.take head.length = head := by rw [starts.shape, List.take_left]
  have behind : text.drop (head.length + 4) = rest := by
    rw [starts.shape, ← List.append_assoc]
    exact List.drop_left' (by simp [CRLF])
  simp only [parse_response_headers, starts.ends, front, behind]
  rfl

theorem value_three {digits : Bytes} (all : ∀ c ∈ digits, Lib.Decimal.isDigit c = true)
    (three : digits.length = 3) : Lib.Decimal.value digits < 1000 := by
  obtain ⟨a, b, c, rfl⟩ := List.length_eq_three.mp three
  have first := (Lib.Decimal.isDigit_iff a).mp (all a (by simp))
  have second := (Lib.Decimal.isDigit_iff b).mp (all b (by simp))
  have third := (Lib.Decimal.isDigit_iff c).mp (all c (by simp))
  simp only [Lib.Decimal.value, List.foldl_cons, List.foldl_nil]
  omega

theorem from_chars_three {s : Bytes} (three : (s.takeWhile Lib.Decimal.isDigit).length = 3) :
    from_chars_int s = some (Lib.Decimal.value (s.takeWhile Lib.Decimal.isDigit) : Int) := by
  have low := value_three (fun c inside => (List.mem_takeWhile_imp inside)) three
  have filled : (s.takeWhile Lib.Decimal.isDigit).isEmpty = false := by
    cases digits : s.takeWhile Lib.Decimal.isDigit with
    | nil => simp [digits] at three
    | cons c digits => rfl
  unfold from_chars_int
  split
  · next rest => exact absurd three (by simp [show Lib.Decimal.isDigit 45 = false by decide])
  · simp only [Lib.Decimal.readNat, filled, Bool.false_eq_true, if_false, Option.map_some]
    rw [Option.filter_some, if_pos]
    · rfl
    · simp
      omega

/-- The status is read the same with the rest of the response behind the head. -/
theorem interim_code_head (status : status_of head = some code) (tail : Bytes) :
    interim_code (head ++ 13 :: tail) = some (code : Int) := by
  unfold status_of at status
  cases split : Lib.Fields.splitFirst 32 head with
  | none => simp [split] at status
  | some parts =>
    obtain ⟨p, t⟩ := parts
    obtain ⟨shape, clean⟩ := Lib.Fields.splitFirst_some split
    have behind : Lib.Fields.splitFirst 32 (head ++ 13 :: tail) = some (p, t ++ 13 :: tail) := by
      rw [shape, List.append_assoc]
      exact Lib.Fields.splitFirst_append clean _
    simp only [split] at status
    split at status
    swap
    · cases status
    next three =>
      cases status
      have digits : (t ++ 13 :: tail).takeWhile Lib.Decimal.isDigit = t.takeWhile Lib.Decimal.isDigit :=
        takeWhile_before (by decide) t tail
      simp only [interim_code, behind]
      cases blank : Lib.Fields.splitFirst 32 (t ++ 13 :: tail) with
      | none =>
        have front : (t ++ 13 :: tail).take 3 = t.takeWhile Lib.Decimal.isDigit := by
          rw [← List.takeWhile_append_dropWhile (p := Lib.Decimal.isDigit) (l := t ++ 13 :: tail), digits]
          exact List.take_left' three
        have all : (t.takeWhile Lib.Decimal.isDigit).takeWhile Lib.Decimal.isDigit =
            t.takeWhile Lib.Decimal.isDigit :=
          List.takeWhile_eq_self_iff.mpr fun c inside => List.mem_takeWhile_imp inside
        have read := from_chars_three (s := t.takeWhile Lib.Decimal.isDigit) (all.symm ▸ three)
        rw [all] at read
        simpa only [front] using read
      | some parts =>
        obtain ⟨code_str, r⟩ := parts
        have same : code_str.takeWhile Lib.Decimal.isDigit = t.takeWhile Lib.Decimal.isDigit := by
          rw [← digits, (Lib.Fields.splitFirst_some blank).1, takeWhile_before (by decide)]
        rw [← same] at three ⊢
        exact from_chars_three three

theorem Head.is_interim (starts : Head text code head rest) :
    is_interim text = decide (Interim code) := by
  unfold client.is_interim
  rw [starts.shape]
  have read := interim_code_head starts.status (10 :: (CRLF ++ rest))
  have shape : head ++ (CRLF ++ CRLF ++ rest) = head ++ 13 :: 10 :: (CRLF ++ rest) := rfl
  rw [shape, read, Option.any_some, ← Bool.decide_and]
  refine decide_eq_decide.mpr ?_
  unfold Interim
  omega

end Heads

section Reading

variable {w : Wire}

/-- Headers are read up to an empty line at least, or given up as too long, or all that comes is
read. -/
theorem read_headers_cases (flowing : Flowing w.line) :
    (find_header_end (read_headers w).1).isSome = true ∧
        (read_headers w).1 ++ letters (read_headers w).2.line = letters w.line ∨
      (read_headers w).1 = [] ∧ MAX_CLIENT_HEADER_SIZE < (letters w.line).length ∨
      letters (read_headers w).2.line = [] ∧ (read_headers w).1 = letters w.line ∧
        find_header_end (letters w.line) = none ∧
        (letters w.line).length ≤ MAX_CLIENT_HEADER_SIZE := by
  obtain ⟨buf, last, drawn, ⟨done, ends⟩ | ⟨running, failed, ends⟩⟩ :=
    gather_exit headers_read (fun _ => 4096) [] w
  · have all : buf ++ letters last.line = letters w.line := drawn.letters
    simp only [read_headers, ends]
    by_cases found : (find_header_end buf).isSome = true
    · exact .inl ⟨by simp [found], by simpa [found] using all⟩
    · have long : MAX_CLIENT_HEADER_SIZE < buf.length := by
        simpa [headers_read, found] using done
      have size := congrArg List.length all
      rw [List.length_append] at size
      exact .inr (.inl ⟨by simp [found, long], by omega⟩)
  · have all : buf ++ letters last.line = letters w.line := drawn.letters
    have dry : letters last.line = [] := by
      by_contra more
      exact Wire.recv_some (drawn.flowing flowing) (by decide) more failed
    rw [dry, List.append_nil] at all
    rw [headers_read, Bool.or_eq_false_iff, decide_eq_false_iff_not, Nat.not_lt] at running
    have none : find_header_end buf = none :=
      Option.isNone_iff_eq_none.mp (Option.isSome_eq_false_iff.mp running.1)
    simp only [read_headers, ends, running.2, decide_true, Bool.or_true, if_true]
    exact .inr (.inr ⟨((Advances.refl last).recv _).dry dry, all, all ▸ none, all ▸ running.2⟩)

theorem read_headers_advances (w : Wire) : Advances w (read_headers w).2 :=
  (gather_drawn headers_read (fun _ => 4096) [] w).advances

theorem read_headers_flowing (flowing : Flowing w.line) : Flowing (read_headers w).2.line :=
  (gather_drawn headers_read (fun _ => 4096) [] w).flowing flowing

theorem found_behind (front : Bytes) {buf : Bytes} (found : (find_header_end buf).isSome = true) :
    (find_header_end (front ++ buf)).isSome = true := by
  by_contra missing
  have absent := Lib.Search.find_none.mp (Option.not_isSome_iff_eq_none.mp missing)
  have none : find_header_end buf = none :=
    Lib.Search.find_none.mpr fun inside => absent (inside.trans (List.suffix_append front buf).isInfix)
  rw [none] at found
  exact absurd found (by decide)

/-- What the loop goes on with: what was carried along, or that and all that it takes to have an
empty line. -/
def next_raw (carry : Bytes) (w : Wire) : Bytes × Wire :=
  if (find_header_end carry).isSome then (carry, w)
  else (carry ++ (read_headers w).1, (read_headers w).2)

theorem next_raw_advances (carry : Bytes) (w : Wire) : Advances w (next_raw carry w).2 := by
  unfold next_raw
  split
  · exact .refl w
  · exact read_headers_advances w

theorem next_raw_flowing (carry : Bytes) (flowing : Flowing w.line) :
    Flowing (next_raw carry w).2.line := by
  unfold next_raw
  split
  · exact flowing
  · exact read_headers_flowing flowing

theorem next_raw_small {carry text : Bytes} (flowing : Flowing w.line)
    (all : carry ++ letters w.line = text) (small : text.length ≤ MAX_CLIENT_HEADER_SIZE) :
    (next_raw carry w).1 ++ letters (next_raw carry w).2.line = text ∧
      ((find_header_end text).isSome = true → (find_header_end (next_raw carry w).1).isSome = true) := by
  unfold next_raw
  split
  · next found => exact ⟨all, fun _ => found⟩
  · have size := congrArg List.length all
    rw [List.length_append] at size
    rcases read_headers_cases flowing with ⟨found, rest⟩ | ⟨_, long⟩ | ⟨dry, read, _, _⟩
    · exact ⟨by rw [List.append_assoc, rest, all], fun _ => found_behind carry found⟩
    · omega
    · exact ⟨by rw [dry, read, List.append_nil, all], fun found => by rwa [read, all]⟩

theorem read_final_headers_succ (fuel : Nat) (carry : Bytes) (w : Wire) :
    read_final_headers (fuel + 1) carry w =
      if is_interim (next_raw carry w).1 then
        read_final_headers fuel ((find_header_end (next_raw carry w).1).elim [] fun header_end =>
          (next_raw carry w).1.drop (header_end + 4)) (next_raw carry w).2
      else next_raw carry w := by
  have same (raw : Bytes) : (!raw.isEmpty && is_interim raw) = is_interim raw := by
    cases raw with
    | nil => decide
    | cons c raw => rfl
  rw [read_final_headers]
  simp only [same]
  unfold next_raw
  split
  · rfl
  · rfl

end Reading

section Replies

def reads (headers : Headers) : Framing :=
  if is_chunked headers then .chunked else .length (get_content_length headers)

/-- A final response that closes the connection, or is read to its end and no further: the client
takes its framing as the fields name it, and its receiver takes all of it. -/
inductive Settled (e : Exchange) (head : Bytes) (code : Nat) (body : Bytes) : Prop
  | closes (named : closes (headers_of head) = true)
  | canceled (refuses : e.response_handler.any (fun response_handler =>
      !response_handler { status := (parse_header_section head).1, headers := headers_of head }) = true)
  | short (unframed : is_chunked (headers_of head) = false) (kept : e.content_receiver = none)
      (missing : body.length < get_content_length (headers_of head))
  | whole (ends : IsBody e.method code (headers_of head) body)
      (clear : Bodiless e.method code ∨ reads (headers_of head) = announces (headers_of head))
      (takes : ∀ receiver ∈ e.content_receiver, is_chunked (headers_of head) = false →
        Takes receiver body)

def Final (e : Exchange) (text : Bytes) : Prop :=
  ∃ code head rest, Head text code head rest ∧ ¬Interim code ∧ Settled e head code rest

/-- A final response behind interim ones, or nothing at all. -/
inductive Follows (e : Exchange) : Bytes → Prop
  | ended : Follows e []
  | final {text : Bytes} (final : Final e text) : Follows e text
  | interim {text head rest : Bytes} {code : Nat} (starts : Head text code head rest)
      (interim : Interim code) (more : Follows e rest) : Follows e text

/-- What a server may send for a request. What follows an interim response comes in pieces of its
own, or is no longer than headers may be. -/
inductive Proper (e : Exchange) : Line → Prop
  | ended {line : Line} (dry : letters line = []) : Proper e line
  | oversized {line : Line} (unfinished : find_header_end (letters line) = none)
      (long : MAX_CLIENT_HEADER_SIZE < (letters line).length) : Proper e line
  | final {line : Line} (final : Final e (letters line)) : Proper e line
  | interim {line : Line} {head rest : Bytes} {code : Nat} (starts : Head (letters line) code head rest)
      (interim : Interim code) (small : rest.length ≤ MAX_CLIENT_HEADER_SIZE)
      (more : Follows e rest) : Proper e line
  | apart {pieces : List Bytes} {back : Line} {head : Bytes} {code : Nat}
      (starts : Head pieces.flatten code head []) (interim : Interim code) (more : Proper e back) :
      Proper e (pieces.map .data ++ back)

/-- What the reading of the headers comes to: nothing, or the head of a final response, whose end is
the end of the reply. -/
structure Outcome (e : Exchange) (reply : Bytes) (w : Wire) (raw : Bytes) (w' : Wire) : Prop where
  advances : Advances w w'
  flowing : Flowing w'.line
  read : raw = [] ∨ ∃ code head extra rest, Head raw code head extra ∧ ¬Interim code ∧
    extra ++ letters w'.line = rest ∧ Settled e head code rest ∧
    (IsBody e.method code (headers_of head) rest → IsMessage e.method reply)

variable {e : Exchange} {w w' : Wire}

theorem Outcome.behind {text head rest raw : Bytes} {code : Nat} {w₁ : Wire}
    (starts : Head text code head rest) (interim : Interim code) (first : Advances w w₁)
    (outcome : Outcome e rest w₁ raw w') : Outcome e text w raw w' where
  advances := first.trans outcome.advances
  flowing := outcome.flowing
  read := by
    refine outcome.read.imp_right ?_
    rintro ⟨code', head', extra, body, found, final, all, settled, whole⟩
    exact ⟨code', head', extra, body, found, final, all, settled,
      fun ends => .interim starts interim (whole ends)⟩

theorem Final.outcome {text carry : Bytes} (final : Final e text) (flowing : Flowing w'.line)
    (advances : Advances w w') (all : carry ++ letters w'.line = text)
    (found : (find_header_end carry).isSome = true) :
    is_interim carry = false ∧ Outcome e text w carry w' := by
  obtain ⟨code, head, rest, starts, final, settled⟩ := final
  obtain ⟨extra, here, behind⟩ := starts.part all found
  refine ⟨by rw [here.is_interim, decide_eq_false final], advances, flowing, .inr ?_⟩
  exact ⟨code, head, extra, rest, here, final, behind, settled, fun ends => .final starts final ends⟩

theorem Final.found {text : Bytes} (final : Final e text) : (find_header_end text).isSome = true := by
  obtain ⟨code, head, rest, starts, _⟩ := final
  rw [starts.ends]
  rfl

/-- The loop goes on behind an interim response. -/
theorem Head.skip {text raw head rest : Bytes} {code : Nat} (starts : Head text code head rest)
    (interim : Interim code) (all : raw ++ letters w.line = text)
    (found : (find_header_end raw).isSome = true) :
    client.is_interim raw = true ∧ ∃ extra,
      ((find_header_end raw).elim [] fun header_end => raw.drop (header_end + 4)) = extra ∧
        extra ++ letters w.line = rest := by
  obtain ⟨extra, here, behind⟩ := starts.part all found
  refine ⟨by rw [here.is_interim, decide_eq_true interim], extra, ?_, behind⟩
  rw [here.ends, Option.elim_some, here.shape, ← List.append_assoc]
  exact List.drop_left' (by simp [CRLF])

theorem Head.shorter {text head rest : Bytes} {code : Nat} (starts : Head text code head rest) :
    rest.length + 4 ≤ text.length := by
  rw [starts.shape]
  simp only [List.length_append, CRLF, List.length_cons, List.length_nil]
  omega

theorem follows_outcome {text : Bytes} (follows : Follows e text) {fuel : Nat} {carry : Bytes}
    (enough : text.length ≤ fuel) (small : text.length ≤ MAX_CLIENT_HEADER_SIZE)
    (flowing : Flowing w.line) (all : carry ++ letters w.line = text) :
    Outcome e text w (read_final_headers (fuel + 1) carry w).1
      (read_final_headers (fuel + 1) carry w).2 := by
  induction follows generalizing fuel carry w with
  | ended =>
    obtain ⟨rest_all, _⟩ := next_raw_small flowing all small
    have nothing := (List.append_eq_nil_iff.mp rest_all).1
    rw [read_final_headers_succ, nothing, if_neg (by decide)]
    exact ⟨next_raw_advances carry w, next_raw_flowing carry flowing, .inl nothing⟩
  | final final =>
    obtain ⟨rest_all, finds⟩ := next_raw_small flowing all small
    obtain ⟨plain, outcome⟩ := final.outcome (next_raw_flowing carry flowing)
      (next_raw_advances carry w) rest_all (finds final.found)
    rw [read_final_headers_succ, plain, if_neg (by decide)]
    exact outcome
  | @interim text head rest code starts interim more ih =>
    obtain ⟨rest_all, finds⟩ := next_raw_small flowing all small
    obtain ⟨skips, extra, carried, behind⟩ :=
      starts.skip interim rest_all (finds (by rw [starts.ends]; rfl))
    have shorter := starts.shorter
    obtain ⟨fuel, rfl⟩ : ∃ n, fuel = n + 1 := ⟨fuel - 1, by omega⟩
    rw [read_final_headers_succ, skips, if_pos rfl, carried]
    exact (ih (by omega) (by omega) (next_raw_flowing carry flowing) behind).behind starts interim
      (next_raw_advances carry w)

theorem Head.extend {text head rest : Bytes} {code : Nat} (starts : Head text code head rest)
    (behind : Bytes) : Head (text ++ behind) code head (rest ++ behind) where
  shape := by rw [starts.shape, List.append_assoc, List.append_assoc]
  ends := Lib.Search.find_stable starts.ends behind
  status := starts.status

/-- The pieces of a head that is to be read, and what is behind them. -/
structure Leads (back : Line) (head_text : Bytes) (s : Bytes) (last : Wire) (pieces : List Bytes) :
    Prop where
  line : last.line = pieces.map .data ++ back
  text : s ++ pieces.flatten = head_text
  filled : ∀ piece ∈ pieces, piece ≠ []

theorem Leads.recv {back : Line} {head_text s : Bytes} {last : Wire} {piece : Bytes}
    {pieces : List Bytes} (leads : Leads back head_text s last (piece :: pieces)) :
    (last.recv 4096).1 ≠ [] ∧
      ∃ left, Leads back head_text (s ++ (last.recv 4096).1) (last.recv 4096).2 left := by
  have line := leads.line
  have text := leads.text
  have filled := leads.filled piece List.mem_cons_self
  have others := fun p inside => leads.filled p (List.mem_cons_of_mem piece inside)
  rw [List.map_cons, List.cons_append] at line
  rw [List.flatten_cons] at text
  unfold Wire.recv
  rw [line]
  dsimp only
  split
  · exact ⟨filled, pieces, rfl, by rw [List.append_assoc, text], others⟩
  · next long =>
    have taken : piece.take 4096 ≠ [] := by simp [filled]
    have left : piece.drop 4096 ≠ [] := by
      intro nothing
      rw [List.drop_eq_nil_iff] at nothing
      exact long nothing
    refine ⟨taken, piece.drop 4096 :: pieces, rfl, ?_, List.forall_mem_cons.mpr ⟨left, others⟩⟩
    rw [List.flatten_cons, List.append_assoc, ← List.append_assoc (piece.take 4096),
      List.take_append_drop, text]

/-- A head in pieces of its own is read without what is behind it, unless it is too long. -/
theorem read_headers_apart {pieces : List Bytes} {back : Line} {head : Bytes} {code : Nat}
    (starts : Head pieces.flatten code head []) (filled : ∀ piece ∈ pieces, piece ≠ [])
    (line : w.line = pieces.map .data ++ back) :
    (read_headers w).1 = [] ∨ (read_headers w).1 = pieces.flatten ∧ (read_headers w).2.line = back := by
  have some_left {s : Bytes} {last : Wire} {left : List Bytes}
      (leads : Leads back pieces.flatten s last left) (running : headers_read s = false) :
      ∃ piece more, left = piece :: more := by
    cases left with
    | nil =>
      have text := leads.text
      rw [List.flatten_nil, List.append_nil] at text
      rw [headers_read, text, starts.ends] at running
      exact absurd running (by simp)
    | cons piece more => exact ⟨piece, more, rfl⟩
  have step (s : Bytes) (last : Wire) (leads : ∃ left, Leads back pieces.flatten s last left)
      (running : headers_read s = false) (_ : (last.recv 4096).1 ≠ []) :
      ∃ left, Leads back pieces.flatten (s ++ (last.recv 4096).1) (last.recv 4096).2 left := by
    obtain ⟨left, leads⟩ := leads
    obtain ⟨piece, more, rfl⟩ := some_left leads running
    exact leads.recv.2
  have start : ∃ left, Leads back pieces.flatten [] w left := ⟨pieces, line, rfl, filled⟩
  obtain ⟨s, last, ⟨left, leads⟩, exit⟩ := reading_rule step start
  rcases exit with ⟨done, ends⟩ | ⟨running, failed, _⟩
  · have read : gather headers_read (fun _ => 4096) [] w = (s, last) := ends
    simp only [read_headers, read]
    by_cases found : (find_header_end s).isSome = true
    · obtain ⟨extra, here, nothing⟩ := starts.part leads.text found
      have none_left : left.flatten = [] := (List.append_eq_nil_iff.mp nothing).2
      have last_line := leads.line
      have text := leads.text
      cases left with
      | nil =>
        rw [List.flatten_nil, List.append_nil] at text
        exact .inr ⟨by rw [found, Bool.true_or, if_pos rfl, text], last_line⟩
      | cons piece more =>
        exact absurd (List.append_eq_nil_iff.mp none_left).1 (leads.filled piece List.mem_cons_self)
    · have long : MAX_CLIENT_HEADER_SIZE < s.length := by simpa [headers_read, found] using done
      exact .inl (by simp [found, long])
  · obtain ⟨piece, more, rfl⟩ := some_left leads running
    exact absurd failed leads.recv.1

theorem filled_of_flowing {pieces : List Bytes} {back : Line}
    (flowing : Flowing (pieces.map .data ++ back)) : ∀ piece ∈ pieces, piece ≠ [] := by
  induction pieces with
  | nil => simp
  | cons piece pieces ih => exact List.forall_mem_cons.mpr ⟨flowing.1, ih flowing.2⟩

theorem next_raw_nil (w : Wire) : next_raw [] w = read_headers w := by
  have none : (find_header_end []).isSome = false := by decide
  rw [next_raw, none, if_neg (by decide), List.nil_append]

theorem outcome_nothing {text : Bytes} {fuel : Nat} (flowing : Flowing w.line)
    (nothing : (read_headers w).1 = []) :
    Outcome e text w (read_final_headers (fuel + 1) [] w).1
      (read_final_headers (fuel + 1) [] w).2 := by
  rw [read_final_headers_succ, next_raw_nil, nothing, if_neg (by decide)]
  exact ⟨read_headers_advances w, read_headers_flowing flowing, .inl nothing⟩

theorem proper_outcome {line : Line} (proper : Proper e line) {fuel : Nat}
    (enough : (letters line).length ≤ fuel) (flowing : Flowing line) (same : w.line = line) :
    Outcome e (letters line) w (read_final_headers (fuel + 1) [] w).1
      (read_final_headers (fuel + 1) [] w).2 := by
  induction proper generalizing fuel w with
  | ended dry =>
    subst same
    rcases read_headers_cases flowing with ⟨found, all⟩ | ⟨nothing, _⟩ | ⟨_, read, _⟩
    · rw [dry] at all
      rw [(List.append_eq_nil_iff.mp all).1] at found
      exact absurd found (by decide)
    · exact outcome_nothing flowing nothing
    · exact outcome_nothing flowing (read.trans dry)
  | oversized unfinished long =>
    subst same
    rcases read_headers_cases flowing with ⟨found, all⟩ | ⟨nothing, _⟩ | ⟨_, _, _, short⟩
    · obtain ⟨n, here⟩ := Option.isSome_iff_exists.mp found
      have there := Lib.Search.find_stable here (letters (read_headers w).2.line)
      rw [all] at there
      exact absurd (there.symm.trans unfinished) (by simp)
    · exact outcome_nothing flowing nothing
    · omega
  | final final =>
    subst same
    rcases read_headers_cases flowing with ⟨found, all⟩ | ⟨nothing, _⟩ | ⟨_, _, none, _⟩
    · obtain ⟨plain, outcome⟩ :=
        final.outcome (read_headers_flowing flowing) (read_headers_advances w) all found
      rw [read_final_headers_succ, next_raw_nil, plain, if_neg (by decide)]
      exact outcome
    · exact outcome_nothing flowing nothing
    · exact absurd final.found (by rw [none]; decide)
  | interim starts interim small more =>
    subst same
    rcases read_headers_cases flowing with ⟨found, all⟩ | ⟨nothing, _⟩ | ⟨_, _, none, _⟩
    · obtain ⟨skips, extra, carried, behind⟩ := starts.skip interim all found
      have shorter := starts.shorter
      obtain ⟨fuel, rfl⟩ : ∃ n, fuel = n + 1 := ⟨fuel - 1, by omega⟩
      rw [read_final_headers_succ, next_raw_nil, skips, if_pos rfl, carried]
      exact (follows_outcome more (by omega) small (read_headers_flowing flowing) behind).behind
        starts interim (read_headers_advances w)
    · exact outcome_nothing flowing nothing
    · exact absurd starts.ends (by rw [none]; simp)
  | @apart pieces back head code starts interim more ih =>
    rcases read_headers_apart starts (filled_of_flowing flowing) same with nothing | ⟨read, line⟩
    · exact outcome_nothing (same ▸ flowing) nothing
    · have whole : (find_header_end pieces.flatten).isSome = true := by rw [starts.ends]; rfl
      have skips := starts.is_interim
      have shorter := starts.shorter
      rw [letters_data] at enough ⊢
      rw [List.length_append] at enough
      obtain ⟨fuel, rfl⟩ : ∃ n, fuel = n + 1 := ⟨fuel - 1, by omega⟩
      have carried : ((find_header_end pieces.flatten).elim [] fun header_end =>
          pieces.flatten.drop (header_end + 4)) = [] := by
        rw [starts.ends, Option.elim_some, List.drop_eq_nil_iff]
        conv_lhs => rw [starts.shape]
        simp [CRLF]
      rw [read_final_headers_succ, next_raw_nil, read, skips, decide_eq_true interim, if_pos rfl, carried]
      exact (ih (by omega) flowing.right line).behind (starts.extend (letters back)) interim
        (read_headers_advances w)

end Replies

end AoSdl.http.client
