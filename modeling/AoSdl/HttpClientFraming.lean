import AoSdl.HttpClient

/-! What a response is on the wire, and what the client's readers take of a line that brings it and
nothing else. -/
namespace AoSdl.http.client
open Lib.Arrivals

section Messages

/-- The three digits behind the first blank. -/
def status_of (head : Bytes) : Option Nat :=
  match Lib.Fields.splitFirst 32 head with
  | none => none
  | some (_, text) =>
    let digits := text.takeWhile Lib.Decimal.isDigit
    if digits.length = 3 then some (Lib.Decimal.value digits) else none

/-- A head with its status, up to the first empty line, and what is behind that. -/
structure Head (text : Bytes) (code : Nat) (head rest : Bytes) : Prop where
  shape : text = head ++ (CRLF ++ CRLF ++ rest)
  ends : find_header_end text = some head.length
  status : status_of head = some code

def Interim (code : Nat) : Prop := 100 ≤ code ∧ code < 200

instance (code : Nat) : Decidable (Interim code) := inferInstanceAs (Decidable (_ ∧ _))

def is_hex (c : UInt8) : Bool := (hex_digit_value c).isSome

def hex_value (digits : Bytes) : Nat :=
  digits.foldl (fun n c => n * 16 + (hex_digit_value c).getD 0) 0

/-- A chunk's size, with an extension or none. The chunk and its line end fit into memory. -/
structure SizeLine (line : Bytes) (n : Nat) : Prop where
  digits : line.takeWhile is_hex ≠ []
  value : hex_value (line.takeWhile is_hex) = n
  extension : ((line.dropWhile is_hex).dropWhile is_blank).head?.all (· = 59) = true
  clean : ¬[13, 10] <:+: line
  small : n + 2 < 2 ^ 64

/-- Chunks, the last chunk, trailer fields and an empty line. -/
inductive ChunkedBody : Bytes → Prop
  | chunk {line data rest : Bytes} (size : SizeLine line data.length) (some_ : data ≠ [])
      (more : ChunkedBody rest) : ChunkedBody (line ++ 13 :: 10 :: (data ++ 13 :: 10 :: rest))
  | last {line : Bytes} {fields : List Bytes} (size : SizeLine line 0)
      (each : ∀ field ∈ fields, field ≠ [] ∧ ¬[13, 10] <:+: field) :
      ChunkedBody (line ++ 13 :: 10 :: (Lib.Framing.lines 13 10 fields ++ [13, 10]))

/-- How a body ends. -/
inductive Framing where
  | chunked
  | length (n : Nat)
  | close
  deriving DecidableEq

def strip (value : Bytes) : Bytes := (value.dropWhile is_blank).rdropWhile is_blank

/-- The framing that the header fields name: the last transfer coding, or the one content length. -/
def announces (headers : Headers) : Framing :=
  match headers.equal_range (bytes "Transfer-Encoding") with
  | [] =>
    let value := strip (headers.get_header_value (bytes "Content-Length"))
    if !value.isEmpty && value.all Lib.Decimal.isDigit &&
        (headers.equal_range (bytes "Content-Length")).all fun field => strip field.2 = value then
      .length (Lib.Decimal.value value)
    else .close
  | [(_, te)] =>
    if (strip ((te.splitOn 44).getLastD [])).map tolower = bytes "chunked" then .chunked else .close
  | _ => .close

def Bodiless (method : Bytes) (code : Nat) : Prop := method = bytes "HEAD" ∨ code = 204 ∨ code = 304

instance (method : Bytes) (code : Nat) : Decidable (Bodiless method code) :=
  inferInstanceAs (Decidable (_ ∨ _))

/-- A body that ends only with the connection is none that a request can follow. -/
def IsBody (method : Bytes) (code : Nat) (headers : Headers) (body : Bytes) : Prop :=
  if Bodiless method code then body = []
  else
    match announces headers with
    | .chunked => ChunkedBody body
    | .length n => body.length = n
    | .close => False

def headers_of (head : Bytes) : Headers := (parse_header_section head).2

/-- A whole response, behind the interim responses that come with it. -/
inductive IsMessage (method : Bytes) : Bytes → Prop
  | interim {text head rest : Bytes} {code : Nat} (starts : Head text code head rest)
      (interim : Interim code) (more : IsMessage method rest) : IsMessage method text
  | final {text head rest : Bytes} {code : Nat} (starts : Head text code head rest)
      (final : ¬Interim code) (body : IsBody method code (headers_of head) rest) :
      IsMessage method text

end Messages

section Chunks

variable {line rest pending : Bytes} {w : Wire}

/-- The longer of two fronts of a text has the shorter one in front. -/
theorem append_split {a b c d : Bytes} (same : a ++ b = c ++ d) (longer : c.length ≤ a.length) :
    ∃ m, a = c ++ m ∧ m ++ b = d := by
  obtain ⟨m, rfl⟩ : c <+: a :=
    List.prefix_of_prefix_length_le ⟨d, same.symm⟩ (List.prefix_append a b) longer
  rw [List.append_assoc] at same
  exact ⟨m, rfl, List.append_cancel_left same⟩

theorem takeWhile_before {p : UInt8 → Bool} {c : UInt8} (stops : p c = false) (s t : Bytes) :
    (s ++ c :: t).takeWhile p = s.takeWhile p := by
  induction s with
  | nil => simp [stops]
  | cons a s ih => simp only [List.cons_append, List.takeWhile_cons, ih]

/-- A cut does not depend on what is behind it. -/
theorem cut_stable {s p r : Bytes} (t : Bytes) (cut : Lib.Framing.cutAt 13 10 s = some (p, r)) :
    Lib.Framing.cutAt 13 10 (s ++ t) = some (p, r ++ t) :=
  (Lib.Framing.delimited 13 10 cr_ne_lf).stable t cut

theorem read_line_drawn (pending : Bytes) (w : Wire) :
    ((Lib.Framing.cutAt 13 10 (read_line pending w).1).isSome = true ∧
        (read_line pending w).1 ++ coming (read_line pending w).2.line = pending ++ coming w.line) ∨
      ((Lib.Framing.cutAt 13 10 (read_line pending w).1).isSome = false ∧ (read_line pending w).1 = pending ++ coming w.line) :=
  gather_coming (fun pending => (Lib.Framing.cutAt 13 10 pending).isSome) (fun _ => 8192) (fun _ _ => by decide) pending w

theorem read_more_drawn (needed : Nat) (pending : Bytes) (w : Wire) :
    (decide (needed ≤ (read_more needed pending w).1.length) = true ∧ (read_more needed pending w).1 ++
        coming (read_more needed pending w).2.line = pending ++ coming w.line) ∨
      (decide (needed ≤ (read_more needed pending w).1.length) = false ∧
        (read_more needed pending w).1 = pending ++ coming w.line) :=
  gather_coming (fun pending => decide (needed ≤ pending.length)) (fun _ => 8192) (fun _ _ => by decide) pending w

theorem read_line_coming (cut : Lib.Framing.cutAt 13 10 (pending ++ coming w.line) = some (line, rest)) :
    ∃ left, Lib.Framing.cutAt 13 10 (read_line pending w).1 = some (line, left) ∧
      left ++ coming (read_line pending w).2.line = rest := by
  rcases read_line_drawn pending w with ⟨done, all⟩ | ⟨undone, all⟩
  · obtain ⟨⟨p, left⟩, here⟩ := Option.isSome_iff_exists.mp done
    have later := cut_stable (coming (read_line pending w).2.line) here
    rw [all, cut, Option.some.injEq, Prod.mk.injEq] at later
    obtain ⟨rfl, rfl⟩ := later
    exact ⟨left, here, rfl⟩
  · rw [all, cut] at undone
    cases undone

theorem read_line_uncut (cut : Lib.Framing.cutAt 13 10 (pending ++ coming w.line) = none) :
    Lib.Framing.cutAt 13 10 (read_line pending w).1 = none := by
  rcases read_line_drawn pending w with ⟨-, all⟩ | ⟨-, all⟩
  · cases here : Lib.Framing.cutAt 13 10 (read_line pending w).1 with
    | none => rfl
    | some parts =>
      have later := cut_stable (coming (read_line pending w).2.line) here
      rw [all, cut] at later
      cases later
  · rw [all, cut]

theorem read_more_coming (needed : Nat) (pending : Bytes) (w : Wire)
    (enough : needed ≤ (pending ++ coming w.line).length) :
    needed ≤ (read_more needed pending w).1.length ∧
      (read_more needed pending w).1 ++ coming (read_more needed pending w).2.line =
        pending ++ coming w.line := by
  rcases read_more_drawn needed pending w with ⟨done, all⟩ | ⟨undone, all⟩
  · exact ⟨of_decide_eq_true done, all⟩
  · rw [all] at undone
    exact absurd enough (of_decide_eq_false undone)

theorem read_line_flowing (flowing : Flowing w.line)
    (all : pending ++ letters w.line = line ++ 13 :: 10 :: rest) (clean : ¬[13, 10] <:+: line) :
    ∃ left, Lib.Framing.cutAt 13 10 (read_line pending w).1 = some (line, left) ∧
      left ++ letters (read_line pending w).2.line = rest ∧ Flowing (read_line pending w).2.line := by
  have flows : Flowing (read_line pending w).2.line := (gather_drawn _ _ pending w).flowing flowing
  rw [← flowing.all_come] at all
  obtain ⟨left, cut, behind⟩ := read_line_coming (all ▸ Lib.Framing.cutAt_append cr_ne_lf clean rest)
  exact ⟨left, cut, flows.all_come ▸ behind, flows⟩

theorem read_trailers_dry {fields : List Bytes}
    (each : ∀ field ∈ fields, field ≠ [] ∧ ¬[13, 10] <:+: field) {fuel : Nat}
    (enough : fields.length < fuel) (flowing : Flowing w.line)
    (all : pending ++ letters w.line = Lib.Framing.lines 13 10 fields ++ [13, 10]) :
    letters (read_trailers fuel pending w).line = [] := by
  induction fields generalizing fuel pending w with
  | nil =>
    obtain ⟨fuel, rfl⟩ : ∃ n, fuel = n + 1 := ⟨fuel - 1, by simp at enough; omega⟩
    have empty : pending ++ letters w.line = [] ++ 13 :: 10 :: [] := all
    obtain ⟨left, cut, ends, _⟩ := read_line_flowing flowing empty (by simp)
    simp only [read_trailers, cut, List.isEmpty_nil, if_true]
    exact (List.append_eq_nil_iff.mp ends).2
  | cons field fields ih =>
    obtain ⟨fuel, rfl⟩ : ∃ n, fuel = n + 1 := ⟨fuel - 1, by simp at enough; omega⟩
    obtain ⟨filled, clean⟩ := each field List.mem_cons_self
    rw [Lib.Framing.lines_cons, List.append_assoc, List.cons_append, List.cons_append] at all
    obtain ⟨left, cut, more, flows⟩ := read_line_flowing flowing all clean
    simp only [read_trailers, cut, List.isEmpty_iff, filled, if_false]
    rw [List.length_cons] at enough
    exact ih (fun f inside => each f (List.mem_cons_of_mem field inside)) (by omega) flows more

/-- The reader of chunk data gets them with their line end, where they come. -/
theorem read_more_chunk {data : Bytes} (all : pending ++ coming w.line = data ++ 13 :: 10 :: rest) :
    ∃ left, (read_more (data.length + 2) pending w).1 = data ++ 13 :: 10 :: left ∧
      left ++ coming (read_more (data.length + 2) pending w).2.line = rest := by
  have enough : data.length + 2 ≤ (pending ++ coming w.line).length := by simp [all]
  obtain ⟨size, drawn⟩ := read_more_coming _ pending w enough
  have shape : (read_more (data.length + 2) pending w).1 ++
      coming (read_more (data.length + 2) pending w).2.line = (data ++ [13, 10]) ++ rest := by
    rw [drawn, all, List.append_assoc]
    rfl
  obtain ⟨left, got, behind⟩ := append_split shape (by simpa using size)
  exact ⟨left, by rw [got, List.append_assoc]; rfl, behind⟩

theorem read_more_flowing {data : Bytes} (flowing : Flowing w.line)
    (all : pending ++ letters w.line = data ++ 13 :: 10 :: rest) :
    ∃ left, (read_more (data.length + 2) pending w).1 = data ++ 13 :: 10 :: left ∧
      left ++ letters (read_more (data.length + 2) pending w).2.line = rest ∧
      Flowing (read_more (data.length + 2) pending w).2.line := by
  have flows : Flowing (read_more (data.length + 2) pending w).2.line :=
    (gather_drawn _ _ pending w).flowing flowing
  obtain ⟨left, got, behind⟩ := read_more_chunk (flowing.all_come ▸ all)
  exact ⟨left, got, flows.all_come ▸ behind, flows⟩

/-- The size that is read is not changed by an extension. -/
theorem from_chars_size (line : Bytes) :
    from_chars_hex ((Lib.Fields.splitFirst 59 line).elim line (·.1)) =
      if line.takeWhile is_hex = [] then none
      else (some (hex_value (line.takeWhile is_hex))).filter (· < 2 ^ 64) := by
  have same : ((Lib.Fields.splitFirst 59 line).elim line (·.1)).takeWhile is_hex =
      line.takeWhile is_hex := by
    cases split : Lib.Fields.splitFirst 59 line with
    | none => rfl
    | some parts =>
      rw [(Lib.Fields.splitFirst_some split).1, Option.elim_some, takeWhile_before (by decide)]
  unfold from_chars_hex
  change (if (List.takeWhile is_hex _).isEmpty = true then none
    else (some (hex_value (List.takeWhile is_hex _))).filter _) = _
  simp only [same, List.isEmpty_iff]

theorem SizeLine.read {n : Nat} (size : SizeLine line n) :
    from_chars_hex ((Lib.Fields.splitFirst 59 line).elim line (·.1)) = some n := by
  have small := size.small
  rw [from_chars_size, if_neg size.digits, size.value, Option.filter_some, if_pos]
  exact decide_eq_true (by omega)

theorem length_le_lines (fields : List Bytes) :
    fields.length ≤ (Lib.Framing.lines 13 10 fields).length := by
  induction fields with
  | nil => exact Nat.le_refl 0
  | cons field fields ih =>
    simp only [Lib.Framing.lines_cons, List.length_append, List.length_cons]
    omega

theorem read_chunks_dry {text : Bytes} (chunked : ChunkedBody text) {fuel : Nat} {body : Bytes}
    (enough : text.length < fuel) (flowing : Flowing w.line) (all : pending ++ letters w.line = text) :
    letters (read_chunks fuel body pending w).2.line = [] := by
  induction chunked generalizing fuel body pending w with
  | @chunk line data rest size some_ more ih =>
    obtain ⟨fuel, rfl⟩ : ∃ n, fuel = n + 1 := ⟨fuel - 1, by omega⟩
    obtain ⟨left, cut, behind, flows⟩ := read_line_flowing flowing all size.clean
    obtain ⟨left', got, behind', flows'⟩ := read_more_flowing flows behind
    have fits : (data.length + 2) % 2 ^ 64 = data.length + 2 := Nat.mod_eq_of_lt size.small
    have positive : data.length ≠ 0 := mt List.length_eq_zero_iff.mp some_
    have read := size.read
    simp only [read_chunks, cut, read, fits]
    rw [got, if_pos (by simp), List.drop_append, List.drop_eq_nil_of_le (by omega),
      Nat.add_sub_cancel_left]
    refine ih ?_ flows' behind'
    simp at enough
    omega
  | @last line fields size each =>
    obtain ⟨fuel, rfl⟩ : ∃ n, fuel = n + 1 := ⟨fuel - 1, by omega⟩
    obtain ⟨left, cut, behind, flows⟩ := read_line_flowing flowing all size.clean
    have read := size.read
    simp only [read_chunks, cut, read]
    refine read_trailers_dry each ?_ flows behind
    have many := length_le_lines fields
    simp at enough
    omega

end Chunks

section Bodies

variable {w : Wire}

theorem read_line_advances (pending : Bytes) (w : Wire) : Advances w (read_line pending w).2 :=
  (gather_drawn _ _ _ _).advances

theorem read_more_advances (needed : Nat) (pending : Bytes) (w : Wire) :
    Advances w (read_more needed pending w).2 := (gather_drawn _ _ _ _).advances

theorem read_trailers_advances (fuel : Nat) (pending : Bytes) (w : Wire) :
    Advances w (read_trailers fuel pending w) := by
  induction fuel generalizing pending w with
  | zero => exact .refl w
  | succ fuel ih =>
    unfold read_trailers
    dsimp only
    have first := read_line_advances pending w
    split
    · exact first
    · split
      · exact first
      · exact first.trans (ih _ _)

theorem read_chunks_advances (fuel : Nat) (body pending : Bytes) (w : Wire) :
    Advances w (read_chunks fuel body pending w).2 := by
  induction fuel generalizing body pending w with
  | zero => exact .refl w
  | succ fuel ih =>
    unfold read_chunks
    dsimp only
    have first := read_line_advances pending w
    split
    · exact first
    · split
      · exact first.trans (read_trailers_advances _ _ _)
      · exact first.trans (read_trailers_advances _ _ _)
      · split
        · exact (first.trans (read_more_advances _ _ _)).trans (ih _ _ _)
        · exact first.trans (read_more_advances _ _ _)

theorem read_body_advances (body_start : Bytes) (content_length : Nat) (w : Wire) :
    Advances w (read_body body_start content_length w).2.2 := by
  unfold read_body
  split
  · exact .refl w
  · exact (gather_drawn _ _ _ _).advances

/-- What the streaming reader has when it asks for more: the pieces begin with what came with the head, and
go on with what comes, up to the length and up to a piece that is refused. -/
structure Streamed (body_start : Bytes) (content_length : Nat) (receiver : ContentReceiver) (w : Wire)
    (s : List Bytes × Bool) (last : Wire) : Prop where
  drawn : Drawn w body_start last s.1.flatten
  all : s.1.flatten ++ coming last.line = body_start ++ coming w.line
  front : body_start <+: s.1.flatten
  bound : s.1.flatten.length ≤ max body_start.length content_length
  filled : s.1.flatten = [] → s.1 = []
  refused : s.2 = false → s.1 ≠ [] ∧ receiver s.1 = false

theorem flatten_hand (receiver : ContentReceiver) (s : List Bytes × Bool) (piece : Bytes) :
    (hand receiver s piece).1.flatten = s.1.flatten ++ piece := by simp [hand]

variable {body_start : Bytes} {content_length : Nat} {receiver : ContentReceiver} {last : Wire}
  {s : List Bytes × Bool}

theorem Streamed.step (streamed : Streamed body_start content_length receiver w s last)
    (running : (!s.2 || decide (content_length ≤ s.1.flatten.length)) = false)
    (got : (last.recv (min 8192 (content_length - s.1.flatten.length))).1 ≠ []) :
    Streamed body_start content_length receiver w
      (hand receiver s (last.recv (min 8192 (content_length - s.1.flatten.length))).1)
      (last.recv (min 8192 (content_length - s.1.flatten.length))).2 := by
  rw [Bool.or_eq_false_iff, decide_eq_false_iff_not] at running
  have short := Wire.length_recv_le (min 8192 (content_length - s.1.flatten.length)) last
  have shape := flatten_hand receiver s (last.recv (min 8192 (content_length - s.1.flatten.length))).1
  constructor
  · rw [shape]
    exact streamed.drawn.recv _
  · rw [shape, List.append_assoc, Wire.recv_coming got, streamed.all]
  · rw [shape]
    exact streamed.front.trans (List.prefix_append _ _)
  · rw [shape, List.length_append]
    omega
  · intro nothing
    rw [shape] at nothing
    exact absurd (List.append_eq_nil_iff.mp nothing).2 got
  · exact fun refused => ⟨List.concat_ne_nil _ _, refused⟩

theorem streamed_start (body_start : Bytes) (content_length : Nat) (receiver : ContentReceiver) (w : Wire) :
    Streamed body_start content_length receiver w
      (if body_start.isEmpty then ([], true) else hand receiver ([], true) body_start) w := by
  split
  · next empty =>
    rw [List.isEmpty_iff.mp empty]
    exact ⟨⟨rfl, .refl w, id⟩, rfl, List.prefix_refl [], Nat.zero_le _, fun _ => rfl, nofun⟩
  · next filled =>
    have shape := flatten_hand receiver ([], true) body_start
    refine ⟨shape ▸ ⟨rfl, .refl w, id⟩, by rw [shape]; rfl, by rw [shape]; exact List.prefix_refl _,
      by rw [shape]; exact Nat.le_max_left _ _, fun nothing => ?_, fun refused => ⟨List.cons_ne_nil _ _, refused⟩⟩
    rw [shape] at nothing
    exact absurd (List.isEmpty_iff.mpr nothing) filled

/-- The reader goes on until the body is complete, the receiver refuses or a read fails. -/
theorem read_body_streaming_exit (body_start : Bytes) (content_length : Nat) (receiver : ContentReceiver)
    (w : Wire) :
    ∃ last, Streamed body_start content_length receiver w
        (read_body_streaming body_start content_length receiver w).1 last ∧
      Drawn w body_start (read_body_streaming body_start content_length receiver w).2
        (read_body_streaming body_start content_length receiver w).1.1.flatten ∧
      ((read_body_streaming body_start content_length receiver w).1.2 = false ∨
        content_length ≤ (read_body_streaming body_start content_length receiver w).1.1.flatten.length ∨
        coming last.line = []) := by
  obtain ⟨s, last, streamed, ⟨done, ends⟩ | ⟨running, failed, ends⟩⟩ :=
    reading_rule (fun _ _ streamed => streamed.step) (streamed_start body_start content_length receiver w)
  · have same : read_body_streaming body_start content_length receiver w = (s, last) := ends
    rw [same]
    rw [Bool.or_eq_true_iff, Bool.not_eq_true', decide_eq_true_iff] at done
    exact ⟨last, streamed, streamed.drawn, done.imp_right .inl⟩
  · have same : read_body_streaming body_start content_length receiver w = (s, _) := ends
    rw [Bool.or_eq_false_iff, decide_eq_false_iff_not] at running
    have next := streamed.drawn.recv (min 8192 (content_length - s.1.flatten.length))
    rw [failed, List.append_nil] at next
    rw [same]
    exact ⟨last, streamed, next, .inr (.inr (Wire.coming_of_failed (by omega) failed))⟩

theorem read_body_streaming_advances (body_start : Bytes) (content_length : Nat)
    (receiver : ContentReceiver) (w : Wire) :
    Advances w (read_body_streaming body_start content_length receiver w).2 := by
  obtain ⟨_, _, drawn, _⟩ := read_body_streaming_exit body_start content_length receiver w
  exact drawn.advances

/-- A body of known length is complete once nothing of it is left. -/
theorem read_body_dry {body_start : Bytes} {content_length : Nat}
    (all : (body_start ++ letters w.line).length ≤ content_length)
    (complete : (read_body body_start content_length w).2.1 = true) :
    (body_start ++ letters w.line).length = content_length ∧
      letters (read_body body_start content_length w).2.2.line = [] := by
  rw [List.length_append] at all ⊢
  by_cases long : content_length ≤ body_start.length
  · have dry : (letters w.line).length = 0 := by omega
    rw [read_body, if_pos long]
    exact ⟨by omega, List.length_eq_zero_iff.mp dry⟩
  · have drawn : Drawn w body_start (read_body body_start content_length w).2.2
        (read_body body_start content_length w).1 := by
      rw [read_body, if_neg long]
      exact gather_drawn _ _ _ _
    have enough : content_length ≤ (read_body body_start content_length w).1.length := by
      rw [read_body, if_neg long] at complete ⊢
      exact of_decide_eq_true complete
    have same := congrArg List.length drawn.letters
    rw [List.length_append, List.length_append] at same
    exact ⟨by omega, List.length_eq_zero_iff.mp (by omega)⟩

/-- The receiver takes what it is handed of the body, up to the piece that completes it. -/
def Takes (receiver : ContentReceiver) (body : Bytes) : Prop :=
  ∀ given : List Bytes, given.flatten <+: body → given.flatten ≠ body → receiver given = true

/-- Of a body that comes, and that the receiver does not refuse, the reader gets all. -/
theorem read_body_streaming_coming {body_start body : Bytes} {receiver : ContentReceiver}
    (fits : body_start.length ≤ body.length) (front : body <+: body_start ++ coming w.line)
    (takes : Takes receiver body) :
    (read_body_streaming body_start body.length receiver w).1.1.flatten = body := by
  obtain ⟨last, streamed, _, ends⟩ := read_body_streaming_exit body_start body.length receiver w
  have inside : (read_body_streaming body_start body.length receiver w).1.1.flatten <+: body :=
    List.prefix_of_prefix_length_le ⟨_, streamed.all⟩ front (streamed.bound.trans (by omega))
  by_contra other
  rcases ends with refused | long | dry
  · have goes := takes _ inside other
    rw [(streamed.refused refused).2] at goes
    cases goes
  · exact other (inside.eq_of_length_le long)
  · have all := streamed.all
    rw [dry, List.append_nil] at all
    rw [← all] at front
    exact other (inside.eq_of_length_le front.length_le)

theorem read_body_streaming_dry {body_start body : Bytes} {receiver : ContentReceiver}
    (flowing : Flowing w.line) (all : body_start ++ letters w.line = body)
    (takes : Takes receiver body) :
    letters (read_body_streaming body_start body.length receiver w).2.line = [] := by
  obtain ⟨_, _, drawn, _⟩ := read_body_streaming_exit body_start body.length receiver w
  have whole : (read_body_streaming body_start body.length receiver w).1.1.flatten = body :=
    read_body_streaming_coming (by simp [← all]) (by rw [flowing.all_come, all]) takes
  have rest := drawn.letters
  rw [whole, all] at rest
  exact List.append_right_eq_self.mp rest

end Bodies

end AoSdl.http.client
