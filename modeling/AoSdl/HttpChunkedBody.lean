import AoSdl.HttpClientFraming
import AoSdl.Lib.Segments

/-! Chunked bodies: what the client's reader makes of every finite stream, however its bytes come in,
and which of them are chunk data. -/
namespace AoSdl.http.client

open Lib.Arrivals Lib.Framing

/-- The sizes to which the reader adds the length of a line end. -/
def chunk_sizes : Nat → Bytes → Wire → List Nat
  | 0, _, _ => []
  | fuel + 1, pending, w =>
    let (pending, w) := read_line pending w
    match cutAt 13 10 pending with
    | none => []
    | some (size_line, pending) =>
      let size_str := (Lib.Fields.splitFirst 59 size_line).elim size_line (·.1)
      match from_chars_hex size_str with
      | none | some 0 => []
      | some chunk_size =>
        let needed := (chunk_size + 2) % 2 ^ 64
        let (pending, w) := read_more needed pending w
        chunk_size ::
          if needed ≤ pending.length then chunk_sizes fuel (pending.drop needed) w else []

/-- A size line with its number, whatever that is. -/
structure Sized (line : Bytes) (n : Nat) : Prop where
  digits : line.takeWhile is_hex ≠ []
  value : hex_value (line.takeWhile is_hex) = n
  extension : ((line.dropWhile is_hex).dropWhile is_blank).head?.all (· = 59) = true

/-- Chunks of these data, the last chunk, trailer fields and the empty line. -/
inductive Encodes : List Bytes → Bytes → Prop
  | chunk {line data rest : Bytes} {chunks : List Bytes} (size : SizeLine line data.length)
      (some_ : data ≠ []) (more : Encodes chunks rest) :
      Encodes (data :: chunks) (line ++ 13 :: 10 :: (data ++ 13 :: 10 :: rest))
  | last {line : Bytes} {fields : List Bytes} (size : SizeLine line 0)
      (each : ∀ field ∈ fields, field ≠ [] ∧ ¬[13, 10] <:+: field) :
      Encodes [] (line ++ 13 :: 10 :: (Lib.Framing.lines 13 10 fields ++ [13, 10]))

/-- The chunk data of a stream that need not be well formed: they end where no chunk starts, and
behind a chunk that has no line end. -/
inductive ChunkData : Bytes → Bytes → Prop
  | stop {s : Bytes} (none : ∀ line rest n, cutAt 13 10 s = some (line, rest) → Sized line n → n = 0) :
      ChunkData s []
  | unended {s line rest : Bytes} {n : Nat} (cut : cutAt 13 10 s = some (line, rest)) (size : Sized line n)
      (some_ : n ≠ 0) (other : ¬ CRLF <+: rest.drop n) : ChunkData s (rest.take n)
  | chunk {s line rest behind more : Bytes} {n : Nat} (cut : cutAt 13 10 s = some (line, rest))
      (size : Sized line n) (some_ : n ≠ 0) (ended : rest.drop n = 13 :: 10 :: behind)
      (next : ChunkData behind more) : ChunkData s (rest.take n ++ more)

/-- The number that the line in front starts with, and what is behind the line. -/
def announced_chunk (s : Bytes) : Option (Nat × Bytes) :=
  match cutAt 13 10 s with
  | none => none
  | some (line, rest) =>
    if line.takeWhile is_hex = [] then none else some (hex_value (line.takeWhile is_hex), rest)

/-- Whole chunks lead from one place of a stream to a later one. -/
inductive Behind : Bytes → Bytes → Prop
  | here {s : Bytes} : Behind s s
  | next {s line data rest t : Bytes} (cut : cutAt 13 10 s = some (line, data ++ 13 :: 10 :: rest))
      (size : SizeLine line data.length) (some_ : data ≠ []) (more : Behind rest t) : Behind s t

/-- Nothing is behind a size that the reader takes, and the size does not wrap. -/
def Harmless (s : Bytes) : Prop :=
  ∀ n rest, announced_chunk s = some (n, rest) → n ≠ 0 → n < 2 ^ 64 → n + 2 < 2 ^ 64 ∧ rest = []

/-- What the reader takes for a chunk is one. -/
structure SoundChunk (s : Bytes) : Prop where
  small : ∀ n rest, announced_chunk s = some (n, rest) → n < 2 ^ 64 → n + 2 < 2 ^ 64
  formed : ∀ line rest n, cutAt 13 10 s = some (line, rest) → announced_chunk s = some (n, rest) →
    n ≠ 0 → n < 2 ^ 64 → rest ≠ [] → Sized line n
  ended : ∀ n rest, announced_chunk s = some (n, rest) → n ≠ 0 → n < 2 ^ 64 → n + 2 ≤ rest.length →
    ¬ CRLF <+: rest.drop n → Harmless (rest.drop (n + 2))

/-- Bytes that came with the header, the reads behind them, and a read that fails. -/
structure Stream where
  initial : Bytes
  pieces : List Bytes
  back : Line := []
  sized : ∀ p ∈ pieces, p ≠ [] ∧ p.length ≤ 8192

namespace Stream

variable (s : Stream)

def bytes : Bytes := s.initial ++ s.pieces.flatten

def wire : Wire := { line := s.pieces.map .data ++ .fails :: s.back }

/-- A well-formed body is read up to its end, and no further; of any other stream nothing but chunk
data is taken. -/
structure Decoded : Prop where
  whole : ∀ chunks text extra, Encodes chunks text → s.bytes = text ++ extra →
    (read_chunked_body s.initial s.wire).1 = chunks.flatten ∧
      (read_chunked_body s.initial s.wire).2.line =
        (upto (text.length - s.initial.length) s.pieces).2.map .data ++ .fails :: s.back
  ends : ∀ fuel, s.initial.length + (letters s.wire.line).length < fuel →
    read_chunks fuel [] s.initial s.wire = read_chunked_body s.initial s.wire ∧
      chunk_sizes fuel s.initial s.wire =
        chunk_sizes (s.initial.length + (letters s.wire.line).length + 1) s.initial s.wire
  exact_sums : ∀ n ∈ chunk_sizes (s.initial.length + (letters s.wire.line).length + 1) s.initial s.wire,
    n + 2 < 2 ^ 64
  chunk_data : ∃ data, ChunkData s.bytes data ∧ (read_chunked_body s.initial s.wire).1 <+: data

end Stream

section Pieces

variable {ps : List Bytes} {pending line rest : Bytes} {taken : Bytes} {back : Line}

theorem prefix_of_append (pending : Bytes) {q : Bytes} (front : q <+: ps.flatten) :
    pending ++ q <+: pending ++ ps.flatten :=
  (List.prefix_append_right_inj pending).mpr front

/-- A line is complete from its last byte on. -/
theorem line_threshold (cut : cutAt 13 10 (pending ++ ps.flatten) = some (line, rest)) {q : Bytes}
    (front : q <+: ps.flatten) :
    (cutAt 13 10 (pending ++ q)).isSome = true ↔ line.length + 2 - pending.length ≤ q.length := by
  have text := cutAt_eq cut
  constructor
  · intro complete
    obtain ⟨⟨l, left⟩, here⟩ := Option.isSome_iff_exists.mp complete
    obtain ⟨t, all⟩ := prefix_of_append pending front
    have later := cut_stable t here
    rw [all, cut, Option.some.injEq, Prod.mk.injEq] at later
    have lengths := congrArg List.length (cutAt_eq here)
    simp only [List.length_append, List.length_cons, ← later.1] at lengths
    omega
  · intro enough
    have longer : (line ++ [13, 10]).length ≤ (pending ++ q).length := by
      simp only [List.length_append, List.length_cons, List.length_nil]
      omega
    have starts : line ++ [13, 10] <+: pending ++ ps.flatten := by
      rw [text]
      exact ⟨rest, by simp⟩
    obtain ⟨left, shape⟩ := List.prefix_of_prefix_length_le starts (prefix_of_append pending front) longer
    rw [← shape, List.append_assoc]
    exact congrArg Option.isSome (cutAt_append cr_ne_lf (cutAt_clean cut) left)

/-- Reading a line takes the pieces up to the one that completes it. -/
theorem read_line_pieces (taken : Bytes) (back : Line) (pieces : ∀ p ∈ ps, p ≠ [] ∧ p.length ≤ 8192)
    (cut : cutAt 13 10 (pending ++ ps.flatten) = some (line, rest)) :
    ∃ left, left ++ (upto (line.length + 2 - pending.length) ps).2.flatten = rest ∧
      cutAt 13 10 (read_line pending ⟨taken, ps.map .data ++ back⟩).1 = some (line, left) ∧
      left.length + (line.length + 2) = pending.length + reach (line.length + 2 - pending.length) ps ∧
      (read_line pending ⟨taken, ps.map .data ++ back⟩).2 =
        ⟨taken ++ (upto (line.length + 2 - pending.length) ps).1.flatten,
          (upto (line.length + 2 - pending.length) ps).2.map .data ++ back⟩ := by
  have lengths := congrArg List.length (cutAt_eq cut)
  simp only [List.length_append, List.length_cons] at lengths
  have enough : line.length + 2 - pending.length ≤ ps.flatten.length := by omega
  have threshold : ∀ q, q <+: ps.flatten → ((cutAt 13 10 (pending ++ q)).isSome = true ↔
      line.length + 2 - pending.length ≤ q.length) := fun _ => line_threshold cut
  have front : (upto (line.length + 2 - pending.length) ps).1.flatten <+: ps.flatten := ⟨_, upto_flatten _ ps⟩
  have read : read_line pending ⟨taken, ps.map .data ++ back⟩ = _ :=
    gather_upto taken back pieces threshold enough
  have complete := (line_threshold cut front).mpr (le_reach enough)
  obtain ⟨⟨l, left⟩, here⟩ := Option.isSome_iff_exists.mp complete
  have later := cut_stable (upto (line.length + 2 - pending.length) ps).2.flatten here
  rw [List.append_assoc, upto_flatten, cut, Option.some.injEq, Prod.mk.injEq] at later
  obtain ⟨rfl, behind⟩ := later
  refine ⟨left, behind.symm, by rw [read, here], ?_, by rw [read]⟩
  have size := congrArg List.length (cutAt_eq here)
  simp only [List.length_append, List.length_cons] at size
  rw [reach]
  omega

theorem pieces_behind (pieces : ∀ p ∈ ps, p ≠ [] ∧ p.length ≤ 8192) (m : Nat) :
    ∀ p ∈ (upto m ps).2, p ≠ [] ∧ p.length ≤ 8192 := by
  intro p member
  refine pieces p ?_
  rw [← upto_append m ps]
  exact List.mem_append_right _ member

/-- Reading on takes the pieces up to the one that brings enough. -/
theorem read_more_pieces (taken : Bytes) (back : Line) (pieces : ∀ p ∈ ps, p ≠ [] ∧ p.length ≤ 8192)
    {needed : Nat} (enough : needed ≤ (pending ++ ps.flatten).length) :
    ∃ (got : Bytes) (qs : List Bytes) (taken' : Bytes),
      read_more needed pending ⟨taken, ps.map .data ++ back⟩ = (got, ⟨taken', qs.map .data ++ back⟩) ∧
      needed ≤ got.length ∧ got ++ qs.flatten = pending ++ ps.flatten ∧
      (∀ p ∈ qs, p ≠ [] ∧ p.length ≤ 8192) ∧
      got.length = pending.length + reach (needed - pending.length) ps ∧
      qs = (upto (needed - pending.length) ps).2 := by
  rw [List.length_append] at enough
  have come : needed - pending.length ≤ reach (needed - pending.length) ps := le_reach (by omega)
  have threshold : ∀ q, q <+: ps.flatten → (decide (needed ≤ (pending ++ q).length) = true ↔
      needed - pending.length ≤ q.length) := by
    intro q _
    rw [decide_eq_true_iff, List.length_append]
    omega
  refine ⟨_, _, _, gather_upto taken back pieces threshold (by omega), ?_, ?_, pieces_behind pieces _, ?_, rfl⟩
  · rw [List.length_append, ← reach]
    omega
  · rw [List.append_assoc, upto_flatten]
  · rw [List.length_append, ← reach]

end Pieces

/-- What the reader takes of a stream, and nothing where the sum for a size wraps. -/
inductive TakesChunks : Bytes → Option Bytes → Prop
  | stop {s : Bytes} (none : ∀ n rest, announced_chunk s = some (n, rest) → n < 2 ^ 64 → n = 0) :
      TakesChunks s (some [])
  | wraps {s rest : Bytes} {n : Nat} (size : announced_chunk s = some (n, rest)) (low : n < 2 ^ 64)
      (high : 2 ^ 64 ≤ n + 2) : TakesChunks s none
  | short {s rest : Bytes} {n : Nat} (size : announced_chunk s = some (n, rest)) (some_ : n ≠ 0)
      (small : n + 2 < 2 ^ 64) (missing : rest.length < n + 2) : TakesChunks s (some (rest.take n))
  | chunk {s rest : Bytes} {n : Nat} {more : Option Bytes} (size : announced_chunk s = some (n, rest))
      (some_ : n ≠ 0) (small : n + 2 < 2 ^ 64) (enough : n + 2 ≤ rest.length)
      (next : TakesChunks (rest.drop (n + 2)) more) : TakesChunks s (more.map (rest.take n ++ ·))

/-- What a reader makes of it: the bytes behind those it has, and sums that do not wrap, or one that
does. -/
def Made (body read : Bytes) (sizes : List Nat) : Option Bytes → Prop
  | some more => read = body ++ more ∧ ∀ n ∈ sizes, n + 2 < 2 ^ 64
  | none => ∃ n ∈ sizes, 2 ^ 64 ≤ n + 2

section Runs

variable {s rest : Bytes} {n : Nat}

theorem announced_cut (size : announced_chunk s = some (n, rest)) :
    ∃ line, cutAt 13 10 s = some (line, rest) ∧ line.takeWhile is_hex ≠ [] ∧
      hex_value (line.takeWhile is_hex) = n := by
  unfold announced_chunk at size
  cases cut : cutAt 13 10 s with
  | none => simp [cut] at size
  | some parts =>
    obtain ⟨line, behind⟩ := parts
    simp only [cut] at size
    split at size
    · cases size
    · next digits =>
      obtain ⟨rfl, rfl⟩ := Prod.mk.inj (Option.some.inj size)
      exact ⟨line, rfl, digits, rfl⟩

theorem announced_shorter (size : announced_chunk s = some (n, rest)) : rest.length < s.length := by
  obtain ⟨line, cut, _⟩ := announced_cut size
  rw [cutAt_eq cut]
  simp
  omega

/-- The reader parses the number that the line starts with, if it fits into a word. -/
theorem from_chars_line {line : Bytes} (cut : cutAt 13 10 s = some (line, rest)) :
    from_chars_hex ((Lib.Fields.splitFirst 59 line).elim line (·.1)) =
      ((announced_chunk s).map Prod.fst).filter (· < 2 ^ 64) := by
  rw [from_chars_size, announced_chunk, cut]
  dsimp only
  split <;> rfl

theorem exists_takes_chunks (s : Bytes) : ∃ more, TakesChunks s more := by
  induction length : s.length using Nat.strong_induction_on generalizing s with
  | _ m ih =>
    by_cases some_chunk : ∃ n rest, announced_chunk s = some (n, rest) ∧ n < 2 ^ 64 ∧ n ≠ 0
    · obtain ⟨n, rest, size, low, positive⟩ := some_chunk
      by_cases small : n + 2 < 2 ^ 64
      · by_cases enough : n + 2 ≤ rest.length
        · have shorter := announced_shorter size
          have less : (rest.drop (n + 2)).length < m := by
            rw [List.length_drop]
            omega
          obtain ⟨more, next⟩ := ih _ less _ rfl
          exact ⟨_, .chunk size positive small enough next⟩
        · exact ⟨_, .short size positive small (Nat.not_le.mp enough)⟩
      · exact ⟨_, .wraps size low (Nat.not_lt.mp small)⟩
    · refine ⟨_, .stop fun n rest size low => ?_⟩
      by_contra positive
      exact some_chunk ⟨n, rest, size, low, positive⟩

section Steps

variable {pending line left : Bytes} {w : Wire} (fuel : Nat) (body : Bytes)

/-- What the reader takes for the number of a line. -/
abbrev line_number (line : Bytes) : Option Nat :=
  from_chars_hex ((Lib.Fields.splitFirst 59 line).elim line (·.1))

theorem read_chunks_none (here : cutAt 13 10 (read_line pending w).1 = none) :
    read_chunks (fuel + 1) body pending w = (body, (read_line pending w).2) ∧
      chunk_sizes (fuel + 1) pending w = [] := by
  simp [read_chunks, chunk_sizes, here]

theorem read_chunks_stop (here : cutAt 13 10 (read_line pending w).1 = some (line, left))
    (number : line_number line = none ∨ line_number line = some 0) :
    read_chunks (fuel + 1) body pending w = (body, read_trailers fuel left (read_line pending w).2) ∧
      chunk_sizes (fuel + 1) pending w = [] := by
  rcases number with number | number <;> simp only [line_number] at number <;>
    simp [read_chunks, chunk_sizes, here, number]

variable {n : Nat}

theorem read_chunks_some (here : cutAt 13 10 (read_line pending w).1 = some (line, left))
    (number : line_number line = some n) (positive : n ≠ 0) :
    let more := read_more ((n + 2) % 2 ^ 64) left (read_line pending w).2
    read_chunks (fuel + 1) body pending w =
        (if (n + 2) % 2 ^ 64 ≤ more.1.length then
          read_chunks fuel (body ++ more.1.take n) (more.1.drop ((n + 2) % 2 ^ 64)) more.2
        else (body ++ more.1.take n, more.2)) ∧
      chunk_sizes (fuel + 1) pending w =
        n :: if (n + 2) % 2 ^ 64 ≤ more.1.length then
          chunk_sizes fuel (more.1.drop ((n + 2) % 2 ^ 64)) more.2
        else [] := by
  obtain ⟨n, rfl⟩ := Nat.exists_eq_succ_of_ne_zero positive
  simp only [line_number] at number
  constructor
  · simp only [read_chunks, here, number]
  · simp only [chunk_sizes, here, number]

end Steps

theorem read_line_chunk {pending : Bytes} {w : Wire}
    (size : announced_chunk (pending ++ coming w.line) = some (n, rest)) (low : n < 2 ^ 64) :
    ∃ line left, cutAt 13 10 (read_line pending w).1 = some (line, left) ∧ line_number line = some n ∧
      left ++ coming (read_line pending w).2.line = rest := by
  obtain ⟨line, cut, _⟩ := announced_cut size
  obtain ⟨left, here, behind⟩ := read_line_coming cut
  refine ⟨line, left, here, ?_, behind⟩
  rw [line_number, from_chars_line cut, size]
  simp only [Option.map_some, Option.filter_some, decide_eq_true_iff, if_pos low]

/-- A line that announces no chunk has no number, or zero. -/
theorem line_number_stop {line : Bytes} (none : ∀ n rest, announced_chunk s = some (n, rest) → n < 2 ^ 64 → n = 0)
    (cut : cutAt 13 10 s = some (line, rest)) : line_number line = .none ∨ line_number line = some 0 := by
  rw [line_number, from_chars_line cut]
  cases size : announced_chunk s with
  | none => exact .inl rfl
  | some chunk =>
    obtain ⟨n, behind⟩ := chunk
    by_cases low : n < 2 ^ 64
    · obtain rfl := none n behind size low
      exact .inr rfl
    · exact .inl (by simp only [Option.map_some, Option.filter_some, decide_eq_true_iff, if_neg low])

theorem made_nothing (body : Bytes) : Made body body [] (some []) := ⟨(List.append_nil body).symm, nofun⟩

/-- One more chunk in front. -/
theorem Made.cons {body data read : Bytes} {sizes : List Nat} {more : Option Bytes} (small : n + 2 < 2 ^ 64)
    (made : Made (body ++ data) read sizes more) : Made body read (n :: sizes) (more.map (data ++ ·)) := by
  cases more with
  | none =>
    obtain ⟨m, member, high⟩ := made
    exact ⟨m, List.mem_cons_of_mem n member, high⟩
  | some more =>
    obtain ⟨read, exact_sums⟩ := made
    exact ⟨by rw [read, List.append_assoc], List.forall_mem_cons.mpr ⟨small, exact_sums⟩⟩

section Wires

variable {pending : Bytes} {w : Wire} (fuel : Nat) (body : Bytes)

theorem read_chunks_stopped
    (none : ∀ n rest, announced_chunk (pending ++ coming w.line) = some (n, rest) → n < 2 ^ 64 → n = 0) :
    Made body (read_chunks (fuel + 1) body pending w).1 (chunk_sizes (fuel + 1) pending w) (some []) := by
  cases cut : cutAt 13 10 (pending ++ coming w.line) with
  | none =>
    obtain ⟨chunks, sizes⟩ := read_chunks_none fuel body (read_line_uncut cut)
    rw [chunks, sizes]
    exact made_nothing body
  | some parts =>
    obtain ⟨line, rest⟩ := parts
    obtain ⟨left, here, _⟩ := read_line_coming cut
    obtain ⟨chunks, sizes⟩ := read_chunks_stop fuel body here (line_number_stop none cut)
    rw [chunks, sizes]
    exact made_nothing body

theorem read_chunks_short (size : announced_chunk (pending ++ coming w.line) = some (n, rest)) (positive : n ≠ 0)
    (small : n + 2 < 2 ^ 64) (missing : rest.length < n + 2) :
    Made body (read_chunks (fuel + 1) body pending w).1 (chunk_sizes (fuel + 1) pending w)
      (some (rest.take n)) := by
  obtain ⟨line, left, here, number, behind⟩ := read_line_chunk size (by omega)
  obtain ⟨chunks, sizes⟩ := read_chunks_some fuel body here number positive
  have read : (read_more (n + 2) left (read_line pending w).2).1 = rest := by
    rcases read_more_drawn (n + 2) left (read_line pending w).2 with ⟨done, all⟩ | ⟨_, all⟩
    · have fewer := congrArg List.length (all.trans behind)
      rw [List.length_append] at fewer
      have enough := of_decide_eq_true done
      omega
    · exact all.trans behind
  rw [Nat.mod_eq_of_lt small, read] at chunks sizes
  rw [chunks, sizes, if_neg (Nat.not_le.mpr missing), if_neg (Nat.not_le.mpr missing)]
  exact ⟨rfl, List.forall_mem_singleton.mpr small⟩

/-- A whole chunk is taken off, and the reader goes on with the bytes behind it. -/
theorem read_chunks_chunk (size : announced_chunk (pending ++ coming w.line) = some (n, rest)) (positive : n ≠ 0)
    (small : n + 2 < 2 ^ 64) (long : n + 2 ≤ rest.length) :
    ∃ pending' w', pending' ++ coming w'.line = rest.drop (n + 2) ∧
      read_chunks (fuel + 1) body pending w = read_chunks fuel (body ++ rest.take n) pending' w' ∧
      chunk_sizes (fuel + 1) pending w = n :: chunk_sizes fuel pending' w' := by
  obtain ⟨line, left, here, number, behind⟩ := read_line_chunk size (by omega)
  obtain ⟨chunks, sizes⟩ := read_chunks_some fuel body here number positive
  obtain ⟨got, all⟩ := read_more_coming (n + 2) left (read_line pending w).2 (by rwa [behind])
  rw [behind] at all
  rw [Nat.mod_eq_of_lt small] at chunks sizes
  rw [if_pos got] at chunks sizes
  have data : (read_more (n + 2) left (read_line pending w).2).1.take n = rest.take n := by
    rw [← all]
    exact (List.take_append_of_le_length (by omega)).symm
  refine ⟨_, _, ?_, data ▸ chunks, sizes⟩
  rw [← all]
  exact (List.drop_append_of_le_length got).symm

end Wires

theorem read_chunks_takes {more : Option Bytes} (takes : TakesChunks s more) {pending : Bytes} {w : Wire}
    (all : pending ++ coming w.line = s) {fuel : Nat} (enough : s.length < fuel) (body : Bytes) :
    Made body (read_chunks fuel body pending w).1 (chunk_sizes fuel pending w) more := by
  induction takes generalizing pending w fuel body with
  | @stop s none =>
    subst all
    obtain ⟨fuel, rfl⟩ : ∃ n, fuel = n + 1 := ⟨fuel - 1, by omega⟩
    exact read_chunks_stopped fuel body none
  | @wraps s rest n size low high =>
    subst all
    obtain ⟨fuel, rfl⟩ : ∃ n, fuel = n + 1 := ⟨fuel - 1, by omega⟩
    obtain ⟨line, left, here, number, _⟩ := read_line_chunk size low
    obtain ⟨_, sizes⟩ := read_chunks_some fuel body here number (by omega)
    rw [sizes]
    exact ⟨n, List.mem_cons_self, high⟩
  | @short s rest n size positive small missing =>
    subst all
    obtain ⟨fuel, rfl⟩ : ∃ n, fuel = n + 1 := ⟨fuel - 1, by omega⟩
    exact read_chunks_short fuel body size positive small missing
  | @chunk s rest n more size positive small long next ih =>
    subst all
    obtain ⟨fuel, rfl⟩ : ∃ n, fuel = n + 1 := ⟨fuel - 1, by omega⟩
    obtain ⟨pending', w', later, chunks, sizes⟩ := read_chunks_chunk fuel body size positive small long
    have fits : (rest.drop (n + 2)).length < fuel := by
      have := announced_shorter size
      rw [List.length_drop]
      omega
    rw [chunks, sizes]
    exact (ih later fits (body ++ rest.take n)).cons small

/-- Of chunks in front of a text their data are taken. -/
theorem Encodes.takes {chunks : List Bytes} {text : Bytes} (encodes : Encodes chunks text) (extra : Bytes) :
    TakesChunks (text ++ extra) (some chunks.flatten) := by
  induction encodes with
  | @chunk line data rest chunks size some_ more ih =>
    have announced : announced_chunk (line ++ 13 :: 10 :: (data ++ 13 :: 10 :: rest) ++ extra) =
        some (data.length, data ++ ([13, 10] ++ (rest ++ extra))) := by
      rw [announced_chunk, List.append_assoc, List.cons_append, List.cons_append,
        cutAt_append cr_ne_lf size.clean]
      simp [size.digits, size.value]
    have next := @TakesChunks.chunk _ _ _ (some chunks.flatten) announced (mt List.length_eq_zero_iff.mp some_)
      size.small (by simp) (by
        rw [← List.drop_drop, List.drop_left]
        exact ih)
    rwa [List.take_left] at next
  | @last line fields size each =>
    refine .stop fun n rest announced _ => ?_
    rw [announced_chunk, List.append_assoc, List.cons_append, List.cons_append,
      cutAt_append cr_ne_lf size.clean] at announced
    simp only [size.digits, if_false, size.value] at announced
    exact (Prod.mk.inj (Option.some.inj announced)).1.symm

theorem read_chunks_coming {chunks : List Bytes} {text pending : Bytes} {w : Wire} (encodes : Encodes chunks text)
    (front : text <+: pending ++ coming w.line) :
    (read_chunked_body pending w).1 = chunks.flatten := by
  obtain ⟨extra, all⟩ := front
  have come := (coming_isPrefix w.line).length_le
  have made := read_chunks_takes (encodes.takes extra) all.symm
    (by rw [all, List.length_append]; omega : _ < pending.length + (letters w.line).length + 1) []
  exact made.1

end Runs

section Condition

variable {s line rest : Bytes} {n : Nat}

theorem announced_of_cut (cut : cutAt 13 10 s = some (line, rest)) (digits : line.takeWhile is_hex ≠ []) :
    announced_chunk s = some (hex_value (line.takeWhile is_hex), rest) := by
  simp only [announced_chunk, cut, if_neg digits]

theorem Sized.announced (size : Sized line n) (cut : cutAt 13 10 s = some (line, rest)) :
    announced_chunk s = some (n, rest) := by
  rw [announced_of_cut cut size.digits, size.value]

theorem Sized.size_line (size : Sized line n) (cut : cutAt 13 10 s = some (line, rest))
    (small : n + 2 < 2 ^ 64) : SizeLine line n :=
  ⟨size.digits, size.value, size.extension, cutAt_clean cut, small⟩

theorem SizeLine.sized (size : SizeLine line n) : Sized line n := ⟨size.digits, size.value, size.extension⟩

theorem ChunkData.formed {data : Bytes} (chunk_data : ChunkData s data)
    (cut : cutAt 13 10 s = some (line, rest)) (size : Sized line n) (positive : n ≠ 0) :
    ¬ CRLF <+: rest.drop n ∧ data = rest.take n ∨
      ∃ behind more, rest.drop n = 13 :: 10 :: behind ∧ ChunkData behind more ∧
        data = rest.take n ++ more := by
  cases chunk_data with
  | stop none => exact absurd (none line rest n cut size) positive
  | unended cut' size' _ other =>
    rw [cut, Option.some.injEq, Prod.mk.injEq] at cut'
    obtain ⟨rfl, rfl⟩ := cut'
    obtain rfl := size.value.symm.trans size'.value
    exact .inl ⟨other, rfl⟩
  | chunk cut' size' _ ended next =>
    rw [cut, Option.some.injEq, Prod.mk.injEq] at cut'
    obtain ⟨rfl, rfl⟩ := cut'
    obtain rfl := size.value.symm.trans size'.value
    exact .inr ⟨_, _, ended, next, rfl⟩

theorem ChunkData.unformed {data : Bytes} (chunk_data : ChunkData s data)
    (size : announced_chunk s = some (n, rest)) (cut : cutAt 13 10 s = some (line, rest))
    (other : ¬ Sized line n) : data = [] := by
  have same {line' rest' : Bytes} {m : Nat} (cut' : cutAt 13 10 s = some (line', rest'))
      (size' : Sized line' m) : Sized line n := by
    have there := size'.announced cut'
    rw [size, Option.some.injEq, Prod.mk.injEq] at there
    rw [cut, Option.some.injEq, Prod.mk.injEq] at cut'
    rwa [there.1, cut'.1]
  cases chunk_data with
  | stop _ => rfl
  | unended cut' size' _ _ => exact absurd (same cut' size') other
  | chunk cut' size' _ _ _ => exact absurd (same cut' size') other

theorem exists_chunk_data (s : Bytes) : ∃ data, ChunkData s data := by
  induction length : s.length using Nat.strong_induction_on generalizing s with
  | _ m ih =>
    by_cases starts : ∃ line rest n, cutAt 13 10 s = some (line, rest) ∧ Sized line n ∧ n ≠ 0
    · obtain ⟨line, rest, n, cut, size, positive⟩ := starts
      by_cases ended : CRLF <+: rest.drop n
      · obtain ⟨behind, shape⟩ := ended
        have shorter := announced_shorter (size.announced cut)
        have lengths := congrArg List.length shape
        simp only [CRLF, List.length_append, List.length_cons, List.length_drop, List.length_nil] at lengths
        obtain ⟨more, next⟩ := ih behind.length (by omega) behind rfl
        exact ⟨_, .chunk cut size positive shape.symm next⟩
      · exact ⟨_, .unended cut size positive ended⟩
    · refine ⟨_, .stop fun line rest n cut size => ?_⟩
      by_contra positive
      exact starts ⟨line, rest, n, cut, size, positive⟩

theorem behind_stop (none : ∀ n rest, announced_chunk s = some (n, rest) → n < 2 ^ 64 → n = 0) {t : Bytes}
    (behind : Behind s t) : t = s := by
  cases behind with
  | here => rfl
  | next cut size some_ _ =>
    have small := size.small
    have zero := none _ _ (size.sized.announced cut) (by omega)
    exact absurd (List.length_eq_zero_iff.mp zero) some_

theorem behind_unended (size : announced_chunk s = some (n, rest)) (other : ¬ CRLF <+: rest.drop n) {t : Bytes}
    (behind : Behind s t) : t = s := by
  cases behind with
  | here => rfl
  | next cut size' _ _ =>
    have announced := size'.sized.announced cut
    rw [size, Option.some.injEq, Prod.mk.injEq] at announced
    obtain ⟨rfl, rfl⟩ := announced
    exact absurd ⟨_, List.drop_left.symm⟩ other

theorem harmless_iff {more : Option Bytes} (takes : TakesChunks s more) : Harmless s ↔ more = some [] := by
  cases takes with
  | stop none =>
    refine iff_of_true (fun n rest size positive low => ?_) rfl
    exact absurd (none n rest size low) positive
  | @wraps _ rest n size low high =>
    refine iff_of_false (fun harmless => ?_) nofun
    exact absurd (harmless n rest size (by omega) low).1 (Nat.not_lt.mpr high)
  | @short _ rest n size positive small _ =>
    constructor
    · intro harmless
      rw [(harmless n rest size positive (by omega)).2, List.take_nil]
    · intro nothing m rest' size' _ _
      rw [size, Option.some.injEq, Prod.mk.injEq] at size'
      obtain ⟨rfl, rfl⟩ := size'
      refine ⟨small, ?_⟩
      exact (List.take_eq_nil_iff.mp (Option.some.inj nothing)).resolve_left positive
  | @chunk _ rest n more size positive small enough _ =>
    have some_data : rest ≠ [] := List.ne_nil_of_length_pos (by omega)
    refine iff_of_false (fun harmless => some_data (harmless n rest size positive (by omega)).2) ?_
    cases more with
    | none => nofun
    | some more =>
      intro nothing
      have data := (List.append_eq_nil_iff.mp (Option.some.inj nothing)).1
      exact (List.take_eq_nil_iff.mp data).elim positive some_data

/-- What is taken is chunk data, and no sum wraps. -/
def OnlyData (s : Bytes) (more : Option Bytes) : Prop :=
  ∃ taken, more = some taken ∧ ∃ data, ChunkData s data ∧ taken <+: data

theorem sound_of_announced (size : announced_chunk s = some (n, rest)) (small : n + 2 < 2 ^ 64)
    (formed : rest ≠ [] → ∀ line, cutAt 13 10 s = some (line, rest) → Sized line n)
    (ended : n + 2 ≤ rest.length → ¬ CRLF <+: rest.drop n → Harmless (rest.drop (n + 2))) : SoundChunk s := by
  have same {m : Nat} {rest' : Bytes} (size' : announced_chunk s = some (m, rest')) : m = n ∧ rest' = rest := by
    rw [size, Option.some.injEq, Prod.mk.injEq] at size'
    exact ⟨size'.1.symm, size'.2.symm⟩
  constructor
  · intro m rest' size' _
    obtain ⟨rfl, rfl⟩ := same size'
    exact small
  · intro line rest' m cut size' _ _ filled
    obtain ⟨rfl, rfl⟩ := same size'
    exact formed filled line cut
  · intro m rest' size' _ _ long other
    obtain ⟨rfl, rfl⟩ := same size'
    exact ended long other

theorem only_data_ended {more : Option Bytes} {behind : Bytes} (cut : cutAt 13 10 s = some (line, rest))
    (size : Sized line n) (positive : n ≠ 0) (ended : rest.drop n = 13 :: 10 :: behind) :
    OnlyData s (more.map (rest.take n ++ ·)) ↔ OnlyData behind more := by
  constructor
  · rintro ⟨taken, shape, data, chunk_data, front⟩
    obtain ⟨later, rfl, rfl⟩ := Option.map_eq_some_iff.mp shape
    rcases chunk_data.formed cut size positive with ⟨other, _⟩ | ⟨behind', more, ended', next, rfl⟩
    · exact absurd ⟨behind, ended.symm⟩ other
    · obtain rfl : behind' = behind := by simpa [ended] using ended'.symm
      exact ⟨later, rfl, more, next, (List.prefix_append_right_inj _).mp front⟩
  · rintro ⟨later, rfl, data, next, front⟩
    exact ⟨_, rfl, _, .chunk cut size positive ended next, (List.prefix_append_right_inj _).mpr front⟩

theorem only_data_unended {more : Option Bytes} (cut : cutAt 13 10 s = some (line, rest))
    (size : Sized line n) (positive : n ≠ 0) (other : ¬ CRLF <+: rest.drop n) :
    OnlyData s (more.map (rest.take n ++ ·)) ↔ more = some [] := by
  constructor
  · rintro ⟨taken, shape, data, chunk_data, front⟩
    obtain ⟨later, rfl, rfl⟩ := Option.map_eq_some_iff.mp shape
    rcases chunk_data.formed cut size positive with ⟨_, rfl⟩ | ⟨behind, _, ended, _⟩
    · have none := front.length_le
      rw [List.length_append] at none
      rw [List.length_eq_zero_iff.mp (by omega : later.length = 0)]
    · exact absurd ⟨behind, ended.symm⟩ other
  · rintro rfl
    exact ⟨_, rfl, _, .unended cut size positive other, by simp⟩

theorem only_data_stop (none : ∀ n rest, announced_chunk s = some (n, rest) → n < 2 ^ 64 → n = 0) :
    OnlyData s (some []) ↔ ∀ t, Behind s t → SoundChunk t := by
  obtain ⟨data, chunk_data⟩ := exists_chunk_data s
  refine iff_of_true ⟨[], rfl, data, chunk_data, List.nil_prefix⟩ fun t behind => ?_
  obtain rfl := behind_stop none behind
  constructor
  · intro n rest size low
    have zero := none n rest size low
    omega
  · exact fun _ rest n _ size positive low _ => absurd (none n rest size low) positive
  · exact fun n rest size positive low _ _ => absurd (none n rest size low) positive

theorem only_data_short (size : announced_chunk s = some (n, rest)) (positive : n ≠ 0)
    (small : n + 2 < 2 ^ 64) (missing : rest.length < n + 2) :
    OnlyData s (some (rest.take n)) ↔ ∀ t, Behind s t → SoundChunk t := by
  obtain ⟨line, cut, _⟩ := announced_cut size
  have unended : ¬ CRLF <+: rest.drop n := fun ended => by
    have := ended.length_le
    simp only [CRLF, List.length_cons, List.length_nil, List.length_drop] at this
    omega
  constructor
  · rintro ⟨taken, shape, data, chunk_data, front⟩ t behind
    obtain rfl := Option.some.inj shape
    obtain rfl := behind_unended size unended behind
    refine sound_of_announced size small (fun filled line' cut' => ?_) fun long => absurd missing (by omega)
    by_contra other
    obtain rfl := chunk_data.unformed size cut' other
    exact (List.take_eq_nil_iff.mp (List.prefix_nil.mp front)).elim positive filled
  · intro sound
    obtain ⟨data, chunk_data⟩ := exists_chunk_data s
    refine ⟨_, rfl, data, chunk_data, ?_⟩
    by_cases filled : rest = []
    · simp [filled]
    · have formed := (sound s .here).formed line rest n cut size positive (by omega) filled
      rcases chunk_data.formed cut formed positive with ⟨_, rfl⟩ | ⟨_, _, _, _, rfl⟩
      · exact List.prefix_rfl
      · exact List.prefix_append _ _

/-- Behind a whole chunk the condition starts again. -/
theorem sound_ended {behind : Bytes} (cut : cutAt 13 10 s = some (line, rest)) (formed : Sized line n)
    (positive : n ≠ 0) (small : n + 2 < 2 ^ 64) (ended : rest.drop n = 13 :: 10 :: behind) :
    (∀ t, Behind s t → SoundChunk t) ↔ ∀ t, Behind behind t → SoundChunk t := by
  have size := formed.announced cut
  have whole : rest = rest.take n ++ 13 :: 10 :: behind := by
    rw [← ended, List.take_append_drop]
  have long : n < rest.length := by
    have lengths := congrArg List.length ended
    simp only [List.length_drop, List.length_cons] at lengths
    omega
  have length : (rest.take n).length = n := List.length_take_of_le long.le
  constructor
  · intro sound t there
    refine sound t (.next (whole ▸ cut) (length.symm ▸ formed.size_line cut small) ?_ there)
    exact List.ne_nil_of_length_pos (by omega)
  · intro sound t there
    cases there with
    | here =>
      refine sound_of_announced size small (fun _ line' cut' => ?_) fun _ other =>
        absurd ⟨behind, ended.symm⟩ other
      rw [cut, Option.some.injEq, Prod.mk.injEq] at cut'
      exact cut'.1 ▸ formed
    | next cut' size' _ more =>
      have announced := size'.sized.announced cut'
      rw [size, Option.some.injEq, Prod.mk.injEq] at announced
      obtain ⟨rfl, rfl⟩ := announced
      rw [List.drop_left, List.cons.injEq, List.cons.injEq] at ended
      exact sound t (ended.2.2 ▸ more)

theorem only_data_chunk {more : Option Bytes} (size : announced_chunk s = some (n, rest)) (positive : n ≠ 0)
    (small : n + 2 < 2 ^ 64) (long : n + 2 ≤ rest.length) (next : TakesChunks (rest.drop (n + 2)) more)
    (later : OnlyData (rest.drop (n + 2)) more ↔ ∀ t, Behind (rest.drop (n + 2)) t → SoundChunk t) :
    OnlyData s (more.map (rest.take n ++ ·)) ↔ ∀ t, Behind s t → SoundChunk t := by
  obtain ⟨line, cut, _⟩ := announced_cut size
  have filled : rest ≠ [] := List.ne_nil_of_length_pos (by omega)
  by_cases formed : Sized line n
  · by_cases ended : CRLF <+: rest.drop n
    · obtain ⟨behind, shape⟩ := ended
      have line_end : rest.drop n = 13 :: 10 :: behind := shape.symm
      have there : rest.drop (n + 2) = behind := by
        rw [← List.drop_drop, line_end]
        rfl
      rw [there] at later
      rw [only_data_ended cut formed positive line_end, later, sound_ended cut formed positive small line_end]
    · rw [only_data_unended cut formed positive ended, ← harmless_iff next]
      constructor
      · intro harmless t there
        obtain rfl := behind_unended size ended there
        refine sound_of_announced size small (fun _ line' cut' => ?_) fun _ _ => harmless
        rw [cut, Option.some.injEq, Prod.mk.injEq] at cut'
        exact cut'.1 ▸ formed
      · intro sound
        exact (sound s .here).ended n rest size positive (by omega) long ended
  · refine iff_of_false ?_ fun sound => ?_
    · rintro ⟨taken, shape, data, chunk_data, front⟩
      obtain ⟨_, _, rfl⟩ := Option.map_eq_some_iff.mp shape
      obtain rfl := chunk_data.unformed size cut formed
      have nothing := (List.append_eq_nil_iff.mp (List.prefix_nil.mp front)).1
      exact (List.take_eq_nil_iff.mp nothing).elim positive filled
    · exact formed ((sound s .here).formed line rest n cut size positive (by omega) filled)

theorem only_data_iff {more : Option Bytes} (takes : TakesChunks s more) :
    OnlyData s more ↔ ∀ t, Behind s t → SoundChunk t := by
  induction takes with
  | stop none => exact only_data_stop none
  | @wraps s rest n size low high =>
    refine iff_of_false ?_ fun sound => ?_
    · rintro ⟨_, nothing, _⟩
      cases nothing
    · exact absurd ((sound s .here).small n rest size low) (Nat.not_lt.mpr high)
  | short size positive small missing => exact only_data_short size positive small missing
  | chunk size positive small long next ih => exact only_data_chunk size positive small long next ih

end Condition

section Whole

variable {ps : List Bytes} {pending extra : Bytes} {back : Line}

/-- A line in front of a text is read with the pieces that bring it, and then there is the rest of the
text to read. -/
theorem read_line_text (taken : Bytes) (back : Line) (pieces : ∀ p ∈ ps, p ≠ [] ∧ p.length ≤ 8192)
    {line text : Bytes} (clean : ¬ [13, 10] <:+: line)
    (all : pending ++ ps.flatten = line ++ 13 :: 10 :: (text ++ extra)) :
    ∃ (left : Bytes) (qs : List Bytes) (taken' : Bytes),
      cutAt 13 10 (read_line pending ⟨taken, ps.map .data ++ back⟩).1 = some (line, left) ∧
      (read_line pending ⟨taken, ps.map .data ++ back⟩).2 = ⟨taken', qs.map .data ++ back⟩ ∧
      left ++ qs.flatten = text ++ extra ∧ (∀ p ∈ qs, p ≠ [] ∧ p.length ≤ 8192) ∧
      (upto (text.length - left.length) qs).2 =
        (upto ((line ++ 13 :: 10 :: text).length - pending.length) ps).2 := by
  have cut : cutAt 13 10 (pending ++ ps.flatten) = some (line, text ++ extra) := by
    rw [all]
    exact cutAt_append cr_ne_lf clean _
  obtain ⟨left, behind, here, size, wire⟩ := read_line_pieces taken back pieces cut
  refine ⟨left, _, _, here, wire, behind, pieces_behind pieces _, ?_⟩
  have whole : (line ++ 13 :: 10 :: text).length = line.length + 2 + text.length := by
    simp
    omega
  have first : line.length + 2 - pending.length ≤ line.length + 2 + text.length - pending.length := by omega
  rw [whole, upto_rest first]
  congr 2
  omega

theorem read_trailers_text {fields : List Bytes} (each : ∀ field ∈ fields, field ≠ [] ∧ ¬[13, 10] <:+: field)
    {fuel : Nat} (enough : fields.length < fuel) (taken : Bytes)
    (pieces : ∀ p ∈ ps, p ≠ [] ∧ p.length ≤ 8192)
    (all : pending ++ ps.flatten = (Lib.Framing.lines 13 10 fields ++ [13, 10]) ++ extra) :
    (read_trailers fuel pending ⟨taken, ps.map .data ++ back⟩).line =
      (upto ((Lib.Framing.lines 13 10 fields ++ [13, 10]).length - pending.length) ps).2.map .data ++ back := by
  induction fields generalizing fuel pending ps taken with
  | nil =>
    obtain ⟨fuel, rfl⟩ : ∃ n, fuel = n + 1 := ⟨fuel - 1, by simp at enough; omega⟩
    have empty : pending ++ ps.flatten = [] ++ 13 :: 10 :: ([] ++ extra) := all
    obtain ⟨left, qs, taken', here, wire, _, _, rest⟩ := read_line_text taken back pieces (by simp) empty
    simp only [read_trailers, here, List.isEmpty_nil, if_true, wire]
    rw [List.length_nil, Nat.zero_sub, upto_zero] at rest
    change qs = _ at rest
    rw [rest]
    rfl
  | cons field fields ih =>
    obtain ⟨fuel, rfl⟩ : ∃ n, fuel = n + 1 := ⟨fuel - 1, by simp at enough; omega⟩
    obtain ⟨filled, clean⟩ := each field List.mem_cons_self
    have text : Lib.Framing.lines 13 10 (field :: fields) ++ [13, 10] =
        field ++ 13 :: 10 :: (Lib.Framing.lines 13 10 fields ++ [13, 10]) := by
      rw [Lib.Framing.lines_cons]
      simp
    rw [text] at all ⊢
    have shape : pending ++ ps.flatten =
        field ++ 13 :: 10 :: ((Lib.Framing.lines 13 10 fields ++ [13, 10]) ++ extra) := by simpa using all
    obtain ⟨left, qs, taken', here, wire, behind, small, rest⟩ := read_line_text taken back pieces clean shape
    simp only [read_trailers, here, List.isEmpty_iff, filled, if_false, wire]
    rw [List.length_cons] at enough
    rw [ih (fun f inside => each f (List.mem_cons_of_mem field inside)) (by omega) taken' small behind, rest]

/-- A well-formed body is read with the pieces that bring it. -/
theorem read_chunks_text {chunks : List Bytes} {text : Bytes} (encodes : Encodes chunks text) {fuel : Nat}
    (enough : text.length < fuel) (body taken : Bytes) (pieces : ∀ p ∈ ps, p ≠ [] ∧ p.length ≤ 8192)
    (all : pending ++ ps.flatten = text ++ extra) :
    (read_chunks fuel body pending ⟨taken, ps.map .data ++ back⟩).2.line =
      (upto (text.length - pending.length) ps).2.map .data ++ back := by
  induction encodes generalizing fuel body taken pending ps with
  | @chunk line data rest chunks size some_ more ih =>
    obtain ⟨fuel, rfl⟩ : ∃ n, fuel = n + 1 := ⟨fuel - 1, by omega⟩
    have shape : pending ++ ps.flatten = line ++ 13 :: 10 :: ((data ++ 13 :: 10 :: rest) ++ extra) := by
      simpa using all
    obtain ⟨left, qs, taken', here, wire, behind, small, later⟩ :=
      read_line_text taken back pieces size.clean shape
    have positive : data.length ≠ 0 := mt List.length_eq_zero_iff.mp some_
    obtain ⟨step, _⟩ := read_chunks_some fuel body here size.read positive
    have room : data.length + 2 ≤ (left ++ qs.flatten).length := by
      rw [behind]
      simp
    obtain ⟨got, rs, taken'', read, long_got, text, small', length_got, rs_eq⟩ :=
      read_more_pieces taken' back small room
    rw [wire, Nat.mod_eq_of_lt size.small, read] at step
    dsimp only at step
    rw [if_pos long_got] at step
    have pieced : got ++ rs.flatten = (data ++ [13, 10]) ++ (rest ++ extra) := by
      rw [text, behind]
      simp
    have next : got.drop (data.length + 2) ++ rs.flatten = rest ++ extra := by
      have back := congrArg (List.drop (data.length + 2)) pieced
      rwa [List.drop_append_of_le_length long_got, List.drop_left' (by simp)] at back
    have fits : rest.length < fuel := by
      simp at enough
      omega
    have length : (data ++ 13 :: 10 :: rest).length = data.length + 2 + rest.length := by
      simp
      omega
    have first : data.length + 2 - left.length ≤ data.length + 2 + rest.length - left.length := by omega
    rw [step, ih fits _ taken'' small' next, ← later, length, upto_rest first, ← rs_eq, List.length_drop]
    congr 4
    omega
  | @last line fields size each =>
    obtain ⟨fuel, rfl⟩ : ∃ n, fuel = n + 1 := ⟨fuel - 1, by omega⟩
    have shape : pending ++ ps.flatten =
        line ++ 13 :: 10 :: ((Lib.Framing.lines 13 10 fields ++ [13, 10]) ++ extra) := by simpa using all
    obtain ⟨left, qs, taken', here, wire, behind, small, later⟩ :=
      read_line_text taken back pieces size.clean shape
    obtain ⟨step, _⟩ := read_chunks_stop fuel body here (.inr size.read)
    have many := length_le_lines fields
    have few : fields.length < fuel := by
      simp at enough
      omega
    rw [step, wire, read_trailers_text each few taken' small behind, later]

end Whole

section Ends

variable {pending line left : Bytes} {w : Wire}

/-- The letters that a reader has or can still get. -/
def ahead (pending : Bytes) (w : Wire) : Nat := (pending ++ letters w.line).length

theorem ahead_line (here : cutAt 13 10 (read_line pending w).1 = some (line, left)) :
    ahead left (read_line pending w).2 + 2 ≤ ahead pending w := by
  have drawn : Drawn w pending (read_line pending w).2 (read_line pending w).1 := gather_drawn _ _ _ _
  have letters := congrArg List.length drawn.letters
  rw [cutAt_eq here] at letters
  simp only [List.length_append, List.length_cons] at letters
  simp only [ahead, List.length_append]
  omega

theorem ahead_more (needed : Nat) (pending : Bytes) (w : Wire) (n : Nat) :
    ahead ((read_more needed pending w).1.drop n) (read_more needed pending w).2 ≤ ahead pending w := by
  have drawn : Drawn w pending (read_more needed pending w).2 (read_more needed pending w).1 :=
    gather_drawn _ _ _ _
  have letters := congrArg List.length drawn.letters
  simp only [ahead, List.length_append, List.length_drop] at letters ⊢
  omega

/-- Every line that is taken is two letters less, so the trailers end. -/
theorem read_trailers_ends {fuel fuel' : Nat} (enough : ahead pending w < fuel)
    (enough' : ahead pending w < fuel') : read_trailers fuel pending w = read_trailers fuel' pending w := by
  induction fuel generalizing fuel' pending w with
  | zero => omega
  | succ fuel ih =>
    obtain ⟨fuel', rfl⟩ : ∃ n, fuel' = n + 1 := ⟨fuel' - 1, by omega⟩
    rw [read_trailers, read_trailers]
    dsimp only
    cases here : cutAt 13 10 (read_line pending w).1 with
    | none => rfl
    | some parts =>
      obtain ⟨line, left⟩ := parts
      have less := ahead_line here
      dsimp only
      rw [ih (by omega) (by omega : _ < fuel')]

theorem read_chunks_ends {fuel fuel' : Nat} (enough : ahead pending w < fuel)
    (enough' : ahead pending w < fuel') (body : Bytes) :
    read_chunks fuel body pending w = read_chunks fuel' body pending w ∧
      chunk_sizes fuel pending w = chunk_sizes fuel' pending w := by
  induction fuel generalizing fuel' body pending w with
  | zero => omega
  | succ fuel ih =>
    obtain ⟨fuel', rfl⟩ : ∃ n, fuel' = n + 1 := ⟨fuel' - 1, by omega⟩
    cases here : cutAt 13 10 (read_line pending w).1 with
    | none =>
      obtain ⟨chunks, sizes⟩ := read_chunks_none fuel body here
      obtain ⟨chunks', sizes'⟩ := read_chunks_none fuel' body here
      exact ⟨chunks.trans chunks'.symm, sizes.trans sizes'.symm⟩
    | some parts =>
      obtain ⟨line, left⟩ := parts
      have less := ahead_line here
      by_cases stops : line_number line = none ∨ line_number line = some 0
      · obtain ⟨chunks, sizes⟩ := read_chunks_stop fuel body here stops
        obtain ⟨chunks', sizes'⟩ := read_chunks_stop fuel' body here stops
        rw [chunks, chunks', sizes, sizes', read_trailers_ends (by omega) (by omega : _ < fuel')]
        exact ⟨rfl, rfl⟩
      · obtain ⟨none, zero⟩ := not_or.mp stops
        obtain ⟨n, number⟩ := Option.ne_none_iff_exists'.mp none
        have positive : n ≠ 0 := by
          rintro rfl
          exact zero number
        obtain ⟨chunks, sizes⟩ := read_chunks_some fuel body here number positive
        obtain ⟨chunks', sizes'⟩ := read_chunks_some fuel' body here number positive
        have rest := ahead_more ((n + 2) % 2 ^ 64) left (read_line pending w).2 ((n + 2) % 2 ^ 64)
        obtain ⟨same, same_sizes⟩ := ih (Nat.lt_of_le_of_lt rest (by omega))
          (Nat.lt_of_le_of_lt rest (by omega : _ < fuel'))
          (body ++ (read_more ((n + 2) % 2 ^ 64) left (read_line pending w).2).1.take n)
        rw [chunks, chunks', sizes, sizes', same, same_sizes]
        exact ⟨rfl, rfl⟩

end Ends

namespace Stream

/-- A stream is decoded exactly if behind its whole chunks no size wraps, no line with more than a size
and an extension has bytes behind it, and no chunk without a line end has another one behind it. -/
theorem decoded_iff (s : Stream) : s.Decoded ↔ ∀ t, Behind s.bytes t → SoundChunk t := by
  obtain ⟨more, takes⟩ := exists_takes_chunks s.bytes
  have there : letters s.wire.line = s.pieces.flatten ++ letters (.fails :: s.back) := letters_data _ _
  have enough : s.bytes.length < s.initial.length + (letters s.wire.line).length + 1 := by
    rw [there, bytes, List.length_append, List.length_append]
    omega
  have arrives : coming s.wire.line = s.pieces.flatten := coming_data _ (fun p inside => (s.sized p inside).1) _
  have made := read_chunks_takes takes (congrArg (s.initial ++ ·) arrives) enough []
  rw [← only_data_iff takes]
  constructor
  · intro decoded
    cases more with
    | none =>
      obtain ⟨n, member, high⟩ := made
      exact absurd (decoded.exact_sums n member) (Nat.not_lt.mpr high)
    | some more =>
      obtain ⟨data, chunk_data, front⟩ := decoded.chunk_data
      have read : (read_chunked_body s.initial s.wire).1 = [] ++ more := made.1
      rw [read] at front
      exact ⟨more, rfl, data, chunk_data, front⟩
  · rintro ⟨taken, rfl, data, chunk_data, front⟩
    have read : (read_chunked_body s.initial s.wire).1 = [] ++ taken := made.1
    refine ⟨fun chunks text extra encodes all => ?_, fun fuel long => ?_, made.2, data, chunk_data, ?_⟩
    · have shorter : text.length < s.initial.length + (letters s.wire.line).length + 1 := by
        have lengths := congrArg List.length all
        rw [List.length_append] at lengths
        omega
      refine ⟨read_chunks_coming encodes (by rw [arrives]; exact ⟨extra, all.symm⟩), ?_⟩
      exact read_chunks_text encodes shorter [] [] s.sized all
    · exact read_chunks_ends (by rwa [ahead, List.length_append]) (by rw [ahead, List.length_append]; omega) []
    · rw [read]
      exact front

/-- The size is that of a chunk that a line end can not follow. -/
def wrapping : Stream where
  initial := AoSdl.bytes "fffffffffffffffe\r\nab\r\n"
  pieces := []
  sized := nofun

/-- Two behind the size of such a chunk wrap. -/
theorem wrapping_not_decoded : ¬ ∀ s : Stream, s.Decoded := by
  intro decoded
  have small := (decoded wrapping).exact_sums (2 ^ 64 - 2) (by decide +kernel)
  omega

end Stream

end AoSdl.http.client
