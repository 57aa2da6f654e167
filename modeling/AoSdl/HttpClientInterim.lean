import AoSdl.HttpClientHeaders
import AoSdl.Lib.Segments

/-! The head of a final response behind interim ones. What is left of a read behind a skipped response
is carried along, and the empty line of the next head is looked for in it or in the bytes that come
later, so an empty line that is cut between the two is missed. -/
namespace AoSdl.http.client
open Lib.Arrivals

/-- A header section with its empty line. -/
structure Block where
  head : Bytes
  code : Nat
  ends : find_header_end (head ++ (CRLF ++ CRLF)) = some head.length
  status : status_of head = some code
  version : bytes "HTTP/" <+: head
  fits : head.length + 4 ≤ MAX_CLIENT_HEADER_SIZE

def Block.text (b : Block) : Bytes := b.head ++ (CRLF ++ CRLF)

/-- Interim responses, a final head and what comes of its body, in the reads that bring them. -/
structure Delivery where
  interims : List Block
  interim : ∀ b ∈ interims, Interim b.code
  final : Block
  plain : ¬ Interim final.code
  body : Bytes
  reads : List Bytes
  sized : ∀ p ∈ reads, p ≠ [] ∧ p.length ≤ 4096
  whole : reads.flatten = (interims.map Block.text).flatten ++ (final.text ++ body)

namespace Delivery

def skipped (d : Delivery) : Nat := (d.interims.map Block.text).flatten.length

def head_end (d : Delivery) : Nat := d.skipped + d.final.text.length

/-- Whatever comes behind: the final head is returned with what the read that completes it brings of
the body, and the wire is left at the end of that read. -/
def Answered (d : Delivery) : Prop :=
  ∀ back fuel, d.interims.length < fuel →
    read_final_headers fuel [] { line := d.reads.map .data ++ back } =
      (d.final.text ++ d.body.take (reach d.head_end d.reads - d.head_end),
        { taken := (upto d.head_end d.reads).1.flatten
          line := (upto d.head_end d.reads).2.map .data ++ back })

end Delivery

/-- The read that brings the end of what stands before the offset `start` ends within the empty line
of the block of `n` bytes from there. -/
def cut (reads : List Bytes) (start n : Nat) : Bool :=
  n < reach start reads - start + 4 && reach start reads - start < n

/-- Where the read ends with which a section that begins at `e` has become too long. -/
def too_long (reads : List Bytes) (e : Nat) : Nat := reach (e + (MAX_CLIENT_HEADER_SIZE + 1)) reads

namespace Block

variable (b : Block) {q rest : Bytes} {i : Nat}

theorem text_length : b.text.length = b.head.length + 4 := by simp [text, CRLF]

theorem text_append (more : Bytes) : b.text ++ more = b.head ++ (CRLF ++ CRLF ++ more) :=
  List.append_assoc _ _ _

theorem text_drop (early : i ≤ b.head.length) : b.text.drop i = b.head.drop i ++ (CRLF ++ CRLF) := by
  rw [text, List.drop_append_of_le_length early]

theorem find_long (early : i ≤ b.head.length) (front : q <+: b.text.drop i ++ rest)
    (long : b.text.length ≤ i + q.length) : (find_header_end q).isSome = true := by
  have inside : b.text.drop i <+: q := by
    refine List.prefix_of_prefix_length_le (List.prefix_append _ _) front ?_
    rw [List.length_drop]
    omega
  rw [b.text_drop early] at inside
  by_contra missing
  have absent := Lib.Search.find_none.mp (Option.not_isSome_iff_eq_none.mp missing)
  exact absent ((List.suffix_append _ _).isInfix.trans inside.isInfix)

theorem find_short (front : q <+: b.text.drop i ++ rest) (short : i + q.length < b.text.length) :
    (find_header_end q).isSome = false := by
  by_contra some_end
  have found := found_behind (b.text.take i) (Bool.not_eq_false _ ▸ some_end)
  obtain ⟨n, here⟩ := Option.isSome_iff_exists.mp found
  obtain ⟨more, behind⟩ := front
  have text : b.text.take i ++ q ++ more = b.text ++ rest := by
    rw [List.append_assoc, behind, ← List.append_assoc, List.take_append_drop]
  have there := Lib.Search.find_stable here more
  rw [text] at there
  have same : b.head.length = n := Option.some.inj ((Lib.Search.find_stable b.ends rest).symm.trans there)
  obtain ⟨p, r, shape, length⟩ := Lib.Search.find_split here
  have sizes := congrArg List.length shape
  have size := b.text_length
  simp only [List.length_append, List.length_take, CRLF, List.length_cons, List.length_nil] at sizes
  omega

end Block

theorem find_cr {q : Bytes} (no_cr : q.head? ≠ some 13) :
    find_header_end (13 :: 10 :: q) = (find_header_end q).map (· + 2) := by
  have first : ¬ CRLF ++ CRLF <+: 13 :: 10 :: q := by
    intro here
    cases q with
    | nil => exact absurd here.length_le (by decide)
    | cons c q =>
      obtain ⟨r, shape⟩ := here
      simp [CRLF] at shape
      exact no_cr (by rw [← shape.1]; rfl)
  have second : ¬ CRLF ++ CRLF <+: 10 :: q := by
    rintro ⟨r, shape⟩
    simp [CRLF] at shape
  simp only [find_header_end]
  rw [Lib.Search.find, if_neg first, Lib.Search.find, if_neg second, Option.map_map]
  rfl

theorem find_lf (q : Bytes) : find_header_end (10 :: q) = (find_header_end q).map (· + 1) := by
  have first : ¬ CRLF ++ CRLF <+: 10 :: q := by
    rintro ⟨r, shape⟩
    simp [CRLF] at shape
  simp only [find_header_end]
  rw [Lib.Search.find, if_neg first]

theorem status_of_behind {t head : Bytes} {code : Nat} (clean : 32 ∉ t)
    (status : status_of head = some code) : status_of (t ++ head) = some code := by
  unfold status_of at status ⊢
  cases split : Lib.Fields.splitFirst 32 head with
  | none => simp [split] at status
  | some parts =>
    obtain ⟨p, text⟩ := parts
    obtain ⟨shape, clean'⟩ := Lib.Fields.splitFirst_some split
    have all : 32 ∉ t ++ p := by
      rw [List.mem_append, not_or]
      exact ⟨clean, clean'⟩
    rw [shape, ← List.append_assoc, Lib.Fields.splitFirst_append all]
    rwa [split] at status

namespace Block

variable (b : Block) {q rest : Bytes} {i : Nat}

theorem text_cut (late : b.head.length < i) (early : i < b.text.length) :
    b.text.drop i = [10, 13, 10] ∨ b.text.drop i = [13, 10] ∨ b.text.drop i = [10] := by
  have size := b.text_length
  have drop : b.text.drop i = (CRLF ++ CRLF).drop (i - b.head.length) := by
    rw [text, List.drop_append, List.drop_eq_nil_of_le late.le, List.nil_append]
  rcases (by omega : i - b.head.length = 1 ∨ i - b.head.length = 2 ∨ i - b.head.length = 3) with
    one | two | three
  · exact .inl (by rw [drop, one]; rfl)
  · exact .inr (.inl (by rw [drop, two]; rfl))
  · exact .inr (.inr (by rw [drop, three]; rfl))

theorem no_cr_first (front : q <+: b.text ++ rest) : q.head? ≠ some 13 := by
  cases q with
  | nil => nofun
  | cons c q =>
    obtain ⟨more, shape⟩ := front
    obtain ⟨version, text⟩ := b.version
    have first : bytes "HTTP/" = 72 :: [84, 84, 80, 47] := by decide +kernel
    rw [Block.text, ← text, first] at shape
    simp only [List.cons_append, List.cons.injEq] at shape
    rw [List.head?_cons, shape.1]
    decide

theorem find_behind (late : b.head.length < i) (early : i < b.text.length) (no_cr : q.head? ≠ some 13) :
    find_header_end (b.text.drop i ++ q) = (find_header_end q).map (· + (b.text.length - i)) := by
  have size : (b.text.drop i).length = b.text.length - i := List.length_drop
  rw [← size]
  rcases b.text_cut late early with t | t | t
  · rw [t, List.cons_append, find_lf, List.cons_append, List.cons_append, List.nil_append, find_cr no_cr,
      Option.map_map]
    rfl
  · rw [t, List.cons_append, List.cons_append, List.nil_append, find_cr no_cr]
    rfl
  · rw [t, List.cons_append, List.nil_append, find_lf]
    rfl

theorem cut_clean (late : b.head.length < i) (early : i < b.text.length) : 32 ∉ b.text.drop i := by
  rcases b.text_cut late early with t | t | t <;> rw [t] <;> decide

theorem find_cut_short (c : Block) (late : b.head.length < i) (early : i < b.text.length)
    (front : q <+: b.text.drop i ++ (c.text ++ rest))
    (short : i + q.length < b.text.length + c.text.length) : (find_header_end q).isSome = false := by
  have tail := b.text_cut late early
  have small : (b.text.drop i).length < 4 := by rcases tail with t | t | t <;> simp [t]
  have size : (b.text.drop i).length = b.text.length - i := List.length_drop
  by_cases inside : q.length < 4
  · by_contra some_end
    obtain ⟨n, here⟩ := Option.isSome_iff_exists.mp (Bool.not_eq_false _ ▸ some_end)
    obtain ⟨p, r, shape, _⟩ := Lib.Search.find_split here
    have sizes := congrArg List.length shape
    simp only [List.length_append, CRLF, List.length_cons, List.length_nil] at sizes
    omega
  · have longer : b.text.drop i <+: q :=
      List.prefix_of_prefix_length_le (List.prefix_append _ _) front (by omega)
    obtain ⟨q', rfl⟩ := longer
    have front' : q' <+: c.text ++ rest := (List.prefix_append_right_inj _).mp front
    rw [b.find_behind late early (c.no_cr_first front'), Option.isSome_map]
    refine c.find_short (i := 0) (by rwa [List.drop_zero]) ?_
    rw [List.length_append] at short
    omega

theorem find_cut_long (c : Block) (front : q <+: b.text.drop i ++ (c.text ++ rest))
    (early : i ≤ b.text.length) (long : b.text.length + c.text.length ≤ i + q.length) :
    (find_header_end q).isSome = true := by
  have size : (b.text.drop i).length = b.text.length - i := List.length_drop
  have longer : b.text.drop i <+: q :=
    List.prefix_of_prefix_length_le (List.prefix_append _ _) front (by omega)
  obtain ⟨q', rfl⟩ := longer
  have front' : q' <+: c.text ++ rest := (List.prefix_append_right_inj _).mp front
  refine found_behind _ (c.find_long (i := 0) (Nat.zero_le _) (by rwa [List.drop_zero]) ?_)
  rw [List.length_append] at long
  omega

end Block

section Reads

variable {reads : List Bytes} {front rest : Bytes} {b c : Block}

/-- The wire when the reads have brought an offset. -/
def wire_at (reads : List Bytes) (back : Line) (e : Nat) : Wire :=
  ⟨(upto e reads).1.flatten, (upto e reads).2.map .data ++ back⟩

/-- What has come behind the offset `start` by then. -/
def carried (reads : List Bytes) (start e : Nat) : Bytes := (upto e reads).1.flatten.drop start

theorem carried_front (whole : reads.flatten = front ++ rest) {e : Nat} (behind : front.length ≤ e)
    (come : e ≤ reads.flatten.length) : carried reads front.length e <+: rest := by
  have reached := le_reach come
  have text := upto_flatten e reads
  rw [whole] at text
  have longer : front <+: (upto e reads).1.flatten := by
    refine List.prefix_of_prefix_length_le (List.prefix_append front rest) ⟨_, text⟩ ?_
    exact behind.trans reached
  obtain ⟨more, shape⟩ := longer
  rw [carried, ← shape, List.drop_left]
  rw [← shape, List.append_assoc] at text
  exact ⟨_, List.append_cancel_left text⟩

theorem carried_length (reads : List Bytes) (start e : Nat) :
    (carried reads start e).length = reach e reads - start := List.length_drop

theorem wire_at_length (reads : List Bytes) (back : Line) (e : Nat) :
    (wire_at reads back e).taken.length = reach e reads := rfl

/-- What is still to come, by what has been carried. -/
theorem to_come (whole : reads.flatten = front ++ rest) (come : front.length ≤ reads.flatten.length) :
    (upto front.length reads).2.flatten = rest.drop (reach front.length reads - front.length) := by
  have reached := le_reach come
  obtain ⟨more, shape⟩ := carried_front whole (Nat.le_refl _) come
  have text := upto_flatten front.length reads
  have longer : front <+: (upto front.length reads).1.flatten := by
    refine List.prefix_of_prefix_length_le (List.prefix_append front rest) ⟨_, text.trans whole⟩ ?_
    exact reached
  obtain ⟨extra, parts⟩ := longer
  have same : carried reads front.length front.length = extra := by
    rw [carried, ← parts, List.drop_left]
  rw [whole, ← parts, List.append_assoc] at text
  have behind := List.append_cancel_left text
  rw [← behind, ← carried_length, same, List.drop_left]

theorem later_sized (sized : ∀ p ∈ reads, p ≠ [] ∧ p.length ≤ 4096) (e : Nat) :
    ∀ p ∈ (upto e reads).2, p ≠ [] ∧ p.length ≤ 4096 := by
  intro p inside
  refine sized p ?_
  rw [← upto_append e reads]
  exact List.mem_append_right _ inside

theorem too_long_eq {start : Nat} (come : start ≤ reads.flatten.length) :
    too_long reads (reach start reads) = reach start reads +
      reach (MAX_CLIENT_HEADER_SIZE + 1) (upto start reads).2 := by
  have here := le_reach come
  rw [too_long, reach_on (m := start) (by omega) (Nat.le_add_right _ _), Nat.add_sub_cancel_left]

theorem next_raw_on (sized : ∀ p ∈ reads, p ≠ [] ∧ p.length ≤ 4096) (back : Line) {start e : Nat}
    (none_carried : (find_header_end (carried reads start start)).isSome = false)
    (come : start ≤ reads.flatten.length) (further : reach start reads ≤ e)
    (before : ∀ j, reach j (upto start reads).2 < e - reach start reads →
      headers_read (upto j (upto start reads).2).1.flatten = false)
    (reached : (find_header_end
      (upto (e - reach start reads) (upto start reads).2).1.flatten).isSome = true) :
    next_raw (carried reads start start) (wire_at reads back start) =
      (carried reads start e, wire_at reads back e) := by
  have here := le_reach come
  have stops : headers_read ([] ++ (upto (e - reach start reads) (upto start reads).2).1.flatten) =
      true := by
    rw [List.nil_append, headers_read, reached, Bool.true_or]
  have read := pull_upto (s := []) (upto start reads).1.flatten back
    (later_sized sized start) (Nat.lt_succ_self _) before stops
  have gathered : gather headers_read (fun _ => 4096) [] (wire_at reads back start) = _ := read
  have on := upto_on (here.trans further) further
  rw [next_raw, none_carried, if_neg (by decide), read_headers, gathered, List.nil_append]
  simp only [reached, Bool.true_or, if_true]
  rw [carried, carried, wire_at, on, List.flatten_append, List.drop_append_of_le_length here]

theorem next_raw_long (sized : ∀ p ∈ reads, p ≠ [] ∧ p.length ≤ 4096) (back : Line) {start : Nat}
    (none_carried : (find_header_end (carried reads start start)).isSome = false)
    (come : start ≤ reads.flatten.length)
    (absent : ∀ j, reach j (upto start reads).2 ≤
        reach (MAX_CLIENT_HEADER_SIZE + 1) (upto start reads).2 →
      (find_header_end (upto j (upto start reads).2).1.flatten).isSome = false)
    (long : MAX_CLIENT_HEADER_SIZE < reach (MAX_CLIENT_HEADER_SIZE + 1) (upto start reads).2) :
    next_raw (carried reads start start) (wire_at reads back start) =
      (carried reads start start, wire_at reads back (too_long reads (reach start reads))) := by
  have here := le_reach come
  have before : ∀ j, reach j (upto start reads).2 < MAX_CLIENT_HEADER_SIZE + 1 →
      headers_read ([] ++ (upto j (upto start reads).2).1.flatten) = false := by
    intro j short
    rw [List.nil_append, headers_read, absent j (by omega), Bool.false_or, decide_eq_false_iff_not,
      ← reach]
    omega
  have stops : headers_read
      ([] ++ (upto (MAX_CLIENT_HEADER_SIZE + 1) (upto start reads).2).1.flatten) = true := by
    rw [List.nil_append, headers_read, ← reach, decide_eq_true long, Bool.or_true]
  have read := pull_upto (s := []) (upto start reads).1.flatten back
    (later_sized sized start) (Nat.lt_succ_self _) before stops
  have gathered : gather headers_read (fun _ => 4096) [] (wire_at reads back start) = _ := read
  have on := upto_on (n := reach start reads + (MAX_CLIENT_HEADER_SIZE + 1)) (by omega)
    (Nat.le_add_right (reach start reads) _)
  have total : reach start reads + (MAX_CLIENT_HEADER_SIZE + 1) ≤ too_long reads (reach start reads) := by
    rw [too_long_eq come]
    omega
  have same := upto_same total (Nat.le_refl _)
  rw [next_raw, none_carried, if_neg (by decide), read_headers, gathered, List.nil_append]
  have given_up := absent _ (Nat.le_refl _)
  rw [reach] at long
  simp only [given_up, Bool.false_or, decide_eq_true_eq, if_neg (Nat.not_le_of_lt long)]
  rw [List.append_nil, wire_at, same, on, List.flatten_append, Nat.add_sub_cancel_left]

/-- Where the reader is not stuck, it comes to a state in which the block has just been completed. -/
theorem next_raw_clear (sized : ∀ p ∈ reads, p ≠ [] ∧ p.length ≤ 4096) (back : Line)
    (whole : reads.flatten = front ++ (b.text ++ rest))
    (clear : cut reads front.length b.text.length = false) :
    next_raw (carried reads front.length front.length) (wire_at reads back front.length) =
      (carried reads front.length (front.length + b.text.length),
        wire_at reads back (front.length + b.text.length)) := by
  have size := congrArg List.length whole
  simp only [List.length_append] at size
  have come : front.length ≤ reads.flatten.length := by omega
  have here := le_reach come
  have carry := carried_front whole (Nat.le_refl _) come
  have carry_size := carried_length reads front.length front.length
  by_cases complete : b.text.length ≤ reach front.length reads - front.length
  · have same := upto_same (Nat.le_add_right front.length b.text.length)
      (show front.length + b.text.length ≤ reach front.length reads by omega)
    have found := b.find_long (i := 0) (Nat.zero_le _) (by rwa [List.drop_zero])
      (show b.text.length ≤ 0 + (carried reads front.length front.length).length by omega)
    rw [next_raw, if_pos found]
    simp only [carried, wire_at, same]
  · have apart : reach front.length reads - front.length + 4 ≤ b.text.length := by
      simp only [cut, Bool.and_eq_false_iff, decide_eq_false_iff_not] at clear
      omega
    have early : reach front.length reads - front.length ≤ b.head.length := by
      have text := b.text_length
      omega
    have left : (upto front.length reads).2.flatten =
        b.text.drop (reach front.length reads - front.length) ++ rest := by
      rw [to_come whole come, List.drop_append_of_le_length (by omega)]
    refine next_raw_on sized back ?_ come (by omega) ?_ ?_
    · exact b.find_short (i := 0) (by rwa [List.drop_zero]) (by omega)
    · intro j short
      have inside : (upto j (upto front.length reads).2).1.flatten <+: _ := ⟨_, upto_flatten j _⟩
      rw [left] at inside
      rw [reach] at short
      have fits := b.fits
      have text := b.text_length
      rw [headers_read, b.find_short inside (by omega), Bool.false_or, decide_eq_false_iff_not]
      omega
    · have text := upto_flatten (front.length + b.text.length - reach front.length reads)
        (upto front.length reads).2
      have long : front.length + b.text.length - reach front.length reads ≤
          (upto (front.length + b.text.length - reach front.length reads)
            (upto front.length reads).2).1.flatten.length :=
        le_reach (by rw [left, List.length_append, List.length_drop]; omega)
      rw [left] at text
      exact b.find_long early ⟨_, text⟩ (by omega)

section Behind

variable {start i : Nat}

/-- Behind a cut empty line the reader goes on to that of the next block. -/
theorem next_raw_behind (sized : ∀ p ∈ reads, p ≠ [] ∧ p.length ≤ 4096) (back : Line)
    (none_carried : (find_header_end (carried reads start start)).isSome = false)
    (come : start ≤ reads.flatten.length) (late : b.head.length < i) (early : i < b.text.length)
    (left : (upto start reads).2.flatten = b.text.drop i ++ (c.text ++ rest))
    (fits : reach start reads + (b.text.length - i + c.text.length) ≤ too_long reads (reach start reads)) :
    next_raw (carried reads start start) (wire_at reads back start) =
      (carried reads start (reach start reads + (b.text.length - i + c.text.length)),
        wire_at reads back (reach start reads + (b.text.length - i + c.text.length))) := by
  rw [too_long_eq come] at fits
  refine next_raw_on sized back none_carried come (Nat.le_add_right _ _) ?_ ?_
  · intro j short
    have inside : (upto j (upto start reads).2).1.flatten <+: _ := ⟨_, upto_flatten j _⟩
    rw [left] at inside
    rw [Nat.add_sub_cancel_left] at short
    have first (there : MAX_CLIENT_HEADER_SIZE + 1 ≤ reach j (upto start reads).2) :
        reach (MAX_CLIENT_HEADER_SIZE + 1) (upto start reads).2 ≤ reach j (upto start reads).2 :=
      reach_first there
    rw [reach] at short
    rw [headers_read, b.find_cut_short c late early inside (by omega), Bool.false_or,
      decide_eq_false_iff_not, ← reach]
    rw [← reach] at short
    omega
  · have text := upto_flatten (b.text.length - i + c.text.length) (upto start reads).2
    have long : b.text.length - i + c.text.length ≤
        (upto (b.text.length - i + c.text.length) (upto start reads).2).1.flatten.length :=
      le_reach (by rw [left, List.length_append, List.length_append, List.length_drop]; omega)
    rw [left] at text
    rw [Nat.add_sub_cancel_left]
    exact b.find_cut_long c ⟨_, text⟩ early.le (by omega)

theorem next_raw_given_up (sized : ∀ p ∈ reads, p ≠ [] ∧ p.length ≤ 4096) (back : Line)
    (none_carried : (find_header_end (carried reads start start)).isSome = false)
    (come : start ≤ reads.flatten.length) (late : b.head.length < i) (early : i < b.text.length)
    (left : (upto start reads).2.flatten = b.text.drop i ++ (c.text ++ rest))
    (long : too_long reads (reach start reads) < reach start reads + (b.text.length - i + c.text.length)) :
    next_raw (carried reads start start) (wire_at reads back start) =
      (carried reads start start, wire_at reads back (too_long reads (reach start reads))) := by
  rw [too_long_eq come] at long
  have size := congrArg List.length left
  rw [List.length_append, List.length_append, List.length_drop] at size
  have enough : MAX_CLIENT_HEADER_SIZE + 1 ≤ reach (MAX_CLIENT_HEADER_SIZE + 1) (upto start reads).2 :=
    le_reach_of_lt (by omega)
  refine next_raw_long sized back none_carried come ?_ enough
  intro j short
  have inside : (upto j (upto start reads).2).1.flatten <+: _ := ⟨_, upto_flatten j _⟩
  rw [left] at inside
  refine b.find_cut_short c late early inside ?_
  rw [← reach]
  omega

end Behind

theorem next_raw_whole (back : Line) (whole : reads.flatten = front ++ (b.text ++ rest)) {e : Nat}
    (behind : front.length + b.text.length ≤ e) (come : e ≤ reads.flatten.length) :
    next_raw (carried reads front.length e) (wire_at reads back e) =
      (carried reads front.length e, wire_at reads back e) := by
  have carry := carried_front whole (by omega) come
  have carry_size := carried_length reads front.length e
  have reached := le_reach come
  have found := b.find_long (i := 0) (Nat.zero_le _) (by rwa [List.drop_zero])
    (show b.text.length ≤ 0 + (carried reads front.length e).length by omega)
  rw [next_raw, if_pos found]

theorem carried_split {t : Bytes} (whole : reads.flatten = front ++ (t ++ rest)) {e : Nat}
    (behind : front.length + t.length ≤ e) (come : e ≤ reads.flatten.length) :
    carried reads front.length e = t ++ carried reads (front.length + t.length) e := by
  have carry := carried_front whole (by omega) come
  have carry_size := carried_length reads front.length e
  have reached := le_reach come
  obtain ⟨extra, shape⟩ : t <+: carried reads front.length e :=
    List.prefix_of_prefix_length_le (List.prefix_append _ _) carry (by omega)
  have same : carried reads (front.length + t.length) e = extra := by
    rw [carried, ← List.drop_drop, ← carried, ← shape, List.drop_left]
  rw [same, shape]

theorem carried_head (whole : reads.flatten = front ++ (b.text ++ rest)) {e : Nat}
    (behind : front.length + b.text.length ≤ e) (come : e ≤ reads.flatten.length) :
    Head (carried reads front.length e) b.code b.head
      (carried reads (front.length + b.text.length) e) := by
  rw [carried_split whole behind come]
  refine ⟨b.text_append _, ?_, b.status⟩
  · rw [Block.text]
    exact Lib.Search.find_stable b.ends _

end Reads

end AoSdl.http.client
