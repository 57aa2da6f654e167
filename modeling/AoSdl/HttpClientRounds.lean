import AoSdl.HttpClientInterim

/-! The rounds of the loop that comes to a final head. A reader that goes on past a cut empty line is
stuck at the next block, or loses it. -/
namespace AoSdl.http.client
open Lib.Arrivals

/-- How the reader stands at a block. -/
inductive Standing where
  /-- It has what came with the end of what is before the block. -/
  | clear
  /-- The empty line before the block was cut, and the reader has gone on to that of the block. -/
  | stuck
  /-- It went on to a read that ends at `e`, within the empty line of the block, and gave up. -/
  | lost (e : Nat)

def next (final : Block) (bs : List Block) : Block := bs.head?.getD final

/-- How the reader stands at the block `c` behind a block `b` whose empty line is cut. -/
def behind_cut (reads : List Bytes) (start : Nat) (b c : Block) : Standing :=
  if too_long reads (reach start reads) < start + b.text.length + c.text.length then
    .lost (too_long reads (reach start reads))
  else .stuck

/-- Whether the reader comes to the final head. -/
def passes (reads : List Bytes) (final : Block) : Standing → Nat → List Block → Bool
  | .clear, start, [] => !cut reads start final.text.length ||
      (find_header_end
        ((upto (start + final.text.length) reads).1.flatten.drop (reach start reads))).isSome
  | .clear, start, b :: bs =>
    if cut reads start b.text.length then
      passes reads final (behind_cut reads start b (next final bs)) (start + b.text.length) bs
    else passes reads final .clear (start + b.text.length) bs
  | .stuck, _, [] => true
  | .stuck, start, b :: bs => passes reads final .clear (start + b.text.length) bs
  | .lost _, _, [] => false
  | .lost _, _, [_] => false
  | .lost e, start, b :: c :: bs =>
    decide (start + b.text.length + c.text.length ≤ too_long reads e) &&
      passes reads final .clear (start + b.text.length + c.text.length) bs

/-- The reader is not held up by an empty line that was cut. -/
def Delivery.Clear (d : Delivery) : Prop := passes d.reads d.final .clear 0 d.interims = true

section Rounds

variable {reads : List Bytes} {front rest : Bytes} {b c : Block}
variable {text head extra carry : Bytes} {code : Nat} {w w' : Wire}

theorem skip_round (raw : next_raw carry w = (text, w')) (starts : Head text code head extra)
    (interim : Interim code) (fuel : Nat) :
    read_final_headers (fuel + 1) carry w = read_final_headers fuel extra w' := by
  rw [read_final_headers_succ, raw]
  simp only [starts.is_interim, decide_eq_true interim, if_true, starts.ends, Option.elim_some]
  congr 1
  rw [starts.shape, ← List.append_assoc]
  exact List.drop_left' (by simp [CRLF])

theorem return_round (raw : next_raw carry w = (text, w')) (plain : is_interim text = false)
    (fuel : Nat) : read_final_headers (fuel + 1) carry w = (text, w') := by
  rw [read_final_headers_succ, raw]
  simp only [plain, Bool.false_eq_true, if_false]

theorem next_raw_length (carry : Bytes) (w : Wire) :
    (next_raw carry w).1.length + w.taken.length ≤ carry.length + (next_raw carry w).2.taken.length := by
  unfold next_raw
  split
  · exact Nat.le_refl _
  · have drawn := gather_drawn headers_read (fun _ => 4096) [] w
    obtain ⟨got, taken, all⟩ := drawn.advances
    have same := drawn.letters
    rw [List.nil_append, ← all] at same
    have size := congrArg List.length (List.append_cancel_right same)
    simp only [read_headers]
    rw [taken, List.length_append, List.length_append]
    split
    · omega
    · rw [List.length_nil]
      omega

/-- No more is returned than has been taken off the wire. -/
theorem read_final_headers_length (fuel : Nat) (carry : Bytes) (w : Wire) :
    (read_final_headers fuel carry w).1.length + w.taken.length ≤
      carry.length + (read_final_headers fuel carry w).2.taken.length := by
  induction fuel generalizing carry w with
  | zero => exact Nat.le_refl _
  | succ fuel ih =>
    have raw := next_raw_length carry w
    rw [read_final_headers_succ]
    split
    · have later := ih ((find_header_end (next_raw carry w).1).elim [] fun header_end =>
        (next_raw carry w).1.drop (header_end + 4)) (next_raw carry w).2
      have shorter : ((find_header_end (next_raw carry w).1).elim [] fun header_end =>
          (next_raw carry w).1.drop (header_end + 4)).length ≤ (next_raw carry w).1.length := by
        cases find_header_end (next_raw carry w).1 with
        | none => exact Nat.zero_le _
        | some n =>
          rw [Option.elim_some, List.length_drop]
          exact Nat.sub_le _ _
      omega
    · exact raw

section Cut

variable (whole : reads.flatten = front ++ (b.text ++ rest))
include whole

theorem cut_come : front.length ≤ reads.flatten.length := by
  rw [whole, List.length_append]
  omega

theorem cut_left (incomplete : reach front.length reads - front.length < b.text.length) :
    (upto front.length reads).2.flatten =
      b.text.drop (reach front.length reads - front.length) ++ rest := by
  rw [to_come whole (cut_come whole), List.drop_append_of_le_length incomplete.le]

theorem cut_none (incomplete : reach front.length reads - front.length < b.text.length) :
    (find_header_end (carried reads front.length front.length)).isSome = false := by
  have carry := carried_front whole (Nat.le_refl _) (cut_come whole)
  refine b.find_short (i := 0) (by rwa [List.drop_zero]) ?_
  rw [carried_length]
  omega

theorem cut_interim (late : b.head.length < reach front.length reads - front.length) (more : Bytes) :
    is_interim (carried reads front.length front.length ++ more) = decide (Interim b.code) := by
  have carry := carried_front whole (Nat.le_refl _) (cut_come whole)
  have carry_size := carried_length reads front.length front.length
  have head : b.head ++ [13] <+: carried reads front.length front.length := by
    refine List.prefix_of_prefix_length_le ⟨[10, 13, 10] ++ rest, ?_⟩ carry ?_
    · rw [Block.text]
      simp [CRLF]
    · rw [List.length_append, List.length_singleton, carry_size]
      omega
  obtain ⟨t, shape⟩ := head
  rw [← shape, List.append_assoc, List.append_assoc, List.singleton_append, is_interim,
    interim_code_head b.status, Option.any_some, ← Bool.decide_and]
  refine decide_eq_decide.mpr ?_
  unfold Interim
  omega

theorem completing (incomplete : reach front.length reads - front.length < b.text.length) :
    upto (front.length + b.text.length) reads =
      ((upto front.length reads).1 ++
        (upto (front.length + b.text.length - reach front.length reads) (upto front.length reads).2).1,
      (upto (front.length + b.text.length - reach front.length reads)
        (upto front.length reads).2).2) := by
  have here := le_reach (cut_come whole)
  exact upto_on (Nat.le_add_right _ _) (by omega)

theorem completing_bytes (incomplete : reach front.length reads - front.length < b.text.length) :
    (upto (front.length + b.text.length) reads).1.flatten.drop (reach front.length reads) =
      (upto (front.length + b.text.length - reach front.length reads)
        (upto front.length reads).2).1.flatten := by
  rw [completing whole incomplete, List.flatten_append, reach, List.drop_left]

/-- An empty line that comes behind does for the one that was cut. -/
theorem next_raw_lucky (sized : ∀ p ∈ reads, p ≠ [] ∧ p.length ≤ 4096)
    (incomplete : reach front.length reads - front.length < b.text.length)
    (lucky : (find_header_end ((upto (front.length + b.text.length) reads).1.flatten.drop
      (reach front.length reads))).isSome = true) (back : Line) :
    next_raw (carried reads front.length front.length) (wire_at reads back front.length) =
      (carried reads front.length (front.length + b.text.length),
        wire_at reads back (front.length + b.text.length)) := by
  have come := cut_come whole
  have fits := b.fits
  have size := b.text_length
  have here := le_reach come
  refine next_raw_on sized back (cut_none whole incomplete) come (by omega) ?_ ?_
  · intro j short
    have inside : (upto j (upto front.length reads).2).1.flatten <+: _ := ⟨_, upto_flatten j _⟩
    rw [cut_left whole incomplete] at inside
    rw [reach] at short
    rw [headers_read, b.find_short inside (by omega), Bool.false_or, decide_eq_false_iff_not]
    omega
  · rwa [← completing_bytes whole incomplete]

/-- Without one the reader takes more off the wire than the head. -/
theorem takes_more (sized : ∀ p ∈ reads, p ≠ [] ∧ p.length ≤ 4096) (plain : ¬ Interim b.code)
    (cut : cut reads front.length b.text.length = true)
    (unlucky : (find_header_end ((upto (front.length + b.text.length) reads).1.flatten.drop
      (reach front.length reads))).isSome = false) (fuel : Nat) :
    (read_final_headers (fuel + 1) (carried reads front.length front.length)
        (wire_at reads [.fails] front.length)).2.line.length <
      (wire_at reads [.fails] (front.length + b.text.length)).line.length := by
  simp only [client.cut, Bool.and_eq_true, decide_eq_true_eq] at cut
  obtain ⟨near, incomplete⟩ := cut
  have here := le_reach (cut_come whole)
  have size := b.text_length
  have later := later_sized sized front.length
  have left_size := reach_le (fun p inside => (later p inside).2)
    (front.length + b.text.length - reach front.length reads)
  have running : ∀ q, q <+: (upto front.length reads).2.flatten →
      q.length ≤ reach (front.length + b.text.length - reach front.length reads)
        (upto front.length reads).2 → headers_read ([] ++ q) = false := by
    intro q inside short
    have shorter : q <+: (upto (front.length + b.text.length - reach front.length reads)
        (upto front.length reads).2).1.flatten :=
      List.prefix_of_prefix_length_le inside ⟨_, upto_flatten _ _⟩ short
    rw [completing_bytes whole incomplete, Option.isSome_eq_false_iff, Option.isNone_iff_eq_none]
      at unlucky
    have missing : find_header_end q = none :=
      Lib.Search.find_absent (Lib.Search.find_none.mp unlucky) shorter
    rw [List.nil_append, headers_read, missing, Option.isSome_none, Bool.false_or,
      decide_eq_false_iff_not, MAX_CLIENT_HEADER_SIZE]
    omega
  have past := pull_past (upto front.length reads).1.flatten later (Nat.lt_succ_self _) running
  have raw : next_raw (carried reads front.length front.length) (wire_at reads [.fails] front.length) =
      (carried reads front.length front.length ++ (read_headers (wire_at reads [.fails] front.length)).1,
        (read_headers (wire_at reads [.fails] front.length)).2) := by
    rw [next_raw, cut_none whole incomplete, if_neg (by decide)]
  have status := (cut_interim whole (by omega)
    (read_headers (wire_at reads [.fails] front.length)).1).trans (decide_eq_false plain)
  rw [return_round raw status, wire_at, wire_at, completing whole incomplete]
  exact past

end Cut

/-- Where the bytes begin that the reader has at hand at a block. -/
def begins : Standing → Nat → Nat
  | .clear, start => start
  | .stuck, start => start
  | .lost e, _ => e

/-- Where they end, but for what the last read has brought behind. -/
def due : Standing → Nat → Block → Nat
  | .clear, start, _ => start
  | .stuck, start, b => start + b.text.length
  | .lost e, _, _ => e

/-- A reader that has lost a block is left within its empty line. -/
def Stands (reads : List Bytes) : Standing → Nat → Block → Prop
  | .lost e, start, b => reach e reads = e ∧ start + b.head.length < e ∧ e < start + b.text.length
  | _, _, _ => True

/-- With what has come from `s` to `e` at hand, more than `n` rounds return the head that stands from
`sk` to `he`. -/
def Answers (reads : List Bytes) (back : Line) (n s e sk he : Nat) : Prop :=
  ∀ fuel, n < fuel → read_final_headers fuel (carried reads s e) (wire_at reads back e) =
    (carried reads sk he, wire_at reads back he)

structure Verdict (reads : List Bytes) (ok : Bool) (n s e sk he : Nat) : Prop where
  answers : ok = true → ∀ back, Answers reads back n s e sk he
  passes : ∀ m, Answers reads [.fails] m s e sk he → ok = true

theorem Verdict.round {ok : Bool} {n n' s e s' e' sk he : Nat} (fewer : n' < n)
    (step : ∀ back fuel, read_final_headers (fuel + 1) (carried reads s e) (wire_at reads back e) =
      read_final_headers fuel (carried reads s' e') (wire_at reads back e'))
    (rest : Verdict reads ok n' s' e' sk he) : Verdict reads ok n s e sk he where
  answers good back fuel enough := by
    obtain ⟨fuel, rfl⟩ : ∃ m, fuel = m + 1 := ⟨fuel - 1, by omega⟩
    rw [step back fuel]
    exact rest.answers good back fuel (by omega)
  passes m answers := by
    refine rest.passes m fun fuel enough => ?_
    rw [← step [.fails] fuel]
    exact answers (fuel + 1) (by omega)

theorem Verdict.good {n s e sk he : Nat}
    (step : ∀ back fuel, read_final_headers (fuel + 1) (carried reads s e) (wire_at reads back e) =
      (carried reads sk he, wire_at reads back he)) : Verdict reads true n s e sk he where
  answers _ back fuel enough := by
    obtain ⟨fuel, rfl⟩ : ∃ m, fuel = m + 1 := ⟨fuel - 1, by omega⟩
    exact step back fuel
  passes _ _ := rfl

theorem Verdict.bad {n s e sk he : Nat}
    (step : ∀ fuel, read_final_headers (fuel + 1) (carried reads s e) (wire_at reads [.fails] e) ≠
      (carried reads sk he, wire_at reads [.fails] he)) : Verdict reads false n s e sk he where
  answers good := absurd good (by decide)
  passes m answers := absurd (answers (m + 1) (Nat.lt_succ_self m)) (step m)

theorem carried_lost {e : Nat} (again : reach e reads = e) : carried reads e e = [] := by
  refine List.length_eq_zero_iff.mp ?_
  rw [carried_length, again, Nat.sub_self]

/-- How the empty line of a block is cut. -/
theorem cut_facts {start : Nat} (stuck : cut reads start b.text.length = true) :
    b.head.length < reach start reads - start ∧ reach start reads - start < b.text.length := by
  have size := b.text_length
  simp only [cut, Bool.and_eq_true, decide_eq_true_eq] at stuck
  omega

section Final

variable (sized : ∀ p ∈ reads, p ≠ [] ∧ p.length ≤ 4096)
variable (whole : reads.flatten = front ++ (b.text ++ rest))
include sized whole

theorem clear_final (plain : ¬ Interim b.code) (n : Nat) :
    Verdict reads (passes reads b .clear front.length []) n front.length front.length front.length
      (front.length + b.text.length) := by
  have size := congrArg List.length whole
  simp only [List.length_append] at size
  have head := carried_head whole (Nat.le_refl _) (by omega)
  have status := head.is_interim.trans (decide_eq_false plain)
  rw [passes]
  cases stuck : cut reads front.length b.text.length with
  | false => exact .good fun back fuel => return_round (next_raw_clear sized back whole stuck) status fuel
  | true =>
    obtain ⟨late, incomplete⟩ := cut_facts stuck
    cases lucky : (find_header_end ((upto (front.length + b.text.length) reads).1.flatten.drop
        (reach front.length reads))).isSome with
    | true =>
      refine .good fun back fuel => ?_
      exact return_round (next_raw_lucky whole sized incomplete lucky back) status fuel
    | false =>
      refine .bad fun fuel same => ?_
      have more := takes_more whole sized plain stuck lucky fuel
      rw [same] at more
      exact absurd more (Nat.lt_irrefl _)

end Final

theorem clear_step (sized : ∀ p ∈ reads, p ≠ [] ∧ p.length ≤ 4096)
    (whole : reads.flatten = front ++ (b.text ++ (c.text ++ rest))) (interim : Interim b.code)
    (back : Line) (fuel : Nat) :
    (cut reads front.length b.text.length = false →
      read_final_headers (fuel + 1) (carried reads front.length front.length)
          (wire_at reads back front.length) =
        read_final_headers fuel
          (carried reads (front.length + b.text.length) (front.length + b.text.length))
          (wire_at reads back (front.length + b.text.length))) ∧
    (cut reads front.length b.text.length = true →
      Stands reads (behind_cut reads front.length b c) (front.length + b.text.length) c ∧
      read_final_headers (fuel + 1) (carried reads front.length front.length)
          (wire_at reads back front.length) =
        read_final_headers fuel
          (carried reads (begins (behind_cut reads front.length b c) (front.length + b.text.length))
            (due (behind_cut reads front.length b c) (front.length + b.text.length) c))
          (wire_at reads back
            (due (behind_cut reads front.length b c) (front.length + b.text.length) c))) := by
  have size := congrArg List.length whole
  simp only [List.length_append] at size
  have come : front.length ≤ reads.flatten.length := by omega
  have here := le_reach come
  refine ⟨fun clear => ?_, fun stuck => ?_⟩
  · exact skip_round (next_raw_clear sized back whole clear)
      (carried_head whole (Nat.le_refl _) (by omega)) interim fuel
  · obtain ⟨late, incomplete⟩ := cut_facts stuck
    have left := cut_left whole incomplete
    have none_carried := cut_none whole incomplete
    have stop : reach front.length reads +
        (b.text.length - (reach front.length reads - front.length) + c.text.length) =
          front.length + b.text.length + c.text.length := by omega
    unfold behind_cut
    split
    · next long =>
      have raw := next_raw_given_up sized back none_carried come late incomplete left
        (by rw [stop]; exact long)
      have fits := c.fits
      have c_size := c.text_length
      have b_size := b.text_length
      have total : too_long reads (reach front.length reads) < reads.flatten.length := by omega
      have enough := le_reach_of_lt (m := reach front.length reads + (MAX_CLIENT_HEADER_SIZE + 1)) total
      rw [← too_long] at enough
      have again := reach_idem (enough.trans total.le)
      rw [← too_long] at again
      refine ⟨⟨again, by omega, long⟩, ?_⟩
      have status := (cut_interim whole late []).trans (decide_eq_true interim)
      rw [List.append_nil] at status
      rw [read_final_headers_succ, raw]
      simp only [status, if_true]
      rw [Option.isSome_eq_false_iff, Option.isNone_iff_eq_none] at none_carried
      rw [none_carried, Option.elim_none, begins, due, carried_lost again]
    · next fits =>
      have raw := next_raw_behind sized back none_carried come late incomplete left
        (by rw [stop]; omega)
      rw [stop] at raw
      exact ⟨trivial, skip_round raw (carried_head whole (by omega) (by omega)) interim fuel⟩

section Lost

variable {start e : Nat}

/-- Where the reader stands that has lost a block: inside it, behind its first byte. -/
theorem lost_split (whole : reads.flatten = front ++ (b.text ++ (c.text ++ rest)))
    (stands : Stands reads (.lost e) front.length b) :
    reads.flatten = (front ++ b.text.take (e - front.length)) ++
      (b.text.drop (e - front.length) ++ (c.text ++ rest)) ∧
    (front ++ b.text.take (e - front.length)).length = e := by
  obtain ⟨again, late, early⟩ := stands
  have size := congrArg List.length whole
  simp only [List.length_append] at size
  have part : (b.text.take (e - front.length)).length = e - front.length := by
    rw [List.length_take]
    omega
  constructor
  · rw [whole, List.append_assoc, ← List.append_assoc (b.text.take _), List.take_append_drop]
  · rw [List.length_append, part]
    omega

/-- The next head is found behind the rest of the lost block. -/
theorem lost_head (whole : reads.flatten = front ++ (b.text ++ (c.text ++ rest)))
    (stands : Stands reads (.lost e) front.length b) :
    Head (carried reads e (front.length + b.text.length + c.text.length)) c.code
      (b.text.drop (e - front.length) ++ c.head)
      (carried reads (front.length + b.text.length + c.text.length)
        (front.length + b.text.length + c.text.length)) := by
  obtain ⟨split, at_e⟩ := lost_split whole stands
  obtain ⟨again, late, early⟩ := stands
  have size := congrArg List.length whole
  simp only [List.length_append] at size
  have tail_size : (b.text.drop (e - front.length)).length = b.text.length - (e - front.length) :=
    List.length_drop
  have tail := carried_split split (e := front.length + b.text.length + c.text.length)
    (by omega) (by omega)
  have next : reads.flatten = (front ++ b.text) ++ (c.text ++ rest) := by
    rw [whole, List.append_assoc]
  have behind := carried_split next (e := front.length + b.text.length + c.text.length)
    (by rw [List.length_append]) (by omega)
  have at_c : e + (b.text.drop (e - front.length)).length = (front ++ b.text).length := by
    rw [tail_size, List.length_append]
    omega
  rw [at_e, at_c, behind, List.length_append] at tail
  rw [tail]
  refine ⟨?_, ?_, status_of_behind (b.cut_clean (by omega) (by omega)) c.status⟩
  · rw [c.text_append]
    exact (List.append_assoc _ _ _).symm
  · have found := Lib.Search.find_stable c.ends (carried reads
      (front.length + b.text.length + c.text.length) (front.length + b.text.length + c.text.length))
    rw [b.find_behind (by omega) (by omega) (c.no_cr_first (List.prefix_refl _))]
    rw [← Block.text] at found
    rw [find_header_end, found, Option.map_some, List.length_append, tail_size, Nat.add_comm]

/-- What the reader finds that has lost a block: the head of the next, if that is not too long. -/
theorem lost_raw (sized : ∀ p ∈ reads, p ≠ [] ∧ p.length ≤ 4096)
    (whole : reads.flatten = front ++ (b.text ++ (c.text ++ rest)))
    (stands : Stands reads (.lost e) front.length b) (back : Line) :
    (front.length + b.text.length + c.text.length ≤ too_long reads e →
      next_raw (carried reads e e) (wire_at reads back e) =
        (carried reads e (front.length + b.text.length + c.text.length),
          wire_at reads back (front.length + b.text.length + c.text.length))) ∧
    (too_long reads e < front.length + b.text.length + c.text.length →
      next_raw (carried reads e e) (wire_at reads back e) = ([], wire_at reads back (too_long reads e))) := by
  obtain ⟨split, at_e⟩ := lost_split whole stands
  obtain ⟨again, late, early⟩ := stands
  have size := congrArg List.length whole
  simp only [List.length_append] at size
  have left := to_come split (by omega)
  rw [at_e, again, Nat.sub_self, List.drop_zero] at left
  have none_carried : (find_header_end (carried reads e e)).isSome = false := by
    rw [carried_lost again]
    rfl
  have stop : reach e reads + (b.text.length - (e - front.length) + c.text.length) =
      front.length + b.text.length + c.text.length := by omega
  constructor
  · intro fits
    have raw := next_raw_behind sized back none_carried (by omega) (b := b) (c := c)
      (i := e - front.length) (by omega) (by omega) left (by rw [stop, again]; exact fits)
    rwa [stop] at raw
  · intro long
    have raw := next_raw_given_up sized back none_carried (by omega) (b := b) (c := c)
      (i := e - front.length) (by omega) (by omega) left (by rw [stop, again]; exact long)
    rw [again, carried_lost again] at raw
    rw [carried_lost again]
    exact raw

/-- A final head that has been lost is not returned. -/
theorem lost_final (whole : reads.flatten = front ++ (b.text ++ rest))
    (stands : Stands reads (.lost e) front.length b) (n : Nat) :
    Verdict reads false n e e front.length (front.length + b.text.length) := by
  obtain ⟨again, late, early⟩ := stands
  have size := congrArg List.length whole
  simp only [List.length_append] at size
  have reached : front.length + b.text.length ≤ reach (front.length + b.text.length) reads :=
    le_reach (by omega)
  refine .bad fun fuel same => ?_
  have taken := read_final_headers_length (fuel + 1) (carried reads e e) (wire_at reads [.fails] e)
  rw [same, carried_length, carried_length, wire_at_length, wire_at_length, again] at taken
  omega

theorem lost_long (sized : ∀ p ∈ reads, p ≠ [] ∧ p.length ≤ 4096)
    (whole : reads.flatten = front ++ (b.text ++ (c.text ++ rest)))
    (stands : Stands reads (.lost e) front.length b)
    (long : too_long reads e < front.length + b.text.length + c.text.length) {sk he : Nat}
    (some_head : sk < he) (come : he ≤ reads.flatten.length) (n : Nat) :
    Verdict reads false n e e sk he := by
  refine .bad fun fuel same => ?_
  have raw := (lost_raw sized whole stands [.fails]).2 long
  rw [return_round raw rfl] at same
  have size := congrArg List.length (congrArg Prod.fst same)
  have reached := le_reach come
  rw [carried_length, List.length_nil] at size
  omega

/-- A final head behind a block that has been lost is returned with the rest of that block. -/
theorem lost_last (sized : ∀ p ∈ reads, p ≠ [] ∧ p.length ≤ 4096)
    (whole : reads.flatten = front ++ (b.text ++ (c.text ++ rest)))
    (stands : Stands reads (.lost e) front.length b) (plain : ¬ Interim c.code) (n : Nat) :
    Verdict reads false n e e (front.length + b.text.length)
      (front.length + b.text.length + c.text.length) := by
  have size := congrArg List.length whole
  simp only [List.length_append] at size
  have c_size := c.text_length
  by_cases fits : front.length + b.text.length + c.text.length ≤ too_long reads e
  · refine .bad fun fuel same => ?_
    have raw := (lost_raw sized whole stands [.fails]).1 fits
    have starts := lost_head whole stands
    rw [return_round raw (starts.is_interim.trans (decide_eq_false plain))] at same
    have sizes := congrArg List.length (congrArg Prod.fst same)
    have reached : front.length + b.text.length + c.text.length ≤
        reach (front.length + b.text.length + c.text.length) reads := le_reach (by omega)
    rw [carried_length, carried_length] at sizes
    obtain ⟨_, _, early⟩ := stands
    omega
  · exact lost_long sized whole stands (Nat.lt_of_not_le fits) (by omega) (by omega) n

end Lost

theorem next_text (final : Block) (bs : List Block) (body : Bytes) :
    ∃ more, (bs.map Block.text).flatten ++ (final.text ++ body) = (next final bs).text ++ more := by
  cases bs with
  | nil => exact ⟨body, rfl⟩
  | cons b bs => exact ⟨_, List.append_assoc _ _ _⟩

section Blocks

variable (bs : List Block) (final : Block) (body : Bytes)

theorem behind_block (whole : reads.flatten =
      front ++ (((b :: bs).map Block.text).flatten ++ (final.text ++ body))) :
    reads.flatten = (front ++ b.text) ++ ((bs.map Block.text).flatten ++ (final.text ++ body)) := by
  rw [whole, List.map_cons, List.flatten_cons, List.append_assoc, List.append_assoc]

theorem at_block (whole : reads.flatten =
      front ++ (((b :: bs).map Block.text).flatten ++ (final.text ++ body))) :
    ∃ more, reads.flatten = front ++ (b.text ++ ((next final bs).text ++ more)) := by
  obtain ⟨more, text⟩ := next_text final bs body
  exact ⟨more, by rw [behind_block bs final body whole, text, List.append_assoc]⟩

theorem whole_come (whole : reads.flatten =
      front ++ ((bs.map Block.text).flatten ++ (final.text ++ body))) :
    front.length + (bs.map Block.text).flatten.length + final.text.length ≤ reads.flatten.length := by
  rw [whole, List.length_append, List.length_append, List.length_append]
  omega

theorem blocks_length : ((b :: bs).map Block.text).flatten.length =
    b.text.length + (bs.map Block.text).flatten.length := by
  rw [List.map_cons, List.flatten_cons, List.length_append]

end Blocks

/-- Every run of the reader over interim blocks to a final head. -/
theorem verdict (sized : ∀ p ∈ reads, p ≠ [] ∧ p.length ≤ 4096) {final : Block}
    (plain : ¬ Interim final.code) {body : Bytes} (st : Standing) (start : Nat) (bs : List Block)
    (at_start : front.length = start)
    (whole : reads.flatten = front ++ ((bs.map Block.text).flatten ++ (final.text ++ body)))
    (interim : ∀ b ∈ bs, Interim b.code) (stands : Stands reads st start (next final bs)) :
    Verdict reads (passes reads final st start bs) bs.length (begins st start)
      (due st start (next final bs)) (start + (bs.map Block.text).flatten.length)
      (start + (bs.map Block.text).flatten.length + final.text.length) := by
  induction st, start, bs using passes.induct reads final generalizing front with
  | case1 start =>
    subst at_start
    exact clear_final sized whole plain _
  | case2 start b bs stuck ih =>
    subst at_start
    obtain ⟨more, here⟩ := at_block bs final body whole
    have step := fun back fuel => (clear_step sized here (interim b List.mem_cons_self) back fuel).2 stuck
    have later := ih List.length_append (behind_block bs final body whole)
      (fun c inside => interim c (List.mem_cons_of_mem b inside)) (step [] 0).1
    rw [passes, if_pos stuck, blocks_length, ← Nat.add_assoc]
    exact later.round (Nat.lt_succ_self _) fun back fuel => (step back fuel).2
  | case3 start b bs clear ih =>
    subst at_start
    obtain ⟨more, here⟩ := at_block bs final body whole
    have step := fun back fuel => (clear_step sized here (interim b List.mem_cons_self) back fuel).1
      (Bool.not_eq_true _ ▸ clear)
    have later := ih List.length_append (behind_block bs final body whole)
      (fun c inside => interim c (List.mem_cons_of_mem b inside)) trivial
    rw [passes, if_neg clear, blocks_length, ← Nat.add_assoc]
    exact later.round (Nat.lt_succ_self _) step
  | case4 start =>
    subst at_start
    have come : front.length + final.text.length ≤ reads.flatten.length :=
      whole_come [] final body whole
    refine .good fun back fuel => ?_
    exact return_round (next_raw_whole back whole (Nat.le_refl _) come)
      ((carried_head whole (Nat.le_refl _) come).is_interim.trans (decide_eq_false plain)) fuel
  | case5 start b bs ih =>
    subst at_start
    obtain ⟨more, here⟩ := at_block bs final body whole
    have come := whole_come (b :: bs) final body whole
    have later := ih List.length_append (behind_block bs final body whole)
      (fun c inside => interim c (List.mem_cons_of_mem b inside)) trivial
    rw [blocks_length] at come
    rw [passes, blocks_length, ← Nat.add_assoc]
    refine later.round (Nat.lt_succ_self _) fun back fuel => ?_
    exact skip_round (next_raw_whole back here (Nat.le_refl _) (by omega))
      (carried_head here (Nat.le_refl _) (by omega)) (interim b List.mem_cons_self) fuel
  | case6 e start =>
    subst at_start
    exact lost_final whole stands _
  | case7 e start b =>
    subst at_start
    rw [List.map_cons, List.map_nil, List.flatten_cons, List.flatten_nil, List.append_nil] at whole ⊢
    exact lost_last sized whole stands plain _
  | case8 e start b c bs ih =>
    subst at_start
    obtain ⟨more, here⟩ := at_block (c :: bs) final body whole
    have come := whole_come (b :: c :: bs) final body whole
    have behind := behind_block bs final body (behind_block (c :: bs) final body whole)
    have later := ih (by rw [List.length_append, List.length_append]) behind
      (fun d inside => interim d (List.mem_cons_of_mem b (List.mem_cons_of_mem c inside))) trivial
    rw [blocks_length, blocks_length, ← Nat.add_assoc, ← Nat.add_assoc] at come ⊢
    have final_size := final.text_length
    rw [passes]
    by_cases fits : front.length + b.text.length + c.text.length ≤ too_long reads e
    · rw [decide_eq_true fits, Bool.true_and]
      refine later.round (Nat.lt_succ_of_lt (Nat.lt_succ_self _)) fun back fuel => ?_
      exact skip_round ((lost_raw sized here stands back).1 fits) (lost_head here stands)
        (interim c (List.mem_cons_of_mem b List.mem_cons_self)) fuel
    · rw [decide_eq_false fits, Bool.false_and]
      exact lost_long sized here stands (Nat.lt_of_not_le fits) (by omega) come _

end Rounds

namespace Delivery

variable (d : Delivery)

theorem whole_split :
    d.reads.flatten = [] ++ ((d.interims.map Block.text).flatten ++ (d.final.text ++ d.body)) := d.whole

theorem come : d.head_end ≤ d.reads.flatten.length := by
  have all := whole_come d.interims d.final d.body d.whole_split
  rwa [List.length_nil, Nat.zero_add] at all

theorem returned : carried d.reads d.skipped d.head_end =
    d.final.text ++ d.body.take (reach d.head_end d.reads - d.head_end) := by
  have whole : d.reads.flatten =
      ((d.interims.map Block.text).flatten ++ d.final.text) ++ d.body := by
    rw [d.whole, List.append_assoc]
  have at_end : ((d.interims.map Block.text).flatten ++ d.final.text).length = d.head_end :=
    List.length_append
  have rest := carried_front whole (Nat.le_refl _) (by rw [at_end]; exact d.come)
  rw [at_end] at rest
  have split : carried d.reads d.skipped d.head_end =
      d.final.text ++ carried d.reads d.head_end d.head_end :=
    carried_split d.whole (Nat.le_refl _) d.come
  rw [split, List.prefix_iff_eq_take.mp rest, carried_length]

/-- Every delivery is answered exactly if the reader is not held up by an empty line that was cut. -/
theorem answered_iff_clear : d.Answered ↔ d.Clear := by
  have all := verdict d.sized d.plain .clear 0 d.interims rfl d.whole_split d.interim trivial
  have start (back : Line) : wire_at d.reads back 0 = { line := d.reads.map .data ++ back } := by
    rw [wire_at, upto_zero, List.flatten_nil]
  have none_carried : carried d.reads 0 0 = [] := carried_lost (reach_zero _)
  have same (back : Line) : Answers d.reads back d.interims.length 0 0 d.skipped d.head_end ↔
      ∀ fuel, d.interims.length < fuel →
        read_final_headers fuel [] { line := d.reads.map .data ++ back } =
          (d.final.text ++ d.body.take (reach d.head_end d.reads - d.head_end),
            wire_at d.reads back d.head_end) := by
    rw [Answers, none_carried, start, d.returned]
  rw [Nat.zero_add] at all
  constructor
  · intro answered
    exact all.passes _ ((same [.fails]).mpr (answered [.fails]))
  · intro clear back
    exact (same back).mp (all.answers clear back)

/-- The last letter of the empty line comes by itself behind an interim response: the reader waits for
more. -/
theorem cut_line_waits : ¬ ∀ d : Delivery, d.Answered := by
  intro all
  have waits := all {
    interims := [{
      head := bytes "HTTP/1.1 100 Continue"
      code := 100
      ends := by decide +kernel
      status := by decide +kernel
      version := by decide +kernel
      fits := by decide +kernel }]
    interim := by decide +kernel
    final := {
      head := bytes "HTTP/1.1 200 OK"
      code := 200
      ends := by decide +kernel
      status := by decide +kernel
      version := by decide +kernel
      fits := by decide +kernel }
    plain := by decide +kernel
    body := []
    reads := [bytes "HTTP/1.1 100 Continue\r\n\r\nHTTP/1.1 200 OK\r\n\r", bytes "\n"]
    sized := by decide +kernel
    whole := by decide +kernel } [.fails] 2 (by decide)
  exact absurd (congrArg (fun r => r.2.line) waits) (by decide +kernel)

end Delivery

end AoSdl.http.client
