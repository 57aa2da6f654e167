import AoSdl.HttpBodyLength

/-! What `validate_raw_request` finds wrong with the header lines. A blank at the start is looked for
behind every line end; a blank before the colon only in lines that have a line end themselves, which
the last line of a head has not. -/
namespace AoSdl.http

/-- The line goes on from the one before it. -/
def starts_blank (line : Bytes) : Bool := line.head?.any is_blank

def Malformed (line : Bytes) : Prop := starts_blank line = true ∨ blank_before_colon line = true

instance (line : Bytes) : Decidable (Malformed line) :=
  inferInstanceAs (Decidable (starts_blank line = true ∨ blank_before_colon line = true))

/-- A head within the limits on its first line and on its size. -/
structure BoundedHead extends RequestHead where
  line_fits : ∀ p, Lib.Framing.cutAt 13 10 (text ++ (CRLF ++ CRLF)) = some p → uri_too_long p.1 = false
  section_fits : text.length ≤ MAX_HEADER_SECTION_LENGTH

/-- The status that the header lines ask for. -/
def lines_status (head : Bytes) : Int := if ∃ l ∈ field_lines head, Malformed l then 400 else 0

/-- Of all lines only the last is malformed, by the blank before its colon. -/
structure LastAlone (head : Bytes) : Prop where
  colon : (field_lines head).getLast?.any blank_before_colon = true
  start : (field_lines head).getLast?.any starts_blank = false
  before : ∀ l ∈ (field_lines head).dropLast, ¬ Malformed l

section Shape

variable {head : RequestHead} {req_line rest : Bytes}

theorem head_lines (cut : Lib.Framing.cutAt 13 10 head.text = some (req_line, rest)) :
    ∃ init last, field_lines head.text = init ++ [last] ∧ complete_lines rest = init ∧
      head.text.drop req_line.length = Lib.Search.behind 13 10 (init ++ [last]) ∧
      (∀ l ∈ init ++ [last], ¬ [13, 10] <:+: l) ∧ [] ∉ init ++ [last] := by
  have text := Lib.Framing.cutAt_eq cut
  have behind := Lib.Search.behind_drain cr_ne_lf rest
  have clean := Lib.Search.drain_clean cr_ne_lf rest
  have lines_eq : field_lines head.text = lines rest := by
    rw [field_lines, cut]
    rfl
  rw [lines] at lines_eq
  rw [complete_lines]
  generalize (Lib.Framing.delimited 13 10 cr_ne_lf).drain rest = parts at behind clean lines_eq ⊢
  obtain ⟨init, last⟩ := parts
  have shape : head.text = req_line ++ Lib.Search.behind 13 10 (init ++ [last]) := by
    rw [text, behind]
  have letters : [] ∉ init ++ [last] := by
    intro empty
    have earlier := Lib.Search.empty_line (a := (13 : UInt8)) (b := 10) (p := req_line) [13] empty
    rw [← shape] at earlier
    exact @Lib.Search.find_last _ _ [13, 10, 13] head.text (10 : UInt8) head.ends earlier
  have some_letter : last ≠ [] := fun none => letters (by simp [none])
  refine ⟨init, last, ?_, rfl, ?_, clean, letters⟩
  · rw [lines_eq]
    simp [some_letter]
  · rw [shape, List.drop_left]

theorem folds_iff {ls : List Bytes} (clean : ∀ l ∈ ls, ¬ [13, 10] <:+: l) :
    folds (Lib.Search.behind 13 10 ls) = true ↔ ∃ l ∈ ls, starts_blank l = true := by
  have found (c : UInt8) (other : c ≠ 13) :
      (Lib.Search.find (CRLF ++ [c]) (Lib.Search.behind 13 10 ls)).isSome = true ↔
        ∃ l ∈ ls, l.head? = some c := by
    rw [← Lib.Search.infix_behind_iff cr_ne_lf other clean, ← not_iff_not, ← Lib.Search.find_none,
      Option.not_isSome_iff_eq_none]
    rfl
  have blank (l : Bytes) : starts_blank l = true ↔ l.head? = some 32 ∨ l.head? = some 9 := by
    unfold starts_blank
    cases l.head? with
    | none => simp
    | some c => simp [is_blank]
  rw [folds, Bool.or_eq_true, found 32 (by decide), found 9 (by decide)]
  constructor
  · rintro (⟨l, member, here⟩ | ⟨l, member, here⟩)
    · exact ⟨l, member, (blank l).mpr (.inl here)⟩
    · exact ⟨l, member, (blank l).mpr (.inr here)⟩
  · rintro ⟨l, member, here⟩
    rcases (blank l).mp here with space | tab
    · exact .inl ⟨l, member, space⟩
    · exact .inr ⟨l, member, tab⟩

end Shape

/-- The check of a bounded head: a blank at the start of any line, or a blank before the colon of a
line that is not the last. -/
theorem validate_bounded (head : BoundedHead) (body : Bytes) :
    validate_raw_request (head.text ++ (CRLF ++ CRLF) ++ body) =
      if (∃ l ∈ field_lines head.text, starts_blank l = true) ∨
        ∃ l ∈ (field_lines head.text).dropLast, blank_before_colon l = true then 400 else 0 := by
  have found : find_header_end (head.text ++ (CRLF ++ CRLF) ++ body) = some head.text.length :=
    Lib.Search.find_stable head.ends body
  have front : (head.text ++ (CRLF ++ CRLF) ++ body).take head.text.length = head.text := by
    rw [List.append_assoc, List.take_left]
  have within : ¬ MAX_HEADER_SECTION_LENGTH < head.text.length := Nat.not_lt.mpr head.section_fits
  have again : (head.text ++ (CRLF ++ CRLF)).take head.text.length = head.text := List.take_left
  rw [validate_raw_head found, front]
  cases cut : Lib.Framing.cutAt 13 10 head.text with
  | none =>
    have line : Lib.Framing.cutAt 13 10 (head.text ++ (CRLF ++ CRLF)) = some (head.text, CRLF) :=
      Lib.Framing.cutAt_append cr_ne_lf (Lib.Framing.cutAt_none.mp cut) CRLF
    have no_lines : field_lines head.text = [] := by
      rw [field_lines, cut]
      rfl
    have short : uri_too_long head.text = false := head.line_fits _ line
    have past : head.text.drop (head.text.length + 2) = [] := List.drop_eq_nil_of_le (by omega)
    simp only [validate_raw_request, head.ends, again, line, short, Bool.false_eq_true, if_false, within,
      List.drop_length, past, no_lines]
    rfl
  | some parts =>
    obtain ⟨req_line, rest⟩ := parts
    have line : Lib.Framing.cutAt 13 10 (head.text ++ (CRLF ++ CRLF)) =
        some (req_line, rest ++ (CRLF ++ CRLF)) :=
      (Lib.Framing.delimited 13 10 cr_ne_lf).stable (CRLF ++ CRLF) cut
    have short : uri_too_long req_line = false := head.line_fits _ line
    obtain ⟨init, last, fields, complete, behind, clean, letters⟩ :=
      head_lines cut
    have section_rest : head.text.drop (req_line.length + 2) = rest := by
      rw [Lib.Framing.cutAt_eq cut, show req_line ++ 13 :: 10 :: rest = (req_line ++ [13, 10]) ++ rest by simp]
      exact List.drop_left' (by simp)
    have all_lines : (complete_lines rest).takeWhile (· ≠ []) = init := by
      rw [complete]
      refine List.takeWhile_eq_self_iff.mpr fun l member => ?_
      have inside : l ∈ init ++ [last] := List.mem_append_left _ member
      simpa using fun empty : l = [] => letters (empty ▸ inside)
    simp only [validate_raw_request, head.ends, again, line, short, Bool.false_eq_true, if_false, within,
      behind, section_rest, all_lines, fields, List.dropLast_concat, folds_iff clean, List.any_eq_true]
    by_cases folded : ∃ l ∈ init ++ [last], starts_blank l = true
    · rw [if_pos folded, if_pos (.inl folded)]
    · rw [if_neg folded]
      exact if_congr (or_iff_right folded).symm rfl rfl

theorem last_alone_concat {head : Bytes} {inits : List Bytes} {last : Bytes}
    (fields : field_lines head = inits ++ [last]) : LastAlone head ↔
      blank_before_colon last = true ∧ starts_blank last = false ∧ ∀ l ∈ inits, ¬ Malformed l := by
  constructor
  · rintro ⟨colon, start, before⟩
    rw [fields] at colon start before
    exact ⟨by simpa using colon, by simpa using start, by simpa using before⟩
  · rintro ⟨colon, start, before⟩
    refine ⟨?_, ?_, ?_⟩ <;> rw [fields]
    · simpa using colon
    · simpa using start
    · simpa using before

/-- What the check sees of a malformed line: all but a last one that is malformed alone, by a blank
before its colon. -/
theorem seen_iff (inits : List Bytes) (last : Bytes) :
    ((∃ l ∈ inits ++ [last], starts_blank l = true) ∨ ∃ l ∈ inits, blank_before_colon l = true) ↔
      (∃ l ∈ inits ++ [last], Malformed l) ∧
        ¬ (blank_before_colon last = true ∧ starts_blank last = false ∧ ∀ l ∈ inits, ¬ Malformed l) := by
  constructor
  · rintro (⟨l, member, blank⟩ | ⟨l, member, blank⟩)
    · refine ⟨⟨l, member, .inl blank⟩, ?_⟩
      rintro ⟨_, start, before⟩
      rcases List.mem_append.mp member with earlier | only
      · exact before l earlier (.inl blank)
      · obtain rfl := List.mem_singleton.mp only
        exact absurd (start.symm.trans blank) (by decide)
    · exact ⟨⟨l, List.mem_append_left _ member, .inr blank⟩, fun ⟨_, _, before⟩ => before l member (.inr blank)⟩
  · rintro ⟨⟨l, member, blank | blank⟩, several⟩
    · exact .inl ⟨l, member, blank⟩
    · rcases List.mem_append.mp member with earlier | only
      · exact .inr ⟨l, earlier, blank⟩
      · obtain rfl := List.mem_singleton.mp only
        by_contra missed
        obtain ⟨no_start, no_colon⟩ := not_or.mp missed
        have start : starts_blank l = false := by
          by_contra starts
          exact no_start ⟨l, member, by simpa using starts⟩
        refine several ⟨blank, start, fun m inside => ?_⟩
        rintro (starts | colon)
        · exact no_start ⟨m, List.mem_append_left _ inside, starts⟩
        · exact no_colon ⟨m, inside, colon⟩

/-- The check is right about the header lines exactly if it is not the last line alone that is
malformed, and by a blank before its colon. -/
theorem lines_status_iff (head : BoundedHead) (body : Bytes) :
    validate_raw_request (head.text ++ (CRLF ++ CRLF) ++ body) = lines_status head.text ↔
      ¬ LastAlone head.text := by
  rw [validate_bounded, lines_status]
  rcases List.eq_nil_or_concat (field_lines head.text) with none | ⟨inits, last, fields⟩
  · have no_last : ¬ LastAlone head.text := by
      rintro ⟨colon, _, _⟩
      rw [none] at colon
      cases colon
    simp [none, no_last]
  · rw [List.concat_eq_append] at fields
    have seen : ((∃ l ∈ field_lines head.text, starts_blank l = true) ∨
          ∃ l ∈ (field_lines head.text).dropLast, blank_before_colon l = true) ↔
        (∃ l ∈ field_lines head.text, Malformed l) ∧ ¬ LastAlone head.text := by
      rw [last_alone_concat fields, fields, List.dropLast_concat]
      exact seen_iff inits last
    constructor
    · intro same alone
      have found : ∃ l ∈ field_lines head.text, Malformed l := by
        rw [fields]
        exact ⟨last, by simp, .inr ((last_alone_concat fields).mp alone).1⟩
      rw [if_neg fun there => (seen.mp there).2 alone, if_pos found] at same
      cases same
    · exact fun several => if_congr (seen.trans (and_iff_left several)) rfl rfl

/-- A blank before the colon of the only header line is not seen. -/
def spaced_host : BoundedHead where
  text := bytes "GET / HTTP/1.0\r\nHost : h"
  ends := by decide +kernel
  line_fits := by
    rintro p cut
    obtain rfl := Option.some.inj (cut.symm.trans (show _ = some (bytes "GET / HTTP/1.0", bytes "Host : h\r\n\r\n") by decide +kernel))
    decide +kernel
  section_fits := by decide +kernel

theorem last_line_unchecked : ¬ ∀ (head : BoundedHead) (body : Bytes),
    validate_raw_request (head.text ++ (CRLF ++ CRLF) ++ body) = lines_status head.text := by
  intro exact
  have status := exact spaced_host []
  revert status
  decide +kernel

end AoSdl.http
