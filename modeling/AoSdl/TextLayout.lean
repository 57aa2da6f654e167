import AoSdl.TextRenderer
import Mathlib.Algebra.Order.BigOperators.Group.List

/-! A text is laid out as it is set on lines: its characters in order, each with its index among those that
`UTF8::length` counts. Only the end of the text has the code point 0 for the layout, so a text in which a
character has it is out of step from there on. -/
namespace AoSdl.TextRenderer

open UTF8 Lib.LineSetting

/-- The characters as items of a line. -/
def style (advance : UInt32 → ℕ) (max_width : ℤ) : Style Character ℤ where
  width a := advance a.cp
  measure := max_width
  break_ a := a.first = newline
  blank a := a.first = space

/-- The glyph of a character that was put into a slot. -/
def glyph (line_h : ℕ) (slot : Lib.LineSetting.Slot Character ℤ) : GlyphLayout :=
  ⟨slot.item.cp, slot.x, slot.line * line_h, slot.index⟩

section

variable (advance : UInt32 → ℕ) (line_h : ℕ) (max_width : ℤ)

instance : DecidablePred (style advance max_width).break_ :=
  fun a => inferInstanceAs (Decidable (a.first = newline))

instance : DecidablePred (style advance max_width).blank :=
  fun a => inferInstanceAs (Decidable (a.first = space))

/-- What a layout promises of a text. -/
structure LaidOut (text : Bytes) (layout : List GlyphLayout) : Prop where
  set : ∃ slots, (style advance max_width).Sets (chars text) slots ∧ layout = slots.map (glyph line_h)
  read : ∀ g ∈ layout, ∃ k c, At text k c g.codepoint ∧ g.char_index = k
  order : layout.Pairwise fun a b => a.char_index < b.char_index
  lines : ∀ g ∈ layout, ∃ n : ℕ, g.pen_y = n * line_h
  descends : layout.Pairwise fun a b => a.pen_y ≤ b.pen_y
  fits : ∀ g ∈ layout, g.pen_x = 0 ∨ g.pen_x + advance g.codepoint ≤ max_width
  omitted : ∀ k c cp, At text k c cp → (∃ g ∈ layout, g.char_index = k) ∨ c = newline ∨ c = space

variable {advance line_h max_width} {text : Bytes}

/-- A text that is set on lines is laid out. -/
theorem laid_out_of_sets {slots : List (Lib.LineSetting.Slot Character ℤ)}
    (sets : (style advance max_width).Sets (chars text) slots) :
    LaidOut advance line_h max_width text (slots.map (glyph line_h)) := by
  obtain ⟨s, placed, rfl, all⟩ := sets.placed
  refine ⟨⟨_, sets, rfl⟩, ?_, ?_, ?_, ?_, ?_, fun k c cp found => ?_⟩
  · intro g member
    obtain ⟨slot, set, rfl⟩ := List.mem_map.mp member
    exact ⟨slot.index, slot.item.first, getElem?_chars.mp (placed.read slot set).2, rfl⟩
  · apply List.pairwise_map.mpr
    exact placed.order.imp fun ordered => Int.ofNat_lt.mpr ordered.1
  · intro g member
    obtain ⟨slot, -, rfl⟩ := List.mem_map.mp member
    exact ⟨slot.line, rfl⟩
  · apply List.pairwise_map.mpr
    refine placed.order.imp fun ordered => ?_
    exact Int.mul_le_mul_of_nonneg_right (Int.ofNat_le.mpr ordered.2) (Int.natCast_nonneg line_h)
  · exact List.forall_mem_map.mpr placed.fits
  · have item : (chars text)[k]? = some ⟨c, cp⟩ := getElem?_chars.mpr found
    have inside : k < (chars text).length := (List.getElem?_eq_some_iff.mp item).1
    obtain ⟨slot, member, here⟩ | other := placed.omitted k _ (inside.trans_le all) item
    · exact Or.inl ⟨_, List.mem_map_of_mem member, congrArg Nat.cast here⟩
    · exact Or.inr other

end

section Reading

variable (advance : UInt32 → ℕ) (line_h : ℕ) (max_width : ℤ) (text : Bytes)

/-- The layout got so far: it is that of a setter who has read the text up to these bytes. -/
def Reads (s : Bytes) (k : ℕ) (p : Pen) : Prop :=
  0 ≤ p.pen_x ∧ ∃ n slots, (style advance max_width).Steps (Style.start (chars text)) ⟨k, chars s, p.pen_x, n, slots⟩ ∧
    p.layout = slots.map (glyph line_h) ∧ p.pen_y = n * line_h

/-- So many characters follow that get a glyph. -/
def Inked : ℕ → Bytes → Prop
  | 0, _ => True
  | n + 1, s => (∃ c t, s = c :: t ∧ c ≠ newline) ∧ (decode s).1 ≠ 0 ∧ Inked n (decode s).2

variable {advance line_h max_width text} {s t : Bytes} {c : UInt8} {k : ℕ} {p : Pen}

theorem reads_start : Reads advance line_h max_width text text 0 ⟨[], 0, 0⟩ :=
  ⟨le_rfl, 0, [], .refl, rfl, (Int.zero_mul _).symm⟩

theorem next_line_y {n : ℕ} (here : p.pen_y = n * line_h) : (p.next_line line_h).pen_y = (n + 1 : ℕ) * line_h := by
  change p.pen_y + line_h = _
  rw [here]
  push_cast
  ring

/-- The widths of the letters that follow are not negative. -/
theorem width_le_word_width (advance : UInt32 → ℕ) (max_width : ℤ) (a : Character) (rest : List Character) :
    (advance a.cp : ℤ) ≤ (style advance max_width).word_width (a :: rest) := by
  rw [Style.word_width]
  split
  · next letter =>
    rw [Style.run_width_cons letter]
    apply Int.le_add_of_nonneg_right
    apply List.sum_nonneg
    intro w member
    obtain ⟨b, -, rfl⟩ := List.mem_map.mp member
    exact Int.natCast_nonneg _
  · exact Int.le_refl _

theorem wrap_fits (line_h : ℕ) (max_width : ℤ) (p : Pen) (width : ℤ) (nonneg : 0 ≤ p.pen_x) :
    (p.wrap line_h max_width width).pen_x = 0 ∨ (p.wrap line_h max_width width).pen_x + width ≤ max_width := by
  unfold Pen.wrap
  split
  · exact Or.inl rfl
  · next room =>
    by_cases begins : p.pen_x = 0
    · exact Or.inl begins
    · have right : 0 < p.pen_x := lt_of_le_of_ne nonneg (Ne.symm begins)
      exact Or.inr (Int.not_lt.mp fun past => room ⟨right, past⟩)

theorem Reads.newline (reads : Reads advance line_h max_width text (newline :: s) k p) :
    Reads advance line_h max_width text s (k + 1) (p.next_line line_h) := by
  obtain ⟨nonneg, n, slots, steps, shown, y⟩ := reads
  rw [chars_cons, decode_ascii (by decide)] at steps
  exact ⟨le_rfl, n + 1, slots, steps.tail (.newline rfl), shown, next_line_y y⟩

theorem Reads.wrap (reads : Reads advance line_h max_width text (c :: s) k p) (inked : c ≠ TextRenderer.newline)
    {width : ℤ} (within : width ≤ (style advance max_width).word_width (chars (c :: s))) :
    Reads advance line_h max_width text (c :: s) k (p.wrap line_h max_width width) := by
  unfold Pen.wrap
  split
  · next full =>
    obtain ⟨nonneg, n, slots, steps, shown, y⟩ := reads
    rw [chars_cons] at steps within
    have past : max_width < p.pen_x + (style advance max_width).word_width _ :=
      full.2.trans_le (Int.add_le_add_left within _)
    refine ⟨le_rfl, n + 1, slots, ?_, shown, next_line_y y⟩
    rw [chars_cons]
    exact steps.tail (.wrap inked full.1 past)
  · exact reads

theorem Reads.drop (reads : Reads advance line_h max_width text (space :: s) k p) (begins : p.pen_x = 0) :
    Reads advance line_h max_width text s (k + 1) p := by
  obtain ⟨nonneg, n, slots, steps, shown, y⟩ := reads
  rw [chars_cons, decode_ascii (by decide), begins] at steps
  refine ⟨nonneg, n, slots, ?_, shown, y⟩
  rw [begins]
  exact steps.tail (.drop rfl)

theorem Reads.put (reads : Reads advance line_h max_width text (c :: s) k p) (inked : c ≠ TextRenderer.newline) :
    Reads advance line_h max_width text (decode (c :: s)).2 (k + 1)
      (place_glyph (fun cp => some (advance cp)) line_h max_width (decode (c :: s)).1 k p) := by
  have width := width_le_word_width advance max_width ⟨c, (decode (c :: s)).1⟩
    (chars (decode (c :: s)).2)
  rw [← chars_cons] at width
  have fits := wrap_fits line_h max_width p (advance (decode (c :: s)).1) reads.1
  obtain ⟨nonneg, n, slots, steps, shown, y⟩ := reads.wrap inked width
  rw [chars_cons] at steps
  refine ⟨Int.add_nonneg nonneg (Int.natCast_nonneg _), n, _, steps.tail (.put inked fits), ?_, y⟩
  rw [List.map_append, ← shown]
  simp [place_glyph, glyph, y]

theorem Reads.put_all {n : ℕ} (reads : Reads advance line_h max_width text s k p) (inked : Inked n s) :
    Reads advance line_h max_width text (skip n s) (k + n)
      (place_chars (fun cp => some (advance cp)) line_h max_width n k s p) := by
  induction n generalizing s k p with
  | zero => exact reads
  | succ n ih =>
    obtain ⟨⟨c, t, rfl, other⟩, shown, inked⟩ := inked
    rw [place_chars, if_neg shown, ← Nat.add_assoc, Nat.add_right_comm]
    exact ih (reads.put other) inked

/-- A word is set when it was measured as it is read: only a space that begins a line gets no glyph. -/
theorem Reads.word (word : WordInfo) (reads : Reads advance line_h max_width text (c :: s) k p)
    (other : c ≠ TextRenderer.newline) (goes : word.ends_with_break = false)
    (start : text.drop word.byte_start = c :: s) (index : word.char_start = k)
    (width : word.pixel_width = (style advance max_width).word_width (chars (c :: s)))
    (inked : Inked word.char_count (c :: s)) :
    Reads advance line_h max_width text (skip word.char_count (c :: s)) (k + word.char_count)
      (place_word (fun cp => some (advance cp)) line_h max_width text p word) := by
  have wrapped := reads.wrap other width.le
  have head : text[word.byte_start]? = some c := by
    rw [← List.head?_drop, start]
    rfl
  unfold place_word
  rw [if_neg (by rw [goes]; exact Bool.false_ne_true)]
  dsimp only
  split
  · next dropped =>
    obtain ⟨begins, one, blank⟩ := dropped
    obtain rfl : c = space := Option.some.inj (head.symm.trans blank)
    rw [one, skip, skip, decode_ascii (by decide)]
    exact wrapped.drop begins
  · rw [start, index]
    exact wrapped.put_all inked

/-- The inner loop measures the letters up to the end of the word, when none of them has the code point 0. -/
theorem scan_word_eq (advance : UInt32 → ℕ) (max_width : ℤ) (w : WordInfo) (k : ℕ) (clean : ∀ a ∈ chars s, a.cp ≠ 0) :
    ∃ n, scan_word (fun cp => some (advance cp)) s w k =
      ({ w with
          char_count := w.char_count + n
          pixel_width := w.pixel_width + (style advance max_width).run_width (chars s) }, k + n, skip n s) ∧
      Inked n s := by
  fun_induction scan_word (fun cp => some (advance cp)) s w k with
  | case1 => exact ⟨0, by simp [skip], trivial⟩
  | case2 c s w k stops =>
    have other : ¬(style advance max_width).Letter ⟨c, (decode (c :: s)).1⟩ := fun letter =>
      stops.elim letter.2 letter.1
    rw [chars_cons, Style.run_width_other other]
    exact ⟨0, by simp [skip], trivial⟩
  | case3 c s w k goes r zero =>
    rw [chars_cons] at clean
    exact absurd zero (clean _ List.mem_cons_self)
  | case4 c s w k goes r shown w' ih =>
    rw [chars_cons] at clean ⊢
    have letter : (style advance max_width).Letter ⟨c, (decode (c :: s)).1⟩ :=
      ⟨fun breaks => goes (Or.inr breaks), fun blank => goes (Or.inl blank)⟩
    obtain ⟨n, same, inked⟩ := ih fun a member => clean a (List.mem_cons_of_mem _ member)
    refine ⟨n + 1, ?_, ⟨c, s, rfl, fun breaks => goes (Or.inr breaks)⟩, shown, inked⟩
    rw [same, Style.run_width_cons letter, skip]
    simp only [w', Nat.add_assoc, Nat.add_comm 1, Int.add_assoc]
    rfl

theorem chars_skip (n : ℕ) (s : Bytes) : chars (skip n s) = (chars s).drop n := by
  induction n generalizing s with
  | zero => rfl
  | succ n ih =>
    cases s with
    | nil => simp [skip_nil]
    | cons c s => rw [chars_cons, List.drop_succ_cons, skip, ih]

theorem inked_space (s : Bytes) : Inked 1 (space :: s) := by
  refine ⟨⟨space, s, rfl, by decide⟩, ?_, trivial⟩
  rw [decode_ascii (by decide)]
  exact (by decide : (32 : UInt32) ≠ 0)

theorem word_width_space (s : Bytes) : (style advance max_width).word_width (chars (space :: s)) = advance 32 := by
  rw [chars_cons, decode_ascii (by decide), Style.word_width, if_neg fun letter => letter.2 rfl]
  rfl

theorem word_width_letter (goes : ¬(c = space ∨ c = newline)) (s : Bytes) :
    (style advance max_width).word_width (chars (c :: s)) = (style advance max_width).run_width (chars (c :: s)) := by
  rw [chars_cons, Style.word_width]
  exact if_pos ⟨fun breaks => goes (Or.inr breaks), fun blank => goes (Or.inl blank)⟩

/-- Every word is measured as it is read, so the whole text is set. -/
theorem reads_words (s : Bytes) (k : ℕ) : s <:+ text → (∀ a ∈ chars s, a.cp ≠ 0) →
    ∀ p, Reads advance line_h max_width text s k p →
      ∃ k', Reads advance line_h max_width text [] k'
        ((words (fun cp => some (advance cp)) text k s).foldl
          (place_word (fun cp => some (advance cp)) line_h max_width text) p) := by
  fun_induction words (fun cp => some (advance cp)) text k s with
  | case1 k => exact fun _ _ p reads => ⟨k, reads⟩
  | case2 k s byte_start ih =>
    intro suffix clean p reads
    have start : text.drop byte_start = space :: s := (List.suffix_iff_eq_drop.mp suffix).symm
    have set := reads.word ⟨byte_start, k, 1, advance 32, false⟩ (by decide) rfl start rfl
      (word_width_space s).symm (inked_space s)
    refine ih ((skip_suffix 1 _).trans suffix) (fun a member => clean a ?_) _ set
    rw [← List.take_append_drop 1 (chars _), ← chars_skip]
    exact List.mem_append_right _ member
  | case3 k s byte_start _ ih =>
    intro suffix clean p reads
    refine ih ((List.suffix_cons _ s).trans suffix) (fun a member => clean a ?_) _ reads.newline
    rw [chars_cons, decode_ascii (by decide)]
    exact List.mem_cons_of_mem _ member
  | case4 k c s byte_start inked goes r ih =>
    intro suffix clean p reads
    have start : text.drop byte_start = c :: s := (List.suffix_iff_eq_drop.mp suffix).symm
    have letter : ¬(c = space ∨ c = newline) := fun stops => stops.elim inked goes
    obtain ⟨n, same, shown⟩ := scan_word_eq advance max_width ⟨byte_start, k, 0, 0, false⟩ k clean
    rw [Nat.zero_add, Int.zero_add] at same
    have set := reads.word ⟨byte_start, k, n, _, false⟩ goes rfl start rfl (word_width_letter letter s).symm shown
    have measured : r = _ := same
    rw [measured] at ih ⊢
    refine ih ((skip_suffix n _).trans suffix) (fun a member => clean a ?_) _ set
    rw [← List.take_append_drop n (chars _), ← chars_skip]
    exact List.mem_append_right _ member

end Reading

section Zero

variable {load_char : UInt32 → Option ℕ} {line_h : ℕ} {max_width : ℤ}

/-- The code point 0 is the one that gets no glyph. -/
def Nonzero (p : Pen) : Prop := ∀ g ∈ p.layout, g.codepoint ≠ 0

theorem Nonzero.wrap {p : Pen} (shown : Nonzero p) (width : ℤ) : Nonzero (p.wrap line_h max_width width) := by
  unfold Pen.wrap
  split
  · exact shown
  · exact shown

theorem Nonzero.place_glyph {p : Pen} (shown : Nonzero p) {cp : UInt32} (other : cp ≠ 0) (k : ℕ) :
    Nonzero (place_glyph load_char line_h max_width cp k p) := by
  unfold TextRenderer.place_glyph
  cases load_char cp with
  | none => exact shown
  | some advance =>
    intro g member
    obtain before | last := List.mem_append.mp member
    · exact shown.wrap _ g before
    · rw [List.mem_singleton.mp last]
      exact other

theorem Nonzero.place_chars {left k : ℕ} {pos : Bytes} {p : Pen} (shown : Nonzero p) :
    Nonzero (place_chars load_char line_h max_width left k pos p) := by
  induction left generalizing k pos p with
  | zero => exact shown
  | succ left ih =>
    rw [TextRenderer.place_chars]
    split
    · exact shown
    · next other => exact ih (shown.place_glyph other k)

theorem Nonzero.place_word {text : Bytes} {p : Pen} (shown : Nonzero p) (word : WordInfo) :
    Nonzero (place_word load_char line_h max_width text p word) := by
  unfold TextRenderer.place_word
  dsimp only
  split
  · exact shown
  split
  · exact shown.wrap _
  · exact (shown.wrap _).place_chars

theorem codepoint_ne_zero {text : Bytes} {wrap_width : ℤ} {g : GlyphLayout}
    (member : g ∈ compute_layout load_char line_h text wrap_width) : g.codepoint ≠ 0 := by
  have start : Nonzero ⟨[], 0, 0⟩ := List.forall_mem_nil _
  exact List.foldlRecOn _ _ start (fun p shown word _ => shown.place_word word) g member

end Zero

section

variable {advance : UInt32 → ℕ} {line_h : ℕ} {text : Bytes} {wrap_width : ℤ}

/-- A character that is neither a space nor a newline is only laid out with its own code point. -/
theorem clean_of_laid_out {max_width : ℤ}
    (laid_out : LaidOut advance line_h max_width text
      (compute_layout (fun cp => some (advance cp)) line_h text wrap_width))
    {k : ℕ} {c : UInt8} {cp : UInt32} (found : At text k c cp) : cp ≠ 0 := by
  obtain ⟨g, member, here⟩ | rfl | rfl := laid_out.omitted k c cp found
  · obtain ⟨k', c', shown, index⟩ := laid_out.read g member
    obtain rfl : k' = k := Int.ofNat_inj.mp (index.symm.trans here)
    obtain ⟨s, rest, same, -⟩ := found
    obtain ⟨s', rest', same', -⟩ := shown
    rw [← same, ← rest, rest', same']
    exact codepoint_ne_zero member
  · obtain ⟨s, -, rfl, -⟩ := found
    rw [decode_ascii (by decide)]
    exact (by decide : (10 : UInt32) ≠ 0)
  · obtain ⟨s, -, rfl, -⟩ := found
    rw [decode_ascii (by decide)]
    exact (by decide : (32 : UInt32) ≠ 0)

/-- A text without the code point 0 is set on lines as a whole. -/
theorem laid_out_of_clean (clean : ∀ k c cp, At text k c cp → cp ≠ 0) :
    LaidOut advance line_h (max_width wrap_width) text
      (compute_layout (fun cp => some (advance cp)) line_h text wrap_width) := by
  have all : ∀ a ∈ chars text, a.cp ≠ 0 := by
    intro a member
    obtain ⟨k, here⟩ := List.getElem?_of_mem member
    exact clean k a.first a.cp (getElem?_chars.mp here)
  have start : Reads advance line_h (max_width wrap_width) text text 0 ⟨[], 0, 0⟩ := reads_start
  obtain ⟨k, -, n, slots, steps, shown, -⟩ := reads_words text 0 List.suffix_rfl all _ start
  rw [chars_nil] at steps
  unfold compute_layout
  rw [shown]
  exact laid_out_of_sets ⟨_, _, _, steps⟩

end

end AoSdl.TextRenderer
