import AoSdl.TextBox

/-! Which texts are shown to their end, and how long that takes. A pause that is taken with the last
character leaves the text box ticking with nothing more to show. -/
namespace AoSdl.AOTextBox

open Lib.Service

/-- The events that are to come stand in order, and in the text. -/
structure Ordered (b : AOTextBox) : Prop where
  sorted : b.events.Pairwise (·.char_index ≤ ·.char_index)
  within : ∀ e ∈ b.events, e.char_index ≤ b.total_chars
  visible : b.chars_visible ≤ b.total_chars

/-- Some pause is left for the last character: each character before it takes one pause at most. -/
def Stuck (b : AOTextBox) : Prop :=
  b.state = .ticking ∧ (b.chars_visible < b.total_chars →
    served b.chars_visible (b.total_chars - b.chars_visible - 1) (pauses b.events) ≠ [])

/-- A tick without a new character is one of at most 270 before it, or one of at most 100 of a pause. -/
def work (b : AOTextBox) : ℕ :=
  271 * (b.total_chars - b.chars_visible) + 101 * (pauses b.events).length + b.pause_remaining_ms_.toNat

def ticks_left (b : AOTextBox) : ℕ := if b.state = .ticking then b.work + (270 - b.accumulated_ms) else 0

namespace Crawl

variable {c : Crawl}

theorem show_char_consumed (ordered : c.box.Ordered) (going : c.paused = false) :
    c.next_char.Consumed c.show_char :=
  consume_spec c.box.events c.next_char rfl going ordered.sorted

theorem Consumed.ordered {c' : Crawl} (consumed : c.Consumed c') (ordered : c.box.Ordered) : c'.box.Ordered where
  sorted := ordered.sorted.sublist consumed.later.sublist
  within e member := by
    rw [consumed.total]
    exact ordered.within e (consumed.later.mem member)
  visible := by
    rw [consumed.visible, consumed.total]
    exact ordered.visible

theorem next_char_ordered (ordered : c.box.Ordered) (short : c.box.chars_visible < c.box.total_chars) :
    c.next_char.box.Ordered :=
  ⟨ordered.sorted, ordered.within, short⟩

/-- A character is worth more than the time before the next one, and a pause more than its ticks. -/
theorem work_show_char (ordered : c.box.Ordered) (going : c.paused = false)
    (short : c.box.chars_visible < c.box.total_chars) (idle : c.box.pause_remaining_ms_ ≤ 0) :
    c.show_char.box.work + 271 ≤ c.box.work := by
  have consumed := show_char_consumed ordered going
  have left := consumed.pauses
  have paused := consumed.paused
  have wait := consumed.pause_remaining
  rw [work, work, consumed.visible, consumed.total, left, wait]
  simp only [next_char] at *
  by_cases due : Due (c.box.chars_visible + 1) (pauses c.box.events)
  · have := length_serve_of_due due
    rw [if_pos (paused.mpr due)]
    omega
  · rw [serve_of_not_due due, if_neg (mt paused.mp due)]
    omega

/-- Before the last character, the one that is shown decides nothing. -/
theorem stuck_show_char (ordered : c.box.Ordered) (going : c.paused = false)
    (short : c.box.chars_visible + 1 < c.box.total_chars) : c.show_char.box.Stuck ↔ c.box.Stuck := by
  have consumed := show_char_consumed ordered going
  have turns : c.box.total_chars - c.box.chars_visible - 1 = c.box.total_chars - (c.box.chars_visible + 1) - 1 + 1 := by
    omega
  rw [Stuck, Stuck, consumed.state, consumed.visible, consumed.total, consumed.pauses, turns, served]
  simp only [next_char]
  exact and_congr_right fun _ => ⟨fun stuck _ => stuck short, fun stuck _ => stuck (Nat.lt_of_succ_lt short)⟩

theorem paused_show_char (ordered : c.box.Ordered) (going : c.paused = false) (ticking : c.box.state = .ticking)
    (last : c.box.chars_visible + 1 = c.box.total_chars) : c.show_char.paused = true ↔ c.box.Stuck := by
  have within : ∀ r ∈ pauses c.box.events, r ≤ c.box.chars_visible + 1 := fun r member => by
    obtain ⟨e, inside, rfl⟩ := mem_pauses member
    rw [last]
    exact ordered.within e inside
  have turns : c.box.total_chars - c.box.chars_visible - 1 = 0 := by omega
  rw [(show_char_consumed ordered going).paused, Stuck, turns]
  simp only [next_char, due_iff_ne_nil within, served, ticking, true_and]
  exact ⟨fun left _ => left, fun left => left (by omega)⟩

/-- What the loop does to the text box. -/
structure Advanced (b b' : AOTextBox) : Prop where
  ordered : b'.Ordered
  stuck : b'.Stuck ↔ b.Stuck
  work : b' = b ∧ (b.chars_visible < b.total_chars → b.accumulated_ms < 270) ∨ b'.work + 271 ≤ b.work

theorem Advanced.work_le {b b' : AOTextBox} (advanced : Advanced b b') : b'.work ≤ b.work := by
  rcases advanced.work with ⟨rfl, -⟩ | less
  · exact Nat.le_refl _
  · exact (Nat.le_add_right ..).trans less

theorem advance_spec (missing : ℕ) (c : Crawl) (ordered : c.box.Ordered) (going : c.paused = false)
    (ticking : c.box.state = .ticking) (idle : c.box.pause_remaining_ms_ ≤ 0)
    (all : c.box.chars_visible + missing = c.box.total_chars) : Advanced c.box (advance missing c).box := by
  induction missing generalizing c with
  | zero => exact ⟨ordered, .rfl, .inl ⟨rfl, fun short => absurd all (Nat.ne_of_lt short)⟩⟩
  | succ missing ih =>
    have short : c.box.chars_visible < c.box.total_chars := by omega
    rw [advance]
    split
    · have consumed := show_char_consumed ordered going
      have ordered' := consumed.ordered (next_char_ordered ordered short)
      have less := work_show_char ordered going short idle
      have visible : c.show_char.box.chars_visible = c.box.chars_visible + 1 := consumed.visible
      have total : c.show_char.box.total_chars = c.box.total_chars := consumed.total
      have state : c.show_char.box.state = .ticking := consumed.state.trans ticking
      rw [visible, total]
      rcases Nat.lt_or_ge (c.box.chars_visible + 1) c.box.total_chars with more | last
      · have stuck := stuck_show_char ordered going more
        split
        · exact ⟨ordered', stuck, .inr less⟩
        · rename_i still
          have still : c.show_char.paused = false := by simpa using still
          have wait := consumed.pause_remaining
          rw [still] at wait
          rw [if_neg (Nat.not_le_of_lt more)]
          have rest := ih c.show_char ordered' still state (wait.trans_le idle) (by omega)
          exact ⟨rest.ordered, rest.stuck.trans stuck, .inr (by have := rest.work_le; omega)⟩
      · have last : c.box.chars_visible + 1 = c.box.total_chars := by omega
        have paused := paused_show_char ordered going ticking last
        split
        · rename_i pause
          exact ⟨ordered', iff_of_true ⟨state, fun more => absurd more (by omega)⟩ (paused.mp pause), .inr less⟩
        · rename_i still
          exact ⟨⟨ordered'.sorted, ordered'.within, ordered'.visible⟩,
            iff_of_false (fun stuck => nomatch stuck.1) (mt paused.mpr still), .inr less⟩
    · rename_i waits
      refine ⟨ordered, .rfl, .inl ⟨rfl, fun _ => ?_⟩⟩
      have := delay_le c.box
      omega

end Crawl

variable {b : AOTextBox}

theorem tick_of_ne (other : b.state ≠ .ticking) (delta_ms : ℕ) : (b.tick delta_ms).1 = b := by
  rw [tick, if_pos other]

/-- Nothing but the time of a pause, or the loop. -/
theorem Ordered.tick_cases (ordered : b.Ordered) (delta_ms : ℕ) :
    b.state ≠ .ticking ∧ (b.tick delta_ms).1 = b ∨
      b.state = .ticking ∧ 0 < b.pause_remaining_ms_ ∧
        (b.tick delta_ms).1 = { b with pause_remaining_ms_ := b.pause_remaining_ms_ - delta_ms } ∨
      b.state = .ticking ∧
        Crawl.Advanced { b with accumulated_ms := b.accumulated_ms + delta_ms } (b.tick delta_ms).1 := by
  by_cases ticking : b.state = .ticking
  · right
    rw [tick, if_neg (not_not.mpr ticking)]
    split
    · rename_i pause
      exact .inl ⟨ticking, pause, rfl⟩
    · rename_i idle
      have visible := ordered.visible
      refine .inr ⟨ticking, Crawl.advance_spec _ ⟨{ b with accumulated_ms := b.accumulated_ms + delta_ms }, {}, false⟩
        ⟨ordered.sorted, ordered.within, visible⟩ rfl ticking (by simpa using idle) ?_⟩
      simp only
      omega
  · exact .inl ⟨ticking, tick_of_ne ticking delta_ms⟩

theorem Ordered.tick (ordered : b.Ordered) (delta_ms : ℕ) : (b.tick delta_ms).1.Ordered := by
  rcases ordered.tick_cases delta_ms with ⟨-, same⟩ | ⟨-, -, same⟩ | ⟨-, advanced⟩
  · rw [same]
    exact ordered
  · rw [same]
    exact ⟨ordered.sorted, ordered.within, ordered.visible⟩
  · exact advanced.ordered

theorem stuck_tick (ordered : b.Ordered) (delta_ms : ℕ) : (b.tick delta_ms).1.Stuck ↔ b.Stuck := by
  rcases ordered.tick_cases delta_ms with ⟨-, same⟩ | ⟨-, -, same⟩ | ⟨-, advanced⟩
  · rw [same]
  · rw [same]
    exact .rfl
  · exact advanced.stuck

theorem ticks_left_le (b : AOTextBox) : b.ticks_left ≤ b.work + 270 := by
  rw [ticks_left]
  split
  · omega
  · omega

theorem ticks_left_of_ticking (ticking : b.state = .ticking) : b.ticks_left = b.work + (270 - b.accumulated_ms) :=
  if_pos ticking

/-- The loop takes more from the work than the time before the next character can add. -/
theorem ticks_left_advanced {b' : AOTextBox} {delta_ms : ℕ} (ticking : b.state = .ticking)
    (less : b'.work + 271 ≤ work { b with accumulated_ms := b.accumulated_ms + delta_ms }) :
    b'.ticks_left < b.ticks_left := by
  have bound := ticks_left_le b'
  have left := ticks_left_of_ticking ticking
  change _ + 271 ≤ b.work at less
  omega

theorem ticks_left_accumulated (ticking : b.state = .ticking) (delta_ms : ℕ) :
    ticks_left { b with accumulated_ms := b.accumulated_ms + delta_ms } =
      b.work + (270 - (b.accumulated_ms + delta_ms)) :=
  if_pos ticking

theorem ticks_left_pause (ticking : b.state = .ticking) (delta_ms : ℕ) :
    ticks_left { b with pause_remaining_ms_ := b.pause_remaining_ms_ - delta_ms } + b.pause_remaining_ms_.toNat =
      b.ticks_left + (b.pause_remaining_ms_ - delta_ms).toNat := by
  rw [ticks_left, ticks_left, if_pos ticking, if_pos ticking, work, work]
  simp only
  omega

theorem ticks_left_tick (ordered : b.Ordered) (delta_ms : ℕ) : (b.tick delta_ms).1.ticks_left ≤ b.ticks_left := by
  rcases ordered.tick_cases delta_ms with ⟨-, same⟩ | ⟨ticking, -, same⟩ | ⟨ticking, advanced⟩
  · rw [same]
  · have := ticks_left_pause ticking delta_ms
    rw [same]
    omega
  · rcases advanced.work with ⟨same, -⟩ | less
    · rw [same, ticks_left_accumulated ticking, ticks_left_of_ticking ticking]
      omega
    · exact (ticks_left_advanced ticking less).le

/-- A text box that is not stuck gets nearer to the end of its text with each tick. -/
theorem ticks_left_tick_lt (ordered : b.Ordered) (ticking : b.state = .ticking) (free : ¬b.Stuck) {delta_ms : ℕ}
    (time : 0 < delta_ms) : (b.tick delta_ms).1.ticks_left < b.ticks_left := by
  have short : b.chars_visible < b.total_chars := by
    by_contra all
    exact free ⟨ticking, fun short => absurd short all⟩
  rcases ordered.tick_cases delta_ms with ⟨other, -⟩ | ⟨-, pause, same⟩ | ⟨-, advanced⟩
  · exact absurd ticking other
  · have := ticks_left_pause ticking delta_ms
    rw [same]
    omega
  · rcases advanced.work with ⟨same, early⟩ | less
    · have early : b.accumulated_ms + delta_ms < 270 := early short
      rw [same, ticks_left_accumulated ticking, ticks_left_of_ticking ticking]
      omega
    · exact ticks_left_advanced ticking less

section

variable (message : Bytes) (color_idx : ℤ) (color_defs : List AOTextColorDef)

/-- The text is shown, and for some character more pauses stand at it or behind it than there are characters
from it on to the last but one. -/
def Stalls : Prop :=
  let text := AOTextProcessor.process message color_defs color_idx
  blank message = false ∧ 0 < UTF8.length text.display ∧ ∃ k ≤ UTF8.length text.display,
    UTF8.length text.display < since k (pauses text.events) + max k 1

instance : Decidable (Stalls message color_idx color_defs) := inferInstanceAs (Decidable (_ ∧ _ ∧ _))

/-- How many ticks the text takes at most. -/
def message_ticks : ℕ :=
  let text := AOTextProcessor.process message color_defs color_idx
  271 * UTF8.length text.display + 101 * (pauses text.events).length + 270

variable (b : AOTextBox)

theorem start_message_ordered : (b.start_message message color_idx color_defs).Ordered where
  sorted := AOTextProcessor.process_sorted ..
  within := AOTextProcessor.process_within message color_defs color_idx
  visible := Nat.zero_le _

theorem start_message_ticks :
    (b.start_message message color_idx color_defs).ticks_left ≤ message_ticks message color_idx color_defs :=
  ticks_left_le _

theorem stuck_start_message :
    (b.start_message message color_idx color_defs).Stuck ↔ Stalls message color_idx color_defs := by
  have sorted := AOTextProcessor.process_sorted message color_defs color_idx
  rw [Stuck, Stalls, start_message]
  simp only
  generalize AOTextProcessor.process message color_defs color_idx = text at sorted
  cases blank message with
  | true => simp
  | false =>
    rcases Nat.eq_zero_or_pos (UTF8.length text.display) with none | some
    · simp [none]
    · have turns : 0 + (UTF8.length text.display - 0 - 1) + 1 = UTF8.length text.display := by omega
      have shown := served_eq_nil_iff 0 (UTF8.length text.display - 0 - 1) (pauses text.events) (pauses_sorted sorted)
      rw [Fits, turns] at shown
      replace shown := not_congr shown
      simp only [not_forall, Nat.not_le, exists_prop] at shown
      simpa [some] using shown

/-- One pause finds a character behind it, two in the same place do not. -/
example : ¬Stalls (bytes "a\\pb") 0 [] ∧ Stalls (bytes "a\\p\\pb") 0 [] := by decide +kernel

end

end AoSdl.AOTextBox
