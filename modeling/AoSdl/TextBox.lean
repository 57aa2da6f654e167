import AoSdl.Lib.Service
import AoSdl.TextProcessor

/-! The text box of the courtroom: the text of a message appears character by character, at a speed and with
pauses that the events of its markup ask for. -/
namespace AoSdl

open Lib.Service

inductive TextState where
  | inactive
  | ticking
  | done
deriving DecidableEq

structure TickResult where
  advanced : Bool := false
  trigger_screenshake : Bool := false
  trigger_flash : Bool := false

/-- `events` are the events that are still to come. -/
structure AOTextBox where
  colors : List AOTextColorDef
  current_message : Bytes
  current_color_idx : ℤ
  base_color_idx_ : ℤ
  chars_visible : ℕ
  total_chars : ℕ
  state : TextState
  events : List TextEvent
  pause_remaining_ms_ : ℤ
  accumulated_ms : ℕ
  current_speed : ℕ

namespace AOTextBox

def BASE_TICK_MS : ℕ := 40

/-- In hundredths. -/
def SPEED_MULT : List ℕ := [0, 25, 65, 100, 125, 175, 225]

def DEFAULT_SPEED : ℕ := 3

def PUNCTUATION_MULT : ℕ := 3

def new (colors : List AOTextColorDef) : AOTextBox where
  colors := colors
  current_message := []
  current_color_idx := 0
  base_color_idx_ := 0
  chars_visible := 0
  total_chars := 0
  state := .inactive
  events := []
  pause_remaining_ms_ := 0
  accumulated_ms := 0
  current_speed := DEFAULT_SPEED

def clamp (x lo hi : ℤ) : ℤ := if x < lo then lo else if hi < x then hi else x

def blank (message : Bytes) : Bool :=
  message.all (· ∈ [' '.toUInt8, '\t'.toUInt8, '\n'.toUInt8, '\r'.toUInt8])

def is_punctuation (c : UInt8) : Bool := c ∈ bytes ".,?!:;"

def start_message (b : AOTextBox) (message : Bytes) (color_idx : ℤ) (color_defs : List AOTextColorDef) :
    AOTextBox :=
  let processed := AOTextProcessor.process message color_defs color_idx
  let total_chars := UTF8.length processed.display
  let base_color_idx := clamp color_idx 0 (b.colors.length - 1)
  { b with
    current_message := processed.display
    current_color_idx := base_color_idx
    base_color_idx_ := base_color_idx
    chars_visible := 0
    total_chars := total_chars
    state := if blank message then .inactive else if 0 < total_chars then .ticking else .done
    events := processed.events
    pause_remaining_ms_ := 0
    accumulated_ms := 0
    current_speed := DEFAULT_SPEED }

/-- After punctuation the next character takes longer. -/
def current_tick_delay (b : AOTextBox) : ℕ :=
  let delay := BASE_TICK_MS * SPEED_MULT.getD (min b.current_speed 6) 0 / 100
  let byte := b.current_message[UTF8.byte_offset b.current_message (b.chars_visible - 1)]?
  let last := 0 < b.chars_visible ∧ b.chars_visible ≤ b.current_message.length ∧ byte.any is_punctuation
  max (if last then delay * PUNCTUATION_MULT else delay) 1

/-- The loop of `tick`; a pause leaves it. -/
structure Crawl where
  box : AOTextBox
  result : TickResult
  paused : Bool

namespace Crawl

/-- One event, and the events after it. -/
def handle (e : TextEvent) (later : List TextEvent) (c : Crawl) : Crawl :=
  match e.type with
  | .color_change =>
    let color := clamp e.color_idx 0 (c.box.colors.length - 1)
    { c with box := { c.box with events := later, current_color_idx := color } }
  | .speed_up => { c with box := { c.box with events := later, current_speed := max (c.box.current_speed - 1) 1 } }
  | .speed_down => { c with box := { c.box with events := later, current_speed := min (c.box.current_speed + 1) 6 } }
  | .pause => { c with box := { c.box with events := later, pause_remaining_ms_ := 100 }, paused := true }
  | .screenshake =>
    { c with box := { c.box with events := later }, result := { c.result with trigger_screenshake := true } }
  | .flash => { c with box := { c.box with events := later }, result := { c.result with trigger_flash := true } }

/-- The events up to the last character shown. -/
def consume : List TextEvent → Crawl → Crawl
  | [], c => c
  | e :: later, c =>
    if e.char_index ≤ c.box.chars_visible then
      if (c.handle e later).paused then c.handle e later else consume later (c.handle e later)
    else c

/-- The next character. -/
def next_char (c : Crawl) : Crawl :=
  { c with
    box := { c.box with
      accumulated_ms := c.box.accumulated_ms - c.box.current_tick_delay
      chars_visible := c.box.chars_visible + 1 }
    result := { c.result with advanced := true } }

/-- The next character, with the events that come with it. -/
def show_char (c : Crawl) : Crawl := consume c.box.events c.next_char

/-- The loop, which shows at most all the characters that are missing. -/
def advance : ℕ → Crawl → Crawl
  | 0, c => c
  | missing + 1, c =>
    if c.box.current_tick_delay ≤ c.box.accumulated_ms ∧ c.box.chars_visible < c.box.total_chars then
      if c.show_char.paused then c.show_char
      else if c.show_char.box.total_chars ≤ c.show_char.box.chars_visible then
        { c.show_char with box := { c.show_char.box with state := .done } }
      else advance missing c.show_char
    else c

end Crawl

def tick (b : AOTextBox) (delta_ms : ℕ) : AOTextBox × TickResult :=
  if b.state ≠ .ticking then (b, {})
  else if 0 < b.pause_remaining_ms_ then
    ({ b with pause_remaining_ms_ := b.pause_remaining_ms_ - delta_ms }, {})
  else
    let c := Crawl.advance (b.total_chars - b.chars_visible)
      ⟨{ b with accumulated_ms := b.accumulated_ms + delta_ms }, {}, false⟩
    (c.box, c.result)

theorem delay_le (b : AOTextBox) : b.current_tick_delay ≤ 270 := by
  have slowest : ∀ speed ≤ 6, BASE_TICK_MS * SPEED_MULT.getD speed 0 / 100 ≤ 90 := by decide
  have delay := slowest (min b.current_speed 6) (Nat.min_le_right ..)
  rw [current_tick_delay, PUNCTUATION_MULT]
  split
  · omega
  · omega

/-- Where the pauses of the message are. -/
def pauses (events : List TextEvent) : List ℕ := (events.filter (·.type = .pause)).map (·.char_index)

theorem pauses_cons_of_pause {e : TextEvent} (pause : e.type = .pause) (later : List TextEvent) :
    pauses (e :: later) = e.char_index :: pauses later := by simp [pauses, pause]

theorem pauses_cons_of_ne {e : TextEvent} (other : e.type ≠ .pause) (later : List TextEvent) :
    pauses (e :: later) = pauses later := by simp [pauses, other]

theorem mem_pauses {events : List TextEvent} {r : ℕ} (member : r ∈ pauses events) :
    ∃ e ∈ events, e.char_index = r := by
  obtain ⟨e, filtered, same⟩ := List.mem_map.mp member
  exact ⟨e, (List.mem_filter.mp filtered).1, same⟩

theorem pauses_sorted {events : List TextEvent} (sorted : events.Pairwise (·.char_index ≤ ·.char_index)) :
    (pauses events).Pairwise (· ≤ ·) :=
  List.pairwise_map.mpr (sorted.filter _)

namespace Crawl

theorem handle_paused (e : TextEvent) (later : List TextEvent) (c : Crawl) :
    (c.handle e later).paused = (c.paused || decide (e.type = .pause)) := by
  rw [handle]
  cases e.type with
  | pause => simp
  | _ => simp

/-- What the events of a character leave: the text does not move on, the pauses that are taken are the first
one that is due, and no event is taken that is not to come. -/
structure Consumed (c c' : Crawl) : Prop where
  visible : c'.box.chars_visible = c.box.chars_visible
  total : c'.box.total_chars = c.box.total_chars
  state : c'.box.state = c.box.state
  later : c'.box.events <:+ c.box.events
  pauses : pauses c'.box.events = serve c.box.chars_visible (pauses c.box.events)
  paused : c'.paused = true ↔ Due c.box.chars_visible (AOTextBox.pauses c.box.events)
  pause_remaining : c'.box.pause_remaining_ms_ = if c'.paused then 100 else c.box.pause_remaining_ms_

theorem Consumed.none {c : Crawl} (going : c.paused = false)
    (none : ¬Due c.box.chars_visible (AOTextBox.pauses c.box.events)) : c.Consumed c where
  visible := rfl
  total := rfl
  state := rfl
  later := List.suffix_rfl
  pauses := (serve_of_not_due none).symm
  paused := by simp [going, none]
  pause_remaining := by simp [going]

theorem Consumed.pause {c : Crawl} {e : TextEvent} {later : List TextEvent} (here : c.box.events = e :: later)
    (pause : e.type = .pause) (due : e.char_index ≤ c.box.chars_visible) : c.Consumed (c.handle e later) := by
  have first := pauses_cons_of_pause pause later
  rw [handle, pause]
  exact {
    visible := rfl
    total := rfl
    state := rfl
    later := here ▸ List.suffix_cons e later
    pauses := by rw [here, first, serve_cons_of_le due]
    paused := by simp [here, first, due_cons, due]
    pause_remaining := by simp }

/-- An event that is no pause changes the color, the speed or the effects only. -/
theorem handle_of_ne {e : TextEvent} (other : e.type ≠ .pause) (later : List TextEvent) (c : Crawl) :
    ∃ color speed result, c.handle e later = { c with
      box := { c.box with events := later, current_color_idx := color, current_speed := speed }
      result := result } := by
  rw [handle]
  cases same : e.type with
  | pause => exact absurd same other
  | _ => exact ⟨_, _, _, rfl⟩

theorem Consumed.of_handle {c c' : Crawl} {e : TextEvent} {later : List TextEvent}
    (here : c.box.events = e :: later) (other : e.type ≠ .pause) (rest : (c.handle e later).Consumed c') :
    c.Consumed c' := by
  obtain ⟨color, speed, result, same⟩ := handle_of_ne other later c
  have skipped : AOTextBox.pauses c.box.events = AOTextBox.pauses later := by rw [here, pauses_cons_of_ne other]
  rw [same] at rest
  exact {
    visible := rest.visible
    total := rest.total
    state := rest.state
    later := by
      rw [here]
      exact rest.later.trans (List.suffix_cons e later)
    pauses := by rw [skipped, rest.pauses]
    paused := by rw [skipped, rest.paused]
    pause_remaining := rest.pause_remaining }

theorem consume_spec (events : List TextEvent) (c : Crawl) (here : c.box.events = events)
    (going : c.paused = false) (sorted : events.Pairwise (·.char_index ≤ ·.char_index)) :
    c.Consumed (consume events c) := by
  induction events generalizing c with
  | nil => exact .none going (by rw [here]; exact not_due_nil _)
  | cons e later ih =>
    rw [consume]
    have paused := handle_paused e later c
    split
    · rename_i due
      by_cases pause : e.type = .pause
      · rw [if_pos (by simp [paused, pause])]
        exact .pause here pause due
      · have going : (c.handle e later).paused = false := by simp [paused, pause, going]
        obtain ⟨color, speed, result, same⟩ := handle_of_ne pause later c
        rw [if_neg (by simp [going])]
        exact .of_handle here pause (ih _ (by rw [same]) going sorted.of_cons)
    · rename_i early
      -- the events stand in order, so that no pause is due either
      apply Consumed.none going
      rintro ⟨r, first, due⟩
      obtain ⟨e', member, rfl⟩ := mem_pauses (List.mem_of_mem_head? first)
      rw [here] at member
      rcases List.mem_cons.mp member with rfl | behind
      · exact early due
      · exact early ((List.rel_of_pairwise_cons sorted behind).trans due)

end Crawl

end AOTextBox

end AoSdl
