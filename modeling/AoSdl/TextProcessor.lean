import AoSdl.Text
import Mathlib.Logic.Function.Iterate

/-! The markup of an IC message: it is stripped from the text, and what it asks for becomes a list of events,
each with the number of characters that stand before it. -/
namespace AoSdl

namespace UTF8

/-- How many bytes follow this one, and the bits that it gives to the code point; none for a byte that
starts nothing. -/
def lead (c : UInt8) : Option (ℕ × UInt32) :=
  if c < 0x80 then some (0, c.toUInt32)
  else if c &&& 0xE0 = 0xC0 then some (1, (c &&& 0x1F).toUInt32)
  else if c &&& 0xF0 = 0xE0 then some (2, (c &&& 0x0F).toUInt32)
  else if c &&& 0xF8 = 0xF0 then some (3, (c &&& 0x07).toUInt32)
  else none

/-- The first code point and the bytes after it; a sequence that is cut off ends with the text. -/
def decode : Bytes → UInt32 × Bytes
  | [] => (0, [])
  | c :: s =>
    match lead c with
    | none => (0xFFFD, s)
    | some (extra, cp) => ((s.take extra).foldl (fun cp b => cp <<< 6 ||| (b &&& 0x3F).toUInt32) cp, s.drop extra)

/-- How many bytes the first character takes after its first byte, when they are there. -/
def extra (c : UInt8) : ℕ := ((lead c).map Prod.fst).getD 0

theorem decode_cons (c : UInt8) (s : Bytes) : (decode (c :: s)).2 = s.drop (extra c) := by
  rw [decode, extra]
  cases lead c with
  | none => rfl
  | some found => rfl

theorem decode_length_le (c : UInt8) (s : Bytes) : (decode (c :: s)).2.length ≤ s.length := by
  rw [decode_cons, List.length_drop]
  exact Nat.sub_le ..

def length : Bytes → ℕ
  | [] => 0
  | c :: s => length (decode (c :: s)).2 + 1
termination_by s => s.length
decreasing_by exact Nat.lt_succ_of_le (decode_length_le c s)

/-- What is left of the text after so many characters. -/
def skip : ℕ → Bytes → Bytes
  | 0, s => s
  | n + 1, s => skip n (decode s).2

def byte_offset (s : Bytes) (char_idx : ℕ) : ℕ := s.length - (skip char_idx s).length

theorem length_cons (c : UInt8) (s : Bytes) : length (c :: s) = length (s.drop (extra c)) + 1 := by
  rw [length, decode_cons]

@[simp] theorem length_nil : length [] = 0 := by rw [length]

/-- A text whose last sequence is not cut off, so that what follows it is read by itself. -/
def Whole (s : Bytes) : Prop := ∀ t, length (s ++ t) = length s + length t

theorem whole_nil : Whole [] := fun t => by simp

theorem whole_cons {c : UInt8} {s : Bytes} (present : s.length = extra c) : Whole (c :: s) := by
  intro t
  rw [List.cons_append, length_cons, length_cons, List.drop_append_of_le_length present.ge,
    List.drop_of_length_le present.le, List.nil_append, length_nil]
  omega

theorem Whole.append {s t : Bytes} (front : Whole s) (back : Whole t) : Whole (s ++ t) := fun u => by
  rw [List.append_assoc, front, back, front]
  omega

theorem length_take_char (c : UInt8) (s : Bytes) : length (c :: s.take (extra c)) = 1 := by
  rw [length_cons, List.drop_of_length_le (List.length_take_le ..), length_nil]

end UTF8

inductive TextEventType where
  | color_change
  | speed_up
  | speed_down
  | pause
  | screenshake
  | flash
deriving DecidableEq

structure TextEvent where
  char_index : ℕ
  type : TextEventType
  color_idx : ℤ := 0

inductive TextAlignment where
  | left
  | center
  | right
  | justify

structure ProcessedText where
  display : Bytes
  events : List TextEvent
  alignment : TextAlignment

structure AOTextColorDef where
  markup_start : Bytes
  markup_end : Bytes
  markup_remove : Bool

namespace AOTextColorDef

/-- The color starts and ends with the same markup. -/
def is_toggle (color : AOTextColorDef) : Prop :=
  color.markup_end = [] ∨ color.markup_end = color.markup_start

instance (color : AOTextColorDef) : Decidable color.is_toggle :=
  inferInstanceAs (Decidable (_ ∨ _))

end AOTextColorDef

namespace AOTextProcessor

/-- The loop of `process`: what is left of the message, the color that the markup is in, and the result so
far. -/
structure Scan where
  rest : Bytes
  active_inline_color : Option ℕ
  display_chars : ℕ
  display : Bytes
  events : List TextEvent

namespace Scan

def push (s : Scan) (type : TextEventType) (color_idx : ℤ := 0) : Scan :=
  { s with events := s.events ++ [⟨s.display_chars, type, color_idx⟩] }

def advance (s : Scan) (n : ℕ) : Scan := { s with rest := s.rest.drop n }

/-- The start of a color, or the end of one that toggles. -/
def start_color (s : Scan) (base_color : ℤ) (color : AOTextColorDef) (ci : ℕ) : Scan :=
  if s.active_inline_color = some ci then
    if color.is_toggle then { s with active_inline_color := none }.push .color_change base_color else s
  else { s with active_inline_color := some ci }.push .color_change ci

def end_color (s : Scan) (base_color : ℤ) : Scan :=
  { s with active_inline_color := none }.push .color_change base_color

/-- Every color is tried, until markup that is not shown has been found; whether it has. -/
def match_colors (base_color : ℤ) : List (AOTextColorDef × ℕ) → Scan → Scan × Bool
  | [], s => (s, false)
  | (color, ci) :: colors, s =>
    if color.markup_start = [] then match_colors base_color colors s
    else if color.markup_start <+: s.rest then
      if color.markup_remove then
        ((s.start_color base_color color ci).advance color.markup_start.length, true)
      else match_colors base_color colors (s.start_color base_color color ci)
    else if ¬color.is_toggle ∧ s.active_inline_color = some ci ∧ color.markup_end <+: s.rest then
      if color.markup_remove then ((s.end_color base_color).advance color.markup_end.length, true)
      else match_colors base_color colors (s.end_color base_color)
    else match_colors base_color colors s

def append_char (s : Scan) : Scan :=
  let after := (UTF8.decode s.rest).2
  { s with
    rest := after
    display := s.display ++ s.rest.take (s.rest.length - after.length)
    display_chars := s.display_chars + 1 }

variable (colors : List AOTextColorDef) (base_color : ℤ)

/-- What is not an escape and not a speed modifier: color markup, or a character of the text. -/
def plain (s : Scan) : Scan :=
  match match_colors base_color colors.zipIdx s with
  | (s, true) => s
  | (s, false) => s.append_char

/-- After a backslash; one that says nothing is skipped, and the character after it is text or color
markup. -/
def escape (s : Scan) (next : UInt8) (after : Bytes) : Scan :=
  if next = 'n'.toUInt8 then
    { s with rest := after, display := s.display ++ ['\n'.toUInt8], display_chars := s.display_chars + 1 }
  else if next = 's'.toUInt8 then { s with rest := after }.push .screenshake
  else if next = 'f'.toUInt8 then { s with rest := after }.push .flash
  else if next = 'p'.toUInt8 then { s with rest := after }.push .pause
  else { s with rest := next :: after }.plain colors base_color

def step (s : Scan) : Scan :=
  match s.rest with
  | [] => s
  | c :: rest =>
    if c = '\\'.toUInt8 then
      match rest with
      | [] => s.plain colors base_color
      | next :: after => s.escape colors base_color next after
    else if c = '{'.toUInt8 then { s with rest := rest }.push .speed_down
    else if c = '}'.toUInt8 then { s with rest := rest }.push .speed_up
    else s.plain colors base_color

end Scan

/-- The alignment that the message starts with, and the text after it. -/
def split_alignment (raw : Bytes) : TextAlignment × Bytes :=
  if bytes "~~" <+: raw then (.center, raw.drop 2)
  else if bytes "~>" <+: raw then (.right, raw.drop 2)
  else if bytes "<>" <+: raw then (.justify, raw.drop 2)
  else (.left, raw)

/-- Each turn of the loop takes at least one byte. -/
def process (raw : Bytes) (colors : List AOTextColorDef) (base_color : ℤ) : ProcessedText :=
  let (alignment, text) := split_alignment raw
  let s := (Scan.step colors base_color)^[text.length] ⟨text, none, 0, [], []⟩
  ⟨s.display, s.events, alignment⟩

namespace Scan

/-- What the loop keeps: the events stand in order, none beyond the text so far, and the text so far has as
many characters as the loop has counted. -/
structure Fine (s : Scan) : Prop where
  sorted : s.events.Pairwise (·.char_index ≤ ·.char_index)
  within : ∀ e ∈ s.events, e.char_index ≤ s.display_chars
  counted : UTF8.length s.display = s.display_chars
  whole : s.rest ≠ [] → UTF8.Whole s.display

theorem Fine.push {s : Scan} (fine : s.Fine) (type : TextEventType) (color_idx : ℤ) :
    (s.push type color_idx).Fine where
  sorted := by
    apply List.pairwise_append.mpr
    refine ⟨fine.sorted, List.pairwise_singleton .., fun e old new added => ?_⟩
    rw [List.mem_singleton.mp added]
    exact fine.within e old
  within e member := by
    rcases List.mem_append.mp member with old | added
    · exact fine.within e old
    · rw [List.mem_singleton.mp added]
      exact Nat.le_refl _
  counted := fine.counted
  whole := fine.whole

theorem Fine.rest {s : Scan} (fine : s.Fine) {rest : Bytes} (more : rest ≠ [] → s.rest ≠ []) :
    { s with rest := rest }.Fine :=
  ⟨fine.sorted, fine.within, fine.counted, fun left => fine.whole (more left)⟩

theorem Fine.color {s : Scan} (fine : s.Fine) (active : Option ℕ) :
    { s with active_inline_color := active }.Fine :=
  ⟨fine.sorted, fine.within, fine.counted, fine.whole⟩

theorem Fine.advance {s : Scan} (fine : s.Fine) (n : ℕ) : (s.advance n).Fine :=
  fine.rest fun left none => left (by rw [none, List.drop_nil])

theorem Fine.start_color {s : Scan} (fine : s.Fine) (base_color : ℤ) (color : AOTextColorDef) (ci : ℕ) :
    (s.start_color base_color color ci).Fine := by
  rw [Scan.start_color]
  split
  · split
    · exact (fine.color none).push ..
    · exact fine
  · exact (fine.color _).push ..

theorem Fine.end_color {s : Scan} (fine : s.Fine) (base_color : ℤ) : (s.end_color base_color).Fine :=
  (fine.color none).push ..

theorem Fine.match_colors {s : Scan} (fine : s.Fine) (base_color : ℤ) (colors : List (AOTextColorDef × ℕ)) :
    (match_colors base_color colors s).1.Fine := by
  induction colors generalizing s with
  | nil => exact fine
  | cons entry colors ih =>
    rw [Scan.match_colors]
    split
    · exact ih fine
    · split
      · split
        · exact (fine.start_color ..).advance _
        · exact ih (fine.start_color ..)
      · split
        · split
          · exact (fine.end_color _).advance _
          · exact ih (fine.end_color _)
        · exact ih fine

@[simp] theorem start_color_rest (s : Scan) (base_color : ℤ) (color : AOTextColorDef) (ci : ℕ) :
    (s.start_color base_color color ci).rest = s.rest := by
  rw [Scan.start_color]
  split
  · split
    · rfl
    · rfl
  · rfl

@[simp] theorem end_color_rest (s : Scan) (base_color : ℤ) : (s.end_color base_color).rest = s.rest := rfl

theorem advance_length_lt {s : Scan} {markup : Bytes} (some : markup ≠ []) (found : markup <+: s.rest) :
    (s.advance markup.length).rest.length < s.rest.length := by
  have positive := List.length_pos_iff.mpr some
  have inside := found.length_le
  rw [Scan.advance, List.length_drop]
  omega

/-- Markup that is not shown is left behind, and nothing else is. -/
theorem match_colors_rest (base_color : ℤ) (colors : List (AOTextColorDef × ℕ)) (s : Scan) :
    if (match_colors base_color colors s).2 then (match_colors base_color colors s).1.rest.length < s.rest.length
    else (match_colors base_color colors s).1.rest = s.rest := by
  induction colors generalizing s with
  | nil => rfl
  | cons entry colors ih =>
    rw [Scan.match_colors]
    split
    · exact ih s
    · rename_i named
      split
      · rename_i found
        split
        · rw [← start_color_rest s base_color entry.1 entry.2] at found ⊢
          exact advance_length_lt named found
        · simpa only [start_color_rest] using ih (s.start_color base_color entry.1 entry.2)
      · split
        · rename_i ended
          split
          · have named : entry.1.markup_end ≠ [] := fun none => ended.1 (.inl none)
            exact advance_length_lt (s := s.end_color base_color) named ended.2.2
          · simpa only [end_color_rest] using ih (s.end_color base_color)
        · exact ih s

theorem append_char_of_cons {s : Scan} {c : UInt8} {after : Bytes} (here : s.rest = c :: after) :
    s.append_char = { s with
      rest := after.drop (UTF8.extra c)
      display := s.display ++ c :: after.take (UTF8.extra c)
      display_chars := s.display_chars + 1 } := by
  have taken : (c :: after).length - (after.drop (UTF8.extra c)).length = min (UTF8.extra c) after.length + 1 := by
    rw [List.length_cons, List.length_drop]
    omega
  rw [append_char, here, UTF8.decode_cons, taken, List.take_succ_cons, ← List.take_eq_take_min]

theorem Fine.append_char {s : Scan} (fine : s.Fine) {c : UInt8} {after : Bytes} (here : s.rest = c :: after) :
    s.append_char.Fine := by
  have whole : UTF8.Whole s.display := fine.whole (by simp [here])
  rw [append_char_of_cons here]
  refine ⟨fine.sorted, fun e member => Nat.le_succ_of_le (fine.within e member), ?_, fun left => ?_⟩
  · rw [whole, UTF8.length_take_char, fine.counted]
  · apply whole.append
    apply UTF8.whole_cons
    rw [List.length_take]
    rw [ne_eq, List.drop_eq_nil_iff] at left
    omega

variable (colors : List AOTextColorDef) (base_color : ℤ)

/-- Color markup was found that is not shown, or the next character is taken. -/
theorem plain_cases (s : Scan) : ∃ s', (s.Fine → s'.Fine) ∧
    (s.plain colors base_color = s' ∧ s'.rest.length < s.rest.length ∨
      s.plain colors base_color = s'.append_char ∧ s'.rest = s.rest) := by
  have rest := match_colors_rest base_color colors.zipIdx s
  have fine := fun fine : s.Fine => fine.match_colors base_color colors.zipIdx
  rw [plain]
  generalize match_colors base_color colors.zipIdx s = matched at rest fine
  rcases matched with ⟨s', _ | _⟩
  · exact ⟨s', fine, .inr ⟨rfl, rest⟩⟩
  · exact ⟨s', fine, .inl ⟨rfl, rest⟩⟩

theorem plain_length_lt {s : Scan} (more : s.rest ≠ []) :
    (s.plain colors base_color).rest.length < s.rest.length := by
  obtain ⟨s', -, ⟨same, shorter⟩ | ⟨same, rest⟩⟩ := plain_cases colors base_color s
  · rw [same]
    exact shorter
  · obtain ⟨c, after, here⟩ := List.exists_cons_of_ne_nil more
    rw [here] at rest
    rw [same, append_char_of_cons rest, here, List.length_cons, List.length_drop]
    omega

theorem Fine.plain {s : Scan} (fine : s.Fine) (more : s.rest ≠ []) : (s.plain colors base_color).Fine := by
  obtain ⟨s', kept, ⟨same, -⟩ | ⟨same, rest⟩⟩ := plain_cases colors base_color s
  · rw [same]
    exact kept fine
  · obtain ⟨c, after, here⟩ := List.exists_cons_of_ne_nil more
    rw [same]
    exact (kept fine).append_char (rest.trans here)

theorem Fine.escape {s : Scan} (fine : s.Fine) (more : s.rest ≠ []) (next : UInt8) (after : Bytes) :
    (s.escape colors base_color next after).Fine := by
  have left : {s with rest := after}.Fine := fine.rest fun _ => more
  rw [Scan.escape]
  split
  · have whole := fine.whole more
    refine ⟨fine.sorted, fun e member => Nat.le_succ_of_le (fine.within e member), ?_, fun _ => ?_⟩
    · rw [whole, fine.counted, UTF8.length_cons, List.drop_nil, UTF8.length_nil]
    · exact whole.append (UTF8.whole_cons rfl)
  · split
    · exact left.push ..
    · split
      · exact left.push ..
      · split
        · exact left.push ..
        · exact (fine.rest fun _ => more).plain colors base_color (List.cons_ne_nil next after)

theorem escape_length_le (s : Scan) (next : UInt8) (after : Bytes) :
    (s.escape colors base_color next after).rest.length ≤ after.length := by
  rw [escape]
  split
  · exact Nat.le_refl _
  · split
    · exact Nat.le_refl _
    · split
      · exact Nat.le_refl _
      · split
        · exact Nat.le_refl _
        · exact Nat.le_of_lt_succ (plain_length_lt (s := { s with rest := next :: after }) colors base_color
            (List.cons_ne_nil next after))

theorem Fine.step {s : Scan} (fine : s.Fine) : (s.step colors base_color).Fine := by
  rw [Scan.step]
  split
  · exact fine
  · rename_i c rest here
    have more : s.rest ≠ [] := by simp [here]
    split
    · split
      · exact fine.plain colors base_color more
      · exact fine.escape colors base_color more ..
    · split
      · exact (fine.rest fun _ => more).push ..
      · split
        · exact (fine.rest fun _ => more).push ..
        · exact fine.plain colors base_color more

theorem step_length_lt {s : Scan} (more : s.rest ≠ []) :
    (s.step colors base_color).rest.length < s.rest.length := by
  rw [step]
  split
  · contradiction
  · rename_i c rest here
    have shorter : rest.length < s.rest.length := by simp [here]
    split
    · split
      · exact plain_length_lt colors base_color more
      · have := escape_length_le colors base_color s ‹_› ‹_›
        rw [List.length_cons] at shorter
        omega
    · split
      · exact shorter
      · split
        · exact shorter
        · exact plain_length_lt colors base_color more

theorem Fine.steps {s : Scan} (fine : s.Fine) (n : ℕ) : ((Scan.step colors base_color)^[n] s).Fine := by
  induction n generalizing s with
  | zero => exact fine
  | succ n ih => exact ih (fine.step colors base_color)

theorem steps_rest {s : Scan} {n : ℕ} (enough : s.rest.length ≤ n) :
    ((step colors base_color)^[n] s).rest = [] := by
  induction n generalizing s with
  | zero => exact List.length_eq_zero_iff.mp (Nat.le_zero.mp enough)
  | succ n ih =>
    rw [Function.iterate_succ_apply]
    apply ih
    by_cases ended : s.rest = []
    · rw [step, ended]
      simp [ended]
    · have := step_length_lt colors base_color ended
      omega

theorem fine_start (text : Bytes) : (⟨text, none, 0, [], []⟩ : Scan).Fine where
  sorted := .nil
  within _ member := nomatch member
  counted := UTF8.length_nil
  whole _ := UTF8.whole_nil

end Scan

variable (raw : Bytes) (colors : List AOTextColorDef) (base_color : ℤ)

theorem process_sorted : (process raw colors base_color).events.Pairwise (·.char_index ≤ ·.char_index) :=
  ((Scan.fine_start _).steps colors base_color _).sorted

/-- No event stands behind the end of the text that is shown. -/
theorem process_within : ∀ e ∈ (process raw colors base_color).events,
    e.char_index ≤ UTF8.length (process raw colors base_color).display := by
  have fine := (Scan.fine_start (split_alignment raw).2).steps colors base_color (split_alignment raw).2.length
  intro e member
  exact (fine.within e member).trans fine.counted.ge

end AOTextProcessor

end AoSdl
