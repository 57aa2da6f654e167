import AoSdl.Lib.Utf8
import AoSdl.TextProcessor
import Mathlib.Data.Bool.AllAny

/-! Texts in which every special character stands behind a backslash: what the scan makes of them. A backslash does
not keep a character from being color markup, so the text comes back exactly when no color starts with one of its
characters. -/
namespace AoSdl.AOTextProcessor

open Lib.Utf8

theorem extra_eq_width (b : UInt8) : UTF8.extra b = width b - 1 := by
  rw [UTF8.extra, UTF8.lead, width]
  split_ifs <;> rfl

/-- Each markup of the colors is one character, or none. -/
structure SingleMarkup (colors : List AOTextColorDef) : Prop where
  start : ∀ color ∈ colors, color.markup_start = [] ∨ ∃ c, color.markup_start = String.utf8EncodeChar c
  ending : ∀ color ∈ colors, color.markup_end = [] ∨ ∃ c, color.markup_end = String.utf8EncodeChar c

section

variable (colors : List AOTextColorDef)

/-- A color starts with the character. -/
def Starts (c : Char) : Prop := ∃ color ∈ colors, color.markup_start = String.utf8EncodeChar c

/-- A color starts or ends with the character. -/
def Marker (c : Char) : Prop :=
  ∃ color ∈ colors, color.markup_start = String.utf8EncodeChar c ∨ color.markup_end = String.utf8EncodeChar c

/-- Backslash, brace or color markup. -/
def Special (c : Char) : Prop := c ∈ ['\\', '\x7b', '\x7d'] ∨ Marker colors c

instance : DecidablePred (Starts colors) := fun c =>
  inferInstanceAs (Decidable (∃ color ∈ colors, color.markup_start = String.utf8EncodeChar c))

instance : DecidablePred (Marker colors) := fun c => inferInstanceAs (Decidable (∃ color ∈ colors,
  color.markup_start = String.utf8EncodeChar c ∨ color.markup_end = String.utf8EncodeChar c))

instance : DecidablePred (Special colors) := fun c =>
  inferInstanceAs (Decidable (c ∈ ['\\', '\x7b', '\x7d'] ∨ Marker colors c))

/-- The characters that say something behind a backslash. -/
def commands : List Char := ['n', 's', 'f', 'p']

/-- The text with a backslash before each special character. -/
def escaped (t : List Char) : Bytes :=
  t.flatMap fun c => if Special colors c then '\\'.toUInt8 :: String.utf8EncodeChar c else String.utf8EncodeChar c

/-- The texts of the three alignments. -/
def prefixes : List (List Char) := [['~', '~'], ['~', '>'], ['<', '>']]

end

variable {colors : List AOTextColorDef}

theorem escaped_cons (c : Char) (t : List Char) : escaped colors (c :: t) =
    (if Special colors c then '\\'.toUInt8 :: String.utf8EncodeChar c else String.utf8EncodeChar c) ++
      escaped colors t := rfl

theorem length_le_escaped (t : List Char) : t.length ≤ (escaped colors t).length := by
  induction t with
  | nil => exact Nat.zero_le _
  | cons c t ih =>
    have positive := encodeChar_pos c
    rw [escaped_cons, List.length_append, List.length_cons]
    split
    · rw [List.length_cons]
      omega
    · omega

theorem encode_backslash : String.utf8EncodeChar '\\' = ['\\'.toUInt8] := by decide

/-- What does not begin with a backslash is not escaped. -/
theorem isPrefix_of_escaped {p t : List Char} (clean : '\\' ∉ p) (front : encode p <+: escaped colors t) : p <+: t := by
  induction p generalizing t with
  | nil => exact List.nil_prefix
  | cons c p ih =>
    rw [List.mem_cons, not_or] at clean
    cases t with
    | nil =>
      have empty : encode (c :: p) = [] := List.prefix_nil.mp front
      have positive := encodeChar_pos c
      simp only [encode_cons, List.append_eq_nil_iff] at empty
      rw [empty.1] at positive
      contradiction
    | cons d t =>
      rw [escaped_cons, encode_cons] at front
      have first : String.utf8EncodeChar c <+: _ := (List.prefix_append _ _).trans front
      by_cases special : Special colors d
      · rw [if_pos special, List.cons_append] at first
        have same : c = '\\' := by
          apply eq_of_isPrefix
          rw [encode_backslash]
          exact first
        exact absurd same.symm clean.1
      · rw [if_neg special] at first front
        obtain rfl := eq_of_isPrefix first
        rw [List.prefix_append_right_inj] at front
        exact List.cons_prefix_cons.mpr ⟨rfl, ih clean.2 front⟩

theorem split_alignment_escaped {t : List Char} (plain : ∀ p ∈ prefixes, ¬p <+: t) :
    split_alignment (escaped colors t) = (.left, escaped colors t) := by
  have absent : ∀ p ∈ prefixes, ¬encode p <+: escaped colors t := by
    intro p listed front
    have clean : ∀ p ∈ prefixes, '\\' ∉ p := by decide
    exact plain p listed (isPrefix_of_escaped (clean p listed) front)
  have center : ¬bytes "~~" <+: escaped colors t := absent ['~', '~'] (by decide)
  have right : ¬bytes "~>" <+: escaped colors t := absent ['~', '>'] (by decide)
  have justify : ¬bytes "<>" <+: escaped colors t := absent ['<', '>'] (by decide)
  rw [split_alignment, if_neg center, if_neg right, if_neg justify]

namespace Scan

variable (base_color : ℤ)

/-! ### Events are kept -/

theorem events_start_color (s : Scan) (color : AOTextColorDef) (ci : ℕ) :
    s.events <+: (s.start_color base_color color ci).events := by
  rw [start_color]
  split
  · split
    · exact List.prefix_append ..
    · exact List.prefix_rfl
  · exact List.prefix_append ..

theorem events_match_colors (entries : List (AOTextColorDef × ℕ)) (s : Scan) :
    s.events <+: (match_colors base_color entries s).1.events := by
  induction entries generalizing s with
  | nil => exact List.prefix_rfl
  | cons entry entries ih =>
    have entered := events_start_color base_color s entry.1 entry.2
    have left : s.events <+: (s.end_color base_color).events := List.prefix_append ..
    rw [match_colors]
    split
    · exact ih s
    · split
      · split
        · exact entered
        · exact entered.trans (ih _)
      · split
        · split
          · exact left
          · exact left.trans (ih _)
        · exact ih s

theorem events_plain (s : Scan) : s.events <+: (s.plain colors base_color).events := by
  have kept := events_match_colors base_color colors.zipIdx s
  rw [plain]
  generalize match_colors base_color colors.zipIdx s = matched at kept
  rcases matched with ⟨s', _ | _⟩
  · exact kept
  · exact kept

theorem events_step (s : Scan) : s.events <+: (s.step colors base_color).events := by
  rw [step]
  split
  · exact List.prefix_rfl
  · split
    · split
      · apply events_plain
      · rw [escape]
        split_ifs
        · exact List.prefix_rfl
        · exact List.prefix_append ..
        · exact List.prefix_append ..
        · exact List.prefix_append ..
        · next after _ _ _ _ _ => exact events_plain base_color { s with rest := _ :: after }
    · split
      · exact List.prefix_append ..
      · split
        · exact List.prefix_append ..
        · apply events_plain

theorem events_steps (s : Scan) (n : ℕ) : s.events <+: ((step colors base_color)^[n] s).events := by
  induction n generalizing s with
  | zero => exact List.prefix_rfl
  | succ n ih => exact (events_step base_color s).trans (ih _)

/-! ### One character -/

/-- Outside of all colors nothing but the start of a color is markup. -/
theorem match_colors_none {s : Scan} (outside : s.active_inline_color = none) {entries : List (AOTextColorDef × ℕ)}
    (unmarked : ∀ entry ∈ entries, entry.1.markup_start ≠ [] → ¬entry.1.markup_start <+: s.rest) :
    match_colors base_color entries s = (s, false) := by
  induction entries with
  | nil => rfl
  | cons entry entries ih =>
    have later := ih fun other member => unmarked other (List.mem_cons_of_mem entry member)
    rw [match_colors]
    split
    · exact later
    · next named =>
      have elsewhere : ¬(¬entry.1.is_toggle ∧ s.active_inline_color = some entry.2 ∧ entry.1.markup_end <+: s.rest) := by
        rw [outside]
        rintro ⟨-, inside, -⟩
        contradiction
      rw [if_neg (unmarked entry List.mem_cons_self named), if_neg elsewhere]
      exact later

/-- Outside of all colors the start of a color is an event. -/
theorem match_colors_event {s : Scan} (outside : s.active_inline_color = none) {entries : List (AOTextColorDef × ℕ)}
    (marked : ∃ entry ∈ entries, entry.1.markup_start ≠ [] ∧ entry.1.markup_start <+: s.rest) :
    (match_colors base_color entries s).1.events ≠ [] := by
  induction entries with
  | nil =>
    obtain ⟨entry, member, -⟩ := marked
    contradiction
  | cons entry entries ih =>
    have entered : (s.start_color base_color entry.1 entry.2).events ≠ [] := by
      have apart : s.active_inline_color ≠ some entry.2 := by simp [outside]
      rw [start_color, if_neg apart]
      exact List.append_ne_nil_of_right_ne_nil _ (List.cons_ne_nil _ _)
    rw [match_colors]
    split
    · next unnamed =>
      apply ih
      obtain ⟨other, member, named, front⟩ := marked
      rcases List.mem_cons.mp member with rfl | later
      · exact absurd unnamed named
      · exact ⟨other, later, named, front⟩
    · split
      · split
        · exact entered
        · exact (events_match_colors base_color entries _).ne_nil entered
      · next other_text =>
        have elsewhere : ¬(¬entry.1.is_toggle ∧ s.active_inline_color = some entry.2 ∧
            entry.1.markup_end <+: s.rest) := by
          rw [outside]
          rintro ⟨-, inside, -⟩
          contradiction
        rw [if_neg elsewhere]
        apply ih
        obtain ⟨other, member, named, front⟩ := marked
        rcases List.mem_cons.mp member with rfl | later
        · exact absurd front other_text
        · exact ⟨other, later, named, front⟩

/-- The scan after more text. -/
def shown (s : Scan) (t : List Char) (rest : Bytes) : Scan :=
  { s with rest := rest, display := s.display ++ encode t, display_chars := s.display_chars + t.length }

theorem shown_nil {s : Scan} (ended : s.rest = []) : s.shown [] [] = s := by
  obtain ⟨rest, active, chars, display, events⟩ := s
  obtain rfl : rest = [] := ended
  simp [shown]

theorem shown_cons (s : Scan) (c : Char) (t : List Char) (between rest : Bytes) :
    (s.shown [c] between).shown t rest = s.shown (c :: t) rest := by
  simp [shown, Nat.add_assoc, Nat.add_comm 1]

/-- The scan outside of all colors, with the character next. -/
structure Before (s : Scan) (c : Char) (after : Bytes) : Prop where
  outside : s.active_inline_color = none
  next : s.rest = String.utf8EncodeChar c ++ after

theorem starts_iff (single : SingleMarkup colors) {s : Scan} {c : Char} {after : Bytes} (before : Before s c after) :
    Starts colors c ↔ ∃ entry ∈ colors.zipIdx, entry.1.markup_start ≠ [] ∧ entry.1.markup_start <+: s.rest := by
  rw [before.next]
  constructor
  · rintro ⟨color, member, start⟩
    obtain ⟨ci, inside, rfl⟩ := List.mem_iff_getElem.mp member
    refine ⟨(colors[ci], ci), List.mk_mem_zipIdx_iff_getElem?.mpr (List.getElem?_eq_getElem inside), ?_, ?_⟩
    · rw [start]
      exact List.ne_nil_of_length_pos (encodeChar_pos c)
    · rw [start]
      exact List.prefix_append ..
  · rintro ⟨⟨color, ci⟩, member, named, front⟩
    have member : color ∈ colors := List.mem_of_getElem? (List.mk_mem_zipIdx_iff_getElem?.mp member)
    rcases single.start color member with empty | ⟨d, start⟩
    · exact absurd empty named
    · refine ⟨color, member, ?_⟩
      rw [start] at front ⊢
      rw [eq_of_isPrefix front]

theorem append_char_before {s : Scan} {c : Char} {after : Bytes} (next : s.rest = String.utf8EncodeChar c ++ after) :
    s.append_char = s.shown [c] after := by
  obtain ⟨b, later, shape, -, size, -⟩ := encodeChar_shape c
  have width : UTF8.extra b = later.length := by
    rw [extra_eq_width]
    omega
  have here : s.rest = b :: (later ++ after) := by rw [next, shape, List.cons_append]
  rw [append_char_of_cons here, width, List.drop_left, List.take_left, shown]
  simp [shape]

/-- A character that starts no color is text. -/
theorem plain_text (single : SingleMarkup colors) {s : Scan} {c : Char} {after : Bytes} (before : Before s c after)
    (text : ¬Starts colors c) : s.plain colors base_color = s.shown [c] after := by
  rw [starts_iff single before] at text
  push Not at text
  have unmarked := match_colors_none base_color before.outside text
  rw [plain, unmarked]
  exact append_char_before before.next

theorem plain_event (single : SingleMarkup colors) {s : Scan} {c : Char} {after : Bytes} (before : Before s c after)
    (start : Starts colors c) : (s.plain colors base_color).events ≠ [] := by
  have marked := match_colors_event base_color before.outside ((starts_iff single before).mp start)
  rw [plain]
  generalize match_colors base_color colors.zipIdx s = matched at marked
  rcases matched with ⟨s', _ | _⟩
  · exact marked
  · exact marked

/-- A byte of one character begins no other. -/
theorem first_byte_ne {b : UInt8} {later : Bytes} {c d : Char} (shape : String.utf8EncodeChar c = b :: later)
    (byte : String.utf8EncodeChar d = [d.toUInt8]) (other : c ≠ d) : b ≠ d.toUInt8 := by
  rintro rfl
  apply other
  apply Eq.symm
  apply eq_of_isPrefix (s := [])
  rw [byte, shape, List.append_nil]
  exact ⟨later, rfl⟩

theorem step_escaped (speechless : ∀ c ∈ commands, ¬Marker colors c) {s : Scan} (c : Char) (t : List Char)
    (next : s.rest = escaped colors (c :: t)) : s.step colors base_color =
      { s with rest := String.utf8EncodeChar c ++ escaped colors t }.plain colors base_color := by
  obtain ⟨b, later, shape, -⟩ := encodeChar_shape c
  rw [escaped_cons] at next
  by_cases special : Special colors c
  · have command : ∀ d ∈ commands, c ≠ d := by
      rintro d listed rfl
      have silent : ∀ d ∈ commands, d ∉ ['\\', '\x7b', '\x7d'] := List.all_iff_forall_prop.mp (by decide)
      rcases special with plain | marker
      · exact silent c listed plain
      · exact speechless c listed marker
    rw [if_pos special, shape, List.cons_append, List.cons_append] at next
    have newline : b ≠ 'n'.toUInt8 := first_byte_ne shape (by decide) (command _ (by decide))
    have screenshake : b ≠ 's'.toUInt8 := first_byte_ne shape (by decide) (command _ (by decide))
    have flash : b ≠ 'f'.toUInt8 := first_byte_ne shape (by decide) (command _ (by decide))
    have pause : b ≠ 'p'.toUInt8 := first_byte_ne shape (by decide) (command _ (by decide))
    rw [step, next, shape]
    simp only [if_true, escape, if_neg newline, if_neg screenshake, if_neg flash, if_neg pause]
    rfl
  · have backslash : c ≠ '\\' := by
      rintro rfl
      exact special (.inl (by decide))
    have left : c ≠ '\x7b' := by
      rintro rfl
      exact special (.inl (by decide))
    have right : c ≠ '\x7d' := by
      rintro rfl
      exact special (.inl (by decide))
    rw [if_neg special] at next
    have same : { s with rest := String.utf8EncodeChar c ++ escaped colors t } = s := by rw [← next]
    have shaped := next
    rw [shape, List.cons_append] at shaped
    have backslash : b ≠ '\\'.toUInt8 := first_byte_ne shape (by decide) backslash
    have left : b ≠ '\x7b'.toUInt8 := first_byte_ne shape (by decide) left
    have right : b ≠ '\x7d'.toUInt8 := first_byte_ne shape (by decide) right
    rw [same, step, shaped]
    simp only [if_neg backslash, if_neg left, if_neg right]

/-! ### Whole texts -/

theorem steps_nil {s : Scan} (ended : s.rest = []) (n : ℕ) : (step colors base_color)^[n] s = s := by
  apply Function.iterate_fixed
  rw [step, ended]

variable (single : SingleMarkup colors) (speechless : ∀ c ∈ commands, ¬Marker colors c)

include single speechless

theorem steps_text {t : List Char} (text : ∀ c ∈ t, ¬Starts colors c) {n : ℕ} (enough : t.length ≤ n) {s : Scan}
    (outside : s.active_inline_color = none) (next : s.rest = escaped colors t) :
    (step colors base_color)^[n] s = s.shown t [] := by
  induction t generalizing n s with
  | nil => rw [steps_nil base_color next, shown_nil next]
  | cons c t ih =>
    obtain ⟨m, rfl⟩ := Nat.exists_eq_add_of_le' (Nat.lt_of_lt_of_le (Nat.succ_pos _) enough)
    obtain ⟨first, later⟩ := List.forall_mem_cons.mp text
    have turn : s.step colors base_color = s.shown [c] (escaped colors t) := by
      rw [step_escaped base_color speechless c t next]
      exact plain_text base_color single ⟨outside, rfl⟩ first
    have kept : (s.shown [c] (escaped colors t)).active_inline_color = none := outside
    rw [Function.iterate_succ_apply, turn, ih later (Nat.le_of_succ_le_succ enough) kept rfl, shown_cons]

/-- The first start of a color is an event, which stays. -/
theorem steps_event {t : List Char} (start : ∃ c ∈ t, Starts colors c) {n : ℕ} (enough : t.length ≤ n) {s : Scan}
    (outside : s.active_inline_color = none) (next : s.rest = escaped colors t) :
    ((step colors base_color)^[n] s).events ≠ [] := by
  induction t generalizing n s with
  | nil =>
    obtain ⟨c, member, -⟩ := start
    contradiction
  | cons c t ih =>
    obtain ⟨m, rfl⟩ := Nat.exists_eq_add_of_le' (Nat.lt_of_lt_of_le (Nat.succ_pos _) enough)
    have turn := step_escaped base_color speechless c t next
    rw [Function.iterate_succ_apply, turn]
    by_cases first : Starts colors c
    · have event := plain_event base_color single
        (s := { s with rest := String.utf8EncodeChar c ++ escaped colors t }) ⟨outside, rfl⟩ first
      exact (events_steps base_color _ _).ne_nil event
    · have text := plain_text base_color single
        (s := { s with rest := String.utf8EncodeChar c ++ escaped colors t }) ⟨outside, rfl⟩ first
      have rest : ∃ c ∈ t, Starts colors c := by
        obtain ⟨d, member, start⟩ := start
        rcases List.mem_cons.mp member with rfl | later
        · exact absurd start first
        · exact ⟨d, later, start⟩
      have kept : (s.shown [c] (escaped colors t)).active_inline_color = none := outside
      rw [text]
      exact ih rest (Nat.le_of_succ_le_succ enough) kept rfl

end Scan

/-- An escaped text comes back without events exactly when no color starts with one of its characters; the events
of every message are sorted and inside of its text. -/
theorem escaped_text_iff (colors : List AOTextColorDef) (base_color : ℤ) (t : List Char) (single : SingleMarkup colors)
    (speechless : ∀ c ∈ commands, ¬Marker colors c) (plain : ∀ p ∈ prefixes, ¬p <+: t) :
    ((process (escaped colors t) colors base_color).display = encode t ∧
        (process (escaped colors t) colors base_color).events = [] ↔ ∀ c ∈ t, ¬Starts colors c) ∧
      ∀ raw colors base_color, (process raw colors base_color).events.Pairwise (·.char_index ≤ ·.char_index) ∧
        ∀ e ∈ (process raw colors base_color).events,
          e.char_index ≤ UTF8.length (process raw colors base_color).display := by
  refine ⟨?_, fun raw colors base_color =>
    ⟨process_sorted raw colors base_color, process_within raw colors base_color⟩⟩
  have enough : t.length ≤ (escaped colors t).length := length_le_escaped t
  rw [process, split_alignment_escaped plain]
  constructor
  · rintro ⟨-, silent⟩ c member start
    exact Scan.steps_event base_color single speechless ⟨c, member, start⟩ enough rfl rfl silent
  · intro text
    have start : (⟨escaped colors t, none, 0, [], []⟩ : Scan).active_inline_color = none := rfl
    simp only [Scan.steps_text base_color single speechless text enough start rfl]
    exact ⟨rfl, rfl⟩

/-- Green between tildes, and blue between brackets. -/
def two_colors : List AOTextColorDef :=
  [⟨bytes "~", [], true⟩, ⟨bytes "(", bytes ")", true⟩]

theorem two_colors_single : SingleMarkup two_colors where
  start := by
    refine List.forall_mem_cons.mpr ⟨.inr ⟨'~', ?_⟩, List.forall_mem_singleton.mpr (.inr ⟨'(', ?_⟩)⟩
    · decide
    · decide
  ending := by
    refine List.forall_mem_cons.mpr ⟨.inl rfl, List.forall_mem_singleton.mpr (.inr ⟨')', ?_⟩)⟩
    decide

theorem escaped_text_bracket :
    (process (escaped two_colors ['a', ')', '\x7b']) two_colors 0).display = encode ['a', ')', '\x7b'] ∧
      (process (escaped two_colors ['a', ')', '\x7b']) two_colors 0).events = [] :=
  (escaped_text_iff two_colors 0 ['a', ')', '\x7b'] two_colors_single (List.all_iff_forall_prop.mp (by decide))
    (by decide)).1.mpr (List.all_iff_forall_prop.mp (by decide))

/-- The character behind a backslash still starts a color. -/
theorem escaped_tilde : ¬∀ colors base_color t, SingleMarkup colors → (∀ color ∈ colors, color.markup_remove = true) →
    (∀ c ∈ commands, ¬Marker colors c) → (∀ p ∈ prefixes, ¬p <+: t) →
    (process (escaped colors t) colors base_color).display = encode t ∧
      (process (escaped colors t) colors base_color).events = [] := by
  intro comes_back
  obtain ⟨-, silent⟩ := comes_back two_colors 0 ['a', '~'] two_colors_single (by decide)
    (List.all_iff_forall_prop.mp (by decide)) (by decide)
  revert silent
  decide +kernel

end AoSdl.AOTextProcessor
