import AoSdl.TextProcessor
import AoSdl.Lib.LineSetting
import Mathlib.Algebra.Order.Ring.Int

/-! The layout of a text: it is cut into words with their widths, and then the characters are decoded
once more and get their places, word by word. -/
namespace AoSdl

namespace UTF8

/-- A character of a text, with the byte that it begins with. -/
structure Character where
  first : UInt8
  cp : UInt32

/-- The characters that `length` counts. -/
def chars : Bytes → List Character
  | [] => []
  | c :: s => ⟨c, (decode (c :: s)).1⟩ :: chars (decode (c :: s)).2
termination_by s => s.length
decreasing_by exact Nat.lt_succ_of_le (decode_length_le c s)

/-- The character that begins with this byte and has this code point comes after so many others. -/
def At (text : Bytes) (k : ℕ) (c : UInt8) (cp : UInt32) : Prop :=
  ∃ s, skip k text = c :: s ∧ (decode (c :: s)).1 = cp ∧ length text = k + length (c :: s)

@[simp] theorem chars_nil : chars [] = [] := by rw [chars]

theorem chars_cons (c : UInt8) (s : Bytes) :
    chars (c :: s) = ⟨c, (decode (c :: s)).1⟩ :: chars (decode (c :: s)).2 := by rw [chars]

theorem skip_nil (k : ℕ) : skip k [] = [] := by
  induction k with
  | zero => rfl
  | succ k ih => exact ih

theorem getElem?_chars {text : Bytes} {k : ℕ} {a : Character} :
    (chars text)[k]? = some a ↔ At text k a.first a.cp := by
  induction k generalizing text with
  | zero =>
    cases text with
    | nil => simp [At, skip]
    | cons c s =>
      rw [chars_cons]
      obtain ⟨first, cp⟩ := a
      simp only [At, skip, List.getElem?_cons_zero, Option.some.injEq, Character.mk.injEq, Nat.zero_add]
      constructor
      · rintro ⟨rfl, rfl⟩
        exact ⟨s, rfl, rfl, rfl⟩
      · rintro ⟨s', same, here, -⟩
        obtain ⟨rfl, rfl⟩ := List.cons.inj same
        exact ⟨rfl, here⟩
  | succ k ih =>
    cases text with
    | nil => simp [At, skip_nil]
    | cons c s =>
      rw [chars_cons, List.getElem?_cons_succ, ih]
      unfold At
      rw [skip, length]
      simp only [Nat.add_right_comm k 1, Nat.add_right_cancel_iff]

theorem decode_ascii {c : UInt8} (ascii : c < 0x80) (s : Bytes) : decode (c :: s) = (c.toUInt32, s) := by
  rw [decode, lead, if_pos ascii]
  rfl

theorem skip_suffix (k : ℕ) (s : Bytes) : skip k s <:+ s := by
  induction k generalizing s with
  | zero => exact List.suffix_rfl
  | succ k ih =>
    cases s with
    | nil => exact ⟨[], skip_nil (k + 1)⟩
    | cons c s =>
      refine (ih _).trans ?_
      rw [decode_cons]
      exact (List.drop_suffix _ s).trans (List.suffix_cons c s)

end UTF8

open UTF8

namespace TextRenderer

structure GlyphLayout where
  codepoint : UInt32
  pen_x : ℤ
  pen_y : ℤ
  char_index : ℤ
deriving DecidableEq

structure WordInfo where
  byte_start : ℕ
  char_start : ℕ
  char_count : ℕ
  pixel_width : ℤ
  ends_with_break : Bool

/-- The layout so far and the pen. -/
structure Pen where
  layout : List GlyphLayout
  pen_x : ℤ
  pen_y : ℤ

abbrev space : UInt8 := 32

abbrev newline : UInt8 := 10

section Model

/-! The face that `load_char` returns is given by the advance of the glyph in pixels. -/

variable (load_char : UInt32 → Option ℕ)

/-- The inner loop over the characters of a word, with `char_idx` and the bytes behind `pos`. -/
def scan_word : Bytes → WordInfo → ℕ → WordInfo × ℕ × Bytes
  | [], w, char_idx => (w, char_idx, [])
  | c :: s, w, char_idx =>
    if c = space ∨ c = newline then (w, char_idx, c :: s)
    else
      let r := decode (c :: s)
      if r.1 = 0 then (w, char_idx, r.2)
      else
        let w := { w with
          pixel_width := w.pixel_width + ((load_char r.1).getD 0 : ℕ)
          char_count := w.char_count + 1 }
        scan_word r.2 w (char_idx + 1)
termination_by s => s.length
decreasing_by exact Nat.lt_succ_of_le (decode_length_le c s)

theorem scan_word_length_le (s : Bytes) (w : WordInfo) (char_idx : ℕ) :
    (scan_word load_char s w char_idx).2.2.length ≤ s.length := by
  fun_induction scan_word load_char s w char_idx with
  | case1 => exact Nat.le_refl _
  | case2 => exact Nat.le_refl _
  | case3 c s => exact Nat.le_succ_of_le (decode_length_le c s)
  | case4 c s _ _ _ _ _ _ ih => exact ih.trans (Nat.le_succ_of_le (decode_length_le c s))

theorem scan_word_length_lt {c : UInt8} (letter : ¬(c = space ∨ c = newline)) (s : Bytes) (w : WordInfo)
    (char_idx : ℕ) : (scan_word load_char (c :: s) w char_idx).2.2.length < (c :: s).length := by
  rw [scan_word, if_neg letter]
  apply Nat.lt_succ_of_le
  dsimp only
  split
  · exact decode_length_le c s
  · exact (scan_word_length_le load_char _ _ _).trans (decode_length_le c s)

def words (text : Bytes) : ℕ → Bytes → List WordInfo
  | _, [] => []
  | char_idx, c :: s =>
    let byte_start := text.length - (c :: s).length
    if c = space then
      ⟨byte_start, char_idx, 1, ((load_char 32).getD 0 : ℕ), false⟩ ::
        words text (char_idx + 1) (decode (c :: s)).2
    else if c = newline then ⟨byte_start, char_idx, 1, 0, true⟩ :: words text (char_idx + 1) s
    else
      let r := scan_word load_char (c :: s) ⟨byte_start, char_idx, 0, 0, false⟩ char_idx
      r.1 :: words text r.2.1 r.2.2
termination_by _ s => s.length
decreasing_by
  · exact Nat.lt_succ_of_le (decode_length_le c s)
  · exact Nat.lt_succ_self s.length
  · exact scan_word_length_lt load_char (by tauto) s _ _

variable (line_h : ℕ) (max_width : ℤ)

def Pen.next_line (p : Pen) : Pen := { p with pen_x := 0, pen_y := p.pen_y + line_h }

/-- A line is left when something of this width does not fit on it. -/
def Pen.wrap (p : Pen) (width : ℤ) : Pen :=
  if 0 < p.pen_x ∧ max_width < p.pen_x + width then p.next_line line_h else p

def place_glyph (cp : UInt32) (char_index : ℕ) (p : Pen) : Pen :=
  match load_char cp with
  | none => p
  | some advance =>
    let p := p.wrap line_h max_width advance
    { p with
      layout := p.layout ++ [⟨cp, p.pen_x, p.pen_y, char_index⟩]
      pen_x := p.pen_x + advance }

/-- The loop over the characters of a word: how many are left, and the index of the next one. -/
def place_chars : ℕ → ℕ → Bytes → Pen → Pen
  | 0, _, _, p => p
  | left + 1, char_index, pos, p =>
    let r := decode pos
    if r.1 = 0 then p
    else place_chars left (char_index + 1) r.2 (place_glyph load_char line_h max_width r.1 char_index p)

def place_word (text : Bytes) (p : Pen) (word : WordInfo) : Pen :=
  if word.ends_with_break then p.next_line line_h
  else
    let p := p.wrap line_h max_width word.pixel_width
    if p.pen_x = 0 ∧ word.char_count = 1 ∧ text[word.byte_start]? = some space then p
    else place_chars load_char line_h max_width word.char_count word.char_start (text.drop word.byte_start) p

end Model

def max_width (wrap_width : ℤ) : ℤ := if 0 < wrap_width then wrap_width else 0x7FFFFFFF

def compute_layout (load_char : UInt32 → Option ℕ) (line_h : ℕ) (text : Bytes) (wrap_width : ℤ) :
    List GlyphLayout :=
  ((words load_char text 0 text).foldl (place_word load_char line_h (max_width wrap_width) text) ⟨[], 0, 0⟩).layout

end TextRenderer

end AoSdl
