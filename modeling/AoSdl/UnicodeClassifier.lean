import AoSdl.SlurText
import Mathlib.Algebra.Order.Field.Basic
import Mathlib.Algebra.Order.Field.Rat
import Mathlib.Data.Bool.AllAny
import Mathlib.Tactic.NormNum

/-! `UnicodeClassifier`: how odd the code points of a message are. Its decoder is strict where that of the
slur filter goes on; both loops cut a text into the same pieces. -/
namespace AoSdl.moderation
namespace UnicodeClassifier

/-- The first code point and the number of its bytes; nothing where the source gives 0. -/
def decode_utf8 : Bytes → Option (Nat × Nat)
  | [] => none
  | b0 :: s =>
    if b0 < 0x80 then some (b0.toNat, 1)
    else if b0 &&& 0xE0 = 0xC0 then
      match s with
      | b1 :: _ =>
        if b1 &&& 0xC0 ≠ 0x80 then none
        else
          let cp := (b0 &&& 0x1F).toNat <<< 6 ||| (b1 &&& 0x3F).toNat
          if cp < 0x80 then none else some (cp, 2)
      | _ => none
    else if b0 &&& 0xF0 = 0xE0 then
      match s with
      | b1 :: b2 :: _ =>
        if b1 &&& 0xC0 ≠ 0x80 ∨ b2 &&& 0xC0 ≠ 0x80 then none
        else
          let cp := (b0 &&& 0x0F).toNat <<< 12 ||| (b1 &&& 0x3F).toNat <<< 6 ||| (b2 &&& 0x3F).toNat
          if cp < 0x800 then none
          else if 0xD800 ≤ cp ∧ cp ≤ 0xDFFF then none
          else some (cp, 3)
      | _ => none
    else if b0 &&& 0xF8 = 0xF0 then
      match s with
      | b1 :: b2 :: b3 :: _ =>
        if b1 &&& 0xC0 ≠ 0x80 ∨ b2 &&& 0xC0 ≠ 0x80 ∨ b3 &&& 0xC0 ≠ 0x80 then none
        else
          let cp := (b0 &&& 0x07).toNat <<< 18 ||| (b1 &&& 0x3F).toNat <<< 12 ||| (b2 &&& 0x3F).toNat <<< 6 |||
            (b3 &&& 0x3F).toNat
          if cp < 0x10000 then none
          else if 0x10FFFF < cp then none
          else some (cp, 4)
      | _ => none
    else none

/-- A piece of a text: a code point with the number of its bytes, or a byte that belongs to none. -/
structure Piece where
  code_point : Option Nat
  size : Nat

/-- The fuel is the length of the text. -/
def pieces_from : Nat → Bytes → List Piece
  | 0, _ => []
  | _ + 1, [] => []
  | fuel + 1, b :: s =>
    match decode_utf8 (b :: s) with
    | none => ⟨none, 1⟩ :: pieces_from fuel s
    | some (cp, consumed) => ⟨some cp, consumed⟩ :: pieces_from fuel ((b :: s).drop consumed)

/-- The pieces that the loop of `classify` cuts a message into. -/
def pieces (s : Bytes) : List Piece := pieces_from s.length s

section Classify

inductive Script where
  | OTHER | ASCII | LATIN | CYRILLIC | GREEK | HEBREW | ARABIC | DEVANAGARI | CJK | COMMON | EXOTIC
  deriving DecidableEq

def in_range (cp : Nat) (range : Nat × Nat) : Bool := range.1 ≤ cp && cp ≤ range.2

/-- The blocks of the scripts. -/
def blocks : List (Script × List (Nat × Nat)) := [
  (.LATIN, [(0x0080, 0x024F), (0x1E00, 0x1EFF), (0xFF00, 0xFF5E)]),
  (.GREEK, [(0x0370, 0x03FF)]),
  (.CYRILLIC, [(0x0400, 0x04FF), (0x0500, 0x052F)]),
  (.HEBREW, [(0x0590, 0x05FF)]),
  (.ARABIC, [(0x0600, 0x06FF), (0x0750, 0x077F), (0x08A0, 0x08FF), (0xFB50, 0xFDFF), (0xFE70, 0xFEFF)]),
  (.DEVANAGARI, [(0x0900, 0x0DFF)]),
  (.COMMON, [(0x2000, 0x206F), (0x2070, 0x209F), (0x20A0, 0x20CF), (0x2100, 0x214F), (0x2190, 0x21FF),
    (0x2200, 0x22FF), (0x2300, 0x23FF), (0x2500, 0x259F), (0x25A0, 0x25FF), (0x2600, 0x26FF),
    (0x2700, 0x27BF), (0x1F300, 0x1FAFF)]),
  (.CJK, [(0x3040, 0x309F), (0x30A0, 0x30FF), (0x3400, 0x4DBF), (0x4E00, 0x9FFF), (0xAC00, 0xD7AF),
    (0xF900, 0xFAFF)]),
  (.EXOTIC, [(0x10000, 0x1007F), (0x10380, 0x1039F), (0x10400, 0x1044F), (0x12000, 0x123FF),
    (0x12400, 0x1247F), (0x13000, 0x1342F), (0xE0000, 0xE007F), (0x20000, 0x2FFFF), (0x30000, 0x3FFFF)])]

def classify_script (cp : Nat) : Script :=
  if cp < 0x80 then
    if cp < 0x20 && cp ≠ 9 && cp ≠ 10 && cp ≠ 13 then .EXOTIC else .ASCII
  else (blocks.find? fun block => block.2.any (in_range cp)).elim .OTHER (·.1)

def is_combining_mark (cp : Nat) : Bool :=
  [(0x0300, 0x036F), (0x0483, 0x0489), (0x0591, 0x05BD), (0x0610, 0x061A), (0x064B, 0x065F), (0x0670, 0x0670),
    (0x06D6, 0x06DC), (0x06DF, 0x06E4), (0x06E7, 0x06E8), (0x06EA, 0x06ED), (0x0900, 0x0903), (0x093A, 0x094F),
    (0x0951, 0x0957), (0x0962, 0x0963), (0x1AB0, 0x1AFF), (0x1DC0, 0x1DFF), (0x20D0, 0x20FF),
    (0xFE20, 0xFE2F)].any (in_range cp)

def is_format_char (cp : Nat) : Bool :=
  [(0x00AD, 0x00AD), (0x0600, 0x0605), (0x061C, 0x061C), (0x06DD, 0x06DD), (0x070F, 0x070F), (0x180E, 0x180E),
    (0x200B, 0x200F), (0x202A, 0x202E), (0x2060, 0x2064), (0x2066, 0x2069), (0xFEFF, 0xFEFF)].any (in_range cp)

def is_private_use (cp : Nat) : Bool :=
  [(0xE000, 0xF8FF), (0xF0000, 0xFFFFD), (0x100000, 0x10FFFD)].any (in_range cp)

structure UnicodeLayerConfig where
  enabled : Bool := false
  combining_mark_threshold : Rat := 3 / 10
  exotic_script_threshold : Rat := 3 / 10
  format_char_threshold : Rat := 1 / 10
  max_score : Rat := 1

structure UnicodeClassification where
  score : Rat := 0
  total_codepoints : Nat := 0
  combining_marks : Nat := 0
  format_chars : Nat := 0
  private_use : Nat := 0
  exotic_script : Nat := 0
  script_count : Nat := 0
  reason : Bytes := []

/-- What the loop of `classify` keeps. -/
structure Seen where
  out : UnicodeClassification := {}
  scripts_seen : List Script := []
  invalid_bytes : Nat := 0

def Seen.add (s : Seen) (piece : Piece) : Seen :=
  match piece.code_point with
  | none => { s with invalid_bytes := s.invalid_bytes + 1 }
  | some cp =>
    let script := classify_script cp
    { s with
      out := { s.out with
        total_codepoints := s.out.total_codepoints + 1
        combining_marks := s.out.combining_marks + (is_combining_mark cp).toNat
        format_chars := s.out.format_chars + (is_format_char cp).toNat
        private_use := s.out.private_use + (is_private_use cp).toNat
        exotic_script := s.out.exotic_script + (decide (script = .EXOTIC)).toNat }
      scripts_seen := if script ≠ .COMMON ∧ script ≠ .OTHER then s.scripts_seen.insert script else s.scripts_seen }

/-- The part of a ratio above its threshold, with a reason. -/
def excess (ratio threshold : Rat) (why : String) : Rat × Bytes :=
  if threshold < ratio then ((ratio - threshold) / max (1 / 100) (1 - threshold), bytes why) else (0, [])

def classify (cfg_ : UnicodeLayerConfig) (message : Bytes) : UnicodeClassification :=
  if !cfg_.enabled || message.isEmpty then {}
  else
    let seen := (pieces message).foldl Seen.add {}
    let out := { seen.out with script_count := seen.scripts_seen.length }
    if out.total_codepoints = 0 then
      if 0 < seen.invalid_bytes then { out with score := cfg_.max_score, reason := bytes "invalid utf-8" } else out
    else
      let total : Rat := out.total_codepoints
      let parts := [
        excess (out.combining_marks / total) cfg_.combining_mark_threshold "zalgo ",
        excess (out.exotic_script / total) cfg_.exotic_script_threshold "exotic_script ",
        excess ((out.format_chars + out.private_use : Nat) / total) cfg_.format_char_threshold "format_chars ",
        if 3 ≤ out.script_count ∧ out.total_codepoints < 64 then (3 / 10, bytes "script_mix ") else (0, []),
        if 0 < seen.invalid_bytes then
          (seen.invalid_bytes / (seen.invalid_bytes + out.total_codepoints : Nat), bytes "invalid_utf8 ")
        else (0, [])]
      let reason := parts.flatMap (·.2)
      { out with
        score := max 0 (min (parts.map (·.1)).sum cfg_.max_score)
        reason := if reason.getLast? = some 32 then reason.dropLast else reason }

end Classify

section Scores

/-- A part of the score counts for nothing and gives no reason, or it counts and gives one. -/
def Scored (part : Rat × Bytes) : Prop := part = (0, []) ∨ 0 < part.1 ∧ 1 < part.2.length

theorem excess_scored (ratio threshold : Rat) {why : String} (named : 1 < (bytes why).length) :
    Scored (excess ratio threshold why) := by
  unfold excess
  split
  · next above =>
    have width : 0 < max (1 / 100) (1 - threshold) := lt_max_of_lt_left (by norm_num)
    exact .inr ⟨div_pos (sub_pos.mpr above) width, named⟩
  · exact .inl rfl

theorem sum_scored {parts : List (Rat × Bytes)} (scored : ∀ part ∈ parts, Scored part) :
    Scored ((parts.map (·.1)).sum, parts.flatMap (·.2)) := by
  induction parts with
  | nil => exact .inl rfl
  | cons part parts ih =>
    have later := ih fun p member => scored p (List.mem_cons_of_mem part member)
    simp only [List.map_cons, List.sum_cons, List.flatMap_cons]
    rcases scored part List.mem_cons_self with rfl | ⟨counts, named⟩
    · simpa only [zero_add, List.nil_append] using later
    · refine .inr ⟨?_, by rw [List.length_append]; omega⟩
      rcases later with none | ⟨more, _⟩
      · rw [(Prod.mk.inj none).1, add_zero]
        exact counts
      · exact add_pos counts more

/-- Neither the maximum nor the blank that is taken off the end leaves a score without a reason. -/
theorem capped {sum max_score : Rat} {reason : Bytes} (scored : Scored (sum, reason)) (positive : 0 < max_score) :
    (0 ≤ max 0 (min sum max_score) ∧ max 0 (min sum max_score) ≤ max_score) ∧
      (0 < max 0 (min sum max_score) ↔
        (if reason.getLast? = some 32 then reason.dropLast else reason) ≠ []) := by
  refine ⟨⟨le_max_left 0 _, max_le positive.le (min_le_right sum _)⟩, ?_⟩
  rcases scored with none | ⟨counts, named⟩
  · obtain ⟨rfl, rfl⟩ := Prod.mk.inj none
    rw [min_eq_left positive.le, max_self]
    exact iff_of_false (lt_irrefl 0) (not_not_intro rfl)
  · refine iff_of_true (lt_max_of_lt_right (lt_min counts positive)) ?_
    have long : 1 < reason.length := named
    rw [← List.length_pos_iff]
    split
    · rw [List.length_dropLast]
      omega
    · omega

theorem invalid_named : bytes "invalid utf-8" ≠ [] := by decide

/-- The loop leaves the score and the reason to what comes behind it. -/
theorem seen_blank (l : List Piece) {s : Seen} (blank : s.out.score = 0 ∧ s.out.reason = []) :
    (l.foldl Seen.add s).out.score = 0 ∧ (l.foldl Seen.add s).out.reason = [] := by
  induction l generalizing s with
  | nil => exact blank
  | cons piece l ih =>
    apply ih
    unfold Seen.add
    split
    · exact blank
    · exact blank

/-- A message scores above zero exactly if a reason is given, and never above the maximum. -/
theorem score_has_reason (cfg_ : UnicodeLayerConfig) (positive : 0 < cfg_.max_score) (message : Bytes) :
    (0 ≤ (classify cfg_ message).score ∧ (classify cfg_ message).score ≤ cfg_.max_score) ∧
      (0 < (classify cfg_ message).score ↔ (classify cfg_ message).reason ≠ []) := by
  have nothing {out : UnicodeClassification} (blank : out.score = 0 ∧ out.reason = []) :
      (0 ≤ out.score ∧ out.score ≤ cfg_.max_score) ∧ (0 < out.score ↔ out.reason ≠ []) := by
    rw [blank.1, blank.2]
    exact ⟨⟨le_refl _, positive.le⟩, iff_of_false (lt_irrefl _) (not_not_intro rfl)⟩
  have blank := seen_blank (pieces message) (s := {}) ⟨rfl, rfl⟩
  unfold classify
  split
  · exact nothing ⟨rfl, rfl⟩
  dsimp only
  split
  · split
    · exact ⟨⟨positive.le, le_refl _⟩, iff_of_true positive invalid_named⟩
    · exact nothing blank
  · next counted =>
    refine capped (sum_scored ?_) positive
    simp only [List.forall_mem_cons]
    refine ⟨excess_scored _ _ (by decide), excess_scored _ _ (by decide), excess_scored _ _ (by decide), ?_, ?_,
      nofun⟩
    · split
      · exact .inr ⟨by norm_num, by decide⟩
      · exact .inl rfl
    · split
      · next broken =>
        have named : 1 < (bytes "invalid_utf8 ").length := by decide
        refine .inr ⟨div_pos (Nat.cast_pos.mpr broken) (Nat.cast_pos.mpr ?_), named⟩
        exact Nat.add_pos_left broken _
      · exact .inl rfl

/-- The bytes of plain English: ASCII without the control characters that no text needs. -/
def Legible (b : UInt8) : Prop := b.toNat < 0x80 ∧ (0x20 ≤ b.toNat ∨ b.toNat = 9 ∨ b.toNat = 10 ∨ b.toNat = 13)

instance (b : UInt8) : Decidable (Legible b) := inferInstanceAs (Decidable (_ ∧ _))

theorem pieces_from_legible {s : Bytes} (legible : ∀ b ∈ s, Legible b) {fuel : Nat} (enough : s.length ≤ fuel) :
    pieces_from fuel s = s.map fun b => ⟨some b.toNat, 1⟩ := by
  induction fuel generalizing s with
  | zero =>
    obtain rfl := List.length_eq_zero_iff.mp (Nat.le_zero.mp enough)
    rfl
  | succ fuel ih =>
    cases s with
    | nil => rfl
    | cons b s =>
      have ascii : b < 0x80 := UInt8.lt_iff_toNat_lt.mpr (legible b List.mem_cons_self).1
      have read : decode_utf8 (b :: s) = some (b.toNat, 1) := by
        unfold decode_utf8
        exact if_pos ascii
      rw [pieces_from, read]
      simp only [List.drop_succ_cons, List.drop_zero, List.map_cons]
      rw [ih (fun c member => legible c (List.mem_cons_of_mem b member)) (Nat.le_of_succ_le_succ enough)]

theorem ascii_uncounted {b : UInt8} (legible : Legible b) :
    (is_combining_mark b.toNat = false ∧ is_format_char b.toNat = false ∧ is_private_use b.toNat = false) ∧
      classify_script b.toNat = .ASCII := by
  have each : ∀ n < 0x80, is_combining_mark n = false ∧ is_format_char n = false ∧ is_private_use n = false := by
    decide +kernel
  refine ⟨each _ legible.1, ?_⟩
  have printed := legible.2
  rw [classify_script, if_pos legible.1, if_neg]
  simp only [Bool.and_eq_true, decide_eq_true_eq, ne_eq]
  omega

/-- What the loop has seen of plain English. -/
structure Quiet (s : Seen) : Prop where
  marks : s.out.combining_marks = 0
  formats : s.out.format_chars = 0
  uses : s.out.private_use = 0
  exotic : s.out.exotic_script = 0
  invalid : s.invalid_bytes = 0
  scripts : s.scripts_seen = [] ∨ s.scripts_seen = [.ASCII]

theorem Quiet.add {s : Seen} (quiet : Quiet s) {b : UInt8} (legible : Legible b) :
    Quiet (s.add ⟨some b.toNat, 1⟩) := by
  obtain ⟨⟨no_mark, no_format, no_use⟩, ascii⟩ := ascii_uncounted legible
  simp only [Seen.add, no_mark, no_format, no_use, ascii]
  refine ⟨quiet.marks, quiet.formats, quiet.uses, quiet.exotic, quiet.invalid, .inr ?_⟩
  rcases quiet.scripts with none | one
  · rw [none]
    rfl
  · rw [one]
    rfl

theorem Quiet.foldl {s : Seen} (quiet : Quiet s) {message : Bytes} (legible : ∀ b ∈ message, Legible b) :
    Quiet ((message.map fun b => (⟨some b.toNat, 1⟩ : Piece)).foldl Seen.add s) := by
  induction message generalizing s with
  | nil => exact quiet
  | cons b message ih =>
    exact ih (quiet.add (legible b List.mem_cons_self)) fun c member => legible c (List.mem_cons_of_mem b member)

theorem excess_zero {ratio threshold : Rat} (none : ratio = 0) (nonneg : 0 ≤ threshold) (why : String) :
    excess ratio threshold why = (0, []) := if_neg (none ▸ not_lt.mpr nonneg)

theorem direction_mark_scored :
    (0 ≤ (classify { enabled := true } [0xE2, 0x80, 0xAE, 0x61]).score ∧
      (classify { enabled := true } [0xE2, 0x80, 0xAE, 0x61]).score ≤ 1) ∧
      (0 < (classify { enabled := true } [0xE2, 0x80, 0xAE, 0x61]).score ↔
        (classify { enabled := true } [0xE2, 0x80, 0xAE, 0x61]).reason ≠ []) :=
  score_has_reason { enabled := true } (by norm_num) [0xE2, 0x80, 0xAE, 0x61]

end Scores

end UnicodeClassifier

end AoSdl.moderation
