import Mathlib.Data.Rat.Init
import AoSdl.Lib.LetterRuns
import AoSdl.Text

/-! `SlurFilter`: words of a message against a list of words, after both were brought to one form. A
`string_view` with a position in it is the text from that position on; doubles are rationals. -/
namespace AoSdl.moderation
open Lib.LetterRuns

def isalpha (c : UInt8) : Bool := (65 ≤ c && c ≤ 90) || (97 ≤ c && c ≤ 122)

def isdigit (c : UInt8) : Bool := Lib.Decimal.isDigit c

def isalnum (c : UInt8) : Bool := isalpha c || isdigit c

section Decoding

/-- Stands for a byte that belongs to no code point. -/
def REPLACEMENT : Nat := 0xFFFD

/-- The width of a sequence and the bits of the code point in its first byte. -/
def first_byte (b0 : UInt8) : Option (Nat × UInt8) :=
  if b0 &&& 0xE0 = 0xC0 then some (2, b0 &&& 0x1F)
  else if b0 &&& 0xF0 = 0xE0 then some (3, b0 &&& 0x0F)
  else if b0 &&& 0xF8 = 0xF0 then some (4, b0 &&& 0x07)
  else none

/-- The bits of the other bytes behind those read so far. -/
def next_byte (cp : Nat) (bk : UInt8) : Option Nat :=
  if bk &&& 0xC0 = 0x80 then some (cp <<< 6 ||| (bk &&& 0x3F).toNat) else none

def overlong (width cp : Nat) : Bool :=
  (width = 2 && cp < 0x80) || (width = 3 && cp < 0x800) || (width = 4 && cp < 0x10000)

/-- The first code point and the text behind it. -/
def decode_utf8 : Bytes → Nat × Bytes
  | [] => (REPLACEMENT, [])
  | b0 :: s =>
    if b0 < 0x80 then (b0.toNat, s)
    else
      match first_byte b0 with
      | none => (REPLACEMENT, s)
      | some (width, bits) =>
        if s.length < width - 1 then (REPLACEMENT, s)
        else
          match (s.take (width - 1)).foldlM next_byte bits.toNat with
          | none => (REPLACEMENT, s)
          | some cp =>
            if 0xD800 ≤ cp ∧ cp ≤ 0xDFFF then (REPLACEMENT, s)
            else if 0x10FFFF < cp then (REPLACEMENT, s)
            else if overlong width cp then (REPLACEMENT, s)
            else (cp, s.drop (width - 1))

/-- The fuel is the length of the text. -/
def code_points_from : Nat → Bytes → List Nat
  | 0, _ => []
  | _ + 1, [] => []
  | fuel + 1, b :: s => (decode_utf8 (b :: s)).1 :: code_points_from fuel (decode_utf8 (b :: s)).2

/-- The code points that the loop of `normalize` sees. -/
def code_points (s : Bytes) : List Nat := code_points_from s.length s

end Decoding

section Folding

def is_combining_mark (cp : Nat) : Bool :=
  (0x0300 ≤ cp && cp ≤ 0x036F) || (0x20D0 ≤ cp && cp ≤ 0x20FF) || (0xFE20 ≤ cp && cp ≤ 0xFE2F) ||
    (0x1AB0 ≤ cp && cp ≤ 0x1AFF) || (0x1DC0 ≤ cp && cp ≤ 0x1DFF)

def is_zero_width (cp : Nat) : Bool :=
  cp = 0x200B || cp = 0x200C || cp = 0x200D || cp = 0x2060 || cp = 0xFEFF || cp = 0x180E || cp = 0x00AD

/-- Letters and the code points folded to them: accented Latin ones first. -/
def latin_letters : List (UInt8 × List Nat) := [
  ('a'.toUInt8, [0xC0, 0xC1, 0xC2, 0xC3, 0xC4, 0xC5, 0xE0, 0xE1, 0xE2, 0xE3, 0xE4, 0xE5]),
  ('e'.toUInt8, [0xC8, 0xC9, 0xCA, 0xCB, 0xE8, 0xE9, 0xEA, 0xEB]),
  ('i'.toUInt8, [0xCC, 0xCD, 0xCE, 0xCF, 0xEC, 0xED, 0xEE, 0xEF]),
  ('o'.toUInt8, [0xD2, 0xD3, 0xD4, 0xD5, 0xD6, 0xD8, 0xF2, 0xF3, 0xF4, 0xF5, 0xF6, 0xF8]),
  ('u'.toUInt8, [0xD9, 0xDA, 0xDB, 0xDC, 0xF9, 0xFA, 0xFB, 0xFC]),
  ('n'.toUInt8, [0xD1, 0xF1]),
  ('c'.toUInt8, [0xC7, 0xE7]),
  ('y'.toUInt8, [0xDD, 0xFD, 0xFF])]

def cyrillic_letters : List (UInt8 × List Nat) := [
  ('a'.toUInt8, [0x0430]), ('e'.toUInt8, [0x0435]), ('i'.toUInt8, [0x0456]), ('o'.toUInt8, [0x043E]),
  ('p'.toUInt8, [0x0440]), ('c'.toUInt8, [0x0441]), ('y'.toUInt8, [0x0443]), ('x'.toUInt8, [0x0445]),
  ('k'.toUInt8, [0x043A]), ('m'.toUInt8, [0x043C]), ('a'.toUInt8, [0x0410]), ('b'.toUInt8, [0x0412]),
  ('e'.toUInt8, [0x0415]), ('k'.toUInt8, [0x041A]), ('m'.toUInt8, [0x041C]), ('h'.toUInt8, [0x041D]),
  ('o'.toUInt8, [0x041E]), ('p'.toUInt8, [0x0420]), ('c'.toUInt8, [0x0421]), ('t'.toUInt8, [0x0422]),
  ('x'.toUInt8, [0x0425])]

def greek_letters : List (UInt8 × List Nat) := [
  ('a'.toUInt8, [0x03B1]), ('o'.toUInt8, [0x03BF]), ('e'.toUInt8, [0x03B5]), ('v'.toUInt8, [0x03BD]),
  ('p'.toUInt8, [0x03C1]), ('k'.toUInt8, [0x03BA]), ('i'.toUInt8, [0x03B9]), ('x'.toUInt8, [0x03C7])]

def homoglyphs : List (UInt8 × List Nat) := latin_letters ++ cyrillic_letters ++ greek_letters

def is_fullwidth (cp : Nat) : Bool := 0xFF01 ≤ cp && cp ≤ 0xFF5E

/-- The ASCII character of a code point that looks like one, or 0. -/
def fold_confusable (cp : Nat) : UInt8 :=
  if is_fullwidth cp then UInt8.ofNat (cp - 0xFEE0)
  else (homoglyphs.find? fun letter => letter.2.contains cp).elim 0 (·.1)

def fold_leet_digit (c : UInt8) : UInt8 :=
  if c = '0'.toUInt8 then 'o'.toUInt8
  else if c = '1'.toUInt8 then 'i'.toUInt8
  else if c = '3'.toUInt8 then 'e'.toUInt8
  else if c = '4'.toUInt8 then 'a'.toUInt8
  else if c = '5'.toUInt8 then 's'.toUInt8
  else if c = '7'.toUInt8 then 't'.toUInt8
  else if c = '9'.toUInt8 then 'g'.toUInt8
  else c

/-- What the first pass of `normalize` makes of a code point; nothing of an invisible one. -/
def fold_code_point (cp : Nat) : Option UInt8 :=
  if cp = REPLACEMENT then some 32
  else if is_combining_mark cp || is_zero_width cp then none
  else if cp < 0x80 then
    let c := tolower (UInt8.ofNat cp)
    some (if isdigit c then fold_leet_digit c else c)
  else
    let ch := fold_confusable cp
    some (if ch = 0 then 32 else tolower ch)

/-- Both passes of `normalize`: code points are folded, then long runs of a letter are one letter. -/
def fold_text (message : Bytes) : Bytes := (code_points message).filterMap fold_code_point

def normalize (message : Bytes) : Bytes := squeeze isalpha 3 (fold_text message)

def tokenize (normalized : Bytes) : List Bytes := words isalnum normalized

end Folding

section Matching

def suffixes : List Bytes := [bytes "ers", bytes "ing", bytes "ed", bytes "er", bytes "es", bytes "s"]

/-- The token without the first of the suffixes that leaves a stem of three characters. -/
def strip_suffix (token : Bytes) : Bytes :=
  match suffixes.find? fun suffix => suffix.length + 3 ≤ token.length && suffix.isSuffixOf token with
  | none => token
  | some suffix => token.take (token.length - suffix.length)

structure SlurLayerConfig where
  enabled : Bool := false
  match_score : Rat := 1

structure SlurMatchResult where
  score : Rat := 0
  matched : List Bytes := []
  reason : Bytes := []
  deriving DecidableEq

/-- The sets of words are lists without repetition. -/
structure SlurFilter where
  cfg_ : SlurLayerConfig := {}
  wordlist_ : List Bytes := []
  exceptions_ : List Bytes := []

def first_token (entry : Bytes) : Option Bytes := (tokenize (normalize entry)).head?

/-- The words of a list of entries that `long_enough` lets through. -/
def words_of (long_enough : Bytes → Bool) (raw : List Bytes) : List Bytes :=
  raw.foldl (fun fresh entry =>
    match first_token entry with
    | none => fresh
    | some token => if long_enough token then fresh.insert token else fresh) []

def distinct (candidates : List Bytes) : List Bytes :=
  candidates.foldl (fun seen c => if seen.contains c then seen else seen ++ [c]) []

namespace SlurFilter

def configure (f : SlurFilter) (cfg : SlurLayerConfig) : SlurFilter := { f with cfg_ := cfg }

def load_wordlist (f : SlurFilter) (raw : List Bytes) : SlurFilter :=
  { f with wordlist_ := words_of (fun token => 3 ≤ token.length) raw }

def load_exceptions (f : SlurFilter) (raw : List Bytes) : SlurFilter :=
  { f with exceptions_ := words_of (fun _ => true) raw }

def is_active (f : SlurFilter) : Bool := f.cfg_.enabled && !f.wordlist_.isEmpty

/-- The word that a token of a message stands for, if it is on the list. -/
def candidate (f : SlurFilter) (tok : Bytes) : Option Bytes :=
  if f.exceptions_.contains tok then none
  else if f.wordlist_.contains tok then some tok
  else
    let stem := strip_suffix tok
    if stem.length < tok.length && (!f.exceptions_.contains stem && f.wordlist_.contains stem) then some stem
    else none

def scan (f : SlurFilter) (message : Bytes) : SlurMatchResult :=
  if !f.is_active then {}
  else
    let candidates := (tokenize (normalize message)).filterMap f.candidate
    if candidates.isEmpty then {}
    else
      let matched := distinct candidates
      { score := f.cfg_.match_score, matched, reason := bytes "slur(" ++ to_string matched.length ++ bytes ")" }

end SlurFilter

theorem mem_words_of {long_enough : Bytes → Bool} {raw : List Bytes} {w : Bytes} :
    w ∈ words_of long_enough raw ↔ ∃ entry ∈ raw, first_token entry = some w ∧ long_enough w = true := by
  have grows (raw fresh : List Bytes) : w ∈ raw.foldl (fun fresh entry =>
      match first_token entry with
      | none => fresh
      | some token => if long_enough token then fresh.insert token else fresh) fresh ↔
      w ∈ fresh ∨ ∃ entry ∈ raw, first_token entry = some w ∧ long_enough w = true := by
    induction raw generalizing fresh with
    | nil => simp
    | cons entry raw ih =>
      rw [List.foldl_cons, ih, List.exists_mem_cons_iff, ← or_assoc]
      refine or_congr_left ?_
      cases first_token entry with
      | none => simp
      | some token =>
        by_cases long : long_enough token = true
        · simp only [long, if_true, List.mem_insert_iff, Option.some.injEq]
          constructor
          · rintro (rfl | old)
            · exact .inr ⟨rfl, long⟩
            · exact .inl old
          · rintro (old | ⟨rfl, _⟩)
            · exact .inr old
            · exact .inl rfl
        · simp only [if_neg long, Option.some.injEq]
          refine ⟨.inl, ?_⟩
          rintro (old | ⟨rfl, enough⟩)
          · exact old
          · exact absurd enough long
  rw [words_of, grows]
  simp

theorem mem_distinct {candidates : List Bytes} {c : Bytes} : c ∈ distinct candidates ↔ c ∈ candidates := by
  have grows (candidates seen : List Bytes) :
      c ∈ candidates.foldl (fun seen c => if seen.contains c then seen else seen ++ [c]) seen ↔
        c ∈ seen ∨ c ∈ candidates := by
    induction candidates generalizing seen with
    | nil => simp
    | cons d candidates ih =>
      rw [List.foldl_cons, ih, List.mem_cons]
      by_cases known : seen.contains d = true
      · rw [if_pos known]
        refine ⟨fun h => h.imp_right .inr, ?_⟩
        rintro (old | rfl | later)
        · exact .inl old
        · exact .inl (List.contains_iff_mem.mp known)
        · exact .inr later
      · rw [if_neg known, List.mem_append, List.mem_singleton, or_assoc]
  rw [distinct, grows]
  simp

theorem strip_suffix_append (token : Bytes) :
    strip_suffix token = token ∨ ∃ suffix ∈ suffixes, token = strip_suffix token ++ suffix := by
  rw [strip_suffix]
  cases found : suffixes.find? fun suffix => suffix.length + 3 ≤ token.length && suffix.isSuffixOf token with
  | none => exact .inl rfl
  | some suffix =>
    have ends := List.find?_some found
    simp only [Bool.and_eq_true, List.isSuffixOf_iff_suffix] at ends
    refine .inr ⟨suffix, List.mem_of_find?_eq_some found, ?_⟩
    rw [← List.suffix_iff_eq_append.mp ends.2]
    simp

theorem SlurFilter.candidate_word {f : SlurFilter} {w : Bytes} (listed : w ∈ f.wordlist_)
    (exempt : w ∉ f.exceptions_) : f.candidate w = some w := by
  rw [candidate, if_neg (by simpa using exempt), if_pos (by simpa using listed)]

theorem SlurFilter.candidate_cases {f : SlurFilter} {tok w : Bytes} (stands : f.candidate tok = some w) :
    w ∈ f.wordlist_ ∧ (tok = w ∨ strip_suffix tok = w ∧ w.length < tok.length) := by
  rw [candidate] at stands
  split at stands
  · cases stands
  · split at stands
    · next listed =>
      cases stands
      exact ⟨List.contains_iff_mem.mp listed, .inl rfl⟩
    · dsimp only at stands
      split at stands
      · next stem =>
        cases stands
        simp only [Bool.and_eq_true, decide_eq_true_eq] at stem
        exact ⟨List.contains_iff_mem.mp stem.2.2, .inr ⟨rfl, stem.1⟩⟩
      · cases stands

/-- A scan reports what the tokens of the message stand for. -/
theorem SlurFilter.mem_matched {f : SlurFilter} {message w : Bytes} : w ∈ (f.scan message).matched ↔
    f.is_active = true ∧ ∃ tok ∈ tokenize (normalize message), f.candidate tok = some w := by
  rw [scan]
  cases active : f.is_active with
  | false => simp
  | true =>
    rw [if_neg (by simp)]
    simp only [true_and, ← List.mem_filterMap]
    split
    · next none =>
      rw [List.isEmpty_iff.mp none]
    · exact mem_distinct

end Matching

end AoSdl.moderation
