import AoSdl.SlurEvasion

/-! The texts that normalisation leaves as they are, and the texts whose normal form it takes for
another text. -/
namespace AoSdl.moderation
open Lib.LetterRuns

/-- The full-width forms of the digits that stand for letters. -/
def fullwidth_leet_digits : List Nat := [0xFF10, 0xFF11, 0xFF13, 0xFF14, 0xFF15, 0xFF17, 0xFF19]

/-- The text has none of them. -/
def LeetFree (message : Bytes) : Prop := ∀ cp ∈ code_points message, cp ∉ fullwidth_leet_digits

/-- The normal form of a text stands for the text: it is its own normal form, and it does not matter
which of the two is on a list of words or exceptions, or is scanned. -/
structure Stands (message : Bytes) : Prop where
  normal : normalize (normalize message) = normalize message
  wordlist : ∀ (f : SlurFilter) front rest,
    f.load_wordlist (front ++ normalize message :: rest) = f.load_wordlist (front ++ message :: rest)
  exceptions : ∀ (f : SlurFilter) front rest,
    f.load_exceptions (front ++ normalize message :: rest) = f.load_exceptions (front ++ message :: rest)
  scanned : ∀ f : SlurFilter, f.scan (normalize message) = f.scan message

/-- ASCII without capitals. -/
def Low (c : UInt8) : Prop := c.toNat < 128 ∧ tolower c = c

/-- Low letters, of which none is a digit that stands for a letter, in runs that are not long. -/
structure Normal (t : Bytes) : Prop where
  low : ∀ c ∈ t, Low c
  plain : ∀ c ∈ t, is_leet_digit c = false
  tight : squeeze isalpha 3 t = t

section Letters

variable {c : UInt8} {cp : Nat}

theorem low_fixed (low : Low c) (plain : is_leet_digit c = false) : fold_ascii c = c := by
  rw [fold_ascii, low.2]
  split
  · next digit => simpa [is_leet_digit, digit] using plain
  · rfl

theorem fold_ascii_spec (ascii : c.toNat < 128) : Low (fold_ascii c) ∧ is_leet_digit (fold_ascii c) = false := by
  have each : ∀ n < 128, ((fold_ascii (UInt8.ofNat n)).toNat < 128 ∧
      tolower (fold_ascii (UInt8.ofNat n)) = fold_ascii (UInt8.ofNat n)) ∧
        is_leet_digit (fold_ascii (UInt8.ofNat n)) = false := by decide +kernel
  unfold Low
  simpa using each c.toNat ascii

/-- Lowered full-width letters are low, and those that stand for letters as digits are still digits. -/
theorem fold_fullwidth_spec (wide : is_fullwidth cp = true) : fold_code_point cp = some (tolower (UInt8.ofNat (cp - 0xFEE0))) ∧
    Low (tolower (UInt8.ofNat (cp - 0xFEE0))) ∧
      (is_leet_digit (tolower (UInt8.ofNat (cp - 0xFEE0))) = true ↔ cp ∈ fullwidth_leet_digits) := by
  have each : ∀ n < 0x7F, 0x21 ≤ n → fold_code_point (n + 0xFEE0) = some (tolower (UInt8.ofNat n)) ∧
      ((tolower (UInt8.ofNat n)).toNat < 128 ∧ tolower (tolower (UInt8.ofNat n)) = tolower (UInt8.ofNat n)) ∧
        (is_leet_digit (tolower (UInt8.ofNat n)) = true ↔ n + 0xFEE0 ∈ fullwidth_leet_digits) := by decide +kernel
  simp only [is_fullwidth, Bool.and_eq_true, decide_eq_true_eq] at wide
  have here := each (cp - 0xFEE0) (by omega) (by omega)
  rwa [Nat.sub_add_cancel (by omega)] at here

theorem leet_digits_wide (leet : cp ∈ fullwidth_leet_digits) : is_fullwidth cp = true := by
  have each : ∀ n ∈ fullwidth_leet_digits, is_fullwidth n = true := by decide
  exact each cp leet

theorem homoglyph_spec {looks : List Nat} (letter : (c, looks) ∈ homoglyphs) : Low c ∧ is_leet_digit c = false := by
  have each : ∀ p ∈ homoglyphs, (p.1.toNat < 128 ∧ tolower p.1 = p.1) ∧ is_leet_digit p.1 = false := by decide +kernel
  exact each _ letter

theorem blank_spec : Low 32 ∧ is_leet_digit 32 = false := by
  unfold Low
  decide

/-- The letters that come out are low, and the full-width forms of the digits are the only ones that
give a digit which stands for a letter. -/
theorem fold_code_point_spec (folded : fold_code_point cp = some c) :
    Low c ∧ (is_leet_digit c = true ↔ cp ∈ fullwidth_leet_digits) := by
  by_cases wide : is_fullwidth cp = true
  · obtain ⟨fold, low, leet⟩ := fold_fullwidth_spec wide
    obtain rfl := Option.some.inj (fold.symm.trans folded)
    exact ⟨low, leet⟩
  · have other : cp ∉ fullwidth_leet_digits := fun leet => wide (leet_digits_wide leet)
    suffices plain : Low c ∧ is_leet_digit c = false from ⟨plain.1, iff_of_false (by simp [plain.2]) other⟩
    by_cases ascii : cp < 128
    · have size : (UInt8.ofNat cp).toNat = cp := by
        rw [UInt8.toNat_ofNat']
        omega
      have fold := fold_code_point_ascii (x := UInt8.ofNat cp) (by omega)
      rw [size] at fold
      obtain rfl := Option.some.inj (fold.symm.trans folded)
      exact fold_ascii_spec (by omega)
    · rw [fold_code_point, fold_confusable, if_neg wide, if_neg ascii] at folded
      split at folded
      · cases folded
        exact blank_spec
      · split at folded
        · cases folded
        · dsimp only at folded
          cases found : homoglyphs.find? fun letter => letter.2.contains cp with
          | none =>
            rw [found] at folded
            cases folded
            exact blank_spec
          | some letter =>
            obtain ⟨low, plain⟩ := homoglyph_spec (c := letter.1) (List.mem_of_find?_eq_some found)
            rw [found] at folded
            rw [Option.elim_some, low.2] at folded
            by_cases zero : letter.1 = 0
            · rw [if_pos zero] at folded
              cases folded
              exact blank_spec
            · rw [if_neg zero] at folded
              cases folded
              exact ⟨low, plain⟩

end Letters

section Texts

variable {t message : Bytes} {c : UInt8}

theorem code_points_ascii (ascii : ∀ c ∈ t, c.toNat < 128) : code_points t = t.map UInt8.toNat := by
  induction t with
  | nil => rfl
  | cons c t ih =>
    have first : c < 0x80 := UInt8.lt_iff_toNat_lt.mpr (ascii c List.mem_cons_self)
    have read : decode_utf8 (c :: t) = (c.toNat, t) := by rw [decode_utf8, if_pos first]
    rw [code_points_cons, read, ih fun d member => ascii d (List.mem_cons_of_mem c member), List.map_cons]

theorem fold_text_ascii (ascii : ∀ c ∈ t, c.toNat < 128) : fold_text t = t.map fold_ascii := by
  rw [fold_text, code_points_ascii ascii, List.filterMap_map, ← List.filterMap_eq_map]
  exact List.filterMap_congr fun c member => fold_code_point_ascii (ascii c member)

theorem mem_fold_text : c ∈ fold_text message ↔ ∃ cp ∈ code_points message, fold_code_point cp = some c :=
  List.mem_filterMap

theorem mem_normalize : c ∈ normalize message ↔ c ∈ fold_text message := mem_squeeze_iff (by decide) _

theorem normalize_low : ∀ c ∈ normalize message, Low c := by
  intro c member
  obtain ⟨cp, _, folded⟩ := mem_fold_text.mp (mem_normalize.mp member)
  exact (fold_code_point_spec folded).1

/-- What comes out has a digit that stands for a letter exactly when the text has a full-width one. -/
theorem plain_iff : (∀ c ∈ normalize message, is_leet_digit c = false) ↔ LeetFree message := by
  constructor
  · intro plain cp member leet
    obtain ⟨fold, _, digit⟩ := fold_fullwidth_spec (leet_digits_wide leet)
    have inside := mem_normalize.mpr (mem_fold_text.mpr ⟨cp, member, fold⟩)
    exact Bool.false_ne_true ((plain _ inside).symm.trans (digit.mpr leet))
  · intro free c member
    obtain ⟨cp, point, folded⟩ := mem_fold_text.mp (mem_normalize.mp member)
    rw [← Bool.not_eq_true, (fold_code_point_spec folded).2]
    exact free cp point

theorem normal_fixed (normal : Normal t) : normalize t = t := by
  have same : fold_text t = t := by
    rw [fold_text_ascii fun c member => (normal.low c member).1]
    exact (List.map_congr_left fun c member => low_fixed (normal.low c member) (normal.plain c member)).trans
      (List.map_id' t)
  rw [normalize, same, normal.tight]

theorem normalize_normal (free : LeetFree message) : Normal (normalize message) :=
  ⟨normalize_low, plain_iff.mpr free, squeeze_squeeze (by decide) _⟩

/-- A text that is its own normal form has no digit that stands for a letter. -/
theorem plain_of_fixed (low : ∀ c ∈ t, Low c) (fixed : normalize t = t) : ∀ c ∈ t, is_leet_digit c = false := by
  intro c member
  have ascii : ∀ c ∈ t, c.toNat < 128 := fun c member => (low c member).1
  have inside : c ∈ fold_text t := mem_normalize.mp (fixed.symm ▸ member)
  rw [fold_text_ascii ascii] at inside
  obtain ⟨d, before, rfl⟩ := List.mem_map.mp inside
  exact (fold_ascii_spec (ascii d before)).2

theorem idempotent_iff : normalize (normalize message) = normalize message ↔ LeetFree message :=
  ⟨fun fixed => plain_iff.mp (plain_of_fixed normalize_low fixed), fun free => normal_fixed (normalize_normal free)⟩

theorem words_of_congr {long_enough : Bytes → Bool} {a b : Bytes} (same : first_token a = first_token b)
    (front rest : List Bytes) : words_of long_enough (front ++ a :: rest) = words_of long_enough (front ++ b :: rest) := by
  simp only [words_of, List.foldl_append, List.foldl_cons, same]

/-- A text that normalises to its own normal form is loaded and scanned as its normal form is. -/
theorem stands_of_idempotent (fixed : normalize (normalize message) = normalize message) : Stands message := by
  have token : first_token (normalize message) = first_token message := by rw [first_token, fixed, first_token]
  refine ⟨fixed, fun f front rest => ?_, fun f front rest => ?_, fun f => ?_⟩
  · rw [SlurFilter.load_wordlist, words_of_congr token, SlurFilter.load_wordlist]
  · rw [SlurFilter.load_exceptions, words_of_congr token, SlurFilter.load_exceptions]
  · rw [SlurFilter.scan, fixed, SlurFilter.scan]

/-- The normal form stands for the text exactly when the text has no full-width form of a digit that
stands for a letter. -/
theorem stands_iff (message : Bytes) : Stands message ↔ LeetFree message :=
  ⟨fun stands => idempotent_iff.mp stands.normal, fun free => stands_of_idempotent (idempotent_iff.mpr free)⟩

/-- A full-width three becomes the digit first and a letter the second time. -/
theorem fullwidth_three_twice : normalize (encode ['３', 'v', 'i', 'l']) = bytes "3vil" ∧
    normalize (bytes "3vil") = bytes "evil" ∧ ¬ Stands (encode ['３', 'v', 'i', 'l']) := by
  have once : normalize (encode ['３', 'v', 'i', 'l']) = bytes "3vil" := by decide +kernel
  have again : normalize (bytes "3vil") = bytes "evil" := by decide +kernel
  refine ⟨once, again, fun stands => ?_⟩
  have fixed := stands.normal
  rw [once, again] at fixed
  exact absurd fixed (by decide)

end Texts

end AoSdl.moderation
