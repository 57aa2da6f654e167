import AoSdl.SlurText

/-! Words in disguise: which writings of a word on the list the slur filter sees through. -/
namespace AoSdl.moderation
open Lib.LetterRuns

/-- A digit that stands for a letter. -/
def is_leet_digit (x : UInt8) : Bool := isdigit x && fold_leet_digit x != x

/-- How a character of a word is typed: a letter in either case or as a digit that stands for it, and
any other digit. -/
inductive Typed (c : UInt8) : UInt8 → Prop
  | cased {x : UInt8} (letter : isalpha x = true) (lowered : tolower x = c) : Typed c x
  | leet {x : UInt8} (digit : isdigit x = true) (letter : isalpha c = true) (folded : fold_leet_digit x = c) :
      Typed c x
  | digit (digit : isdigit c = true) (plain : fold_leet_digit c = c) : Typed c c

/-- How a character of a word is written. A digit that stands for a letter is one of a word only if the
list has it in fullwidth. -/
inductive Form (c : UInt8) : Char → Prop
  | typed {x : UInt8} {d : Char} (typed : Typed c x) (same : d.toNat = x.toNat) : Form c d
  | fullwidth {x : UInt8} {d : Char} (typed : Typed c x) (wide : d.toNat = x.toNat + 0xFEE0) : Form c d
  | fullwidth_digit {d : Char} (digit : isdigit c = true) (wide : d.toNat = c.toNat + 0xFEE0) : Form c d
  | homoglyph {d : Char} {looks : List Nat} (letter : (c, looks) ∈ homoglyphs) (look : d.toNat ∈ looks) :
      Form c d

def is_fullwidth_digit (d : Char) : Bool := 0xFF10 ≤ d.toNat && d.toNat ≤ 0xFF19

/-- The forms of letters other than fullwidth digits, and those of digits. -/
def PlainForm (c : UInt8) (d : Char) : Prop := Form c d ∧ (isalpha c = true → is_fullwidth_digit d = false)

def is_invisible (d : Char) : Bool := is_combining_mark d.toNat || is_zero_width d.toNat

/-- A text with the characters of a word in some of their forms, and invisible ones anywhere. -/
inductive Written (form : UInt8 → Char → Prop) : Bytes → List Char → Prop
  | nil : Written form [] []
  | invisible {v : Bytes} {d : Char} {s : List Char} (unseen : is_invisible d = true)
      (rest : Written form v s) : Written form v (d :: s)
  | char {c : UInt8} {v : Bytes} {d : Char} {s : List Char} (written : form c d)
      (rest : Written form v s) : Written form (c :: v) (d :: s)

/-- A writing of a word: runs of letters may be stretched to three letters or more. -/
def Spelling (w : Bytes) (s : List Char) : Prop :=
  ∃ v, Stretched isalpha 3 (fun _ => True) w v ∧ Written Form v s

/-- A writing in which no doubled letter is stretched and no letter is a fullwidth digit. -/
def PlainSpelling (w : Bytes) (s : List Char) : Prop :=
  ∃ v, Stretched isalpha 3 (· = 1) w v ∧ Written PlainForm v s

/-- The text stands in the message, and the visible characters next to it are no letters or digits. -/
def Delimited (s : List Char) (message : Bytes) : Prop :=
  ∃ left right, message = left ++ (encode s ++ right) ∧
    (∀ c ∈ (fold_text left).getLast?, isalnum c = false) ∧ ∀ c ∈ (fold_text right).head?, isalnum c = false

/-- Every message with the text is reported, whatever else is on the lists. -/
def Caught (entry w : Bytes) (s : List Char) : Prop :=
  ∀ (f : SlurFilter) (raw : List Bytes) (message : Bytes), f.cfg_.enabled = true → entry ∈ raw →
    w ∉ f.exceptions_ → Delimited s message → ((f.load_wordlist raw).scan message).matched ≠ []

section Forms

variable {c : UInt8} {d : Char} {n : Nat}

/-- Characters of ASCII are lowered, then digits stand for letters. -/
def fold_ascii (x : UInt8) : UInt8 := if isdigit (tolower x) then fold_leet_digit (tolower x) else tolower x

theorem fold_code_point_ascii {x : UInt8} (ascii : x.toNat < 128) :
    fold_code_point x.toNat = some (fold_ascii x) := by
  have each : ∀ n < 128, fold_code_point n = some (fold_ascii (UInt8.ofNat n)) := by decide +kernel
  simpa using each x.toNat ascii

theorem fold_code_point_fullwidth {x : UInt8} (low : 0x21 ≤ x.toNat) (high : x.toNat ≤ 0x7E) :
    fold_code_point (x.toNat + 0xFEE0) = some (tolower x) := by
  have each : ∀ n < 0x7F, 0x21 ≤ n → fold_code_point (n + 0xFEE0) = some (tolower (UInt8.ofNat n)) := by
    decide +kernel
  simpa using each x.toNat (by omega) low

theorem fold_code_point_homoglyph {looks : List Nat} (letter : (c, looks) ∈ homoglyphs) (look : n ∈ looks) :
    fold_code_point n = some c ∧ 128 ≤ n ∧ is_fullwidth n = false := by
  have each : ∀ p ∈ homoglyphs, ∀ n ∈ p.2,
      fold_code_point n = some p.1 ∧ 128 ≤ n ∧ is_fullwidth n = false := by decide +kernel
  exact each _ letter n look

theorem fold_code_point_none : fold_code_point n = none ↔ (is_combining_mark n || is_zero_width n) = true := by
  have replaced : (is_combining_mark REPLACEMENT || is_zero_width REPLACEMENT) = false := by decide
  rw [fold_code_point]
  by_cases invalid : n = REPLACEMENT
  · rw [if_pos invalid, invalid, replaced]
    simp
  · rw [if_neg invalid]
    split
    · next unseen => simp [unseen]
    · next seen =>
      rw [Bool.not_eq_true] at seen
      rw [seen]
      split <;> simp

theorem ascii_cases (x : UInt8) (ascii : x.toNat < 128) :
    (isalpha x = true ∧ isdigit (tolower x) = false ∧ isalpha (tolower x) = true) ∨
      (isdigit x = true ∧ tolower x = x ∧ (isalpha (fold_leet_digit x) = true ∨ fold_leet_digit x = x)) ∨
      (isalnum x = false ∧ tolower x = x) := by
  have each : ∀ n < 128, (isalpha (UInt8.ofNat n) = true ∧ isdigit (tolower (UInt8.ofNat n)) = false ∧
        isalpha (tolower (UInt8.ofNat n)) = true) ∨
      (isdigit (UInt8.ofNat n) = true ∧ tolower (UInt8.ofNat n) = UInt8.ofNat n ∧
        (isalpha (fold_leet_digit (UInt8.ofNat n)) = true ∨ fold_leet_digit (UInt8.ofNat n) = UInt8.ofNat n)) ∨
      (isalnum (UInt8.ofNat n) = false ∧ tolower (UInt8.ofNat n) = UInt8.ofNat n) := by decide +kernel
  simpa using each x.toNat ascii

theorem alpha_range {x : UInt8} (letter : isalpha x = true) :
    65 ≤ x.toNat ∧ x.toNat ≤ 122 ∧ isdigit x = false := by
  simp only [isalpha, Bool.or_eq_true, Bool.and_eq_true, decide_eq_true_eq, UInt8.le_iff_toNat_le] at letter
  refine ⟨by simp at letter; omega, by simp at letter; omega, ?_⟩
  rw [← Bool.not_eq_true, isdigit, Lib.Decimal.isDigit_iff]
  simp at letter
  omega

theorem digit_range {x : UInt8} (digit : isdigit x = true) :
    48 ≤ x.toNat ∧ x.toNat ≤ 57 ∧ isalpha x = false := by
  obtain ⟨low, high⟩ := (Lib.Decimal.isDigit_iff x).mp digit
  refine ⟨low, high, ?_⟩
  rw [← Bool.not_eq_true]
  intro letter
  have range := alpha_range letter
  omega

theorem tolower_digit {x : UInt8} (digit : isdigit x = true) : tolower x = x := by
  obtain ⟨low, high, other⟩ := digit_range digit
  rcases ascii_cases x (by omega) with ⟨letter, _⟩ | ⟨_, same, _⟩ | ⟨_, same⟩
  · exact absurd (other.symm.trans letter) (by decide)
  · exact same
  · exact same

/-- A typed character is folded back, and lowered as it should be unless it is a digit that stands for
a letter. -/
theorem typed_fold {x : UInt8} (typed : Typed c x) : 0x21 ≤ x.toNat ∧ x.toNat ≤ 0x7E ∧ fold_ascii x = c ∧
    (tolower x = c ∧ (isalpha c = true → isdigit x = false) ∨
      isalpha c = true ∧ isdigit x = true ∧ tolower x = x ∧ is_leet_digit x = true) := by
  cases typed with
  | cased letter lowered =>
    obtain ⟨low, high, other⟩ := alpha_range letter
    have plain : isdigit (tolower x) = false := by
      rcases ascii_cases x (by omega) with ⟨_, plain, _⟩ | ⟨digit, _⟩ | ⟨none, _⟩
      · exact plain
      · exact absurd (other.symm.trans digit) (by decide)
      · simp [isalnum, letter] at none
    rw [fold_ascii, plain]
    exact ⟨by omega, by omega, lowered, .inl ⟨lowered, fun _ => other⟩⟩
  | leet digit letter folded =>
    obtain ⟨low, high, other⟩ := digit_range digit
    have lowered := tolower_digit digit
    have stands : is_leet_digit x = true := by
      have differ : fold_leet_digit x ≠ x := by
        intro same
        exact absurd (other.symm.trans (same ▸ folded ▸ letter)) (by decide)
      simp [is_leet_digit, digit, differ]
    rw [fold_ascii, lowered, digit, if_pos rfl]
    exact ⟨by omega, by omega, folded, .inr ⟨letter, rfl, rfl, stands⟩⟩
  | digit digit plain =>
    obtain ⟨low, high, other⟩ := digit_range digit
    have lowered := tolower_digit digit
    rw [fold_ascii, lowered, digit, if_pos rfl]
    refine ⟨by omega, by omega, plain, .inl ⟨rfl, fun letter => ?_⟩⟩
    exact absurd (other.symm.trans letter) (by decide)

/-- A form is folded back, but for a fullwidth digit that stands for a letter: that stays a digit. -/
theorem form_fold (form : Form c d) :
    fold_code_point d.toNat = some c ∧ (isalpha c = true → is_fullwidth_digit d = false) ∨
      isalpha c = true ∧ is_fullwidth_digit d = true ∧
        ∃ x, is_leet_digit x = true ∧ fold_code_point d.toNat = some x := by
  cases form with
  | @typed x _ typed same =>
    obtain ⟨low, high, folded, _⟩ := typed_fold typed
    refine .inl ⟨by rw [same, fold_code_point_ascii (by omega), folded], fun _ => ?_⟩
    simp [is_fullwidth_digit]
    omega
  | @fullwidth x _ typed wide =>
    obtain ⟨low, high, _, ⟨lowered, plain⟩ | ⟨letter, digit, same, stands⟩⟩ := typed_fold typed
    · refine .inl ⟨by rw [wide, fold_code_point_fullwidth low high, lowered], fun letter => ?_⟩
      have other := plain letter
      rw [← Bool.not_eq_true, isdigit, Lib.Decimal.isDigit_iff] at other
      simp [is_fullwidth_digit]
      omega
    · refine .inr ⟨letter, ?_, x, stands, by rw [wide, fold_code_point_fullwidth low high, same]⟩
      have range := digit_range digit
      simp [is_fullwidth_digit]
      omega
  | fullwidth_digit digit wide =>
    obtain ⟨low, high, other⟩ := digit_range digit
    have lowered := tolower_digit digit
    refine .inl ⟨by rw [wide, fold_code_point_fullwidth (by omega) (by omega), lowered], fun letter => ?_⟩
    exact absurd (other.symm.trans letter) (by decide)
  | homoglyph letter look =>
    obtain ⟨folded, high, narrow⟩ := fold_code_point_homoglyph letter look
    refine .inl ⟨folded, fun _ => ?_⟩
    rw [← Bool.not_eq_true] at narrow ⊢
    simp only [is_fullwidth, is_fullwidth_digit, Bool.and_eq_true, decide_eq_true_eq] at narrow ⊢
    omega

theorem plain_fold (plain : PlainForm c d) : fold_code_point d.toNat = some c := by
  obtain ⟨form, narrow⟩ := plain
  rcases form_fold form with ⟨folded, _⟩ | ⟨letter, wide, _⟩
  · exact folded
  · exact absurd ((narrow letter).symm.trans wide) (by decide)

theorem plain_of_ascii {x : UInt8} (ascii : x.toNat < 128) (same : d.toNat = x.toNat)
    (folded : fold_ascii x = c) (word : isalnum c = true) : PlainForm c d := by
  have narrow : is_fullwidth_digit d = false := by
    simp [is_fullwidth_digit]
    omega
  refine ⟨.typed (x := x) ?_ same, fun _ => narrow⟩
  rw [fold_ascii] at folded
  rcases ascii_cases x ascii with ⟨letter, plain, _⟩ | ⟨digit, lowered, stands⟩ | ⟨none, lowered⟩
  · rw [plain] at folded
    exact .cased letter folded
  · rw [lowered, digit, if_pos rfl] at folded
    rcases stands with letter | plain
    · exact .leet digit (folded ▸ letter) folded
    · obtain rfl : x = c := plain.symm.trans folded
      exact .digit digit plain
  · have other : isdigit x = false := by
      simp only [isalnum, Bool.or_eq_false_iff] at none
      exact none.2
    rw [lowered, other, if_neg (by decide)] at folded
    exact absurd (none.symm.trans (folded ▸ word)) (by decide)

theorem plain_of_fullwidth {x : UInt8} (ascii : x.toNat < 128) (wide : d.toNat = x.toNat + 0xFEE0)
    (folded : tolower x = c) (word : isalnum c = true) : PlainForm c d := by
  rcases ascii_cases x ascii with ⟨letter, _, _⟩ | ⟨digit, lowered, _⟩ | ⟨none, lowered⟩
  · refine ⟨.fullwidth (.cased letter folded) wide, fun _ => ?_⟩
    have range := alpha_range letter
    simp [is_fullwidth_digit]
    omega
  · obtain rfl : x = c := lowered.symm.trans folded
    refine ⟨.fullwidth_digit digit wide, fun letter => ?_⟩
    exact absurd ((digit_range digit).2.2.symm.trans letter) (by decide)
  · obtain rfl : x = c := lowered.symm.trans folded
    exact absurd (none.symm.trans word) (by decide)

/-- Beyond ASCII a letter or digit comes from the tables. -/
theorem fold_beyond_ascii (high : ¬ n < 128) (folded : fold_code_point n = some c) (word : isalnum c = true) :
    fold_confusable n ≠ 0 ∧ tolower (fold_confusable n) = c := by
  have blank : isalnum 32 = false := by decide
  rw [fold_code_point] at folded
  split at folded
  · cases folded
    exact absurd (blank.symm.trans word) (by decide)
  · split at folded
    · cases folded
    · simp only [Option.some.injEq] at folded
      split at folded
      · rw [← folded] at word
        exact absurd (blank.symm.trans word) (by decide)
      · next mapped => exact ⟨mapped, folded⟩

/-- Every code point folded to a letter or digit is one of its forms. -/
theorem plain_of_fold (folded : fold_code_point d.toNat = some c) (word : isalnum c = true) : PlainForm c d := by
  by_cases ascii : d.toNat < 128
  · have size : (UInt8.ofNat d.toNat).toNat = d.toNat := by
      rw [UInt8.toNat_ofNat']
      omega
    generalize UInt8.ofNat d.toNat = x at size
    rw [← size, fold_code_point_ascii (by omega), Option.some.injEq] at folded
    exact plain_of_ascii (by omega) size.symm folded word
  · obtain ⟨mapped, lowered⟩ := fold_beyond_ascii ascii folded word
    rw [fold_confusable] at mapped lowered
    by_cases wide : is_fullwidth d.toNat = true
    · rw [if_pos wide] at lowered
      simp only [is_fullwidth, Bool.and_eq_true, decide_eq_true_eq] at wide
      have size : (UInt8.ofNat (d.toNat - 0xFEE0)).toNat + 0xFEE0 = d.toNat := by
        rw [UInt8.toNat_ofNat']
        omega
      exact plain_of_fullwidth (by omega) size.symm lowered word
    · rw [if_neg wide] at mapped
      cases found : homoglyphs.find? fun letter => letter.2.contains d.toNat with
      | none =>
        rw [found] at mapped
        exact absurd rfl mapped
      | some letter =>
        have member := List.mem_of_find?_eq_some found
        have look : d.toNat ∈ letter.2 := by simpa using List.find?_some found
        obtain ⟨own, _, _⟩ := fold_code_point_homoglyph (c := letter.1) member look
        obtain rfl : letter.1 = c := Option.some.inj (own.symm.trans folded)
        refine ⟨.homoglyph member look, fun _ => ?_⟩
        rw [← Bool.not_eq_true]
        simp only [is_fullwidth, is_fullwidth_digit, Bool.and_eq_true, decide_eq_true_eq] at wide ⊢
        omega

end Forms

section Writings

variable {entry v w message : Bytes} {s : List Char}

/-- What the first pass makes of a text. -/
def fold_chars (s : List Char) : Bytes := s.filterMap fun d => fold_code_point d.toNat

theorem fold_chars_cons (d : Char) (s : List Char) :
    fold_chars (d :: s) = (fold_code_point d.toNat).toList ++ fold_chars s := by
  rw [fold_chars, List.filterMap_cons]
  cases fold_code_point d.toNat <;> rfl

theorem written_plain_iff (word : ∀ c ∈ v, isalnum c = true) : Written PlainForm v s ↔ fold_chars s = v := by
  constructor
  · intro written
    induction written with
    | nil => rfl
    | invisible unseen _ ih => rw [fold_chars_cons, fold_code_point_none.mpr unseen, ih word]; rfl
    | char plain _ ih =>
      rw [fold_chars_cons, plain_fold plain, ih fun c member => word c (List.mem_cons_of_mem _ member)]
      rfl
  · rintro rfl
    induction s with
    | nil => exact .nil
    | cons d s ih =>
      rw [fold_chars_cons] at word ⊢
      cases folded : fold_code_point d.toNat with
      | none =>
        rw [folded] at word
        exact .invisible (fold_code_point_none.mp folded) (ih word)
      | some c =>
        rw [folded] at word
        exact .char (plain_of_fold folded (word c List.mem_cons_self))
          (ih fun b member => word b (List.mem_cons_of_mem c member))

/-- Of a writing the first pass leaves letters and digits. Every letter written as a fullwidth digit is
one more digit that stands for a letter. -/
theorem written_fold (word : ∀ c ∈ v, isalnum c = true) (written : Written Form v s) :
    (∀ c ∈ fold_chars s, isalnum c = true) ∧ v.length = (fold_chars s).length ∧
      (fold_chars s = v ∨ v.countP is_leet_digit < (fold_chars s).countP is_leet_digit) := by
  induction written with
  | nil => exact ⟨word, rfl, .inl rfl⟩
  | invisible unseen _ ih =>
    rw [fold_chars_cons, fold_code_point_none.mpr unseen]
    exact ih word
  | @char c v d s form _ ih =>
    obtain ⟨letters, length, same⟩ := ih fun b member => word b (List.mem_cons_of_mem c member)
    rw [fold_chars_cons]
    rcases form_fold form with ⟨folded, _⟩ | ⟨letter, _, x, stands, folded⟩
    · rw [folded]
      refine ⟨fun b member => ?_, congrArg (· + 1) length, ?_⟩
      · rcases List.mem_cons.mp member with rfl | later
        · exact word b List.mem_cons_self
        · exact letters b later
      · refine same.imp (fun same => congrArg (c :: ·) same) fun more => ?_
        simp only [Option.toList_some, List.cons_append, List.nil_append, List.countP_cons]
        omega
    · rw [folded]
      have digit : isdigit x = true := by
        simp only [is_leet_digit, Bool.and_eq_true] at stands
        exact stands.1
      refine ⟨fun b member => ?_, congrArg (· + 1) length, .inr ?_⟩
      · rcases List.mem_cons.mp member with rfl | later
        · simp [isalnum, digit]
        · exact letters b later
      · have other : is_leet_digit c = false := by
          cases digit' : isdigit c with
          | false => simp [is_leet_digit, digit']
          | true => exact absurd ((digit_range digit').2.2.symm.trans letter) (by decide)
        simp only [Option.toList_some, List.cons_append, List.nil_append, List.countP_cons, stands, other]
        rcases same with same | more
        · rw [same]
          simp
        · simp
          omega

/-- A plain writing is what normalisation takes for the word. -/
theorem plain_spelling_iff (word : ∀ c ∈ w, isalnum c = true) (tight : squeeze isalpha 3 w = w) :
    PlainSpelling w s ↔ squeeze isalpha 3 (fold_chars s) = w := by
  have letters {v : Bytes} (squeezed : squeeze isalpha 3 v = w) : ∀ c ∈ v, isalnum c = true :=
    fun c member => word c (squeezed ▸ (mem_squeeze_iff (by decide) v).mpr member)
  constructor
  · rintro ⟨v, stretched, written⟩
    have squeezed : squeeze isalpha 3 v = w := (squeeze_eq_iff (by decide) tight).mpr stretched
    rw [(written_plain_iff (letters squeezed)).mp written, squeezed]
  · intro squeezed
    exact ⟨fold_chars s, (squeeze_eq_iff (by decide) tight).mp squeezed,
      (written_plain_iff (letters squeezed)).mpr rfl⟩

theorem Written.mono {form form' : UInt8 → Char → Prop} (weaker : ∀ c d, form c d → form' c d)
    (written : Written form v s) : Written form' v s := by
  induction written with
  | nil => exact .nil
  | invisible unseen _ ih => exact .invisible unseen ih
  | char form _ ih => exact .char (weaker _ _ form) ih

theorem PlainSpelling.spelling (plain : PlainSpelling w s) : Spelling w s := by
  obtain ⟨v, stretched, written⟩ := plain
  exact ⟨v, stretched.mono fun _ _ => trivial, written.mono fun _ _ form => form.1⟩

/-- The word of an entry is one that normalisation leaves alone. -/
theorem first_token_word (first : first_token entry = some w) :
    w ≠ [] ∧ (∀ c ∈ w, isalnum c = true) ∧ squeeze isalpha 3 w = w := by
  obtain ⟨letters, word, l, r, shape, before, behind⟩ := mem_words (List.mem_of_head? first)
  refine ⟨letters, word, tight_part (l := l) (r := r) ?_ ?_ ?_⟩
  · intro x last y next
    rw [List.head?_append_of_ne_nil w letters] at next
    rintro rfl
    exact absurd ((before x last).symm.trans (word x (List.mem_of_mem_head? next))) (by decide)
  · intro x last y next
    rintro rfl
    exact absurd ((behind x next).symm.trans (word x (List.mem_of_getLast? last))) (by decide)
  · rw [← shape]
    exact squeeze_squeeze (by decide) _

theorem fold_text_encode (s : List Char) : fold_text (encode s) = fold_chars s := by
  have read := code_points_encode s []
  rw [List.append_nil] at read
  rw [fold_text, read, fold_chars, List.filterMap_append, List.filterMap_map]
  exact List.append_nil _

theorem mem_tokenize (word : ∀ c ∈ fold_chars s, isalnum c = true) (some_letter : fold_chars s ≠ [])
    (stands : Delimited s message) : squeeze isalpha 3 (fold_chars s) ∈ tokenize (normalize message) := by
  obtain ⟨left, right, rfl, before, behind⟩ := stands
  have letters : s ≠ [] := by
    rintro rfl
    exact some_letter rfl
  have folded : fold_text (left ++ (encode s ++ right)) =
      fold_text left ++ (fold_chars s ++ fold_text right) := by
    rw [fold_text, code_points_between letters, List.filterMap_append, List.filterMap_append,
      List.filterMap_map]
    rfl
  have apart_left : ∀ x ∈ (fold_text left).getLast?, ∀ y ∈ (fold_chars s ++ fold_text right).head?, x ≠ y := by
    intro x last y next
    rw [List.head?_append_of_ne_nil _ some_letter] at next
    rintro rfl
    exact absurd ((before x last).symm.trans (word x (List.mem_of_mem_head? next))) (by decide)
  have apart_right : ∀ x ∈ (fold_chars s).getLast?, ∀ y ∈ (fold_text right).head?, x ≠ y := by
    intro x last y next
    rintro rfl
    exact absurd ((behind x next).symm.trans (word x (List.mem_of_getLast? last))) (by decide)
  have some_left : squeeze isalpha 3 (fold_chars s) ≠ [] := by
    obtain ⟨c, member⟩ := List.exists_mem_of_ne_nil _ some_letter
    exact List.ne_nil_of_mem ((mem_squeeze_iff (by decide) _).mpr member)
  rw [tokenize, normalize, folded, squeeze_append apart_left, squeeze_append apart_right, words_between some_left]
  · exact List.mem_append_right _ List.mem_cons_self
  · exact fun c member => word c ((mem_squeeze_iff (by decide) _).mp member)
  · rwa [getLast_squeeze]
  · rwa [head_squeeze]

theorem leet_digit_fixed (c : UInt8) (stands : is_leet_digit c = true) : isalpha c = false := by
  simp only [is_leet_digit, Bool.and_eq_true] at stands
  exact (digit_range stands.1).2.2

/-- The stem of what is left of a writing is not the word. -/
theorem strip_suffix_ne (tight : squeeze isalpha 3 w = w) (stretched : Stretched isalpha 3 (fun _ => True) w v)
    (same : fold_chars s = v ∨ v.countP is_leet_digit < (fold_chars s).countP is_leet_digit)
    (shorter : w.length < (squeeze isalpha 3 (fold_chars s)).length) :
    strip_suffix (squeeze isalpha 3 (fold_chars s)) ≠ w := by
  intro stem
  have unlike : ∀ x ∈ suffixes, x.countP is_leet_digit = 0 := by decide
  rcases strip_suffix_append (squeeze isalpha 3 (fold_chars s)) with whole | ⟨x, suffix, append⟩
  · rw [whole] at stem
    rw [stem] at shorter
    exact absurd shorter (Nat.lt_irrefl _)
  · have digits := congrArg (List.countP is_leet_digit) append
    rw [countP_squeeze leet_digit_fixed, stem, List.countP_append, unlike x suffix,
      ← stretched.countP_eq leet_digit_fixed] at digits
    have plain : fold_chars s = v := same.resolve_right (by omega)
    have no_longer := stretched.squeeze_length_le (by decide) tight
    rw [plain] at shorter
    omega

/-- With one word on the list and a writing of it alone in the message, a report means that
normalisation gives the word. -/
theorem normalized_of_caught (first : first_token entry = some w) (spelled : Spelling w s)
    (caught : Caught entry w s) : squeeze isalpha 3 (fold_chars s) = w := by
  obtain ⟨letters, word, tight⟩ := first_token_word first
  obtain ⟨v, stretched, written⟩ := spelled
  obtain ⟨folded_word, length, same⟩ :=
    written_fold (fun c member => word c ((stretched.mem_iff (by decide)).mp member)) written
  have some_letter : squeeze isalpha 3 (fold_chars s) ≠ [] := by
    obtain ⟨c, member⟩ := List.exists_mem_of_ne_nil _ letters
    have stretched_letter := List.length_pos_of_mem ((stretched.mem_iff (by decide)).mpr member)
    have folded_letter : fold_chars s ≠ [] := List.ne_nil_of_length_pos (length ▸ stretched_letter)
    obtain ⟨b, member⟩ := List.exists_mem_of_ne_nil _ folded_letter
    exact List.ne_nil_of_mem ((mem_squeeze_iff (by decide) _).mpr member)
  have alone : Delimited s (encode s) := ⟨[], [], by simp, by simp [fold_text, code_points, code_points_from],
    by simp [fold_text, code_points, code_points_from]⟩
  have reported := caught { cfg_ := { enabled := true } } [entry] (encode s) rfl List.mem_cons_self
    List.not_mem_nil alone
  obtain ⟨u, member⟩ := List.exists_mem_of_ne_nil _ reported
  obtain ⟨_, tok, inside, stands⟩ := SlurFilter.mem_matched.mp member
  obtain ⟨listed, form⟩ := SlurFilter.candidate_cases stands
  have token : tok = squeeze isalpha 3 (fold_chars s) := by
    rw [tokenize, normalize, fold_text_encode, words_word some_letter fun c inside =>
      folded_word c ((mem_squeeze_iff (by decide) _).mp inside)] at inside
    exact List.mem_singleton.mp inside
  have own : u = w := by
    obtain ⟨_, only, first', _⟩ := mem_words_of.mp listed
    rw [List.mem_singleton.mp only, first] at first'
    exact (Option.some.inj first').symm
  subst token own
  rcases form with same_word | ⟨stem, shorter⟩
  · exact same_word
  · exact absurd stem (strip_suffix_ne tight stretched same shorter)

/-- What normalisation takes for the word is reported wherever it stands. -/
theorem caught_of_normalized (first : first_token entry = some w) (long : 3 ≤ w.length)
    (normalized : squeeze isalpha 3 (fold_chars s) = w) : Caught entry w s := by
  intro f raw message enabled inside exempt stands
  obtain ⟨letters, word, _⟩ := first_token_word first
  have folded_word : ∀ c ∈ fold_chars s, isalnum c = true := fun c member =>
    word c (normalized ▸ (mem_squeeze_iff (by decide) _).mpr member)
  have some_letter : fold_chars s ≠ [] := by
    intro none
    rw [none] at normalized
    exact letters normalized.symm
  have token := mem_tokenize folded_word some_letter stands
  rw [normalized] at token
  have listed : w ∈ (f.load_wordlist raw).wordlist_ :=
    mem_words_of.mpr ⟨entry, inside, first, by simpa using long⟩
  have active : (f.load_wordlist raw).is_active = true := by
    rw [SlurFilter.is_active, Bool.and_eq_true]
    exact ⟨enabled, by simpa using List.ne_nil_of_mem listed⟩
  have reported : w ∈ ((f.load_wordlist raw).scan message).matched :=
    SlurFilter.mem_matched.mpr ⟨active, w, token, SlurFilter.candidate_word listed exempt⟩
  exact List.ne_nil_of_mem reported

end Writings

/-- A writing of a word on the list is reported in every message exactly if it stretches no doubled
letter and has no fullwidth digit for a letter. -/
theorem evasion_caught_iff {entry w : Bytes} {s : List Char} (first : first_token entry = some w)
    (long : 3 ≤ w.length) (spelled : Spelling w s) : Caught entry w s ↔ PlainSpelling w s := by
  obtain ⟨_, word, tight⟩ := first_token_word first
  rw [plain_spelling_iff word tight]
  exact ⟨normalized_of_caught first spelled, caught_of_normalized first long⟩

/-- A word with digits, a homoglyph, a stretched letter and an invisible character in it. -/
theorem evilword_caught : Caught (bytes "evilword") (bytes "evilword")
    ['3', 'V', '1', 'l', 'l', 'l', '\u200b', 'w', '\u043e', 'r', 'd'] := by
  have plain : PlainSpelling (bytes "evilword")
      ['3', 'V', '1', 'l', 'l', 'l', '\u200b', 'w', '\u043e', 'r', 'd'] :=
    (plain_spelling_iff (by decide +kernel) (by decide +kernel)).mpr (by decide +kernel)
  exact (evasion_caught_iff (by decide +kernel) (by decide +kernel) plain.spelling).mpr plain

/-- A doubled letter that is stretched is one letter afterwards, and a fullwidth digit stays a digit. -/
theorem disguises_missed :
    (first_token (bytes "book") = some (bytes "book") ∧ Spelling (bytes "book") ['b', 'o', 'o', 'o', 'k'] ∧
      ¬ Caught (bytes "book") (bytes "book") ['b', 'o', 'o', 'o', 'k']) ∧
    (first_token (bytes "evil") = some (bytes "evil") ∧ Spelling (bytes "evil") ['\uff13', 'v', 'i', 'l'] ∧
      ¬ Caught (bytes "evil") (bytes "evil") ['\uff13', 'v', 'i', 'l']) := by
  have book : first_token (bytes "book") = some (bytes "book") := by decide +kernel
  have evil : first_token (bytes "evil") = some (bytes "evil") := by decide +kernel
  have boook : Spelling (bytes "book") ['b', 'o', 'o', 'o', 'k'] := by
    have stretched : Stretched isalpha 3 (fun _ => True) [98, 111, 111, 107] [98, 111, 111, 111, 107] :=
      .run (c := 98) (k := 1) (n := 1) (by decide) (.inl rfl) (by decide)
        (.run (c := 111) (k := 2) (n := 3) (by decide) (.inr ⟨by decide, by decide, trivial⟩) (by decide)
          (.run (c := 107) (k := 1) (n := 1) (by decide) (.inl rfl) (by decide) .nil))
    have written : Written PlainForm [98, 111, 111, 111, 107] ['b', 'o', 'o', 'o', 'k'] :=
      (written_plain_iff (by decide +kernel)).mpr (by decide +kernel)
    have word : bytes "book" = [98, 111, 111, 107] := by decide +kernel
    rw [word]
    exact ⟨_, stretched, written.mono fun _ _ form => form.1⟩
  have wide : Spelling (bytes "evil") ['\uff13', 'v', 'i', 'l'] := by
    have rest : Written PlainForm [118, 105, 108] ['v', 'i', 'l'] :=
      (written_plain_iff (by decide +kernel)).mpr (by decide +kernel)
    have word : bytes "evil" = [101, 118, 105, 108] := by decide +kernel
    have digit : Typed 101 51 := .leet (by decide) (by decide) (by decide)
    rw [word]
    exact ⟨_, .refl _, .char (.fullwidth digit (by decide)) (rest.mono fun _ _ form => form.1)⟩
  refine ⟨⟨book, boook, fun caught => ?_⟩, evil, wide, fun caught => ?_⟩
  · exact absurd (normalized_of_caught book boook caught) (by decide +kernel)
  · exact absurd (normalized_of_caught evil wide caught) (by decide +kernel)

end AoSdl.moderation
