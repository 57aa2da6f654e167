import AoSdl.Lib.Decimal

/-! The words and numbers at the front of a text, as `scanf` takes them: what is read, and what is
left, is settled by the text. -/
namespace Lib.Scanning
open Lib.Decimal

/-- The longest front of a text whose letters satisfy `p`. -/
structure Longest {α : Type} (p : α → Bool) (s front rest : List α) : Prop where
  text : s = front ++ rest
  inside : ∀ c ∈ front, p c = true
  stops : ∀ c ∈ rest.head?, p c = false

section Longest

variable {α : Type} {p : α → Bool} {s front rest : List α}

theorem longest (p : α → Bool) (s : List α) : Longest p s (s.takeWhile p) (s.dropWhile p) := by
  refine ⟨List.takeWhile_append_dropWhile.symm, fun c => List.mem_takeWhile_imp, fun c head => ?_⟩
  have stopped := List.head?_dropWhile_not p s
  rw [Option.mem_def.mp head] at stopped
  simpa using stopped

theorem Longest.takeWhile_eq (taken : Longest p s front rest) : s.takeWhile p = front := by
  rw [taken.text, List.takeWhile_append_of_pos taken.inside]
  cases rest with
  | nil => simp
  | cons c rest => simp [taken.stops c rfl]

theorem Longest.dropWhile_eq (taken : Longest p s front rest) : s.dropWhile p = rest := by
  rw [taken.text, List.dropWhile_append_of_pos taken.inside]
  cases rest with
  | nil => rfl
  | cons c rest => simp [taken.stops c rfl]

end Longest

/-- A word after white space, as `%s` with a width reads it: it ends at white space or when it is
full. -/
structure Word (width : Nat) (s gap word rest : List UInt8) : Prop where
  text : s = gap ++ (word ++ rest)
  blank : ∀ c ∈ gap, isSpace c = true
  solid : ∀ c ∈ word, isSpace c = false
  filled : word ≠ []
  fits : word.length ≤ width
  stops : word.length < width → ∀ c ∈ rest.head?, isSpace c = true

/-- A sign or none, and digits, after white space. -/
structure Number (s gap sign digits rest : List UInt8) : Prop where
  text : s = gap ++ (sign ++ (digits ++ rest))
  blank : ∀ c ∈ gap, isSpace c = true
  signed : sign = [] ∨ sign = [43] ∨ sign = [45]
  numeric : ∀ c ∈ digits, isDigit c = true
  filled : digits ≠ []
  stops : ∀ c ∈ rest.head?, isDigit c = false

/-- A number as it is written: white space in front of it, a sign or none, and digits. -/
structure Numeral where
  gap : List UInt8
  sign : List UInt8
  digits : List UInt8

/-- The numeral is at the front of the text. -/
def Numeral.Leads (n : Numeral) (s rest : List UInt8) : Prop := Number s n.gap n.sign n.digits rest

/-- The number that it stands for. -/
def Numeral.value (n : Numeral) : Int :=
  if n.sign = [45] then -(Lib.Decimal.value n.digits : Int) else Lib.Decimal.value n.digits

/-- What stands behind a sign. -/
def unsigned (s : List UInt8) : List UInt8 :=
  if s.head? = some 45 || s.head? = some 43 then s.drop 1 else s

section Scan

variable {width : Nat} {s gap gap' word word' sign sign' digits digits' rest rest' : List UInt8}

theorem Word.blanks (read : Word width s gap word rest) : Longest isSpace s gap (word ++ rest) := by
  refine ⟨read.text, read.blank, fun c head => ?_⟩
  obtain ⟨d, later, shape⟩ := List.exists_cons_of_ne_nil read.filled
  rw [shape, List.cons_append, List.head?_cons] at head
  exact read.solid c (by simp [shape, Option.mem_some.mp head])

/-- The letters of a word that is not full end at white space. -/
theorem Word.taken (read : Word width s gap word rest) :
    ((word ++ rest).takeWhile fun c => !isSpace c).take width = word := by
  rw [List.takeWhile_append_of_pos (fun c member => by simp [read.solid c member])]
  rcases read.fits.lt_or_eq with short | full
  · have stopped : rest.takeWhile (fun c => !isSpace c) = [] := by
      cases rest with
      | nil => rfl
      | cons c rest => simp [read.stops short c rfl]
    rw [stopped, List.append_nil, List.take_of_length_le read.fits]
  · exact List.take_left' full

theorem Word.unique (read : Word width s gap word rest) (again : Word width s gap' word' rest') :
    gap = gap' ∧ word = word' ∧ rest = rest' := by
  have gaps : gap = gap' := read.blanks.takeWhile_eq.symm.trans again.blanks.takeWhile_eq
  have behind : word ++ rest = word' ++ rest' := read.blanks.dropWhile_eq.symm.trans again.blanks.dropWhile_eq
  have words : word = word' := by rw [← read.taken, ← again.taken, behind]
  exact ⟨gaps, words, List.append_cancel_left (words ▸ behind)⟩

theorem sign_head {c : UInt8} (signed : sign = [] ∨ sign = [43] ∨ sign = [45])
    (head : c ∈ (sign ++ digits).head?) : c = 43 ∨ c = 45 ∨ c ∈ digits.head? := by
  rcases signed with rfl | rfl | rfl
  · exact .inr (.inr head)
  · exact .inl (Option.mem_some.mp head).symm
  · exact .inr (.inl (Option.mem_some.mp head).symm)

theorem Number.blanks (read : Number s gap sign digits rest) :
    Longest isSpace s gap (sign ++ (digits ++ rest)) := by
  refine ⟨read.text, read.blank, fun c head => ?_⟩
  obtain ⟨d, later, shape⟩ := List.exists_cons_of_ne_nil read.filled
  rcases sign_head read.signed head with rfl | rfl | first
  · rfl
  · rfl
  · rw [shape, List.cons_append, List.head?_cons, Option.mem_some] at first
    exact (digit_apart (read.numeric c (by simp [shape, first]))).1

theorem Number.longest (read : Number s gap sign digits rest) :
    Longest isDigit (digits ++ rest) digits rest := ⟨rfl, read.numeric, read.stops⟩

/-- The first digit is no sign. -/
theorem Number.plain (read : Number s gap sign digits rest) :
    ∀ c ∈ (digits ++ rest).head?, c ≠ 43 ∧ c ≠ 45 := by
  intro c head
  obtain ⟨d, later, shape⟩ := List.exists_cons_of_ne_nil read.filled
  rw [shape, List.cons_append, List.head?_cons, Option.mem_some] at head
  exact (digit_apart (read.numeric c (by simp [shape, head]))).2.symm

theorem sign_unique (signed : sign = [] ∨ sign = [43] ∨ sign = [45])
    (signed' : sign' = [] ∨ sign' = [43] ∨ sign' = [45])
    (plain : ∀ c ∈ rest.head?, c ≠ 43 ∧ c ≠ 45) (plain' : ∀ c ∈ rest'.head?, c ≠ 43 ∧ c ≠ 45)
    (same : sign ++ rest = sign' ++ rest') : sign = sign' ∧ rest = rest' := by
  rcases signed with rfl | rfl | rfl <;> rcases signed' with rfl | rfl | rfl
  · exact ⟨rfl, same⟩
  · exact absurd rfl (plain 43 (by simp [show rest = 43 :: rest' from same])).1
  · exact absurd rfl (plain 45 (by simp [show rest = 45 :: rest' from same])).2
  · exact absurd rfl (plain' 43 (by simp [show rest' = 43 :: rest from same.symm])).1
  · exact ⟨rfl, (List.cons.inj same).2⟩
  · exact absurd (List.cons.inj same).1 (by decide)
  · exact absurd rfl (plain' 45 (by simp [show rest' = 45 :: rest from same.symm])).2
  · exact absurd (List.cons.inj same).1 (by decide)
  · exact ⟨rfl, (List.cons.inj same).2⟩

theorem exists_sign (s : List UInt8) :
    ∃ sign, (sign = [] ∨ sign = [43] ∨ sign = [45]) ∧ s = sign ++ unsigned s ∧ (s.head? = some 45 ↔ sign = [45]) := by
  cases s with
  | nil => exact ⟨[], .inl rfl, rfl, by simp⟩
  | cons c s =>
    by_cases minus : c = 45
    · exact ⟨[45], .inr (.inr rfl), by simp [unsigned, minus], by simp [minus]⟩
    · by_cases plus : c = 43
      · exact ⟨[43], .inr (.inl rfl), by simp [unsigned, plus], by simp [plus]⟩
      · exact ⟨[], .inl rfl, by simp [unsigned, minus, plus], by simp [minus]⟩

theorem Number.unsigned_eq (read : Number s gap sign digits rest) :
    unsigned (sign ++ (digits ++ rest)) = digits ++ rest ∧
      ((sign ++ (digits ++ rest)).head? = some 45 ↔ sign = [45]) := by
  have plain := read.plain
  rcases read.signed with rfl | rfl | rfl
  · have no_minus : (digits ++ rest).head? ≠ some 45 := fun head => (plain 45 head).2 rfl
    have no_plus : (digits ++ rest).head? ≠ some 43 := fun head => (plain 43 head).1 rfl
    generalize digits ++ rest = later at no_minus no_plus
    simp [unsigned, no_minus, no_plus]
  · simp [unsigned]
  · simp [unsigned]

/-- The digits behind white space and a sign. -/
theorem number_of_digits (signed : sign = [] ∨ sign = [43] ∨ sign = [45])
    (body : s.dropWhile isSpace = sign ++ rest) (some : rest.takeWhile isDigit ≠ []) :
    Number s (s.takeWhile isSpace) sign (rest.takeWhile isDigit) (rest.dropWhile isDigit) := by
  obtain ⟨text, digits, stops⟩ := longest isDigit rest
  refine ⟨?_, (longest isSpace s).inside, signed, digits, some, stops⟩
  rw [← text, ← body]
  exact (longest isSpace s).text

theorem readNat_eq_some {n : Nat} :
    readNat s = some n ↔ s.takeWhile isDigit ≠ [] ∧ value (s.takeWhile isDigit) = n := by
  simp only [readNat, List.isEmpty_iff]
  split
  · next none => simp [none]
  · next filled => simp [filled]

theorem Number.readNat_eq (read : Number s gap sign digits rest) :
    readNat (digits ++ rest) = some (value digits) := by
  rw [readNat_eq_some, read.longest.takeWhile_eq]
  exact ⟨read.filled, rfl⟩

theorem Number.unique (read : Number s gap sign digits rest) (again : Number s gap' sign' digits' rest') :
    gap = gap' ∧ sign = sign' ∧ digits = digits' ∧ rest = rest' := by
  have gaps : gap = gap' := read.blanks.takeWhile_eq.symm.trans again.blanks.takeWhile_eq
  have behind := read.blanks.dropWhile_eq.symm.trans again.blanks.dropWhile_eq
  obtain ⟨signs, numbers⟩ := sign_unique read.signed again.signed read.plain again.plain behind
  have digits_eq : digits = digits' := by
    rw [← read.longest.takeWhile_eq, ← again.longest.takeWhile_eq, numbers]
  exact ⟨gaps, signs, digits_eq, List.append_cancel_left (digits_eq ▸ numbers)⟩

theorem read_eq (s : List UInt8) :
    Lib.Decimal.read s = (readNat (unsigned (s.dropWhile isSpace))).map fun (n : Nat) =>
      if (s.dropWhile isSpace).head? = some 45 then -(n : Int) else n := by
  unfold Lib.Decimal.read
  split
  · next rest shape => cases number : readNat rest <;> simp [shape, unsigned, number]
  · next rest shape => cases number : readNat rest <;> simp [shape, unsigned, number]
  · next minus plus =>
    have no_minus : (s.dropWhile isSpace).head? ≠ some 45 := by
      rw [Ne, List.head?_eq_some_iff]
      exact fun ⟨rest, shape⟩ => minus rest shape
    have no_plus : (s.dropWhile isSpace).head? ≠ some 43 := by
      rw [Ne, List.head?_eq_some_iff]
      exact fun ⟨rest, shape⟩ => plus rest shape
    cases number : readNat (s.dropWhile isSpace) <;> simp [unsigned, no_minus, no_plus, number]

/-- `strtol` reads the number at the front of a text. -/
theorem read_iff {k : Int} :
    Lib.Decimal.read s = some k ↔ ∃ (n : Numeral) (rest : List UInt8), n.Leads s rest ∧ n.value = k := by
  rw [read_eq]
  constructor
  · intro scanned
    obtain ⟨sign, signed, body, minus⟩ := exists_sign (s.dropWhile isSpace)
    obtain ⟨k, digits, taken⟩ := Option.map_eq_some_iff.mp scanned
    obtain ⟨filled, rfl⟩ := readNat_eq_some.mp digits
    refine ⟨⟨_, sign, _⟩, _, number_of_digits signed body filled, ?_⟩
    simpa only [Numeral.value, minus] using taken
  · rintro ⟨n, rest, number, rfl⟩
    obtain ⟨behind, minus⟩ := number.unsigned_eq
    rw [number.blanks.dropWhile_eq, behind, number.readNat_eq, Option.map_some]
    simp only [minus, Numeral.value]

theorem Numeral.Leads.unique {n m : Numeral} (leads : n.Leads s rest) (again : m.Leads s rest') :
    n = m ∧ rest = rest' := by
  obtain ⟨gap, sign, digits, behind⟩ := Number.unique leads again
  cases n
  cases m
  simp only [Numeral.mk.injEq]
  exact ⟨⟨gap, sign, digits⟩, behind⟩

theorem number_digits (filled : digits ≠ []) (numeric : ∀ c ∈ digits, isDigit c = true) :
    Number digits [] [] digits [] :=
  ⟨by simp, nofun, .inl rfl, numeric, filled, nofun⟩

end Scan

end Lib.Scanning
