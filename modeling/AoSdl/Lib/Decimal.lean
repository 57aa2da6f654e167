import Mathlib.Data.List.TakeWhile
import Mathlib.Data.Nat.Digits.Defs
import Mathlib.Tactic.Common

/-! Decimal text of integers, over bytes: printing, and reading the way `strtol` does,
with leading blanks, a sign, and whatever follows the digits ignored. -/
namespace Lib.Decimal

def isDigit (c : UInt8) : Bool := 48 ≤ c && c ≤ 57

def isSpace (c : UInt8) : Bool := c = 32 || (9 ≤ c && c ≤ 13)

def ofDigit (d : Nat) : UInt8 := UInt8.ofNat (48 + d)

def natText (n : Nat) : List UInt8 :=
  if n = 0 then [48] else (Nat.digits 10 n).reverse.map ofDigit

def text : Int → List UInt8
  | .ofNat n => natText n
  | .negSucc n => 45 :: natText (n + 1)

def value (ds : List UInt8) : Nat := ds.foldl (fun n c => n * 10 + (c.toNat - 48)) 0

def readNat (s : List UInt8) : Option Nat :=
  let ds := s.takeWhile isDigit
  if ds.isEmpty then none else some (value ds)

def read (s : List UInt8) : Option Int :=
  match s.dropWhile isSpace with
  | 45 :: rest => (readNat rest).map fun n => -(n : Int)
  | 43 :: rest => (readNat rest).map fun n => (n : Int)
  | rest => (readNat rest).map fun n => (n : Int)

/-- Reading the way `from_chars` does where all of the text has to be a number: a minus sign
or none, then digits only. -/
def readExact : List UInt8 → Option Int
  | 45 :: rest => if !rest.isEmpty && rest.all isDigit then some (-(value rest : Int)) else none
  | rest => if !rest.isEmpty && rest.all isDigit then some (value rest : Int) else none

theorem ofDigit_toNat {d : Nat} (low : d < 10) : (ofDigit d).toNat = 48 + d := by
  rw [ofDigit, UInt8.toNat_ofNat']
  omega

theorem isDigit_ofDigit {d : Nat} (low : d < 10) : isDigit (ofDigit d) = true := by
  have := ofDigit_toNat low
  simp [isDigit, UInt8.le_iff_toNat_le, this]
  omega

theorem natText_digits (n : Nat) : ∀ c ∈ natText n, isDigit c = true := by
  intro c member
  unfold natText at member
  split at member
  · obtain rfl := List.mem_singleton.mp member
    decide
  · obtain ⟨d, inside, rfl⟩ := List.mem_map.mp member
    exact isDigit_ofDigit (Nat.digits_lt_base (by decide) (List.mem_reverse.mp inside))

theorem natText_ne_nil (n : Nat) : natText n ≠ [] := by
  unfold natText
  split
  · simp
  · next positive => simpa using Nat.digits_ne_nil_iff_ne_zero.mpr positive

theorem value_natText (n : Nat) : value (natText n) = n := by
  unfold natText
  split
  · next zero => rw [zero]; rfl
  · have low : ∀ d ∈ Nat.digits 10 n, d < 10 := fun d => Nat.digits_lt_base (by decide)
    rw [value, List.foldl_map, List.foldl_reverse]
    conv_rhs => rw [← Nat.ofDigits_digits 10 n]
    generalize Nat.digits 10 n = ds at low
    induction ds with
    | nil => rfl
    | cons d ds ih =>
      rw [List.foldr_cons, ih fun x inside => low x (List.mem_cons_of_mem d inside),
        ofDigit_toNat (low d List.mem_cons_self), Nat.ofDigits_cons]
      exact (by omega : ∀ a b : Nat, b * 10 + (48 + a - 48) = a + 10 * b) _ _

theorem readNat_natText (n : Nat) : readNat (natText n) = some n := by
  have all : (natText n).takeWhile isDigit = natText n :=
    List.takeWhile_eq_self_iff.mpr (natText_digits n)
  simp [readNat, all, natText_ne_nil, value_natText]

theorem isDigit_iff (c : UInt8) : isDigit c = true ↔ 48 ≤ c.toNat ∧ c.toNat ≤ 57 := by
  simp [isDigit, UInt8.le_iff_toNat_le]

theorem digit_apart {c : UInt8} (digit : isDigit c = true) :
    isSpace c = false ∧ c ≠ 45 ∧ c ≠ 43 := by
  have range := (isDigit_iff c).mp digit
  refine ⟨?_, ?_, ?_⟩
  · simp only [isSpace, Bool.or_eq_false_iff, Bool.and_eq_false_iff, decide_eq_false_iff_not,
      UInt8.le_iff_toNat_le, ← UInt8.toNat_inj]
    simp only [UInt8.reduceToNat]
    omega
  · rintro rfl
    simp at range
  · rintro rfl
    simp at range

theorem read_natText (n : Nat) : read (natText n) = some (n : Int) := by
  have same := readNat_natText n
  cases shape : natText n with
  | nil => exact absurd shape (natText_ne_nil n)
  | cons c rest =>
    obtain ⟨solid, notMinus, notPlus⟩ := digit_apart (natText_digits n c (by simp [shape]))
    rw [shape] at same
    unfold read
    rw [List.dropWhile_cons_of_neg (by simp [solid])]
    split
    · next eq => exact absurd (List.cons.inj eq).1 notMinus
    · next eq => exact absurd (List.cons.inj eq).1 notPlus
    · rw [same]
      rfl

theorem read_text (n : Int) : read (text n) = some n := by
  cases n with
  | ofNat n => exact read_natText n
  | negSucc n =>
    have start : (45 :: natText (n + 1)).dropWhile isSpace = 45 :: natText (n + 1) := by
      simp [isSpace]
    unfold read text
    rw [start]
    simp [readNat_natText, Int.negSucc_eq]

theorem readExact_text (n : Int) : readExact (text n) = some n := by
  cases n with
  | negSucc n =>
    have digits := natText_digits (n + 1)
    simp only [text, readExact]
    rw [if_pos (by simpa [natText_ne_nil] using digits), value_natText, Int.negSucc_eq]
    rfl
  | ofNat n =>
    have digits := natText_digits n
    have number := value_natText n
    cases shape : natText n with
    | nil => exact absurd shape (natText_ne_nil n)
    | cons c rest =>
      rw [shape] at digits number
      have notMinus := (digit_apart (digits c List.mem_cons_self)).2.1
      rw [text, shape]
      unfold readExact
      split
      · next eq => exact absurd (List.cons.inj eq).1 notMinus
      · rw [if_pos (by simpa using digits), number]
        rfl

theorem text_digits (n : Int) : ∀ c ∈ text n, isDigit c = true ∨ c = 45 := by
  cases n with
  | ofNat n => exact fun c member => .inl (natText_digits n c member)
  | negSucc n =>
    intro c member
    rcases List.mem_cons.mp member with rfl | inside
    · exact .inr rfl
    · exact .inl (natText_digits _ c inside)

end Lib.Decimal
