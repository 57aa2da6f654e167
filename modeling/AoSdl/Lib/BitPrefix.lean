import Mathlib.Data.Nat.Bitwise
import Mathlib.Data.Nat.Size
import Mathlib.Tactic.Common

/-! Byte strings as strings of bits, the highest bit of the first byte first, and equality of their
first bits. -/
namespace Lib.BitPrefix

/-- Bit `i`. -/
def bit (s : List UInt8) (i : Nat) : Bool := (s.getD (i / 8) 0).toNat.testBit (7 - i % 8)

/-- The first `n` bits agree. -/
def Same (n : Nat) (a b : List UInt8) : Prop := ∀ i < n, bit a i = bit b i

instance (n : Nat) (a b : List UInt8) : Decidable (Same n a b) := inferInstanceAs (Decidable (∀ i < n, _))

/-- The mask of the first `r` bits of a byte. -/
def high (r : Nat) : UInt8 := UInt8.ofNat (0xFF <<< (8 - r))

section

variable {n m r : Nat} {a b front : List UInt8} {x y : UInt8}

theorem bit_at {k j : Nat} (inside : j < 8) : bit a (8 * k + j) = (a.getD k 0).toNat.testBit (7 - j) := by
  have place : (8 * k + j) / 8 = k := by omega
  have rest : (8 * k + j) % 8 = j := by omega
  rw [bit, place, rest]

theorem byte_eq_iff : x = y ↔ ∀ j < 8, x.toNat.testBit (7 - j) = y.toNat.testBit (7 - j) := by
  refine ⟨fun same j _ => same ▸ rfl, fun same => UInt8.toNat_inj.mp (Nat.eq_of_testBit_eq fun k => ?_)⟩
  rcases Nat.lt_or_ge k 8 with inside | beyond
  · have at_ := same (7 - k) (by omega)
    rwa [Nat.sub_sub_self (by omega : k ≤ 7)] at at_
  · have large : 2 ^ 8 ≤ 2 ^ k := Nat.pow_le_pow_right (by decide) beyond
    rw [Nat.testBit_lt_two_pow (x.toNat_lt.trans_le large), Nat.testBit_lt_two_pow (y.toNat_lt.trans_le large)]

theorem testBit_high : ∀ r < 8, ∀ k < 8, (high r).toNat.testBit k = decide (8 - r ≤ k) := by decide

theorem masked_eq_iff (short : r < 8) :
    x &&& high r = y &&& high r ↔ ∀ j < r, x.toNat.testBit (7 - j) = y.toNat.testBit (7 - j) := by
  rw [byte_eq_iff]
  simp only [UInt8.toNat_and, Nat.testBit_and]
  constructor
  · intro same j inside
    have at_ := same j (by omega)
    rw [testBit_high r short (7 - j) (by omega)] at at_
    simpa [(by omega : 8 - r ≤ 7 - j)] using at_
  · intro same j inside
    rw [testBit_high r short (7 - j) (by omega)]
    rcases Nat.lt_or_ge j r with low | high
    · rw [same j low]
    · have off : ¬ 8 - r ≤ 7 - j := by omega
      simp only [off, decide_false, Bool.and_false]

/-- Whole bytes first, then the bits of one more. -/
theorem same_iff_bytes :
    Same n a b ↔ (∀ k < n / 8, a.getD k 0 = b.getD k 0) ∧
      a.getD (n / 8) 0 &&& high (n % 8) = b.getD (n / 8) 0 &&& high (n % 8) := by
  rw [masked_eq_iff (Nat.mod_lt n (by decide))]
  constructor
  · intro same
    refine ⟨fun k before => byte_eq_iff.mpr fun j inside => ?_, fun j inside => ?_⟩
    · rw [← bit_at inside, ← bit_at inside]
      exact same _ (by omega)
    · have within : j < 8 := by omega
      rw [← bit_at within, ← bit_at within]
      exact same _ (by omega)
  · rintro ⟨bytes, bits⟩ i before
    have within : i % 8 < 8 := Nat.mod_lt i (by decide)
    rw [← Nat.div_add_mod i 8, bit_at within, bit_at within]
    rcases Nat.lt_or_ge (i / 8) (n / 8) with whole | last
    · rw [bytes _ whole]
    · have place : i / 8 = n / 8 := by omega
      rw [place]
      exact bits _ (by omega)

theorem take_eq_iff (lengths : a.length = b.length) :
    a.take m = b.take m ↔ ∀ k < m, a.getD k 0 = b.getD k 0 := by
  constructor
  · intro same k before
    have at_ := congrArg (fun s => s.getD k 0) same
    simpa [List.getD_eq_getElem?_getD, List.getElem?_take, before] using at_
  · intro same
    refine List.ext_getElem (by simp [lengths]) fun k inside inside' => ?_
    rw [List.length_take] at inside inside'
    have at_ := same k (by omega)
    rw [List.getD_eq_getElem _ _ (by omega), List.getD_eq_getElem _ _ (by omega)] at at_
    simpa using at_

theorem same_append : Same (8 * front.length + n) (front ++ a) (front ++ b) ↔ Same n a b := by
  have behind (s : List UInt8) (i : Nat) : bit (front ++ s) (8 * front.length + i) = bit s i := by
    have place : (8 * front.length + i) / 8 = front.length + i / 8 := by omega
    have rest : (8 * front.length + i) % 8 = i % 8 := by omega
    rw [bit, bit, place, rest, List.getD_append_right _ _ _ _ (Nat.le_add_right _ _), Nat.add_sub_cancel_left]
  have inside (s : List UInt8) {i : Nat} (before : i < 8 * front.length) : bit (front ++ s) i = bit front i := by
    rw [bit, bit, List.getD_append _ _ _ _ (by omega)]
  constructor
  · intro same i before
    rw [← behind a, ← behind b]
    exact same _ (by omega)
  · intro same i before
    rcases Nat.lt_or_ge i (8 * front.length) with early | late
    · rw [inside a early, inside b early]
    · rw [← Nat.add_sub_cancel' late, behind, behind]
      exact same _ (by omega)

end

end Lib.BitPrefix

/-! The bits of a number copied to the places below them: with shifts that double, a few steps copy each bit to all
places below it, and the next number is a power of two. -/
namespace Lib.BitSmear

/-- Bit `i` of the second number is set if one of the `n` bits from `i` on of the first one is. -/
def Smeared (n x y : ℕ) : Prop := ∀ i, y.testBit i = true ↔ ∃ j < n, x.testBit (i + j) = true

/-- A number with a copy of it that is shifted. -/
def smear (y n : ℕ) : ℕ := y ||| y >>> n

theorem smeared_one (x : ℕ) : Smeared 1 x x := fun i => by simp

theorem Smeared.double {n x y : ℕ} (smeared : Smeared n x y) : Smeared (n + n) x (smear y n) := by
  intro i
  rw [smear, Nat.testBit_or, Nat.testBit_shiftRight, Bool.or_eq_true, smeared i, smeared (n + i)]
  constructor
  · rintro (⟨j, near, bit⟩ | ⟨j, near, bit⟩)
    · exact ⟨j, by omega, bit⟩
    · refine ⟨n + j, by omega, ?_⟩
      rw [← bit]
      congr 1
      omega
  · rintro ⟨j, near, bit⟩
    rcases Nat.lt_or_ge j n with low | high
    · exact .inl ⟨j, low, bit⟩
    · refine .inr ⟨j - n, by omega, ?_⟩
      rw [← bit]
      congr 1
      omega

/-- All the ones that the number has room for. -/
theorem Smeared.eq {n x y : ℕ} (smeared : Smeared n x y) (small : x < 2 ^ n) : y = 2 ^ x.size - 1 := by
  apply Nat.eq_of_testBit_eq
  intro i
  rw [Nat.testBit_two_pow_sub_one, Bool.eq_iff_iff, smeared i, decide_eq_true_eq, Nat.lt_size]
  constructor
  · rintro ⟨j, -, bit⟩
    exact (Nat.pow_le_pow_right (by decide) (Nat.le_add_right i j)).trans (Nat.ge_two_pow_of_testBit bit)
  · intro large
    obtain ⟨k, high, bit⟩ := Nat.exists_ge_and_testBit_of_ge_two_pow large
    have low : k < n := by
      by_contra beyond
      have large := Nat.ge_two_pow_of_testBit bit
      have order := Nat.pow_le_pow_right (n := 2) (by decide) (Nat.le_of_not_lt beyond)
      omega
    refine ⟨k - i, by omega, ?_⟩
    rw [Nat.add_sub_cancel' high]
    exact bit

/-- The least power of two that is not below a number. -/
theorem pow_size_pred {v : ℕ} (positive : 0 < v) :
    v ≤ 2 ^ (v - 1).size ∧ ∀ k, v ≤ 2 ^ k → 2 ^ (v - 1).size ≤ 2 ^ k := by
  have above := Nat.lt_size_self (v - 1)
  refine ⟨by omega, fun k fits => ?_⟩
  apply Nat.pow_le_pow_right (by decide)
  exact Nat.size_le.mpr (by omega)

end Lib.BitSmear
