import Mathlib.Algebra.Order.Field.Basic
import Mathlib.Tactic.Linarith

/-! Values that fade with time and are zero once they are small. Fading in several steps is fading
in one. -/
namespace Lib.Decay

variable {T K : Type*} [AddCommGroup T] [LinearOrder T] [Field K] [LinearOrder K]

/-- The part that is left after a time. -/
structure Fading (f : T → K) : Prop where
  pos : ∀ t, 0 ≤ t → 0 < f t
  le_one : ∀ t, 0 ≤ t → f t ≤ 1
  add : ∀ s t, 0 ≤ s → 0 ≤ t → f (s + t) = f s * f t

/-- What is too small counts as zero. -/
def snap (least h : K) : K := if |h| < least then 0 else h

/-- The value after a time. Nothing changes while no time passes. -/
def faded (f : T → K) (least h : K) (t : T) : K := if t ≤ 0 then h else snap least (h * f t)

variable {f : T → K} {least h bound : K} {s t : T}

theorem snap_cases (least h : K) : snap least h = 0 ∨ snap least h = h := by
  unfold snap
  split
  · exact .inl rfl
  · exact .inr rfl

theorem snap_zero : snap least (0 : K) = 0 := (snap_cases least 0).elim id id

@[simp] theorem faded_now : faded f least h 0 = h := if_pos (le_refl 0)

@[simp] theorem faded_zero : faded f least 0 t = 0 := by
  unfold faded
  rw [zero_mul, snap_zero, ite_self]

variable [IsStrictOrderedRing K]

/-- A value fades towards zero, from above and from below. -/
theorem le_faded (fading : Fading f) (negative : bound ≤ 0) (above : bound ≤ h) :
    bound ≤ faded f least h t := by
  unfold faded
  split
  · exact above
  · next later =>
    have positive := (not_le.mp later).le
    rcases snap_cases least (h * f t) with zero | same
    · rw [zero]
      exact negative
    · rw [same]
      have left := fading.pos t positive
      have le_one := fading.le_one t positive
      calc bound ≤ bound * f t := le_mul_of_le_one_right negative le_one
        _ ≤ h * f t := mul_le_mul_of_nonneg_right above left.le

/-- Once a value counts as zero it does so whatever is left of it later. -/
theorem snap_mul {left : K} (part : |left| ≤ 1) (x : K) :
    snap least (snap least x * left) = snap least (x * left) := by
  by_cases tiny : |x| < least
  · have smaller : |x * left| < least := by
      rw [abs_mul]
      exact (mul_le_of_le_one_right (abs_nonneg x) part).trans_lt tiny
    have gone : snap least x = 0 := if_pos tiny
    rw [gone, zero_mul, snap_zero, snap, if_pos smaller]
  · have kept : snap least x = x := if_neg tiny
    rw [kept]

theorem faded_faded [IsOrderedAddMonoid T] (fading : Fading f) (hs : 0 ≤ s) (ht : 0 ≤ t) (h : K) :
    faded f least (faded f least h s) t = faded f least h (s + t) := by
  rcases hs.eq_or_lt with rfl | positive_s
  · rw [faded_now, zero_add]
  rcases ht.eq_or_lt with rfl | positive_t
  · rw [faded_now, add_zero]
  have unit : |f t| ≤ 1 := by
    rw [abs_of_pos (fading.pos t ht)]
    exact fading.le_one t ht
  have together : ¬ s + t ≤ 0 := not_le.mpr (add_pos positive_s positive_t)
  unfold faded
  rw [if_neg (not_le.mpr positive_s), if_neg (not_le.mpr positive_t), if_neg together,
    snap_mul unit, fading.add s t hs ht, mul_assoc]

end Lib.Decay
