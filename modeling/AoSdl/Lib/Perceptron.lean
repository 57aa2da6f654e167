import Mathlib.Algebra.BigOperators.Fin
import Mathlib.Algebra.Order.Field.Basic
import Mathlib.Analysis.SpecialFunctions.Sigmoid

/-! Perceptrons with one hidden layer for each category, and a linear path around it. -/
namespace Lib

/-- The weights of the categories. -/
structure Perceptron (R : Type*) (categories inputs hidden : ℕ) where
  W1 : Fin categories → Fin inputs → Fin hidden → R
  b1 : Fin categories → Fin hidden → R
  W2 : Fin categories → Fin hidden → R
  b2 : Fin categories → R
  W_skip : Fin categories → Fin inputs → R
  a : Fin categories → R
  b : Fin categories → R

namespace Perceptron

section Layers

variable {R : Type*} [Field R] [LinearOrder R] {categories inputs hidden : ℕ}
  (p : Perceptron R categories inputs hidden) (x : Fin inputs → R) (i : Fin categories)

def unit (k : Fin hidden) : R := max 0 (∑ j, p.W1 i j k * x j + p.b1 i k)

def logit : R := ∑ k, p.W2 i k * p.unit x i k + p.b2 i + ∑ j, p.W_skip i j * x j

end Layers

/-- The calibrated score of a category. -/
noncomputable def probability {categories inputs hidden : ℕ} (p : Perceptron ℝ categories inputs hidden)
    (x : Fin inputs → ℝ) (i : Fin categories) : ℝ := Real.sigmoid (p.a i * p.logit x i + p.b i)

section Sums

variable {R : Type*} [AddCommMonoid R]

/-- A loop that adds. -/
theorem foldl_add_range (f : ℕ → R) (start : R) (n : ℕ) :
    (List.range n).foldl (fun sum i => sum + f i) start = start + ∑ i : Fin n, f i := by
  induction n with
  | zero => simp
  | succ n ih => rw [List.range_succ, List.foldl_append, ih, Fin.sum_univ_castSucc, ← add_assoc]; rfl

end Sums

section Sigmoid

/-- Both forms of the sigmoid are one function. -/
theorem sigmoid_forms (x : ℝ) : Real.sigmoid x = 1 / (1 + Real.exp (-x)) ∧
    Real.sigmoid x = Real.exp x / (1 + Real.exp x) := by
  have first : Real.sigmoid x = 1 / (1 + Real.exp (-x)) := by rw [Real.sigmoid, one_div]
  refine ⟨first, ?_⟩
  have positive := Real.exp_pos x
  rw [first, Real.exp_neg]
  field_simp
  ring

end Sigmoid

section Strongest

/-- The first of the largest. -/
def Strongest {R : Type*} [LinearOrder R] (f : ℕ → R) (n i : ℕ) : Prop :=
  i < n ∧ (∀ j < n, f j ≤ f i) ∧ ∀ j < i, f j < f i

theorem Strongest.next {R : Type*} [LinearOrder R] {f : ℕ → R} {n i : ℕ} (strongest : Strongest f n i) :
    Strongest f (n + 1) (if f i < f n then n else i) := by
  obtain ⟨inside, largest, first⟩ := strongest
  split
  case isTrue more =>
    have below (j : ℕ) (before : j < n) : f j < f n := lt_of_le_of_lt (largest j before) more
    refine ⟨Nat.lt_succ_self n, fun j before => ?_, below⟩
    obtain before | rfl := Nat.lt_succ_iff_lt_or_eq.mp before
    · exact (below j before).le
    · exact le_rfl
  case isFalse less =>
    refine ⟨Nat.lt_succ_of_lt inside, fun j before => ?_, first⟩
    obtain before | rfl := Nat.lt_succ_iff_lt_or_eq.mp before
    · exact largest j before
    · exact not_lt.mp less

end Strongest

end Perceptron

end Lib
