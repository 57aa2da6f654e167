import Mathlib.Algebra.Order.BigOperators.Group.List
import Mathlib.Algebra.Order.Group.Defs
import Mathlib.Algebra.Order.Ring.Int
import Mathlib.Tactic.Common

/-! Intervals one after another, each with its length: the interval that a time lies in, and the same for a
time that goes round. -/
namespace Lib.Timeline

variable {M : Type*} [AddCommGroup M] [LinearOrder M] [IsOrderedAddMonoid M]

/-- The time lies in interval `i`. -/
def Covers (lengths : List M) (i : ℕ) (t : M) : Prop :=
  i < lengths.length ∧ (lengths.take i).sum ≤ t ∧ t < (lengths.take (i + 1)).sum

variable {lengths : List M} {i j : ℕ} {t : M}

theorem sum_take_mono (positive : ∀ d ∈ lengths, 0 < d) (earlier : i ≤ j) :
    (lengths.take i).sum ≤ (lengths.take j).sum := by
  have front : (lengths.take j).take i = lengths.take i := by rw [List.take_take, Nat.min_eq_left earlier]
  rw [← List.take_append_drop i (lengths.take j), front, List.sum_append]
  apply le_add_of_nonneg_right
  apply List.sum_nonneg
  intro d member
  exact (positive d (List.mem_of_mem_take (List.mem_of_mem_drop member))).le

/-- A time lies in one interval only. -/
theorem Covers.unique (positive : ∀ d ∈ lengths, 0 < d) (here : Covers lengths i t) (there : Covers lengths j t) :
    i = j := by
  rcases Nat.lt_trichotomy i j with before | same | behind
  · have order := sum_take_mono positive (Nat.succ_le_of_lt before)
    exact absurd (here.2.2.trans_le order) (not_lt_of_ge there.2.1)
  · exact same
  · have order := sum_take_mono positive (Nat.succ_le_of_lt behind)
    exact absurd (there.2.2.trans_le order) (not_lt_of_ge here.2.1)

theorem sum_take_le (positive : ∀ d ∈ lengths, 0 < d) (i : ℕ) : (lengths.take i).sum ≤ lengths.sum := by
  rcases Nat.le_total i lengths.length with inside | beyond
  · have order := sum_take_mono positive inside
    rwa [List.take_length] at order
  · rw [List.take_of_length_le beyond]

theorem Covers.lt_sum (positive : ∀ d ∈ lengths, 0 < d) (here : Covers lengths i t) : t < lengths.sum :=
  here.2.2.trans_le (sum_take_le positive (i + 1))

theorem covers_of_rest (inside : i < lengths.length) {rest : M} (begun : 0 ≤ rest) (short : rest < lengths[i]) :
    Covers lengths i ((lengths.take i).sum + rest) := by
  refine ⟨inside, le_add_of_nonneg_right begun, ?_⟩
  rw [List.sum_take_succ lengths i inside]
  exact add_lt_add_of_le_of_lt le_rfl short

theorem covers_emod {lengths : List ℤ} {t : ℤ} (positive : ∀ d ∈ lengths, 0 < d) (here : Covers lengths i t)
    (rounds : ℤ) : Covers lengths i ((rounds * lengths.sum + t) % lengths.sum) := by
  have start : 0 ≤ (lengths.take i).sum := List.sum_nonneg fun d member =>
    (positive d (List.mem_of_mem_take member)).le
  rw [add_comm, Int.add_mul_emod_self_right, Int.emod_eq_of_lt (start.trans here.2.1) (here.lt_sum positive)]
  exact here

end Lib.Timeline
