import Mathlib.Algebra.Order.Field.Basic
import Mathlib.Algebra.BigOperators.Group.List.Basic
import Mathlib.Tactic.Linarith
import Mathlib.Tactic.Ring

/-! Token buckets. A bucket is full at first, fills at a constant rate up to its burst and
pays for the charges it admits. What it admits in a stretch of time is bounded. -/
namespace Lib.TokenBucket

variable {F : Type*} [Field F] [LinearOrder F]

structure Rule (F : Type*) where
  rate : F
  burst : F

structure Charge (F : Type*) where
  time : F
  cost : F

/-- The tokens at a time, after charges of which the latest stands first. -/
def level (rule : Rule F) : List (Charge F) → F → F
  | [], _ => rule.burst
  | c :: earlier, t => min rule.burst (level rule earlier c.time - c.cost + rule.rate * (t - c.time))

/-- Every charge was paid for, and times do not decrease. -/
def Admitted (rule : Rule F) : List (Charge F) → Prop
  | [] => True
  | c :: earlier =>
    c.cost ≤ level rule earlier c.time ∧ (∀ e ∈ earlier, e.time ≤ c.time) ∧ Admitted rule earlier

/-- The total cost of the charges from one time to another. -/
def spent (charges : List (Charge F)) (start stop : F) : F :=
  ((charges.filter fun c => start ≤ c.time && c.time ≤ stop).map (·.cost)).sum

variable {rule : Rule F} {charges : List (Charge F)} {c : Charge F} {t t' start stop : F}

theorem level_le : level rule charges t ≤ rule.burst := by
  cases charges with
  | nil => exact le_refl _
  | cons c earlier => exact min_le_left _ _

theorem spent_cons : spent (c :: charges) start stop =
    (if start ≤ c.time ∧ c.time ≤ stop then c.cost else 0) + spent charges start stop := by
  unfold spent
  by_cases inside : start ≤ c.time ∧ c.time ≤ stop
  · rw [List.filter_cons_of_pos (by simpa using inside), if_pos inside, List.map_cons, List.sum_cons]
  · rw [List.filter_cons_of_neg (by simpa using inside), if_neg inside, zero_add]

theorem spent_eq_zero (before : ∀ c ∈ charges, c.time < start) : spent charges start stop = 0 := by
  unfold spent
  rw [List.filter_eq_nil_iff.mpr, List.map_nil, List.sum_nil]
  intro c member
  have := before c member
  simp [not_le.mpr this]

variable [IsStrictOrderedRing F]

theorem level_later (filling : 0 ≤ rule.rate) (later : t ≤ t') :
    level rule charges t' = min rule.burst (level rule charges t + rule.rate * (t' - t)) := by
  have gain : 0 ≤ rule.rate * (t' - t) := mul_nonneg filling (sub_nonneg.mpr later)
  cases charges with
  | nil => exact (min_eq_left (le_add_of_nonneg_right gain)).symm
  | cons c earlier =>
    have split : rule.rate * (t' - c.time) = rule.rate * (t - c.time) + rule.rate * (t' - t) := by ring
    rw [level, level, split, ← add_assoc, min_add, ← min_assoc,
      min_eq_left (le_add_of_nonneg_right gain)]

theorem level_nonneg (full : 0 ≤ rule.burst) (filling : 0 ≤ rule.rate)
    (admitted : Admitted rule charges) (later : ∀ c ∈ charges, c.time ≤ t) :
    0 ≤ level rule charges t := by
  cases charges with
  | nil => exact full
  | cons c earlier =>
    have gain : 0 ≤ rule.rate * (t - c.time) :=
      mul_nonneg filling (sub_nonneg.mpr (later c List.mem_cons_self))
    exact le_min full (by linarith [admitted.1])

/-- What was spent since a time and what is left are paid for by a full bucket and its gain. -/
theorem spent_add_level_le (filling : 0 ≤ rule.rate) (admitted : Admitted rule charges)
    (later : ∀ c ∈ charges, c.time ≤ t) (ordered : start ≤ t) (reach : t ≤ stop) :
    spent charges start stop + level rule charges t ≤ rule.burst + rule.rate * (t - start) := by
  induction charges generalizing t with
  | nil =>
    have gain : 0 ≤ rule.rate * (t - start) := mul_nonneg filling (sub_nonneg.mpr ordered)
    simpa [spent, level] using gain
  | cons c earlier ih =>
    obtain ⟨_, sorted, admitted⟩ := admitted
    have here : c.time ≤ t := later c List.mem_cons_self
    by_cases inside : start ≤ c.time
    · have before := ih admitted sorted inside (here.trans reach)
      have left : level rule (c :: earlier) t ≤
          level rule earlier c.time - c.cost + rule.rate * (t - c.time) := min_le_right _ _
      rw [spent_cons, if_pos ⟨inside, here.trans reach⟩]
      linarith
    · rw [not_le] at inside
      have none : spent (c :: earlier) start stop = 0 := by
        apply spent_eq_zero
        intro e member
        rcases List.mem_cons.mp member with rfl | old
        · exact inside
        · exact (sorted e old).trans_lt inside
      have gain : 0 ≤ rule.rate * (t - start) := mul_nonneg filling (sub_nonneg.mpr ordered)
      rw [none, zero_add]
      exact level_le.trans (le_add_of_nonneg_right gain)

/-- A bucket admits no more in a stretch of time than its burst and what it gains there. -/
theorem spent_le (full : 0 ≤ rule.burst) (filling : 0 ≤ rule.rate)
    (admitted : Admitted rule charges) (ordered : start ≤ stop) :
    spent charges start stop ≤ rule.burst + rule.rate * (stop - start) := by
  induction charges with
  | nil =>
    have gain : 0 ≤ rule.rate * (stop - start) := mul_nonneg filling (sub_nonneg.mpr ordered)
    simpa [spent] using add_nonneg full gain
  | cons c earlier ih =>
    by_cases reach : c.time ≤ stop
    · have all : ∀ e ∈ c :: earlier, e.time ≤ stop := by
        intro e member
        rcases List.mem_cons.mp member with rfl | old
        · exact reach
        · exact (admitted.2.1 e old).trans reach
      have left := level_nonneg full filling admitted all
      have bound := spent_add_level_le filling admitted all ordered (le_refl stop)
      linarith
    · rw [spent_cons, if_neg fun inside => reach inside.2, zero_add]
      exact ih admitted.2.2

end Lib.TokenBucket
