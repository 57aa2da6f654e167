import Mathlib.Order.Nat

/-! A server that takes one job at each time: the jobs stand in a line, each with the time from which it
may be taken, and the server looks at the first one only. -/
namespace Lib.Service

/-- The line after time `t`. -/
def serve (t : ℕ) : List ℕ → List ℕ
  | [] => []
  | r :: line => if r ≤ t then line else r :: line

/-- There is somebody to take at time `t`. -/
def Due (t : ℕ) (line : List ℕ) : Prop := ∃ r ∈ line.head?, r ≤ t

/-- The line after the `n` times that follow `t`. -/
def served (t : ℕ) : ℕ → List ℕ → List ℕ
  | 0, line => line
  | n + 1, line => served (t + 1) n (serve (t + 1) line)

/-- How many jobs may not be taken before time `k`. -/
def since (k : ℕ) (line : List ℕ) : ℕ := line.countP (k ≤ ·)

@[simp] theorem serve_nil (t : ℕ) : serve t [] = [] := rfl

theorem serve_cons_of_le {t r : ℕ} (due : r ≤ t) (line : List ℕ) : serve t (r :: line) = line := if_pos due

theorem serve_cons_of_lt {t r : ℕ} (early : t < r) (line : List ℕ) : serve t (r :: line) = r :: line :=
  if_neg (Nat.not_le_of_lt early)

theorem serve_sublist (t : ℕ) (line : List ℕ) : (serve t line).Sublist line := by
  cases line with
  | nil => exact .slnil
  | cons r line =>
    rcases Nat.lt_or_ge t r with early | due
    · exact (serve_cons_of_lt early line).symm ▸ .refl (r :: line)
    · rw [serve_cons_of_le due]
      exact List.sublist_cons_self r line

theorem due_cons {t r : ℕ} {line : List ℕ} : Due t (r :: line) ↔ r ≤ t := by simp [Due]

theorem not_due_nil (t : ℕ) : ¬Due t [] := by simp [Due]

theorem serve_of_not_due {t : ℕ} {line : List ℕ} (none : ¬Due t line) : serve t line = line := by
  cases line with
  | nil => rfl
  | cons r line => exact serve_cons_of_lt (Nat.lt_of_not_le fun due => none (due_cons.mpr due)) line

theorem length_serve_of_due {t : ℕ} {line : List ℕ} (due : Due t line) : (serve t line).length + 1 = line.length := by
  cases line with
  | nil => exact absurd due (not_due_nil t)
  | cons r line => rw [serve_cons_of_le (due_cons.mp due), List.length_cons]

/-- When everybody may be taken, there is somebody to take unless the line is empty. -/
theorem due_iff_ne_nil {t : ℕ} {line : List ℕ} (all : ∀ r ∈ line, r ≤ t) : Due t line ↔ line ≠ [] := by
  cases line with
  | nil => simp [Due]
  | cons r line => simpa [due_cons] using all r (List.mem_cons_self ..)

theorem since_le_length (k : ℕ) (line : List ℕ) : since k line ≤ line.length := List.countP_le_length

@[simp] theorem since_nil (k : ℕ) : since k [] = 0 := rfl

@[simp] theorem since_zero (line : List ℕ) : since 0 line = line.length := by simp [since]

theorem since_cons_of_lt {k r : ℕ} (before : r < k) (line : List ℕ) : since k (r :: line) = since k line :=
  List.countP_cons_of_neg (by simpa using before)

theorem since_eq_length {k : ℕ} {line : List ℕ} (all : ∀ r ∈ line, k ≤ r) : since k line = line.length :=
  List.countP_eq_length.mpr (by simpa using all)

/-- No more jobs wait for a time or a later one than there are times left for them, of the `n` that follow
`t`. -/
def Fits (t n : ℕ) (line : List ℕ) : Prop := ∀ k ≤ t + n + 1, since k line + max k (t + 1) ≤ t + n + 1

theorem fits_zero {t : ℕ} {line : List ℕ} : Fits t 0 line ↔ line = [] := by
  constructor
  · intro fits
    have none := fits 0 (Nat.zero_le _)
    rw [since_zero] at none
    exact List.length_eq_zero_iff.mp (by omega)
  · rintro rfl k within
    rw [since_nil]
    omega

theorem fits_nil (t n : ℕ) : Fits t n [] := fun k within => by
  rw [since_nil]
  omega

/-- A line that all waits for later may lose a time. -/
theorem fits_succ_of_early {t n : ℕ} {line : List ℕ} (early : ∀ r ∈ line, t + 2 ≤ r) :
    Fits t (n + 1) line ↔ Fits (t + 1) n line := by
  have whole := since_eq_length early
  constructor
  · intro fits k within
    rcases Nat.lt_or_ge k (t + 2) with before | later
    · have := since_le_length k line
      have := fits (t + 2) (by omega)
      omega
    · have := fits k (by omega)
      omega
  · intro fits k within
    have := fits k (by omega)
    omega

/-- A line loses a time with its first job. -/
theorem fits_succ_cons_of_due {t n r : ℕ} {line : List ℕ} (due : r ≤ t + 1) :
    Fits t (n + 1) (r :: line) ↔ Fits (t + 1) n line := by
  constructor
  · intro fits k within
    rcases Nat.lt_or_ge k (t + 2) with before | later
    · have := since_le_length k line
      have all := fits 0 (Nat.zero_le _)
      rw [since_zero, List.length_cons] at all
      omega
    · have := fits k (by omega)
      rw [since_cons_of_lt (by omega)] at this
      omega
  · intro fits k within
    rcases Nat.lt_or_ge k (t + 2) with before | later
    · have := since_le_length k (r :: line)
      have all := fits 0 (Nat.zero_le _)
      rw [since_zero] at all
      rw [List.length_cons] at this
      omega
    · have := fits k (by omega)
      rw [since_cons_of_lt (by omega)]
      omega

theorem fits_serve {t n : ℕ} {line : List ℕ} (sorted : line.Pairwise (· ≤ ·)) :
    Fits (t + 1) n (serve (t + 1) line) ↔ Fits t (n + 1) line := by
  cases line with
  | nil => exact iff_of_true (fits_nil (t + 1) n) (fits_nil t (n + 1))
  | cons r line =>
    rcases Nat.lt_or_ge (t + 1) r with early | due
    · rw [serve_cons_of_lt early]
      apply (fits_succ_of_early _).symm
      intro r' member
      rcases List.mem_cons.mp member with rfl | behind
      · exact early
      · exact Nat.le_trans early (List.rel_of_pairwise_cons sorted behind)
    · rw [serve_cons_of_le due]
      exact (fits_succ_cons_of_due due).symm

/-- Nobody is left after `n` times exactly when the line fits them. -/
theorem served_eq_nil_iff (t n : ℕ) (line : List ℕ) (sorted : line.Pairwise (· ≤ ·)) :
    served t n line = [] ↔ Fits t n line := by
  induction n generalizing t line with
  | zero => exact fits_zero.symm
  | succ n ih => exact (ih (t + 1) _ (sorted.sublist (serve_sublist _ _))).trans (fits_serve sorted)

end Lib.Service
