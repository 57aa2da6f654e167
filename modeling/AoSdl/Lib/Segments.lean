import AoSdl.Lib.Arrivals

/-! A text that comes in pieces: the pieces up to the first that reaches an offset, and what a reader
does that takes piece after piece off a wire. -/
namespace Lib.Arrivals

open Arrival

variable {α : Type*}

/-- The pieces up to the first that reaches the offset `m`, and the pieces behind them. -/
def upto : Nat → List (List α) → List (List α) × List (List α)
  | _, [] => ([], [])
  | m, p :: ps =>
    if m = 0 then ([], p :: ps)
    else ((p :: (upto (m - p.length) ps).1), (upto (m - p.length) ps).2)

/-- How many letters of the text have come when the offset is reached. -/
def reach (m : Nat) (ps : List (List α)) : Nat := (upto m ps).1.flatten.length

@[simp] theorem upto_zero (ps : List (List α)) : upto 0 ps = ([], ps) := by cases ps <;> rfl

@[simp] theorem upto_nil (m : Nat) : upto m ([] : List (List α)) = ([], []) := rfl

theorem upto_cons {m : Nat} (later : m ≠ 0) (p : List α) (ps : List (List α)) :
    upto m (p :: ps) = (p :: (upto (m - p.length) ps).1, (upto (m - p.length) ps).2) := if_neg later

@[simp] theorem reach_zero (ps : List (List α)) : reach 0 ps = 0 := by simp [reach]

theorem reach_cons {m : Nat} (later : m ≠ 0) (p : List α) (ps : List (List α)) :
    reach m (p :: ps) = p.length + reach (m - p.length) ps := by
  rw [reach, upto_cons later, List.flatten_cons, List.length_append, reach]

theorem upto_append (m : Nat) (ps : List (List α)) : (upto m ps).1 ++ (upto m ps).2 = ps := by
  induction ps generalizing m with
  | nil => rfl
  | cons p ps ih =>
    by_cases here : m = 0
    · rw [here, upto_zero, List.nil_append]
    · rw [upto_cons here, List.cons_append, ih]

theorem upto_flatten (m : Nat) (ps : List (List α)) :
    (upto m ps).1.flatten ++ (upto m ps).2.flatten = ps.flatten := by
  rw [← List.flatten_append, upto_append]

theorem le_reach {m : Nat} {ps : List (List α)} (enough : m ≤ ps.flatten.length) : m ≤ reach m ps := by
  induction ps generalizing m with
  | nil => exact enough
  | cons p ps ih =>
    by_cases here : m = 0
    · rw [here]
      exact Nat.zero_le _
    · rw [List.flatten_cons, List.length_append] at enough
      have rest := ih (m := m - p.length) (by omega)
      rw [reach_cons here]
      omega

theorem upto_same {m n : Nat} {ps : List (List α)} (behind : m ≤ n) (there : n ≤ reach m ps) :
    upto n ps = upto m ps := by
  induction ps generalizing m n with
  | nil => rfl
  | cons p ps ih =>
    by_cases here : m = 0
    · rw [here, reach_zero, Nat.le_zero] at there
      rw [here, there]
    · rw [reach_cons here] at there
      have later : n ≠ 0 := by omega
      rw [upto_cons here, upto_cons later, ih (m := m - p.length) (by omega) (by omega)]

theorem reach_idem {m : Nat} {ps : List (List α)} (enough : m ≤ ps.flatten.length) :
    reach (reach m ps) ps = reach m ps := by
  rw [reach, upto_same (le_reach enough) (Nat.le_refl _), reach]

/-- No end of a piece stands between an offset and where it is reached. -/
theorem reach_first {m n : Nat} {ps : List (List α)} (there : m ≤ reach n ps) :
    reach m ps ≤ reach n ps := by
  induction ps generalizing m n with
  | nil => exact Nat.le_refl _
  | cons p ps ih =>
    by_cases here : m = 0
    · rw [here, reach_zero]
      exact Nat.zero_le _
    · by_cases start : n = 0
      · rw [start, reach_zero] at there
        omega
      · rw [reach_cons start] at there
        have rest := ih (m := m - p.length) (n := n - p.length) (by omega)
        rw [reach_cons here, reach_cons start]
        omega

/-- Where an offset is reached before the text ends, the offset has come. -/
theorem le_reach_of_lt {m : Nat} {ps : List (List α)} (before : reach m ps < ps.flatten.length) :
    m ≤ reach m ps := by
  induction ps generalizing m with
  | nil => exact absurd before (Nat.not_lt_zero _)
  | cons p ps ih =>
    by_cases here : m = 0
    · rw [here]
      exact Nat.zero_le _
    · rw [reach_cons here, List.flatten_cons, List.length_append] at before
      have rest := ih (m := m - p.length) (by omega)
      rw [reach_cons here]
      omega

/-- The pieces on to a later offset. -/
theorem upto_on {m n : Nat} {ps : List (List α)} (behind : m ≤ n) (further : reach m ps ≤ n) :
    upto n ps = ((upto m ps).1 ++ (upto (n - reach m ps) (upto m ps).2).1,
      (upto (n - reach m ps) (upto m ps).2).2) := by
  induction ps generalizing m n with
  | nil => rfl
  | cons p ps ih =>
    by_cases here : m = 0
    · rw [here, reach_zero, upto_zero, Nat.sub_zero, List.nil_append]
    · have later : n ≠ 0 := by omega
      rw [reach_cons here] at further
      have rest := ih (m := m - p.length) (n := n - p.length) (by omega) (by omega)
      have size : n - reach m (p :: ps) = n - p.length - reach (m - p.length) ps := by
        rw [reach_cons here]
        omega
      rw [size, upto_cons here, upto_cons later, rest]
      rfl

/-- The pieces behind a later offset are behind it from an earlier one too. -/
theorem upto_rest {m n : Nat} {ps : List (List α)} (behind : m ≤ n) :
    (upto n ps).2 = (upto (n - reach m ps) (upto m ps).2).2 := by
  by_cases further : reach m ps ≤ n
  · rw [upto_on behind further]
  · rw [Nat.sub_eq_zero_of_le (by omega), upto_zero, upto_same behind (by omega)]

theorem reach_on {m n : Nat} {ps : List (List α)} (behind : m ≤ n) (further : reach m ps ≤ n) :
    reach n ps = reach m ps + reach (n - reach m ps) (upto m ps).2 := by
  rw [reach, upto_on behind further, List.flatten_append, List.length_append, ← reach, ← reach]

theorem reach_le {want : Nat} {ps : List (List α)} (small : ∀ p ∈ ps, p.length ≤ want) (m : Nat) :
    reach m ps ≤ m + want := by
  induction ps generalizing m with
  | nil => exact Nat.zero_le _
  | cons p ps ih =>
    by_cases here : m = 0
    · rw [here, reach_zero]
      exact Nat.zero_le _
    · have piece := small p List.mem_cons_self
      rw [reach_cons here]
      by_cases last : m ≤ p.length
      · rw [Nat.sub_eq_zero_of_le last, reach_zero]
        omega
      · have rest := ih (fun q inside => small q (List.mem_cons_of_mem p inside)) (m - p.length)
        omega

section Readers

variable {done : List α → Bool} {want : Nat}

theorem recv_piece {taken p : List α} {line : List (Arrival α)} (small : p.length ≤ want) :
    Wire.recv want ⟨taken, data p :: line⟩ = (p, ⟨taken ++ p, line⟩) := by
  simp [Wire.recv, small]

theorem recv_length (w : Wire α) : (w.recv want).2.line.length ≤ w.line.length := by
  unfold Wire.recv
  split
  · exact Nat.le_refl _
  · next line fail =>
    rw [fail]
    exact Nat.le_succ _
  · next piece line some =>
    rw [some]
    split
    · exact Nat.le_succ _
    · exact Nat.le_refl _

theorem pull_length (fuel : Nat) (s : List α) (w : Wire α) :
    (pull done (fun _ => want) (· ++ ·) fuel s w).2.line.length ≤ w.line.length := by
  induction fuel generalizing s w with
  | zero => exact Nat.le_refl _
  | succ fuel ih =>
    rw [pull]
    split
    · exact Nat.le_refl _
    · dsimp only
      split
      · exact recv_length w
      · exact Nat.le_trans (ih _ _) (recv_length w)

/-- A reader that is done when the offset is reached, and not after fewer pieces, reads up to it. -/
theorem pull_upto {ps : List (List α)} (taken : List α) (back : List (Arrival α))
    (pieces : ∀ p ∈ ps, p ≠ [] ∧ p.length ≤ want) {m fuel : Nat} {s : List α}
    (enough : size (ps.map data ++ back) < fuel)
    (before : ∀ j, reach j ps < m → done (s ++ (upto j ps).1.flatten) = false)
    (reached : done (s ++ (upto m ps).1.flatten) = true) :
    pull done (fun _ => want) (· ++ ·) fuel s ⟨taken, ps.map data ++ back⟩ =
      (s ++ (upto m ps).1.flatten,
        ⟨taken ++ (upto m ps).1.flatten, (upto m ps).2.map data ++ back⟩) := by
  obtain ⟨fuel, rfl⟩ : ∃ n, fuel = n + 1 := ⟨fuel - 1, by omega⟩
  induction ps generalizing m fuel s taken with
  | nil =>
    rw [upto_nil, List.flatten_nil, List.append_nil] at reached
    rw [pull, if_pos reached, upto_nil, List.flatten_nil, List.append_nil, List.append_nil]
  | cons p ps ih =>
    by_cases here : m = 0
    · rw [here, upto_zero, List.flatten_nil, List.append_nil] at reached
      rw [pull, if_pos reached, here, upto_zero, List.flatten_nil, List.append_nil, List.append_nil]
    · obtain ⟨filled, small⟩ := pieces p List.mem_cons_self
      have running : done s = false := by
        have start := before 0 (by rw [reach_zero]; exact Nat.pos_of_ne_zero here)
        rwa [upto_zero, List.flatten_nil, List.append_nil] at start
      simp only [List.map_cons, List.cons_append, size] at enough ⊢
      have some_letters : p.isEmpty = false := by simpa using filled
      rw [pull, if_neg (by simp [running]), recv_piece small, upto_cons here]
      simp only [some_letters, Bool.false_eq_true, if_false, List.flatten_cons]
      obtain ⟨fuel, rfl⟩ : ∃ n, fuel = n + 1 := ⟨fuel - 1, by omega⟩
      rw [upto_cons here, List.flatten_cons, ← List.append_assoc] at reached
      have later : ∀ j, reach j ps < m - p.length →
          done (s ++ p ++ (upto j ps).1.flatten) = false := by
        intro j short
        have positive : j + p.length ≠ 0 := by
          have := List.length_pos_of_ne_nil filled
          omega
        have all := before (j + p.length) (by
          rw [reach_cons positive, Nat.add_sub_cancel]
          omega)
        rwa [upto_cons positive, Nat.add_sub_cancel, List.flatten_cons, ← List.append_assoc] at all
      rw [ih _ (fun q inside => pieces q (List.mem_cons_of_mem p inside)) later reached fuel (by omega),
        List.append_assoc, List.append_assoc]

/-- A reader that is not done when the offset is reached takes more off the wire. -/
theorem pull_past {ps : List (List α)} (taken : List α) (pieces : ∀ p ∈ ps, p ≠ [] ∧ p.length ≤ want)
    {m fuel : Nat} {s : List α} (enough : size (ps.map data ++ [fails]) < fuel)
    (running : ∀ q, q <+: ps.flatten → q.length ≤ reach m ps → done (s ++ q) = false) :
    (pull done (fun _ => want) (· ++ ·) fuel s ⟨taken, ps.map data ++ [fails]⟩).2.line.length <
      ((upto m ps).2.map data ++ [fails] : List (Arrival α)).length := by
  have here : done s = false := by
    have start := running [] List.nil_prefix (Nat.zero_le _)
    rwa [List.append_nil] at start
  obtain ⟨fuel, rfl⟩ : ∃ n, fuel = n + 1 := ⟨fuel - 1, by omega⟩
  induction ps generalizing m fuel s taken with
  | nil =>
    rw [pull, if_neg (by simp [here])]
    simp [Wire.recv]
  | cons p ps ih =>
    obtain ⟨filled, small⟩ := pieces p List.mem_cons_self
    have some_letters : p.isEmpty = false := by simpa using filled
    simp only [List.map_cons, List.cons_append, size] at enough ⊢
    rw [pull, if_neg (by simp [here]), recv_piece small]
    simp only [some_letters, Bool.false_eq_true, if_false]
    by_cases first : m = 0
    · refine Nat.lt_of_le_of_lt (pull_length _ _ _) ?_
      simp [first]
    · obtain ⟨fuel, rfl⟩ : ∃ n, fuel = n + 1 := ⟨fuel - 1, by omega⟩
      have later : ∀ q, q <+: ps.flatten → q.length ≤ reach (m - p.length) ps →
          done (s ++ p ++ q) = false := by
        intro q inside short
        rw [List.append_assoc]
        refine running (p ++ q) ?_ ?_
        · rw [List.flatten_cons]
          exact (List.prefix_append_right_inj p).mpr inside
        · rw [reach_cons first, List.length_append]
          omega
      have next : done (s ++ p) = false := by
        have start := later [] List.nil_prefix (Nat.zero_le _)
        rwa [List.append_nil] at start
      rw [upto_cons first]
      exact ih _ (fun q inside => pieces q (List.mem_cons_of_mem p inside)) later next fuel (by omega)

/-- A reader that is done from an offset on reads up to it. -/
theorem gather_upto {ps : List (List α)} (taken : List α) (back : List (Arrival α))
    (pieces : ∀ p ∈ ps, p ≠ [] ∧ p.length ≤ want) {m : Nat} {s : List α}
    (threshold : ∀ q, q <+: ps.flatten → (done (s ++ q) = true ↔ m ≤ q.length))
    (enough : m ≤ ps.flatten.length) :
    gather done (fun _ => want) s ⟨taken, ps.map data ++ back⟩ =
      (s ++ (upto m ps).1.flatten,
        ⟨taken ++ (upto m ps).1.flatten, (upto m ps).2.map data ++ back⟩) := by
  have front (j : Nat) : (upto j ps).1.flatten <+: ps.flatten := ⟨_, upto_flatten j ps⟩
  apply pull_upto taken back pieces (Nat.lt_succ_self _)
  · intro j short
    refine Bool.eq_false_iff.mpr fun finished => ?_
    exact absurd ((threshold _ (front j)).mp finished) (Nat.not_le.mpr short)
  · exact (threshold _ (front m)).mpr (le_reach enough)

end Readers

end Lib.Arrivals
