import Mathlib.Tactic.Common

/-! Tables of three indices in one list, row by row, and the loops that fill them. -/
namespace Lib.RowMajor

/-- Rows of one length, each of the others behind the rows before it. -/
theorem take_drop_flatMap {ι α : Type*} {row : ι → List α} {k : ℕ} (size : ∀ i, (row i).length = k) {is : List ι}
    {n : ℕ} {i : ι} (here : is[n]? = some i) : ((is.flatMap row).drop (n * k)).take k = row i := by
  induction is generalizing n with
  | nil => cases here
  | cons i' is ih =>
    cases n with
    | zero =>
      obtain rfl := Option.some.inj here
      rw [Nat.zero_mul, List.drop_zero, List.flatMap_cons, List.take_left' (size i')]
    | succ n =>
      rw [Nat.succ_mul, Nat.add_comm, ← List.drop_drop, List.flatMap_cons, List.drop_left' (size i')]
      exact ih here

theorem length_flatMap {ι α : Type*} {row : ι → List α} {k : ℕ} (size : ∀ i, (row i).length = k) (is : List ι) :
    (is.flatMap row).length = is.length * k := by
  induction is with
  | nil => exact (Nat.zero_mul k).symm
  | cons i is ih => rw [List.flatMap_cons, List.length_append, ih, size, List.length_cons, Nat.succ_mul, Nat.add_comm]

section Place

variable {A B C i j k : ℕ}

/-- The place of an entry. -/
def place (B C i j k : ℕ) : ℕ := (i * B + j) * C + k

theorem row_lt (here : i < A) (row : j < B) : i * B + j < A * B := by
  calc i * B + j < i * B + B := Nat.add_lt_add_left row _
    _ = (i + 1) * B := (Nat.succ_mul i B).symm
    _ ≤ A * B := Nat.mul_le_mul_right B here

theorem place_lt (here : i < A) (row : j < B) (column : k < C) : place B C i j k < A * B * C :=
  row_lt (row_lt here row) column

theorem row_inj {i' j' : ℕ} (row : j < B) (row' : j' < B) (same : i * B + j = i' * B + j') : i = i' ∧ j = j' := by
  have quotient (i j : ℕ) (row : j < B) : (i * B + j) / B = i := by
    rw [Nat.mul_comm, Nat.mul_add_div (Nat.zero_lt_of_lt row), Nat.div_eq_of_lt row, Nat.add_zero]
  have first : i = i' := by rw [← quotient i j row, same, quotient i' j' row']
  subst first
  exact ⟨rfl, Nat.add_left_cancel same⟩

theorem place_inj {i' j' k' : ℕ} (row : j < B) (row' : j' < B) (column : k < C) (column' : k' < C)
    (same : place B C i j k = place B C i' j' k') : i = i' ∧ j = j' ∧ k = k' := by
  obtain ⟨rows, columns⟩ := row_inj column column' same
  obtain ⟨first, second⟩ := row_inj row row' rows
  exact ⟨first, second, columns⟩

end Place

section Fill

variable {ι α : Type} (at_ : ι → ℕ) (value : ι → α)

/-- Values that are written one after another. -/
def fill (a : List α) (ps : List ι) : List α := ps.foldl (fun a p => a.set (at_ p) (value p)) a

variable {at_ value} {a : List α} {ps : List ι}

@[simp] theorem length_fill : (fill at_ value a ps).length = a.length := by
  induction ps generalizing a with
  | nil => rfl
  | cons p ps ih => rw [fill, List.foldl_cons, ← fill, ih, List.length_set]

/-- A place keeps its value when no other is written there. -/
theorem fill_keeps {n : ℕ} {v : α} (there : a[n]? = some v) (others : ∀ p ∈ ps, at_ p = n → value p = v) :
    (fill at_ value a ps)[n]? = some v := by
  induction ps generalizing a with
  | nil => exact there
  | cons p ps ih =>
    obtain ⟨here, later⟩ := List.forall_mem_cons.mp others
    rw [fill, List.foldl_cons, ← fill]
    refine ih ?_ later
    by_cases same : at_ p = n
    · have inside : n < a.length := (List.getElem?_eq_some_iff.mp there).1
      rw [same, List.getElem?_set_self inside, here same]
    · rw [List.getElem?_set_ne same, there]

theorem fill_writes {p : ι} (member : p ∈ ps) (inside : at_ p < a.length)
    (once : ∀ q ∈ ps, at_ q = at_ p → value q = value p) : (fill at_ value a ps)[at_ p]? = some (value p) := by
  induction ps generalizing a with
  | nil => exact absurd member List.not_mem_nil
  | cons q ps ih =>
    obtain ⟨_, later⟩ := List.forall_mem_cons.mp once
    rw [fill, List.foldl_cons, ← fill]
    obtain rfl | member := List.mem_cons.mp member
    · exact fill_keeps (List.getElem?_set_self inside) later
    · exact ih member (by rwa [List.length_set]) later

end Fill

section Loops

variable {α : Type}

/-- The rounds of three loops. -/
def rounds (A B C : ℕ) : List (ℕ × ℕ × ℕ) :=
  (List.range A).flatMap fun i => (List.range B).flatMap fun j => (List.range C).map fun k => (i, j, k)

theorem mem_rounds {A B C i j k : ℕ} : (i, j, k) ∈ rounds A B C ↔ i < A ∧ j < B ∧ k < C := by
  simp [rounds]

/-- Three loops are one over their rounds. -/
theorem loops_fill {A B C : ℕ} (at_ : ℕ → ℕ → ℕ → ℕ) (value : ℕ → ℕ → ℕ → α) (a : List α) :
    (List.range A).foldl (fun a i => (List.range B).foldl (fun a j => (List.range C).foldl
      (fun a k => a.set (at_ i j k) (value i j k)) a) a) a =
    fill (fun p => at_ p.1 p.2.1 p.2.2) (fun p => value p.1 p.2.1 p.2.2) a (rounds A B C) := by
  simp only [fill, rounds, List.foldl_flatMap, List.foldl_map]

end Loops

end Lib.RowMajor
