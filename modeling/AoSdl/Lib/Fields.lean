import Mathlib.Algebra.BigOperators.Group.List.Basic
import Mathlib.Algebra.GroupWithZero.Nat
import Mathlib.Data.List.Basic
import Mathlib.Data.List.Infix
import Mathlib.Tactic.Common

/-! Fields joined by a separator. Which texts come back when the joined text is split, and
where a delimiter that starts with the separator can occur in it. -/
namespace Lib.Fields

variable {α : Type*} {a b : α}

def join (a : α) (head : List α) (fields : List (List α)) : List α :=
  [a].intercalate (head :: fields)

@[simp] theorem join_nil (head : List α) : join a head [] = head := by simp [join]

theorem join_cons (head f : List α) (fields : List (List α)) :
    join a head (f :: fields) = head ++ a :: join a f fields := by
  simp [join, List.intercalate_cons_cons]

/-- A delimiter that starts with the separator occurs only where a field starts with its
second letter. -/
theorem delimiter_join (differ : a ≠ b) {head : List α} {fields : List (List α)} (clean : a ∉ head)
    (each : ∀ f ∈ fields, a ∉ f) :
    [a, b] <:+: join a head fields ↔ ∃ f ∈ fields, f.head? = some b := by
  induction fields generalizing head with
  | nil =>
    simp only [join_nil, List.not_mem_nil, false_and, exists_false, iff_false]
    exact fun occurs => clean (occurs.subset (by simp))
  | cons f fields ih =>
    have later := ih (each f List.mem_cons_self) fun g member => each g (List.mem_cons_of_mem f member)
    rw [join_cons, List.exists_mem_cons_iff, ← later]
    have skip : [a, b] <:+: head ++ a :: join a f fields ↔ [a, b] <:+: a :: join a f fields := by
      clear later ih each
      induction head with
      | nil => rfl
      | cons c head ih =>
        rw [List.mem_cons, not_or] at clean
        rw [List.cons_append, List.infix_cons_iff, List.cons_prefix_cons, ih clean.2]
        simp [clean.1]
    have starts : [b] <+: join a f fields ↔ f.head? = some b := by
      cases f with
      | nil => cases fields <;> simp [join_cons, Ne.symm differ]
      | cons c f => cases fields <;> simp [join_cons, List.cons_prefix_cons, eq_comm]
    rw [skip, List.infix_cons_iff, List.cons_prefix_cons, starts]
    simp

variable [DecidableEq α]

theorem splitOn_length (s : List α) : (s.splitOn a).length = s.count a + 1 := by
  induction s with
  | nil => simp
  | cons c s ih =>
    rw [List.splitOn_cons_eq_if_modifyHead]
    split
    · next same => simp_all
    · next other => simp_all

theorem count_join (head : List α) (fields : List (List α)) :
    (join a head fields).count a =
      head.count a + fields.length + (fields.map (List.count a)).sum := by
  induction fields generalizing head with
  | nil => simp
  | cons f fields ih =>
    rw [join_cons, List.count_append, List.count_cons_self, ih, List.map_cons, List.sum_cons,
      List.length_cons]
    omega

/-- Splitting gives as many parts as were joined exactly if no part has the separator. -/
theorem splitOn_join_length {head : List α} {fields : List (List α)} :
    ((join a head fields).splitOn a).length = fields.length + 1 ↔
      a ∉ head ∧ ∀ f ∈ fields, a ∉ f := by
  have each : (fields.map (List.count a)).sum = 0 ↔ ∀ f ∈ fields, a ∉ f := by
    simp [List.sum_eq_zero_iff_forall_eq_nat, List.count_eq_zero]
  rw [splitOn_length, count_join, ← each, ← List.count_eq_zero]
  omega

theorem splitOn_join {head : List α} {fields : List (List α)} (clean : a ∉ head)
    (each : ∀ f ∈ fields, a ∉ f) : (join a head fields).splitOn a = head :: fields := by
  refine List.splitOn_intercalate a (fun l inside => ?_) (List.cons_ne_nil _ _)
  rcases List.mem_cons.mp inside with rfl | member
  · exact clean
  · exact each l member

/-- Every text is a join of parts without the separator. -/
theorem exists_join (a : α) (s : List α) : ∃ head fields, s = join a head fields ∧ a ∉ head ∧ ∀ f ∈ fields, a ∉ f := by
  obtain ⟨head, fields, shape⟩ := List.exists_cons_of_ne_nil (List.splitOn_ne_nil a s)
  have text : s = join a head fields := by rw [join, ← shape, List.intercalate_splitOn]
  refine ⟨head, fields, text, splitOn_join_length.mp ?_⟩
  rw [← text, shape, List.length_cons]

/-- The text before the first separator and the text behind it. -/
def splitFirst (a : α) : List α → Option (List α × List α)
  | [] => none
  | c :: s => if c = a then some ([], s) else (splitFirst a s).map fun p => (c :: p.1, p.2)

theorem splitFirst_none {s : List α} : splitFirst a s = none ↔ a ∉ s := by
  induction s with
  | nil => simp [splitFirst]
  | cons c s ih =>
    rw [splitFirst]
    split
    · next same => simp [same]
    · next other => rw [Option.map_eq_none_iff, ih, List.mem_cons, not_or, and_iff_right (Ne.symm other)]

theorem splitFirst_append {p : List α} (clean : a ∉ p) (r : List α) :
    splitFirst a (p ++ a :: r) = some (p, r) := by
  induction p with
  | nil => simp [splitFirst]
  | cons c p ih =>
    rw [List.mem_cons, not_or] at clean
    rw [List.cons_append, splitFirst, if_neg (Ne.symm clean.1), ih clean.2]
    rfl

theorem splitFirst_some {s p r : List α} (split : splitFirst a s = some (p, r)) :
    s = p ++ a :: r ∧ a ∉ p := by
  induction s generalizing p with
  | nil => simp [splitFirst] at split
  | cons c s ih =>
    rw [splitFirst] at split
    by_cases same : c = a
    · rw [if_pos same] at split
      cases split
      exact ⟨by rw [same]; rfl, List.not_mem_nil⟩
    · rw [if_neg same, Option.map_eq_some_iff] at split
      obtain ⟨⟨q, t⟩, inner, shape⟩ := split
      cases shape
      obtain ⟨text, clean⟩ := ih inner
      exact ⟨by rw [text]; rfl, by simp [clean, Ne.symm same]⟩

/-- Both parts together have the other letters of the text. -/
theorem count_splitFirst {c : α} (other : c ≠ a) {s p r : List α} (split : splitFirst a s = some (p, r)) :
    p.count c + r.count c = s.count c := by
  rw [(splitFirst_some split).1, List.count_append, List.count_cons_of_ne other.symm]

theorem sum_count_splitOn {c : α} (other : c ≠ a) (s : List α) :
    ((s.splitOn a).map (List.count c)).sum = s.count c := by
  induction s with
  | nil => simp
  | cons d s ih =>
    obtain ⟨part, parts, shape⟩ := List.exists_cons_of_ne_nil (List.splitOn_ne_nil a s)
    rw [List.splitOn_cons_eq_if_modifyHead]
    rw [shape, List.map_cons, List.sum_cons] at ih
    split
    · next same =>
      rw [List.count_cons_of_ne fun here => other (here.symm.trans (beq_iff_eq.mp same)), ← ih, shape]
      simp
    · simp only [shape, List.modifyHead_cons, List.map_cons, List.sum_cons, List.count_cons]
      omega

/-- A text has one first separator. -/
theorem append_cons_inj {p q r t : List α} (clean : a ∉ p) (clean' : a ∉ q) (same : p ++ a :: r = q ++ a :: t) :
    p = q ∧ r = t := by
  have split := splitFirst_append clean r
  rw [same, splitFirst_append clean'] at split
  obtain ⟨front, rest⟩ := Prod.mk.inj (Option.some.inj split)
  exact ⟨front.symm, rest.symm⟩

/-- Two texts before the first separator are the same. -/
theorem eq_of_prefix {p q r : List α} (clean : a ∉ p) (clean' : a ∉ q)
    (starts : p ++ [a] <+: q ++ a :: r) : p = q := by
  obtain ⟨t, same⟩ := starts
  rw [List.append_assoc, List.singleton_append] at same
  exact (append_cons_inj clean clean' same).1

end Lib.Fields
