import Mathlib.Data.List.Basic
import Mathlib.Order.Lattice

/-! Maps as lists of bindings in the order of their keys: a key is set in place, and what the list says about the
keys determines it. -/
namespace Lib.SortedMap

variable {K V : Type*} [LinearOrder K]

/-- The bindings stand in the order of their keys, each key once. -/
def Sorted (m : List (K × V)) : Prop := m.Pairwise (·.1 < ·.1)

instance (m : List (K × V)) : Decidable (Sorted m) := inferInstanceAs (Decidable (m.Pairwise (·.1 < ·.1)))

/-- The map with the key bound to the value, whether it was bound before or not. -/
def put (k : K) (v : V) : List (K × V) → List (K × V)
  | [] => [(k, v)]
  | b :: m => if k < b.1 then (k, v) :: b :: m else if k = b.1 then (k, v) :: m else b :: put k v m

/-- The value of a key. -/
def find : List (K × V) → K → Option V
  | [], _ => none
  | b :: m, k => if k = b.1 then some b.2 else find m k

variable {m m' : List (K × V)}

theorem mem_put {k : K} {v : V} {b : K × V} (member : b ∈ put k v m) : b = (k, v) ∨ b ∈ m := by
  induction m with
  | nil => exact .inl (List.mem_singleton.mp member)
  | cons c m ih =>
    rw [put] at member
    split at member
    · exact List.mem_cons.mp member
    · split at member
      · exact (List.mem_cons.mp member).imp_right (List.mem_cons_of_mem c)
      · rcases List.mem_cons.mp member with rfl | later
        · exact .inr List.mem_cons_self
        · exact (ih later).imp_right (List.mem_cons_of_mem c)

theorem Sorted.put (sorted : Sorted m) (k : K) (v : V) : Sorted (put k v m) := by
  induction m with
  | nil => exact List.pairwise_singleton ..
  | cons b m ih =>
    obtain ⟨first, rest⟩ := List.pairwise_cons.mp sorted
    rw [SortedMap.put]
    split
    · next less =>
      apply List.pairwise_cons.mpr
      refine ⟨List.forall_mem_cons.mpr ⟨less, fun c later => ?_⟩, sorted⟩
      exact lt_trans less (first c later)
    · split
      · next same =>
        apply List.pairwise_cons.mpr
        refine ⟨fun c later => ?_, rest⟩
        rw [same]
        exact first c later
      · next greater other =>
        apply List.pairwise_cons.mpr
        refine ⟨fun c member => ?_, ih rest⟩
        rcases mem_put member with rfl | later
        · exact lt_of_le_of_ne (le_of_not_gt greater) (Ne.symm other)
        · exact first c later

theorem find_put (k : K) (v : V) (q : K) : find (put k v m) q = if q = k then some v else find m q := by
  induction m with
  | nil => rfl
  | cons b m ih =>
    obtain ⟨l, w⟩ := b
    rw [put]
    split
    · rfl
    · split
      · next same =>
        obtain rfl : k = l := same
        simp only [find]
        split
        · rfl
        · rfl
      · next other =>
        simp only [find, ih]
        by_cases here : q = l
        · have apart : q ≠ k := fun same => other (same.symm.trans here)
          rw [if_pos here, if_neg apart, if_pos here]
        · rw [if_neg here, if_neg here]

theorem Sorted.mem_iff (sorted : Sorted m) (k : K) (v : V) : (k, v) ∈ m ↔ find m k = some v := by
  induction m with
  | nil => exact iff_of_false List.not_mem_nil (fun found => nomatch found)
  | cons b m ih =>
    obtain ⟨l, w⟩ := b
    obtain ⟨first, rest⟩ := List.pairwise_cons.mp sorted
    rw [List.mem_cons, find, ih rest]
    by_cases here : k = l
    · subst here
      have absent : find m k ≠ some v := fun found => lt_irrefl k (first (k, v) ((ih rest).mpr found))
      simp [absent, eq_comm]
    · simp [here]

theorem Sorted.nodup (sorted : Sorted m) : m.Nodup := by
  refine List.Pairwise.imp (fun {b c} less => ?_) sorted
  rintro rfl
  exact lt_irrefl b.1 less

/-- A sorted map is what it says about the keys. -/
theorem Sorted.ext (sorted : Sorted m) (sorted' : Sorted m') (same : ∀ k, find m k = find m' k) : m = m' := by
  have perm : m.Perm m' := by
    apply (List.perm_ext_iff_of_nodup sorted.nodup sorted'.nodup).mpr
    rintro ⟨k, v⟩
    rw [sorted.mem_iff, sorted'.mem_iff, same]
  apply perm.eq_of_pairwise (fun b c _ _ less greater => ?_) sorted sorted'
  exact absurd (lt_trans less greater) (lt_irrefl b.1)

section Lookups

theorem find_eq_none_iff (k : K) : find m k = none ↔ k ∉ m.map Prod.fst := by
  induction m with
  | nil => simp [find]
  | cons b m ih =>
    rw [find, List.map_cons, List.mem_cons, not_or, ← ih]
    by_cases here : k = b.1
    · simp [here]
    · simp [here]

/-- The bindings of a key, where each key is bound once. -/
theorem filter_key (nodup : (m.map Prod.fst).Nodup) (k : K) :
    m.filter (fun b => b.1 = k) = ((find m k).map fun v => (k, v)).toList := by
  induction m with
  | nil => rfl
  | cons b m ih =>
    obtain ⟨fresh, rest⟩ := List.nodup_cons.mp nodup
    rw [find]
    by_cases here : k = b.1
    · have absent := (find_eq_none_iff b.1).mpr fresh
      subst here
      simp [ih rest, absent]
    · have other : b.1 ≠ k := Ne.symm here
      simp [other, here, ih rest]

/-- A table of a function. -/
theorem find_map (f : K → V) (keys : List K) (k : K) :
    find (keys.map fun k => (k, f k)) k = if k ∈ keys then some (f k) else none := by
  induction keys with
  | nil => rfl
  | cons l keys ih =>
    rw [List.map_cons, find, ih]
    by_cases here : k = l
    · simp [here]
    · simp [here]

end Lookups

section Folds

variable {B : Type*} (key : B → K) (value : B → V)

theorem sorted_foldl (l : List B) (sorted : Sorted m) :
    Sorted (l.foldl (fun m b => put (key b) (value b) m) m) := by
  induction l generalizing m with
  | nil => exact sorted
  | cons b l ih => exact ih (sorted.put (key b) (value b))

/-- The last binding of a key is the one that stays. -/
theorem find_foldl (l : List B) (q : K) : find (l.foldl (fun m b => put (key b) (value b) m) m) q =
    (((l.filter fun b => key b = q).getLast?).map value).or (find m q) := by
  induction l generalizing m with
  | nil => rfl
  | cons b l ih =>
    rw [List.foldl_cons, ih, find_put]
    by_cases here : key b = q
    · have shape : (b :: l).filter (fun b => key b = q) = b :: l.filter fun b => key b = q := by simp [here]
      rw [shape, List.getLast?_cons, if_pos here.symm]
      cases (l.filter fun b => key b = q).getLast? with
      | none => rfl
      | some c => rfl
    · have shape : (b :: l).filter (fun b => key b = q) = l.filter fun b => key b = q := by simp [here]
      rw [shape, if_neg (Ne.symm here)]

end Folds

end Lib.SortedMap
