import AoSdl.Lib.Bindings
import Mathlib.Algebra.BigOperators.Group.List.Basic
import Mathlib.Tactic.Abel

/-! Sums of weights over the bindings of a finite function: a sum does not depend on the listing, and
one changed binding changes it by the difference of two weights. -/
namespace Lib.Bindings

variable {K V W M : Type*} [AddCommGroup M] (weight : V → M)
  {f : K → Option V} {l l' : List (K × V)}

def total (bindings : List (K × V)) : M := (bindings.map fun e => weight e.2).sum

/-- What one key adds to the sum. -/
def share (v : Option V) : M := v.elim 0 weight

@[simp] theorem share_none : share weight none = 0 := rfl

@[simp] theorem share_some (v : V) : share weight (some v) = weight v := rfl

@[simp] theorem total_cons (k : K) (v : V) (l : List (K × V)) :
    total weight ((k, v) :: l) = weight v + total weight l := by simp [total]

theorem total_perm (perm : l.Perm l') : total weight l = total weight l' := (perm.map _).sum_eq

theorem Lists.map (lists : Lists f l) (g : V → W) :
    Lists (fun k => (f k).map g) (l.map fun e => (e.1, g e.2)) := by
  constructor
  · intro k w
    rw [List.mem_map, Option.map_eq_some_iff]
    constructor
    · rintro ⟨⟨q, v⟩, member, same⟩
      cases same
      exact ⟨v, (lists.mem q v).mp member, rfl⟩
    · rintro ⟨v, bound, rfl⟩
      exact ⟨(k, v), (lists.mem k v).mpr bound, rfl⟩
  · have keys : (l.map fun e => (e.1, g e.2)).map Prod.fst = l.map Prod.fst := by
      rw [List.map_map]
      rfl
    rw [keys]
    exact lists.nodup

/-- A sum of weights that depend on a part of the values only. -/
theorem Lists.total_congr (weight : W → M) {V' : Type*} {f' : K → Option V'} {l' : List (K × V')}
    {g : V → W} {g' : V' → W} (lists : Lists f l) (lists' : Lists f' l')
    (same : ∀ k, (f k).map g = (f' k).map g') :
    total (weight ∘ g) l = total (weight ∘ g') l' := by
  have mapped := lists.map g
  rw [funext same] at mapped
  have perm := mapped.perm (lists'.map g')
  have sums := total_perm weight perm
  rw [total, total, List.map_map, List.map_map] at sums
  exact sums

variable [DecidableEq K]

theorem Lists.cons (lists : Lists f l) {k : K} (fresh : f k = none) (v : V) :
    Lists (Function.update f k (some v)) ((k, v) :: l) := by
  refine ⟨fun q u => ?_, ?_⟩
  · rw [List.mem_cons, Function.update_apply, lists.mem]
    split
    · next same =>
      subst same
      simp [fresh, eq_comm]
    · next other => simp [other]
  · refine List.nodup_cons.mpr ⟨fun member => ?_, lists.nodup⟩
    have bound := (lists.mem_keys k).mp member
    rw [fresh] at bound
    cases bound

theorem Lists.without (lists : Lists f l) (k : K) :
    Lists (Function.update f k none) (l.filter (·.1 ≠ k)) := by
  refine ⟨fun q u => ?_, lists.nodup.sublist (List.filter_sublist.map _)⟩
  rw [List.mem_filter, lists.mem, Function.update_apply]
  split
  · next same => simp [same]
  · next other => simp [other]

theorem Lists.total_erase {k : K} (lists : Lists f l) (lists' : Lists (Function.update f k none) l') :
    total weight l' = total weight l - share weight (f k) := by
  cases bound : f k with
  | none =>
    have same : Function.update f k none = f := by rw [← bound, Function.update_eq_self]
    rw [total_perm weight ((same ▸ lists').perm lists), share_none, sub_zero]
  | some v =>
    have back : Function.update (Function.update f k none) k (some v) = f := by
      rw [Function.update_idem, ← bound, Function.update_eq_self]
    have grown := lists'.cons (Function.update_self k none f) v
    rw [total_perm weight (lists.perm (back ▸ grown)), total_cons, share_some, add_sub_cancel_left]

theorem Lists.total_set {k : K} {v : V} (lists : Lists f l)
    (lists' : Lists (Function.update f k (some v)) l') :
    total weight l' = total weight l - share weight (f k) + weight v := by
  have left := lists.without k
  have grown := left.cons (Function.update_self k none f) v
  rw [Function.update_idem] at grown
  rw [total_perm weight (lists'.perm grown), total_cons, lists.total_erase weight left]
  abel

end Lib.Bindings
