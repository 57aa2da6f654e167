import Mathlib.Data.List.Nodup
import Mathlib.Data.Set.Card
import Mathlib.Logic.Function.Basic

/-! Finite partial functions and the lists of their bindings: what a listing says about
the domain, and how long it is after one binding changes. -/
namespace Lib.Bindings

variable {K V : Type*}

/-- The list has the bindings of `f`, one for each bound key. -/
structure Lists (f : K → Option V) (bindings : List (K × V)) : Prop where
  mem : ∀ k v, (k, v) ∈ bindings ↔ f k = some v
  nodup : (bindings.map Prod.fst).Nodup

variable {f : K → Option V} {l l' : List (K × V)}

theorem Lists.mem_keys (lists : Lists f l) (k : K) : k ∈ l.map Prod.fst ↔ (f k).isSome := by
  rw [List.mem_map, Option.isSome_iff_exists]
  constructor
  · rintro ⟨⟨k, v⟩, member, rfl⟩
    exact ⟨v, (lists.mem k v).mp member⟩
  · rintro ⟨v, bound⟩
    exact ⟨(k, v), (lists.mem k v).mpr bound, rfl⟩

theorem lists_nil : Lists (fun _ : K => (none : Option V)) [] := ⟨by simp, by simp⟩

theorem Lists.perm (lists : Lists f l) (lists' : Lists f l') : l.Perm l' := by
  refine (List.perm_ext_iff_of_nodup lists.nodup.of_map lists'.nodup.of_map).mpr ?_
  rintro ⟨k, v⟩
  rw [lists.mem, lists'.mem]

theorem Lists.of_perm (lists : Lists f l) (perm : l.Perm l') : Lists f l' := by
  constructor
  · intro k v
    exact perm.mem_iff.symm.trans (lists.mem k v)
  · exact (perm.map Prod.fst).nodup_iff.mp lists.nodup

theorem Lists.eq_nil_iff (lists : Lists f l) : l = [] ↔ ∀ k, f k = none := by
  rw [List.eq_nil_iff_forall_not_mem]
  constructor
  · intro empty k
    cases bound : f k with
    | none => rfl
    | some v => exact absurd ((lists.mem k v).mpr bound) (empty (k, v))
  · rintro unbound ⟨k, v⟩ member
    have bound := (lists.mem k v).mp member
    rw [unbound k] at bound
    contradiction

theorem Lists.filter (lists : Lists f l) (p : K × V → Bool) :
    Lists (fun k => (f k).filter fun v => p (k, v)) (l.filter p) := by
  refine ⟨fun k v => ?_, lists.nodup.sublist (List.filter_sublist.map _)⟩
  rw [List.mem_filter, lists.mem, Option.filter_eq_some_iff]

theorem Lists.ncard (lists : Lists f l) : Set.ncard {k | (f k).isSome} = l.length := by
  classical
  have same : {k | (f k).isSome} = ((l.map Prod.fst).toFinset : Set K) := by
    ext k
    rw [List.coe_toFinset, Set.mem_ofPred_eq, Set.mem_ofPred_eq, lists.mem_keys]
  rw [same, Set.ncard_coe_finset, List.toFinset_card_of_nodup lists.nodup, List.length_map]

variable [DecidableEq K]

/-- What is bound when a key is. -/
theorem update_some_iff {k q : K} {v w : V} :
    Function.update f k (some v) q = some w ↔ (q = k ∧ v = w) ∨ (q ≠ k ∧ f q = some w) := by
  by_cases same : q = k
  · simp [same]
  · simp [same]

theorem update_none_iff {k q : K} {w : V} :
    Function.update f k none q = some w ↔ q ≠ k ∧ f q = some w := by
  by_cases same : q = k
  · simp [same]
  · simp [same]

theorem Lists.set (lists : Lists f l) (k : K) (v : V) :
    Lists (Function.update f k (some v)) ((k, v) :: l.filter fun b => b.1 ≠ k) := by
  constructor
  · intro q w
    rw [update_some_iff, List.mem_cons, List.mem_filter, lists.mem, Prod.mk.injEq, decide_eq_true_eq, and_comm (a := f q = some w),
      eq_comm (a := w)]
  · rw [List.map_cons, List.nodup_cons]
    refine ⟨?_, lists.nodup.sublist (List.filter_sublist.map _)⟩
    simp

theorem Lists.length_set {k : K} {v : V} (lists : Lists f l)
    (lists' : Lists (Function.update f k (some v)) l') :
    l'.length = l.length + if (f k).isNone then 1 else 0 := by
  have keys : ∀ q, q ∈ l'.map Prod.fst ↔ q = k ∨ q ∈ l.map Prod.fst := by
    intro q
    rw [lists'.mem_keys, lists.mem_keys, Function.update_apply]
    by_cases same : q = k <;> simp [same]
  have length : (l.map Prod.fst).length = l.length := List.length_map _
  have length' : (l'.map Prod.fst).length = l'.length := List.length_map _
  rw [← length, ← length']
  by_cases fresh : (f k).isNone
  · have absent : k ∉ l.map Prod.fst := by
      rw [lists.mem_keys]
      simpa using fresh
    have perm : (l'.map Prod.fst).Perm (k :: l.map Prod.fst) :=
      (List.perm_ext_iff_of_nodup lists'.nodup (List.nodup_cons.mpr ⟨absent, lists.nodup⟩)).mpr
        (by simpa using keys)
    rw [if_pos fresh, perm.length_eq, List.length_cons]
  · have present : k ∈ l.map Prod.fst := by
      rw [lists.mem_keys]
      simpa [Option.isSome_iff_ne_none] using fresh
    have perm : (l'.map Prod.fst).Perm (l.map Prod.fst) := by
      refine (List.perm_ext_iff_of_nodup lists'.nodup lists.nodup).mpr fun q => ?_
      rw [keys]
      exact ⟨fun either => either.elim (fun same => same ▸ present) id, Or.inr⟩
    rw [if_neg fresh, perm.length_eq, Nat.add_zero]

theorem Lists.length_erase {k : K} (lists : Lists f l)
    (lists' : Lists (Function.update f k none) l') :
    l'.length = l.length - if (f k).isSome then 1 else 0 := by
  cases bound : f k with
  | none =>
    have same : Function.update f k none = f := by
      rw [← bound, Function.update_eq_self]
    rw [same] at lists'
    simp [(lists'.perm lists).length_eq]
  | some v =>
    have back : Function.update (Function.update f k none) k (some v) = f := by
      rw [Function.update_idem, ← bound, Function.update_eq_self]
    have grown := lists'.length_set (back.symm ▸ lists)
    simp at grown
    simp [grown]

end Lib.Bindings

/-! A finite function kept beside an index of its values: the index leads from each value that counts
to the key it is bound to. No two keys have a counted value in common then, and the index is kept by
writing and clearing it along with the function. -/
namespace Lib.Bindings

variable {K V : Type*}

/-- `g` indexes the values of `f` that satisfy `counts`. -/
structure Inverse (counts : V → Prop) (f : K → Option V) (g : V → Option K) : Prop where
  iff : ∀ v k, g v = some k ↔ counts v ∧ f k = some v

variable {counts : V → Prop} {f : K → Option V} {g : V → Option K}

theorem Inverse.key_unique (inverse : Inverse counts f g) {v : V} (counted : counts v) {k q : K}
    (here : f k = some v) (there : f q = some v) : k = q := by
  have first := (inverse.iff v k).mpr ⟨counted, here⟩
  have second := (inverse.iff v q).mpr ⟨counted, there⟩
  exact Option.some.inj (first.symm.trans second)

variable [DecidableEq K] {k : K} {v : V}

/-- A key that has no counted value yet gets a value that does not count. -/
theorem Inverse.skip (inverse : Inverse counts f g) (free : ∀ u, f k = some u → ¬ counts u)
    (uncounted : ¬ counts v) : Inverse counts (Function.update f k (some v)) g := by
  refine ⟨fun u q => (inverse.iff u q).trans (and_congr_right fun counted => ?_)⟩
  rw [update_some_iff]
  constructor
  · intro bound
    refine Or.inr ⟨fun same => free u (same ▸ bound) counted, bound⟩
  · rintro (⟨_, same⟩ | ⟨_, bound⟩)
    · exact absurd counted (same ▸ uncounted)
    · exact bound

theorem Inverse.skip_unbind (inverse : Inverse counts f g) (free : ∀ u, f k = some u → ¬ counts u) :
    Inverse counts (Function.update f k none) g := by
  refine ⟨fun u q => (inverse.iff u q).trans (and_congr_right fun counted => ?_)⟩
  rw [update_none_iff]
  exact ⟨fun bound => ⟨fun same => free u (same ▸ bound) counted, bound⟩, And.right⟩

variable [DecidableEq V]

/-- The same with a new value that counts. -/
theorem Inverse.bind (inverse : Inverse counts f g) (free : ∀ u, f k = some u → ¬ counts u)
    (counted : counts v) (fresh : ∀ q, f q ≠ some v) :
    Inverse counts (Function.update f k (some v)) (Function.update g v (some k)) := by
  refine ⟨fun u q => ?_⟩
  rw [update_some_iff, update_some_iff, inverse.iff]
  constructor
  · rintro (⟨rfl, rfl⟩ | ⟨_, counts_u, bound⟩)
    · exact ⟨counted, Or.inl ⟨rfl, rfl⟩⟩
    · exact ⟨counts_u, Or.inr ⟨fun same => free u (same ▸ bound) counts_u, bound⟩⟩
  · rintro ⟨counts_u, ⟨rfl, rfl⟩ | ⟨_, bound⟩⟩
    · exact Or.inl ⟨rfl, rfl⟩
    · exact Or.inr ⟨fun same => fresh q (same ▸ bound), counts_u, bound⟩

theorem Inverse.unbind (inverse : Inverse counts f g) (counted : counts v) (bound : f k = some v) :
    Inverse counts (Function.update f k none) (Function.update g v none) := by
  refine ⟨fun u q => ?_⟩
  rw [update_none_iff, update_none_iff, inverse.iff]
  constructor
  · rintro ⟨other, counts_u, there⟩
    refine ⟨counts_u, fun same => other ?_, there⟩
    rw [same, bound] at there
    exact (Option.some.inj there).symm
  · rintro ⟨counts_u, other, there⟩
    refine ⟨fun same => other ?_, counts_u, there⟩
    exact inverse.key_unique counted (same ▸ there) bound

end Lib.Bindings
