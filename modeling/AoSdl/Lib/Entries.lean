import Mathlib.Data.List.AList

/-! Association lists entry by entry: the entries a sweep keeps, and a change of every value. -/
namespace Lib.Entries

variable {K : Type*} {β : K → Type*}

/-- The entries the test keeps. -/
def keep (p : (k : K) → β k → Bool) (m : AList β) : AList β :=
  ⟨m.entries.filter fun e => p e.1 e.2, m.nodupKeys.sublist List.filter_sublist⟩

def mapValues (f : (k : K) → β k → β k) (m : AList β) : AList β :=
  ⟨m.entries.map fun e => ⟨e.1, f e.1 e.2⟩, by
    have same : (m.entries.map fun e => (⟨e.1, f e.1 e.2⟩ : Sigma β)).keys = m.entries.keys := by
      simp [List.keys]
    rw [List.NodupKeys, same]
    exact m.nodupKeys⟩

variable [DecidableEq K] (m : AList β) (k : K)

@[simp] theorem lookup_keep (p : (k : K) → β k → Bool) :
    (keep p m).lookup k = (m.lookup k).filter (p k) := by
  ext v
  rw [← Option.mem_def, ← Option.mem_def, Option.mem_filter_iff, AList.mem_lookup_iff,
    AList.mem_lookup_iff]
  exact List.mem_filter

@[simp] theorem lookup_mapValues (f : (k : K) → β k → β k) :
    (mapValues f m).lookup k = (m.lookup k).map (f k) := by
  ext v
  rw [← Option.mem_def, AList.mem_lookup_iff, Option.map_eq_some_iff]
  constructor
  · intro member
    obtain ⟨⟨q, w⟩, inside, same⟩ := List.mem_map.mp member
    obtain ⟨rfl, same⟩ := Sigma.mk.inj same
    exact ⟨w, AList.mem_lookup_iff.mpr inside, eq_of_heq same⟩
  · rintro ⟨w, found, rfl⟩
    exact List.mem_map.mpr ⟨⟨k, w⟩, AList.mem_lookup_iff.mp found, rfl⟩

section

variable {V : Type*}

theorem lookup_insert_eq (m : AList fun _ : K => V) (k : K) (v : V) :
    (m.insert k v).lookup = Function.update m.lookup k (some v) := by
  funext q
  by_cases same : q = k
  · subst same
    rw [AList.lookup_insert, Function.update_self]
  · rw [AList.lookup_insert_ne same, Function.update_of_ne same]

theorem lookup_erase_eq (m : AList fun _ : K => V) (k : K) :
    (m.erase k).lookup = Function.update m.lookup k none := by
  funext q
  by_cases same : q = k
  · subst same
    rw [AList.lookup_erase, Function.update_self]
  · rw [AList.lookup_erase_ne same, Function.update_of_ne same]

theorem dlookup_kreplace (k q : K) (v : V) (l : List (Σ _ : K, V)) :
    (l.kreplace k v).dlookup q = if q = k then (l.dlookup k).map fun _ => v else l.dlookup q := by
  have other {a b : K} (apart : a ≠ b) (x : V) (l : List (Σ _ : K, V)) :
      (⟨b, x⟩ :: l : List (Σ _ : K, V)).dlookup a = l.dlookup a := List.dlookup_cons_ne l _ apart
  induction l with
  | nil => simp [List.kreplace]
  | cons e l ih =>
    obtain ⟨key, value⟩ := e
    unfold List.kreplace at ih ⊢
    by_cases here : k = key
    · subst here
      rw [List.lookmap_cons_some (b := ⟨k, v⟩) _ _ (by simp)]
      by_cases same : q = k
      · subst same
        simp
      · rw [if_neg same, other same, other same]
    · rw [List.lookmap_cons_none _ _ (by simp [here])]
      by_cases same : q = key
      · subst same
        rw [if_neg (Ne.symm here)]
        simp
      · rw [other same, other same, other here, ih]

theorem lookup_replace (m : AList fun _ : K => V) (k q : K) (v : V) :
    (m.replace k v).lookup q = if q = k then (m.lookup k).map fun _ => v else m.lookup q :=
  dlookup_kreplace k q v m.entries

theorem lookup_foldl_change {step : (AList fun _ : K => V) → K → AList fun _ : K => V} {f : V → V}
    (changes : ∀ m k q, (step m k).lookup q = if q = k then (m.lookup k).map f else m.lookup q)
    {keys : List K} (nodup : keys.Nodup) (m : AList fun _ : K => V) (q : K) :
    (keys.foldl step m).lookup q = if q ∈ keys then (m.lookup q).map f else m.lookup q := by
  induction keys generalizing m with
  | nil => simp
  | cons k keys ih =>
    obtain ⟨apart, nodup⟩ := List.nodup_cons.mp nodup
    rw [List.foldl_cons, ih nodup, changes]
    by_cases same : q = k
    · subst same
      simp [apart]
    · simp [same]

end

end Lib.Entries
