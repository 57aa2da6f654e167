import AoSdl.AssetCache
import AoSdl.Lib.Runs
import Mathlib.Data.List.Nodup
import Mathlib.Data.List.Perm.Basic
import Mathlib.Algebra.Order.BigOperators.Group.List

/-! The accounts of the asset cache: what `used_bytes` says is the sum of the cached sizes as long as
nothing that is cached changes its size, and an eviction takes the least recently used entries that
nobody holds until the rest fits. -/
namespace AoSdl.AssetCache
open Lib.Runs
open scoped List

/-- The entries, the most recently used one first. -/
def cached (c : AssetCache) : List (Bytes × CacheEntry) :=
  c.lru.filterMap fun path => (c.entries path).map fun e => (path, e)

/-- The sum of `memory_size()` over the cached entries. -/
def bytes_of (h : Heap) (l : List (Bytes × CacheEntry)) : ℕ :=
  (l.map fun e => (h.assets e.2.asset).memory_size).sum

/-- The list is a permutation of the keys. -/
structure Listed (c : AssetCache) : Prop where
  nodup : c.lru.Nodup
  mem : ∀ path, path ∈ c.lru ↔ (c.entries path).isSome

theorem listed_new (max_bytes : UInt64) : Listed (new max_bytes) where
  nodup := List.nodup_nil
  mem := fun path => by simp [new]

section

variable {c : AssetCache} {path : Bytes} {e : CacheEntry}

theorem Listed.mem_of_some (listed : Listed c) (found : c.entries path = some e) : path ∈ c.lru :=
  (listed.mem path).mpr (Option.isSome_of_eq_some found)

theorem mem_cached (listed : Listed c) : (path, e) ∈ c.cached ↔ c.entries path = some e := by
  unfold cached
  rw [List.mem_filterMap]
  constructor
  · rintro ⟨q, -, bound⟩
    obtain ⟨e', found, same⟩ := Option.map_eq_some_iff.mp bound
    cases same
    exact found
  · intro found
    exact ⟨path, listed.mem_of_some found, by rw [found]; rfl⟩

/-- One path taken out of the list and out of the map. -/
def without (c : AssetCache) (path : Bytes) : AssetCache :=
  { c with lru := c.lru.erase path, entries := Function.update c.entries path none }

theorem Listed.without (listed : Listed c) (path : Bytes) : Listed (c.without path) where
  nodup := listed.nodup.erase path
  mem := fun q => by
    change q ∈ c.lru.erase path ↔ (Function.update c.entries path none q).isSome
    rw [listed.nodup.mem_erase_iff, Function.update_apply]
    split
    · next same => simp [same]
    · next other => simp [other, listed.mem]

theorem cached_without (listed : Listed c) (found : c.entries path = some e) :
    c.cached ~ (path, e) :: (c.without path).cached := by
  have apart : path ∉ c.lru.erase path := listed.nodup.not_mem_erase
  have rest : (c.lru.erase path).filterMap (fun q => (c.entries q).map fun e => (q, e)) =
      (c.without path).cached := by
    refine List.filterMap_congr fun q member => ?_
    have other : q ≠ path := fun same => apart (same ▸ member)
    change _ = Option.map _ (Function.update c.entries path none q)
    rw [Function.update_of_ne other]
  have front := (List.perm_cons_erase (listed.mem_of_some found)).filterMap
    fun q => (c.entries q).map fun e => (q, e)
  rw [List.filterMap_cons, found] at front
  exact rest ▸ front

theorem Listed.not_mem (listed : Listed c) (fresh : c.entries path = none) : path ∉ c.lru := by
  intro member
  have bound := (listed.mem path).mp member
  rw [fresh] at bound
  cases bound

theorem Listed.cons (listed : Listed c) (fresh : c.entries path = none) (used : UInt64) (e : CacheEntry) :
    Listed ⟨c.max_bytes_, used, path :: c.lru, Function.update c.entries path (some e)⟩ where
  nodup := List.nodup_cons.mpr ⟨listed.not_mem fresh, listed.nodup⟩
  mem := fun q => by
    change q ∈ path :: c.lru ↔ (Function.update c.entries path (some e) q).isSome
    rw [List.mem_cons, Function.update_apply]
    split
    · next same => simp [same]
    · next other => simp [other, listed.mem]

theorem cached_cons (listed : Listed c) (fresh : c.entries path = none) (used : UInt64) (e : CacheEntry) :
    cached ⟨c.max_bytes_, used, path :: c.lru, Function.update c.entries path (some e)⟩ =
      (path, e) :: c.cached := by
  have front : (Function.update c.entries path (some e) path).map (fun e => (path, e)) =
      some (path, e) := by
    rw [Function.update_self]
    rfl
  refine (List.filterMap_cons_some
    (f := fun q => (Function.update c.entries path (some e) q).map fun e => (q, e)) front).trans ?_
  refine congrArg ((path, e) :: ·) (List.filterMap_congr fun q member => ?_)
  have other : q ≠ path := fun same => listed.not_mem fresh (same ▸ member)
  simp only [Function.update_of_ne other]

theorem Listed.promote (listed : Listed c) (found : c.entries path = some e) :
    Listed { c with lru := path :: c.lru.erase path } := by
  have perm := List.perm_cons_erase (listed.mem_of_some found)
  exact ⟨perm.nodup_iff.mp listed.nodup, fun q => perm.mem_iff.symm.trans (listed.mem q)⟩

theorem cached_promote (listed : Listed c) (found : c.entries path = some e) :
    cached { c with lru := path :: c.lru.erase path } ~ c.cached :=
  ((List.perm_cons_erase (listed.mem_of_some found)).symm).filterMap _

end

/-- `used_bytes` is the sum of the sizes. -/
def Accounted (h : Heap) (c : AssetCache) : Prop := c.used_bytes_.toNat = bytes_of h c.cached

section

variable {h : Heap} {c : AssetCache} {path : Bytes} {e : CacheEntry}

@[simp] theorem bytes_of_cons (h : Heap) (e : Bytes × CacheEntry) (l : List (Bytes × CacheEntry)) :
    bytes_of h (e :: l) = (h.assets e.2.asset).memory_size + bytes_of h l := List.sum_cons

theorem bytes_of_perm {l l' : List (Bytes × CacheEntry)} (h : Heap) (perm : l ~ l') :
    bytes_of h l = bytes_of h l' := (perm.map _).sum_eq

theorem bytes_of_sublist {l l' : List (Bytes × CacheEntry)} (h : Heap) (sub : l <+ l') :
    bytes_of h l ≤ bytes_of h l' := (sub.map _).sum_le_sum fun _ _ => Nat.zero_le _

theorem Listed.drop_entry (listed : Listed c) : Listed (drop_entry h c path e) :=
  ⟨(listed.without path).nodup, (listed.without path).mem⟩

theorem Accounted.drop_entry (accounted : Accounted h c) (listed : Listed c)
    (found : c.entries path = some e) : Accounted h (drop_entry h c path e) := by
  have parts : c.used_bytes_.toNat =
      (h.assets e.asset).memory_size + bytes_of h (c.without path).cached :=
    accounted.trans ((bytes_of_perm h (cached_without listed found)).trans (bytes_of_cons ..))
  have small : (h.assets e.asset).memory_size < 2 ^ 64 :=
    (Nat.le.intro parts.symm).trans_lt c.used_bytes_.toNat_lt
  have size : (UInt64.ofNat (h.assets e.asset).memory_size).toNat = (h.assets e.asset).memory_size :=
    UInt64.toNat_ofNat_of_lt small
  have le : UInt64.ofNat (h.assets e.asset).memory_size ≤ c.used_bytes_ := by
    rw [UInt64.le_iff_toNat_le, size]
    exact Nat.le.intro parts.symm
  change (c.used_bytes_ - UInt64.ofNat (h.assets e.asset).memory_size).toNat = bytes_of h (c.without path).cached
  rw [UInt64.toNat_sub_of_le _ _ le, size]
  omega

/-- The entries of the other paths. -/
def others (c : AssetCache) (path : Bytes) : List (Bytes × CacheEntry) := (c.without path).cached

variable {asset : AssetId} {session_id : UInt32}

/-- `insert` takes the path's old entry out and counts the new one. -/
theorem push_eq (listed : Listed c) (h : Heap) (asset : AssetId) (session_id : UInt32) :
    ∃ used, push h c asset session_id =
      ⟨c.max_bytes_, used + UInt64.ofNat (h.assets asset).memory_size,
        (h.assets asset).path :: (c.without (h.assets asset).path).lru,
        Function.update (c.without (h.assets asset).path).entries (h.assets asset).path
          (some ⟨asset, session_id⟩)⟩ ∧
      (Accounted h c → used.toNat = bytes_of h (c.others (h.assets asset).path)) := by
  cases found : c.entries (h.assets asset).path with
  | none =>
    have same : c.without (h.assets asset).path = c := by
      unfold without
      rw [List.erase_of_not_mem (listed.not_mem found), ← found, Function.update_eq_self]
    refine ⟨c.used_bytes_, ?_, fun accounted => ?_⟩
    · simp only [push, found, same]
    · rw [others, same]
      exact accounted
  | some e =>
    refine ⟨(drop_entry h c (h.assets asset).path e).used_bytes_, ?_, fun accounted => ?_⟩
    · simp only [push, found]
      rfl
    · exact accounted.drop_entry listed found

theorem without_self (c : AssetCache) (path : Bytes) : (c.without path).entries path = none :=
  Function.update_self ..

theorem Listed.push (listed : Listed c) : Listed (push h c asset session_id) := by
  obtain ⟨used, pushed, -⟩ := push_eq listed h asset session_id
  rw [pushed]
  exact (listed.without _).cons (without_self c _) _ _

theorem cached_push (listed : Listed c) (h : Heap) (asset : AssetId) (session_id : UInt32) :
    (push h c asset session_id).cached =
      ((h.assets asset).path, ⟨asset, session_id⟩) :: c.others (h.assets asset).path := by
  obtain ⟨used, pushed, -⟩ := push_eq listed h asset session_id
  rw [pushed]
  exact cached_cons (listed.without _) (without_self c _) _ _

/-- The new entry is counted right exactly if the sizes together fit a `size_t`. -/
theorem accounted_push (accounted : Accounted h c) (listed : Listed c) :
    Accounted h (push h c asset session_id) ↔
      bytes_of h (c.others (h.assets asset).path) + (h.assets asset).memory_size < 2 ^ 64 := by
  obtain ⟨used, pushed, counted⟩ := push_eq listed h asset session_id
  have others := counted accounted
  unfold Accounted
  rw [cached_push listed, bytes_of_cons, pushed]
  change (used + UInt64.ofNat (h.assets asset).memory_size).toNat = _ ↔ _
  rw [UInt64.toNat_add, UInt64.toNat_ofNat', others, Nat.add_mod_mod, Nat.add_comm]
  exact Nat.mod_eq_iff_lt (by norm_num)

end

/-- Only the cache refers to the entry under the path. -/
def alone (h : Heap) (param : Option AssetId) (c : AssetCache) (path : Bytes) : Bool :=
  (c.entries path).any fun e => use_count h param e = 1

/-- The entries under the paths in `out` went, and no others. -/
structure Removes (out : List Bytes) (c c' : AssetCache) : Prop where
  max : c'.max_bytes_ = c.max_bytes_
  lru : c'.lru = c.lru.filter (· ∉ out)
  entries : ∀ path, c'.entries path = if path ∈ out then none else c.entries path

theorem Removes.nil (c : AssetCache) : Removes [] c c where
  max := rfl
  lru := by simp
  entries := fun path => by simp

section

variable {h : Heap} {param : Option AssetId} {c c' : AssetCache} {path : Bytes} {e : CacheEntry}

theorem Removes.cons {out : List Bytes} (listed : Listed c)
    (later : Removes out (drop_entry h c path e) c') : Removes (path :: out) c c' where
  max := later.max
  lru := by
    rw [later.lru]
    change (c.lru.erase path).filter _ = _
    rw [listed.nodup.erase_eq_filter, List.filter_filter]
    refine List.filter_congr fun q _ => ?_
    rw [Bool.eq_iff_iff]
    simp [and_comm]
  entries := fun q => by
    rw [later.entries]
    change (if q ∈ out then none else Function.update c.entries path none q) = _
    rw [Function.update_apply]
    by_cases same : q = path
    · simp [same]
    · simp [same]

theorem Removes.listed {out : List Bytes} (removes : Removes out c c') (listed : Listed c) :
    Listed c' where
  nodup := removes.lru ▸ listed.nodup.filter _
  mem := fun path => by
    rw [removes.lru, removes.entries, List.mem_filter, listed.mem]
    by_cases gone : path ∈ out
    · simp [gone]
    · simp [gone]

theorem Removes.cached {out : List Bytes} (removes : Removes out c c') :
    c'.cached = c.cached.filter fun e => e.1 ∉ out := by
  unfold AssetCache.cached
  rw [removes.lru, List.filter_filterMap, List.filterMap_filter]
  refine List.filterMap_congr fun path _ => ?_
  rw [removes.entries]
  by_cases gone : path ∈ out
  · cases c.entries path <;> simp [gone, Option.filter]
  · cases c.entries path <;> simp [gone, Option.filter]

theorem alone_drop_entry {q : Bytes} (other : q ≠ path) :
    alone h param (drop_entry h c path e) q = alone h param c q := by
  unfold alone
  change (Function.update c.entries path none q).any _ = _
  rw [Function.update_of_ne other]

/-- All that the walk does: it takes entries that only the cache refers to, from the back of the list on
and leaving none of these out, until the limit is met or none is left. -/
theorem evict_walk_spec (listed : Listed c) {back : List Bytes} (distinct : back.Nodup) :
    ∃ out, out <+: back.filter (alone h param c) ∧ Removes out c (evict_walk h param c back) ∧
      ((evict_walk h param c back).used_bytes_ ≤ c.max_bytes_ ∨ out = back.filter (alone h param c)) := by
  induction back generalizing c with
  | nil => exact ⟨[], List.prefix_refl _, Removes.nil c, Or.inr rfl⟩
  | cons path rest ih =>
    obtain ⟨apart, distinct⟩ := List.nodup_cons.mp distinct
    unfold evict_walk
    split
    · next fits => exact ⟨[], List.nil_prefix, Removes.nil c, Or.inl fits⟩
    split
    · next absent =>
      have skip : alone h param c path = false := by simp [alone, absent]
      rw [List.filter_cons_of_neg (by simp [skip])]
      exact ih listed distinct
    · next e found =>
      have is_alone : alone h param c path = decide (use_count h param e = 1) := by simp [alone, found]
      split
      · next one =>
        have left : Listed (drop_entry h c path e) := listed.drop_entry
        obtain ⟨out, first, removes, stops⟩ := ih left distinct
        have same : rest.filter (alone h param (drop_entry h c path e)) = rest.filter (alone h param c) :=
          List.filter_congr fun q member =>
            alone_drop_entry fun equal => apart (equal ▸ member)
        rw [same] at first stops
        rw [List.filter_cons_of_pos (by simp [is_alone, one])]
        refine ⟨path :: out, (List.prefix_cons_inj path).mpr first, removes.cons listed, ?_⟩
        exact stops.imp_right (congrArg (path :: ·))
      · next more =>
        rw [List.filter_cons_of_neg (by simp [is_alone, more])]
        exact ih listed distinct

theorem accounted_evict_walk (accounted : Accounted h c) (listed : Listed c) (back : List Bytes) :
    Accounted h (evict_walk h param c back) := by
  induction back generalizing c with
  | nil => exact accounted
  | cons path rest ih =>
    unfold evict_walk
    split
    · exact accounted
    split
    · exact ih accounted listed
    · next e found =>
      split
      · exact ih (accounted.drop_entry listed found) listed.drop_entry
      · exact ih accounted listed

end

/-- An asset is cached under its own path. -/
def Keyed (h : Heap) (c : AssetCache) : Prop :=
  ∀ path e, c.entries path = some e → (h.assets e.asset).path = path

/-- No caller refers to the entry under the path. -/
def unheld (h : Heap) (c : AssetCache) (path : Bytes) : Bool :=
  (c.entries path).any fun e => h.held e.asset = 0

/-- What went are the least recently used entries of those that no caller holds. -/
def Evicted (h : Heap) (c c' : AssetCache) : Prop :=
  ∃ out, out <+: c.lru.reverse.filter (unheld h c) ∧ Removes out c c'

/-- The limit is met, or every entry is held. -/
def Trimmed (h : Heap) (c : AssetCache) : Prop :=
  c.used_bytes_ ≤ c.max_bytes_ ∨ ∀ path e, c.entries path = some e → 0 < h.held e.asset

/-- The entries of the other paths that callers hold. -/
def held_others (h : Heap) (c : AssetCache) (path : Bytes) : List (Bytes × CacheEntry) :=
  (c.others path).filter fun e => 0 < h.held e.2.asset

section

variable {h : Heap} {c c' : AssetCache} {path : Bytes} {e : CacheEntry} {asset : AssetId}
  {session_id : UInt32}

theorem alone_none (h : Heap) (c : AssetCache) : alone h none c = unheld h c := by
  funext path
  unfold alone unheld
  congr 1
  funext e
  simp [use_count]

theorem evict_evicted (listed : Listed c) : Evicted h c (evict h c) ∧ Trimmed h (evict h c) := by
  obtain ⟨out, first, removes, stops⟩ :=
    @evict_walk_spec h none c listed _ (List.nodup_reverse.mpr listed.nodup)
  rw [alone_none] at first stops
  have removes : Removes out c (evict h c) := removes
  refine ⟨⟨out, first, removes⟩, ?_⟩
  rcases stops with fits | all
  · left
    rw [removes.max]
    exact fits
  · right
    intro path e found
    rw [removes.entries] at found
    split at found
    · cases found
    · next stays =>
      refine Nat.pos_of_ne_zero fun none_held => stays ?_
      rw [all]
      refine List.mem_filter.mpr ⟨List.mem_reverse.mpr (listed.mem_of_some found), ?_⟩
      simp [unheld, found, none_held]

theorem entries_push (listed : Listed c) (path : Bytes) :
    (push h c asset session_id).entries path =
      if path = (h.assets asset).path then some ⟨asset, session_id⟩ else c.entries path := by
  obtain ⟨used, pushed, -⟩ := push_eq listed h asset session_id
  rw [pushed]
  change Function.update (Function.update c.entries _ none) _ _ path = _
  rw [Function.update_idem, Function.update_apply]

theorem Keyed.push (keyed : Keyed h c) (listed : Listed c) : Keyed h (push h c asset session_id) := by
  intro path e found
  rw [entries_push listed] at found
  split at found
  · next here =>
    cases found
    exact here.symm
  · exact keyed path e found

theorem alone_push (keyed : Keyed h c) (listed : Listed c) (path : Bytes) :
    alone h (some asset) (push h c asset session_id) path =
      (decide (path ≠ (h.assets asset).path) && unheld h (push h c asset session_id) path) := by
  unfold alone unheld
  rw [entries_push listed]
  by_cases here : path = (h.assets asset).path
  · simp [here, use_count]
  · rw [if_neg here]
    cases found : c.entries path with
    | none => simp
    | some e =>
      have other : asset ≠ e.asset := fun same => here ((same ▸ keyed path e found).symm)
      simp [here, use_count, other]

theorem filter_alone_push (keyed : Keyed h c) (listed : Listed c) :
    (push h c asset session_id).lru.reverse.filter (alone h (some asset) (push h c asset session_id)) <+:
      (push h c asset session_id).lru.reverse.filter (unheld h (push h c asset session_id)) := by
  obtain ⟨used, pushed, -⟩ := push_eq listed h asset session_id
  have lru : (push h c asset session_id).lru =
      (h.assets asset).path :: (c.without (h.assets asset).path).lru := by rw [pushed]
  have distinct : (push h c asset session_id).lru.Nodup := listed.push.nodup
  rw [lru] at distinct ⊢
  obtain ⟨fresh, -⟩ := List.nodup_cons.mp distinct
  rw [List.reverse_cons, List.filter_append, List.filter_append]
  have same : (c.without (h.assets asset).path).lru.reverse.filter
      (alone h (some asset) (push h c asset session_id)) =
      (c.without (h.assets asset).path).lru.reverse.filter (unheld h (push h c asset session_id)) := by
    refine List.filter_congr fun q member => ?_
    have other : q ≠ (h.assets asset).path := by
      rintro rfl
      exact fresh (List.mem_reverse.mp member)
    rw [alone_push keyed listed]
    simp [other]
  have pinned : [(h.assets asset).path].filter (alone h (some asset) (push h c asset session_id)) = [] := by
    rw [List.filter_cons_of_neg]
    · rfl
    · rw [alone_push keyed listed]
      simp
  rw [same, pinned, List.append_nil]
  exact List.prefix_append _ _

theorem mem_others_push (listed : Listed c) (session_id : UInt32) {e : Bytes × CacheEntry}
    (member : e ∈ c.others (h.assets asset).path) :
    e.1 ≠ (h.assets asset).path ∧ (push h c asset session_id).entries e.1 = some e.2 := by
  obtain ⟨path, e⟩ := e
  have pushed : Listed (push h c asset session_id) := listed.push
  have found := (mem_cached pushed).mp
    ((cached_push listed h asset session_id).symm ▸ List.mem_cons_of_mem _ member)
  have inside := (mem_cached (listed.without _)).mp member
  refine ⟨?_, found⟩
  rintro rfl
  rw [without_self] at inside
  cases inside

theorem alone_others (keyed : Keyed h c) (listed : Listed c) {e : Bytes × CacheEntry}
    (member : e ∈ c.others (h.assets asset).path) :
    alone h (some asset) (push h c asset session_id) e.1 = decide (h.held e.2.asset = 0) := by
  obtain ⟨apart, found⟩ := mem_others_push listed session_id member
  rw [alone_push keyed listed]
  simp [apart, unheld, found]

/-- After `insert` the new entry is there, and of the others a part that has all that callers hold; it is
the held ones unless the limit is met. -/
theorem insert_spec (keyed : Keyed h c) (listed : Listed c) :
    ∃ stay, (insert h c asset session_id).cached = ((h.assets asset).path, ⟨asset, session_id⟩) :: stay ∧
      held_others h c (h.assets asset).path <+ stay ∧
      Evicted h (push h c asset session_id) (insert h c asset session_id) ∧
      Listed (insert h c asset session_id) ∧ (insert h c asset session_id).max_bytes_ = c.max_bytes_ ∧
      ((insert h c asset session_id).used_bytes_ ≤ c.max_bytes_ ∨
        stay = held_others h c (h.assets asset).path) := by
  have pushed : Listed (push h c asset session_id) := listed.push
  have same_max : (push h c asset session_id).max_bytes_ = c.max_bytes_ := by
    obtain ⟨used, eq, -⟩ := push_eq listed h asset session_id
    rw [eq]
  obtain ⟨out, first, removes, stops⟩ :=
    @evict_walk_spec h (some asset) _ pushed _ (List.nodup_reverse.mpr pushed.nodup)
  have removes : Removes out (push h c asset session_id) (insert h c asset session_id) := removes
  have mem_out : ∀ path, path ∈ out → alone h (some asset) (push h c asset session_id) path = true :=
    fun path member => (List.mem_filter.mp (first.subset member)).2
  have keeps : (h.assets asset).path ∉ out := by
    intro member
    have refuted := mem_out _ member
    rw [alone_push keyed listed] at refuted
    simp at refuted
  have parts := removes.cached
  rw [cached_push listed, List.filter_cons_of_pos (by simpa using keeps)] at parts
  refine ⟨_, parts, ?_, ⟨out, first.trans (filter_alone_push keyed listed), removes⟩,
    removes.listed pushed, removes.max.trans same_max, ?_⟩
  · have sub : ((c.others (h.assets asset).path).filter fun e => e.1 ∉ out).filter
        (fun e => 0 < h.held e.2.asset) = held_others h c (h.assets asset).path := by
      rw [List.filter_filter]
      refine List.filter_congr fun e member => ?_
      by_cases positive : 0 < h.held e.2.asset
      · have stays : e.1 ∉ out := by
          intro gone
          have refuted := mem_out _ gone
          rw [alone_others keyed listed member] at refuted
          simp only [decide_eq_true_eq] at refuted
          omega
        simp [positive, stays]
      · simp [positive]
    rw [← sub]
    exact List.filter_sublist
  · rw [same_max] at stops
    refine stops.imp_right fun all => ?_
    refine List.filter_congr fun e member => ?_
    obtain ⟨apart, found⟩ := mem_others_push listed session_id member
    have gone : e.1 ∈ out ↔ h.held e.2.asset = 0 := by
      rw [all, List.mem_filter, alone_others keyed listed member, decide_eq_true_eq]
      exact and_iff_right (List.mem_reverse.mpr (pushed.mem_of_some found))
    by_cases zero : h.held e.2.asset = 0
    · simp [gone, zero]
    · simp [gone, zero, Nat.pos_of_ne_zero zero]

/-- Of the limit after an `insert`: the asset is held, or it fits beside all that is held. -/
theorem trimmed_insert (keyed : Keyed h c) (listed : Listed c)
    (accounted : Accounted h (insert h c asset session_id)) :
    Trimmed h (insert h c asset session_id) ↔
      0 < h.held asset ∨ bytes_of h (held_others h c (h.assets asset).path) +
        (h.assets asset).memory_size ≤ c.max_bytes_.toNat := by
  obtain ⟨stay, parts, sub, -, after, same_max, stops⟩ := @insert_spec h c asset session_id keyed listed
  have total : (insert h c asset session_id).used_bytes_.toNat =
      (h.assets asset).memory_size + bytes_of h stay := by
    rw [accounted, parts, bytes_of_cons]
  unfold Trimmed
  rw [same_max]
  constructor
  · rintro (fits | all)
    · right
      have least := bytes_of_sublist h sub
      rw [UInt64.le_iff_toNat_le, total] at fits
      omega
    · left
      exact all _ _ ((mem_cached after).mp (parts ▸ List.mem_cons_self))
  · intro room
    rcases stops with fits | rest
    · exact Or.inl fits
    · rcases room with held | small
      · right
        intro path e found
        have member := (mem_cached after).mpr found
        rw [parts, rest] at member
        rcases List.mem_cons.mp member with same | other
        · cases same
          exact held
        · simpa using (List.mem_filter.mp other).2
      · left
        rw [UInt64.le_iff_toNat_le, total, rest]
        omega

end

/-- What a run keeps of the cache, whatever the callers do. -/
structure Inv (w : World) : Prop where
  listed : Listed w.cache
  keyed : Keyed w.heap w.cache

theorem inv_new (h : Heap) (max_bytes : UInt64) : Inv ⟨h, new max_bytes⟩ where
  listed := listed_new max_bytes
  keyed := fun path e found => by cases found

section

variable {h : Heap} {c : AssetCache} {asset : AssetId} {session_id : UInt32}

theorem Keyed.removes {c' : AssetCache} {out : List Bytes} (keyed : Keyed h c)
    (removes : Removes out c c') : Keyed h c' := by
  intro path e found
  rw [removes.entries] at found
  split at found
  · cases found
  · exact keyed path e found

theorem Inv.insert (i : Inv ⟨h, c⟩) (asset : AssetId) (session_id : UInt32) :
    Inv ⟨h, insert h c asset session_id⟩ := by
  obtain ⟨-, -, -, ⟨out, -, removes⟩, listed, -⟩ :=
    @insert_spec _ _ asset session_id i.keyed i.listed
  exact ⟨listed, (i.keyed.push i.listed).removes removes⟩

theorem Inv.evict (i : Inv ⟨h, c⟩) : Inv ⟨h, evict h c⟩ := by
  obtain ⟨⟨out, -, removes⟩, -⟩ := evict_evicted (h := h) i.listed
  exact ⟨removes.listed i.listed, i.keyed.removes removes⟩

theorem Inv.get (i : Inv ⟨h, c⟩) (path : Bytes) : Inv ⟨h, (get c path).2⟩ := by
  unfold AssetCache.get
  cases found : c.entries path with
  | none => exact i
  | some e => exact ⟨i.listed.promote found, i.keyed⟩

theorem Inv.drop_entry (i : Inv ⟨h, c⟩) {path : Bytes} {e : CacheEntry} :
    Inv ⟨h, drop_entry h c path e⟩ := by
  refine ⟨i.listed.drop_entry, fun q e' found => ?_⟩
  change Function.update c.entries path none q = some e' at found
  rw [Function.update_apply] at found
  split at found
  · cases found
  · exact i.keyed q e' found

theorem clear_session_induct {P : AssetCache → Prop} (start : P c)
    (drop : ∀ c path e, P c → c.entries path = some e → P (drop_entry h c path e)) (session_id : UInt32) :
    P (clear_session h c session_id) := by
  unfold clear_session
  split
  · exact start
  · generalize c.lru = paths
    induction paths generalizing c with
    | nil => exact start
    | cons path rest ih =>
      refine ih ?_
      simp only
      split
      · exact start
      · next e found =>
        split
        · exact drop c path e start found
        · exact start

theorem Inv.clear_session (i : Inv ⟨h, c⟩) (session_id : UInt32) :
    Inv ⟨h, clear_session h c session_id⟩ :=
  clear_session_induct (P := fun c => Inv ⟨h, c⟩) i (fun _ _ _ i _ => i.drop_entry) session_id

@[simp] theorem take_assets (h : Heap) (found : Option AssetId) : (Heap.take h found).assets = h.assets := by
  cases found <;> rfl

theorem Keyed.take (keyed : Keyed h c) (found : Option AssetId) : Keyed (Heap.take h found) c := by
  intro path e bound
  rw [take_assets]
  exact keyed path e bound

theorem Keyed.set (keyed : Keyed h c) {a : Asset} (same : a.path = (h.assets asset).path) :
    Keyed (Heap.set h asset a) c := by
  intro path e found
  change (Function.update h.assets asset a e.asset).path = path
  by_cases here : e.asset = asset
  · rw [here, Function.update_self, same, ← here]
    exact keyed path e found
  · rw [Function.update_of_ne here]
    exact keyed path e found

end

theorem Inv.step {w : World} (i : Inv w) (ev : Event) : Inv (step w ev) := by
  cases ev with
  | hold asset => exact ⟨i.listed, i.keyed⟩
  | drop asset => exact ⟨i.listed, i.keyed⟩
  | insert asset session_id => exact i.insert asset session_id
  | get path => exact ⟨(i.get path).listed, (i.get path).keyed.take _⟩
  | peek path => exact ⟨i.listed, i.keyed.take _⟩
  | evict => exact i.evict
  | clear => exact inv_new w.heap w.cache.max_bytes_
  | clear_session session_id => exact i.clear_session session_id
  | update_frame asset index pixels => exact ⟨i.listed, i.keyed.set (Asset.path_update_frame ..)⟩
  | update asset vertices indices => exact ⟨i.listed, i.keyed.set (Asset.path_update ..)⟩

/-- What every state is to have: the list is a permutation of the keys, the total is the sum. -/
structure Consistent (w : World) : Prop where
  listed : Listed w.cache
  accounted : Accounted w.heap w.cache

/-- What every `insert` and every `evict` is to do: count the new entry right, evict in the order of use,
and meet the limit or leave only entries that callers hold. -/
def Limited (w : World) : Event → Prop
  | .insert asset session_id =>
    let pushed := push w.heap w.cache asset session_id
    let after := insert w.heap w.cache asset session_id
    Accounted w.heap pushed ∧ Evicted w.heap pushed after ∧ Trimmed w.heap after
  | .evict => Evicted w.heap w.cache (evict w.heap w.cache) ∧ Trimmed w.heap (evict w.heap w.cache)
  | _ => True

/-- The asset keeps its size, if it is cached. -/
def Steady (w : World) (asset : AssetId) (a : Asset) : Prop :=
  peek w.cache (w.heap.assets asset).path = some asset →
    a.memory_size = (w.heap.assets asset).memory_size

/-- The sizes fit a `size_t`, an inserted asset is held or fits beside all that is held, and nothing that
is cached changes its size. -/
def Orderly (w : World) : Event → Prop
  | .insert asset _ =>
    bytes_of w.heap (w.cache.others (w.heap.assets asset).path) + (w.heap.assets asset).memory_size <
      2 ^ 64 ∧
    (0 < w.heap.held asset ∨ bytes_of w.heap (held_others w.heap w.cache (w.heap.assets asset).path) +
      (w.heap.assets asset).memory_size ≤ w.cache.max_bytes_.toNat)
  | .update_frame asset index pixels =>
    Steady w asset ((w.heap.assets asset).update_frame index pixels)
  | .update asset vertices indices => Steady w asset ((w.heap.assets asset).update vertices indices)
  | _ => True

section

variable {h : Heap} {c : AssetCache} {asset : AssetId}

theorem accounted_of_assets {h' : Heap} (same : h'.assets = h.assets) :
    Accounted h' c ↔ Accounted h c := by
  unfold Accounted bytes_of
  rw [same]

theorem bytes_of_set {a : Asset} {l : List (Bytes × CacheEntry)} (absent : ∀ e ∈ l, e.2.asset ≠ asset) :
    bytes_of (Heap.set h asset a) l = bytes_of h l := by
  unfold bytes_of
  refine congrArg List.sum (List.map_congr_left fun e member => ?_)
  change (Function.update h.assets asset a e.2.asset).memory_size = _
  rw [Function.update_of_ne (absent e member)]

theorem accounted_set {a : Asset} (i : Inv ⟨h, c⟩) (accounted : Accounted h c) :
    Accounted (Heap.set h asset a) c ↔ Steady ⟨h, c⟩ asset a := by
  have path_of : ∀ e ∈ c.cached, e.2.asset = asset → e.1 = (h.assets asset).path := by
    rintro ⟨path, e⟩ member rfl
    exact (i.keyed path e ((mem_cached i.listed).mp member)).symm
  by_cases is_cached : peek c (h.assets asset).path = some asset
  · obtain ⟨e, found, rfl⟩ := Option.map_eq_some_iff.mp is_cached
    have perm := cached_without i.listed found
    have absent : ∀ e' ∈ (c.without (h.assets e.asset).path).cached, e'.2.asset ≠ e.asset := by
      intro e' member same
      have here := path_of e' (perm.mem_iff.mpr (List.mem_cons_of_mem _ member)) same
      have inside := (mem_cached (i.listed.without (h.assets e.asset).path)).mp member
      rw [here, without_self] at inside
      cases inside
    have before : c.used_bytes_.toNat = (h.assets e.asset).memory_size +
        bytes_of h (c.without (h.assets e.asset).path).cached :=
      accounted.trans ((bytes_of_perm h perm).trans (bytes_of_cons ..))
    have after : bytes_of (Heap.set h e.asset a) c.cached = a.memory_size +
        bytes_of h (c.without (h.assets e.asset).path).cached := by
      rw [bytes_of_perm _ perm, bytes_of_cons, bytes_of_set absent]
      change (Function.update h.assets e.asset a e.asset).memory_size + _ = _
      rw [Function.update_self]
    unfold Accounted Steady
    rw [after, before, Nat.add_right_cancel_iff, eq_comm]
    exact ⟨fun same _ => same, fun all => all is_cached⟩
  · have absent : ∀ e ∈ c.cached, e.2.asset ≠ asset := by
      rintro ⟨path, e⟩ member rfl
      have here : path = (h.assets e.asset).path := path_of (path, e) member rfl
      have found := (mem_cached i.listed).mp member
      exact is_cached (by rw [peek, ← here, found]; rfl)
    have same : Accounted (Heap.set h asset a) c ↔ Accounted h c := by
      unfold Accounted
      rw [bytes_of_set absent]
    exact iff_of_true (same.mpr accounted) fun found => absurd found is_cached

theorem Accounted.get (accounted : Accounted h c) (listed : Listed c) (path : Bytes) :
    Accounted h (get c path).2 := by
  unfold AssetCache.get
  cases found : c.entries path with
  | none => exact accounted
  | some e => exact accounted.trans (bytes_of_perm h (cached_promote listed found)).symm

theorem Accounted.clear_session (accounted : Accounted h c) (i : Inv ⟨h, c⟩) (session_id : UInt32) :
    Accounted h (clear_session h c session_id) :=
  (clear_session_induct (P := fun c => Inv ⟨h, c⟩ ∧ Accounted h c) ⟨i, accounted⟩
    (fun _ _ _ both found => ⟨both.1.drop_entry, both.2.drop_entry both.1.listed found⟩) session_id).2

end

theorem step_iff_orderly {w : World} (i : Inv w) (consistent : Consistent w) (ev : Event) :
    Consistent (step w ev) ∧ Limited w ev ↔ Orderly w ev := by
  have next := (i.step ev).listed
  have accounted := consistent.accounted
  have only {p : Prop} (counted : Accounted (step w ev).heap (step w ev).cache ↔ p) :
      Consistent (step w ev) ↔ p :=
    ⟨fun both => counted.mp both.accounted, fun holds => ⟨next, counted.mpr holds⟩⟩
  cases ev with
  | hold asset => exact iff_of_true ⟨⟨next, accounted⟩, trivial⟩ trivial
  | drop asset => exact iff_of_true ⟨⟨next, accounted⟩, trivial⟩ trivial
  | insert asset session_id =>
    have pushed := @accounted_push _ _ asset session_id accounted i.listed
    constructor
    · rintro ⟨after, counted, -, trimmed⟩
      exact ⟨pushed.mp counted, (trimmed_insert i.keyed i.listed after.accounted).mp trimmed⟩
    · rintro ⟨fits, room⟩
      have counted := pushed.mpr fits
      have after : Accounted w.heap (insert w.heap w.cache asset session_id) :=
        accounted_evict_walk counted i.listed.push _
      obtain ⟨-, -, -, evicted, -⟩ :=
        @insert_spec _ _ asset session_id i.keyed i.listed
      exact ⟨⟨next, after⟩, counted, evicted, (trimmed_insert i.keyed i.listed after).mpr room⟩
  | get path =>
    have after := (accounted_of_assets (take_assets w.heap (get w.cache path).1)).mpr
      (accounted.get i.listed path)
    exact iff_of_true ⟨⟨next, after⟩, trivial⟩ trivial
  | peek path =>
    have after := (accounted_of_assets (take_assets w.heap (peek w.cache path))).mpr accounted
    exact iff_of_true ⟨⟨next, after⟩, trivial⟩ trivial
  | evict =>
    have after := @accounted_evict_walk _ none _ accounted i.listed w.cache.lru.reverse
    exact iff_of_true ⟨⟨next, after⟩, evict_evicted i.listed⟩ trivial
  | clear => exact iff_of_true ⟨⟨next, rfl⟩, trivial⟩ trivial
  | clear_session session_id =>
    exact iff_of_true ⟨⟨next, accounted.clear_session i session_id⟩, trivial⟩ trivial
  | update_frame asset index pixels => exact (and_iff_left trivial).trans (only (accounted_set i accounted))
  | update asset vertices indices => exact (and_iff_left trivial).trans (only (accounted_set i accounted))

/-- A cache is consistent and limited throughout a run exactly if the run is orderly. -/
theorem consistent_iff_orderly (h : Heap) (max_bytes : UInt64) (events : List Event) :
    Always step Consistent ⟨h, new max_bytes⟩ events ∧ Throughout step Limited ⟨h, new max_bytes⟩ events ↔
      Throughout step Orderly ⟨h, new max_bytes⟩ events := by
  have start : Consistent ⟨h, new max_bytes⟩ := ⟨listed_new max_bytes, rfl⟩
  exact always_and_throughout_iff (I := Inv) (fun w ev i => i.step ev)
    (fun w ev i consistent => step_iff_orderly i consistent ev) (inv_new h max_bytes) start events

/-- An atlas of one pixel that nobody but the cache refers to. -/
def atlas_heap : Heap where
  assets := fun _ => ⟨bytes "_glyph_atlas", bytes "gpu", .image ⟨[⟨1, 1, 0⟩], [0, 0, 0, 0], 0⟩⟩
  held := fun _ => 0

/-- It grows to two pixels while it is cached for a session; when the session ends the total wraps. -/
def atlas_grows : List Event :=
  [.insert 0 1, .update_frame 0 0 [0, 0, 0, 0, 0, 0, 0, 0], .clear_session 1]

theorem atlas_wraps :
    (run step ⟨atlas_heap, new 100⟩ atlas_grows).cache.cached = [] ∧
    (run step ⟨atlas_heap, new 100⟩ atlas_grows).cache.used_bytes_ = 18446744073709551612 ∧
    ¬(Always step Consistent ⟨atlas_heap, new 100⟩ atlas_grows ∧
      Throughout step Limited ⟨atlas_heap, new 100⟩ atlas_grows) := by
  have empty : (run step ⟨atlas_heap, new 100⟩ atlas_grows).cache.cached = [] := by decide +kernel
  have wrapped : (run step ⟨atlas_heap, new 100⟩ atlas_grows).cache.used_bytes_ =
      18446744073709551612 := by decide +kernel
  refine ⟨empty, wrapped, ?_⟩
  rintro ⟨consistent, -⟩
  have sums := (always_iff_isPrefix.mp consistent _ (List.prefix_refl _)).accounted
  unfold Accounted at sums
  rw [empty, wrapped] at sums
  cases sums

end AoSdl.AssetCache
