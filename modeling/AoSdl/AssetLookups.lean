import AoSdl.AssetLibrary

/-! What an operation of the asset library does to the cache: it caches a fresh object under its own key, or
nothing new at all. -/
namespace AoSdl

namespace AssetCache

variable {h : Heap} {c : AssetCache}

/-- Nothing is cached that was not. -/
def Shrinks (c c' : AssetCache) : Prop := ∀ path e, c'.entries path = some e → c.entries path = some e

theorem Shrinks.refl (c : AssetCache) : Shrinks c c := fun _ _ => id

theorem Shrinks.trans {c₁ c₂ c₃ : AssetCache} (first : Shrinks c₁ c₂) (later : Shrinks c₂ c₃) :
    Shrinks c₁ c₃ := fun path e found => first path e (later path e found)

theorem shrinks_drop_entry (h : Heap) (c : AssetCache) (path : Bytes) (e : CacheEntry) :
    Shrinks c (drop_entry h c path e) := by
  intro q e' found
  change Function.update c.entries path none q = some e' at found
  rw [Function.update_apply] at found
  split at found
  · cases found
  · exact found

theorem fst_get (c : AssetCache) (path : Bytes) : (get c path).1 = peek c path := by
  unfold get peek
  split
  · next missing => rw [missing, Option.map_none]
  · next found => rw [found, Option.map_some]

theorem shrinks_get (c : AssetCache) (path : Bytes) : Shrinks c (get c path).2 := by
  unfold get
  split <;> exact Shrinks.refl _

theorem shrinks_evict_walk (h : Heap) (param : Option AssetId) (c : AssetCache) (back : List Bytes) :
    Shrinks c (evict_walk h param c back) := by
  induction back generalizing c with
  | nil => exact Shrinks.refl c
  | cons path rest ih =>
    unfold evict_walk
    split
    · exact Shrinks.refl c
    · split
      · exact ih c
      · split
        · exact (shrinks_drop_entry h c path _).trans (ih _)
        · exact ih c

theorem shrinks_foldl {f : AssetCache → Bytes → AssetCache} (each : ∀ c path, Shrinks c (f c path))
    (paths : List Bytes) (c : AssetCache) : Shrinks c (paths.foldl f c) := by
  induction paths generalizing c with
  | nil => exact Shrinks.refl c
  | cons path rest ih => exact (each c path).trans (ih _)

theorem shrinks_clear_session (h : Heap) (c : AssetCache) (session_id : UInt32) :
    Shrinks c (clear_session h c session_id) := by
  unfold clear_session
  split
  · exact Shrinks.refl c
  · apply shrinks_foldl
    intro c path
    split
    · exact Shrinks.refl c
    · split
      · exact shrinks_drop_entry h c path _
      · exact Shrinks.refl c

theorem entries_insert {asset : AssetId} {session_id : UInt32} {path : Bytes} {e : CacheEntry}
    (found : (insert h c asset session_id).entries path = some e) :
    (path = (h.assets asset).path ∧ e.asset = asset) ∨
      (path ≠ (h.assets asset).path ∧ c.entries path = some e) := by
  have pushed := shrinks_evict_walk h (some asset) _ _ path e found
  unfold push at pushed
  simp only [Function.update_apply] at pushed
  split at pushed
  · next same =>
    cases pushed
    exact Or.inl ⟨same, rfl⟩
  · next other =>
    refine Or.inr ⟨other, ?_⟩
    split at pushed
    · exact pushed
    · exact shrinks_drop_entry h c _ _ path e pushed

end AssetCache

namespace AssetLibrary
open AssetCache

variable {lib lib₁ lib₂ lib₃ : AssetLibrary} {a : Asset}

/-- No object is made and nothing new is cached. -/
structure Quiet (lib lib' : AssetLibrary) : Prop where
  assets : lib'.heap.assets = lib.heap.assets
  next_asset : lib'.next_asset = lib.next_asset
  entries : Shrinks lib.cache_ lib'.cache_

/-- A fresh object is cached under its path. -/
structure Caches (a : Asset) (lib lib' : AssetLibrary) : Prop where
  assets : lib'.heap.assets = Function.update lib.heap.assets lib.next_asset a
  next_asset : lib'.next_asset = lib.next_asset + 1
  entries : ∀ path e, lib'.cache_.entries path = some e →
    (path = a.path ∧ e.asset = lib.next_asset) ∨ (path ≠ a.path ∧ lib.cache_.entries path = some e)

theorem Quiet.refl (lib : AssetLibrary) : Quiet lib lib := ⟨rfl, rfl, Shrinks.refl _⟩

theorem Quiet.trans (first : Quiet lib₁ lib₂) (later : Quiet lib₂ lib₃) : Quiet lib₁ lib₃ where
  assets := later.assets.trans first.assets
  next_asset := later.next_asset.trans first.next_asset
  entries := first.entries.trans later.entries

theorem Quiet.caches (first : Quiet lib₁ lib₂) (later : Caches a lib₂ lib₃) : Caches a lib₁ lib₃ where
  assets := by rw [later.assets, first.assets, first.next_asset]
  next_asset := by rw [later.next_asset, first.next_asset]
  entries := fun path e found => by
    rw [← first.next_asset]
    exact (later.entries path e found).imp_right fun rest => ⟨rest.1, first.entries path e rest.2⟩

theorem Caches.quiet (first : Caches a lib₁ lib₂) (later : Quiet lib₂ lib₃) : Caches a lib₁ lib₃ where
  assets := later.assets.trans first.assets
  next_asset := later.next_asset.trans first.next_asset
  entries := fun path e found => first.entries path e (later.entries path e found)

theorem quiet_of_mounts (mounts : List Mount) : Quiet lib { lib with mounts } := ⟨rfl, rfl, Shrinks.refl _⟩

theorem quiet_of_cache {cache_ : AssetCache} (shrinks : Shrinks lib.cache_ cache_) :
    Quiet lib { lib with cache_ } := ⟨rfl, rfl, shrinks⟩

theorem quiet_get_cached (lib : AssetLibrary) (key : Bytes) : Quiet lib (lib.get_cached key).2 := by
  refine ⟨?_, rfl, shrinks_get lib.cache_ key⟩
  change (Heap.take lib.heap (AssetCache.get lib.cache_ key).1).assets = lib.heap.assets
  cases (AssetCache.get lib.cache_ key).1 <;> rfl

theorem quiet_prefetch_unless_cached (lib : AssetLibrary) (path : Bytes) (extensions : List Bytes) :
    Quiet lib (lib.prefetch_unless_cached path extensions) := by
  have got := shrinks_get lib.cache_ path
  unfold prefetch_unless_cached
  split
  · next result =>
    rw [result] at got
    exact ⟨rfl, rfl, got⟩
  · exact quiet_of_mounts _

theorem quiet_fetch_data (lib : AssetLibrary) (path : Bytes) : Quiet lib (lib.fetch_data path).2 :=
  quiet_of_mounts _

theorem quiet_release_variants (lib : AssetLibrary) (path : Bytes) (extensions : List Bytes) :
    Quiet lib (lib.release_variants path extensions) := by
  unfold release_variants
  induction extensions generalizing lib with
  | nil => exact Quiet.refl lib
  | cons ext rest ih => exact (quiet_of_mounts _).trans (ih _)

theorem quiet_probe (path : Bytes) (lib : AssetLibrary) (extensions : List Bytes) :
    Quiet lib (probe path lib extensions).2 := by
  induction extensions generalizing lib with
  | nil => exact Quiet.refl lib
  | cons ext rest ih =>
    have fetched := quiet_fetch_data lib (with_extension path ext)
    unfold probe
    simp only
    split
    · next result =>
      rw [result] at fetched
      exact fetched
    · next result =>
      rw [result] at fetched
      exact fetched.trans (ih _)

theorem quiet_hold (lib : AssetLibrary) (asset : AssetId) : Quiet lib (lib.hold asset) :=
  ⟨rfl, rfl, Shrinks.refl _⟩

theorem quiet_drop (lib : AssetLibrary) (asset : AssetId) : Quiet lib (lib.drop asset) :=
  ⟨rfl, rfl, Shrinks.refl _⟩

theorem caches_cache_new (lib : AssetLibrary) (a : Asset) : Caches a lib (lib.cache_new a) where
  assets := rfl
  next_asset := rfl
  entries := fun path e found => by
    have inserted := entries_insert found
    have fresh : (lib.make_shared a).heap.assets lib.next_asset = a := Function.update_self ..
    rwa [fresh] at inserted

/-- What an operation that looks for an asset comes to: it is cached under the key, nothing is there and
nothing can be loaded, or it is loaded and cached. -/
inductive Outcome (lib : AssetLibrary) (key : Bytes) (kind : AssetKind) :
    Option AssetId × AssetLibrary → Prop where
  | hit {lib' : AssetLibrary} (e : CacheEntry) (found : lib.cache_.entries key = some e)
      (quiet : Quiet lib lib') : Outcome lib key kind (some e.asset, lib')
  | miss {lib' : AssetLibrary} (missing : lib.cache_.entries key = none) (quiet : Quiet lib lib') :
      Outcome lib key kind (none, lib')
  | load {lib' : AssetLibrary} (a : Asset) (missing : lib.cache_.entries key = none)
      (path : a.path = key) (class_ : a.kind = kind) (caches : Caches a lib lib') :
      Outcome lib key kind (some lib.next_asset, lib')

theorem get_cached_hit {key : Bytes} {e : CacheEntry} (found : lib.cache_.entries key = some e) :
    (lib.get_cached key).1 = some e.asset := by
  refine (fst_get lib.cache_ key).trans ?_
  unfold peek
  rw [found, Option.map_some]

theorem get_cached_miss {key : Bytes} (missing : lib.cache_.entries key = none) :
    lib.get_cached key = (none, lib) := by
  have got : AssetCache.get lib.cache_ key = (none, lib.cache_) := by
    unfold AssetCache.get
    simp only [missing]
  unfold get_cached
  rw [got]
  rfl

theorem lookup_hit {key : Bytes} {load : AssetLibrary → Option AssetId × AssetLibrary} {e : CacheEntry}
    (found : lib.cache_.entries key = some e) :
    lib.lookup key load = (some e.asset, (lib.get_cached key).2) := by
  have hit := get_cached_hit found
  unfold lookup
  split
  · next result =>
    rw [result] at hit ⊢
    cases hit
    rfl
  · next result =>
    rw [result] at hit
    cases hit

theorem lookup_miss {key : Bytes} {load : AssetLibrary → Option AssetId × AssetLibrary}
    (missing : lib.cache_.entries key = none) : lib.lookup key load = load lib := by
  unfold lookup
  rw [get_cached_miss missing]

theorem lookup_outcome {key : Bytes} {kind : AssetKind} {load : AssetLibrary → Option AssetId × AssetLibrary}
    (loads : lib.cache_.entries key = none → Outcome lib key kind (load lib)) :
    Outcome lib key kind (lib.lookup key load) := by
  cases found : lib.cache_.entries key with
  | some e =>
    rw [lookup_hit found]
    exact .hit e found (quiet_get_cached lib key)
  | none =>
    rw [lookup_miss found]
    exact loads found

theorem load_outcome {path : Bytes} {extensions : List Bytes} {decode : Bytes → Bytes → Option Asset}
    {kind : AssetKind}
    (made : ∀ resolved data a, decode resolved data = some a → a.path = path ∧ a.kind = kind)
    (missing : lib.cache_.entries path = none) :
    Outcome lib path kind (lib.load path extensions decode) := by
  have probed := quiet_probe path lib extensions
  unfold load
  split
  · next result =>
    rw [result] at probed
    exact .miss missing probed
  · next resolved data lib' result =>
    rw [result] at probed
    have quiet : Quiet lib lib' := probed
    split
    · exact .miss missing quiet
    · next a decoded =>
      obtain ⟨at_path, class_⟩ := made resolved data a decoded
      rw [quiet.next_asset]
      exact .load a missing at_path class_
        ((quiet.caches (caches_cache_new lib' a)).quiet (quiet_release_variants _ path _))

variable (d : Decoders)

theorem decode_image_made {path resolved data : Bytes} {a : Asset}
    (decoded : decode_image d path resolved data = some a) : a.path = path ∧ a.kind = .image := by
  obtain ⟨image, -, rfl⟩ := Option.map_eq_some_iff.mp decoded
  exact ⟨rfl, rfl⟩

theorem decode_audio_made {path resolved data : Bytes} {a : Asset}
    (decoded : decode_audio d path resolved data = some a) : a.path = path ∧ a.kind = .sound := by
  obtain ⟨sound, -, rfl⟩ := Option.map_eq_some_iff.mp decoded
  exact ⟨rfl, rfl⟩

theorem image_outcome (path : Bytes) : Outcome lib path .image (lib.image d path) :=
  lookup_outcome (load_outcome fun _ _ _ => decode_image_made d)

theorem audio_outcome (path : Bytes) : Outcome lib path .sound (lib.audio d path) :=
  lookup_outcome (load_outcome fun _ _ _ => decode_audio_made d)

end AssetLibrary

end AoSdl
