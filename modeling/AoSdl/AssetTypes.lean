import AoSdl.AssetLookups
import AoSdl.Lib.Runs
import AoSdl.MountLookups

/-! One key space for the assets of all classes: what `image` and `audio` cast without a check is of their
class as long as no operation of another class has had their key. -/
namespace AoSdl.AssetLibrary
open AssetCache HttpPool Lib.Runs MountManager

/-- The operations of the library and its callers, and what other threads do to mount `i`. -/
inductive Op where
  | image (path : Bytes)
  | audio (path : Bytes)
  | audio_exact (path : Bytes)
  | config (path : Bytes)
  | raw (path : Bytes)
  | shader (path : Bytes)
  | create (a : Asset)
  | register_asset (asset : AssetId)
  | hold (asset : AssetId)
  | drop (asset : AssetId)
  | evict
  | set_active_session (session_id : UInt32)
  | clear_session (session_id : UInt32)
  | prefetch (path : Bytes) (extensions : List Bytes) (priority : HttpPriority)
  | prefetch_image (path : Bytes)
  | prefetch_audio (path : Bytes)
  | prefetch_config (path : Bytes)
  | other (i : ℕ) (op : MountOp)

section

variable (d : Decoders)

/-- Only an object that was made can be registered. -/
def Op.apply (lib : AssetLibrary) : Op → AssetLibrary
  | .image path => (lib.image d path).2
  | .audio path => (lib.audio d path).2
  | .audio_exact path => (lib.audio_exact d path).2
  | .config path => (lib.config path).2
  | .raw path => (lib.raw path).2
  | .shader path => (lib.shader path).2
  | .create a => lib.make_shared a
  | .register_asset asset => if asset < lib.next_asset then lib.register_asset asset else lib
  | .hold asset => lib.hold asset
  | .drop asset => lib.drop asset
  | .evict => { lib with cache_ := AssetCache.evict lib.heap lib.cache_ }
  | .set_active_session session_id => { lib with active_session_id_ := session_id }
  | .clear_session session_id =>
    { lib with cache_ := AssetCache.clear_session lib.heap lib.cache_ session_id }
  | .prefetch path extensions priority => lib.prefetch path extensions priority
  | .prefetch_image path => lib.prefetch_image path
  | .prefetch_audio path => lib.prefetch_audio d path
  | .prefetch_config path => lib.prefetch_config path
  | .other i op => { lib with mounts := lib.mounts.modify i (change_http fun m => op.apply m) }

/-- A lookup stores under its key only when nothing is there. -/
def on_miss (lib : AssetLibrary) (key : Bytes) (kind : AssetKind) : Option (Bytes × AssetKind) :=
  if (lib.cache_.entries key).isSome then none else some (key, kind)

/-- The key under which an operation may store something, and the class of what it stores there. -/
def Op.slot (lib : AssetLibrary) : Op → Option (Bytes × AssetKind)
  | .image path => lib.on_miss path .image
  | .audio path => lib.on_miss path .sound
  | .audio_exact path => lib.on_miss (before_last_dot path) .sound
  | .config path => lib.on_miss path .raw
  | .raw path => some (path, .raw)
  | .shader path => lib.on_miss (lib.shader_key path) .shader
  | .register_asset asset =>
    if asset < lib.next_asset then some ((lib.heap.assets asset).path, (lib.heap.assets asset).kind) else none
  | _ => none

/-- The key that an operation looks under, and the class that it casts to without a look. -/
def Op.casts : Op → Option (Bytes × AssetKind)
  | .image path => some (path, .image)
  | .audio path => some (path, .sound)
  | .audio_exact path => some (before_last_dot path, .sound)
  | _ => none

/-- The library, and the keys and classes of the operations so far. -/
structure Traced where
  lib : AssetLibrary
  slots : List (Bytes × AssetKind)

def step (s : Traced) (op : Op) : Traced where
  lib := op.apply d s.lib
  slots := s.slots ++ (op.slot s.lib).toList

def start (mounts : List Mount) (cache_max_bytes : UInt64) (shader_backend : Bytes) : Traced :=
  ⟨AssetLibrary.new mounts cache_max_bytes shader_backend, []⟩

/-- What the call returns is of the class that its caller gets a pointer to. -/
def CastValid (s : Traced) (op : Op) (kind : AssetKind) (returned : Option AssetId) : Prop :=
  ∀ asset, returned = some asset → ((op.apply d s.lib).heap.assets asset).kind = kind

def TypeSafe (s : Traced) (op : Op) : Prop :=
  match op with
  | .image path => CastValid d s op .image (s.lib.image d path).1
  | .audio path => CastValid d s op .sound (s.lib.audio d path).1
  | .audio_exact path => CastValid d s op .sound (s.lib.audio_exact d path).1
  | _ => True

/-- A key that is cast is vacant, or no operation of another class has had it. -/
def Unmixed (s : Traced) (op : Op) : Prop :=
  ∀ key kind, op.casts = some (key, kind) →
    s.lib.cache_.entries key = none ∨ ∀ slot ∈ s.slots, slot.1 = key → slot.2 = kind

end

variable {d : Decoders} {lib lib' : AssetLibrary} {key : Bytes} {kind : AssetKind}
  {slot : Option (Bytes × AssetKind)}

/-- What a step does to the objects and the entries: what is new there has the key and the class. -/
structure Effect (lib lib' : AssetLibrary) (slot : Option (Bytes × AssetKind)) : Prop where
  grows : lib.next_asset ≤ lib'.next_asset
  old : ∀ asset < lib.next_asset, lib'.heap.assets asset = lib.heap.assets asset
  entries : ∀ path e, lib'.cache_.entries path = some e → lib.cache_.entries path = some e ∨
    (e.asset < lib'.next_asset ∧ slot = some (path, (lib'.heap.assets e.asset).kind))

theorem Quiet.effect (quiet : Quiet lib lib') : Effect lib lib' slot where
  grows := quiet.next_asset.ge
  old := fun _ _ => by rw [quiet.assets]
  entries := fun path e found => Or.inl (quiet.entries path e found)

theorem Caches.effect {a : Asset} (caches : Caches a lib lib') : Effect lib lib' (some (a.path, a.kind)) where
  grows := by
    rw [caches.next_asset]
    exact Nat.le_succ _
  old := fun asset before => by rw [caches.assets, Function.update_of_ne before.ne]
  entries := fun path e found => by
    rcases caches.entries path e found with ⟨rfl, fresh⟩ | ⟨-, before⟩
    · refine Or.inr ⟨?_, ?_⟩
      · rw [caches.next_asset, fresh]
        exact Nat.lt_succ_self _
      · rw [caches.assets, fresh, Function.update_self]
    · exact Or.inl before

/-- An operation that stores at most something of its own class, under its own key when that is vacant. -/
def Makes (key : Bytes) (kind : AssetKind) (lib lib' : AssetLibrary) : Prop :=
  Quiet lib lib' ∨
    (lib.cache_.entries key = none ∧ ∃ a : Asset, a.path = key ∧ a.kind = kind ∧ Caches a lib lib')

theorem Makes.effect (makes : Makes key kind lib lib') : Effect lib lib' (lib.on_miss key kind) := by
  rcases makes with quiet | ⟨missing, a, rfl, rfl, caches⟩
  · exact quiet.effect
  · have vacant : lib.on_miss a.path a.kind = some (a.path, a.kind) := by
      unfold on_miss
      simp only [missing, Option.isSome_none, Bool.false_eq_true, if_false]
    rw [vacant]
    exact caches.effect

theorem Outcome.makes {r : Option AssetId × AssetLibrary} (outcome : Outcome lib key kind r) :
    Makes key kind lib r.2 := by
  cases outcome with
  | hit e found quiet => exact Or.inl quiet
  | miss missing quiet => exact Or.inl quiet
  | load a missing path class_ caches => exact Or.inr ⟨missing, a, path, class_, caches⟩

theorem audio_exact_outcome (path : Bytes) :
    Outcome lib (before_last_dot path) .sound (lib.audio_exact d path) := by
  refine lookup_outcome fun missing => ?_
  have fetched := quiet_fetch_data lib path
  unfold load_exact
  split
  · next result =>
    rw [result] at fetched
    exact .miss missing fetched
  · next data lib' result =>
    rw [result] at fetched
    have quiet : Quiet lib lib' := fetched
    simp only
    split
    · exact .miss missing quiet
    · rw [quiet.next_asset]
      exact .load _ missing rfl rfl ((quiet.caches (caches_cache_new lib' _)).quiet (quiet_of_mounts _))

theorem caches_cache_raw (lib : AssetLibrary) (path format data : Bytes) :
    Caches ⟨path, format, .raw data⟩ lib (lib.cache_raw path format data) :=
  ((caches_cache_new lib _).quiet (quiet_drop _ _)).quiet (quiet_of_mounts _)

theorem effect_raw (path : Bytes) : Effect lib (lib.raw path).2 (some (path, .raw)) := by
  have fetched := quiet_fetch_data lib path
  unfold AssetLibrary.raw
  split
  · exact (Quiet.refl lib).effect
  · split
    · next result =>
      rw [result] at fetched
      exact Quiet.effect fetched
    · next data lib' result =>
      rw [result] at fetched
      exact (Quiet.caches fetched (caches_cache_raw lib' path _ data)).effect

theorem makes_config (path : Bytes) : Makes path .raw lib (lib.config path).2 := by
  have fetched := quiet_fetch_data lib path
  unfold AssetLibrary.config
  split
  · exact Or.inl (Quiet.refl lib)
  · simp only
    split
    · next result =>
      rw [result] at fetched
      exact Or.inl fetched
    · next data lib' result =>
      rw [result] at fetched
      split
      · exact Or.inl fetched
      · next vacant =>
        have missing : lib.cache_.entries path = none := by
          unfold peek at vacant
          simpa using vacant
        exact Or.inr ⟨missing, _, rfl, rfl, fetched.caches (caches_cache_raw lib' path _ data)⟩

theorem makes_load_shader (path : Bytes) (missing : lib.cache_.entries (lib.shader_key path) = none) :
    Makes (lib.shader_key path) .shader lib (lib.load_shader path).2 := by
  unfold load_shader
  simp only
  generalize (if lib.shader_backend_ = bytes "Metal" then bytes "metal" else bytes "glsl") = subdir
  generalize (if lib.shader_backend_ = bytes "Metal" then [bytes "metal"]
    else [bytes "glsl", bytes "vert"]) = vert_exts
  generalize (if lib.shader_backend_ = bytes "Metal" then [bytes "metal"]
    else [bytes "glsl", bytes "frag"]) = frag_exts
  have vert := quiet_probe (path ++ bytes "/" ++ subdir ++ bytes "/vertex") lib vert_exts
  generalize probe (path ++ bytes "/" ++ subdir ++ bytes "/vertex") lib vert_exts = first at vert ⊢
  obtain ⟨vert_result, lib₁⟩ := first
  have frag := vert.trans (quiet_probe (path ++ bytes "/" ++ subdir ++ bytes "/fragment") lib₁ frag_exts)
  simp only
  generalize probe (path ++ bytes "/" ++ subdir ++ bytes "/fragment") lib₁ frag_exts = second at frag ⊢
  obtain ⟨frag_result, lib₂⟩ := second
  cases frag_result with
  | none => exact Or.inl frag
  | some frag_src =>
    cases vert_result with
    | none => exact Or.inl frag
    | some vert_src => exact Or.inr ⟨missing, _, rfl, rfl, frag.caches (caches_cache_new lib₂ _)⟩

theorem makes_shader (path : Bytes) : Makes (lib.shader_key path) .shader lib (lib.shader path).2 := by
  unfold AssetLibrary.shader
  cases found : lib.cache_.entries (lib.shader_key path) with
  | some e =>
    have hit := get_cached_hit found
    have got := quiet_get_cached lib (lib.shader_key path)
    split
    · next asset lib' result =>
      rw [result] at got
      split
      · exact Or.inl got
      · exact Or.inl (got.trans (quiet_drop lib' asset))
    · next result =>
      rw [result] at hit
      cases hit
  | none =>
    rw [get_cached_miss found]
    exact makes_load_shader path found

theorem effect_register_asset {asset : AssetId} (made : asset < lib.next_asset) :
    Effect lib (lib.register_asset asset)
      (some ((lib.heap.assets asset).path, (lib.heap.assets asset).kind)) where
  grows := le_rfl
  old := fun _ _ => rfl
  entries := fun path e found => by
    rcases entries_insert found with ⟨rfl, rfl⟩ | ⟨-, before⟩
    · exact Or.inr ⟨made, rfl⟩
    · exact Or.inl before

theorem effect_apply (d : Decoders) (lib : AssetLibrary) (op : Op) :
    Effect lib (op.apply d lib) (op.slot lib) := by
  cases op with
  | image path => exact (image_outcome d path).makes.effect
  | audio path => exact (audio_outcome d path).makes.effect
  | audio_exact path => exact (audio_exact_outcome path).makes.effect
  | config path => exact (makes_config path).effect
  | raw path => exact effect_raw path
  | shader path => exact (makes_shader path).effect
  | create a => exact ⟨Nat.le_succ _, fun asset before => Function.update_of_ne before.ne _ _, fun _ _ => Or.inl⟩
  | register_asset asset =>
    change Effect lib (if asset < lib.next_asset then lib.register_asset asset else lib)
      (if asset < lib.next_asset then some ((lib.heap.assets asset).path, (lib.heap.assets asset).kind)
        else none)
    split
    · next made => exact effect_register_asset made
    · exact (Quiet.refl lib).effect
  | hold asset => exact (quiet_hold lib asset).effect
  | drop asset => exact (quiet_drop lib asset).effect
  | evict => exact (quiet_of_cache (shrinks_evict_walk lib.heap none lib.cache_ _)).effect
  | set_active_session session_id =>
    have quiet : Quiet lib { lib with active_session_id_ := session_id } := ⟨rfl, rfl, Shrinks.refl _⟩
    exact quiet.effect
  | clear_session session_id =>
    exact (quiet_of_cache (shrinks_clear_session lib.heap lib.cache_ session_id)).effect
  | prefetch path extensions priority => exact (quiet_of_mounts _).effect
  | prefetch_image path => exact (quiet_prefetch_unless_cached lib path _).effect
  | prefetch_audio path => exact (quiet_prefetch_unless_cached lib path _).effect
  | prefetch_config path => exact (quiet_of_mounts _).effect
  | other i op => exact (quiet_of_mounts _).effect

/-- An object that is cached has been made, and an operation of its class has had its key. -/
def Typed (s : Traced) : Prop :=
  ∀ path e, s.lib.cache_.entries path = some e →
    e.asset < s.lib.next_asset ∧ (path, (s.lib.heap.assets e.asset).kind) ∈ s.slots

theorem Typed.step {s : Traced} (typed : Typed s) (op : Op) : Typed (step d s op) := by
  have effect := effect_apply d s.lib op
  intro path e found
  rcases effect.entries path e found with before | ⟨made, new⟩
  · obtain ⟨made, class_⟩ := typed path e before
    refine ⟨made.trans_le effect.grows, List.mem_append_left _ ?_⟩
    change (path, ((op.apply d s.lib).heap.assets e.asset).kind) ∈ s.slots
    rw [effect.old _ made]
    exact class_
  · refine ⟨made, List.mem_append_right _ ?_⟩
    rw [new]
    exact List.mem_singleton_self _

/-- The cast of a lookup is valid when the key is vacant or has been of one class. -/
theorem Outcome.castValid {s : Traced} (typed : Typed s) {r : Option AssetId × AssetLibrary}
    (outcome : Outcome s.lib key kind r)
    (unmixed : s.lib.cache_.entries key = none ∨ ∀ slot ∈ s.slots, slot.1 = key → slot.2 = kind) :
    ∀ asset, r.1 = some asset → (r.2.heap.assets asset).kind = kind := by
  intro asset returned
  cases outcome with
  | hit e found quiet =>
    cases returned
    rcases unmixed with vacant | unmixed
    · rw [found] at vacant
      cases vacant
    · rw [quiet.assets]
      exact unmixed _ (typed key e found).2 rfl
  | miss missing quiet => cases returned
  | load a missing path class_ caches =>
    cases returned
    rw [caches.assets, Function.update_self, class_]

/-- For every run of the library's operations: the casts of `image`, `audio` and `audio_exact` are all
valid if none of them finds something under a key that operations of two classes have had. -/
theorem typeSafe_of_unmixed (d : Decoders) (mounts : List Mount) (cache_max_bytes : UInt64)
    (shader_backend : Bytes) (ops : List Op)
    (unmixed : Throughout (step d) Unmixed (start mounts cache_max_bytes shader_backend) ops) :
    Throughout (step d) (TypeSafe d) (start mounts cache_max_bytes shader_backend) ops := by
  have empty : Typed (start mounts cache_max_bytes shader_backend) := by
    intro path e found
    cases found
  refine throughout_of_throughout (I := Typed) (fun s op typed _ => typed.step op) ?_ empty unmixed
  intro s op typed unmixed
  cases op with
  | image path => exact (image_outcome d path).castValid typed (unmixed path .image rfl)
  | audio path => exact (audio_outcome d path).castValid typed (unmixed path .sound rfl)
  | audio_exact path => exact (audio_exact_outcome path).castValid typed (unmixed _ .sound rfl)
  | _ => trivial

/-- No data is in a format that is known. -/
def no_decoders : Decoders := ⟨fun _ => [], fun _ => [], fun _ => [], fun _ => [], fun _ => none, fun _ => none⟩

def char_ini : Bytes := bytes "characters/Phoenix/char.ini"

/-- A character sheet, and a picture for every other file. -/
def phoenix : Mount :=
  .other fun path => if path = char_ini then .stored (bytes "[Options]\nname=Phoenix\n") else .stored [1]

def one_pixel : Decoders := { no_decoders with webp := fun data => [(data, ⟨1, 1, 0⟩)] }

/-- The picture is decoded at the first call and found in the cache at the second. -/
theorem typeSafe_sheet_and_picture :
    Throughout (step one_pixel) (TypeSafe one_pixel) (start [phoenix] 1000 [])
      [.config char_ini, .image (bytes "a"), .image (bytes "a"), .raw char_ini] := by
  refine typeSafe_of_unmixed one_pixel [phoenix] 1000 [] _ ⟨nofun, ?_, ?_, nofun, trivial⟩
  · intro key kind same
    cases same
    exact Or.inl (by decide +kernel)
  · intro key kind same
    cases same
    exact Or.inr (by decide +kernel)

def sheet_read : Traced := step no_decoders (start [phoenix] 1000 []) (.config char_ini)

/-- The character sheet is read, and then another player's emote is named `char.ini`. -/
theorem sheet_cast_to_image :
    (sheet_read.lib.image no_decoders char_ini).1 = some 0 ∧
    ¬Throughout (step no_decoders) (TypeSafe no_decoders) (start [phoenix] 1000 [])
      [.config char_ini, .image char_ini] := by
  have returned : (sheet_read.lib.image no_decoders char_ini).1 = some 0 := by decide +kernel
  have class_ : ((Op.apply no_decoders sheet_read.lib (.image char_ini)).heap.assets 0).kind = .raw := by
    decide +kernel
  refine ⟨returned, fun safe => ?_⟩
  have cast : CastValid no_decoders sheet_read (.image char_ini) .image
      (sheet_read.lib.image no_decoders char_ini).1 := safe.2.1
  have image := cast 0 returned
  rw [class_] at image
  cases image

end AoSdl.AssetLibrary
