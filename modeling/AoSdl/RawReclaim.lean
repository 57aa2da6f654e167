import AoSdl.AssetLookups
import AoSdl.Lib.Runs
import AoSdl.MountLookups

/-! The raw bytes of what is decoded: all variants of a path are released when one of them is decoded, and
a variant that is still being downloaded is stored after that. -/
namespace AoSdl.AssetLibrary.Reclaim
open AssetCache HttpPool Lib.Runs MountManager MountHttp

/-- What the callers of the library do, and what other threads do to mount `i`: the completion of a download
is its `on_response`. -/
inductive Event where
  | prefetch (path : Bytes) (extensions : List Bytes) (priority : HttpPriority)
  | prefetch_image (path : Bytes)
  | prefetch_audio (path : Bytes)
  | prefetch_config (path : Bytes)
  | image (path : Bytes)
  | audio (path : Bytes)
  | hold (asset : AssetId)
  | drop (asset : AssetId)
  | evict
  | other (i : ℕ) (op : MountOp)

section

variable (d : Decoders)

def step (lib : AssetLibrary) : Event → AssetLibrary
  | .prefetch path extensions priority => lib.prefetch path extensions priority
  | .prefetch_image path => lib.prefetch_image path
  | .prefetch_audio path => lib.prefetch_audio d path
  | .prefetch_config path => lib.prefetch_config path
  | .image path => (lib.image d path).2
  | .audio path => (lib.audio d path).2
  | .hold asset => lib.hold asset
  | .drop asset => lib.drop asset
  | .evict => { lib with cache_ := AssetCache.evict lib.heap lib.cache_ }
  | .other i op => { lib with mounts := lib.mounts.modify i (change_http fun m => op.apply m) }

end

def HasRaw (mounts : List Mount) (path : Bytes) : Prop :=
  ∃ m, Mount.http m ∈ mounts ∧ (m.cache_ (lowercase_path path)).isSome

def IsPending (mounts : List Mount) (path : Bytes) : Prop :=
  ∃ m, Mount.http m ∈ mounts ∧ lowercase_path path ∈ m.pending_

/-- An image or a sound is cached under the path. -/
def Decoded (lib : AssetLibrary) (path : Bytes) : Prop := lib.cache_.entries path ≠ none

/-- The completion stores a file. -/
def Stores (mounts : List Mount) (i : ℕ) (path : Bytes) (resp : Answer) : Prop :=
  ∃ m, mounts[i]? = some (.http m) ∧ path ∈ m.pending_ ∧ ∃ body, body ≠ [] ∧ resp = .answered 200 body

section Variants

variable (exts : Bytes → Set Bytes)

/-- Once no variant of a decoded path is pending, no mount holds bytes for one. `exts` says which extensions
make a variant of a path. -/
def Reclaimed (lib : AssetLibrary) : Prop :=
  ∀ path, Decoded lib path → (∀ ext ∈ exts path, ¬IsPending lib.mounts (with_extension path ext)) →
    ∀ ext ∈ exts path, ¬HasRaw lib.mounts (with_extension path ext)

/-- The same at every moment. -/
def Clean (lib : AssetLibrary) : Prop :=
  ∀ path, Decoded lib path → ∀ ext ∈ exts path, ¬HasRaw lib.mounts (with_extension path ext)

/-- A path that is not cached has bytes only in variants that are one of the extensions, letter case apart. -/
def Supported (lib : AssetLibrary) (path : Bytes) (extensions : List Bytes) : Prop :=
  ¬Decoded lib path → ∀ ext ∈ exts path, HasRaw lib.mounts (with_extension path ext) →
    ∃ known ∈ extensions, lowercase_path (with_extension path known) = lowercase_path (with_extension path ext)

/-- What is to be decoded has bytes in supported variants only, and a file that arrives is not a variant of a
path that is decoded already. -/
def Timely (d : Decoders) (lib : AssetLibrary) : Event → Prop
  | .image path => Supported exts lib path (supported_image_extensions d)
  | .audio path => Supported exts lib path (supported_audio_extensions d)
  | .other i (.on_response p resp) => Stores lib.mounts i p resp →
      ∀ path, Decoded lib path → ∀ ext ∈ exts path, lowercase_path (with_extension path ext) ≠ p
  | _ => True

end Variants

theorem Clean.reclaimed {exts : Bytes → Set Bytes} {lib : AssetLibrary} (clean : Clean exts lib) :
    Reclaimed exts lib := fun path decoded _ => clean path decoded

section Raw

variable {mounts mounts' : List Mount}

/-- The mount caches no more than before. -/
def Leaner (m m' : MountHttp) : Prop := ∀ q, (m'.cache_ q).isSome → (m.cache_ q).isSome

def AddsNoRaw (mounts mounts' : List Mount) : Prop := ∀ path, HasRaw mounts' path → HasRaw mounts path

theorem AddsNoRaw.refl (mounts : List Mount) : AddsNoRaw mounts mounts := fun _ => id

theorem AddsNoRaw.trans {mounts'' : List Mount} (first : AddsNoRaw mounts mounts')
    (later : AddsNoRaw mounts' mounts'') : AddsNoRaw mounts mounts'' := fun path raw => first path (later path raw)

theorem leaner_of_cache {m m' : MountHttp} (same : m'.cache_ = m.cache_) : Leaner m m' := by
  intro q
  rw [same]
  exact id

theorem leaner_request (m : MountHttp) (path : Bytes) (priority : HttpPriority) :
    Leaner m (m.request path priority).1 := by
  rcases request_cases m path priority with ⟨-, same⟩ | ⟨-, -, -, -, marked⟩ | ⟨-, -, -, -, starts⟩
  · exact leaner_of_cache (by rw [same])
  · exact leaner_of_cache (by rw [marked])
  · exact leaner_of_cache (by rw [starts])

theorem leaner_release (m : MountHttp) (path : Bytes) : Leaner m (m.release path) := by
  intro q stored
  change (Function.update m.cache_ (lowercase_path path) none q).isSome at stored
  rw [Function.update_apply] at stored
  split at stored
  · cases stored
  · exact stored

theorem addsNoRaw_of_leaner
    (leaner : ∀ m', Mount.http m' ∈ mounts' → ∃ m, Mount.http m ∈ mounts ∧ Leaner m m') :
    AddsNoRaw mounts mounts' := by
  rintro path ⟨m', member, raw⟩
  obtain ⟨m, before, less⟩ := leaner m' member
  exact ⟨m, before, less _ raw⟩

theorem addsNoRaw_map {f : MountHttp → MountHttp} (leaner : ∀ m, Leaner m (f m)) :
    AddsNoRaw mounts (mounts.map (change_http f)) := by
  refine addsNoRaw_of_leaner fun m' member => ?_
  obtain ⟨mount, inside, same⟩ := List.mem_map.mp member
  cases mount with
  | other files => cases same
  | http m =>
    cases same
    exact ⟨m, inside, leaner m⟩

theorem addsNoRaw_modify {f : MountHttp → MountHttp} (leaner : ∀ m, Leaner m (f m)) (i : ℕ) :
    AddsNoRaw mounts (mounts.modify i (change_http f)) := by
  refine addsNoRaw_of_leaner fun m' member => ?_
  rcases mem_modify member with before | ⟨m, before, same⟩
  · exact ⟨m', before, fun _ => id⟩
  · cases same
    exact ⟨m, before, leaner m⟩

theorem addsNoRaw_cons {m m' : Mount} (head : AddsNoRaw [m] [m']) (rest : AddsNoRaw mounts mounts') :
    AddsNoRaw (m :: mounts) (m' :: mounts') := by
  rintro path ⟨h, member, raw⟩
  rcases List.mem_cons.mp member with rfl | later
  · obtain ⟨g, here, before⟩ := head path ⟨h, List.mem_singleton_self _, raw⟩
    exact ⟨g, List.mem_cons.mpr (Or.inl (List.mem_singleton.mp here)), before⟩
  · obtain ⟨g, there, before⟩ := rest path ⟨h, later, raw⟩
    exact ⟨g, List.mem_cons_of_mem _ there, before⟩

theorem addsNoRaw_http {m m' : MountHttp} (leaner : Leaner m m') : AddsNoRaw [.http m] [.http m'] := by
  refine addsNoRaw_of_leaner fun h member => ?_
  cases List.mem_singleton.mp member
  exact ⟨m, List.mem_singleton_self _, leaner⟩

theorem addsNoRaw_request_http (path : Bytes) (priority : HttpPriority) (primary_failed : Option Bool)
    (mounts : List Mount) : AddsNoRaw mounts (request_http path priority primary_failed mounts) := by
  induction mounts generalizing primary_failed with
  | nil =>
    unfold request_http
    exact AddsNoRaw.refl []
  | cons mount rest ih =>
    cases mount with
    | other files =>
      unfold request_http
      exact addsNoRaw_cons (AddsNoRaw.refl _) (ih primary_failed)
    | http m =>
      have asked := leaner_request m path priority
      cases primary_failed with
      | none =>
        unfold request_http
        exact addsNoRaw_cons (addsNoRaw_http asked) (ih _)
      | some failed =>
        unfold request_http
        refine addsNoRaw_cons (addsNoRaw_http ?_) (ih _)
        split
        · exact asked
        · exact fun _ => id

theorem addsNoRaw_prefetch (mounts : List Mount) (path : Bytes) (priority : HttpPriority) :
    AddsNoRaw mounts (MountManager.prefetch mounts path priority) := by
  unfold MountManager.prefetch
  split
  · exact AddsNoRaw.refl mounts
  · exact addsNoRaw_request_http path priority none mounts

theorem addsNoRaw_foldl_prefetch (path : Bytes) (extensions : List Bytes) (priority : HttpPriority)
    (mounts : List Mount) :
    AddsNoRaw mounts (extensions.foldl (fun mounts ext =>
      MountManager.prefetch mounts (with_extension path ext) priority) mounts) := by
  induction extensions generalizing mounts with
  | nil => exact AddsNoRaw.refl mounts
  | cons ext rest ih => exact (addsNoRaw_prefetch mounts _ priority).trans (ih _)

theorem addsNoRaw_fetch_data (mounts : List Mount) (path : Bytes) :
    AddsNoRaw mounts (MountManager.fetch_data mounts path).2 := by
  unfold MountManager.fetch_data
  split
  · exact AddsNoRaw.refl mounts
  · simp only
    split
    · refine addsNoRaw_map fun m => ?_
      unfold MountManager.ask
      split
      · exact fun _ => id
      · exact leaner_request m path .HIGH
    · exact AddsNoRaw.refl mounts

theorem not_hasRaw_release_http (mounts : List Mount) (path : Bytes) :
    ¬HasRaw (MountManager.release_http mounts path) path := by
  rintro ⟨m', member, raw⟩
  obtain ⟨mount, -, same⟩ := List.mem_map.mp member
  cases mount with
  | other files => cases same
  | http m =>
    cases same
    change (Function.update m.cache_ (lowercase_path path) none (lowercase_path path)).isSome at raw
    rw [Function.update_self] at raw
    cases raw

theorem addsNoRaw_release_http (mounts : List Mount) (path : Bytes) :
    AddsNoRaw mounts (MountManager.release_http mounts path) := addsNoRaw_map fun m => leaner_release m path

theorem isSome_on_response (m : MountHttp) (p : Bytes) (resp : Answer) (q : Bytes) :
    ((m.on_response p resp).cache_ q).isSome ↔ (m.cache_ q).isSome ∨
      ((p ∈ m.pending_ ∧ ∃ body, body ≠ [] ∧ resp = .answered 200 body) ∧ q = p) := by
  by_cases pending : p ∈ m.pending_
  · rcases on_response_cases pending resp with ⟨rfl, done⟩ | ⟨body, rfl, filled, done⟩ | ⟨body, rfl, done⟩ |
      ⟨status, body, rfl, bad, -, done⟩
    · rw [done]
      simp
    · have stored : (m.on_response p (.answered 200 body)).cache_ = Function.update m.cache_ p (some body) :=
        congrArg MountHttp.cache_ done
      rw [stored]
      by_cases same : q = p
      · subst same
        rw [Function.update_self]
        exact iff_of_true rfl (Or.inr ⟨⟨pending, body, filled, rfl⟩, rfl⟩)
      · simp only [Function.update_of_ne same, same, and_false, or_false]
    · rw [done]
      simp
    · rw [done]
      refine ⟨Or.inl, ?_⟩
      rintro (before | ⟨⟨-, body', filled, same⟩, -⟩)
      · exact before
      · cases same
        exact absurd ⟨rfl, filled⟩ bad
  · have ignored : m.on_response p resp = m := if_pos pending
    rw [ignored]
    simp only [pending, false_and, or_false]

/-- A completion adds the bytes that it stores, under their lower-case path. -/
theorem hasRaw_on_response {i : ℕ} {p path : Bytes} {resp : Answer} :
    HasRaw (mounts.modify i (change_http fun m => m.on_response p resp)) path ↔
      HasRaw mounts path ∨ (Stores mounts i p resp ∧ lowercase_path path = p) := by
  constructor
  · rintro ⟨m', member, raw⟩
    obtain ⟨k, found⟩ := List.mem_iff_getElem?.mp member
    rw [List.getElem?_modify] at found
    obtain ⟨mount, at_, changed⟩ := Option.map_eq_some_iff.mp found
    have inside : mount ∈ mounts := List.mem_of_getElem? at_
    split at changed
    · next here =>
      subst here
      cases mount with
      | other files => cases changed
      | http m =>
        cases changed
        rcases (isSome_on_response m p resp _).mp raw with before | ⟨⟨pending, stored⟩, same⟩
        · exact Or.inl ⟨m, inside, before⟩
        · exact Or.inr ⟨⟨m, at_, pending, stored⟩, same⟩
    · obtain rfl : mount = .http m' := changed
      exact Or.inl ⟨m', inside, raw⟩
  · have there {k : ℕ} {m : MountHttp} (at_ : mounts[k]? = some (.http m))
        (raw : ((m.on_response p resp).cache_ (lowercase_path path)).isSome ∧
          (m.cache_ (lowercase_path path)).isSome ∨
          k = i ∧ ((m.on_response p resp).cache_ (lowercase_path path)).isSome) :
        HasRaw (mounts.modify i (change_http fun m => m.on_response p resp)) path := by
      by_cases here : i = k
      · refine ⟨m.on_response p resp, List.mem_of_getElem? (i := k) ?_, raw.elim And.left And.right⟩
        rw [List.getElem?_modify, at_, here]
        simp [change_http]
      · refine ⟨m, List.mem_of_getElem? (i := k) ?_, raw.elim And.right fun both => absurd both.1.symm here⟩
        rw [List.getElem?_modify, at_]
        simp [here]
    rintro (⟨m, member, raw⟩ | ⟨⟨m, at_, pending, stored⟩, same⟩)
    · obtain ⟨k, at_⟩ := List.mem_iff_getElem?.mp member
      exact there at_ (Or.inl ⟨(isSome_on_response m p resp _).mpr (Or.inl raw), raw⟩)
    · exact there at_ (Or.inr ⟨rfl, (isSome_on_response m p resp _).mpr (Or.inr ⟨⟨pending, stored⟩, same⟩)⟩)

end Raw

section Library

variable {d : Decoders} {exts : Bytes → Set Bytes} {lib lib' : AssetLibrary} {path : Bytes}
  {extensions : List Bytes}

theorem addsNoRaw_probe (path : Bytes) (lib : AssetLibrary) (extensions : List Bytes) :
    AddsNoRaw lib.mounts (probe path lib extensions).2.mounts := by
  induction extensions generalizing lib with
  | nil => exact AddsNoRaw.refl _
  | cons ext rest ih =>
    have fetched : AddsNoRaw lib.mounts (lib.fetch_data (with_extension path ext)).2.mounts :=
      addsNoRaw_fetch_data lib.mounts (with_extension path ext)
    unfold probe
    simp only
    split
    · next result =>
      rw [result] at fetched
      exact fetched
    · next result =>
      rw [result] at fetched
      exact fetched.trans (ih _)

theorem addsNoRaw_release_variants (lib : AssetLibrary) (path : Bytes) (extensions : List Bytes) :
    AddsNoRaw lib.mounts (lib.release_variants path extensions).mounts := by
  unfold release_variants
  induction extensions generalizing lib with
  | nil => exact AddsNoRaw.refl _
  | cons ext rest ih => exact (addsNoRaw_release_http lib.mounts _).trans (ih _)

theorem not_hasRaw_release_variants (lib : AssetLibrary) {ext : Bytes} (variant : ext ∈ extensions) :
    ¬HasRaw (lib.release_variants path extensions).mounts (with_extension path ext) := by
  induction extensions generalizing lib with
  | nil => cases variant
  | cons first rest ih =>
    rcases List.mem_cons.mp variant with rfl | later
    · intro raw
      exact not_hasRaw_release_http lib.mounts _
        (addsNoRaw_release_variants (lib.release_http (with_extension path ext)) path rest _ raw)
    · exact ih (lib.release_http (with_extension path first)) later

/-- What a lookup that caches a path leaves of its raw bytes: nothing. -/
structure Releases (extensions : List Bytes) (lib : AssetLibrary) (path : Bytes)
    (r : Option AssetId × AssetLibrary) : Prop where
  adds : AddsNoRaw lib.mounts r.2.mounts
  gone : lib.cache_.entries path = none → r.1.isSome →
    ∀ ext ∈ extensions, ¬HasRaw r.2.mounts (with_extension path ext)

theorem releases_load (lib : AssetLibrary) (path : Bytes) (extensions : List Bytes)
    (decode : Bytes → Bytes → Option Asset) : Releases extensions lib path (lib.load path extensions decode) := by
  have probed := addsNoRaw_probe path lib extensions
  unfold load
  split
  · next result =>
    rw [result] at probed
    exact ⟨probed, fun _ nothing => by cases nothing⟩
  · next resolved data lib' result =>
    rw [result] at probed
    split
    · exact ⟨probed, fun _ nothing => by cases nothing⟩
    · next a decoded =>
      exact ⟨probed.trans (addsNoRaw_release_variants (lib'.cache_new a) path extensions),
        fun _ _ ext variant => not_hasRaw_release_variants (lib'.cache_new a) variant⟩

theorem releases_lookup {load : AssetLibrary → Option AssetId × AssetLibrary}
    (releases : Releases extensions lib path (load lib)) :
    Releases extensions lib path (lib.lookup path load) := by
  cases found : lib.cache_.entries path with
  | some e =>
    rw [lookup_hit found]
    exact ⟨AddsNoRaw.refl _, fun missing => by rw [found] at missing; cases missing⟩
  | none =>
    rw [lookup_miss found]
    exact releases

theorem decoded_of_quiet (quiet : Quiet lib lib') (decoded : Decoded lib' path) : Decoded lib path := by
  intro missing
  refine decoded (Option.eq_none_iff_forall_not_mem.mpr fun e found => ?_)
  rw [quiet.entries path e found] at missing
  cases missing

theorem Clean.quiet (clean : Clean exts lib) (quiet : Quiet lib lib')
    (adds : AddsNoRaw lib.mounts lib'.mounts) : Clean exts lib' :=
  fun path decoded ext variant raw => clean path (decoded_of_quiet quiet decoded) ext variant (adds _ raw)

/-- What is left when the path itself is decoded: nothing, since what was there is among what is released. -/
theorem Clean.caches (clean : Clean exts lib) {a : Asset} (caches : Caches a lib lib')
    (adds : AddsNoRaw lib.mounts lib'.mounts) (missing : lib.cache_.entries a.path = none)
    (supported : Supported exts lib a.path extensions)
    (gone : ∀ ext ∈ extensions, ¬HasRaw lib'.mounts (with_extension a.path ext)) : Clean exts lib' := by
  intro path decoded ext variant raw
  obtain ⟨e, found⟩ := Option.ne_none_iff_exists'.mp decoded
  rcases caches.entries path e found with ⟨rfl, -⟩ | ⟨-, before⟩
  · obtain ⟨known, listed, same⟩ := supported (not_not.mpr missing) ext variant (adds _ raw)
    refine gone known listed ?_
    unfold HasRaw at raw ⊢
    rwa [same]
  · refine clean path ?_ ext variant (adds _ raw)
    rw [Decoded, before]
    exact Option.some_ne_none e

/-- A lookup keeps what is clean clean when it meets supported variants only. -/
theorem clean_of_outcome {r : Option AssetId × AssetLibrary} {kind : AssetKind} (clean : Clean exts lib)
    (outcome : Outcome lib path kind r) (releases : Releases extensions lib path r)
    (supported : Supported exts lib path extensions) : Clean exts r.2 := by
  cases outcome with
  | hit e found quiet => exact clean.quiet quiet releases.adds
  | miss missing quiet => exact clean.quiet quiet releases.adds
  | load a missing at_path class_ caches =>
    subst at_path
    exact clean.caches caches releases.adds missing supported (releases.gone missing rfl)

theorem addsNoRaw_prefetch_unless_cached (lib : AssetLibrary) (path : Bytes) (extensions : List Bytes) :
    AddsNoRaw lib.mounts (lib.prefetch_unless_cached path extensions).mounts := by
  unfold prefetch_unless_cached
  split
  · exact AddsNoRaw.refl _
  · exact addsNoRaw_foldl_prefetch path extensions .NORMAL lib.mounts

theorem leaner_apply {op : MountOp} (other : ∀ path resp, op ≠ .on_response path resp) (m : MountHttp) :
    Leaner m (op.apply m) := by
  cases op with
  | request path priority => exact leaner_request m path priority
  | on_response path resp => exact absurd rfl (other path resp)
  | on_streamed path resp got_data =>
    rcases on_streamed_cases m path resp got_data with ⟨_, -, -, done⟩ | ⟨_, -, done⟩ | ⟨-, done⟩ <;>
      exact leaner_of_cache (congrArg (fun result => result.1.cache_) done)
  | release path => exact leaner_release m path
  | release_all => exact fun q stored => by cases stored

theorem hasRaw_arrival {i : ℕ} {p : Bytes} {resp : Answer} :
    HasRaw (step d lib (.other i (.on_response p resp))).mounts path ↔
      HasRaw lib.mounts path ∨ (Stores lib.mounts i p resp ∧ lowercase_path path = p) := hasRaw_on_response

theorem not_stores_missing {i : ℕ} {p body : Bytes} : ¬Stores lib.mounts i p (.answered 404 body) := by
  rintro ⟨m, -, -, body', -, same⟩
  cases same

theorem clean_on_response (clean : Clean exts lib) (i : ℕ) (p : Bytes) (resp : Answer)
    (timely : Timely exts d lib (.other i (.on_response p resp))) :
    Clean exts (step d lib (.other i (.on_response p resp))) := by
  intro path decoded ext variant raw
  rcases hasRaw_arrival.mp raw with before | ⟨stores, same⟩
  · exact clean path decoded ext variant before
  · exact timely stores path decoded ext variant same

theorem step_clean (clean : Clean exts lib) (ev : Event) (timely : Timely exts d lib ev) :
    Clean exts (step d lib ev) := by
  cases ev with
  | prefetch path extensions priority =>
    exact clean.quiet (quiet_of_mounts _) (addsNoRaw_foldl_prefetch path extensions priority _)
  | prefetch_image path =>
    exact clean.quiet (quiet_prefetch_unless_cached lib path _) (addsNoRaw_prefetch_unless_cached lib path _)
  | prefetch_audio path =>
    exact clean.quiet (quiet_prefetch_unless_cached lib path _) (addsNoRaw_prefetch_unless_cached lib path _)
  | prefetch_config path => exact clean.quiet (quiet_of_mounts _) (addsNoRaw_prefetch _ path .NORMAL)
  | image path => exact clean_of_outcome clean (image_outcome d path) (releases_lookup (releases_load lib path _ _)) timely
  | audio path => exact clean_of_outcome clean (audio_outcome d path) (releases_lookup (releases_load lib path _ _)) timely
  | hold asset => exact clean.quiet (quiet_hold lib asset) (AddsNoRaw.refl _)
  | drop asset => exact clean.quiet (quiet_drop lib asset) (AddsNoRaw.refl _)
  | evict =>
    exact clean.quiet (quiet_of_cache (shrinks_evict_walk lib.heap none lib.cache_ _)) (AddsNoRaw.refl _)
  | other i op =>
    cases op with
    | on_response p resp => exact clean_on_response clean i p resp timely
    | _ => exact clean.quiet (quiet_of_mounts _) (addsNoRaw_modify (leaner_apply (by simp)) i)

end Library

/-- For every choice of the extensions that make a variant: the raw bytes of decoded paths are reclaimed in
every run in which no variant of a decoded path arrives, and a path has bytes in supported variants only when
it is to be decoded. -/
theorem reclaimed_of_timely (d : Decoders) (exts : Bytes → Set Bytes) (configs : List MountConfig)
    (cache_max_bytes : UInt64) (shader_backend : Bytes) (events : List Event)
    (timely : Throughout (step d) (Timely exts d)
      (AssetLibrary.new (configs.map MountConfig.mount) cache_max_bytes shader_backend) events) :
    Always (step d) (Reclaimed exts)
      (AssetLibrary.new (configs.map MountConfig.mount) cache_max_bytes shader_backend) events := by
  have clean : Clean exts (AssetLibrary.new (configs.map MountConfig.mount) cache_max_bytes shader_backend) :=
    fun path decoded => absurd rfl decoded
  have always := always_of_throughout (P := Clean exts) (fun lib ev clean timely => step_clean clean ev timely)
    clean timely
  exact always.mono fun _ => Clean.reclaimed

/-- One black pixel for everything that begins like a PNG. -/
def png_only : Decoders where
  webp := fun _ => []
  apng := fun data => if data.head? = some 137 then [([0, 0, 0, 255], ⟨1, 1, 0⟩)] else []
  gif := fun _ => []
  stbi := fun _ => []
  opus := fun _ => none
  miniaudio := fun _ => none

theorem not_hasRaw_new (configs : List MountConfig) (path : Bytes) :
    ¬HasRaw (configs.map MountConfig.mount) path := by
  rintro ⟨m, member, raw⟩
  obtain ⟨config, -, same⟩ := List.mem_map.mp member
  cases config with
  | other files => cases same
  | http host path_prefix =>
    cases same
    cases raw

/-- Two variants have come, and the other two are missing, when the image is decoded. -/
theorem reclaimed_early_webp :
    Always (step png_only) (Reclaimed fun _ => Set.univ)
      (AssetLibrary.new ([.http [] []].map MountConfig.mount) 1000 [])
      [.prefetch_image (bytes "a"), .other 0 (.on_response (bytes "a.apng") (.answered 404 [])),
        .other 0 (.on_response (bytes "a.webp") (.answered 200 [137])),
        .other 0 (.on_response (bytes "a.png") (.answered 200 [137])),
        .other 0 (.on_response (bytes "a.gif") (.answered 404 [])), .image (bytes "a")] := by
  refine reclaimed_of_timely png_only _ [.http [] []] 1000 [] _
    ⟨trivial, fun _ _ decoded => absurd rfl decoded, fun _ _ decoded => absurd rfl decoded,
      fun _ _ decoded => absurd rfl decoded, fun _ _ decoded => absurd rfl decoded, ?_, trivial⟩
  intro _ ext _ raw
  rcases hasRaw_arrival.mp raw with raw | ⟨gif, -⟩
  · rcases hasRaw_arrival.mp raw with raw | ⟨-, png⟩
    · rcases hasRaw_arrival.mp raw with raw | ⟨-, webp⟩
      · rcases hasRaw_arrival.mp raw with raw | ⟨apng, -⟩
        · exact absurd (addsNoRaw_prefetch_unless_cached _ (bytes "a") _ _ raw) (not_hasRaw_new [.http [] []] _)
        · exact absurd apng not_stores_missing
      · exact ⟨bytes "webp", by decide, by rw [webp]; decide⟩
    · exact ⟨bytes "png", by decide, by rw [png]; decide⟩
  · exact absurd gif not_stores_missing

/-- The image is decoded from its PNG while its other variants are still on their way. -/
def late_webp : List Event :=
  [.prefetch_image (bytes "a"), .other 0 (.on_response (bytes "a.png") (.answered 200 [137])),
    .image (bytes "a"), .other 0 (.on_response (bytes "a.apng") (.answered 404 [])),
    .other 0 (.on_response (bytes "a.webp") (.answered 200 [82])),
    .other 0 (.on_response (bytes "a.gif") (.answered 404 []))]

def after_late_webp : AssetLibrary :=
  run (step png_only) (AssetLibrary.new ([.http [] []].map MountConfig.mount) 1000 []) late_webp

def http_of : Mount → Option MountHttp
  | .http m => some m
  | .other _ => none

theorem http_of_eq {mount : Mount} {m : MountHttp} (found : http_of mount = some m) : mount = .http m := by
  cases mount with
  | other files => cases found
  | http m' => rw [Option.some.inj found]

theorem late_webp_stays :
    ¬Always (step png_only) (Reclaimed fun _ => Set.univ)
      (AssetLibrary.new ([.http [] []].map MountConfig.mount) 1000 []) late_webp := by
  intro always
  have reclaimed : Reclaimed (fun _ => Set.univ) after_late_webp :=
    always_iff_isPrefix.mp always _ (List.prefix_refl _)
  have cached : after_late_webp.cache_.entries (bytes "a") = some ⟨0, 0⟩ := by decide +kernel
  have idle : (after_late_webp.mounts.filterMap http_of).all (·.pending_ = ∅) = true := by decide +kernel
  have kept : (after_late_webp.mounts.filterMap http_of).any (fun m =>
      (m.cache_ (lowercase_path (with_extension (bytes "a") (bytes "webp")))).isSome) = true := by decide +kernel
  refine reclaimed (bytes "a") ?_ ?_ (bytes "webp") (Set.mem_univ _) ?_
  · rw [Decoded, cached]
    exact Option.some_ne_none _
  · rintro ext - ⟨m, member, pending⟩
    have listed : m ∈ after_late_webp.mounts.filterMap http_of := List.mem_filterMap.mpr ⟨_, member, rfl⟩
    have none_pending : m.pending_ = ∅ := of_decide_eq_true (List.all_eq_true.mp idle m listed)
    rw [none_pending] at pending
    cases pending
  · obtain ⟨m, listed, raw⟩ := List.any_eq_true.mp kept
    obtain ⟨mount, member, found⟩ := List.mem_filterMap.mp listed
    rw [http_of_eq found] at member
    exact ⟨m, member, raw⟩

end AoSdl.AssetLibrary.Reclaim
