import AoSdl.Lib.Runs
import AoSdl.MountManager

/-! A lookup while other threads release, request and complete: between `seek_file` and `fetch_data` of an
HTTP mount the file can go, and the empty vector that is returned then passes for its contents. -/
namespace AoSdl.MountManager
open Lib.Runs HttpPool

/-- Where the call is: it is about to seek in mount `i`, it found the file there, it is about to ask
mount `i` for a download or found that it has not failed, or it has returned. -/
inductive Fetch where
  | seek (i : ℕ)
  | found (i : ℕ)
  | ask (i : ℕ)
  | asking (i : ℕ)
  | done (result : Option Bytes)
deriving DecidableEq

/-- What other threads do to an HTTP mount, each with its lock. -/
inductive MountOp where
  | request (path : Bytes) (priority : HttpPriority)
  | on_response (path : Bytes) (resp : Answer)
  | on_streamed (path : Bytes) (resp : Answer) (got_data : Bool)
  | release (path : Bytes)
  | release_all

def MountOp.apply (m : MountHttp) : MountOp → MountHttp
  | .request path priority => (m.request path priority).1
  | .on_response path resp => m.on_response path resp
  | .on_streamed path resp got_data => (m.on_streamed path resp got_data).1
  | .release path => m.release path
  | .release_all => m.release_all

/-- The mounts, the call of `fetch_data(path)`, and all that a mount had stored for the path in some state
since the call began. -/
structure Lookup where
  mounts : List Mount
  path : Bytes
  fetch : Fetch
  seen : List Bytes

inductive Event where
  | call (path : Bytes)
  | fetch
  | other (i : ℕ) (op : MountOp)

def held (mounts : List Mount) (path : Bytes) : List Bytes := mounts.filterMap (stored path)

/-- The next step of the call. -/
def advance (mounts : List Mount) (path : Bytes) : Fetch → Fetch × List Mount
  | .seek i =>
    match mounts[i]? with
    | none => (if is_config path then .ask 0 else .done none, mounts)
    | some m => (if seek_file path m then .found i else .seek (i + 1), mounts)
  | .found i =>
    match mounts[i]?.bind (fetch_file path) with
    | some data => (.done (some data), mounts)
    | none => (.seek (i + 1), mounts)
  | .ask i =>
    match mounts[i]? with
    | none => (.done none, mounts)
    | some (.other _) => (.ask (i + 1), mounts)
    | some (.http m) => (if m.has_failed path then .ask (i + 1) else .asking i, mounts)
  | .asking i => (.ask (i + 1), mounts.modify i (change_http fun m => (m.request path .HIGH).1))
  | .done result => (.done result, mounts)

def step (s : Lookup) : Event → Lookup
  | .call path =>
    match s.fetch with
    | .done _ => { mounts := s.mounts, path, fetch := .seek 0, seen := held s.mounts path }
    | _ => s
  | .fetch =>
    let (fetch, mounts) := advance s.mounts s.path s.fetch
    { s with fetch, mounts, seen := s.seen ++ held mounts s.path }
  | .other i op =>
    let mounts := s.mounts.modify i (change_http fun m => op.apply m)
    { s with mounts, seen := s.seen ++ held mounts s.path }

/-- A mount as it is added. -/
inductive MountConfig where
  | other (files : Bytes → LocalFile)
  | http (host path_prefix : Bytes)

def MountConfig.mount : MountConfig → Mount
  | .other files => .other files
  | .http host path_prefix => .http (MountHttp.new host path_prefix)

/-- No call yet. -/
def start (configs : List MountConfig) : Lookup :=
  let mounts := configs.map MountConfig.mount
  ⟨mounts, [], .done none, held mounts []⟩

/-- What the call returned was stored somewhere while it ran. -/
def Honest (s : Lookup) : Prop := ∀ data, s.fetch = .done (some data) → data ∈ s.seen

/-- A mount at hand has an empty file under the path. -/
def HasEmpty (mounts : List Mount) (path : Bytes) : Prop :=
  ∃ files, Mount.other files ∈ mounts ∧ files path = .stored []

/-- The file that was found in an HTTP mount is still there when it is fetched, or an empty file is one
that a mount at hand has. -/
def Undisturbed (s : Lookup) : Event → Prop
  | .fetch => ∀ i m, s.fetch = .found i → s.mounts[i]? = some (.http m) →
      m.seek_file s.path = true ∨ HasEmpty s.mounts s.path
  | _ => True

theorem mem_held {mounts : List Mount} {path data : Bytes} :
    data ∈ held mounts path ↔ ∃ m ∈ mounts, stored path m = some data := List.mem_filterMap

/-- An HTTP mount caches no empty file. -/
def NonEmpty (m : MountHttp) : Prop := ∀ path, m.cache_ path ≠ some []

def AllNonEmpty (mounts : List Mount) : Prop := ∀ m, Mount.http m ∈ mounts → NonEmpty m

theorem NonEmpty.of_cache {m m' : MountHttp} (n : NonEmpty m) (same : m'.cache_ = m.cache_) : NonEmpty m' := by
  intro path
  rw [same]
  exact n path

theorem NonEmpty.update {m : MountHttp} (n : NonEmpty m) {m' : MountHttp} {path : Bytes} {data : Option Bytes}
    (some : data ≠ .some []) (changed : m'.cache_ = Function.update m.cache_ path data) : NonEmpty m' := by
  intro q
  rw [changed, Function.update_apply]
  split
  · exact some
  · exact n q

theorem NonEmpty.request {m : MountHttp} (n : NonEmpty m) (path : Bytes) (priority : HttpPriority) :
    NonEmpty (m.request path priority).1 := by
  rcases MountHttp.request_cases m path priority with ⟨-, same⟩ | ⟨-, -, -, -, marked⟩ | ⟨-, -, -, -, starts⟩
  · rwa [same]
  · rw [marked]
    exact n.of_cache rfl
  · rw [starts]
    exact n.of_cache rfl

theorem NonEmpty.on_response {m : MountHttp} (n : NonEmpty m) (path : Bytes) (resp : Answer) :
    NonEmpty (m.on_response path resp) := by
  by_cases pending : path ∈ m.pending_
  · rcases MountHttp.on_response_cases pending resp with ⟨-, done⟩ | ⟨body, -, some, done⟩ | ⟨_, -, done⟩ |
      ⟨_, _, -, -, -, done⟩
    · rw [done]
      exact n.of_cache rfl
    · rw [done]
      exact n.update (fun empty => some (Option.some.inj empty)) rfl
    · rw [done]
      exact n.of_cache rfl
    · rw [done]
      exact n.of_cache rfl
  · have ignored : m.on_response path resp = m := if_pos pending
    rwa [ignored]

theorem NonEmpty.apply {m : MountHttp} (n : NonEmpty m) (op : MountOp) : NonEmpty (op.apply m) := by
  cases op with
  | request path priority => exact n.request path priority
  | on_response path resp => exact n.on_response path resp
  | on_streamed path resp got_data =>
    rcases MountHttp.on_streamed_cases m path resp got_data with ⟨_, -, -, done⟩ | ⟨_, -, done⟩ | ⟨-, done⟩ <;>
      exact n.of_cache (congrArg (fun result => result.1.cache_) done)
  | release path =>
    have nothing : (none : Option Bytes) ≠ some [] := nofun
    exact n.update nothing rfl
  | release_all => exact fun _ => nofun

theorem mem_modify {mounts : List Mount} {i : ℕ} {f : MountHttp → MountHttp} {m : Mount}
    (member : m ∈ mounts.modify i (change_http f)) : m ∈ mounts ∨ ∃ h, Mount.http h ∈ mounts ∧ m = .http (f h) := by
  obtain ⟨k, found⟩ := List.mem_iff_getElem?.mp member
  rw [List.getElem?_modify] at found
  obtain ⟨before, at_, changed⟩ := Option.map_eq_some_iff.mp found
  have inside : before ∈ mounts := List.mem_of_getElem? at_
  split at changed
  · cases before with
    | other files => exact Or.inl (changed ▸ inside)
    | http h => exact Or.inr ⟨h, inside, changed.symm⟩
  · exact Or.inl (changed ▸ inside)

theorem other_mem_modify {mounts : List Mount} {i : ℕ} {f : MountHttp → MountHttp} {files : Bytes → LocalFile} :
    Mount.other files ∈ mounts.modify i (change_http f) ↔ Mount.other files ∈ mounts := by
  constructor
  · intro member
    rcases mem_modify member with before | ⟨h, -, same⟩
    · exact before
    · cases same
  · intro member
    obtain ⟨k, found⟩ := List.mem_iff_getElem?.mp member
    refine List.mem_of_getElem? (i := k) ?_
    rw [List.getElem?_modify, found]
    by_cases here : i = k
    · simp [here, change_http]
    · simp [here]

theorem AllNonEmpty.modify {mounts : List Mount} (all : AllNonEmpty mounts) {f : MountHttp → MountHttp}
    (keeps : ∀ m, NonEmpty m → NonEmpty (f m)) (i : ℕ) : AllNonEmpty (mounts.modify i (change_http f)) := by
  intro m member
  rcases mem_modify member with before | ⟨h, before, same⟩
  · exact all m before
  · cases same
    exact keeps h (all h before)

theorem hasEmpty_modify {mounts : List Mount} {f : MountHttp → MountHttp} {i : ℕ} {path : Bytes} :
    HasEmpty (mounts.modify i (change_http f)) path ↔ HasEmpty mounts path := by
  unfold HasEmpty
  simp only [other_mem_modify]

theorem nil_mem_held {mounts : List Mount} (all : AllNonEmpty mounts) {path : Bytes} :
    [] ∈ held mounts path ↔ HasEmpty mounts path := by
  rw [mem_held]
  constructor
  · rintro ⟨m, member, has⟩
    cases m with
    | http m => exact absurd has (all m member _)
    | other files =>
      refine ⟨files, member, ?_⟩
      unfold stored at has
      cases what : files path with
      | absent => simp [what] at has
      | broken => simp [what] at has
      | stored data =>
        simp only [what, Option.some.injEq] at has
        rw [has]
  · rintro ⟨files, member, empty⟩
    exact ⟨_, member, by simp [stored, empty]⟩

/-- What every interleaving keeps: what is stored has been seen, and an empty file was seen exactly if a
mount at hand has it. -/
structure Inv (s : Lookup) : Prop where
  all : AllNonEmpty s.mounts
  seen : held s.mounts s.path ⊆ s.seen
  empty : [] ∈ s.seen ↔ HasEmpty s.mounts s.path

theorem inv_start (configs : List MountConfig) : Inv (start configs) := by
  have all : AllNonEmpty (configs.map MountConfig.mount) := by
    intro m member
    obtain ⟨config, -, same⟩ := List.mem_map.mp member
    cases config with
    | other files => cases same
    | http host path_prefix =>
      cases same
      exact fun _ => nofun
  exact ⟨all, fun _ => id, nil_mem_held all⟩

theorem advance_mounts (mounts : List Mount) (path : Bytes) (fetch : Fetch) :
    (advance mounts path fetch).2 = mounts ∨ ∃ i, (advance mounts path fetch).2 =
      mounts.modify i (change_http fun m => (m.request path .HIGH).1) := by
  cases fetch with
  | asking i => exact Or.inr ⟨i, rfl⟩
  | seek i =>
    left
    unfold advance
    simp only
    split <;> rfl
  | found i =>
    left
    unfold advance
    simp only
    split <;> rfl
  | ask i =>
    left
    unfold advance
    simp only
    split <;> rfl
  | done result => exact Or.inl rfl

theorem Inv.grow {s : Lookup} (i : Inv s) {mounts : List Mount} (all : AllNonEmpty mounts)
    (same : HasEmpty mounts s.path ↔ HasEmpty s.mounts s.path) (fetch : Fetch) :
    Inv ⟨mounts, s.path, fetch, s.seen ++ held mounts s.path⟩ where
  all := all
  seen := List.subset_append_right _ _
  empty := by
    rw [List.mem_append, nil_mem_held all, i.empty, same, or_self]

theorem Inv.step {s : Lookup} (i : Inv s) (e : Event) : Inv (step s e) := by
  cases e with
  | call path =>
    unfold MountManager.step
    simp only
    split
    · exact ⟨i.all, fun _ => id, nil_mem_held i.all⟩
    · exact i
  | fetch =>
    have both : AllNonEmpty (advance s.mounts s.path s.fetch).2 ∧
        (HasEmpty (advance s.mounts s.path s.fetch).2 s.path ↔ HasEmpty s.mounts s.path) := by
      rcases advance_mounts s.mounts s.path s.fetch with same | ⟨k, asked⟩
      · rw [same]
        exact ⟨i.all, Iff.rfl⟩
      · rw [asked]
        exact ⟨i.all.modify (fun m n => n.request _ _) k, hasEmpty_modify⟩
    exact i.grow both.1 both.2 _
  | other k op => exact i.grow (i.all.modify (fun m n => n.apply op) k) hasEmpty_modify _

/-- A step that returns bytes is the fetch from the mount where the file was found. -/
theorem advance_done {mounts : List Mount} {path : Bytes} {fetch : Fetch} {data : Bytes}
    (returns : (advance mounts path fetch).1 = .done (some data)) :
    fetch = .done (some data) ∨ ∃ i m, fetch = .found i ∧ mounts[i]? = some m ∧
      fetch_file path m = some data ∧ (advance mounts path fetch).2 = mounts := by
  cases fetch with
  | done result => exact Or.inl returns
  | found i =>
    right
    unfold advance at returns ⊢
    simp only at returns ⊢
    split at returns
    · next found read =>
      obtain ⟨m, at_, fetched⟩ := Option.bind_eq_some_iff.mp read
      cases returns
      exact ⟨i, m, rfl, at_, fetched, rfl⟩
    · cases returns
  | seek i =>
    unfold advance at returns
    simp only at returns
    split at returns
    · split at returns <;> cases returns
    · split at returns <;> cases returns
  | ask i =>
    unfold advance at returns
    simp only at returns
    split at returns
    · cases returns
    · cases returns
    · split at returns <;> cases returns
  | asking i => cases returns

/-- A fetch from an HTTP mount returns the bytes that are there, or an empty vector. -/
theorem advance_found_http {mounts : List Mount} {path : Bytes} {i : ℕ} {m : MountHttp}
    (at_ : mounts[i]? = some (.http m)) :
    advance mounts path (.found i) = (.done (some (m.fetch_data path)), mounts) := by
  unfold advance
  simp only [at_, Option.bind_some, fetch_file]

theorem stored_of_seek {m : MountHttp} {path : Bytes} (there : m.seek_file path = true) :
    stored path (.http m) = some (m.fetch_data path) := by
  obtain ⟨data, found⟩ := Option.isSome_iff_exists.mp there
  change m.cache_ (MountHttp.lowercase_path path) = _
  unfold MountHttp.fetch_data
  rw [found, Option.getD_some]

theorem fetch_data_of_not_seek {m : MountHttp} {path : Bytes} (gone : m.seek_file path = false) :
    m.fetch_data path = [] := by
  have nothing : m.cache_ (MountHttp.lowercase_path path) = none :=
    Option.isNone_iff_eq_none.mp (Option.isSome_eq_false_iff.mp gone)
  unfold MountHttp.fetch_data
  rw [nothing, Option.getD_none]

/-- One step keeps the call honest exactly if what it fetches has not gone. -/
theorem honest_step_iff {s : Lookup} (i : Inv s) (honest : Honest s) (e : Event) :
    Honest (step s e) ↔ Undisturbed s e := by
  cases e with
  | call path =>
    refine iff_of_true ?_ trivial
    intro data returned
    unfold step at returned ⊢
    simp only at returned ⊢
    split at returned
    · cases returned
    · next running => exact absurd returned (running _)
  | other k op => exact iff_of_true (fun data returned => List.mem_append_left _ (honest data returned)) trivial
  | fetch =>
    constructor
    · intro after k m at_found at_
      cases there : m.seek_file s.path with
      | true => exact Or.inl rfl
      | false =>
        right
        have result := @advance_found_http _ s.path _ _ at_
        rw [fetch_data_of_not_seek there, ← at_found] at result
        have returned : (step s .fetch).fetch = .done (some []) := congrArg Prod.fst result
        have seen : [] ∈ s.seen ++ held (advance s.mounts s.path s.fetch).2 s.path := after [] returned
        rw [result] at seen
        rcases List.mem_append.mp seen with before | now
        · exact i.empty.mp before
        · exact (nil_mem_held i.all).mp now
    · intro undisturbed data returned
      rcases advance_done returned with before | ⟨k, m, at_found, at_, fetched, same⟩
      · exact List.mem_append_left _ (honest data before)
      · change data ∈ s.seen ++ held (advance s.mounts s.path s.fetch).2 s.path
        refine List.mem_append_left _ ?_
        cases m with
        | other files => exact i.seen (mem_held.mpr ⟨_, List.mem_of_getElem? at_, fetched⟩)
        | http m =>
          obtain rfl : m.fetch_data s.path = data := Option.some.inj fetched
          rcases undisturbed k m at_found at_ with there | empty
          · exact i.seen (mem_held.mpr ⟨_, List.mem_of_getElem? at_, stored_of_seek there⟩)
          · cases there : m.seek_file s.path with
            | true => exact i.seen (mem_held.mpr ⟨_, List.mem_of_getElem? at_, stored_of_seek there⟩)
            | false =>
              rw [fetch_data_of_not_seek there]
              exact i.empty.mpr empty

/-- Lookups return what a mount had stored while they ran exactly as long as no file that was found in an
HTTP mount goes before it is fetched. -/
theorem honest_iff_undisturbed (configs : List MountConfig) (events : List Event) :
    Always step Honest (start configs) events ↔ Throughout step Undisturbed (start configs) events := by
  have idle : Honest (start configs) := fun _ returned => by cases returned
  exact always_iff_throughout (I := Inv) (fun s e i _ _ => i.step e)
    (fun s e i honest => honest_step_iff i honest e) (inv_start configs) idle events

/-- A configuration file is downloaded; it is found, released, and fetched. -/
def released_between : List Event :=
  [.other 0 (.request (bytes "char.ini") .HIGH), .other 0 (.on_response (bytes "char.ini") (.answered 200 [59])),
    .call (bytes "char.ini"), .fetch, .other 0 (.release (bytes "char.ini")), .fetch]

theorem released_between_invents :
    (run step (start [.http [] []]) released_between).fetch = .done (some []) ∧
    ¬Always step Honest (start [.http [] []]) released_between := by
  have returned : (run step (start [.http [] []]) released_between).fetch = .done (some []) := by
    decide +kernel
  refine ⟨returned, fun always => ?_⟩
  have seen := always_iff_isPrefix.mp always _ (List.prefix_refl _) [] returned
  revert seen
  decide +kernel

end AoSdl.MountManager
