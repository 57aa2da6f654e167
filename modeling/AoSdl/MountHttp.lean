import AoSdl.HttpPool
import Mathlib.Data.Finset.Basic

/-! The HTTP mount: files are downloaded through the pool and their bytes cached by lower-case path. -/
namespace AoSdl
open HttpPool

/-- `cache_` has the bytes, `pending_` and `failed_` are sets, `transient_failures_` counts. -/
structure MountHttp where
  host_ : Bytes
  path_prefix_ : Bytes
  cache_ : Bytes → Option Bytes
  pending_ : Finset Bytes
  failed_ : Finset Bytes
  transient_failures_ : Bytes → Option ℕ
  cache_generation_ : ℕ

/-- What is handed to the pool: the path that the callback captures and the URL. -/
structure Download where
  path : Bytes
  host : Bytes
  http_path : Bytes
  streaming : Bool
  priority : HttpPriority
deriving DecidableEq

/-- What a callback reads of its response: that the request was dropped, which has an error text of its
own, or else the status, 0 without one, and the body. -/
inductive Answer where
  | answered (status : ℤ) (body : Bytes)
  | dropped
deriving DecidableEq

namespace MountHttp

def lowercase_path (path : Bytes) : Bytes := path.map tolower

def is_unreserved (c : UInt8) : Bool :=
  (48 ≤ c && c ≤ 57) || (65 ≤ c && c ≤ 90) || (97 ≤ c && c ≤ 122) || c ∈ bytes "-_.~/()"

def hex_digit (n : UInt8) : UInt8 := if n < 10 then 48 + n else 55 + n

def url_encode_path (path : Bytes) : Bytes :=
  path.flatMap fun c =>
    if is_unreserved c then [c] else [37, hex_digit (c / 16), hex_digit (c % 16)]

def max_retries_ : ℕ := 3

def new (host path_prefix : Bytes) : MountHttp where
  host_ := host
  path_prefix_ := path_prefix
  cache_ := fun _ => none
  pending_ := ∅
  failed_ := ∅
  transient_failures_ := fun _ => none
  cache_generation_ := 0

variable (m : MountHttp)

def http_path (path : Bytes) : Bytes := url_encode_path (m.path_prefix_ ++ bytes "/" ++ path)

def seek_file (path : Bytes) : Bool := (m.cache_ (lowercase_path path)).isSome

/-- Empty when nothing is cached. -/
def fetch_data (path : Bytes) : Bytes := (m.cache_ (lowercase_path path)).getD []

def has_failed (path : Bytes) : Bool := lowercase_path path ∈ m.failed_

def release (path : Bytes) : MountHttp :=
  { m with cache_ := Function.update m.cache_ (lowercase_path path) none }

def release_all : MountHttp := { m with cache_ := fun _ => none }

/-- The mount after `request`, and the download that it starts. -/
def request (raw_path : Bytes) (priority : HttpPriority) : MountHttp × Option Download :=
  let path := lowercase_path raw_path
  if (m.cache_ path).isSome ∨ path ∈ m.pending_ ∨ path ∈ m.failed_ then (m, none)
  else if max_retries_ ≤ (m.transient_failures_ path).getD 0 then
    ({ m with
        failed_ := insert path m.failed_
        transient_failures_ := Function.update m.transient_failures_ path none }, none)
  else
    ({ m with pending_ := insert path m.pending_ },
      some ⟨path, m.host_, m.http_path path, false, priority⟩)

/-- Another failure of a path that may be tried again. -/
def count_failure (path : Bytes) : MountHttp :=
  { m with
    transient_failures_ :=
      Function.update m.transient_failures_ path (some ((m.transient_failures_ path).getD 0 + 1)) }

/-- The callback of `request`. -/
def on_response (captured_path : Bytes) (resp : Answer) : MountHttp :=
  if captured_path ∉ m.pending_ then m
  else
    let m := { m with pending_ := m.pending_.erase captured_path }
    match resp with
    | .dropped => m
    | .answered status body =>
      if status = 200 ∧ body ≠ [] then
        { m with
          transient_failures_ := Function.update m.transient_failures_ captured_path none
          cache_ := Function.update m.cache_ captured_path (some body)
          cache_generation_ := m.cache_generation_ + 1 }
      else if status = 404 then { m with failed_ := insert captured_path m.failed_ }
      else m.count_failure captured_path

/-- What a call of `fetch_streaming` comes to before it waits. -/
inductive Streaming where
  | failed
  | cached (data : Bytes)
  | waiting (download : Download)

def fetch_streaming (raw_path : Bytes) : Streaming :=
  let path := lowercase_path raw_path
  if path ∈ m.failed_ then .failed
  else
    match m.cache_ path with
    | some data => .cached data
    | none => .waiting ⟨path, m.host_, m.http_path path, true, .HIGH⟩

/-- The callback of `fetch_streaming`: the mount, and what the call returns. -/
def on_streamed (path : Bytes) (resp : Answer) (got_data : Bool) : MountHttp × Bool :=
  match resp with
  | .dropped => (m.count_failure path, false)
  | .answered status _ =>
    if status = 200 ∧ got_data then (m, true)
    else if status = 404 then ({ m with failed_ := insert path m.failed_ }, false)
    else (m.count_failure path, false)

section

variable {m}

theorem request_cases (m : MountHttp) (raw_path : Bytes) (priority : HttpPriority) :
    let path := lowercase_path raw_path
    (((m.cache_ path).isSome ∨ path ∈ m.pending_ ∨ path ∈ m.failed_) ∧
      m.request raw_path priority = (m, none)) ∨
    (m.cache_ path = none ∧ path ∉ m.pending_ ∧ path ∉ m.failed_ ∧
      max_retries_ ≤ (m.transient_failures_ path).getD 0 ∧
      m.request raw_path priority =
        ({ m with
            failed_ := insert path m.failed_
            transient_failures_ := Function.update m.transient_failures_ path none }, none)) ∨
    (m.cache_ path = none ∧ path ∉ m.pending_ ∧ path ∉ m.failed_ ∧
      (m.transient_failures_ path).getD 0 < max_retries_ ∧
      m.request raw_path priority =
        ({ m with pending_ := insert path m.pending_ },
          some ⟨path, m.host_, m.http_path path, false, priority⟩)) := by
  intro path
  by_cases known : (m.cache_ path).isSome ∨ path ∈ m.pending_ ∨ path ∈ m.failed_
  · exact Or.inl ⟨known, if_pos known⟩
  · right
    have unknown := known
    simp only [not_or, Bool.not_eq_true, Option.isSome_eq_false_iff, Option.isNone_iff_eq_none] at unknown
    obtain ⟨not_cached, not_pending, not_failed⟩ := unknown
    by_cases often : max_retries_ ≤ (m.transient_failures_ path).getD 0
    · exact Or.inl ⟨not_cached, not_pending, not_failed, often, (if_neg known).trans (if_pos often)⟩
    · exact Or.inr ⟨not_cached, not_pending, not_failed, Nat.lt_of_not_le often,
        (if_neg known).trans (if_neg often)⟩

/-- All that the callback of a pending request can do: it stores the file, marks the path as failed,
counts a failure, or leaves everything to another request. -/
theorem on_response_cases {path : Bytes} (pending : path ∈ m.pending_) (resp : Answer) :
    let m' := { m with pending_ := m.pending_.erase path }
    (resp = .dropped ∧ m.on_response path resp = m') ∨
    (∃ body, resp = .answered 200 body ∧ body ≠ [] ∧ m.on_response path resp =
      { m' with
        transient_failures_ := Function.update m.transient_failures_ path none
        cache_ := Function.update m.cache_ path (some body)
        cache_generation_ := m.cache_generation_ + 1 }) ∨
    (∃ body, resp = .answered 404 body ∧
      m.on_response path resp = { m' with failed_ := insert path m.failed_ }) ∨
    (∃ status body, resp = .answered status body ∧ ¬(status = 200 ∧ body ≠ []) ∧ status ≠ 404 ∧
      m.on_response path resp = m'.count_failure path) := by
  intro m'
  have known : ¬path ∉ m.pending_ := not_not.mpr pending
  cases resp with
  | dropped => exact Or.inl ⟨rfl, if_neg known⟩
  | answered status body =>
    right
    by_cases ok : status = 200 ∧ body ≠ []
    · obtain ⟨rfl, some⟩ := ok
      exact Or.inl ⟨body, rfl, some, (if_neg known).trans (if_pos ⟨rfl, some⟩)⟩
    · right
      by_cases missing : status = 404
      · subst missing
        exact Or.inl ⟨body, rfl, (if_neg known).trans ((if_neg ok).trans (if_pos rfl))⟩
      · exact Or.inr ⟨status, body, rfl, ok, missing,
          (if_neg known).trans ((if_neg ok).trans (if_neg missing))⟩

/-- All that the callback of a streamed download can do; nothing is stored. -/
theorem on_streamed_cases (m : MountHttp) (path : Bytes) (resp : Answer) (got_data : Bool) :
    (∃ body, resp = .answered 200 body ∧ got_data = true ∧ m.on_streamed path resp got_data = (m, true)) ∨
    (∃ body, resp = .answered 404 body ∧
      m.on_streamed path resp got_data = ({ m with failed_ := insert path m.failed_ }, false)) ∨
    ((resp = .dropped ∨ ∃ status body, resp = .answered status body ∧ status ≠ 404 ∧
        ¬(status = 200 ∧ got_data)) ∧
      m.on_streamed path resp got_data = (m.count_failure path, false)) := by
  cases resp with
  | dropped => exact Or.inr (Or.inr ⟨Or.inl rfl, rfl⟩)
  | answered status body =>
    by_cases ok : status = 200 ∧ got_data
    · obtain ⟨rfl, got⟩ := ok
      exact Or.inl ⟨body, rfl, got, if_pos ⟨rfl, got⟩⟩
    · right
      by_cases missing : status = 404
      · subst missing
        exact Or.inl ⟨body, rfl, by simp [on_streamed]⟩
      · exact Or.inr ⟨Or.inr ⟨status, body, rfl, missing, ok⟩, (if_neg ok).trans (if_neg missing)⟩

/-- A streamed download that waits is of a path that is neither cached nor failed. -/
theorem fetch_streaming_waiting {raw_path : Bytes} {download : Download}
    (waiting : m.fetch_streaming raw_path = .waiting download) :
    m.cache_ (lowercase_path raw_path) = none ∧ lowercase_path raw_path ∉ m.failed_ ∧
      download.path = lowercase_path raw_path ∧ download.streaming = true := by
  unfold fetch_streaming at waiting
  simp only at waiting
  split at waiting
  · cases waiting
  · next not_failed =>
    split at waiting
    · cases waiting
    · next not_cached =>
      cases waiting
      exact ⟨not_cached, not_failed, rfl, rfl⟩

end

end MountHttp

end AoSdl
