import AoSdl.Lib.Runs
import AoSdl.MountHttp

/-! The downloads of an HTTP mount. `request` looks at the downloads that are under way, a streamed one
neither looks nor is seen, and it counts failures its own way. -/
namespace AoSdl.MountHttp
open Lib.Runs HttpPool

/-- The mount and what is under way, and of the answers: the paths answered with 404, and for each path
how many attempts were answered since its last success. -/
structure System where
  mount : MountHttp
  in_flight : List Download
  not_found : Finset Bytes
  attempts : Bytes → ℕ

inductive Event where
  | request (path : Bytes) (priority : HttpPriority)
  | fetch_streaming (path : Bytes)
  | complete (download : Download) (resp : Answer) (got_data : Bool)
  | release (path : Bytes)
  | release_all

/-- The download brought the file: the whole body, or data that were handed on. -/
def succeeds (download : Download) (resp : Answer) (got_data : Bool) : Bool :=
  match resp with
  | .dropped => false
  | .answered status body => status = 200 && if download.streaming then got_data else body ≠ []

def answered_404 : Answer → Bool
  | .dropped => false
  | .answered status _ => status = 404

/-- The callback of a download. -/
def callback (m : MountHttp) (download : Download) (resp : Answer) (got_data : Bool) : MountHttp :=
  if download.streaming then (m.on_streamed download.path resp got_data).1
  else m.on_response download.path resp

/-- The answered attempts of the path, this one counted. -/
def attempts_after (attempts : Bytes → ℕ) (download : Download) (resp : Answer) (got_data : Bool) :
    Bytes → ℕ :=
  if succeeds download resp got_data then Function.update attempts download.path 0
  else if resp = .dropped then attempts
  else Function.update attempts download.path (attempts download.path + 1)

def step (s : System) : Event → System
  | .request path priority =>
    { s with
      mount := (s.mount.request path priority).1
      in_flight := s.in_flight ++ (s.mount.request path priority).2.toList }
  | .fetch_streaming path =>
    match s.mount.fetch_streaming path with
    | .waiting download => { s with in_flight := s.in_flight ++ [download] }
    | _ => s
  | .complete download resp got_data =>
    if download ∈ s.in_flight then
      { mount := callback s.mount download resp got_data
        in_flight := s.in_flight.erase download
        not_found := if answered_404 resp then insert download.path s.not_found else s.not_found
        attempts := attempts_after s.attempts download resp got_data }
    else s
  | .release path => { s with mount := s.mount.release path }
  | .release_all => { s with mount := s.mount.release_all }

def start (host path_prefix : Bytes) : System where
  mount := new host path_prefix
  in_flight := []
  not_found := ∅
  attempts := fun _ => 0

/-- The downloads of a path that are under way. -/
def downloads (s : System) (path : Bytes) : ℕ := s.in_flight.countP (·.path = path)

def streams (s : System) (path : Bytes) : ℕ := s.in_flight.countP fun d => d.path = path ∧ d.streaming

def requests (s : System) (path : Bytes) : ℕ := s.in_flight.countP fun d => d.path = path ∧ ¬d.streaming

/-- A path is cached, pending or failed, no two of them, and downloaded at most once at a time. -/
structure Apart (s : System) : Prop where
  not_cached : ∀ path ∈ s.mount.pending_, s.mount.cache_ path = none
  not_failed : ∀ path ∈ s.mount.pending_, path ∉ s.mount.failed_
  gone : ∀ path ∈ s.mount.failed_, s.mount.cache_ path = none
  single : ∀ path, downloads s path ≤ 1

/-- No download starts of a path that was answered with 404. -/
def NotAgain (s : System) (e : Event) : Prop :=
  ∀ path ∈ s.not_found, downloads (step s e) path ≤ downloads s path

/-- A path is marked failed after a 404 or after `max_retries_` answered attempts. -/
def MarksRight (s : System) (e : Event) : Prop :=
  ∀ path ∈ (step s e).mount.failed_, path ∉ s.mount.failed_ →
    path ∈ (step s e).not_found ∨ max_retries_ ≤ s.attempts path

/-- A download that starts is the only one of its path. -/
def Alone (s : System) : Event → Prop
  | .request raw_path _ =>
    let path := lowercase_path raw_path
    (s.mount.cache_ path).isSome ∨ path ∈ s.mount.pending_ ∨ path ∈ s.mount.failed_ ∨
      max_retries_ ≤ (s.mount.transient_failures_ path).getD 0 ∨ streams s path = 0
  | .fetch_streaming raw_path =>
    let path := lowercase_path raw_path
    (s.mount.cache_ path).isSome ∨ path ∈ s.mount.failed_ ∨ downloads s path = 0
  | _ => True

/-- A streamed download is not dropped, and it does not succeed while failures of its path are counted. -/
def Counted (s : System) : Event → Prop
  | .complete download resp got_data =>
    download ∈ s.in_flight → download.streaming →
      resp ≠ .dropped ∧
        (succeeds download resp got_data → s.mount.transient_failures_ download.path = none)
  | _ => True

/-- What every run keeps: a path is pending exactly while a request of it is under way. -/
structure Inv (s : System) : Prop where
  pending : ∀ path, requests s path = if path ∈ s.mount.pending_ then 1 else 0
  not_found : s.not_found ⊆ s.mount.failed_

theorem inv_start (host path_prefix : Bytes) : Inv (start host path_prefix) where
  pending := fun _ => rfl
  not_found := Finset.empty_subset _

section

variable {s : System}

theorem downloads_eq (s : System) (path : Bytes) : downloads s path = requests s path + streams s path := by
  unfold downloads requests streams
  induction s.in_flight with
  | nil => rfl
  | cons d rest ih =>
    simp only [List.countP_cons, ih]
    cases d.streaming <;> by_cases here : d.path = path <;> simp [here] <;> omega

theorem requests_pos {d : Download} (member : d ∈ s.in_flight) (whole : d.streaming = false) :
    0 < requests s d.path := by
  refine List.countP_pos_iff.mpr ⟨d, member, ?_⟩
  simp [whole]

theorem streams_pos {d : Download} (member : d ∈ s.in_flight) (streamed : d.streaming = true) :
    0 < streams s d.path := by
  refine List.countP_pos_iff.mpr ⟨d, member, ?_⟩
  simp [streamed]

theorem Inv.mem_pending (i : Inv s) {d : Download} (member : d ∈ s.in_flight)
    (whole : d.streaming = false) : d.path ∈ s.mount.pending_ := by
  have counted := i.pending d.path
  have positive := requests_pos member whole
  split at counted
  · next pending => exact pending
  · omega

/-- The download that is done is no longer counted. -/
theorem countP_erase_add {p : Download → Bool} {d : Download} {l : List Download} (member : d ∈ l) :
    (l.erase d).countP p + (if p d then 1 else 0) = l.countP p := by
  have perm := (List.perm_cons_erase member).countP_eq p
  rw [List.countP_cons] at perm
  exact perm.symm

/-- The mount that has marked the path as failed. -/
def marked (m : MountHttp) (path : Bytes) : MountHttp :=
  { m with
    failed_ := insert path m.failed_
    transient_failures_ := Function.update m.transient_failures_ path none }

theorem step_request_cases (s : System) (raw_path : Bytes) (priority : HttpPriority) :
    let path := lowercase_path raw_path
    (((s.mount.cache_ path).isSome ∨ path ∈ s.mount.pending_ ∨ path ∈ s.mount.failed_) ∧
      step s (.request raw_path priority) = s) ∨
    (s.mount.cache_ path = none ∧ path ∉ s.mount.pending_ ∧ path ∉ s.mount.failed_ ∧
      max_retries_ ≤ (s.mount.transient_failures_ path).getD 0 ∧
      step s (.request raw_path priority) = { s with mount := marked s.mount path }) ∨
    (s.mount.cache_ path = none ∧ path ∉ s.mount.pending_ ∧ path ∉ s.mount.failed_ ∧
      (s.mount.transient_failures_ path).getD 0 < max_retries_ ∧
      ∃ d : Download, d.path = path ∧ d.streaming = false ∧ step s (.request raw_path priority) =
        { s with
          mount := { s.mount with pending_ := insert path s.mount.pending_ }
          in_flight := s.in_flight ++ [d] }) := by
  intro path
  rcases request_cases s.mount raw_path priority with ⟨known, same⟩ |
    ⟨not_cached, not_pending, not_failed, often, marks⟩ | ⟨not_cached, not_pending, not_failed, few, starts⟩
  · exact Or.inl ⟨known, by simp only [step, same, Option.toList_none, List.append_nil]⟩
  · refine Or.inr (Or.inl ⟨not_cached, not_pending, not_failed, often, ?_⟩)
    simp only [step, marks, Option.toList_none, List.append_nil]
    rfl
  · refine Or.inr (Or.inr ⟨not_cached, not_pending, not_failed, few,
      ⟨path, s.mount.host_, s.mount.http_path path, false, priority⟩, rfl, rfl, ?_⟩)
    simp only [step, starts, Option.toList_some]
    rfl

theorem step_fetch_cases (s : System) (raw_path : Bytes) :
    let path := lowercase_path raw_path
    (((s.mount.cache_ path).isSome ∨ path ∈ s.mount.failed_) ∧ step s (.fetch_streaming raw_path) = s) ∨
    (s.mount.cache_ path = none ∧ path ∉ s.mount.failed_ ∧
      ∃ d : Download, d.path = path ∧ d.streaming = true ∧
        step s (.fetch_streaming raw_path) = { s with in_flight := s.in_flight ++ [d] }) := by
  intro path
  cases result : s.mount.fetch_streaming raw_path with
  | waiting d =>
    obtain ⟨not_cached, not_failed, same, streamed⟩ := fetch_streaming_waiting result
    exact Or.inr ⟨not_cached, not_failed, d, same, streamed, by simp only [step, result]⟩
  | failed =>
    refine Or.inl ⟨Or.inr ?_, by simp only [step, result]⟩
    by_contra not_failed
    unfold MountHttp.fetch_streaming at result
    rw [if_neg not_failed] at result
    split at result <;> cases result
  | cached data =>
    refine Or.inl ⟨Or.inl ?_, by simp only [step, result]⟩
    unfold MountHttp.fetch_streaming at result
    simp only at result
    split at result
    · cases result
    · split at result
      · next found => exact Option.isSome_of_eq_some found
      · cases result

/-- All that a step can do. -/
inductive Does (s : System) : Event → System → Prop
  | stays (e : Event) : Does s e s
  | marks {raw_path : Bytes} {priority : HttpPriority}
      (often : max_retries_ ≤ (s.mount.transient_failures_ (lowercase_path raw_path)).getD 0) :
      Does s (.request raw_path priority) { s with mount := marked s.mount (lowercase_path raw_path) }
  | starts {e : Event} {d : Download} (not_cached : s.mount.cache_ d.path = none)
      (not_failed : d.path ∉ s.mount.failed_) (not_pending : d.streaming = false → d.path ∉ s.mount.pending_) :
      Does s e { s with
        mount := if d.streaming then s.mount
          else { s.mount with pending_ := insert d.path s.mount.pending_ }
        in_flight := s.in_flight ++ [d] }
  | completes {d : Download} {resp : Answer} {got_data : Bool} (member : d ∈ s.in_flight) :
      Does s (.complete d resp got_data)
        { mount := callback s.mount d resp got_data
          in_flight := s.in_flight.erase d
          not_found := if answered_404 resp then insert d.path s.not_found else s.not_found
          attempts := attempts_after s.attempts d resp got_data }
  | forgets {e : Event} {cache_ : Bytes → Option Bytes}
      (less : ∀ path, s.mount.cache_ path = none → cache_ path = none) :
      Does s e { s with mount := { s.mount with cache_ } }

theorem does (s : System) (e : Event) : Does s e (step s e) := by
  cases e with
  | request raw_path priority =>
    rcases step_request_cases s raw_path priority with ⟨-, same⟩ | ⟨-, -, -, often, marks⟩ |
      ⟨not_cached, not_pending, not_failed, -, d, here, whole, starts⟩
    · rw [same]
      exact .stays _
    · exact marks ▸ .marks often
    · rw [← here] at not_cached not_pending not_failed starts
      have does := Does.starts (e := .request raw_path priority) not_cached not_failed fun _ => not_pending
      rw [whole, if_neg Bool.false_ne_true] at does
      exact starts ▸ does
  | fetch_streaming raw_path =>
    rcases step_fetch_cases s raw_path with ⟨-, same⟩ | ⟨not_cached, not_failed, d, here, streamed, starts⟩
    · rw [same]
      exact .stays _
    · rw [← here] at not_cached not_failed
      have does := Does.starts (e := .fetch_streaming raw_path) not_cached not_failed fun whole => by
        rw [streamed] at whole
        cases whole
      rw [streamed, if_pos rfl] at does
      exact starts ▸ does
  | complete d resp got_data =>
    by_cases member : d ∈ s.in_flight
    · rw [step, if_pos member]
      exact .completes member
    · rw [step, if_neg member]
      exact .stays _
  | release raw_path =>
    refine .forgets fun path nothing => ?_
    rw [Function.update_apply, nothing, ite_self]
  | release_all => exact .forgets fun _ _ => rfl

/-- The callback of a request takes its path off the pending ones, and may cache a file that came. -/
theorem callback_stores (m : MountHttp) (d : Download) (resp : Answer) (got_data : Bool) :
    (callback m d resp got_data).pending_ = (if d.streaming then m.pending_ else m.pending_.erase d.path) ∧
      ((callback m d resp got_data).cache_ = m.cache_ ∨
        d.streaming = false ∧ answered_404 resp = false ∧
          ∃ body, (callback m d resp got_data).cache_ = Function.update m.cache_ d.path (some body)) := by
  unfold callback
  cases d.streaming with
  | true =>
    rw [if_pos rfl, if_pos rfl]
    rcases on_streamed_cases m d.path resp got_data with ⟨_, -, -, done⟩ | ⟨_, -, done⟩ | ⟨-, done⟩ <;>
      (rw [done]; exact ⟨rfl, .inl rfl⟩)
  | false =>
    rw [if_neg Bool.false_ne_true, if_neg Bool.false_ne_true]
    by_cases pending : d.path ∈ m.pending_
    · rcases on_response_cases pending resp with ⟨-, done⟩ | ⟨body, rfl, -, done⟩ | ⟨_, -, done⟩ |
        ⟨_, _, -, -, -, done⟩
      · exact done ▸ ⟨rfl, .inl rfl⟩
      · exact done ▸ ⟨rfl, .inr ⟨rfl, rfl, body, rfl⟩⟩
      · exact done ▸ ⟨rfl, .inl rfl⟩
      · exact done ▸ ⟨rfl, .inl rfl⟩
    · have ignored : m.on_response d.path resp = m := if_pos pending
      rw [ignored, Finset.erase_eq_of_notMem pending]
      exact ⟨rfl, .inl rfl⟩

theorem pending_callback (m : MountHttp) (d : Download) (resp : Answer) (got_data : Bool) :
    (callback m d resp got_data).pending_ = if d.streaming then m.pending_ else m.pending_.erase d.path :=
  (callback_stores m d resp got_data).1

/-- A path once marked as failed stays so, and a 404 marks it. -/
theorem failed_callback (m : MountHttp) {d : Download} (pending : d.streaming = false → d.path ∈ m.pending_)
    (resp : Answer) (got_data : Bool) :
    (callback m d resp got_data).failed_ = if answered_404 resp then insert d.path m.failed_ else m.failed_ := by
  unfold callback
  cases kind : d.streaming with
  | true =>
    rw [if_pos rfl]
    rcases on_streamed_cases m d.path resp got_data with ⟨body, rfl, -, done⟩ | ⟨body, rfl, done⟩ |
      ⟨rfl | ⟨status, body, rfl, other, -⟩, done⟩
    · rw [done]
      rfl
    · rw [done]
      rfl
    · rw [done]
      rfl
    · rw [done, answered_404, decide_eq_false other]
      rfl
  | false =>
    rw [if_neg Bool.false_ne_true]
    rcases on_response_cases (pending kind) resp with ⟨rfl, done⟩ | ⟨body, rfl, -, done⟩ |
      ⟨body, rfl, done⟩ | ⟨status, body, rfl, -, other, done⟩
    · rw [done]
      rfl
    · rw [done]
      rfl
    · rw [done]
      rfl
    · rw [done, answered_404, decide_eq_false other]
      rfl

theorem Inv.step (i : Inv s) (e : Event) : Inv (step s e) := by
  have does := does s e
  generalize AoSdl.MountHttp.step s e = s' at does
  cases does with
  | stays => exact i
  | marks often => exact ⟨i.pending, i.not_found.trans (Finset.subset_insert _ _)⟩
  | @starts _ d _ _ not_pending =>
    constructor
    · intro path
      have before := i.pending path
      unfold requests at before ⊢
      rw [List.countP_append, before, List.countP_singleton]
      cases kind : d.streaming with
      | true => simp
      | false =>
        have fresh := not_pending kind
        by_cases here : d.path = path
        · subst here
          simp [fresh]
        · simp [here, Ne.symm here]
    · dsimp only
      split <;> exact i.not_found
  | @completes d resp got_data member =>
    constructor
    · intro path
      have counted := countP_erase_add (p := fun d => d.path = path ∧ ¬d.streaming) member
      have before := i.pending path
      unfold requests at before ⊢
      rw [before] at counted
      rw [pending_callback]
      cases kind : d.streaming with
      | true =>
        simp only [kind, not_true, and_false, decide_false, Bool.false_eq_true, if_false, Nat.add_zero] at counted
        rw [counted, if_pos rfl]
      | false =>
        rw [if_neg Bool.false_ne_true]
        have pending := i.mem_pending member kind
        by_cases here : d.path = path
        · subst here
          simp [kind, pending] at counted ⊢
          exact counted
        · simp [kind, here] at counted ⊢
          rw [counted]
          simp [Ne.symm here]
    · dsimp only
      rw [failed_callback _ (i.mem_pending member)]
      split
      · exact Finset.insert_subset_insert _ i.not_found
      · exact i.not_found
  | forgets _ => exact ⟨i.pending, i.not_found⟩

end

/-- What is under way is not cached. -/
def Absent (s : System) : Prop := ∀ d ∈ s.in_flight, s.mount.cache_ d.path = none

section

variable {s : System}

theorem cache_callback_of_ne (m : MountHttp) {d : Download} (resp : Answer) (got_data : Bool)
    {path : Bytes} (other : path ≠ d.path ∨ d.streaming = true) :
    (callback m d resp got_data).cache_ path = m.cache_ path := by
  rcases (callback_stores m d resp got_data).2 with same | ⟨whole, -, body, stored⟩
  · rw [same]
  · rw [stored]
    exact Function.update_of_ne (other.resolve_right (by simp [whole])) ..

theorem cache_callback_of_404 (m : MountHttp) {d : Download} {resp : Answer} (got_data : Bool)
    (missing : answered_404 resp = true) : (callback m d resp got_data).cache_ = m.cache_ := by
  rcases (callback_stores m d resp got_data).2 with same | ⟨-, found, -⟩
  · exact same
  · rw [missing] at found
    cases found

theorem downloads_append (s : System) (d : Download) (path : Bytes) :
    (s.in_flight ++ [d]).countP (·.path = path) = downloads s path + if d.path = path then 1 else 0 := by
  rw [List.countP_append, List.countP_singleton]
  simp [downloads]

theorem downloads_erase_le (s : System) (d : Download) (path : Bytes) :
    (s.in_flight.erase d).countP (·.path = path) ≤ downloads s path :=
  List.erase_sublist.countP_le

/-- Where a stream is the only download of its path, no request of the path is pending. -/
theorem Inv.not_pending_of_stream (i : Inv s) (apart : Apart s) {d : Download} (member : d ∈ s.in_flight)
    (streamed : d.streaming = true) : d.path ∉ s.mount.pending_ := by
  intro pending
  have whole := i.pending d.path
  rw [if_pos pending] at whole
  have streams := streams_pos member streamed
  have single := apart.single d.path
  rw [downloads_eq] at single
  omega

/-- A path that is pending after a download has ended was pending before, and is not the download's. -/
theorem Apart.pending_complete (apart : Apart s) (i : Inv s) {d : Download} (member : d ∈ s.in_flight)
    {resp : Answer} {got_data : Bool} {path : Bytes} (waits : path ∈ (callback s.mount d resp got_data).pending_) :
    path ∈ s.mount.pending_ ∧ path ≠ d.path := by
  rw [pending_callback] at waits
  cases kind : d.streaming with
  | true =>
    rw [if_pos kind] at waits
    refine ⟨waits, ?_⟩
    rintro rfl
    exact i.not_pending_of_stream apart member kind waits
  | false =>
    rw [kind, if_neg Bool.false_ne_true] at waits
    exact ⟨Finset.mem_of_mem_erase waits, Finset.ne_of_mem_erase waits⟩

/-- A path that has failed after a download has ended is not cached. -/
theorem Apart.gone_complete (apart : Apart s) (i : Inv s) (absent : Absent s) {d : Download}
    (member : d ∈ s.in_flight) {resp : Answer} {got_data : Bool} {path : Bytes}
    (fails : path ∈ (callback s.mount d resp got_data).failed_) :
    (callback s.mount d resp got_data).cache_ path = none := by
  have not_cached := absent d member
  rw [failed_callback s.mount (i.mem_pending member) resp got_data] at fails
  by_cases other : path ≠ d.path ∨ d.streaming = true
  · rw [cache_callback_of_ne _ _ _ other]
    split at fails
    · rcases Finset.mem_insert.mp fails with rfl | fails
      · exact not_cached
      · exact apart.gone path fails
    · exact apart.gone path fails
  · obtain ⟨here, whole⟩ := not_or.mp other
    obtain rfl := not_not.mp here
    have waits := i.mem_pending member (Bool.eq_false_iff.mpr whole)
    split at fails
    · next missing =>
      rw [cache_callback_of_404 _ _ missing]
      exact not_cached
    · exact absurd fails (apart.not_failed _ waits)

theorem Apart.complete (apart : Apart s) (i : Inv s) (absent : Absent s) {d : Download}
    (member : d ∈ s.in_flight) (resp : Answer) (got_data : Bool) :
    Apart (step s (.complete d resp got_data)) := by
  rw [step, if_pos member]
  constructor
  · intro path waits
    obtain ⟨before, other⟩ := apart.pending_complete i member waits
    change (callback _ _ _ _).cache_ path = none
    rw [cache_callback_of_ne _ _ _ (Or.inl other)]
    exact apart.not_cached path before
  · intro path waits
    obtain ⟨before, other⟩ := apart.pending_complete i member waits
    change path ∉ (callback _ _ _ _).failed_
    rw [failed_callback s.mount (i.mem_pending member) resp got_data]
    split
    · exact fun inside => (Finset.mem_insert.mp inside).elim other (apart.not_failed path before)
    · exact apart.not_failed path before
  · exact fun path fails => apart.gone_complete i absent member fails
  · intro path
    exact (downloads_erase_le s d path).trans (apart.single path)

/-- One more download leaves every path with at most one exactly if its own path had none. -/
theorem Apart.single_append (apart : Apart s) {d : Download} {path : Bytes} (here : d.path = path) :
    (∀ q, (s.in_flight ++ [d]).countP (·.path = q) ≤ 1) ↔ downloads s path = 0 := by
  constructor
  · intro after
    have single := after path
    rw [downloads_append, if_pos here] at single
    omega
  · intro free q
    have single := apart.single q
    rw [downloads_append, here]
    split
    · next same =>
      subst same
      omega
    · exact single

/-- The path whose attempts are used up becomes a failed one. -/
theorem Apart.marked (apart : Apart s) {path : Bytes} (not_cached : s.mount.cache_ path = none)
    (not_pending : path ∉ s.mount.pending_) : Apart { s with mount := marked s.mount path } := by
  refine ⟨apart.not_cached, fun q waits fails => ?_, fun q fails => ?_, apart.single⟩
  · rcases Finset.mem_insert.mp fails with rfl | fails
    · exact not_pending waits
    · exact apart.not_failed q waits fails
  · rcases Finset.mem_insert.mp fails with rfl | fails
    · exact not_cached
    · exact apart.gone q fails

theorem apart_request_iff (i : Inv s) (apart : Apart s) (raw_path : Bytes) (priority : HttpPriority) :
    Apart (step s (.request raw_path priority)) ↔ Alone s (.request raw_path priority) := by
  rcases step_request_cases s raw_path priority with ⟨known, same⟩ |
    ⟨not_cached, not_pending, not_failed, often, marks⟩ |
    ⟨not_cached, not_pending, not_failed, few, d, here, whole, starts⟩
  · rw [same]
    refine iff_of_true apart ?_
    rcases known with cached | pending | failed
    · exact Or.inl cached
    · exact Or.inr (Or.inl pending)
    · exact Or.inr (Or.inr (Or.inl failed))
  · rw [marks]
    exact iff_of_true (apart.marked not_cached not_pending) (Or.inr (Or.inr (Or.inr (Or.inl often))))
  · -- without a request of the path, its downloads are its streams
    have requests := i.pending (lowercase_path raw_path)
    rw [if_neg not_pending] at requests
    have total := downloads_eq s (lowercase_path raw_path)
    have alone : Alone s (.request raw_path priority) ↔ downloads s (lowercase_path raw_path) = 0 := by
      unfold Alone
      simp [not_cached, not_pending, not_failed, Nat.not_le.mpr few, total, requests]
    rw [alone, starts, ← apart.single_append here]
    constructor
    · exact fun after => after.single
    · intro single
      refine ⟨fun path waits => ?_, fun path waits => ?_, apart.gone, single⟩
      · rcases Finset.mem_insert.mp waits with rfl | waits
        · exact not_cached
        · exact apart.not_cached path waits
      · rcases Finset.mem_insert.mp waits with rfl | waits
        · exact not_failed
        · exact apart.not_failed path waits

theorem apart_fetch_streaming_iff (apart : Apart s) (raw_path : Bytes) :
    Apart (step s (.fetch_streaming raw_path)) ↔ Alone s (.fetch_streaming raw_path) := by
  rcases step_fetch_cases s raw_path with ⟨known, same⟩ | ⟨not_cached, not_failed, d, here, -, starts⟩
  · rw [same]
    exact iff_of_true apart (known.imp_right Or.inl)
  · have alone : Alone s (.fetch_streaming raw_path) ↔ downloads s (lowercase_path raw_path) = 0 := by
      unfold Alone
      simp [not_cached, not_failed]
    rw [alone, starts, ← apart.single_append here]
    exact ⟨fun after => after.single, fun single => ⟨apart.not_cached, apart.not_failed, apart.gone, single⟩⟩

theorem apart_step_iff (i : Inv s) (absent : Absent s) (apart : Apart s) (e : Event) :
    Apart (step s e) ↔ Alone s e := by
  cases e with
  | request raw_path priority => exact apart_request_iff i apart raw_path priority
  | fetch_streaming raw_path => exact apart_fetch_streaming_iff apart raw_path
  | complete d resp got_data =>
    refine iff_of_true ?_ trivial
    by_cases member : d ∈ s.in_flight
    · exact apart.complete i absent member resp got_data
    · rw [step, if_neg member]
      exact apart
  | release raw_path =>
    have less : ∀ path, s.mount.cache_ path = none → (s.mount.release raw_path).cache_ path = none := by
      intro path nothing
      unfold release
      simp only [Function.update_apply, nothing, ite_self]
    exact iff_of_true ⟨fun path waits => less path (apart.not_cached path waits), apart.not_failed,
      fun path fails => less path (apart.gone path fails), apart.single⟩ trivial
  | release_all =>
    exact iff_of_true ⟨fun _ _ => rfl, apart.not_failed, fun _ _ => rfl, apart.single⟩ trivial

theorem Absent.step (absent : Absent s) (apart : Apart s) (e : Event) : Absent (step s e) := by
  have does := does s e
  generalize AoSdl.MountHttp.step s e = s' at does
  cases does with
  | stays | marks _ => exact absent
  | @starts _ d not_cached _ _ =>
    intro d' member
    have nothing : s.mount.cache_ d'.path = none := by
      rcases List.mem_append.mp member with before | now
      · exact absent d' before
      · exact List.mem_singleton.mp now ▸ not_cached
    dsimp only
    split <;> exact nothing
  | @completes d _ _ member =>
    intro d' rest
    have other : d'.path ≠ d.path := by
      -- two downloads of one path
      intro same
      have counted := countP_erase_add (p := fun x => x.path = d.path) member
      have positive : 0 < (s.in_flight.erase d).countP (·.path = d.path) :=
        List.countP_pos_iff.mpr ⟨d', rest, by simp [same]⟩
      have single := apart.single d.path
      unfold downloads at single
      simp only [decide_true, if_true] at counted
      omega
    exact (cache_callback_of_ne _ _ _ (Or.inl other)).trans (absent d' (List.mem_of_mem_erase rest))
  | forgets less => exact fun d member => less _ (absent d member)

/-- A path that was answered with 404 is not downloaded again, whatever the run. -/
theorem Inv.not_again (i : Inv s) (e : Event) : NotAgain s e := by
  intro path missing
  have failed := i.not_found missing
  have does := does s e
  generalize AoSdl.MountHttp.step s e = s' at does ⊢
  cases does with
  | stays | marks _ | forgets _ => exact le_refl _
  | @starts _ d _ not_failed _ =>
    have other : d.path ≠ path := by
      rintro rfl
      exact not_failed failed
    have same := downloads_append s d path
    rw [if_neg other] at same
    exact same.le
  | @completes d _ _ member => exact downloads_erase_le s d path

/-- No more failures are counted than attempts were answered. -/
def Fair (s : System) : Prop :=
  ∀ path, (s.mount.transient_failures_ path).getD 0 ≤ s.attempts path

theorem getD_count_failure (m : MountHttp) (path q : Bytes) :
    ((m.count_failure path).transient_failures_ q).getD 0 =
      (m.transient_failures_ q).getD 0 + if q = path then 1 else 0 := by
  change (Function.update m.transient_failures_ path
    (some ((m.transient_failures_ path).getD 0 + 1)) q).getD 0 = _
  rw [Function.update_apply]
  split
  · next same =>
    subst same
    rfl
  · rfl

theorem attempts_after_fails {attempts : Bytes → ℕ} {d : Download} {resp : Answer} {got_data : Bool}
    (fails : succeeds d resp got_data = false) (answered : resp ≠ .dropped) (path : Bytes) :
    attempts_after attempts d resp got_data path = attempts path + if path = d.path then 1 else 0 := by
  unfold attempts_after
  rw [fails, if_neg Bool.false_ne_true, if_neg answered, Function.update_apply]
  split
  · next same => rw [same]
  · rfl

theorem Fair.failure (fair : Fair s) {d : Download} {resp : Answer} {got_data : Bool}
    (fails : succeeds d resp got_data = false) (answered : resp ≠ .dropped) {m : MountHttp}
    (same : m.transient_failures_ = s.mount.transient_failures_) (path : Bytes) :
    ((m.count_failure d.path).transient_failures_ path).getD 0 ≤
      attempts_after s.attempts d resp got_data path := by
  have before := fair path
  rw [getD_count_failure, same, attempts_after_fails fails answered]
  omega

theorem Fair.missing (fair : Fair s) (d : Download) {resp : Answer} (got_data : Bool) {body : Bytes}
    (is_404 : resp = .answered 404 body) (path : Bytes) :
    (s.mount.transient_failures_ path).getD 0 ≤ attempts_after s.attempts d resp got_data path := by
  have before := fair path
  have fails : succeeds d resp got_data = false := by rw [is_404]; rfl
  have answered : resp ≠ .dropped := by rw [is_404]; exact Answer.noConfusion
  rw [attempts_after_fails fails answered]
  omega

theorem Fair.success (fair : Fair s) {d : Download} {resp : Answer} {got_data : Bool}
    (ok : succeeds d resp got_data = true) {m : MountHttp} (cleared : m.transient_failures_ d.path = none)
    (others : ∀ q, q ≠ d.path → m.transient_failures_ q = s.mount.transient_failures_ q) (path : Bytes) :
    (m.transient_failures_ path).getD 0 ≤ attempts_after s.attempts d resp got_data path := by
  unfold attempts_after
  rw [if_pos ok, Function.update_apply]
  split
  · next same =>
    rw [same, cleared]
    rfl
  · next other =>
    rw [others path other]
    exact fair path

theorem Fair.complete (fair : Fair s) (i : Inv s) {d : Download} (member : d ∈ s.in_flight)
    {resp : Answer} {got_data : Bool} (counted : Counted s (.complete d resp got_data)) (path : Bytes) :
    ((callback s.mount d resp got_data).transient_failures_ path).getD 0 ≤
      attempts_after s.attempts d resp got_data path := by
  unfold callback
  cases kind : d.streaming with
  | true =>
    obtain ⟨answered, clear⟩ := counted member kind
    rw [if_pos rfl]
    rcases on_streamed_cases s.mount d.path resp got_data with ⟨body, is_200, got, done⟩ |
      ⟨body, is_404, done⟩ | ⟨why, done⟩
    · rw [done]
      have ok : succeeds d resp got_data = true := by simp [succeeds, is_200, kind, got]
      exact fair.success ok (clear ok) (fun _ _ => rfl) path
    · rw [done]
      exact fair.missing d got_data is_404 path
    · rw [done]
      obtain ⟨status, body, is_other, -, fails⟩ := why.resolve_left answered
      exact fair.failure (by simpa [succeeds, is_other, kind] using fails) answered rfl path
  | false =>
    rw [if_neg Bool.false_ne_true]
    rcases on_response_cases (i.mem_pending member kind) resp with ⟨is_dropped, done⟩ |
      ⟨body, is_200, some, done⟩ | ⟨body, is_404, done⟩ | ⟨status, body, is_other, fails, -, done⟩
    · rw [done]
      unfold attempts_after
      rw [is_dropped]
      exact fair path
    · rw [done]
      have ok : succeeds d resp got_data = true := by simp [succeeds, is_200, kind, some]
      exact fair.success ok (Function.update_self ..) (fun q other => Function.update_of_ne other ..) path
    · rw [done]
      exact fair.missing d got_data is_404 path
    · rw [done]
      have answered : resp ≠ .dropped := by rw [is_other]; exact Answer.noConfusion
      exact fair.failure (by simpa [succeeds, is_other, kind] using fails) answered rfl path

theorem Fair.step (fair : Fair s) (i : Inv s) {e : Event} (counted : Counted s e) :
    Fair (AoSdl.MountHttp.step s e) := by
  have does := does s e
  generalize AoSdl.MountHttp.step s e = s' at does
  cases does with
  | stays | forgets _ => exact fair
  | marks _ =>
    intro path
    change Option.getD (Function.update s.mount.transient_failures_ _ none path) 0 ≤ _
    rw [Function.update_apply]
    split
    · exact Nat.zero_le _
    · exact fair path
  | starts =>
    intro path
    dsimp only
    split <;> exact fair path
  | completes member => exact fair.complete i member counted

/-- Where no more failures are counted than were answered, a path is marked failed for a reason. -/
theorem Fair.marks_right (fair : Fair s) (i : Inv s) (e : Event) : MarksRight s e := by
  intro path fails before
  have does := does s e
  generalize AoSdl.MountHttp.step s e = s' at does fails ⊢
  cases does with
  | stays | forgets _ => exact absurd fails before
  | marks often =>
    rcases Finset.mem_insert.mp fails with rfl | fails
    · exact Or.inr (often.trans (fair _))
    · exact absurd fails before
  | starts =>
    dsimp only at fails
    split at fails <;> exact absurd fails before
  | @completes d resp got_data member =>
    left
    dsimp only at fails ⊢
    rw [failed_callback _ (i.mem_pending member)] at fails
    split at fails
    · next missing =>
      rw [if_pos missing]
      rcases Finset.mem_insert.mp fails with rfl | fails
      · exact Finset.mem_insert_self _ _
      · exact absurd fails before
    · exact absurd fails before

end

theorem apart_start (host path_prefix : Bytes) : Apart (start host path_prefix) :=
  ⟨fun _ _ => rfl, fun path waits => absurd waits (Finset.notMem_empty path), fun _ _ => rfl,
    fun _ => Nat.zero_le _⟩

/-- The sets stay apart and each path has one download at a time exactly if every download starts alone.
A path answered with 404 is never asked for again. If streamed downloads are not dropped and do not
succeed after failures that still count, only paths that earned it are marked failed. -/
theorem downloads_sound (host path_prefix : Bytes) (events : List Event) :
    (Always step Apart (start host path_prefix) events ↔ Throughout step Alone (start host path_prefix) events) ∧
    Throughout step NotAgain (start host path_prefix) events ∧
    (Throughout step Counted (start host path_prefix) events →
      Throughout step MarksRight (start host path_prefix) events) := by
  have start_inv := inv_start host path_prefix
  refine ⟨?_, ?_, fun counted => ?_⟩
  · exact always_iff_throughout (I := fun s => Inv s ∧ Absent s)
      (fun s e both apart _ => ⟨both.1.step e, both.2.step apart e⟩)
      (fun s e both apart => apart_step_iff both.1 both.2 apart e)
      ⟨start_inv, fun d member => absurd member List.not_mem_nil⟩ (apart_start host path_prefix) events
  · exact throughout_of_invariant (fun s e i => i.step e) (fun s e i => i.not_again e) start_inv events
  · exact throughout_of_throughout (I := fun s => Inv s ∧ Fair s)
      (fun s e both counted => ⟨both.1.step e, both.2.step both.1 counted⟩)
      (fun s e both _ => both.2.marks_right both.1 e) ⟨start_inv, fun _ => Nat.zero_le _⟩ counted

/-- A sound that is prefetched and, in another letter case, streamed. -/
def prefetched_and_streamed : List Event :=
  [.request (bytes "sounds/music/a.opus") .NORMAL, .fetch_streaming (bytes "sounds/music/A.opus")]

def stream_a : Download :=
  ⟨bytes "a", bytes "h", bytes "/a", true, .HIGH⟩

/-- A stream of `a` that waits in the queue and is dropped there, three times; then a request. -/
def dropped_streams : List Event :=
  [.fetch_streaming (bytes "a"), .complete stream_a .dropped false,
    .fetch_streaming (bytes "a"), .complete stream_a .dropped false,
    .fetch_streaming (bytes "a"), .complete stream_a .dropped false]

theorem streams_break_apart :
    ¬Always step Apart (start (bytes "h") []) prefetched_and_streamed ∧
    ¬Throughout step MarksRight (start (bytes "h") []) (dropped_streams ++ [.request (bytes "a") .HIGH]) := by
  constructor
  · intro always
    have single := (always_iff_isPrefix.mp always _ (List.prefix_refl _)).single (bytes "sounds/music/a.opus")
    revert single
    decide +kernel
  · intro throughout
    have marks := throughout.at (bytes "a")
    revert marks
    decide +kernel

end AoSdl.MountHttp
