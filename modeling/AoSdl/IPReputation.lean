import AoSdl.Text
import AoSdl.Lib.Entries
import AoSdl.Lib.Runs
import Mathlib.Data.Rat.Init

/-! `IPReputationService`: lookups of addresses are queued for a worker that asks about them in
batches. Each section under a lock is a step, and a callback is known by the call of `lookup` that
passed it. What the external services answer is an input; times are in seconds, doubles rationals. -/
namespace AoSdl
open Lib.Runs

structure IPReputationEntry where
  ip : Bytes := []
  asn : UInt32 := 0
  as_org : Bytes := []
  country_code : Bytes := []
  isp : Bytes := []
  is_proxy : Bool := false
  is_datacenter : Bool := false
  abuse_confidence : Rat := 0
  fetched_at : Int := 0
  expires_at : Int := 0
  lookup_failed : Bool := false
  deriving DecidableEq

structure ReputationConfig where
  enabled : Bool := true
  cache_ttl_hours : Int := 24
  cache_failure_ttl_minutes : Int := 5
  ip_api_enabled : Bool := true
  abuseipdb_api_key : Bytes := []
  abuseipdb_daily_budget : Int := 1000

/-- An item of the answer of ip-api.com, with the defaults for fields that are not there. -/
structure IpApiItem where
  status : Bytes := []
  query : Bytes := []
  countryCode : Bytes := []
  isp : Bytes := []
  org : Bytes := []
  as_str : Bytes := []
  proxy : Bool := false
  hosting : Bool := false

/-- The `data` of an answer of AbuseIPDB. -/
structure AbuseIpDbData where
  abuseConfidenceScore : Int := 0
  countryCode : Bytes := []
  isp : Bytes := []

structure PendingLookup where
  ip : Bytes
  callback : Option Nat
  deriving DecidableEq

structure IPReputationService where
  config_ : ReputationConfig := {}
  cache_ : AList fun _ : Bytes => IPReputationEntry := ∅
  queue_ : List PendingLookup := []
  abuseipdb_used_ : Int := 0
  abuseipdb_reset_day_ : Int

namespace ReputationConfig

def make_expiry (c : ReputationConfig) (failed : Bool) (now : Int) : Int :=
  now + if failed then c.cache_failure_ttl_minutes * 60 else c.cache_ttl_hours * 3600

end ReputationConfig

namespace IpApiItem

/-- The number in "AS12345 Organization Name", and the name behind it. -/
def parse_as (as_str : Bytes) : Option (UInt32 × Option Bytes) :=
  match as_str with
  | a :: s :: rest =>
    if !rest.isEmpty && (a = 65 || a = 97) && (s = 83 || s = 115) then
      let num := rest.takeWhile (· ≠ 32)
      some (((stoul num).map UInt64.toUInt32).getD 0,
        if 32 ∈ rest then some (rest.drop (num.length + 1)) else none)
    else none
  | _ => none

def entry (c : ReputationConfig) (now : Int) (item : IpApiItem) : IPReputationEntry :=
  let parsed := parse_as item.as_str
  { ip := item.query
    country_code := item.countryCode
    isp := item.isp
    as_org := if item.org.isEmpty then (parsed.bind (·.2)).getD [] else item.org
    is_proxy := item.proxy
    is_datacenter := item.hosting
    fetched_at := now
    expires_at := c.make_expiry false now
    asn := (parsed.map (·.1)).getD 0 }

end IpApiItem

/-- What comes to the worker from outside while it takes one step: the clock, the items of the batch
query up to the first that cannot be read (none when the query fails), and AbuseIPDB's answer. -/
structure WorkerInput where
  now : Int
  items : List IpApiItem := []
  data : Option AbuseIpDbData := none

namespace IPReputationService

variable (s : IPReputationService)

def find_cached (ip : Bytes) (now : Int) : Option IPReputationEntry :=
  (s.cache_.lookup ip).filter fun e => now < e.expires_at

def put (e : IPReputationEntry) : IPReputationService :=
  { s with cache_ := s.cache_.insert e.ip e }

def sweep_expired (now : Int) : IPReputationService :=
  { s with cache_ := Lib.Entries.keep (fun _ e => !(e.expires_at ≤ now)) s.cache_ }

def load (entries : List IPReputationEntry) (now : Int) : IPReputationService :=
  (entries.filter fun e => !e.ip.isEmpty && !(e.expires_at ≤ now)).foldl put { s with cache_ := ∅ }

def already_queued (ip : Bytes) : Bool := s.queue_.any fun p => p.ip = ip

def enqueue (ip : Bytes) (callback : Option Nat) : IPReputationService :=
  if callback.isSome || s.config_.ip_api_enabled then
    if s.already_queued ip then s else { s with queue_ := s.queue_ ++ [⟨ip, callback⟩] }
  else s

def query_ip_api_batch (input : WorkerInput) : List IPReputationEntry :=
  if s.config_.ip_api_enabled then
    (input.items.filter (·.status = bytes "success")).map (·.entry s.config_ input.now)
  else []

def abuseipdb_budget_remaining : Int := max 0 (s.config_.abuseipdb_daily_budget - s.abuseipdb_used_)

/-- A new day gives a new budget. -/
def reset_budget (now : Int) : IPReputationService :=
  if s.abuseipdb_reset_day_ / 86400 < now / 86400 then
    { s with abuseipdb_used_ := 0, abuseipdb_reset_day_ := now }
  else s

/-- Up to the entry that is to be put into the cache. -/
def query_abuseipdb (ip : Bytes) (input : WorkerInput) : IPReputationService × Option IPReputationEntry :=
  if s.config_.abuseipdb_api_key.isEmpty || s.abuseipdb_budget_remaining ≤ 0 then (s, none)
  else
    ({ s with abuseipdb_used_ := s.abuseipdb_used_ + 1 }, input.data.map fun data =>
      let entry := (s.find_cached ip input.now).getD { ip }
      { entry with
        abuse_confidence := (data.abuseConfidenceScore : Rat) / 100
        fetched_at := input.now
        expires_at := s.config_.make_expiry false input.now
        country_code := if entry.country_code.isEmpty then data.countryCode else entry.country_code
        isp := if entry.isp.isEmpty then data.isp else entry.isp })

end IPReputationService

/-- Where the worker is in its loop. -/
inductive ReputationWorker where
  | waiting
  | querying (batch : List PendingLookup)
  | updating (batch : List PendingLookup) (results : List IPReputationEntry)
  /-- The entry of the first item is in the cache, and its callback comes next. -/
  | calling (callback : Option Nat) (entry : IPReputationEntry) (batch : List PendingLookup)
    (results : List IPReputationEntry)
  | enriching (results : List IPReputationEntry)
  | enriched (entry : IPReputationEntry) (results : List IPReputationEntry)
  deriving DecidableEq

/-- How far a call of `lookup` has come. -/
inductive LookupState where
  | disabled
  | cached (entry : IPReputationEntry)
  | missed
  | returned
  deriving DecidableEq

structure LookupCall where
  ip : Bytes
  callback : Bool
  state : LookupState
  deriving DecidableEq

/-- The service with its worker, and what was asked and answered. -/
structure ReputationSystem where
  service : IPReputationService
  worker : ReputationWorker := .waiting
  calls : List LookupCall := []
  invoked : List (Nat × IPReputationEntry) := []

inductive ReputationOp where
  | configure (config : ReputationConfig)
  | load (entries : List IPReputationEntry) (now : Int)
  | put (entry : IPReputationEntry)
  | sweep_expired (now : Int)
  /-- A call of `lookup` up to the end of its look into the cache. -/
  | lookup (ip : Bytes) (callback : Bool) (now : Int)
  /-- The rest of a call that found nothing there. -/
  | enqueue (call : Nat)
  | work (input : WorkerInput)

namespace ReputationSystem

def started (now : Int) : ReputationSystem where
  service := { abuseipdb_reset_day_ := now }

def lookup (s : ReputationSystem) (ip : Bytes) (callback : Bool) (now : Int) : ReputationSystem :=
  let state := if !s.service.config_.enabled then .disabled else
    match s.service.find_cached ip now with
    | some entry => .cached entry
    | none => .missed
  { s with calls := s.calls ++ [⟨ip, callback, state⟩] }

def enqueue (s : ReputationSystem) (i : Nat) : ReputationSystem :=
  match s.calls[i]? with
  | some ⟨ip, callback, .missed⟩ =>
    { s with
      service := s.service.enqueue ip (if callback then some i else none)
      calls := s.calls.set i ⟨ip, callback, .returned⟩ }
  | _ => s

/-- The entry for one item of a batch: the last result with its address, or a failure. -/
def result (s : ReputationSystem) (results : List IPReputationEntry) (ip : Bytes) (now : Int) :
    IPReputationEntry :=
  match results.reverse.find? (·.ip = ip) with
  | some entry => entry
  | none =>
    { ip, lookup_failed := true, fetched_at := now,
      expires_at := s.service.config_.make_expiry true now }

/-- One step of the worker's loop. -/
def work (s : ReputationSystem) (input : WorkerInput) : ReputationSystem :=
  match s.worker with
  | .waiting =>
    if s.service.queue_.isEmpty then s
    else
      { s with
        service := { s.service with queue_ := s.service.queue_.drop 100 }
        worker := .querying (s.service.queue_.take 100) }
  | .querying batch => { s with worker := .updating batch (s.service.query_ip_api_batch input) }
  | .updating (item :: batch) results =>
    let entry := s.result results item.ip input.now
    { s with service := s.service.put entry, worker := .calling item.callback entry batch results }
  | .calling callback entry batch results =>
    { s with
      worker := .updating batch results
      invoked := s.invoked ++ (callback.map (·, entry)).toList }
  | .updating [] results =>
    if s.service.config_.abuseipdb_api_key.isEmpty then { s with worker := .waiting }
    else { s with service := s.service.reset_budget input.now, worker := .enriching results }
  | .enriching [] => { s with worker := .waiting }
  | .enriching (entry :: results) =>
    if (entry.is_proxy || entry.is_datacenter) && 0 < s.service.abuseipdb_budget_remaining then
      match s.service.query_abuseipdb entry.ip input with
      | (service, some enriched) => { s with service, worker := .enriched enriched results }
      | (service, none) => { s with service, worker := .enriching results }
    else { s with worker := .enriching results }
  | .enriched entry results => { s with service := s.service.put entry, worker := .enriching results }

def step (s : ReputationSystem) : ReputationOp → ReputationSystem
  | .configure config => { s with service := { s.service with config_ := config } }
  | .load entries now => { s with service := s.service.load entries now }
  | .put entry => { s with service := s.service.put entry }
  | .sweep_expired now => { s with service := s.service.sweep_expired now }
  | .lookup ip callback now => s.lookup ip callback now
  | .enqueue i => s.enqueue i
  | .work input => s.work input

/-- Nothing is queued and the worker waits. -/
def Drained (s : ReputationSystem) : Prop := s.service.queue_ = [] ∧ s.worker = .waiting

/-- The entries a call's callback was invoked with. -/
def answers (s : ReputationSystem) (i : Nat) : List IPReputationEntry :=
  (s.invoked.filter (·.1 = i)).map (·.2)

/-- The call passed a callback and returned no entry, with the service enabled. -/
def owed (call : LookupCall) : Bool := call.callback && call.state = .returned

/-- Each such call had its callback invoked once, with an entry for its address. -/
def Answered (s : ReputationSystem) : Prop :=
  ∀ i call, s.calls[i]? = some call → owed call → ∃ entry, s.answers i = [entry] ∧ entry.ip = call.ip

/-- A callback does not come in while its address is queued. -/
def Unqueued (s : ReputationSystem) : ReputationOp → Prop
  | .enqueue i => ∀ ip, s.calls[i]? = some ⟨ip, true, .missed⟩ → s.service.already_queued ip = false
  | _ => True

section Proof

variable {s t : ReputationSystem} {i : Nat} {ip : Bytes} {callback : Bool} {queue : List PendingLookup}

/-- The callback that an item of the queue carries, and its address. -/
def ticket (p : PendingLookup) : Option (Nat × Bytes) := p.callback.map (·, p.ip)

def held : ReputationWorker → List (Nat × Bytes)
  | .querying batch => batch.filterMap ticket
  | .updating batch _ => batch.filterMap ticket
  | .calling callback entry batch _ => (callback.map (·, entry.ip)).toList ++ batch.filterMap ticket
  | _ => []

/-- All callbacks that came in: those invoked, those the worker has, and those queued. -/
def tickets (s : ReputationSystem) : List (Nat × Bytes) :=
  s.invoked.map (fun answer => (answer.1, answer.2.ip)) ++ (held s.worker ++ s.service.queue_.filterMap ticket)

@[simp] theorem queue_put (service : IPReputationService) (e : IPReputationEntry) :
    (service.put e).queue_ = service.queue_ := rfl

@[simp] theorem queue_load (service : IPReputationService) (entries : List IPReputationEntry) (now : Int) :
    (service.load entries now).queue_ = service.queue_ :=
  List.foldlRecOn (motive := fun t : IPReputationService => t.queue_ = service.queue_) _ _ rfl
    fun _ same _ _ => same

@[simp] theorem queue_reset_budget (service : IPReputationService) (now : Int) :
    (service.reset_budget now).queue_ = service.queue_ := by
  unfold IPReputationService.reset_budget
  split <;> rfl

@[simp] theorem queue_query_abuseipdb (service : IPReputationService) (ip : Bytes) (input : WorkerInput) :
    (service.query_abuseipdb ip input).1.queue_ = service.queue_ := by
  unfold IPReputationService.query_abuseipdb
  split <;> rfl

theorem result_ip (s : ReputationSystem) (results : List IPReputationEntry) (ip : Bytes) (now : Int) :
    (s.result results ip now).ip = ip := by
  unfold result
  split
  · next entry found => simpa using List.find?_some found
  · rfl

/-- What the worker does next when it has entries to look at again. -/
theorem work_enriching {entry : IPReputationEntry} {results : List IPReputationEntry}
    (here : s.worker = .enriching (entry :: results)) (input : WorkerInput) :
    (s.work input).service.queue_ = s.service.queue_ ∧ (s.work input).invoked = s.invoked ∧
    ((s.work input).worker = .enriching results ∨
      ∃ enriched, (s.work input).worker = .enriched enriched results) := by
  have same := queue_query_abuseipdb s.service entry.ip input
  unfold work
  rw [here]
  dsimp only
  split
  · split
    · next service enriched queried =>
      rw [queried] at same
      exact ⟨same, rfl, .inr ⟨enriched, rfl⟩⟩
    · next service queried =>
      rw [queried] at same
      exact ⟨same, rfl, .inl rfl⟩
  · exact ⟨rfl, rfl, .inl rfl⟩

theorem work_querying {batch : List PendingLookup} (here : s.worker = .querying batch) (input : WorkerInput) :
    s.work input = { s with worker := .updating batch (s.service.query_ip_api_batch input) } := by
  unfold work
  rw [here]

theorem work_calling {given : Option Nat} {entry : IPReputationEntry} {batch : List PendingLookup}
    {results : List IPReputationEntry} (here : s.worker = .calling given entry batch results)
    (input : WorkerInput) :
    s.work input = { s with
      worker := .updating batch results
      invoked := s.invoked ++ (given.map (·, entry)).toList } := by
  unfold work
  rw [here]

theorem work_enriched {entry : IPReputationEntry} {results : List IPReputationEntry}
    (here : s.worker = .enriched entry results) (input : WorkerInput) :
    s.work input = { s with service := s.service.put entry, worker := .enriching results } := by
  unfold work
  rw [here]

theorem work_tickets (s : ReputationSystem) (input : WorkerInput) : (s.work input).tickets = s.tickets := by
  cases here : s.worker with
  | waiting =>
    unfold work tickets
    rw [here]
    dsimp only
    split
    · rw [here]
    · simp only [held, List.nil_append, ← List.filterMap_append, List.take_append_drop]
  | querying batch => simp only [work, tickets, here, held]
  | updating batch results =>
    cases batch with
    | nil =>
      unfold work tickets
      rw [here]
      dsimp only
      split <;> simp [held]
    | cons item batch =>
      simp only [work, tickets, here, held, result_ip, queue_put]
      cases given : item.callback <;> simp [ticket, given]
  | calling callback entry batch results =>
    cases callback <;> simp [work, tickets, here, held]
  | enriching results =>
    cases results with
    | nil => simp only [work, tickets, here, held]
    | cons entry results =>
      obtain ⟨queue, invoked, worker⟩ := work_enriching here input
      unfold tickets
      rw [queue, invoked, here]
      obtain same | ⟨enriched, same⟩ := worker <;> rw [same] <;> rfl
  | enriched entry results => simp only [work, tickets, here, held, queue_put]

theorem work_calls (s : ReputationSystem) (input : WorkerInput) : (s.work input).calls = s.calls := by
  unfold work
  split
  · split <;> rfl
  · rfl
  · rfl
  · rfl
  · split <;> rfl
  · rfl
  · split
    · split <;> rfl
    · rfl
  · rfl

/-- A call gets an entry of the queue exactly if its address has none. -/
theorem enqueue_spec (missed : s.calls[i]? = some ⟨ip, callback, .missed⟩) :
    (s.enqueue i).calls = s.calls.set i ⟨ip, callback, .returned⟩ ∧
    (s.enqueue i).tickets = s.tickets ++
      if callback && !s.service.already_queued ip then [(i, ip)] else [] := by
  unfold enqueue
  rw [missed]
  refine ⟨rfl, ?_⟩
  unfold IPReputationService.enqueue tickets
  cases callback with
  | true => cases queued : s.service.already_queued ip <;> simp [queued, ticket]
  | false =>
    simp only [Bool.false_eq_true, if_false, Option.isSome_none, Bool.false_or, Bool.false_and,
      List.append_nil]
    split
    · split
      · rfl
      · simp [ticket]
    · rfl

/-- Only calls that have returned without an entry have handed a callback over. -/
def Sound (s : ReputationSystem) : Prop :=
  ∀ t ∈ s.tickets, ∃ call, s.calls[t.1]? = some call ∧ owed call = true

/-- Each of them has handed over its own. -/
def Kept (s : ReputationSystem) : Prop :=
  ∀ i call, s.calls[i]? = some call → owed call → s.tickets.filter (·.1 = i) = [(i, call.ip)]

theorem Sound.none_of (sound : Sound s) {call : LookupCall} (known : s.calls[i]? = some call)
    (other : owed call = false) : s.tickets.filter (·.1 = i) = [] := by
  refine List.filter_eq_nil_iff.mpr fun t inside same => ?_
  obtain ⟨own, listed, owes⟩ := sound t inside
  rw [of_decide_eq_true same, known] at listed
  cases listed
  exact Bool.false_ne_true (other.symm.trans owes)

theorem sound_lookup (sound : Sound s) (ip : Bytes) (callback : Bool) (now : Int) :
    Sound (s.lookup ip callback now) := by
  intro t inside
  obtain ⟨call, known, owes⟩ := sound t inside
  exact ⟨call, List.getElem?_append_left (List.getElem?_eq_some_iff.mp known).1 ▸ known, owes⟩

theorem kept_lookup (ip : Bytes) (callback : Bool) (now : Int) :
    Kept (s.lookup ip callback now) ↔ Kept s := by
  have fresh : ∀ call, (s.lookup ip callback now).calls[s.calls.length]? = some call → owed call = false := by
    intro call known
    simp only [lookup, List.getElem?_concat_length, Option.some.injEq] at known
    subst known
    simp only [owed]
    split
    · simp
    · split <;> simp
  constructor
  · intro kept i call known owes
    exact kept i call (List.getElem?_append_left (List.getElem?_eq_some_iff.mp known).1 ▸ known) owes
  · intro kept i call known owes
    rcases Nat.lt_trichotomy i s.calls.length with early | rfl | late
    · refine kept i call ?_ owes
      rwa [lookup, List.getElem?_append_left early] at known
    · rw [fresh call known] at owes
      cases owes
    · rw [List.getElem?_eq_none (by simp [lookup]; omega)] at known
      cases known

theorem enqueue_other (apart : ∀ ip callback, s.calls[i]? ≠ some ⟨ip, callback, .missed⟩) : s.enqueue i = s := by
  unfold enqueue
  split
  · next known => exact absurd known (apart _ _)
  · rfl

theorem sound_enqueue (sound : Sound s) (i : Nat) : Sound (s.enqueue i) := by
  by_cases known : ∃ ip callback, s.calls[i]? = some ⟨ip, callback, .missed⟩
  · obtain ⟨ip, callback, missed⟩ := known
    obtain ⟨calls, tickets⟩ := enqueue_spec missed
    have here := (List.getElem?_eq_some_iff.mp missed).1
    intro t inside
    rw [tickets] at inside
    rw [calls]
    rcases List.mem_append.mp inside with old | new
    · obtain ⟨call, listed, owes⟩ := sound t old
      refine ⟨call, ?_, owes⟩
      rw [List.getElem?_set_ne, listed]
      rintro rfl
      rw [missed] at listed
      cases listed
      simp [owed] at owes
    · split at new
      · next pushed =>
        obtain rfl := List.mem_singleton.mp new
        refine ⟨_, List.getElem?_set_self here, ?_⟩
        simpa [owed] using (Bool.and_eq_true_iff.mp pushed).1
      · cases new
  · rwa [enqueue_other fun ip callback missed => known ⟨ip, callback, missed⟩]

theorem kept_enqueue (sound : Sound s) (i : Nat) :
    Kept (s.enqueue i) ↔ Kept s ∧ Unqueued s (.enqueue i) := by
  by_cases known : ∃ ip callback, s.calls[i]? = some ⟨ip, callback, .missed⟩
  · obtain ⟨ip, callback, missed⟩ := known
    obtain ⟨calls, tickets⟩ := enqueue_spec missed
    have here := (List.getElem?_eq_some_iff.mp missed).1
    have before := sound.none_of missed (by simp [owed])
    have others : ∀ j, i ≠ j → (s.enqueue i).calls[j]? = s.calls[j]? ∧
        (s.enqueue i).tickets.filter (·.1 = j) = s.tickets.filter (·.1 = j) := by
      intro j apart
      rw [calls, tickets, List.getElem?_set_ne apart, List.filter_append]
      split <;> simp [apart]
    have own : (s.enqueue i).tickets.filter (·.1 = i) =
        if callback && !s.service.already_queued ip then [(i, ip)] else [] := by
      rw [tickets, List.filter_append, before, List.nil_append]
      split <;> simp
    have set : (s.enqueue i).calls[i]? = some ⟨ip, callback, .returned⟩ := by
      rw [calls, List.getElem?_set_self here]
    constructor
    · intro kept
      refine ⟨fun j call listed owes => ?_, fun ip' shape => ?_⟩
      · by_cases same : i = j
        · subst same
          rw [missed] at listed
          cases listed
          simp [owed] at owes
        · rw [← (others j same).2]
          exact kept j call ((others j same).1.trans listed) owes
      · rw [missed] at shape
        cases shape
        have one := kept i _ set (by simp [owed])
        rw [own] at one
        cases queued : s.service.already_queued ip with
        | false => rfl
        | true =>
          rw [queued] at one
          cases one
    · rintro ⟨kept, unqueued⟩ j call listed owes
      by_cases same : i = j
      · subst same
        rw [set] at listed
        cases listed
        obtain rfl : callback = true := by simpa [owed] using owes
        rw [own, unqueued ip missed]
        rfl
      · rw [(others j same).2]
        exact kept j call ((others j same).1.symm.trans listed) owes
  · have apart : ∀ ip callback, s.calls[i]? ≠ some ⟨ip, callback, .missed⟩ :=
      fun ip callback missed => known ⟨ip, callback, missed⟩
    rw [enqueue_other apart]
    exact (and_iff_left fun ip missed => absurd missed (apart ip true)).symm

theorem Sound.step (sound : Sound s) (op : ReputationOp) : Sound (s.step op) := by
  cases op with
  | lookup ip callback now => exact sound_lookup sound ip callback now
  | enqueue i => exact sound_enqueue sound i
  | work input =>
    intro t inside
    rw [ReputationSystem.step, work_calls]
    exact sound t (work_tickets s input ▸ inside)
  | load entries now =>
    simpa only [Sound, tickets, ReputationSystem.step, queue_load] using sound
  | _ => exact sound

theorem kept_step (sound : Sound s) (op : ReputationOp) : Kept (s.step op) ↔ Kept s ∧ Unqueued s op := by
  cases op with
  | lookup ip callback now => exact (kept_lookup ip callback now).trans (and_iff_left trivial).symm
  | enqueue i => exact kept_enqueue sound i
  | work input =>
    simp only [Kept, step, work_calls, work_tickets, Unqueued, and_true]
  | load entries now =>
    simp only [Kept, step, tickets, queue_load, Unqueued, and_true]
  | _ => exact (and_iff_left trivial).symm

/-- Once the worker is through, the callbacks handed over are those invoked. -/
theorem Drained.answered_iff (drained : s.Drained) : s.Answered ↔ Kept s := by
  have all : s.tickets = s.invoked.map fun answer => (answer.1, answer.2.ip) := by
    simp [tickets, drained.1, drained.2, held]
  refine forall_congr' fun i => forall_congr' fun call => imp_congr_right fun _ => imp_congr_right fun _ => ?_
  have apart : ∀ answer : Nat × IPReputationEntry, answer ∈ s.invoked.filter (·.1 = i) → answer.1 = i :=
    fun answer inside => of_decide_eq_true (List.mem_filter.mp inside).2
  rw [all, List.filter_map, List.map_eq_singleton_iff, answers]
  constructor
  · rintro ⟨entry, once, same⟩
    obtain ⟨answer, one, rfl⟩ := List.map_eq_singleton_iff.mp once
    have own := apart answer (one ▸ List.mem_singleton_self _)
    exact ⟨answer, one, by rw [own, same]⟩
  · rintro ⟨answer, one, same⟩
    refine ⟨answer.2, ?_, congrArg Prod.snd same⟩
    exact List.map_eq_singleton_iff.mpr ⟨answer, one, rfl⟩

/-- Left alone, the worker gets through. -/
def Drains (s : ReputationSystem) : Prop :=
  ∀ inputs : Nat → WorkerInput, ∃ n, Drained (run step s ((List.range n).map fun i => .work (inputs i)))

theorem Drains.of_work (next : ∀ input, Drains (s.work input)) : Drains s := by
  intro inputs
  obtain ⟨n, drained⟩ := next (inputs 0) fun i => inputs (i + 1)
  refine ⟨n + 1, ?_⟩
  rw [List.range_succ_eq_map, List.map_cons, List.map_map]
  exact drained

theorem drains_enriching (next : ∀ t : ReputationSystem, t.service.queue_ = queue → t.worker = .waiting → Drains t)
    (results : List IPReputationEntry) :
    ∀ t : ReputationSystem, t.service.queue_ = queue → t.worker = .enriching results → Drains t := by
  induction results with
  | nil =>
    intro t same here
    refine .of_work fun input => ?_
    unfold work
    rw [here]
    exact next _ same rfl
  | cons entry results ih =>
    intro t same here
    refine .of_work fun input => ?_
    obtain ⟨kept, _, worker⟩ := work_enriching here input
    rcases worker with worker | ⟨enriched, worker⟩
    · exact ih _ (kept.trans same) worker
    · refine .of_work fun input' => ?_
      rw [work_enriched worker]
      exact ih _ (kept.trans same) rfl

theorem drains_updating (next : ∀ t : ReputationSystem, t.service.queue_ = queue → t.worker = .waiting → Drains t)
    (batch : List PendingLookup) (results : List IPReputationEntry) :
    ∀ t : ReputationSystem, t.service.queue_ = queue → t.worker = .updating batch results → Drains t := by
  induction batch with
  | nil =>
    intro t same here
    refine .of_work fun input => ?_
    unfold work
    rw [here]
    dsimp only
    split
    · exact next _ same rfl
    · exact drains_enriching next results _ ((queue_reset_budget _ _).trans same) rfl
  | cons item batch ih =>
    intro t same here
    refine .of_work fun input => .of_work fun input' => ?_
    unfold work
    rw [here]
    exact ih _ same rfl

/-- A batch takes something off the queue. -/
theorem drains (s : ReputationSystem) : Drains s := by
  have waiting : ∀ n, ∀ t : ReputationSystem, t.service.queue_.length = n → t.worker = .waiting → Drains t := by
    intro n
    induction n using Nat.strong_induction_on with
    | h n ih =>
      intro t long here
      by_cases empty : t.service.queue_ = []
      · exact fun _ => ⟨0, empty, here⟩
      · have fewer : (t.service.queue_.drop 100).length < n := by
          have := List.length_pos_iff.mpr empty
          rw [List.length_drop]
          omega
        refine .of_work fun input => .of_work fun input' => ?_
        have taken : t.work input =
            { t with
              service := { t.service with queue_ := t.service.queue_.drop 100 }
              worker := .querying (t.service.queue_.take 100) } := by
          unfold work
          rw [here]
          exact if_neg fun none => empty (List.isEmpty_iff.mp none)
        rw [taken]
        exact drains_updating (fun u same => ih _ fewer u (congrArg List.length same)) _ _ _ rfl rfl
  have next : ∀ t : ReputationSystem, t.service.queue_ = s.service.queue_ → t.worker = .waiting → Drains t :=
    fun t same here => waiting _ t (congrArg List.length same) here
  cases here : s.worker with
  | waiting => exact next s rfl here
  | querying batch =>
    refine .of_work fun input => ?_
    rw [work_querying here]
    exact drains_updating next _ _ _ rfl rfl
  | updating batch results => exact drains_updating next _ _ s rfl here
  | calling callback entry batch results =>
    refine .of_work fun input => ?_
    rw [work_calling here]
    exact drains_updating next _ _ _ rfl rfl
  | enriching results => exact drains_enriching next _ s rfl here
  | enriched entry results =>
    refine .of_work fun input => ?_
    rw [work_enriched here]
    exact drains_enriching next _ _ rfl rfl

end Proof

/-- The worker always gets through, and then every lookup has been answered exactly if no lookup with a
callback came while its address was queued. -/
theorem answered_iff_unqueued (now : Int) (ops : List ReputationOp) :
    (∀ inputs : Nat → WorkerInput, ∃ n,
      (run step (started now) (ops ++ (List.range n).map fun i => .work (inputs i))).Drained) ∧
    ((run step (started now) ops).Drained →
      ((run step (started now) ops).Answered ↔ Throughout step Unqueued (started now) ops)) := by
  have sound : Sound (started now) := fun t inside => absurd inside List.not_mem_nil
  have kept : Kept (started now) := fun i call known => by simp [started] at known
  constructor
  · intro inputs
    obtain ⟨n, drained⟩ := drains (run step (started now) ops) inputs
    exact ⟨n, by rwa [run_append]⟩
  · intro drained
    rw [drained.answered_iff, run_iff_throughout (fun s op sound => sound.step op)
      (fun s op sound => kept_step sound op) sound]
    exact and_iff_right kept

/-- Two clients with one address say hello before the worker looks at its queue. -/
def sameAddress : List ReputationOp :=
  [.lookup (bytes "10.0.0.1") true 0, .enqueue 0, .lookup (bytes "10.0.0.1") true 0, .enqueue 1,
    .work ⟨1, [], none⟩, .work ⟨1, [], none⟩, .work ⟨1, [], none⟩, .work ⟨1, [], none⟩, .work ⟨1, [], none⟩]

theorem second_callback_dropped :
    (run step (started 0) sameAddress).Drained ∧ ¬ (run step (started 0) sameAddress).Answered := by
  refine ⟨⟨by decide +kernel, by decide +kernel⟩, fun answered => ?_⟩
  obtain ⟨entry, once, _⟩ := answered 1 ⟨bytes "10.0.0.1", true, .returned⟩ (by decide +kernel) rfl
  have none : (run step (started 0) sameAddress).answers 1 = [] := by decide +kernel
  rw [none] at once
  cases once

end ReputationSystem

end AoSdl
