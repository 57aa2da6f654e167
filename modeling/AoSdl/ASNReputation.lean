import AoSdl.BanManager
import AoSdl.Lib.Entries
import AoSdl.Lib.Runs
import Mathlib.Data.Finset.Card

/-! Abuse counts of autonomous systems, and their blocks. A block that has ended is still there until
a sweep resets it, and so are addresses whose events have left the window; a run is compared with
the same run without its sweeps. Each call reads the clock once. -/
namespace AoSdl
open Lib.Entries Lib.Runs

inductive ASNStatus where
  | NORMAL | WATCHED | RATE_LIMITED | BLOCKED
  deriving DecidableEq

structure ASNReputationEntry where
  asn : UInt32 := 0
  as_org : Bytes := []
  total_abuse_events : Nat := 0
  abusive_ips_in_window : Finset Bytes := ∅
  recent_event_times : List Int := []
  status : ASNStatus := .NORMAL
  status_changed_at : Int := 0
  block_expires_at : Int := 0
  block_reason : Bytes := []
  deriving DecidableEq

attribute [ext] ASNReputationEntry

structure ASNReputationConfig where
  enabled : Bool := true
  watch_threshold : Int := 2
  rate_limit_threshold : Int := 3
  block_threshold : Int := 5
  window_minutes : Int := 60
  auto_block_duration : Bytes := bytes "24h"
  whitelist_asns : List UInt32 := []
  whitelist_multiplier : Int := 5

/-- The arguments of the status callback. -/
structure StatusChange where
  asn : UInt32
  old_status : ASNStatus
  new_status : ASNStatus
  reason : Bytes
  deriving DecidableEq

namespace ASNReputationConfig

def effective_threshold (c : ASNReputationConfig) (base_threshold : Int) (asn : UInt32) : Int :=
  if asn ∈ c.whitelist_asns then base_threshold * c.whitelist_multiplier else base_threshold

def window_start (c : ASNReputationConfig) (now : Int) : Int := now - c.window_minutes * 60

end ASNReputationConfig

namespace ASNReputationEntry

def prune_window (c : ASNReputationConfig) (now : Int) (e : ASNReputationEntry) : ASNReputationEntry :=
  { e with recent_event_times := e.recent_event_times.filter fun t => !(t < c.window_start now) }

/-- The status to escalate to, and why. -/
def escalation (c : ASNReputationConfig) (now : Int) (e : ASNReputationEntry) : Option (ASNStatus × Bytes) :=
  let unique_ips : Int := e.abusive_ips_in_window.card
  match e.status with
  | .NORMAL =>
    if c.effective_threshold c.watch_threshold e.asn ≤ unique_ips then
      some (.WATCHED, bytes "abuse threshold (WATCHED)")
    else none
  | .WATCHED =>
    if c.effective_threshold c.rate_limit_threshold e.asn ≤ unique_ips then
      some (.RATE_LIMITED, bytes "abuse threshold (RATE_LIMITED)")
    else none
  | .RATE_LIMITED =>
    if c.effective_threshold c.block_threshold e.asn ≤ unique_ips then
      some (.BLOCKED, bytes "abuse threshold (BLOCKED)")
    else if 15 * 60 < now - e.status_changed_at && e.recent_event_times.any (now - 300 < ·) then
      some (.BLOCKED, bytes "sustained abuse after rate limiting")
    else none
  | .BLOCKED => none

def escalate (c : ASNReputationConfig) (now : Int) (e : ASNReputationEntry) (new_status : ASNStatus)
    (reason : Bytes) : ASNReputationEntry :=
  let e := { e with status := new_status, status_changed_at := now }
  if new_status = .BLOCKED then
    let duration := parse_ban_duration c.auto_block_duration
    { e with block_expires_at := if 0 < duration then wrap64 (now + duration) else 0, block_reason := reason }
  else e

def evaluate_escalation (c : ASNReputationConfig) (now : Int) (e : ASNReputationEntry) :
    ASNReputationEntry :=
  match e.escalation c now with
  | none => e
  | some (new_status, reason) => e.escalate c now new_status reason

/-- What `report_abuse` makes of the entry before it counts the event. -/
def opened (asn : UInt32) (as_org : Bytes) (e : ASNReputationEntry) : ASNReputationEntry :=
  if e.asn = 0 then { e with asn, as_org, status := .NORMAL }
  else if e.as_org.isEmpty && !as_org.isEmpty then { e with as_org }
  else e

def counted (c : ASNReputationConfig) (now : Int) (ip : Bytes) (e : ASNReputationEntry) :
    ASNReputationEntry :=
  evaluate_escalation c now (prune_window c now { e with
    total_abuse_events := e.total_abuse_events + 1
    recent_event_times := e.recent_event_times ++ [now]
    abusive_ips_in_window := insert ip e.abusive_ips_in_window })

def block_expired (e : ASNReputationEntry) (now : Int) : Bool :=
  e.status = .BLOCKED && 0 < e.block_expires_at && e.block_expires_at ≤ now

def reset_block (now : Int) (e : ASNReputationEntry) : ASNReputationEntry :=
  if e.block_expired now then
    { e with status := .NORMAL, block_reason := [], status_changed_at := now }
  else e

def prune_ips (e : ASNReputationEntry) : ASNReputationEntry :=
  if e.recent_event_times.isEmpty then { e with abusive_ips_in_window := ∅ } else e

/-- What a sweep makes of the entry, if it keeps it. -/
def swept (c : ASNReputationConfig) (now : Int) (e : ASNReputationEntry) : ASNReputationEntry :=
  ((e.reset_block now).prune_window c now).prune_ips

def without_history (e : ASNReputationEntry) : Bool :=
  e.status = .NORMAL && e.total_abuse_events = 0 && e.abusive_ips_in_window = ∅

/-- There is an event in the window, if addresses are remembered. -/
def Backed (c : ASNReputationConfig) (now : Int) (e : ASNReputationEntry) : Prop :=
  e.abusive_ips_in_window = ∅ ∨ ∃ t ∈ e.recent_event_times, c.window_start now ≤ t

instance (c : ASNReputationConfig) (now : Int) (e : ASNReputationEntry) : Decidable (e.Backed c now) :=
  inferInstanceAs (Decidable (_ ∨ _))

/-- A sweep drops the entry. -/
def Forgettable (e : ASNReputationEntry) (now : Int) : Prop :=
  e.total_abuse_events = 0 ∧ (e.status = .NORMAL ∨ e.block_expired now = true)

end ASNReputationEntry

structure ASNReputationManager where
  config_ : ASNReputationConfig := {}
  status_callback_ : Bool := false
  asns_ : AList (fun _ : UInt32 => ASNReputationEntry) := ∅

namespace ASNReputationManager

/-- The manager, and the call of the status callback if there is one. -/
def report_abuse (m : ASNReputationManager) (now : Int) (asn : UInt32) (ip as_org reason : Bytes) :
    ASNReputationManager × Option StatusChange :=
  if !m.config_.enabled || asn = 0 then (m, none)
  else
    let entry := ((m.asns_.lookup asn).getD {}).opened asn as_org
    if entry.status = .BLOCKED then ({ m with asns_ := m.asns_.insert asn entry }, none)
    else
      let counted := entry.counted m.config_ now ip
      ({ m with asns_ := m.asns_.insert asn counted },
        if entry.status ≠ counted.status ∧ m.status_callback_ then
          some ⟨asn, entry.status, counted.status, reason⟩ else none)

def check_blocked (m : ASNReputationManager) (now : Int) (asn : UInt32) : Option ASNReputationEntry :=
  if asn = 0 then none
  else
    (m.asns_.lookup asn).filter fun entry =>
      entry.status = .BLOCKED && !(0 < entry.block_expires_at && entry.block_expires_at ≤ now)

def get_status (m : ASNReputationManager) (asn : UInt32) : Option ASNReputationEntry :=
  m.asns_.lookup asn

def block_asn (m : ASNReputationManager) (now : Int) (asn : UInt32) (as_org reason : Bytes)
    (duration_sec : Int) : ASNReputationManager :=
  let entry := (m.asns_.lookup asn).getD {}
  { m with asns_ := m.asns_.insert asn { entry with
      asn
      as_org := if as_org.isEmpty then entry.as_org else as_org
      status := .BLOCKED
      status_changed_at := now
      block_expires_at := if duration_sec = DURATION_PERMANENT then 0 else wrap64 (now + duration_sec)
      block_reason := reason } }

def unblock_asn (m : ASNReputationManager) (now : Int) (asn : UInt32) : ASNReputationManager × Bool :=
  match m.asns_.lookup asn with
  | none => (m, false)
  | some entry =>
    ({ m with asns_ := m.asns_.insert asn { entry with
        status := .NORMAL
        block_expires_at := 0
        block_reason := []
        abusive_ips_in_window := ∅
        recent_event_times := []
        status_changed_at := now } }, true)

/-- The manager, and how many blocks were reset. -/
def sweep (m : ASNReputationManager) (now : Int) : ASNReputationManager × Nat :=
  let swept := mapValues (fun _ e => e.swept m.config_ now) m.asns_
  ({ m with asns_ := keep (fun _ e => !e.without_history) swept },
    m.asns_.entries.countP fun e => e.2.block_expired now)

inductive Call where
  | report_abuse (asn : UInt32) (ip as_org reason : Bytes)
  | block_asn (asn : UInt32) (as_org reason : Bytes) (duration_sec : Int)
  | unblock_asn (asn : UInt32)
  | check_blocked (asn : UInt32)
  | sweep
  deriving DecidableEq

def step (m : ASNReputationManager) (e : Int × Call) : ASNReputationManager :=
  match e.2 with
  | .report_abuse asn ip as_org reason => (m.report_abuse e.1 asn ip as_org reason).1
  | .block_asn asn as_org reason duration_sec => m.block_asn e.1 asn as_org reason duration_sec
  | .unblock_asn asn => (m.unblock_asn e.1 asn).1
  | .check_blocked _ => m
  | .sweep => (m.sweep e.1).1

/-- The result of a check; the status a report leads to, with its call of the callback. -/
inductive Answer where
  | checked (result : Option ASNReputationEntry)
  | reported (status : ASNStatus) (callback : Option StatusChange)
  deriving DecidableEq

/-- A report that is not counted, as the manager is not enabled, leads to no status. -/
def answer (m : ASNReputationManager) (e : Int × Call) : Option Answer :=
  match e.2 with
  | .report_abuse asn ip as_org reason =>
    if !m.config_.enabled || asn = 0 then none
    else
      let (after, callback) := m.report_abuse e.1 asn ip as_org reason
      (after.get_status asn).map fun entry => .reported entry.status callback
  | .check_blocked asn => some (.checked (m.check_blocked e.1 asn))
  | _ => none

def answers (m : ASNReputationManager) : List (Int × Call) → List Answer
  | [] => []
  | e :: rest => (m.answer e).toList ++ answers (m.step e) rest

/-- The block itself: the organisation's name and the contents of the window are left out. -/
def Answer.essence : Answer → Answer
  | .checked result => .checked (result.map fun e =>
      { e with as_org := [], abusive_ips_in_window := ∅, recent_event_times := [] })
  | .reported status callback => .reported status callback

def Call.is_sweep : Call → Bool
  | .sweep => true
  | _ => false

def unswept (calls : List (Int × Call)) : List (Int × Call) := calls.filter fun e => !e.2.is_sweep

/-- No report finds a block that has ended, or addresses without an event in the window. -/
def Guarded (m : ASNReputationManager) (e : Int × Call) : Prop :=
  match e.2 with
  | .report_abuse asn _ _ _ => m.config_.enabled = true → asn ≠ 0 → ∀ x ∈ m.asns_.lookup asn,
      x.block_expired e.1 = false ∧ (x.status ≠ .BLOCKED → x.Backed m.config_ e.1)
  | _ => True

instance (m : ASNReputationManager) : (e : Int × Call) → Decidable (Guarded m e)
  | (now, .report_abuse asn _ _ _) => inferInstanceAs (Decidable (m.config_.enabled = true → asn ≠ 0 →
      ∀ x ∈ m.asns_.lookup asn,
        x.block_expired now = false ∧ (x.status ≠ .BLOCKED → x.Backed m.config_ now)))
  | (_, .block_asn _ _ _ _) | (_, .unblock_asn _) | (_, .check_blocked _) | (_, .sweep) =>
    inferInstanceAs (Decidable True)

/-- Besides, no check finds an event that has left the window, and a system without a history keeps
the organisation it has. -/
def Fresh (m : ASNReputationManager) (e : Int × Call) : Prop :=
  match e.2 with
  | .report_abuse asn _ as_org _ => m.config_.enabled = true → asn ≠ 0 → ∀ x ∈ m.asns_.lookup asn,
      x.Forgettable e.1 → x.as_org = [] ∨ x.as_org = as_org
  | .block_asn asn as_org _ _ => ∀ x ∈ m.asns_.lookup asn,
      x.Forgettable e.1 → x.as_org = [] ∨ as_org ≠ []
  | .check_blocked asn => ∀ x ∈ m.check_blocked e.1 asn,
      x.Backed m.config_ e.1 ∧ ∀ t ∈ x.recent_event_times, m.config_.window_start e.1 ≤ t
  | _ => True

/-- As `load` leaves it: what the windows held is not in the file. -/
def Loaded (m : ASNReputationManager) : Prop :=
  ∀ asn, ∀ x ∈ m.asns_.lookup asn,
    x.asn = asn ∧ x.abusive_ips_in_window = ∅ ∧ x.recent_event_times = []

end ASNReputationManager

section Proof

namespace ASNReputationEntry

variable {full : Prop} {c : ASNReputationConfig} {now later : Int} {e f : ASNReputationEntry}
  {asn : UInt32}

/-- The entry `f` of a run with sweeps beside the entry `e` without: events behind the window may be
gone, and all addresses if no event is left in it. -/
structure SameWindow (c : ASNReputationConfig) (now : Int) (e f : ASNReputationEntry) : Prop where
  inside : (f.prune_window c now).recent_event_times = (e.prune_window c now).recent_event_times
  whole : (∀ t ∈ e.recent_event_times, c.window_start now ≤ t) →
    f.recent_event_times = e.recent_event_times
  ips : f.abusive_ips_in_window = e.abusive_ips_in_window ∨
    f.abusive_ips_in_window = ∅ ∧ ∀ t ∈ e.recent_event_times, t < c.window_start now

theorem SameWindow.of_eq (times : f.recent_event_times = e.recent_event_times)
    (ips : f.abusive_ips_in_window = e.abusive_ips_in_window) : SameWindow c now e f :=
  ⟨by simp only [prune_window, times], fun _ => times, .inl ips⟩

theorem window_start_mono (c : ASNReputationConfig) (le : now ≤ later) :
    c.window_start now ≤ c.window_start later := Int.sub_le_sub_right le _

theorem prune_window_twice (c : ASNReputationConfig) (le : now ≤ later) (e : ASNReputationEntry) :
    (e.prune_window c now).prune_window c later = e.prune_window c later := by
  unfold prune_window
  simp only [List.filter_filter]
  congr 2
  funext t
  have mono := window_start_mono c le
  by_cases inside : t < c.window_start later
  · simp [inside]
  · have inside' : ¬ t < c.window_start now := by omega
    simp [inside, inside']

theorem SameWindow.mono (same : SameWindow c now e f) (le : now ≤ later) :
    SameWindow c later e f := by
  have mono := window_start_mono c le
  refine ⟨?_, fun all => same.whole fun t member => mono.trans (all t member),
    same.ips.imp_right fun gone => ⟨gone.1, fun t member => (gone.2 t member).trans_le mono⟩⟩
  calc (f.prune_window c later).recent_event_times
      = ((f.prune_window c now).prune_window c later).recent_event_times := by
        rw [prune_window_twice c le f]
    _ = (f.prune_window c now).recent_event_times.filter
          fun t => !(t < c.window_start later) := rfl
    _ = (e.prune_window c now).recent_event_times.filter
          fun t => !(t < c.window_start later) := by rw [same.inside]
    _ = (e.prune_window c later).recent_event_times := by
        rw [← prune_window_twice c le e]
        rfl

theorem SameWindow.ips_eq (same : SameWindow c now e f) (backed : e.Backed c now) :
    f.abusive_ips_in_window = e.abusive_ips_in_window := by
  rcases same.ips with ips | ⟨none_left, outside⟩
  · exact ips
  · rcases backed with none_before | ⟨t, member, inside⟩
    · rw [none_left, none_before]
    · exact absurd (outside t member) (not_lt.mpr inside)

/-- The entry `f` of a run with sweeps beside the entry `e` without. A block that has ended may have been
reset. -/
structure Alike (full : Prop) (c : ASNReputationConfig) (now : Int) (e f : ASNReputationEntry) : Prop where
  asn : f.asn = e.asn
  as_org : full → f.as_org = e.as_org
  total : f.total_abuse_events = e.total_abuse_events
  window : SameWindow c now e f
  status : f.status = e.status ∧ (e.status ≠ .NORMAL → f.status_changed_at = e.status_changed_at) ∧
      (e.status = .BLOCKED →
        f.block_expires_at = e.block_expires_at ∧ f.block_reason = e.block_reason) ∨
    e.block_expired now = true ∧ f.status = .NORMAL

theorem block_expired_mono (le : now ≤ later) (ended : e.block_expired now = true) :
    e.block_expired later = true := by
  simp only [block_expired, Bool.and_eq_true, decide_eq_true_eq] at ended ⊢
  exact ⟨ended.1, ended.2.trans le⟩

theorem Alike.mono (alike : Alike full c now e f) (le : now ≤ later) : Alike full c later e f :=
  ⟨alike.asn, alike.as_org, alike.total, alike.window.mono le,
    alike.status.imp_right (And.imp_left (block_expired_mono le))⟩

theorem reset_block_frame (now : Int) (e : ASNReputationEntry) :
    (e.reset_block now).asn = e.asn ∧ (e.reset_block now).as_org = e.as_org ∧
    (e.reset_block now).total_abuse_events = e.total_abuse_events ∧
    (e.reset_block now).abusive_ips_in_window = e.abusive_ips_in_window ∧
    (e.reset_block now).recent_event_times = e.recent_event_times := by
  unfold reset_block
  split <;> exact ⟨rfl, rfl, rfl, rfl, rfl⟩

theorem prune_ips_frame (e : ASNReputationEntry) :
    e.prune_ips = { e with abusive_ips_in_window := e.prune_ips.abusive_ips_in_window } := by
  unfold prune_ips
  split <;> rfl

theorem SameWindow.prune_window (same : SameWindow c now e f) :
    SameWindow c now e (f.prune_window c now) := by
  refine ⟨?_, fun all => ?_, same.ips⟩
  · rw [prune_window_twice c (le_refl now)]
    exact same.inside
  · rw [same.inside]
    exact List.filter_eq_self.mpr fun t member => by simpa using all t member

theorem SameWindow.prune_ips (same : SameWindow c now e f) : SameWindow c now e f.prune_ips := by
  unfold ASNReputationEntry.prune_ips
  split
  · next none_left =>
    refine ⟨same.inside, same.whole, .inr ⟨rfl, fun t member => ?_⟩⟩
    have pruned : (e.prune_window c now).recent_event_times = [] := by
      rw [← same.inside, ASNReputationEntry.prune_window, List.isEmpty_iff.mp none_left, List.filter_nil]
    simpa using List.filter_eq_nil_iff.mp pruned t member
  · exact same

theorem Alike.swept (alike : Alike full c now e f) : Alike full c now e (f.swept c now) := by
  obtain ⟨asn, as_org, total, ips, times⟩ := reset_block_frame now f
  have window : SameWindow c now e (f.swept c now) := by
    refine (SameWindow.prune_window ?_).prune_ips
    have same := alike.window
    exact ⟨by simpa only [prune_window, times] using same.inside, by rw [times]; exact same.whole,
      by rw [ips]; exact same.ips⟩
  have status : (f.swept c now).status = (f.reset_block now).status ∧
      (f.swept c now).status_changed_at = (f.reset_block now).status_changed_at ∧
      (f.swept c now).block_expires_at = (f.reset_block now).block_expires_at ∧
      (f.swept c now).block_reason = (f.reset_block now).block_reason ∧
      (f.swept c now).asn = (f.reset_block now).asn ∧
      (f.swept c now).as_org = (f.reset_block now).as_org ∧
      (f.swept c now).total_abuse_events = (f.reset_block now).total_abuse_events := by
    unfold ASNReputationEntry.swept
    rw [prune_ips_frame]
    exact ⟨rfl, rfl, rfl, rfl, rfl, rfl, rfl⟩
  obtain ⟨status, changed, expires, reason, asn', as_org', total'⟩ := status
  refine ⟨by rw [asn', asn, alike.asn], fun all => by rw [as_org', as_org, alike.as_org all],
    by rw [total', total, alike.total], window, ?_⟩
  rw [status, changed, expires, reason]
  unfold reset_block
  split
  · next ended =>
    rcases alike.status with same | reset
    · refine .inr ⟨?_, rfl⟩
      simp only [block_expired, Bool.and_eq_true, decide_eq_true_eq] at ended ⊢
      have blocked : e.status = .BLOCKED := same.1.symm.trans ended.1.1
      rw [(same.2.2 blocked).1] at ended
      exact ⟨⟨blocked, ended.1.2⟩, ended.2⟩
    · exact .inr ⟨reset.1, rfl⟩
  · exact alike.status

/-- Entries of one system, in a run without sweeps and in one with. -/
structure Related (full : Prop) (c : ASNReputationConfig) (now : Int) (asn : UInt32)
    (base other : Option ASNReputationEntry) : Prop where
  keyed : ∀ e ∈ base, e.asn = asn
  unused : ∀ e ∈ base, e.total_abuse_events = 0 →
    e.abusive_ips_in_window = ∅ ∧ e.recent_event_times = []
  new : base = none → other = none
  alike : ∀ e ∈ base, ∀ f ∈ other, Alike full c now e f
  dropped : ∀ e ∈ base, other = none → e.Forgettable now

theorem Related.mono {base other : Option ASNReputationEntry} (related : Related full c now asn base other)
    (le : now ≤ later) : Related full c later asn base other :=
  ⟨related.keyed, related.unused, related.new,
    fun e inside f beside => (related.alike e inside f beside).mono le,
    fun e inside gone => (related.dropped e inside gone).imp_right (Or.imp_right (block_expired_mono le))⟩

theorem related_some (keyed : e.asn = asn) (used : e.total_abuse_events = 0 →
      e.abusive_ips_in_window = ∅ ∧ e.recent_event_times = [])
    (alike : Alike full c now e f) : Related full c now asn (some e) (some f) := by
  refine ⟨?_, ?_, nofun, ?_, ?_⟩ <;> simp only [Option.mem_some_iff, forall_eq']
  · exact keyed
  · exact used
  · exact alike
  · exact nofun

theorem related_none (keyed : e.asn = asn) (used : e.total_abuse_events = 0 →
      e.abusive_ips_in_window = ∅ ∧ e.recent_event_times = [])
    (forgettable : e.Forgettable now) : Related full c now asn (some e) none := by
  refine ⟨?_, ?_, nofun, fun _ _ f inside => absurd inside (Option.not_mem_none f), ?_⟩ <;>
    simp only [Option.mem_some_iff, forall_eq']
  · exact keyed
  · exact used
  · exact fun _ => forgettable

theorem Related.default {base other : Option ASNReputationEntry}
    (related : Related full c now asn base other) :
    (other.getD {}).total_abuse_events = (base.getD {}).total_abuse_events ∧
    SameWindow c now (base.getD {}) (other.getD {}) := by
  cases base with
  | none =>
    rw [related.new rfl]
    exact ⟨rfl, .of_eq rfl rfl⟩
  | some e =>
    cases other with
    | none =>
      have unused := (related.dropped e rfl rfl).1
      obtain ⟨ips, times⟩ := related.unused e rfl unused
      exact ⟨unused.symm, .of_eq times.symm ips.symm⟩
    | some f => exact ⟨(related.alike e rfl f rfl).total, (related.alike e rfl f rfl).window⟩

theorem opened_eq (known : e.asn ≠ 0) (as_org : Bytes) :
    e.opened asn as_org = { e with as_org := if e.as_org = [] then as_org else e.as_org } := by
  unfold ASNReputationEntry.opened
  rw [if_neg known]
  by_cases unnamed : e.as_org = []
  · cases as_org with
    | nil => rw [if_neg (by simp), if_pos unnamed, ← unnamed]
    | cons b rest => simp [unnamed]
  · simp [unnamed]

theorem opened_new (as_org : Bytes) :
    (({} : ASNReputationEntry).opened asn as_org) = { asn, as_org } := rfl

theorem Related.opened {base other : Option ASNReputationEntry} (related : Related full c now asn base other)
    (known : asn ≠ 0) (as_org : Bytes) (standing : ∀ x ∈ base, x.block_expired now = false)
    (kept : full → ∀ x ∈ base, x.Forgettable now → x.as_org = [] ∨ x.as_org = as_org) :
    Related full c now asn (some ((base.getD {}).opened asn as_org))
      (some ((other.getD {}).opened asn as_org)) ∧
    ((other.getD {}).opened asn as_org).status = ((base.getD {}).opened asn as_org).status := by
  cases base with
  | none =>
    rw [related.new rfl]
    exact ⟨related_some rfl (fun _ => ⟨rfl, rfl⟩) ⟨rfl, fun _ => rfl, rfl, .of_eq rfl rfl,
      .inl ⟨rfl, fun _ => rfl, fun _ => ⟨rfl, rfl⟩⟩⟩, rfl⟩
  | some e =>
    have keyed := related.keyed e rfl
    have here : e.asn ≠ 0 := by rw [keyed]; exact known
    obtain ⟨total, window⟩ := related.default
    rw [Option.getD_some, opened_eq here]
    cases other with
    | none =>
      have forgettable := related.dropped e rfl rfl
      have normal : e.status = .NORMAL := forgettable.2.resolve_right (by simp [standing e rfl])
      rw [Option.getD_none, opened_new]
      refine ⟨related_some keyed (related.unused e rfl) ⟨keyed.symm, fun all => ?_, total, ?_, .inl ?_⟩,
        normal.symm⟩
      · rcases kept all e rfl forgettable with unnamed | same
        · exact (if_pos unnamed).symm
        · simp [same]
      · exact ⟨window.inside, window.whole, window.ips⟩
      · exact ⟨normal.symm, fun other => absurd normal other, fun blocked => by simp [normal] at blocked⟩
    | some f =>
      have alike := related.alike e rfl f rfl
      have same := alike.status.resolve_right (by simp [standing e rfl])
      rw [Option.getD_some, opened_eq (by rw [alike.asn]; exact here)]
      refine ⟨related_some keyed (related.unused e rfl) ⟨alike.asn, fun all => ?_, total,
        ⟨window.inside, window.whole, window.ips⟩, .inl same⟩, same.1⟩
      simp only [alike.as_org all]

theorem escalation_congr (asn : f.asn = e.asn) (ips : f.abusive_ips_in_window = e.abusive_ips_in_window)
    (times : f.recent_event_times = e.recent_event_times) (status : f.status = e.status)
    (changed : e.status ≠ .NORMAL → f.status_changed_at = e.status_changed_at) :
    f.escalation c now = e.escalation c now := by
  unfold escalation
  rw [asn, ips, times, status]
  cases here : e.status with
  | RATE_LIMITED => rw [changed (by rw [here]; nofun)]
  | NORMAL => rfl
  | WATCHED => rfl
  | BLOCKED => rfl

theorem Alike.evaluate_escalation (alike : Alike full c now e f)
    (same : f.status = e.status ∧ (e.status ≠ .NORMAL → f.status_changed_at = e.status_changed_at) ∧
      (e.status = .BLOCKED → f.block_expires_at = e.block_expires_at ∧ f.block_reason = e.block_reason))
    (ips : f.abusive_ips_in_window = e.abusive_ips_in_window)
    (times : f.recent_event_times = e.recent_event_times) :
    Alike full c now (e.evaluate_escalation c now) (f.evaluate_escalation c now) ∧
    (f.evaluate_escalation c now).status = (e.evaluate_escalation c now).status := by
  unfold ASNReputationEntry.evaluate_escalation
  rw [escalation_congr alike.asn ips times same.1 same.2.1]
  split
  · exact ⟨alike, same.1⟩
  · next new_status reason _ =>
    unfold escalate
    dsimp only
    split
    · exact ⟨⟨alike.asn, alike.as_org, alike.total, .of_eq times ips,
        .inl ⟨rfl, fun _ => rfl, fun _ => ⟨rfl, rfl⟩⟩⟩, rfl⟩
    · next running =>
      exact ⟨⟨alike.asn, alike.as_org, alike.total, .of_eq times ips,
        .inl ⟨rfl, fun _ => rfl, fun blocked => absurd blocked running⟩⟩, rfl⟩

theorem Alike.counted (alike : Alike full c now e f) (standing : e.block_expired now = false)
    (backed : e.Backed c now) (ip : Bytes) :
    Alike full c now (e.counted c now ip) (f.counted c now ip) ∧
    (f.counted c now ip).status = (e.counted c now ip).status := by
  have same := alike.status.resolve_right (by simp [standing])
  have ips := congrArg (insert ip) (alike.window.ips_eq backed)
  have times : (f.recent_event_times ++ [now]).filter (fun t => !(t < c.window_start now)) =
      (e.recent_event_times ++ [now]).filter fun t => !(t < c.window_start now) := by
    rw [List.filter_append, List.filter_append]
    exact congrArg (· ++ _) alike.window.inside
  refine Alike.evaluate_escalation ⟨alike.asn, alike.as_org, ?_, .of_eq times ips, .inl same⟩
    same ips times
  exact congrArg (· + 1) alike.total

theorem counted_asn (c : ASNReputationConfig) (now : Int) (ip : Bytes) (e : ASNReputationEntry) :
    (e.counted c now ip).asn = e.asn ∧
    (e.counted c now ip).total_abuse_events = e.total_abuse_events + 1 := by
  unfold counted evaluate_escalation
  split
  · exact ⟨rfl, rfl⟩
  · unfold escalate
    dsimp only
    split <;> exact ⟨rfl, rfl⟩

end ASNReputationEntry

namespace ASNReputationManager

open ASNReputationEntry

variable {full : Prop} {now later : Int} {base other : ASNReputationManager} {asn : UInt32}

/-- A run without sweeps, and the same run with some. -/
structure Sim (full : Prop) (now : Int) (base other : ASNReputationManager) : Prop where
  config : other.config_ = base.config_
  callback : other.status_callback_ = base.status_callback_
  related : ∀ asn, Related full base.config_ now asn (base.asns_.lookup asn) (other.asns_.lookup asn)

theorem Sim.mono (sim : Sim full now base other) (le : now ≤ later) : Sim full later base other :=
  ⟨sim.config, sim.callback, fun asn => (sim.related asn).mono le⟩

theorem Sim.insert (sim : Sim full now base other) {e f : ASNReputationEntry}
    (related : Related full base.config_ now asn (some e) (some f)) :
    Sim full now { base with asns_ := base.asns_.insert asn e }
      { base with asns_ := other.asns_.insert asn f } := by
  refine ⟨rfl, rfl, fun q => ?_⟩
  by_cases here : q = asn
  · subst here
    rw [AList.lookup_insert, AList.lookup_insert]
    exact related
  · rw [AList.lookup_insert_ne here, AList.lookup_insert_ne here]
    exact sim.related q

theorem standing_opened {c : ASNReputationConfig} {found : Option ASNReputationEntry}
    (guard : ∀ x ∈ found, x.block_expired now = false ∧ (x.status ≠ .BLOCKED → x.Backed c now))
    (known : ∀ x ∈ found, x.asn ≠ 0) (as_org : Bytes)
    (running : ((found.getD {}).opened asn as_org).status ≠ .BLOCKED) :
    ((found.getD {}).opened asn as_org).block_expired now = false ∧
    ((found.getD {}).opened asn as_org).Backed c now := by
  refine ⟨by simp [block_expired, running], ?_⟩
  cases found with
  | none => exact .inl rfl
  | some e =>
    rw [Option.getD_some, opened_eq (known e rfl)] at running ⊢
    exact (guard e rfl).2 running

/-- A report leads to one status with the same call of the callback. -/
theorem Sim.report_abuse (sim : Sim full now base other) (ip as_org reason : Bytes)
    (guarded : Guarded base (now, .report_abuse asn ip as_org reason))
    (fresh : full → Fresh base (now, .report_abuse asn ip as_org reason)) :
    Sim full now (base.step (now, .report_abuse asn ip as_org reason))
      (other.step (now, .report_abuse asn ip as_org reason)) ∧
    other.answer (now, .report_abuse asn ip as_org reason) =
      base.answer (now, .report_abuse asn ip as_org reason) := by
  simp only [step, answer, ASNReputationManager.report_abuse, sim.config, sim.callback]
  by_cases ignored : (!base.config_.enabled || decide (asn = 0)) = true
  · simp only [if_pos ignored]
    exact ⟨sim, trivial⟩
  · simp only [if_neg ignored]
    simp only [Bool.or_eq_true, Bool.not_eq_eq_eq_not, Bool.not_true, decide_eq_true_eq, not_or,
      Bool.not_eq_false] at ignored
    have guard := guarded ignored.1 ignored.2
    obtain ⟨opened, status⟩ := (sim.related asn).opened ignored.2 as_org
      (fun x member => (guard x member).1) fun all => fresh all ignored.1 ignored.2
    rw [status]
    by_cases blocked : (((base.asns_.lookup asn).getD {}).opened asn as_org).status = .BLOCKED
    · simp only [if_pos blocked]
      refine ⟨sim.insert opened, ?_⟩
      simp only [get_status, AList.lookup_insert, Option.map_some, status]
    · simp only [if_neg blocked]
      have alike := opened.alike _ rfl _ rfl
      have running := standing_opened guard
        (fun x member => by rw [(sim.related asn).keyed x member]; exact ignored.2) as_org blocked
      obtain ⟨counted, same⟩ := alike.counted running.1 running.2 ip
      obtain ⟨keyed, events⟩ := counted_asn base.config_ now ip
        (((base.asns_.lookup asn).getD {}).opened asn as_org)
      rw [same]
      refine ⟨sim.insert (related_some ?_ ?_ counted), ?_⟩
      · rw [keyed]
        exact opened.keyed _ rfl
      · rw [events]
        exact nofun
      · simp only [get_status, AList.lookup_insert, Option.map_some, same]

theorem Sim.block_asn (sim : Sim full now base other) (as_org reason : Bytes) (duration_sec : Int)
    (fresh : full → Fresh base (now, .block_asn asn as_org reason duration_sec)) :
    Sim full now (base.step (now, .block_asn asn as_org reason duration_sec))
      (other.step (now, .block_asn asn as_org reason duration_sec)) := by
  simp only [step, ASNReputationManager.block_asn, sim.config, sim.callback]
  have related := sim.related asn
  obtain ⟨total, window⟩ := related.default
  refine sim.insert (related_some rfl ?_ ⟨rfl, fun all => ?_, total,
    ⟨window.inside, window.whole, window.ips⟩, .inl ⟨rfl, fun _ => rfl, fun _ => ⟨rfl, rfl⟩⟩⟩)
  · intro none_yet
    cases found : base.asns_.lookup asn with
    | none => exact ⟨rfl, rfl⟩
    | some e =>
      rw [found] at none_yet
      exact related.unused e found none_yet
  · have kept := fresh all
    cases found : base.asns_.lookup asn with
    | none => rw [related.new found]
    | some e =>
      cases beside : other.asns_.lookup asn with
      | none =>
        rcases kept e found (related.dropped e found beside) with unnamed | named
        · rw [Option.getD_some, unnamed]
          rfl
        · simp [named]
      | some f => rw [Option.getD_some, Option.getD_some, (related.alike e found f beside).as_org all]

theorem Sim.unblock_asn (sim : Sim full now base other) :
    Sim full now (base.step (now, .unblock_asn asn)) (other.step (now, .unblock_asn asn)) := by
  simp only [step, ASNReputationManager.unblock_asn, sim.config, sim.callback]
  have related := sim.related asn
  cases found : base.asns_.lookup asn with
  | none =>
    rw [related.new found]
    exact sim
  | some e =>
    cases beside : other.asns_.lookup asn with
    | none =>
      have forgettable := related.dropped e found beside
      refine ⟨sim.config, sim.callback, fun q => ?_⟩
      by_cases here : q = asn
      · subst here
        rw [AList.lookup_insert, beside]
        exact related_none (related.keyed e found) (fun _ => ⟨rfl, rfl⟩) ⟨forgettable.1, .inl rfl⟩
      · rw [AList.lookup_insert_ne here]
        exact sim.related q
    | some f =>
      have alike := related.alike e found f beside
      exact sim.insert (related_some (related.keyed e found) (fun _ => ⟨rfl, rfl⟩)
        ⟨alike.asn, alike.as_org, alike.total, .of_eq rfl rfl,
          .inl ⟨rfl, fun _ => rfl, fun _ => ⟨rfl, rfl⟩⟩⟩)

theorem Sim.sweep (sim : Sim full now base other) : Sim full now base (other.step (now, .sweep)) := by
  refine ⟨sim.config, sim.callback, fun asn => ?_⟩
  have related := sim.related asn
  have swept : (other.step (now, .sweep)).asns_.lookup asn =
      ((other.asns_.lookup asn).map (ASNReputationEntry.swept other.config_ now)).filter
        fun e => !e.without_history := by
    simp only [step, ASNReputationManager.sweep, lookup_keep, lookup_mapValues]
  rw [swept, sim.config]
  cases beside : other.asns_.lookup asn with
  | none =>
    rw [beside] at related
    exact related
  | some f =>
    rw [Option.map_some]
    refine ⟨related.keyed, related.unused, fun absent => ?_, fun e found g kept => ?_,
      fun e found gone => ?_⟩
    · exact absurd (beside.symm.trans (related.new absent)) (Option.some_ne_none f)
    · obtain ⟨same, -⟩ := Option.filter_eq_some_iff.mp kept
      rw [← Option.some.inj same]
      exact (related.alike e found f beside).swept
    · have alike := (related.alike e found f beside).swept
      have dropped : (f.swept base.config_ now).without_history = true := by
        simpa using gone
      simp only [without_history, Bool.and_eq_true, decide_eq_true_eq] at dropped
      refine ⟨alike.total.symm.trans dropped.1.2, ?_⟩
      rcases alike.status with same | reset
      · exact .inl (same.1.symm.trans dropped.1.1)
      · exact .inr reset.1

theorem check_blocked_eq (m : ASNReputationManager) (now : Int) {asn : UInt32} (known : asn ≠ 0) :
    m.check_blocked now asn =
      (m.asns_.lookup asn).filter fun e => e.status = .BLOCKED && !e.block_expired now := by
  unfold ASNReputationManager.check_blocked
  rw [if_neg known]
  congr 1
  funext e
  cases blocked : decide (e.status = .BLOCKED) with
  | true => simp only [block_expired, blocked, Bool.true_and]
  | false => rfl

theorem Sim.check_blocked (sim : Sim full now base other) (asn : UInt32) :
    base.check_blocked now asn = none ∧ other.check_blocked now asn = none ∨
    ∃ e f, base.check_blocked now asn = some e ∧ other.check_blocked now asn = some f ∧
      e.status = .BLOCKED ∧ e.block_expired now = false ∧ Alike full base.config_ now e f := by
  by_cases unknown : asn = 0
  · simp [ASNReputationManager.check_blocked, unknown]
  · rw [check_blocked_eq _ _ unknown, check_blocked_eq _ _ unknown]
    have related := sim.related asn
    cases found : base.asns_.lookup asn with
    | none =>
      rw [related.new found]
      exact .inl ⟨rfl, rfl⟩
    | some e =>
      cases beside : other.asns_.lookup asn with
      | none =>
        refine .inl ⟨Option.filter_some_neg ?_, rfl⟩
        rcases (related.dropped e found beside).2 with normal | ended
        · simp [normal]
        · simp [ended]
      | some f =>
        have alike := related.alike e found f beside
        rcases alike.status with same | ⟨ended, reset⟩
        · have ended : e.status = .BLOCKED → f.block_expired now = e.block_expired now := fun blocked => by
            simp only [block_expired, same.1, (same.2.2 blocked).1]
          by_cases holds : e.status = .BLOCKED ∧ e.block_expired now = false
          · refine .inr ⟨e, f, Option.filter_some_pos ?_, Option.filter_some_pos ?_, holds.1, holds.2,
              alike⟩
            · simp [holds.1, holds.2]
            · simp [same.1, ended holds.1, holds.1, holds.2]
          · refine .inl ⟨Option.filter_some_neg ?_, Option.filter_some_neg ?_⟩
            · simpa using holds
            · rw [same.1]
              by_cases blocked : e.status = .BLOCKED
              · rw [ended blocked]
                simpa using holds
              · simp [blocked]
        · refine .inl ⟨Option.filter_some_neg ?_, Option.filter_some_neg ?_⟩
          · simp [ended]
          · simp [reset]

/-- The checks and reports of two runs lead to the same. -/
def Matches (full : Prop) (one other : List Answer) : Prop :=
  one.map Answer.essence = other.map Answer.essence ∧ (full → one = other)

theorem Sim.answer (sim : Sim full now base other) {call : Call}
    (guarded : Guarded base (now, call)) (fresh : full → Fresh base (now, call)) :
    Matches full (other.answer (now, call)).toList (base.answer (now, call)).toList := by
  cases call with
  | report_abuse asn ip as_org reason =>
    rw [(sim.report_abuse ip as_org reason guarded fresh).2]
    exact ⟨rfl, fun _ => rfl⟩
  | check_blocked asn =>
    simp only [ASNReputationManager.answer, Option.toList_some]
    rcases sim.check_blocked asn with ⟨base_free, other_free⟩ |
      ⟨e, f, base_found, other_found, blocked, running, alike⟩
    · rw [base_free, other_free]
      exact ⟨rfl, fun _ => rfl⟩
    · have same := alike.status.resolve_right (by simp [running])
      have expires := same.2.2 blocked
      have changed := same.2.1 (by rw [blocked]; nofun)
      rw [base_found, other_found]
      refine ⟨?_, fun all => ?_⟩
      · simp only [Answer.essence, List.map_cons, List.map_nil, Option.map_some, alike.asn, alike.total,
          same.1, changed, expires]
      · obtain ⟨backed, inside⟩ := fresh all e base_found
        have entry : f = e := by
          have times := alike.window.whole inside
          have ips := alike.window.ips_eq backed
          exact ASNReputationEntry.ext alike.asn (alike.as_org all) alike.total ips times same.1 changed
            expires.1 expires.2
        rw [entry]
  | block_asn asn as_org reason duration_sec => exact ⟨rfl, fun _ => rfl⟩
  | unblock_asn asn => exact ⟨rfl, fun _ => rfl⟩
  | sweep => exact ⟨rfl, fun _ => rfl⟩

theorem Sim.step (sim : Sim full now base other) {call : Call}
    (guarded : Guarded base (now, call)) (fresh : full → Fresh base (now, call))
    (counts : call ≠ .sweep) :
    Sim full now (base.step (now, call)) (other.step (now, call)) := by
  cases call with
  | report_abuse asn ip as_org reason => exact (sim.report_abuse ip as_org reason guarded fresh).1
  | block_asn asn as_org reason duration_sec => exact sim.block_asn as_org reason duration_sec fresh
  | unblock_asn asn => exact sim.unblock_asn
  | check_blocked asn => exact sim
  | sweep => exact absurd rfl counts

theorem Sim.answers {calls : List (Int × Call)} (sim : Sim full now base other)
    (ordered : calls.Pairwise fun e f => e.1 ≤ f.1) (late : ∀ e ∈ calls, now ≤ e.1)
    (guarded : Throughout ASNReputationManager.step Guarded base (unswept calls))
    (fresh : full → Throughout ASNReputationManager.step Fresh base (unswept calls)) :
    Matches full (other.answers calls) (base.answers (unswept calls)) := by
  induction calls generalizing base other now with
  | nil => exact ⟨rfl, fun _ => rfl⟩
  | cons e calls ih =>
    obtain ⟨time, call⟩ := e
    obtain ⟨first, sorted⟩ := List.pairwise_cons.mp ordered
    have here := sim.mono (late _ List.mem_cons_self)
    by_cases swept : call = .sweep
    · subst swept
      exact ih here.sweep sorted first guarded fresh
    · have kept : unswept ((time, call) :: calls) = (time, call) :: unswept calls := by
        cases call with
        | sweep => exact absurd rfl swept
        | _ => rfl
      rw [kept] at guarded fresh ⊢
      have next := here.step guarded.1 (fun all => (fresh all).1) swept
      have now_same := here.answer guarded.1 fun all => (fresh all).1
      have later_same := ih next sorted first guarded.2 fun all => (fresh all).2
      refine ⟨?_, fun all => ?_⟩
      · rw [ASNReputationManager.answers, ASNReputationManager.answers, List.map_append, List.map_append,
          now_same.1, later_same.1]
      · rw [ASNReputationManager.answers, ASNReputationManager.answers, now_same.2 all, later_same.2 all]

theorem sim_loaded {m : ASNReputationManager} (loaded : m.Loaded) (now : Int) : Sim full now m m := by
  refine ⟨rfl, rfl, fun asn => ?_⟩
  have loaded := loaded asn
  cases found : m.asns_.lookup asn with
  | none =>
    exact ⟨fun x inside => absurd inside (Option.not_mem_none x),
      fun x inside => absurd inside (Option.not_mem_none x),
      fun _ => rfl, fun x inside => absurd inside (Option.not_mem_none x),
      fun x inside => absurd inside (Option.not_mem_none x)⟩
  | some e =>
    obtain ⟨keyed, ips, times⟩ := loaded e found
    exact related_some keyed (fun _ => ⟨ips, times⟩) ⟨rfl, fun _ => rfl, rfl, .of_eq rfl rfl,
      .inl ⟨rfl, fun _ => rfl, fun _ => ⟨rfl, rfl⟩⟩⟩

/-- Two runs with the same calls, and sweeps anywhere between them, give the same blocks and lead to the
same statuses, if without the sweeps no report finds a block that has ended or addresses without an
event. The entries a check gives are the same altogether if no check finds an old event. -/
theorem sweeps_unnoticed {m : ASNReputationManager} (loaded : m.Loaded) {one other : List (Int × Call)}
    (same : unswept one = unswept other) (one_ordered : one.Pairwise fun e f => e.1 ≤ f.1)
    (other_ordered : other.Pairwise fun e f => e.1 ≤ f.1)
    (guarded : Throughout step Guarded m (unswept one)) :
    (m.answers one).map Answer.essence = (m.answers other).map Answer.essence ∧
    (Throughout step Fresh m (unswept one) → m.answers one = m.answers other) := by
  have against (full : Prop) {calls : List (Int × Call)} (ordered : calls.Pairwise fun e f => e.1 ≤ f.1)
      (guarded : Throughout step Guarded m (unswept calls))
      (fresh : full → Throughout step Fresh m (unswept calls)) :
      Matches full (m.answers calls) (m.answers (unswept calls)) := by
    obtain ⟨first, begins⟩ := exists_first ordered
    exact (sim_loaded loaded first).answers ordered begins guarded fresh
  refine ⟨?_, fun fresh => ?_⟩
  · have left := (against False one_ordered guarded False.elim).1
    have right := (against False other_ordered (same ▸ guarded) False.elim).1
    rw [left, right, same]
  · have left := (against True one_ordered guarded fun _ => fresh).2 trivial
    have right := (against True other_ordered (same ▸ guarded) fun _ => same ▸ fresh).2 trivial
    rw [left, right, same]

end ASNReputationManager

end Proof

namespace ASNReputationManager

def report (asn : UInt32) (ip : String) : Call :=
  .report_abuse asn (bytes ip) (bytes "Example") (bytes "spam")

/-- Five addresses of one system in 40 s, and two checks, the second one after the block. -/
def siege : List (Int × Call) :=
  [(0, report 7 "a"), (10, report 7 "b"), (20, report 7 "c"), (30, report 7 "d"), (40, report 7 "e"),
    (50, .check_blocked 7), (90000, .check_blocked 7)]

def sweptSiege : List (Int × Call) :=
  [(0, report 7 "a"), (5, .sweep), (10, report 7 "b"), (20, report 7 "c"), (30, report 7 "d"),
    (40, report 7 "e"), (50, .check_blocked 7), (60000, .sweep), (87000, .sweep), (90000, .check_blocked 7)]

theorem siege_unnoticed : .reported .BLOCKED none ∈ answers {} siege ∧
    ((answers {} sweptSiege).map Answer.essence = (answers {} siege).map Answer.essence ∧
      (Throughout step Fresh {} (unswept sweptSiege) → answers {} sweptSiege = answers {} siege)) := by
  refine ⟨by decide +kernel, sweeps_unnoticed (fun asn x inside => ?_) (by decide +kernel) (by decide +kernel)
    (by decide +kernel) (by decide +kernel)⟩
  exact absurd inside (Option.not_mem_none x)

/-- A block by hand for 10 s, and two reports long after it. -/
def lapsed : List (Int × Call) :=
  [(1000, .block_asn 7 [] (bytes "raid") 10), (2000, report 7 "a"), (2001, report 7 "b")]

def sweptLapsed : List (Int × Call) :=
  [(1000, .block_asn 7 [] (bytes "raid") 10), (1500, .sweep), (2000, report 7 "a"), (2001, report 7 "b")]

theorem sweep_lets_reports_count : unswept sweptLapsed = unswept lapsed ∧
    (answers {} lapsed).map Answer.essence = [.reported .BLOCKED none, .reported .BLOCKED none] ∧
    (answers {} sweptLapsed).map Answer.essence = [.reported .NORMAL none, .reported .WATCHED none] := by
  decide +kernel

end ASNReputationManager

end AoSdl
