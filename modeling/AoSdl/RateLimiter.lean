import Mathlib.Data.Finset.Dedup
import Mathlib.Data.Finset.Order
import AoSdl.Lib.Entries
import AoSdl.Lib.Runs
import AoSdl.Lib.TokenBucket
import AoSdl.Text

/-! `RateLimiter`: a bucket of tokens for each key of each action. Doubles are rationals, times
are in seconds, and a call is given the time it reads off the clock. -/
namespace AoSdl
open Lib.Entries Lib.TokenBucket

structure RateLimitRule where
  rate : ℚ := 10
  burst : ℚ := 20
  deriving DecidableEq

structure RateLimiter.Bucket where
  tokens : ℚ
  max_tokens : ℚ
  rate : ℚ
  last_refill : ℚ

structure RateLimiter.ActionShard where
  rule : RateLimitRule := {}
  buckets : AList (fun _ : Bytes => RateLimiter.Bucket) := ∅

structure RateLimiter where
  shards_ : AList (fun _ : Bytes => RateLimiter.ActionShard) := ∅

namespace RateLimiter

def find_shard (l : RateLimiter) (action : Bytes) : Option ActionShard := l.shards_.lookup action

def configure (l : RateLimiter) (action : Bytes) (rule : RateLimitRule) : RateLimiter :=
  match l.find_shard action with
  | none => { shards_ := l.shards_.insert action { rule } }
  | some shard => { shards_ := l.shards_.insert action { shard with rule } }

/-- The bucket of a key, a full one for a new key. -/
def ActionShard.bucket (shard : ActionShard) (now : ℚ) (key : Bytes) : Bucket :=
  (shard.buckets.lookup key).getD
    { rate := shard.rule.rate, max_tokens := shard.rule.burst, tokens := shard.rule.burst
      last_refill := now }

def Bucket.refill (bucket : Bucket) (now : ℚ) : Bucket :=
  { bucket with
    tokens := min bucket.max_tokens (bucket.tokens + (now - bucket.last_refill) * bucket.rate)
    last_refill := now }

/-- Whether there are enough tokens, and the bucket without those it paid. -/
def Bucket.pay (bucket : Bucket) (cost : ℚ) : Bool × Bucket :=
  if cost ≤ bucket.tokens then (true, { bucket with tokens := bucket.tokens - cost })
  else (false, bucket)

def allow (l : RateLimiter) (now : ℚ) (action key : Bytes) (cost : ℚ := 1) : Bool × RateLimiter :=
  match l.find_shard action with
  | none => (true, l)
  | some shard =>
    let (allowed, bucket) := ((shard.bucket now key).refill now).pay cost
    let shard := { shard with buckets := shard.buckets.insert key bucket }
    (allowed, { shards_ := l.shards_.insert action shard })

/-- Whether a bucket was used recently enough to stay. -/
def Bucket.stays (now max_idle : ℚ) (bucket : Bucket) : Bool :=
  !(max_idle < now - bucket.last_refill)

def ActionShard.sweep (now max_idle : ℚ) (shard : ActionShard) : ActionShard :=
  { shard with buckets := keep (fun _ b => b.stays now max_idle) shard.buckets }

/-- The limiter without idle buckets, and how many went. -/
def sweep (l : RateLimiter) (now max_idle : ℚ) : RateLimiter × Nat :=
  ({ shards_ := mapValues (fun _ => ActionShard.sweep now max_idle) l.shards_ },
    (l.shards_.entries.map fun e =>
      e.2.buckets.entries.countP fun b => !b.2.stays now max_idle).sum)

inductive Call where
  | allow (action key : Bytes) (cost : ℚ)
  | sweep (max_idle : ℚ)

/-- One call at a time. The charges admitted for one key so far go along, the latest first. -/
def track (action key : Bytes) (s : RateLimiter × List (Charge ℚ)) (c : ℚ × Call) :
    RateLimiter × List (Charge ℚ) :=
  match c.2 with
  | .allow a k cost =>
    let (allowed, l) := s.1.allow c.1 a k cost
    (l, if allowed ∧ a = action ∧ k = key then ⟨c.1, cost⟩ :: s.2 else s.2)
  | .sweep max_idle => ((s.1.sweep c.1 max_idle).1, s.2)

/-- The bucket that charges are measured against. -/
def reference (rule : RateLimitRule) : Rule ℚ := ⟨rule.rate, rule.burst⟩

/-- A bucket holds what the reference bucket does after the charges, now and later. -/
structure Bucket.Holds (rule : RateLimitRule) (charges : List (Charge ℚ)) (now : ℚ)
    (bucket : Bucket) : Prop where
  rate : bucket.rate = rule.rate
  max_tokens : bucket.max_tokens = rule.burst
  past : bucket.last_refill ≤ now
  nonneg : 0 ≤ bucket.tokens
  level_eq : ∀ t, now ≤ t → (bucket.refill t).tokens = level (reference rule) charges t

/-- The limiter has the rule for the action, and what it keeps for the key is the reference
bucket after the charges. No bucket stands for a full one. -/
structure Tracks (action key : Bytes) (rule : RateLimitRule) (now : ℚ)
    (s : RateLimiter × List (Charge ℚ)) : Prop where
  shard : ∃ shard, s.1.find_shard action = some shard ∧ shard.rule = rule ∧
    match shard.buckets.lookup key with
    | none => ∀ t, now ≤ t → level (reference rule) s.2 t = rule.burst
    | some bucket => bucket.Holds rule s.2 now
  admitted : Admitted (reference rule) s.2
  past : ∀ c ∈ s.2, c.time ≤ now

section Proof

variable {action key : Bytes} {rule : RateLimitRule} {shard : ActionShard} {bucket : Bucket}
  {charges : List (Charge ℚ)} {now later max_idle cost : ℚ} {s : RateLimiter × List (Charge ℚ)}

theorem find_shard_insert (l : RateLimiter) (a : Bytes) (shard : ActionShard) (action : Bytes) :
    ({ shards_ := l.shards_.insert a shard } : RateLimiter).find_shard action =
      if action = a then some shard else l.find_shard action := by
  unfold find_shard
  by_cases same : action = a
  · rw [if_pos same, same, AList.lookup_insert]
  · rw [if_neg same, AList.lookup_insert_ne same]

theorem find_shard_sweep (l : RateLimiter) (action : Bytes) :
    (l.sweep now max_idle).1.find_shard action =
      (l.find_shard action).map (ActionShard.sweep now max_idle) := lookup_mapValues _ _ _

theorem Bucket.Holds.mono (holds : bucket.Holds rule charges now) (le : now ≤ later) :
    bucket.Holds rule charges later :=
  ⟨holds.rate, holds.max_tokens, holds.past.trans le, holds.nonneg,
    fun t reach => holds.level_eq t (le.trans reach)⟩

theorem Tracks.mono (tracks : Tracks action key rule now s) (le : now ≤ later) :
    Tracks action key rule later s := by
  obtain ⟨⟨shard, found, same, kept⟩, admitted, past⟩ := tracks
  refine ⟨⟨shard, found, same, ?_⟩, admitted, fun c member => (past c member).trans le⟩
  cases at_key : shard.buckets.lookup key with
  | none =>
    rw [at_key] at kept
    exact fun t reach => kept t (le.trans reach)
  | some bucket =>
    rw [at_key] at kept
    exact Bucket.Holds.mono kept le

/-- An idle bucket that is dropped would have been full again. -/
theorem Bucket.Holds.full (holds : bucket.Holds rule charges now) (filling : 0 ≤ rule.rate)
    (long : rule.burst ≤ max_idle * rule.rate) (idle : bucket.stays now max_idle = false)
    (t : ℚ) (reach : now ≤ t) : level (reference rule) charges t = rule.burst := by
  have waited : max_idle < now - bucket.last_refill := by
    unfold stays at idle
    simpa using idle
  have gain : max_idle * rule.rate ≤ (t - bucket.last_refill) * rule.rate :=
    mul_le_mul_of_nonneg_right (by linarith) filling
  have nonneg := holds.nonneg
  rw [← holds.level_eq t reach]
  show min bucket.max_tokens (bucket.tokens + (t - bucket.last_refill) * bucket.rate) = rule.burst
  rw [holds.max_tokens, holds.rate]
  exact min_eq_left (by linarith)

theorem Tracks.sweep (tracks : Tracks action key rule now s) (filling : 0 ≤ rule.rate)
    (long : rule.burst ≤ max_idle * rule.rate) :
    Tracks action key rule now ((s.1.sweep now max_idle).1, s.2) := by
  obtain ⟨⟨shard, found, same, kept⟩, admitted, past⟩ := tracks
  refine ⟨⟨shard.sweep now max_idle, ?_, same, ?_⟩, admitted, past⟩
  · rw [find_shard_sweep, found, Option.map_some]
  · have swept : (shard.sweep now max_idle).buckets.lookup key =
        (shard.buckets.lookup key).filter (Bucket.stays now max_idle) := lookup_keep _ _ _
    rw [swept]
    cases at_key : shard.buckets.lookup key with
    | none =>
      rw [at_key] at kept
      exact kept
    | some bucket =>
      rw [at_key] at kept
      have holds : bucket.Holds rule s.2 now := kept
      cases stays : bucket.stays now max_idle with
      | true =>
        rw [Option.filter_some_pos stays]
        exact holds
      | false =>
        rw [Option.filter_some_neg (by simpa using stays)]
        exact holds.full filling long stays

theorem Tracks.refill_eq (tracks : Tracks action key rule now s)
    (found : s.1.find_shard action = some shard) :
    shard.rule = rule ∧
      (shard.bucket now key).refill now =
        ⟨level (reference rule) s.2 now, rule.burst, rule.rate, now⟩ := by
  obtain ⟨⟨shard', found', same, kept⟩, _, _⟩ := tracks
  obtain rfl : shard' = shard := Option.some.inj (found'.symm.trans found)
  refine ⟨same, ?_⟩
  unfold ActionShard.bucket
  cases at_key : shard'.buckets.lookup key with
  | none =>
    rw [at_key] at kept
    rw [Option.getD_none, kept now (le_refl now), same]
    simp [Bucket.refill]
  | some bucket =>
    rw [at_key] at kept
    have holds : bucket.Holds rule s.2 now := kept
    rw [Option.getD_some, ← holds.level_eq now (le_refl now), ← holds.rate, ← holds.max_tokens]
    rfl

theorem holds_refused (filling : 0 ≤ rule.rate) (full : 0 ≤ rule.burst)
    (admitted : Admitted (reference rule) charges) (past : ∀ c ∈ charges, c.time ≤ now) :
    Bucket.Holds rule charges now
      ⟨level (reference rule) charges now, rule.burst, rule.rate, now⟩ := by
  refine ⟨rfl, rfl, le_refl now, level_nonneg full filling admitted past, fun t reach => ?_⟩
  rw [level_later filling reach, mul_comm]
  rfl

theorem holds_admitted (enough : cost ≤ level (reference rule) charges now) :
    Bucket.Holds rule (⟨now, cost⟩ :: charges) now
      ⟨level (reference rule) charges now - cost, rule.burst, rule.rate, now⟩ := by
  refine ⟨rfl, rfl, le_refl now, sub_nonneg.mpr enough, fun t reach => ?_⟩
  rw [level, mul_comm]
  rfl

/-- A call for the key is admitted exactly if the reference bucket can pay for it. -/
theorem Tracks.allow_iff (tracks : Tracks action key rule now s) (cost : ℚ) :
    (s.1.allow now action key cost).1 = true ↔ cost ≤ level (reference rule) s.2 now := by
  obtain ⟨shard, found, -⟩ := tracks.shard
  unfold allow Bucket.pay
  simp only [found, (tracks.refill_eq found).2]
  split <;> simp_all

/-- The shard of an action after a call pays from the bucket of the call's key. -/
def ActionShard.paid (shard : ActionShard) (now : ℚ) (key : Bytes) (cost : ℚ) : ActionShard :=
  { shard with
    buckets := shard.buckets.insert key (((shard.bucket now key).refill now).pay cost).2 }

theorem find_shard_allow (l : RateLimiter) (a k : Bytes) :
    (l.allow now a k cost).2.find_shard action =
      if action = a then (l.find_shard a).map (·.paid now k cost) else l.find_shard action := by
  unfold allow
  cases found : l.find_shard a with
  | none =>
    by_cases same : action = a
    · rw [if_pos same, same]
      exact found
    · rw [if_neg same]
  | some shard => exact find_shard_insert _ _ _ _

theorem find_shard_allow_other {l : RateLimiter} (found : l.find_shard action = some shard) {a k : Bytes}
    (other : ¬ (a = action ∧ k = key)) (cost : ℚ) :
    ∃ shard', (l.allow now a k cost).2.find_shard action = some shard' ∧ shard'.rule = shard.rule ∧
      shard'.buckets.lookup key = shard.buckets.lookup key := by
  by_cases here : action = a
  · have apart : key ≠ k := fun eq => other ⟨here.symm, eq.symm⟩
    refine ⟨shard.paid now k cost, ?_, rfl, AList.lookup_insert_ne apart⟩
    rw [find_shard_allow, if_pos here, ← here, found, Option.map_some]
  · refine ⟨shard, ?_, rfl, rfl⟩
    rw [find_shard_allow, if_neg here]
    exact found

theorem Tracks.allow_other (tracks : Tracks action key rule now s) {a k : Bytes}
    (other : ¬ (a = action ∧ k = key)) :
    Tracks action key rule now ((s.1.allow now a k cost).2, s.2) := by
  obtain ⟨⟨shard, found, same, kept⟩, admitted, past⟩ := tracks
  obtain ⟨shard', found', rules, bucket⟩ := find_shard_allow_other found other cost
  refine ⟨⟨shard', found', rules.trans same, ?_⟩, admitted, past⟩
  rw [bucket]
  exact kept

theorem Tracks.allow (tracks : Tracks action key rule now s) (filling : 0 ≤ rule.rate)
    (full : 0 ≤ rule.burst) (a k : Bytes) (cost : ℚ) :
    Tracks action key rule now (track action key s (now, .allow a k cost)) := by
  by_cases here : a = action ∧ k = key
  · obtain ⟨rfl, rfl⟩ := here
    obtain ⟨shard, found, -⟩ := tracks.shard
    obtain ⟨same, refilled⟩ := tracks.refill_eq found
    have decided := tracks.allow_iff cost
    have shard' : (s.1.allow now a k cost).2.find_shard a = some (shard.paid now k cost) := by
      rw [find_shard_allow, if_pos rfl, found, Option.map_some]
    have paid : (shard.paid now k cost).buckets.lookup k =
        some (((shard.bucket now k).refill now).pay cost).2 := AList.lookup_insert _
    unfold track
    by_cases enough : cost ≤ level (reference rule) s.2 now
    · refine ⟨⟨_, shard', same, ?_⟩, ?_, ?_⟩
      · rw [paid, refilled, Bucket.pay, if_pos enough]
        simp only [decided.mpr enough, and_self, if_true]
        exact holds_admitted enough
      · simp only [decided.mpr enough, and_self, if_true]
        exact ⟨enough, tracks.past, tracks.admitted⟩
      · simp only [decided.mpr enough, and_self, if_true]
        exact List.forall_mem_cons.mpr ⟨le_refl now, tracks.past⟩
    · have refused : (s.1.allow now a k cost).1 = false := by
        rw [Bool.eq_false_iff]
        exact fun allowed => enough (decided.mp allowed)
      refine ⟨⟨_, shard', same, ?_⟩, ?_, ?_⟩
      · rw [paid, refilled, Bucket.pay, if_neg enough]
        simp only [refused, Bool.false_eq_true, false_and, if_false]
        exact holds_refused filling full tracks.admitted tracks.past
      · simpa only [refused, Bool.false_eq_true, false_and, if_false] using tracks.admitted
      · simpa only [refused, Bool.false_eq_true, false_and, if_false] using tracks.past
  · have unchanged : track action key s (now, .allow a k cost) = ((s.1.allow now a k cost).2, s.2) := by
      unfold track
      simp only [here, and_false, if_false]
    rw [unchanged]
    exact tracks.allow_other here

theorem Tracks.call {l : RateLimiter} (tracks : Tracks action key rule now (l, charges))
    (filling : 0 ≤ rule.rate) (full : 0 ≤ rule.burst) (a k : Bytes) {cost : ℚ} (costs : 0 ≤ cost) :
    ∃ charges', Tracks action key rule now ((l.allow now a k cost).2, charges') ∧
      (∀ start stop, spent charges start stop ≤ spent charges' start stop) ∧
      ((l.allow now a k cost).1 = true → a = action → k = key → charges' = ⟨now, cost⟩ :: charges) := by
  refine ⟨_, tracks.allow filling full a k cost, fun start stop => ?_, ?_⟩
  · dsimp only [track]
    split
    · rw [spent_cons]
      exact le_add_of_nonneg_left (by split <;> simp [costs])
    · exact le_refl _
  · intro allowed same_action same_key
    exact if_pos ⟨allowed, same_action, same_key⟩

/-- Calls of which none drops a bucket that is not full, at times that do not decrease. -/
structure Orderly (rule : RateLimitRule) (now : ℚ) (calls : List (ℚ × Call)) : Prop where
  ordered : calls.Pairwise fun c d => c.1 ≤ d.1
  later : ∀ c ∈ calls, now ≤ c.1
  patient : ∀ c ∈ calls, ∀ max_idle, c.2 = .sweep max_idle → rule.burst ≤ max_idle * rule.rate

theorem Tracks.run (tracks : Tracks action key rule now s) (filling : 0 ≤ rule.rate)
    (full : 0 ≤ rule.burst) {calls : List (ℚ × Call)} (orderly : Orderly rule now calls)
    (reach : ∀ c ∈ calls, c.1 ≤ later) (le : now ≤ later) :
    Tracks action key rule later (calls.foldl (track action key) s) := by
  induction calls generalizing s now with
  | nil => exact tracks.mono le
  | cons c calls ih =>
    obtain ⟨time, call⟩ := c
    have here := tracks.mono (orderly.later _ List.mem_cons_self)
    have sorted := List.pairwise_cons.mp orderly.ordered
    have next : Tracks action key rule time (track action key s (time, call)) := by
      cases call with
      | allow a k cost => exact here.allow filling full a k cost
      | sweep max_idle =>
        exact here.sweep filling (orderly.patient _ List.mem_cons_self max_idle rfl)
    refine ih next ⟨sorted.2, sorted.1, fun d member => ?_⟩ (fun d member => ?_) ?_
    · exact orderly.patient d (List.mem_cons_of_mem _ member)
    · exact reach d (List.mem_cons_of_mem _ member)
    · exact reach _ List.mem_cons_self

/-- A limiter with rules and no calls yet. -/
def configured (rules : List (Bytes × RateLimitRule)) : RateLimiter :=
  rules.foldl (fun l r => l.configure r.1 r.2) {}

/-- No key has a bucket yet. -/
def Unused (l : RateLimiter) : Prop :=
  ∀ action shard, l.find_shard action = some shard → shard.buckets = ∅

theorem Unused.configure {l : RateLimiter} (unused : Unused l) (action : Bytes) (rule : RateLimitRule) :
    Unused (l.configure action rule) := by
  intro a shard found
  unfold RateLimiter.configure at found
  cases known : l.find_shard action with
  | none =>
    simp only [known, find_shard_insert] at found
    split at found
    · cases found
      rfl
    · exact unused a shard found
  | some old =>
    simp only [known, find_shard_insert] at found
    split at found
    · cases found
      exact unused action old known
    · exact unused a shard found

theorem unused_configured (rules : List (Bytes × RateLimitRule)) : Unused (configured rules) :=
  @Lib.Runs.invariant_run RateLimiter (Bytes × RateLimitRule) (fun l r => l.configure r.1 r.2) Unused
    (fun _ r unused => unused.configure r.1 r.2) {} (fun _ _ found => by cases found) rules

theorem tracks_configured {rules : List (Bytes × RateLimitRule)}
    (ruled : ((configured rules).find_shard action).map (·.rule) = some rule) (now : ℚ) :
    Tracks action key rule now (configured rules, []) := by
  obtain ⟨shard, found, same⟩ := Option.map_eq_some_iff.mp ruled
  refine ⟨⟨shard, found, same, ?_⟩, trivial, nofun⟩
  rw [unused_configured rules action shard found]
  exact fun _ _ => rfl

/-- What calls admit for a key of an action with a rule stays within the rule in every stretch of
time, and a call is refused only if the reference bucket cannot pay for it. No sweep drops a
bucket before it had the time to fill up. -/
theorem admitted_within_rule {rules : List (Bytes × RateLimitRule)}
    (ruled : ((configured rules).find_shard action).map (·.rule) = some rule)
    (filling : 0 ≤ rule.rate) (full : 0 ≤ rule.burst) (key : Bytes) {calls : List (ℚ × Call)}
    (ordered : calls.Pairwise fun c d => c.1 ≤ d.1)
    (patient : ∀ c ∈ calls, ∀ max_idle, c.2 = .sweep max_idle → rule.burst ≤ max_idle * rule.rate) :
    (∀ start T, 0 ≤ T →
      spent (calls.foldl (track action key) (configured rules, [])).2 start (start + T) ≤
        rule.burst + rule.rate * T) ∧
    ∀ front back now cost, calls = front ++ (now, .allow action key cost) :: back →
      ((front.foldl (track action key) (configured rules, [])).1.allow now action key cost).1 = false →
      level (reference rule) (front.foldl (track action key) (configured rules, [])).2 now - cost < 0 := by
  obtain ⟨first, begins⟩ := Lib.Runs.exists_first ordered
  have start : Tracks action key rule first (configured rules, []) := tracks_configured ruled first
  constructor
  · intro start' T long
    obtain ⟨last, high⟩ := (first :: calls.map (·.1)).toFinset.exists_le
    have reach : ∀ c ∈ calls, c.1 ≤ last := fun c member =>
      high c.1 (List.mem_toFinset.mpr (List.mem_cons_of_mem _ (List.mem_map_of_mem member)))
    have tracks := start.run filling full ⟨ordered, begins, patient⟩ reach
      (high first (List.mem_toFinset.mpr List.mem_cons_self))
    have bound := spent_le full filling tracks.admitted
      (le_add_of_nonneg_right long : start' ≤ start' + T)
    rwa [add_sub_cancel_left] at bound
  · rintro front back now cost rfl refused
    have sorted := List.pairwise_append.mp ordered
    have tracks := start.run filling full
      ⟨sorted.1, fun c member => begins c (List.mem_append_left _ member),
        fun c member => patient c (List.mem_append_left _ member)⟩
      (fun c member => sorted.2.2 c member _ List.mem_cons_self)
      (begins _ (List.mem_append_right _ List.mem_cons_self))
    have decided := tracks.allow_iff cost
    rw [refused] at decided
    rw [sub_neg]
    exact not_le.mp fun enough => Bool.false_ne_true (decided.mpr enough)

/-- Three calls at once, a sweep and a fourth call. -/
def flood : List (ℚ × Call) :=
  [(0, .allow (bytes "ao:MS") (bytes "7") 1), (0, .allow (bytes "ao:MS") (bytes "7") 1),
    (0, .allow (bytes "ao:MS") (bytes "7") 1), (301, .sweep 300),
    (302, .allow (bytes "ao:MS") (bytes "7") 1)]

theorem flood_within_rule :
    spent (flood.foldl (track (bytes "ao:MS") (bytes "7"))
      (configured [(bytes "ao:MS", ⟨1, 2⟩)], [])).2 0 (0 + 302) ≤ 2 + 1 * 302 := by
  have ruled : ((configured [(bytes "ao:MS", ⟨1, 2⟩)]).find_shard (bytes "ao:MS")).map (·.rule) =
    some ⟨1, 2⟩ := rfl
  refine (admitted_within_rule ruled (by norm_num) (by norm_num) (bytes "7") ?_ ?_).1 0 302 (by norm_num)
  · simp only [flood, List.pairwise_cons, List.mem_cons, List.not_mem_nil, forall_eq_or_imp]
    norm_num
  · simp only [flood, List.forall_mem_cons]
    refine ⟨nofun, nofun, nofun, ?_, nofun, nofun⟩
    rintro _ ⟨⟩
    norm_num

end Proof

end RateLimiter

end AoSdl
