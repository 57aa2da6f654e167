import AoSdl.RateLimiter
import Mathlib.Algebra.Order.Archimedean.Basic

/-! A `RateLimiter` whose rules change while it runs: the reload of an action puts another rule in
place, and buckets keep what they were made with. -/
namespace AoSdl.RateLimiter
open Lib.TokenBucket

inductive Op where
  | configure (action : Bytes) (rule : RateLimitRule)
  | allow (action key : Bytes) (cost : ℚ)

/-- One call at a time, with the charges admitted for one key of an action since it was reloaded. -/
def charge (action key : Bytes) (s : RateLimiter × List (Charge ℚ)) (c : ℚ × Op) :
    RateLimiter × List (Charge ℚ) :=
  match c.2 with
  | .configure a rule => (s.1.configure a rule, s.2)
  | .allow a k cost => track action key s (c.1, .allow a k cost)

/-- Calls that follow a reload at a time, until the action is reloaded again. -/
structure Follows (action : Bytes) (now : ℚ) (calls : List (ℚ × Op)) : Prop where
  ordered : calls.Pairwise fun c d => c.1 ≤ d.1
  later : ∀ c ∈ calls, now ≤ c.1
  kept : ∀ c ∈ calls, ∀ rule, c.2 ≠ .configure action rule
  costs : ∀ c ∈ calls, ∀ a k cost, c.2 = .allow a k cost → 0 ≤ cost

/-- After the reload of an action what a key is admitted stays within the new rule. -/
def TakesEffect (l : RateLimiter) (now : ℚ) (action : Bytes) (rule : RateLimitRule) (key : Bytes) :
    Prop :=
  ∀ calls, Follows action now calls → ∀ start T, 0 ≤ T →
    spent (calls.foldl (charge action key) (l.configure action rule, [])).2 start (start + T) ≤
      rule.burst + rule.rate * T

/-- A bucket admits no more than a rule from some time on: it never admits anything, or it does not
fill faster and never holds more than the rule allows. -/
def Bucket.Obeys (rule : RateLimitRule) (now : ℚ) (bucket : Bucket) : Prop :=
  bucket.max_tokens ≤ 0 ∨ (bucket.rate ≤ rule.rate ∧
    if 0 < bucket.rate then bucket.max_tokens ≤ rule.burst
    else (bucket.refill now).tokens ≤ rule.burst)

def find_bucket (l : RateLimiter) (action key : Bytes) : Option Bucket :=
  (l.find_shard action).bind fun shard => shard.buckets.lookup key

/-- A bucket never holds more than the reference bucket of a rule after the charges. -/
structure Bucket.Under (rule : RateLimitRule) (charges : List (Charge ℚ)) (now : ℚ) (bucket : Bucket) :
    Prop where
  tokens : ∀ t, now ≤ t → (bucket.refill t).tokens ≤ level (reference rule) charges t
  rate : bucket.rate ≤ rule.rate ∨ bucket.max_tokens ≤ 0

/-- The shard of the action has the rule, and the bucket of the key stays under it. -/
structure Within (action key : Bytes) (rule : RateLimitRule) (now : ℚ)
    (s : RateLimiter × List (Charge ℚ)) : Prop where
  shard : ∃ shard, s.1.find_shard action = some shard ∧ shard.rule = rule ∧
    (shard.buckets.lookup key = none → s.2 = []) ∧
    ∀ bucket, shard.buckets.lookup key = some bucket → bucket.Under rule s.2 now
  admitted : Admitted (reference rule) s.2
  past : ∀ c ∈ s.2, c.time ≤ now

section Enough

variable {action key : Bytes} {rule : RateLimitRule} {bucket : Bucket} {charges : List (Charge ℚ)}
  {now t later cost : ℚ} {s : RateLimiter × List (Charge ℚ)}

@[simp] theorem tokens_refill (bucket : Bucket) (t : ℚ) : (bucket.refill t).tokens =
    min bucket.max_tokens (bucket.tokens + (t - bucket.last_refill) * bucket.rate) := rfl

theorem Bucket.Under.mono (under : bucket.Under rule charges now) (le : now ≤ later) :
    bucket.Under rule charges later :=
  ⟨fun t reach => under.tokens t (le.trans reach), under.rate⟩

theorem refill_refill_le (bucket : Bucket) (t later : ℚ) :
    ((bucket.refill t).refill later).tokens ≤ (bucket.refill later).tokens := by
  have split : (later - bucket.last_refill) * bucket.rate =
      (t - bucket.last_refill) * bucket.rate + (later - t) * bucket.rate := by ring
  rw [tokens_refill bucket, split, ← add_assoc]
  exact min_le_min_left _ (add_le_add_left (min_le_right _ _) _)

theorem Bucket.Under.refill (under : bucket.Under rule charges now) (reach : now ≤ t) :
    (bucket.refill t).Under rule charges t :=
  ⟨fun later le => (refill_refill_le bucket t later).trans (under.tokens later (reach.trans le)),
    under.rate⟩

theorem Bucket.Under.pay (under : bucket.Under rule charges now) (latest : bucket.last_refill = now)
    (capped : bucket.tokens ≤ bucket.max_tokens) (filling : 0 ≤ rule.rate) (costs : 0 ≤ cost)
    (enough : cost ≤ level (reference rule) charges now) :
    Bucket.Under rule (⟨now, cost⟩ :: charges) now { bucket with tokens := bucket.tokens - cost } := by
  refine ⟨fun t reach => ?_, under.rate⟩
  have elapsed : 0 ≤ t - now := sub_nonneg.mpr reach
  have before := under.tokens t reach
  have here := under.tokens now (le_refl now)
  rw [tokens_refill, latest] at before here
  rw [sub_self, zero_mul, add_zero, min_eq_right capped] at here
  have high : level (reference rule) charges t ≤ rule.burst := level_le
  rw [tokens_refill, level]
  dsimp only
  rw [latest]
  refine le_min ?_ ?_
  · refine le_trans (min_le_min_left _ ?_) (before.trans high)
    linarith
  · rcases under.rate with slow | empty
    · have gain : (t - now) * bucket.rate ≤ rule.rate * (t - now) := by
        rw [mul_comm rule.rate]
        exact mul_le_mul_of_nonneg_left slow elapsed
      refine (min_le_right _ _).trans ?_
      show _ ≤ _ + rule.rate * _
      linarith
    · have gain : 0 ≤ rule.rate * (t - now) := mul_nonneg filling elapsed
      refine (min_le_left _ _).trans ?_
      show _ ≤ _ + rule.rate * _
      linarith

theorem under_new (now : ℚ) : Bucket.Under rule [] now ⟨rule.burst, rule.burst, rule.rate, now⟩ :=
  ⟨fun _ _ => min_le_left _ _, .inl (le_refl _)⟩

/-- A bucket that obeys a rule stays under a full bucket of the rule. -/
theorem Bucket.Obeys.under (obeys : bucket.Obeys rule now) (full : 0 ≤ rule.burst) :
    bucket.Under rule [] now := by
  rcases obeys with empty | ⟨slow, low⟩
  · exact ⟨fun t _ => (min_le_left _ _).trans (empty.trans full), .inr empty⟩
  · refine ⟨fun t reach => ?_, .inl slow⟩
    show _ ≤ rule.burst
    split at low
    · exact (min_le_left _ _).trans low
    · next falling =>
      rw [not_lt] at falling
      have less : (t - bucket.last_refill) * bucket.rate ≤ (now - bucket.last_refill) * bucket.rate :=
        mul_le_mul_of_nonpos_right (by linarith) falling
      rw [tokens_refill] at low ⊢
      exact le_trans (min_le_min_left _ (by linarith)) low

theorem Within.mono (within : Within action key rule now s) (le : now ≤ later) :
    Within action key rule later s := by
  obtain ⟨⟨shard, found, same, none, kept⟩, admitted, past⟩ := within
  exact ⟨⟨shard, found, same, none, fun bucket inside => (kept bucket inside).mono le⟩, admitted,
    fun c member => (past c member).trans le⟩

/-- What a call for the key finds is under the reference bucket, at the time of the call. -/
theorem Within.bucket_under (within : Within action key rule now s) :
    ∃ shard, s.1.find_shard action = some shard ∧ shard.rule = rule ∧
      ((shard.bucket now key).refill now).Under rule s.2 now := by
  obtain ⟨⟨shard, found, same, none, kept⟩, -, -⟩ := within
  refine ⟨shard, found, same, ?_⟩
  unfold ActionShard.bucket
  cases at_key : shard.buckets.lookup key with
  | none =>
    rw [none at_key, Option.getD_none, same]
    exact (under_new now).refill (le_refl now)
  | some bucket => exact (kept bucket at_key).refill (le_refl now)

theorem find_shard_configure_other (l : RateLimiter) {a : Bytes} (other : action ≠ a)
    (rule : RateLimitRule) : (l.configure a rule).find_shard action = l.find_shard action := by
  unfold configure
  split
  · rw [find_shard_insert, if_neg other]
  · rw [find_shard_insert, if_neg other]

theorem Within.allow_other (within : Within action key rule now s) {a k : Bytes}
    (other : ¬ (a = action ∧ k = key)) (cost : ℚ) :
    Within action key rule now ((s.1.allow now a k cost).2, s.2) := by
  obtain ⟨⟨shard, found, same, kept⟩, admitted, past⟩ := within
  obtain ⟨shard', found', rules, bucket⟩ := find_shard_allow_other found other cost
  refine ⟨⟨shard', found', rules.trans same, ?_⟩, admitted, past⟩
  rw [bucket]
  exact kept

/-- A call for the key charges the reference bucket with what it admits. -/
theorem Within.allow_key (within : Within action key rule now s) (filling : 0 ≤ rule.rate)
    (costs : 0 ≤ cost) :
    Within action key rule now (track action key s (now, .allow action key cost)) := by
  obtain ⟨shard, found, same, under⟩ := within.bucket_under
  let bucket := (shard.bucket now key).refill now
  have here := under.tokens now (le_refl now)
  have capped : bucket.tokens ≤ bucket.max_tokens := min_le_left _ _
  have full : (bucket.refill now).tokens = bucket.tokens := by
    show min bucket.max_tokens (bucket.tokens + (now - now) * bucket.rate) = bucket.tokens
    rw [sub_self, zero_mul, add_zero, min_eq_right capped]
  have shard' : (s.1.allow now action key cost).2.find_shard action =
      some (shard.paid now key cost) := by
    rw [find_shard_allow, if_pos rfl, found, Option.map_some]
  have allowed : (s.1.allow now action key cost).1 = (bucket.pay cost).1 := by
    unfold allow
    rw [found]
  have paid : (shard.paid now key cost).buckets.lookup key = some (bucket.pay cost).2 :=
    AList.lookup_insert _
  have some_bucket : (shard.paid now key cost).buckets.lookup key ≠ none := by simp [paid]
  unfold track
  dsimp only
  rw [allowed]
  by_cases enough : cost ≤ bucket.tokens
  · have within_level : cost ≤ level (reference rule) s.2 now := enough.trans (full ▸ here)
    have pays : bucket.pay cost = (true, { bucket with tokens := bucket.tokens - cost }) :=
      if_pos enough
    rw [pays] at paid ⊢
    rw [if_pos ⟨rfl, rfl, rfl⟩]
    refine ⟨⟨_, shard', same, fun none => absurd none some_bucket, fun b inside => ?_⟩,
      ⟨within_level, within.past, within.admitted⟩, List.forall_mem_cons.mpr ⟨le_refl now, within.past⟩⟩
    obtain rfl := Option.some.inj (paid.symm.trans inside)
    exact under.pay rfl capped filling costs within_level
  · have refuses : bucket.pay cost = (false, bucket) := if_neg enough
    rw [refuses] at paid ⊢
    rw [if_neg (by simp)]
    refine ⟨⟨_, shard', same, fun none => absurd none some_bucket, fun b inside => ?_⟩,
      within.admitted, within.past⟩
    obtain rfl := Option.some.inj (paid.symm.trans inside)
    exact under

theorem Within.charge (within : Within action key rule now s) (filling : 0 ≤ rule.rate) (op : Op)
    (kept : ∀ rule, op ≠ .configure action rule) (costs : ∀ a k cost, op = .allow a k cost → 0 ≤ cost) :
    Within action key rule now (charge action key s (now, op)) := by
  cases op with
  | configure a r =>
    have other : action ≠ a := fun same => kept r (same ▸ rfl)
    obtain ⟨⟨shard, found, rest⟩, admitted, past⟩ := within
    exact ⟨⟨shard, (find_shard_configure_other s.1 other r).trans found, rest⟩, admitted, past⟩
  | allow a k cost =>
    by_cases here : a = action ∧ k = key
    · obtain ⟨rfl, rfl⟩ := here
      exact within.allow_key filling (costs a k cost rfl)
    · have unchanged : track action key s (now, .allow a k cost) =
          ((s.1.allow now a k cost).2, s.2) := by
        unfold track
        simp only [here, and_false, if_false]
      show Within action key rule now (track action key s (now, .allow a k cost))
      rw [unchanged]
      exact within.allow_other here cost

theorem Within.run (within : Within action key rule now s) (filling : 0 ≤ rule.rate)
    {calls : List (ℚ × Op)} (follows : Follows action now calls) :
    ∃ later, Within action key rule later (calls.foldl (RateLimiter.charge action key) s) := by
  induction calls generalizing s now with
  | nil => exact ⟨now, within⟩
  | cons c calls ih =>
    obtain ⟨time, op⟩ := c
    obtain ⟨first, ordered⟩ := List.pairwise_cons.mp follows.ordered
    have next := (within.mono (follows.later _ List.mem_cons_self)).charge filling op
      (follows.kept _ List.mem_cons_self) (follows.costs _ List.mem_cons_self)
    exact ih next ⟨ordered, first, fun d member => follows.kept d (List.mem_cons_of_mem _ member),
      fun d member => follows.costs d (List.mem_cons_of_mem _ member)⟩

theorem find_shard_configure (l : RateLimiter) (action : Bytes) (rule : RateLimitRule) :
    ∃ shard, (l.configure action rule).find_shard action = some shard ∧ shard.rule = rule ∧
      ∀ key, shard.buckets.lookup key = l.find_bucket action key := by
  unfold configure find_bucket
  cases found : l.find_shard action with
  | none =>
    refine ⟨{ rule }, ?_, rfl, fun key => rfl⟩
    rw [find_shard_insert, if_pos rfl]
  | some shard =>
    refine ⟨{ shard with rule }, ?_, rfl, fun key => rfl⟩
    rw [find_shard_insert, if_pos rfl]

theorem within_configure {l : RateLimiter} (full : 0 ≤ rule.burst)
    (obeys : ∀ bucket, l.find_bucket action key = some bucket → bucket.Obeys rule now) :
    Within action key rule now (l.configure action rule, []) := by
  obtain ⟨shard, found, same, buckets⟩ := find_shard_configure l action rule
  refine ⟨⟨shard, found, same, fun _ => rfl, fun bucket inside => ?_⟩, trivial, nofun⟩
  exact (obeys bucket (buckets key ▸ inside)).under full

end Enough

section Needed

variable {action key : Bytes} {rule : RateLimitRule} {bucket : Bucket} {now t : ℚ}

/-- A key with a bucket of its own, in a limiter that has been reloaded. -/
structure Has (action key : Bytes) (bucket : Bucket) (l : RateLimiter) : Prop where
  shard : ∃ shard, l.find_shard action = some shard ∧ shard.buckets.lookup key = some bucket

theorem Has.charge {s : RateLimiter × List (Charge ℚ)} (has : Has action key bucket s.1) {cost : ℚ}
    (enough : cost ≤ (bucket.refill t).tokens) :
    Has action key ⟨(bucket.refill t).tokens - cost, bucket.max_tokens, bucket.rate, t⟩
        (charge action key s (t, .allow action key cost)).1 ∧
      (charge action key s (t, .allow action key cost)).2 = ⟨t, cost⟩ :: s.2 := by
  obtain ⟨shard, found, at_key⟩ := has.shard
  have same : shard.bucket t key = bucket := by
    unfold ActionShard.bucket
    rw [at_key, Option.getD_some]
  have pays : (bucket.refill t).pay cost =
      (true, { bucket.refill t with tokens := (bucket.refill t).tokens - cost }) := if_pos enough
  have allowed : (s.1.allow t action key cost).1 = true := by
    unfold allow
    rw [found]
    dsimp only
    rw [same, pays]
  have shard' : (s.1.allow t action key cost).2.find_shard action = some (shard.paid t key cost) := by
    rw [find_shard_allow, if_pos rfl, found, Option.map_some]
  have paid : (shard.paid t key cost).buckets.lookup key = some ((bucket.refill t).pay cost).2 := by
    rw [← same]
    exact AList.lookup_insert _
  rw [pays] at paid
  have charged : RateLimiter.charge action key s (t, .allow action key cost) =
      ((s.1.allow t action key cost).2, ⟨t, cost⟩ :: s.2) := by
    show track action key s (t, .allow action key cost) = _
    unfold track
    dsimp only
    rw [if_pos ⟨allowed, rfl, rfl⟩]
  rw [charged]
  exact ⟨⟨_, shard', paid⟩, rfl⟩

theorem has_configure {l : RateLimiter} (found : l.find_bucket action key = some bucket)
    (rule : RateLimitRule) : Has action key bucket (l.configure action rule) := by
  obtain ⟨shard, inside, -, buckets⟩ := find_shard_configure l action rule
  exact ⟨shard, inside, (buckets key).trans found⟩

/-- What the bucket can pay at once is within the burst. -/
theorem TakesEffect.le_burst {l : RateLimiter} (effect : TakesEffect l now action rule key)
    (found : l.find_bucket action key = some bucket) (reach : now ≤ t) {cost : ℚ} (costs : 0 ≤ cost)
    (enough : cost ≤ (bucket.refill t).tokens) : cost ≤ rule.burst := by
  have follows : Follows action now [(t, .allow action key cost)] := by
    refine ⟨List.pairwise_singleton _ _, ?_, ?_, ?_⟩
    · simpa using reach
    · simp
    · simp only [List.mem_singleton, forall_eq, Op.allow.injEq]
      rintro _ _ _ ⟨-, -, rfl⟩
      exact costs
  have bound := effect _ follows t 0 (le_refl 0)
  have charged := (Has.charge (s := (l.configure action rule, [])) (has_configure found rule) enough).2
  rw [List.foldl_cons, List.foldl_nil, charged, spent_cons, add_zero, mul_zero, add_zero,
    if_pos ⟨le_refl t, le_refl t⟩] at bound
  have none : spent ([] : List (Charge ℚ)) t t = 0 := rfl
  rwa [none, add_zero] at bound

/-- Charges of a whole bucket, each as soon as the bucket is full again. -/
def drains (action key : Bytes) (burst rate t : ℚ) : Nat → List (ℚ × Op)
  | 0 => []
  | n + 1 => (t, .allow action key burst) :: drains action key burst rate (t + burst / rate) n

variable {burst rate : ℚ}

theorem drains_later (positive : 0 < burst) (fast : 0 < rate) (t : ℚ) (n : Nat) :
    ∀ c ∈ drains action key burst rate t n, t ≤ c.1 ∧ c.2 = .allow action key burst := by
  have gap : 0 ≤ burst / rate := (div_pos positive fast).le
  induction n generalizing t with
  | zero => exact nofun
  | succ n ih =>
    refine List.forall_mem_cons.mpr ⟨⟨le_refl t, rfl⟩, fun c member => ?_⟩
    obtain ⟨later, same⟩ := ih (t + burst / rate) c member
    exact ⟨(le_add_of_nonneg_right gap).trans later, same⟩

theorem drains_follow (positive : 0 < burst) (fast : 0 < rate) (reach : now ≤ t) (n : Nat) :
    Follows action now (drains action key burst rate t n) := by
  have later (t : ℚ) (n : Nat) : ∀ c ∈ drains action key burst rate t n,
      t ≤ c.1 ∧ c.2 = .allow action key burst := drains_later positive fast t n
  refine ⟨?_, fun c member => reach.trans (later t n c member).1, fun c member r same => ?_,
    fun c member a k cost same => ?_⟩
  · have gap : 0 ≤ burst / rate := (div_pos positive fast).le
    clear reach
    induction n generalizing t with
    | zero => exact List.Pairwise.nil
    | succ n ih =>
      refine List.pairwise_cons.mpr ⟨fun c member => ?_, ih⟩
      exact (le_add_of_nonneg_right gap).trans (later _ n c member).1
  · have call := (later t n c member).2
    rw [same] at call
    cases call
  · have call := (later t n c member).2
    rw [same] at call
    cases call
    exact positive.le

/-- A bucket that is full each time pays for all of them. -/
theorem spent_drains {s : RateLimiter × List (Charge ℚ)} (has : Has action key bucket s.1)
    (fast : 0 < bucket.rate) (full : (bucket.refill t).tokens = bucket.max_tokens) {start stop : ℚ}
    (early : start ≤ t) (positive : 0 < bucket.max_tokens) (n : Nat)
    (late : t + n * (bucket.max_tokens / bucket.rate) ≤ stop) :
    n * bucket.max_tokens ≤ spent ((drains action key bucket.max_tokens bucket.rate t n).foldl
      (charge action key) s).2 start stop - spent s.2 start stop := by
  induction n generalizing s t bucket with
  | zero => simp [drains]
  | succ n ih =>
    have gap : 0 < bucket.max_tokens / bucket.rate := div_pos positive fast
    obtain ⟨has', charged⟩ := has.charge full.ge
    have filled : (Bucket.refill ⟨(bucket.refill t).tokens - bucket.max_tokens, bucket.max_tokens,
        bucket.rate, t⟩ (t + bucket.max_tokens / bucket.rate)).tokens = bucket.max_tokens := by
      have cancel : bucket.max_tokens / bucket.rate * bucket.rate = bucket.max_tokens :=
        div_mul_cancel₀ _ fast.ne'
      rw [tokens_refill]
      dsimp only
      rw [full, sub_self, zero_add, add_sub_cancel_left, cancel, min_self]
    have span : (n : ℚ) * (bucket.max_tokens / bucket.rate) ≥ 0 := by positivity
    push_cast at late ⊢
    have later := ih has' fast filled (early.trans (by linarith)) positive (by linarith)
    have inside : start ≤ t ∧ t ≤ stop := ⟨early, by linarith⟩
    rw [charged, spent_cons, if_pos inside] at later
    dsimp only at later
    rw [drains, List.foldl_cons]
    linarith

theorem TakesEffect.rule_nonneg {l : RateLimiter} (effect : TakesEffect l now action rule key) :
    0 ≤ rule.rate ∧ 0 ≤ rule.burst := by
  have idle : Follows action now [] := ⟨List.Pairwise.nil, nofun, nofun, nofun⟩
  have bound (T : ℚ) (long : 0 ≤ T) : 0 ≤ rule.burst + rule.rate * T := effect [] idle 0 T long
  have full : 0 ≤ rule.burst := by simpa using bound 0 (le_refl 0)
  refine ⟨?_, full⟩
  by_contra negative
  rw [not_le] at negative
  have long : 0 ≤ (rule.burst + 1) / -rule.rate :=
    div_nonneg (by linarith) (neg_nonneg.mpr negative.le)
  have cancel : rule.rate * ((rule.burst + 1) / -rule.rate) = -(rule.burst + 1) := by
    rw [div_neg, mul_neg, mul_div_cancel₀ _ negative.ne]
  have late := bound _ long
  rw [cancel] at late
  linarith

/-- A bucket that fills faster than the rule overruns it in the end. -/
theorem TakesEffect.rate_le {l : RateLimiter} (effect : TakesEffect l now action rule key)
    (found : l.find_bucket action key = some bucket) (positive : 0 < bucket.max_tokens)
    (fast : 0 < bucket.rate) (reach : now ≤ t) (full : (bucket.refill t).tokens = bucket.max_tokens) :
    bucket.rate ≤ rule.rate := by
  by_contra faster
  rw [not_le] at faster
  have gap : 0 < bucket.max_tokens / bucket.rate := div_pos positive fast
  have part : bucket.rate * (bucket.max_tokens / bucket.rate) = bucket.max_tokens :=
    mul_div_cancel₀ _ fast.ne'
  -- what a bucket admits beyond the rule between two times at which it is full
  have excess : 0 < (bucket.rate - rule.rate) * (bucket.max_tokens / bucket.rate) :=
    mul_pos (sub_pos.mpr faster) gap
  obtain ⟨n, many⟩ := exists_lt_nsmul excess rule.burst
  rw [nsmul_eq_mul, sub_mul, part] at many
  have span : 0 ≤ (n : ℚ) * (bucket.max_tokens / bucket.rate) := by positivity
  have follows : Follows action now (drains action key bucket.max_tokens bucket.rate t n) :=
    drains_follow positive fast reach n
  have bound := effect _ follows t _ span
  have drained := spent_drains (s := (l.configure action rule, [])) (has_configure found rule) fast full
    (le_refl t) positive n (le_refl _)
  have none : spent ([] : List (Charge ℚ)) t (t + n * (bucket.max_tokens / bucket.rate)) = 0 := rfl
  rw [none, sub_zero] at drained
  have fits := drained.trans bound
  have rearranged : (n : ℚ) * (bucket.max_tokens - rule.rate * (bucket.max_tokens / bucket.rate)) =
      n * bucket.max_tokens - rule.rate * (n * (bucket.max_tokens / bucket.rate)) := by ring
  linarith

end Needed

/-- The reload of an action takes effect for a key exactly if the rule is not negative and the bucket
that the key has already, if it has one, obeys it. -/
theorem reload_takes_effect_iff (l : RateLimiter) (now : ℚ) (action : Bytes) (rule : RateLimitRule)
    (key : Bytes) :
    TakesEffect l now action rule key ↔
      0 ≤ rule.rate ∧ 0 ≤ rule.burst ∧
      ∀ bucket, l.find_bucket action key = some bucket → bucket.Obeys rule now := by
  constructor
  · intro effect
    obtain ⟨filling, full⟩ := effect.rule_nonneg
    refine ⟨filling, full, fun bucket found => ?_⟩
    by_cases empty : bucket.max_tokens ≤ 0
    · exact .inl empty
    rw [not_le] at empty
    by_cases fast : 0 < bucket.rate
    · -- by this time the bucket has filled up
      let t := max now (bucket.last_refill + (bucket.max_tokens - bucket.tokens) / bucket.rate)
      have waited : (bucket.max_tokens - bucket.tokens) / bucket.rate ≤ t - bucket.last_refill := by
        have := le_max_right now (bucket.last_refill + (bucket.max_tokens - bucket.tokens) / bucket.rate)
        linarith
      have filled : (bucket.refill t).tokens = bucket.max_tokens := by
        rw [div_le_iff₀ fast] at waited
        exact min_eq_left (by linarith)
      refine .inr ⟨effect.rate_le found empty fast (le_max_left _ _) filled, ?_⟩
      rw [if_pos fast]
      exact effect.le_burst found (le_max_left _ _) empty.le filled.ge
    · refine .inr ⟨(not_lt.mp fast).trans filling, ?_⟩
      rw [if_neg fast]
      by_cases some_tokens : 0 ≤ (bucket.refill now).tokens
      · exact effect.le_burst found (le_refl now) some_tokens (le_refl _)
      · exact (not_le.mp some_tokens).le.trans full
  · rintro ⟨filling, full, obeys⟩ calls follows start T long
    obtain ⟨later, within⟩ := (within_configure full obeys).run filling follows
    have bound := spent_le full filling within.admitted
      (le_add_of_nonneg_right long : start ≤ start + T)
    rwa [add_sub_cancel_left] at bound

/-- A key had a call under a generous rule before a strict one was loaded. -/
def generous : RateLimiter :=
  [(0, Op.configure (bytes "ao:CT") ⟨10, 20⟩), (1, .allow (bytes "ao:CT") (bytes "7") 1)].foldl
    (fun l (c : ℚ × Op) => (charge (bytes "ao:CT") (bytes "7") (l, []) c).1) {}

theorem reload_without_effect :
    ¬ TakesEffect generous 2 (bytes "ao:CT") ⟨1, 2⟩ (bytes "7") ∧
    spent ([(3, Op.allow (bytes "ao:CT") (bytes "7") 20)].foldl (charge (bytes "ao:CT") (bytes "7"))
      (generous.configure (bytes "ao:CT") ⟨1, 2⟩, [])).2 3 (3 + 0) = 20 := by
  have spends : spent ([(3, Op.allow (bytes "ao:CT") (bytes "7") 20)].foldl
      (charge (bytes "ao:CT") (bytes "7")) (generous.configure (bytes "ao:CT") ⟨1, 2⟩, [])).2 3 (3 + 0) =
        20 := by decide +kernel
  refine ⟨fun effect => ?_, spends⟩
  have bound := effect [(3, .allow (bytes "ao:CT") (bytes "7") 20)]
    ⟨by simp, by simp; norm_num, by simp, by simp⟩ 3 0 (le_refl 0)
  rw [spends] at bound
  norm_num at bound

end AoSdl.RateLimiter
