import AoSdl.AoFraming
import AoSdl.RateLimiter

/-! `WsWorkerPool`: the poll thread queues a client's messages for one worker, which asks the
rate limiter about each and then dispatches it. The limiter looks at the text before the first
`#` of a message, the server at the packets of the byte stream. A pool without a limiter is one
whose limiter has no rules. -/
namespace AoSdl
open Lib.Framing Lib.Runs Lib.TokenBucket

structure WsWorkItem where
  client_id : UInt64
  data : Bytes
  deriving DecidableEq

/-- The queue of a worker, and the message it let through and when. -/
structure WsSlot where
  queue : List WsWorkItem := []
  item : Option (ℚ × WsWorkItem) := none

structure WsWorkerPool where
  slots_ : Nat → WsSlot := fun _ => {}
  rate_limiter_ : RateLimiter := {}
  ao_ : AOServer := {}

namespace WsWorkerPool

def slot_idx (slot_count_ : Nat) (client_id : UInt64) : Nat := client_id.toNat % slot_count_

def set_slot (pool : WsWorkerPool) (i : Nat) (slot : WsSlot) : WsWorkerPool :=
  { pool with slots_ := Function.update pool.slots_ i slot }

/-- The poll thread queues a frame that the limits of the connection admit. -/
def enqueue (slot_count_ : Nat) (pool : WsWorkerPool) (now : ℚ) (client_id : UInt64) (data : Bytes) :
    WsWorkerPool :=
  let key := AOServer.of_uint64 client_id
  let (allowed, limiter) := pool.rate_limiter_.allow now (bytes "ws_frame") key
  let pool := { pool with rate_limiter_ := limiter }
  if !allowed then pool
  else
    let (allowed, limiter) := pool.rate_limiter_.allow now (bytes "ws_bytes") key data.length
    let pool := { pool with rate_limiter_ := limiter }
    if !allowed then pool
    else
      let i := slot_idx slot_count_ client_id
      let slot := pool.slots_ i
      pool.set_slot i { slot with queue := slot.queue ++ [⟨client_id, data⟩] }

/-- The text before the first `#`. -/
def pkt_type (data : Bytes) : Option Bytes :=
  if 35 ∈ data then some (data.takeWhile (· ≠ 35)) else none

/-- A worker with nothing in hand takes a message off its queue and asks the limiter. -/
def take (pool : WsWorkerPool) (now : ℚ) (i : Nat) : WsWorkerPool :=
  match (pool.slots_ i).item, (pool.slots_ i).queue with
  | none, item :: queue =>
    match pkt_type item.data with
    | none => pool.set_slot i ⟨queue, some (now, item)⟩
    | some type =>
      let (allowed, limiter) :=
        pool.rate_limiter_.allow now (bytes "ao:" ++ type) (AOServer.of_uint64 item.client_id)
      let pool := { pool with rate_limiter_ := limiter }
      pool.set_slot i ⟨queue, if allowed then some (now, item) else none⟩
  | _, _ => pool

/-- A worker hands the message it let through to the server. -/
def dispatch (deps : Deps) (envs : Nat → Env) (pool : WsWorkerPool) (i : Nat) : WsWorkerPool :=
  match (pool.slots_ i).item with
  | none => pool
  | some (_, item) =>
    let ao_ := AOServer.on_client_message deps envs pool.ao_ item.client_id item.data
    { pool with ao_ }.set_slot i ⟨(pool.slots_ i).queue, none⟩

/-- What happens in the pool. `call` is a call of the limiter by an endpoint. `outside` is what
the other threads do to the server: anything but dispatching packets. -/
inductive Event where
  | frame (client_id : UInt64) (data : Bytes)
  | take (i : Nat)
  | dispatch (i : Nat) (envs : Nat → Env)
  | call (action key : Bytes)
  | sweep
  | outside (ao_ : AOServer)

def step (deps : Deps) (slot_count_ : Nat) (pool : WsWorkerPool) (now : ℚ) : Event → WsWorkerPool
  | .frame client_id data => pool.enqueue slot_count_ now client_id data
  | .take i => pool.take now i
  | .dispatch i envs => pool.dispatch deps envs i
  | .call action key => { pool with rate_limiter_ := (pool.rate_limiter_.allow now action key).2 }
  | .sweep => { pool with rate_limiter_ := (pool.rate_limiter_.sweep now 300).1 }
  | .outside ao_ => { pool with ao_ := { ao_ with log := pool.ao_.log } }

/-- The pool, and the packets dispatched so far with their times. -/
structure Watch where
  pool : WsWorkerPool
  served : List (ℚ × UInt64 × AOPacket) := []

def watch (deps : Deps) (slot_count_ : Nat) (w : Watch) (e : ℚ × Event) : Watch :=
  let pool := w.pool.step deps slot_count_ e.1 e.2
  let news := pool.ao_.dispatched.drop w.pool.ao_.dispatched.length
  ⟨pool, w.served ++ news.map fun p => (e.1, p)⟩

/-- How many packets with a header were dispatched for a client from one time to another. -/
def served_between (type : Bytes) (client_id : UInt64) (w : Watch) (start stop : ℚ) : Nat :=
  w.served.countP fun p =>
    start ≤ p.1 && p.1 ≤ stop && p.2.1 = client_id && p.2.2.header = type

/-- The packets that a message completes. -/
def completed (s : AOServer) (client_id : UInt64) (raw : Bytes) : List AOPacket :=
  match s.buffer client_id with
  | none => []
  | some buf =>
    if AOServer.MAX_INCOMPLETE_BUF < (buf ++ raw).length then []
    else (packetCutter.drain (buf ++ raw)).1.map parse_content

/-- A message of the client completes a packet of the type only if the limiter was asked about
that type, and then one, and it is dispatched within `wait` of that. Sweeps drop full buckets
only. -/
def Guarded (type : Bytes) (client_id : UInt64) (rule : RateLimitRule) (wait : ℚ) (w : Watch)
    (e : ℚ × Event) : Prop :=
  match e.2 with
  | .dispatch i _ => ∀ since item, (w.pool.slots_ i).item = some (since, item) →
      item.client_id = client_id →
    e.1 ≤ since + wait ∧
      (completed w.pool.ao_ client_id item.data).countP (·.header = type) ≤
        if pkt_type item.data = some type then 1 else 0
  | .sweep => rule.burst ≤ 300 * rule.rate
  | _ => True

section Proof

variable {deps : Deps} {slot_count_ : Nat} {type : Bytes} {k : UInt64} {rule : RateLimitRule}
  {now later wait start stop : ℚ} {w : Watch} {pool : WsWorkerPool} {charges : List (Charge ℚ)}

theorem dispatched_on_client_message (envs : Nat → Env) (s : AOServer) (k : UInt64) (raw : Bytes) :
    (AOServer.on_client_message deps envs s k raw).dispatched =
      s.dispatched ++ (completed s k raw).map fun p => (k, p) := by
  unfold completed
  cases holds : s.buffer k with
  | none =>
    have unknown : s.get_protocol_state k = none := Option.map_eq_none_iff.mp holds
    simp [AOServer.on_client_message, unknown]
  | some buf =>
    dsimp only
    by_cases past : AOServer.MAX_INCOMPLETE_BUF < (buf ++ raw).length
    · rw [if_pos past, AOServer.overflow_dispatches_none deps envs s k holds past]
      simp
    · rw [if_neg past, (AOServer.on_client_message_spec deps envs s k holds (not_lt.mp past)).2,
        List.map_map]
      rfl

/-- What a message in hand may still cost: one packet if it is the client's and the limiter
admitted it for the type. -/
def owed (type : Bytes) (k : UInt64) (start stop : ℚ) : Option (ℚ × WsWorkItem) → Nat
  | none => 0
  | some (since, item) =>
    if item.client_id = k ∧ pkt_type item.data = some type ∧ start ≤ since ∧ since ≤ stop then 1
    else 0

def pending (slot_count_ : Nat) (type : Bytes) (k : UInt64) (pool : WsWorkerPool) (start stop : ℚ) :
    Nat := owed type k start stop (pool.slots_ (slot_idx slot_count_ k)).item

/-- Messages stand in the slot of their client. -/
structure Placed (slot_count_ : Nat) (now : ℚ) (pool : WsWorkerPool) : Prop where
  queue : ∀ i, ∀ item ∈ (pool.slots_ i).queue, slot_idx slot_count_ item.client_id = i
  item : ∀ i since item, (pool.slots_ i).item = some (since, item) →
    slot_idx slot_count_ item.client_id = i ∧ since ≤ now

/-- The limiter tracks the reference bucket, and every packet of the type that was dispatched or
may still be dispatched was paid for. -/
structure Paced (slot_count_ : Nat) (type : Bytes) (k : UInt64) (rule : RateLimitRule) (wait now : ℚ)
    (w : Watch) (charges : List (Charge ℚ)) : Prop where
  tracks : RateLimiter.Tracks (bytes "ao:" ++ type) (AOServer.of_uint64 k) rule now
    (w.pool.rate_limiter_, charges)
  placed : Placed slot_count_ now w.pool
  paid : ∀ start stop, ((served_between type k w start stop +
    pending slot_count_ type k w.pool (start - wait) stop : Nat) : ℚ) ≤
      spent charges (start - wait) stop

theorem Placed.mono (placed : Placed slot_count_ now pool) (le : now ≤ later) :
    Placed slot_count_ later pool :=
  ⟨placed.queue, fun i since item held =>
    ⟨(placed.item i since item held).1, (placed.item i since item held).2.trans le⟩⟩

theorem Placed.set_slot (placed : Placed slot_count_ now pool) {i : Nat} {slot : WsSlot}
    (queue : ∀ item ∈ slot.queue, slot_idx slot_count_ item.client_id = i)
    (item : ∀ since item, slot.item = some (since, item) →
      slot_idx slot_count_ item.client_id = i ∧ since ≤ now) :
    Placed slot_count_ now (pool.set_slot i slot) := by
  constructor
  · intro j
    by_cases here : j = i
    · subst here
      simpa [WsWorkerPool.set_slot] using queue
    · simpa [WsWorkerPool.set_slot, here] using placed.queue j
  · intro j
    by_cases here : j = i
    · subst here
      simpa [WsWorkerPool.set_slot] using item
    · simpa [WsWorkerPool.set_slot, here] using placed.item j

/-- A step that dispatches nothing and pays for what it lets through. -/
theorem Paced.quiet {e : Event} {charges' : List (Charge ℚ)}
    (paced : Paced slot_count_ type k rule wait now w charges)
    (same : (w.pool.step deps slot_count_ now e).ao_.dispatched = w.pool.ao_.dispatched)
    (tracks : RateLimiter.Tracks (bytes "ao:" ++ type) (AOServer.of_uint64 k) rule now
      ((w.pool.step deps slot_count_ now e).rate_limiter_, charges'))
    (placed : Placed slot_count_ now (w.pool.step deps slot_count_ now e))
    (pays : ∀ start stop,
      (pending slot_count_ type k (w.pool.step deps slot_count_ now e) start stop : ℚ) +
          spent charges start stop ≤
        pending slot_count_ type k w.pool start stop + spent charges' start stop) :
    Paced slot_count_ type k rule wait now (watch deps slot_count_ w (now, e)) charges' := by
  refine ⟨tracks, placed, fun start stop => ?_⟩
  have served : (watch deps slot_count_ w (now, e)).served = w.served := by
    simp [watch, same]
  have before := paced.paid start stop
  have added := pays (start - wait) stop
  rw [served_between, served, ← served_between]
  push_cast at before ⊢
  show _ + (pending slot_count_ type k (w.pool.step deps slot_count_ now e) (start - wait) stop : ℚ) ≤ _
  linarith

theorem pending_of_slots {pool' : WsWorkerPool} (same : ∀ i, (pool'.slots_ i).item = (pool.slots_ i).item)
    (start stop : ℚ) :
    pending slot_count_ type k pool' start stop = pending slot_count_ type k pool start stop := by
  unfold pending
  rw [same]

theorem pending_set_slot (i : Nat) (slot : WsSlot) (start stop : ℚ) :
    pending slot_count_ type k (pool.set_slot i slot) start stop =
      if i = slot_idx slot_count_ k then owed type k start stop slot.item
      else pending slot_count_ type k pool start stop := by
  unfold pending
  by_cases here : i = slot_idx slot_count_ k
  · subst here
    simp [set_slot]
  · simp [set_slot, here, Ne.symm here]

theorem Paced.idle {e : Event} {charges' : List (Charge ℚ)}
    (paced : Paced slot_count_ type k rule wait now w charges)
    (same : (w.pool.step deps slot_count_ now e).ao_.dispatched = w.pool.ao_.dispatched)
    (tracks : RateLimiter.Tracks (bytes "ao:" ++ type) (AOServer.of_uint64 k) rule now
      ((w.pool.step deps slot_count_ now e).rate_limiter_, charges'))
    (queue : ∀ i, ∀ item ∈ ((w.pool.step deps slot_count_ now e).slots_ i).queue,
      slot_idx slot_count_ item.client_id = i)
    (items : ∀ i, ((w.pool.step deps slot_count_ now e).slots_ i).item = (w.pool.slots_ i).item)
    (more : ∀ start stop, spent charges start stop ≤ spent charges' start stop) :
    Paced slot_count_ type k rule wait now (watch deps slot_count_ w (now, e)) charges' := by
  refine paced.quiet same tracks ⟨queue, fun i since item held => ?_⟩ fun start stop => ?_
  · exact paced.placed.item i since item ((items i).symm.trans held)
  · rw [pending_of_slots items]
    exact add_le_add_right (more start stop) _

theorem Paced.frame (paced : Paced slot_count_ type k rule wait now w charges)
    (filling : 0 ≤ rule.rate) (full : 0 ≤ rule.burst) (client_id : UInt64) (data : Bytes) :
    ∃ charges', Paced slot_count_ type k rule wait now
      (watch deps slot_count_ w (now, .frame client_id data)) charges' := by
  obtain ⟨first, tracked, more, -⟩ := paced.tracks.call filling full (bytes "ws_frame")
    (AOServer.of_uint64 client_id) zero_le_one
  obtain ⟨second, tracked', more', -⟩ := tracked.call filling full (bytes "ws_bytes")
    (AOServer.of_uint64 client_id) (Nat.cast_nonneg data.length)
  have result : (w.pool.step deps slot_count_ now (.frame client_id data)) =
      w.pool.enqueue slot_count_ now client_id data := rfl
  by_cases framed : (w.pool.rate_limiter_.allow now (bytes "ws_frame")
      (AOServer.of_uint64 client_id)).1 = true
  · by_cases sized : ((w.pool.rate_limiter_.allow now (bytes "ws_frame")
        (AOServer.of_uint64 client_id)).2.allow now (bytes "ws_bytes")
          (AOServer.of_uint64 client_id) data.length).1 = true
    · have queued := result
      unfold enqueue at queued
      simp only [framed, sized, Bool.not_true, Bool.false_eq_true, if_false] at queued
      refine ⟨second, paced.idle (by rw [queued]; rfl) (by rw [queued]; exact tracked') ?_ ?_
        fun start stop => (more start stop).trans (more' start stop)⟩
      · intro i item member
        rw [queued] at member
        by_cases here : i = slot_idx slot_count_ client_id
        · subst here
          simp only [set_slot, Function.update_self, List.mem_append, List.mem_singleton] at member
          rcases member with old | rfl
          · exact paced.placed.queue _ item old
          · rfl
        · simp only [set_slot, ne_eq, here, not_false_eq_true, Function.update_of_ne] at member
          exact paced.placed.queue i item member
      · intro i
        rw [queued]
        by_cases here : i = slot_idx slot_count_ client_id
        · subst here
          simp [set_slot]
        · simp [set_slot, here]
    · have dropped := result
      unfold enqueue at dropped
      simp only [framed, sized, Bool.not_true, Bool.not_false, Bool.false_eq_true, if_false,
        if_true] at dropped
      exact ⟨second, paced.idle (by rw [dropped]) (by rw [dropped]; exact tracked')
        (by rw [dropped]; exact paced.placed.queue) (by rw [dropped]; exact fun i => rfl)
        fun start stop => (more start stop).trans (more' start stop)⟩
  · have dropped := result
    unfold enqueue at dropped
    simp only [framed, Bool.not_false, if_true] at dropped
    exact ⟨first, paced.idle (by rw [dropped]) (by rw [dropped]; exact tracked)
      (by rw [dropped]; exact paced.placed.queue) (by rw [dropped]; exact fun i => rfl) more⟩

theorem owed_le_spent {item : WsWorkItem} {charges' : List (Charge ℚ)}
    (more : ∀ start stop, spent charges start stop ≤ spent charges' start stop)
    (charged : item.client_id = k → pkt_type item.data = some type → charges' = ⟨now, 1⟩ :: charges)
    (start stop : ℚ) :
    (owed type k start stop (some (now, item)) : ℚ) + spent charges start stop ≤
      spent charges' start stop := by
  unfold owed
  by_cases due : item.client_id = k ∧ pkt_type item.data = some type ∧ start ≤ now ∧ now ≤ stop
  · dsimp only
    rw [if_pos due, charged due.1 due.2.1, spent_cons, if_pos due.2.2, Nat.cast_one]
  · dsimp only
    rw [if_neg due, Nat.cast_zero, zero_add]
    exact more start stop

theorem Paced.taken {i : Nat} {item : WsWorkItem} {queue : List WsWorkItem} {limiter : RateLimiter}
    {held : Option (ℚ × WsWorkItem)} {charges' : List (Charge ℚ)}
    (paced : Paced slot_count_ type k rule wait now w charges)
    (idle : (w.pool.slots_ i).item = none) (waiting : (w.pool.slots_ i).queue = item :: queue)
    (result : w.pool.step deps slot_count_ now (.take i) =
      { w.pool with rate_limiter_ := limiter }.set_slot i ⟨queue, held⟩)
    (tracks : RateLimiter.Tracks (bytes "ao:" ++ type) (AOServer.of_uint64 k) rule now
      (limiter, charges'))
    (same : ∀ since other, held = some (since, other) → since = now ∧ other = item)
    (pays : ∀ start stop, (owed type k start stop held : ℚ) + spent charges start stop ≤
      spent charges' start stop)
    (more : ∀ start stop, spent charges start stop ≤ spent charges' start stop) :
    Paced slot_count_ type k rule wait now (watch deps slot_count_ w (now, .take i)) charges' := by
  have here : ∀ other ∈ item :: queue, slot_idx slot_count_ other.client_id = i := by
    rw [← waiting]
    exact paced.placed.queue i
  have placed : Placed slot_count_ now { w.pool with rate_limiter_ := limiter } :=
    ⟨paced.placed.queue, paced.placed.item⟩
  refine paced.quiet (by rw [result]; rfl) (by rw [result]; exact tracks) ?_ fun start stop => ?_
  · rw [result]
    refine placed.set_slot (fun other member => here other (List.mem_cons_of_mem _ member)) ?_
    intro since other lifted
    obtain ⟨rfl, rfl⟩ := same since other lifted
    exact ⟨here _ List.mem_cons_self, le_refl _⟩
  · rw [result, pending_set_slot]
    by_cases own : i = slot_idx slot_count_ k
    · have nothing : pending slot_count_ type k w.pool start stop = 0 := by
        unfold pending
        rw [← own, idle, owed]
      rw [if_pos own, nothing, Nat.cast_zero, zero_add]
      exact pays start stop
    · rw [if_neg own]
      exact add_le_add_right (more start stop) _

theorem Paced.take (paced : Paced slot_count_ type k rule wait now w charges)
    (filling : 0 ≤ rule.rate) (full : 0 ≤ rule.burst) (i : Nat) :
    ∃ charges', Paced slot_count_ type k rule wait now
      (watch deps slot_count_ w (now, .take i)) charges' := by
  have result : w.pool.step deps slot_count_ now (.take i) = w.pool.take now i := rfl
  unfold WsWorkerPool.take at result
  split at result
  · next item queue idle waiting =>
    cases typed : pkt_type item.data with
    | none =>
      simp only [typed] at result
      refine ⟨charges, paced.taken idle waiting result paced.tracks ?_ ?_ fun _ _ => le_refl _⟩
      · rintro since other ⟨⟩
        exact ⟨rfl, rfl⟩
      · refine owed_le_spent (fun _ _ => le_refl _) fun _ other => ?_
        rw [typed] at other
        cases other
    | some asked =>
      simp only [typed] at result
      obtain ⟨charges', tracks, more, charged⟩ := paced.tracks.call filling full
        (bytes "ao:" ++ asked) (AOServer.of_uint64 item.client_id) zero_le_one
      refine ⟨charges', paced.taken idle waiting result tracks ?_ ?_ more⟩
      · intro since other lifted
        split at lifted
        · cases lifted
          exact ⟨rfl, rfl⟩
        · cases lifted
      · intro start stop
        split
        · next allowed =>
          refine owed_le_spent more (fun own same => ?_) start stop
          rw [typed] at same
          cases same
          exact charged allowed rfl (by rw [own])
        · rw [owed, Nat.cast_zero, zero_add]
          exact more start stop
  · exact ⟨charges, paced.idle (by rw [result]) (by rw [result]; exact paced.tracks)
      (by rw [result]; exact paced.placed.queue) (by rw [result]; exact fun i => rfl)
      fun _ _ => le_refl _⟩

theorem served_between_dispatch {i : Nat} {envs : Nat → Env} {since : ℚ} {item : WsWorkItem}
    (held : (w.pool.slots_ i).item = some (since, item)) (start stop : ℚ) :
    served_between type k (watch deps slot_count_ w (now, .dispatch i envs)) start stop =
      served_between type k w start stop +
        if start ≤ now ∧ now ≤ stop ∧ item.client_id = k then
          (completed w.pool.ao_ k item.data).countP (·.header = type) else 0 := by
  have result : (w.pool.step deps slot_count_ now (.dispatch i envs)).ao_ =
      AOServer.on_client_message deps envs w.pool.ao_ item.client_id item.data := by
    simp only [step, dispatch, held]
    rfl
  have news : (watch deps slot_count_ w (now, .dispatch i envs)).served =
      w.served ++ (completed w.pool.ao_ item.client_id item.data).map
        fun p => (now, item.client_id, p) := by
    simp only [watch, result, dispatched_on_client_message, List.drop_left, List.map_map]
    rfl
  unfold served_between
  rw [news, List.countP_append, List.countP_map]
  congr 1
  by_cases inside : start ≤ now ∧ now ≤ stop ∧ item.client_id = k
  · obtain ⟨low, high, rfl⟩ := inside
    rw [if_pos ⟨low, high, rfl⟩]
    refine List.countP_congr fun p _ => ?_
    simp [low, high]
  · rw [if_neg inside, List.countP_eq_zero]
    intro p _ counted
    simp only [Function.comp_apply, Bool.and_eq_true, decide_eq_true_eq] at counted
    exact inside ⟨counted.1.1.1, counted.1.1.2, counted.1.2⟩

theorem Paced.dispatch (paced : Paced slot_count_ type k rule wait now w charges) (i : Nat)
    (envs : Nat → Env) (guarded : Guarded type k rule wait w (now, .dispatch i envs)) :
    Paced slot_count_ type k rule wait now (watch deps slot_count_ w (now, .dispatch i envs))
      charges := by
  cases held : (w.pool.slots_ i).item with
  | none =>
    have result : w.pool.step deps slot_count_ now (.dispatch i envs) = w.pool := by
      simp only [step, WsWorkerPool.dispatch, held]
    exact paced.idle (by rw [result]) (by rw [result]; exact paced.tracks)
      (by rw [result]; exact paced.placed.queue) (by rw [result]; exact fun i => rfl)
      fun _ _ => le_refl _
  | some lifted =>
    obtain ⟨since, item⟩ := lifted
    obtain ⟨ao_, result⟩ : ∃ ao_, (watch deps slot_count_ w (now, .dispatch i envs)).pool =
        { w.pool with ao_ }.set_slot i ⟨(w.pool.slots_ i).queue, none⟩ :=
      ⟨AOServer.on_client_message deps envs w.pool.ao_ item.client_id item.data, by
        simp only [watch, step, WsWorkerPool.dispatch, held]⟩
    obtain ⟨own_slot, earlier⟩ := paced.placed.item i since item held
    refine ⟨by rw [result]; exact paced.tracks, ?_, fun start stop => ?_⟩
    · rw [result]
      have placed : Placed slot_count_ now { w.pool with ao_ } :=
        ⟨paced.placed.queue, paced.placed.item⟩
      exact placed.set_slot (paced.placed.queue i) (by rintro _ _ ⟨⟩)
    · -- what the message completes was owed for it
      refine le_trans (Nat.cast_le.mpr ?_) (paced.paid start stop)
      rw [served_between_dispatch held, result, pending_set_slot, add_assoc]
      refine Nat.add_le_add_left ?_ _
      by_cases counted : start ≤ now ∧ now ≤ stop ∧ item.client_id = k
      · obtain ⟨low, high, own⟩ := counted
        obtain ⟨soon, few⟩ := guarded since item held own
        have here : i = slot_idx slot_count_ k := by rw [← own, own_slot]
        have lower : start - wait ≤ since := by linarith
        have owes : pending slot_count_ type k w.pool (start - wait) stop =
            if pkt_type item.data = some type then 1 else 0 := by
          unfold pending
          rw [← here, held, owed]
          simp only [own, lower, earlier.trans high, true_and, and_true]
        rw [if_pos ⟨low, high, own⟩, if_pos here, owed, add_zero, owes]
        exact few
      · rw [if_neg counted, zero_add]
        split
        · exact Nat.zero_le _
        · exact le_refl _

theorem Paced.step (paced : Paced slot_count_ type k rule wait now w charges)
    (filling : 0 ≤ rule.rate) (full : 0 ≤ rule.burst) (e : Event)
    (guarded : Guarded type k rule wait w (now, e)) :
    ∃ charges', Paced slot_count_ type k rule wait now (watch deps slot_count_ w (now, e)) charges' := by
  cases e with
  | frame client_id data => exact paced.frame filling full client_id data
  | take i => exact paced.take filling full i
  | dispatch i envs => exact ⟨charges, paced.dispatch i envs guarded⟩
  | call action key =>
    obtain ⟨charges', tracks, more, -⟩ := paced.tracks.call filling full action key zero_le_one
    exact ⟨charges', paced.idle rfl tracks paced.placed.queue (fun _ => rfl) more⟩
  | sweep => exact ⟨charges, paced.idle rfl (paced.tracks.sweep filling guarded) paced.placed.queue
      (fun _ => rfl) fun _ _ => le_refl _⟩
  | outside ao_ => exact ⟨charges, paced.idle rfl paced.tracks paced.placed.queue (fun _ => rfl)
      fun _ _ => le_refl _⟩

theorem Paced.mono (paced : Paced slot_count_ type k rule wait now w charges) (le : now ≤ later) :
    Paced slot_count_ type k rule wait later w charges :=
  ⟨paced.tracks.mono le, paced.placed.mono le, paced.paid⟩

/-- The number of packets of a type that are dispatched for a client stays within the rule in
every stretch of time, `wait` included. -/
def WithinRule (type : Bytes) (k : UInt64) (rule : RateLimitRule) (wait : ℚ) (w : Watch) : Prop :=
  ∀ start L, 0 ≤ L →
    (served_between type k w start (start + L) : ℚ) ≤ rule.burst + rule.rate * (L + wait)

theorem Paced.within (paced : Paced slot_count_ type k rule wait now w charges)
    (filling : 0 ≤ rule.rate) (full : 0 ≤ rule.burst) (patient : 0 ≤ wait) :
    WithinRule type k rule wait w := by
  intro start L long
  have bound := spent_le full filling paced.tracks.admitted
    (by linarith : start - wait ≤ start + L)
  have paid := paced.paid start (start + L)
  have split : start + L - (start - wait) = L + wait := by ring
  rw [RateLimiter.reference, split] at bound
  push_cast at paid
  have pending_nonneg : (0 : ℚ) ≤ pending slot_count_ type k w.pool (start - wait) (start + L) :=
    Nat.cast_nonneg _
  exact (le_add_of_nonneg_right pending_nonneg).trans (paid.trans bound)

theorem Paced.run (paced : Paced slot_count_ type k rule wait now w charges)
    (filling : 0 ≤ rule.rate) (full : 0 ≤ rule.burst) (patient : 0 ≤ wait) {events : List (ℚ × Event)}
    (ordered : events.Pairwise fun e f => e.1 ≤ f.1) (late : ∀ e ∈ events, now ≤ e.1)
    (guarded : Throughout (watch deps slot_count_) (Guarded type k rule wait) w events) :
    Always (watch deps slot_count_) (WithinRule type k rule wait) w events := by
  refine always_timed (I := fun now w => ∃ charges, Paced slot_count_ type k rule wait now w charges)
    (fun now w ⟨_, paced⟩ => paced.within filling full patient) ?_ ⟨charges, paced⟩ ordered late guarded
  rintro now w time event ⟨charges, paced⟩ le meets
  exact (paced.mono le).step filling full event meets

/-- A pool whose limiter has rules and has not been asked yet. -/
def started (rules : List (Bytes × RateLimitRule)) (ao_ : AOServer) : Watch :=
  ⟨{ rate_limiter_ := RateLimiter.configured rules, ao_ }, []⟩

theorem paced_started {rules : List (Bytes × RateLimitRule)}
    (ruled : ((RateLimiter.configured rules).find_shard (bytes "ao:" ++ type)).map (·.rule) = some rule)
    (ao_ : AOServer) (now : ℚ) :
    Paced slot_count_ type k rule wait now (started rules ao_) [] :=
  ⟨RateLimiter.tracks_configured ruled now, ⟨fun _ _ => nofun, fun _ _ _ => nofun⟩,
    fun start stop => by simp [started, served_between, pending, owed, spent]⟩

/-- In a run whose messages hold no packet of a type that the limiter was not asked about, no
client gets more packets of the type dispatched than the rule has. -/
theorem dispatched_within_rule (deps : Deps) (slot_count_ : Nat) {rules : List (Bytes × RateLimitRule)}
    {type : Bytes} {rule : RateLimitRule}
    (ruled : ((RateLimiter.configured rules).find_shard (bytes "ao:" ++ type)).map (·.rule) = some rule)
    (filling : 0 ≤ rule.rate) (full : 0 ≤ rule.burst) (client_id : UInt64) {wait : ℚ}
    (patient : 0 ≤ wait) (ao_ : AOServer) {events : List (ℚ × Event)}
    (ordered : events.Pairwise fun e f => e.1 ≤ f.1)
    (guarded : Throughout (watch deps slot_count_) (Guarded type client_id rule wait)
      (started rules ao_) events) :
    Always (watch deps slot_count_) (WithinRule type client_id rule wait) (started rules ao_)
      events := by
  obtain ⟨first, begins⟩ := exists_first ordered
  exact (paced_started ruled ao_ first).run filling full patient ordered begins guarded

/-- One message with one packet, and the next one 2 s later. -/
def steadyTalk : List (ℚ × Event) :=
  [(0, .frame 7 (bytes "CT#a#b#%")), (0, .take 1), (0, .dispatch 1 fun _ => {}),
    (2, .frame 7 (bytes "CT#a#c#%")), (2, .take 1), (2, .dispatch 1 fun _ => {})]

theorem steady_talk_within_rule :
    Always (watch plainDeps 2) (WithinRule (bytes "CT") 7 ⟨1, 1⟩ 0)
      (started [(bytes "ao:CT", ⟨1, 1⟩)] AOServer.oneClient) steadyTalk := by
  have ruled : ((RateLimiter.configured [(bytes "ao:CT", ⟨1, 1⟩)]).find_shard
    (bytes "ao:" ++ bytes "CT")).map (·.rule) = some ⟨1, 1⟩ := by decide +kernel
  refine dispatched_within_rule plainDeps 2 ruled zero_le_one zero_le_one 7 (le_refl 0) _ ?_ ?_
  · simp only [steadyTalk, List.pairwise_cons, List.mem_cons, List.not_mem_nil, forall_eq_or_imp]
    norm_num
  · refine ⟨trivial, trivial, fun since item held _ => ?_, trivial, trivial,
      fun since item held _ => ?_, trivial⟩
    · have lifted : some (since, item) = some (0, ⟨7, bytes "CT#a#b#%"⟩) :=
        held.symm.trans (by decide +kernel)
      cases lifted
      exact ⟨by norm_num, by decide +kernel⟩
    · have lifted : some (since, item) = some (2, ⟨7, bytes "CT#a#c#%"⟩) :=
        held.symm.trans (by decide +kernel)
      cases lifted
      exact ⟨by norm_num, by decide +kernel⟩

/-- Two packets in one message. -/
def packedTalk : List (ℚ × Event) :=
  [(0, .frame 7 (bytes "CT#a#b#%CT#a#c#%")), (0, .take 1), (0, .dispatch 1 fun _ => {})]

theorem packed_talk_exceeds_rule :
    ¬ WithinRule (bytes "CT") 7 ⟨1, 1⟩ 0
      (run (watch plainDeps 2) (started [(bytes "ao:CT", ⟨1, 1⟩)] AOServer.oneClient) packedTalk) := by
  intro within
  have two : served_between (bytes "CT") 7 (run (watch plainDeps 2)
    (started [(bytes "ao:CT", ⟨1, 1⟩)] AOServer.oneClient) packedTalk) 0 (0 + 0) = 2 := by
    decide +kernel
  have bound := within 0 0 (le_refl 0)
  rw [two] at bound
  norm_num at bound

end Proof

end WsWorkerPool

end AoSdl
