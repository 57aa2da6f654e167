import AoSdl.HttpPool
import AoSdl.Lib.Places
import AoSdl.Lib.Runs
import Mathlib.Data.List.Nodup

/-! Each request of the pool is answered once. The requests with a callback are counted in all the
places where they can be: a step moves them and loses none, unless a `poll` comes to a result whose
callback is null, which only the results of HTTP/1.1 can have, or a worker to a port that is no number. -/
namespace AoSdl.HttpPool
open Lib.Places Lib.Runs

/-- The requests of a kind that are on their way to their callback, and the calls made for them. -/
def held (p : Request → Bool) (pool : HttpPool) : Nat :=
  pool.entering.countP p + pool.queued.countP p + pool.busy.countP (fun worker => p worker.2) +
    pool.h2_streams.countP p + pool.droppers.flatten.countP p + pool.result_queue_.countP (fun item => p item.request) +
    pool.pollers.flatten.countP (fun item => p item.request) +
    pool.calls.countP fun call => p call.1

section Workers

variable (p : Request → Bool) {busy : List (Stage × Request)} {i : Nat} {stage : Stage} {req : Request}

theorem countP_goes (stage' : Stage) (here : busy[i]? = some (stage, req)) :
    (busy.set i (stage', req)).countP (fun worker => p worker.2) = busy.countP fun worker => p worker.2 := by
  have moved := countP_set (fun worker : Stage × Request => p worker.2) (stage', req) here
  simp only [one_comp p Prod.snd] at moved
  omega

theorem countP_leaves (here : busy[i]? = some (stage, req)) :
    (busy.eraseIdx i).countP (fun worker => p worker.2) + one p req = busy.countP fun worker => p worker.2 :=
  countP_eraseIdx (fun worker : Stage × Request => p worker.2) here

end Workers

theorem priorities_nodup : priorities.Nodup := by decide

theorem mem_priorities (i : HttpPriority) : i ∈ priorities := by cases i <;> decide

theorem queued_update (p : Request → Bool) (queues : HttpPriority → List Request) (i : HttpPriority)
    (q : List Request) :
    (priorities.flatMap (Function.update queues i q)).countP p + (queues i).countP p =
      (priorities.flatMap queues).countP p + q.countP p :=
  countP_flatMap_update p priorities_nodup (mem_priorities i) queues q

theorem length_queued_update (queues : HttpPriority → List Request) (i : HttpPriority)
    (q : List Request) :
    (priorities.flatMap (Function.update queues i q)).length + (queues i).length =
      (priorities.flatMap queues).length + q.length := by
  have counted := queued_update (fun _ => true) queues i q
  simp only [List.countP_true] at counted
  exact counted

/-- All that the scan of the queues can do: it takes the first request of a queue, and the queues
scanned before that one are empty. -/
theorem pop_highest_some {queues rest : HttpPriority → List Request} {order : List HttpPriority}
    {req : Request} (popped : pop_highest queues order = some (req, rest)) :
    ∃ before i after q, order = before ++ i :: after ∧ (∀ j ∈ before, queues j = []) ∧
      queues i = req :: q ∧ rest = Function.update queues i q := by
  induction order with
  | nil => cases popped
  | cons i lower ih =>
    cases front : queues i with
    | nil =>
      simp only [pop_highest, front] at popped
      obtain ⟨before, k, after, q, parts, empty, found, rfl⟩ := ih popped
      exact ⟨i :: before, k, after, q, congrArg (i :: ·) parts,
        List.forall_mem_cons.mpr ⟨front, empty⟩, found, rfl⟩
    | cons out q =>
      simp only [pop_highest, front, Option.some.injEq, Prod.mk.injEq] at popped
      obtain ⟨rfl, rfl⟩ := popped
      exact ⟨[], i, lower, q, rfl, fun j member => absurd member List.not_mem_nil, front, rfl⟩

/-- Queues that were cleared into `dropped_requests`. -/
structure Cleared (queues queues' : HttpPriority → List Request) (dropped_requests : List Request) :
    Prop where
  counts : ∀ p, (priorities.flatMap queues').countP p + dropped_requests.countP p =
    (priorities.flatMap queues).countP p
  emptied : ∀ i, queues' i = [] ∨ queues' i = queues i

theorem Cleared.length {queues queues' : HttpPriority → List Request} {dropped_requests : List Request}
    (cleared : Cleared queues queues' dropped_requests) :
    (priorities.flatMap queues').length + dropped_requests.length =
      (priorities.flatMap queues).length := by
  have counted := cleared.counts fun _ => true
  rw [List.countP_true] at counted
  exact counted

theorem clear_queues (order : List HttpPriority) (pool : HttpPool) (dropped_requests : List Request) :
    ∃ queues' more, order.foldl clear_queue (pool, dropped_requests) =
      ({ pool with pending_ := pool.pending_ - more.length, work_queues_ := queues' },
        dropped_requests ++ more) ∧ Cleared pool.work_queues_ queues' more := by
  induction order generalizing pool dropped_requests with
  | nil =>
    refine ⟨pool.work_queues_, [], ?_, fun p => rfl, fun i => Or.inr rfl⟩
    simp
  | cons i order ih =>
    obtain ⟨queues', more, same, cleared⟩ := ih _ (dropped_requests ++ pool.work_queues_ i)
    refine ⟨queues', pool.work_queues_ i ++ more, ?_, fun p => ?_, fun j => ?_⟩
    · rw [List.foldl_cons, clear_queue, same, List.length_append, List.append_assoc, Nat.cast_add,
        ← sub_sub]
    · have here := queued_update p pool.work_queues_ i []
      have later := cleared.counts p
      rw [List.countP_append]
      simp only [List.countP_nil] at here later
      omega
    · rcases cleared.emptied j with empty | kept
      · exact Or.inl empty
      · by_cases this : j = i
        · subst this
          exact Or.inl (kept.trans (Function.update_self ..))
        · exact Or.inr (kept.trans (Function.update_of_ne this ..))

theorem drop_below_eq (pool : HttpPool) (threshold : HttpPriority) :
    ∃ queues' dropped_requests, pool.drop_below threshold =
      { pool with
        pending_ := pool.pending_ - dropped_requests.length
        work_queues_ := queues'
        droppers := pool.droppers ++ [dropped_requests] } ∧
      Cleared pool.work_queues_ queues' dropped_requests := by
  obtain ⟨queues', more, same, cleared⟩ := clear_queues (below threshold) pool []
  refine ⟨queues', more, ?_, cleared⟩
  rw [drop_below, same, List.nil_append]

/-- All that a step can do. -/
inductive Does (pool : HttpPool) : Event → HttpPool → Prop
  | rests {e : Event} : Does pool e pool
  | counts {e : Event} (req : Request) (next : req.id = pool.made.length) :
    Does pool e
      { pool with
        pending_ := pool.pending_ + 1
        entering := pool.entering ++ [req]
        made := pool.made ++ [req] }
  | queues {i : Nat} {req : Request} (here : pool.entering[i]? = some req) :
    Does pool (.enqueue i)
      { pool with
        entering := pool.entering.eraseIdx i
        work_queues_ := Function.update pool.work_queues_ req.priority
          (pool.work_queues_ req.priority ++ [req]) }
  | pops {i : HttpPriority} {req : Request} {q : List Request}
    (front : pool.work_queues_ i = req :: q) :
    Does pool .pop
      { pool with
        work_queues_ := Function.update pool.work_queues_ i q
        idle := pool.idle - 1
        busy := pool.busy ++ [(req.first_stage, req)] }
  | goes_on {e : Event} {i : Nat} {stage stage' : Stage} {req : Request}
    {connections failed eligible connecting : Finset Bytes} (here : pool.busy[i]? = some (stage, req)) :
    Does pool e
      { pool with
        busy := pool.busy.set i (stage', req)
        h2_connections_ := connections
        h2_failed_hosts_ := failed
        h2_eligible_hosts_ := eligible
        h2_connecting_hosts_ := connecting }
  | breaks {i : Nat} {conn : Bool} {req : Request} (here : pool.busy[i]? = some (.connecting, req))
    (tls : ¬ (bytes "http://").isPrefixOf req.host = true) (bad : parse_host req.host = none) :
    Does pool (.connect i conn) { pool with ended := true }
  | streams {i : Nat} {resp : HttpResponse} {req : Request}
    (here : pool.busy[i]? = some (.answered resp, req)) (there : req.callback = true) :
    Does pool (.complete i)
      { pool with
        busy := pool.busy.eraseIdx i
        finishing := pool.finishing + 1
        calls := pool.calls ++ [(req, resp)] }
  | streams_unheard {i : Nat} {resp : HttpResponse} {req : Request}
    (here : pool.busy[i]? = some (.answered resp, req)) (null : ¬ req.callback = true) :
    Does pool (.complete i)
      { pool with busy := pool.busy.eraseIdx i, finishing := pool.finishing + 1 }
  | answers {i : Nat} {resp : HttpResponse} {req : Request}
    (here : pool.busy[i]? = some (.answered resp, req)) :
    Does pool (.complete i)
      { pool with
        busy := pool.busy.eraseIdx i
        finishing := pool.finishing + 1
        result_queue_ := pool.result_queue_ ++ [⟨resp, req⟩] }
  | finishes (working : pool.finishing ≠ 0) :
    Does pool .finish
      { pool with
        pending_ := pool.pending_ - 1
        finishing := pool.finishing - 1
        idle := pool.idle + 1 }
  | opens {i : Nat} {req : Request} (here : pool.busy[i]? = some (.h2, req)) :
    Does pool (.submit_h2 i)
      { pool with
        busy := pool.busy.eraseIdx i
        idle := pool.idle + 1
        h2_streams := pool.h2_streams ++ [req] }
  | closes {i : Nat} {resp : HttpResponse} {req : Request} (here : pool.h2_streams[i]? = some req) :
    Does pool (.h2_done i resp)
      { pool with
        h2_streams := pool.h2_streams.eraseIdx i
        h2_finishing := pool.h2_finishing + 1
        result_queue_ := pool.result_queue_ ++ [⟨resp, req⟩] }
  | closes_unheard {i : Nat} {resp : HttpResponse} {req : Request}
    (here : pool.h2_streams[i]? = some req) (null : ¬ req.callback = true) :
    Does pool (.h2_done i resp)
      { pool with
        h2_streams := pool.h2_streams.eraseIdx i
        h2_finishing := pool.h2_finishing + 1 }
  | ends (closing : pool.h2_finishing ≠ 0) :
    Does pool .h2_finish
      { pool with pending_ := pool.pending_ - 1, h2_finishing := pool.h2_finishing - 1 }
  | drops {threshold : HttpPriority} {queues' : HttpPriority → List Request}
    {dropped_requests : List Request} (cleared : Cleared pool.work_queues_ queues' dropped_requests) :
    Does pool (.drop_below threshold)
      { pool with
        pending_ := pool.pending_ - dropped_requests.length
        work_queues_ := queues'
        droppers := pool.droppers ++ [dropped_requests] }
  | leaves_drops {i : Nat} (here : pool.droppers[i]? = some []) :
    Does pool (.fire i) { pool with droppers := pool.droppers.eraseIdx i }
  | fires {i : Nat} {req : Request} {rest : List Request} (here : pool.droppers[i]? = some (req :: rest))
    (there : req.callback = true) :
    Does pool (.fire i)
      { pool with droppers := pool.droppers.set i rest, calls := pool.calls ++ [(req, dropped)] }
  | fires_unheard {i : Nat} {req : Request} {rest : List Request}
    (here : pool.droppers[i]? = some (req :: rest)) (null : ¬ req.callback = true) :
    Does pool (.fire i) { pool with droppers := pool.droppers.set i rest }
  | polls : Does pool .poll { pool with result_queue_ := [], pollers := pool.pollers ++ [pool.result_queue_] }
  | leaves_poll {i : Nat} (here : pool.pollers[i]? = some []) :
    Does pool (.deliver i) { pool with pollers := pool.pollers.eraseIdx i }
  | delivers {i : Nat} {item : CompletedRequest} {batch : List CompletedRequest}
    (here : pool.pollers[i]? = some (item :: batch)) (there : item.request.callback = true) :
    Does pool (.deliver i)
      { pool with
        pollers := pool.pollers.set i batch
        calls := pool.calls ++ [(item.request, item.response)] }
  | throws {i : Nat} {item : CompletedRequest} {batch : List CompletedRequest}
    (here : pool.pollers[i]? = some (item :: batch)) (null : ¬ item.request.callback = true) :
    Does pool (.deliver i) { pool with pollers := pool.pollers.eraseIdx i }

theorem does_pop (pool : HttpPool) : Does pool .pop pool.pop := by
  unfold pop
  split
  · exact .rests
  · cases popped : pop_highest pool.work_queues_ priorities with
    | none => exact .rests
    | some found =>
      obtain ⟨req, rest⟩ := found
      obtain ⟨before, i, after, q, _, _, front, rfl⟩ := pop_highest_some popped
      exact .pops front

theorem does_get_h2 (pool : HttpPool) (i : Nat) (is_alive : Bool) :
    Does pool (.get_h2 i is_alive) (pool.get_h2 i is_alive) := by
  unfold get_h2
  split
  · next req here =>
    dsimp only
    split
    · exact .goes_on here
    · split
      · exact .goes_on here
      · split
        · exact .goes_on here
        · exact .goes_on here
  · exact .rests

theorem does_connect (pool : HttpPool) (i : Nat) (conn : Bool) :
    Does pool (.connect i conn) (pool.connect i conn) := by
  unfold connect
  split
  · next req here =>
    dsimp only
    split
    · exact .goes_on here
    · next tls =>
      split
      · next bad => exact .breaks here tls bad
      · split
        · exact .goes_on here
        · exact .goes_on here
  · exact .rests

theorem does_h1 (pool : HttpPool) (i : Nat) (outcome : Outcome) :
    Does pool (.h1 i outcome) (pool.h1 i outcome) := by
  unfold h1
  split
  · next req here =>
    dsimp only
    unfold mark_h2_eligible
    split
    · split
      · exact .goes_on here
      · exact .goes_on here
    · exact .goes_on here
  · exact .rests

theorem does_complete (pool : HttpPool) (i : Nat) : Does pool (.complete i) (pool.complete i) := by
  unfold complete
  split
  · next resp req here =>
    dsimp only
    split
    · split
      · next there => exact .streams here there
      · next null => exact .streams_unheard here null
    · exact .answers here
  · exact .rests

theorem does_submit_h2 (pool : HttpPool) (i : Nat) : Does pool (.submit_h2 i) (pool.submit_h2 i) := by
  unfold submit_h2
  split
  · next req here => exact .opens here
  · exact .rests

theorem does_h2_done (pool : HttpPool) (i : Nat) (resp : HttpResponse) :
    Does pool (.h2_done i resp) (pool.h2_done i resp) := by
  unfold h2_done
  cases here : pool.h2_streams[i]? with
  | none => exact .rests
  | some req =>
    dsimp only
    split
    · exact .closes here
    · next null => exact .closes_unheard here null

theorem does_fire (pool : HttpPool) (i : Nat) : Does pool (.fire i) (pool.fire i) := by
  unfold fire
  cases here : pool.droppers[i]? with
  | none => exact .rests
  | some requests =>
    cases requests with
    | nil => exact .leaves_drops here
    | cons req rest =>
      dsimp only
      split
      · next there => exact .fires here there
      · next null => exact .fires_unheard here null

theorem does_deliver (pool : HttpPool) (i : Nat) : Does pool (.deliver i) (pool.deliver i) := by
  unfold deliver
  cases here : pool.pollers[i]? with
  | none => exact .rests
  | some batch =>
    cases batch with
    | nil => exact .leaves_poll here
    | cons item batch =>
      dsimp only
      split
      · next there => exact .delivers here there
      · next null => exact .throws here null

theorem does_act (pool : HttpPool) (e : Event) : Does pool e (pool.act e) := by
  cases e with
  | get host path cb priority => exact .counts _ rfl
  | get_streaming host path on_chunk cb priority => exact .counts _ rfl
  | enqueue i =>
    rw [act, enqueue]
    cases here : pool.entering[i]? with
    | none => exact .rests
    | some req => exact .queues here
  | pop => exact does_pop pool
  | get_h2 i is_alive => exact does_get_h2 pool i is_alive
  | connect i conn => exact does_connect pool i conn
  | h1 i outcome => exact does_h1 pool i outcome
  | complete i => exact does_complete pool i
  | finish =>
    rw [act, finish]
    split
    · exact .rests
    · next working => exact .finishes working
  | submit_h2 i => exact does_submit_h2 pool i
  | h2_done i resp => exact does_h2_done pool i resp
  | h2_finish =>
    rw [act, h2_finish]
    split
    · exact .rests
    · next closing => exact .ends closing
  | drop_below threshold =>
    obtain ⟨queues', dropped_requests, same, cleared⟩ := drop_below_eq pool threshold
    rw [act, same]
    exact .drops cleared
  | fire i => exact does_fire pool i
  | poll => exact .polls
  | deliver i => exact does_deliver pool i

theorem does_step (pool : HttpPool) (e : Event) : Does pool e (pool.step e) := by
  unfold step
  split
  · exact .rests
  · exact does_act pool e

/-- The host to which a worker is about to connect. -/
def connecting_host (pool : HttpPool) (i : Nat) : Option Bytes :=
  match pool.busy[i]? with
  | some (.connecting, req) => some req.host
  | _ => none

/-- No call of `poll` comes to a result without a callback, and no worker connects to a host with a port
that `stoi` refuses. -/
def Called (pool : HttpPool) : Event → Prop
  | .deliver i => ∀ item ∈ (pool.pollers[i]?.getD []).head?, item.request.callback = true
  | .connect i _ => ∀ host ∈ pool.connecting_host i,
      (bytes "http://").isPrefixOf host = true ∨ (parse_host host).isSome = true
  | _ => True

section Steps

variable {pool next : HttpPool} {e : Event} (does : Does pool e next)
include does

/-- A step moves the requests of a kind and loses none, unless a `poll` throws. -/
theorem Does.held (called : pool.Called e) (p : Request → Bool)
    (with_callback : ∀ req, p req = true → req.callback = true) :
    HttpPool.held p next + pool.made.countP p = HttpPool.held p pool + next.made.countP p := by
  unfold HttpPool.held queued
  have uncounted : ∀ req : Request, ¬ req.callback = true → one p req = 0 := fun req null =>
    one_of_not p (mt (with_callback req) null)
  cases does with
  | rests => rfl
  | finishes | ends | breaks => rfl
  | goes_on here =>
    dsimp only
    rw [countP_goes p _ here]
  | counts req =>
    simp only [countP_snoc]
    omega
  | @queues i req here =>
    have left := countP_eraseIdx p here
    have moved := queued_update p pool.work_queues_ req.priority
      (pool.work_queues_ req.priority ++ [req])
    rw [countP_snoc] at moved
    dsimp only
    omega
  | @pops i req q front =>
    have moved := queued_update p pool.work_queues_ i q
    rw [front, countP_cons] at moved
    simp only [countP_snoc, one_comp p Prod.snd]
    omega
  | streams here =>
    have left := countP_leaves p here
    simp only [countP_snoc, one_comp p Prod.fst]
    omega
  | streams_unheard here null =>
    have left := countP_leaves p here
    have nothing := uncounted _ null
    dsimp only
    omega
  | closes_unheard here null =>
    have left := countP_eraseIdx p here
    have nothing := uncounted _ null
    dsimp only
    omega
  | answers here =>
    have left := countP_leaves p here
    simp only [countP_snoc, one_comp p CompletedRequest.request]
    omega
  | closes here =>
    have left := countP_eraseIdx p here
    simp only [countP_snoc, one_comp p CompletedRequest.request]
    omega
  | opens here =>
    have left := countP_leaves p here
    simp only [countP_snoc]
    omega
  | drops cleared =>
    have moved := cleared.counts p
    simp only [List.flatten_append, List.flatten_cons, List.flatten_nil, List.append_nil,
      List.countP_append]
    omega
  | leaves_drops here =>
    have left := countP_flatten_eraseIdx p here
    rw [List.countP_nil] at left
    dsimp only
    omega
  | fires here =>
    have left := countP_flatten_tail p here
    simp only [countP_snoc, one_comp p Prod.fst]
    omega
  | fires_unheard here null =>
    have left := countP_flatten_tail p here
    have nothing := uncounted _ null
    dsimp only
    omega
  | polls =>
    simp only [List.flatten_append, List.flatten_cons, List.flatten_nil, List.append_nil,
      List.countP_append, List.countP_nil]
    omega
  | leaves_poll here =>
    have left := countP_flatten_eraseIdx (fun item : CompletedRequest => p item.request) here
    rw [List.countP_nil] at left
    dsimp only
    omega
  | delivers here =>
    have left := countP_flatten_tail (fun item : CompletedRequest => p item.request) here
    simp only [countP_snoc, one_comp p Prod.fst, one_comp p CompletedRequest.request] at left ⊢
    omega
  | throws here null => exact absurd (called _ (by simp [here])) null

theorem Does.counted (counted : pool.pending_ = pool.queued.length + pool.in_flight) :
    next.pending_ = next.queued.length + next.in_flight := by
  unfold queued in_flight at counted ⊢
  cases does with
  | rests | breaks | leaves_drops | fires | fires_unheard | polls | leaves_poll | delivers | throws =>
    exact counted
  | goes_on here =>
    dsimp only
    rw [List.length_set]
    exact counted
  | counts =>
    simp only [List.length_append, List.length_singleton]
    omega
  | @queues i req here =>
    have left := length_eraseIdx here
    have moved := length_queued_update pool.work_queues_ req.priority
      (pool.work_queues_ req.priority ++ [req])
    rw [List.length_append, List.length_singleton] at moved
    dsimp only
    omega
  | @pops i req q front =>
    have moved := length_queued_update pool.work_queues_ i q
    rw [front, List.length_cons] at moved
    simp only [List.length_append, List.length_singleton]
    omega
  | streams here | streams_unheard here | answers here | closes here | closes_unheard here =>
    have left := length_eraseIdx here
    dsimp only
    omega
  | opens here =>
    have left := length_eraseIdx here
    simp only [List.length_append, List.length_singleton]
    omega
  | finishes | ends =>
    dsimp only
    omega
  | drops cleared =>
    have moved := cleared.length
    dsimp only
    omega

theorem Does.numbered (numbered : pool.made.map Request.id = List.range pool.made.length) :
    next.made.map Request.id = List.range next.made.length := by
  cases does with
  | counts req next =>
    rw [List.map_append, numbered, List.length_append, List.length_singleton, List.range_succ,
      List.map_singleton, next]
  | _ => exact numbered

theorem Does.real (real : ∀ call ∈ pool.calls, call.1.callback = true) :
    ∀ call ∈ next.calls, call.1.callback = true := by
  cases does with
  | streams _ there | fires _ there | delivers _ there =>
    exact List.forall_mem_append.mpr ⟨real, List.forall_mem_singleton.mpr there⟩
  | _ => exact real

theorem Does.placed (placed : ∀ i, ∀ req ∈ pool.work_queues_ i, req.priority = i) :
    ∀ i, ∀ req ∈ next.work_queues_ i, req.priority = i := by
  have update : ∀ k q, (∀ req ∈ q, req.priority = k) →
      ∀ i, ∀ req ∈ Function.update pool.work_queues_ k q i, req.priority = i := by
    intro k q own i
    by_cases same : i = k
    · rw [same, Function.update_self]
      exact own
    · rw [Function.update_of_ne same]
      exact placed i
  cases does with
  | queues =>
    exact update _ _ (List.forall_mem_append.mpr ⟨placed _, List.forall_mem_singleton.mpr rfl⟩)
  | pops front =>
    exact update _ _ fun req member => placed _ req (front ▸ List.mem_cons_of_mem _ member)
  | @drops _ queues' _ cleared =>
    intro i req (member : req ∈ queues' i)
    rcases cleared.emptied i with empty | kept
    · rw [empty] at member
      cases member
    · rw [kept] at member
      exact placed i req member
  | _ => exact placed

/-- The process ends only at a port that is no number. -/
theorem Does.running (running : pool.ended = false) (called : pool.Called e) : next.ended = false := by
  cases does with
  | @breaks i conn req here tls bad =>
    have host : pool.connecting_host i = some req.host := by
      unfold connecting_host
      rw [here]
    rcases called _ host with plain | number
    · exact absurd plain tls
    · rw [bad] at number
      cases number
  | _ => exact running

end Steps

structure Invariant (pool : HttpPool) : Prop where
  running : pool.ended = false
  numbered : pool.made.map Request.id = List.range pool.made.length
  balanced : ∀ p : Request → Bool, (∀ req, p req = true → req.callback = true) →
    held p pool = pool.made.countP p
  counted : pool.pending_ = pool.queued.length + pool.in_flight
  placed : ∀ i, ∀ req ∈ pool.work_queues_ i, req.priority = i
  real : ∀ call ∈ pool.calls, call.1.callback = true

theorem invariant_start (num_threads : Nat) : Invariant (start num_threads) where
  running := rfl
  numbered := rfl
  balanced := fun _ _ => rfl
  counted := rfl
  placed := fun _ _ member => absurd member List.not_mem_nil
  real := fun _ member => absurd member List.not_mem_nil

theorem invariant_step (pool : HttpPool) (e : Event) (inv : Invariant pool)
    (called : pool.Called e) : Invariant (pool.step e) where
  running := (does_step pool e).running inv.running called
  numbered := (does_step pool e).numbered inv.numbered
  balanced := by
    intro p with_callback
    have before := inv.balanced p with_callback
    have moved := (does_step pool e).held called p with_callback
    omega
  counted := (does_step pool e).counted inv.counted
  placed := (does_step pool e).placed inv.placed
  real := (does_step pool e).real inv.real

theorem Invariant.count_made_le {pool : HttpPool} (inv : Invariant pool) (req : Request) :
    (pool.made.countP fun r => r = req) ≤ 1 := by
  have distinct : pool.made.Nodup := by
    refine List.Nodup.of_map Request.id ?_
    rw [inv.numbered]
    exact List.nodup_range
  exact List.nodup_iff_count_le_one.mp distinct req

/-- The callbacks of `req` that have been called are among the callbacks there are. -/
theorem Invariant.held_eq {pool : HttpPool} (inv : Invariant pool) {req : Request}
    (there : req.callback = true) :
    held (fun r => r = req) pool = pool.made.countP fun r => r = req := by
  refine inv.balanced _ fun r same => ?_
  rw [of_decide_eq_true same]
  exact there

theorem Invariant.at_most_once {pool : HttpPool} (inv : Invariant pool) (req : Request) :
    pool.answers req ≤ 1 := by
  by_cases there : req.callback = true
  · have all := inv.held_eq there
    have once := inv.count_made_le req
    simp only [held] at all
    rw [answers]
    omega
  · have never : pool.answers req = 0 := by
      refine List.countP_eq_zero.mpr fun call member same => there ?_
      rw [← of_decide_eq_true same]
      exact inv.real call member
    omega

theorem Invariant.exactly_once {pool : HttpPool} (inv : Invariant pool) (idle : pool.Idle)
    {req : Request} (made : req ∈ pool.made) (there : req.callback = true) :
    pool.answers req = 1 := by
  have all := inv.held_eq there
  have once := inv.count_made_le req
  have some_made : 0 < pool.made.countP fun r => r = req :=
    List.countP_pos_iff.mpr ⟨req, made, decide_eq_true rfl⟩
  simp only [held, idle.entered, idle.queues, idle.workers.1, idle.streams.1, idle.drops,
    idle.results, idle.polled, List.countP_nil] at all
  rw [answers]
  omega

/-- The higher queues are scanned first. -/
theorem mem_before {before after : List HttpPriority} {i j : HttpPriority}
    (order : priorities = before ++ i :: after) (higher : i.idx < j.idx) : j ∈ before := by
  have sorted : priorities.Pairwise fun i j => j.idx < i.idx := by decide
  have listed := mem_priorities j
  rw [order] at sorted listed
  rcases List.mem_append.mp listed with first | later
  · exact first
  · have lower := (List.pairwise_cons.mp (List.pairwise_append.mp sorted).2.1).1
    rcases List.mem_cons.mp later with same | after
    · rw [same] at higher
      omega
    · have := lower j after
      omega

theorem Invariant.highest_first {pool : HttpPool} (inv : Invariant pool) {req : Request}
    {rest : HttpPriority → List Request}
    (popped : pop_highest pool.work_queues_ priorities = some (req, rest)) {i : HttpPriority}
    (higher : req.priority.idx < i.idx) : pool.work_queues_ i = [] := by
  obtain ⟨before, k, after, q, order, empty, front, _⟩ := pop_highest_some popped
  have own : req.priority = k := inv.placed k req (front ▸ List.mem_cons_self)
  rw [own] at higher
  exact empty i (mem_before order higher)

theorem Invariant.answers_all {pool : HttpPool} (inv : Invariant pool) : pool.Answers where
  at_most_once := inv.at_most_once
  exactly_once := fun quiet _ made there => by
    have idle : pool.Idle := quiet.resolve_left (by simp [inv.running])
    exact inv.exactly_once idle made there
  counted := inv.counted
  highest_first := fun _ _ popped _ higher => inv.highest_first popped higher

instance decidableCalled (pool : HttpPool) : (e : Event) → Decidable (pool.Called e)
  | .deliver i => inferInstanceAs
      (Decidable (∀ item ∈ (pool.pollers[i]?.getD []).head?, item.request.callback = true))
  | .connect i _ => inferInstanceAs (Decidable (∀ host ∈ pool.connecting_host i,
      (bytes "http://").isPrefixOf host = true ∨ (parse_host host).isSome = true))
  | .get .. | .get_streaming .. | .enqueue _ | .pop | .get_h2 .. | .h1 .. | .complete _ | .finish
  | .submit_h2 _ | .h2_done .. | .h2_finish | .drop_below _ | .fire _ | .poll =>
    inferInstanceAs (Decidable True)

def host : Bytes := bytes "https://a:8443"

/-- A request that streams, one over HTTP/1.1, one over HTTP/2, and one that is dropped. -/
def every_way : List Event :=
  [.get host [] true .HIGH, .enqueue 0, .get_streaming host [] true true .CRITICAL, .enqueue 0, .pop,
    .h1 0 (.answered 206 []), .complete 0, .finish, .pop, .get_h2 0 true, .connect 0 false,
    .h1 0 (.failed []), .complete 0, .get [] [] true .LOW, .enqueue 0, .get [] [] true .NORMAL, .enqueue 0,
    .finish, .pop, .get_h2 0 true, .h1 0 (.answered 200 []), .complete 0, .finish, .get [] [] true .HIGH,
    .enqueue 0, .pop, .get_h2 0 true, .connect 0 true, .submit_h2 0, .drop_below .NORMAL, .fire 0, .fire 0,
    .h2_done 0 { status := 200 }, .h2_finish, .poll, .deliver 0, .deliver 0, .deliver 0, .deliver 0]

/-- The result of the second request is in the batch of the first, whose callback is null. -/
def null_first : List Event :=
  [.get [] [] false .NORMAL, .get [] [] true .NORMAL, .enqueue 0, .enqueue 0, .pop, .get_h2 0 true,
    .h1 0 (.answered 200 []), .complete 0, .finish, .pop, .get_h2 0 true, .connect 0 false,
    .h1 0 (.answered 200 []), .complete 0, .finish, .poll, .deliver 0]

/-- An address that HTTP/1.1 reaches; behind its first colon there is no number. -/
def ipv6 : Bytes := bytes "https://[::1]:8443"

/-- The host is eligible for HTTP/2 after the first request. -/
def bad_port : List Event :=
  [.get ipv6 [] true .NORMAL, .enqueue 0, .pop, .get_h2 0 true, .h1 0 (.answered 200 []), .complete 0,
    .finish, .poll, .deliver 0, .get ipv6 [] true .NORMAL, .enqueue 0, .pop, .get_h2 0 true, .connect 0 true]

end AoSdl.HttpPool
