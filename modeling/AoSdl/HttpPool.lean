import AoSdl.Lib.Search
import AoSdl.Text
import Mathlib.Data.Finset.Basic
import Mathlib.Data.Int.Notation
import Mathlib.Logic.Function.Basic

/-! `HttpPool`: requests move from the callers to four queues, from there to workers and HTTP/2
streams, and come back to `poll` as results. The pool runs without `stop`. A step is what one thread
does under one lock, or one change of `pending_`, or one call of a callback. Callbacks return, and
what the network does is given with the steps. An exception that leaves a worker ends the process. -/
namespace AoSdl

namespace HttpPool

inductive HttpPriority where
  | LOW
  | NORMAL
  | HIGH
  | CRITICAL
  deriving DecidableEq

def HttpPriority.idx : HttpPriority → Nat
  | .LOW => 0
  | .NORMAL => 1
  | .HIGH => 2
  | .CRITICAL => 3

/-- A request of the `id`-th call. The two callbacks are there or they are null. -/
structure Request where
  id : Nat
  host : Bytes
  path : Bytes
  callback : Bool
  chunk_callback : Bool
  priority : HttpPriority
  deriving DecidableEq

structure HttpResponse where
  status : Int := 0
  body : Bytes := []
  error : Bytes := []

/-- The callback of a completed request is the one of `request`. -/
structure CompletedRequest where
  response : HttpResponse
  request : Request

/-- How far a worker is with its request: about to ask for an HTTP/2 connection, connecting, on its way over
HTTP/1.1 or over the connection that it has got, or back from HTTP/1.1. -/
inductive Stage where
  | popped
  | connecting
  | h1
  | h2
  | answered (resp : HttpResponse)

end HttpPool

open HttpPool in
/-- `entering` are the requests of calls that have counted theirs and not yet queued it, `busy` those
in the hands of a worker and `finishing` counts the workers, `h2_finishing` the streams, that have
delivered and not yet counted down. `droppers` and `pollers` are the calls of `drop_below` and `poll`
with what each has still to call. Of the connections only their hosts are kept. -/
structure HttpPool where
  pending_ : Int := 0
  work_queues_ : HttpPriority → List Request := fun _ => []
  result_queue_ : List CompletedRequest := []
  idle : Nat := 0
  entering : List Request := []
  busy : List (Stage × Request) := []
  finishing : Nat := 0
  h2_streams : List Request := []
  h2_finishing : Nat := 0
  droppers : List (List Request) := []
  pollers : List (List CompletedRequest) := []
  made : List Request := []
  calls : List (Request × HttpResponse) := []
  h2_connections_ : Finset Bytes := ∅
  h2_failed_hosts_ : Finset Bytes := ∅
  h2_eligible_hosts_ : Finset Bytes := ∅
  h2_connecting_hosts_ : Finset Bytes := ∅
  ended : Bool := false

namespace HttpPool

def start (num_threads : Nat) : HttpPool := { idle := num_threads }

/-- The counter goes up before the request is in its queue. -/
def submit (pool : HttpPool) (host path : Bytes) (on_chunk cb : Bool) (priority : HttpPriority) :
    HttpPool :=
  let req : Request := ⟨pool.made.length, host, path, cb, on_chunk, priority⟩
  { pool with
    pending_ := pool.pending_ + 1
    entering := pool.entering ++ [req]
    made := pool.made ++ [req] }

def get (pool : HttpPool) (host path : Bytes) (cb : Bool) (priority : HttpPriority) : HttpPool :=
  pool.submit host path false cb priority

def get_streaming (pool : HttpPool) (host path : Bytes) (on_chunk cb : Bool)
    (priority : HttpPriority) : HttpPool :=
  pool.submit host path on_chunk cb priority

def enqueue (pool : HttpPool) (i : Nat) : HttpPool :=
  match pool.entering[i]? with
  | none => pool
  | some req =>
    { pool with
      entering := pool.entering.eraseIdx i
      work_queues_ := Function.update pool.work_queues_ req.priority
        (pool.work_queues_ req.priority ++ [req]) }

/-- In the order in which the queues are scanned. -/
def priorities : List HttpPriority := [.CRITICAL, .HIGH, .NORMAL, .LOW]

def pop_highest (work_queues_ : HttpPriority → List Request) :
    List HttpPriority → Option (Request × (HttpPriority → List Request))
  | [] => none
  | i :: lower =>
    match work_queues_ i with
    | [] => pop_highest work_queues_ lower
    | out :: q => some (out, Function.update work_queues_ i q)

/-- A streaming request goes over HTTP/1.1 at once. -/
def Request.first_stage (req : Request) : Stage := if req.chunk_callback then .h1 else .popped

def pop (pool : HttpPool) : HttpPool :=
  if pool.idle = 0 then pool
  else
    match pop_highest pool.work_queues_ priorities with
    | none => pool
    | some (req, work_queues_) =>
      { pool with work_queues_, idle := pool.idle - 1, busy := pool.busy ++ [(req.first_stage, req)] }

def go (pool : HttpPool) (i : Nat) (stage : Stage) (req : Request) : HttpPool :=
  { pool with busy := pool.busy.set i (stage, req) }

/-- What `get_h2` does under its first lock. Whether a connection is alive is given with the step. -/
def get_h2 (pool : HttpPool) (i : Nat) (is_alive : Bool) : HttpPool :=
  match pool.busy[i]? with
  | some (.popped, req) =>
    if req.host ∈ pool.h2_failed_hosts_ then pool.go i .h1 req
    else if req.host ∈ pool.h2_connections_ ∧ is_alive then pool.go i .h2 req
    else
      let pool := { pool with h2_connections_ := pool.h2_connections_.erase req.host }
      if req.host ∉ pool.h2_eligible_hosts_ ∨ req.host ∈ pool.h2_connecting_hosts_ then pool.go i .h1 req
      else
        { pool.go i .connecting req with
          h2_connecting_hosts_ := insert req.host pool.h2_connecting_hosts_ }
  | _ => pool

/-- The host and the port of the URL-style host string; `none` stands for the exceptions of `std::stoi`. -/
def parse_host (host : Bytes) : Option (Bytes × UInt16) :=
  let parsed_host : Bytes :=
    match Lib.Search.find (bytes "://") host with
    | some scheme_end => host.drop (scheme_end + 3)
    | none => host
  let parsed_host := parsed_host.takeWhile (· ≠ 47)
  if 58 ∈ parsed_host then
    (stoi ((parsed_host.dropWhile (· ≠ 58)).drop 1)).map fun port =>
      (parsed_host.takeWhile (· ≠ 58), UInt16.ofInt port)
  else some (parsed_host, 443)

/-- The rest of `get_h2`, with the network's answer: a connection, or none and an exception, which is caught.
What `stoi` throws is not caught. -/
def connect (pool : HttpPool) (i : Nat) (conn : Bool) : HttpPool :=
  match pool.busy[i]? with
  | some (.connecting, req) =>
    let connected := { pool with h2_connecting_hosts_ := pool.h2_connecting_hosts_.erase req.host }
    let failed := { connected.go i .h1 req with h2_failed_hosts_ := insert req.host pool.h2_failed_hosts_ }
    if (bytes "http://").isPrefixOf req.host then failed
    else
      match parse_host req.host with
      | none => { pool with ended := true }
      | some _ =>
        if conn then { connected.go i .h2 req with h2_connections_ := insert req.host pool.h2_connections_ }
        else failed
  | _ => pool

def mark_h2_eligible (pool : HttpPool) (host : Bytes) : HttpPool :=
  if host ∈ pool.h2_failed_hosts_ then pool
  else { pool with h2_eligible_hosts_ := insert host pool.h2_eligible_hosts_ }

/-- What a request over HTTP/1.1 comes to. An exception is a failure with its text. -/
inductive Outcome where
  | answered (status : Int) (body : Bytes)
  | failed (error : Bytes)

def Request.h1_response (req : Request) : Outcome → HttpResponse
  | .answered status body => { status, body := if req.chunk_callback then [] else body }
  | .failed error => { error }

/-- A host that answers over HTTP/1.1 is tried with HTTP/2 the next time. -/
def h1 (pool : HttpPool) (i : Nat) (outcome : Outcome) : HttpPool :=
  match pool.busy[i]? with
  | some (.h1, req) =>
    let resp := req.h1_response outcome
    let pool := pool.go i (.answered resp) req
    if 0 < resp.status then pool.mark_h2_eligible req.host else pool
  | _ => pool

/-- A streaming request is answered by the worker itself, any other through the result queue. -/
def complete (pool : HttpPool) (i : Nat) : HttpPool :=
  match pool.busy[i]? with
  | some (.answered resp, req) =>
    let pool := { pool with busy := pool.busy.eraseIdx i, finishing := pool.finishing + 1 }
    if req.chunk_callback then
      if req.callback then { pool with calls := pool.calls ++ [(req, resp)] } else pool
    else { pool with result_queue_ := pool.result_queue_ ++ [⟨resp, req⟩] }
  | _ => pool

def finish (pool : HttpPool) : HttpPool :=
  if pool.finishing = 0 then pool
  else
    { pool with
      pending_ := pool.pending_ - 1
      finishing := pool.finishing - 1
      idle := pool.idle + 1 }

/-- The worker is free again as soon as the stream is open. -/
def submit_h2 (pool : HttpPool) (i : Nat) : HttpPool :=
  match pool.busy[i]? with
  | some (.h2, req) =>
    { pool with
      busy := pool.busy.eraseIdx i
      idle := pool.idle + 1
      h2_streams := pool.h2_streams ++ [req] }
  | _ => pool

def h2_done (pool : HttpPool) (i : Nat) (resp : HttpResponse) : HttpPool :=
  match pool.h2_streams[i]? with
  | none => pool
  | some req =>
    let pool :=
      { pool with
        h2_streams := pool.h2_streams.eraseIdx i
        h2_finishing := pool.h2_finishing + 1 }
    if req.callback then { pool with result_queue_ := pool.result_queue_ ++ [⟨resp, req⟩] } else pool

def h2_finish (pool : HttpPool) : HttpPool :=
  if pool.h2_finishing = 0 then pool
  else { pool with pending_ := pool.pending_ - 1, h2_finishing := pool.h2_finishing - 1 }

def below (threshold : HttpPriority) : List HttpPriority :=
  priorities.filter fun i => i.idx < threshold.idx

def clear_queue (state : HttpPool × List Request) (i : HttpPriority) : HttpPool × List Request :=
  let (pool, dropped_requests) := state
  ({ pool with
     pending_ := pool.pending_ - (pool.work_queues_ i).length
     work_queues_ := Function.update pool.work_queues_ i [] },
    dropped_requests ++ pool.work_queues_ i)

def drop_below (pool : HttpPool) (threshold : HttpPriority) : HttpPool :=
  let (pool, dropped_requests) := (below threshold).foldl clear_queue (pool, [])
  { pool with droppers := pool.droppers ++ [dropped_requests] }

def dropped : HttpResponse := { error := bytes "dropped" }

/-- A call of `drop_below` goes on to its next request. -/
def fire (pool : HttpPool) (i : Nat) : HttpPool :=
  match pool.droppers[i]? with
  | none => pool
  | some [] => { pool with droppers := pool.droppers.eraseIdx i }
  | some (req :: rest) =>
    let pool := { pool with droppers := pool.droppers.set i rest }
    if req.callback then { pool with calls := pool.calls ++ [(req, dropped)] } else pool

def poll (pool : HttpPool) : HttpPool :=
  { pool with result_queue_ := [], pollers := pool.pollers ++ [pool.result_queue_] }

/-- A call of `poll` goes on to its next result. A callback that is null throws out of the call,
and its batch goes with it. -/
def deliver (pool : HttpPool) (i : Nat) : HttpPool :=
  match pool.pollers[i]? with
  | none => pool
  | some [] => { pool with pollers := pool.pollers.eraseIdx i }
  | some (item :: batch) =>
    if item.request.callback then
      { pool with
        pollers := pool.pollers.set i batch
        calls := pool.calls ++ [(item.request, item.response)] }
    else { pool with pollers := pool.pollers.eraseIdx i }

inductive Event where
  | get (host path : Bytes) (cb : Bool) (priority : HttpPriority)
  | get_streaming (host path : Bytes) (on_chunk cb : Bool) (priority : HttpPriority)
  | enqueue (i : Nat)
  | pop
  | get_h2 (i : Nat) (is_alive : Bool)
  | connect (i : Nat) (conn : Bool)
  | h1 (i : Nat) (outcome : Outcome)
  | complete (i : Nat)
  | finish
  | submit_h2 (i : Nat)
  | h2_done (i : Nat) (resp : HttpResponse)
  | h2_finish
  | drop_below (threshold : HttpPriority)
  | fire (i : Nat)
  | poll
  | deliver (i : Nat)

def act (pool : HttpPool) : Event → HttpPool
  | .get host path cb priority => pool.get host path cb priority
  | .get_streaming host path on_chunk cb priority =>
    pool.get_streaming host path on_chunk cb priority
  | .enqueue i => pool.enqueue i
  | .pop => pool.pop
  | .get_h2 i is_alive => pool.get_h2 i is_alive
  | .connect i conn => pool.connect i conn
  | .h1 i outcome => pool.h1 i outcome
  | .complete i => pool.complete i
  | .finish => pool.finish
  | .submit_h2 i => pool.submit_h2 i
  | .h2_done i resp => pool.h2_done i resp
  | .h2_finish => pool.h2_finish
  | .drop_below threshold => pool.drop_below threshold
  | .fire i => pool.fire i
  | .poll => pool.poll
  | .deliver i => pool.deliver i

/-- Nothing happens after the end of the process. -/
def step (pool : HttpPool) (e : Event) : HttpPool := if pool.ended then pool else pool.act e

def queued (pool : HttpPool) : List Request := priorities.flatMap pool.work_queues_

/-- The requests that have been counted and that no queue holds, up to the countdown. -/
def in_flight (pool : HttpPool) : Nat :=
  pool.entering.length + pool.busy.length + pool.finishing + pool.h2_streams.length +
    pool.h2_finishing

/-- How often the callback of a request has been called. -/
def answers (pool : HttpPool) (req : Request) : Nat := pool.calls.countP fun call => call.1 = req

/-- No call of a member function goes on, every worker waits, and `poll` has drained the results. -/
structure Idle (pool : HttpPool) : Prop where
  entered : pool.entering = []
  queues : pool.queued = []
  workers : pool.busy = [] ∧ pool.finishing = 0
  streams : pool.h2_streams = [] ∧ pool.h2_finishing = 0
  drops : pool.droppers.flatten = []
  results : pool.result_queue_ = []
  polled : pool.pollers.flatten = []

/-- No callback can be called any more. -/
def Quiet (pool : HttpPool) : Prop := pool.ended = true ∨ pool.Idle

/-- What the pool promises of every state. -/
structure Answers (pool : HttpPool) : Prop where
  at_most_once : ∀ req, pool.answers req ≤ 1
  exactly_once : pool.Quiet → ∀ req ∈ pool.made, req.callback = true → pool.answers req = 1
  counted : pool.pending_ = pool.queued.length + pool.in_flight
  highest_first : ∀ req rest, pop_highest pool.work_queues_ priorities = some (req, rest) →
    ∀ i, req.priority.idx < i.idx → pool.work_queues_ i = []

end HttpPool

end AoSdl
