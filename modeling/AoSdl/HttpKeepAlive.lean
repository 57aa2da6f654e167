import Mathlib.Data.List.Forall2
import AoSdl.HttpReading

/-! Requests one after the other on one connection. A client that waits for each answer has
every request dispatched once and answered in order, whatever the reads, the workers and the other
connections do. Requests that come in earlier are lost. -/
namespace AoSdl.http
open Lib.Runs
open scoped List

/-- The request that a handler gets is the one that was written. -/
structure Carries (r : WireRequest) (req : Request) : Prop where
  method : req.method = r.method
  path : req.path = r.target.path
  headers : req.headers = (r.fields.map fun f => (f.name, f.value)).reverse
  body : req.body = r.body

def encode_all (rs : List WireRequest) : Bytes := rs.flatMap WireRequest.encode

/-- The requests all of whose bytes are there. -/
def complete : List WireRequest → Bytes → List WireRequest
  | [], _ => []
  | r :: rs, s => if r.encode <+: s then r :: complete rs (s.drop r.encode.length) else []

namespace ServerState

variable {H : Type}

/-- The answers to requests on a connection that are not written yet. -/
def outstanding (s : ServerState H) (c : Nat) : Nat :=
  s.work_channel.countP (·.connection_id = c) + s.result_channel.countP (·.connection_id = c) +
    if (s.connections c).any (·.pending_send.isSome) then 1 else 0

end ServerState

/-- Each request that has come in on the connection is dispatched, once and in order; the answers
are written in that order, and none is lost; the connection stays open until all are written. -/
structure Served {H : Type} (rs : List WireRequest) (c : Nat) (s : ServerState H) : Prop where
  dispatched : List.Forall₂ Carries (complete rs (s.history c).received) (s.history c).dispatched
  answered : (s.history c).answers.map Prod.fst <+: (s.history c).dispatched
  in_order : (s.history c).written.map (·.response) <+: (s.history c).answers.map Prod.snd
  accounted : (s.history c).dispatched.length = (s.history c).written.length + s.outstanding c
  stays : c < s.next_conn_id → (s.history c).written.length < rs.length → (s.connections c).isSome

/-- The server keeps the connection after this request, if the response does not forbid it. -/
def Keeps {H : Type} (cfg : ServerConfig H) (r : WireRequest) : Prop :=
  asks_keep_alive r.request = true ∧ (route cfg r.request).to_worker = true

instance {H : Type} (cfg : ServerConfig H) (r : WireRequest) : Decidable (Keeps cfg r) :=
  inferInstanceAs (Decidable (asks_keep_alive r.request = true ∧ (route cfg r.request).to_worker = true))

/-- No byte of a request is read before the answer to the one before it is written, the client
hangs up only behind a complete request, sends do not fail, and the responses to all requests but
the last do not close the connection. -/
def Paced {H : Type} (rs : List WireRequest) (c : Nat) (s : ServerState H) : ServerEvent → Prop
  | .readable id chunk closed _ => id = c → (s.connections c).isSome →
    let h := s.history c
    let due := encode_all (rs.take (h.written.length + 1))
    h.received ++ chunk <+: due ∧ (closed = true → h.received ++ chunk = due)
  | .respond done => ∀ result ∈ s.result_channel.head?, result.connection_id = c →
    done ≠ some false ∧
      ((s.history c).written.length + 1 < rs.length → ServerState.closes result.response = false)
  | .send_done id fully_sent => id = c → (s.connections c).isSome →
    fully_sent = true ∧ (s.connections c).any (·.pending_send.isSome)
  | _ => True

instance {H : Type} (rs : List WireRequest) (c : Nat) (s : ServerState H) :
    (event : ServerEvent) → Decidable (Paced rs c s event)
  | .readable id chunk closed _ => inferInstanceAs (Decidable (id = c → (s.connections c).isSome →
    (s.history c).received ++ chunk <+: encode_all (rs.take ((s.history c).written.length + 1)) ∧
      (closed = true →
        (s.history c).received ++ chunk = encode_all (rs.take ((s.history c).written.length + 1)))))
  | .respond done => inferInstanceAs (Decidable (∀ result ∈ s.result_channel.head?,
    result.connection_id = c → done ≠ some false ∧
      ((s.history c).written.length + 1 < rs.length → ServerState.closes result.response = false)))
  | .send_done id fully_sent => inferInstanceAs (Decidable (id = c → (s.connections c).isSome →
    fully_sent = true ∧ (s.connections c).any (·.pending_send.isSome) = true))
  | .accept _ | .work _ _ => inferInstanceAs (Decidable True)

section Stages

variable {H : Type}

/-- The requests that came in and were dispatched, and the bytes behind them. -/
structure Log (done : List WireRequest) (rest : Bytes) (h : History) : Prop where
  received : h.received = encode_all done ++ rest
  dispatched : List.Forall₂ Carries done h.dispatched

/-- Every dispatched request is answered, and the answers are written. -/
structure Settled (h : History) : Prop where
  answered : h.answers.map Prod.fst = h.dispatched
  written : h.written.map (·.response) = h.answers.map Prod.snd

/-- The answer to the last dispatched request is due. When more requests follow, the connection
will be kept. -/
inductive Duty (more : Prop) : List (WorkItem H) → List WorkResult → HttpConnection → History → Prop
  | working {item : WorkItem H} {conn : HttpConnection} {h : History}
    (unsent : conn.pending_send = none) (asks : more → asks_keep_alive item.request = true)
    (answered : h.answers.map Prod.fst ++ [item.request] = h.dispatched)
    (written : h.written.map (·.response) = h.answers.map Prod.snd) : Duty more [item] [] conn h
  | answering {result : WorkResult} {conn : HttpConnection} {h : History}
    (unsent : conn.pending_send = none) (asks : more → result.request_keep_alive = true)
    (answered : h.answers.map Prod.fst = h.dispatched)
    (written : h.written.map (·.response) ++ [result.response] = h.answers.map Prod.snd) :
    Duty more [] [result] conn h
  | sending {response : Response} {is_head : Bool} {conn : HttpConnection} {h : History}
    (pending : conn.pending_send = some (response, is_head)) (keeps : more → conn.send_keep_alive = true)
    (answered : h.answers.map Prod.fst = h.dispatched)
    (written : h.written.map (·.response) ++ [response] = h.answers.map Prod.snd) :
    Duty more [] [] conn h

/-- The life of a connection on which a list of requests is sent. -/
inductive Stage (rs : List WireRequest) : View H → Prop
  | reading {front rest : List WireRequest} {r : WireRequest} {conn : HttpConnection} {h : History}
    (split : rs = front ++ r :: rest) (underway : Underway r conn) (part : conn.recv_buf <+: r.encode)
    (short : conn.recv_buf.length < r.encode.length) (log : Log front conn.recv_buf h)
    (settled : Settled h) : Stage rs ⟨some conn, [], [], h⟩
  | answering {front rest : List WireRequest} {r : WireRequest} {conn : HttpConnection} {h : History}
    {items : List (WorkItem H)} {results : List WorkResult} (split : rs = front ++ r :: rest)
    (dispatched : Dispatched r conn) (log : Log (front ++ [r]) [] h)
    (duty : Duty (rest ≠ []) items results conn h) : Stage rs ⟨some conn, items, results, h⟩
  | finished {conn : HttpConnection} {h : History} (fresh : Fresh conn) (log : Log rs [] h)
    (settled : Settled h) : Stage rs ⟨some conn, [], [], h⟩
  | ended {h : History} (log : Log rs [] h) (settled : Settled h) : Stage rs ⟨none, [], [], h⟩

variable {cfg : ServerConfig H} {s : ServerState H} {c id : Nat} {rs done front rest : List WireRequest}
  {r : WireRequest} {p : Bytes} {h : History}

@[simp] theorem encode_all_nil : encode_all [] = [] := rfl

@[simp] theorem encode_all_cons : encode_all (r :: rs) = r.encode ++ encode_all rs := rfl

@[simp] theorem encode_all_append : encode_all (front ++ rest) = encode_all front ++ encode_all rest :=
  List.flatMap_append

theorem Settled.count (settled : Settled h) (log : Log done p h) : h.written.length = done.length := by
  have answered := congrArg List.length settled.answered
  have written := congrArg List.length settled.written
  have dispatched := log.dispatched.length_eq
  simp only [List.length_map] at answered written
  omega

theorem Duty.count {more : Prop} {items : List (WorkItem H)} {results : List WorkResult}
    {conn : HttpConnection} (duty : Duty more items results conn h) (log : Log done p h) :
    h.written.length + 1 = done.length := by
  have dispatched := log.dispatched.length_eq
  cases duty with
  | working _ _ answered written | answering _ _ answered written | sending _ _ answered written =>
    replace answered := congrArg List.length answered
    replace written := congrArg List.length written
    simp at answered written
    omega

theorem stage_fresh {conn : HttpConnection} (split : rs = front ++ rest) (fresh : Fresh conn)
    (log : Log front [] h) (settled : Settled h) :
    Stage rs (⟨some conn, [], [], h⟩ : View H) := by
  cases rest with
  | nil =>
    rw [List.append_nil] at split
    subst split
    exact .finished fresh log settled
  | cons r rest =>
    refine .reading split (fresh.underway r) ?_ ?_ (fresh.empty ▸ log) settled
    · rw [fresh.empty]
      exact List.nil_prefix
    · rw [fresh.empty]
      exact Nat.lt_of_lt_of_le (by decide) encode_long

theorem stage_sent {conn : HttpConnection} {response : Response} {is_head : Bool}
    (split : rs = front ++ r :: rest) (log : Log (front ++ [r]) [] h)
    (pending : conn.pending_send = some (response, is_head))
    (keeps : rest ≠ [] → conn.send_keep_alive = true)
    (answered : h.answers.map Prod.fst = h.dispatched)
    (written : h.written.map (·.response) ++ [response] = h.answers.map Prod.snd)
    {before : Option HttpConnection} (seen : s.view c = ⟨before, [], [], h⟩) :
    Stage rs ((s.sent c conn true).view c) := by
  obtain ⟨conn', fresh, sent⟩ := ServerState.view_sent (s := s) (c := c) pending
  rw [sent, seen]
  have settled : Settled { h with written := h.written ++ [⟨response, is_head, conn.send_keep_alive⟩] } :=
    ⟨answered, by simpa using written⟩
  have logged : Log (front ++ [r]) [] { h with
      written := h.written ++ [⟨response, is_head, conn.send_keep_alive⟩] } := ⟨log.received, log.dispatched⟩
  have split' : rs = front ++ [r] ++ rest := by rw [split, List.append_assoc]; rfl
  cases keep : conn.send_keep_alive with
  | true =>
    rw [keep] at settled logged
    exact stage_fresh split' fresh logged settled
  | false =>
    have last : rest = [] := by
      by_contra more
      exact absurd ((keeps more).symm.trans keep) (by decide)
    rw [last, List.append_nil] at split'
    rw [keep, ← split'] at logged
    rw [keep] at settled
    exact .ended logged settled

theorem carries_request {req : Request} {path_params : List (Bytes × Bytes)}
    (same : req = { r.request with path_params }) (remote_addr : Bytes) :
    Carries r { req with remote_addr } := by
  rw [same]
  exact ⟨rfl, rfl, rfl, rfl⟩

/-- A complete request goes to a worker, or is answered at once and the last. -/
theorem stage_dispatch {conn : HttpConnection} (split : rs = front ++ r :: rest)
    (keeps : rest ≠ [] → Keeps cfg r) (dispatched : Dispatched r conn) (unsent : conn.pending_send = none)
    (received : h.received = encode_all (front ++ [r])) (log : List.Forall₂ Carries front h.dispatched)
    (settled : Settled h) {before : Option HttpConnection} (seen : s.view c = ⟨before, [], [], h⟩)
    (handled : HandlerRun) : Stage rs ((s.dispatch cfg c conn r.request handled).view c) := by
  obtain ⟨path_params, same⟩ := route_request cfg r.request
  have next {req : Request} (carries : Carries r req) :
      List.Forall₂ Carries (front ++ [r]) (h.dispatched ++ [req]) :=
    List.rel_append log (.cons carries .nil)
  -- The poll thread answers only the last request itself.
  have at_once {req : Request} (carries : Carries r req) (sent : Sent)
      (poll_thread : (route cfg r.request).to_worker = false) :
      Stage rs ((s.answer c req sent).view c) := by
    have last : rest = [] := by
      by_contra more
      exact absurd ((keeps more).2.symm.trans poll_thread) (by decide)
    rw [ServerState.view_answer, seen]
    subst last
    subst split
    exact .ended ⟨by rw [List.append_nil]; exact received, next carries⟩
      ⟨by simp [settled.answered], by simp [settled.written]⟩
  rw [ServerState.dispatch]
  cases routed : route cfg r.request with
  | sse req =>
    rw [routed] at same at_once
    have carries := carries_request same req.remote_addr
    simp only
    split <;> exact at_once carries _ rfl
  | inlined req =>
    rw [routed] at same at_once
    exact at_once (carries_request same req.remote_addr) _ rfl
  | worker handler req =>
    rw [routed] at same
    obtain ⟨req', changed, published⟩ := ServerState.view_publish s c conn routed handled
    rw [ServerState.dispatch, routed] at published
    rw [published, seen]
    have carries : Carries r req' := changed ▸ carries_request same req'.remote_addr
    have asks : rest ≠ [] → asks_keep_alive req' = true := fun more => by
      rw [asks_keep_alive, carries.headers]
      exact (keeps more).1
    exact .answering split dispatched ⟨by rw [List.append_nil]; exact received, next carries⟩
      (.working unsent asks (by simp [settled.answered]) settled.written)

theorem take_next (split : rs = front ++ r :: rest) : rs.take (front.length + 1) = front ++ [r] := by
  rw [split, List.take_append]
  simp

theorem keeps_of_more (keeps : ∀ r ∈ rs.dropLast, Keeps cfg r) (split : rs = front ++ r :: rest)
    (more : rest ≠ []) : Keeps cfg r := by
  apply keeps
  obtain ⟨next, later, rfl⟩ := List.exists_cons_of_ne_nil more
  rw [split, List.dropLast_append_of_ne_nil (by simp)]
  simp

/-- No byte comes in while everything due has come in. -/
theorem no_more {chunk : Bytes} (inside : h.received ++ chunk <+: encode_all done) (log : Log done [] h) :
    chunk = [] := by
  have length := inside.length_le
  rw [log.received] at length
  simpa using length

/-- A read that reaches into a request, or to its end. -/
theorem stage_reading {conn : HttpConnection} (split : rs = front ++ r :: rest) (underway : Underway r conn)
    (log : Log front conn.recv_buf h) (settled : Settled h) (seen : s.view c = ⟨some conn, [], [], h⟩)
    (keeps : ∀ r ∈ rs.dropLast, Keeps cfg r) (plain : r.target.Plain)
    (direct : cfg.proxy_protocol = true → r.method ≠ bytes "PROXY") {chunk : Bytes} {closed : Bool}
    (inside : conn.recv_buf ++ chunk <+: r.encode)
    (whole : closed = true → conn.recv_buf ++ chunk = r.encode) (handled : HandlerRun) :
    Stage rs ((s.on_readable cfg c chunk closed handled).view c) := by
  have found : s.connections c = some conn := congrArg View.conn seen
  rw [ServerState.on_readable, found]
  by_cases complete : conn.recv_buf ++ chunk = r.encode
  · obtain ⟨conn', reads, dispatched, unsent⟩ :=
      receive_whole cfg closed direct plain underway complete
    simp only [reads]
    apply stage_dispatch (h := { h with received := h.received ++ chunk }) split
      (keeps_of_more keeps split) dispatched unsent _ log.dispatched ⟨settled.answered, settled.written⟩
    · rw [ServerState.view_record, seen]
    · simp only
      rw [log.received, List.append_assoc, complete]
      simp
  · obtain rfl : closed = false := by
      cases closed with
      | false => rfl
      | true => exact absurd (whole rfl) complete
    have shorter : (conn.recv_buf ++ chunk).length < r.encode.length :=
      Nat.lt_of_le_of_ne inside.length_le fun same => complete (inside.eq_of_length same)
    obtain ⟨conn', waits, underway', buffer⟩ := receive_part cfg direct underway inside shorter
    simp only [waits]
    rw [ServerState.view_set_connection, ServerState.view_record, seen]
    refine .reading split underway' (buffer ▸ inside) (buffer ▸ shorter) ⟨?_, log.dispatched⟩
      ⟨settled.answered, settled.written⟩
    simp only
    rw [log.received, List.append_assoc, buffer]

theorem stage_readable (stage : Stage rs (s.view c)) (keeps : ∀ r ∈ rs.dropLast, Keeps cfg r)
    (plain : ∀ r ∈ rs, r.target.Plain)
    (direct : cfg.proxy_protocol = true → ∀ r ∈ rs, r.method ≠ bytes "PROXY")
    {chunk : Bytes} {closed : Bool} {handled : HandlerRun}
    (paced : Paced rs c s (.readable c chunk closed handled)) :
    Stage rs ((s.on_readable cfg c chunk closed handled).view c) := by
  generalize seen : s.view c = v at stage
  have own : s.history c = v.history := congrArg View.history seen
  have found : s.connections c = v.conn := congrArg View.conn seen
  simp only [Paced, found, own, forall_const] at paced
  cases stage with
  | @reading front rest r conn h split underway part short log settled =>
    obtain ⟨inside, whole⟩ := paced rfl
    have member : r ∈ rs := split ▸ by simp
    have due : encode_all (rs.take (h.written.length + 1)) = encode_all front ++ r.encode := by
      rw [settled.count log, take_next split]
      simp
    rw [due, log.received, List.append_assoc] at inside whole
    rw [List.prefix_append_right_inj] at inside
    rw [List.append_cancel_left_eq] at whole
    exact stage_reading split underway log settled seen keeps (plain r member)
      (fun enabled => direct enabled r member) inside whole handled
  | @answering front rest r conn h items results split dispatched log duty =>
    have due : rs.take (h.written.length + 1) = front ++ [r] := by
      rw [duty.count log, List.length_append, List.length_singleton, take_next split]
    obtain rfl := no_more (due ▸ (paced rfl).1) log
    rw [ServerState.on_readable, found]
    simp only [receive_dispatched cfg dispatched]
    rw [ServerState.view_set_connection, ServerState.view_record, seen]
    simp only [List.append_nil]
    exact .answering split dispatched log duty
  | @finished conn h fresh log settled =>
    have due : rs.take (h.written.length + 1) = rs :=
      List.take_of_length_le (by rw [settled.count log]; exact Nat.le_succ _)
    obtain rfl := no_more (due ▸ (paced rfl).1) log
    rw [ServerState.on_readable, found]
    simp only [receive_nothing cfg fresh]
    cases closed with
    | true =>
      simp only [if_true, ServerState.remove_connection]
      rw [ServerState.view_set_connection, ServerState.view_record, seen]
      simp only [List.append_nil]
      exact .ended log settled
    | false =>
      simp only [Bool.false_eq_true, if_false]
      rw [ServerState.view_set_connection, ServerState.view_record, seen]
      simp only [List.append_nil]
      exact .finished ⟨fresh.empty, fresh.undispatched, fresh.unsent, fresh.unread, fresh.no_length⟩ log settled
  | @ended h log settled =>
    rw [ServerState.on_readable, found]
    change Stage rs (s.view c)
    rw [seen]
    exact .ended log settled

theorem stage_work (stage : Stage rs (s.view c)) (i : Nat) (handled : HandlerRun) :
    Stage rs ((s.work i handled).view c) := by
  cases taken : s.work_channel[i]? with
  | none => simpa [ServerState.work, taken] using stage
  | some item =>
    by_cases same : item.connection_id = c
    · have busy : item ∈ (s.view c).items :=
        List.mem_filter.mpr ⟨List.mem_of_getElem? taken, by simpa using same⟩
      generalize seen : s.view c = v at stage
      rw [seen] at busy
      cases stage with
      | reading | finished | ended => exact absurd busy (by simp)
      | @answering front rest r conn h items results split dispatched log duty =>
        cases duty with
        | answering | sending => exact absurd busy (by simp)
        | @working own _ _ unsent asks answered written =>
          obtain ⟨rfl, worked⟩ := ServerState.view_work_own taken same (congrArg View.items seen) handled
          rw [worked, seen]
          refine .answering split dispatched ⟨log.received, log.dispatched⟩ (.answering unsent asks ?_ ?_)
          · simpa using answered
          · simp [written]
    · rw [ServerState.view_work_other taken same]
      exact stage

theorem stage_respond (stage : Stage rs (s.view c)) {done : Option Bool}
    (paced : Paced rs c s (.respond done)) : Stage rs ((s.respond done).view c) := by
  cases first : s.result_channel with
  | nil => simpa [ServerState.respond, first] using stage
  | cons result results =>
    by_cases same : result.connection_id = c
    · have due : result ∈ (s.view c).results :=
        List.mem_filter.mpr ⟨first ▸ List.mem_cons_self, by simpa using same⟩
      generalize seen : s.view c = v at stage
      have found : s.connections c = v.conn := congrArg View.conn seen
      have own : s.history c = v.history := congrArg View.history seen
      rw [seen] at due
      cases stage with
      | reading | finished | ended => exact absurd due (by simp)
      | @answering front rest r conn h items _ split dispatched log duty =>
        have count := duty.count log
        cases duty with
        | working | sending => exact absurd due (by simp)
        | @answering own _ _ unsent asks answered written =>
          obtain rfl := List.mem_singleton.mp due
          obtain ⟨sent, stays⟩ := paced result (by rw [first]; rfl) same
          have popped : ({ s with result_channel := results } : ServerState H).view c =
              ⟨some conn, [], [], h⟩ := by
            rw [ServerState.view_popped first same, seen]
            rfl
          have keeps : rest ≠ [] → (result.request_keep_alive && !ServerState.closes result.response) = true := by
            intro more
            rw [asks more, stays ?_]
            · rfl
            · rw [own, count, split]
              simpa [List.length_pos_iff] using more
          simp only [ServerState.respond, first, same, found]
          cases done with
          | none =>
            simp only
            rw [ServerState.view_set_connection, popped]
            exact .answering split ⟨dispatched.buffered, dispatched.parsed, dispatched.read, rfl⟩ log
              (.sending rfl keeps answered written)
          | some fully_sent =>
            obtain rfl : fully_sent = true := by
              cases fully_sent with
              | true => rfl
              | false => exact absurd rfl sent
            exact stage_sent split log rfl keeps answered written popped
    · rw [ServerState.view_respond_other first same]
      exact stage

theorem stage_send_done (stage : Stage rs (s.view c)) {id : Nat} {fully_sent : Bool}
    (paced : Paced rs c s (.send_done id fully_sent)) : Stage rs ((s.send_done id fully_sent).view c) := by
  by_cases same : id = c
  · subst same
    generalize seen : s.view id = v at stage
    have found : s.connections id = v.conn := congrArg View.conn seen
    simp only [Paced, found, forall_const] at paced
    rw [ServerState.send_done, found]
    cases stage with
    | reading _ underway => exact absurd (paced rfl).2 (by simp [underway.unsent])
    | finished fresh => exact absurd (paced rfl).2 (by simp [fresh.unsent])
    | @ended h log settled =>
      change Stage rs (s.view id)
      rw [seen]
      exact .ended log settled
    | @answering front rest r conn h items results split dispatched log duty =>
      cases duty with
      | working unsent | answering unsent => exact absurd (paced rfl).2 (by simp [unsent])
      | sending pending keeps answered written =>
        obtain rfl := (paced rfl).1
        exact stage_sent split log pending keeps answered written seen
  · rw [ServerState.send_done]
    split
    · exact stage
    · rw [ServerState.view_sent_other same]
      exact stage

/-- Before its first byte a connection has nothing; then it goes through the stages. -/
structure Tracked (rs : List WireRequest) (c : Nat) (s : ServerState H) : Prop where
  later : s.next_conn_id ≤ c → s.view c = ⟨none, [], [], {}⟩
  born : c < s.next_conn_id → Stage rs (s.view c)

theorem tracked_step (keeps : ∀ r ∈ rs.dropLast, Keeps cfg r) (plain : ∀ r ∈ rs, r.target.Plain)
    (direct : cfg.proxy_protocol = true → ∀ r ∈ rs, r.method ≠ bytes "PROXY")
    (s : ServerState H) (event : ServerEvent) (tracked : Tracked rs c s) (paced : Paced rs c s event) :
    Tracked rs c (step cfg s event) := by
  have onward (same : (step cfg s event).next_conn_id = s.next_conn_id)
      (other : ∀ remote_addr, event = .accept remote_addr → s.next_conn_id ≠ c)
      (stages : Stage rs (s.view c) → Stage rs ((step cfg s event).view c)) :
      Tracked rs c (step cfg s event) := by
    refine ⟨fun late => ?_, fun early => stages (tracked.born (same ▸ early))⟩
    have idle := tracked.later (same ▸ late)
    exact (ServerState.view_idle idle other).trans idle
  have number := ServerState.step_next_conn_id cfg s event
  cases event with
  | accept remote_addr =>
    simp only at number
    rcases Nat.lt_trichotomy s.next_conn_id c with before | rfl | behind
    · have same : (step cfg s (.accept remote_addr)).view c = s.view c :=
        ServerState.view_set_other (Nat.ne_of_lt before) _
      refine ⟨fun _ => same.trans (tracked.later (Nat.le_of_lt before)), fun late => ?_⟩
      omega
    · have new : (step cfg s (.accept remote_addr)).view s.next_conn_id =
          { s.view s.next_conn_id with conn := some { remote_addr } } :=
        ServerState.view_set_connection _
      refine ⟨fun late => absurd late (by omega), fun _ => ?_⟩
      rw [new, tracked.later (Nat.le_refl _)]
      have split : rs = [] ++ rs := rfl
      exact stage_fresh split ⟨rfl, rfl, rfl, rfl, rfl⟩ ⟨rfl, .nil⟩ ⟨rfl, rfl⟩
    · have same : (step cfg s (.accept remote_addr)).view c = s.view c :=
        ServerState.view_set_other (Nat.ne_of_gt behind) _
      refine ⟨fun late => ?_, fun _ => same ▸ tracked.born behind⟩
      omega
  | readable id chunk closed handled =>
    refine onward number (by simp) fun stage => ?_
    by_cases same : id = c
    · subst same
      exact stage_readable stage keeps plain direct paced
    · exact (ServerState.view_readable_other cfg same chunk closed handled).symm ▸ stage
  | work i handled => exact onward number (by simp) fun stage => stage_work stage i handled
  | respond done => exact onward number (by simp) fun stage => stage_respond stage paced
  | send_done id fully_sent => exact onward number (by simp) fun stage => stage_send_done stage paced

theorem complete_eq (missing : ∀ r ∈ rest.head?, p.length < r.encode.length) :
    complete (front ++ rest) (encode_all front ++ p) = front := by
  induction front with
  | nil =>
    cases rest with
    | nil => rfl
    | cons r rest =>
      rw [List.nil_append, complete, if_neg fun whole => ?_]
      exact absurd whole.length_le (Nat.not_le.mpr (missing r rfl))
  | cons r front ih =>
    rw [List.cons_append, encode_all_cons, complete, List.append_assoc, if_pos (List.prefix_append _ _),
      List.drop_left, ih]

theorem outstanding_eq (s : ServerState H) (c : Nat) : s.outstanding c =
    (s.view c).items.length + (s.view c).results.length +
      if (s.view c).conn.any (·.pending_send.isSome) then 1 else 0 := by
  rw [ServerState.outstanding, List.countP_eq_length_filter, List.countP_eq_length_filter]
  rfl

theorem served_settled {conn : Option HttpConnection} (split : rs = front ++ rest)
    (missing : ∀ r ∈ rest.head?, p.length < r.encode.length) (log : Log front p h) (settled : Settled h)
    (seen : s.view c = ⟨conn, [], [], h⟩) (unsent : conn.any (·.pending_send.isSome) = false)
    (stays : c < s.next_conn_id → h.written.length < rs.length → conn.isSome) : Served rs c s := by
  have own : s.history c = h := congrArg View.history seen
  have found : s.connections c = conn := congrArg View.conn seen
  refine ⟨?_, ?_, ?_, ?_, ?_⟩
  · rw [own, log.received, split, complete_eq missing]
    exact log.dispatched
  · rw [own, settled.answered]
  · rw [own, settled.written]
  · rw [own, outstanding_eq, seen, unsent]
    simp [settled.count log, log.dispatched.length_eq]
  · rw [own, found]
    exact stays

theorem served_answering {conn : HttpConnection} {items : List (WorkItem H)} {results : List WorkResult}
    (split : rs = front ++ r :: rest) (log : Log (front ++ [r]) [] h)
    (duty : Duty (rest ≠ []) items results conn h) (seen : s.view c = ⟨some conn, items, results, h⟩) :
    Served rs c s := by
  have own : s.history c = h := congrArg View.history seen
  have found : s.connections c = some conn := congrArg View.conn seen
  have split' : rs = front ++ [r] ++ rest := by rw [split, List.append_assoc]; rfl
  have some_byte (r : WireRequest) : ([] : Bytes).length < r.encode.length :=
    Nat.lt_of_lt_of_le (by decide) encode_long
  have one : s.outstanding c = 1 := by
    rw [outstanding_eq, seen]
    cases duty with
    | working unsent | answering unsent => simp [unsent]
    | sending pending => simp [pending]
  refine ⟨?_, ?_, ?_, ?_, ?_⟩
  · rw [own, log.received, split', complete_eq fun r _ => some_byte r]
    exact log.dispatched
  · rw [own]
    cases duty with
    | working _ _ answered => exact ⟨_, answered⟩
    | answering _ _ answered | sending _ _ answered => rw [answered]
  · rw [own]
    cases duty with
    | working _ _ _ written => rw [written]
    | answering _ _ _ written | sending _ _ _ written => exact ⟨_, written⟩
  · rw [own, one, duty.count log]
    exact log.dispatched.length_eq.symm
  · rw [found]
    exact fun _ _ => rfl

theorem served_of_tracked (tracked : Tracked rs c s) : Served rs c s := by
  rcases Nat.lt_or_ge c s.next_conn_id with born | later
  · have stage := tracked.born born
    generalize seen : s.view c = v at stage
    cases stage with
    | reading split underway part short log settled =>
      refine served_settled split ?_ log settled seen ?_ fun _ _ => rfl
      · intro r first
        cases first
        exact short
      · simp [underway.unsent]
    | finished fresh log settled =>
      exact served_settled (List.append_nil rs).symm (by simp) log settled seen (by simp [fresh.unsent])
        fun _ _ => rfl
    | ended log settled =>
      refine served_settled (List.append_nil rs).symm (by simp) log settled seen rfl fun _ few => ?_
      exact absurd (settled.count log) (Nat.ne_of_lt few)
    | answering split dispatched log duty => exact served_answering split log duty seen
  · have split : rs = [] ++ rs := rfl
    have long : ∀ r ∈ rs.head?, ([] : Bytes).length < r.encode.length :=
      fun r _ => Nat.lt_of_lt_of_le (by decide) encode_long
    exact served_settled split long ⟨rfl, .nil⟩ ⟨rfl, rfl⟩ (tracked.later later) rfl
      fun born => absurd born (Nat.not_lt.mpr later)

end Stages

section Examples

def hostField : Field where
  name := bytes "Host"
  before := [32]
  value := bytes "x"
  named := by decide +kernel
  token := by decide +kernel
  blank := by decide +kernel
  one_line := by decide +kernel
  trimmed := by decide +kernel

def keepAliveField : Field where
  name := bytes "Connection"
  before := [32]
  value := bytes "Keep-Alive"
  named := by decide +kernel
  token := by decide +kernel
  blank := by decide +kernel
  one_line := by decide +kernel
  trimmed := by decide +kernel

def lengthField : Field where
  name := bytes "content-length"
  value := bytes "3"
  after := [32, 9]
  named := by decide +kernel
  token := by decide +kernel
  blank := by decide +kernel
  one_line := by decide +kernel
  trimmed := by decide +kernel

/-- A request without body. -/
def pageRequest : WireRequest where
  method := bytes "GET"
  target := { path := bytes "/a", no_query := by decide +kernel, absolute := by simp }
  version := bytes "HTTP/1.1"
  fields := [hostField, keepAliveField]
  method_token := by decide +kernel
  target_token := by decide +kernel
  version_line := by decide +kernel
  some_field := by simp
  one_host := by decide +kernel
  announced := by decide +kernel
  body_announced := by decide +kernel
  not_encoded := by decide +kernel
  uri_fits := by decide +kernel
  line_fits := by decide +kernel
  section_fits := by decide +kernel
  body_fits := by decide +kernel

def formRequest : WireRequest where
  method := bytes "POST"
  target :=
    { path := bytes "/b", query := some (bytes "k=v"), no_query := by decide +kernel, absolute := by simp }
  version := bytes "HTTP/1.1"
  fields := [lengthField, hostField]
  body := bytes "abc"
  method_token := by decide +kernel
  target_token := by decide +kernel
  version_line := by decide +kernel
  some_field := by simp
  one_host := by decide +kernel
  announced := by decide +kernel
  body_announced := by decide +kernel
  not_encoded := by decide +kernel
  uri_fits := by decide +kernel
  line_fits := by decide +kernel
  section_fits := by decide +kernel
  body_fits := by decide +kernel

/-- A request that does not ask to keep the connection. -/
def quietRequest : WireRequest where
  __ := pageRequest
  fields := [hostField]
  some_field := by simp
  one_host := by decide +kernel
  announced := by decide +kernel
  body_announced := by decide +kernel
  not_encoded := by decide +kernel
  section_fits := by decide +kernel

/-- A request with a URI in its query. -/
def redirectRequest : WireRequest where
  __ := pageRequest
  target :=
    { path := bytes "/a", query := some (bytes "u=http://x/b"), no_query := by decide +kernel
      absolute := by simp }
  target_token := by decide +kernel
  uri_fits := by decide +kernel
  line_fits := by decide +kernel
  section_fits := by decide +kernel

def pageServer : ServerConfig Unit where
  get_handlers := [(bytes "/a", ())]
  post_handlers := [(bytes "/:name", ())]

/-- Two requests in four reads, next to another connection. -/
def twoRequests : List ServerEvent :=
  [.accept [], .accept [], .readable 1 (pageRequest.encode.take 7) false {},
    .readable 2 (bytes "PUT") false {}, .readable 1 (pageRequest.encode.drop 7) false {}, .work 0 {},
    .respond none, .readable 1 [] false {}, .send_done 1 true,
    .readable 1 (formRequest.encode.take 60) false {}, .readable 1 (formRequest.encode.drop 60) true {},
    .work 0 {}, .respond (some true)]

/-- A server after one read of some bytes and the answer to the request in them. -/
def afterRead (cfg : ServerConfig Unit) (res : Response) (data : Bytes) : ServerState Unit :=
  run (step cfg) {} [.accept [], .readable 1 data false {}, .work 0 { res }, .respond (some true)]

/-- One response, and then the connection is closed. -/
def ClosesAfterOne (s : ServerState Unit) : Prop :=
  (s.history 1).written.length = 1 ∧ (s.connections 1).isNone = true

instance (s : ServerState Unit) : Decidable (ClosesAfterOne s) :=
  inferInstanceAs (Decidable ((s.history 1).written.length = 1 ∧ (s.connections 1).isNone = true))

end Examples

end AoSdl.http
