import AoSdl.HttpServer

/-! What the server holds for one connection, and which steps change it. -/
namespace AoSdl.http

variable {H : Type}

/-- A connection on which no byte of the next request has arrived. -/
structure Fresh (conn : HttpConnection) : Prop where
  empty : conn.recv_buf = []
  undispatched : conn.dispatched = false
  unsent : conn.pending_send = none
  unread : conn.headers_complete = false
  no_length : conn.content_length = 0

/-- What the server holds for one connection. -/
structure View (H : Type) where
  conn : Option HttpConnection
  items : List (WorkItem H)
  results : List WorkResult
  history : History

namespace ServerState

variable {cfg : ServerConfig H} {s : ServerState H} {c id : Nat}

def view (s : ServerState H) (c : Nat) : View H where
  conn := s.connections c
  items := s.work_channel.filter (·.connection_id = c)
  results := s.result_channel.filter (·.connection_id = c)
  history := s.history c

theorem view_set_connection (conn : Option HttpConnection) :
    (s.set_connection c conn).view c = { s.view c with conn } := by
  simp [view, set_connection]

theorem view_record (change : History → History) :
    (s.record c change).view c = { s.view c with history := change (s.view c).history } := by
  simp [view, record]

theorem view_set_other (other : id ≠ c) (conn : Option HttpConnection) :
    (s.set_connection id conn).view c = s.view c := by
  simp [view, set_connection, Function.update_of_ne (Ne.symm other)]

theorem view_record_other (other : id ≠ c) (change : History → History) :
    (s.record id change).view c = s.view c := by
  simp [view, record, Function.update_of_ne (Ne.symm other)]

theorem view_dispatch_other (other : id ≠ c) (conn : HttpConnection) (req : Request)
    (handled : HandlerRun) : (s.dispatch cfg id conn req handled).view c = s.view c := by
  rw [dispatch]
  split
  · split <;> rw [answer, remove_connection, view_set_other other, view_record_other other]
  · rw [answer, remove_connection, view_set_other other, view_record_other other]
  · next handler req _ =>
    have plain := (view_record_other (s := s.set_connection id (some conn)) other fun h =>
      { h with dispatched := h.dispatched ++
        [{ req with remote_addr := real_addr cfg conn.remote_addr req.headers }] }).trans
          (view_set_other other (some conn))
    rw [← plain]
    simp [view, other]

theorem view_readable_other (cfg : ServerConfig H) (other : id ≠ c) (chunk : Bytes) (closed : Bool)
    (handled : HandlerRun) :
    (s.on_readable cfg id chunk closed handled).view c = s.view c := by
  rw [on_readable]
  split
  · rfl
  · split
    · rw [view_set_other other, view_record_other other]
    · rw [remove_connection, view_set_other other, view_record_other other]
    · rw [remove_connection, view_set_other other, write, view_record_other other, view_record_other other]
    · rw [view_dispatch_other other, view_record_other other]

theorem view_sent_other (other : id ≠ c) (conn : HttpConnection) (fully_sent : Bool) :
    (s.sent id conn fully_sent).view c = s.view c := by
  have written : (s.write_pending id conn fully_sent).view c = s.view c := by
    rw [write_pending]
    split
    · rfl
    · split
      · rw [write, view_record_other other]
      · rfl
  rw [sent]
  split
  · rw [view_set_other other, written]
  · rw [remove_connection, view_set_other other, written]

theorem view_answer (req : Request) (sent : Sent) : (s.answer c req sent).view c = { s.view c with
    conn := none
    history := { (s.view c).history with
      dispatched := (s.view c).history.dispatched ++ [req]
      answers := (s.view c).history.answers ++ [(req, sent.response)]
      written := (s.view c).history.written ++ [sent] } } := by
  rw [answer, remove_connection, view_set_connection, view_record]

theorem view_publish (s : ServerState H) (c : Nat) (conn : HttpConnection) {req req' : Request}
    {handler : Option H}
    (routed : route cfg req = .worker handler req') (handled : HandlerRun) :
    ∃ req'' : Request, req'' = { req' with remote_addr := req''.remote_addr } ∧
      (s.dispatch cfg c conn req handled).view c = { s.view c with
        conn := some conn
        items := (s.view c).items ++ [⟨c, req'', handler, is_head req'.method⟩]
        history := { (s.view c).history with dispatched := (s.view c).history.dispatched ++ [req''] } } := by
  refine ⟨{ req' with remote_addr := real_addr cfg conn.remote_addr req'.headers }, rfl, ?_⟩
  rw [dispatch, routed]
  simp [view, record, set_connection]

theorem view_sent {conn : HttpConnection} {response : Response} {is_head : Bool}
    (pending : conn.pending_send = some (response, is_head)) : ∃ conn', Fresh conn' ∧
      (s.sent c conn true).view c = { s.view c with
        conn := if conn.send_keep_alive then some conn' else none
        history := { (s.view c).history with
          written := (s.view c).history.written ++ [⟨response, is_head, conn.send_keep_alive⟩] } } := by
  refine ⟨{ conn with
    pending_send := none, headers_complete := false, dispatched := false, header_end_pos := 0
    content_length := 0, recv_buf := [], keep_alive := true }, ⟨rfl, rfl, rfl, rfl, rfl⟩, ?_⟩
  have written : s.write_pending c conn true = s.write c ⟨response, is_head, conn.send_keep_alive⟩ := by
    rw [write_pending, pending]
    rfl
  rw [sent, written]
  cases conn.send_keep_alive with
  | true => exact (view_set_connection _).trans (by rw [write, view_record]; rfl)
  | false => exact (view_set_connection _).trans (by rw [write, view_record]; rfl)

theorem work_split {i : Nat} {item : WorkItem H} (taken : s.work_channel[i]? = some item) :
    ∃ front back, s.work_channel = front ++ item :: back ∧ s.work_channel.eraseIdx i = front ++ back := by
  obtain ⟨inside, rfl⟩ := List.getElem?_eq_some_iff.mp taken
  refine ⟨s.work_channel.take i, s.work_channel.drop (i + 1), ?_, List.eraseIdx_eq_take_drop_succ _ _⟩
  rw [← List.drop_eq_getElem_cons inside, List.take_append_drop]

theorem view_work_other {i : Nat} {item : WorkItem H} (taken : s.work_channel[i]? = some item)
    (other : item.connection_id ≠ c) (handled : HandlerRun) : (s.work i handled).view c = s.view c := by
  obtain ⟨front, back, whole, rest⟩ := work_split taken
  have items : (s.work_channel.eraseIdx i).filter (·.connection_id = c) =
      s.work_channel.filter (·.connection_id = c) := by
    rw [rest, whole]
    simp [other]
  simp only [work, taken, view, record, items, Function.update_of_ne (Ne.symm other)]
  simp [WorkItem.result, other]

theorem view_work_own {i : Nat} {item own : WorkItem H} (taken : s.work_channel[i]? = some item)
    (same : item.connection_id = c) (only : (s.view c).items = [own]) (handled : HandlerRun) :
    item = own ∧ (s.work i handled).view c = { s.view c with
      items := []
      results := (s.view c).results ++ [own.result handled]
      history := { (s.view c).history with
        answers := (s.view c).history.answers ++ [(own.request, (own.result handled).response)] } } := by
  obtain ⟨front, back, whole, rest⟩ := work_split taken
  have items : front.filter (·.connection_id = c) ++ item :: back.filter (·.connection_id = c) = [own] := by
    rw [← only, view, whole]
    simp [same]
  obtain ⟨none_before, rfl, none_behind⟩ : front.filter (·.connection_id = c) = [] ∧ item = own ∧
      back.filter (·.connection_id = c) = [] := by
    generalize front.filter (·.connection_id = c) = before at items ⊢
    cases before with
    | nil => simpa using items
    | cons x before => simp at items
  refine ⟨rfl, ?_⟩
  simp only [work, taken, view, record, rest, List.filter_append, none_before, none_behind, same,
    Function.update_self]
  simp [WorkItem.result, same]

theorem view_popped {result : WorkResult} {results : List WorkResult}
    (first : s.result_channel = result :: results) (own : result.connection_id = c) :
    ({ s with result_channel := results } : ServerState H).view c =
      { s.view c with results := (s.view c).results.tail } := by
  simp [view, first, own]

theorem view_respond_other {result : WorkResult} {results : List WorkResult}
    (first : s.result_channel = result :: results) (other : result.connection_id ≠ c)
    (done : Option Bool) : (s.respond done).view c = s.view c := by
  have popped : ({ s with result_channel := results } : ServerState H).view c = s.view c := by
    simp [view, first, other]
  simp only [respond, first]
  split
  · exact popped
  · split
    · rw [view_sent_other other, popped]
    · rw [view_set_other other, popped]

theorem step_next_conn_id (cfg : ServerConfig H) (s : ServerState H) (event : ServerEvent) :
    (step cfg s event).next_conn_id =
      match event with
      | .accept _ => s.next_conn_id + 1
      | _ => s.next_conn_id := by
  have sent (s : ServerState H) (id : Nat) (conn : HttpConnection) (fully_sent : Bool) :
      (s.sent id conn fully_sent).next_conn_id = s.next_conn_id := by
    have written : (s.write_pending id conn fully_sent).next_conn_id = s.next_conn_id := by
      rw [write_pending]
      repeat' split
      all_goals rfl
    rw [ServerState.sent]
    split <;> exact written
  cases event with
  | accept remote_addr => rfl
  | readable id chunk closed handled =>
    simp only [step, on_readable, dispatch]
    repeat' split
    all_goals rfl
  | work i handled =>
    simp only [step, work]
    split <;> rfl
  | respond done =>
    simp only [step, respond]
    repeat' split
    all_goals first | rfl | exact sent _ _ _ _
  | send_done id fully_sent =>
    simp only [step, send_done]
    split
    · rfl
    · exact sent _ _ _ _

theorem view_idle {h : History} (idle : s.view c = ⟨none, [], [], h⟩) {event : ServerEvent}
    (other : ∀ remote_addr, event = .accept remote_addr → s.next_conn_id ≠ c) :
    (step cfg s event).view c = s.view c := by
  have no_conn : s.connections c = none := congrArg View.conn idle
  have no_item : ∀ item ∈ s.work_channel, item.connection_id ≠ c := by
    simpa [view] using congrArg View.items idle
  have no_result : ∀ result ∈ s.result_channel, result.connection_id ≠ c := by
    simpa [view] using congrArg View.results idle
  cases event with
  | accept remote_addr => exact view_set_other (other remote_addr rfl) _
  | readable id chunk closed handled =>
    by_cases same : id = c
    · subst same
      simp [step, on_readable, no_conn]
    · exact view_readable_other cfg same chunk closed handled
  | work i handled =>
    cases taken : s.work_channel[i]? with
    | none => simp [step, work, taken]
    | some item => exact view_work_other taken (no_item item (List.mem_of_getElem? taken)) handled
  | respond done =>
    cases first : s.result_channel with
    | nil => simp [step, respond, first]
    | cons result results =>
      exact view_respond_other first (no_result result (first ▸ List.mem_cons_self)) done
  | send_done id fully_sent =>
    by_cases same : id = c
    · subst same
      simp [step, send_done, no_conn]
    · simp only [step, send_done]
      split
      · rfl
      · exact view_sent_other same _ _

end ServerState

section Reads

variable {cfg : ServerConfig H} {conn conn' : HttpConnection} {closed : Bool}

theorem read_body_waits (waits : read_body conn closed = .waits conn') : conn' = conn := by
  simp only [read_body] at waits
  split at waits
  · split at waits
    · cases waits
    · cases waits
      rfl
  · split at waits <;> cases waits

/-- The course of a read, from the bytes that are buffered then. -/
inductive Course (cfg : ServerConfig H) (conn : HttpConnection) (closed : Bool) : Reading → Prop
  | ended (closes : closed = true) (empty : conn.recv_buf = []) : Course cfg conn closed .leaves
  | unwrapping (busy : ¬(closed = true ∧ conn.recv_buf = [])) (unwraps : unwrap_proxy cfg conn = none) :
    Course cfg conn closed (.waits conn)
  | too_long {unwrapped : HttpConnection} {res : Response}
    (unwraps : unwrap_proxy cfg conn = some unwrapped) (long : check_sizes unwrapped = some res) :
    Course cfg conn closed (.refuses res)
  | malformed {unwrapped : HttpConnection} {res : Response}
    (unwraps : unwrap_proxy cfg conn = some unwrapped) (read : read_headers unwrapped = .error res) :
    Course cfg conn closed (.refuses res)
  | headed {unwrapped read_to : HttpConnection} (busy : ¬(closed = true ∧ conn.recv_buf = []))
    (unwraps : unwrap_proxy cfg conn = some unwrapped) (fits : check_sizes unwrapped = none)
    (read : read_headers unwrapped = .ok read_to) (complete : read_to.headers_complete = true)
    (idle : read_to.dispatched = false) : Course cfg conn closed (read_body read_to closed)
  | unheaded {unwrapped read_to : HttpConnection} (busy : ¬(closed = true ∧ conn.recv_buf = []))
    (unwraps : unwrap_proxy cfg conn = some unwrapped) (fits : check_sizes unwrapped = none)
    (read : read_headers unwrapped = .ok read_to)
    (early : read_to.headers_complete = true → read_to.dispatched = true) :
    Course cfg conn closed (.waits read_to)

theorem receive_course (cfg : ServerConfig H) (conn : HttpConnection) (chunk : Bytes) (closed : Bool) :
    Course cfg { conn with recv_buf := conn.recv_buf ++ chunk } closed (receive cfg conn chunk closed) := by
  simp only [receive]
  split
  · next nothing =>
    obtain ⟨closes, empty⟩ : closed = true ∧ conn.recv_buf ++ chunk = [] := by simpa using nothing
    exact .ended closes empty
  · next going =>
    have busy : ¬(closed = true ∧ conn.recv_buf ++ chunk = []) := by simpa using going
    split
    · next unwraps => exact .unwrapping busy unwraps
    · next unwrapped unwraps =>
      split
      · next long => exact .too_long unwraps long
      · next fits =>
        split
        · next read => exact .malformed unwraps read
        · next read_to read =>
          split
          · next ready =>
            obtain ⟨complete, idle⟩ : read_to.headers_complete = true ∧ read_to.dispatched = false := by
              simpa using ready
            exact .headed busy unwraps fits read complete idle
          · next early => exact .unheaded busy unwraps fits read (by simpa using early)

end Reads

end AoSdl.http
