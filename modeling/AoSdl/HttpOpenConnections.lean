import Mathlib.Data.List.Nodup
import AoSdl.HttpKeepAlive

/-! The count of open connections beside the table of connections, while peers come and go. -/
namespace AoSdl.http
open Lib.Runs

/-- What a call to `recv` reports. Nothing received is the end of the stream; the poll thread sees
no difference between a call that would block and one that fails. -/
inductive Recv where
  | received (piece : Bytes)
  | would_block
  | fails

/-- The bytes up to the first call that brings none, and whether that one reports the end of the
stream. -/
def drain : List Recv → Bytes × Bool
  | .received [] :: _ => ([], true)
  | .received piece :: recvs => (piece ++ (drain recvs).1, (drain recvs).2)
  | _ => ([], false)

/-- The data the poller has read already, else what the socket still has. -/
def arrived (data : Bytes) (recvs : List Recv) : Bytes × Bool :=
  if data = [] then drain recvs else (data, false)

/-- The drain ends because the peer has closed the stream or broken the connection. -/
def ends_gone : List Recv → Bool
  | .received [] :: _ => true
  | .received _ :: recvs => ends_gone recvs
  | .fails :: _ => true
  | _ => false

/-- The read finds that the peer is gone. -/
def finds_gone (data : Bytes) (recvs : List Recv) : Bool := data.isEmpty && ends_gone recvs

inductive PollEvent where
  | accept (remote_addr : Bytes)
  | read (id : Nat) (data : Bytes) (recvs : List Recv) (handled : HandlerRun)
  | work (i : Nat) (handled : HandlerRun)
  | respond (done : Option Bool)
  | send_done (id : Nat) (fully_sent : Bool)

def PollEvent.event : PollEvent → ServerEvent
  | .accept remote_addr => .accept remote_addr
  | .read id data recvs handled => .readable id (arrived data recvs).1 (arrived data recvs).2 handled
  | .work i handled => .work i handled
  | .respond done => .respond done
  | .send_done id fully_sent => .send_done id fully_sent

/-- What a step does to the table. `removes` goes through `remove_connection`; `streams` takes the
entry out without it, for an event stream. -/
inductive Change where
  | keeps
  | opens (id : Nat) (conn : HttpConnection)
  | holds (id : Nat) (conn : HttpConnection)
  | removes (id : Nat)
  | streams (id : Nat)

namespace Change

/-- What is added to the count. -/
def counts : Change → Int
  | opens _ _ => 1
  | removes _ => -1
  | _ => 0

/-- The connection the count is decremented for. -/
def decrements : Change → List Nat
  | removes id => [id]
  | _ => []

/-- The connection that comes into the table. -/
def opened : Change → List Nat
  | opens id _ => [id]
  | _ => []

/-- The connection that leaves the table. -/
def erased : Change → List Nat
  | removes id | streams id => [id]
  | _ => []

theorem counts_eq (change : Change) :
    change.counts = change.opened.length - change.decrements.length := by
  cases change <;> rfl

theorem nodup_decrements (change : Change) : change.decrements.Nodup := by
  cases change <;> simp [decrements]

theorem decrements_subset (change : Change) : change.decrements ⊆ change.erased := by
  cases change <;> simp [decrements, erased]

end Change

/-- A connection that is kept after its answer. -/
def HttpConnection.again (conn : HttpConnection) : HttpConnection :=
  { conn with
    pending_send := none
    headers_complete := false
    dispatched := false
    header_end_pos := 0
    content_length := 0
    recv_buf := []
    keep_alive := true }

namespace ServerState

variable {H : Type}

def read_change (cfg : ServerConfig H) (id : Nat) (conn : HttpConnection) (chunk : Bytes) (closed : Bool)
    (handled : HandlerRun) : Change :=
  match receive cfg conn chunk closed with
  | .waits conn => .holds id conn
  | .leaves => .removes id
  | .refuses _ => .removes id
  | .reads conn req =>
    match route cfg req with
    | .sse _ => if handled.accepted then .streams id else .removes id
    | .inlined _ => .removes id
    | .worker _ _ => .holds id conn

def sent_change (id : Nat) (conn : HttpConnection) (fully_sent : Bool) : Change :=
  if conn.send_keep_alive && fully_sent then .holds id conn.again else .removes id

def respond_change (conn : HttpConnection) (result : WorkResult) (done : Option Bool) : Change :=
  let conn := { conn with
    pending_send := some (result.response, result.is_head)
    send_keep_alive := result.request_keep_alive && !closes result.response }
  match done with
  | some fully_sent => sent_change result.connection_id conn fully_sent
  | none => .holds result.connection_id { conn with dispatched := true }

def change (cfg : ServerConfig H) (s : ServerState H) : ServerEvent → Change
  | .accept remote_addr => .opens s.next_conn_id { remote_addr }
  | .readable id chunk closed handled =>
    (s.connections id).elim .keeps fun conn => read_change cfg id conn chunk closed handled
  | .work _ _ => .keeps
  | .respond done => s.result_channel.head?.elim .keeps fun result =>
    (s.connections result.connection_id).elim .keeps fun conn => respond_change conn result done
  | .send_done id fully_sent =>
    (s.connections id).elim .keeps fun conn => sent_change id conn fully_sent

/-- The number of entries. Ids are below the next one. -/
def table_size (s : ServerState H) : Nat :=
  (List.range s.next_conn_id).countP fun id => (s.connections id).isSome

end ServerState

/-- The poll loop with its count. `decremented` and `gone` list the connections the count was
decremented for and those whose peer was found gone; nothing reads them. -/
structure PollState (H : Type) where
  server : ServerState H := {}
  open_connections : Int := 0
  decremented : List Nat := []
  gone : List Nat := []

section Steps

variable {H : Type} (cfg : ServerConfig H)

def gone_after (s : PollState H) : PollEvent → List Nat
  | .read id data recvs _ =>
    if finds_gone data recvs && (s.server.connections id).isSome then id :: s.gone else s.gone
  | _ => s.gone

def poll_step (s : PollState H) (event : PollEvent) : PollState H where
  server := step cfg s.server event.event
  open_connections := s.open_connections + (s.server.change cfg event.event).counts
  decremented := s.decremented ++ (s.server.change cfg event.event).decrements
  gone := gone_after s event

/-- A peer that is gone leaves its connection in the table only while an answer is due; the count
is decremented once for each connection that left the table and for no other; it is the size of
the table. -/
structure Bookkept (s : PollState H) : Prop where
  gone : ∀ id ∈ s.gone, ∀ conn, s.server.connections id = some conn →
    conn.dispatched = true ∧ 0 < s.server.outstanding id
  once : ∀ id, 0 < id → id < s.server.next_conn_id →
    s.decremented.count id = if (s.server.connections id).isSome then 0 else 1
  counted : s.open_connections = s.server.table_size

/-- The header section is in the buffer. -/
def Headed (conn : HttpConnection) : Prop :=
  conn.headers_complete = true ∨ find_header_end conn.recv_buf ≠ none

/-- What a gone peer has left behind is enough to finish with: nothing, or, behind a whole PROXY
header, a request that is refused for its size or a header section, and all of the body too where
`recv` has failed. -/
def Conclusive (conn : HttpConnection) (closed : Bool) : Prop :=
  closed = true ∧ conn.recv_buf = [] ∨
  ∃ conn', unwrap_proxy cfg conn = some conn' ∧
    (check_sizes conn' ≠ none ∨
      Headed conn' ∧
        (closed = true ∨ ∀ conn'', read_headers conn' = .ok conn'' →
          conn''.content_length ≤ conn''.recv_buf.length - (conn''.header_end_pos + 4)))

/-- A read that finds the peer gone finds something conclusive, if the request is not dispatched;
no request becomes an event stream; no answer to a gone peer is kept alive. -/
def Clean (s : PollState H) : PollEvent → Prop
  | .read id data recvs handled => ∀ conn, s.server.connections id = some conn →
    (finds_gone data recvs = true → conn.dispatched = false →
      Conclusive cfg { conn with recv_buf := conn.recv_buf ++ (arrived data recvs).1 }
        (arrived data recvs).2) ∧
    ∀ conn' req req', receive cfg conn (arrived data recvs).1 (arrived data recvs).2 = .reads conn' req →
      route cfg req = .sse req' → handled.accepted = false
  | .respond done => ∀ result ∈ s.server.result_channel.head?, done = some true →
    result.connection_id ∈ s.gone → (s.server.connections result.connection_id).isSome →
      result.request_keep_alive = true → ServerState.closes result.response = true
  | .send_done id fully_sent => fully_sent = true → id ∈ s.gone →
    ∀ conn, s.server.connections id = some conn → conn.send_keep_alive = false
  | _ => True

end Steps

section Table

variable {H : Type} {cfg : ServerConfig H} {s s' : ServerState H} {id : Nat} {conn conn' : HttpConnection}
  {chunk : Bytes} {closed : Bool} {req : Request}

/-- The table before and after a change. Only an id that is not used yet is opened, and only
entries that are there are changed. -/
inductive Moves (s s' : ServerState H) : Change → Prop
  | keeps (same : s'.connections = s.connections) (issued : s'.next_conn_id = s.next_conn_id) :
    Moves s s' .keeps
  | opens {conn : HttpConnection}
    (table : s'.connections = Function.update s.connections s.next_conn_id (some conn))
    (issued : s'.next_conn_id = s.next_conn_id + 1) : Moves s s' (.opens s.next_conn_id conn)
  | holds {id : Nat} {conn : HttpConnection} (present : (s.connections id).isSome)
    (table : s'.connections = Function.update s.connections id (some conn))
    (issued : s'.next_conn_id = s.next_conn_id) : Moves s s' (.holds id conn)
  | removes {id : Nat} (present : (s.connections id).isSome)
    (table : s'.connections = Function.update s.connections id none)
    (issued : s'.next_conn_id = s.next_conn_id) : Moves s s' (.removes id)
  | streams {id : Nat} (present : (s.connections id).isSome)
    (table : s'.connections = Function.update s.connections id none)
    (issued : s'.next_conn_id = s.next_conn_id) : Moves s s' (.streams id)

theorem Moves.issued {change : Change} (moves : Moves s s' change) :
    s'.next_conn_id = s.next_conn_id + change.opened.length := by
  cases moves <;> assumption

theorem Moves.fresh {change : Change} (moves : Moves s s' change) :
    ∀ id ∈ change.opened, id = s.next_conn_id := by
  cases moves <;> simp [Change.opened]

theorem Moves.opened_of_le {change : Change} (moves : Moves s s' change) (old : s.next_conn_id ≤ id)
    (new : id < s'.next_conn_id) : id ∈ change.opened := by
  cases moves with
  | opens _ issued =>
    rw [Change.opened, List.mem_singleton]
    omega
  | keeps _ issued | holds _ _ issued | removes _ _ issued | streams _ _ issued => omega

theorem Moves.present {change : Change} (moves : Moves s s' change) :
    ∀ id ∈ change.erased, (s.connections id).isSome := by
  cases moves with
  | removes present | streams present => simpa [Change.erased]
  | keeps | opens | holds => simp [Change.erased]

theorem Moves.isSome_iff {change : Change} (moves : Moves s s' change) (id : Nat) :
    (s'.connections id).isSome ↔ id ∈ change.opened ∨ (s.connections id).isSome ∧ id ∉ change.erased := by
  cases moves with
  | keeps same => simp [same, Change.opened, Change.erased]
  | opens table =>
    simp only [table, Function.update_apply, Change.opened, Change.erased]
    split <;> simp [*]
  | holds present table =>
    simp only [table, Function.update_apply, Change.opened, Change.erased]
    split <;> simp [*]
  | removes _ table | streams _ table =>
    simp only [table, Function.update_apply, Change.opened, Change.erased]
    split <;> simp [*]

theorem moves_sent (present : (s.connections id).isSome) {before : ServerState H}
    (same : before.connections = s.connections) (issued : before.next_conn_id = s.next_conn_id)
    (conn : HttpConnection) (fully_sent : Bool) :
    Moves s (before.sent id conn fully_sent) (ServerState.sent_change id conn fully_sent) := by
  obtain ⟨table, ids⟩ : (before.write_pending id conn fully_sent).connections = s.connections ∧
      (before.write_pending id conn fully_sent).next_conn_id = s.next_conn_id := by
    simp only [ServerState.write_pending]
    split
    · exact ⟨same, issued⟩
    · split <;> exact ⟨same, issued⟩
  simp only [ServerState.sent, ServerState.sent_change]
  split
  · refine .holds present ?_ ids
    rw [ServerState.set_connection, table]
    rfl
  · refine .removes present ?_ ids
    rw [ServerState.remove_connection, ServerState.set_connection, table]

theorem moves_readable (found : s.connections id = some conn) (chunk : Bytes) (closed : Bool)
    (handled : HandlerRun) : Moves s (s.on_readable cfg id chunk closed handled)
      (ServerState.read_change cfg id conn chunk closed handled) := by
  have present : (s.connections id).isSome := by simp [found]
  simp only [ServerState.on_readable, found, ServerState.read_change]
  cases receive cfg conn chunk closed with
  | waits conn' => exact .holds present rfl rfl
  | leaves => exact .removes present rfl rfl
  | refuses res => exact .removes present rfl rfl
  | reads conn' req =>
    simp only [ServerState.dispatch]
    cases route cfg req with
    | sse req' =>
      simp only
      split
      · exact .streams present rfl rfl
      · exact .removes present rfl rfl
    | inlined req' => exact .removes present rfl rfl
    | worker handler req' => exact .holds present rfl rfl

theorem moves_step (cfg : ServerConfig H) (s : ServerState H) (event : ServerEvent) :
    Moves s (step cfg s event) (s.change cfg event) := by
  cases event with
  | accept remote_addr => exact .opens rfl rfl
  | readable id chunk closed handled =>
    cases found : s.connections id with
    | none =>
      simp only [step, ServerState.on_readable, ServerState.change, found]
      exact .keeps rfl rfl
    | some conn =>
      simp only [ServerState.change, found]
      exact moves_readable found chunk closed handled
  | work i handled =>
    simp only [step, ServerState.work]
    split <;> exact .keeps rfl rfl
  | respond done =>
    simp only [step, ServerState.respond, ServerState.change]
    cases s.result_channel with
    | nil => exact .keeps rfl rfl
    | cons result results =>
      simp only [List.head?_cons, Option.elim_some]
      cases found : s.connections result.connection_id with
      | none => exact .keeps rfl rfl
      | some conn =>
        have present : (s.connections result.connection_id).isSome := by simp [found]
        cases done with
        | some fully_sent =>
          apply moves_sent present
          · rfl
          · rfl
        | none => exact .holds present rfl rfl
  | send_done id fully_sent =>
    simp only [step, ServerState.send_done, ServerState.change]
    cases found : s.connections id with
    | none => exact .keeps rfl rfl
    | some conn => exact moves_sent (by simp [found]) rfl rfl conn fully_sent

end Table

section Reads

variable {H : Type} {cfg : ServerConfig H} {conn conn' : HttpConnection} {chunk : Bytes} {closed : Bool}
  {req : Request}

/-- Reading changes neither what is under way on a connection nor what is about to be sent. -/
def Steady (conn conn' : HttpConnection) : Prop :=
  conn'.dispatched = conn.dispatched ∧ conn'.pending_send = conn.pending_send

theorem Steady.trans {before between behind : HttpConnection} (first : Steady before between)
    (second : Steady between behind) : Steady before behind :=
  ⟨second.1.trans first.1, second.2.trans first.2⟩

theorem unwrap_steady (unwrapped : unwrap_proxy cfg conn = some conn') : Steady conn conn' := by
  simp only [unwrap_proxy] at unwrapped
  split at unwrapped
  · split at unwrapped
    · cases unwrapped
    · cases unwrapped
      exact ⟨rfl, rfl⟩
  · cases unwrapped
    exact ⟨rfl, rfl⟩

theorem read_headers_ok (read : read_headers conn = .ok conn') :
    Steady conn conn' ∧ (conn'.headers_complete = true ↔ Headed conn) := by
  simp only [read_headers] at read
  split at read
  · next complete =>
    cases read
    exact ⟨⟨rfl, rfl⟩, fun _ => .inl complete, fun _ => complete⟩
  · next incomplete =>
    cases found : find_header_end conn.recv_buf with
    | none =>
      simp only [found] at read
      cases read
      exact ⟨⟨rfl, rfl⟩, fun complete => absurd complete incomplete, fun headed =>
        headed.elim id fun there => absurd found there⟩
    | some header_end =>
      simp only [found] at read
      split at read
      · cases read
      · split at read
        · cases read
        · split at read
          · cases read
          · cases read
            exact ⟨⟨rfl, rfl⟩, fun _ => .inr (by simp [found]), fun _ => rfl⟩

theorem headed_of_error {res : Response} (read : read_headers conn = .error res) : Headed conn := by
  simp only [read_headers] at read
  split at read
  · cases read
  · split at read
    · cases read
    · next found => exact .inr (by simp [found])

theorem read_body_waits_iff : (∃ conn', read_body conn closed = .waits conn') ↔
    ¬(closed = true ∨ conn.content_length ≤ conn.recv_buf.length - (conn.header_end_pos + 4)) := by
  simp only [read_body]
  split
  · next short => cases closed <;> simp [short]
  · next whole =>
    rw [not_lt] at whole
    split <;> simp [whole]

theorem dispatched_of_reads (reads : read_body conn closed = .reads conn' req) : conn'.dispatched = true := by
  simp only [read_body] at reads
  split at reads
  · split at reads <;> cases reads
  · split at reads <;> cases reads
    rfl

theorem Course.waits {reading : Reading} (course : Course cfg conn closed reading)
    (waits : reading = .waits conn') : Steady conn conn' := by
  cases course with
  | ended | too_long | malformed => cases waits
  | unwrapping =>
    cases waits
    exact ⟨rfl, rfl⟩
  | headed _ unwraps _ read =>
    cases read_body_waits waits
    exact (unwrap_steady unwraps).trans (read_headers_ok read).1
  | unheaded _ unwraps _ read =>
    cases waits
    exact (unwrap_steady unwraps).trans (read_headers_ok read).1

theorem Course.reads {reading : Reading} (course : Course cfg conn closed reading)
    (reads : reading = .reads conn' req) : conn'.dispatched = true := by
  cases course with
  | ended | too_long | malformed | unwrapping | unheaded => cases reads
  | headed => exact dispatched_of_reads reads

/-- A connection whose request is not dispatched waits for more exactly if what there is is not
conclusive. -/
theorem Course.waits_iff {reading : Reading} (course : Course cfg conn closed reading)
    (idle : conn.dispatched = false) :
    (∃ conn', reading = .waits conn') ↔ ¬Conclusive cfg conn closed := by
  cases course with
  | ended closes empty => simp [Conclusive, closes, empty]
  | unwrapping busy unwraps => simp [Conclusive, busy, unwraps]
  | too_long unwraps long => simp [Conclusive, unwraps, long]
  | malformed unwraps read => simp [Conclusive, unwraps, read, headed_of_error read]
  | headed busy unwraps fits read complete =>
    have headed := (read_headers_ok read).2.mp complete
    rw [read_body_waits_iff]
    simp [Conclusive, busy, unwraps, fits, read, headed]
  | @unheaded unwrapped _ busy unwraps fits read early =>
    obtain ⟨same, reads⟩ := read_headers_ok read
    have idle_still := same.1.trans ((unwrap_steady unwraps).1.trans idle)
    have headless : ¬Headed unwrapped := fun headed =>
      absurd (early (reads.mpr headed)) (by simp [idle_still])
    simp [Conclusive, busy, unwraps, fits, headless]

end Reads

section Answers

variable {H : Type} {cfg : ServerConfig H} {s : ServerState H} {c : Nat}

/-- An answer is due on a connection whose request is dispatched. -/
def Due (view : View H) : Prop := ∀ conn, view.conn = some conn → conn.dispatched = true →
  view.items ≠ [] ∨ view.results ≠ [] ∨ conn.pending_send.isSome

theorem due_absent {view : View H} (absent : view.conn = none) : Due view := by
  intro conn found
  simp [absent] at found

theorem due_idle {view : View H} {conn : HttpConnection} (found : view.conn = some conn)
    (idle : conn.dispatched = false) : Due view := by
  intro conn' found' dispatched
  obtain rfl : conn = conn' := Option.some.inj (found.symm.trans found')
  simp [idle] at dispatched

theorem due_removed (s : ServerState H) (c : Nat) : Due ((s.remove_connection c).view c) :=
  due_absent (by rw [ServerState.remove_connection, ServerState.view_set_connection])

theorem due_sent (conn : HttpConnection) (fully_sent : Bool) :
    Due ((s.sent c conn fully_sent).view c) := by
  rw [ServerState.sent]
  split
  · rw [ServerState.view_set_connection]
    exact due_idle rfl rfl
  · exact due_removed _ c

theorem due_readable {conn : HttpConnection} (due : Due (s.view c)) (found : s.connections c = some conn)
    (chunk : Bytes) (closed : Bool) (handled : HandlerRun) :
    Due ((s.on_readable cfg c chunk closed handled).view c) := by
  have course := receive_course cfg conn chunk closed
  simp only [ServerState.on_readable, found]
  cases received : receive cfg conn chunk closed with
  | waits conn' =>
    obtain ⟨same, unsent⟩ := course.waits received
    rw [ServerState.view_set_connection, ServerState.view_record]
    intro _ found' dispatched
    cases found'
    rw [unsent]
    exact due conn found (same.symm.trans dispatched)
  | leaves => exact due_removed _ c
  | refuses res => exact due_removed _ c
  | reads conn' req =>
    cases routed : route cfg req with
    | worker handler req' =>
      obtain ⟨_, _, view⟩ := ServerState.view_publish
        (s.record c fun h => { h with received := h.received ++ chunk }) c conn' routed handled
      rw [view]
      exact fun _ _ _ => .inl (by simp)
    | sse req' =>
      simp only [ServerState.dispatch, routed]
      split <;> exact due_removed _ c
    | inlined req' =>
      simp only [ServerState.dispatch, routed]
      exact due_removed _ c

theorem due_step (cfg : ServerConfig H) (due : ∀ c, Due (s.view c)) (event : ServerEvent) (c : Nat) :
    Due ((step cfg s event).view c) := by
  cases event with
  | accept remote_addr =>
    by_cases new : s.next_conn_id = c
    · subst new
      have found : ((s.accept remote_addr).view s.next_conn_id).conn = some { remote_addr } := by
        simp [ServerState.accept, ServerState.view, ServerState.set_connection]
      exact due_idle found rfl
    · exact (ServerState.view_set_other new (some { remote_addr })).symm ▸ due c
  | readable id chunk closed handled =>
    by_cases same : id = c
    · subst same
      cases found : s.connections id with
      | none => simpa [step, ServerState.on_readable, found] using due id
      | some conn => exact due_readable (due id) found chunk closed handled
    · exact (ServerState.view_readable_other cfg same chunk closed handled).symm ▸ due c
  | work i handled =>
    cases taken : s.work_channel[i]? with
    | none => simpa [step, ServerState.work, taken] using due c
    | some item =>
      by_cases own : item.connection_id = c
      · exact fun _ _ _ => .inr (.inl (by
          simp [step, ServerState.work, taken, ServerState.view, ServerState.record, WorkItem.result, own]))
      · exact (ServerState.view_work_other taken own handled).symm ▸ due c
  | respond done =>
    cases first : s.result_channel with
    | nil => simpa [step, ServerState.respond, first] using due c
    | cons result results =>
      by_cases own : result.connection_id = c
      · subst own
        simp only [step, ServerState.respond, first]
        cases found : s.connections result.connection_id with
        | none => exact due_absent found
        | some conn =>
          cases done with
          | some fully_sent => exact due_sent _ fully_sent
          | none =>
            rw [ServerState.view_set_connection]
            intro _ found' _
            cases found'
            exact .inr (.inr rfl)
      · exact (ServerState.view_respond_other first own done).symm ▸ due c
  | send_done id fully_sent =>
    simp only [step, ServerState.send_done]
    cases found : s.connections id with
    | none => exact due c
    | some conn =>
      by_cases same : id = c
      · subst same
        exact due_sent conn fully_sent
      · exact (ServerState.view_sent_other same conn fully_sent).symm ▸ due c

theorem Due.outstanding {conn : HttpConnection} (due : Due (s.view c)) (found : s.connections c = some conn)
    (dispatched : conn.dispatched = true) : 0 < s.outstanding c := by
  rw [outstanding_eq]
  have seen : (s.view c).conn = some conn := found
  rcases due conn found dispatched with items | results | pending
  · have := List.length_pos_of_ne_nil items
    omega
  · have := List.length_pos_of_ne_nil results
    omega
  · simp [seen, pending]

end Answers

section Counts

variable {H : Type} {cfg : ServerConfig H} {s : PollState H}

/-- What holds in every run: ids are used once, and no connection is counted off while it is in
the table or twice. -/
structure Ledger (s : PollState H) : Prop where
  first : 0 < s.server.next_conn_id
  issued : ∀ id, (s.server.connections id).isSome → 0 < id ∧ id < s.server.next_conn_id
  closed : ∀ id ∈ s.decremented,
    0 < id ∧ id < s.server.next_conn_id ∧ (s.server.connections id).isSome = false
  once : s.decremented.Nodup
  known : ∀ id ∈ s.gone, id < s.server.next_conn_id
  balance : s.open_connections + s.decremented.length + 1 = s.server.next_conn_id

theorem ledger_start : Ledger ({} : PollState H) :=
  ⟨Nat.one_pos, nofun, nofun, List.nodup_nil, nofun, rfl⟩

theorem Ledger.moves (ledger : Ledger s) {server : ServerState H} {change : Change} {gone : List Nat}
    (moves : Moves s.server server change)
    (known : ∀ id ∈ gone, id ∈ s.gone ∨ (s.server.connections id).isSome) :
    Ledger ⟨server, s.open_connections + change.counts, s.decremented ++ change.decrements, gone⟩ := by
  have later : server.next_conn_id = s.server.next_conn_id + change.opened.length := moves.issued
  have erased : ∀ id ∈ change.erased, id ∉ change.opened := fun id gone opened =>
    absurd (moves.fresh id opened) (ledger.issued id (moves.present id gone)).2.ne
  constructor
  · exact later ▸ Nat.lt_add_right _ ledger.first
  · intro id present
    rcases (moves.isSome_iff id).mp present with opened | ⟨there, _⟩
    · have new := moves.fresh id opened
      have one := List.length_pos_of_mem opened
      have := ledger.first
      simp only [later]
      omega
    · exact ⟨(ledger.issued id there).1, later ▸ Nat.lt_add_right _ (ledger.issued id there).2⟩
  · intro id member
    rw [← Bool.not_eq_true, moves.isSome_iff]
    rcases List.mem_append.mp member with old | new
    · obtain ⟨positive, below, absent⟩ := ledger.closed id old
      refine ⟨positive, later ▸ Nat.lt_add_right _ below, ?_⟩
      rintro (opened | ⟨there, _⟩)
      · exact below.ne (moves.fresh id opened)
      · simp [absent] at there
    · have gone := change.decrements_subset new
      obtain ⟨positive, below⟩ := ledger.issued id (moves.present id gone)
      exact ⟨positive, later ▸ Nat.lt_add_right _ below, fun there =>
        there.elim (erased id gone) fun kept => kept.2 gone⟩
  · apply List.Nodup.append ledger.once change.nodup_decrements
    intro id old new
    have there := moves.present id (change.decrements_subset new)
    simp [(ledger.closed id old).2.2] at there
  · intro id member
    have below := (known id member).elim (ledger.known id) fun there => (ledger.issued id there).2
    exact later ▸ Nat.lt_add_right _ below
  · have := ledger.balance
    simp only [change.counts_eq, List.length_append, later]
    omega

theorem ledger_step (cfg : ServerConfig H) (ledger : Ledger s) (event : PollEvent) :
    Ledger (poll_step cfg s event) := by
  apply ledger.moves (moves_step cfg s.server event.event)
  intro id member
  cases event with
  | read other data recvs handled =>
    simp only [gone_after] at member
    split at member
    · next found =>
      rcases List.mem_cons.mp member with rfl | old
      · exact .inr (Bool.and_eq_true_iff.mp found).2
      · exact .inl old
    · exact .inl member
  | accept | work | respond | send_done => exact .inl member

/-- A peer that is gone leaves its connection in the table only with a request dispatched. -/
def Parted (s : PollState H) : Prop := ∀ id ∈ s.gone, ∀ conn,
  s.server.connections id = some conn → conn.dispatched = true

/-- What left the table is counted off. -/
def Accounted (s : PollState H) : Prop := ∀ id, 0 < id → id < s.server.next_conn_id →
  (s.server.connections id).isSome = false → id ∈ s.decremented

/-- Numbers below a bound are on a list of such numbers or not. -/
theorem countP_not_listed {l : List ℕ} {n : ℕ} (nodup : l.Nodup) (below : ∀ x ∈ l, x < n) :
    (List.range n).countP (fun x => decide (x ∉ l)) + l.length = n := by
  have listed : ((List.range n).filter fun x => decide (x ∈ l)).Perm l := by
    rw [List.perm_ext_iff_of_nodup (List.nodup_range.filter _) nodup]
    intro x
    simpa using below x
  have split := List.length_eq_countP_add_countP (fun x => decide (x ∈ l)) (l := List.range n)
  rw [List.length_range, List.countP_eq_length_filter, listed.length_eq] at split
  simp only [decide_not, decide_eq_true_eq] at split ⊢
  omega

theorem Ledger.table_size (ledger : Ledger s) (accounted : Accounted s) :
    s.server.table_size + s.decremented.length + 1 = s.server.next_conn_id := by
  have nodup : (0 :: s.decremented).Nodup :=
    List.nodup_cons.mpr ⟨fun zero => absurd (ledger.closed 0 zero).1 (lt_irrefl 0), ledger.once⟩
  have below : ∀ id ∈ 0 :: s.decremented, id < s.server.next_conn_id :=
    List.forall_mem_cons.mpr ⟨ledger.first, fun id member => (ledger.closed id member).2.1⟩
  have open_ids : ∀ id ∈ List.range s.server.next_conn_id,
      ((s.server.connections id).isSome = true ↔ decide (id ∉ 0 :: s.decremented) = true) := by
    intro id inside
    rw [decide_eq_true_iff, List.mem_cons, not_or]
    constructor
    · intro there
      refine ⟨(ledger.issued id there).1.ne', fun gone => ?_⟩
      simp [(ledger.closed id gone).2.2] at there
    · rintro ⟨positive, listed⟩
      by_contra absent
      have below := List.mem_range.mp inside
      exact listed (accounted id (Nat.pos_of_ne_zero positive) below (by simpa using absent))
  have count := countP_not_listed nodup below
  rw [← List.countP_congr open_ids, List.length_cons] at count
  exact count

/-- What holds in every run, of the counts and of each connection. -/
structure Books (s : PollState H) : Prop where
  ledger : Ledger s
  due : ∀ c, Due (s.server.view c)

theorem books_start : Books ({} : PollState H) := ⟨ledger_start, fun _ => due_absent rfl⟩

theorem books_step (cfg : ServerConfig H) (books : Books s) (event : PollEvent) :
    Books (poll_step cfg s event) :=
  ⟨ledger_step cfg books.ledger event, due_step cfg books.due event.event⟩

theorem bookkept_iff (books : Books s) :
    Bookkept s ↔ Parted s ∧ Accounted s := by
  constructor
  · intro kept
    refine ⟨fun id member conn found => (kept.gone id member conn found).1, ?_⟩
    intro id positive below absent
    have once := kept.once id positive below
    rw [absent, if_neg Bool.false_ne_true] at once
    exact List.count_pos_iff.mp (once ▸ Nat.one_pos)
  · rintro ⟨parted, accounted⟩
    constructor
    · intro id member conn found
      have dispatched := parted id member conn found
      exact ⟨dispatched, (books.due id).outstanding found dispatched⟩
    · intro id positive below
      split
      · next there =>
        refine List.count_eq_zero.mpr fun member => ?_
        simp [(books.ledger.closed id member).2.2] at there
      · next absent =>
        exact List.count_eq_one_of_mem books.ledger.once (accounted id positive below (by simpa using absent))
    · have size := books.ledger.table_size accounted
      have := books.ledger.balance
      omega

theorem accounted_iff (ledger : Ledger s) (accounted : Accounted s) {server : ServerState H}
    {change : Change} (moves : Moves s.server server change) (gone : List Nat) :
    Accounted ⟨server, s.open_connections + change.counts, s.decremented ++ change.decrements, gone⟩ ↔
      change.erased ⊆ change.decrements := by
  constructor
  · intro later id erased
    have there := moves.present id erased
    obtain ⟨positive, below⟩ := ledger.issued id there
    have absent : (server.connections id).isSome = false := by
      rw [← Bool.not_eq_true, moves.isSome_iff]
      rintro (opened | ⟨_, kept⟩)
      · exact below.ne (moves.fresh id opened)
      · exact kept erased
    have counted := later id positive (moves.issued ▸ Nat.lt_add_right _ below) absent
    rcases List.mem_append.mp counted with old | new
    · simp [(ledger.closed id old).2.2] at there
    · exact new
  · intro counted id positive below absent
    rw [← Bool.not_eq_true, moves.isSome_iff, not_or, not_and, not_not] at absent
    rw [List.mem_append]
    by_cases there : (s.server.connections id).isSome
    · exact .inr (counted (absent.2 there))
    · have old : id < s.server.next_conn_id :=
        Nat.lt_of_not_le fun old => absent.1 (moves.opened_of_le old below)
      exact .inl (accounted id positive old (by simpa using there))

theorem parted_iff (ledger : Ledger s) (parted : Parted s) {server : ServerState H} {change : Change}
    (moves : Moves s.server server change) {gone : List Nat} {opened : Int} {decremented : List Nat}
    (known : ∀ id ∈ gone, id ∈ s.gone ∨ (∃ conn, change = .holds id conn) ∨ id ∈ change.erased) :
    Parted ⟨server, opened, decremented, gone⟩ ↔
      ∀ id conn, change = .holds id conn → id ∈ gone → conn.dispatched = true := by
  constructor
  · rintro later id conn rfl member
    cases moves with
    | holds _ table => exact later id member conn (by simp [table])
  · intro dispatched id member conn found
    cases moves with
    | keeps same => exact parted id (by simpa [Change.erased] using known id member) conn (same ▸ found)
    | opens table =>
      have old : id ∈ s.gone := by simpa [Change.erased] using known id member
      rw [table, Function.update_of_ne (ledger.known id old).ne] at found
      exact parted id old conn found
    | @holds held conn' _ table =>
      by_cases same : id = held
      · subst same
        obtain rfl : conn' = conn := by simpa [table] using found
        exact dispatched id conn' rfl member
      · have old : id ∈ s.gone := by simpa [Change.erased, Ne.symm same] using known id member
        rw [table, Function.update_of_ne same] at found
        exact parted id old conn found
    | @removes erased _ table | @streams erased _ table =>
      by_cases same : id = erased
      · simp [table, same] at found
      · have old : id ∈ s.gone := by simpa [Change.erased, same] using known id member
        rw [table, Function.update_of_ne same] at found
        exact parted id old conn found

/-- A step keeps the books exactly if it opens no event stream and what it leaves of a connection
with a gone peer waits for an answer. -/
theorem bookkept_step (books : Books s) (kept : Bookkept s)
    (event : PollEvent) (known : ∀ id ∈ gone_after s event, id ∈ s.gone ∨
      (∃ conn, s.server.change cfg event.event = .holds id conn) ∨
        id ∈ (s.server.change cfg event.event).erased) :
    Bookkept (poll_step cfg s event) ↔
      (∀ id conn, s.server.change cfg event.event = .holds id conn → id ∈ gone_after s event →
        conn.dispatched = true) ∧
      (s.server.change cfg event.event).erased ⊆ (s.server.change cfg event.event).decrements := by
  obtain ⟨parted, accounted⟩ := (bookkept_iff books).mp kept
  have moves := moves_step cfg s.server event.event
  rw [bookkept_iff (books_step cfg books event)]
  exact and_congr (parted_iff books.ledger parted moves known) (accounted_iff books.ledger accounted moves _)

end Counts

section Exits

variable {H : Type} {cfg : ServerConfig H} {id held : Nat} {conn conn' : HttpConnection} {chunk : Bytes}
  {closed : Bool} {handled : HandlerRun}

open ServerState

theorem read_change_waits (waits : receive cfg conn chunk closed = .waits conn') :
    read_change cfg id conn chunk closed handled = .holds id conn' := by
  simp only [read_change, waits]

theorem read_change_holds (holds : read_change cfg id conn chunk closed handled = .holds held conn') :
    held = id ∧ (receive cfg conn chunk closed = .waits conn' ∨
      ∃ req, receive cfg conn chunk closed = .reads conn' req) := by
  simp only [read_change] at holds
  split at holds
  · next waits =>
    cases holds
    exact ⟨rfl, .inl waits⟩
  · cases holds
  · cases holds
  · next req reads =>
    split at holds
    · split at holds <;> cases holds
    · cases holds
    · cases holds
      exact ⟨rfl, .inr ⟨req, reads⟩⟩

/-- A read of a connection holds it or takes it out of the table. -/
theorem read_change_touches : (∃ conn', read_change cfg id conn chunk closed handled = .holds id conn') ∨
    id ∈ (read_change cfg id conn chunk closed handled).erased := by
  simp only [read_change]
  split
  · exact .inl ⟨_, rfl⟩
  · exact .inr List.mem_cons_self
  · exact .inr List.mem_cons_self
  · split
    · split <;> exact .inr List.mem_cons_self
    · exact .inr List.mem_cons_self
    · exact .inl ⟨_, rfl⟩

theorem read_change_counted : (read_change cfg id conn chunk closed handled).erased ⊆
      (read_change cfg id conn chunk closed handled).decrements ↔
    ∀ conn' req req', receive cfg conn chunk closed = .reads conn' req → route cfg req = .sse req' →
      handled.accepted = false := by
  simp only [read_change]
  cases receive cfg conn chunk closed with
  | waits | leaves | refuses => simp [Change.erased, Change.decrements]
  | reads conn' req =>
    cases routed : route cfg req with
    | sse req' => cases accepted : handled.accepted <;> simp [Change.erased, Change.decrements, routed]
    | inlined | worker =>
      refine iff_of_true (by simp [Change.erased, Change.decrements, routed]) ?_
      rintro _ _ req' same
      cases same
      simp [routed]

theorem sent_change_counted (id : Nat) (conn : HttpConnection) (fully_sent : Bool) :
    (sent_change id conn fully_sent).erased ⊆ (sent_change id conn fully_sent).decrements := by
  rw [sent_change]
  split <;> simp [Change.erased, Change.decrements]

theorem respond_change_counted (conn : HttpConnection) (result : WorkResult) (done : Option Bool) :
    (respond_change conn result done).erased ⊆ (respond_change conn result done).decrements := by
  cases done with
  | none => simp [respond_change, Change.erased]
  | some fully_sent => exact sent_change_counted ..

/-- A kept connection has no request under way. -/
theorem sent_change_holds {fully_sent : Bool} {gone : List Nat} :
    (∀ held conn', sent_change id conn fully_sent = .holds held conn' → held ∈ gone →
      conn'.dispatched = true) ↔
    (fully_sent = true → id ∈ gone → conn.send_keep_alive = false) := by
  rw [sent_change]
  split
  · next kept =>
    obtain ⟨keep, full⟩ := Bool.and_eq_true_iff.mp kept
    simp [full, keep, HttpConnection.again]
  · next ended =>
    cases keep : conn.send_keep_alive <;> simp_all

end Exits

section Runs

variable {H : Type} {cfg : ServerConfig H} {s : PollState H} {id : Nat} {conn : HttpConnection}

theorem bookkept_read (books : Books s) (kept : Bookkept s)
    (data : Bytes) (recvs : List Recv) (handled : HandlerRun) :
    Bookkept (poll_step cfg s (.read id data recvs handled)) ↔ Clean cfg s (.read id data recvs handled) := by
  have parted := ((bookkept_iff books).mp kept).1
  rw [bookkept_step books kept]
  · cases found : s.server.connections id with
    | none => simp [PollEvent.event, ServerState.change, Clean, found, Change.erased]
    | some conn =>
      simp only [PollEvent.event, ServerState.change, Clean, found, Option.elim_some, Option.some.injEq,
        forall_eq']
      refine and_congr ?_ read_change_counted
      have course := receive_course cfg conn (arrived data recvs).1 (arrived data recvs).2
      constructor
      · intro answered gone idle
        by_contra open_
        obtain ⟨conn', waits⟩ := (course.waits_iff idle).mpr open_
        have dispatched := answered id conn' (read_change_waits waits) (by simp [gone_after, gone, found])
        rw [(course.waits waits).1] at dispatched
        exact absurd dispatched (by simp [idle])
      · intro conclusive held conn' holds member
        obtain ⟨rfl, waits | ⟨req, reads⟩⟩ := read_change_holds holds
        · rw [(course.waits waits).1]
          by_contra answered
          have idle : conn.dispatched = false := by simpa using answered
          by_cases gone : finds_gone data recvs = true
          · exact (course.waits_iff idle).mp ⟨conn', waits⟩ (conclusive gone idle)
          · have old : held ∈ s.gone := by simpa [gone_after, gone] using member
            exact absurd (parted held old conn found) (by simp [idle])
        · exact course.reads reads
  · intro c member
    simp only [gone_after] at member
    split at member
    · next found =>
      rcases List.mem_cons.mp member with rfl | old
      · obtain ⟨conn, there⟩ := Option.isSome_iff_exists.mp (Bool.and_eq_true_iff.mp found).2
        simp only [PollEvent.event, ServerState.change, there, Option.elim_some]
        exact .inr read_change_touches
      · exact .inl old
    · exact .inl member

theorem bookkept_quiet (books : Books s) (kept : Bookkept s)
    {event : PollEvent} (quiet : gone_after s event = s.gone) :
    Bookkept (poll_step cfg s event) ↔
      (∀ id conn, s.server.change cfg event.event = .holds id conn → id ∈ s.gone →
        conn.dispatched = true) ∧
      (s.server.change cfg event.event).erased ⊆ (s.server.change cfg event.event).decrements := by
  rw [bookkept_step books kept event (fun id member => .inl (quiet ▸ member)), quiet]

/-- One step keeps the books exactly if it is clean. -/
theorem bookkept_iff_clean (books : Books s) (kept : Bookkept s)
    (event : PollEvent) : Bookkept (poll_step cfg s event) ↔ Clean cfg s event := by
  cases event with
  | read id data recvs handled => exact bookkept_read books kept data recvs handled
  | accept remote_addr =>
    rw [bookkept_quiet books kept rfl]
    simp [PollEvent.event, ServerState.change, Clean, Change.erased]
  | work i handled =>
    rw [bookkept_quiet books kept rfl]
    simp [PollEvent.event, ServerState.change, Clean, Change.erased]
  | respond done =>
    rw [bookkept_quiet books kept rfl]
    cases first : s.server.result_channel with
    | nil => simp [PollEvent.event, ServerState.change, Clean, first, Change.erased]
    | cons result results =>
      cases found : s.server.connections result.connection_id with
      | none => simp [PollEvent.event, ServerState.change, Clean, first, found, Change.erased]
      | some conn =>
        simp only [PollEvent.event, ServerState.change, Clean, first, found, List.head?_cons,
          Option.elim_some, respond_change_counted, and_true]
        cases done with
        | none => simp [ServerState.respond_change]
        | some fully_sent =>
          simp only [ServerState.respond_change]
          rw [sent_change_holds]
          simp [found]
  | send_done id fully_sent =>
    rw [bookkept_quiet books kept rfl]
    cases found : s.server.connections id with
    | none => simp [PollEvent.event, ServerState.change, Clean, found, Change.erased]
    | some conn =>
      simp only [PollEvent.event, ServerState.change, Clean, found, Option.elim_some,
        sent_change_counted, and_true, Option.some.injEq, forall_eq']
      exact sent_change_holds

theorem bookkept_start : Bookkept ({} : PollState H) :=
  (bookkept_iff books_start).mpr ⟨nofun, fun id positive below => by
    have : id < 1 := below
    omega⟩

/-- Connections leave the table with their peers, and are counted off once, in every state of a run
exactly if all its steps are clean. -/
theorem PollState.bookkept_always_iff (cfg : ServerConfig H) (events : List PollEvent) :
    Always (poll_step cfg) Bookkept {} events ↔ Throughout (poll_step cfg) (Clean cfg) {} events :=
  always_iff_throughout (I := Books) (Q := Bookkept)
    (fun _ event books _ _ => books_step cfg books event)
    (fun _ event books kept => bookkept_iff_clean books kept event) books_start bookkept_start events

example : (run (poll_step ({} : ServerConfig Unit)) {}
    [.accept [], .read 1 [] [.received []] {}]).decremented = [1] := rfl

/-- A client that hangs up in the middle of its first line stays in the table. -/
theorem PollState.half_line_kept : ¬∀ events : List PollEvent,
    Always (poll_step ({} : ServerConfig Unit)) Bookkept {} events := by
  intro always
  have kept := (always [.accept [], .read 1 [] [.received (bytes "GET "), .received []] {}]).2.2
  have waits : ∃ conn, ((poll_step ({} : ServerConfig Unit))
      (poll_step ({} : ServerConfig Unit) {} (.accept []))
      (.read 1 [] [.received (bytes "GET "), .received []] {})).server.connections 1 = some conn ∧
        conn.dispatched = false := ⟨_, rfl, rfl⟩
  obtain ⟨conn, found, idle⟩ := waits
  have dispatched := (kept.gone 1 (by decide +kernel) conn found).1
  exact absurd dispatched (by simp [idle])

end Runs

end AoSdl.http
