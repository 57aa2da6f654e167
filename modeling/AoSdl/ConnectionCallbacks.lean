import AoSdl.Lib.Pairing
import AoSdl.SendQueue
import AoSdl.WebSocketPoll

/-! When the server tells the application that a connection is there and that it is gone. A call
changes the connections under the lock and fires its callbacks after that; a callback may make
calls itself, whose callbacks come before those that are still to be fired. Ids count the
connections. -/
namespace AoSdl
open Lib.Pairing Lib.Runs

abbrev PolledServer.Callback := Notice Nat

abbrev PolledServer.on_connected (id : Nat) : PolledServer.Callback := .opened id

abbrev PolledServer.on_disconnected (id : Nat) : PolledServer.Callback := .closed id

structure QueuedSend where
  client_id : Nat
  data : Bytes
  deriving DecidableEq

structure QueuedClose where
  client_id : Nat
  code : UInt16
  reason : Bytes
  deriving DecidableEq

/-- What a call still has to do outside the lock, or in its next section under it. -/
inductive PolledServer.Task where
  | callback (c : PolledServer.Callback)
  | close_client (close : QueuedClose)
  | send_all (to_send : List QueuedSend)
  deriving DecidableEq

def PolledServer.Task.notice : PolledServer.Task → Option PolledServer.Callback
  | .callback c => some c
  | _ => none

structure PolledServer where
  clients_ : Nat → Option Connection := fun _ => none
  next_client_id_ : Nat := 1
  running_ : Bool := true
  global_send_queue_ : List QueuedSend := []
  deferred_close_queue_ : List QueuedClose := []
  /-- The callbacks that were fired. -/
  fired : List PolledServer.Callback := []
  /-- What the calls under way still have to do, the innermost call first. -/
  todo : List PolledServer.Task := []

namespace PolledServer

open WebSocketServer

variable (cfg : PollConfig)

/-- The connections in the order of the map. -/
def ids (s : PolledServer) : List Nat :=
  (List.range s.next_client_id_).filter fun id => (s.clients_ id).isSome

def complete (s : PolledServer) (id : Nat) : Bool := (s.clients_ id).any (·.handshake_complete)

/-- Leaves callbacks to be fired once the lock is released. -/
def tell (opens closes : List Nat) (s : PolledServer) : PolledServer :=
  { s with todo := opens.map (fun id => .callback (on_connected id)) ++
      closes.map (fun id => .callback (on_disconnected id)) ++ s.todo }

def remove_client (s : PolledServer) (id : Nat) : PolledServer :=
  { s with clients_ := Function.update s.clients_ id none }

def send_wire (s : PolledServer) (id : Nat) (wire : Bytes) : PolledServer :=
  { s with clients_ := Function.update s.clients_ id ((s.clients_ id).map fun client =>
      { client with sent := client.sent ++ [wire] }) }

def accept_new_client (now : Int) (s : PolledServer) (remote_addr : Bytes) : PolledServer :=
  { s with
    clients_ := Function.update s.clients_ s.next_client_id_
      (some { remote_addr, connected_at := now, last_data_at := now })
    next_client_id_ := s.next_client_id_ + 1 }

/-- The sockets `poll` accepts and the events it dispatches. -/
def arrive (now : Int) (accepted : List Bytes) (turns : Nat → Turn) (s : PolledServer) :
    PolledServer :=
  let s := accepted.foldl (accept_new_client now) s
  { s with clients_ := fun id => (s.clients_ id).map (dispatch (turns id)) }

def visits (now : Int) (turns : Nat → Turn) (s : PolledServer) (id : Nat) : Option Visit :=
  (s.clients_ id).map (visit cfg now (turns id))

/-- The loop of `poll` over the connections. -/
def visit_all (now : Int) (turns : Nat → Turn) (s : PolledServer) :
    PolledServer × List (Nat × WebSocketFrame) :=
  let newly_connected := s.ids.filter fun id => (visits cfg now turns s id).any (·.connected)
  let dead_clients := s.ids.filter fun id => (visits cfg now turns s id).any (·.dead)
  let result := s.ids.flatMap fun id =>
    ((visits cfg now turns s id).elim [] (·.frames)).map fun frame => (id, frame)
  let visited := { s with clients_ := fun id => (visits cfg now turns s id).map (·.client) }
  (tell newly_connected dead_clients (dead_clients.foldl remove_client visited), result)

def poll (now : Int) (accepted : List Bytes) (turns : Nat → Turn) (s : PolledServer) :
    PolledServer × List (Nat × WebSocketFrame) :=
  if !s.running_ then (s, []) else visit_all cfg now turns (s.arrive now accepted turns)

/-- The socket throws if `fails`. -/
def send (id : Nat) (data : Bytes) (fails : Bool) (s : PolledServer) : PolledServer :=
  if !s.complete id then s
  else if fails then tell [] [id] (s.remove_client id)
  else s.send_wire id (text_frame data).serialize

/-- The sockets of the ids in `fails` throw. -/
def broadcast (data : Bytes) (fails : Nat → Bool) (s : PolledServer) : PolledServer :=
  let dead_clients := s.ids.filter fun id => s.complete id && fails id
  let reached := s.ids.filter fun id => s.complete id && !fails id
  let sent := reached.foldl (fun s id => s.send_wire id (text_frame data).serialize) s
  tell [] dead_clients (dead_clients.foldl remove_client sent)

/-- The connection is dropped with its `CLOSE` frame, which it may be too late to send. -/
def close_client (close : QueuedClose) (s : PolledServer) : PolledServer :=
  match s.clients_ close.client_id with
  | none => s
  | some _ => tell [] [close.client_id] (s.remove_client close.client_id)

def stop (s : PolledServer) : PolledServer :=
  if !s.running_ then s
  else
    let all_ids := s.ids.filter s.complete
    tell [] all_ids { s with running_ := false, clients_ := fun _ => none }

/-- The first section of `flush_sends`. -/
def flush_sends (s : PolledServer) : PolledServer :=
  { s with
    global_send_queue_ := []
    deferred_close_queue_ := []
    todo := s.deferred_close_queue_.map .close_client ++ .send_all s.global_send_queue_ :: s.todo }

/-- The sends of the flush to connections with a complete handshake, by their places. -/
def deliverable (s : PolledServer) (to_send : List QueuedSend) : List (QueuedSend × Nat) :=
  to_send.zipIdx.filter fun item => s.complete item.1.client_id

/-- The last section of `flush_sends`. The socket throws at the places in `fails`. -/
def send_all (to_send : List QueuedSend) (fails : Nat → Bool) (s : PolledServer) : PolledServer :=
  let dead_clients := ((s.deliverable to_send).filter fun item => fails item.2).map (·.1.client_id)
  let reached := (s.deliverable to_send).filter fun item => !fails item.2
  let sent := reached.foldl (fun s item => s.send_wire item.1.client_id item.1.data) s
  tell [] dead_clients (dead_clients.foldl remove_client sent)

/-- The innermost call goes on. -/
def next (fails : Nat → Bool) (s : PolledServer) : PolledServer :=
  match s.todo with
  | [] => s
  | .callback c :: todo => { s with fired := s.fired ++ [c], todo }
  | .close_client close :: todo => close_client close { s with todo }
  | .send_all to_send :: todo => send_all to_send fails { s with todo }

inductive Event where
  | poll (now : Int) (accepted : List Bytes) (turns : Nat → Turn)
  | send (client_id : Nat) (data : Bytes) (fails : Bool)
  | broadcast (data : Bytes) (fails : Nat → Bool)
  | close_client (close : QueuedClose)
  | stop
  | queue_send (item : QueuedSend)
  | close_client_deferred (close : QueuedClose)
  | flush_sends
  | next (fails : Nat → Bool)

def step (s : PolledServer) : Event → PolledServer
  | .poll now accepted turns => (poll cfg now accepted turns s).1
  | .send client_id data fails => send client_id data fails s
  | .broadcast data fails => broadcast data fails s
  | .close_client close => close_client close s
  | .stop => stop s
  | .queue_send item => { s with global_send_queue_ := s.global_send_queue_ ++ [item] }
  | .close_client_deferred close =>
    { s with deferred_close_queue_ := s.deferred_close_queue_ ++ [close] }
  | .flush_sends => flush_sends s
  | .next fails => next fails s

/-- The callbacks pair up. What is removed may still wait for its callback while a call is under way. -/
structure Paired (s : PolledServer) : Prop where
  once : ∀ id, s.fired.count (on_disconnected id) ≤ 1
  after : ∀ id before rest, s.fired = before ++ on_disconnected id :: rest → on_connected id ∈ before
  gone : s.todo = [] → ∀ id, on_connected id ∈ s.fired → s.clients_ id = none →
    s.fired.count (on_disconnected id) = 1

/-- The `on_connected` of the connection is still to be fired. -/
def Waiting (s : PolledServer) (id : Nat) : Prop := .callback (on_connected id) ∈ s.todo

instance (s : PolledServer) (id : Nat) : Decidable (s.Waiting id) :=
  inferInstanceAs (Decidable (_ ∈ _))

/-- Closing the connection drops one that is announced, or nothing. -/
def Closable (s : PolledServer) (id : Nat) : Prop :=
  (s.clients_ id).isSome → s.complete id ∧ ¬ s.Waiting id

instance (s : PolledServer) (id : Nat) : Decidable (s.Closable id) :=
  inferInstanceAs (Decidable (_ → _ ∧ _))

/-- The condition on the next task of the innermost call. -/
def OrderlyTask (s : PolledServer) (fails : Nat → Bool) : List Task → Prop
  | .close_client close :: _ => s.Closable close.client_id
  | .send_all to_send :: _ =>
    (((s.deliverable to_send).filter fun item => fails item.2).map (·.1.client_id)).Nodup ∧
      ∀ item ∈ s.deliverable to_send, fails item.2 → ¬ s.Waiting item.1.client_id
  | _ => True

instance (s : PolledServer) (fails : Nat → Bool) : (todo : List Task) → Decidable (s.OrderlyTask fails todo)
  | .close_client close :: _ => inferInstanceAs (Decidable (s.Closable close.client_id))
  | .send_all _ :: _ => inferInstanceAs (Decidable (_ ∧ ∀ item ∈ _, _ → _))
  | .callback _ :: _ => .isTrue trivial
  | [] => .isTrue trivial

/-- No connection is dropped before its `on_connected`: none ends before its handshake is complete,
and no callback drops one whose `on_connected` is still to be fired. No two sends of a flush throw
for one connection. -/
def Orderly (s : PolledServer) : Event → Prop
  | .poll now accepted turns => s.running_ = true →
    ∀ id ∈ (s.arrive now accepted turns).ids, ∀ client ∈ (s.arrive now accepted turns).clients_ id,
      (client.handshake_complete = false → lost cfg now (turns id) client = false) ∧
      (s.Waiting id → (visit cfg now (turns id) client).dead = false)
  | .send id _ fails => s.complete id → fails → ¬ s.Waiting id
  | .broadcast _ fails => ∀ id ∈ s.ids, s.complete id → fails id → ¬ s.Waiting id
  | .close_client close => s.Closable close.client_id
  | .stop => s.running_ = true → ∀ id ∈ s.ids, s.complete id → ¬ s.Waiting id
  | .next fails => s.OrderlyTask fails s.todo
  | _ => True

instance (s : PolledServer) : (e : Event) → Decidable (Orderly cfg s e)
  | .poll _ _ _ => inferInstanceAs (Decidable (_ → ∀ id ∈ _, ∀ client ∈ _, (_ → _) ∧ (_ → _)))
  | .send _ _ _ => inferInstanceAs (Decidable (_ → _ → _))
  | .broadcast _ _ => inferInstanceAs (Decidable (∀ id ∈ _, _ → _ → _))
  | .close_client close => inferInstanceAs (Decidable (s.Closable close.client_id))
  | .stop => inferInstanceAs (Decidable (_ → ∀ id ∈ _, _ → _))
  | .next fails => inferInstanceAs (Decidable (s.OrderlyTask fails s.todo))
  | .queue_send _ | .close_client_deferred _ | .flush_sends => .isTrue trivial

/-- What the map knows of a connection. -/
def status (s : PolledServer) (id : Nat) : Option Bool := (s.clients_ id).map (·.handshake_complete)

/-- The callbacks that were fired, then those that are to be. -/
def line (s : PolledServer) : List Callback := s.fired ++ s.todo.filterMap Task.notice

/-- The callbacks agree with the map, and ids that were not given yet do not occur. -/
structure Told (s : PolledServer) : Prop where
  agrees : Agrees s.status s.line
  fresh : ∀ id, s.next_client_id_ ≤ id →
    s.clients_ id = none ∧ on_connected id ∉ s.line ∧ on_disconnected id ∉ s.line

/-- A section under the lock, as far as the callbacks go. -/
structure Does (s s' : PolledServer) (opens closes : List Nat) : Prop where
  step : Section s.status s'.status s.fired opens closes
  fired : s'.fired = s.fired
  todo : s'.todo.filterMap Task.notice =
    opens.map .opened ++ closes.map .closed ++ s.todo.filterMap Task.notice
  next_id : s'.next_client_id_ = s.next_client_id_
  absent : ∀ id, s.clients_ id = none → s'.clients_ id = none

/-- What is written to the sockets changes nothing that the callbacks are about. -/
structure Quiet (s s' : PolledServer) : Prop where
  status : s'.status = s.status
  fired : s'.fired = s.fired
  todo : s'.todo = s.todo
  next_id : s'.next_client_id_ = s.next_client_id_

section Proof

variable {cfg} {s s' s'' : PolledServer} {id : Nat}

theorem complete_iff : s.complete id = true ↔ s.status id = some true := by
  unfold complete status
  cases s.clients_ id <;> simp

theorem status_none : s.status id = none ↔ s.clients_ id = none := Option.map_eq_none_iff

theorem status_false (present : (s.clients_ id).isSome) (incomplete : s.complete id ≠ true) :
    s.status id = some false := by
  obtain ⟨client, there⟩ := Option.isSome_iff_exists.mp present
  simp only [complete, there, Option.any_some] at incomplete
  simp [status, there, incomplete]

theorem mem_ids (told : Told s) : id ∈ s.ids ↔ (s.clients_ id).isSome := by
  unfold ids
  rw [List.mem_filter, List.mem_range, and_iff_right_iff_imp]
  intro present
  by_contra late
  rw [(told.fresh id (Nat.le_of_not_lt late)).1] at present
  cases present

theorem ids_nodup (s : PolledServer) : s.ids.Nodup := List.nodup_range.filter _

/-- Of a complete connection that does not wait for it, `on_connected` was fired. -/
theorem Told.announced (told : Told s) (complete : s.complete id) (arrived : ¬ s.Waiting id) :
    on_connected id ∈ s.fired := by
  have told_open := (told.agrees.present id true (complete_iff.mp complete)).2.mpr rfl
  rcases List.mem_append.mp told_open with fired | waits
  · exact fired
  · obtain ⟨task, member, notice⟩ := List.mem_filterMap.mp waits
    cases task with
    | callback c =>
      cases notice
      exact absurd member arrived
    | close_client _ => cases notice
    | send_all _ => cases notice

theorem Told.does {opens closes : List Nat} (told : Told s) (does : Does s s' opens closes) :
    Told s' := by
  have line_eq : s'.line = s.fired ++ (opens.map .opened ++ closes.map .closed) ++
      s.todo.filterMap Task.notice := by
    rw [line, does.fired, does.todo, List.append_assoc, List.append_assoc]
    simp
  refine ⟨line_eq ▸ told.agrees.step does.step, fun id late => ?_⟩
  obtain ⟨absent, never_opened, never_closed⟩ := told.fresh id (does.next_id ▸ late)
  have gone := status_none.mpr absent
  rw [line_eq, mem_opened, mem_closed]
  refine ⟨does.absent id absent, not_or.mpr ⟨never_opened, fun new => ?_⟩,
    not_or.mpr ⟨never_closed, fun lost => ?_⟩⟩
  · rw [does.step.opens_fresh id new] at gone
    cases gone
  · obtain ⟨isOpen, there⟩ := does.step.there lost
    rw [there] at gone
    cases gone

theorem Quiet.refl (s : PolledServer) : Quiet s s := ⟨rfl, rfl, rfl, rfl⟩

theorem Quiet.trans (first : Quiet s s') (second : Quiet s' s'') : Quiet s s'' :=
  ⟨second.status.trans first.status, second.fired.trans first.fired, second.todo.trans first.todo,
    second.next_id.trans first.next_id⟩

theorem send_wire_quiet (s : PolledServer) (id : Nat) (wire : Bytes) : Quiet s (s.send_wire id wire) := by
  refine ⟨funext fun i => ?_, rfl, rfl, rfl⟩
  unfold status send_wire
  by_cases same : i = id
  · subst same
    cases s.clients_ i <;> simp
  · simp [same]

theorem foldl_quiet {α : Type} (write : PolledServer → α → PolledServer)
    (quiet : ∀ s a, Quiet s (write s a)) (items : List α) (s : PolledServer) :
    Quiet s (items.foldl write s) := by
  induction items generalizing s with
  | nil => exact Quiet.refl s
  | cons a items ih => exact (quiet s a).trans (ih (write s a))

theorem foldl_remove_client (gone : List Nat) (s : PolledServer) :
    gone.foldl remove_client s =
      { s with clients_ := fun id => if id ∈ gone then none else s.clients_ id } := by
  induction gone generalizing s with
  | nil => simp
  | cons id gone ih =>
    rw [List.foldl_cons, ih]
    unfold remove_client
    congr 1
    funext i
    by_cases same : i = id
    · subst same
      simp
    · simp [same]

theorem tell_notices (opens closes : List Nat) (s : PolledServer) :
    (tell opens closes s).todo.filterMap Task.notice =
      opens.map .opened ++ closes.map .closed ++ s.todo.filterMap Task.notice := by
  simp [tell, List.filterMap_append, List.filterMap_map, Task.notice, Function.comp_def]

theorem drop_does {closes : List Nat} (quiet : Quiet s s') (single : closes.Nodup)
    (announced : ∀ id ∈ closes, s.complete id ∧ on_connected id ∈ s.fired) :
    Does s (tell [] closes (closes.foldl remove_client s')) [] closes := by
  have status_eq (id : Nat) : (tell [] closes (closes.foldl remove_client s')).status id =
      if id ∈ closes then none else s.status id := by
    rw [← quiet.status, foldl_remove_client]
    simp only [status, tell]
    split <;> rfl
  refine ⟨⟨fun id member => absurd member List.not_mem_nil, single, fun id member => ?_,
    fun id member => ?_, fun id kept => ?_⟩, ?_, ?_, ?_, fun id absent => ?_⟩
  · exact .inl ⟨complete_iff.mp (announced id member).1, (announced id member).2⟩
  · rw [status_eq, if_pos member]
  · rw [status_eq, if_neg kept, if_neg List.not_mem_nil]
    exact .inl rfl
  · rw [foldl_remove_client]
    exact quiet.fired
  · rw [tell_notices, foldl_remove_client]
    exact congrArg (_ ++ List.filterMap Task.notice ·) quiet.todo
  · rw [foldl_remove_client]
    exact quiet.next_id
  · have gone := status_eq id
    rw [status_none.mpr absent, ite_self] at gone
    exact status_none.mp gone

theorem quiet_does (quiet : Quiet s s') : Does s s' [] [] := by
  refine ⟨⟨fun id member => absurd member List.not_mem_nil, List.nodup_nil,
    fun id member => absurd member List.not_mem_nil, fun id member => absurd member List.not_mem_nil,
    fun id _ => .inl ?_⟩, quiet.fired, ?_, quiet.next_id, fun id absent => ?_⟩
  · rw [quiet.status, if_neg List.not_mem_nil]
  · rw [quiet.todo]
    rfl
  · rw [← status_none, quiet.status, status_none, absent]

theorem arrive_todo (s : PolledServer) (now : Int) (accepted : List Bytes) (turns : Nat → Turn) :
    (s.arrive now accepted turns).todo = s.todo := by
  unfold arrive
  induction accepted generalizing s with
  | nil => rfl
  | cons remote_addr accepted ih => exact ih (accept_new_client now s remote_addr)

theorem arrive_told (told : Told s) (now : Int) (accepted : List Bytes) (turns : Nat → Turn) :
    Told (s.arrive now accepted turns) := by
  have accepts : Told (accepted.foldl (accept_new_client now) s) := by
    induction accepted generalizing s with
    | nil => exact told
    | cons remote_addr accepted ih =>
      refine ih ⟨?_, fun id late => ?_⟩
      · obtain ⟨absent, never_opened, never_closed⟩ := told.fresh _ (Nat.le_refl s.next_client_id_)
        have added : (accept_new_client now s remote_addr).status =
            Function.update s.status s.next_client_id_ (some false) := by
          funext i
          unfold status accept_new_client
          by_cases same : i = s.next_client_id_
          · subst same
            simp
          · simp [same]
        rw [added]
        exact told.agrees.add never_opened never_closed
      · have old := told.fresh id (Nat.le_of_succ_le late)
        exact ⟨(Function.update_of_ne (Nat.ne_of_gt late) _ _).trans old.1, old.2⟩
  have same : (s.arrive now accepted turns).status =
      (accepted.foldl (accept_new_client now) s).status := by
    funext id
    unfold status arrive
    simp only [Option.map_map]
    rfl
  refine ⟨same ▸ accepts.agrees, fun id late => ?_⟩
  obtain ⟨absent, never⟩ := accepts.fresh id late
  exact ⟨congrArg (Option.map (dispatch (turns id))) absent, never⟩

theorem visit_all_does (told : Told s) (cfg : PollConfig) (now : Int) (turns : Nat → Turn)
    (orderly : ∀ id ∈ s.ids, ∀ client ∈ s.clients_ id,
      (client.handshake_complete = false → lost cfg now (turns id) client = false) ∧
      (s.Waiting id → (visit cfg now (turns id) client).dead = false)) :
    ∃ opens closes, Does s (visit_all cfg now turns s).1 opens closes := by
  have member (id : Nat) (p : Visit → Bool) :
      id ∈ s.ids.filter (fun id => (visits cfg now turns s id).any p) ↔
        ∃ client, s.clients_ id = some client ∧ p (visit cfg now (turns id) client) = true := by
    rw [List.mem_filter, mem_ids told, visits]
    cases s.clients_ id <;> simp
  have clients (id : Nat) : (visit_all cfg now turns s).1.clients_ id =
      if id ∈ s.ids.filter fun id => (visits cfg now turns s id).any (·.dead) then none
      else (visits cfg now turns s id).map (·.client) := by
    rw [visit_all, foldl_remove_client]
    rfl
  refine ⟨s.ids.filter fun id => (visits cfg now turns s id).any (·.connected),
    s.ids.filter fun id => (visits cfg now turns s id).any (·.dead),
    ⟨fun id new => ?_, (ids_nodup s).filter _, fun id gone => ?_, fun id gone => ?_, fun id kept => ?_⟩,
    ?_, ?_, ?_, fun id absent => ?_⟩
  · obtain ⟨client, there, connected⟩ := (member id _).mp new
    have incomplete : client.handshake_complete = false := by
      by_contra complete
      have old := (visit_spec cfg now (turns id) client).1 (by simpa using complete)
      rw [old] at connected
      cases connected
    simp [status, there, incomplete]
  · obtain ⟨client, there, dead⟩ := (member id _).mp gone
    obtain ⟨fair, patient⟩ := orderly id ((mem_ids told).mpr (by simp [there])) client there
    obtain ⟨_, ends, _⟩ := visit_spec cfg now (turns id) client
    cases complete : client.handshake_complete with
    | true =>
      have open_ : s.complete id := by simp [PolledServer.complete, there, complete]
      have arrived : ¬ s.Waiting id := fun waits => by simp [patient waits] at dead
      exact .inl ⟨complete_iff.mp open_, told.announced open_ arrived⟩
    | false =>
      refine .inr ((member id _).mpr ⟨client, there, ?_⟩)
      by_contra old
      rw [ends complete (by simpa using old), fair complete] at dead
      cases dead
  · rw [status, clients, if_pos gone]
    rfl
  · rw [status, clients, if_neg kept]
    refine .inl ?_
    cases there : s.clients_ id with
    | none => simp [visits, status, there]
    | some client =>
      have after := (visit_spec cfg now (turns id) client).2.2
      have new := member id (·.connected)
      simp only [there, Option.some.injEq, exists_eq_left'] at new
      simp only [new]
      cases connected : (visit cfg now (turns id) client).connected <;>
        simp [visits, status, there, after, connected]
  · rw [visit_all, foldl_remove_client]
    rfl
  · rw [visit_all, tell_notices, foldl_remove_client]
  · rw [visit_all, foldl_remove_client]
    rfl
  · rw [clients, visits, absent]
    exact ite_self _

theorem close_client_does (told : Told s) {close : QueuedClose} (closable : s.Closable close.client_id) :
    ∃ closes, Does s (close_client close s) [] closes := by
  unfold close_client
  split
  · exact ⟨[], quiet_does (Quiet.refl s)⟩
  · next client there =>
    obtain ⟨complete, arrived⟩ := closable (by simp [there])
    refine ⟨[close.client_id], drop_does (Quiet.refl s) (List.nodup_singleton _) fun id member => ?_⟩
    obtain rfl := List.mem_singleton.mp member
    exact ⟨complete, told.announced complete arrived⟩

theorem send_does (told : Told s) (data : Bytes) {fails : Bool}
    (arrived : s.complete id → fails → ¬ s.Waiting id) :
    ∃ closes, Does s (send id data fails s) [] closes := by
  unfold send
  split
  · exact ⟨[], quiet_does (Quiet.refl s)⟩
  · next complete =>
    have complete : s.complete id := by simpa using complete
    split
    · next throws =>
      refine ⟨[id], drop_does (Quiet.refl s) (List.nodup_singleton _) fun i member => ?_⟩
      obtain rfl := List.mem_singleton.mp member
      exact ⟨complete, told.announced complete (arrived complete throws)⟩
    · exact ⟨[], quiet_does (send_wire_quiet s id _)⟩

theorem broadcast_does (told : Told s) (data : Bytes) {fails : Nat → Bool}
    (arrived : ∀ id ∈ s.ids, s.complete id → fails id → ¬ s.Waiting id) :
    ∃ closes, Does s (broadcast data fails s) [] closes := by
  refine ⟨_, drop_does (foldl_quiet _ (fun s id => send_wire_quiet s id _) _ s)
    ((ids_nodup s).filter _) fun id member => ?_⟩
  obtain ⟨inside, throws⟩ := List.mem_filter.mp member
  obtain ⟨complete, throws⟩ := (Bool.and_eq_true _ _).mp throws
  exact ⟨complete, told.announced complete (arrived id inside complete throws)⟩

theorem send_all_does (told : Told s) {to_send : List QueuedSend} {fails : Nat → Bool}
    (single : (((s.deliverable to_send).filter fun item => fails item.2).map (·.1.client_id)).Nodup)
    (arrived : ∀ item ∈ s.deliverable to_send, fails item.2 → ¬ s.Waiting item.1.client_id) :
    ∃ closes, Does s (send_all to_send fails s) [] closes := by
  refine ⟨_, drop_does (foldl_quiet _ (fun s item => send_wire_quiet s _ _) _ s) single
    fun id member => ?_⟩
  obtain ⟨item, inside, rfl⟩ := List.mem_map.mp member
  obtain ⟨item_in, throws⟩ := List.mem_filter.mp inside
  have complete := (List.mem_filter.mp item_in).2
  exact ⟨complete, told.announced complete (arrived item item_in throws)⟩

theorem stop_does (told : Told s)
    (arrived : s.running_ = true → ∀ id ∈ s.ids, s.complete id → ¬ s.Waiting id) :
    ∃ closes, Does s (stop s) [] closes := by
  unfold stop
  split
  · exact ⟨[], quiet_does (Quiet.refl s)⟩
  · next running =>
    have running : s.running_ = true := by simpa using running
    refine ⟨s.ids.filter s.complete, ⟨fun id member => absurd member List.not_mem_nil,
      (ids_nodup s).filter _, fun id member => ?_, fun _ _ => rfl, fun id untold => ?_⟩, rfl,
      tell_notices _ _ _, rfl, fun _ _ => rfl⟩
    · obtain ⟨inside, complete⟩ := List.mem_filter.mp member
      exact .inl ⟨complete_iff.mp complete, told.announced complete (arrived running id inside complete)⟩
    · cases present : (s.clients_ id).isSome with
      | false =>
        have absent := status_none.mpr (Option.isNone_iff_eq_none.mp (by simpa using present))
        exact .inl absent.symm
      | true =>
        have incomplete : s.complete id ≠ true := fun complete =>
          untold (List.mem_filter.mpr ⟨(mem_ids told).mpr present, complete⟩)
        exact .inr ⟨List.not_mem_nil, status_false present incomplete, rfl⟩

/-- What a task without a callback of its own leaves behind. -/
theorem told_behind {task : Task} {todo : List Task} (told : Told s) (head : s.todo = task :: todo)
    (silent : task.notice = none) : Told { s with todo } := by
  have same : line { s with todo } = s.line := by
    simp [line, head, silent]
  exact ⟨same ▸ told.agrees, fun id late => same ▸ told.fresh id late⟩

theorem told_step (told : Told s) (e : Event) (orderly : Orderly cfg s e) : Told (step cfg s e) := by
  have waits_behind {task : Task} {todo : List Task} (head : s.todo = task :: todo) {id : Nat}
      (waits : Waiting { s with todo } id) : s.Waiting id := by
    rw [Waiting, head]
    exact List.mem_cons_of_mem _ waits
  cases e with
  | poll now accepted turns =>
    change Told (poll cfg now accepted turns s).1
    unfold poll
    split
    · exact told
    · next running =>
      have arrived := arrive_told told now accepted turns
      have same := arrive_todo s now accepted turns
      obtain ⟨_, _, does⟩ := visit_all_does arrived cfg now turns
        fun id inside client there => by
          have fair := orderly (by simp at running; exact running) id inside client there
          rwa [Waiting, ← same] at fair
      exact arrived.does does
  | send id data fails =>
    obtain ⟨_, does⟩ := send_does told data orderly
    exact told.does does
  | broadcast data fails =>
    obtain ⟨_, does⟩ := broadcast_does told data orderly
    exact told.does does
  | close_client close =>
    obtain ⟨_, does⟩ := close_client_does told orderly
    exact told.does does
  | stop =>
    obtain ⟨_, does⟩ := stop_does told orderly
    exact told.does does
  | queue_send item => exact ⟨told.agrees, told.fresh⟩
  | close_client_deferred close => exact ⟨told.agrees, told.fresh⟩
  | flush_sends =>
    have same : (flush_sends s).line = s.line := by
      have silent (closes : List QueuedClose) :
          (closes.map Task.close_client).filterMap Task.notice = [] := by
        simp [List.filterMap_map, Function.comp_def, Task.notice]
      rw [line, line, flush_sends, List.filterMap_append, silent, List.nil_append,
        List.filterMap_cons_none rfl]
    exact ⟨same ▸ told.agrees, fun id late => same ▸ told.fresh id late⟩
  | next fails =>
    change s.OrderlyTask fails s.todo at orderly
    change Told (next fails s)
    unfold next
    split
    · exact told
    · next c todo head =>
      have same : line { s with fired := s.fired ++ [c], todo } = s.line := by
        simp [line, head, Task.notice]
      exact ⟨same ▸ told.agrees, fun id late => same ▸ told.fresh id late⟩
    · next close todo head =>
      have behind := told_behind told head rfl
      rw [head] at orderly
      obtain ⟨_, does⟩ := close_client_does behind fun present =>
        ⟨(orderly present).1, fun waits => (orderly present).2 (waits_behind head waits)⟩
      exact behind.does does
    · next to_send todo head =>
      have behind := told_behind told head rfl
      rw [head] at orderly
      obtain ⟨_, does⟩ := send_all_does behind orderly.1 fun item inside throws waits =>
        orderly.2 item inside throws (waits_behind head waits)
      exact behind.does does

theorem told_start : Told {} where
  agrees := ⟨trivial, fun _ => Nat.zero_le _, fun id isOpen there => by simp [status] at there,
    fun id _ told => absurd told List.not_mem_nil⟩
  fresh _ _ := ⟨rfl, List.not_mem_nil, List.not_mem_nil⟩

theorem Told.paired (told : Told s) : Paired s where
  once id := by
    have all := told.agrees.once id
    rw [line, List.count_append] at all
    exact (Nat.le_add_right _ _).trans all
  after id before rest shape := by
    have whole : s.line =
        before ++ on_disconnected id :: (rest ++ s.todo.filterMap Task.notice) := by
      rw [line, shape, List.append_assoc]
      rfl
    exact told.agrees.ordered.before whole
  gone quiet id announced absent := by
    have line_eq : s.line = s.fired := by simp [line, quiet]
    have closed := told.agrees.gone id (status_none.mpr absent) (line_eq ▸ announced)
    have single := told.agrees.once id
    rw [line_eq] at closed single
    exact Nat.le_antisymm single (List.count_pos_iff.mpr closed)

/-- In a run whose calls drop announced connections only, and each once, the callbacks pair up in
every state. -/
theorem callbacks_pair_up (cfg : PollConfig) (events : List Event)
    (orderly : Throughout (step cfg) (Orderly cfg) {} events) :
    Always (step cfg) Paired {} events := by
  have told : Always (step cfg) Told {} events :=
    always_of_throughout (P := Told) (fun _ e told meets => told_step told e meets) told_start orderly
  exact told.mono fun _ told => told.paired

/-- A connection that brings its whole request at once. -/
def greeted : Nat → Turn := fun _ => { data := head_bytes greeting }

/-- One connection, and a flush with a send that throws. -/
theorem callbacks_pair_up_failed_send :
    Always (step {}) Paired {} [.poll 0 [bytes "10.0.0.1"] greeted, .next fun _ => false,
      .queue_send ⟨1, [0x81, 0]⟩, .flush_sends, .next fun _ => true, .next fun _ => false] :=
  callbacks_pair_up {} _ (by decide +kernel)

/-- A connection that stays silent past the handshake timeout. -/
def silent_connection : List Event :=
  [.poll 0 [bytes "10.0.0.1"] fun _ => {}, .poll 11000000000 [] fun _ => {}, .next fun _ => false]

/-- A connection with two queued frames whose socket throws. -/
def broken_socket : List Event :=
  [.poll 0 [bytes "10.0.0.1"] greeted, .next fun _ => false, .queue_send ⟨1, [0x81, 0]⟩,
    .queue_send ⟨1, [0x81, 0]⟩, .flush_sends, .next fun _ => true, .next fun _ => false,
    .next fun _ => false]

/-- The one is told gone without having been told there, the other is told gone twice. -/
theorem callbacks_unpaired :
    (run (step {}) {} silent_connection).fired = [on_disconnected 1] ∧
    (run (step {}) {} broken_socket).fired = [on_connected 1, on_disconnected 1, on_disconnected 1] ∧
    ¬ ∀ (cfg : PollConfig) (events : List Event), Always (step cfg) Paired {} events := by
  have silent : (run (step {}) {} silent_connection).fired = [on_disconnected 1] := by decide +kernel
  refine ⟨silent, by decide +kernel, fun pairs => ?_⟩
  have paired := always_iff_isPrefix.mp (pairs {} silent_connection) silent_connection List.prefix_rfl
  exact absurd (paired.after 1 [] [] silent) List.not_mem_nil

end Proof

end PolledServer

end AoSdl
