import AoSdl.Lib.Runs
import AoSdl.WebSocketServer

/-! What the worker threads send and close, and the poll thread that flushes it. Each section
under a lock is one step, and the steps of the threads interleave. -/
namespace AoSdl
open Lib.Runs
open scoped List

structure PendingSend where
  client_id : UInt64
  data : Bytes

structure PendingClose where
  client_id : UInt64
  code : UInt16
  reason : Bytes
  /-- What had been queued for the client by then. Nothing reads it. -/
  before : List Bytes

structure WebSocketServer where
  clients_ : UInt64 → Option ClientConnection := fun _ => none
  global_send_queue_ : List PendingSend := []
  deferred_close_queue_ : List PendingClose := []
  /-- What a flush that is under way moved out of the queues. -/
  flush : Option (List PendingClose × List PendingSend) := none
  /-- All that was ever queued. -/
  queued : List PendingSend := []
  /-- The connections that ended with a deferred close, with all that was written to them. -/
  closed : List (PendingClose × ClientConnection) := []

/-- The frames for one client. -/
def frames_for (client_id : UInt64) (sends : List PendingSend) : List Bytes :=
  (sends.filter (·.client_id = client_id)).map (·.data)

namespace WebSocketServer

/-- The frame of a message, as `send` and `broadcast` build it, and the workers for the queue. -/
def text_frame (data : Bytes) : WebSocketFrame :=
  { fin := true, rsv := 0, opcode := .TEXT, mask := false, data, len := UInt64.ofNat data.length
    len_code := if data.length ≤ 125 then UInt8.ofNat data.length
      else if data.length ≤ 65535 then 126 else 127 }

def close_frame (code : UInt16) (reason : Bytes) : WebSocketFrame :=
  let data := toNetwork 2 code.toNat ++ reason.take 123
  { fin := true, opcode := .CLOSE, mask := false, data
    len := UInt64.ofNat data.length, len_code := UInt8.ofNat data.length }

def queue_send (s : WebSocketServer) (client_id : UInt64) (data : Bytes) : WebSocketServer :=
  { s with
    global_send_queue_ := s.global_send_queue_ ++ [⟨client_id, data⟩]
    queued := s.queued ++ [⟨client_id, data⟩] }

def close_client_deferred (s : WebSocketServer) (client_id : UInt64) (code : UInt16)
    (reason : Bytes) : WebSocketServer :=
  { s with deferred_close_queue_ := s.deferred_close_queue_ ++
      [⟨client_id, code, reason, frames_for client_id s.queued⟩] }

def remove_client (s : WebSocketServer) (client_id : UInt64) : WebSocketServer :=
  { s with clients_ := Function.update s.clients_ client_id none }

/-- The close of a client by the flush. -/
def close_client (s : WebSocketServer) (close : PendingClose) : WebSocketServer :=
  match s.clients_ close.client_id with
  | none => s
  | some client =>
    let client := send_frame client (close_frame close.code close.reason)
    { s.remove_client close.client_id with closed := s.closed ++ [(close, client)] }

/-- One send of the flush. Clients without a finished handshake are passed over. -/
def deliver (clients_ : UInt64 → Option ClientConnection) (item : PendingSend) :
    UInt64 → Option ClientConnection :=
  match clients_ item.client_id with
  | none => clients_
  | some client =>
    if !client.handshake_complete then clients_
    else Function.update clients_ item.client_id
      (some { client with sent := client.sent ++ [item.data] })

/-- The first section of `flush_sends`. -/
def begin_flush (s : WebSocketServer) : WebSocketServer :=
  match s.flush with
  | some _ => s
  | none =>
    { s with
      flush := some (s.deferred_close_queue_, s.global_send_queue_)
      deferred_close_queue_ := []
      global_send_queue_ := [] }

/-- The next section of `flush_sends`: one close after the other, then all sends. -/
def continue_flush (s : WebSocketServer) : WebSocketServer :=
  match s.flush with
  | none => s
  | some (close :: to_close, to_send) => { s.close_client close with flush := some (to_close, to_send) }
  | some ([], to_send) => { s with clients_ := to_send.foldl deliver s.clients_, flush := none }

/-- The steps of the threads. `wrote` is any other write to a socket, and `gone` any other end of
a connection. -/
inductive Event where
  | queue_send (client_id : UInt64) (data : Bytes)
  | close_client_deferred (client_id : UInt64) (code : UInt16) (reason : Bytes)
  | begin_flush
  | continue_flush
  | accept (client_id : UInt64)
  | handshake (client_id : UInt64) (response : Bytes)
  | wrote (client_id : UInt64) (wire : Bytes)
  | gone (client_id : UInt64)

/-- A change of one connection. -/
def update_client (s : WebSocketServer) (client_id : UInt64)
    (f : ClientConnection → ClientConnection) : WebSocketServer :=
  { s with clients_ := Function.update s.clients_ client_id ((s.clients_ client_id).map f) }

def step (s : WebSocketServer) : Event → WebSocketServer
  | .queue_send client_id data => s.queue_send client_id data
  | .close_client_deferred client_id code reason => s.close_client_deferred client_id code reason
  | .begin_flush => s.begin_flush
  | .continue_flush => s.continue_flush
  | .accept client_id =>
    { s with clients_ := Function.update s.clients_ client_id (some ((s.clients_ client_id).getD {})) }
  | .handshake client_id response => s.update_client client_id fun client =>
    { client with handshake_complete := true, sent := client.sent ++ [response] }
  | .wrote client_id wire => s.update_client client_id fun client =>
    { client with sent := client.sent ++ [wire] }
  | .gone client_id => s.remove_client client_id

/-- Whoever was closed by a deferred close got what had been queued before it, and then the CLOSE
frame. -/
def Goodbye (s : WebSocketServer) : Prop :=
  ∀ c ∈ s.closed, c.1.before <+ c.2.sent.dropLast

/-- Nothing waits for a client whose close is queued. Ids of new connections are new, and frames are
queued for connections with a finished handshake. -/
def Guarded (s : WebSocketServer) : Event → Prop
  | .close_client_deferred client_id _ _ => frames_for client_id s.global_send_queue_ = []
  | .accept client_id => s.clients_ client_id = none ∧ frames_for client_id s.queued = []
  | .queue_send client_id _ => ∀ client, s.clients_ client_id = some client →
      client.handshake_complete = true
  | _ => True

/-- The closes and the sends of a flush under way. -/
def closing (s : WebSocketServer) : List PendingClose := (s.flush.map Prod.fst).getD []

def sending (s : WebSocketServer) : List PendingSend := (s.flush.map Prod.snd).getD []

/-- What is queued for a client is written, on its way or waiting; what was queued before a close
does not wait behind it. -/
structure Ordered (s : WebSocketServer) : Prop where
  goodbye : Goodbye s
  waiting : ∀ k, frames_for k (s.sending ++ s.global_send_queue_) <+ frames_for k s.queued
  before : ∀ c ∈ s.closing ++ s.deferred_close_queue_, c.before <+ frames_for c.client_id s.queued
  unfinished : ∀ k client, s.clients_ k = some client → client.handshake_complete = false →
    frames_for k s.queued = []
  written : ∀ k client, s.clients_ k = some client →
    frames_for k s.queued <+ client.sent ++ frames_for k (s.sending ++ s.global_send_queue_)
  deferred : ∀ c ∈ s.deferred_close_queue_, ∀ client, s.clients_ c.client_id = some client →
    c.before <+ client.sent ++ frames_for c.client_id s.sending
  closing : ∀ c ∈ s.closing, ∀ client, s.clients_ c.client_id = some client → c.before <+ client.sent

section Proof

variable {s : WebSocketServer}

@[simp] theorem frames_for_nil (k : UInt64) : frames_for k [] = [] := rfl

@[simp] theorem frames_for_append (k : UInt64) (a b : List PendingSend) :
    frames_for k (a ++ b) = frames_for k a ++ frames_for k b := by
  simp [frames_for]

theorem frames_for_singleton (k q : UInt64) (data : Bytes) :
    frames_for k [⟨q, data⟩] = if q = k then [data] else [] := by
  unfold frames_for
  by_cases same : q = k <;> simp [same]

theorem Ordered.queue_send (ordered : Ordered s) {k : UInt64} {data : Bytes}
    (finished : ∀ client, s.clients_ k = some client → client.handshake_complete = true) :
    Ordered (s.queue_send k data) := by
  have grows (q : UInt64) : frames_for q s.queued <+ frames_for q (s.queued ++ [⟨k, data⟩]) := by
    rw [frames_for_append]
    exact List.sublist_append_left _ _
  refine ⟨ordered.goodbye, fun q => ?_, fun c member => (ordered.before c member).trans (grows _),
    fun q client live pending => ?_, fun q client live => ?_, ordered.deferred, ordered.closing⟩
  · have waits := (ordered.waiting q).append (List.Sublist.refl (frames_for q [⟨k, data⟩]))
    rw [← frames_for_append, ← frames_for_append, List.append_assoc] at waits
    exact waits
  · by_cases here : k = q
    · subst here
      rw [finished client live] at pending
      cases pending
    · show frames_for q (s.queued ++ [⟨k, data⟩]) = []
      rw [frames_for_append, frames_for_singleton, if_neg here, List.append_nil]
      exact ordered.unfinished q client live pending
  · have reaches := (ordered.written q client live).append (List.Sublist.refl (frames_for q [⟨k, data⟩]))
    rw [← frames_for_append, List.append_assoc, ← frames_for_append, List.append_assoc] at reaches
    exact reaches

theorem Ordered.close_client_deferred (ordered : Ordered s) {k : UInt64} {code : UInt16}
    {reason : Bytes} (none_waits : frames_for k s.global_send_queue_ = []) :
    Ordered (s.close_client_deferred k code reason) := by
  refine ⟨ordered.goodbye, ordered.waiting, fun c member => ?_, ordered.unfinished, ordered.written,
    fun c member client live => ?_, ordered.closing⟩
  · rcases List.mem_append.mp member with old | new
    · exact ordered.before c (List.mem_append_left _ old)
    · rcases List.mem_append.mp new with old | new
      · exact ordered.before c (List.mem_append_right _ old)
      · rw [List.mem_singleton.mp new]
        exact List.Sublist.refl _
  · rcases List.mem_append.mp member with old | new
    · exact ordered.deferred c old client live
    · rw [List.mem_singleton.mp new] at live ⊢
      have reaches := ordered.written k client live
      rw [frames_for_append, none_waits, List.append_nil] at reaches
      exact reaches

theorem Ordered.begin_flush (ordered : Ordered s) : Ordered s.begin_flush := by
  unfold WebSocketServer.begin_flush
  cases idle : s.flush with
  | some _ => exact ordered
  | none =>
    have no_sends : s.sending = [] := by rw [sending, idle]; rfl
    have no_closes : s.closing = [] := by rw [WebSocketServer.closing, idle]; rfl
    refine ⟨ordered.goodbye, fun k => ?_, fun c member => ?_, ordered.unfinished, fun k client live => ?_,
      nofun, fun c member client live => ?_⟩
    · have waits := ordered.waiting k
      rw [no_sends, List.nil_append] at waits
      simpa [sending] using waits
    · have known := ordered.before c
      rw [no_closes, List.nil_append] at known
      exact known (by simpa [WebSocketServer.closing] using member)
    · have reaches := ordered.written k client live
      rw [no_sends, List.nil_append] at reaches
      simpa [sending] using reaches
    · have reaches := ordered.deferred c member client live
      rw [no_sends, frames_for_nil, List.append_nil] at reaches
      exact reaches

/-- A connection that was there and was written to, or one nothing was ever queued for. -/
def Follows (s : WebSocketServer) (k : UInt64) (client : ClientConnection) : Prop :=
  (∃ old, s.clients_ k = some old ∧ old.sent <+ client.sent ∧
    (client.handshake_complete = false → old.handshake_complete = false)) ∨
  frames_for k s.queued = []

theorem Ordered.change (ordered : Ordered s) {clients_ : UInt64 → Option ClientConnection}
    (follows : ∀ k client, clients_ k = some client → s.Follows k client) :
    Ordered { s with clients_ } := by
  have empty (k : UInt64) (none : frames_for k s.queued = []) (c : PendingClose)
      (member : c ∈ s.closing ++ s.deferred_close_queue_) (own : c.client_id = k) : c.before = [] := by
    have known := ordered.before c member
    rw [own, none] at known
    exact List.sublist_nil.mp known
  refine ⟨ordered.goodbye, ordered.waiting, ordered.before, fun k client live pending => ?_,
    fun k client live => ?_, fun c member client live => ?_, fun c member client live => ?_⟩
  · rcases follows k client live with ⟨old, was, _, finished⟩ | none
    · exact ordered.unfinished k old was (finished pending)
    · exact none
  · rcases follows k client live with ⟨old, was, more, _⟩ | none
    · exact (ordered.written k old was).trans (more.append (List.Sublist.refl _))
    · show frames_for k s.queued <+ _
      rw [none]
      exact List.nil_sublist _
  · rcases follows c.client_id client live with ⟨old, was, more, _⟩ | none
    · exact (ordered.deferred c member old was).trans (more.append (List.Sublist.refl _))
    · rw [empty _ none c (List.mem_append_right _ member) rfl]
      exact List.nil_sublist _
  · rcases follows c.client_id client live with ⟨old, was, more, _⟩ | none
    · exact (ordered.closing c member old was).trans more
    · rw [empty _ none c (List.mem_append_left _ member) rfl]
      exact List.nil_sublist _

theorem Ordered.update_client (ordered : Ordered s) (k : UInt64)
    {f : ClientConnection → ClientConnection} (more : ∀ client, client.sent <+ (f client).sent)
    (finished : ∀ client, (f client).handshake_complete = false → client.handshake_complete = false) :
    Ordered (s.update_client k f) := by
  refine ordered.change fun q client live => .inl ?_
  by_cases here : q = k
  · subst here
    rw [Function.update_self] at live
    obtain ⟨old, was, rfl⟩ := Option.map_eq_some_iff.mp live
    exact ⟨old, was, more old, finished old⟩
  · rw [Function.update_of_ne here] at live
    exact ⟨client, live, List.Sublist.refl _, id⟩

theorem Ordered.remove_client (ordered : Ordered s) (k : UInt64) : Ordered (s.remove_client k) := by
  refine ordered.change fun q client live => .inl ?_
  by_cases here : q = k
  · subst here
    rw [Function.update_self] at live
    cases live
  · rw [Function.update_of_ne here] at live
    exact ⟨client, live, List.Sublist.refl _, id⟩

theorem Ordered.accept (ordered : Ordered s) {k : UInt64} (new : frames_for k s.queued = []) :
    Ordered (s.step (.accept k)) := by
  refine ordered.change fun q client live => ?_
  by_cases here : q = k
  · subst here
    exact .inr new
  · rw [Function.update_of_ne here] at live
    exact .inl ⟨client, live, List.Sublist.refl _, id⟩

/-- A connection after frames for it were sent. -/
def given (client : ClientConnection) (frames : List Bytes) : ClientConnection :=
  if client.handshake_complete then { client with sent := client.sent ++ frames } else client

theorem given_nil (client : ClientConnection) : given client [] = client := by
  unfold given
  split
  · rw [List.append_nil]
  · rfl

theorem given_given (client : ClientConnection) (front back : List Bytes) :
    given (given client front) back = given client (front ++ back) := by
  unfold given
  by_cases finished : client.handshake_complete = true
  · simp [finished]
  · simp [finished]

theorem given_handshake (client : ClientConnection) (frames : List Bytes) :
    (given client frames).handshake_complete = client.handshake_complete := by
  unfold given
  split <;> rfl

theorem deliver_eq (item : PendingSend) (clients_ : UInt64 → Option ClientConnection) (k : UInt64) :
    deliver clients_ item k = (clients_ k).map fun client => given client (frames_for k [item]) := by
  obtain ⟨q, data⟩ := item
  rw [frames_for_singleton]
  unfold deliver
  by_cases here : q = k
  · subst here
    rw [if_pos rfl]
    cases live : clients_ q with
    | none => simp [live]
    | some client => cases finished : client.handshake_complete <;> simp [live, finished, given]
  · have same : ((clients_ k).map fun client => given client []) = clients_ k := by
      simp [given_nil]
    rw [if_neg here, same]
    cases clients_ q with
    | none => simp
    | some client => cases finished : client.handshake_complete <;> simp [finished, Ne.symm here]

theorem deliver_all (sends : List PendingSend) (clients_ : UInt64 → Option ClientConnection)
    (k : UInt64) :
    sends.foldl deliver clients_ k =
      (clients_ k).map fun client => given client (frames_for k sends) := by
  induction sends generalizing clients_ with
  | nil => simp [given_nil]
  | cons item sends ih =>
    have front : frames_for k (item :: sends) = frames_for k [item] ++ frames_for k sends :=
      frames_for_append k [item] sends
    rw [List.foldl_cons, ih, deliver_eq, Option.map_map, front]
    simp only [Function.comp_def, given_given]

theorem Ordered.close_next (ordered : Ordered s) {close : PendingClose} {to_close : List PendingClose}
    {to_send : List PendingSend} (flushing : s.flush = some (close :: to_close, to_send)) :
    Ordered { s.close_client close with flush := some (to_close, to_send) } := by
  have sends : s.sending = to_send := by rw [sending, flushing]; rfl
  have closes : s.closing = close :: to_close := by rw [WebSocketServer.closing, flushing]; rfl
  have popped : Ordered { s with flush := some (to_close, to_send) } := by
    refine ⟨ordered.goodbye, fun k => ?_, fun c member => ordered.before c ?_, ordered.unfinished,
      fun k client live => ?_, fun c member client live => ?_, fun c member => ordered.closing c ?_⟩
    · simpa [sending, ← sends] using ordered.waiting k
    · rw [closes]
      exact List.mem_cons_of_mem _ member
    · simpa [sending, ← sends] using ordered.written k client live
    · simpa [sending, ← sends] using ordered.deferred c member client live
    · rw [closes]
      exact List.mem_cons_of_mem _ member
  unfold WebSocketServer.close_client
  cases live : s.clients_ close.client_id with
  | none => exact popped
  | some client =>
    have rest := popped.remove_client close.client_id
    refine ⟨fun c member => ?_, rest.waiting, rest.before, rest.unfinished, rest.written, rest.deferred,
      rest.closing⟩
    rcases List.mem_append.mp member with old | new
    · exact ordered.goodbye c old
    · rw [List.mem_singleton.mp new]
      have told := ordered.closing close (by rw [closes]; exact List.mem_cons_self) client live
      simpa [send_frame] using told

theorem Ordered.send_all (ordered : Ordered s) {to_send : List PendingSend}
    (flushing : s.flush = some ([], to_send)) :
    Ordered { s with clients_ := to_send.foldl deliver s.clients_, flush := none } := by
  have sends : s.sending = to_send := by rw [sending, flushing]; rfl
  have closes : s.closing = [] := by rw [WebSocketServer.closing, flushing]; rfl
  have gained {k : UInt64} {client : ClientConnection}
      (live : to_send.foldl deliver s.clients_ k = some client) :
      ∃ old, s.clients_ k = some old ∧ old.handshake_complete = client.handshake_complete ∧
        (client.handshake_complete = true → client.sent = old.sent ++ frames_for k to_send) := by
    rw [deliver_all] at live
    obtain ⟨old, was, rfl⟩ := Option.map_eq_some_iff.mp live
    refine ⟨old, was, (given_handshake old _).symm, fun finished => ?_⟩
    rw [given_handshake] at finished
    rw [given, if_pos finished]
  refine ⟨ordered.goodbye, fun k => ?_, fun c member => ?_, fun k client live pending => ?_,
    fun k client live => ?_, fun c member client live => ?_, nofun⟩
  · have waits := ordered.waiting k
    rw [frames_for_append] at waits
    exact (List.sublist_append_right _ _).trans waits
  · have known := ordered.before c
    rw [closes] at known
    exact known member
  · obtain ⟨old, was, same, _⟩ := gained live
    exact ordered.unfinished k old was (same.trans pending)
  · obtain ⟨old, was, same, more⟩ := gained live
    cases finished : client.handshake_complete with
    | true =>
      have reaches := ordered.written k old was
      rw [frames_for_append, sends, ← List.append_assoc, ← more finished] at reaches
      exact reaches
    | false =>
      show frames_for k s.queued <+ _
      rw [ordered.unfinished k old was (same.trans finished)]
      exact List.nil_sublist _
  · obtain ⟨old, was, same, more⟩ := gained live
    cases finished : client.handshake_complete with
    | true =>
      have reaches := ordered.deferred c member old was
      rw [sends, ← more finished] at reaches
      exact reaches.trans (List.sublist_append_left _ _)
    | false =>
      have known := ordered.before c (List.mem_append_right _ member)
      rw [ordered.unfinished _ old was (same.trans finished)] at known
      rw [List.sublist_nil.mp known]
      exact List.nil_sublist _

theorem Ordered.step (ordered : Ordered s) {e : Event} (guarded : s.Guarded e) :
    Ordered (s.step e) := by
  cases e with
  | queue_send k data => exact ordered.queue_send guarded
  | close_client_deferred k code reason => exact ordered.close_client_deferred guarded
  | begin_flush => exact ordered.begin_flush
  | continue_flush =>
    show Ordered s.continue_flush
    unfold continue_flush
    split
    · exact ordered
    · next flushing => exact ordered.close_next flushing
    · next flushing => exact ordered.send_all flushing
  | accept k => exact ordered.accept guarded.2
  | handshake k response => exact ordered.update_client k (fun _ => List.sublist_append_left _ _) nofun
  | wrote k wire => exact ordered.update_client k (fun _ => List.sublist_append_left _ _) fun _ => id
  | gone k => exact ordered.remove_client k

theorem ordered_empty : Ordered {} :=
  ⟨nofun, fun _ => List.Sublist.refl _, nofun, nofun, nofun, nofun, nofun⟩

/-- In a run that queues no close behind a waiting frame of the same client, every client that is
closed by a deferred close has got what was queued for it before. -/
theorem goodbye_before_close {events : List Event}
    (guarded : Throughout WebSocketServer.step Guarded {} events) :
    Always WebSocketServer.step Goodbye {} events := by
  have always : Always WebSocketServer.step Ordered {} events :=
    always_of_throughout (fun _ _ ordered here => ordered.step here) ordered_empty guarded
  exact always.mono fun _ ordered => ordered.goodbye

/-- A kick: the notice is queued, then the close. -/
def kick : List Event :=
  [.accept 7, .handshake 7 (bytes "101"), .queue_send 7 (bytes "KK#spam#%"),
    .close_client_deferred 7 1000 [], .begin_flush, .continue_flush, .continue_flush]

theorem kick_loses_notice : ¬ Goodbye (run WebSocketServer.step {} kick) := by
  intro goodbye
  exact absurd (goodbye _ List.mem_cons_self) (by decide)

/-- The same with a flush between the two. -/
def flushed_kick : List Event :=
  [.accept 7, .handshake 7 (bytes "101"), .queue_send 7 (bytes "KK#spam#%"), .begin_flush,
    .continue_flush, .close_client_deferred 7 1000 [], .begin_flush, .continue_flush]

theorem flushed_kick_goodbye : Always WebSocketServer.step Goodbye {} flushed_kick := by
  refine goodbye_before_close ⟨⟨rfl, rfl⟩, trivial, fun client live => ?_, trivial, trivial, rfl,
    trivial, trivial, trivial⟩
  cases live
  rfl

end Proof

end WebSocketServer

end AoSdl
