import AoSdl.SseStreams
import Mathlib.Data.List.Nodup

/-! What the streams are written: live, a targeted event goes to the streams of its token only. A
replay selects from the buffer by area alone, so that it is what the stream would have received
unless an event in the buffer is targeted at another token. -/
namespace AoSdl.http.sse
open Lib.Runs

/-- An event with the number it was published under. -/
abbrev Published := Nat × SSEEvent

def Published.frame (p : Published) : Bytes := sse.frame p.1 p.2.event p.2.data

def Published.entry (p : Published) : BufferedSSEEvent := ⟨p.1, p.2.event, p.2.data, p.2.area⟩

/-- The buffered events, with what the buffer leaves out of them. -/
def World.buffered (w : World) : List Published := w.published.rtake SSE_BUFFER_CAPACITY

/-- A targeted event went to streams of its token only. -/
def Targeted (w : World) : Prop :=
  ∀ write ∈ w.server.sent, ∀ p ∈ w.published, write.2 = Published.frame p → p.2.target_token ≠ [] →
    write.1.session_token = p.2.target_token

/-- The events a stream missed since the last it had. -/
def World.missed (w : World) (last_id : Nat) (sse : SSEConnection) : List Published :=
  w.buffered.filter fun p => last_id < p.1 && receives p.2 sse

/-- A stream that names the last event it had is written the ones it missed. -/
def Replayed (w : World) : Event → Prop
  | .requested fd id req find_session_by_token date =>
    ∀ sse ∈ accept find_session_by_token id req, ∀ last_id ∈ last_event_id req,
      (step w (.requested fd id req find_session_by_token date)).server.sent =
        w.server.sent ++ (sse, sse_headers w.server.default_headers date) ::
          (w.missed last_id sse).map fun p => (sse, Published.frame p)
  | _ => True

/-- No event that the stream did not have yet is targeted at another token and of an area of the
stream's. A stream that names event 0 missed none. -/
def Sound (w : World) : Event → Prop
  | .requested _ id req find_session_by_token _ =>
    ∀ sse ∈ accept find_session_by_token id req, ∀ last_id ∈ last_event_id req, ∀ p ∈ w.buffered,
      last_id < p.1 →
        if last_id = 0 then receives p.2 sse = false
        else in_area p.2.area sse = true → for_token p.2.target_token sse = true
  | _ => True

section Numbers

/-- Events are numbered from 1 on, and the newest are in the buffer. -/
structure Numbered (w : World) : Prop where
  numbers : w.published.map Prod.fst = List.range' 1 w.published.length
  next : w.server.next_event_id = w.published.length + 1
  buffer : w.server.sse_event_buffer = w.buffered.map Published.entry

variable {w : World}

theorem Numbered.apart (numbered : Numbered w) {p q : Published} (here : p ∈ w.published)
    (there : q ∈ w.published) (same : p.1 = q.1) : p = q := by
  have distinct : (w.published.map Prod.fst).Nodup := numbered.numbers ▸ List.nodup_range'
  exact List.inj_on_of_nodup_map distinct here there same

theorem Numbered.frame_apart (numbered : Numbered w) {p q : Published} (here : p ∈ w.published)
    (there : q ∈ w.published) (same : Published.frame p = Published.frame q) : p = q :=
  numbered.apart here there (frame_number same)

theorem numbered_start (default_headers : List (Bytes × Bytes)) :
    Numbered { server := { default_headers } } :=
  ⟨rfl, rfl, by simp [World.buffered, List.rtake]⟩

theorem Numbered.push (numbered : Numbered w) (e : SSEEvent) (failing : List Nat)
    (channel : List SSEEvent) :
    Numbered { server := push_sse w.server e failing, channel
               published := w.published ++ [(w.server.next_event_id, e)] } := by
  refine ⟨?_, ?_, ?_⟩
  · simp only [List.map_append, List.map_cons, List.map_nil, numbered.numbers, numbered.next,
      List.length_append, List.length_singleton]
    rw [List.range'_1_concat, Nat.add_comm 1]
  · simp [push_sse, numbered.next]
  · have slid := Lib.Window.slide_rtake (w.published.map Published.entry) SSE_BUFFER_CAPACITY
      (Published.entry (w.server.next_event_id, e))
    rw [← List.map_singleton, ← List.map_append, Lib.Window.map_rtake, Lib.Window.map_rtake] at slid
    simp only [push_sse, numbered.buffer]
    exact slid

theorem numbered_step (numbered : Numbered w) (event : Event) : Numbered (step w event) := by
  cases event with
  | published e => exact ⟨numbered.numbers, numbered.next, numbered.buffer⟩
  | drained failing =>
    simp only [step]
    split
    · exact numbered
    · exact numbered.push _ failing _
  | requested fd id req find_session_by_token date =>
    simp only [step]
    split
    · exact numbered
    · exact ⟨numbered.numbers, numbered.next, numbered.buffer⟩
  | kept_alive failing => exact ⟨numbered.numbers, numbered.next, numbered.buffer⟩
  | disconnected fd => exact ⟨numbered.numbers, numbered.next, numbered.buffer⟩

end Numbers

section Replay

variable {w : World}

theorem replays_entry (last_id : Nat) (sse : SSEConnection) (p : Published) :
    replays last_id sse p.entry = (decide (last_id < p.1) && in_area p.2.area sse) := by
  have newer : (!decide (p.1 ≤ last_id)) = decide (last_id < p.1) := by
    rw [← decide_not]
    exact decide_eq_decide.mpr Nat.not_le
  exact congrArg (· && in_area p.2.area sse) newer

/-- What a replay sends, in terms of the events as published. -/
theorem replay_frames_published (numbered : Numbered w) (last_id : Nat) (sse : SSEConnection) :
    replay_frames w.server last_id sse =
      if 0 < last_id then
        (w.buffered.filter fun p => replays last_id sse (Published.entry p)).map Published.frame
      else [] := by
  unfold replay_frames
  rw [numbered.buffer, List.filter_map, List.map_map]
  rfl

theorem replay_frames_iff (numbered : Numbered w) (last_id : Nat) (sse : SSEConnection) :
    replay_frames w.server last_id sse = (w.missed last_id sse).map Published.frame ↔
      ∀ p ∈ w.buffered, last_id < p.1 →
        if last_id = 0 then receives p.2 sse = false
        else in_area p.2.area sse = true → for_token p.2.target_token sse = true := by
  rw [replay_frames_published numbered, World.missed]
  rcases Nat.eq_zero_or_pos last_id with rfl | positive
  · simp [eq_comm (a := ([] : List Bytes))]
  · have apart : ∀ p ∈ w.buffered, ∀ q ∈ w.buffered, Published.frame p = Published.frame q → p = q :=
      fun p here q there => numbered.frame_apart (Lib.Window.mem_of_mem_rtake here)
        (Lib.Window.mem_of_mem_rtake there)
    rw [if_pos positive, Lib.Window.map_filter_eq_iff apart]
    refine forall₂_congr fun p _ => ?_
    rw [if_neg positive.ne']
    rw [replays_entry, receives, Bool.and_comm (for_token _ _), ← Bool.and_assoc,
      Bool.eq_self_and, Bool.and_eq_true_iff, decide_eq_true_iff, and_imp]

theorem replayed_iff (numbered : Numbered w) (event : Event) : Replayed w event ↔ Sound w event := by
  cases event with
  | requested fd id req find_session_by_token date =>
    refine forall₂_congr fun sse opened => forall₂_congr fun last_id named => ?_
    rw [← replay_frames_iff numbered]
    have sends : (step w (.requested fd id req find_session_by_token date)).server.sent =
        w.server.sent ++ (sse, sse_headers w.server.default_headers date) ::
          (replay_frames w.server last_id sse).map fun frame => (sse, frame) := by
      rw [Option.mem_def] at opened named
      simp only [step, opened, named, open_stream, Option.getD_some]
    have printed : (w.missed last_id sse).map (fun p => (sse, Published.frame p)) =
        ((w.missed last_id sse).map Published.frame).map fun frame => (sse, frame) := by
      rw [List.map_map]
      rfl
    rw [sends, printed, List.append_cancel_left_eq, List.cons_inj_right,
      List.map_inj_right (fun _ _ same => (Prod.mk.inj same).2)]
  | published | drained | kept_alive | disconnected => exact Iff.rfl

end Replay

section Targets

/-- What a stream was written is no event, or an event for its token. -/
def Attributed (w : World) : Prop :=
  ∀ write ∈ w.server.sent, (∀ id event data, write.2 ≠ frame id event data) ∨
    ∃ p ∈ w.published, write.2 = Published.frame p ∧ for_token p.2.target_token write.1 = true

variable {w : World}

theorem Attributed.targeted (attributed : Attributed w) (numbered : Numbered w) : Targeted w := by
  intro write sent p here same targeted
  rcases attributed write sent with plain | ⟨q, there, printed, allowed⟩
  · exact absurd same (plain p.1 p.2.event p.2.data)
  · obtain rfl := numbered.frame_apart here there (same.symm.trans printed)
    have named : p.2.target_token = [] ∨ write.1.session_token = p.2.target_token := by
      simpa [for_token] using allowed
    exact named.resolve_left targeted

theorem Attributed.push (attributed : Attributed w) (e : SSEEvent) (failing : List Nat)
    (channel : List SSEEvent) :
    Attributed { server := push_sse w.server e failing, channel
                 published := w.published ++ [(w.server.next_event_id, e)] } := by
  intro write sent
  rcases List.mem_append.mp sent with before | now
  · refine (attributed write before).imp_right ?_
    rintro ⟨p, here, told⟩
    exact ⟨p, List.mem_append_left _ here, told⟩
  · obtain ⟨entry, reached, rfl⟩ := List.mem_map.mp now
    have received : receives e entry.2 = true := (List.mem_filter.mp reached).2
    refine .inr ⟨(w.server.next_event_id, e), List.mem_append_right _ List.mem_cons_self, rfl, ?_⟩
    exact (Bool.and_eq_true_iff.mp received).1

/-- A stream that is opened where that is sound is replayed events for its token. -/
theorem Attributed.open_stream (attributed : Attributed w) (numbered : Numbered w)
    {sse : SSEConnection} {last_id : Nat}
    (sound : 0 < last_id → ∀ p ∈ w.buffered, last_id < p.1 → in_area p.2.area sse = true →
      for_token p.2.target_token sse = true) (fd : Nat) (date : Bytes) :
    Attributed { w with server := open_stream w.server fd sse last_id date } := by
  intro write sent
  rcases List.mem_append.mp sent with before | now
  · exact attributed write before
  rcases List.mem_cons.mp now with rfl | replayed
  · exact .inl (headers_ne_frame _ _)
  · obtain ⟨bytes, chosen, rfl⟩ := List.mem_map.mp replayed
    rw [replay_frames_published numbered] at chosen
    split at chosen
    · next positive =>
      obtain ⟨p, selected, rfl⟩ := List.mem_map.mp chosen
      obtain ⟨here, wanted⟩ := List.mem_filter.mp selected
      rw [replays_entry, Bool.and_eq_true_iff, decide_eq_true_iff] at wanted
      exact .inr ⟨p, Lib.Window.mem_of_mem_rtake here, rfl, sound positive p here wanted.1 wanted.2⟩
    · exact absurd chosen List.not_mem_nil

theorem attributed_step (attributed : Attributed w) (numbered : Numbered w) {event : Event}
    (sound : Sound w event) : Attributed (step w event) := by
  cases event with
  | published e => exact attributed
  | drained failing =>
    simp only [step]
    split
    · exact attributed
    · exact attributed.push _ failing _
  | requested fd id req find_session_by_token date =>
    simp only [step]
    split
    · exact attributed
    · next sse opened =>
      refine attributed.open_stream numbered ?_ fd date
      intro positive p here newer
      cases named : last_event_id req with
      | none => simp [named] at positive
      | some last_id =>
        simp only [named, Option.getD_some] at positive newer
        have meets := sound sse opened last_id named p here newer
        rwa [if_neg positive.ne'] at meets
  | kept_alive failing =>
    intro write sent
    rcases List.mem_append.mp sent with before | now
    · exact attributed write before
    · obtain ⟨entry, _, rfl⟩ := List.mem_map.mp now
      exact .inl keepalive_ne_frame
  | disconnected fd => exact attributed

end Targets

/-- The events reach the streams they are for, live and replayed, exactly if no stream is opened
where the buffer holds a newer event for another token, or any newer than 0 if 0 is named. -/
theorem delivered_iff (default_headers : List (Bytes × Bytes)) (events : List Event) :
    (Targeted (run step { server := { default_headers } } events) ∧
      Throughout step Replayed { server := { default_headers } } events) ↔
      Throughout step Sound { server := { default_headers } } events := by
  have numbered := numbered_start default_headers
  have replays : Throughout step Replayed { server := { default_headers } } events ↔
      Throughout step Sound { server := { default_headers } } events :=
    throughout_iff_throughout (I := Numbered) (fun _ event numbered _ => numbered_step numbered event)
      (fun _ event numbered => replayed_iff numbered event) numbered events
  refine ⟨fun both => replays.mp both.2, fun sound => ⟨?_, replays.mpr sound⟩⟩
  have start : Numbered { server := { default_headers } } ∧
      Attributed { server := { default_headers } } := ⟨numbered, fun _ sent => nomatch sent⟩
  have kept := always_of_throughout (P := fun w => Numbered w ∧ Attributed w)
    (fun w event both sound => ⟨numbered_step both.1 event, attributed_step both.2 both.1 sound⟩)
    start sound
  have last := always_iff_isPrefix.mp kept events List.prefix_rfl
  exact last.2.targeted last.1


/-- A request for the events after the first, with `b` as its token. -/
def reconnect : Request :=
  { method := bytes "GET"
    path := EVENTS_PATTERN
    headers := [(bytes "Authorization", bytes "Bearer b"), (bytes "Last-Event-ID", bytes "1")] }

/-- Tells the session of token `a` that it ended. -/
def ended : SSEEvent :=
  { event := bytes "session_ended", data := bytes "\x7b\x7d", target_token := bytes "a" }

def ended_session : List Event :=
  [.published { event := bytes "ooc", data := bytes "\x7b\x7d" }, .drained [], .published ended,
    .drained [], .requested 5 0 reconnect (fun token => token = bytes "b") []]

/-- The reconnecting stream of token `b` is replayed the event targeted at `a`. -/
theorem targeted_event_replayed :
    ¬(Targeted (run step {} ended_session) ∧ Throughout step Replayed {} ended_session) := by
  rintro ⟨targeted, _⟩
  have sent : ((⟨0, [], bytes "b"⟩ : SSEConnection), Published.frame (2, ended)) ∈
      (run step {} ended_session).server.sent := by decide +kernel
  have numbered : (2, ended) ∈ (run step {} ended_session).published := by decide +kernel
  exact absurd (targeted _ sent _ numbered rfl (by decide +kernel)) (by decide +kernel)

end AoSdl.http.sse
