import AoSdl.CourtroomPresenter
import AoSdl.Lib.Preemption
import AoSdl.Lib.Runs
import AoSdl.TextBoxProgress

/-! What every tick of the courtroom keeps, what it takes from the ticks that are left to play all messages,
and which messages stop the playback. -/
namespace AoSdl.AOCourtroomPresenter

open Lib.Preemption Lib.Runs

/-- While a text appears its message is being played, and messages wait only while one is played or the next
one may be. -/
structure Coherent (p : AOCourtroomPresenter) : Prop where
  ordered : p.textbox.Ordered
  shown : p.textbox.state = .ticking → p.message_queue_.ready_ = false → p.message_queue_.playing_ = true
  waiting : p.message_queue_.queue_ ≠ [] → p.message_queue_.playing_ = true ∨ p.message_queue_.ready_ = true
  ready : p.message_queue_.ready_ = true → p.message_queue_.queue_ ≠ []
  linger : p.message_queue_.linger_ms_ < 300

variable (colors : List AOTextColorDef)

/-- How many ticks a message takes at most, with the time that it lingers. -/
def message_cost (msg : ICMessage) : ℕ := AOTextBox.message_ticks msg.message msg.text_color colors + 300

/-- How many ticks it takes at most to play everything. -/
def cost (p : AOCourtroomPresenter) : ℕ :=
  (p.message_queue_.queue_.map (message_cost colors)).sum +
    if p.message_queue_.ready_ then 0 else p.textbox.ticks_left + (300 - p.message_queue_.linger_ms_)

/-- A message that waits stops the playback, or the one that is played does. -/
def Blocked (p : AOCourtroomPresenter) : Prop :=
  (∃ msg ∈ p.message_queue_.queue_, AOTextBox.Stalls msg.message msg.text_color colors) ∨
    p.message_queue_.ready_ = false ∧ p.textbox.Stuck

variable {p : AOCourtroomPresenter}

theorem receive_of_objection {msg : ICMessage} (objection : msg.is_objection = true) :
    p.receive msg = { p with message_queue_ := ⟨[msg], false, true, 0⟩ } := by
  rw [receive, ICMessageQueue.enqueue, if_pos objection]

theorem receive_of_not {msg : ICMessage} (other : msg.is_objection = false) :
    p.receive msg = { p with message_queue_ := { p.message_queue_ with
      queue_ := p.message_queue_.queue_ ++ [msg]
      ready_ := p.message_queue_.ready_ || !p.message_queue_.playing_ } } := by
  rw [receive, ICMessageQueue.enqueue, if_neg (by simp [other])]

theorem Coherent.receive (coherent : p.Coherent) (msg : ICMessage) : (p.receive msg).Coherent := by
  cases objection : msg.is_objection with
  | true =>
    rw [receive_of_objection objection]
    exact ⟨coherent.ordered, nofun, fun _ => .inr rfl, fun _ => List.cons_ne_nil msg [], Nat.zero_lt_succ _⟩
  | false =>
    rw [receive_of_not objection]
    refine ⟨coherent.ordered, ?_, ?_, fun _ => ?_, coherent.linger⟩
    · intro _ idle
      simpa using (Bool.or_eq_false_iff.mp idle).2
    · intro _
      cases p.message_queue_.playing_ with
      | true => exact .inl rfl
      | false => exact .inr (Bool.or_true _)
    · exact List.append_ne_nil_of_right_ne_nil _ (List.cons_ne_nil msg [])

theorem cost_receive (p : AOCourtroomPresenter) (msg : ICMessage) :
    (p.receive msg).cost colors ≤ p.cost colors + message_cost colors msg := by
  cases objection : msg.is_objection with
  | true =>
    rw [receive_of_objection objection, cost, cost]
    simp
  | false =>
    rw [receive_of_not objection, cost, cost]
    simp only [List.map_append, List.sum_append, List.map_cons, List.map_nil, List.sum_singleton]
    cases p.message_queue_.ready_ <;> cases p.message_queue_.playing_ <;> simp
    all_goals omega

theorem blocked_receive (coherent : p.Coherent) (msg : ICMessage) :
    (p.receive msg).Blocked colors ↔
      (msg.is_objection = false ∧ p.Blocked colors) ∨ AOTextBox.Stalls msg.message msg.text_color colors := by
  cases objection : msg.is_objection with
  | true =>
    rw [receive_of_objection objection, Blocked]
    simp
  | false =>
    rw [receive_of_not objection, Blocked, Blocked]
    have shown := fun (stuck : p.textbox.Stuck) => coherent.shown stuck.1
    simp only [List.mem_append, List.mem_singleton, Bool.or_eq_false_iff, Bool.not_eq_false']
    constructor
    · rintro (⟨m, old | rfl, stalls⟩ | ⟨⟨idle, playing⟩, stuck⟩)
      · exact .inl ⟨trivial, .inl ⟨m, old, stalls⟩⟩
      · exact .inr stalls
      · exact .inl ⟨trivial, .inr ⟨idle, stuck⟩⟩
    · rintro (⟨-, ⟨m, old, stalls⟩ | ⟨idle, stuck⟩⟩ | stalls)
      · exact .inl ⟨m, .inl old, stalls⟩
      · exact .inr ⟨⟨idle, shown stuck idle⟩, stuck⟩
      · exact .inl ⟨msg, .inr rfl, stalls⟩

/-- The queue's tick: nothing while a text appears, the linger time, and at its end the next message may be
played. -/
theorem tick_queue_cases (p : AOCourtroomPresenter) (delta : ℕ) :
    p.tick_queue delta = p ∧
        (p.textbox.state = .ticking ∨ p.message_queue_.playing_ = false ∨ p.message_queue_.queue_ = []) ∨
      p.textbox.state ≠ .ticking ∧ p.message_queue_.queue_ ≠ [] ∧
        (p.tick_queue delta = { p with message_queue_ := { p.message_queue_ with
            playing_ := false, ready_ := true, linger_ms_ := 0 } } ∨
          p.message_queue_.linger_ms_ + delta < 300 ∧
            p.tick_queue delta = { p with message_queue_ := { p.message_queue_ with
              linger_ms_ := p.message_queue_.linger_ms_ + delta } }) := by
  rw [tick_queue, ICMessageQueue.tick, ICMessageQueue.LINGER_DURATION_MS]
  split
  · rename_i idle
    exact .inl ⟨rfl, .inr idle⟩
  · rename_i busy
    obtain ⟨-, some⟩ := not_or.mp busy
    cases state : p.textbox.state with
    | ticking => simp [text_done, state]
    | inactive | done =>
      right
      refine ⟨nofun, some, ?_⟩
      rw [if_neg (by simp [text_done, state])]
      split
      · exact .inl rfl
      · rename_i short
        exact .inr ⟨Nat.lt_of_not_le short, rfl⟩

theorem tick_queue_queue (p : AOCourtroomPresenter) (delta : ℕ) :
    (p.tick_queue delta).message_queue_.queue_ = p.message_queue_.queue_ := by
  rcases tick_queue_cases p delta with ⟨same, -⟩ | ⟨-, -, same | ⟨-, same⟩⟩
  · rw [same]
  · rw [same]
  · rw [same]

theorem Coherent.tick_queue (coherent : p.Coherent) (delta : ℕ) : (p.tick_queue delta).Coherent := by
  rcases tick_queue_cases p delta with ⟨same, -⟩ | ⟨-, some, same | ⟨short, same⟩⟩
  · rw [same]
    exact coherent
  · rw [same]
    exact ⟨coherent.ordered, nofun, fun _ => .inr rfl, fun _ => some, Nat.zero_lt_succ _⟩
  · rw [same]
    exact ⟨coherent.ordered, coherent.shown, coherent.waiting, coherent.ready, short⟩

theorem cost_tick_queue (p : AOCourtroomPresenter) (delta : ℕ) : (p.tick_queue delta).cost colors ≤ p.cost colors := by
  rcases tick_queue_cases p delta with ⟨same, -⟩ | ⟨-, -, same | ⟨-, same⟩⟩
  · rw [same]
  · rw [same, cost, cost]
    simp
  · rw [same, cost, cost]
    simp only
    split
    · exact Nat.le_refl _
    · omega

/-- A message that waits gets nearer to its turn while no text appears. -/
theorem cost_tick_queue_lt (coherent : p.Coherent) (idle : p.message_queue_.ready_ = false)
    (shown : p.textbox.state ≠ .ticking) (waits : p.message_queue_.queue_ ≠ []) {delta : ℕ} (time : 0 < delta) :
    (p.tick_queue delta).cost colors < p.cost colors := by
  have linger := coherent.linger
  have left : p.cost colors = (p.message_queue_.queue_.map (message_cost colors)).sum +
    (p.textbox.ticks_left + (300 - p.message_queue_.linger_ms_)) := by rw [cost, if_neg (by simp [idle])]
  rcases tick_queue_cases p delta with ⟨-, ticking | still | none⟩ | ⟨-, -, same | ⟨short, same⟩⟩
  · exact absurd ticking shown
  · have := coherent.waiting waits
    simp [still, idle] at this
  · exact absurd none waits
  · rw [same, left, cost]
    simp only [if_true]
    omega
  · rw [same, left, cost]
    simp only [idle, Bool.false_eq_true, if_false]
    omega

theorem blocked_tick_queue (p : AOCourtroomPresenter) (delta : ℕ) :
    (p.tick_queue delta).Blocked colors ↔ p.Blocked colors := by
  rcases tick_queue_cases p delta with ⟨same, -⟩ | ⟨done, -, same | ⟨-, same⟩⟩
  · rw [same]
  · have free : ¬p.textbox.Stuck := fun stuck => done stuck.1
    simp [same, Blocked, free]
  · rw [same]
    rfl

theorem play_next_of_cons {msg : ICMessage} {queue : List ICMessage} (ready : p.message_queue_.ready_ = true)
    (first : p.message_queue_.queue_ = msg :: queue) :
    p.play_next colors = { p with message_queue_ := ⟨queue, true, false, 0⟩ }.play_message colors msg := by
  rw [play_next, ICMessageQueue.next, ready, first]

theorem play_next_of_not (idle : p.message_queue_.ready_ = false) : p.play_next colors = p := by
  rw [play_next, ICMessageQueue.next, idle]

/-- The next message is played if it may be, and after that none may be. -/
theorem play_next_cases (coherent : p.Coherent) :
    p.message_queue_.ready_ = false ∧ p.play_next colors = p ∨
      ∃ msg queue, p.message_queue_.ready_ = true ∧ p.message_queue_.queue_ = msg :: queue ∧
        p.play_next colors = { p with message_queue_ := ⟨queue, true, false, 0⟩ }.play_message colors msg := by
  cases ready : p.message_queue_.ready_ with
  | false => exact .inl ⟨rfl, play_next_of_not colors ready⟩
  | true =>
    obtain ⟨msg, queue, first⟩ := List.exists_cons_of_ne_nil (coherent.ready ready)
    exact .inr ⟨msg, queue, rfl, first, play_next_of_cons colors ready first⟩

theorem Coherent.play_next (coherent : p.Coherent) : (p.play_next colors).Coherent := by
  rcases play_next_cases colors coherent with ⟨-, same⟩ | ⟨msg, queue, -, -, same⟩
  · rw [same]
    exact coherent
  · rw [same]
    exact ⟨AOTextBox.start_message_ordered .., fun _ _ => rfl, fun _ => .inl rfl, nofun, Nat.zero_lt_succ _⟩

theorem play_next_ready (coherent : p.Coherent) : (p.play_next colors).message_queue_.ready_ = false := by
  rcases play_next_cases colors coherent with ⟨idle, same⟩ | ⟨msg, queue, -, -, same⟩
  · rw [same]
    exact idle
  · rw [same]
    rfl

theorem cost_play_next (coherent : p.Coherent) : (p.play_next colors).cost colors ≤ p.cost colors := by
  rcases play_next_cases colors coherent with ⟨-, same⟩ | ⟨msg, queue, ready, first, same⟩
  · rw [same]
  · have ticks := p.textbox.start_message_ticks msg.message msg.text_color colors
    rw [same, cost, cost, ready, first]
    simp only [play_message, List.map_cons, List.sum_cons, message_cost, Bool.false_eq_true, if_true, if_false]
    omega

theorem blocked_play_next (coherent : p.Coherent) :
    (p.play_next colors).Blocked colors ↔ p.Blocked colors := by
  rcases play_next_cases colors coherent with ⟨-, same⟩ | ⟨msg, queue, ready, first, same⟩
  · rw [same]
  · rw [same, Blocked, Blocked, ready, first]
    simp [play_message, AOTextBox.stuck_start_message, or_comm]

theorem Coherent.tick_text (coherent : p.Coherent) (delta : ℕ) : (p.tick_text delta).Coherent := by
  refine ⟨coherent.ordered.tick delta, fun ticking idle => ?_, coherent.waiting, coherent.ready, coherent.linger⟩
  apply coherent.shown _ idle
  by_contra other
  rw [AOCourtroomPresenter.tick_text, AOTextBox.tick_of_ne other] at ticking
  exact other ticking

theorem cost_tick_text (coherent : p.Coherent) (delta : ℕ) :
    (p.tick_text delta).cost colors ≤ p.cost colors := by
  have less := AOTextBox.ticks_left_tick coherent.ordered delta
  rw [cost, cost, tick_text]
  simp only
  split
  · exact Nat.le_refl _
  · omega

theorem cost_tick_text_lt (coherent : p.Coherent) (idle : p.message_queue_.ready_ = false)
    (ticking : p.textbox.state = .ticking) (free : ¬p.textbox.Stuck) {delta : ℕ} (time : 0 < delta) :
    (p.tick_text delta).cost colors < p.cost colors := by
  have less := AOTextBox.ticks_left_tick_lt coherent.ordered ticking free time
  rw [cost, cost, tick_text, idle]
  simp only [Bool.false_eq_true, if_false]
  omega

theorem blocked_tick_text (coherent : p.Coherent) (delta : ℕ) :
    (p.tick_text delta).Blocked colors ↔ p.Blocked colors := by
  simp only [Blocked, tick_text, AOTextBox.stuck_tick coherent.ordered]

theorem delta_pos (t : ℤ) : 0 < delta_ms t := by
  rw [delta_ms]
  split
  · decide
  · split
    · decide
    · omega

theorem tick_of_nil {frame : Frame} (quiet : frame.arrivals = []) : p.tick colors frame =
    ((p.tick_queue (delta_ms frame.t)).play_next colors).tick_text (delta_ms frame.t) := by
  rw [tick, quiet, List.foldl_nil]

/-- Nothing waits, and the text is there. -/
def Finished (p : AOCourtroomPresenter) : Prop :=
  p.message_queue_.queue_ = [] ∧ (p.textbox.state = .done ∨ p.textbox.state = .inactive)

theorem not_finished_of_blocked (blocked : p.Blocked colors) : ¬p.Finished := by
  rintro ⟨none, shown⟩
  rcases blocked with ⟨msg, member, -⟩ | ⟨-, ticking, -⟩
  · rw [none] at member
    exact nomatch member
  · rw [ticking] at shown
    exact shown.elim nofun nofun

/-- What every step keeps; `came` are the messages so far. -/
structure Fair (came : List ICMessage) (p : AOCourtroomPresenter) : Prop where
  coherent : p.Coherent
  delivered : Delivered ICMessage.is_objection came (p.played ++ p.message_queue_.queue_)
  blocked : p.Blocked colors ↔
    ∃ msg ∈ standing ICMessage.is_objection came, AOTextBox.Stalls msg.message msg.text_color colors
  bounded : p.cost colors ≤ (came.map (message_cost colors)).sum + 300

variable {colors} {came : List ICMessage}

theorem fair_new : Fair colors [] (new colors) where
  coherent := ⟨⟨.nil, nofun, Nat.le_refl _⟩, nofun, fun some => absurd rfl some, nofun, Nat.zero_lt_succ _⟩
  delivered := .nil
  blocked := by
    constructor
    · rintro (⟨msg, member, -⟩ | ⟨-, ticking, -⟩)
      · exact nomatch member
      · exact nomatch ticking
    · rintro ⟨msg, member, -⟩
      exact nomatch member
  bounded := by simp [cost, new, ICMessageQueue.new, AOTextBox.new, AOTextBox.ticks_left]

theorem Fair.receive (fair : Fair colors came p) (msg : ICMessage) :
    Fair colors (came ++ [msg]) (p.receive msg) where
  coherent := fair.coherent.receive msg
  delivered := by
    cases objection : msg.is_objection with
    | true =>
      rw [receive_of_objection objection]
      exact fair.delivered.preempt objection
    | false =>
      rw [receive_of_not objection]
      simpa only [List.append_assoc] using fair.delivered.snoc msg
  blocked := by
    rw [blocked_receive colors fair.coherent, fair.blocked, standing_snoc]
    cases msg.is_objection with
    | true => simp
    | false => simp [or_and_right, exists_or]
  bounded := by
    have more := cost_receive colors p msg
    have := fair.bounded
    rw [List.map_append, List.sum_append, List.map_cons, List.map_nil, List.sum_singleton]
    omega

theorem Fair.receive_all (fair : Fair colors came p) (arrivals : List ICMessage) :
    Fair colors (came ++ arrivals) (arrivals.foldl AOCourtroomPresenter.receive p) := by
  induction arrivals generalizing came p with
  | nil => simpa using fair
  | cons msg arrivals ih => simpa using ih (fair.receive msg)

theorem Fair.tick_queue (fair : Fair colors came p) (delta : ℕ) : Fair colors came (p.tick_queue delta) where
  coherent := fair.coherent.tick_queue delta
  delivered := by
    rw [tick_queue_queue]
    exact fair.delivered
  blocked := (blocked_tick_queue colors p delta).trans fair.blocked
  bounded := (cost_tick_queue colors p delta).trans fair.bounded

theorem Fair.play_next (fair : Fair colors came p) : Fair colors came (p.play_next colors) where
  coherent := fair.coherent.play_next colors
  delivered := by
    have delivered := fair.delivered
    rcases play_next_cases colors fair.coherent with ⟨-, same⟩ | ⟨msg, queue, -, first, same⟩
    · rw [same]
      exact delivered
    · rw [first] at delivered
      rw [same]
      simpa [play_message] using delivered
  blocked := (blocked_play_next colors fair.coherent).trans fair.blocked
  bounded := (cost_play_next colors fair.coherent).trans fair.bounded

theorem Fair.tick_text (fair : Fair colors came p) (delta : ℕ) : Fair colors came (p.tick_text delta) where
  coherent := fair.coherent.tick_text delta
  delivered := fair.delivered
  blocked := (blocked_tick_text colors fair.coherent delta).trans fair.blocked
  bounded := (cost_tick_text colors fair.coherent delta).trans fair.bounded

theorem Fair.tick (fair : Fair colors came p) (frame : Frame) :
    Fair colors (came ++ frame.arrivals) (p.tick colors frame) ∧ (p.tick colors frame).message_queue_.ready_ = false := by
  have polled := (fair.receive_all frame.arrivals).tick_queue (delta_ms frame.t)
  exact ⟨polled.play_next.tick_text (delta_ms frame.t), play_next_ready colors polled.coherent⟩

theorem Fair.run (fair : Fair colors came p) (idle : p.message_queue_.ready_ = false) (frames : List Frame) :
    Fair colors (came ++ frames.flatMap Frame.arrivals) (run (AOCourtroomPresenter.tick colors) p frames) ∧
      (run (AOCourtroomPresenter.tick colors) p frames).message_queue_.ready_ = false := by
  induction frames generalizing came p with
  | nil => simpa using ⟨fair, idle⟩
  | cons frame frames ih =>
    have next := fair.tick frame
    simpa using ih next.1 next.2

/-- Every run keeps the order of the messages, and loses one only to a later objection. -/
theorem delivered_run (frames : List Frame) :
    Delivered ICMessage.is_objection (frames.flatMap Frame.arrivals)
      ((run (AOCourtroomPresenter.tick colors) (new colors) frames).played ++
        (run (AOCourtroomPresenter.tick colors) (new colors) frames).message_queue_.queue_) :=
  (fair_new.run rfl frames).1.delivered

theorem finished_tick (idle : p.message_queue_.ready_ = false) (finished : p.Finished)
    {frame : Frame} (quiet : frame.arrivals = []) : (p.tick colors frame).Finished := by
  obtain ⟨none, shown⟩ := finished
  have still : p.textbox.state ≠ .ticking := by rcases shown with done | inactive <;> simp [*]
  have same : p.tick_queue (delta_ms frame.t) = p := by
    rcases tick_queue_cases p (delta_ms frame.t) with ⟨same, -⟩ | ⟨-, some, -⟩
    · exact same
    · exact absurd none some
  rw [tick_of_nil colors quiet, same, play_next_of_not colors idle]
  exact ⟨none, by rw [tick_text, AOTextBox.tick_of_ne still]; exact shown⟩

/-- A tick without messages takes something from the cost while there is anything left to play. -/
theorem cost_tick_lt (coherent : p.Coherent) (idle : p.message_queue_.ready_ = false) (free : ¬p.Blocked colors)
    (unfinished : ¬p.Finished) {frame : Frame} (quiet : frame.arrivals = []) :
    (p.tick colors frame).cost colors < p.cost colors := by
  have time := delta_pos frame.t
  have polled := coherent.tick_queue (delta_ms frame.t)
  rw [tick_of_nil colors quiet]
  by_cases ticking : p.textbox.state = .ticking
  · have same : p.tick_queue (delta_ms frame.t) = p := by
      rcases tick_queue_cases p (delta_ms frame.t) with ⟨same, -⟩ | ⟨done, -⟩
      · exact same
      · exact absurd ticking done
    rw [same, play_next_of_not colors idle]
    exact cost_tick_text_lt colors coherent idle ticking (fun stuck => free (.inr ⟨idle, stuck⟩)) time
  · have waits : p.message_queue_.queue_ ≠ [] := fun none => unfinished ⟨none, by
      cases state : p.textbox.state with
      | ticking => exact absurd state ticking
      | done => exact .inl rfl
      | inactive => exact .inr rfl⟩
    calc ((p.tick_queue (delta_ms frame.t)).play_next colors).tick_text (delta_ms frame.t) |>.cost colors
      _ ≤ ((p.tick_queue (delta_ms frame.t)).play_next colors).cost colors :=
        cost_tick_text colors (polled.play_next colors) _
      _ ≤ (p.tick_queue (delta_ms frame.t)).cost colors := cost_play_next colors polled
      _ < p.cost colors := cost_tick_queue_lt colors coherent idle ticking waits time

end AoSdl.AOCourtroomPresenter

/-! When all IC messages get played: a message whose pauses outlast its text keeps the text box ticking for
good, and only an objection gets past it. -/
namespace AoSdl.AOCourtroomPresenter

open Lib.Preemption Lib.Runs

variable {colors : List AOTextColorDef}

/-- How many ticks after the last message everything has been played at the latest. -/
def ticks_bound (colors : List AOTextColorDef) (came : List ICMessage) : ℕ :=
  (came.map (message_cost colors)).sum + 300

/-- Once no message comes any more, all is played in time unless a message that stands stops it. -/
theorem finished_iff (frames quiet : List Frame) (none : ∀ frame ∈ quiet, frame.arrivals = [])
    (enough : ticks_bound colors (frames.flatMap Frame.arrivals) ≤ quiet.length) :
    (run (tick colors) (new colors) (frames ++ quiet)).Finished ↔
      ∀ msg ∈ standing ICMessage.is_objection (frames.flatMap Frame.arrivals),
        ¬AOTextBox.Stalls msg.message msg.text_color colors := by
  obtain ⟨fair, idle⟩ := (@fair_new colors).run rfl frames
  have nothing : quiet.flatMap Frame.arrivals = [] := List.flatMap_eq_nil_iff.mpr none
  rw [List.nil_append] at fair
  constructor
  · intro finished msg member stalls
    have later := (fair.run idle quiet).1
    rw [← run_append, nothing, List.append_nil] at later
    exact not_finished_of_blocked colors (later.blocked.mpr ⟨msg, member, stalls⟩) finished
  · intro free
    rw [run_append]
    apply run_of_rank (Q := fun frame => frame.arrivals = [])
      (I := fun p => Fair colors (frames.flatMap Frame.arrivals) p ∧ p.message_queue_.ready_ = false) (cost colors)
    · intro p frame still kept
      have next := kept.1.tick frame
      rwa [still, List.append_nil] at next
    · intro p frame still kept finished
      exact finished_tick kept.2 finished still
    · intro p kept spent
      rw [cost, kept.2] at spent
      have := kept.1.coherent.linger
      simp only [Bool.false_eq_true, if_false] at spent
      omega
    · intro p frame still kept unfinished
      apply cost_tick_lt kept.1.coherent kept.2 _ unfinished still
      rw [kept.1.blocked]
      rintro ⟨msg, member, stalls⟩
      exact free msg member stalls
    · exact none
    · exact ⟨fair, idle⟩
    · exact .inr (fair.bounded.trans enough)

/-- After enough ticks without messages, each message has been played in its turn, but for those that an
objection discarded, and the text of the last one is there. -/
def PlaysOut (colors : List AOTextColorDef) (frames : List Frame) : Prop :=
  ∀ quiet : List Frame, (∀ frame ∈ quiet, frame.arrivals = []) →
    ticks_bound colors (frames.flatMap Frame.arrivals) ≤ quiet.length →
    let p := run (tick colors) (new colors) (frames ++ quiet)
    Delivered ICMessage.is_objection (frames.flatMap Frame.arrivals) p.played ∧ p.Finished

theorem not_playsOut_of_stalls {frames : List Frame} {msg : ICMessage}
    (stands : msg ∈ standing ICMessage.is_objection (frames.flatMap Frame.arrivals))
    (stalls : AOTextBox.Stalls msg.message msg.text_color colors) : ¬PlaysOut colors frames := by
  intro plays
  let quiet := List.replicate (ticks_bound colors (frames.flatMap Frame.arrivals)) (⟨16, []⟩ : Frame)
  have none : ∀ frame ∈ quiet, frame.arrivals = [] := fun frame member => by
    rw [List.eq_of_mem_replicate member]
  have enough : ticks_bound colors (frames.flatMap Frame.arrivals) ≤ quiet.length := by
    rw [List.length_replicate]
  exact (finished_iff frames quiet none enough).mp (plays quiet none enough).2 msg stands stalls

/-- The messages play out exactly when none stalls but for those that an objection follows. -/
theorem playsOut_iff (colors : List AOTextColorDef) (frames : List Frame) : PlaysOut colors frames ↔
    ∀ msg ∈ standing ICMessage.is_objection (frames.flatMap Frame.arrivals),
      ¬AOTextBox.Stalls msg.message msg.text_color colors := by
  constructor
  · exact fun plays msg stands stalls => not_playsOut_of_stalls stands stalls plays
  · intro free quiet none enough
    have finished := (finished_iff frames quiet none enough).mpr free
    have delivered := @delivered_run colors (frames ++ quiet)
    rw [List.flatMap_append, List.flatMap_eq_nil_iff.mpr none, finished.1] at delivered
    exact ⟨by simpa using delivered, finished⟩

/-- The colors of a theme that configures none. -/
def default_colors : List AOTextColorDef := List.replicate 9 ⟨[], [], true⟩

/-- The pause at the end of the only message is taken with its last character. -/
theorem pause_at_end_stalls : ¬PlaysOut default_colors [⟨16, [⟨bytes "hello\\p", 0, 0⟩]⟩] :=
  @not_playsOut_of_stalls _ _ ⟨bytes "hello\\p", 0, 0⟩ (List.mem_singleton.mpr rfl) (by decide +kernel)

end AoSdl.AOCourtroomPresenter
