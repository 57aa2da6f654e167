import AoSdl.TextBox

/-! The IC messages of a courtroom: they wait in a queue while one is played, and the presenter asks the text
box in every tick whether the next one may be. -/
namespace AoSdl

structure ICMessage where
  message : Bytes
  text_color : ℤ
  objection_mod : ℤ

def ICMessage.is_objection (msg : ICMessage) : Bool := 1 ≤ msg.objection_mod ∧ msg.objection_mod ≤ 4

structure ICMessageQueue where
  queue_ : List ICMessage
  playing_ : Bool
  ready_ : Bool
  linger_ms_ : ℕ

namespace ICMessageQueue

def LINGER_DURATION_MS : ℕ := 300

def new : ICMessageQueue where
  queue_ := []
  playing_ := false
  ready_ := false
  linger_ms_ := 0

variable (q : ICMessageQueue)

def enqueue (msg : ICMessage) : ICMessageQueue :=
  if msg.is_objection then { queue_ := [msg], playing_ := false, ready_ := true, linger_ms_ := 0 }
  else { q with queue_ := q.queue_ ++ [msg], ready_ := q.ready_ || !q.playing_ }

def tick (delta_ms : ℕ) (current_message_done : Bool) : ICMessageQueue × Bool :=
  if q.playing_ = false ∨ q.queue_ = [] then (q, q.ready_)
  else if !current_message_done then (q, false)
  else if LINGER_DURATION_MS ≤ q.linger_ms_ + delta_ms then
    ({ q with playing_ := false, ready_ := true, linger_ms_ := 0 }, true)
  else ({ q with linger_ms_ := q.linger_ms_ + delta_ms }, false)

def next : Option ICMessage × ICMessageQueue :=
  match q.ready_, q.queue_ with
  | true, msg :: queue => (some msg, { queue_ := queue, playing_ := true, ready_ := false, linger_ms_ := 0 })
  | _, _ => (none, q)

end ICMessageQueue

/-- `played` are the messages that `play_message` was called with. -/
structure AOCourtroomPresenter where
  textbox : AOTextBox
  message_queue_ : ICMessageQueue
  played : List ICMessage

/-- A tick of the presenter: the time since the last one, and the messages that came in between. -/
structure Frame where
  t : ℤ
  arrivals : List ICMessage

namespace AOCourtroomPresenter

variable (colors : List AOTextColorDef)

def new : AOCourtroomPresenter where
  textbox := .new colors
  message_queue_ := .new
  played := []

def delta_ms (t : ℤ) : ℕ := if t ≤ 0 then 16 else if 200 < t then 200 else t.toNat

variable (p : AOCourtroomPresenter)

def receive (msg : ICMessage) : AOCourtroomPresenter :=
  { p with message_queue_ := p.message_queue_.enqueue msg }

def text_done : Bool := p.textbox.state = .done ∨ p.textbox.state = .inactive

def tick_queue (delta : ℕ) : AOCourtroomPresenter :=
  { p with message_queue_ := (p.message_queue_.tick delta p.text_done).1 }

/-- No slide and no animation comes before the text. -/
def play_message (msg : ICMessage) : AOCourtroomPresenter :=
  { p with
    textbox := p.textbox.start_message msg.message msg.text_color colors
    played := p.played ++ [msg] }

def play_next : AOCourtroomPresenter :=
  match p.message_queue_.next with
  | (some msg, queue) => { p with message_queue_ := queue }.play_message colors msg
  | (none, queue) => { p with message_queue_ := queue }

def tick_text (delta : ℕ) : AOCourtroomPresenter := { p with textbox := (p.textbox.tick delta).1 }

def tick (frame : Frame) : AOCourtroomPresenter :=
  let p := frame.arrivals.foldl receive p
  ((p.tick_queue (delta_ms frame.t)).play_next colors).tick_text (delta_ms frame.t)

end AOCourtroomPresenter

end AoSdl
