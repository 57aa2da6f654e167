import AoSdl.Lib.Runs
import Mathlib.Data.Int.Notation
import Mathlib.Data.Nat.Find

/-! The decode thread of a stream that loops. Between two reads it looks at where the decoder is, so that a read which
begins in front of the loop's end may go past it: the music loops at the right sample just if no read does. -/
namespace AoSdl.LoopPoints

open Lib.EndlessRuns

/-- The decoder that takes the data. -/
inductive Path where
  | opus
  | fallback

/-- The frames that the buffer of a read has room for. -/
def Path.frames : Path → ℕ
  | .opus => 5760
  | .fallback => 4096

/-- What is decoded, as samples of both channels in turn, with the loop points in frames. -/
structure Track (α : Type*) where
  path : Path
  pcm : List α
  loop_start : ℤ
  loop_end : ℤ

/-- What one step meets: the flags that it loads, what the decoder would return in the middle of an endless track, which
is an error or one frame more than the number, and the samples that the ring has room for. -/
structure Input where
  stop_requested : Bool
  looping : Bool
  ret : Option ℕ
  free : ℕ

inductive Phase (α : Type*) where
  | pass
  | decoding
  | writing (buf : List α)
  | finished

/-- The thread, with the position of the decoder and all samples that the ring has taken. -/
structure DecodeThread (α : Type*) where
  first_pass : Bool
  cursor : ℕ
  phase : Phase α
  ring : List α

section

variable {α : Type*} (m : Track α)

def length : ℕ := m.pcm.length / 2

/-- The samples of some frames. -/
def samples (first count : ℕ) : List α := (m.pcm.drop (2 * first)).take (2 * count)

/-- A decoder stays where it is if there is no such frame. -/
def seek (frame cursor : ℕ) : ℕ := if frame ≤ length m then frame else cursor

/-- The frames of a read that the decoder answers. -/
def frames_read (n cursor : ℕ) : ℕ := min (n + 1) (min m.path.frames (length m - cursor))

def new : DecodeThread α := ⟨true, 0, .pass, []⟩

/-- The next pass: one decoder is opened anew and then seeks, the other one only seeks. -/
def begin_pass (d : DecodeThread α) (i : Input) : DecodeThread α :=
  match m.path with
  | .opus =>
    let cursor := if !d.first_pass && 0 < m.loop_start then seek m m.loop_start.toNat 0 else 0
    { d with first_pass := false, cursor := cursor, phase := .decoding }
  | .fallback =>
    if i.stop_requested then { d with phase := .finished }
    else
      let cursor := if !d.first_pass && i.looping then seek m m.loop_start.toNat d.cursor else d.cursor
      { d with first_pass := false, cursor := cursor, phase := .decoding }

def end_pass (d : DecodeThread α) (i : Input) : DecodeThread α :=
  { d with phase := if i.looping then .pass else .finished }

/-- The check of the loop's end and one read. -/
def decode (d : DecodeThread α) (i : Input) : DecodeThread α :=
  if i.stop_requested then { d with phase := .finished }
  else if 0 < m.loop_end ∧ m.loop_end ≤ d.cursor then end_pass d i
  else
    match i.ret with
    | none =>
      match m.path with
      | .opus => d
      | .fallback => end_pass d i
    | some n =>
      let ret := frames_read m n d.cursor
      if ret = 0 then end_pass d i
      else { d with cursor := d.cursor + ret, phase := .writing (samples m d.cursor ret) }

/-- One call of the ring's `write` with the samples that are left. -/
def write (d : DecodeThread α) (buf : List α) (i : Input) : DecodeThread α :=
  if i.stop_requested then { d with phase := .decoding }
  else
    { d with
      ring := d.ring ++ buf.take i.free
      phase := if i.free < buf.length then .writing (buf.drop i.free) else .decoding }

def step (d : DecodeThread α) (i : Input) : DecodeThread α :=
  match d.phase with
  | .pass => begin_pass m d i
  | .decoding => decode m d i
  | .writing buf => write d buf i
  | .finished => d

/-- The thread at a time. -/
def thread (inputs : ℕ → Input) (t : ℕ) : DecodeThread α := state (step m) new inputs t

/-- The loop points, and the frames that they are between. -/
structure Looped : Prop where
  start : 0 ≤ m.loop_start
  order : m.loop_start < m.loop_end
  inside : m.loop_end ≤ length m

/-- From a frame up to the loop's end. -/
def stretch (frame : ℕ) : List α := (m.pcm.take (2 * m.loop_end.toNat)).drop (2 * frame)

/-- The track up to the loop's end, and then the loop a number of times. -/
def heard (n : ℕ) : List α := stretch m 0 ++ (List.replicate n (stretch m m.loop_start.toNat)).flatten

/-- The ring takes the track up to the loop's end and then the loop, over and over. -/
structure SampleExact (inputs : ℕ → Input) : Prop where
  front : ∀ t, ∃ n, (thread m inputs t).ring <+: heard m n
  all : ∀ n, ∃ t, heard m n <+: (thread m inputs t).ring

/-- A read that begins in front of the loop's end does not go past it. -/
def Stops (d : DecodeThread α) (i : Input) : Prop :=
  ∀ n, d.phase = .decoding → i.ret = some n → d.cursor < m.loop_end.toNat →
    d.cursor + frames_read m n d.cursor ≤ m.loop_end.toNat

def Within (inputs : ℕ → Input) : Prop := ∀ t, Stops m (thread m inputs t) (inputs t)

end

/-- Nobody stops the thread, the music loops and the decoder has no errors. -/
structure Plays (i : Input) : Prop where
  goes : i.stop_requested = false
  loops : i.looping = true
  answers : i.ret ≠ none

/-- The callback takes samples out of the ring again and again. -/
structure Playing (inputs : ℕ → Input) : Prop where
  plays : ∀ t, Plays (inputs t)
  drained : ∀ t, ∃ u, t ≤ u ∧ 0 < (inputs u).free

/-! ### What a step does -/

variable {α : Type*} {m : Track α} {d d' : DecodeThread α} {i : Input} {inputs : ℕ → Input}

/-- What every step keeps. The first pass begins in front of everything. -/
def Sound (d : DecodeThread α) : Prop :=
  match d.phase with
  | .pass => d.first_pass = true → d.cursor = 0
  | .decoding => d.first_pass = false
  | .writing buf => d.first_pass = false ∧ buf ≠ []
  | .finished => False

/-- A step of a thread that plays. -/
inductive Move (m : Track α) (i : Input) (d : DecodeThread α) : DecodeThread α → Prop
  | pass (here : d.phase = .pass) :
    Move m i d
      { d with
        first_pass := false
        cursor := if d.first_pass then 0 else m.loop_start.toNat
        phase := .decoding }
  | loop_end (here : d.phase = .decoding) (reached : m.loop_end.toNat ≤ d.cursor) :
    Move m i d { d with phase := .pass }
  | read (n : ℕ) (here : d.phase = .decoding) (answer : i.ret = some n) (before : d.cursor < m.loop_end.toNat) :
    Move m i d
      { d with
        cursor := d.cursor + frames_read m n d.cursor
        phase := .writing (samples m d.cursor (frames_read m n d.cursor)) }
  | write (buf : List α) (here : d.phase = .writing buf) :
    Move m i d
      { d with
        ring := d.ring ++ buf.take i.free
        phase := if i.free < buf.length then .writing (buf.drop i.free) else .decoding }

theorem Path.frames_pos (path : Path) : 0 < path.frames := by
  cases path with
  | opus => decide
  | fallback => decide

theorem frames_read_pos (looped : Looped m) {cursor : ℕ} (before : cursor < m.loop_end.toNat) (n : ℕ) :
    0 < frames_read m n cursor := by
  have room := m.path.frames_pos
  have inside := looped.inside
  rw [frames_read]
  omega

theorem step_move (looped : Looped m) (plays : Plays i) (sound : Sound d) : Move m i d (step m d i) := by
  have order := looped.order
  have start := looped.start
  have inside := looped.inside
  rw [Sound] at sound
  cases here : d.phase with
  | pass =>
    simp only [here] at sound
    have target : begin_pass m d i =
        { d with
          first_pass := false
          cursor := if d.first_pass then 0 else m.loop_start.toNat
          phase := .decoding } := by
      have reach : seek m m.loop_start.toNat = fun _ => m.loop_start.toNat := by
        funext cursor
        exact if_pos (by omega)
      rw [begin_pass, reach]
      cases first : d.first_pass with
      | true => cases m.path <;> simp [plays.goes, sound first]
      | false =>
        cases m.path with
        | opus =>
          simp only [Bool.not_false, Bool.true_and, decide_eq_true_eq]
          split
          · rfl
          · next none =>
            have zero : m.loop_start.toNat = 0 := by omega
            simp [zero]
        | fallback => simp [plays.goes, plays.loops]
    simp only [step, here, target]
    exact .pass here
  | decoding =>
    obtain ⟨n, answer⟩ := Option.ne_none_iff_exists'.mp plays.answers
    simp only [step, here, decode, plays.goes, Bool.false_eq_true, if_false]
    split
    · next reached =>
      simp only [end_pass, plays.loops, if_true]
      exact .loop_end here (by omega)
    · next ahead =>
      have before : d.cursor < m.loop_end.toNat := by omega
      have positive := frames_read_pos looped before n
      simp only [answer, Nat.ne_of_gt positive, if_false]
      exact .read n here answer before
  | writing buf =>
    simp only [step, here, write, plays.goes, Bool.false_eq_true, if_false]
    exact .write buf here
  | finished => simp only [here] at sound

theorem new_sound : Sound (new : DecodeThread α) := fun _ => rfl

theorem length_samples (first count : ℕ) (inside : first + count ≤ length m) :
    (samples m first count).length = 2 * count := by
  rw [length] at inside
  rw [samples, List.length_take, List.length_drop]
  omega

theorem frames_read_le (n cursor : ℕ) : frames_read m n cursor ≤ length m - cursor :=
  Nat.le_trans (Nat.min_le_right _ _) (Nat.min_le_right _ _)

theorem Move.sound (looped : Looped m) (sound : Sound d) (move : Move m i d d') : Sound d' := by
  rw [Sound] at sound
  cases move with
  | pass here => exact rfl
  | loop_end here reached =>
    simp only [here] at sound
    intro first
    exact absurd (sound.symm.trans first) Bool.noConfusion
  | read n here answer before =>
    simp only [here] at sound
    refine ⟨sound, fun none => ?_⟩
    have positive := frames_read_pos looped before n
    have inside := looped.inside
    have most := frames_read_le (m := m) n d.cursor
    have count := length_samples (m := m) d.cursor (frames_read m n d.cursor) (by omega)
    rw [none, List.length_nil] at count
    omega
  | write buf here =>
    simp only [here] at sound
    rw [Sound]
    by_cases left : i.free < buf.length
    · simp only [left, if_true]
      exact ⟨sound.1, fun none => absurd (List.drop_eq_nil_iff.mp none) (Nat.not_le_of_lt left)⟩
    · simp only [left, if_false]
      exact sound.1

theorem step_sound (looped : Looped m) (d : DecodeThread α) (i : Input) (plays : Plays i) (sound : Sound d) :
    Sound (step m d i) :=
  (step_move looped plays sound).sound looped sound

theorem thread_sound (looped : Looped m) (playing : Playing inputs) (t : ℕ) : Sound (thread m inputs t) :=
  invariant_state (step_sound looped) new_sound playing.plays t

theorem thread_move (looped : Looped m) (playing : Playing inputs) (t : ℕ) :
    Move m (inputs t) (thread m inputs t) (thread m inputs (t + 1)) :=
  step_move looped (playing.plays t) (thread_sound looped playing t)

/-! ### The ring fills on -/

/-- The steps until the ring takes samples again. -/
def steps (m : Track α) (d : DecodeThread α) : ℕ :=
  match d.phase with
  | .pass => 2
  | .decoding => if d.cursor < m.loop_end.toNat then 1 else 3
  | .writing _ => 0
  | .finished => 0

def rank (m : Track α) (total : ℕ) (d : DecodeThread α) : ℕ := 4 * (total - d.ring.length) + steps m d

theorem steps_le (d : DecodeThread α) : steps m d ≤ 3 := by
  rw [steps]
  split
  · decide
  · split
    · decide
    · decide
  · decide
  · decide

/-- A step that is not a step of writing comes nearer to writing; writing goes on where there is room. -/
theorem Move.rank_le (looped : Looped m) (sound : Sound d) (move : Move m i d d') {total : ℕ}
    (short : ¬total ≤ d.ring.length) :
    rank m total d' ≤ rank m total d ∧ (0 < i.free → rank m total d' < rank m total d) := by
  have order := looped.order
  have start := looped.start
  cases move with
  | pass here =>
    have before : (if d.first_pass then 0 else m.loop_start.toNat) < m.loop_end.toNat := by
      split
      · omega
      · omega
    simp only [rank, steps, here, before, if_true]
    omega
  | loop_end here reached =>
    simp only [rank, steps, here, Nat.not_lt_of_le reached, if_false]
    omega
  | read n here answer before =>
    simp only [rank, steps, here, before, if_true]
    omega
  | write buf here =>
    simp only [Sound, here] at sound
    have some := List.length_pos_of_ne_nil sound.2
    have after := steps_le (m := m)
      { d with
        ring := d.ring ++ buf.take i.free
        phase := if i.free < buf.length then .writing (buf.drop i.free) else .decoding }
    rcases Nat.eq_zero_or_pos i.free with none | room
    · simp [rank, steps, here, none, some]
    · have now : steps m d = 0 := by simp only [steps, here]
      rw [rank, rank, now, List.length_append, List.length_take]
      omega

/-- However many samples: the ring takes them at some time. -/
theorem ring_grows (looped : Looped m) (playing : Playing inputs) (total : ℕ) :
    ∃ t, total ≤ (thread m inputs t).ring.length := by
  obtain ⟨t, -, enough⟩ := eventually_of_rank (G := fun d : DecodeThread α => total ≤ d.ring.length)
    (F := fun i => 0 < i.free) (rank m total) (step_sound looped) new_sound playing.plays
    (fun d i plays sound short => ((step_move looped plays sound).rank_le looped sound short).1)
    (fun d i plays room sound short => ((step_move looped plays sound).rank_le looped sound short).2 room)
    playing.drained 0
  exact ⟨t, enough⟩

/-! ### What is heard -/

theorem heard_zero (m : Track α) : heard m 0 = stretch m 0 := List.append_nil _

theorem heard_succ (m : Track α) (n : ℕ) : heard m (n + 1) = heard m n ++ stretch m m.loop_start.toNat := by
  rw [heard, heard, List.replicate_succ', List.flatten_append, List.flatten_singleton, List.append_assoc]

theorem heard_mono (m : Track α) {n k : ℕ} (order : n ≤ k) : heard m n <+: heard m k := by
  induction order with
  | refl => exact List.prefix_rfl
  | step _ ih =>
    rw [heard_succ]
    exact ih.trans (List.prefix_append _ _)

theorem stretch_eq_nil {frame : ℕ} (reached : m.loop_end.toNat ≤ frame) : stretch m frame = [] := by
  apply List.drop_eq_nil_of_le
  rw [List.length_take]
  omega

theorem samples_append_stretch {cursor count : ℕ} (within : cursor + count ≤ m.loop_end.toNat) :
    samples m cursor count ++ stretch m (cursor + count) = stretch m cursor := by
  have apart : 2 * m.loop_end.toNat - 2 * cursor = 2 * count + (2 * m.loop_end.toNat - 2 * (cursor + count)) := by omega
  have behind : 2 * cursor + 2 * count = 2 * (cursor + count) := by omega
  rw [samples, stretch, stretch, List.drop_take, List.drop_take, apart, List.take_add, List.drop_drop, behind]

/-- What the thread has read. -/
def sent (d : DecodeThread α) : List α :=
  match d.phase with
  | .writing buf => d.ring ++ buf
  | _ => d.ring

theorem ring_isPrefix (d : DecodeThread α) : d.ring <+: sent d := by
  rw [sent]
  split
  · exact List.prefix_append _ _
  · exact List.prefix_rfl

theorem sent_write (buf : List α) (here : d.phase = .writing buf) :
    sent { d with
      ring := d.ring ++ buf.take i.free
      phase := if i.free < buf.length then .writing (buf.drop i.free) else .decoding } = sent d := by
  have before : sent d = d.ring ++ buf := by simp only [sent, here]
  rw [before]
  by_cases left : i.free < buf.length
  · simp only [sent, left, if_true]
    rw [List.append_assoc, List.take_append_drop]
  · simp only [sent, left, if_false]
    rw [List.take_of_length_le (Nat.le_of_not_lt left)]

theorem Move.sent_isPrefix (move : Move m i d d') : sent d <+: sent d' := by
  cases move with
  | pass here => simp only [sent, here, List.prefix_rfl]
  | loop_end here reached => simp only [sent, here, List.prefix_rfl]
  | read n here answer before => simp only [sent, here, List.prefix_append]
  | write buf here => simp only [sent_write buf here, List.prefix_rfl]

theorem sent_mono (looped : Looped m) (playing : Playing inputs) {t u : ℕ} (order : t ≤ u) :
    sent (thread m inputs t) <+: sent (thread m inputs u) := by
  induction order with
  | refl => exact List.prefix_rfl
  | step _ ih => exact ih.trans (thread_move looped playing _).sent_isPrefix

/-- Where the thread is in what is to be heard. -/
structure OnTrack (m : Track α) (d : DecodeThread α) : Prop where
  sound : Sound d
  follows : ∃ n, sent d ++ stretch m d.cursor = heard m n
  within : d.cursor ≤ m.loop_end.toNat
  ended : d.phase = .pass → d.first_pass = false → d.cursor = m.loop_end.toNat

theorem new_onTrack : OnTrack m new where
  sound := new_sound
  follows := ⟨0, (heard_zero m).symm⟩
  within := Nat.zero_le _
  ended _ later := Bool.noConfusion later

theorem Move.onTrack (looped : Looped m) (onTrack : OnTrack m d) (move : Move m i d d') (stops : Stops m d i) :
    OnTrack m d' := by
  obtain ⟨sound, ⟨n, follows⟩, within, ended⟩ := onTrack
  have order := looped.order
  have start := looped.start
  have after := move.sound looped sound
  cases move with
  | pass here =>
    simp only [sent, here] at follows
    simp only [Sound, here] at sound
    refine ⟨after, ?_, ?_, nofun⟩
    · simp only [sent]
      cases first : d.first_pass with
      | true =>
        rw [sound first] at follows
        exact ⟨n, follows⟩
      | false =>
        rw [ended here first, stretch_eq_nil (Nat.le_refl _), List.append_nil] at follows
        refine ⟨n + 1, ?_⟩
        rw [follows, heard_succ]
        rfl
    · dsimp only
      split
      · exact Nat.zero_le _
      · omega
  | loop_end here reached =>
    simp only [sent, here] at follows
    exact ⟨after, ⟨n, follows⟩, within, fun _ _ => Nat.le_antisymm within reached⟩
  | read k here answer before =>
    have inside := stops k here answer before
    simp only [sent, here] at follows
    refine ⟨after, ⟨n, ?_⟩, inside, nofun⟩
    simp only [sent]
    rw [List.append_assoc, samples_append_stretch inside]
    exact follows
  | write buf here =>
    refine ⟨after, ⟨n, ?_⟩, within, ?_⟩
    · rw [sent_write buf here]
      exact follows
    · dsimp only
      split
      · exact nofun
      · exact nofun

theorem thread_onTrack (looped : Looped m) (playing : Playing inputs) {t : ℕ}
    (stops : ∀ u < t, Stops m (thread m inputs u) (inputs u)) : OnTrack m (thread m inputs t) := by
  apply invariant_until (C := fun d i => Plays i ∧ Stops m d i) _ new_onTrack
  · exact fun u before => ⟨playing.plays u, stops u before⟩
  · rintro d i ⟨plays, stops⟩ onTrack
    exact (step_move looped plays onTrack.sound).onTrack looped onTrack stops

theorem OnTrack.front (onTrack : OnTrack m d) : ∃ n, d.ring <+: heard m n := by
  obtain ⟨n, follows⟩ := onTrack.follows
  exact ⟨n, follows ▸ (ring_isPrefix d).trans (List.prefix_append _ _)⟩

theorem sample_exact_of_within (looped : Looped m) (playing : Playing inputs) (within : Within m inputs) :
    SampleExact m inputs := by
  have front : ∀ t, ∃ n, (thread m inputs t).ring <+: heard m n := fun t =>
    (thread_onTrack looped playing fun u _ => within u).front
  refine ⟨front, fun n => ?_⟩
  obtain ⟨t, enough⟩ := ring_grows looped playing (heard m n).length
  obtain ⟨k, taken⟩ := front t
  refine ⟨t, ?_⟩
  apply List.prefix_of_prefix_length_le _ _ enough
  · exact heard m (max n k)
  · exact heard_mono m (Nat.le_max_left n k)
  · exact taken.trans (heard_mono m (Nat.le_max_right n k))

/-! ### A read that goes past the loop's end -/

theorem getElem?_stretch (frame k : ℕ) (inside : 2 * frame + k < 2 * m.loop_end.toNat) :
    (stretch m frame)[k]? = m.pcm[2 * frame + k]? := by
  rw [stretch, List.getElem?_drop, List.getElem?_take_of_lt inside]

theorem length_stretch (looped : Looped m) (frame : ℕ) :
    (stretch m frame).length = 2 * m.loop_end.toNat - 2 * frame := by
  have inside := looped.inside
  rw [length] at inside
  rw [stretch, List.length_drop, List.length_take]
  omega

theorem getElem?_heard (looped : Looped m) {n k : ℕ} (more : (heard m n).length < (heard m k).length) :
    (heard m k)[(heard m n).length]? = m.pcm[2 * m.loop_start.toNat]? := by
  have order := looped.order
  have start := looped.start
  have later : n < k := by
    by_contra before
    have := (heard_mono m (Nat.le_of_not_lt before)).length_le
    omega
  have some : 0 < (stretch m m.loop_start.toNat).length := by
    rw [length_stretch looped]
    omega
  have next : (heard m (n + 1))[(heard m n).length]? = m.pcm[2 * m.loop_start.toNat]? := by
    rw [heard_succ, List.getElem?_append_right (Nat.le_refl _), Nat.sub_self]
    exact getElem?_stretch m.loop_start.toNat 0 (by omega)
  have inside : (heard m n).length < (heard m (n + 1)).length := by
    rw [heard_succ, List.length_append]
    omega
  obtain ⟨rest, whole⟩ := heard_mono m later
  rw [← next, ← whole]
  exact List.getElem?_append_left inside

theorem Move.overshoots (looped : Looped m) (onTrack : OnTrack m d) (move : Move m i d d')
    (too_far : ¬Stops m d i) : ∃ n, (heard m n).length < (sent d').length ∧
      (sent d')[(heard m n).length]? = m.pcm[2 * m.loop_end.toNat]? := by
  simp only [Stops, not_forall] at too_far
  obtain ⟨k, decoding, ret, front, beyond⟩ := too_far
  obtain ⟨-, ⟨n, follows⟩, within, -⟩ := onTrack
  refine ⟨n, ?_⟩
  cases move with
  | pass here => exact absurd (here.symm.trans decoding) nofun
  | loop_end here reached => exact absurd reached (Nat.not_le_of_lt front)
  | read k' here answer before =>
    obtain rfl : k' = k := Option.some.inj (answer.symm.trans ret)
    have inside := looped.inside
    have most := frames_read_le (m := m) k' d.cursor
    have count := length_samples (m := m) d.cursor (frames_read m k' d.cursor) (by omega)
    have rest := length_stretch looped d.cursor
    simp only [sent, here] at follows ⊢
    rw [← follows, List.length_append, List.length_append, rest, count]
    refine ⟨by omega, ?_⟩
    rw [List.getElem?_append_right (Nat.le_add_right _ _), Nat.add_sub_cancel_left, samples,
      List.getElem?_take_of_lt (by omega), List.getElem?_drop]
    congr 1
    omega
  | write buf here => exact absurd (here.symm.trans decoding) nofun

/-- After a read that went past the loop's end the frame behind it is heard where the loop's first one should be. -/
theorem same_of_sample_exact (looped : Looped m) (playing : Playing inputs) (exact_ : SampleExact m inputs)
    (beyond : ¬Within m inputs) : m.pcm[2 * m.loop_end.toNat]? = m.pcm[2 * m.loop_start.toNat]? := by
  classical
  -- The first read that goes too far.
  have some : ∃ t, ¬Stops m (thread m inputs t) (inputs t) := not_forall.mp beyond
  have too_far := Nat.find_spec some
  have earlier : ∀ u < Nat.find some, Stops m (thread m inputs u) (inputs u) := fun u before =>
    not_not.mp (Nat.find_min some before)
  generalize Nat.find some = t at too_far earlier
  have move := thread_move looped playing t
  obtain ⟨n, length, behind⟩ := move.overshoots looped (thread_onTrack looped playing earlier) too_far
  -- All of its frames are in the ring at some time.
  obtain ⟨u, enough⟩ := ring_grows looped playing (sent (thread m inputs (t + 1))).length
  have later : sent (thread m inputs (t + 1)) <+: (thread m inputs u).ring := by
    rcases Nat.le_total (t + 1) u with order | order
    · exact List.prefix_of_prefix_length_le (sent_mono looped playing order) (ring_isPrefix _) enough
    · have whole := (ring_isPrefix _).trans (sent_mono looped playing order)
      have same := whole.eq_of_length_le enough
      exact same ▸ List.prefix_rfl
  obtain ⟨k, taken⟩ := exact_.front u
  obtain ⟨rest, whole⟩ := later.trans taken
  have longer := (later.trans taken).length_le
  rw [← getElem?_heard looped (Nat.lt_of_lt_of_le length longer), ← behind, ← whole]
  exact (List.getElem?_append_left length).symm

/-! ### What the thread does does not depend on the samples -/

variable {β : Type*}

def Track.map (f : α → β) (m : Track α) : Track β := ⟨m.path, m.pcm.map f, m.loop_start, m.loop_end⟩

def Phase.map (f : α → β) : Phase α → Phase β
  | .pass => .pass
  | .decoding => .decoding
  | .writing buf => .writing (buf.map f)
  | .finished => .finished

def DecodeThread.map (f : α → β) (d : DecodeThread α) : DecodeThread β :=
  ⟨d.first_pass, d.cursor, d.phase.map f, d.ring.map f⟩

variable (f : α → β)

theorem length_map (m : Track α) : length (m.map f) = length m := by
  rw [length, Track.map, List.length_map, length]

theorem samples_map (m : Track α) (first count : ℕ) : samples (m.map f) first count = (samples m first count).map f := by
  simp only [samples, Track.map, List.map_take, List.map_drop]

theorem frames_read_map (m : Track α) (n cursor : ℕ) : frames_read (m.map f) n cursor = frames_read m n cursor := by
  rw [frames_read, length_map]
  rfl

theorem seek_map (m : Track α) : seek (m.map f) = seek m := by
  funext frame cursor
  rw [seek, length_map, seek]

theorem begin_pass_map (m : Track α) (d : DecodeThread α) (i : Input) :
    begin_pass (m.map f) (d.map f) i = (begin_pass m d i).map f := by
  have path : (m.map f).path = m.path := rfl
  rw [begin_pass, begin_pass, seek_map, path]
  cases m.path with
  | opus => rfl
  | fallback =>
    cases i.stop_requested with
    | true => rfl
    | false => rfl

theorem end_pass_map (d : DecodeThread α) (i : Input) : end_pass (d.map f) i = (end_pass d i).map f := by
  rw [end_pass, end_pass]
  cases i.looping with
  | true => rfl
  | false => rfl

theorem decode_map (m : Track α) (d : DecodeThread α) (i : Input) :
    decode (m.map f) (d.map f) i = (decode m d i).map f := by
  have path : (m.map f).path = m.path := rfl
  have loop_end : (m.map f).loop_end = m.loop_end := rfl
  have cursor : (d.map f).cursor = d.cursor := rfl
  simp only [decode, path, loop_end, cursor, frames_read_map, samples_map, end_pass_map]
  split
  · rfl
  · split
    · rfl
    · split
      · cases m.path with
        | opus => rfl
        | fallback => rfl
      · split
        · rfl
        · rfl

theorem write_map (d : DecodeThread α) (buf : List α) (i : Input) :
    write (d.map f) (buf.map f) i = (write d buf i).map f := by
  rw [write, write]
  split
  · rfl
  · simp only [DecodeThread.map, List.length_map, List.map_append, List.map_take]
    congr 1
    split
    · rw [Phase.map, List.map_drop]
    · rfl

theorem step_map (m : Track α) (d : DecodeThread α) (i : Input) : step (m.map f) (d.map f) i = (step m d i).map f := by
  have phase : (d.map f).phase = d.phase.map f := rfl
  cases here : d.phase with
  | pass => simp only [step, phase, here, Phase.map, begin_pass_map]
  | decoding => simp only [step, phase, here, Phase.map, decode_map]
  | writing buf => simp only [step, phase, here, Phase.map, write_map]
  | finished => simp only [step, phase, here, Phase.map]

theorem thread_map (m : Track α) (inputs : ℕ → Input) (t : ℕ) :
    thread (m.map f) inputs t = (thread m inputs t).map f := by
  induction t with
  | zero => rfl
  | succ t ih =>
    have next : thread (m.map f) inputs (t + 1) = step (m.map f) (thread (m.map f) inputs t) (inputs t) := rfl
    rw [next, ih, step_map]
    rfl

theorem stops_map (m : Track α) (d : DecodeThread α) (i : Input) : Stops (m.map f) (d.map f) i ↔ Stops m d i := by
  have decoding : (d.map f).phase = .decoding ↔ d.phase = .decoding := by
    rw [DecodeThread.map]
    cases d.phase <;> simp [Phase.map]
  simp only [Stops, decoding, frames_read_map]
  exact Iff.rfl

theorem within_map (m : Track α) (inputs : ℕ → Input) : Within (m.map f) inputs ↔ Within m inputs := by
  simp only [Within, thread_map, stops_map]

theorem within_of_length {pcm pcm' : List α} (same : pcm.length = pcm'.length) (path : Path) (loop_start loop_end : ℤ)
    (inputs : ℕ → Input) : Within ⟨path, pcm, loop_start, loop_end⟩ inputs ↔
      Within ⟨path, pcm', loop_start, loop_end⟩ inputs := by
  have forget : (⟨path, pcm, loop_start, loop_end⟩ : Track α).map (fun _ => ()) =
      (⟨path, pcm', loop_start, loop_end⟩ : Track α).map (fun _ => ()) := by
    simp only [Track.map, List.map_const', same]
  rw [← within_map (fun _ => ()), forget, within_map]

/-! ### The loop points are exact just if no read goes past the loop's end -/

/-- Samples of which those behind the loop's end are told from those that the loop begins with. -/
theorem exists_apart [Nontrivial α] (looped : Looped m) :
    ∃ pcm : List α, pcm.length = m.pcm.length ∧ pcm[2 * m.loop_end.toNat]? ≠ pcm[2 * m.loop_start.toNat]? := by
  obtain ⟨a, b, apart⟩ := exists_pair_ne α
  have order := looped.order
  have start := looped.start
  have inside := looped.inside
  rw [length] at inside
  refine ⟨(List.replicate m.pcm.length a).set (2 * m.loop_end.toNat) b, by simp, ?_⟩
  have first : ((List.replicate m.pcm.length a).set (2 * m.loop_end.toNat) b)[2 * m.loop_start.toNat]? = some a := by
    rw [List.getElem?_set_ne (by omega), List.getElem?_replicate_of_lt (by omega)]
  rw [first]
  rcases Nat.lt_or_ge (2 * m.loop_end.toNat) m.pcm.length with within | beyond
  · rw [List.getElem?_set_self (by simpa using within)]
    exact fun same => apart (Option.some.inj same).symm
  · rw [List.getElem?_eq_none (by simpa using beyond)]
    exact nofun

/-- All samples of a length come out at the loop points just if no read that begins in front of the loop's end goes past
it. -/
theorem sample_exact_iff [Nontrivial α] (m : Track α) (looped : Looped m) (inputs : ℕ → Input)
    (playing : Playing inputs) :
    (∀ pcm : List α, pcm.length = m.pcm.length → SampleExact { m with pcm := pcm } inputs) ↔ Within m inputs := by
  have looped' : ∀ pcm : List α, pcm.length = m.pcm.length → Looped { m with pcm := pcm } := by
    intro pcm same
    refine ⟨looped.start, looped.order, ?_⟩
    simp only [length, same]
    exact looped.inside
  constructor
  · intro all
    obtain ⟨pcm, same, apart⟩ := exists_apart looped
    apply (within_of_length same m.path m.loop_start m.loop_end inputs).mp
    by_contra beyond
    exact apart (same_of_sample_exact (looped' pcm same) playing (all pcm same) beyond)
  · intro within pcm same
    apply sample_exact_of_within (looped' pcm same) playing
    exact (within_of_length same m.path m.loop_start m.loop_end inputs).mpr within

/-- With reads of one frame. -/
theorem sample_exact_one_by_one :
    SampleExact ⟨.opus, [1, 1, 2, 2, 3, 3, 4, 4], 1, 3⟩ (fun _ => ⟨false, true, some 0, 1⟩) := by
  have playing : Playing (fun _ => ⟨false, true, some 0, 1⟩) :=
    ⟨fun _ => ⟨rfl, rfl, nofun⟩, fun t => ⟨t, Nat.le_refl t, Nat.one_pos⟩⟩
  have looped : Looped (⟨.opus, [1, 1, 2, 2, 3, 3, 4, 4], 1, 3⟩ : Track ℕ) := ⟨by decide, by decide, by decide⟩
  apply (sample_exact_iff _ looped _ playing).mpr _ _ rfl
  intro t n _ answer before
  obtain rfl : 0 = n := Option.some.inj answer
  exact Nat.le_trans (Nat.add_le_add_left (Nat.min_le_left _ _) _) before

theorem mem_heard {n : ℕ} {x : α} (member : x ∈ heard m n) : x ∈ m.pcm.take (2 * m.loop_end.toNat) := by
  rcases List.mem_append.mp member with track | repeated
  · exact List.mem_of_mem_drop track
  · obtain ⟨loop, copy, inside⟩ := List.mem_flatten.mp repeated
    rw [List.eq_of_mem_replicate copy] at inside
    exact List.mem_of_mem_drop inside

/-- One read of two frames, with the loop's end between them. -/
theorem read_past_loop_end : ¬SampleExact ⟨.opus, [1, 1, 2, 2], 0, 1⟩ (fun _ => ⟨false, true, some 1, 4⟩) := by
  intro exact_
  obtain ⟨n, taken⟩ := exact_.front 3
  have ring : (thread ⟨.opus, [1, 1, 2, 2], 0, 1⟩ (fun _ => ⟨false, true, some 1, 4⟩) 3).ring = [1, 1, 2, 2] := by
    decide
  rw [ring] at taken
  have behind := mem_heard (taken.subset (by decide : 2 ∈ [1, 1, 2, 2]))
  exact absurd behind (by decide)

end AoSdl.LoopPoints
