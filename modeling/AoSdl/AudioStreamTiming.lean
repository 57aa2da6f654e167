import AoSdl.AudioStream

/-! What the decode thread writes against the decoding of the complete file, for every split of the file and
every interleaving: only the copy that the second decoder works on depends on when it is taken. -/
namespace AoSdl.AudioStream
open Lib.Runs

variable {α : Type*} {d : AudioDecoders α} {file : Bytes} {s s' : AudioStream α}

/-- What is written and what is to be written next are the samples that Opus gave, or with the rest all that
miniaudio gave for a beginning of the file. -/
def Plays (d : AudioDecoders α) (file : Bytes) (s : AudioStream α) (frame : List α) : Source α → Prop
  | .opus eof emitted => ∃ pcm, d.opus file = some pcm ∧ s.written ++ frame = pcm.take emitted ∧
      (eof = true → s.consumed = file)
  | .miniaudio rest => d.opus file = none ∧ ∃ front pcm, front <+: file ∧ d.miniaudio front = some pcm ∧
      s.written ++ frame ++ rest = pcm

def Placed (d : AudioDecoders α) (file : Bytes) (s : AudioStream α) : Thread α → Prop
  | .idle => s.written = []
  | .opening => s.written = []
  | .fallback => s.written = [] ∧ d.opus file = none
  | .decoding source => Plays d file s [] source
  | .writing frame source => Plays d file s frame source
  | .done => True

structure Inv (d : AudioDecoders α) (file : Bytes) (s : AudioStream α) : Prop where
  fed : s.raw_data_ <+: file
  pos : s.raw_read_pos_ ≤ s.raw_data_.length
  complete : s.raw_complete_ = true → s.raw_data_ = file
  ring : s.pcm_ring_.length ≤ ring_capacity
  idle : s.thread = .idle ↔ s.decode_started_ = false
  unfed : s.thread = .idle → s.raw_data_ = []
  told : s.thread = .idle → s.raw_complete_ = true → s.finished_ = true
  finished : s.finished_ = true → s.thread = .done ∨ file = []
  done : s.thread = .done → s.finished_ = true
  placed : Placed d file s s.thread

/-- What will have been written once the second decoder's samples all are. -/
def Planned (d : AudioDecoders α) (file : Bytes) (s : AudioStream α) : Thread α → Prop
  | .decoding (.miniaudio rest) => s.written ++ rest = decoding d file
  | .writing frame (.miniaudio rest) => s.written ++ frame ++ rest = decoding d file
  | .done => s.written = decoding d file
  | _ => True

/-- When the copy is taken, what has arrived decodes to what the complete file does. -/
def Arrived (d : AudioDecoders α) (file : Bytes) (s : AudioStream α) : Event → Prop
  | .decode _ => s.thread = .fallback →
      (d.miniaudio s.raw_data_).getD [] = (d.miniaudio file).getD []
  | _ => True

theorem decoding_of_opus {pcm : List α} (takes : d.opus file = some pcm) : decoding d file = pcm := by
  unfold decoding
  rw [takes, Option.some_or, Option.getD_some]

theorem decoding_of_not_opus (rejects : d.opus file = none) :
    decoding d file = (d.miniaudio file).getD [] := by
  unfold decoding
  rw [rejects, Option.none_or]

theorem decoding_nil (d : AudioDecoders α) : decoding d [] = [] := by
  rw [decoding_of_not_opus d.opus_nil, d.miniaudio_nil, Option.getD_none]

theorem inv_new (d : AudioDecoders α) (file : Bytes) : Inv d file new where
  fed := List.nil_prefix
  pos := le_rfl
  complete := nofun
  ring := Nat.zero_le _
  idle := iff_of_true rfl rfl
  unfed := fun _ => rfl
  told := fun _ => nofun
  finished := nofun
  done := nofun
  placed := rfl

/-- The cursor is inside what was fed, so that more of the file does not change what went through it. -/
theorem consumed_feed (inside : s.raw_read_pos_ ≤ s.raw_data_.length) (data : Bytes) :
    (s.feed data).consumed = s.consumed := List.take_append_of_le_length inside

theorem consumed_isPrefix (i : Inv d file s) : s.consumed <+: file :=
  (List.take_prefix _ _).trans i.fed

theorem consumed_of_eof (i : Inv d file s) (all : s.raw_data_.length ≤ s.raw_read_pos_)
    (complete : s.raw_complete_ = true) : s.consumed = file := by
  unfold consumed
  rw [List.take_of_length_le all]
  exact i.complete complete

/-- Only the written samples and the cursor count for what the thread has. -/
theorem Plays.of_eq {frame : List α} {source : Source α} (plays : Plays d file s frame source)
    (written : s'.written = s.written) (consumed : s'.consumed = s.consumed) :
    Plays d file s' frame source := by
  cases source with
  | opus eof emitted =>
    unfold Plays at plays ⊢
    rwa [written, consumed]
  | miniaudio rest =>
    unfold Plays at plays ⊢
    rwa [written]

theorem Placed.of_eq {thread : Thread α} (placed : Placed d file s thread)
    (written : s'.written = s.written) (consumed : s'.consumed = s.consumed) : Placed d file s' thread := by
  cases thread with
  | idle => exact written.trans placed
  | opening => exact written.trans placed
  | fallback => exact ⟨written.trans placed.1, placed.2⟩
  | decoding source => exact Plays.of_eq placed written consumed
  | writing frame source => exact Plays.of_eq placed written consumed
  | done => trivial

theorem Inv.feed (i : Inv d file s) (len : ℕ) :
    Inv d file (s.feed ((file.drop s.raw_data_.length).take len)) := by
  have same := consumed_feed i.pos ((file.drop s.raw_data_.length).take len)
  have grows : s.raw_data_ ++ (file.drop s.raw_data_.length).take len <+: file := by
    obtain ⟨rest, whole⟩ := i.fed
    rw [← whole, List.drop_left, List.prefix_append_right_inj]
    exact List.take_prefix len rest
  have complete (marked : s.raw_complete_ = true) :
      s.raw_data_ ++ (file.drop s.raw_data_.length).take len = file := by
    rw [i.complete marked, List.drop_length, List.take_nil, List.append_nil]
  have longer : s.raw_read_pos_ ≤ (s.raw_data_ ++ (file.drop s.raw_data_.length).take len).length :=
    i.pos.trans (List.length_append ▸ Nat.le_add_right _ _)
  cases started : s.decode_started_ with
  | true =>
    have thread : (s.feed ((file.drop s.raw_data_.length).take len)).thread = s.thread := if_pos started
    have running : s.thread ≠ .idle := fun idle => by
      rw [i.idle.mp idle] at started
      cases started
    refine ⟨grows, longer, complete, i.ring, ?_, ?_, ?_, ?_, ?_, ?_⟩
    · rw [thread]
      exact iff_of_false running nofun
    · rw [thread]
      exact fun idle => absurd idle running
    · rw [thread]
      exact fun idle => absurd idle running
    · rw [thread]
      exact i.finished
    · rw [thread]
      exact i.done
    · rw [thread]
      exact i.placed.of_eq rfl same
  | false =>
    have idle := i.idle.mpr started
    have thread : (s.feed ((file.drop s.raw_data_.length).take len)).thread = .opening := by
      unfold AudioStream.feed
      simp only [started, Bool.false_eq_true, if_false]
    have nothing : s.written = [] := by
      have placed := i.placed
      rwa [idle] at placed
    refine ⟨grows, longer, complete, i.ring, ?_, ?_, ?_, ?_, ?_, ?_⟩
    · rw [thread]
      exact iff_of_false nofun nofun
    · rw [thread]
      exact nofun
    · rw [thread]
      exact nofun
    · intro finished
      rcases i.finished finished with done | empty
      · rw [idle] at done
        cases done
      · exact Or.inr empty
    · rw [thread]
      exact nofun
    · rw [thread]
      exact nothing

theorem Inv.mark_complete (i : Inv d file s) (all : s.raw_data_ = file) : Inv d file s.mark_complete where
  fed := i.fed
  pos := i.pos
  complete := fun _ => all
  ring := i.ring
  idle := i.idle
  unfed := i.unfed
  told := fun idle _ => by
    unfold AudioStream.mark_complete
    simp only [i.idle.mp idle, Bool.not_false, Bool.or_true]
  finished := fun finished => by
    cases started : s.decode_started_ with
    | true =>
      unfold AudioStream.mark_complete at finished
      simp only [started, Bool.not_true, Bool.or_false] at finished
      exact i.finished finished
    | false => exact Or.inr (all.symm.trans (i.unfed (i.idle.mpr started)))
  done := fun done => by
    have finished := i.done done
    unfold AudioStream.mark_complete
    simp only [finished, Bool.true_or]
  placed := i.placed.of_eq rfl rfl

theorem Inv.read_frames (i : Inv d file s) (frame_count : ℕ) : Inv d file (s.read_frames frame_count) where
  fed := i.fed
  pos := i.pos
  complete := i.complete
  ring := (List.length_drop ▸ Nat.sub_le _ _).trans i.ring
  idle := i.idle
  unfed := i.unfed
  told := i.told
  finished := i.finished
  done := i.done
  placed := i.placed.of_eq rfl rfl

theorem Inv.advance (i : Inv d file s) (started : s.thread ≠ .idle) (running : s.thread ≠ .done)
    (same : s'.raw_data_ = s.raw_data_ ∧ s'.raw_complete_ = s.raw_complete_ ∧ s'.finished_ = s.finished_ ∧
      s'.decode_started_ = s.decode_started_)
    (pos : s'.raw_read_pos_ ≤ s.raw_data_.length) (ring : s'.pcm_ring_.length ≤ ring_capacity)
    (started' : s'.thread ≠ .idle) (running' : s'.thread ≠ .done) (placed : Placed d file s' s'.thread) :
    Inv d file s' := by
  obtain ⟨data, complete, finished, begun⟩ := same
  have active : s.decode_started_ ≠ false := fun idle => started (i.idle.mpr idle)
  refine ⟨?_, ?_, ?_, ring, ?_, fun idle => absurd idle started', fun idle => absurd idle started', ?_,
    fun done => absurd done running', placed⟩
  · rw [data]
    exact i.fed
  · rw [data]
    exact pos
  · rw [complete, data]
    exact i.complete
  · rw [begun]
    exact iff_of_false started' active
  · rw [finished]
    exact fun over_ => Or.inr ((i.finished over_).resolve_left running)

theorem Inv.finish (i : Inv d file s) (started : s.thread ≠ .idle) : Inv d file s.finish where
  fed := i.fed
  pos := i.pos
  complete := i.complete
  ring := i.ring
  idle := iff_of_false nofun fun idle => started (i.idle.mpr idle)
  unfed := nofun
  told := nofun
  finished := fun _ => Or.inl rfl
  done := fun _ => rfl
  placed := trivial

/-- All that a step of the decode thread can be. -/
inductive Move (d : AudioDecoders α) (file : Bytes) (s : AudioStream α) : AudioStream α → Prop where
  | waits (blocked : s.thread = .idle ∨ s.thread = .done ∨ s.raw_complete_ = false)
      (other : s.thread ≠ .fallback) : Move d file s s
  | pulls (k : ℕ) (reading : s.thread = .opening ∨ ∃ emitted, s.thread = .decoding (.opus false emitted))
      (some_ : 0 < k) (there : s.raw_read_pos_ + k ≤ s.raw_data_.length) :
      Move d file s { s with raw_read_pos_ := s.raw_read_pos_ + k }
  | accepts (eof : Bool) (pcm : List α) (opening : s.thread = .opening) (takes : d.opus file = some pcm)
      (all : eof = true → s.consumed = file) :
      Move d file s { s with ready_ := true, thread := .decoding (.opus eof 0) }
  | rejects (opening : s.thread = .opening) (none_ : d.opus file = none) :
      Move d file s { s with thread := .fallback }
  | copies (pcm : List α) (fallback : s.thread = .fallback) (decoded : d.miniaudio s.raw_data_ = some pcm) :
      Move d file s { s with ready_ := true, thread := .decoding (.miniaudio pcm) }
  | fails (fallback : s.thread = .fallback) (none_ : d.miniaudio s.raw_data_ = none) : Move d file s s.finish
  | opus_emits (eof : Bool) (emitted : ℕ) (frame pcm : List α)
      (at_ : s.thread = .decoding (.opus eof emitted)) (takes : d.opus file = some pcm)
      (filled : 0 < frame.length) (inside : emitted + frame.length ≤ pcm.length)
      (next : s.written ++ frame = pcm.take (emitted + frame.length)) :
      Move d file s { s with thread := .writing frame (.opus eof (emitted + frame.length)) }
  | sees_eof (emitted : ℕ) (at_ : s.thread = .decoding (.opus false emitted)) (all : s.consumed = file) :
      Move d file s { s with thread := .decoding (.opus true emitted) }
  | opus_ends (emitted : ℕ) (at_ : s.thread = .decoding (.opus true emitted))
      (takes : d.opus file = some s.written) : Move d file s s.finish
  | miniaudio_emits (frame rest : List α) (at_ : s.thread = .decoding (.miniaudio (frame ++ rest)))
      (filled : 0 < frame.length) :
      Move d file s { s with thread := .writing frame (.miniaudio rest) }
  | miniaudio_ends (at_ : s.thread = .decoding (.miniaudio [])) : Move d file s s.finish
  | writes (front back : List α) (source : Source α) (at_ : s.thread = .writing (front ++ back) source)
      (fits : s.pcm_ring_.length + front.length ≤ ring_capacity)
      (room : s.pcm_ring_.length < ring_capacity → 0 < front.length ∨ back = []) :
      Move d file s
        { s with
          pcm_ring_ := s.pcm_ring_ ++ front
          written := s.written ++ front
          thread := if back = [] then .decoding source else .writing back source }

/-- The frame continues what was written. -/
theorem take_append_frame {pcm source : List α} (inside : source <+: pcm) (emitted count : ℕ) :
    pcm.take emitted ++ (source.drop emitted).take count =
      pcm.take (emitted + ((source.drop emitted).take count).length) := by
  obtain ⟨rest, rfl⟩ := inside
  by_cases short : emitted ≤ source.length
  · rw [List.take_add, List.append_right_inj, List.drop_append_of_le_length short, List.length_take,
      List.take_append_of_le_length (Nat.min_le_right _ _), ← List.take_take, List.take_length]
  · have nothing : source.drop emitted = [] := List.drop_eq_nil_of_le (Nat.le_of_not_le short)
    rw [nothing, List.take_nil, List.append_nil, List.length_nil, Nat.add_zero]

theorem move_pull (i : Inv d file s) (count : ℕ) {at_eof : AudioStream α}
    (reading : s.thread = .opening ∨ ∃ emitted, s.thread = .decoding (.opus false emitted))
    (ends : s.consumed = file → Move d file s at_eof) : Move d file s (s.pull (count + 1) at_eof) := by
  unfold pull stream_read
  by_cases more : s.raw_read_pos_ < s.raw_data_.length
  · rw [if_pos more]
    exact .pulls _ reading (by omega) (by omega)
  · rw [if_neg more]
    cases complete : s.raw_complete_ with
    | true => exact ends (consumed_of_eof i (Nat.le_of_not_lt more) complete)
    | false =>
      refine .waits (Or.inr (Or.inr complete)) ?_
      rcases reading with opening | ⟨emitted, at_⟩
      · exact opening ▸ nofun
      · exact at_ ▸ nofun

theorem move_judge (opening : s.thread = .opening) {verdict : Bool} {eof : Bool}
    (right : (d.opus file).isSome = verdict) (all : eof = true → s.consumed = file) :
    Move d file s (s.judge verdict eof) := by
  cases verdict with
  | true =>
    obtain ⟨pcm, takes⟩ := Option.isSome_iff_exists.mp right
    exact .accepts eof pcm opening takes all
  | false => exact .rejects opening (Option.isNone_iff_eq_none.mp (Option.isSome_eq_false_iff.mp right))

theorem move_write (i : Inv d file s) {frame : List α} {source : Source α}
    (at_ : s.thread = .writing frame source) : Move d file s (s.write frame source) := by
  unfold write
  simp only
  generalize counted : min frame.length (ring_capacity - s.pcm_ring_.length) = n
  have ring := i.ring
  have inside : n ≤ frame.length := counted ▸ Nat.min_le_left _ _
  have front : (frame.take n).length = n := List.length_take_of_le inside
  have whole : n = frame.length ↔ frame.drop n = [] := by
    rw [List.drop_eq_nil_iff]
    omega
  have move := @Move.writes _ d file s (frame.take n) (frame.drop n) source
    (by rw [List.take_append_drop]; exact at_) (by omega) (by
      intro room
      rw [front, ← whole]
      omega)
  simpa only [whole] using move

/-- The Opus loop gives the next frame of what it has, else it asks for bytes or ends. -/
theorem move_opus (i : Inv d file s) (n : ℕ) {eof : Bool} {emitted : ℕ}
    (at_ : s.thread = .decoding (.opus eof emitted)) : Move d file s (s.decode d n) := by
  have placed := i.placed
  rw [at_] at placed
  obtain ⟨pcm, takes, written, all⟩ := placed
  rw [List.append_nil] at written
  simp only [AudioStream.decode, at_]
  generalize shown : (if eof = true then (d.opus s.consumed).getD [] else d.so_far s.consumed) = given
  have inside : given <+: pcm := by
    cases eof with
    | true =>
      rw [if_pos rfl, all rfl, takes, Option.getD_some] at shown
      exact shown ▸ List.prefix_refl pcm
    | false => exact shown ▸ d.so_far_isPrefix _ _ _ (consumed_isPrefix i) takes
  by_cases more : emitted < given.length
  · rw [if_pos more]
    have short := inside.length_le
    have count : 0 < min (n + 1) opus_frame := by
      unfold opus_frame
      omega
    refine .opus_emits eof emitted _ pcm at_ takes ?_ ?_ ?_
    · rw [List.length_take, List.length_drop]
      omega
    · rw [List.length_take, List.length_drop]
      omega
    · rw [written]
      exact take_append_frame inside emitted _
  · rw [if_neg more]
    cases eof with
    | true =>
      rw [if_pos rfl]
      rw [if_pos rfl, all rfl, takes, Option.getD_some] at shown
      subst shown
      rw [List.take_of_length_le (Nat.le_of_not_lt more)] at written
      exact .opus_ends emitted at_ (written ▸ takes)
    | false => exact move_pull i n (Or.inr ⟨emitted, at_⟩) fun whole => .sees_eof emitted at_ whole

theorem move_decode (i : Inv d file s) (n : ℕ) : Move d file s (s.decode d n) := by
  cases at_ : s.thread with
  | decoding source =>
    cases source with
    | opus eof emitted => exact move_opus i n at_
    | miniaudio rest =>
      simp only [AudioStream.decode, at_]
      cases rest with
      | nil => exact .miniaudio_ends at_
      | cons first rest =>
        refine .miniaudio_emits _ _ (by rw [List.take_append_drop]; exact at_) ?_
        rw [List.length_take]
        unfold miniaudio_frame
        simp only [List.length_cons]
        omega
  | idle =>
    simp only [AudioStream.decode, at_]
    exact .waits (Or.inl at_) (at_ ▸ nofun)
  | done =>
    simp only [AudioStream.decode, at_]
    exact .waits (Or.inr (Or.inl at_)) (at_ ▸ nofun)
  | opening =>
    simp only [AudioStream.decode, at_]
    cases judged : d.header s.consumed with
    | some verdict =>
      exact move_judge at_ (d.header_decides _ _ _ (consumed_isPrefix i) judged) nofun
    | none =>
      refine move_pull i n (Or.inl at_) fun all => ?_
      exact move_judge at_ (by rw [all]) fun _ => all
  | fallback =>
    simp only [AudioStream.decode, at_]
    cases decoded : d.miniaudio s.raw_data_ with
    | none => exact .fails at_ decoded
    | some pcm => exact .copies pcm at_ decoded
  | writing frame source =>
    simp only [AudioStream.decode, at_]
    exact move_write i at_

theorem Inv.at (i : Inv d file s) {thread : Thread α} (ready_ : Bool)
    (started : s.thread ≠ .idle) (running : s.thread ≠ .done) (started' : thread ≠ .idle)
    (running' : thread ≠ .done) (placed : Placed d file s thread) :
    Inv d file { s with ready_, thread } :=
  i.advance started running ⟨rfl, rfl, rfl, rfl⟩ i.pos i.ring started' running' (placed.of_eq rfl rfl)

/-- What has gone to the ring of a frame leaves the rest of it. -/
theorem Plays.written {front back : List α} {source : Source α} (plays : Plays d file s (front ++ back) source) :
    Plays d file { s with written := s.written ++ front } back source := by
  cases source with
  | opus eof emitted =>
    obtain ⟨pcm, takes, written, all⟩ := plays
    exact ⟨pcm, takes, by rw [← written, List.append_assoc], all⟩
  | miniaudio rest =>
    obtain ⟨rejects, first, pcm, beginning, decoded, whole⟩ := plays
    refine ⟨rejects, first, pcm, beginning, decoded, ?_⟩
    rw [← whole, List.append_assoc s.written]

theorem Inv.move (i : Inv d file s) (move : Move d file s s') : Inv d file s' := by
  have placed := i.placed
  cases move with
  | waits blocked other => exact i
  | pulls k reading some_ there =>
    have moved : ∀ thread, s.thread = thread → thread ≠ .idle → thread ≠ .done →
        Placed d file { s with raw_read_pos_ := s.raw_read_pos_ + k } thread →
        Inv d file { s with raw_read_pos_ := s.raw_read_pos_ + k } := by
      rintro thread rfl started running placed
      exact i.advance started running ⟨rfl, rfl, rfl, rfl⟩ there i.ring started running placed
    rcases reading with opening | ⟨emitted, at_⟩
    · rw [opening] at placed
      exact moved _ opening nofun nofun placed
    · rw [at_] at placed
      obtain ⟨pcm, takes, written, -⟩ := placed
      exact moved _ at_ nofun nofun ⟨pcm, takes, written, nofun⟩
  | accepts eof pcm opening takes all =>
    rw [opening] at placed
    have nothing : s.written ++ [] = pcm.take 0 := by rw [placed, List.take_zero, List.append_nil]
    exact i.at true (opening ▸ nofun) (opening ▸ nofun) nofun nofun ⟨pcm, takes, nothing, all⟩
  | rejects opening none_ =>
    rw [opening] at placed
    exact i.at s.ready_ (opening ▸ nofun) (opening ▸ nofun) nofun nofun ⟨placed, none_⟩
  | copies pcm fallback decoded =>
    rw [fallback] at placed
    have all : s.written ++ [] ++ pcm = pcm := by rw [placed.1, List.append_nil, List.nil_append]
    exact i.at true (fallback ▸ nofun) (fallback ▸ nofun) nofun nofun
      ⟨placed.2, s.raw_data_, pcm, i.fed, decoded, all⟩
  | fails fallback none_ => exact i.finish (fallback ▸ nofun)
  | opus_emits eof emitted frame pcm at_ takes filled inside next =>
    rw [at_] at placed
    obtain ⟨-, -, -, all⟩ := placed
    exact i.at s.ready_ (at_ ▸ nofun) (at_ ▸ nofun) nofun nofun ⟨pcm, takes, next, all⟩
  | sees_eof emitted at_ all =>
    rw [at_] at placed
    obtain ⟨pcm, takes, written, -⟩ := placed
    exact i.at s.ready_ (at_ ▸ nofun) (at_ ▸ nofun) nofun nofun ⟨pcm, takes, written, fun _ => all⟩
  | opus_ends emitted at_ takes => exact i.finish (at_ ▸ nofun)
  | miniaudio_emits frame rest at_ filled =>
    rw [at_] at placed
    obtain ⟨rejects, front, pcm, beginning, decoded, whole⟩ := placed
    refine i.at s.ready_ (at_ ▸ nofun) (at_ ▸ nofun) nofun nofun ⟨rejects, front, pcm, beginning, decoded, ?_⟩
    rw [← whole, List.append_nil, List.append_assoc]
  | miniaudio_ends at_ => exact i.finish (at_ ▸ nofun)
  | writes front back source at_ fits room =>
    rw [at_] at placed
    have length : (s.pcm_ring_ ++ front).length ≤ ring_capacity := by rwa [List.length_append]
    refine i.advance (at_ ▸ nofun) (at_ ▸ nofun) ⟨rfl, rfl, rfl, rfl⟩ i.pos length ?_ ?_ ?_
    · simp only
      split <;> exact nofun
    · simp only
      split <;> exact nofun
    · have plays := placed.written
      simp only
      split
      · next empty =>
        subst empty
        exact plays.of_eq rfl rfl
      · exact plays.of_eq rfl rfl

/-- A step keeps the plan to the decoding of the complete file exactly if a copy that it takes does. -/
theorem planned_move (i : Inv d file s) (move : Move d file s s') :
    Planned d file s' s'.thread ↔ Planned d file s s.thread ∧
      (s.thread = .fallback → (d.miniaudio s.raw_data_).getD [] = (d.miniaudio file).getD []) := by
  have placed := i.placed
  have elsewhere {thread : Thread α} (at_ : s.thread = thread) (other : thread ≠ .fallback) {P : Prop}
      (same : P ↔ Planned d file s thread) : P ↔ Planned d file s s.thread ∧ (s.thread = .fallback →
        (d.miniaudio s.raw_data_).getD [] = (d.miniaudio file).getD []) := by
    subst at_
    rw [same, and_iff_left]
    exact fun fallback => absurd fallback other
  cases move with
  | waits blocked other => exact elsewhere rfl other Iff.rfl
  | pulls k reading some_ there =>
    rcases reading with opening | ⟨emitted, at_⟩
    · refine elsewhere opening nofun ?_
      simp only [opening]
      exact Iff.rfl
    · refine elsewhere at_ nofun ?_
      simp only [at_]
      exact Iff.rfl
  | accepts eof pcm opening takes all =>
    exact elsewhere opening nofun Iff.rfl
  | rejects opening none_ =>
    exact elsewhere opening nofun Iff.rfl
  | copies pcm fallback decoded =>
    rw [fallback] at placed ⊢
    change s.written ++ pcm = decoding d file ↔ True ∧ _
    rw [placed.1, List.nil_append, decoding_of_not_opus placed.2, decoded, Option.getD_some, true_and]
    exact ⟨fun same _ => same, fun same => same rfl⟩
  | fails fallback none_ =>
    rw [fallback] at placed ⊢
    change s.written = decoding d file ↔ True ∧ _
    rw [placed.1, decoding_of_not_opus placed.2, none_, Option.getD_none, true_and]
    exact ⟨fun same _ => same, fun same => same rfl⟩
  | opus_emits eof emitted frame pcm at_ takes filled inside next =>
    exact elsewhere at_ nofun Iff.rfl
  | sees_eof emitted at_ all =>
    exact elsewhere at_ nofun Iff.rfl
  | opus_ends emitted at_ takes =>
    refine elsewhere at_ nofun ?_
    exact iff_of_true (decoding_of_opus takes).symm trivial
  | miniaudio_emits frame rest at_ filled =>
    refine elsewhere at_ nofun ?_
    change s.written ++ frame ++ rest = _ ↔ s.written ++ (frame ++ rest) = _
    rw [List.append_assoc]
  | miniaudio_ends at_ =>
    refine elsewhere at_ nofun ?_
    change s.written = _ ↔ s.written ++ [] = _
    rw [List.append_nil]
  | writes front back source at_ fits room =>
    refine elsewhere at_ nofun ?_
    cases source with
    | opus eof emitted =>
      simp only
      split <;> exact Iff.rfl
    | miniaudio rest =>
      simp only
      split
      · next empty =>
        subst empty
        change s.written ++ front ++ rest = _ ↔ s.written ++ (front ++ []) ++ rest = _
        rw [List.append_nil]
      · change s.written ++ front ++ back ++ rest = _ ↔ s.written ++ (front ++ back) ++ rest = _
        rw [List.append_assoc s.written front back]

/-- The bytes to read, the samples to give and the frame to write, with their steps. -/
def source_work (d : AudioDecoders α) (file : Bytes) (s : AudioStream α) : Source α → ℕ
  | .opus eof emitted => s.raw_data_.length - s.raw_read_pos_ + (if eof then 0 else 1) +
      3 * (((d.opus file).getD []).length - emitted) + 1
  | .miniaudio rest => 3 * rest.length + 1

def work (d : AudioDecoders α) (file : Bytes) (s : AudioStream α) : Thread α → ℕ
  | .idle => 0
  | .opening => s.raw_data_.length - s.raw_read_pos_ + 3 * ((d.opus file).getD []).length +
      3 * ((d.miniaudio file).getD []).length + 5
  | .fallback => 3 * ((d.miniaudio file).getD []).length + 2
  | .decoding source => source_work d file s source
  | .writing frame source => source_work d file s source + frame.length + 1
  | .done => 0

/-- Once the file is complete every step with room in the ring brings the end nearer. -/
theorem work_move (i : Inv d file s) (move : Move d file s s') (complete : s.raw_complete_ = true)
    (started : s.thread ≠ .idle) (running : s.thread ≠ .done)
    (room : s.pcm_ring_.length < ring_capacity) : work d file s' s'.thread < work d file s s.thread := by
  have all := i.complete complete
  cases move with
  | waits blocked other =>
    rcases blocked with idle | done | unmarked
    · exact absurd idle started
    · exact absurd done running
    · rw [complete] at unmarked
      cases unmarked
  | pulls k reading some_ there =>
    rcases reading with opening | ⟨emitted, at_⟩
    · simp only [opening, work]
      omega
    · simp only [at_, work, source_work]
      omega
  | accepts eof pcm opening takes all =>
    simp only [opening, work, source_work]
    split <;> omega
  | rejects opening none_ =>
    simp only [opening, work]
    omega
  | copies pcm fallback decoded =>
    rw [all] at decoded
    simp only [fallback, work, source_work, decoded, Option.getD_some]
    omega
  | fails fallback none_ =>
    simp only [fallback, finish, work]
    omega
  | opus_emits eof emitted frame pcm at_ takes filled inside next =>
    simp only [at_, work, source_work, takes, Option.getD_some]
    omega
  | sees_eof emitted at_ all =>
    simp only [at_, work, source_work]
    simp
  | opus_ends emitted at_ takes =>
    simp only [at_, finish, work, source_work]
    omega
  | miniaudio_emits frame rest at_ filled =>
    simp only [at_, work, source_work, List.length_append]
    omega
  | miniaudio_ends at_ =>
    simp only [at_, finish, work, source_work]
    omega
  | writes front back source at_ fits enough =>
    have same (thread : Thread α) : source_work d file
        { s with pcm_ring_ := s.pcm_ring_ ++ front, written := s.written ++ front, thread } source =
          source_work d file s source := by
      cases source <;> rfl
    by_cases empty : back = []
    · simp only [at_, empty, if_true, work, List.length_append, same]
      omega
    · have written : 0 < front.length := (enough room).resolve_right empty
      simp only [at_, empty, if_false, work, List.length_append, same]
      omega

theorem complete_move (move : Move d file s s') : s'.raw_complete_ = s.raw_complete_ := by
  cases move <;> rfl

theorem Inv.step (i : Inv d file s) (e : Event) : Inv d file (step d file s e) := by
  cases e with
  | feed len => exact i.feed len
  | mark_complete =>
    unfold AudioStream.step
    simp only
    split
    · next all => exact i.mark_complete all
    · exact i
  | decode n => exact i.move (move_decode i n)
  | read_frames frame_count => exact i.read_frames frame_count

theorem planned_step (i : Inv d file s) (e : Event) :
    Planned d file (step d file s e) (step d file s e).thread ↔
      Planned d file s s.thread ∧ Arrived d file s e := by
  cases e with
  | decode n => exact planned_move i (move_decode i n)
  | read_frames frame_count => exact (and_iff_left trivial).symm
  | mark_complete =>
    unfold AudioStream.step
    simp only
    split <;> exact (and_iff_left trivial).symm
  | feed len =>
    refine Iff.trans ?_ (and_iff_left trivial).symm
    cases started : s.decode_started_ with
    | true =>
      have same : (step d file s (.feed len)).thread = s.thread := if_pos started
      rw [same]
      exact Iff.rfl
    | false =>
      have opens : (step d file s (.feed len)).thread = .opening := by
        unfold AudioStream.step AudioStream.feed
        simp only [started, Bool.false_eq_true, if_false]
      rw [opens, i.idle.mpr started]
      exact Iff.rfl

/-- A finished stream wrote what was planned. -/
theorem written_iff_planned (i : Inv d file s) (finished : s.finished_ = true) :
    s.written = decoding d file ↔ Planned d file s s.thread := by
  have placed := i.placed
  rcases i.finished finished with done | rfl
  · rw [done]
    exact Iff.rfl
  · rw [decoding_nil]
    have no_opus (pcm : List α) : d.opus [] ≠ some pcm := by
      rw [d.opus_nil]
      exact nofun
    have no_miniaudio {front : Bytes} {pcm : List α} (beginning : front <+: []) :
        d.miniaudio front ≠ some pcm := by
      rw [List.prefix_nil.mp beginning, d.miniaudio_nil]
      exact nofun
    have nothing_plays {frame : List α} {source : Source α} : ¬Plays d [] s frame source := by
      cases source with
      | opus eof emitted => exact fun ⟨pcm, takes, _⟩ => no_opus pcm takes
      | miniaudio rest => exact fun ⟨_, _, _, beginning, decoded, _⟩ => no_miniaudio beginning decoded
    cases at_ : s.thread with
    | idle =>
      rw [at_] at placed
      exact iff_of_true placed trivial
    | opening =>
      rw [at_] at placed
      exact iff_of_true placed trivial
    | fallback =>
      rw [at_] at placed
      exact iff_of_true placed.1 trivial
    | decoding source =>
      rw [at_] at placed
      exact absurd placed nothing_plays
    | writing frame source =>
      rw [at_] at placed
      exact absurd placed nothing_plays
    | done =>
      rw [← decoding_nil d]
      exact Iff.rfl

/-- What is written is never anything else than a beginning of what is planned. -/
theorem written_isPrefix (i : Inv d file s) (planned : Planned d file s s.thread) :
    s.written <+: decoding d file := by
  have placed := i.placed
  cases at_ : s.thread with
  | idle =>
    rw [at_] at placed
    exact placed ▸ List.nil_prefix
  | opening =>
    rw [at_] at placed
    exact placed ▸ List.nil_prefix
  | fallback =>
    rw [at_] at placed
    exact placed.1 ▸ List.nil_prefix
  | done =>
    rw [at_] at planned
    exact planned ▸ List.prefix_refl _
  | decoding source =>
    rw [at_] at placed planned
    cases source with
    | opus eof emitted =>
      obtain ⟨pcm, takes, written, -⟩ := placed
      rw [decoding_of_opus takes]
      exact (List.prefix_append _ _).trans (written ▸ List.take_prefix _ _)
    | miniaudio rest => exact planned ▸ List.prefix_append _ _
  | writing frame source =>
    rw [at_] at placed planned
    cases source with
    | opus eof emitted =>
      obtain ⟨pcm, takes, written, -⟩ := placed
      rw [decoding_of_opus takes]
      exact (List.prefix_append _ _).trans (written ▸ List.take_prefix _ _)
    | miniaudio rest =>
      exact planned ▸ ((List.prefix_append _ _).trans (List.prefix_append _ _))

/-- The callback empties the ring and the decode thread takes a step. -/
def rounds (n : ℕ) : List Event := (List.replicate n [.read_frames ring_capacity, .decode 0]).flatten

theorem run_rounds_succ (s : AudioStream α) (n : ℕ) :
    run (step d file) s (rounds (n + 1)) =
      run (step d file) ((s.read_frames ring_capacity).decode d 0) (rounds n) := by
  unfold rounds
  rw [List.replicate_succ, List.flatten_cons, run_append]
  rfl

/-- Once the file is complete a callback that reads gets the stream to its end. -/
theorem finishes (i : Inv d file s) (complete : s.raw_complete_ = true) :
    ∃ n, (run (step d file) s (rounds n)).finished_ = true := by
  induction left : work d file s s.thread using Nat.strong_induction_on generalizing s with
  | h most ih =>
    by_cases idle : s.thread = .idle
    · exact ⟨0, i.told idle complete⟩
    · by_cases done : s.thread = .done
      · exact ⟨0, i.done done⟩
      · have drained := i.read_frames ring_capacity
        have move := move_decode drained 0
        have room : (s.read_frames ring_capacity).pcm_ring_.length < ring_capacity := by
          have ring := i.ring
          unfold AudioStream.read_frames
          rw [List.length_drop]
          unfold ring_capacity at ring ⊢
          omega
        have same : work d file (s.read_frames ring_capacity) s.thread = work d file s s.thread := by
          cases s.thread with
          | decoding source => cases source <;> rfl
          | writing frame source => cases source <;> rfl
          | _ => rfl
        have nearer := work_move drained move complete idle done room
        obtain ⟨n, finished⟩ := ih _ (nearer.trans_eq (same.trans left)) (drained.move move)
          ((complete_move move).trans complete) rfl
        refine ⟨n + 1, ?_⟩
        rw [run_rounds_succ]
        exact finished

/-- For every file and every interleaving of its chunks with the decode thread and the callback: a finished
stream wrote the decoding of the complete file exactly if a copy taken for the second decoder had arrived;
then what is written is at all times a beginning of that decoding, and all of it once the stream is
finished; and a complete stream that is read finishes. -/
theorem decoding_iff_arrived (d : AudioDecoders α) (file : Bytes) (events : List Event) :
    let s := run (step d file) new events
    (s.finished_ = true →
      (s.written = decoding d file ↔ Throughout (step d file) (Arrived d file) new events)) ∧
    (Throughout (step d file) (Arrived d file) new events →
      Always (step d file) (fun s => s.written <+: decoding d file ∧
        (s.finished_ = true → s.written = decoding d file)) new events) ∧
    (s.raw_complete_ = true → ∃ n, (run (step d file) s (rounds n)).finished_ = true) := by
  intro s
  have start := inv_new d file
  have inv : Inv d file s := invariant_run (fun s e i => i.step e) start events
  have exactly : Planned d file s s.thread ↔ Throughout (step d file) (Arrived d file) new events := by
    have both := run_iff_throughout (I := Inv d file) (Q := fun s => Planned d file s s.thread) (fun s e i => i.step e)
      (fun s e i => planned_step i e) start events
    exact both.trans (and_iff_right trivial)
  refine ⟨fun finished => (written_iff_planned inv finished).trans exactly, fun arrived => ?_, finishes inv⟩
  have kept : Always (step d file) (fun s => Inv d file s ∧ Planned d file s s.thread) new events :=
    always_of_throughout (fun s e both meets =>
      ⟨both.1.step e, (planned_step both.1 e).mpr ⟨both.2, meets⟩⟩) ⟨start, trivial⟩ arrived
  exact kept.mono fun s both =>
    ⟨written_isPrefix both.1 both.2, fun finished => (written_iff_planned both.1 finished).mpr both.2⟩

/-- Files that begin like an MP3; each byte is a sample. -/
def mp3_only : AudioDecoders UInt8 where
  header := fun front => if front = [] then none else some false
  so_far := fun _ => []
  opus := fun _ => none
  miniaudio := fun data => if data.head? = some 255 then some data else none
  header_decides := by
    intro front file verdict _ judged
    split at judged
    · cases judged
    · cases judged
      rfl
  so_far_isPrefix := fun _ _ _ _ => nofun
  opus_nil := rfl
  miniaudio_nil := rfl

/-- The first byte of two is played before the second one arrives. -/
def slow_download : List Event :=
  [.feed 1, .decode 0, .decode 0, .decode 0, .decode 0, .decode 0, .decode 0, .feed 1, .mark_complete]

theorem slow_download_cut_short :
    ¬Always (step mp3_only [255, 251])
      (fun s => s.finished_ = true → s.written = decoding mp3_only [255, 251]) new slow_download := by
  intro always
  have finished : (run (step mp3_only [255, 251]) new slow_download).finished_ = true := by decide +kernel
  have whole := always_iff_isPrefix.mp always _ (List.prefix_refl _) finished
  revert whole
  decide +kernel

end AoSdl.AudioStream
