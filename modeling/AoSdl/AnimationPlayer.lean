import AoSdl.ImageAsset
import AoSdl.Lib.Timeline

/-! `AnimationPlayer`: which frame of an image is shown depends on the time that went by since it was loaded,
not on the ticks that this time came in. -/
namespace AoSdl

open Lib.Timeline

/-- An `int`, where it holds the number; the source has no result otherwise. -/
def int (n : ℤ) : Option ℤ := if -2 ^ 31 ≤ n ∧ n < 2 ^ 31 then some n else none

namespace ImageAsset

def frame_count (a : ImageAsset) : ℕ := a.frames_.length

/-- `none` stands for the exception of `at`. -/
def frame (a : ImageAsset) (index : ℕ) : Option ImageFrame := a.frames_[index]?

end ImageAsset

/-- How long a frame is shown. -/
def ImageFrame.duration (f : ImageFrame) : ℤ := if 0 < f.duration_ms then f.duration_ms else 100

theorem ImageFrame.duration_pos (f : ImageFrame) : 0 < f.duration := by
  simp only [duration]
  split
  · assumption
  · decide

structure AnimationPlayer where
  current_asset : Option ImageAsset
  frame_index : ℕ
  elapsed_ms : ℤ
  looping : Bool
  done : Bool

namespace AnimationPlayer

def load (asset : Option ImageAsset) (loop : Bool) : AnimationPlayer where
  current_asset := asset
  frame_index := 0
  elapsed_ms := 0
  looping := loop
  done := false

def finished (p : AnimationPlayer) : Bool := p.done

def current_frame (p : AnimationPlayer) : Option ImageFrame :=
  match p.current_asset with
  | none => none
  | some a => if a.frame_count = 0 then none else a.frame p.frame_index

/-- The loop of `tick`: frames that are over. -/
def advance (a : ImageAsset) (p : AnimationPlayer) : Option AnimationPlayer :=
  match a.frame p.frame_index with
  | none => none
  | some f =>
    if f.duration ≤ p.elapsed_ms then
      if p.frame_index + 1 < a.frame_count then
        advance a { p with elapsed_ms := p.elapsed_ms - f.duration, frame_index := p.frame_index + 1 }
      else if p.looping then advance a { p with elapsed_ms := p.elapsed_ms - f.duration, frame_index := 0 }
      else
        some { p with elapsed_ms := p.elapsed_ms - f.duration, frame_index := a.frame_count - 1, done := true }
    else some p
termination_by p.elapsed_ms.toNat
decreasing_by
  all_goals
    have := f.duration_pos
    omega

/-- `none` stands for an exception, or for a time that `int` does not hold. -/
def tick (p : AnimationPlayer) (delta_ms : ℤ) : Option AnimationPlayer :=
  match p.current_asset with
  | none => some p
  | some a =>
    if a.frame_count = 0 ∨ p.done then some p
    else if a.frame_count = 1 then
      if p.looping then some p
      else do
        let elapsed_ms ← int (p.elapsed_ms + delta_ms)
        let f ← a.frame 0
        some { p with elapsed_ms := elapsed_ms, done := p.done || decide (f.duration ≤ elapsed_ms) }
    else do
      let elapsed_ms ← int (p.elapsed_ms + delta_ms)
      advance a { p with elapsed_ms := elapsed_ms }

def ticks (p : AnimationPlayer) (deltas : List ℤ) : Option AnimationPlayer := deltas.foldlM tick p

def durations (a : ImageAsset) : List ℤ := a.frames_.map ImageFrame.duration

/-- How long all frames take. -/
def cycle (a : ImageAsset) : ℤ := (durations a).sum

/-- What is to be seen when the asset was loaded so long ago. -/
structure Shows (a : ImageAsset) (loop : Bool) (total : ℤ) (p : AnimationPlayer) : Prop where
  inside : p.frame_index < a.frame_count
  shown : p.current_frame = a.frames_[p.frame_index]?
  looping : loop = true → Covers (durations a) p.frame_index (total % cycle a)
  playing : loop = false → total < cycle a → Covers (durations a) p.frame_index total
  ended : loop = false → cycle a ≤ total → p.frame_index + 1 = a.frame_count
  finished : p.finished = true ↔ loop = false ∧ cycle a ≤ total

/-- How the player got there: a single frame that stays, the end, or some rounds and a part of a frame. -/
inductive Played (a : ImageAsset) : Bool → ℤ → AnimationPlayer → Prop
  | held {total elapsed : ℤ} (single : a.frame_count = 1) : Played a true total ⟨some a, 0, elapsed, true, false⟩
  | ended {total elapsed : ℤ} {i : ℕ} (last : i + 1 = a.frame_count) (late : cycle a ≤ total) :
      Played a false total ⟨some a, i, elapsed, false, true⟩
  | playing {loop : Bool} {total elapsed rounds : ℤ} {i : ℕ} {f : ImageFrame} (here : a.frame i = some f)
      (begun : 0 ≤ elapsed) (short : elapsed < f.duration)
      (time : total = rounds * cycle a + ((durations a).take i).sum + elapsed) (once : loop = false → rounds = 0) :
      Played a loop total ⟨some a, i, elapsed, loop, false⟩

variable {a : ImageAsset} {loop : Bool} {total : ℤ} {p : AnimationPlayer}

theorem durations_pos (a : ImageAsset) : ∀ d ∈ durations a, 0 < d := by
  intro d member
  obtain ⟨f, -, rfl⟩ := List.mem_map.mp member
  exact f.duration_pos

theorem length_durations (a : ImageAsset) : (durations a).length = a.frame_count := List.length_map _

theorem frame_inside {i : ℕ} {f : ImageFrame} (here : a.frame i = some f) :
    ∃ inside : i < (durations a).length, (durations a)[i] = f.duration := by
  obtain ⟨inside, same⟩ := List.getElem?_eq_some_iff.mp here
  exact ⟨inside.trans_eq (length_durations a).symm, by simp [durations, same]⟩

theorem frame_of_lt {i : ℕ} (inside : i < a.frame_count) : ∃ f, a.frame i = some f :=
  ⟨a.frames_[i], List.getElem?_eq_getElem inside⟩

theorem sum_take_next {i : ℕ} {f : ImageFrame} (here : a.frame i = some f) :
    ((durations a).take (i + 1)).sum = ((durations a).take i).sum + f.duration := by
  obtain ⟨inside, same⟩ := frame_inside here
  rw [List.sum_take_succ _ i inside, same]

theorem cycle_of_last {i : ℕ} {f : ImageFrame} (here : a.frame i = some f) (last : a.frame_count ≤ i + 1) :
    cycle a = ((durations a).take i).sum + f.duration := by
  rw [← sum_take_next here, List.take_of_length_le ((length_durations a).trans_le last), cycle]

/-- The loop takes the frames that are over, by induction on the time that is left. -/
theorem advance_played (n : ℕ) {i : ℕ} {elapsed rounds : ℤ} (inside : i < a.frame_count) (begun : 0 ≤ elapsed)
    (enough : elapsed.toNat ≤ n) (time : total = rounds * cycle a + ((durations a).take i).sum + elapsed)
    (once : loop = false → rounds = 0) :
    ∃ p, advance a ⟨some a, i, elapsed, loop, false⟩ = some p ∧ Played a loop total p := by
  induction n using Nat.strong_induction_on generalizing i elapsed rounds with
  | _ n ih =>
    obtain ⟨f, here⟩ := frame_of_lt inside
    have positive := f.duration_pos
    rw [advance]
    simp only [here]
    split
    · rename_i ended
      split
      · rename_i more
        have next := sum_take_next here
        exact ih (elapsed - f.duration).toNat (by omega) more (by omega) (by omega) (by rw [next]; omega) once
      · rename_i last
        have whole := cycle_of_last here (Nat.le_of_not_lt last)
        cases loop with
        | true =>
          have round : total = (rounds + 1) * cycle a + ((durations a).take 0).sum + (elapsed - f.duration) := by
            rw [List.take_zero, List.sum_nil, Int.add_mul]
            omega
          exact ih (elapsed - f.duration).toNat (by omega) (by omega) (by omega) (by omega) round nofun
        | false =>
          refine ⟨_, rfl, .ended (by omega) ?_⟩
          rw [time, once rfl, Int.zero_mul]
          omega
    · rename_i short
      exact ⟨_, rfl, .playing here begun (Int.lt_of_not_ge short) time once⟩

theorem load_played (some_frame : 0 < a.frame_count) : Played a loop 0 (load (some a) loop) := by
  obtain ⟨f, here⟩ := frame_of_lt some_frame
  have start : (0 : ℤ) = 0 * cycle a + ((durations a).take 0).sum + 0 := by simp
  exact .playing here (Int.le_refl 0) f.duration_pos start fun _ => rfl

theorem int_eq_some {n m : ℤ} (fits : int n = some m) : m = n := by
  simp only [int] at fits
  split at fits
  · exact (Option.some.inj fits).symm
  · cases fits

theorem int_of_lt {n : ℤ} (low : 0 ≤ n) (high : n < 2 ^ 31) : int n = some n := if_pos ⟨by omega, high⟩

theorem tick_held (single : a.frame_count = 1) (elapsed delta : ℤ) :
    AnimationPlayer.tick ⟨some a, 0, elapsed, true, false⟩ delta = some ⟨some a, 0, elapsed, true, false⟩ := by
  simp [AnimationPlayer.tick, single]

theorem Played.tick (played : Played a loop total p) {delta : ℤ} (forward : 0 ≤ delta) :
    (∀ p', p.tick delta = some p' → Played a loop (total + delta) p') ∧
      ((∀ f ∈ a.frames_, f.duration + delta ≤ 2 ^ 31) → ∃ p', p.tick delta = some p') := by
  cases played with
  | held single =>
    rw [tick_held single]
    exact ⟨fun p' result => Option.some.inj result ▸ .held single, fun _ => ⟨_, rfl⟩⟩
  | @ended _ elapsed i last late =>
    have same : AnimationPlayer.tick ⟨some a, i, elapsed, false, true⟩ delta = some ⟨some a, i, elapsed, false, true⟩ := by
      simp [AnimationPlayer.tick]
    rw [same]
    exact ⟨fun p' result => Option.some.inj result ▸ .ended last (by omega), fun _ => ⟨_, rfl⟩⟩
  | @playing _ _ elapsed rounds i f here begun short time once =>
    have inside : i < a.frame_count := (List.getElem?_eq_some_iff.mp here).1
    have room (small : ∀ f ∈ a.frames_, f.duration + delta ≤ 2 ^ 31) : elapsed + delta < 2 ^ 31 := by
      have := small f (List.mem_of_getElem? here)
      omega
    have later : total + delta = rounds * cycle a + ((durations a).take i).sum + (elapsed + delta) := by omega
    by_cases single : a.frame_count = 1
    · obtain rfl : i = 0 := by omega
      cases loop with
      | true =>
        rw [tick_held single]
        exact ⟨fun p' result => Option.some.inj result ▸ .held single, fun _ => ⟨_, rfl⟩⟩
      | false =>
        have moves : AnimationPlayer.tick ⟨some a, 0, elapsed, false, false⟩ delta =
            (int (elapsed + delta)).map fun elapsed => ⟨some a, 0, elapsed, false, decide (f.duration ≤ elapsed)⟩ := by
          simp [AnimationPlayer.tick, single, here, Option.map_eq_bind]
        have whole := cycle_of_last here single.le
        rw [List.take_zero, List.sum_nil] at whole later
        rw [once rfl, Int.zero_mul] at later
        rw [moves]
        refine ⟨fun p' result => ?_, fun small => ?_⟩
        · obtain ⟨sum, fits, rfl⟩ := Option.map_eq_some_iff.mp result
          rw [int_eq_some fits]
          by_cases ended : f.duration ≤ elapsed + delta
          · rw [decide_eq_true ended]
            exact .ended single.symm (by omega)
          · rw [decide_eq_false ended]
            have time : total + delta = 0 * cycle a + ((durations a).take 0).sum + (elapsed + delta) := by simp [later]
            exact .playing here (by omega) (by omega) time fun _ => rfl
        · rw [int_of_lt (by omega) (room small)]
          exact ⟨_, rfl⟩
    · have moves : AnimationPlayer.tick ⟨some a, i, elapsed, loop, false⟩ delta =
          (int (elapsed + delta)).bind fun elapsed => advance a ⟨some a, i, elapsed, loop, false⟩ := by
        simp [AnimationPlayer.tick, single, Nat.ne_of_gt (Nat.zero_lt_of_lt inside)]
      obtain ⟨p', result, played⟩ := advance_played _ inside (by omega) le_rfl later once
      rw [moves]
      refine ⟨fun p'' result' => ?_, fun small => ⟨p', ?_⟩⟩
      · obtain ⟨sum, fits, result'⟩ := Option.bind_eq_some_iff.mp result'
        rw [int_eq_some fits, result] at result'
        exact Option.some.inj result' ▸ played
      · rw [int_of_lt (by omega) (room small)]
        exact result

theorem Played.ticks (played : Played a loop total p) {deltas : List ℤ} (forward : ∀ d ∈ deltas, 0 ≤ d) :
    (∀ p', p.ticks deltas = some p' → Played a loop (total + deltas.sum) p') ∧
      ((∀ d ∈ deltas, ∀ f ∈ a.frames_, f.duration + d ≤ 2 ^ 31) → ∃ p', p.ticks deltas = some p') := by
  induction deltas generalizing p total with
  | nil =>
    rw [List.sum_nil, Int.add_zero]
    exact ⟨fun p' result => Option.some.inj result ▸ played, fun _ => ⟨p, rfl⟩⟩
  | cons d deltas ih =>
    obtain ⟨moved, defined⟩ := played.tick (forward d List.mem_cons_self)
    have later : ∀ d ∈ deltas, 0 ≤ d := fun d' member => forward d' (List.mem_cons_of_mem d member)
    rw [List.sum_cons, ← Int.add_assoc]
    simp only [AnimationPlayer.ticks, List.foldlM_cons]
    refine ⟨fun p' result => ?_, fun small => ?_⟩
    · obtain ⟨next, first, rest⟩ := Option.bind_eq_some_iff.mp result
      exact (ih (moved next first) later).1 p' rest
    · obtain ⟨next, first⟩ := defined (small d List.mem_cons_self)
      obtain ⟨p', rest⟩ := (ih (moved next first) later).2 fun d' member => small d' (List.mem_cons_of_mem d member)
      exact ⟨p', Option.bind_eq_some_iff.mpr ⟨next, first, rest⟩⟩

theorem current_frame_inside {i : ℕ} (inside : i < a.frame_count) (elapsed : ℤ) (loop done : Bool) :
    current_frame ⟨some a, i, elapsed, loop, done⟩ = a.frames_[i]? :=
  if_neg (Nat.ne_of_gt (Nat.zero_lt_of_lt inside))

theorem Played.shows (played : Played a loop total p) : Shows a loop total p := by
  have positive := durations_pos a
  cases played with
  | held single =>
    have count : 0 < a.frame_count := single.symm ▸ Nat.one_pos
    obtain ⟨f, here⟩ := frame_of_lt count
    obtain ⟨inside, same⟩ := frame_inside here
    have whole := cycle_of_last here single.le
    rw [List.take_zero, List.sum_nil, Int.zero_add] at whole
    have rest := Int.emod_lt_of_pos total (whole ▸ f.duration_pos)
    have covers := covers_of_rest inside (Int.emod_nonneg total (whole ▸ f.duration_pos).ne') (by omega)
    rw [List.take_zero, List.sum_nil, Int.zero_add] at covers
    exact ⟨count, current_frame_inside count .., fun _ => covers, nofun, nofun, by simp [finished]⟩
  | @ended _ elapsed i last late =>
    have count : i < a.frame_count := last ▸ Nat.lt_succ_self i
    exact ⟨count, current_frame_inside count .., nofun, fun _ early => absurd late (Int.not_le.mpr early),
      fun _ _ => last, by simp [finished, late]⟩
  | @playing _ _ elapsed rounds i f here begun short time once =>
    obtain ⟨inside, same⟩ := frame_inside here
    have covers := covers_of_rest inside begun (short.trans_eq same.symm)
    have count : i < a.frame_count := (List.getElem?_eq_some_iff.mp here).1
    have before := covers.lt_sum positive
    have start : loop = false → total = ((durations a).take i).sum + elapsed := fun off => by
      rw [time, once off, Int.zero_mul, Int.zero_add]
    have early : loop = false → total < cycle a := fun off => (start off).trans_lt before
    refine ⟨count, current_frame_inside count .., fun _ => ?_, fun off _ => ?_, fun off late => ?_, ?_⟩
    · rw [time, Int.add_assoc]
      exact covers_emod positive covers rounds
    · rw [start off]
      exact covers
    · exact absurd late (Int.not_le.mpr (early off))
    · refine iff_of_false nofun ?_
      rintro ⟨off, late⟩
      exact absurd late (Int.not_le.mpr (early off))

/-- What is seen depends on the time only. -/
theorem Shows.unique {p' : AnimationPlayer} (shows : Shows a loop total p) (shows' : Shows a loop total p') :
    p.frame_index = p'.frame_index ∧ p.finished = p'.finished := by
  refine ⟨?_, Bool.eq_iff_iff.mpr (shows.finished.trans shows'.finished.symm)⟩
  cases loop with
  | true => exact (shows.looping rfl).unique (durations_pos a) (shows'.looping rfl)
  | false =>
    rcases Int.lt_or_le total (cycle a) with early | late
    · exact (shows.playing rfl early).unique (durations_pos a) (shows'.playing rfl early)
    · have last := shows.ended rfl late
      have last' := shows'.ended rfl late
      omega

/-- The player after ticks of so much time in all, for every way in which the time was cut into ticks. -/
structure Timed (a : ImageAsset) (loop : Bool) (deltas : List ℤ) : Prop where
  shows : ∀ p, (load (some a) loop).ticks deltas = some p → Shows a loop deltas.sum p
  same : ∀ p, (load (some a) loop).ticks deltas = some p → ∀ deltas', (∀ d ∈ deltas', 0 ≤ d) →
    deltas'.sum = deltas.sum → ∀ p', (load (some a) loop).ticks deltas' = some p' →
    p'.frame_index = p.frame_index ∧ p'.finished = p.finished
  defined : (∀ d ∈ deltas, ∀ f ∈ a.frames_, f.duration + d ≤ 2 ^ 31) →
    ∃ p, (load (some a) loop).ticks deltas = some p

section

/-- Two frames, the second without a duration. -/
def blink : ImageAsset := ⟨[⟨1, 1, 40⟩, ⟨1, 1, 0⟩], List.replicate 8 0, 0⟩

end

end AnimationPlayer

end AoSdl
