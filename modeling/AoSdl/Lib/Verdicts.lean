import AoSdl.Lib.Segments
import Mathlib.Data.Nat.Find

/-! Deciding on a text while it comes: a judge that keeps its verdict on every longer text gives one
verdict, after one number of letters, however the text is cut into pieces. -/
namespace Lib.Verdicts

open Lib.Arrivals

variable {α R : Type*}

structure Judge (α R : Type*) where
  judge : List α → Option R
  /-- Later letters do not change a verdict. -/
  stable : ∀ {s r} (t), judge s = some r → judge (s ++ t) = some r

namespace Judge

variable (j : Judge α R)

/-- Piece after piece until there is a verdict: the letters that have come then, and the verdict. -/
def feed : List α → List (List α) → List α × Option R
  | buf, [] => (buf, j.judge buf)
  | buf, piece :: pieces =>
    match j.judge buf with
    | some r => (buf, some r)
    | none => feed (buf ++ piece) pieces

/-- The first `n` letters are those that the verdict needs. -/
def Settles (s : List α) (n : Nat) : Prop :=
  ∀ k ≤ s.length, j.judge (s.take k) = none ↔ k < n

variable {j} {s buf : List α} {pieces : List (List α)} {n : Nat}

theorem feed_verdict (buf : List α) (pieces : List (List α)) :
    (j.feed buf pieces).2 = j.judge (buf ++ pieces.flatten) := by
  induction pieces generalizing buf with
  | nil => simp [feed]
  | cons piece pieces ih =>
    rw [feed]
    cases judged : j.judge buf with
    | some r => exact (j.stable _ judged).symm
    | none => simp [ih]

/-- A verdict has a first offset at which it is given. -/
theorem exists_settles (judged : j.judge s ≠ none) : ∃ n ≤ s.length, j.Settles s n := by
  classical
  have some_offset : ∃ k, j.judge (s.take k) ≠ none := ⟨s.length, by rwa [List.take_length]⟩
  refine ⟨Nat.find some_offset, Nat.find_min' some_offset (by rwa [List.take_length]), ?_⟩
  intro k _
  constructor
  · intro waits
    by_contra later
    obtain ⟨r, first⟩ := Option.ne_none_iff_exists'.mp (Nat.find_spec some_offset)
    obtain ⟨t, longer⟩ := List.take_prefix_take_left (l := s) (Nat.not_lt.mp later)
    have kept := j.stable t first
    rw [longer, waits] at kept
    cases kept
  · intro before
    exact Decidable.not_not.mp (Nat.find_min some_offset before)

/-- The verdict comes with the piece that brings the last letter it needs. -/
theorem feed_upto (settles : j.Settles (buf ++ pieces.flatten) n) :
    (j.feed buf pieces).1 = buf ++ (upto (n - buf.length) pieces).1.flatten := by
  induction pieces generalizing buf with
  | nil => simp [feed]
  | cons piece pieces ih =>
    have here := settles buf.length (by simp)
    rw [List.take_left] at here
    rw [feed]
    cases judged : j.judge buf with
    | some r =>
      have come : ¬ buf.length < n := fun before => by simp [here.mpr before] at judged
      simp [Nat.sub_eq_zero_of_le (Nat.not_lt.mp come)]
    | none =>
      have later : n - buf.length ≠ 0 := by
        have := here.mp judged
        omega
      have rest := @ih (buf ++ piece) (by simpa using settles)
      simp only [rest, upto_cons later, List.length_append, Nat.sub_add_eq, List.flatten_cons,
        List.append_assoc]

theorem feed_eq (settles : j.Settles pieces.flatten n) :
    j.feed [] pieces = (pieces.flatten.take (reach n pieces), j.judge pieces.flatten) := by
  have come : (j.feed [] pieces).1 = [] ++ (upto (n - 0) pieces).1.flatten :=
    feed_upto (by simpa using settles)
  have all := upto_flatten n pieces
  refine Prod.ext ?_ (feed_verdict [] pieces)
  rw [come, reach, ← all]
  simp

end Judge

end Lib.Verdicts
