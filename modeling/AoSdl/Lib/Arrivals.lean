import Mathlib.Data.List.Basic
import Mathlib.Tactic.Common

/-! Reading from a line that pieces come in by. A read takes what it wants of the next piece, or
fails; a reader goes on until it is done or a read fails. No letter is lost on the way. -/
namespace Lib.Arrivals

variable {α σ : Type*}

inductive Arrival (α : Type*) where
  | data (piece : List α)
  /-- The time ran out, or the line is closed. -/
  | fails
  deriving DecidableEq

open Arrival

structure Wire (α : Type*) where
  taken : List α := []
  line : List (Arrival α) := []
  deriving DecidableEq

/-- The letters still to come. -/
def letters : List (Arrival α) → List α
  | [] => []
  | data piece :: line => piece ++ letters line
  | fails :: line => letters line

def size : List (Arrival α) → Nat
  | [] => 0
  | data piece :: line => piece.length + 1 + size line
  | fails :: line => 1 + size line

/-- Failures come behind all letters. -/
def Flowing : List (Arrival α) → Prop
  | [] => True
  | data piece :: line => piece ≠ [] ∧ Flowing line
  | fails :: line => letters line = [] ∧ Flowing line

/-- What comes before a read fails. -/
def coming : List (Arrival α) → List α
  | data (c :: piece) :: line => c :: piece ++ coming line
  | _ => []

theorem coming_isPrefix (line : List (Arrival α)) : coming line <+: letters line := by
  induction line with
  | nil => exact List.prefix_refl []
  | cons arrival line ih =>
    match arrival with
    | fails => exact List.nil_prefix
    | data [] => exact List.nil_prefix
    | data (c :: piece) => exact (List.prefix_append_right_inj (c :: piece)).mpr ih

theorem letters_data (pieces : List (List α)) (back : List (Arrival α)) :
    letters (pieces.map data ++ back) = pieces.flatten ++ letters back := by
  induction pieces with
  | nil => rfl
  | cons piece pieces ih => simp [letters, ih]

theorem Flowing.right {front back : List (Arrival α)} (flowing : Flowing (front ++ back)) :
    Flowing back := by
  induction front with
  | nil => exact flowing
  | cons arrival front ih =>
    cases arrival with
    | data piece => exact ih flowing.2
    | fails => exact ih flowing.2

theorem flowing_data (pieces : List (List α)) (filled : ∀ piece ∈ pieces, piece ≠ []) :
    Flowing (pieces.map data) := by
  induction pieces with
  | nil => trivial
  | cons piece pieces ih =>
    exact ⟨filled piece List.mem_cons_self, ih fun p inside => filled p (List.mem_cons_of_mem _ inside)⟩

theorem Flowing.all_come {line : List (Arrival α)} (flowing : Flowing line) : coming line = letters line := by
  induction line with
  | nil => rfl
  | cons arrival line ih =>
    match arrival with
    | fails => exact flowing.1.symm
    | data [] => exact absurd rfl flowing.1
    | data (c :: piece) => exact congrArg (c :: piece ++ ·) (ih flowing.2)

theorem coming_data (pieces : List (List α)) (filled : ∀ piece ∈ pieces, piece ≠ []) (back : List (Arrival α)) :
    coming (pieces.map data ++ fails :: back) = pieces.flatten := by
  induction pieces with
  | nil => rfl
  | cons piece pieces ih =>
    obtain ⟨some_, others⟩ := List.forall_mem_cons.mp filled
    obtain ⟨c, piece, rfl⟩ := List.exists_cons_of_ne_nil some_
    exact congrArg (c :: piece ++ ·) (ih others)

namespace Wire

/-- A read that yields nothing failed. -/
def recv (want : Nat) (w : Wire α) : List α × Wire α :=
  match w.line with
  | [] => ([], w)
  | fails :: line => ([], { w with line })
  | data piece :: line =>
    if piece.length ≤ want then (piece, ⟨w.taken ++ piece, line⟩)
    else (piece.take want, ⟨w.taken ++ piece.take want, data (piece.drop want) :: line⟩)

variable (want : Nat) (w : Wire α)

theorem recv_taken : (w.recv want).2.taken = w.taken ++ (w.recv want).1 := by
  unfold recv
  split
  · simp
  · simp
  · split <;> rfl

theorem length_recv_le : (w.recv want).1.length ≤ want := by
  unfold recv
  split
  · exact Nat.zero_le want
  · exact Nat.zero_le want
  · split
    · next short => exact short
    · exact List.length_take_le want _

theorem recv_letters : (w.recv want).1 ++ letters (w.recv want).2.line = letters w.line := by
  unfold recv
  split
  · next none => rw [none]; rfl
  · next line fail => rw [fail]; rfl
  · next piece line some =>
    rw [some]
    split
    · rfl
    · simp only [letters]
      rw [← List.append_assoc, List.take_append_drop]

variable {want w}

theorem recv_size (got : (w.recv want).1 ≠ []) : size (w.recv want).2.line < size w.line := by
  revert got
  unfold recv
  split
  · exact fun got => absurd rfl got
  · exact fun got => absurd rfl got
  · next piece line some =>
    rw [some]
    split
    · intro _
      simp only [size]
      omega
    · next long =>
      intro got
      have positive : want ≠ 0 := by
        rintro rfl
        exact got rfl
      simp only [size, List.length_drop]
      omega

theorem recv_flowing (flowing : Flowing w.line) : Flowing (w.recv want).2.line := by
  unfold recv
  split
  · exact flowing
  · next line fail =>
    rw [fail] at flowing
    exact flowing.2
  · next piece line some =>
    rw [some] at flowing
    split
    · exact flowing.2
    · next long =>
      refine ⟨fun nothing => ?_, flowing.2⟩
      rw [List.drop_eq_nil_iff] at nothing
      exact long nothing

theorem coming_of_failed (wanted : 0 < want) (failed : (w.recv want).1 = []) : coming w.line = [] := by
  obtain ⟨taken, line⟩ := w
  match line with
  | [] => rfl
  | fails :: line => rfl
  | data [] :: line => rfl
  | data (c :: piece) :: line =>
    unfold recv at failed
    simp only at failed
    split at failed
    · cases failed
    · rcases List.take_eq_nil_iff.mp failed with zero | empty
      · omega
      · cases empty

/-- Where letters come first, a read that wants some gets some. -/
theorem recv_some (flowing : Flowing w.line) (wanted : 0 < want) (more : letters w.line ≠ []) :
    (w.recv want).1 ≠ [] := fun failed => more (flowing.all_come ▸ coming_of_failed wanted failed)

theorem recv_coming (got : (w.recv want).1 ≠ []) :
    (w.recv want).1 ++ coming (w.recv want).2.line = coming w.line := by
  obtain ⟨taken, line⟩ := w
  match line with
  | [] => exact absurd rfl got
  | fails :: line => exact absurd rfl got
  | data [] :: line => exact absurd rfl got
  | data (c :: piece) :: line =>
    unfold recv
    simp only
    split
    · rfl
    · next long =>
      have left : (c :: piece).drop want ≠ [] := fun nothing => long (List.drop_eq_nil_iff.mp nothing)
      obtain ⟨a, rest, behind⟩ := List.exists_cons_of_ne_nil left
      have whole := List.take_append_drop want (c :: piece)
      rw [behind] at whole ⊢
      change (c :: piece).take want ++ (a :: rest ++ coming line) = c :: piece ++ coming line
      rw [← List.append_assoc, whole]

end Wire

/-- What a wire becomes by reads. -/
def Advances (w w' : Wire α) : Prop :=
  ∃ got, w'.taken = w.taken ++ got ∧ got ++ letters w'.line = letters w.line

theorem Advances.refl (w : Wire α) : Advances w w := ⟨[], (List.append_nil _).symm, rfl⟩

theorem Advances.trans {w₁ w₂ w₃ : Wire α} (first : Advances w₁ w₂) (second : Advances w₂ w₃) :
    Advances w₁ w₃ := by
  obtain ⟨got, taken, all⟩ := first
  obtain ⟨more, taken', all'⟩ := second
  exact ⟨got ++ more, by rw [taken', taken, List.append_assoc], by rw [List.append_assoc, all', all]⟩

theorem Advances.recv {w w' : Wire α} (advances : Advances w w') (want : Nat) :
    Advances w (w'.recv want).2 :=
  advances.trans ⟨_, Wire.recv_taken want w', Wire.recv_letters want w'⟩

/-- Nothing more comes off a dry line. -/
theorem Advances.dry {w w' : Wire α} (advances : Advances w w') (dry : letters w.line = []) :
    letters w'.line = [] := by
  obtain ⟨got, _, all⟩ := advances
  exact (List.append_eq_nil_iff.mp (all.trans dry)).2

/-- Once a line is dry all its letters were taken. -/
theorem Advances.taken {w w' : Wire α} (advances : Advances w w') (dry : letters w'.line = []) :
    w'.taken = w.taken ++ letters w.line := by
  obtain ⟨got, taken, all⟩ := advances
  rw [dry, List.append_nil] at all
  rw [taken, all]

/-- Reads until it is done or a read fails. The fuel is more than the size of the line. -/
def pull (done : σ → Bool) (want : σ → Nat) (push : σ → List α → σ) : Nat → σ → Wire α → σ × Wire α
  | 0, s, w => (s, w)
  | fuel + 1, s, w =>
    if done s then (s, w)
    else
      let (piece, w) := w.recv (want s)
      if piece.isEmpty then (s, w) else pull done want push fuel (push s piece) w

def reading (done : σ → Bool) (want : σ → Nat) (push : σ → List α → σ) (s : σ) (w : Wire α) :
    σ × Wire α := pull done want push (size w.line + 1) s w

variable {done : σ → Bool} {want : σ → Nat} {push : σ → List α → σ}

/-- The rule of a reader: what its steps keep holds when it is done, and before the read that
failed. -/
theorem reading_rule {P : σ → Wire α → Prop}
    (step : ∀ s w, P s w → done s = false → (w.recv (want s)).1 ≠ [] →
      P (push s (w.recv (want s)).1) (w.recv (want s)).2) {s : σ} {w : Wire α} (start : P s w) :
    ∃ s' last, P s' last ∧ (done s' = true ∧ reading done want push s w = (s', last) ∨
      done s' = false ∧ (last.recv (want s')).1 = [] ∧
        reading done want push s w = (s', (last.recv (want s')).2)) := by
  suffices all : ∀ fuel s w, size w.line < fuel → P s w →
      ∃ s' last, P s' last ∧ (done s' = true ∧ pull done want push fuel s w = (s', last) ∨
        done s' = false ∧ (last.recv (want s')).1 = [] ∧
          pull done want push fuel s w = (s', (last.recv (want s')).2)) from
    all _ s w (Nat.lt_succ_self _) start
  intro fuel
  induction fuel with
  | zero => exact fun s w enough => absurd enough (Nat.not_lt_zero _)
  | succ fuel ih =>
    intro s w enough holds
    unfold pull
    by_cases finished : done s = true
    · exact ⟨s, w, holds, .inl ⟨finished, if_pos finished⟩⟩
    · have running : done s = false := Bool.eq_false_iff.mpr finished
      rw [if_neg finished]
      by_cases got : (w.recv (want s)).1 = []
      · refine ⟨s, w, holds, .inr ⟨running, got, ?_⟩⟩
        simp [got]
      · have smaller := Wire.recv_size got
        have next := ih _ _ (by omega) (step s w holds running got)
        simpa [got] using next

section Gather

variable (done : List α → Bool) (want : List α → Nat)

/-- Reads on to a buffer. -/
def gather (buf : List α) (w : Wire α) : List α × Wire α := reading done want (· ++ ·) buf w

/-- What a wire and a buffer become by reads. -/
structure Drawn (w : Wire α) (buf : List α) (w' : Wire α) (buf' : List α) : Prop where
  letters : buf' ++ letters w'.line = buf ++ letters w.line
  advances : Advances w w'
  flowing : Flowing w.line → Flowing w'.line

variable {w w' : Wire α} {buf buf' : List α}

theorem Drawn.recv (drawn : Drawn w buf w' buf') (n : Nat) :
    Drawn w buf (w'.recv n).2 (buf' ++ (w'.recv n).1) where
  letters := by rw [List.append_assoc, Wire.recv_letters, drawn.letters]
  advances := drawn.advances.recv n
  flowing flowing := Wire.recv_flowing (drawn.flowing flowing)

theorem gather_exit (buf : List α) (w : Wire α) :
    ∃ buf' last, Drawn w buf last buf' ∧ (done buf' = true ∧ gather done want buf w = (buf', last) ∨
      done buf' = false ∧ (last.recv (want buf')).1 = [] ∧
        gather done want buf w = (buf', (last.recv (want buf')).2)) :=
  reading_rule (fun s _ drawn _ _ => drawn.recv (want s)) ⟨rfl, .refl w, id⟩

theorem gather_drawn (buf : List α) (w : Wire α) :
    Drawn w buf (gather done want buf w).2 (gather done want buf w).1 := by
  obtain ⟨s, last, drawn, ⟨_, ends⟩ | ⟨_, failed, ends⟩⟩ := gather_exit done want buf w
  · rwa [ends]
  · have next := drawn.recv (want s)
    rw [failed, List.append_nil] at next
    rwa [ends]

/-- A reader draws from what comes before a failure, and all of that if it does not get done. -/
theorem gather_coming (wanted : ∀ s, done s = false → 0 < want s) (buf : List α) (w : Wire α) :
    (done (gather done want buf w).1 = true ∧
        (gather done want buf w).1 ++ coming (gather done want buf w).2.line = buf ++ coming w.line) ∨
      (done (gather done want buf w).1 = false ∧ (gather done want buf w).1 = buf ++ coming w.line) := by
  have step (s : List α) (last : Wire α) (all : s ++ coming last.line = buf ++ coming w.line)
      (_ : done s = false) (got : (last.recv (want s)).1 ≠ []) :
      s ++ (last.recv (want s)).1 ++ coming (last.recv (want s)).2.line = buf ++ coming w.line := by
    rw [List.append_assoc, Wire.recv_coming got, all]
  obtain ⟨s, last, all, ⟨finished, ends⟩ | ⟨running, failed, ends⟩⟩ :=
    reading_rule step (rfl : buf ++ coming w.line = buf ++ coming w.line)
  · unfold gather
    rw [ends]
    exact Or.inl ⟨finished, all⟩
  · rw [Wire.coming_of_failed (wanted s running) failed, List.append_nil] at all
    unfold gather
    rw [ends]
    exact Or.inr ⟨running, all⟩

end Gather

end Lib.Arrivals
