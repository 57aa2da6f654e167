import Mathlib.Data.List.Nodup
import Mathlib.Logic.Function.Basic
import Mathlib.Tactic.Common

/-! Animations on one canvas: each frame is blended on what the frames before left, and then disposed of. -/
namespace Lib.Compositor

/-- Pixels by their column and row. -/
abbrev Canvas (P : Type) := ℕ × ℕ → P

inductive Dispose where
  | none
  | background
  | previous
  deriving DecidableEq

structure Frame (P : Type) where
  x : ℕ
  y : ℕ
  width : ℕ
  height : ℕ
  image : Canvas P
  blend : P → P → P
  dispose : Dispose

variable {P : Type}

namespace Frame

/-- The region of the frame. -/
def Covers (f : Frame P) (q : ℕ × ℕ) : Prop := (f.x ≤ q.1 ∧ q.1 < f.x + f.width) ∧ f.y ≤ q.2 ∧ q.2 < f.y + f.height

instance (f : Frame P) (q : ℕ × ℕ) : Decidable (f.Covers q) := inferInstanceAs (Decidable (_ ∧ _))

def draw (f : Frame P) (c : Canvas P) : Canvas P := fun q =>
  if f.Covers q then f.blend (c q) (f.image (q.1 - f.x, q.2 - f.y)) else c q

/-- What the next frame is drawn on. -/
def disposed (blank : P) (f : Frame P) (before : Canvas P) : Canvas P :=
  match f.dispose with
  | .none => f.draw before
  | .background => fun q => if f.Covers q then blank else f.draw before q
  | .previous => fun q => if f.Covers q then before q else f.draw before q

/-- A first frame has no frame before it. -/
def first (f : Frame P) : Frame P := { f with dispose := if f.dispose = .previous then .background else f.dispose }

end Frame

/-- The canvases that are shown, from one on. -/
def shown (blank : P) : Canvas P → List (Frame P) → List (Canvas P)
  | _, [] => []
  | c, f :: fs => f.draw c :: shown blank (f.disposed blank c) fs

def play (blank : P) : List (Frame P) → List (Canvas P)
  | [] => []
  | f :: fs => shown blank (fun _ => blank) (f.first :: fs)

@[simp] theorem length_shown (blank : P) (c : Canvas P) (fs : List (Frame P)) : (shown blank c fs).length = fs.length := by
  induction fs generalizing c with
  | nil => rfl
  | cons f fs ih => rw [shown, List.length_cons, ih, List.length_cons]

theorem disposed_previous {blank : P} {f : Frame P} (previous : f.dispose = .previous) (before : Canvas P) :
    f.disposed blank before = before := by
  funext q
  rw [Frame.disposed, previous]
  dsimp only
  split
  · rfl
  · rw [Frame.draw, if_neg ‹_›]

/-- On a blank canvas what was before is the background. -/
theorem disposed_first (blank : P) (f : Frame P) :
    f.first.disposed blank (fun _ => blank) = f.disposed blank (fun _ => blank) := by
  by_cases previous : f.dispose = .previous
  · rw [disposed_previous previous]
    have background : f.first.dispose = .background := by rw [Frame.first, if_pos previous]
    funext q
    rw [Frame.disposed, background]
    dsimp only
    split
    · rfl
    · rw [Frame.draw, if_neg ‹_›]
  · have same : f.first = f := by rw [Frame.first, if_neg previous]
    rw [same]

/-- So the rule for the first frame changes nothing. -/
theorem play_shown (blank : P) (fs : List (Frame P)) : play blank fs = shown blank (fun _ => blank) fs := by
  cases fs with
  | nil => rfl
  | cons f fs => rw [play, shown, shown, disposed_first]; rfl

section Points

variable {Q : Type} [DecidableEq Q]

/-- Points that are changed one after another, each of them once. -/
theorem foldl_update (g : Q → P → P) {ps : List Q} (once : ps.Nodup) {C : Q → Prop} [DecidablePred C]
    (points : ∀ q, q ∈ ps ↔ C q) (c : Q → P) :
    ps.foldl (fun c q => Function.update c q (g q (c q))) c = fun q => if C q then g q (c q) else c q := by
  have changed (ps : List Q) (once : ps.Nodup) (c : Q → P) (q : Q) :
      (q ∈ ps → ps.foldl (fun c q => Function.update c q (g q (c q))) c q = g q (c q)) ∧
        (q ∉ ps → ps.foldl (fun c q => Function.update c q (g q (c q))) c q = c q) := by
    induction ps generalizing c with
    | nil => simp
    | cons p ps ih =>
      obtain ⟨fresh, later⟩ := List.nodup_cons.mp once
      rw [List.foldl_cons]
      have rest := ih later (Function.update c p (g p (c p)))
      by_cases same : q = p
      · subst same
        refine ⟨fun _ => ?_, fun none => absurd List.mem_cons_self none⟩
        rw [rest.2 fresh, Function.update_self]
      · rw [Function.update_of_ne same] at rest
        rw [List.mem_cons, not_or]
        exact ⟨fun member => rest.1 (member.resolve_left same), fun none => rest.2 none.2⟩
  funext q
  split
  case isTrue inside => exact (changed ps once c q).1 ((points q).mpr inside)
  case isFalse outside => exact (changed ps once c q).2 (mt (points q).mp outside)

end Points

end Lib.Compositor
