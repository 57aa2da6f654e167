import Mathlib.Data.List.Pairwise
import Mathlib.Order.Nat

/-! Packing rectangles on shelves: each goes to the right of the one before it, and below all of them
when the row is full. Where a rectangle is put, it overlaps none of those put before. -/
namespace Lib.Shelves

structure Rect where
  x : ℕ
  y : ℕ
  w : ℕ
  h : ℕ

namespace Rect

def Within (r : Rect) (width height : ℕ) : Prop := r.x + r.w ≤ width ∧ r.y + r.h ≤ height

def Apart (r s : Rect) : Prop :=
  r.x + r.w ≤ s.x ∨ s.x + s.w ≤ r.x ∨ r.y + r.h ≤ s.y ∨ s.y + s.h ≤ r.y

/-- The cell in column `x` and row `y` belongs to the rectangle. -/
def Has (r : Rect) (x y : ℕ) : Prop := (r.x ≤ x ∧ x < r.x + r.w) ∧ (r.y ≤ y ∧ y < r.y + r.h)

variable {r s : Rect} {x y width height : ℕ}

theorem Apart.not_both (apart : Apart r s) (first : Has r x y) (second : Has s x y) : False := by
  obtain ⟨⟨_, _⟩, _, _⟩ := first
  obtain ⟨⟨_, _⟩, _, _⟩ := second
  rcases apart with left | right | above | below <;> omega

theorem Within.mono (within : Within r width height) {height' : ℕ} (taller : height ≤ height') :
    Within r width height' := ⟨within.1, within.2.trans taller⟩

theorem Has.lt (has : Has r x y) (within : Within r width height) : x < width ∧ y < height :=
  ⟨has.1.2.trans_le within.1, has.2.2.trans_le within.2⟩

end Rect

/-- Where the next rectangle goes, and the height of the row it goes to. -/
structure Shelf where
  x : ℕ
  y : ℕ
  height : ℕ

namespace Shelf

variable (pad width : ℕ)

/-- A rectangle that does not fit into the row begins another one. -/
def open_row (s : Shelf) (w : ℕ) : Shelf :=
  if width < s.x + w + pad then ⟨0, s.y + s.height + pad, 0⟩ else s

def rect (s : Shelf) (w h : ℕ) : Rect := ⟨s.x, s.y, w, h⟩

def put (s : Shelf) (w h : ℕ) : Shelf := ⟨s.x + w + pad, s.y, max s.height h⟩

/-- The rectangle lies in an earlier row, or in this one and to the left of the cursor. -/
def Behind (s : Shelf) (r : Rect) : Prop :=
  r.y + r.h ≤ s.y ∨ (r.x + r.w ≤ s.x ∧ r.y + r.h ≤ s.y + s.height)

variable {pad width} {s : Shelf} {r : Rect} {w h : ℕ}

theorem Behind.open_row (behind : Behind s r) : Behind (s.open_row pad width w) r := by
  unfold Shelf.open_row
  split
  · left
    change r.y + r.h ≤ s.y + s.height + pad
    rcases behind with earlier | ⟨-, row⟩
    · omega
    · omega
  · exact behind

theorem Behind.put (behind : Behind s r) : Behind (s.put pad w h) r := by
  rcases behind with earlier | ⟨left, row⟩
  · exact Or.inl earlier
  · right
    have taller : s.height ≤ max s.height h := Nat.le_max_left ..
    constructor
    · change r.x + r.w ≤ s.x + w + pad
      omega
    · change r.y + r.h ≤ s.y + max s.height h
      omega

theorem behind_put : Behind (s.put pad w h) (s.rect w h) := by
  right
  have taller : h ≤ max s.height h := Nat.le_max_right ..
  constructor
  · change s.x + w ≤ s.x + w + pad
    omega
  · change s.y + h ≤ s.y + max s.height h
    omega

/-- The next rectangle overlaps none that is behind. -/
theorem Behind.apart (behind : Behind s r) : Rect.Apart (s.rect w h) r := by
  rcases behind with earlier | ⟨left, -⟩
  · exact Or.inr (Or.inr (Or.inr earlier))
  · exact Or.inr (Or.inl left)

end Shelf

end Lib.Shelves
