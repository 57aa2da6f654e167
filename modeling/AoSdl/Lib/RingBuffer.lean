import Mathlib.Data.Int.ModEq
import Mathlib.Data.List.Basic
import Mathlib.Tactic.Common

/-! Rings of slots with a position at which the next value is written. The slots may get more or
fewer while the position stays. -/
namespace Lib

structure RingBuffer (α : Type*) where
  slots : List α := []
  pos : Nat := 0

namespace RingBuffer

variable {α : Type*}

/-- A ring of so many slots, the new ones filled in. -/
def resize (r : RingBuffer α) (size : Nat) (fill : α) : RingBuffer α :=
  { r with slots := r.slots.take size ++ List.replicate (size - r.slots.length) fill }

/-- The value is written at the position. Beyond the slots nothing is stored. -/
def write (r : RingBuffer α) (x : α) : RingBuffer α :=
  if r.slots.isEmpty then r
  else ⟨r.slots.set r.pos x, (r.pos + 1) % r.slots.length⟩

/-- The positions that a write goes to. A ring without slots is not written to. -/
def target (r : RingBuffer α) : Option Nat := if r.slots.isEmpty then none else some r.pos

/-- A write stays inside the slots. -/
def Fits (r : RingBuffer α) : Prop := r.slots.length = 0 ∨ r.pos < r.slots.length

instance (r : RingBuffer α) : Decidable r.Fits := inferInstanceAs (Decidable (_ ∨ _))

variable {r : RingBuffer α}

@[simp] theorem length_resize (r : RingBuffer α) (size : Nat) (fill : α) :
    (r.resize size fill).slots.length = size := by
  unfold resize
  rw [List.length_append, List.length_take, List.length_replicate]
  omega

@[simp] theorem length_write (r : RingBuffer α) (x : α) : (r.write x).slots.length = r.slots.length := by
  unfold write
  split
  · rfl
  · exact List.length_set

theorem fits_empty : ({} : RingBuffer α).Fits := .inl rfl

theorem fits_resize_iff (r : RingBuffer α) (size : Nat) (fill : α) :
    (r.resize size fill).Fits ↔ size = 0 ∨ r.pos < size := by
  unfold Fits
  rw [length_resize]
  rfl

/-- A write brings the position back between the slots, wherever it was. -/
theorem fits_write (r : RingBuffer α) (x : α) : (r.write x).Fits := by
  unfold Fits
  rw [length_write]
  by_cases none : r.slots.length = 0
  · exact .inl none
  · right
    have some_slot : ¬ r.slots.isEmpty = true := fun empty =>
      none (List.length_eq_zero_iff.mpr (List.isEmpty_iff.mp empty))
    rw [write, if_neg some_slot]
    exact Nat.mod_lt _ (Nat.pos_of_ne_zero none)

theorem fits_iff_target : r.Fits ↔ ∀ i ∈ r.target, i < r.slots.length := by
  unfold Fits target
  cases slots : r.slots with
  | nil => simp
  | cons x rest => simp

end RingBuffer

end Lib

/-! A part of a stream in the slots of a ring: value `k` of the stream is in slot `k` modulo the number of slots. -/
namespace Lib.StreamSlots

variable {α : Type*} {slots stream : List α} {first last : ℕ}

/-- The slots hold the values of the stream from `first` up to `last`. -/
def Holds (slots stream : List α) (first last : ℕ) : Prop :=
  ∀ k, first ≤ k → k < last → slots[k % slots.length]? = stream[k]?

theorem holds_empty (slots stream : List α) (first : ℕ) : Holds slots stream first first :=
  fun _ low high => absurd (Nat.lt_of_lt_of_le high low) (Nat.lt_irrefl _)

theorem Holds.mono (holds : Holds slots stream first last) {first' : ℕ} (later : first ≤ first') :
    Holds slots stream first' last := fun k low high => holds k (Nat.le_trans later low) high

theorem Holds.congr (holds : Holds slots stream first last) {stream' : List α}
    (same : ∀ k < last, stream'[k]? = stream[k]?) : Holds slots stream' first last :=
  fun k low high => (holds k low high).trans (same k high).symm

/-- Two values in fewer places than there are slots are in different slots. -/
theorem slot_ne {a b n : ℕ} (order : a < b) (near : b < a + n) : a % n ≠ b % n := by
  intro same
  have divides : n ∣ b - a := (Nat.modEq_iff_dvd' order.le).mp same
  have := Nat.le_of_dvd (by omega) divides
  omega

/-- The next value goes to a slot that none of the values is in. -/
theorem Holds.set (holds : Holds slots stream first last) (order : first ≤ last) (room : last < first + slots.length)
    {x : α} (next : stream[last]? = some x) : Holds (slots.set (last % slots.length) x) stream first (last + 1) := by
  intro k low high
  rw [List.length_set]
  have inside : last % slots.length < slots.length := Nat.mod_lt _ (by omega)
  rcases Nat.lt_or_ge k last with before | here
  · have apart : last % slots.length ≠ k % slots.length := (slot_ne before (by omega)).symm
    rw [List.getElem?_set_ne apart]
    exact holds k low before
  · obtain rfl : k = last := by omega
    rw [List.getElem?_set_self inside, next]

end Lib.StreamSlots

/-! A queue of bounded length, whose values come in at the back and go out at the front, several at a time. -/
namespace Lib.BoundedQueue

variable {α : Type*}

inductive Step (capacity : ℕ) : List α → List α → List α → List α → Prop
  | stay (q : List α) : Step capacity q [] [] q
  | enqueue (q xs : List α) (fits : q.length + xs.length ≤ capacity) : Step capacity q xs [] (q ++ xs)
  | dequeue (xs q : List α) : Step capacity (xs ++ q) [] xs q

end Lib.BoundedQueue
