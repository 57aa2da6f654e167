import Mathlib.Tactic.Common

/-! Readers of a buffer that refuse some contents and must not read outside: what they ensure when they go through,
by rules for each step. -/
namespace Lib.Guarded

inductive Failure (ε : Type) where
  | outside
  | refused (reason : ε)

section Steps

variable {ε α : Type}

def refuse_if (bad : Prop) [Decidable bad] (reason : ε) : Except (Failure ε) Unit :=
  if bad then .error (.refused reason) else .ok ()

def read (buffer : List α) (i : ℕ) : Except (Failure ε) α :=
  match buffer[i]? with
  | none => .error .outside
  | some b => .ok b

def slice (buffer : List α) (start n : ℕ) : Except (Failure ε) (List α) :=
  if start + n ≤ buffer.length then .ok ((buffer.drop start).take n) else .error .outside

end Steps

section Rules

variable {ε α β : Type}

/-- Nothing is read outside, and the result is as it should be when there is one. -/
def Safe (Q : α → Prop) : Except (Failure ε) α → Prop
  | .ok a => Q a
  | .error .outside => False
  | .error (.refused _) => True

variable {Q : β → Prop} {buffer : List α}

theorem Safe.refuse_if {bad : Prop} [Decidable bad] {reason : ε} {f : Unit → Except (Failure ε) β}
    (rest : ¬ bad → Safe Q (f ())) : Safe Q (Guarded.refuse_if bad reason >>= f) := by
  unfold Guarded.refuse_if
  split
  · trivial
  · exact rest ‹_›

theorem Safe.read {i : ℕ} (inside : i < buffer.length) {f : α → Except (Failure ε) β}
    (rest : Safe Q (f buffer[i])) : Safe Q (Guarded.read buffer i >>= f) := by
  have there : buffer[i]? = some buffer[i] := List.getElem?_eq_getElem inside
  rw [Guarded.read, there]
  exact rest

theorem Safe.slice {start n : ℕ} (inside : start + n ≤ buffer.length) {f : List α → Except (Failure ε) β}
    (rest : Safe Q (f ((buffer.drop start).take n))) : Safe Q (Guarded.slice buffer start n >>= f) := by
  rw [Guarded.slice, if_pos inside]
  exact rest

theorem Safe.bind {P : α → Prop} {m : Except (Failure ε) α} {f : α → Except (Failure ε) β} (first : Safe P m)
    (rest : ∀ a, P a → Safe Q (f a)) : Safe Q (m >>= f) := by
  match m, first with
  | .ok a, first => exact rest a first
  | .error (.refused _), _ => trivial

end Rules

end Lib.Guarded
