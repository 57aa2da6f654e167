import Mathlib.Data.List.Basic

/-! Items that wait in a line until they are taken, where an urgent one discards all that wait. -/
namespace Lib.Preemption

variable {α : Type*} (urgent : α → Bool)

/-- The items that came, in order, and those that were taken: each once, or not at all when an urgent one
came later. -/
inductive Delivered : List α → List α → Prop where
  | nil : Delivered [] []
  | take (a : α) {came taken : List α} (rest : Delivered came taken) : Delivered (a :: came) (a :: taken)
  | discard (a : α) {came taken : List α} (later : ∃ b ∈ came, urgent b = true) (rest : Delivered came taken) :
    Delivered (a :: came) taken

/-- The items that no urgent one came after. -/
def standing : List α → List α
  | [] => []
  | a :: came => if came.any urgent then standing came else a :: came

variable {urgent} {came taken waiting : List α}

theorem Delivered.snoc (delivered : Delivered urgent came taken) (a : α) :
    Delivered urgent (came ++ [a]) (taken ++ [a]) := by
  induction delivered with
  | nil => exact .take a .nil
  | take b rest ih => exact .take b ih
  | discard b later rest ih =>
    obtain ⟨c, member, isUrgent⟩ := later
    exact .discard b ⟨c, List.mem_append_left _ member, isUrgent⟩ ih

/-- What waits may be discarded when an urgent item comes. -/
theorem Delivered.preempt (delivered : Delivered urgent came (taken ++ waiting)) {a : α}
    (isUrgent : urgent a = true) : Delivered urgent (came ++ [a]) (taken ++ [a]) := by
  generalize whole : taken ++ waiting = all at delivered
  induction delivered generalizing taken waiting with
  | nil =>
    rw [(List.append_eq_nil_iff.mp whole).1]
    exact .take a .nil
  | @take b came all rest ih =>
    cases taken with
    | nil => exact .discard b ⟨a, List.mem_append_right _ (List.mem_singleton.mpr rfl), isUrgent⟩ (@ih [] all rfl)
    | cons b' taken =>
      obtain ⟨rfl, behind⟩ := List.cons.inj whole
      exact .take b' (ih behind)
  | discard b later rest ih =>
    obtain ⟨c, member, urgent⟩ := later
    exact .discard b ⟨c, List.mem_append_left _ member, urgent⟩ (ih whole)

theorem standing_snoc (came : List α) (a : α) :
    standing urgent (came ++ [a]) = if urgent a then [a] else standing urgent came ++ [a] := by
  induction came with
  | nil => simp [standing]
  | cons b came ih =>
    rw [List.cons_append, standing, ih, standing, List.any_append]
    cases isUrgent : urgent a with
    | true => simp [isUrgent]
    | false => cases came.any urgent <;> simp [isUrgent]

end Lib.Preemption
