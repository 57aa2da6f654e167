import Mathlib.Data.List.Forall2
import Mathlib.Tactic.Common

/-! Arenas: memory that is allocated at the end and written only where it is fresh. A
view is the part of an arena an argument depends on; it survives allocation and writes
to cells it does not contain. -/
namespace Lib.Arena

variable {α β : Type*}

def view (h : List α) : Nat → Option α := fun a => h[a]?

/-- Every cell of the first view is in the second one. -/
def Sub (m m' : Nat → Option α) : Prop := ∀ a x, m a = some x → m' a = some x

/-- A view extended by the cells allocated between two arenas. -/
def grow (m : Nat → Option α) (h h' : List α) : Nat → Option α :=
  fun a => if a < h.length then m a else h'[a]?

theorem Sub.refl (m : Nat → Option α) : Sub m m := fun _ _ => id

theorem Sub.trans {m m' m'' : Nat → Option α} (first : Sub m m') (second : Sub m' m'') :
    Sub m m'' := fun a x cell => second a x (first a x cell)

theorem Sub.lt {m : Nat → Option α} {h : List α} (sub : Sub m (view h)) {a : Nat} {x : α}
    (cell : m a = some x) : a < h.length :=
  (List.getElem?_eq_some_iff.mp (sub a x cell)).1

theorem sub_of_isPrefix {h h' : List α} (longer : h <+: h') : Sub (view h) (view h') := by
  intro a x cell
  obtain ⟨rest, rfl⟩ := longer
  have inside := (List.getElem?_eq_some_iff.mp cell).1
  rw [view, List.getElem?_append_left inside]
  exact cell

theorem sub_grow {m : Nat → Option α} {h : List α} (sub : Sub m (view h)) (h' : List α) :
    Sub m (grow m h h') := by
  intro a x cell
  rw [grow, if_pos (sub.lt cell)]
  exact cell

theorem grow_sub {m : Nat → Option α} {h h' : List α} (sub : Sub m (view h))
    (longer : h <+: h') : Sub (grow m h h') (view h') := by
  intro a x cell
  unfold grow at cell
  split at cell
  · exact sub_of_isPrefix longer a x (sub a x cell)
  · exact cell

theorem grow_trans {m : Nat → Option α} {h h' h'' : List α} (first : h <+: h') (second : h' <+: h'') :
    Sub (grow (grow m h h') h' h'') (grow m h h'') := by
  intro a x cell
  unfold grow at cell ⊢
  by_cases old : a < h.length
  · rw [if_pos old] at cell ⊢
    rwa [if_pos (Nat.lt_of_lt_of_le old first.length_le)] at cell
  · rw [if_neg old] at cell ⊢
    split at cell
    · exact sub_of_isPrefix second a x cell
    · exact cell

/-- A node allocated first and written last: nothing older is touched, and what was
allocated in between stays as it is. -/
theorem prefix_of_write {h h' : List α} {x : α} (longer : h ++ [x] <+: h') (y : α) :
    h <+: h'.set h.length y := by
  obtain ⟨rest, rfl⟩ := longer
  exact ⟨y :: rest, by simp⟩

theorem grow_write {m : Nat → Option α} {h : List α} (x : α) (sub : Sub m (view h))
    (h' : List α) (y : α) :
    Sub (grow m (h ++ [x]) h') (grow m h (h'.set h.length y)) := by
  intro a z cell
  unfold grow at cell ⊢
  have length : (h ++ [x]).length = h.length + 1 := by simp
  rw [length] at cell
  by_cases old : a < h.length
  · rw [if_pos old]
    rwa [if_pos (Nat.lt_succ_of_lt old)] at cell
  · rw [if_neg old]
    by_cases here : a < h.length + 1
    · rw [if_pos here] at cell
      exact absurd (sub.lt cell) old
    · rw [if_neg here] at cell
      rw [List.getElem?_set_ne (by omega)]
      exact cell

theorem grow_written (m : Nat → Option α) {h h' : List α} {x : α} (longer : h ++ [x] <+: h')
    (y : α) : grow m h (h'.set h.length y) h.length = some y := by
  have inside : h.length < h'.length := by
    have := longer.length_le
    simp at this
    omega
  simp [grow, inside]

section Related
variable {R : α → β → Prop} {l : List α} {l' : List β}

theorem related_get (related : List.Forall₂ R l l') {i : Nat} {y : β} (at_i : l'[i]? = some y) :
    ∃ x, l[i]? = some x ∧ R x y := by
  induction related generalizing i with
  | nil => simp at at_i
  | cons head _ ih =>
    cases i with
    | zero =>
      obtain rfl := Option.some.inj at_i
      exact ⟨_, rfl, head⟩
    | succ i => exact ih at_i

theorem related_set (related : List.Forall₂ R l l') (i : Nat) {x : α} {y : β} (new : R x y) :
    List.Forall₂ R (l.set i x) (l'.set i y) := by
  induction related generalizing i with
  | nil => exact .nil
  | cons head tail ih =>
    cases i with
    | zero => exact .cons new tail
    | succ i => exact .cons head (ih i)

theorem related_insert (related : List.Forall₂ R l l') (i : Nat) {x : α} {y : β} (new : R x y) :
    List.Forall₂ R (l.insertIdx i x) (l'.insertIdx i y) := by
  induction related generalizing i with
  | nil =>
    cases i with
    | zero => exact .cons new .nil
    | succ i => exact .nil
  | cons head tail ih =>
    cases i with
    | zero => exact .cons new (.cons head tail)
    | succ i => exact .cons head (ih i)

theorem related_erase (related : List.Forall₂ R l l') (i : Nat) :
    List.Forall₂ R (l.eraseIdx i) (l'.eraseIdx i) := by
  induction related generalizing i with
  | nil => exact .nil
  | cons head tail ih =>
    cases i with
    | zero => exact tail
    | succ i => exact .cons head (ih i)

theorem related_isEmpty (related : List.Forall₂ R l l') : l.isEmpty = l'.isEmpty := by
  cases related <;> rfl

end Related

end Lib.Arena
