import Mathlib.Algebra.BigOperators.Group.List.Basic
import Mathlib.Logic.Relation
import Mathlib.Order.Lattice

/-! Setting a list of items on lines: an item is put behind the one before it or begins a line, and only
breaks, and blanks at the begin of a line, take no place. -/
namespace Lib.LineSetting

variable {α K : Type*}

/-- Where an item was put: its index among all items, its begin and the number of its line. -/
structure Slot (α K : Type*) where
  index : ℕ
  item : α
  x : K
  line : ℕ

structure State (α K : Type*) where
  index : ℕ
  rest : List α
  x : K
  line : ℕ
  slots : List (Slot α K)

/-- What decides where the items go: their widths, the length of a line, and two kinds of items. -/
structure Style (α K : Type*) where
  width : α → K
  measure : K
  break_ : α → Prop
  blank : α → Prop

namespace Style

section Words

variable [Zero K] [Add K] (style : Style α K) [DecidablePred style.break_] [DecidablePred style.blank]

def Letter (a : α) : Prop := ¬style.break_ a ∧ ¬style.blank a

instance : DecidablePred style.Letter := fun _ => inferInstanceAs (Decidable (_ ∧ _))

/-- The widths of the letters that the items begin with. -/
def run_width (items : List α) : K := ((items.takeWhile fun a => style.Letter a).map style.width).sum

/-- The width of the word that the items begin with: a run of letters, or one item that is none. -/
def word_width : List α → K
  | [] => 0
  | a :: rest => if style.Letter a then style.run_width (a :: rest) else style.width a

variable {style}

theorem run_width_cons {a : α} {rest : List α} (letter : style.Letter a) :
    style.run_width (a :: rest) = style.width a + style.run_width rest := by
  unfold run_width
  rw [List.takeWhile_cons_of_pos (by simpa using letter)]
  rfl

theorem run_width_other {a : α} {rest : List α} (other : ¬style.Letter a) : style.run_width (a :: rest) = 0 := by
  unfold run_width
  rw [List.takeWhile_cons_of_neg (by simpa using other)]
  rfl

@[simp] theorem run_width_nil : style.run_width [] = 0 := rfl

end Words

/-- Nothing is set yet. -/
def start [Zero K] (items : List α) : State α K := ⟨0, items, 0, 0, []⟩

section Slots

variable [Zero K] [Add K] [LE K] (style : Style α K)

/-- What holds of the slots of the items before an index. -/
structure Placed (items : List α) (s : State α K) : Prop where
  left : s.rest = items.drop s.index
  read : ∀ slot ∈ s.slots, slot.index < s.index ∧ items[slot.index]? = some slot.item
  above : ∀ slot ∈ s.slots, slot.line ≤ s.line
  order : s.slots.Pairwise fun a b => a.index < b.index ∧ a.line ≤ b.line
  fits : ∀ slot ∈ s.slots, slot.x = 0 ∨ slot.x + style.width slot.item ≤ style.measure
  omitted : ∀ i a, i < s.index → items[i]? = some a →
    (∃ slot ∈ s.slots, slot.index = i) ∨ style.break_ a ∨ style.blank a

variable {style}

theorem placed_start (items : List α) : style.Placed items (start items) where
  left := rfl
  read := List.forall_mem_nil _
  above := List.forall_mem_nil _
  order := List.Pairwise.nil
  fits := List.forall_mem_nil _
  omitted := fun i _ before => absurd before (Nat.not_lt_zero i)

variable {items rest : List α} {k n : ℕ} {a : α} {x : K} {slots : List (Slot α K)}

/-- The item at the index is the next one. -/
theorem Placed.next (p : style.Placed items ⟨k, a :: rest, x, n, slots⟩) :
    items[k]? = some a ∧ rest = items.drop (k + 1) := by
  have left : a :: rest = items.drop k := p.left
  constructor
  · have head := congrArg (·[0]?) left
    simpa using head.symm
  · have tail := congrArg List.tail left
    rwa [List.tail_drop] at tail

theorem Placed.skip (p : style.Placed items ⟨k, a :: rest, x, n, slots⟩) (none : style.break_ a ∨ style.blank a)
    {x' : K} {n' : ℕ} (below : n ≤ n') : style.Placed items ⟨k + 1, rest, x', n', slots⟩ where
  left := p.next.2
  read := fun slot member => ⟨Nat.lt_succ_of_lt (p.read slot member).1, (p.read slot member).2⟩
  above := fun slot member => Nat.le_trans (p.above slot member) below
  order := p.order
  fits := p.fits
  omitted := fun i b before found => by
    obtain before | rfl := Nat.lt_succ_iff_lt_or_eq.mp before
    · exact p.omitted i b before found
    · obtain rfl := Option.some.inj (p.next.1.symm.trans found)
      exact Or.inr none

theorem Placed.put (p : style.Placed items ⟨k, a :: rest, x, n, slots⟩)
    (fits : x = 0 ∨ x + style.width a ≤ style.measure) :
    style.Placed items ⟨k + 1, rest, x + style.width a, n, slots ++ [⟨k, a, x, n⟩]⟩ where
  left := p.next.2
  read := fun slot member => by
    obtain member | at_end := List.mem_append.mp member
    · exact ⟨Nat.lt_succ_of_lt (p.read slot member).1, (p.read slot member).2⟩
    · obtain rfl := List.mem_singleton.mp at_end
      exact ⟨Nat.lt_succ_self k, p.next.1⟩
  above := fun slot member => by
    obtain member | at_end := List.mem_append.mp member
    · exact p.above slot member
    · obtain rfl := List.mem_singleton.mp at_end
      exact Nat.le_refl n
  order := by
    apply List.pairwise_append.mpr
    refine ⟨p.order, List.pairwise_singleton _ _, fun slot member last at_end => ?_⟩
    obtain rfl := List.mem_singleton.mp at_end
    exact ⟨(p.read slot member).1, p.above slot member⟩
  fits := fun slot member => by
    obtain member | at_end := List.mem_append.mp member
    · exact p.fits slot member
    · obtain rfl := List.mem_singleton.mp at_end
      exact fits
  omitted := fun i b before found => by
    obtain before | rfl := Nat.lt_succ_iff_lt_or_eq.mp before
    · obtain ⟨slot, member, here⟩ | skipped := p.omitted i b before found
      · exact Or.inl ⟨slot, List.mem_append_left _ member, here⟩
      · exact Or.inr skipped
    · exact Or.inl ⟨_, List.mem_append_right _ (List.mem_singleton.mpr rfl), rfl⟩

end Slots

section Steps

variable [Zero K] [Add K] [LinearOrder K] (style : Style α K) [DecidablePred style.break_] [DecidablePred style.blank]

/-- A line is left before its end only where the rest of the word does not fit on it. -/
inductive Step : State α K → State α K → Prop
  | newline {k a rest x n slots} : style.break_ a →
      Step ⟨k, a :: rest, x, n, slots⟩ ⟨k + 1, rest, 0, n + 1, slots⟩
  | wrap {k a rest x n slots} : ¬style.break_ a → 0 < x → style.measure < x + style.word_width (a :: rest) →
      Step ⟨k, a :: rest, x, n, slots⟩ ⟨k, a :: rest, 0, n + 1, slots⟩
  | drop {k a rest n slots} : style.blank a →
      Step ⟨k, a :: rest, 0, n, slots⟩ ⟨k + 1, rest, 0, n, slots⟩
  | put {k a rest x n slots} : ¬style.break_ a → x = 0 ∨ x + style.width a ≤ style.measure →
      Step ⟨k, a :: rest, x, n, slots⟩ ⟨k + 1, rest, x + style.width a, n, slots ++ [⟨k, a, x, n⟩]⟩

def Steps : State α K → State α K → Prop := Relation.ReflTransGen style.Step

/-- The items were all read, and the slots are those that were filled. -/
def Sets (items : List α) (slots : List (Slot α K)) : Prop :=
  ∃ k x n, style.Steps (start items) ⟨k, [], x, n, slots⟩

variable {style}

theorem Placed.step {items : List α} {s t : State α K} (p : style.Placed items s) (step : style.Step s t) :
    style.Placed items t := by
  cases step with
  | newline breaks => exact p.skip (Or.inl breaks) (Nat.le_succ _)
  | drop blank => exact p.skip (Or.inr blank) (Nat.le_refl _)
  | put inked fits => exact p.put fits
  | wrap _ _ _ => exact { p with above := fun slot member => Nat.le_succ_of_le (p.above slot member) }

theorem Placed.steps {items : List α} {s t : State α K} (p : style.Placed items s) (steps : style.Steps s t) :
    style.Placed items t := by
  induction steps with
  | refl => exact p
  | tail _ step ih => exact ih.step step

theorem Sets.placed {items : List α} {slots : List (Slot α K)} (sets : style.Sets items slots) :
    ∃ s : State α K, style.Placed items s ∧ s.slots = slots ∧ items.length ≤ s.index := by
  obtain ⟨k, x, n, steps⟩ := sets
  have placed := (placed_start items).steps steps
  exact ⟨_, placed, rfl, List.drop_eq_nil_iff.mp placed.left.symm⟩

end Steps

end Style

end Lib.LineSetting
