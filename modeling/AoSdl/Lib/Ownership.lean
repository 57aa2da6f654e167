import Mathlib.Logic.Function.Basic

/-! Exclusive ownership kept twice: as a mark on each resource and as the resource each
owner holds. Reassigning one owner keeps the two in step exactly when it takes nothing
that somebody else holds. -/
namespace Lib.Ownership

variable {K C : Type*}

/-- The marks are the held resources, and no resource is held twice. -/
structure Exclusive (taken : C → Prop) (own : K → Option C) : Prop where
  marked : ∀ c, taken c ↔ ∃ k, own k = some c
  single : ∀ k k' c, own k = some c → own k' = some c → k = k'

variable {taken taken' : C → Prop} {own : K → Option C}

theorem Exclusive.congr (same : ∀ c, taken c ↔ taken' c) :
    Exclusive taken own ↔ Exclusive taken' own :=
  ⟨fun ⟨marked, single⟩ => ⟨fun c => (same c).symm.trans (marked c), single⟩,
    fun ⟨marked, single⟩ => ⟨fun c => (same c).trans (marked c), single⟩⟩

variable [DecidableEq K]

/-- An owner gives up what it holds and takes something free, or nothing. -/
theorem Exclusive.assign (exclusive : Exclusive taken own) (k : K) (o : Option C)
    (free : ∀ c, o = some c → taken c → own k = some c)
    (marks : ∀ c, taken' c ↔ o = some c ∨ (taken c ∧ own k ≠ some c)) :
    Exclusive taken' (Function.update own k o) := by
  have held : ∀ c q, o = some c → own q = some c → q = k := by
    intro c q new old
    exact exclusive.single q k c old (free c new ((exclusive.marked c).mpr ⟨q, old⟩))
  constructor
  · intro c
    rw [marks]
    constructor
    · rintro (new | ⟨mark, other⟩)
      · exact ⟨k, by rw [Function.update_self, new]⟩
      · obtain ⟨q, owned⟩ := (exclusive.marked c).mp mark
        have apart : q ≠ k := by rintro rfl; exact other owned
        exact ⟨q, by rw [Function.update_of_ne apart, owned]⟩
    · rintro ⟨q, owned⟩
      by_cases here : q = k
      · subst q
        rw [Function.update_self] at owned
        exact .inl owned
      · rw [Function.update_of_ne here] at owned
        refine .inr ⟨(exclusive.marked c).mpr ⟨q, owned⟩, fun own_k => here ?_⟩
        exact exclusive.single q k c owned own_k
  · intro q q' c owned owned'
    by_cases here : q = k
    · by_cases here' : q' = k
      · rw [here, here']
      · subst q
        rw [Function.update_self] at owned
        rw [Function.update_of_ne here'] at owned'
        exact (held c q' owned owned').symm
    · by_cases here' : q' = k
      · subst q'
        rw [Function.update_self] at owned'
        rw [Function.update_of_ne here] at owned
        exact held c q owned' owned
      · rw [Function.update_of_ne here] at owned
        rw [Function.update_of_ne here'] at owned'
        exact exclusive.single q q' c owned owned'

/-- Dropping an owner without its mark leaves a mark nobody holds. -/
theorem Exclusive.not_of_dropped (exclusive : Exclusive taken own) {k : K} {c : C}
    (owned : own k = some c) : ¬ Exclusive taken (Function.update own k none) := by
  intro after
  obtain ⟨q, still⟩ := (after.marked c).mp ((exclusive.marked c).mpr ⟨k, owned⟩)
  by_cases here : q = k
  · subst q
    rw [Function.update_self] at still
    contradiction
  · rw [Function.update_of_ne here] at still
    exact here (exclusive.single q k c still owned)

omit [DecidableEq K] in
/-- Clearing a mark whose resource is still held. -/
theorem not_exclusive_of_unmarked {k : K} {c : C} (owned : own k = some c) (unmarked : ¬ taken c) :
    ¬ Exclusive taken own :=
  fun after => unmarked ((after.marked c).mpr ⟨k, owned⟩)

end Lib.Ownership
