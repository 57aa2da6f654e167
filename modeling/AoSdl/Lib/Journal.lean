import Mathlib.Data.List.Basic

/-! States that record what they do in a list that only grows, and what of some kind is new in a later
one. -/
namespace Lib.Journal

variable {S E : Type*} (journal : S → List E) (kind : E → Prop)

/-- What the later state has recorded since. -/
def news (s t : S) : List E := (journal t).drop (journal s).length

/-- The journal goes on, with an entry of the kind exactly if `h`. -/
def Adds (s t : S) (h : Prop) : Prop :=
  ∃ more, journal t = journal s ++ more ∧ ((∃ e ∈ more, kind e) ↔ h)

variable {journal kind} {s t u : S} {g h : Prop}

theorem Adds.same (same : journal t = journal s) : Adds journal kind s t False :=
  ⟨[], by rw [same, List.append_nil], by simp⟩

theorem Adds.entry {e : E} (entry : journal t = journal s ++ [e]) : Adds journal kind s t (kind e) :=
  ⟨[e], entry, by simp⟩

theorem Adds.trans (first : Adds journal kind s t g) (second : Adds journal kind t u h) :
    Adds journal kind s u (g ∨ h) := by
  obtain ⟨front, log, seen⟩ := first
  obtain ⟨more, log', seen'⟩ := second
  refine ⟨front ++ more, by rw [log', log, List.append_assoc], ?_⟩
  simp only [List.mem_append, or_and_right, exists_or, seen, seen']

theorem Adds.congr (adds : Adds journal kind s t g) (same : g ↔ h) : Adds journal kind s t h := by
  rwa [← propext same]

theorem Adds.after (silent : Adds journal kind s t False) (adds : Adds journal kind t u h) :
    Adds journal kind s u h := (silent.trans adds).congr (iff_of_eq (false_or h))

theorem Adds.foldl {α : Type*} {f : S → α → S} {p : α → Prop}
    (each : ∀ s a, Adds journal kind s (f s a) (p a)) (l : List α) (s : S) :
    Adds journal kind s (l.foldl f s) (∃ a ∈ l, p a) := by
  induction l generalizing s with
  | nil => exact (Adds.same rfl).congr (by simp)
  | cons a l ih => exact ((each s a).trans (ih (f s a))).congr (by simp)

theorem Adds.news_iff (adds : Adds journal kind s t h) : (∃ e ∈ news journal s t, kind e) ↔ h := by
  obtain ⟨more, log, seen⟩ := adds
  rw [news, log, List.drop_left, seen]

end Lib.Journal
