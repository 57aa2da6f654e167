import Mathlib.Data.List.DropRight
import Mathlib.Tactic.Common

/-! A bounded buffer over a log that grows: it holds the newest entries, and a selection from it is
told from another by what is printed of the entries. -/
namespace Lib.Window

variable {α β : Type*}

/-- Takes one more entry in at the back, and lets the oldest go when there are too many. -/
def slide (capacity : Nat) (buffer : List α) (entry : α) : List α :=
  if capacity < (buffer ++ [entry]).length then (buffer ++ [entry]).tail else buffer ++ [entry]

theorem length_rtake (log : List α) (capacity : Nat) :
    (log.rtake capacity).length = min capacity log.length := by
  rw [List.rtake, List.length_drop]
  omega

theorem map_rtake (f : α → β) (log : List α) (capacity : Nat) :
    (log.map f).rtake capacity = (log.rtake capacity).map f := by
  simp only [List.rtake, List.length_map, List.map_drop]

theorem mem_of_mem_rtake {log : List α} {capacity : Nat} {entry : α}
    (inside : entry ∈ log.rtake capacity) : entry ∈ log := List.mem_of_mem_drop inside

/-- Sliding keeps to the newest entries of the log. -/
theorem slide_rtake (log : List α) (capacity : Nat) (entry : α) :
    slide capacity (log.rtake capacity) entry = (log ++ [entry]).rtake capacity := by
  have shape : log.rtake capacity ++ [entry] = (log ++ [entry]).drop (log.length - capacity) := by
    rw [List.rtake, List.drop_append_of_le_length (Nat.sub_le _ _)]
  have size : (log.rtake capacity ++ [entry]).length = min capacity log.length + 1 := by
    rw [List.length_append, length_rtake, List.length_singleton]
  unfold slide
  rw [size, shape, List.rtake, List.length_append, List.length_singleton]
  split
  · have long : log.length - capacity + 1 = log.length + 1 - capacity := by omega
    rw [List.tail_drop, long]
  · have short : log.length - capacity = log.length + 1 - capacity := by omega
    rw [short]

/-- Two selections print the same exactly if they select the same, where no two entries print the
same. -/
theorem map_filter_eq_iff {f : α → β} {entries : List α} {p q : α → Bool}
    (apart : ∀ x ∈ entries, ∀ y ∈ entries, f x = f y → x = y) :
    (entries.filter p).map f = (entries.filter q).map f ↔ ∀ x ∈ entries, p x = q x := by
  constructor
  · intro same x inside
    have told {p q : α → Bool} (same : (entries.filter p).map f = (entries.filter q).map f)
        (selected : p x = true) : q x = true := by
      have printed : f x ∈ (entries.filter p).map f :=
        List.mem_map_of_mem (List.mem_filter.mpr ⟨inside, selected⟩)
      rw [same] at printed
      obtain ⟨y, chosen, equal⟩ := List.mem_map.mp printed
      obtain ⟨there, wanted⟩ := List.mem_filter.mp chosen
      exact apart y there x inside equal ▸ wanted
    exact Bool.eq_iff_iff.mpr ⟨told same, told same.symm⟩
  · intro agree
    rw [List.filter_congr agree]

theorem rtake_append (log late : List α) (capacity : Nat) :
    (log ++ late).rtake capacity = log.rtake (capacity - late.length) ++ late.rtake capacity := by
  have front : log.length + late.length - capacity = log.length - (capacity - late.length) ∨
      log.length - (capacity - late.length) = log.length := by omega
  have back : log.length + late.length - capacity - log.length = late.length - capacity := by omega
  rw [List.rtake, List.rtake, List.rtake, List.length_append, List.drop_append, back]
  rcases front with same | whole
  · rw [same]
  · rw [whole, List.drop_length, List.drop_eq_nil_of_le (by omega)]

theorem rtake_rtake (log : List α) (capacity fewer : Nat) :
    (log.rtake capacity).rtake fewer = log.rtake (min fewer capacity) := by
  have from_ : log.length - capacity + (min capacity log.length - fewer) = log.length - min fewer capacity := by omega
  rw [List.rtake, length_rtake, List.rtake, List.drop_drop, from_]
  rfl

/-- The newest entries are told from those before the last entry. -/
theorem rtake_concat (log : List α) (capacity : Nat) (entry : α) :
    (log ++ [entry]).rtake capacity = (log.rtake capacity ++ [entry]).rtake capacity := by
  have fewer : min (capacity - [entry].length) capacity = capacity - [entry].length := by omega
  rw [rtake_append, rtake_append, rtake_rtake, fewer]

section Expiry

variable {gone later : α → Bool} {log buffer : List α} {capacity : Nat}

/-- Where what is gone stands in front, it is gone when the front is. -/
theorem dropWhile_eq_filter (ordered : log.Pairwise fun x y => gone y = true → gone x = true) :
    log.dropWhile gone = log.filter fun x => !gone x := by
  induction log with
  | nil => rfl
  | cons x log ih =>
    obtain ⟨first, rest⟩ := List.pairwise_cons.mp ordered
    cases old : gone x with
    | true => simp [old, ih rest]
    | false =>
      have none : ∀ y ∈ log, gone y = false := by
        intro y member
        rw [← Bool.not_eq_true]
        intro late
        exact Bool.false_ne_true (old.symm.trans (first y member late))
      rw [List.dropWhile_cons_of_neg (by simp [old]), List.filter_cons_of_pos (by simp [old])]
      rw [List.filter_eq_self.mpr fun y member => by simp [none y member]]

/-- The buffer has the newest entries, but for some in front that are gone. -/
def Holds (capacity : Nat) (gone : α → Bool) (log buffer : List α) : Prop :=
  ∃ old, log.rtake capacity = old ++ buffer ∧ ∀ x ∈ old, gone x = true

theorem Holds.empty : Holds capacity gone [] [] := ⟨[], by simp [List.rtake], nofun⟩

theorem Holds.sublist (holds : Holds capacity gone log buffer) : buffer.Sublist log := by
  obtain ⟨old, shape, _⟩ := holds
  exact (shape ▸ List.sublist_append_right old buffer).trans (List.drop_sublist _ _)

theorem Holds.length_le (holds : Holds capacity gone log buffer) : buffer.length ≤ capacity := by
  obtain ⟨old, shape, _⟩ := holds
  have size := congrArg List.length shape
  rw [length_rtake, List.length_append] at size
  omega

theorem Holds.mono (holds : Holds capacity gone log buffer) (still : ∀ x ∈ log, gone x = true → later x = true) :
    Holds capacity later log buffer := by
  obtain ⟨old, shape, gone⟩ := holds
  refine ⟨old, shape, fun x member => still x ?_ (gone x member)⟩
  exact mem_of_mem_rtake (shape ▸ List.mem_append_left buffer member)

theorem Holds.expire (holds : Holds capacity gone log buffer) : Holds capacity gone log (buffer.dropWhile gone) := by
  obtain ⟨old, shape, left⟩ := holds
  refine ⟨old ++ buffer.takeWhile gone, ?_, ?_⟩
  · rw [shape, List.append_assoc, List.takeWhile_append_dropWhile]
  · intro x member
    rcases List.mem_append.mp member with inside | front
    · exact left x inside
    · exact List.mem_takeWhile_imp front

theorem Holds.push (holds : Holds capacity gone log buffer) (entry : α) :
    Holds capacity gone (log ++ [entry]) ((buffer ++ [entry]).rtake capacity) := by
  obtain ⟨old, shape, left⟩ := holds
  refine ⟨old.rtake (capacity - (buffer ++ [entry]).length), ?_, fun x member => left x (mem_of_mem_rtake member)⟩
  rw [rtake_concat, shape, List.append_assoc, rtake_append]

/-- Once what is gone has left, the buffer has the same of what is not gone as the newest entries. -/
theorem Holds.filter (holds : Holds capacity gone log buffer) (wanted : α → Bool) :
    (log.rtake capacity).filter (fun x => !gone x && wanted x) = buffer.filter fun x => !gone x && wanted x := by
  obtain ⟨old, shape, left⟩ := holds
  rw [shape, List.filter_append, List.filter_eq_nil_iff.mpr, List.nil_append]
  intro x member
  simp [left x member]

end Expiry

end Lib.Window
