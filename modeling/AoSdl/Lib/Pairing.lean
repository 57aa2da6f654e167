import Mathlib.Data.List.Count
import Mathlib.Data.List.Infix
import Mathlib.Data.List.Nodup
import Mathlib.Logic.Function.Basic
import Mathlib.Tactic.Common

/-! Notices about things that open and close. A line of notices is kept in step with the things that
are there while notices are put in behind those already told and before those still to come. -/
namespace Lib.Pairing

variable {ι : Type*}

inductive Notice (ι : Type*) where
  | opened (id : ι)
  | closed (id : ι)
  deriving DecidableEq

open Notice

/-- What is told closed is in `known`, or told open before. -/
def Ordered : (ι → Prop) → List (Notice ι) → Prop
  | _, [] => True
  | known, opened id :: rest => Ordered (fun i => known i ∨ i = id) rest
  | known, closed id :: rest => known id ∧ Ordered known rest

theorem Ordered.mono {known more : ι → Prop} (weaker : ∀ id, known id → more id)
    {line : List (Notice ι)} (ordered : Ordered known line) : Ordered more line := by
  induction line generalizing known more with
  | nil => trivial
  | cons notice line ih =>
    cases notice with
    | opened id => exact ih (fun i => Or.imp_left (weaker i)) ordered
    | closed id => exact ⟨weaker id ordered.1, ih weaker ordered.2⟩

theorem ordered_append {known : ι → Prop} {front back : List (Notice ι)} :
    Ordered known (front ++ back) ↔
      Ordered known front ∧ Ordered (fun id => known id ∨ opened id ∈ front) back := by
  induction front generalizing known with
  | nil => simp [Ordered]
  | cons notice front ih =>
    cases notice with
    | opened id => simp [Ordered, ih, or_assoc]
    | closed id => simp [Ordered, ih, and_assoc]

theorem Ordered.before {line before after : List (Notice ι)} {id : ι}
    (ordered : Ordered (fun _ => False) line) (shape : line = before ++ closed id :: after) :
    opened id ∈ before := by
  rw [shape, ordered_append] at ordered
  exact ordered.2.1.resolve_left not_false

theorem ordered_opened {known : ι → Prop} (ids : List ι) : Ordered known (ids.map opened) := by
  induction ids generalizing known with
  | nil => trivial
  | cons id ids ih => exact ih

theorem ordered_closed {known : ι → Prop} {ids : List ι} (all : ∀ id ∈ ids, known id) :
    Ordered known (ids.map closed) := by
  induction ids with
  | nil => trivial
  | cons id ids ih =>
    exact ⟨all id List.mem_cons_self, ih fun i member => all i (List.mem_cons_of_mem id member)⟩

variable [DecidableEq ι]

/-- The line agrees with what is there: what is open was told so and not told closed, what is there
but not open was told neither, and what was told open and is gone was told closed, once. -/
structure Agrees (status : ι → Option Bool) (line : List (Notice ι)) : Prop where
  ordered : Ordered (fun _ => False) line
  once : ∀ id, line.count (closed id) ≤ 1
  present : ∀ id isOpen, status id = some isOpen → closed id ∉ line ∧ (opened id ∈ line ↔ isOpen)
  gone : ∀ id, status id = none → opened id ∈ line → closed id ∈ line

/-- A section of the program opens some of the things that are not open, then closes some that are
open, with the notices of both put in behind `front`. Things that never opened may go untold. -/
structure Section (status status' : ι → Option Bool) (front : List (Notice ι))
    (opens closes : List ι) : Prop where
  opens_fresh : ∀ id ∈ opens, status id = some false
  closes_once : closes.Nodup
  closes_told : ∀ id ∈ closes, status id = some true ∧ opened id ∈ front ∨ id ∈ opens
  closed_gone : ∀ id ∈ closes, status' id = none
  kept : ∀ id, id ∉ closes → status' id = (if id ∈ opens then some true else status id) ∨
    id ∉ opens ∧ status id = some false ∧ status' id = none

variable {status status' : ι → Option Bool} {front back : List (Notice ι)} {opens closes : List ι}

theorem Section.there (section_ : Section status status' front opens closes) {id : ι}
    (told : id ∈ closes) : ∃ isOpen, status id = some isOpen := by
  rcases section_.closes_told id told with ⟨isOpen, _⟩ | new
  · exact ⟨_, isOpen⟩
  · exact ⟨_, section_.opens_fresh id new⟩

omit [DecidableEq ι] in
theorem mem_opened {id : ι} :
    opened id ∈ front ++ (opens.map opened ++ closes.map closed) ++ back ↔
      opened id ∈ front ++ back ∨ id ∈ opens := by
  simp only [List.mem_append, List.mem_map, opened.injEq, exists_eq_right, reduceCtorEq, and_false,
    exists_false, or_false]
  tauto

omit [DecidableEq ι] in
theorem mem_closed {id : ι} :
    closed id ∈ front ++ (opens.map opened ++ closes.map closed) ++ back ↔
      closed id ∈ front ++ back ∨ id ∈ closes := by
  simp only [List.mem_append, List.mem_map, closed.injEq, exists_eq_right, reduceCtorEq, and_false,
    exists_false, false_or]
  tauto

theorem Agrees.step (agrees : Agrees status (front ++ back))
    (section_ : Section status status' front opens closes) :
    Agrees status' (front ++ (opens.map opened ++ closes.map closed) ++ back) := by
  refine ⟨?_, ?_, ?_, ?_⟩
  · obtain ⟨told, rest⟩ := ordered_append.mp agrees.ordered
    refine ordered_append.mpr ⟨ordered_append.mpr ⟨told, ordered_append.mpr ⟨ordered_opened _, ?_⟩⟩, ?_⟩
    · refine ordered_closed fun id member => ?_
      rcases section_.closes_told id member with ⟨_, before⟩ | new
      · exact .inl (.inr before)
      · exact .inr (List.mem_map_of_mem new)
    · exact rest.mono fun id => Or.imp_right (List.mem_append_left _)
  · intro id
    have old := agrees.once id
    have new : (closes.map closed).count (closed id) = closes.count id :=
      List.count_map_of_injective _ _ (fun _ _ => closed.inj) _
    have none_opened : (opens.map opened).count (closed id) = 0 :=
      List.count_eq_zero.mpr (by simp)
    have single := List.nodup_iff_count_le_one.mp section_.closes_once id
    simp only [List.count_append] at old ⊢
    rw [new, none_opened]
    by_cases told : id ∈ closes
    · obtain ⟨isOpen, there⟩ := section_.there told
      have absent := List.count_eq_zero.mpr (agrees.present id isOpen there).1
      rw [List.count_append] at absent
      omega
    · have zero := List.count_eq_zero.mpr told
      omega
  · intro id isOpen there
    have untold : id ∉ closes := fun told => by
      rw [section_.closed_gone id told] at there
      cases there
    rw [mem_opened, mem_closed]
    rcases section_.kept id untold with same | ⟨_, _, lost⟩
    · rw [same] at there
      split at there
      · next new =>
        obtain ⟨absent, _⟩ := agrees.present id false (section_.opens_fresh id new)
        exact ⟨not_or.mpr ⟨absent, untold⟩, iff_of_true (.inr new) (Option.some.inj there).symm⟩
      · next old =>
        obtain ⟨absent, told⟩ := agrees.present id isOpen there
        exact ⟨not_or.mpr ⟨absent, untold⟩, (or_iff_left old).trans told⟩
    · rw [lost] at there
      cases there
  · intro id lost told
    rw [mem_opened] at told
    rw [mem_closed]
    by_cases now : id ∈ closes
    · exact .inr now
    · rcases section_.kept id now with same | ⟨old, fresh, _⟩
      · rw [same] at lost
        split at lost
        · cases lost
        · next old => exact .inl (agrees.gone id lost (told.resolve_right old))
      · have open_ := ((agrees.present id false fresh).2.mp (told.resolve_right old))
        cases open_

theorem Agrees.add {line : List (Notice ι)} {id : ι} (agrees : Agrees status line)
    (never_opened : opened id ∉ line) (never_closed : closed id ∉ line) :
    Agrees (Function.update status id (some false)) line := by
  refine ⟨agrees.ordered, agrees.once, fun i isOpen there => ?_, fun i lost told => ?_⟩
  · by_cases same : i = id
    · subst same
      rw [Function.update_self] at there
      exact ⟨never_closed, iff_of_false never_opened (by simp [← Option.some.inj there])⟩
    · rw [Function.update_of_ne same] at there
      exact agrees.present i isOpen there
  · by_cases same : i = id
    · exact absurd (same ▸ told) never_opened
    · rw [Function.update_of_ne same] at lost
      exact agrees.gone i lost told

end Lib.Pairing
