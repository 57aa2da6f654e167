import AoSdl.Lib.Framing

/-! The first place of a word in a text, and texts that are lines with a delimiter of two
letters between them. -/
namespace Lib.Search

variable {α : Type*} [DecidableEq α] {word s t p : List α} {a b : α}

/-- How many letters stand before the first occurrence. -/
def find (word : List α) : List α → Option Nat
  | [] => if word = [] then some 0 else none
  | c :: s => if word <+: c :: s then some 0 else (find word s).map (· + 1)

theorem find_none : find word s = none ↔ ¬ word <:+: s := by
  induction s with
  | nil => simp [find]
  | cons c s ih =>
    rw [find, List.infix_cons_iff, not_or, ← ih]
    by_cases here : word <+: c :: s
    · simp [here]
    · simp [here]

theorem find_absent (absent : ¬ word <:+: s) (shorter : p <+: s) : find word p = none :=
  find_none.mpr fun inside => absent (inside.trans shorter.isInfix)

theorem find_start (here : word <+: s) : find word s = some 0 := by
  cases s with
  | nil => rw [find, if_pos (List.prefix_nil.mp here)]
  | cons c s => rw [find, if_pos here]

theorem find_split {n : Nat} (found : find word s = some n) :
    ∃ p r, s = p ++ (word ++ r) ∧ p.length = n := by
  induction s generalizing n with
  | nil =>
    rw [find] at found
    split at found
    · next empty =>
      cases found
      exact ⟨[], [], by rw [empty]; rfl, rfl⟩
    · cases found
  | cons c s ih =>
    rw [find] at found
    split at found
    · next here =>
      cases found
      obtain ⟨r, shape⟩ := here
      exact ⟨[], r, shape.symm, rfl⟩
    · obtain ⟨m, later, rfl⟩ := Option.map_eq_some_iff.mp found
      obtain ⟨p, r, shape, length⟩ := ih later
      exact ⟨c :: p, r, by rw [shape]; rfl, by rw [List.length_cons, length]⟩

/-- Later letters do not change where a word is found. -/
theorem find_stable {n : Nat} (found : find word s = some n) (t : List α) :
    find word (s ++ t) = some n := by
  induction s generalizing n with
  | nil =>
    rw [find] at found
    split at found
    · next empty =>
      cases found
      rw [empty]
      exact find_start List.nil_prefix
    · cases found
  | cons c s ih =>
    rw [find] at found
    split at found
    · next here =>
      cases found
      exact find_start (here.trans (List.prefix_append _ _))
    · next elsewhere =>
      obtain ⟨m, later, rfl⟩ := Option.map_eq_some_iff.mp found
      obtain ⟨p, r, shape, _⟩ := find_split later
      have long : word.length ≤ (c :: s).length := by
        rw [shape]
        simp only [List.length_cons, List.length_append]
        omega
      have still : ¬word <+: c :: (s ++ t) := fun here =>
        elsewhere (List.prefix_of_prefix_length_le here (List.prefix_append (c :: s) t) long)
      rw [List.cons_append, find, if_neg still, ih later]
      rfl

/-- The first occurrence is the one written behind a text, when none begins in that text. -/
theorem find_append {c : α} (clean : ¬ word ++ [c] <:+: p ++ word) (r : List α) :
    find (word ++ [c]) (p ++ (word ++ [c]) ++ r) = some p.length := by
  induction p with
  | nil =>
    apply find_start
    exact List.prefix_append _ r
  | cons d p ih =>
    have elsewhere : ¬ word ++ [c] <+: d :: (p ++ (word ++ [c]) ++ r) := by
      intro here
      apply clean
      have there : d :: p ++ word <+: d :: (p ++ (word ++ [c]) ++ r) := ⟨c :: r, by simp⟩
      exact (List.prefix_of_prefix_length_le here there (by simp)).isInfix
    rw [List.cons_append, List.cons_append, find, if_neg elsewhere,
      ih fun inside => clean (List.infix_cons_iff.mpr (.inr inside))]
    rfl

omit [DecidableEq α] in
/-- A word does not begin in a text without its first letter. -/
theorem infix_append_iff (clean : a ∉ p) : a :: word <:+: p ++ s ↔ a :: word <:+: s := by
  induction p with
  | nil => rfl
  | cons c p ih =>
    rw [List.mem_cons, not_or] at clean
    rw [List.cons_append, List.infix_cons_iff, ih clean.2, List.cons_prefix_cons]
    constructor
    · rintro (⟨same, _⟩ | inside)
      · exact absurd same clean.1
      · exact inside
    · exact .inr

/-- Where a word is found first, no part of the text before it has one. -/
theorem find_last {c : α} (found : find (word ++ [c]) (p ++ (word ++ [c])) = some p.length) :
    ¬ word ++ [c] <:+: p ++ word := by
  intro inside
  cases early : find (word ++ [c]) (p ++ word) with
  | none => exact find_none.mp early inside
  | some n =>
    obtain ⟨q, r, shape, size⟩ := find_split early
    have same := find_stable early [c]
    rw [List.append_assoc, found] at same
    obtain rfl := Option.some.inj same
    have length := congrArg List.length shape
    simp only [List.length_append, List.length_singleton] at length
    omega

section Lines

/-- Lines behind another one. -/
def behind (a b : α) (ls : List (List α)) : List α := ls.flatMap fun l => a :: b :: l

omit [DecidableEq α] in
@[simp] theorem behind_nil : behind a b [] = [] := rfl

omit [DecidableEq α] in
@[simp] theorem behind_cons (l : List α) (ls : List (List α)) :
    behind a b (l :: ls) = a :: b :: (l ++ behind a b ls) := rfl

omit [DecidableEq α] in
/-- No line end is followed by a letter that no line starts with. -/
theorem behind_avoids (differ : a ≠ b) {c : α} {ls : List (List α)}
    (each : ∀ l ∈ ls, a ∉ l ∧ ∃ d m, l = d :: m ∧ d ≠ c)
    (end_avoids : ¬ a :: b :: c :: word <:+: t) : ¬ a :: b :: c :: word <:+: behind a b ls ++ t := by
  induction ls with
  | nil => exact end_avoids
  | cons l ls ih =>
    obtain ⟨clean, d, m, rfl, other⟩ := each l List.mem_cons_self
    rw [behind_cons, List.cons_append, List.cons_append, List.infix_cons_iff, not_or]
    constructor
    · intro here
      have second := (List.cons_prefix_cons.mp here).2
      exact other (List.cons_prefix_cons.mp (List.cons_prefix_cons.mp second).2).1.symm
    · have open_line : a ∉ b :: d :: m := by
        rw [List.mem_cons, not_or]
        exact ⟨differ, clean⟩
      rw [List.append_assoc, ← List.cons_append, infix_append_iff open_line]
      exact ih fun l member => each l (List.mem_cons_of_mem _ member)

omit [DecidableEq α] in
/-- Between lines that have letters there is no empty line. -/
theorem no_empty_line (differ : a ≠ b) {ls : List (List α)} (each : ∀ l ∈ ls, l ≠ [] ∧ a ∉ l)
    {l : List α} (clean : a ∉ l) : ¬ [a, b, a, b] <:+: l ++ behind a b ls ++ [a, b, a] := by
  rw [List.append_assoc, infix_append_iff clean]
  apply behind_avoids differ
  · intro m member
    obtain ⟨letters, foreign⟩ := each m member
    obtain ⟨d, m, rfl⟩ := List.exists_cons_of_ne_nil letters
    exact ⟨foreign, d, m, rfl, fun same => foreign (same ▸ List.mem_cons_self)⟩
  · intro inside
    simpa using inside.length_le

omit [DecidableEq α] in
@[simp] theorem behind_append (ls ms : List (List α)) :
    behind a b (ls ++ ms) = behind a b ls ++ behind a b ms := by simp [behind]

omit [DecidableEq α] in
theorem infix_append_of_clean {c : α} (clean : ¬ [a, b] <:+: p) (starts : s = [] ∨ ∃ t, s = a :: t)
    (differ : a ≠ b) : [a, b, c] <:+: p ++ s ↔ [a, b, c] <:+: s := by
  induction p with
  | nil => rfl
  | cons d p ih =>
    rw [List.infix_cons_iff, not_or] at clean
    rw [List.cons_append, List.infix_cons_iff, ih clean.2]
    refine or_iff_right fun here => ?_
    obtain ⟨rfl, second⟩ := List.cons_prefix_cons.mp here
    cases p with
    | nil =>
      rcases starts with rfl | ⟨t, rfl⟩
      · simp at second
      · exact differ (List.cons_prefix_cons.mp second).1.symm
    | cons e p =>
      obtain ⟨rfl, _⟩ := List.cons_prefix_cons.mp second
      exact clean.1 ⟨p, rfl⟩

omit [DecidableEq α] in
theorem behind_starts (ls : List (List α)) : behind a b ls = [] ∨ ∃ t, behind a b ls = a :: t := by
  cases ls with
  | nil => exact .inl rfl
  | cons l ls => exact .inr ⟨_, rfl⟩

omit [DecidableEq α] in
/-- A line end with a certain letter behind it is the start of a line with that letter. -/
theorem infix_behind_iff (differ : a ≠ b) {c : α} (other : c ≠ a) {ls : List (List α)}
    (clean : ∀ l ∈ ls, ¬ [a, b] <:+: l) :
    [a, b, c] <:+: behind a b ls ↔ ∃ l ∈ ls, l.head? = some c := by
  induction ls with
  | nil => simp
  | cons l ls ih =>
    have first : [a, b, c] <+: a :: b :: (l ++ behind a b ls) ↔ l.head? = some c := by
      rw [List.cons_prefix_cons, List.cons_prefix_cons]
      simp only [true_and]
      cases l with
      | nil =>
        rcases behind_starts (a := a) (b := b) ls with empty | ⟨t, starts⟩
        · simp [empty]
        · simp [starts, other]
      | cons d l => simp [eq_comm]
    have second : [a, b, c] <:+: b :: (l ++ behind a b ls) ↔ [a, b, c] <:+: behind a b ls := by
      rw [List.infix_cons_iff, List.cons_prefix_cons,
        infix_append_of_clean (clean l List.mem_cons_self) (behind_starts ls) differ]
      exact or_iff_right fun here => differ here.1
    rw [behind_cons, List.infix_cons_iff, first, second,
      ih fun m member => clean m (List.mem_cons_of_mem l member)]
    simp

omit [DecidableEq α] in
theorem empty_line (t : List α) {ls : List (List α)} (empty : [] ∈ ls) :
    [a, b, a, b] <:+: p ++ behind a b ls ++ a :: b :: t := by
  obtain ⟨front, back, rfl⟩ := List.append_of_mem empty
  have next : ∃ u, behind a b back ++ a :: b :: t = a :: b :: u := by
    cases back with
    | nil => exact ⟨t, rfl⟩
    | cons l back => exact ⟨_, rfl⟩
  obtain ⟨u, next⟩ := next
  refine ⟨p ++ behind a b front, u, ?_⟩
  simp [next]

open Framing in
/-- A text behind a line end, by its lines. -/
theorem behind_drain (differ : a ≠ b) (s : List α) : a :: b :: s =
    behind a b (((delimited a b differ).drain s).1 ++ [((delimited a b differ).drain s).2]) := by
  induction s using Cutter.drain_induction (c := delimited a b differ) with
  | last s cut =>
    rw [Cutter.drain_none cut]
    simp
  | next s f r cut ih =>
    rw [Cutter.drain_some cut, cutAt_eq cut, List.cons_append, behind_cons, ← ih]

open Framing in
theorem drain_clean (differ : a ≠ b) (s : List α) :
    ∀ l ∈ ((delimited a b differ).drain s).1 ++ [((delimited a b differ).drain s).2], ¬ [a, b] <:+: l := by
  induction s using Cutter.drain_induction (c := delimited a b differ) with
  | last s cut =>
    rw [Cutter.drain_none cut]
    intro l member
    obtain rfl := List.mem_singleton.mp member
    exact cutAt_none.mp cut
  | next s f r cut ih =>
    rw [Cutter.drain_some cut]
    intro l member
    rcases List.mem_cons.mp member with rfl | later
    · exact cutAt_clean cut
    · exact ih l later

open Framing in
theorem drain_behind (differ : a ≠ b) {l : List α} {ls : List (List α)}
    (clean : ∀ m ∈ l :: ls, ¬ [a, b] <:+: m) : (delimited a b differ).drain (l ++ behind a b ls) =
      ((l :: ls).dropLast, (l :: ls).getLast (List.cons_ne_nil l ls)) := by
  induction ls generalizing l with
  | nil =>
    rw [behind_nil, List.append_nil]
    exact Cutter.drain_none (cutAt_none.mpr (clean l List.mem_cons_self))
  | cons m ls ih =>
    have cut : (delimited a b differ).cut (l ++ behind a b (m :: ls)) = some (l, m ++ behind a b ls) :=
      cutAt_append differ (clean l List.mem_cons_self) _
    rw [Cutter.drain_some cut, ih fun n member => clean n (List.mem_cons_of_mem l member)]
    simp

end Lines

end Lib.Search
