import Mathlib.Data.List.Basic
import Mathlib.Data.List.Infix
import Mathlib.Tactic.Common

/-! Cutting a byte stream into frames. A cutter takes the first frame off a buffer once all
of it is there. Draining a buffer does not depend on how the bytes came in. -/
namespace Lib.Framing

variable {α F : Type*}

structure Cutter (α F : Type*) where
  cut : List α → Option (F × List α)
  shorter : ∀ {s f r}, cut s = some (f, r) → r.length < s.length
  /-- Later bytes do not change a frame that is complete. -/
  stable : ∀ {s f r} (t), cut s = some (f, r) → cut (s ++ t) = some (f, r ++ t)

namespace Cutter

variable (c : Cutter α F)

def drainFrom : Nat → List α → List F × List α
  | 0, s => ([], s)
  | n + 1, s =>
    match c.cut s with
    | none => ([], s)
    | some (f, r) => (f :: (drainFrom n r).1, (drainFrom n r).2)

/-- All complete frames of a buffer, and what is left. -/
def drain (s : List α) : List F × List α := c.drainFrom s.length s

variable {c}

theorem cut_nil : c.cut [] = none := by
  cases cut : c.cut [] with
  | none => rfl
  | some p => exact absurd (c.shorter cut) (Nat.not_lt_zero _)

theorem drainFrom_none (n : Nat) {s : List α} (cut : c.cut s = none) :
    c.drainFrom n s = ([], s) := by
  cases n with
  | zero => rfl
  | succ n => rw [drainFrom, cut]

theorem drainFrom_some (n : Nat) {s r : List α} {f : F} (cut : c.cut s = some (f, r)) :
    c.drainFrom (n + 1) s = (f :: (c.drainFrom n r).1, (c.drainFrom n r).2) := by
  rw [drainFrom, cut]

theorem drainFrom_enough {n : Nat} {s : List α} (enough : s.length ≤ n) :
    c.drainFrom n s = c.drain s := by
  suffices step : ∀ n m s, s.length ≤ n → s.length ≤ m → c.drainFrom n s = c.drainFrom m s from
    step n s.length s enough (Nat.le_refl _)
  intro n
  induction n with
  | zero =>
    intro m s low _
    obtain rfl := List.length_eq_zero_iff.mp (Nat.le_zero.mp low)
    exact (drainFrom_none m cut_nil).symm
  | succ n ih =>
    intro m s low high
    cases m with
    | zero =>
      obtain rfl := List.length_eq_zero_iff.mp (Nat.le_zero.mp high)
      exact drainFrom_none (n + 1) cut_nil
    | succ m =>
      cases cut : c.cut s with
      | none => rw [drainFrom_none _ cut, drainFrom_none _ cut]
      | some p =>
        have less := c.shorter cut
        have same := ih m p.2 (by omega) (by omega)
        rw [drainFrom_some n cut, drainFrom_some m cut, same]

theorem drain_none {s : List α} (cut : c.cut s = none) : c.drain s = ([], s) :=
  drainFrom_none s.length cut

theorem drain_some {s r : List α} {f : F} (cut : c.cut s = some (f, r)) :
    c.drain s = (f :: (c.drain r).1, (c.drain r).2) := by
  have less := c.shorter cut
  cases s with
  | nil => exact absurd less (Nat.not_lt_zero _)
  | cons a s =>
    rw [List.length_cons] at less
    rw [drain, List.length_cons, drainFrom_some _ cut, drainFrom_enough (by omega)]

/-- Induction along the frames of a buffer. -/
theorem drain_induction {P : List α → Prop} (last : ∀ s, c.cut s = none → P s)
    (next : ∀ s f r, c.cut s = some (f, r) → P r → P s) (s : List α) : P s := by
  induction length : s.length using Nat.strong_induction_on generalizing s with
  | _ n ih =>
    cases cut : c.cut s with
    | none => exact last s cut
    | some p =>
      have less := c.shorter cut
      exact next s p.1 p.2 cut (ih _ (length ▸ less) p.2 rfl)

theorem cut_drain (s : List α) : c.cut (c.drain s).2 = none := by
  induction s using drain_induction (c := c) with
  | last s cut => rw [drain_none cut, cut]
  | next s f r cut ih => rw [drain_some cut]; exact ih

theorem drain_append (s t : List α) :
    c.drain (s ++ t) =
      ((c.drain s).1 ++ (c.drain ((c.drain s).2 ++ t)).1, (c.drain ((c.drain s).2 ++ t)).2) := by
  induction s using drain_induction (c := c) with
  | last s cut => simp [drain_none cut]
  | next s f r cut ih =>
    rw [drain_some (c.stable t cut), drain_some cut, ih]
    simp

/-- A concatenation of texts that each are one frame drains to these frames. -/
theorem drain_flatten {frames : List (List α × F)} (whole : ∀ p ∈ frames, ∀ t,
    c.cut (p.1 ++ t) = some (p.2, t)) (t : List α) :
    c.drain ((frames.map Prod.fst).flatten ++ t) =
      (frames.map Prod.snd ++ (c.drain t).1, (c.drain t).2) := by
  induction frames with
  | nil => simp
  | cons p frames ih =>
    rw [List.map_cons, List.flatten_cons, List.append_assoc,
      drain_some (whole p List.mem_cons_self _), ih fun q member => whole q (List.mem_cons_of_mem _ member)]
    simp

end Cutter

theorem exists_piece {pieces : List (List α)} {n : Nat} (positive : 0 < n)
    (enough : n ≤ pieces.flatten.length) :
    ∃ before piece after, pieces = before ++ piece :: after ∧ before.flatten.length < n ∧
      n ≤ (before.flatten ++ piece).length := by
  induction pieces generalizing n with
  | nil => exact absurd enough (Nat.not_le.mpr positive)
  | cons piece pieces ih =>
    by_cases here : n ≤ piece.length
    · exact ⟨[], piece, pieces, rfl, positive, here⟩
    · rw [List.flatten_cons, List.length_append] at enough
      obtain ⟨before, later, after, shape, low, high⟩ := ih (n := n - piece.length) (by omega) (by omega)
      rw [List.length_append] at high
      refine ⟨piece :: before, later, after, by rw [shape]; rfl, ?_, ?_⟩
      · rw [List.flatten_cons, List.length_append]
        omega
      · rw [List.flatten_cons, List.length_append, List.length_append]
        omega

section Delimiter

variable [DecidableEq α] {a b : α}

/-- The text before the first `a b` and the text behind it. -/
def cutAt (a b : α) : List α → Option (List α × List α)
  | x :: y :: rest =>
    if x = a ∧ y = b then some ([], rest)
    else (cutAt a b (y :: rest)).map fun p => (x :: p.1, p.2)
  | _ => none

@[simp] theorem cutAt_nil : cutAt a b [] = none := rfl

@[simp] theorem cutAt_singleton (x : α) : cutAt a b [x] = none := rfl

theorem cutAt_here (rest : List α) : cutAt a b (a :: b :: rest) = some ([], rest) := by
  rw [cutAt, if_pos ⟨rfl, rfl⟩]

theorem cutAt_step {x y : α} {rest : List α} (other : ¬ (x = a ∧ y = b)) :
    cutAt a b (x :: y :: rest) = (cutAt a b (y :: rest)).map fun p => (x :: p.1, p.2) := by
  rw [cutAt, if_neg other]

theorem cutAt_eq {s p r : List α} (cut : cutAt a b s = some (p, r)) : s = p ++ a :: b :: r := by
  induction s generalizing p r with
  | nil => simp at cut
  | cons x s ih =>
    cases s with
    | nil => simp at cut
    | cons y rest =>
      by_cases here : x = a ∧ y = b
      · obtain ⟨rfl, rfl⟩ := here
        rw [cutAt_here] at cut
        cases cut
        rfl
      · rw [cutAt_step here, Option.map_eq_some_iff] at cut
        obtain ⟨⟨p', r'⟩, inner, shape⟩ := cut
        cases shape
        rw [ih inner]
        rfl

theorem cutAt_none {s : List α} : cutAt a b s = none ↔ ¬ [a, b] <:+: s := by
  induction s with
  | nil => simp
  | cons x s ih =>
    cases s with
    | nil =>
      refine iff_of_true rfl fun occurs => ?_
      have := occurs.length_le
      simp at this
    | cons y rest =>
      rw [List.infix_cons_iff, List.cons_prefix_cons, List.cons_prefix_cons]
      by_cases here : x = a ∧ y = b
      · obtain ⟨rfl, rfl⟩ := here
        simp [cutAt_here]
      · rw [cutAt_step here, Option.map_eq_none_iff, ih]
        constructor
        · rintro none (⟨rfl, rfl, _⟩ | inside)
          · exact here ⟨rfl, rfl⟩
          · exact none inside
        · exact fun none inside => none (.inr inside)

/-- The first delimiter is the one written behind a text that has none. -/
theorem cutAt_append (differ : a ≠ b) {p : List α} (clean : ¬ [a, b] <:+: p) (r : List α) :
    cutAt a b (p ++ a :: b :: r) = some (p, r) := by
  induction p with
  | nil => exact cutAt_here r
  | cons x p ih =>
    rw [List.infix_cons_iff, not_or] at clean
    cases p with
    | nil =>
      have other : ¬ (x = a ∧ a = b) := fun both => differ both.2
      rw [List.singleton_append, cutAt_step other, ← List.nil_append (a :: b :: r), ih clean.2]
      rfl
    | cons y p =>
      have other : ¬ (x = a ∧ y = b) := by
        rintro ⟨rfl, rfl⟩
        exact clean.1 ⟨p, rfl⟩
      rw [List.cons_append, List.cons_append, cutAt_step other, ← List.cons_append, ih clean.2]
      rfl

theorem cutAt_clean {s p r : List α} (cut : cutAt a b s = some (p, r)) :
    ¬ [a, b] <:+: p := by
  induction s generalizing p r with
  | nil => simp at cut
  | cons x s ih =>
    cases s with
    | nil => simp at cut
    | cons y rest =>
      by_cases here : x = a ∧ y = b
      · obtain ⟨rfl, rfl⟩ := here
        rw [cutAt_here] at cut
        cases cut
        simp
      · rw [cutAt_step here, Option.map_eq_some_iff] at cut
        obtain ⟨⟨p', r'⟩, inner, shape⟩ := cut
        cases shape
        rw [List.infix_cons_iff, not_or]
        refine ⟨fun starts => ?_, ih inner⟩
        have text := cutAt_eq inner
        cases p' with
        | nil => simp at starts
        | cons z p' =>
          obtain ⟨first, later⟩ := List.cons_prefix_cons.mp starts
          have second := (List.cons_prefix_cons.mp later).1
          exact here ⟨first.symm, (List.cons.inj text).1.trans second.symm⟩

/-- A frame that starts with a text free of the delimiter's end is that text, or goes on
behind it with the delimiter's start. -/
theorem cutAt_behind (differ : a ≠ b) {p t : List α} (clean : b ∉ p)
    (ends : [a, b] <:+: p ++ a :: t) :
    ∃ q r, cutAt a b (p ++ a :: t) = some (q, r) ∧ (q = p ∨ ∃ u, q = p ++ a :: u) := by
  obtain ⟨⟨q, r⟩, cut⟩ : ∃ f, cutAt a b (p ++ a :: t) = some f := by
    rw [← Option.isSome_iff_exists, Option.isSome_iff_ne_none]
    exact fun none => cutAt_none.mp none ends
  refine ⟨q, r, cut, ?_⟩
  clear ends
  induction p generalizing q with
  | nil =>
    cases q with
    | nil => exact .inl rfl
    | cons c q => exact .inr ⟨q, by rw [(List.cons.inj (cutAt_eq cut)).1]; rfl⟩
  | cons c p ih =>
    rw [List.mem_cons, not_or] at clean
    have later (d : α) (rest : List α) (shape : p ++ a :: t = d :: rest) : ¬ (c = a ∧ d = b) := by
      rintro ⟨_, rfl⟩
      cases p with
      | nil => exact differ (List.cons.inj shape).1
      | cons e p => exact clean.2 ((List.cons.inj shape).1 ▸ List.mem_cons_self)
    obtain ⟨d, rest, shape⟩ : ∃ d rest, p ++ a :: t = d :: rest :=
      List.exists_cons_of_ne_nil (by simp)
    rw [List.cons_append, shape, cutAt_step (later d rest shape), ← shape,
      Option.map_eq_some_iff] at cut
    obtain ⟨⟨q', r'⟩, inner, same⟩ := cut
    cases same
    rcases ih clean.2 q' inner with rfl | ⟨u, rfl⟩
    · exact .inl rfl
    · exact .inr ⟨u, rfl⟩

/-- Frames that end with the delimiter, which they do not include. -/
def delimited (a b : α) (differ : a ≠ b) : Cutter α (List α) where
  cut := cutAt a b
  shorter cut := by
    rw [cutAt_eq cut]
    simp
    omega
  stable t cut := by
    rw [cutAt_eq cut, List.append_assoc]
    exact cutAt_append differ (cutAt_clean cut) _

section Lines

variable (differ : a ≠ b)

/-- Texts each followed by the delimiter. -/
def lines (a b : α) (ls : List (List α)) : List α := (ls.map fun l => l ++ [a, b]).flatten

omit [DecidableEq α] in
@[simp] theorem lines_nil : lines a b [] = [] := rfl

omit [DecidableEq α] in
@[simp] theorem lines_cons (l : List α) (ls : List (List α)) :
    lines a b (l :: ls) = l ++ a :: b :: lines a b ls := by simp [lines]

omit [DecidableEq α] in
@[simp] theorem lines_append (ls ms : List (List α)) :
    lines a b (ls ++ ms) = lines a b ls ++ lines a b ms := by simp [lines]

theorem drain_lines {ls : List (List α)} (clean : ∀ l ∈ ls, ¬ [a, b] <:+: l) (t : List α) :
    (delimited a b differ).drain (lines a b ls ++ t) =
      (ls ++ ((delimited a b differ).drain t).1, ((delimited a b differ).drain t).2) := by
  induction ls with
  | nil => rfl
  | cons l ls ih =>
    have cut : (delimited a b differ).cut (lines a b (l :: ls) ++ t) = some (l, lines a b ls ++ t) := by
      rw [lines_cons, List.append_assoc]
      exact cutAt_append differ (clean l List.mem_cons_self) _
    rw [Cutter.drain_some cut, ih fun m member => clean m (List.mem_cons_of_mem l member)]
    rfl

theorem lines_drain (s : List α) :
    lines a b ((delimited a b differ).drain s).1 ++ ((delimited a b differ).drain s).2 = s := by
  induction s using Cutter.drain_induction (c := delimited a b differ) with
  | last s cut => rw [Cutter.drain_none cut]; rfl
  | next s f r cut ih =>
    rw [Cutter.drain_some cut, lines_cons, List.append_assoc, cutAt_eq cut]
    simp only [List.cons_append, ih]

end Lines

end Delimiter

end Lib.Framing
