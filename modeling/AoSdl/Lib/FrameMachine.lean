import AoSdl.Lib.Framing

/-! Reading frames off a stream by a machine that may fail. What one read has yielded is handed
over when the read ends well and lost when it fails, and a failure closes the connection. -/
namespace Lib.FrameMachine

open Lib.Framing

/-- A step takes a frame. It yields values, or fails. -/
structure Machine (σ F M : Type*) where
  step : σ → F → σ × Option (List M)

variable {α σ F M : Type*}

namespace Machine

variable (m : Machine σ F M)

def run : σ → List F → σ × Option (List M)
  | st, [] => (st, some [])
  | st, f :: fs =>
    match m.step st f with
    | (st, none) => (st, none)
    | (st, some ms) => ((run st fs).1, (run st fs).2.map (ms ++ ·))

/-- What the frames yield before the first that fails. -/
def before : σ → List F → List M
  | _, [] => []
  | st, f :: fs =>
    match m.step st f with
    | (_, none) => []
    | (st, some ms) => ms ++ before st fs

variable {m}

theorem run_cons (st : σ) (f : F) (fs : List F) : m.run st (f :: fs) =
    match m.step st f with
    | (st, none) => (st, none)
    | (st, some ms) => ((m.run st fs).1, (m.run st fs).2.map (ms ++ ·)) := rfl

theorem before_cons (st : σ) (f : F) (fs : List F) : m.before st (f :: fs) =
    match m.step st f with
    | (_, none) => []
    | (st, some ms) => ms ++ m.before st fs := rfl

section Cons

variable {st st' : σ} {f : F} {ms : List M}

theorem run_cons_none (stepped : m.step st f = (st', none)) (fs : List F) :
    m.run st (f :: fs) = (st', none) := by rw [run_cons, stepped]

theorem run_cons_some (stepped : m.step st f = (st', some ms)) (fs : List F) :
    m.run st (f :: fs) = ((m.run st' fs).1, (m.run st' fs).2.map (ms ++ ·)) := by rw [run_cons, stepped]

theorem before_cons_none (stepped : m.step st f = (st', none)) (fs : List F) :
    m.before st (f :: fs) = [] := by rw [before_cons, stepped]

theorem before_cons_some (stepped : m.step st f = (st', some ms)) (fs : List F) :
    m.before st (f :: fs) = ms ++ m.before st' fs := by rw [before_cons, stepped]

end Cons

theorem before_eq {st : σ} {fs : List F} {ms : List M} (ran : (m.run st fs).2 = some ms) :
    m.before st fs = ms := by
  induction fs generalizing st ms with
  | nil => exact Option.some.inj ran
  | cons f fs ih =>
    rw [run_cons] at ran
    rw [before_cons]
    split at ran
    · cases ran
    · next st' first stepped =>
      obtain ⟨later, inner, shape⟩ := Option.map_eq_some_iff.mp ran
      rw [ih inner]
      exact shape

theorem run_append {st : σ} {fs : List F} {ms : List M} (ran : (m.run st fs).2 = some ms)
    (gs : List F) : m.run st (fs ++ gs) =
      ((m.run (m.run st fs).1 gs).1, (m.run (m.run st fs).1 gs).2.map (ms ++ ·)) := by
  induction fs generalizing st ms with
  | nil =>
    obtain rfl := Option.some.inj ran
    simp [run]
  | cons f fs ih =>
    rw [run_cons] at ran
    rw [List.cons_append, run_cons, run_cons]
    split at ran
    · cases ran
    · next st' first stepped =>
      obtain ⟨later, inner, rfl⟩ := Option.map_eq_some_iff.mp ran
      simp only [ih inner, Option.map_map]
      congr 2
      funext rest
      exact (List.append_assoc first later rest).symm

theorem run_append_none {st : σ} {fs : List F} (failed : (m.run st fs).2 = none) (gs : List F) :
    (m.run st (fs ++ gs)).2 = none := by
  induction fs generalizing st with
  | nil => cases failed
  | cons f fs ih =>
    rw [run_cons] at failed
    rw [List.cons_append, run_cons]
    split at failed
    · rfl
    · simp only [ih (Option.map_eq_none_iff.mp failed), Option.map_none]

theorem before_append (st : σ) (fs gs : List F) :
    m.before st (fs ++ gs) = m.before st fs ++
      if (m.run st fs).2 = none then [] else m.before (m.run st fs).1 gs := by
  induction fs generalizing st with
  | nil => simp [before, run]
  | cons f fs ih =>
    rw [List.cons_append, before_cons, before_cons, run_cons]
    cases stepped : m.step st f with
    | mk st' out =>
      cases out with
      | none => simp
      | some ms => simp [ih, Option.map_eq_none_iff, List.append_assoc]

end Machine

section Reading

variable (c : Cutter α F) (m : Machine σ F M)

/-- A connection is closed, or has a state and bytes that are no whole frame yet. -/
abbrev Connection (α σ : Type*) := Option (σ × List α)

def read : Connection α σ → List α → Connection α σ × List M
  | none, _ => (none, [])
  | some (st, buf), chunk =>
    match m.run st (c.drain (buf ++ chunk)).1 with
    | (_, none) => (none, [])
    | (st, some ms) => (some (st, (c.drain (buf ++ chunk)).2), ms)

/-- What a sequence of reads hands over. -/
def deliver : Connection α σ → List (List α) → List M
  | _, [] => []
  | conn, chunk :: chunks => (read c m conn chunk).2 ++ deliver (read c m conn chunk).1 chunks

variable {c m}

theorem deliver_none (chunks : List (List α)) : deliver c m none chunks = [] := by
  induction chunks with
  | nil => rfl
  | cons chunk chunks ih => rw [deliver, read]; exact ih

/-- Without a failure everything is handed over, however the bytes come in. -/
theorem deliver_all {st : σ} {buf : List α} {chunks : List (List α)} {ms : List M}
    (drained : c.cut buf = none) (ran : (m.run st (c.drain (buf ++ chunks.flatten)).1).2 = some ms) :
    deliver c m (some (st, buf)) chunks = ms := by
  induction chunks generalizing st buf ms with
  | nil =>
    rw [List.flatten_nil, List.append_nil, Cutter.drain_none drained] at ran
    exact Option.some.inj ran
  | cons chunk chunks ih =>
    rw [List.flatten_cons, ← List.append_assoc, Cutter.drain_append] at ran
    cases first : m.run st (c.drain (buf ++ chunk)).1 with
    | mk st' out =>
      cases out with
      | none =>
        rw [Machine.run_append_none (by rw [first])] at ran
        cases ran
      | some here =>
        have front : (m.run st (c.drain (buf ++ chunk)).1).2 = some here := by rw [first]
        rw [Machine.run_append front, first] at ran
        obtain ⟨later, inner, rfl⟩ := Option.map_eq_some_iff.mp ran
        rw [deliver, read]
        simp only [first]
        rw [ih (Cutter.cut_drain _) inner]

/-- If nothing is yielded before the failure, nothing is handed over. -/
theorem deliver_nothing {st : σ} {buf : List α} {chunks : List (List α)}
    (nothing : m.before st (c.drain (buf ++ chunks.flatten)).1 = []) :
    deliver c m (some (st, buf)) chunks = [] := by
  induction chunks generalizing st buf with
  | nil => rfl
  | cons chunk chunks ih =>
    rw [List.flatten_cons, ← List.append_assoc, Cutter.drain_append, Machine.before_append] at nothing
    obtain ⟨quiet, rest⟩ := List.append_eq_nil_iff.mp nothing
    rw [deliver, read]
    cases first : m.run st (c.drain (buf ++ chunk)).1 with
    | mk st' out =>
      cases out with
      | none => exact deliver_none chunks
      | some here =>
        have front : (m.run st (c.drain (buf ++ chunk)).1).2 = some here := by rw [first]
        have same := Machine.before_eq front
        rw [quiet] at same
        rw [first] at rest
        simp only [reduceCtorEq, if_false] at rest
        rw [← same]
        exact ih rest

/-- A frame is complete with the bytes that are taken off for it. -/
def Exact (c : Cutter α F) : Prop :=
  ∀ s f r, c.cut s = some (f, r) → ∃ p, s = p ++ r ∧ c.cut p = some (f, [])

/-- A failing stream can be cut just before the frame that fails. -/
theorem cut_before_failure (exact_cut : Exact c) {st : σ} {s : List α}
    (fails : (m.run st (c.drain s).1).2 = none) :
    ∃ p q, s = p ++ q ∧ (c.drain p).2 = [] ∧
      (m.run st (c.drain p).1).2 = some (m.before st (c.drain s).1) := by
  induction s using Cutter.drain_induction (c := c) generalizing st with
  | last s cut =>
    rw [Cutter.drain_none cut] at fails
    cases fails
  | next s f r cut ih =>
    have none_left : c.drain [] = ([], []) := Cutter.drain_none Cutter.cut_nil
    rw [Cutter.drain_some cut, Machine.run_cons] at fails
    rw [Cutter.drain_some cut, Machine.before_cons]
    cases stepped : m.step st f with
    | mk st' out =>
      cases out with
      | none => exact ⟨[], s, rfl, by rw [none_left], by rw [none_left, Machine.run]⟩
      | some here =>
        simp only [stepped, Option.map_eq_none_iff] at fails
        obtain ⟨p, q, r_eq, left, ran⟩ := ih fails
        obtain ⟨front, s_eq, whole⟩ := exact_cut s f r cut
        have cut_front : c.cut (front ++ p) = some (f, p) := c.stable p whole
        refine ⟨front ++ p, q, by rw [s_eq, r_eq, List.append_assoc], ?_, ?_⟩
        · rw [Cutter.drain_some cut_front, left]
        · rw [Cutter.drain_some cut_front, Machine.run_cons, stepped]
          simp only [ran, Option.map_some]

/-- Every way to cut a stream hands over the same exactly if the stream does not fail behind
frames that yield something. -/
theorem deliver_agree_iff (exact_cut : Exact c) (st : σ) (s : List α) :
    (∀ chunks chunks' : List (List α), chunks.flatten = s → chunks'.flatten = s →
        deliver c m (some (st, [])) chunks = deliver c m (some (st, [])) chunks') ↔
      ((m.run st (c.drain s).1).2 = none → m.before st (c.drain s).1 = []) := by
  constructor
  · intro agree fails
    obtain ⟨p, q, rfl, left, ran⟩ := cut_before_failure exact_cut fails
    have at_once : deliver c m (some (st, [])) [p ++ q] = [] := by
      simp only [deliver, read, List.nil_append, List.append_nil]
      cases first : m.run st (c.drain (p ++ q)).1 with
      | mk st' out =>
        rw [first] at fails
        obtain rfl : out = none := fails
        rfl
    have before_close : deliver c m (some (st, [])) [p, q] =
        m.before st (c.drain (p ++ q)).1 ++ deliver c m (read c m (some (st, [])) p).1 [q] := by
      rw [deliver]
      congr 1
      rw [read, List.nil_append]
      cases first : m.run st (c.drain p).1 with
      | mk st' out =>
        rw [first] at ran
        obtain rfl : out = _ := ran
        rfl
    have same := agree [p ++ q] [p, q] (by simp) (by simp)
    rw [at_once, before_close] at same
    exact (List.append_eq_nil_iff.mp same.symm).1
  · intro fine chunks chunks' cuts cuts'
    cases ran : (m.run st (c.drain s).1).2 with
    | none =>
      rw [deliver_nothing (by rw [List.nil_append, cuts]; exact fine ran),
        deliver_nothing (by rw [List.nil_append, cuts']; exact fine ran)]
    | some ms =>
      rw [deliver_all Cutter.cut_nil (by rw [List.nil_append, cuts]; exact ran),
        deliver_all Cutter.cut_nil (by rw [List.nil_append, cuts']; exact ran)]

end Reading

end Lib.FrameMachine
