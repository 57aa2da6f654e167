import Mathlib.Data.List.Basic
import Mathlib.Data.Nat.Notation
import Mathlib.Order.Defs.PartialOrder
import Mathlib.Tactic.Common

/-! Runs of a deterministic transition function over a list of inputs: invariants, the exact side
condition under which a property of states survives a run, and invariants of runs in time. -/
namespace Lib.Runs

variable {S O : Type*}

/-- The state after a list of inputs. -/
def run (step : S → O → S) (s : S) (inputs : List O) : S := inputs.foldl step s

@[simp] theorem run_nil (step : S → O → S) (s : S) : run step s [] = s := rfl

@[simp] theorem run_cons (step : S → O → S) (s : S) (o : O) (rest : List O) :
    run step s (o :: rest) = run step (step s o) rest := rfl

theorem run_append (step : S → O → S) (s : S) (front rest : List O) :
    run step s (front ++ rest) = run step (run step s front) rest := List.foldl_append

/-- `P` holds in every state the run reaches, the first one included. -/
def Always (step : S → O → S) (P : S → Prop) : S → List O → Prop
  | s, [] => P s
  | s, o :: rest => P s ∧ Always step P (step s o) rest

/-- Every input of the run meets `C` in the state it is applied to. -/
def Throughout (step : S → O → S) (C : S → O → Prop) : S → List O → Prop
  | _, [] => True
  | s, o :: rest => C s o ∧ Throughout step C (step s o) rest

instance decidableThroughout {step : S → O → S} {C : S → O → Prop} [∀ s o, Decidable (C s o)] :
    (s : S) → (inputs : List O) → Decidable (Throughout step C s inputs)
  | _, [] => inferInstanceAs (Decidable True)
  | s, o :: rest =>
    have : Decidable (Throughout step C (step s o) rest) := decidableThroughout (step s o) rest
    inferInstanceAs (Decidable (C s o ∧ Throughout step C (step s o) rest))

/-- An input meets `C` in the state that the inputs before it lead to. -/
theorem Throughout.at {step : S → O → S} {C : S → O → Prop} {s : S} {front rest : List O} {o : O}
    (meets : Throughout step C s (front ++ o :: rest)) : C (run step s front) o := by
  induction front generalizing s with
  | nil => exact meets.1
  | cons a front ih => exact ih meets.2

theorem Always.head {step : S → O → S} {P : S → Prop} {s : S} {inputs : List O}
    (h : Always step P s inputs) : P s := by
  cases inputs with
  | nil => exact h
  | cons o rest => exact h.1

theorem Always.mono {step : S → O → S} {P Q : S → Prop} (weaker : ∀ s, P s → Q s) {s : S}
    {inputs : List O} (always : Always step P s inputs) : Always step Q s inputs := by
  induction inputs generalizing s with
  | nil => exact weaker s always
  | cons o rest ih => exact ⟨weaker s always.1, ih always.2⟩

theorem always_iff_isPrefix {step : S → O → S} {P : S → Prop} {s : S} {inputs : List O} :
    Always step P s inputs ↔ ∀ front, front <+: inputs → P (run step s front) := by
  induction inputs generalizing s with
  | nil => simp [Always]
  | cons o rest ih =>
    simp only [Always, ih]
    constructor
    · rintro ⟨here, later⟩ front inside
      cases front with
      | nil => exact here
      | cons a front =>
        obtain ⟨same, shorter⟩ := List.cons_prefix_cons.mp inside
        subst same
        exact later front shorter
    · intro all
      exact ⟨all [] (List.nil_prefix), fun front inside =>
        all (o :: front) (List.cons_prefix_cons.mpr ⟨rfl, inside⟩)⟩

/-- An invariant of single steps is an invariant of runs. -/
theorem invariant_run {step : S → O → S} {P : S → Prop}
    (preserved : ∀ s o, P s → P (step s o)) {s : S} (start : P s) (inputs : List O) :
    P (run step s inputs) := by
  induction inputs generalizing s with
  | nil => exact start
  | cons o rest ih => exact ih (preserved s o start)

/-- A rank that goes down until the goal is met says how long a run is long enough to meet it. -/
theorem run_of_rank {step : S → O → S} {Q : O → Prop} {I Goal : S → Prop} (rank : S → ℕ)
    (kept : ∀ s o, Q o → I s → I (step s o)) (stays : ∀ s o, Q o → I s → Goal s → Goal (step s o))
    (grounded : ∀ s, I s → rank s = 0 → Goal s)
    (falls : ∀ s o, Q o → I s → ¬Goal s → rank (step s o) < rank s) {s : S} {inputs : List O}
    (quiet : ∀ o ∈ inputs, Q o) (start : I s) (enough : Goal s ∨ rank s ≤ inputs.length) :
    Goal (run step s inputs) := by
  induction inputs generalizing s with
  | nil =>
    rcases enough with met | short
    · exact met
    · exact grounded s start (Nat.le_zero.mp short)
  | cons o rest ih =>
    have here : Q o := quiet o (List.mem_cons_self ..)
    apply ih (fun o' member => quiet o' (List.mem_cons_of_mem o member)) (kept s o here start)
    by_cases met : Goal s
    · exact .inl (stays s o here start met)
    · have lower := falls s o here start met
      have enough := enough.resolve_left met
      rw [List.length_cons] at enough
      exact .inr (by omega)

theorem always_of_invariant {step : S → O → S} {P : S → Prop}
    (preserved : ∀ s o, P s → P (step s o)) {s : S} (start : P s) (inputs : List O) :
    Always step P s inputs := by
  induction inputs generalizing s with
  | nil => exact start
  | cons o rest ih => exact ⟨start, ih (preserved s o start)⟩

/-- Preservation under a side condition on the inputs. -/
theorem always_of_throughout {step : S → O → S} {P : S → Prop} {C : S → O → Prop}
    (preserved : ∀ s o, P s → C s o → P (step s o)) {s : S} (start : P s) {inputs : List O}
    (meets : Throughout step C s inputs) : Always step P s inputs := by
  induction inputs generalizing s with
  | nil => exact start
  | cons o rest ih => exact ⟨start, ih (preserved s o start meets.1) meets.2⟩

/-- What an invariant gives of every step. -/
theorem throughout_of_invariant {step : S → O → S} {I : S → Prop} {P : S → O → Prop}
    (preserved : ∀ s o, I s → I (step s o)) (gives : ∀ s o, I s → P s o) {s : S} (start : I s)
    (inputs : List O) : Throughout step P s inputs := by
  induction inputs generalizing s with
  | nil => trivial
  | cons o rest ih => exact ⟨gives s o start, ih (preserved s o start)⟩

/-- The same under a side condition that also keeps the invariant. -/
theorem throughout_of_throughout {step : S → O → S} {I : S → Prop} {P C : S → O → Prop}
    (preserved : ∀ s o, I s → C s o → I (step s o)) (gives : ∀ s o, I s → C s o → P s o) {s : S}
    (start : I s) {inputs : List O} (meets : Throughout step C s inputs) :
    Throughout step P s inputs := by
  induction inputs generalizing s with
  | nil => trivial
  | cons o rest ih =>
    exact ⟨gives s o start meets.1, ih (preserved s o start meets.1) meets.2⟩

/-- When one step keeps `Q` exactly if the input meets `C`, a whole run keeps `Q`
exactly if all its inputs meet `C`. The auxiliary invariant `I` is kept by the
steps that meet `C`. -/
theorem always_iff_throughout {step : S → O → S} {I Q : S → Prop} {C : S → O → Prop}
    (kept : ∀ s o, I s → Q s → C s o → I (step s o))
    (exact_step : ∀ s o, I s → Q s → (Q (step s o) ↔ C s o))
    {s : S} (aux : I s) (start : Q s) (inputs : List O) :
    Always step Q s inputs ↔ Throughout step C s inputs := by
  induction inputs generalizing s with
  | nil => exact ⟨fun _ => trivial, fun _ => start⟩
  | cons o rest ih =>
    constructor
    · rintro ⟨_, later⟩
      have meets := (exact_step s o aux start).mp later.head
      exact ⟨meets, (ih (kept s o aux start meets) later.head).mp later⟩
    · rintro ⟨meets, later⟩
      have next := (exact_step s o aux start).mpr meets
      exact ⟨start, (ih (kept s o aux start meets) next).mpr later⟩

/-- The same for a property of states together with one of steps. -/
theorem always_and_throughout_iff {step : S → O → S} {I Q : S → Prop} {P C : S → O → Prop}
    (kept : ∀ s o, I s → I (step s o))
    (exact_step : ∀ s o, I s → Q s → (Q (step s o) ∧ P s o ↔ C s o))
    {s : S} (aux : I s) (start : Q s) (inputs : List O) :
    Always step Q s inputs ∧ Throughout step P s inputs ↔ Throughout step C s inputs := by
  induction inputs generalizing s with
  | nil => exact ⟨fun _ => trivial, fun _ => ⟨start, trivial⟩⟩
  | cons o rest ih =>
    constructor
    · rintro ⟨⟨_, later⟩, here, steps⟩
      have meets := (exact_step s o aux start).mp ⟨later.head, here⟩
      exact ⟨meets, (ih (kept s o aux) later.head).mp ⟨later, steps⟩⟩
    · rintro ⟨meets, later⟩
      obtain ⟨next, here⟩ := (exact_step s o aux start).mpr meets
      obtain ⟨states, steps⟩ := (ih (kept s o aux) next).mpr later
      exact ⟨⟨start, states⟩, here, steps⟩

/-- A property that a step keeps and gains exactly if its input meets `C`, and that does not come
back, holds at the end of a run exactly if it held at the start and all inputs meet `C`. -/
theorem run_iff_throughout {step : S → O → S} {I Q : S → Prop} {C : S → O → Prop}
    (kept : ∀ s o, I s → I (step s o)) (exact_step : ∀ s o, I s → (Q (step s o) ↔ Q s ∧ C s o))
    {s : S} (start : I s) (inputs : List O) :
    Q (run step s inputs) ↔ Q s ∧ Throughout step C s inputs := by
  induction inputs generalizing s with
  | nil => exact (and_iff_left trivial).symm
  | cons o rest ih =>
    rw [run_cons, ih (kept s o start), exact_step s o start, and_assoc]
    rfl

/-- The same for a property of steps: under the invariant `I` a step has `Q` exactly if its input
meets `C`, and it keeps `I` then. -/
theorem throughout_iff_throughout {step : S → O → S} {I : S → Prop} {Q C : S → O → Prop}
    (kept : ∀ s o, I s → C s o → I (step s o)) (exact_step : ∀ s o, I s → (Q s o ↔ C s o))
    {s : S} (start : I s) (inputs : List O) :
    Throughout step Q s inputs ↔ Throughout step C s inputs := by
  induction inputs generalizing s with
  | nil => exact Iff.rfl
  | cons o rest ih =>
    constructor
    · rintro ⟨here, later⟩
      have meets := (exact_step s o start).mp here
      exact ⟨meets, (ih (kept s o start meets)).mp later⟩
    · rintro ⟨meets, later⟩
      exact ⟨(exact_step s o start).mpr meets, (ih (kept s o start meets)).mpr later⟩

/-- Two systems related by a simulation meet corresponding side conditions on the same
inputs. -/
theorem throughout_iff_of_simulation {T : Type*} {step : S → O → S} {step' : T → O → T}
    {R : S → T → Prop} {C : S → O → Prop} {D : T → O → Prop}
    (agree : ∀ s t o, R s t → (C s o ↔ D t o))
    (simulates : ∀ s t o, R s t → C s o → R (step s o) (step' t o))
    {s : S} {t : T} (start : R s t) (inputs : List O) :
    Throughout step C s inputs ↔ Throughout step' D t inputs := by
  induction inputs generalizing s t with
  | nil => exact Iff.rfl
  | cons o rest ih =>
    constructor
    · rintro ⟨here, later⟩
      exact ⟨(agree s t o start).mp here, (ih (simulates s t o start here)).mp later⟩
    · rintro ⟨here, later⟩
      have same := (agree s t o start).mpr here
      exact ⟨same, (ih (simulates s t o start same)).mpr later⟩

section Timed

variable {T : Type*} [Preorder T]

/-- Some time comes before all of a run. -/
theorem exists_first [Nonempty T] {inputs : List (T × O)}
    (ordered : inputs.Pairwise fun e f => e.1 ≤ f.1) : ∃ first, ∀ e ∈ inputs, first ≤ e.1 := by
  cases inputs with
  | nil => exact ⟨Classical.arbitrary T, fun e member => absurd member List.not_mem_nil⟩
  | cons e rest => exact ⟨e.1, List.forall_mem_cons.mpr ⟨le_refl _, (List.pairwise_cons.mp ordered).1⟩⟩

/-- What an invariant of states at a time gives, if the steps that meet `C` take it to their time. -/
theorem always_timed {step : S → T × O → S} {I : T → S → Prop} {Q : S → Prop} {C : S → T × O → Prop}
    (gives : ∀ now s, I now s → Q s)
    (preserved : ∀ now s time o, I now s → now ≤ time → C s (time, o) → I time (step s (time, o)))
    {now : T} {s : S} (start : I now s) {inputs : List (T × O)}
    (ordered : inputs.Pairwise fun e f => e.1 ≤ f.1) (late : ∀ e ∈ inputs, now ≤ e.1)
    (meets : Throughout step C s inputs) : Always step Q s inputs := by
  induction inputs generalizing s now with
  | nil => exact gives now s start
  | cons e rest ih =>
    obtain ⟨first, sorted⟩ := List.pairwise_cons.mp ordered
    have next := preserved now s e.1 e.2 start (late e List.mem_cons_self) meets.1
    exact ⟨gives now s start, ih next sorted first meets.2⟩

end Timed

end Lib.Runs

/-! Runs that do not end, with one input at each time: invariants, and what a run comes to when some inputs that bring
it nearer always come again. -/
namespace Lib.EndlessRuns

variable {S O : Type*}

/-- The state at a time. -/
def state (step : S → O → S) (start : S) (inputs : ℕ → O) : ℕ → S
  | 0 => start
  | t + 1 => step (state step start inputs t) (inputs t)

variable {step : S → O → S} {start : S} {inputs : ℕ → O}

/-- An invariant that steps keep under a condition holds as long as the condition has been met. -/
theorem invariant_until {I : S → Prop} {C : S → O → Prop} (kept : ∀ s o, C s o → I s → I (step s o))
    (begins : I start) {t : ℕ} (meets : ∀ u < t, C (state step start inputs u) (inputs u)) :
    I (state step start inputs t) := by
  induction t with
  | zero => exact begins
  | succ t ih =>
    apply kept
    · exact meets t (Nat.lt_succ_self t)
    · exact ih fun u before => meets u (Nat.lt_succ_of_lt before)

theorem invariant_state {I : S → Prop} {Q : O → Prop} (kept : ∀ s o, Q o → I s → I (step s o)) (begins : I start)
    (quiet : ∀ t, Q (inputs t)) (t : ℕ) : I (state step start inputs t) :=
  invariant_until (C := fun _ => Q) kept begins fun u _ => quiet u

/-- A rank that never rises and falls at inputs that always come again leads to the goal. -/
theorem eventually_of_rank {I G : S → Prop} {Q F : O → Prop} (rank : S → ℕ)
    (kept : ∀ s o, Q o → I s → I (step s o)) (begins : I start) (quiet : ∀ t, Q (inputs t))
    (stays : ∀ s o, Q o → I s → ¬G s → rank (step s o) ≤ rank s)
    (falls : ∀ s o, Q o → F o → I s → ¬G s → rank (step s o) < rank s)
    (fair : ∀ t, ∃ u, t ≤ u ∧ F (inputs u)) (t : ℕ) :
    ∃ u, t ≤ u ∧ G (state step start inputs u) := by
  have inv := invariant_state kept begins quiet
  by_contra never
  have short : ∀ u, t ≤ u → ¬G (state step start inputs u) := fun u later goal => never ⟨u, later, goal⟩
  have lower : ∀ v u, t ≤ v → v ≤ u → rank (state step start inputs u) ≤ rank (state step start inputs v) := by
    intro v u later order
    induction order with
    | refl => exact Nat.le_refl _
    | step after ih =>
      apply Nat.le_trans _ ih
      exact stays _ _ (quiet _) (inv _) (short _ (Nat.le_trans later after))
  have descent : ∀ n v, t ≤ v → rank (state step start inputs v) = n → False := by
    intro n
    induction n using Nat.strongRecOn with
    | ind n ih =>
      rintro v later rfl
      obtain ⟨u, order, here⟩ := fair v
      have after := Nat.le_trans later order
      have less := falls _ _ (quiet u) here (inv u) (short u after)
      exact ih _ (Nat.lt_of_lt_of_le less (lower v u later order)) (u + 1) (Nat.le_succ_of_le after) rfl
  exact descent _ t (Nat.le_refl t) rfl

end Lib.EndlessRuns
