import AoSdl.Lib.Runs
import Mathlib.Data.Fintype.Basic

/-! The triple buffer between the game thread and the render thread. `swap_mutex` makes `present` and
`update` one step each; the accessors read a pointer without it, and a state is assigned and drawn part
by part through the pointer they gave, so any step of the other thread can come in between. -/
namespace AoSdl
open Lib.Runs
open scoped List

/-- The buffers that the constructor allocates. -/
inductive Slot where
  | first | second | third
deriving DecidableEq

/-- A `RenderState` is its parts; `memory` is what the three buffers hold. -/
structure StateBuffer (Part Value : Type*) where
  presenting : Slot
  ready : Slot
  preparing : Slot
  stale : Bool
  memory : Slot → Part → Value

namespace StateBuffer

/-- The game thread has no pointer, or it assigns `state` through `buf`, the parts in `left` not yet. -/
inductive Game (Part Value : Type*) where
  | idle
  | writing (buf : Slot) (state : Part → Value) (left : Finset Part)

inductive Render where
  | idle
  | reading (buf : Slot)

/-- The buffers, the two threads, and what was seen of them: the states presented, the states that an
`update` put on display, and the parts read, each under the number of states displayed by then. -/
structure System (Part Value : Type*) where
  buffers : StateBuffer Part Value
  game : Game Part Value
  render : Render
  presented : List (Part → Value)
  displayed : List (Part → Value)
  reads : List (ℕ × Part × Value)

inductive Event (Part Value : Type*) where
  | get_producer_buf (state : Part → Value)
  | write (part : Part)
  | present
  | update
  | get_consumer_buf
  | read (part : Part)

variable {Part Value : Type*}

def init (initial_buf : Part → Value) : StateBuffer Part Value where
  presenting := .first
  ready := .second
  preparing := .third
  stale := false
  memory := fun _ => initial_buf

def get_consumer_buf (b : StateBuffer Part Value) : Slot := b.presenting

def get_producer_buf (b : StateBuffer Part Value) : Slot := b.preparing

def present (b : StateBuffer Part Value) : StateBuffer Part Value :=
  { b with preparing := b.ready, ready := b.preparing, stale := true }

def update (b : StateBuffer Part Value) : StateBuffer Part Value :=
  if b.stale then { b with presenting := b.ready, ready := b.presenting, stale := false } else b

/-- The state that the render thread draws from. -/
def shown (b : StateBuffer Part Value) : Part → Value := b.memory (get_consumer_buf b)

/-- The three pointers, each to another one of the three buffers. -/
def Permuted (b : StateBuffer Part Value) : Prop :=
  [b.presenting, b.ready, b.preparing] ~ [.first, .second, .third]

section

variable [DecidableEq Part]

def assign (b : StateBuffer Part Value) (buf : Slot) (part : Part) (value : Value) :
    StateBuffer Part Value :=
  { b with memory := Function.update b.memory buf (Function.update (b.memory buf) part value) }

variable [Fintype Part]

/-- One step of either thread; an event that its thread is not at is no step. -/
def step (s : System Part Value) : Event Part Value → System Part Value
  | .get_producer_buf state =>
    match s.game with
    | .idle => { s with game := .writing (get_producer_buf s.buffers) state Finset.univ }
    | .writing _ _ _ => s
  | .write part =>
    match s.game with
    | .idle => s
    | .writing buf state left =>
      { s with
        buffers := assign s.buffers buf part (state part)
        game := .writing buf state (left.erase part) }
  | .present =>
    match s.game with
    | .idle => s
    | .writing _ state left =>
      if left = ∅ then
        { s with
          buffers := present s.buffers
          game := .idle
          presented := s.presented ++ [state] }
      else s
  | .update =>
    { s with
      buffers := update s.buffers
      render := .idle
      displayed := if s.buffers.stale then s.displayed ++ [shown (update s.buffers)] else s.displayed }
  | .get_consumer_buf => { s with render := .reading (get_consumer_buf s.buffers) }
  | .read part =>
    match s.render with
    | .idle => s
    | .reading buf =>
      { s with reads := s.reads ++ [(s.displayed.length, part, s.buffers.memory buf part)] }

end

def start (initial_buf : Part → Value) : System Part Value where
  buffers := init initial_buf
  game := .idle
  render := .idle
  presented := []
  displayed := []
  reads := []

theorem Permuted.nodup {b : StateBuffer Part Value} (p : Permuted b) :
    [b.presenting, b.ready, b.preparing].Nodup := p.nodup_iff.mpr (by decide)

theorem Permuted.apart {b : StateBuffer Part Value} (p : Permuted b) :
    b.presenting ≠ b.ready ∧ b.presenting ≠ b.preparing ∧ b.ready ≠ b.preparing := by
  have distinct := p.nodup
  simp only [List.nodup_cons, List.mem_cons, List.not_mem_nil, or_false, not_or, not_false_eq_true,
    List.nodup_nil, and_true] at distinct
  exact ⟨distinct.1.1, distinct.1.2, distinct.2⟩

theorem Permuted.present {b : StateBuffer Part Value} (p : Permuted b) : Permuted (present b) :=
  ((List.Perm.swap _ _ _).cons _).trans p

theorem Permuted.update {b : StateBuffer Part Value} (p : Permuted b) : Permuted (update b) := by
  rw [StateBuffer.update]
  split
  · exact (List.Perm.swap _ _ _).trans p
  · exact p

/-- The game thread's section moves no pointer that the render thread reads. -/
@[simp] theorem shown_present (b : StateBuffer Part Value) : shown (present b) = shown b := rfl

@[simp] theorem preparing_update (b : StateBuffer Part Value) : (update b).preparing = b.preparing := by
  unfold update
  split <;> rfl

@[simp] theorem memory_update (b : StateBuffer Part Value) : (update b).memory = b.memory := by
  unfold update
  split <;> rfl

theorem shown_update (b : StateBuffer Part Value) :
    shown (update b) = if b.stale then b.memory b.ready else shown b := by
  unfold update
  split <;> rfl

section

variable [DecidableEq Part]

theorem memory_assign_self (b : StateBuffer Part Value) (buf : Slot) (part : Part) (value : Value) :
    (assign b buf part value).memory buf = Function.update (b.memory buf) part value :=
  Function.update_self ..

theorem memory_assign_of_ne (b : StateBuffer Part Value) {buf slot : Slot} (other : slot ≠ buf)
    (part : Part) (value : Value) : (assign b buf part value).memory slot = b.memory slot :=
  Function.update_of_ne other ..

end

/-- The states in the order in which they can be on display. -/
def frames (initial_buf : Part → Value) (s : System Part Value) : List (Part → Value) :=
  initial_buf :: s.displayed

/-- What holds in every state that the two threads reach. -/
structure Inv (initial_buf : Part → Value) (s : System Part Value) : Prop where
  permuted : Permuted s.buffers
  writing : ∀ buf state left, s.game = .writing buf state left →
    buf = s.buffers.preparing ∧ ∀ part, part ∉ left → s.buffers.memory buf part = state part
  reading : ∀ buf, s.render = .reading buf → buf = s.buffers.presenting
  shown : shown s.buffers = s.displayed.getLastD initial_buf
  fresh : s.buffers.stale = true → s.presented.getLast? = some (s.buffers.memory s.buffers.ready) ∧
    s.displayed ++ [s.buffers.memory s.buffers.ready] <+ s.presented
  settled : s.buffers.stale = false →
    s.displayed.getLastD initial_buf = s.presented.getLastD initial_buf
  displayed : s.displayed <+ s.presented
  reads : ∀ r ∈ s.reads, ∃ state, (frames initial_buf s)[r.1]? = some state ∧ r.2.2 = state r.2.1

theorem inv_start (initial_buf : Part → Value) : Inv initial_buf (start initial_buf) where
  permuted := List.Perm.refl _
  writing := fun buf state left found => by cases found
  reading := fun buf found => by cases found
  shown := rfl
  fresh := fun stale => by cases stale
  settled := fun _ => rfl
  displayed := List.Sublist.refl _
  reads := fun r member => by cases member

theorem getLastD_eq {α : Type*} {l : List α} {a : α} (last : l.getLast? = some a) (d : α) :
    l.getLastD d = a := by
  rw [List.getLastD_eq_getLast?, last]
  rfl

theorem getElem?_frames (initial_buf : Part → Value) (s : System Part Value) :
    (frames initial_buf s)[s.displayed.length]? = some (s.displayed.getLastD initial_buf) := by
  rw [frames, List.getLastD_eq_getLast?]
  rcases List.eq_nil_or_concat s.displayed with empty | ⟨front, last, parts⟩
  · simp [empty]
  · simp [parts]

/-- More displayed states leave the frames of the parts read as they were. -/
theorem getElem?_frames_append {initial_buf : Part → Value} {s : System Part Value} {k : ℕ}
    {state : Part → Value} (found : (frames initial_buf s)[k]? = some state) (more : List (Part → Value)) :
    (initial_buf :: (s.displayed ++ more))[k]? = some state := by
  rw [← List.cons_append]
  exact (List.getElem?_append_left (List.getElem?_eq_some_iff.mp found).1).trans found

section

variable [DecidableEq Part] [Fintype Part] {initial_buf : Part → Value} {s : System Part Value}

theorem Inv.get_producer_buf (i : Inv initial_buf s) (state : Part → Value) :
    Inv initial_buf (step s (.get_producer_buf state)) := by
  cases at_ : s.game with
  | idle =>
    simp only [step, at_]
    refine { i with writing := ?_ }
    rintro buf state' left ⟨rfl, rfl, rfl⟩
    exact ⟨rfl, fun part out => absurd (Finset.mem_univ part) out⟩
  | writing buf state' left =>
    simp only [step, at_]
    exact i

/-- Only the buffer that is neither on display nor ready is written. -/
theorem Inv.write (i : Inv initial_buf s) (part : Part) : Inv initial_buf (step s (.write part)) := by
  cases at_ : s.game with
  | idle =>
    simp only [step, at_]
    exact i
  | writing buf state left =>
    obtain ⟨rfl, done⟩ := i.writing buf state left at_
    obtain ⟨-, presenting_ne, ready_ne⟩ := i.permuted.apart
    have same := memory_assign_of_ne s.buffers presenting_ne part (state part)
    have same' := memory_assign_of_ne s.buffers ready_ne part (state part)
    simp only [step, at_]
    refine { i with writing := ?_, shown := same.trans i.shown, fresh := ?_ }
    · rintro buf state' left' ⟨rfl, rfl, rfl⟩
      refine ⟨rfl, fun part' out => ?_⟩
      rw [memory_assign_self]
      by_cases which : part' = part
      · rw [which, Function.update_self]
      · rw [Function.update_of_ne which]
        exact done part' fun inside => out (Finset.mem_erase.mpr ⟨which, inside⟩)
    · intro stale
      exact same' ▸ i.fresh stale

theorem Inv.present (i : Inv initial_buf s) : Inv initial_buf (step s .present) := by
  cases at_ : s.game with
  | idle =>
    simp only [step, at_]
    exact i
  | writing buf state left =>
    obtain ⟨rfl, done⟩ := i.writing buf state left at_
    by_cases all : left = ∅
    · have whole : s.buffers.memory s.buffers.preparing = state :=
        funext fun part => done part (all ▸ Finset.notMem_empty part)
      simp only [step, at_, if_pos all]
      refine { i with
        permuted := i.permuted.present
        writing := fun buf state left found => by cases found
        fresh := fun _ => ?_
        settled := fun settled => by cases settled
        displayed := i.displayed.trans (List.sublist_append_left _ _) }
      change _ = some (s.buffers.memory s.buffers.preparing) ∧
        s.displayed ++ [s.buffers.memory s.buffers.preparing] <+ s.presented ++ [state]
      rw [whole]
      exact ⟨List.getLast?_concat, i.displayed.append (List.Sublist.refl [state])⟩
    · simp only [step, at_, if_neg all]
      exact i

theorem Inv.update (i : Inv initial_buf s) : Inv initial_buf (step s .update) := by
  have shows := shown_update s.buffers
  have writing : ∀ buf state left, s.game = .writing buf state left →
      buf = (StateBuffer.update s.buffers).preparing ∧
        ∀ part, part ∉ left → (StateBuffer.update s.buffers).memory buf part = state part := by
    rw [preparing_update, memory_update]
    exact i.writing
  cases stale : s.buffers.stale with
  | true =>
    obtain ⟨last, inside⟩ := i.fresh stale
    rw [if_pos stale] at shows
    simp only [step, stale, if_true, shows]
    refine {
      permuted := i.permuted.update
      writing := writing
      reading := fun buf found => by cases found
      shown := by rw [shows, List.getLastD_concat]
      fresh := fun again => by simp [StateBuffer.update, stale] at again
      settled := fun _ => by rw [List.getLastD_concat, getLastD_eq last]
      displayed := inside
      reads := fun r member => ?_ }
    obtain ⟨state, found, value⟩ := i.reads r member
    exact ⟨state, getElem?_frames_append found _, value⟩
  | false =>
    have same : StateBuffer.update s.buffers = s.buffers := by simp [StateBuffer.update, stale]
    simp only [step, stale, same, Bool.false_eq_true, if_false]
    exact { i with reading := fun buf found => by cases found }

theorem Inv.get_consumer_buf (i : Inv initial_buf s) : Inv initial_buf (step s .get_consumer_buf) := by
  refine { i with reading := ?_ }
  rintro buf ⟨rfl⟩
  rfl

theorem Inv.read (i : Inv initial_buf s) (part : Part) : Inv initial_buf (step s (.read part)) := by
  cases at_ : s.render with
  | idle =>
    simp only [step, at_]
    exact i
  | reading buf =>
    obtain rfl := i.reading buf at_
    have logs : step s (.read part) = { s with
        reads := s.reads ++ [(s.displayed.length, part, StateBuffer.shown s.buffers part)] } := by
      simp only [step, at_]
      rfl
    rw [logs]
    refine { i with reads := fun r member => ?_ }
    rcases List.mem_append.mp member with before | now
    · exact i.reads r before
    · obtain rfl := List.mem_singleton.mp now
      exact ⟨_, getElem?_frames initial_buf s, congrFun i.shown part⟩

theorem Inv.step (i : Inv initial_buf s) (e : Event Part Value) : Inv initial_buf (step s e) := by
  cases e with
  | get_producer_buf state => exact i.get_producer_buf state
  | write part => exact i.write part
  | present => exact i.present
  | update => exact i.update
  | get_consumer_buf => exact i.get_consumer_buf
  | read part => exact i.read part

/-- What the render thread holds stays as it is, and another thread's step does not change it. -/
theorem Inv.untouched (i : Inv initial_buf s) {buf : Slot} (reading : s.render = .reading buf)
    (e : Event Part Value) : (StateBuffer.step s e).buffers.memory buf = s.buffers.memory buf := by
  obtain rfl := i.reading buf reading
  cases e with
  | write part =>
    cases at_ : s.game with
    | idle => simp only [StateBuffer.step, at_]
    | writing buf state left =>
      obtain ⟨rfl, -⟩ := i.writing buf state left at_
      simp only [StateBuffer.step, at_]
      exact memory_assign_of_ne _ i.permuted.apart.2.1 _ _
  | present =>
    simp only [StateBuffer.step]
    split
    · rfl
    · split <;> rfl
  | get_producer_buf state =>
    simp only [StateBuffer.step]
    split <;> rfl
  | update => exact congrFun (memory_update s.buffers) _
  | get_consumer_buf => rfl
  | read part =>
    simp only [StateBuffer.step, reading]

end

/-- After an `update` the last presented state is on display, the initial one if there is none. -/
theorem Inv.shown_update {initial_buf : Part → Value} {s : System Part Value} (i : Inv initial_buf s) :
    StateBuffer.shown (StateBuffer.update s.buffers) = s.presented.getLastD initial_buf := by
  rw [StateBuffer.shown_update]
  cases stale : s.buffers.stale with
  | true =>
    obtain ⟨last, -⟩ := i.fresh stale
    exact (getLastD_eq last _).symm
  | false => exact i.shown.trans (i.settled stale)

/-- What the buffers give the two threads in a state, whatever step comes next. -/
structure Exchanged [DecidableEq Part] [Fintype Part] (initial_buf : Part → Value)
    (s : System Part Value) : Prop where
  permuted : Permuted s.buffers
  distinct : get_producer_buf s.buffers ≠ get_consumer_buf s.buffers
  held_distinct : ∀ buf state left buf', s.game = .writing buf state left →
    s.render = .reading buf' → buf ≠ buf'
  not_written : ∀ buf, s.render = .reading buf →
    ∀ e, (step s e).buffers.memory buf = s.buffers.memory buf
  shows : shown (step s .update).buffers = shown s.buffers ∨
    some (shown (step s .update).buffers) = s.presented.getLast?
  freshest : shown (step s .update).buffers = s.presented.getLastD initial_buf
  in_order : s.displayed <+ s.presented
  last_displayed : shown s.buffers = s.displayed.getLastD initial_buf
  untorn : ∀ r ∈ s.reads, ∃ state, (frames initial_buf s)[r.1]? = some state ∧ r.2.2 = state r.2.1

theorem Inv.exchanged [DecidableEq Part] [Fintype Part] {initial_buf : Part → Value}
    {s : System Part Value} (i : Inv initial_buf s) : Exchanged initial_buf s where
  permuted := i.permuted
  distinct := i.permuted.apart.2.1.symm
  held_distinct := by
    rintro buf state left buf' writing reading
    rw [(i.writing buf state left writing).1, i.reading buf' reading]
    exact i.permuted.apart.2.1.symm
  not_written := fun _ reading e => i.untouched reading e
  shows := by
    change StateBuffer.shown (StateBuffer.update s.buffers) = _ ∨
      some (StateBuffer.shown (StateBuffer.update s.buffers)) = _
    rw [StateBuffer.shown_update]
    cases stale : s.buffers.stale with
    | true => exact Or.inr (i.fresh stale).1.symm
    | false => exact Or.inl rfl
  freshest := i.shown_update
  in_order := i.displayed
  last_displayed := i.shown
  untorn := i.reads

/-- In every interleaving of the two threads the buffers stay three, the one that is read is not
written, and what is read part by part are the presented states, in order and never torn. -/
theorem always_exchanged [DecidableEq Part] [Fintype Part] (initial_buf : Part → Value)
    (events : List (Event Part Value)) :
    Always step (Exchanged initial_buf) (start initial_buf) events :=
  (always_of_invariant (fun _ e i => i.step e) (inv_start initial_buf) events).mono
    fun _ i => i.exchanged

end StateBuffer

end AoSdl
