import AoSdl.PersistentMap

/-! `PersistentMap` as the code runs it: nodes are cells of a heap, `make_shared` allocates
a copy that is filled in before it is published, and unchanged subtrees are shared by
address. Cells that became unreachable are kept, since nothing can observe them. Recursion
and loops take fuel and return `none` when it is used up. -/
namespace AoSdl.PersistentHeap
open PersistentMap (MASK MAX_DEPTH slot_at Op)

structure NodeEntry (K V : Type) where
  child : Option Nat
  key : K
  value : V

structure Node (K V : Type) where
  bitmap : BitVec 32
  entries : List (NodeEntry K V)

abbrev Heap (K V : Type) := List (Node K V)

section Operations
variable {K V : Type}

def Node.has (n : Node K V) (slot : Nat) : Bool := n.bitmap.getLsbD slot

def Node.index (n : Node K V) (slot : Nat) : Nat :=
  Lib.SparseArray.popcount (n.bitmap &&& ((1#32 <<< slot) - 1#32))

variable [DecidableEq K] [Inhabited K] [Inhabited V] (hash : K → BitVec w)

def set_impl : Nat → Heap K V → Option Nat → (depth : Nat) → (h : BitVec w) → K → V →
    Option (Heap K V × Nat × Bool)
  | 0, _, _, _, _, _, _ => none
  | _ + 1, heap, none, depth, h, key, value =>
    some (heap ++ [⟨1#32 <<< slot_at h depth, [⟨none, key, value⟩]⟩], heap.length, true)
  | fuel + 1, heap, some node, depth, h, key, value => do
    let slot := slot_at h depth
    let n ← heap[node]?
    let copy := heap.length
    let heap := heap ++ [n]
    let idx := n.index slot
    if n.has slot then
      let entry ← n.entries[idx]?
      match entry.child with
      | some child =>
        let (heap, child, inserted) ← set_impl fuel heap (some child) (depth + 1) h key value
        let entry := { entry with child := some child }
        some (heap.set copy { n with entries := n.entries.set idx entry }, copy, inserted)
      | none =>
        if entry.key = key then
          let entry := { entry with value := value }
          some (heap.set copy { n with entries := n.entries.set idx entry }, copy, false)
        else if MAX_DEPTH w - 1 ≤ depth then
          let next := (slot + 1) &&& MASK
          let marked := { n with bitmap := n.bitmap ||| 1#32 <<< next }
          let entries := n.entries.insertIdx (marked.index next) ⟨none, key, value⟩
          some (heap.set copy { marked with entries := entries }, copy, true)
        else
          let (heap, branch, _) ←
            set_impl fuel heap none (depth + 1) (hash entry.key) entry.key entry.value
          let (heap, branch, inserted) ←
            set_impl fuel heap (some branch) (depth + 1) h key value
          let entry := ⟨some branch, default, default⟩
          some (heap.set copy { n with entries := n.entries.set idx entry }, copy, inserted)
    else
      let entries := n.entries.insertIdx idx ⟨none, key, value⟩
      some (heap.set copy ⟨n.bitmap ||| 1#32 <<< slot, entries⟩, copy, true)

/-- The end of `erase_impl`: a node without entries becomes the null pointer. -/
def publish (heap : Heap K V) (copy : Nat) (n : Node K V) : Heap K V × Option Nat × Bool :=
  (heap.set copy n, if n.entries.isEmpty then none else some copy, true)

def Node.remove (n : Node K V) (slot : Nat) : Node K V :=
  ⟨n.bitmap &&& ~~~(1#32 <<< slot), n.entries.eraseIdx (n.index slot)⟩

def erase_impl : Nat → Heap K V → Option Nat → (depth : Nat) → (h : BitVec w) → K →
    Option (Heap K V × Option Nat × Bool)
  | 0, _, _, _, _, _ => none
  | _ + 1, heap, none, _, _, _ => some (heap, none, false)
  | fuel + 1, heap, some node, depth, h, key => do
    let slot := slot_at h depth
    let n ← heap[node]?
    if n.has slot then
      let copy := heap.length
      let heap := heap ++ [n]
      let idx := n.index slot
      let entry ← n.entries[idx]?
      match entry.child with
      | some child =>
        let (heap, new_child, erased) ← erase_impl fuel heap (some child) (depth + 1) h key
        if erased then
          match new_child with
          | some child =>
            let entry := { entry with child := some child }
            some (publish heap copy { n with entries := n.entries.set idx entry })
          | none => some (publish heap copy (n.remove slot))
        else some (heap, some node, false)
      | none =>
        if entry.key = key then some (publish heap copy (n.remove slot))
        else some (heap, some node, false)
    else some (heap, some node, false)

def find_impl : Nat → Heap K V → Option Nat → (depth : Nat) → (h : BitVec w) → K →
    Option (Option V)
  | 0, _, _, _, _, _ => none
  | _ + 1, _, none, _, _, _ => some none
  | fuel + 1, heap, some node, depth, h, key => do
    let slot := slot_at h depth
    let n ← heap[node]?
    if n.has slot then
      let entry ← n.entries[n.index slot]?
      match entry.child with
      | some child => find_impl fuel heap (some child) (depth + 1) h key
      | none => some (if entry.key = key then some entry.value else none)
    else some none

end Operations

section Iteration
variable {K V : Type}

def NodeEntry.visit (inside : Nat → Option (List (K × V))) (entry : NodeEntry K V) :
    Option (List (K × V)) :=
  match entry.child with
  | some child => inside child
  | none => some [(entry.key, entry.value)]

/-- The calls of the visitor, in order. -/
def for_each_impl : Nat → Heap K V → Nat → Option (List (K × V))
  | 0, _, _ => none
  | fuel + 1, heap, node => do
    let n ← heap[node]?
    let visits ← n.entries.mapM (NodeEntry.visit (for_each_impl fuel heap))
    some visits.flatten

structure Frame where
  node : Nat
  idx : Nat
  deriving DecidableEq

/-- `const_iterator`: the back of the vector is the head of the list. -/
abbrev Stack := List Frame

/-- The last statement of the outer loop of `descend_to_leaf`. -/
def pop_if_exhausted (heap : Heap K V) : Stack → Option Stack
  | [] => some []
  | top :: rest => do
    let n ← heap[top.node]?
    some (if n.entries.length ≤ top.idx then rest else top :: rest)

def descend_to_leaf : Nat → Heap K V → Stack → Option Stack
  | 0, _, _ => none
  | _ + 1, _, [] => some []
  | fuel + 1, heap, top :: rest => do
    let n ← heap[top.node]?
    match n.entries[top.idx]? with
    | some entry =>
      match entry.child with
      | some child =>
        let stack ← pop_if_exhausted heap (⟨child, 0⟩ :: ⟨top.node, top.idx + 1⟩ :: rest)
        descend_to_leaf fuel heap stack
      | none => some (top :: rest)
    | none =>
      let stack ← pop_if_exhausted heap (top :: rest)
      descend_to_leaf fuel heap stack

def advance (fuel : Nat) (heap : Heap K V) : Stack → Option Stack
  | [] => some []
  | top :: rest => descend_to_leaf fuel heap (⟨top.node, top.idx + 1⟩ :: rest)

/-- `operator*` on an iterator that is not at the end. -/
def deref (heap : Heap K V) : Stack → Option (K × V)
  | [] => none
  | top :: _ => do
    let n ← heap[top.node]?
    let entry ← n.entries[top.idx]?
    some (entry.key, entry.value)

/-- `operator==`: the depths and the top frames agree. -/
def Stack.same (a b : Stack) : Bool := a.length = b.length && (a.isEmpty || a.head? = b.head?)

def begin (fuel : Nat) (heap : Heap K V) : Option Nat → Option Stack
  | none => some []
  | some root => descend_to_leaf fuel heap [⟨root, 0⟩]

def end_ : Stack := []

/-- The entries a range-based loop sees from an iterator on. -/
def loop (steps fuel : Nat) (heap : Heap K V) (it : Stack) : Option (List (K × V)) :=
  match steps with
  | 0 => none
  | steps + 1 =>
    if Stack.same it end_ then some []
    else do
      let entry ← deref heap it
      let it ← advance fuel heap it
      let rest ← loop steps fuel heap it
      some (entry :: rest)

def iterate (fuel : Nat) (heap : Heap K V) (root : Option Nat) : Option (List (K × V)) := do
  let it ← begin fuel heap root
  loop fuel fuel heap it

end Iteration

section Maps
variable {K V : Type} [DecidableEq K] (hash : K → BitVec w)

structure Map where
  root_ : Option Nat := none
  size_ : Nat := 0

def set [Inhabited K] [Inhabited V] (heap : Heap K V) (m : Map) (key : K) (value : V) :
    Option (Heap K V × Map) := do
  let (heap, new_root, inserted) ←
    set_impl hash (MAX_DEPTH w + 1) heap m.root_ 0 (hash key) key value
  some (heap, ⟨some new_root, m.size_ + if inserted then 1 else 0⟩)

def erase (heap : Heap K V) (m : Map) (key : K) : Option (Heap K V × Map) :=
  if m.root_.isNone then some (heap, m)
  else do
    let (heap, new_root, erased) ← erase_impl (MAX_DEPTH w + 1) heap m.root_ 0 (hash key) key
    some (heap, ⟨new_root, m.size_ - if erased then 1 else 0⟩)

def find (heap : Heap K V) (m : Map) (key : K) : Option (Option V) :=
  find_impl (MAX_DEPTH w + 1) heap m.root_ 0 (hash key) key

def for_each (w : Nat) (heap : Heap K V) (m : Map) : Option (List (K × V)) :=
  match m.root_ with
  | none => some []
  | some root => for_each_impl (MAX_DEPTH w + 1) heap root

def apply [Inhabited K] [Inhabited V] (heap : Heap K V) (m : Map) :
    Op K V → Option (Heap K V × Map)
  | .set key value => set hash heap m key value
  | .erase key => erase hash heap m key

end Maps

end AoSdl.PersistentHeap
