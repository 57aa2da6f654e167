import AoSdl.Lib.Bindings
import AoSdl.Lib.SparseArray
import Mathlib.Data.Nat.Bitwise
import Mathlib.Logic.Function.Basic

/-! The hash array mapped trie behind `PersistentMap`, read as immutable values: one
bitmap-compressed node per five bits of the hash. A node is indexed by the number of
levels that can still follow it, so a trie deeper than `MAX_DEPTH` cannot be built. -/
namespace AoSdl.PersistentMap
open Lib.Bindings Lib.SparseArray

def BITS : Nat := 5
def WIDTH : Nat := 1 <<< BITS
def MASK : Nat := WIDTH - 1

/-- `w` is the width of `size_t` in bits. -/
def MAX_DEPTH (w : Nat) : Nat := (w + BITS - 1) / BITS

def slot_at (h : BitVec w) (depth : Nat) : Nat := (h >>> (depth * BITS)).toNat &&& MASK

/-- A `NodeEntry` with a child carries default-constructed key and value that nothing
reads; one without a child is a binding. -/
inductive NodeEntry (Child K V : Type) where
  | leaf (key : K) (value : V)
  | branch (child : Child)

structure Node (Child K V : Type) where
  bitmap : BitVec 32
  entries : List (NodeEntry Child K V)

section Node
variable {Child K V : Type}

def Node.has (n : Node Child K V) (slot : Nat) : Bool := n.bitmap.getLsbD slot

def Node.index (n : Node Child K V) (slot : Nat) : Nat :=
  popcount (n.bitmap &&& ((1#32 <<< slot) - 1#32))

def Node.single (slot : Nat) (key : K) (value : V) : Node Child K V :=
  ⟨1#32 <<< slot, [.leaf key value]⟩

/-- `set_impl` at an existing node. `recurse` continues in the child of the slot, and
`collide` is what happens when the slot holds another key. -/
def Node.set [DecidableEq K] (recurse : Child → Child × Bool)
    (collide : Nat → K → V → Node Child K V × Bool) (slot : Nat) (key : K) (value : V)
    (n : Node Child K V) : Node Child K V × Bool :=
  let idx := n.index slot
  if n.has slot then
    match n.entries[idx]? with
    | some (.branch child) =>
      let (child, inserted) := recurse child
      ({ n with entries := n.entries.set idx (.branch child) }, inserted)
    | some (.leaf k v) =>
      if k = key then ({ n with entries := n.entries.set idx (.leaf k value) }, false)
      else collide idx k v
    | none => (n, false)
  else
    (⟨n.bitmap ||| 1#32 <<< slot, n.entries.insertIdx idx (.leaf key value)⟩, true)

/-- The hash-exhausted branch of `set_impl`: the new leaf goes to the next slot, whether
or not that slot is occupied. -/
def Node.exhausted (n : Node Child K V) (slot : Nat) (key : K) (value : V) : Node Child K V × Bool :=
  let next := (slot + 1) &&& MASK
  let marked : Node Child K V := { n with bitmap := n.bitmap ||| 1#32 <<< next }
  ({ marked with entries := n.entries.insertIdx (marked.index next) (.leaf key value) }, true)

def Node.find [DecidableEq K] (recurse : Child → Option V) (slot : Nat) (key : K)
    (n : Node Child K V) : Option V :=
  if n.has slot then
    match n.entries[n.index slot]? with
    | some (.branch child) => recurse child
    | some (.leaf k v) => if k = key then some v else none
    | none => none
  else none

def Node.remove (n : Node Child K V) (slot : Nat) : Node Child K V :=
  ⟨n.bitmap &&& ~~~(1#32 <<< slot), n.entries.eraseIdx (n.index slot)⟩

/-- A node that lost its last entry becomes the null pointer. -/
def Node.nonempty (n : Node Child K V) : Option (Node Child K V) :=
  if n.entries.isEmpty then none else some n

def Node.erase [DecidableEq K] (recurse : Child → Option Child × Bool) (slot : Nat) (key : K)
    (n : Node Child K V) : Option (Node Child K V) × Bool :=
  if n.has slot then
    match n.entries[n.index slot]? with
    | some (.branch child) =>
      match recurse child with
      | (some child, true) =>
        (Node.nonempty { n with entries := n.entries.set (n.index slot) (.branch child) }, true)
      | (none, true) => ((n.remove slot).nonempty, true)
      | (_, false) => (some n, false)
    | some (.leaf k _) => if k = key then ((n.remove slot).nonempty, true) else (some n, false)
    | none => (some n, false)
  else (some n, false)

def NodeEntry.toList (inside : Child → List (K × V)) : NodeEntry Child K V → List (K × V)
  | .leaf k v => [(k, v)]
  | .branch child => inside child

def Node.toList (inside : Child → List (K × V)) (n : Node Child K V) : List (K × V) :=
  n.entries.flatMap (NodeEntry.toList inside)

end Node

/-- A node with `r` levels below it. -/
def Trie (K V : Type) : Nat → Type
  | 0 => Node Empty K V
  | r + 1 => Node (Trie K V r) K V

section Operations
variable {K V : Type} [DecidableEq K] (hash : K → BitVec w)

/-- `set_impl`; the second component is the `inserted` flag. The level `r` is
`MAX_DEPTH - 1 - depth`, so the test for an exhausted hash is `r = 0`. -/
def set_impl : (r : Nat) → Option (Trie K V r) → (depth : Nat) → (h : BitVec w) → K → V →
    Trie K V r × Bool
  | 0, none, depth, h, key, value => (Node.single (slot_at h depth) key value, true)
  | 0, some n, depth, h, key, value =>
    Node.set nofun (fun _ _ _ => Node.exhausted n (slot_at h depth) key value)
      (slot_at h depth) key value n
  | _ + 1, none, depth, h, key, value => (Node.single (slot_at h depth) key value, true)
  | r + 1, some n, depth, h, key, value =>
    Node.set (fun child => set_impl r (some child) (depth + 1) h key value)
      (fun idx k v =>
        let branch := (set_impl r none (depth + 1) (hash k) k v).1
        let (branch, inserted) := set_impl r (some branch) (depth + 1) h key value
        ({ (n : Node (Trie K V r) K V) with
            entries := (n : Node (Trie K V r) K V).entries.set idx (.branch branch) }, inserted))
      (slot_at h depth) key value n

def erase_impl : (r : Nat) → Option (Trie K V r) → (depth : Nat) → (h : BitVec w) → K →
    Option (Trie K V r) × Bool
  | _, none, _, _, _ => (none, false)
  | 0, some n, depth, h, key => Node.erase nofun (slot_at h depth) key n
  | r + 1, some n, depth, h, key =>
    Node.erase (fun child => erase_impl r (some child) (depth + 1) h key) (slot_at h depth) key n

def find_impl : (r : Nat) → Option (Trie K V r) → (depth : Nat) → (h : BitVec w) → K → Option V
  | _, none, _, _, _ => none
  | 0, some n, depth, h, key => Node.find nofun (slot_at h depth) key n
  | r + 1, some n, depth, h, key =>
    Node.find (fun child => find_impl r (some child) (depth + 1) h key) (slot_at h depth) key n

/-- The bindings in the order `for_each_impl` visits them. -/
def for_each_impl : (r : Nat) → Trie K V r → List (K × V)
  | 0, n => Node.toList nofun n
  | r + 1, n => Node.toList (for_each_impl r) n

end Operations

theorem slot_at_lt (h : BitVec w) (depth : Nat) : slot_at h depth < 32 :=
  Nat.lt_succ_of_le Nat.and_le_right

theorem slot_at_testBit (h : BitVec w) (depth i : Nat) (low : i < 5) :
    (slot_at h depth).testBit i = h.toNat.testBit (depth * 5 + i) := by
  have mask : MASK.testBit i = true := by
    have : i = 0 ∨ i = 1 ∨ i = 2 ∨ i = 3 ∨ i = 4 := by omega
    rcases this with rfl | rfl | rfl | rfl | rfl <;> decide
  simp [slot_at, Nat.testBit_and, mask, BitVec.toNat_ushiftRight, Nat.testBit_shiftRight, BITS]

theorem hash_ext (h h' : BitVec w)
    (same : ∀ depth ≤ MAX_DEPTH w - 1, slot_at h depth = slot_at h' depth) : h = h' := by
  apply BitVec.eq_of_toNat_eq
  apply Nat.eq_of_testBit_eq
  intro i
  by_cases inside : i < w
  · have level : i / 5 ≤ MAX_DEPTH w - 1 := by
      simp only [MAX_DEPTH, BITS]; omega
    have split : i = i / 5 * 5 + i % 5 := by omega
    have low : i % 5 < 5 := Nat.mod_lt _ (by decide)
    rw [split, ← slot_at_testBit h _ _ low, ← slot_at_testBit h' _ _ low, same _ level]
  · have wide : 2 ^ w ≤ 2 ^ i := Nat.pow_le_pow_right (by decide) (Nat.le_of_not_lt inside)
    rw [Nat.testBit_eq_false_of_lt (Nat.lt_of_lt_of_le h.isLt wide),
      Nat.testBit_eq_false_of_lt (Nat.lt_of_lt_of_le h'.isLt wide)]

section NodeLaws
variable {Child K V : Type}

/-- What a node holds in a slot. -/
def Node.get (n : Node Child K V) (slot : Nat) : Option (NodeEntry Child K V) :=
  Lib.SparseArray.get n.bitmap n.entries slot

theorem Node.index_eq (n : Node Child K V) {slot : Nat} (low : slot < 32) :
    n.index slot = rank n.bitmap slot := popcount_and_mask n.bitmap low

theorem Node.get_of_has {n : Node Child K V} {slot : Nat} (low : slot < 32)
    (present : n.has slot = true) : n.get slot = n.entries[n.index slot]? := by
  rw [Node.index_eq n low]
  exact get_of_occupied n.entries present

theorem Node.get_of_not_has {n : Node Child K V} {slot : Nat} (absent : ¬ n.has slot = true) :
    n.get slot = none :=
  get_eq_none_of_free n.entries (by simpa [Node.has] using absent)

/-- An entry belongs in a slot if every key it binds hashes to that slot. -/
def NodeEntry.Fits (slotOf : K → Nat) (look : Child → K → Option V) (ok : Child → Prop)
    (slot : Nat) : NodeEntry Child K V → Prop
  | .leaf k _ => slotOf k = slot
  | .branch child => ok child ∧ ∀ k v, look child k = some v → slotOf k = slot

/-- The node invariant, with `look` and `ok` the meaning and invariant of the children. -/
structure Node.Ordered (slotOf : K → Nat) (look : Child → K → Option V) (ok : Child → Prop)
    (n : Node Child K V) : Prop where
  aligned : Aligned n.bitmap n.entries
  fits : ∀ slot e, n.get slot = some e → e.Fits slotOf look ok slot

/-- Lookup in one entry, given lookup in the children. -/
def NodeEntry.look [DecidableEq K] (look : Child → K → Option V) (key : K) :
    NodeEntry Child K V → Option V
  | .leaf k v => if k = key then some v else none
  | .branch child => look child key

def Node.look [DecidableEq K] (slotOf : K → Nat) (look : Child → K → Option V)
    (n : Node Child K V) (key : K) : Option V :=
  n.find (fun child => look child key) (slotOf key) key

variable {slotOf : K → Nat} {look : Child → K → Option V} {ok : Child → Prop}

/-- Writing one slot: the new node is ordered when the new entry fits. -/
theorem Node.Ordered.write {n n' : Node Child K V} (ordered : n.Ordered slotOf look ok)
    {slot : Nat} {e : NodeEntry Child K V} (aligned : Aligned n'.bitmap n'.entries)
    (written : ∀ j, n'.get j = if j = slot then some e else n.get j)
    (fits : e.Fits slotOf look ok slot) : n'.Ordered slotOf look ok := by
  refine ⟨aligned, ?_⟩
  intro j x at_j
  rw [written j] at at_j
  split at at_j
  · next same =>
    obtain rfl := Option.some.inj at_j
    exact same ▸ fits
  · exact ordered.fits j x at_j

theorem Node.Ordered.clear {n n' : Node Child K V} (ordered : n.Ordered slotOf look ok)
    {slot : Nat} (aligned : Aligned n'.bitmap n'.entries)
    (cleared : ∀ j, n'.get j = if j = slot then none else n.get j) :
    n'.Ordered slotOf look ok := by
  refine ⟨aligned, ?_⟩
  intro j x at_j
  rw [cleared j] at at_j
  split at at_j
  · contradiction
  · exact ordered.fits j x at_j

/-- Lookup behind a pointer that may be null. -/
def lookFrom {Node : Type} (look : Node → K → Option V) (n : Option Node) (key : K) : Option V :=
  n.bind fun n => look n key

@[simp] theorem lookFrom_none {Node : Type} (look : Node → K → Option V) :
    lookFrom look none = fun _ => none := rfl

@[simp] theorem lookFrom_some {Node : Type} (look : Node → K → Option V) (n : Node) :
    lookFrom look (some n) = look n := rfl

theorem NodeEntry.nodup_toList {inside : Child → List (K × V)} {e : NodeEntry Child K V}
    {slot : Nat} (fits : e.Fits slotOf look ok slot) (below : ∀ c, ok c → Lists (look c) (inside c)) :
    ((e.toList inside).map Prod.fst).Nodup := by
  cases e with
  | leaf key value => simp [NodeEntry.toList]
  | branch child => exact (below child fits.1).nodup

variable [DecidableEq K]

theorem Node.look_eq (low : ∀ k, slotOf k < 32) (look : Child → K → Option V)
    (n : Node Child K V) (key : K) :
    n.look slotOf look key = (n.get (slotOf key)).bind (NodeEntry.look look key) := by
  unfold Node.look Node.find
  by_cases present : n.has (slotOf key) = true
  · rw [if_pos present, Node.get_of_has (low key) present]
    cases n.entries[n.index (slotOf key)]? with
    | none => rfl
    | some e => cases e <;> rfl
  · rw [if_neg present, Node.get_of_not_has present]
    rfl

theorem NodeEntry.slot_of_look {e : NodeEntry Child K V} {slot : Nat}
    (fits : e.Fits slotOf look ok slot) {k : K} {v : V} (bound : e.look look k = some v) :
    slotOf k = slot := by
  cases e with
  | leaf key value =>
    simp only [NodeEntry.look] at bound
    split at bound
    · subst k; exact fits
    · contradiction
  | branch child => exact fits.2 k v bound

theorem Node.look_write (low : ∀ k, slotOf k < 32) {n n' : Node Child K V} {key : K}
    {e : NodeEntry Child K V} {result : Option V}
    (written : ∀ j, n'.get j = if j = slotOf key then some e else n.get j)
    (entry : ∀ q, slotOf q = slotOf key →
      e.look look q = if q = key then result else n.look slotOf look q) :
    n'.look slotOf look = Function.update (n.look slotOf look) key result := by
  funext q
  rw [Node.look_eq low, written (slotOf q), Function.update_apply]
  by_cases same : slotOf q = slotOf key
  · rw [if_pos same]
    exact entry q same
  · have other : q ≠ key := fun eq => same (congrArg slotOf eq)
    rw [if_neg same, if_neg other, Node.look_eq low]

/-- Another entry in an occupied slot that differs from the old one at `key` only. -/
theorem Node.replace_spec (low : ∀ k, slotOf k < 32) {n : Node Child K V}
    (ordered : n.Ordered slotOf look ok) {key : K} {e x : NodeEntry Child K V} {result : Option V}
    (at_slot : n.get (slotOf key) = some e) (fits : x.Fits slotOf look ok (slotOf key))
    (entry : ∀ q, x.look look q = if q = key then result else e.look look q) :
    Node.Ordered slotOf look ok { n with entries := n.entries.set (n.index (slotOf key)) x } ∧
    Node.look slotOf look { n with entries := n.entries.set (n.index (slotOf key)) x } =
      Function.update (n.look slotOf look) key result := by
  have overwrite : ∀ j, Node.get { n with entries := n.entries.set (n.index (slotOf key)) x } j =
      if j = slotOf key then some x else n.get j := by
    intro j
    rw [Node.index_eq n (low key)]
    exact get_set ordered.aligned (occupied_of_get at_slot) x j
  refine ⟨ordered.write (aligned_set ordered.aligned _ x) overwrite fits, ?_⟩
  refine Node.look_write low overwrite ?_
  intro q same
  rw [Node.look_eq low, same, at_slot]
  exact entry q

theorem Node.branch_spec (low : ∀ k, slotOf k < 32) {n : Node Child K V}
    (ordered : n.Ordered slotOf look ok) {key : K} {e : NodeEntry Child K V} {child : Child}
    {result : Option V} (at_slot : n.get (slotOf key) = some e) (good : ok child)
    (found : look child = Function.update (fun q => e.look look q) key result) :
    Node.Ordered slotOf look ok
      { n with entries := n.entries.set (n.index (slotOf key)) (.branch child) } ∧
    Node.look slotOf look { n with entries := n.entries.set (n.index (slotOf key)) (.branch child) } =
      Function.update (n.look slotOf look) key result := by
  refine Node.replace_spec low ordered at_slot ⟨good, ?_⟩ ?_
  · intro k v bound
    rw [found, Function.update_apply] at bound
    split at bound
    · next same => rw [same]
    · exact NodeEntry.slot_of_look (ordered.fits _ _ at_slot) bound
  · intro q
    exact (congrFun found q).trans (Function.update_apply _ _ _ _)

theorem Node.set_spec (low : ∀ k, slotOf k < 32) {n : Node Child K V}
    (ordered : n.Ordered slotOf look ok) (key : K) (value : V)
    {recurse : Child → Child × Bool} {collide : Nat → K → V → Node Child K V × Bool}
    (recursive : ∀ child, n.get (slotOf key) = some (.branch child) →
      ok (recurse child).1 ∧
      look (recurse child).1 = Function.update (look child) key (some value) ∧
      (recurse child).2 = (look child key).isNone)
    (collision : ∀ k v, k ≠ key → n.get (slotOf key) = some (.leaf k v) → ∃ child,
      collide (n.index (slotOf key)) k v =
        ({ n with entries := n.entries.set (n.index (slotOf key)) (.branch child) }, true) ∧
      ok child ∧
      look child = Function.update (Function.update (fun _ => none) k (some v)) key (some value)) :
    (n.set recurse collide (slotOf key) key value).1.Ordered slotOf look ok ∧
    (n.set recurse collide (slotOf key) key value).1.look slotOf look =
      Function.update (n.look slotOf look) key (some value) ∧
    (n.set recurse collide (slotOf key) key value).2 = (n.look slotOf look key).isNone := by
  have here := Node.look_eq low look n key
  unfold Node.set
  by_cases present : n.has (slotOf key) = true
  · obtain ⟨e, at_slot⟩ := get_isSome ordered.aligned present
    have at_slot : n.get (slotOf key) = some e := at_slot
    have stored : n.entries[n.index (slotOf key)]? = some e := by
      rw [← Node.get_of_has (low key) present, at_slot]
    rw [at_slot] at here
    simp only [if_pos present, stored]
    cases e with
    | branch child =>
      obtain ⟨good, found, fresh⟩ := recursive child at_slot
      obtain ⟨kept, bound⟩ := Node.branch_spec low ordered at_slot good found
      exact ⟨kept, bound, fresh.trans (congrArg Option.isNone here.symm)⟩
    | leaf k v =>
      by_cases same : k = key
      · subst k
        simp only [if_true]
        have entry : ∀ q, (.leaf key value : NodeEntry Child K V).look look q =
            if q = key then some value else (.leaf key v : NodeEntry Child K V).look look q := by
          intro q
          by_cases eq : q = key
          · simp [NodeEntry.look, eq]
          · simp [NodeEntry.look, eq, Ne.symm eq]
        have fits : (.leaf key value : NodeEntry Child K V).Fits slotOf look ok (slotOf key) := rfl
        obtain ⟨kept, bound⟩ := Node.replace_spec low ordered at_slot fits entry
        exact ⟨kept, bound, by simp [here, NodeEntry.look]⟩
      · obtain ⟨child, split, good, found⟩ := collision k v same at_slot
        have leaf : (fun q => (.leaf k v : NodeEntry Child K V).look look q) =
            Function.update (fun _ => none) k (some v) := by
          funext q
          simp only [NodeEntry.look, Function.update_apply, eq_comm]
        rw [← leaf] at found
        obtain ⟨kept, bound⟩ := Node.branch_spec low ordered at_slot good found
        simp only [if_neg same, split]
        exact ⟨kept, bound, by simp [here, NodeEntry.look, same]⟩
  · have free : n.bitmap.getLsbD (slotOf key) = false := by simpa [Node.has] using present
    have index := Node.index_eq n (low key)
    have absent := Node.get_of_not_has present
    have filled : ∀ j, Node.get ⟨n.bitmap ||| 1#32 <<< slotOf key,
        n.entries.insertIdx (n.index (slotOf key)) (.leaf key value)⟩ j =
        if j = slotOf key then some (.leaf key value) else n.get j := by
      intro j
      rw [index]
      exact get_insert ordered.aligned (low key) free _ j
    rw [absent] at here
    simp only [if_neg present]
    refine ⟨ordered.write ?_ filled rfl, ?_, ?_⟩
    · rw [index]; exact aligned_insert ordered.aligned (low key) free _
    · refine Node.look_write low filled ?_
      intro q slots
      rw [Node.look_eq low, slots, absent]
      by_cases eq : q = key
      · simp [NodeEntry.look, eq]
      · simp [NodeEntry.look, eq, Ne.symm eq]
    · simp [here]

/-- Lookup goes to whatever replaced the entry of a slot. -/
theorem Node.look_of_set (low : ∀ k, slotOf k < 32) {n : Node Child K V}
    (aligned : Aligned n.bitmap n.entries) {key : K} {e : NodeEntry Child K V}
    (at_slot : n.get (slotOf key) = some e) (x : NodeEntry Child K V) :
    Node.look slotOf look { n with entries := n.entries.set (n.index (slotOf key)) x } key =
      x.look look key := by
  have written := get_set aligned (occupied_of_get at_slot) x (slotOf key)
  rw [if_pos rfl, ← Node.index_eq n (low key)] at written
  rw [Node.look_eq low]
  exact congrArg (fun e => Option.bind e (NodeEntry.look look key)) written

/-- If the recursion and the collision branch lose `key`, so does the node. -/
theorem Node.set_clash (low : ∀ k, slotOf k < 32) {n : Node Child K V}
    (ordered : n.Ordered slotOf look ok) {key k : K} (value : V) (other : k ≠ key)
    (here : slotOf k = slotOf key) (bound : (n.look slotOf look k).isSome)
    {recurse : Child → Child × Bool} {collide : Nat → K → V → Node Child K V × Bool}
    (recursive : ∀ child, n.get (slotOf key) = some (.branch child) → (look child k).isSome →
      look (recurse child).1 key = none)
    (collision : ∀ v, n.get (slotOf key) = some (.leaf k v) →
      (collide (n.index (slotOf key)) k v).1.look slotOf look key = none) :
    (n.set recurse collide (slotOf key) key value).1.look slotOf look key = none := by
  rw [Node.look_eq low, here] at bound
  cases at_slot : n.get (slotOf key) with
  | none => simp [at_slot] at bound
  | some e =>
    have present : n.has (slotOf key) = true := occupied_of_get at_slot
    have stored := at_slot
    rw [Node.get_of_has (low key) present] at stored
    rw [at_slot, Option.bind_some] at bound
    cases e with
    | branch child =>
      simp only [Node.set, if_pos present, stored]
      exact (Node.look_of_set low ordered.aligned at_slot _).trans (recursive child at_slot bound)
    | leaf k' v =>
      have same : k' = k := by
        by_contra differ
        simp [NodeEntry.look, differ] at bound
      subst k'
      simp only [Node.set, if_pos present, stored, if_neg other]
      exact collision v at_slot

theorem Node.single_spec (low : ∀ k, slotOf k < 32) (look : Child → K → Option V)
    (ok : Child → Prop) (key : K) (value : V) :
    (Node.single (slotOf key) key value : Node Child K V).Ordered slotOf look ok ∧
    (Node.single (slotOf key) key value : Node Child K V).look slotOf look =
      Function.update (fun _ => none) key (some value) := by
  have only : ∀ j, (Node.single (slotOf key) key value : Node Child K V).get j =
      if j = slotOf key then some (.leaf key value) else none :=
    get_singleton (low key) _
  refine ⟨⟨aligned_singleton (low key) _, ?_⟩, ?_⟩
  · intro slot e at_slot
    rw [only slot] at at_slot
    split at at_slot
    · next same =>
      obtain rfl := Option.some.inj at_slot
      exact same.symm
    · contradiction
  · funext q
    rw [Node.look_eq low, only (slotOf q), Function.update_apply]
    by_cases eq : q = key
    · simp [NodeEntry.look, eq]
    · by_cases slots : slotOf q = slotOf key
      · simp [NodeEntry.look, eq, Ne.symm eq, slots]
      · simp [eq, slots]

theorem Node.nonempty_spec (low : ∀ k, slotOf k < 32) {n : Node Child K V}
    (ordered : n.Ordered slotOf look ok) :
    (∀ m ∈ n.nonempty, m.Ordered slotOf look ok) ∧
    lookFrom (Node.look slotOf look) n.nonempty = n.look slotOf look := by
  unfold Node.nonempty
  by_cases empty : n.entries.isEmpty = true
  · rw [if_pos empty]
    refine ⟨by simp, ?_⟩
    funext q
    have vacant : n.get (slotOf q) = none := by
      rw [List.isEmpty_iff] at empty
      simp [Node.get, Lib.SparseArray.get, empty]
    rw [Node.look_eq low, vacant]
    rfl
  · rw [if_neg empty]
    refine ⟨?_, rfl⟩
    rintro m ⟨⟩
    exact ordered

/-- Removing the slot of `key` unbinds `key` when the entry there binds nothing else. -/
theorem Node.remove_spec (low : ∀ k, slotOf k < 32) {n : Node Child K V}
    (ordered : n.Ordered slotOf look ok) {key : K} {e : NodeEntry Child K V}
    (present : n.has (slotOf key) = true) (at_slot : n.get (slotOf key) = some e)
    (only : ∀ q, q ≠ key → e.look look q = none) :
    (n.remove (slotOf key)).Ordered slotOf look ok ∧
    (n.remove (slotOf key)).look slotOf look = Function.update (n.look slotOf look) key none := by
  have cleared : ∀ j, (n.remove (slotOf key)).get j =
      if j = slotOf key then none else n.get j := by
    intro j
    rw [Node.remove, Node.index_eq n (low key)]
    exact get_erase present j
  have realigned : Aligned (n.remove (slotOf key)).bitmap (n.remove (slotOf key)).entries := by
    rw [Node.remove, Node.index_eq n (low key)]
    exact aligned_erase ordered.aligned present
  refine ⟨ordered.clear realigned cleared, ?_⟩
  funext q
  rw [Node.look_eq low, cleared, Function.update_apply, Node.look_eq low]
  by_cases eq : q = key
  · simp [eq]
  · by_cases slots : slotOf q = slotOf key
    · simp [eq, slots, at_slot, only q eq]
    · simp [eq, slots]

theorem Node.erase_spec (low : ∀ k, slotOf k < 32) {n : Node Child K V}
    (ordered : n.Ordered slotOf look ok) (key : K) {recurse : Child → Option Child × Bool}
    (recursive : ∀ child, n.get (slotOf key) = some (.branch child) →
      (∀ c ∈ (recurse child).1, ok c) ∧
      lookFrom look (recurse child).1 = Function.update (look child) key none ∧
      (recurse child).2 = (look child key).isSome) :
    (∀ m ∈ (n.erase recurse (slotOf key) key).1, m.Ordered slotOf look ok) ∧
    lookFrom (Node.look slotOf look) (n.erase recurse (slotOf key) key).1 =
      Function.update (n.look slotOf look) key none ∧
    (n.erase recurse (slotOf key) key).2 = (n.look slotOf look key).isSome := by
  have here := Node.look_eq low look n key
  have unchanged : n.look slotOf look key = none →
      (∀ m ∈ some n, m.Ordered slotOf look ok) ∧
      lookFrom (Node.look slotOf look) (some n) = Function.update (n.look slotOf look) key none ∧
      false = (n.look slotOf look key).isSome := by
    intro absent
    refine ⟨by rintro m ⟨⟩; exact ordered, ?_, by rw [absent]; rfl⟩
    rw [lookFrom_some, ← absent, Function.update_eq_self]
  unfold Node.erase
  by_cases present : n.has (slotOf key) = true
  · obtain ⟨e, at_slot⟩ := get_isSome ordered.aligned present
    have at_slot : n.get (slotOf key) = some e := at_slot
    have stored : n.entries[n.index (slotOf key)]? = some e := by
      rw [← Node.get_of_has (low key) present, at_slot]
    rw [at_slot] at here
    simp only [if_pos present, stored]
    cases e with
    | branch child =>
      obtain ⟨good, found, flag⟩ := recursive child at_slot
      have here : n.look slotOf look key = look child key := here
      rcases result : recurse child with ⟨child', erased⟩
      rw [result] at good found flag
      simp only [result]
      cases erased with
      | false =>
        have absent : n.look slotOf look key = none := by
          rw [here, ← Option.not_isSome_iff_eq_none, ← flag]
          simp
        cases child' <;> exact unchanged absent
      | true =>
        cases child' with
        | none =>
          have only : ∀ q, q ≠ key → (NodeEntry.branch child).look look q = none := by
            intro q other
            have := congrFun found q
            rw [Function.update_of_ne other] at this
            exact this.symm
          obtain ⟨removed, gone⟩ := Node.remove_spec low ordered present at_slot only
          obtain ⟨kept, same⟩ := Node.nonempty_spec low removed
          exact ⟨kept, same.trans gone, flag.trans (congrArg _ here.symm)⟩
        | some child' =>
          obtain ⟨rewritten, gone⟩ :=
            Node.branch_spec low ordered at_slot (good _ rfl) found
          obtain ⟨kept, same⟩ := Node.nonempty_spec low rewritten
          exact ⟨kept, same.trans gone, flag.trans (congrArg _ here.symm)⟩
    | leaf k v =>
      by_cases same : k = key
      · subst k
        have only : ∀ q, q ≠ key → (.leaf key v : NodeEntry Child K V).look look q = none := by
          intro q other
          simp [NodeEntry.look, Ne.symm other]
        obtain ⟨removed, gone⟩ := Node.remove_spec low ordered present at_slot only
        obtain ⟨kept, same⟩ := Node.nonempty_spec low removed
        simp only [if_true]
        exact ⟨kept, same.trans gone, by simp [here, NodeEntry.look]⟩
      · simp only [if_neg same]
        exact unchanged (by simp [here, NodeEntry.look, same])
  · have absent := Node.get_of_not_has present
    rw [absent] at here
    simp only [if_neg present]
    exact unchanged here

theorem NodeEntry.mem_toList {inside : Child → List (K × V)} {e : NodeEntry Child K V} {slot : Nat}
    (fits : e.Fits slotOf look ok slot) (below : ∀ c, ok c → Lists (look c) (inside c)) (k : K) (v : V) :
    (k, v) ∈ e.toList inside ↔ e.look look k = some v := by
  cases e with
  | leaf key value =>
    simp only [NodeEntry.toList, NodeEntry.look, List.mem_singleton, Prod.mk.injEq]
    rcases eq_or_ne key k with rfl | other
    · simp [eq_comm]
    · simp [other, other.symm]
  | branch child => exact (below child fits.1).mem k v

theorem Node.toList_spec (low : ∀ k, slotOf k < 32) {inside : Child → List (K × V)}
    {n : Node Child K V} (ordered : n.Ordered slotOf look ok)
    (below : ∀ c, ok c → Lists (look c) (inside c)) :
    Lists (n.look slotOf look) (n.toList inside) := by
  constructor
  · intro k v
    rw [Node.toList, List.mem_flatMap, Node.look_eq low, Option.bind_eq_some_iff]
    constructor
    · rintro ⟨e, stored, listed⟩
      obtain ⟨slot, at_slot⟩ := (mem_iff_get ordered.aligned e).mp stored
      have fits := ordered.fits slot e at_slot
      have found := (NodeEntry.mem_toList fits below k v).mp listed
      exact ⟨e, NodeEntry.slot_of_look fits found ▸ at_slot, found⟩
    · rintro ⟨e, at_slot, found⟩
      exact ⟨e, (mem_iff_get ordered.aligned e).mpr ⟨_, at_slot⟩,
        (NodeEntry.mem_toList (ordered.fits _ e at_slot) below k v).mpr found⟩
  · rw [Node.toList, List.map_flatMap, List.nodup_flatMap]
    constructor
    · intro e stored
      obtain ⟨slot, at_slot⟩ := (mem_iff_get ordered.aligned e).mp stored
      exact NodeEntry.nodup_toList (ordered.fits slot e at_slot) below
    · refine pairwise_of_get ordered.aligned ?_
      intro i j x y apart at_i at_j
      have slot_of : ∀ {slot e k}, n.get slot = some e → k ∈ (e.toList inside).map Prod.fst →
          slotOf k = slot := by
        intro slot e k at_slot listed
        obtain ⟨⟨k', v⟩, member, rfl⟩ := List.mem_map.mp listed
        have fits := ordered.fits slot e at_slot
        exact NodeEntry.slot_of_look fits ((NodeEntry.mem_toList fits below k' v).mp member)
      intro k in_x in_y
      exact apart ((slot_of at_i in_x).symm.trans (slot_of at_j in_y))

theorem next_slot {slot : Nat} (low : slot < 32) :
    (slot + 1) &&& MASK = if slot = 31 then 0 else slot + 1 := by
  have wrap : (slot + 1) &&& MASK = (slot + 1) % 2 ^ 5 := Nat.and_two_pow_sub_one_eq_mod _ 5
  rw [wrap]
  split <;> omega

/-- A leaf added at an exhausted hash is not where lookup goes: the slot of the key
still holds an entry for something else. -/
theorem Node.exhausted_find {n : Node Empty K V} (low : ∀ k, slotOf k < 32)
    (ordered : n.Ordered slotOf Empty.elim Empty.elim) {key k : K} {v value : V}
    (at_slot : n.get (slotOf key) = some (.leaf k v)) (other : k ≠ key)
    (recurse : Empty → Option V) :
    (n.exhausted (slotOf key) key value).1.find recurse (slotOf key) key = none := by
  have occupied : n.bitmap.getLsbD (slotOf key) = true := occupied_of_get at_slot
  have stored : n.entries[rank n.bitmap (slotOf key)]? = some (.leaf k v) := by
    rw [← get_of_occupied n.entries occupied]
    exact at_slot
  have next := next_slot (low key)
  have next_low : (slotOf key + 1) &&& MASK < 32 := by
    rw [next]
    have := low key
    split <;> omega
  suffices elsewhere : ∃ k v, k ≠ key ∧
      (n.exhausted (slotOf key) key value).1.entries[
        (n.exhausted (slotOf key) key value).1.index (slotOf key)]? = some (.leaf k v) by
    obtain ⟨k', v', other', found⟩ := elsewhere
    unfold Node.find
    rw [found]
    simp [other']
  have position : (n.exhausted (slotOf key) key value).1.index (slotOf key) =
      rank (n.bitmap ||| 1#32 <<< ((slotOf key + 1) &&& MASK)) (slotOf key) :=
    Node.index_eq _ (low key)
  have inserted : (n.exhausted (slotOf key) key value).1.entries =
      n.entries.insertIdx (rank (n.bitmap ||| 1#32 <<< ((slotOf key + 1) &&& MASK))
        ((slotOf key + 1) &&& MASK)) (.leaf key value) := by
    simp only [Node.exhausted]
    rw [Node.index_eq _ next_low]
  rw [position, inserted]
  by_cases last : slotOf key = 31
  · rw [if_pos last] at next
    rw [next, rank_zero, List.insertIdx_zero]
    by_cases taken : n.bitmap.getLsbD 0 = true
    · rw [setBit_of_occupied taken]
      have below : rank n.bitmap (slotOf key) - 1 < rank n.bitmap (slotOf key) := by
        have positive : rank n.bitmap 0 < rank n.bitmap (slotOf key) :=
          rank_lt_rank n.bitmap taken (by omega)
        omega
      obtain ⟨i, before, occupied_i, at_i⟩ := exists_rank_eq n.bitmap below
      obtain ⟨e, found⟩ := get_isSome ordered.aligned occupied_i
      match e with
      | .branch child => exact child.elim
      | .leaf k' v' =>
        have fits : slotOf k' = i := ordered.fits i _ found
        rw [get_of_occupied n.entries occupied_i] at found
        refine ⟨k', v', by rintro rfl; omega, ?_⟩
        rw [show rank n.bitmap (slotOf key) = rank n.bitmap i + 1 by omega, List.getElem?_cons_succ,
          found]
    · refine ⟨k, v, other, ?_⟩
      rw [rank_setBit n.bitmap (by decide) (by simpa using taken), if_pos (by omega),
        List.getElem?_cons_succ, stored]
  · rw [if_neg last] at next
    have same : rank (n.bitmap ||| 1#32 <<< (slotOf key + 1)) (slotOf key) =
        rank n.bitmap (slotOf key) := by
      by_cases taken : n.bitmap.getLsbD (slotOf key + 1) = true
      · rw [setBit_of_occupied taken]
      · rw [rank_setBit n.bitmap (next ▸ next_low) (by simpa using taken), if_neg (by omega),
          Nat.add_zero]
    have still : (n.bitmap ||| 1#32 <<< (slotOf key + 1)).getLsbD (slotOf key) = true := by
      rw [getLsbD_setBit _ (next ▸ next_low), occupied, Bool.true_or]
    have after := rank_lt_rank _ still (Nat.lt_succ_self (slotOf key))
    refine ⟨k, v, other, ?_⟩
    rw [next, List.getElem?_insertIdx, if_pos after, same, stored]

end NodeLaws

section TrieLaws
variable {K V : Type} (hash : K → BitVec w)

def slotOf (depth : Nat) (key : K) : Nat := slot_at (hash key) depth

theorem slotOf_lt (depth : Nat) (key : K) : slotOf hash depth key < 32 := slot_at_lt _ _

variable [DecidableEq K]

/-- What a subtrie at `depth` finds for a key. -/
def look (r depth : Nat) (t : Trie K V r) (key : K) : Option V :=
  find_impl r (some t) depth (hash key) key

/-- The trie invariant: every node is aligned and files every key under its slot. -/
def WF : (r depth : Nat) → Trie K V r → Prop
  | 0, depth, n => Node.Ordered (slotOf hash depth) Empty.elim Empty.elim n
  | r + 1, depth, n =>
    Node.Ordered (slotOf hash depth) (look hash r (depth + 1)) (WF r (depth + 1)) n

theorem look_zero (depth : Nat) (t : Trie K V 0) :
    look hash 0 depth t = Node.look (slotOf hash depth) Empty.elim t := by
  funext key
  exact congrArg (fun recurse => Node.find recurse (slot_at (hash key) depth) key t)
    (funext nofun)

theorem find_impl_eq (r depth : Nat) (t : Option (Trie K V r)) (key : K) :
    find_impl r t depth (hash key) key = lookFrom (look hash r depth) t key := by
  cases t with
  | none => cases r <;> rfl
  | some t => rfl

/-- No other bound key shares all slots from `depth` on with `key`. -/
def NoClash (r depth : Nat) (t : Option (Trie K V r)) (key : K) : Prop :=
  ∀ k, (lookFrom (look hash r depth) t k).isSome →
    (∀ d, depth ≤ d → d ≤ depth + r → slotOf hash d k = slotOf hash d key) → k = key

variable {hash}

theorem NoClash.below {r depth : Nat} {n : Trie K V (r + 1)} {key k : K}
    (clear : NoClash hash (r + 1) depth (some n) key)
    (bound : (look hash (r + 1) depth n k).isSome)
    (here : slotOf hash depth k = slotOf hash depth key)
    (rest : ∀ d, depth + 1 ≤ d → d ≤ depth + 1 + r → slotOf hash d k = slotOf hash d key) :
    k = key := by
  refine clear k bound ?_
  intro d lower upper
  rcases Nat.eq_or_lt_of_le lower with rfl | deeper
  · exact here
  · exact rest d deeper (by omega)

theorem look_at_slot {r depth : Nat} {n : Trie K V (r + 1)} {slot : Nat}
    {e : NodeEntry (Trie K V r) K V} (at_slot : Node.get n slot = some e) {k : K}
    (here : slotOf hash depth k = slot) :
    look hash (r + 1) depth n k = e.look (look hash r (depth + 1)) k := by
  have entry := Node.look_eq (slotOf_lt hash depth) (look hash r (depth + 1)) n k
  rw [here, at_slot] at entry
  exact entry

theorem set_impl_spec (r depth : Nat) (t : Option (Trie K V r)) (key : K) (value : V)
    (wf : ∀ n ∈ t, WF hash r depth n) (clear : NoClash hash r depth t key) :
    WF hash r depth (set_impl hash r t depth (hash key) key value).1 ∧
    look hash r depth (set_impl hash r t depth (hash key) key value).1 =
      Function.update (lookFrom (look hash r depth) t) key (some value) ∧
    (set_impl hash r t depth (hash key) key value).2 =
      (lookFrom (look hash r depth) t key).isNone := by
  induction r generalizing depth key value with
  | zero =>
    rw [look_zero]
    match t with
    | none =>
      obtain ⟨ordered, found⟩ := Node.single_spec (slotOf_lt hash depth) Empty.elim Empty.elim key value
      exact ⟨ordered, found, rfl⟩
    | some n =>
      have ordered : Node.Ordered (slotOf hash depth) Empty.elim Empty.elim n := wf n rfl
      rw [lookFrom_some, look_zero]
      refine Node.set_spec (slotOf_lt hash depth) ordered key value (fun child _ => child.elim) ?_
      intro k v other at_slot
      refine absurd (clear k ?_ ?_) other
      · have entry := Node.look_eq (slotOf_lt hash depth) Empty.elim n k
        have here : slotOf hash depth k = slotOf hash depth key := ordered.fits _ _ at_slot
        rw [here, at_slot] at entry
        rw [lookFrom_some, look_zero]
        exact entry ▸ by simp [NodeEntry.look]
      · intro d lower upper
        obtain rfl : d = depth := by omega
        exact ordered.fits _ _ at_slot
  | succ r ih =>
    match t with
    | none =>
      obtain ⟨ordered, found⟩ := Node.single_spec (slotOf_lt hash depth) (look hash r (depth + 1))
        (WF hash r (depth + 1)) key value
      exact ⟨ordered, found, rfl⟩
    | some n =>
      have ordered : Node.Ordered (slotOf hash depth) (look hash r (depth + 1))
        (WF hash r (depth + 1)) n := wf n rfl
      refine Node.set_spec (slotOf_lt hash depth) ordered key value ?_ ?_
      · intro child at_slot
        have fits := ordered.fits _ _ at_slot
        refine ih (depth + 1) (some child) key value (by rintro _ ⟨⟩; exact fits.1) ?_
        intro k bound rest
        obtain ⟨v, found⟩ := Option.isSome_iff_exists.mp bound
        have here := fits.2 k v found
        exact clear.below (by rw [look_at_slot at_slot here]; exact bound) here rest
      · intro k v other at_slot
        have here : slotOf hash depth k = slotOf hash depth key := ordered.fits _ _ at_slot
        obtain ⟨wf₁, look₁, _⟩ := ih (depth + 1) none k v nofun nofun
        have apart : NoClash hash r (depth + 1)
            (some (set_impl hash r none (depth + 1) (hash k) k v).1) key := by
          intro q bound rest
          rw [lookFrom_some, look₁, Function.update_apply] at bound
          split at bound
          · next same =>
            subst q
            refine absurd (clear.below ?_ here rest) other
            rw [look_at_slot at_slot here]
            simp [NodeEntry.look]
          · contradiction
        obtain ⟨wf₂, look₂, fresh⟩ := ih (depth + 1) _ key value (by rintro _ ⟨⟩; exact wf₁) apart
        refine ⟨_, ?_, wf₂, ?_⟩
        · rw [lookFrom_some, look₁, Function.update_of_ne (Ne.symm other)] at fresh
          exact Prod.ext rfl fresh
        · rw [look₂, lookFrom_some, look₁]
          rfl

theorem erase_impl_spec (r depth : Nat) (t : Option (Trie K V r)) (key : K)
    (wf : ∀ n ∈ t, WF hash r depth n) :
    (∀ n ∈ (erase_impl r t depth (hash key) key).1, WF hash r depth n) ∧
    lookFrom (look hash r depth) (erase_impl r t depth (hash key) key).1 =
      Function.update (lookFrom (look hash r depth) t) key none ∧
    (erase_impl r t depth (hash key) key).2 = (lookFrom (look hash r depth) t key).isSome := by
  induction r generalizing depth with
  | zero =>
    match t with
    | none => exact ⟨nofun, (Function.update_eq_self key _).symm, rfl⟩
    | some n =>
      have level : look (V := V) hash 0 depth = Node.look (slotOf hash depth) Empty.elim :=
        funext (look_zero hash depth)
      rw [level]
      exact Node.erase_spec (slotOf_lt hash depth) (wf n rfl) key (fun child _ => child.elim)
  | succ r ih =>
    match t with
    | none => exact ⟨nofun, (Function.update_eq_self key _).symm, rfl⟩
    | some n =>
      have ordered : Node.Ordered (slotOf hash depth) (look hash r (depth + 1))
        (WF hash r (depth + 1)) n := wf n rfl
      refine Node.erase_spec (slotOf_lt hash depth) ordered key ?_
      intro child at_slot
      have fits := ordered.fits _ _ at_slot
      exact ih (depth + 1) (some child) (by rintro _ ⟨⟩; exact fits.1)

theorem for_each_impl_spec (r depth : Nat) (t : Trie K V r) (wf : WF hash r depth t) :
    Lists (look hash r depth t) (for_each_impl r t) := by
  induction r generalizing depth with
  | zero =>
    have level : look (V := V) hash 0 depth = Node.look (slotOf hash depth) Empty.elim :=
      funext (look_zero hash depth)
    rw [level]
    exact Node.toList_spec (slotOf_lt hash depth) wf nofun
  | succ r ih => exact Node.toList_spec (slotOf_lt hash depth) wf (ih (depth + 1))

/-- Setting a key whose slots are all those of another bound key loses it. -/
theorem set_impl_clash (r depth : Nat) (t : Trie K V r) (key k : K) (value : V)
    (wf : WF hash r depth t) (bound : (look hash r depth t k).isSome) (other : k ≠ key)
    (agree : ∀ d, depth ≤ d → d ≤ depth + r → slotOf hash d k = slotOf hash d key) :
    look hash r depth (set_impl hash r (some t) depth (hash key) key value).1 key = none := by
  have here : ∀ depth r, (∀ d, depth ≤ d → d ≤ depth + r → slotOf hash d k = slotOf hash d key) →
      slotOf hash depth k = slotOf hash depth key :=
    fun depth r agree => agree depth (Nat.le_refl _) (Nat.le_add_right _ _)
  induction r generalizing depth with
  | zero =>
    rw [look_zero] at bound ⊢
    refine Node.set_clash (slotOf_lt hash depth) wf value other (here depth 0 agree) bound
      (fun child _ => child.elim) ?_
    intro v at_slot
    exact Node.exhausted_find (slotOf_lt hash depth) wf at_slot other _
  | succ r ih =>
    have deeper : ∀ d, depth + 1 ≤ d → d ≤ depth + 1 + r → slotOf hash d k = slotOf hash d key :=
      fun d lower upper => agree d (by omega) (by omega)
    have ordered : Node.Ordered (slotOf hash depth) (look hash r (depth + 1))
      (WF hash r (depth + 1)) t := wf
    refine Node.set_clash (slotOf_lt hash depth) wf value other (here depth _ agree) bound ?_ ?_
    · intro child at_slot inside
      exact ih (depth + 1) child (ordered.fits _ _ at_slot).1 inside deeper
    · intro v at_slot
      obtain ⟨wf₁, look₁, _⟩ := set_impl_spec r (depth + 1) none k v nofun nofun
      refine (Node.look_of_set (slotOf_lt hash depth) ordered.aligned at_slot _).trans ?_
      refine ih (depth + 1) _ wf₁ ?_ deeper
      rw [look₁, Function.update_self]
      rfl

end TrieLaws

end AoSdl.PersistentMap
