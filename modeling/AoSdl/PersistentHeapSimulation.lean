import AoSdl.Lib.Arena
import AoSdl.PersistentHeap

/-! The heap operations simulate the operations on immutable tries. A trie is represented
by the cells of a view; the result of an operation uses cells of the old view and cells
allocated since, so everything that existed before is still represented. -/
namespace AoSdl.PersistentHeap
open Lib.Arena
open PersistentMap (MAX_DEPTH slot_at Trie WF look)

section Simulation
variable {K V C : Type}

/-- An entry of a cell stands for an entry of an immutable node. -/
def EntryRep (rep : Nat → C → Prop) (e : NodeEntry K V) : PersistentMap.NodeEntry C K V → Prop
  | .leaf k v => e = ⟨none, k, v⟩
  | .branch c => ∃ child, e.child = some child ∧ rep child c

structure NodeRep (rep : Nat → C → Prop) (cell : Node K V) (n : PersistentMap.Node C K V) :
    Prop where
  bitmap : cell.bitmap = n.bitmap
  entries : List.Forall₂ (EntryRep rep) cell.entries n.entries

/-- The cells of the view form a trie under an address. -/
def Represents (m : Nat → Option (Node K V)) : (r : Nat) → Nat → Trie K V r → Prop
  | 0, a, n => ∃ cell, m a = some cell ∧ NodeRep (fun _ c => Empty.elim c) cell n
  | r + 1, a, n => ∃ cell, m a = some cell ∧ NodeRep (Represents m r) cell n

variable {m m' : Nat → Option (Node K V)}

theorem NodeRep.mono {rep rep' : Nat → C → Prop} {cell : Node K V}
    {n : PersistentMap.Node C K V} (holds : NodeRep rep cell n)
    (step : ∀ a c, rep a c → rep' a c) : NodeRep rep' cell n := by
  refine ⟨holds.bitmap, holds.entries.imp ?_⟩
  intro e e' related
  cases e' with
  | leaf k v => exact related
  | branch c =>
    obtain ⟨child, at_child, below⟩ := related
    exact ⟨child, at_child, step child c below⟩

theorem Represents.mono (sub : Sub m m') {r a : Nat} {t : Trie K V r}
    (holds : Represents m r a t) : Represents m' r a t := by
  induction r generalizing a with
  | zero =>
    obtain ⟨cell, at_a, node⟩ := holds
    exact ⟨cell, sub a cell at_a, node⟩
  | succ r ih =>
    obtain ⟨cell, at_a, node⟩ := holds
    exact ⟨cell, sub a cell at_a, node.mono fun _ _ below => ih below⟩

theorem NodeRep.has_eq {rep : Nat → C → Prop} {cell : Node K V} {n : PersistentMap.Node C K V}
    (holds : NodeRep rep cell n) (slot : Nat) : cell.has slot = n.has slot :=
  congrArg (BitVec.getLsbD · slot) holds.bitmap

theorem NodeRep.index_eq {rep : Nat → C → Prop} {cell : Node K V} {n : PersistentMap.Node C K V}
    (holds : NodeRep rep cell n) (slot : Nat) : cell.index slot = n.index slot := by
  rw [Node.index, holds.bitmap]
  rfl

theorem NodeRep.set {rep : Nat → C → Prop} {cell : Node K V} {n : PersistentMap.Node C K V}
    (holds : NodeRep rep cell n) (idx : Nat) {e : NodeEntry K V} {e' : PersistentMap.NodeEntry C K V}
    (new : EntryRep rep e e') :
    NodeRep rep { cell with entries := cell.entries.set idx e }
      { n with entries := n.entries.set idx e' } :=
  ⟨holds.bitmap, related_set holds.entries idx new⟩

theorem NodeRep.insert {rep : Nat → C → Prop} {cell : Node K V} {n : PersistentMap.Node C K V}
    (holds : NodeRep rep cell n) (bit idx : Nat) (key : K) (value : V) :
    NodeRep rep ⟨cell.bitmap ||| 1#32 <<< bit, cell.entries.insertIdx idx ⟨none, key, value⟩⟩
      ⟨n.bitmap ||| 1#32 <<< bit, n.entries.insertIdx idx (.leaf key value)⟩ :=
  ⟨congrArg (· ||| 1#32 <<< bit) holds.bitmap, related_insert holds.entries idx rfl⟩

theorem NodeRep.remove {rep : Nat → C → Prop} {cell : Node K V} {n : PersistentMap.Node C K V}
    (holds : NodeRep rep cell n) (slot : Nat) :
    NodeRep rep (cell.remove slot) (n.remove slot) := by
  refine ⟨congrArg (· &&& ~~~(1#32 <<< slot)) holds.bitmap, ?_⟩
  simp only [Node.remove, PersistentMap.Node.remove, holds.index_eq]
  exact related_erase holds.entries _

theorem NodeRep.marked_index {rep : Nat → C → Prop} {cell : Node K V}
    {n : PersistentMap.Node C K V} (holds : NodeRep rep cell n) (bit slot : Nat) :
    Node.index { cell with bitmap := cell.bitmap ||| 1#32 <<< bit } slot =
      PersistentMap.Node.index { n with bitmap := n.bitmap ||| 1#32 <<< bit } slot := by
  rw [Node.index, holds.bitmap]
  rfl

/-- What an occupied slot leads to, on both sides: a leaf, or a child and its address. -/
theorem NodeRep.entry {rep : Nat → C → Prop} {cell : Node K V} {n : PersistentMap.Node C K V}
    (holds : NodeRep rep cell n) {slotOf : K → Nat} {look : C → K → Option V} {ok : C → Prop}
    (ordered : n.Ordered slotOf look ok) {slot : Nat} (low : slot < 32) (present : n.has slot = true) :
    (∃ k v, n.entries[n.index slot]? = some (.leaf k v) ∧
      cell.entries[n.index slot]? = some ⟨none, k, v⟩) ∨
    ∃ c child k v, n.entries[n.index slot]? = some (.branch c) ∧
      cell.entries[n.index slot]? = some ⟨some child, k, v⟩ ∧ rep child c ∧ ok c := by
  obtain ⟨e, at_slot⟩ := Lib.SparseArray.get_isSome ordered.aligned present
  have stored := (PersistentMap.Node.get_of_has low present).symm.trans at_slot
  obtain ⟨entry, at_idx, related⟩ := related_get holds.entries stored
  cases e with
  | leaf k v =>
    obtain rfl := related
    exact .inl ⟨k, v, stored, at_idx⟩
  | branch c =>
    obtain ⟨child, pointer, below⟩ := related
    obtain ⟨_, k, v⟩ := entry
    obtain rfl := pointer
    exact .inr ⟨c, child, k, v, stored, at_idx, below, (ordered.fits _ _ at_slot).1⟩

variable {heap heap' : Heap K V}

theorem represents_written {rep : Nat → C → Prop} {cell cell' : Node K V}
    (longer : heap ++ [cell] <+: heap') {n : PersistentMap.Node C K V} (holds : NodeRep rep cell' n) :
    heap <+: heap'.set heap.length cell' ∧
      ∃ c, grow m heap (heap'.set heap.length cell') heap.length = some c ∧ NodeRep rep c n :=
  ⟨prefix_of_write longer cell', cell', grow_written m longer cell', holds⟩

theorem publish_refines {rep : Nat → C → Prop} {cell cell' : Node K V}
    (longer : heap ++ [cell] <+: heap') {n : PersistentMap.Node C K V} (holds : NodeRep rep cell' n) :
    ∃ a, publish heap' heap.length cell' = (heap'.set heap.length cell', a, true) ∧
      heap <+: heap'.set heap.length cell' ∧
      Option.Rel (fun a n => ∃ c, grow m heap (heap'.set heap.length cell') a = some c ∧
        NodeRep rep c n) a n.nonempty := by
  obtain ⟨prior, cell_at⟩ := represents_written (m := m) longer holds
  refine ⟨_, rfl, prior, ?_⟩
  rw [PersistentMap.Node.nonempty, related_isEmpty holds.entries]
  split
  · exact .none
  · exact .some cell_at

variable [DecidableEq K] {hash : K → BitVec w}

theorem represents_single (r depth : Nat) (h : BitVec w) (key : K) (value : V) :
    Represents (grow m heap (heap ++ [⟨1#32 <<< slot_at h depth, [⟨none, key, value⟩]⟩])) r
      heap.length (PersistentMap.set_impl hash r none depth h key value).1 := by
  have cell : grow m heap (heap ++ [⟨1#32 <<< slot_at h depth, [⟨none, key, value⟩]⟩]) heap.length =
      some ⟨1#32 <<< slot_at h depth, [⟨none, key, value⟩]⟩ := by simp [grow]
  cases r <;> exact ⟨_, cell, rfl, .cons rfl .nil⟩

-- One node of an operation, over whatever represents its children.
section OneNode
variable {fuel depth node : Nat} {cell : Node K V} {n : PersistentMap.Node C K V} {slotOf : K → Nat}
  {look : C → K → Option V} {ok : C → Prop}

theorem find_node {rep : Nat → C → Prop} {recurse : C → Option V} {h : BitVec w} {key : K}
    (below : ∀ child c, rep child c → ok c →
      find_impl fuel heap (some child) (depth + 1) h key = some (recurse c))
    (read : heap[node]? = some cell) (shape : NodeRep rep cell n) (ordered : n.Ordered slotOf look ok) :
    find_impl (fuel + 1) heap (some node) depth h key =
      some (n.find recurse (slot_at h depth) key) := by
  unfold find_impl PersistentMap.Node.find
  simp only [read, shape.has_eq, shape.index_eq, Option.bind_eq_bind, Option.bind_some]
  by_cases present : n.has (slot_at h depth) = true
  · rcases shape.entry ordered (PersistentMap.slot_at_lt _ _) present with
      ⟨k, v, stored, at_idx⟩ | ⟨c, child, k, v, stored, at_idx, held, fine⟩
    · simp only [if_pos present, stored, at_idx, Option.bind_some]
    · simp only [if_pos present, stored, at_idx, Option.bind_some]
      exact below child c held fine
  · simp only [if_neg present]

variable (rep : (Nat → Option (Node K V)) → Nat → C → Prop)
  (mono : ∀ {m m'}, Sub m m' → ∀ a c, rep m a c → rep m' a c)
include mono

theorem erase_node {recurse : C → Option C × Bool} {h : BitVec w} {key : K}
    (below : ∀ {heap child c}, Sub m (view heap) → rep m child c → ok c →
      ∃ heap' a, erase_impl fuel heap (some child) (depth + 1) h key =
          some (heap', a, (recurse c).2) ∧ heap <+: heap' ∧
        Option.Rel (rep (grow m heap heap')) a (recurse c).1)
    (sub : Sub m (view heap)) (at_node : m node = some cell) (shape : NodeRep (rep m) cell n)
    (ordered : n.Ordered slotOf look ok) :
    ∃ heap' a, erase_impl (fuel + 1) heap (some node) depth h key =
        some (heap', a, (n.erase recurse (slot_at h depth) key).2) ∧ heap <+: heap' ∧
      Option.Rel (fun a n => ∃ c, grow m heap heap' a = some c ∧ NodeRep (rep (grow m heap heap')) c n)
        a (n.erase recurse (slot_at h depth) key).1 := by
  have read : heap[node]? = some cell := sub node cell at_node
  have copied := List.prefix_refl (heap ++ [cell])
  have kept : ∀ heap', NodeRep (rep (grow m heap heap')) cell n :=
    fun heap' => shape.mono (mono (sub_grow sub heap'))
  have unchanged : ∀ heap', ∃ c, grow m heap heap' node = some c ∧
      NodeRep (rep (grow m heap heap')) c n :=
    fun heap' => ⟨cell, sub_grow sub heap' node cell at_node, kept heap'⟩
  unfold erase_impl PersistentMap.Node.erase
  simp only [read, shape.has_eq, shape.index_eq, Option.bind_eq_bind, Option.bind_some]
  by_cases present : n.has (slot_at h depth) = true
  · rcases shape.entry ordered (PersistentMap.slot_at_lt _ _) present with
      ⟨k, v, stored, at_idx⟩ | ⟨c, child, k, v, stored, at_idx, held, fine⟩
    · simp only [if_pos present, stored, at_idx, Option.bind_some]
      by_cases same : k = key
      · obtain ⟨a, published, prior, result⟩ :=
          publish_refines (m := m) copied ((kept _).remove (slot_at h depth))
        simp only [if_pos same, published]
        exact ⟨_, _, rfl, prior, result⟩
      · simp only [if_neg same]
        exact ⟨_, _, rfl, List.prefix_append _ _, .some (unchanged _)⟩
    · have sub' : Sub m (view (heap ++ [cell])) :=
        sub.trans (sub_of_isPrefix (List.prefix_append heap [cell]))
      obtain ⟨heap', a, ran, longer, result⟩ := below sub' held fine
      simp only [if_pos present, stored, at_idx, ran, Option.bind_some]
      rcases erased : recurse c with ⟨c', flag⟩
      rw [erased] at result
      cases flag with
      | false =>
        have prior : heap <+: heap' := (List.prefix_append _ _).trans longer
        cases result <;> exact ⟨_, _, rfl, prior, .some (unchanged _)⟩
      | true =>
        cases result with
        | none =>
          obtain ⟨a, published, prior, result⟩ :=
            publish_refines (m := m) longer ((kept _).remove (slot_at h depth))
          exact ⟨_, _, congrArg some published, prior, result⟩
        | @some b c₁ held' =>
          have new : ∀ cell', EntryRep (rep (grow m heap (heap'.set heap.length cell')))
              ⟨some b, k, v⟩ (.branch c₁) :=
            fun _ => ⟨b, rfl, mono (grow_write cell sub heap' _) b c₁ held'⟩
          obtain ⟨a, published, prior, result⟩ :=
            publish_refines (m := m) longer ((kept _).set _ (new _))
          exact ⟨_, _, congrArg some published, prior, result⟩
  · simp only [if_neg present]
    exact ⟨_, _, rfl, List.prefix_refl _, .some (unchanged _)⟩

variable [Inhabited K] [Inhabited V]

/-- Where two keys share a slot, the last level has room behind it and any other level
makes a child of the old leaf first. -/
theorem set_node {recurse : C → C × Bool} {collide : Nat → K → V → PersistentMap.Node C K V × Bool}
    {key : K} {value : V}
    (below : ∀ {m heap child c}, Sub m (view heap) → rep m child c → ok c →
      ∃ heap' a, set_impl hash fuel heap (some child) (depth + 1) (hash key) key value =
          some (heap', a, (recurse c).2) ∧ heap <+: heap' ∧ rep (grow m heap heap') a (recurse c).1)
    (collides : (MAX_DEPTH w - 1 ≤ depth ∧
        collide = fun _ _ _ => n.exhausted (slot_at (hash key) depth) key value) ∨
      (depth < MAX_DEPTH w - 1 ∧ ∃ single : K → V → C,
        (collide = fun idx k v =>
          ({ n with entries := n.entries.set idx (.branch (recurse (single k v)).1) },
            (recurse (single k v)).2)) ∧
        ∀ {m heap} k v, Sub m (view heap) →
          ∃ heap' a flag, set_impl hash fuel heap none (depth + 1) (hash k) k v =
              some (heap', a, flag) ∧ heap <+: heap' ∧ rep (grow m heap heap') a (single k v) ∧
            ok (single k v)))
    (sub : Sub m (view heap)) (at_node : m node = some cell) (shape : NodeRep (rep m) cell n)
    (ordered : n.Ordered slotOf look ok) :
    ∃ heap' a, set_impl hash (fuel + 1) heap (some node) depth (hash key) key value =
        some (heap', a, (n.set recurse collide (slot_at (hash key) depth) key value).2) ∧
      heap <+: heap' ∧ ∃ c, grow m heap heap' a = some c ∧ NodeRep (rep (grow m heap heap')) c
        (n.set recurse collide (slot_at (hash key) depth) key value).1 := by
  have read : heap[node]? = some cell := sub node cell at_node
  have copied := List.prefix_refl (heap ++ [cell])
  have kept : ∀ heap', NodeRep (rep (grow m heap heap')) cell n :=
    fun heap' => shape.mono (mono (sub_grow sub heap'))
  have sub' : Sub m (view (heap ++ [cell])) :=
    sub.trans (sub_of_isPrefix (List.prefix_append heap [cell]))
  unfold set_impl PersistentMap.Node.set
  simp only [read, shape.has_eq, shape.index_eq, Option.bind_eq_bind, Option.bind_some]
  by_cases present : n.has (slot_at (hash key) depth) = true
  · rcases shape.entry ordered (PersistentMap.slot_at_lt _ _) present with
      ⟨k, v, stored, at_idx⟩ | ⟨c, child, k, v, stored, at_idx, held, fine⟩
    · simp only [if_pos present, stored, at_idx, Option.bind_some]
      by_cases same : k = key
      · simp only [if_pos same]
        exact ⟨_, _, rfl, represents_written copied ((kept _).set _ rfl)⟩
      rcases collides with ⟨last, rfl⟩ | ⟨early, single, rfl, begun⟩
      · simp only [if_neg same, if_pos last, PersistentMap.Node.exhausted]
        refine ⟨_, _, rfl, represents_written copied ?_⟩
        rw [shape.marked_index]
        exact (kept _).insert _ _ key value
      · obtain ⟨heap₁, b₁, flag, ran₁, longer₁, held₁, fine₁⟩ := begun k v sub'
        obtain ⟨heap₂, b₂, ran₂, longer₂, held₂⟩ := below (grow_sub sub' longer₁) held₁ fine₁
        have joined := mono (grow_trans longer₁ longer₂) _ _ held₂
        simp only [if_neg same, if_neg (Nat.not_le_of_lt early), ran₁, ran₂, Option.bind_some]
        exact ⟨_, _, rfl, represents_written (longer₁.trans longer₂)
          ((kept _).set _ ⟨b₂, rfl, mono (grow_write cell sub heap₂ _) _ _ joined⟩)⟩
    · obtain ⟨heap', a, ran, longer, result⟩ := below sub' held fine
      simp only [if_pos present, stored, at_idx, ran, Option.bind_some]
      exact ⟨_, _, rfl, represents_written longer
        ((kept _).set _ ⟨a, rfl, mono (grow_write cell sub heap' _) _ _ result⟩)⟩
  · simp only [if_neg present]
    exact ⟨_, _, rfl, represents_written copied ((kept _).insert _ _ _ _)⟩

end OneNode

theorem erase_impl_refines (r : Nat) {fuel depth : Nat} {heap : Heap K V} {node : Option Nat}
    {t : Option (Trie K V r)} (key : K) (enough : r < fuel) (sub : Sub m (view heap))
    (rep : Option.Rel (Represents m r) node t) (wf : ∀ n ∈ t, WF hash r depth n) :
    ∃ heap' a, erase_impl fuel heap node depth (hash key) key = some (heap', a,
        (PersistentMap.erase_impl r t depth (hash key) key).2) ∧ heap <+: heap' ∧
      Option.Rel (Represents (grow m heap heap') r) a
        (PersistentMap.erase_impl r t depth (hash key) key).1 := by
  induction r generalizing fuel depth heap node m with
  | zero =>
    obtain ⟨fuel, rfl⟩ := Nat.exists_eq_succ_of_ne_zero (Nat.ne_of_gt enough)
    cases rep with
    | none => exact ⟨_, _, rfl, List.prefix_refl _, .none⟩
    | @some node n holds =>
      obtain ⟨cell, at_node, shape⟩ := holds
      have ordered : PersistentMap.Node.Ordered _ Empty.elim Empty.elim n := wf n rfl
      exact erase_node (fun _ _ c => Empty.elim c) (fun _ _ c => c.elim) (fun {_ _ c} => c.elim) sub
        at_node shape ordered
  | succ r ih =>
    obtain ⟨fuel, rfl⟩ := Nat.exists_eq_succ_of_ne_zero (Nat.ne_zero_of_lt enough)
    cases rep with
    | none => exact ⟨_, _, rfl, List.prefix_refl _, .none⟩
    | @some node n holds =>
      obtain ⟨cell, at_node, shape⟩ := holds
      have ordered : PersistentMap.Node.Ordered _ (look hash r (depth + 1)) (WF hash r (depth + 1)) n :=
        wf n rfl
      refine erase_node (fun m => Represents m r) (fun sub _ _ => Represents.mono sub) ?_ sub
        at_node shape ordered
      intro heap child c sub held fine
      exact ih (Nat.lt_of_succ_lt_succ enough) sub (.some held) (by rintro _ ⟨⟩; exact fine)

theorem find_impl_refines (r : Nat) {fuel depth : Nat} {node : Option Nat}
    {t : Option (Trie K V r)} (key : K) (enough : r < fuel) (sub : Sub m (view heap))
    (rep : Option.Rel (Represents m r) node t) (wf : ∀ n ∈ t, WF hash r depth n) :
    find_impl fuel heap node depth (hash key) key =
      some (PersistentMap.find_impl r t depth (hash key) key) := by
  induction r generalizing fuel depth node with
  | zero =>
    obtain ⟨fuel, rfl⟩ := Nat.exists_eq_succ_of_ne_zero (Nat.ne_of_gt enough)
    cases rep with
    | none => rfl
    | @some node n holds =>
      obtain ⟨cell, at_node, shape⟩ := holds
      have ordered : PersistentMap.Node.Ordered _ Empty.elim Empty.elim n := wf n rfl
      exact find_node (fun _ c => c.elim) (sub node cell at_node) shape ordered
  | succ r ih =>
    obtain ⟨fuel, rfl⟩ := Nat.exists_eq_succ_of_ne_zero (Nat.ne_zero_of_lt enough)
    cases rep with
    | none => rfl
    | @some node n holds =>
      obtain ⟨cell, at_node, shape⟩ := holds
      have ordered : PersistentMap.Node.Ordered _ (look hash r (depth + 1)) (WF hash r (depth + 1)) n :=
        wf n rfl
      refine find_node ?_ (sub node cell at_node) shape ordered
      intro child c held fine
      exact ih (Nat.lt_of_succ_lt_succ enough) (.some held) (by rintro _ ⟨⟩; exact fine)

variable [Inhabited K] [Inhabited V]

theorem set_impl_refines (r : Nat) {fuel depth : Nat} {heap : Heap K V} {node : Option Nat}
    {t : Option (Trie K V r)} (key : K) (value : V) (enough : r < fuel)
    (level : depth + r = MAX_DEPTH w - 1) (sub : Sub m (view heap))
    (rep : Option.Rel (Represents m r) node t) (wf : ∀ n ∈ t, WF hash r depth n) :
    ∃ heap' a, set_impl hash fuel heap node depth (hash key) key value = some (heap', a,
        (PersistentMap.set_impl hash r t depth (hash key) key value).2) ∧ heap <+: heap' ∧
      Represents (grow m heap heap') r a
        (PersistentMap.set_impl hash r t depth (hash key) key value).1 := by
  induction r generalizing fuel depth heap node m key value with
  | zero =>
    obtain ⟨fuel, rfl⟩ := Nat.exists_eq_succ_of_ne_zero (Nat.ne_of_gt enough)
    cases rep with
    | none => exact ⟨_, _, rfl, List.prefix_append _ _, represents_single 0 depth _ key value⟩
    | @some node n holds =>
      obtain ⟨cell, at_node, shape⟩ := holds
      have ordered : PersistentMap.Node.Ordered _ Empty.elim Empty.elim n := wf n rfl
      exact set_node (fun _ _ c => Empty.elim c) (fun _ _ c => c.elim) (fun {_ _ _ c} => c.elim)
        (.inl ⟨Nat.le_of_eq level.symm, rfl⟩) sub at_node shape ordered
  | succ r ih =>
    obtain ⟨fuel, rfl⟩ := Nat.exists_eq_succ_of_ne_zero (Nat.ne_zero_of_lt enough)
    cases rep with
    | none => exact ⟨_, _, rfl, List.prefix_append _ _, represents_single (r + 1) depth _ key value⟩
    | @some node n holds =>
      obtain ⟨cell, at_node, shape⟩ := holds
      have ordered : PersistentMap.Node.Ordered _ (look hash r (depth + 1)) (WF hash r (depth + 1)) n :=
        wf n rfl
      have next : depth + 1 + r = MAX_DEPTH w - 1 := by omega
      have vacant : ∀ n ∈ (none : Option (Trie K V r)), WF hash r (depth + 1) n :=
        fun n inside => absurd inside (Option.not_mem_none n)
      have early : depth < MAX_DEPTH w - 1 := by omega
      refine set_node (fun m => Represents m r) (fun sub _ _ => Represents.mono sub) ?_ (.inr ⟨early,
        fun k v => (PersistentMap.set_impl hash r none (depth + 1) (hash k) k v).1, rfl, ?_⟩) sub
        at_node shape ordered
      · intro m heap child c sub held fine
        exact ih key value (Nat.lt_of_succ_lt_succ enough) next sub (.some held)
          (by rintro _ ⟨⟩; exact fine)
      · intro m heap k v sub
        obtain ⟨heap', a, ran, longer, result⟩ := ih k v (Nat.lt_of_succ_lt_succ enough) next sub
          .none vacant
        obtain ⟨fine, _, _⟩ := PersistentMap.set_impl_spec r (depth + 1) none k v vacant
          fun _ found => absurd found Bool.false_ne_true
        exact ⟨heap', a, _, ran, longer, result, fine⟩

end Simulation

end AoSdl.PersistentHeap
