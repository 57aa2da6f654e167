import AoSdl.PersistentHeapSimulation

/-! Iteration: `for_each` and the iterator of a represented trie visit the same bindings in
the same order. The number of loop steps left bounds the run of the iterator. -/
namespace AoSdl.PersistentHeap
open Lib.Arena
open PersistentMap (Trie)

section Walk
variable {K V : Type} {heap : Heap K V}

/-- What is visited in a list of entries, and how many loop steps that takes. -/
inductive Listing (below : Nat → List (K × V) → Nat → Prop) :
    List (NodeEntry K V) → List (K × V) → Nat → Prop where
  | nil : Listing below [] [] 0
  | leaf {e es l n} : e.child = none → Listing below es l n →
      Listing below (e :: es) ((e.key, e.value) :: l) (n + 1)
  | branch {e es child l₁ n₁ l n} : e.child = some child → below child l₁ n₁ →
      Listing below es l n → Listing below (e :: es) (l₁ ++ l) (n₁ + 2 + n)

/-- The visits below an address, through at most `r` levels. -/
def Visits (heap : Heap K V) : Nat → Nat → List (K × V) → Nat → Prop
  | 0, _, _, _ => False
  | r + 1, a, l, n => ∃ cell, heap[a]? = some cell ∧ Listing (Visits heap r) cell.entries l n

theorem listing_of_rep {C : Type} {rep : Nat → C → Prop} {inside : C → List (K × V)}
    {below : Nat → List (K × V) → Nat → Prop}
    (step : ∀ a c, rep a c → ∃ n, below a (inside c) n)
    {es : List (NodeEntry K V)} {es' : List (PersistentMap.NodeEntry C K V)}
    (related : List.Forall₂ (EntryRep rep) es es') :
    ∃ n, Listing below es (es'.flatMap (PersistentMap.NodeEntry.toList inside)) n := by
  induction related with
  | nil => exact ⟨0, .nil⟩
  | @cons e e' _ _ head _ ih =>
    obtain ⟨n, rest⟩ := ih
    cases e' with
    | leaf k v =>
      obtain rfl := head
      exact ⟨n + 1, .leaf rfl rest⟩
    | branch c =>
      obtain ⟨child, at_child, below_c⟩ := head
      obtain ⟨n₁, visits⟩ := step child c below_c
      exact ⟨n₁ + 2 + n, .branch at_child visits rest⟩

theorem visits_of_represents (r : Nat) {a : Nat} {t : Trie K V r}
    (holds : Represents (view heap) r a t) :
    ∃ n, Visits heap (r + 1) a (PersistentMap.for_each_impl r t) n := by
  induction r generalizing a with
  | zero =>
    obtain ⟨cell, at_a, shape⟩ := holds
    obtain ⟨n, listing⟩ : ∃ n, Listing (Visits heap 0) cell.entries
        (PersistentMap.for_each_impl 0 t) n :=
      listing_of_rep (fun _ c => c.elim) shape.entries
    exact ⟨n, cell, at_a, listing⟩
  | succ r ih =>
    obtain ⟨cell, at_a, shape⟩ := holds
    obtain ⟨n, listing⟩ := listing_of_rep (fun a c below => ih below) shape.entries
    exact ⟨n, cell, at_a, listing⟩

theorem for_each_impl_of_visits {r fuel a n : Nat} {l : List (K × V)} (enough : r ≤ fuel)
    (visits : Visits heap r a l n) : for_each_impl fuel heap a = some l := by
  induction r generalizing fuel a l n with
  | zero => exact visits.elim
  | succ r ih =>
    obtain ⟨fuel, rfl⟩ := Nat.exists_eq_succ_of_ne_zero (Nat.ne_zero_of_lt enough)
    obtain ⟨cell, at_a, listing⟩ := visits
    have visited : ∀ {es : List (NodeEntry K V)} {l : List (K × V)} {n : Nat},
        Listing (Visits heap r) es l n → ∃ parts,
          es.mapM (NodeEntry.visit (for_each_impl fuel heap)) = some parts ∧ parts.flatten = l := by
      intro es l n listing
      induction listing with
      | nil => exact ⟨[], rfl, rfl⟩
      | leaf at_leaf _ more =>
        obtain ⟨parts, mapped, flat⟩ := more
        refine ⟨[_] :: parts, ?_, congrArg (_ :: ·) flat⟩
        rw [List.mapM_cons, mapped, NodeEntry.visit, at_leaf]
        rfl
      | branch at_child below _ more =>
        obtain ⟨parts, mapped, flat⟩ := more
        refine ⟨_ :: parts, ?_, congrArg (_ ++ ·) flat⟩
        rw [List.mapM_cons, mapped, NodeEntry.visit, at_child]
        simp only [ih (Nat.le_of_succ_le_succ enough) below]
        rfl
    obtain ⟨parts, mapped, flat⟩ := visited listing
    simp only [for_each_impl, at_a, Option.bind_eq_bind, Option.bind_some, mapped, flat]

/-- What an iterator has still to visit, and in how many loop steps. -/
inductive Pending (heap : Heap K V) : Stack → List (K × V) → Nat → Prop where
  | nil : Pending heap [] [] 0
  | cons {node idx cell r l n rest l' n'} : heap[node]? = some cell →
      Listing (Visits heap r) (cell.entries.drop idx) l n → Pending heap rest l' n' →
      Pending heap (⟨node, idx⟩ :: rest) (l ++ l') (n + 1 + n')

theorem pop_pending {stack : Stack} {l : List (K × V)} {n : Nat}
    (pending : Pending heap stack l n) : ∃ stack' n', pop_if_exhausted heap stack = some stack' ∧
      Pending heap stack' l n' ∧ n' ≤ n := by
  cases pending with
  | nil => exact ⟨[], 0, rfl, .nil, Nat.le_refl 0⟩
  | @cons node idx cell r l n rest l' n' at_node listing later =>
    simp only [pop_if_exhausted, at_node, Option.bind_eq_bind, Option.bind_some]
    by_cases exhausted : cell.entries.length ≤ idx
    · rw [List.drop_eq_nil_of_le exhausted] at listing
      cases listing
      exact ⟨rest, n', by rw [if_pos exhausted], later, by omega⟩
    · exact ⟨_, _, by rw [if_neg exhausted], .cons at_node listing later, Nat.le_refl _⟩

/-- An iterator is at a leaf or at the end. -/
def Positioned (heap : Heap K V) (stack : Stack) (l : List (K × V)) (n : Nat) : Prop :=
  (stack = [] ∧ l = []) ∨ ∃ top rest entry l', stack = top :: rest ∧ l = entry :: l' ∧
    deref heap stack = some entry ∧ ∃ n' < n, Pending heap (⟨top.node, top.idx + 1⟩ :: rest) l' n'

theorem Positioned.mono {stack : Stack} {l : List (K × V)} {n n' : Nat} (le : n ≤ n')
    (positioned : Positioned heap stack l n) : Positioned heap stack l n' := by
  rcases positioned with done | ⟨top, rest, entry, l', shape, split, read, n₀, lt, pending⟩
  · exact .inl done
  · exact .inr ⟨top, rest, entry, l', shape, split, read, n₀, by omega, pending⟩

theorem descend_to_leaf_positions {fuel : Nat} {stack : Stack} {l : List (K × V)} {n : Nat}
    (enough : n < fuel) (pending : Pending heap stack l n) :
    ∃ stack', descend_to_leaf fuel heap stack = some stack' ∧ Positioned heap stack' l n := by
  induction fuel generalizing stack l n with
  | zero => contradiction
  | succ fuel ih =>
    cases pending with
    | nil => exact ⟨[], rfl, .inl ⟨rfl, rfl⟩⟩
    | @cons node idx cell r l n rest l' n' at_node listing later =>
      simp only [descend_to_leaf, at_node, Option.bind_eq_bind, Option.bind_some]
      cases at_idx : cell.entries[idx]? with
      | none =>
        have exhausted := List.getElem?_eq_none_iff.mp at_idx
        rw [List.drop_eq_nil_of_le exhausted] at listing
        cases listing
        obtain ⟨stack', ran, positioned⟩ := ih (by omega) later
        simp only [pop_if_exhausted, at_node, Option.bind_eq_bind, Option.bind_some,
          if_pos exhausted]
        exact ⟨stack', ran, positioned.mono (by omega)⟩
      | some e =>
        obtain ⟨inside, same⟩ := List.getElem?_eq_some_iff.mp at_idx
        rw [List.drop_eq_getElem_cons inside, same] at listing
        cases listing with
        | @leaf _ _ l n at_leaf more =>
          simp only [at_leaf]
          refine ⟨_, rfl, .inr ⟨_, _, _, _, rfl, rfl, ?_, _, ?_, .cons at_node more later⟩⟩
          · simp only [deref, at_node, at_idx, Option.bind_eq_bind, Option.bind_some]
          · omega
        | @branch _ _ child l₁ n₁ l n at_child below more =>
          cases r with
          | zero => exact below.elim
          | succ r =>
            obtain ⟨cell', at_cell', inner⟩ := below
            have pushed : Pending heap (⟨child, 0⟩ :: ⟨node, idx + 1⟩ :: rest) (l₁ ++ (l ++ l'))
                (n₁ + 1 + (n + 1 + n')) := .cons at_cell' inner (.cons at_node more later)
            obtain ⟨stack', n₂, popped, pending, le⟩ := pop_pending pushed
            obtain ⟨stack'', ran, positioned⟩ := ih (by omega) pending
            simp only [at_child, popped, Option.bind_some]
            rw [List.append_assoc]
            exact ⟨stack'', ran, positioned.mono (by omega)⟩

theorem loop_of_positioned {steps fuel : Nat} {stack : Stack} {l : List (K × V)} {n : Nat}
    (enough : n < steps) (deep : n ≤ fuel) (positioned : Positioned heap stack l n) :
    loop steps fuel heap stack = some l := by
  induction steps generalizing stack l n with
  | zero => contradiction
  | succ steps ih =>
    rcases positioned with ⟨rfl, rfl⟩ | ⟨top, rest, entry, l', rfl, rfl, read, n', lt, pending⟩
    · rfl
    · have shorter : n' < fuel := by omega
      obtain ⟨stack', ran, positioned⟩ := descend_to_leaf_positions shorter pending
      have moved : advance fuel heap (top :: rest) = some stack' := ran
      have tail := ih (by omega) (by omega) positioned
      simp only [loop, Stack.same, end_, read, moved, tail, Option.bind_eq_bind, Option.bind_some]
      rfl

/-- The loop over an iterator visits what `for_each` visits, in the same order. -/
theorem iterate_of_visits {r fuel root n : Nat} {l : List (K × V)} (enough : n + 1 < fuel)
    (visits : Visits heap r root l n) : iterate fuel heap (some root) = some l := by
  cases r with
  | zero => exact visits.elim
  | succ r =>
    obtain ⟨cell, at_root, listing⟩ := visits
    have start : Pending heap [⟨root, 0⟩] (l ++ []) (n + 1 + 0) := .cons at_root listing .nil
    rw [List.append_nil] at start
    obtain ⟨stack, ran, positioned⟩ := descend_to_leaf_positions enough start
    simp only [iterate, begin, ran, Option.bind_eq_bind, Option.bind_some]
    exact loop_of_positioned enough (by omega) positioned

end Walk

end AoSdl.PersistentHeap

/-! Versions of a map over one heap. Each step derives a new version from any earlier one;
all versions keep standing for the finite functions they were built to be. -/
namespace AoSdl.PersistentHeap
open Lib.Arena Lib.Bindings
open PersistentMap (MAX_DEPTH Op Refines contents)

section Versions
variable {K V : Type} [DecidableEq K] [Inhabited K] [Inhabited V] (hash : K → BitVec w)

structure Store (K V : Type) where
  heap : Heap K V := []
  versions : List Map := [{}]

structure Step (K V : Type) where
  base : Nat
  op : Op K V

/-- Nothing happens for a version that does not exist. -/
def derive (s : Store K V) (step : Step K V) : Option (Store K V) :=
  match s.versions[step.base]? with
  | none => some s
  | some m => do
    let (heap, m') ← apply hash s.heap m step.op
    some ⟨heap, s.versions ++ [m']⟩

/-- The finite functions of all versions; those of older versions never change. -/
def history (versions : List (K → Option V)) (step : Step K V) : List (K → Option V) :=
  match versions[step.base]? with
  | none => versions
  | some f => versions ++ [contents f step.op]

/-- A map of the heap is the finite function `f` for every way to read it. -/
structure Denotes (heap : Heap K V) (m : Map) (f : K → Option V) : Prop where
  find : ∀ k, find hash heap m k = some (f k)
  size : m.size_ = Set.ncard {k | (f k).isSome}
  for_each : ∃ l, for_each w heap m = some l ∧ Lists f l
  iterate : ∃ l, Lists f l ∧ ∃ least, ∀ fuel ≥ least, iterate fuel heap m.root_ = some l

end Versions

section Laws
variable {K V : Type} {hash : K → BitVec w} {heap heap' : Heap K V}

theorem rel_imp {A B : Type} {R S : A → B → Prop} (step : ∀ a b, R a b → S a b)
    {a : Option A} {b : Option B} (rel : Option.Rel R a b) : Option.Rel S a b := by
  cases rel with
  | none => exact .none
  | some holds => exact .some (step _ _ holds)

theorem rel_cases {A B : Type} {R : A → B → Prop} {a : Option A} {b : Option B}
    (rel : Option.Rel R a b) :
    (a = none ∧ b = none) ∨ ∃ x y, a = some x ∧ b = some y ∧ R x y := by
  cases rel with
  | none => exact .inl ⟨rfl, rfl⟩
  | some holds => exact .inr ⟨_, _, rfl, rfl, holds⟩

structure MapRep (heap : Heap K V) (m : Map) (pm : PersistentMap K V w) : Prop where
  root : Option.Rel (Represents (view heap) (MAX_DEPTH w - 1)) m.root_ pm.root_
  size : m.size_ = pm.size_

theorem MapRep.mono {m : Map} {pm : PersistentMap K V w} (rep : MapRep heap m pm)
    (longer : heap <+: heap') : MapRep heap' m pm :=
  ⟨rel_imp (fun _ _ holds => holds.mono (sub_of_isPrefix longer)) rep.root, rep.size⟩

variable [DecidableEq K]

theorem MapRep.erase {m : Map} {pm : PersistentMap K V w} (rep : MapRep heap m pm)
    (valid : pm.Valid hash) (key : K) :
    ∃ heap' m', erase hash heap m key = some (heap', m') ∧ heap <+: heap' ∧
      MapRep heap' m' (pm.erase hash key) := by
  have same : m.root_.isNone = pm.root_.isNone := by
    rcases rel_cases rep.root with ⟨a, b⟩ | ⟨_, _, a, b, _⟩ <;> rw [a, b] <;> rfl
  unfold PersistentHeap.erase PersistentMap.erase
  rw [same]
  split
  · exact ⟨heap, m, rfl, List.prefix_refl heap, rep⟩
  · have wf : ∀ n ∈ pm.root_, PersistentMap.WF hash _ 0 n := valid.wf
    obtain ⟨heap', a, ran, longer, root⟩ := erase_impl_refines _ key
      (show MAX_DEPTH w - 1 < MAX_DEPTH w + 1 by omega) (Sub.refl _) rep.root wf
    simp only [ran, Option.bind_eq_bind, Option.bind_some]
    refine ⟨_, _, rfl, longer, ?_, by rw [rep.size]⟩
    exact rel_imp (fun _ _ holds => holds.mono (grow_sub (Sub.refl _) longer)) root

theorem MapRep.set [Inhabited K] [Inhabited V] {m : Map} {pm : PersistentMap K V w}
    (rep : MapRep heap m pm) (valid : pm.Valid hash) (key : K) (value : V) :
    ∃ heap' m', set hash heap m key value = some (heap', m') ∧ heap <+: heap' ∧
      MapRep heap' m' (pm.set hash key value) := by
  obtain ⟨heap', a, ran, longer, root⟩ := set_impl_refines _ key value
    (show MAX_DEPTH w - 1 < MAX_DEPTH w + 1 by omega) (Nat.zero_add _) (Sub.refl _) rep.root valid.wf
  unfold PersistentHeap.set PersistentMap.set
  simp only [ran, Option.bind_eq_bind, Option.bind_some]
  exact ⟨_, _, rfl, longer, .some (root.mono (grow_sub (Sub.refl _) longer)), by rw [rep.size]⟩

theorem MapRep.apply [Inhabited K] [Inhabited V] {m : Map} {pm : PersistentMap K V w}
    (rep : MapRep heap m pm) (valid : pm.Valid hash) (op : Op K V) :
    ∃ heap' m', apply hash heap m op = some (heap', m') ∧ heap <+: heap' ∧
      MapRep heap' m' (pm.apply hash op) := by
  cases op with
  | set key value => exact rep.set valid key value
  | erase key => exact rep.erase valid key

theorem denotes {m : Map} {pm : PersistentMap K V w} {f : K → Option V}
    (rep : MapRep heap m pm) (refines : Refines hash pm f) : Denotes hash heap m f := by
  obtain ⟨valid, rfl⟩ := refines
  have lists := valid.lists
  have listed : m.root_ = none ∧ pm.for_each = [] ∨ ∃ root n, m.root_ = some root ∧
      Visits heap (MAX_DEPTH w - 1 + 1) root pm.for_each n := by
    rcases rel_cases rep.root with ⟨none, none'⟩ | ⟨root, t, at_root, at_root', holds⟩
    · exact .inl ⟨none, by rw [PersistentMap.for_each, none']; rfl⟩
    · obtain ⟨n, visits⟩ := visits_of_represents _ holds
      exact .inr ⟨root, n, at_root, by rw [PersistentMap.for_each, at_root']; exact visits⟩
  refine ⟨fun k => ?_, ?_, ?_, ?_⟩
  · exact find_impl_refines _ k (show MAX_DEPTH w - 1 < MAX_DEPTH w + 1 by omega) (Sub.refl _)
      rep.root valid.wf
  · rw [rep.size]
    exact valid.size_eq
  · refine ⟨pm.for_each, ?_, lists⟩
    rcases listed with ⟨root, empty⟩ | ⟨root, n, at_root, visits⟩
    · rw [for_each, root, empty]
    · rw [for_each, at_root]
      exact for_each_impl_of_visits (by omega) visits
  · refine ⟨pm.for_each, lists, ?_⟩
    rcases listed with ⟨root, empty⟩ | ⟨root, n, at_root, visits⟩
    · exact ⟨1, fun fuel enough => by
        obtain ⟨fuel, rfl⟩ := Nat.exists_eq_succ_of_ne_zero (Nat.ne_zero_of_lt enough)
        rw [root, empty]
        rfl⟩
    · exact ⟨n + 2, fun fuel enough => by rw [at_root]; exact iterate_of_visits enough visits⟩

/-- Each version represents a trie that refines its finite function. -/
def Holds (hash : K → BitVec w) (s : Store K V) (fs : List (K → Option V)) : Prop :=
  List.Forall₂ (fun m f => ∃ pm, MapRep s.heap m pm ∧ Refines hash pm f) s.versions fs

theorem Holds.derive [Inhabited K] [Inhabited V] (injective : Function.Injective hash)
    {s : Store K V} {fs : List (K → Option V)} (holds : Holds hash s fs) (step : Step K V) :
    ∃ s', derive hash s step = some s' ∧ Holds hash s' (history fs step) := by
  unfold PersistentHeap.derive history
  cases at_base : fs[step.base]? with
  | none =>
    have missing : s.versions[step.base]? = none := by
      rw [List.getElem?_eq_none_iff, holds.length_eq]
      exact List.getElem?_eq_none_iff.mp at_base
    rw [missing]
    exact ⟨s, rfl, holds⟩
  | some f =>
    obtain ⟨m, at_base', pm, rep, refines⟩ := related_get holds at_base
    have separate : PersistentMap.Separate hash f step.op := by
      cases step.op with
      | set key value => exact fun k _ same => injective same
      | erase key => trivial
    obtain ⟨heap', m', ran, longer, rep'⟩ := rep.apply refines.valid step.op
    simp only [at_base', ran, Option.bind_eq_bind, Option.bind_some]
    refine ⟨_, rfl, ?_⟩
    have old : Holds hash ⟨heap', s.versions⟩ fs := by
      refine holds.imp fun _ _ version => ?_
      obtain ⟨pm, rep, refines⟩ := version
      exact ⟨pm, rep.mono longer, refines⟩
    exact List.rel_append old (.cons ⟨_, rep', refines.apply step.op separate⟩ .nil)

/-- Every version, old or new, is the finite function its own history says. -/
theorem versions_denote [Inhabited K] [Inhabited V] (hash : K → BitVec w)
    (injective : Function.Injective hash) (steps : List (Step K V)) :
    ∃ s, steps.foldlM (derive hash) ({} : Store K V) = some s ∧
      List.Forall₂ (Denotes hash s.heap) s.versions (steps.foldl history [fun _ => none]) := by
  have run : ∀ (s : Store K V) fs, Holds hash s fs → ∃ s', steps.foldlM (derive hash) s = some s' ∧
      Holds hash s' (steps.foldl history fs) := by
    induction steps with
    | nil => exact fun s fs holds => ⟨s, rfl, holds⟩
    | cons step rest ih =>
      intro s fs holds
      obtain ⟨s', derived, holds'⟩ := holds.derive injective step
      obtain ⟨s'', ran, final⟩ := ih s' _ holds'
      refine ⟨s'', ?_, final⟩
      rw [List.foldlM_cons, derived]
      exact ran
  have start : Holds hash ({} : Store K V) [fun _ => none] :=
    .cons ⟨{}, ⟨.none, rfl⟩, PersistentMap.valid_empty, by
      funext key; exact PersistentMap.find_impl_eq hash _ 0 none key⟩ .nil
  obtain ⟨s, ran, final⟩ := run {} _ start
  exact ⟨s, ran, final.imp fun _ _ ⟨_, rep, refines⟩ => denotes rep refines⟩

theorem versions_denote_identity :
    ∃ s, [⟨0, .set 5 true⟩, ⟨1, .set 37 false⟩, ⟨2, .erase 5⟩, ⟨1, .set 5 false⟩].foldlM
        (derive fun k : BitVec 64 => k) ({} : Store (BitVec 64) Bool) = some s ∧
      List.Forall₂ (Denotes (fun k : BitVec 64 => k) s.heap) s.versions
        ([⟨0, .set 5 true⟩, ⟨1, .set 37 false⟩, ⟨2, .erase 5⟩, ⟨1, .set 5 false⟩].foldl history
          [fun _ => none]) :=
  versions_denote (fun k => k) (fun _ _ same => same) _

end Laws

end AoSdl.PersistentHeap
