import AoSdl.Lib.Runs
import AoSdl.PersistentTrie

/-! `PersistentMap`: a root pointer and a size. While no two distinct keys with one hash
are bound together the map is the finite function it stands for; a third key with a
taken hash is exactly what breaks it. -/
namespace AoSdl
open Lib.Bindings Lib.Runs

structure PersistentMap (K V : Type) (w : Nat) where
  root_ : Option (PersistentMap.Trie K V (PersistentMap.MAX_DEPTH w - 1)) := none
  size_ : Nat := 0

namespace PersistentMap

section Operations
variable {K V : Type} [DecidableEq K] (hash : K → BitVec w)

def set (m : PersistentMap K V w) (key : K) (value : V) : PersistentMap K V w :=
  let (new_root, inserted) := set_impl hash _ m.root_ 0 (hash key) key value
  ⟨some new_root, m.size_ + if inserted then 1 else 0⟩

def erase (m : PersistentMap K V w) (key : K) : PersistentMap K V w :=
  if m.root_.isNone then m
  else
    let (new_root, erased) := erase_impl _ m.root_ 0 (hash key) key
    ⟨new_root, m.size_ - if erased then 1 else 0⟩

def find (m : PersistentMap K V w) (key : K) : Option V := find_impl _ m.root_ 0 (hash key) key

def size (m : PersistentMap K V w) : Nat := m.size_

def for_each (m : PersistentMap K V w) : List (K × V) := m.root_.elim [] (for_each_impl _)

/-- The size counts the entries of a well-formed trie. -/
structure Valid (m : PersistentMap K V w) : Prop where
  wf : ∀ n ∈ m.root_, WF hash _ 0 n
  counted : m.size = m.for_each.length

inductive Op (K V : Type) where
  | set (key : K) (value : V)
  | erase (key : K)

def apply (m : PersistentMap K V w) : Op K V → PersistentMap K V w
  | .set key value => m.set hash key value
  | .erase key => m.erase hash key

/-- The finite function the operations describe. -/
def contents (f : K → Option V) : Op K V → K → Option V
  | .set key value => Function.update f key (some value)
  | .erase key => Function.update f key none

/-- What a reader expects of one operation. -/
def Meets (m : PersistentMap K V w) : Op K V → Prop
  | .set key value => (m.set hash key value).find hash key = some value ∧
    ∀ k, k ≠ key → (m.set hash key value).find hash k = m.find hash k
  | .erase key => ∀ k, k ≠ key → (m.erase hash key).find hash k = m.find hash k

/-- No other bound key has the hash of the key being set. -/
def Separate (f : K → Option V) : Op K V → Prop
  | .set key _ => ∀ k, (f k).isSome → hash k = hash key → k = key
  | .erase _ => True

end Operations

section Laws
variable {K V : Type} [DecidableEq K] {hash : K → BitVec w} {m : PersistentMap K V w}

theorem find_eq (m : PersistentMap K V w) :
    m.find hash = lookFrom (look hash _ 0) m.root_ := by
  funext key
  exact find_impl_eq hash _ 0 m.root_ key

theorem valid_empty : Valid hash ({} : PersistentMap K V w) := ⟨nofun, rfl⟩

theorem Valid.lists (valid : m.Valid hash) : Lists (m.find hash) m.for_each := by
  rw [find_eq, for_each]
  cases root : m.root_ with
  | none => exact lists_nil
  | some n => exact for_each_impl_spec _ 0 n (valid.wf n root)

theorem Valid.size_eq (valid : m.Valid hash) :
    m.size = Set.ncard {k | (m.find hash k).isSome} := by
  rw [valid.lists.ncard, valid.counted]

theorem noClash_of_separate {key : K} {value : V}
    (separate : Separate hash (m.find hash) (.set key value)) :
    NoClash hash _ 0 m.root_ key := by
  intro k bound agree
  rw [← find_eq] at bound
  exact separate k bound (hash_ext _ _ fun d low => agree d (Nat.zero_le d) (by omega))

theorem set_spec (valid : m.Valid hash) (key : K) (value : V)
    (separate : Separate hash (m.find hash) (.set key value)) :
    (m.set hash key value).Valid hash ∧
    (m.set hash key value).find hash = Function.update (m.find hash) key (some value) := by
  obtain ⟨wf, found, fresh⟩ := set_impl_spec _ 0 m.root_ key value valid.wf
    (noClash_of_separate separate)
  have result : (m.set hash key value).find hash =
      Function.update (m.find hash) key (some value) := by
    rw [find_eq, find_eq m]
    exact found
  have lists : Lists ((m.set hash key value).find hash) (m.set hash key value).for_each := by
    rw [find_eq]
    exact for_each_impl_spec _ 0 _ wf
  rw [← find_eq] at fresh
  refine ⟨⟨by rintro _ ⟨⟩; exact wf, ?_⟩, result⟩
  rw [valid.lists.length_set (result ▸ lists), ← valid.counted]
  exact congrArg (fun b : Bool => m.size_ + if b then 1 else 0) fresh

theorem erase_spec (valid : m.Valid hash) (key : K) :
    (m.erase hash key).Valid hash ∧
    (m.erase hash key).find hash = Function.update (m.find hash) key none := by
  cases root : m.root_ with
  | none =>
    have unchanged : m.erase hash key = m := by simp [erase, root]
    rw [unchanged, find_eq, root]
    exact ⟨valid, (Function.update_eq_self key _).symm⟩
  | some n =>
    simp only [erase, root]
    obtain ⟨wf, found, flag⟩ := erase_impl_spec _ 0 m.root_ key valid.wf
    rw [← find_eq m, root] at found flag
    rw [root] at wf
    have lists : Lists (Function.update (m.find hash) key none)
        ((erase_impl _ (some n) 0 (hash key) key).1.elim [] (for_each_impl _)) := by
      rw [← found]
      cases erased : (erase_impl _ (some n) 0 (hash key) key).1 with
      | none => exact lists_nil
      | some n' => exact for_each_impl_spec _ 0 n' (wf n' erased)
    refine ⟨⟨wf, ?_⟩, by rw [find_eq]; exact found⟩
    refine Eq.trans ?_ (valid.lists.length_erase lists).symm
    rw [← valid.counted, ← flag]
    rfl

/-- The abstract run and the concrete one, while nothing has collided. -/
structure Refines (hash : K → BitVec w) (m : PersistentMap K V w) (f : K → Option V) : Prop where
  valid : m.Valid hash
  same : m.find hash = f

theorem Refines.apply {f : K → Option V} (refines : Refines hash m f) (op : Op K V)
    (separate : Separate hash f op) : Refines hash (m.apply hash op) (contents f op) := by
  obtain ⟨valid, rfl⟩ := refines
  cases op with
  | set key value =>
    obtain ⟨valid', found⟩ := set_spec valid key value separate
    exact ⟨valid', found⟩
  | erase key =>
    obtain ⟨valid', found⟩ := erase_spec valid key
    exact ⟨valid', found⟩

theorem set_collision (valid : m.Valid hash) {key k : K} (value : V)
    (bound : (m.find hash k).isSome) (same : hash k = hash key) (other : k ≠ key) :
    (m.set hash key value).find hash key = none := by
  rw [find_eq] at bound
  cases root : m.root_ with
  | none => simp [root] at bound
  | some n =>
    rw [root] at bound
    have lost := set_impl_clash _ 0 n key k value (valid.wf n root) bound other
      (fun d _ _ => congrArg (slot_at · d) same)
    rw [find_eq, set, root]
    exact lost

theorem meets_iff_separate {f : K → Option V} (refines : Refines hash m f) (op : Op K V) :
    m.Meets hash op ↔ Separate hash f op := by
  constructor
  · intro meets
    cases op with
    | set key value =>
      intro k bound same
      by_contra other
      have lost := set_collision refines.valid value (refines.same ▸ bound) same other
      rw [meets.1] at lost
      contradiction
    | erase key => trivial
  · intro separate
    have found := (refines.apply op separate).same
    cases op with
    | set key value =>
      simp only [apply, contents] at found
      refine ⟨by rw [found, Function.update_self], fun k other => ?_⟩
      rw [found, Function.update_of_ne other, refines.same]
    | erase key =>
      simp only [apply, contents] at found
      intro k other
      rw [found, Function.update_of_ne other, refines.same]

/-- Every operation of a run does what is expected of it exactly when no key is set while
another key with the same hash is bound. -/
theorem run_meets_iff_separate (hash : K → BitVec w) (ops : List (Op K V)) :
    Throughout (apply hash) (Meets hash) {} ops ↔
      Throughout contents (Separate hash) (fun _ => none) ops :=
  throughout_iff_of_simulation (R := Refines hash)
    (fun _ _ op refines => meets_iff_separate refines op)
    (fun _ _ op refines meets => refines.apply op ((meets_iff_separate refines op).mp meets))
    ⟨valid_empty, by funext key; exact find_impl_eq hash _ 0 none key⟩ ops

/-- Two keys under a constant hash: the second one set cannot be found. -/
theorem constant_hash_loses_key :
    ¬ Throughout (apply fun _ => 0#64) (Meets fun _ => 0#64) ({} : PersistentMap Bool Nat 64)
      [.set false 1, .set true 2] := by
  rintro ⟨_, ⟨found, _⟩, _⟩
  have lost : ((({} : PersistentMap Bool Nat 64).set (fun _ => 0#64) false 1).set (fun _ => 0#64)
      true 2).find (fun _ => 0#64) true = none := by decide
  exact absurd (lost.symm.trans found) (by decide)

end Laws

end PersistentMap

end AoSdl
