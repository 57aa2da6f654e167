import Mathlib.Data.UInt

/-! The sizes and offsets a parser of a buffer computes, in machine words and in the naturals that
the words stand for. A parser written for any such arithmetic records what it computes; it is free
of overflow where its two records agree. -/
namespace Lib.WordSizes

structure Sizes (α : Type) where
  ofNat : ℕ → α
  toNat : α → ℕ
  add : α → α → α
  sub : α → α → α
  less : α → α → Bool

def words : Sizes UInt64 where
  ofNat := UInt64.ofNat
  toNat := UInt64.toNat
  add a b := a + b
  sub a b := a - b
  less a b := decide (a < b)

def naturals : Sizes ℕ where
  ofNat n := n
  toNat n := n
  add a b := a + b
  sub a b := a - b
  less a b := decide (a < b)

inductive Computed (α : Type) where
  | sum (value : α)
  | difference (value : α)
  | comparison (value : Bool)
  /-- The bytes from `start` on, `count` of them. -/
  | slice (start count : α)

namespace Computed

variable {α β : Type}

def map (f : α → β) : Computed α → Computed β
  | sum value => sum (f value)
  | difference value => difference (f value)
  | comparison value => comparison value
  | slice start count => slice (f start) (f count)

/-- A slice lies in a buffer of `size` bytes. -/
def Inside (size : ℕ) : Computed ℕ → Prop
  | slice start count => start + count ≤ size
  | _ => True

end Computed

section Words

variable {a b : UInt64}

@[simp] theorem words_toNat : words.toNat a = a.toNat := rfl
@[simp] theorem naturals_toNat (n : ℕ) : naturals.toNat n = n := rfl
@[simp] theorem naturals_ofNat (n : ℕ) : naturals.ofNat n = n := rfl
@[simp] theorem naturals_add (m n : ℕ) : naturals.add m n = m + n := rfl
@[simp] theorem naturals_sub (m n : ℕ) : naturals.sub m n = m - n := rfl
@[simp] theorem naturals_less (m n : ℕ) : naturals.less m n = decide (m < n) := rfl

theorem words_ofNat {n : ℕ} (small : n < 2 ^ 64) : (words.ofNat n).toNat = n :=
  UInt64.toNat_ofNat_of_lt' small

theorem words_add_mod : (words.add a b).toNat = (a.toNat + b.toNat) % 2 ^ 64 := UInt64.toNat_add a b

theorem words_add (small : a.toNat + b.toNat < 2 ^ 64) : (words.add a b).toNat = a.toNat + b.toNat := by
  rw [words_add_mod]
  exact Nat.mod_eq_of_lt small

theorem words_sub (enough : b.toNat ≤ a.toNat) : (words.sub a b).toNat = a.toNat - b.toNat :=
  UInt64.toNat_sub_of_le a b (UInt64.le_iff_toNat_le.mpr enough)

theorem words_less : words.less a b = decide (a.toNat < b.toNat) :=
  decide_eq_decide.mpr UInt64.lt_iff_toNat_lt

end Words

end Lib.WordSizes
