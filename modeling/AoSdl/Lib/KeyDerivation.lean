import AoSdl.Lib.BigEndian
import AoSdl.Lib.RowMajor
import Mathlib.Algebra.BigOperators.Group.List.Basic

/-! Keys from hashes: HMAC as RFC 2104 has it, over a hash function and the size of its blocks, and PBKDF2 as
RFC 8018 has it, over a pseudorandom function and the length of its results. -/
namespace Lib.KeyDerivation
open Lib.BigEndian

section Hmac

variable (H : List UInt8 → List UInt8) (B : ℕ)

/-- A key of the size of a block: a longer one is hashed, a shorter one is filled with zeros. -/
def block_key (key : List UInt8) : List UInt8 :=
  let key := if B < key.length then H key else key
  key ++ List.replicate (B - key.length) 0

def hmac (key text : List UInt8) : List UInt8 :=
  let ipad := (block_key H B key).map (· ^^^ 0x36)
  let opad := (block_key H B key).map (· ^^^ 0x5c)
  H (opad ++ H (ipad ++ text))

end Hmac

section Pbkdf2

variable (PRF : List UInt8 → List UInt8 → List UInt8) (hLen : ℕ) (P S : List UInt8)

def xor_bytes (x y : List UInt8) : List UInt8 := List.zipWith (· ^^^ ·) x y

/-- The iterates of one block, the first one numbered 1. -/
def U (i : ℕ) : ℕ → List UInt8
  | 0 => []
  | 1 => PRF P (S ++ octets 4 i)
  | j + 1 => PRF P (U i j)

def F (c i : ℕ) : List UInt8 := (List.range' 2 (c - 1)).foldl (fun T j => xor_bytes T (U PRF P S i j)) (U PRF P S i 1)

/-- The derived key, or nothing when it would be too long. -/
def pbkdf2 (c dkLen : ℕ) : Option (List UInt8) :=
  if (2 ^ 32 - 1) * hLen < dkLen then none
  else
    let l := (dkLen + hLen - 1) / hLen
    let r := dkLen - (l - 1) * hLen
    some ((List.range' 1 (l - 1)).flatMap (F PRF P S c) ++ (F PRF P S c l).take r)

variable {PRF hLen P S}

theorem length_U (fixed : ∀ key text, (PRF key text).length = hLen) (i j : ℕ) : (U PRF P S i (j + 1)).length = hLen := by
  cases j with
  | zero => exact fixed _ _
  | succ j => exact fixed _ _

theorem length_F (fixed : ∀ key text, (PRF key text).length = hLen) (c i : ℕ) : (F PRF P S c i).length = hLen := by
  have kept (js : List ℕ) (positive : ∀ j ∈ js, 1 ≤ j) (T : List UInt8) (size : T.length = hLen) :
      (js.foldl (fun T j => xor_bytes T (U PRF P S i j)) T).length = hLen := by
    induction js generalizing T with
    | nil => exact size
    | cons j js ih =>
      obtain ⟨here, later⟩ := List.forall_mem_cons.mp positive
      obtain ⟨k, rfl⟩ := Nat.exists_eq_add_of_le' here
      refine ih later _ (?_ : (xor_bytes T (U PRF P S i (k + 1))).length = hLen)
      rw [xor_bytes, List.length_zipWith, size, length_U fixed, Nat.min_self]
  refine kept _ (fun j member => ?_) _ (length_U fixed i 0)
  have := (List.mem_range'_1.mp member).1
  omega

/-- The last block is cut where the key ends. -/
theorem take_blocks {T : ℕ → List UInt8} (fixed : ∀ i, (T i).length = hLen) (positive : 0 < hLen) (dkLen : ℕ) :
    ((List.range' 1 ((dkLen + hLen - 1) / hLen)).flatMap T).take dkLen =
      (List.range' 1 ((dkLen + hLen - 1) / hLen - 1)).flatMap T ++
        (T ((dkLen + hLen - 1) / hLen)).take (dkLen - ((dkLen + hLen - 1) / hLen - 1) * hLen) := by
  cases blocks : (dkLen + hLen - 1) / hLen with
  | zero =>
    have none : dkLen = 0 := by
      have small := (Nat.div_eq_zero_iff_lt positive).mp blocks
      omega
    simp [none]
  | succ l =>
    have enough : l * hLen ≤ dkLen := by
      have fits := Nat.div_mul_le_self (dkLen + hLen - 1) hLen
      rw [blocks, Nat.succ_mul] at fits
      omega
    have size : ((List.range' 1 l).flatMap T).length = l * hLen := by
      rw [Lib.RowMajor.length_flatMap fixed, List.length_range']
    rw [List.range'_concat, List.flatMap_append, List.take_append, size, List.take_of_length_le (by omega)]
    simp [Nat.add_comm]

end Pbkdf2

end Lib.KeyDerivation
