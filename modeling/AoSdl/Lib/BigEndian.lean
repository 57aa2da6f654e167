import Mathlib.Algebra.GroupWithZero.Nat
import Mathlib.Data.List.Induction
import Mathlib.Tactic.Common

/-! Numbers as bytes, the most significant one first. -/
namespace Lib.BigEndian

def value (bs : List UInt8) : ℕ := bs.foldl (fun n b => n * 256 + b.toNat) 0

theorem value_concat (bs : List UInt8) (b : UInt8) : value (bs ++ [b]) = value bs * 256 + b.toNat := by
  rw [value, List.foldl_append]
  rfl

theorem value_lt (bs : List UInt8) : value bs < 256 ^ bs.length := by
  induction bs using List.reverseRecOn with
  | nil => exact Nat.one_pos
  | append_singleton bs b ih =>
    have byte := b.toNat_lt
    rw [value_concat, List.length_append, List.length_singleton, Nat.pow_succ]
    omega

/-- The low bytes of a number. -/
def octets : ℕ → ℕ → List UInt8
  | 0, _ => []
  | k + 1, n => octets k (n / 256) ++ [UInt8.ofNat n]

@[simp] theorem length_octets (k n : ℕ) : (octets k n).length = k := by
  induction k generalizing n with
  | zero => rfl
  | succ k ih => rw [octets, List.length_append, ih, List.length_singleton]

theorem octets_add (j k n : ℕ) : octets (j + k) n = octets j (n / 256 ^ k) ++ octets k n := by
  induction k generalizing n with
  | zero => simp [octets]
  | succ k ih =>
    have shift : n / 256 / 256 ^ k = n / 256 ^ (k + 1) := by rw [Nat.div_div_eq_div_mul, Nat.pow_succ']
    rw [← Nat.add_assoc, octets, ih, octets, shift, List.append_assoc]

theorem octets_mod (k n : ℕ) : octets k (n % 256 ^ k) = octets k n := by
  induction k generalizing n with
  | zero => rfl
  | succ k ih =>
    have high : n % 256 ^ (k + 1) / 256 = n / 256 % 256 ^ k := by rw [Nat.pow_succ', Nat.mod_mul_right_div_self]
    have low : UInt8.ofNat (n % 256 ^ (k + 1)) = UInt8.ofNat n := by
      rw [← UInt8.toNat_inj, UInt8.toNat_ofNat', UInt8.toNat_ofNat']
      exact Nat.mod_mod_of_dvd n ⟨256 ^ k, Nat.pow_succ'⟩
    rw [octets, octets, high, ih, low]

theorem octets_four (n : ℕ) : octets 4 n =
    [UInt8.ofNat (n / 2 ^ 24), UInt8.ofNat (n / 2 ^ 16), UInt8.ofNat (n / 2 ^ 8), UInt8.ofNat n] := by
  simp [octets, Nat.div_div_eq_div_mul]

theorem value_octets (k n : ℕ) : value (octets k n) = n % 256 ^ k := by
  induction k generalizing n with
  | zero => rw [Nat.pow_zero, Nat.mod_one, octets]; rfl
  | succ k ih =>
    have byte : (UInt8.ofNat n).toNat = n % 256 := UInt8.toNat_ofNat'
    rw [octets, value_concat, ih, byte, Nat.pow_succ', Nat.mod_mul, Nat.mul_comm 256, Nat.add_comm]

theorem split_four (v : UInt32) :
    [(v >>> 24).toUInt8, (v >>> 16).toUInt8, (v >>> 8).toUInt8, v.toUInt8] = octets 4 v.toNat := by
  rw [octets_four]
  simp [← UInt8.toNat_inj, Nat.shiftRight_eq_div_pow]

theorem two_bytes (x : ℕ) {y : ℕ} (byte : y < 256) : x <<< 8 ||| y = x * 256 + y := by
  rw [← Nat.shiftLeft_add_eq_or_of_lt (by omega : y < 2 ^ 8), Nat.shiftLeft_eq]

theorem four_bytes (x : ℕ) {y z u : ℕ} (second : y < 256) (third : z < 256) (fourth : u < 256) :
    x <<< 24 ||| y <<< 16 ||| z <<< 8 ||| u = ((x * 256 + y) * 256 + z) * 256 + u := by
  have high : x <<< 24 ||| y <<< 16 = (x * 256 + y) <<< 16 := by
    rw [← two_bytes x second, Nat.shiftLeft_or_distrib, ← Nat.shiftLeft_add]
  have higher : (x * 256 + y) <<< 16 ||| z <<< 8 = ((x * 256 + y) * 256 + z) <<< 8 := by
    rw [← two_bytes _ third, Nat.shiftLeft_or_distrib, ← Nat.shiftLeft_add]
  rw [high, higher, two_bytes _ fourth]

theorem shifted (b : UInt8) {k : UInt32} (inside : k.toNat ≤ 24) :
    (b.toUInt32 <<< k).toNat = b.toNat <<< k.toNat := by
  have place : k.toNat % 32 = k.toNat := Nat.mod_eq_of_lt (by omega)
  have small : b.toNat <<< k.toNat < 2 ^ 32 := by
    rw [Nat.shiftLeft_eq]
    calc b.toNat * 2 ^ k.toNat < 2 ^ 8 * 2 ^ k.toNat := Nat.mul_lt_mul_of_pos_right b.toNat_lt (Nat.two_pow_pos _)
      _ ≤ 2 ^ 8 * 2 ^ 24 := Nat.mul_le_mul_left _ (Nat.pow_le_pow_right (by decide) inside)
      _ = 2 ^ 32 := by decide
  rw [UInt32.toNat_shiftLeft, UInt8.toNat_toUInt32, place, Nat.mod_eq_of_lt small]

theorem value_four (a b c d : UInt8) : value [a, b, c, d] = ((a.toNat * 256 + b.toNat) * 256 + c.toNat) * 256 + d.toNat := by
  simp [value]

theorem four_lt (a b c d : UInt8) : value [a, b, c, d] < 2 ^ 32 := by
  have small := value_lt [a, b, c, d]
  calc value [a, b, c, d] < 256 ^ 4 := small
    _ = 2 ^ 32 := by decide

theorem join_four (a b c d : UInt8) :
    a.toUInt32 <<< 24 ||| b.toUInt32 <<< 16 ||| c.toUInt32 <<< 8 ||| d.toUInt32 = UInt32.ofNat (value [a, b, c, d]) := by
  apply UInt32.toNat_inj.mp
  rw [UInt32.toNat_ofNat', Nat.mod_eq_of_lt (four_lt a b c d), value_four, UInt32.toNat_or, UInt32.toNat_or,
    UInt32.toNat_or, shifted a (by decide), shifted b (by decide), shifted c (by decide), UInt8.toNat_toUInt32]
  exact four_bytes a.toNat b.toNat_lt c.toNat_lt d.toNat_lt

theorem join_split (v : UInt32) : (v >>> 24).toUInt8.toUInt32 <<< 24 ||| (v >>> 16).toUInt8.toUInt32 <<< 16 |||
    (v >>> 8).toUInt8.toUInt32 <<< 8 ||| v.toUInt8.toUInt32 = v := by
  rw [join_four, split_four, value_octets, ← UInt32.toNat_inj, UInt32.toNat_ofNat']
  have small := v.toNat_lt
  omega

end Lib.BigEndian

/-! Numbers that are put together of six bits at a time, and taken apart again. -/
namespace Lib.Sextets

theorem two_bits (x : Nat) {y : Nat} (second : y < 64) : x <<< 6 ||| y = x * 64 + y := by
  rw [← Nat.shiftLeft_add_eq_or_of_lt (by omega : y < 2 ^ 6), Nat.shiftLeft_eq]

theorem three_bits (x : Nat) {y z : Nat} (second : y < 64) (third : z < 64) :
    x <<< 12 ||| y <<< 6 ||| z = (x * 64 + y) * 64 + z := by
  have high : x <<< 12 ||| y <<< 6 = (x * 64 + y) <<< 6 := by
    rw [← two_bits x second, Nat.shiftLeft_or_distrib, ← Nat.shiftLeft_add]
  rw [high, two_bits _ third]

theorem four_bits (x : Nat) {y z u : Nat} (second : y < 64) (third : z < 64) (fourth : u < 64) :
    x <<< 18 ||| y <<< 12 ||| z <<< 6 ||| u = ((x * 64 + y) * 64 + z) * 64 + u := by
  have high : x <<< 18 ||| y <<< 12 ||| z <<< 6 = ((x * 64 + y) * 64 + z) <<< 6 := by
    rw [← three_bits x second third, Nat.shiftLeft_or_distrib, Nat.shiftLeft_or_distrib, ← Nat.shiftLeft_add,
      ← Nat.shiftLeft_add]
  rw [high, two_bits _ fourth]

theorem sextet_at (t place : Nat) : t >>> place &&& 0x3F = t / 2 ^ place % 64 := by
  rw [Nat.shiftRight_eq_div_pow]
  exact Nat.and_two_pow_sub_one_eq_mod _ 6

theorem byte_at (t place : Nat) : t >>> place &&& 0xFF = t / 2 ^ place % 256 := by
  rw [Nat.shiftRight_eq_div_pow]
  exact Nat.and_two_pow_sub_one_eq_mod _ 8

theorem join_split {t : Nat} (small : t < 2 ^ 24) :
    (t >>> 18 &&& 0x3F) <<< 18 ||| (t >>> 12 &&& 0x3F) <<< 12 ||| (t >>> 6 &&& 0x3F) <<< 6 ||| (t >>> 0 &&& 0x3F) = t := by
  rw [sextet_at, sextet_at, sextet_at, sextet_at,
    four_bits _ (Nat.mod_lt _ (by decide)) (Nat.mod_lt _ (by decide)) (Nat.mod_lt _ (by decide))]
  omega

end Lib.Sextets
