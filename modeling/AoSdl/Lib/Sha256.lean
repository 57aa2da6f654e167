import AoSdl.Lib.BigEndian
import Mathlib.Data.Nat.NthRoot.Defs
import Mathlib.Data.Nat.Prime.Defs

/-! SHA-256 as FIPS 180-4 has it, over the whole padded message. The constants are taken from the roots of the
first primes. -/
namespace Lib.Sha256
open Lib.BigEndian

def ROTR (n x : UInt32) : UInt32 := x >>> n ||| x <<< (32 - n)

def Ch (x y z : UInt32) : UInt32 := (x &&& y) ^^^ (~~~x &&& z)

def Maj (x y z : UInt32) : UInt32 := (x &&& y) ^^^ (x &&& z) ^^^ (y &&& z)

def Sigma0 (x : UInt32) : UInt32 := ROTR 2 x ^^^ ROTR 13 x ^^^ ROTR 22 x

def Sigma1 (x : UInt32) : UInt32 := ROTR 6 x ^^^ ROTR 11 x ^^^ ROTR 25 x

def sigma0 (x : UInt32) : UInt32 := ROTR 7 x ^^^ ROTR 18 x ^^^ x >>> 3

def sigma1 (x : UInt32) : UInt32 := ROTR 17 x ^^^ ROTR 19 x ^^^ x >>> 10

/-- The first 64 primes. -/
def primes : List ℕ := (List.range 312).filter fun p => Nat.Prime p

/-- Small numbers are prime if no smaller number up to 17 divides them. -/
theorem prime_iff_trial {p : ℕ} (small : p < 18 * 18) :
    Nat.Prime p ↔ 2 ≤ p ∧ ∀ m < 18, 2 ≤ m → m < p → p % m ≠ 0 := by
  constructor
  · intro prime
    obtain ⟨two, apart⟩ := Nat.prime_def_lt'.mp prime
    exact ⟨two, fun m _ low high none => apart m low high (Nat.dvd_of_mod_eq_zero none)⟩
  · rintro ⟨two, apart⟩
    apply Nat.prime_def_le_sqrt.mpr
    refine ⟨two, fun m low root divides => ?_⟩
    have below := Nat.sqrt_lt.mpr small
    have less := Nat.sqrt_lt_self two
    exact apart m (by omega) low (by omega) (Nat.mod_eq_zero_of_dvd divides)

theorem primes_eq : primes = [
    2, 3, 5, 7, 11, 13, 17, 19, 23, 29, 31, 37, 41, 43, 47, 53, 59, 61, 67, 71, 73, 79, 83, 89, 97, 101, 103, 107, 109,
    113, 127, 131, 137, 139, 149, 151, 157, 163, 167, 173, 179, 181, 191, 193, 197, 199, 211, 223, 227, 229, 233, 239,
    241, 251, 257, 263, 269, 271, 277, 281, 283, 293, 307, 311] := by
  have trial : primes =
      (List.range 312).filter fun p => decide (2 ≤ p ∧ ∀ m < 18, 2 ≤ m → m < p → p % m ≠ 0) := by
    apply List.filter_congr
    intro p member
    have small := List.mem_range.mp member
    exact decide_eq_decide.mpr (prime_iff_trial (by omega))
  rw [trial]
  decide +kernel

/-- The first 32 bits of the fractional part of the cube root of a prime. -/
def K (t : ℕ) : UInt32 := UInt32.ofNat (Nat.nthRoot 3 (primes.getD t 0 * 2 ^ 96))

/-- The eight words that are worked on. -/
structure Words where
  a : UInt32
  b : UInt32
  c : UInt32
  d : UInt32
  e : UInt32
  f : UInt32
  g : UInt32
  h : UInt32
  deriving DecidableEq

/-- The first 32 bits of the fractional part of the square root of a prime. -/
def root (i : ℕ) : UInt32 := UInt32.ofNat (Nat.sqrt (primes.getD i 0 * 2 ^ 64))

def H0 : Words := ⟨root 0, root 1, root 2, root 3, root 4, root 5, root 6, root 7⟩

/-- The message schedule of the sixteen words of a block. -/
def W (M : ℕ → UInt32) (t : ℕ) : UInt32 :=
  if t < 16 then M t
  else sigma1 (W M (t - 2)) + W M (t - 7) + sigma0 (W M (t - 15)) + W M (t - 16)

def round (W : ℕ → UInt32) (v : Words) (t : ℕ) : Words :=
  let T1 := v.h + Sigma1 v.e + Ch v.e v.f v.g + K t + W t
  let T2 := Sigma0 v.a + Maj v.a v.b v.c
  ⟨T1 + T2, v.a, v.b, v.c, v.d + T1, v.e, v.f, v.g⟩

def Words.add (v w : Words) : Words :=
  ⟨v.a + w.a, v.b + w.b, v.c + w.c, v.d + w.d, v.e + w.e, v.f + w.f, v.g + w.g, v.h + w.h⟩

def compress (H : Words) (M : ℕ → UInt32) : Words := ((List.range 64).foldl (round (W M)) H).add H

/-- The zeros between the first byte behind the message and its length. -/
def zeros (length : ℕ) : ℕ := (119 - length % 64) % 64

def pad (message : List UInt8) : List UInt8 :=
  message ++ 0x80 :: List.replicate (zeros message.length) 0 ++ octets 8 (8 * message.length)

/-- The blocks of 64 bytes. -/
def blocks (padded : List UInt8) : List (List UInt8) :=
  if padded.length < 64 then [] else padded.take 64 :: blocks (padded.drop 64)
termination_by padded.length
decreasing_by
  rw [List.length_drop]
  omega

/-- A word of a block. -/
def word (block : List UInt8) (t : ℕ) : UInt32 := UInt32.ofNat (value ((block.drop (4 * t)).take 4))

def Words.list (v : Words) : List UInt32 := [v.a, v.b, v.c, v.d, v.e, v.f, v.g, v.h]

def digest (message : List UInt8) : List UInt8 :=
  ((blocks (pad message)).foldl (fun H block => compress H (word block)) H0).list.flatMap fun w => octets 4 w.toNat

/-- Only the sixteen words of a block are read. -/
theorem W_congr {M N : ℕ → UInt32} (same : ∀ t < 16, M t = N t) (t : ℕ) : W M t = W N t := by
  induction t using Nat.strong_induction_on with
  | h t ih =>
    rw [W.eq_def M, W.eq_def N]
    split
    · exact same t (by omega)
    · rw [ih (t - 2) (by omega), ih (t - 7) (by omega), ih (t - 15) (by omega), ih (t - 16) (by omega)]

theorem compress_congr (H : Words) {M N : ℕ → UInt32} (same : ∀ t < 16, M t = N t) : compress H M = compress H N := by
  have schedule : W M = W N := funext (W_congr same)
  rw [compress, compress, schedule]

section Padding

theorem blocks_nil : blocks [] = [] := by
  rw [blocks]
  rfl

theorem blocks_cons {block : List UInt8} (size : block.length = 64) (rest : List UInt8) :
    blocks (block ++ rest) = block :: blocks rest := by
  have long : ¬ (block ++ rest).length < 64 := by
    rw [List.length_append]
    omega
  rw [blocks, if_neg long, ← size, List.take_left, List.drop_left]

end Padding

@[simp] theorem length_digest (message : List UInt8) : (digest message).length = 32 := by
  simp [digest, Words.list, length_octets]

end Lib.Sha256
