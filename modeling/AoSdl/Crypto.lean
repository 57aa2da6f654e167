import AoSdl.Lib.KeyDerivation
import AoSdl.Lib.Sha256
import AoSdl.Text
import Mathlib.Data.List.GetD
import Mathlib.Data.UInt

/-! `Crypto`: SHA-256, HMAC and PBKDF2 against their standards. -/
namespace AoSdl.crypto
open Lib.BigEndian Lib.Sha256 Lib.KeyDerivation

/-- The pointer is always in front of four bytes. -/
def read_be32 : Bytes → UInt32
  | a :: b :: c :: d :: _ => a.toUInt32 <<< 24 ||| b.toUInt32 <<< 16 ||| c.toUInt32 <<< 8 ||| d.toUInt32
  | _ => 0

def write_be32 (v : UInt32) : Bytes := [(v >>> 24).toUInt8, (v >>> 16).toUInt8, (v >>> 8).toUInt8, v.toUInt8]

/-- The words are the fields of a record, in their order. -/
def to_bytes (words : Words) : Bytes :=
  write_be32 words.a ++ write_be32 words.b ++ write_be32 words.c ++ write_be32 words.d ++
    write_be32 words.e ++ write_be32 words.f ++ write_be32 words.g ++ write_be32 words.h

namespace sha256

def BLOCK : ℕ := 64

def K : List UInt32 := [
  0x428a2f98, 0x71374491, 0xb5c0fbcf, 0xe9b5dba5, 0x3956c25b, 0x59f111f1, 0x923f82a4, 0xab1c5ed5,
  0xd807aa98, 0x12835b01, 0x243185be, 0x550c7dc3, 0x72be5d74, 0x80deb1fe, 0x9bdc06a7, 0xc19bf174,
  0xe49b69c1, 0xefbe4786, 0x0fc19dc6, 0x240ca1cc, 0x2de92c6f, 0x4a7484aa, 0x5cb0a9dc, 0x76f988da,
  0x983e5152, 0xa831c66d, 0xb00327c8, 0xbf597fc7, 0xc6e00bf3, 0xd5a79147, 0x06ca6351, 0x14292967,
  0x27b70a85, 0x2e1b2138, 0x4d2c6dfc, 0x53380d13, 0x650a7354, 0x766a0abb, 0x81c2c92e, 0x92722c85,
  0xa2bfe8a1, 0xa81a664b, 0xc24b8b70, 0xc76c51a3, 0xd192e819, 0xd6990624, 0xf40e3585, 0x106aa070,
  0x19a4c116, 0x1e376c08, 0x2748774c, 0x34b0bcb5, 0x391c0cb3, 0x4ed8aa4a, 0x5b9cca4f, 0x682e6ff3,
  0x748f82ee, 0x78a5636f, 0x84c87814, 0x8cc70208, 0x90befffa, 0xa4506ceb, 0xbef9a3f7, 0xc67178f2]

def ror (x n : UInt32) : UInt32 := x >>> n ||| x <<< (32 - n)

def ch (x y z : UInt32) : UInt32 := (x &&& y) ^^^ (~~~x &&& z)

def maj (x y z : UInt32) : UInt32 := (x &&& y) ^^^ (x &&& z) ^^^ (y &&& z)

def sigma0 (x : UInt32) : UInt32 := ror x 2 ^^^ ror x 13 ^^^ ror x 22

def sigma1 (x : UInt32) : UInt32 := ror x 6 ^^^ ror x 11 ^^^ ror x 25

def gamma0 (x : UInt32) : UInt32 := ror x 7 ^^^ ror x 18 ^^^ x >>> 3

def gamma1 (x : UInt32) : UInt32 := ror x 17 ^^^ ror x 19 ^^^ x >>> 10

/-- `w` after the loop that has written the first words of it. -/
def expand (blk : List UInt32) : ℕ → List UInt32
  | 0 => blk
  | n + 1 =>
    let w := expand blk n
    let i := 16 + n
    w ++ [gamma1 (w.getD (i - 2) 0) + w.getD (i - 7) 0 + gamma0 (w.getD (i - 15) 0) + w.getD (i - 16) 0]

/-- The body of the second loop. -/
def step (w : List UInt32) (v : Words) (i : ℕ) : Words :=
  let t1 := v.h + sigma1 v.e + ch v.e v.f v.g + K.getD i 0 + w.getD i 0
  let t2 := sigma0 v.a + maj v.a v.b v.c
  { h := v.g, g := v.f, f := v.e, e := v.d + t1, d := v.c, c := v.b, b := v.a, a := t1 + t2 }

def transform (s : Words) (blk : List UInt32) : Words :=
  let v := (List.range 64).foldl (step (expand blk 48)) s
  ⟨s.a + v.a, s.b + v.b, s.c + v.c, s.d + v.d, s.e + v.e, s.f + v.f, s.g + v.g, s.h + v.h⟩

/-- The loops that fill `w`. -/
def load_block (data : Bytes) : List UInt32 := (List.range 16).map fun i => read_be32 (data.drop (4 * i))

/-- The first loop of `compute`: the words it leaves and the bytes behind its offset. -/
def full_blocks (s : Words) (data : Bytes) : Words × Bytes :=
  if BLOCK ≤ data.length then full_blocks (transform s (load_block data)) (data.drop BLOCK) else (s, data)
termination_by data.length
decreasing_by
  rw [List.length_drop]
  unfold BLOCK at *
  omega

/-- The bytes that are left and what is put behind them. -/
def padded (len : ℕ) (rest : Bytes) : Bytes :=
  let total_pad := if rest.length < BLOCK - 8 then BLOCK else BLOCK * 2
  let bits := UInt64.ofNat len * 8
  let zeros : Bytes := List.replicate (total_pad - 8 - (rest.length + 1)) 0
  rest ++ 0x80 :: zeros ++ (write_be32 (bits >>> 32).toUInt32 ++ write_be32 bits.toUInt32)

def compute (s : Words) (data : Bytes) : Words :=
  let (s, rest) := full_blocks s data
  let pad := padded data.length rest
  let s := transform s (load_block pad)
  if BLOCK < pad.length then transform s (load_block (pad.drop BLOCK)) else s

end sha256

def sha256_raw (data : Bytes) : Bytes :=
  to_bytes (sha256.compute
    ⟨0x6a09e667, 0xbb67ae85, 0x3c6ef372, 0xa54ff53a, 0x510e527f, 0x9b05688c, 0x1f83d9ab, 0x5be0cd19⟩ data)

def BLOCK_SIZE : ℕ := 64

/-- `std::copy` of the bytes to the front of a block of zeros. -/
def padded_key (key : Bytes) : Bytes :=
  let copied := if BLOCK_SIZE < key.length then sha256_raw key else key
  copied ++ (List.replicate BLOCK_SIZE 0).drop copied.length

def hmac_sha256 (key message : Bytes) : Bytes :=
  let i_key_pad := (padded_key key).map (· ^^^ 0x36)
  let o_key_pad := (padded_key key).map (· ^^^ 0x5c)
  let inner_hash := sha256_raw (i_key_pad ++ message)
  sha256_raw (o_key_pad ++ inner_hash)

/-- One block of the key. -/
def derived (password salt : Bytes) (iterations : ℤ) (block : ℕ) : Bytes :=
  let u := hmac_sha256 password (salt ++ write_be32 (UInt32.ofNat block))
  let step := fun (s : Bytes × Bytes) (_ : ℕ) =>
    let u := hmac_sha256 password s.1
    (u, List.zipWith (· ^^^ ·) s.2 u)
  ((List.range' 1 (iterations - 1).toNat).foldl step (u, u)).2

def hash_len : UInt64 := 32

/-- The memory is taken to be large enough. -/
def pbkdf2_sha256 (password salt : Bytes) (iterations : ℤ) (output_len : UInt64) : Bytes :=
  let blocks_needed := (output_len + hash_len - 1) / hash_len
  let output := (List.range' 1 blocks_needed.toNat).flatMap (derived password salt iterations)
  output.take output_len.toNat ++ List.replicate (output_len.toNat - output.length) 0

section Words

theorem read_word {data : Bytes} (enough : 4 ≤ data.length) : read_be32 data = UInt32.ofNat (value (data.take 4)) := by
  match data, enough with
  | a :: b :: c :: d :: data, _ => exact join_four a b c d

theorem written (v : UInt32) : write_be32 v = octets 4 v.toNat := split_four v

@[simp] theorem length_write (v : UInt32) : (write_be32 v).length = 4 := rfl

theorem to_bytes_octets (words : Words) : to_bytes words = words.list.flatMap fun w => octets 4 w.toNat := by
  simp [to_bytes, Words.list, written]

theorem two_words (n : ℕ) :
    write_be32 (UInt64.ofNat n >>> 32).toUInt32 ++ write_be32 (UInt64.ofNat n).toUInt32 = octets 8 n := by
  have place : (32 : UInt64).toNat % 64 = 32 := rfl
  have high : (UInt64.ofNat n >>> 32).toUInt32.toNat = n / 256 ^ 4 % 256 ^ 4 := by
    rw [UInt64.toNat_toUInt32, UInt64.toNat_shiftRight, UInt64.toNat_ofNat', place, Nat.shiftRight_eq_div_pow]
    omega
  have low : (UInt64.ofNat n).toUInt32.toNat = n % 256 ^ 4 := by
    rw [UInt64.toNat_toUInt32, UInt64.toNat_ofNat']
    omega
  rw [written, written, high, low, octets_mod, octets_mod, ← octets_add]

end Words

namespace sha256

theorem constants : K = (List.range 64).map Lib.Sha256.K := by
  unfold Lib.Sha256.K
  rw [primes_eq]
  decide +kernel

theorem constant {i : ℕ} (inside : i < 64) : K.getD i 0 = Lib.Sha256.K i := by
  rw [constants]
  simp [inside]

theorem length_expand {blk : List UInt32} (size : blk.length = 16) (n : ℕ) : (expand blk n).length = 16 + n := by
  induction n with
  | zero => exact size
  | succ n ih => rw [expand, List.length_append, ih, List.length_singleton, Nat.add_assoc]

theorem expand_schedule {blk : List UInt32} (size : blk.length = 16) (n : ℕ) {t : ℕ} (inside : t < 16 + n) :
    (expand blk n).getD t 0 = W (fun t => blk.getD t 0) t := by
  induction n generalizing t with
  | zero => rw [expand, W, if_pos (by omega)]
  | succ n ih =>
    have sizes := length_expand size n
    rw [expand]
    obtain earlier | rfl : t < 16 + n ∨ t = 16 + n := by omega
    · rw [List.getD_append _ _ _ _ (by omega)]
      exact ih earlier
    · rw [List.getD_append_right _ _ _ _ (by omega), sizes, Nat.sub_self, List.getD_cons_zero, W, if_neg (by omega),
        ih (by omega), ih (by omega), ih (by omega), ih (by omega)]
      rfl

theorem step_round {w : List UInt32} {W : ℕ → UInt32} {i : ℕ} (inside : i < 64) (schedule : w.getD i 0 = W i)
    (v : Words) : step w v i = Lib.Sha256.round W v i := by
  unfold step Lib.Sha256.round
  rw [constant inside, schedule]
  rfl

theorem transform_compress {blk : List UInt32} (size : blk.length = 16) (s : Words) :
    transform s blk = compress s fun t => blk.getD t 0 := by
  have rounds : (List.range 64).foldl (step (expand blk 48)) s =
      (List.range 64).foldl (Lib.Sha256.round (W fun t => blk.getD t 0)) s := by
    apply List.foldl_ext
    intro v i member
    have inside := List.mem_range.mp member
    exact step_round inside (expand_schedule size 48 inside) v
  rw [transform, compress, rounds, Words.add]
  simp only [UInt32.add_comm]

@[simp] theorem length_load (data : Bytes) : (load_block data).length = 16 := by simp [load_block]

theorem load_word {data : Bytes} (enough : 64 ≤ data.length) {t : ℕ} (inside : t < 16) :
    (load_block data).getD t 0 = word (data.take 64) t := by
  have reach : 4 ≤ (data.drop (4 * t)).length := by
    rw [List.length_drop]
    omega
  have inner : ((data.take 64).drop (4 * t)).take 4 = (data.drop (4 * t)).take 4 := by
    rw [List.drop_take, List.take_take, Nat.min_eq_left (by omega)]
  rw [word, inner, ← read_word reach]
  simp [load_block, inside]

theorem transform_block {data : Bytes} (enough : 64 ≤ data.length) (s : Words) :
    transform s (load_block data) = compress s (word (data.take 64)) := by
  rw [transform_compress (length_load data)]
  exact compress_congr s fun t inside => load_word enough inside

/-- The blocks of the standard, from the words of the blocks before. -/
def hashed (s : Words) (padded : Bytes) : Words :=
  (blocks padded).foldl (fun H block => compress H (word block)) s

theorem hashed_nil (s : Words) : hashed s [] = s := by rw [hashed, blocks_nil, List.foldl_nil]

theorem hashed_block {data : Bytes} (enough : 64 ≤ data.length) (s : Words) (more : Bytes) :
    hashed s (data ++ more) = hashed (transform s (load_block data)) (data.drop 64 ++ more) := by
  have size : (data.take 64).length = 64 := by
    rw [List.length_take]
    omega
  have cut : data ++ more = data.take 64 ++ (data.drop 64 ++ more) := by
    rw [← List.append_assoc, List.take_append_drop]
  rw [cut, hashed, blocks_cons size, List.foldl_cons, transform_block enough]
  rfl

/-- What the standard puts behind a message. -/
def padding (len : ℕ) : Bytes := 0x80 :: List.replicate (zeros len) 0 ++ octets 8 (8 * len)

theorem padded_padding {len : ℕ} {rest : Bytes} (left : rest.length = len % 64) :
    padded len rest = rest ++ padding len := by
  have bits : UInt64.ofNat len * 8 = UInt64.ofNat (8 * len) := by
    rw [Nat.mul_comm, UInt64.ofNat_mul]
    rfl
  have filled : (if rest.length < BLOCK - 8 then BLOCK else BLOCK * 2) - 8 - (rest.length + 1) = zeros len := by
    rw [left, zeros, BLOCK]
    split <;> omega
  simp only [padded, filled, bits, two_words, padding, List.append_assoc, List.cons_append]

theorem length_padded {len : ℕ} {rest : Bytes} (left : rest.length = len % 64) :
    (padded len rest).length = 64 ∨ (padded len rest).length = 128 := by
  rw [padded_padding left, padding, List.length_append, List.length_append, List.length_cons, List.length_replicate,
    length_octets, left, zeros]
  omega

theorem last_blocks {pad : Bytes} (whole : pad.length = 64 ∨ pad.length = 128) (s : Words) :
    (if BLOCK < pad.length then transform (transform s (load_block pad)) (load_block (pad.drop BLOCK))
      else transform s (load_block pad)) = hashed s pad := by
  have first := hashed_block (by omega : 64 ≤ pad.length) s []
  rw [List.append_nil, List.append_nil] at first
  rw [first, BLOCK]
  obtain one | two := whole
  · rw [if_neg (by omega), List.drop_eq_nil_of_le (by omega), hashed_nil]
  · have size : (pad.drop 64).length = 64 := by rw [List.length_drop, two]
    have second := hashed_block (by omega : 64 ≤ (pad.drop 64).length) (transform s (load_block pad)) []
    rw [List.append_nil, List.append_nil, List.drop_eq_nil_of_le (by omega : (pad.drop 64).length ≤ 64),
      hashed_nil] at second
    rw [if_pos (by omega), second]

theorem full_blocks_left (s : Words) (data : Bytes) : (full_blocks s data).2.length = data.length % 64 := by
  fun_induction full_blocks s data with
  | case1 s data enough ih =>
    rw [ih, List.length_drop, BLOCK]
    unfold BLOCK at enough
    omega
  | case2 s data short =>
    unfold BLOCK at short
    have inside : data.length < 64 := by omega
    exact (Nat.mod_eq_of_lt inside).symm

theorem full_blocks_hashed (s : Words) (data more : Bytes) :
    hashed (full_blocks s data).1 ((full_blocks s data).2 ++ more) = hashed s (data ++ more) := by
  fun_induction full_blocks s data with
  | case1 s data enough ih =>
    rw [ih]
    exact (hashed_block enough s more).symm
  | case2 s data short => rfl

/-- The first loop and the one or two blocks behind it go over the padded message. -/
theorem compute_hashed (s : Words) (data : Bytes) : compute s data = hashed s (data ++ padding data.length) := by
  have left := full_blocks_left s data
  have gone := full_blocks_hashed s data (padding data.length)
  rw [compute]
  generalize full_blocks s data = state at left gone ⊢
  obtain ⟨s', rest⟩ := state
  dsimp only at left gone ⊢
  have last := last_blocks (length_padded left) s'
  rw [padded_padding left] at last ⊢
  exact last.trans gone

end sha256

theorem sha256_digest (message : Bytes) : sha256_raw message = digest message := by
  have start : (⟨0x6a09e667, 0xbb67ae85, 0x3c6ef372, 0xa54ff53a, 0x510e527f, 0x9b05688c, 0x1f83d9ab, 0x5be0cd19⟩
      : Words) = H0 := by
    simp only [H0, root, primes_eq]
    decide +kernel
  have whole : message ++ sha256.padding message.length = pad message := by
    simp only [sha256.padding, pad, List.append_assoc, List.cons_append]
  rw [sha256_raw, start, sha256.compute_hashed, whole, to_bytes_octets]
  rfl

theorem padded_block (key : Bytes) : padded_key key = block_key digest 64 key := by
  simp only [padded_key, block_key, BLOCK_SIZE, sha256_digest, List.drop_replicate]

theorem hmac_standard (key message : Bytes) : hmac_sha256 key message = hmac digest 64 key message := by
  simp only [hmac_sha256, hmac, sha256_digest, padded_block]

theorem length_hmac (key message : Bytes) : (hmac digest 64 key message).length = 32 := length_digest _

/-- The loop goes through the iterates, and adds each of them. -/
theorem derived_block (password salt : Bytes) {iterations : ℤ} (once : 1 ≤ iterations) (block : ℕ) :
    derived password salt iterations block = F (hmac digest 64) password salt iterations.toNat block := by
  have first : hmac digest 64 password (salt ++ write_be32 (UInt32.ofNat block)) = U (hmac digest 64) password salt block 1 := by
    rw [written, UInt32.toNat_ofNat', U]
    exact congrArg (fun four => hmac digest 64 password (salt ++ four)) (octets_mod 4 block)
  have count : (iterations - 1).toNat = iterations.toNat - 1 := by omega
  have run (k : ℕ) : (List.range' 1 k).foldl (fun (s : Bytes × Bytes) (_ : ℕ) =>
        let u := hmac digest 64 password s.1
        (u, List.zipWith (· ^^^ ·) s.2 u))
        (U (hmac digest 64) password salt block 1, U (hmac digest 64) password salt block 1) =
      (U (hmac digest 64) password salt block (k + 1),
        (List.range' 2 k).foldl (fun T j => xor_bytes T (U (hmac digest 64) password salt block j))
          (U (hmac digest 64) password salt block 1)) := by
    induction k with
    | zero => rfl
    | succ k ih =>
      rw [List.range'_concat, List.range'_concat, List.foldl_append, List.foldl_append, ih]
      simp only [List.foldl_cons, List.foldl_nil, xor_bytes]
      rw [Nat.one_mul, Nat.add_comm 2 k]
      rfl
  simp only [derived, hmac_standard]
  rw [first, count, run, F]

theorem blocks_needed {output_len : UInt64} (short : output_len.toNat ≤ (2 ^ 32 - 1) * 32) :
    ((output_len + hash_len - 1) / hash_len).toNat = (output_len.toNat + 32 - 1) / 32 := by
  have size : hash_len.toNat = 32 := rfl
  have one : (1 : UInt64).toNat = 1 := rfl
  have sum : (output_len + hash_len).toNat = output_len.toNat + 32 := by
    rw [UInt64.toNat_add, size]
    omega
  have positive : 1 ≤ output_len + hash_len := by
    rw [UInt64.le_iff_toNat_le, sum, one]
    omega
  rw [UInt64.toNat_div, UInt64.toNat_sub_of_le _ _ positive, sum, size, one]

theorem password_primitives (message key text password salt : Bytes) {iterations : ℤ} (once : 1 ≤ iterations)
    (output_len : UInt64) :
    sha256_raw message = digest message ∧ hmac_sha256 key text = hmac digest 64 key text ∧
      (pbkdf2 (hmac digest 64) 32 password salt iterations.toNat output_len.toNat =
          some (pbkdf2_sha256 password salt iterations output_len) ↔
        output_len.toNat ≤ (2 ^ 32 - 1) * 32) := by
  refine ⟨sha256_digest message, hmac_standard key text, ?_⟩
  by_cases long : (2 ^ 32 - 1) * 32 < output_len.toNat
  · rw [pbkdf2, if_pos long]
    exact iff_of_false (fun same => nomatch same) (by omega)
  · refine iff_of_true ?_ (by omega)
    have fixed : ∀ i, (F (hmac digest 64) password salt iterations.toNat i).length = 32 := length_F length_hmac _
    have enough : output_len.toNat ≤ ((List.range' 1 ((output_len.toNat + 32 - 1) / 32)).flatMap
        (F (hmac digest 64) password salt iterations.toNat)).length := by
      rw [Lib.RowMajor.length_flatMap fixed, List.length_range']
      omega
    have blocks : derived password salt iterations = F (hmac digest 64) password salt iterations.toNat :=
      funext (derived_block password salt once)
    rw [pbkdf2, if_neg long, pbkdf2_sha256, blocks_needed (by omega), blocks]
    dsimp only
    rw [Nat.sub_eq_zero_of_le enough, List.replicate_zero, List.append_nil, take_blocks fixed (by decide)]

theorem password_primitives_twice : (1 : ℤ) ≤ 2 ∧
    sha256_raw (bytes "abc") = digest (bytes "abc") ∧
    hmac_sha256 (bytes "key") (bytes "text") = hmac digest 64 (bytes "key") (bytes "text") ∧
      (pbkdf2 (hmac digest 64) 32 (bytes "password") (bytes "salt") (2 : ℤ).toNat (40 : UInt64).toNat =
          some (pbkdf2_sha256 (bytes "password") (bytes "salt") 2 40) ↔
        (40 : UInt64).toNat ≤ (2 ^ 32 - 1) * 32) :=
  ⟨by decide, password_primitives (bytes "abc") (bytes "key") (bytes "text") (bytes "password") (bytes "salt")
    (by decide) 40⟩

theorem length_derived (password salt : Bytes) (iterations : ℤ) (output_len : UInt64) :
    (pbkdf2_sha256 password salt iterations output_len).length = output_len.toNat := by
  simp only [pbkdf2_sha256, List.length_append, List.length_take, List.length_replicate]
  omega

/-- The standard has no key of 128 gibibytes, the code has one: its counter begins again. -/
theorem long_key_derived :
    pbkdf2 (hmac digest 64) 32 (bytes "password") (bytes "salt") 1 (2 ^ 37) ≠
        some (pbkdf2_sha256 (bytes "password") (bytes "salt") 1 (2 ^ 37)) ∧
      (pbkdf2_sha256 (bytes "password") (bytes "salt") 1 (2 ^ 37)).length = 2 ^ 37 := by
  constructor
  · rw [pbkdf2, if_pos (by decide)]
    exact fun same => nomatch same
  · exact length_derived _ _ _ _

end AoSdl.crypto
