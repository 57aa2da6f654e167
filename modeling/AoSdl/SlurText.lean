import AoSdl.SlurFilter

/-! What the slur filter sees of a text: the code points of UTF-8, also between other bytes. -/
namespace AoSdl.moderation

/-- The bytes of a text. -/
def encode (s : List Char) : Bytes := s.flatMap String.utf8EncodeChar

section Bytes

theorem first_byte_two {n : Nat} (small : n < 32) :
    ¬ UInt8.ofNat (n + 192) < 0x80 ∧ first_byte (UInt8.ofNat (n + 192)) = some (2, UInt8.ofNat n) ∧
      (UInt8.ofNat n).toNat = n := by
  have each : ∀ n < 32, ¬ UInt8.ofNat (n + 192) < 0x80 ∧
      first_byte (UInt8.ofNat (n + 192)) = some (2, UInt8.ofNat n) ∧ (UInt8.ofNat n).toNat = n := by decide
  exact each n small

theorem first_byte_three {n : Nat} (small : n < 16) :
    ¬ UInt8.ofNat (n + 224) < 0x80 ∧ first_byte (UInt8.ofNat (n + 224)) = some (3, UInt8.ofNat n) ∧
      (UInt8.ofNat n).toNat = n := by
  have each : ∀ n < 16, ¬ UInt8.ofNat (n + 224) < 0x80 ∧
      first_byte (UInt8.ofNat (n + 224)) = some (3, UInt8.ofNat n) ∧ (UInt8.ofNat n).toNat = n := by decide
  exact each n small

theorem first_byte_four {n : Nat} (small : n < 8) :
    ¬ UInt8.ofNat (n + 240) < 0x80 ∧ first_byte (UInt8.ofNat (n + 240)) = some (4, UInt8.ofNat n) ∧
      (UInt8.ofNat n).toNat = n := by
  have each : ∀ n < 8, ¬ UInt8.ofNat (n + 240) < 0x80 ∧
      first_byte (UInt8.ofNat (n + 240)) = some (4, UInt8.ofNat n) ∧ (UInt8.ofNat n).toNat = n := by decide
  exact each n small

theorem next_byte_eq {n : Nat} (small : n < 64) (cp : Nat) :
    next_byte cp (UInt8.ofNat (n + 128)) = some (cp * 64 + n) := by
  have each : ∀ n < 64, UInt8.ofNat (n + 128) &&& 0xC0 = 0x80 ∧
      (UInt8.ofNat (n + 128) &&& 0x3F).toNat = n := by decide
  obtain ⟨marked, bits⟩ := each n small
  have sum : cp <<< 6 + n = cp <<< 6 ||| n := Nat.shiftLeft_add_eq_or_of_lt (by omega) cp
  rw [next_byte, if_pos marked, bits, ← sum, Nat.shiftLeft_eq]

/-- A byte that goes on with a code point does not start one. -/
def Continues (b : UInt8) : Prop := b &&& 0xC0 = 0x80

instance (b : UInt8) : Decidable (Continues b) := inferInstanceAs (Decidable (b &&& 0xC0 = 0x80))

theorem next_byte_none {y : UInt8} (start : ¬ Continues y) (cp : Nat) : next_byte cp y = none := if_neg start

theorem foldlM_next_stops {y : UInt8} (start : ¬ Continues y) (l r : Bytes) (cp : Nat) :
    (l ++ y :: r).foldlM next_byte cp = none := by
  induction l generalizing cp with
  | nil =>
    rw [List.nil_append, List.foldlM_cons, next_byte_none start]
    rfl
  | cons b l ih =>
    rw [List.cons_append, List.foldlM_cons]
    cases next_byte cp b with
    | none => rfl
    | some cp => exact ih cp

end Bytes

section Decoding

theorem decode_wide {b0 bits : UInt8} {width cp : Nat} {more : Bytes} (high : ¬ b0 < 0x80)
    (first : first_byte b0 = some (width, bits)) (size : more.length = width - 1)
    (read : more.foldlM next_byte bits.toNat = some cp) (scalar : ¬ (0xD800 ≤ cp ∧ cp ≤ 0xDFFF))
    (limit : cp ≤ 0x10FFFF) (shortest : overlong width cp = false) (rest : Bytes) :
    decode_utf8 (b0 :: (more ++ rest)) = (cp, rest) := by
  have whole : ¬ (more ++ rest).length < width - 1 := by
    rw [List.length_append]
    omega
  simp only [decode_utf8, if_neg high, first, if_neg whole]
  rw [← size, List.take_left, List.drop_left, read]
  simp only [if_neg scalar, if_neg (Nat.not_lt.mpr limit), shortest]
  rfl

theorem decode_encodeChar (c : Char) (rest : Bytes) :
    decode_utf8 (String.utf8EncodeChar c ++ rest) = (c.toNat, rest) := by
  have value : c.val.toNat = c.toNat := rfl
  have valid := c.valid
  simp only [UInt32.isValidChar, Nat.isValidChar, value] at valid
  have limit : c.toNat ≤ 0x10FFFF := by omega
  have scalar : ¬ (0xD800 ≤ c.toNat ∧ c.toNat ≤ 0xDFFF) := by omega
  rw [String.utf8EncodeChar]
  simp only [value]
  split
  · next one =>
    have size : (UInt8.ofNat c.toNat).toNat = c.toNat := by
      rw [UInt8.toNat_ofNat']
      omega
    have ascii : UInt8.ofNat c.toNat < 0x80 := by
      rw [UInt8.lt_iff_toNat_lt, size]
      exact Nat.lt_succ_of_le one
    rw [List.cons_append, List.nil_append, decode_utf8, if_pos ascii, size]
  · next more =>
    split
    · next two =>
      obtain ⟨high, first, bits⟩ := first_byte_two (n := c.toNat / 64 % 32) (by omega)
      have read : ([UInt8.ofNat (c.toNat % 64 + 128)] : Bytes).foldlM next_byte (c.toNat / 64 % 32) =
          some c.toNat := by
        rw [List.foldlM_cons, next_byte_eq (by omega)]
        exact congrArg some (by omega)
      have shortest : overlong 2 c.toNat = false := by
        simp [overlong]
        omega
      exact decode_wide high first rfl (bits.symm ▸ read) scalar limit shortest rest
    · next more =>
      split
      · next three =>
        obtain ⟨high, first, bits⟩ := first_byte_three (n := c.toNat / 4096 % 16) (by omega)
        have read : ([UInt8.ofNat (c.toNat / 64 % 64 + 128), UInt8.ofNat (c.toNat % 64 + 128)] : Bytes).foldlM
            next_byte (c.toNat / 4096 % 16) = some c.toNat := by
          rw [List.foldlM_cons, next_byte_eq (by omega), Option.bind_eq_bind, Option.bind_some,
            List.foldlM_cons, next_byte_eq (by omega)]
          exact congrArg some (by omega)
        have shortest : overlong 3 c.toNat = false := by
          simp [overlong]
          omega
        exact decode_wide high first rfl (bits.symm ▸ read) scalar limit shortest rest
      · next more =>
        obtain ⟨high, first, bits⟩ := first_byte_four (n := c.toNat / 262144 % 8) (by omega)
        have read : ([UInt8.ofNat (c.toNat / 4096 % 64 + 128), UInt8.ofNat (c.toNat / 64 % 64 + 128),
            UInt8.ofNat (c.toNat % 64 + 128)] : Bytes).foldlM next_byte (c.toNat / 262144 % 8) =
            some c.toNat := by
          rw [List.foldlM_cons, next_byte_eq (by omega), Option.bind_eq_bind, Option.bind_some,
            List.foldlM_cons, next_byte_eq (by omega), Option.bind_eq_bind, Option.bind_some,
            List.foldlM_cons, next_byte_eq (by omega)]
          exact congrArg some (by omega)
        have shortest : overlong 4 c.toNat = false := by
          simp [overlong]
          omega
        exact decode_wide high first rfl (bits.symm ▸ read) scalar limit shortest rest

theorem decode_length_le (b0 : UInt8) (s : Bytes) : (decode_utf8 (b0 :: s)).2.length ≤ s.length := by
  simp only [decode_utf8]
  (repeat' split) <;> simp

/-- Bytes behind that start with a code point of their own do not change the first one. -/
theorem decode_append {r : Bytes} (start : ∀ y ∈ r.head?, ¬ Continues y) (b0 : UInt8) (t : Bytes) :
    decode_utf8 (b0 :: (t ++ r)) = ((decode_utf8 (b0 :: t)).1, (decode_utf8 (b0 :: t)).2 ++ r) := by
  simp only [decode_utf8]
  by_cases ascii : b0 < 0x80
  · simp only [if_pos ascii]
  · simp only [if_neg ascii]
    cases first_byte b0 with
    | none => rfl
    | some p =>
      obtain ⟨width, bits⟩ := p
      by_cases short : t.length < width - 1
      · simp only [if_pos short]
        split
        · rfl
        · next enough =>
          -- The sequence would need the byte that starts a code point.
          cases r with
          | nil => exact absurd short (by simpa using enough)
          | cons y r =>
            have part : (t ++ y :: r).take (width - 1) = t ++ y :: r.take (width - 2 - t.length) := by
              obtain ⟨m, rest⟩ : ∃ m, width - 1 = t.length + (m + 1) := ⟨width - 2 - t.length, by omega⟩
              have left : width - 2 - t.length = m := by omega
              rw [rest, List.take_length_add_append, List.take_succ_cons, left]
            rw [part, foldlM_next_stops (start y rfl)]
      · have long : ¬ (t ++ r).length < width - 1 := by
          rw [List.length_append]
          omega
        simp only [if_neg short, if_neg long, List.take_append_of_le_length (Nat.not_lt.mp short),
          List.drop_append_of_le_length (Nat.not_lt.mp short)]
        cases (t.take (width - 1)).foldlM next_byte bits.toNat with
        | none => rfl
        | some cp =>
          dsimp only
          (repeat' split) <;> rfl

theorem code_points_from_enough {fuel : Nat} {s : Bytes} (enough : s.length ≤ fuel) :
    code_points_from fuel s = code_points s := by
  have same (n m : Nat) (s : Bytes) (enough : s.length ≤ n) (enough' : s.length ≤ m) :
      code_points_from n s = code_points_from m s := by
    induction n generalizing m s with
    | zero =>
      obtain rfl := List.eq_nil_of_length_eq_zero (Nat.le_zero.mp enough)
      cases m <;> rfl
    | succ n ih =>
      cases s with
      | nil => cases m <;> rfl
      | cons b s =>
        rw [List.length_cons] at enough enough'
        obtain ⟨m, rfl⟩ := Nat.exists_eq_succ_of_ne_zero (show m ≠ 0 by omega)
        have shorter := decode_length_le b s
        rw [code_points_from, code_points_from, ih m _ (by omega) (by omega)]
  exact same fuel s.length s enough (Nat.le_refl _)

theorem code_points_cons (b : UInt8) (s : Bytes) :
    code_points (b :: s) = (decode_utf8 (b :: s)).1 :: code_points (decode_utf8 (b :: s)).2 := by
  have enough : (decode_utf8 (b :: s)).2.length ≤ s.length := decode_length_le b s
  rw [code_points, List.length_cons, code_points_from, code_points_from_enough enough]

theorem code_points_append {r : Bytes} (start : ∀ y ∈ r.head?, ¬ Continues y) (l : Bytes) :
    code_points (l ++ r) = code_points l ++ code_points r := by
  induction length : l.length using Nat.strong_induction_on generalizing l with
  | _ n ih =>
    cases l with
    | nil => rfl
    | cons b l =>
      have shorter := decode_length_le b l
      rw [List.length_cons] at length
      rw [List.cons_append, code_points_cons, code_points_cons, decode_append start,
        ih _ (by omega) _ rfl, List.cons_append]

theorem encodeChar_start (c : Char) : ∃ b s, String.utf8EncodeChar c = b :: s ∧ ¬ Continues b := by
  have outside (n : Nat) (byte : n < 256) (range : n < 128 ∨ 192 ≤ n) : ¬ Continues (UInt8.ofNat n) := by
    have each : ∀ n < 256, n < 128 ∨ 192 ≤ n → ¬ Continues (UInt8.ofNat n) := by decide +kernel
    exact each n byte range
  rw [String.utf8EncodeChar]
  split
  · exact ⟨_, _, rfl, outside _ (by omega) (by omega)⟩
  · split
    · exact ⟨_, _, rfl, outside _ (by omega) (by omega)⟩
    · split
      · exact ⟨_, _, rfl, outside _ (by omega) (by omega)⟩
      · exact ⟨_, _, rfl, outside _ (by omega) (by omega)⟩

theorem code_points_encode (s : List Char) (r : Bytes) :
    code_points (encode s ++ r) = s.map Char.toNat ++ code_points r := by
  induction s with
  | nil => rfl
  | cons c s ih =>
    obtain ⟨b, t, shape, _⟩ := encodeChar_start c
    have read := decode_encodeChar c (encode s ++ r)
    rw [encode, List.flatMap_cons, ← encode, List.append_assoc, shape, List.cons_append, code_points_cons,
      ← List.cons_append, ← shape, read, ih, List.map_cons, List.cons_append]

/-- A text in UTF-8 is read as it is, whatever bytes stand around it. -/
theorem code_points_between {s : List Char} (letters : s ≠ []) (l r : Bytes) :
    code_points (l ++ (encode s ++ r)) = code_points l ++ (s.map Char.toNat ++ code_points r) := by
  rw [code_points_append, code_points_encode]
  intro y first
  obtain ⟨c, s, rfl⟩ := List.exists_cons_of_ne_nil letters
  obtain ⟨b, t, shape, start⟩ := encodeChar_start c
  rw [encode, List.flatMap_cons, shape] at first
  cases first
  exact start

end Decoding

end AoSdl.moderation
