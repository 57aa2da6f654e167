import AoSdl.Lib.BigEndian
import AoSdl.UnicodeClassifier

/-! The decoders of the slur filter and of the classifier: both read exactly the sequences that UTF-8 has for
a scalar value, and both loops cut a text into the same pieces. -/
namespace AoSdl.moderation
open Lib.Sextets

/-- The text starts with the bytes that stand for the code point. -/
def Encodes (s : Bytes) (cp size : Nat) : Prop :=
  ∃ c : Char, c.toNat = cp ∧ (String.utf8EncodeChar c).length = size ∧ String.utf8EncodeChar c <+: s

section Sequences

/-- A first byte with the marked bytes that it announces, and the bits of all of them. -/
inductive Announced : Bytes → Nat → Prop
  | two {x y : Nat} (first : x < 32) (second : y < 64) :
      Announced [UInt8.ofNat (x + 192), UInt8.ofNat (y + 128)] (x * 64 + y)
  | three {x y z : Nat} (first : x < 16) (second : y < 64) (third : z < 64) :
      Announced [UInt8.ofNat (x + 224), UInt8.ofNat (y + 128), UInt8.ofNat (z + 128)] ((x * 64 + y) * 64 + z)
  | four {x y z u : Nat} (first : x < 8) (second : y < 64) (third : z < 64) (fourth : u < 64) :
      Announced [UInt8.ofNat (x + 240), UInt8.ofNat (y + 128), UInt8.ofNat (z + 128), UInt8.ofNat (u + 128)]
        (((x * 64 + y) * 64 + z) * 64 + u)

/-- The value is a scalar value that needs all of the bytes. -/
def Proper (seq : Bytes) (cp : Nat) : Prop :=
  ¬ (0xD800 ≤ cp ∧ cp ≤ 0xDFFF) ∧ cp ≤ 0x10FFFF ∧ overlong seq.length cp = false

theorem marked_byte : ∀ b : UInt8,
    (b &&& 0xE0 = 0xC0 → b = UInt8.ofNat ((b &&& 0x1F).toNat + 192) ∧ (b &&& 0x1F).toNat < 32) ∧
    (b &&& 0xF0 = 0xE0 → b = UInt8.ofNat ((b &&& 0x0F).toNat + 224) ∧ (b &&& 0x0F).toNat < 16) ∧
    (b &&& 0xF8 = 0xF0 → b = UInt8.ofNat ((b &&& 0x07).toNat + 240) ∧ (b &&& 0x07).toNat < 8) ∧
    (b &&& 0xC0 = 0x80 → b = UInt8.ofNat ((b &&& 0x3F).toNat + 128) ∧ (b &&& 0x3F).toNat < 64) := by
  have each : ∀ n < 256, (UInt8.ofNat n &&& 0xE0 = 0xC0 →
        UInt8.ofNat n = UInt8.ofNat ((UInt8.ofNat n &&& 0x1F).toNat + 192) ∧ (UInt8.ofNat n &&& 0x1F).toNat < 32) ∧
      (UInt8.ofNat n &&& 0xF0 = 0xE0 →
        UInt8.ofNat n = UInt8.ofNat ((UInt8.ofNat n &&& 0x0F).toNat + 224) ∧ (UInt8.ofNat n &&& 0x0F).toNat < 16) ∧
      (UInt8.ofNat n &&& 0xF8 = 0xF0 →
        UInt8.ofNat n = UInt8.ofNat ((UInt8.ofNat n &&& 0x07).toNat + 240) ∧ (UInt8.ofNat n &&& 0x07).toNat < 8) ∧
      (UInt8.ofNat n &&& 0xC0 = 0x80 →
        UInt8.ofNat n = UInt8.ofNat ((UInt8.ofNat n &&& 0x3F).toNat + 128) ∧ (UInt8.ofNat n &&& 0x3F).toNat < 64) := by
    decide +kernel
  intro b
  have byte := each b.toNat b.toNat_lt
  rwa [UInt8.ofNat_toNat] at byte

theorem announced_two {b0 b1 : UInt8} (first : b0 &&& 0xE0 = 0xC0) (second : b1 &&& 0xC0 = 0x80) :
    Announced [b0, b1] ((b0 &&& 0x1F).toNat * 64 + (b1 &&& 0x3F).toNat) := by
  have lead := (marked_byte b0).1 first
  have next := (marked_byte b1).2.2.2 second
  have whole := Announced.two lead.2 next.2
  rwa [← lead.1, ← next.1] at whole

theorem announced_three {b0 b1 b2 : UInt8} (first : b0 &&& 0xF0 = 0xE0) (second : b1 &&& 0xC0 = 0x80)
    (third : b2 &&& 0xC0 = 0x80) :
    Announced [b0, b1, b2] (((b0 &&& 0x0F).toNat * 64 + (b1 &&& 0x3F).toNat) * 64 + (b2 &&& 0x3F).toNat) := by
  have lead := (marked_byte b0).2.1 first
  have next := (marked_byte b1).2.2.2 second
  have last := (marked_byte b2).2.2.2 third
  have whole := Announced.three lead.2 next.2 last.2
  rwa [← lead.1, ← next.1, ← last.1] at whole

theorem announced_four {b0 b1 b2 b3 : UInt8} (first : b0 &&& 0xF8 = 0xF0) (second : b1 &&& 0xC0 = 0x80)
    (third : b2 &&& 0xC0 = 0x80) (fourth : b3 &&& 0xC0 = 0x80) :
    Announced [b0, b1, b2, b3] ((((b0 &&& 0x07).toNat * 64 + (b1 &&& 0x3F).toNat) * 64 + (b2 &&& 0x3F).toNat) * 64 +
      (b3 &&& 0x3F).toNat) := by
  have lead := (marked_byte b0).2.2.1 first
  have next := (marked_byte b1).2.2.2 second
  have third := (marked_byte b2).2.2.2 third
  have last := (marked_byte b3).2.2.2 fourth
  have whole := Announced.four lead.2 next.2 third.2 last.2
  rwa [← lead.1, ← next.1, ← third.1, ← last.1] at whole

theorem encode_of_announced {seq : Bytes} {cp : Nat} (announced : Announced seq cp) (proper : Proper seq cp) :
    ∃ c : Char, c.toNat = cp ∧ String.utf8EncodeChar c = seq := by
  obtain ⟨scalar, limit, shortest⟩ := proper
  have valid : cp.isValidChar := by
    simp only [Nat.isValidChar]
    omega
  have value : (Char.ofNat cp).toNat = cp := by
    rw [Char.ofNat, dif_pos valid]
    rfl
  refine ⟨Char.ofNat cp, value, ?_⟩
  have bits : (Char.ofNat cp).val.toNat = cp := value
  rw [String.utf8EncodeChar]
  simp only [bits]
  cases announced with
  | @two x y first second =>
    have low : ¬ x * 64 + y ≤ 0x7f := by
      simp [overlong] at shortest
      omega
    have high : x * 64 + y ≤ 0x7ff := by omega
    have digits : (x * 64 + y) / 64 % 32 = x ∧ (x * 64 + y) % 64 = y := by omega
    rw [if_neg low, if_pos high, digits.1, digits.2]
  | @three x y z first second third =>
    have low : ¬ (x * 64 + y) * 64 + z ≤ 0x7ff := by
      simp [overlong] at shortest
      omega
    have lower : ¬ (x * 64 + y) * 64 + z ≤ 0x7f := by omega
    have high : (x * 64 + y) * 64 + z ≤ 0xffff := by omega
    have digits : ((x * 64 + y) * 64 + z) / 4096 % 16 = x ∧ ((x * 64 + y) * 64 + z) / 64 % 64 = y ∧
        ((x * 64 + y) * 64 + z) % 64 = z := by omega
    rw [if_neg lower, if_neg low, if_pos high, digits.1, digits.2.1, digits.2.2]
  | @four x y z u first second third fourth =>
    have low : ¬ ((x * 64 + y) * 64 + z) * 64 + u ≤ 0xffff := by
      simp [overlong] at shortest
      omega
    have lower : ¬ ((x * 64 + y) * 64 + z) * 64 + u ≤ 0x7f ∧ ¬ ((x * 64 + y) * 64 + z) * 64 + u ≤ 0x7ff := by omega
    have digits : (((x * 64 + y) * 64 + z) * 64 + u) / 262144 % 8 = x ∧
        (((x * 64 + y) * 64 + z) * 64 + u) / 4096 % 64 = y ∧ (((x * 64 + y) * 64 + z) * 64 + u) / 64 % 64 = z ∧
        (((x * 64 + y) * 64 + z) * 64 + u) % 64 = u := by omega
    rw [if_neg lower.1, if_neg lower.2, if_neg low, digits.1, digits.2.1, digits.2.2.1, digits.2.2.2]

/-- What is left to check of an announced sequence. -/
theorem proper_of_announced {seq : Bytes} {cp : Nat} (announced : Announced seq cp)
    (shortest : overlong seq.length cp = false) (scalar : seq.length = 3 → ¬ (0xD800 ≤ cp ∧ cp ≤ 0xDFFF))
    (limit : seq.length = 4 → cp ≤ 0x10FFFF) : Proper seq cp := by
  cases announced with
  | two first second => exact ⟨by omega, by omega, shortest⟩
  | three first second third => exact ⟨scalar rfl, by omega, shortest⟩
  | four first second third fourth =>
    have high := shortest
    simp [overlong] at high
    exact ⟨by omega, limit rfl, shortest⟩

/-- The bytes of a code point beyond ASCII are announced by the first of them. -/
theorem announced_encode {c : Char} (high : ¬ c.toNat < 0x80) : Announced (String.utf8EncodeChar c) c.toNat ∧
    Proper (String.utf8EncodeChar c) c.toNat := by
  have value : c.val.toNat = c.toNat := rfl
  have valid := c.valid
  simp only [UInt32.isValidChar, Nat.isValidChar, value] at valid
  have scalar : ¬ (0xD800 ≤ c.toNat ∧ c.toNat ≤ 0xDFFF) := by omega
  have limit : c.toNat ≤ 0x10FFFF := by omega
  rw [String.utf8EncodeChar]
  simp only [value]
  have low : ¬ c.toNat ≤ 0x7f := by omega
  rw [if_neg low]
  split
  · next two =>
    have sequence := Announced.two (x := c.toNat / 64 % 32) (y := c.toNat % 64) (by omega) (by omega)
    have bits : c.toNat / 64 % 32 * 64 + c.toNat % 64 = c.toNat := by omega
    rw [bits] at sequence
    refine ⟨sequence, scalar, limit, ?_⟩
    simp [overlong]
    omega
  · next more =>
    split
    · next three =>
      have sequence := Announced.three (x := c.toNat / 4096 % 16) (y := c.toNat / 64 % 64) (z := c.toNat % 64)
        (by omega) (by omega) (by omega)
      have bits : (c.toNat / 4096 % 16 * 64 + c.toNat / 64 % 64) * 64 + c.toNat % 64 = c.toNat := by omega
      rw [bits] at sequence
      refine ⟨sequence, scalar, limit, ?_⟩
      simp [overlong]
      omega
    · next more =>
      have sequence := Announced.four (x := c.toNat / 262144 % 8) (y := c.toNat / 4096 % 64)
        (z := c.toNat / 64 % 64) (u := c.toNat % 64) (by omega) (by omega) (by omega) (by omega)
      have bits : ((c.toNat / 262144 % 8 * 64 + c.toNat / 4096 % 64) * 64 + c.toNat / 64 % 64) * 64 + c.toNat % 64 =
          c.toNat := by omega
      rw [bits] at sequence
      refine ⟨sequence, scalar, limit, ?_⟩
      simp [overlong]
      omega

theorem encode_ascii {c : Char} (ascii : c.toNat < 0x80) : String.utf8EncodeChar c = [UInt8.ofNat c.toNat] := by
  have value : c.val.toNat = c.toNat := rfl
  have low : c.toNat ≤ 0x7f := by omega
  rw [String.utf8EncodeChar]
  simp only [value, if_pos low]

theorem char_of_ascii {b : UInt8} (ascii : b < 0x80) : ∃ c : Char, c.toNat = b.toNat ∧ String.utf8EncodeChar c = [b] := by
  have small : b.toNat < 0x80 := UInt8.lt_iff_toNat_lt.mp ascii
  have valid : b.toNat.isValidChar := by
    simp only [Nat.isValidChar]
    omega
  have value : (Char.ofNat b.toNat).toNat = b.toNat := by
    rw [Char.ofNat, dif_pos valid]
    rfl
  refine ⟨Char.ofNat b.toNat, value, ?_⟩
  rw [encode_ascii (by omega), value, UInt8.ofNat_toNat]

end Sequences

section Slur

theorem first_byte_cases {b0 bits : UInt8} {width : Nat} (first : first_byte b0 = some (width, bits)) :
    (b0 &&& 0xE0 = 0xC0 ∧ width = 2 ∧ bits = b0 &&& 0x1F) ∨ (b0 &&& 0xF0 = 0xE0 ∧ width = 3 ∧ bits = b0 &&& 0x0F) ∨
      (b0 &&& 0xF8 = 0xF0 ∧ width = 4 ∧ bits = b0 &&& 0x07) := by
  unfold first_byte at first
  split at first
  · next two =>
    cases first
    exact .inl ⟨two, rfl, rfl⟩
  · split at first
    · next three =>
      cases first
      exact .inr (.inl ⟨three, rfl, rfl⟩)
    · split at first
      · next four =>
        cases first
        exact .inr (.inr ⟨four, rfl, rfl⟩)
      · cases first

theorem next_byte_some {cp value : Nat} {b : UInt8} (next : next_byte cp b = some value) :
    b &&& 0xC0 = 0x80 ∧ value = cp * 64 + (b &&& 0x3F).toNat := by
  unfold next_byte at next
  split at next
  · next marked =>
    have small := ((marked_byte b).2.2.2 marked).2
    have sum : cp <<< 6 + (b &&& 0x3F).toNat = cp <<< 6 ||| (b &&& 0x3F).toNat :=
      Nat.shiftLeft_add_eq_or_of_lt (by omega) cp
    refine ⟨marked, ?_⟩
    rw [← Option.some.inj next, ← sum, Nat.shiftLeft_eq]
  · cases next

/-- The bytes behind a first one that were read to a value. -/
theorem announced_of_read {b0 bits : UInt8} {width cp : Nat} {more : Bytes} (first : first_byte b0 = some (width, bits))
    (size : more.length = width - 1) (read : more.foldlM next_byte bits.toNat = some cp) :
    Announced (b0 :: more) cp ∧ width = (b0 :: more).length := by
  rcases first_byte_cases first with ⟨two, rfl, rfl⟩ | ⟨three, rfl, rfl⟩ | ⟨four, rfl, rfl⟩
  · obtain ⟨b1, rfl⟩ := List.length_eq_one_iff.mp size
    rw [List.foldlM_cons, Option.bind_eq_bind, Option.bind_eq_some_iff] at read
    obtain ⟨v1, next1, rest⟩ := read
    cases rest
    obtain ⟨mark1, rfl⟩ := next_byte_some next1
    exact ⟨announced_two two mark1, rfl⟩
  · obtain ⟨b1, b2, rfl⟩ := List.length_eq_two.mp size
    rw [List.foldlM_cons, Option.bind_eq_bind, Option.bind_eq_some_iff] at read
    obtain ⟨v1, next1, read⟩ := read
    rw [List.foldlM_cons, Option.bind_eq_bind, Option.bind_eq_some_iff] at read
    obtain ⟨v2, next2, rest⟩ := read
    cases rest
    obtain ⟨mark1, rfl⟩ := next_byte_some next1
    obtain ⟨mark2, rfl⟩ := next_byte_some next2
    exact ⟨announced_three three mark1 mark2, rfl⟩
  · obtain ⟨b1, b2, b3, rfl⟩ := List.length_eq_three.mp size
    rw [List.foldlM_cons, Option.bind_eq_bind, Option.bind_eq_some_iff] at read
    obtain ⟨v1, next1, read⟩ := read
    rw [List.foldlM_cons, Option.bind_eq_bind, Option.bind_eq_some_iff] at read
    obtain ⟨v2, next2, read⟩ := read
    rw [List.foldlM_cons, Option.bind_eq_bind, Option.bind_eq_some_iff] at read
    obtain ⟨v3, next3, rest⟩ := read
    cases rest
    obtain ⟨mark1, rfl⟩ := next_byte_some next1
    obtain ⟨mark2, rfl⟩ := next_byte_some next2
    obtain ⟨mark3, rfl⟩ := next_byte_some next3
    exact ⟨announced_four four mark1 mark2 mark3, rfl⟩

/-- The slur filter skips one byte, or it reads a code point. -/
theorem decode_cases (b0 : UInt8) (s : Bytes) : decode_utf8 (b0 :: s) = (REPLACEMENT, s) ∨
    ∃ c rest, b0 :: s = String.utf8EncodeChar c ++ rest ∧ decode_utf8 (b0 :: s) = (c.toNat, rest) := by
  simp only [decode_utf8]
  split
  · next ascii =>
    obtain ⟨c, value, bytes⟩ := char_of_ascii ascii
    exact .inr ⟨c, s, by rw [bytes]; rfl, by rw [value]⟩
  · split
    · exact .inl rfl
    · next width bits first =>
      split
      · exact .inl rfl
      · next enough =>
        split
        · exact .inl rfl
        · next cp read =>
          have size : (s.take (width - 1)).length = width - 1 := by
            rw [List.length_take]
            omega
          obtain ⟨announced, whole⟩ := announced_of_read first size read
          split
          · exact .inl rfl
          · next scalar =>
            split
            · exact .inl rfl
            · next limit =>
              split
              · exact .inl rfl
              · next shortest =>
                have proper : Proper (b0 :: s.take (width - 1)) cp :=
                  ⟨scalar, Nat.not_lt.mp limit, by rw [← whole]; exact Bool.eq_false_iff.mpr shortest⟩
                obtain ⟨c, value, bytes⟩ := encode_of_announced announced proper
                refine .inr ⟨c, s.drop (width - 1), ?_, by rw [value]⟩
                rw [bytes, List.cons_append, List.take_append_drop]

/-- What the slur filter reads, if it is not the mark of a byte that belongs to no code point. -/
def accepted (s : Bytes) : Option (Nat × Nat) :=
  let read := decode_utf8 s
  if read.1 = REPLACEMENT ∧ s.length ≤ read.2.length + 1 then none else some (read.1, s.length - read.2.length)

theorem encodeChar_length_replacement {c : Char} (same : c.toNat = REPLACEMENT) :
    (String.utf8EncodeChar c).length = 3 := by
  have value : c.val.toNat = 0xFFFD := same
  rw [String.utf8EncodeChar]
  simp [value]

theorem accepted_encode (c : Char) (rest : Bytes) :
    accepted (String.utf8EncodeChar c ++ rest) = some (c.toNat, (String.utf8EncodeChar c).length) := by
  have kept : ¬ (c.toNat = REPLACEMENT ∧ (String.utf8EncodeChar c ++ rest).length ≤ rest.length + 1) := by
    rintro ⟨same, short⟩
    rw [List.length_append, encodeChar_length_replacement same] at short
    omega
  rw [List.length_append] at kept
  simp only [accepted, decode_encodeChar, List.length_append, Nat.add_sub_cancel, if_neg kept]

theorem accepted_iff (s : Bytes) (cp size : Nat) : accepted s = some (cp, size) ↔ Encodes s cp size := by
  constructor
  · intro read
    cases s with
    | nil => cases read
    | cons b0 s =>
      rcases decode_cases b0 s with skipped | ⟨c, rest, shape, decoded⟩
      · simp [accepted, skipped] at read
      · rw [shape, accepted_encode] at read
        cases read
        exact ⟨c, rfl, rfl, rest, shape.symm⟩
  · rintro ⟨c, rfl, rfl, rest, rfl⟩
    exact accepted_encode c rest

end Slur

namespace UnicodeClassifier

section Decoding

theorem lead_two {x : Nat} (small : x < 32) : ¬ UInt8.ofNat (x + 192) < 0x80 ∧
    UInt8.ofNat (x + 192) &&& 0xE0 = 0xC0 ∧ (UInt8.ofNat (x + 192) &&& 0x1F).toNat = x := by
  have each : ∀ x < 32, ¬ UInt8.ofNat (x + 192) < 0x80 ∧ UInt8.ofNat (x + 192) &&& 0xE0 = 0xC0 ∧
      (UInt8.ofNat (x + 192) &&& 0x1F).toNat = x := by decide
  exact each x small

theorem lead_three {x : Nat} (small : x < 16) : ¬ UInt8.ofNat (x + 224) < 0x80 ∧
    UInt8.ofNat (x + 224) &&& 0xE0 ≠ 0xC0 ∧ UInt8.ofNat (x + 224) &&& 0xF0 = 0xE0 ∧
    (UInt8.ofNat (x + 224) &&& 0x0F).toNat = x := by
  have each : ∀ x < 16, ¬ UInt8.ofNat (x + 224) < 0x80 ∧ UInt8.ofNat (x + 224) &&& 0xE0 ≠ 0xC0 ∧
      UInt8.ofNat (x + 224) &&& 0xF0 = 0xE0 ∧ (UInt8.ofNat (x + 224) &&& 0x0F).toNat = x := by decide
  exact each x small

theorem lead_four {x : Nat} (small : x < 8) : ¬ UInt8.ofNat (x + 240) < 0x80 ∧
    UInt8.ofNat (x + 240) &&& 0xE0 ≠ 0xC0 ∧ UInt8.ofNat (x + 240) &&& 0xF0 ≠ 0xE0 ∧
    UInt8.ofNat (x + 240) &&& 0xF8 = 0xF0 ∧ (UInt8.ofNat (x + 240) &&& 0x07).toNat = x := by
  have each : ∀ x < 8, ¬ UInt8.ofNat (x + 240) < 0x80 ∧ UInt8.ofNat (x + 240) &&& 0xE0 ≠ 0xC0 ∧
      UInt8.ofNat (x + 240) &&& 0xF0 ≠ 0xE0 ∧ UInt8.ofNat (x + 240) &&& 0xF8 = 0xF0 ∧
      (UInt8.ofNat (x + 240) &&& 0x07).toNat = x := by decide
  exact each x small

theorem later {y : Nat} (small : y < 64) : ¬ UInt8.ofNat (y + 128) &&& 0xC0 ≠ 0x80 ∧
    (UInt8.ofNat (y + 128) &&& 0x3F).toNat = y := by
  have each : ∀ y < 64, ¬ UInt8.ofNat (y + 128) &&& 0xC0 ≠ 0x80 ∧
      (UInt8.ofNat (y + 128) &&& 0x3F).toNat = y := by decide
  exact each y small

theorem decode_announced {seq : Bytes} {cp : Nat} (announced : Announced seq cp) (proper : Proper seq cp)
    (rest : Bytes) : decode_utf8 (seq ++ rest) = some (cp, seq.length) := by
  obtain ⟨scalar, limit, shortest⟩ := proper
  cases announced with
  | @two x y first second =>
    have low : ¬ x * 64 + y < 0x80 := by simpa [overlong] using shortest
    obtain ⟨high, mark, bits⟩ := lead_two first
    obtain ⟨mark', bits'⟩ := later second
    simp only [List.cons_append, List.nil_append, decode_utf8, if_neg high, if_pos mark, if_neg mark', bits, bits',
      two_bits x second, if_neg low]
    rfl
  | @three x y z first second third =>
    have low : ¬ (x * 64 + y) * 64 + z < 0x800 := by simpa [overlong] using shortest
    obtain ⟨high, other, mark, bits⟩ := lead_three first
    obtain ⟨mark', bits'⟩ := later second
    obtain ⟨mark'', bits''⟩ := later third
    simp only [List.cons_append, List.nil_append, decode_utf8, if_neg high, if_neg other, if_pos mark,
      if_neg (not_or.mpr ⟨mark', mark''⟩), bits, bits', bits'', three_bits x second third, if_neg low, if_neg scalar]
    rfl
  | @four x y z u first second third fourth =>
    have low : ¬ ((x * 64 + y) * 64 + z) * 64 + u < 0x10000 := by simpa [overlong] using shortest
    obtain ⟨high, other, other', mark, bits⟩ := lead_four first
    obtain ⟨mark', bits'⟩ := later second
    obtain ⟨mark'', bits''⟩ := later third
    obtain ⟨mark3, bits3⟩ := later fourth
    simp only [List.cons_append, List.nil_append, decode_utf8, if_neg high, if_neg other, if_neg other', if_pos mark,
      if_neg (not_or.mpr ⟨mark', not_or.mpr ⟨mark'', mark3⟩⟩), bits, bits', bits'', bits3,
      four_bits x second third fourth, if_neg low, if_neg (Nat.not_lt.mpr limit)]
    rfl

theorem decode_encode (c : Char) (rest : Bytes) :
    decode_utf8 (String.utf8EncodeChar c ++ rest) = some (c.toNat, (String.utf8EncodeChar c).length) := by
  by_cases ascii : c.toNat < 0x80
  · have value : (UInt8.ofNat c.toNat).toNat = c.toNat := by
      rw [UInt8.toNat_ofNat']
      omega
    have low : UInt8.ofNat c.toNat < 0x80 := by
      rw [UInt8.lt_iff_toNat_lt, value]
      exact ascii
    rw [encode_ascii ascii]
    simp only [List.cons_append, List.nil_append, decode_utf8, if_pos low, value]
    rfl
  · obtain ⟨announced, proper⟩ := announced_encode ascii
    exact decode_announced announced proper rest

theorem encodes_of_announced {seq rest : Bytes} {cp : Nat} (announced : Announced seq cp)
    (proper : Proper seq cp) : Encodes (seq ++ rest) cp seq.length := by
  obtain ⟨c, value, bytes⟩ := encode_of_announced announced proper
  rw [← bytes]
  exact ⟨c, value, rfl, rest, rfl⟩

theorem encodes_of_decode {s : Bytes} {cp size : Nat} (read : decode_utf8 s = some (cp, size)) : Encodes s cp size := by
  unfold decode_utf8 at read
  split at read
  · cases read
  · next b0 s =>
    split at read
    · next ascii =>
      obtain ⟨c, value, bytes⟩ := char_of_ascii ascii
      cases read
      exact ⟨c, value, by rw [bytes]; rfl, s, by rw [bytes]; rfl⟩
    · split at read
      · next two =>
        split at read
        · next b1 rest =>
          split at read
          · cases read
          · next mark =>
            have announced := announced_two two (not_not.mp mark)
            rw [two_bits _ ((marked_byte b1).2.2.2 (not_not.mp mark)).2] at read
            dsimp only at read
            split at read
            · cases read
            · next low =>
              cases read
              apply encodes_of_announced announced
              exact proper_of_announced announced (by simpa [overlong] using low) (by simp) (by simp)
        · cases read
      · split at read
        · next three =>
          split at read
          · next b1 b2 rest =>
            split at read
            · cases read
            · next marks =>
              obtain ⟨mark1, mark2⟩ := not_or.mp marks
              have announced := announced_three three (not_not.mp mark1) (not_not.mp mark2)
              rw [three_bits _ ((marked_byte b1).2.2.2 (not_not.mp mark1)).2
                ((marked_byte b2).2.2.2 (not_not.mp mark2)).2] at read
              dsimp only at read
              split at read
              · cases read
              · next low =>
                split at read
                · cases read
                · next scalar =>
                  cases read
                  apply encodes_of_announced announced
                  exact proper_of_announced announced (by simpa [overlong] using low) (fun _ => scalar) (by simp)
          · cases read
        · split at read
          · next four =>
            split at read
            · next b1 b2 b3 rest =>
              split at read
              · cases read
              · next marks =>
                obtain ⟨mark1, marks⟩ := not_or.mp marks
                obtain ⟨mark2, mark3⟩ := not_or.mp marks
                have announced := announced_four four (not_not.mp mark1) (not_not.mp mark2) (not_not.mp mark3)
                rw [four_bits _ ((marked_byte b1).2.2.2 (not_not.mp mark1)).2
                  ((marked_byte b2).2.2.2 (not_not.mp mark2)).2 ((marked_byte b3).2.2.2 (not_not.mp mark3)).2] at read
                dsimp only at read
                split at read
                · cases read
                · next low =>
                  split at read
                  · cases read
                  · next limit =>
                    cases read
                    apply encodes_of_announced announced
                    exact proper_of_announced announced (by simpa [overlong] using low) (by simp)
                      fun _ => Nat.not_lt.mp limit
            · cases read
          · cases read

theorem decode_iff (s : Bytes) (cp size : Nat) : decode_utf8 s = some (cp, size) ↔ Encodes s cp size := by
  constructor
  · exact encodes_of_decode
  · rintro ⟨c, rfl, rfl, rest, rfl⟩
    exact decode_encode c rest

end Decoding

end UnicodeClassifier

section Pieces
open UnicodeClassifier (Piece pieces pieces_from)

/-- The pieces that the loop of `normalize` cuts a text into; the fuel is the length of the text. -/
def normalize_pieces_from : Nat → Bytes → List Piece
  | 0, _ => []
  | _ + 1, [] => []
  | fuel + 1, b :: s =>
    let rest := (decode_utf8 (b :: s)).2
    ⟨(accepted (b :: s)).map (·.1), (b :: s).length - rest.length⟩ :: normalize_pieces_from fuel rest

def normalize_pieces (s : Bytes) : List Piece := normalize_pieces_from s.length s

theorem encodes_advance {s : Bytes} {cp size : Nat} (encodes : Encodes s cp size) : 1 ≤ size ∧ size ≤ s.length := by
  obtain ⟨c, _, rfl, start⟩ := encodes
  obtain ⟨b, t, shape, _⟩ := encodeChar_start c
  refine ⟨?_, start.length_le⟩
  rw [shape]
  exact Nat.le_add_left 1 t.length

theorem decode_eq_accepted (s : Bytes) : UnicodeClassifier.decode_utf8 s = accepted s := by
  ext ⟨cp, size⟩
  rw [UnicodeClassifier.decode_iff, accepted_iff]

/-- A step of the slur filter's loop: it goes behind what it read, or behind one byte. -/
theorem decode_rest (b : UInt8) (s : Bytes) :
    decode_utf8 (b :: s) = match accepted (b :: s) with
      | none => (REPLACEMENT, s)
      | some (cp, size) => (cp, (b :: s).drop size) := by
  rcases decode_cases b s with skipped | ⟨c, rest, shape, decoded⟩
  · have none_ : accepted (b :: s) = none := by simp [accepted, skipped]
    rw [none_, skipped]
  · rw [decoded, shape, accepted_encode]
    simp

theorem pieces_eq (s : Bytes) : normalize_pieces s = pieces s := by
  have same (fuel : Nat) (s : Bytes) : normalize_pieces_from fuel s = pieces_from fuel s := by
    induction fuel generalizing s with
    | zero => rfl
    | succ fuel ih =>
      cases s with
      | nil => rfl
      | cons b s =>
        rw [normalize_pieces_from, pieces_from, decode_eq_accepted]
        have rest := decode_rest b s
        cases read : accepted (b :: s) with
        | none =>
          rw [read] at rest
          simp [rest, ih]
        | some p =>
          obtain ⟨cp, size⟩ := p
          have fits := (encodes_advance ((accepted_iff _ _ _).mp read)).2
          rw [read] at rest
          simp only [rest, ih, Option.map_some, List.length_drop]
          rw [Nat.sub_sub_self fits]
  exact same s.length s

/-- The code points that `normalize` folds are those of the pieces that the classifier's decoder cuts a text
into, with the mark for the bytes that belong to none. -/
theorem code_points_pieces (s : Bytes) :
    code_points s = (pieces s).map fun piece => piece.code_point.getD REPLACEMENT := by
  have same (fuel : Nat) (s : Bytes) : code_points_from fuel s =
      (normalize_pieces_from fuel s).map fun piece => piece.code_point.getD REPLACEMENT := by
    induction fuel generalizing s with
    | zero => rfl
    | succ fuel ih =>
      cases s with
      | nil => rfl
      | cons b s =>
        rw [code_points_from, normalize_pieces_from, List.map_cons, ih]
        congr 1
        rw [decode_rest]
        cases accepted (b :: s) <;> rfl
  rw [← pieces_eq]
  exact same s.length s

theorem pieces_sizes (s : Bytes) : ((pieces s).map Piece.size).sum = s.length := by
  have whole (fuel : Nat) (s : Bytes) (enough : s.length ≤ fuel) :
      ((pieces_from fuel s).map Piece.size).sum = s.length := by
    induction fuel generalizing s with
    | zero => rw [List.eq_nil_of_length_eq_zero (Nat.le_zero.mp enough)]; rfl
    | succ fuel ih =>
      cases s with
      | nil => rfl
      | cons b s =>
        rw [List.length_cons] at enough
        rw [pieces_from]
        cases read : UnicodeClassifier.decode_utf8 (b :: s) with
        | none =>
          rw [List.map_cons, List.sum_cons, ih s (by omega), List.length_cons, Nat.add_comm]
        | some p =>
          obtain ⟨cp, size⟩ := p
          have advance := encodes_advance ((UnicodeClassifier.decode_iff _ _ _).mp read)
          rw [List.length_cons] at advance
          have shorter : ((b :: s).drop size).length ≤ fuel := by
            rw [List.length_drop, List.length_cons]
            omega
          dsimp only
          rw [List.map_cons, List.sum_cons, ih _ shorter, List.length_drop, List.length_cons]
          exact Nat.add_sub_cancel' advance.2
  exact whole s.length s (Nat.le_refl _)

/-- Both decoders read the code points of UTF-8 and nothing else, go on inside the text, and cut it into the
same pieces. -/
structure DecodersAgree (s : Bytes) : Prop where
  slur : ∀ i cp size, accepted (s.drop i) = some (cp, size) ↔ Encodes (s.drop i) cp size
  classifier : ∀ i cp size, UnicodeClassifier.decode_utf8 (s.drop i) = some (cp, size) ↔ Encodes (s.drop i) cp size
  given : ∀ i < s.length, (decode_utf8 (s.drop i)).1 =
    ((UnicodeClassifier.decode_utf8 (s.drop i)).map (·.1)).getD REPLACEMENT
  slur_advances : ∀ i < s.length, ∃ j, i < j ∧ j ≤ s.length ∧ (decode_utf8 (s.drop i)).2 = s.drop j
  classifier_advances : ∀ i cp size, UnicodeClassifier.decode_utf8 (s.drop i) = some (cp, size) →
    0 < size ∧ i + size ≤ s.length
  pieces : normalize_pieces s = pieces s
  whole : ((UnicodeClassifier.pieces s).map Piece.size).sum = s.length

theorem decoders_agree (s : Bytes) : DecodersAgree s where
  slur i cp size := accepted_iff (s.drop i) cp size
  classifier i cp size := UnicodeClassifier.decode_iff (s.drop i) cp size
  given i inside := by
    rw [List.drop_eq_getElem_cons inside, decode_rest, decode_eq_accepted]
    cases accepted (s[i] :: s.drop (i + 1)) <;> rfl
  slur_advances i inside := by
    rw [List.drop_eq_getElem_cons inside, decode_rest]
    cases read : accepted (s[i] :: s.drop (i + 1)) with
    | none => exact ⟨i + 1, Nat.lt_succ_self i, inside, rfl⟩
    | some p =>
      obtain ⟨cp, size⟩ := p
      have advance := encodes_advance ((accepted_iff _ _ _).mp read)
      rw [← List.drop_eq_getElem_cons inside] at advance ⊢
      rw [List.length_drop] at advance
      exact ⟨i + size, by omega, by omega, List.drop_drop⟩
  classifier_advances i cp size read := by
    have advance := encodes_advance ((UnicodeClassifier.decode_iff _ _ _).mp read)
    rw [List.length_drop] at advance
    omega
  pieces := pieces_eq s
  whole := pieces_sizes s

end Pieces

end AoSdl.moderation
