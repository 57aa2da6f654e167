import Mathlib.Data.List.Infix
import Mathlib.Tactic.Common

/-! The bytes of a text in UTF-8: every character has a first byte, which says how many bytes follow, and the
bytes that follow are marked. A text is cut between characters by going back over the marked bytes. -/
namespace Lib.Utf8

/-- The bytes of a text. -/
def encode (t : List Char) : List UInt8 := t.flatMap String.utf8EncodeChar

/-- The mark of a byte that no character starts with. -/
def Marked (b : UInt8) : Prop := b &&& 0xC0 = 0x80

instance : DecidablePred Marked := fun b => inferInstanceAs (Decidable (b &&& 0xC0 = 0x80))

/-- How many bytes a character with this first byte has; none if no character starts so. -/
def width (b : UInt8) : ℕ :=
  if b < 0x80 then 1
  else if b &&& 0xE0 = 0xC0 then 2
  else if b &&& 0xF0 = 0xE0 then 3
  else if b &&& 0xF8 = 0xF0 then 4
  else 0

/-- The last place up to `cut` at which the text may be cut. -/
def walk_back (s : List UInt8) : ℕ → ℕ
  | 0 => 0
  | cut + 1 => if s[cut + 1]?.any (Marked ·) then walk_back s cut else cut + 1

/-- The longest beginning of the text that has at most `n` bytes. -/
structure Longest (n : ℕ) (front t : List Char) : Prop where
  inside : front <+: t
  fits : (encode front).length ≤ n
  longest : ∀ longer, longer <+: t → (encode longer).length ≤ n → longer <+: front

@[simp] theorem encode_nil : encode [] = [] := rfl

@[simp] theorem encode_cons (c : Char) (t : List Char) : encode (c :: t) = String.utf8EncodeChar c ++ encode t := rfl

@[simp] theorem encode_append (t u : List Char) : encode (t ++ u) = encode t ++ encode u := List.flatMap_append

section Characters

theorem marked_byte : ∀ n < 64, Marked (UInt8.ofNat (n + 128)) := by decide

theorem first_of_one : ∀ n < 128, width (UInt8.ofNat n) = 1 ∧ ¬Marked (UInt8.ofNat n) := by decide

theorem first_of_two : ∀ n < 32, width (UInt8.ofNat (n + 192)) = 2 ∧ ¬Marked (UInt8.ofNat (n + 192)) := by decide

theorem first_of_three : ∀ n < 16, width (UInt8.ofNat (n + 224)) = 3 ∧ ¬Marked (UInt8.ofNat (n + 224)) := by decide

theorem first_of_four : ∀ n < 8, width (UInt8.ofNat (n + 240)) = 4 ∧ ¬Marked (UInt8.ofNat (n + 240)) := by decide

theorem width_of_marked {b : UInt8} (marked : Marked b) : width b = 0 := by
  have all : ∀ n < 256, Marked (UInt8.ofNat n) → width (UInt8.ofNat n) = 0 := by decide +kernel
  have here := all b.toNat b.toNat_lt
  rw [UInt8.ofNat_toNat] at here
  exact here marked

/-- The first byte of a character announces the marked bytes behind it. -/
theorem encodeChar_shape (c : Char) : ∃ b later, String.utf8EncodeChar c = b :: later ∧ ¬Marked b ∧
    width b = later.length + 1 ∧ ∀ x ∈ later, Marked x := by
  have low (n : ℕ) : Marked (UInt8.ofNat (n % 64 + 128)) := marked_byte _ (Nat.mod_lt n (by decide))
  simp only [String.utf8EncodeChar]
  split
  · obtain ⟨size, first⟩ := first_of_one c.val.toNat (by omega)
    exact ⟨_, [], rfl, first, size, List.forall_mem_nil _⟩
  · split
    · obtain ⟨size, first⟩ := first_of_two (c.val.toNat / 64 % 32) (by omega)
      exact ⟨_, [_], rfl, first, size, List.forall_mem_singleton.mpr (low _)⟩
    · split
      · obtain ⟨size, first⟩ := first_of_three (c.val.toNat / 4096 % 16) (by omega)
        refine ⟨_, [_, _], rfl, first, size, List.forall_mem_cons.mpr ⟨low _, ?_⟩⟩
        exact List.forall_mem_singleton.mpr (low _)
      · obtain ⟨size, first⟩ := first_of_four (c.val.toNat / 262144 % 8) (by omega)
        refine ⟨_, [_, _, _], rfl, first, size, List.forall_mem_cons.mpr ⟨low _, List.forall_mem_cons.mpr ⟨low _, ?_⟩⟩⟩
        exact List.forall_mem_singleton.mpr (low _)

theorem encodeChar_pos (c : Char) : 0 < (String.utf8EncodeChar c).length := by
  obtain ⟨b, later, shape, -⟩ := encodeChar_shape c
  simp [shape]

/-- The bytes of a text begin with those of its first character only. -/
theorem eq_of_isPrefix {c d : Char} {s : List UInt8} (front : String.utf8EncodeChar c <+: String.utf8EncodeChar d ++ s) :
    c = d := by
  obtain ⟨r, same⟩ := front
  have left := ByteArray.utf8DecodeChar?_utf8EncodeChar_append (b := r.toByteArray) (c := c)
  have right := ByteArray.utf8DecodeChar?_utf8EncodeChar_append (b := s.toByteArray) (c := d)
  rw [← List.toByteArray_append, same, List.toByteArray_append, right] at left
  exact (Option.some.inj left).symm

end Characters

section Cutting

/-- Behind the first character the way back ends as it does in the rest of the text, or at the character. -/
theorem walk_back_append {l r : List UInt8} {n : ℕ} (start : ∀ b ∈ r[0]?, ¬Marked b) (inside : n < r.length) :
    walk_back (l ++ r) (l.length + n) = l.length + walk_back r n := by
  induction n with
  | zero =>
    cases place : l.length with
    | zero => simp [walk_back]
    | succ m =>
      have here : (l ++ r)[m + 1]? = r[0]? := by
        rw [List.getElem?_append_right (by omega), place, Nat.sub_self]
      simp only [Nat.add_zero, walk_back, here]
      apply if_neg
      intro marked
      obtain ⟨b, first, marked⟩ := (Option.any_eq_true _ _).mp marked
      exact start b first (of_decide_eq_true marked)
  | succ n ih =>
    have here : (l ++ r)[l.length + n + 1]? = r[n + 1]? := by
      rw [List.getElem?_append_right (by omega)]
      congr 1
      omega
    rw [← Nat.add_assoc, walk_back, walk_back, here]
    split
    · exact ih (by omega)
    · rfl

theorem walk_back_later {b : UInt8} {later r : List UInt8} (marked : ∀ x ∈ later, Marked x) {n : ℕ}
    (inside : n ≤ later.length) : walk_back (b :: later ++ r) n = 0 := by
  induction n with
  | zero => rfl
  | succ n ih =>
    have here : (b :: later ++ r)[n + 1]? = some later[n] := by
      simp [List.getElem?_append_left inside]
    simp only [walk_back, here]
    have next := decide_eq_true (marked later[n] (List.getElem_mem _))
    simp only [Option.any_some, next, if_true]
    exact ih (by omega)

theorem first_not_marked (t : List Char) : ∀ b ∈ (encode t)[0]?, ¬Marked b := by
  intro b first
  cases t with
  | nil => simp at first
  | cons c t =>
    obtain ⟨b', later, shape, unmarked, -⟩ := encodeChar_shape c
    simp only [encode_cons, shape, List.cons_append, List.getElem?_cons_zero, Option.mem_def,
      Option.some.injEq] at first
    exact first ▸ unmarked

/-- Going back over the marked bytes leads to the longest beginning that ends before the place. -/
theorem walk_back_longest (t : List Char) {n : ℕ} (inside : n < (encode t).length) :
    ∃ front, Longest n front t ∧ walk_back (encode t) n = (encode front).length := by
  induction t generalizing n with
  | nil => simp at inside
  | cons c t ih =>
    obtain ⟨b, later, shape, unmarked, -, marked⟩ := encodeChar_shape c
    rcases Nat.lt_or_ge n (String.utf8EncodeChar c).length with short | long
    · refine ⟨[], ⟨List.nil_prefix, by simp, fun longer front fits => ?_⟩, ?_⟩
      · cases longer with
        | nil => exact List.nil_prefix
        | cons d longer =>
          obtain ⟨rfl, -⟩ := List.cons_prefix_cons.mp front
          simp only [encode_cons, List.length_append] at fits
          omega
      · simp only [shape, List.length_cons] at short
        simp only [encode_cons, shape, encode_nil, List.length_nil]
        exact walk_back_later marked (by omega)
    · obtain ⟨m, rfl⟩ := Nat.exists_eq_add_of_le long
      simp only [encode_cons, List.length_append] at inside
      obtain ⟨front, longest, walked⟩ := ih (n := m) (by omega)
      refine ⟨c :: front, ⟨List.cons_prefix_cons.mpr ⟨rfl, longest.inside⟩, ?_, fun longer first fits => ?_⟩, ?_⟩
      · have := longest.fits
        simp only [encode_cons, List.length_append]
        omega
      · cases longer with
        | nil => exact List.nil_prefix
        | cons d longer =>
          obtain ⟨rfl, rest⟩ := List.cons_prefix_cons.mp first
          simp only [encode_cons, List.length_append] at fits
          exact List.cons_prefix_cons.mpr ⟨rfl, longest.longest longer rest (by omega)⟩
      · simp only [encode_cons, List.length_append]
        rw [walk_back_append (first_not_marked t) (by omega), walked]

end Cutting

end Lib.Utf8
