import AoSdl.Lib.Utf8
import AoSdl.Text

/-! The sample of a message that goes to the audit log: the message, or a beginning of it that is cut between
characters, with an ellipsis. -/
namespace AoSdl.moderation

open Lib.Utf8

def ELLIPSIS : Bytes := encode ['…']

/-- The check of the byte at the cut: a character that is not all there is left out. -/
def drop_truncated (message : Bytes) (cut : ℕ) : ℕ :=
  match message[cut]? with
  | none => cut
  | some lead =>
    if 0 < cut ∧ (width lead = 0 ∨ message.length < cut + width lead) then walk_back message (cut - 1) else cut

def sample (message : Bytes) (max_bytes : ℤ) : Bytes :=
  if max_bytes ≤ 0 ∨ intOfSize message.length ≤ max_bytes then message
  else message.take (drop_truncated message (walk_back message max_bytes.toNat)) ++ ELLIPSIS

/-- The sample of a text for a limit. -/
structure Sampled (t : List Char) (n : ℤ) (out : Bytes) : Prop where
  whole : (encode t).length ≤ n → out = encode t
  cut : n < (encode t).length → ∃ k : ℕ, k = n ∧ ∃ front, Longest k front t ∧ out = encode front ++ ELLIPSIS
  valid : ∃ u, out = encode u

/-- In a text the character at a cut is all there. -/
theorem drop_truncated_boundary (front : List Char) (t : List Char) :
    drop_truncated (encode (front ++ t)) (encode front).length = (encode front).length := by
  cases t with
  | nil => simp [drop_truncated]
  | cons c t =>
    obtain ⟨b, later, shape, -, size, -⟩ := encodeChar_shape c
    have here : (encode (front ++ c :: t))[(encode front).length]? = some b := by
      simp [shape]
    simp only [drop_truncated, here]
    apply if_neg
    rintro ⟨-, missing | short⟩
    · omega
    · simp only [encode_append, encode_cons, shape, List.length_append, List.length_cons] at short
      omega

theorem sample_of_fits {message : Bytes} {n : ℤ} (fits : message.length ≤ n) : sample message n = message :=
  if_pos (.inr ((intOfSize_le message.length).trans fits))

/-- For every text of a size that `int` holds and every positive limit. -/
theorem sample_sampled (t : List Char) (n : ℤ) (positive : 0 < n) (small : (encode t).length < 2 ^ 31) :
    Sampled t n (sample (encode t) n) := by
  rcases Int.lt_or_le n (encode t).length with long | fits
  · have size : intOfSize (encode t).length = (encode t).length := by
      apply Int.bmod_eq_of_le
      · omega
      · omega
    have guard : ¬(n ≤ 0 ∨ intOfSize (encode t).length ≤ n) := by omega
    obtain ⟨front, longest, walked⟩ := walk_back_longest t (n := n.toNat) (by omega)
    obtain ⟨back, rfl⟩ := longest.inside
    have out : sample (encode (front ++ back)) n = encode front ++ ELLIPSIS := by
      simp only [sample, if_neg guard, walked, drop_truncated_boundary]
      simp
    refine ⟨fun fits => absurd fits (by omega), fun _ => ⟨n.toNat, by omega, front, longest, out⟩, ?_⟩
    exact ⟨front ++ ['…'], out.trans (encode_append front ['…']).symm⟩
  · have out := sample_of_fits fits
    exact ⟨fun _ => out, fun long => absurd long (by omega), t, out⟩

theorem sample_sampled_euro : 0 < (4 : ℤ) ∧ (encode ['a', '€', '€']).length < 2 ^ 31 ∧
    Sampled ['a', '€', '€'] 4 (sample (encode ['a', '€', '€']) 4) :=
  ⟨by decide, by decide, sample_sampled ['a', '€', '€'] 4 (by decide) (by decide)⟩

/-- A limit that is not positive is none: the message is not cut. -/
theorem limit_zero_whole : sample (encode ['a']) 0 = encode ['a'] ∧ ¬Sampled ['a'] 0 (sample (encode ['a']) 0) := by
  have out : sample (encode ['a']) 0 = encode ['a'] := if_pos (.inl (Int.le_refl 0))
  refine ⟨out, fun sampled => ?_⟩
  obtain ⟨k, zero, front, longest, cut⟩ := sampled.cut (by decide)
  have size := congrArg List.length (out.symm.trans cut)
  have more : (encode ['a']).length < ELLIPSIS.length := by decide
  rw [List.length_append] at size
  omega

end AoSdl.moderation
