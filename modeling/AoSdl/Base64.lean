import AoSdl.Lib.BigEndian
import AoSdl.Text

/-! `Base64`: the encoder, and a decoder that loses bytes in front of the padding and gives the bytes of a vector
that is destroyed. -/
namespace AoSdl.Base64
open Lib.Sextets

def encoding_table : Bytes := bytes "ABCDEFGHIJKLMNOPQRSTUVWXYZabcdefghijklmnopqrstuvwxyz0123456789+/"

def padding_char : UInt8 := 61

/-- The letter of the six bits at a place. -/
def letter (triple place : Nat) : UInt8 := encoding_table.getD (triple >>> place &&& 0x3F) 0

def encode : Bytes → Bytes
  | a :: b :: c :: data =>
    let triple := a.toNat <<< 16 + b.toNat <<< 8 + c.toNat
    letter triple 18 :: letter triple 12 :: letter triple 6 :: letter triple 0 :: encode data
  | [a, b] =>
    let triple := a.toNat <<< 16 + b.toNat <<< 8
    [letter triple 18, letter triple 12, letter triple 6, padding_char]
  | [a] =>
    let triple := a.toNat <<< 16
    [letter triple 18, letter triple 12, padding_char, padding_char]
  | [] => []

inductive Error where
  | invalid_argument | out_of_range
  deriving DecidableEq

/-- `base64_map.at`, with a padding that counts as zero. -/
def sextet (c : UInt8) : Except Error Nat :=
  if c ≠ padding_char then
    match encoding_table.idxOf? c with
    | none => .error .out_of_range
    | some i => .ok i
  else .ok 0

/-- The bytes of a group: the third and the fourth letter say which of them are given. -/
def pushed (triple : Nat) (c d : UInt8) : Bytes :=
  (if c ≠ padding_char then [UInt8.ofNat (triple >>> 16 &&& 0xFF)] else []) ++
    (if d ≠ padding_char then [UInt8.ofNat (triple >>> 8 &&& 0xFF)] else []) ++
    (if d ≠ padding_char then [UInt8.ofNat (triple >>> 0 &&& 0xFF)] else [])

def decode_groups : Bytes → Except Error Bytes
  | a :: b :: c :: d :: input => do
    let sextet_a ← sextet a
    let sextet_b ← sextet b
    let sextet_c ← sextet c
    let sextet_d ← sextet d
    let triple := sextet_a <<< 18 ||| sextet_b <<< 12 ||| sextet_c <<< 6 ||| sextet_d
    let later ← decode_groups input
    .ok (pushed triple c d ++ later)
  | _ => .ok []

/-- The vector at the end of `decode`. -/
def decoded (input : Bytes) : Except Error Bytes :=
  if input.length % 4 ≠ 0 then .error .invalid_argument else decode_groups input

/-- What a caller reads through the span. The vector is gone by then, and `stale` is what stands at its
places. -/
def decode (stale : Bytes → Nat → UInt8) (input : Bytes) : Except Error Bytes :=
  (decoded input).map fun bytes => (List.range bytes.length).map (stale bytes)

/-- The bytes come back, whatever becomes of the vector. -/
def RoundTrips (x : Bytes) : Prop := ∀ stale, decode stale (encode x) = .ok x

/-- An error is reported for a text that no bytes are encoded to. -/
def Refuses (s : Bytes) : Prop := (∀ x, encode x ≠ s) → ∀ stale, ∃ e, decode stale s = .error e

def Foreign (c : UInt8) : Prop := c ∉ encoding_table ∧ c ≠ padding_char

/-- The length or a letter shows that the text is no encoding. -/
def Broken (s : Bytes) : Prop := s.length % 4 ≠ 0 ∨ ∃ c ∈ s, Foreign c

section Letters

theorem letter_at : ∀ i < 64, encoding_table.idxOf? (encoding_table.getD i 0) = some i ∧
    encoding_table.getD i 0 ≠ padding_char := by decide +kernel

theorem sextet_letter (triple place : Nat) : sextet (letter triple place) = .ok (triple >>> place &&& 0x3F) := by
  have small : triple >>> place &&& 0x3F < 64 := by
    rw [sextet_at]
    exact Nat.mod_lt _ (by decide)
  obtain ⟨found, other⟩ := letter_at _ small
  rw [sextet, letter, if_pos other, found]

theorem letter_ne (triple place : Nat) : letter triple place ≠ padding_char := by
  have small : triple >>> place &&& 0x3F < 64 := by
    rw [sextet_at]
    exact Nat.mod_lt _ (by decide)
  exact (letter_at _ small).2

theorem sextet_padding : sextet padding_char = .ok 0 := rfl

theorem sextet_cases (c : UInt8) :
    (∃ n, sextet c = .ok n) ∧ ¬ Foreign c ∨ sextet c = .error .out_of_range ∧ Foreign c := by
  unfold sextet Foreign
  by_cases pad : c = padding_char
  · simp [pad]
  · rw [if_pos pad]
    cases found : encoding_table.idxOf? c with
    | none => exact .inr ⟨rfl, List.idxOf?_eq_none_iff.mp found, pad⟩
    | some i =>
      refine .inl ⟨⟨i, rfl⟩, fun foreign => ?_⟩
      rw [List.idxOf?_eq_none_iff.mpr foreign.1] at found
      cases found

end Letters

section RoundTrip

/-- The bytes in full groups, and the first one of two that are left. -/
def kept : Bytes → Bytes
  | a :: b :: c :: data => a :: b :: c :: kept data
  | [a, _] => [a]
  | _ => []

theorem kept_eq_iff (x : Bytes) : kept x = x ↔ x.length % 3 = 0 := by
  induction x using kept.induct with
  | case1 a b c data ih =>
    have size : (a :: b :: c :: data).length % 3 = data.length % 3 := by
      simp only [List.length_cons]
      omega
    rw [size, ← ih]
    simp [kept]
  | case2 a b => simp [kept]
  | case3 x long two =>
    match x with
    | [] => simp [kept]
    | [a] => simp [kept]
    | [a, b] => exact absurd rfl (two a b)
    | a :: b :: c :: data => exact absurd rfl (long a b c data)

theorem length_encode (x : Bytes) : (encode x).length = 4 * ((x.length + 2) / 3) := by
  induction x using encode.induct with
  | case1 a b c data ih =>
    simp only [encode, List.length_cons, ih]
    omega
  | case2 a b => simp [encode]
  | case3 a => simp [encode]
  | case4 => rfl

theorem triple_bytes (a b c : UInt8) : a.toNat <<< 16 + b.toNat <<< 8 + c.toNat < 2 ^ 24 ∧
    UInt8.ofNat ((a.toNat <<< 16 + b.toNat <<< 8 + c.toNat) >>> 16 &&& 0xFF) = a ∧
    UInt8.ofNat ((a.toNat <<< 16 + b.toNat <<< 8 + c.toNat) >>> 8 &&& 0xFF) = b ∧
    UInt8.ofNat ((a.toNat <<< 16 + b.toNat <<< 8 + c.toNat) >>> 0 &&& 0xFF) = c := by
  have sizes := And.intro a.toNat_lt (And.intro b.toNat_lt c.toNat_lt)
  simp only [byte_at, Nat.shiftLeft_eq]
  refine ⟨by omega, ?_, ?_, ?_⟩
  · have first : (a.toNat * 2 ^ 16 + b.toNat * 2 ^ 8 + c.toNat) / 2 ^ 16 % 256 = a.toNat := by omega
    rw [first, UInt8.ofNat_toNat]
  · have second : (a.toNat * 2 ^ 16 + b.toNat * 2 ^ 8 + c.toNat) / 2 ^ 8 % 256 = b.toNat := by omega
    rw [second, UInt8.ofNat_toNat]
  · have third : (a.toNat * 2 ^ 16 + b.toNat * 2 ^ 8 + c.toNat) / 2 ^ 0 % 256 = c.toNat := by omega
    rw [third, UInt8.ofNat_toNat]

theorem decode_groups_cons {a b c d : UInt8} {p q r s : Nat} (first : sextet a = .ok p) (second : sextet b = .ok q)
    (third : sextet c = .ok r) (fourth : sextet d = .ok s) (input : Bytes) :
    decode_groups (a :: b :: c :: d :: input) =
      (decode_groups input).map (pushed (p <<< 18 ||| q <<< 12 ||| r <<< 6 ||| s) c d ++ ·) := by
  rw [decode_groups, first, second, third, fourth]
  cases decode_groups input <;> rfl

theorem decode_groups_encode (x : Bytes) : decode_groups (encode x) = .ok (kept x) := by
  induction x using encode.induct with
  | case1 a b c data ih =>
    obtain ⟨small, first, second, third⟩ := triple_bytes a b c
    rw [encode, decode_groups_cons (sextet_letter _ _) (sextet_letter _ _) (sextet_letter _ _) (sextet_letter _ _),
      join_split small, pushed, if_pos (letter_ne _ _), if_pos (letter_ne _ _), if_pos (letter_ne _ _), first, second,
      third, ih]
    rfl
  | case2 a b =>
    obtain ⟨small, first, second, third⟩ := triple_bytes a b 0
    rw [UInt8.toNat_zero, Nat.add_zero] at small first
    -- The fourth letter is the padding, and the six bits that it stands for are zero.
    have last : (a.toNat <<< 16 + b.toNat <<< 8) >>> 0 &&& 0x3F = 0 := by
      rw [sextet_at, Nat.shiftLeft_eq, Nat.shiftLeft_eq]
      omega
    have joined := join_split small
    rw [last] at joined
    rw [encode, decode_groups_cons (sextet_letter _ _) (sextet_letter _ _) (sextet_letter _ _) sextet_padding,
      joined, pushed, if_pos (letter_ne _ _), if_neg (not_not.mpr rfl), first]
    rfl
  | case3 a =>
    rw [encode, decode_groups_cons (sextet_letter _ _) (sextet_letter _ _) sextet_padding sextet_padding, pushed,
      if_neg (not_not.mpr rfl)]
    rfl
  | case4 => rfl

theorem decoded_encode (x : Bytes) : decoded (encode x) = .ok (kept x) := by
  have whole : ¬ (encode x).length % 4 ≠ 0 := by
    rw [length_encode]
    omega
  rw [decoded, if_neg whole, decode_groups_encode]

theorem decoded_encode_iff (x : Bytes) : decoded (encode x) = .ok x ↔ x.length % 3 = 0 := by
  rw [decoded_encode, Except.ok.injEq, kept_eq_iff]

/-- Whatever bytes the vector had, others may stand at its place. -/
theorem round_trips_empty (x : Bytes) : RoundTrips x ↔ x = [] := by
  constructor
  · intro trips
    cases x with
    | nil => rfl
    | cons b x =>
      have read := trips fun _ _ => b + 1
      rw [decode, decoded_encode, Except.map, Except.ok.injEq] at read
      have first : b ∈ (List.range (kept (b :: x)).length).map fun _ => b + 1 := by
        rw [read]
        exact List.mem_cons_self
      obtain ⟨_, _, same⟩ := List.mem_map.mp first
      exact absurd same (by simp)
  · rintro rfl stale
    rfl

end RoundTrip

section Refusal

theorem decode_groups_error (s : Bytes) (groups : s.length % 4 = 0) :
    (∃ e, decode_groups s = .error e) ↔ ∃ c ∈ s, Foreign c := by
  induction s using decode_groups.induct with
  | case1 a b c d input ih =>
    have rest : input.length % 4 = 0 := by
      simp only [List.length_cons] at groups
      omega
    have here {x : UInt8} (inside : x ∈ a :: b :: c :: d :: input) (foreign : Foreign x)
        (throws : decode_groups (a :: b :: c :: d :: input) = .error .out_of_range) :
        (∃ e, decode_groups (a :: b :: c :: d :: input) = .error e) ↔
          ∃ y ∈ a :: b :: c :: d :: input, Foreign y := iff_of_true ⟨_, throws⟩ ⟨x, inside, foreign⟩
    rcases sextet_cases a with ⟨⟨p, first⟩, known_a⟩ | ⟨throws, foreign⟩
    · rcases sextet_cases b with ⟨⟨q, second⟩, known_b⟩ | ⟨throws, foreign⟩
      · rcases sextet_cases c with ⟨⟨r, third⟩, known_c⟩ | ⟨throws, foreign⟩
        · rcases sextet_cases d with ⟨⟨s, fourth⟩, known_d⟩ | ⟨throws, foreign⟩
          · have later : (∃ e, decode_groups (a :: b :: c :: d :: input) = .error e) ↔
                ∃ e, decode_groups input = .error e := by
              rw [decode_groups_cons first second third fourth]
              cases decode_groups input <;> simp [Except.map]
            rw [later, ih rest]
            simp [known_a, known_b, known_c, known_d]
          · exact here (by simp) foreign (by rw [decode_groups, first, second, third, throws]; rfl)
        · exact here (by simp) foreign (by rw [decode_groups, first, second, throws]; rfl)
      · exact here (by simp) foreign (by rw [decode_groups, first, throws]; rfl)
    · exact here (by simp) foreign (by rw [decode_groups, throws]; rfl)
  | case2 s short =>
    match s with
    | [] => simp [decode_groups]
    | [_] => cases groups
    | [_, _] => cases groups
    | [_, _, _] => cases groups
    | a :: b :: c :: d :: input => exact absurd rfl (short a b c d input)

theorem decode_error_iff (stale : Bytes → Nat → UInt8) (s : Bytes) : (∃ e, decode stale s = .error e) ↔ Broken s := by
  have same : (∃ e, decode stale s = .error e) ↔ ∃ e, decoded s = .error e := by
    unfold decode
    cases decoded s <;> simp [Except.map]
  rw [same, decoded, Broken]
  by_cases groups : s.length % 4 = 0
  · simp only [groups, ne_eq, not_true_eq_false, if_false, false_or]
    exact decode_groups_error s groups
  · simp [groups]

theorem refuses_iff (s : Bytes) : Refuses s ↔ (∃ x, encode x = s) ∨ Broken s := by
  unfold Refuses
  simp only [decode_error_iff, forall_const]
  by_cases encoding : ∃ x, encode x = s
  · simp only [encoding, true_or, iff_true]
    intro none
    obtain ⟨x, same⟩ := encoding
    exact absurd same (none x)
  · have none : ∀ x, encode x ≠ s := fun x same => encoding ⟨x, same⟩
    simp only [encoding, false_or]
    exact ⟨fun refuses => refuses none, fun broken _ => broken⟩

/-- Only of no bytes at all the caller gets the same, although the vector has those of full groups; and of the texts
that are no encoding those are refused whose length or letters show it. -/
theorem codec_iff (x s : Bytes) : (RoundTrips x ↔ x = []) ∧ (decoded (encode x) = .ok x ↔ x.length % 3 = 0) ∧
    (Refuses s ↔ (∃ x, encode x = s) ∨ Broken s) :=
  ⟨round_trips_empty x, decoded_encode_iff x, refuses_iff s⟩

/-- One byte is lost, and padding in a wrong place is read. -/
theorem one_byte_lost : encode (bytes "M") = bytes "TQ==" ∧ decoded (bytes "TQ==") = .ok [] ∧ ¬ RoundTrips (bytes "M") ∧
    ¬ Refuses (bytes "=A==") := by
  refine ⟨by decide +kernel, by decide +kernel, ?_, ?_⟩
  · intro trips
    have read := trips fun _ _ => 0
    exact absurd read (by decide +kernel)
  · intro refuses
    have none : ∀ x, encode x ≠ bytes "=A==" := by
      intro x same
      cases x with
      | nil => cases same
      | cons a x =>
        have first : (encode (a :: x)).head? ≠ some padding_char := by
          match x with
          | [] => simp [encode, letter_ne]
          | [b] => simp [encode, letter_ne]
          | b :: c :: data => simp [encode, letter_ne]
        rw [same] at first
        exact first rfl
    obtain ⟨e, throws⟩ := refuses none fun _ _ => 0
    have read : decode (fun _ _ => 0) (bytes "=A==") = .ok [] := by decide +kernel
    rw [read] at throws
    cases throws

end Refusal

end AoSdl.Base64
