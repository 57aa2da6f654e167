import AoSdl.Lib.WordSizes
import AoSdl.WebSocketServer

/-! The sizes and offsets `read_client_frames` computes, in 64 bit words as the code has them and in
the naturals. The two agree on a buffer unless a frame in it announces nearly 2^64 bytes. -/
namespace AoSdl
open Lib.WordSizes

/-- A `std::vector<uint8_t>`: no vector has more than `max_size()` elements. -/
structure ByteVector where
  data : Bytes
  max_size : data.length < 2 ^ 63

namespace WebSocketServer

/-- How one turn of the loop ends. -/
inductive RoundEnd (α : Type) where
  /-- The loop condition is false. -/
  | finished
  /-- What is there is kept for the next read. -/
  | leftover
  /-- No vector is as long as the payload. -/
  | thrown
  | accepted (frame : WebSocketFrame) (next : α)

def RoundEnd.map {α β : Type} (f : α → β) : RoundEnd α → RoundEnd β
  | finished => finished
  | leftover => leftover
  | thrown => thrown
  | accepted frame next => accepted frame (f next)

/-- The frame passed the check that its bytes are all there. -/
def RoundEnd.Complete {α : Type} : RoundEnd α → Prop
  | thrown | accepted _ _ => True
  | _ => False

structure Round (α : Type) where
  offset : α
  computed : List (Computed α)
  turn : RoundEnd α

def Round.map {α β : Type} (f : α → β) (r : Round α) : Round β :=
  ⟨f r.offset, r.computed.map (Computed.map f), r.turn.map f⟩

section Loop

variable {α : Type} (S : Sizes α) (bytes : Bytes)

/-- The header's size without the mask key, and the payload length. -/
def read_length (offset : α) (len_code : UInt8) : List (Computed α) × Option (α × α) :=
  let k := length_bytes len_code
  if k = 0 then ([], some (S.ofNat 2, S.ofNat len_code.toNat))
  else
    let header_size := S.add (S.ofNat 2) (S.ofNat k)
    let available := S.sub (S.ofNat bytes.length) offset
    let short := S.less available header_size
    let computed := [.sum header_size, .difference available, .comparison short]
    if short then (computed ++ [.slice offset available], none)
    else
      let net_len := S.add offset (S.ofNat 2)
      (computed ++ [.sum net_len, .slice net_len (S.ofNat k)],
        some (header_size, S.ofNat (ofNetwork ((bytes.drop (S.toNat net_len)).take k))))

/-- The turn once the length is known. -/
def read_payload (offset header pl_len : α) (masked : Bool) : List (Computed α) × RoundEnd α :=
  let header_size := if masked then S.add header (S.ofNat 4) else header
  let total_needed := S.add header_size pl_len
  let available := S.sub (S.ofNat bytes.length) offset
  let short := S.less available total_needed
  let computed := (if masked then [.sum header_size] else []) ++
    [.sum total_needed, .difference available, .comparison short]
  if short then (computed ++ [.slice offset available], .leftover)
  else
    let mask_offset := S.sub header_size (S.ofNat 4)
    let mask_net := S.add offset mask_offset
    let data_start := S.add offset header_size
    let data_end := S.add data_start pl_len
    let computed := computed ++
      (if masked then [.difference mask_offset, .sum mask_net, .slice mask_net (S.ofNat 4)] else []) ++
      [.sum data_start, .sum data_end, .slice data_start pl_len]
    if 2 ^ 63 ≤ S.toNat pl_len then (computed, .thrown)
    else
      let next := S.add offset total_needed
      (computed ++ [.sum next],
        .accepted (build_frame (bytes.drop (S.toNat offset)) (S.toNat header_size) (S.toNat pl_len)) next)

/-- A turn of the loop. -/
def read_round (offset : α) : Round α :=
  let more := S.less offset (S.ofNat bytes.length)
  if !more then ⟨offset, [.comparison more], .finished⟩
  else
    let available := S.sub (S.ofNat bytes.length) offset
    let short := S.less available (S.ofNat 2)
    let computed := [.comparison more, .difference available, .comparison short]
    if short then ⟨offset, computed ++ [.slice offset available], .leftover⟩
    else
      let second := S.add offset (S.ofNat 1)
      let byte1 := bytes.getD (S.toNat second) 0
      let computed := computed ++ [.slice offset (S.ofNat 1), .sum second, .slice second (S.ofNat 1)]
      match read_length S bytes offset (byte1 &&& 0x7F) with
      | (length, none) => ⟨offset, computed ++ length, .leftover⟩
      | (length, some (header, pl_len)) =>
        let (payload, turn) := read_payload S bytes offset header pl_len (byte1 &&& 0x80 ≠ 0)
        ⟨offset, computed ++ length ++ payload, turn⟩

/-- The loop of `read_client_frames` for at most `n` turns: the turns it takes, and the client with
the messages or the exception if it ends by then. -/
def read_loop : ℕ → ClientConnection → α →
    List (Round α) × Option (ClientConnection × Option (List WebSocketFrame))
  | 0, _, _ => ([], none)
  | n + 1, client, offset =>
    let round := read_round S bytes offset
    match round.turn with
    | .finished => ([round], some (client, some []))
    | .leftover => ([round], some ({ client with extra_data := bytes.drop (S.toNat offset) }, some []))
    | .thrown => ([round], some (client, none))
    | .accepted frame next =>
      match handle_frame client frame with
      | (client, none) => ([round], some (client, none))
      | (client, some messages) =>
        let (rounds, result) := read_loop n client next
        (round :: rounds, result.map fun (client, more) => (client, more.map (messages ++ ·)))

end Loop

/-- The header size, mask key included, and the payload length of the frame at the start of `s`. -/
def announced (s : Bytes) : Option (ℕ × ℕ) :=
  (payload_header s).map fun (header, pl_len) =>
    (if s.getD 1 0 &&& 0x80 ≠ 0 then header + 4 else header, pl_len)

/-- The frame at `offset` needs 2^64 bytes or more. -/
def Wraps (bytes : Bytes) (offset : ℕ) : Prop :=
  ∃ header_size pl_len, announced (bytes.drop offset) = some (header_size, pl_len) ∧
    2 ^ 64 ≤ header_size + pl_len

/-- From a frame at the first offset, whole frames that raise no exception lead to the second. -/
inductive Reaches (bytes : Bytes) : ClientConnection → ℕ → ℕ → Prop where
  | here (client : ClientConnection) (offset : ℕ) : Reaches bytes client offset offset
  | next {client client' : ClientConnection} {offset header_size pl_len last : ℕ}
      {messages : List WebSocketFrame}
      (header : announced (bytes.drop offset) = some (header_size, pl_len))
      (whole : header_size + pl_len ≤ (bytes.drop offset).length)
      (handled : handle_frame client (build_frame (bytes.drop offset) header_size pl_len) =
        (client', some messages))
      (rest : Reaches bytes client' (offset + (header_size + pl_len)) last) :
      Reaches bytes client offset last

theorem ofNetwork_lt (bs : Bytes) : ofNetwork bs < 256 ^ bs.length := by
  induction bs using List.reverseRecOn with
  | nil => decide
  | append_singleton bs b ih =>
    have digit := b.toNat_lt
    have step : ofNetwork (bs ++ [b]) = ofNetwork bs * 256 + b.toNat := by simp [ofNetwork]
    rw [step, List.length_append, List.length_singleton, pow_succ]
    omega

theorem ofNetwork_take_lt (bs : Bytes) {k : ℕ} (low : k ≤ 8) : ofNetwork (bs.take k) < 2 ^ 64 := by
  apply lt_of_lt_of_le (ofNetwork_lt _)
  have short : (bs.take k).length ≤ 8 := by simp; omega
  exact (Nat.pow_le_pow_right (by decide) short).trans (by decide)

section Agree

variable {bytes : Bytes} {o : UInt64}

theorem available_words (small : bytes.length < 2 ^ 63) (inside : o.toNat ≤ bytes.length) :
    (words.sub (words.ofNat bytes.length) o).toNat = bytes.length - o.toNat := by
  have size := words_ofNat (n := bytes.length) (by omega)
  rw [words_sub (by rw [size]; exact inside), size]

theorem read_length_words (small : bytes.length < 2 ^ 63) (inside : o.toNat + 2 ≤ bytes.length)
    (len_code : UInt8) :
    (read_length words bytes o len_code).1.map (Computed.map UInt64.toNat) =
        (read_length naturals bytes o.toNat len_code).1 ∧
      (read_length words bytes o len_code).2.map (Prod.map UInt64.toNat UInt64.toNat) =
        (read_length naturals bytes o.toNat len_code).2 := by
  have low := length_bytes_le len_code
  have available := available_words small (by omega : o.toNat ≤ bytes.length)
  have two : (words.ofNat 2).toNat = 2 := rfl
  have count : (words.ofNat (length_bytes len_code)).toNat = length_bytes len_code :=
    words_ofNat (by omega)
  have header : (words.add (words.ofNat 2) (words.ofNat (length_bytes len_code))).toNat =
      2 + length_bytes len_code := by
    rw [words_add (by rw [two, count]; omega), two, count]
  have net_len : (words.add o (words.ofNat 2)).toNat = o.toNat + 2 := by
    rw [words_add (by rw [two]; omega), two]
  have value : (words.ofNat (ofNetwork ((bytes.drop (o.toNat + 2)).take (length_bytes len_code)))).toNat =
      ofNetwork ((bytes.drop (o.toNat + 2)).take (length_bytes len_code)) :=
    words_ofNat (ofNetwork_take_lt _ low)
  have code : (words.ofNat len_code.toNat).toNat = len_code.toNat :=
    words_ofNat (by have := len_code.toNat_lt; omega)
  unfold read_length
  by_cases one : length_bytes len_code = 0
  · simp [one, two, code]
  · by_cases short : bytes.length - o.toNat < 2 + length_bytes len_code
    · simp [one, short, words_less, available, header, Computed.map]
    · simp [one, short, words_less, available, header, net_len, count, value, Computed.map]

/-- The turn behind the length field is the same in both arithmetics while the bytes needed fit a
word. -/
theorem read_payload_words (small : bytes.length < 2 ^ 63) {header pl_len : UInt64} (masked : Bool)
    (two : 2 ≤ header.toNat) (ten : header.toNat ≤ 10)
    (inside : o.toNat + header.toNat ≤ bytes.length)
    (fits : (if masked then header.toNat + 4 else header.toNat) + pl_len.toNat < 2 ^ 64) :
    (read_payload words bytes o header pl_len masked).1.map (Computed.map UInt64.toNat) =
        (read_payload naturals bytes o.toNat header.toNat pl_len.toNat masked).1 ∧
      (read_payload words bytes o header pl_len masked).2.map UInt64.toNat =
        (read_payload naturals bytes o.toNat header.toNat pl_len.toNat masked).2 := by
  have available := available_words small (by omega : o.toNat ≤ bytes.length)
  have four : (words.ofNat 4).toNat = 4 := rfl
  generalize size : (if masked then words.add header (words.ofNat 4) else header) = header_size
  have same : (if masked then header.toNat + 4 else header.toNat) = header_size.toNat := by
    rw [← size]
    cases masked with
    | false => rfl
    | true =>
      have sum : (words.add header (words.ofNat 4)).toNat = header.toNat + 4 :=
        words_add (by rw [four]; omega)
      simpa using sum.symm
  rw [same] at fits
  have total : (words.add header_size pl_len).toNat = header_size.toNat + pl_len.toNat := words_add fits
  unfold read_payload
  simp only [size, words_less, available, total, naturals_add, naturals_sub, naturals_less,
    naturals_ofNat, naturals_toNat, words_toNat, same]
  by_cases short : bytes.length - o.toNat < header_size.toNat + pl_len.toNat
  · cases masked <;> simp [short, Computed.map, available, total, RoundEnd.map]
  · have start : (words.add o header_size).toNat = o.toNat + header_size.toNat := words_add (by omega)
    have last : (words.add (words.add o header_size) pl_len).toNat =
        o.toNat + header_size.toNat + pl_len.toNat := by
      rw [words_add (by rw [start]; omega), start]
    have next : (words.add o (words.add header_size pl_len)).toNat =
        o.toNat + (header_size.toNat + pl_len.toNat) := by
      rw [words_add (by rw [total]; omega), total]
    have masking (set : masked = true) :
        (words.sub header_size (words.ofNat 4)).toNat = header_size.toNat - 4 ∧
        (words.add o (words.sub header_size (words.ofNat 4))).toNat =
          o.toNat + (header_size.toNat - 4) := by
      have four_le : 4 ≤ header_size.toNat := by
        rw [← same, if_pos set]
        omega
      have offset : (words.sub header_size (words.ofNat 4)).toNat = header_size.toNat - 4 :=
        words_sub (by rw [four]; exact four_le)
      exact ⟨offset, by rw [words_add (by rw [offset]; omega), offset]⟩
    have long : ¬ 2 ^ 63 ≤ pl_len.toNat := by omega
    simp only [if_neg long, short, decide_false, Bool.false_eq_true, if_false]
    cases masked with
    | false => simp [Computed.map, available, total, start, last, next, RoundEnd.map]
    | true => simp [Computed.map, available, total, start, last, next, RoundEnd.map, masking rfl, four]

end Agree

section Naturals

variable {bytes : Bytes} {o : ℕ}

theorem drop_two (inside : o + 2 ≤ bytes.length) :
    bytes.drop o = bytes.getD o 0 :: bytes.getD (o + 1) 0 :: bytes.drop (o + 2) := by
  have read (i : ℕ) (low : i < bytes.length) : bytes.getD i 0 = bytes[i] := by
    rw [List.getD_eq_getElem?_getD, List.getElem?_eq_getElem low, Option.getD_some]
  rw [List.drop_eq_getElem_cons (by omega), List.drop_eq_getElem_cons (i := o + 1) (by omega),
    read o (by omega), read (o + 1) (by omega)]

theorem read_length_header (inside : o + 2 ≤ bytes.length) :
    (read_length naturals bytes o (bytes.getD (o + 1) 0 &&& 0x7F)).2 = payload_header (bytes.drop o) := by
  rw [drop_two inside]
  unfold read_length payload_header
  dsimp only
  generalize bytes.getD (o + 1) 0 &&& 0x7F = len_code
  by_cases one : length_bytes len_code = 0
  · simp [one]
  · by_cases short : bytes.length - o < 2 + length_bytes len_code
    · have missing : bytes.length - (o + 2) < length_bytes len_code := by omega
      simp [one, short, missing]
    · have there : ¬ bytes.length - (o + 2) < length_bytes len_code := by omega
      simp [one, short, there]

theorem announced_drop (inside : o + 2 ≤ bytes.length) :
    announced (bytes.drop o) = (payload_header (bytes.drop o)).map fun (header, pl_len) =>
      (if bytes.getD (o + 1) 0 &&& 0x80 ≠ 0 then header + 4 else header, pl_len) := by
  unfold announced
  rw [drop_two inside]
  rfl

theorem read_length_inside (inside : o ≤ bytes.length) (len_code : UInt8) :
    ∀ c ∈ (read_length naturals bytes o len_code).1, c.Inside bytes.length := by
  unfold read_length
  by_cases one : length_bytes len_code = 0
  · simp [one]
  · by_cases short : bytes.length - o < 2 + length_bytes len_code
    · simp [one, short, Computed.Inside]
      omega
    · simp [one, short, Computed.Inside]
      omega

/-- What the turn behind the length field computes and does in the naturals. -/
theorem read_payload_naturals (small : bytes.length < 2 ^ 63) (inside : o ≤ bytes.length)
    {header size : ℕ} {masked : Bool} (same : (if masked then header + 4 else header) = size) (pl_len : ℕ) :
    (∀ c ∈ (read_payload naturals bytes o header pl_len masked).1, c.Inside bytes.length) ∧
    .sum (size + pl_len) ∈ (read_payload naturals bytes o header pl_len masked).1 ∧
    (bytes.length - o < size + pl_len ∧
        (read_payload naturals bytes o header pl_len masked).2 = .leftover ∨
      size + pl_len ≤ bytes.length - o ∧ (read_payload naturals bytes o header pl_len masked).2 =
        .accepted (build_frame (bytes.drop o) size pl_len) (o + (size + pl_len))) := by
  unfold read_payload
  simp only [naturals_add, naturals_sub, naturals_less, naturals_ofNat, naturals_toNat, same]
  by_cases short : bytes.length - o < size + pl_len
  · refine ⟨?_, by simp [short], .inl ⟨short, by simp [short]⟩⟩
    cases masked <;> simp [short, Computed.Inside] <;> omega
  · have long : ¬ 2 ^ 63 ≤ pl_len := by omega
    simp only [if_neg long, short, decide_false, Bool.false_eq_true, if_false]
    refine ⟨?_, by simp, .inr ⟨by omega, trivial⟩⟩
    cases masked with
    | false =>
      simp [Computed.Inside]
      omega
    | true =>
      have four : 4 ≤ size := by
        rw [← same, if_pos rfl]
        omega
      simp [Computed.Inside]
      omega

theorem announced_short {bytes : Bytes} {o : ℕ} (short : bytes.length - o < 2) :
    announced (bytes.drop o) = none := by
  have few : (bytes.drop o).length < 2 := by simpa using short
  unfold announced
  match bytes.drop o, few with
  | [], _ => rfl
  | [_], _ => rfl

theorem announced_header {s : Bytes} {h k : ℕ} (header : announced s = some (h, k)) : 2 ≤ h ∧ h ≤ 14 := by
  unfold announced at header
  cases found : payload_header s with
  | none =>
    rw [found] at header
    cases header
  | some pair =>
    obtain ⟨low, high, _⟩ := payload_header_take found
    rw [found] at header
    cases header
    split <;> omega

/-- What a turn computes and does in the naturals: its slices lie in the buffer, and the frame is
taken exactly if its bytes are all there. -/
theorem read_round_naturals (small : bytes.length < 2 ^ 63) (inside : o ≤ bytes.length) :
    (∀ c ∈ (read_round naturals bytes o).computed, c.Inside bytes.length) ∧
    (∀ h k, announced (bytes.drop o) = some (h, k) →
      .sum (h + k) ∈ (read_round naturals bytes o).computed) ∧
    ((∃ h k, announced (bytes.drop o) = some (h, k) ∧ h + k ≤ bytes.length - o ∧
        (read_round naturals bytes o).turn = .accepted (build_frame (bytes.drop o) h k) (o + (h + k))) ∨
      ((read_round naturals bytes o).turn = .finished ∧ o = bytes.length ∨
          (read_round naturals bytes o).turn = .leftover) ∧
        ∀ h k, announced (bytes.drop o) = some (h, k) → bytes.length - o < h + k) := by
  unfold read_round
  simp only [naturals_sub, naturals_less, naturals_ofNat, naturals_toNat, naturals_add]
  by_cases more : o < bytes.length
  · by_cases short : bytes.length - o < 2
    · simp [more, short, announced_short short, Computed.Inside]
      omega
    · have enough : o + 2 ≤ bytes.length := by omega
      have head := read_length_header enough
      have length_inside := read_length_inside inside (bytes.getD (o + 1) 0 &&& 0x7F)
      rw [announced_drop enough, ← head]
      simp only [more, short, decide_true, decide_false, Bool.not_true, Bool.false_eq_true, if_false]
      generalize read_length naturals bytes o (bytes.getD (o + 1) 0 &&& 0x7F) = length at length_inside
      obtain ⟨computed, _ | ⟨header, pl_len⟩⟩ := length
      · refine ⟨?_, by simp, .inr ⟨.inr rfl, by simp⟩⟩
        have first : o + 1 ≤ bytes.length ∧ o + 1 + 1 ≤ bytes.length := by omega
        simpa [Computed.Inside, first] using length_inside
      · generalize size : (if bytes.getD (o + 1) 0 &&& 0x80 ≠ 0 then header + 4 else header) = header_size
        have same : (if decide (bytes.getD (o + 1) 0 &&& 0x80 ≠ 0) then header + 4 else header) =
            header_size := by
          rw [← size]
          simp only [decide_eq_true_eq]
        obtain ⟨payload_inside, sum, turn⟩ :=
          read_payload_naturals small inside same pl_len
        have first : o + 1 ≤ bytes.length ∧ o + 1 + 1 ≤ bytes.length := by omega
        simp only [Option.map_some, size]
        refine ⟨?_, ?_, ?_⟩
        · have parts : ∀ c, c ∈ computed ∨ c ∈ (read_payload naturals bytes o header pl_len
              (decide (bytes.getD (o + 1) 0 &&& 0x80 ≠ 0))).1 → c.Inside bytes.length :=
            fun c member => member.elim (length_inside c) (payload_inside c)
          simpa [Computed.Inside, first] using parts
        · rintro h k found
          cases found
          exact List.mem_append_right _ sum
        · rcases turn with ⟨missing, leftover⟩ | ⟨whole, accepted⟩
          · refine .inr ⟨.inr leftover, ?_⟩
            rintro h k found
            cases found
            exact missing
          · exact .inl ⟨header_size, pl_len, rfl, whole, accepted⟩
  · have none : announced (bytes.drop o) = none := announced_short (by omega)
    have all : o = bytes.length := by omega
    refine ⟨?_, ?_, .inr ⟨.inl ⟨?_, all⟩, ?_⟩⟩ <;> simp [more, none, Computed.Inside]

end Naturals

/-- Words and naturals agree on a turn whose frame fits a word. -/
theorem read_round_words {bytes : Bytes} {o : UInt64} (small : bytes.length < 2 ^ 63)
    (inside : o.toNat ≤ bytes.length) (exact : ¬ Wraps bytes o.toNat) :
    (read_round words bytes o).map UInt64.toNat = read_round naturals bytes o.toNat := by
  have size := words_ofNat (n := bytes.length) (by omega)
  have available := available_words small inside
  have one : (words.ofNat 1).toNat = 1 := rfl
  have two : (words.ofNat 2).toNat = 2 := rfl
  unfold read_round
  simp only [words_less, size, available, two, naturals_sub, naturals_less, naturals_ofNat,
    naturals_toNat, naturals_add, words_toNat]
  by_cases more : o.toNat < bytes.length
  · by_cases short : bytes.length - o.toNat < 2
    · simp [more, short, Round.map, Computed.map, RoundEnd.map, available]
    · have enough : o.toNat + 2 ≤ bytes.length := by omega
      have second : (words.add o (words.ofNat 1)).toNat = o.toNat + 1 := by
        rw [words_add (by rw [one]; omega), one]
      simp only [more, short, second, decide_true, decide_false, Bool.not_true, Bool.false_eq_true,
        if_false]
      have head := read_length_header enough
      have fits := announced_drop enough
      obtain ⟨same, result⟩ := read_length_words small enough (bytes.getD (o.toNat + 1) 0 &&& 0x7F)
      rw [← head] at fits
      generalize read_length naturals bytes o.toNat (bytes.getD (o.toNat + 1) 0 &&& 0x7F) = natural
        at same result head fits
      generalize read_length words bytes o (bytes.getD (o.toNat + 1) 0 &&& 0x7F) = word at same result
      obtain ⟨computed, result'⟩ := natural
      obtain ⟨computed', length⟩ := word
      dsimp only at same result head fits
      subst same result
      cases length with
      | none => simp [Round.map, Computed.map, RoundEnd.map, available, second, one]
      | some length =>
        obtain ⟨header, pl_len⟩ := length
        obtain ⟨low, high, there, _⟩ := payload_header_take head.symm
        rw [List.length_drop] at there
        have room : o.toNat + header.toNat ≤ bytes.length := by omega
        obtain ⟨payload, turn⟩ := read_payload_words small
          (decide (bytes.getD (o.toNat + 1) 0 &&& 0x80 ≠ 0)) low high room (by
            by_contra wraps
            refine exact ⟨_, _, fits, ?_⟩
            simpa using wraps)
        simp only [Option.map_some, Prod.map, Round.map, List.map_append, List.map_cons, List.map_nil,
          Computed.map, available, second, one, payload, turn]
        rfl
  · simp [more, Round.map, Computed.map, RoundEnd.map]

section Rounds

variable {bytes : Bytes}

theorem RoundEnd.map_eq_accepted {turn : RoundEnd UInt64} {frame : WebSocketFrame} {n : ℕ}
    (same : turn.map UInt64.toNat = .accepted frame n) :
    ∃ next : UInt64, turn = .accepted frame next ∧ next.toNat = n := by
  cases turn with
  | accepted frame' next =>
    cases same
    exact ⟨next, rfl, rfl⟩
  | _ => cases same

theorem RoundEnd.map_eq_stop {turn : RoundEnd UInt64} :
    (turn.map UInt64.toNat = .finished → turn = .finished) ∧
      (turn.map UInt64.toNat = .leftover → turn = .leftover) := by
  cases turn <;> simp [RoundEnd.map]

@[simp] theorem read_round_offset {α : Type} (S : Sizes α) (bytes : Bytes) (o : α) :
    (read_round S bytes o).offset = o := by
  unfold read_round
  dsimp only
  split
  · rfl
  · split
    · rfl
    · split <;> rfl

/-- Where no frame wraps, the loop takes the same turns in words and in the naturals. -/
theorem read_loop_words (small : bytes.length < 2 ^ 63) (n : ℕ) (client : ClientConnection) {o : UInt64}
    (inside : o.toNat ≤ bytes.length)
    (exact : ∀ last, Reaches bytes client o.toNat last → ¬ Wraps bytes last) :
    (read_loop words bytes n client o).1.map (Round.map UInt64.toNat) =
        (read_loop naturals bytes n client o.toNat).1 ∧
      (read_loop words bytes n client o).2 = (read_loop naturals bytes n client o.toNat).2 := by
  induction n generalizing client o with
  | zero => exact ⟨rfl, rfl⟩
  | succ n ih =>
    have same := read_round_words small inside (exact _ (.here client _))
    obtain ⟨_, _, outcome⟩ := read_round_naturals small inside
    have turns := congrArg Round.turn same
    rw [read_loop, read_loop]
    rcases outcome with ⟨h, k, header, whole, accepted⟩ | ⟨⟨finished, _⟩ | leftover, _⟩
    · rw [accepted] at turns
      obtain ⟨next, taken, next_eq⟩ := RoundEnd.map_eq_accepted turns
      rw [taken, accepted]
      dsimp only
      cases handled : handle_frame client (build_frame (bytes.drop o.toNat) h k) with
      | mk client' out =>
        cases out with
        | none => exact ⟨congrArg (fun r => [r]) same, rfl⟩
        | some messages =>
          have rest : ∀ last, Reaches bytes client' next.toNat last → ¬ Wraps bytes last := by
            intro last reaches
            rw [next_eq] at reaches
            exact exact last (.next header (by simpa using whole) handled reaches)
          obtain ⟨rounds, result⟩ := ih _ (by omega : next.toNat ≤ bytes.length) rest
          rw [next_eq] at rounds result
          exact ⟨by simp only [List.map_cons, same, rounds], by simp only [result]⟩
    · rw [finished] at turns
      rw [RoundEnd.map_eq_stop.1 turns, finished]
      exact ⟨congrArg (fun r => [r]) same, rfl⟩
    · rw [leftover] at turns
      rw [RoundEnd.map_eq_stop.2 turns, leftover]
      exact ⟨congrArg (fun r => [r]) same, rfl⟩

/-- The turns of the loop in the naturals start in the buffer. -/
theorem read_loop_naturals_mem (small : bytes.length < 2 ^ 63) {n : ℕ} {client : ClientConnection}
    {o : ℕ} (inside : o ≤ bytes.length) {r : Round ℕ} (visited : r ∈ (read_loop naturals bytes n client o).1) :
    ∃ last ≤ bytes.length, r = read_round naturals bytes last := by
  induction n generalizing client o with
  | zero => cases visited
  | succ n ih =>
    obtain ⟨_, _, outcome⟩ := read_round_naturals small inside
    rw [read_loop] at visited
    rcases outcome with ⟨h, k, header, whole, accepted⟩ | ⟨⟨finished, _⟩ | leftover, _⟩
    · rw [accepted] at visited
      dsimp only at visited
      cases handled : handle_frame client (build_frame (bytes.drop o) h k) with
      | mk client' out =>
        rw [handled] at visited
        cases out with
        | none => exact ⟨o, inside, List.mem_singleton.mp visited⟩
        | some messages =>
          rcases List.mem_cons.mp visited with rfl | later
          · exact ⟨o, inside, rfl⟩
          · exact ih (by omega) later
    · rw [finished] at visited
      exact ⟨o, inside, List.mem_singleton.mp visited⟩
    · rw [leftover] at visited
      exact ⟨o, inside, List.mem_singleton.mp visited⟩

/-- The loop in the naturals ends: each frame takes two bytes at least. -/
theorem read_loop_naturals_ends (small : bytes.length < 2 ^ 63) {n : ℕ} {client : ClientConnection}
    {o : ℕ} (inside : o ≤ bytes.length) (enough : bytes.length - o < n) :
    (read_loop naturals bytes n client o).2.isSome := by
  induction n generalizing client o with
  | zero => omega
  | succ n ih =>
    obtain ⟨_, _, outcome⟩ := read_round_naturals small inside
    rw [read_loop]
    rcases outcome with ⟨h, k, header, whole, accepted⟩ | ⟨⟨finished, _⟩ | leftover, _⟩
    · rw [accepted]
      dsimp only
      cases handled : handle_frame client (build_frame (bytes.drop o) h k) with
      | mk client' out =>
        cases out with
        | none => rfl
        | some messages =>
          have two := (announced_header header).1
          have ends : (read_loop naturals bytes n client' (o + (h + k))).2.isSome :=
            ih (by omega) (by omega)
          simpa using ends
    · rw [finished]
      rfl
    · rw [leftover]
      rfl

/-- A frame that is reached is looked at. -/
theorem visited_of_reaches (small : bytes.length < 2 ^ 63) {client : ClientConnection} {o last : ℕ}
    (inside : o ≤ bytes.length) (reaches : Reaches bytes client o last) :
    last ≤ bytes.length ∧
      ∃ n, read_round naturals bytes last ∈ (read_loop naturals bytes n client o).1 := by
  induction reaches with
  | here client offset =>
    refine ⟨inside, 1, ?_⟩
    obtain ⟨_, _, outcome⟩ := read_round_naturals small inside
    rw [read_loop]
    rcases outcome with ⟨h, k, header, whole, accepted⟩ | ⟨⟨finished, _⟩ | leftover, _⟩
    · rw [accepted]
      dsimp only
      split <;> simp
    · rw [finished]
      simp
    · rw [leftover]
      simp
  | @next client client' offset h k last messages header whole handled _ ih =>
    rw [List.length_drop] at whole
    obtain ⟨low, n, visited⟩ := ih (by omega)
    refine ⟨low, n + 1, ?_⟩
    have taken : (read_round naturals bytes offset).turn =
        .accepted (build_frame (bytes.drop offset) h k) (offset + (h + k)) := by
      obtain ⟨_, _, ⟨h', k', header', _, accepted⟩ | ⟨_, missing⟩⟩ := read_round_naturals small inside
      · rw [header] at header'
        cases header'
        exact accepted
      · have := missing h k header
        omega
    rw [read_loop, taken]
    dsimp only
    rw [handled]
    exact List.mem_cons_of_mem _ visited

/-- `next_frame` in terms of what the frame announces. -/
theorem next_frame_announced (s : Bytes) : (announced s = none → next_frame s = none) ∧
    ∀ h k, announced s = some (h, k) → ∃ rest, next_frame s =
      if s.length < (h + k) % 2 ^ 64 then none
      else if 2 ^ 63 ≤ k then some (none, rest)
      else some (some (build_frame s h k), s.drop ((h + k) % 2 ^ 64)) := by
  unfold announced next_frame
  cases payload_header s with
  | none => exact ⟨fun _ => rfl, nofun⟩
  | some found =>
    obtain ⟨header, pl_len⟩ := found
    refine ⟨nofun, ?_⟩
    rintro h k same
    cases same
    exact ⟨_, rfl⟩

/-- A turn whose sum wraps: the check compares with what is left of the sum. -/
theorem read_round_wraps (small : bytes.length < 2 ^ 63) {o : UInt64} (inside : o.toNat ≤ bytes.length)
    {h k : ℕ} (header : announced (bytes.drop o.toNat) = some (h, k)) (wraps : 2 ^ 64 ≤ h + k) :
    (read_round words bytes o).turn =
      if bytes.length - o.toNat < (h + k) % 2 ^ 64 then .leftover else .thrown := by
  have enough : o.toNat + 2 ≤ bytes.length := by
    by_contra few
    rw [announced_short (by omega)] at header
    cases header
  have more : o.toNat < bytes.length := by omega
  have short : ¬ bytes.length - o.toNat < 2 := by omega
  have size := words_ofNat (n := bytes.length) (by omega)
  have available := available_words small inside
  have one : (words.ofNat 1).toNat = 1 := rfl
  have two : (words.ofNat 2).toNat = 2 := rfl
  have second : (words.add o (words.ofNat 1)).toNat = o.toNat + 1 := by
    rw [words_add (by rw [one]; omega), one]
  have head := read_length_header enough
  obtain ⟨_, result⟩ := read_length_words small enough (bytes.getD (o.toNat + 1) 0 &&& 0x7F)
  rw [announced_drop enough, ← head, ← result] at header
  rw [← result] at head
  unfold read_round
  simp only [words_less, size, available, two, words_toNat, more, short, second, decide_true,
    decide_false, Bool.not_true, Bool.false_eq_true, if_false]
  generalize read_length words bytes o (bytes.getD (o.toNat + 1) 0 &&& 0x7F) = length at header head
  obtain ⟨_, _ | ⟨header', pl_len⟩⟩ := length
  · cases header
  · obtain ⟨_, ten, _⟩ := payload_header_take head.symm
    simp only [Option.map_some, Prod.map] at header ten
    generalize masking : decide (bytes.getD (o.toNat + 1) 0 &&& 0x80 ≠ 0) = masked
    have four : (words.ofNat 4).toNat = 4 := rfl
    have padded : (if masked then words.add header' (words.ofNat 4) else header').toNat = h := by
      rw [← (Prod.mk.inj (Option.some.inj header)).1, ← masking]
      by_cases set : bytes.getD (o.toNat + 1) 0 &&& 0x80 = 0
      · simp only [ne_eq, set, not_true_eq_false, decide_false, Bool.false_eq_true, if_false]
      · simp only [ne_eq, set, not_false_eq_true, decide_true, if_true]
        rw [words_add (by rw [four]; omega), four]
    have payload : pl_len.toNat = k := (Prod.mk.inj (Option.some.inj header)).2
    have small_header : h ≤ 14 := by
      rw [← (Prod.mk.inj (Option.some.inj header)).1]
      split <;> omega
    have huge : 2 ^ 63 ≤ pl_len.toNat := by omega
    unfold read_payload
    simp only [words_less, available, words_toNat, words_add_mod, padded, payload, decide_eq_true_eq]
    rw [payload] at huge
    by_cases few : bytes.length - o.toNat < (h + k) % 2 ^ 64
    · simp only [if_pos few]
    · simp only [if_neg few, if_pos huge]

/-- The turn the loop takes is the one `next_frame` takes at its offset. -/
theorem read_round_next_frame (small : bytes.length < 2 ^ 63) {o : UInt64}
    (inside : o.toNat ≤ bytes.length) :
    ((read_round words bytes o).turn = .finished ∧ o.toNat = bytes.length ∨
        (read_round words bytes o).turn = .leftover) ∧ next_frame (bytes.drop o.toNat) = none ∨
      (read_round words bytes o).turn = .thrown ∧
        (∃ rest, next_frame (bytes.drop o.toNat) = some (none, rest)) ∨
      ∃ frame next, (read_round words bytes o).turn = .accepted frame next ∧
        next.toNat ≤ bytes.length ∧
        next_frame (bytes.drop o.toNat) = some (some frame, bytes.drop next.toNat) := by
  obtain ⟨missing, found⟩ := next_frame_announced (bytes.drop o.toNat)
  by_cases wraps : Wraps bytes o.toNat
  · obtain ⟨h, k, header, huge⟩ := wraps
    have turn := read_round_wraps small inside header huge
    have small_header := (announced_header header).2
    obtain ⟨rest, next⟩ := found h k header
    rw [List.length_drop, if_pos (by omega : 2 ^ 63 ≤ k)] at next
    split at turn
    · next short =>
      rw [if_pos short] at next
      exact .inl ⟨.inr turn, next⟩
    · next enough =>
      rw [if_neg enough] at next
      exact .inr (.inl ⟨turn, rest, next⟩)
  · have turns := congrArg Round.turn (read_round_words small inside wraps)
    obtain ⟨_, _, outcome⟩ := read_round_naturals small inside
    rcases outcome with ⟨h, k, header, whole, accepted⟩ | ⟨stopped, short⟩
    · rw [accepted] at turns
      obtain ⟨next, taken, next_eq⟩ := RoundEnd.map_eq_accepted turns
      obtain ⟨rest, next'⟩ := found h k header
      have fits : (h + k) % 2 ^ 64 = h + k := Nat.mod_eq_of_lt (by omega)
      rw [List.length_drop, fits, if_neg (by omega), if_neg (by omega), List.drop_drop, ← next_eq] at next'
      exact .inr (.inr ⟨_, next, taken, by omega, next'⟩)
    · have none : next_frame (bytes.drop o.toNat) = none := by
        cases header : announced (bytes.drop o.toNat) with
        | none => exact missing header
        | some pair =>
          obtain ⟨h, k⟩ := pair
          obtain ⟨rest, next⟩ := found h k header
          have fits : (h + k) % 2 ^ 64 = h + k :=
            Nat.mod_eq_of_lt (Nat.lt_of_not_le fun huge => wraps ⟨h, k, header, huge⟩)
          have few := short h k header
          rw [List.length_drop, fits, if_pos few] at next
          exact next
      rcases stopped with ⟨finished, all⟩ | leftover
      · rw [finished] at turns
        exact .inl ⟨.inl ⟨RoundEnd.map_eq_stop.1 turns, all⟩, none⟩
      · rw [leftover] at turns
        exact .inl ⟨.inr (RoundEnd.map_eq_stop.2 turns), none⟩

/-- The loop on offsets is the loop on what is behind them; it ends after a turn for each byte. -/
theorem read_loop_eq (small : bytes.length < 2 ^ 63) (n : ℕ) {client : ClientConnection} {o : UInt64}
    (inside : o.toNat ≤ bytes.length) (enough : bytes.length - o.toNat ≤ n)
    (empty : client.extra_data = []) :
    (read_loop words bytes (n + 1) client o).2 = some (read_frames n client (bytes.drop o.toNat)) := by
  have cleared : { client with extra_data := [] } = client := by rw [← empty]
  induction n generalizing client o with
  | zero =>
    have all : bytes.drop o.toNat = [] := List.drop_eq_nil_of_le (by omega)
    rw [read_loop, read_frames]
    rcases read_round_next_frame small inside with ⟨⟨finished, _⟩ | leftover, _⟩ | ⟨_, rest, next⟩ |
      ⟨frame, later, _, _, next⟩
    · rw [finished, all, cleared]
    · rw [leftover]
      rfl
    · rw [all] at next
      cases next
    · rw [all] at next
      cases next
  | succ n ih =>
    rw [read_loop, read_frames]
    rcases read_round_next_frame small inside with ⟨⟨finished, last⟩ | leftover, none⟩ |
      ⟨thrown, rest, next⟩ | ⟨frame, later, accepted, low, next⟩
    · rw [finished, none, List.drop_eq_nil_of_le last.ge, cleared]
    · rw [leftover, none]
      rfl
    · rw [thrown, next]
    · rw [accepted, next]
      dsimp only
      have less := frameCutter.shorter next
      rw [List.length_drop, List.length_drop] at less
      have kept := handle_frame_extra client frame
      cases handled : handle_frame client frame with
      | mk client' out =>
        cases out with
        | none => rfl
        | some messages =>
          rw [handled] at kept
          have empty' : client'.extra_data = [] := kept.trans empty
          have rest := ih low (by omega) empty' (by rw [← empty'])
          dsimp only
          rw [rest]
          rfl

/-- A masked frame of two letters, and the first byte of the next one. -/
def frame_and_more : Bytes := [0x81, 0x82, 1, 2, 3, 4, 0x69, 0x6B, 0x81]

theorem read_loop_frame_and_more : (read_loop words frame_and_more 10 {} 0).2 =
    some (read_frames 9 {} (frame_and_more.drop (0 : UInt64).toNat)) :=
  read_loop_eq (by decide) 9 (by decide) (by decide) rfl

end Rounds

/-- The lengths of a buffer are handled exactly: the loop computes what it would in the naturals,
reads inside the buffer, goes forward with every frame, ends, and takes no frame that is not all
there. -/
structure LengthsExact (client : ClientConnection) (buf : ByteVector) : Prop where
  natural : ∀ n, (read_loop words buf.data n client 0).1.map (Round.map UInt64.toNat) =
    (read_loop naturals buf.data n client 0).1
  inside : ∀ n, ∀ r ∈ (read_loop words buf.data n client 0).1, ∀ start count,
    .slice start count ∈ r.computed → start.toNat + count.toNat ≤ buf.data.length
  forward : ∀ n, ∀ r ∈ (read_loop words buf.data n client 0).1, ∀ frame next,
    r.turn = .accepted frame next → r.offset < next
  ends : (read_loop words buf.data (buf.data.length + 1) client 0).2.isSome
  whole : ∀ n, ∀ r ∈ (read_loop words buf.data n client 0).1, r.turn.Complete →
    ∃ h k, announced (buf.data.drop r.offset.toNat) = some (h, k) ∧
      r.offset.toNat + (h + k) ≤ buf.data.length

section Exact

variable {bytes : Bytes} {client : ClientConnection} {r : Round UInt64}

/-- Where no sum wraps, each turn in words is the image of one in the naturals that starts in the
buffer. -/
theorem round_image (small : bytes.length < 2 ^ 63)
    (exact : ∀ last, Reaches bytes client 0 last → ¬ Wraps bytes last) {n : ℕ}
    (visited : r ∈ (read_loop words bytes n client 0).1) :
    r.offset.toNat ≤ bytes.length ∧ r.map UInt64.toNat = read_round naturals bytes r.offset.toNat := by
  have zero : (0 : UInt64).toNat ≤ bytes.length := Nat.zero_le _
  have member := List.mem_map_of_mem (f := Round.map UInt64.toNat) visited
  rw [(read_loop_words small n client zero exact).1] at member
  obtain ⟨last, low, same⟩ := read_loop_naturals_mem small (Nat.zero_le _) member
  have offset : r.offset.toNat = last := by
    have := congrArg Round.offset same
    rwa [read_round_offset] at this
  rw [offset]
  exact ⟨low, same⟩

/-- A turn that does not stop has its frame in the buffer, and goes on behind it. -/
theorem round_whole (small : bytes.length < 2 ^ 63) (low : r.offset.toNat ≤ bytes.length)
    (image : r.map UInt64.toNat = read_round naturals bytes r.offset.toNat)
    (going : r.turn ≠ .finished ∧ r.turn ≠ .leftover) :
    ∃ h k, announced (bytes.drop r.offset.toNat) = some (h, k) ∧
      r.offset.toNat + (h + k) ≤ bytes.length ∧
      ∀ frame next, r.turn = .accepted frame next → r.offset < next := by
  have turn : r.turn.map UInt64.toNat = (read_round naturals bytes r.offset.toNat).turn :=
    congrArg Round.turn image
  rcases (read_round_naturals small low).2.2 with ⟨h, k, header, there, taken⟩ | ⟨⟨stopped, _⟩ | stopped, _⟩
  · refine ⟨h, k, header, by omega, fun frame next accepted => ?_⟩
    rw [accepted, taken] at turn
    have two := (announced_header header).1
    have total : next.toNat = r.offset.toNat + (h + k) := (RoundEnd.accepted.inj turn).2
    rw [UInt64.lt_iff_toNat_lt]
    omega
  · exact absurd (RoundEnd.map_eq_stop.1 (turn.trans stopped)) going.1
  · exact absurd (RoundEnd.map_eq_stop.2 (turn.trans stopped)) going.2

end Exact

/-- The arithmetic is exact on a buffer exactly if no frame that the loop comes to needs 2^64
bytes or more. -/
theorem lengths_exact_iff (client : ClientConnection) (buf : ByteVector) :
    LengthsExact client buf ↔ ∀ last, Reaches buf.data client 0 last → ¬ Wraps buf.data last := by
  constructor
  · rintro ⟨natural, _⟩ last reaches ⟨h, k, header, huge⟩
    obtain ⟨low, n, visited⟩ := visited_of_reaches buf.max_size (Nat.zero_le _) reaches
    rw [← natural n] at visited
    obtain ⟨r, _, same⟩ := List.mem_map.mp visited
    have sum := (read_round_naturals buf.max_size low).2.1 h k header
    rw [← same] at sum
    obtain ⟨c, _, value⟩ := List.mem_map.mp sum
    cases c with
    | sum a =>
      have word := a.toNat_lt
      have total : a.toNat = h + k := Computed.sum.inj value
      omega
    | _ => cases value
  · intro exact
    have zero : (0 : UInt64).toNat ≤ buf.data.length := Nat.zero_le _
    have agree (n : ℕ) := read_loop_words buf.max_size n client zero exact
    refine ⟨fun n => (agree n).1, ?_, ?_, ?_, ?_⟩
    · intro n r visited start count member
      obtain ⟨low, same⟩ := round_image buf.max_size exact visited
      have slice := List.mem_map_of_mem (f := Computed.map UInt64.toNat) member
      have computed : r.computed.map (Computed.map UInt64.toNat) =
          (read_round naturals buf.data r.offset.toNat).computed := congrArg Round.computed same
      rw [computed] at slice
      exact (read_round_naturals buf.max_size low).1 _ slice
    · intro n r visited frame next accepted
      obtain ⟨low, same⟩ := round_image buf.max_size exact visited
      obtain ⟨_, _, _, _, forward⟩ := round_whole buf.max_size low same (by simp [accepted])
      exact forward frame next accepted
    · rw [(agree _).2]
      exact read_loop_naturals_ends buf.max_size (Nat.zero_le _) (by simp)
    · intro n r visited complete
      obtain ⟨low, same⟩ := round_image buf.max_size exact visited
      have going : r.turn ≠ .finished ∧ r.turn ≠ .leftover := by
        constructor
        · intro finished
          rw [finished] at complete
          exact complete
        · intro leftover
          rw [leftover] at complete
          exact complete
      obtain ⟨h, k, header, there, _⟩ := round_whole buf.max_size low same going
      exact ⟨h, k, header, there⟩

/-- Ten bytes that announce 2^64 - 1 more: nine are needed, the frame counts as complete. -/
theorem huge_length_counts_complete :
    ¬ ∀ (client : ClientConnection) (buf : ByteVector), LengthsExact client buf := by
  intro exact
  have whole := (exact {} ⟨0x82 :: 0x7F :: List.replicate 8 0xFF, by decide⟩).whole 1 _
    (List.mem_singleton.mpr rfl) (by trivial)
  obtain ⟨h, k, header, there⟩ := whole
  cases header
  exact absurd there (by decide)

end WebSocketServer

end AoSdl
