import AoSdl.Lib.Framing
import AoSdl.Text

/-! WebSocket frames: the wire format and the frame at the start of a receive buffer. -/
namespace AoSdl

inductive Opcode where
  | CONTINUATION
  | TEXT
  | BINARY
  | CLOSE
  | PING
  | PONG
  /-- Any other value of the four bits. -/
  | reserved (code : UInt8)
  deriving DecidableEq

namespace Opcode

def ofByte (code : UInt8) : Opcode :=
  if code = 0x00 then CONTINUATION
  else if code = 0x01 then TEXT
  else if code = 0x02 then BINARY
  else if code = 0x08 then CLOSE
  else if code = 0x09 then PING
  else if code = 0x0A then PONG
  else reserved code

def toByte : Opcode → UInt8
  | CONTINUATION => 0x00
  | TEXT => 0x01
  | BINARY => 0x02
  | CLOSE => 0x08
  | PING => 0x09
  | PONG => 0x0A
  | reserved code => code

end Opcode

structure WebSocketFrame where
  complete : Bool := false
  fin : Bool := false
  rsv : UInt8 := 0
  opcode : Opcode := .TEXT
  mask : Bool := false
  len_code : UInt8 := 0
  len : UInt64 := 0
  mask_key : UInt32 := 0
  data : Bytes := []
  deriving DecidableEq

/-- Bytes in network order as a number. -/
def ofNetwork (bs : Bytes) : Nat := bs.foldl (fun n b => n * 256 + b.toNat) 0

/-- The `k` low bytes of a number in network order. -/
def toNetwork (k n : Nat) : Bytes := (List.range k).reverse.map fun i => UInt8.ofNat (n / 256 ^ i)

/-- Masks, and unmasks. -/
def apply_mask (mask_key : UInt32) (data : Bytes) : Bytes :=
  data.mapIdx fun i b => b ^^^ (toNetwork 4 mask_key.toNat).getD (i % 4) 0

namespace WebSocketFrame

def serialize (f : WebSocketFrame) : Bytes :=
  let fin_bit : UInt8 := if f.fin then 0x80 else 0x00
  let mask_bit : UInt8 := if f.mask then 0x80 else 0x00
  let fin_rsv_opcode := fin_bit ||| ((f.rsv &&& 0x07) <<< 4) ||| (f.opcode.toByte &&& 0x0F)
  let lenbuf := if f.len_code = 126 then toNetwork 2 f.len.toNat
    else if f.len_code = 127 then toNetwork 8 f.len.toNat
    else []
  let maskbuf := if f.mask then toNetwork 4 f.mask_key.toNat else []
  let data := if f.mask then apply_mask f.mask_key f.data else f.data
  [fin_rsv_opcode, f.len_code ||| mask_bit] ++ lenbuf ++ maskbuf ++ data

end WebSocketFrame

/-- The bytes behind the first two that hold the payload length. -/
def length_bytes (len_code : UInt8) : Nat :=
  if len_code = 126 then 2 else if len_code = 127 then 8 else 0

/-- The size of a frame's header without the mask key, and the payload length it gives.
`none` while the header is not all there. -/
def payload_header (bytes : Bytes) : Option (Nat × Nat) :=
  match bytes with
  | _ :: byte1 :: rest =>
    let len_code := byte1 &&& 0x7F
    let extra := length_bytes len_code
    if rest.length < extra then none
    else some (2 + extra, if extra = 0 then len_code.toNat else ofNetwork (rest.take extra))
  | _ => none

/-- The frame whose bytes are all there. -/
def build_frame (bytes : Bytes) (header_size pl_len : Nat) : WebSocketFrame :=
  let byte0 := bytes.getD 0 0
  let byte1 := bytes.getD 1 0
  let masked := byte1 &&& 0x80 ≠ 0
  let mask_key := if masked then
    UInt32.ofNat (ofNetwork ((bytes.drop (header_size - 4)).take 4)) else 0
  let payload := (bytes.drop header_size).take pl_len
  { complete := true
    fin := byte0 &&& 0x80 ≠ 0
    rsv := (byte0 &&& 0x70) >>> 4
    opcode := .ofByte (byte0 &&& 0x0F)
    mask := masked
    len_code := byte1 &&& 0x7F
    len := UInt64.ofNat pl_len
    mask_key
    data := if masked && !payload.isEmpty then apply_mask mask_key payload else payload }

/-- The next frame and the bytes behind it, or in place of the frame the exception on a payload
of 2^63 bytes or more. The number of bytes needed is a 64 bit sum. -/
def next_frame (bytes : Bytes) : Option (Option WebSocketFrame × Bytes) :=
  match payload_header bytes with
  | none => none
  | some (header, pl_len) =>
    let header_size := if bytes.getD 1 0 &&& 0x80 ≠ 0 then header + 4 else header
    let total_needed := (header_size + pl_len) % 2 ^ 64
    if bytes.length < total_needed then none
    else if 2 ^ 63 ≤ pl_len then some (none, bytes.drop (max header total_needed))
    else some (some (build_frame bytes header_size pl_len), bytes.drop total_needed)

section Local

variable {s : Bytes}

theorem length_bytes_le (len_code : UInt8) : length_bytes len_code ≤ 8 := by
  unfold length_bytes
  split
  · decide
  · split <;> decide

theorem payload_header_take {header pl_len : Nat} (found : payload_header s = some (header, pl_len)) :
    2 ≤ header ∧ header ≤ 10 ∧ header ≤ s.length ∧
      ∀ t, payload_header (s.take header ++ t) = some (header, pl_len) := by
  match s with
  | [] | [_] => cases found
  | byte0 :: byte1 :: rest =>
    have low := length_bytes_le (byte1 &&& 0x7F)
    unfold payload_header at found
    dsimp only at found
    split at found
    · cases found
    · next enough =>
      cases found
      refine ⟨by omega, by omega, by simp; omega, fun t => ?_⟩
      have front : (byte0 :: byte1 :: rest).take (2 + length_bytes (byte1 &&& 0x7F)) ++ t =
          byte0 :: byte1 :: (rest.take (length_bytes (byte1 &&& 0x7F)) ++ t) := by
        rw [Nat.add_comm]
        rfl
      have long : ¬ (rest.take (length_bytes (byte1 &&& 0x7F)) ++ t).length <
          length_bytes (byte1 &&& 0x7F) := by
        simp
        omega
      have same : (rest.take (length_bytes (byte1 &&& 0x7F)) ++ t).take (length_bytes (byte1 &&& 0x7F)) =
          rest.take (length_bytes (byte1 &&& 0x7F)) :=
        List.take_left' (by simp; omega)
      rw [front]
      simp only [payload_header, if_neg long, same]

theorem slice_take {i k n : Nat} (inside : i + k ≤ n) (t : Bytes) (low : n ≤ s.length) :
    ((s.take n ++ t).drop i).take k = (s.drop i).take k := by
  rw [List.drop_append_of_le_length (by simp; omega), List.take_append_of_le_length (by simp; omega),
    List.drop_take, List.take_take, Nat.min_eq_left (by omega)]

theorem getD_take {i n : Nat} (inside : i < n) (t : Bytes) (low : n ≤ s.length) :
    (s.take n ++ t).getD i 0 = s.getD i 0 := by
  rw [List.getD_eq_getElem?_getD, List.getElem?_append_left (by simp; omega),
    List.getElem?_take_of_lt inside, List.getD_eq_getElem?_getD]

theorem build_frame_take {header_size pl_len n : Nat} (long : header_size + pl_len ≤ n)
    (masked_long : s.getD 1 0 &&& 0x80 ≠ 0 → 6 ≤ header_size) (header : 2 ≤ header_size) (t : Bytes)
    (low : n ≤ s.length) :
    build_frame (s.take n ++ t) header_size pl_len = build_frame s header_size pl_len := by
  have key : s.getD 1 0 &&& 0x80 ≠ 0 → ((s.take n ++ t).drop (header_size - 4)).take 4 =
      (s.drop (header_size - 4)).take 4 := fun masked =>
    slice_take (by have := masked_long masked; omega) t low
  unfold build_frame
  simp only [getD_take (show 0 < n by omega) t low, getD_take (show 1 < n by omega) t low,
    slice_take long t low]
  by_cases masked : s.getD 1 0 &&& 0x80 = 0
  · simp only [masked, ne_eq, not_true_eq_false, if_false, decide_false, Bool.false_and]
  · simp only [key masked]

/-- The next frame is decided by the bytes that are taken off for it. -/
theorem next_frame_local {f : Option WebSocketFrame} {r : Bytes} (next : next_frame s = some (f, r)) :
    ∃ n, 2 ≤ n ∧ n ≤ s.length ∧ r = s.drop n ∧ ∀ t, next_frame (s.take n ++ t) = some (f, t) := by
  unfold next_frame at next
  cases head : payload_header s with
  | none => rw [head] at next; cases next
  | some found =>
    obtain ⟨header, pl_len⟩ := found
    obtain ⟨two, ten, inside, kept⟩ := payload_header_take head
    rw [head] at next
    dsimp only at next
    generalize size : (if s.getD 1 0 &&& 0x80 ≠ 0 then header + 4 else header) = header_size at next
    have sizes : header ≤ header_size ∧ header_size ≤ 14 := by
      rw [← size]
      split <;> omega
    have front {n : Nat} (long : header ≤ n) (low : n ≤ s.length) (t : Bytes) :
        payload_header (s.take n ++ t) = some (header, pl_len) := by
      have parts : s.take n ++ t = s.take header ++ ((s.take n).drop header ++ t) := by
        rw [← List.append_assoc, ← Nat.min_eq_left long, ← List.take_take, Nat.min_eq_left long,
          List.take_append_drop]
      rw [parts, kept]
    have same_size {n : Nat} (long : 2 ≤ n) (low : n ≤ s.length) (t : Bytes) :
        (if (s.take n ++ t).getD 1 0 &&& 0x80 ≠ 0 then header + 4 else header) = header_size := by
      rw [getD_take long t low]
      exact size
    generalize needed : (header_size + pl_len) % 2 ^ 64 = total_needed at next
    split at next
    · cases next
    · next enough =>
      split at next
      · next huge =>
        cases next
        refine ⟨max header total_needed, by omega, by omega, rfl, fun t => ?_⟩
        have long : ¬ (s.take (max header total_needed) ++ t).length < total_needed := by
          simp
          omega
        unfold next_frame
        rw [front (by omega) (by omega) t]
        dsimp only
        rw [same_size (by omega) (by omega) t, needed, if_neg long, if_pos huge,
          List.drop_left' (by simp; omega)]
      · next small =>
        cases next
        have whole : total_needed = header_size + pl_len := by omega
        have masked (set : s.getD 1 0 &&& 0x80 ≠ 0) : 6 ≤ header_size := by
          rw [if_pos set] at size
          omega
        refine ⟨total_needed, by omega, by omega, rfl, fun t => ?_⟩
        have long : ¬ (s.take total_needed ++ t).length < total_needed := by
          simp
          omega
        unfold next_frame
        rw [front (by omega) (by omega) t]
        dsimp only
        rw [same_size (by omega) (by omega) t, needed, if_neg long, if_neg small,
          List.drop_left' (by simp; omega), build_frame_take (by omega) masked (by omega) t (by omega)]

end Local

/-- Frames on a byte stream. -/
def frameCutter : Lib.Framing.Cutter UInt8 (Option WebSocketFrame) where
  cut := next_frame
  shorter next := by
    obtain ⟨n, two, inside, rfl, _⟩ := next_frame_local next
    rw [List.length_drop]
    omega
  stable {s f r} t next := by
    obtain ⟨n, _, inside, rfl, kept⟩ := next_frame_local next
    have parts : s ++ t = s.take n ++ (s.drop n ++ t) := by
      rw [← List.append_assoc, List.take_append_drop]
    rw [parts, kept]

end AoSdl
