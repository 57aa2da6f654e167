import AoSdl.WebSocketClient

/-! The frames that either side writes, read back by the other. The emitters choose the length code
on their own, and a `PONG` has no code for more than 65535 bytes. -/
namespace AoSdl

section Network

theorem ofNetwork_cons (b : UInt8) (bs : Bytes) :
    ofNetwork (b :: bs) = b.toNat * 256 ^ bs.length + ofNetwork bs := by
  have shift : ∀ n, bs.foldl (fun n b => n * 256 + b.toNat) n = n * 256 ^ bs.length + ofNetwork bs := by
    unfold ofNetwork
    induction bs with
    | nil => simp
    | cons c cs ih =>
      intro n
      rw [List.foldl_cons, List.foldl_cons, ih, ih (0 * 256 + c.toNat), List.length_cons, pow_succ]
      ring
  simpa [ofNetwork] using shift b.toNat

theorem toNetwork_succ (k n : Nat) :
    toNetwork (k + 1) n = UInt8.ofNat (n / 256 ^ k) :: toNetwork k n := by
  simp [toNetwork, List.range_succ]

@[simp] theorem length_toNetwork (k n : Nat) : (toNetwork k n).length = k := by simp [toNetwork]

theorem ofNetwork_toNetwork (k n : Nat) : ofNetwork (toNetwork k n) = n % 256 ^ k := by
  induction k with
  | zero => simp [toNetwork, ofNetwork, Nat.mod_one]
  | succ k ih =>
    rw [toNetwork_succ, ofNetwork_cons, ih, length_toNetwork, UInt8.toNat_ofNat',
      show 2 ^ 8 = 256 from rfl, Nat.mod_pow_succ]
    ring

theorem toNetwork_mod (k n : Nat) : toNetwork k (n % 256 ^ k) = toNetwork k n := by
  unfold toNetwork
  refine List.map_congr_left fun i inside => ?_
  have low : i < k := by simpa using inside
  rw [← UInt8.toNat_inj, UInt8.toNat_ofNat', UInt8.toNat_ofNat']
  show n % 256 ^ k / 256 ^ i % 256 = n / 256 ^ i % 256
  obtain ⟨j, rfl⟩ := Nat.exists_eq_add_of_lt low
  rw [show i + j + 1 = i + (j + 1) from rfl, pow_add, Nat.mod_mul_right_div_self, pow_succ', Nat.mod_mul_right_mod]

theorem apply_mask_apply_mask (mask_key : UInt32) (data : Bytes) :
    apply_mask mask_key (apply_mask mask_key data) = data := by
  have twice (a b : UInt8) : a ^^^ b ^^^ b = a := by rw [UInt8.xor_assoc, UInt8.xor_self, UInt8.xor_zero]
  refine List.ext_getElem (by simp [apply_mask]) fun i _ _ => ?_
  refine Eq.trans ?_ (twice data[i] ((toNetwork 4 mask_key.toNat).getD (i % 4) 0))
  simp [apply_mask]

theorem apply_mask_take (mask_key : UInt32) (n : Nat) (data : Bytes) :
    apply_mask mask_key (data.take n) = (apply_mask mask_key data).take n := by
  refine List.ext_getElem (by simp [apply_mask]) fun i _ _ => ?_
  simp [apply_mask]

end Network

section Coded

variable {f : WebSocketFrame}

/-- The first byte of a frame. -/
def fin_rsv_opcode (f : WebSocketFrame) : UInt8 :=
  (if f.fin then 0x80 else 0x00 : UInt8) ||| ((f.rsv &&& 0x07) <<< 4) ||| (f.opcode.toByte &&& 0x0F)

/-- The length fields fit the payload. -/
structure Coded (f : WebSocketFrame) : Prop where
  small : f.data.length < 2 ^ 63
  len : f.len = UInt64.ofNat f.data.length
  len_code : f.len_code.toNat = f.data.length ∧ f.data.length ≤ 125 ∨
    f.len_code = 126 ∧ f.data.length ≤ 65535 ∨ f.len_code = 127

/-- What a reader makes of such a frame. -/
def received (f : WebSocketFrame) : WebSocketFrame :=
  { complete := true
    fin := fin_rsv_opcode f &&& 0x80 ≠ 0
    rsv := (fin_rsv_opcode f &&& 0x70) >>> 4
    opcode := .ofByte (fin_rsv_opcode f &&& 0x0F)
    mask := f.mask
    len_code := f.len_code
    len := f.len
    mask_key := if f.mask then f.mask_key else 0
    data := f.data }

def lenbuf (f : WebSocketFrame) : Bytes :=
  if f.len_code = 126 then toNetwork 2 f.len.toNat
  else if f.len_code = 127 then toNetwork 8 f.len.toNat
  else []

def maskbuf (f : WebSocketFrame) : Bytes := if f.mask then toNetwork 4 f.mask_key.toNat else []

def wire_data (f : WebSocketFrame) : Bytes := if f.mask then apply_mask f.mask_key f.data else f.data

theorem serialize_parts (f : WebSocketFrame) (rest : Bytes) : f.serialize ++ rest =
    fin_rsv_opcode f :: (f.len_code ||| if f.mask then 0x80 else 0x00) ::
      (lenbuf f ++ (maskbuf f ++ (wire_data f ++ rest))) := by
  simp [WebSocketFrame.serialize, lenbuf, maskbuf, wire_data, fin_rsv_opcode]

theorem length_lenbuf (f : WebSocketFrame) : (lenbuf f).length = length_bytes f.len_code := by
  unfold lenbuf length_bytes
  split
  · simp
  · split <;> simp

theorem length_maskbuf (f : WebSocketFrame) : (maskbuf f).length = if f.mask then 4 else 0 := by
  unfold maskbuf
  split <;> simp

theorem length_wire_data (f : WebSocketFrame) : (wire_data f).length = f.data.length := by
  unfold wire_data
  split
  · simp [apply_mask]
  · rfl

theorem length_byte_cases : ∀ c : Fin 128,
    let code := UInt8.ofNat c.val
    ((code ||| 0x80) &&& 0x7F = code ∧ (code ||| 0x80) &&& 0x80 ≠ 0) ∧
    (code &&& 0x7F = code ∧ code &&& 0x80 = 0) := by
  decide +kernel

theorem Coded.low (coded : Coded f) : f.len_code < 128 := by
  rw [UInt8.lt_iff_toNat_lt]
  rcases coded.len_code with ⟨same, small⟩ | ⟨same, _⟩ | same
  · rw [same]
    exact Nat.lt_of_le_of_lt small (by decide)
  · rw [same]
    decide
  · rw [same]
    decide

theorem Coded.length_byte (coded : Coded f) :
    (f.len_code ||| if f.mask then 0x80 else 0x00) &&& 0x7F = f.len_code ∧
    ((f.len_code ||| if f.mask then 0x80 else 0x00) &&& 0x80 ≠ 0 ↔ f.mask = true) := by
  have low : f.len_code.toNat < 128 := UInt8.lt_iff_toNat_lt.mp coded.low
  have cases := length_byte_cases ⟨f.len_code.toNat, low⟩
  simp only [UInt8.ofNat_toNat] at cases
  cases f.mask with
  | true => exact ⟨cases.1.1, iff_of_true cases.1.2 rfl⟩
  | false => simp [cases.2]

theorem Coded.len_toNat (coded : Coded f) : f.len.toNat = f.data.length := by
  rw [coded.len, UInt64.toNat_ofNat']
  exact Nat.mod_eq_of_lt (by have := coded.small; omega)

theorem Coded.payload_header (coded : Coded f) (rest : Bytes) :
    payload_header (f.serialize ++ rest) = some (2 + length_bytes f.len_code, f.data.length) := by
  have long : ¬ (lenbuf f ++ (maskbuf f ++ (wire_data f ++ rest))).length < length_bytes f.len_code := by
    rw [List.length_append, length_lenbuf]
    omega
  rw [serialize_parts]
  simp only [AoSdl.payload_header, coded.length_byte.1, if_neg long,
    List.take_left' (length_lenbuf f), Option.some.injEq, Prod.mk.injEq, true_and]
  have len := coded.len_toNat
  rcases coded.len_code with ⟨same, small⟩ | ⟨same, small⟩ | same
  · have none : length_bytes f.len_code = 0 := by
      have apart : f.len_code ≠ 126 ∧ f.len_code ≠ 127 := by
        constructor <;> intro other <;> rw [other] at same <;> exact absurd (same ▸ small) (by decide)
      rw [length_bytes, if_neg apart.1, if_neg apart.2]
    rw [if_pos none, same]
  · have two : length_bytes f.len_code ≠ 0 := by rw [same]; decide
    rw [if_neg two, lenbuf, if_pos same, ofNetwork_toNetwork, len]
    exact Nat.mod_eq_of_lt (by omega)
  · have eight : length_bytes f.len_code ≠ 0 := by rw [same]; decide
    have other : f.len_code ≠ 126 := by rw [same]; decide
    rw [if_neg eight, lenbuf, if_neg other, if_pos same, ofNetwork_toNetwork, len]
    exact Nat.mod_eq_of_lt (by have := coded.small; omega)

theorem Coded.build_frame (coded : Coded f) (rest : Bytes) :
    build_frame (f.serialize ++ rest) (2 + length_bytes f.len_code + if f.mask then 4 else 0)
      f.data.length = received f := by
  have front : f.serialize ++ rest = (fin_rsv_opcode f :: (f.len_code ||| if f.mask then 0x80 else 0x00) ::
      (lenbuf f ++ maskbuf f)) ++ (wire_data f ++ rest) := by
    simp [serialize_parts]
  have payload : ((f.serialize ++ rest).drop (2 + length_bytes f.len_code + if f.mask then 4 else 0)).take
      f.data.length = wire_data f := by
    rw [front, List.drop_left', List.take_left' (length_wire_data f)]
    simp only [List.length_cons, List.length_append, length_lenbuf, length_maskbuf]
    omega
  have first : (f.serialize ++ rest).getD 0 0 = fin_rsv_opcode f := by rw [front]; rfl
  have second : (f.serialize ++ rest).getD 1 0 = f.len_code ||| if f.mask then 0x80 else 0x00 := by
    rw [front]
    rfl
  have bit := coded.length_byte.2
  unfold AoSdl.build_frame
  simp only [payload, first, second, coded.length_byte.1, received, bit]
  cases masked : f.mask with
  | false => simp [masked, wire_data, coded.len]
  | true =>
    have key : ((f.serialize ++ rest).drop (2 + length_bytes f.len_code + 4 - 4)).take 4 =
        toNetwork 4 f.mask_key.toNat := by
      have parts : f.serialize ++ rest = (fin_rsv_opcode f :: (f.len_code ||| if f.mask then 0x80 else 0x00) ::
          lenbuf f) ++ (maskbuf f ++ (wire_data f ++ rest)) := by
        simp [serialize_parts]
      rw [parts, List.drop_left', List.take_left', maskbuf, if_pos masked]
      · rw [length_maskbuf, if_pos masked]
      · simp only [List.length_cons, length_lenbuf]
        omega
    have same : UInt32.ofNat (ofNetwork (toNetwork 4 f.mask_key.toNat)) = f.mask_key := by
      rw [ofNetwork_toNetwork, ← UInt32.toNat_inj, UInt32.toNat_ofNat']
      have := f.mask_key.toNat_lt
      omega
    simp only [if_true, key, same, decide_true, Bool.true_and, coded.len, wire_data, masked,
      apply_mask_apply_mask]
    cases empty : (apply_mask f.mask_key f.data).isEmpty with
    | false => rfl
    | true =>
      have none : f.data = [] := by
        have := congrArg List.length (List.isEmpty_iff.mp empty)
        simpa [apply_mask] using this
      simp [none, apply_mask]

theorem Coded.server_reads (coded : Coded f) (rest : Bytes) :
    next_frame (f.serialize ++ rest) = some (some (received f), rest) := by
  have second : (f.serialize ++ rest).getD 1 0 = f.len_code ||| if f.mask then 0x80 else 0x00 := by
    rw [serialize_parts]
    rfl
  have size : (if (f.serialize ++ rest).getD 1 0 &&& 0x80 ≠ 0 then 2 + length_bytes f.len_code + 4
      else 2 + length_bytes f.len_code) = 2 + length_bytes f.len_code + if f.mask then 4 else 0 := by
    rw [second]
    simp only [coded.length_byte.2]
    split <;> rfl
  have long := length_bytes_le f.len_code
  have small := coded.small
  have whole : (f.serialize).length = 2 + length_bytes f.len_code + (if f.mask then 4 else 0) + f.data.length := by
    have parts := congrArg List.length (serialize_parts f [])
    simp only [List.append_nil, List.length_cons, List.length_append, length_lenbuf, length_maskbuf,
      length_wire_data] at parts
    omega
  have needed : (2 + length_bytes f.len_code + (if f.mask then 4 else 0) + f.data.length) % 2 ^ 64 =
      f.serialize.length := by
    rw [← whole]
    refine Nat.mod_eq_of_lt ?_
    rw [whole]
    split <;> omega
  unfold next_frame
  rw [coded.payload_header rest]
  dsimp only
  rw [size, needed, if_neg (by simp), if_neg (by omega), coded.build_frame rest, List.drop_left]

theorem Coded.client_reads (coded : Coded f) (plain : f.mask = false) (rest : Bytes) :
    WebSocket.next_frame (f.serialize ++ rest) = some (some (received f), rest) := by
  have second : (f.serialize ++ rest).getD 1 0 = f.len_code ||| if f.mask then 0x80 else 0x00 := by
    rw [serialize_parts]
    rfl
  have unmasked : ¬ ((f.serialize ++ rest).getD 1 0 &&& 0x80 ≠ 0) := by
    rw [second, coded.length_byte.2, plain]
    exact Bool.false_ne_true
  have server := coded.server_reads rest
  have two : ¬ (f.serialize ++ rest).length < 2 := by
    rw [serialize_parts]
    simp
  unfold WebSocket.next_frame
  rw [if_neg two, if_neg unmasked, coded.payload_header rest]
  unfold next_frame at server
  rw [coded.payload_header rest] at server
  dsimp only at server ⊢
  rw [if_neg unmasked] at server
  have small : ¬ 2 ^ 63 ≤ f.data.length := by
    have := coded.small
    omega
  rw [if_neg small] at server ⊢
  exact server

/-- The frame with as much of the payload as the two bytes of its length field say. -/
def truncated (f : WebSocketFrame) : WebSocketFrame :=
  { f with
    len := UInt64.ofNat (f.data.length % 65536)
    data := f.data.take (f.data.length % 65536) }

theorem truncated_coded (code : f.len_code = 126) : Coded (truncated f) := by
  have low : f.data.length % 65536 < 65536 := Nat.mod_lt _ (by decide)
  have long : (truncated f).data.length = f.data.length % 65536 := by
    have := Nat.mod_le f.data.length 65536
    simp only [truncated, List.length_take]
    omega
  exact ⟨by rw [long]; omega, by rw [long]; rfl, .inr (.inl ⟨code, by rw [long]; omega⟩)⟩

/-- On the wire the rest of the payload is behind it. -/
theorem serialize_truncated (code : f.len_code = 126) (len : f.len.toNat = f.data.length) (rest : Bytes) :
    f.serialize ++ rest = (truncated f).serialize ++
      ((wire_data f).drop (f.data.length % 65536) ++ rest) := by
  have length : toNetwork 2 (truncated f).len.toNat = toNetwork 2 f.len.toNat := by
    have low : f.data.length % 65536 < 2 ^ 64 := Nat.lt_trans (Nat.mod_lt _ (by decide)) (by decide)
    have trunc : (truncated f).len.toNat = f.data.length % 65536 := by
      rw [truncated, UInt64.toNat_ofNat', Nat.mod_eq_of_lt low]
    rw [trunc, len]
    exact toNetwork_mod 2 f.data.length
  have wire : wire_data (truncated f) = (wire_data f).take (f.data.length % 65536) := by
    unfold wire_data
    show (if f.mask then apply_mask f.mask_key (f.data.take _) else f.data.take _) = _
    split
    · exact apply_mask_take _ _ _
    · rfl
  have lengths : lenbuf (truncated f) = lenbuf f := by
    rw [lenbuf, if_pos (show (truncated f).len_code = 126 from code), length, lenbuf, if_pos code]
  rw [serialize_parts, serialize_parts, lengths, wire, ← List.append_assoc (List.take _ _),
    List.take_append_drop]
  rfl

end Coded

/-- A frame that either side writes. -/
inductive Emitted where
  | send (data : Bytes)
  | broadcast (data : Bytes)
  | queue_send (data : Bytes)
  | stop
  | close_client (code : UInt16) (reason : Bytes)
  /-- The answer to a `CLOSE` with these data. -/
  | close_response (data : Bytes)
  /-- The answer to a `PING` with these data. -/
  | pong (data : Bytes)
  | client_write (data : Bytes) (mask_key : UInt32)
  | client_pong (data : Bytes) (mask_key : UInt32)
  | client_close (code : UInt16) (reason : Bytes) (mask_key : UInt32)

namespace Emitted

def frame : Emitted → WebSocketFrame
  | send data | broadcast data | queue_send data => WebSocketServer.text_frame data
  | stop => WebSocketServer.close_frame 1001 []
  | close_client code reason => WebSocketServer.close_frame code reason
  | close_response data => WebSocketServer.close_response data
  | pong data => WebSocketServer.pong data
  | client_write data mask_key => WebSocket.text_frame data mask_key
  | client_pong data mask_key => WebSocket.pong data mask_key
  | client_close code reason mask_key => WebSocket.close_frame code reason mask_key

def by_client : Emitted → Bool
  | client_write .. | client_pong .. | client_close .. => true
  | _ => false

/-- What the other side's reader takes off these bytes. -/
def peer_reads (e : Emitted) (bytes : Bytes) : Option (Option WebSocketFrame × Bytes) :=
  if e.by_client then next_frame bytes else WebSocket.next_frame bytes

/-- The other side reads the frame that was written and leaves what is behind it. -/
def RoundTrip (e : Emitted) (rest : Bytes) : Prop :=
  ∃ f, e.peer_reads (e.frame.serialize ++ rest) = some (some f, rest) ∧
    f.opcode = e.frame.opcode ∧ f.fin = e.frame.fin ∧ f.data = e.frame.data

/-- A `PONG` that is longer than its length field can say. -/
def long_pong : Emitted → Bool
  | pong data | client_pong data _ => 65535 < data.length
  | _ => false

variable {e : Emitted} {rest : Bytes}

theorem code_of_short {data : Bytes} (short : data.length ≤ 125) :
    (UInt8.ofNat data.length).toNat = data.length := by
  rw [UInt8.toNat_ofNat']
  omega

theorem coded (e : Emitted) (small : e.frame.data.length < 2 ^ 63) (short : e.long_pong = false) :
    Coded e.frame := by
  have text : ∀ data : Bytes, (WebSocketServer.text_frame data).len_code.toNat = data.length ∧
      data.length ≤ 125 ∨ (WebSocketServer.text_frame data).len_code = 126 ∧ data.length ≤ 65535 ∨
      (WebSocketServer.text_frame data).len_code = 127 := by
    intro data
    unfold WebSocketServer.text_frame
    dsimp only
    split
    · next low => exact .inl ⟨code_of_short low, low⟩
    · split
      · next mid => exact .inr (.inl ⟨rfl, mid⟩)
      · exact .inr (.inr rfl)
  have reply : ∀ data : Bytes, data.length ≤ 65535 →
      (if data.length ≤ 125 then UInt8.ofNat data.length else 126).toNat = data.length ∧
      data.length ≤ 125 ∨ (if data.length ≤ 125 then UInt8.ofNat data.length else 126) = 126 ∧
      data.length ≤ 65535 ∨ (if data.length ≤ 125 then UInt8.ofNat data.length else 126) = 127 := by
    intro data mid
    split
    · next low => exact .inl ⟨code_of_short low, low⟩
    · exact .inr (.inl ⟨rfl, mid⟩)
  have close : ∀ (code : UInt16) (reason : Bytes), (toNetwork 2 code.toNat ++ reason.take 123).length ≤ 125 := by
    intro code reason
    simp
    omega
  refine ⟨small, ?_, ?_⟩
  · cases e <;> rfl
  · cases e with
    | send data | broadcast data | queue_send data | client_write data _ => exact text data
    | stop => exact .inl ⟨code_of_short (close 1001 []), close 1001 []⟩
    | close_client code reason | client_close code reason _ =>
      exact .inl ⟨code_of_short (close code reason), close code reason⟩
    | close_response data =>
      have low : (WebSocketServer.close_response data).data.length ≤ 125 := by
        unfold WebSocketServer.close_response
        dsimp only
        split <;> simp
      exact .inl ⟨code_of_short low, low⟩
    | pong data | client_pong data _ => exact reply data (by simpa [long_pong] using short)

theorem reads (coded : Coded e.frame) (rest : Bytes) :
    e.peer_reads (e.frame.serialize ++ rest) = some (some (received e.frame), rest) := by
  unfold peer_reads
  cases side : e.by_client with
  | true => exact coded.server_reads rest
  | false =>
    refine coded.client_reads ?_ rest
    cases e <;> first | rfl | cases side

theorem received_header (e : Emitted) :
    (received e.frame).opcode = e.frame.opcode ∧ (received e.frame).fin = e.frame.fin := by
  have fin : e.frame.fin = true := by cases e <;> rfl
  have rsv : e.frame.rsv = 0 := by cases e <;> rfl
  have opcode : e.frame.opcode = .TEXT ∨ e.frame.opcode = .CLOSE ∨ e.frame.opcode = .PONG := by
    cases e <;> first | exact .inl rfl | exact .inr (.inl rfl) | exact .inr (.inr rfl)
  unfold received fin_rsv_opcode
  dsimp only
  rw [fin, rsv]
  rcases opcode with opcode | opcode | opcode
  all_goals
    rw [opcode]
    decide

theorem reads_long_pong (small : e.frame.data.length < 2 ^ 63) (long : e.long_pong = true) (rest : Bytes) :
    ∃ f behind, e.peer_reads (e.frame.serialize ++ rest) = some (some f, behind) ∧
      f.data.length < e.frame.data.length := by
  have code : e.frame.len_code = 126 ∧ 65535 < e.frame.data.length := by
    cases e with
    | pong data | client_pong data _ =>
      have more : 65535 < data.length := by simpa [long_pong] using long
      exact ⟨if_neg (by omega), more⟩
    | _ => cases long
  have len : e.frame.len.toNat = e.frame.data.length := by
    have field : e.frame.len = UInt64.ofNat e.frame.data.length := by cases e <;> rfl
    rw [field, UInt64.toNat_ofNat']
    exact Nat.mod_eq_of_lt (by omega)
  have fewer : (received (truncated e.frame)).data.length < e.frame.data.length := by
    have := Nat.mod_lt e.frame.data.length (show 65536 > 0 by decide)
    show (e.frame.data.take (e.frame.data.length % 65536)).length < e.frame.data.length
    rw [List.length_take]
    omega
  refine ⟨received (truncated e.frame), (wire_data e.frame).drop (e.frame.data.length % 65536) ++ rest,
    ?_, fewer⟩
  rw [serialize_truncated code.1 len]
  unfold peer_reads
  cases side : e.by_client with
  | true => exact (truncated_coded code.1).server_reads _
  | false =>
    refine (truncated_coded code.1).client_reads ?_ _
    cases e <;> first | rfl | cases side

/-- Every frame makes the round trip but for the pongs that are too long for their length field. -/
theorem round_trip_iff (e : Emitted) (rest : Bytes) (small : e.frame.data.length < 2 ^ 63) :
    e.RoundTrip rest ↔ e.long_pong = false := by
  constructor
  · rintro ⟨f, read, _, _, same⟩
    by_contra long
    obtain ⟨g, behind, read', fewer⟩ := reads_long_pong small (Bool.eq_true_of_not_eq_false long) rest
    rw [read] at read'
    cases read'
    rw [same] at fewer
    exact lt_irrefl _ fewer
  · intro short
    obtain ⟨opcode, fin⟩ := received_header e
    exact ⟨received e.frame, reads (coded e small short) rest, opcode, fin, rfl⟩

theorem round_trip_masked :
    (client_write (List.replicate 126 7) 0x01020304).RoundTrip [0, 1] :=
  (round_trip_iff _ _ (by decide +kernel)).mpr rfl

/-- The echo of a ping of 65536 bytes claims to be empty. -/
theorem long_pong_cut : ¬ (pong (List.replicate 65536 0)).RoundTrip [] := by
  have size : (List.replicate 65536 (0 : UInt8)).length = 65536 := List.length_replicate
  generalize List.replicate 65536 (0 : UInt8) = data at size ⊢
  rintro ⟨f, read, _, _, same⟩
  have small : (pong data).frame.data.length < 2 ^ 63 := by
    show data.length < _
    rw [size]
    decide
  obtain ⟨g, behind, read', fewer⟩ := reads_long_pong small (decide_eq_true (by omega)) []
  rw [read] at read'
  cases read'
  rw [same] at fewer
  exact lt_irrefl _ fewer

end Emitted

end AoSdl
