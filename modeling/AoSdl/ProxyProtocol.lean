import AoSdl.InetAddress
import AoSdl.Lib.Framing
import AoSdl.Lib.Verdicts

/-! The PROXY protocol: the header a proxy writes in front of the bytes of a client, in its two
versions. -/
namespace AoSdl.net
open Lib.Decimal

structure ProxyProtocolResult where
  valid : Bool := false
  need_more_data : Bool := false
  client_addr : Bytes := []
  client_port : UInt16 := 0
  server_addr : Bytes := []
  server_port : UInt16 := 0
  header_length : Nat := 0

def PP2_SIGNATURE : Bytes :=
  [0x0D, 0x0A, 0x0D, 0x0A, 0x00, 0x0D, 0x0A, 0x51, 0x55, 0x49, 0x54, 0x0A]

/-- `%<width>s` of `sscanf`: the word, and what is behind it. -/
def scan_word (width : Nat) (s : Bytes) : Option (Bytes × Bytes) :=
  let s := s.dropWhile isSpace
  let word := (s.takeWhile fun c => !isSpace c).take width
  if word.isEmpty then none else some (word, s.drop word.length)

/-- What `strtoul` makes of digits with a sign in front of them. -/
def strtoul (negative : Bool) (n : Nat) : UInt64 :=
  if 2 ^ 64 ≤ n then UInt64.ofNat (2 ^ 64 - 1)
  else if negative then -UInt64.ofNat n else UInt64.ofNat n

/-- `%u` of `sscanf`. -/
def scan_unsigned (s : Bytes) : Option (UInt32 × Bytes) :=
  let s := s.dropWhile isSpace
  let negative := s.head? = some 45
  let s := if negative || s.head? = some 43 then s.drop 1 else s
  (readNat s).map fun n => ((strtoul negative n).toUInt32, s.dropWhile isDigit)

/-- `sscanf` of `"%7s %63s %63s %u %u"`, where all five are there. -/
def scan_addresses (s : Bytes) : Option (Bytes × Bytes × Bytes × UInt32 × UInt32) := do
  let (proto, s) ← scan_word 7 s
  let (src_ip, s) ← scan_word 63 s
  let (dst_ip, s) ← scan_word 63 s
  let (src_port, s) ← scan_unsigned s
  let (dst_port, _) ← scan_unsigned s
  return (proto, src_ip, dst_ip, src_port, dst_port)

/-- The address is one of its family. -/
def valid_address (proto src_ip : Bytes) : Bool :=
  if proto = bytes "TCP4" then (inet_pton4 src_ip).isSome else (inet_pton6 src_ip).isSome

/-- The line of a v1 header. -/
def parse_v1_line (line : Bytes) : ProxyProtocolResult :=
  let result : ProxyProtocolResult := { header_length := line.length + 2 }
  if line.length < 7 then result
  else
    let rest := line.drop 6
    if bytes "UNKNOWN" <+: rest then { result with valid := true }
    else
      match scan_addresses (c_str rest) with
      | none => result
      | some (proto, src_ip, dst_ip, src_port, dst_port) =>
        if proto ≠ bytes "TCP4" && proto ≠ bytes "TCP6" then result
        else if !valid_address proto src_ip then result
        else
          { result with
            valid := true, client_addr := src_ip, client_port := src_port.toUInt16
            server_addr := dst_ip, server_port := dst_port.toUInt16 }

/-- The line end is looked for in the first 108 bytes. -/
def parse_v1 (data : Bytes) : ProxyProtocolResult :=
  match Lib.Framing.cutAt 13 10 (data.take 108) with
  | none => { need_more_data := data.length < 108 }
  | some (line, _) => parse_v1_line line

def be16 (high low : UInt8) : UInt16 := (high.toUInt16 <<< 8) ||| low.toUInt16

/-- A v2 header that is all there. -/
def parse_v2_addresses (command family : UInt8) (addr_data : Bytes) (total_len : Nat) :
    ProxyProtocolResult :=
  let result : ProxyProtocolResult := { header_length := total_len }
  let at_ (i : Nat) : UInt8 := addr_data.getD i 0
  if command = 0 then { result with valid := true }
  else if command ≠ 1 then result
  else if family = 1 && 12 ≤ addr_data.length then
    { result with
      valid := true
      client_addr := inet_ntop4 (addr_data.take 4)
      server_addr := inet_ntop4 ((addr_data.drop 4).take 4)
      client_port := be16 (at_ 8) (at_ 9), server_port := be16 (at_ 10) (at_ 11) }
  else if family = 2 && 36 ≤ addr_data.length then
    { result with
      valid := true
      client_addr := inet_ntop6 (addr_data.take 16)
      server_addr := inet_ntop6 ((addr_data.drop 16).take 16)
      client_port := be16 (at_ 32) (at_ 33), server_port := be16 (at_ 34) (at_ 35) }
  else if family = 0 then { result with valid := true }
  else result

def parse_v2 (data : Bytes) : ProxyProtocolResult :=
  if data.length < 16 then { need_more_data := true }
  else
    let ver_cmd := data.getD 12 0
    if ver_cmd >>> 4 ≠ 2 then {}
    else
      let family := data.getD 13 0 >>> 4
      let addr_len := (be16 (data.getD 14 0) (data.getD 15 0)).toNat
      let total_len := 16 + addr_len
      if data.length < total_len then { need_more_data := true }
      else parse_v2_addresses (ver_cmd &&& 0x0F) family ((data.drop 16).take addr_len) total_len

def parse_proxy_protocol (data : Bytes) : ProxyProtocolResult :=
  if data.isEmpty then { need_more_data := true }
  else if bytes "PROXY " <+: data then parse_v1 data
  else if PP2_SIGNATURE <+: data then parse_v2 data
  else if data.length < 6 && data <+: bytes "PROXY " then { need_more_data := true }
  else if data.length < PP2_SIGNATURE.length && data <+: PP2_SIGNATURE then { need_more_data := true }
  else {}

/-- A header of either version that names an address or says that there is none. -/
structure ValidHeader (header : Bytes) : Prop where
  valid : (parse_proxy_protocol header).valid
  whole : (parse_proxy_protocol header).header_length = header.length

section Proof

open Lib.Framing

variable {header data p q s t signature : Bytes}

theorem parse_v1_line_spec (line : Bytes) :
    (parse_v1_line line).header_length = line.length + 2 ∧
      (parse_v1_line line).need_more_data = false := by
  unfold parse_v1_line
  dsimp only
  split
  · exact ⟨rfl, rfl⟩
  · split
    · exact ⟨rfl, rfl⟩
    · split
      · exact ⟨rfl, rfl⟩
      · split
        · exact ⟨rfl, rfl⟩
        · split <;> exact ⟨rfl, rfl⟩

theorem parse_v2_addresses_spec (command family : UInt8) (addr_data : Bytes) (total_len : Nat) :
    (parse_v2_addresses command family addr_data total_len).header_length = total_len ∧
      (parse_v2_addresses command family addr_data total_len).need_more_data = false := by
  unfold parse_v2_addresses
  dsimp only
  split
  · exact ⟨rfl, rfl⟩
  · split
    · exact ⟨rfl, rfl⟩
    · split
      · exact ⟨rfl, rfl⟩
      · split
        · exact ⟨rfl, rfl⟩
        · split <;> exact ⟨rfl, rfl⟩

theorem starts_before {a b : Bytes} {c : UInt8} (other : c ∉ p) (starts : p <+: a ++ c :: b) : p <+: a := by
  rcases List.prefix_or_prefix_of_prefix starts (List.prefix_append a (c :: b)) with inside | ⟨rest, longer⟩
  · exact inside
  · obtain ⟨tail, text⟩ := starts
    rw [← longer, List.append_assoc] at text
    cases rest with
    | nil => exact ⟨[], by rw [← longer]; simp⟩
    | cons d rest =>
      have same := (List.cons.inj (List.append_cancel_left text)).1
      exact absurd (longer ▸ same ▸ List.mem_append_right a List.mem_cons_self) other

/-- A v1 header is one line. -/
structure IsV1 (header line : Bytes) : Prop where
  text : header = line ++ [13, 10]
  clean : ¬ [13, 10] <:+: line
  starts : bytes "PROXY " <+: line
  short : header.length ≤ 108

/-- A v2 header gives its own length. -/
structure IsV2 (header : Bytes) : Prop where
  starts : PP2_SIGNATURE <+: header
  version : header.getD 12 0 >>> 4 = 2
  length : header.length = 16 + (be16 (header.getD 14 0) (header.getD 15 0)).toNat

theorem ValidHeader.version (valid : ValidHeader header) : (∃ line, IsV1 header line) ∨ IsV2 header := by
  obtain ⟨accepted, whole⟩ := valid
  unfold parse_proxy_protocol at accepted whole
  split at accepted
  · cases accepted
  · next some =>
    rw [if_neg some] at whole
    split at accepted
    · next starts =>
      rw [if_pos starts] at whole
      unfold parse_v1 at accepted whole
      cases cut : cutAt 13 10 (header.take 108) with
      | none => simp [cut] at accepted
      | some frame =>
        obtain ⟨line, rest⟩ := frame
        simp only [cut, (parse_v1_line_spec line).1] at whole
        have text := cutAt_eq cut
        have lengths := congrArg List.length text
        simp only [List.length_take, List.length_append, List.length_cons] at lengths
        obtain rfl := List.length_eq_zero_iff.mp (by omega : rest.length = 0)
        have all : header.take 108 = header := List.take_of_length_le (by omega)
        rw [all] at text
        refine .inl ⟨line, text, cutAt_clean cut, starts_before (by decide) (text ▸ starts), by omega⟩
    · next other =>
      rw [if_neg other] at whole
      split at accepted
      · next starts =>
        rw [if_pos starts] at whole
        unfold parse_v2 at accepted whole
        split at accepted
        · cases accepted
        · next long =>
          rw [if_neg long] at whole
          dsimp only at accepted whole
          split at accepted
          · cases accepted
          · next two =>
            rw [if_neg two] at whole
            split at accepted
            · cases accepted
            · next all =>
              rw [if_neg all, (parse_v2_addresses_spec _ _ _ _).1] at whole
              exact .inr ⟨starts, Decidable.not_not.mp two, whole.symm⟩
      · split at accepted
        · cases accepted
        · split at accepted <;> cases accepted

theorem not_v1_of_v2 (starts : PP2_SIGNATURE <+: data) : ¬ bytes "PROXY " <+: data := by
  obtain ⟨rest, rfl⟩ := starts
  rintro ⟨tail, text⟩
  exact absurd (List.cons.inj text).1 (by decide)

theorem ValidHeader.filled (valid : ValidHeader header) : header ≠ [] := by
  rintro rfl
  rcases valid.version with ⟨line, v1⟩ | v2
  · exact absurd v1.text (by simp)
  · exact absurd v2.length (by decide)

theorem ValidHeader.line_end (valid : ValidHeader header) : [13, 10] <:+: header := by
  rcases valid.version with ⟨line, v1⟩ | v2
  · exact v1.text ▸ (List.suffix_append line [13, 10]).isInfix
  · exact (List.IsPrefix.trans (by decide : [13, 10] <+: PP2_SIGNATURE) v2.starts).isInfix

theorem IsV1.parse {line : Bytes} (v1 : IsV1 header line) (rest : Bytes) :
    parse_proxy_protocol (header ++ rest) = parse_v1_line line := by
  have some : (header ++ rest).isEmpty = false := by simp [v1.text]
  have starts : bytes "PROXY " <+: header ++ rest := by
    rw [v1.text, List.append_assoc]
    exact v1.starts.trans (List.prefix_append _ _)
  have front : (header ++ rest).take 108 = line ++ 13 :: 10 :: rest.take (108 - header.length) := by
    rw [List.take_append, List.take_of_length_le v1.short, v1.text]
    simp
  rw [parse_proxy_protocol, if_neg (by simp [some]), if_pos starts, parse_v1, front,
    cutAt_append (by decide) v1.clean]

/-- The addresses of a v2 header. -/
def v2_addresses (header : Bytes) : ProxyProtocolResult :=
  parse_v2_addresses (header.getD 12 0 &&& 0x0F) (header.getD 13 0 >>> 4) (header.drop 16) header.length

theorem IsV2.parse (v2 : IsV2 header) (rest : Bytes) :
    parse_proxy_protocol (header ++ rest) = v2_addresses header := by
  have total := v2.length
  have long : 16 ≤ header.length := total ▸ Nat.le_add_right _ _
  have at_ (i : Nat) (inside : i < 16) : (header ++ rest).getD i 0 = header.getD i 0 := by
    rw [List.getD_eq_getElem?_getD, List.getElem?_append_left (by omega), List.getD_eq_getElem?_getD]
  have starts := v2.starts.trans (List.prefix_append header rest)
  have some : ¬ (header ++ rest).isEmpty = true := by
    obtain ⟨tail, text⟩ := starts
    rw [← text]
    simp [PP2_SIGNATURE]
  have addr_data : ((header ++ rest).drop 16).take (be16 (header.getD 14 0) (header.getD 15 0)).toNat =
      header.drop 16 := by
    rw [List.drop_append_of_le_length long, List.take_append_of_le_length (by
      rw [List.length_drop]
      omega), List.take_of_length_le (by rw [List.length_drop]; omega)]
  have enough : header.length ≤ (header ++ rest).length := by
    rw [List.length_append]
    exact Nat.le_add_right _ _
  rw [parse_proxy_protocol, if_neg some, if_neg (not_v1_of_v2 starts), if_pos starts]
  unfold parse_v2
  dsimp only
  rw [at_ 12 (by decide), at_ 13 (by decide), at_ 14 (by decide), at_ 15 (by decide), addr_data, ← total,
    if_neg (Nat.not_lt.mpr (long.trans enough)), if_neg (by rw [v2.version]; simp),
    if_neg (Nat.not_lt.mpr enough)]
  rfl

/-- What comes behind a header does not change it, and a header is not waited for. -/
theorem ValidHeader.parse_append (valid : ValidHeader header) (rest : Bytes) :
    parse_proxy_protocol (header ++ rest) = parse_proxy_protocol header ∧
      (parse_proxy_protocol header).need_more_data = false := by
  have alone := List.append_nil header
  rcases valid.version with ⟨line, v1⟩ | v2
  · have parsed := v1.parse []
    rw [alone] at parsed
    rw [v1.parse, parsed]
    exact ⟨rfl, (parse_v1_line_spec line).2⟩
  · have parsed := v2.parse []
    rw [alone] at parsed
    rw [v2.parse, parsed]
    exact ⟨rfl, (parse_v2_addresses_spec _ _ _ _).2⟩

/-! Bytes that still come: what is decided stays. -/

/-- More bytes may make the signature whole. -/
def Unfinished (signature s : Bytes) : Prop := s <+: signature ∧ s.length < signature.length

/-- No more bytes make a header with the signature of these. -/
structure Apart (signature s : Bytes) : Prop where
  other : ¬ signature <+: s
  finished : ¬ Unfinished signature s

theorem Apart.append (apart : Apart signature s) (t : Bytes) : Apart signature (s ++ t) := by
  have front := List.prefix_append s t
  constructor
  · intro starts
    rcases List.prefix_or_prefix_of_prefix starts front with whole | begun
    · exact apart.other whole
    · refine apart.finished ⟨begun, Nat.lt_of_not_le fun long => ?_⟩
      exact apart.other (begun.eq_of_length_le long ▸ List.prefix_rfl)
  · rintro ⟨starts, short⟩
    exact apart.finished ⟨front.trans starts, Nat.lt_of_le_of_lt front.length_le short⟩

theorem parse_v1_stable (decided : (parse_v1 s).need_more_data = false) (t : Bytes) :
    parse_v1 (s ++ t) = parse_v1 s := by
  unfold parse_v1 at decided ⊢
  rw [List.take_append]
  cases cut : cutAt 13 10 (s.take 108) with
  | some frame =>
    have kept : cutAt 13 10 (s.take 108 ++ t.take (108 - s.length)) =
        some (frame.1, frame.2 ++ t.take (108 - s.length)) :=
      (delimited 13 10 cr_ne_lf).stable (t.take (108 - s.length)) cut
    rw [kept]
  | none =>
    simp only [cut, decide_eq_false_iff_not] at decided
    have long : 108 ≤ s.length := Nat.not_lt.mp decided
    rw [Nat.sub_eq_zero_of_le long, List.take_zero, List.append_nil, cut]
    have longer : ¬ s.length + t.length < 108 := by omega
    simp [decided, longer]

theorem parse_v1_inside (s : Bytes) : (parse_v1 s).header_length ≤ s.length := by
  unfold parse_v1
  cases cut : cutAt 13 10 (s.take 108) with
  | none => exact Nat.zero_le _
  | some frame =>
    have lengths := congrArg List.length (cutAt_eq cut)
    simp only [List.length_take, List.length_append, List.length_cons] at lengths
    simp only [(parse_v1_line_spec frame.1).1]
    omega

theorem parse_v2_stable (decided : (parse_v2 s).need_more_data = false) (t : Bytes) :
    parse_v2 (s ++ t) = parse_v2 s := by
  unfold parse_v2 at decided ⊢
  dsimp only at decided ⊢
  split at decided
  · cases decided
  · next long =>
    have at_ (i : Nat) (inside : i < 16) : (s ++ t).getD i 0 = s.getD i 0 := by
      rw [List.getD_eq_getElem?_getD, List.getElem?_append_left (by omega), List.getD_eq_getElem?_getD]
    have longer : ¬ (s ++ t).length < 16 := by
      rw [List.length_append]
      omega
    rw [at_ 12 (by decide), at_ 13 (by decide), at_ 14 (by decide), at_ 15 (by decide), if_neg long,
      if_neg longer]
    split at decided
    · next other => rw [if_pos other, if_pos other]
    · next two =>
      rw [if_neg two, if_neg two]
      split at decided
      · cases decided
      · next whole =>
        have whole_longer : ¬ (s ++ t).length < 16 + (be16 (s.getD 14 0) (s.getD 15 0)).toNat := by
          rw [List.length_append]
          omega
        rw [if_neg whole, if_neg whole_longer, List.drop_append_of_le_length (by omega),
          List.take_append_of_le_length (by simp only [List.length_drop]; omega)]

theorem parse_v2_inside (s : Bytes) : (parse_v2 s).header_length ≤ s.length := by
  unfold parse_v2
  dsimp only
  split
  · exact Nat.zero_le _
  · split
    · exact Nat.zero_le _
    · split
      · exact Nat.zero_le _
      · next whole =>
        rw [(parse_v2_addresses_spec _ _ _ _).1]
        exact Nat.not_lt.mp whole

theorem parse_of_v1 (starts : bytes "PROXY " <+: s) : parse_proxy_protocol s = parse_v1 s := by
  have some : s ≠ [] := by
    rintro rfl
    exact absurd starts (by decide)
  rw [parse_proxy_protocol, if_neg (by simpa using some), if_pos starts]

theorem parse_of_v2 (starts : PP2_SIGNATURE <+: s) : parse_proxy_protocol s = parse_v2 s := by
  have some : s ≠ [] := by
    rintro rfl
    exact absurd starts (by decide)
  rw [parse_proxy_protocol, if_neg (by simpa using some), if_neg (not_v1_of_v2 starts), if_pos starts]

theorem parse_unfinished (no_v1 : ¬ bytes "PROXY " <+: s) (no_v2 : ¬ PP2_SIGNATURE <+: s)
    (unfinished : Unfinished (bytes "PROXY ") s ∨ Unfinished PP2_SIGNATURE s) :
    parse_proxy_protocol s = { need_more_data := true } := by
  rw [parse_proxy_protocol, if_neg no_v1, if_neg no_v2]
  split
  · rfl
  · split
    · rfl
    · next other =>
      rcases unfinished with ⟨starts, short⟩ | ⟨starts, short⟩
      · exact absurd (show s.length < 6 from short) (by simpa [starts] using other)
      · rw [if_pos (by simp [starts, short])]

theorem parse_apart (v1 : Apart (bytes "PROXY ") s) (v2 : Apart PP2_SIGNATURE s) :
    parse_proxy_protocol s = {} := by
  have some : s ≠ [] := by
    rintro rfl
    exact v1.finished ⟨List.nil_prefix, by decide⟩
  have no_v1 : ¬ (s.length < 6 ∧ s <+: bytes "PROXY ") := fun ⟨short, starts⟩ => v1.finished ⟨starts, short⟩
  have no_v2 : ¬ (s.length < PP2_SIGNATURE.length ∧ s <+: PP2_SIGNATURE) := fun ⟨short, starts⟩ =>
    v2.finished ⟨starts, short⟩
  rw [parse_proxy_protocol, if_neg (by simpa using some), if_neg v1.other, if_neg v2.other,
    if_neg (by simpa using no_v1), if_neg (by simpa using no_v2)]

/-- The bytes start a header of one version, may still come to start one, or start none. -/
inductive Stage (s : Bytes) : Prop where
  | v1 (starts : bytes "PROXY " <+: s) (parsed : parse_proxy_protocol s = parse_v1 s)
  | v2 (starts : PP2_SIGNATURE <+: s) (parsed : parse_proxy_protocol s = parse_v2 s)
  | unfinished (front : Unfinished (bytes "PROXY ") s ∨ Unfinished PP2_SIGNATURE s)
    (parsed : parse_proxy_protocol s = { need_more_data := true })
  | none (v1 : Apart (bytes "PROXY ") s) (v2 : Apart PP2_SIGNATURE s) (parsed : parse_proxy_protocol s = {})

theorem stage (s : Bytes) : Stage s := by
  by_cases starts₁ : bytes "PROXY " <+: s
  · exact .v1 starts₁ (parse_of_v1 starts₁)
  · by_cases starts₂ : PP2_SIGNATURE <+: s
    · exact .v2 starts₂ (parse_of_v2 starts₂)
    · by_cases front : Unfinished (bytes "PROXY ") s ∨ Unfinished PP2_SIGNATURE s
      · exact .unfinished front (parse_unfinished starts₁ starts₂ front)
      · obtain ⟨finished₁, finished₂⟩ := not_or.mp front
        exact .none ⟨starts₁, finished₁⟩ ⟨starts₂, finished₂⟩
          (parse_apart ⟨starts₁, finished₁⟩ ⟨starts₂, finished₂⟩)

theorem parse_stable (decided : (parse_proxy_protocol s).need_more_data = false) (t : Bytes) :
    parse_proxy_protocol (s ++ t) = parse_proxy_protocol s := by
  cases stage s with
  | v1 starts parsed =>
    rw [parsed] at decided ⊢
    rw [parse_of_v1 (starts.trans (List.prefix_append s t)), parse_v1_stable decided]
  | v2 starts parsed =>
    rw [parsed] at decided ⊢
    rw [parse_of_v2 (starts.trans (List.prefix_append s t)), parse_v2_stable decided]
  | unfinished front parsed =>
    rw [parsed] at decided
    cases decided
  | none v1 v2 parsed => rw [parsed, parse_apart (v1.append t) (v2.append t)]

theorem parse_inside (s : Bytes) : (parse_proxy_protocol s).header_length ≤ s.length := by
  cases stage s with
  | v1 _ parsed => exact parsed ▸ parse_v1_inside s
  | v2 _ parsed => exact parsed ▸ parse_v2_inside s
  | unfinished _ parsed => exact parsed ▸ Nat.zero_le _
  | none _ _ parsed => exact parsed ▸ Nat.zero_le _

/-- The header is waited for until all of it is there. -/
theorem ValidHeader.needs_more (valid : ValidHeader (p ++ q)) (missing : q ≠ []) :
    (parse_proxy_protocol p).need_more_data = true := by
  by_contra decided
  have same := parse_stable (by simpa using decided) q
  have whole := valid.whole
  rw [same, List.length_append] at whole
  have inside := parse_inside p
  have some := List.length_pos_of_ne_nil missing
  omega

/-- What starts neither header is none, or may still become one. -/
theorem parse_other (some : data ≠ []) (no_v1 : ¬ bytes "PROXY " <+: data)
    (no_v2 : ¬ PP2_SIGNATURE <+: data) :
    parse_proxy_protocol data = { need_more_data := true } ∨ parse_proxy_protocol data = {} := by
  rw [parse_proxy_protocol, if_neg (by simpa using some), if_neg no_v1, if_neg no_v2]
  split
  · exact .inl rfl
  · split
    · exact .inl rfl
    · exact .inr rfl

theorem parse_plain {c : UInt8} (no_v1 : c ≠ 80) (no_v2 : c ≠ 13) (rest : Bytes) :
    parse_proxy_protocol (c :: rest) = {} := by
  have starts {s : Bytes} {d : UInt8} {t : Bytes} (shape : s = d :: t) (other : c ≠ d) :
      ¬ s <+: c :: rest ∧ ¬ c :: rest <+: s := by
    subst shape
    exact ⟨fun inside => other (List.cons_prefix_cons.mp inside).1.symm,
      fun inside => other (List.cons_prefix_cons.mp inside).1⟩
  have v1 := starts (s := bytes "PROXY ") rfl no_v1
  have v2 := starts (s := PP2_SIGNATURE) rfl no_v2
  rw [parse_proxy_protocol, if_neg (by simp), if_neg v1.1, if_neg v2.1, if_neg (by simp [v1.2]),
    if_neg (by simp [v2.2])]

end Proof

end AoSdl.net

/-! When a PROXY header is decided: what a parser made of it stays, however many bytes come behind, and
it waits for no more bytes than the header can have. -/
namespace AoSdl.net

open Lib.Framing Lib.Verdicts

/-- The length of the addresses that a v2 header gives. -/
def announced (s : Bytes) : Nat := (be16 (s.getD 14 0) (s.getD 15 0)).toNat

/-- The bytes may become a header with the signature, or do start with it. -/
def Begins (signature s : Bytes) : Prop := s <+: signature ∨ signature <+: s

/-- What comes behind decided bytes changes neither the result nor the length of the header. -/
structure HeaderStable (s : Bytes) : Prop where
  stable : (parse_proxy_protocol s).need_more_data = false → ∀ t,
    parse_proxy_protocol (s ++ t) = parse_proxy_protocol s
  inside : (parse_proxy_protocol s).header_length ≤ s.length
  waits : (parse_proxy_protocol s).need_more_data = true →
    Begins (bytes "PROXY ") s ∧ s.length < 108 ∨ Begins PP2_SIGNATURE s ∧ s.length < 16 + announced s

/-- What is decided about the bytes of a connection; nothing while more of them are waited for. -/
def verdict (s : Bytes) : Option ProxyProtocolResult :=
  if (parse_proxy_protocol s).need_more_data then none else some (parse_proxy_protocol s)

variable {s : Bytes}

theorem parse_v1_waits (waits : (parse_v1 s).need_more_data = true) : s.length < 108 := by
  unfold parse_v1 at waits
  cases cut : cutAt 13 10 (s.take 108) with
  | none => simpa [cut] using waits
  | some frame => simp [cut, (parse_v1_line_spec frame.1).2] at waits

theorem parse_v2_waits (waits : (parse_v2 s).need_more_data = true) : s.length < 16 + announced s := by
  unfold parse_v2 at waits
  dsimp only at waits
  split at waits
  · next short => exact Nat.lt_add_right _ short
  · split at waits
    · cases waits
    · split at waits
      · next short => exact short
      · rw [(parse_v2_addresses_spec _ _ _ _).2] at waits
        cases waits

theorem header_stable (s : Bytes) : HeaderStable s := by
  refine ⟨parse_stable, parse_inside s, fun waits => ?_⟩
  cases stage s with
  | v1 starts parsed =>
    rw [parsed] at waits
    exact .inl ⟨.inr starts, parse_v1_waits waits⟩
  | v2 starts parsed =>
    rw [parsed] at waits
    exact .inr ⟨.inr starts, parse_v2_waits waits⟩
  | unfinished front parsed =>
    rcases front with ⟨starts, short⟩ | ⟨starts, short⟩
    · exact .inl ⟨.inl starts, short.trans (by decide)⟩
    · exact .inr ⟨.inl starts, Nat.lt_add_right _ (short.trans (by decide))⟩
  | none _ _ parsed =>
    rw [parsed] at waits
    cases waits

theorem HeaderStable.bounded (stable : HeaderStable s) (long : 65551 ≤ s.length) :
    (parse_proxy_protocol s).need_more_data = false := by
  cases waits : (parse_proxy_protocol s).need_more_data with
  | false => rfl
  | true =>
    have small : announced s < 2 ^ 16 := UInt16.toNat_lt _
    rcases stable.waits waits with ⟨_, short⟩ | ⟨_, short⟩ <;> omega

/-- The parser decides on bytes that still come. -/
def header_judge : Judge UInt8 ProxyProtocolResult where
  judge := verdict
  stable := by
    intro s r t judged
    unfold verdict at judged ⊢
    split at judged
    · cases judged
    · next decided =>
      have stays := (header_stable s).stable (Bool.eq_false_of_not_eq_true decided) t
      rw [stays, if_neg decided]
      exact judged

/-- However the bytes of a connection are cut, the parser decides the same about them, with the piece
that brings the same last byte, and that is among the first 65551. -/
theorem one_verdict :
    (∀ s, HeaderStable s) ∧
    (∀ segments, (header_judge.feed [] segments).2 = verdict segments.flatten) ∧
    ∀ s : Bytes, 65551 ≤ s.length → ∃ n ≤ 65551, ∀ segments, segments.flatten = s →
      header_judge.feed [] segments =
        (s.take (Lib.Arrivals.reach n segments), some (parse_proxy_protocol s)) := by
  refine ⟨header_stable, fun segments => ?_, fun s long => ?_⟩
  · exact Judge.feed_verdict [] segments
  · have judged {u : Bytes} (enough : 65551 ≤ u.length) : verdict u = some (parse_proxy_protocol u) := by
      rw [verdict, (header_stable u).bounded enough]
      rfl
    have decided : header_judge.judge s ≠ none := by simp [header_judge, judged long]
    obtain ⟨n, _, settles⟩ := Judge.exists_settles decided
    refine ⟨n, Nat.not_lt.mp fun later => ?_, ?_⟩
    · have waits := (settles 65551 long).mpr later
      have first : 65551 ≤ (s.take 65551).length := by simp [long]
      simp [header_judge, judged first] at waits
    · rintro segments rfl
      rw [Judge.feed_eq settles, ← judged long]
      rfl

end AoSdl.net
