import AoSdl.ProxyProtocol
import AoSdl.Lib.Scanning

/-! The line of a PROXY v1 header: what `sscanf` accepts of it, against the grammar of the protocol. -/
namespace AoSdl.net
open Lib.Decimal Lib.Scanning

/-- What `%u` makes of a number. -/
def scanned_port (port : Numeral) : UInt32 := (strtoul (port.sign = [45]) (value port.digits)).toUInt32

/-- The pieces of a text that `"%7s %63s %63s %u %u"` takes. -/
structure V1Pieces where
  front : Bytes
  proto : Bytes
  src_gap : Bytes
  src : Bytes
  dst_gap : Bytes
  dst : Bytes
  sport : Numeral
  dport : Numeral
  tail : Bytes

namespace V1Pieces

variable (p : V1Pieces)

def after_sport : Bytes := p.dport.gap ++ (p.dport.sign ++ (p.dport.digits ++ p.tail))

def after_dst : Bytes := p.sport.gap ++ (p.sport.sign ++ (p.sport.digits ++ p.after_sport))

def after_src : Bytes := p.dst_gap ++ (p.dst ++ p.after_dst)

def after_proto : Bytes := p.src_gap ++ (p.src ++ p.after_src)

/-- The format takes the text apart into these pieces. -/
structure Read (text : Bytes) : Prop where
  proto : Word 7 text p.front p.proto p.after_proto
  src : Word 63 p.after_proto p.src_gap p.src p.after_src
  dst : Word 63 p.after_src p.dst_gap p.dst p.after_dst
  sport : p.sport.Leads p.after_dst p.after_sport
  dport : p.dport.Leads p.after_sport p.tail

/-- The pieces name a protocol and a source of its family. -/
structure Sourced : Prop where
  family : p.proto = bytes "TCP4" ∨ p.proto = bytes "TCP6"
  source : valid_address p.proto p.src = true

/-- One space between the pieces and nothing around them, ports without a sign that fit, and a
destination of the family. -/
structure Strict : Prop where
  spaced : p.src_gap = [32] ∧ p.dst_gap = [32] ∧ p.sport.gap = [32] ∧ p.dport.gap = [32]
  alone : p.front = [] ∧ p.tail = []
  unsigned : p.sport.sign = [] ∧ p.dport.sign = []
  fits : value p.sport.digits < 2 ^ 16 ∧ value p.dport.digits < 2 ^ 16
  destination : valid_address p.proto p.dst = true

end V1Pieces

/-- A decimal port. -/
structure IsPort (s : Bytes) : Prop where
  filled : s ≠ []
  digits : ∀ c ∈ s, isDigit c = true
  fits : value s < 2 ^ 16

def tcp_line (proto src dst sport dport : Bytes) : Bytes :=
  bytes "PROXY " ++ (proto ++ 32 :: (src ++ 32 :: (dst ++ 32 :: (sport ++ 32 :: dport))))

/-- The grammar of the line, with the source that it names. -/
inductive V1Line : Bytes → Bytes → UInt16 → Prop where
  | unknown (rest : Bytes) : V1Line (bytes "PROXY UNKNOWN" ++ rest) [] 0
  | tcp {proto src dst sport dport : Bytes} (family : proto = bytes "TCP4" ∨ proto = bytes "TCP6")
    (source : valid_address proto src = true) (destination : valid_address proto dst = true)
    (source_port : IsPort sport) (destination_port : IsPort dport) :
    V1Line (tcp_line proto src dst sport dport) src (UInt16.ofNat (value sport))

/-- The header with this line is accepted just when the line is one of the grammar, and then all of
it is the header of the source written there. -/
structure GrammarExact (line : Bytes) : Prop where
  accepted_iff : (parse_proxy_protocol (line ++ [13, 10])).valid = true ↔ ∃ addr port, V1Line line addr port
  source : ∀ addr port, V1Line line addr port →
    (parse_proxy_protocol (line ++ [13, 10])).need_more_data = false ∧
    (parse_proxy_protocol (line ++ [13, 10])).header_length = line.length + 2 ∧
    (parse_proxy_protocol (line ++ [13, 10])).client_addr = addr ∧
    (parse_proxy_protocol (line ++ [13, 10])).client_port = port

/-- A line of the grammar fits into the 108 bytes that are looked at, and in a line that fits, pieces
with a source are written strictly. -/
structure PlainLine (line : Bytes) : Prop where
  short : (∃ addr port, V1Line line addr port) → line.length ≤ 106
  strict : line.length ≤ 106 → ∀ p : V1Pieces, p.Read (c_str (line.drop 6)) → p.Sourced → p.Strict ∧ 0 ∉ line

section Proof

variable {line text s word rest : Bytes} {p q : V1Pieces} {width : Nat}

theorem scan_word_iff : scan_word width s = some (word, rest) ↔ ∃ gap, Word width s gap word rest := by
  constructor
  · intro scanned
    obtain ⟨split, inside, _⟩ := longest isSpace s
    obtain ⟨letters, solid, stops⟩ := longest (fun c => !isSpace c) (s.dropWhile isSpace)
    simp only [scan_word] at scanned
    split at scanned
    · cases scanned
    · next some =>
      obtain ⟨rfl, rfl⟩ := Prod.mk.inj (Option.some.inj scanned)
      generalize s.takeWhile isSpace = gap at split inside
      generalize s.dropWhile isSpace = body at *
      generalize body.takeWhile (fun c => !isSpace c) = front at *
      have behind : body.drop (front.take width).length = front.drop width ++ body.dropWhile fun c => !isSpace c := by
        rw [List.length_take]
        conv_lhs => rw [letters]
        rcases Nat.le_total width front.length with long | short
        · rw [Nat.min_eq_left long, List.drop_append_of_le_length long]
        · rw [Nat.min_eq_right short, List.drop_left, List.drop_eq_nil_of_le short, List.nil_append]
      refine ⟨gap, ?_, inside, fun c member => ?_, by simpa using some, List.length_take_le _ _, fun short => ?_⟩
      · rw [behind, ← List.append_assoc (front.take width), List.take_append_drop, ← letters]
        exact split
      · simpa using solid c (List.mem_of_mem_take member)
      · rw [List.length_take] at short
        rw [behind, List.drop_eq_nil_of_le (by omega), List.nil_append]
        exact fun c head => by simpa using stops c head
  · rintro ⟨gap, read⟩
    have some : word.isEmpty = false := by simpa using read.filled
    simp only [scan_word, read.blanks.dropWhile_eq, read.taken, some, Bool.false_eq_true, if_false,
      List.drop_left]

theorem scan_unsigned_eq (s : Bytes) :
    scan_unsigned s = (readNat (unsigned (s.dropWhile isSpace))).map fun n =>
      ((strtoul ((s.dropWhile isSpace).head? = some 45) n).toUInt32,
        (unsigned (s.dropWhile isSpace)).dropWhile isDigit) := rfl

theorem scan_unsigned_iff {n : UInt32} :
    scan_unsigned s = some (n, rest) ↔
      ∃ port : Numeral, port.Leads s rest ∧ scanned_port port = n := by
  rw [scan_unsigned_eq]
  constructor
  · intro scanned
    obtain ⟨sign, signed, body, minus⟩ := exists_sign (s.dropWhile isSpace)
    obtain ⟨k, digits, read⟩ := Option.map_eq_some_iff.mp scanned
    obtain ⟨filled, rfl⟩ := readNat_eq_some.mp digits
    cases read
    refine ⟨⟨s.takeWhile isSpace, sign, _⟩, number_of_digits signed body filled, ?_⟩
    simp only [scanned_port, minus]
  · rintro ⟨port, read, rfl⟩
    obtain ⟨digits, minus⟩ := read.unsigned_eq
    rw [read.blanks.dropWhile_eq, digits, read.readNat_eq, Option.map_some, read.longest.dropWhile_eq]
    simp only [minus, scanned_port]

theorem scan_addresses_iff {proto src dst : Bytes} {sport dport : UInt32} :
    scan_addresses text = some (proto, src, dst, sport, dport) ↔
      ∃ p : V1Pieces, p.Read text ∧ p.proto = proto ∧ p.src = src ∧ p.dst = dst ∧
        scanned_port p.sport = sport ∧ scanned_port p.dport = dport := by
  unfold scan_addresses
  constructor
  · intro scanned
    obtain ⟨⟨proto, s₁⟩, word₁, ⟨src, s₂⟩, word₂, ⟨dst, s₃⟩, word₃, ⟨sport, s₄⟩, number₁, ⟨dport, tail⟩,
      number₂, rfl, rfl, rfl, rfl, rfl⟩ := by
        simpa only [Option.bind_eq_bind, Option.bind_eq_some_iff, pure, Option.some.injEq, Prod.mk.injEq]
          using scanned
    obtain ⟨front, proto_read⟩ := scan_word_iff.mp word₁
    obtain ⟨src_gap, src_read⟩ := scan_word_iff.mp word₂
    obtain ⟨dst_gap, dst_read⟩ := scan_word_iff.mp word₃
    obtain ⟨from_, sport_read, sport_eq⟩ := scan_unsigned_iff.mp number₁
    obtain ⟨to_, dport_read, dport_eq⟩ := scan_unsigned_iff.mp number₂
    obtain rfl := dport_read.text
    obtain rfl := sport_read.text
    obtain rfl := dst_read.text
    obtain rfl := src_read.text
    exact ⟨⟨front, proto, src_gap, src, dst_gap, dst, from_, to_, tail⟩,
      ⟨proto_read, src_read, dst_read, sport_read, dport_read⟩, rfl, rfl, rfl, sport_eq, dport_eq⟩
  · rintro ⟨p, read, rfl, rfl, rfl, rfl, rfl⟩
    have word₁ := scan_word_iff.mpr ⟨_, read.proto⟩
    have word₂ := scan_word_iff.mpr ⟨_, read.src⟩
    have word₃ := scan_word_iff.mpr ⟨_, read.dst⟩
    have number₁ := scan_unsigned_iff.mpr ⟨_, read.sport, rfl⟩
    have number₂ := scan_unsigned_iff.mpr ⟨_, read.dport, rfl⟩
    simp only [word₁, word₂, word₃, number₁, number₂, Option.bind_eq_bind, Option.bind_some]
    rfl

theorem V1Pieces.Read.unique (read : p.Read text) (again : q.Read text) : p = q := by
  obtain ⟨front, proto, after_proto⟩ := read.proto.unique again.proto
  obtain ⟨src_gap, src, after_src⟩ := read.src.unique (after_proto ▸ again.src)
  obtain ⟨dst_gap, dst, after_dst⟩ := read.dst.unique (after_src ▸ again.dst)
  obtain ⟨sport, after_sport⟩ := Numeral.Leads.unique read.sport (after_dst ▸ again.sport)
  obtain ⟨dport, tail⟩ := Numeral.Leads.unique read.dport (after_sport ▸ again.dport)
  cases p
  cases q
  simp only [V1Pieces.mk.injEq]
  exact ⟨front, proto, src_gap, src, dst_gap, dst, sport, dport, tail⟩

/-- Pieces with a source are not read off a line that says that it is unknown. -/
theorem V1Pieces.Read.known (read : p.Read (c_str text)) (sourced : p.Sourced) :
    ¬ bytes "UNKNOWN" <+: text := by
  rintro ⟨rest, rfl⟩
  have text_eq : 85 :: (bytes "NKNOWN" ++ c_str rest) = p.front ++ (p.proto ++ p.after_proto) :=
    read.proto.text
  cases shape : p.front with
  | nil =>
    rw [shape, List.nil_append] at text_eq
    rcases sourced.family with family | family <;> rw [family] at text_eq <;>
      exact absurd (List.cons.inj text_eq).1 (by decide)
  | cons c front =>
    rw [shape, List.cons_append] at text_eq
    have blank := read.proto.blank c (by simp [shape])
    rw [← (List.cons.inj text_eq).1] at blank
    exact absurd blank (by decide)

theorem V1Pieces.Read.long (read : p.Read (c_str (line.drop 6))) : 7 ≤ line.length := by
  by_contra short
  have text := read.proto.text
  rw [List.drop_eq_nil_of_le (by omega)] at text
  exact read.proto.filled (List.append_eq_nil_iff.mp (List.append_eq_nil_iff.mp text.symm).2).1

theorem parse_unknown (starts : bytes "PROXY UNKNOWN" <+: line) :
    parse_v1_line line = { valid := true, header_length := line.length + 2 } := by
  obtain ⟨rest, rfl⟩ := starts
  rfl

theorem parse_pieces (read : p.Read (c_str (line.drop 6))) (sourced : p.Sourced) :
    parse_v1_line line =
      { valid := true, header_length := line.length + 2, client_addr := p.src,
        client_port := (scanned_port p.sport).toUInt16, server_addr := p.dst,
        server_port := (scanned_port p.dport).toUInt16 } := by
  have scanned := scan_addresses_iff.mpr ⟨p, read, rfl, rfl, rfl, rfl, rfl⟩
  have family : ¬ ((decide (p.proto ≠ bytes "TCP4") && decide (p.proto ≠ bytes "TCP6")) = true) := by
    rcases sourced.family with same | same <;> simp [same]
  unfold parse_v1_line
  dsimp only
  rw [if_neg (Nat.not_lt.mpr read.long), if_neg (read.known sourced)]
  simp only [scanned, if_neg family, sourced.source, Bool.not_true, Bool.false_eq_true, if_false]

theorem parse_v1_line_valid (accepted : (parse_v1_line line).valid = true) :
    bytes "UNKNOWN" <+: line.drop 6 ∨ ∃ p : V1Pieces, p.Read (c_str (line.drop 6)) ∧ p.Sourced := by
  unfold parse_v1_line at accepted
  dsimp only at accepted
  split at accepted
  · cases accepted
  · split at accepted
    · next unknown => exact .inl unknown
    · split at accepted
      · cases accepted
      · next proto src dst sport dport scanned =>
        obtain ⟨p, read, rfl, rfl, rfl, rfl, rfl⟩ := scan_addresses_iff.mp scanned
        split at accepted
        · cases accepted
        · next family =>
          split at accepted
          · cases accepted
          · next source =>
            refine .inr ⟨p, read, ?_, by simpa using source⟩
            by_contra other
            exact family (by simpa [not_or] using other)

theorem valid_address_solid {proto src : Bytes} (valid : valid_address proto src = true) :
    src ≠ [] ∧ src.length ≤ 63 ∧ ∀ c ∈ src, isSpace c = false ∧ c ≠ 0 := by
  unfold valid_address at valid
  split at valid
  · obtain ⟨octets, read⟩ := Option.isSome_iff_exists.mp valid
    refine ⟨?_, (inet_pton4_spec read).2.trans (by decide), fun c member =>
      addressLetter_solid (inet_pton4_letters valid c member)⟩
    rintro rfl
    cases read
  · obtain ⟨addr, read⟩ := Option.isSome_iff_exists.mp valid
    refine ⟨?_, (inet_pton6_spec read).2.trans (by decide), fun c member =>
      addressLetter_solid (inet_pton6_letters valid c member)⟩
    rintro rfl
    cases read

/-- The pieces of a line of the grammar. -/
def plain_pieces (proto src dst sport dport : Bytes) : V1Pieces :=
  ⟨[], proto, [32], src, [32], dst, ⟨[32], [], sport⟩, ⟨[32], [], dport⟩, []⟩

theorem tcp_line_drop (proto src dst sport dport : Bytes) :
    (tcp_line proto src dst sport dport).drop 6 =
      proto ++ 32 :: (src ++ 32 :: (dst ++ 32 :: (sport ++ 32 :: dport))) := rfl

theorem word_behind_space (solid : ∀ c ∈ word, isSpace c = false ∧ c ≠ 0) (filled : word ≠ [])
    (fits : word.length ≤ width) (s : Bytes) : Word width (32 :: (word ++ 32 :: s)) [32] word (32 :: s) :=
  ⟨rfl, by simp [isSpace], fun c member => (solid c member).1, filled, fits, fun _ c head => by
    obtain rfl := Option.mem_some.mp head
    rfl⟩

theorem IsPort.number {port : Bytes} (number : IsPort port) {s : Bytes}
    (stops : ∀ c ∈ s.head?, isDigit c = false) : Number (32 :: (port ++ s)) [32] [] port s :=
  ⟨rfl, by simp [isSpace], .inl rfl, number.digits, number.filled, stops⟩

theorem IsPort.scanned {port gap : Bytes} (number : IsPort port) :
    scanned_port ⟨gap, [], port⟩ = UInt32.ofNat (value port) := by
  have small : ¬ 2 ^ 64 ≤ value port := fun large => absurd number.fits (by omega)
  have fits := number.fits
  apply UInt32.toNat_inj.mp
  simp only [scanned_port, strtoul, if_neg small, List.ne_cons_self, decide_false, Bool.false_eq_true, if_false, UInt64.toNat_toUInt32, UInt64.toNat_ofNat', UInt32.toNat_ofNat']
  omega

theorem no_zero_of_digits {port : Bytes} (digits : ∀ c ∈ port, isDigit c = true) : 0 ∉ port := fun zero =>
  absurd (digits 0 zero) (by decide)

theorem tcp_read {proto src dst sport dport : Bytes} (family : proto = bytes "TCP4" ∨ proto = bytes "TCP6")
    (source : valid_address proto src = true) (destination : valid_address proto dst = true)
    (source_port : IsPort sport) (destination_port : IsPort dport) :
    0 ∉ tcp_line proto src dst sport dport ∧
      (plain_pieces proto src dst sport dport).Read (c_str ((tcp_line proto src dst sport dport).drop 6)) ∧
      (plain_pieces proto src dst sport dport).Sourced ∧ (plain_pieces proto src dst sport dport).Strict := by
  obtain ⟨src_filled, src_fits, src_solid⟩ := valid_address_solid source
  obtain ⟨dst_filled, dst_fits, dst_solid⟩ := valid_address_solid destination
  have proto_solid : ∀ c ∈ proto, isSpace c = false ∧ c ≠ 0 := by
    rcases family with rfl | rfl <;> decide +kernel
  have proto_fits : proto ≠ [] ∧ proto.length ≤ 7 := by
    rcases family with rfl | rfl <;> decide
  have clean : 0 ∉ tcp_line proto src dst sport dport := by
    have head : (0 : UInt8) ∉ bytes "PROXY " := by decide
    simp only [tcp_line, List.mem_append, List.mem_cons, not_or]
    exact ⟨head, fun m => (proto_solid 0 m).2 rfl, by decide, fun m => (src_solid 0 m).2 rfl, by decide,
      fun m => (dst_solid 0 m).2 rfl, by decide, no_zero_of_digits source_port.digits, by decide,
      no_zero_of_digits destination_port.digits⟩
  refine ⟨clean, ?_, ⟨family, source⟩,
    ⟨⟨rfl, rfl, rfl, rfl⟩, ⟨rfl, rfl⟩, ⟨rfl, rfl⟩, ⟨source_port.fits, destination_port.fits⟩, destination⟩⟩
  rw [c_str_eq fun zero => clean (List.mem_of_mem_drop zero), tcp_line_drop]
  have last : dport = dport ++ [] := (List.append_nil dport).symm
  refine ⟨⟨?_, nofun, fun c member => (proto_solid c member).1, ?_, ?_, fun _ c head => ?_⟩,
    ?_, ?_, ?_, ?_⟩
  · simp [plain_pieces, V1Pieces.after_proto, V1Pieces.after_src, V1Pieces.after_dst, V1Pieces.after_sport]
  · exact proto_fits.1
  · exact proto_fits.2
  · obtain rfl := Option.mem_some.mp head
    rfl
  · exact word_behind_space src_solid src_filled src_fits _
  · exact word_behind_space dst_solid dst_filled dst_fits _
  · exact source_port.number fun c head => by
      obtain rfl := Option.mem_some.mp head
      rfl
  · exact destination_port.number nofun

theorem strict_line (starts : bytes "PROXY " <+: line) (clean : 0 ∉ line) (read : p.Read (c_str (line.drop 6)))
    (sourced : p.Sourced) (strict : p.Strict) : V1Line line p.src (UInt16.ofNat (value p.sport.digits)) := by
  obtain ⟨rest, rfl⟩ := starts
  have text : c_str ((bytes "PROXY " ++ rest).drop 6) = rest :=
    c_str_eq fun zero => clean (List.mem_append_right _ zero)
  rw [text] at read
  have shape := read.proto.text
  obtain ⟨src_gap, dst_gap, sport_gap, dport_gap⟩ := strict.spaced
  simp only [V1Pieces.after_proto, V1Pieces.after_src, V1Pieces.after_dst, V1Pieces.after_sport, src_gap,
    dst_gap, sport_gap, dport_gap, strict.alone, strict.unsigned, List.nil_append, List.append_nil,
    List.singleton_append] at shape
  rw [shape]
  exact .tcp sourced.family sourced.source strict.destination ⟨read.sport.filled, read.sport.numeric, strict.fits.1⟩
    ⟨read.dport.filled, read.dport.numeric, strict.fits.2⟩

theorem V1Line.parse {addr : Bytes} {port : UInt16} (grammar : V1Line line addr port) :
    (parse_v1_line line).valid = true ∧ (parse_v1_line line).need_more_data = false ∧
      (parse_v1_line line).header_length = line.length + 2 ∧ (parse_v1_line line).client_addr = addr ∧
      (parse_v1_line line).client_port = port := by
  cases grammar with
  | unknown rest =>
    rw [parse_unknown (List.prefix_append _ rest)]
    exact ⟨rfl, rfl, rfl, rfl, rfl⟩
  | tcp family source destination source_port destination_port =>
    obtain ⟨_, read, sourced, _⟩ := tcp_read family source destination source_port destination_port
    rw [parse_pieces read sourced]
    refine ⟨rfl, rfl, rfl, rfl, ?_⟩
    have fits := source_port.fits
    apply UInt16.toNat_inj.mp
    simp only [plain_pieces, source_port.scanned, UInt32.toNat_toUInt16, UInt32.toNat_ofNat', UInt16.toNat_ofNat']
    omega

theorem parse_short (starts : bytes "PROXY " <+: line) (one_line : ¬ [13, 10] <:+: line)
    (short : line.length ≤ 106) : parse_proxy_protocol (line ++ [13, 10]) = parse_v1_line line := by
  have v1 : IsV1 (line ++ [13, 10]) line := ⟨rfl, one_line, starts, by simpa using short⟩
  have parsed := v1.parse []
  rwa [List.append_nil] at parsed

theorem parse_long (starts : bytes "PROXY " <+: line) (one_line : ¬ [13, 10] <:+: line)
    (long : 106 < line.length) : parse_proxy_protocol (line ++ [13, 10]) = {} := by
  rw [parse_of_v1 (starts.trans (List.prefix_append line _)), parse_v1]
  have none : Lib.Framing.cutAt 13 10 ((line ++ [13, 10]).take 108) = none := by
    cases cut : Lib.Framing.cutAt 13 10 ((line ++ [13, 10]).take 108) with
    | none => rfl
    | some frame =>
      have text := Lib.Framing.cutAt_eq cut
      have inside : frame.1 ++ [13, 10] <+: line ++ [13, 10] := by
        refine List.IsPrefix.trans ⟨frame.2, ?_⟩ (List.take_prefix 108 _)
        simpa using text.symm
      have lengths := congrArg List.length text
      simp only [List.length_take, List.length_append, List.length_cons, List.length_nil] at lengths
      have front : frame.1 ++ [13, 10] <+: line ++ [13] := by
        refine List.prefix_of_prefix_length_le inside ⟨[10], by simp⟩ ?_
        simp only [List.length_append, List.length_cons, List.length_nil]
        omega
      rcases List.prefix_concat_iff.mp front with whole | front
      · have last : (frame.1 ++ [13]) ++ [10] = line ++ [13] := by simpa using whole
        exact absurd (List.append_inj' last rfl).2 (by decide)
      · exact absurd ((List.suffix_append frame.1 [13, 10]).isInfix.trans front.isInfix) one_line
  have longer : ¬ (line ++ [13, 10]).length < 108 := by
    simp only [List.length_append, List.length_cons, List.length_nil]
    omega
  rw [none]
  simp only [longer, decide_false]

theorem grammar_exact_iff (starts : bytes "PROXY " <+: line) (one_line : ¬ [13, 10] <:+: line) :
    GrammarExact line ↔ PlainLine line := by
  rcases Nat.lt_or_ge 106 line.length with long | short
  · have parsed := parse_long starts one_line long
    constructor
    · rintro ⟨accepted_iff, _⟩
      rw [parsed] at accepted_iff
      exact ⟨fun grammar => absurd (accepted_iff.mpr grammar) Bool.false_ne_true, fun short => by omega⟩
    · intro plain
      have none (addr : Bytes) (port : UInt16) : ¬ V1Line line addr port := fun grammar =>
        absurd (plain.short ⟨addr, port, grammar⟩) (by omega)
      refine ⟨?_, fun addr port grammar => absurd grammar (none addr port)⟩
      rw [parsed]
      exact ⟨nofun, fun ⟨addr, port, grammar⟩ => absurd grammar (none addr port)⟩
  · have parsed := parse_short starts one_line short
    constructor
    · rintro ⟨accepted_iff, _⟩
      refine ⟨fun _ => short, fun _ p read sourced => ?_⟩
      obtain ⟨addr, port, grammar⟩ := accepted_iff.mp (by rw [parsed, parse_pieces read sourced])
      cases grammar with
      | unknown rest => exact absurd (List.prefix_append (bytes "UNKNOWN") rest) (read.known sourced)
      | tcp family source destination source_port destination_port =>
        obtain ⟨clean, own, _, strict⟩ := tcp_read family source destination source_port destination_port
        exact ⟨own.unique read ▸ strict, clean⟩
    · intro plain
      constructor
      · rw [parsed]
        constructor
        · intro accepted
          rcases parse_v1_line_valid accepted with unknown | ⟨p, read, sourced⟩
          · obtain ⟨rest, rfl⟩ := starts
            obtain ⟨rest, rfl⟩ := unknown
            exact ⟨_, _, .unknown rest⟩
          · obtain ⟨strict, clean⟩ := plain.strict short p read sourced
            exact ⟨_, _, strict_line starts clean read sourced strict⟩
        · rintro ⟨addr, port, grammar⟩
          exact grammar.parse.1
      · intro addr port grammar
        rw [parsed]
        exact grammar.parse.2

theorem grammar_exact_iff_tcp :
    GrammarExact (bytes "PROXY TCP4 1.2.3.4 5.6.7.8 80 443") ↔
      PlainLine (bytes "PROXY TCP4 1.2.3.4 5.6.7.8 80 443") :=
  grammar_exact_iff (by decide) (by decide)

/-- A port that does not fit is accepted and reported modulo 65536. -/
theorem large_port_accepted : ¬ GrammarExact (bytes "PROXY TCP4 1.2.3.4 5.6.7.8 70000 80") := by
  intro exactly
  have accepted : (parse_proxy_protocol
      (bytes "PROXY TCP4 1.2.3.4 5.6.7.8 70000 80" ++ [13, 10])).valid = true := by decide +kernel
  have scanned : scan_addresses (c_str ((bytes "PROXY TCP4 1.2.3.4 5.6.7.8 70000 80").drop 6)) =
      some (bytes "TCP4", bytes "1.2.3.4", bytes "5.6.7.8", 70000, 80) := by decide +kernel
  obtain ⟨p, read, _, _, _, port, _⟩ := scan_addresses_iff.mp scanned
  obtain ⟨addr, named, grammar⟩ := exactly.accepted_iff.mp accepted
  generalize line_eq : bytes "PROXY TCP4 1.2.3.4 5.6.7.8 70000 80" = line at grammar read
  cases grammar with
  | unknown rest => exact absurd (List.prefix_append (bytes "PROXY UNKNOWN") rest) (line_eq ▸ by decide)
  | tcp family source destination source_port destination_port =>
    obtain ⟨_, own, _, _⟩ := tcp_read family source destination source_port destination_port
    have fits := source_port.fits
    rw [read.unique own] at port
    have number := congrArg UInt32.toNat (source_port.scanned.symm.trans port)
    simp only [UInt32.toNat_ofNat', UInt32.reduceToNat] at number
    omega

end Proof

end AoSdl.net
