import AoSdl.TrustedProxyList
import AoSdl.Lib.BitPrefix
import AoSdl.Lib.Scanning

/-! The ranges of a `TrustedProxyList`: which addresses, in whatever spelling, its entries hold. -/
namespace AoSdl
open Lib.Decimal Lib.BitPrefix Lib.Scanning

inductive AddressFamily where
  | v4
  | v6
  deriving DecidableEq

/-- How many bits a prefix length of the family counts at most. -/
def AddressFamily.width : AddressFamily → Nat
  | v4 => 32
  | v6 => 128

/-- What stands in front of an IPv4 address in the IPv6 address that is mapped to it. -/
def mapped_front : Bytes := [0, 0, 0, 0, 0, 0, 0, 0, 0, 0, 255, 255]

/-- A text of either family and the sixteen bytes it stands for. -/
inductive AddressSpelling : AddressFamily → Bytes → Bytes → Prop where
  | v4 {ip octets : Bytes} (read : inet_pton4 ip = some octets) : AddressSpelling .v4 ip (mapped_front ++ octets)
  | v6 {ip addr : Bytes} (read : inet_pton6 ip = some addr) : AddressSpelling .v6 ip addr

/-- The addresses whose first bits are those of the network. An IPv4 prefix length counts the bits
behind the mapped prefix. -/
structure AddressRange where
  family : AddressFamily
  network : Bytes
  prefix_len : Nat

def AddressRange.bits (r : AddressRange) : Nat := (128 - r.family.width) + r.prefix_len

def AddressRange.Covers (r : AddressRange) (addr : Bytes) : Prop := Same r.bits addr r.network

/-- An entry: an address, or an address and a decimal prefix length of its family. -/
inductive RangeEntry : Bytes → AddressRange → Prop where
  | single {family : AddressFamily} {ip addr : Bytes} (spelling : AddressSpelling family ip addr) :
    RangeEntry ip ⟨family, addr, family.width⟩
  | range {family : AddressFamily} {ip addr len : Bytes} (spelling : AddressSpelling family ip addr)
    (filled : len ≠ []) (digits : ∀ c ∈ len, isDigit c = true) (fits : value len ≤ family.width) :
    RangeEntry (ip ++ 47 :: len) ⟨family, addr, value len⟩

/-- Four octets as a word. -/
def ntohl (octets : Bytes) : BitVec 32 :=
  octets.foldl (fun out octet => out <<< 8 ||| BitVec.ofNat 32 octet.toNat) 0

/-- The spelling of a mapped address that is looked for. -/
def DottedMapped (ip : Bytes) : Prop :=
  bytes "::ffff:" <+: ip ∧ (inet_pton4 (ip.drop (bytes "::ffff:").length)).isSome = true

/-- Some range of the family covers the address. -/
def Held (rs : List AddressRange) (family : AddressFamily) (addr : Bytes) : Prop :=
  ∃ r ∈ rs, r.family = family ∧ r.Covers addr

namespace TrustedProxyList

/-- What is kept of a range of either family. -/
def keep (list : TrustedProxyList) (r : AddressRange) : TrustedProxyList :=
  if r.family = .v4 then
    { list with ipv4_ := list.ipv4_ ++ [⟨ntohl (r.network.drop 12) &&& ipv4_mask r.prefix_len, ipv4_mask r.prefix_len⟩] }
  else { list with ipv6_ := list.ipv6_ ++ [⟨r.network, r.prefix_len⟩] }

end TrustedProxyList

section Proof

variable {ip addr octets entry : Bytes} {family : AddressFamily} {r : AddressRange} {list : TrustedProxyList}

theorem AddressSpelling.length (spelling : AddressSpelling family ip addr) : addr.length = 16 := by
  cases spelling with
  | v4 read => simp [mapped_front, (inet_pton4_spec read).1]
  | v6 read => exact (inet_pton6_spec read).1

theorem AddressSpelling.letters (spelling : AddressSpelling family ip addr) : ∀ c ∈ ip, addressLetter c = true := by
  cases spelling with
  | v4 read => exact inet_pton4_letters (by rw [read]; rfl)
  | v6 read => exact inet_pton6_letters (by rw [read]; rfl)

theorem AddressSpelling.plain (spelling : AddressSpelling family ip addr) : c_str ip = ip :=
  c_str_eq fun zero => (addressLetter_solid (spelling.letters 0 zero)).2 rfl

theorem AddressSpelling.no_slash (spelling : AddressSpelling family ip addr) : 47 ∉ ip := fun slash =>
  absurd (spelling.letters 47 slash) (by decide)

theorem AddressSpelling.colon (spelling : AddressSpelling family ip addr) : 58 ∈ ip ↔ family = .v6 := by
  cases spelling with
  | v4 read =>
    refine ⟨fun colon => ?_, nofun⟩
    rcases inet_pton4_dotted read 58 colon with digit | dot
    · exact absurd digit (by decide)
    · exact absurd dot (by decide)
  | v6 read => exact ⟨fun _ => rfl, fun _ => inet_pton6_colon read⟩

theorem AddressSpelling.filled (spelling : AddressSpelling family ip addr) : ip ≠ [] := by
  rintro rfl
  cases spelling with
  | v4 read => cases read
  | v6 read => cases read

theorem ntohl_step (out : BitVec 32) (octet : UInt8) {k : Nat} (inside : k < 32) :
    (out <<< 8 ||| BitVec.ofNat 32 octet.toNat).getLsbD k =
      if k < 8 then octet.toNat.testBit k else out.getLsbD (k - 8) := by
  simp only [BitVec.getLsbD_or, BitVec.getLsbD_shiftLeft, BitVec.getLsbD_ofNat, inside, decide_true, Bool.true_and]
  split
  · next low => simp [low]
  · next high =>
    have large : 2 ^ 8 ≤ 2 ^ k := Nat.pow_le_pow_right (by decide) (by omega)
    simp [high, Nat.testBit_lt_two_pow (octet.toNat_lt.trans_le large)]

theorem ntohl_bit (four : octets.length = 4) {i : Nat} (inside : i < 32) :
    (ntohl octets).getLsbD (31 - i) = bit octets i := by
  obtain ⟨a, b, c, d, rfl⟩ : ∃ a b c d, octets = [a, b, c, d] := by
    match octets, four with
    | [a, b, c, d], _ => exact ⟨a, b, c, d, rfl⟩
  simp only [ntohl, List.foldl_cons, List.foldl_nil]
  rw [ntohl_step _ _ (by omega), ntohl_step _ _ (by omega), ntohl_step _ _ (by omega), ntohl_step _ _ (by omega)]
  rw [← Nat.div_add_mod i 8, bit_at (Nat.mod_lt i (by decide))]
  have places : i / 8 = 0 ∨ i / 8 = 1 ∨ i / 8 = 2 ∨ i / 8 = 3 := by omega
  have rest := Nat.mod_lt i (by decide : 0 < 8)
  rcases places with place | place | place | place <;> rw [place]
  · rw [if_neg (by omega), if_neg (by omega), if_neg (by omega), if_pos (by omega)]
    exact congrArg a.toNat.testBit (by omega)
  · rw [if_neg (by omega), if_neg (by omega), if_pos (by omega)]
    exact congrArg b.toNat.testBit (by omega)
  · rw [if_neg (by omega), if_pos (by omega)]
    exact congrArg c.toNat.testBit (by omega)
  · rw [if_pos (by omega)]
    exact congrArg d.toNat.testBit (by omega)

theorem ipv4_mask_bit : ∀ p < 33, ∀ k < 32, (TrustedProxyList.ipv4_mask (p : Nat)).getLsbD k = decide (32 - p ≤ k) := by
  decide +kernel

theorem masked_ntohl_iff {a b : Bytes} (four : a.length = 4) (four' : b.length = 4) {p : Nat} (fits : p ≤ 32) :
    ntohl a &&& TrustedProxyList.ipv4_mask p = ntohl b &&& TrustedProxyList.ipv4_mask p ↔ Same p a b := by
  have masked (s : Bytes) (k : Nat) (inside : k < 32) :
      (ntohl s &&& TrustedProxyList.ipv4_mask p).getLsbD k = ((ntohl s).getLsbD k && decide (32 - p ≤ k)) := by
    rw [BitVec.getLsbD_and, ipv4_mask_bit p (by omega) k inside]
  constructor
  · intro same i before
    have inside : i < 32 := by omega
    have at_ := congrArg (fun word => word.getLsbD (31 - i)) same
    rw [masked a _ (by omega), masked b _ (by omega), decide_eq_true (by omega), Bool.and_true, Bool.and_true,
      ntohl_bit four inside, ntohl_bit four' inside] at at_
    exact at_
  · intro same
    refine BitVec.eq_of_getLsbD_eq fun k inside => ?_
    rw [masked a k inside, masked b k inside]
    rcases Nat.lt_or_ge k (32 - p) with low | high
    · rw [decide_eq_false (by omega), Bool.and_false, Bool.and_false]
    · have place : k = 31 - (31 - k) := by omega
      rw [place, ntohl_bit four (by omega), ntohl_bit four' (by omega), same _ (by omega)]

theorem ipv6_matches_iff {a b : Bytes} (lengths : a.length = b.length) (p : Nat) :
    TrustedProxyList.ipv6_matches a b p = true ↔ Same p a b := by
  rw [same_iff_bytes, ← take_eq_iff lengths]
  unfold TrustedProxyList.ipv6_matches
  dsimp only
  split
  · next other => exact ⟨nofun, fun same => absurd same.1 other⟩
  · next same =>
    rw [Decidable.not_not] at same
    split
    · next whole => simp [same, whole, high]
    · simp [same, high]

/-- What the family of a range says about its network. -/
theorem RangeEntry.spelled (entry_of : RangeEntry entry r) :
    r.prefix_len ≤ r.family.width ∧ ∃ ip, AddressSpelling r.family ip r.network := by
  cases entry_of with
  | single spelling => exact ⟨Nat.le_refl _, _, spelling⟩
  | range spelling filled digits fits => exact ⟨fits, _, spelling⟩

theorem stoi_len {len : Bytes} (filled : len ≠ []) (digits : ∀ c ∈ len, isDigit c = true)
    (fits : value len ≤ family.width) : stoi len = some (value len : Int) := by
  have small : value len ≤ 128 := fits.trans (by cases family <;> decide)
  have number : Lib.Decimal.read len = some (value len : Int) :=
    read_iff.mpr ⟨⟨[], [], len⟩, [], number_digits filled digits, rfl⟩
  rw [stoi, number, Option.filter_some, if_pos (by simp; omega)]

theorem parse_ipv4_eq (read : inet_pton4 ip = some octets) :
    TrustedProxyList.parse_ipv4 ip = some (ntohl octets) := by
  rw [TrustedProxyList.parse_ipv4, (AddressSpelling.v4 read).plain, read]
  rfl

theorem parse_ipv6_eq (read : inet_pton6 ip = some addr) : TrustedProxyList.parse_ipv6 ip = some addr := by
  rw [TrustedProxyList.parse_ipv6, (AddressSpelling.v6 read).plain, read]

theorem no_colon (read : inet_pton4 ip = some octets) : 58 ∉ ip := fun colon =>
  nomatch (AddressSpelling.v4 read).colon.mp colon

theorem add_entry_eq (entry_of : RangeEntry entry r) (list : TrustedProxyList) :
    list.add_entry entry = list.keep r := by
  cases entry_of with
  | single spelling =>
    unfold TrustedProxyList.add_entry
    rw [Lib.Fields.splitFirst_none.mpr spelling.no_slash]
    cases spelling with
    | v4 read =>
      have exact_mask (addr : BitVec 32) : addr &&& TrustedProxyList.ipv4_mask (32 : Nat) = addr :=
        BitVec.and_allOnes
      simp only [if_neg (no_colon read), parse_ipv4_eq read, TrustedProxyList.keep, if_true, AddressFamily.width,
        exact_mask]
      rfl
    | v6 read =>
      simp only [if_pos (inet_pton6_colon read), parse_ipv6_eq read, TrustedProxyList.keep, AddressFamily.width]
      rfl
  | @range family ip addr len spelling filled digits fits =>
    unfold TrustedProxyList.add_entry
    rw [Lib.Fields.splitFirst_append spelling.no_slash]
    have number := stoi_len filled digits fits
    cases spelling with
    | v4 read =>
      have inside : ¬ ((decide ((value len : Int) < 0) || decide (32 < (value len : Int))) = true) := by
        simp only [Bool.or_eq_true, decide_eq_true_eq]
        have fits : value len ≤ 32 := fits
        omega
      simp only [number, if_neg (no_colon read), if_neg inside, parse_ipv4_eq read, TrustedProxyList.keep, if_true]
      rfl
    | v6 read =>
      have inside : ¬ ((decide ((value len : Int) < 0) || decide (128 < (value len : Int))) = true) := by
        simp only [Bool.or_eq_true, decide_eq_true_eq]
        have fits : value len ≤ 128 := fits
        omega
      simp only [number, if_pos (inet_pton6_colon read), if_neg inside, parse_ipv6_eq read, TrustedProxyList.keep]
      rfl

theorem RangeEntry.filled (entry_of : RangeEntry entry r) : entry ≠ [] := by
  cases entry_of with
  | single spelling => exact spelling.filled
  | range spelling filled digits fits => simp

theorem configure_eq {entries : List Bytes} {rs : List AddressRange} (listed : List.Forall₂ RangeEntry entries rs) :
    TrustedProxyList.configure entries = rs.foldl TrustedProxyList.keep {} := by
  have kept (list : TrustedProxyList) : (entries.filter (!·.isEmpty)).foldl TrustedProxyList.add_entry list =
      rs.foldl TrustedProxyList.keep list := by
    induction listed generalizing list with
    | nil => rfl
    | cons entry_of _ ih =>
      have filled := entry_of.filled
      rw [List.filter_cons_of_pos (by simpa using filled), List.foldl_cons, List.foldl_cons, add_entry_eq entry_of, ih]
  exact kept {}

theorem ipv4_kept (rs : List AddressRange) (list : TrustedProxyList) (word : BitVec 32) :
    (rs.foldl TrustedProxyList.keep list).matches_ipv4 word = true ↔ list.matches_ipv4 word = true ∨
      ∃ r ∈ rs, r.family = .v4 ∧ word &&& TrustedProxyList.ipv4_mask r.prefix_len =
        ntohl (r.network.drop 12) &&& TrustedProxyList.ipv4_mask r.prefix_len := by
  induction rs generalizing list with
  | nil => simp
  | cons r rs ih =>
    rw [List.foldl_cons, ih, List.exists_mem_cons_iff, ← or_assoc]
    refine or_congr_left ?_
    unfold TrustedProxyList.keep
    split
    · next v4 => simp [TrustedProxyList.matches_ipv4, v4]
    · next v6 => simp [TrustedProxyList.matches_ipv4, v6]

theorem ipv6_kept (rs : List AddressRange) (list : TrustedProxyList) (addr : Bytes) :
    ((rs.foldl TrustedProxyList.keep list).ipv6_.any fun entry =>
        TrustedProxyList.ipv6_matches addr entry.addr entry.prefix_len) = true ↔
      (list.ipv6_.any fun entry => TrustedProxyList.ipv6_matches addr entry.addr entry.prefix_len) = true ∨
      ∃ r ∈ rs, r.family = .v6 ∧ TrustedProxyList.ipv6_matches addr r.network r.prefix_len = true := by
  induction rs generalizing list with
  | nil => simp
  | cons r rs ih =>
    rw [List.foldl_cons, ih, List.exists_mem_cons_iff, ← or_assoc]
    refine or_congr_left ?_
    unfold TrustedProxyList.keep
    split
    · next v4 => simp [v4]
    · next other =>
      have v6 : r.family = .v6 := by
        cases shape : r.family with
        | v4 => exact absurd shape other
        | v6 => rfl
      simp [v6]

section Trusted

variable {entries : List Bytes} {rs : List AddressRange}

theorem spelled_of_listed (listed : List.Forall₂ RangeEntry entries rs) (member : r ∈ rs) :
    r.prefix_len ≤ r.family.width ∧ ∃ ip, AddressSpelling r.family ip r.network := by
  induction listed with
  | nil => cases member
  | cons entry_of _ ih =>
    rcases List.mem_cons.mp member with rfl | later
    · exact entry_of.spelled
    · exact ih later

theorem covers_v4_iff (four : octets.length = 4) (v4 : r.family = .v4) (fits : r.prefix_len ≤ r.family.width)
    (spelled : ∃ ip, AddressSpelling r.family ip r.network) :
    r.Covers (mapped_front ++ octets) ↔ ntohl octets &&& TrustedProxyList.ipv4_mask r.prefix_len =
      ntohl (r.network.drop 12) &&& TrustedProxyList.ipv4_mask r.prefix_len := by
  obtain ⟨family, network, prefix_len⟩ := r
  obtain rfl : family = .v4 := v4
  obtain ⟨ip, spelling⟩ := spelled
  cases spelling with
  | @v4 ip network read =>
    have behind : Same (8 * mapped_front.length + prefix_len) (mapped_front ++ octets) (mapped_front ++ network) ↔
        Same prefix_len octets network := same_append
    exact behind.trans (masked_ntohl_iff four (inet_pton4_spec read).1 fits).symm

theorem matches_ipv4_iff (listed : List.Forall₂ RangeEntry entries rs) (four : octets.length = 4) :
    (TrustedProxyList.configure entries).matches_ipv4 (ntohl octets) = true ↔
      Held rs .v4 (mapped_front ++ octets) := by
  rw [configure_eq listed, ipv4_kept]
  constructor
  · rintro (none | ⟨r, member, v4, masked⟩)
    · cases none
    · obtain ⟨fits, spelled⟩ := spelled_of_listed listed member
      exact ⟨r, member, v4, (covers_v4_iff four v4 fits spelled).mpr masked⟩
  · rintro ⟨r, member, v4, covers⟩
    obtain ⟨fits, spelled⟩ := spelled_of_listed listed member
    exact .inr ⟨r, member, v4, (covers_v4_iff four v4 fits spelled).mp covers⟩

theorem matches_ipv6_iff (listed : List.Forall₂ RangeEntry entries rs) (sixteen : addr.length = 16) :
    ((TrustedProxyList.configure entries).ipv6_.any fun entry =>
        TrustedProxyList.ipv6_matches addr entry.addr entry.prefix_len) = true ↔ Held rs .v6 addr := by
  have covers_iff {r : AddressRange} (member : r ∈ rs) (v6 : r.family = .v6) :
      TrustedProxyList.ipv6_matches addr r.network r.prefix_len = true ↔ r.Covers addr := by
    obtain ⟨_, ip, spelling⟩ := spelled_of_listed listed member
    rw [ipv6_matches_iff (sixteen.trans spelling.length.symm), AddressRange.Covers, AddressRange.bits, v6]
    exact iff_of_eq (congrArg (Same · addr r.network) (Nat.zero_add _).symm)
  rw [configure_eq listed, ipv6_kept]
  constructor
  · rintro (none | ⟨r, member, v6, agrees⟩)
    · cases none
    · exact ⟨r, member, v6, (covers_iff member v6).mp agrees⟩
  · rintro ⟨r, member, v6, covers⟩
    exact .inr ⟨r, member, v6, (covers_iff member v6).mpr covers⟩

/-- The mapped address behind the prefix is matched as the IPv4 address it is. -/
theorem dotted_iff (listed : List.Forall₂ RangeEntry entries rs) (read : inet_pton6 ip = some addr) :
    ((bytes "::ffff:").isPrefixOf ip && ((TrustedProxyList.parse_ipv4 (ip.drop (bytes "::ffff:").length)).map
        (TrustedProxyList.configure entries).matches_ipv4).getD false) = true ↔
      DottedMapped ip ∧ Held rs .v4 addr := by
  have clean : 0 ∉ ip := fun zero => (addressLetter_solid ((AddressSpelling.v6 read).letters 0 zero)).2 rfl
  have rest_clean : c_str (ip.drop (bytes "::ffff:").length) = ip.drop (bytes "::ffff:").length :=
    c_str_eq fun zero => clean (List.mem_of_mem_drop zero)
  rw [Bool.and_eq_true, List.isPrefixOf_iff_prefix, DottedMapped, and_assoc]
  refine and_congr_right fun starts => ?_
  cases dotted : inet_pton4 (ip.drop (bytes "::ffff:").length) with
  | none => simp [TrustedProxyList.parse_ipv4, rest_clean, dotted]
  | some octets =>
    have text : ip = bytes "::ffff:" ++ ip.drop (bytes "::ffff:").length := List.prefix_iff_eq_append.mp starts ▸ rfl
    have value : addr = mapped_front ++ octets := by
      have mapped := inet_pton6_mapped dotted
      rw [← text, read] at mapped
      exact Option.some.inj mapped
    rw [parse_ipv4_eq dotted, Option.map_some, Option.getD_some, matches_ipv4_iff listed (inet_pton4_spec dotted).1, value]
    simp

theorem is_trusted_iff (listed : List.Forall₂ RangeEntry entries rs) (spelling : AddressSpelling family ip addr) :
    (TrustedProxyList.configure entries).is_trusted ip = true ↔
      Held rs family addr ∨ DottedMapped ip ∧ Held rs .v4 addr := by
  have filled : ip.isEmpty = false := by simpa using spelling.filled
  unfold TrustedProxyList.is_trusted
  rw [filled, if_neg Bool.false_ne_true]
  cases spelling with
  | v4 read =>
    have four := (inet_pton4_spec read).1
    simp only [if_neg (no_colon read), parse_ipv4_eq read, Option.map_some, Option.getD_some,
      matches_ipv4_iff listed four]
    exact ⟨.inl, fun held => held.elim id And.right⟩
  | v6 read =>
    simp only [if_pos (inet_pton6_colon read), parse_ipv6_eq read]
    rw [Bool.or_eq_true, matches_ipv6_iff listed (inet_pton6_spec read).1]
    exact or_congr_right (dotted_iff listed read)

/-- The list trusts an address just when its value has the first bits of an entry. -/
def TrustExact (entries : List Bytes) (rs : List AddressRange) (ip addr : Bytes) : Prop :=
  (TrustedProxyList.configure entries).is_trusted ip = true ↔ ∃ r ∈ rs, r.Covers addr

theorem trust_exact_iff (listed : List.Forall₂ RangeEntry entries rs) (spelling : AddressSpelling family ip addr) :
    TrustExact entries rs ip addr ↔
      ∀ r ∈ rs, r.Covers addr → r.family ≠ family → DottedMapped ip ∨ Held rs family addr := by
  rw [TrustExact, is_trusted_iff listed spelling]
  constructor
  · intro exactly r member covers _
    rcases exactly.mpr ⟨r, member, covers⟩ with held | ⟨dotted, _⟩
    · exact .inr held
    · exact .inl dotted
  · intro other
    constructor
    · rintro (⟨r, member, _, covers⟩ | ⟨_, r, member, _, covers⟩)
      · exact ⟨r, member, covers⟩
      · exact ⟨r, member, covers⟩
    · rintro ⟨r, member, covers⟩
      by_cases own : r.family = family
      · exact .inl ⟨r, member, own, covers⟩
      · rcases other r member covers own with dotted | held
        · have six : family = .v6 := spelling.colon.mp (dotted.1.subset (by decide))
          have four : r.family = .v4 := by
            cases shape : r.family with
            | v4 => rfl
            | v6 => exact absurd (shape.trans six.symm) own
          exact .inr ⟨dotted, r, member, four, covers⟩
        · exact .inl held

theorem ten_entry : RangeEntry (bytes "10.0.0.0/8") ⟨.v4, mapped_front ++ [10, 0, 0, 0], 8⟩ := by
  have text : bytes "10.0.0.0/8" = bytes "10.0.0.0" ++ 47 :: bytes "8" := by decide
  rw [text]
  exact .range (.v4 (by decide)) (by decide) (by decide +kernel) (by decide)

theorem trust_exact_iff_mapped :
    TrustExact [bytes "10.0.0.0/8"] [⟨.v4, mapped_front ++ [10, 0, 0, 0], 8⟩] (bytes "::ffff:10.1.2.3")
        (mapped_front ++ [10, 1, 2, 3]) ↔
      ∀ r ∈ [⟨.v4, mapped_front ++ [10, 0, 0, 0], 8⟩], AddressRange.Covers r (mapped_front ++ [10, 1, 2, 3]) →
        r.family ≠ .v6 → DottedMapped (bytes "::ffff:10.1.2.3") ∨
          Held [⟨.v4, mapped_front ++ [10, 0, 0, 0], 8⟩] .v6 (mapped_front ++ [10, 1, 2, 3]) :=
  trust_exact_iff (.cons ten_entry .nil) (.v6 (by decide))

/-- The same address in hexadecimal is not trusted. -/
theorem hexadecimal_mapped_not_trusted :
    RangeEntry (bytes "10.0.0.0/8") ⟨.v4, mapped_front ++ [10, 0, 0, 0], 8⟩ ∧
      AddressSpelling .v6 (bytes "::ffff:a01:203") (mapped_front ++ [10, 1, 2, 3]) ∧
      ¬ TrustExact [bytes "10.0.0.0/8"] [⟨.v4, mapped_front ++ [10, 0, 0, 0], 8⟩] (bytes "::ffff:a01:203")
        (mapped_front ++ [10, 1, 2, 3]) := by
  refine ⟨ten_entry, .v6 (by decide), fun exactly => ?_⟩
  have covers : AddressRange.Covers ⟨.v4, mapped_front ++ [10, 0, 0, 0], 8⟩ (mapped_front ++ [10, 1, 2, 3]) := by
    unfold AddressRange.Covers
    decide
  exact absurd (exactly.mpr ⟨_, List.mem_cons_self, covers⟩) (by decide)

end Trusted

end Proof

end AoSdl
