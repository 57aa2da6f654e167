import Mathlib.Data.List.DropRight
import AoSdl.InetAddress
import AoSdl.Lib.Fields

/-! `TrustedProxyList`: which addresses are proxies, and the client's address in a header that
proxies append to. Arithmetic on `int` wraps. -/
namespace AoSdl
open Lib.Fields

structure IPv4Entry where
  addr : BitVec 32
  mask : BitVec 32

structure IPv6Entry where
  addr : Bytes
  prefix_len : Nat

structure TrustedProxyList where
  ipv4_ : List IPv4Entry := []
  ipv6_ : List IPv6Entry := []

namespace TrustedProxyList

/-- The address in host byte order. -/
def parse_ipv4 (ip : Bytes) : Option (BitVec 32) :=
  (inet_pton4 (c_str ip)).map fun octets =>
    octets.foldl (fun out octet => out <<< 8 ||| BitVec.ofNat 32 octet.toNat) 0

def ipv4_mask (prefix_len : Int) : BitVec 32 :=
  if prefix_len ≤ 0 then 0
  else if 32 ≤ prefix_len then 0xFFFFFFFF
  else ~~~((1 <<< (32 - prefix_len).toNat) - 1)

def parse_ipv6 (ip : Bytes) : Option Bytes := inet_pton6 (c_str ip)

def ipv6_matches (addr network : Bytes) (prefix_len : Nat) : Bool :=
  let full_bytes := prefix_len / 8
  let remaining_bits := prefix_len % 8
  if addr.take full_bytes ≠ network.take full_bytes then false
  else if remaining_bits = 0 then true
  else
    let mask := UInt8.ofNat (0xFF <<< (8 - remaining_bits))
    addr.getD full_bytes 0 &&& mask = network.getD full_bytes 0 &&& mask

/-- An entry of the configuration, a single address or a range. Others are skipped. -/
def add_entry (list : TrustedProxyList) (entry : Bytes) : TrustedProxyList :=
  match splitFirst 47 entry with
  | some (ip_part, len_part) =>
    match stoi len_part with
    | none => list
    | some len =>
      if 58 ∈ ip_part then
        if len < 0 || 128 < len then list
        else match parse_ipv6 ip_part with
          | none => list
          | some addr => { list with ipv6_ := list.ipv6_ ++ [⟨addr, len.toNat⟩] }
      else if len < 0 || 32 < len then list
      else match parse_ipv4 ip_part with
        | none => list
        | some addr => { list with ipv4_ := list.ipv4_ ++ [⟨addr &&& ipv4_mask len, ipv4_mask len⟩] }
  | none =>
    if 58 ∈ entry then
      match parse_ipv6 entry with
      | none => list
      | some addr => { list with ipv6_ := list.ipv6_ ++ [⟨addr, 128⟩] }
    else match parse_ipv4 entry with
      | none => list
      | some addr => { list with ipv4_ := list.ipv4_ ++ [⟨addr, 0xFFFFFFFF⟩] }

def configure (entries : List Bytes) : TrustedProxyList :=
  (entries.filter (!·.isEmpty)).foldl add_entry {}

def matches_ipv4 (list : TrustedProxyList) (addr : BitVec 32) : Bool :=
  list.ipv4_.any fun entry => addr &&& entry.mask = entry.addr

def is_trusted (list : TrustedProxyList) (ip : Bytes) : Bool :=
  if ip.isEmpty then false
  else if 58 ∈ ip then
    match parse_ipv6 ip with
    | none => false
    | some addr =>
      list.ipv6_.any (fun entry => ipv6_matches addr entry.addr entry.prefix_len) ||
        -- dual-stack sockets report IPv4 peers this way
        ((bytes "::ffff:").isPrefixOf ip &&
          ((parse_ipv4 (ip.drop (bytes "::ffff:").length)).map list.matches_ipv4).getD false)
  else ((parse_ipv4 ip).map list.matches_ipv4).getD false

end TrustedProxyList

def isBlank (c : UInt8) : Bool := c = 32 || c = 9

def trim (s : Bytes) : Bytes := (s.dropWhile isBlank).rdropWhile isBlank

def is_valid_ip (ip : Bytes) : Bool := (inet_pton4 (c_str ip)).isSome || (inet_pton6 (c_str ip)).isSome

/-- The trimmed elements of a header value. Nothing stands behind a last comma. -/
def split_ips (header_value : Bytes) : List Bytes :=
  if header_value.isEmpty then []
  else
    match _split : splitFirst 44 header_value with
    | none => [trim header_value]
    | some (ip, rest) => trim ip :: split_ips rest
termination_by header_value.length
decreasing_by
  rw [(splitFirst_some _split).1, List.length_append, List.length_cons]
  omega

/-- The walk from the right over the first `n` elements. -/
def TrustedProxyList.walk (trusted : TrustedProxyList) (ips : List Bytes) : Nat → Option Bytes
  | 0 => none
  | i + 1 =>
    let ip := ips.getD i []
    if ip.isEmpty || !is_valid_ip ip then walk trusted ips i
    else if !trusted.is_trusted ip then some ip
    else walk trusted ips i

/-- How many of `n` elements the walk goes over: its first index is an `int`. -/
def reached (n : Nat) : Nat := (wrap32 (intOfSize n - 1) + 1).toNat

def extract_forwarded_ip (header_value : Bytes) (trusted : Option TrustedProxyList) : Bytes :=
  let ips := split_ips header_value
  let leftmost := if is_valid_ip (ips.headD []) then ips.headD [] else []
  if header_value.isEmpty || ips.isEmpty then []
  else if ips.length = 1 then leftmost
  else match trusted with
    | none => leftmost
    | some list => (list.walk ips (reached ips.length)).getD leftmost

section Proof

variable {trusted : TrustedProxyList} {x : Bytes} {ts : List Bytes}

theorem addressLetter_apart {c : UInt8} (letter : addressLetter c = true) :
    c ≠ 44 ∧ isBlank c = false := by
  refine ⟨?_, Bool.eq_false_iff.mpr fun blank => ?_⟩
  · rintro rfl
    cases letter
  · rw [isBlank, Bool.or_eq_true, decide_eq_true_eq, decide_eq_true_eq] at blank
    rcases blank with rfl | rfl <;> cases letter

/-- A text that is written with the letters of addresses and is one. -/
theorem letters_of_valid (plain : 0 ∉ x) (valid : is_valid_ip x = true) :
    ∀ c ∈ x, addressLetter c = true := by
  rw [is_valid_ip, c_str_eq plain, Bool.or_eq_true] at valid
  rcases valid with ipv4 | ipv6
  · exact inet_pton4_letters ipv4
  · exact inet_pton6_letters ipv6

theorem address_of_valid (plain : 0 ∉ x) (valid : is_valid_ip x = true) :
    x ≠ [] ∧ ∀ c ∈ x, addressLetter c = true := by
  refine ⟨?_, letters_of_valid plain valid⟩
  rintro rfl
  exact absurd valid (by decide)

theorem valid_of_trusted (proxy : trusted.is_trusted x = true) : is_valid_ip x = true := by
  unfold TrustedProxyList.is_trusted at proxy
  rw [is_valid_ip, Bool.or_eq_true]
  split at proxy
  · cases proxy
  · split at proxy
    · cases ipv6 : TrustedProxyList.parse_ipv6 x with
      | none =>
        rw [ipv6] at proxy
        cases proxy
      | some addr =>
        rw [TrustedProxyList.parse_ipv6] at ipv6
        exact .inr (by rw [ipv6]; rfl)
    · cases ipv4 : inet_pton4 (c_str x) with
      | none =>
        rw [TrustedProxyList.parse_ipv4, ipv4] at proxy
        cases proxy
      | some octets => exact .inl rfl

theorem trim_of_letters (letters : ∀ c ∈ x, addressLetter c = true) : trim x = x := by
  have ends : ∀ c ∈ x, isBlank c = false := fun c member => (addressLetter_apart (letters c member)).2
  have left : x.dropWhile isBlank = x := by
    cases x with
    | nil => rfl
    | cons c x => rw [List.dropWhile_cons, ends c List.mem_cons_self, if_neg Bool.false_ne_true]
  rw [trim, left, List.rdropWhile_eq_self_iff]
  exact fun some => by rw [ends _ (List.getLast_mem some)]; exact Bool.false_ne_true

theorem trim_blank (s : Bytes) : trim (32 :: s) = trim s := rfl

theorem split_ips_cut (ip rest : Bytes) (clean : 44 ∉ ip) :
    split_ips (ip ++ 44 :: rest) = trim ip :: split_ips rest := by
  rw [split_ips, if_neg (by simp)]
  split
  · next whole => simp [splitFirst_append clean] at whole
  · next ip' rest' cut =>
    rw [splitFirst_append clean] at cut
    cases cut
    rfl

theorem split_ips_last {ip : Bytes} (some : ip ≠ []) (clean : 44 ∉ ip) : split_ips ip = [trim ip] := by
  rw [split_ips, if_neg (by simpa using some)]
  split
  · rfl
  · next cut => simp [splitFirst_none.mpr clean] at cut

/-- Whatever stands before a comma only adds elements in front. -/
theorem split_ips_append (front rest : Bytes) :
    split_ips (front ++ 44 :: rest) = (front.splitOn 44).map trim ++ split_ips rest := by
  by_cases inside : 44 ∈ front
  · obtain ⟨ip, later, rfl, clean⟩ := List.eq_append_cons_of_mem inside
    have shorter : later.length < (ip ++ 44 :: later).length := by
      rw [List.length_append, List.length_cons]
      omega
    rw [List.append_assoc, List.cons_append, split_ips_cut _ _ clean, split_ips_append later rest,
      List.splitOn_append_cons_self, List.splitOn_eq_singleton clean]
    rfl
  · rw [split_ips_cut _ _ inside, List.splitOn_eq_singleton inside]
    rfl
termination_by front.length

/-- The value of the header after `front` went through proxies that appended to it. -/
def forwarded_for (front x : Bytes) (ts : List Bytes) : Bytes := (bytes ", ").intercalate (front :: x :: ts)

theorem forwarded_eq (front x : Bytes) (ts : List Bytes) :
    forwarded_for front x ts = front ++ 44 :: 32 :: (bytes ", ").intercalate (x :: ts) := by
  rw [forwarded_for, List.intercalate_cons_cons, List.append_assoc]
  rfl

theorem split_ips_addresses (letters : ∀ t ∈ x :: ts, t ≠ [] ∧ ∀ c ∈ t, addressLetter c = true) :
    split_ips (32 :: (bytes ", ").intercalate (x :: ts)) = x :: ts := by
  induction ts generalizing x with
  | nil =>
    obtain ⟨some, letters⟩ := letters x List.mem_cons_self
    have clean : 44 ∉ (32 :: x : Bytes) := by
      rw [List.mem_cons, not_or]
      exact ⟨by decide, fun member => (addressLetter_apart (letters 44 member)).1 rfl⟩
    rw [List.intercalate_singleton, split_ips_last (List.cons_ne_nil _ _) clean, trim_blank,
      trim_of_letters letters]
  | cons t ts ih =>
    obtain ⟨some, own⟩ := letters x List.mem_cons_self
    have clean : 44 ∉ (32 :: x : Bytes) := by
      rw [List.mem_cons, not_or]
      exact ⟨by decide, fun member => (addressLetter_apart (own 44 member)).1 rfl⟩
    have shape : (32 :: (bytes ", ").intercalate (x :: t :: ts) : Bytes) =
        (32 :: x) ++ 44 :: 32 :: (bytes ", ").intercalate (t :: ts) := by
      rw [List.intercalate_cons_cons, List.append_assoc]
      rfl
    rw [shape, split_ips_cut _ _ clean, trim_blank, trim_of_letters own,
      ih fun u member => letters u (List.mem_cons_of_mem _ member)]

/-- The walk finds the last element in reach that is an address and no proxy. -/
theorem walk_eq (ips : List Bytes) {n : Nat} (inside : n ≤ ips.length) :
    trusted.walk ips n = (ips.take n).reverse.find? fun ip =>
      !ip.isEmpty && is_valid_ip ip && !trusted.is_trusted ip := by
  induction n with
  | zero => rfl
  | succ i ih =>
    have here : ips.getD i [] = ips[i] := by simp [Nat.lt_of_succ_le inside]
    rw [List.take_succ_eq_append_getElem inside, List.reverse_append, List.reverse_singleton,
      List.singleton_append, List.find?_cons, ← ih (Nat.le_of_succ_le inside),
      TrustedProxyList.walk, here]
    cases ips[i].isEmpty <;> cases is_valid_ip ips[i] <;> cases trusted.is_trusted ips[i] <;> rfl

theorem reached_le (n : Nat) : reached n ≤ n := by
  unfold reached wrap32 intOfSize
  simp only [Int.bmod_def]
  omega

/-- All of up to 2^31 elements. -/
theorem reached_eq {n : Nat} (fits : n ≤ 2 ^ 31) : reached n = n := by
  unfold reached wrap32 intOfSize
  simp only [Int.bmod_def]
  omega

theorem split_ips_forwarded (letters : ∀ t ∈ x :: ts, t ≠ [] ∧ ∀ c ∈ t, addressLetter c = true)
    (front : Bytes) :
    split_ips (forwarded_for front x ts) = (front.splitOn 44).map trim ++ x :: ts := by
  rw [forwarded_eq, split_ips_append, split_ips_addresses letters]

theorem extract_forwarded (letters : ∀ t ∈ x :: ts, t ≠ [] ∧ ∀ c ∈ t, addressLetter c = true)
    (front : Bytes) :
    extract_forwarded_ip (forwarded_for front x ts) (some trusted) =
      (trusted.walk ((front.splitOn 44).map trim ++ x :: ts)
        (reached (front.count 44 + 2 + ts.length))).getD
      (if is_valid_ip (trim ((front.splitOn 44).headD [])) then trim ((front.splitOn 44).headD [])
        else []) := by
  have elements := split_ips_forwarded letters front
  have some_header : (forwarded_for front x ts).isEmpty = false := by
    rw [forwarded_eq]
    simp
  obtain ⟨first, parts, shape⟩ := List.exists_cons_of_ne_nil (List.splitOn_ne_nil 44 front)
  have count : parts.length = front.count 44 := by
    have lengths := splitOn_length (a := 44) front
    rw [shape, List.length_cons] at lengths
    omega
  unfold extract_forwarded_ip
  rw [elements, some_header, shape]
  have many : ((first :: parts).map trim ++ x :: ts).length = front.count 44 + 2 + ts.length := by
    rw [List.length_append, List.length_map, List.length_cons, List.length_cons, count]
    omega
  have several : ¬ front.count 44 + 2 + ts.length = 1 := by omega
  dsimp only
  rw [many, if_neg (by simp), if_neg several]
  rfl

/-- Proxies to the right of an address do not stop a walk that reaches the address. -/
theorem walk_finds {front : List Bytes} (some : x ≠ []) (valid : is_valid_ip x = true)
    (foreign : trusted.is_trusted x = false) (proxies : ∀ t ∈ ts, trusted.is_trusted t = true)
    {n : Nat} (reaches : front.length + 1 ≤ n) (inside : n ≤ (front ++ x :: ts).length) :
    trusted.walk (front ++ x :: ts) n = .some x := by
  obtain ⟨m, rfl⟩ := Nat.exists_eq_add_of_le reaches
  have taken : (front ++ x :: ts).take (front.length + 1 + m) = front ++ x :: ts.take m := by
    rw [List.take_append, List.take_of_length_le (by omega),
      show front.length + 1 + m - front.length = m + 1 by omega, List.take_succ_cons]
  rw [walk_eq _ inside, taken, List.reverse_append, List.reverse_cons, List.find?_append,
    List.find?_append, List.find?_eq_none.mpr]
  · rw [Option.none_or, List.find?_singleton, if_pos, Option.some_or]
    simp [some, valid, foreign]
  · intro t member
    have proxy := proxies t (List.mem_of_mem_take (List.mem_reverse.mp member))
    simp [proxy]

theorem walk_empty {front back : List Bytes} (empty : ∀ ip ∈ front, ip = []) {n : Nat}
    (short : n ≤ front.length) : trusted.walk (front ++ back) n = none := by
  rw [walk_eq _ (short.trans (by simp)), List.take_append_of_le_length short, List.find?_eq_none]
  intro ip member
  rw [empty ip (List.mem_of_mem_take (List.mem_reverse.mp member))]
  simp

theorem splitOn_commas (n : Nat) : ∀ ip ∈ (List.replicate n (44 : UInt8)).splitOn 44, ip = [] := by
  induction n with
  | zero => simp
  | succ n ih =>
    rw [List.replicate_succ, List.splitOn_cons_eq_if_modifyHead]
    simpa using ih

/-- Whatever stands in front, with so many commas, the address found is the one that the proxies
saw, exactly if the walk reaches it. -/
theorem forwarded_unaffected_iff (trusted : TrustedProxyList) {x : Bytes} {ts : List Bytes}
    (plain : 0 ∉ x) (valid : is_valid_ip x = true) (foreign : trusted.is_trusted x = false)
    (proxies : ∀ t ∈ ts, 0 ∉ t ∧ trusted.is_trusted t = true) (commas : Nat) :
    (∀ front : Bytes, front.count 44 = commas →
      extract_forwarded_ip (forwarded_for front x ts) (some trusted) = x) ↔
    commas + 2 ≤ reached (commas + 2 + ts.length) := by
  have letters : ∀ t ∈ x :: ts, t ≠ [] ∧ ∀ c ∈ t, addressLetter c = true :=
    List.forall_mem_cons.mpr ⟨address_of_valid plain valid, fun t member =>
      address_of_valid (proxies t member).1 (valid_of_trusted (proxies t member).2)⟩
  have some_x := (letters x List.mem_cons_self).1
  have parts (front : Bytes) : ((front.splitOn 44).map trim).length = front.count 44 + 1 := by
    rw [List.length_map, splitOn_length]
  constructor
  · intro found
    by_contra short
    have commas_only := found (List.replicate commas 44) List.count_replicate_self
    have empty : ∀ ip ∈ ((List.replicate commas (44 : UInt8)).splitOn 44).map trim, ip = [] := by
      intro ip member
      obtain ⟨part, inside, rfl⟩ := List.mem_map.mp member
      rw [splitOn_commas commas part inside]
      rfl
    have head : trim (((List.replicate commas (44 : UInt8)).splitOn 44).headD []) = [] := by
      cases shape : (List.replicate commas (44 : UInt8)).splitOn 44 with
      | nil => rfl
      | cons first rest =>
        rw [shape] at empty
        exact empty _ List.mem_cons_self
    rw [extract_forwarded letters, List.count_replicate_self, walk_empty empty, head] at commas_only
    · exact some_x commas_only.symm
    · rw [parts, List.count_replicate_self]
      omega
  · rintro reaches front rfl
    rw [extract_forwarded letters, walk_finds some_x valid foreign (fun t member => (proxies t member).2)]
    · rfl
    · rw [parts]
      exact reaches
    · rw [List.length_append, parts, List.length_cons]
      have bound := reached_le (front.count 44 + 2 + ts.length)
      omega

/-- With a range of proxies, one of them, and two addresses in front of it. -/
def tenNet : TrustedProxyList := .configure [bytes "10.0.0.0/8"]

theorem forwarded_behind_proxy :
    extract_forwarded_ip (forwarded_for (bytes "6.6.6.6,,x,") (bytes "1.2.3.4") [bytes "10.0.0.1"])
      (some tenNet) = bytes "1.2.3.4" :=
  (forwarded_unaffected_iff tenNet (by decide) (by decide) (by decide) (by decide) 3).mpr (by decide)
    (bytes "6.6.6.6,,x,") (by decide +kernel)

/-- Enough commas hide everything behind the first element from the walk. -/
theorem forwarded_forged {y : Bytes} (clean : 44 ∉ y) (valid : is_valid_ip (trim y) = true)
    (letters : ∀ t ∈ x :: ts, t ≠ [] ∧ ∀ c ∈ t, addressLetter c = true) {n : Nat}
    (blind : reached (n + 3 + ts.length) = 0) :
    extract_forwarded_ip (forwarded_for (y ++ 44 :: List.replicate n 44) x ts) (some trusted) = trim y := by
  have commas : (y ++ 44 :: List.replicate n 44).count 44 + 2 + ts.length = n + 3 + ts.length := by
    rw [List.count_append, List.count_eq_zero.mpr clean, List.count_cons_self,
      List.count_replicate_self]
    omega
  rw [extract_forwarded letters, commas, blind, List.splitOn_append_cons_self_of_not_mem clean]
  simp [TrustedProxyList.walk, valid]

theorem forged_address_accepted :
    extract_forwarded_ip (forwarded_for (bytes "6.6.6.6" ++ 44 :: List.replicate (2 ^ 31) 44)
      (bytes "1.2.3.4") [bytes "10.0.0.1"]) (some tenNet) = bytes "6.6.6.6" :=
  forwarded_forged (by decide) (by decide) (List.forall_mem_cons.mpr
    ⟨address_of_valid (by decide) (by decide), List.forall_mem_singleton.mpr
      (address_of_valid (by decide) (by decide))⟩) (by decide)

end Proof

end AoSdl
