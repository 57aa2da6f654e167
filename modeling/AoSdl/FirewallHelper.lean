import AoSdl.FirewallForms

/-! The validators of the helper that sets the kernel's blocks, next to those of the server that
calls it. The helper gets a target as a null-terminated string. -/
namespace AoSdl.FwHelper
open FirewallManager Lib.Scanning Lib.Fields

def is_valid_ipv4 (s : Bytes) : Bool :=
  match scan_dotted 4 s with
  | none => false
  | some parts => parts.all fun part => !(part < 0 || 255 < part)

/-- A letter of the loop. Two colons and three are told apart here. -/
def step (s : Ipv6Groups) (c : UInt8) : Option Ipv6Groups :=
  if c = 58 then
    let s := { s with consecutive_colons := s.consecutive_colons + 1 }
    if s.consecutive_colons = 2 then
      let s := { s with double_colon_count := s.double_colon_count + 1 }
      if 1 < s.double_colon_count then none else some s
    else if 2 < s.consecutive_colons then none
    else some s
  else if isxdigit c then
    some { s with
      groups := if 0 < s.consecutive_colons then s.groups + 1 else s.groups
      consecutive_colons := 0 }
  else none

/-- What the loop runs over: its bound is an `int`. -/
def seen (s : Bytes) : Bytes := s.take (intOfSize s.length).toNat

/-- The loop and the tests behind it. -/
def groups_pass (s : Bytes) : Bool :=
  match s.foldlM step {} with
  | none => false
  | some t =>
    let groups := if s.getLast? ≠ some 58 then t.groups + 1 else t.groups
    if 58 ∉ s then false
    else if t.double_colon_count = 0 && groups ≠ 8 then false
    else if 8 < groups then false
    else true

def is_valid_ipv6 (s : Bytes) : Bool :=
  let len := intOfSize s.length
  if len < 2 || 39 < len then false else groups_pass (seen s)

def is_valid_ip (s : Bytes) : Bool := is_valid_ipv4 s || is_valid_ipv6 s

def is_valid_cidr (s : Bytes) : Bool :=
  match splitFirst 47 s with
  | none => false
  | some (ip, rest) =>
    if ip.isEmpty || rest.isEmpty then false
    else if 64 ≤ ip.length then false
    else if !is_valid_ip ip then false
    else
      match scan_int rest with
      | some (len, []) => !(len < 0 || (if 58 ∈ ip then 128 else 32) < len)
      | _ => false

/-- The end of a text, or of the string that starts it. -/
def Ends (rest : Bytes) : Prop := ∀ c ∈ rest.head?, c = 0

/-- The target is taken by both programs or by neither. -/
structure Agree (s : Bytes) : Prop where
  ip : FirewallManager.is_valid_ip s = is_valid_ip (c_str s)
  cidr : FirewallManager.is_valid_cidr s = is_valid_cidr (c_str s)

/-- Dotted texts are short, and texts with colons have no zero byte and are no longer than the part
of them that the helper looks at. -/
structure PlainAddress (s : Bytes) : Prop where
  dotted : IsDotted (c_str s) → s.length ≤ 45
  colons : IsColons (seen (c_str s)) → (seen (c_str s)).length ≤ 39 → 0 ∉ s ∧ s.length ≤ 39

/-- The texts of less than 64 bytes that the helper takes for an address. -/
def HelperForm (s : Bytes) : Prop := IsDotted s ∨ s.length ≤ 39 ∧ IsColons s

/-- A range with an address of the server's form and a prefix length that fits ends with its digits;
and in one with an address of the helper's form and a length that is stored as one that fits, the
address is short and the length fits as it is written. -/
structure PlainRange (s : Bytes) : Prop where
  ends : ∀ ip pre, s = ip ++ 47 :: pre → 47 ∉ ip → ServerForm ip →
    ∀ (n : Numeral) rest, n.Leads pre rest → InRange ip n.value → 0 ∉ ip ∧ Ends rest
  fits : ∀ ip pre, s = ip ++ 47 :: pre → 47 ∉ ip → 0 ∉ ip → ip.length < 64 → HelperForm ip →
    ∀ (n : Numeral) rest, n.Leads pre rest → Ends rest → InRange ip (stored n.value) →
      (IsDotted ip → ip.length ≤ 45) ∧ InRange ip n.value

section Proof

variable {s t ip pre rest : Bytes}

/-- While `::` was counted once at most, the loops of both programs take the same step. -/
theorem step_eq {s : Ipv6Groups} (once : s.double_colon_count ≤ 1) (c : UInt8) : step s c = s.step c := by
  unfold step Ipv6Groups.step
  dsimp only
  split
  · split
    · next two => simp [two]
    · simp [Nat.not_lt.mpr once]
  · rfl

theorem step_once {s t : Ipv6Groups} {c : UInt8} (once : s.double_colon_count ≤ 1) (stepped : s.step c = some t) :
    t.double_colon_count ≤ 1 := by
  unfold Ipv6Groups.step at stepped
  split at stepped
  · dsimp only at stepped
    generalize (if s.consecutive_colons + 1 = 2 then _ else _ : Ipv6Groups) = u at stepped
    split at stepped
    · cases stepped
    · next fits =>
      cases stepped
      rw [Bool.or_eq_true, decide_eq_true_eq, decide_eq_true_eq, not_or] at fits
      exact Nat.not_lt.mp fits.2
  · split at stepped
    · cases stepped
      exact once
    · cases stepped

theorem scan_eq {t : Ipv6Groups} (once : t.double_colon_count ≤ 1) :
    s.foldlM step t = s.foldlM Ipv6Groups.step t := by
  induction s generalizing t with
  | nil => rfl
  | cons c s ih =>
    rw [List.foldlM_cons, List.foldlM_cons, step_eq once]
    cases stepped : t.step c with
    | none => rfl
    | some next => exact ih (step_once once stepped)

theorem is_valid_ipv4_iff : is_valid_ipv4 s = true ↔ IsDotted s := by
  rw [← octets_pass_iff]
  unfold is_valid_ipv4 octets_pass
  cases scan_dotted 4 s <;> simp

theorem length_seen (s : Bytes) : (seen s).length = (intOfSize s.length).toNat := by
  have low := intOfSize_le s.length
  rw [seen, List.length_take]
  omega

theorem groups_pass_eq (s : Bytes) : groups_pass s = colons_pass s := by
  unfold groups_pass colons_pass
  rw [scan_eq (Nat.zero_le 1)]
  cases s.foldlM Ipv6Groups.step {} with
  | none => rfl
  | some t =>
    have last : (if s.getLast? ≠ some 58 then t.groups + 1 else t.groups) =
        if s.getLast? = some 58 then t.groups else t.groups + 1 := ite_not _ _ _
    dsimp only
    rw [last]
    generalize (if s.getLast? = some 58 then t.groups else t.groups + 1) = groups
    split
    · next none => simp [none]
    · next colon =>
      rw [Decidable.not_not] at colon
      split
      · next few => simp only [few, Bool.not_true, Bool.and_false, Bool.false_and]
      · next enough =>
        simp only [enough, colon, decide_true, Bool.true_and, Bool.not_false]
        split
        · next many => simp [Nat.not_le.mpr many]
        · next fits => simp [Nat.not_lt.mp fits]

theorem is_valid_ipv6_iff : is_valid_ipv6 s = true ↔ (seen s).length ≤ 39 ∧ IsColons (seen s) := by
  have length := length_seen s
  unfold is_valid_ipv6
  rw [groups_pass_eq]
  dsimp only
  split
  · next off =>
    rw [Bool.or_eq_true, decide_eq_true_eq, decide_eq_true_eq] at off
    refine ⟨nofun, fun ⟨short, colons⟩ => ?_⟩
    have long := colons.long
    omega
  · next fits =>
    rw [Bool.or_eq_true, decide_eq_true_eq, decide_eq_true_eq] at fits
    rw [colons_pass_iff]
    exact ⟨fun colons => ⟨by omega, colons⟩, And.right⟩

theorem is_valid_ip_iff : is_valid_ip s = true ↔ IsDotted s ∨ (seen s).length ≤ 39 ∧ IsColons (seen s) := by
  rw [is_valid_ip, Bool.or_eq_true, is_valid_ipv4_iff, is_valid_ipv6_iff]

theorem seen_eq (short : s.length < 64) : seen s = s := by
  have length : intOfSize s.length = s.length := Int.bmod_eq_of_le (by omega) (by omega)
  rw [seen, length, Int.toNat_natCast, List.take_length]

theorem c_str_length (s : Bytes) : (c_str s).length ≤ s.length := (List.takeWhile_prefix _).length_le

theorem agree_ip_iff : FirewallManager.is_valid_ip s = is_valid_ip (c_str s) ↔ PlainAddress s := by
  have shorter := c_str_length s
  rw [Bool.eq_iff_iff, FirewallManager.is_valid_ip_iff, is_valid_ip_iff, ServerForm]
  constructor
  · rintro ⟨_, applied⟩
    refine ⟨fun dotted => ?_, fun colons short => ?_⟩
    · rcases applied (.inl dotted) with ⟨short, _⟩ | ⟨_, colons⟩
      · exact short
      · exact absurd (List.takeWhile_subset _ dotted.dot) colons.no_dot
    · rcases applied (.inr ⟨short, colons⟩) with ⟨long, dotted⟩ | ⟨whole, again⟩
      · rw [seen_eq (by omega)] at colons
        exact absurd dotted.dot colons.no_dot
      · exact ⟨again.clean, whole⟩
  · intro plain
    constructor
    · rintro (⟨_, dotted⟩ | ⟨short, colons⟩)
      · exact .inl dotted
      · rw [c_str_eq colons.clean, seen_eq (by omega)]
        exact .inr ⟨short, colons⟩
    · rintro (dotted | ⟨short, colons⟩)
      · exact .inl ⟨plain.dotted dotted, dotted⟩
      · obtain ⟨clean, whole⟩ := plain.colons colons short
        rw [c_str_eq clean, seen_eq (by omega)] at colons
        exact .inr ⟨whole, colons⟩

/-- A number that ends a string is one that ends the text or stands in front of a zero byte. -/
theorem leads_c_str_iff {n : Numeral} : n.Leads (c_str pre) [] ↔ ∃ rest, n.Leads pre rest ∧ Ends rest := by
  constructor
  · intro leads
    obtain ⟨text, _, stops⟩ := longest (· != 0) pre
    have ends : Ends (pre.dropWhile (· != 0)) := fun c head => by simpa using stops c head
    refine ⟨pre.dropWhile (· != 0), ⟨?_, leads.blank, leads.signed, leads.numeric, leads.filled, fun c head => ?_⟩, ends⟩
    · conv_lhs => rw [text]
      change c_str pre ++ _ = _
      rw [leads.text]
      simp only [List.append_assoc, List.nil_append]
    · rw [ends c head]
      rfl
  · rintro ⟨rest, leads, ends⟩
    have whole : Longest (· != 0) pre (n.gap ++ (n.sign ++ n.digits)) rest := by
      refine ⟨by rw [leads.text]; simp only [List.append_assoc], fun c member => ?_, fun c head => by simp [ends c head]⟩
      have other : c ≠ 0 := by
        rintro rfl
        rcases List.mem_append.mp member with blank | member
        · cases leads.blank 0 blank
        · rcases List.mem_append.mp member with sign | digit
          · rcases leads.signed with same | same | same <;> rw [same] at sign <;> simp at sign
          · cases leads.numeric 0 digit
      simpa using other
    exact ⟨by rw [c_str, whole.takeWhile_eq]; simp only [List.append_nil], leads.blank, leads.signed, leads.numeric,
      leads.filled, nofun⟩

theorem is_valid_cidr_iff (clean : 47 ∉ ip) :
    is_valid_cidr (ip ++ 47 :: pre) = true ↔
      ip.length < 64 ∧ is_valid_ip ip = true ∧ ∃ n : Numeral, n.Leads pre [] ∧ InRange ip (stored n.value) := by
  unfold is_valid_cidr
  rw [splitFirst_append clean]
  dsimp only
  split
  · next off =>
    rw [Bool.or_eq_true, List.isEmpty_iff, List.isEmpty_iff] at off
    refine ⟨nofun, fun ⟨_, valid, n, leads, _⟩ => ?_⟩
    rcases off with rfl | rfl
    · exact absurd valid (by decide)
    · exact absurd leads.text (by simp [leads.filled])
  · split
    · next long => exact ⟨nofun, fun form => by omega⟩
    · next short =>
      rw [and_iff_right (Nat.not_le.mp short)]
      split
      · next invalid => exact ⟨nofun, fun form => absurd form.1 (by simpa using invalid)⟩
      · next valid =>
        have valid : is_valid_ip ip = true := by simpa using valid
        rw [and_iff_right valid]
        split
        · next len scanned =>
          obtain ⟨n, leads, rfl⟩ := scan_int_iff.mp scanned
          have range : (!(stored n.value < 0 || (if 58 ∈ ip then 128 else 32) < stored n.value)) = true ↔
              InRange ip (stored n.value) := by
            simp [InRange, limit]
          rw [range]
          refine ⟨fun inside => ⟨n, leads, inside⟩, fun ⟨m, again, inside⟩ => ?_⟩
          rwa [(leads.unique again).1]
        · next other =>
          refine ⟨nofun, fun ⟨n, leads, _⟩ => ?_⟩
          exact absurd (scan_int_iff.mpr ⟨n, leads, rfl⟩) (other _)

theorem stored_eq {ip : Bytes} {k : Int} (range : InRange ip k) : stored k = k := by
  have bound := limit_le ip
  obtain ⟨low, high⟩ := range
  rw [stored, min_eq_right (by omega), max_eq_right (by omega)]
  exact Int.bmod_eq_of_le (by omega) (by omega)

theorem helper_form_iff (short : ip.length < 64) : is_valid_ip ip = true ↔ HelperForm ip := by
  rw [is_valid_ip_iff, seen_eq short, HelperForm]

theorem server_form_iff (clean : 0 ∉ ip) :
    ServerForm ip ↔ HelperForm ip ∧ (IsDotted ip → ip.length ≤ 45) := by
  rw [ServerForm, HelperForm, c_str_eq clean]
  constructor
  · rintro (⟨fits, dotted⟩ | ⟨fits, colons⟩)
    · exact ⟨.inl dotted, fun _ => fits⟩
    · exact ⟨.inr ⟨fits, colons⟩, fun _ => fits.trans (by decide)⟩
  · rintro ⟨dotted | colons, fits⟩
    · exact .inl ⟨fits dotted, dotted⟩
    · exact .inr colons

theorem server_form_short (form : ServerForm ip) : ip.length < 64 := by
  rcases form with ⟨short, _⟩ | ⟨short, _⟩
  · exact short.trans_lt (by decide)
  · exact short.trans_lt (by decide)

/-- The helper gets nothing behind a zero byte, so no range where one stands in the address. -/
theorem cidr_of_zero (clean : 47 ∉ ip) (zero : 0 ∈ ip) : is_valid_cidr (c_str (ip ++ 47 :: pre)) = false := by
  have inside : c_str (ip ++ 47 :: pre) <+: ip := by
    obtain ⟨front, later, rfl, before⟩ := List.eq_append_cons_of_mem zero
    have cut : Longest (· != 0) (front ++ 0 :: (later ++ 47 :: pre)) front (0 :: (later ++ 47 :: pre)) := by
      refine ⟨rfl, fun c member => ?_, fun c head => ?_⟩
      · have other : c ≠ 0 := fun same => before (same ▸ member)
        simpa using other
      · obtain rfl := Option.mem_some.mp head
        rfl
    rw [List.append_assoc, List.cons_append, c_str, cut.takeWhile_eq]
    exact List.prefix_append front _
  have none : 47 ∉ c_str (ip ++ 47 :: pre) := fun slash => clean (inside.subset slash)
  rw [is_valid_cidr, splitFirst_none.mpr none]

theorem c_str_range (plain : 0 ∉ ip) : c_str (ip ++ 47 :: pre) = ip ++ 47 :: c_str pre := by
  have inside : ∀ c ∈ ip, (c != 0) = true := fun c member => by
    have other : c ≠ 0 := fun same => plain (same ▸ member)
    simpa using other
  rw [c_str, List.takeWhile_append_of_pos inside]
  rfl

theorem agree_cidr_iff : FirewallManager.is_valid_cidr s = is_valid_cidr (c_str s) ↔ PlainRange s := by
  by_cases slash : 47 ∈ s
  · obtain ⟨ip, pre, rfl, clean⟩ := List.eq_append_cons_of_mem slash
    rw [Bool.eq_iff_iff, FirewallManager.is_valid_cidr_iff clean, FirewallManager.is_valid_ip_iff]
    constructor
    · rintro ⟨recorded, applied⟩
      constructor
      · intro ip' pre' same clean' valid n rest leads range
        obtain ⟨rfl, rfl⟩ := append_cons_inj clean' clean same.symm
        have taken := recorded ⟨valid, n, rest, leads, range⟩
        by_cases zero : 0 ∈ ip'
        · rw [cidr_of_zero clean zero] at taken
          cases taken
        · rw [c_str_range zero, is_valid_cidr_iff clean] at taken
          obtain ⟨_, _, m, whole, _⟩ := taken
          obtain ⟨rest', again, ends⟩ := leads_c_str_iff.mp whole
          exact ⟨zero, (leads.unique again).2 ▸ ends⟩
      · intro ip' pre' same clean' plain short valid n rest leads ends range
        obtain ⟨rfl, rfl⟩ := append_cons_inj clean' clean same.symm
        obtain ⟨ip_valid, m, rest', again, inside⟩ := applied (by
          rw [c_str_range plain, is_valid_cidr_iff clean]
          exact ⟨short, (helper_form_iff short).mpr valid, n, leads_c_str_iff.mpr ⟨rest, leads, ends⟩, range⟩)
        exact ⟨((server_form_iff plain).mp ip_valid).2, (leads.unique again).1 ▸ inside⟩
    · intro plain
      constructor
      · rintro ⟨valid, n, rest, leads, range⟩
        obtain ⟨no_zero, ends⟩ := plain.ends ip pre rfl clean valid n rest leads range
        have short := server_form_short valid
        rw [c_str_range no_zero, is_valid_cidr_iff clean, helper_form_iff short]
        exact ⟨short, ((server_form_iff no_zero).mp valid).1, n, leads_c_str_iff.mpr ⟨rest, leads, ends⟩,
          (stored_eq range).symm ▸ range⟩
      · intro taken
        by_cases zero : 0 ∈ ip
        · rw [cidr_of_zero clean zero] at taken
          cases taken
        · rw [c_str_range zero, is_valid_cidr_iff clean] at taken
          obtain ⟨short, valid, n, whole, range⟩ := taken
          obtain ⟨rest, leads, ends⟩ := leads_c_str_iff.mp whole
          have form := (helper_form_iff short).mp valid
          obtain ⟨dotted, inside⟩ := plain.fits ip pre rfl clean zero short form n rest leads ends range
          exact ⟨(server_form_iff zero).mpr ⟨form, dotted⟩, n, rest, leads, inside⟩
  · have none : 47 ∉ c_str s := fun inside => slash (List.takeWhile_subset _ inside)
    rw [no_slash_invalid slash, is_valid_cidr, splitFirst_none.mpr none]
    refine ⟨fun _ => ⟨fun ip pre same => ?_, fun ip pre same => ?_⟩, fun _ => rfl⟩
    · exact absurd (same ▸ by simp) slash
    · exact absurd (same ▸ by simp) slash

theorem programs_agree_iff : Agree s ↔ PlainAddress s ∧ PlainRange s := by
  rw [← agree_ip_iff, ← agree_cidr_iff]
  exact ⟨fun agree => ⟨agree.ip, agree.cidr⟩, fun agree => ⟨agree.1, agree.2⟩⟩

/-- The server records a range that the helper refuses. -/
theorem garbage_recorded : ¬ Agree (bytes "10.0.0.0/24abc") := by
  intro agree
  exact absurd agree.cidr (by decide +kernel)

end Proof

end AoSdl.FwHelper
