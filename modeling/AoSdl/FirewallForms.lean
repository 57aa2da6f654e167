import AoSdl.FirewallManager
import AoSdl.Lib.Fields
import AoSdl.Lib.Scanning

/-! The texts that the validators of the firewall let through: four numbers as `%d` reads them, and
hexadecimal pieces between colons. -/
namespace AoSdl.FirewallManager
open Lib.Decimal Lib.Scanning Lib.Fields

/-- What `%d` stores of a number: `strtol` saturates, and the conversion to `int` cuts. -/
def stored (n : Int) : Int := wrap32 (max (-2 ^ 63) (min (2 ^ 63 - 1) n))

/-- Numbers with a dot between each two, and nothing behind the last. -/
inductive Dotted : List Numeral → Bytes → Prop where
  | last {n : Numeral} {s : Bytes} (number : n.Leads s []) : Dotted [n] s
  | dot {n : Numeral} {ns : List Numeral} {s rest : Bytes} (number : n.Leads s (46 :: rest))
    (later : Dotted ns rest) : Dotted (n :: ns) s

/-- Four numbers that `%d` stores as octets. -/
structure DottedText (ns : List Numeral) (s : Bytes) : Prop where
  dotted : Dotted ns s
  four : ns.length = 4
  octets : ∀ n ∈ ns, 0 ≤ stored n.value ∧ stored n.value ≤ 255

/-- How many groups are counted in the pieces behind the first. -/
def group_count (ps : List Bytes) : Nat := ps.countP (!·.isEmpty) + if ps.getLast? = some [] then 0 else 1

/-- Hexadecimal pieces with a colon between each two: a piece between two colons is empty at most
once, and eight groups are counted, or fewer where there is one. -/
structure ColonText (p : Bytes) (ps : List Bytes) : Prop where
  colon : ps ≠ []
  hex : ∀ q ∈ p :: ps, ∀ c ∈ q, isxdigit c = true
  once : ps.dropLast.count [] ≤ 1
  fits : group_count ps ≤ 8
  full : [] ∉ ps.dropLast → group_count ps = 8

/-- The text is of the dotted form. -/
def IsDotted (s : Bytes) : Prop := ∃ ns, DottedText ns s

/-- The text is of the form with colons. -/
def IsColons (s : Bytes) : Prop := ∃ p ps, s = join 58 p ps ∧ ColonText p ps

/-- The texts that the server takes for an address. -/
def ServerForm (s : Bytes) : Prop := s.length ≤ 45 ∧ IsDotted (c_str s) ∨ s.length ≤ 39 ∧ IsColons s

section Proof

variable {s rest : Bytes} {ns : List Numeral} {p : Bytes} {ps : List Bytes}

theorem scan_int_eq (s : Bytes) :
    scan_int s = (readNat (unsigned (s.dropWhile isSpace))).map fun (k : Nat) =>
      (stored (if (s.dropWhile isSpace).head? = some 45 then -(k : Int) else k),
        (unsigned (s.dropWhile isSpace)).dropWhile isDigit) := by
  unfold scan_int
  generalize s.dropWhile isSpace = body
  have digits (later : Bytes) (negative : Bool) :
      (if (later.takeWhile isDigit).isEmpty then none
        else some (wrap32 (max (-2 ^ 63) (min (2 ^ 63 - 1)
          (if negative = true then -(value (later.takeWhile isDigit) : Int) else value (later.takeWhile isDigit)))),
            later.dropWhile isDigit)) =
        (readNat later).map fun (k : Nat) =>
          (stored (if negative = true then -(k : Int) else k), later.dropWhile isDigit) := by
    simp only [readNat]
    split <;> rfl
  cases body with
  | nil => rfl
  | cons c later =>
    by_cases minus : c = 45
    · subst minus
      exact digits later true
    · by_cases plus : c = 43
      · subst plus
        exact digits later false
      · have sign : unsigned (c :: later) = c :: later := by simp [unsigned, minus, plus]
        have head : (c :: later).head? ≠ some 45 := by simpa using minus
        simp only [sign, head, if_false]
        have plain := digits (c :: later) false
        simp only [Bool.false_eq_true, if_false] at plain
        rw [← plain]
        split
        · next shape => simp [minus] at shape
        · next shape => simp [plus] at shape
        · rfl

theorem scan_int_iff {k : Int} :
    scan_int s = some (k, rest) ↔ ∃ n : Numeral, n.Leads s rest ∧ stored n.value = k := by
  rw [scan_int_eq]
  constructor
  · intro scanned
    obtain ⟨sign, signed, body, minus⟩ := exists_sign (s.dropWhile isSpace)
    obtain ⟨j, digits, taken⟩ := Option.map_eq_some_iff.mp scanned
    obtain ⟨filled, rfl⟩ := readNat_eq_some.mp digits
    obtain ⟨rfl, rfl⟩ := Prod.mk.inj taken
    refine ⟨⟨_, sign, _⟩, number_of_digits signed body filled, ?_⟩
    simp only [Numeral.value, minus]
  · rintro ⟨n, number, rfl⟩
    obtain ⟨behind, minus⟩ := number.unsigned_eq
    rw [number.blanks.dropWhile_eq, behind, number.readNat_eq, Option.map_some, number.longest.dropWhile_eq]
    simp only [minus, Numeral.value]

theorem scan_dotted_iff {k : Nat} {vs : List Int} :
    scan_dotted k s = some vs ↔ ∃ ns, Dotted ns s ∧ ns.length = k ∧ ns.map (fun n => stored n.value) = vs := by
  induction k generalizing s vs with
  | zero =>
    refine ⟨nofun, ?_⟩
    rintro ⟨ns, dotted, none, _⟩
    cases dotted <;> cases none
  | succ k ih =>
    unfold scan_dotted
    constructor
    · intro scanned
      split at scanned
      · cases scanned
      · next a rest number =>
        obtain ⟨n, leads, rfl⟩ := scan_int_iff.mp number
        split at scanned
        · cases scanned
          exact ⟨[n], .last leads, rfl, rfl⟩
        · obtain ⟨later, inner, rfl⟩ := Option.map_eq_some_iff.mp scanned
          obtain ⟨ns, dotted, length, rfl⟩ := ih.mp inner
          exact ⟨n :: ns, .dot leads dotted, by simp [length], rfl⟩
        · cases scanned
    · rintro ⟨ns, dotted, length, rfl⟩
      cases dotted with
      | last leads =>
        obtain rfl : k = 0 := by simpa using length.symm
        simp [scan_int_iff.mpr ⟨_, leads, rfl⟩]
      | @dot n ns _ rest leads later =>
        have inner := ih.mpr ⟨ns, later, by simpa using length, rfl⟩
        simp [scan_int_iff.mpr ⟨_, leads, rfl⟩, inner]

theorem Dotted.unique {ms : List Numeral} (dotted : Dotted ns s) (again : Dotted ms s) : ns = ms := by
  induction dotted generalizing ms with
  | last leads =>
    cases again with
    | last leads' => rw [(leads.unique leads').1]
    | dot leads' later => exact absurd (leads.unique leads').2 (by simp)
  | dot leads _ ih =>
    cases again with
    | last leads' => exact absurd (leads.unique leads').2 (by simp)
    | dot leads' later =>
      obtain ⟨rfl, rest⟩ := leads.unique leads'
      rw [ih ((List.cons.inj rest).2 ▸ later)]

/-- What a piece does to the counters: its first letter begins a group behind a colon. -/
def Ipv6Groups.piece (s : Ipv6Groups) (p : Bytes) : Ipv6Groups :=
  if p.isEmpty then s
  else { s with groups := if 0 < s.consecutive_colons then s.groups + 1 else s.groups, consecutive_colons := 0 }

theorem step_hex {c : UInt8} (hex : isxdigit c = true) (s : Ipv6Groups) :
    s.step c = some { s with
      groups := if 0 < s.consecutive_colons then s.groups + 1 else s.groups, consecutive_colons := 0 } := by
  have other : c ≠ 58 := by
    rintro rfl
    cases hex
  rw [Ipv6Groups.step, if_neg other, if_pos hex]

theorem scan_piece (hex : ∀ c ∈ p, isxdigit c = true) (s : Ipv6Groups) : p.foldlM Ipv6Groups.step s = some (s.piece p) := by
  induction p generalizing s with
  | nil => rfl
  | cons c p ih =>
    rw [List.foldlM_cons, step_hex (hex c List.mem_cons_self), Option.bind_eq_bind, Option.bind_some,
      ih fun d member => hex d (List.mem_cons_of_mem c member)]
    cases p with
    | nil => rfl
    | cons d p => rfl

/-- Pieces with a colon in front of each. -/
def colon_pieces (ps : List Bytes) : Bytes := ps.flatMap (58 :: ·)

/-- How often two colons come to stand together. -/
def doubled (s : Ipv6Groups) (ps : List Bytes) : Nat :=
  s.double_colon_count + (if ps = [] then 0 else s.consecutive_colons) + ps.dropLast.count []

theorem doubled_cons (s : Ipv6Groups) (q : Bytes) (ps : List Bytes) :
    doubled s (q :: ps) = s.double_colon_count + s.consecutive_colons + (if ps = [] then 0 else if q = [] then 1 else 0) +
      ps.dropLast.count [] := by
  cases ps with
  | nil => simp [doubled]
  | cons r ps =>
    by_cases empty : q = [] <;> simp [doubled, empty]
    omega

/-- Two colons are counted when the second is read, a third beside them stops the scan. -/
theorem scan_colon_pieces (hex : ∀ q ∈ ps, ∀ c ∈ q, isxdigit c = true) (s : Ipv6Groups)
    (low : s.double_colon_count ≤ 1) (colons : s.consecutive_colons ≤ 2)
    (pair : s.consecutive_colons = 2 → s.double_colon_count = 1) :
    if doubled s ps ≤ 1 then
      ∃ k, (colon_pieces ps).foldlM Ipv6Groups.step s = some ⟨doubled s ps, k, s.groups + ps.countP (!·.isEmpty)⟩
    else (colon_pieces ps).foldlM Ipv6Groups.step s = none := by
  induction ps generalizing s with
  | nil =>
    have same : doubled s [] = s.double_colon_count := by simp [doubled]
    rw [if_pos (same ▸ low)]
    exact ⟨s.consecutive_colons, by simp [colon_pieces, same]⟩
  | cons q ps ih =>
    have fold : (colon_pieces (q :: ps)).foldlM Ipv6Groups.step s =
        (s.step 58).bind fun t => (colon_pieces ps).foldlM Ipv6Groups.step (t.piece q) := by
      rw [colon_pieces, List.flatMap_cons, List.cons_append, List.foldlM_cons]
      refine congrArg (Option.bind (s.step 58)) (funext fun t => ?_)
      rw [List.foldlM_append, scan_piece (hex q List.mem_cons_self)]
      rfl
    have later (t : Ipv6Groups) := ih (fun r member => hex r (List.mem_cons_of_mem q member)) t
    rw [fold, doubled_cons]
    clear fold ih
    obtain ⟨d, k, g⟩ := s
    dsimp only at low colons pair
    obtain rfl | rfl | rfl : k = 0 ∨ k = 1 ∨ k = 2 := by omega
    · have next : Ipv6Groups.step ⟨d, 0, g⟩ 58 = some ⟨d, 1, g⟩ := by
        simp [Ipv6Groups.step, Nat.not_lt.mpr low]
      rw [next, Option.bind_some]
      by_cases empty : q = []
      · have run := later ⟨d, 1, g⟩ low (by simp) (by simp)
        simpa [doubled, empty, Ipv6Groups.piece] using run
      · have run := later ⟨d, 0, g + 1⟩ low (by simp) (by simp)
        simpa [doubled, empty, Ipv6Groups.piece, Nat.add_assoc, Nat.add_comm 1] using run
    · obtain rfl | rfl : d = 0 ∨ d = 1 := by omega
      · have next : Ipv6Groups.step ⟨0, 1, g⟩ 58 = some ⟨1, 2, g⟩ := by simp [Ipv6Groups.step]
        rw [next, Option.bind_some]
        by_cases empty : q = []
        · by_cases last : ps = []
          · simp [empty, last, colon_pieces, Ipv6Groups.piece]
          · have run := later ⟨1, 2, g⟩ (by simp) (by simp) (by simp)
            rw [if_neg (by simp only [doubled, if_neg last]; omega)] at run
            rw [if_neg (by simp only [if_neg last, if_pos empty]; omega)]
            simpa [empty, Ipv6Groups.piece] using run
        · have run := later ⟨1, 0, g + 1⟩ (by simp) (by simp) (by simp)
          simpa [doubled, empty, Ipv6Groups.piece, Nat.add_assoc, Nat.add_comm 1] using run
      · have stop : Ipv6Groups.step ⟨1, 1, g⟩ 58 = none := by simp [Ipv6Groups.step]
        rw [stop, if_neg (by dsimp only; omega)]
        rfl
    · have stop : Ipv6Groups.step ⟨d, 2, g⟩ 58 = none := by simp [Ipv6Groups.step]
      rw [stop, if_neg (by dsimp only; omega)]
      rfl

theorem join_colon (p : Bytes) (ps : List Bytes) : join 58 p ps = p ++ colon_pieces ps := by
  induction ps generalizing p with
  | nil => simp [colon_pieces]
  | cons q ps ih => rw [join_cons, ih, colon_pieces, colon_pieces, List.flatMap_cons, List.cons_append]

theorem scan_join (hex : ∀ q ∈ p :: ps, ∀ c ∈ q, isxdigit c = true) :
    if ps.dropLast.count [] ≤ 1 then
      ∃ k, (join 58 p ps).foldlM Ipv6Groups.step {} = some ⟨ps.dropLast.count [], k, ps.countP (!·.isEmpty)⟩
    else (join 58 p ps).foldlM Ipv6Groups.step {} = none := by
  have start : (Ipv6Groups.piece {} p) = {} := by
    unfold Ipv6Groups.piece
    split <;> rfl
  rw [join_colon, List.foldlM_append, scan_piece (hex p List.mem_cons_self), start]
  have run := scan_colon_pieces (fun q member => hex q (List.mem_cons_of_mem p member)) {} (Nat.zero_le 1)
    (Nat.zero_le 2) nofun
  simpa [doubled] using run

theorem scan_letters {t u : Ipv6Groups} (scanned : s.foldlM Ipv6Groups.step t = some u) :
    ∀ c ∈ s, c = 58 ∨ isxdigit c = true := by
  induction s generalizing t with
  | nil => exact List.forall_mem_nil _
  | cons c s ih =>
    rw [List.foldlM_cons, Option.bind_eq_bind, Option.bind_eq_some_iff] at scanned
    obtain ⟨next, step, later⟩ := scanned
    refine List.forall_mem_cons.mpr ⟨?_, ih later⟩
    unfold Ipv6Groups.step at step
    split at step
    · next colon => exact .inl colon
    · split at step
      · next hex => exact .inr hex
      · cases step

theorem mem_join {c : UInt8} : c ∈ join 58 p ps ↔ (∃ q ∈ p :: ps, c ∈ q) ∨ c = 58 ∧ ps ≠ [] := by
  rw [join_colon, colon_pieces, List.mem_append, List.mem_flatMap, List.exists_mem_cons_iff, or_assoc]
  refine or_congr_right ⟨?_, ?_⟩
  · rintro ⟨q, member, inside⟩
    rcases List.mem_cons.mp inside with rfl | inside
    · exact .inr ⟨rfl, List.ne_nil_of_mem member⟩
    · exact .inl ⟨q, member, inside⟩
  · rintro (⟨q, member, inside⟩ | ⟨rfl, filled⟩)
    · exact ⟨q, member, List.mem_cons_of_mem 58 inside⟩
    · obtain ⟨q, later, rfl⟩ := List.exists_cons_of_ne_nil filled
      exact ⟨q, List.mem_cons_self, List.mem_cons_self⟩

theorem hex_ne_colon {c : UInt8} (hex : isxdigit c = true) : c ≠ 58 := by
  rintro rfl
  cases hex

theorem getLast_join (hex : ∀ q ∈ ps, ∀ c ∈ q, isxdigit c = true) (filled : ps ≠ []) :
    (join 58 p ps).getLast? = some 58 ↔ ps.getLast? = some [] := by
  obtain ⟨init, q, rfl⟩ := (List.eq_nil_or_concat ps).resolve_left filled
  rw [List.concat_eq_append] at hex filled ⊢
  have text : join 58 p (init ++ [q]) = (p ++ colon_pieces init ++ [58]) ++ q := by
    simp [join_colon, colon_pieces]
  rw [text, List.getLast?_append, List.getLast?_concat]
  rcases List.eq_nil_or_concat q with rfl | ⟨front, c, rfl⟩
  · simp
  · have other : c ≠ 58 := hex_ne_colon (hex (front.concat c) (by simp) c (by simp))
    simp [other]

/-- The test of a text without a dot. -/
def colons_pass (s : Bytes) : Bool :=
  match s.foldlM Ipv6Groups.step {} with
  | none => false
  | some t =>
    let groups := if s.getLast? = some 58 then t.groups else t.groups + 1
    58 ∈ s && !(t.double_colon_count = 0 && groups ≠ 8) && groups ≤ 8

theorem colons_pass_join (hex : ∀ q ∈ p :: ps, ∀ c ∈ q, isxdigit c = true) :
    colons_pass (join 58 p ps) = true ↔ ColonText p ps := by
  have run := scan_join hex
  unfold colons_pass
  by_cases colon : ps = []
  · have none : ¬ 58 ∈ join 58 p ps := by
      rw [mem_join]
      rintro (⟨q, member, inside⟩ | ⟨_, filled⟩)
      · exact hex_ne_colon (hex q member 58 inside) rfl
      · exact filled colon
    refine ⟨fun pass => ?_, fun text => absurd colon text.colon⟩
    split at pass
    · cases pass
    · simp [none] at pass
  · have inside : 58 ∈ join 58 p ps := mem_join.mpr (.inr ⟨rfl, colon⟩)
    split at run
    · next once =>
      obtain ⟨k, scanned⟩ := run
      have last : (join 58 p ps).getLast? = some 58 ↔ ps.getLast? = some [] :=
        getLast_join (fun q member => hex q (List.mem_cons_of_mem p member)) colon
      simp only [scanned, inside, last, decide_true, Bool.true_and, Bool.and_eq_true, Bool.not_eq_true',
        Bool.and_eq_false_iff, decide_eq_true_eq, decide_eq_false_iff_not, Decidable.not_not, List.count_eq_zero]
      have count : (if ps.getLast? = some [] then ps.countP (!·.isEmpty) else ps.countP (!·.isEmpty) + 1) =
          group_count ps := by
        unfold group_count
        split <;> rfl
      rw [count]
      constructor
      · rintro ⟨full, fits⟩
        exact ⟨colon, hex, once, fits, fun none => full.resolve_left none⟩
      · intro text
        exact ⟨or_iff_not_imp_left.mpr text.full, text.fits⟩
    · next twice =>
      rw [run]
      exact ⟨nofun, fun text => absurd text.once twice⟩

theorem colons_pass_iff : colons_pass s = true ↔ IsColons s := by
  obtain ⟨p, ps, rfl, clean, each⟩ := exists_join 58 s
  constructor
  · intro pass
    have letters : ∀ c ∈ join 58 p ps, c = 58 ∨ isxdigit c = true := by
      unfold colons_pass at pass
      split at pass
      · cases pass
      · next t scanned => exact scan_letters scanned
    have hex : ∀ q ∈ p :: ps, ∀ c ∈ q, isxdigit c = true := by
      intro q member c inside
      rcases letters c (mem_join.mpr (.inl ⟨q, member, inside⟩)) with rfl | hex
      · rcases List.mem_cons.mp member with rfl | later
        · exact absurd inside clean
        · exact absurd inside (each q later)
      · exact hex
    exact ⟨p, ps, rfl, (colons_pass_join hex).mp pass⟩
  · rintro ⟨q, qs, same, text⟩
    rw [same]
    exact (colons_pass_join text.hex).mpr text

/-- The test of a text with a dot. -/
def octets_pass (s : Bytes) : Bool :=
  match scan_dotted 4 s with
  | none => false
  | some octets => octets.all fun a => 0 ≤ a && a ≤ 255

theorem octets_pass_iff : octets_pass s = true ↔ IsDotted s := by
  unfold octets_pass
  constructor
  · intro pass
    split at pass
    · cases pass
    · next octets scanned =>
      obtain ⟨ns, dotted, four, rfl⟩ := scan_dotted_iff.mp scanned
      refine ⟨ns, dotted, four, fun n member => ?_⟩
      rw [List.all_eq_true] at pass
      simpa using pass _ (List.mem_map_of_mem member)
  · rintro ⟨ns, dotted, four, octets⟩
    rw [scan_dotted_iff.mpr ⟨ns, dotted, four, rfl⟩]
    simpa [List.all_eq_true] using octets

theorem dot_of_leads {n : Numeral} (leads : n.Leads s (46 :: rest)) : 46 ∈ s := by
  rw [leads.text]
  simp

theorem IsDotted.dot (dotted : IsDotted s) : 46 ∈ s := by
  obtain ⟨ns, text, four, _⟩ := dotted
  cases text with
  | last => cases four
  | dot leads _ => exact dot_of_leads leads

theorem IsColons.letters (colons : IsColons s) : ∀ c ∈ s, c = 58 ∨ isxdigit c = true := by
  obtain ⟨p, ps, rfl, text⟩ := colons
  intro c member
  rcases mem_join.mp member with ⟨q, part, inside⟩ | ⟨rfl, _⟩
  · exact .inr (text.hex q part c inside)
  · exact .inl rfl

theorem IsColons.colon (colons : IsColons s) : 58 ∈ s := by
  obtain ⟨p, ps, rfl, text⟩ := colons
  exact mem_join.mpr (.inr ⟨rfl, text.colon⟩)

theorem ColonText.colons (text : ColonText p ps) : 2 ≤ ps.length := by
  match ps, text with
  | [], text => exact absurd rfl text.colon
  | [q], text =>
    have counted := text.full (by simp)
    have low : group_count [q] ≤ 2 := by
      rw [group_count, List.countP_singleton]
      split <;> split <;> decide
    omega
  | _ :: _ :: _, _ => simp

theorem IsColons.long (colons : IsColons s) : 2 ≤ s.length := by
  obtain ⟨p, ps, rfl, text⟩ := colons
  have counted := count_join (a := (58 : UInt8)) p ps
  have bound := List.count_le_length (a := (58 : UInt8)) (l := join 58 p ps)
  have colons := text.colons
  omega

theorem IsColons.no_dot (colons : IsColons s) : 46 ∉ s := by
  intro dot
  rcases colons.letters 46 dot with same | hex
  · cases same
  · cases hex

theorem IsColons.clean (colons : IsColons s) : 0 ∉ s := fun zero => by
  rcases colons.letters 0 zero with same | hex
  · cases same
  · cases hex

theorem is_valid_ip_iff : is_valid_ip s = true ↔ ServerForm s := by
  have dot (dotted : IsDotted (c_str s)) : 46 ∈ s := List.takeWhile_subset _ dotted.dot
  unfold is_valid_ip
  split
  · next off =>
    rw [Bool.or_eq_true, List.isEmpty_iff, decide_eq_true_eq] at off
    refine ⟨nofun, ?_⟩
    rintro (⟨short, dotted⟩ | ⟨short, colons⟩)
    · rcases off with rfl | long
      · cases dot dotted
      · omega
    · rcases off with rfl | long
      · cases colons.colon
      · omega
  · next fits =>
    rw [Bool.or_eq_true, decide_eq_true_eq, not_or, Nat.not_lt] at fits
    split
    · next here =>
      have pass := @octets_pass_iff (c_str s)
      refine pass.trans ⟨fun dotted => .inl ⟨fits.2, dotted⟩,
        fun form => form.elim And.right fun ⟨_, colons⟩ => absurd here colons.no_dot⟩
    · next absent =>
      have no_dots : ¬ IsDotted (c_str s) := fun dotted => absent (dot dotted)
      split
      · next long =>
        exact ⟨nofun, fun form => form.elim (fun dotted => absurd dotted.2 no_dots) fun ⟨short, _⟩ => by omega⟩
      · next short =>
        have pass := @colons_pass_iff s
        rw [Nat.not_lt] at short
        exact pass.trans ⟨fun colons => .inr ⟨short, colons⟩,
          fun form => form.elim (fun dotted => absurd dotted.2 no_dots) And.right⟩

theorem stoi_iff {k : Int} :
    stoi s = some k ↔ ∃ (n : Numeral) (rest : Bytes), n.Leads s rest ∧ n.value = k ∧ -2 ^ 31 ≤ k ∧ k < 2 ^ 31 := by
  rw [stoi, Option.filter_eq_some_iff, read_iff, Bool.and_eq_true, decide_eq_true_eq, decide_eq_true_eq]
  constructor
  · rintro ⟨⟨n, rest, leads, value⟩, fits⟩
    exact ⟨n, rest, leads, value, fits⟩
  · rintro ⟨n, rest, leads, value, fits⟩
    exact ⟨⟨n, rest, leads, value⟩, fits⟩

/-- The longest prefix of an address: a text with a colon is one of IPv6. -/
def limit (ip : Bytes) : Int := if 58 ∈ ip then 128 else 32

/-- A prefix length that the family has. -/
def InRange (ip : Bytes) (len : Int) : Prop := 0 ≤ len ∧ len ≤ limit ip

theorem limit_le (ip : Bytes) : limit ip ≤ 128 := by
  unfold limit
  split <;> decide

theorem slash_split {ip pre : Bytes} (clean : 47 ∉ ip) :
    (ip ++ 47 :: pre).takeWhile (· ≠ 47) = ip ∧ ((ip ++ 47 :: pre).dropWhile (· ≠ 47)).tail = pre := by
  have inside : ∀ c ∈ ip, decide (c ≠ 47) = true := fun c member => by
    have other : c ≠ 47 := fun same => clean (same ▸ member)
    simpa using other
  rw [List.takeWhile_append_of_pos inside, List.dropWhile_append_of_pos inside]
  exact ⟨by simp, rfl⟩

theorem is_valid_cidr_iff {ip pre : Bytes} (clean : 47 ∉ ip) :
    is_valid_cidr (ip ++ 47 :: pre) = true ↔
      is_valid_ip ip = true ∧ ∃ (n : Numeral) (rest : Bytes), n.Leads pre rest ∧ InRange ip n.value := by
  obtain ⟨ip_part, prefix_str⟩ := @slash_split ip pre clean
  have slash : 47 ∈ ip ++ 47 :: pre := by simp
  have bound := limit_le ip
  unfold is_valid_cidr
  simp only [ip_part, prefix_str]
  split
  · next off =>
    refine ⟨nofun, ?_⟩
    rintro ⟨valid, n, rest, leads, _⟩
    simp only [slash, not_true_eq_false, decide_false, Bool.false_or, Bool.or_eq_true, List.isEmpty_iff] at off
    rcases off with rfl | rfl
    · cases valid
    · exact absurd leads.text (by simp [leads.filled])
  · split
    · next invalid => exact ⟨nofun, fun form => absurd form.1 (by simpa using invalid)⟩
    · next valid =>
      have valid : is_valid_ip ip = true := by simpa using valid
      rw [and_iff_right valid]
      split
      · next none =>
        refine ⟨nofun, fun ⟨n, rest, leads, range⟩ => ?_⟩
        have number := stoi_iff.mpr ⟨n, rest, leads, rfl, by have := range.1; omega, by have := range.2; omega⟩
        rw [none] at number
        cases number
      · next k number =>
        obtain ⟨n, rest, leads, rfl, _⟩ := stoi_iff.mp number
        rw [Bool.and_eq_true, decide_eq_true_eq, decide_eq_true_eq]
        constructor
        · exact fun range => ⟨n, rest, leads, range⟩
        · rintro ⟨m, rest', again, range⟩
          rw [(leads.unique again).1]
          exact range

theorem no_slash_invalid (clean : 47 ∉ s) : is_valid_cidr s = false := by
  simp [is_valid_cidr, clean]

end Proof

end AoSdl.FirewallManager
