import Mathlib.Data.Nat.Digits.Lemmas
import AoSdl.FirewallForms

/-! The grammar of addresses and ranges, against what the validators of the firewall accept. -/
namespace AoSdl.FirewallManager
open Lib.Decimal Lib.Scanning Lib.Fields

/-- Four decimal octets. -/
def DottedQuad (s : Bytes) : Prop :=
  ∃ a b c d : UInt8, s = natText a.toNat ++ 46 :: (natText b.toNat ++ 46 :: (natText c.toNat ++ 46 :: natText d.toNat))

/-- A group of one to four hexadecimal digits. -/
structure IsGroup (g : Bytes) : Prop where
  filled : g ≠ []
  short : g.length ≤ 4
  hex : ∀ c ∈ g, isxdigit c = true

/-- Pieces, and how many groups they stand for: a dotted quad at the end stands for two. -/
inductive Groups : List Bytes → Nat → Prop where
  | nil : Groups [] 0
  | group {g : Bytes} {gs : List Bytes} {k : Nat} (is_group : IsGroup g) (later : Groups gs k) : Groups (g :: gs) (k + 1)
  | quad {q : Bytes} (dotted : DottedQuad q) : Groups [q] 2

/-- Pieces with a colon between each two. -/
def written (ps : List Bytes) : Bytes := [58].intercalate ps

/-- An IPv6 address: eight groups, or fewer with two colons where one group of zeros or more is left out. -/
inductive Ipv6Text : Bytes → Prop where
  | full {ps : List Bytes} (groups : Groups ps 8) : Ipv6Text (written ps)
  | short {front back : List Bytes} {k : Nat} (before : ∀ g ∈ front, IsGroup g) (behind : Groups back k)
    (room : front.length + k ≤ 7) : Ipv6Text (written front ++ 58 :: 58 :: written back)

def WellFormed (s : Bytes) : Prop := DottedQuad s ∨ Ipv6Text s

/-- A decimal prefix length up to the width of the family. -/
structure IsLength (width : Nat) (len : Bytes) : Prop where
  filled : len ≠ []
  digits : ∀ c ∈ len, isDigit c = true
  fits : value len ≤ width

def WellFormedRange (s : Bytes) : Prop :=
  ∃ ip len, s = ip ++ 47 :: len ∧ (DottedQuad ip ∧ IsLength 32 len ∨ Ipv6Text ip ∧ IsLength 128 len)

/-- A number that is written as an octet is. -/
structure PlainOctet (n : Numeral) : Prop where
  bare : n.gap = [] ∧ n.sign = []
  octet : ∃ v : UInt8, n.digits = natText v.toNat

/-- No group is longer than four digits, no single colon stands at an end, and where two colons stand
together a group is missing. -/
structure TidyPieces (ps : List Bytes) : Prop where
  short : ∀ q ∈ ps, q.length ≤ 4
  left : ps.head? = some [] → [[], []] <+: ps
  right : ps.getLast? = some [] → [[], []] <:+ ps
  room : [] ∈ ps.tail.dropLast → ps.countP (!·.isEmpty) ≤ 7

/-- A text of a form that the validator takes is written as addresses are, and the text is none that
ends with a dotted quad behind colons. -/
structure StrictAddress (s : Bytes) : Prop where
  dotted : s.length ≤ 45 → ∀ ns, DottedText ns (c_str s) → 0 ∉ s ∧ ∀ n ∈ ns, PlainOctet n
  colons : s.length ≤ 39 → ∀ p ps, s = join 58 p ps → ColonText p ps → TidyPieces (p :: ps)
  quad : ¬ (46 ∈ s ∧ Ipv6Text s)

/-- A range with an address and a prefix length that the validator takes is written as ranges are, and
the text is none with an address that ends with a dotted quad behind colons. -/
structure StrictRange (s : Bytes) : Prop where
  plain : ∀ ip pre, s = ip ++ 47 :: pre → 47 ∉ ip → ServerForm ip →
    ∀ (n : Numeral) rest, n.Leads pre rest → InRange ip n.value →
      StrictAddress ip ∧ n.gap = [] ∧ n.sign = [] ∧ rest = []
  quad : ∀ ip len, s = ip ++ 47 :: len → 46 ∈ ip → Ipv6Text ip → ¬ IsLength 128 len

/-- The validators accept addresses and ranges, and nothing else. -/
structure Exact (s : Bytes) : Prop where
  ip : is_valid_ip s = true ↔ WellFormed s
  cidr : is_valid_cidr s = true ↔ WellFormedRange s

section Dotted

variable {s rest : Bytes} {n : Numeral} {ns : List Numeral}

theorem natText_byte_length (v : UInt8) : (natText v.toNat).length ≤ 3 := by
  unfold natText
  split
  · decide
  · have small : v.toNat < 10 ^ 3 := v.toNat_lt.trans (by decide)
    rw [List.length_map, List.length_reverse]
    exact (Nat.digits_length_le_iff (by decide) _).mpr small

/-- The numeral of an octet. -/
def octet (v : UInt8) : Numeral := ⟨[], [], natText v.toNat⟩

theorem octet_leads (v : UInt8) (stops : ∀ c ∈ rest.head?, isDigit c = false) :
    (octet v).Leads (natText v.toNat ++ rest) rest :=
  ⟨rfl, nofun, .inl rfl, natText_digits _, natText_ne_nil _, stops⟩

theorem octet_stored (v : UInt8) : stored (octet v).value = v.toNat := by
  have small := v.toNat_lt
  have number : (octet v).value = (v.toNat : Int) := by
    simp [octet, Numeral.value, value_natText]
  rw [number, stored, min_eq_right (by omega), max_eq_right (by omega)]
  exact Int.bmod_eq_of_le (by omega) (by omega)

theorem eq_octet (plain : PlainOctet n) : ∃ v, n = octet v := by
  obtain ⟨⟨gap, sign⟩, v, digits⟩ := plain
  refine ⟨v, ?_⟩
  cases n
  simp_all only [octet]

theorem plain_octet (v : UInt8) : PlainOctet (octet v) := ⟨⟨rfl, rfl⟩, v, rfl⟩

theorem DottedQuad.reads (quad : DottedQuad s) : ∃ ns, DottedText ns s ∧ ∀ n ∈ ns, PlainOctet n := by
  obtain ⟨a, b, c, d, rfl⟩ := quad
  have dot {later : Bytes} : ∀ ch ∈ (46 :: later : Bytes).head?, isDigit ch = false := fun ch head => by
    obtain rfl := Option.mem_some.mp head
    rfl
  have last := @octet_leads [] d nofun
  rw [List.append_nil] at last
  refine ⟨[octet a, octet b, octet c, octet d],
    ⟨.dot (octet_leads a dot) (.dot (octet_leads b dot) (.dot (octet_leads c dot) (.last last))), rfl, ?_⟩, ?_⟩
  · intro n member
    obtain ⟨v, rfl⟩ : ∃ v, n = octet v := by
      simp only [List.mem_cons, List.not_mem_nil, or_false] at member
      rcases member with rfl | rfl | rfl | rfl <;> exact ⟨_, rfl⟩
    have small := v.toNat_lt
    rw [octet_stored]
    omega
  · simp only [List.mem_cons, List.not_mem_nil, or_false, forall_eq_or_imp, forall_eq]
    exact ⟨plain_octet a, plain_octet b, plain_octet c, plain_octet d⟩

theorem quad_of_plain (text : DottedText ns s) (plain : ∀ n ∈ ns, PlainOctet n) : DottedQuad s := by
  obtain ⟨dotted, four, _⟩ := text
  have inside {v : UInt8} {s rest : Bytes} (leads : (octet v).Leads s rest) : s = natText v.toNat ++ rest := leads.text
  obtain ⟨k, l, m, n, rfl⟩ : ∃ k l m n, ns = [k, l, m, n] := by
    match ns, four with
    | [k, l, m, n], _ => exact ⟨k, l, m, n, rfl⟩
  simp only [List.mem_cons, List.not_mem_nil, or_false, forall_eq_or_imp, forall_eq] at plain
  obtain ⟨⟨a, rfl⟩, ⟨b, rfl⟩, ⟨c, rfl⟩, ⟨d, rfl⟩⟩ :=
    And.intro (eq_octet plain.1) (And.intro (eq_octet plain.2.1) (And.intro (eq_octet plain.2.2.1) (eq_octet plain.2.2.2)))
  cases dotted with
  | dot first later =>
    cases later with
    | dot second later =>
      cases later with
      | dot third later =>
        cases later with
        | last fourth =>
          have last := inside fourth
          rw [List.append_nil] at last
          exact ⟨a, b, c, d, by rw [inside first, inside second, inside third, last]⟩
        | dot _ later => cases later

theorem DottedQuad.letters (quad : DottedQuad s) : ∀ c ∈ s, isDigit c = true ∨ c = 46 := by
  obtain ⟨a, b, c, d, rfl⟩ := quad
  have octet (v : UInt8) : ∀ c ∈ natText v.toNat, isDigit c = true ∨ c = 46 := fun c member =>
    .inl (natText_digits _ c member)
  simp only [List.forall_mem_append, List.forall_mem_cons]
  exact ⟨octet a, .inr trivial, octet b, .inr trivial, octet c, .inr trivial, octet d⟩

theorem DottedQuad.apart (quad : DottedQuad s) : 0 ∉ s ∧ 58 ∉ s ∧ 47 ∉ s := by
  have other (c : UInt8) (no_digit : isDigit c = false) (no_dot : c ≠ 46) : c ∉ s := fun member => by
    rcases quad.letters c member with digit | dot
    · exact Bool.false_ne_true (no_digit.symm.trans digit)
    · exact no_dot dot
  exact ⟨other 0 rfl (by decide), other 58 rfl (by decide), other 47 rfl (by decide)⟩

theorem DottedQuad.short (quad : DottedQuad s) : s.length ≤ 15 := by
  obtain ⟨a, b, c, d, rfl⟩ := quad
  have lengths := And.intro (natText_byte_length a) (And.intro (natText_byte_length b)
    (And.intro (natText_byte_length c) (natText_byte_length d)))
  simp only [List.length_append, List.length_cons]
  omega

theorem Dotted.no_colon (dotted : Dotted ns s) : 58 ∉ s := by
  have number {n : Numeral} {s rest : Bytes} (leads : n.Leads s rest) (clean : 58 ∉ rest) : 58 ∉ s := by
    rw [leads.text]
    simp only [List.mem_append, not_or]
    refine ⟨fun blank => Bool.false_ne_true (leads.blank 58 blank), fun sign => ?_, fun digit => ?_, clean⟩
    · rcases leads.signed with same | same | same <;> rw [same] at sign <;> simp at sign
    · cases leads.numeric 58 digit
  induction dotted with
  | last leads => exact number leads List.not_mem_nil
  | dot leads _ ih => exact number leads (by simp [ih])

end Dotted

section Colons

variable {s p : Bytes} {ps gs front back : List Bytes} {k : Nat}

@[simp] theorem written_nil : written [] = [] := rfl

@[simp] theorem written_singleton (p : Bytes) : written [p] = p := join_nil p

theorem written_cons (p : Bytes) (filled : ps ≠ []) : written (p :: ps) = p ++ 58 :: written ps := by
  obtain ⟨q, qs, rfl⟩ := List.exists_cons_of_ne_nil filled
  exact join_cons p q qs

theorem written_append (filled : gs ≠ []) (filled' : ps ≠ []) : written (gs ++ ps) = written gs ++ 58 :: written ps := by
  induction gs with
  | nil => exact absurd rfl filled
  | cons g gs ih =>
    rw [List.cons_append, written_cons g (by simp [filled'])]
    by_cases last : gs = []
    · rw [last, List.nil_append, written_singleton]
    · rw [ih last, written_cons g last, List.append_assoc, List.cons_append]

/-- The pieces on one side of two colons. -/
def side (gs : List Bytes) : List Bytes := if gs = [] then [[]] else gs

theorem side_ne_nil (gs : List Bytes) : side gs ≠ [] := by
  unfold side
  split
  · exact List.cons_ne_nil _ _
  · next filled => exact filled

theorem written_side (gs : List Bytes) : written (side gs) = written gs := by
  unfold side
  split
  · next none => rw [none]; rfl
  · rfl

theorem written_sides (front back : List Bytes) :
    written (side front ++ [] :: side back) = written front ++ 58 :: 58 :: written back := by
  rw [written_append (side_ne_nil front) (List.cons_ne_nil _ _), written_cons [] (side_ne_nil back), written_side,
    written_side, List.nil_append]

theorem side_cases (groups : ∀ g ∈ gs, IsGroup g) :
    (gs = [] ∧ side gs = [[]]) ∨ (gs ≠ [] ∧ side gs = gs ∧ [] ∉ gs) := by
  by_cases none : gs = []
  · exact .inl ⟨none, by simp [side, none]⟩
  · exact .inr ⟨none, by simp [side, none], fun empty => (groups [] empty).filled rfl⟩

theorem countP_groups (groups : ∀ g ∈ gs, IsGroup g) : gs.countP (!·.isEmpty) = gs.length :=
  List.countP_eq_length.mpr fun g member => by simpa using (groups g member).filled

theorem written_length (groups : ∀ g ∈ gs, IsGroup g) : (written gs).length ≤ 5 * gs.length - 1 := by
  induction gs with
  | nil => exact Nat.zero_le _
  | cons g gs ih =>
    have short := (groups g List.mem_cons_self).short
    by_cases last : gs = []
    · rw [last, written_singleton, List.length_singleton]
      omega
    · have later := ih fun h member => groups h (List.mem_cons_of_mem g member)
      have some := List.length_pos_of_ne_nil last
      rw [written_cons g last, List.length_append, List.length_cons, List.length_cons]
      omega

/-- Without a dot all pieces are groups. -/
theorem Groups.plain (groups : Groups gs k) (no_dot : 46 ∉ written gs) : (∀ g ∈ gs, IsGroup g) ∧ gs.length = k := by
  induction groups with
  | nil => exact ⟨nofun, rfl⟩
  | @group g gs k is_group later ih =>
    have behind : 46 ∉ written gs := by
      by_cases last : gs = []
      · simp [last]
      · rw [written_cons g last, List.mem_append, List.mem_cons, not_or, not_or] at no_dot
        exact no_dot.2.2
    obtain ⟨groups, length⟩ := ih behind
    exact ⟨List.forall_mem_cons.mpr ⟨is_group, groups⟩, by rw [List.length_cons, length]⟩
  | quad dotted =>
    obtain ⟨a, b, c, d, rfl⟩ := dotted
    exact absurd (by simp) no_dot

theorem hex_of_groups (groups : ∀ g ∈ gs, IsGroup g) : ∀ q ∈ side gs, q.length ≤ 4 ∧ ∀ c ∈ q, isxdigit c = true := by
  rcases side_cases groups with ⟨_, same⟩ | ⟨_, same, _⟩
  · rw [same]
    simp
  · rw [same]
    exact fun q member => ⟨(groups q member).short, (groups q member).hex⟩

theorem full_reads (groups : ∀ g ∈ p :: ps, IsGroup g) (eight : (p :: ps).length = 8) :
    ColonText p ps ∧ TidyPieces (p :: ps) := by
  have empty : [] ∉ p :: ps := fun member => (groups [] member).filled rfl
  have inner : [] ∉ ps.dropLast := fun member => empty (List.mem_cons_of_mem p (List.mem_of_mem_dropLast member))
  have last : ps.getLast? ≠ some [] := fun same => empty (List.mem_cons_of_mem p (List.mem_of_getLast? same))
  have seven : ps.length = 7 := by simpa using eight
  have count : group_count ps = 8 := by
    rw [group_count, countP_groups fun g member => groups g (List.mem_cons_of_mem p member), seven, if_neg last]
  refine ⟨⟨?_, fun q member => (groups q member).hex, ?_, count.le, fun _ => count⟩,
    ⟨fun q member => (groups q member).short, ?_, ?_, fun member => absurd member inner⟩⟩
  · rintro rfl
    cases seven
  · rw [List.count_eq_zero.mpr inner]
    exact Nat.zero_le 1
  · exact fun head => absurd (List.mem_of_head? head) empty
  · exact fun ends => absurd (List.mem_of_getLast? ends) empty

/-- The pieces of one side: none but a lone one is empty. -/
structure SidePieces (gs : List Bytes) : Prop where
  tail : [] ∉ (side gs).tail
  init : [] ∉ (side gs).dropLast
  count : (side gs).countP (!·.isEmpty) = gs.length
  head : (side gs).head? = some [] → side gs = [[]]
  last : (side gs).getLast? = some [] → side gs = [[]]

theorem side_pieces (groups : ∀ g ∈ gs, IsGroup g) : SidePieces gs := by
  rcases side_cases groups with ⟨rfl, same⟩ | ⟨_, same, empty⟩
  · exact ⟨by simp [same], by simp [same], by simp [same], fun _ => same, fun _ => same⟩
  · constructor <;> rw [same]
    · exact fun member => empty (List.mem_of_mem_tail member)
    · exact fun member => empty (List.mem_of_mem_dropLast member)
    · exact countP_groups groups
    · exact fun head => absurd (List.mem_of_head? head) empty
    · exact fun last => absurd (List.mem_of_getLast? last) empty

theorem short_reads (before : ∀ g ∈ front, IsGroup g) (behind : ∀ g ∈ back, IsGroup g)
    (room : front.length + back.length ≤ 7) (shape : side front ++ [] :: side back = p :: ps) :
    ColonText p ps ∧ TidyPieces (p :: ps) := by
  have left := side_pieces before
  have right := side_pieces behind
  have letters : ∀ q ∈ p :: ps, q.length ≤ 4 ∧ ∀ c ∈ q, isxdigit c = true := by
    rw [← shape]
    intro q member
    rcases List.mem_append.mp member with first | member
    · exact hex_of_groups before q first
    · rcases List.mem_cons.mp member with rfl | second
      · simp
      · exact hex_of_groups behind q second
  obtain ⟨f, fs, first⟩ := List.exists_cons_of_ne_nil (side_ne_nil front)
  obtain ⟨rfl, rfl⟩ : f = p ∧ fs ++ [] :: side back = ps := by
    rw [first, List.cons_append] at shape
    exact List.cons.inj shape
  have tail : [] ∉ fs := by
    have tail := left.tail
    rwa [first] at tail
  have init : (fs ++ [] :: side back).dropLast = fs ++ [] :: (side back).dropLast := by
    rw [List.dropLast_append_of_ne_nil (List.cons_ne_nil _ _), List.dropLast_cons_of_ne_nil (side_ne_nil back)]
  have once : (fs ++ [] :: side back).dropLast.count [] = 1 := by
    rw [init, List.count_append, List.count_eq_zero.mpr tail, List.count_cons_self,
      List.count_eq_zero.mpr right.init]
  have inner : [] ∈ (fs ++ [] :: side back).dropLast := by simp [init]
  have ends : (fs ++ [] :: side back).getLast? = (side back).getLast? := by
    rw [List.getLast?_append, List.getLast?_cons_of_ne_nil (side_ne_nil back),
      List.getLast?_eq_some_getLast (side_ne_nil back), Option.some_or]
  have count : (f :: (fs ++ [] :: side back)).countP (!·.isEmpty) = front.length + back.length := by
    rw [← List.cons_append, ← first, List.countP_append, left.count, List.countP_cons_of_neg (by simp), right.count]
  refine ⟨⟨by simp, fun q member => (letters q member).2, once.le, ?_, fun none => absurd inner none⟩,
    ⟨fun q member => (letters q member).1, fun head => ?_, fun last => ?_, fun _ => count ▸ room⟩⟩
  · have less : (fs ++ [] :: side back).countP (!·.isEmpty) ≤ 7 := by
      rw [List.countP_cons] at count
      omega
    rw [group_count]
    split <;> omega
  · have alone := left.head (by rw [first]; exact head)
    rw [first] at alone
    obtain ⟨rfl, rfl⟩ := List.cons.inj alone
    exact ⟨side back, rfl⟩
  · rw [List.getLast?_cons_of_ne_nil (by simp), ends] at last
    exact ⟨f :: fs, by simp [right.last last]⟩

theorem Ipv6Text.reads (text : Ipv6Text s) (no_dot : 46 ∉ s) :
    s.length ≤ 39 ∧ ∃ p ps, s = join 58 p ps ∧ ColonText p ps ∧ TidyPieces (p :: ps) := by
  cases text with
  | full groups =>
    obtain ⟨all, eight⟩ := groups.plain no_dot
    have length := written_length all
    obtain ⟨p, ps, rfl⟩ := List.exists_cons_of_ne_nil (List.ne_nil_of_length_eq_add_one eight)
    exact ⟨by omega, p, ps, rfl, full_reads all eight⟩
  | @short front back k before behind room =>
    rw [List.mem_append, List.mem_cons, List.mem_cons, not_or, not_or, not_or] at no_dot
    obtain ⟨all, rfl⟩ := behind.plain no_dot.2.2.2
    have shape := written_sides front back
    obtain ⟨p, ps, pieces⟩ := List.exists_cons_of_ne_nil (List.append_ne_nil_of_left_ne_nil (side_ne_nil front) ([] :: side back))
    have first := written_length before
    have second := written_length all
    refine ⟨?_, p, ps, ?_, short_reads before all room pieces⟩
    · rw [List.length_append, List.length_cons, List.length_cons]
      omega
    · rw [← shape, pieces]
      rfl

theorem groups_of_all (groups : ∀ g ∈ gs, IsGroup g) : Groups gs gs.length := by
  induction gs with
  | nil => exact .nil
  | cons g gs ih =>
    exact .group (groups g List.mem_cons_self) (ih fun h member => groups h (List.mem_cons_of_mem g member))

theorem group_of_filled (letters : ∀ q ∈ ps, q.length ≤ 4 ∧ ∀ c ∈ q, isxdigit c = true) (filled : [] ∉ ps) :
    ∀ q ∈ ps, IsGroup q := fun q member =>
  ⟨fun empty => filled (empty ▸ member), (letters q member).1, (letters q member).2⟩

/-- Pieces of which none but a lone one is empty are a side. -/
theorem exists_side (letters : ∀ q ∈ ps, q.length ≤ 4 ∧ ∀ c ∈ q, isxdigit c = true) (some : ps ≠ [])
    (alone : [] ∈ ps → ps = [[]]) : ∃ gs, (∀ g ∈ gs, IsGroup g) ∧ side gs = ps := by
  by_cases empty : [] ∈ ps
  · exact ⟨[], nofun, (alone empty).symm⟩
  · exact ⟨ps, group_of_filled letters empty, if_neg some⟩

theorem left_alone {X later : List Bytes} (filled : [] ∉ X)
    (left : (p :: X ++ later).head? = some [] → [[], []] <+: p :: X ++ later) (empty : [] ∈ p :: X) : p :: X = [[]] := by
  obtain rfl : [] = p := (List.mem_cons.mp empty).resolve_right filled
  cases X with
  | nil => rfl
  | cons x X =>
    obtain ⟨rest, same⟩ := left rfl
    have second : [] = x := (List.cons.inj (List.cons.inj same).2).1
    exact absurd (second ▸ List.mem_cons_self) filled

theorem right_alone {Y front : List Bytes} {l : Bytes} (filled : [] ∉ Y)
    (right : (front ++ (Y ++ [l])).getLast? = some [] → [[], []] <:+ front ++ (Y ++ [l])) (empty : [] ∈ Y ++ [l]) :
    Y ++ [l] = [[]] := by
  obtain rfl : [] = l := by
    rcases List.mem_append.mp empty with inside | last
    · exact absurd inside filled
    · exact List.mem_singleton.mp last
  rcases List.eq_nil_or_concat Y with rfl | ⟨Y, y, rfl⟩
  · rfl
  · obtain ⟨rest, same⟩ := right (by simp)
    have ends : rest ++ [[], []] = (front ++ Y) ++ [y, []] := by simpa using same
    have second := (List.append_inj' ends rfl).2
    have last : [] = y := (List.cons.inj second).1
    exact absurd (by simp [← last]) filled

theorem tidy_text (text : ColonText p ps) (tidy : TidyPieces (p :: ps)) : Ipv6Text (join 58 p ps) := by
  have letters : ∀ q ∈ p :: ps, q.length ≤ 4 ∧ ∀ c ∈ q, isxdigit c = true := fun q member =>
    ⟨tidy.short q member, text.hex q member⟩
  have two := text.colons
  obtain ⟨init, l, rfl⟩ := (List.eq_nil_or_concat ps).resolve_left text.colon
  rw [List.concat_eq_append] at *
  have inner_eq : (init ++ [l]).dropLast = init := List.dropLast_concat
  have some : init ≠ [] := by
    rintro rfl
    simp at two
  by_cases inner : [] ∈ init
  · obtain ⟨X, Y, rfl⟩ := List.append_of_mem inner
    have once := text.once
    rw [inner_eq, List.count_append, List.count_cons_self] at once
    have no_X : [] ∉ X := List.count_eq_zero.mp (by omega)
    have no_Y : [] ∉ Y := List.count_eq_zero.mp (by omega)
    have shape : p :: (X ++ [] :: Y ++ [l]) = (p :: X) ++ [] :: (Y ++ [l]) := by simp
    have behind_eq : p :: (X ++ [] :: Y ++ [l]) = (p :: X ++ [[]]) ++ (Y ++ [l]) := by simp
    have first (q : Bytes) (member : q ∈ p :: X) : q.length ≤ 4 ∧ ∀ c ∈ q, isxdigit c = true :=
      letters q (shape ▸ List.mem_append_left _ member)
    have second (q : Bytes) (member : q ∈ Y ++ [l]) : q.length ≤ 4 ∧ ∀ c ∈ q, isxdigit c = true :=
      letters q (shape ▸ List.mem_append_right _ (List.mem_cons_of_mem _ member))
    obtain ⟨front, before, front_side⟩ := exists_side first (List.cons_ne_nil _ _) (left_alone no_X (shape ▸ tidy.left))
    obtain ⟨back, behind, back_side⟩ := exists_side second (by simp) (right_alone no_Y (behind_eq ▸ tidy.right))
    have count := tidy.room (by rw [List.tail_cons, inner_eq]; exact inner)
    rw [shape, ← front_side, ← back_side, List.countP_append, List.countP_cons_of_neg (by simp),
      (side_pieces before).count, (side_pieces behind).count] at count
    have written_eq : join 58 p (X ++ [] :: Y ++ [l]) = written front ++ 58 :: 58 :: written back := by
      rw [← written_sides, front_side, back_side, ← shape]
      rfl
    rw [written_eq]
    exact .short before (groups_of_all behind) count
  · have count := text.full (by rw [inner_eq]; exact inner)
    have starts : [] ∉ p :: init := fun empty => by
      have left : (p :: init ++ [l]).head? = Option.some [] → [[], []] <+: p :: init ++ [l] := tidy.left
      exact some (List.cons.inj (left_alone inner left empty)).2
    have ends : l ≠ [] := by
      rintro rfl
      obtain ⟨front, last, rfl⟩ := (List.eq_nil_or_concat init).resolve_left some
      rw [List.concat_eq_append] at *
      have right : ((p :: front) ++ ([last] ++ [[]])).getLast? = Option.some [] →
          [[], []] <:+ (p :: front) ++ ([last] ++ [[]]) := by simpa using tidy.right
      have filled : [] ∉ [last] := fun same => inner (List.mem_append_right _ same)
      have alone := right_alone filled right (by simp)
      exact absurd (congrArg List.length alone) (by simp)
    have filled : [] ∉ p :: (init ++ [l]) := by
      rw [← List.cons_append, List.mem_append, List.mem_singleton, not_or]
      exact ⟨starts, ends.symm⟩
    have groups := group_of_filled letters filled
    have last : (init ++ [l]).getLast? ≠ Option.some [] := by simpa using ends
    rw [group_count, countP_groups fun g member => groups g (List.mem_cons_of_mem p member), if_neg last] at count
    exact .full (count ▸ groups_of_all groups)

end Colons

section Exact

variable {s ip pre len : Bytes} {ps gs : List Bytes} {k : Nat}

theorem digit_hex {c : UInt8} (digit : isDigit c = true) : isxdigit c = true := by
  simp [isxdigit, digit]

/-- The letters of addresses. -/
def IsLetter (c : UInt8) : Prop := isxdigit c = true ∨ c = 58 ∨ c = 46

theorem DottedQuad.address_letters (quad : DottedQuad s) : ∀ c ∈ s, IsLetter c := fun c member =>
  (quad.letters c member).imp digit_hex .inr

theorem Groups.letters (groups : Groups gs k) : ∀ g ∈ gs, ∀ c ∈ g, IsLetter c := by
  induction groups with
  | nil => nofun
  | group is_group _ ih => exact List.forall_mem_cons.mpr ⟨fun c member => .inl (is_group.hex c member), ih⟩
  | quad dotted => exact List.forall_mem_cons.mpr ⟨dotted.address_letters, nofun⟩

theorem written_letters (letters : ∀ g ∈ ps, ∀ c ∈ g, IsLetter c) : ∀ c ∈ written ps, IsLetter c := by
  cases ps with
  | nil => nofun
  | cons p ps =>
    intro c member
    rcases mem_join.mp member with ⟨q, piece, inside⟩ | ⟨rfl, _⟩
    · exact letters q piece c inside
    · exact .inr (.inl rfl)

theorem Groups.length_le (groups : Groups gs k) : k ≤ gs.length + 1 := by
  induction groups with
  | nil => exact Nat.zero_le _
  | group _ _ ih => exact Nat.succ_le_succ ih
  | quad _ => exact Nat.le_refl _

theorem Ipv6Text.letters (text : Ipv6Text s) : ∀ c ∈ s, IsLetter c := by
  cases text with
  | full groups => exact written_letters groups.letters
  | short before behind _ =>
    intro c member
    simp only [List.mem_append, List.mem_cons] at member
    rcases member with first | rfl | rfl | second
    · exact written_letters (fun g piece c inside => .inl ((before g piece).hex c inside)) c first
    · exact .inr (.inl rfl)
    · exact .inr (.inl rfl)
    · exact written_letters behind.letters c second

theorem Ipv6Text.colon (text : Ipv6Text s) : 58 ∈ s := by
  cases text with
  | short => simp
  | @full ps groups =>
    have long := groups.length_le
    obtain ⟨p, ps, rfl⟩ := List.exists_cons_of_ne_nil (List.ne_nil_of_length_pos (by omega : 0 < ps.length))
    rw [List.length_cons] at long
    exact mem_join.mpr (.inr ⟨rfl, List.ne_nil_of_length_pos (by omega)⟩)

theorem no_letter {c : UInt8} (letters : ∀ c ∈ s, IsLetter c) (no_hex : isxdigit c = false) (no_colon : c ≠ 58)
    (no_dot : c ≠ 46) : c ∉ s := fun member => by
  rcases letters c member with hex | colon | dot
  · exact Bool.false_ne_true (no_hex.symm.trans hex)
  · exact no_colon colon
  · exact no_dot dot

theorem WellFormed.letters (well : WellFormed s) : ∀ c ∈ s, IsLetter c :=
  well.elim DottedQuad.address_letters Ipv6Text.letters

theorem WellFormed.plain (well : WellFormed s) : 0 ∉ s ∧ 47 ∉ s :=
  ⟨no_letter well.letters rfl (by decide) (by decide), no_letter well.letters rfl (by decide) (by decide)⟩

theorem DottedQuad.dotted (quad : DottedQuad s) : IsDotted s :=
  have ⟨ns, text, _⟩ := quad.reads
  ⟨ns, text⟩

theorem IsDotted.no_colon (dotted : IsDotted s) : 58 ∉ s :=
  have ⟨_, text⟩ := dotted
  text.dotted.no_colon

theorem pieces_unique {p q : Bytes} {qs : List Bytes} (text : ColonText p ps) (again : ColonText q qs)
    (same : join 58 p ps = join 58 q qs) : p :: ps = q :: qs := by
  have clean {p : Bytes} {ps : List Bytes} (text : ColonText p ps) : 58 ∉ p ∧ ∀ f ∈ ps, 58 ∉ f :=
    ⟨fun colon => hex_ne_colon (text.hex p List.mem_cons_self 58 colon) rfl,
      fun f member colon => hex_ne_colon (text.hex f (List.mem_cons_of_mem p member) 58 colon) rfl⟩
  rw [← splitOn_join (clean text).1 (clean text).2, same, splitOn_join (clean again).1 (clean again).2]

theorem Ipv6Text.no_form (six : Ipv6Text ip) (dot : 46 ∈ ip) : ¬ ServerForm ip := by
  rintro (⟨_, dotted⟩ | ⟨_, colons⟩)
  · rw [c_str_eq (WellFormed.plain (.inr six)).1] at dotted
    exact dotted.no_colon six.colon
  · exact colons.no_dot dot

theorem DottedQuad.form (quad : DottedQuad ip) : ServerForm ip := by
  rw [ServerForm, c_str_eq quad.apart.1]
  exact .inl ⟨quad.short.trans (by decide), quad.dotted⟩

theorem Ipv6Text.form (six : Ipv6Text ip) (no_dot : 46 ∉ ip) : ServerForm ip :=
  have ⟨fits, p, ps, same, text, _⟩ := six.reads no_dot
  .inr ⟨fits, p, ps, same, text⟩

theorem valid_ip_exact_iff : (is_valid_ip s = true ↔ WellFormed s) ↔ StrictAddress s := by
  rw [is_valid_ip_iff]
  constructor
  · rintro ⟨sound, complete⟩
    refine ⟨fun short ns text => ?_, fun short p ps same text => ?_, fun ⟨dot, text⟩ => ?_⟩
    · have well := sound (.inl ⟨short, ns, text⟩)
      have clean := well.plain.1
      rw [c_str_eq clean] at text
      rcases well with quad | six
      · obtain ⟨ms, again, plain⟩ := quad.reads
        exact ⟨clean, text.dotted.unique again.dotted ▸ plain⟩
      · exact absurd six.colon text.dotted.no_colon
    · have colons : IsColons s := ⟨p, ps, same, text⟩
      rcases sound (.inr ⟨short, colons⟩) with quad | six
      · exact absurd quad.dotted.dot colons.no_dot
      · obtain ⟨_, q, qs, again, pieces, tidy⟩ := six.reads colons.no_dot
        rw [pieces_unique text pieces (same.symm.trans again)]
        exact tidy
    · exact text.no_form dot (complete (.inr text))
  · intro strict
    constructor
    · rintro (⟨short, ns, text⟩ | ⟨short, p, ps, rfl, text⟩)
      · obtain ⟨clean, plain⟩ := strict.dotted short ns text
        rw [c_str_eq clean] at text
        exact .inl (quad_of_plain text plain)
      · exact .inr (tidy_text text (strict.colons short p ps rfl text))
    · rintro (quad | six)
      · exact quad.form
      · exact six.form fun dot => strict.quad ⟨dot, six⟩

/-- The address of a well-formed range stands in front of the first slash. -/
theorem well_formed_range_iff (clean : 47 ∉ ip) :
    WellFormedRange (ip ++ 47 :: pre) ↔ DottedQuad ip ∧ IsLength 32 pre ∨ Ipv6Text ip ∧ IsLength 128 pre := by
  constructor
  · rintro ⟨ip', len, same, form⟩
    have clean' : 47 ∉ ip' := form.elim (fun quad => quad.1.apart.2.2) fun six => (WellFormed.plain (.inr six.1)).2
    obtain ⟨rfl, rfl⟩ := append_cons_inj clean' clean same.symm
    exact form
  · exact fun form => ⟨ip, pre, rfl, form⟩

theorem IsLength.leads {width : Nat} (length : IsLength width pre) :
    Numeral.Leads ⟨[], [], pre⟩ pre [] ∧ (⟨[], [], pre⟩ : Numeral).value = value pre :=
  ⟨number_digits length.filled length.digits, rfl⟩

/-- A prefix length that is read as it is written. -/
theorem length_iff {n : Numeral} {rest : Bytes} {width : Nat} (limited : limit ip = width) (leads : n.Leads pre rest) :
    IsLength width pre ↔ n.gap = [] ∧ n.sign = [] ∧ rest = [] ∧ InRange ip n.value := by
  constructor
  · intro length
    obtain ⟨whole, number⟩ := length.leads
    obtain ⟨rfl, rfl⟩ := leads.unique whole
    refine ⟨rfl, rfl, rfl, ?_⟩
    rw [InRange, number, limited]
    have fits := length.fits
    omega
  · rintro ⟨gap, sign, rfl, range⟩
    have text : pre = n.digits := by
      rw [leads.text, gap, sign]
      simp
    have number : n.value = value pre := by
      rw [Numeral.value, sign, text]
      rfl
    rw [InRange, number, limited] at range
    exact ⟨text ▸ leads.filled, text ▸ leads.numeric, by omega⟩

theorem limit_quad (quad : DottedQuad ip) : limit ip = (32 : Nat) := if_neg quad.apart.2.1

theorem limit_six (six : Ipv6Text ip) : limit ip = (128 : Nat) := if_pos six.colon

theorem IsLength.read {width : Nat} (length : IsLength width pre) (limited : limit ip = width) :
    ∃ (n : Numeral) (rest : Bytes), n.Leads pre rest ∧ InRange ip n.value :=
  ⟨_, _, length.leads.1, ((length_iff limited length.leads.1).mp length).2.2.2⟩

/-- A length that is read in range is written as one, when the range is well-formed. -/
theorem plain_length {n : Numeral} {rest : Bytes} (leads : n.Leads pre rest)
    (well : DottedQuad ip ∧ IsLength 32 pre ∨ Ipv6Text ip ∧ IsLength 128 pre) :
    WellFormed ip ∧ n.gap = [] ∧ n.sign = [] ∧ rest = [] := by
  rcases well with ⟨quad, length⟩ | ⟨six, length⟩
  · obtain ⟨gap, sign, behind, _⟩ := (length_iff (limit_quad quad) leads).mp length
    exact ⟨.inl quad, gap, sign, behind⟩
  · obtain ⟨gap, sign, behind, _⟩ := (length_iff (limit_six six) leads).mp length
    exact ⟨.inr six, gap, sign, behind⟩

theorem valid_cidr_exact_iff : (is_valid_cidr s = true ↔ WellFormedRange s) ↔ StrictRange s := by
  by_cases slash : 47 ∈ s
  · obtain ⟨ip, pre, rfl, clean⟩ := List.eq_append_cons_of_mem slash
    rw [is_valid_cidr_iff clean, well_formed_range_iff clean, is_valid_ip_iff]
    constructor
    · rintro ⟨sound, complete⟩
      constructor
      · intro ip' pre' same clean' form n rest leads range
        obtain ⟨rfl, rfl⟩ := append_cons_inj clean' clean same.symm
        obtain ⟨well, plain⟩ := plain_length leads (sound ⟨form, n, rest, leads, range⟩)
        exact ⟨valid_ip_exact_iff.mp ⟨fun _ => well, fun _ => is_valid_ip_iff.mpr form⟩, plain⟩
      · intro ip' len same dot six length
        obtain ⟨rfl, rfl⟩ := append_cons_inj (WellFormed.plain (.inr six)).2 clean same.symm
        exact six.no_form dot (complete (.inr ⟨six, length⟩)).1
    · intro strict
      constructor
      · rintro ⟨form, n, rest, leads, range⟩
        obtain ⟨address, gap, sign, rest_nil⟩ := strict.plain ip pre rfl clean form n rest leads range
        have well := (valid_ip_exact_iff.mpr address).mp (is_valid_ip_iff.mpr form)
        exact well.imp (fun quad => ⟨quad, (length_iff (limit_quad quad) leads).mpr ⟨gap, sign, rest_nil, range⟩⟩)
          fun six => ⟨six, (length_iff (limit_six six) leads).mpr ⟨gap, sign, rest_nil, range⟩⟩
      · rintro (⟨quad, length⟩ | ⟨six, length⟩)
        · exact ⟨quad.form, length.read (limit_quad quad)⟩
        · have no_dot : 46 ∉ ip := fun dot => strict.quad ip pre rfl dot six length
          exact ⟨six.form no_dot, length.read (limit_six six)⟩
  · have plain : ¬ WellFormedRange s := by
      rintro ⟨ip, len, rfl, _⟩
      exact slash (by simp)
    have none {ip pre : Bytes} (same : s = ip ++ 47 :: pre) : False := slash (by simp [same])
    refine iff_of_true ?_ ⟨fun _ _ same => absurd same none, fun _ _ same => absurd same none⟩
    simp [no_slash_invalid slash, plain]

/-- A group of five digits is accepted. -/
theorem long_group_accepted : ¬ Exact (bytes "99999::1") := by
  have form : is_valid_ip (bytes "99999::1") = true := by decide
  intro exactly
  rcases exactly.ip.mp form with quad | six
  · exact quad.apart.2.1 (by decide)
  · obtain ⟨_, p, ps, same, text, tidy⟩ := six.reads (by decide)
    have pieces : bytes "99999::1" = join 58 (bytes "99999") [[], bytes "1"] := by decide
    have hex : ∀ q ∈ [bytes "99999", [], bytes "1"], ∀ c ∈ q, isxdigit c = true := by decide +kernel
    have scanned : ColonText (bytes "99999") [[], bytes "1"] := (colons_pass_join hex).mp (by decide)
    rw [← pieces_unique scanned text (pieces.symm.trans same)] at tidy
    exact absurd (tidy.short _ List.mem_cons_self) (by decide)

theorem exact_iff : Exact s ↔ StrictAddress s ∧ StrictRange s := by
  rw [← valid_ip_exact_iff, ← valid_cidr_exact_iff]
  exact ⟨fun exactly => ⟨exactly.ip, exactly.cidr⟩, fun exactly => ⟨exactly.1, exactly.2⟩⟩

end Exact

end AoSdl.FirewallManager
