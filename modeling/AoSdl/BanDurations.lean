import AoSdl.BanManager
import AoSdl.Lib.Scanning
import Mathlib.Algebra.BigOperators.Group.List.Basic

/-! The texts of ban durations: numbers with units, read one letter at a time into 64-bit sums in which
`-1` and `-2` are no durations, and the texts that durations are shown as. -/
namespace AoSdl

def format_ban_duration (duration : Int) : Bytes :=
  if duration = -2 then bytes "permanent"
  else if duration ≤ 0 then bytes "invalidated"
  else
    let h := duration / 3600
    let m := duration % 3600 / 60
    let s := duration % 60
    let result := if 0 < h then to_string h ++ bytes "h" else []
    let result := result ++ if 0 < m then to_string m ++ bytes "m" else []
    result ++ if 0 < s ∨ result.isEmpty then to_string s ++ bytes "s" else []

namespace BanDurations
open Lib.Decimal Lib.Scanning

inductive TimeUnit where
  | h | m | s

def TimeUnit.letter : TimeUnit → UInt8
  | .h => 104
  | .m => 109
  | .s => 115

def TimeUnit.factor : TimeUnit → Nat
  | .h => 3600
  | .m => 60
  | .s => 1

/-- A unit and the digits in front of it. -/
structure Group where
  digits : Bytes
  unit : TimeUnit
  numeric : ∀ c ∈ digits, isDigit c = true

def Group.text (g : Group) : Bytes := g.digits ++ [g.unit.letter]

def Group.seconds (g : Group) : Nat := value g.digits * g.unit.factor

/-- A text of digits and units, and digits behind the last unit. -/
structure Spelling where
  groups : List Group
  tail : Bytes
  numeric : ∀ c ∈ tail, isDigit c = true

namespace Spelling

def text (w : Spelling) : Bytes := w.groups.flatMap Group.text ++ w.tail

/-- The seconds of the groups. -/
def total (w : Spelling) : Nat := (w.groups.map Group.seconds).sum

/-- The seconds of all of the text: those of a number without a unit are seconds. -/
def seconds (w : Spelling) : Nat := w.total + value w.tail

/-- Each unit has a number, and there is one. -/
structure WellFormed (w : Spelling) : Prop where
  numbers : ∀ g ∈ w.groups, g.digits ≠ []
  filled : w.groups ≠ [] ∨ w.tail ≠ []

/-- The text is of the grammar, and its seconds fit. -/
def Fits (w : Spelling) : Prop := w.WellFormed ∧ w.seconds < 2 ^ 63

/-- The sum as it wraps is `-1`, or nothing is summed. -/
def WrapsToMinusOne (w : Spelling) : Prop :=
  0 < wrap64 (value w.tail) ∧ wrap64 w.seconds = -1 ∨
    wrap64 (value w.tail) ≤ 0 ∧ (w.groups = [] ∨ wrap64 w.total = -1)

/-- A duration that fits is not a zero without a unit, and a text that is none sums up to `-1` all the
same. -/
def Spared (w : Spelling) : Prop :=
  (w.Fits → w.groups ≠ [] ∨ value w.tail ≠ 0) ∧ (¬ w.Fits → w.WrapsToMinusOne)

end Spelling

def IsPermanent (input : Bytes) : Prop :=
  input.map tolower = bytes "perma" ∨ input.map tolower = bytes "permanent"

/-- The parser gives what the text says: `-2` for the two words, the seconds of a duration that fits,
and `-1` otherwise. -/
structure Exact (input : Bytes) : Prop where
  permanent : parse_ban_duration input = -2 ↔ IsPermanent input
  total : ∀ w : Spelling, w.text = input.map tolower → w.Fits → parse_ban_duration input = w.seconds
  refused : ¬ IsPermanent input → (∀ w : Spelling, w.text = input.map tolower → ¬ w.Fits) →
    parse_ban_duration input = -1

/-- However the text is spelled, the sum is spared. -/
def Spared (input : Bytes) : Prop := ∀ w : Spelling, w.text = input.map tolower → w.Spared

/-- A duration, or the permanent one, is read back from the text that it is shown as. -/
def RoundTrips : Prop :=
  ∀ d : Int, 1 ≤ d ∧ d < 2 ^ 63 ∨ d = -2 → parse_ban_duration (format_ban_duration d) = d

section Scan

variable {total current : Nat} {unit : Bool} {c : UInt8} {ds : Bytes}

/-- The state with these sums. -/
def scanned (total current : Nat) (unit : Bool) : DurationScan := ⟨wrap64 total, wrap64 current, unit⟩

theorem wrap64_zero : wrap64 ((0 : Nat) : Int) = 0 := by decide

theorem scanned_start : scanned 0 0 false = {} := rfl

theorem bmod_mul_add (a x y : Int) (n : Nat) : (a.bmod n * x + y).bmod n = (a * x + y).bmod n := by
  rw [← Int.bmod_add_bmod, Int.bmod_mul_bmod, Int.bmod_add_bmod]

theorem bmod_add_mul (a b x : Int) (n : Nat) : (a.bmod n + (b.bmod n * x).bmod n).bmod n = (a + b * x).bmod n := by
  rw [Int.bmod_mul_bmod, Int.add_bmod_bmod, Int.bmod_add_bmod]

theorem step_digit (digit : isDigit c = true) :
    (scanned total current unit).step c = some (scanned total (current * 10 + (c.toNat - 48)) unit) := by
  have range := (isDigit_iff c).mp digit
  have number : ((current * 10 + (c.toNat - 48) : Nat) : Int) = current * 10 + (c.toNat - 48) := by omega
  have next : wrap64 (wrap64 current * 10 + (c.toNat - 48)) = wrap64 (current * 10 + (c.toNat - 48)) :=
    bmod_mul_add current 10 _ _
  unfold DurationScan.step scanned
  rw [if_pos digit, number, ← next]

theorem scan_digits (numeric : ∀ c ∈ ds, isDigit c = true) :
    ds.foldlM DurationScan.step (scanned total 0 unit) = some (scanned total (value ds) unit) := by
  have run (from_ : Nat) : ds.foldlM DurationScan.step (scanned total from_ unit) =
      some (scanned total (ds.foldl (fun n c => n * 10 + (c.toNat - 48)) from_) unit) := by
    induction ds generalizing from_ with
    | nil => rfl
    | cons c ds ih =>
      rw [List.foldlM_cons, step_digit (numeric c List.mem_cons_self)]
      exact ih (fun d member => numeric d (List.mem_cons_of_mem c member)) _
  exact run 0

theorem unit_no_digit (u : TimeUnit) : isDigit u.letter = false := by
  cases u <;> rfl

theorem step_unit (u : TimeUnit) :
    (scanned total current unit).step u.letter = some (scanned (total + current * u.factor) 0 true) := by
  have sum (factor : Nat) : (scanned total current unit).unit factor = scanned (total + current * factor) 0 true := by
    have next : wrap64 (wrap64 total + wrap64 (wrap64 current * factor)) = wrap64 ((total + current * factor : Nat) : Int) := by
      rw [Nat.cast_add, Nat.cast_mul]
      exact bmod_add_mul total current factor _
    unfold DurationScan.unit scanned
    rw [next, wrap64_zero]
  cases u with
  | h => exact congrArg some (sum 3600)
  | m => exact congrArg some (sum 60)
  | s => exact congrArg some (sum 1)

theorem scan_groups (gs : List Group) :
    (gs.flatMap Group.text).foldlM DurationScan.step (scanned total 0 unit) =
      some (scanned (total + (gs.map Group.seconds).sum) 0 (unit || !gs.isEmpty)) := by
  induction gs generalizing total unit with
  | nil => simp
  | cons g gs ih =>
    rw [List.flatMap_cons, List.foldlM_append, Group.text, List.foldlM_append, scan_digits g.numeric]
    simp only [Option.bind_eq_bind, Option.bind_some, List.foldlM_cons, List.foldlM_nil, step_unit, Option.pure_def]
    rw [ih, List.map_cons, List.sum_cons, ← Nat.add_assoc]
    simp [Group.seconds]

theorem scan_text (w : Spelling) :
    w.text.foldlM DurationScan.step {} = some (scanned w.total (value w.tail) !w.groups.isEmpty) := by
  rw [← scanned_start, Spelling.text, List.foldlM_append, scan_groups]
  simp only [Option.bind_eq_bind, Option.bind_some, scan_digits w.numeric]
  simp [Spelling.total]

theorem exists_spelling {s t : DurationScan} {text : Bytes} (ran : text.foldlM DurationScan.step s = some t) :
    ∃ w : Spelling, w.text = text := by
  induction text generalizing s with
  | nil => exact ⟨⟨[], [], nofun⟩, rfl⟩
  | cons c text ih =>
    rw [List.foldlM_cons, Option.bind_eq_bind, Option.bind_eq_some_iff] at ran
    obtain ⟨next, stepped, later⟩ := ran
    obtain ⟨⟨groups, tail, numeric⟩, rfl⟩ := ih later
    have unit (u : TimeUnit) (letter : c = u.letter) : ∃ w : Spelling, w.text = c :: Spelling.text ⟨groups, tail, numeric⟩ :=
      ⟨⟨⟨[], u, nofun⟩ :: groups, tail, numeric⟩, by rw [letter]; rfl⟩
    unfold DurationScan.step at stepped
    split at stepped
    · next digit =>
      cases groups with
      | nil => exact ⟨⟨[], c :: tail, List.forall_mem_cons.mpr ⟨digit, numeric⟩⟩, rfl⟩
      | cons g groups =>
        exact ⟨⟨⟨c :: g.digits, g.unit, List.forall_mem_cons.mpr ⟨digit, g.numeric⟩⟩ :: groups, tail, numeric⟩, rfl⟩
    · split at stepped
      · next letter => exact unit .h letter
      · split at stepped
        · next letter => exact unit .m letter
        · split at stepped
          · next letter => exact unit .s letter
          · cases stepped

theorem spelling_letters (w : Spelling) : ∀ c ∈ w.text, isDigit c = true ∨ ∃ u : TimeUnit, c = u.letter := by
  intro c member
  rcases List.mem_append.mp member with group | tail
  · obtain ⟨g, _, inside⟩ := List.mem_flatMap.mp group
    rcases List.mem_append.mp inside with digit | unit
    · exact .inl (g.numeric c digit)
    · exact .inr ⟨g.unit, List.mem_singleton.mp unit⟩
  · exact .inl (w.numeric c tail)

end Scan

section Spellings

theorem text_cons (g : Group) (groups : List Group) (tail : Bytes) :
    (g :: groups).flatMap Group.text ++ tail = g.digits ++ g.unit.letter :: (groups.flatMap Group.text ++ tail) := by
  simp [Group.text]

theorem leading (g : Group) (rest : Bytes) :
    Longest isDigit (g.digits ++ g.unit.letter :: rest) g.digits (g.unit.letter :: rest) := by
  refine ⟨rfl, g.numeric, fun c head => ?_⟩
  obtain rfl := Option.mem_some.mp head
  exact unit_no_digit g.unit

theorem letter_inj {u v : TimeUnit} (same : u.letter = v.letter) : u = v := by
  cases u <;> cases v <;> first | rfl | cases same

theorem groups_unique {gs gs' : List Group} {tail tail' : Bytes} (numeric : ∀ c ∈ tail, isDigit c = true)
    (numeric' : ∀ c ∈ tail', isDigit c = true)
    (same : gs.flatMap Group.text ++ tail = gs'.flatMap Group.text ++ tail') : gs = gs' ∧ tail = tail' := by
  have no_unit (g : Group) {rest tail : Bytes} (numeric : ∀ c ∈ tail, isDigit c = true)
      (shape : g.digits ++ g.unit.letter :: rest = tail) : False := by
    have digit := numeric g.unit.letter (shape ▸ by simp)
    exact Bool.false_ne_true ((unit_no_digit g.unit).symm.trans digit)
  induction gs generalizing gs' with
  | nil =>
    cases gs' with
    | nil => exact ⟨rfl, same⟩
    | cons g' gs' =>
      rw [text_cons] at same
      exact (no_unit g' numeric same.symm).elim
  | cons g gs ih =>
    cases gs' with
    | nil =>
      rw [text_cons] at same
      exact (no_unit g numeric' same).elim
    | cons g' gs' =>
      rw [text_cons, text_cons] at same
      have first := leading g (gs.flatMap Group.text ++ tail)
      have second := leading g' (gs'.flatMap Group.text ++ tail')
      rw [← same] at second
      have digits := first.takeWhile_eq.symm.trans second.takeWhile_eq
      obtain ⟨letter, later⟩ := List.cons.inj (first.dropWhile_eq.symm.trans second.dropWhile_eq)
      obtain ⟨rfl, rfl⟩ := ih later
      have unit := letter_inj letter
      obtain ⟨ds, u, numeric⟩ := g
      obtain ⟨ds', u', numeric'⟩ := g'
      dsimp only at digits unit
      subst digits unit
      exact ⟨rfl, rfl⟩

theorem spelling_unique {w w' : Spelling} (same : w.text = w'.text) : w = w' := by
  obtain ⟨gs, tail, numeric⟩ := w
  obtain ⟨gs', tail', numeric'⟩ := w'
  obtain ⟨rfl, rfl⟩ := groups_unique numeric numeric' same
  rfl

end Spellings

section Parse

variable {input : Bytes} {w : Spelling}

/-- What the parser makes of a text of digits and units. -/
def Spelling.result (w : Spelling) : Int :=
  if 0 < wrap64 (value w.tail) then wrap64 w.seconds else if w.groups = [] then -1 else wrap64 w.total

theorem permanent_not_spelled (permanent : IsPermanent input) : w.text ≠ input.map tolower := by
  intro same
  have foreign : (112 : UInt8) ∈ w.text := by
    rw [same]
    rcases permanent with word | word <;> rw [word] <;> decide
  rcases spelling_letters w 112 foreign with digit | ⟨u, letter⟩
  · cases digit
  · cases u <;> cases letter

theorem parse_permanent (permanent : IsPermanent input) : parse_ban_duration input = -2 := by
  have filled : input ≠ [] := by
    rintro rfl
    rcases permanent with word | word <;> cases word
  have word : (input.map tolower = bytes "perma" || input.map tolower = bytes "permanent") = true := by
    simpa [IsPermanent] using permanent
  simp only [parse_ban_duration, List.isEmpty_iff, filled, if_false, word, if_true]

/-- What is made of the scan. -/
def finish : Option DurationScan → Int
  | none => -1
  | some s => if 0 < s.current_num then wrap64 (s.total + s.current_num) else if s.has_unit then s.total else -1

theorem parse_scan (other : ¬ IsPermanent input) (filled : input ≠ []) :
    parse_ban_duration input = finish ((input.map tolower).foldlM DurationScan.step {}) := by
  have words : (input.map tolower = bytes "perma" || input.map tolower = bytes "permanent") = false := by
    rw [← Bool.not_eq_true]
    intro word
    exact other (by simpa [IsPermanent] using word)
  simp only [parse_ban_duration, List.isEmpty_iff, filled, if_false, words, Bool.false_eq_true]
  cases (input.map tolower).foldlM DurationScan.step {} <;> rfl

theorem parse_empty : parse_ban_duration [] = -1 := rfl

theorem parse_spelled (same : w.text = input.map tolower) : parse_ban_duration input = w.result := by
  have other : ¬ IsPermanent input := fun permanent => permanent_not_spelled permanent same
  by_cases filled : input = []
  · subst filled
    have none : w.groups = [] ∧ w.tail = [] := by
      obtain ⟨groups, tail⟩ := List.append_eq_nil_iff.mp same
      refine ⟨?_, tail⟩
      cases shape : w.groups with
      | nil => rfl
      | cons g gs =>
        rw [shape] at groups
        simp [Group.text] at groups
    have zero : ¬ 0 < wrap64 (value w.tail) := by
      rw [none.2]
      decide
    rw [Spelling.result, if_neg zero, if_pos none.1, parse_empty]
  · rw [parse_scan other filled, ← same, scan_text]
    have sum : wrap64 (wrap64 w.total + wrap64 (value w.tail)) = wrap64 w.seconds := by
      rw [Spelling.seconds, Nat.cast_add]
      exact (Int.add_bmod_bmod).trans Int.bmod_add_bmod
    simp only [finish, scanned, sum, Spelling.result]
    cases w.groups <;> simp

theorem parse_unspelled (other : ¬ IsPermanent input) (none : ∀ w : Spelling, w.text ≠ input.map tolower) :
    parse_ban_duration input = -1 := by
  by_cases filled : input = []
  · rw [filled, parse_empty]
  · rw [parse_scan other filled]
    cases ran : (input.map tolower).foldlM DurationScan.step {} with
    | none => rfl
    | some s =>
      obtain ⟨w, same⟩ := exists_spelling ran
      exact absurd same (none w)

theorem natCast_ne_sentinel (n : Nat) : (n : Int) ≠ -1 ∧ (n : Int) ≠ -2 := by omega

theorem wrap64_eq {n : Nat} (small : n < 2 ^ 63) : wrap64 n = n :=
  Int.bmod_eq_of_le (by omega) (by omega)

theorem result_of_fits (fits : w.Fits) :
    w.result = if w.groups = [] ∧ value w.tail = 0 then -1 else (w.seconds : Int) := by
  have small := fits.2
  have sum : w.seconds = w.total + value w.tail := rfl
  unfold Spelling.result
  rw [wrap64_eq small, wrap64_eq (by omega : value w.tail < 2 ^ 63), wrap64_eq (by omega : w.total < 2 ^ 63)]
  by_cases bare : value w.tail = 0
  · simp [bare, sum]
  · have positive : (0 : Int) < value w.tail := by omega
    rw [if_pos positive, if_neg fun zero => bare zero.2]

theorem result_iff : w.result = -1 ↔ w.WrapsToMinusOne := by
  unfold Spelling.result Spelling.WrapsToMinusOne
  split
  · next positive => simp [positive, Int.not_le.mpr positive]
  · next low =>
    simp only [low, Int.not_lt.mp low, false_and, true_and, false_or]
    split
    · next none => simp [none]
    · next some => simp [some]

/-- The parser is exact on a text of digits and units exactly when the sum is spared. -/
theorem exact_spelled (same : w.text = input.map tolower) : Exact input ↔ w.Spared := by
  have other : ¬ IsPermanent input := fun permanent => permanent_not_spelled permanent same
  have parsed := parse_spelled same
  have only {w' : Spelling} (again : w'.text = input.map tolower) : w' = w := spelling_unique (again.trans same.symm)
  constructor
  · intro holds
    refine ⟨fun fits => ?_, fun large => ?_⟩
    · have result := parsed.symm.trans (holds.total w same fits)
      rw [result_of_fits fits] at result
      by_contra bare
      rw [not_or, not_not, not_not] at bare
      rw [if_pos bare] at result
      exact (natCast_ne_sentinel w.seconds).1 result.symm
    · have result := holds.refused other fun w' again => only again ▸ large
      rw [parsed] at result
      exact result_iff.mp result
  · rintro ⟨fitting, large⟩
    by_cases fits : w.Fits
    · have result : parse_ban_duration input = w.seconds := by
        rw [parsed, result_of_fits fits, if_neg]
        rintro ⟨none, zero⟩
        exact (fitting fits).elim (· none) (· zero)
      have no_sentinel : parse_ban_duration input ≠ -2 := result ▸ (natCast_ne_sentinel w.seconds).2
      refine ⟨iff_of_false no_sentinel other, fun w' again _ => ?_, fun _ none => absurd fits (none w same)⟩
      rw [only again]
      exact result
    · have result := parsed.trans (result_iff.mpr (large fits))
      have no_sentinel : parse_ban_duration input ≠ -2 := by
        rw [result]
        decide
      refine ⟨iff_of_false no_sentinel other, fun w' again fits' => ?_, fun _ _ => result⟩
      exact absurd (only again ▸ fits') fits

theorem exact_iff_spared (input : Bytes) : Exact input ↔ Spared input := by
  by_cases spelled : ∃ w : Spelling, w.text = input.map tolower
  · obtain ⟨w, same⟩ := spelled
    rw [exact_spelled same]
    constructor
    · intro spared w' again
      rw [spelling_unique (again.trans same.symm)]
      exact spared
    · exact fun spared => spared w same
  · have none : ∀ w : Spelling, w.text ≠ input.map tolower := fun w same => spelled ⟨w, same⟩
    refine iff_of_true ?_ fun w same => absurd same (none w)
    by_cases permanent : IsPermanent input
    · exact ⟨iff_of_true (parse_permanent permanent) permanent, fun w same => absurd same (none w),
        fun other => absurd permanent other⟩
    · have result := parse_unspelled permanent none
      have no_sentinel : parse_ban_duration input ≠ -2 := by
        rw [result]
        decide
      exact ⟨iff_of_false no_sentinel permanent, fun w same => absurd same (none w), fun _ _ => result⟩

end Parse

section Format

variable {d : Nat}

/-- A number with its unit, if it is not zero. -/
def shown (n : Nat) (u : TimeUnit) : List Group := if 0 < n then [⟨natText n, u, natText_digits n⟩] else []

theorem mem_shown {n : Nat} {u : TimeUnit} {g : Group} (member : g ∈ shown n u) : g.digits ≠ [] := by
  unfold shown at member
  split at member
  · obtain rfl := List.mem_singleton.mp member
    exact natText_ne_nil n
  · cases member

theorem shown_text (n : Nat) (u : TimeUnit) :
    (shown n u).flatMap Group.text = if 0 < n then natText n ++ [u.letter] else [] := by
  unfold shown
  split
  · simp [Group.text]
  · rfl

theorem shown_seconds (n : Nat) (u : TimeUnit) : ((shown n u).map Group.seconds).sum = n * u.factor := by
  unfold shown
  split
  · simp [Group.seconds, value_natText]
  · next zero =>
    obtain rfl : n = 0 := by omega
    simp

/-- The spelling of a duration's hours, minutes and seconds. -/
def spelled (d : Nat) : Spelling :=
  ⟨shown (d / 3600) .h ++ shown (d % 3600 / 60) .m ++ shown (d % 60) .s, [], nofun⟩

theorem spelled_seconds (d : Nat) : (spelled d).seconds = d := by
  have parts : (spelled d).total = d / 3600 * 3600 + d % 3600 / 60 * 60 + d % 60 * 1 := by
    simp only [Spelling.total, spelled, List.map_append, List.sum_append, shown_seconds, TimeUnit.factor]
  have tail : value (spelled d).tail = 0 := rfl
  rw [Spelling.seconds, parts, tail]
  omega

theorem spelled_filled (positive : 1 ≤ d) : (spelled d).groups ≠ [] := by
  intro none
  have parts := spelled_seconds d
  rw [Spelling.seconds, Spelling.total, none] at parts
  exact absurd parts (by simp [spelled, value]; omega)

theorem spelled_fits (positive : 1 ≤ d) (small : d < 2 ^ 63) : (spelled d).Fits := by
  refine ⟨⟨fun g member => ?_, .inl (spelled_filled positive)⟩, by rwa [spelled_seconds]⟩
  rcases List.mem_append.mp member with first | second
  · exact (List.mem_append.mp first).elim mem_shown mem_shown
  · exact mem_shown second

theorem format_eq (positive : 1 ≤ d) : format_ban_duration d = (spelled d).text := by
  have h : (d : Int) / 3600 = (d / 3600 : Nat) := by norm_num
  have m : (d : Int) % 3600 / 60 = (d % 3600 / 60 : Nat) := by norm_num
  have s : (d : Int) % 60 = (d % 60 : Nat) := by norm_num
  have text (n : Nat) : to_string n = natText n := rfl
  have letters : bytes "h" = [104] ∧ bytes "m" = [109] ∧ bytes "s" = [115] := by decide
  have no_sentinel : ¬ (d : Int) = -2 ∧ ¬ (d : Int) ≤ 0 := by omega
  unfold format_ban_duration
  simp only [if_neg no_sentinel.1, if_neg no_sentinel.2, h, m, s, Nat.cast_pos, text, letters]
  simp only [Spelling.text, spelled, List.flatMap_append, shown_text, TimeUnit.letter, List.append_nil]
  by_cases seconds : 0 < d % 60
  · simp only [seconds, true_or]
  · -- without seconds there are minutes or hours, and the text is not empty
    have more : 0 < d / 3600 ∨ 0 < d % 3600 / 60 := by omega
    have filled : ((if 0 < d / 3600 then natText (d / 3600) ++ [104] else []) ++
        if 0 < d % 3600 / 60 then natText (d % 3600 / 60) ++ [109] else []).isEmpty = false := by
      rcases more with hours | minutes
      · simp [hours]
      · simp [minutes]
    simp only [seconds, filled, false_or, Bool.false_eq_true, if_false]

theorem spelled_lower (w : Spelling) : w.text.map tolower = w.text := by
  refine List.map_congr_left (fun c member => ?_) |>.trans (List.map_id _)
  rcases spelling_letters w c member with digit | ⟨u, rfl⟩
  · have range := (isDigit_iff c).mp digit
    have low : ¬ (65 ≤ c ∧ c ≤ 90) := fun capital => by
      have := UInt8.le_iff_toNat_le.mp capital.1
      simp only [UInt8.reduceToNat] at this
      omega
    simp [tolower, low]
  · cases u <;> rfl

theorem round_trips : RoundTrips := by
  rintro d (⟨positive, small⟩ | rfl)
  · obtain ⟨d, rfl⟩ := Int.eq_ofNat_of_zero_le (by omega : 0 ≤ d)
    have positive : 1 ≤ d := by omega
    have fits := spelled_fits positive (by omega)
    rw [format_eq positive, parse_spelled (spelled_lower _).symm, result_of_fits fits,
      if_neg fun bare => spelled_filled positive bare.1, spelled_seconds]
  · exact parse_permanent (.inr rfl)

/-- Durations are read back from the texts they are shown as, and the parser is exact on a text exactly
when its sum is spared. -/
theorem codec_exact_iff (input : Bytes) : RoundTrips ∧ (Exact input ↔ Spared input) :=
  ⟨round_trips, exact_iff_spared input⟩

/-- A long ban wraps to the permanent one, and a unit without a number is a duration. -/
theorem long_ban_permanent : ¬ Exact (bytes "18446744073709551614s") ∧ ¬ Exact (bytes "h") := by
  constructor
  · intro holds
    have permanent := holds.permanent.mp (by decide +kernel)
    exact absurd permanent (by unfold IsPermanent; decide +kernel)
  · intro holds
    have other : ¬ IsPermanent (bytes "h") := by
      unfold IsPermanent
      decide +kernel
    have parsed : parse_ban_duration (bytes "h") = 0 := by decide +kernel
    have refused := holds.refused other fun w same fits => ?_
    · rw [parsed] at refused
      exact absurd refused (by decide)
    · have bare : w = ⟨[⟨[], .h, nofun⟩], [], nofun⟩ := spelling_unique same
      rw [bare] at fits
      exact fits.1.numbers _ List.mem_cons_self rfl

end Format

end BanDurations

end AoSdl
