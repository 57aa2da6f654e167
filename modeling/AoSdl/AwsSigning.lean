import AoSdl.AwsSigV4
import AoSdl.Lib.Fields
import Mathlib.Data.Bool.AllAny

/-! When the signature of a request is the one of Signature Version 4. The canonical forms of both differ in the values
of the headers only: the code takes a value as it is, and of several headers of one name the last. -/
namespace AoSdl.aws

open Lib.SortedMap Lib.BigEndian crypto detail

theorem intercalate_concat (sep : Bytes) {front : List Bytes} (some : front ≠ []) (last : Bytes) :
    sep.intercalate (front ++ [last]) = sep.intercalate front ++ sep ++ last := by
  induction front with
  | nil => contradiction
  | cons part front ih =>
    cases front with
    | nil => simp [List.intercalate_cons_cons, List.intercalate_singleton]
    | cons next front =>
      have rest := ih (List.cons_ne_nil next front)
      rw [List.cons_append] at rest
      rw [List.cons_append, List.cons_append, List.intercalate_cons_cons, rest, List.intercalate_cons_cons]
      simp only [List.append_assoc]

theorem intercalate_cons_flatMap (sep part : Bytes) (parts : List Bytes) :
    sep.intercalate (part :: parts) = part ++ parts.flatMap fun part => sep ++ part := by
  induction parts generalizing part with
  | nil => simp [List.intercalate_singleton]
  | cons next parts ih =>
    rw [List.intercalate_cons_cons, ih, List.flatMap_cons]
    simp only [List.append_assoc]

namespace SigV4

/-! ### Values -/

/-- The bytes that are no blanks. -/
def letters (s : Bytes) : Bytes := s.filter fun c => !blank c

@[simp] theorem letters_append (s t : Bytes) : letters (s ++ t) = letters s ++ letters t := List.filter_append ..

theorem letters_flatten_splitOnP (s : Bytes) : letters (s.splitOnP blank).flatten = letters s := by
  induction s with
  | nil => rfl
  | cons c s ih =>
    rw [List.splitOnP_cons_eq_if_modifyHead]
    by_cases sep : blank c = true
    · simp [sep, letters] at *
      exact ih
    · obtain ⟨part, parts, shape⟩ := List.exists_cons_of_ne_nil (List.splitOnP_ne_nil blank s)
      rw [shape] at ih
      rw [if_neg sep, shape]
      simp only [List.modifyHead_cons, List.flatten_cons, List.cons_append, letters, List.filter_cons] at ih ⊢
      rw [ih]

theorem letters_intercalate (parts : List Bytes) : letters ([32].intercalate parts) = letters parts.flatten := by
  cases parts with
  | nil => rfl
  | cons part parts =>
    rw [intercalate_cons_flatMap, List.flatten_cons, letters_append, letters_append]
    congr 1
    induction parts with
    | nil => rfl
    | cons next parts ih =>
      simp only [List.flatMap_cons, List.flatten_cons, letters_append, ih]
      rfl

/-- Blanks are all that is taken or put in. -/
theorem letters_trimmed (value : Bytes) : letters (trimmed value) = letters value := by
  have parts : ((value.splitOnP blank).filter (· ≠ [])).flatten = (value.splitOnP blank).flatten := by
    rw [List.flatten_filter_ne_nil]
  rw [trimmed, letters_intercalate, parts, letters_flatten_splitOnP]

theorem trimmed_of_letters {value : Bytes} (clean : ∀ c ∈ value, blank c = false) : trimmed value = value := by
  rw [trimmed, List.splitOnP_eq_singleton clean]
  by_cases empty : value = []
  · rw [empty]
    rfl
  · have kept : [value].filter (· ≠ []) = [value] := by simp [empty]
    rw [kept, List.intercalate_singleton]

theorem mem_trimmed {c : UInt8} (letter : blank c = false) {value : Bytes} : c ∈ trimmed value ↔ c ∈ value := by
  have mem (s : Bytes) : c ∈ letters s ↔ c ∈ s := by simp [letters, letter]
  rw [← mem, letters_trimmed, mem]

/-- The joined values are the last one only if there is no other. -/
theorem intercalate_trimmed_iff (front : List Bytes) (last : Bytes) :
    [44].intercalate ((front ++ [last]).map trimmed) = last ↔ front = [] ∧ trimmed last = last := by
  rw [List.map_append, List.map_singleton]
  constructor
  · intro same
    by_cases single : front = []
    · subst single
      exact ⟨rfl, by simpa [List.intercalate_singleton] using same⟩
    · have some : front.map trimmed ≠ [] := by simpa using single
      rw [intercalate_concat [44] some] at same
      have count := congrArg (fun s => (letters s).length) same
      have comma : letters [44] = [44] := by decide
      simp only [letters_append, letters_trimmed, comma, List.length_append, List.length_singleton] at count
      omega
  · rintro ⟨rfl, same⟩
    simpa [List.intercalate_singleton] using same

/-! ### Digits -/

theorem digit_word {data : Bytes} (enough : 4 ≤ data.length) :
    to_hex [read_be32 data] = hex (data.take 4) := by
  match data, enough with
  | a :: b :: c :: d :: data, _ =>
    have small := four_lt a b c d
    have word : (read_be32 (a :: b :: c :: d :: data)).toNat = ((a.toNat * 256 + b.toNat) * 256 + c.toNat) * 256 + d.toNat := by
      rw [read_be32, join_four, UInt32.toNat_ofNat', Nat.mod_eq_of_lt small, value_four]
    have := a.toNat_lt
    have := b.toNat_lt
    have := c.toNat_lt
    have := d.toNat_lt
    have places : List.range 8 = [0, 1, 2, 3, 4, 5, 6, 7] := by decide
    simp only [to_hex, word, places, List.flatMap_cons, List.flatMap_nil, List.map_cons, List.map_nil, hex,
      List.take_succ_cons, List.take_zero, List.append_nil, List.cons_append, List.nil_append]
    simp only [Nat.reduceSub, Nat.reducePow, List.cons.injEq, and_true]
    refine ⟨?_, ?_, ?_, ?_, ?_, ?_, ?_, ?_⟩ <;>
    · apply congrArg hex_digit
      omega

theorem hex_append (s t : Bytes) : hex (s ++ t) = hex s ++ hex t := List.flatMap_append

theorem to_hex_words (n : ℕ) {data : Bytes} (enough : 4 * n ≤ data.length) :
    to_hex ((List.range n).map fun i => read_be32 (data.drop (4 * i))) = hex (data.take (4 * n)) := by
  induction n with
  | zero => rfl
  | succ n ih =>
    have more : 4 ≤ (data.drop (4 * n)).length := by
      rw [List.length_drop]
      omega
    have split (l : List UInt32) (w : UInt32) : to_hex (l ++ [w]) = to_hex l ++ to_hex [w] := List.flatMap_append
    rw [List.range_succ, List.map_append, List.map_singleton, split, ih (by omega), digit_word more,
      ← hex_append, ← List.take_add]
    rfl

/-- The words of a code have the digits of its bytes. -/
theorem to_hex_read_words {mac : Bytes} (size : mac.length = 32) : to_hex (read_words mac) = hex mac := by
  rw [read_words, to_hex_words 8 size.ge, List.take_of_length_le size.le]

theorem mem_row {first count : ℕ} (inside : first + count ≤ 256) (c : UInt8) :
    c ∈ (List.range count).map (fun i => UInt8.ofNat (first + i)) ↔ first ≤ c.toNat ∧ c.toNat < first + count := by
  constructor
  · intro member
    obtain ⟨i, before, rfl⟩ := List.mem_map.mp member
    have less := List.mem_range.mp before
    rw [UInt8.toNat_ofNat']
    omega
  · rintro ⟨low, high⟩
    refine List.mem_map.mpr ⟨c.toNat - first, List.mem_range.mpr (by omega), ?_⟩
    rw [Nat.add_sub_cancel' low, UInt8.ofNat_toNat]

theorem unreserved_iff (c : UInt8) : is_unreserved c = true ↔ c ∈ unreserved := by
  have rows : unreserved = (List.range 26).map (fun i => UInt8.ofNat (65 + i)) ++
      (List.range 26).map (fun i => UInt8.ofNat (97 + i)) ++ (List.range 10).map (fun i => UInt8.ofNat (48 + i)) ++
      [45, 46, 95, 126] := by decide +kernel
  have letters : is_unreserved c = true ↔ (65 ≤ c.toNat ∧ c.toNat ≤ 90) ∨ (97 ≤ c.toNat ∧ c.toNat ≤ 122) ∨
      (48 ≤ c.toNat ∧ c.toNat ≤ 57) ∨ c = 45 ∨ c = 95 ∨ c = 46 ∨ c = 126 := by
    simp only [is_unreserved, Bool.or_eq_true, Bool.and_eq_true, decide_eq_true_eq, UInt8.le_iff_toNat_le, or_assoc]
    rfl
  rw [letters, rows]
  simp only [List.mem_append, mem_row (show 65 + 26 ≤ 256 by decide), mem_row (show 97 + 26 ≤ 256 by decide),
    mem_row (show 48 + 10 ≤ 256 by decide), List.mem_cons, List.not_mem_nil, or_false]
  grind

theorem canonical_uri_eq (req : SignableRequest) :
    (if uri_encode req.uri false = [] then bytes "/" else uri_encode req.uri false) = canonical_uri req := by
  have encoded : uri_encode req.uri false = req.uri.flatMap fun c =>
      if c ∈ unreserved ∨ c = 47 then [c] else [37, upper_digit (c.toNat / 16), upper_digit (c.toNat % 16)] := by
    rw [uri_encode]
    congr 1
    funext c
    have same : (is_unreserved c || (!false && decide (c = '/'.toUInt8))) = true ↔ c ∈ unreserved ∨ c = 47 := by
      rw [Bool.or_eq_true, unreserved_iff]
      simp
      rfl
    simp only [same]
    rfl
  have empty : uri_encode req.uri false = [] ↔ req.uri = [] := by
    rw [encoded, List.flatMap_eq_nil_iff]
    constructor
    · intro none
      apply List.eq_nil_iff_forall_not_mem.mpr
      intro c member
      have here := none c member
      split at here
      · contradiction
      · contradiction
    · intro none c member
      rw [none] at member
      contradiction
  rw [canonical_uri, ← encoded]
  simp only [empty]

theorem length_digits (width n : ℕ) : (digits width n).length = width := by simp [digits]

theorem date_from_iso8601_eq (now : Tm) : date_from_iso8601 (format_iso8601 now) = date now := by
  have size : (date now).length = 8 := by simp [date, length_digits]
  have front : format_iso8601 now = date now ++ (bytes "T" ++ digits 2 now.hour ++ digits 2 now.min ++
      digits 2 now.sec ++ bytes "Z") := by simp only [format_iso8601, date, List.append_assoc]
  rw [date_from_iso8601, front, List.take_left' size]

/-- Bytes that are neither blanks nor the end of a line. -/
def Clean (s : Bytes) : Prop := ∀ c ∈ s, blank c = false ∧ c ≠ 10

theorem Clean.trimmed {s : Bytes} (clean : Clean s) : trimmed s = s :=
  trimmed_of_letters fun c member => (clean c member).1

theorem Clean.no_newline {s : Bytes} (clean : Clean s) : 10 ∉ s := fun member => (clean 10 member).2 rfl

theorem digits_clean {width n : ℕ} : Clean (digits width n) := by
  intro c member
  obtain ⟨i, -, rfl⟩ := List.mem_map.mp member
  have all : ∀ d < 10, blank (UInt8.ofNat (48 + d)) = false ∧ UInt8.ofNat (48 + d) ≠ 10 := by decide
  exact all _ (Nat.mod_lt _ (by decide))

theorem sha256_clean (p : Primitives) (d : Bytes) : Clean (p.sha256 d) := by
  have all : ∀ c ∈ bytes "0123456789abcdef", blank c = false ∧ c ≠ 10 := List.all_iff_forall_prop.mp (by decide)
  exact fun c member => all c (p.sha256_digits d c member)

theorem date_time_clean (now : Tm) : Clean (date_time now) := by
  have letter : Clean (bytes "T") ∧ Clean (bytes "Z") :=
    ⟨List.all_iff_forall_prop.mp (by decide), List.all_iff_forall_prop.mp (by decide)⟩
  simp only [Clean, date_time, date, List.forall_mem_append]
  exact ⟨⟨⟨⟨⟨⟨⟨digits_clean, digits_clean⟩, digits_clean⟩, letter.1⟩, digits_clean⟩, digits_clean⟩, digits_clean⟩,
    letter.2⟩

/-! ### Headers -/

section

variable (p : Primitives) (req : SignableRequest) (creds : Credentials) (now : Tm)

/-- The headers of the request whose names are this one up to case. -/
def given (name : Bytes) : List (Bytes × Bytes) := req.headers.filter fun b => to_lowercase b.1 = name

theorem find_set_headers (name : Bytes) : find (set_headers p req creds now) name =
    if creds.session_token ≠ [] ∧ name = token_header then some creds.session_token
    else if name = hash_header then some (p.sha256 req.body)
    else if name = date_header then some (date_time now) else none := by
  have apart : date_header ≠ hash_header ∧ token_header ≠ hash_header ∧ token_header ≠ date_header := by decide
  by_cases token : creds.session_token = []
  · simp only [set_headers, token, if_true, List.append_nil, find, ne_eq, not_true_eq_false, false_and, if_false]
    by_cases date : name = date_header
    · simp [date, apart.1]
    · simp [date]
  · simp only [set_headers, token, if_false, List.cons_append, List.nil_append, find, ne_eq, not_false_eq_true, true_and]
    by_cases date : name = date_header
    · simp [date, apart.1, apart.2.2.symm]
    · by_cases hash : name = hash_header
      · simp [hash, apart.2.1.symm, apart.1.symm]
      · simp [date, hash]

theorem find_set_headers_cases {name value : Bytes} (found : find (set_headers p req creds now) name = some value) :
    value = creds.session_token ∨ value = p.sha256 req.body ∨ value = date_time now := by
  rw [find_set_headers] at found
  split_ifs at found
  · exact .inl (Option.some.inj found).symm
  · exact .inr (.inl (Option.some.inj found).symm)
  · exact .inr (.inr (Option.some.inj found).symm)

/-- The map says what signing sets, and otherwise the last header of a name. -/
theorem find_canonical_header_map (name : Bytes) : find (canonical_header_map p req creds now) name =
    (find (set_headers p req creds now) name).or ((given req name).getLast?.map Prod.snd) := by
  have base := find_foldl (m := ([] : List (Bytes × Bytes))) (fun b => to_lowercase b.1) Prod.snd req.headers name
  rw [find, Option.or_none] at base
  have always : find (put hash_header (p.sha256 req.body) (put date_header (format_iso8601 now)
      (req.headers.foldl (fun headers b => put (to_lowercase b.1) b.2 headers) []))) name =
      (if name = hash_header then some (p.sha256 req.body)
        else if name = date_header then some (date_time now) else none).or ((given req name).getLast?.map Prod.snd) := by
    rw [find_put, find_put, base]
    split_ifs
    · rfl
    · rfl
    · rfl
  rw [find_set_headers, canonical_header_map]
  by_cases token : creds.session_token ≠ [] ∧ name = token_header
  · rw [if_pos token.1, if_pos token, find_put, if_pos token.2]
    rfl
  · rw [if_neg token]
    split
    · next some =>
      have other : name ≠ token_header := fun same => token ⟨some, same⟩
      rw [find_put, if_neg other, always]
    · exact always

theorem sorted_canonical_header_map : Sorted (canonical_header_map p req creds now) := by
  have base : Sorted (req.headers.foldl (fun m b => put (to_lowercase b.1) b.2 m) []) :=
    sorted_foldl _ _ req.headers .nil
  rw [canonical_header_map]
  split
  · exact ((base.put _ _).put _ _).put _ _
  · exact (base.put _ _).put _ _

theorem set_headers_names {b : Bytes × Bytes} (member : b ∈ set_headers p req creds now) :
    b.1 = date_header ∨ b.1 = hash_header ∨ (creds.session_token ≠ [] ∧ b.1 = token_header) := by
  rcases List.mem_append.mp member with always | token
  · rcases List.mem_pair.mp always with rfl | rfl
    · exact .inl rfl
    · exact .inr (.inl rfl)
  · split at token
    · contradiction
    · next some => exact .inr (.inr ⟨some, congrArg Prod.fst (List.mem_singleton.mp token)⟩)

theorem to_lowercase_set {b : Bytes × Bytes} (member : b ∈ set_headers p req creds now) : to_lowercase b.1 = b.1 := by
  rcases set_headers_names p req creds now member with same | same | ⟨-, same⟩
  all_goals
    rw [same]
    decide

theorem nodup_set_headers : ((set_headers p req creds now).map Prod.fst).Nodup := by
  rw [set_headers]
  split
  · simp only [List.map_append, List.map_cons, List.map_nil]
    decide
  · simp only [List.map_append, List.map_cons, List.map_nil]
    decide

/-- A header that signing sets is the only one of its name. -/
theorem headers_filter (name : Bytes) : (headers p req creds now).filter (fun b => to_lowercase b.1 = name) =
    match find (set_headers p req creds now) name with
    | some value => [(name, value)]
    | none => given req name := by
  have own : (set_headers p req creds now).filter (fun b => to_lowercase b.1 = name) =
      ((find (set_headers p req creds now) name).map fun v => (name, v)).toList := by
    rw [← filter_key (nodup_set_headers p req creds now)]
    apply List.filter_congr
    intro b member
    rw [to_lowercase_set p req creds now member]
  rw [headers, List.filter_append, List.filter_filter, own]
  cases found : find (set_headers p req creds now) name with
  | none =>
    have absent := (find_eq_none_iff name).mp found
    rw [Option.map_none, Option.toList_none, List.append_nil, given]
    apply List.filter_congr
    intro b _
    by_cases here : to_lowercase b.1 = name
    · rw [here]
      simp [absent]
    · simp [here]
  | some value =>
    have present : name ∈ (set_headers p req creds now).map Prod.fst := by
      by_contra absent
      rw [(find_eq_none_iff name).mpr absent] at found
      contradiction
    have replaced : (req.headers.filter fun b => decide (to_lowercase b.1 = name) &&
        decide (to_lowercase b.1 ∉ (set_headers p req creds now).map Prod.fst)) = [] := by
      apply List.filter_eq_nil_iff.mpr
      intro b _ both
      rw [Bool.and_eq_true, decide_eq_true_eq, decide_eq_true_eq] at both
      rw [both.1] at both
      exact both.2 present
    rw [replaced]
    rfl

/-- The canonical headers as a map. -/
def table : List (Bytes × Bytes) := (names p req creds now).map fun name => (name, value p req creds now name)

theorem mem_names (name : Bytes) : name ∈ names p req creds now ↔
    (headers p req creds now).filter (fun b => to_lowercase b.1 = name) ≠ [] := by
  rw [names, List.mem_insertionSort, List.mem_dedup, List.mem_map]
  simp

theorem sorted_table : Sorted (table p req creds now) := by
  have order := List.pairwise_insertionSort (· ≤ ·) ((headers p req creds now).map fun b => to_lowercase b.1).dedup
  have nodup : (names p req creds now).Nodup :=
    (List.perm_insertionSort _ _).nodup_iff.mpr (List.nodup_dedup _)
  apply List.pairwise_map.mpr
  refine (order.and nodup).imp fun {a b} both => ?_
  exact lt_of_le_of_ne both.1 both.2

/-- The table says the trimmed values, joined where a name has several. -/
theorem find_table (name : Bytes) : find (table p req creds now) name =
    match find (set_headers p req creds now) name with
    | some value => some (trimmed value)
    | none => if given req name = [] then none else some ([44].intercalate ((given req name).map fun b => trimmed b.2)) := by
  rw [table, find_map]
  simp only [mem_names, value, headers_filter]
  cases find (set_headers p req creds now) name with
  | none => simp
  | some value => simp [List.intercalate_singleton]

end

/-- What the signature needs of the request and the credentials: no header without a name, no two headers whose names
agree up to case, no blanks to trim, and no header for the token of credentials that have none. Headers of the names
that signing sets are replaced. -/
structure Plain (req : SignableRequest) (creds : Credentials) : Prop where
  named : ∀ b ∈ req.headers, b.1 ≠ []
  single : ∀ name ∉ [date_header, hash_header, token_header], (given req name).length ≤ 1
  trimmed : ∀ b ∈ req.headers, to_lowercase b.1 ∉ [date_header, hash_header, token_header] → trimmed b.2 = b.2
  token : SigV4.trimmed creds.session_token = creds.session_token
  tokenless : creds.session_token = [] → given req token_header = []

section

variable (p : Primitives) (req : SignableRequest) (creds : Credentials) (now : Tm)

theorem find_none_of_notMem {name : Bytes} (other : name ∉ [date_header, hash_header, token_header]) :
    find (set_headers p req creds now) name = none := by
  simp only [List.mem_cons, List.not_mem_nil, or_false, not_or] at other
  rw [find_set_headers, if_neg (fun both => other.2.2 both.2), if_neg other.2.1, if_neg other.1]

/-- The map of the code is the table exactly for values that need no change. -/
theorem map_eq_table_iff (tokenless : creds.session_token = [] → given req token_header = []) :
    canonical_header_map p req creds now = table p req creds now ↔
      (∀ name ∉ [date_header, hash_header, token_header], (given req name).length ≤ 1) ∧
      (∀ b ∈ req.headers, to_lowercase b.1 ∉ [date_header, hash_header, token_header] → trimmed b.2 = b.2) ∧
      trimmed creds.session_token = creds.session_token := by
  constructor
  · intro same
    have at_name (name : Bytes) (other : name ∉ [date_header, hash_header, token_header]) :
        ∀ {front : List (Bytes × Bytes)} {last : Bytes × Bytes}, given req name = front ++ [last] →
          front = [] ∧ trimmed last.2 = last.2 := by
      intro front last shape
      have values := find_canonical_header_map p req creds now name
      have some : given req name ≠ [] := by simp [shape]
      rw [same, find_table, find_none_of_notMem p req creds now other] at values
      simp only [if_neg some, Option.none_or] at values
      simp only [shape, List.getLast?_concat, Option.map_some, Option.some.injEq] at values
      have joined := intercalate_trimmed_iff (front.map Prod.snd) last.2
      have values_shape : front.map Prod.snd ++ [last.2] = (front ++ [last]).map Prod.snd := by simp
      rw [values_shape, List.map_map] at joined
      obtain ⟨none, value⟩ := joined.mp values
      exact ⟨List.map_eq_nil_iff.mp none, value⟩
    refine ⟨fun name other => ?_, fun b member other => ?_, ?_⟩
    · rcases List.eq_nil_or_concat (given req name) with none | ⟨front, last, shape⟩
      · rw [none]
        exact Nat.zero_le 1
      · rw [List.concat_eq_append] at shape
        obtain ⟨none, -⟩ := at_name name other shape
        rw [shape, none]
        exact Nat.le_refl 1
    · have inside : b ∈ given req (to_lowercase b.1) := List.mem_filter.mpr ⟨member, by simp⟩
      rcases List.eq_nil_or_concat (given req (to_lowercase b.1)) with none | ⟨front, last, shape⟩
      · rw [none] at inside
        contradiction
      · rw [List.concat_eq_append] at shape
        obtain ⟨none, value⟩ := at_name _ other shape
        rw [shape, none] at inside
        obtain rfl := List.mem_singleton.mp inside
        exact value
    · by_cases empty : creds.session_token = []
      · rw [empty]
        rfl
      · have values := find_canonical_header_map p req creds now token_header
        have token : find (set_headers p req creds now) token_header = some creds.session_token := by
          rw [find_set_headers, if_pos ⟨empty, rfl⟩]
        rw [same, find_table, token] at values
        exact Option.some.inj values
  · rintro ⟨single, values, token⟩
    apply (sorted_canonical_header_map p req creds now).ext (sorted_table p req creds now)
    intro name
    rw [find_canonical_header_map, find_table]
    cases found : find (set_headers p req creds now) name with
    | some value =>
      have kept : trimmed value = value := by
        rcases find_set_headers_cases p req creds now found with rfl | rfl | rfl
        · exact token
        · exact (sha256_clean p req.body).trimmed
        · exact (date_time_clean now).trimmed
      simp only [kept]
      rfl
    | none =>
      rw [Option.none_or]
      cases shape : given req name with
      | nil => rfl
      | cons b rest =>
        have other : name ∉ [date_header, hash_header, token_header] := by
          intro own
          rw [find_set_headers] at found
          split_ifs at found with token hash date
          simp only [List.mem_cons, hash, date, false_or, List.not_mem_nil, or_false] at own
          rw [own] at token shape
          rw [tokenless (not_not.mp fun some => token ⟨some, rfl⟩)] at shape
          contradiction
        have size := single name other
        have alone : rest = [] := by simpa [shape] using size
        have member := List.mem_filter.mp (shape ▸ List.mem_cons_self : b ∈ given req name)
        have same : to_lowercase b.1 = name := by simpa using member.2
        subst alone
        simp [List.intercalate_singleton, values b member.1 (same ▸ other)]

end

/-! ### Signatures -/

def line (b : Bytes × Bytes) : Bytes := b.1 ++ [58] ++ b.2 ++ [10]

theorem foldl_add_header_some (l : List (Bytes × Bytes)) (s : Bytes × Bytes) (some : s.2 ≠ []) :
    l.foldl add_header s = (s.1 ++ l.flatMap line, s.2 ++ (l.map Prod.fst).flatMap fun name => [59] ++ name) := by
  induction l generalizing s with
  | nil => simp
  | cons b l ih =>
    have next : (add_header s b).2 ≠ [] := by simp [add_header, some]
    rw [List.foldl_cons, ih _ next]
    simp [add_header, some, line]
    exact ⟨rfl, rfl⟩

/-- The loop writes the lines, and the names with a semicolon between them after the first name that is not empty. -/
theorem foldl_add_header (l : List (Bytes × Bytes)) (h : Bytes) : l.foldl add_header (h, []) =
    (h ++ l.flatMap line, [59].intercalate ((l.map Prod.fst).dropWhile (· = []))) := by
  induction l generalizing h with
  | nil => simp
  | cons b l ih =>
    have first : add_header (h, []) b = (h ++ line b, b.1) := by
      simp [add_header, line]
      rfl
    rw [List.foldl_cons, first]
    by_cases empty : b.1 = []
    · rw [empty, ih]
      simp [empty]
    · rw [foldl_add_header_some l _ empty]
      simp [empty, intercalate_cons_flatMap]

section

variable (p : Primitives) (req : SignableRequest) (creds : Credentials) (region service : Bytes) (now : Tm)

/-- The authorization with these canonical and signed headers. -/
def authorization_with (canonical_headers signed_headers : Bytes) : Bytes :=
  let request := [10].intercalate
    [req.method, canonical_uri req, req.query, canonical_headers, signed_headers, p.sha256 req.body]
  let string_to_sign := [10].intercalate
    [bytes "AWS4-HMAC-SHA256", date_time now, scope region service now, p.sha256 request]
  bytes "AWS4-HMAC-SHA256 Credential=" ++ creds.access_key_id ++ [47] ++ scope region service now ++
    bytes ", SignedHeaders=" ++ signed_headers ++ bytes ", Signature=" ++
    hex (p.hmac_sha256 (signing_key p creds region service now) string_to_sign)

theorem canonical_headers_eq : canonical_headers p req creds now = (table p req creds now).flatMap line := by
  rw [canonical_headers, table, List.flatMap_map]
  rfl

theorem names_eq : names p req creds now = (table p req creds now).map Prod.fst := by
  rw [table, List.map_map]
  exact (List.map_id _).symm

theorem authorization_eq : authorization p req creds region service now =
    authorization_with p req creds region service now ((table p req creds now).flatMap line)
      ([59].intercalate ((table p req creds now).map Prod.fst)) := by
  rw [← canonical_headers_eq, ← names_eq]
  rfl

theorem sign_authorization : (sign p req creds region service now).authorization =
    authorization_with p req creds region service now ((canonical_header_map p req creds now).flatMap line)
      ([59].intercalate (((canonical_header_map p req creds now).map Prod.fst).dropWhile (· = []))) := by
  have run := foldl_add_header (canonical_header_map p req creds now) []
  rw [List.nil_append] at run
  simp only [sign, run, canonical_uri_eq, date_from_iso8601_eq, to_hex_read_words (p.hmac_length _ _)]
  simp only [authorization_with, signing_key, scope, List.intercalate_cons_cons, List.intercalate_singleton,
    List.foldl_cons, List.foldl_nil, List.append_assoc]
  rfl

theorem isSome_find_iff (name : Bytes) :
    find (canonical_header_map p req creds now) name = none ↔ find (table p req creds now) name = none := by
  rw [find_canonical_header_map, find_table]
  cases find (set_headers p req creds now) name with
  | some value => simp
  | none => simp

theorem keys_eq : (canonical_header_map p req creds now).map Prod.fst = (table p req creds now).map Prod.fst := by
  have order {m : List (Bytes × Bytes)} (sorted : Sorted m) : (m.map Prod.fst).Pairwise (· < ·) :=
    List.pairwise_map.mpr sorted
  have left := order (sorted_canonical_header_map p req creds now)
  have right := order (sorted_table p req creds now)
  have perm : ((canonical_header_map p req creds now).map Prod.fst).Perm ((table p req creds now).map Prod.fst) := by
    apply (List.perm_ext_iff_of_nodup (left.imp ne_of_lt) (right.imp ne_of_lt)).mpr
    intro name
    apply not_iff_not.mp
    rw [← find_eq_none_iff, ← find_eq_none_iff, isSome_find_iff]
  exact perm.eq_of_pairwise (fun a b _ _ less greater => absurd (lt_trans less greater) (lt_irrefl a)) left right

theorem mem_keys_iff (name : Bytes) : name ∈ (canonical_header_map p req creds now).map Prod.fst ↔
    (find (set_headers p req creds now) name).isSome ∨ given req name ≠ [] := by
  apply not_iff_not.mp
  rw [← find_eq_none_iff, find_canonical_header_map]
  cases find (set_headers p req creds now) name with
  | some value => simp
  | none => simp

/-- The token is among the signed headers exactly if there is one, unless the request has a header of its name. -/
theorem token_signed_iff : (token_header ∈ (canonical_header_map p req creds now).map Prod.fst ↔
    creds.session_token ≠ []) ↔ (creds.session_token = [] → given req token_header = []) := by
  have apart : token_header ≠ hash_header ∧ token_header ≠ date_header := by decide
  rw [mem_keys_iff, find_set_headers]
  by_cases empty : creds.session_token = []
  · simp [empty, apart.1, apart.2]
  · simp [empty]

/-- Lines with the same names and without line ends in their values are different for different values. -/
theorem flatMap_line_inj {l l' : List (Bytes × Bytes)} (names : l.map Prod.fst = l'.map Prod.fst)
    (clean : ∀ b ∈ l, 10 ∉ b.2) (clean' : ∀ b ∈ l', 10 ∉ b.2) (same : l.flatMap line = l'.flatMap line) : l = l' := by
  induction l generalizing l' with
  | nil =>
    rw [List.map_nil, eq_comm, List.map_eq_nil_iff] at names
    exact names.symm
  | cons b l ih =>
    cases l' with
    | nil => contradiction
    | cons c l' =>
      obtain ⟨name, value⟩ := b
      obtain ⟨name', value'⟩ := c
      rw [List.map_cons, List.map_cons] at names
      obtain ⟨same_name, other_names⟩ := List.cons.inj names
      obtain rfl : name = name' := same_name
      obtain ⟨first, rest⟩ := List.forall_mem_cons.mp clean
      obtain ⟨first', rest'⟩ := List.forall_mem_cons.mp clean'
      simp only [List.flatMap_cons, line, List.append_assoc, List.append_cancel_left_eq, List.singleton_append] at same
      obtain ⟨same_value, later⟩ := Lib.Fields.append_cons_inj first first' (List.cons.inj same).2
      obtain rfl : value = value' := same_value
      rw [ih other_names rest rest' later]

variable {req creds}

theorem set_headers_clean (token : 10 ∉ creds.session_token) {name value : Bytes}
    (found : find (set_headers p req creds now) name = some value) : 10 ∉ value := by
  rcases find_set_headers_cases p req creds now found with rfl | rfl | rfl
  · exact token
  · exact (sha256_clean p req.body).no_newline
  · exact (date_time_clean now).no_newline

theorem map_clean (clean : ∀ b ∈ req.headers, 10 ∉ b.2) (token : 10 ∉ creds.session_token) :
    ∀ b ∈ canonical_header_map p req creds now, 10 ∉ b.2 := by
  rintro ⟨name, value⟩ member
  have found := ((sorted_canonical_header_map p req creds now).mem_iff name value).mp member
  rw [find_canonical_header_map] at found
  cases own : find (set_headers p req creds now) name with
  | some own_value =>
    rw [own, Option.some_or, Option.some.injEq] at found
    exact found ▸ set_headers_clean p now token own
  | none =>
    rw [own, Option.none_or, Option.map_eq_some_iff] at found
    obtain ⟨b, last, rfl⟩ := found
    exact clean b (List.mem_filter.mp (List.mem_of_getLast? last)).1

theorem table_clean (clean : ∀ b ∈ req.headers, 10 ∉ b.2) (token : 10 ∉ creds.session_token) :
    ∀ b ∈ table p req creds now, 10 ∉ b.2 := by
  have letter : blank 10 = false := by decide
  have joined : ∀ values : List Bytes, (∀ v ∈ values, 10 ∉ v) → 10 ∉ [44].intercalate values := by
    intro values
    cases values with
    | nil => simp
    | cons v values =>
      intro clean
      rw [intercalate_cons_flatMap]
      simpa using clean
  rintro ⟨name, value⟩ member
  have found := ((sorted_table p req creds now).mem_iff name value).mp member
  rw [find_table] at found
  cases own : find (set_headers p req creds now) name with
  | some own_value =>
    rw [own] at found
    rw [← Option.some.inj found, mem_trimmed letter]
    exact set_headers_clean p now token own
  | none =>
    rw [own] at found
    simp only at found
    split at found
    · contradiction
    · rw [← Option.some.inj found]
      apply joined
      simp only [List.forall_mem_map, mem_trimmed letter]
      exact fun b inside => clean b (List.mem_filter.mp inside).1

end

/-! ### Different canonical forms have different signatures -/

section

/-- A hash function with one value for one text and another value for all others, and an authentication code of that
kind. -/
def marking (marked : Bytes) (hash other : Fin 16) (message : Bytes) : Primitives where
  sha256 d := List.replicate 64 (hex_digit (if d = marked then hash else other))
  hmac_sha256 _ m := List.replicate 32 (if m = message then 0 else 1)
  sha256_length _ := List.length_replicate
  sha256_digits d c member := by
    have all : ∀ n : Fin 16, hex_digit n ∈ bytes "0123456789abcdef" := by decide
    rw [List.eq_of_mem_replicate member]
    split
    · exact all hash
    · exact all other
  hmac_length _ _ := List.length_replicate

variable (req : SignableRequest) (creds : Credentials) (region service : Bytes) (now : Tm)

theorem set_headers_congr {p p' : Primitives} (same : p.sha256 req.body = p'.sha256 req.body) :
    set_headers p req creds now = set_headers p' req creds now := by
  rw [set_headers, set_headers, same]

theorem canonical_request_congr {p p' : Primitives} (same : p.sha256 req.body = p'.sha256 req.body) :
    canonical_request p req creds now = canonical_request p' req creds now := by
  have headers_same : headers p req creds now = headers p' req creds now := by
    simp only [headers, set_headers_congr req creds now same]
  have names_same : names p req creds now = names p' req creds now := by simp only [names, headers_same]
  have values : value p req creds now = value p' req creds now := by
    funext name
    simp only [value, headers_same]
  simp only [canonical_request, canonical_headers, signed_headers, names_same, values, same]

theorem hash_isSuffix (p : Primitives) : p.sha256 req.body <:+ canonical_request p req creds now := by
  simp only [canonical_request, List.intercalate_cons_cons, List.intercalate_singleton, ← List.append_assoc]
  exact List.suffix_append ..

/-- Some hash function gives the canonical request of the specification a value that it gives to no other text. -/
theorem exists_marking : ∃ hash other : Fin 16, hash ≠ other ∧ ∃ y, ∀ message,
    canonical_request (marking y hash other message) req creds now = y ∧ y ≠ req.body := by
  have base (other : Fin 16) (hash : Fin 16) (message : Bytes) (y : Bytes)
      (shape : y = canonical_request (marking [] other other []) req creds now) (apart : y ≠ req.body) :
      canonical_request (marking y hash other message) req creds now = y ∧ y ≠ req.body := by
    refine ⟨?_, apart⟩
    conv_rhs => rw [shape]
    apply canonical_request_congr
    simp [marking, Ne.symm apart]
  by_cases zero : canonical_request (marking [] 0 0 []) req creds now = req.body
  · have apart : canonical_request (marking [] 1 1 []) req creds now ≠ req.body := by
      intro one
      have left := hash_isSuffix req creds now (marking [] 0 0 [])
      have right := hash_isSuffix req creds now (marking [] 1 1 [])
      rw [zero] at left
      rw [one] at right
      have size : ((marking [] 0 0 []).sha256 req.body).length = ((marking [] 1 1 []).sha256 req.body).length := by
        rw [Primitives.sha256_length, Primitives.sha256_length]
      have same := (List.suffix_of_suffix_length_le left right size.le).eq_of_length size
      simp only [marking] at same
      revert same
      split
      · decide
      · decide
    exact ⟨0, 1, by decide, _, fun message => base 1 0 message _ rfl apart⟩
  · exact ⟨1, 0, by decide, _, fun message => base 0 1 message _ rfl zero⟩

theorem length_hex (b : Bytes) : (hex b).length = 2 * b.length := by
  induction b with
  | nil => rfl
  | cons c b ih =>
    rw [← List.singleton_append, hex_append, List.length_append, ih, List.length_append]
    simp only [hex, List.flatMap_singleton, List.length_cons, List.length_nil]
    omega

/-- The signed headers and the code can be read off the authorization. -/
theorem authorization_with_inj {p : Primitives} {block block' names names' : Bytes}
    (same : authorization_with p req creds region service now block names =
      authorization_with p req creds region service now block' names') : names = names' ∧
    hex (p.hmac_sha256 (signing_key p creds region service now) ([10].intercalate [bytes "AWS4-HMAC-SHA256",
      date_time now, scope region service now, p.sha256 ([10].intercalate
        [req.method, canonical_uri req, req.query, block, names, p.sha256 req.body])])) =
    hex (p.hmac_sha256 (signing_key p creds region service now) ([10].intercalate [bytes "AWS4-HMAC-SHA256",
      date_time now, scope region service now, p.sha256 ([10].intercalate
        [req.method, canonical_uri req, req.query, block', names', p.sha256 req.body])])) := by
  obtain ⟨front, signature⟩ := List.append_inj' same (by rw [length_hex, length_hex, p.hmac_length, p.hmac_length])
  rw [List.append_cancel_right_eq, List.append_cancel_left_eq] at front
  exact ⟨front, signature⟩

theorem dropWhile_named {l : List (Bytes × Bytes)} (named : ∀ b ∈ l, b.1 ≠ []) :
    (l.map Prod.fst).dropWhile (· = []) = l.map Prod.fst := by
  cases l with
  | nil => rfl
  | cons b l => simp [named b List.mem_cons_self]

/-- Different canonical headers are told apart by some hash functions. -/
theorem exists_differing (named : ∀ p, ∀ b ∈ canonical_header_map p req creds now, b.1 ≠ [])
    (differ : ∀ p, (canonical_header_map p req creds now).flatMap line ≠ (table p req creds now).flatMap line) :
    ∃ p, (sign p req creds region service now).authorization ≠ authorization p req creds region service now := by
  obtain ⟨hash, other, apart, y, marked⟩ := exists_marking req creds now
  let message := [10].intercalate [bytes "AWS4-HMAC-SHA256", date_time now, scope region service now,
    List.replicate 64 (hex_digit hash)]
  let p := marking y hash other message
  refine ⟨p, fun same => ?_⟩
  have request : [10].intercalate [req.method, canonical_uri req, req.query, (table p req creds now).flatMap line,
      [59].intercalate ((table p req creds now).map Prod.fst), p.sha256 req.body] = y := by
    rw [← canonical_headers_eq, ← names_eq]
    exact (marked message).1
  rw [sign_authorization, dropWhile_named (named p), keys_eq, authorization_eq] at same
  obtain ⟨-, codes⟩ := authorization_with_inj req creds region service now same
  rw [request] at codes
  -- the code of the specification is for the marked text, the other one is not
  have at_y : p.sha256 y = List.replicate 64 (hex_digit hash) := by simp [p, marking]
  have at_other {x : Bytes} (unlike : x ≠ y) : p.sha256 x = List.replicate 64 (hex_digit other) := by
    simp [p, marking, unlike]
  rw [at_y, at_other] at codes
  · have unlike : [10].intercalate [bytes "AWS4-HMAC-SHA256", date_time now, scope region service now,
        List.replicate 64 (hex_digit other)] ≠ message := by
      have digits : ∀ m n : Fin 16, m ≠ n → List.replicate 64 (hex_digit m) ≠ List.replicate 64 (hex_digit n) := by
        decide
      intro equal
      simp only [message, List.intercalate_cons_cons, List.intercalate_singleton, List.append_cancel_left_eq] at equal
      exact digits other hash apart.symm equal
    have zero : p.hmac_sha256 (signing_key p creds region service now) message = List.replicate 32 0 := by
      simp [p, marking]
    have one : p.hmac_sha256 (signing_key p creds region service now) ([10].intercalate [bytes "AWS4-HMAC-SHA256",
        date_time now, scope region service now, List.replicate 64 (hex_digit other)]) = List.replicate 32 1 := by
      simp only [p, marking, if_neg unlike]
    rw [zero, one] at codes
    revert codes
    decide
  · intro equal
    rw [← request] at equal
    simp only [List.intercalate_cons_cons, List.append_assoc, List.append_cancel_left_eq,
      List.append_cancel_right_eq] at equal
    exact differ p equal

variable {req}

theorem map_named (named : ∀ b ∈ req.headers, b.1 ≠ []) (p : Primitives) :
    ∀ b ∈ canonical_header_map p req creds now, b.1 ≠ [] := by
  intro b member empty
  have key := (mem_keys_iff p req creds now []).mp (empty ▸ List.mem_map_of_mem member)
  have own : find (set_headers p req creds now) [] = none := find_none_of_notMem p req creds now (by decide)
  rw [own] at key
  rcases key with none | some
  · contradiction
  · obtain ⟨c, inside⟩ := List.exists_mem_of_ne_nil _ some
    obtain ⟨inside, lower⟩ := List.mem_filter.mp inside
    exact named c inside (List.map_eq_nil_iff.mp (of_decide_eq_true lower))

/-- The name that is empty is the first one, and the loop puts no semicolon behind it. -/
theorem unnamed_differs {b : Bytes × Bytes} (member : b ∈ req.headers) (unnamed : b.1 = []) (p : Primitives) :
    (sign p req creds region service now).authorization ≠ authorization p req creds region service now := by
  intro same
  have key : [] ∈ (table p req creds now).map Prod.fst := by
    rw [← keys_eq, mem_keys_iff]
    refine .inr (List.ne_nil_of_mem (List.mem_filter.mpr ⟨member, ?_⟩))
    rw [unnamed]
    rfl
  have date : date_header ∈ (table p req creds now).map Prod.fst := by
    rw [← keys_eq, mem_keys_iff]
    exact .inl (by simp [set_headers, find])
  have order : ((table p req creds now).map Prod.fst).Pairwise (· < ·) :=
    List.pairwise_map.mpr (sorted_table p req creds now)
  rw [sign_authorization, keys_eq, authorization_eq] at same
  obtain ⟨names, -⟩ := authorization_with_inj req creds region service now same
  generalize (table p req creds now).map Prod.fst = keys at key date order names
  have least (name : Bytes) : ¬name < [] := List.not_lt_nil name
  cases keys with
  | nil => contradiction
  | cons first keys =>
    obtain ⟨less, -⟩ := List.pairwise_cons.mp order
    have start : first = [] := by
      rcases List.mem_cons.mp key with same | later
      · exact same.symm
      · exact absurd (less [] later) (least first)
    subst start
    cases keys with
    | nil =>
      rw [List.mem_singleton] at date
      contradiction
    | cons second keys =>
      have some : second ≠ [] := fun empty => lt_irrefl _ (empty ▸ less second List.mem_cons_self)
      simp [some, List.intercalate_cons_cons] at names

end

/-- The signature is the one of the specification, for every hash function and authentication code, and the token is
among the signed headers exactly if there is one. -/
def Conforms (req : SignableRequest) (creds : Credentials) (region service : Bytes) (now : Tm) : Prop :=
  ∀ p, (sign p req creds region service now).authorization = authorization p req creds region service now ∧
    (token_header ∈ (canonical_header_map p req creds now).map Prod.fst ↔ creds.session_token ≠ [])

section

variable {req : SignableRequest} {creds : Credentials} {region service : Bytes} {now : Tm}

theorem Plain.conforms (plain : Plain req creds) : Conforms req creds region service now := by
  intro p
  have same := (map_eq_table_iff p req creds now plain.tokenless).mpr ⟨plain.single, plain.trimmed, plain.token⟩
  refine ⟨?_, (token_signed_iff p req creds now).mpr plain.tokenless⟩
  rw [sign_authorization, dropWhile_named (map_named creds now plain.named p), authorization_eq, same]

theorem Conforms.plain (lines : ∀ b ∈ req.headers, 10 ∉ b.2) (token : 10 ∉ creds.session_token)
    (conforms : Conforms req creds region service now) : Plain req creds := by
  let p := marking [] 0 0 []
  have tokenless := (token_signed_iff p req creds now).mp (conforms p).2
  have named : ∀ b ∈ req.headers, b.1 ≠ [] := fun b member unnamed =>
    unnamed_differs creds region service now member unnamed p (conforms p).1
  by_cases same : ∀ p, canonical_header_map p req creds now = table p req creds now
  · obtain ⟨single, values, trimmed⟩ := (map_eq_table_iff p req creds now tokenless).mp (same p)
    exact ⟨named, single, values, trimmed, tokenless⟩
  · exfalso
    have differ : ∀ p, (canonical_header_map p req creds now).flatMap line ≠ (table p req creds now).flatMap line := by
      intro p lines_same
      apply same
      intro p'
      have equal := flatMap_line_inj (keys_eq p req creds now) (map_clean p now lines token)
        (table_clean p now lines token) lines_same
      have plain := (map_eq_table_iff p req creds now tokenless).mp equal
      exact (map_eq_table_iff p' req creds now tokenless).mpr plain
    obtain ⟨p, other⟩ := exists_differing req creds region service now (map_named creds now named) differ
    exact other (conforms p).1

end

/-- Names that are different in lower case have one header each. -/
theorem length_given_le {req : SignableRequest} (distinct : (req.headers.map fun b => to_lowercase b.1).Nodup)
    (name : Bytes) : (given req name).length ≤ 1 := by
  have same : (given req name).map (fun b => to_lowercase b.1) = List.replicate (given req name).length name := by
    apply List.eq_replicate_iff.mpr
    refine ⟨List.length_map _, fun other member => ?_⟩
    obtain ⟨b, inside, rfl⟩ := List.mem_map.mp member
    exact of_decide_eq_true (List.mem_filter.mp inside).2
  apply List.nodup_replicate.mp
  rw [← same]
  exact distinct.sublist (List.filter_sublist.map _)

/-- Plain requests are signed as the specification says; and of the requests whose values are single lines, no others
are. -/
theorem conforms_iff (req : SignableRequest) (creds : Credentials) (region service : Bytes) (now : Tm) :
    (Plain req creds → Conforms req creds region service now) ∧
    ((∀ b ∈ req.headers, 10 ∉ b.2) → 10 ∉ creds.session_token →
      (Conforms req creds region service now ↔ Plain req creds)) :=
  ⟨Plain.conforms, fun lines token => ⟨Conforms.plain lines token, Plain.conforms⟩⟩

section

/-- SHA-256 and its authentication code. -/
def primitives : Primitives where
  sha256 := sha256_hex
  hmac_sha256 := hmac_sha256
  sha256_length _ := by simp [sha256_hex, to_hex, read_words, List.length_flatMap, Function.comp_def]
  sha256_digits d c member := by
    have all : ∀ n < 16, hex_digit n ∈ bytes "0123456789abcdef" := by decide
    obtain ⟨w, -, digit⟩ := List.mem_flatMap.mp member
    obtain ⟨i, -, rfl⟩ := List.mem_map.mp digit
    exact all _ (Nat.mod_lt _ (by decide))
  hmac_length _ _ := rfl

/-- A header that has a blank in front of its value, or none. -/
def put_events (value : Bytes) : SignableRequest where
  method := bytes "POST"
  uri := bytes "/"
  query := []
  headers := [(bytes "host", bytes "logs"), (bytes "x-amz-target", value)]
  body := bytes "\x7b\x7d"
  sorted := by
    apply List.pairwise_pair.mpr
    simp only
    decide

def keys : Credentials := ⟨bytes "id", bytes "secret", []⟩

def noon : Tm := ⟨2025, 1, 2, 12, 0, 0, by decide, by decide⟩

theorem put_events_signed :
    (sign primitives (put_events (bytes "Put")) keys (bytes "r") (bytes "logs") noon).authorization =
      authorization primitives (put_events (bytes "Put")) keys (bytes "r") (bytes "logs") noon := by
  have plain : Plain (put_events (bytes "Put")) keys := {
    named := by decide
    single := fun name _ => length_given_le (by decide) name
    trimmed := by decide
    token := by decide
    tokenless := by decide }
  exact ((conforms_iff (put_events (bytes "Put")) keys (bytes "r") (bytes "logs") noon).1 plain primitives).1

/-- A blank in front of a value is signed with it. -/
theorem padded_value : ¬Conforms (put_events (bytes " Put")) keys (bytes "r") (bytes "logs") noon := by
  intro conforms
  have plain := conforms.plain (by decide) (by decide)
  have value := plain.trimmed (bytes "x-amz-target", bytes " Put") (by decide) (by decide)
  revert value
  decide

end

end SigV4

end AoSdl.aws
