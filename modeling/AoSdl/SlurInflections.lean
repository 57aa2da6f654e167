import AoSdl.SlurFilter

/-! Inflections of the listed words: `strip_suffix` takes the first of the suffixes that fits, and behind
some words that is not the one that was added. -/
namespace AoSdl.moderation

namespace SlurFilter

/-- An enabled filter with both lists loaded. -/
def loaded (match_score : Rat) (words exempt : List Bytes) : SlurFilter :=
  ((({} : SlurFilter).configure ⟨true, match_score⟩).load_wordlist words).load_exceptions exempt

/-- The token stands for a word that the scan of the message gives. -/
def Reports (f : SlurFilter) (message tok : Bytes) : Prop :=
  ∃ w ∈ (f.scan message).matched, f.candidate tok = some w

/-- The token is a word with one of the suffixes. -/
def Inflects (f : SlurFilter) (tok w : Bytes) : Prop := w ∈ f.wordlist_ ∧ ∃ x ∈ suffixes, tok = w ++ x

/-- Inflections are reported, and besides them and the words nothing is. -/
structure InflectionsExact (f : SlurFilter) (message : Bytes) : Prop where
  complete : ∀ tok ∈ tokenize (normalize message), ∀ w, f.Inflects tok w → tok ∉ f.exceptions_ →
    w ∉ f.exceptions_ → f.Reports message tok
  sound : ∀ tok, f.Reports message tok → tok ∈ f.wordlist_ ∨ ∃ w, f.Inflects tok w
  caused : ∀ w ∈ (f.scan message).matched, ∃ tok ∈ tokenize (normalize message), f.Reports message tok ∧
    (tok = w ∨ f.Inflects tok w)

def Catches (f : SlurFilter) (stem : Bytes) : Prop := stem ∈ f.wordlist_ ∧ stem ∉ f.exceptions_

/-- Where the end of the word and the `s` are a longer suffix, the shorter stem is listed, too. -/
structure Spares (f : SlurFilter) (w : Bytes) : Prop where
  er : ∀ v, w = v ++ bytes "er" → 3 ≤ v.length → f.Catches v
  e : ∀ v, w = v ++ bytes "e" → 3 ≤ v.length → f.Catches v

/-- The words that an `s` was added to in the message are spared. -/
def PluralsSpared (f : SlurFilter) (message : Bytes) : Prop :=
  ∀ w, f.Catches w → w ++ bytes "s" ∈ tokenize (normalize message) → w ++ bytes "s" ∉ f.exceptions_ →
    w ++ bytes "s" ∈ f.wordlist_ ∨ f.Spares w

end SlurFilter

section Strip

variable {w x v : Bytes} {after : List Bytes}

/-- The first suffix that the token has is taken off. -/
theorem strip_of_first (before : List Bytes) (order : suffixes = before ++ x :: after) (long : 3 ≤ w.length)
    (first : ∀ y ∈ before, y <:+ w ++ x → ¬ y.length + 3 ≤ (w ++ x).length) : strip_suffix (w ++ x) = w := by
  have found : suffixes.find? (fun suffix => suffix.length + 3 ≤ (w ++ x).length && suffix.isSuffixOf (w ++ x)) =
      some x := by
    rw [List.find?_eq_some_iff_append]
    refine ⟨?_, before, after, order, fun y member => ?_⟩
    · simp [Nat.add_comm x.length, long]
    · rw [Bool.not_eq_true', ← Bool.not_eq_true, Bool.and_eq_true, decide_eq_true_eq, List.isSuffixOf_iff_suffix]
      exact fun fits => first y member fits.2 fits.1
  rw [strip_suffix, found]
  simp

/-- Neither ends with the other, so no token ends with both. -/
theorem not_both {y : Bytes} (apart : ¬ y <:+ x ∧ ¬ x <:+ y) : ¬ y <:+ w ++ x := by
  intro ends
  exact (List.suffix_or_suffix_of_suffix ends (List.suffix_append w x)).elim apart.1 apart.2

theorem strip_apart (before : List Bytes) (order : suffixes = before ++ x :: after) (long : 3 ≤ w.length)
    (others : ∀ y ∈ before, ¬ y <:+ x ∧ ¬ x <:+ y) : strip_suffix (w ++ x) = w := by
  apply strip_of_first before order long
  intro y member ends
  exact absurd ends (not_both (others y member))

/-- All suffixes but `s` are taken off as they were added. -/
theorem strip_other (listed : x ∈ suffixes) (other : x ≠ bytes "s") (long : 3 ≤ w.length) :
    strip_suffix (w ++ x) = w := by
  simp only [suffixes, List.mem_cons, List.not_mem_nil, or_false] at listed
  rcases listed with rfl | rfl | rfl | rfl | rfl | rfl
  · exact strip_apart [] rfl long (List.forall_mem_nil _)
  · exact strip_apart [bytes "ers"] rfl long (by decide)
  · exact strip_apart [bytes "ers", bytes "ing"] rfl long (by decide)
  · exact strip_apart [bytes "ers", bytes "ing", bytes "ed"] rfl long (by decide)
  · exact strip_apart [bytes "ers", bytes "ing", bytes "ed", bytes "er"] rfl long (by decide)
  · exact absurd rfl other

/-- What is in front of a suffix that ends with the `s` that was added. -/
theorem front_of_suffix {y : Bytes} (ends : y ++ bytes "s" <:+ w ++ bytes "s") : ∃ v, w = v ++ y := by
  obtain ⟨v, same⟩ := ends
  rw [← List.append_assoc] at same
  exact ⟨v, (List.append_cancel_right same).symm⟩

theorem strip_s (long : 3 ≤ w.length) (er : ∀ v, w = v ++ bytes "er" → ¬ 3 ≤ v.length)
    (e : ∀ v, w = v ++ bytes "e" → ¬ 3 ≤ v.length) : strip_suffix (w ++ bytes "s") = w := by
  apply strip_of_first [bytes "ers", bytes "ing", bytes "ed", bytes "er", bytes "es"] rfl long
  have size : ∀ v y : Bytes, w = v ++ y → ¬ 3 ≤ v.length →
      ¬ (y ++ bytes "s").length + 3 ≤ (w ++ bytes "s").length := by
    rintro v y rfl short
    simp only [List.length_append]
    omega
  intro y member ends
  simp only [List.mem_cons, List.not_mem_nil, or_false] at member
  rcases member with rfl | rfl | rfl | rfl | rfl
  · obtain ⟨v, same⟩ := front_of_suffix (y := bytes "er") ends
    exact size v (bytes "er") same (er v same)
  · exact absurd ends (not_both (by decide))
  · exact absurd ends (not_both (by decide))
  · exact absurd ends (not_both (by decide))
  · obtain ⟨v, same⟩ := front_of_suffix (y := bytes "e") ends
    exact size v (bytes "e") same (e v same)

end Strip

namespace SlurFilter

variable {f : SlurFilter} {message tok w : Bytes}

theorem long_of_loaded {match_score : Rat} {words exempt : List Bytes}
    (listed : w ∈ (loaded match_score words exempt).wordlist_) : 3 ≤ w.length := by
  obtain ⟨entry, _, _, long⟩ := mem_words_of.mp listed
  exact of_decide_eq_true long

theorem candidate_isSome : (∃ w, f.candidate tok = some w) ↔ tok ∉ f.exceptions_ ∧
    (tok ∈ f.wordlist_ ∨ (strip_suffix tok).length < tok.length ∧ f.Catches (strip_suffix tok)) := by
  rw [candidate]
  by_cases exempt : f.exceptions_.contains tok = true
  · simp [List.contains_iff_mem.mp exempt]
  · rw [if_neg exempt]
    have free : tok ∉ f.exceptions_ := fun member => exempt (List.contains_iff_mem.mpr member)
    by_cases listed : f.wordlist_.contains tok = true
    · simp [List.contains_iff_mem.mp listed, free]
    · have other : tok ∉ f.wordlist_ := fun member => listed (List.contains_iff_mem.mpr member)
      simp only [if_neg listed, free, other, not_false_eq_true, true_and, false_or, Catches]
      split
      · next stem =>
        simp only [Bool.and_eq_true, decide_eq_true_eq, Bool.not_eq_true', List.contains_iff_mem,
          ← Bool.not_eq_true] at stem
        exact iff_of_true ⟨_, rfl⟩ ⟨stem.1, stem.2.2, stem.2.1⟩
      · next none =>
        refine iff_of_false (by simp) fun stem => none ?_
        simp [stem.1, stem.2.1, stem.2.2]

theorem reports_iff (active : f.is_active = true) (present : tok ∈ tokenize (normalize message)) :
    f.Reports message tok ↔ ∃ w, f.candidate tok = some w := by
  constructor
  · rintro ⟨w, _, stands⟩
    exact ⟨w, stands⟩
  · rintro ⟨w, stands⟩
    exact ⟨w, mem_matched.mpr ⟨active, tok, present, stands⟩, stands⟩

theorem inflects_of_candidate (stands : f.candidate tok = some w) : tok = w ∨ f.Inflects tok w := by
  obtain ⟨listed, same | ⟨stem, shorter⟩⟩ := candidate_cases stands
  · exact .inl same
  · rcases strip_suffix_append tok with whole | ⟨x, suffix, joined⟩
    · rw [whole] at stem
      exact .inl stem
    · rw [stem] at joined
      exact .inr ⟨listed, x, suffix, joined⟩

/-- An inflection by `s` is found with the word or with the stem of a longer suffix. -/
theorem plural_iff {v : Bytes} (stem : strip_suffix (w ++ bytes "s") = v) (shorter : v.length ≤ w.length)
    (free : w ++ bytes "s" ∉ f.exceptions_) :
    (∃ c, f.candidate (w ++ bytes "s") = some c) ↔ w ++ bytes "s" ∈ f.wordlist_ ∨ f.Catches v := by
  have size : v.length < (w ++ bytes "s").length := by
    rw [List.length_append]
    exact Nat.lt_succ_of_le shorter
  simp only [candidate_isSome, stem, size, free, not_false_eq_true, true_and]

theorem plural_er {v : Bytes} (long : 3 ≤ v.length) : strip_suffix ((v ++ bytes "er") ++ bytes "s") = v := by
  rw [List.append_assoc]
  exact strip_other (x := bytes "ers") (by decide) (by decide) long

theorem plural_e {v : Bytes} (long : 3 ≤ v.length) : strip_suffix ((v ++ bytes "e") ++ bytes "s") = v := by
  rw [List.append_assoc]
  exact strip_other (x := bytes "es") (by decide) (by decide) long

/-- A plural is found exactly when it is a word, or its word is spared. -/
theorem plural_found_iff (long : 3 ≤ w.length) (caught : f.Catches w) (free : w ++ bytes "s" ∉ f.exceptions_) :
    (∃ c, f.candidate (w ++ bytes "s") = some c) ↔ w ++ bytes "s" ∈ f.wordlist_ ∨ f.Spares w := by
  by_cases er : ∃ v, w = v ++ bytes "er" ∧ 3 ≤ v.length
  · obtain ⟨v, rfl, enough⟩ := er
    rw [plural_iff (plural_er enough) (by simp) free]
    refine or_congr_right ⟨fun stem => ⟨?_, ?_⟩, fun spares => spares.er v rfl enough⟩
    · intro v' same _
      rwa [← List.append_cancel_right same]
    · intro v' same _
      have last := congrArg List.getLast? same
      rw [List.getLast?_append, List.getLast?_append] at last
      cases last
  by_cases e : ∃ v, w = v ++ bytes "e" ∧ 3 ≤ v.length
  · obtain ⟨v, rfl, enough⟩ := e
    rw [plural_iff (plural_e enough) (by simp) free]
    refine or_congr_right ⟨fun stem => ⟨?_, ?_⟩, fun spares => spares.e v rfl enough⟩
    · intro v' same enough'
      exact absurd ⟨v', same, enough'⟩ er
    · intro v' same _
      rwa [← List.append_cancel_right same]
  · simp only [not_exists, not_and] at er e
    rw [plural_iff (strip_s long er e) le_rfl free]
    refine or_congr_right (iff_of_true caught ⟨?_, ?_⟩)
    · intro v same enough
      exact absurd enough (er v same)
    · intro v same enough
      exact absurd enough (e v same)

theorem other_found {x : Bytes} (suffix : x ∈ suffixes) (other : x ≠ bytes "s") (long : 3 ≤ w.length)
    (caught : f.Catches w) (free : w ++ x ∉ f.exceptions_) : ∃ c, f.candidate (w ++ x) = some c := by
  have filled : ∀ x ∈ suffixes, 0 < x.length := by decide
  rw [candidate_isSome, strip_other suffix other long]
  refine ⟨free, .inr ⟨?_, caught⟩⟩
  rw [List.length_append]
  exact Nat.lt_add_of_pos_right (filled x suffix)

/-- Inflections are reported, and nothing else is, exactly when behind no reported word the end of the word and
an `s` are a longer suffix, or the shorter stem is reported, too. -/
theorem inflections_exact_iff (match_score : Rat) (words exempt : List Bytes) (message : Bytes) :
    (loaded match_score words exempt).InflectionsExact message ↔
      (loaded match_score words exempt).PluralsSpared message := by
  have long {w : Bytes} (listed : w ∈ (loaded match_score words exempt).wordlist_) := long_of_loaded listed
  generalize filter : loaded match_score words exempt = f at long
  have on : f.cfg_.enabled = true := by
    rw [← filter]
    rfl
  have active {w : Bytes} (listed : w ∈ f.wordlist_) : f.is_active = true := by
    simp [is_active, on, List.ne_nil_of_mem listed]
  constructor
  · intro exact_ w caught present free
    have found := exact_.complete _ present w ⟨caught.1, _, by decide, rfl⟩ free caught.2
    rw [reports_iff (active caught.1) present] at found
    exact (plural_found_iff (long caught.1) caught free).mp found
  · intro spared
    refine ⟨?_, ?_, ?_⟩
    · rintro tok present w ⟨listed, x, suffix, rfl⟩ free kept
      rw [reports_iff (active listed) present]
      by_cases plural : x = bytes "s"
      · subst plural
        exact (plural_found_iff (long listed) ⟨listed, kept⟩ free).mpr (spared w ⟨listed, kept⟩ present free)
      · exact other_found suffix plural (long listed) ⟨listed, kept⟩ free
    · rintro tok ⟨w, _, stands⟩
      rcases inflects_of_candidate stands with rfl | inflects
      · exact .inl (candidate_cases stands).1
      · exact .inr ⟨w, inflects⟩
    · intro w matched
      obtain ⟨_, tok, present, stands⟩ := mem_matched.mp matched
      exact ⟨tok, present, ⟨w, matched, stands⟩, inflects_of_candidate stands⟩

/-- The plural of a word in `e` is missed, and of a word in `er`. -/
theorem plurals_missed : ¬ (loaded 1 [bytes "score"] []).InflectionsExact (bytes "no scores") ∧
    ¬ (loaded 1 [bytes "evilster"] []).InflectionsExact (bytes "evilsters") := by
  have first : (loaded 1 [bytes "score"] []).scan (bytes "no scores") = {} := by decide +kernel
  have second : (loaded 1 [bytes "evilster"] []).scan (bytes "evilsters") = {} := by decide +kernel
  constructor
  · intro holds
    obtain ⟨w, found, _⟩ := holds.complete (bytes "scores") (by decide +kernel) (bytes "score")
      ⟨by decide +kernel, bytes "s", by decide, by decide⟩ nofun nofun
    rw [first] at found
    cases found
  · intro holds
    obtain ⟨w, found, _⟩ := holds.complete (bytes "evilsters") (by decide +kernel) (bytes "evilster")
      ⟨by decide +kernel, bytes "s", by decide, by decide⟩ nofun nofun
    rw [second] at found
    cases found

end SlurFilter

end AoSdl.moderation
