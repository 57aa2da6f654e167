import Mathlib.Data.List.SplitBy

/-! Runs of equal letters, squeezed and stretched, and the words of a text: its longest parts of
letters of one kind. -/
namespace Lib.LetterRuns

variable {α : Type*}

/-- A text is built of parts in which neighbours are related, with none related across. -/
theorem parts_induction (r : α → α → Bool) {P : List α → Prop} (nil : P [])
    (part : ∀ u v, u ≠ [] → u.IsChain (fun x y => r x y) →
      (∀ x ∈ u.getLast?, ∀ y ∈ v.head?, r x y = false) → P v → P (u ++ v)) (s : List α) : P s := by
  obtain ⟨text, letters, chains, apart⟩ := List.splitBy_eq_iff.mp (Eq.refl (s.splitBy r))
  rw [text]
  clear text
  generalize s.splitBy r = parts at letters chains apart
  induction parts with
  | nil => exact nil
  | cons u parts ih =>
    rw [List.mem_cons, not_or] at letters
    have rest := ih letters.2 (fun m member => chains m (List.mem_cons_of_mem u member)) apart.tail
    refine part u parts.flatten (Ne.symm letters.1) (chains u List.mem_cons_self) ?_ rest
    intro x last y first
    cases parts with
    | nil => cases first
    | cons v parts =>
      obtain ⟨some_u, some_v, unrelated⟩ := (List.isChain_cons_cons.mp apart).1
      rw [List.flatten_cons, List.head?_append_of_ne_nil _ some_v, List.head?_eq_some_head some_v] at first
      rw [List.getLast?_eq_some_getLast some_u] at last
      cases first
      cases last
      exact unrelated

section Squeeze

variable [DecidableEq α] {p : α → Bool} {limit : Nat} {s v w : List α} {c : α} {n k : Nat}

theorem runs_induction {P : List α → Prop} (nil : P [])
    (run : ∀ c n v, 0 < n → v.head? ≠ some c → P v → P (List.replicate n c ++ v)) (s : List α) : P s := by
  refine parts_induction (· == ·) nil (fun u v letters chain apart rest => ?_) s
  obtain ⟨c, t, rfl⟩ := List.exists_cons_of_ne_nil letters
  have same : c :: t = List.replicate (c :: t).length c :=
    List.isChain_eq_iff_eq_replicate.mp (chain.imp fun a b h => beq_iff_eq.mp h) c rfl
  rw [same]
  refine run c _ v (by simp) (fun first => ?_) rest
  have last : (c :: t).getLast? = some c := by
    rw [same, List.getLast?_replicate, if_neg (by simp)]
  simpa using apart c last c first

/-- What is left of a run. -/
def kept (p : α → Bool) (limit : Nat) (c : α) (n : Nat) : Nat := if p c ∧ limit ≤ n then 1 else n

/-- Long runs of some letters become one letter. -/
def squeeze (p : α → Bool) (limit : Nat) (s : List α) : List α :=
  (s.splitBy (· == ·)).flatMap fun run =>
    run.take (run.head?.elim 0 fun c => kept p limit c run.length)

@[simp] theorem squeeze_nil : squeeze p limit ([] : List α) = [] := rfl

theorem squeeze_append (apart : ∀ x ∈ v.getLast?, ∀ y ∈ w.head?, x ≠ y) :
    squeeze p limit (v ++ w) = squeeze p limit v ++ squeeze p limit w := by
  rw [squeeze, List.splitBy_append fun x last y first => by simpa using apart x last y first,
    List.flatMap_append]
  rfl

omit [DecidableEq α] in
theorem kept_le (positive : 0 < n) : kept p limit c n ≤ n := by
  rw [kept]
  split <;> omega

omit [DecidableEq α] in
theorem kept_pos (positive : 0 < n) : 0 < kept p limit c n := by
  rw [kept]
  split <;> omega

theorem squeeze_replicate (positive : 0 < n) :
    squeeze p limit (List.replicate n c) = List.replicate (kept p limit c n) c := by
  have letters : List.replicate n c ≠ [] := by simpa using Nat.pos_iff_ne_zero.mp positive
  have first : (List.replicate n c).head? = some c := by
    rw [List.head?_replicate, if_neg (Nat.pos_iff_ne_zero.mp positive)]
  rw [squeeze, List.splitBy_of_isChain letters (List.isChain_replicate_of_rel n (beq_self_eq_true c))]
  simp only [List.flatMap_cons, List.flatMap_nil, List.append_nil, first, Option.elim_some,
    List.length_replicate, List.take_replicate, Nat.min_eq_left (kept_le positive)]

theorem squeeze_run (positive : 0 < n) (apart : v.head? ≠ some c) :
    squeeze p limit (List.replicate n c ++ v) =
      List.replicate (kept p limit c n) c ++ squeeze p limit v := by
  rw [squeeze_append, squeeze_replicate positive]
  intro x last y first
  rw [List.getLast?_replicate, if_neg (Nat.pos_iff_ne_zero.mp positive)] at last
  cases last
  rintro rfl
  exact apart first

omit [DecidableEq α] in
theorem head_run (positive : 0 < n) (v : List α) : (List.replicate n c ++ v).head? = some c := by
  obtain ⟨m, rfl⟩ := Nat.exists_eq_succ_of_ne_zero (Nat.pos_iff_ne_zero.mp positive)
  rfl

theorem head_squeeze (s : List α) : (squeeze p limit s).head? = s.head? := by
  induction s using runs_induction with
  | nil => rfl
  | run c n v positive apart _ => rw [squeeze_run positive apart, head_run positive, head_run (kept_pos positive)]

theorem getLast_squeeze (s : List α) : (squeeze p limit s).getLast? = s.getLast? := by
  induction s using runs_induction with
  | nil => rfl
  | run c n v positive apart ih =>
    rw [squeeze_run positive apart, List.getLast?_append, List.getLast?_append, ih, List.getLast?_replicate,
      List.getLast?_replicate, if_neg (Nat.pos_iff_ne_zero.mp positive),
      if_neg (Nat.pos_iff_ne_zero.mp (kept_pos positive))]

theorem squeeze_length_le (s : List α) : (squeeze p limit s).length ≤ s.length := by
  induction s using runs_induction with
  | nil => exact Nat.le_refl _
  | run c n v positive apart ih =>
    rw [squeeze_run positive apart]
    simp only [List.length_append, List.length_replicate]
    exact Nat.add_le_add (kept_le positive) ih

omit [DecidableEq α] in
theorem kept_kept (two : 2 ≤ limit) : kept p limit c (kept p limit c n) = kept p limit c n := by
  by_cases long : p c ∧ limit ≤ n
  · rw [kept, kept, if_pos long, if_neg]
    omega
  · have whole : kept p limit c n = n := if_neg long
    rw [whole, whole]

theorem squeeze_squeeze (two : 2 ≤ limit) (s : List α) :
    squeeze p limit (squeeze p limit s) = squeeze p limit s := by
  induction s using runs_induction with
  | nil => rfl
  | run c n v positive apart ih =>
    have apart' : (squeeze p limit v).head? ≠ some c := by rwa [head_squeeze]
    rw [squeeze_run positive apart, squeeze_run (kept_pos positive) apart', kept_kept two, ih]

/-- In a text that squeezing leaves alone it leaves every run alone. -/
theorem tight_run (positive : 0 < n) (apart : v.head? ≠ some c)
    (tight : squeeze p limit (List.replicate n c ++ v) = List.replicate n c ++ v) :
    kept p limit c n = n ∧ squeeze p limit v = v := by
  rw [squeeze_run positive apart] at tight
  have lengths := congrArg List.length tight
  simp only [List.length_append, List.length_replicate] at lengths
  have run : kept p limit c n ≤ n := kept_le positive
  have rest : (squeeze p limit v).length ≤ v.length := squeeze_length_le v
  have same : kept p limit c n = n := by omega
  rw [same] at tight
  exact ⟨same, List.append_cancel_left tight⟩

/-- The parts of such a text between other letters are left alone too. -/
theorem tight_part {l r : List α} (before : ∀ x ∈ l.getLast?, ∀ y ∈ (s ++ r).head?, x ≠ y)
    (behind : ∀ x ∈ s.getLast?, ∀ y ∈ r.head?, x ≠ y)
    (tight : squeeze p limit (l ++ (s ++ r)) = l ++ (s ++ r)) : squeeze p limit s = s := by
  rw [squeeze_append before, squeeze_append behind] at tight
  have lengths := congrArg List.length tight
  simp only [List.length_append] at lengths
  have left : (squeeze p limit l).length ≤ l.length := squeeze_length_le l
  have middle : (squeeze p limit s).length ≤ s.length := squeeze_length_le s
  have right : (squeeze p limit r).length ≤ r.length := squeeze_length_le r
  have rest := (List.append_inj tight (by omega)).2
  exact (List.append_inj rest (by omega)).1

/-- A text with runs of a word made long; `may` tells the runs that are. -/
inductive Stretched (p : α → Bool) (limit : Nat) (may : Nat → Prop) : List α → List α → Prop
  | nil : Stretched p limit may [] []
  | run {c : α} {k n : Nat} {w s : List α} (positive : 0 < k)
      (grown : n = k ∨ p c = true ∧ limit ≤ n ∧ may k) (apart : w.head? ≠ some c)
      (rest : Stretched p limit may w s) :
      Stretched p limit may (List.replicate k c ++ w) (List.replicate n c ++ s)

variable {may : Nat → Prop}

theorem grown_pos {g h : Prop} (two : 2 ≤ limit) (positive : 0 < k) (grown : n = k ∨ g ∧ limit ≤ n ∧ h) :
    0 < n := by
  rcases grown with rfl | long <;> omega

omit [DecidableEq α] in
theorem Stretched.head_eq (two : 2 ≤ limit) (stretched : Stretched p limit may w s) : s.head? = w.head? := by
  cases stretched with
  | nil => rfl
  | run positive grown _ _ => rw [head_run positive, head_run (grown_pos two positive grown)]

theorem Stretched.refl (w : List α) : Stretched p limit may w w := by
  induction w using runs_induction with
  | nil => exact .nil
  | run c n v positive apart ih => exact .run positive (.inl rfl) apart ih

omit [DecidableEq α] in
theorem Stretched.mono {may' : Nat → Prop} (weaker : ∀ k, may k → may' k)
    (stretched : Stretched p limit may w s) : Stretched p limit may' w s := by
  induction stretched with
  | nil => exact .nil
  | run positive grown apart _ ih =>
    exact .run positive (grown.imp_right fun long => ⟨long.1, long.2.1, weaker _ long.2.2⟩) apart ih

/-- A text is its squeezed form with single letters stretched. -/
theorem stretched_squeeze (s : List α) : Stretched p limit (· = 1) (squeeze p limit s) s := by
  induction s using runs_induction with
  | nil => exact .nil
  | run c n v positive apart ih =>
    rw [squeeze_run positive apart]
    refine .run (kept_pos positive) ?_ (by rwa [head_squeeze]) ih
    by_cases long : p c ∧ limit ≤ n
    · exact .inr ⟨long.1, long.2, if_pos long⟩
    · exact .inl (if_neg long).symm

/-- Squeezing takes back exactly the stretching of single letters. -/
theorem squeeze_eq_iff (two : 2 ≤ limit) (tight : squeeze p limit w = w) :
    squeeze p limit s = w ↔ Stretched p limit (· = 1) w s := by
  constructor
  · rintro rfl
    exact stretched_squeeze s
  · intro stretched
    induction stretched with
    | nil => rfl
    | @run c k n w s positive grown apart rest ih =>
      obtain ⟨whole, tight_rest⟩ := tight_run positive apart tight
      have apart' : s.head? ≠ some c := by rwa [rest.head_eq two]
      have positive' : 0 < n := grown_pos two positive grown
      rw [squeeze_run positive' apart', ih tight_rest]
      rcases grown with rfl | ⟨letter, long, rfl⟩
      · rw [whole]
      · rw [kept, if_pos ⟨letter, long⟩]

/-- However a word is stretched, no more letters are left of it. -/
theorem Stretched.squeeze_length_le (two : 2 ≤ limit) (tight : squeeze p limit w = w)
    (stretched : Stretched p limit may w s) : (squeeze p limit s).length ≤ w.length := by
  induction stretched with
  | nil => exact Nat.le_refl _
  | @run c k n w s positive grown apart rest ih =>
    obtain ⟨whole, tight_rest⟩ := tight_run positive apart tight
    have apart' : s.head? ≠ some c := by rwa [rest.head_eq two]
    have shorter : kept p limit c n ≤ k := by
      rcases grown with rfl | ⟨letter, long, _⟩
      · exact whole.le
      · rw [kept, if_pos ⟨letter, long⟩]
        exact positive
    rw [squeeze_run (grown_pos two positive grown) apart']
    simp only [List.length_append, List.length_replicate]
    exact Nat.add_le_add shorter (ih tight_rest)

omit [DecidableEq α] in
/-- Letters that are not stretched keep their number. -/
theorem Stretched.countP_eq {d : α → Bool} (fixed : ∀ c, d c = true → p c = false)
    (stretched : Stretched p limit may w s) : s.countP d = w.countP d := by
  induction stretched with
  | nil => rfl
  | @run c k n w s positive grown apart rest ih =>
    have run : (List.replicate n c).countP d = (List.replicate k c).countP d := by
      rcases grown with rfl | ⟨letter, _⟩
      · rfl
      · have other : ¬ d c = true := fun counted => absurd ((fixed c counted).symm.trans letter) (by decide)
        simp [List.countP_replicate, other]
    rw [List.countP_append, List.countP_append, run, ih]

theorem countP_squeeze {d : α → Bool} (fixed : ∀ c, d c = true → p c = false) (s : List α) :
    (squeeze p limit s).countP d = s.countP d :=
  ((stretched_squeeze s).countP_eq fixed).symm

omit [DecidableEq α] in
theorem Stretched.mem_iff (two : 2 ≤ limit) (stretched : Stretched p limit may w s) : c ∈ s ↔ c ∈ w := by
  induction stretched with
  | nil => rfl
  | run positive grown _ _ ih =>
    have positive' := grown_pos two positive grown
    rw [List.mem_append, List.mem_append, ih, List.mem_replicate, List.mem_replicate]
    simp only [Nat.pos_iff_ne_zero.mp positive, Nat.pos_iff_ne_zero.mp positive', ne_eq, not_false_eq_true]

theorem mem_squeeze_iff (two : 2 ≤ limit) (s : List α) : c ∈ squeeze p limit s ↔ c ∈ s :=
  ((stretched_squeeze s).mem_iff two).symm

end Squeeze

section Words

variable {q : α → Bool} {s t l r : List α}

/-- The longest parts of letters of one kind. -/
def words (q : α → Bool) (s : List α) : List (List α) :=
  (s.splitBy fun a b => q a == q b).filter fun part => part.head?.any q

theorem words_append (apart : ∀ x ∈ l.getLast?, ∀ y ∈ r.head?, q x ≠ q y) :
    words q (l ++ r) = words q l ++ words q r := by
  rw [words, List.splitBy_append fun x last y first => by simpa using apart x last y first,
    List.filter_append]
  rfl

theorem words_one_kind (letters : t ≠ []) (kind : ∀ x ∈ t, ∀ y ∈ t, q x = q y) :
    words q t = if t.head?.any q then [t] else [] := by
  have chain : t.IsChain fun a b => (q a == q b) = true := by
    clear letters
    induction t with
    | nil => exact .nil
    | cons a t ih =>
      refine List.isChain_cons.mpr ⟨fun y first => ?_, ih fun x hx y hy =>
        kind x (List.mem_cons_of_mem a hx) y (List.mem_cons_of_mem a hy)⟩
      exact beq_iff_eq.mpr (kind a List.mem_cons_self y (List.mem_cons_of_mem a (List.mem_of_mem_head? first)))
  rw [words, List.splitBy_of_isChain letters chain, List.filter_cons, List.filter_nil]

theorem words_word (letters : t ≠ []) (word : ∀ c ∈ t, q c = true) : words q t = [t] := by
  obtain ⟨c, t, rfl⟩ := List.exists_cons_of_ne_nil letters
  rw [words_one_kind letters fun x hx y hy => (word x hx).trans (word y hy).symm, if_pos]
  simpa using word c List.mem_cons_self

/-- A word between other letters is a word of the text. -/
theorem words_between (letters : t ≠ []) (word : ∀ c ∈ t, q c = true)
    (before : ∀ x ∈ l.getLast?, q x = false) (behind : ∀ y ∈ r.head?, q y = false) :
    words q (l ++ (t ++ r)) = words q l ++ (t :: words q r) := by
  have left : ∀ x ∈ l.getLast?, ∀ y ∈ (t ++ r).head?, q x ≠ q y := by
    intro x last y first
    rw [List.head?_append_of_ne_nil t letters] at first
    rw [before x last, word y (List.mem_of_mem_head? first)]
    decide
  have right : ∀ x ∈ t.getLast?, ∀ y ∈ r.head?, q x ≠ q y := by
    intro x last y first
    rw [word x (List.mem_of_getLast? last), behind y first]
    decide
  rw [words_append left, words_append right, words_word letters word]
  rfl

/-- Where a word of a text stands. -/
theorem mem_words (member : t ∈ words q s) : t ≠ [] ∧ (∀ c ∈ t, q c = true) ∧
    ∃ l r, s = l ++ (t ++ r) ∧ (∀ x ∈ l.getLast?, q x = false) ∧ ∀ y ∈ r.head?, q y = false := by
  induction s using parts_induction (fun a b => q a == q b) with
  | nil => cases member
  | part u v letters chain apart ih =>
    have other : ∀ x ∈ u.getLast?, ∀ y ∈ v.head?, q x ≠ q y := fun x last y first => by
      simpa using apart x last y first
    have kind : ∀ x ∈ u, ∀ y ∈ u, q x = q y := by
      have pairs : u.Pairwise fun a b => q a = q b :=
        List.isChain_iff_pairwise.mp (chain.imp fun a b h => beq_iff_eq.mp h)
      have flipped : u.Pairwise (flip fun a b => q a = q b) := pairs.imp fun same => same.symm
      exact pairs.forall_of_forall_of_flip (fun _ _ => rfl) flipped
    rw [words_append other, List.mem_append, words_one_kind letters kind] at member
    rcases member with own | later
    · split at own
      · next word =>
        obtain rfl := List.mem_singleton.mp own
        obtain ⟨c, rest, rfl⟩ := List.exists_cons_of_ne_nil letters
        have all : ∀ x ∈ c :: rest, q x = true := fun x hx => (kind x hx c List.mem_cons_self).trans word
        refine ⟨letters, all, [], v, rfl, by simp, fun y first => ?_⟩
        have last := List.getLast?_eq_some_getLast letters
        have differ := other _ last y first
        rw [all _ (List.getLast_mem letters)] at differ
        exact Bool.not_eq_true _ ▸ differ.symm
      · cases own
    · obtain ⟨some_letter, word, l, r, rfl, before, behind⟩ := ih later
      refine ⟨some_letter, word, u ++ l, r, by rw [List.append_assoc], fun x last => ?_, behind⟩
      by_cases empty : l = []
      · rw [empty, List.append_nil] at last
        obtain ⟨c, rest, rfl⟩ := List.exists_cons_of_ne_nil some_letter
        have differ := other x last c (by rw [empty]; rfl)
        rw [word c List.mem_cons_self] at differ
        exact Bool.not_eq_true _ ▸ differ
      · rw [List.getLast?_append_of_ne_nil _ empty] at last
        exact before x last

end Words

end Lib.LetterRuns
