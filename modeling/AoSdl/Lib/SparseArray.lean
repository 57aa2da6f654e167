import Mathlib.Data.List.Basic
import Mathlib.Tactic.Common

/-! Bitmap-compressed arrays: a `w`-slot array stored as a bitmap of the occupied
slots and the list of their contents in slot order. The position of a slot in the
list is the number of occupied slots below it. -/
namespace Lib.SparseArray

variable {w : Nat} {α : Type*}

/-- Occupied slots among the first `i`. -/
def rank (b : BitVec w) (i : Nat) : Nat := (List.range i).countP (fun j => b.getLsbD j)

/-- Number of set bits. -/
def popcount (b : BitVec w) : Nat := rank b w

/-- Contents of slot `i`. -/
def get (b : BitVec w) (es : List α) (i : Nat) : Option α :=
  if b.getLsbD i then es[rank b i]? else none

@[simp] theorem rank_zero (b : BitVec w) : rank b 0 = 0 := rfl

theorem rank_succ (b : BitVec w) (i : Nat) :
    rank b (i + 1) = rank b i + if b.getLsbD i then 1 else 0 := by
  simp [rank, List.range_succ, List.countP_append, List.countP_singleton]

theorem rank_mono (b : BitVec w) {i j : Nat} (h : i ≤ j) : rank b i ≤ rank b j := by
  induction h with
  | refl => exact Nat.le_refl _
  | step _ ih => rw [rank_succ]; omega

/-- Occupied slots have strictly increasing positions. -/
theorem rank_lt_rank (b : BitVec w) {i j : Nat} (occupied : b.getLsbD i = true) (h : i < j) :
    rank b i < rank b j := by
  have step : rank b (i + 1) = rank b i + 1 := by rw [rank_succ, if_pos occupied]
  have mono : rank b (i + 1) ≤ rank b j := rank_mono b h
  omega

theorem lt_of_getLsbD {b : BitVec w} {i : Nat} (occupied : b.getLsbD i = true) : i < w := by
  by_contra outside
  rw [BitVec.getLsbD_of_ge b i (Nat.le_of_not_lt outside)] at occupied
  contradiction

theorem rank_lt_popcount {b : BitVec w} {i : Nat} (occupied : b.getLsbD i = true) :
    rank b i < popcount b :=
  rank_lt_rank b occupied (lt_of_getLsbD occupied)

theorem rank_injective {b : BitVec w} {i j : Nat} (hi : b.getLsbD i = true)
    (hj : b.getLsbD j = true) (same : rank b i = rank b j) : i = j := by
  rcases Nat.lt_trichotomy i j with h | h | h
  · have := rank_lt_rank b hi h; omega
  · exact h
  · have := rank_lt_rank b hj h; omega

/-- Every position below a rank belongs to an occupied slot. -/
theorem exists_rank_eq (b : BitVec w) {n p : Nat} (h : p < rank b n) :
    ∃ i < n, b.getLsbD i = true ∧ rank b i = p := by
  induction n with
  | zero => simp at h
  | succ n ih =>
    rw [rank_succ] at h
    by_cases below : p < rank b n
    · obtain ⟨i, hi, occupied, position⟩ := ih below
      exact ⟨i, Nat.lt_succ_of_lt hi, occupied, position⟩
    · have occupied : b.getLsbD n = true := by
        by_contra empty
        rw [if_neg empty] at h
        omega
      rw [if_pos occupied] at h
      exact ⟨n, Nat.lt_succ_self n, occupied, by omega⟩

/-- The bits below slot `i` are selected by the mask `(1 << i) - 1`. -/
theorem popcount_and_mask (b : BitVec w) {i : Nat} (h : i < w) :
    popcount (b &&& ((1#w <<< i) - 1#w)) = rank b i := by
  have bit : ∀ j < w, (b &&& ((1#w <<< i) - 1#w)).getLsbD j = (b.getLsbD j && decide (j < i)) := by
    intro j hj
    have one : (1#w <<< i).toNat = 2 ^ i := by
      have wide : 2 ^ i < 2 ^ w := Nat.pow_lt_pow_right (by decide) h
      have pos : 1 < 2 ^ w := Nat.one_lt_two_pow (by omega)
      rw [BitVec.toNat_shiftLeft, BitVec.toNat_ofNat, Nat.mod_eq_of_lt pos, Nat.shiftLeft_eq,
        Nat.one_mul, Nat.mod_eq_of_lt wide]
    have mask : ((1#w <<< i) - 1#w).toNat = 2 ^ i - 1 := by
      have pos : 1 < 2 ^ w := Nat.one_lt_two_pow (by omega)
      have ge : 1 ≤ 2 ^ i := Nat.one_le_two_pow
      have le : (1#w) ≤ (1#w <<< i) := by
        rw [BitVec.le_def, one, BitVec.toNat_ofNat, Nat.mod_eq_of_lt pos]; exact ge
      rw [BitVec.toNat_sub_of_le le, one, BitVec.toNat_ofNat, Nat.mod_eq_of_lt pos]
    rw [BitVec.getLsbD_and]
    congr 1
    rw [BitVec.getLsbD, mask, Nat.testBit_two_pow_sub_one]
  have counted : ∀ n ≤ w, rank (b &&& ((1#w <<< i) - 1#w)) n = rank b (min n i) := by
    intro n hn
    induction n with
    | zero => simp
    | succ n ih =>
      rw [rank_succ, ih (by omega), bit n (by omega)]
      by_cases below : n < i
      · rw [Nat.min_eq_left (by omega), Nat.min_eq_left (by omega), rank_succ]
        simp [below]
      · rw [Nat.min_eq_right (by omega), Nat.min_eq_right (by omega)]
        simp [below]
  rw [popcount, counted w (Nat.le_refl w), Nat.min_eq_right (Nat.le_of_lt h)]

theorem getLsbD_setBit (b : BitVec w) {i : Nat} (h : i < w) (j : Nat) :
    (b ||| 1#w <<< i).getLsbD j = (b.getLsbD j || decide (j = i)) := by
  rw [BitVec.getLsbD_or, BitVec.getLsbD_shiftLeft, BitVec.getLsbD_one]
  congr 1
  rw [Bool.eq_iff_iff]
  simp only [Bool.and_eq_true, decide_eq_true_eq, Bool.not_eq_true', decide_eq_false_iff_not]
  omega

theorem getLsbD_clearBit (b : BitVec w) {i : Nat} (h : i < w) (j : Nat) :
    (b &&& ~~~(1#w <<< i)).getLsbD j = (b.getLsbD j && !decide (j = i)) := by
  rw [BitVec.getLsbD_and, BitVec.getLsbD_not, BitVec.getLsbD_shiftLeft, BitVec.getLsbD_one]
  by_cases inside : j < w
  · congr 1
    by_cases same : j = i
    · subst j; simp [inside, Nat.zero_lt_of_lt h]
    · have shifted : j < i ∨ j - i ≠ 0 := by omega
      simp only [inside, same, decide_true, decide_false, Bool.true_and, Bool.not_false]
      rcases shifted with below | above <;> simp_all
  · rw [BitVec.getLsbD_of_ge b j (Nat.le_of_not_lt inside)]
    simp

theorem rank_setBit (b : BitVec w) {i : Nat} (h : i < w) (free : b.getLsbD i = false) (j : Nat) :
    rank (b ||| 1#w <<< i) j = rank b j + if i < j then 1 else 0 := by
  induction j with
  | zero => simp
  | succ j ih =>
    rw [rank_succ, rank_succ, ih, getLsbD_setBit b h]
    by_cases same : j = i
    · subst j; simp [free]
    · have cmp : i < j + 1 ↔ i < j := by omega
      simp only [same, decide_false, Bool.or_false, cmp]
      omega

theorem setBit_of_occupied {b : BitVec w} {i : Nat} (occupied : b.getLsbD i = true) :
    b ||| 1#w <<< i = b := by
  apply BitVec.eq_of_getLsbD_eq
  intro j _
  rw [getLsbD_setBit b (lt_of_getLsbD occupied)]
  by_cases same : j = i
  · subst j; simp [occupied]
  · simp [same]

theorem rank_clearBit (b : BitVec w) {i : Nat} (occupied : b.getLsbD i = true) (j : Nat) :
    rank (b &&& ~~~(1#w <<< i)) j + (if i < j then 1 else 0) = rank b j := by
  induction j with
  | zero => simp
  | succ j ih =>
    rw [rank_succ, rank_succ, ← ih, getLsbD_clearBit b (lt_of_getLsbD occupied)]
    by_cases same : j = i
    · subst j; simp [occupied]
    · have cmp : i < j + 1 ↔ i < j := by omega
      simp only [same, decide_false, Bool.not_false, Bool.and_true, cmp]
      omega

/-- List and bitmap describe the same number of occupied slots. -/
def Aligned (b : BitVec w) (es : List α) : Prop := es.length = popcount b

theorem get_eq_none_of_free {b : BitVec w} (es : List α) {i : Nat} (free : b.getLsbD i = false) :
    get b es i = none := by
  simp [get, free]

theorem get_of_occupied {b : BitVec w} (es : List α) {i : Nat} (occupied : b.getLsbD i = true) :
    get b es i = es[rank b i]? := by
  simp [get, occupied]

theorem occupied_of_get {b : BitVec w} {es : List α} {i : Nat} {x : α} (h : get b es i = some x) :
    b.getLsbD i = true := by
  by_contra free
  rw [get_eq_none_of_free es (by simpa using free)] at h
  contradiction

theorem get_isSome {b : BitVec w} {es : List α} (aligned : Aligned b es) {i : Nat}
    (occupied : b.getLsbD i = true) : ∃ x, get b es i = some x := by
  have bound : rank b i < es.length := by rw [aligned]; exact rank_lt_popcount occupied
  exact ⟨es[rank b i], by rw [get_of_occupied es occupied, List.getElem?_eq_getElem bound]⟩

theorem get_insert {b : BitVec w} {es : List α} (aligned : Aligned b es) {i : Nat} (h : i < w)
    (free : b.getLsbD i = false) (x : α) (j : Nat) :
    get (b ||| 1#w <<< i) (es.insertIdx (rank b i) x) j = if j = i then some x else get b es j := by
  have bound : rank b i ≤ es.length := by
    rw [aligned]; exact rank_mono b (Nat.le_of_lt h)
  unfold get
  rw [getLsbD_setBit b h, rank_setBit b h free, List.getElem?_insertIdx]
  by_cases same : j = i
  · subst j; simp [bound]
  by_cases occupied : b.getLsbD j = true
  · rcases Nat.lt_or_gt_of_ne same with below | above
    · have lt := rank_lt_rank b occupied below
      simp [same, occupied, Nat.not_lt_of_lt below, lt]
    · have le := rank_mono b (Nat.le_of_lt above)
      have notLt : ¬ rank b j + 1 < rank b i := by omega
      have notEq : ¬ rank b j + 1 = rank b i := by omega
      simp [same, occupied, above, notLt, notEq]
  · simp [same, occupied]

theorem aligned_insert {b : BitVec w} {es : List α} (aligned : Aligned b es) {i : Nat} (h : i < w)
    (free : b.getLsbD i = false) (x : α) :
    Aligned (b ||| 1#w <<< i) (es.insertIdx (rank b i) x) := by
  have bound : rank b i ≤ es.length := by
    rw [aligned]; exact rank_mono b (Nat.le_of_lt h)
  rw [Aligned, List.length_insertIdx_of_le_length bound, aligned, popcount, popcount,
    rank_setBit b h free, if_pos h]

theorem get_set {b : BitVec w} {es : List α} (aligned : Aligned b es) {i : Nat}
    (occupied : b.getLsbD i = true) (x : α) (j : Nat) :
    get b (es.set (rank b i) x) j = if j = i then some x else get b es j := by
  have bound : rank b i < es.length := by rw [aligned]; exact rank_lt_popcount occupied
  by_cases same : j = i
  · subst j; simp [get, occupied, bound]
  by_cases present : b.getLsbD j = true
  · have different : rank b i ≠ rank b j := fun eq => same (rank_injective present occupied eq.symm)
    simp [get, present, same, List.getElem?_set_ne different]
  · simp [get, present, same]

theorem aligned_set {b : BitVec w} {es : List α} (aligned : Aligned b es) (p : Nat) (x : α) :
    Aligned b (es.set p x) := by
  rw [Aligned, List.length_set, aligned]

theorem get_erase {b : BitVec w} {es : List α} {i : Nat}
    (occupied : b.getLsbD i = true) (j : Nat) :
    get (b &&& ~~~(1#w <<< i)) (es.eraseIdx (rank b i)) j = if j = i then none else get b es j := by
  have ranks := rank_clearBit b occupied j
  unfold get
  rw [getLsbD_clearBit b (lt_of_getLsbD occupied), List.getElem?_eraseIdx]
  by_cases same : j = i
  · simp [same]
  by_cases present : b.getLsbD j = true
  · rcases Nat.lt_or_gt_of_ne same with below | above
    · have lt := rank_lt_rank b present below
      rw [if_neg (Nat.not_lt_of_lt below)] at ranks
      have cmp : rank (b &&& ~~~(1#w <<< i)) j < rank b i := by omega
      simp only [same, present, decide_false, Bool.not_false, Bool.and_true, cmp, ↓reduceIte]
      rw [← ranks, Nat.add_zero]
    · have lt := rank_lt_rank b occupied above
      rw [if_pos above] at ranks
      have cmp : ¬ rank (b &&& ~~~(1#w <<< i)) j < rank b i := by omega
      simp only [same, present, decide_false, Bool.not_false, Bool.and_true, cmp, ↓reduceIte,
        ranks]
  · simp [same, present]

theorem aligned_erase {b : BitVec w} {es : List α} (aligned : Aligned b es) {i : Nat}
    (occupied : b.getLsbD i = true) :
    Aligned (b &&& ~~~(1#w <<< i)) (es.eraseIdx (rank b i)) := by
  have bound : rank b i < es.length := by rw [aligned]; exact rank_lt_popcount occupied
  have ranks := rank_clearBit b occupied w
  rw [if_pos (lt_of_getLsbD occupied)] at ranks
  rw [Aligned, List.length_eraseIdx_of_lt bound, aligned, popcount, popcount]
  omega

/-- The stored contents are exactly the contents of the slots. -/
theorem mem_iff_get {b : BitVec w} {es : List α} (aligned : Aligned b es) (x : α) :
    x ∈ es ↔ ∃ i, get b es i = some x := by
  constructor
  · intro member
    obtain ⟨p, hp, at_p⟩ := List.mem_iff_getElem.mp member
    obtain ⟨i, _, occupied, position⟩ := exists_rank_eq b (aligned ▸ hp)
    exact ⟨i, by rw [get_of_occupied es occupied, position, List.getElem?_eq_getElem hp, at_p]⟩
  · rintro ⟨i, h⟩
    rw [get_of_occupied es (occupied_of_get h)] at h
    exact List.mem_of_getElem? h

/-- A relation between the contents of distinct slots holds along the list. -/
theorem pairwise_of_get {b : BitVec w} {es : List α} (aligned : Aligned b es)
    {R : α → α → Prop}
    (separate : ∀ i j x y, i ≠ j → get b es i = some x → get b es j = some y → R x y) :
    es.Pairwise R := by
  apply List.pairwise_iff_getElem.mpr
  intro p q hp hq lt
  obtain ⟨i, _, oi, pi⟩ := exists_rank_eq b (aligned ▸ hp)
  obtain ⟨j, _, oj, pj⟩ := exists_rank_eq b (aligned ▸ hq)
  refine separate i j _ _ ?_ ?_ ?_
  · rintro rfl; omega
  · rw [get_of_occupied es oi, pi, List.getElem?_eq_getElem hp]
  · rw [get_of_occupied es oj, pj, List.getElem?_eq_getElem hq]

theorem get_singleton {i : Nat} (h : i < w) (x : α) (j : Nat) :
    get (1#w <<< i) [x] j = if j = i then some x else none := by
  have empty : Aligned (0#w) ([] : List α) := by
    simp [Aligned, popcount, rank]
  have filled := get_insert empty h (by simp) x j
  have start : rank (0#w) i = 0 := by simp [rank]
  rw [start, BitVec.zero_or, List.insertIdx_zero] at filled
  rw [filled]
  simp [get]

theorem aligned_singleton {i : Nat} (h : i < w) (x : α) : Aligned (1#w <<< i) [x] := by
  have empty : Aligned (0#w) ([] : List α) := by
    simp [Aligned, popcount, rank]
  have filled := aligned_insert empty h (by simp) x
  have start : rank (0#w) i = 0 := by simp [rank]
  rwa [start, BitVec.zero_or, List.insertIdx_zero] at filled

end Lib.SparseArray
