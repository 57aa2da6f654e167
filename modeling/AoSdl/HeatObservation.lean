import AoSdl.Lib.Decay
import AoSdl.ModerationHeat
import Mathlib.Analysis.SpecialFunctions.Log.Basic

/-! What a call of `ModerationHeat` returns does not depend on who looked at the heat before, unless
an entry bears the time 0, which stands for an entry without a time. -/
namespace AoSdl.moderation.ModerationHeat
open Lib.Decay Lib.Runs

variable {K : Type*} [Field K] [LinearOrder K] (factor : K → Int → K)

/-- The heats that the calls of `apply` and `accrue_trust` for one IPID return. -/
def Call.asks (ipid : Bytes) : Call K → Bool
  | .apply q _ => q = ipid
  | .accrue_trust q _ _ => q = ipid
  | .peek _ => false
  | .sweep => false

def answers (ipid : Bytes) : ModerationHeat K → List (Int × Call K) → List K
  | _, [] => []
  | m, c :: rest =>
    (if c.2.asks ipid then (m.call factor c.1 c.2).1.toList else []) ++
      answers ipid (step factor m c) rest

/-- A call erases the entry of an IPID. -/
def Erases (ipid : Bytes) (m : ModerationHeat K) (c : Int × Call K) : Prop :=
  ipid ∈ m.state_ ∧ ipid ∉ (step factor m c).state_

/-- Whether a call looks at the entry of an IPID. A sweep looks at all of them. -/
def Call.reads (ipid : Bytes) (c : Call K) : Bool := c.about.all (· = ipid)

/-- A call that finds an entry of the IPID with the time 0 finds it at that time. -/
def Dated (ipid : Bytes) (m : ModerationHeat K) (c : Int × Call K) : Prop :=
  c.2.reads ipid = true →
    ∀ entry ∈ m.state_.lookup ipid, entry.last_update_ms = 0 → c.1 = 0

instance (ipid : Bytes) (m : ModerationHeat K) (c : Int × Call K) : Decidable (Erases factor ipid m c) :=
  inferInstanceAs (Decidable (_ ∧ _))

instance (ipid : Bytes) (m : ModerationHeat K) (c : Int × Call K) : Decidable (Dated ipid m c) :=
  inferInstanceAs (Decidable (_ → _))

/-- The floor of every trust. -/
def Call.FloorAbove (bound : K) : Call K → Prop
  | .accrue_trust _ _ floor => bound ≤ floor
  | _ => True

/-- The rate of decay of a configuration. -/
def rate (cfg : HeatConfig K) : Int → K := factor (max 1 cfg.decay_half_life_seconds)

/-- A heat after some milliseconds. -/
def cooled (cfg : HeatConfig K) (heat : K) (ms : Int) : K :=
  faded (rate factor cfg) (negligible K) heat ms

/-- The entry of an IPID as a call finds it at a time, if there is one. -/
def seen (m : ModerationHeat K) (t : Int) (ipid : Bytes) : Option (Entry K) :=
  (m.state_.lookup ipid).map fun entry => decay_locked factor m.cfg_ entry t

/-- An entry that was looked at and the one that was not. -/
inductive Behind (cfg : HeatConfig K) (now : Int) : Option (Entry K) → Option (Entry K) → Prop where
  | absent : Behind cfg now none none
  | present {e d : Entry K} (ordered : d.last_update_ms ≤ e.last_update_ms)
      (past : e.last_update_ms ≤ now)
      (heat : e.heat = cooled factor cfg d.heat (e.last_update_ms - d.last_update_ms))
      (zero : d.last_update_ms = 0 → e.last_update_ms = 0) : Behind cfg now (some e) (some d)

section Proof

variable {factor} {m b : ModerationHeat K} {cfg : HeatConfig K} {now t : Int} {ipid q : Bytes}
  {c : Call K} {e d : Entry K}

theorem decay_eq (past : e.last_update_ms ≤ t) (dated : e.last_update_ms = 0 → t = 0) :
    decay_locked factor cfg e t = ⟨cooled factor cfg e.heat (t - e.last_update_ms), t⟩ := by
  unfold decay_locked cooled faded
  by_cases zero : e.last_update_ms = 0
  · rw [if_pos zero, zero, dated zero, sub_zero, if_pos (le_refl 0)]
  · rw [if_neg zero]
    dsimp only
    by_cases still : t - e.last_update_ms ≤ 0
    · have same : t = e.last_update_ms := by omega
      rw [if_pos still, if_pos still, same]
    · rw [if_neg still, if_neg still]
      rfl

theorem entry_eq (m : ModerationHeat K) (t : Int) (ipid : Bytes) :
    m.entry factor t ipid = (m.seen factor t ipid).getD ⟨0, t⟩ := by
  unfold entry seen
  cases m.state_.lookup ipid with
  | none => rfl
  | some e => rfl

theorem peek_eq (m : ModerationHeat K) (t : Int) (ipid : Bytes) :
    (m.peek factor t ipid).1 = ((m.seen factor t ipid).getD ⟨0, t⟩).heat ∧
      (m.peek factor t ipid).2.state_.lookup ipid = m.seen factor t ipid := by
  unfold peek seen
  cases found : m.state_.lookup ipid with
  | none => exact ⟨rfl, found⟩
  | some e => exact ⟨rfl, AList.lookup_insert _⟩

theorem apply_congr (delta : K) (same : m.entry factor t ipid = b.entry factor t ipid) :
    (m.apply factor t ipid delta).1 = (b.apply factor t ipid delta).1 ∧
      (m.apply factor t ipid delta).2.state_.lookup ipid =
        (b.apply factor t ipid delta).2.state_.lookup ipid := by
  unfold apply
  dsimp only
  rw [AList.lookup_insert, AList.lookup_insert, same]
  exact ⟨rfl, rfl⟩

theorem peek_congr (same : m.seen factor t ipid = b.seen factor t ipid) :
    (m.peek factor t ipid).1 = (b.peek factor t ipid).1 ∧
      (m.peek factor t ipid).2.state_.lookup ipid = (b.peek factor t ipid).2.state_.lookup ipid := by
  rw [(peek_eq m t ipid).1, (peek_eq m t ipid).2, (peek_eq b t ipid).1, (peek_eq b t ipid).2, same]
  exact ⟨rfl, rfl⟩

theorem accrue_congr (amount floor : K) (same : m.seen factor t ipid = b.seen factor t ipid) :
    (m.accrue_trust factor t ipid amount floor).1 = (b.accrue_trust factor t ipid amount floor).1 ∧
      (m.accrue_trust factor t ipid amount floor).2.state_.lookup ipid =
        (b.accrue_trust factor t ipid amount floor).2.state_.lookup ipid := by
  unfold accrue_trust
  split
  · exact peek_congr same
  · split
    · exact peek_congr same
    · dsimp only
      rw [AList.lookup_insert, AList.lookup_insert, entry_eq, entry_eq, same]
      exact ⟨rfl, rfl⟩

/-- What a call for an IPID returns and leaves depends on the entry it finds. -/
theorem call_congr (asks : c.asks ipid = true) (same : m.seen factor t ipid = b.seen factor t ipid) :
    (m.call factor t c).1 = (b.call factor t c).1 ∧
      (m.call factor t c).2.state_.lookup ipid = (b.call factor t c).2.state_.lookup ipid := by
  have entries : m.entry factor t ipid = b.entry factor t ipid := by rw [entry_eq, entry_eq, same]
  cases c with
  | apply q delta =>
    obtain rfl : q = ipid := by simpa [Call.asks] using asks
    exact (apply_congr delta entries).imp_left (congrArg some)
  | accrue_trust q amount floor =>
    obtain rfl : q = ipid := by simpa [Call.asks] using asks
    exact (accrue_congr amount floor same).imp_left (congrArg some)
  | peek q => cases asks
  | sweep => cases asks

theorem lookup_other (about : c.about = some q) (apart : ipid ≠ q) :
    (m.call factor t c).2.state_.lookup ipid = m.state_.lookup ipid := by
  have effect := call_effect factor m t c
  generalize (m.call factor t c).2 = after at effect
  cases effect with
  | swept same =>
    subst same
    cases about
  | quiet => rfl
  | stamped own =>
    obtain rfl := Option.some.inj (own.symm.trans about)
    exact AList.lookup_insert_ne apart

theorem lookup_sweep_kept (kept : ¬ Erases factor ipid m (t, .sweep)) :
    (m.sweep factor t).state_.lookup ipid = m.seen factor t ipid := by
  unfold seen
  cases found : m.state_.lookup ipid with
  | none =>
    rw [lookup_sweep, found]
    rfl
  | some e =>
    have there : ipid ∈ m.state_ := by rw [← AList.lookup_isSome, found, Option.isSome_some]
    have stays : ipid ∈ (m.sweep factor t).state_ := by
      by_contra gone
      exact kept ⟨there, gone⟩
    rw [← AList.lookup_isSome, lookup_sweep, found] at stays
    rw [lookup_sweep, found]
    cases pruned : pruned factor m.cfg_ t e with
    | true => simp [pruned] at stays
    | false => rw [Option.filter_some_pos (by simp [pruned])]

/-- A call that is not for the IPID leaves its entry, or it leaves it as it finds it. -/
theorem lookup_unasked (unasked : c.asks ipid = false) (kept : ¬ Erases factor ipid m (t, c)) :
    (m.call factor t c).2.state_.lookup ipid = m.state_.lookup ipid ∨
    ((m.call factor t c).2.state_.lookup ipid = m.seen factor t ipid ∧ c.reads ipid = true) := by
  cases c with
  | apply q delta => exact .inl (lookup_other rfl (Ne.symm (of_decide_eq_false unasked)))
  | accrue_trust q amount floor =>
    exact .inl (lookup_other rfl (Ne.symm (of_decide_eq_false unasked)))
  | peek q =>
    by_cases same : q = ipid
    · subst same
      exact .inr ⟨(peek_eq m t q).2, decide_eq_true rfl⟩
    · exact .inl (lookup_other rfl (Ne.symm same))
  | sweep => exact .inr ⟨lookup_sweep_kept kept, rfl⟩

omit [Field K] [LinearOrder K] in
theorem about_of_asks (asks : c.asks ipid = true) : c.about = some ipid := by
  cases c <;> simp_all [Call.asks, Call.about]

omit [Field K] [LinearOrder K] in
theorem reads_of_asks (asks : c.asks ipid = true) : c.reads ipid = true := by
  rw [Call.reads, about_of_asks asks]
  exact decide_eq_true rfl

/-- What a call leaves for its IPID bears its time. -/
theorem last_of_about (about : c.about = some ipid)
    (stamp : (m.entry factor t ipid).last_update_ms = t)
    (found : (m.call factor t c).2.state_.lookup ipid = some e) : e.last_update_ms = t := by
  have effect := call_effect factor m t c
  generalize (m.call factor t c).2 = after at effect found
  cases effect with
  | swept same =>
    subst same
    cases about
  | quiet own absent =>
    obtain rfl := Option.some.inj (own.symm.trans about)
    rw [AList.lookup_eq_none.mpr absent] at found
    cases found
  | stamped own =>
    obtain rfl := Option.some.inj (own.symm.trans about)
    rw [AList.lookup_insert] at found
    obtain rfl := Option.some.inj found
    exact stamp

theorem Behind.mono {found_m found_b : Option (Entry K)} (behind : Behind factor cfg now found_m found_b)
    (later : now ≤ t) : Behind factor cfg t found_m found_b := by
  cases behind with
  | absent => exact .absent
  | present ordered past heat zero => exact .present ordered (past.trans later) heat zero

theorem behind_self {found : Option (Entry K)} (stamp : ∀ e, found = some e → e.last_update_ms = now) :
    Behind factor cfg now found found := by
  cases found with
  | none => exact .absent
  | some e =>
    have last := stamp e rfl
    refine .present (le_refl _) last.le ?_ id
    unfold cooled
    rw [sub_self, faded_now]

theorem decay_heat (factor : K → Int → K) (cfg : HeatConfig K) (e : Entry K) (t : Int) :
    ∃ ms, (decay_locked factor cfg e t).heat = cooled factor cfg e.heat ms := by
  by_cases zero : e.last_update_ms = 0
  · refine ⟨0, ?_⟩
    rw [decay_locked, if_pos zero, cooled, faded_now]
  · refine ⟨t - e.last_update_ms, ?_⟩
    rw [decay_locked, if_neg zero, cooled, faded]
    dsimp only
    split <;> rfl

/-- No heat is below a bound. -/
def Above (bound : K) (m : ModerationHeat K) : Prop :=
  ∀ q e, m.state_.lookup q = some e → bound ≤ e.heat

theorem Above.insert {bound : K} (above : Above bound m) (heat : bound ≤ e.heat) :
    Above bound { m with state_ := m.state_.insert q e } := by
  intro p d found
  rcases eq_or_ne p q with rfl | apart
  · rw [AList.lookup_insert] at found
    obtain rfl := Option.some.inj found
    exact heat
  · rw [AList.lookup_insert_ne apart] at found
    exact above p d found

theorem accrue_trust_of_pos (m : ModerationHeat K) (t : Int) (q : Bytes) (amount floor : K)
    (positive : 0 < (m.peek factor t q).1) :
    (m.accrue_trust factor t q amount floor).1 = (m.peek factor t q).1 := by
  unfold accrue_trust
  split
  · rfl
  · split
    · rfl
    · rw [(peek_eq m t q).1, ← entry_eq] at positive ⊢
      exact if_pos positive

variable [IsStrictOrderedRing K]

theorem Behind.seen (fading : Fading (rate factor cfg)) (cfg_m : m.cfg_ = cfg) (cfg_b : b.cfg_ = cfg)
    (behind : Behind factor cfg now (m.state_.lookup ipid) (b.state_.lookup ipid)) (later : now ≤ t)
    (dated : ∀ e, m.state_.lookup ipid = some e → e.last_update_ms = 0 → t = 0) :
    m.seen factor t ipid = b.seen factor t ipid ∧
      Behind factor cfg t (m.seen factor t ipid) (b.state_.lookup ipid) ∧
      (m.entry factor t ipid).last_update_ms = t := by
  rw [entry_eq]
  unfold ModerationHeat.seen
  rw [cfg_m, cfg_b]
  generalize m.state_.lookup ipid = found_m at behind dated
  generalize b.state_.lookup ipid = found_b at behind
  cases behind with
  | absent => exact ⟨rfl, .absent, rfl⟩
  | @present e d ordered past heat zero =>
    have dated_e := dated e rfl
    have split : t - d.last_update_ms =
        e.last_update_ms - d.last_update_ms + (t - e.last_update_ms) := by omega
    have cools : cooled factor cfg e.heat (t - e.last_update_ms) =
        cooled factor cfg d.heat (t - d.last_update_ms) := by
      rw [heat, split]
      exact faded_faded fading (by omega) (by omega) d.heat
    have entry_e : decay_locked factor cfg e t =
        ⟨cooled factor cfg e.heat (t - e.last_update_ms), t⟩ := decay_eq (past.trans later) dated_e
    have entry_d : decay_locked factor cfg d t =
        ⟨cooled factor cfg d.heat (t - d.last_update_ms), t⟩ :=
      decay_eq ((ordered.trans past).trans later) fun none => dated_e (zero none)
    rw [Option.map_some, Option.map_some, entry_e, entry_d, cools]
    exact ⟨rfl, .present ((ordered.trans past).trans later) (le_refl t) rfl
      fun none => dated_e (zero none), rfl⟩

/-- The two tables after a part of the run, and what is true of the IPID's entries in them. -/
structure Watched (factor : K → Int → K) (cfg : HeatConfig K) (ipid : Bytes) (now : Int)
    (m b : ModerationHeat K) : Prop where
  cfg_m : m.cfg_ = cfg
  cfg_b : b.cfg_ = cfg
  behind : Behind factor cfg now (m.state_.lookup ipid) (b.state_.lookup ipid)

/-- A call for the IPID that both runs make returns the same in both. -/
theorem Watched.asked (fading : Fading (rate factor cfg)) (watched : Watched factor cfg ipid now m b)
    (later : now ≤ t) (dated : Dated ipid m (t, c)) (asks : c.asks ipid = true) :
    (m.call factor t c).1 = (b.call factor t c).1 ∧
      Watched factor cfg ipid t (m.call factor t c).2 (b.call factor t c).2 := by
  obtain ⟨same, -, stamp⟩ := watched.behind.seen fading watched.cfg_m watched.cfg_b later
    (dated (reads_of_asks asks))
  obtain ⟨returned, left⟩ := call_congr asks same
  refine ⟨returned, ?_, ?_, ?_⟩
  · exact (step_cfg m (t, c)).trans watched.cfg_m
  · exact (step_cfg b (t, c)).trans watched.cfg_b
  · rw [← left]
    exact behind_self fun e found => last_of_about (about_of_asks asks) stamp found

/-- A call that only one run makes leaves the entries of both in step. -/
theorem Watched.unasked (fading : Fading (rate factor cfg)) (watched : Watched factor cfg ipid now m b)
    (later : now ≤ t) (dated : Dated ipid m (t, c)) (unasked : c.asks ipid = false)
    (kept : ¬ Erases factor ipid m (t, c)) :
    Watched factor cfg ipid t (m.call factor t c).2 b := by
  refine ⟨(step_cfg m (t, c)).trans watched.cfg_m, watched.cfg_b, ?_⟩
  rcases lookup_unasked unasked kept with same | ⟨same, reads⟩
  · rw [same]
    exact watched.behind.mono later
  · rw [same]
    exact (watched.behind.seen fading watched.cfg_m watched.cfg_b later (dated reads)).2.1

/-- Calls for other IPIDs, looks at the heat and sweeps do not change what the calls for an IPID
return. -/
theorem Watched.answers_eq (fading : Fading (rate factor cfg)) (watched : Watched factor cfg ipid now m b)
    {calls : List (Int × Call K)} (ordered : calls.Pairwise fun c d => c.1 ≤ d.1)
    (later : ∀ c ∈ calls, now ≤ c.1)
    (kept : Throughout (step factor) (fun m c => ¬ Erases factor ipid m c) m calls)
    (dated : Throughout (step factor) (Dated ipid) m calls) :
    answers factor ipid m calls = answers factor ipid b (calls.filter fun c => c.2.asks ipid) := by
  induction calls generalizing m b now with
  | nil => rfl
  | cons c rest ih =>
    obtain ⟨t, c⟩ := c
    obtain ⟨after, ordered⟩ := List.pairwise_cons.mp ordered
    have now_le : now ≤ t := later (t, c) List.mem_cons_self
    cases asks : c.asks ipid with
    | true =>
      obtain ⟨returned, watched⟩ := watched.asked fading now_le dated.1 asks
      rw [List.filter_cons_of_pos (p := fun c : Int × Call K => c.2.asks ipid) asks, answers, answers,
        if_pos asks, if_pos asks, returned]
      exact congrArg _ (ih watched ordered after kept.2 dated.2)
    | false =>
      have watched := watched.unasked fading now_le dated.1 asks kept.1
      have passed : ¬ c.asks ipid = true := by simp [asks]
      rw [List.filter_cons_of_neg (p := fun c : Int × Call K => c.2.asks ipid) passed, answers,
        if_neg passed, List.nil_append]
      exact ih watched ordered after kept.2 dated.2

section Bound

variable {bound : K} (negative : bound ≤ 0)

include negative

theorem Above.decay (fading : Fading (rate factor cfg)) (above : bound ≤ e.heat) :
    bound ≤ (decay_locked factor cfg e t).heat := by
  obtain ⟨ms, same⟩ := decay_heat factor cfg e t
  rw [same]
  exact le_faded fading negative above

theorem Above.entry (above : Above bound m) (fading : Fading (rate factor m.cfg_)) (q : Bytes) :
    bound ≤ (m.entry factor t q).heat := by
  refine Above.decay negative fading ?_
  cases found : m.state_.lookup q with
  | none => exact negative
  | some e => exact above q e found

theorem Above.peek (above : Above bound m) (fading : Fading (rate factor m.cfg_)) (q : Bytes) :
    Above bound (m.peek factor t q).2 := by
  unfold ModerationHeat.peek
  cases found : m.state_.lookup q with
  | none => exact above
  | some e => exact above.insert (Above.decay negative fading (above q e found))

theorem Above.call (above : Above bound m) (fading : Fading (rate factor m.cfg_))
    (floors : c.FloorAbove bound) : Above bound (m.call factor t c).2 := by
  have entry (q : Bytes) : bound ≤ (m.entry factor t q).heat := above.entry negative fading q
  cases c with
  | apply q delta =>
    refine above.insert (negative.trans (add_nonneg ?_ ?_))
    · split
      · exact le_refl 0
      · next nonneg => exact not_lt.mp nonneg
    · split
      · exact le_refl 0
      · next nonneg => exact not_lt.mp nonneg
  | accrue_trust q amount floor =>
    show Above bound (m.accrue_trust factor t q amount floor).2
    unfold accrue_trust
    split
    · exact above.peek negative fading q
    · split
      · exact above.peek negative fading q
      · refine above.insert ?_
        dsimp only
        split
        · exact entry q
        · split
          · exact floors
          · next high => exact le_trans floors (not_lt.mp high)
  | peek q => exact above.peek negative fading q
  | sweep =>
    intro q e found
    change (m.sweep factor t).state_.lookup q = some e at found
    rw [lookup_sweep] at found
    obtain ⟨old, inside, rfl⟩ := Option.map_eq_some_iff.mp found
    exact Above.decay negative fading (above q old (Option.filter_eq_some_iff.mp inside).1)

theorem Above.run (above : Above bound m) (fading : Fading (rate factor m.cfg_))
    {calls : List (Int × Call K)} (floors : ∀ c ∈ calls, c.2.FloorAbove bound) :
    Always (step factor) (Above bound) m calls := by
  induction calls generalizing m with
  | nil => exact above
  | cons c rest ih =>
    obtain ⟨floor, floors⟩ := List.forall_mem_cons.mp floors
    refine ⟨above, ih (above.call negative fading floor) ?_ floors⟩
    rwa [step_cfg]

end Bound

theorem le_apply (m : ModerationHeat K) (t : Int) (q : Bytes) (delta : K) :
    max delta 0 ≤ (m.apply factor t q delta).1 := by
  have rises {x : K} (nonneg : 0 ≤ x) (y : K) : y ≤ x + y := le_add_of_nonneg_left nonneg
  have clamped : (if delta < 0 then 0 else delta) = max delta 0 := by
    split
    · next negative => exact (max_eq_right negative.le).symm
    · next nonneg => exact (max_eq_left (not_lt.mp nonneg)).symm
  unfold ModerationHeat.apply
  dsimp only
  rw [clamped]
  refine rises ?_ _
  split
  · exact le_refl 0
  · next nonneg => exact not_lt.mp nonneg

/-- In a run in which no call finds an entry that bears the time 0, except at that time, who looks at
the heat of an IPID does not change what it is told. -/
theorem observation_independent (cfg : HeatConfig K) (fading : Fading (rate factor cfg)) {max_trust : K}
    (some_trust : 0 ≤ max_trust) (ipid : Bytes) {calls : List (Int × Call K)}
    (ordered : calls.Pairwise fun c d => c.1 ≤ d.1)
    (floors : ∀ c ∈ calls, c.2.FloorAbove (-max_trust))
    (kept : Throughout (step factor) (fun m c => ¬ Erases factor ipid m c) { cfg_ := cfg } calls)
    (dated : Throughout (step factor) (Dated ipid) { cfg_ := cfg } calls) :
    answers factor ipid { cfg_ := cfg } calls =
      answers factor ipid { cfg_ := cfg } (calls.filter fun c => c.2.asks ipid) ∧
    Always (step factor) (Above (-max_trust)) { cfg_ := cfg } calls ∧
    (∀ (m : ModerationHeat K) t q delta, max delta 0 ≤ (m.apply factor t q delta).1) ∧
    ∀ (m : ModerationHeat K) t q amount floor, 0 < (m.peek factor t q).1 →
      (m.accrue_trust factor t q amount floor).1 = (m.peek factor t q).1 := by
  obtain ⟨first, later⟩ := exists_first ordered
  have watched : Watched factor cfg ipid first { cfg_ := cfg } { cfg_ := cfg } := ⟨rfl, rfl, .absent⟩
  have above : Above (-max_trust) ({ cfg_ := cfg } : ModerationHeat K) := fun q e found => by cases found
  exact ⟨watched.answers_eq fading ordered later kept dated,
    above.run (neg_nonpos.mpr some_trust) fading floors, le_apply, accrue_trust_of_pos⟩

end Proof

/-- The decay of the code, `exp(-dt * ln2 / half_life)` with the time in seconds. -/
noncomputable def exp_factor (half_life : ℝ) (ms : Int) : ℝ :=
  Real.exp (-(ms / 1000) * Real.log 2 / half_life)

theorem exp_factor_fading (cfg : HeatConfig ℝ) : Fading (rate exp_factor cfg) := by
  have half_life : 0 < max 1 cfg.decay_half_life_seconds := lt_max_of_lt_left one_pos
  have ln2 : 0 < Real.log 2 := Real.log_pos one_lt_two
  refine ⟨fun t _ => Real.exp_pos _, fun t elapsed => ?_, fun s t _ _ => ?_⟩
  · have seconds : (0 : ℝ) ≤ t / 1000 := by positivity
    refine Real.exp_le_one_iff.mpr (div_nonpos_of_nonpos_of_nonneg ?_ half_life.le)
    exact mul_nonpos_of_nonpos_of_nonneg (neg_nonpos.mpr seconds) ln2.le
  · unfold rate exp_factor
    rw [← Real.exp_add]
    congr 1
    push_cast
    ring

theorem halving_fading (cfg : HeatConfig ℚ) : Fading (rate halving cfg) := by
  refine ⟨fun t _ => ?_, fun t _ => ?_, fun s t hs ht => ?_⟩
  · exact pow_pos (by norm_num) _
  · exact pow_le_one₀ (by norm_num) (by norm_num)
  · unfold rate halving
    rw [Int.toNat_add hs ht, pow_add]

/-- Heat that comes and goes, with looks at it and a sweep in between. -/
def watched_calls : List (Int × Call ℚ) :=
  [(7, .apply (bytes "a") 6), (8, .peek (bytes "a")), (9, .apply (bytes "a") 0), (10, .sweep),
    (40, .accrue_trust (bytes "a") (1 / 10) (-10)), (41, .peek (bytes "a")),
    (42, .accrue_trust (bytes "a") (1 / 10) (-10))]

theorem watched_answers : answers halving (bytes "a") { cfg_ := brisk } watched_calls =
    answers halving (bytes "a") { cfg_ := brisk } (watched_calls.filter fun c => c.2.asks (bytes "a")) :=
  (observation_independent brisk (halving_fading brisk) (by norm_num : (0 : ℚ) ≤ 10) (bytes "a")
    (by simp [watched_calls]) (by simp [watched_calls, Call.FloorAbove]) (by decide +kernel)
    (by decide +kernel)).1

/-- An entry that bears the time 0 does not fade until the next call, whenever that comes. -/
def epoch_calls : List (Int × Call ℚ) :=
  [(0, .apply (bytes "a") 6), (1, .peek (bytes "a")), (2, .apply (bytes "a") 0)]

theorem look_cools_down :
    Fading (rate halving brisk) ∧ epoch_calls.Pairwise (fun c d => c.1 ≤ d.1) ∧
    Throughout (step halving) (fun m c => ¬ Erases halving (bytes "a") m c) { cfg_ := brisk } epoch_calls ∧
    answers halving (bytes "a") { cfg_ := brisk } epoch_calls = [6, 3] ∧
    answers halving (bytes "a") { cfg_ := brisk }
      (epoch_calls.filter fun c => c.2.asks (bytes "a")) = [6, 6] :=
  ⟨halving_fading brisk, by simp [epoch_calls], by decide +kernel, by decide +kernel, by decide +kernel⟩

end AoSdl.moderation.ModerationHeat
