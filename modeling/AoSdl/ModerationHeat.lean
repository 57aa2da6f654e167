import AoSdl.Lib.Entries
import AoSdl.Lib.Runs
import AoSdl.Text

/-! `ModerationHeat`: the heat of each IPID, which fades with time. Doubles are the elements of an
ordered field, and a call is given the time it reads off the clock, in milliseconds. The part of a
heat that is left, `exp(-dt * ln2 / half_life)`, is a parameter of the half-life and the elapsed
time. -/
namespace AoSdl.moderation
open Lib.Entries Lib.Runs

structure HeatConfig (K : Type*) where
  decay_half_life_seconds : K
  prune_below : K
  sweep_idle_seconds : Int

structure ModerationHeat.Entry (K : Type*) [Zero K] where
  heat : K := 0
  last_update_ms : Int := 0

structure ModerationHeat (K : Type*) [Zero K] where
  state_ : AList (fun _ : Bytes => ModerationHeat.Entry K) := ∅
  cfg_ : HeatConfig K

namespace ModerationHeat

/-- A heat below this is taken for none. -/
def negligible (K : Type*) [Field K] : K := 1 / 10 ^ 6

variable {K : Type*} [Field K] [LinearOrder K] (factor : K → Int → K)

def configure (m : ModerationHeat K) (cfg : HeatConfig K) : ModerationHeat K := { m with cfg_ := cfg }

def decay_locked (cfg : HeatConfig K) (entry : Entry K) (now_ms : Int) : Entry K :=
  if entry.last_update_ms = 0 then { entry with last_update_ms := now_ms }
  else
    let dt := now_ms - entry.last_update_ms
    if dt ≤ 0 then entry
    else
      let half_life := max 1 cfg.decay_half_life_seconds
      let heat := entry.heat * factor half_life dt
      { heat := if |heat| < negligible K then 0 else heat, last_update_ms := now_ms }

/-- The entry of an IPID at a time. An IPID that is not in the table gets one without heat. -/
def entry (m : ModerationHeat K) (t : Int) (ipid : Bytes) : Entry K :=
  decay_locked factor m.cfg_ ((m.state_.lookup ipid).getD {}) t

def apply (m : ModerationHeat K) (t : Int) (ipid : Bytes) (delta : K) : K × ModerationHeat K :=
  let delta := if delta < 0 then 0 else delta
  let entry := m.entry factor t ipid
  let heat := (if entry.heat < 0 then 0 else entry.heat) + delta
  (heat, { m with state_ := m.state_.insert ipid { entry with heat } })

def peek (m : ModerationHeat K) (t : Int) (ipid : Bytes) : K × ModerationHeat K :=
  match m.state_.lookup ipid with
  | none => (0, m)
  | some entry =>
    let entry := decay_locked factor m.cfg_ entry t
    (entry.heat, { m with state_ := m.state_.insert ipid entry })

def accrue_trust (m : ModerationHeat K) (t : Int) (ipid : Bytes) (amount floor : K) :
    K × ModerationHeat K :=
  if amount ≤ 0 then m.peek factor t ipid
  else if 0 ≤ floor then m.peek factor t ipid
  else
    let entry := m.entry factor t ipid
    let heat :=
      if 0 < entry.heat then entry.heat
      else if entry.heat - amount < floor then floor else entry.heat - amount
    (heat, { m with state_ := m.state_.insert ipid { entry with heat } })

def reset (m : ModerationHeat K) (ipid : Bytes) : ModerationHeat K :=
  { m with state_ := m.state_.erase ipid }

def idle_ms (cfg : HeatConfig K) : Int := cfg.sweep_idle_seconds * 1000

/-- Whether a sweep erases an entry. The time it was idle is taken before it decays. -/
def pruned (cfg : HeatConfig K) (t : Int) (entry : Entry K) : Bool :=
  |(decay_locked factor cfg entry t).heat| < cfg.prune_below &&
    idle_ms cfg < t - entry.last_update_ms

def sweep (m : ModerationHeat K) (t : Int) : ModerationHeat K :=
  { m with
    state_ := mapValues (fun _ entry => decay_locked factor m.cfg_ entry t)
      (keep (fun _ entry => !pruned factor m.cfg_ t entry) m.state_) }

inductive Call (K : Type*) where
  | apply (ipid : Bytes) (delta : K)
  | accrue_trust (ipid : Bytes) (amount floor : K)
  | peek (ipid : Bytes)
  | sweep

/-- What a call returns, if it returns a heat, and the table afterwards. -/
def call (m : ModerationHeat K) (t : Int) : Call K → Option K × ModerationHeat K
  | .apply ipid delta => (m.apply factor t ipid delta).map some id
  | .accrue_trust ipid amount floor => (m.accrue_trust factor t ipid amount floor).map some id
  | .peek ipid => (m.peek factor t ipid).map some id
  | .sweep => (none, m.sweep factor t)

def step (m : ModerationHeat K) (c : Int × Call K) : ModerationHeat K := (m.call factor c.1 c.2).2

/-- The IPID a call is for. -/
def Call.about : Call K → Option Bytes
  | .apply ipid _ => some ipid
  | .accrue_trust ipid _ _ => some ipid
  | .peek ipid => some ipid
  | .sweep => none

/-- Whether a call makes an entry for an IPID that has none. -/
def Call.enters (ipid : Bytes) : Call K → Bool
  | .apply q _ => q = ipid
  | .accrue_trust q amount floor => q = ipid && 0 < amount && floor < 0
  | .peek _ => false
  | .sweep => false

section Table

variable {factor} {m : ModerationHeat K} {cfg : HeatConfig K} {t since : Int} {ipid q : Bytes}
  {c : Call K} {entry e : Entry K}

theorem le_last_update (cfg : HeatConfig K) (entry : Entry K) (t : Int) :
    t ≤ (decay_locked factor cfg entry t).last_update_ms := by
  unfold decay_locked
  split
  · exact le_refl t
  · dsimp only
    split
    · next still => omega
    · exact le_refl t

@[simp] theorem lookup_sweep (ipid : Bytes) : (m.sweep factor t).state_.lookup ipid =
    ((m.state_.lookup ipid).filter fun entry => !pruned factor m.cfg_ t entry).map
      fun entry => decay_locked factor m.cfg_ entry t := by
  unfold sweep
  rw [lookup_mapValues, lookup_keep]

theorem about_of_enters (enters : c.enters q = true) : c.about = some q := by
  cases c <;> simp_all [Call.enters, Call.about]

/-- What a call does to the table: it sweeps, it leaves it alone, or it stamps the entry of its IPID
and gives it a heat. -/
inductive Effect (factor : K → Int → K) (m : ModerationHeat K) (t : Int) (c : Call K) :
    ModerationHeat K → Prop where
  | swept (same : c = .sweep) : Effect factor m t c (m.sweep factor t)
  | quiet {ipid : Bytes} (about : c.about = some ipid) (absent : ipid ∉ m.state_)
      (enters : c.enters ipid = false) : Effect factor m t c m
  | stamped {ipid : Bytes} (about : c.about = some ipid) (heat : K)
      (stays : ipid ∈ m.state_ ∨ c.enters ipid = true) : Effect factor m t c
        { m with state_ := m.state_.insert ipid { m.entry factor t ipid with heat } }

theorem peek_effect {factor : K → Int → K} {m : ModerationHeat K} {t : Int} {ipid : Bytes}
    (about : c.about = some ipid) (enters : c.enters ipid = false) :
    Effect factor m t c (m.peek factor t ipid).2 := by
  unfold peek
  cases found : m.state_.lookup ipid with
  | none => exact .quiet about (AList.lookup_eq_none.mp found) enters
  | some entry =>
    have stays : ipid ∈ m.state_ := by rw [← AList.lookup_isSome, found, Option.isSome_some]
    have effect : Effect factor m t c { m with
        state_ := m.state_.insert ipid { m.entry factor t ipid with
          heat := (decay_locked factor m.cfg_ entry t).heat } } := .stamped about _ (.inl stays)
    rw [ModerationHeat.entry, found] at effect
    exact effect

theorem call_effect (factor : K → Int → K) (m : ModerationHeat K) (t : Int) (c : Call K) :
    Effect factor m t c (m.call factor t c).2 := by
  cases c with
  | apply ipid delta => exact .stamped rfl _ (.inr (decide_eq_true rfl))
  | accrue_trust ipid amount floor =>
    show Effect factor m t _ (m.accrue_trust factor t ipid amount floor).2
    unfold accrue_trust
    split
    · next none => exact peek_effect rfl (by simp [Call.enters, none])
    · next positive =>
      split
      · next none => exact peek_effect rfl (by simp [Call.enters, none])
      · next negative =>
        rw [not_le] at positive negative
        exact .stamped rfl _ (.inr (by simp [Call.enters, positive, negative]))
  | peek ipid => exact peek_effect rfl rfl
  | sweep => exact .swept rfl

/-- Every entry was stamped at some time or later. -/
def Recent (since : Int) (m : ModerationHeat K) : Prop :=
  ∀ q e, m.state_.lookup q = some e → since ≤ e.last_update_ms

/-- A sweep that comes no later than the idle time after the last one erases nothing. -/
theorem Recent.not_pruned (recent : Recent since m) (soon : t ≤ since + idle_ms m.cfg_)
    (found : m.state_.lookup q = some e) : pruned factor m.cfg_ t e = false := by
  have stamped := recent q e found
  unfold pruned
  rw [Bool.and_eq_false_iff, decide_eq_false_iff_not (p := idle_ms m.cfg_ < _)]
  right
  omega

theorem Recent.lookup_sweep (recent : Recent since m) (soon : t ≤ since + idle_ms m.cfg_) (q : Bytes) :
    (m.sweep factor t).state_.lookup q =
      (m.state_.lookup q).map fun entry => decay_locked factor m.cfg_ entry t := by
  rw [ModerationHeat.lookup_sweep]
  cases found : m.state_.lookup q with
  | none => rfl
  | some e =>
    have stays : pruned factor m.cfg_ t e = false := recent.not_pruned soon found
    rw [Option.filter_some_pos (by simp [stays])]

/-- The time of the last sweep. -/
def last_sweep (since : Int) (c : Int × Call K) : Int :=
  match c.2 with
  | .sweep => c.1
  | _ => since

/-- The clock does not go back behind a sweep, and every call comes no later than the idle time
after the last sweep: a sweep is called in every interval of that length. -/
def Swept (cfg : HeatConfig K) : Int → List (Int × Call K) → Prop
  | _, [] => True
  | since, c :: rest =>
    since ≤ c.1 ∧ c.1 ≤ since + idle_ms cfg ∧ Swept cfg (last_sweep since c) rest

@[simp] theorem step_cfg (m : ModerationHeat K) (c : Int × Call K) : (step factor m c).cfg_ = m.cfg_ := by
  have effect := call_effect factor m c.1 c.2
  unfold step
  generalize (m.call factor c.1 c.2).2 = after at effect
  cases effect <;> rfl

omit [Field K] [LinearOrder K] in
theorem last_sweep_of_about (about : c.about = some ipid) (since t : Int) :
    last_sweep since (t, c) = since := by
  cases c with
  | sweep => cases about
  | _ => rfl

/-- In time, a call erases nothing: who has an entry afterwards had one or gets one. -/
theorem Recent.call (factor : K → Int → K) (recent : Recent since m) (later : since ≤ t)
    (soon : t ≤ since + idle_ms m.cfg_)
    (c : Call K) :
    Recent (last_sweep since (t, c)) (m.call factor t c).2 ∧
      ∀ q, q ∈ (m.call factor t c).2.state_ ↔ q ∈ m.state_ ∨ c.enters q = true := by
  have effect := call_effect factor m t c
  generalize (m.call factor t c).2 = after at effect
  cases effect with
  | swept same =>
    subst same
    refine ⟨fun q e found => ?_, fun q => ?_⟩
    · rw [recent.lookup_sweep soon] at found
      obtain ⟨old, -, rfl⟩ := Option.map_eq_some_iff.mp found
      exact le_last_update m.cfg_ old t
    · rw [← AList.lookup_isSome, recent.lookup_sweep soon, Option.isSome_map, AList.lookup_isSome]
      simp [Call.enters]
  | quiet about _ enters =>
    rw [last_sweep_of_about about]
    refine ⟨recent, fun q => (or_iff_left fun entered => ?_).symm⟩
    obtain rfl := Option.some.inj (about.symm.trans (about_of_enters entered))
    exact Bool.false_ne_true (enters.symm.trans entered)
  | @stamped ipid about heat stays =>
    rw [last_sweep_of_about about]
    refine ⟨fun q e found => ?_, fun q => ?_⟩
    · rcases eq_or_ne q ipid with rfl | apart
      · rw [AList.lookup_insert] at found
        obtain rfl := Option.some.inj found
        exact later.trans (le_last_update m.cfg_ _ t)
      · rw [AList.lookup_insert_ne apart] at found
        exact recent q e found
    · rw [AList.mem_insert]
      constructor
      · rintro (rfl | old)
        · exact stays
        · exact .inl old
      · rintro (old | entered)
        · exact .inr old
        · exact .inl (Option.some.inj ((about_of_enters entered).symm.trans about))

theorem mem_run (recent : Recent since m) {calls : List (Int × Call K)}
    (swept : Swept m.cfg_ since calls) (ipid : Bytes) :
    ipid ∈ (run (step factor) m calls).state_ ↔
      ipid ∈ m.state_ ∨ ∃ c ∈ calls, c.2.enters ipid = true := by
  induction calls generalizing m since with
  | nil => simp
  | cons c rest ih =>
    obtain ⟨later, soon, swept⟩ := swept
    obtain ⟨recent', members⟩ := recent.call factor later soon c.2
    rw [run_cons, ih (m := step factor m c) recent' (by rwa [step_cfg]), step, members, or_assoc]
    simp only [List.mem_cons, exists_eq_or_imp]

/-- An IPID that is idle from some time on stays in the table, however long sweeps go on, if a call
ever made an entry for it. -/
theorem idle_entry_reclaimed_iff (factor : K → Int → K) (cfg : HeatConfig K) {start : Int}
    {before after : List (Int × Call K)} (swept : Swept cfg start (before ++ after)) {ipid : Bytes}
    (idle : ∀ c ∈ after, c.2.enters ipid = false) :
    ipid ∉ (run (step factor) { cfg_ := cfg } (before ++ after)).state_ ↔
      ∀ c ∈ before, c.2.enters ipid = false := by
  have recent : Recent start ({ cfg_ := cfg } : ModerationHeat K) := fun q e found => by cases found
  rw [mem_run recent swept]
  simp only [AList.notMem_empty, false_or, List.mem_append, not_exists, not_and, Bool.not_eq_true]
  exact ⟨fun never c member => never c (.inl member),
    fun never c member => member.elim (never c) (idle c)⟩

end Table

/-- Half a heat is left after 1 ms. -/
def halving (_ : ℚ) (ms : Int) : ℚ := (1 / 2) ^ ms.toNat

/-- A sweep each second, after which an entry that was idle for a second may go. -/
def brisk : HeatConfig ℚ := ⟨1, 1 / 20, 1⟩

/-- A little heat for one IPID, and then nothing but sweeps. -/
def incident : List (Int × Call ℚ) := [(1, .apply (bytes "a") (1 / 100))]

def sweeps : List (Int × Call ℚ) := [(1000, .sweep), (2000, .sweep), (3000, .sweep), (4000, .sweep)]

/-- The heat of an IPID is too small to keep its entry. -/
def faint (ipid : Bytes) (m : ModerationHeat ℚ) : Bool :=
  (m.state_.lookup ipid).all fun entry => |entry.heat| < m.cfg_.prune_below

theorem idle_entry_stays :
    Swept brisk 0 (incident ++ sweeps) ∧
    (∀ c ∈ sweeps, c.2 = .sweep) ∧
    Always (step halving) (fun m => faint (bytes "a") m = true)
      (run (step halving) { cfg_ := brisk } incident) sweeps ∧
    bytes "a" ∈ (run (step halving) { cfg_ := brisk } (incident ++ sweeps)).state_ := by
  refine ⟨by simp [Swept, incident, sweeps, brisk, idle_ms, last_sweep], by simp [sweeps], ?_, ?_⟩
  · simp only [Always, sweeps]
    decide +kernel
  · decide +kernel

theorem idle_entry_reclaimed :
    bytes "b" ∉ (run (step halving) { cfg_ := brisk } (incident ++ sweeps)).state_ := by
  have regular : Swept brisk 0 (incident ++ sweeps) := by
    simp [Swept, incident, sweeps, brisk, idle_ms, last_sweep]
  exact (idle_entry_reclaimed_iff halving brisk regular (by simp [sweeps, Call.enters])).mpr
    (by decide +kernel)

end ModerationHeat

end AoSdl.moderation
