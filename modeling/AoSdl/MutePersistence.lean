import AoSdl.AoServer
import AoSdl.Lib.Entries
import AoSdl.Lib.Runs
import Mathlib.Data.Int.ConditionallyCompleteOrder
import Mathlib.Order.WithBot

/-! The mutes of `ContentModerator`: a table in memory and the rows of the `mutes` table, which a
reconfiguration reads back. Times are seconds since the epoch. Jobs of the database are done at
once, since `configure` waits for its own behind all the others; heat and audit log are left out. -/
namespace AoSdl.moderation
open Lib.Entries Lib.Runs

structure MuteEntry where
  id : Nat := 0
  ipid : Bytes
  started_at : Int
  /-- 0 for a mute that is active until it is lifted. -/
  expires_at : Int
  reason : Bytes
  moderator : Bytes

def MuteEntry.live (m : MuteEntry) (now : Int) : Bool := m.expires_at = 0 || now < m.expires_at

/-- The `mutes` table of an open database. -/
structure MuteTable where
  rows : List MuteEntry := []
  next_id : Nat := 1

namespace MuteTable

/-- Texts are bound as null-terminated ones. -/
def add_mute (db : MuteTable) (entry : MuteEntry) : MuteTable :=
  { rows := db.rows ++ [{ entry with
      id := db.next_id, ipid := c_str entry.ipid, reason := c_str entry.reason,
      moderator := c_str entry.moderator }]
    next_id := db.next_id + 1 }

def active_mutes (db : MuteTable) (now : Int) : List MuteEntry :=
  db.rows.filter (·.live now)

def delete_mutes_by_ipid (db : MuteTable) (ipid : Bytes) : MuteTable :=
  { db with rows := db.rows.filter fun m => !(m.ipid = c_str ipid) }

def prune_expired_mutes (db : MuteTable) (now : Int) : MuteTable :=
  { db with rows := db.rows.filter fun m => !(0 < m.expires_at && m.expires_at ≤ now) }

end MuteTable

/-- The order of the rows a query without `ORDER BY` returns. -/
structure RowOrder where
  list : List MuteEntry → List MuteEntry
  perm : ∀ rows, (list rows).Perm rows

structure ActiveMute where
  expires_at : Int
  reason : Bytes

/-- A permanent mute has an end that is not positive. -/
def ActiveMute.holds (m : ActiveMute) (now : Int) : Bool := m.expires_at ≤ 0 || now < m.expires_at

/-- When a mute ends. -/
def ActiveMute.expiry (m : ActiveMute) : WithTop Int := if m.expires_at ≤ 0 then ⊤ else m.expires_at

def MuteEntry.expiry (m : MuteEntry) : WithTop Int := if m.expires_at = 0 then ⊤ else m.expires_at

def MuteEntry.mute (m : MuteEntry) : ActiveMute := ⟨m.expires_at, m.reason⟩

structure ContentModerator where
  clock : Nat := 0
  mute_duration_seconds : Int := 900
  active_mutes_ : AList (fun _ : Bytes => ActiveMute) := ∅
  /-- `none` when no open database is wired. -/
  db_ : Option MuteTable := none

namespace ContentModerator

def mutes (m : ContentModerator) (ipid : Bytes) (now : Int) : Bool :=
  (m.active_mutes_.lookup ipid).any (·.holds now)

def is_muted (m : ContentModerator) (ipid : Bytes) : Bool := m.mutes ipid m.clock

/-- The mutes that are read back, the later of two for one IPID in place of the earlier. -/
def load (mutes : List MuteEntry) : AList (fun _ : Bytes => ActiveMute) :=
  mutes.foldl (fun table m => table.insert m.ipid m.mute) ∅

def configure (m : ContentModerator) (mute_duration_seconds : Int) (order : RowOrder) :
    ContentModerator :=
  let m := { m with mute_duration_seconds, active_mutes_ := ∅ }
  match m.db_ with
  | none => m
  | some db => { m with active_mutes_ := load (order.list (db.active_mutes m.clock)) }

/-- What a verdict does to the mutes. -/
def check (m : ContentModerator) (ipid : Bytes) (verdict : ModerationVerdict) : ContentModerator :=
  if verdict.action = .MUTE then
    let expires := m.clock + m.mute_duration_seconds
    let mute_reason := if verdict.reason.isEmpty then bytes "auto-mute" else verdict.reason
    { m with
      active_mutes_ := m.active_mutes_.insert ipid ⟨expires, mute_reason⟩
      db_ := m.db_.map fun db => db.add_mute {
        ipid, started_at := m.clock, expires_at := expires, reason := mute_reason
        moderator := bytes "ContentModerator" } }
  else m

def lift_mute (m : ContentModerator) (ipid : Bytes) : Bool × ContentModerator :=
  ((m.active_mutes_.lookup ipid).isSome, { m with active_mutes_ := m.active_mutes_.erase ipid })

def reset_state (m : ContentModerator) (ipid : Bytes) : ContentModerator :=
  { m with
    active_mutes_ := m.active_mutes_.erase ipid
    db_ := m.db_.map fun db => db.delete_mutes_by_ipid ipid }

def sweep (m : ContentModerator) : ContentModerator :=
  { m with
    active_mutes_ := keep (fun _ mute => !(0 < mute.expires_at && mute.expires_at ≤ m.clock))
      m.active_mutes_
    db_ := m.db_.map fun db => db.prune_expired_mutes m.clock }

inductive Op where
  | check (ipid : Bytes) (verdict : ModerationVerdict)
  | lift_mute (ipid : Bytes)
  | reset_state (ipid : Bytes)
  | sweep
  | configure (mute_duration_seconds : Int) (order : RowOrder)
  | wait (seconds : Nat)

def wait (m : ContentModerator) (seconds : Nat) : ContentModerator :=
  { m with clock := m.clock + seconds }

def step (m : ContentModerator) : Op → ContentModerator
  | .check ipid verdict => m.check ipid verdict
  | .lift_mute ipid => (m.lift_mute ipid).2
  | .reset_state ipid => m.reset_state ipid
  | .sweep => m.sweep
  | .configure mute_duration_seconds order => m.configure mute_duration_seconds order
  | .wait seconds => m.wait seconds

/-- A reconfiguration, now or later, mutes and frees nobody. -/
def Persistent (m : ContentModerator) : Prop :=
  ∀ seconds mute_duration_seconds order ipid,
    ((m.wait seconds).configure mute_duration_seconds order).is_muted ipid =
      (m.wait seconds).is_muted ipid

def rows (m : ContentModerator) : List MuteEntry := m.db_.elim [] (·.rows)

/-- Some row mutes an IPID. -/
def listed (m : ContentModerator) (ipid : Bytes) (now : Int) : Bool :=
  m.rows.any fun r => r.ipid = ipid && r.live now

/-- The table in memory and the rows mute the same IPIDs, from now on. -/
def Mirror (m : ContentModerator) : Prop :=
  ∀ ipid (t : Nat), m.clock ≤ t → m.mutes ipid t = m.listed ipid t

/-- The row of an IPID that is read last. -/
def last_row (mutes : List MuteEntry) (ipid : Bytes) : Option MuteEntry :=
  mutes.reverse.find? fun r => r.ipid = ipid

/-- No row of an IPID ends after the one that is read last. -/
def LastLongest (mutes : List MuteEntry) : Prop :=
  ∀ ipid, ∀ last ∈ last_row mutes ipid, ∀ r ∈ mutes, r.ipid = ipid → r.expiry ≤ last.expiry

/-- The mute of a verdict. -/
def new_mute (m : ContentModerator) (verdict : ModerationVerdict) : ActiveMute :=
  ⟨m.clock + m.mute_duration_seconds, verdict.reason⟩

/-- When a mute can be stored and its end is no earlier than that of the mute it replaces. A negative
end is permanent in memory and past in a row. -/
structure Outlasts (m : ContentModerator) (ipid : Bytes) (mute : ActiveMute) : Prop where
  stored : m.db_.isSome = true ∧ 0 ∉ ipid
  longer : ∀ old ∈ m.active_mutes_.lookup ipid, old.holds m.clock = true → old.expiry ≤ mute.expiry
  row : mute.expires_at < 0 → ∃ old ∈ m.active_mutes_.lookup ipid, old.expiry = ⊤

/-- When a call leaves the rows and the table in memory in step. -/
def Carries (m : ContentModerator) : Op → Prop
  | .check ipid verdict => verdict.action = .MUTE →
    m.Outlasts ipid (m.new_mute verdict) ∨
      (¬ (m.db_.isSome = true ∧ 0 ∉ ipid) ∧ (m.new_mute verdict).holds m.clock = false)
  | .lift_mute ipid => m.is_muted ipid = false
  | .reset_state ipid => 0 ∉ ipid ∨ m.is_muted (c_str ipid) = false
  | .configure _ order => ∀ db ∈ m.db_, LastLongest (order.list (db.active_mutes m.clock))
  | .sweep => True
  | .wait _ => True

/-- Rows have null-terminated texts. -/
def Terminated (m : ContentModerator) : Prop := ∀ r ∈ m.rows, 0 ∉ r.ipid

section Proof

variable {m : ContentModerator} {ipid q : Bytes} {t : Nat}

theorem c_str_clean (s : Bytes) : 0 ∉ c_str s := by
  intro inside
  have other := List.mem_takeWhile_imp inside
  simp at other

theorem holds_iff (mute : ActiveMute) (t : Int) : mute.holds t = true ↔ (t : WithTop Int) < mute.expiry := by
  unfold ActiveMute.holds ActiveMute.expiry
  by_cases permanent : mute.expires_at ≤ 0
  · simp [permanent]
  · simp [permanent]

theorem live_iff (r : MuteEntry) (t : Int) : r.live t = true ↔ (t : WithTop Int) < r.expiry := by
  unfold MuteEntry.live MuteEntry.expiry
  by_cases permanent : r.expires_at = 0
  · simp [permanent]
  · simp [permanent]

/-- A row that is read is as good as the mute it becomes. -/
theorem expiry_mute {r : MuteEntry} (live : r.live t = true) : r.mute.expiry = r.expiry := by
  unfold MuteEntry.live at live
  simp only [Bool.or_eq_true, decide_eq_true_eq] at live
  unfold ActiveMute.expiry MuteEntry.expiry MuteEntry.mute
  dsimp only
  split
  · next low =>
    have zero : r.expires_at = 0 := by omega
    rw [if_pos zero]
  · next high =>
    have other : ¬ r.expires_at = 0 := by omega
    rw [if_neg other]

theorem lookup_load (mutes : List MuteEntry) (q : Bytes) :
    (load mutes).lookup q = (last_row mutes q).map MuteEntry.mute := by
  induction mutes using List.reverseRecOn with
  | nil => rfl
  | append_singleton front r ih =>
    have loaded : load (front ++ [r]) = (load front).insert r.ipid r.mute := List.foldl_concat ..
    unfold last_row at ih ⊢
    rw [loaded, List.reverse_concat]
    by_cases same : r.ipid = q
    · subst same
      rw [AList.lookup_insert, List.find?_cons_of_pos (by simp)]
      rfl
    · rw [AList.lookup_insert_ne (Ne.symm same), List.find?_cons_of_neg (by simpa using same), ih]

theorem find_last_row {mutes : List MuteEntry} {last : MuteEntry} (found : last ∈ last_row mutes q) :
    last ∈ mutes ∧ last.ipid = q := by
  have member := List.mem_of_find?_eq_some found
  have same := List.find?_some found
  exact ⟨List.mem_reverse.mp member, by simpa using same⟩

theorem last_row_isSome {mutes : List MuteEntry} {r : MuteEntry} (member : r ∈ mutes) :
    ∃ last, last ∈ last_row mutes r.ipid := by
  have some_row : (last_row mutes r.ipid).isSome = true :=
    List.find?_isSome.mpr ⟨r, List.mem_reverse.mpr member, by simp⟩
  exact Option.isSome_iff_exists.mp some_row

theorem mem_active (order : RowOrder) (db : MuteTable) (now : Int) (r : MuteEntry) :
    r ∈ order.list (db.active_mutes now) ↔ r ∈ db.rows ∧ r.live now = true := by
  rw [(order.perm _).mem_iff, MuteTable.active_mutes, List.mem_filter]

theorem listed_eq_true (m : ContentModerator) (q : Bytes) (t : Int) :
    m.listed q t = true ↔ ∃ r ∈ m.rows, r.ipid = q ∧ r.live t = true := by
  simp [listed]

theorem mutes_eq_true (m : ContentModerator) (q : Bytes) (t : Int) :
    m.mutes q t = true ↔ ∃ mute ∈ m.active_mutes_.lookup q, mute.holds t = true := by
  simp [mutes, Option.any_eq_true]

theorem holds_earlier {mute : ActiveMute} {now later : Int} (le : now ≤ later)
    (holds : mute.holds later = true) : mute.holds now = true := by
  rw [holds_iff] at holds ⊢
  exact lt_of_le_of_lt (by exact_mod_cast le) holds

theorem live_earlier {r : MuteEntry} {now later : Int} (le : now ≤ later) (live : r.live later = true) :
    r.live now = true := by
  rw [live_iff] at live ⊢
  exact lt_of_le_of_lt (by exact_mod_cast le) live

/-- What a reconfiguration reads back mutes who has a row, while the last row of each is the longest
one. -/
theorem mutes_load (m : ContentModerator) (db : MuteTable) (order : RowOrder) (t : Nat) (q : Bytes) :
    ((load (order.list (db.active_mutes m.clock))).lookup q).any (·.holds t) = true ↔
      ∃ last ∈ last_row (order.list (db.active_mutes m.clock)) q, last.live t = true := by
  rw [lookup_load, Option.any_map, Option.any_eq_true]
  refine exists_congr fun last => and_congr_right fun found => ?_
  have live := ((mem_active order db m.clock last).mp (find_last_row found).1).2
  rw [holds_iff, live_iff, expiry_mute live]

theorem is_muted_configure (m : ContentModerator) (seconds : Int) (order : RowOrder) (q : Bytes) :
    (m.configure seconds order).is_muted q = m.listed q m.clock := by
  rw [Bool.eq_iff_iff, listed_eq_true]
  unfold configure
  cases wired : m.db_ with
  | none => simp [is_muted, mutes, rows, wired]
  | some db =>
    have rows : m.rows = db.rows := by rw [rows, wired, Option.elim_some]
    show ((load (order.list (db.active_mutes m.clock))).lookup q).any (·.holds m.clock) = true ↔ _
    rw [mutes_load, rows]
    constructor
    · rintro ⟨last, found, live⟩
      obtain ⟨member, same⟩ := find_last_row found
      exact ⟨last, ((mem_active order db _ last).mp member).1, same, live⟩
    · rintro ⟨r, member, rfl, live⟩
      obtain ⟨last, found⟩ := last_row_isSome ((mem_active order db m.clock r).mpr ⟨member, live⟩)
      exact ⟨last, found, ((mem_active order db _ last).mp (find_last_row found).1).2⟩

theorem persistent_iff_mirror : Persistent m ↔ Mirror m := by
  have later (seconds : Nat) (ipid : Bytes) : (m.wait seconds).is_muted ipid =
      m.mutes ipid ((m.clock + seconds : Nat) : Int) := rfl
  constructor
  · intro persistent ipid t late
    obtain ⟨seconds, rfl⟩ := Nat.exists_eq_add_of_le late
    have same := persistent seconds 0 ⟨id, fun rows => List.Perm.refl rows⟩ ipid
    rw [is_muted_configure, later] at same
    exact same.symm
  · intro mirror seconds duration order ipid
    rw [is_muted_configure, later]
    exact (mirror ipid (m.clock + seconds) (Nat.le_add_right _ _)).symm

theorem mirror_configure_iff (m : ContentModerator) (seconds : Int) (order : RowOrder) :
    Mirror (m.configure seconds order) ↔ Carries m (.configure seconds order) := by
  unfold Carries
  cases wired : m.db_ with
  | none =>
    have empty : Mirror (m.configure seconds order) := by
      intro q t _
      simp [configure, wired, mutes, listed, rows]
    exact ⟨fun _ => nofun, fun _ => empty⟩
  | some db =>
    have rows : (m.configure seconds order).rows = db.rows := by simp [ContentModerator.rows, configure, wired]
    have muted (q : Bytes) (t : Nat) : (m.configure seconds order).mutes q t = true ↔
        ∃ last ∈ last_row (order.list (db.active_mutes m.clock)) q, last.live t = true := by
      rw [← mutes_load]
      simp [configure, wired, mutes]
    have clock : (m.configure seconds order).clock = m.clock := by simp [configure, wired]
    simp only [Option.mem_def, Option.some.injEq, forall_eq']
    constructor
    · intro mirror q last found r member same
      by_contra shorter
      rw [not_le] at shorter
      obtain ⟨inside, live⟩ := (mem_active order db m.clock last).mp (find_last_row found).1
      obtain ⟨e, finite⟩ := WithTop.ne_top_iff_exists.mp shorter.ne_top
      rw [live_iff, ← finite, WithTop.coe_lt_coe] at live
      -- when the last row ends the other one is still there
      have now : ((e.toNat : Int) : WithTop Int) = last.expiry := by
        rw [← finite, Int.toNat_of_nonneg (by omega)]
      have both := mirror q e.toNat (by rw [clock]; omega)
      rw [Bool.eq_iff_iff, muted, listed_eq_true, rows] at both
      have there := ((mem_active order db m.clock r).mp member).1
      obtain ⟨last', found', live'⟩ := both.mpr ⟨r, there, same, (live_iff _ _).mpr (now ▸ shorter)⟩
      obtain rfl := Option.some.inj (found.symm.trans found')
      rw [live_iff, now] at live'
      exact lt_irrefl _ live'
    · intro longest q t late
      rw [clock] at late
      rw [Bool.eq_iff_iff, muted, listed_eq_true, rows]
      constructor
      · rintro ⟨last, found, live⟩
        obtain ⟨member, same⟩ := find_last_row found
        exact ⟨last, ((mem_active order db _ last).mp member).1, same, live⟩
      · rintro ⟨r, member, rfl, live⟩
        have active := (mem_active order db m.clock r).mpr
          ⟨member, live_earlier (by exact_mod_cast late) live⟩
        obtain ⟨last, found⟩ := last_row_isSome active
        refine ⟨last, found, ?_⟩
        rw [live_iff] at live ⊢
        exact live.trans_le (longest r.ipid last found r active rfl)

theorem mutes_sweep (late : m.clock ≤ t) (q : Bytes) : m.sweep.mutes q t = m.mutes q t := by
  unfold mutes sweep
  rw [lookup_keep]
  cases m.active_mutes_.lookup q with
  | none => rfl
  | some mute =>
    rw [Option.filter_some]
    split
    · rfl
    · next expired =>
      have past : mute.holds t = false := by
        have past : 0 < mute.expires_at ∧ mute.expires_at ≤ (m.clock : Int) := by simpa using expired
        unfold ActiveMute.holds
        simp
        omega
      rw [Option.any_some, past]
      rfl

theorem rows_sweep (m : ContentModerator) :
    m.sweep.rows = m.rows.filter fun r => !(0 < r.expires_at && r.expires_at ≤ (m.clock : Int)) := by
  unfold rows sweep
  cases m.db_ <;> rfl

theorem listed_sweep (late : m.clock ≤ t) (q : Bytes) : m.sweep.listed q t = m.listed q t := by
  rw [Bool.eq_iff_iff, listed_eq_true, listed_eq_true, rows_sweep]
  constructor
  · rintro ⟨r, kept, rest⟩
    exact ⟨r, (List.mem_filter.mp kept).1, rest⟩
  · rintro ⟨r, member, same, live⟩
    refine ⟨r, List.mem_filter.mpr ⟨member, ?_⟩, same, live⟩
    unfold MuteEntry.live at live
    simp only [Bool.or_eq_true, decide_eq_true_eq] at live
    simp
    omega

theorem mirror_sweep (mirror : Mirror m) : Mirror m.sweep := by
  intro q t late
  have late : m.clock ≤ t := late
  rw [mutes_sweep late, listed_sweep late]
  exact mirror q t late

theorem mirror_wait (mirror : Mirror m) (seconds : Nat) : Mirror (m.wait seconds) :=
  fun q t late => mirror q t ((Nat.le_add_right _ _).trans late)

theorem mutes_later (quiet : m.is_muted q = false) (late : m.clock ≤ t) : m.mutes q t = false := by
  rw [Bool.eq_false_iff] at quiet ⊢
  intro muted
  obtain ⟨mute, found, holds⟩ := (mutes_eq_true m q t).mp muted
  exact quiet ((mutes_eq_true m q m.clock).mpr ⟨mute, found, holds_earlier (by exact_mod_cast late) holds⟩)

theorem any_erase (table : AList fun _ : Bytes => ActiveMute) (ipid q : Bytes) (t : Int) :
    ((table.erase ipid).lookup q).any (·.holds t) =
      if q = ipid then false else (table.lookup q).any (·.holds t) := by
  by_cases same : q = ipid
  · subst same
    rw [AList.lookup_erase, if_pos rfl, Option.any_none]
  · rw [AList.lookup_erase_ne same, if_neg same]

theorem mirror_lift_iff (mirror : Mirror m) (ipid : Bytes) :
    Mirror (m.lift_mute ipid).2 ↔ Carries m (.lift_mute ipid) := by
  have muted (q : Bytes) (t : Nat) : (m.lift_mute ipid).2.mutes q t =
      if q = ipid then false else m.mutes q t := any_erase m.active_mutes_ ipid q t
  constructor
  · intro mirror'
    have now := mirror' ipid m.clock (le_refl _)
    rw [muted, if_pos rfl] at now
    exact (mirror ipid m.clock (le_refl _)).trans now.symm
  · intro quiet q t late
    have late : m.clock ≤ t := late
    rw [muted]
    split
    · next same =>
      subst same
      exact (mutes_later quiet late).symm.trans (mirror q t late)
    · exact mirror q t late

theorem listed_reset (m : ContentModerator) (ipid q : Bytes) (t : Int) :
    (m.reset_state ipid).listed q t = if q = c_str ipid then false else m.listed q t := by
  have rows : (m.reset_state ipid).rows = m.rows.filter fun r => !(r.ipid = c_str ipid) := by
    unfold ContentModerator.rows reset_state
    cases m.db_ <;> rfl
  rw [Bool.eq_iff_iff, listed_eq_true, rows]
  split
  · next same =>
    subst same
    refine ⟨?_, nofun⟩
    rintro ⟨r, kept, same, -⟩
    simp [same] at kept
  · next other =>
    rw [listed_eq_true]
    refine exists_congr fun r => ?_
    rw [List.mem_filter]
    constructor
    · rintro ⟨⟨member, -⟩, rest⟩
      exact ⟨member, rest⟩
    · rintro ⟨member, rfl, live⟩
      exact ⟨⟨member, by simpa using other⟩, rfl, live⟩

theorem Terminated.listed (terminated : Terminated m) (inside : 0 ∈ ipid) (t : Int) :
    m.listed ipid t = false := by
  rw [Bool.eq_false_iff]
  intro some_row
  obtain ⟨r, member, rfl, -⟩ := (listed_eq_true m ipid t).mp some_row
  exact terminated r member inside

theorem mirror_reset_iff (mirror : Mirror m) (terminated : Terminated m) (ipid : Bytes) :
    Mirror (m.reset_state ipid) ↔ Carries m (.reset_state ipid) := by
  have muted (q : Bytes) (t : Nat) : (m.reset_state ipid).mutes q t =
      if q = ipid then false else m.mutes q t := any_erase m.active_mutes_ ipid q t
  constructor
  · intro mirror'
    by_cases clean : 0 ∉ ipid
    · exact .inl clean
    · right
      have other : c_str ipid ≠ ipid := fun same => clean (same ▸ c_str_clean ipid)
      have now := mirror' (c_str ipid) m.clock (le_refl _)
      rwa [muted, listed_reset, if_neg other, if_pos rfl] at now
  · intro carries q t late
    have late : m.clock ≤ t := late
    rw [muted, listed_reset]
    by_cases own : q = ipid
    · subst own
      rw [if_pos rfl]
      split
      · rfl
      · next cut =>
        have inside : 0 ∈ q := by
          by_contra clean
          exact cut (c_str_eq clean).symm
        exact (terminated.listed inside t).symm
    · rw [if_neg own]
      split
      · next cut =>
        subst cut
        have inside : ¬ 0 ∉ ipid := fun clean => own (c_str_eq clean)
        exact mutes_later (carries.resolve_left inside) late
      · exact mirror q t late

theorem mutes_check {verdict : ModerationVerdict} (muting : verdict.action = .MUTE) (q : Bytes) (t : Int) :
    (m.check ipid verdict).mutes q t =
      if q = ipid then (m.new_mute verdict).holds t else m.mutes q t := by
  unfold check
  rw [if_pos muting]
  unfold mutes
  by_cases same : q = ipid
  · subst same
    rw [AList.lookup_insert, if_pos rfl]
    rfl
  · rw [AList.lookup_insert_ne same, if_neg same]

theorem rows_check (m : ContentModerator) (ipid : Bytes) {verdict : ModerationVerdict}
    (muting : verdict.action = .MUTE) :
    ∃ r : MuteEntry, r.ipid = c_str ipid ∧ r.expires_at = (m.new_mute verdict).expires_at ∧
      (m.check ipid verdict).rows = if m.db_.isSome then m.rows ++ [r] else m.rows := by
  unfold check
  rw [if_pos muting]
  unfold rows
  cases m.db_ with
  | none => exact ⟨⟨0, c_str ipid, 0, _, [], []⟩, rfl, rfl, rfl⟩
  | some db => exact ⟨_, rfl, rfl, rfl⟩

theorem listed_check {verdict : ModerationVerdict} (muting : verdict.action = .MUTE) (q : Bytes) (t : Int) :
    (m.check ipid verdict).listed q t = true ↔ m.listed q t = true ∨
      (m.db_.isSome = true ∧ q = c_str ipid ∧ ((m.new_mute verdict).expires_at = 0 ∨
        t < (m.new_mute verdict).expires_at)) := by
  obtain ⟨r, text, ends, rows⟩ := rows_check m ipid muting
  have live : r.live t = true ↔ (m.new_mute verdict).expires_at = 0 ∨
      t < (m.new_mute verdict).expires_at := by simp [MuteEntry.live, ends]
  rw [listed_eq_true, listed_eq_true, rows, ← live]
  cases m.db_.isSome with
  | false => simp
  | true =>
    simp only [if_true, List.mem_append, List.mem_singleton, or_and_right, exists_or, true_and]
    refine or_congr_right ⟨?_, ?_⟩
    · rintro ⟨r, rfl, same, live⟩
      exact ⟨same.symm.trans text, live⟩
    · rintro ⟨same, live⟩
      exact ⟨r, rfl, text.trans same.symm, live⟩

theorem Terminated.unstored (terminated : Terminated m)
    (unstored : ¬ (m.db_.isSome = true ∧ 0 ∉ ipid)) (t : Int) :
    m.listed ipid t = false ∧ ¬ (m.db_.isSome = true ∧ ipid = c_str ipid) := by
  by_cases wired : m.db_.isSome = true
  · have inside : 0 ∈ ipid := by
      by_contra clean
      exact unstored ⟨wired, clean⟩
    exact ⟨terminated.listed inside t, fun both => c_str_clean ipid (both.2 ▸ inside)⟩
  · have none : m.db_ = none := by simpa using wired
    exact ⟨by simp [ContentModerator.listed, rows, none], fun both => wired both.1⟩

/-- The new mute is the only one of the IPID that counts in memory, and one of several in the rows. -/
def Covers (m : ContentModerator) (ipid : Bytes) (mute : ActiveMute) : Prop :=
  ∀ t : Nat, m.clock ≤ t → (mute.holds t = true ↔ m.mutes ipid t = true ∨
    (mute.expires_at = 0 ∨ (t : Int) < mute.expires_at))

theorem Covers.longer {mute old : ActiveMute} (covers : m.Covers ipid mute)
    (found : m.active_mutes_.lookup ipid = some old) (holds : old.holds m.clock = true) :
    old.expiry ≤ mute.expiry := by
  by_contra shorter
  rw [not_le] at shorter
  obtain ⟨e, finite⟩ := WithTop.ne_top_iff_exists.mp shorter.ne_top
  -- a time at which the new mute is over and the old one is not
  let t := max m.clock e.toNat
  have old_holds : old.holds t = true := by
    rw [holds_iff] at holds ⊢
    rcases max_choice m.clock e.toNat with same | same
    · rwa [show t = m.clock from same]
    · rw [show t = e.toNat from same]
      by_cases positive : 0 ≤ e
      · rwa [Int.toNat_of_nonneg positive, finite]
      · have zero : (e.toNat : Int) ≤ m.clock := by omega
        exact lt_of_le_of_lt (by exact_mod_cast zero) holds
  have muted := (mutes_eq_true m ipid t).mpr ⟨old, found, old_holds⟩
  have mute_holds := (covers t (le_max_left _ _)).mpr (.inl muted)
  rw [holds_iff, ← finite, WithTop.coe_lt_coe] at mute_holds
  omega

theorem Covers.row {mute : ActiveMute} (covers : m.Covers ipid mute) (negative : mute.expires_at < 0) :
    ∃ old ∈ m.active_mutes_.lookup ipid, old.expiry = ⊤ := by
  have muted (t : Nat) (late : m.clock ≤ t) : ∃ old ∈ m.active_mutes_.lookup ipid, old.holds t = true := by
    have holds : mute.holds t = true := by
      unfold ActiveMute.holds
      simp only [Bool.or_eq_true, decide_eq_true_eq]
      exact .inl negative.le
    refine (mutes_eq_true m ipid t).mp (((covers t late).mp holds).resolve_right ?_)
    omega
  obtain ⟨old, found, -⟩ := muted m.clock (le_refl _)
  refine ⟨old, found, ?_⟩
  by_contra finite
  obtain ⟨e, same⟩ := WithTop.ne_top_iff_exists.mp finite
  obtain ⟨old', found', holds⟩ := muted (max m.clock e.toNat) (le_max_left _ _)
  obtain rfl := Option.some.inj (found.symm.trans found')
  rw [holds_iff, ← same, WithTop.coe_lt_coe] at holds
  omega

theorem Outlasts.covers {mute : ActiveMute} (outlasts : m.Outlasts ipid mute) : m.Covers ipid mute := by
  intro t late
  rw [mutes_eq_true]
  constructor
  · intro holds
    by_cases negative : mute.expires_at < 0
    · obtain ⟨old, found, permanent⟩ := outlasts.row negative
      refine .inl ⟨old, found, ?_⟩
      rw [holds_iff, permanent]
      exact WithTop.coe_lt_top _
    · right
      unfold ActiveMute.holds at holds
      simp only [Bool.or_eq_true, decide_eq_true_eq] at holds
      omega
  · rintro (⟨old, found, holds⟩ | ends)
    · have now := holds_earlier (by exact_mod_cast late : (m.clock : Int) ≤ t) holds
      rw [holds_iff] at holds ⊢
      exact holds.trans_le (outlasts.longer old found now)
    · unfold ActiveMute.holds
      simp only [Bool.or_eq_true, decide_eq_true_eq]
      omega

section Muting

variable {verdict : ModerationVerdict} (muting : verdict.action = .MUTE)
include muting

theorem clock_check : (m.check ipid verdict).clock = m.clock := by rw [check, if_pos muting]

theorem mirror_stored_iff (mirror : Mirror m) (stored : m.db_.isSome = true ∧ 0 ∉ ipid) :
    Mirror (m.check ipid verdict) ↔ m.Outlasts ipid (m.new_mute verdict) := by
  have clock : (m.check ipid verdict).clock = m.clock := clock_check muting
  have text : c_str ipid = ipid := c_str_eq stored.2
  have own (t : Nat) (late : m.clock ≤ t) : (m.check ipid verdict).listed ipid t = true ↔
      m.mutes ipid t = true ∨ ((m.new_mute verdict).expires_at = 0 ∨
        (t : Int) < (m.new_mute verdict).expires_at) := by
    rw [listed_check muting, mirror ipid t late]
    simp only [stored.1, text, true_and]
  constructor
  · intro mirror'
    have covers : m.Covers ipid (m.new_mute verdict) := by
      intro t late
      have same := mirror' ipid t (clock.symm ▸ late)
      rw [mutes_check muting, if_pos rfl] at same
      rw [same]
      exact own t late
    exact ⟨stored, fun old found holds => covers.longer found holds, covers.row⟩
  · intro outlasts q t late
    rw [clock] at late
    rw [mutes_check muting]
    split
    · next same =>
      subst same
      rw [Bool.eq_iff_iff, own t late]
      exact outlasts.covers t late
    · next other =>
      rw [mirror q t late, Bool.eq_iff_iff, listed_check muting, text]
      simp [other]

theorem mirror_unstored_iff (mirror : Mirror m) (terminated : Terminated m)
    (unstored : ¬ (m.db_.isSome = true ∧ 0 ∉ ipid)) :
    Mirror (m.check ipid verdict) ↔ (m.new_mute verdict).holds m.clock = false := by
  have clock : (m.check ipid verdict).clock = m.clock := clock_check muting
  constructor
  · intro mirror'
    obtain ⟨unlisted, none⟩ := terminated.unstored unstored (m.clock : Int)
    have now := mirror' ipid m.clock clock.le
    rw [mutes_check muting, if_pos rfl] at now
    rw [now, Bool.eq_false_iff, ne_eq, listed_check muting, unlisted]
    rintro (never | ⟨wired, same, -⟩)
    · cases never
    · exact none ⟨wired, same⟩
  · intro past q t late
    rw [clock] at late
    have ends : ¬ ((m.new_mute verdict).expires_at = 0 ∨
        (t : Int) < (m.new_mute verdict).expires_at) := by
      unfold ActiveMute.holds at past
      simp only [Bool.or_eq_false_iff, decide_eq_false_iff_not] at past
      omega
    have unchanged : (m.check ipid verdict).listed q t = m.listed q t := by
      rw [Bool.eq_iff_iff, listed_check muting]
      exact or_iff_left fun new => ends new.2.2
    rw [mutes_check muting, unchanged]
    split
    · next same =>
      subst same
      rw [(terminated.unstored unstored t).1, Bool.eq_false_iff]
      intro holds
      have now := holds_earlier (by exact_mod_cast late : (m.clock : Int) ≤ t) holds
      exact Bool.false_ne_true (past.symm.trans now)
    · exact mirror q t late

end Muting

theorem mirror_check_iff (mirror : Mirror m) (terminated : Terminated m) (ipid : Bytes)
    (verdict : ModerationVerdict) :
    Mirror (m.check ipid verdict) ↔ Carries m (.check ipid verdict) := by
  show _ ↔ (verdict.action = .MUTE → _)
  by_cases muting : verdict.action = .MUTE
  · rw [imp_iff_right muting]
    by_cases stored : m.db_.isSome = true ∧ 0 ∉ ipid
    · rw [mirror_stored_iff muting mirror stored]
      exact ⟨.inl, fun either => either.resolve_right fun past => past.1 stored⟩
    · rw [mirror_unstored_iff muting mirror terminated stored]
      constructor
      · exact fun past => .inr ⟨stored, past⟩
      · exact fun either => (either.resolve_left fun outlasts => stored outlasts.stored).2
  · have same : m.check ipid verdict = m := if_neg muting
    rw [same]
    exact ⟨fun _ mute => absurd mute muting, fun _ => mirror⟩

theorem mirror_step_iff (mirror : Mirror m) (terminated : Terminated m) (op : Op) :
    Mirror (step m op) ↔ Carries m op := by
  cases op with
  | check ipid verdict => exact mirror_check_iff mirror terminated ipid verdict
  | lift_mute ipid => exact mirror_lift_iff mirror ipid
  | reset_state ipid => exact mirror_reset_iff mirror terminated ipid
  | sweep => exact ⟨fun _ => trivial, fun _ => mirror_sweep mirror⟩
  | configure seconds order => exact mirror_configure_iff m seconds order
  | wait seconds => exact ⟨fun _ => trivial, fun _ => mirror_wait mirror seconds⟩

theorem Terminated.step (terminated : Terminated m) (op : Op) : Terminated (step m op) := by
  cases op with
  | check ipid verdict =>
    show Terminated (m.check ipid verdict)
    by_cases muting : verdict.action = .MUTE
    · obtain ⟨r, text, -, rows⟩ := rows_check m ipid muting
      intro row member
      rw [rows] at member
      split at member
      · rcases List.mem_append.mp member with old | new
        · exact terminated row old
        · rw [List.mem_singleton.mp new, text]
          exact c_str_clean ipid
      · exact terminated row member
    · rwa [check, if_neg muting]
  | lift_mute ipid => exact terminated
  | reset_state ipid =>
    intro row member
    have kept : row ∈ m.rows := by
      revert member
      unfold ContentModerator.step reset_state rows
      cases m.db_ with
      | none => exact id
      | some db => exact fun member => (List.mem_filter.mp member).1
    exact terminated row kept
  | sweep =>
    intro row member
    exact terminated row (List.mem_filter.mp (rows_sweep m ▸ member)).1
  | configure seconds order =>
    have same : (m.configure seconds order).rows = m.rows := by
      unfold configure rows
      cases m.db_ <;> rfl
    exact fun row member => terminated row (same ▸ member)
  | wait seconds => exact terminated

/-- The start of a server: no mutes, and no rows if a database is wired. -/
def fresh (wired : Bool) (mute_duration_seconds : Int) : ContentModerator :=
  { mute_duration_seconds, db_ := if wired then some {} else none }

/-- In every state of a run a reconfiguration, now or later, leaves everybody's mute as it is exactly
if every call carries the mutes over. -/
theorem mutes_persist_iff (wired : Bool) (mute_duration_seconds : Int) (ops : List Op) :
    Always step Persistent (fresh wired mute_duration_seconds) ops ↔
      Throughout step Carries (fresh wired mute_duration_seconds) ops := by
  have no_rows : (fresh wired mute_duration_seconds).rows = [] := by
    unfold fresh rows
    cases wired <;> rfl
  have terminated : Terminated (fresh wired mute_duration_seconds) := by
    intro r member
    rw [no_rows] at member
    cases member
  have mirror : Mirror (fresh wired mute_duration_seconds) := by
    intro q t _
    rw [listed, no_rows]
    rfl
  refine always_iff_throughout (I := Terminated) (fun m op inv _ _ => inv.step op) ?_ terminated
    (persistent_iff_mirror.mpr mirror) ops
  intro m op inv persistent
  rw [persistent_iff_mirror]
  exact mirror_step_iff (persistent_iff_mirror.mp persistent) inv op

end Proof

theorem perm_id (rows : List MuteEntry) : (id rows).Perm rows := List.Perm.refl rows

/-- Rows in the order they were written. -/
def by_id : RowOrder := ⟨id, perm_id⟩

/-- A mute that is lifted, with and without a database. -/
def lifted : List Op := [.check (bytes "a") ⟨.MUTE, []⟩, .lift_mute (bytes "a")]

theorem lifted_mute_comes_back :
    (run step (fresh true 900) lifted).is_muted (bytes "a") = false ∧
    ((run step (fresh true 900) lifted).configure 900 by_id).is_muted (bytes "a") = true ∧
    (run step (fresh false 900) (lifted.take 1)).is_muted (bytes "a") = true ∧
    ((run step (fresh false 900) (lifted.take 1)).configure 900 by_id).is_muted (bytes "a") = false := by
  decide +kernel

end ContentModerator

end AoSdl.moderation
