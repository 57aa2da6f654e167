import AoSdl.BanManager
import AoSdl.Lib.Runs
import Mathlib.Data.Int.ConditionallyCompleteOrder
import Mathlib.Data.List.Induction
import Mathlib.Order.WithBot

/-! What survives a restart. The cache and the table agree as long as every cached ban has a
row of its own and no other row of its IPID can become visible again; the operations that
break this are exactly the ones that cannot reach the row. -/
namespace AoSdl
open Lib.Runs

/-- The last moment of a ban: never for a permanent one, already over for an invalidated one. -/
def BanEntry.expiry (e : BanEntry) : WithBot (WithTop Int) :=
  if e.is_permanent then (⊤ : WithTop Int)
  else if e.duration = 0 then ⊥
  else ((wrap64 (seconds e.timestamp + seconds e.duration) : WithTop Int) : WithBot (WithTop Int))

/-- What a restart has to bring back. -/
structure Ban where
  ipid : Bytes
  ip : Bytes
  hdid : Bytes
  reason : Bytes
  expiry : WithBot (WithTop Int)
  deriving DecidableEq

def BanEntry.ban (e : BanEntry) : Ban := ⟨e.ipid, e.ip, e.hdid, e.reason, e.expiry⟩

namespace BanManager

def active (m : BanManager) (now : Int) : Set Ban :=
  {b | ∃ ipid e, m.bans_.lookup ipid = some e ∧ e.is_expired now = false ∧ e.ban = b}

end BanManager

/-- A server with its database; `queue` holds the tasks the worker has not run yet. -/
structure BanSystem where
  clock : Int := 0
  manager : BanManager := { db_ := true }
  db : DatabaseManager := {}
  queue : List Task := []

inductive BanOp where
  | add_ban (entry : BanEntry) (now : Int)
  | remove_ban (ipid : Bytes)
  | update_ban (ipid field value : Bytes)
  | worker
  | wait (nanoseconds : Nat)
  | restart

namespace BanSystem

/-- Closing the database runs what is left in the queue. -/
def drain (s : BanSystem) : DatabaseManager := s.queue.foldl DatabaseManager.run s.db

def call (s : BanSystem) (manager : BanManager) (effects : BanEffects) : BanSystem :=
  { s with manager := manager, queue := s.queue ++ effects.tasks }

/-- A fresh manager over the same database. -/
def restart (s : BanSystem) : BanSystem :=
  let db := s.drain
  let manager : BanManager := { db_ := true, fw_ := s.manager.fw_ }
  { s with db := db, queue := [], manager := (manager.load_from_db (db.all_active_bans s.clock)).1 }

/-- The worker thread takes one task. -/
def worker (s : BanSystem) : BanSystem :=
  match s.queue with
  | [] => s
  | task :: rest => { s with db := s.db.run task, queue := rest }

def step (s : BanSystem) : BanOp → BanSystem
  | .add_ban entry now => s.call (s.manager.add_ban entry now).1 (s.manager.add_ban entry now).2
  | .remove_ban ipid => s.call (s.manager.remove_ban ipid).2.1 (s.manager.remove_ban ipid).2.2
  | .update_ban ipid field value =>
    s.call (s.manager.update_ban ipid field value).2.1 (s.manager.update_ban ipid field value).2.2
  | .worker => s.worker
  | .wait nanoseconds => { s with clock := s.clock + nanoseconds }
  | .restart => s.restart

def Persistent (s : BanSystem) : Prop :=
  s.restart.manager.active s.clock = s.manager.active s.clock

/-- The rows of the table once the worker has caught up. -/
def table (s : BanSystem) : List BanEntry := s.drain.rows

/-- Every other row of the IPID is over, or ends no later than the ban does. -/
def Covers (s : BanSystem) (m : BanEntry) : Prop :=
  ∀ r ∈ s.table, r.ipid = m.ipid → r.id ≠ m.id → r.is_expired s.clock ∨ r.expiry ≤ m.expiry

def AllExpired (s : BanSystem) (ipid : Bytes) : Prop :=
  ∀ r ∈ s.table, r.ipid = ipid → r.is_expired s.clock

/-- The row written for a new entry is the same ban. -/
structure Faithful (e : BanEntry) : Prop where
  ipid : 0 ∉ e.ipid
  ip : 0 ∉ e.ip
  hdid : 0 ∉ e.hdid
  reason : 0 ∉ e.reason
  timestamp : e.timestamp = 0 → e.is_permanent ∨ e.duration = 0

/-- When an operation leaves nothing in the table that contradicts the cache. -/
def Carries (s : BanSystem) : BanOp → Prop
  | .add_ban e now => e.id = 0 ∧ ((Faithful e ∧ s.Covers e) ∨
      (e.is_expired s.clock ∧ (DatabaseManager.row 0 e now).is_expired s.clock ∧
        s.AllExpired e.ipid))
  | .remove_ban ipid => ∀ m, s.manager.bans_.lookup ipid = some m →
      ∀ r ∈ s.table, r.ipid = ipid → r.id ≠ m.id → r.is_expired s.clock
  | .update_ban ipid field value => ∀ m m', s.manager.bans_.lookup ipid = some m →
      BanManager.edit m field value = some m' → (m.id = 0 ∧ m' = m) ∨
      (m.id ≠ 0 ∧ (field = bytes "reason" → 0 ∉ value) ∧ s.Covers m') ∨
      (m.id = 0 ∧ m'.is_expired s.clock ∧ s.AllExpired ipid)
  | _ => True

end BanSystem

theorem BanEntry.is_expired_iff (e : BanEntry) (now : Int) :
    e.is_expired now = true ↔ e.expiry < ((now : WithTop Int) : WithBot (WithTop Int)) := by
  unfold is_expired expiry
  by_cases permanent : e.is_permanent = true
  · simp [permanent]
  · by_cases invalidated : e.duration = 0
    · simp [permanent, invalidated]
    · simp [permanent, invalidated]

theorem BanEntry.is_expired_of_le {e e' : BanEntry} {now : Int} (le : e.expiry ≤ e'.expiry)
    (past : e'.is_expired now = true) : e.is_expired now = true := by
  rw [is_expired_iff] at past ⊢
  exact lt_of_le_of_lt le past

theorem BanEntry.is_expired_mono {e : BanEntry} {now later : Int} (le : now ≤ later)
    (past : e.is_expired now = true) : e.is_expired later = true := by
  rw [is_expired_iff] at past ⊢
  exact lt_of_lt_of_le past (by exact_mod_cast le)

theorem BanEntry.is_expired_congr {e e' : BanEntry} (same : e.expiry = e'.expiry) (now : Int) :
    e.is_expired now = e'.is_expired now := by
  rw [Bool.eq_iff_iff, is_expired_iff, is_expired_iff, same]

theorem is_ban_active_eq (e : BanEntry) (now : Int) :
    DatabaseManager.is_ban_active e now = !e.is_expired now := by
  unfold DatabaseManager.is_ban_active BanEntry.is_expired BanEntry.is_permanent
  by_cases invalidated : e.duration = 0 <;> simp [invalidated]

theorem is_expired_invalidated (e : BanEntry) (now : Int) :
    ({ e with duration := 0 } : BanEntry).is_expired now = true := by
  simp [BanEntry.is_expired, BanEntry.is_permanent]

namespace DatabaseManager

/-- Row ids are positive, distinct and below the next one. -/
structure Numbered (db : DatabaseManager) : Prop where
  distinct : (db.rows.map BanEntry.id).Nodup
  range : ∀ r ∈ db.rows, 0 < r.id ∧ r.id ≤ db.last_id

theorem Numbered.add_ban {db : DatabaseManager} (numbered : db.Numbered) (entry : BanEntry)
    (now : Int) : (db.add_ban entry now).Numbered := by
  constructor
  · rw [DatabaseManager.add_ban, List.map_append, List.nodup_append]
    refine ⟨numbered.distinct, List.nodup_singleton _, ?_⟩
    intro a old b new same
    obtain ⟨r, stored, rfl⟩ := List.mem_map.mp old
    obtain rfl := List.mem_singleton.mp new
    have := (numbered.range r stored).2
    simp only [row] at same
    omega
  · intro r stored
    simp only [DatabaseManager.add_ban, List.mem_append, List.mem_singleton] at stored ⊢
    rcases stored with old | rfl
    · have := numbered.range r old
      omega
    · simp only [row]
      omega

theorem Numbered.update_row {db : DatabaseManager} (numbered : db.Numbered) (ban_id : Int)
    {f : BanEntry → BanEntry} (keeps : ∀ r, (f r).id = r.id) : (db.update_row ban_id f).Numbered := by
  have same : ∀ r : BanEntry, (if r.id = ban_id then f r else r).id = r.id := by
    intro r
    split
    · exact keeps r
    · rfl
  constructor
  · rw [DatabaseManager.update_row, List.map_map]
    have ids : BanEntry.id ∘ (fun r => if r.id = ban_id then f r else r) = BanEntry.id :=
      funext same
    rw [ids]
    exact numbered.distinct
  · intro r stored
    obtain ⟨old, member, rfl⟩ := List.mem_map.mp stored
    rw [same]
    exact numbered.range old member

theorem Numbered.run {db : DatabaseManager} (numbered : db.Numbered) (task : Task) :
    (db.run task).Numbered := by
  cases task with
  | add_ban entry now => exact numbered.add_ban entry now
  | invalidate_ban ban_id => exact numbered.update_row ban_id fun _ => rfl
  | update_ban ban_id field value =>
    show (db.update_ban ban_id field value).Numbered
    unfold DatabaseManager.update_ban
    split
    · split
      · exact numbered
      · exact numbered.update_row ban_id fun _ => rfl
    · split
      · exact numbered.update_row ban_id fun _ => rfl
      · exact numbered

end DatabaseManager

namespace BanSystem

/-- A cached ban has a row that says the same, hidden by no later row and not outlived by
an earlier one. A row whose id is known is the cached entry itself. -/
structure OwnRow (rows : List BanEntry) (clock : Int) (m : BanEntry) : Prop where
  split : ∃ before own after, rows = before ++ own :: after ∧ own.ban = m.ban ∧
    (m.id ≠ 0 → own = m) ∧
    (∀ r ∈ before, r.ipid = m.ipid → r.is_expired clock ∨ r.expiry ≤ m.expiry) ∧
    ∀ r ∈ after, r.ipid = m.ipid → r.is_expired clock

/-- What the table may hold for an IPID, given the cached entry. -/
def Settled (rows : List BanEntry) (clock : Int) (ipid : Bytes) : Option BanEntry → Prop
  | none => ∀ r ∈ rows, r.ipid = ipid → r.is_expired clock
  | some m => m.ipid = ipid ∧ 0 ≤ m.id ∧ (OwnRow rows clock m ∨
      (m.id = 0 ∧ m.is_expired clock ∧ ∀ r ∈ rows, r.ipid = ipid → r.is_expired clock))

structure Inv (s : BanSystem) : Prop where
  backed : s.manager.db_ = true
  numbered : s.drain.Numbered
  settled : ∀ ipid, Settled s.table s.clock ipid (s.manager.bans_.lookup ipid)

variable {rows : List BanEntry} {clock : Int} {ipid : Bytes}

theorem OwnRow.all_expired {m : BanEntry} (own : OwnRow rows clock m)
    (past : m.is_expired clock = true) : ∀ r ∈ rows, r.ipid = m.ipid → r.is_expired clock := by
  obtain ⟨before, row, after, rfl, same, _, earlier, later⟩ := own.split
  intro r member key
  simp only [List.mem_append, List.mem_cons] at member
  rcases member with inside | rfl | inside
  · exact (earlier r inside key).elim id fun le => BanEntry.is_expired_of_le le past
  · exact BanEntry.is_expired_of_le (le_of_eq (congrArg Ban.expiry same)) past
  · exact later r inside key

/-- The rows a restart would look at for an IPID. -/
def visible (rows : List BanEntry) (clock : Int) (ipid : Bytes) : List BanEntry :=
  (rows.filter (DatabaseManager.is_ban_active · clock)).filter (·.ipid = ipid)

theorem mem_visible (r : BanEntry) : r ∈ visible rows clock ipid ↔
    r ∈ rows ∧ r.is_expired clock = false ∧ r.ipid = ipid := by
  simp only [visible, is_ban_active_eq, List.mem_filter, Bool.not_eq_true', decide_eq_true_eq,
    and_assoc]

theorem visible_eq_nil (past : ∀ r ∈ rows, r.ipid = ipid → r.is_expired clock) :
    visible rows clock ipid = [] := by
  refine List.eq_nil_iff_forall_not_mem.mpr fun r member => ?_
  obtain ⟨stored, alive, key⟩ := (mem_visible r).mp member
  rw [past r stored key] at alive
  contradiction

theorem visible_append (front back : List BanEntry) :
    visible (front ++ back) clock ipid = visible front clock ipid ++ visible back clock ipid := by
  simp [visible]

/-- A restart finds the own row of an active ban, and nothing where no ban is active. -/
theorem restored {cached : Option BanEntry} (settled : Settled rows clock ipid cached) :
    (visible rows clock ipid = [] ∧ ∀ m ∈ cached, m.is_expired clock = true) ∨
    ∃ m own before after, cached = some m ∧ m.is_expired clock = false ∧
      own.ban = m.ban ∧ rows = before ++ own :: after ∧
      (∀ r ∈ before, r.ipid = m.ipid → r.is_expired clock ∨ r.expiry ≤ m.expiry) ∧
      (∀ r ∈ after, r.ipid = m.ipid → r.is_expired clock) ∧
      (visible rows clock ipid).getLast? = some own := by
  cases cached with
  | none => exact .inl ⟨visible_eq_nil settled, nofun⟩
  | some m =>
    obtain ⟨rfl, _, own | ⟨_, past, quiet⟩⟩ := settled
    · by_cases past : m.is_expired clock = true
      · exact .inl ⟨visible_eq_nil (own.all_expired past), by rintro _ ⟨⟩; exact past⟩
      · rw [Bool.not_eq_true] at past
        obtain ⟨before, row, after, rfl, same, _, earlier, later⟩ := own.split
        refine .inr ⟨m, row, before, after, rfl, past, same, rfl, earlier, later, ?_⟩
        have alive : row.is_expired clock = false := by
          rw [← past]
          exact BanEntry.is_expired_congr (congrArg Ban.expiry same) clock
        have shown : visible [row] clock m.ipid = [row] := by
          have key : row.ipid = m.ipid := congrArg Ban.ipid same
          simp [visible, is_ban_active_eq, alive, key]
        rw [visible_append, ← List.singleton_append, visible_append, shown, visible_eq_nil later]
        simp
    · exact .inl ⟨visible_eq_nil quiet, by rintro _ ⟨⟩; exact past⟩

/-- The cache after loading: the last entry of each IPID. -/
theorem lookup_load (entries : List BanEntry) (ipid : Bytes) :
    (entries.foldl (fun cache entry => cache.insert entry.ipid entry)
      (∅ : AList fun _ : Bytes => BanEntry)).lookup ipid =
    (entries.filter (·.ipid = ipid)).getLast? := by
  induction entries using List.reverseRecOn with
  | nil => rfl
  | append_singleton front e ih =>
    rw [List.foldl_append, List.foldl_cons, List.foldl_nil, List.filter_append]
    by_cases key : e.ipid = ipid
    · subst key
      simp
    · rw [AList.lookup_insert_ne (Ne.symm key), ih]
      simp [key]

theorem restart_lookup (s : BanSystem) (ipid : Bytes) :
    s.restart.manager.bans_.lookup ipid = (visible s.table s.clock ipid).getLast? :=
  lookup_load _ ipid

theorem mem_active (m : BanManager) (now : Int) (b : Ban) : b ∈ m.active now ↔
    ∃ ipid e, m.bans_.lookup ipid = some e ∧ e.is_expired now = false ∧ e.ban = b := Iff.rfl

theorem Inv.persistent {s : BanSystem} (inv : Inv s) : s.Persistent := by
  ext b
  rw [mem_active, mem_active]
  constructor
  · rintro ⟨ipid, e, found, alive, rfl⟩
    rw [restart_lookup] at found
    rcases restored (inv.settled ipid) with ⟨empty, _⟩ |
      ⟨m, own, _, _, cached, alive', same, _, _, _, last⟩
    · simp [empty] at found
    · obtain rfl := Option.some.inj (last.symm.trans found)
      exact ⟨ipid, m, cached, alive', same.symm⟩
  · rintro ⟨ipid, e, found, alive, rfl⟩
    rcases restored (inv.settled ipid) with ⟨_, past⟩ |
      ⟨m, own, _, _, cached, _, same, _, _, _, last⟩
    · rw [past e found] at alive
      contradiction
    · obtain rfl := Option.some.inj (cached.symm.trans found)
      refine ⟨ipid, own, by rw [restart_lookup, last], ?_, same⟩
      rw [BanEntry.is_expired_congr (congrArg Ban.expiry same)]
      exact alive

theorem Inv.restart {s : BanSystem} (inv : Inv s) : Inv s.restart := by
  refine ⟨rfl, inv.numbered, fun ipid => ?_⟩
  rw [restart_lookup]
  show Settled s.table s.clock ipid (visible s.table s.clock ipid).getLast?
  rcases restored (inv.settled ipid) with ⟨empty, _⟩ |
    ⟨m, own, before, after, _, _, same, split, earlier, later, last⟩
  · rw [empty]
    intro r stored key
    by_contra alive
    have shown : r ∈ visible s.table s.clock ipid :=
      (mem_visible r).mpr ⟨stored, by simpa using alive, key⟩
    rw [empty] at shown
    contradiction
  · obtain ⟨stored, _, key⟩ := (mem_visible own).mp (List.mem_of_getLast? last)
    have ipids : own.ipid = m.ipid := congrArg Ban.ipid same
    have expiries : own.expiry = m.expiry := congrArg Ban.expiry same
    rw [last]
    refine ⟨key, le_of_lt (inv.numbered.range own stored).1, .inl ⟨before, own, after, split, rfl,
      fun _ => rfl, ?_, ?_⟩⟩
    · rw [ipids, expiries]
      exact earlier
    · rw [ipids]
      exact later

theorem Settled.later {later : Int} (le : clock ≤ later) {cached : Option BanEntry}
    (settled : Settled rows clock ipid cached) : Settled rows later ipid cached := by
  have past : ∀ {e : BanEntry}, e.is_expired clock = true → e.is_expired later = true :=
    fun h => BanEntry.is_expired_mono le h
  cases cached with
  | none => exact fun r stored key => past (settled r stored key)
  | some m =>
    obtain ⟨key, known, own | ⟨fresh, gone, quiet⟩⟩ := settled
    · obtain ⟨before, row, after, split, same, same_id, earlier, later⟩ := own.split
      exact ⟨key, known, .inl ⟨before, row, after, split, same, same_id,
        fun r inside key => (earlier r inside key).imp_left past,
        fun r inside key => past (later r inside key)⟩⟩
    · exact ⟨key, known, .inr ⟨fresh, past gone, fun r stored key => past (quiet r stored key)⟩⟩

theorem Settled.append {row : BanEntry} (harmless : row.ipid = ipid → row.is_expired clock)
    {cached : Option BanEntry} (settled : Settled rows clock ipid cached) :
    Settled (rows ++ [row]) clock ipid cached := by
  have quiet_append : (∀ r ∈ rows, r.ipid = ipid → r.is_expired clock) →
      ∀ r ∈ rows ++ [row], r.ipid = ipid → r.is_expired clock := by
    intro quiet r member key
    rcases List.mem_append.mp member with old | new
    · exact quiet r old key
    · obtain rfl := List.mem_singleton.mp new
      exact harmless key
  cases cached with
  | none => exact quiet_append settled
  | some m =>
    obtain ⟨rfl, known, held | ⟨fresh, gone, quiet⟩⟩ := settled
    · obtain ⟨before, own, after, rfl, same, same_id, earlier, later⟩ := held.split
      refine ⟨rfl, known, .inl ⟨before, own, after ++ [row], by simp, same, same_id, earlier, ?_⟩⟩
      intro r inside key
      rcases List.mem_append.mp inside with old | new
      · exact later r old key
      · obtain rfl := List.mem_singleton.mp new
        exact harmless key
    · exact ⟨rfl, known, .inr ⟨fresh, gone, quiet_append quiet⟩⟩

theorem Settled.update {f : BanEntry → BanEntry} (ipids : ∀ r, (f r).ipid = r.ipid)
    (untouched : ∀ r ∈ rows, r.ipid = ipid → f r = r) {cached : Option BanEntry}
    (settled : Settled rows clock ipid cached) : Settled (rows.map f) clock ipid cached := by
  have mapped : ∀ part : List BanEntry, (∀ r ∈ part, r ∈ rows) → ∀ r ∈ part.map f, r.ipid = ipid →
      r ∈ part := by
    intro part inside r member key
    obtain ⟨old, at_old, rfl⟩ := List.mem_map.mp member
    rw [ipids] at key
    rwa [untouched old (inside old at_old) key]
  cases cached with
  | none =>
    intro r member key
    exact settled r (mapped rows (fun _ => id) r member key) key
  | some m =>
    obtain ⟨rfl, known, held | ⟨fresh, gone, quiet⟩⟩ := settled
    · obtain ⟨before, own, after, rfl, same, same_id, earlier, later⟩ := held.split
      have fixed : f own = own := untouched own (by simp) (congrArg Ban.ipid same)
      refine ⟨rfl, known, .inl ⟨before.map f, own, after.map f, by simp [fixed], same, same_id,
        ?_, ?_⟩⟩
      · intro r member key
        exact earlier r (mapped before (by simp_all) r member key) key
      · intro r member key
        exact later r (mapped after (by simp_all) r member key) key
    · exact ⟨rfl, known, .inr ⟨fresh, gone, fun r member key =>
        quiet r (mapped rows (fun _ => id) r member key) key⟩⟩

theorem Settled.put {cache : AList fun _ : Bytes => BanEntry} {m : BanEntry}
    (own : Settled rows clock ipid (some m))
    (others : ∀ other, ipid ≠ other → Settled rows clock other (cache.lookup other)) (other : Bytes) :
    Settled rows clock other ((cache.insert ipid m).lookup other) := by
  by_cases here : ipid = other
  · subst here
    rwa [AList.lookup_insert]
  · rw [AList.lookup_insert_ne (Ne.symm here)]
    exact others other here

theorem Settled.drop {cache : AList fun _ : Bytes => BanEntry} (own : Settled rows clock ipid none)
    (others : ∀ other, ipid ≠ other → Settled rows clock other (cache.lookup other)) (other : Bytes) :
    Settled rows clock other ((cache.erase ipid).lookup other) := by
  by_cases here : ipid = other
  · subst here
    rwa [AList.lookup_erase]
  · rw [AList.lookup_erase_ne (Ne.symm here)]
    exact others other here

theorem drain_call (s : BanSystem) (manager : BanManager) (effects : BanEffects) :
    (s.call manager effects).drain = effects.tasks.foldl DatabaseManager.run s.drain := by
  simp [drain, call, List.foldl_append]

theorem row_ban {e : BanEntry} (faithful : Faithful e) (id : Nat) (now : Int) :
    (DatabaseManager.row id e now).ban = e.ban := by
  have expiry : (DatabaseManager.row id e now).expiry = e.expiry := by
    by_cases unset : e.timestamp = 0
    · rcases faithful.timestamp unset with permanent | invalidated
      · have permanent' : (DatabaseManager.row id e now).is_permanent = true := permanent
        simp [BanEntry.expiry, permanent, permanent']
      · simp [BanEntry.expiry, BanEntry.is_permanent, DatabaseManager.row, invalidated]
    · simp [BanEntry.expiry, BanEntry.is_permanent, DatabaseManager.row, unset]
  have texts : ∀ {s : Bytes}, 0 ∉ s → c_str s = s := fun clean => c_str_eq clean
  rw [BanEntry.ban, expiry]
  simp only [BanEntry.ban, DatabaseManager.row, texts faithful.ipid, texts faithful.ip,
    texts faithful.hdid, texts faithful.reason]

theorem Inv.call {s : BanSystem} {manager : BanManager} {tasks : List Task}
    {firewall : List FirewallCall} (backed : manager.db_ = true)
    (numbered : (tasks.foldl DatabaseManager.run s.drain).Numbered)
    (settled : ∀ ipid, Settled (tasks.foldl DatabaseManager.run s.drain).rows s.clock ipid
      (manager.bans_.lookup ipid)) : Inv (s.call manager ⟨tasks, firewall⟩) := by
  refine ⟨backed, ?_, fun ipid => ?_⟩
  · rw [drain_call]
    exact numbered
  · rw [table, drain_call]
    exact settled ipid

theorem Inv.add_ban {s : BanSystem} (inv : Inv s) {e : BanEntry} {now : Int}
    (carries : s.Carries (.add_ban e now)) : Inv (s.step (.add_ban e now)) := by
  obtain ⟨fresh, kind⟩ := carries
  have shape : s.step (.add_ban e now) = s.call
      { s.manager with bans_ := s.manager.bans_.insert e.ipid e }
      ⟨[.add_ban e now], s.manager.block e⟩ := by
    simp [step, BanManager.add_ban, inv.backed]
  have unnumbered : ∀ id, (DatabaseManager.row id e now).is_expired s.clock =
      (DatabaseManager.row 0 e now).is_expired s.clock := fun _ => rfl
  rw [shape]
  refine .call inv.backed (inv.numbered.add_ban e now) (Settled.put ?_ fun ipid key => ?_)
  · refine ⟨rfl, le_of_eq fresh.symm, ?_⟩
    rcases kind with ⟨faithful, covers⟩ | ⟨gone, stored, quiet⟩
    · refine .inl ⟨s.table, _, [], rfl, row_ban faithful _ now, fun known => absurd fresh known,
        ?_, nofun⟩
      intro r inside same
      refine covers r inside same fun eq => ?_
      have := (inv.numbered.range r inside).1
      omega
    · refine .inr ⟨fresh, gone, ?_⟩
      intro r member same
      rcases List.mem_append.mp member with old | new
      · exact quiet r old same
      · obtain rfl := List.mem_singleton.mp new
        rw [unnumbered]
        exact stored
  · refine (inv.settled ipid).append fun same => ?_
    rcases kind with ⟨faithful, _⟩ | ⟨_, stored, _⟩
    · exact absurd ((congrArg Ban.ipid (row_ban faithful (s.drain.last_id + 1) now)).symm.trans same)
        key
    · rw [unnumbered]
      exact stored

theorem Inv.row_of_id {s : BanSystem} (inv : Inv s) {ipid : Bytes} {m : BanEntry}
    (cached : s.manager.bans_.lookup ipid = some m) (known : m.id ≠ 0) {r : BanEntry}
    (stored : r ∈ s.table) (same : r.id = m.id) : r = m := by
  have settled := inv.settled ipid
  rw [cached] at settled
  obtain ⟨rfl, _, held | ⟨fresh, _, _⟩⟩ := settled
  · obtain ⟨before, own, after, split, _, same_id, _, _⟩ := held.split
    obtain rfl := same_id known
    have inside : own ∈ s.table := by rw [split]; simp
    exact List.inj_on_of_nodup_map inv.numbered.distinct stored inside same
  · exact absurd fresh known

theorem Inv.others {s : BanSystem} (inv : Inv s) {key ipid : Bytes} {m : BanEntry}
    (cached : s.manager.bans_.lookup key = some m) (known : m.id ≠ 0) (other : key ≠ ipid)
    {f : BanEntry → BanEntry} (ipids : ∀ r, (f r).ipid = r.ipid) :
    Settled (s.drain.update_row m.id f).rows s.clock ipid (s.manager.bans_.lookup ipid) := by
  refine (inv.settled ipid).update (fun r => ?_) fun r stored same => ?_
  · split
    · exact ipids r
    · rfl
  · refine if_neg fun eq => other ?_
    have settled := inv.settled key
    rw [cached] at settled
    rw [← same, inv.row_of_id cached known stored eq]
    exact settled.1.symm

theorem Inv.remove_ban {s : BanSystem} (inv : Inv s) {ipid : Bytes}
    (carries : s.Carries (.remove_ban ipid)) : Inv (s.step (.remove_ban ipid)) := by
  cases cached : s.manager.bans_.lookup ipid with
  | none =>
    have shape : s.step (.remove_ban ipid) = s.call s.manager ⟨[], []⟩ := by
      simp [step, BanManager.remove_ban, cached]
    rw [shape]
    exact .call inv.backed inv.numbered inv.settled
  | some m =>
    have past := carries m cached
    have settled := inv.settled ipid
    rw [cached] at settled
    by_cases known : 0 < m.id
    · have shape : s.step (.remove_ban ipid) = s.call
          { s.manager with bans_ := s.manager.bans_.erase ipid } ⟨[.invalidate_ban m.id],
            if s.manager.fw_ && !m.ip.isEmpty then [.unblock_ip m.ip] else []⟩ := by
        simp [step, BanManager.remove_ban, cached, inv.backed, known]
      rw [shape]
      refine .call inv.backed (inv.numbered.run (.invalidate_ban m.id)) (Settled.drop ?_ fun other key => ?_)
      · intro r member same
        obtain ⟨old, stored, rfl⟩ := List.mem_map.mp member
        split
        · exact is_expired_invalidated old s.clock
        · next different =>
          rw [if_neg different] at same
          exact past old stored same different
      · exact inv.others cached (by omega) key fun _ => rfl
    · have shape : s.step (.remove_ban ipid) = s.call
          { s.manager with bans_ := s.manager.bans_.erase ipid } ⟨[],
            if s.manager.fw_ && !m.ip.isEmpty then [.unblock_ip m.ip] else []⟩ := by
        simp [step, BanManager.remove_ban, cached, known]
      rw [shape]
      refine .call inv.backed inv.numbered (Settled.drop ?_ fun other _ => inv.settled other)
      · intro r stored same
        have numbered := (inv.numbered.range r stored).1
        have nonneg := settled.2.1
        exact past r stored same (by omega)

theorem DurationScan.total_range {chars : Bytes} {s s' : DurationScan}
    (ran : chars.foldlM DurationScan.step s = some s')
    (range : -2 ^ 63 ≤ s.total ∧ s.total < 2 ^ 63) : -2 ^ 63 ≤ s'.total ∧ s'.total < 2 ^ 63 := by
  induction chars generalizing s with
  | nil =>
    obtain rfl := Option.some.inj ran
    exact range
  | cons c rest ih =>
    rw [List.foldlM_cons, Option.bind_eq_bind, Option.bind_eq_some_iff] at ran
    obtain ⟨next, stepped, later⟩ := ran
    refine ih later ?_
    unfold DurationScan.step at stepped
    split at stepped
    · obtain rfl := Option.some.inj stepped
      exact range
    · split at stepped
      · obtain rfl := Option.some.inj stepped
        exact wrap64_range _
      · split at stepped
        · obtain rfl := Option.some.inj stepped
          exact wrap64_range _
        · split at stepped
          · obtain rfl := Option.some.inj stepped
            exact wrap64_range _
          · contradiction

theorem parse_ban_duration_range (input : Bytes) :
    -2 ^ 63 ≤ parse_ban_duration input ∧ parse_ban_duration input < 2 ^ 63 := by
  unfold parse_ban_duration
  split
  · decide
  · simp only
    split
    · decide
    · split
      · decide
      · next s ran =>
        split
        · exact wrap64_range _
        · split
          · exact DurationScan.total_range ran (by decide)
          · decide

theorem edit_task {m m' : BanEntry} {field value : Bytes}
    (edited : BanManager.edit m field value = some m') (clean : field = bytes "reason" → 0 ∉ value)
    (db : DatabaseManager) : ∃ f : BanEntry → BanEntry,
      db.update_ban m.id field (if field = bytes "duration" then to_string m'.duration else value) =
        db.update_row m.id f ∧ f m = m' ∧ (∀ r, (f r).ipid = r.ipid) ∧ ∀ r, (f r).id = r.id := by
  have apart : bytes "reason" ≠ bytes "duration" := by decide
  unfold BanManager.edit at edited
  by_cases reason : field = bytes "reason"
  · subst reason
    rw [if_pos rfl] at edited
    refine ⟨fun r => { r with reason := c_str value }, ?_, ?_, fun _ => rfl, fun _ => rfl⟩
    · simp only [DatabaseManager.update_ban, if_neg apart, if_true]
    · rw [c_str_eq (clean rfl)]
      exact Option.some.inj edited
  · rw [if_neg reason] at edited
    by_cases duration : field = bytes "duration"
    · subst duration
      rw [if_pos rfl] at edited
      obtain ⟨low, high⟩ := parse_ban_duration_range value
      simp only [Option.ite_none_left_eq_some, Option.some.injEq] at edited
      obtain ⟨_, rfl⟩ := edited
      refine ⟨fun r => { r with duration := parse_ban_duration value }, ?_, rfl, fun _ => rfl,
        fun _ => rfl⟩
      simp only [DatabaseManager.update_ban, if_true, stoll_to_string low high]
    · rw [if_neg duration] at edited
      contradiction

theorem edit_keeps {m m' : BanEntry} {field value : Bytes}
    (edited : BanManager.edit m field value = some m') : m'.id = m.id ∧ m'.ipid = m.ipid := by
  unfold BanManager.edit at edited
  split at edited
  · obtain rfl := Option.some.inj edited
    exact ⟨rfl, rfl⟩
  · split at edited
    · simp only [Option.ite_none_left_eq_some, Option.some.injEq] at edited
      obtain ⟨_, rfl⟩ := edited
      exact ⟨rfl, rfl⟩
    · contradiction

theorem map_update_split {rows before after : List BanEntry} {own : BanEntry}
    (split : rows = before ++ own :: after) (distinct : (rows.map BanEntry.id).Nodup)
    (f : BanEntry → BanEntry) :
    rows.map (fun r => if r.id = own.id then f r else r) = before ++ f own :: after := by
  subst split
  have others : ∀ part : List BanEntry, (∀ r ∈ part, r.id ≠ own.id) →
      part.map (fun r => if r.id = own.id then f r else r) = part := by
    intro part apart
    refine (List.map_congr_left fun r inside => ?_).trans (List.map_id part)
    exact if_neg (apart r inside)
  rw [List.map_append, List.map_cons] at distinct
  obtain ⟨_, behind, apart⟩ := List.nodup_append.mp distinct
  rw [List.map_append, List.map_cons, if_pos rfl, others before ?_, others after ?_]
  · intro r inside eq
    exact (List.nodup_cons.mp behind).1 (eq ▸ List.mem_map_of_mem inside)
  · intro r inside
    exact apart _ (List.mem_map_of_mem inside) _ List.mem_cons_self

/-- An edit of the row of a cached entry, which the other rows of its IPID do not outlive. -/
theorem OwnRow.edit {m m' : BanEntry} (held : OwnRow rows clock m)
    (distinct : (rows.map BanEntry.id).Nodup) (known : m.id ≠ 0) (same_id : m'.id = m.id)
    (same_ipid : m'.ipid = m.ipid) {f : BanEntry → BanEntry} (result : f m = m')
    (covers : ∀ r ∈ rows, r.ipid = m'.ipid → r.id ≠ m'.id →
      r.is_expired clock ∨ r.expiry ≤ m'.expiry) :
    OwnRow (rows.map fun r => if r.id = m.id then f r else r) clock m' := by
  obtain ⟨before, own, after, split, _, same_own, _, later⟩ := held.split
  obtain rfl := same_own known
  have edited := map_update_split split distinct f
  rw [result] at edited
  refine ⟨before, m', after, edited, rfl, fun _ => rfl, fun r inside same => ?_, ?_⟩
  · refine covers r (by rw [split]; simp [inside]) same fun eq => ?_
    rw [split, List.map_append] at distinct
    exact (List.nodup_append.mp distinct).2.2 _ (List.mem_map_of_mem inside) _
      (List.mem_map_of_mem List.mem_cons_self) (eq.trans same_id)
  · rw [same_ipid]
    exact later

theorem Inv.update_ban {s : BanSystem} (inv : Inv s) {ipid field value : Bytes}
    (carries : s.Carries (.update_ban ipid field value)) :
    Inv (s.step (.update_ban ipid field value)) := by
  have refused : s.step (.update_ban ipid field value) = s.call s.manager ⟨[], []⟩ →
      Inv (s.step (.update_ban ipid field value)) := by
    intro shape
    rw [shape]
    exact .call inv.backed inv.numbered inv.settled
  cases cached : s.manager.bans_.lookup ipid with
  | none => exact refused (by simp [step, BanManager.update_ban, cached])
  | some m =>
    cases edited : BanManager.edit m field value with
    | none => exact refused (by simp [step, BanManager.update_ban, cached, edited])
    | some m' =>
      obtain ⟨same_id, same_ipid⟩ := edit_keeps edited
      have settled := inv.settled ipid
      rw [cached] at settled
      obtain ⟨key, nonneg, held⟩ := settled
      obtain ⟨firewall, shape⟩ : ∃ firewall, s.step (.update_ban ipid field value) = s.call
          { s.manager with bans_ := s.manager.bans_.insert ipid m' } ⟨if 0 < m.id then
            [.update_ban m.id field (if field = bytes "duration" then to_string m'.duration else value)]
            else [], firewall⟩ := by
        simp only [step, BanManager.update_ban, cached, edited, inv.backed, same_id, Bool.true_and,
          decide_eq_true_eq]
        exact ⟨_, rfl⟩
      rw [shape]
      by_cases known : 0 < m.id
      · have allowed : (field = bytes "reason" → 0 ∉ value) ∧ s.Covers m' := by
          rcases carries m m' cached edited with ⟨zero, _⟩ | ⟨_, clean, covers⟩ | ⟨zero, _⟩
          · omega
          · exact ⟨clean, covers⟩
          · omega
        obtain ⟨clean, covers⟩ := allowed
        obtain ⟨f, ran, result, ipids, ids⟩ := edit_task edited clean s.drain
        rw [if_pos known]
        refine .call inv.backed (inv.numbered.run (.update_ban m.id field _)) ?_
        simp only [List.foldl_cons, List.foldl_nil, DatabaseManager.run, ran]
        refine Settled.put ⟨same_ipid.trans key, by omega, .inl ?_⟩ fun other here =>
          inv.others cached (by omega) here ipids
        rcases held with held | ⟨zero, _, _⟩
        · exact held.edit inv.numbered.distinct (by omega) same_id same_ipid result covers
        · omega
      · rw [if_neg known]
        refine .call inv.backed inv.numbered (Settled.put ?_ fun other _ => inv.settled other)
        rcases carries m m' cached edited with ⟨_, rfl⟩ | ⟨nonzero, _⟩ | ⟨zero, gone, quiet⟩
        · exact ⟨key, nonneg, held⟩
        · omega
        · exact ⟨same_ipid.trans key, by omega, .inr ⟨by omega, gone, quiet⟩⟩

theorem drain_worker (s : BanSystem) : s.worker.drain = s.drain := by
  unfold worker
  cases queue : s.queue with
  | nil => rfl
  | cons task rest => simp [drain, queue]

theorem Inv.worker {s : BanSystem} (inv : Inv s) : Inv s.worker := by
  have kept : s.worker.manager = s.manager ∧ s.worker.clock = s.clock := by
    unfold BanSystem.worker
    cases s.queue <;> exact ⟨rfl, rfl⟩
  refine ⟨by rw [kept.1]; exact inv.backed, by rw [drain_worker]; exact inv.numbered, ?_⟩
  rw [table, drain_worker, kept.1, kept.2]
  exact inv.settled

theorem Inv.step {s : BanSystem} (inv : Inv s) {op : BanOp} (carries : s.Carries op) :
    Inv (s.step op) := by
  cases op with
  | add_ban e now => exact inv.add_ban carries
  | remove_ban ipid => exact inv.remove_ban carries
  | update_ban ipid field value => exact inv.update_ban carries
  | worker => exact inv.worker
  | wait nanoseconds =>
    exact ⟨inv.backed, inv.numbered, fun ipid =>
      (inv.settled ipid).later (Int.le_add_of_nonneg_right (Int.natCast_nonneg _))⟩
  | restart => exact inv.restart

theorem inv_start (s : BanSystem) (fresh : s.manager.bans_ = ∅) (backed : s.manager.db_ = true)
    (empty : s.db = {}) (idle : s.queue = []) : Inv s := by
  have nothing : s.drain = {} := by rw [drain, idle, empty]; rfl
  refine ⟨backed, ?_, fun ipid => ?_⟩
  · rw [nothing]
    exact ⟨List.nodup_nil, nofun⟩
  · rw [table, nothing, fresh]
    exact nofun

/-- While every operation carries over to the table, a restart brings back exactly the bans
that were active. -/
theorem run_persistent (clock : Int) (fw : Bool) (ops : List BanOp)
    (carries : Throughout step Carries ⟨clock, { db_ := true, fw_ := fw }, {}, []⟩ ops) :
    Always step Persistent ⟨clock, { db_ := true, fw_ := fw }, {}, []⟩ ops := by
  have always := always_of_throughout (P := Inv) (fun _ _ inv carries => inv.step carries)
    (inv_start ⟨clock, { db_ := true, fw_ := fw }, {}, []⟩ rfl rfl rfl rfl) carries
  exact always_iff_isPrefix.mpr fun front inside => (always_iff_isPrefix.mp always front inside).persistent

/-- A permanent ban as the `/ban` command builds it. -/
def permanentBan : BanEntry := { ipid := bytes "a", timestamp := 1700000000, duration := -2 }

theorem removed_ban_returns :
    ¬ (run step {} [.add_ban permanentBan 0, .remove_ban (bytes "a")]).Persistent := by
  intro same
  have back : permanentBan.ban ∈ (run step {} [.add_ban permanentBan 0,
      .remove_ban (bytes "a")]).restart.manager.active 0 :=
    ⟨bytes "a", { permanentBan with id := 1 }, by decide, by decide, by decide⟩
  have gone : permanentBan.ban ∈ (run step {} [.add_ban permanentBan 0,
      .remove_ban (bytes "a")]).manager.active 0 := same ▸ back
  obtain ⟨ipid, e, found, _⟩ := gone
  have none : (run step {} [.add_ban permanentBan 0, .remove_ban (bytes "a")]).manager.bans_ = ∅ := rfl
  rw [none] at found
  contradiction

theorem run_persistent_edit :
    Always step Persistent {} [.add_ban permanentBan 0, .restart,
      .update_ban (bytes "a") (bytes "reason") (bytes "x"), .worker, .remove_ban (bytes "a")] := by
  refine run_persistent 0 false _ ⟨⟨rfl, .inl ⟨⟨by decide, by decide, by decide, by decide, nofun⟩, ?_⟩⟩,
    trivial, ?_, trivial, ?_, trivial⟩
  · have empty : table {} = [] := rfl
    intro r stored
    exact absurd (empty ▸ stored) List.not_mem_nil
  · have known : (run step {} [.add_ban permanentBan 0, .restart]).manager.bans_.lookup (bytes "a") =
        some { permanentBan with id := 1 } := by decide
    intro m m' cached edited
    obtain rfl := Option.some.inj (known.symm.trans cached)
    obtain rfl : { permanentBan with id := 1, reason := bytes "x" } = m' := Option.some.inj edited
    refine .inr (.inl ⟨by decide, fun _ => by decide, ?_⟩)
    unfold Covers
    decide
  · have known : (run step {} [.add_ban permanentBan 0, .restart, .update_ban (bytes "a")
        (bytes "reason") (bytes "x"), .worker]).manager.bans_.lookup (bytes "a") =
        some { permanentBan with id := 1, reason := bytes "x" } := by decide
    have single : ∀ r ∈ (run step {} [.add_ban permanentBan 0, .restart, .update_ban (bytes "a")
        (bytes "reason") (bytes "x"), .worker]).table, r.id = 1 := by decide
    intro m cached r stored _ other
    obtain rfl := Option.some.inj (known.symm.trans cached)
    exact absurd (single r stored) other
end BanSystem

end AoSdl
