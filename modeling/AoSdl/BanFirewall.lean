import AoSdl.Lib.Bindings
import AoSdl.Lib.Entries
import AoSdl.BanPersistence
import AoSdl.FirewallManager

/-! The firewall rules that the bans ask for. Rules are kept by address and bans by IPID; a rule is
given its end by the clock of the moment it is made, a ban by its own timestamp. A rule that has
ended counts no longer, whether or not the sweep has collected it. -/
namespace AoSdl
open Lib.Runs Lib.Bindings Lib.Entries

/-- The last moment of a rule. -/
def FirewallRule.ends (rule : FirewallRule) : WithTop Int :=
  if rule.expires_at = 0 then ⊤ else ((seconds rule.expires_at : Int) : WithTop Int)

/-- Timestamp and duration of a ban. -/
def BanEntry.ends (e : BanEntry) : WithTop Int :=
  if e.is_permanent then ⊤ else ((seconds (e.timestamp + e.duration) : Int) : WithTop Int)

namespace FirewallManager

/-- The rules saved in a file, without those that have expired. -/
def load (m : FirewallManager) (now : Int) (saved : List FirewallRule) : FirewallManager :=
  let loaded := saved.filter fun rule =>
    !rule.target.isEmpty && !(0 < rule.expires_at && rule.expires_at ≤ now)
  { m with
    rules_ := loaded.foldl (fun rules rule => rules.insert rule.target rule) m.rules_
    exec_queue_ := m.exec_queue_ ++ loaded.map fun rule =>
      ⟨if 47 ∈ rule.target then .add_range else .add, rule.target⟩ }

/-- A call of the ban manager, at a time in seconds. -/
def ban_call (now : Int) (m : FirewallManager) : FirewallCall → FirewallManager
  | .block_ip ip reason duration => m.begin_call (.block_ip now now ip reason duration)
  | .unblock_ip ip => m.begin_call (.unblock_ip ip)

end FirewallManager

structure BanFirewall where
  system : BanSystem := { manager := { db_ := true, fw_ := true } }
  firewall : FirewallManager := {}

namespace BanFirewall

/-- The firewall calls of an operation. -/
def calls (s : BanSystem) : BanOp → List FirewallCall
  | .add_ban entry now => (s.manager.add_ban entry now).2.firewall
  | .remove_ban ipid => (s.manager.remove_ban ipid).2.2.firewall
  | .update_ban ipid field value => (s.manager.update_ban ipid field value).2.2.firewall
  | .worker | .wait _ => []
  | .restart => (({ db_ := true, fw_ := s.manager.fw_ } : BanManager).load_from_db
      (s.drain.all_active_bans s.clock)).2.firewall

/-- The operations on bans, and the sweep. `saved` is what the rules file holds at a restart. -/
inductive Event where
  | ban (op : BanOp) (saved : List FirewallRule := [])
  | sweep_expired

def now (s : BanFirewall) : Int := s.system.clock / 1000000000

def step (s : BanFirewall) : Event → BanFirewall
  | .ban op saved =>
    let firewall : FirewallManager := match op with
      | .restart => FirewallManager.load { enabled_ := s.firewall.enabled_ } s.now saved
      | _ => s.firewall
    ⟨s.system.step op, (calls s.system op).foldl (FirewallManager.ban_call s.now) firewall⟩
  | .sweep_expired => { s with firewall := s.firewall.begin_call (.sweep_expired s.now) }

/-- An active ban carries the address. -/
def Carried (clock : Int) (bans : Bytes → Option BanEntry) (ip : Bytes) : Prop :=
  ∃ ipid e, bans ipid = some e ∧ e.is_expired clock = false ∧ e.ip = ip

/-- A rule that has not ended stands exactly for each address that an active ban carries, and ends
when the ban does. -/
structure Agree (clock : Int) (bans : Bytes → Option BanEntry) (rules : Bytes → Option FirewallRule) :
    Prop where
  ruled : ∀ ip, ip ≠ [] → ((∃ rule, rules ip = some rule ∧ (clock : WithTop Int) ≤ rule.ends) ↔
    Carried clock bans ip)
  ends : ∀ ip, ip ≠ [] → ∀ rule ipid e, rules ip = some rule → (clock : WithTop Int) ≤ rule.ends →
    bans ipid = some e → e.is_expired clock = false → e.ip = ip → rule.ends = e.ends

def Agrees (s : BanFirewall) : Prop :=
  Agree s.system.clock s.system.manager.bans_.lookup s.firewall.rules_.lookup

/-- The ban is made in this very second, or is permanent, and its end can be represented. -/
def Issued (clock : Int) (e : BanEntry) : Prop :=
  e.is_permanent = true ∨
    (e.timestamp = clock / 1000000000 ∧ 0 < e.duration ∧ seconds (e.timestamp + e.duration) < 2 ^ 63)

/-- Other active bans that carry the address of a ban end with it. -/
def Shared (clock : Int) (bans : Bytes → Option BanEntry) (ipid : Bytes) (e : BanEntry) : Prop :=
  ∀ q other, q ≠ ipid → bans q = some other → other.is_expired clock = false → other.ip = e.ip →
    other.ends = e.ends

/-- A ban goes into the place of another. -/
structure Replaces (clock : Int) (bans : Bytes → Option BanEntry) (ipid : Bytes) (e : BanEntry) :
    Prop where
  valid : e.ip ≠ [] → FirewallManager.is_valid_ip e.ip = true
  issued : e.ip ≠ [] → Issued clock e
  shared : e.ip ≠ [] → Shared clock bans ipid e
  /-- The address of the ban that goes is the same, or is carried by another active ban. -/
  covered : ∀ old, bans ipid = some old → old.is_expired clock = false → old.ip ≠ [] →
    old.ip = e.ip ∨ ∃ q other, q ≠ ipid ∧ bans q = some other ∧ other.is_expired clock = false ∧
      other.ip = old.ip

/-- The rows a restart loads. -/
structure Reloads (clock : Int) (rows : List BanEntry) (saved : List FirewallRule) : Prop where
  valid : ∀ e ∈ rows, e.ip ≠ [] → FirewallManager.is_valid_ip e.ip = true
  issued : ∀ e ∈ rows, e.ip ≠ [] → Issued clock e
  shared : ∀ e ∈ rows, ∀ other ∈ rows, e.ip ≠ [] → other.ip = e.ip → other.ends = e.ends
  /-- The last row of some IPID carries the address. -/
  cached : ∀ e ∈ rows, e.ip ≠ [] → ∃ ipid other,
    (rows.filter (·.ipid = ipid)).getLast? = some other ∧ other.ip = e.ip
  /-- A rule of the file has ended, or its address is that of a row. -/
  saved : ∀ rule ∈ saved, (clock : WithTop Int) ≤ rule.ends → ∃ e ∈ rows, e.ip = rule.target

/-- When an operation leaves the rules with what the bans say. -/
def Keeps (s : BanFirewall) : Event → Prop
  | .ban (.add_ban e _) _ => Replaces s.system.clock s.system.manager.bans_.lookup e.ipid e
  | .ban (.remove_ban ipid) _ => ∀ e, s.system.manager.bans_.lookup ipid = some e → e.ip ≠ [] →
    ∀ q other, q ≠ ipid → s.system.manager.bans_.lookup q = some other →
      other.is_expired s.system.clock = false → other.ip ≠ e.ip
  | .ban (.update_ban ipid field value) _ => field = bytes "duration" → ∀ old e,
    s.system.manager.bans_.lookup ipid = some old → BanManager.edit old field value = some e →
      Replaces s.system.clock s.system.manager.bans_.lookup ipid e
  | .ban .restart saved =>
    Reloads s.system.clock (s.system.drain.all_active_bans s.system.clock) saved
  | .ban .worker _ | .ban (.wait _) _ => True
  | .sweep_expired => ∀ ip rule, s.firewall.rules_.lookup ip = some rule →
    seconds rule.expires_at ≠ s.system.clock

/-- The ends of the active bans with an address are as the claim of a rule sees them. -/
structure Inv (s : BanFirewall) : Prop where
  agrees : s.Agrees
  positive : 0 < s.system.clock
  enabled : s.system.manager.fw_ = true ∧ s.firewall.enabled_ = true
  fits : ∀ ipid e, s.system.manager.bans_.lookup ipid = some e →
    e.is_expired s.system.clock = false → e.ip ≠ [] → e.expiry = e.ends

section Proof

variable {clock : Int} {bans : Bytes → Option BanEntry} {rules : Bytes → Option FirewallRule}
  {ipid : Bytes} {e : BanEntry} {m : FirewallManager} {s : BanFirewall}

theorem active_iff (fits : e.expiry = e.ends) :
    e.is_expired clock = false ↔ (clock : WithTop Int) ≤ e.ends := by
  rw [← not_lt, ← WithBot.coe_lt_coe, ← fits, ← BanEntry.is_expired_iff, Bool.not_eq_true]

/-- The rule that is made for a ban. -/
def rule_for (now : Int) (e : BanEntry) : FirewallRule :=
  ⟨e.ip, e.reason, now, if e.is_permanent then 0 else wrap64 (now + e.duration)⟩

theorem Issued.spec (issued : Issued clock e) (positive : 0 < clock) :
    e.expiry = e.ends ∧ (clock : WithTop Int) ≤ e.ends ∧
      (rule_for (clock / 1000000000) e).ends = e.ends := by
  rcases issued with permanent | ⟨stamped, long, fits⟩
  · simp [BanEntry.expiry, BanEntry.ends, FirewallRule.ends, rule_for, permanent]
  · have timed : e.is_permanent = false := by
      simp only [BanEntry.is_permanent, decide_eq_false_iff_not]
      omega
    have small : seconds (e.timestamp + e.duration) = 1000000000 * (e.timestamp + e.duration) := by
      unfold seconds
      omega
    have seconds_add : seconds e.timestamp + seconds e.duration = seconds (e.timestamp + e.duration) := by
      unfold seconds
      omega
    have whole : wrap64 (seconds (e.timestamp + e.duration)) = seconds (e.timestamp + e.duration) :=
      Int.bmod_eq_of_le (by omega) (by omega)
    have rule_end : wrap64 (clock / 1000000000 + e.duration) = e.timestamp + e.duration := by
      rw [← stamped]
      exact Int.bmod_eq_of_le (by omega) (by omega)
    refine ⟨?_, ?_, ?_⟩
    · have lasting : e.duration ≠ 0 := by omega
      simp [BanEntry.expiry, BanEntry.ends, timed, lasting, seconds_add, whole]
    · simp only [BanEntry.ends, timed, Bool.false_eq_true, if_false]
      rw [WithTop.coe_le_coe]
      omega
    · have later : e.timestamp + e.duration ≠ 0 := by omega
      simp only [FirewallRule.ends, rule_for, BanEntry.ends, timed, Bool.false_eq_true, if_false, rule_end,
        if_neg later]

theorem carried_update {ip : Bytes} (filled : ip ≠ []) (other : ip ≠ e.ip)
    (covered : ∀ old, bans ipid = some old → old.is_expired clock = false → old.ip ≠ [] →
      old.ip = e.ip ∨ ∃ q x, q ≠ ipid ∧ bans q = some x ∧ x.is_expired clock = false ∧ x.ip = old.ip) :
    Carried clock (Function.update bans ipid (some e)) ip ↔ Carried clock bans ip := by
  constructor
  · rintro ⟨q, x, found, active, rfl⟩
    rcases update_some_iff.mp found with ⟨rfl, rfl⟩ | ⟨here, found⟩
    · exact absurd rfl other
    · exact ⟨q, x, found, active, rfl⟩
  · rintro ⟨q, x, found, active, rfl⟩
    by_cases here : q = ipid
    · subst here
      rcases covered x found active filled with same | ⟨q', x', apart, found', active', same⟩
      · exact absurd same other
      · exact ⟨q', x', update_some_iff.mpr (.inr ⟨apart, found'⟩), active', same⟩
    · exact ⟨q, x, update_some_iff.mpr (.inr ⟨here, found⟩), active, rfl⟩

theorem Agree.put (agree : Agree clock bans rules) (replaces : Replaces clock bans ipid e)
    (filled : e.ip ≠ []) (active : e.is_expired clock = false) {rule : FirewallRule}
    (in_force : (clock : WithTop Int) ≤ e.ends) (ends : rule.ends = e.ends) :
    Agree clock (Function.update bans ipid (some e)) (Function.update rules e.ip (some rule)) := by
  constructor
  · intro ip named
    by_cases same : ip = e.ip
    · subst same
      rw [Function.update_self]
      exact iff_of_true ⟨rule, rfl, ends ▸ in_force⟩ ⟨ipid, e, Function.update_self .., active, rfl⟩
    · rw [Function.update_of_ne same, carried_update named same replaces.covered]
      exact agree.ruled ip named
  · intro ip named rule' q x ruled lasts found active' carries
    rcases update_some_iff.mp ruled with ⟨rfl, rfl⟩ | ⟨same, ruled⟩
    · rcases update_some_iff.mp found with ⟨rfl, rfl⟩ | ⟨here, found⟩
      · exact ends
      · exact ends.trans (replaces.shared filled q x here found active' carries).symm
    · rcases update_some_iff.mp found with ⟨rfl, rfl⟩ | ⟨here, found⟩
      · exact absurd carries.symm same
      · exact agree.ends ip named rule' q x ruled lasts found active' carries

theorem Agree.put_nameless (agree : Agree clock bans rules) (replaces : Replaces clock bans ipid e)
    (empty : e.ip = []) : Agree clock (Function.update bans ipid (some e)) rules := by
  constructor
  · intro ip named
    rw [carried_update named (by rwa [empty]) replaces.covered]
    exact agree.ruled ip named
  · intro ip named rule q x ruled lasts found active carries
    rcases update_some_iff.mp found with ⟨rfl, rfl⟩ | ⟨here, found⟩
    · exact absurd (carries.symm.trans empty) named
    · exact agree.ends ip named rule q x ruled lasts found active carries

theorem Agree.remove (agree : Agree clock bans rules) (found : bans ipid = some e)
    (alone : e.ip ≠ [] → ∀ q other, q ≠ ipid → bans q = some other →
      other.is_expired clock = false → other.ip ≠ e.ip) :
    Agree clock (Function.update bans ipid none)
      (if e.ip = [] then rules else Function.update rules e.ip none) := by
  have carried (ip : Bytes) (other : ip ≠ e.ip) :
      Carried clock (Function.update bans ipid none) ip ↔ Carried clock bans ip := by
    constructor
    · rintro ⟨q, x, found', active, rfl⟩
      exact ⟨q, x, (update_none_iff.mp found').2, active, rfl⟩
    · rintro ⟨q, x, found', active, rfl⟩
      refine ⟨q, x, update_none_iff.mpr ⟨?_, found'⟩, active, rfl⟩
      rintro rfl
      cases found'.symm.trans found
      exact other rfl
  have rules_of_ne (ip : Bytes) (other : ip ≠ e.ip) :
      (if e.ip = [] then rules else Function.update rules e.ip none) ip = rules ip := by
    split
    · rfl
    · rw [Function.update_of_ne other]
  have none_at (ip : Bytes) (named : ip ≠ []) (same : ip = e.ip) :
      (if e.ip = [] then rules else Function.update rules e.ip none) ip = none := by
    subst same
    rw [if_neg named, Function.update_self]
  constructor
  · intro ip named
    by_cases same : ip = e.ip
    · rw [none_at ip named same]
      refine iff_of_false (by simp) ?_
      rintro ⟨q, x, found', active, rfl⟩
      obtain ⟨here, found'⟩ := update_none_iff.mp found'
      exact alone (same ▸ named) q x here found' active same
    · rw [rules_of_ne ip same, carried ip same]
      exact agree.ruled ip named
  · intro ip named rule q x ruled lasts found' active carries
    by_cases same : ip = e.ip
    · rw [none_at ip named same] at ruled
      cases ruled
    · rw [rules_of_ne ip same] at ruled
      exact agree.ends ip named rule q x ruled lasts (update_none_iff.mp found').2 active carries

theorem Agree.later (agree : Agree clock bans rules) {after : Int} (le : clock ≤ after)
    (fits : ∀ ipid e, bans ipid = some e → e.is_expired clock = false → e.ip ≠ [] → e.expiry = e.ends) :
    Agree after bans rules := by
  have before {t : WithTop Int} (lasts : (after : WithTop Int) ≤ t) : (clock : WithTop Int) ≤ t :=
    le_trans (WithTop.coe_le_coe.mpr le) lasts
  have still {e : BanEntry} (active : e.is_expired after = false) : e.is_expired clock = false := by
    by_contra past
    rw [Bool.not_eq_false] at past
    rw [BanEntry.is_expired_mono le past] at active
    cases active
  constructor
  · intro ip named
    constructor
    · rintro ⟨rule, ruled, lasts⟩
      obtain ⟨ipid, e, found, active, carries⟩ :=
        (agree.ruled ip named).mp ⟨rule, ruled, before lasts⟩
      have same := agree.ends ip named rule ipid e ruled (before lasts) found active carries
      have fit := fits ipid e found active (carries ▸ named)
      exact ⟨ipid, e, found, (active_iff fit).mpr (same ▸ lasts), carries⟩
    · rintro ⟨ipid, e, found, active, carries⟩
      obtain ⟨rule, ruled, lasts⟩ := (agree.ruled ip named).mpr ⟨ipid, e, found, still active, carries⟩
      have same := agree.ends ip named rule ipid e ruled lasts found (still active) carries
      have fit := fits ipid e found (still active) (carries ▸ named)
      exact ⟨rule, ruled, same ▸ (active_iff fit).mp active⟩
  · intro ip named rule ipid e ruled lasts found active carries
    exact agree.ends ip named rule ipid e ruled (before lasts) found (still active) carries

theorem Agree.sweep (agree : Agree clock bans rules) {rules' : Bytes → Option FirewallRule}
    (kept : ∀ ip rule, rules' ip = some rule → rules ip = some rule)
    (gone : ∀ ip rule, rules ip = some rule → (clock : WithTop Int) ≤ rule.ends →
      rules' ip = some rule) : Agree clock bans rules' := by
  constructor
  · intro ip named
    rw [← agree.ruled ip named]
    exact ⟨fun ⟨rule, ruled, lasts⟩ => ⟨rule, kept ip rule ruled, lasts⟩,
      fun ⟨rule, ruled, lasts⟩ => ⟨rule, gone ip rule ruled lasts, lasts⟩⟩
  · exact fun ip named rule ipid e ruled => agree.ends ip named rule ipid e (kept ip rule ruled)

theorem Agree.reword (agree : Agree clock bans rules) (found : bans ipid = some e) (reason : Bytes) :
    Agree clock (Function.update bans ipid (some { e with reason })) rules := by
  have back {q : Bytes} {x : BanEntry}
      (found' : Function.update bans ipid (some { e with reason }) q = some x) :
      ∃ y, bans q = some y ∧ y.is_expired clock = x.is_expired clock ∧ y.ip = x.ip ∧ y.ends = x.ends := by
    rcases update_some_iff.mp found' with ⟨rfl, rfl⟩ | ⟨here, found'⟩
    · exact ⟨e, found, rfl, rfl, rfl⟩
    · exact ⟨x, found', rfl, rfl, rfl⟩
  constructor
  · intro ip named
    rw [agree.ruled ip named]
    constructor
    · rintro ⟨q, x, found', active, carries⟩
      by_cases here : q = ipid
      · subst here
        cases found'.symm.trans found
        exact ⟨q, { e with reason }, Function.update_self .., active, carries⟩
      · exact ⟨q, x, by rw [Function.update_of_ne here, found'], active, carries⟩
    · rintro ⟨q, x, found', active, carries⟩
      obtain ⟨y, found, expired, ip_eq, -⟩ := back found'
      exact ⟨q, y, found, expired.trans active, ip_eq.trans carries⟩
  · intro ip named rule q x ruled lasts found' active carries
    obtain ⟨y, found, expired, ip_eq, ends⟩ := back found'
    exact (agree.ends ip named rule q y ruled lasts found (expired.trans active)
      (ip_eq.trans carries)).trans ends

theorem lookup_erase_all (targets : List Bytes) (rules : AList (fun _ : Bytes => FirewallRule))
    (ip : Bytes) : (targets.foldl (fun rules target => rules.erase target) rules).lookup ip =
      if ip ∈ targets then none else rules.lookup ip := by
  induction targets generalizing rules with
  | nil => simp
  | cons target targets ih =>
    rw [List.foldl_cons, ih]
    by_cases here : ip = target
    · subst here
      simp
    · simp [here, AList.lookup_erase_ne here]

theorem rules_block (enabled : m.enabled_ = true) (valid : FirewallManager.is_valid_ip e.ip = true)
    (now : Int) : (FirewallManager.ban_call now m
      (.block_ip e.ip e.reason (BanManager.firewall_duration e))).rules_.lookup =
        Function.update m.rules_.lookup e.ip (some (rule_for now e)) := by
  have same : (if BanManager.firewall_duration e = DURATION_PERMANENT then 0
      else wrap64 (now + BanManager.firewall_duration e)) =
        if e.is_permanent then 0 else wrap64 (now + e.duration) := by
    unfold BanManager.firewall_duration BanEntry.is_permanent DURATION_PERMANENT
    by_cases permanent : e.duration = -2 <;> simp [permanent]
  simp only [FirewallManager.ban_call, FirewallManager.begin_call, FirewallManager.record,
    FirewallManager.block_ip, FirewallManager.block, enabled, valid, Bool.not_true, Bool.or_self,
    Bool.false_eq_true, if_false, same]
  exact lookup_insert_eq _ _ _

theorem rules_unblock (enabled : m.enabled_ = true) (now : Int) (ip : Bytes) :
    (FirewallManager.ban_call now m (.unblock_ip ip)).rules_.lookup =
      Function.update m.rules_.lookup ip none := by
  simp only [FirewallManager.ban_call, FirewallManager.begin_call, FirewallManager.record,
    FirewallManager.unblock_ip, FirewallManager.unblock, enabled, Bool.not_true, Bool.false_or,
    decide_eq_true_eq]
  split
  · next unknown => exact (Function.update_eq_self_iff.mpr (AList.lookup_eq_none.mpr unknown).symm).symm
  · exact lookup_erase_eq _ _

theorem rules_reload (enabled : m.enabled_ = true) (positive : 0 < clock) {rows : List BanEntry}
    (valid : ∀ e ∈ rows, e.ip ≠ [] → FirewallManager.is_valid_ip e.ip = true)
    (issued : ∀ e ∈ rows, e.ip ≠ [] → Issued clock e) {manager : BanManager} (set : manager.fw_ = true)
    (ip : Bytes) (named : ip ≠ []) :
    (∃ e ∈ rows, e.ip = ip ∧ ∃ rule, ((rows.flatMap manager.block).foldl
        (FirewallManager.ban_call (clock / 1000000000)) m).rules_.lookup ip = some rule ∧
          rule.ends = e.ends) ∨
      (∀ e ∈ rows, e.ip ≠ ip) ∧ ((rows.flatMap manager.block).foldl
        (FirewallManager.ban_call (clock / 1000000000)) m).rules_.lookup ip = m.rules_.lookup ip := by
  induction rows generalizing m with
  | nil => exact .inr ⟨fun e member => absurd member List.not_mem_nil, rfl⟩
  | cons e rows ih =>
    have valid' := fun x member => valid x (List.mem_cons_of_mem e member)
    have issued' := fun x member => issued x (List.mem_cons_of_mem e member)
    rw [List.flatMap_cons, List.foldl_append]
    by_cases empty : e.ip = []
    · have none : manager.block e = [] := by simp [BanManager.block, empty]
      rw [none, List.foldl_nil]
      rcases ih enabled valid' issued' with ⟨x, member, carries, rule⟩ | ⟨others, same⟩
      · exact .inl ⟨x, List.mem_cons_of_mem e member, carries, rule⟩
      · refine .inr ⟨List.forall_mem_cons.mpr ⟨?_, others⟩, same⟩
        exact fun carries => named (carries.symm.trans empty)
    · have one : manager.block e =
          [.block_ip e.ip e.reason (BanManager.firewall_duration e)] := by
        simp [BanManager.block, set, empty]
      have made := rules_block enabled (valid e List.mem_cons_self empty) (clock / 1000000000)
      rw [one, List.foldl_cons, List.foldl_nil]
      rcases ih (m := FirewallManager.ban_call (clock / 1000000000) m
        (.block_ip e.ip e.reason (BanManager.firewall_duration e))) enabled valid' issued' with
        ⟨x, member, carries, rule⟩ | ⟨others, same⟩
      · exact .inl ⟨x, List.mem_cons_of_mem e member, carries, rule⟩
      · rw [congrFun made ip] at same
        by_cases here : ip = e.ip
        · subst here
          rw [Function.update_self] at same
          exact .inl ⟨e, List.mem_cons_self, rfl, _, same,
            ((issued e List.mem_cons_self empty).spec positive).2.2⟩
        · rw [Function.update_of_ne here] at same
          exact .inr ⟨List.forall_mem_cons.mpr ⟨Ne.symm here, others⟩, same⟩

theorem enabled_calls (now : Int) (l : List FirewallCall) :
    (l.foldl (FirewallManager.ban_call now) m).enabled_ = m.enabled_ := by
  induction l generalizing m with
  | nil => rfl
  | cons call l ih =>
    rw [List.foldl_cons, ih]
    cases call <;> rfl

/-- What an operation does to the cache and to the rules is enough to know. -/
theorem Inv.of_step (inv : Inv s) {event : Event}
    (clock : (s.step event).system.clock = s.system.clock)
    (set : (s.step event).system.manager.fw_ = true)
    (enabled : (s.step event).firewall.enabled_ = s.firewall.enabled_)
    (agrees : Agree s.system.clock (s.step event).system.manager.bans_.lookup
      (s.step event).firewall.rules_.lookup)
    (fits : ∀ ipid e, (s.step event).system.manager.bans_.lookup ipid = some e →
      e.is_expired s.system.clock = false → e.ip ≠ [] → e.expiry = e.ends) : Inv (s.step event) := by
  refine ⟨?_, ?_, ⟨set, enabled.trans inv.enabled.2⟩, ?_⟩
  · unfold Agrees
    rw [clock]
    exact agrees
  · rw [clock]
    exact inv.positive
  · rw [clock]
    exact fits

theorem Inv.put (inv : Inv s) {event : Event}
    (clock : (s.step event).system.clock = s.system.clock)
    (set : (s.step event).system.manager.fw_ = true)
    (enabled : (s.step event).firewall.enabled_ = s.firewall.enabled_)
    (replaces : Replaces s.system.clock s.system.manager.bans_.lookup ipid e)
    (cached : (s.step event).system.manager.bans_.lookup =
      Function.update s.system.manager.bans_.lookup ipid (some e))
    (ruled : (s.step event).firewall.rules_.lookup = if e.ip = [] then s.firewall.rules_.lookup
      else Function.update s.firewall.rules_.lookup e.ip (some (rule_for s.now e))) :
    Inv (s.step event) := by
  refine inv.of_step clock set enabled ?_ fun q x found active named => ?_
  · rw [cached, ruled]
    by_cases empty : e.ip = []
    · rw [if_pos empty]
      exact inv.agrees.put_nameless replaces empty
    · rw [if_neg empty]
      obtain ⟨fits, in_force, ends⟩ := (replaces.issued empty).spec inv.positive
      exact inv.agrees.put replaces empty ((active_iff fits).mpr in_force) in_force ends
  · rw [congrFun cached q] at found
    rcases update_some_iff.mp found with ⟨rfl, rfl⟩ | ⟨here, found⟩
    · exact ((replaces.issued named).spec inv.positive).1
    · exact inv.fits q x found active named

theorem Inv.add_ban (inv : Inv s) (now : Int) (saved : List FirewallRule)
    (keeps : s.Keeps (.ban (.add_ban e now) saved)) : Inv (s.step (.ban (.add_ban e now) saved)) := by
  have replaces : Replaces s.system.clock s.system.manager.bans_.lookup e.ipid e := keeps
  refine inv.put rfl inv.enabled.1 (enabled_calls _ _) replaces (lookup_insert_eq _ _ _) ?_
  have listed : calls s.system (.add_ban e now) = s.system.manager.block e := rfl
  simp only [step, listed]
  by_cases empty : e.ip = []
  · simp [BanManager.block, empty]
  · have filled : e.ip.isEmpty = false := by simpa using empty
    simp only [BanManager.block, inv.enabled.1, filled, Bool.not_false, Bool.and_self, if_true,
      if_neg empty, List.foldl_cons, List.foldl_nil]
    exact rules_block inv.enabled.2 (replaces.valid empty) _

theorem Inv.remove_ban (inv : Inv s) (ipid : Bytes) (saved : List FirewallRule)
    (keeps : s.Keeps (.ban (.remove_ban ipid) saved)) :
    Inv (s.step (.ban (.remove_ban ipid) saved)) := by
  cases found : s.system.manager.bans_.lookup ipid with
  | none =>
    have idle : s.step (.ban (.remove_ban ipid) saved) = s := by
      simp [step, calls, BanSystem.step, BanSystem.call, BanManager.remove_ban, found]
    rw [idle]
    exact inv
  | some e =>
    have cached : (s.step (.ban (.remove_ban ipid) saved)).system.manager.bans_.lookup =
        Function.update s.system.manager.bans_.lookup ipid none := by
      simp only [step, BanSystem.step, BanSystem.call, BanManager.remove_ban, found]
      exact lookup_erase_eq _ _
    have ruled : (s.step (.ban (.remove_ban ipid) saved)).firewall.rules_.lookup =
        if e.ip = [] then s.firewall.rules_.lookup
        else Function.update s.firewall.rules_.lookup e.ip none := by
      simp only [step, calls, BanManager.remove_ban, found, inv.enabled.1]
      by_cases empty : e.ip = []
      · simp [empty]
      · have filled : e.ip.isEmpty = false := by simpa using empty
        simp only [filled, Bool.not_false, Bool.and_self, if_true, if_neg empty, List.foldl_cons,
          List.foldl_nil]
        exact rules_unblock inv.enabled.2 _ _
    have set : (s.step (.ban (.remove_ban ipid) saved)).system.manager.fw_ = true := by
      simp only [step, BanSystem.step, BanSystem.call, BanManager.remove_ban, found]
      exact inv.enabled.1
    refine inv.of_step rfl set (enabled_calls _ _) ?_ fun q x known active named => ?_
    · rw [cached, ruled]
      exact inv.agrees.remove found (keeps e found)
    · rw [congrFun cached q] at known
      exact inv.fits q x (update_none_iff.mp known).2 active named

theorem Inv.update_ban (inv : Inv s) (ipid field value : Bytes) (saved : List FirewallRule)
    (keeps : s.Keeps (.ban (.update_ban ipid field value) saved)) :
    Inv (s.step (.ban (.update_ban ipid field value) saved)) := by
  have idle (none : (s.system.manager.update_ban ipid field value).2 = (s.system.manager, {})) :
      Inv (s.step (.ban (.update_ban ipid field value) saved)) := by
    have same : s.step (.ban (.update_ban ipid field value) saved) = s := by
      simp [step, calls, BanSystem.step, BanSystem.call, none]
    rw [same]
    exact inv
  cases found : s.system.manager.bans_.lookup ipid with
  | none => exact idle (by rw [BanManager.update_ban, found])
  | some old =>
    cases edited : BanManager.edit old field value with
    | none => exact idle (by simp only [BanManager.update_ban, found, edited])
    | some e =>
      have cached : (s.step (.ban (.update_ban ipid field value) saved)).system.manager.bans_.lookup =
          Function.update s.system.manager.bans_.lookup ipid (some e) := by
        simp only [step, BanSystem.step, BanSystem.call, BanManager.update_ban, found, edited]
        exact lookup_insert_eq _ _ _
      have set : (s.step (.ban (.update_ban ipid field value) saved)).system.manager.fw_ = true := by
        simp only [step, BanSystem.step, BanSystem.call, BanManager.update_ban, found, edited]
        exact inv.enabled.1
      have listed : calls s.system (.update_ban ipid field value) =
          if field = bytes "duration" ∧ e.ip ≠ [] then [.unblock_ip e.ip,
            .block_ip e.ip e.reason (BanManager.firewall_duration e)] else [] := by
        simp [calls, BanManager.update_ban, found, edited, inv.enabled.1]
      by_cases timed : field = bytes "duration"
      · have replaces := keeps timed old e found edited
        refine inv.put rfl set (enabled_calls _ _) replaces cached ?_
        simp only [step, listed]
        by_cases empty : e.ip = []
        · simp [empty]
        · rw [if_pos ⟨timed, empty⟩, if_neg empty, List.foldl_cons, List.foldl_cons, List.foldl_nil]
          have first := rules_unblock inv.enabled.2 s.now e.ip
          have second := rules_block (m := FirewallManager.ban_call s.now s.firewall (.unblock_ip e.ip))
            inv.enabled.2 (replaces.valid empty) s.now
          refine second.trans ?_
          rw [first, Function.update_idem]
      · have reworded : e = { old with reason := value } := by
          unfold BanManager.edit at edited
          split at edited
          · exact (Option.some.inj edited).symm
          · simp at edited
        have ruled : (s.step (.ban (.update_ban ipid field value) saved)).firewall = s.firewall := by
          simp [step, listed, timed]
        refine inv.of_step rfl set (by rw [ruled]) ?_ fun q x known active named => ?_
        · rw [cached, ruled, reworded]
          exact inv.agrees.reword found value
        · rw [congrFun cached q] at known
          rcases update_some_iff.mp known with ⟨rfl, rfl⟩ | ⟨here, known⟩
          · subst reworded
            exact inv.fits q old found active named
          · exact inv.fits q x known active named

theorem mem_of_load {saved : List FirewallRule} {ip : Bytes} {rule : FirewallRule} (now : Int)
    (loaded : (FirewallManager.load { enabled_ := m.enabled_ } now saved).rules_.lookup ip = some rule) :
    rule ∈ saved ∧ rule.target = ip := by
  have folded (l : List FirewallRule) (rules : AList (fun _ : Bytes => FirewallRule))
      (found : (l.foldl (fun rules rule => rules.insert rule.target rule) rules).lookup ip = some rule) :
      (rule ∈ l ∧ rule.target = ip) ∨ rules.lookup ip = some rule := by
    induction l generalizing rules with
    | nil => exact .inr found
    | cons first l ih =>
      rcases ih _ found with ⟨member, target⟩ | found
      · exact .inl ⟨List.mem_cons_of_mem first member, target⟩
      · by_cases here : ip = first.target
        · subst here
          rw [AList.lookup_insert] at found
          cases found
          exact .inl ⟨List.mem_cons_self, rfl⟩
        · rw [AList.lookup_insert_ne here] at found
          exact .inr found
  rcases folded _ _ loaded with ⟨member, target⟩ | found
  · exact ⟨(List.mem_filter.mp member).1, target⟩
  · cases found

theorem Inv.restart (inv : Inv s) (saved : List FirewallRule) (keeps : s.Keeps (.ban .restart saved)) :
    Inv (s.step (.ban .restart saved)) := by
  have reloads : Reloads s.system.clock (s.system.drain.all_active_bans s.system.clock) saved := keeps
  generalize rows_eq : s.system.drain.all_active_bans s.system.clock = rows at reloads
  have active {e : BanEntry} (member : e ∈ rows) : e.is_expired s.system.clock = false := by
    rw [← rows_eq] at member
    have shown := (List.mem_filter.mp member).2
    rw [is_ban_active_eq] at shown
    simpa using shown
  have cached (q : Bytes) : (s.step (.ban .restart saved)).system.manager.bans_.lookup q =
      (rows.filter (·.ipid = q)).getLast? := by
    rw [← rows_eq]
    exact BanSystem.lookup_load _ q
  have stored {q : Bytes} {x : BanEntry}
      (found : (s.step (.ban .restart saved)).system.manager.bans_.lookup q = some x) : x ∈ rows := by
    rw [cached] at found
    exact (List.mem_filter.mp (List.mem_of_getLast? found)).1
  have ruled (ip : Bytes) (named : ip ≠ []) := rules_reload
    (m := FirewallManager.load { enabled_ := s.firewall.enabled_ } s.now saved) inv.enabled.2
    inv.positive reloads.valid reloads.issued
    (show ({ db_ := true, fw_ := s.system.manager.fw_ } : BanManager).fw_ = true from inv.enabled.1)
    ip named
  have rules_eq : (s.step (.ban .restart saved)).firewall.rules_ =
      ((rows.flatMap ({ db_ := true, fw_ := s.system.manager.fw_ } : BanManager).block).foldl
        (FirewallManager.ban_call (s.system.clock / 1000000000))
        (FirewallManager.load { enabled_ := s.firewall.enabled_ } s.now saved)).rules_ := by
    rw [← rows_eq]
    rfl
  refine inv.of_step rfl inv.enabled.1 (enabled_calls _ _) ⟨fun ip named => ?_, ?_⟩ ?_
  · rw [rules_eq]
    rcases ruled ip named with ⟨e, member, rfl, rule, made, ends⟩ | ⟨others, same⟩
    · obtain ⟨-, in_force, -⟩ := (reloads.issued e member named).spec inv.positive
      obtain ⟨q, x, last, carries⟩ := reloads.cached e member named
      have found := (cached q).trans last
      exact iff_of_true ⟨rule, made, ends ▸ in_force⟩ ⟨q, x, found, active (stored found), carries⟩
    · rw [same]
      refine iff_of_false ?_ ?_
      · rintro ⟨rule, loaded, lasts⟩
        obtain ⟨member, target⟩ := mem_of_load s.now loaded
        obtain ⟨e, row, carries⟩ := reloads.saved rule member lasts
        exact others e row (carries.trans target)
      · rintro ⟨q, x, found, -, carries⟩
        exact others x (stored found) carries
  · intro ip named rule q x made lasts found alive carries
    rw [rules_eq] at made
    rcases ruled ip named with ⟨e, member, rfl, rule', made', ends⟩ | ⟨others, same⟩
    · cases made'.symm.trans made
      exact ends.trans (reloads.shared e member x (stored found) named carries).symm
    · exact absurd carries (others x (stored found))
  · intro q x found alive named
    exact ((reloads.issued x (stored found) named).spec inv.positive).1

theorem Inv.sweep_expired (inv : Inv s) (keeps : s.Keeps .sweep_expired) :
    Inv (s.step .sweep_expired) := by
  have swept (ip : Bytes) : (s.step .sweep_expired).firewall.rules_.lookup ip =
      if ip ∈ s.firewall.to_remove s.now then none else s.firewall.rules_.lookup ip := by
    simp only [step, FirewallManager.begin_call, FirewallManager.record,
      FirewallManager.sweep_expired, inv.enabled.2, Bool.not_true, Bool.false_eq_true, if_false]
    exact lookup_erase_all _ _ _
  refine inv.of_step rfl inv.enabled.1 rfl (inv.agrees.sweep (fun ip rule kept => ?_)
    fun ip rule ruled lasts => ?_) inv.fits
  · rw [swept] at kept
    split at kept
    · cases kept
    · exact kept
  · rw [swept, if_neg]
    · exact ruled
    · intro removed
      obtain ⟨⟨target, rule'⟩, entry, rfl⟩ := List.mem_map.mp removed
      obtain ⟨member, expired⟩ := List.mem_filter.mp entry
      cases (AList.mem_lookup_iff.mpr member).symm.trans ruled
      obtain ⟨timed, past⟩ := Bool.and_eq_true_iff.mp expired
      have timed : 0 < rule.expires_at := of_decide_eq_true timed
      have past : rule.expires_at ≤ s.system.clock / 1000000000 := of_decide_eq_true past
      have apart := keeps target rule ruled
      have later : s.system.clock ≤ seconds rule.expires_at := by
        unfold FirewallRule.ends at lasts
        rwa [if_neg timed.ne', WithTop.coe_le_coe] at lasts
      unfold seconds at later apart
      omega

theorem Inv.step (inv : Inv s) {event : Event} (keeps : s.Keeps event) : Inv (s.step event) := by
  cases event with
  | ban op saved =>
    cases op with
    | add_ban e now => exact inv.add_ban now saved keeps
    | remove_ban ipid => exact inv.remove_ban ipid saved keeps
    | update_ban ipid field value => exact inv.update_ban ipid field value saved keeps
    | worker =>
      have manager : (s.step (.ban .worker saved)).system.manager = s.system.manager := by
        simp only [BanFirewall.step, BanSystem.step, BanSystem.worker]
        split <;> rfl
      have clock : (s.step (.ban .worker saved)).system.clock = s.system.clock := by
        simp only [BanFirewall.step, BanSystem.step, BanSystem.worker]
        split <;> rfl
      refine inv.of_step clock (by rw [manager]; exact inv.enabled.1) rfl ?_ ?_
      · rw [manager]
        exact inv.agrees
      · rw [manager]
        exact inv.fits
    | wait nanoseconds =>
      have le : s.system.clock ≤ s.system.clock + nanoseconds := by omega
      refine ⟨inv.agrees.later le inv.fits, lt_of_lt_of_le inv.positive le, inv.enabled, ?_⟩
      intro q x found active named
      refine inv.fits q x found ?_ named
      by_contra past
      rw [Bool.not_eq_false] at past
      exact absurd ((BanEntry.is_expired_mono le past).symm.trans active) (by decide)
    | restart => exact inv.restart saved keeps
  | sweep_expired => exact inv.sweep_expired keeps

/-- In a run that begins without bans and rules, over any database, and whose operations make a rule
only for a ban that is permanent or issued in that second, every address that an active ban carries
has a rule that ends with it, and no other address has one. -/
theorem rules_agree {s : BanFirewall} (no_bans : s.system.manager.bans_ = ∅)
    (no_rules : s.firewall.rules_ = ∅) (set : s.system.manager.fw_ = true)
    (enabled : s.firewall.enabled_ = true) (positive : 0 < s.system.clock) {events : List Event}
    (keeps : Throughout BanFirewall.step Keeps s events) : Always BanFirewall.step Agrees s events := by
  have no_ban (q : Bytes) : s.system.manager.bans_.lookup q = none := by rw [no_bans]; rfl
  have no_rule (ip : Bytes) : s.firewall.rules_.lookup ip = none := by rw [no_rules]; rfl
  have agrees : s.Agrees := by
    refine ⟨fun ip _ => iff_of_false ?_ ?_, fun ip _ rule q e ruled => ?_⟩
    · rintro ⟨rule, ruled, -⟩
      cases (no_rule ip).symm.trans ruled
    · rintro ⟨q, e, found, -⟩
      cases (no_ban q).symm.trans found
    · cases (no_rule ip).symm.trans ruled
  have start : Inv s := ⟨agrees, positive, ⟨set, enabled⟩, fun q e found => by
    cases (no_ban q).symm.trans found⟩
  have always : Always BanFirewall.step Inv s events :=
    always_of_throughout (fun _ _ inv here => inv.step here) start keeps
  exact always.mono fun _ inv => inv.agrees

end Proof

def hourBan : BanEntry where
  ipid := bytes "a1"
  ip := bytes "10.0.0.9"
  timestamp := 1000
  duration := 3600

def opened : BanFirewall := { system := { clock := seconds 1000, manager := { db_ := true, fw_ := true } } }

/-- The server restarts when the ban is over. -/
def served : List Event :=
  [.ban (.add_ban hourBan (seconds 1000)), .ban .worker, .ban (.wait 3700000000000), .ban .restart]

theorem served_agrees : Always BanFirewall.step Agrees opened served := by
  have rows : (run BanFirewall.step opened (served.take 3)).system.drain.all_active_bans
      (seconds 1000 + 3700000000000) = [] := by decide +kernel
  have first : Replaces (seconds 1000) (fun _ => none) (bytes "a1") hourBan :=
    ⟨fun _ => by decide +kernel, fun _ => .inr (by decide), fun _ _ _ _ found => (by cases found),
      fun _ found => (by cases found)⟩
  have last : Reloads (seconds 1000 + 3700000000000) [] [] := by constructor <;> simp
  refine rules_agree rfl rfl rfl rfl (by decide) ⟨first, trivial, trivial, ?_, trivial⟩
  rw [← rows] at last
  exact last

/-- The server restarts half an hour into the ban. -/
def halfServed : List Event :=
  [.ban (.add_ban hourBan (seconds 1000)), .ban .worker, .ban (.wait 1800000000000), .ban .restart]

theorem restart_prolongs_rule : ¬ Always BanFirewall.step Agrees opened halfServed := by
  intro always
  have ends : Agrees (run BanFirewall.step opened halfServed) :=
    (always_iff_isPrefix.mp always) halfServed (List.prefix_refl _)
  have same := ends.ends (bytes "10.0.0.9") (by decide)
    ⟨bytes "10.0.0.9", [], 2800, 6400⟩ (bytes "a1") { hourBan with id := 1 } (by decide +kernel)
    (WithTop.coe_le_coe.mpr (by decide)) (by decide +kernel) (by decide) rfl
  exact absurd same (by decide)

end BanFirewall

end AoSdl
