import AoSdl.BanManager
import AoSdl.Lib.Replica
import AoSdl.Lib.Runs

/-! `FirewallManager`: the rules it keeps and the commands a worker gives to the helper that sets the
kernel's blocks. A call records under one lock and enqueues under another; each section is a step.
Every helper command succeeds. The kernel's sets hold addresses; which of them the text of a target
stands for is for `nft` to say. -/
namespace AoSdl
open Lib.Runs

structure FirewallRule where
  target : Bytes
  reason : Bytes
  installed_at : Int
  /-- 0 for a permanent rule. -/
  expires_at : Int
  deriving DecidableEq

/-- The actions of the helper. -/
inductive HelperAction where
  | init
  | add
  | remove
  | add_range
  | remove_range
  | flush

structure HelperCommand where
  action : HelperAction
  target : Bytes := []

/-- The calls that are between their sections hold the commands they have yet to enqueue. -/
structure FirewallManager where
  enabled_ : Bool := true
  rules_ : AList (fun _ : Bytes => FirewallRule) := ∅
  calls : List (List HelperCommand) := []
  exec_queue_ : List HelperCommand := []

/-- The manager, with the addresses blocked in the kernel. -/
structure Firewall (Addr : Type) extends FirewallManager where
  kernel : Addr → Bool := fun _ => false

namespace FirewallManager

/-- One `%d` of `sscanf`. -/
def scan_int (s : Bytes) : Option (Int × Bytes) :=
  let s := s.dropWhile Lib.Decimal.isSpace
  let (negative, s) := match s with
    | 45 :: s => (true, s)
    | 43 :: s => (false, s)
    | s => (false, s)
  let digits := s.takeWhile Lib.Decimal.isDigit
  if digits.isEmpty then none
  else
    let n : Int := Lib.Decimal.value digits
    let n := max (-2 ^ 63) (min (2 ^ 63 - 1) (if negative then -n else n))
    some (wrap32 n, s.dropWhile Lib.Decimal.isDigit)

/-- The numbers of a dotted text that nothing follows. -/
def scan_dotted : Nat → Bytes → Option (List Int)
  | 0, _ => none
  | n + 1, s =>
    match scan_int s with
    | none => none
    | some (a, rest) =>
      match n, rest with
      | 0, [] => some [a]
      | _, 46 :: rest => (scan_dotted n rest).map (a :: ·)
      | _, _ => none

structure Ipv6Groups where
  double_colon_count : Nat := 0
  consecutive_colons : Nat := 0
  groups : Nat := 0

def isxdigit (c : UInt8) : Bool :=
  Lib.Decimal.isDigit c || (97 ≤ c && c ≤ 102) || (65 ≤ c && c ≤ 70)

def Ipv6Groups.step (s : Ipv6Groups) (c : UInt8) : Option Ipv6Groups :=
  if c = 58 then
    let s := { s with consecutive_colons := s.consecutive_colons + 1 }
    let s := if s.consecutive_colons = 2 then
      { s with double_colon_count := s.double_colon_count + 1 } else s
    if 2 < s.consecutive_colons || 1 < s.double_colon_count then none else some s
  else if isxdigit c then
    some { s with
      groups := if 0 < s.consecutive_colons then s.groups + 1 else s.groups
      consecutive_colons := 0 }
  else none

def is_valid_ip (ip : Bytes) : Bool :=
  if ip.isEmpty || 45 < ip.length then false
  else if 46 ∈ ip then
    match scan_dotted 4 (c_str ip) with
    | none => false
    | some octets => octets.all fun a => 0 ≤ a && a ≤ 255
  else if 39 < ip.length then false
  else
    match ip.foldlM Ipv6Groups.step {} with
    | none => false
    | some s =>
      let groups := if ip.getLast? = some 58 then s.groups else s.groups + 1
      58 ∈ ip && !(s.double_colon_count = 0 && groups ≠ 8) && groups ≤ 8

def is_valid_cidr (cidr : Bytes) : Bool :=
  let ip_part := cidr.takeWhile (· ≠ 47)
  let prefix_str := (cidr.dropWhile (· ≠ 47)).tail
  if 47 ∉ cidr || ip_part.isEmpty || prefix_str.isEmpty then false
  else if !is_valid_ip ip_part then false
  else
    match stoi prefix_str with
    | none => false
    | some n => 0 ≤ n && n ≤ if 58 ∈ ip_part then 128 else 32

/-- What a call records, and the commands it enqueues then. -/
structure Recorded where
  rules_ : AList (fun _ : Bytes => FirewallRule)
  commands : List HelperCommand

/-- The blocking calls. The clock is read twice. -/
def block (check : Bytes → Bool) (action : HelperAction) (m : FirewallManager) (now later : Int)
    (target reason : Bytes) (duration_sec : Int) : Recorded :=
  if !m.enabled_ || !check target then ⟨m.rules_, []⟩
  else
    let expires_at := if duration_sec = DURATION_PERMANENT then 0 else wrap64 (later + duration_sec)
    ⟨m.rules_.insert target ⟨target, reason, now, expires_at⟩, [⟨action, target⟩]⟩

def unblock (action : HelperAction) (m : FirewallManager) (target : Bytes) : Recorded :=
  if !m.enabled_ || target ∉ m.rules_ then ⟨m.rules_, []⟩
  else ⟨m.rules_.erase target, [⟨action, target⟩]⟩

def block_ip : FirewallManager → Int → Int → Bytes → Bytes → Int → Recorded := block is_valid_ip .add

def unblock_ip : FirewallManager → Bytes → Recorded := unblock .remove

def block_range : FirewallManager → Int → Int → Bytes → Bytes → Int → Recorded :=
  block is_valid_cidr .add_range

def unblock_range : FirewallManager → Bytes → Recorded := unblock .remove_range

/-- The targets whose rules have expired. -/
def to_remove (m : FirewallManager) (now : Int) : List Bytes :=
  (m.rules_.entries.filter fun e => 0 < e.2.expires_at && e.2.expires_at ≤ now).map (·.1)

def sweep_expired (m : FirewallManager) (now : Int) : Recorded :=
  if !m.enabled_ then ⟨m.rules_, []⟩
  else
    ⟨(m.to_remove now).foldl (fun rules target => rules.erase target) m.rules_,
      (m.to_remove now).map fun target =>
        ⟨if 47 ∈ target then .remove_range else .remove, target⟩⟩

def flush : Recorded := ⟨∅, [⟨.flush, []⟩]⟩

inductive Call where
  | block_ip (now later : Int) (ip reason : Bytes) (duration_sec : Int)
  | unblock_ip (ip : Bytes)
  | block_range (now later : Int) (cidr reason : Bytes) (duration_sec : Int)
  | unblock_range (cidr : Bytes)
  | sweep_expired (now : Int)
  | flush

/-- What a call does in its first section. -/
def record (m : FirewallManager) : Call → Recorded
  | .block_ip now later ip reason duration_sec => m.block_ip now later ip reason duration_sec
  | .unblock_ip ip => m.unblock_ip ip
  | .block_range now later cidr reason duration_sec => m.block_range now later cidr reason duration_sec
  | .unblock_range cidr => m.unblock_range cidr
  | .sweep_expired now => m.sweep_expired now
  | .flush => flush

/-- The first section of a call. -/
def begin_call (m : FirewallManager) (call : Call) : FirewallManager :=
  let recorded := m.record call
  { m with rules_ := recorded.rules_, calls := m.calls ++ [recorded.commands] }

/-- A call enqueues its next command. -/
def enqueue (m : FirewallManager) (i : Nat) : FirewallManager :=
  match m.calls[i]? with
  | some (c :: rest) => { m with calls := m.calls.set i rest, exec_queue_ := m.exec_queue_ ++ [c] }
  | _ => m

/-- The targets that a call takes out of the rules or puts in. -/
def changes (m : FirewallManager) (target : Bytes) : Call → Prop
  | .block_ip _ _ ip _ _ => m.enabled_ ∧ is_valid_ip ip ∧ target = ip ∧ ip ∉ m.rules_
  | .unblock_ip ip => m.enabled_ ∧ target = ip ∧ ip ∈ m.rules_
  | .block_range _ _ cidr _ _ => m.enabled_ ∧ is_valid_cidr cidr ∧ target = cidr ∧ cidr ∉ m.rules_
  | .unblock_range cidr => m.enabled_ ∧ target = cidr ∧ cidr ∈ m.rules_
  | .sweep_expired now => m.enabled_ ∧ target ∈ m.to_remove now
  | .flush => target ∈ m.rules_

end FirewallManager

namespace Firewall

section Kernel

variable {Addr : Type} (covers : Bytes → Addr → Bool)

/-- What a command does to the block of an address. -/
def effect (c : HelperCommand) (a : Addr) : Option Bool :=
  match c.action with
  | .init => none
  | .add | .add_range => if covers c.target a then some true else none
  | .remove | .remove_range => if covers c.target a then some false else none
  | .flush => some false

/-- The worker executes the next command. -/
def exec (m : Firewall Addr) : Firewall Addr :=
  match m.exec_queue_ with
  | [] => m
  | c :: rest => { m with exec_queue_ := rest, kernel := Lib.Replica.apply (effect covers) c m.kernel }

inductive Event where
  | begin_call (call : FirewallManager.Call)
  | enqueue (i : Nat)
  | exec

def step (m : Firewall Addr) : Event → Firewall Addr
  | .begin_call call => { m with toFirewallManager := m.begin_call call }
  | .enqueue i => { m with toFirewallManager := m.enqueue i }
  | .exec => m.exec covers

/-- Whether a rule stands for the address. -/
def blocks (rules_ : AList (fun _ : Bytes => FirewallRule)) (a : Addr) : Bool :=
  rules_.keys.any fun target => covers target a

/-- When all calls are through and the queue is drained, the kernel blocks what has a rule. -/
def Agrees (m : Firewall Addr) : Prop :=
  m.calls.flatten = [] → m.exec_queue_ = [] →
    ∀ a, m.kernel a = true ↔ ∃ target ∈ m.rules_, covers target a = true

/-- No call takes a target out of the rules or puts it in while another call has yet to enqueue a
command about one of its addresses, and none takes one out while a rule that stays stands for one of
them. -/
def Guarded (m : Firewall Addr) : Event → Prop
  | .begin_call call => ∀ target, m.changes target call →
    (∀ c ∈ m.calls.flatten, ∀ a, covers target a = true → effect covers c a = none) ∧
    (target ∈ m.rules_ → ∀ other ∈ m.rules_, ¬ m.changes other call →
      ¬ ∃ a, covers target a = true ∧ covers other a = true)
  | _ => True

end Kernel

section Proof

variable {Addr : Type} {covers : Bytes → Addr → Bool} {m : FirewallManager}

theorem blocks_iff {rules_ : AList (fun _ : Bytes => FirewallRule)} {a : Addr} :
    blocks covers rules_ a = true ↔ ∃ target ∈ rules_, covers target a = true := by
  simp only [blocks, List.any_eq_true, AList.mem_keys]

/-- What the call takes out shares no address with a rule that stays. -/
def Apart (covers : Bytes → Addr → Bool) (m : FirewallManager) (call : FirewallManager.Call) : Prop :=
  ∀ target, m.changes target call → target ∈ m.rules_ → ∀ other ∈ m.rules_, ¬ m.changes other call →
    ¬ ∃ a, covers target a = true ∧ covers other a = true

/-- The commands of a call say what the rules say after it, and tell of every change. -/
structure Sound (covers : Bytes → Addr → Bool) (m : FirewallManager) (call : FirewallManager.Call)
    (recorded : FirewallManager.Recorded) : Prop where
  current : ∀ c ∈ recorded.commands, ∀ a v, effect covers c a = some v → blocks covers recorded.rules_ a = v
  same : ∀ a, (∀ target, m.changes target call → covers target a = false) →
    blocks covers recorded.rules_ a = blocks covers m.rules_ a
  told : ∀ target, m.changes target call → ∀ a, covers target a = true →
    ∃ c ∈ recorded.commands, (effect covers c a).isSome

theorem sound_refused {call : FirewallManager.Call} (calm : ∀ target, ¬ m.changes target call) :
    Sound covers m call ⟨m.rules_, []⟩ :=
  ⟨nofun, fun _ _ => rfl, fun target change => absurd change (calm target)⟩

/-- An address is blocked as before if the same targets stand for it. -/
theorem blocks_congr {rules rules' : AList (fun _ : Bytes => FirewallRule)} {a : Addr}
    (same : ∀ target, covers target a = true → (target ∈ rules' ↔ target ∈ rules)) :
    blocks covers rules' a = blocks covers rules a := by
  rw [Bool.eq_iff_iff, blocks_iff, blocks_iff]
  constructor
  · rintro ⟨target, known, covered⟩
    exact ⟨target, (same target covered).mp known, covered⟩
  · rintro ⟨target, known, covered⟩
    exact ⟨target, (same target covered).mpr known, covered⟩

theorem sound_block {check : Bytes → Bool} {action : HelperAction} {call : FirewallManager.Call}
    {target : Bytes}
    (adds : ∀ a, effect covers ⟨action, target⟩ a = if covers target a then some true else none)
    (changed : ∀ k, m.changes k call ↔ m.enabled_ ∧ check target ∧ k = target ∧ target ∉ m.rules_)
    (now later : Int) (reason : Bytes) (duration_sec : Int) :
    Sound covers m call (FirewallManager.block check action m now later target reason duration_sec) := by
  unfold FirewallManager.block
  by_cases refused : (!m.enabled_ || !check target) = true
  · rw [if_pos refused]
    refine sound_refused fun k change => ?_
    obtain ⟨enabled, valid, -⟩ := (changed k).mp change
    simp [enabled, valid] at refused
  · rw [if_neg refused]
    refine ⟨fun c member a v does => ?_, fun a calm => blocks_congr fun k covered => ?_,
      fun k change a covered => ?_⟩
    · rw [List.mem_singleton.mp member, adds] at does
      split at does
      · next covered =>
        cases does
        exact blocks_iff.mpr ⟨target, AList.mem_insert _ |>.mpr (.inl rfl), covered⟩
      · cases does
    · by_cases here : k = target
      · subst here
        have known : k ∈ m.rules_ := by
          by_contra unknown
          have change : m.changes k call := (changed k).mpr (by simp_all)
          exact absurd covered (Bool.eq_false_iff.mp (calm k change))
        simp [known]
      · simp [AList.mem_insert, here]
    · obtain ⟨_, _, rfl, _⟩ := (changed k).mp change
      exact ⟨_, List.mem_singleton_self _, by rw [adds, if_pos covered]; rfl⟩

theorem sound_unblock {action : HelperAction} {call : FirewallManager.Call} {target : Bytes}
    (removes : ∀ a, effect covers ⟨action, target⟩ a = if covers target a then some false else none)
    (changed : ∀ k, m.changes k call ↔ m.enabled_ ∧ k = target ∧ target ∈ m.rules_)
    (apart : Apart covers m call) :
    Sound covers m call (FirewallManager.unblock action m target) := by
  unfold FirewallManager.unblock
  by_cases refused : (!m.enabled_ || target ∉ m.rules_) = true
  · rw [if_pos refused]
    refine sound_refused fun k change => ?_
    obtain ⟨enabled, -, known⟩ := (changed k).mp change
    simp [enabled, known] at refused
  · rw [if_neg refused]
    have change : m.changes target call := (changed target).mpr (by simp_all)
    have known : target ∈ m.rules_ := ((changed target).mp change).2.2
    refine ⟨fun c member a v does => ?_, fun a calm => blocks_congr fun k covered => ?_,
      fun k change a covered => ?_⟩
    · rw [List.mem_singleton.mp member, removes] at does
      split at does
      · next covered =>
        cases does
        refine Bool.eq_false_iff.mpr fun blocked => ?_
        obtain ⟨other, stays, shared⟩ := blocks_iff.mp blocked
        obtain ⟨differs, inside⟩ := AList.mem_erase.mp stays
        exact apart target change known other inside
          (fun changes => differs ((changed other).mp changes).2.1) ⟨a, covered, shared⟩
      · cases does
    · have other : k ≠ target := by
        rintro rfl
        exact absurd covered (Bool.eq_false_iff.mp (calm k change))
      simp [AList.mem_erase, other]
    · obtain ⟨_, rfl, _⟩ := (changed k).mp change
      exact ⟨_, List.mem_singleton_self _, by rw [removes, if_pos covered]; rfl⟩

theorem mem_erase_all (targets : List Bytes) (rules : AList (fun _ : Bytes => FirewallRule)) (k : Bytes) :
    k ∈ targets.foldl (fun rules target => rules.erase target) rules ↔ k ∈ rules ∧ k ∉ targets := by
  induction targets generalizing rules with
  | nil => simp
  | cons target targets ih =>
    rw [List.foldl_cons, ih, AList.mem_erase, List.mem_cons, not_or]
    constructor
    · rintro ⟨⟨other, known⟩, rest⟩
      exact ⟨known, other, rest⟩
    · rintro ⟨known, other, rest⟩
      exact ⟨⟨other, known⟩, rest⟩

theorem effect_sweep (target : Bytes) (a : Addr) :
    effect covers ⟨if 47 ∈ target then .remove_range else .remove, target⟩ a =
      if covers target a then some false else none := by
  by_cases range : 47 ∈ target
  · rw [if_pos range, effect]
  · rw [if_neg range, effect]

theorem mem_rules_of_expired {now : Int} {target : Bytes} (expired : target ∈ m.to_remove now) :
    target ∈ m.rules_ := by
  obtain ⟨e, member, rfl⟩ := List.mem_map.mp expired
  exact AList.mem_keys.mpr (List.mem_map_of_mem (List.mem_filter.mp member).1)

theorem sound_sweep {now : Int} (apart : Apart covers m (.sweep_expired now)) :
    Sound covers m (.sweep_expired now) (m.sweep_expired now) := by
  unfold FirewallManager.sweep_expired
  by_cases disabled : (!m.enabled_) = true
  · rw [if_pos disabled]
    refine sound_refused fun k change => ?_
    have enabled : m.enabled_ = true := change.1
    simp [enabled] at disabled
  · rw [if_neg disabled]
    have enabled : m.enabled_ = true := by simpa using disabled
    refine ⟨fun c member a v does => ?_, fun a calm => blocks_congr fun k covered => ?_,
      fun k change a covered => ?_⟩
    · obtain ⟨target, expired, rfl⟩ := List.mem_map.mp member
      rw [effect_sweep] at does
      split at does
      · next covered =>
        cases does
        refine Bool.eq_false_iff.mpr fun blocked => ?_
        obtain ⟨other, stays, shared⟩ := blocks_iff.mp blocked
        obtain ⟨inside, current⟩ := (mem_erase_all _ _ _).mp stays
        exact apart target ⟨enabled, expired⟩ (mem_rules_of_expired expired) other inside
          (fun changes => current changes.2) ⟨a, covered, shared⟩
      · cases does
    · rw [mem_erase_all, and_iff_left]
      exact fun expired => absurd covered (Bool.eq_false_iff.mp (calm k ⟨enabled, expired⟩))
    · exact ⟨_, List.mem_map_of_mem change.2, by rw [effect_sweep, if_pos covered]; rfl⟩

theorem blocks_empty (a : Addr) : blocks covers ∅ a = false := rfl

theorem sound_flush : Sound covers m .flush FirewallManager.flush := by
  refine ⟨fun c member a v does => ?_, fun a calm => ?_, fun k _ a _ => ?_⟩
  · rw [List.mem_singleton.mp member] at does
    cases does
    exact blocks_empty a
  · refine (blocks_empty a).trans (Eq.symm (Bool.eq_false_iff.mpr fun blocked => ?_))
    obtain ⟨target, known, covered⟩ := blocks_iff.mp blocked
    exact absurd covered (Bool.eq_false_iff.mp (calm target known))
  · exact ⟨_, List.mem_singleton_self _, rfl⟩

theorem sound_record (m : FirewallManager) {call : FirewallManager.Call} (apart : Apart covers m call) :
    Sound covers m call (m.record call) := by
  cases call with
  | block_ip now later ip reason duration_sec =>
    exact sound_block (fun _ => rfl) (fun _ => Iff.rfl) now later reason duration_sec
  | unblock_ip ip => exact sound_unblock (fun _ => rfl) (fun _ => Iff.rfl) apart
  | block_range now later cidr reason duration_sec =>
    exact sound_block (fun _ => rfl) (fun _ => Iff.rfl) now later reason duration_sec
  | unblock_range cidr => exact sound_unblock (fun _ => rfl) (fun _ => Iff.rfl) apart
  | sweep_expired now => exact sound_sweep apart
  | flush => exact sound_flush

/-- One call among several takes its next command. -/
theorem calls_split {calls : List (List HelperCommand)} {i : Nat} {c : HelperCommand}
    {rest : List HelperCommand} (next : calls[i]? = some (c :: rest)) :
    ∃ front back, calls = front ++ (c :: rest) :: back ∧ calls.set i rest = front ++ rest :: back := by
  obtain ⟨inside, here⟩ := List.getElem?_eq_some_iff.mp next
  refine ⟨calls.take i, calls.drop (i + 1), ?_, ?_⟩
  · rw [← here, List.getElem_cons_drop, List.take_append_drop]
  · rw [List.set_eq_take_append_cons_drop, if_pos inside]

/-- The kernel follows the rules. -/
def Tracked (covers : Bytes → Addr → Bool) (m : Firewall Addr) : Prop :=
  Lib.Replica.Tracks (effect covers) (blocks covers m.rules_) m.calls.flatten m.exec_queue_ m.kernel

variable {m : Firewall Addr}

theorem Tracked.begin_call (tracked : Tracked covers m) {call : FirewallManager.Call}
    (guarded : m.Guarded covers (.begin_call call)) : Tracked covers (m.step covers (.begin_call call)) := by
  have sound : Sound covers m.toFirewallManager call (m.record call) :=
    sound_record m.toFirewallManager fun target change => (guarded target change).2
  have held : (m.calls ++ [(m.record call).commands]).flatten =
      m.calls.flatten ++ (m.record call).commands := by simp
  have unchanged {a : Addr} (untouched : ∀ target, m.changes target call → ¬ covers target a = true) :
      blocks covers (m.record call).rules_ a = blocks covers m.rules_ a :=
    sound.same a fun target change => Bool.eq_false_iff.mpr (untouched target change)
  unfold Tracked step FirewallManager.begin_call
  dsimp only
  rw [held]
  refine Lib.Replica.Tracks.record tracked (fun c => List.mem_append_left _) (fun c member => ?_)
    (fun a => ?_) (fun c member a touches => ?_)
  · exact (List.mem_append.mp member).imp_right (sound.current c)
  · by_cases change : ∃ target, m.changes target call ∧ covers target a = true
    · obtain ⟨target, change, covered⟩ := change
      obtain ⟨c, member, touches⟩ := sound.told target change a covered
      exact .inr ⟨c, List.mem_append_right _ member, touches⟩
    · exact .inl (unchanged fun target changes covered => change ⟨target, changes, covered⟩)
  · refine unchanged fun target change covered => ?_
    rw [(guarded target change).1 c member a covered] at touches
    cases touches

theorem Tracked.enqueue (tracked : Tracked covers m) (i : Nat) :
    Tracked covers (m.step covers (.enqueue i)) := by
  unfold step FirewallManager.enqueue
  dsimp only
  split
  · next c rest next =>
    obtain ⟨front, back, before, after⟩ := calls_split next
    unfold Tracked
    dsimp only
    rw [after]
    have held : m.calls.flatten = front.flatten ++ c :: (rest ++ back.flatten) := by
      rw [before]
      simp
    have left : (front ++ rest :: back).flatten = front.flatten ++ (rest ++ back.flatten) := by simp
    rw [left]
    apply Lib.Replica.Tracks.send tracked
    · rw [held]
      exact List.mem_append_right _ List.mem_cons_self
    · intro d member
      rw [held, List.mem_append, List.mem_cons]
      exact (List.mem_append.mp member).imp_right .inr
    · intro d member
      rw [held, List.mem_append, List.mem_cons] at member
      rw [List.mem_append]
      tauto
  · exact tracked

theorem Tracked.exec (tracked : Tracked covers m) : Tracked covers (m.exec covers) := by
  unfold Firewall.exec
  split
  · exact tracked
  · next c rest queue =>
    unfold Tracked at tracked ⊢
    rw [queue] at tracked
    exact tracked.execute

theorem Tracked.step (tracked : Tracked covers m) {e : Event} (guarded : m.Guarded covers e) :
    Tracked covers (m.step covers e) := by
  cases e with
  | begin_call call => exact tracked.begin_call guarded
  | enqueue i => exact tracked.enqueue i
  | exec => exact tracked.exec

theorem Tracked.agrees (tracked : Tracked covers m) : m.Agrees covers := by
  intro through drained a
  unfold Tracked at tracked
  rw [through, drained] at tracked
  rw [tracked.drained]
  exact blocks_iff

/-- Whatever addresses the targets stand for: in a run where no call overtakes another one on an address
and none takes out a rule whose addresses another rule keeps, the kernel blocks what has a rule whenever
all calls are through and the queue is drained. -/
theorem kernel_agrees (covers : Bytes → Addr → Bool) (enabled : Bool) {events : List Event}
    (guarded : Throughout (Firewall.step covers) (Guarded covers) { enabled_ := enabled } events) :
    Always (Firewall.step covers) (Agrees covers) { enabled_ := enabled } events := by
  have start : Tracked covers { enabled_ := enabled } := Lib.Replica.tracks_self fun _ => false
  have always : Always (Firewall.step covers) (Tracked covers) { enabled_ := enabled } events :=
    always_of_throughout (fun _ _ tracked here => tracked.step here) start guarded
  exact always.mono fun _ tracked => tracked.agrees

/-- An address by its octets. -/
def dotted (target : Bytes) (octets : List Int) : Bool := FirewallManager.scan_dotted 4 target = some octets

/-- A block and an unblock of one address that enqueue in the other order. -/
def crossed : List Event :=
  [.begin_call (.block_ip 5 5 (bytes "1.2.3.4") (bytes "spam") (-2)),
    .begin_call (.unblock_ip (bytes "1.2.3.4")), .enqueue 1, .enqueue 0, .exec, .exec]

theorem crossed_leaves_block :
    ¬ Agrees dotted (run (Firewall.step dotted) ({} : Firewall (List Int)) crossed) := by
  intro agrees
  obtain ⟨target, known, _⟩ := (agrees (by decide) (by decide) [1, 2, 3, 4]).mp (by decide)
  have none_left : (run (Firewall.step dotted) ({} : Firewall (List Int)) crossed).rules_.keys = [] := by
    decide
  rw [AList.mem_keys, none_left] at known
  cases known

/-- The same calls one after the other. -/
def serial : List Event :=
  [.begin_call (.block_ip 5 5 (bytes "1.2.3.4") (bytes "spam") (-2)), .enqueue 0,
    .begin_call (.unblock_ip (bytes "1.2.3.4")), .enqueue 1, .exec, .exec]

theorem serial_agrees : Always (Firewall.step dotted) (Agrees dotted) {} serial := by
  refine kernel_agrees dotted true ⟨fun target _ => ⟨fun c member => ?_, fun known => ?_⟩, trivial,
    fun target change => ⟨fun c member => ?_, fun _ other known stays => ?_⟩, trivial, trivial, trivial,
    trivial⟩
  · cases member
  · exact absurd known (AList.notMem_empty target)
  · have none_held : c ∈ ([] : List HelperCommand) := member
    cases none_held
  · -- the one rule is the one that goes
    have only : other = bytes "1.2.3.4" := by
      have listed : other ∈ [bytes "1.2.3.4"] := AList.mem_keys.mp known
      exact List.mem_singleton.mp listed
    exact absurd ⟨rfl, only, only ▸ known⟩ stays

end Proof

end Firewall

end AoSdl
