import AoSdl.Lib.Entries
import AoSdl.Lib.Runs
import AoSdl.Text
import Mathlib.Data.List.Dedup

/-! `SpamDetector`: messages of one text are gathered in a cluster that is anchored at its first
message and raises one alert. Times are milliseconds of the steady clock. `std::hash` is a
parameter; the ring buffers and counters that nothing reads are left out. -/
namespace AoSdl
open Lib.Entries Lib.Runs

structure SpamVerdict where
  is_spam : Bool := false
  heuristic : Bytes := []
  detail : Bytes := []
  /-- IPIDs with their addresses. -/
  participants : List (Bytes × Bytes) := []

structure SpamDetectorConfig where
  enabled : Bool := true
  echo_threshold : Int := 3
  echo_window_seconds : Int := 60
  join_spam_max_seconds : Int := 5

/-- The set of IPIDs is listed without repetition. -/
structure FingerprintCluster where
  unique_ipids : List Bytes := []
  /-- 0 before the first message. -/
  first_seen : Int := 0
  last_seen : Int := 0
  alerted : Bool := false

/-- The cluster with one more message. -/
def FingerprintCluster.join (cluster : FingerprintCluster) (now : Int) (ipid : Bytes) :
    FingerprintCluster :=
  { cluster with
    unique_ipids := if ipid ∈ cluster.unique_ipids then cluster.unique_ipids
      else cluster.unique_ipids ++ [ipid]
    first_seen := if cluster.first_seen = 0 then now else cluster.first_seen
    last_seen := now }

structure SpamDetector where
  config_ : SpamDetectorConfig := {}
  ipid_to_ip_ : AList (fun _ : Bytes => Bytes) := ∅
  fingerprint_clusters_ : AList (fun _ : BitVec 64 => FingerprintCluster) := ∅
  join_times_ : AList (fun _ : Bytes => Int) := ∅

namespace SpamDetector

structure Normalizer where
  normalized : Bytes := []
  last_was_space : Bool := true

def Normalizer.step (s : Normalizer) (c : UInt8) : Normalizer :=
  if Lib.Decimal.isSpace c then
    if s.last_was_space then s else ⟨s.normalized ++ [32], true⟩
  else ⟨s.normalized ++ [tolower c], false⟩

/-- The text that is hashed. -/
def normalize (message : Bytes) : Bytes :=
  let normalized := (message.foldl Normalizer.step {}).normalized
  if normalized.getLast? = some 32 then normalized.dropLast else normalized

variable (strHash : Bytes → BitVec 64)

def fingerprint (message : Bytes) : BitVec 64 := strHash (normalize message)

def window_ms (seconds : Int) : Int := wrap32 (seconds * 1000)

/-- The participants whose addresses are known. -/
def participants (d : SpamDetector) (cluster : FingerprintCluster) : List (Bytes × Bytes) :=
  cluster.unique_ipids.filterMap fun pid =>
    ((d.ipid_to_ip_.lookup pid).filter fun ip => !ip.isEmpty).map fun ip => (pid, ip)

/-- H1. -/
def echo (d : SpamDetector) (now : Int) (cluster : FingerprintCluster) : Option SpamVerdict :=
  let in_window := now - cluster.first_seen ≤ window_ms d.config_.echo_window_seconds
  let unique_count := intOfSize cluster.unique_ipids.length
  if in_window ∧ d.config_.echo_threshold ≤ unique_count ∧ !cluster.alerted then
    some {
      is_spam := true
      heuristic := bytes "echo"
      detail := bytes "Same message from " ++ to_string unique_count ++
        bytes " distinct IPs within " ++ to_string d.config_.echo_window_seconds ++ bytes "s"
      participants := d.participants cluster }
  else none

/-- A client that sent its message soon after it joined. -/
def fast_joiner (d : SpamDetector) (time : Int) (ipid : Bytes) : Bool :=
  (d.join_times_.lookup ipid).any fun joined =>
    time - joined < window_ms d.config_.join_spam_max_seconds

/-- H3. -/
def join_spam (d : SpamDetector) (now : Int) (ipid : Bytes) (cluster : FingerprintCluster) :
    Option SpamVerdict :=
  if d.fast_joiner now ipid then
    let fast_joiners := intOfSize (cluster.unique_ipids.countP (d.fast_joiner cluster.last_seen))
    if d.config_.echo_threshold ≤ fast_joiners ∧ !cluster.alerted then
      some {
        is_spam := true
        heuristic := bytes "join_spam"
        detail := to_string fast_joiners ++ bytes " IPs sent same message within " ++
          to_string d.config_.join_spam_max_seconds ++ bytes "s of joining"
        participants := d.participants cluster }
    else none
  else none

/-- The address of an IPID, if it is told. -/
def note_ip (d : SpamDetector) (ipid ip : Bytes) : SpamDetector :=
  if ip.isEmpty then d else { d with ipid_to_ip_ := d.ipid_to_ip_.insert ipid ip }

def check_message (d : SpamDetector) (now : Int) (ipid ip message : Bytes) :
    SpamVerdict × SpamDetector :=
  if !d.config_.enabled then ({}, d)
  else
    let fp := fingerprint strHash message
    let d := d.note_ip ipid ip
    let cluster := ((d.fingerprint_clusters_.lookup fp).getD {}).join now ipid
    let verdict := (d.echo now cluster).or (d.join_spam now ipid cluster)
    let cluster := { cluster with alerted := cluster.alerted || verdict.isSome }
    (verdict.getD {}, { d with fingerprint_clusters_ := d.fingerprint_clusters_.insert fp cluster })

def record_join_time (d : SpamDetector) (now : Int) (ipid : Bytes) : SpamDetector :=
  { d with join_times_ := d.join_times_.insert ipid now }

def sweep (d : SpamDetector) (now : Int) : SpamDetector :=
  let echo_cutoff := now - window_ms d.config_.echo_window_seconds
  let join_cutoff := now - 300000
  { d with
    fingerprint_clusters_ := keep (fun _ cluster => !(cluster.last_seen < echo_cutoff))
      d.fingerprint_clusters_
    join_times_ := keep (fun _ joined => !(joined < join_cutoff)) d.join_times_ }

/-- A message that was checked, by its text. -/
structure Sent where
  time : Int
  ipid : Bytes
  text : Bytes
  deriving DecidableEq

/-- The detector, and its messages and verdicts so far, the latest first. -/
structure Watch where
  detector : SpamDetector := {}
  sent : List Sent := []
  raised : List Sent := []

inductive Event where
  | check_message (ipid ip message : Bytes)
  | record_join_time (ipid : Bytes)
  | sweep

def watch (w : Watch) (e : Int × Event) : Watch :=
  match e.2 with
  | .check_message ipid ip message =>
    let (verdict, detector) := w.detector.check_message strHash e.1 ipid ip message
    let sent : Sent := ⟨e.1, ipid, normalize message⟩
    ⟨detector, sent :: w.sent, if verdict.is_spam then sent :: w.raised else w.raised⟩
  | .record_join_time ipid => { w with detector := w.detector.record_join_time e.1 ipid }
  | .sweep => { w with detector := w.detector.sweep e.1 }

/-- The IPIDs that sent the text since a time. -/
def senders (sent : List Sent) (text : Bytes) (since : Int) : List Bytes :=
  ((sent.filter fun m => m.text = text && since ≤ m.time).map (·.ipid)).dedup

/-- When the last message made it enough IPIDs that sent its text within the window, a verdict was
raised for the text within the window. -/
def Complete (threshold window : Int) (w : Watch) : Prop :=
  match w.sent with
  | [] => True
  | m :: _ => threshold ≤ (senders w.sent m.text (m.time - window)).length →
    ∃ v ∈ w.raised, v.text = m.text ∧ m.time - window ≤ v.time

/-- The cluster that a message gets into is new, or its first message is still within the window; no
other text has the hash. -/
def Guarded (window : Int) (w : Watch) (e : Int × Event) : Prop :=
  match e.2 with
  | .check_message _ _ message =>
    (∀ cluster ∈ w.detector.fingerprint_clusters_.lookup (fingerprint strHash message),
      e.1 - cluster.first_seen ≤ window) ∧
    ∀ m ∈ w.sent, strHash m.text = fingerprint strHash message → m.text = normalize message
  | _ => True

instance (window : Int) (w : Watch) : (e : Int × Event) → Decidable (Guarded strHash window w e)
  | (time, .check_message _ _ message) => inferInstanceAs (Decidable
    ((∀ cluster ∈ w.detector.fingerprint_clusters_.lookup (fingerprint strHash message),
      time - cluster.first_seen ≤ window) ∧
    ∀ m ∈ w.sent, strHash m.text = fingerprint strHash message → m.text = normalize message))
  | (_, .record_join_time _) | (_, .sweep) => inferInstanceAs (Decidable True)

/-- A cluster has the messages of its text that are still in the window, and has raised its alert if it
has enough senders. -/
structure Holds (threshold window now : Int) (w : Watch) (fp : BitVec 64) (cluster : FingerprintCluster) :
    Prop where
  nodup : cluster.unique_ipids.Nodup
  started : 0 < cluster.first_seen ∧ cluster.first_seen ≤ now
  sent : ∀ m ∈ w.sent, strHash m.text = fp →
    (m.ipid ∈ cluster.unique_ipids ∧ m.time ≤ cluster.last_seen) ∨ m.time < now - window
  quiet : cluster.alerted = false → (cluster.unique_ipids.length : Int) < threshold
  raised : cluster.alerted = true → ∃ v ∈ w.raised, strHash v.text = fp ∧ cluster.first_seen ≤ v.time

/-- What the detector knows of a hash. -/
def Known (threshold window now : Int) (w : Watch) (fp : BitVec 64) : Option FingerprintCluster → Prop
  | none => ∀ m ∈ w.sent, strHash m.text = fp → m.time < now - window
  | some cluster => Holds strHash threshold window now w fp cluster

/-- The configuration has the threshold and the window. -/
structure Configured (threshold window : Int) (config : SpamDetectorConfig) : Prop where
  enabled : config.enabled = true
  threshold : config.echo_threshold = threshold
  window : window_ms config.echo_window_seconds = window

structure Inv (threshold window now : Int) (w : Watch) : Prop where
  configured : Configured threshold window w.detector.config_
  known : ∀ fp, Known strHash threshold window now w fp (w.detector.fingerprint_clusters_.lookup fp)
  past : ∀ m ∈ w.sent, m.time ≤ now
  raised_sent : ∀ v ∈ w.raised, v ∈ w.sent
  complete : Complete threshold window w

section Proof

variable {strHash} {threshold window now later : Int} {w : Watch} {fp : BitVec 64}
  {cluster : FingerprintCluster}

theorem Inv.mono (inv : Inv strHash threshold window now w) (le : now ≤ later) :
    Inv strHash threshold window later w := by
  refine ⟨inv.configured, fun fp => ?_, fun m member => (inv.past m member).trans le, inv.raised_sent,
    inv.complete⟩
  have known := inv.known fp
  cases found : w.detector.fingerprint_clusters_.lookup fp with
  | none =>
    rw [found] at known
    intro m member same
    have := known m member same
    omega
  | some cluster =>
    rw [found] at known
    refine ⟨known.nodup, ⟨known.started.1, known.started.2.trans le⟩, fun m member same => ?_,
      known.quiet, known.raised⟩
    exact (known.sent m member same).imp_right fun old => by omega

theorem Known.of_same {found : Option FingerprintCluster} {w' : Watch} (sent : w'.sent = w.sent)
    (raised : w'.raised = w.raised) (known : Known strHash threshold window now w fp found) :
    Known strHash threshold window now w' fp found := by
  cases found with
  | none =>
    unfold Known
    rw [sent]
    exact known
  | some cluster =>
    obtain ⟨nodup, started, members, quiet, alerts⟩ := known
    exact ⟨nodup, started, sent ▸ members, quiet, raised ▸ alerts⟩

theorem mem_join (now : Int) (ipid q : Bytes) :
    q ∈ (cluster.join now ipid).unique_ipids ↔ q ∈ cluster.unique_ipids ∨ q = ipid := by
  unfold FingerprintCluster.join
  dsimp only
  split
  · next known => exact ⟨.inl, fun either => either.elim id fun same => same ▸ known⟩
  · rw [List.mem_append, List.mem_singleton]

theorem nodup_join (nodup : cluster.unique_ipids.Nodup) (now : Int) (ipid : Bytes) :
    (cluster.join now ipid).unique_ipids.Nodup := by
  unfold FingerprintCluster.join
  dsimp only
  split
  · exact nodup
  · next unknown =>
    refine List.nodup_append.mpr ⟨nodup, List.nodup_singleton _, fun a old b new => ?_⟩
    rintro rfl
    exact unknown (List.mem_singleton.mp new ▸ old)

theorem length_join_le (now : Int) (ipid : Bytes) :
    (cluster.join now ipid).unique_ipids.length ≤ cluster.unique_ipids.length + 1 := by
  unfold FingerprintCluster.join
  dsimp only
  split
  · exact Nat.le_succ _
  · simp

/-- Enough senders within the window of the first message raise an alert. -/
theorem echo_of_enough {d : SpamDetector} (configured : Configured threshold window d.config_)
    (quiet : cluster.alerted = false) (in_window : now - cluster.first_seen ≤ window)
    (enough : threshold ≤ cluster.unique_ipids.length) (few : cluster.unique_ipids.length < 2 ^ 31) :
    (d.echo now cluster).isSome = true := by
  have count : intOfSize cluster.unique_ipids.length = cluster.unique_ipids.length :=
    Int.bmod_eq_of_le (by omega) (by omega)
  have fires : now - cluster.first_seen ≤ window_ms d.config_.echo_window_seconds ∧
      d.config_.echo_threshold ≤ intOfSize cluster.unique_ipids.length ∧ (!cluster.alerted) = true := by
    rw [configured.window, configured.threshold, count, quiet]
    exact ⟨in_window, enough, rfl⟩
  rw [echo, if_pos fires]
  rfl

theorem note_ip_frame (d : SpamDetector) (ipid ip : Bytes) :
    (d.note_ip ipid ip).config_ = d.config_ ∧
      (d.note_ip ipid ip).fingerprint_clusters_ = d.fingerprint_clusters_ := by
  unfold note_ip
  split <;> exact ⟨rfl, rfl⟩

theorem is_spam_getD {d : SpamDetector} {ipid : Bytes} :
    (((d.echo now cluster).or (d.join_spam now ipid cluster)).getD {}).is_spam =
      ((d.echo now cluster).or (d.join_spam now ipid cluster)).isSome := by
  unfold echo join_spam
  dsimp only
  split
  · rfl
  · split
    · split <;> rfl
    · rfl

variable (strHash) in
/-- A cluster that a message has just joined. -/
structure Joined (threshold window now : Int) (w : Watch) (fp : BitVec 64) (cluster : FingerprintCluster) :
    Prop where
  nodup : cluster.unique_ipids.Nodup
  started : 0 < cluster.first_seen ∧ cluster.first_seen ≤ now
  in_window : now - cluster.first_seen ≤ window
  last_seen : cluster.last_seen = now
  sent : ∀ m ∈ w.sent, strHash m.text = fp → m.ipid ∈ cluster.unique_ipids ∨ m.time < now - window
  quiet : cluster.alerted = false → (cluster.unique_ipids.length : Int) ≤ threshold
  raised : cluster.alerted = true → ∃ v ∈ w.raised, strHash v.text = fp ∧ cluster.first_seen ≤ v.time

theorem joined_of_known {found : Option FingerprintCluster}
    (known : Known strHash threshold window now w fp found) (positive : 0 < now) (wide : 0 ≤ window)
    (some_sender : 1 ≤ threshold) (anchored : ∀ cluster, found = some cluster →
      now - cluster.first_seen ≤ window) (ipid : Bytes) :
    Joined strHash threshold window now w fp ((found.getD {}).join now ipid) := by
  have longer : ((found.getD {}).join now ipid).unique_ipids.length ≤
      (found.getD {}).unique_ipids.length + 1 := length_join_le now ipid
  cases found with
  | none =>
    have short : ((none : Option FingerprintCluster).getD {}).unique_ipids.length = 0 := rfl
    refine ⟨nodup_join List.nodup_nil now ipid, ⟨positive, le_refl now⟩, ?_, rfl,
      fun m member same => .inr (known m member same), fun _ => by omega, nofun⟩
    show now - now ≤ window
    omega
  | some cluster =>
    have started := known.started
    have first : (cluster.join now ipid).first_seen = cluster.first_seen := if_neg started.1.ne'
    refine ⟨nodup_join known.nodup now ipid, by simpa only [Option.getD_some, first] using started, ?_,
      rfl, fun m member same => ?_, fun quiet => ?_, fun alerted => ?_⟩
    · simpa only [Option.getD_some, first] using anchored cluster rfl
    · exact (known.sent m member same).imp_left fun inside => (mem_join now ipid _).mpr (.inl inside.1)
    · have few := known.quiet quiet
      simp only [Option.getD_some] at longer ⊢
      omega
    · simpa only [Option.getD_some, first] using known.raised alerted

/-- In a cluster with enough senders the alert is raised, now or before. -/
theorem Joined.alert {ipid : Bytes} {d : SpamDetector}
    (joined : Joined strHash threshold window now w fp cluster)
    (configured : Configured threshold window d.config_) (int : threshold < 2 ^ 31)
    (enough : threshold ≤ cluster.unique_ipids.length) :
    (cluster.alerted || ((d.echo now cluster).or (d.join_spam now ipid cluster)).isSome) = true := by
  cases alerted : cluster.alerted with
  | true => rfl
  | false =>
    have few := joined.quiet alerted
    have fires := echo_of_enough configured alerted joined.in_window enough (by omega)
    rw [Bool.false_or, Option.isSome_or, fires, Bool.true_or]

theorem Known.beside {found : Option FingerprintCluster}
    (known : Known strHash threshold window now w fp found) {after : Watch} {latest : Sent}
    (sent : after.sent = latest :: w.sent) (apart : strHash latest.text ≠ fp)
    (grown : w.raised ⊆ after.raised) : Known strHash threshold window now after fp found := by
  have old {m : Sent} (member : m ∈ after.sent) (same : strHash m.text = fp) : m ∈ w.sent := by
    rw [sent] at member
    rcases List.mem_cons.mp member with rfl | old
    · exact absurd same apart
    · exact old
  cases found with
  | none => exact fun m member same => known m (old member same) same
  | some cluster =>
    refine ⟨known.nodup, known.started, fun m member same => known.sent m (old member same) same,
      known.quiet, fun alert => ?_⟩
    obtain ⟨v, member, same, later⟩ := known.raised alert
    exact ⟨v, grown member, same, later⟩

theorem senders_length_le {sent : List Sent} {text : Bytes} {since : Int} {ipids : List Bytes}
    (each : ∀ m ∈ sent, m.text = text → since ≤ m.time → m.ipid ∈ ipids) :
    (senders sent text since).length ≤ ipids.length := by
  refine (List.subperm_of_subset (List.nodup_dedup _) fun q member => ?_).length_le
  obtain ⟨m, kept, rfl⟩ := List.mem_map.mp (List.mem_dedup.mp member)
  obtain ⟨member, same⟩ := List.mem_filter.mp kept
  simp only [Bool.and_eq_true, decide_eq_true_eq] at same
  exact each m member same.1 same.2

theorem Inv.check_message (inv : Inv strHash threshold window now w) (positive : 0 < now)
    (wide : 0 ≤ window) (some_sender : 1 ≤ threshold) (int : threshold < 2 ^ 31)
    (ipid ip message : Bytes) (guarded : Guarded strHash window w (now, .check_message ipid ip message)) :
    Inv strHash threshold window now (watch strHash w (now, .check_message ipid ip message)) := by
  obtain ⟨anchored, apart⟩ := guarded
  let noted := w.detector.note_ip ipid ip
  let fp := fingerprint strHash message
  let sent : Sent := ⟨now, ipid, normalize message⟩
  let cluster := ((w.detector.fingerprint_clusters_.lookup fp).getD {}).join now ipid
  let verdict := (noted.echo now cluster).or (noted.join_spam now ipid cluster)
  let alerted := cluster.alerted || verdict.isSome
  have noted_same := note_ip_frame w.detector ipid ip
  have configured : Configured threshold window noted.config_ := by
    rw [noted_same.1]
    exact inv.configured
  have result : watch strHash w (now, .check_message ipid ip message) =
      ⟨{ noted with fingerprint_clusters_ :=
          noted.fingerprint_clusters_.insert fp { cluster with alerted } },
        sent :: w.sent, if verdict.isSome then sent :: w.raised else w.raised⟩ := by
    simp only [watch, SpamDetector.check_message, inv.configured.enabled, Bool.not_true,
      Bool.false_eq_true, if_false, is_spam_getD]
    rw [noted_same.2]
  have joined : Joined strHash threshold window now w fp cluster :=
    joined_of_known (inv.known fp) positive wide some_sender anchored ipid
  have mine : strHash sent.text = fp := rfl
  have grown : w.raised ⊆ if verdict.isSome then sent :: w.raised else w.raised := by
    split
    · exact List.subset_cons_self sent _
    · exact List.Subset.refl _
  have raised_sent : ∀ v ∈ (if verdict.isSome then sent :: w.raised else w.raised), v ∈ sent :: w.sent := by
    intro v member
    split at member
    · exact (List.mem_cons.mp member).elim (fun same => same ▸ List.mem_cons_self)
        fun old => List.mem_cons_of_mem sent (inv.raised_sent v old)
    · exact List.mem_cons_of_mem sent (inv.raised_sent v member)
  have members : ∀ m ∈ sent :: w.sent, strHash m.text = fp →
      m.ipid ∈ cluster.unique_ipids ∨ m.time < now - window := by
    intro m member same
    rcases List.mem_cons.mp member with rfl | old
    · exact .inl ((mem_join now ipid _).mpr (.inr rfl))
    · exact joined.sent m old same
  have past : ∀ m ∈ sent :: w.sent, m.time ≤ now :=
    List.forall_mem_cons.mpr ⟨le_refl now, inv.past⟩
  have raised : alerted = true → ∃ v ∈ (if verdict.isSome then sent :: w.raised else w.raised),
      strHash v.text = fp ∧ cluster.first_seen ≤ v.time := by
    intro alert
    rcases Bool.or_eq_true_iff.mp alert with before | now_raised
    · obtain ⟨v, member, same, later⟩ := joined.raised before
      exact ⟨v, grown member, same, later⟩
    · rw [if_pos now_raised]
      exact ⟨sent, List.mem_cons_self, rfl, joined.started.2⟩
  have enough (many : threshold ≤ cluster.unique_ipids.length) : alerted = true :=
    joined.alert configured int many
  rw [result]
  refine ⟨configured, fun q => ?_, past, raised_sent, fun many => ?_⟩
  · by_cases here : q = fp
    · subst here
      rw [AList.lookup_insert]
      refine ⟨joined.nodup, joined.started, fun m member same => ?_, fun quiet => ?_, raised⟩
      · exact (members m member same).imp_left fun inside =>
          ⟨inside, joined.last_seen.symm ▸ past m member⟩
      · by_contra many
        exact Bool.false_ne_true (quiet.symm.trans (enough (not_lt.mp many)))
    · rw [AList.lookup_insert_ne here, noted_same.2]
      exact (inv.known q).beside rfl (fun same => here (same.symm.trans mine)) grown
  · -- the senders within the window are in the cluster
    have fewer : (senders (sent :: w.sent) sent.text (sent.time - window)).length ≤
        cluster.unique_ipids.length := senders_length_le fun m member same recent =>
      (members m member (by rw [same, mine])).resolve_right (not_lt.mpr recent)
    obtain ⟨v, member, same, later⟩ := raised (enough (le_trans many (by exact_mod_cast fewer)))
    refine ⟨v, member, ?_, ?_⟩
    · rcases List.mem_cons.mp (raised_sent v member) with rfl | old
      · rfl
      · exact apart v old same
    · have in_window := joined.in_window
      show now - window ≤ v.time
      omega

theorem Inv.sweep (inv : Inv strHash threshold window now w) :
    Inv strHash threshold window now (watch strHash w (now, .sweep)) := by
  refine ⟨inv.configured, fun fp => ?_, inv.past, inv.raised_sent, inv.complete⟩
  have known := inv.known fp
  have swept : (watch strHash w (now, .sweep)).detector.fingerprint_clusters_.lookup fp =
      (w.detector.fingerprint_clusters_.lookup fp).filter
        fun cluster => !(cluster.last_seen < now - window) := by
    rw [← inv.configured.window]
    exact lookup_keep _ _ _
  rw [swept]
  refine Known.of_same (w := w) rfl rfl ?_
  cases found : w.detector.fingerprint_clusters_.lookup fp with
  | none =>
    rw [found] at known
    exact known
  | some cluster =>
    rw [found] at known
    by_cases old : cluster.last_seen < now - window
    · have gone : (some cluster).filter (fun cluster => !(cluster.last_seen < now - window)) = none :=
        Option.filter_some_neg (by simpa using old)
      rw [gone]
      intro m member same
      rcases known.sent m member same with ⟨-, before⟩ | before
      · exact lt_of_le_of_lt before old
      · exact before
    · have stays : (some cluster).filter (fun cluster => !(cluster.last_seen < now - window)) =
          some cluster := Option.filter_some_pos (by simpa using old)
      rw [stays]
      exact known

theorem Inv.step (inv : Inv strHash threshold window now w) (positive : 0 < now) (wide : 0 ≤ window)
    (some_sender : 1 ≤ threshold) (int : threshold < 2 ^ 31) (e : Event)
    (guarded : Guarded strHash window w (now, e)) :
    Inv strHash threshold window now (watch strHash w (now, e)) := by
  cases e with
  | check_message ipid ip message =>
    exact inv.check_message positive wide some_sender int ipid ip message guarded
  | record_join_time ipid =>
    refine ⟨inv.configured, fun fp => ?_, inv.past, inv.raised_sent, inv.complete⟩
    exact Known.of_same (w := w) rfl rfl (inv.known fp)
  | sweep => exact inv.sweep

theorem Inv.run (inv : Inv strHash threshold window now w) (positive : 0 < now) (wide : 0 ≤ window)
    (some_sender : 1 ≤ threshold) (int : threshold < 2 ^ 31) {events : List (Int × Event)}
    (ordered : events.Pairwise fun e f => e.1 ≤ f.1) (late : ∀ e ∈ events, now ≤ e.1)
    (guarded : Throughout (watch strHash) (Guarded strHash window) w events) :
    Always (watch strHash) (Complete threshold window) w events := by
  refine always_timed (I := fun now w => 0 < now ∧ Inv strHash threshold window now w)
    (fun now w ⟨_, inv⟩ => inv.complete) ?_ ⟨positive, inv⟩ ordered late guarded
  rintro now w time event ⟨positive, inv⟩ le meets
  have after := lt_of_lt_of_le positive le
  exact ⟨after, (inv.mono le).step after wide some_sender int event meets⟩

/-- In a run in which a text is repeated only within the window of its cluster's first message, or
behind a sweep that dropped the cluster, enough senders of a text within the window never go
unnoticed. -/
theorem echo_complete (strHash : Bytes → BitVec 64) {d : SpamDetector} (enabled : d.config_.enabled = true)
    (unused : d.fingerprint_clusters_ = ∅) (some_sender : 1 ≤ d.config_.echo_threshold)
    (int : d.config_.echo_threshold < 2 ^ 31) (wide : 0 ≤ d.config_.echo_window_seconds)
    (fits : d.config_.echo_window_seconds * 1000 < 2 ^ 31) {events : List (Int × Event)}
    (ordered : events.Pairwise fun e f => e.1 ≤ f.1) (positive : ∀ e ∈ events, 0 < e.1)
    (guarded : Throughout (watch strHash) (Guarded strHash (d.config_.echo_window_seconds * 1000))
      ⟨d, [], []⟩ events) :
    Always (watch strHash)
      (Complete d.config_.echo_threshold (d.config_.echo_window_seconds * 1000)) ⟨d, [], []⟩ events := by
  have no_cluster (fp : BitVec 64) : d.fingerprint_clusters_.lookup fp = none := by rw [unused]; rfl
  have whole : window_ms d.config_.echo_window_seconds = d.config_.echo_window_seconds * 1000 :=
    Int.bmod_eq_of_le (by omega) (by omega)
  have start : Inv strHash d.config_.echo_threshold (d.config_.echo_window_seconds * 1000) 1
      ⟨d, [], []⟩ := by
    refine ⟨⟨enabled, rfl, whole⟩, fun fp => ?_, ?_, ?_, trivial⟩
    · rw [no_cluster fp]
      exact fun m member => absurd member List.not_mem_nil
    · exact fun m member => absurd member List.not_mem_nil
    · exact fun v member => absurd member List.not_mem_nil
  exact start.run one_pos (by omega) some_sender int ordered positive guarded

end Proof

/-- Three clients send one text within 20 s, and once more behind a sweep. -/
def echoes : List (Int × Event) :=
  [(1000, .check_message (bytes "a") [] (bytes "Join us")),
    (11000, .check_message (bytes "b") [] (bytes "join  us ")),
    (21000, .check_message (bytes "c") [] (bytes "JOIN US")), (90000, .sweep),
    (91000, .check_message (bytes "a") [] (bytes "Join us"))]

theorem echoes_complete :
    (run (watch fun text => BitVec.ofNat 64 text.length) {} echoes).raised.length = 1 ∧
    Always (watch fun text => BitVec.ofNat 64 text.length) (Complete 3 60000) {} echoes := by
  refine ⟨by decide +kernel, ?_⟩
  refine echo_complete (d := {}) _ rfl rfl (by decide) (by decide) (by decide) (by decide) ?_ ?_
    (by decide +kernel)
  · simp [echoes]
  · simp [echoes]

/-- A text is kept alive by its first sender until two others join in. -/
def trickle : List (Int × Event) :=
  [(1000, .check_message (bytes "a") [] (bytes "gg")), (50000, .check_message (bytes "a") [] (bytes "gg")),
    (60000, .sweep), (62000, .check_message (bytes "b") [] (bytes "gg")),
    (63000, .check_message (bytes "c") [] (bytes "gg"))]

theorem trickle_goes_unnoticed :
    ¬ Always (watch fun text => BitVec.ofNat 64 text.length) (Complete 3 60000) {} trickle := by
  intro always
  have ends := (always_iff_isPrefix.mp always) trickle (List.prefix_refl _)
  have silent : (run (watch fun text => BitVec.ofNat 64 text.length) {} trickle).raised = [] := by
    decide +kernel
  have all : (run (watch fun text => BitVec.ofNat 64 text.length) {} trickle).sent =
      [⟨63000, bytes "c", bytes "gg"⟩, ⟨62000, bytes "b", bytes "gg"⟩, ⟨50000, bytes "a", bytes "gg"⟩,
        ⟨1000, bytes "a", bytes "gg"⟩] := by decide +kernel
  rw [Complete, all] at ends
  obtain ⟨v, member, -⟩ := ends (by decide +kernel)
  rw [silent] at member
  cases member

end SpamDetector

end AoSdl
