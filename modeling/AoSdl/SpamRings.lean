import AoSdl.Lib.RingBuffer
import AoSdl.SpamDetector

/-! `SpamDetector`: its ring buffers of messages and names, what it makes of connections, and its
configuration, which changes the sizes of the rings while the server runs. -/
namespace AoSdl
open Lib Lib.Entries Lib.Runs

/-- The settings that messages do not read go along with those that they do. -/
structure SpamDetectorConfig.Full extends SpamDetectorConfig where
  burst_threshold : Int32 := 20
  burst_window_seconds : Int32 := 30
  name_pattern_threshold : Int32 := 3
  name_pattern_min_prefix : Int32 := 4
  name_pattern_window_seconds : Int32 := 300
  hwid_reuse_threshold : Int32 := 3
  message_ring_size : Int32 := 1000
  name_ring_size : Int32 := 200

namespace SpamDetector

structure MessageRecord where
  fingerprint : BitVec 64 := 0
  ipid : Bytes := []
  asn : UInt32 := 0
  timestamp : Int := 0

structure NameRecord where
  name_prefix : Bytes := []
  ipid : Bytes := []
  timestamp : Int := 0

structure PrefixCluster where
  unique_ipids : List Bytes := []
  first_seen : Int := 0
  last_seen : Int := 0
  alerted : Bool := false

structure HWIDRecord where
  unique_ipids : List Bytes := []
  last_seen : Int := 0
  alerted : Bool := false

end SpamDetector

/-- The detector of messages, and the rings and tables beside it. -/
structure SpamRings where
  detector : SpamDetector := {}
  config_ : SpamDetectorConfig.Full := {}
  message_ring_ : RingBuffer SpamDetector.MessageRecord := {}
  connection_times_ : List Int := []
  name_ring_ : RingBuffer SpamDetector.NameRecord := {}
  prefix_clusters_ : AList (fun _ : Bytes => SpamDetector.PrefixCluster) := ∅
  hwid_map_ : AList (fun _ : Bytes => SpamDetector.HWIDRecord) := ∅

namespace SpamRings

open SpamDetector (window_ms fingerprint MessageRecord NameRecord PrefixCluster HWIDRecord)

/-- A ring of another size. A negative size is too large for a vector, which throws. -/
def resized {α : Type} (r : RingBuffer α) (size : Int) (fill : α) : Option (RingBuffer α) :=
  if size < 0 then none else some (r.resize size.toNat fill)

/-- The configuration is stored before a ring is resized. -/
def configure (d : SpamRings) (config : SpamDetectorConfig.Full) : SpamRings :=
  let d := { d with
    detector := { d.detector with config_ := config.toSpamDetectorConfig }
    config_ := config }
  match resized d.message_ring_ config.message_ring_size.toInt {} with
  | none => d
  | some message_ring_ =>
    let d := { d with message_ring_ }
    match resized d.name_ring_ config.name_ring_size.toInt {} with
    | none => d
    | some name_ring_ => { d with name_ring_ }

variable (strHash : Bytes → BitVec 64)

def check_message (d : SpamRings) (now : Int) (ipid ip : Bytes) (asn : UInt32) (message : Bytes) :
    SpamVerdict × SpamRings :=
  let (verdict, detector) := d.detector.check_message strHash now ipid ip message
  if !d.config_.enabled then (verdict, { d with detector })
  else
    let record : MessageRecord := ⟨fingerprint strHash message, ipid, asn, now⟩
    (verdict, { d with detector, message_ring_ := d.message_ring_.write record })

/-- The name without its trailing digits, if it has some and something in front of them. -/
def extract_prefix (name : Bytes) : Bytes :=
  let front := (name.reverse.dropWhile Lib.Decimal.isDigit).reverse
  if front.length = name.length then [] else front

/-- H2. -/
def burst (d : SpamRings) : Option SpamVerdict :=
  if d.config_.burst_threshold.toInt ≤ intOfSize d.connection_times_.length then
    some {
      is_spam := true
      heuristic := bytes "burst"
      detail := to_string d.connection_times_.length ++ bytes " connections in " ++
        to_string d.config_.burst_window_seconds.toInt ++ bytes "s window" }
  else none

def with_ipid (ipids : List Bytes) (ipid : Bytes) : List Bytes :=
  if ipid ∈ ipids then ipids else ipids ++ [ipid]

/-- Whether a name is one that H5 looks at. -/
def patterned (config : SpamDetectorConfig.Full) (username : Bytes) : Bool :=
  !username.isEmpty && config.name_pattern_min_prefix.toInt ≤ intOfSize ( extract_prefix username).length

/-- The addresses that are known of some IPIDs. -/
def participants (d : SpamRings) (ipids : List Bytes) : List (Bytes × Bytes) :=
  d.detector.participants { unique_ipids := ipids }

/-- H5: the verdict, and the detector with the name in its ring and in its cluster. -/
def name_pattern (d : SpamRings) (now : Int) (ipid username : Bytes) : Option SpamVerdict × SpamRings :=
  if !patterned d.config_ username then (none, d)
  else
    let name_prefix := extract_prefix username
    let pc := (d.prefix_clusters_.lookup name_prefix).getD {}
    let pc := { pc with
      unique_ipids := with_ipid pc.unique_ipids ipid
      first_seen := if pc.first_seen = 0 then now else pc.first_seen
      last_seen := now }
    let in_window := now - pc.first_seen ≤ window_ms d.config_.name_pattern_window_seconds.toInt
    let unique_count := intOfSize pc.unique_ipids.length
    let alert := in_window ∧ d.config_.name_pattern_threshold.toInt ≤ unique_count ∧ !pc.alerted
    let d := { d with
      name_ring_ := d.name_ring_.write ⟨ name_prefix, ipid, now⟩
      prefix_clusters_ := d.prefix_clusters_.insert name_prefix
        { pc with alerted := pc.alerted || decide alert } }
    (if alert then
      some {
        is_spam := true
        heuristic := bytes "name_pattern"
        detail := bytes "Username prefix \"" ++ name_prefix ++ bytes "\" from " ++
          to_string unique_count ++ bytes " distinct IPs"
        participants := d.participants pc.unique_ipids }
      else none, d)

/-- H7. -/
def hwid_reuse (d : SpamRings) (now : Int) (ipid hwid : Bytes) : Option SpamVerdict × SpamRings :=
  if hwid.isEmpty then (none, d)
  else
    let hr := (d.hwid_map_.lookup hwid).getD {}
    let hr := { hr with unique_ipids := with_ipid hr.unique_ipids ipid, last_seen := now }
    let alert := d.config_.hwid_reuse_threshold.toInt ≤ intOfSize hr.unique_ipids.length ∧ !hr.alerted
    let d := { d with
      hwid_map_ := d.hwid_map_.insert hwid { hr with alerted := hr.alerted || decide alert } }
    (if alert then
      some {
        is_spam := true
        heuristic := bytes "hwid_reuse"
        detail := bytes "HWID " ++ hwid.take 8 ++ bytes "... seen from " ++
          to_string hr.unique_ipids.length ++ bytes " distinct IPs" }
      else none, d)

/-- A connection, and those before it within the window. -/
def note_connection (d : SpamRings) (now : Int) (ipid ip : Bytes) : SpamRings :=
  let burst_cutoff := now - window_ms d.config_.burst_window_seconds.toInt
  { d with
    detector := d.detector.note_ip ipid ip
    connection_times_ := (d.connection_times_ ++ [now]).filter fun t => !(t < burst_cutoff) }

/-- The first verdict counts. -/
def on_connection (d : SpamRings) (now : Int) (ipid ip hwid username : Bytes) :
    SpamVerdict × SpamRings :=
  if !d.config_.enabled then ({}, d)
  else
    let d := d.note_connection now ipid ip
    let (name, d') := d.name_pattern now ipid username
    let (hwid, d'') := d'.hwid_reuse now ipid hwid
    (((d.burst.or name).or hwid).getD {}, d'')

inductive Event where
  | configure (config : SpamDetectorConfig.Full)
  | check_message (ipid ip : Bytes) (asn : UInt32) (message : Bytes)
  | on_connection (ipid ip hwid username : Bytes)

def step (d : SpamRings) (e : Int × Event) : SpamRings :=
  match e.2 with
  | .configure config => d.configure config
  | .check_message ipid ip asn message => (d.check_message strHash e.1 ipid ip asn message).2
  | .on_connection ipid ip hwid username => (d.on_connection e.1 ipid ip hwid username).2

/-- The ring that an event writes to, as its position and its number of slots. -/
def access (d : SpamRings) : Event → Option (Nat × Nat)
  | .configure _ => none
  | .check_message .. =>
    if d.config_.enabled then d.message_ring_.target.map (·, d.message_ring_.slots.length) else none
  | .on_connection _ _ _ username =>
    if d.config_.enabled && patterned d.config_ username then
      d.name_ring_.target.map (·, d.name_ring_.slots.length)
    else none

/-- What an event writes to a ring is inside the ring. -/
def InBounds (d : SpamRings) (e : Event) : Prop := ∀ a ∈ d.access e, a.1 < a.2

/-- A ring that gets another size has a slot at its position, or no slots. -/
def Roomy {α : Type} (r : RingBuffer α) (size : Int) : Prop :=
  let slots := if size < 0 then r.slots.length else size.toNat
  slots = 0 ∨ r.pos < slots

instance {α : Type} (r : RingBuffer α) (size : Int) : Decidable (Roomy r size) :=
  inferInstanceAs (Decidable (_ ∨ _))

/-- A configuration that turns the detector on leaves a slot at the position of each ring that has
slots. The second ring keeps its size if the first one cannot have its own. -/
def LeavesRoom (d : SpamRings) (e : Int × Event) : Prop :=
  match e.2 with
  | .configure config => config.enabled = true →
    Roomy d.message_ring_ config.message_ring_size.toInt ∧
    Roomy d.name_ring_
      (if config.message_ring_size.toInt < 0 then -1 else config.name_ring_size.toInt)
  | _ => True

/-- No event writes outside a ring. -/
def Ready (d : SpamRings) : Prop :=
  d.config_.enabled = true → d.message_ring_.Fits ∧ d.name_ring_.Fits

section Proof

variable {strHash} {d : SpamRings} {e : Int × Event}

theorem ready_configure_iff (d : SpamRings) (now : Int) (config : SpamDetectorConfig.Full) :
    Ready (d.configure config) ↔ LeavesRoom d (now, .configure config) := by
  unfold Ready LeavesRoom Roomy configure resized
  dsimp only
  by_cases negative : config.message_ring_size.toInt < 0
  · simp only [if_pos negative, RingBuffer.Fits]
    simp
  · simp only [if_neg negative]
    by_cases negative' : config.name_ring_size.toInt < 0
    · simp only [if_pos negative', RingBuffer.fits_resize_iff]
      rfl
    · simp only [if_neg negative', RingBuffer.fits_resize_iff]

theorem name_pattern_frame (d : SpamRings) (now : Int) (ipid username : Bytes) :
    (d.name_pattern now ipid username).2.config_ = d.config_ ∧
    (d.name_pattern now ipid username).2.message_ring_ = d.message_ring_ ∧
    (d.name_ring_.Fits → (d.name_pattern now ipid username).2.name_ring_.Fits) := by
  unfold name_pattern
  split
  · exact ⟨rfl, rfl, id⟩
  · exact ⟨rfl, rfl, fun _ => RingBuffer.fits_write _ _⟩

theorem hwid_reuse_frame (d : SpamRings) (now : Int) (ipid hwid : Bytes) :
    (d.hwid_reuse now ipid hwid).2.config_ = d.config_ ∧
    (d.hwid_reuse now ipid hwid).2.message_ring_ = d.message_ring_ ∧
    (d.hwid_reuse now ipid hwid).2.name_ring_ = d.name_ring_ := by
  unfold hwid_reuse
  split <;> exact ⟨rfl, rfl, rfl⟩

theorem Ready.check_message (ready : Ready d) (now : Int) (ipid ip : Bytes) (asn : UInt32)
    (message : Bytes) : Ready (d.check_message strHash now ipid ip asn message).2 := by
  unfold SpamRings.check_message
  dsimp only
  split
  · exact ready
  · exact fun enabled => ⟨RingBuffer.fits_write _ _, (ready enabled).2⟩

theorem Ready.on_connection (ready : Ready d) (now : Int) (ipid ip hwid username : Bytes) :
    Ready (d.on_connection now ipid ip hwid username).2 := by
  unfold SpamRings.on_connection
  split
  · exact ready
  · obtain ⟨config, message_ring, name_ring⟩ :=
      name_pattern_frame (d.note_connection now ipid ip) now ipid username
    obtain ⟨config', message_ring', name_ring'⟩ := hwid_reuse_frame
      ((d.note_connection now ipid ip).name_pattern now ipid username).2 now ipid hwid
    intro enabled
    dsimp only at enabled ⊢
    rw [config', config] at enabled
    rw [message_ring', message_ring, name_ring']
    exact ⟨(ready enabled).1, name_ring (ready enabled).2⟩

theorem exists_patterned (config : SpamDetectorConfig.Full) :
    ∃ username, patterned config username = true := by
  have int := config.name_pattern_min_prefix.toInt_lt
  let n := config.name_pattern_min_prefix.toInt.toNat
  have front : extract_prefix (List.replicate n 65 ++ [49]) = List.replicate n 65 := by
    have digit : Lib.Decimal.isDigit 49 = true := rfl
    have letters : (List.replicate n (65 : UInt8)).dropWhile Lib.Decimal.isDigit =
        List.replicate n 65 := by
      refine List.dropWhile_eq_self_iff.mpr fun _ => ?_
      rw [List.getElem_replicate]
      decide
    unfold extract_prefix
    rw [List.reverse_append, List.reverse_replicate, List.reverse_singleton, List.singleton_append,
      List.dropWhile_cons_of_pos digit, letters, List.reverse_replicate]
    simp
  have count : intOfSize n = n := Int.bmod_eq_of_le (by omega) (by omega)
  refine ⟨List.replicate n 65 ++ [49], ?_⟩
  unfold patterned
  rw [front, List.length_replicate, count]
  simp
  omega

/-- The rings are ready exactly if no event, whichever comes next, writes outside a ring. -/
theorem ready_iff : Ready d ↔ ∀ e, InBounds d e := by
  constructor
  · intro ready e
    unfold InBounds access
    cases e with
    | configure config => exact nofun
    | check_message ipid ip asn message =>
      dsimp only
      split
      · next enabled =>
        intro a member
        obtain ⟨i, target, rfl⟩ := Option.map_eq_some_iff.mp member
        exact RingBuffer.fits_iff_target.mp (ready enabled).1 i target
      · exact nofun
    | on_connection ipid ip hwid username =>
      dsimp only
      split
      · next looked =>
        intro a member
        obtain ⟨i, target, rfl⟩ := Option.map_eq_some_iff.mp member
        have enabled := (Bool.and_eq_true_iff.mp looked).1
        exact RingBuffer.fits_iff_target.mp (ready enabled).2 i target
      · exact nofun
  · intro inside enabled
    obtain ⟨username, looked⟩ := exists_patterned d.config_
    have message := inside (.check_message [] [] 0 [])
    have name := inside (.on_connection [] [] [] username)
    unfold InBounds access at message name
    dsimp only at message name
    rw [if_pos enabled] at message
    rw [enabled, looked, Bool.and_self, if_pos rfl] at name
    refine ⟨RingBuffer.fits_iff_target.mpr fun i target => ?_,
      RingBuffer.fits_iff_target.mpr fun i target => ?_⟩
    · exact message _ (Option.map_eq_some_iff.mpr ⟨i, target, rfl⟩)
    · exact name _ (Option.map_eq_some_iff.mpr ⟨i, target, rfl⟩)

theorem ready_step_iff (ready : Ready d) (e : Int × Event) :
    Ready (step strHash d e) ↔ LeavesRoom d e := by
  obtain ⟨now, e⟩ := e
  cases e with
  | configure config => exact ready_configure_iff d now config
  | check_message ipid ip asn message =>
    exact ⟨fun _ => trivial, fun _ => ready.check_message now ipid ip asn message⟩
  | on_connection ipid ip hwid username =>
    exact ⟨fun _ => trivial, fun _ => ready.on_connection now ipid ip hwid username⟩

/-- In every state of a run every write is inside its ring, whichever event comes next, exactly if
every configuration leaves room. -/
theorem rings_in_bounds_iff (strHash : Bytes → BitVec 64) (events : List (Int × Event)) :
    Always (step strHash) (fun d => ∀ e, InBounds d e) {} events ↔
      Throughout (step strHash) LeavesRoom {} events := by
  have start : ∀ e, InBounds ({} : SpamRings) e :=
    ready_iff.mp fun _ => ⟨RingBuffer.fits_empty, RingBuffer.fits_empty⟩
  refine always_iff_throughout (I := fun _ => True) (fun _ _ _ _ _ => trivial) ?_ trivial start events
  intro d e _ inside
  rw [← ready_iff]
  exact ready_step_iff (ready_iff.mpr inside) e

end Proof

/-- Two messages, and then a reload with a smaller ring. -/
def reload : List (Int × Event) :=
  [(1000, .configure { message_ring_size := 3 }),
    (2000, .check_message (bytes "a") [] 0 (bytes "hi")),
    (3000, .check_message (bytes "b") [] 0 (bytes "yo")),
    (4000, .configure { message_ring_size := 1 })]

theorem reload_out_of_bounds :
    (run (step fun text => BitVec.ofNat 64 text.length) {} reload).access
      (.check_message (bytes "c") [] 0 (bytes "hey")) = some (2, 1) ∧
    ¬ InBounds (run (step fun text => BitVec.ofNat 64 text.length) {} reload)
      (.check_message (bytes "c") [] 0 (bytes "hey")) := by
  have outside : (run (step fun text => BitVec.ofNat 64 text.length) {} reload).access
      (.check_message (bytes "c") [] 0 (bytes "hey")) = some (2, 1) := by decide +kernel
  refine ⟨outside, fun inside => ?_⟩
  have within := inside (2, 1) outside
  exact absurd within (by decide)

end SpamRings

end AoSdl
