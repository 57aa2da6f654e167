import AoSdl.Lib.Window
import AoSdl.Text
import Mathlib.Algebra.Order.Ring.Rat
import Mathlib.Data.Finset.Card
import Mathlib.Data.List.Nodup

/-! `SemanticClusterer`: a ring of recent embeddings, in which a message is looked for that came from several
senders. The numbers of an embedding and the similarity of two are parameters. -/
namespace AoSdl.moderation
open Lib.Window

variable {α R : Type}

structure EmbeddingsLayerConfig (R : Type) where
  similarity_threshold : R
  enabled : Bool := false
  ring_size : Int := 500
  cluster_threshold : Int := 3
  window_seconds : Int := 60

structure EmbeddingResult (α : Type) where
  vector : List α
  ok : Bool := false

structure SemanticClusterResult where
  score : Rat := 0
  matched_count : Nat := 0
  distinct_ipids : Nat := 0
  reason : Bytes := []

structure SemanticClusterer.Entry (α : Type) where
  timestamp_ms : Int
  ipid : Bytes
  vector : List α

structure SemanticClusterer (α R : Type) where
  cfg_ : EmbeddingsLayerConfig R
  ring_ : List (SemanticClusterer.Entry α) := []

namespace EmbeddingsLayerConfig

/-- A ring has room for one entry at least. -/
def capacity (cfg : EmbeddingsLayerConfig R) : Nat := (max 1 cfg.ring_size).toNat

def window_ms (cfg : EmbeddingsLayerConfig R) : Int := cfg.window_seconds * 1000

/-- The entry is older than the window at this time. -/
def expired (cfg : EmbeddingsLayerConfig R) (now_ms : Int) (e : SemanticClusterer.Entry α) : Bool :=
  e.timestamp_ms < now_ms - cfg.window_ms

/-- Vectors of one size, not less similar than the threshold. -/
def similar [LE R] [DecidableLE R] (cosine : List α → List α → R) (cfg : EmbeddingsLayerConfig R) (vector : List α)
    (e : SemanticClusterer.Entry α) : Bool :=
  e.vector.length = vector.length && cfg.similarity_threshold ≤ cosine vector e.vector

end EmbeddingsLayerConfig

namespace SemanticClusterer

def configure (c : SemanticClusterer α R) (cfg : EmbeddingsLayerConfig R) : SemanticClusterer α R :=
  { c with cfg_ := cfg, ring_ := c.ring_.rtake cfg.capacity }

def prune_locked (c : SemanticClusterer α R) (now_ms : Int) : SemanticClusterer α R :=
  { c with ring_ := (c.ring_.dropWhile (c.cfg_.expired now_ms)).rtake c.cfg_.capacity }

/-- The IPIDs of the entries without this one. -/
def distinct_others (ipid : Bytes) (matched : List (Entry α)) : List Bytes :=
  matched.foldl (fun others e => if e.ipid ≠ ipid then others.insert e.ipid else others) []

section Scoring

variable [LE R] [DecidableLE R] (cosine : List α → List α → R)

def score_with_embedding (c : SemanticClusterer α R) (t : Int) (ipid : Bytes) (embedding : EmbeddingResult α) :
    SemanticClusterResult × SemanticClusterer α R :=
  if !c.cfg_.enabled then ({}, c)
  else if !embedding.ok || embedding.vector.isEmpty then ({}, c)
  else
    let c := c.prune_locked t
    let matched := c.ring_.filter (c.cfg_.similar cosine embedding.vector)
    let others := distinct_others ipid matched
    let c := { c with ring_ := (c.ring_ ++ [(⟨t, ipid, embedding.vector⟩ : Entry α)]).rtake c.cfg_.capacity }
    let r : SemanticClusterResult := { matched_count := matched.length, distinct_ipids := others.length }
    if c.cfg_.cluster_threshold ≤ (r.distinct_ipids : Int) + 1 then
      ({ r with
        score := 1
        reason := bytes "semantic_cluster(" ++ to_string (r.distinct_ipids + 1) ++ bytes "_ipids)" }, c)
    else (r, c)

end Scoring

/-- A message with its embedding and the time at which it is scored. -/
structure Call (α : Type) where
  t : Int
  ipid : Bytes
  embedding : EmbeddingResult α

namespace Call

/-- Others are not recorded. -/
def Usable (call : Call α) : Prop := call.embedding.ok = true ∧ call.embedding.vector ≠ []

instance (call : Call α) : Decidable call.Usable :=
  decidable_of_iff (call.embedding.ok = true ∧ call.embedding.vector.isEmpty = false) (by simp [Usable])

def entry (call : Call α) : Entry α := ⟨call.t, call.ipid, call.embedding.vector⟩

end Call

/-- The messages that were recorded. -/
def recorded (calls : List (Call α)) : List (Entry α) := (calls.filter (·.Usable)).map Call.entry

def Ordered (calls : List (Call α)) : Prop := calls.Pairwise fun a b => a.t ≤ b.t

section Meaning

variable [LE R] [DecidableLE R] (cosine : List α → List α → R)

def score (c : SemanticClusterer α R) (call : Call α) : SemanticClusterResult × SemanticClusterer α R :=
  c.score_with_embedding cosine call.t call.ipid call.embedding

/-- A clusterer that was configured once and has scored these messages. -/
def run (cfg : EmbeddingsLayerConfig R) (calls : List (Call α)) : SemanticClusterer α R :=
  calls.foldl (fun c call => (c.score cosine call).2) ((⟨cfg, []⟩ : SemanticClusterer α R).configure cfg)

/-- The senders among the last of the recorded messages, in the window and similar. -/
def senders (cfg : EmbeddingsLayerConfig R) (last : Nat) (log : List (Entry α)) (call : Call α) : List Bytes :=
  ((log.rtake last).filter fun e =>
    call.t - e.timestamp_ms ≤ cfg.window_ms && cfg.similar cosine call.embedding.vector e).map (·.ipid)

/-- With the sender of this message they are enough. -/
def Clusters (cfg : EmbeddingsLayerConfig R) (last : Nat) (log : List (Entry α)) (call : Call α) : Prop :=
  cfg.cluster_threshold ≤ (insert call.ipid (senders cosine cfg last log call).toFinset).card

instance (cfg : EmbeddingsLayerConfig R) (last : Nat) (log : List (Entry α)) (call : Call α) :
    Decidable (Clusters cosine cfg last log call) := inferInstanceAs (Decidable (_ ≤ _))

/-- The message is taken for one of a cluster. -/
def Reports (cfg : EmbeddingsLayerConfig R) (before : List (Call α)) (call : Call α) : Prop :=
  ((run cosine cfg before).score cosine call).1.score = 1

instance (cfg : EmbeddingsLayerConfig R) (before : List (Call α)) (call : Call α) :
    Decidable (Reports cosine cfg before call) := inferInstanceAs (Decidable (_ = _))

end Meaning

section Counting

variable {ipid : Bytes} {matched : List (Entry α)}

theorem distinct_others_spec (ipid : Bytes) (matched : List (Entry α)) : (distinct_others ipid matched).Nodup ∧
    ∀ x, x ∈ distinct_others ipid matched ↔ x ≠ ipid ∧ x ∈ matched.map (·.ipid) := by
  have grows (others : List Bytes) (nodup : others.Nodup) :
      (matched.foldl (fun others e => if e.ipid ≠ ipid then others.insert e.ipid else others) others).Nodup ∧
      ∀ x, x ∈ matched.foldl (fun others e => if e.ipid ≠ ipid then others.insert e.ipid else others) others ↔
        x ∈ others ∨ x ≠ ipid ∧ x ∈ matched.map (·.ipid) := by
    induction matched generalizing others with
    | nil => simp [nodup]
    | cons e matched ih =>
      rw [List.foldl_cons]
      by_cases other : e.ipid ≠ ipid
      · rw [if_pos other]
        obtain ⟨nodup, mem⟩ := ih _ (nodup.insert)
        refine ⟨nodup, fun x => ?_⟩
        rw [mem, List.mem_insert_iff, List.map_cons, List.mem_cons]
        constructor
        · rintro ((rfl | old) | later)
          · exact .inr ⟨other, .inl rfl⟩
          · exact .inl old
          · exact .inr ⟨later.1, .inr later.2⟩
        · rintro (old | ⟨apart, rfl | later⟩)
          · exact .inl (.inr old)
          · exact .inl (.inl rfl)
          · exact .inr ⟨apart, later⟩
      · rw [if_neg other]
        obtain ⟨nodup, mem⟩ := ih others nodup
        refine ⟨nodup, fun x => ?_⟩
        rw [mem, List.map_cons, List.mem_cons]
        refine or_congr_right (and_congr_right fun apart => ⟨.inr, ?_⟩)
        rintro (rfl | later)
        · exact absurd apart other
        · exact later
  obtain ⟨nodup, mem⟩ := grows [] List.nodup_nil
  refine ⟨nodup, fun x => ?_⟩
  rw [distinct_others, mem]
  simp

theorem distinct_others_length (ipid : Bytes) (matched : List (Entry α)) :
    (distinct_others ipid matched).length + 1 = (insert ipid (matched.map (·.ipid)).toFinset).card := by
  obtain ⟨nodup, mem⟩ := distinct_others_spec ipid matched
  have same : insert ipid (matched.map (·.ipid)).toFinset = insert ipid (distinct_others ipid matched).toFinset := by
    ext x
    simp only [Finset.mem_insert, List.mem_toFinset, mem]
    by_cases own : x = ipid <;> simp [own]
  have new : ipid ∉ (distinct_others ipid matched).toFinset := by simp [mem]
  rw [same, Finset.card_insert_of_notMem new, List.toFinset_card_of_nodup nodup]

end Counting

section Runs

variable {cfg : EmbeddingsLayerConfig R} {c : SemanticClusterer α R} {calls : List (Call α)} {call : Call α}
  {now_ms : Int}

/-- The ring after the messages: the newest ones, but for some that the window has left behind. -/
def Kept (cfg : EmbeddingsLayerConfig R) (now_ms : Int) (calls : List (Call α)) (c : SemanticClusterer α R) : Prop :=
  c.cfg_ = cfg ∧ Holds cfg.capacity (cfg.expired now_ms) (recorded calls) c.ring_

theorem recorded_concat (calls : List (Call α)) (call : Call α) :
    recorded (calls ++ [call]) = recorded calls ++ if call.Usable then [call.entry] else [] := by
  rw [recorded, List.filter_append, List.map_append, ← recorded]
  by_cases usable : call.Usable <;> simp [usable]

theorem recorded_ordered (ordered : Ordered calls) :
    (recorded calls).Pairwise fun a b => a.timestamp_ms ≤ b.timestamp_ms := by
  rw [recorded, List.pairwise_map]
  exact List.Pairwise.sublist List.filter_sublist ordered

theorem expired_mono {now' : Int} (later : now_ms ≤ now') {e : SemanticClusterer.Entry α}
    (old : cfg.expired now_ms e = true) : cfg.expired now' e = true := by
  simp only [EmbeddingsLayerConfig.expired, decide_eq_true_eq] at old ⊢
  omega

/-- In a ring in the order of time what is expired stands in front. -/
theorem expired_front (ordered : Ordered calls) (kept : Kept cfg now_ms calls c) (t : Int) :
    c.ring_.Pairwise fun a b => cfg.expired t b = true → cfg.expired t a = true := by
  have times := (recorded_ordered ordered).sublist kept.2.sublist
  refine times.imp fun {a b} before old => ?_
  simp only [EmbeddingsLayerConfig.expired, decide_eq_true_eq] at old ⊢
  omega

theorem Kept.prune (kept : Kept cfg now_ms calls c) (later : now_ms ≤ call.t) :
    Kept cfg call.t calls (c.prune_locked call.t) ∧
      (c.prune_locked call.t).ring_ = c.ring_.dropWhile (cfg.expired call.t) := by
  obtain ⟨rfl, holds⟩ := kept
  have left := (holds.mono fun e _ old => expired_mono later old).expire
  have room : (c.ring_.dropWhile (c.cfg_.expired call.t)).rtake c.cfg_.capacity =
      c.ring_.dropWhile (c.cfg_.expired call.t) := by
    rw [List.rtake, Nat.sub_eq_zero_of_le left.length_le, List.drop_zero]
  refine ⟨⟨rfl, ?_⟩, room⟩
  rw [prune_locked, room]
  exact left

variable [LE R] [DecidableLE R] {cosine : List α → List α → R}

theorem score_unusable (unusable : ¬ call.Usable) : c.score cosine call = ({}, c) := by
  have none_ : (!call.embedding.ok || call.embedding.vector.isEmpty) = true := by
    simp only [Call.Usable, not_and, not_not] at unusable
    cases ok : call.embedding.ok with
    | false => rfl
    | true => simp [unusable ok]
  unfold score score_with_embedding
  rw [if_pos none_]
  split <;> rfl

theorem score_usable (on : c.cfg_.enabled = true) (usable : call.Usable) :
    (c.score cosine call).2 = { c.prune_locked call.t with
      ring_ := ((c.prune_locked call.t).ring_ ++ [call.entry]).rtake c.cfg_.capacity } ∧
    ((c.score cosine call).1.score = 1 ↔ c.cfg_.cluster_threshold ≤ ((distinct_others call.ipid
      ((c.prune_locked call.t).ring_.filter (c.cfg_.similar cosine call.embedding.vector))).length + 1 : Int)) := by
  have some_ : (!call.embedding.ok || call.embedding.vector.isEmpty) = false := by
    simp [usable.1, usable.2]
  have off : (!c.cfg_.enabled) = false := by simp [on]
  unfold score score_with_embedding
  simp only [off, some_, Bool.false_eq_true, if_false]
  have cfg : (c.prune_locked call.t).cfg_ = c.cfg_ := rfl
  rw [cfg]
  split
  · next enough => exact ⟨rfl, iff_of_true rfl enough⟩
  · next few => exact ⟨rfl, iff_of_false (by simp) few⟩

theorem Kept.step (on : cfg.enabled = true) (kept : Kept cfg now_ms calls c) (later : now_ms ≤ call.t) :
    Kept cfg call.t (calls ++ [call]) (c.score cosine call).2 := by
  by_cases usable : call.Usable
  · obtain ⟨⟨same, holds⟩, _⟩ := kept.prune later
    obtain ⟨rfl, _⟩ := kept
    rw [(score_usable on usable).1]
    refine ⟨same, ?_⟩
    rw [recorded_concat, if_pos usable]
    exact holds.push call.entry
  · obtain ⟨rfl, holds⟩ := kept
    rw [score_unusable usable]
    refine ⟨rfl, ?_⟩
    rw [recorded_concat, if_neg usable, List.append_nil]
    exact holds.mono fun e _ old => expired_mono later old

theorem kept_run (cosine : List α → List α → R) (on : cfg.enabled = true) (ordered : Ordered calls)
    (past : ∀ call ∈ calls, call.t ≤ now_ms) : Kept cfg now_ms calls (run cosine cfg calls) := by
  induction calls using List.reverseRecOn generalizing now_ms with
  | nil =>
    have empty : (run cosine cfg []).ring_ = [] := by simp [run, configure, List.rtake]
    refine ⟨rfl, ?_⟩
    rw [empty]
    exact Holds.empty
  | append_singleton calls call ih =>
    obtain ⟨before, _, behind⟩ := List.pairwise_append.mp ordered
    have kept := ih before fun a member => behind a member call (List.mem_singleton_self call)
    have next : Kept cfg call.t (calls ++ [call]) ((run cosine cfg calls).score cosine call).2 :=
      kept.step on (le_refl call.t)
    rw [run, List.foldl_append, ← run]
    refine ⟨next.1, next.2.mono fun e _ old => expired_mono ?_ old⟩
    exact past call (List.mem_append_right calls (List.mem_singleton_self call))

/-- A message is reported exactly when it is usable and its sender and those of the last recorded messages in
the window that are similar to it are enough. -/
theorem cluster_reports_iff (cosine : List α → List α → R) (cfg : EmbeddingsLayerConfig R) (on : cfg.enabled = true)
    (before : List (Call α)) (call : Call α) (ordered : Ordered (before ++ [call])) :
    Reports cosine cfg before call ↔
      call.Usable ∧ Clusters cosine cfg (max 1 cfg.ring_size).toNat (recorded before) call := by
  obtain ⟨past, _, behind⟩ := List.pairwise_append.mp ordered
  have kept := kept_run cosine on past fun a member => behind a member call (List.mem_singleton_self call)
  by_cases usable : call.Usable
  · have room := (kept.prune (le_refl call.t)).2
    have fresh := dropWhile_eq_filter (expired_front past kept call.t)
    have same := kept.2.filter (cfg.similar cosine call.embedding.vector)
    have window (e : SemanticClusterer.Entry α) :
        decide (call.t - e.timestamp_ms ≤ cfg.window_ms) = !cfg.expired call.t e := by
      rw [Bool.eq_iff_iff, decide_eq_true_eq, Bool.not_eq_true', EmbeddingsLayerConfig.expired, decide_eq_false_iff_not]
      omega
    have matched : ((run cosine cfg before).prune_locked call.t).ring_.filter (cfg.similar cosine call.embedding.vector) =
        ((recorded before).rtake cfg.capacity).filter fun e =>
          decide (call.t - e.timestamp_ms ≤ cfg.window_ms) && cfg.similar cosine call.embedding.vector e := by
      simp only [window]
      rw [room, fresh, List.filter_filter, same]
      simp only [Bool.and_comm]
    obtain ⟨cfg_, _⟩ := kept
    have enabled : (run cosine cfg before).cfg_.enabled = true := by rw [cfg_]; exact on
    rw [Reports, (score_usable enabled usable).2, cfg_, matched]
    have count := distinct_others_length call.ipid (((recorded before).rtake cfg.capacity).filter fun e =>
          decide (call.t - e.timestamp_ms ≤ cfg.window_ms) && cfg.similar cosine call.embedding.vector e)
    simp only [usable, true_and, Clusters, senders]
    rw [← Nat.cast_succ, Nat.succ_eq_add_one, count]
    rfl
  · rw [Reports, score_unusable usable]
    exact iff_of_false (by simp) fun holds => usable holds.1

end Runs

section Echo

/-- Two senders are a cluster. -/
def echo_config (ring_size : Int) : EmbeddingsLayerConfig Int :=
  { similarity_threshold := 0, enabled := true, ring_size, cluster_threshold := 2 }

def echo (t : Int) (ipid : String) : Call Int := ⟨t, bytes ipid, ⟨[1], true⟩⟩

theorem cluster_reports_iff_echo :
    Reports (fun _ _ => 1) (echo_config 2) [echo 0 "alice", echo 5 "bob"] (echo 60005 "alice") ↔
      (echo 60005 "alice").Usable ∧ Clusters (fun _ _ => 1) (echo_config 2) (max 1 (echo_config 2).ring_size).toNat
        (recorded [echo 0 "alice", echo 5 "bob"]) (echo 60005 "alice") :=
  cluster_reports_iff (fun _ _ => 1) (echo_config 2) rfl [echo 0 "alice", echo 5 "bob"] (echo 60005 "alice") (by
    simp [Ordered, echo])

/-- A ring of no size still remembers one message. -/
theorem empty_ring_reports : ¬ ∀ cfg : EmbeddingsLayerConfig Int, cfg.enabled = true →
    ∀ (before : List (Call Int)) (call : Call Int), Ordered (before ++ [call]) → call.Usable →
      (Reports (fun _ _ => 1) cfg before call ↔
        Clusters (fun _ _ => 1) cfg cfg.ring_size.toNat (recorded before) call) := by
  intro claim
  have both := claim (echo_config 0) rfl [echo 0 "alice"] (echo 1 "bob") (by simp [Ordered, echo]) (by decide)
  have reported : Reports (fun _ _ => 1) (echo_config 0) [echo 0 "alice"] (echo 1 "bob") := by decide +kernel
  exact absurd (both.mp reported) (by decide +kernel)

end Echo

end SemanticClusterer

end AoSdl.moderation
