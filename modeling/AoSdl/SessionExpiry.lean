import AoSdl.BanManager
import AoSdl.GameRoom
import AoSdl.Lib.Runs

/-! The poll thread's expiry sweep beside requests that touch sessions. The sweep reads one session
after the other and destroys those it found in later sections; a request finds its session by
token and touches it without a lock. Each read and each write is a step. Times are nanoseconds
of the steady clock. -/
namespace AoSdl
open Lib.Runs

namespace GameRoom

/-- `elapsed > ttl_seconds`, in whole seconds. -/
def idle_longer (ttl_seconds now last_activity : Int) : Bool :=
  ttl_seconds < (now - last_activity).tdiv 1000000000

def find_expired_sessions (r : GameRoom) (last_activity_ns : UInt64 → Int) (ttl_seconds now : Int) :
    List UInt64 :=
  if ttl_seconds ≤ 0 then []
  else (r.sessions_.for_each.filter fun e =>
    !e.2.session_token.isEmpty && idle_longer ttl_seconds now (last_activity_ns e.1)).map Prod.fst

end GameRoom

/-- A sweep: the sessions it has yet to read, and those it found expired. -/
structure ExpirySweep where
  ttl_seconds : Int
  now : Int
  todo : List (UInt64 × ServerSession) := []
  to_expire : List UInt64 := []

/-- A session that a sweep destroyed, and how long it had been idle then. -/
structure Expired where
  client_id : UInt64
  ttl_seconds : Int
  idle : Int
  deriving DecidableEq

structure SessionExpiry where
  room : GameRoom := {}
  last_activity_ns : UInt64 → Int := fun _ => 0
  /-- The sessions that requests found by their tokens. -/
  requests : List UInt64 := []
  sweep : Option ExpirySweep := none
  expired : List Expired := []

namespace SessionExpiry

/-- `create_session_with_token`; the sessions of AO2 clients have no token. A request keeps the session
it found, and `touch` is any of its touches. -/
inductive Event where
  | create (client_id : UInt64) (protocol token : Bytes)
  | destroy (client_id : UInt64)
  | find_session_by_token (token : Bytes)
  | touch (i : Nat)
  | begin_sweep (ttl_seconds : Int)
  | read_next
  | destroy_next

def touch (s : SessionExpiry) (now : Int) (client_id : UInt64) : SessionExpiry :=
  { s with last_activity_ns := Function.update s.last_activity_ns client_id now }

/-- There is one poll thread, which ends a sweep before it begins the next. -/
def begin_sweep (s : SessionExpiry) (now ttl_seconds : Int) : SessionExpiry :=
  match s.sweep with
  | some _ => s
  | none =>
    if ttl_seconds ≤ 0 then s
    else { s with sweep := some { ttl_seconds, now, todo := s.room.sessions_.for_each } }

def read_next (s : SessionExpiry) : SessionExpiry :=
  match s.sweep with
  | some ⟨ttl_seconds, now, (client_id, session) :: todo, to_expire⟩ =>
    let found := !session.session_token.isEmpty &&
      GameRoom.idle_longer ttl_seconds now (s.last_activity_ns client_id)
    let to_expire := if found then to_expire ++ [client_id] else to_expire
    { s with sweep := some ⟨ttl_seconds, now, todo, to_expire⟩ }
  | _ => s

def destroy_next (strHash : Bytes → BitVec 64) (s : SessionExpiry) (now : Int) : SessionExpiry :=
  match s.sweep with
  | some ⟨ttl_seconds, began, [], client_id :: to_expire⟩ =>
    let expired := if (s.room.get_session client_id).isSome then
      s.expired ++ [⟨client_id, ttl_seconds, now - s.last_activity_ns client_id⟩] else s.expired
    { s with
      room := s.room.destroy_session strHash client_id
      sweep := some ⟨ttl_seconds, began, [], to_expire⟩
      expired }
  | some ⟨_, _, [], []⟩ => { s with sweep := none }
  | _ => s

def step (strHash : Bytes → BitVec 64) (s : SessionExpiry) (e : Int × Event) : SessionExpiry :=
  match e.2 with
  | .create client_id protocol token =>
    { s with room := s.room.create_session_with_token strHash client_id protocol token }.touch e.1
      client_id
  | .destroy client_id => { s with room := s.room.destroy_session strHash client_id }
  | .find_session_by_token token =>
    match s.room.find_session_by_token strHash token with
    | none => s
    | some session => { s with requests := s.requests ++ [session.client_id] }
  | .touch i =>
    match s.requests[i]? with
    | none => s
    | some client_id => s.touch e.1 client_id
  | .begin_sweep ttl_seconds => s.begin_sweep e.1 ttl_seconds
  | .read_next => s.read_next
  | .destroy_next => s.destroy_next strHash e.1

/-- Every session a sweep destroyed had been idle for more than its time to live. -/
def OnlyIdle (s : SessionExpiry) : Prop :=
  ∀ x ∈ s.expired, x.ttl_seconds * 1000000000 < x.idle

/-- The sessions a sweep found expired and has yet to destroy. -/
def doomed (s : SessionExpiry) : List UInt64 := (s.sweep.map (·.to_expire)).getD []

/-- Between its finding and its end no session is touched, and no new one gets its id. -/
def Guarded (s : SessionExpiry) (e : Int × Event) : Prop :=
  match e.2 with
  | .create client_id _ _ => client_id ∉ s.doomed
  | .touch i => ∀ client_id, s.requests[i]? = some client_id → client_id ∉ s.doomed
  | _ => True

/-- What was found expired still is. -/
structure Inv (now : Int) (s : SessionExpiry) : Prop where
  only_idle : s.OnlyIdle
  began : ∀ sweep, s.sweep = some sweep → sweep.now ≤ now ∧ 0 < sweep.ttl_seconds
  still : ∀ sweep, s.sweep = some sweep → ∀ k ∈ sweep.to_expire,
    sweep.ttl_seconds * 1000000000 < now - s.last_activity_ns k

section Proof

variable {strHash : Bytes → BitVec 64} {s : SessionExpiry} {now later : Int}

theorem idle_of_idle_longer {ttl_seconds last_activity : Int} (positive : 0 < ttl_seconds)
    (longer : GameRoom.idle_longer ttl_seconds now last_activity = true) :
    ttl_seconds * 1000000000 < now - last_activity := by
  have past : ttl_seconds < (now - last_activity).tdiv 1000000000 := by
    simpa [GameRoom.idle_longer] using longer
  have nonneg : 0 ≤ now - last_activity := by
    by_contra negative
    have reversed : 0 ≤ (-(now - last_activity)).tdiv 1000000000 :=
      Int.tdiv_nonneg (by omega) (by decide)
    rw [Int.neg_tdiv] at reversed
    omega
  rw [Int.tdiv_eq_ediv_of_nonneg nonneg] at past
  omega

theorem doomed_reads {ttl_seconds began : Int} {todo : List (UInt64 × ServerSession)}
    {found : List UInt64} (here : s.sweep = some ⟨ttl_seconds, began, todo, found⟩) :
    doomed (run (step strHash) s (List.replicate todo.length (now, .read_next))) =
      found ++ (todo.filter fun e => !e.2.session_token.isEmpty &&
        GameRoom.idle_longer ttl_seconds began (s.last_activity_ns e.1)).map Prod.fst := by
  induction todo generalizing s found with
  | nil => simp [doomed, here]
  | cons e todo ih =>
    rw [List.length_cons, List.replicate_succ, run_cons, step]
    dsimp only
    rw [ih (by rw [read_next, here]), read_next, here, List.filter_cons]
    dsimp only
    split <;> simp

/-- A sweep whose reads nothing comes between finds what `find_expired_sessions` returns. -/
theorem doomed_eq_find_expired (idle : s.sweep = none) (ttl_seconds : Int) :
    doomed (run (step strHash) (s.begin_sweep now ttl_seconds)
        (List.replicate s.room.sessions_.for_each.length (now, .read_next))) =
      s.room.find_expired_sessions s.last_activity_ns ttl_seconds now := by
  unfold GameRoom.find_expired_sessions
  by_cases endless : ttl_seconds ≤ 0
  · have stays (n : Nat) : run (step strHash) s (List.replicate n (now, .read_next)) = s := by
      induction n with
      | zero => rfl
      | succ n ih =>
        rw [List.replicate_succ, run_cons]
        have same : step strHash s (now, .read_next) = s := by simp [step, read_next, idle]
        rw [same, ih]
    simp [begin_sweep, idle, endless, stays, doomed]
  · have began : (s.begin_sweep now ttl_seconds).sweep =
        some ⟨ttl_seconds, now, s.room.sessions_.for_each, []⟩ := by
      simp [begin_sweep, idle, endless]
    have room : (s.begin_sweep now ttl_seconds).last_activity_ns = s.last_activity_ns := by
      simp [begin_sweep, idle, endless]
    rw [if_neg endless, doomed_reads began, room, List.nil_append]

/-- A client with a token that has been idle since the start, and a sweep after five seconds. -/
theorem doomed_after_five_seconds :
    doomed (run (step fun _ => 0) ((run (step fun _ => 0) {}
        [(0, .create 7 (bytes "aonx") (bytes "t"))]).begin_sweep 5000000000 3)
      (List.replicate (run (step fun _ => 0) {}
        [(0, .create 7 (bytes "aonx") (bytes "t"))]).room.sessions_.for_each.length
        (5000000000, .read_next))) =
    (run (step fun _ => 0) {} [(0, .create 7 (bytes "aonx") (bytes "t"))]).room.find_expired_sessions
      (run (step fun _ => 0) {} [(0, .create 7 (bytes "aonx") (bytes "t"))]).last_activity_ns 3 5000000000 :=
  doomed_eq_find_expired rfl 3

theorem Inv.mono (inv : Inv now s) (le : now ≤ later) : Inv later s :=
  ⟨inv.only_idle, fun sweep here => ⟨(inv.began sweep here).1.trans le, (inv.began sweep here).2⟩,
    fun sweep here k member => by have := inv.still sweep here k member; omega⟩

theorem Inv.touch (inv : Inv now s) {client_id : UInt64} (spared : client_id ∉ s.doomed) :
    Inv now (s.touch now client_id) := by
  refine ⟨inv.only_idle, inv.began, fun sweep here k member => ?_⟩
  have listed : k ∈ s.doomed := by
    have here : s.sweep = some sweep := here
    simpa [doomed, here] using member
  have other : k ≠ client_id := fun same => spared (same ▸ listed)
  simpa [SessionExpiry.touch, other] using inv.still sweep here k member

theorem Inv.begin_sweep (inv : Inv now s) (ttl_seconds : Int) : Inv now (s.begin_sweep now ttl_seconds) := by
  unfold SessionExpiry.begin_sweep
  split
  · exact inv
  split
  · exact inv
  · next positive =>
    refine ⟨inv.only_idle, ?_, ?_⟩
    · rintro sweep ⟨⟩
      exact ⟨le_refl now, not_le.mp positive⟩
    · rintro sweep ⟨⟩ k member
      cases member

theorem Inv.read_next (inv : Inv now s) : Inv now s.read_next := by
  unfold SessionExpiry.read_next
  split
  · next ttl_seconds began client_id session todo to_expire here =>
    have past : began ≤ now := (inv.began _ here).1
    have positive : 0 < ttl_seconds := (inv.began _ here).2
    refine ⟨inv.only_idle, ?_, ?_⟩
    · rintro sweep ⟨⟩
      exact ⟨past, positive⟩
    · rintro sweep ⟨⟩ k member
      have old : k ∈ to_expire → ttl_seconds * 1000000000 < now - s.last_activity_ns k :=
        inv.still _ here k
      split at member
      · next found =>
        rcases List.mem_append.mp member with member | member
        · exact old member
        · obtain rfl := List.mem_singleton.mp member
          have longer := idle_of_idle_longer positive (Bool.and_eq_true_iff.mp found).2
          dsimp only
          omega
      · exact old member
  · exact inv

theorem Inv.destroy_next (inv : Inv now s) : Inv now (s.destroy_next strHash now) := by
  unfold SessionExpiry.destroy_next
  split
  · next ttl_seconds began client_id to_expire here =>
    refine ⟨?_, ?_, ?_⟩
    · intro x member
      have idle := inv.still _ here client_id List.mem_cons_self
      dsimp only at member
      split at member
      · rcases List.mem_append.mp member with member | member
        · exact inv.only_idle x member
        · rw [List.mem_singleton.mp member]
          exact idle
      · exact inv.only_idle x member
    · rintro sweep ⟨⟩
      exact ⟨(inv.began _ here).1, (inv.began _ here).2⟩
    · rintro sweep ⟨⟩ k member
      exact inv.still _ here k (List.mem_cons_of_mem client_id member)
  · exact ⟨inv.only_idle, nofun, nofun⟩
  · exact inv

theorem Inv.step (inv : Inv now s) {e : Event} (guarded : s.Guarded (now, e)) :
    Inv now (SessionExpiry.step strHash s (now, e)) := by
  cases e with
  | create client_id protocol token =>
    have made : Inv now { s with
      room := s.room.create_session_with_token strHash client_id protocol token } :=
      ⟨inv.only_idle, inv.began, inv.still⟩
    exact made.touch guarded
  | destroy client_id => exact ⟨inv.only_idle, inv.began, inv.still⟩
  | find_session_by_token token =>
    simp only [SessionExpiry.step]
    split
    · exact inv
    · exact ⟨inv.only_idle, inv.began, inv.still⟩
  | touch i =>
    simp only [SessionExpiry.step]
    split
    · exact inv
    · next client_id found => exact inv.touch (guarded client_id found)
  | begin_sweep ttl_seconds => exact inv.begin_sweep ttl_seconds
  | read_next => exact inv.read_next
  | destroy_next => exact inv.destroy_next

theorem Inv.run (inv : Inv now s) {events : List (Int × Event)}
    (ordered : events.Pairwise fun e f => e.1 ≤ f.1) (late : ∀ e ∈ events, now ≤ e.1)
    (guarded : Throughout (SessionExpiry.step strHash) Guarded s events) :
    Always (SessionExpiry.step strHash) OnlyIdle s events := by
  refine always_timed (I := Inv) (fun now s inv => inv.only_idle) ?_ inv ordered late guarded
  intro now s time event inv le meets
  exact (inv.mono le).step meets

/-- In a run in which no session is touched between its finding and its end, every session a sweep
destroys has been idle for more than its time to live. -/
theorem sweep_spares_active (strHash : Bytes → BitVec 64) {s : SessionExpiry} (idle : s.sweep = none)
    (fresh : s.expired = []) {events : List (Int × Event)}
    (ordered : events.Pairwise fun e f => e.1 ≤ f.1)
    (guarded : Throughout (step strHash) Guarded s events) :
    Always (step strHash) OnlyIdle s events := by
  obtain ⟨first, begins⟩ := exists_first ordered
  have only_idle : s.OnlyIdle := by
    unfold OnlyIdle
    rw [fresh]
    exact fun x member => absurd member List.not_mem_nil
  have none_began (sweep : ExpirySweep) : s.sweep ≠ some sweep := by simp [idle]
  have start : Inv first s := ⟨only_idle, fun sweep here => absurd here (none_began sweep),
    fun sweep here => absurd here (none_began sweep)⟩
  exact start.run ordered begins guarded

/-- A session is created, renewed in time, and found and destroyed when it is idle again. -/
def quietEnd : List (Int × Event) :=
  [(0, .create 9 (bytes "aonx") (bytes "s")), (0, .find_session_by_token (bytes "s")),
    (seconds 50, .touch 0), (seconds 120, .begin_sweep 60), (seconds 120, .read_next),
    (seconds 121, .destroy_next)]

theorem quiet_end_spares_active :
    (run (step fun _ => 0) {} quietEnd).expired = [⟨9, 60, seconds 71⟩] ∧
    Always (step fun _ => 0) OnlyIdle {} quietEnd := by
  refine ⟨by decide, sweep_spares_active _ rfl rfl ?_ ?_⟩
  · simp only [quietEnd, seconds, List.pairwise_cons, List.mem_cons, List.not_mem_nil,
      forall_eq_or_imp]
    norm_num
  · refine ⟨?_, trivial, fun k _ => ?_, trivial, trivial, trivial, trivial⟩
    · exact List.not_mem_nil
    · exact List.not_mem_nil

/-- The session is renewed after it was found, and destroyed at once. -/
def lateRenewal : List (Int × Event) :=
  [(0, .create 9 (bytes "aonx") (bytes "s")), (seconds 61, .begin_sweep 60), (seconds 61, .read_next),
    (seconds 62, .find_session_by_token (bytes "s")), (seconds 62, .touch 0),
    (seconds 62, .destroy_next)]

theorem late_renewal_is_lost : ¬ Always (step fun _ => 0) OnlyIdle {} lateRenewal := by
  intro always
  have ends : OnlyIdle (run (step fun _ => 0) {} lateRenewal) :=
    (always_iff_isPrefix.mp always) lateRenewal (List.prefix_refl _)
  have killed : ⟨9, 60, 0⟩ ∈ (run (step fun _ => 0) {} lateRenewal).expired := by decide
  exact absurd (ends _ killed) (by decide)

end Proof

end SessionExpiry

end AoSdl
