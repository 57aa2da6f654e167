import AoSdl.ModeratorCommands
import AoSdl.Lib.Runs

/-! The back-off of `/login` over every run of one session's attempts. -/
namespace AoSdl.LoginCommand
open Lib.Runs

/-- What a check of the password comes to. -/
inductive Checked where
  | unanswered (message : Bytes)
  | failed
  | granted (acl_role moderator_name message : Bytes)

def check_simple (deps : Deps) (ctx : CommandContext) (args : List Bytes) : Checked :=
  if ctx.mod_password.isEmpty then .unanswered (bytes "Authentication is not configured on this server.")
  else if !accepts deps ctx.mod_password (args.getD 1 []) then .failed
  else .granted (bytes "SUPER") [] (bytes "Logged in as moderator.")

def check_advanced (ctx : CommandContext) (args : List Bytes) : Checked :=
  if args.length < 3 then .unanswered (bytes "Usage: /login <username> <password>")
  else if !ctx.db_open then .unanswered (bytes "Database is not available.")
  else
    match ctx.get_user (args.getD 1 []) with
    | none => .failed
    | some user =>
      if !ctx.verify_password (args.getD 2 []) user.salt user.password then .failed
      else .granted user.acl user.username
        (bytes "Logged in as " ++ user.username ++ bytes " [" ++ user.acl ++ bytes "].")

/-- What a session asks for: a `/login` with the settings and the answers it meets, at a time in
nanoseconds of the steady clock, or a `/logout`. -/
inductive Request where
  | login (now : Int) (deps : Deps) (ctx : CommandContext) (args : List Bytes)
  | logout

def Request.check : Request → Checked
  | .login _ deps ctx args =>
    match ctx.auth_type with
    | .ADVANCED => check_advanced ctx args
    | .SIMPLE => check_simple deps ctx args
  | .logout => .unanswered (bytes "Logged out.")

/-- A session with the time of its last failed login. -/
structure Attempts where
  session : ServerSession
  last_login_failure : Int := 0

/-- A session that nobody has logged in on. -/
def Attempts.fresh (session : ServerSession) : Attempts := ⟨{ session with moderator := false, login_failures := 0 }, 0⟩

namespace Attempts

def elapsed (s : Attempts) (now : Int) : Int := now - s.last_login_failure

/-- The attempt gets to the check of the password. -/
def LetThrough (s : Attempts) (now : Int) : Prop :=
  s.session.moderator = false ∧
    ¬ (0 < login_cooldown_seconds s.session.login_failures ∧
      s.elapsed now < login_cooldown_seconds s.session.login_failures * 1000000000)

instance (s : Attempts) (now : Int) : Decidable (s.LetThrough now) := inferInstanceAs (Decidable (_ ∧ ¬ (_ ∧ _)))

def login_failed (s : Attempts) (now : Int) : Attempts where
  session := { s.session with login_failures := s.session.login_failures + 1 }
  last_login_failure := now

def logged_in (s : Attempts) (acl_role moderator_name : Bytes) : Attempts :=
  { s with session := { s.session with
      moderator := true, acl_role := acl_role, moderator_name := moderator_name, login_failures := 0 } }

def logged_out (s : Attempts) : Attempts :=
  { s with session := { s.session with
      moderator := false, acl_role := [], moderator_name := [], change_auth_started := false } }

def settle (s : Attempts) (now : Int) : Checked → Attempts
  | .unanswered _ => s
  | .failed => s.login_failed now
  | .granted acl_role moderator_name _ => s.logged_in acl_role moderator_name

def step (s : Attempts) (request : Request) : Attempts :=
  match request with
  | .logout => if s.session.moderator then s.logged_out else s
  | .login now _ _ _ => if s.LetThrough now then s.settle now request.check else s

/-- The attempt gets to the check, and the check comes to `checked`. -/
def Comes (s : Attempts) (request : Request) (checked : Checked) : Prop :=
  ∃ now deps ctx args, request = .login now deps ctx args ∧ s.LetThrough now ∧ request.check = checked

/-- The seconds that are to pass after `k` failures. -/
def due (k : Nat) : Nat := min (2 ^ k) 60

/-- Behind `k` failures in a row no attempt gets to the check before its time, and the delay never was
longer. -/
structure BacksOff (s : Attempts) : Prop where
  waits : ∀ k : Nat, 1 ≤ k → s.session.login_failures = k → ∀ now, s.LetThrough now →
    s.last_login_failure + due k * 1000000000 ≤ now
  grows : ∀ j : Int, j ≤ s.session.login_failures →
    login_cooldown_seconds j ≤ login_cooldown_seconds s.session.login_failures

/-- A success sets the counter back. -/
def Resets (s : Attempts) (request : Request) : Prop :=
  ∀ acl_role moderator_name message, s.Comes request (.granted acl_role moderator_name message) →
    (s.step request).session.login_failures = 0

/-- The request is not one that fails behind thirty failures in a row. -/
def Spared (s : Attempts) (request : Request) : Prop :=
  s.session.login_failures = 30 → ¬ s.Comes request .failed

end Attempts

section Effects

/-- What a command does to the fields of its session. -/
def written (session : ServerSession) : CommandEffect → ServerSession
  | .write_session _ w => { session with
      area := w.area, character_id := w.character_id, moderator := w.moderator
      acl_role := w.acl_role, moderator_name := w.moderator_name
      change_auth_started := w.change_auth_started, login_failures := w.login_failures }
  | _ => session

/-- What the command does behind a check. -/
def Checked.effects (client_id : UInt64) (session : ServerSession) : Checked → List CommandEffect
  | .unanswered message => [.send_system_message client_id message]
  | .failed => login_failed client_id session
  | .granted acl_role moderator_name message =>
    [.write_session client_id { session.writes with
        moderator := true, acl_role := acl_role, moderator_name := moderator_name, login_failures := 0 },
      .count_moderator 1, .send_system_message client_id message]

variable (deps : Deps) (ctx : CommandContext) (client_id : UInt64) (session : ServerSession) (args : List Bytes)

theorem login_simple_eq :
    login_simple deps ctx client_id session args = (check_simple deps ctx args).effects client_id session := by
  unfold login_simple check_simple
  split
  · rfl
  · split <;> rfl

theorem login_advanced_eq :
    login_advanced ctx client_id session args = (check_advanced ctx args).effects client_id session := by
  unfold login_advanced check_advanced
  split
  · rfl
  · split
    · rfl
    · cases ctx.get_user (args.getD 1 []) with
      | none => rfl
      | some user =>
        dsimp only
        split <;> rfl

/-- The step of a login writes what the command writes. -/
theorem written_execute (s : Attempts) (now : Int) :
    (execute deps { ctx with elapsed := s.elapsed now } client_id s.session args).foldl written s.session =
      (s.step (.login now deps ctx args)).session := by
  have wrote (checked : Checked) :
      (checked.effects client_id s.session).foldl written s.session = (s.settle now checked).session := by
    cases checked <;> rfl
  have next : s.step (.login now deps ctx args) =
      if s.LetThrough now then s.settle now (Request.login now deps ctx args).check else s := rfl
  rw [next]
  unfold execute
  by_cases moderator : s.session.moderator = true
  · have stays : ¬ s.LetThrough now := fun through => Bool.false_ne_true (through.1.symm.trans moderator)
    rw [if_pos moderator, if_neg stays]
    rfl
  · by_cases early : 0 < login_cooldown_seconds s.session.login_failures ∧
        s.elapsed now < login_cooldown_seconds s.session.login_failures * 1000000000
    · have stays : ¬ s.LetThrough now := fun through => through.2 early
      rw [if_neg moderator, if_neg stays]
      simp only [if_pos early]
      rfl
    · have through : s.LetThrough now := ⟨by simpa using moderator, early⟩
      rw [if_neg moderator, if_pos through]
      simp only [if_neg early]
      cases auth : ctx.auth_type with
      | ADVANCED => simp only [login_advanced_eq, Request.check, auth, wrote]; rfl
      | SIMPLE => simp only [login_simple_eq, Request.check, auth, wrote]; rfl

end Effects

section Cooldown

theorem wrap32_two_pow {k : Nat} (small : k ≤ 30) : wrap32 (2 ^ k) = 2 ^ k := by
  have bound : (2 : Int) ^ k ≤ 2 ^ 30 := pow_le_pow_right₀ (by norm_num) small
  have positive : (0 : Int) < 2 ^ k := by positivity
  exact Int.bmod_eq_of_le (by omega) (by omega)

theorem wrap32_two_pow_le {k : Nat} (large : 31 ≤ k) : wrap32 (2 ^ k) ≤ 0 := by
  obtain rfl | more := Nat.eq_or_lt_of_le large
  · decide
  · obtain ⟨j, rfl⟩ := Nat.exists_eq_add_of_le more
    have zero : wrap32 (2 ^ (32 + j)) = 0 := by
      rw [wrap32, pow_add]
      exact Int.bmod_eq_zero_of_dvd ⟨2 ^ j, by norm_num⟩
    exact zero.le

/-- Up to thirty failures the delay is the one that is due. -/
theorem login_cooldown_eq_due {k : Nat} (some : 1 ≤ k) (small : k ≤ 30) :
    login_cooldown_seconds k = Attempts.due k := by
  have positive : ¬ (k : Int) ≤ 0 := by omega
  simp only [login_cooldown_seconds, if_neg positive, Int.toNat_natCast, wrap32_two_pow small]
  unfold Attempts.due
  split
  · next longer => rw [min_eq_right (by exact_mod_cast longer.le)]; rfl
  · next fits => rw [min_eq_left (by exact_mod_cast not_lt.mp fits)]; norm_num

theorem login_cooldown_le_zero {k : Int} (large : 31 ≤ k) : login_cooldown_seconds k ≤ 0 := by
  have wrapped := wrap32_two_pow_le (k := k.toNat) (by omega)
  have positive : ¬ k ≤ 0 := by omega
  simp only [login_cooldown_seconds, if_neg positive]
  split
  · omega
  · exact wrapped

theorem login_cooldown_of_le {k : Int} (low : k ≤ 0) : login_cooldown_seconds k = 0 := if_pos low

theorem due_mono {j k : Nat} (le : j ≤ k) : Attempts.due j ≤ Attempts.due k :=
  min_le_min_right 60 (Nat.pow_le_pow_right (by decide) le)

theorem due_pos (k : Nat) : 1 ≤ Attempts.due k :=
  le_min (Nat.one_le_two_pow) (by decide)

end Cooldown

namespace Attempts

variable {s : Attempts} {request : Request}

/-- The counter counts, and a moderator has none. -/
structure Inv (s : Attempts) : Prop where
  counts : 0 ≤ s.session.login_failures
  guest : s.session.login_failures ≠ 0 → s.session.moderator = false

theorem step_cases (s : Attempts) (request : Request) :
    (∃ now, s.Comes request .failed ∧ s.LetThrough now ∧ s.step request = s.login_failed now) ∨
    ¬ s.Comes request .failed ∧
      (s.step request = s ∨ s.step request = s.logged_out ∨
        ∃ acl_role moderator_name, s.step request = s.logged_in acl_role moderator_name) := by
  cases request with
  | logout =>
    have next : s.step .logout = if s.session.moderator then s.logged_out else s := rfl
    have passes : ¬ s.Comes .logout .failed := by
      rintro ⟨_, _, _, _, same, _⟩
      cases same
    refine .inr ⟨passes, ?_⟩
    rw [next]
    split
    · exact .inr (.inl rfl)
    · exact .inl rfl
  | login now deps ctx args =>
    by_cases through : s.LetThrough now
    · cases checked : (Request.login now deps ctx args).check with
      | failed =>
        refine .inl ⟨now, ⟨now, deps, ctx, args, rfl, through, checked⟩, through, ?_⟩
        simp [step, through, checked, settle]
      | unanswered message =>
        refine .inr ⟨fun ⟨_, _, _, _, _, _, failed⟩ => ?_, .inl ?_⟩
        · rw [checked] at failed
          cases failed
        · simp [step, through, checked, settle]
      | granted acl_role moderator_name message =>
        refine .inr ⟨fun ⟨_, _, _, _, _, _, failed⟩ => ?_, .inr (.inr ⟨acl_role, moderator_name, ?_⟩)⟩
        · rw [checked] at failed
          cases failed
        · simp [step, through, checked, settle]
    · refine .inr ⟨fun ⟨_, _, _, _, same, again, _⟩ => ?_, .inl ?_⟩
      · cases same
        exact through again
      · simp [step, through]

theorem resets (s : Attempts) (request : Request) : s.Resets request := by
  rintro acl_role moderator_name message ⟨now, deps, ctx, args, rfl, through, checked⟩
  simp [step, through, checked, settle, logged_in]

theorem fresh_inv (session : ServerSession) : Inv (fresh session) := ⟨Int.le_refl 0, fun _ => rfl⟩

theorem step_inv (inv : Inv s) (request : Request) : Inv (s.step request) := by
  have counts := inv.counts
  rcases s.step_cases request with ⟨now, _, through, next⟩ | ⟨_, next | next | ⟨acl_role, moderator_name, next⟩⟩
  · rw [next]
    exact ⟨Int.add_nonneg counts (by decide), fun _ => through.1⟩
  · rwa [next]
  · rw [next]
    exact ⟨counts, fun _ => rfl⟩
  · rw [next]
    exact ⟨Int.le_refl 0, fun some => absurd rfl some⟩

/-- Up to thirty failures the back-off holds, and no further. -/
theorem backs_off_iff (inv : Inv s) : s.BacksOff ↔ s.session.login_failures ≤ 30 := by
  constructor
  · intro holds
    by_contra more
    -- an attempt at the time of the last failure gets through
    obtain ⟨k, count⟩ := Int.eq_ofNat_of_zero_le inv.counts
    have none := login_cooldown_le_zero (k := s.session.login_failures) (by omega)
    have through : s.LetThrough s.last_login_failure := ⟨inv.guest (by omega), fun early => by omega⟩
    have waited := holds.waits k (by omega) count s.last_login_failure through
    have positive := due_pos k
    omega
  · intro few
    constructor
    · intro k some count now through
      have delay := login_cooldown_eq_due some (k := k) (by omega)
      have late := through.2
      rw [count, delay, elapsed] at late
      have positive := due_pos k
      omega
    · intro j le
      by_cases low : j ≤ 0
      · rw [login_cooldown_of_le low]
        by_cases zero : s.session.login_failures ≤ 0
        · rw [login_cooldown_of_le zero]
        · obtain ⟨k, count⟩ := Int.eq_ofNat_of_zero_le inv.counts
          rw [count, login_cooldown_eq_due (by omega) (by omega)]
          exact Int.natCast_nonneg _
      · obtain ⟨i, rfl⟩ := Int.eq_ofNat_of_zero_le (by omega : 0 ≤ j)
        obtain ⟨k, count⟩ := Int.eq_ofNat_of_zero_le inv.counts
        rw [count, login_cooldown_eq_due (by omega) (by omega), login_cooldown_eq_due (by omega) (by omega)]
        exact Int.ofNat_le.mpr (due_mono (by omega))

/-- Wrong passwords, a minute apart. -/
def guesses (k : Nat) : List Request := (List.range k).map fun i =>
  .login (60000000000 * (i + 1 : Nat)) plainDeps { mod_password := bytes "secret" } [bytes "login", bytes "guess"]

/-- A run that comes to more than thirty failures in a row loses the back-off. -/
theorem lost_of_count {session : ServerSession} {requests : List Request}
    (many : 30 < (run step (fresh session) requests).session.login_failures) :
    ¬ Always step BacksOff (fresh session) requests := by
  intro always
  have last := always_iff_isPrefix.mp always requests List.prefix_rfl
  have inv : Inv (run step (fresh session) requests) :=
    invariant_run (P := Inv) (fun _ request inv => step_inv inv request) (fresh_inv session) requests
  exact absurd ((backs_off_iff inv).mp last) (Int.not_le.mpr many)

/-- Behind thirty-one wrong passwords there is no delay. -/
theorem guessing_unlimited : ¬ Always step BacksOff (fresh {}) (guesses 31) :=
  lost_of_count (by decide +kernel)

/-- Over a run of one session the back-off holds in every state exactly when no request fails behind
thirty failures in a row. -/
theorem back_off_exact_iff (session : ServerSession) (requests : List Request) :
    Always step BacksOff (fresh session) requests ∧ Throughout step Resets (fresh session) requests ↔
      Throughout step Spared (fresh session) requests := by
  refine always_and_throughout_iff (I := Inv) (fun s request inv => step_inv inv request) ?_ (fresh_inv session) ?_
    requests
  · intro s request inv holds
    rw [and_iff_left (s.resets request), backs_off_iff (step_inv inv request)]
    have few := (backs_off_iff inv).mp holds
    rcases s.step_cases request with ⟨now, fails, _, next⟩ | ⟨passes, next | next | ⟨acl_role, moderator_name, next⟩⟩
    · have counted : (s.step request).session.login_failures = s.session.login_failures + 1 := by rw [next]; rfl
      rw [counted]
      constructor
      · intro fits thirty
        omega
      · intro spared
        have other : s.session.login_failures ≠ 30 := fun thirty => spared thirty fails
        omega
    · rw [next]
      exact iff_of_true few fun _ => passes
    · rw [next]
      exact iff_of_true few fun _ => passes
    · have zero : (s.step request).session.login_failures = 0 := by rw [next]; rfl
      rw [zero]
      exact iff_of_true (by decide) fun _ => passes
  · exact (backs_off_iff (fresh_inv session)).mpr (Int.zero_le_ofNat 30)

end Attempts

end AoSdl.LoginCommand
