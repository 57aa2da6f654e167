import AoSdl.GameRoom
import AoSdl.HttpParsing
import AoSdl.RateLimiter

/-! `RestRouter::dispatch`: a request passes the rate limit and the authentication check on its way to
the endpoint's handler. The bucket is named by the request, before the check. The JSON parser and
the authentication function, which reads the room, come with the request. -/
namespace AoSdl
open Lib.Runs Lib.TokenBucket

structure RestEndpoint where
  method : Bytes
  path_pattern : Bytes
  requires_auth : Bool
  deriving DecidableEq

/-- How far a request comes. -/
inductive RestProgress where
  | answered (status : Int) (reason : Bytes)
  /-- Answered by the authentication check. -/
  | refused (status : Int) (reason : Bytes)
  | handled (session : Option ServerSession)

/-- The request is behind the rate limit. -/
def RestProgress.reached : RestProgress → Bool
  | .answered _ _ => false
  | .refused _ _ | .handled _ => true

/-- A request, and what the services it is put to do with it. -/
structure RestCall where
  endpoint : RestEndpoint
  req : http.Request
  /-- The body is accepted by the JSON parser. -/
  parses : Bool := true
  auth_func_ : Option (Bytes → Option ServerSession) := none

namespace RestRouter

def json_body (req : http.Request) : Bool :=
  !req.body.isEmpty &&
    (Lib.Search.find (bytes "application/json")
      (req.headers.get_header_value (bytes "Content-Type"))).isSome

def bearer_token (req : http.Request) : Bytes :=
  let auth_header := req.headers.get_header_value (bytes "Authorization")
  if 7 < auth_header.length && auth_header.take 7 = bytes "Bearer " then auth_header.drop 7 else []

/-- The key of the request's bucket. -/
def limit_key (req : http.Request) : Bytes :=
  if (bearer_token req).isEmpty then req.remote_addr else bearer_token req

def limit_action (endpoint : RestEndpoint) : Bytes := bytes "endpoint:" ++ endpoint.path_pattern

/-- The authentication check of an endpoint, and its handler behind it. -/
def authenticate (call : RestCall) : RestProgress :=
  let token := bearer_token call.req
  if !call.endpoint.requires_auth then .handled none
  else if token.isEmpty then .refused 401 (bytes "Missing session token")
  else
    match call.auth_func_ with
    | none => .refused 500 (bytes "Server authentication is not configured")
    | some auth_func =>
      match auth_func token with
      | none => .refused 401 (bytes "Invalid or expired session token")
      | some session => .handled (some session)

def dispatch (limiter : RateLimiter) (now : ℚ) (call : RestCall) : RestProgress × RateLimiter :=
  if json_body call.req && !call.parses then
    (.answered 400 (bytes "Malformed JSON in request body"), limiter)
  else
    let key := limit_key call.req
    if key.isEmpty then (authenticate call, limiter)
    else
      let (allowed, limiter) := limiter.allow now (limit_action call.endpoint) key
      if allowed then (authenticate call, limiter)
      else (.answered 429 (bytes "Rate limit exceeded"), limiter)

/-- The request carries the token of a session. -/
def authentic (call : RestCall) : Bool :=
  match call.auth_func_ with
  | none => false
  | some auth_func =>
    !(bearer_token call.req).isEmpty && (auth_func (bearer_token call.req)).isSome

/-- The requests to the endpoints, and the other uses of the limiter. -/
inductive Event where
  | request (call : RestCall)
  | call (action key : Bytes) (cost : Nat)
  | sweep

/-- The limiter, and the requests that got behind it so far with the times they asked. -/
structure Watch where
  rate_limiter_ : RateLimiter
  served : List (ℚ × RestCall) := []

def watch (w : Watch) (e : ℚ × Event) : Watch :=
  match e.2 with
  | .request call =>
    let (progress, limiter) := dispatch w.rate_limiter_ e.1 call
    ⟨limiter, if progress.reached then w.served ++ [(e.1, call)] else w.served⟩
  | .call action key cost => { w with rate_limiter_ := (w.rate_limiter_.allow e.1 action key cost).2 }
  | .sweep => { w with rate_limiter_ := (w.rate_limiter_.sweep e.1 300).1 }

/-- The request comes from the address, for the endpoint, and without the token of a session. -/
def concerns (endpoint : RestEndpoint) (addr : Bytes) (call : RestCall) : Bool :=
  call.endpoint = endpoint && call.req.remote_addr = addr && !authentic call

/-- How many such requests got behind the limiter from one time to another. -/
def served_between (endpoint : RestEndpoint) (addr : Bytes) (w : Watch) (start stop : ℚ) : Nat :=
  w.served.countP fun s => (start ≤ s.1 && s.1 ≤ stop) && concerns endpoint addr s.2

def WithinRule (endpoint : RestEndpoint) (addr : Bytes) (rule : RateLimitRule) (w : Watch) : Prop :=
  ∀ start L, 0 ≤ L →
    (served_between endpoint addr w start (start + L) : ℚ) ≤ rule.burst + rule.rate * L

/-- Requests of the address without the token of a session name one and the same bucket. Sweeps drop
full buckets only. -/
def Guarded (endpoint : RestEndpoint) (addr key : Bytes) (rule : RateLimitRule) (_ : Watch)
    (e : ℚ × Event) : Prop :=
  match e.2 with
  | .request call => concerns endpoint addr call = true → limit_key call.req = key
  | .call _ _ _ => True
  | .sweep => rule.burst ≤ 300 * rule.rate

section Proof

variable {endpoint : RestEndpoint} {addr key : Bytes} {rule : RateLimitRule} {now later : ℚ}
  {w : Watch} {charges : List (Charge ℚ)}

theorem reached_authenticate (call : RestCall) : (authenticate call).reached = true := by
  unfold authenticate
  dsimp only
  split
  · rfl
  split
  · rfl
  split
  · rfl
  split <;> rfl

/-- A request asks the limiter once, about the bucket it names, and gets behind it if it may; a
request that names none gets behind it unasked. -/
theorem dispatch_cases (limiter : RateLimiter) (now : ℚ) (call : RestCall) :
    (dispatch limiter now call).2 = limiter ∧
        ((dispatch limiter now call).1.reached = true → limit_key call.req = []) ∨
      (dispatch limiter now call).2 =
          (limiter.allow now (limit_action call.endpoint) (limit_key call.req)).2 ∧
        (dispatch limiter now call).1.reached =
          (limiter.allow now (limit_action call.endpoint) (limit_key call.req)).1 := by
  unfold dispatch
  split
  · exact .inl ⟨rfl, nofun⟩
  · dsimp only
    split
    · next empty => exact .inl ⟨rfl, fun _ => List.isEmpty_iff.mp empty⟩
    · right
      split
      · next allowed => exact ⟨rfl, (reached_authenticate call).trans allowed.symm⟩
      · next refused => exact ⟨rfl, (Bool.eq_false_iff.mpr refused).symm⟩

/-- The limiter tracks the reference bucket, and every request that counts was paid for. -/
structure Paced (endpoint : RestEndpoint) (addr key : Bytes) (rule : RateLimitRule) (now : ℚ)
    (w : Watch) (charges : List (Charge ℚ)) : Prop where
  tracks : RateLimiter.Tracks (limit_action endpoint) key rule now (w.rate_limiter_, charges)
  paid : ∀ start stop, (served_between endpoint addr w start stop : ℚ) ≤ spent charges start stop

theorem served_between_request (call : RestCall) (start stop : ℚ) :
    served_between endpoint addr (watch w (now, .request call)) start stop =
      served_between endpoint addr w start stop +
        if (dispatch w.rate_limiter_ now call).1.reached ∧ (start ≤ now ∧ now ≤ stop) ∧
          concerns endpoint addr call then 1 else 0 := by
  unfold served_between watch
  by_cases reached : (dispatch w.rate_limiter_ now call).1.reached = true
  · simp [reached, List.countP_append, List.countP_singleton, and_assoc]
  · simp [reached]

theorem Paced.request (paced : Paced endpoint addr key rule now w charges) (filling : 0 ≤ rule.rate)
    (full : 0 ≤ rule.burst) (named : key ≠ []) (call : RestCall)
    (guarded : Guarded endpoint addr key rule w (now, .request call)) :
    ∃ charges', Paced endpoint addr key rule now (watch w (now, .request call)) charges' := by
  rcases dispatch_cases w.rate_limiter_ now call with ⟨same, unnamed⟩ | ⟨asked, answer⟩
  · refine ⟨charges, by simpa [watch, same] using paced.tracks, fun start stop => ?_⟩
    have uncounted : ¬ ((dispatch w.rate_limiter_ now call).1.reached ∧ (start ≤ now ∧ now ≤ stop) ∧
        concerns endpoint addr call) := by
      rintro ⟨reached, -, concerned⟩
      exact named ((guarded concerned).symm.trans (unnamed reached))
    rw [served_between_request, if_neg uncounted]
    exact paced.paid start stop
  · obtain ⟨charges', tracks, more, charged⟩ := paced.tracks.call filling full
      (limit_action call.endpoint) (limit_key call.req) zero_le_one
    refine ⟨charges', by simpa [watch, asked] using tracks, fun start stop => ?_⟩
    rw [served_between_request]
    split
    · next counted =>
      obtain ⟨reached, inside, concerned⟩ := counted
      have here : call.endpoint = endpoint := by
        simp only [concerns, Bool.and_eq_true, decide_eq_true_eq] at concerned
        exact concerned.1.1
      rw [charged (answer ▸ reached) (by rw [here]) (guarded concerned), spent_cons, if_pos inside,
        Nat.cast_add, Nat.cast_one, add_comm]
      exact add_le_add_right (paced.paid start stop) 1
    · exact (paced.paid start stop).trans (more start stop)

theorem Paced.step (paced : Paced endpoint addr key rule now w charges) (filling : 0 ≤ rule.rate)
    (full : 0 ≤ rule.burst) (named : key ≠ []) (e : Event)
    (guarded : Guarded endpoint addr key rule w (now, e)) :
    ∃ charges', Paced endpoint addr key rule now (watch w (now, e)) charges' := by
  cases e with
  | request call => exact paced.request filling full named call guarded
  | call action k cost =>
    obtain ⟨charges', tracks, more, -⟩ := paced.tracks.call filling full action k cost.cast_nonneg
    exact ⟨charges', tracks, fun start stop => (paced.paid start stop).trans (more start stop)⟩
  | sweep => exact ⟨charges, paced.tracks.sweep filling guarded, paced.paid⟩

theorem Paced.within (paced : Paced endpoint addr key rule now w charges) (filling : 0 ≤ rule.rate)
    (full : 0 ≤ rule.burst) : WithinRule endpoint addr rule w := by
  intro start L long
  have bound := spent_le full filling paced.tracks.admitted (le_add_of_nonneg_right long : start ≤ start + L)
  rw [RateLimiter.reference, add_sub_cancel_left] at bound
  exact (paced.paid start (start + L)).trans bound

theorem Paced.run (paced : Paced endpoint addr key rule now w charges) (filling : 0 ≤ rule.rate)
    (full : 0 ≤ rule.burst) (named : key ≠ []) {events : List (ℚ × Event)}
    (ordered : events.Pairwise fun e f => e.1 ≤ f.1) (late : ∀ e ∈ events, now ≤ e.1)
    (guarded : Throughout watch (Guarded endpoint addr key rule) w events) :
    Always watch (WithinRule endpoint addr rule) w events := by
  refine always_timed (I := fun now w => ∃ charges, Paced endpoint addr key rule now w charges)
    (fun now w ⟨_, paced⟩ => paced.within filling full) ?_ ⟨charges, paced⟩ ordered late guarded
  rintro now w time event ⟨charges, paced⟩ le meets
  have reached := paced.tracks.mono le
  exact Paced.step ⟨reached, paced.paid⟩ filling full named event meets

/-- A limiter that has rules and has not been asked yet. -/
def started (rules : List (Bytes × RateLimitRule)) : Watch := ⟨RateLimiter.configured rules, []⟩

/-- In a run in which the requests of an address without the token of a session name one bucket, the
endpoint gets no more of them than the rule has. -/
theorem reached_within_rule {rules : List (Bytes × RateLimitRule)} {endpoint : RestEndpoint}
    {rule : RateLimitRule}
    (ruled : ((RateLimiter.configured rules).find_shard (limit_action endpoint)).map (·.rule) =
      some rule)
    (filling : 0 ≤ rule.rate) (full : 0 ≤ rule.burst) (addr : Bytes) {key : Bytes} (named : key ≠ [])
    {events : List (ℚ × Event)} (ordered : events.Pairwise fun e f => e.1 ≤ f.1)
    (guarded : Throughout watch (Guarded endpoint addr key rule) (started rules) events) :
    Always watch (WithinRule endpoint addr rule) (started rules) events := by
  obtain ⟨first, begins⟩ := exists_first ordered
  have start : Paced endpoint addr key rule first (started rules) [] :=
    ⟨RateLimiter.tracks_configured ruled first, fun start stop => by
      simp [started, served_between, spent]⟩
  exact start.run filling full named ordered begins guarded

def renew : RestEndpoint := ⟨bytes "PATCH", bytes "/aonx/v1/session", true⟩

/-- A request from `10.0.0.1` that no session belongs to. -/
def stranger (authorization : Bytes) : RestCall where
  endpoint := renew
  req := { remote_addr := bytes "10.0.0.1", headers := [(bytes "Authorization", authorization)] }
  auth_func_ := some fun _ => none

/-- Two requests with one token, and a third one 2 s later. -/
def retries : List (ℚ × Event) :=
  [(0, .request (stranger (bytes "Bearer x"))), (0, .request (stranger (bytes "Bearer x"))),
    (2, .request (stranger (bytes "Bearer x")))]

theorem retries_within_rule :
    Always watch (WithinRule renew (bytes "10.0.0.1") ⟨1, 1⟩)
      (started [(limit_action renew, ⟨1, 1⟩)]) retries := by
  have ruled : ((RateLimiter.configured [(limit_action renew, ⟨1, 1⟩)]).find_shard
    (limit_action renew)).map (·.rule) = some ⟨1, 1⟩ := by decide +kernel
  have named : limit_key (stranger (bytes "Bearer x")).req = bytes "x" := by decide +kernel
  refine reached_within_rule ruled zero_le_one zero_le_one _ (show bytes "x" ≠ [] by decide) ?_ ?_
  · simp only [retries, List.pairwise_cons, List.mem_cons, List.not_mem_nil, forall_eq_or_imp]
    norm_num
  · exact ⟨fun _ => named, fun _ => named, fun _ => named, trivial⟩

/-- Two requests with two tokens that are made up. -/
def guesses : List (ℚ × Event) :=
  [(0, .request (stranger (bytes "Bearer x"))), (0, .request (stranger (bytes "Bearer y")))]

theorem guesses_exceed_rule : ¬ WithinRule renew (bytes "10.0.0.1") ⟨1, 1⟩
    (run watch (started [(limit_action renew, ⟨1, 1⟩)]) guesses) := by
  intro within
  have two : served_between renew (bytes "10.0.0.1")
    (run watch (started [(limit_action renew, ⟨1, 1⟩)]) guesses) 0 (0 + 0) = 2 := by decide +kernel
  have bound := within 0 0 (le_refl 0)
  rw [two] at bound
  norm_num at bound

end Proof

end RestRouter

end AoSdl
