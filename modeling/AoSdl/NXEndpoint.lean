import AoSdl.RateLimiter
import AoSdl.SessionStats

/-! The endpoints of the REST interface: what they reach, how they act on a verdict of the content
moderator, and `SessionCreateEndpoint` as one step. JSON bodies are what the parser and the schema
make of them. -/
namespace AoSdl
open Lib.Runs

/-- The texts of a JSON object by name; the elements of an array share theirs. -/
structure RestResponse where
  status : Int
  body : List (Bytes × Bytes) := []
  deriving DecidableEq

def RestResponse.error (status : Int) (reason : Bytes) : RestResponse :=
  ⟨status, [(bytes "reason", reason)]⟩

/-- The room behind the server with its bans, the limiter if one is set, and the table of auth tokens
if the database is open. -/
structure NXService where
  server : AOServer := {}
  rate_limiter_ : Option RateLimiter := none
  db : Option AuthTokenTable := none
  next_rest_id_ : UInt64 := 0x8000000000000000

/-- What a request was when it came: seconds of the steady clock and nanoseconds of the system's. -/
structure RestTime where
  steady : ℚ := 0
  now : Int := 0

namespace NXEndpoint

variable (deps : Deps)

def allow (s : NXService) (time : RestTime) (action key : Bytes) : Bool × NXService :=
  match s.rate_limiter_ with
  | none => (true, s)
  | some limiter =>
    let (allowed, limiter) := limiter.allow time.steady action key
    (allowed, { s with rate_limiter_ := some limiter })

theorem allow_server (s : NXService) (time : RestTime) (action key : Bytes) :
    (allow s time action key).2.server = s.server ∧ (allow s time action key).2.db = s.db := by
  unfold allow
  split <;> exact ⟨rfl, rfl⟩

def destroy_session (s : NXService) (client_id : UInt64) : NXService :=
  { s with server.room_ := s.server.room_.destroy_session deps.strHash client_id }

inductive ContentVerdictResult where
  | Pass
  | Censor
  | early_return (response : RestResponse)
  deriving DecidableEq

/-- The ban of a session for its contents. -/
def content_ban (session : ServerSession) (verdict : ModerationVerdict) (now : Int) : BanEntry :=
  { ipid := session.ipid, ip := session.ip_address, hdid := session.hardware_id
    reason := bytes "[auto] content: " ++ verdict.reason
    moderator := bytes "ContentModerator", timestamp := now / 1000000000
    duration := if verdict.action = .PERMA_BAN then -2 else 24 * 60 * 60 }

def apply_content_verdict (s : NXService) (now : Int) (session : ServerSession)
    (verdict : ModerationVerdict) : NXService × ContentVerdictResult :=
  let stopped : ContentVerdictResult :=
    .early_return (.error 403 (bytes "Content moderation: " ++ verdict.reason))
  match verdict.action with
  | .NONE | .LOG => (s, .Pass)
  | .CENSOR => (s, .Censor)
  | .DROP | .MUTE =>
    (s, .early_return ⟨200, [(bytes "accepted", bytes "false"), (bytes "reason", bytes "content")]⟩)
  | .KICK => (destroy_session deps s session.client_id, stopped)
  | .BAN | .PERMA_BAN =>
    let s := match s.server.ban_manager with
      | none => s
      | some bm => { s with server := s.server.bans (bm.add_ban (content_ban session verdict now) now) }
    (destroy_session deps s session.client_id, stopped)

end NXEndpoint

namespace SessionCreateEndpoint

open NXEndpoint

variable (deps : Deps)

/-- `schema_error` is what the schema says against the body. -/
structure Body where
  schema_error : Bytes := []
  client_name : Bytes := []
  client_version : Bytes := []
  hdid : Bytes := []
  auth : Bytes := []

/-- A request with the token that is generated if it is served. -/
structure Request where
  remote_addr : Bytes := []
  body : Option Body := none
  token : Bytes := []
  time : RestTime := {}

/-- The row of the auth token that the request carries, if it carries one; or why there is none. -/
def validate_auth (s : NXService) (time : RestTime) (auth : Bytes) :
    Except RestResponse (Option AuthTokenEntry) :=
  if auth.isEmpty then .ok none
  else
    match s.db with
    | none => .error (.error 503 (bytes "Database unavailable"))
    | some db =>
      match db.validate_auth_token (time.now / 1000000000) auth with
      | none => .error (.error 401 (bytes "Invalid or expired auth token"))
      | some entry => .ok (some entry)

/-- `create_session`, and the identity of the token bound to the session. -/
def create (s : NXService) (req : Request) (body : Body) (auth_entry : Option AuthTokenEntry) :
    NXService :=
  let client := AuthSystem.sanitized
    { hdid := body.hdid, client_name := body.client_name, client_version := body.client_version
      remote_addr := req.remote_addr }
  let room_ := NXServer.create_session deps.sha256 deps.strHash s.server.room_ s.next_rest_id_
    req.token client
  let room_ := match auth_entry with
    | none => room_
    | some entry => room_.bind_session deps.strHash req.token body.auth entry
  { s with server := { s.server with room_ }, next_rest_id_ := s.next_rest_id_ + 1 }

def created (s : NXService) (req : Request) (body : Body) (auth_entry : Option AuthTokenEntry) :
    RestResponse :=
  ⟨201, [(bytes "token", req.token), (bytes "id", AOServer.of_uint64 s.server.room_.next_session_id_),
    (bytes "display_name", AuthSystem.sanitize body.client_name 64), (bytes "roles", bytes "player")] ++
    if auth_entry.isSome then [(bytes "roles", bytes "moderator")] else []⟩

def handle (s : NXService) (req : Request) : NXService × RestResponse :=
  let (allowed, s) := allow s req.time (bytes "session_create") req.remote_addr
  if !allowed then (s, .error 429 (bytes "Too many session creation attempts"))
  else
    match req.body with
    | none => (s, .error 400 (bytes "Request body is required"))
    | some body =>
      if !body.schema_error.isEmpty then (s, .error 400 body.schema_error)
      else
        match validate_auth s req.time body.auth with
        | .error response => (s, response)
        | .ok auth_entry => (create deps s req body auth_entry, created s req body auth_entry)

end SessionCreateEndpoint

end AoSdl
