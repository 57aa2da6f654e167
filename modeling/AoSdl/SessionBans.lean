import AoSdl.NXEndpoint

/-! Bans against new REST sessions. A ban is written by both protocols, and the endpoint that creates
sessions never looks for one. -/
namespace AoSdl
open Lib.Runs

namespace SessionCreateEndpoint

open NXEndpoint

variable (deps : Deps)

/-- The network identity `create_session` gives an address. -/
def ipid (remote_addr : Bytes) : Bytes :=
  if remote_addr.isEmpty then [] else (deps.sha256 remote_addr).take 8

/-- The request comes from a banned address, or with the hardware id of a ban. -/
def banned (s : NXService) (req : Request) : Bool :=
  (s.server.ban_manager.bind fun bm => bm.check_ban req.time.now (ipid deps req.remote_addr)
    ((req.body.map (·.hdid)).getD [])).isSome

/-- No session comes of a request that is banned. -/
def Rejects (s : NXService) (req : Request) : Prop :=
  banned deps s req = true → (handle deps s req).1.server.room_ = s.server.room_

/-- Something other than a ban stands against the request. -/
def Refused (s : NXService) (req : Request) : Prop :=
  (allow s req.time (bytes "session_create") req.remote_addr).1 = false ∨ match req.body with
    | none => True
    | some body => body.schema_error ≠ [] ∨ body.auth ≠ [] ∧
      (s.db.bind fun db => db.validate_auth_token (req.time.now / 1000000000) body.auth) = none

/-- What changes the service. Packets and commands of the other protocol come as session events. -/
inductive Event where
  | create (req : Request)
  | verdict (now : Int) (client_id : UInt64) (verdict : ModerationVerdict)
  | session (event : SessionEvent)
  | services (rate_limiter_ : Option RateLimiter) (db : Option AuthTokenTable)

def step (s : NXService) : Event → NXService
  | .create req => (handle deps s req).1
  | .verdict now client_id verdict =>
    match s.server.room_.get_session client_id with
    | none => s
    | some session => (NXEndpoint.apply_content_verdict deps s now session verdict).1
  | .session event => { s with server := AOServer.sessionStep deps s.server event }
  | .services rate_limiter_ db => { s with rate_limiter_, db }

/-- A banned request that creates no session. -/
def Kept (s : NXService) : Event → Prop
  | .create req => Rejects deps s req
  | _ => True

def Guarded (s : NXService) : Event → Prop
  | .create req => banned deps s req = true → Refused s req
  | _ => True

section Proof

variable {deps} {s : NXService}

theorem create_changes (req : Request) (body : Body) (auth_entry : Option AuthTokenEntry) :
    (create deps s req body auth_entry).server.room_ ≠ s.server.room_ := by
  intro same
  have counted : (create deps s req body auth_entry).server.room_.stats.joined =
      s.server.room_.stats.joined + 1 := by
    have bound (r : GameRoom) (entry : AuthTokenEntry) :
        (r.bind_session deps.strHash req.token body.auth entry).stats.joined = r.stats.joined := by
      unfold GameRoom.bind_session
      split
      · rfl
      · split <;> rfl
    have made (client : NXClient) : (NXServer.create_session deps.sha256 deps.strHash s.server.room_
        s.next_rest_id_ req.token client).stats.joined = s.server.room_.stats.joined + 1 := by
      simp only [NXServer.create_session, NXServer.introduce, GameRoom.create_session_with_token,
        GameRoom.countSession]
      split <;> rfl
    cases auth_entry with
    | none => exact made _
    | some entry => exact (bound _ entry).trans (made _)
  rw [same] at counted
  omega

theorem validate_auth_error (s : NXService) (time : RestTime) (auth : Bytes) :
    (∃ response, validate_auth s time auth = .error response) ↔ auth ≠ [] ∧
      (s.db.bind fun db => db.validate_auth_token (time.now / 1000000000) auth) = none := by
  unfold validate_auth
  cases auth with
  | nil => simp
  | cons b rest =>
    cases s.db with
    | none => simp
    | some db =>
      cases found : db.validate_auth_token (time.now / 1000000000) (b :: rest) <;> simp [found]

/-- The endpoint leaves the room alone exactly if it refuses the request. -/
theorem handle_room_iff (req : Request) :
    (handle deps s req).1.server.room_ = s.server.room_ ↔ Refused s req := by
  obtain ⟨server, db⟩ := allow_server s req.time (bytes "session_create") req.remote_addr
  unfold handle Refused
  cases allowed : (allow s req.time (bytes "session_create") req.remote_addr).1 with
  | false => simp [allowed, server]
  | true =>
    cases sent : req.body with
    | none => simp [allowed, server]
    | some body =>
      simp only [allowed, Bool.not_true, Bool.false_eq_true, if_false, Bool.true_eq_false, false_or]
      by_cases valid : body.schema_error = []
      · rw [if_neg (by simp [valid])]
        have refused := validate_auth_error (allow s req.time (bytes "session_create")
          req.remote_addr).2 req.time body.auth
        rw [db] at refused
        cases checked : validate_auth (allow s req.time (bytes "session_create") req.remote_addr).2
            req.time body.auth with
        | error response =>
          exact iff_of_true (by rw [server]) (.inr (refused.mp ⟨response, checked⟩))
        | ok auth_entry =>
          refine iff_of_false ?_ ?_
          · rw [← server]
            exact create_changes req body auth_entry
          · rintro (invalid | rejected)
            · exact invalid valid
            · obtain ⟨response, error⟩ := refused.mpr rejected
              rw [checked] at error
              cases error
      · rw [if_pos (by simpa using valid)]
        exact iff_of_true (by rw [server]) (.inl valid)

/-- After a ban for its contents, a session's address and its hardware id are banned until the ban is
over. -/
theorem banned_after_verdict {now : Int} {session : ServerSession} {verdict : ModerationVerdict}
    {bm : BanManager} (manager : s.server.ban_manager = some bm)
    (bans : verdict.action = .BAN ∨ verdict.action = .PERMA_BAN) {req : Request}
    (running : (content_ban session verdict now).is_expired req.time.now = false)
    (same : ipid deps req.remote_addr = session.ipid ∨
      session.hardware_id ≠ [] ∧ req.body.map (·.hdid) = some session.hardware_id) :
    banned deps (NXEndpoint.apply_content_verdict deps s now session verdict).1 req = true := by
  have written : (NXEndpoint.apply_content_verdict deps s now session verdict).1.server.ban_manager =
      some { bm with bans_ := bm.bans_.insert session.ipid (content_ban session verdict now) } := by
    unfold NXEndpoint.apply_content_verdict
    rcases bans with ban | ban <;> simp [ban, manager, destroy_session, AOServer.bans, AOServer.emit,
      BanManager.add_ban, content_ban]
  rw [banned, written, Option.bind_some, BanManager.check_ban, Option.isSome_or, Bool.or_eq_true]
  rcases same with network | ⟨named, hardware⟩
  · left
    rw [network, BanManager.find_ban, AList.lookup_insert, Option.filter_some_pos (by simp [running])]
    rfl
  · right
    rw [hardware, BanManager.find_ban_by_hdid, Option.getD_some, if_neg (by simpa using named),
      List.find?_isSome]
    refine ⟨content_ban session verdict now, List.mem_map.mpr ⟨⟨session.ipid, _⟩, ?_, rfl⟩, ?_⟩
    · exact AList.mem_lookup_iff.mp (AList.lookup_insert _)
    · have id : (content_ban session verdict now).hdid = session.hardware_id := rfl
      simp [id, named, running]

/-- Another address with the hardware of a session that was banned. -/
theorem banned_hardware : banned plainDeps (NXEndpoint.apply_content_verdict plainDeps
      { server.ban_manager := some {} } 0 { hardware_id := bytes "hd" } { action := .BAN }).1
    { remote_addr := bytes "10.0.0.2", body := some { hdid := bytes "hd" }, token := bytes "t" } = true :=
  banned_after_verdict rfl (.inl rfl) (by decide +kernel) (.inr ⟨by decide, rfl⟩)

/-- In every run a banned request creates no session exactly if something else stands against it. -/
theorem rejects_iff (deps : Deps) (s : NXService) (events : List Event) :
    Throughout (step deps) (Kept deps) s events ↔ Throughout (step deps) (Guarded deps) s events := by
  refine throughout_iff_of_simulation (R := Eq) ?_ ?_ rfl events
  · rintro s _ event rfl
    cases event with
    | create req => exact imp_congr_right fun _ => handle_room_iff req
    | _ => exact Iff.rfl
  · rintro s _ event rfl -
    rfl

end Proof

/-- A client creates a session, is banned for what it says, and creates another one. -/
def banEvader : List Event :=
  let req : Request :=
    { remote_addr := bytes "10.0.0.1", body := some { hdid := bytes "hd" }, token := bytes "s" }
  [.create req, .verdict 0 0x8000000000000000 { action := .BAN }, .create { req with token := bytes "t" }]

theorem ban_evader_gets_session :
    ¬ Throughout (step plainDeps) (Kept plainDeps) { server.ban_manager := some {} } banEvader := by
  intro rejects
  have created := rejects.2.2.1 (by decide +kernel)
  exact absurd (congrArg (·.stats.joined) created) (by decide +kernel)

end SessionCreateEndpoint

end AoSdl
