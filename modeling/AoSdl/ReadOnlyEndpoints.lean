import AoSdl.AreaSpeech

/-! The endpoints that declare `readonly()` and run under the shared dispatch lock. Two of them act on
a verdict of the content moderator. What a handler reads besides the room is a `ReadView`. -/
namespace AoSdl

inductive Json where
  | null
  | bool (b : Bool)
  | number (n : Int)
  | string (s : Bytes)
  | array (items : List Json)
  | object (fields : List (Bytes × Json))

structure AreaMusic where
  name : Bytes := []
  asset_hash : Bytes := []
  looping : Bool := false
  channel : Int := 0

structure AreaTimer where
  value_ms : Int := 0
  running : Bool := false

/-- What only these endpoints read of an area. -/
structure AreaDetails where
  path : Bytes := []
  manifest_hash : Bytes := []
  music : AreaMusic := {}
  timers : List (Int × AreaTimer) := []

/-- What only these endpoints read of a session. -/
structure SessionTraffic where
  bytes_sent : UInt64 := 0
  bytes_received : UInt64 := 0
  packets_sent : UInt64 := 0
  packets_received : UInt64 := 0
  mod_actions : UInt64 := 0
  idle_seconds : Int := 0

/-- The rest of the state, by area and client, the index of character ids, and the configuration file or
why it cannot be read. JSON pointers are those of the JSON library. -/
structure ReadView where
  char_ids_ : List Bytes := []
  ao_sdl_version : Bytes := []
  motd : Bytes := []
  area : Bytes → AreaDetails := fun _ => {}
  traffic : UInt64 → SessionTraffic := fun _ => {}
  disk_config : Except Bytes Json := .error []
  resolve_key : Json → Bytes → Option Json := fun _ _ => none

structure JsonResponse where
  status : Int
  body : Json

def RestResponse.to_json (r : RestResponse) : JsonResponse :=
  ⟨r.status, .object (r.body.map fun (name, text) => (name, .string text))⟩

def JsonResponse.error (status : Int) (reason : Bytes) : JsonResponse :=
  (RestResponse.error status reason).to_json

namespace ReadView

variable (view : ReadView)

def find_char_index (char_id : Bytes) : Option Nat :=
  (view.char_ids_.zipIdx.reverse.find? (·.1 = char_id)).map (·.2)

def char_id_at (index : Int) : Bytes := if index < 0 then [] else view.char_ids_.getD index.toNat []

end ReadView

namespace AreaOocEndpoint

open NXEndpoint

structure OocMessage where
  schema_error : Bytes := []
  name : Bytes := []
  message : Bytes := []

structure Request where
  area_id : Option Bytes := none
  body : Option OocMessage := none
  verdict : Option ModerationVerdict := none
  time : RestTime := {}

def checked (room : GameRoom) (session : ServerSession) (req : Request) :
    Except RestResponse (Bytes × OOCAction) :=
  match req.area_id, req.body with
  | none, _ => .error (.error 400 (bytes "Missing area_id"))
  | some _, none => .error (.error 400 (bytes "Request body is required"))
  | some area_id, some body =>
    if !body.schema_error.isEmpty then .error (.error 400 body.schema_error)
    else if 0 < room.max_ooc_message_length ∧
        room.max_ooc_message_length < intOfSize body.message.length then
      .error (.error 400 (bytes "OOC message too long"))
    else .ok (area_id, { sender_id := session.client_id, name := body.name, message := body.message })

def handle_ooc_target (r : GameRoom) (action : OOCAction) (target_area : Bytes) : List RoomEvent :=
  match r.get_session action.sender_id with
  | none => []
  | some session => if session.joined then [.ooc target_area action] else []

def moderated (deps : Deps) (s : NXService) (session : ServerSession) (req : Request) :
    NXService × ContentVerdictResult :=
  match req.verdict with
  | none => (s, .Pass)
  | some verdict => NXEndpoint.apply_content_verdict deps s req.time.now session verdict

def handle (deps : Deps) (s : NXService) (session : ServerSession) (req : Request) :
    NXService × RestResponse :=
  let (allowed, s) := allow s req.time (bytes "nx:ooc") session.ipid
  if !allowed then (s, .error 429 (bytes "Too many OOC messages"))
  else
    match checked s.server.room_ session req with
    | .error response => (s, response)
    | .ok (area_id, action) =>
      match moderated deps s session req with
      | (s, .early_return response) => (s, response)
      | (s, verdict) =>
        let action := if verdict = .Censor then { action with message := bytes "[filtered]" } else action
        match AreaIcEndpoint.addressed s.server.room_ session area_id with
        | .error response => (s, response)
        | .ok names =>
          let events := names.flatMap (handle_ooc_target s.server.room_ action)
          ({ s with server := events.foldl AOServer.deliver s.server },
            ⟨200, [(bytes "accepted", bytes "true")]⟩)

end AreaOocEndpoint

/-- A request to one of the endpoints, with what its handler reads of it. -/
inductive ReadOnlyRequest where
  | server
  | characters
  | character (char_id : Option Bytes)
  | areas
  | area (area_id : Option Bytes)
  | players (area_id : Option Bytes)
  | admin_sessions
  | admin_config (key : Option Bytes)
  | ic (req : AreaIcEndpoint.Request)
  | ooc (req : AreaOocEndpoint.Request)

namespace ReadOnlyEndpoints

variable (view : ReadView) (room : GameRoom) (session : ServerSession)

def text (name : String) (value : Bytes) : Bytes × Json := (bytes name, .string value)

def number (name : String) (value : Int) : Bytes × Json := (bytes name, .number value)

def flag (name : String) (value : Bool) : Bytes × Json := (bytes name, .bool value)

def server : JsonResponse :=
  ⟨200, .object [text "software" (bytes "kagami"), text "version" view.ao_sdl_version,
    text "name" room.server_name, text "description" room.server_description, text "motd" view.motd,
    number "online" (intOfSize room.session_count), number "max" room.max_players]⟩

def characters : JsonResponse :=
  ⟨200, .object [(bytes "characters", .array (room.characters.zipIdx.map fun (_, i) =>
    .object [text "char_id" (view.char_id_at i),
      flag "available" (room.char_taken[i]? = some 0)]))]⟩

def character (char_id : Option Bytes) : JsonResponse :=
  match char_id with
  | none => .error 400 (bytes "Missing char_id")
  | some id =>
    match view.find_char_index id with
    | none => .error 404 (bytes "Character not found")
    | some index =>
      ⟨200, .object [text "schema" (bytes "character"), number "schema_version" 1, text "id" id,
        text "name" (room.characters.getD index []), text "icon" [],
        (bytes "defaults", .object [text "side" (bytes "wit"), text "blip" []]),
        (bytes "emotes", .array [])]⟩

def area_object (state : AreaState) : Json :=
  .object [text "id" state.id, text "name" state.name, text "path" (view.area state.id).path,
    number "players" (intOfSize (room.sessions_in_area state.name).length),
    text "status" state.status, text "cm" state.cm, flag "locked" (state.lock_mode ≠ .FREE)]

def areas : JsonResponse :=
  ⟨200, .object [(bytes "areas", .array (room.states.map (area_object view room)))]⟩

def in_area (area_id : Option Bytes) (read : AreaState → JsonResponse) : JsonResponse :=
  match area_id with
  | none => .error 400 (bytes "Missing area_id")
  | some id =>
    match AreaIcEndpoint.resolve_area id session room with
    | none => .error 404 (bytes "Area not found")
    | some state => read state

def area (area_id : Option Bytes) : JsonResponse :=
  in_area room session area_id fun state =>
    let details := view.area state.id
    let bg := if state.background.name.isEmpty then .null else
      .object [text "name" state.background.name, text "manifest_hash" details.manifest_hash,
        text "position" state.background.position]
    let mus := if details.music.name.isEmpty then .null else
      .object [text "name" details.music.name, text "asset_hash" details.music.asset_hash,
        flag "looping" details.music.looping, number "channel" details.music.channel]
    ⟨200, .object [(bytes "area", area_object view room state), (bytes "background", bg),
      (bytes "music", mus),
      (bytes "hp", .object [number "defense" state.hp.defense, number "prosecution" state.hp.prosecution]),
      (bytes "timers", .array (details.timers.map fun (tid, t) =>
        .object [number "timer_id" tid, number "value_ms" t.value_ms, flag "running" t.running]))]⟩

def players (area_id : Option Bytes) : JsonResponse :=
  in_area room session area_id fun state =>
    ⟨200, .object [(bytes "players", .array ((room.sessions_in_area state.name).map fun s =>
      .object [text "user_id" (to_string s.session_id.toNat), text "display_name" s.display_name,
        (bytes "character", if 0 ≤ s.character_id then .string (view.char_id_at s.character_id)
          else .null)]))]⟩

def admin_sessions : JsonResponse :=
  if !session.moderator then .error 403 (bytes "Moderator privileges required")
  else
    ⟨200, .array (room.sessions.map fun s =>
      let t := view.traffic s.client_id
      .object [number "session_id" s.session_id.toNat, text "display_name" s.display_name,
        text "protocol" s.protocol, text "area" s.area, number "character_id" s.character_id,
        text "hardware_id" s.hardware_id, text "client_software" s.client_software,
        number "bytes_sent" t.bytes_sent.toNat, number "bytes_received" t.bytes_received.toNat,
        number "packets_sent" t.packets_sent.toNat, number "packets_received" t.packets_received.toNat,
        number "mod_actions" t.mod_actions.toNat, number "idle_seconds" t.idle_seconds])⟩

/-- Why the request is refused, if it is. -/
def require_super : Option JsonResponse :=
  if !session.moderator then some (.error 403 (bytes "Authentication required"))
  else if (ACLPermission.acl_permissions_for_role session.acl_role).has_permission .SUPER then none
  else some (.error 403 (bytes "SUPER privileges required"))

def admin_config (key : Option Bytes) : JsonResponse :=
  match require_super session with
  | some response => response
  | none =>
    match view.disk_config with
    | .error error => .error 500 error
    | .ok config =>
      match key.filter (!·.isEmpty) with
      | none => ⟨200, config⟩
      | some key =>
        match view.resolve_key config key with
        | none => .error 404 (bytes "Key not found: " ++ key)
        | some value => ⟨200, .object [text "key" key, (bytes "value", value)]⟩

/-- The handler of an endpoint, for the session of the request's token. -/
def handle (deps : Deps) (s : NXService) : ReadOnlyRequest → NXService × JsonResponse
  | .server => (s, server view s.server.room_)
  | .characters => (s, characters view s.server.room_)
  | .character char_id => (s, character view s.server.room_ char_id)
  | .areas => (s, areas view s.server.room_)
  | .area area_id => (s, area view s.server.room_ session area_id)
  | .players area_id => (s, players view s.server.room_ session area_id)
  | .admin_sessions => (s, admin_sessions view s.server.room_ session)
  | .admin_config key => (s, admin_config view session key)
  | .ic req =>
    let (s, response, _) := AreaIcEndpoint.handle deps s session req
    (s, response.to_json)
  | .ooc req =>
    let (s, response) := AreaOocEndpoint.handle deps s session req
    (s, response.to_json)

/-- The session map, the token index, the marks of the characters and the counters are what they were. -/
structure Unchanged (r t : GameRoom) : Prop where
  sessions : t.sessions_ = r.sessions_
  tokens : t.token_index_ = r.token_index_
  taken : t.char_taken = r.char_taken
  stats : t.stats = r.stats

/-- The verdict ends the session. -/
def expels (verdict : ModerationVerdict) : Bool :=
  verdict.action = .KICK || verdict.action = .BAN || verdict.action = .PERMA_BAN

/-- The request passes the checks in front of the moderator, and its verdict ends the session. -/
def reaches_expulsion (s : NXService) (session : ServerSession) : ReadOnlyRequest → Bool
  | .ic req => (NXEndpoint.allow s req.time (bytes "nx:ic") session.ipid).1 &&
    (AreaIcEndpoint.checked s.server.room_ session req).toBool && req.verdict.any expels
  | .ooc req => (NXEndpoint.allow s req.time (bytes "nx:ooc") session.ipid).1 &&
    (AreaOocEndpoint.checked s.server.room_ session req).toBool && req.verdict.any expels
  | _ => false

section Proof

variable {deps : Deps} {s : NXService} {session : ServerSession}

theorem room_verdict (s : NXService) (now : Int) (session : ServerSession) (verdict : ModerationVerdict) :
    (NXEndpoint.apply_content_verdict deps s now session verdict).1.server.room_ =
      if expels verdict then s.server.room_.destroy_session deps.strHash session.client_id
      else s.server.room_ := by
  unfold NXEndpoint.apply_content_verdict expels
  cases action : verdict.action with
  | BAN | PERMA_BAN =>
    dsimp only
    split <;> simp [NXEndpoint.destroy_session, AOServer.bans, AOServer.emit]
  | _ => simp [NXEndpoint.destroy_session]

theorem room_moderated_ic (s : NXService) (session : ServerSession) (req : AreaIcEndpoint.Request) :
    (AreaIcEndpoint.moderated deps s session req).1.server.room_ =
      if req.verdict.any expels then s.server.room_.destroy_session deps.strHash session.client_id
      else s.server.room_ := by
  unfold AreaIcEndpoint.moderated
  cases req.verdict with
  | none => rfl
  | some verdict => exact room_verdict s req.time.now session verdict

theorem room_moderated_ooc (s : NXService) (session : ServerSession) (req : AreaOocEndpoint.Request) :
    (AreaOocEndpoint.moderated deps s session req).1.server.room_ =
      if req.verdict.any expels then s.server.room_.destroy_session deps.strHash session.client_id
      else s.server.room_ := by
  unfold AreaOocEndpoint.moderated
  cases req.verdict with
  | none => rfl
  | some verdict => exact room_verdict s req.time.now session verdict

/-- Something is said in an area. -/
def IsSpeech (e : RoomEvent) : Prop :=
  ∃ area, (∃ action, e = .ic area action) ∨ ∃ action, e = .ooc area action

theorem room_speech {events : List RoomEvent} (speech : ∀ e ∈ events, IsSpeech e) (t : AOServer) :
    (events.foldl AOServer.deliver t).room_ = t.room_ := by
  induction events generalizing t with
  | nil => rfl
  | cons e events ih =>
    obtain ⟨heard, later⟩ := List.forall_mem_cons.mp speech
    rw [List.foldl_cons, ih later]
    obtain ⟨area, ⟨action, rfl⟩ | ⟨action, rfl⟩⟩ := heard
    · rfl
    · rfl

theorem speech_targets {target : Bytes → List RoomEvent}
    (each : ∀ name, target name = [] ∨ ∃ e, target name = [e] ∧ IsSpeech e) (names : List Bytes) :
    ∀ e ∈ names.flatMap target, IsSpeech e := by
  refine List.forall_mem_flatMap.mpr fun name _ => ?_
  rcases each name with silent | ⟨e, said, speech⟩
  · exact silent ▸ fun e inside => absurd inside List.not_mem_nil
  · exact said ▸ List.forall_mem_singleton.mpr speech

theorem speech_ic (r : GameRoom) (action : ICAction) (names : List Bytes) :
    ∀ e ∈ names.flatMap (r.handle_ic_target action), IsSpeech e := by
  refine speech_targets (fun name => ?_) names
  unfold GameRoom.handle_ic_target
  split
  · exact .inl rfl
  · split
    · exact .inr ⟨_, rfl, name, .inl ⟨action, rfl⟩⟩
    · exact .inl rfl

theorem speech_ooc (r : GameRoom) (action : OOCAction) (names : List Bytes) :
    ∀ e ∈ names.flatMap (AreaOocEndpoint.handle_ooc_target r action), IsSpeech e := by
  refine speech_targets (fun name => ?_) names
  unfold AreaOocEndpoint.handle_ooc_target
  split
  · exact .inl rfl
  · split
    · exact .inr ⟨_, rfl, name, .inr ⟨action, rfl⟩⟩
    · exact .inl rfl

theorem room_ic (s : NXService) (session : ServerSession) (req : AreaIcEndpoint.Request) :
    (AreaIcEndpoint.handle deps s session req).1.server.room_ =
      if reaches_expulsion s session (.ic req) then
        s.server.room_.destroy_session deps.strHash session.client_id
      else s.server.room_ := by
  have same := (NXEndpoint.allow_server s req.time (bytes "nx:ic") session.ipid).1
  unfold AreaIcEndpoint.handle reaches_expulsion
  cases allowed : (NXEndpoint.allow s req.time (bytes "nx:ic") session.ipid).1 with
  | false => simp [allowed, same]
  | true =>
    simp only [allowed, Bool.not_true, Bool.false_eq_true, if_false, Bool.true_and, same]
    cases AreaIcEndpoint.checked s.server.room_ session req with
    | error response => simp [same, Except.toBool]
    | ok passed =>
      obtain ⟨area_id, action⟩ := passed
      have room := @room_moderated_ic deps (NXEndpoint.allow s req.time (bytes "nx:ic")
        session.ipid).2 session req
      rw [same] at room
      simp only [Except.toBool, Bool.true_and]
      rw [← room]
      obtain ⟨u, verdict⟩ := AreaIcEndpoint.moderated deps
        (NXEndpoint.allow s req.time (bytes "nx:ic") session.ipid).2 session req
      cases verdict with
      | early_return response => rfl
      | Pass | Censor =>
        dsimp only
        split
        · rfl
        · exact room_speech (speech_ic _ _ _) _

theorem room_ooc (s : NXService) (session : ServerSession) (req : AreaOocEndpoint.Request) :
    (AreaOocEndpoint.handle deps s session req).1.server.room_ =
      if reaches_expulsion s session (.ooc req) then
        s.server.room_.destroy_session deps.strHash session.client_id
      else s.server.room_ := by
  have same := (NXEndpoint.allow_server s req.time (bytes "nx:ooc") session.ipid).1
  unfold AreaOocEndpoint.handle reaches_expulsion
  cases allowed : (NXEndpoint.allow s req.time (bytes "nx:ooc") session.ipid).1 with
  | false => simp [allowed, same]
  | true =>
    simp only [allowed, Bool.not_true, Bool.false_eq_true, if_false, Bool.true_and, same]
    cases AreaOocEndpoint.checked s.server.room_ session req with
    | error response => simp [same, Except.toBool]
    | ok passed =>
      obtain ⟨area_id, action⟩ := passed
      have room := @room_moderated_ooc deps (NXEndpoint.allow s req.time (bytes "nx:ooc")
        session.ipid).2 session req
      rw [same] at room
      simp only [Except.toBool, Bool.true_and]
      rw [← room]
      obtain ⟨u, verdict⟩ := AreaOocEndpoint.moderated deps
        (NXEndpoint.allow s req.time (bytes "nx:ooc") session.ipid).2 session req
      cases verdict with
      | early_return response => rfl
      | Pass | Censor =>
        dsimp only
        split
        · rfl
        · exact room_speech (speech_ooc _ _ _) _

theorem room_handle (view : ReadView) (session : ServerSession) (deps : Deps) (s : NXService)
    (request : ReadOnlyRequest) :
    (handle view session deps s request).1.server.room_ =
      if reaches_expulsion s session request then
        s.server.room_.destroy_session deps.strHash session.client_id
      else s.server.room_ := by
  cases request with
  | ic req => exact room_ic s session req
  | ooc req => exact room_ooc s session req
  | _ => rfl

theorem Unchanged.refl (r : GameRoom) : Unchanged r r := ⟨rfl, rfl, rfl, rfl⟩

theorem unchanged_destroy_iff (strHash : Bytes → BitVec 64) (r : GameRoom) (k : UInt64) :
    Unchanged r (r.destroy_session strHash k) ↔ r.get_session k = none := by
  constructor
  · intro same
    have gone := GameRoom.get_session_destroy strHash r k k
    rw [if_pos rfl, GameRoom.get_session, same.sessions] at gone
    exact gone
  · intro missing
    have still : r.destroy_session strHash k = r := by
      unfold GameRoom.destroy_session
      rw [show r.sessions_.find k = none from missing]
    rw [still]
    exact .refl r

end Proof

/-- A handler under the shared lock leaves the room as it is exactly if no verdict reached by the
request ends a live session. -/
theorem keeps_room_iff (view : ReadView) (session : ServerSession) (deps : Deps) (s : NXService)
    (request : ReadOnlyRequest) :
    Unchanged s.server.room_ (handle view session deps s request).1.server.room_ ↔
      (reaches_expulsion s session request = true →
        s.server.room_.get_session session.client_id = none) := by
  rw [room_handle]
  cases reaches_expulsion s session request with
  | false => exact iff_of_true (.refl _) nofun
  | true => exact (unchanged_destroy_iff deps.strHash _ _).trans ⟨fun gone _ => gone, fun gone => gone rfl⟩

/-- A REST session in a fresh room. -/
def oneSession : NXService :=
  { server.room_ := NXServer.create_session id plainDeps.strHash {} 0x8000000000000000 (bytes "token") {} }

def onlySession : ServerSession :=
  { client_id := 0x8000000000000000, session_token := bytes "token", protocol := bytes "aonx"
    client_software := bytes "/", joined := true }

/-- A message to its own area that gets the session kicked. -/
def kicked : ReadOnlyRequest :=
  .ic { area_id := some (bytes "_"), body := some {}, verdict := some { action := .KICK } }

theorem kick_under_shared_lock :
    oneSession.server.room_.get_session 0x8000000000000000 = some onlySession ∧
    ¬ Unchanged oneSession.server.room_
      (handle {} onlySession plainDeps oneSession kicked).1.server.room_ := by
  have here : oneSession.server.room_.get_session 0x8000000000000000 = some onlySession := by
    decide +kernel
  have reached : reaches_expulsion oneSession onlySession kicked = true := by decide +kernel
  refine ⟨here, ?_⟩
  rw [room_handle, reached, if_pos rfl, unchanged_destroy_iff]
  exact Option.ne_none_iff_exists'.mpr ⟨onlySession, here⟩

end ReadOnlyEndpoints

end AoSdl
