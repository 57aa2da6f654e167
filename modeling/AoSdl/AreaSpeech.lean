import AoSdl.CommandFrames
import AoSdl.NXEndpoint

/-! In-character messages and the locks of the areas they go to: the `MS` packet, and the endpoint of
the REST interface with the message it flattens. No path asks the area whether the sender may speak. -/
namespace AoSdl
open Lib.Runs

/-- `handle_ic` with an area to send to. -/
def GameRoom.handle_ic_target (r : GameRoom) (action : ICAction) (target_area : Bytes) :
    List RoomEvent :=
  match r.get_session action.sender_id with
  | none => []
  | some session => if session.joined then [.ic target_area action] else []

/-- Whether the area of this name, if there is one, lets the client speak. -/
def GameRoom.may_speak (r : GameRoom) (client_id : UInt64) (area : Bytes) : Bool :=
  r.states.all fun state => state.name ≠ area || state.can_speak_ic client_id

namespace AOPacketMS

/-- The server when the handler hands the message on, and what it hands on. -/
def forwarded (env : Env) (s : AOServer) (client_id : UInt64) (session : ServerSession)
    (fields : List Bytes) : AOServer × List RoomEvent :=
  if !session.joined then (s, [])
  else
    let act := action client_id fields
    let max_ic := s.room_.max_ic_message_length
    if 0 < max_ic ∧ max_ic < intOfSize act.message.length then (s, [])
    else
      match moderate env s client_id session act.message with
      | (s, none) => (s, [])
      | (s, some message) =>
        let act := { act with message }
        let s := if !act.showname.isEmpty && session.display_name ≠ act.showname then
          s.broadcast_player_update session.session_id 2 act.showname else s
        (s, s.room_.handle_ic act)

theorem handle_server_forwarded (env : Env) (s : AOServer) (client_id : UInt64)
    (session : ServerSession) (fields : List Bytes) :
    handle_server env s client_id session fields =
      (forwarded env s client_id session fields).2.foldl AOServer.deliver
        (forwarded env s client_id session fields).1 := by
  unfold handle_server forwarded
  split
  · rfl
  · dsimp only
    split
    · rfl
    · generalize moderate env s client_id session (action client_id fields).message = result
      obtain ⟨t, message⟩ := result
      cases message <;> rfl

/-- The message is not too long. -/
def fits (r : GameRoom) (fields : List Bytes) : Bool :=
  !(0 < r.max_ic_message_length && r.max_ic_message_length < intOfSize (field fields 4).length)

end AOPacketMS

namespace AreaIcEndpoint

open NXEndpoint

structure IcText where
  content : Bytes := []
  showname : Bytes := []
  additive : Bool := false
  immediate : Bool := false

/-- `flipped` says that the transform has a negative `scale_x`. -/
structure IcObject where
  id : Bytes := []
  initial_state : Bytes := []
  ref : Bytes := []
  flipped : Bool := false

structure IcAudio where
  asset : Bytes := []
  delay_ms : Int := 0

/-- The body of a request; `schema_error` is what the schema says against it. -/
structure IcMessage where
  schema_error : Bytes := []
  text : List IcText := []
  objects : List IcObject := []
  audio : List IcAudio := []
  /-- The names of the shaders. -/
  effects : List Bytes := []

/-- The first entry of each array. -/
def flatten_ic_message (body : IcMessage) (session : ServerSession) : ICAction :=
  let text := body.text.headD {}
  let obj := body.objects.headD {}
  let sfx := body.audio.headD {}
  { sender_id := session.client_id
    char_id := session.character_id
    character := if 0 ≤ session.character_id then session.display_name else []
    message := text.content
    showname := text.showname
    additive := text.additive
    immediate := text.immediate
    side := obj.id
    emote := if obj.initial_state.isEmpty then obj.ref else obj.initial_state
    flip := obj.flipped
    sfx_name := sfx.asset
    sfx_delay := sfx.delay_ms
    realization := body.effects.any (bytes "realization").isPrefixOf
    screenshake := body.effects.any fun shader =>
      !(bytes "realization").isPrefixOf shader && (bytes "screenshake").isPrefixOf shader }

/-- A request of a session, with the verdict on its message where a moderator is wired. -/
structure Request where
  area_id : Option Bytes := none
  body : Option IcMessage := none
  verdict : Option ModerationVerdict := none
  time : RestTime := {}

def resolve_area (area_id : Bytes) (session : ServerSession) (room : GameRoom) : Option AreaState :=
  if area_id = bytes "_" then room.find_area_by_name session.area else room.find_area area_id

/-- The names of the areas the message goes to, or why it goes nowhere. -/
def addressed (room : GameRoom) (session : ServerSession) (area_id : Bytes) :
    Except RestResponse (List Bytes) :=
  if area_id = bytes "*" then
    if !session.moderator then .error (.error 403 (bytes "All-areas broadcast requires moderator"))
    else .ok (room.states.map (·.name))
  else
    match resolve_area area_id session room with
    | none => .error (.error 404 (bytes "Area not found"))
    | some state => .ok [state.name]

/-- The checks of the request itself, with the message that passes them. -/
def checked (room : GameRoom) (session : ServerSession) (req : Request) :
    Except RestResponse (Bytes × ICAction) :=
  match req.area_id, req.body with
  | none, _ => .error (.error 400 (bytes "Missing area_id"))
  | some _, none => .error (.error 400 (bytes "Request body is required"))
  | some area_id, some body =>
    if !body.schema_error.isEmpty then .error (.error 400 body.schema_error)
    else
      let action := flatten_ic_message body session
      if 0 < room.max_ic_message_length ∧
          room.max_ic_message_length < intOfSize action.message.length then
        .error (.error 400 (bytes "IC message too long"))
      else .ok (area_id, action)

/-- What the moderator makes of the message. -/
def moderated (deps : Deps) (s : NXService) (session : ServerSession) (req : Request) :
    NXService × ContentVerdictResult :=
  match req.verdict with
  | none => (s, .Pass)
  | some verdict => NXEndpoint.apply_content_verdict deps s req.time.now session verdict

/-- The service and its answer, and the room's events in between. -/
def handle (deps : Deps) (s : NXService) (session : ServerSession) (req : Request) :
    NXService × RestResponse × List RoomEvent :=
  let (allowed, s) := allow s req.time (bytes "nx:ic") session.ipid
  if !allowed then (s, .error 429 (bytes "Too many IC messages"), [])
  else
    match checked s.server.room_ session req with
    | .error response => (s, response, [])
    | .ok (area_id, action) =>
      match moderated deps s session req with
      | (s, .early_return response) => (s, response, [])
      | (s, verdict) =>
        let action := if verdict = .Censor then { action with message := bytes "[filtered]" } else action
        match addressed s.server.room_ session area_id with
        | .error response => (s, response, [])
        | .ok names =>
          let events := names.flatMap (s.server.room_.handle_ic_target action)
          ({ s with server := events.foldl AOServer.deliver s.server },
            ⟨200, [(bytes "accepted", bytes "true")]⟩, events)

end AreaIcEndpoint

namespace AreaSpeech

/-- What changes the server: messages to the endpoint, everything about sessions, and reloads of the
content. -/
inductive Event where
  | ic (client_id : UInt64) (req : AreaIcEndpoint.Request)
  | session (event : SessionEvent)
  | reload (content : ContentWrite)
  | services (rate_limiter_ : Option RateLimiter) (db : Option AuthTokenTable)

def step (deps : Deps) (s : NXService) : Event → NXService
  | .ic client_id req =>
    match s.server.room_.get_session client_id with
    | none => s
    | some session => (AreaIcEndpoint.handle deps s session req).1
  | .session event => { s with server := AOServer.commandStep deps s.server event }
  | .reload content => { s with server := s.server.run_effect {} (.write_content content) }
  | .services rate_limiter_ db => { s with rate_limiter_, db }

/-- The player who sends an `MS` packet, and the packet. -/
def ms_packet (s : AOServer) (k : UInt64) (packet_str : Bytes) : Option (ServerSession × AOPacket) :=
  match AOPacket.deserialize packet_str, s.room_.get_session k with
  | some packet, some session =>
    if PacketFactory.find packet.header = some .MS then some (session, packet) else none
  | _, _ => none

/-- The in-character messages the room hands to the backends. -/
def broadcasts (deps : Deps) (s : NXService) : Event → List RoomEvent
  | .ic client_id req =>
    match s.server.room_.get_session client_id with
    | none => []
    | some session => (AreaIcEndpoint.handle deps s session req).2.2
  | .session (.ao _ (.packet env k packet_str)) =>
    match ms_packet s.server k packet_str with
    | none => []
    | some (session, packet) => (AOPacketMS.forwarded env s.server k session packet.fields).2
  | _ => []

/-- A message goes to an area that lets its sender speak. -/
def permitted (r : GameRoom) : RoomEvent → Bool
  | .ic area action => r.may_speak action.sender_id area
  | _ => true

def Allowed (deps : Deps) (s : NXService) (event : Event) : Prop :=
  ∀ e ∈ broadcasts deps s event, permitted s.server.room_ e = true

instance (deps : Deps) (s : NXService) (event : Event) : Decidable (Allowed deps s event) :=
  inferInstanceAs (Decidable (∀ e ∈ broadcasts deps s event, permitted s.server.room_ e = true))

/-- The verdict stops the message. -/
def stops (verdict : Option ModerationVerdict) : Bool :=
  !verdict.all fun v => v.action = .NONE || v.action = .LOG || v.action = .CENSOR

/-- The message the others hear. -/
def heard (verdict : Option ModerationVerdict) (message : Bytes) : Bytes :=
  if verdict.any (·.action = .CENSOR) then bytes "[filtered]" else message

/-- The sender may speak in its own area, or in those the request names, unless another check stops the
message. -/
def MaySpeak (s : NXService) : Event → Prop
  | .ic client_id req => ∀ session, s.server.room_.get_session client_id = some session →
    (NXEndpoint.allow s req.time (bytes "nx:ic") session.ipid).1 = true →
    ∀ area_id action, AreaIcEndpoint.checked s.server.room_ session req = .ok (area_id, action) →
    stops req.verdict = false →
    ∀ names, AreaIcEndpoint.addressed s.server.room_ session area_id = .ok names →
    s.server.joined session.client_id = some true →
    ∀ name ∈ names, s.server.room_.may_speak session.client_id name = true
  | .session (.ao _ (.packet env k packet_str)) => ∀ session packet,
    ms_packet s.server k packet_str = some (session, packet) → session.joined = true →
    AOPacketMS.fits s.server.room_ packet.fields = true → stops env.verdict = false →
    s.server.room_.may_speak k session.area = true
  | _ => True

section Proof

variable {deps : Deps} {env : Env} {s : AOServer} {k : UInt64} {session : ServerSession}

theorem room_notice (verdict : ModerationVerdict) :
    (send_mod_notice env s k verdict).room_ = s.room_ := by
  unfold send_mod_notice
  dsimp only
  split <;> rfl

theorem room_expelled (s : AOServer) (p : AOPacket) :
    ((s.send k p).close_client_deferred env k).room_ = s.room_ := by
  unfold AOServer.close_client_deferred AOServer.close
  split <;> rfl

theorem moderate_spec (env : Env) (s : AOServer) (k : UInt64) (session : ServerSession) (message : Bytes) :
    (moderate env s k session message).1.room_ = s.room_ ∧
      (moderate env s k session message).2 =
        if stops env.verdict then none else some (heard env.verdict message) := by
  unfold moderate
  cases env.verdict with
  | none => exact ⟨rfl, rfl⟩
  | some verdict =>
    unfold apply_content_verdict
    cases action : verdict.action with
    | NONE | LOG => simp [stops, heard, action]
    | CENSOR | DROP | MUTE => simp [stops, heard, action, room_notice]
    | KICK => simp [stops, action, room_expelled]
    | BAN | PERMA_BAN =>
      simp only [action]
      refine ⟨(room_expelled _ _).trans ?_, by simp [stops, action]⟩
      split <;> rfl

/-- What an `MS` packet makes the room hand on. -/
theorem forwarded_spec (env : Env) (found : s.room_.get_session k = some session) (fields : List Bytes) :
    (AOPacketMS.forwarded env s k session fields).1.room_ = s.room_ ∧
    (AOPacketMS.forwarded env s k session fields).2 =
      if session.joined && AOPacketMS.fits s.room_ fields && !stops env.verdict then
        [.ic session.area { AOPacketMS.action k fields with
          message := heard env.verdict (field fields 4) }]
      else [] := by
  unfold AOPacketMS.forwarded
  by_cases joined : session.joined = true
  · rw [if_neg (by simp [joined])]
    dsimp only
    have length : (AOPacketMS.action k fields).message = field fields 4 := rfl
    by_cases fits : AOPacketMS.fits s.room_ fields = true
    · have short : ¬(0 < s.room_.max_ic_message_length ∧
          s.room_.max_ic_message_length < intOfSize (field fields 4).length) := by
        rintro ⟨limited, long⟩
        simp [AOPacketMS.fits, limited, long] at fits
      rw [length, if_neg short]
      obtain ⟨room, message⟩ := moderate_spec env s k session (field fields 4)
      generalize moderate env s k session (field fields 4) = result at room message ⊢
      obtain ⟨t, _⟩ := result
      obtain rfl : _ = _ := message
      cases stopped : stops env.verdict with
      | true => exact ⟨room, by simp⟩
      | false =>
        have told (shown : Bool) (p : AOPacket) : (if shown then t.send_to_all p else t).room_ = s.room_ := by
          cases shown <;> exact room
        refine ⟨told _ _, (congrArg (GameRoom.handle_ic · _) (told _ _)).trans ?_⟩
        simp [GameRoom.handle_ic, AOPacketMS.action, found, joined, fits]
    · have long : 0 < s.room_.max_ic_message_length ∧
          s.room_.max_ic_message_length < intOfSize (field fields 4).length := by
        simpa [AOPacketMS.fits] using fits
      rw [length, if_pos long]
      exact ⟨rfl, by simp [fits]⟩
  · rw [if_pos (by simp [joined])]
    exact ⟨rfl, by simp [joined]⟩

theorem moderated_cases (deps : Deps) (t : NXService) (session : ServerSession)
    (req : AreaIcEndpoint.Request) :
    if stops req.verdict then
      ∃ u response, AreaIcEndpoint.moderated deps t session req = (u, .early_return response)
    else AreaIcEndpoint.moderated deps t session req = (t, .Pass) ∨
      AreaIcEndpoint.moderated deps t session req = (t, .Censor) := by
  unfold AreaIcEndpoint.moderated
  cases req.verdict with
  | none => exact .inl rfl
  | some verdict =>
    unfold NXEndpoint.apply_content_verdict
    cases action : verdict.action with
    | NONE | LOG => simp [stops, action]
    | CENSOR => simp [stops, action]
    | DROP | MUTE | KICK | BAN | PERMA_BAN => simp [stops, action]

theorem permitted_targets (r : GameRoom) {action : ICAction} {sender : UInt64}
    (sent : action.sender_id = sender) (names : List Bytes) :
    (∀ e ∈ names.flatMap (r.handle_ic_target action), permitted r e = true) ↔
      ((r.get_session sender).map (·.joined) = some true →
        ∀ name ∈ names, r.may_speak sender name = true) := by
  subst sent
  rw [List.forall_mem_flatMap]
  unfold GameRoom.handle_ic_target
  cases r.get_session action.sender_id with
  | none => simp
  | some session =>
    cases joined : session.joined with
    | false => simp [joined]
    | true => simp [joined, permitted]

theorem handle_allowed_iff (deps : Deps) (s : NXService) (session : ServerSession)
    (req : AreaIcEndpoint.Request) :
    (∀ e ∈ (AreaIcEndpoint.handle deps s session req).2.2, permitted s.server.room_ e = true) ↔
      ((NXEndpoint.allow s req.time (bytes "nx:ic") session.ipid).1 = true →
      ∀ area_id action, AreaIcEndpoint.checked s.server.room_ session req = .ok (area_id, action) →
      stops req.verdict = false →
      ∀ names, AreaIcEndpoint.addressed s.server.room_ session area_id = .ok names →
      s.server.joined session.client_id = some true →
      ∀ name ∈ names, s.server.room_.may_speak session.client_id name = true) := by
  have server := (NXEndpoint.allow_server s req.time (bytes "nx:ic") session.ipid).1
  unfold AreaIcEndpoint.handle
  cases allowed : (NXEndpoint.allow s req.time (bytes "nx:ic") session.ipid).1 with
  | false => simp [allowed]
  | true =>
    simp only [allowed, Bool.not_true, Bool.false_eq_true, if_false, forall_const, server]
    cases passed : AreaIcEndpoint.checked s.server.room_ session req with
    | error response => simp
    | ok request =>
      obtain ⟨area_id, action⟩ := request
      have sent : action.sender_id = session.client_id := by
        unfold AreaIcEndpoint.checked at passed
        split at passed
        · cases passed
        · cases passed
        · split at passed
          · cases passed
          · dsimp only at passed
            split at passed
            · cases passed
            · cases passed
              rfl
      have judged := moderated_cases deps (NXEndpoint.allow s req.time (bytes "nx:ic") session.ipid).2
        session req
      simp only [Except.ok.injEq, Prod.mk.injEq, and_imp, forall_eq', forall_apply_eq_imp_iff]
      cases stopped : stops req.verdict with
      | true =>
        rw [stopped, if_pos rfl] at judged
        obtain ⟨u, response, judged⟩ := judged
        simp [judged]
      | false =>
        rw [stopped, if_neg Bool.false_ne_true] at judged
        rcases judged with judged | judged
        all_goals
          rw [judged]
          dsimp only
          rw [server]
          cases AreaIcEndpoint.addressed s.server.room_ session area_id with
          | error response => simp
          | ok names =>
            simp only [Except.ok.injEq, forall_eq', forall_const]
            refine permitted_targets s.server.room_ ?_ names
            split <;> exact sent

theorem ms_session {packet : AOPacket} {packet_str : Bytes}
    (sent : ms_packet s k packet_str = some (session, packet)) :
    s.room_.get_session k = some session := by
  unfold ms_packet at sent
  split at sent
  · next found =>
    split at sent
    · cases sent
      exact found
    · cases sent
  · cases sent

/-- A step breaks no lock exactly if the sender of its message may speak or something else stops it. -/
theorem allowed_iff (deps : Deps) (s : NXService) (event : Event) :
    Allowed deps s event ↔ MaySpeak s event := by
  cases event with
  | ic client_id req =>
    cases found : s.server.room_.get_session client_id with
    | none => simp [Allowed, broadcasts, MaySpeak, found]
    | some session =>
      simp only [Allowed, broadcasts, MaySpeak, found, Option.some.injEq, forall_eq']
      exact handle_allowed_iff deps s session req
  | reload content => simp [Allowed, broadcasts, MaySpeak]
  | services rate_limiter_ db => simp [Allowed, broadcasts, MaySpeak]
  | session event =>
    cases event with
    | ao ctx input =>
      cases input with
      | packet env k packet_str =>
        cases sent : ms_packet s.server k packet_str with
        | none => simp [Allowed, broadcasts, MaySpeak, sent]
        | some player =>
          obtain ⟨session, packet⟩ := player
          obtain ⟨_, forwarded⟩ := forwarded_spec env (ms_session sent) packet.fields
          simp only [Allowed, broadcasts, MaySpeak, sent, forwarded, Option.some.injEq, Prod.mk.injEq,
            and_imp, forall_eq', forall_apply_eq_imp_iff]
          cases session.joined <;> cases AOPacketMS.fits s.server.room_ packet.fields <;>
            cases stops env.verdict <;> simp [permitted, AOPacketMS.action]
      | _ => simp [Allowed, broadcasts, MaySpeak]
    | _ => simp [Allowed, broadcasts, MaySpeak]

/-- In every run no message breaks a lock exactly if each sender may speak where its message goes, or
something else stops the message. -/
theorem locks_hold_iff (deps : Deps) (s : NXService) (events : List Event) :
    Throughout (step deps) (Allowed deps) s events ↔ Throughout (step deps) MaySpeak s events :=
  throughout_iff_throughout (I := fun _ => True) (fun _ _ _ _ => trivial)
    (fun s event _ => allowed_iff deps s event) trivial events

/-- An `MS` packet is handled by handing these events to the backends. -/
theorem process_packet_forwarded (deps : Deps) (env : Env) {packet : AOPacket} {packet_str : Bytes}
    (sent : ms_packet s k packet_str = some (session, packet)) :
    ∃ t : AOServer, t.room_ = s.room_ ∧
      AOServer.process_packet deps env s k packet_str =
        (AOPacketMS.forwarded env s k session packet.fields).2.foldl AOServer.deliver t := by
  have found := ms_session sent
  have entered : (s.emit (.dispatch k packet)).room_ = s.room_ := rfl
  have events := (forwarded_spec env found packet.fields).2
  have later := forwarded_spec env (s := s.emit (.dispatch k packet)) (entered ▸ found) packet.fields
  rw [entered, ← events] at later
  refine ⟨_, later.1, ?_⟩
  rw [← later.2, ← AOPacketMS.handle_server_forwarded]
  unfold ms_packet at sent
  split at sent
  · next parsed live =>
    split at sent
    · next known =>
      cases sent
      simp only [AOServer.process_packet, parsed, AOServer.dispatch, entered, live, known,
        AOServer.handle_server, Bool.false_eq_true, if_false]
    · cases sent
  · cases sent

end Proof

/-- A case master makes the lobby spectatable, and someone who comes later speaks there. -/
def spectatorSpeaks : List Event :=
  [.session (.ao {} (.connected {} 8)), .session (.ao {} (.packet {} 8 (bytes "RD#%"))),
    .session (.ao {} (.packet {} 8 (bytes "CT#a#/cm#%"))),
    .session (.ao {} (.packet {} 8 (bytes "CT#a#/area_spectate#%"))),
    .session (.ao {} (.connected {} 7)), .session (.ao {} (.packet {} 7 (bytes "RD#%"))),
    .session (.ao {} (.packet {} 7 (bytes "MS#chat##Phoenix#normal#hi#def#%")))]

theorem spectator_breaks_lock :
    ¬ Throughout (step plainDeps) (Allowed plainDeps)
      { server.room_ := ({ areas := [bytes "Lobby"] } : GameRoom).build_area_index id }
      spectatorSpeaks := by
  intro allowed
  exact absurd allowed.2.2.2.2.2.2.1 (by decide +kernel)

end AreaSpeech

end AoSdl
