import AoSdl.AoServer

/-! What the server does with each packet of a client, and how it receives them. The members
a packet class parses from its fields keep their defaults where there are too few fields. -/
namespace AoSdl

/-- The field at an index, or the member's default below the minimal number of fields. -/
def member {α : Type} (fields : List Bytes) (min_fields : Nat) (default : α)
    (parse : List Bytes → α) : α :=
  if min_fields ≤ fields.length then parse fields else default

def field (fields : List Bytes) (i : Nat) : Bytes := fields.getD i []

namespace AOPacketHI

def hardware_id (fields : List Bytes) : Bytes := member fields 1 [] (field · 0)

/-- The session with what the packet says of it and the connection's address. -/
def identified (deps : Deps) (env : Env) (client_id : UInt64) (hardware_id : Bytes)
    (session : ServerSession) : ServerSession :=
  let session := { session with hardware_id }
  let ip := env.client_addr client_id
  if ip.isEmpty then session
  else { session with ip_address := ip, ipid := (deps.sha256 ip).take 8 }

/-- The ban the handler finds for the session it has just identified. -/
def banned (deps : Deps) (env : Env) (s : AOServer) (client_id : UInt64) (hardware_id : Bytes)
    (session : ServerSession) : Option BanEntry :=
  let session := identified deps env client_id hardware_id session
  s.ban_manager.bind fun bm => bm.check_ban env.now session.ipid session.hardware_id

def handle_server (deps : Deps) (env : Env) (s : AOServer) (client_id : UInt64)
    (session : ServerSession) (hardware_id : Bytes) : AOServer :=
  if (s.get_protocol_state client_id).map (·.state) ≠ some .CONNECTED then
    s.send client_id (AOServer.system_message (bytes "[ERROR] Unexpected packet \"HI\" in current state"))
  else
    let ban := banned deps env s client_id hardware_id session
    let s := s.update_proto client_id fun proto => { proto with hardware_id }
    let s := s.update_session client_id (identified deps env client_id hardware_id)
    match ban with
    | some ban => (s.send client_id ⟨bytes "KB", [ban.reason]⟩).close_client env client_id
    | none =>
      if env.asn_blocked then
        (s.send client_id ⟨bytes "KB", [bytes "Connection blocked (network reputation)"]⟩).close_client
          env client_id
      else
        let s := s.send client_id
          ⟨bytes "ID", [AOServer.of_uint64 session.session_id, bytes "kagami", deps.ao_sdl_version]⟩
        let s := if s.room_.asset_url.isEmpty then s
          else s.send client_id ⟨bytes "ASS", [s.room_.asset_url]⟩
        s.update_proto client_id fun proto => { proto with state := .IDENTIFIED }

section

variable (deps : Deps) (env : Env) (s : AOServer) (client_id : UInt64) (session : ServerSession)
  (hardware_id : Bytes)

/-- The server with what the packet says of the client. -/
def noted : AOServer :=
  (s.update_proto client_id fun proto => { proto with hardware_id }).update_session client_id
    (identified deps env client_id hardware_id)

/-- The three ways a `HI` can end. -/
inductive Greeted : AOServer → Prop
  | early (other : (s.get_protocol_state client_id).map (·.state) ≠ some .CONNECTED) (reply : AOPacket) :
    Greeted (s.send client_id reply)
  | turned_away (connected : (s.get_protocol_state client_id).map (·.state) = some .CONNECTED)
    (turned : ((banned deps env s client_id hardware_id session).isSome || env.asn_blocked) = true)
    (reply : AOPacket) :
    Greeted (((noted deps env s client_id hardware_id).send client_id reply).close_client env client_id)
  | identified (connected : (s.get_protocol_state client_id).map (·.state) = some .CONNECTED)
    (clean : banned deps env s client_id hardware_id session = none) (free : env.asn_blocked = false)
    (replies : List AOPacket) :
    Greeted ((replies.foldl (fun s p => s.send client_id p)
      (noted deps env s client_id hardware_id)).update_proto client_id fun proto =>
        { proto with state := .IDENTIFIED })

theorem handle_server_cases :
    Greeted deps env s client_id session hardware_id
      (handle_server deps env s client_id session hardware_id) := by
  unfold handle_server
  split
  · next other => exact .early other _
  · next connected =>
    rw [not_not] at connected
    dsimp only
    cases found : banned deps env s client_id hardware_id session with
    | some ban => exact .turned_away connected (by rw [found]; rfl) _
    | none =>
      dsimp only
      by_cases blocked : env.asn_blocked = true
      · rw [if_pos blocked]
        exact .turned_away connected (by rw [blocked, Bool.or_true]) _
      · rw [if_neg blocked]
        have free : env.asn_blocked = false := by simpa using blocked
        split
        · exact .identified connected found free [_]
        · exact .identified connected found free [_, _]

end

end AOPacketHI

namespace AOPacketIDClient

def software (fields : List Bytes) : Bytes :=
  if 3 ≤ fields.length then field fields 1 else member fields 2 [] (field · 0)

def version (fields : List Bytes) : Bytes :=
  if 3 ≤ fields.length then field fields 2 else member fields 2 [] (field · 1)

def features : List Bytes :=
  [bytes "noencryption", bytes "yellowtext", bytes "flipping", bytes "customobjections",
    bytes "fastloading", bytes "deskmod", bytes "evidence", bytes "cccc_ic_support", bytes "arup",
    bytes "looping_sfx", bytes "additive", bytes "effects", bytes "expanded_desk_mods"]

def handle_server (s : AOServer) (client_id : UInt64) (fields : List Bytes) : AOServer :=
  if (s.get_protocol_state client_id).map (·.state) ≠ some .IDENTIFIED then
    s.send client_id (AOServer.system_message (bytes "[ERROR] Unexpected packet \"ID\" in current state"))
  else
    let s := s.update_session client_id fun session =>
      { session with client_software := software fields ++ bytes " " ++ version fields }
    let s := s.send client_id ⟨bytes "PN", [to_string s.room_.session_count,
      to_string s.room_.max_players, s.room_.server_description]⟩
    let s := s.send client_id ⟨bytes "FL", features⟩
    s.update_proto client_id fun proto => { proto with state := .LOADING }

end AOPacketIDClient

def AOPacketAskChaa.handle_server (s : AOServer) (client_id : UInt64) : AOServer :=
  let total_music := intOfSize (s.room_.areas.length + s.room_.music.length)
  s.send client_id ⟨bytes "SI", [to_string s.room_.characters.length, bytes "0", to_string total_music]⟩

def AOPacketRC.handle_server (s : AOServer) (client_id : UInt64) : AOServer :=
  s.send client_id ⟨bytes "SC", s.room_.characters⟩

def AOPacketRM.handle_server (s : AOServer) (client_id : UInt64) : AOServer :=
  s.send client_id ⟨bytes "SM", s.room_.areas ++ s.room_.music⟩

namespace AOPacketRD

/-- The session and its protocol state become joined. -/
def join (s : AOServer) (client_id : UInt64) : AOServer :=
  let s := s.update_proto client_id fun proto => { proto with state := .JOINED }
  let s := s.update_session client_id fun session => { session with joined := true }
  s.update_stats fun stats => { stats with joined := stats.joined + 1 }

/-- What the client is told first, up to the announcement of the player to everybody. -/
def greet (s : AOServer) (client_id : UInt64) (session : ServerSession) : AOServer :=
  let s := s.send client_id ⟨bytes "CharsCheck",
    s.room_.char_taken.map fun t => if t ≠ 0 then bytes "-1" else bytes "0"⟩
  let s := s.send client_id ⟨bytes "DONE", []⟩
  let s := s.send_area_join_info client_id session.area
  let s := s.send_player_list_snapshot client_id
  s.broadcast_player_add session.session_id

def announce_area (s : AOServer) (client_id : UInt64) (session : ServerSession) : AOServer :=
  let area_idx := s.room_.area_index session.area
  let s := if 0 ≤ area_idx then s.broadcast_player_update session.session_id 3 (to_string area_idx)
    else s
  let s := s.send_full_arup client_id
  s.broadcast_arup .ARUP_PLAYERS

def send_motd (s : AOServer) (client_id : UInt64) : AOServer :=
  if s.room_.server_description.isEmpty then s
  else s.send client_id ⟨bytes "CT", [s.room_.server_name, s.room_.server_description, bytes "1"]⟩

def handle_server (s : AOServer) (client_id : UInt64) (session : ServerSession) : AOServer :=
  if (s.get_protocol_state client_id).isNone then s
  else
    let s := greet (join s client_id) client_id session
    send_motd (announce_area s client_id session) client_id

end AOPacketRD

def AOPacketCC.handle_server (s : AOServer) (client_id : UInt64) (session : ServerSession)
    (fields : List Bytes) : AOServer :=
  if !session.joined then s
  else
    match if 2 ≤ fields.length then stoi (field fields 1) else some (-1) with
    | none => s
    | some requested_char =>
      let (accepted, room, events) := s.room_.handle_char_select ⟨client_id, requested_char⟩
      let s := events.foldl AOServer.deliver { s with room_ := room }
      if accepted then
        let chars := s.room_.characters
        let char_name := if 0 ≤ requested_char ∧ requested_char < intOfSize chars.length then
          chars.getD requested_char.toNat [] else []
        s.broadcast_player_update session.session_id 1 char_name
      else s

inductive ContentVerdictOutcome where
  | Pass
  | Censor
  | Stop

def send_mod_notice (env : Env) (s : AOServer) (client_id : UInt64) (verdict : ModerationVerdict) :
    AOServer :=
  let notice (what : Bytes) : AOServer :=
    let msg := bytes "[Content moderation] " ++ what
    let msg := if verdict.reason.isEmpty then msg else msg ++ bytes ": " ++ verdict.reason
    let msg := match verdict.action, env.mute_info with
      | .MUTE, some seconds =>
        if 0 < seconds then msg ++ bytes " (" ++ to_string seconds ++ bytes "s remaining)"
        else if seconds < 0 then msg ++ bytes " (permanent)"
        else msg
      | _, _ => msg
    s.send client_id (AOServer.system_message msg)
  match verdict.action with
  | .CENSOR => notice (bytes "your message was filtered")
  | .DROP => notice (bytes "your message was blocked")
  | .MUTE => notice (bytes "you have been muted")
  | _ => s

def apply_content_verdict (env : Env) (s : AOServer) (client_id : UInt64) (session : ServerSession)
    (verdict : ModerationVerdict) : AOServer × ContentVerdictOutcome :=
  match verdict.action with
  | .NONE | .LOG => (s, .Pass)
  | .CENSOR => (send_mod_notice env s client_id verdict, .Censor)
  | .DROP | .MUTE => (send_mod_notice env s client_id verdict, .Stop)
  | .KICK =>
    let s := s.send client_id ⟨bytes "KK", [bytes "Content moderation: " ++ verdict.reason]⟩
    (s.close_client_deferred env client_id, .Stop)
  | .BAN | .PERMA_BAN =>
    let s := match s.ban_manager with
      | none => s
      | some bm => s.bans (bm.add_ban
        { ipid := session.ipid, ip := session.ip_address, hdid := session.hardware_id
          reason := bytes "[auto] content: " ++ verdict.reason
          moderator := bytes "ContentModerator", timestamp := env.now / 1000000000
          duration := if verdict.action = ModerationAction.PERMA_BAN then -2 else 24 * 60 * 60 } env.now)
    let s := s.send client_id ⟨bytes "KB", [bytes "Content moderation: " ++ verdict.reason]⟩
    (s.close_client_deferred env client_id, .Stop)

/-- The verdict on a message, and the message that goes on if any does. -/
def moderate (env : Env) (s : AOServer) (client_id : UInt64) (session : ServerSession)
    (message : Bytes) : AOServer × Option Bytes :=
  match env.verdict with
  | none => (s, some message)
  | some verdict =>
    let (s, outcome) := apply_content_verdict env s client_id session verdict
    match outcome with
    | .Pass => (s, some message)
    | .Censor => (s, some (bytes "[filtered]"))
    | .Stop => (s, none)

namespace AOPacketMS

def fi (fields : List Bytes) (i : Nat) (default_value : Int := 0) : Int :=
  if (field fields i).isEmpty then default_value else (stoi (field fields i)).getD default_value

def fb (fields : List Bytes) (i : Nat) : Bool := field fields i = bytes "1"

/-- The raw fields at their client to server indices. -/
def action (sender_id : UInt64) (fields : List Bytes) : ICAction where
  sender_id := sender_id
  desk_mod := if field fields 0 = bytes "chat" then -1 else fi fields 0
  pre_emote := field fields 1
  character := field fields 2
  emote := field fields 3
  message := field fields 4
  side := field fields 5
  sfx_name := field fields 6
  emote_mod := fi fields 7
  char_id := fi fields 8
  sfx_delay := fi fields 9
  objection_mod := fi fields 10
  evidence_id := fi fields 11
  flip := fb fields 12
  realization := fb fields 13
  text_color := fi fields 14
  showname := field fields 15
  other_charid := fi fields 16 (-1)
  self_offset := field fields 17
  immediate := fb fields 18
  sfx_looping := fb fields 19
  screenshake := fb fields 20
  frame_screenshake := field fields 21
  frame_realization := field fields 22
  frame_sfx := field fields 23
  additive := fb fields 24
  effects := field fields 25
  blipname := field fields 26
  slide := fb fields 27

def handle_server (env : Env) (s : AOServer) (client_id : UInt64) (session : ServerSession)
    (fields : List Bytes) : AOServer :=
  if !session.joined then s
  else
    let act := action client_id fields
    let max_ic := s.room_.max_ic_message_length
    if 0 < max_ic ∧ max_ic < intOfSize act.message.length then s
    else
      match moderate env s client_id session act.message with
      | (s, none) => s
      | (s, some message) =>
        let act := { act with message }
        let s := if !act.showname.isEmpty && session.display_name ≠ act.showname then
          s.broadcast_player_update session.session_id 2 act.showname else s
        (s.room_.handle_ic act).foldl AOServer.deliver s

end AOPacketMS

/-- The words of a slash command; no words, no command. -/
def command_args (message : Bytes) : List Bytes :=
  ((message.drop 1).splitOnP Lib.Decimal.isSpace).filter fun token => !token.isEmpty

/-- Whether the command registry takes the message. -/
def try_dispatch (message : Bytes) : Bool :=
  message.head? = some 47 && !(command_args message).isEmpty

namespace AOPacketCT

def sender_name (fields : List Bytes) : Bytes := member fields 2 [] fun f => ao_decode (field f 0)

def message (fields : List Bytes) : Bytes := member fields 2 [] fun f => ao_decode (field f 1)

/-- The second component says whether a command's handler threw. -/
def handle_server (env : Env) (s : AOServer) (client_id : UInt64) (session : ServerSession)
    (fields : List Bytes) : AOServer × Bool :=
  let sender_name := sender_name fields
  let message := message fields
  if !session.joined then (s, false)
  else if try_dispatch message then (s.run_effects env env.command_throws env.command, env.command_throws)
  else if env.is_spam then (s, false)
  else if 0 < s.room_.max_ooc_message_length ∧
      s.room_.max_ooc_message_length < intOfSize message.length then (s, false)
  else
    match moderate env s client_id session message with
    | (s, none) => (s, false)
    | (s, some forwarded_message) =>
      let s := if session.display_name ≠ sender_name then
        (s.update_session client_id fun session => { session with display_name := sender_name })
          |>.broadcast_player_update session.session_id 0 sender_name
        else s
      ((s.room_.handle_ooc ⟨client_id, sender_name, forwarded_message⟩).foldl AOServer.deliver s,
        false)

end AOPacketCT

namespace AOPacketHP

def side (fields : List Bytes) : Int := member fields 2 0 fun f => safe_stoi (field f 0)

def value (fields : List Bytes) : Int := member fields 2 0 fun f => safe_stoi (field f 1)

def handle_server (s : AOServer) (session : ServerSession) (fields : List Bytes) : AOServer :=
  let side := side fields
  let value := value fields
  if !session.joined then s
  else if side < 1 ∨ 2 < side ∨ value < 0 ∨ 10 < value then s
  else
    let s := s.update_area session.area fun area =>
      { area with hp := if side = 1 then { area.hp with defense := value }
        else { area.hp with prosecution := value } }
    s.send_to_area session.area ⟨bytes "HP", [to_string side, to_string value]⟩

end AOPacketHP

namespace AOPacketMC

def name (fields : List Bytes) : Bytes := member fields 2 [] fun f => ao_decode (field f 0)

/-- An optional field behind the two required ones. -/
def optional {α : Type} (fields : List Bytes) (i : Nat) (default : α) (parse : Bytes → α) : α :=
  member fields 2 default fun f => if i < f.length then parse (field f i) else default

def showname (fields : List Bytes) : Bytes := optional fields 2 [] ao_decode

def looping (fields : List Bytes) : Int := optional fields 3 (-1) safe_stoi

def channel (fields : List Bytes) : Int := optional fields 4 0 safe_stoi

/-- Whether an area admits a client. -/
def admits (s : AOServer) (client_id : UInt64) (name : Bytes) : Bool :=
  match s.room_.find_area_by_name name with
  | none => true
  | some area => area.can_enter client_id

def switch_area (s : AOServer) (client_id : UInt64) (session : ServerSession) (name : Bytes) :
    AOServer :=
  let s := s.update_session client_id fun session => { session with area := name }
  let s := s.send_area_join_info client_id name
  let area_idx := s.room_.area_index name
  let s := if 0 ≤ area_idx then
    s.broadcast_player_update session.session_id 3 (to_string area_idx) else s
  s.broadcast_arup .ARUP_PLAYERS

def handle_server (s : AOServer) (client_id : UInt64) (session : ServerSession)
    (fields : List Bytes) : AOServer :=
  let name := name fields
  if !session.joined then s
  else if name ∈ s.room_.areas then
    if admits s client_id name then switch_area s client_id session name
    else s.send client_id (AOServer.system_message (bytes "Area " ++ name ++ bytes " is locked."))
  else
    (s.room_.handle_music ⟨client_id, name, showname fields, channel fields, looping fields = 1⟩).foldl
      AOServer.deliver s

end AOPacketMC

namespace AOPacketZZ

def alert_reason (fields : List Bytes) : Bytes := member fields 1 [] fun f => ao_decode (field f 0)

def handle_server (s : AOServer) (session : ServerSession) (fields : List Bytes) : AOServer :=
  if !session.joined then s
  else
    let reason := alert_reason fields
    let caller := if session.display_name.isEmpty then bytes "(spectator)" else session.display_name
    let msg := bytes "MOD CALL from " ++ caller ++ bytes " [" ++ session.ipid ++ bytes "]"
    let msg := if reason.isEmpty then msg else msg ++ bytes ": " ++ reason
    let msg := msg ++ bytes " (area: " ++ session.area ++ bytes ")"
    (s.room_.sessions.filter (·.moderator)).foldl
      (fun s other => s.send other.client_id (AOServer.system_message msg)) s

end AOPacketZZ

namespace AOPacketPW

def password_ (fields : List Bytes) : Bytes := member fields 1 [] (field · 0)

def handle_server (s : AOServer) (client_id : UInt64) (fields : List Bytes) : AOServer :=
  s.update_session client_id fun session => { session with password := password_ fields }

end AOPacketPW

namespace AOPacketMA

def target_ipid (fields : List Bytes) : Bytes := member fields 3 [] (field · 0)

def duration (fields : List Bytes) : Int := member fields 3 0 fun f => safe_stoi (field f 1)

def reason (fields : List Bytes) : Bytes := member fields 3 [] fun f => ao_decode (field f 2)

/-- The last non-empty value among the sessions of the target. -/
def last_known (targets : List ServerSession) (get : ServerSession → Bytes) : Bytes :=
  ((targets.map get).filter fun value => !value.isEmpty).getLastD []

def handle_server (env : Env) (s : AOServer) (session : ServerSession) (fields : List Bytes) :
    AOServer :=
  if !session.joined || !session.moderator then s
  else
    let reason := reason fields
    let targets := s.room_.sessions.filter (·.ipid = target_ipid fields)
    let notify (s : AOServer) (header : Bytes) : AOServer :=
      let s := targets.foldl (fun s t => s.send t.client_id ⟨header, [reason]⟩) s
      targets.foldl (fun s t => s.close_client_deferred env t.client_id) s
    if duration fields = 0 then notify s (bytes "KK")
    else
      match s.ban_manager with
      | none => s
      | some bm =>
        let s := s.bans (bm.add_ban
          { ipid := target_ipid fields, hdid := last_known targets (·.hardware_id)
            ip := last_known targets (·.ip_address), reason, moderator := session.display_name
            timestamp := env.now / 1000000000
            duration := if duration fields = -1 then -2 else duration fields } env.now)
        notify s (bytes "KB")

end AOPacketMA

namespace AOPacketRT

def animation (fields : List Bytes) : Bytes := member fields 1 [] (field · 0)

def handle_server (s : AOServer) (session : ServerSession) (fields : List Bytes) : AOServer :=
  if !session.joined || session.character_id < 0 then s
  else s.send_to_area session.area ⟨bytes "RT", [animation fields]⟩

end AOPacketRT

/-- The change of an area's evidence, sent to the area. `none` leaves it as it is. -/
def change_evidence (s : AOServer) (session : ServerSession)
    (change : List EvidenceItem → Option (List EvidenceItem)) : AOServer :=
  if !session.joined then s
  else
    match s.room_.find_area_by_name session.area with
    | none => s
    | some area =>
      match change area.evidence with
      | none => s
      | some evidence =>
        (s.update_area session.area fun area => { area with evidence }).send_to_area session.area
          (AOServer.build_evidence_packet { area with evidence })

/-- Whether an index lies within the list of evidence. -/
def evidence_index (ev_id : Int) (evidence : List EvidenceItem) : Bool :=
  0 ≤ ev_id && ev_id < intOfSize evidence.length

namespace AOPacketPE

def item (fields : List Bytes) : EvidenceItem :=
  member fields 3 {} fun f => ⟨ao_decode (field f 0), ao_decode (field f 1), ao_decode (field f 2)⟩

def handle_server (s : AOServer) (session : ServerSession) (fields : List Bytes) : AOServer :=
  change_evidence s session fun evidence => some (evidence ++ [item fields])

end AOPacketPE

namespace AOPacketEE

def ev_id (fields : List Bytes) : Int := member fields 4 0 fun f => safe_stoi (field f 0) (-1)

def item (fields : List Bytes) : EvidenceItem :=
  member fields 4 {} fun f => ⟨ao_decode (field f 1), ao_decode (field f 2), ao_decode (field f 3)⟩

def handle_server (s : AOServer) (session : ServerSession) (fields : List Bytes) : AOServer :=
  change_evidence s session fun evidence =>
    if evidence_index (ev_id fields) evidence then
      some (evidence.set (ev_id fields).toNat (item fields)) else none

end AOPacketEE

namespace AOPacketDE

def ev_id (fields : List Bytes) : Int := member fields 1 0 fun f => safe_stoi (field f 0) (-1)

def handle_server (s : AOServer) (session : ServerSession) (fields : List Bytes) : AOServer :=
  change_evidence s session fun evidence =>
    if evidence_index (ev_id fields) evidence then some (evidence.eraseIdx (ev_id fields).toNat)
    else none

end AOPacketDE

namespace AOPacketCASEA

def case_title (fields : List Bytes) : Bytes := member fields 6 [] fun f => ao_decode (field f 0)

/-- Defense, prosecution, judge, juror and stenographer. -/
def needs (fields : List Bytes) : List Bool :=
  [1, 2, 3, 4, 5].map fun i => member fields 6 false fun f => field f i = bytes "1"

def handle_server (s : AOServer) (session : ServerSession) (fields : List Bytes) : AOServer :=
  if !session.joined || session.character_id < 0 then s
  else
    let needs := needs fields
    let pkt : AOPacket := ⟨bytes "CASEA", case_title fields :: needs.map AOServer.of_bool ++ [[]]⟩
    let interested (other : ServerSession) : Bool :=
      other.joined && 5 ≤ other.casing_preferences.length &&
        (needs.zip other.casing_preferences).any fun p => p.1 && p.2
    (s.room_.sessions.filter interested).foldl (fun s other => s.send other.client_id pkt) s

end AOPacketCASEA

namespace AOPacketSETCASE

def preferences (fields : List Bytes) : List Bool :=
  member fields 7 [] fun f => [2, 3, 4, 5, 6].map fun i => field f i = bytes "1"

def handle_server (s : AOServer) (client_id : UInt64) (session : ServerSession)
    (fields : List Bytes) : AOServer :=
  if !session.joined then s
  else s.update_session client_id fun session =>
    { session with casing_preferences := preferences fields }

end AOPacketSETCASE

def AOPacketCH.handle_server (s : AOServer) (client_id : UInt64) : AOServer :=
  s.send client_id ⟨bytes "CHECK", []⟩

namespace AOServer

variable (deps : Deps)

/-- The handler of a registered packet. The second component says whether it threw. -/
def handle_server (env : Env) (s : AOServer) (client_id : UInt64) (session : ServerSession)
    (type : PacketType) (fields : List Bytes) : AOServer × Bool :=
  match type with
  | .HI => (AOPacketHI.handle_server deps env s client_id session (AOPacketHI.hardware_id fields), false)
  | .ID => (AOPacketIDClient.handle_server s client_id fields, false)
  | .askchaa => (AOPacketAskChaa.handle_server s client_id, false)
  | .RC => (AOPacketRC.handle_server s client_id, false)
  | .RM => (AOPacketRM.handle_server s client_id, false)
  | .RD => (AOPacketRD.handle_server s client_id session, false)
  | .CC => (AOPacketCC.handle_server s client_id session fields, false)
  | .MS => (AOPacketMS.handle_server env s client_id session fields, false)
  | .CT => AOPacketCT.handle_server env s client_id session fields
  | .HP => (AOPacketHP.handle_server s session fields, false)
  | .MC => (AOPacketMC.handle_server s client_id session fields, false)
  | .ZZ => (AOPacketZZ.handle_server s session fields, false)
  | .PW => (AOPacketPW.handle_server s client_id fields, false)
  | .MA => (AOPacketMA.handle_server env s session fields, false)
  | .RT => (AOPacketRT.handle_server s session fields, false)
  | .PE => (AOPacketPE.handle_server s session fields, false)
  | .EE => (AOPacketEE.handle_server s session fields, false)
  | .DE => (AOPacketDE.handle_server s session fields, false)
  | .CASEA => (AOPacketCASEA.handle_server s session fields, false)
  | .SETCASE => (AOPacketSETCASE.handle_server s client_id session fields, false)
  | .CH => (AOPacketCH.handle_server s client_id, false)
  | _ => (s, false)

def dispatch (env : Env) (s : AOServer) (client_id : UInt64) (packet : AOPacket) : AOServer × Bool :=
  let s := s.emit (.dispatch client_id packet)
  match s.room_.get_session client_id with
  | none => (s, false)
  | some session =>
    match PacketFactory.find packet.header with
    | none =>
      (s.send client_id (system_message
        (bytes "[ERROR] Unknown packet \"" ++ packet.header.take 16 ++ bytes "\"")), false)
    | some type => handle_server deps env s client_id session type packet.fields

/-- `safe_dispatch` and the reply to its result. -/
def process_packet (env : Env) (s : AOServer) (client_id : UInt64) (packet_str : Bytes) : AOServer :=
  match AOPacket.deserialize packet_str with
  | none => s.send client_id (system_message (bytes "[ERROR] Malformed packet — could not parse"))
  | some packet =>
    let (s, threw) := dispatch deps env s client_id packet
    if threw then s.send client_id (system_message (bytes "[ERROR] Internal error handling packet"))
    else s

/-- The loop over the packets of a buffer of at most `n` bytes; `envs` answers for one packet
after the other. -/
def receive_packets : Nat → (Nat → Env) → AOServer → UInt64 → AOServer
  | 0, _, s, _ => s
  | n + 1, envs, s, client_id =>
    match s.get_protocol_state client_id with
    | none => s
    | some proto =>
      match Lib.Framing.cutAt 35 37 proto.incomplete_buf with
      | none => s
      | some (content, rest) =>
        let s := s.update_proto client_id fun proto => { proto with incomplete_buf := rest }
        let s := process_packet deps (envs 0) s client_id (content ++ bytes "#%")
        receive_packets n (fun i => envs (i + 1)) s client_id

def MAX_INCOMPLETE_BUF : Nat := 65536

def on_client_message (envs : Nat → Env) (s : AOServer) (client_id : UInt64) (raw : Bytes) : AOServer :=
  match s.get_protocol_state client_id with
  | none => s
  | some proto =>
    let buf := proto.incomplete_buf ++ raw
    let s := s.update_proto client_id fun proto => { proto with incomplete_buf := buf }
    if MAX_INCOMPLETE_BUF < buf.length then
      (s.send client_id (system_message (bytes "[ERROR] Message too large"))).update_proto client_id
        fun proto => { proto with incomplete_buf := [] }
    else receive_packets deps buf.length envs s client_id

def on_client_connected (env : Env) (s : AOServer) (client_id : UInt64) : AOServer :=
  let s := { s with room_ := s.room_.create_session client_id (bytes "ao2") }
  let s := if client_id ∈ s.proto_state_ then s
    else { s with proto_state_ := s.proto_state_.insert client_id {} }
  let addr := env.client_addr client_id
  let s := if addr.isEmpty then s
    else s.update_session client_id fun session => { session with ip_address := addr }
  s.send client_id ⟨bytes "decryptor", [bytes "NOENCRYPT"]⟩

/-- The area after one of its case masters left. The last one unlocks it. -/
def drop_cm (client_id : UInt64) (state : AreaState) : AreaState :=
  if !state.is_cm client_id then state
  else
    let state := { state with cm_owners := state.cm_owners.erase client_id }
    if !state.cm_owners.isEmpty then state
    else
      let state := { state with cm := [] }
      if state.lock_mode = .FREE then state else { state with lock_mode := .FREE, invited := [] }

def on_client_disconnected (s : AOServer) (client_id : UInt64) : AOServer :=
  let session := s.room_.get_session client_id
  let was_joined := (session.map (·.joined)).getD false
  let area_states := s.room_.area_states_
  let was_cm := was_joined && area_states.entries.any fun e => e.2.is_cm client_id
  let s := match session with
    | some session =>
      if session.joined then
        let s := s.broadcast_player_remove session.session_id
        { s with room_ := { s.room_ with
          area_states_ := area_states.keys.foldl (fun states id =>
            match states.lookup id with
            | none => states
            | some state => states.replace id (drop_cm client_id state)) area_states } }
      else s
    | none => s
  let s := { s with
    room_ := s.room_.destroy_session deps.strHash client_id
    proto_state_ := s.proto_state_.erase client_id }
  if was_joined then
    let s := s.broadcast_arup .ARUP_PLAYERS
    if was_cm then (s.broadcast_arup .ARUP_CM).broadcast_arup .ARUP_LOCKED else s
  else s

section Packets

variable (deps : Deps) (env : Env) (s : AOServer) (client_id : UInt64)

/-- What `dispatch` makes of a packet. -/
inductive Handled (packet : AOPacket) : AOServer × Bool → Prop
  | stranger (absent : s.room_.get_session client_id = none) :
    Handled packet (s.emit (.dispatch client_id packet), false)
  | unknown {session : ServerSession} (found : s.room_.get_session client_id = some session)
    (unnamed : PacketFactory.find packet.header = none) (reply : AOPacket) :
    Handled packet ((s.emit (.dispatch client_id packet)).send client_id reply, false)
  | handler {session : ServerSession} {type : PacketType}
    (found : s.room_.get_session client_id = some session)
    (named : PacketFactory.find packet.header = some type) :
    Handled packet (handle_server deps env (s.emit (.dispatch client_id packet)) client_id session type
      packet.fields)

theorem dispatch_handler {packet : AOPacket} {session : ServerSession} {type : PacketType}
    (found : s.room_.get_session client_id = some session)
    (named : PacketFactory.find packet.header = some type) :
    dispatch deps env s client_id packet =
      handle_server deps env (s.emit (.dispatch client_id packet)) client_id session type packet.fields := by
  have there : (s.emit (.dispatch client_id packet)).room_.get_session client_id = some session := found
  simp only [dispatch, there, named]

theorem dispatch_cases (packet : AOPacket) :
    Handled deps env s client_id packet (dispatch deps env s client_id packet) := by
  have entered : (s.emit (.dispatch client_id packet)).room_ = s.room_ := rfl
  cases found : s.room_.get_session client_id with
  | none =>
    simp only [dispatch, entered, found]
    exact .stranger found
  | some session =>
    cases named : PacketFactory.find packet.header with
    | none =>
      simp only [dispatch, entered, found, named]
      exact .unknown found named _
    | some type =>
      rw [dispatch_handler deps env s client_id found named]
      exact .handler found named

/-- A packet is dispatched, and a throw is replied to. -/
theorem process_packet_cases {packet_str : Bytes} {packet : AOPacket}
    (parsed : AOPacket.deserialize packet_str = some packet) :
    process_packet deps env s client_id packet_str = (dispatch deps env s client_id packet).1 ∨
      ∃ reply, process_packet deps env s client_id packet_str =
        (dispatch deps env s client_id packet).1.send client_id reply := by
  simp only [process_packet, parsed]
  split
  · exact .inr ⟨_, rfl⟩
  · exact .inl rfl

end Packets

end AOServer

end AoSdl
