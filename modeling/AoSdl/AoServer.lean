import AoSdl.AoPacket
import AoSdl.BanManager
import AoSdl.GameRoom
import AoSdl.Lib.Framing

/-! `AOServer`: the sessions' protocol states and what the server sends. The send function is
set. Calls that leave the server are recorded in order in `log`; the disconnect that follows a
close comes back as an input of its own. What other services answer while one packet is
handled is an `Env`. -/
namespace AoSdl

inductive ProtocolState where
  | CONNECTED
  | IDENTIFIED
  | LOADING
  | JOINED
  deriving DecidableEq

structure AOProtocolState where
  incomplete_buf : Bytes := []
  hardware_id : Bytes := []
  state : ProtocolState := .CONNECTED

/-- Whether a connection is closed on the spot or by the poll thread. -/
inductive CloseMode where
  | immediate
  | deferred
  deriving DecidableEq

inductive Effect where
  /-- A packet reaches `dispatch`. -/
  | dispatch (client_id : UInt64) (packet : AOPacket)
  | send (client_id : UInt64) (wire : Bytes)
  /-- One text goes to each of several clients. -/
  | broadcast (clients : List UInt64) (wire : Bytes)
  | close (mode : CloseMode) (client_id : UInt64)
  | bans (effects : BanEffects)
  deriving DecidableEq

inductive ModerationAction where
  | NONE | LOG | CENSOR | DROP | MUTE | KICK | BAN | PERMA_BAN
  deriving DecidableEq

structure ModerationVerdict where
  action : ModerationAction := .NONE
  reason : Bytes := []

inductive ArupType where
  | ARUP_PLAYERS
  | ARUP_STATUS
  | ARUP_CM
  | ARUP_LOCKED

def ArupType.toInt : ArupType → Int
  | ARUP_PLAYERS => 0
  | ARUP_STATUS => 1
  | ARUP_CM => 2
  | ARUP_LOCKED => 3

/-- The session fields a slash command may assign. -/
structure SessionWrite where
  area : Bytes
  character_id : Int
  moderator : Bool
  acl_role : Bytes
  moderator_name : Bytes
  change_auth_started : Bool
  login_failures : Int

/-- The lists a content reload replaces, with their indexes. -/
structure ContentWrite where
  characters : List Bytes
  music : List Bytes
  areas : List Bytes
  char_taken : List Int
  area_states_ : AList (fun _ : Bytes => AreaState)
  area_name_to_id_ : AList (fun _ : Bytes => Bytes)
  area_name_to_index_ : AList (fun _ : Bytes => Int)

/-- What a slash command does to the server, one call or assignment at a time. -/
inductive CommandEffect where
  | send_system_message (client_id : UInt64) (message : Bytes)
  | send_kick_message (client_id : UInt64) (reason : Bytes)
  | send_ban_message (client_id : UInt64) (reason : Bytes)
  | disconnect_client (client_id : UInt64)
  | send_area_join_info (client_id : UInt64) (area : Bytes)
  | broadcast_background (area bg : Bytes)
  | broadcast_arup (type : ArupType)
  | broadcast_chars_taken
  | write_session (client_id : UInt64) (write : SessionWrite)
  | write_area (area : Bytes) (state : AreaState)
  | write_content (content : ContentWrite)
  | count_moderator (change : Int)
  | add_ban (entry : BanEntry)
  | remove_ban (ipid : Bytes)
  | update_ban (ipid field value : Bytes)

/-- The client that an effect adds to `deferred_closes`. -/
def CommandEffect.deferred_close : CommandEffect → Option UInt64
  | .send_kick_message client_id _ | .send_ban_message client_id _ | .disconnect_client client_id => some client_id
  | _ => none

structure Env where
  /-- `ws()` and its `get_client_addr`. -/
  ws : Option (UInt64 → Bytes) := none
  /-- The clients the WebSocket server still has. -/
  has_client : UInt64 → Bool := fun _ => true
  now : Int := 0
  /-- A cached reputation entry of the client's address lies in a blocked network. -/
  asn_blocked : Bool := false
  is_spam : Bool := false
  /-- `none` where no moderator is wired. -/
  verdict : Option ModerationVerdict := none
  /-- `seconds_remaining` of the sender's mute. -/
  mute_info : Option Int := none
  command : List CommandEffect := []
  command_throws : Bool := false

def Env.client_addr (env : Env) (client_id : UInt64) : Bytes :=
  match env.ws with
  | none => []
  | some get_client_addr => get_client_addr client_id

/-- Functions of other subsystems. -/
structure Deps where
  sha256 : Bytes → Bytes
  strHash : Bytes → BitVec 64
  ao_sdl_version : Bytes

/-- Functions for runs on fixed inputs. -/
def plainDeps : Deps := ⟨id, fun _ => 0, []⟩

structure AOServer where
  room_ : GameRoom := {}
  ban_manager : Option BanManager := none
  proto_state_ : AList (fun _ : UInt64 => AOProtocolState) := ∅
  log : List Effect := []

namespace AOServer

def emit (s : AOServer) (e : Effect) : AOServer := { s with log := s.log ++ [e] }

def get_protocol_state (s : AOServer) (client_id : UInt64) : Option AOProtocolState :=
  s.proto_state_.lookup client_id

/-- An assignment through the pointer `get_protocol_state` returns. -/
def update_proto (s : AOServer) (client_id : UInt64) (f : AOProtocolState → AOProtocolState) :
    AOServer :=
  match s.proto_state_.lookup client_id with
  | none => s
  | some proto => { s with proto_state_ := s.proto_state_.insert client_id (f proto) }

def update_session (s : AOServer) (client_id : UInt64) (f : ServerSession → ServerSession) :
    AOServer :=
  { s with room_ := s.room_.update_session client_id f }

def update_area (s : AOServer) (area : Bytes) (f : AreaState → AreaState) : AOServer :=
  { s with room_ := s.room_.update_area area f }

def update_stats (s : AOServer) (f : RoomStats → RoomStats) : AOServer :=
  { s with room_ := { s.room_ with stats := f s.room_.stats } }

def close (s : AOServer) (mode : CloseMode) (env : Env) (client_id : UInt64) : AOServer :=
  if env.ws.isSome then s.emit (.close mode client_id) else s

/-- The close is noted. It runs the disconnect callback before it returns, which a thread that holds the
dispatch lock does not survive: that is a matter of `DispatchLock`. -/
def close_client (s : AOServer) (env : Env) (client_id : UInt64) : AOServer :=
  if env.has_client client_id then s.close .immediate env client_id else s

def close_client_deferred (s : AOServer) (env : Env) (client_id : UInt64) : AOServer :=
  s.close .deferred env client_id

def bans (s : AOServer) (r : BanManager × BanEffects) : AOServer :=
  { s with ban_manager := some r.1 }.emit (.bans r.2)

def send (s : AOServer) (client_id : UInt64) (packet : AOPacket) : AOServer :=
  s.emit (.send client_id packet.serialize)

def send_to_area (s : AOServer) (area : Bytes) (packet : AOPacket) : AOServer :=
  let receivers := (s.room_.sessions_in_area area).filter (·.protocol = bytes "ao2")
  s.emit (.broadcast (receivers.map (·.client_id)) packet.serialize)

def send_to_all (s : AOServer) (packet : AOPacket) : AOServer :=
  s.emit (.broadcast s.proto_state_.keys packet.serialize)

/-- The `CT` packet of a message from the server itself. -/
def system_message (message : Bytes) : AOPacket := ⟨bytes "CT", [bytes "Server", message, bytes "1"]⟩

def of_bool (b : Bool) : Bytes := if b then bytes "1" else bytes "0"

def of_uint64 (n : UInt64) : Bytes := to_string n.toNat

/-- The 32 fields of the server to client layout. -/
def ic_packet (a : ICAction) : AOPacket := ⟨bytes "MS",
    [to_string a.desk_mod, a.pre_emote, a.character, a.emote, a.message, a.side, a.sfx_name,
      to_string a.emote_mod, to_string a.char_id, to_string a.sfx_delay,
      to_string a.objection_mod, to_string a.evidence_id, of_bool a.flip, of_bool a.realization,
      to_string a.text_color, a.showname, to_string a.other_charid, [], [], a.self_offset, [],
      bytes "0", of_bool a.immediate, of_bool a.sfx_looping, of_bool a.screenshake,
      a.frame_screenshake, a.frame_realization, a.frame_sfx, of_bool a.additive, a.effects,
      a.blipname, of_bool a.slide]⟩

def broadcast_ic (s : AOServer) (area : Bytes) (a : ICAction) : AOServer :=
  s.send_to_area area (ic_packet a)

def broadcast_ooc (s : AOServer) (area : Bytes) (a : OOCAction) : AOServer :=
  s.send_to_area area ⟨bytes "CT", [a.name, a.message, bytes "0"]⟩

def broadcast_music (s : AOServer) (area : Bytes) (a : MusicAction) : AOServer :=
  let sender_char_id := match s.room_.get_session a.sender_id with
    | none => -1
    | some session => session.character_id
  s.send_to_area area ⟨bytes "MC", [a.track, to_string sender_char_id, a.showname,
    of_bool a.looping, to_string a.channel, bytes "0"]⟩

def broadcast_char_select (s : AOServer) (client_id : UInt64) (character_id : Int) : AOServer :=
  match s.room_.get_session client_id with
  | none => s
  | some session =>
    s.send client_id ⟨bytes "PV", [of_uint64 session.session_id, bytes "CID", to_string character_id]⟩

def broadcast_chars_taken (s : AOServer) (taken : List Int) : AOServer :=
  let pkt : AOPacket := ⟨bytes "CharsCheck", taken.map fun t => if t ≠ 0 then bytes "-1" else bytes "0"⟩
  s.proto_state_.keys.foldl (fun s id => s.send id pkt) s

/-- The delegates registered with the room. -/
def deliver (s : AOServer) : RoomEvent → AOServer
  | .ic area action => s.broadcast_ic area action
  | .ooc area action => s.broadcast_ooc area action
  | .char_select client_id character_id _ => s.broadcast_char_select client_id character_id
  | .music area action => s.broadcast_music area action
  | .chars_taken taken => s.broadcast_chars_taken taken

def evidence_text (ev : EvidenceItem) : Bytes :=
  ev.name ++ bytes "&" ++ ev.description ++ bytes "&" ++ ev.image

def build_evidence_packet (area : AreaState) : AOPacket :=
  ⟨bytes "LE", area.evidence.map evidence_text⟩

def send_area_join_info (s : AOServer) (client_id : UInt64) (area_name : Bytes) : AOServer :=
  match s.room_.find_area_by_name area_name with
  | none => s
  | some area =>
    let name := if area.background.name.isEmpty then bytes "gs4" else area.background.name
    let position := if area.background.position.isEmpty then bytes "def" else area.background.position
    let s := s.send client_id ⟨bytes "BN", [name, position]⟩
    let s := s.send client_id ⟨bytes "HP", [bytes "1", to_string area.hp.defense]⟩
    let s := s.send client_id ⟨bytes "HP", [bytes "2", to_string area.hp.prosecution]⟩
    if area.evidence.isEmpty then s else s.send client_id (build_evidence_packet area)

/-- What the snapshot tells of one session. -/
def player_packets (r : GameRoom) (session : ServerSession) : List AOPacket :=
  if !session.joined then []
  else
    let sid := of_uint64 session.session_id
    let area_idx := r.area_index session.area
    [⟨bytes "PR", [sid, bytes "0"]⟩] ++
      (if session.display_name.isEmpty then []
        else [⟨bytes "PU", [sid, bytes "0", session.display_name]⟩]) ++
      (if 0 ≤ session.character_id ∧ session.character_id < intOfSize r.characters.length then
        [⟨bytes "PU", [sid, bytes "1", r.characters.getD session.character_id.toNat []]⟩] else []) ++
      (if 0 ≤ area_idx then [⟨bytes "PU", [sid, bytes "3", to_string area_idx]⟩] else [])

def send_player_list_snapshot (s : AOServer) (client_id : UInt64) : AOServer :=
  (s.room_.sessions.flatMap (player_packets s.room_)).foldl (fun s p => s.send client_id p) s

def broadcast_player_add (s : AOServer) (session_id : UInt64) : AOServer :=
  s.send_to_all ⟨bytes "PR", [of_uint64 session_id, bytes "0"]⟩

def broadcast_player_remove (s : AOServer) (session_id : UInt64) : AOServer :=
  s.send_to_all ⟨bytes "PR", [of_uint64 session_id, bytes "1"]⟩

def broadcast_player_update (s : AOServer) (session_id : UInt64) (data_type : Int) (data : Bytes) :
    AOServer :=
  s.send_to_all ⟨bytes "PU", [of_uint64 session_id, to_string data_type, data]⟩

/-- How one owner of an area is written in the list of its case masters. -/
def cm_text (r : GameRoom) (session : ServerSession) : Bytes :=
  let char_name :=
    if 0 ≤ session.character_id ∧ session.character_id < intOfSize r.characters.length then
      r.characters.getD session.character_id.toNat []
    else session.display_name
  bytes "[" ++ of_uint64 session.session_id ++ bytes "] " ++ char_name

def arup_field (r : GameRoom) (type : ArupType) (area_name : Bytes) : Bytes :=
  match type, r.find_area_by_name area_name with
  | .ARUP_PLAYERS, _ =>
    to_string (r.sessions.filter fun s => s.joined && s.area = area_name).length
  | .ARUP_STATUS, none => bytes "IDLE"
  | .ARUP_STATUS, some area => area.status
  | .ARUP_CM, none => bytes "FREE"
  | .ARUP_CM, some area =>
    let cms := (bytes ", ").intercalate ((area.cm_owners.filterMap r.get_session).map (cm_text r))
    if cms.isEmpty then bytes "FREE" else cms
  | .ARUP_LOCKED, none => bytes "FREE"
  | .ARUP_LOCKED, some area =>
    match area.lock_mode with
    | .FREE => bytes "FREE"
    | .LOCKED => bytes "LOCKED"
    | .SPECTATABLE => bytes "SPECTATABLE"

def build_arup_fields (s : AOServer) (type : ArupType) : List Bytes :=
  to_string type.toInt :: s.room_.areas.map (arup_field s.room_ type)

def broadcast_arup (s : AOServer) (type : ArupType) : AOServer :=
  s.send_to_all ⟨bytes "ARUP", s.build_arup_fields type⟩

def send_full_arup (s : AOServer) (client_id : UInt64) : AOServer :=
  [ArupType.ARUP_PLAYERS, .ARUP_STATUS, .ARUP_CM, .ARUP_LOCKED].foldl
    (fun s type => s.send client_id ⟨bytes "ARUP", s.build_arup_fields type⟩) s

/-- What an effect does at once. -/
def run_effect (env : Env) (s : AOServer) : CommandEffect → AOServer
  | .send_system_message client_id message => s.send client_id (system_message message)
  | .send_kick_message client_id reason => s.send client_id ⟨bytes "KK", [reason]⟩
  | .send_ban_message client_id reason => s.send client_id ⟨bytes "KB", [reason]⟩
  | .disconnect_client _ => s
  | .send_area_join_info client_id area => s.send_area_join_info client_id area
  | .broadcast_background area bg => s.send_to_area area ⟨bytes "BN", [bg, bytes "def"]⟩
  | .broadcast_arup type => s.broadcast_arup type
  | .broadcast_chars_taken => s.broadcast_chars_taken s.room_.char_taken
  | .write_session client_id w => s.update_session client_id fun session =>
    { session with
      area := w.area, character_id := w.character_id, moderator := w.moderator
      acl_role := w.acl_role, moderator_name := w.moderator_name
      change_auth_started := w.change_auth_started, login_failures := w.login_failures }
  | .write_area area state => s.update_area area fun _ => state
  | .write_content c => { s with room_ := { s.room_ with
      characters := c.characters, music := c.music, areas := c.areas, char_taken := c.char_taken
      area_states_ := c.area_states_, area_name_to_id_ := c.area_name_to_id_
      area_name_to_index_ := c.area_name_to_index_ } }
  | .count_moderator change => s.update_stats fun stats =>
    { stats with moderators := stats.moderators + change }
  | .add_ban entry => match s.ban_manager with
    | none => s
    | some bm => s.bans (bm.add_ban entry env.now)
  | .remove_ban ipid => match s.ban_manager with
    | none => s
    | some bm => s.bans (bm.remove_ban ipid).2
  | .update_ban ipid field value => match s.ban_manager with
    | none => s
    | some bm => s.bans (bm.update_ban ipid field value).2

/-- The effects of a command. What they put into `deferred_closes` is closed behind them all, unless the
command threw. -/
def run_effects (env : Env) (throws : Bool) (s : AOServer) (effects : List CommandEffect) : AOServer :=
  let s := effects.foldl (run_effect env) s
  if throws then s
  else (effects.filterMap CommandEffect.deferred_close).foldl (fun s k => s.close_client_deferred env k) s

/-- Behind the effects there is nothing but closes. -/
theorem run_effects_closes (env : Env) (throws : Bool) (s : AOServer) (effects : List CommandEffect) :
    ∃ closes : List UInt64, run_effects env throws s effects =
      closes.foldl (fun s k => s.close_client_deferred env k) (effects.foldl (run_effect env) s) := by
  unfold run_effects
  split
  · exact ⟨[], rfl⟩
  · exact ⟨_, rfl⟩

theorem room_run_effects (env : Env) (throws : Bool) (s : AOServer) (effects : List CommandEffect) :
    (run_effects env throws s effects).room_ = (effects.foldl (run_effect env) s).room_ := by
  obtain ⟨closes, done⟩ := run_effects_closes env throws s effects
  rw [done]
  refine List.foldlRecOn (motive := fun t : AOServer => t.room_ = (effects.foldl (run_effect env) s).room_)
    closes _ rfl fun t same k _ => ?_
  unfold close_client_deferred close
  split
  · exact same
  · exact same

end AOServer

end AoSdl
