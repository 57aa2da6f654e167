import AoSdl.AoWire
import AoSdl.ServerBroadcasts

/-! An in-character message from one client to another: the client's layout, the relay by the
server, and the layout in which the receiving client reads it. -/
namespace AoSdl

structure ICMessageData where
  desk_mod : Int := 1
  pre_emote : Bytes := []
  character : Bytes := []
  emote : Bytes := []
  message : Bytes := []
  side : Bytes := bytes "def"
  sfx_name : Bytes := []
  emote_mod : Int := 0
  char_id : Int := -1
  sfx_delay : Int := 0
  objection_mod : Int := 0
  evidence_id : Int := 0
  flip : Int := 0
  realization : Int := 0
  text_color : Int := 0
  showname : Bytes := []
  other_charid : Int := -1
  self_offset : Bytes := bytes "0&0"
  immediate : Int := 0
  looping_sfx : Int := 0
  screenshake : Int := 0
  frame_screenshake : Bytes := []
  frame_realization : Bytes := []
  frame_sfx : Bytes := []
  additive : Int := 0
  effects : Bytes := []
  blipname : Bytes := []
  slide : Bytes := []

/-- The members a receiving client parses. -/
structure AOPacketMS where
  desk_mod : Int
  pre_emote : Bytes
  character : Bytes
  emote : Bytes
  message : Bytes
  side : Bytes
  showname : Bytes
  emote_mod : Int
  char_id : Int
  flip : Bool
  text_color : Int
  objection_mod : Int := 0
  screenshake : Bool := false
  realization : Bool := false
  additive : Bool := false
  frame_screenshake : Bytes := []
  sfx_name : Bytes := []
  sfx_delay : Int := 0
  sfx_looping : Bool := false
  frame_sfx : Bytes := []
  immediate : Bool := false
  slide : Bool := false
  deriving DecidableEq

namespace AOPacketMS

/-- The fields of the client to server layout that are encoded, which are all but the last. -/
def encoded (d : ICMessageData) : List Bytes :=
  [to_string d.desk_mod, ao_encode d.pre_emote, ao_encode d.character, ao_encode d.emote,
    ao_encode d.message, ao_encode d.side, ao_encode d.sfx_name, to_string d.emote_mod,
    to_string d.char_id, to_string d.sfx_delay, to_string d.objection_mod,
    to_string d.evidence_id, to_string d.flip, to_string d.realization, to_string d.text_color,
    ao_encode d.showname, to_string d.other_charid, ao_encode d.self_offset,
    to_string d.immediate, to_string d.looping_sfx, to_string d.screenshake,
    ao_encode d.frame_screenshake, ao_encode d.frame_realization, ao_encode d.frame_sfx,
    to_string d.additive, ao_encode d.effects, ao_encode d.blipname]

def outgoing (d : ICMessageData) : AOPacket := ⟨bytes "MS", encoded d ++ [d.slide]⟩

/-- Legacy values and values out of range. -/
def remap_emote_mod (emote_mod : Int) : Int :=
  let emote_mod := if emote_mod = 4 then 6 else emote_mod
  let emote_mod := if emote_mod = 2 then 1 else emote_mod
  if emote_mod ≠ 0 ∧ emote_mod ≠ 1 ∧ emote_mod ≠ 5 ∧ emote_mod ≠ 6 then 0 else emote_mod

/-- A field behind the required ones. -/
def extension {α : Type} (fields : List Bytes) (i : Nat) (default : α) (parse : Bytes → α) : α :=
  if i < fields.length then parse (field fields i) else default

/-- `none` where too few fields leave members without a value. -/
def incoming (fields : List Bytes) : Option AOPacketMS :=
  if 15 ≤ fields.length then
    some {
      desk_mod := if field fields 0 = bytes "chat" then -1 else safe_stoi (field fields 0)
      pre_emote := ao_decode (field fields 1)
      character := ao_decode (field fields 2)
      emote := ao_decode (field fields 3)
      message := ao_decode (field fields 4)
      side := ao_decode (field fields 5)
      sfx_name := ao_decode (field fields 6)
      emote_mod := remap_emote_mod (safe_stoi (field fields 7))
      char_id := safe_stoi (field fields 8)
      sfx_delay := safe_stoi (field fields 9)
      objection_mod := safe_stoi (field fields 10)
      flip := fb fields 12
      realization := fb fields 13
      text_color := safe_stoi (field fields 14)
      showname := extension fields 15 (ao_decode (field fields 2)) ao_decode
      immediate := fb fields 22
      sfx_looping := fb fields 23
      screenshake := fb fields 24
      frame_screenshake := extension fields 25 [] ao_decode
      frame_sfx := extension fields 27 [] ao_decode
      additive := fb fields 28
      slide := fb fields 31 }
  else none

end AOPacketMS

/-- The values of a C++ `int`. -/
def IsInt (n : Int) : Prop := -2 ^ 31 ≤ n ∧ n < 2 ^ 31

/-- The value of a flag. -/
def IsFlag (n : Int) : Prop := n = 0 ∨ n = 1

namespace ICMessageData

/-- Texts without escape tokens, and modifiers and flags in their ranges. -/
structure Legal (d : ICMessageData) : Prop where
  texts : ∀ text ∈ [d.pre_emote, d.character, d.emote, d.message, d.side, d.sfx_name, d.showname,
    d.self_offset, d.frame_screenshake, d.frame_realization, d.frame_sfx, d.effects, d.blipname],
    TokenFree text
  ints : ∀ n ∈ [d.desk_mod, d.char_id, d.sfx_delay, d.objection_mod, d.evidence_id, d.text_color,
    d.other_charid], IsInt n
  emote_mod : d.emote_mod ∈ [0, 1, 5, 6]
  flags : ∀ n ∈ [d.flip, d.realization, d.immediate, d.looping_sfx, d.screenshake, d.additive],
    IsFlag n

/-- What a receiving client should make of the message. -/
def received (d : ICMessageData) (slide : Bool) : AOPacketMS where
  desk_mod := d.desk_mod
  pre_emote := d.pre_emote
  character := d.character
  emote := d.emote
  message := d.message
  side := d.side
  showname := d.showname
  emote_mod := d.emote_mod
  char_id := d.char_id
  flip := d.flip = 1
  text_color := d.text_color
  objection_mod := d.objection_mod
  screenshake := d.screenshake = 1
  realization := d.realization = 1
  additive := d.additive = 1
  frame_screenshake := d.frame_screenshake
  sfx_name := d.sfx_name
  sfx_delay := d.sfx_delay
  sfx_looping := d.looping_sfx = 1
  frame_sfx := d.frame_sfx
  immediate := d.immediate = 1
  slide := slide

/-- What the server makes of the message. -/
def acted (d : ICMessageData) (k : UInt64) (slide : Bool) : ICAction where
  sender_id := k
  desk_mod := d.desk_mod
  pre_emote := ao_encode d.pre_emote
  character := ao_encode d.character
  emote := ao_encode d.emote
  message := ao_encode d.message
  side := ao_encode d.side
  sfx_name := ao_encode d.sfx_name
  emote_mod := d.emote_mod
  char_id := d.char_id
  sfx_delay := d.sfx_delay
  objection_mod := d.objection_mod
  evidence_id := d.evidence_id
  flip := d.flip = 1
  realization := d.realization = 1
  text_color := d.text_color
  showname := ao_encode d.showname
  other_charid := d.other_charid
  self_offset := ao_encode d.self_offset
  immediate := d.immediate = 1
  sfx_looping := d.looping_sfx = 1
  screenshake := d.screenshake = 1
  frame_screenshake := ao_encode d.frame_screenshake
  frame_realization := ao_encode d.frame_realization
  frame_sfx := ao_encode d.frame_sfx
  additive := d.additive = 1
  effects := ao_encode d.effects
  blipname := ao_encode d.blipname
  slide := slide

end ICMessageData

theorem to_string_ne_nil (n : Int) : to_string n ≠ [] := by
  cases n with
  | ofNat n => exact Lib.Decimal.natText_ne_nil n
  | negSucc n => exact List.cons_ne_nil _ _

theorem to_string_ne_chat (n : Int) : to_string n ≠ bytes "chat" := by
  intro same
  exact (to_string_apart n 99 (by rw [same]; decide)).2.2.2 rfl

theorem flag_text {n : Int} (flag : IsFlag n) : to_string n = bytes "1" ↔ n = 1 := by
  rcases flag with rfl | rfl <;> decide

namespace AOPacketMS

variable {fields : List Bytes} {i : Nat} {n : Int}

theorem fi_eq (text : field fields i = to_string n) (fits : IsInt n) (d : Int) :
    fi fields i d = n := by
  unfold fi
  rw [text, if_neg (by simp [to_string_ne_nil]), stoi_to_string fits.1 fits.2]
  rfl

theorem fb_eq (text : field fields i = to_string n) (flag : IsFlag n) :
    fb fields i = decide (n = 1) := by
  unfold fb
  rw [text, decide_eq_decide]
  exact flag_text flag

theorem fb_of_bool {b : Bool} (text : field fields i = AOServer.of_bool b) : fb fields i = b := by
  unfold fb
  rw [text]
  cases b <;> decide

theorem safe_stoi_eq (text : field fields i = to_string n) (fits : IsInt n) :
    safe_stoi (field fields i) = n := by
  rw [text]
  exact safe_stoi_to_string fits.1 fits.2 0

end AOPacketMS

namespace ICMessageData

open AOPacketMS

variable {d : ICMessageData}

theorem Legal.text (legal : d.Legal) {text : Bytes} (inside : text ∈ [d.pre_emote, d.character, d.emote,
    d.message, d.side, d.sfx_name, d.showname, d.self_offset, d.frame_screenshake,
    d.frame_realization, d.frame_sfx, d.effects, d.blipname]) : ao_decode (ao_encode text) = text :=
  ao_decode_encode (legal.texts text inside)

theorem Legal.emote_mod_int (legal : d.Legal) : IsInt d.emote_mod := by
  have range := legal.emote_mod
  simp only [List.mem_cons, List.not_mem_nil, or_false] at range
  unfold IsInt
  omega

theorem Legal.emote_mod_kept (legal : d.Legal) : remap_emote_mod d.emote_mod = d.emote_mod := by
  have range := legal.emote_mod
  simp only [List.mem_cons, List.not_mem_nil, or_false] at range
  rcases range with same | same | same | same <;> rw [same] <;> decide

/-- The server reads the client's layout back. -/
theorem action_outgoing (legal : d.Legal) (k : UInt64) (more : List Bytes) :
    action k (encoded d ++ more) = d.acted k (fb (encoded d ++ more) 27) := by
  have int {i : Nat} {n : Int} (text : field (encoded d ++ more) i = to_string n)
      (inside : n ∈ [d.desk_mod, d.char_id, d.sfx_delay, d.objection_mod, d.evidence_id,
        d.text_color, d.other_charid]) (default : Int) : fi (encoded d ++ more) i default = n :=
    fi_eq text (legal.ints n inside) default
  have flag {i : Nat} {n : Int} (text : field (encoded d ++ more) i = to_string n)
      (inside : n ∈ [d.flip, d.realization, d.immediate, d.looping_sfx, d.screenshake, d.additive]) :
      fb (encoded d ++ more) i = decide (n = 1) := fb_eq text (legal.flags n inside)
  have desk : field (encoded d ++ more) 0 ≠ bytes "chat" := to_string_ne_chat d.desk_mod
  unfold action acted
  rw [if_neg desk, int (i := 0) rfl (by simp), fi_eq (i := 7) rfl legal.emote_mod_int,
    int (i := 8) rfl (by simp), int (i := 9) rfl (by simp), int (i := 10) rfl (by simp),
    int (i := 11) rfl (by simp), flag (i := 12) rfl (by simp), flag (i := 13) rfl (by simp),
    int (i := 14) rfl (by simp), int (i := 16) rfl (by simp), flag (i := 18) rfl (by simp),
    flag (i := 19) rfl (by simp), flag (i := 20) rfl (by simp), flag (i := 24) rfl (by simp)]
  rfl

/-- A receiving client reads the server's layout back. -/
theorem incoming_acted (legal : d.Legal) (k : UInt64) (slide : Bool) :
    incoming (AOServer.ic_packet (d.acted k slide)).fields = some (d.received slide) := by
  have many : (AOServer.ic_packet (d.acted k slide)).fields.length = 32 := rfl
  generalize shape : (AOServer.ic_packet (d.acted k slide)).fields = fields at many ⊢
  have text {i : Nat} {t : Bytes} (place : field fields i = ao_encode t) (inside : t ∈ [d.pre_emote,
      d.character, d.emote, d.message, d.side, d.sfx_name, d.showname, d.self_offset,
      d.frame_screenshake, d.frame_realization, d.frame_sfx, d.effects, d.blipname]) :
      ao_decode (field fields i) = t := by
    rw [place]
    exact legal.text inside
  have int {i : Nat} {n : Int} (place : field fields i = to_string n)
      (inside : n ∈ [d.desk_mod, d.char_id, d.sfx_delay, d.objection_mod, d.evidence_id,
        d.text_color, d.other_charid]) : safe_stoi (field fields i) = n :=
    safe_stoi_eq place (legal.ints n inside)
  have extended {i : Nat} (low : i < 32) (default : Bytes) :
      extension fields i default ao_decode = ao_decode (field fields i) := if_pos (by omega)
  have desk : field fields 0 ≠ bytes "chat" := by
    rw [← shape]
    exact to_string_ne_chat d.desk_mod
  have emote_mod : remap_emote_mod (safe_stoi (field fields 7)) = d.emote_mod := by
    rw [safe_stoi_eq (n := d.emote_mod) (by rw [← shape]; rfl) legal.emote_mod_int]
    exact legal.emote_mod_kept
  unfold incoming received
  rw [if_pos (by omega), if_neg desk, emote_mod, extended (by decide), extended (by decide),
    extended (by decide)]
  subst shape
  rw [int (i := 0) (n := d.desk_mod) rfl (by simp), text (i := 1) rfl (by simp),
    text (i := 2) rfl (by simp), text (i := 3) rfl (by simp), text (i := 4) rfl (by simp),
    text (i := 5) rfl (by simp), text (i := 6) rfl (by simp),
    int (i := 8) (n := d.char_id) rfl (by simp), int (i := 9) (n := d.sfx_delay) rfl (by simp),
    int (i := 10) (n := d.objection_mod) rfl (by simp), fb_of_bool (i := 12) rfl,
    fb_of_bool (i := 13) rfl, int (i := 14) (n := d.text_color) rfl (by simp),
    text (i := 15) rfl (by simp), fb_of_bool (i := 22) rfl, fb_of_bool (i := 23) rfl,
    fb_of_bool (i := 24) rfl, text (i := 25) rfl (by simp), text (i := 27) rfl (by simp),
    fb_of_bool (i := 28) rfl, fb_of_bool (i := 31) rfl]
  rfl

/-- A text that neither separates fields nor ends a packet. -/
def Tame (text : Bytes) : Prop := 35 ∉ text ∧ 37 ∉ text

theorem tame_to_string (n : Int) : Tame (to_string n) :=
  ⟨fun mark => (to_string_apart n 35 mark).1 rfl, fun mark => (to_string_apart n 37 mark).2.1 rfl⟩

theorem tame_of_bool (b : Bool) : Tame (AOServer.of_bool b) := by
  cases b <;> exact ⟨by decide, by decide⟩

theorem tame_encoded (d : ICMessageData) : ∀ f ∈ encoded d, Tame f := by
  have text (t : Bytes) : Tame (ao_encode t) := ao_encode_clean t
  unfold encoded
  simp only [List.forall_mem_cons, List.not_mem_nil, false_imp_iff, implies_true, tame_to_string,
    text, and_self]

theorem tame_acted (d : ICMessageData) (k : UInt64) (slide : Bool) :
    ∀ f ∈ (AOServer.ic_packet (d.acted k slide)).fields, Tame f := by
  have digit : Tame (bytes "0") := ⟨by decide, by decide⟩
  have empty : Tame [] := ⟨List.not_mem_nil, List.not_mem_nil⟩
  have text (t : Bytes) : Tame (ao_encode t) := ao_encode_clean t
  unfold AOServer.ic_packet acted
  simp only [List.forall_mem_cons, List.not_mem_nil, false_imp_iff, implies_true, tame_to_string,
    tame_of_bool, text, digit, empty, and_self]

end ICMessageData

namespace AOServer

variable {deps : Deps} {env : Env} {s : AOServer} {k : UInt64} {session : ServerSession}

/-- The announcement of a new showname in front of a message. -/
def showname_update (session : ServerSession) (showname : Bytes) : List Bytes :=
  if !showname.isEmpty && session.display_name ≠ showname then
    [AOPacket.serialize ⟨bytes "PU", [of_uint64 session.session_id, to_string 2, showname]⟩]
  else []

theorem broadcasts_MS (found : s.room_.get_session k = some session) (joined : session.joined)
    {fields : List Bytes} {act : ICAction} (acts : AOPacketMS.action k fields = act)
    (short : ¬ (0 < s.room_.max_ic_message_length ∧
      s.room_.max_ic_message_length < intOfSize act.message.length))
    (passes : forwarded env act.message = some act.message) :
    (AOPacketMS.handle_server env s k session fields).broadcasts =
      s.broadcasts ++ (showname_update session act.showname ++ [(ic_packet act).serialize]) := by
  obtain ⟨judged, outcome⟩ := moderate_spec env s k session act.message
  obtain ⟨t, result⟩ : ∃ t, moderate env s k session act.message = (t, some act.message) :=
    ⟨_, Prod.ext rfl (outcome.trans passes)⟩
  rw [result] at judged
  have there : t.room_.get_session k = some session := by rw [judged.room]; exact found
  have sender : act.sender_id = k := by rw [← acts]; rfl
  have sent (u : AOServer) (same : u.room_ = t.room_) :
      ((u.room_.handle_ic act).foldl deliver u).broadcasts = u.broadcasts ++ [(ic_packet act).serialize] := by
    simp [GameRoom.handle_ic, same, sender, there, joined, deliver, broadcast_ic]
  unfold AOPacketMS.handle_server showname_update
  simp only [joined, acts, if_neg short, result, Bool.not_true, Bool.false_eq_true, if_false]
  split
  · refine (sent (t.broadcast_player_update session.session_id 2 act.showname) rfl).trans ?_
    rw [broadcast_player_update, broadcasts_send_to_all, judged.broadcasts]
    simp
  · refine (sent t rfl).trans ?_
    rw [judged.broadcasts, List.nil_append]

/-- A joined client's legal message that is short enough and that moderation lets pass comes out
of the relay as it went in, in every member a receiving client has. The packet carries the
others in their places. -/
theorem relay_keeps_message (deps : Deps) (env : Env) (s : AOServer) (k : UInt64)
    {session : ServerSession} {d : ICMessageData} (found : s.room_.get_session k = some session)
    (joined : session.joined) (legal : d.Legal)
    (short : ¬ (0 < s.room_.max_ic_message_length ∧
      s.room_.max_ic_message_length < intOfSize (ao_encode d.message).length))
    (passes : forwarded env (ao_encode d.message) = some (ao_encode d.message)) :
    ∃ content rest wire fields slide,
      packetCutter.cut (AOPacketMS.outgoing d).serialize = some (content, rest) ∧
      (process_packet deps env s k (content ++ bytes "#%")).broadcasts =
        s.broadcasts ++ (showname_update session (ao_encode d.showname) ++ [wire]) ∧
      AOClient.on_message [] wire = ([some ⟨bytes "MS", fields⟩], []) ∧
      AOPacketMS.incoming fields = some (d.received slide) ∧
      (safe_stoi (field fields 11) = d.evidence_id ∧ safe_stoi (field fields 16) = d.other_charid ∧
        ao_decode (field fields 19) = d.self_offset ∧
        ao_decode (field fields 26) = d.frame_realization ∧
        ao_decode (field fields 29) = d.effects ∧ ao_decode (field fields 30) = d.blipname) := by
  have kept : PacketFactory.find (bytes "MS") ≠ some .DONE := by decide
  obtain ⟨content, rest, more, cut, parsed⟩ := first_packet (by decide) kept
    (ICMessageData.tame_encoded d) d.slide
  have acts := ICMessageData.action_outgoing legal k more
  generalize slides : AOPacketMS.fb (AOPacketMS.encoded d ++ more) 27 = slide at acts
  have tame := ICMessageData.tame_acted d k slide
  have there : (s.emit (.dispatch k ⟨bytes "MS", AOPacketMS.encoded d ++ more⟩)).room_.get_session k =
    some session := found
  have sent := broadcasts_MS there joined acts short passes
  rw [broadcasts_dispatch] at sent
  refine ⟨content, rest, (ic_packet (d.acted k slide)).serialize, (ic_packet (d.acted k slide)).fields,
    slide, cut, ?_, ?_, ICMessageData.incoming_acted legal k slide, ?_⟩
  · refine Eq.trans ?_ sent
    have type : PacketFactory.find (bytes "MS") = some .MS := by decide
    simp only [process_packet, dispatch, deserialize_frame, parsed, there, type, handle_server,
      Bool.false_eq_true, if_false]
  · refine on_message_serialize (by decide) kept fun f member => ⟨(tame f member).1, fun start => ?_⟩
    exact (tame f member).2 (List.mem_of_head? start)
  · refine ⟨?_, ?_, ?_, ?_, ?_, ?_⟩
    · exact AOPacketMS.safe_stoi_eq (n := d.evidence_id) rfl (legal.ints _ (by simp))
    · exact AOPacketMS.safe_stoi_eq (n := d.other_charid) rfl (legal.ints _ (by simp))
    all_goals exact legal.text (by simp)

def testimony : ICMessageData :=
  { character := bytes "Phoenix", emote := bytes "normal", message := bytes "#1 & 100% sure"
    emote_mod := 5, char_id := 0, flip := 1, showname := bytes "Nick", slide := bytes "right" }

theorem testimony_legal : testimony.Legal where
  texts := by decide
  ints := by unfold IsInt; decide
  emote_mod := by decide
  flags := by unfold IsFlag; decide

theorem relay_keeps_testimony :
    ∃ content rest wire fields slide,
      packetCutter.cut (AOPacketMS.outgoing testimony).serialize = some (content, rest) ∧
      (process_packet plainDeps {} joinedClient 7 (content ++ bytes "#%")).broadcasts =
        joinedClient.broadcasts ++ (showname_update phoenix (bytes "Nick") ++ [wire]) ∧
      AOClient.on_message [] wire = ([some ⟨bytes "MS", fields⟩], []) ∧
      AOPacketMS.incoming fields = some (testimony.received slide) := by
  obtain ⟨content, rest, wire, fields, slide, cut, sent, read, same, _⟩ :=
    relay_keeps_message plainDeps {} joinedClient 7
      (show joinedClient.room_.get_session 7 = some phoenix by decide) (by decide) testimony_legal
      (by decide) (by decide)
  exact ⟨content, rest, wire, fields, slide, cut, sent, read, same⟩

/-- The messages a receiver decodes from what the server broadcasts because of one. -/
def relay (env : Env) (s : AOServer) (k : UInt64) (d : ICMessageData) : List AOPacketMS :=
  (process_packet plainDeps env s k (AOPacketMS.outgoing d).serialize).broadcasts.flatMap fun wire =>
    (AOClient.on_message [] wire).1.filterMap fun p => p.bind fun p =>
      if p.header = bytes "MS" then AOPacketMS.incoming p.fields else none

/-- Two messages that differ in evidence, realization frames and effects come out as the same
message, and one over the room's limit does not come out at all. -/
theorem relay_loses_members_and_long_messages :
    (testimony.Legal ∧ { testimony with
        evidence_id := 1, frame_realization := bytes "x", effects := bytes "flash" }.Legal ∧
      relay {} joinedClient 7 testimony = relay {} joinedClient 7 { testimony with
        evidence_id := 1, frame_realization := bytes "x", effects := bytes "flash" }) ∧
    (testimony.Legal ∧ relay {} { joinedClient with
      room_ := { joinedClient.room_ with max_ic_message_length := 8 } } 7 testimony = []) := by
  refine ⟨⟨testimony_legal, ⟨by decide, ?_, by decide, ?_⟩, by decide +kernel⟩, testimony_legal,
    by decide +kernel⟩
  · unfold IsInt
    decide
  · unfold IsFlag
    decide

end AOServer

end AoSdl
