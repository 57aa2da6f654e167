import AoSdl.AoWire
import AoSdl.ServerBroadcasts

/-! What the server broadcasts because of a chat, music or evidence packet, and when the
receivers read exactly the packets that are meant. -/
namespace AoSdl

/-- A packet as it is meant to be read: the header with decoded texts, or a list of evidence. -/
inductive View where
  | packet (header : Bytes) (texts : List Bytes)
  | evidence (items : List EvidenceItem)
  deriving DecidableEq

namespace View

def wire : View → Bytes
  | .packet header texts => AOPacket.serialize ⟨header, texts⟩
  | .evidence items => AOPacket.serialize ⟨bytes "LE", items.map AOServer.evidence_text⟩

def header : View → Bytes
  | .packet header _ => header
  | .evidence _ => bytes "LE"

def SaidBy : View → List Bytes → Prop
  | .packet _ texts, fields => ao_decode_list fields = texts
  | .evidence items, fields => AOPacketLE.items fields = items

end View

/-- A receiver reads a wire text as exactly one packet, and it is the one meant. -/
def Shows (wire : Bytes) (view : View) : Prop :=
  ∃ p, AOClient.on_message [] wire = ([some p], []) ∧ p.header = view.header ∧ view.SaidBy p.fields

/-- A text that survives the wire format although it is not encoded. -/
def Plain (text : Bytes) : Prop := (35 ∉ text ∧ text.head? ≠ some 37) ∧ TokenFree text

instance : DecidablePred Plain := fun text =>
  inferInstanceAs (Decidable ((35 ∉ text ∧ text.head? ≠ some 37) ∧ TokenFree text))

structure PlainItem (ev : EvidenceItem) : Prop where
  name : Plain ev.name
  description : 35 ∉ ev.description ∧ TokenFree ev.description
  image : 35 ∉ ev.image ∧ TokenFree ev.image
  ampersand : 38 ∉ ev.name ∧ 38 ∉ ev.description

def View.Plain : View → Prop
  | .packet _ texts => ∀ text ∈ texts, AoSdl.Plain text
  | .evidence items => ∀ ev ∈ items, PlainItem ev

/-- A header whose packets keep their fields. -/
def Known (header : Bytes) : Prop := 35 ∉ header ∧ PacketFactory.find header ≠ some .DONE

theorem evidence_text_eq (ev : EvidenceItem) :
    AOServer.evidence_text ev = ev.name ++ 38 :: (ev.description ++ 38 :: ev.image) := by
  simp [AOServer.evidence_text, bytes]
  rfl

theorem free_evidence_text {ev : EvidenceItem} : TokenFree (AOServer.evidence_text ev) ↔
    TokenFree ev.name ∧ TokenFree ev.description ∧ TokenFree ev.image := by
  have foreign : ∀ e ∈ escapes, (38 : UInt8) ∉ e.token := by decide
  rw [evidence_text_eq, TokenFree, Lib.Escape.free_cons_append foreign,
    Lib.Escape.free_cons_append foreign]
  rfl

theorem item_decode {ev : EvidenceItem} :
    AOPacketLE.item (ao_decode (AOServer.evidence_text ev)) = ev ↔
      TokenFree (AOServer.evidence_text ev) ∧ 38 ∉ ev.name ∧ 38 ∉ ev.description := by
  have text := evidence_text_eq ev
  constructor
  · intro read
    have many : 2 ≤ (ao_decode (AOServer.evidence_text ev)).count 38 := by
      refine le_trans ?_ (Lib.Escape.count_le_unescape escapes_bracketed (by decide) _)
      rw [text, List.count_append, List.count_cons_self, List.count_append, List.count_cons_self]
      omega
    unfold AOPacketLE.item at read
    cases first : Lib.Fields.splitFirst 38 (ao_decode (AOServer.evidence_text ev)) with
    | none =>
      rw [List.count_eq_zero.mpr (Lib.Fields.splitFirst_none.mp first)] at many
      omega
    | some parts =>
      obtain ⟨name, rest⟩ := parts
      obtain ⟨shape, clean⟩ := Lib.Fields.splitFirst_some first
      cases second : Lib.Fields.splitFirst 38 rest with
      | none =>
        rw [shape, List.count_append, List.count_cons_self, List.count_eq_zero.mpr clean,
          List.count_eq_zero.mpr (Lib.Fields.splitFirst_none.mp second)] at many
        omega
      | some parts =>
        obtain ⟨description, image⟩ := parts
        obtain ⟨shape', clean'⟩ := Lib.Fields.splitFirst_some second
        simp only [first, second] at read
        have same : ao_decode (AOServer.evidence_text ev) = AOServer.evidence_text ev := by
          rw [shape, shape', text, ← read]
        exact ⟨ao_decode_eq_self.mp same, by rw [← read]; exact ⟨clean, clean'⟩⟩
  · rintro ⟨free, name, description⟩
    rw [ao_decode_eq_self.mpr free, text]
    simp only [AOPacketLE.item, Lib.Fields.splitFirst_append name,
      Lib.Fields.splitFirst_append description]

theorem plain_item_iff {ev : EvidenceItem} :
    (35 ∉ AOServer.evidence_text ev ∧ (AOServer.evidence_text ev).head? ≠ some 37) ∧
        AOPacketLE.item (ao_decode (AOServer.evidence_text ev)) = ev ↔ PlainItem ev := by
  have marks : 35 ∉ AOServer.evidence_text ev ↔
      35 ∉ ev.name ∧ 35 ∉ ev.description ∧ 35 ∉ ev.image := by
    rw [evidence_text_eq]
    simp
  have start : (AOServer.evidence_text ev).head? = some 37 ↔ ev.name.head? = some 37 := by
    rw [evidence_text_eq]
    cases ev.name <;> simp
  rw [item_decode, free_evidence_text, marks, ne_eq, start]
  constructor
  · rintro ⟨⟨⟨n, d, i⟩, head⟩, ⟨fn, fd, fi⟩, apart⟩
    exact ⟨⟨⟨n, head⟩, fn⟩, ⟨d, fd⟩, ⟨i, fi⟩, apart⟩
  · rintro ⟨⟨⟨n, head⟩, fn⟩, ⟨d, fd⟩, ⟨i, fi⟩, apart⟩
    exact ⟨⟨⟨n, d, i⟩, head⟩, ⟨fn, fd, fi⟩, apart⟩

theorem shows_packet {header : Bytes} (known : Known header) {fields texts : List Bytes}
    (many : texts.length = fields.length) :
    Shows (AOPacket.serialize ⟨header, fields⟩) (.packet header texts) ↔
      (∀ f ∈ fields, 35 ∉ f ∧ f.head? ≠ some 37) ∧ fields.map ao_decode = texts :=
  reads_back known.1 known.2 many

theorem map_eq_self {α : Type} {f : α → α} {l : List α} : l.map f = l ↔ ∀ a ∈ l, f a = a := by
  simpa using List.map_inj_left (l := l) (f := f) (g := id)

theorem shows_plain {view : View} (known : Known view.header) :
    Shows view.wire view ↔ view.Plain := by
  cases view with
  | packet header texts =>
    have decoded : texts.map ao_decode = texts ↔ ∀ text ∈ texts, TokenFree text := by
      rw [map_eq_self]
      exact forall₂_congr fun _ _ => ao_decode_eq_self
    refine (shows_packet known rfl).trans ?_
    rw [decoded, ← forall₂_and]
    rfl
  | evidence items =>
    have many : items.length = (items.map AOServer.evidence_text).length := by simp
    have read := @reads_back _ _ _ (AOPacketLE.item ∘ ao_decode) _ known.1 known.2 many
    have each : (items.map AOServer.evidence_text).map (AOPacketLE.item ∘ ao_decode) = items ↔
        ∀ ev ∈ items, AOPacketLE.item (ao_decode (AOServer.evidence_text ev)) = ev := by
      rw [List.map_map, map_eq_self]
      rfl
    rw [each, List.forall_mem_map, ← forall₂_and] at read
    refine Iff.trans ?_ (read.trans (forall₂_congr fun _ _ => plain_item_iff))
    simp only [Shows, View.wire, View.header, View.SaidBy, AOPacketLE.items, ao_decode_list,
      List.map_map]

/-- What receivers read off the wire texts of views is what is meant exactly if all are plain. -/
theorem shows_views {views : List View} (known : ∀ view ∈ views, Known view.header) :
    List.Forall₂ Shows (views.map View.wire) views ↔ ∀ view ∈ views, view.Plain := by
  rw [List.forall₂_map_left_iff, List.forall₂_same]
  exact forall₂_congr fun view member => shows_plain (known view member)

namespace AOServer

section Announced

/-- The texts of a status change are what the areas hold when it is sent. -/
def effect_views (s : AOServer) : CommandEffect → List View
  | .broadcast_background _ bg => [.packet (bytes "BN") [bg, bytes "def"]]
  | .broadcast_arup type => [.packet (bytes "ARUP") (s.build_arup_fields type)]
  | _ => []

def command_views (env : Env) (s : AOServer) : List CommandEffect → List View
  | [] => []
  | e :: rest => effect_views s e ++ command_views env (run_effect env s e) rest

/-- A chat packet that is neither a command nor held back. -/
def goes_out (env : Env) (r : GameRoom) (message : Bytes) : Bool :=
  !try_dispatch message && !env.is_spam &&
    !decide (0 < r.max_ooc_message_length ∧ r.max_ooc_message_length < intOfSize message.length) &&
    (forwarded env message).isSome

def name_views (session : ServerSession) (sender_name : Bytes) : List View :=
  if session.display_name ≠ sender_name then
    [.packet (bytes "PU") [of_uint64 session.session_id, to_string 0, sender_name]] else []

def chat_views (env : Env) (s : AOServer) (session : ServerSession) (sender_name message : Bytes) :
    List View :=
  if try_dispatch message then command_views env s env.command
  else if goes_out env s.room_ message then
    name_views session sender_name ++ [.packet (bytes "CT") [sender_name, message, bytes "0"]]
  else []

def area_views (s : AOServer) (client_id : UInt64) (session : ServerSession) (name : Bytes) :
    List View :=
  let moved := s.update_session client_id fun session => { session with area := name }
  (if 0 ≤ s.room_.area_index name then
    [.packet (bytes "PU") [of_uint64 session.session_id, to_string 3, to_string (s.room_.area_index name)]]
    else []) ++ [.packet (bytes "ARUP") (moved.build_arup_fields .ARUP_PLAYERS)]

def music_views (s : AOServer) (client_id : UInt64) (session : ServerSession) (fields : List Bytes) :
    List View :=
  let name := AOPacketMC.name fields
  if name ∈ s.room_.areas then
    if AOPacketMC.admits s client_id name then area_views s client_id session name else []
  else
    [.packet (bytes "MC") [name, to_string session.character_id, AOPacketMC.showname fields,
      of_bool (AOPacketMC.looping fields = 1), to_string (AOPacketMC.channel fields), bytes "0"]]

/-- The area's evidence after the change. -/
def evidence_views (s : AOServer) (session : ServerSession)
    (change : List EvidenceItem → Option (List EvidenceItem)) : List View :=
  match s.room_.find_area_by_name session.area with
  | none => []
  | some area => ((change area.evidence).map View.evidence).toList

/-- What everybody should read because of a packet of a joined client. -/
def announced (env : Env) (s : AOServer) (client_id : UInt64) (session : ServerSession)
    (type : PacketType) (fields : List Bytes) : List View :=
  match type with
  | .CT => chat_views env s session (AOPacketCT.sender_name fields) (AOPacketCT.message fields)
  | .MC => music_views s client_id session fields
  | .PE => evidence_views s session fun evidence => some (evidence ++ [AOPacketPE.item fields])
  | .EE => evidence_views s session fun evidence =>
    if evidence_index (AOPacketEE.ev_id fields) evidence then
      some (evidence.set (AOPacketEE.ev_id fields).toNat (AOPacketEE.item fields)) else none
  | _ => []

/-- The moderator does not put another text in a chat message's place. -/
def Uncensored (env : Env) (s : AOServer) (type : PacketType) (fields : List Bytes) : Prop :=
  type = .CT → goes_out env s.room_ (AOPacketCT.message fields) →
    env.verdict.map (·.action) = some ModerationAction.CENSOR → AOPacketCT.message fields = bytes "[filtered]"

end Announced

section Commands

variable (s : AOServer)

theorem broadcasts_run_effect (env : Env) (e : CommandEffect) :
    (run_effect env s e).broadcasts = s.broadcasts ++ (effect_views s e).map View.wire := by
  cases e with
  | broadcast_background area bg => simp [run_effect, effect_views, View.wire]
  | broadcast_arup type => simp [run_effect, effect_views, View.wire, broadcast_arup]
  | send_area_join_info k area => simp [run_effect, effect_views]
  | add_ban entry | remove_ban ipid | update_ban ipid field value =>
    simp only [run_effect, effect_views]
    split <;> simp
  | write_content content =>
    simp [run_effect, effect_views, broadcasts]
  | _ => simp [run_effect, effect_views]

theorem broadcasts_command (env : Env) (effects : List CommandEffect) :
    (effects.foldl (run_effect env) s).broadcasts =
      s.broadcasts ++ (command_views env s effects).map View.wire := by
  induction effects generalizing s with
  | nil => simp [command_views]
  | cons e effects ih =>
    rw [List.foldl_cons, ih, broadcasts_run_effect, command_views, List.map_append,
      List.append_assoc]

theorem broadcasts_run_effects (env : Env) (throws : Bool) (effects : List CommandEffect) :
    (run_effects env throws s effects).broadcasts =
      s.broadcasts ++ (command_views env s effects).map View.wire := by
  obtain ⟨closes, done⟩ := run_effects_closes env throws s effects
  rw [done, ← broadcasts_command]
  exact List.foldlRecOn (motive := fun t : AOServer =>
      t.broadcasts = (effects.foldl (run_effect env) s).broadcasts) closes _ rfl
    fun t same k _ => (broadcasts_close_client_deferred t env k).trans same

end Commands

section Handlers

variable {env : Env} {s : AOServer} {k : UInt64} {session : ServerSession}

theorem known_headers : ∀ header ∈ [bytes "BN", bytes "ARUP", bytes "PU", bytes "CT", bytes "MC",
    bytes "LE"], Known header := by
  unfold Known
  decide

theorem known_command_views (env : Env) (s : AOServer) (effects : List CommandEffect) :
    ∀ view ∈ command_views env s effects, Known view.header := by
  induction effects generalizing s with
  | nil => nofun
  | cons e effects ih =>
    intro view member
    rcases List.mem_append.mp member with first | later
    · cases e with
      | broadcast_background area bg | broadcast_arup type =>
        obtain rfl := List.mem_singleton.mp first
        exact known_headers _ (by simp [View.header])
      | _ => cases first
    · exact ih _ view later

theorem chat_message (found : s.room_.get_session k = some session) (joined : session.joined)
    (name message : Bytes) :
    ((s.room_.handle_ooc ⟨k, name, message⟩).foldl deliver s).broadcasts =
      s.broadcasts ++ [AOPacket.serialize ⟨bytes "CT", [name, message, bytes "0"]⟩] := by
  simp [GameRoom.handle_ooc, found, joined, deliver, broadcast_ooc]

theorem broadcasts_chat (found : s.room_.get_session k = some session) (joined : session.joined)
    {fields : List Bytes} {message : Bytes} (out : goes_out env s.room_ (AOPacketCT.message fields))
    (passed : forwarded env (AOPacketCT.message fields) = some message) :
    (AOPacketCT.handle_server env s k session fields).1.broadcasts = s.broadcasts ++
      ((name_views session (AOPacketCT.sender_name fields)).map View.wire ++
        [AOPacket.serialize ⟨bytes "CT", [AOPacketCT.sender_name fields, message, bytes "0"]⟩]) := by
  obtain ⟨judged, outcome⟩ := moderate_spec env s k session (AOPacketCT.message fields)
  simp only [goes_out, Bool.and_eq_true, Bool.not_eq_true', decide_eq_false_iff_not] at out
  obtain ⟨⟨⟨word, clean⟩, short⟩, _⟩ := out
  obtain ⟨t, result⟩ : ∃ t, moderate env s k session (AOPacketCT.message fields) = (t, some message) :=
    ⟨_, Prod.ext rfl (outcome.trans passed)⟩
  rw [result] at judged
  have there : t.room_.get_session k = some session := by rw [judged.room]; exact found
  unfold AOPacketCT.handle_server
  simp only [joined, word, clean, result, if_neg short, Bool.not_true, Bool.false_eq_true, if_false]
  by_cases same : session.display_name = AOPacketCT.sender_name fields
  · simp only [name_views, same, ne_eq, not_true_eq_false, if_false, List.map_nil, List.nil_append]
    rw [chat_message there joined, judged.broadcasts]
  · have renamed := get_session_update_session there fun session =>
      { session with display_name := AOPacketCT.sender_name fields }
    simp only [name_views, same, ne_eq, not_false_eq_true, if_true, broadcast_player_update]
    refine (chat_message (s := (t.update_session k _).send_to_all _) renamed joined _ _).trans ?_
    rw [broadcasts_send_to_all, broadcasts_update_session, judged.broadcasts]
    simp [View.wire]

theorem broadcasts_chat_held {fields : List Bytes}
    (word : try_dispatch (AOPacketCT.message fields) = false)
    (held : goes_out env s.room_ (AOPacketCT.message fields) = false) :
    (AOPacketCT.handle_server env s k session fields).1.broadcasts = s.broadcasts := by
  obtain ⟨judged, outcome⟩ := moderate_spec env s k session (AOPacketCT.message fields)
  unfold AOPacketCT.handle_server
  simp only [word, Bool.false_eq_true, if_false]
  split
  · rfl
  split
  · rfl
  split
  · rfl
  next spam long =>
    have stopped : forwarded env (AOPacketCT.message fields) = none := by
      simpa [goes_out, word, spam, long] using held
    rw [stopped] at outcome
    split
    · next t result => rw [result] at judged; exact judged.broadcasts
    · next t m result => rw [result] at outcome; cases outcome

theorem broadcasts_switch_area (s : AOServer) (k : UInt64) (session : ServerSession) (name : Bytes) :
    (AOPacketMC.switch_area s k session name).broadcasts =
      s.broadcasts ++ (area_views s k session name).map View.wire := by
  obtain ⟨room, told⟩ := send_area_join_info_spec
    (s.update_session k fun session => { session with area := name }) k name
  have arup {t : AOServer} (type : ArupType)
      (same : t.room_ = (s.update_session k fun session => { session with area := name }).room_) :
      t.build_arup_fields type =
        (s.update_session k fun session => { session with area := name }).build_arup_fields type := by
    simp only [build_arup_fields, same]
  unfold AOPacketMC.switch_area area_views
  simp only [room, broadcast_arup, broadcast_player_update]
  have index : (s.update_session k fun session => { session with area := name }).room_.area_index name =
    s.room_.area_index name := rfl
  rw [index]
  split
  · rw [broadcasts_send_to_all, broadcasts_send_to_all, told, broadcasts_update_session]
    rw [arup .ARUP_PLAYERS (t := AOServer.send_to_all _ _) room]
    simp [View.wire]
  · rw [broadcasts_send_to_all, told, broadcasts_update_session, arup .ARUP_PLAYERS room]
    simp [View.wire]

theorem broadcasts_music (found : s.room_.get_session k = some session) (joined : session.joined)
    (fields : List Bytes) : (AOPacketMC.handle_server s k session fields).broadcasts =
      s.broadcasts ++ (music_views s k session fields).map View.wire := by
  unfold AOPacketMC.handle_server music_views
  simp only [joined, Bool.not_true, Bool.false_eq_true, if_false]
  split
  · split
    · exact broadcasts_switch_area _ _ _ _
    · simp
  · simp [GameRoom.handle_music, found, joined, deliver, broadcast_music, View.wire]

theorem broadcasts_evidence (joined : session.joined)
    (change : List EvidenceItem → Option (List EvidenceItem)) :
    (change_evidence s session change).broadcasts =
      s.broadcasts ++ (evidence_views s session change).map View.wire := by
  unfold change_evidence evidence_views
  simp only [joined, Bool.not_true, Bool.false_eq_true, if_false]
  cases s.room_.find_area_by_name session.area with
  | none => simp
  | some area =>
    cases changed : change area.evidence with
    | none => simp [changed]
    | some evidence => simp [changed, View.wire, build_evidence_packet]

/-- A chat message is shown exactly if its texts are plain and moderation left it alone. -/
theorem shows_chat {name message passed_on : Bytes} (passed : forwarded env message = some passed_on) :
    Shows (AOPacket.serialize ⟨bytes "CT", [name, passed_on, bytes "0"]⟩)
        (.packet (bytes "CT") [name, message, bytes "0"]) ↔
      (View.packet (bytes "CT") [name, message, bytes "0"]).Plain ∧
        (env.verdict.map (·.action) = some ModerationAction.CENSOR → message = bytes "[filtered]") := by
  have known : Known (bytes "CT") := known_headers _ (by simp)
  have plain := @shows_plain (.packet (bytes "CT") [name, message, bytes "0"]) known
  rcases forwarded_some passed with ⟨rfl, uncensored⟩ | ⟨rfl, censored⟩
  · exact plain.trans (iff_self_and.mpr fun _ censored => absurd censored uncensored)
  · by_cases filtered : message = bytes "[filtered]"
    · rw [filtered] at plain ⊢
      exact plain.trans (iff_self_and.mpr fun _ _ => rfl)
    · refine iff_of_false (fun shows => filtered ?_) fun plain => filtered (plain.2 censored)
      have many : [name, message, bytes "0"].length = [name, bytes "[filtered]", bytes "0"].length := rfl
      have read := ((shows_packet known many).mp shows).2
      have same : ao_decode (bytes "[filtered]") = message := (List.cons.inj (List.cons.inj read).2).1
      exact same.symm.trans (by decide)

theorem managed_bans_room (s : AOServer) (f : BanManager → BanManager × BanEffects) :
    (match s.ban_manager with
      | none => s
      | some bm => s.bans (f bm)).room_ = s.room_ := by
  split <;> rfl

theorem run_effect_room {s t : AOServer} (same : s.room_ = t.room_) (e : CommandEffect) :
    (run_effect env s e).room_ = (run_effect env t e).room_ := by
  have sent (l : List UInt64) (p : AOPacket) (u : AOServer) :
      (l.foldl (fun s id => s.send id p) u).room_ = u.room_ := by
    induction l generalizing u with
    | nil => rfl
    | cons id l ih => exact ih _
  cases e with
  | send_system_message | send_kick_message | send_ban_message | disconnect_client | broadcast_background
  | broadcast_arup => exact same
  | send_area_join_info k area =>
    exact (send_area_join_info_spec s k area).1.trans (same.trans (send_area_join_info_spec t k area).1.symm)
  | broadcast_chars_taken => exact (sent _ _ s).trans (same.trans (sent _ _ t).symm)
  | write_session k w => exact congrArg (GameRoom.update_session · k _) same
  | write_area area state => exact congrArg (GameRoom.update_area · area fun _ => state) same
  | write_content content => simp only [run_effect, same]
  | count_moderator change => simp only [run_effect, update_stats, same]
  | add_ban | remove_ban | update_ban =>
    exact (managed_bans_room s _).trans (same.trans (managed_bans_room t _).symm)

theorem command_views_room {s t : AOServer} (same : s.room_ = t.room_) (effects : List CommandEffect) :
    command_views env s effects = command_views env t effects := by
  induction effects generalizing s t with
  | nil => rfl
  | cons e effects ih =>
    have first : effect_views s e = effect_views t e := by
      cases e with
      | broadcast_arup type => simp only [effect_views, build_arup_fields, same]
      | _ => rfl
    rw [command_views, command_views, first, ih (run_effect_room same e)]

/-- What a packet announces depends on the room alone. -/
theorem announced_room {s t : AOServer} (same : s.room_ = t.room_) (type : PacketType)
    (fields : List Bytes) : announced env s k session type fields = announced env t k session type fields := by
  have commands : command_views env s env.command = command_views env t env.command :=
    command_views_room same env.command
  unfold announced
  split
  · simp only [chat_views, commands, same]
  all_goals
    obtain ⟨room, _, _, _⟩ := s
    obtain ⟨_, _, _, _⟩ := t
    obtain rfl : room = _ := same
    rfl

theorem known_announced (type : PacketType) (fields : List Bytes) :
    ∀ view ∈ announced env s k session type fields, Known view.header := by
  have known (view : View) (inside : view.header ∈ [bytes "BN", bytes "ARUP", bytes "PU", bytes "CT",
      bytes "MC", bytes "LE"]) : Known view.header := known_headers _ inside
  have evidence (change : List EvidenceItem → Option (List EvidenceItem)) :
      ∀ view ∈ evidence_views s session change, Known view.header := by
    intro view member
    unfold evidence_views at member
    split at member
    · cases member
    · obtain ⟨items, _, rfl⟩ := Option.map_eq_some_iff.mp (Option.mem_toList.mp member)
      exact known _ (by simp [View.header])
  intro view member
  unfold announced at member
  split at member
  · unfold chat_views name_views at member
    split at member
    · exact known_command_views env s _ view member
    · refine known view ?_
      split at member
      · rcases List.mem_append.mp member with name | text
        · split at name
          · simp [List.mem_singleton.mp name, View.header]
          · cases name
        · simp [List.mem_singleton.mp text, View.header]
      · cases member
  · refine known view ?_
    unfold music_views area_views at member
    dsimp only at member
    split at member
    · split at member
      · rcases List.mem_append.mp member with index | players
        · split at index
          · simp [List.mem_singleton.mp index, View.header]
          · cases index
        · simp [List.mem_singleton.mp players, View.header]
      · cases member
    · simp [List.mem_singleton.mp member, View.header]
  · exact evidence _ view member
  · exact evidence _ view member
  · cases member

theorem forall₂_concat {α β : Type} {R : α → β → Prop} {l : List α} {m : List β} {a : α} {b : β}
    (many : l.length = m.length) :
    List.Forall₂ R (l ++ [a]) (m ++ [b]) ↔ List.Forall₂ R l m ∧ R a b := by
  constructor
  · intro all
    have front := List.forall₂_take_append _ _ _ all
    have back := List.forall₂_drop_append _ _ _ all
    rw [List.take_left' many] at front
    rw [List.drop_left' many] at back
    exact ⟨front, (List.forall₂_cons.mp back).1⟩
  · rintro ⟨front, last⟩
    exact List.rel_append front (.cons last .nil)

theorem chat_shows_iff (found : s.room_.get_session k = some session) (joined : session.joined)
    (fields : List Bytes) :
    ∃ wires, (AOPacketCT.handle_server env s k session fields).1.broadcasts = s.broadcasts ++ wires ∧
      (List.Forall₂ Shows wires (announced env s k session .CT fields) ↔
        (∀ view ∈ announced env s k session .CT fields, view.Plain) ∧ Uncensored env s .CT fields) := by
  have known : ∀ view ∈ announced env s k session .CT fields, Known view.header :=
    known_announced .CT fields
  simp only [announced, chat_views] at known ⊢
  cases word : try_dispatch (AOPacketCT.message fields) with
  | true =>
    have silent : Uncensored env s .CT fields := fun _ out => by simp [goes_out, word] at out
    simp only [word, if_true] at known ⊢
    refine ⟨_, ?_, (shows_views known).trans (iff_self_and.mpr fun _ => silent)⟩
    have ran := broadcasts_run_effects s env env.command_throws env.command
    unfold AOPacketCT.handle_server
    simpa only [joined, word, Bool.not_true, Bool.false_eq_true, if_false, if_true] using ran
  | false =>
    simp only [word, Bool.false_eq_true, if_false] at known ⊢
    cases out : goes_out env s.room_ (AOPacketCT.message fields) with
    | false =>
      have silent : Uncensored env s .CT fields := fun _ goes => by simp [out] at goes
      refine ⟨[], ?_, by simp [silent]⟩
      rw [broadcasts_chat_held word out, List.append_nil]
    | true =>
      have passes := out
      simp only [goes_out, Bool.and_eq_true] at passes
      obtain ⟨message, passed⟩ := Option.isSome_iff_exists.mp passes.2
      refine ⟨_, broadcasts_chat found joined out passed, ?_⟩
      simp only [out, if_true] at known ⊢
      have names := @shows_views (name_views session (AOPacketCT.sender_name fields))
        fun view member => known view (List.mem_append_left _ member)
      have uncensored : Uncensored env s .CT fields ↔
          (env.verdict.map (·.action) = some ModerationAction.CENSOR →
            AOPacketCT.message fields = bytes "[filtered]") := by simp [Uncensored, out]
      rw [forall₂_concat (by simp), names, shows_chat passed, uncensored, List.forall_mem_append,
        List.forall_mem_singleton, and_assoc]

/-- The broadcasts of the handlers of chat, music and evidence packets. -/
theorem handler_shows_iff (deps : Deps) (found : s.room_.get_session k = some session)
    (joined : session.joined) {type : PacketType}
    (kind : type ∈ [PacketType.CT, .PE, .EE, .MC]) (fields : List Bytes) :
    ∃ wires, (handle_server deps env s k session type fields).1.broadcasts = s.broadcasts ++ wires ∧
      (List.Forall₂ Shows wires (announced env s k session type fields) ↔
        (∀ view ∈ announced env s k session type fields, view.Plain) ∧ Uncensored env s type fields) := by
  have known : ∀ view ∈ announced env s k session type fields, Known view.header :=
    known_announced type fields
  have as_announced {t : AOServer} (uncensored : Uncensored env s type fields) (wired : t.broadcasts =
      s.broadcasts ++ (announced env s k session type fields).map View.wire) :
      ∃ wires, t.broadcasts = s.broadcasts ++ wires ∧
        (List.Forall₂ Shows wires (announced env s k session type fields) ↔
          (∀ view ∈ announced env s k session type fields, view.Plain) ∧
            Uncensored env s type fields) :=
    ⟨_, wired, (shows_views known).trans (iff_self_and.mpr fun _ => uncensored)⟩
  simp only [List.mem_cons, List.not_mem_nil, or_false] at kind
  rcases kind with rfl | rfl | rfl | rfl
  · exact chat_shows_iff found joined fields
  · exact as_announced nofun (broadcasts_evidence joined _)
  · exact as_announced nofun (broadcasts_evidence joined _)
  · exact as_announced nofun (broadcasts_music found joined fields)

end Handlers

/-- Everybody reads what a chat, music or evidence packet of a joined client announces exactly
if all its texts are plain and moderation put no other text in the message's place. -/
theorem broadcasts_show_iff (deps : Deps) (env : Env) (s : AOServer) (k : UInt64)
    {packet_str : Bytes} {packet : AOPacket} {session : ServerSession} {type : PacketType}
    (parsed : AOPacket.deserialize packet_str = some packet)
    (found : s.room_.get_session k = some session) (joined : session.joined)
    (known : PacketFactory.find packet.header = some type)
    (kind : type ∈ [PacketType.CT, .PE, .EE, .MC]) :
    (∃ wires, (process_packet deps env s k packet_str).broadcasts = s.broadcasts ++ wires ∧
        List.Forall₂ Shows wires (announced env s k session type packet.fields)) ↔
      (∀ view ∈ announced env s k session type packet.fields, view.Plain) ∧
        Uncensored env s type packet.fields := by
  have entered : (s.emit (.dispatch k packet)).room_ = s.room_ := rfl
  obtain ⟨wires, sent, shows⟩ :=
    @handler_shows_iff env (s.emit (.dispatch k packet)) k session deps found joined type kind packet.fields
  rw [announced_room entered] at shows
  rw [broadcasts_dispatch] at sent
  have same : Uncensored env (s.emit (.dispatch k packet)) type packet.fields ↔
    Uncensored env s type packet.fields := Iff.rfl
  have whole : (process_packet deps env s k packet_str).broadcasts = s.broadcasts ++ wires := by
    rw [← sent, ← dispatch_handler deps env s k found known]
    rcases process_packet_cases deps env s k parsed with same | ⟨reply, same⟩
    · rw [same]
    · rw [same]
      exact broadcasts_send _ _ _
  rw [same] at shows
  rw [← shows, whole]
  exact ⟨fun ⟨w, eq, each⟩ => List.append_cancel_left eq ▸ each, fun each => ⟨wires, rfl, each⟩⟩

theorem broadcasts_show_ordinary :
    joinedClient.announced {} 7 phoenix .CT [bytes "Phoenix", bytes "hi"] =
        [.packet (bytes "CT") [bytes "Phoenix", bytes "hi", bytes "0"]] ∧
      ∃ wires, (process_packet plainDeps {} joinedClient 7 (bytes "CT#Phoenix#hi#%")).broadcasts =
          joinedClient.broadcasts ++ wires ∧
        List.Forall₂ Shows wires (joinedClient.announced {} 7 phoenix .CT [bytes "Phoenix", bytes "hi"]) := by
  have only : joinedClient.announced {} 7 phoenix .CT [bytes "Phoenix", bytes "hi"] =
    [.packet (bytes "CT") [bytes "Phoenix", bytes "hi", bytes "0"]] := by decide
  have plain : ∀ text ∈ [bytes "Phoenix", bytes "hi", bytes "0"], Plain text := by decide
  have parsed : AOPacket.deserialize (bytes "CT#Phoenix#hi#%") =
    some ⟨bytes "CT", [bytes "Phoenix", bytes "hi"]⟩ := by decide
  have found : joinedClient.room_.get_session 7 = some phoenix := by decide
  have known : PacketFactory.find (bytes "CT") = some .CT := by decide
  refine ⟨only, (broadcasts_show_iff plainDeps {} joinedClient 7 parsed found (by decide) known
    (by decide)).mpr ⟨?_, ?_⟩⟩
  · rw [only]
    exact List.forall_mem_singleton.mpr plain
  · exact fun _ _ censored => absurd censored (by simp)

/-- A chat message brings a music packet along, and an evidence name the description. -/
theorem texts_add_packets_and_shift_fields :
    ((process_packet plainDeps {} joinedClient 7
          (bytes "CT#Phoenix#<pound>%MC<pound>x#%")).broadcasts.map (AOClient.on_message []) =
        [([some ⟨bytes "CT", [bytes "Phoenix", []]⟩, some ⟨bytes "MC", [bytes "x", bytes "0"]⟩], [])] ∧
      ¬ ∃ wires, (process_packet plainDeps {} joinedClient 7
            (bytes "CT#Phoenix#<pound>%MC<pound>x#%")).broadcasts = joinedClient.broadcasts ++ wires ∧
          List.Forall₂ Shows wires
            [.packet (bytes "CT") [bytes "Phoenix", bytes "#%MC#x", bytes "0"]]) ∧
    ((process_packet plainDeps {} joinedClient 7
          (bytes "PE#a<and>b#c#d#%")).broadcasts.map fun wire =>
        (AOClient.on_message [] wire).1.map fun p => p.map fun p => AOPacketLE.items p.fields) =
      [[some [⟨bytes "a", bytes "b", bytes "c&d"⟩]]] := by
  have two : (process_packet plainDeps {} joinedClient 7
      (bytes "CT#Phoenix#<pound>%MC<pound>x#%")).broadcasts.map (AOClient.on_message []) =
    [([some ⟨bytes "CT", [bytes "Phoenix", []]⟩, some ⟨bytes "MC", [bytes "x", bytes "0"]⟩], [])] := by
    decide
  refine ⟨⟨two, ?_⟩, by decide⟩
  rintro ⟨wires, sent, shows⟩
  obtain ⟨wire, rest, ⟨p, one, _⟩, _, rfl⟩ := List.forall₂_cons_right_iff.mp shows
  rw [sent, List.map_append, List.map_cons, one] at two
  cases (List.cons.inj two).1

end AOServer

end AoSdl
