import AoSdl.AreaSpeech
import AoSdl.CharacterOwnership
import AoSdl.Lib.Journal
import AoSdl.PacketInjection

/-! What chat, music, evidence and health packets do beside an answer to their sender: which of them
reach another client or change the room. -/
namespace AoSdl

/-- In-character and out-of-character messages, music, evidence and health. -/
def PacketType.Chat (type : PacketType) : Prop :=
  type = .MS ∨ type = .CT ∨ type = .MC ∨ type = .PE ∨ type = .EE ∨ type = .DE ∨ type = .HP

namespace GameRoom

/-- Sessions, areas and everything else of two rooms are the same. -/
structure Same (r t : GameRoom) : Prop where
  sessions : ∀ k, t.get_session k = r.get_session k
  areas : ∀ id, t.find_area id = r.find_area id
  others : { t with sessions_ := r.sessions_, area_states_ := r.area_states_ } = r

variable {r : GameRoom}

theorem Same.refl (r : GameRoom) : r.Same r := ⟨fun _ => rfl, fun _ => rfl, rfl⟩

theorem same_update_session {k : UInt64} {session : ServerSession}
    (found : r.get_session k = some session) (f : ServerSession → ServerSession) :
    r.Same (r.update_session k f) ↔ f session = session := by
  have lookup (q : UInt64) : (r.update_session k f).get_session q =
      if q = k then some (f session) else r.get_session q := by
    unfold get_session at found ⊢
    rw [update_session, SessionMap.find_modify, found, Option.map_some]
  constructor
  · intro same
    have here := same.sessions k
    rw [lookup, if_pos rfl, found] at here
    exact Option.some.inj here
  · intro same
    refine ⟨fun q => ?_, fun _ => rfl, rfl⟩
    rw [lookup, same]
    split
    · next here => rw [here, found]
    · rfl

theorem same_update_area {name : Bytes} {area : AreaState} (found : r.find_area_by_name name = some area)
    (f : AreaState → AreaState) : r.Same (r.update_area name f) ↔ f area = area := by
  unfold find_area_by_name at found
  obtain ⟨id, named, there⟩ := Option.bind_eq_some_iff.mp found
  have lookup (q : Bytes) : (r.update_area name f).find_area q =
      if q = id then some (f area) else r.find_area q := by
    unfold find_area at there ⊢
    simp only [update_area, named, there, Lib.Entries.lookup_replace, Option.map_some]
  have apart : { r.update_area name f with
      sessions_ := r.sessions_, area_states_ := r.area_states_ } = r := by
    unfold find_area at there
    simp only [update_area, named, there]
  constructor
  · intro same
    have here := same.areas id
    rw [lookup, if_pos rfl, there] at here
    exact Option.some.inj here
  · intro same
    refine ⟨fun q => ?_, fun q => ?_, apart⟩
    · unfold get_session
      rw [(AOServer.update_area_frame r name f).1]
    · rw [lookup, same]
      split
      · next here => rw [here, there]
      · rfl

theorem update_area_absent {name : Bytes} (absent : r.find_area_by_name name = none)
    (f : AreaState → AreaState) : r.update_area name f = r := by
  unfold update_area
  unfold find_area_by_name at absent
  cases named : r.area_name_to_id_.lookup name with
  | none => rfl
  | some id =>
    rw [named] at absent
    have nothing : r.area_states_.lookup id = none := absent
    simp only [nothing]

end GameRoom

namespace AOServer

/-- A text goes to a client other than `k`. -/
def reaches_other (k : UInt64) : Effect → Prop
  | .send client_id _ => client_id ≠ k
  | .broadcast clients _ => ∃ client_id ∈ clients, client_id ≠ k
  | _ => False

/-- The room is as it was, and no other client has been sent anything. -/
structure Quiet (k : UInt64) (s t : AOServer) : Prop where
  room : s.room_.Same t.room_
  sent : ∀ e ∈ Lib.Journal.news log s t, ¬ reaches_other k e

/-- Another client is connected. -/
def company (s : AOServer) (k : UInt64) : Prop := ∃ client_id ∈ s.proto_state_.keys, client_id ≠ k

/-- Another player is in the area. -/
def area_company (s : AOServer) (k : UInt64) (area : Bytes) : Prop :=
  ∃ session ∈ s.room_.sessions_in_area area,
    session.protocol = bytes "ao2" ∧ session.client_id ≠ k

end AOServer

namespace CommandEffect

/-- What a slash command writes to the room. -/
def write (r : GameRoom) : CommandEffect → GameRoom
  | .write_session client_id w => r.update_session client_id fun session =>
    { session with
      area := w.area, character_id := w.character_id, moderator := w.moderator
      acl_role := w.acl_role, moderator_name := w.moderator_name
      change_auth_started := w.change_auth_started, login_failures := w.login_failures }
  | .write_area area state => r.update_area area fun _ => state
  | .write_content c =>
    { r with
      characters := c.characters, music := c.music, areas := c.areas, char_taken := c.char_taken
      area_states_ := c.area_states_, area_name_to_id_ := c.area_name_to_id_
      area_name_to_index_ := c.area_name_to_index_ }
  | .count_moderator change =>
    { r with stats := { r.stats with moderators := r.stats.moderators + change } }
  | _ => r

/-- Whether it sends anything to a client other than `k`. -/
def reaches (k : UInt64) (s : AOServer) : CommandEffect → Prop
  | .send_system_message client_id _ => client_id ≠ k
  | .send_kick_message client_id _ => client_id ≠ k
  | .send_ban_message client_id _ => client_id ≠ k
  | .send_area_join_info client_id area =>
    client_id ≠ k ∧ (s.room_.find_area_by_name area).isSome = true
  | .broadcast_background area _ => s.area_company k area
  | .broadcast_arup _ => s.company k
  | .broadcast_chars_taken => s.company k
  | _ => False

end CommandEffect

namespace AOServer

/-- One of the effects of a command reaches another client. -/
def command_reaches (env : Env) (k : UInt64) : AOServer → List CommandEffect → Prop
  | _, [] => False
  | s, e :: rest => CommandEffect.reaches k s e ∨ command_reaches env k (run_effect env s e) rest

section Acts

variable (env : Env) (s : AOServer) (k : UInt64) (session : ServerSession) (fields : List Bytes)

/-- The message passes the checks of the handler, and somebody is there to hear it or the new name. -/
def ic_acts : Prop :=
  AOPacketMS.fits s.room_ fields = true ∧ AreaSpeech.stops env.verdict = false ∧
    (s.area_company k session.area ∨
      (field fields 15 ≠ [] ∧ session.display_name ≠ field fields 15) ∧ s.company k)

/-- A command does what its handler does. A message passes the checks, and somebody hears it or the
session gets a new name. -/
def ooc_acts : Prop :=
  if try_dispatch (AOPacketCT.message fields) then
    command_reaches env k s env.command ∨ ¬ s.room_.Same (env.command.foldl CommandEffect.write s.room_)
  else
    goes_out env s.room_ (AOPacketCT.message fields) = true ∧
      (session.display_name ≠ AOPacketCT.sender_name fields ∨ s.area_company k session.area)

/-- The bar of the area that a packet names. -/
def bar (area : AreaState) (side : Int) : Int := if side = 1 then area.hp.defense else area.hp.prosecution

def health_acts : Prop :=
  (1 ≤ AOPacketHP.side fields ∧ AOPacketHP.side fields ≤ 2 ∧ 0 ≤ AOPacketHP.value fields ∧
    AOPacketHP.value fields ≤ 10) ∧
    (s.area_company k session.area ∨ ∃ area, s.room_.find_area_by_name session.area = some area ∧
      bar area (AOPacketHP.side fields) ≠ AOPacketHP.value fields)

/-- The name is that of an area that lets the client in, which is another one or is announced to
somebody; or it is a track that somebody hears. -/
def music_acts : Prop :=
  if AOPacketMC.name fields ∈ s.room_.areas then
    AOPacketMC.admits s k (AOPacketMC.name fields) = true ∧
      (session.area ≠ AOPacketMC.name fields ∨ s.company k)
  else s.area_company k session.area

/-- The area has the evidence to change, and the change is one or is announced to somebody. -/
def evidence_acts (change : List EvidenceItem → Option (List EvidenceItem)) : Prop :=
  ∃ area evidence, s.room_.find_area_by_name session.area = some area ∧
    change area.evidence = some evidence ∧ (evidence ≠ area.evidence ∨ s.area_company k session.area)

/-- What the handler of a packet of a joined client takes up. -/
def acts (type : PacketType) : Prop :=
  match type with
  | .MS => ic_acts env s k session fields
  | .CT => ooc_acts env s k session fields
  | .HP => health_acts s k session fields
  | .MC => music_acts s k session fields
  | .PE => ∃ area, s.room_.find_area_by_name session.area = some area
  | .EE => evidence_acts s k session fun evidence =>
    if evidence_index (AOPacketEE.ev_id fields) evidence then
      some (evidence.set (AOPacketEE.ev_id fields).toNat (AOPacketEE.item fields)) else none
  | .DE => ∃ area, s.room_.find_area_by_name session.area = some area ∧
    evidence_index (AOPacketDE.ev_id fields) area.evidence = true
  | _ => False

end Acts

/-- The log goes on, with something for a client other than `k` exactly if `h`. -/
abbrev Tells (k : UInt64) (s t : AOServer) (h : Prop) : Prop :=
  Lib.Journal.Adds log (reaches_other k) s t h

theorem Tells.quiet_iff {k : UInt64} {s t : AOServer} {h : Prop} (tells : Tells k s t h) :
    Quiet k s t ↔ ¬ h ∧ s.room_.Same t.room_ := by
  have heard := tells.news_iff
  constructor
  · intro quiet
    refine ⟨fun reached => ?_, quiet.room⟩
    obtain ⟨e, inside, other⟩ := heard.mpr reached
    exact quiet.sent e inside other
  · rintro ⟨unheard, room⟩
    exact ⟨room, fun e inside other => unheard (heard.mp ⟨e, inside, other⟩)⟩

/-- The step is quiet exactly unless `acts`, and the log goes on. -/
def Acting (k : UInt64) (s t : AOServer) (acts : Prop) : Prop :=
  ∃ h, Tells k s t h ∧ (¬ h ∧ s.room_.Same t.room_ ↔ ¬ acts)

section Acting

variable {k : UInt64} {s t u : AOServer} {acts : Prop}

theorem Acting.quiet_iff (acting : Acting k s t acts) : Quiet k s t ↔ ¬ acts := by
  obtain ⟨h, tells, exactly⟩ := acting
  exact tells.quiet_iff.trans exactly

theorem Acting.idle (tells : Tells k s t False) (room : t.room_ = s.room_) (never : ¬ acts) :
    Acting k s t acts := by
  refine ⟨False, tells, iff_of_true ⟨id, ?_⟩ never⟩
  rw [room]
  exact .refl _

/-- A step that leaves the room acts if it is heard. -/
theorem Acting.told (tells : Tells k s t acts) (room : t.room_ = s.room_) : Acting k s t acts := by
  refine ⟨acts, tells, ?_⟩
  rw [room]
  exact and_iff_left (.refl _)

theorem Acting.after (silent : Tells k s t False) (room : t.room_ = s.room_)
    (acting : Acting k t u acts) : Acting k s u acts := by
  obtain ⟨h, tells, exactly⟩ := acting
  exact ⟨h, silent.after tells, room ▸ exactly⟩

theorem Acting.then_silent (acting : Acting k s t acts) (silent : Tells k t u False)
    (room : u.room_ = t.room_) : Acting k s u acts := by
  obtain ⟨h, tells, exactly⟩ := acting
  exact ⟨h, (tells.trans silent).congr (by simp), room ▸ exactly⟩

theorem Acting.congr {acts' : Prop} (acting : Acting k s t acts) (same : acts ↔ acts') :
    Acting k s t acts' := by rwa [← propext same]

end Acting

section Primitives

open Lib.Journal

variable {k : UInt64} (s : AOServer)

theorem tells_emit (e : Effect) : Tells k s (s.emit e) (reaches_other k e) := Adds.entry rfl

theorem tells_send (client_id : UInt64) (p : AOPacket) :
    Tells k s (s.send client_id p) (client_id ≠ k) := tells_emit s _

theorem tells_self (p : AOPacket) : Tells k s (s.send k p) False :=
  (tells_send s k p).congr (iff_of_false (fun other => other rfl) id)

theorem tells_all (p : AOPacket) : Tells k s (s.send_to_all p) (s.company k) := tells_emit s _

theorem tells_area (area : Bytes) (p : AOPacket) :
    Tells k s (s.send_to_area area p) (s.area_company k area) := by
  refine (tells_emit s _).congr ?_
  simp only [reaches_other, area_company, List.mem_map, List.mem_filter, decide_eq_true_eq]
  constructor
  · rintro ⟨_, ⟨session, ⟨inside, protocol⟩, rfl⟩, other⟩
    exact ⟨session, inside, protocol, other⟩
  · rintro ⟨session, inside, protocol, other⟩
    exact ⟨_, ⟨session, ⟨inside, protocol⟩, rfl⟩, other⟩

theorem tells_close (env : Env) (client_id : UInt64) :
    Tells k s (s.close_client_deferred env client_id) False := by
  unfold close_client_deferred close
  split
  · exact tells_emit s _
  · exact Adds.same rfl

theorem tells_bans (r : BanManager × BanEffects) : Tells k s (s.bans r) False :=
  tells_emit { s with ban_manager := some r.1 } _

theorem tells_join_info (client_id : UInt64) (area : Bytes) :
    Tells k s (s.send_area_join_info client_id area)
      (client_id ≠ k ∧ (s.room_.find_area_by_name area).isSome = true) := by
  unfold send_area_join_info
  cases s.room_.find_area_by_name area with
  | none => exact (Adds.same rfl).congr (by simp)
  | some area =>
    have three (p q r : AOPacket) : Tells k s (((s.send client_id p).send client_id q).send client_id r)
        (client_id ≠ k) :=
      (((tells_send s client_id p).trans (tells_send _ client_id q)).trans (tells_send _ client_id r)).congr
        (by simp)
    dsimp only
    split
    · exact (three _ _ _).congr (by simp)
    · exact ((three _ _ _).trans (tells_send _ client_id _)).congr (by simp)

theorem company_eq {t : AOServer} (same : t.proto_state_ = s.proto_state_) :
    t.company k = s.company k := by rw [company, company, same]

theorem area_company_eq {t : AOServer} (same : t.room_.sessions_ = s.room_.sessions_) (area : Bytes) :
    t.area_company k area = s.area_company k area := by
  simp only [area_company, GameRoom.sessions_in_area, GameRoom.sessions, same]

end Primitives

section Handlers

open Lib.Journal

variable {env : Env} {s : AOServer} {k : UInt64} {session : ServerSession} {fields : List Bytes}

theorem tells_verdict (verdict : ModerationVerdict) :
    Tells k s (apply_content_verdict env s k session verdict).1 False := by
  have notice (p : AOPacket) : Tells k s (s.send k p) False := tells_self s p
  have expelled (t : AOServer) (p : AOPacket) :
      Tells k t ((t.send k p).close_client_deferred env k) False :=
    (tells_self t p).after (tells_close _ env k)
  unfold apply_content_verdict
  cases action : verdict.action with
  | NONE | LOG => exact Adds.same rfl
  | CENSOR | DROP | MUTE =>
    simp only [send_mod_notice, action]
    exact notice _
  | KICK => exact expelled s _
  | BAN | PERMA_BAN =>
    dsimp only
    cases s.ban_manager with
    | none => exact expelled s _
    | some bm => exact (tells_bans s _).after (expelled _ _)

theorem tells_moderate (message : Bytes) : Tells k s (moderate env s k session message).1 False := by
  unfold moderate
  cases env.verdict with
  | none => exact Adds.same rfl
  | some verdict =>
    have told : Tells k s (apply_content_verdict env s k session verdict).1 False := tells_verdict verdict
    dsimp only
    generalize apply_content_verdict env s k session verdict = result at told ⊢
    obtain ⟨t, outcome⟩ := result
    cases outcome <;> exact told

theorem proto_moderate (message : Bytes) :
    (moderate env s k session message).1.proto_state_ = s.proto_state_ :=
  (still_moderate env k session s message).proto

theorem run_effect_write (env : Env) (s : AOServer) (e : CommandEffect) :
    (run_effect env s e).room_ = e.write s.room_ := by
  cases e with
  | send_area_join_info c area => exact (send_area_join_info_spec s c area).1
  | broadcast_chars_taken => exact room_broadcast_chars_taken s _
  | add_ban | remove_ban | update_ban => exact managed_bans_room s _
  | _ => rfl

theorem tells_managed_bans (s : AOServer) (f : BanManager → BanManager × BanEffects) :
    Tells k s (match s.ban_manager with
      | none => s
      | some bm => s.bans (f bm)) False := by
  split
  · exact Adds.same rfl
  · exact tells_bans s _

theorem tells_run_effect (env : Env) (s : AOServer) (e : CommandEffect) :
    Tells k s (run_effect env s e) (e.reaches k s) := by
  cases e with
  | send_system_message client_id message => exact tells_send s client_id _
  | send_kick_message client_id reason => exact tells_send s client_id _
  | send_ban_message client_id reason => exact tells_send s client_id _
  | disconnect_client client_id => exact Adds.same rfl
  | send_area_join_info client_id area => exact tells_join_info s client_id area
  | broadcast_background area bg => exact tells_area s area _
  | broadcast_arup type => exact tells_all s _
  | broadcast_chars_taken => exact Adds.foldl (fun t client_id => tells_send t client_id _) _ s
  | add_ban | remove_ban | update_ban => exact tells_managed_bans s _
  | write_session | write_area | write_content | count_moderator => exact Adds.same rfl

theorem acting_command (env : Env) (throws : Bool) (s : AOServer) (effects : List CommandEffect) :
    Acting k s (run_effects env throws s effects)
      (command_reaches env k s effects ∨ ¬ s.room_.Same (effects.foldl CommandEffect.write s.room_)) := by
  have tells : Tells k s (effects.foldl (run_effect env) s) (command_reaches env k s effects) := by
    induction effects generalizing s with
    | nil => exact Adds.same rfl
    | cons e effects ih => exact (tells_run_effect env s e).trans (ih _)
  have room : (effects.foldl (run_effect env) s).room_ = effects.foldl CommandEffect.write s.room_ := by
    clear tells
    induction effects generalizing s with
    | nil => rfl
    | cons e effects ih => rw [List.foldl_cons, ih, run_effect_write, List.foldl_cons]
  have acting : Acting k s (effects.foldl (run_effect env) s)
      (command_reaches env k s effects ∨ ¬ s.room_.Same (effects.foldl CommandEffect.write s.room_)) := by
    refine ⟨_, tells, ?_⟩
    rw [room, not_or, not_not]
  refine acting.then_silent ?_ (room_run_effects env throws s effects)
  obtain ⟨closes, done⟩ := run_effects_closes env throws s effects
  rw [done]
  exact List.foldlRecOn (motive := fun t => Tells k (effects.foldl (run_effect env) s) t False) closes _
    (Adds.same rfl) fun t silent client_id _ => silent.after (tells_close t env client_id)

theorem acting_area (name : Bytes) (f : AreaState → AreaState) (p : AOPacket) :
    Acting k s ((s.update_area name f).send_to_area name p) (s.area_company k name ∨
      ∃ area, s.room_.find_area_by_name name = some area ∧ f area ≠ area) := by
  have told : Tells k s ((s.update_area name f).send_to_area name p) (s.area_company k name) := by
    refine (Adds.same (t := s.update_area name f) rfl).after ((tells_area _ _ _).congr ?_)
    exact iff_of_eq (area_company_eq s (update_area_frame s.room_ name f).1 name)
  have room : s.room_.Same ((s.update_area name f).send_to_area name p).room_ ↔
      ¬ ∃ area, s.room_.find_area_by_name name = some area ∧ f area ≠ area := by
    change s.room_.Same (s.room_.update_area name f) ↔ _
    cases there : s.room_.find_area_by_name name with
    | none =>
      rw [GameRoom.update_area_absent there]
      exact iff_of_true (.refl _) (by simp)
    | some area =>
      rw [GameRoom.same_update_area there]
      simp
  refine ⟨_, told, ?_⟩
  rw [room, not_or]

theorem tells_there {t : AOServer} (room : t.room_ = s.room_) (area : Bytes) (p : AOPacket) :
    Tells k t (t.send_to_area area p) (s.area_company k area) ∧ (t.send_to_area area p).room_ = s.room_ := by
  refine ⟨(tells_area t area p).congr (iff_of_eq ?_), room⟩
  exact area_company_eq s (congrArg GameRoom.sessions_ room) area

section Speech

variable (found : s.room_.get_session k = some session) (joined : session.joined = true)
include found joined

theorem tells_ic {t : AOServer} (room : t.room_ = s.room_) (action : ICAction)
    (sender : action.sender_id = k) :
    Tells k t ((t.room_.handle_ic action).foldl deliver t) (s.area_company k session.area) ∧
      ((t.room_.handle_ic action).foldl deliver t).room_ = s.room_ := by
  have events : t.room_.handle_ic action = [.ic session.area action] := by
    rw [GameRoom.handle_ic, room, sender, found]
    exact if_pos joined
  rw [events]
  exact tells_there room session.area _

theorem tells_ooc {t : AOServer} (room : t.room_ = s.room_) (name message : Bytes) :
    Tells k t ((t.room_.handle_ooc ⟨k, name, message⟩).foldl deliver t)
        (s.area_company k session.area) ∧
      ((t.room_.handle_ooc ⟨k, name, message⟩).foldl deliver t).room_ = s.room_ := by
  have events : t.room_.handle_ooc ⟨k, name, message⟩ = [.ooc session.area ⟨k, name, message⟩] := by
    rw [GameRoom.handle_ooc, room, found]
    exact if_pos joined
  rw [events]
  exact tells_there room session.area _

theorem acting_MS : Acting k s (AOPacketMS.handle_server env s k session fields)
    (ic_acts env s k session fields) := by
  have tells : Tells k s (AOPacketMS.handle_server env s k session fields)
      (ic_acts env s k session fields) ∧
      (AOPacketMS.handle_server env s k session fields).room_ = s.room_ := by
    unfold AOPacketMS.handle_server ic_acts
    rw [if_neg (by simp [joined])]
    dsimp only
    have text : (AOPacketMS.action k fields).message = field fields 4 := rfl
    have name : (AOPacketMS.action k fields).showname = field fields 15 := rfl
    cases fits : AOPacketMS.fits s.room_ fields with
    | false =>
      have long : 0 < s.room_.max_ic_message_length ∧
          s.room_.max_ic_message_length < intOfSize (field fields 4).length := by
        simpa [AOPacketMS.fits] using fits
      rw [text, if_pos long]
      exact ⟨(Adds.same rfl).congr (by simp), rfl⟩
    | true =>
      have short : ¬(0 < s.room_.max_ic_message_length ∧
          s.room_.max_ic_message_length < intOfSize (field fields 4).length) := by
        rintro ⟨limited, long⟩
        simp [AOPacketMS.fits, limited, long] at fits
      rw [text, if_neg short]
      obtain ⟨room, message⟩ := AreaSpeech.moderate_spec env s k session (field fields 4)
      have told : Tells k s (moderate env s k session (field fields 4)).1 False := tells_moderate _
      have proto : (moderate env s k session (field fields 4)).1.proto_state_ = s.proto_state_ :=
        proto_moderate _
      generalize moderate env s k session (field fields 4) = result at room message told proto ⊢
      obtain ⟨t, _⟩ := result
      obtain rfl : _ = _ := message
      cases stopped : AreaSpeech.stops env.verdict with
      | true => exact ⟨told.congr (by simp), room⟩
      | false =>
        simp only [Bool.false_eq_true, if_false, name]
        have others : t.company k = s.company k := company_eq s proto
        by_cases renamed : field fields 15 ≠ [] ∧ session.display_name ≠ field fields 15
        · have announced : (!(field fields 15).isEmpty &&
              decide (session.display_name ≠ field fields 15)) = true := by simpa using renamed
          rw [if_pos announced]
          have spoken := tells_ic found joined
            (t := t.broadcast_player_update session.session_id 2 (field fields 15)) room
            { AOPacketMS.action k fields with
              message := AreaSpeech.heard env.verdict (field fields 4) } rfl
          refine ⟨((told.after (tells_all t _)).trans spoken.1).congr ?_, spoken.2⟩
          rw [others]
          simp [renamed, or_comm]
        · have silent : ¬ (!(field fields 15).isEmpty &&
              decide (session.display_name ≠ field fields 15)) = true := by simpa using renamed
          rw [if_neg silent]
          have spoken := tells_ic found joined room { AOPacketMS.action k fields with
            message := AreaSpeech.heard env.verdict (field fields 4) } rfl
          exact ⟨(told.after spoken.1).congr (by simp [renamed]), spoken.2⟩
  exact .told tells.1 tells.2

theorem acting_chat (word : try_dispatch (AOPacketCT.message fields) = false) :
    Acting k s (AOPacketCT.handle_server env s k session fields).1
      (goes_out env s.room_ (AOPacketCT.message fields) = true ∧
        (session.display_name ≠ AOPacketCT.sender_name fields ∨ s.area_company k session.area)) := by
  have told : Tells k s (moderate env s k session (AOPacketCT.message fields)).1 False :=
    tells_moderate _
  obtain ⟨judged, outcome⟩ := moderate_spec env s k session (AOPacketCT.message fields)
  unfold AOPacketCT.handle_server
  simp only [joined, word, Bool.not_true, Bool.false_eq_true, if_false]
  cases spam : env.is_spam with
  | true => exact .idle (Adds.same rfl) rfl (by simp [goes_out, spam])
  | false =>
    simp only [Bool.false_eq_true, if_false]
    by_cases long : 0 < s.room_.max_ooc_message_length ∧
        s.room_.max_ooc_message_length < intOfSize (AOPacketCT.message fields).length
    · rw [if_pos long]
      exact .idle (Adds.same rfl) rfl (by simp [goes_out, long])
    · rw [if_neg long]
      generalize moderate env s k session (AOPacketCT.message fields) = result at told judged outcome ⊢
      obtain ⟨t, message⟩ := result
      obtain rfl : message = _ := outcome
      cases passed : forwarded env (AOPacketCT.message fields) with
      | none => exact .idle told judged.room (by simp [goes_out, passed])
      | some message =>
        have out : goes_out env s.room_ (AOPacketCT.message fields) = true := by
          simp [goes_out, word, spam, long, passed]
        rw [out]
        by_cases same : session.display_name = AOPacketCT.sender_name fields
        · have spoken := tells_ooc found joined judged.room (AOPacketCT.sender_name fields) message
          simp only [same, ne_eq, not_true_eq_false, if_false, false_or, true_and]
          exact .told (told.after spoken.1) spoken.2
        · simp only [ne_eq, same, not_false_eq_true, if_true, true_or, and_true]
          have named : t.room_.get_session k = some session := by rw [judged.room, found]
          have renamed := get_session_update_session named fun session =>
            { session with display_name := AOPacketCT.sender_name fields }
          have spoken := tells_ooc (s := (t.update_session k fun session =>
            { session with display_name := AOPacketCT.sender_name fields }).broadcast_player_update
              session.session_id 0 (AOPacketCT.sender_name fields)) renamed joined rfl
            (AOPacketCT.sender_name fields) message
          refine ⟨_, told.after ((Adds.same rfl).after ((tells_all _ _).trans spoken.1)), ?_⟩
          refine iff_of_false ?_ fun idle => idle trivial
          rintro ⟨_, room⟩
          rw [spoken.2] at room
          have here := room.sessions k
          rw [found] at here
          exact same (congrArg ServerSession.display_name (Option.some.inj (here.symm.trans renamed)))

theorem acting_CT : Acting k s (AOPacketCT.handle_server env s k session fields).1
    (ooc_acts env s k session fields) := by
  unfold ooc_acts
  cases word : try_dispatch (AOPacketCT.message fields) with
  | false =>
    rw [if_neg (by decide)]
    exact acting_chat found joined word
  | true =>
    rw [if_pos rfl]
    unfold AOPacketCT.handle_server
    simp only [joined, word, Bool.not_true, Bool.false_eq_true, if_false, if_true]
    exact acting_command env env.command_throws s env.command

omit found in
theorem acting_HP : Acting k s (AOPacketHP.handle_server s session fields)
    (health_acts s k session fields) := by
  unfold AOPacketHP.handle_server health_acts
  dsimp only
  rw [if_neg (by simp [joined])]
  by_cases out : AOPacketHP.side fields < 1 ∨ 2 < AOPacketHP.side fields ∨ AOPacketHP.value fields < 0 ∨
      10 < AOPacketHP.value fields
  · rw [if_pos out]
    refine .idle (Adds.same rfl) rfl ?_
    rintro ⟨⟨_, _, _, _⟩, _⟩
    omega
  · rw [if_neg out]
    have range : 1 ≤ AOPacketHP.side fields ∧ AOPacketHP.side fields ≤ 2 ∧
        0 ≤ AOPacketHP.value fields ∧ AOPacketHP.value fields ≤ 10 := by omega
    have bars (area : AreaState) : ({ area with
          hp := if AOPacketHP.side fields = 1 then { area.hp with defense := AOPacketHP.value fields }
            else { area.hp with prosecution := AOPacketHP.value fields } } : AreaState) ≠ area ↔
        bar area (AOPacketHP.side fields) ≠ AOPacketHP.value fields := by
      refine not_congr ?_
      unfold bar
      by_cases defense : AOPacketHP.side fields = 1
      · simp only [if_pos defense]
        constructor
        · exact fun same => (congrArg (fun area : AreaState => area.hp.defense) same).symm
        · intro same
          rw [← same]
      · simp only [if_neg defense]
        constructor
        · exact fun same => (congrArg (fun area : AreaState => area.hp.prosecution) same).symm
        · intro same
          rw [← same]
    refine (acting_area session.area _ _).congr ?_
    simp only [bars]
    exact (and_iff_right range).symm

omit found in
theorem acting_change_evidence (change : List EvidenceItem → Option (List EvidenceItem)) :
    Acting k s (change_evidence s session change) (evidence_acts s k session change) := by
  unfold change_evidence evidence_acts
  rw [if_neg (by simp [joined])]
  cases there : s.room_.find_area_by_name session.area with
  | none =>
    exact .idle (Adds.same rfl) rfl (by simp)
  | some area =>
    cases changed : change area.evidence with
    | none =>
      simp only [changed]
      refine .idle (Adds.same rfl) rfl ?_
      rintro ⟨area', evidence, same, made, _⟩
      obtain rfl := Option.some.inj same
      rw [changed] at made
      cases made
    | some evidence =>
      simp only [changed]
      have changes : ({ area with evidence } : AreaState) ≠ area ↔ evidence ≠ area.evidence := by
        refine not_congr ⟨fun same => congrArg AreaState.evidence same, ?_⟩
        rintro rfl
        rfl
      refine (acting_area session.area _ _).congr ?_
      simp only [there, Option.some.injEq, exists_eq_left', changes]
      rw [or_comm]
      refine ⟨fun acts => ⟨area, evidence, rfl, changed, acts⟩, ?_⟩
      rintro ⟨_, _, rfl, made, acts⟩
      obtain rfl := Option.some.inj (changed.symm.trans made)
      exact acts

omit joined in
theorem acting_switch_area (name : Bytes) : Acting k s (AOPacketMC.switch_area s k session name)
    (session.area ≠ name ∨ s.company k) := by
  have moved : (s.update_session k fun session => { session with area := name }).proto_state_ =
      s.proto_state_ := rfl
  have informed := tells_join_info (k := k)
    (s.update_session k fun session => { session with area := name }) k name
  have room := (send_area_join_info_spec
    (s.update_session k fun session => { session with area := name }) k name).1
  have proto := (still_send_area_join_info
    (s.update_session k fun session => { session with area := name }) k name).proto
  have told : Tells k s ((s.update_session k fun session =>
      { session with area := name }).send_area_join_info k name) False :=
    (Adds.same rfl).after (informed.congr (by simp))
  have same : s.room_.Same (s.room_.update_session k fun session => { session with area := name }) ↔
      session.area = name := by
    rw [GameRoom.same_update_session found]
    constructor
    · exact fun same => (congrArg ServerSession.area same).symm
    · rintro rfl
      rfl
  unfold AOPacketMC.switch_area
  dsimp only
  generalize (s.update_session k fun session => { session with area := name }).send_area_join_info k name =
    t at told room proto ⊢
  have others : t.company k = s.company k := company_eq s (proto.trans moved)
  have verdict {u : AOServer} (tells : Tells k s u (s.company k)) (after : u.room_ = t.room_) :
      Acting k s u (session.area ≠ name ∨ s.company k) := by
    refine ⟨_, tells, ?_⟩
    rw [after, room, not_or, not_not, and_comm]
    exact and_congr_left fun _ => same
  split
  · have first : Tells k s (t.broadcast_player_update session.session_id 3
        (to_string (t.room_.area_index name))) (s.company k) := others ▸ told.after (tells_all t _)
    refine verdict ((first.trans (tells_all _ _)).congr ?_) rfl
    exact (iff_of_eq (congrArg (s.company k ∨ ·) others)).trans (by simp)
  · exact verdict (others ▸ told.after (tells_all t _)) rfl

theorem acting_MC : Acting k s (AOPacketMC.handle_server s k session fields)
    (music_acts s k session fields) := by
  unfold AOPacketMC.handle_server music_acts
  dsimp only
  rw [if_neg (by simp [joined])]
  split
  · cases admitted : AOPacketMC.admits s k (AOPacketMC.name fields) with
    | true =>
      simp only [if_true, true_and]
      exact acting_switch_area found _
    | false =>
      exact .idle (tells_self s _) rfl (by simp)
  · have events : s.room_.handle_music ⟨k, AOPacketMC.name fields, AOPacketMC.showname fields,
        AOPacketMC.channel fields, AOPacketMC.looping fields = 1⟩ = [.music session.area
          ⟨k, AOPacketMC.name fields, AOPacketMC.showname fields, AOPacketMC.channel fields,
            AOPacketMC.looping fields = 1⟩] := by
      rw [GameRoom.handle_music, found]
      exact if_pos joined
    rw [events]
    exact .told (tells_area s session.area _) rfl

theorem acting_handler (deps : Deps) {type : PacketType} (chat : type.Chat) :
    Acting k s (handle_server deps env s k session type fields).1 (acts env s k session fields type) := by
  rcases chat with rfl | rfl | rfl | rfl | rfl | rfl | rfl
  · exact acting_MS found joined
  · exact acting_CT found joined
  · exact acting_MC found joined
  · refine (acting_change_evidence joined _).congr ?_
    simp [evidence_acts, acts]
  · exact acting_change_evidence joined _
  · refine (acting_change_evidence joined _).congr ?_
    constructor
    · rintro ⟨area, evidence, there, changed, _⟩
      refine ⟨area, there, ?_⟩
      by_contra outside
      dsimp only at changed
      rw [if_neg outside] at changed
      cases changed
    · rintro ⟨area, there, inside⟩
      refine ⟨area, area.evidence.eraseIdx (AOPacketDE.ev_id fields).toNat, there, if_pos inside,
        .inl fun same => ?_⟩
      have low := intOfSize_le area.evidence.length
      simp only [evidence_index, Bool.and_eq_true, decide_eq_true_eq] at inside
      have shorter := congrArg List.length same
      rw [List.length_eraseIdx, if_pos (by omega)] at shorter
      omega
  · exact acting_HP joined

end Speech

end Handlers

section Packets

open Lib.Journal

variable {env : Env} {s : AOServer} {k : UInt64} {packet_str : Bytes} {packet : AOPacket}
variable {type : PacketType}

/-- The packet is from a joined client, and the handler of its kind takes it up. -/
def packet_acts (env : Env) (s : AOServer) (k : UInt64) (packet : AOPacket) (type : PacketType) : Prop :=
  ∃ session, s.room_.get_session k = some session ∧ session.joined = true ∧
    acts env s k session packet.fields type

theorem command_reaches_emit (env : Env) (k : UInt64) (effects : List CommandEffect) {s t : AOServer}
    (room : t.room_ = s.room_) (proto : t.proto_state_ = s.proto_state_) :
    command_reaches env k t effects ↔ command_reaches env k s effects := by
  induction effects generalizing s t with
  | nil => exact Iff.rfl
  | cons e effects ih =>
    have here : e.reaches k t ↔ e.reaches k s := by
      cases e with
      | send_area_join_info client_id area => simp only [CommandEffect.reaches, room]
      | broadcast_background area bg =>
        exact iff_of_eq (area_company_eq s (congrArg GameRoom.sessions_ room) area)
      | broadcast_arup | broadcast_chars_taken => exact iff_of_eq (company_eq s proto)
      | _ => exact Iff.rfl
    refine or_congr here (ih ?_ ?_)
    · rw [run_effect_write, run_effect_write, room]
    · rw [(steady_run_effect env t e).proto, (steady_run_effect env s e).proto, proto]

theorem acts_emit (session : ServerSession) (fields : List Bytes) (e : Effect) :
    acts env (s.emit e) k session fields type ↔ acts env s k session fields type := by
  cases type with
  | CT =>
    have commands := command_reaches_emit env k env.command (s := s) (t := s.emit e) rfl rfl
    change ooc_acts env (s.emit e) k session fields ↔ ooc_acts env s k session fields
    unfold ooc_acts
    rw [commands]
    rfl
  | _ => exact Iff.rfl

theorem unjoined_handler (deps : Deps) {session : ServerSession} (fields : List Bytes)
    (outside : session.joined = false) (chat : type.Chat) :
    handle_server deps env s k session type fields = (s, false) := by
  rcases chat with rfl | rfl | rfl | rfl | rfl | rfl | rfl
  · simp [handle_server, AOPacketMS.handle_server, outside]
  · simp [handle_server, AOPacketCT.handle_server, outside]
  · simp [handle_server, AOPacketMC.handle_server, outside]
  · simp [handle_server, AOPacketPE.handle_server, change_evidence, outside]
  · simp [handle_server, AOPacketEE.handle_server, change_evidence, outside]
  · simp [handle_server, AOPacketDE.handle_server, change_evidence, outside]
  · simp [handle_server, AOPacketHP.handle_server, outside]

theorem acting_dispatch (deps : Deps) (named : PacketFactory.find packet.header = some type)
    (chat : type.Chat) : Acting k s (dispatch deps env s k packet).1 (packet_acts env s k packet type) := by
  have entered : Tells k s (s.emit (.dispatch k packet)) False := tells_emit s _
  have handled := dispatch_cases deps env s k packet
  generalize dispatch deps env s k packet = result at handled ⊢
  cases handled with
  | stranger absent =>
    refine .idle entered rfl ?_
    rintro ⟨session, found, _⟩
    rw [absent] at found
    cases found
  | unknown found unnamed reply =>
    rw [named] at unnamed
    cases unnamed
  | @handler session kind found named' =>
    obtain rfl : type = kind := Option.some.inj (named.symm.trans named')
    cases joined : session.joined with
    | false =>
      rw [unjoined_handler deps packet.fields joined chat]
      refine .idle entered rfl ?_
      rintro ⟨other, there, inside, _⟩
      obtain rfl := Option.some.inj (found.symm.trans there)
      rw [joined] at inside
      cases inside
    | true =>
      have here : (s.emit (.dispatch k packet)).room_.get_session k = some session := found
      refine ((acting_handler here joined deps chat).after entered rfl).congr ?_
      rw [acts_emit]
      constructor
      · exact fun acts => ⟨session, found, joined, acts⟩
      · rintro ⟨other, there, _, acts⟩
        obtain rfl := Option.some.inj (found.symm.trans there)
        exact acts

/-- A packet is silent exactly if its handler does not take it up. -/
theorem quiet_packet (deps : Deps) (parsed : AOPacket.deserialize packet_str = some packet)
    (named : PacketFactory.find packet.header = some type) (chat : type.Chat) :
    Quiet k s (process_packet deps env s k packet_str) ↔ ¬ packet_acts env s k packet type := by
  have acting : Acting k s (dispatch deps env s k packet).1 (packet_acts env s k packet type) :=
    acting_dispatch deps named chat
  rcases process_packet_cases deps env s k parsed with same | ⟨reply, same⟩
  · rw [same]
    exact acting.quiet_iff
  · rw [same]
    exact (acting.then_silent (tells_self _ reply) rfl).quiet_iff

end Packets

end AOServer

end AoSdl
