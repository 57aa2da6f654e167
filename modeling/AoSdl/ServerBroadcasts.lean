import AoSdl.ServerPacketBehavior

/-! The texts the server broadcasts, what adds to them, and the message that moderation lets
through. -/
namespace AoSdl

/-- The message that goes on after the verdict on it, as it is or replaced. -/
def forwarded (env : Env) (message : Bytes) : Option Bytes :=
  match env.verdict with
  | none => some message
  | some verdict =>
    match verdict.action with
    | .NONE | .LOG => some message
    | .CENSOR => some (bytes "[filtered]")
    | _ => none

theorem forwarded_some {env : Env} {message passed_on : Bytes}
    (passed : forwarded env message = some passed_on) :
    passed_on = message ∧ env.verdict.map (·.action) ≠ some .CENSOR ∨
      passed_on = bytes "[filtered]" ∧ env.verdict.map (·.action) = some .CENSOR := by
  unfold forwarded at passed
  cases given : env.verdict with
  | none =>
    simp only [given] at passed
    exact .inl ⟨(Option.some.inj passed).symm, by simp⟩
  | some verdict =>
    obtain ⟨action, reason⟩ := verdict
    simp only [given] at passed
    cases action with
    | NONE | LOG => exact .inl ⟨(Option.some.inj passed).symm, by simp⟩
    | CENSOR => exact .inr ⟨(Option.some.inj passed).symm, rfl⟩
    | _ => cases passed

namespace AOServer

def broadcasts (s : AOServer) : List Bytes :=
  s.log.filterMap fun
    | .broadcast _ wire => some wire
    | _ => none

section Broadcasts

variable (s : AOServer)

@[simp] theorem broadcasts_send (k : UInt64) (p : AOPacket) :
    (s.send k p).broadcasts = s.broadcasts := by simp [broadcasts, send, emit]

@[simp] theorem broadcasts_send_to_area (area : Bytes) (p : AOPacket) :
    (s.send_to_area area p).broadcasts = s.broadcasts ++ [p.serialize] := by
  simp [broadcasts, send_to_area, emit]

@[simp] theorem broadcasts_send_to_all (p : AOPacket) :
    (s.send_to_all p).broadcasts = s.broadcasts ++ [p.serialize] := by
  simp [broadcasts, send_to_all, emit]

@[simp] theorem broadcasts_close_client_deferred (env : Env) (k : UInt64) :
    (s.close_client_deferred env k).broadcasts = s.broadcasts := by
  unfold close_client_deferred close
  split
  · simp [broadcasts, emit]
  · rfl

@[simp] theorem broadcasts_bans (r : BanManager × BanEffects) :
    (s.bans r).broadcasts = s.broadcasts := by simp [broadcasts, bans, emit]

@[simp] theorem broadcasts_dispatch (k : UInt64) (p : AOPacket) :
    (s.emit (.dispatch k p)).broadcasts = s.broadcasts := by simp [broadcasts, emit]

@[simp] theorem broadcasts_update_session (k : UInt64) (f : ServerSession → ServerSession) :
    (s.update_session k f).broadcasts = s.broadcasts := rfl

@[simp] theorem broadcasts_update_area (area : Bytes) (f : AreaState → AreaState) :
    (s.update_area area f).broadcasts = s.broadcasts := rfl

@[simp] theorem broadcasts_update_stats (f : RoomStats → RoomStats) :
    (s.update_stats f).broadcasts = s.broadcasts := rfl

theorem broadcasts_foldl {α : Type} {f : AOServer → α → AOServer}
    (each : ∀ s a, (f s a).broadcasts = s.broadcasts) (l : List α) :
    (l.foldl f s).broadcasts = s.broadcasts := by
  induction l generalizing s with
  | nil => rfl
  | cons a l ih => rw [List.foldl_cons, ih, each]

@[simp] theorem broadcasts_chars_taken (taken : List Int) :
    (s.broadcast_chars_taken taken).broadcasts = s.broadcasts :=
  broadcasts_foldl s (fun s k => broadcasts_send s k _) _

@[simp] theorem send_area_join_info_spec (k : UInt64) (area : Bytes) :
    (s.send_area_join_info k area).room_ = s.room_ ∧
      (s.send_area_join_info k area).broadcasts = s.broadcasts := by
  unfold send_area_join_info
  split
  · exact ⟨rfl, rfl⟩
  · dsimp only
    split
    · exact ⟨rfl, by simp only [broadcasts_send]⟩
    · exact ⟨rfl, by simp only [broadcasts_send]⟩

end Broadcasts

theorem get_session_update_session {s : AOServer} {k : UInt64} {session : ServerSession}
    (found : s.room_.get_session k = some session) (f : ServerSession → ServerSession) :
    (s.update_session k f).room_.get_session k = some (f session) := by
  unfold update_session GameRoom.update_session GameRoom.get_session
  rw [SessionMap.find_modify, if_pos rfl]
  exact congrArg (Option.map f) found

def phoenix : ServerSession :=
  { client_id := 7, session_id := 7, display_name := bytes "Phoenix", area := bytes "Lobby"
    joined := true, protocol := bytes "ao2" }

/-- A server with one joined client in the only area. -/
def joinedClient : AOServer where
  room_ := { ({ areas := [bytes "Lobby"] : GameRoom }.build_area_index id) with
    sessions_ := SessionMap.empty.set 7 phoenix }
  proto_state_ := AList.singleton 7 { state := .JOINED }

end AOServer

section Moderation

open AOServer

variable (env : Env) (s : AOServer) (k : UInt64) (session : ServerSession)

/-- Moderation tells the sender, the ban list and the connection, and nobody else. -/
structure Private (s t : AOServer) : Prop where
  room : t.room_ = s.room_
  broadcasts : t.broadcasts = s.broadcasts

theorem private_send_mod_notice (verdict : ModerationVerdict) :
    Private s (send_mod_notice env s k verdict) := by
  unfold send_mod_notice
  dsimp only
  split
  iterate 3 exact ⟨rfl, broadcasts_send _ _ _⟩
  exact ⟨rfl, rfl⟩

theorem private_expel (p : AOPacket) : Private s ((s.send k p).close_client_deferred env k) := by
  refine ⟨?_, by simp⟩
  unfold close_client_deferred close
  split <;> rfl

theorem private_apply_content_verdict (verdict : ModerationVerdict) :
    Private s (apply_content_verdict env s k session verdict).1 := by
  unfold apply_content_verdict
  split
  · exact ⟨rfl, rfl⟩
  · exact ⟨rfl, rfl⟩
  · exact private_send_mod_notice _ _ _ _
  · exact private_send_mod_notice _ _ _ _
  · exact private_send_mod_notice _ _ _ _
  · exact private_expel _ _ _ _
  all_goals
    dsimp only
    split
    · exact private_expel _ _ _ _
    · have expelled := private_expel env
      exact ⟨(expelled _ _ _).room, by simp⟩

theorem moderate_spec (message : Bytes) :
    Private s (moderate env s k session message).1 ∧
      (moderate env s k session message).2 = forwarded env message := by
  unfold moderate forwarded
  cases env.verdict with
  | none => exact ⟨⟨rfl, rfl⟩, rfl⟩
  | some verdict =>
    have judged := private_apply_content_verdict env s k session verdict
    obtain ⟨action, reason⟩ := verdict
    cases action with
    | _ => exact ⟨judged, rfl⟩

end Moderation

end AoSdl
