import AoSdl.PacketInjection

/-! Lists of evidence between the server and its clients: the packet that a change of the list sends
to the area, the one that a client gets on entering it, and what the client reads of either. -/
namespace AoSdl

namespace EvidenceLists
open AOServer

/-- What a client gets on entering an area, in front of the evidence. -/
def area_texts (client_id : UInt64) (area : AreaState) : List Effect :=
  [⟨bytes "BN", [if area.background.name.isEmpty then bytes "gs4" else area.background.name,
      if area.background.position.isEmpty then bytes "def" else area.background.position]⟩,
    ⟨bytes "HP", [bytes "1", to_string area.hp.defense]⟩,
    ⟨bytes "HP", [bytes "2", to_string area.hp.prosecution]⟩].map fun packet : AOPacket =>
      .send client_id packet.serialize

/-- The server's packets of the list are read by a client as exactly the list. On entering an area
without evidence there is no packet. -/
structure RoundTrips (items : List EvidenceItem) : Prop where
  joined : ∀ (s : AOServer) client_id area_name area, s.room_.find_area_by_name area_name = some area →
    area.evidence = items → ∃ wire, Shows wire (.evidence items) ∧
      (s.send_area_join_info client_id area_name).log = s.log ++ area_texts client_id area ++
        if items.isEmpty then [] else [.send client_id wire]
  changed : ∀ (s : AOServer) (session : ServerSession) area change, session.joined = true →
    s.room_.find_area_by_name session.area = some area → change area.evidence = some items →
      ∃ wire clients, Shows wire (.evidence items) ∧
        (change_evidence s session change).log = s.log ++ [.broadcast clients wire]

section Proof

variable (s : AOServer) (client_id : UInt64) (items : List EvidenceItem)

/-- Both packets have the same text. -/
def wire : Bytes := (View.evidence items).wire

theorem serialize_build (area : AreaState) : (build_evidence_packet area).serialize = wire area.evidence := rfl

theorem join_log {area_name : Bytes} {area : AreaState} (found : s.room_.find_area_by_name area_name = some area) :
    (s.send_area_join_info client_id area_name).log = s.log ++ area_texts client_id area ++
      if area.evidence.isEmpty then [] else [.send client_id (wire area.evidence)] := by
  unfold send_area_join_info
  rw [found]
  dsimp only
  split
  · simp [send, emit, area_texts]
  · simp [send, emit, area_texts, serialize_build]

theorem change_log {session : ServerSession} {area : AreaState}
    {change : List EvidenceItem → Option (List EvidenceItem)} (joined : session.joined = true)
    (found : s.room_.find_area_by_name session.area = some area) (changed : change area.evidence = some items) :
    ∃ clients, (change_evidence s session change).log = s.log ++ [.broadcast clients (wire items)] := by
  unfold change_evidence
  simp only [joined, found, changed]
  exact ⟨_, rfl⟩

/-- A room with one area that has no name and no evidence. -/
def bare : AOServer :=
  { room_ := { area_states_ := AList.singleton [] {}, area_name_to_id_ := AList.singleton [] [] } }

/-- The list that a player makes in it is shown. -/
theorem shows_of_round_trips (round : RoundTrips items) : Shows (wire items) (.evidence items) := by
  have found : bare.room_.find_area_by_name [] = some {} := rfl
  obtain ⟨wire', clients, shown, log⟩ := round.changed bare { joined := true } {} (fun _ => some items) rfl found rfl
  obtain ⟨clients', log'⟩ : ∃ clients, (change_evidence bare { joined := true } fun _ => some items).log =
      bare.log ++ [.broadcast clients (wire items)] := change_log bare items rfl found rfl
  have same := List.append_cancel_left (log.symm.trans log')
  have texts : wire' = wire items := by
    injection same with effect
    injection effect
  exact texts ▸ shown

theorem round_trips_of_shows (shown : Shows (wire items) (.evidence items)) : RoundTrips items where
  joined := by
    rintro s client_id area_name area found rfl
    exact ⟨wire area.evidence, shown, join_log s client_id found⟩
  changed := by
    intro s session area change joined found changed
    obtain ⟨clients, log⟩ := change_log s items joined found changed
    exact ⟨wire items, clients, shown, log⟩

theorem known_list : Known (bytes "LE") := ⟨by decide, by decide⟩

/-- A packet's list is read as it is exactly when no text of it has a special place or token. -/
theorem shows_list_iff : Shows (wire items) (.evidence items) ↔ ∀ ev ∈ items, PlainItem ev :=
  shows_plain known_list

theorem round_trips_iff : RoundTrips items ↔ ∀ ev ∈ items, PlainItem ev :=
  ⟨fun round => (shows_list_iff items).mp (shows_of_round_trips items round),
    fun plain => round_trips_of_shows items ((shows_list_iff items).mpr plain)⟩

/-- The client cuts the name that a player types with an ampersand. -/
theorem ampersand_cut : ¬ RoundTrips [⟨bytes "Salt & pepper", bytes "Two shakers", bytes "salt.png"⟩] := by
  intro round
  have plain := (shows_list_iff _).mp (shows_of_round_trips _ round)
  exact absurd (plain _ List.mem_cons_self).ampersand.1 (by decide)

end Proof

end EvidenceLists

end AoSdl
