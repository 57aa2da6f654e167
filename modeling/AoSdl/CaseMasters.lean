import AoSdl.CommandFrames

/-! The case masters and guests of the areas through every run of the server and the REST interface.
Only the end of a player's connection takes a session out of an area's case masters. -/
namespace AoSdl
open Lib.Runs

namespace AOServer

def live (s : AOServer) (k : UInt64) : Bool := (s.room_.get_session k).isSome

/-- The case masters and the guests of every area are live sessions. -/
def Tidy (s : AOServer) : Prop :=
  ∀ area ∈ s.room_.states, ∀ k ∈ area.cm_owners ++ area.invited, s.live k = true

/-- An area whose last live case master is gone in the second state is not locked there. -/
def Released (s t : AOServer) : Prop :=
  ∀ id before after, s.room_.area_states_.lookup id = some before →
    t.room_.area_states_.lookup id = some after → (∃ k ∈ before.cm_owners, s.live k = true) →
    (∀ k ∈ after.cm_owners, t.live k = false) → after.lock_mode = .FREE

def Kept (deps : Deps) (s : AOServer) (event : SessionEvent) : Prop :=
  Tidy (commandStep deps s event) ∧ Released s (commandStep deps s event)

/-- The session is in the sets of no area. -/
def Uninvolved (s : AOServer) (k : UInt64) : Prop :=
  ∀ area ∈ s.room_.states, k ∉ area.cm_owners ++ area.invited

/-- The area is locked, and the `/uncm` of the session takes all its case masters. -/
def empties (s : AOServer) (k : UInt64) (session : ServerSession) (args : List Bytes)
    (area : AreaState) : Bool :=
  area.lock_mode ≠ .FREE && match args[1]? with
    | none => area.cm_owners = [k]
    | some target_ipid => session.moderator && !area.cm_owners.isEmpty && area.cm_owners.all fun owner =>
      (s.room_.get_session owner).map (·.ipid) = some target_ipid

/-- The packet is a `/uncm` that takes all case masters of a locked area. -/
def abandons (s : AOServer) (k : UInt64) (packet_str : Bytes) : Bool :=
  match s.slash_command k packet_str with
  | none => false
  | some (session, args) => args.head?.map (·.map tolower) = some (bytes "uncm") &&
    (s.room_.find_area_by_name session.area).any (s.empties k session args)

/-- A player who leaves is a guest only where the last case master unlocks a locked area by leaving.
Sessions that end in another way are in no area's sets, and `/uncm` abandons no locked area. -/
def Untangled (s : AOServer) : SessionEvent → Prop
  | .ao _ (.disconnected k) =>
    if s.joined k = some true then
      ∀ area ∈ s.room_.states, k ∈ area.invited → area.cm_owners = [k] ∧ area.lock_mode ≠ .FREE
    else Uninvolved s k
  | .ao _ (.packet _ k packet_str) => s.abandons k packet_str = false
  | .nx_destroy k => Uninvolved s k
  | .expire ttl_seconds idle => 0 < ttl_seconds → ∀ e ∈ s.room_.sessions_.for_each,
    e.2.session_token ≠ [] → idle e.2 = true → Uninvolved s e.1
  | _ => True

instance (s : AOServer) (k : UInt64) : Decidable (Uninvolved s k) :=
  inferInstanceAs (Decidable (∀ area ∈ s.room_.states, k ∉ area.cm_owners ++ area.invited))

instance (s : AOServer) : (event : SessionEvent) → Decidable (Untangled s event)
  | .ao _ (.disconnected k) => inferInstanceAs (Decidable (if s.joined k = some true then
      ∀ area ∈ s.room_.states, k ∈ area.invited → area.cm_owners = [k] ∧ area.lock_mode ≠ .FREE
    else Uninvolved s k))
  | .ao _ (.packet _ k packet_str) => inferInstanceAs (Decidable (s.abandons k packet_str = false))
  | .nx_destroy k => inferInstanceAs (Decidable (Uninvolved s k))
  | .expire ttl_seconds idle => inferInstanceAs (Decidable (0 < ttl_seconds →
      ∀ e ∈ s.room_.sessions_.for_each, e.2.session_token ≠ [] → idle e.2 = true → Uninvolved s e.1))
  | .ao _ (.connected _ _) | .ao _ (.buffered _ _) | .ao _ (.outside _ _) | .nx_create _ _ _
  | .nx_bind _ _ _ => inferInstanceAs (Decidable True)

/-- What holds of an area between two steps. -/
structure Sound (s : AOServer) (area : AreaState) : Prop where
  live : ∀ k ∈ area.cm_owners ++ area.invited, s.live k = true
  cm_owners : area.cm_owners.Nodup
  invited : area.invited.Nodup

structure Orderly (s : AOServer) : Prop where
  areas : ∀ area ∈ s.room_.states, Sound s area
  keyed : Keyed s

/-- A change of an area that leaves it sound, and open when its last case master is gone. -/
structure Recast (s : AOServer) (before after : AreaState) : Prop where
  sound : Sound s before → Sound s after
  freed : before.cm_owners ≠ [] → after.cm_owners = [] → after.lock_mode = .FREE

/-- No session ends, and the areas change as they may. -/
structure Carries (s t : AOServer) : Prop where
  live : ∀ k, s.live k = true → t.live k = true
  areas : ∀ id after, t.room_.area_states_.lookup id = some after →
    ∃ before, s.room_.area_states_.lookup id = some before ∧ Recast s before after

/-- The sessions are the same ones, and the areas' sets are the same. -/
structure Kin (s t : AOServer) : Prop where
  ids : ∀ k, (t.room_.get_session k).map (·.client_id) = (s.room_.get_session k).map (·.client_id)
  areas : ∀ id, (t.room_.area_states_.lookup id).map AreaState.casting =
    (s.room_.area_states_.lookup id).map AreaState.casting
  names : t.room_.area_name_to_id_ = s.room_.area_name_to_id_

section Proof

variable {deps : Deps} {env : Env} {k : UInt64} {s t u : AOServer} {session : ServerSession}
  {effects : List CommandEffect}

theorem Orderly.tidy (orderly : Orderly s) : Tidy s := fun area inside => (orderly.areas area inside).live

theorem Orderly.carries (orderly : Orderly s) (keyed : Keyed t) (carries : Carries s t) :
    Orderly t ∧ Released s t := by
  have sound {id : Bytes} {after : AreaState} (found : t.room_.area_states_.lookup id = some after) :
      Sound t after := by
    obtain ⟨before, was, recast⟩ := carries.areas id after found
    have sound := recast.sound (orderly.areas before (GameRoom.mem_states.mpr ⟨id, was⟩))
    exact ⟨fun k inside => carries.live k (sound.live k inside), sound.cm_owners, sound.invited⟩
  refine ⟨⟨fun area inside => ?_, keyed⟩, fun id before after was found owned gone => ?_⟩
  · obtain ⟨id, found⟩ := GameRoom.mem_states.mp inside
    exact sound found
  · obtain ⟨known, same, recast⟩ := carries.areas id after found
    rw [was] at same
    cases same
    obtain ⟨owner, owns, _⟩ := owned
    refine recast.freed (List.ne_nil_of_mem owns) (List.eq_nil_iff_forall_not_mem.mpr fun k inside => ?_)
    have alive := (sound found).live k (List.mem_append_left _ inside)
    rw [gone k inside] at alive
    cases alive

theorem Kin.trans (first : Kin s t) (second : Kin t u) : Kin s u :=
  ⟨fun k => (second.ids k).trans (first.ids k), fun id => (second.areas id).trans (first.areas id),
    second.names.trans first.names⟩

theorem Calm.kin (calm : Calm s t) : Kin s t := ⟨calm.ids, calm.areas, calm.names⟩

theorem Sound.congr {area area' : AreaState} (same : area'.casting = area.casting) (sound : Sound s area) :
    Sound s area' := by
  simp only [AreaState.casting, Prod.mk.injEq] at same
  obtain ⟨_, owners, invited⟩ := same
  exact ⟨by rw [owners, invited]; exact sound.live, by rw [owners]; exact sound.cm_owners,
    by rw [invited]; exact sound.invited⟩

theorem Recast.congr {before after after' : AreaState} (recast : Recast s before after)
    (same : after'.casting = after.casting) : Recast s before after' := by
  have parts := same
  simp only [AreaState.casting, Prod.mk.injEq] at parts
  obtain ⟨lock, owners, _⟩ := parts
  exact ⟨fun sound => (recast.sound sound).congr same, by rw [owners, lock]; exact recast.freed⟩

theorem Recast.refl (s : AOServer) (area : AreaState) : Recast s area area :=
  ⟨id, fun owned gone => absurd gone owned⟩

theorem Kin.carries_of {m : AOServer} (live : ∀ q, s.live q = true → m.live q = true)
    (areas : ∀ id after, m.room_.area_states_.lookup id = some after →
      ∃ before, s.room_.area_states_.lookup id = some before ∧ Recast s before after)
    (kin : Kin m t) : Carries s t := by
  refine ⟨fun q alive => ?_, fun id area there => ?_⟩
  · have same := congrArg Option.isSome (kin.ids q)
    rw [Option.isSome_map, Option.isSome_map] at same
    exact same.trans (live q alive)
  · have same := kin.areas id
    rw [there] at same
    obtain ⟨middle, was, cast⟩ := Option.map_eq_some_iff.mp same.symm
    obtain ⟨before, first, recast⟩ := areas id middle was
    exact ⟨before, first, recast.congr cast.symm⟩

theorem Kin.carries (kin : Kin s t) : Carries s t :=
  kin.carries_of (fun _ => id) fun _ area found => ⟨area, found, .refl s area⟩

theorem Kin.carries_update {name : Bytes} {before after : AreaState}
    (found : s.room_.find_area_by_name name = some before) (recast : Recast s before after)
    (kin : Kin (s.update_area name fun _ => after) t) : Carries s t := by
  refine kin.carries_of (fun k alive => ?_) fun id area there => ?_
  · simpa only [live, update_area, GameRoom.get_session, (update_area_frame s.room_ name _).1] using alive
  · rw [update_area, GameRoom.lookup_update_area] at there
    split at there
    · next named =>
      obtain ⟨old, here, rfl⟩ := Option.map_eq_some_iff.mp there
      have known : s.room_.area_states_.lookup id = some before := by
        simpa [GameRoom.find_area_by_name, GameRoom.find_area, named] using found
      exact ⟨before, known, recast⟩
    · exact ⟨area, there, .refl s area⟩

theorem Kin.update_area (kin : Kin s t) (name : Bytes) (after : AreaState) :
    Kin (s.update_area name fun _ => after) (t.update_area name fun _ => after) := by
  have sessions (s : AOServer) : (s.update_area name fun _ => after).room_.get_session =
      s.room_.get_session := by
    funext k
    simp only [AOServer.update_area, GameRoom.get_session, (update_area_frame s.room_ name _).1]
  refine ⟨fun k => ?_, fun id => ?_, ?_⟩
  · rw [sessions, sessions]
    exact kin.ids k
  · simp only [AOServer.update_area, GameRoom.lookup_update_area, kin.names]
    have same := kin.areas id
    split
    · have recast := congrArg (Option.map fun _ => after.casting) same
      rw [Option.map_map, Option.map_map] at recast ⊢
      exact recast
    · exact same
  · simp only [AOServer.update_area, GameRoom.names_update_area]
    exact kin.names

theorem kin_effect (s : AOServer) {e : CommandEffect} (apart : writes_areas e = false) :
    Kin s (s.run_effect env e) := by
  by_cases beside : writes_session e = false
  · exact (calm_effect env s apart beside).kin
  · cases e with
    | write_session q w => exact ⟨ids_effect env s _, fun _ => rfl, rfl⟩
    | _ => exact absurd rfl beside

theorem kin_effects (env : Env) (apart : ∀ e ∈ effects, writes_areas e = false) (s : AOServer) :
    Kin s (effects.foldl (run_effect env) s) := by
  induction effects generalizing s with
  | nil => exact ⟨fun _ => rfl, fun _ => rfl, rfl⟩
  | cons e effects ih =>
    exact (kin_effect s (apart e List.mem_cons_self)).trans
      (ih (fun d inside => apart d (List.mem_cons_of_mem _ inside)) _)

theorem spare_apart (apart : ∀ e ∈ effects, writes_areas e = false) :
    ∀ e ∈ effects.map (spare s), writes_areas e = false := by
  intro e inside
  obtain ⟨d, member, rfl⟩ := List.mem_map.mp inside
  have quiet := apart d member
  cases d <;> first | rfl | exact quiet

theorem kin_recast (env : Env) (first : List CommandEffect) {last : List CommandEffect} (name : Bytes)
    (after : AreaState)
    (opening : ∀ e ∈ first, writes_areas e = false) (closing : ∀ e ∈ last, writes_areas e = false)
    (room : t.room_ = s.room_) :
    Kin (s.update_area name fun _ => after)
      (((first ++ .write_area name after :: last).map (spare s)).foldl (run_effect env) t) := by
  have entered : Kin s t := (calm_room room).kin
  rw [List.map_append, List.map_cons, List.foldl_append, List.foldl_cons]
  have opened := entered.trans (kin_effects env (spare_apart (s := s) opening) t)
  exact (opened.update_area name after).trans (kin_effects env (spare_apart closing) _)

end Proof

section Commands

variable {deps : Deps} {env : Env} {k : UInt64} {s t : AOServer} {session : ServerSession}
  {effects : List CommandEffect} {before after : AreaState}

/-- A command leaves the areas alone, or it recasts the one of its session. -/
inductive Casts (s : AOServer) (session : ServerSession) : List CommandEffect → Prop
  | quiet {effects : List CommandEffect} (apart : ∀ e ∈ effects, writes_areas e = false) :
    Casts s session effects
  | recast (first : List CommandEffect) {last : List CommandEffect} {before after : AreaState}
    (found : s.room_.find_area_by_name session.area = some before) (recast : Recast s before after)
    (opening : ∀ e ∈ first, writes_areas e = false) (closing : ∀ e ∈ last, writes_areas e = false) :
    Casts s session (first ++ .write_area session.area after :: last)

theorem Casts.carries (casts : Casts s session effects)
    (room : t.room_ = s.room_) :
    Carries s ((effects.map (spare s)).foldl (run_effect env) t) := by
  cases casts with
  | quiet apart =>
    exact ((calm_room room).kin.trans (kin_effects env (spare_apart apart) t)).carries
  | recast first found recast opening closing =>
    exact (kin_recast env first session.area _ opening closing room).carries_update found recast

theorem told_apart (client_id : UInt64) (message : Bytes) :
    ∀ e ∈ [to_client client_id message], writes_areas e = false :=
  List.forall_mem_singleton.mpr rfl

theorem announced_apart (type : ArupType) (client_id : UInt64) (message : Bytes) :
    ∀ e ∈ [.broadcast_arup type, to_client client_id message], writes_areas e = false :=
  List.forall_mem_cons.mpr ⟨rfl, told_apart _ _⟩

theorem Casts.tell (client_id : UInt64) (message : Bytes) :
    Casts s session [to_client client_id message] := .quiet (told_apart _ _)

theorem Casts.write {last : List CommandEffect}
    (found : s.room_.find_area_by_name session.area = some before) (recast : Recast s before after)
    (closing : ∀ e ∈ last, writes_areas e = false) :
    Casts s session (.write_area session.area after :: last) :=
  Casts.recast [] found recast (fun _ inside => absurd inside List.not_mem_nil) closing

theorem casts_in_area {execute : AreaState → List CommandEffect}
    (each : ∀ area, s.room_.find_area_by_name session.area = some area →
      Casts s session (execute area)) : Casts s session (in_area s.room_ session execute) := by
  unfold in_area
  split
  · exact .quiet fun _ inside => absurd inside List.not_mem_nil
  · next area found => exact each area found

theorem casts_as_cm {refusal : Bytes} {execute : AreaState → List CommandEffect}
    (each : ∀ area, s.room_.find_area_by_name session.area = some area →
      Casts s session (execute area)) : Casts s session (as_cm s.room_ k session refusal execute) := by
  refine casts_in_area fun area found => ?_
  split
  · exact .tell _ _
  · exact each area found

/-- The sets get live sessions or lose some, and no last case master goes. -/
theorem Recast.of
    (grown : ∀ k ∈ after.cm_owners ++ after.invited, k ∈ before.cm_owners ++ before.invited ∨ s.live k = true)
    (cm_owners : before.cm_owners.Nodup → after.cm_owners.Nodup)
    (invited : before.invited.Nodup → after.invited.Nodup)
    (freed : before.cm_owners ≠ [] → after.cm_owners = [] → after.lock_mode = .FREE) :
    Recast s before after := by
  refine ⟨fun sound => ⟨fun k inside => ?_, cm_owners sound.cm_owners, invited sound.invited⟩, freed⟩
  rcases grown k inside with old | alive
  · exact sound.live k old
  · exact alive

theorem Orderly.live_of_mem (orderly : Orderly s) {player : ServerSession}
    (inside : player ∈ s.room_.sessions) : s.live player.client_id = true := by
  rw [live, orderly.keyed.mem_sessions.mp inside]
  rfl

open AreaState

theorem Recast.joined (owners guests : List ServerSession) {lock_mode : AreaLockMode}
    {cm : Bytes} (owners_live : ∀ player ∈ owners, s.live player.client_id = true)
    (guests_live : ∀ player ∈ guests, s.live player.client_id = true) :
    Recast s before { before with
      lock_mode, cm, cm_owners := insert_ids before.cm_owners owners
      invited := insert_ids before.invited guests } := by
  refine .of (fun q inside => ?_) nodup_insert_ids nodup_insert_ids fun owned gone => ?_
  · simp only [List.mem_append, mem_insert_ids] at inside ⊢
    rcases inside with (old | ⟨player, member, rfl⟩) | old | ⟨player, member, rfl⟩
    · exact .inl (.inl old)
    · exact .inr (owners_live player member)
    · exact .inl (.inr old)
    · exact .inr (guests_live player member)
  · obtain ⟨owner, owns⟩ := List.exists_mem_of_ne_nil _ owned
    exact absurd gone (List.ne_nil_of_mem (mem_insert_ids.mpr (.inl owns)))

theorem Recast.uninvited (sessions : List ServerSession) :
    Recast s before { before with invited := erase_ids before.invited sessions } := by
  refine .of (fun q inside => .inl ?_) id (fun nodup => nodup.sublist erase_ids_sublist)
    fun owned gone => absurd gone owned
  simp only [List.mem_append] at inside ⊢
  exact inside.imp_right (erase_ids_sublist.mem ·)

theorem live_has_ipid (orderly : Orderly s) (ipid : Bytes) :
    ∀ player ∈ has_ipid s.room_ ipid, s.live player.client_id = true :=
  fun _ inside => orderly.live_of_mem (List.mem_of_mem_filter inside)

theorem casts_cm (orderly : Orderly s) (found : s.room_.get_session k = some session)
    (args : List Bytes) : Casts s session (CmCommand.execute s.room_ k session args) := by
  have here : s.live k = true := by rw [live, found]; rfl
  unfold CmCommand.execute
  split
  · next target_ipid _ =>
    refine casts_as_cm fun area known => .write known ?_ ?_
    · exact .joined _ []
        (fun player inside => live_has_ipid orderly _ player (List.mem_of_mem_filter inside))
        fun _ inside => absurd inside List.not_mem_nil
    · refine List.forall_mem_append.mpr ⟨List.forall_mem_map.mpr fun _ _ => rfl, ?_⟩
      split
      · exact told_apart _ _
      · exact announced_apart _ _ _
  · refine casts_in_area fun area known => .write known ?_ (announced_apart _ _ _)
    refine .of (fun q inside => ?_) nodup_insert_id nodup_insert_id fun _ gone => ?_
    · simp only [List.mem_append, mem_insert_id] at inside ⊢
      rcases inside with (rfl | old) | rfl | old
      · exact .inr here
      · exact .inl (.inl old)
      · exact .inr here
      · exact .inl (.inr old)
    · exact absurd gone (List.ne_nil_of_mem (mem_insert_id.mpr (.inl rfl)))

theorem casts_invite (orderly : Orderly s) (args : List Bytes) :
    Casts s session (InviteCommand.execute s.room_ k session args) := by
  refine casts_as_cm fun area known => .write known ?_ ?_
  · exact .joined [] _ (fun _ inside => absurd inside List.not_mem_nil)
      (live_has_ipid orderly _)
  · exact List.forall_mem_append.mpr ⟨List.forall_mem_map.mpr fun _ _ => rfl, told_apart _ _⟩

theorem casts_uninvite (args : List Bytes) :
    Casts s session (UninviteCommand.execute s.room_ k session args) :=
  casts_as_cm fun _ known => .write known (.uninvited _) (told_apart _ _)

theorem casts_close_area (orderly : Orderly s) (lock_mode : AreaLockMode) (refusal message : Bytes) :
    Casts s session (close_area s.room_ k session lock_mode refusal message) := by
  refine casts_as_cm fun area known => .write known ?_ (announced_apart _ _ _)
  exact .joined [] _ (fun _ inside => absurd inside List.not_mem_nil)
    fun player inside => orderly.live_of_mem (List.mem_of_mem_filter inside)

theorem casts_unlock : Casts s session (AreaUnlockCommand.execute s.room_ k session) := by
  refine casts_as_cm fun area known => .write known ?_ (announced_apart _ _ _)
  refine .of (fun q inside => .inl ?_) id (fun _ => List.nodup_nil) fun _ _ => rfl
  exact List.mem_append_left _ (by simpa using inside)

theorem casts_area_kick (args : List Bytes) :
    Casts s session (AreaKickCommand.execute s.room_ k session args) := by
  refine casts_as_cm fun area known => .recast _ known (.uninvited _) ?_ ?_
  · exact List.forall_mem_flatMap.mpr fun player _ => List.forall_mem_cons.mpr ⟨rfl, told_apart _ _⟩
  · split
    · exact told_apart _ _
    · exact announced_apart _ _ _

theorem casts_area (args : List Bytes) :
    Casts s session (AreaCommand.execute s.room_ k session args) := by
  unfold AreaCommand.execute
  dsimp only
  split
  · exact .tell _ _
  split
  · exact .tell _ _
  · exact .quiet (List.forall_mem_cons.mpr ⟨rfl, List.forall_mem_cons.mpr ⟨rfl, told_apart _ _⟩⟩)

theorem mem_states_of_name {name : Bytes} {area : AreaState}
    (known : s.room_.find_area_by_name name = some area) : area ∈ s.room_.states := by
  obtain ⟨id, _, found⟩ := Option.bind_eq_some_iff.mp known
  exact GameRoom.mem_states.mpr ⟨id, found⟩

/-- A network identity takes all case masters exactly if each of them has it. -/
theorem erase_ipid_eq_nil (orderly : Orderly s) {owners : List UInt64} (nodup : owners.Nodup)
    (ipid : Bytes) : erase_ids owners (has_ipid s.room_ ipid) = [] ↔
      ∀ owner ∈ owners, (s.room_.get_session owner).map (·.ipid) = some ipid := by
  rw [List.eq_nil_iff_forall_not_mem]
  refine forall_congr' fun owner => ?_
  rw [mem_erase_ids nodup, not_and, Option.map_eq_some_iff]
  refine imp_congr_right fun _ => ?_
  constructor
  · intro taken
    obtain ⟨player, inside, same⟩ : ∃ player ∈ has_ipid s.room_ ipid, player.client_id = owner := by
      simpa using taken
    obtain ⟨listed, shares⟩ := List.mem_filter.mp inside
    have known := orderly.keyed.mem_sessions.mp listed
    exact ⟨player, same ▸ known, by simpa using shares⟩
  · rintro ⟨player, known, shares⟩ apart
    have own := orderly.keyed owner player known
    have listed := orderly.keyed.mem_sessions.mpr (own.symm ▸ known)
    exact apart player (List.mem_filter.mpr ⟨listed, by simpa using shares⟩) own

theorem Recast.uncast {cm_owners : List UInt64} (cm : Bytes) (fewer : cm_owners.Sublist before.cm_owners)
    (open_last : before.cm_owners ≠ [] → cm_owners = [] → before.lock_mode = .FREE) :
    Recast s before { before with cm_owners, cm } := by
  refine .of (fun q inside => .inl ?_) (fun nodup => nodup.sublist fewer) id open_last
  simp only [List.mem_append] at inside ⊢
  exact inside.imp_left (fewer.mem ·)

theorem casts_uncm (orderly : Orderly s) (args : List Bytes)
    (stays : ∀ area, s.room_.find_area_by_name session.area = some area →
      s.empties k session args area = false) :
    Casts s session (UncmCommand.execute s.room_ k session args) := by
  refine casts_in_area fun area known => ?_
  have stays := stays area known
  have nodup := (orderly.areas area (mem_states_of_name known)).cm_owners
  unfold empties at stays
  cases target : args[1]? with
  | some target_ipid =>
    rw [target] at stays
    dsimp only at stays ⊢
    split
    · exact .tell _ _
    · next moderator =>
      refine .write known (.uncast area.cm erase_ids_sublist fun owned gone => ?_) ?_
      · by_contra locked
        rw [erase_ipid_eq_nil orderly nodup] at gone
        refine Bool.false_ne_true (stays.symm.trans ?_)
        simp only [Bool.and_eq_true, decide_eq_true_eq, Bool.not_eq_true', List.isEmpty_eq_false_iff,
          List.all_eq_true]
        exact ⟨locked, ⟨by simpa using moderator, owned⟩, gone⟩
      · split
        · exact told_apart _ _
        · exact announced_apart _ _ _
  | none =>
    rw [target] at stays
    dsimp only at stays ⊢
    split
    · exact .tell _ _
    · refine .write known (.uncast _ List.erase_sublist fun owned gone => ?_) (announced_apart _ _ _)
      by_contra locked
      rcases List.erase_eq_nil_iff.mp gone with none | one
      · exact owned none
      · simp [locked, one] at stays

theorem uncm_empties (orderly : Orderly s) {args : List Bytes}
    (known : s.room_.find_area_by_name session.area = some before)
    (empties : s.empties k session args before = true) :
    before.cm_owners ≠ [] ∧ before.lock_mode ≠ .FREE ∧
    ∃ cm last, UncmCommand.execute s.room_ k session args =
      .write_area session.area { before with cm_owners := [], cm } :: last ∧
      ∀ e ∈ last, writes_areas e = false := by
  have nodup := (orderly.areas before (mem_states_of_name known)).cm_owners
  unfold AOServer.empties at empties
  unfold UncmCommand.execute in_area
  rw [known]
  cases target : args[1]? with
  | some target_ipid =>
    rw [target] at empties
    simp only [Bool.and_eq_true, decide_eq_true_eq, Bool.not_eq_true', List.isEmpty_eq_false_iff,
      List.all_eq_true] at empties
    obtain ⟨locked, ⟨moderator, owned⟩, shared⟩ := empties
    have gone := (erase_ipid_eq_nil orderly nodup target_ipid).mpr shared
    refine ⟨owned, locked, before.cm, _, by simp only [moderator, gone]; rfl, ?_⟩
    split
    · exact told_apart _ _
    · exact announced_apart _ _ _
  | none =>
    rw [target] at empties
    simp only [Bool.and_eq_true, decide_eq_true_eq] at empties
    obtain ⟨locked, alone⟩ := empties
    refine ⟨by simp [alone], locked, [], _, by simp [AreaState.is_cm, alone]; rfl, ?_⟩
    exact announced_apart _ _ _

theorem casts_area_command (orderly : Orderly s) (found : s.room_.get_session k = some session)
    {name : Bytes} {handler : CommandHandler} {args : List Bytes}
    (known : AreaCommands.find s.room_ k session name = some handler)
    (stays : name = bytes "uncm" → ∀ area, s.room_.find_area_by_name session.area = some area →
      s.empties k session args area = false) : Casts s session (handler.execute args) := by
  cases AreaCommands.find_cases known with
  | cm => exact casts_cm orderly found args
  | uncm => exact casts_uncm orderly args (stays rfl)
  | invite => exact casts_invite orderly args
  | uninvite => exact casts_uninvite args
  | close => exact casts_close_area orderly _ _ _
  | unlock => exact casts_unlock
  | kick => exact casts_area_kick args
  | area => exact casts_area args

theorem Balanced.apart (balanced : Balanced k session effects) :
    ∀ e ∈ effects, writes_areas e = false := by
  cases balanced <;> simp [writes_areas]

end Commands

section Steps

variable (deps : Deps) (env : Env) (k : UInt64) {s t : AOServer}

theorem Carries.room {u : AOServer} (carries : Carries s t) (same : u.room_ = t.room_) : Carries s u := by
  refine ⟨fun q alive => ?_, ?_⟩
  · have there := carries.live q alive
    unfold AOServer.live at there ⊢
    rwa [same]
  · rw [same]
    exact carries.areas

theorem packet_carries (orderly : Orderly s) (ctx : CommandContext) {packet_str : Bytes}
    (stays : s.abandons k packet_str = false) :
    Carries s (commandStep deps s (.ao ctx (.packet env k packet_str))) := by
  cases slash : s.slash_command k packet_str with
  | none => exact (calm_packet deps _ k slash).kin.carries
  | some player =>
    obtain ⟨session, args⟩ := player
    obtain ⟨env', t, same, room⟩ := room_command deps env k ctx slash
    refine Carries.room ?_ room
    have does := slash_dispatched deps k ctx slash
    generalize command deps (with_area_commands s k ctx) s k packet_str = effects at does ⊢
    have told {effects : List CommandEffect} (env : Env) (balanced : Balanced k session effects) :
        Carries s (effects.foldl (run_effect env) t) :=
      ((calm_room same).kin.trans (kin_effects env balanced.apart t)).carries
    cases does with
    | tell message => exact told _ (.tell message)
    | login named login => exact told _ (login_balanced deps k ctx session _)
    | logout moderator => exact told _ (logout_balanced k moderator)
    | rootpass words moderator => exact told _ (rootpass_balanced k ctx words moderator)
    | area named found allowed =>
      refine (casts_area_command orderly (slash_session k slash) found ?_).carries same
      intro uncm area known
      simpa [abandons, slash, named, uncm, known, empties] using stays
    | other effects => exact (calm_others _ (calm_room same) effects).kin.carries

theorem command_uncm (ctx : CommandContext) {session : ServerSession} {args : List Bytes}
    {packet_str : Bytes} (slash : s.slash_command k packet_str = some (session, args))
    (uncm : args.head?.map (·.map tolower) = some (bytes "uncm")) :
    ∃ words, words[1]? = args[1]? ∧ command deps (with_area_commands s k ctx) s k packet_str =
      (UncmCommand.execute s.room_ k session words).map (spare s) := by
  obtain ⟨word, rest, rfl, lower⟩ : ∃ word rest, args = word :: rest ∧ word.map tolower = bytes "uncm" := by
    cases args with
    | nil => cases uncm
    | cons word rest => exact ⟨word, rest, rfl, Option.some.inj uncm⟩
  have listed : CommandRegistry.find deps (spared s (with_area_commands s k ctx)) k session
      (bytes "uncm") = some { usage := bytes "/uncm [ipid]", execute := fun args =>
        (UncmCommand.execute s.room_ k session args).map (spare s) } := by
    have apart : bytes "uncm" ≠ bytes "login" ∧ bytes "uncm" ≠ bytes "logout" ∧
        bytes "uncm" ≠ bytes "rootpass" ∧ bytes "uncm" ≠ bytes "cm" := by decide
    simp only [CommandRegistry.find, spared, with_area_commands, slash_session k slash,
      AreaCommands.find, apart, Option.bind_some, if_false, if_true, Option.some_or, Option.map_some]
  rw [← lower] at listed
  exact ⟨_, rfl, command_registered deps k _ slash listed rfl⟩

theorem packet_abandons (orderly : Orderly s) (ctx : CommandContext) {packet_str : Bytes}
    (abandons : s.abandons k packet_str = true) :
    ¬ Released s (commandStep deps s (.ao ctx (.packet env k packet_str))) := by
  unfold AOServer.abandons at abandons
  split at abandons
  · cases abandons
  · next session args slash =>
    rw [Bool.and_eq_true, decide_eq_true_eq, Option.any_eq_true] at abandons
    obtain ⟨uncm, before, known, emptied⟩ := abandons
    obtain ⟨words, target, issued⟩ := command_uncm deps k ctx slash uncm
    have empties : s.empties k session words before = true := by
      unfold AOServer.empties at emptied ⊢
      rwa [target]
    obtain ⟨owned, locked, cm, last, written, closing⟩ := uncm_empties orderly known empties
    obtain ⟨env', t, same, room⟩ := room_command deps env k ctx slash
    rw [written] at issued
    have kin := kin_recast env' (s := s) []
      session.area { before with cm_owners := [], cm } (fun _ inside => absurd inside List.not_mem_nil)
      closing same
    obtain ⟨id, named, found⟩ := Option.bind_eq_some_iff.mp known
    have cast := kin.areas id
    rw [update_area, GameRoom.lookup_update_area, if_pos named, show s.room_.area_states_.lookup id =
      some before from found] at cast
    obtain ⟨after, there, left⟩ := Option.map_eq_some_iff.mp cast
    simp only [AreaState.casting, Prod.mk.injEq] at left
    intro released
    obtain ⟨owner, owns⟩ := List.exists_mem_of_ne_nil _ owned
    have alive := (orderly.areas before (mem_states_of_name known)).live owner (List.mem_append_left _ owns)
    refine locked (left.1.symm.trans (released id before after found ?_ ⟨owner, owns, alive⟩ fun q inside => ?_))
    · refine Eq.trans ?_ there
      refine congrArg (fun r : GameRoom => r.area_states_.lookup id) (room.trans ?_)
      rw [issued]
      rfl
    · rw [left.2.1] at inside
      exact absurd inside List.not_mem_nil

end Steps

section Ends

variable {deps : Deps} {k : UInt64} {s t : AOServer}

/-- Sessions end, and the areas' sets shrink. The books stay tidy exactly if no set keeps a session that
has ended. -/
theorem tidy_ends_iff (orderly : Orderly s) (gone : List UInt64) {f : AreaState → AreaState}
    (fewer : ∀ area, (f area).cm_owners.Sublist area.cm_owners ∧ (f area).invited.Sublist area.invited)
    (opens : ∀ area, area.cm_owners ≠ [] → (f area).cm_owners = [] → (f area).lock_mode = .FREE)
    (sessions : ∀ q, t.room_.get_session q = if q ∈ gone then none else s.room_.get_session q)
    (areas : ∀ id, t.room_.area_states_.lookup id = (s.room_.area_states_.lookup id).map f) :
    (Tidy t ∧ Released s t ↔
      ∀ q ∈ gone, ∀ area ∈ s.room_.states, q ∉ (f area).cm_owners ++ (f area).invited) ∧
    ((∀ q ∈ gone, ∀ area ∈ s.room_.states, q ∉ (f area).cm_owners ++ (f area).invited) → Orderly t) := by
  have alive (q : UInt64) : t.live q = true ↔ q ∉ gone ∧ s.live q = true := by
    unfold live
    rw [sessions]
    split
    · next out => simp [out]
    · next stays => simp [stays]
  have states (area : AreaState) : area ∈ t.room_.states ↔ ∃ old ∈ s.room_.states, f old = area := by
    simp only [GameRoom.mem_states, areas, Option.map_eq_some_iff]
    constructor
    · rintro ⟨id, old, found, same⟩
      exact ⟨old, ⟨id, found⟩, same⟩
    · rintro ⟨old, ⟨id, found⟩, same⟩
      exact ⟨id, old, found, same⟩
  have sound (free : ∀ q ∈ gone, ∀ area ∈ s.room_.states, q ∉ (f area).cm_owners ++ (f area).invited)
      {old : AreaState} (inside : old ∈ s.room_.states) : Sound t (f old) := by
    obtain ⟨owners, guests⟩ := fewer old
    have was := orderly.areas old inside
    refine ⟨fun q member => (alive q).mpr ⟨fun out => free q out old inside member, ?_⟩,
      was.cm_owners.sublist owners, was.invited.sublist guests⟩
    exact was.live q ((owners.append guests).subset member)
  refine ⟨⟨?_, fun free => ⟨fun area inside => ?_, ?_⟩⟩, fun free => ⟨fun area inside => ?_, ?_⟩⟩
  · rintro ⟨tidy, _⟩ q out area inside member
    exact ((alive q).mp (tidy _ ((states _).mpr ⟨area, inside, rfl⟩) q member)).1 out
  · obtain ⟨old, was, rfl⟩ := (states area).mp inside
    exact (sound free was).live
  · intro id before after was found owned gone
    rw [areas, was] at found
    cases found
    obtain ⟨owner, owns, _⟩ := owned
    refine opens before (List.ne_nil_of_mem owns) (List.eq_nil_iff_forall_not_mem.mpr fun q member => ?_)
    have stays := (sound free (GameRoom.mem_states.mpr ⟨id, was⟩)).live q (List.mem_append_left _ member)
    rw [gone q member] at stays
    cases stays
  · obtain ⟨old, was, rfl⟩ := (states area).mp inside
    exact sound free was
  · intro q session found
    rw [sessions] at found
    split at found
    · cases found
    · exact orderly.keyed q session found

theorem tidy_uninvolved_iff (orderly : Orderly s) (gone : List UInt64)
    (sessions : ∀ q, t.room_.get_session q = if q ∈ gone then none else s.room_.get_session q)
    (areas : ∀ id, t.room_.area_states_.lookup id = s.room_.area_states_.lookup id) :
    (Tidy t ∧ Released s t ↔ ∀ q ∈ gone, Uninvolved s q) ∧
      ((∀ q ∈ gone, Uninvolved s q) → Orderly t) :=
  tidy_ends_iff (f := id) orderly gone (fun _ => ⟨List.Sublist.refl _, List.Sublist.refl _⟩)
    (fun _ owned none => absurd none owned) sessions fun id => by rw [areas, Option.map_id_apply]

theorem drop_cm_spec (k : UInt64) (area : AreaState) :
    (drop_cm k area).cm_owners = area.cm_owners.erase k ∧
    (drop_cm k area).invited =
      (if area.cm_owners = [k] ∧ area.lock_mode ≠ .FREE then [] else area.invited) ∧
    (area.cm_owners = [k] → (drop_cm k area).lock_mode = .FREE) := by
  unfold drop_cm
  by_cases owner : area.is_cm k = true
  · have inside : k ∈ area.cm_owners := by simpa [AreaState.is_cm] using owner
    have alone : area.cm_owners.erase k = [] ↔ area.cm_owners = [k] := by
      rw [List.erase_eq_nil_iff, or_iff_right (List.ne_nil_of_mem inside)]
    by_cases last : area.cm_owners = [k]
    · by_cases free : area.lock_mode = .FREE
      · simp [owner, last, free]
      · simp [owner, last, free]
    · simp [owner, last, mt alone.mp last]
  · have outside : k ∉ area.cm_owners := by simpa [AreaState.is_cm] using owner
    have apart : area.cm_owners ≠ [k] := by
      intro alone
      exact outside (alone ▸ List.mem_cons_self)
    simp [owner, apart, List.erase_of_not_mem outside]

theorem tidy_disconnected_iff (deps : Deps) (orderly : Orderly s) (player : s.joined k = some true) :
    (Tidy (on_client_disconnected deps s k) ∧ Released s (on_client_disconnected deps s k) ↔
      ∀ area ∈ s.room_.states, k ∈ area.invited → area.cm_owners = [k] ∧ area.lock_mode ≠ .FREE) ∧
    ((∀ area ∈ s.room_.states, k ∈ area.invited → area.cm_owners = [k] ∧ area.lock_mode ≠ .FREE) →
      Orderly (on_client_disconnected deps s k)) := by
  obtain ⟨sessions, areas, _⟩ := room_disconnected deps k s
  simp only [player, if_true] at areas
  have free (area : AreaState) (inside : area ∈ s.room_.states) :
      k ∉ (drop_cm k area).cm_owners ++ (drop_cm k area).invited ↔
        (k ∈ area.invited → area.cm_owners = [k] ∧ area.lock_mode ≠ .FREE) := by
    obtain ⟨owners, invited, _⟩ := drop_cm_spec k area
    have out : k ∉ area.cm_owners.erase k := (orderly.areas area inside).cm_owners.not_mem_erase
    rw [List.mem_append, owners, invited, or_iff_right out]
    split
    · next leaves => exact iff_of_true List.not_mem_nil fun _ => leaves
    · next stays => exact imp_congr_right fun _ => (iff_false_intro stays).symm
  have ends := tidy_ends_iff (t := on_client_disconnected deps s k) orderly [k] (f := drop_cm k)
    (fun area => ?_) (fun area owned none => ?_) (fun q => by simpa using sessions q) areas
  · simp only [List.mem_singleton, forall_eq] at ends
    simpa only [forall₂_congr free] using ends
  · obtain ⟨owners, invited, _⟩ := drop_cm_spec k area
    rw [owners, invited]
    refine ⟨List.erase_sublist, ?_⟩
    split
    · exact List.nil_sublist _
    · exact List.Sublist.refl _
  · obtain ⟨owners, _, freed⟩ := drop_cm_spec k area
    rw [owners] at none
    exact freed ((List.erase_eq_nil_iff.mp none).resolve_left owned)

theorem kin_bind (strHash : Bytes → BitVec 64) (s : AOServer) (token auth : Bytes) (entry : AuthTokenEntry) :
    Kin s { s with room_ := s.room_.bind_session strHash token auth entry } := by
  have frame : (s.room_.bind_session strHash token auth entry).area_states_ = s.room_.area_states_ ∧
      (s.room_.bind_session strHash token auth entry).area_name_to_id_ = s.room_.area_name_to_id_ := by
    unfold GameRoom.bind_session
    split
    · exact ⟨rfl, rfl⟩
    · split <;> exact ⟨rfl, rfl⟩
  exact ⟨ids_bind strHash s.room_ token auth entry, fun id => by rw [frame.1], frame.2⟩

theorem mem_expired {strHash : Bytes → BitVec 64} {r : GameRoom} {ttl_seconds : Int}
    {idle : ServerSession → Bool} {q : UInt64} :
    q ∈ (r.expire_sessions strHash ttl_seconds idle).1 ↔ 0 < ttl_seconds ∧
      ∃ e ∈ r.sessions_.for_each, (e.2.session_token ≠ [] ∧ idle e.2 = true) ∧ e.1 = q := by
  unfold GameRoom.expire_sessions
  split
  · next off => simp [off]
  · next on =>
    have on : 0 < ttl_seconds := by omega
    simp [on, and_assoc]

end Ends

section Runs

variable (deps : Deps) {s : AOServer}

theorem tidy_disconnect (orderly : Orderly s) (ctx : CommandContext) (k : UInt64) :
    (Kept deps s (.ao ctx (.disconnected k)) ↔ Untangled s (.ao ctx (.disconnected k))) ∧
      (Untangled s (.ao ctx (.disconnected k)) → Orderly (commandStep deps s (.ao ctx (.disconnected k)))) := by
  have left : commandStep deps s (.ao ctx (.disconnected k)) = on_client_disconnected deps s k := rfl
  rw [Kept, left]
  by_cases player : s.joined k = some true
  · simpa only [Untangled, player, if_true] using
      tidy_disconnected_iff deps orderly player
  · obtain ⟨sessions, areas, _⟩ := room_disconnected deps k s
    have ends := tidy_uninvolved_iff (t := on_client_disconnected deps s k) orderly [k]
      (fun q => by simpa using sessions q) (fun id => by rw [areas, if_neg player])
    simpa only [Untangled, player, if_false, List.mem_singleton, forall_eq] using ends

theorem tidy_expire (orderly : Orderly s) (ttl_seconds : Int) (idle : ServerSession → Bool) :
    (Kept deps s (.expire ttl_seconds idle) ↔ Untangled s (.expire ttl_seconds idle)) ∧
      (Untangled s (.expire ttl_seconds idle) → Orderly (commandStep deps s (.expire ttl_seconds idle))) := by
  obtain ⟨sessions, areas, _⟩ := room_expire deps.strHash s.room_ ttl_seconds idle
  have room := room_expired deps s ttl_seconds idle
  have ends := tidy_uninvolved_iff (t := commandStep deps s (.expire ttl_seconds idle)) orderly
    (s.room_.expire_sessions deps.strHash ttl_seconds idle).1
    (fun q => by rw [room]; exact sessions q) (fun id => by rw [room, areas])
  have listed : (∀ q ∈ (s.room_.expire_sessions deps.strHash ttl_seconds idle).1, Uninvolved s q) ↔
      Untangled s (.expire ttl_seconds idle) := by
    simp only [mem_expired, Untangled]
    constructor
    · intro free on e inside token idles
      exact free e.1 ⟨on, e, inside, ⟨token, idles⟩, rfl⟩
    · rintro free q ⟨on, e, inside, ⟨token, idles⟩, rfl⟩
      exact free on e inside token idles
  rw [Kept, ← listed]
  exact ends

/-- Under the invariant a step keeps the books tidy exactly if it is untangled, and it keeps the
invariant then. -/
theorem tidy_step (orderly : Orderly s) (event : SessionEvent) :
    (Kept deps s event ↔ Untangled s event) ∧
      (Untangled s event → Orderly (commandStep deps s event)) := by
  have harmless (carries : Carries s (commandStep deps s event)) :
      (Kept deps s event ↔ True) ∧ (True → Orderly (commandStep deps s event)) := by
    obtain ⟨kept, released⟩ := orderly.carries (orderly.keyed.step deps event) carries
    exact ⟨iff_true_intro ⟨kept.tidy, released⟩, fun _ => kept⟩
  cases event with
  | ao ctx input =>
    cases input with
    | connected env k =>
      refine harmless (Kin.carries_of (m := { s with room_ := s.room_.create_session k (bytes "ao2") })
        (fun q alive => ?_) (fun _ area found => ⟨area, found, .refl s area⟩) (calm_connected env k s).kin)
      unfold live at alive ⊢
      rw [GameRoom.get_session_create]
      split
      · rfl
      · exact alive
    | disconnected k => exact tidy_disconnect deps orderly ctx k
    | buffered k buf => exact harmless (calm_update_proto s k _).kin.carries
    | packet env k packet_str =>
      cases stays : s.abandons k packet_str with
      | true =>
        refine ⟨iff_of_false (fun kept => packet_abandons deps env k orderly ctx stays kept.2) ?_, ?_⟩
        · simp [Untangled, stays]
        · simp [Untangled, stays]
      | false =>
        have carries := packet_carries deps env k orderly ctx stays
        simpa only [Kept, Untangled, stays] using harmless carries
    | outside env effect =>
      exact harmless (calm_outside deps env s ctx effect).kin.carries
  | nx_create k token client =>
    refine harmless (Kin.carries_of (m := commandStep deps s (.nx_create k token client))
      (fun q alive => ?_) (fun _ area found => ⟨area, found, .refl s area⟩) (Calm.refl _).kin)
    have made := congrArg Option.isSome (identity_nx_create deps k q s.room_ token client)
    rw [Option.isSome_map] at made
    refine Eq.trans made ?_
    split
    · rfl
    · rw [Option.isSome_map]
      exact alive
  | nx_bind token auth entry => exact harmless (kin_bind deps.strHash s token auth entry).carries
  | nx_destroy k =>
    have ends := tidy_uninvolved_iff (t := commandStep deps s (.nx_destroy k)) orderly [k]
      (fun q => by
        simp only [List.mem_singleton]
        exact GameRoom.get_session_destroy _ _ _ _)
      (fun id => congrArg (AList.lookup id) (area_states_destroy k deps.strHash s.room_).1)
    simpa only [Kept, Untangled, List.mem_singleton, forall_eq] using ends
  | expire ttl_seconds idle => exact tidy_expire deps orderly ttl_seconds idle

/-- In every run from an orderly state, each step keeps the books of the case masters tidy exactly if
each step is untangled. -/
theorem tidy_iff (orderly : Orderly s) (events : List SessionEvent) :
    Throughout (commandStep deps) (Kept deps) s events ↔
      Throughout (commandStep deps) Untangled s events :=
  throughout_iff_throughout (I := Orderly) (Q := Kept deps) (C := Untangled)
    (fun _ event orderly => (tidy_step deps orderly event).2)
    (fun _ event orderly => (tidy_step deps orderly event).1) orderly events

end Runs

theorem orderly_start {s : AOServer} (no_sessions : ∀ k, s.room_.get_session k = none)
    (empty : ∀ area ∈ s.room_.states, area.cm_owners = [] ∧ area.invited = []) : Orderly s := by
  refine ⟨fun area inside => ?_, fun k session found => ?_⟩
  · obtain ⟨owners, guests⟩ := empty area inside
    exact ⟨by simp [owners, guests], by rw [owners]; exact List.nodup_nil,
      by rw [guests]; exact List.nodup_nil⟩
  · rw [no_sessions k] at found
    cases found

/-- A server with one area. -/
def lobby : AOServer :=
  { room_ := ({ areas := [bytes "Lobby"] } : GameRoom).build_area_index id }

/-- A player runs the lobby and locks it. -/
def lockedLobby : List SessionEvent :=
  [.ao {} (.connected {} 7), .ao {} (.packet {} 7 (bytes "RD#%")),
    .ao {} (.packet {} 7 (bytes "CT#a#/cm#%")), .ao {} (.packet {} 7 (bytes "CT#a#/area_lock#%"))]

theorem orderly_lobby : Orderly lobby := orderly_start (fun _ => SessionMap.find_empty _) (by decide)

/-- A player who locks the area and leaves unlocks it. -/
theorem locked_lobby_left :
    Throughout (commandStep plainDeps) (Kept plainDeps) lobby (lockedLobby ++ [.ao {} (.disconnected 7)]) :=
  (tidy_iff plainDeps orderly_lobby _).mpr (by decide +kernel)

/-- One who steps down leaves it locked. -/
theorem locked_lobby_abandoned :
    ¬ Throughout (commandStep plainDeps) (Kept plainDeps) lobby
      (lockedLobby ++ [.ao {} (.packet {} 7 (bytes "CT#a#/uncm#%"))]) := by
  intro kept
  let before : AreaState :=
    { id := bytes "area:Lobby", name := bytes "Lobby", lock_mode := .LOCKED, cm_owners := [7], invited := [7] }
  have freed := kept.2.2.2.2.1.2 (bytes "area:Lobby") before { before with cm_owners := [] }
    (by decide +kernel) (by decide +kernel) ⟨7, List.mem_cons_self, by decide +kernel⟩
    fun _ inside => absurd inside List.not_mem_nil
  exact absurd freed (by decide)

end AOServer

end AoSdl
