import AoSdl.ContentReload

/-! When a content reload leaves the room consistent. The marks and the sessions agree wherever the
names that are carried over are distinct; the counter of the marks is left as it was. -/
namespace AoSdl

namespace GameRoom

/-- The name of a session's character. -/
def character (r : GameRoom) (session : ServerSession) : Option Bytes :=
  if 0 ≤ session.character_id then r.characters[session.character_id.toNat]? else none

def taken_count (r : GameRoom) : Nat :=
  ((List.range r.characters.length).filter fun c => r.char_taken.getD c 0 ≠ 0).length

end GameRoom

namespace ConfigReloader

/-- What a reload is to leave behind. -/
structure Consistent (new_content : ContentConfig) (before after : GameRoom) : Prop where
  marked : ∀ c < after.characters.length, after.char_taken.getD c 0 ≠ 0 ↔
    ∃! k, ∃ session, after.get_session k = some session ∧ session.character_id = c
  single : ∀ k k' session session', after.get_session k = some session →
    after.get_session k' = some session' → session.character_id = session'.character_id →
    0 ≤ session.character_id → k = k'
  kept : ∀ k session name, before.get_session k = some session →
    before.character session = some name → name ∈ new_content.characters →
    ∃ session', after.get_session k = some session' ∧ after.character session' = some name
  counted : after.stats.chars_taken = after.taken_count
  located : ∀ k session, after.get_session k = some session → session.area ∈ new_content.area_names

/-- The name of a session's character, if the new list has it where an `int` can point. -/
def carried (new_content : ContentConfig) (old_characters : List Bytes) (session : ServerSession) :
    Option Bytes :=
  let name := old_characters.getD session.character_id.toNat []
  if 0 ≤ session.character_id ∧ session.character_id < intOfSize old_characters.length ∧
      name ∈ indexed new_content.characters then some name else none

/-- The rooms that a reload brings into the new content. -/
structure Reloadable (new_content : ContentConfig) (r : GameRoom) : Prop where
  somewhere : new_content.area_names = [] → ∀ k, r.get_session k = none
  distinct : ∀ k k' session session' name, r.get_session k = some session →
    r.get_session k' = some session' → carried new_content r.characters session = some name →
    carried new_content r.characters session' = some name → k = k'
  kept : ∀ k session name, r.get_session k = some session → r.character session = some name →
    name ∈ new_content.characters → carried new_content r.characters session = some name
  counted : r.stats.chars_taken =
    (r.sessions.filter fun session => (carried new_content r.characters session).isSome).length
  located : ∀ k session, r.get_session k = some session →
    session.area ∈ new_content.area_names ∨ session.area ∈ r.areas

section Reloaded

variable {new_content : ContentConfig} {old_characters : List Bytes} {session : ServerSession}

theorem destination_of_carried {name : Bytes}
    (carries : carried new_content old_characters session = some name) :
    old_characters.getD session.character_id.toNat [] = name ∧
    ∃ i, destination new_content old_characters session = some i ∧
      new_content.characters[i]? = some name := by
  unfold carried at carries
  dsimp only at carries
  split at carries
  · next within =>
    obtain ⟨low, high, listed⟩ := within
    obtain rfl := Option.some.inj carries
    obtain ⟨i, found⟩ := Option.isSome_iff_exists.mp (index_isSome.mpr listed)
    refine ⟨rfl, i, ?_, (lookup_index found).2.2⟩
    exact (destination_eq_some _ _).mpr ⟨⟨low, high⟩, found⟩
  · cases carries

theorem carried_of_destination {i : Nat}
    (placed : destination new_content old_characters session = some i) :
    ∃ name, carried new_content old_characters session = some name ∧
      new_content.characters[i]? = some name := by
  obtain ⟨within, found⟩ := (destination_eq_some _ _).mp placed
  have listed := index_isSome.mp (Option.isSome_iff_exists.mpr ⟨i, found⟩)
  refine ⟨_, ?_, (lookup_index found).2.2⟩
  rw [carried, if_pos ⟨within.1, within.2, listed⟩]

theorem destination_isSome : (destination new_content old_characters session).isSome =
    (carried new_content old_characters session).isSome := by
  cases placed : destination new_content old_characters session with
  | some i =>
    obtain ⟨name, carries, _⟩ := carried_of_destination placed
    rw [carries]
    rfl
  | none =>
    cases carries : carried new_content old_characters session with
    | none => rfl
    | some name =>
      obtain ⟨_, i, found, _⟩ := destination_of_carried carries
      rw [found] at placed
      cases placed

/-- Sessions with one name go to one place, and to one place only with one name. -/
theorem same_destination {session' : ServerSession} {i : Nat}
    (placed : destination new_content old_characters session = some i) :
    destination new_content old_characters session' = some i ↔
      carried new_content old_characters session' = carried new_content old_characters session := by
  obtain ⟨name, carries, there⟩ := carried_of_destination placed
  constructor
  · intro placed'
    obtain ⟨name', carries', there'⟩ := carried_of_destination placed'
    rw [carries, carries', ← there, ← there']
  · intro same
    obtain ⟨named, j, found, _⟩ := destination_of_carried carries
    obtain ⟨named', j', found', _⟩ := destination_of_carried (same.trans carries)
    have first := ((destination_eq_some _ _).mp placed).2
    have second := ((destination_eq_some _ _).mp found').2
    rw [named] at first
    rw [named', first] at second
    rw [found', ← second]

theorem unselected_area : (unselected new_content old_characters session).area = session.area := by
  rw [unselected]
  split <;> rfl

theorem destination_unselected : destination new_content old_characters
    (unselected new_content old_characters session) = destination new_content old_characters session := by
  unfold unselected
  split
  · next lost =>
    cases placed : destination new_content old_characters session with
    | none => rfl
    | some i =>
      obtain ⟨name, carries, there⟩ := carried_of_destination placed
      have named := (destination_of_carried carries).1
      simp only [loses, named, Bool.and_eq_true, decide_eq_true_eq] at lost
      exact absurd (List.mem_of_getElem? there) lost.2
  · rfl

theorem remapped_id {c : Nat} : (remapped new_content old_characters session).character_id = c ↔
    destination new_content old_characters session = some c := by
  unfold remapped
  split
  · next spectator =>
    have aimless : destination new_content old_characters session = none := if_pos spectator
    rw [aimless]
    exact iff_of_false (by omega) nofun
  · cases destination new_content old_characters session with
    | none => exact iff_of_false (by simp) nofun
    | some i => simp

theorem remapped_area : (remapped new_content old_characters session).area = session.area := by
  unfold remapped
  split
  · rfl
  · split <;> rfl

theorem destination_moved {safe_area : Bytes} {old_areas : List Bytes} :
    destination new_content old_characters (moved new_content safe_area old_areas session) =
      destination new_content old_characters session := by
  unfold moved
  split <;> rfl

/-- A session after the reload. -/
def reloaded (new_content : ContentConfig) (safe_area : Bytes) (before : GameRoom)
    (session : ServerSession) : ServerSession :=
  remapped new_content before.characters (unselected new_content before.characters
    (moved new_content safe_area before.areas session))

theorem reloaded_id {safe_area : Bytes} {before : GameRoom} {c : Nat} :
    (reloaded new_content safe_area before session).character_id = c ↔
      destination new_content before.characters session = some c := by
  rw [reloaded, remapped_id, destination_unselected, destination_moved]

theorem reloaded_area {safe_area : Bytes} {before : GameRoom} :
    (reloaded new_content safe_area before session).area =
      (moved new_content safe_area before.areas session).area := by
  rw [reloaded, remapped_area, unselected_area]

/-- What the whole reload does, where the new list has an area. -/
structure Applied (new_content : ContentConfig) (safe_area : Bytes) (before after : GameRoom) :
    Prop where
  session : ∀ k, after.get_session k =
    (before.get_session k).map (reloaded new_content safe_area before)
  taken : ∀ c, after.taken c ↔ ∃ k session, before.get_session k = some session ∧
    destination new_content before.characters session = some c
  stats : after.stats = before.stats
  characters : after.characters = new_content.characters

theorem reload_applied (sha256 : Bytes → Bytes) (before : GameRoom) {safe_area : Bytes} {others : List Bytes}
    (areas : new_content.area_names = safe_area :: others) :
    Applied new_content safe_area before
      (apply_content_changes sha256 before new_content before.characters before.areas).1 := by
  let left := relocate_all new_content safe_area before.areas (before, {})
  let freed := unselect new_content before.characters left
  let replaced := replace_content sha256 new_content freed.1
  have shape : (apply_content_changes sha256 before new_content before.characters before.areas).1 =
      remap new_content before.characters replaced := by
    unfold apply_content_changes
    rw [areas]
  have core := core_replace new_content sha256 freed.1
  have safe : safe_area ∈ new_content.area_names := areas ▸ List.mem_cons_self
  have freed_session (k : UInt64) : replaced.get_session k = (before.get_session k).map
      (unselected new_content before.characters ∘ moved new_content safe_area before.areas) := by
    have same : replaced.sessions_ = freed.1.sessions_ := congrArg (fun c => c.1) core
    rw [GameRoom.get_session, same]
    refine (get_session_unselect new_content before.characters left k).trans ?_
    rw [get_session_relocate_all new_content safe, Option.map_map]
  have frame := frame_remap new_content before.characters replaced
  rw [shape]
  constructor
  · intro k
    rw [get_session_remap, freed_session, Option.map_map]
    rfl
  · intro c
    have marks := taken_remap new_content before.characters (r := replaced)
      (congrArg (fun c => c.2.1) core) c
    refine marks.trans ?_
    simp only [freed_session, Option.map_eq_some_iff]
    constructor
    · rintro ⟨k, _, ⟨session, live, rfl⟩, placed⟩
      rw [Function.comp_apply, destination_unselected, destination_moved] at placed
      exact ⟨k, session, live, placed⟩
    · rintro ⟨k, session, live, placed⟩
      refine ⟨k, _, ⟨session, live, rfl⟩, ?_⟩
      rw [Function.comp_apply, destination_unselected, destination_moved]
      exact placed
  · have same : replaced.stats = freed.1.stats := congrArg (fun c => c.2.2.1) core
    have stats : (remap new_content before.characters replaced).stats = replaced.stats :=
      congrArg (fun c => c.1) frame
    rw [stats, same]
    exact (stats_unselect new_content before.characters left).trans
      (stats_relocate_all new_content safe_area before.areas (before, {}))
  · have same : replaced.characters = new_content.characters := congrArg (fun c => c.2.2.2.1) core
    exact (congrArg (fun c => c.2.1) frame).trans same

variable {safe_area : Bytes} {before after : GameRoom}

theorem Applied.after_iff (applied : Applied new_content safe_area before after) {k : UInt64} {c : Nat} :
    (∃ session, after.get_session k = some session ∧ session.character_id = c) ↔
      ∃ session, before.get_session k = some session ∧
        destination new_content before.characters session = some c := by
  rw [applied.session]
  cases before.get_session k with
  | none => simp
  | some session => simp [reloaded_id]

/-- Where no two sessions carry one name, the marks number the sessions that carry one. -/
theorem Applied.taken_count (applied : Applied new_content safe_area before after)
    (distinct : ∀ k k' session session' name, before.get_session k = some session →
      before.get_session k' = some session' →
      carried new_content before.characters session = some name →
      carried new_content before.characters session' = some name → k = k') :
    after.taken_count = (before.sessions.filter fun session =>
      (carried new_content before.characters session).isSome).length := by
  have lists := before.sessions_.lists
  let places := before.sessions_.for_each.filterMap fun e =>
    destination new_content before.characters e.2
  have nodup : places.Nodup := by
    refine List.pairwise_filterMap.mpr ?_
    have keys : before.sessions_.for_each.Pairwise fun e e' => e.1 ≠ e'.1 :=
      List.pairwise_map.mp lists.nodup
    refine keys.imp_of_mem fun {e e'} member member' apart c placed c' placed' same => apart ?_
    subst same
    obtain ⟨name, carries, _⟩ := carried_of_destination placed
    have carries' := ((same_destination placed).mp placed').trans carries
    exact distinct e.1 e'.1 e.2 e'.2 name ((lists.mem _ _).mp member) ((lists.mem _ _).mp member')
      carries carries'
  have perm : ((List.range after.characters.length).filter fun c =>
      after.char_taken.getD c 0 ≠ 0).Perm places := by
    refine (List.perm_ext_iff_of_nodup (List.nodup_range.filter _) nodup).mpr fun c => ?_
    rw [List.mem_filter, List.mem_range, decide_eq_true_eq, List.mem_filterMap, applied.characters]
    have marked := applied.taken c
    constructor
    · rintro ⟨_, mark⟩
      obtain ⟨k, session, live, placed⟩ := marked.mp mark
      exact ⟨(k, session), (lists.mem _ _).mpr live, placed⟩
    · rintro ⟨e, member, placed⟩
      exact ⟨(destination_fits new_content before.characters placed).2,
        marked.mpr ⟨e.1, e.2, (lists.mem _ _).mp member, placed⟩⟩
  rw [GameRoom.taken_count, perm.length_eq, List.length_filterMap_eq_countP, GameRoom.sessions,
    ← List.countP_eq_length_filter, List.countP_map]
  simp only [destination_isSome]
  rfl

theorem Applied.distinct_iff (applied : Applied new_content safe_area before after) :
    (∀ k k' session session', after.get_session k = some session →
      after.get_session k' = some session' → session.character_id = session'.character_id →
      0 ≤ session.character_id → k = k') ↔
    ∀ k k' session session' name, before.get_session k = some session →
      before.get_session k' = some session' →
      carried new_content before.characters session = some name →
      carried new_content before.characters session' = some name → k = k' := by
  constructor
  · intro single k k' session session' name live live' carries carries'
    obtain ⟨_, i, placed, _⟩ := destination_of_carried carries
    have placed' := (same_destination placed).mpr (carries'.trans carries.symm)
    obtain ⟨s, found, id⟩ := applied.after_iff.mpr ⟨session, live, placed⟩
    obtain ⟨s', found', id'⟩ := applied.after_iff.mpr ⟨session', live', placed'⟩
    exact single k k' s s' found found' (id.trans id'.symm) (by omega)
  · intro distinct k k' s s' found found' same owns
    obtain ⟨c, id⟩ := Int.eq_ofNat_of_zero_le owns
    obtain ⟨session, live, placed⟩ := applied.after_iff.mp ⟨s, found, id⟩
    obtain ⟨session', live', placed'⟩ := applied.after_iff.mp ⟨s', found', same.symm.trans id⟩
    obtain ⟨name, carries, _⟩ := carried_of_destination placed
    exact distinct k k' session session' name live live' carries
      (((same_destination placed).mp placed').trans carries)

theorem Applied.kept_iff (applied : Applied new_content safe_area before after) {k : UInt64}
    {session : ServerSession} {name : Bytes} (live : before.get_session k = some session) :
    (∃ session', after.get_session k = some session' ∧ after.character session' = some name) ↔
      carried new_content before.characters session = some name := by
  have found : after.get_session k = some (reloaded new_content safe_area before session) := by
    rw [applied.session, live]
    rfl
  constructor
  · rintro ⟨session', found', named'⟩
    obtain rfl := Option.some.inj (found.symm.trans found')
    unfold GameRoom.character at named'
    split at named'
    · next owns =>
      obtain ⟨c, id⟩ := Int.eq_ofNat_of_zero_le owns
      have placed := reloaded_id.mp id
      obtain ⟨other, carries, there⟩ := carried_of_destination placed
      rw [carries]
      rw [id, applied.characters] at named'
      exact there.symm.trans named'
    · cases named'
  · intro carries
    obtain ⟨_, i, placed, there⟩ := destination_of_carried carries
    have id : (reloaded new_content safe_area before session).character_id = i := reloaded_id.mpr placed
    refine ⟨_, found, ?_⟩
    rw [GameRoom.character, id, if_pos (by omega), applied.characters]
    exact there

theorem Applied.located_iff (applied : Applied new_content safe_area before after)
    (safe : safe_area ∈ new_content.area_names) :
    (∀ k session, after.get_session k = some session → session.area ∈ new_content.area_names) ↔
    ∀ k session, before.get_session k = some session →
      session.area ∈ new_content.area_names ∨ session.area ∈ before.areas := by
  have settles (session : ServerSession) :
      (reloaded new_content safe_area before session).area ∈ new_content.area_names ↔
      session.area ∈ new_content.area_names ∨ session.area ∈ before.areas := by
    rw [reloaded_area, moved]
    by_cases stays : session.area ∈ new_content.area_names <;>
      by_cases known : session.area ∈ before.areas <;> simp [stays, known, safe]
  constructor
  · intro located k session live
    refine (settles session).mp (located k _ ?_)
    rw [applied.session, live]
    rfl
  · intro located k session' found
    rw [applied.session] at found
    obtain ⟨session, live, rfl⟩ := Option.map_eq_some_iff.mp found
    exact (settles session).mpr (located k session live)

theorem Applied.marked (applied : Applied new_content safe_area before after)
    (single : ∀ k k' session session', after.get_session k = some session →
      after.get_session k' = some session' → session.character_id = session'.character_id →
      0 ≤ session.character_id → k = k') (c : Nat) :
    after.taken c ↔ ∃! k, ∃ session, after.get_session k = some session ∧ session.character_id = c := by
  rw [applied.taken]
  constructor
  · rintro ⟨k, session, live, placed⟩
    obtain ⟨s, found, id⟩ := applied.after_iff.mpr ⟨session, live, placed⟩
    refine ⟨k, ⟨s, found, id⟩, ?_⟩
    rintro k' ⟨s', found', id'⟩
    exact single k' k s' s found' found (id'.trans id.symm) (by omega)
  · rintro ⟨k, owner, _⟩
    exact ⟨k, applied.after_iff.mp owner⟩

theorem Applied.consistent_iff (applied : Applied new_content safe_area before after)
    (safe : safe_area ∈ new_content.area_names) :
    Consistent new_content before after ↔ Reloadable new_content before := by
  have filled : new_content.area_names ≠ [] := List.ne_nil_of_mem safe
  constructor
  · intro consistent
    have distinct := applied.distinct_iff.mp consistent.single
    refine ⟨fun empty => absurd empty filled, distinct, fun k session name live named listed => ?_, ?_,
      (applied.located_iff safe).mp consistent.located⟩
    · exact (applied.kept_iff live).mp (consistent.kept k session name live named listed)
    · rw [← applied.stats, consistent.counted, applied.taken_count distinct]
  · intro reloadable
    have single := applied.distinct_iff.mpr reloadable.distinct
    refine ⟨fun c _ => applied.marked single c, single, fun k session name live named listed => ?_, ?_,
      (applied.located_iff safe).mpr reloadable.located⟩
    · exact (applied.kept_iff live).mpr (reloadable.kept k session name live named listed)
    · rw [applied.stats, reloadable.counted, applied.taken_count reloadable.distinct]

end Reloaded

theorem empty_room {r : GameRoom} (owned : r.Owned) (empty : ∀ k, r.get_session k = none) :
    r.sessions = [] ∧ r.taken_count = 0 := by
  constructor
  · rw [GameRoom.sessions, List.map_eq_nil_iff, List.eq_nil_iff_forall_not_mem]
    intro e member
    exact absurd ((empty e.1).symm.trans ((r.sessions_.lists.mem e.1 e.2).mp member)) nofun
  · rw [GameRoom.taken_count, List.length_eq_zero_iff, List.filter_eq_nil_iff]
    intro c inside mark
    obtain ⟨k, session, live, _⟩ := (owned.marked c (List.mem_range.mp inside)).mp (by simpa using mark)
    exact absurd ((empty k).symm.trans live) nofun

/-- A reload of an owned room leaves it consistent exactly if the room fits the new content. -/
theorem reload_consistent_iff (sha256 : Bytes → Bytes) (room : GameRoom) (new_content : ContentConfig)
    (owned : room.Owned) :
    Consistent new_content room
        (apply_content_changes sha256 room new_content room.characters room.areas).1 ↔
      Reloadable new_content room := by
  cases areas : new_content.area_names with
  | cons safe_area others =>
    exact (reload_applied sha256 room areas).consistent_iff (areas ▸ List.mem_cons_self)
  | nil =>
    have same : (apply_content_changes sha256 room new_content room.characters room.areas).1 = room := by
      rw [apply_content_changes, areas]
    rw [same]
    have lonely (empty : ∀ k, room.get_session k = none) {P : Prop} {k : UInt64}
        {session : ServerSession} (live : room.get_session k = some session) : P :=
      absurd ((empty k).symm.trans live) nofun
    constructor
    · intro consistent
      have empty (k : UInt64) : room.get_session k = none := by
        cases live : room.get_session k with
        | none => rfl
        | some session =>
          have located := consistent.located k session live
          rw [areas] at located
          cases located
      obtain ⟨none_listed, none_taken⟩ := empty_room owned empty
      refine ⟨fun _ => empty, fun _ _ _ _ _ live => lonely empty live,
        fun _ _ _ live => lonely empty live, ?_, fun _ _ live => lonely empty live⟩
      rw [consistent.counted, none_taken, none_listed]
      rfl
    · intro reloadable
      have empty := reloadable.somewhere areas
      obtain ⟨none_listed, none_taken⟩ := empty_room owned empty
      refine ⟨fun c inside => ?_, owned.single, fun _ _ _ live => lonely empty live, ?_,
        fun _ _ live => lonely empty live⟩
      · refine (owned.marked c inside).trans (iff_of_false ?_ ?_)
        · rintro ⟨k, session, live, _⟩
          exact lonely empty live
        · rintro ⟨k, ⟨session, live, _⟩, _⟩
          exact lonely empty live
      · rw [reloadable.counted, none_listed, none_taken]
        rfl

/-- One player, who plays Phoenix in the lobby. -/
def playing : GameRoom where
  characters := [bytes "Phoenix", bytes "Edgeworth"]
  areas := [bytes "Lobby"]
  char_taken := [1, 0]
  sessions_ := SessionMap.empty.set 1 { client_id := 1, area := bytes "Lobby", character_id := 0 }
  stats := { sessions_ao := 1, chars_taken := 1 }

theorem playing_live {k : UInt64} {session : ServerSession}
    (live : playing.get_session k = some session) :
    k = 1 ∧ session = { client_id := 1, area := bytes "Lobby", character_id := 0 } := by
  rw [GameRoom.get_session, playing, SessionMap.find_set, SessionMap.find_empty] at live
  split at live
  · next here => exact ⟨here, (Option.some.inj live).symm⟩
  · cases live

theorem playing_owned : playing.Owned := by
  have live : playing.get_session 1 =
      some { client_id := 1, area := bytes "Lobby", character_id := 0 } := by decide
  constructor
  · intro c inside
    constructor
    · intro mark
      refine ⟨1, _, live, ?_⟩
      have first : c = 0 := by
        have inside : c < 2 := inside
        obtain rfl | rfl : c = 0 ∨ c = 1 := by omega
        · rfl
        · exact absurd mark (by decide)
      rw [first]
      rfl
    · rintro ⟨k, session, found, id⟩
      obtain ⟨_, rfl⟩ := playing_live found
      have first : c = 0 := by simpa using id.symm
      rw [first]
      decide
  · intro k k' session session' found found' _ _
    rw [(playing_live found).1, (playing_live found').1]

/-- The two characters change places, and an area comes in front. -/
def reordered : ContentConfig where
  characters := [bytes "Edgeworth", bytes "Phoenix"]
  area_names := [bytes "Court", bytes "Lobby"]

theorem reordered_consistent : Consistent reordered playing
    (apply_content_changes id playing reordered playing.characters playing.areas).1 := by
  refine (reload_consistent_iff id playing reordered playing_owned).mpr ⟨nofun, ?_, ?_, by decide, ?_⟩
  · intro k k' session session' name live live' _ _
    rw [(playing_live live).1, (playing_live live').1]
  · intro k session name live named listed
    obtain ⟨_, rfl⟩ := playing_live live
    rw [← named]
    decide
  · intro k session live
    obtain ⟨_, rfl⟩ := playing_live live
    exact .inr (by decide)

/-- The player's character goes, and the counter stays. -/
theorem removed_character_still_counted : playing.Owned ∧
    ¬ Consistent { characters := [bytes "Edgeworth"], area_names := [bytes "Lobby"] } playing
      (apply_content_changes id playing
        { characters := [bytes "Edgeworth"], area_names := [bytes "Lobby"] }
        playing.characters playing.areas).1 := by
  refine ⟨playing_owned, fun consistent => ?_⟩
  exact absurd consistent.counted (by decide)

end ConfigReloader

end AoSdl
