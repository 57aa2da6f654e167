import AoSdl.CharacterOwnership

/-! `apply_content_changes` of the configuration reloader: the sessions' areas and characters are
carried into new content lists. The settings of `areas.ini` are those the area states have here. -/
namespace AoSdl
open Lib.Bindings

structure AreaConfig where
  name : Bytes
  background : Bytes := bytes "gs4"

structure ContentConfig where
  characters : List Bytes := []
  music : List Bytes := []
  area_names : List Bytes := []
  area_configs : List AreaConfig := []

structure ReloadResult where
  players_relocated : Nat := 0
  characters_unselected : Nat := 0

namespace ConfigReloader

/-- A room that is being changed, and what is reported. -/
abbrev Reload := GameRoom × ReloadResult

/-- One round of the first loop: everybody leaves one removed area. -/
def relocate (safe_area old_area : Bytes) (s : Reload) : Reload :=
  (s.1.sessions_.for_each.filter fun e => e.2.area = old_area).foldl (fun s e =>
    (s.1.update_session e.1 fun session => { session with area := safe_area },
      { s.2 with players_relocated := s.2.players_relocated + 1 })) s

def relocate_all (new_content : ContentConfig) (safe_area : Bytes) (old_areas : List Bytes)
    (s : Reload) : Reload :=
  old_areas.foldl (fun s old_area =>
    if old_area ∈ new_content.area_names then s else relocate safe_area old_area s) s

/-- Whether a session has a character that is not in the new list. -/
def loses (new_content : ContentConfig) (old_characters : List Bytes) (session : ServerSession) : Bool :=
  !(session.character_id < 0 || intOfSize old_characters.length ≤ session.character_id) &&
    old_characters.getD session.character_id.toNat [] ∉ new_content.characters

def unselect (new_content : ContentConfig) (old_characters : List Bytes) (s : Reload) : Reload :=
  s.1.sessions_.for_each.foldl (fun s e =>
    if loses new_content old_characters e.2 then
      (s.1.update_session e.1 fun session => { session with character_id := -1 },
        { s.2 with characters_unselected := s.2.characters_unselected + 1 })
    else s) s

/-- The state of an area that survives, under its new id. -/
def restore (preserved : List AreaState) (state : AreaState) : AreaState :=
  match preserved.find? (·.name = state.name) with
  | none => state
  | some old => { old with id := state.id, name := state.name }

def configure_area (preserved : List AreaState) (r : GameRoom) (ac : AreaConfig) : GameRoom :=
  if preserved.any (·.name = ac.name) then r
  else r.update_area ac.name fun area =>
    { area with background := { area.background with name := ac.background } }

/-- The lists and their indexes are replaced. -/
def replace_content (sha256 : Bytes → Bytes) (new_content : ContentConfig) (r : GameRoom) : GameRoom :=
  let preserved := r.area_states_.entries.map fun e => e.2
  let r := { r with
    characters := new_content.characters, music := new_content.music, areas := new_content.area_names }
  let r := r.reset_taken.build_area_index sha256
  let r := { r with area_states_ := r.area_states_.keys.foldl (fun states id =>
    match states.lookup id with
    | none => states
    | some state => states.replace id (restore preserved state)) r.area_states_ }
  new_content.area_configs.foldl (configure_area preserved) r

/-- From each name to the last index it has. -/
def new_char_index (characters : List Bytes) : AList (fun _ : Bytes => Nat) :=
  (List.range (intOfSize characters.length).toNat).foldl
    (fun index i => index.insert (characters.getD i []) i) ∅

/-- The new index of a session's character. -/
def new_id (index : AList (fun _ : Bytes => Nat)) (old_characters : List Bytes)
    (session : ServerSession) : Option Nat :=
  if intOfSize old_characters.length ≤ session.character_id then none
  else index.lookup (old_characters.getD session.character_id.toNat [])

def remap_session (index : AList (fun _ : Bytes => Nat)) (old_characters : List Bytes) (r : GameRoom)
    (e : UInt64 × ServerSession) : GameRoom :=
  if e.2.character_id < 0 then r
  else match new_id index old_characters e.2 with
    | none => r.update_session e.1 fun session => { session with character_id := -1 }
    | some i =>
      let r := r.update_session e.1 fun session => { session with character_id := i }
      if (i : Int) < intOfSize r.char_taken.length then
        { r with char_taken := r.char_taken.set i 1 }
      else r

def remap (new_content : ContentConfig) (old_characters : List Bytes) (r : GameRoom) : GameRoom :=
  r.sessions_.for_each.foldl (remap_session (new_char_index new_content.characters) old_characters) r

/-- The backends are told of the marks at the end. -/
def apply_content_changes (sha256 : Bytes → Bytes) (room : GameRoom) (new_content : ContentConfig)
    (old_characters old_areas : List Bytes) : GameRoom × ReloadResult × List RoomEvent :=
  match new_content.area_names with
  | [] => (room, {}, [])
  | safe_area :: _ =>
    let (r, result) := unselect new_content old_characters
      (relocate_all new_content safe_area old_areas (room, {}))
    let r := remap new_content old_characters (replace_content sha256 new_content r)
    (r, result, [.chars_taken r.char_taken])

section Sessions

variable {S : Type} (room : S → GameRoom) {b : S → UInt64 × ServerSession → S}
  {f : ServerSession → ServerSession}

/-- A loop whose round for a session writes just that session. -/
theorem get_session_foldl
    (one : ∀ s e, (room s).get_session e.1 = some e.2 → ∀ q,
      (room (b s e)).get_session q = if q = e.1 then some (f e.2) else (room s).get_session q)
    {l : List (UInt64 × ServerSession)} (nodup : (l.map Prod.fst).Nodup) {s : S}
    (live : ∀ e ∈ l, (room s).get_session e.1 = some e.2) :
    (∀ e ∈ l, (room (l.foldl b s)).get_session e.1 = some (f e.2)) ∧
      ∀ q ∉ l.map Prod.fst, (room (l.foldl b s)).get_session q = (room s).get_session q := by
  induction l generalizing s with
  | nil => exact ⟨nofun, fun _ _ => rfl⟩
  | cons e l ih =>
    obtain ⟨fresh, nodup⟩ := List.nodup_cons.mp nodup
    have written := one s e (live e List.mem_cons_self)
    have apart (d : UInt64 × ServerSession) (member : d ∈ l) : d.1 ≠ e.1 := fun same =>
      fresh (same ▸ List.mem_map_of_mem member)
    have later := ih nodup (s := b s e) fun d member => by
      rw [written, if_neg (apart d member)]
      exact live d (List.mem_cons_of_mem e member)
    refine ⟨fun d member => ?_, fun q outside => ?_⟩
    · rcases List.mem_cons.mp member with rfl | member
      · rw [List.foldl_cons, later.2 d.1 fresh, written, if_pos rfl]
      · exact later.1 d member
    · rw [List.map_cons, List.mem_cons, not_or] at outside
      rw [List.foldl_cons, later.2 q outside.2, written, if_neg outside.1]

theorem get_session_loop
    (one : ∀ s e, (room s).get_session e.1 = some e.2 → ∀ q,
      (room (b s e)).get_session q = if q = e.1 then some (f e.2) else (room s).get_session q)
    (chosen : ServerSession → Bool) (s : S) (q : UInt64) :
    (room (((room s).sessions_.for_each.filter fun e => chosen e.2).foldl b s)).get_session q =
      ((room s).get_session q).map fun session => if chosen session then f session else session := by
  have lists := (room s).sessions_.lists
  have nodup := lists.nodup.sublist ((List.filter_sublist (p := fun e => chosen e.2)).map Prod.fst)
  have looped := get_session_foldl room one nodup (s := s) fun e member =>
    (lists.mem e.1 e.2).mp (List.mem_filter.mp member).1
  cases found : (room s).get_session q with
  | none =>
    refine looped.2 q ?_ |>.trans found
    intro member
    obtain ⟨e, inside, rfl⟩ := List.mem_map.mp member
    have bound := (lists.mem e.1 e.2).mp (List.mem_filter.mp inside).1
    exact absurd (bound.symm.trans found) nofun
  | some session =>
    have listed := (lists.mem q session).mpr found
    cases met : chosen session with
    | true => simpa [met] using looped.1 (q, session) (List.mem_filter.mpr ⟨listed, met⟩)
    | false =>
      refine (looped.2 q ?_).trans (by simp [found, met])
      intro member
      obtain ⟨e, inside, rfl⟩ := List.mem_map.mp member
      obtain ⟨inside, chosen_e⟩ := List.mem_filter.mp inside
      have bound := (lists.mem e.1 e.2).mp inside
      obtain rfl := Option.some.inj (bound.symm.trans found)
      simp [met] at chosen_e

end Sessions

theorem foldl_same {S A T : Type} {P : S → T} {b : S → A → S} (one : ∀ s a, P (b s a) = P s)
    (l : List A) (s : S) : P (l.foldl b s) = P s := by
  induction l generalizing s with
  | nil => rfl
  | cons a l ih => exact (ih (b s a)).trans (one s a)

section Content

variable (new_content : ContentConfig) (old_characters : List Bytes)

/-- A session after the first loop. -/
def moved (safe_area : Bytes) (old_areas : List Bytes) (session : ServerSession) : ServerSession :=
  if session.area ∉ new_content.area_names ∧ session.area ∈ old_areas then
    { session with area := safe_area }
  else session

theorem get_session_relocate (safe_area old_area : Bytes) (s : Reload) (q : UInt64) :
    (relocate safe_area old_area s).1.get_session q = (s.1.get_session q).map fun session =>
      if session.area = old_area then { session with area := safe_area } else session := by
  refine (get_session_loop Prod.fst (fun s e found p => ?_) (·.area = old_area) s q).trans
    (by simp only [decide_eq_true_eq]; rfl)
  rw [GameRoom.get_session_update, found]
  rfl

theorem get_session_relocate_all {safe_area : Bytes} (safe : safe_area ∈ new_content.area_names)
    (old_areas : List Bytes) (s : Reload) (q : UInt64) :
    (relocate_all new_content safe_area old_areas s).1.get_session q =
      (s.1.get_session q).map (moved new_content safe_area old_areas) := by
  unfold relocate_all
  induction old_areas generalizing s with
  | nil =>
    have stays : moved new_content safe_area [] = id := funext fun session => if_neg (by simp)
    rw [stays, Option.map_id]
    rfl
  | cons old_area old_areas ih =>
    rw [List.foldl_cons, ih]
    split
    · next stays =>
      congr 1
      funext session
      unfold moved
      by_cases here : session.area = old_area
      · simp [here, stays]
      · simp [here]
    · next removed =>
      rw [get_session_relocate, Option.map_map]
      congr 1
      funext session
      unfold moved
      by_cases here : session.area = old_area
      · simp [here, safe, removed]
      · simp [here]

/-- A session after the second loop. -/
def unselected (session : ServerSession) : ServerSession :=
  if loses new_content old_characters session then { session with character_id := -1 } else session

theorem get_session_unselect (s : Reload) (q : UInt64) :
    (unselect new_content old_characters s).1.get_session q =
      (s.1.get_session q).map (unselected new_content old_characters) := by
  have looped := get_session_loop (S := Reload) Prod.fst (f := unselected new_content old_characters)
    (b := fun s e => if loses new_content old_characters e.2 then
      (s.1.update_session e.1 fun session => { session with character_id := -1 },
        { s.2 with characters_unselected := s.2.characters_unselected + 1 })
      else s) ?_ (fun _ => true) s q
  · simp only [List.filter_true, if_true] at looped
    exact looped
  · intro s e found p
    unfold unselected
    split
    · rw [GameRoom.get_session_update, found]
      rfl
    · split
      · next here => rw [here, found]
      · rfl

/-- The index goes to a place where the name stands, if there is one within the range. -/
theorem new_char_index_spec (characters : List Bytes) (n : Nat) (name : Bytes) :
    let index := (List.range n).foldl (fun index i => index.insert (characters.getD i []) i)
      (∅ : AList fun _ : Bytes => Nat)
    (∀ i, index.lookup name = some i → i < n ∧ characters.getD i [] = name) ∧
      ((index.lookup name).isSome ↔ ∃ i < n, characters.getD i [] = name) := by
  induction n with
  | zero => simp
  | succ n ih =>
    obtain ⟨right, complete⟩ := ih
    simp only [List.range_succ, List.foldl_concat]
    by_cases here : characters.getD n [] = name
    · rw [here, AList.lookup_insert]
      refine ⟨fun i found => ?_, iff_of_true rfl ⟨n, by omega, here⟩⟩
      obtain rfl := Option.some.inj found
      exact ⟨by omega, here⟩
    · rw [AList.lookup_insert_ne (Ne.symm here)]
      refine ⟨fun i found => ?_, complete.trans ?_⟩
      · have placed := right i found
        exact ⟨by omega, placed.2⟩
      · constructor
        · rintro ⟨i, low, same⟩
          exact ⟨i, by omega, same⟩
        · rintro ⟨i, low, same⟩
          have apart : i ≠ n := by rintro rfl; exact here same
          exact ⟨i, by omega, same⟩

/-- The names whose index fits an `int`. -/
def indexed (characters : List Bytes) : List Bytes := characters.take (intOfSize characters.length).toNat

theorem lookup_index {characters : List Bytes} {name : Bytes} {i : Nat}
    (found : (new_char_index characters).lookup name = some i) :
    (i : Int) < intOfSize characters.length ∧ i < characters.length ∧ characters[i]? = some name := by
  obtain ⟨low, same⟩ := (new_char_index_spec characters _ name).1 i found
  have bound := intOfSize_le characters.length
  have inside : i < characters.length := by omega
  refine ⟨by omega, inside, ?_⟩
  rw [List.getD_eq_getElem?_getD, List.getElem?_eq_getElem inside] at same
  rw [List.getElem?_eq_getElem inside]
  exact congrArg some same

theorem index_isSome {characters : List Bytes} {name : Bytes} :
    ((new_char_index characters).lookup name).isSome ↔ name ∈ indexed characters := by
  refine (new_char_index_spec characters _ name).2.trans ?_
  have bound := intOfSize_le characters.length
  rw [indexed, List.mem_iff_getElem?]
  constructor
  · rintro ⟨i, low, same⟩
    refine ⟨i, ?_⟩
    have inside : i < characters.length := by omega
    rw [List.getElem?_take_of_lt low, List.getElem?_eq_getElem inside]
    rw [List.getD_eq_getElem?_getD, List.getElem?_eq_getElem inside] at same
    exact congrArg some same
  · rintro ⟨i, found⟩
    rw [List.getElem?_take] at found
    split at found
    · next low => exact ⟨i, low, by rw [List.getD_eq_getElem?_getD, found]; rfl⟩
    · cases found

/-- Where the last loop takes a session's character. -/
def destination (session : ServerSession) : Option Nat :=
  if session.character_id < 0 then none
  else new_id (new_char_index new_content.characters) old_characters session

theorem destination_eq_some {session : ServerSession} {i : Nat} :
    destination new_content old_characters session = some i ↔
      (0 ≤ session.character_id ∧ session.character_id < intOfSize old_characters.length) ∧
      (new_char_index new_content.characters).lookup
        (old_characters.getD session.character_id.toNat []) = some i := by
  rw [destination, new_id]
  split
  · exact iff_of_false nofun fun placed => by omega
  split
  · exact iff_of_false nofun fun placed => by omega
  · exact (and_iff_right ⟨by omega, by omega⟩).symm

/-- A session after the last loop. -/
def remapped (session : ServerSession) : ServerSession :=
  if session.character_id < 0 then session
  else match destination new_content old_characters session with
    | none => { session with character_id := -1 }
    | some i => { session with character_id := i }

/-- What a round of the last loop does to its session and to the marks. -/
structure Round (r r' : GameRoom) (e : UInt64 × ServerSession) : Prop where
  session : ∀ q, r'.get_session q = if q = e.1 then
    (r.get_session e.1).map fun session =>
      { session with character_id := (remapped new_content old_characters e.2).character_id }
    else r.get_session q
  length : r'.char_taken.length = r.char_taken.length
  marks : (∀ i, destination new_content old_characters e.2 = some i →
      (i : Int) < intOfSize r.char_taken.length ∧ i < r.char_taken.length) →
    ∀ c, r'.taken c ↔ r.taken c ∨ destination new_content old_characters e.2 = some c

theorem round (r : GameRoom) (e : UInt64 × ServerSession) (found : r.get_session e.1 = some e.2) :
    Round new_content old_characters r
      (remap_session (new_char_index new_content.characters) old_characters r e) e := by
  by_cases spectator : e.2.character_id < 0
  · have aimless : destination new_content old_characters e.2 = none := if_pos spectator
    rw [remap_session, if_pos spectator]
    refine ⟨fun q => ?_, rfl, fun _ c => by simp [aimless]⟩
    rw [remapped, if_pos spectator, found]
    split
    · next here => rw [here, found]; rfl
    · rfl
  · cases placed : destination new_content old_characters e.2 with
    | none =>
      have known : new_id (new_char_index new_content.characters) old_characters e.2 = none :=
        (if_neg spectator).symm.trans placed
      rw [remap_session, if_neg spectator, known]
      refine ⟨fun q => ?_, rfl, fun _ c => by simp [GameRoom.taken, GameRoom.update_session, placed]⟩
      rw [GameRoom.get_session_update, remapped, if_neg spectator, placed]
    | some i =>
      have known : new_id (new_char_index new_content.characters) old_characters e.2 = some i :=
        (if_neg spectator).symm.trans placed
      have written := GameRoom.get_session_update r e.1
      rw [remap_session, if_neg spectator, known]
      dsimp only
      split
      · refine ⟨fun q => ?_, List.length_set, fun fits c => ?_⟩
        · rw [remapped, if_neg spectator, placed]
          exact written q _
        · have inside := (fits i placed).2
          simp only [GameRoom.taken, GameRoom.update_session, placed, Option.some.injEq]
          by_cases same : i = c
          · subst same
            simp [inside]
          · simp [same]
      · next large =>
        refine ⟨fun q => ?_, rfl, fun fits => absurd (fits i placed).1 large⟩
        rw [remapped, if_neg spectator, placed]
        exact written q _

theorem get_session_remap (r : GameRoom) (q : UInt64) :
    (remap new_content old_characters r).get_session q =
      (r.get_session q).map (remapped new_content old_characters) := by
  have looped := get_session_loop (S := GameRoom) (fun r => r) (f := remapped new_content old_characters)
    (b := remap_session (new_char_index new_content.characters) old_characters) ?_
    (fun _ => true) r q
  · simp only [List.filter_true, if_true] at looped
    exact looped
  · intro r e found p
    rw [(round new_content old_characters r e found).session, found]
    have alike : { e.2 with character_id := (remapped new_content old_characters e.2).character_id } =
        remapped new_content old_characters e.2 := by
      unfold remapped
      split
      · rfl
      · split <;> rfl
    rw [Option.map_some, alike]

/-- The marks after the last loop, where every destination fits. -/
theorem taken_foldl {l : List (UInt64 × ServerSession)} (nodup : (l.map Prod.fst).Nodup) {r : GameRoom}
    (live : ∀ e ∈ l, r.get_session e.1 = some e.2)
    (fits : ∀ e ∈ l, ∀ i, destination new_content old_characters e.2 = some i →
      (i : Int) < intOfSize r.char_taken.length ∧ i < r.char_taken.length) (c : Nat) :
    (l.foldl (remap_session (new_char_index new_content.characters) old_characters) r).taken c ↔
      r.taken c ∨ ∃ e ∈ l, destination new_content old_characters e.2 = some c := by
  induction l generalizing r with
  | nil => simp
  | cons e l ih =>
    obtain ⟨fresh, nodup⟩ := List.nodup_cons.mp nodup
    have first := round new_content old_characters r e (live e List.mem_cons_self)
    have marks := first.marks (fits e List.mem_cons_self) c
    rw [List.foldl_cons, ih nodup, marks]
    · simp only [List.mem_cons, exists_eq_or_imp, or_assoc]
    · intro d member
      have apart : d.1 ≠ e.1 := fun same => fresh (same ▸ List.mem_map_of_mem member)
      rw [first.session, if_neg apart]
      exact live d (List.mem_cons_of_mem e member)
    · intro d member i placed
      rw [first.length]
      exact fits d (List.mem_cons_of_mem e member) i placed

theorem destination_fits {session : ServerSession} {i : Nat}
    (placed : destination new_content old_characters session = some i) :
    (i : Int) < intOfSize new_content.characters.length ∧ i < new_content.characters.length := by
  have found := lookup_index ((destination_eq_some new_content old_characters).mp placed).2
  exact ⟨found.1, found.2.1⟩

theorem taken_remap {r : GameRoom} (sized : r.char_taken = List.replicate new_content.characters.length 0)
    (c : Nat) : (remap new_content old_characters r).taken c ↔
      ∃ k session, r.get_session k = some session ∧
        destination new_content old_characters session = some c := by
  have lists := r.sessions_.lists
  have marks := taken_foldl new_content old_characters lists.nodup (r := r)
    (fun e member => (lists.mem e.1 e.2).mp member) (fun e _ i placed => by
      rw [sized, List.length_replicate]
      exact destination_fits new_content old_characters placed) c
  have unmarked : ¬ r.taken c := by
    unfold GameRoom.taken
    rw [sized]
    simp [List.getD_eq_getElem?_getD, List.getElem?_replicate]
    split <;> simp
  refine marks.trans ((or_iff_right unmarked).trans ?_)
  constructor
  · rintro ⟨e, member, placed⟩
    exact ⟨e.1, e.2, (lists.mem e.1 e.2).mp member, placed⟩
  · rintro ⟨k, session, live, placed⟩
    exact ⟨(k, session), (lists.mem k session).mpr live, placed⟩

end Content

section Frames

variable (new_content : ContentConfig) (old_characters : List Bytes)

theorem stats_relocate_all (safe_area : Bytes) (old_areas : List Bytes) (s : Reload) :
    (relocate_all new_content safe_area old_areas s).1.stats = s.1.stats := by
  have left (old_area : Bytes) (s : Reload) : (relocate safe_area old_area s).1.stats = s.1.stats := by
    unfold relocate
    refine foldl_same (P := fun s : Reload => s.1.stats) (fun s e => ?_) _ s
    rfl
  refine foldl_same (P := fun s : Reload => s.1.stats) (fun s old_area => ?_) old_areas s
  split
  · rfl
  · exact left old_area s

theorem stats_unselect (s : Reload) : (unselect new_content old_characters s).1.stats = s.1.stats := by
  refine foldl_same (P := fun s : Reload => s.1.stats) (fun s e => ?_) _ s
  dsimp only
  split <;> rfl

theorem frame_remap_session (index : AList fun _ : Bytes => Nat) (r : GameRoom)
    (e : UInt64 × ServerSession) : let r' := remap_session index old_characters r e
    (r'.stats, r'.characters, r'.areas) = (r.stats, r.characters, r.areas) := by
  by_cases spectator : e.2.character_id < 0
  · rw [remap_session, if_pos spectator]
  · cases known : new_id index old_characters e.2 with
    | none =>
      rw [remap_session, if_neg spectator, known]
      rfl
    | some i =>
      rw [remap_session, if_neg spectator, known]
      dsimp only
      split <;> rfl

theorem frame_remap (r : GameRoom) : let r' := remap new_content old_characters r
    (r'.stats, r'.characters, r'.areas) = (r.stats, r.characters, r.areas) := by
  unfold remap
  generalize new_char_index new_content.characters = index
  exact foldl_same (P := fun r : GameRoom => (r.stats, r.characters, r.areas))
    (frame_remap_session old_characters index) r.sessions_.for_each r

/-- The parts of a room that the area indexes are not. -/
def core (r : GameRoom) : SessionMap × List Int × RoomStats × List Bytes × List Bytes :=
  (r.sessions_, r.char_taken, r.stats, r.characters, r.areas)

theorem core_update_area (r : GameRoom) (area : Bytes) (f : AreaState → AreaState) :
    core (r.update_area area f) = core r := by
  unfold GameRoom.update_area
  split
  · rfl
  · split <;> rfl

theorem core_replace (sha256 : Bytes → Bytes) (r : GameRoom) :
    core (replace_content sha256 new_content r) =
      (r.sessions_, List.replicate new_content.characters.length 0, r.stats, new_content.characters,
        new_content.area_names) := by
  have configured (preserved : List AreaState) (r : GameRoom) :
      core (new_content.area_configs.foldl (configure_area preserved) r) = core r := by
    refine foldl_same (fun r ac => ?_) _ r
    unfold configure_area
    split
    · rfl
    · exact core_update_area _ _ _
  have built (r : GameRoom) : core (r.build_area_index sha256) = core r := by
    unfold GameRoom.build_area_index
    refine (foldl_same (P := core) (fun r e => ?_) _ _).trans ?_
    · rfl
    · rfl
  unfold replace_content
  dsimp only
  rw [configured]
  have indexed := built (GameRoom.reset_taken { r with
    characters := new_content.characters, music := new_content.music, areas := new_content.area_names })
  exact indexed

end Frames

end ConfigReloader

end AoSdl
