import AoSdl.AreaState
import AoSdl.PersistentMap
import Mathlib.Data.List.AList

/-! `GameRoom`: the session registry, the character roster and the events handed to the
protocol backends. A session reached through its shared pointer is changed in place, which
here is a write of the changed record under the same key. `std::hash<std::string>` is a
parameter. -/
namespace AoSdl

structure ServerSession where
  client_id : UInt64 := 0
  session_id : UInt64 := 0
  session_token : Bytes := []
  display_name : Bytes := []
  client_software : Bytes := []
  character_id : Int := -1
  area : Bytes := []
  ipid : Bytes := []
  ip_address : Bytes := []
  hardware_id : Bytes := []
  password : Bytes := []
  casing_preferences : List Bool := []
  joined : Bool := false
  moderator : Bool := false
  acl_role : Bytes := []
  auth_token_id : Bytes := []
  moderator_name : Bytes := []
  change_auth_started : Bool := false
  login_failures : Int := 0
  protocol : Bytes := []
  deriving DecidableEq

structure ICAction where
  sender_id : UInt64 := 0
  character : Bytes := []
  emote : Bytes := []
  message : Bytes := []
  side : Bytes := []
  showname : Bytes := []
  pre_emote : Bytes := []
  emote_mod : Int := 0
  char_id : Int := 0
  desk_mod : Int := 0
  flip : Bool := false
  text_color : Int := 0
  objection_mod : Int := 0
  evidence_id : Int := 0
  realization : Bool := false
  screenshake : Bool := false
  additive : Bool := false
  immediate : Bool := false
  sfx_name : Bytes := []
  sfx_delay : Int := 0
  sfx_looping : Bool := false
  frame_screenshake : Bytes := []
  frame_realization : Bytes := []
  frame_sfx : Bytes := []
  effects : Bytes := []
  other_charid : Int := -1
  self_offset : Bytes := []
  blipname : Bytes := []
  slide : Bool := false

structure OOCAction where
  sender_id : UInt64 := 0
  name : Bytes := []
  message : Bytes := []

structure CharSelectAction where
  sender_id : UInt64 := 0
  character_id : Int := -1

structure MusicAction where
  sender_id : UInt64 := 0
  track : Bytes := []
  showname : Bytes := []
  channel : Int := 0
  looping : Bool := false

/-- A call of the broadcast delegates. -/
inductive RoomEvent where
  | ic (area : Bytes) (action : ICAction)
  | ooc (area : Bytes) (action : OOCAction)
  | char_select (client_id : UInt64) (character_id : Int) (character_name : Bytes)
  | music (area : Bytes) (action : MusicAction)
  | chars_taken (taken : List Int)

/-- `std::hash` of an integer is the integer. -/
def hash_uint64 (k : UInt64) : BitVec 64 := k.toBitVec

theorem hash_uint64_injective : Function.Injective hash_uint64 := fun _ _ => UInt64.toBitVec_inj.mp

/-- `PersistentMap<uint64_t, SessionPtr>` together with its invariant. -/
structure SessionMap where
  map : PersistentMap UInt64 ServerSession 64
  valid : map.Valid hash_uint64

namespace SessionMap

theorem separate (m : SessionMap) (k : UInt64) (s : ServerSession) :
    PersistentMap.Separate hash_uint64 (m.map.find hash_uint64) (.set k s) :=
  fun _ _ same => hash_uint64_injective same

def empty : SessionMap := ⟨{}, PersistentMap.valid_empty⟩

def find (m : SessionMap) (k : UInt64) : Option ServerSession := m.map.find hash_uint64 k

def set (m : SessionMap) (k : UInt64) (s : ServerSession) : SessionMap :=
  ⟨m.map.set hash_uint64 k s, (PersistentMap.set_spec m.valid k s (m.separate k s)).1⟩

def erase (m : SessionMap) (k : UInt64) : SessionMap :=
  ⟨m.map.erase hash_uint64 k, (PersistentMap.erase_spec m.valid k).1⟩

def size (m : SessionMap) : Nat := m.map.size

def for_each (m : SessionMap) : List (UInt64 × ServerSession) := m.map.for_each

/-- An assignment through the pointer `find` returns. -/
def modify (m : SessionMap) (k : UInt64) (f : ServerSession → ServerSession) : SessionMap :=
  match m.find k with
  | none => m
  | some s => m.set k (f s)

theorem lists (m : SessionMap) : Lib.Bindings.Lists m.find m.for_each := m.valid.lists

@[simp] theorem find_empty (k : UInt64) : empty.find k = none :=
  PersistentMap.find_impl_eq hash_uint64 _ 0 none k

@[simp] theorem find_set (m : SessionMap) (k q : UInt64) (s : ServerSession) :
    (m.set k s).find q = if q = k then some s else m.find q := by
  have spec := (PersistentMap.set_spec m.valid k s (m.separate k s)).2
  exact (congrFun spec q).trans (Function.update_apply _ _ _ _)

@[simp] theorem find_erase (m : SessionMap) (k q : UInt64) :
    (m.erase k).find q = if q = k then none else m.find q := by
  have spec := (PersistentMap.erase_spec m.valid k).2
  exact (congrFun spec q).trans (Function.update_apply _ _ _ _)

@[simp] theorem find_modify (m : SessionMap) (k q : UInt64) (f : ServerSession → ServerSession) :
    (m.modify k f).find q = if q = k then (m.find k).map f else m.find q := by
  unfold modify
  cases found : m.find k with
  | none =>
    by_cases same : q = k
    · simp [same, found]
    · simp [same]
  | some s => simp

end SessionMap

structure RoomStats where
  sessions_ao : Int := 0
  sessions_nx : Int := 0
  joined : Int := 0
  moderators : Int := 0
  chars_taken : Int := 0

structure GameRoom where
  characters : List Bytes := []
  music : List Bytes := []
  areas : List Bytes := []
  server_name : Bytes := []
  server_description : Bytes := []
  max_players : Int := 100
  asset_url : Bytes := []
  max_ic_message_length : Int := 256
  max_ooc_message_length : Int := 256
  char_taken : List Int := []
  sessions_ : SessionMap := .empty
  token_index_ : PersistentMap Bytes UInt64 64 := {}
  next_session_id_ : UInt64 := 0
  area_states_ : AList (fun _ : Bytes => AreaState) := ∅
  area_name_to_id_ : AList (fun _ : Bytes => Bytes) := ∅
  area_name_to_index_ : AList (fun _ : Bytes => Int) := ∅
  stats : RoomStats := {}

namespace GameRoom

variable (strHash : Bytes → BitVec 64)

def reset_taken (r : GameRoom) : GameRoom :=
  { r with char_taken := List.replicate r.characters.length 0 }

def countSession (s : RoomStats) (protocol : Bytes) (n : Int) : RoomStats :=
  if protocol = bytes "ao2" then { s with sessions_ao := s.sessions_ao + n }
  else { s with sessions_nx := s.sessions_nx + n }

def create_session (r : GameRoom) (client_id : UInt64) (protocol : Bytes) : GameRoom :=
  let session : ServerSession :=
    { client_id, protocol, area := r.areas.headD [], session_id := r.next_session_id_ }
  { r with
    sessions_ := r.sessions_.set client_id session
    next_session_id_ := r.next_session_id_ + 1
    stats := countSession r.stats protocol 1 }

def create_session_with_token (r : GameRoom) (client_id : UInt64) (protocol token : Bytes) :
    GameRoom :=
  let session : ServerSession :=
    { client_id, protocol, session_token := token, area := r.areas.headD []
      session_id := r.next_session_id_ }
  { r with
    sessions_ := r.sessions_.set client_id session
    next_session_id_ := r.next_session_id_ + 1
    token_index_ :=
      if token.isEmpty then r.token_index_ else r.token_index_.set strHash token client_id
    stats := countSession r.stats protocol 1 }

/-- `char_taken[c] = 0` where the old character is in range, with its counter. -/
def release (r : GameRoom) (c : Int) : GameRoom :=
  if 0 ≤ c && c < intOfSize r.char_taken.length then
    { r with
      char_taken := r.char_taken.set c.toNat 0
      stats := { r.stats with chars_taken := r.stats.chars_taken - 1 } }
  else r

def destroy_session (r : GameRoom) (client_id : UInt64) : GameRoom :=
  match r.sessions_.find client_id with
  | none => r
  | some session =>
    let stats := countSession r.stats session.protocol (-1)
    let stats := if session.joined then { stats with joined := stats.joined - 1 } else stats
    let stats :=
      if session.moderator then { stats with moderators := stats.moderators - 1 } else stats
    let r := release { r with stats } session.character_id
    { r with
      token_index_ := if session.session_token.isEmpty then r.token_index_
        else r.token_index_.erase strHash session.session_token
      sessions_ := r.sessions_.erase client_id }

def get_session (r : GameRoom) (client_id : UInt64) : Option ServerSession :=
  r.sessions_.find client_id

def session_count (r : GameRoom) : Nat := r.sessions_.size

def register_session_token (r : GameRoom) (token : Bytes) (client_id : UInt64) : GameRoom :=
  if token.isEmpty then r
  else { r with token_index_ := r.token_index_.set strHash token client_id }

def find_session_by_token (r : GameRoom) (token : Bytes) : Option ServerSession := do
  let cid ← r.token_index_.find strHash token
  r.sessions_.find cid

def build_area_index (sha256 : Bytes → Bytes) (r : GameRoom) : GameRoom :=
  r.areas.zipIdx.foldl (fun r (name, i) =>
      let id := sha256 (bytes "area:" ++ name)
      { r with
        area_name_to_id_ := r.area_name_to_id_.insert name id
        area_name_to_index_ := r.area_name_to_index_.insert name i
        area_states_ := if id ∈ r.area_states_ then r.area_states_
          else r.area_states_.insert id { id, name } })
    { r with area_states_ := ∅, area_name_to_id_ := ∅, area_name_to_index_ := ∅ }

def find_area (r : GameRoom) (area_id : Bytes) : Option AreaState :=
  r.area_states_.lookup area_id

def find_area_by_name (r : GameRoom) (area_name : Bytes) : Option AreaState := do
  let area_id ← r.area_name_to_id_.lookup area_name
  r.find_area area_id

def area_index (r : GameRoom) (area_name : Bytes) : Int :=
  (r.area_name_to_index_.lookup area_name).getD (-1)

/-- An assignment through the pointer `find_area_by_name` returns. -/
def update_area (r : GameRoom) (area_name : Bytes) (f : AreaState → AreaState) : GameRoom :=
  match r.area_name_to_id_.lookup area_name with
  | none => r
  | some area_id =>
    match r.area_states_.lookup area_id with
    | none => r
    | some area => { r with area_states_ := r.area_states_.replace area_id (f area) }

/-- The sessions in the order `for_each_session` visits them. -/
def sessions (r : GameRoom) : List ServerSession := r.sessions_.for_each.map Prod.snd

def sessions_in_area (r : GameRoom) (area : Bytes) : List ServerSession :=
  r.sessions.filter (·.area = area)

def update_session (r : GameRoom) (client_id : UInt64) (f : ServerSession → ServerSession) :
    GameRoom :=
  { r with sessions_ := r.sessions_.modify client_id f }

def handle_ic (r : GameRoom) (action : ICAction) : List RoomEvent :=
  match r.get_session action.sender_id with
  | none => []
  | some session => if session.joined then [.ic session.area action] else []

def handle_ooc (r : GameRoom) (action : OOCAction) : List RoomEvent :=
  match r.get_session action.sender_id with
  | none => []
  | some session => if session.joined then [.ooc session.area action] else []

def handle_music (r : GameRoom) (action : MusicAction) : List RoomEvent :=
  match r.get_session action.sender_id with
  | none => []
  | some session => if session.joined then [.music session.area action] else []

/-- `char_taken[c] = 1` with its counter, unless the request is to spectate. -/
def take (r : GameRoom) (c : Int) : GameRoom :=
  if 0 ≤ c then
    { r with
      char_taken := r.char_taken.set c.toNat 1
      stats := { r.stats with chars_taken := r.stats.chars_taken + 1 } }
  else r

/-- Whether the selection is accepted, the room after it, and the events it emits. The
previous character is released before the requested one is looked at. -/
def handle_char_select (r : GameRoom) (action : CharSelectAction) :
    Bool × GameRoom × List RoomEvent :=
  match r.get_session action.sender_id with
  | none => (false, r, [])
  | some session =>
    let requested := action.character_id
    if requested < -1 || intOfSize r.characters.length ≤ requested then (false, r, [])
    else
      let r := r.release session.character_id
      if 0 ≤ requested && r.char_taken.getD requested.toNat 0 ≠ 0 then (false, r, [])
      else
        let name := if 0 ≤ requested then r.characters.getD requested.toNat []
          else session.display_name
        let r := (r.take requested).update_session action.sender_id fun s =>
          { s with character_id := requested, display_name := name }
        (true, r, [.char_select action.sender_id requested name, .chars_taken r.char_taken])

@[simp] theorem get_session_create (r : GameRoom) (k q : UInt64) (protocol : Bytes) :
    (r.create_session k protocol).get_session q =
      if q = k then
        some { client_id := k, protocol, area := r.areas.headD [], session_id := r.next_session_id_ }
      else r.get_session q := SessionMap.find_set _ _ _ _

@[simp] theorem get_session_create_with_token (r : GameRoom) (k q : UInt64) (protocol token : Bytes) :
    (r.create_session_with_token strHash k protocol token).get_session q =
      if q = k then
        some { client_id := k, protocol, session_token := token, area := r.areas.headD []
               session_id := r.next_session_id_ }
      else r.get_session q := SessionMap.find_set _ _ _ _

@[simp] theorem get_session_update (r : GameRoom) (k q : UInt64) (f : ServerSession → ServerSession) :
    (r.update_session k f).get_session q =
      if q = k then (r.get_session k).map f else r.get_session q := SessionMap.find_modify _ _ _ _

@[simp] theorem get_session_release (r : GameRoom) (c : Int) (q : UInt64) :
    (r.release c).get_session q = r.get_session q := by
  unfold release
  split <;> rfl

@[simp] theorem get_session_destroy (r : GameRoom) (k q : UInt64) :
    (r.destroy_session strHash k).get_session q = if q = k then none else r.get_session q := by
  unfold destroy_session
  split
  · next missing =>
    split
    · next same => rw [same]; exact missing
    · rfl
  · rw [get_session, SessionMap.find_erase]
    split
    · rfl
    · exact get_session_release _ _ _

end GameRoom

end AoSdl
