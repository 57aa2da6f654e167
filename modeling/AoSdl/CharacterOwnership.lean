import AoSdl.GameRoom
import AoSdl.Lib.Ownership
import AoSdl.Lib.Runs

/-! Who owns which character. `char_taken` and the `character_id` of the sessions say the
same until a session that owns a character asks for one that is taken, or is replaced by a
new session of the same client. -/
namespace AoSdl
open Lib.Ownership Lib.Runs

namespace GameRoom

/-- The character a client owns through its live session. -/
def own (r : GameRoom) (k : UInt64) : Option Nat :=
  (r.sessions_.find k).bind fun s => if 0 ≤ s.character_id then some s.character_id.toNat else none

def taken (r : GameRoom) (c : Nat) : Prop := r.char_taken.getD c 0 ≠ 0

/-- Every character is marked exactly if a live session has it, and no two have one. -/
structure Owned (r : GameRoom) : Prop where
  marked : ∀ c < r.characters.length, r.char_taken.getD c 0 ≠ 0 ↔
    ∃ k s, r.sessions_.find k = some s ∧ s.character_id = c
  single : ∀ k k' s s', r.sessions_.find k = some s → r.sessions_.find k' = some s' →
    s.character_id = s'.character_id → 0 ≤ s.character_id → k = k'

/-- Marks and character ids stay in range. -/
structure Shaped (r : GameRoom) : Prop where
  marks : r.char_taken.length = r.characters.length
  ids : ∀ k s, r.sessions_.find k = some s →
    s.character_id = -1 ∨ (0 ≤ s.character_id ∧ s.character_id < intOfSize r.characters.length)

inductive RoomOp where
  | create_session (client_id : UInt64) (protocol : Bytes)
  | create_session_with_token (client_id : UInt64) (protocol token : Bytes)
  | char_select (action : CharSelectAction)
  | destroy_session (client_id : UInt64)

def roomStep (strHash : Bytes → BitVec 64) (r : GameRoom) : RoomOp → GameRoom
  | .create_session client_id protocol => r.create_session client_id protocol
  | .create_session_with_token client_id protocol token =>
    r.create_session_with_token strHash client_id protocol token
  | .char_select action => (r.handle_char_select action).2.1
  | .destroy_session client_id => r.destroy_session strHash client_id

/-- The inputs after which marks and owners still agree. -/
def Keeps (r : GameRoom) : RoomOp → Prop
  | .create_session client_id _ => r.own client_id = none
  | .create_session_with_token client_id _ _ => r.own client_id = none
  | .char_select action => ∀ c, r.own action.sender_id = some c → 0 ≤ action.character_id →
      action.character_id < intOfSize r.characters.length → action.character_id ≠ c →
      ¬ r.taken action.character_id.toNat
  | .destroy_session _ => True

theorem own_eq_some {r : GameRoom} {k : UInt64} {c : Nat} :
    r.own k = some c ↔ ∃ s, r.sessions_.find k = some s ∧ s.character_id = c := by
  unfold own
  cases r.sessions_.find k with
  | none => simp
  | some s =>
    by_cases owns : 0 ≤ s.character_id
    · simp [owns]
      omega
    · simp [owns]
      omega

theorem Shaped.own_lt {r : GameRoom} (shaped : Shaped r) {k : UInt64} {c : Nat}
    (owns : r.own k = some c) : c < intOfSize r.characters.length ∧ c < r.characters.length := by
  obtain ⟨s, found, id⟩ := own_eq_some.mp owns
  have bound := intOfSize_le r.characters.length
  rcases shaped.ids k s found with spectator | ⟨_, high⟩ <;> omega

theorem Shaped.taken_lt {r : GameRoom} (shaped : Shaped r) {c : Nat} (mark : r.taken c) :
    c < r.characters.length := by
  by_contra outside
  refine mark ?_
  rw [List.getD_eq_getElem?_getD, List.getElem?_eq_none (by rw [shaped.marks]; omega)]
  rfl

theorem Shaped.owned_iff {r : GameRoom} (shaped : Shaped r) :
    r.Owned ↔ Exclusive r.taken r.own := by
  constructor
  · rintro ⟨marked, single⟩
    constructor
    · intro c
      by_cases inside : c < r.characters.length
      · exact (marked c inside).trans (exists_congr fun k => own_eq_some.symm)
      · refine iff_of_false (fun mark => inside (shaped.taken_lt mark)) ?_
        rintro ⟨k, owns⟩
        exact inside (shaped.own_lt owns).2
    · intro k k' c owns owns'
      obtain ⟨s, found, id⟩ := own_eq_some.mp owns
      obtain ⟨s', found', id'⟩ := own_eq_some.mp owns'
      exact single k k' s s' found found' (id.trans id'.symm) (by omega)
  · rintro ⟨marked, single⟩
    constructor
    · intro c _
      exact (marked c).trans (exists_congr fun k => own_eq_some)
    · intro k k' s s' found found' same owns
      obtain ⟨c, id⟩ := Int.eq_ofNat_of_zero_le owns
      exact single k k' c (own_eq_some.mpr ⟨s, found, id⟩)
        (own_eq_some.mpr ⟨s', found', same.symm.trans id⟩)

/-- The character a character id stands for. -/
def choice (id : Int) : Option Nat := if 0 ≤ id then some id.toNat else none

theorem own_set (r : GameRoom) (k : UInt64) (s : ServerSession) :
    own { r with sessions_ := r.sessions_.set k s } = Function.update r.own k (choice s.character_id) := by
  funext q
  by_cases same : q = k
  · subst q
    simp [own, choice]
  · simp [own, same]

theorem own_erase (r : GameRoom) (k : UInt64) :
    own { r with sessions_ := r.sessions_.erase k } = Function.update r.own k none := by
  funext q
  by_cases same : q = k
  · subst q
    simp [own]
  · simp [own, same]

theorem own_of_found {r : GameRoom} {k : UInt64} {s : ServerSession}
    (found : r.sessions_.find k = some s) : r.own k = choice s.character_id := by
  simp [own, found, choice]

theorem own_of_missing {r : GameRoom} {k : UInt64} (missing : r.sessions_.find k = none) :
    r.own k = none := by
  simp [own, missing]

@[simp] theorem release_sessions (r : GameRoom) (c : Int) : (r.release c).sessions_ = r.sessions_ := by
  unfold release
  split <;> rfl

@[simp] theorem release_characters (r : GameRoom) (c : Int) :
    (r.release c).characters = r.characters := by
  unfold release
  split <;> rfl

@[simp] theorem take_sessions (r : GameRoom) (c : Int) : (r.take c).sessions_ = r.sessions_ := by
  unfold take
  split <;> rfl

@[simp] theorem take_characters (r : GameRoom) (c : Int) : (r.take c).characters = r.characters := by
  unfold take
  split <;> rfl

@[simp] theorem release_length (r : GameRoom) (c : Int) :
    (r.release c).char_taken.length = r.char_taken.length := by
  unfold release
  split <;> simp

@[simp] theorem take_length (r : GameRoom) (c : Int) :
    (r.take c).char_taken.length = r.char_taken.length := by
  unfold take
  split <;> simp

theorem getD_set_zero (l : List Int) (i x : Nat) : (l.set i 0).getD x 0 ≠ 0 ↔ l.getD x 0 ≠ 0 ∧ i ≠ x := by
  by_cases same : i = x
  · subst x
    rw [List.getD_eq_getElem?_getD, List.getElem?_set_self']
    cases l[i]? <;> simp
  · simp [same]

theorem Shaped.taken_release {r : GameRoom} (shaped : Shaped r) {k : UInt64} {s : ServerSession}
    (found : r.sessions_.find k = some s) (x : Nat) :
    (r.release s.character_id).taken x ↔ r.taken x ∧ r.own k ≠ some x := by
  rw [own_of_found found]
  unfold release taken choice
  rcases shaped.ids k s found with spectator | ⟨low, high⟩
  · simp [spectator]
  · simp only [shaped.marks, low, high, decide_true, Bool.and_self, if_true]
    rw [getD_set_zero]
    simp

theorem taken_take {r : GameRoom} {c : Int} (inside : c < r.char_taken.length) (x : Nat) :
    (r.take c).taken x ↔ choice c = some x ∨ r.taken x := by
  unfold take taken choice
  by_cases low : 0 ≤ c
  · have bound : c.toNat < r.char_taken.length := by omega
    by_cases same : c.toNat = x
    · subst x
      simp [low, bound]
    · simp [low, same]
  · simp [low]

theorem char_select_cases (r : GameRoom) (action : CharSelectAction) :
    ((r.handle_char_select action).2.1 = r ∧ (r.get_session action.sender_id = none ∨
      action.character_id < -1 ∨ intOfSize r.characters.length ≤ action.character_id)) ∨
    ∃ s, r.sessions_.find action.sender_id = some s ∧ -1 ≤ action.character_id ∧
      action.character_id < intOfSize r.characters.length ∧
      ((0 ≤ action.character_id ∧ (r.release s.character_id).taken action.character_id.toNat ∧
          (r.handle_char_select action).2.1 = r.release s.character_id) ∨
        (¬ (0 ≤ action.character_id ∧
            (r.release s.character_id).taken action.character_id.toNat) ∧
          ∃ name, (r.handle_char_select action).2.1 =
            ((r.release s.character_id).take action.character_id).update_session action.sender_id
              fun s => { s with character_id := action.character_id, display_name := name })) := by
  unfold handle_char_select
  cases found : r.get_session action.sender_id with
  | none => exact .inl ⟨rfl, .inl rfl⟩
  | some s =>
    by_cases outside : action.character_id < -1 ∨ intOfSize r.characters.length ≤ action.character_id
    · refine .inl ⟨?_, .inr outside⟩
      simp only [Bool.or_eq_true, decide_eq_true_eq, if_pos outside]
    · refine .inr ⟨s, found, by omega, by omega, ?_⟩
      simp only [Bool.or_eq_true, decide_eq_true_eq, if_neg outside, Bool.and_eq_true]
      by_cases busy : 0 ≤ action.character_id ∧
          (r.release s.character_id).taken action.character_id.toNat
      · have refused : 0 ≤ action.character_id ∧
            (r.release s.character_id).char_taken.getD action.character_id.toNat 0 ≠ 0 := busy
        exact .inl ⟨busy.1, busy.2, by rw [if_pos refused]⟩
      · have free : ¬ (0 ≤ action.character_id ∧
            (r.release s.character_id).char_taken.getD action.character_id.toNat 0 ≠ 0) := busy
        exact .inr ⟨busy, _, by rw [if_neg free]⟩

theorem Shaped.set {r : GameRoom} (shaped : Shaped r) {r' : GameRoom} {k : UInt64}
    {s : ServerSession} (marks : r'.char_taken.length = r.char_taken.length)
    (characters : r'.characters = r.characters) (sessions : r'.sessions_ = r.sessions_.set k s)
    (id : s.character_id = -1 ∨
      (0 ≤ s.character_id ∧ s.character_id < intOfSize r.characters.length)) : Shaped r' := by
  refine ⟨by rw [marks, shaped.marks, characters], fun q t found => ?_⟩
  rw [sessions, SessionMap.find_set] at found
  rw [characters]
  split at found
  · obtain rfl := Option.some.inj found
    exact id
  · exact shaped.ids q t found

theorem Shaped.release {r : GameRoom} (shaped : Shaped r) (c : Int) : Shaped (r.release c) := by
  refine ⟨by simp [shaped.marks], ?_⟩
  simpa using shaped.ids

theorem create_exact {r r' : GameRoom} (shaped : Shaped r) (owned : r.Owned) {k : UInt64}
    {s : ServerSession} (marks : r'.char_taken = r.char_taken)
    (characters : r'.characters = r.characters) (sessions : r'.sessions_ = r.sessions_.set k s)
    (spectator : s.character_id = -1) :
    Shaped r' ∧ (r'.Owned ↔ r.own k = none) := by
  have shaped' : Shaped r' :=
    shaped.set (congrArg List.length marks) characters sessions (.inl spectator)
  have owners : r'.own = Function.update r.own k none := by
    have moved : r'.own = own { r with sessions_ := r.sessions_.set k s } := by
      funext q
      simp only [own, sessions]
    rw [moved, own_set, spectator]
    rfl
  have taken_eq : r'.taken = r.taken := by
    funext c
    simp only [taken, marks]
  refine ⟨shaped', ?_⟩
  rw [shaped'.owned_iff, owners, taken_eq]
  rw [shaped.owned_iff] at owned
  constructor
  · intro after
    cases owns : r.own k with
    | none => rfl
    | some c => exact absurd after (owned.not_of_dropped owns)
  · intro idle
    exact owned.assign k none nofun fun c => by simp [idle]

theorem destroy_keeps (strHash : Bytes → BitVec 64) {r : GameRoom} (shaped : Shaped r)
    (owned : r.Owned) (k : UInt64) :
    Shaped (r.destroy_session strHash k) ∧ (r.destroy_session strHash k).Owned := by
  cases found : r.sessions_.find k with
  | none =>
    have unchanged : r.destroy_session strHash k = r := by simp [destroy_session, found]
    rw [unchanged]
    exact ⟨shaped, owned⟩
  | some s =>
    have sessions : (r.destroy_session strHash k).sessions_ = r.sessions_.erase k := by
      simp [destroy_session, found]
    have characters : (r.destroy_session strHash k).characters = r.characters := by
      simp [destroy_session, found]
    have marks : (r.destroy_session strHash k).char_taken =
        (r.release s.character_id).char_taken := by
      simp only [destroy_session, found, release]
      split <;> rfl
    have shaped' : Shaped (r.destroy_session strHash k) := by
      refine ⟨by rw [marks, release_length, shaped.marks, characters], fun q t at_q => ?_⟩
      rw [sessions, SessionMap.find_erase] at at_q
      rw [characters]
      split at at_q
      · contradiction
      · exact shaped.ids q t at_q
    refine ⟨shaped', ?_⟩
    rw [shaped.owned_iff] at owned
    rw [shaped'.owned_iff]
    have owners : (r.destroy_session strHash k).own = Function.update r.own k none := by
      rw [← own_erase]
      funext q
      simp only [own, sessions]
    rw [owners]
    refine owned.assign k none nofun fun c => ?_
    have released := shaped.taken_release found c
    rw [taken] at released
    rw [taken, marks, released]
    simp

theorem own_update_session {r : GameRoom} {k : UInt64} {s : ServerSession}
    (found : r.sessions_.find k = some s) (f : ServerSession → ServerSession) :
    (r.update_session k f).own = Function.update r.own k (choice (f s).character_id) := by
  rw [← own_set]
  simp only [update_session, SessionMap.modify, found]

theorem own_release (r : GameRoom) (id : Int) : (r.release id).own = r.own := by
  funext q
  simp only [own, release_sessions]

/-- A selection that is refused has released the old character first: ownership survives only
where there was none. -/
theorem refused_exact {r : GameRoom} (shaped : Shaped r) (owned : r.Owned) {action : CharSelectAction}
    {s : ServerSession} (found : r.sessions_.find action.sender_id = some s)
    (high : action.character_id < intOfSize r.characters.length) (positive : 0 ≤ action.character_id)
    (busy : (r.release s.character_id).taken action.character_id.toNat) :
    (r.release s.character_id).Owned ↔ r.Keeps (.char_select action) := by
  have exclusive := shaped.owned_iff.mp owned
  have released := shaped.taken_release found
  rw [(shaped.release _).owned_iff]
  cases owns : r.own action.sender_id with
  | none =>
    have kept : Exclusive (r.release s.character_id).taken (r.release s.character_id).own := by
      rw [own_release]
      exact (Exclusive.congr fun c => by rw [released, owns]; simp).mp exclusive
    refine iff_of_true kept fun c owns' => ?_
    rw [owns] at owns'
    cases owns'
  | some c =>
    refine iff_of_false (not_exclusive_of_unmarked (k := action.sender_id) (c := c) ?_ ?_) ?_
    · rw [own_release, owns]
    · rw [released, owns]
      simp
    · intro keeps
      obtain ⟨mark, other⟩ := (released _).mp busy
      refine keeps c owns positive high (fun eq => other ?_) mark
      rw [owns, eq]
      simp

/-- A selection that is accepted hands the mark over. -/
theorem accepted_exact {r : GameRoom} (shaped : Shaped r) (owned : r.Owned) {action : CharSelectAction}
    {s : ServerSession} {name : Bytes} (found : r.sessions_.find action.sender_id = some s)
    (low : -1 ≤ action.character_id) (high : action.character_id < intOfSize r.characters.length)
    (free : ¬ (0 ≤ action.character_id ∧
      (r.release s.character_id).taken action.character_id.toNat))
    (same : (r.handle_char_select action).2.1 =
      ((r.release s.character_id).take action.character_id).update_session action.sender_id
        fun s => { s with character_id := action.character_id, display_name := name }) :
    Shaped (r.handle_char_select action).2.1 ∧ (r.handle_char_select action).2.1.Owned := by
  have exclusive := shaped.owned_iff.mp owned
  have released := shaped.taken_release found
  have found' : ((r.release s.character_id).take action.character_id).sessions_.find
      action.sender_id = some s := by simpa using found
  have bound : action.character_id < (r.release s.character_id).char_taken.length := by
    rw [release_length, shaped.marks]
    have := intOfSize_le r.characters.length
    omega
  have owners : (r.handle_char_select action).2.1.own =
      Function.update r.own action.sender_id (choice action.character_id) := by
    rw [same, own_update_session found']
    congr 1
    funext q
    simp only [own, take_sessions, release_sessions]
  have shaped' : Shaped (r.handle_char_select action).2.1 := by
    rw [same]
    refine shaped.set (k := action.sender_id) (s := { s with
      character_id := action.character_id, display_name := name }) ?_ ?_ ?_ ?_
    · simp [update_session]
    · simp [update_session]
    · simp [update_session, SessionMap.modify, found]
    · rcases eq_or_lt_of_le low with spectator | positive
      · exact .inl spectator.symm
      · exact .inr ⟨Int.add_one_le_iff.mpr positive, high⟩
  refine ⟨shaped', ?_⟩
  rw [shaped'.owned_iff, owners]
  refine exclusive.assign action.sender_id _ ?_ ?_
  · intro c new mark
    by_contra other
    refine free ?_
    unfold choice at new
    split at new
    · next positive =>
      obtain rfl := Option.some.inj new
      exact ⟨positive, (released _).mpr ⟨mark, other⟩⟩
    · cases new
  · intro c
    have marks : (r.handle_char_select action).2.1.taken c ↔
        ((r.release s.character_id).take action.character_id).taken c := by rw [same]; rfl
    rw [marks, taken_take bound, released]

theorem char_select_exact {r : GameRoom} (shaped : Shaped r) (owned : r.Owned)
    (action : CharSelectAction) :
    Shaped (r.handle_char_select action).2.1 ∧
    ((r.handle_char_select action).2.1.Owned ↔ r.Keeps (.char_select action)) := by
  rcases r.char_select_cases action with ⟨same, missing | below | above⟩ |
    ⟨s, found, low, high, ⟨positive, busy, same⟩ | ⟨free, name, same⟩⟩
  · rw [same]
    refine ⟨shaped, fun _ c owns => ?_, fun _ => owned⟩
    rw [own_of_missing missing] at owns
    contradiction
  · rw [same]
    exact ⟨shaped, fun _ _ _ nonneg => absurd (below.trans (by decide)) (not_lt.mpr nonneg),
      fun _ => owned⟩
  · rw [same]
    exact ⟨shaped, fun _ _ _ _ inside => absurd inside (not_lt.mpr above), fun _ => owned⟩
  · rw [same]
    exact ⟨shaped.release _, refused_exact shaped owned found high positive busy⟩
  · obtain ⟨shaped', owned'⟩ := accepted_exact shaped owned found low high free same
    refine ⟨shaped', iff_of_true owned' ?_⟩
    intro c owns positive _ other mark
    refine free ⟨positive, (shaped.taken_release found _).mpr ⟨mark, fun eq => other ?_⟩⟩
    rw [owns] at eq
    have := Option.some.inj eq
    omega

theorem roomStep_exact (strHash : Bytes → BitVec 64) {r : GameRoom} (shaped : Shaped r)
    (owned : r.Owned) (op : RoomOp) :
    Shaped (r.roomStep strHash op) ∧ ((r.roomStep strHash op).Owned ↔ r.Keeps op) := by
  cases op with
  | create_session k protocol => exact create_exact shaped owned rfl rfl rfl rfl
  | create_session_with_token k protocol token => exact create_exact shaped owned rfl rfl rfl rfl
  | char_select action => exact char_select_exact shaped owned action
  | destroy_session k =>
    obtain ⟨shaped', owned'⟩ := destroy_keeps strHash shaped owned k
    exact ⟨shaped', fun _ => trivial, fun _ => owned'⟩

/-- A run keeps the characters with their owners exactly if every input does. -/
theorem owned_iff_keeps (strHash : Bytes → BitVec 64) (characters areas : List Bytes)
    (ops : List RoomOp) :
    Always (roomStep strHash) Owned (reset_taken { characters, areas }) ops ↔
      Throughout (roomStep strHash) Keeps (reset_taken { characters, areas }) ops := by
  refine always_iff_throughout (I := Shaped)
    (fun _ _ shaped owned _ => (roomStep_exact strHash shaped owned _).1)
    (fun _ _ shaped owned => (roomStep_exact strHash shaped owned _).2) ?_ ?_ ops
  · exact ⟨by simp [reset_taken], fun k s found => by simp [reset_taken] at found⟩
  · constructor
    · intro c inside
      simp [reset_taken]
    · intro k k' s s' found
      simp [reset_taken] at found

/-- Of two players with a character each, one asks for the other's. -/
theorem refused_select_frees_own :
    ¬ Always (roomStep fun _ => 0) Owned
      (reset_taken { characters := [bytes "Phoenix", bytes "Edgeworth"], areas := [] })
      [.create_session 1 (bytes "ao2"), .create_session 2 (bytes "ao2"), .char_select ⟨1, 0⟩,
        .char_select ⟨2, 1⟩, .char_select ⟨1, 1⟩] := by
  intro always
  have final := always_iff_isPrefix.mp always _ (List.prefix_refl _)
  have mark := (final.marked 0 (by decide)).mpr
  have owner : ∃ k s, (run (roomStep fun _ => 0)
      (reset_taken { characters := [bytes "Phoenix", bytes "Edgeworth"], areas := [] })
      [.create_session 1 (bytes "ao2"), .create_session 2 (bytes "ao2"), .char_select ⟨1, 0⟩,
        .char_select ⟨2, 1⟩, .char_select ⟨1, 1⟩]).sessions_.find k = some s ∧
      s.character_id = ((0 : Nat) : Int) := ⟨1, _, rfl, by decide⟩
  exact mark owner (by decide)

/-- What a refused selection should leave as it was. -/
structure SameSelection (r r' : GameRoom) : Prop where
  ids : ∀ k, (r'.get_session k).map (·.character_id) = (r.get_session k).map (·.character_id)
  char_taken : r'.char_taken = r.char_taken
  stats : r'.stats = r.stats

/-- The sender holds a character in range and asks for another one that is taken. -/
def LosesOwn (r : GameRoom) (action : CharSelectAction) : Prop :=
  ∃ s, r.get_session action.sender_id = some s ∧
    (0 ≤ s.character_id ∧ s.character_id < intOfSize r.char_taken.length) ∧
    (0 ≤ action.character_id ∧ action.character_id < intOfSize r.characters.length) ∧
    action.character_id ≠ s.character_id ∧ r.taken action.character_id.toNat

theorem release_outside {r : GameRoom} {c : Int}
    (outside : ¬ (0 ≤ c ∧ c < intOfSize r.char_taken.length)) : r.release c = r := by
  unfold release
  simp only [Bool.and_eq_true, decide_eq_true_eq, if_neg outside]

theorem release_inside {r : GameRoom} {c : Int} (inside : 0 ≤ c ∧ c < intOfSize r.char_taken.length) :
    r.release c = { r with
      char_taken := r.char_taken.set c.toNat 0
      stats := { r.stats with chars_taken := r.stats.chars_taken - 1 } } := by
  unfold release
  simp only [Bool.and_eq_true, decide_eq_true_eq, if_pos inside]

theorem not_same_release {r : GameRoom} {c : Int}
    (inside : 0 ≤ c ∧ c < intOfSize r.char_taken.length) : ¬ SameSelection r (r.release c) := by
  intro same
  have counter := congrArg RoomStats.chars_taken same.stats
  rw [release_inside inside] at counter
  simp at counter

theorem taken_release_inside {r : GameRoom} {c : Int}
    (inside : 0 ≤ c ∧ c < intOfSize r.char_taken.length) (x : Nat) :
    (r.release c).taken x ↔ r.taken x ∧ c.toNat ≠ x := by
  rw [release_inside inside]
  exact getD_set_zero _ _ _

/-- A selection that comes as far as the mark of the requested character and finds it set. -/
theorem refused_of_taken {r : GameRoom} {action : CharSelectAction} {s : ServerSession}
    (found : r.get_session action.sender_id = some s) (low : 0 ≤ action.character_id)
    (high : action.character_id < intOfSize r.characters.length)
    (busy : (r.release s.character_id).taken action.character_id.toNat) :
    r.handle_char_select action = (false, r.release s.character_id, []) := by
  have inside : ¬ (action.character_id < -1 ∨
      intOfSize r.characters.length ≤ action.character_id) := by omega
  have refused : 0 ≤ action.character_id ∧
      (r.release s.character_id).char_taken.getD action.character_id.toNat 0 ≠ 0 := ⟨low, busy⟩
  simp only [handle_char_select, found, Bool.or_eq_true, decide_eq_true_eq, if_neg inside,
    Bool.and_eq_true, if_pos refused]

/-- Where a refusal comes from: before anything is released, or at the mark. -/
theorem refused_cases {r : GameRoom} {action : CharSelectAction}
    (refused : (r.handle_char_select action).1 = false) :
    (r.handle_char_select action).2.1 = r ∨
    ∃ s, r.get_session action.sender_id = some s ∧ 0 ≤ action.character_id ∧
      action.character_id < intOfSize r.characters.length ∧
      (r.release s.character_id).taken action.character_id.toNat ∧
      (r.handle_char_select action).2.1 = r.release s.character_id := by
  rcases r.char_select_cases action with ⟨same, _⟩ |
    ⟨s, found, low, high, ⟨positive, busy, same⟩ | ⟨free, _⟩⟩
  · exact .inl same
  · exact .inr ⟨s, found, positive, high, busy, same⟩
  · have inside : ¬ (action.character_id < -1 ∨
        intOfSize r.characters.length ≤ action.character_id) := by omega
    have accepted : ¬ (0 ≤ action.character_id ∧
        (r.release s.character_id).char_taken.getD action.character_id.toNat 0 ≠ 0) := free
    have got : r.get_session action.sender_id = some s := found
    simp only [handle_char_select, got, Bool.or_eq_true, decide_eq_true_eq, if_neg inside,
      Bool.and_eq_true, if_neg accepted] at refused
    cases refused

/-- A refusal changes nothing exactly if the sender had no character to lose to it. -/
theorem refusal_atomic_iff (r : GameRoom) (action : CharSelectAction) :
    ((r.handle_char_select action).1 = false →
      SameSelection r (r.handle_char_select action).2.1) ↔ ¬ r.LosesOwn action := by
  constructor
  · rintro atomic ⟨s, found, inside, ⟨low, high⟩, other, mark⟩
    have busy : (r.release s.character_id).taken action.character_id.toNat :=
      (taken_release_inside inside _).mpr ⟨mark, by omega⟩
    have refused := refused_of_taken found low high busy
    rw [refused] at atomic
    exact not_same_release inside (atomic rfl)
  · intro keeps refused
    rcases refused_cases refused with same | ⟨s, found, low, high, busy, same⟩
    · rw [same]
      exact ⟨fun _ => rfl, rfl, rfl⟩
    · have outside : ¬ (0 ≤ s.character_id ∧ s.character_id < intOfSize r.char_taken.length) := by
        intro inside
        obtain ⟨mark, other⟩ := (taken_release_inside inside _).mp busy
        exact keeps ⟨s, found, inside, ⟨low, high⟩, by omega, mark⟩
      rw [same, release_outside outside]
      exact ⟨fun _ => rfl, rfl, rfl⟩

/-- Two clients with a character each: the first asks for the second's, is refused, and its
own is marked free. -/
theorem refused_select_not_atomic :
    ¬ ∀ (r : GameRoom) (action : CharSelectAction), (r.handle_char_select action).1 = false →
      SameSelection r (r.handle_char_select action).2.1 := by
  intro atomic
  have same := atomic
    (run (roomStep fun _ => 0)
      (reset_taken { characters := [bytes "Phoenix", bytes "Edgeworth"], areas := [] })
      [.create_session 1 (bytes "ao2"), .create_session 2 (bytes "ao2"), .char_select ⟨1, 0⟩,
        .char_select ⟨2, 1⟩])
    ⟨1, 1⟩ (by decide)
  have marks : ([0, 1] : List Int) = [1, 1] := same.char_taken
  exact absurd marks (by decide)

end GameRoom

end AoSdl
