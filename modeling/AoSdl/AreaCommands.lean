import AoSdl.SessionStats

/-! The slash commands of case masters: who runs an area, whom it admits, and who is in it. A command
looks at the room as it is when it starts. Any other command leaves these things alone. -/
namespace AoSdl

namespace AreaState

/-- A set of client ids with one more. -/
def insert_id (ids : List UInt64) (client_id : UInt64) : List UInt64 :=
  if client_id ∈ ids then ids else ids.orderedInsert (· ≤ ·) client_id

def insert_ids (ids : List UInt64) (sessions : List ServerSession) : List UInt64 :=
  sessions.foldl (fun ids session => insert_id ids session.client_id) ids

def erase_ids (ids : List UInt64) (sessions : List ServerSession) : List UInt64 :=
  sessions.foldl (fun ids session => ids.erase session.client_id) ids

variable {ids : List UInt64} {k q : UInt64} {sessions : List ServerSession}

@[simp] theorem mem_insert_id : q ∈ insert_id ids k ↔ q = k ∨ q ∈ ids := by
  unfold insert_id
  split
  · next known =>
    constructor
    · exact .inr
    · rintro (rfl | inside)
      · exact known
      · exact inside
  · simp

theorem nodup_insert_id (nodup : ids.Nodup) : (insert_id ids k).Nodup := by
  unfold insert_id
  split
  · exact nodup
  · next fresh =>
    exact (List.perm_orderedInsert _ _ _).nodup_iff.mpr (List.nodup_cons.mpr ⟨fresh, nodup⟩)

@[simp] theorem mem_insert_ids :
    q ∈ insert_ids ids sessions ↔ q ∈ ids ∨ ∃ session ∈ sessions, session.client_id = q := by
  induction sessions generalizing ids with
  | nil => simp [insert_ids]
  | cons session sessions ih =>
    have rest : q ∈ insert_ids ids (session :: sessions) ↔
        q ∈ insert_ids (insert_id ids session.client_id) sessions := Iff.rfl
    rw [rest, ih, mem_insert_id, List.exists_mem_cons_iff, eq_comm, or_comm (a := _ = _), or_assoc]

theorem nodup_insert_ids (nodup : ids.Nodup) : (insert_ids ids sessions).Nodup := by
  induction sessions generalizing ids with
  | nil => exact nodup
  | cons session sessions ih => exact ih (nodup_insert_id nodup)

theorem erase_ids_sublist : (erase_ids ids sessions).Sublist ids := by
  induction sessions generalizing ids with
  | nil => exact .refl _
  | cons session sessions ih => exact ih.trans List.erase_sublist

theorem mem_erase_ids (nodup : ids.Nodup) :
    q ∈ erase_ids ids sessions ↔ q ∈ ids ∧ ∀ session ∈ sessions, session.client_id ≠ q := by
  induction sessions generalizing ids with
  | nil => simp [erase_ids]
  | cons session sessions ih =>
    have rest : q ∈ erase_ids ids (session :: sessions) ↔
        q ∈ erase_ids (ids.erase session.client_id) sessions := Iff.rfl
    rw [rest, ih (nodup.erase _), nodup.mem_erase_iff, List.forall_mem_cons]
    constructor
    · rintro ⟨⟨apart, inside⟩, later⟩
      exact ⟨inside, Ne.symm apart, later⟩
    · rintro ⟨inside, apart, later⟩
      exact ⟨⟨Ne.symm apart, inside⟩, later⟩

end AreaState

section Commands

open AreaState

variable (room : GameRoom) (client_id : UInt64) (session : ServerSession)

def to_client (message : Bytes) : CommandEffect := .send_system_message client_id message

def has_ipid (ipid : Bytes) : List ServerSession := room.sessions.filter (·.ipid = ipid)

/-- What `execute` does in the area of the session, if there is one. -/
def in_area (execute : AreaState → List CommandEffect) : List CommandEffect :=
  match room.find_area_by_name session.area with
  | none => []
  | some area => execute area

/-- What is reserved for the area's case masters and moderators. -/
def as_cm (refusal : Bytes) (execute : AreaState → List CommandEffect) : List CommandEffect :=
  in_area room session fun area =>
    if !area.is_cm client_id && !session.moderator then [to_client client_id refusal]
    else execute area

def CmCommand.execute (args : List Bytes) : List CommandEffect :=
  match args[1]? with
  | some target_ipid =>
    as_cm room client_id session (bytes "You must be CM or moderator to add other CMs.") fun area =>
      let targets := (has_ipid room target_ipid).filter (·.area = session.area)
      .write_area session.area { area with cm_owners := insert_ids area.cm_owners targets } ::
        targets.map (fun s => to_client s.client_id (bytes "You are now a case master.")) ++
        if targets.isEmpty then
          [to_client client_id (bytes "No player with IPID " ++ target_ipid ++ bytes " in this area.")]
        else
          [.broadcast_arup .ARUP_CM,
            to_client client_id (bytes "Added CM for IPID " ++ target_ipid ++ bytes ".")]
  | none => in_area room session fun area =>
    [.write_area session.area
        { area with
          cm_owners := insert_id area.cm_owners client_id, cm := session.display_name
          invited := insert_id area.invited client_id },
      .broadcast_arup .ARUP_CM,
      to_client client_id (bytes "You are now a case master of " ++ session.area ++ bytes ".")]

def UncmCommand.execute (args : List Bytes) : List CommandEffect :=
  in_area room session fun area =>
    match args[1]? with
    | some target_ipid =>
      if !session.moderator then
        [to_client client_id (bytes "You must be a moderator to remove other CMs.")]
      else
        let targets := has_ipid room target_ipid
        .write_area session.area { area with cm_owners := erase_ids area.cm_owners targets } ::
          if targets.isEmpty then
            [to_client client_id (bytes "No player with IPID " ++ target_ipid ++ bytes " found.")]
          else
            [.broadcast_arup .ARUP_CM,
              to_client client_id (bytes "Removed CM for IPID " ++ target_ipid ++ bytes ".")]
    | none =>
      if !area.is_cm client_id then
        [to_client client_id (bytes "You are not a CM of this area.")]
      else
        let cm_owners := area.cm_owners.erase client_id
        [.write_area session.area
            { area with cm_owners, cm := if cm_owners.isEmpty then [] else area.cm },
          .broadcast_arup .ARUP_CM,
          to_client client_id (bytes "You are no longer a case master.")]

def InviteCommand.execute (args : List Bytes) : List CommandEffect :=
  as_cm room client_id session (bytes "You must be CM or moderator to invite.") fun area =>
    let target_ipid := args.getD 1 []
    let targets := has_ipid room target_ipid
    .write_area session.area { area with invited := insert_ids area.invited targets } ::
      targets.map (fun s => to_client s.client_id
        (bytes "You have been invited to " ++ session.area ++ bytes ".")) ++
      [to_client client_id
        (if targets.isEmpty then bytes "No player with IPID " ++ target_ipid ++ bytes " found."
          else bytes "Invited IPID " ++ target_ipid ++ bytes ".")]

def UninviteCommand.execute (args : List Bytes) : List CommandEffect :=
  as_cm room client_id session (bytes "You must be CM or moderator to uninvite.") fun area =>
    let target_ipid := args.getD 1 []
    let targets := has_ipid room target_ipid
    [.write_area session.area { area with invited := erase_ids area.invited targets },
      to_client client_id
        (if targets.isEmpty then bytes "No player with IPID " ++ target_ipid ++ bytes " found."
          else bytes "Uninvited IPID " ++ target_ipid ++ bytes ".")]

/-- The players who are there are invited. -/
def close_area (lock_mode : AreaLockMode) (refusal message : Bytes) : List CommandEffect :=
  as_cm room client_id session refusal fun area =>
    [.write_area session.area
        { area with lock_mode, invited := insert_ids area.invited (room.sessions_in_area session.area) },
      .broadcast_arup .ARUP_LOCKED, to_client client_id message]

def AreaLockCommand.execute : List CommandEffect :=
  close_area room client_id session .LOCKED (bytes "You must be CM or moderator to lock the area.")
    (bytes "Area locked. Current players have been invited.")

def AreaSpectateCommand.execute : List CommandEffect :=
  close_area room client_id session .SPECTATABLE
    (bytes "You must be CM or moderator to set area to spectatable.")
    (bytes "Area set to spectatable. Current players can speak, newcomers can only watch.")

def AreaUnlockCommand.execute : List CommandEffect :=
  as_cm room client_id session (bytes "You must be CM or moderator to unlock the area.") fun area =>
    [.write_area session.area { area with lock_mode := .FREE, invited := [] },
      .broadcast_arup .ARUP_LOCKED, to_client client_id (bytes "Area unlocked.")]

/-- The sessions that are kicked, one after the other. When the one that gave the command is among
them, its area is the lobby from then on. -/
def AreaKickCommand.kicked (target_ipid lobby : Bytes) : Bytes → List ServerSession → List ServerSession
  | _, [] => []
  | area, s :: rest =>
    if s.ipid = target_ipid && s.area = area then
      s :: kicked target_ipid lobby (if s.client_id = client_id then lobby else area) rest
    else kicked target_ipid lobby area rest

def AreaKickCommand.execute (args : List Bytes) : List CommandEffect :=
  as_cm room client_id session (bytes "You must be CM or moderator to area-kick.") fun area =>
    let target_ipid := args.getD 1 []
    let lobby := room.areas.headD []
    let targets := kicked client_id target_ipid lobby session.area room.sessions
    targets.flatMap (fun s => [.write_session s.client_id { s.writes with area := lobby },
        to_client s.client_id (bytes "You have been kicked from the area.")]) ++
      .write_area session.area { area with invited := erase_ids area.invited targets } ::
      if targets.isEmpty then
        [to_client client_id
          (bytes "No players with IPID " ++ target_ipid ++ bytes " found in this area.")]
      else
        [.broadcast_arup .ARUP_PLAYERS,
          to_client client_id (bytes "Kicked " ++ to_string targets.length ++
            bytes " player(s) from the area.")]

/-- The area a name or an index stands for, empty if none does. -/
def AreaCommand.matched (target : Bytes) : Bytes :=
  let exact_name := (room.areas.find? (· = target)).getD []
  let name := if !exact_name.isEmpty then exact_name
    else (room.areas.find? fun area_name => area_name.map tolower = target.map tolower).getD []
  if !name.isEmpty then name
  else
    match stoi target with
    | none => []
    | some idx => if 0 ≤ idx ∧ idx < intOfSize room.areas.length then room.areas.getD idx.toNat [] else []

def AreaCommand.execute (args : List Bytes) : List CommandEffect :=
  let target := (bytes " ").intercalate (args.drop 1)
  let name := matched room target
  if name.isEmpty then [to_client client_id (bytes "Area not found: " ++ target)]
  else if (room.find_area_by_name name).any fun area => !area.can_enter client_id then
    [to_client client_id (bytes "Area " ++ name ++ bytes " is locked. You need an invite.")]
  else
    [.write_session client_id { session.writes with area := name },
      .send_area_join_info client_id name, to_client client_id (bytes "Moved to " ++ name ++ bytes ".")]

/-- The command of a name, if it is one of these. -/
def AreaCommands.find (name : Bytes) : Option CommandHandler :=
  if name = bytes "cm" then
    some { usage := bytes "/cm [ipid]", execute := CmCommand.execute room client_id session }
  else if name = bytes "uncm" then
    some { usage := bytes "/uncm [ipid]", execute := UncmCommand.execute room client_id session }
  else if name = bytes "invite" then
    some { usage := bytes "/invite <ipid>", min_args := 1
           execute := InviteCommand.execute room client_id session }
  else if name = bytes "uninvite" then
    some { usage := bytes "/uninvite <ipid>", min_args := 1
           execute := UninviteCommand.execute room client_id session }
  else if name = bytes "area_lock" then
    some { usage := bytes "/area_lock", execute := fun _ => AreaLockCommand.execute room client_id session }
  else if name = bytes "area_unlock" then
    some { usage := bytes "/area_unlock"
           execute := fun _ => AreaUnlockCommand.execute room client_id session }
  else if name = bytes "area_spectate" then
    some { usage := bytes "/area_spectate"
           execute := fun _ => AreaSpectateCommand.execute room client_id session }
  else if name = bytes "area_kick" then
    some { usage := bytes "/area_kick <ipid>", min_args := 1
           execute := AreaKickCommand.execute room client_id session }
  else if name = bytes "area" then
    some { usage := bytes "/area <name>", min_args := 1
           execute := AreaCommand.execute room client_id session }
  else none

variable {room client_id session}

/-- The handlers of the case masters' commands, by name. -/
inductive AreaCommands.Found (room : GameRoom) (client_id : UInt64) (session : ServerSession) :
    Bytes → CommandHandler → Prop
  | cm (usage : Bytes) : Found room client_id session (bytes "cm")
      { usage, execute := CmCommand.execute room client_id session }
  | uncm (usage : Bytes) : Found room client_id session (bytes "uncm")
      { usage, execute := UncmCommand.execute room client_id session }
  | invite (usage : Bytes) : Found room client_id session (bytes "invite")
      { usage, min_args := 1, execute := InviteCommand.execute room client_id session }
  | uninvite (usage : Bytes) : Found room client_id session (bytes "uninvite")
      { usage, min_args := 1, execute := UninviteCommand.execute room client_id session }
  | close (name usage : Bytes) (lock_mode : AreaLockMode) (refusal message : Bytes)
      (apart : name ≠ bytes "uncm") : Found room client_id session name
      { usage, execute := fun _ => close_area room client_id session lock_mode refusal message }
  | unlock (usage : Bytes) : Found room client_id session (bytes "area_unlock")
      { usage, execute := fun _ => AreaUnlockCommand.execute room client_id session }
  | kick (usage : Bytes) : Found room client_id session (bytes "area_kick")
      { usage, min_args := 1, execute := AreaKickCommand.execute room client_id session }
  | area (usage : Bytes) : Found room client_id session (bytes "area")
      { usage, min_args := 1, execute := AreaCommand.execute room client_id session }

theorem AreaCommands.find_cases {name : Bytes} {handler : CommandHandler}
    (known : find room client_id session name = some handler) :
    Found room client_id session name handler := by
  unfold find at known
  obtain ⟨rfl, ⟨⟩⟩ | ⟨_, known⟩ := ite_eq_iff.mp known
  · exact .cm _
  obtain ⟨rfl, ⟨⟩⟩ | ⟨_, known⟩ := ite_eq_iff.mp known
  · exact .uncm _
  obtain ⟨rfl, ⟨⟩⟩ | ⟨_, known⟩ := ite_eq_iff.mp known
  · exact .invite _
  obtain ⟨rfl, ⟨⟩⟩ | ⟨_, known⟩ := ite_eq_iff.mp known
  · exact .uninvite _
  obtain ⟨rfl, ⟨⟩⟩ | ⟨_, known⟩ := ite_eq_iff.mp known
  · exact .close _ _ .LOCKED _ _ (by decide)
  obtain ⟨rfl, ⟨⟩⟩ | ⟨_, known⟩ := ite_eq_iff.mp known
  · exact .unlock _
  obtain ⟨rfl, ⟨⟩⟩ | ⟨_, known⟩ := ite_eq_iff.mp known
  · exact .close _ _ .SPECTATABLE _ _ (by decide)
  obtain ⟨rfl, ⟨⟩⟩ | ⟨_, known⟩ := ite_eq_iff.mp known
  · exact .kick _
  obtain ⟨rfl, ⟨⟩⟩ | ⟨_, ⟨⟩⟩ := ite_eq_iff.mp known
  exact .area _

end Commands

namespace AOServer

/-- No other command assigns a session's role, or the case masters, the guests or the lock of an area,
and the areas stay the ones there are. -/
def tame (s : AOServer) : CommandEffect → CommandEffect
  | .write_session k w =>
    match s.room_.get_session k with
    | none => .write_session k w
    | some session =>
      .write_session k { w with
        moderator := session.moderator, acl_role := session.acl_role
        moderator_name := session.moderator_name }
  | .write_area area state =>
    match s.room_.find_area_by_name area with
    | none => .write_area area state
    | some old =>
      .write_area area { state with
        lock_mode := old.lock_mode, cm_owners := old.cm_owners, invited := old.invited }
  | .write_content c => .write_content { c with
    area_states_ := s.room_.area_states_, area_name_to_id_ := s.room_.area_name_to_id_ }
  | effect => effect

/-- The commands of areas, and the others as far as they go. -/
def with_area_commands (s : AOServer) (k : UInt64) (ctx : CommandContext) : CommandContext :=
  let others (name : Bytes) : Option CommandHandler := (ctx.find name).map fun handler =>
    { handler with execute := fun args => (handler.execute args).map (tame s) }
  { ctx with find := fun name =>
      ((s.room_.get_session k).bind (AreaCommands.find s.room_ k · name)).or (others name) }

/-- A step in which slash commands are those of the registry. -/
def commandStep (deps : Deps) (s : AOServer) : SessionEvent → AOServer
  | .ao ctx (.packet env k packet_str) =>
    sessionStep deps s (.ao (with_area_commands s k ctx) (.packet env k packet_str))
  | .ao ctx (.outside env effect) => sessionStep deps s (.ao ctx (.outside env (tame s effect)))
  | event => sessionStep deps s event

end AOServer

end AoSdl
