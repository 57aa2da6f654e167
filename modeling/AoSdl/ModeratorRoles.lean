import AoSdl.CommandFrames

/-! The rights of moderators and their roles through every run of the server and the REST interface.
The packets look at the flag, and the registry at the role. Two of three ways to get the flag never
look at the role. -/
namespace AoSdl
open Lib.Runs ACLPermission

/-- The user whom a `/login` in advanced mode lets in. -/
def LoginCommand.admits (ctx : CommandContext) (session : ServerSession) (args : List Bytes) :
    Option UserEntry :=
  if session.moderator then none
  else
    let cooldown := login_cooldown_seconds session.login_failures
    if 0 < cooldown ∧ ctx.elapsed < cooldown * 1000000000 then none
    else
      match ctx.auth_type with
      | .SIMPLE => none
      | .ADVANCED =>
        if args.length < 3 || !ctx.db_open then none
        else (ctx.get_user (args.getD 1 [])).filter fun user =>
          ctx.verify_password (args.getD 2 []) user.salt user.password

namespace AOServer

/-- A session that is a moderator has a role that permits something. -/
def Ranks (moderator : Bool) (acl_role : Bytes) : Prop :=
  moderator = true → acl_permissions_for_role acl_role ≠ .NONE

def Ranked (s : AOServer) : Prop :=
  ∀ k session, s.room_.get_session k = some session → Ranks session.moderator session.acl_role

/-- Moderators have a role that permits something. A session without one kicks and bans nobody, and is
refused to close an area it is no case master of. -/
structure RolesHold (s : AOServer) : Prop where
  ranked : Ranked s
  moderates : ∀ k session, s.room_.get_session k = some session →
    acl_permissions_for_role session.acl_role = .NONE → ∀ env fields,
      AOPacketMA.handle_server env s session fields = s
  closes : ∀ k session, s.room_.get_session k = some session →
    acl_permissions_for_role session.acl_role = .NONE → ∀ area,
      s.room_.find_area_by_name session.area = some area → area.is_cm k = false →
        ∀ lock_mode refusal message,
          close_area s.room_ k session lock_mode refusal message = [to_client k refusal]

/-- The user whom the packet's `/login` lets in. -/
def admitted (s : AOServer) (ctx : CommandContext) (k : UInt64) (packet_str : Bytes) : Option UserEntry :=
  match s.slash_command k packet_str with
  | none => none
  | some (session, args) =>
    if args.head?.map (·.map tolower) = some (bytes "login") then LoginCommand.admits ctx session args
    else none

/-- Who becomes a moderator, by a login with a user's password or by an auth token, has a role that
permits something. -/
def RankedFirst (deps : Deps) (s : AOServer) : SessionEvent → Prop
  | .ao ctx (.packet _ k packet_str) => (s.admitted ctx k packet_str).all (fun user =>
    acl_permissions_for_role user.acl ≠ .NONE) = true
  | .nx_bind token _ entry => (s.room_.find_session_by_token deps.strHash token).isSome = true →
    acl_permissions_for_role entry.acl ≠ .NONE
  | _ => True

instance (deps : Deps) (s : AOServer) : (event : SessionEvent) → Decidable (RankedFirst deps s event)
  | .ao ctx (.packet _ k packet_str) => inferInstanceAs (Decidable
    ((s.admitted ctx k packet_str).all (fun user => acl_permissions_for_role user.acl ≠ .NONE) = true))
  | .nx_bind token _ entry => inferInstanceAs (Decidable
    ((s.room_.find_session_by_token deps.strHash token).isSome = true →
      acl_permissions_for_role entry.acl ≠ .NONE))
  | .ao _ (.connected _ _) | .ao _ (.disconnected _) | .ao _ (.buffered _ _) | .ao _ (.outside _ _)
  | .nx_create _ _ _ | .nx_destroy _ | .expire _ _ => inferInstanceAs (Decidable True)

theorem roles_hold_iff (s : AOServer) : RolesHold s ↔ Ranked s := by
  refine ⟨RolesHold.ranked, fun ranked => ?_⟩
  have guest {k : UInt64} {session : ServerSession} (found : s.room_.get_session k = some session)
      (none : acl_permissions_for_role session.acl_role = .NONE) : session.moderator = false := by
    by_contra moderator
    exact ranked k session found (by simpa using moderator) none
  refine ⟨ranked, fun k session found none env fields => ?_,
    fun k session found none area known apart lock_mode refusal message => ?_⟩
  · simp [AOPacketMA.handle_server, guest found none]
  · simp [close_area, as_cm, in_area, known, apart, guest found none]

section Commands

variable {deps : Deps} {env : Env} {ctx : CommandContext} {k : UInt64} {s t : AOServer}
  {session : ServerSession} {effects : List CommandEffect}

/-- A command that writes its own session, if any. -/
inductive Writes (k : UInt64) : Option SessionWrite → List CommandEffect → Prop
  | tell (message : Bytes) : Writes k none [.send_system_message k message]
  | write (w : SessionWrite) {rest : List CommandEffect}
    (quiet : ∀ e ∈ rest, writes_areas e = false ∧ writes_session e = false) :
    Writes k (some w) (.write_session k w :: rest)

theorem Ranked.same (ranked : Ranked s)
    (same : ∀ q, (t.room_.get_session q).map ServerSession.identity =
      (s.room_.get_session q).map ServerSession.identity) : Ranked t := by
  intro q session found
  have was := same q
  rw [found] at was
  obtain ⟨old, there, identity⟩ := Option.map_eq_some_iff.mp was.symm
  simp only [ServerSession.identity, Prod.mk.injEq] at identity
  rw [← identity.2.1, ← identity.2.2.1]
  exact ranked q old there

/-- After such a command the sessions are ranked exactly if the one that is written is. -/
theorem Writes.ranked_iff {w : Option SessionWrite} (writes : Writes k w effects) (ranked : Ranked s)
    (found : s.room_.get_session k = some session) (room : t.room_ = s.room_) :
    Ranked (effects.foldl (run_effect env) t) ↔ ∀ v ∈ w, Ranks v.moderator v.acl_role := by
  cases writes with
  | tell message =>
    refine iff_of_true (ranked.same ?_) fun _ member => absurd member (Option.not_mem_none _)
    exact ((calm_room room).trans (still_send t k _).calm).sessions
  | write w quiet =>
    have same := (calm_effects env quiet (t.run_effect env (.write_session k w))).sessions
    have written (q : UInt64) : (t.run_effect env (.write_session k w)).room_.get_session q =
        if q = k then some { session with
          area := w.area, character_id := w.character_id, moderator := w.moderator
          acl_role := w.acl_role, moderator_name := w.moderator_name
          change_auth_started := w.change_auth_started, login_failures := w.login_failures }
        else s.room_.get_session q := by
      simp only [run_effect, update_session, GameRoom.get_session_update, room, found, Option.map_some]
    have first : Ranked (t.run_effect env (.write_session k w)) ↔ Ranks w.moderator w.acl_role := by
      constructor
      · intro all
        exact all k _ (by rw [written, if_pos rfl])
      · intro ranks q other there
        rw [written] at there
        split at there
        · cases there
          exact ranks
        · exact ranked q other there
    rw [List.foldl_cons]
    constructor
    · intro all v member
      cases Option.mem_some_iff.mp member
      exact first.mp (all.same fun q => (same q).symm)
    · intro ranks
      exact (first.mpr (ranks w rfl)).same same

/-- A login gives rights without a role exactly if it lets in a user whose role permits nothing. -/
theorem login_writes (deps : Deps) (ctx : CommandContext) (k : UInt64)
    (ranks : Ranks session.moderator session.acl_role) (args : List Bytes) :
    ∃ w, Writes k w (LoginCommand.execute deps ctx k session args) ∧
      ((∀ v ∈ w, Ranks v.moderator v.acl_role) ↔
        (LoginCommand.admits ctx session args).all (fun user =>
          acl_permissions_for_role user.acl ≠ .NONE) = true) := by
  have told (message : Bytes) : ∃ w, Writes k w [.send_system_message k message] ∧
      ((∀ v ∈ w, Ranks v.moderator v.acl_role) ↔ (none : Option UserEntry).all (fun user =>
        acl_permissions_for_role user.acl ≠ .NONE) = true) :=
    ⟨none, .tell message, iff_of_true (fun _ member => absurd member (Option.not_mem_none _)) rfl⟩
  have failed : ∃ w, Writes k w (LoginCommand.login_failed k session) ∧
      ((∀ v ∈ w, Ranks v.moderator v.acl_role) ↔ (none : Option UserEntry).all (fun user =>
        acl_permissions_for_role user.acl ≠ .NONE) = true) := by
    refine ⟨_, .write _ (by simp [writes_areas, writes_session]), iff_of_true ?_ rfl⟩
    rintro v member
    cases Option.mem_some_iff.mp member
    exact ranks
  unfold LoginCommand.execute LoginCommand.admits
  split
  · exact told _
  · dsimp only
    split
    · exact told _
    · cases ctx.auth_type with
      | SIMPLE =>
        unfold LoginCommand.login_simple
        dsimp only
        split
        · exact told _
        split
        · exact failed
        · refine ⟨_, .write _ (by simp [writes_areas, writes_session]), iff_of_true ?_ rfl⟩
          intro v member
          cases Option.mem_some_iff.mp member
          have super : acl_permissions_for_role (bytes "SUPER") ≠ .NONE := by decide
          exact fun _ => super
      | ADVANCED =>
        unfold LoginCommand.login_advanced
        dsimp only
        by_cases short : args.length < 3
        · simpa [short] using told _
        by_cases closed : ctx.db_open = false
        · simpa [short, closed] using told _
        cases known : ctx.get_user (args.getD 1 []) with
        | none => simpa [short, closed, known] using failed
        | some user =>
          have open_db : ctx.db_open = true := by simpa using closed
          cases verified : ctx.verify_password (args.getD 2 []) user.salt user.password with
          | false =>
            simp only [short, open_db, verified, Option.filter_some, Bool.not_true, Bool.not_false,
              Bool.false_eq_true, decide_false, Bool.or_self, if_false, if_true]
            exact failed
          | true =>
            simp only [short, open_db, verified, Option.filter_some, Bool.not_true,
              Bool.false_eq_true, decide_false, Bool.or_self, if_false, if_true, Option.all_some]
            refine ⟨_, .write _ (by simp [writes_areas, writes_session]), ?_⟩
            simp [Ranks]

theorem admits_short {args : List Bytes} (short : args.length < 3) :
    LoginCommand.admits ctx session args = none := by
  unfold LoginCommand.admits
  split
  · rfl
  dsimp only
  split
  · rfl
  · cases ctx.auth_type <;> simp [short]

theorem rootpass_writes (ctx : CommandContext) (session : ServerSession) (args : List Bytes) :
    ∃ w, Writes k w (RootPassCommand.execute ctx k session args) ∧
      ∀ v ∈ w, Ranks v.moderator v.acl_role := by
  have told (message : Bytes) : ∃ w, Writes k w [.send_system_message k message] ∧
      ∀ v ∈ w, Ranks v.moderator v.acl_role :=
    ⟨none, .tell message, fun _ member => absurd member (Option.not_mem_none _)⟩
  unfold RootPassCommand.execute
  split
  · exact told _
  split
  · exact told _
  split
  · exact told _
  split
  · exact told _
  · refine ⟨_, .write _ (by simp [writes_areas, writes_session]), fun v member => ?_⟩
    cases Option.mem_some_iff.mp member
    exact fun moderator => absurd moderator Bool.false_ne_true

/-- The effect gives no session another role or name. -/
def Meek (s : AOServer) : CommandEffect → Prop
  | .write_session q w => ∀ session, s.room_.get_session q = some session →
    w.acl_role = session.acl_role ∧ w.moderator_name = session.moderator_name
  | _ => True

theorem identity_meek
    (same : ∀ q, (t.room_.get_session q).map ServerSession.identity =
      (s.room_.get_session q).map ServerSession.identity) {e : CommandEffect} (meek : Meek s e) (q : UInt64) :
    ((t.run_effect env (spare s e)).room_.get_session q).map ServerSession.identity =
      (s.room_.get_session q).map ServerSession.identity := by
  cases e with
  | write_session p w =>
    refine identity_write env same (fun session found => ?_) q
    exact ⟨by simp [found], meek session found⟩
  | write_area area state =>
    simp only [spare, run_effect, update_area, GameRoom.get_session, (update_area_frame t.room_ area _).1]
    exact same q
  | write_content c => exact same q
  | _ => exact ((calm_effect env t rfl rfl).sessions q).trans (same q)

theorem identity_meeks
    (same : ∀ q, (t.room_.get_session q).map ServerSession.identity =
      (s.room_.get_session q).map ServerSession.identity) (meek : ∀ e ∈ effects, Meek s e) (q : UInt64) :
    (((effects.map (spare s)).foldl (run_effect env) t).room_.get_session q).map ServerSession.identity =
      (s.room_.get_session q).map ServerSession.identity := by
  induction effects generalizing t with
  | nil => exact same q
  | cons e effects ih =>
    exact ih (identity_meek same (meek e List.mem_cons_self))
      fun d inside => meek d (List.mem_cons_of_mem _ inside)

theorem meek_answer (client_id : UInt64) (message : Bytes) :
    ∀ e ∈ [to_client client_id message], Meek s e :=
  List.forall_mem_singleton.mpr trivial

theorem meek_announced (type : ArupType) (client_id : UInt64) (message : Bytes) :
    ∀ e ∈ [.broadcast_arup type, to_client client_id message], Meek s e :=
  List.forall_mem_cons.mpr ⟨trivial, meek_answer _ _⟩

theorem meek_write {name : Bytes} {area : AreaState} {last : List CommandEffect}
    (meek : ∀ e ∈ last, Meek s e) : ∀ e ∈ .write_area name area :: last, Meek s e :=
  List.forall_mem_cons.mpr ⟨trivial, meek⟩

theorem meek_in_area {execute : AreaState → List CommandEffect}
    (each : ∀ area, ∀ e ∈ execute area, Meek s e) : ∀ e ∈ in_area s.room_ session execute, Meek s e := by
  unfold in_area
  split
  · exact fun _ inside => absurd inside List.not_mem_nil
  · exact each _

theorem meek_as_cm {refusal : Bytes} {execute : AreaState → List CommandEffect}
    (each : ∀ area, ∀ e ∈ execute area, Meek s e) :
    ∀ e ∈ as_cm s.room_ k session refusal execute, Meek s e := by
  refine meek_in_area fun area => ?_
  split
  · exact meek_answer _ _
  · exact each area

theorem meek_told {name : Bytes} {area : AreaState} (players : List ServerSession) (message : Bytes)
    (last : List CommandEffect) (meek : ∀ e ∈ last, Meek s e) :
    ∀ e ∈ .write_area name area :: players.map (fun s => to_client s.client_id message) ++ last, Meek s e :=
  List.forall_mem_append.mpr ⟨meek_write (List.forall_mem_map.mpr fun _ _ => trivial), meek⟩

theorem kicked_subset (client_id : UInt64) (target_ipid lobby area : Bytes) (l : List ServerSession) :
    AreaKickCommand.kicked client_id target_ipid lobby area l ⊆ l := by
  induction l generalizing area with
  | nil => exact List.Subset.refl _
  | cons player rest ih =>
    unfold AreaKickCommand.kicked
    split
    · exact List.cons_subset_cons _ (ih _)
    · exact List.subset_cons_of_subset _ (ih _)

theorem meek_area_kick (keyed : Keyed s) (args : List Bytes) :
    ∀ e ∈ AreaKickCommand.execute s.room_ k session args, Meek s e := by
  refine meek_as_cm fun area => List.forall_mem_append.mpr ⟨List.forall_mem_flatMap.mpr ?_, ?_⟩
  · intro player inside
    have known := keyed.mem_sessions.mp (kicked_subset _ _ _ _ _ inside)
    simp only [List.mem_cons, List.not_mem_nil, or_false, forall_eq_or_imp, forall_eq]
    refine ⟨fun session there => ?_, trivial⟩
    rw [known] at there
    cases there
    exact ⟨rfl, rfl⟩
  · refine meek_write ?_
    split
    · exact meek_answer _ _
    · exact meek_announced _ _ _

theorem meek_area (found : s.room_.get_session k = some session) (args : List Bytes) :
    ∀ e ∈ AreaCommand.execute s.room_ k session args, Meek s e := by
  unfold AreaCommand.execute
  dsimp only
  split
  · exact meek_answer _ _
  split
  · exact meek_answer _ _
  · simp [to_client, Meek, found, ServerSession.writes]

theorem meek_area_command (keyed : Keyed s) (found : s.room_.get_session k = some session) {name : Bytes}
    {handler : CommandHandler} (args : List Bytes)
    (known : AreaCommands.find s.room_ k session name = some handler) :
    ∀ e ∈ handler.execute args, Meek s e := by
  cases AreaCommands.find_cases known with
  | cm =>
    dsimp only [CmCommand.execute]
    split
    · refine meek_as_cm fun area => meek_told _ _ _ ?_
      split
      · exact meek_answer _ _
      · exact meek_announced _ _ _
    · exact meek_in_area fun area => meek_write (meek_announced _ _ _)
  | uncm =>
    refine meek_in_area fun area => ?_
    split
    · split
      · exact meek_answer _ _
      · refine meek_write ?_
        split
        · exact meek_answer _ _
        · exact meek_announced _ _ _
    · split
      · exact meek_answer _ _
      · exact meek_write (meek_announced _ _ _)
  | invite => exact meek_as_cm fun area => meek_told _ _ _ (meek_answer _ _)
  | uninvite => exact meek_as_cm fun area => meek_write (meek_answer _ _)
  | close => exact meek_as_cm fun area => meek_write (meek_announced _ _ _)
  | unlock => exact meek_as_cm fun area => meek_write (meek_announced _ _ _)
  | kick => exact meek_area_kick keyed args
  | area => exact meek_area found args

end Commands

section Steps

variable (deps : Deps) {s t : AOServer}

theorem Ranked.fewer (ranked : Ranked s) (gone : UInt64 → Prop) [DecidablePred gone]
    (sessions : ∀ q, t.room_.get_session q = if gone q then none else s.room_.get_session q) :
    Ranked t := by
  intro q session found
  rw [sessions] at found
  split at found
  · cases found
  · exact ranked q session found

theorem Ranked.entered (ranked : Ranked s) (k : UInt64)
    (sessions : ∀ q, (t.room_.get_session q).map ServerSession.identity =
      if q = k then some (k, false, [], [], []) else (s.room_.get_session q).map ServerSession.identity) :
    Ranked t := by
  intro q session found moderator
  have was := sessions q
  rw [found, Option.map_some] at was
  split at was
  · have guest := congrArg (fun i : UInt64 × Bool × Bytes × Bytes × Bytes => i.2.1) (Option.some.inj was)
    exact absurd (guest.symm.trans moderator) Bool.false_ne_true
  · obtain ⟨old, there, identity⟩ := Option.map_eq_some_iff.mp was.symm
    simp only [ServerSession.identity, Prod.mk.injEq] at identity
    rw [← identity.2.2.1]
    exact ranked q old there (identity.2.1.trans moderator)

theorem command_login (ctx : CommandContext) {k : UInt64} {session : ServerSession} {args : List Bytes}
    {packet_str : Bytes} (slash : s.slash_command k packet_str = some (session, args))
    (login : args.head?.map (·.map tolower) = some (bytes "login")) (long : 2 ≤ args.length) :
    ∃ words, LoginCommand.admits ctx session words = LoginCommand.admits ctx session args ∧
      command deps (with_area_commands s k ctx) s k packet_str =
        LoginCommand.execute deps ctx k session words := by
  obtain ⟨word, rest, rfl, lower⟩ : ∃ word rest, args = word :: rest ∧ word.map tolower = bytes "login" := by
    cases args with
    | nil => cases login
    | cons word rest => exact ⟨word, rest, rfl, Option.some.inj login⟩
  refine ⟨word.map tolower :: rest, rfl, ?_⟩
  refine (command_registered deps k _ slash (if_pos lower) ?_).trans rfl
  have given : ¬(word.map tolower :: rest).length - 1 < 1 := by
    simp only [List.length_cons] at long ⊢
    omega
  simp only [CommandRegistry.refusal, given]
  rfl

theorem packet_ranked_iff (keyed : Keyed s) (ranked : Ranked s) (ctx : CommandContext) (env : Env)
    (k : UInt64) (packet_str : Bytes) :
    Ranked (commandStep deps s (.ao ctx (.packet env k packet_str))) ↔
      (s.admitted ctx k packet_str).all (fun user =>
        acl_permissions_for_role user.acl ≠ .NONE) = true := by
  cases slash : s.slash_command k packet_str with
  | none =>
    refine iff_of_true (ranked.same (calm_packet deps _ k slash).sessions) ?_
    rw [admitted, slash]
    rfl
  | some player =>
    obtain ⟨session, args⟩ := player
    have found := slash_session k slash
    have ranks := ranked k session found
    obtain ⟨env', t, same, room⟩ := room_command deps env k ctx slash
    have moved : Ranked (commandStep deps s (.ao ctx (.packet env k packet_str))) ↔
        Ranked ((command deps (with_area_commands s k ctx) s k packet_str).foldl (run_effect env') t) := by
      constructor <;> exact fun all => all.same fun q => by rw [← room]
    rw [moved]
    have lets : s.admitted ctx k packet_str =
        if args.head?.map (·.map tolower) = some (bytes "login") then
          LoginCommand.admits ctx session args else none := by rw [admitted, slash]
    rw [lets]
    constructor
    · intro all
      split
      · next login =>
        by_cases long : 2 ≤ args.length
        · obtain ⟨words, admits, issued⟩ := command_login deps ctx slash login long
          obtain ⟨w, writes, iff⟩ := login_writes deps ctx k ranks words
          rw [issued] at all
          rw [← admits]
          exact iff.mp ((writes.ranked_iff ranked found same).mp all)
        · rw [admits_short (by omega)]
          rfl
      · rfl
    · intro granted
      have does := slash_dispatched deps k ctx slash
      generalize command deps (with_area_commands s k ctx) s k packet_str = effects at does ⊢
      cases does with
      | tell message =>
        exact (Writes.ranked_iff (.tell message) ranked found same).mpr
          fun _ member => absurd member (Option.not_mem_none _)
      | login named login =>
        subst named
        obtain ⟨w, writes, iff⟩ := login_writes deps ctx k ranks _
        refine (writes.ranked_iff ranked found same).mpr (iff.mpr ?_)
        simp only [List.head?_cons, Option.map_some, login, if_true] at granted
        exact granted
      | logout moderator =>
        refine (Writes.ranked_iff (.write _ (by simp [writes_areas, writes_session])) ranked found
          same).mpr fun v member => ?_
        cases Option.mem_some_iff.mp member
        exact fun moderator => absurd moderator Bool.false_ne_true
      | rootpass words moderator =>
        obtain ⟨w, writes, ranks⟩ := rootpass_writes (k := k) ctx session words
        exact (writes.ranked_iff ranked found same).mpr ranks
      | area named listed allowed =>
        refine ranked.same fun q => identity_meeks (fun q => by rw [same]) ?_ q
        exact meek_area_command keyed found _ listed
      | other effects => exact ranked.same (calm_others _ (calm_room same) effects).sessions

theorem bind_ranked_iff (ranked : Ranked s) (token auth : Bytes) (entry : AuthTokenEntry) :
    Ranked (commandStep deps s (.nx_bind token auth entry)) ↔
      ((s.room_.find_session_by_token deps.strHash token).isSome = true →
        acl_permissions_for_role entry.acl ≠ .NONE) := by
  have bound : (commandStep deps s (.nx_bind token auth entry)).room_ =
      s.room_.bind_session deps.strHash token auth entry := rfl
  unfold GameRoom.bind_session at bound
  unfold GameRoom.find_session_by_token
  cases indexed : s.room_.token_index_.find deps.strHash token with
  | none =>
    simp only [indexed] at bound
    refine iff_of_true (ranked.same fun q => by rw [bound]) fun known => ?_
    cases known
  | some client_id =>
    have looked : s.room_.sessions_.find client_id = s.room_.get_session client_id := rfl
    cases found : s.room_.get_session client_id with
    | none =>
      simp only [indexed, found] at bound
      refine iff_of_true (ranked.same fun q => by rw [bound]) fun known => ?_
      simp [looked, found] at known
    | some session =>
      simp only [indexed, found] at bound
      have written (q : UInt64) : (commandStep deps s (.nx_bind token auth entry)).room_.get_session q =
          if q = client_id then some { session with
            moderator := true, acl_role := entry.acl, moderator_name := entry.username
            auth_token_id := auth }
          else s.room_.get_session q := by
        rw [bound]
        refine (GameRoom.get_session_update s.room_ client_id q _).trans ?_
        rw [found]
        rfl
      simp only [Option.bind_eq_bind, Option.bind_some, looked, found, Option.isSome_some, forall_const]
      constructor
      · intro all
        exact all client_id _ (by rw [written, if_pos rfl]) rfl
      · intro permits q other there
        rw [written] at there
        split at there
        · cases there
          exact fun _ => permits
        · exact ranked q other there

/-- Under the invariant the roles hold after a step exactly if its input ranks first. -/
theorem ranked_step_iff (keyed : Keyed s) (ranked : Ranked s) (event : SessionEvent) :
    Ranked (commandStep deps s event) ↔ RankedFirst deps s event := by
  have always {P : Prop} (ranked : Ranked (commandStep deps s event)) (holds : P) :
      Ranked (commandStep deps s event) ↔ P := iff_of_true ranked holds
  cases event with
  | ao ctx input =>
    cases input with
    | connected env k =>
      refine always (ranked.entered k fun q => ?_) trivial
      exact ((calm_connected env k s).sessions q).trans (identity_create k q s.room_ (bytes "ao2"))
    | disconnected k => exact always (ranked.fewer (· = k) (room_disconnected deps k s).1) trivial
    | buffered k buf => exact always (ranked.same (calm_update_proto s k _).sessions) trivial
    | packet env k packet_str => exact packet_ranked_iff deps keyed ranked ctx env k packet_str
    | outside env effect =>
      exact always (ranked.same (calm_outside deps env s ctx effect).sessions) trivial
  | nx_create k token client =>
    exact always (ranked.entered k fun q => identity_nx_create deps k q s.room_ token client) trivial
  | nx_bind token auth entry => exact bind_ranked_iff deps ranked token auth entry
  | nx_destroy k =>
    exact always (ranked.fewer (· = k) fun q => GameRoom.get_session_destroy _ _ _ _) trivial
  | expire ttl_seconds idle =>
    refine always (ranked.fewer (· ∈ (s.room_.expire_sessions deps.strHash ttl_seconds idle).1)
      fun q => ?_) trivial
    rw [room_expired]
    exact (room_expire deps.strHash s.room_ ttl_seconds idle).1 q

/-- In every run from a state where the roles hold they hold throughout exactly if everybody who becomes
a moderator has a role that permits something. -/
theorem roles_hold_always_iff (keyed : Keyed s) (start : RolesHold s) (events : List SessionEvent) :
    Always (commandStep deps) RolesHold s events ↔
      Throughout (commandStep deps) (RankedFirst deps) s events := by
  refine always_iff_throughout (I := Keyed) (fun _ event keyed _ _ => keyed.step deps event)
    (fun s event keyed holds => ?_) keyed start events
  rw [roles_hold_iff] at holds ⊢
  exact ranked_step_iff deps keyed holds event

end Steps

/-- A player logs in as a user of the database with the role that is given. -/
def userLogin (role : Bytes) : List SessionEvent :=
  let ctx : CommandContext :=
    { auth_type := .ADVANCED, get_user := fun name => some ⟨name, [], [], role⟩
      verify_password := fun _ _ _ => true }
  [.ao {} (.connected {} 7), .ao {} (.packet {} 7 (bytes "RD#%")),
    .ao ctx (.packet {} 7 (bytes "CT#a#/login maya pw#%"))]

theorem keyed_start : Keyed {} := fun k _ found => absurd found (by simp [GameRoom.get_session])

theorem roles_hold_start : RolesHold {} :=
  (roles_hold_iff _).mpr fun k _ found => absurd found (by simp [GameRoom.get_session])

theorem super_login_holds :
    Always (commandStep plainDeps) RolesHold {} (userLogin (bytes "SUPER") ++ [.ao {} (.disconnected 7)]) :=
  (roles_hold_always_iff plainDeps keyed_start roles_hold_start _).mpr (by decide +kernel)

/-- A user whose role is taken away still becomes a moderator. -/
theorem demoted_login_moderates :
    ¬ Always (commandStep plainDeps) RolesHold {} (userLogin (bytes "NONE")) := by
  intro holds
  have lets_in : ((run (commandStep plainDeps) {} (userLogin (bytes "NONE"))).room_.get_session 7).any
      (fun session => session.moderator && acl_permissions_for_role session.acl_role = .NONE) = true := by
    decide +kernel
  obtain ⟨session, found, rights⟩ := (Option.any_eq_true _ _).mp lets_in
  rw [Bool.and_eq_true, decide_eq_true_eq] at rights
  exact holds.2.2.2.ranked 7 session found rights.1 rights.2

end AOServer

end AoSdl
