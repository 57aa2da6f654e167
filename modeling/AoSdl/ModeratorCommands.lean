import AoSdl.ServerPacketBehavior

/-! The slash commands that make a session a moderator or take that away, and the registry's checks
in front of a command. Any other command is a handler that the run supplies. -/
namespace AoSdl

inductive AuthType where
  | SIMPLE
  | ADVANCED

structure UserEntry where
  username : Bytes
  salt : Bytes
  password : Bytes
  acl : Bytes

/-- The bits of a permission set. -/
abbrev ACLPermission := UInt32

namespace ACLPermission

def NONE : ACLPermission := 0

def MODIFY_USERS : ACLPermission := (1 : UInt32) <<< 3

def SUPER : ACLPermission := 0xffffffff

def has_permission (set required : ACLPermission) : Bool :=
  required = NONE || set = SUPER || set &&& required != 0

def acl_permissions_for_role (role_id : Bytes) : ACLPermission :=
  if role_id.map toupper = bytes "SUPER" then SUPER else NONE

end ACLPermission

structure CommandHandler where
  required_permission : ACLPermission := .NONE
  requires_moderator : Bool := required_permission ≠ .NONE
  min_args : Nat := 0
  usage : Bytes
  permission_name : Bytes := bytes "SUPER"
  /-- The words of the command, its name first. -/
  execute : List Bytes → List CommandEffect
  /-- Whether it ends with an exception. -/
  throws : List Bytes → Bool := fun _ => false

/-- The room's auth settings and the answers of the database while one command runs. -/
structure CommandContext where
  auth_type : AuthType := .SIMPLE
  mod_password : Bytes := []
  /-- Nanoseconds since the session's last failed login. -/
  elapsed : Int := 0
  db_open : Bool := true
  get_user : Bytes → Option UserEntry := fun _ => none
  verify_password : Bytes → Bytes → Bytes → Bool := fun _ _ _ => false
  create_user : Bool := true
  /-- The handlers of the other commands. -/
  find : Bytes → Option CommandHandler := fun _ => none

/-- The fields as they are. -/
def ServerSession.writes (session : ServerSession) : SessionWrite where
  area := session.area
  character_id := session.character_id
  moderator := session.moderator
  acl_role := session.acl_role
  moderator_name := session.moderator_name
  change_auth_started := session.change_auth_started
  login_failures := session.login_failures

namespace LoginCommand

variable (deps : Deps) (ctx : CommandContext) (client_id : UInt64) (session : ServerSession)
  (args : List Bytes)

/-- `1 << failures` is defined up to 31. -/
def login_cooldown_seconds (failures : Int) : Int :=
  if failures ≤ 0 then 0
  else
    let secs := wrap32 (2 ^ failures.toNat)
    if 60 < secs then 60 else secs

def login_failed : List CommandEffect :=
  [.write_session client_id { session.writes with login_failures := session.login_failures + 1 },
    .send_system_message client_id (bytes "Invalid credentials.")]

def hash_prefix : Bytes := bytes "sha256:"

/-- The configured password is a hash behind the prefix, or plain. -/
def accepts (configured password : Bytes) : Bool :=
  if hash_prefix.length < configured.length && hash_prefix.isPrefixOf configured then
    deps.sha256 password = configured.drop hash_prefix.length
  else password = configured

def login_simple : List CommandEffect :=
  if ctx.mod_password.isEmpty then
    [.send_system_message client_id (bytes "Authentication is not configured on this server.")]
  else if !accepts deps ctx.mod_password (args.getD 1 []) then login_failed client_id session
  else
    [.write_session client_id
        { session.writes with
          moderator := true, acl_role := bytes "SUPER", moderator_name := [], login_failures := 0 },
      .count_moderator 1,
      .send_system_message client_id (bytes "Logged in as moderator.")]

def login_advanced : List CommandEffect :=
  if args.length < 3 then
    [.send_system_message client_id (bytes "Usage: /login <username> <password>")]
  else if !ctx.db_open then
    [.send_system_message client_id (bytes "Database is not available.")]
  else
    match ctx.get_user (args.getD 1 []) with
    | none => login_failed client_id session
    | some user =>
      if !ctx.verify_password (args.getD 2 []) user.salt user.password then
        login_failed client_id session
      else
        [.write_session client_id
            { session.writes with
              moderator := true, acl_role := user.acl, moderator_name := user.username
              login_failures := 0 },
          .count_moderator 1,
          .send_system_message client_id
            (bytes "Logged in as " ++ user.username ++ bytes " [" ++ user.acl ++ bytes "].")]

def execute : List CommandEffect :=
  if session.moderator then
    [.send_system_message client_id (bytes "You are already logged in.")]
  else
    let cooldown := login_cooldown_seconds session.login_failures
    if 0 < cooldown ∧ ctx.elapsed < cooldown * 1000000000 then
      let remaining := (cooldown * 1000000000 - ctx.elapsed) / 1000000000
      [.send_system_message client_id
        (bytes "Too many failed attempts. Try again in " ++ to_string remaining ++ bytes "s.")]
    else
      match ctx.auth_type with
      | .ADVANCED => login_advanced ctx client_id session args
      | .SIMPLE => login_simple deps ctx client_id session args

end LoginCommand

def LogoutCommand.execute (client_id : UInt64) (session : ServerSession) : List CommandEffect :=
  [.write_session client_id
      { session.writes with
        moderator := false, acl_role := [], moderator_name := [], change_auth_started := false },
    .count_moderator (-1),
    .send_system_message client_id (bytes "Logged out.")]

def RootPassCommand.execute (ctx : CommandContext) (client_id : UInt64) (session : ServerSession)
    (args : List Bytes) : List CommandEffect :=
  if !session.change_auth_started then
    [.send_system_message client_id (bytes "You must run /changeauth first.")]
  else if !ctx.db_open then
    [.send_system_message client_id (bytes "Database is not available.")]
  else if (args.getD 1 []).length < 8 then
    [.send_system_message client_id (bytes "Password must be at least 8 characters.")]
  else if !ctx.create_user then
    [.send_system_message client_id (bytes "Failed to create root user (may already exist).")]
  else
    [.write_session client_id
        { session.writes with
          moderator := false, acl_role := [], moderator_name := [], change_auth_started := false },
      .count_moderator (-1),
      .send_system_message client_id
        (bytes "Root account created. Authentication switched to ADVANCED mode.\n" ++
          bytes "You have been logged out. Use /login root <password> to log back in.")]

namespace CommandRegistry

variable (deps : Deps) (ctx : CommandContext) (client_id : UInt64) (session : ServerSession)

def find (name : Bytes) : Option CommandHandler :=
  if name = bytes "login" then
    some { min_args := 1, usage := bytes "/login <password>  OR  /login <username> <password>"
           execute := LoginCommand.execute deps ctx client_id session }
  else if name = bytes "logout" then
    some { requires_moderator := true, usage := bytes "/logout"
           execute := fun _ => LogoutCommand.execute client_id session }
  else if name = bytes "rootpass" then
    some { required_permission := .SUPER, min_args := 1, usage := bytes "/rootpass <password>"
           execute := RootPassCommand.execute ctx client_id session }
  else ctx.find name

/-- Why a handler may not run, if anything stands against it. -/
def refusal (handler : CommandHandler) (args : List Bytes) : Option Bytes :=
  if handler.required_permission ≠ .NONE then
    if !session.moderator then some (bytes "Permission denied. You must be logged in.")
    else if !(ACLPermission.acl_permissions_for_role session.acl_role).has_permission
        handler.required_permission then
      some (bytes "Permission denied. You need the " ++ handler.permission_name ++ bytes " permission.")
    else if args.length - 1 < handler.min_args then some (bytes "Usage: " ++ handler.usage)
    else none
  else if handler.requires_moderator && !session.moderator then
    some (bytes "Permission denied. You must be logged in as a moderator.")
  else if args.length - 1 < handler.min_args then some (bytes "Usage: " ++ handler.usage)
  else none

/-- What a message with at least one word behind its slash does. -/
def try_dispatch (message : Bytes) : List CommandEffect :=
  match command_args message with
  | [] => []
  | word :: words =>
    let cmd_name := word.map tolower
    match find deps ctx client_id session cmd_name with
    | none => [.send_system_message client_id
        (bytes "Unknown command: /" ++ cmd_name ++ bytes ". Type /help for a list.")]
    | some handler =>
      match refusal session handler (cmd_name :: words) with
      | some message => [.send_system_message client_id message]
      | none => handler.execute (cmd_name :: words)

/-- Whether the exception of a handler comes out of it. -/
def throws (message : Bytes) : Bool :=
  match command_args message with
  | [] => false
  | word :: words =>
    let cmd_name := word.map tolower
    (find deps ctx client_id session cmd_name).any fun handler =>
      (refusal session handler (cmd_name :: words)).isNone && handler.throws (cmd_name :: words)

end CommandRegistry

end AoSdl
