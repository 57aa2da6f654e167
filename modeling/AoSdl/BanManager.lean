import AoSdl.Text
import Mathlib.Data.List.AList

/-! `BanManager` and the ban table of `DatabaseManager`. The cache is keyed by IPID and the
table by row id. Times of day are nanoseconds since the epoch. The worker of the database
runs the tasks it is given in order; the time it inserts a row is an input of the task. -/
namespace AoSdl

structure BanEntry where
  id : Int := 0
  ipid : Bytes := []
  hdid : Bytes := []
  ip : Bytes := []
  reason : Bytes := []
  moderator : Bytes := []
  timestamp : Int := 0
  duration : Int := 0
  deriving DecidableEq

def DURATION_PERMANENT : Int := -2

def BanEntry.is_permanent (e : BanEntry) : Bool := e.duration = -2

def seconds (n : Int) : Int := n * 1000000000

def BanEntry.is_expired (e : BanEntry) (now : Int) : Bool :=
  if e.is_permanent then false
  else if e.duration = 0 then true
  else wrap64 (seconds e.timestamp + seconds e.duration) < now

structure DurationScan where
  total : Int := 0
  current_num : Int := 0
  has_unit : Bool := false

def DurationScan.unit (s : DurationScan) (factor : Int) : DurationScan :=
  ⟨wrap64 (s.total + wrap64 (s.current_num * factor)), 0, true⟩

/-- One character; `none` is the early return on an invalid one. -/
def DurationScan.step (s : DurationScan) (c : UInt8) : Option DurationScan :=
  if Lib.Decimal.isDigit c then
    some { s with current_num := wrap64 (s.current_num * 10 + (c.toNat - 48)) }
  else if c = 104 then some (s.unit 3600)
  else if c = 109 then some (s.unit 60)
  else if c = 115 then some (s.unit 1)
  else none

def parse_ban_duration (input : Bytes) : Int :=
  if input.isEmpty then -1
  else
    let lower := input.map tolower
    if lower = bytes "perma" || lower = bytes "permanent" then -2
    else
      match lower.foldlM DurationScan.step {} with
      | none => -1
      | some s =>
        if 0 < s.current_num then wrap64 (s.total + s.current_num)
        else if s.has_unit then s.total else -1

inductive Task where
  | add_ban (entry : BanEntry) (now : Int)
  | invalidate_ban (ban_id : Int)
  | update_ban (ban_id : Int) (field value : Bytes)
  deriving DecidableEq

/-- The `bans` table in row order, and the last id `AUTOINCREMENT` gave out. -/
structure DatabaseManager where
  rows : List BanEntry := []
  last_id : Nat := 0

namespace DatabaseManager

def row (id : Nat) (entry : BanEntry) (now : Int) : BanEntry where
  id := id
  ipid := c_str entry.ipid
  hdid := c_str entry.hdid
  ip := c_str entry.ip
  timestamp := if entry.timestamp ≠ 0 then entry.timestamp else now / 1000000000
  reason := c_str entry.reason
  duration := entry.duration
  moderator := c_str entry.moderator

def add_ban (db : DatabaseManager) (entry : BanEntry) (now : Int) : DatabaseManager :=
  ⟨db.rows ++ [row (db.last_id + 1) entry now], db.last_id + 1⟩

/-- `UPDATE bans SET .. WHERE ID = ?` -/
def update_row (db : DatabaseManager) (ban_id : Int) (f : BanEntry → BanEntry) : DatabaseManager :=
  { db with rows := db.rows.map fun r => if r.id = ban_id then f r else r }

def invalidate_ban (db : DatabaseManager) (ban_id : Int) : DatabaseManager :=
  db.update_row ban_id fun r => { r with duration := 0 }

def update_ban (db : DatabaseManager) (ban_id : Int) (field value : Bytes) : DatabaseManager :=
  if field = bytes "duration" then
    match stoll value with
    | none => db
    | some dur => db.update_row ban_id fun r => { r with duration := dur }
  else if field = bytes "reason" then
    db.update_row ban_id fun r => { r with reason := c_str value }
  else db

def run (db : DatabaseManager) : Task → DatabaseManager
  | .add_ban entry now => db.add_ban entry now
  | .invalidate_ban ban_id => db.invalidate_ban ban_id
  | .update_ban ban_id field value => db.update_ban ban_id field value

def is_ban_active (entry : BanEntry) (now : Int) : Bool :=
  if entry.duration = 0 then false else !entry.is_expired now

def all_active_bans (db : DatabaseManager) (now : Int) : List BanEntry :=
  db.rows.filter (is_ban_active · now)

end DatabaseManager

inductive FirewallCall where
  | block_ip (ip reason : Bytes) (duration : Int)
  | unblock_ip (ip : Bytes)
  deriving DecidableEq

/-- What a call hands to the database worker and to the firewall. -/
structure BanEffects where
  tasks : List Task := []
  firewall : List FirewallCall := []
  deriving DecidableEq

/-- `db_` and `fw_` say whether a backend is set, and for the firewall also enabled. -/
structure BanManager where
  bans_ : AList fun _ : Bytes => BanEntry := ∅
  db_ : Bool := false
  fw_ : Bool := false

namespace BanManager

def firewall_duration (e : BanEntry) : Int :=
  if e.is_permanent then DURATION_PERMANENT else e.duration

def block (m : BanManager) (e : BanEntry) : List FirewallCall :=
  if m.fw_ && !e.ip.isEmpty then [.block_ip e.ip e.reason (firewall_duration e)] else []

/-- `bans` is what the database query returns. -/
def load_from_db (m : BanManager) (bans : List BanEntry) : BanManager × BanEffects :=
  if m.db_ then
    ({ m with bans_ := bans.foldl (fun cache entry => cache.insert entry.ipid entry) ∅ },
      { firewall := bans.flatMap m.block })
  else (m, {})

def add_ban (m : BanManager) (entry : BanEntry) (now : Int) : BanManager × BanEffects :=
  ({ m with bans_ := m.bans_.insert entry.ipid entry },
    { tasks := if m.db_ then [.add_ban entry now] else [], firewall := m.block entry })

def remove_ban (m : BanManager) (ipid : Bytes) : Bool × BanManager × BanEffects :=
  match m.bans_.lookup ipid with
  | none => (false, m, {})
  | some entry =>
    (true, { m with bans_ := m.bans_.erase ipid },
      { tasks := if m.db_ && 0 < entry.id then [.invalidate_ban entry.id] else []
        firewall := if m.fw_ && !entry.ip.isEmpty then [.unblock_ip entry.ip] else [] })

/-- The assignment to the cached entry; `none` when the field or the value is refused. -/
def edit (entry : BanEntry) (field value : Bytes) : Option BanEntry :=
  if field = bytes "reason" then some { entry with reason := value }
  else if field = bytes "duration" then
    let dur := parse_ban_duration value
    if dur = -1 then none else some { entry with duration := dur }
  else none

def update_ban (m : BanManager) (ipid field value : Bytes) : Bool × BanManager × BanEffects :=
  match m.bans_.lookup ipid with
  | none => (false, m, {})
  | some old =>
    match edit old field value with
    | none => (false, m, {})
    | some entry =>
      let db_value := if field = bytes "duration" then to_string entry.duration else value
      let fw_update := m.fw_ && field = bytes "duration" && !entry.ip.isEmpty
      (true, { m with bans_ := m.bans_.insert ipid entry },
        { tasks := if m.db_ && 0 < entry.id then [.update_ban entry.id field db_value] else []
          firewall := if fw_update then
            [.unblock_ip entry.ip, .block_ip entry.ip entry.reason (firewall_duration entry)]
            else [] })

def find_ban (m : BanManager) (now : Int) (ipid : Bytes) : Option BanEntry :=
  (m.bans_.lookup ipid).filter fun e => !e.is_expired now

/-- The first match in the iteration order of the cache. -/
def find_ban_by_hdid (m : BanManager) (now : Int) (hdid : Bytes) : Option BanEntry :=
  if hdid.isEmpty then none
  else (m.bans_.entries.map Sigma.snd).find? fun e =>
    !e.hdid.isEmpty && e.hdid = hdid && !e.is_expired now

def check_ban (m : BanManager) (now : Int) (ipid hdid : Bytes) : Option BanEntry :=
  (m.find_ban now ipid).or (m.find_ban_by_hdid now hdid)

end BanManager

end AoSdl
