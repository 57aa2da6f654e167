import AoSdl.Text

/-! `AreaState`: what an area keeps while the server runs. Sets of client ids are listed in
ascending order. -/
namespace AoSdl

structure AreaBackground where
  name : Bytes := []
  position : Bytes := []
  deriving DecidableEq

structure AreaHP where
  defense : Int := 10
  prosecution : Int := 10
  deriving DecidableEq

structure EvidenceItem where
  name : Bytes := []
  description : Bytes := []
  image : Bytes := []
  deriving DecidableEq

inductive AreaLockMode where
  | FREE
  | LOCKED
  | SPECTATABLE
  deriving DecidableEq

structure AreaState where
  id : Bytes := []
  name : Bytes := []
  status : Bytes := bytes "IDLE"
  lock_mode : AreaLockMode := .FREE
  background : AreaBackground := {}
  hp : AreaHP := {}
  evidence : List EvidenceItem := []
  cm_owners : List UInt64 := []
  cm : Bytes := []
  invited : List UInt64 := []
  deriving DecidableEq

namespace AreaState

def is_cm (a : AreaState) (client_id : UInt64) : Bool := a.cm_owners.contains client_id

def is_invited (a : AreaState) (client_id : UInt64) : Bool := a.invited.contains client_id

def can_speak_ic (a : AreaState) (client_id : UInt64) : Bool :=
  if a.lock_mode = .FREE then true else a.is_cm client_id || a.is_invited client_id

def can_enter (a : AreaState) (client_id : UInt64) : Bool :=
  if a.lock_mode = .FREE || a.lock_mode = .SPECTATABLE then true
  else a.is_cm client_id || a.is_invited client_id

end AreaState

end AoSdl
