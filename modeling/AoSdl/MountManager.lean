import AoSdl.MountHttp

/-! The mounts in the order of their priority. A lookup seeks a file and then fetches it, and each of the
two locks its mount anew. -/
namespace AoSdl
open HttpPool

/-- What a mount that is not an HTTP mount has under a path; a file that cannot be read throws. -/
inductive LocalFile where
  | absent
  | broken
  | stored (data : Bytes)
deriving DecidableEq

inductive Mount where
  | other (files : Bytes → LocalFile)
  | http (m : MountHttp)

namespace MountManager

/-- What the mount has stored for the path at this moment. -/
def stored (path : Bytes) : Mount → Option Bytes
  | .other files =>
    match files path with
    | .stored data => some data
    | _ => none
  | .http m => m.cache_ (MountHttp.lowercase_path path)

def seek_file (path : Bytes) : Mount → Bool
  | .other files => files path ≠ .absent
  | .http m => m.seek_file path

/-- `none` when the mount throws. -/
def fetch_file (path : Bytes) : Mount → Option Bytes
  | .other files =>
    match files path with
    | .stored data => some data
    | _ => none
  | .http m => some (m.fetch_data path)

/-- Only a mount that is an HTTP mount changes. -/
def change_http (f : MountHttp → MountHttp) : Mount → Mount
  | .http m => .http (f m)
  | .other files => .other files

def release_http (mounts : List Mount) (path : Bytes) : List Mount :=
  mounts.map (change_http fun m => m.release path)

def ends_with (path suffix : Bytes) : Bool := suffix.isSuffixOf path

def is_config (path : Bytes) : Bool := ends_with path (bytes ".ini") || ends_with path (bytes ".json")

/-- A request of a mount that has not failed. -/
def ask (path : Bytes) (priority : HttpPriority) (m : MountHttp) : MountHttp :=
  if m.has_failed path then m else (m.request path priority).1

/-- The first mount that has the file and can read it. -/
def find_file (path : Bytes) : List Mount → Option Bytes
  | [] => none
  | m :: rest =>
    if seek_file path m then
      match fetch_file path m with
      | some data => some data
      | none => find_file path rest
    else find_file path rest

/-- `fetch_data` with nothing in between. -/
def fetch_data (mounts : List Mount) (path : Bytes) : Option Bytes × List Mount :=
  match find_file path mounts with
  | some data => (some data, mounts)
  | none =>
    (none, if is_config path then mounts.map (change_http (ask path .HIGH)) else mounts)

/-- The HTTP mounts from the first one on: it is asked always, the others if it has failed. -/
def request_http (path : Bytes) (priority : HttpPriority) : Option Bool → List Mount → List Mount
  | _, [] => []
  | primary_failed, .other files :: rest => .other files :: request_http path priority primary_failed rest
  | none, .http m :: rest =>
    let m := (m.request path priority).1
    .http m :: request_http path priority (some (m.has_failed path)) rest
  | some failed, .http m :: rest =>
    .http (if failed then (m.request path priority).1 else m) ::
      request_http path priority (some failed) rest

/-- A file that a mount has at hand is not requested. -/
def has_local (path : Bytes) (mounts : List Mount) : Bool :=
  mounts.any fun
    | .other files => files path ≠ .absent
    | .http _ => false

def prefetch (mounts : List Mount) (path : Bytes) (priority : HttpPriority) : List Mount :=
  if has_local path mounts then mounts else request_http path priority none mounts

end MountManager

end AoSdl
