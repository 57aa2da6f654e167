import AoSdl.AssetCache
import AoSdl.MountManager
import Mathlib.Data.List.DropRight

/-! The asset library: a lookup in the cache under a key of the operation's own, and where that fails the
file is fetched from the mounts, decoded, cached under the key, and its raw bytes released. -/
namespace AoSdl
open HttpPool AssetCache

/-- A decoder gets the path and the data, and gives nothing for data of another format. -/
structure Decoder (α : Type*) where
  extensions : List Bytes
  decode : Bytes → Bytes → Option α

/-- The libraries that decode: no frames for images of another format, each frame with its pixels. -/
structure Decoders where
  webp : Bytes → List (Bytes × ImageFrame)
  apng : Bytes → List (Bytes × ImageFrame)
  gif : Bytes → List (Bytes × ImageFrame)
  stbi : Bytes → List (Bytes × ImageFrame)
  opus : Bytes → Option SoundAsset
  miniaudio : Bytes → Option SoundAsset

/-- The values by section and key. -/
abbrev IniDocument : Type := Bytes → Bytes → Option Bytes

structure AssetLibrary where
  mounts : List Mount
  heap : Heap
  cache_ : AssetCache
  next_asset : AssetId
  active_session_id_ : UInt32
  shader_backend_ : Bytes

namespace AssetLibrary

def dot : UInt8 := 46

def with_extension (path ext : Bytes) : Bytes := path ++ [dot] ++ ext

/-- Behind the last dot; all of a text without one. -/
def after_last_dot (s : Bytes) : Bytes := (s.reverse.takeWhile (· ≠ dot)).reverse

/-- Up to the last dot; all of a text without one. -/
def before_last_dot (s : Bytes) : Bytes :=
  if dot ∈ s then ((s.reverse.dropWhile (· ≠ dot)).drop 1).reverse else s

def frames (decode : Bytes → List (Bytes × ImageFrame)) (_path data : Bytes) : Option ImageAsset :=
  match decode data with
  | [] => none
  | first :: rest => some (ImageAsset.new (first :: rest))

def image_decoders (d : Decoders) : List (Decoder ImageAsset) :=
  [⟨[bytes "webp"], frames d.webp⟩, ⟨[bytes "apng", bytes "png"], frames d.apng⟩,
    ⟨[bytes "gif"], frames d.gif⟩,
    ⟨[bytes "jpg", bytes "jpeg", bytes "bmp", bytes "tga"], frames d.stbi⟩]

/-- A sound comes with the format that it is given. -/
def audio_decoders (d : Decoders) : List (Decoder (Bytes × SoundAsset)) :=
  [⟨[bytes "opus"], fun _ data => (d.opus data).map fun sound => (bytes "opus", sound)⟩,
    ⟨[bytes "ogg", bytes "mp3", bytes "wav", bytes "flac"],
      fun path data => (d.miniaudio data).map fun sound => (after_last_dot path, sound)⟩]

/-- Each extension once, in the order of the decoders. -/
def supported_extensions {α : Type*} (decoders : List (Decoder α)) : List Bytes :=
  decoders.foldl (fun result dec =>
    dec.extensions.foldl (fun result ext => if ext ∈ result then result else result ++ [ext]) result) []

def supported_image_extensions (d : Decoders) : List Bytes := supported_extensions (image_decoders d)

def supported_audio_extensions (d : Decoders) : List Bytes := supported_extensions (audio_decoders d)

def any_decoder {α : Type*} (decoders : List (Decoder α)) (path data : Bytes) : Option α :=
  decoders.findSome? fun dec => dec.decode path data

/-- The decoders that claim the format, then all. -/
def try_decoders {α : Type*} (decoders : List (Decoder α)) (format path data : Bytes) : Option α :=
  match any_decoder (decoders.filter (format ∈ ·.extensions)) path data with
  | some a => some a
  | none => any_decoder decoders path data

def blank (c : UInt8) : Bool := c = 32 || c = 9

def chomp (line : Bytes) : Bytes := if line.getLast? = some 13 then line.dropLast else line

/-- The section and the document after a line: `;` and `#` begin a comment, `[` a section. -/
def parse_line (state : Bytes × IniDocument) (line : Bytes) : Bytes × IniDocument :=
  let (current_section, doc) := state
  match (chomp line).dropWhile blank with
  | [] => state
  | c :: rest =>
    if c = 59 ∨ c = 35 then state
    else if c = 91 then
      if 93 ∈ rest then (rest.takeWhile (· ≠ 93), doc) else state
    else if 61 ∈ c :: rest then
      let key := ((c :: rest).takeWhile (· ≠ 61)).rdropWhile blank
      let val := ((c :: rest).dropWhile (· ≠ 61)).drop 1
      let val := if val.all blank then val else val.dropWhile blank
      (current_section,
        Function.update doc current_section (Function.update (doc current_section) key (some val)))
    else state

def parse_ini (data : Bytes) : IniDocument :=
  ((data.splitOn 10).foldl parse_line ([], fun _ _ => none)).2

def new (mounts : List Mount) (cache_max_bytes : UInt64) (shader_backend : Bytes) : AssetLibrary where
  mounts := mounts
  heap := ⟨fun _ => ⟨[], [], .raw []⟩, fun _ => 0⟩
  cache_ := AssetCache.new cache_max_bytes
  next_asset := 0
  active_session_id_ := 0
  shader_backend_ := shader_backend

variable (d : Decoders) (lib : AssetLibrary)

/-- A fresh object with one reference. -/
def make_shared (a : Asset) : AssetLibrary :=
  { lib with
    heap := ⟨Function.update lib.heap.assets lib.next_asset a,
      Function.update lib.heap.held lib.next_asset 1⟩
    next_asset := lib.next_asset + 1 }

def insert (asset : AssetId) (session_id : UInt32) : AssetLibrary :=
  { lib with cache_ := AssetCache.insert lib.heap lib.cache_ asset session_id }

/-- A fresh object is cached; its maker has a reference to it. -/
def cache_new (a : Asset) : AssetLibrary :=
  (lib.make_shared a).insert lib.next_asset lib.active_session_id_

def hold (asset : AssetId) : AssetLibrary := { lib with heap := Heap.hold lib.heap asset }

def drop (asset : AssetId) : AssetLibrary := { lib with heap := Heap.drop lib.heap asset }

/-- What the cache has under the key goes to the caller. -/
def get_cached (key : Bytes) : Option AssetId × AssetLibrary :=
  let (found, cache_) := AssetCache.get lib.cache_ key
  (found, { lib with cache_, heap := Heap.take lib.heap found })

def fetch_data (path : Bytes) : Option Bytes × AssetLibrary :=
  let (data, mounts) := MountManager.fetch_data lib.mounts path
  (data, { lib with mounts })

def release_http (path : Bytes) : AssetLibrary :=
  { lib with mounts := MountManager.release_http lib.mounts path }

def release_variants (path : Bytes) (extensions : List Bytes) : AssetLibrary :=
  extensions.foldl (fun lib ext => lib.release_http (with_extension path ext)) lib

/-- The first of the files that a mount has. -/
def probe (path : Bytes) : AssetLibrary → List Bytes → Option (Bytes × Bytes) × AssetLibrary
  | lib, [] => (none, lib)
  | lib, ext :: rest =>
    let candidate := with_extension path ext
    match lib.fetch_data candidate with
    | (some data, lib) => (some (candidate, data), lib)
    | (none, lib) => probe path lib rest

/-- A lookup in the cache first. -/
def lookup (key : Bytes) (load : AssetLibrary → Option AssetId × AssetLibrary) :
    Option AssetId × AssetLibrary :=
  match lib.get_cached key with
  | (some asset, lib) => (some asset, lib)
  | (none, lib) => load lib

/-- What is found under an extension is decoded and cached, and no extension's raw bytes are kept. -/
def load (path : Bytes) (extensions : List Bytes) (decode : Bytes → Bytes → Option Asset) :
    Option AssetId × AssetLibrary :=
  match probe path lib extensions with
  | (none, lib) => (none, lib)
  | (some (resolved, data), lib) =>
    match decode resolved data with
    | none => (none, lib)
    | some asset => (some lib.next_asset, (lib.cache_new asset).release_variants path extensions)

def decode_image (path resolved data : Bytes) : Option Asset :=
  let format := after_last_dot resolved
  (try_decoders (image_decoders d) format path data).map fun image => ⟨path, format, .image image⟩

def image (path : Bytes) : Option AssetId × AssetLibrary :=
  lib.lookup path fun lib => lib.load path (supported_image_extensions d) (decode_image d path)

def decode_audio (path resolved data : Bytes) : Option Asset :=
  (try_decoders (audio_decoders d) (after_last_dot resolved) path data).map fun (format, sound) =>
    ⟨path, format, .sound sound⟩

def audio (path : Bytes) : Option AssetId × AssetLibrary :=
  lib.lookup path fun lib => lib.load path (supported_audio_extensions d) (decode_audio d path)

/-- The exact file, tried with every decoder. -/
def load_exact (path : Bytes) : Option AssetId × AssetLibrary :=
  match lib.fetch_data path with
  | (none, lib) => (none, lib)
  | (some data, lib) =>
    let cache_key := before_last_dot path
    match any_decoder (audio_decoders d) cache_key data with
    | none => (none, lib)
    | some (format, sound) =>
      (some lib.next_asset, (lib.cache_new ⟨cache_key, format, .sound sound⟩).release_http path)

def audio_exact (path : Bytes) : Option AssetId × AssetLibrary :=
  lib.lookup (before_last_dot path) fun lib => lib.load_exact d path

/-- The bytes that the cache has under the path, of a raw asset. -/
def cached_raw (path : Bytes) : Option Bytes :=
  match (AssetCache.peek lib.cache_ path).map fun asset => (lib.heap.assets asset).content with
  | some (.raw data) => some data
  | _ => none

/-- Raw bytes are cached for the viewer; nobody else has the object. -/
def cache_raw (path format data : Bytes) : AssetLibrary :=
  ((lib.cache_new ⟨path, format, .raw data⟩).drop lib.next_asset).release_http path

def config (path : Bytes) : Option IniDocument × AssetLibrary :=
  match lib.cached_raw path with
  | some data => (some (parse_ini data), lib)
  | none =>
    let cached := AssetCache.peek lib.cache_ path
    match lib.fetch_data path with
    | (none, lib) => (none, lib)
    | (some data, lib) =>
      (some (parse_ini data), if cached.isSome then lib else lib.cache_raw path (bytes "ini") data)

def raw (path : Bytes) : Option Bytes × AssetLibrary :=
  match lib.cached_raw path with
  | some data => (some data, lib)
  | none =>
    match lib.fetch_data path with
    | (none, lib) => (none, lib)
    | (some data, lib) => (some data, lib.cache_raw path (bytes "raw") data)

def shader_key (path : Bytes) : Bytes := path ++ bytes ":" ++ lib.shader_backend_

def load_shader (path : Bytes) : Option AssetId × AssetLibrary :=
  let metal := lib.shader_backend_ = bytes "Metal"
  let subdir := if metal then bytes "metal" else bytes "glsl"
  let vert_exts := if metal then [bytes "metal"] else [bytes "glsl", bytes "vert"]
  let frag_exts := if metal then [bytes "metal"] else [bytes "glsl", bytes "frag"]
  let cache_key := lib.shader_key path
  match probe (path ++ bytes "/" ++ subdir ++ bytes "/vertex") lib vert_exts with
  | (vert_result, lib) =>
    match probe (path ++ bytes "/" ++ subdir ++ bytes "/fragment") lib frag_exts, vert_result with
    | (some (_, frag_src), lib), some (_, vert_src) =>
      (some lib.next_asset, lib.cache_new ⟨cache_key, subdir, .shader ⟨vert_src, frag_src⟩⟩)
    | (_, lib), _ => (none, lib)

/-- The cast of `shader` is a checked one. -/
def shader (path : Bytes) : Option AssetId × AssetLibrary :=
  match lib.get_cached (lib.shader_key path) with
  | (some asset, lib') =>
    if (lib.heap.assets asset).kind = .shader then (some asset, lib') else (none, lib'.drop asset)
  | (none, lib) => lib.load_shader path

/-- The caller keeps its own reference. -/
def register_asset (asset : AssetId) : AssetLibrary := lib.insert asset 0

def prefetch (path : Bytes) (extensions : List Bytes) (priority : HttpPriority) : AssetLibrary :=
  { lib with
    mounts := extensions.foldl (fun mounts ext =>
      MountManager.prefetch mounts (with_extension path ext) priority) lib.mounts }

/-- A prefetch of a path that is not cached; the look at the cache counts as a use. -/
def prefetch_unless_cached (path : Bytes) (extensions : List Bytes) : AssetLibrary :=
  match AssetCache.get lib.cache_ path with
  | (some _, cache_) => { lib with cache_ }
  | (none, _) => lib.prefetch path extensions .NORMAL

def prefetch_image (path : Bytes) : AssetLibrary :=
  lib.prefetch_unless_cached path [bytes "webp", bytes "apng", bytes "gif", bytes "png"]

def prefetch_audio (path : Bytes) : AssetLibrary :=
  lib.prefetch_unless_cached path (supported_audio_extensions d)

def prefetch_config (path : Bytes) : AssetLibrary :=
  { lib with mounts := MountManager.prefetch lib.mounts path .NORMAL }

end AssetLibrary

end AoSdl
