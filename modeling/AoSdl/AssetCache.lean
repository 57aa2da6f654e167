import AoSdl.ImageAsset
import AoSdl.Text
import Mathlib.Logic.Function.Basic

/-! The assets that are cached: one class for each kind, under a path that is given once. -/
namespace AoSdl

structure SoundAsset where
  sample_rate_ : UInt32
  channels_ : UInt32
  samples_ : ℕ

structure ShaderAsset where
  vertex_source_ : Bytes
  fragment_source_ : Bytes

/-- Samples, vertices and indices are counted only. -/
structure MeshAsset where
  vertices_ : ℕ
  indices_ : ℕ
  generation_ : ℕ

/-- The class of an asset. -/
inductive AssetKind where
  | image | sound | raw | shader | mesh
deriving DecidableEq

inductive AssetContent where
  | image (a : ImageAsset)
  | sound (a : SoundAsset)
  | raw (data_ : Bytes)
  | shader (a : ShaderAsset)
  | mesh (a : MeshAsset)

structure Asset where
  path : Bytes
  format : Bytes
  content : AssetContent

namespace Asset

def sizeof_float : ℕ := 4

/-- Two, two and three floats. -/
def sizeof_MeshVertex : ℕ := 28

def sizeof_uint32 : ℕ := 4

def memory_size (a : Asset) : ℕ :=
  match a.content with
  | .image image => image.memory_size
  | .sound sound => sound.samples_ * sizeof_float
  | .raw data => data.length
  | .shader shader => shader.vertex_source_.length + shader.fragment_source_.length
  | .mesh mesh => mesh.vertices_ * sizeof_MeshVertex + mesh.indices_ * sizeof_uint32

def kind (a : Asset) : AssetKind :=
  match a.content with
  | .image _ => .image
  | .sound _ => .sound
  | .raw _ => .raw
  | .shader _ => .shader
  | .mesh _ => .mesh

/-- `ImageAsset::update_frame`, on an asset that is one. -/
def update_frame (a : Asset) (index : ℕ) (pixels : List UInt8) : Asset :=
  match a.content with
  | .image image => { a with content := .image (image.update_frame index pixels) }
  | _ => a

/-- `MeshAsset::update`, on an asset that is one. -/
def update (a : Asset) (vertices indices : ℕ) : Asset :=
  match a.content with
  | .mesh mesh => { a with content := .mesh ⟨vertices, indices, mesh.generation_ + 1⟩ }
  | _ => a

@[simp] theorem path_update_frame (a : Asset) (index : ℕ) (pixels : List UInt8) :
    (a.update_frame index pixels).path = a.path := by
  unfold update_frame
  split <;> rfl

@[simp] theorem path_update (a : Asset) (vertices indices : ℕ) :
    (a.update vertices indices).path = a.path := by
  unfold update
  split <;> rfl

end Asset

end AoSdl

/-! The asset cache: entries by path, the paths in the order of their last use, and a running total of
bytes. An asset is a shared object: the cache, the callers and an argument of `insert` count as
references to it, and what a caller does to it in place the cache sees. -/
namespace AoSdl

abbrev AssetId : Type := ℕ

/-- The assets and how many references to each the callers have. -/
structure Heap where
  assets : AssetId → Asset
  held : AssetId → ℕ

structure CacheEntry where
  asset : AssetId
  session_id : UInt32
deriving DecidableEq

/-- `lru` begins with the most recently used path. -/
structure AssetCache where
  max_bytes_ : UInt64
  used_bytes_ : UInt64
  lru : List Bytes
  entries : Bytes → Option CacheEntry

namespace AssetCache

def new (max_bytes : UInt64) : AssetCache where
  max_bytes_ := max_bytes
  used_bytes_ := 0
  lru := []
  entries := fun _ => none

def get (c : AssetCache) (path : Bytes) : Option AssetId × AssetCache :=
  match c.entries path with
  | none => (none, c)
  | some e => (some e.asset, { c with lru := path :: c.lru.erase path })

def peek (c : AssetCache) (path : Bytes) : Option AssetId := (c.entries path).map CacheEntry.asset

section

variable (h : Heap)

/-- An entry goes, and what its asset takes at this moment. -/
def drop_entry (c : AssetCache) (path : Bytes) (e : CacheEntry) : AssetCache :=
  { c with
    used_bytes_ := c.used_bytes_ - UInt64.ofNat (h.assets e.asset).memory_size
    lru := c.lru.erase path
    entries := Function.update c.entries path none }

/-- The reference of the entry, those of the callers, and the argument of the `insert` that is on. -/
def use_count (param : Option AssetId) (e : CacheEntry) : ℕ :=
  1 + h.held e.asset + if param = some e.asset then 1 else 0

/-- The walk over `lru` from its back. -/
def evict_walk (param : Option AssetId) : AssetCache → List Bytes → AssetCache
  | c, [] => c
  | c, path :: rest =>
    if c.used_bytes_ ≤ c.max_bytes_ then c
    else
      match c.entries path with
      | none => evict_walk param c rest
      | some e =>
        if use_count h param e = 1 then evict_walk param (drop_entry h c path e) rest
        else evict_walk param c rest

def evict_locked (param : Option AssetId) (c : AssetCache) : AssetCache :=
  evict_walk h param c c.lru.reverse

/-- `insert` up to the eviction. -/
def push (c : AssetCache) (asset : AssetId) (session_id : UInt32) : AssetCache :=
  let path := (h.assets asset).path
  let c :=
    match c.entries path with
    | none => c
    | some e => drop_entry h c path e
  { c with
    used_bytes_ := c.used_bytes_ + UInt64.ofNat (h.assets asset).memory_size
    lru := path :: c.lru
    entries := Function.update c.entries path (some ⟨asset, session_id⟩) }

def insert (c : AssetCache) (asset : AssetId) (session_id : UInt32) : AssetCache :=
  evict_locked h (some asset) (push h c asset session_id)

def evict (c : AssetCache) : AssetCache := evict_locked h none c

def clear (c : AssetCache) : AssetCache := new c.max_bytes_

def clear_session (c : AssetCache) (session_id : UInt32) : AssetCache :=
  if session_id = 0 then c
  else
    c.lru.foldl (fun c path =>
      match c.entries path with
      | none => c
      | some e => if e.session_id = session_id then drop_entry h c path e else c) c

end

/-- The heap and the cache, as the callers see them. -/
structure World where
  heap : Heap
  cache : AssetCache

inductive Event where
  | hold (asset : AssetId)
  | drop (asset : AssetId)
  | insert (asset : AssetId) (session_id : UInt32)
  | get (path : Bytes)
  | peek (path : Bytes)
  | evict
  | clear
  | clear_session (session_id : UInt32)
  | update_frame (asset : AssetId) (index : ℕ) (pixels : List UInt8)
  | update (asset : AssetId) (vertices indices : ℕ)

def Heap.hold (h : Heap) (asset : AssetId) : Heap :=
  { h with held := Function.update h.held asset (h.held asset + 1) }

def Heap.drop (h : Heap) (asset : AssetId) : Heap :=
  { h with held := Function.update h.held asset (h.held asset - 1) }

def Heap.set (h : Heap) (asset : AssetId) (a : Asset) : Heap :=
  { h with assets := Function.update h.assets asset a }

/-- What a lookup finds goes to its caller. -/
def Heap.take (h : Heap) (found : Option AssetId) : Heap := found.elim h (Heap.hold h)

def step (w : World) : Event → World
  | .hold asset => { w with heap := Heap.hold w.heap asset }
  | .drop asset => { w with heap := Heap.drop w.heap asset }
  | .insert asset session_id => { w with cache := insert w.heap w.cache asset session_id }
  | .get path => ⟨Heap.take w.heap (get w.cache path).1, (get w.cache path).2⟩
  | .peek path => { w with heap := Heap.take w.heap (peek w.cache path) }
  | .evict => { w with cache := evict w.heap w.cache }
  | .clear => { w with cache := clear w.cache }
  | .clear_session session_id => { w with cache := clear_session w.heap w.cache session_id }
  | .update_frame asset index pixels =>
    { w with heap := Heap.set w.heap asset ((w.heap.assets asset).update_frame index pixels) }
  | .update asset vertices indices =>
    { w with heap := Heap.set w.heap asset ((w.heap.assets asset).update vertices indices) }

end AssetCache

end AoSdl
