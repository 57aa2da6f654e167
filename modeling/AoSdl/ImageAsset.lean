import Mathlib.Algebra.BigOperators.Group.List.Basic
import Mathlib.Algebra.GroupWithZero.Nat
import Mathlib.Order.Nat

/-! An image: its frames one after another in one pixel buffer, which only grows. -/
namespace AoSdl

structure ImageFrame where
  width : ℕ
  height : ℕ
  duration_ms : ℤ

structure ImageAsset where
  frames_ : List ImageFrame
  pixel_data_ : List UInt8
  generation_ : ℕ

def ImageFrame.bytes (f : ImageFrame) : ℕ := f.width * f.height * 4

/-- The bytes of `src` go to `offset` and after it; what would be behind the end of `dst` is lost here
and undefined in the source. -/
def memcpy (dst : List UInt8) (offset : ℕ) (src : List UInt8) : List UInt8 :=
  dst.mapIdx fun i byte => if offset ≤ i then src[i - offset]?.getD byte else byte

@[simp] theorem length_memcpy (dst : List UInt8) (offset : ℕ) (src : List UInt8) :
    (memcpy dst offset src).length = dst.length := List.length_mapIdx

theorem getElem?_memcpy {dst src : List UInt8} {i : ℕ} (fits : src.length ≤ dst.length)
    (inside : i < src.length) : (memcpy dst 0 src)[i]? = src[i]? := by
  rw [memcpy, List.getElem?_mapIdx, List.getElem?_eq_getElem (inside.trans_le fits)]
  simp [List.getElem?_eq_getElem inside]

namespace ImageAsset

/-- The constructor, for frames whose pixels are given with their sizes. -/
def new (decoded_frames : List (List UInt8 × ImageFrame)) : ImageAsset :=
  match decoded_frames with
  | [] => ⟨[], [], 0⟩
  | (_, first) :: _ =>
    { frames_ := decoded_frames.map Prod.snd
      pixel_data_ := decoded_frames.flatMap fun df =>
        memcpy (List.replicate first.bytes 0) 0 (df.1.take first.bytes)
      generation_ := 0 }

def memory_size (a : ImageAsset) : ℕ := a.pixel_data_.length

/-- The frames after an update of the frame at `index`; only its height can change. -/
def resized (a : ImageAsset) (index : ℕ) (frame : ImageFrame) (pixels : List UInt8) : List ImageFrame :=
  a.frames_.set index { frame with height := pixels.length / 4 / frame.width }

def needed (frames : List ImageFrame) : ℕ := (frames.map ImageFrame.bytes).sum

def update_frame (a : ImageAsset) (index : ℕ) (pixels : List UInt8) : ImageAsset :=
  match a.frames_[index]? with
  | none => a
  | some frame =>
    if pixels = [] then a
    else
      let frames := a.resized index frame pixels
      let pixel_data :=
        if a.pixel_data_.length < needed frames then List.replicate (needed frames) 0
        else a.pixel_data_
      { frames_ := frames
        pixel_data_ := memcpy pixel_data (needed (frames.take index)) pixels
        generation_ := a.generation_ + 1 }

end ImageAsset

end AoSdl
