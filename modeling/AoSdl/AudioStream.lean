import AoSdl.Lib.Runs
import AoSdl.Text
import Mathlib.Data.List.TakeDrop

/-! The audio stream: the download thread feeds raw bytes, the decode thread reads them through a blocking
cursor and writes samples to a ring, and the audio callback takes them out. A file that Opus rejects is
decoded by the other decoder from a copy of what has arrived. -/
namespace AoSdl

/-- The decoders. Opus gets the bytes as they arrive: `header` is what it makes of the beginning, nothing
yet or a verdict, and `so_far` the samples that the bytes are enough for. -/
structure AudioDecoders (α : Type*) where
  header : Bytes → Option Bool
  so_far : Bytes → List α
  opus : Bytes → Option (List α)
  miniaudio : Bytes → Option (List α)
  header_decides : ∀ front file verdict, front <+: file → header front = some verdict →
    (opus file).isSome = verdict
  so_far_isPrefix : ∀ front file pcm, front <+: file → opus file = some pcm → so_far front <+: pcm
  opus_nil : opus [] = none
  miniaudio_nil : miniaudio [] = none

namespace AudioStream

/-- What the decode loop takes its samples from: Opus, which has seen the end of the file or not and gave
so many samples, or the samples that miniaudio has still to give. -/
inductive Source (α : Type*) where
  | opus (eof : Bool) (emitted : ℕ)
  | miniaudio (rest : List α)
deriving DecidableEq

/-- Where the decode thread is; it writes a frame to the ring until all of it is written. -/
inductive Thread (α : Type*) where
  | idle
  | opening
  | fallback
  | decoding (source : Source α)
  | writing (frame : List α) (source : Source α)
  | done
deriving DecidableEq

end AudioStream

/-- `written` is all that ever went to the ring. -/
structure AudioStream (α : Type*) where
  raw_data_ : Bytes
  raw_read_pos_ : ℕ
  raw_complete_ : Bool
  pcm_ring_ : List α
  ready_ : Bool
  finished_ : Bool
  decode_started_ : Bool
  thread : AudioStream.Thread α
  written : List α

namespace AudioStream

variable {α : Type*}

/-- The next power of two after two seconds of stereo. -/
def ring_capacity : ℕ := 262144

/-- The samples that one call of a decoder gives at most. -/
def opus_frame : ℕ := 5760 * 2

def miniaudio_frame : ℕ := 4096 * 2

def new : AudioStream α where
  raw_data_ := []
  raw_read_pos_ := 0
  raw_complete_ := false
  pcm_ring_ := []
  ready_ := false
  finished_ := false
  decode_started_ := false
  thread := .idle
  written := []

inductive StreamRead where
  | waits
  | eof
  | got (n : ℕ)

section

variable (s : AudioStream α)

def stream_read (count : ℕ) : StreamRead :=
  if s.raw_read_pos_ < s.raw_data_.length then
    .got (min count (s.raw_data_.length - s.raw_read_pos_))
  else if s.raw_complete_ then .eof
  else .waits

/-- The bytes that went through the cursor. -/
def consumed : Bytes := s.raw_data_.take s.raw_read_pos_

def feed (data : Bytes) : AudioStream α :=
  { s with
    raw_data_ := s.raw_data_ ++ data
    decode_started_ := true
    thread := if s.decode_started_ then s.thread else .opening }

def mark_complete : AudioStream α :=
  { s with
    raw_complete_ := true
    finished_ := s.finished_ || !s.decode_started_ }

def read_frames (frame_count : ℕ) : AudioStream α := { s with pcm_ring_ := s.pcm_ring_.drop (frame_count * 2) }

def finish : AudioStream α := { s with finished_ := true, thread := .done }

/-- As much of the frame as the ring has room for. -/
def write (frame : List α) (source : Source α) : AudioStream α :=
  let n := min frame.length (ring_capacity - s.pcm_ring_.length)
  { s with
    pcm_ring_ := s.pcm_ring_ ++ frame.take n
    written := s.written ++ frame.take n
    thread := if n = frame.length then .decoding source else .writing (frame.drop n) source }

/-- The next bytes go to the decoder, or it learns that there are none, or it waits. -/
def pull (count : ℕ) (at_eof : AudioStream α) : AudioStream α :=
  match s.stream_read count with
  | .waits => s
  | .eof => at_eof
  | .got n => { s with raw_read_pos_ := s.raw_read_pos_ + n }

end

variable (d : AudioDecoders α)

def judge (s : AudioStream α) (accepts eof : Bool) : AudioStream α :=
  if accepts then { s with ready_ := true, thread := .decoding (.opus eof 0) }
  else { s with thread := .fallback }

/-- The next step of the decode thread; a decoder asks for, and gives, up to `n + 1` at a time. -/
def decode (s : AudioStream α) (n : ℕ) : AudioStream α :=
  match s.thread with
  | .idle => s
  | .opening =>
    match d.header s.consumed with
    | some verdict => s.judge verdict false
    | none => s.pull (n + 1) (s.judge (d.opus s.consumed).isSome true)
  | .fallback =>
    match d.miniaudio s.raw_data_ with
    | none => s.finish
    | some pcm => { s with ready_ := true, thread := .decoding (.miniaudio pcm) }
  | .decoding (.opus eof emitted) =>
    let pcm := if eof then (d.opus s.consumed).getD [] else d.so_far s.consumed
    let frame := (pcm.drop emitted).take (min (n + 1) opus_frame)
    if emitted < pcm.length then { s with thread := .writing frame (.opus eof (emitted + frame.length)) }
    else if eof then s.finish
    else s.pull (n + 1) { s with thread := .decoding (.opus true emitted) }
  | .decoding (.miniaudio []) => s.finish
  | .decoding (.miniaudio (first :: rest)) =>
    let count := min (n + 1) miniaudio_frame
    { s with thread := .writing ((first :: rest).take count) (.miniaudio ((first :: rest).drop count)) }
  | .writing frame source => s.write frame source
  | .done => s

/-- The next `len` bytes of the file are fed, its end is marked, the decode thread takes a step, or the
callback reads. -/
inductive Event where
  | feed (len : ℕ)
  | mark_complete
  | decode (n : ℕ)
  | read_frames (frame_count : ℕ)

/-- The end is marked when the whole file was fed. -/
def step (file : Bytes) (s : AudioStream α) : Event → AudioStream α
  | .feed len => s.feed ((file.drop s.raw_data_.length).take len)
  | .mark_complete => if s.raw_data_ = file then s.mark_complete else s
  | .decode n => s.decode d n
  | .read_frames frame_count => s.read_frames frame_count

/-- The decoding of a complete file: that of the first decoder that takes it. -/
def decoding (file : Bytes) : List α := ((d.opus file).or (d.miniaudio file)).getD []

end AudioStream

end AoSdl
