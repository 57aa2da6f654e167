import AoSdl.Lib.BigEndian
import AoSdl.ImageAsset
import AoSdl.Text

/-! `ApngDecoder`: the chunks of an animated PNG, and its frames on one canvas. The decoder of still images and the
blending of two pixels are parameters. -/
namespace AoSdl.ApngDecoder

/-- Reads are in front of enough bytes. -/
def read_u32 : Bytes → UInt32
  | a :: b :: c :: d :: _ => a.toUInt32 <<< 24 ||| b.toUInt32 <<< 16 ||| c.toUInt32 <<< 8 ||| d.toUInt32
  | _ => 0

def read_u16 : Bytes → UInt16
  | a :: b :: _ => a.toUInt16 <<< 8 ||| b.toUInt16
  | _ => 0

def write_u32 (v : UInt32) : Bytes := [(v >>> 24).toUInt8, (v >>> 16).toUInt8, (v >>> 8).toUInt8, v.toUInt8]

structure ChunkRef where
  type : Bytes
  body : Bytes
  deriving DecidableEq

def ChunkRef.length (c : ChunkRef) : ℕ := c.body.length

def ChunkRef.tag_eq (c : ChunkRef) (tag : String) : Bool := c.type == bytes tag

structure FcTL where
  width : UInt32
  height : UInt32
  x_offset : UInt32
  y_offset : UInt32
  delay_num : UInt16
  delay_den : UInt16
  dispose_op : UInt8
  blend_op : UInt8
  deriving DecidableEq

def parse_fctl (body : Bytes) : FcTL where
  width := read_u32 (body.drop 4)
  height := read_u32 (body.drop 8)
  x_offset := read_u32 (body.drop 12)
  y_offset := read_u32 (body.drop 16)
  delay_num := read_u16 (body.drop 20)
  delay_den := read_u16 (body.drop 22)
  dispose_op := body.getD 24 0
  blend_op := body.getD 25 0

def fctl_duration_ms (f : FcTL) : ℤ :=
  let den := if f.delay_den = 0 then 100 else f.delay_den
  (f.delay_num.toNat * 1000 / den.toNat : ℕ)

def png_sig : Bytes := [0x89, 80, 78, 71, 0x0D, 0x0A, 0x1A, 0x0A]

/-- The checksum is zero. -/
def write_chunk (type data : Bytes) : Bytes := write_u32 (UInt32.ofNat data.length) ++ type ++ data ++ [0, 0, 0, 0]

def build_png (ihdr_body : Bytes) (frame_width frame_height : UInt32) (ancillary_chunks : List ChunkRef)
    (idat_bodies : List Bytes) : Bytes :=
  let ihdr := write_u32 frame_width ++ write_u32 frame_height ++ ihdr_body.drop 8
  let iend : Bytes := [0, 0, 0, 0, 73, 69, 78, 68, 0xAE, 0x42, 0x60, 0x82]
  png_sig ++ write_chunk (bytes "IHDR") ihdr ++ ancillary_chunks.flatMap (fun c => write_chunk c.type c.body) ++
    idat_bodies.flatMap (write_chunk (bytes "IDAT")) ++ iend

structure FrameInfo where
  fctl : FcTL
  data : List Bytes := []
  deriving DecidableEq

/-- The chunks from a position on. -/
def parse_from (rest : Bytes) : List ChunkRef :=
  if rest.length < 8 then []
  else
    let len := (read_u32 rest).toNat
    if rest.length < 12 + len then []
    else ⟨(rest.drop 4).take 4, (rest.drop 8).take len⟩ :: parse_from (rest.drop (12 + len))
termination_by rest.length
decreasing_by
  rw [List.length_drop]
  omega

def parse_chunks (data : Bytes) : List ChunkRef := parse_from (data.drop 8)

structure Collected where
  frame_infos : List FrameInfo := []
  all_idats : List Bytes := []
  ancillary : List ChunkRef := []

/-- The active frame is the last one. -/
def collect (s : Collected) (c : ChunkRef) : Collected :=
  if c.tag_eq "fcTL" && 26 ≤ c.length then { s with frame_infos := s.frame_infos ++ [⟨parse_fctl c.body, []⟩] }
  else if c.tag_eq "IDAT" then { s with all_idats := s.all_idats ++ [c.body] }
  else if c.tag_eq "fdAT" && 4 < c.length then
    { s with frame_infos := s.frame_infos.modifyLast fun fi => { fi with data := fi.data ++ [c.body.drop 4] } }
  else if !c.tag_eq "acTL" && !c.tag_eq "IEND" && !c.tag_eq "tEXt" && !c.tag_eq "iTXt" && !c.tag_eq "zTXt" &&
      s.all_idats.isEmpty then
    { s with ancillary := s.ancillary ++ [c] }
  else s

/-- The frames, and the chunks that a still image needs. -/
def collect_frames (chunks : List ChunkRef) : List FrameInfo × List ChunkRef :=
  let s := (chunks.drop 1).foldl collect {}
  match s.frame_infos with
  | [] => ([], s.ancillary)
  | first :: others =>
    (if first.data.isEmpty then { first with data := s.all_idats } :: others else first :: others, s.ancillary)

/-- An image as the decoder of still images gives it. -/
structure Image where
  w : UInt32
  h : UInt32
  pixels : Bytes
  deriving DecidableEq

structure Pixel where
  r : UInt8
  g : UInt8
  b : UInt8
  a : UInt8

def Pixel.bytes (p : Pixel) : Bytes := [p.r, p.g, p.b, p.a]

def pixel_at (pixels : Bytes) (i : ℕ) : Pixel :=
  ⟨pixels.getD i 0, pixels.getD (i + 1) 0, pixels.getD (i + 2) 0, pixels.getD (i + 3) 0⟩

structure DecodedFrame where
  width : ℤ
  height : ℤ
  duration_ms : ℤ
  pixels : Bytes
  deriving DecidableEq

/-- A round of the loop of `flip_vertical_rgba`. -/
def swap_rows (row_bytes top bot : ℕ) (pixels : Bytes) : Bytes :=
  let tmp := (pixels.drop (top * row_bytes)).take row_bytes
  let pixels := memcpy pixels (top * row_bytes) ((pixels.drop (bot * row_bytes)).take row_bytes)
  memcpy pixels (bot * row_bytes) tmp

def flip_vertical_rgba (pixels : Bytes) (width height : ℤ) : Bytes :=
  let row_bytes := (width * 4 % 2 ^ 64).toNat
  (List.range (height / 2).toNat).foldl (fun pixels y => swap_rows row_bytes y (height.toNat - 1 - y) pixels) pixels

/-- The rounds of a loop that stops where the canvas ends. -/
def rounds (length offset canvas : UInt32) : List UInt32 :=
  ((List.range length.toNat).map UInt32.ofNat).takeWhile fun i => offset + i < canvas

/-- The rows and columns of the loops over a frame. -/
def visits (fctl : FcTL) (image : Image) (canvas_w canvas_h : UInt32) : List (UInt32 × UInt32) :=
  (rounds image.h fctl.y_offset canvas_h).flatMap fun row =>
    (rounds image.w fctl.x_offset canvas_w).map fun col => (row, col)

def src_idx (fw : UInt32) (visit : UInt32 × UInt32) : UInt32 := (visit.1 * fw + visit.2) * 4

def dst_idx (fctl : FcTL) (canvas_w : UInt32) (visit : UInt32 × UInt32) : UInt32 :=
  ((fctl.y_offset + visit.1) * canvas_w + (fctl.x_offset + visit.2)) * 4

/-- `canvas_w * canvas_h * 4`. -/
def canvas_size (canvas_w canvas_h : UInt32) : UInt32 := canvas_w * canvas_h * 4

structure Opened where
  chunks : List ChunkRef
  ihdr_body : Bytes
  canvas_w : UInt32
  canvas_h : UInt32
  is_apng : Bool
  num_frames : UInt32

/-- The beginning of `decode`. -/
def opened (data : Bytes) : Option Opened :=
  if data.length < 8 || data.take 8 != png_sig then none
  else
    match parse_chunks data with
    | [] => none
    | ihdr :: chunks =>
      if !ihdr.tag_eq "IHDR" || ihdr.length < 13 then none
      else
        let acTL := (ihdr :: chunks).find? fun c => c.tag_eq "acTL" && 8 ≤ c.length
        some {
          chunks := ihdr :: chunks
          ihdr_body := ihdr.body
          canvas_w := read_u32 ihdr.body
          canvas_h := read_u32 (ihdr.body.drop 4)
          is_apng := acTL.isSome
          num_frames := (acTL.map fun c => read_u32 c.body).getD 1 }

/-- The frames are decoded one by one. -/
def Opened.multi (o : Opened) : Bool := o.is_apng && 1 < o.num_frames

section Decoding

variable (stbi_load_from_memory : Bytes → Option Image) (blend_over : Pixel → Pixel → Pixel)

/-- The image of a frame without its offsets. -/
def sub_image (ihdr_body : Bytes) (ancillary : List ChunkRef) (fi : FrameInfo) : Option Image :=
  stbi_load_from_memory (build_png ihdr_body fi.fctl.width fi.fctl.height ancillary fi.data)

/-- The bytes of a pixel are written; an index behind the canvas is undefined in the source. -/
def composite (fctl : FcTL) (image : Image) (canvas_w : UInt32) (canvas : Bytes) (visit : UInt32 × UInt32) : Bytes :=
  let src := pixel_at image.pixels (src_idx image.w visit).toNat
  let dst := (dst_idx fctl canvas_w visit).toNat
  memcpy canvas dst (if fctl.blend_op = 1 then blend_over (pixel_at canvas dst) src else src).bytes

def clear (fctl : FcTL) (canvas_w : UInt32) (canvas : Bytes) (visit : UInt32 × UInt32) : Bytes :=
  memcpy canvas (dst_idx fctl canvas_w visit).toNat [0, 0, 0, 0]

def decode_frame (fi : FrameInfo) (ihdr_body : Bytes) (ancillary : List ChunkRef) (canvas : Bytes)
    (canvas_w canvas_h : UInt32) (flip_y : Bool) : Option DecodedFrame × Bytes :=
  match sub_image stbi_load_from_memory ihdr_body ancillary fi with
  | none => (none, canvas)
  | some image =>
    let visited := visits fi.fctl image canvas_w canvas_h
    let prev_canvas := canvas
    let canvas := visited.foldl (composite blend_over fi.fctl image canvas_w) canvas
    let width := canvas_w.toInt32.toInt
    let height := canvas_h.toInt32.toInt
    let duration_ms := fctl_duration_ms fi.fctl
    let frame : DecodedFrame := {
      width, height
      duration_ms := if 0 < duration_ms then duration_ms else 100
      pixels := if flip_y then flip_vertical_rgba canvas width height else canvas }
    let canvas :=
      if fi.fctl.dispose_op = 1 then visited.foldl (clear fi.fctl canvas_w) canvas
      else if fi.fctl.dispose_op = 2 then prev_canvas
      else canvas
    (some frame, canvas)

/-- A round of the loop over the frames. -/
def decode_next (o : Opened) (ancillary : List ChunkRef) (flip_y : Bool) (s : List DecodedFrame × Bytes)
    (fi : FrameInfo) : List DecodedFrame × Bytes :=
  if fi.data.isEmpty then s
  else
    let (result, canvas) := decode_frame stbi_load_from_memory blend_over fi o.ihdr_body ancillary s.2 o.canvas_w
      o.canvas_h flip_y
    (s.1 ++ result.toList, canvas)

def decode (data : Bytes) (flip_y : Bool) : Option (List DecodedFrame) :=
  match opened data with
  | none => none
  | some o =>
    if !o.multi then
      (stbi_load_from_memory data).map fun image =>
        let w := image.w.toInt32.toInt
        let h := image.h.toInt32.toInt
        let pixels := if flip_y then flip_vertical_rgba image.pixels w h else image.pixels
        [⟨w, h, 0, pixels⟩]
    else
      let (frame_infos, ancillary) := collect_frames o.chunks
      let canvas := List.replicate (canvas_size o.canvas_w o.canvas_h).toNat 0
      let (frames, _) :=
        frame_infos.foldl (decode_next stbi_load_from_memory blend_over o ancillary flip_y) ([], canvas)
      if frames.isEmpty then none else some frames

end Decoding

end AoSdl.ApngDecoder
