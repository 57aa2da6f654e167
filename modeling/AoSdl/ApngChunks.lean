import AoSdl.ApngDecoder

/-! The chunks that the bytes of a file hold, and that the decoder finds them. -/
namespace AoSdl.ApngDecoder
open Lib.BigEndian

/-- A type of four bytes, and a length that fits into four. -/
def ChunkRef.Sized (c : ChunkRef) : Prop := c.type.length = 4 ∧ c.body.length < 2 ^ 32

instance (c : ChunkRef) : Decidable c.Sized := inferInstanceAs (Decidable (_ ∧ _))

/-- The chunks with their checksums, whatever these are. -/
inductive Chunks : Bytes → List ChunkRef → Prop where
  | nil : Chunks [] []
  | cons {c : ChunkRef} (crc : Bytes) {rest : Bytes} {cs : List ChunkRef} (sized : c.Sized) (four : crc.length = 4)
      (more : Chunks rest cs) :
      Chunks (write_u32 (UInt32.ofNat c.body.length) ++ c.type ++ c.body ++ crc ++ rest) (c :: cs)

theorem read_write (v : UInt32) (rest : Bytes) : read_u32 (write_u32 v ++ rest) = v := join_split v

@[simp] theorem length_write_u32 (v : UInt32) : (write_u32 v).length = 4 := rfl

theorem parse_from_chunks {rest : Bytes} {cs : List ChunkRef} (chunks : Chunks rest cs) : parse_from rest = cs := by
  induction chunks with
  | nil =>
    rw [parse_from]
    rfl
  | @cons c crc rest cs sized four more ih =>
    obtain ⟨type, small⟩ := sized
    have value : (read_u32 (write_u32 (UInt32.ofNat c.body.length) ++ c.type ++ c.body ++ crc ++ rest)).toNat =
        c.body.length := by
      rw [List.append_assoc, List.append_assoc, List.append_assoc, read_write, UInt32.toNat_ofNat', Nat.mod_eq_of_lt small]
    generalize write_u32 (UInt32.ofNat c.body.length) = word, length_write_u32 (UInt32.ofNat c.body.length) = len at value
    have size : (word ++ c.type ++ c.body ++ crc ++ rest).length = 12 + c.body.length + rest.length := by
      simp only [List.length_append, len, type, four]
      omega
    have behind : (word ++ c.type ++ c.body ++ crc ++ rest).drop 4 = c.type ++ (c.body ++ (crc ++ rest)) := by
      simp only [List.append_assoc]
      exact List.drop_left' len
    have after : (word ++ c.type ++ c.body ++ crc ++ rest).drop 8 = c.body ++ (crc ++ rest) := by
      have both : (word ++ c.type).length = 8 := by rw [List.length_append, len, type]
      simp only [List.append_assoc]
      rw [← List.append_assoc]
      exact List.drop_left' both
    have next : (word ++ c.type ++ c.body ++ crc ++ rest).drop (12 + c.body.length) = rest := by
      refine List.drop_left' ?_
      simp only [List.length_append, len, type, four]
      omega
    rw [parse_from, if_neg (by omega), value, if_neg (by omega), behind, after, next, List.take_left' type,
      List.take_left' rfl, ih]

theorem parse_chunks_file {rest : Bytes} {cs : List ChunkRef} (chunks : Chunks rest cs) :
    parse_chunks (png_sig ++ rest) = cs := parse_from_chunks chunks

theorem Chunks.sized {b : Bytes} {cs : List ChunkRef} (chunks : Chunks b cs) : ∀ c ∈ cs, c.Sized := by
  induction chunks with
  | nil => exact List.forall_mem_nil _
  | cons crc sized four more ih => exact List.forall_mem_cons.mpr ⟨sized, ih⟩

theorem Chunks.append {b b' : Bytes} {cs cs' : List ChunkRef} (first : Chunks b cs) (second : Chunks b' cs') :
    Chunks (b ++ b') (cs ++ cs') := by
  induction first with
  | nil => exact second
  | cons crc sized four more ih =>
    rw [List.append_assoc]
    exact .cons crc sized four ih

theorem Chunks.written {cs : List ChunkRef} (sized : ∀ c ∈ cs, c.Sized) :
    Chunks (cs.flatMap fun c => write_chunk c.type c.body) cs := by
  induction cs with
  | nil => exact .nil
  | cons c cs ih =>
    obtain ⟨here, later⟩ := List.forall_mem_cons.mp sized
    exact .cons _ here rfl (ih later)

/-- What the beginning of `decode` reads from the chunks. -/
def header (ihdr : ChunkRef) (chunks : List ChunkRef) : Opened :=
  let acTL := (ihdr :: chunks).find? fun c => c.tag_eq "acTL" && 8 ≤ c.length
  { chunks := ihdr :: chunks
    ihdr_body := ihdr.body
    canvas_w := read_u32 ihdr.body
    canvas_h := read_u32 (ihdr.body.drop 4)
    is_apng := acTL.isSome
    num_frames := (acTL.map fun c => read_u32 c.body).getD 1 }

theorem opened_file {rest : Bytes} {ihdr : ChunkRef} {cs : List ChunkRef} (chunks : Chunks rest (ihdr :: cs))
    (first : ihdr.tag_eq "IHDR" = true) (long : 13 ≤ ihdr.length) : opened (png_sig ++ rest) = some (header ihdr cs) := by
  have sig : ¬ ((png_sig ++ rest).length < 8 || (png_sig ++ rest).take 8 != png_sig) = true := by
    have size : png_sig.length = 8 := rfl
    rw [List.take_left' size, List.length_append, size]
    simp
  have fine : ¬ (!ihdr.tag_eq "IHDR" || ihdr.length < 13) = true := by
    rw [first]
    simp only [Bool.not_true, Bool.false_or, decide_eq_true_eq]
    omega
  rw [opened, if_neg sig, parse_chunks_file chunks]
  dsimp only
  rw [if_neg fine]
  rfl

/-- The header of a frame. -/
def frame_ihdr (ihdr_body : Bytes) (frame_width frame_height : UInt32) : ChunkRef :=
  ⟨bytes "IHDR", write_u32 frame_width ++ write_u32 frame_height ++ ihdr_body.drop 8⟩

/-- The chunks of the still image that a frame is made to. -/
def still_chunks (ancillary : List ChunkRef) (idat_bodies : List Bytes) : List ChunkRef :=
  ancillary ++ (idat_bodies.map (ChunkRef.mk (bytes "IDAT")) ++ [⟨bytes "IEND", []⟩])

theorem build_png_chunks {ihdr_body : Bytes} {ancillary : List ChunkRef} {idat_bodies : List Bytes}
    (frame_width frame_height : UInt32) (header : ihdr_body.length < 2 ^ 31) (sized : ∀ c ∈ ancillary, c.Sized)
    (small : ∀ b ∈ idat_bodies, b.length < 2 ^ 32) :
    ∃ rest, build_png ihdr_body frame_width frame_height ancillary idat_bodies = png_sig ++ rest ∧
      Chunks rest (frame_ihdr ihdr_body frame_width frame_height :: still_chunks ancillary idat_bodies) := by
  have ihdr_sized : (frame_ihdr ihdr_body frame_width frame_height).Sized := by
    refine ⟨rfl, ?_⟩
    simp only [frame_ihdr, List.length_append, length_write_u32, List.length_drop]
    omega
  have idats : ∀ c ∈ idat_bodies.map (ChunkRef.mk (bytes "IDAT")), c.Sized := by
    intro c member
    obtain ⟨b, inside, rfl⟩ := List.mem_map.mp member
    exact ⟨rfl, small b inside⟩
  have iend : Chunks [0, 0, 0, 0, 73, 69, 78, 68, 0xAE, 0x42, 0x60, 0x82] [⟨bytes "IEND", []⟩] :=
    .cons (c := ⟨bytes "IEND", []⟩) [0xAE, 0x42, 0x60, 0x82] (by decide) rfl .nil
  have body := (Chunks.written sized).append ((Chunks.written idats).append iend)
  have whole := Chunks.cons [0, 0, 0, 0] ihdr_sized rfl body
  refine ⟨_, ?_, whole⟩
  have bodies : (idat_bodies.map (ChunkRef.mk (bytes "IDAT"))).flatMap (fun c => write_chunk c.type c.body) =
      idat_bodies.flatMap (write_chunk (bytes "IDAT")) := List.flatMap_map _ _ _
  rw [build_png, bodies]
  simp only [write_chunk, frame_ihdr, List.append_assoc]

section Stored

/-- A still image with stored data, eight bits for each channel and no filters: seven bytes are in front of the
lines, and one in front of each. -/
def stored (ihdr_body data : Bytes) : Option Image :=
  let w := read_u32 ihdr_body
  let h := read_u32 (ihdr_body.drop 4)
  let line := 1 + 4 * w.toNat
  let lines := data.drop 7
  if w = 0 ∨ h = 0 ∨ lines.length < h.toNat * line then none
  else some ⟨w, h, (List.range h.toNat).flatMap fun y => (lines.drop (y * line + 1)).take (4 * w.toNat)⟩

def idats (cs : List ChunkRef) : Bytes := (cs.filter (·.tag_eq "IDAT")).flatMap (·.body)

/-- A decoder of such images. -/
def stored_png (png : Bytes) : Option Image :=
  match parse_chunks png with
  | [] => none
  | ihdr :: chunks => stored ihdr.body (idats chunks)

theorem idats_still {ancillary : List ChunkRef} (other : ∀ c ∈ ancillary, c.tag_eq "IDAT" = false)
    (idat_bodies : List Bytes) : idats (still_chunks ancillary idat_bodies) = idat_bodies.flatten := by
  have none : ancillary.filter (·.tag_eq "IDAT") = [] := List.filter_eq_nil_iff.mpr fun c member => by
    simp [other c member]
  have all (b : Bytes) : (ChunkRef.mk (bytes "IDAT") b).tag_eq "IDAT" = true := by simp [ChunkRef.tag_eq]
  have iend : [(⟨bytes "IEND", []⟩ : ChunkRef)].filter (·.tag_eq "IDAT") = [] := by decide
  simp only [idats, still_chunks, List.filter_append, none, iend, List.filter_map, Function.comp_def, all,
    List.filter_true, List.nil_append, List.append_nil, List.flatMap_map, List.flatMap_id']

theorem stored_png_file {rest : Bytes} {ihdr : ChunkRef} {cs : List ChunkRef} (chunks : Chunks rest (ihdr :: cs)) :
    stored_png (png_sig ++ rest) = stored ihdr.body (idats cs) := by
  rw [stored_png, parse_chunks_file chunks]

theorem stored_png_build {ihdr_body : Bytes} {ancillary : List ChunkRef} {idat_bodies : List Bytes}
    (frame_width frame_height : UInt32) (header : ihdr_body.length < 2 ^ 31)
    (apart : ∀ c ∈ ancillary, c.Sized ∧ c.tag_eq "IDAT" = false) (small : ∀ b ∈ idat_bodies, b.length < 2 ^ 32) :
    stored_png (build_png ihdr_body frame_width frame_height ancillary idat_bodies) =
      stored (frame_ihdr ihdr_body frame_width frame_height).body idat_bodies.flatten := by
  obtain ⟨rest, built, chunks⟩ := build_png_chunks frame_width frame_height header (fun c member => (apart c member).1)
    small
  rw [built, stored_png_file chunks, idats_still fun c member => (apart c member).2]

end Stored

end AoSdl.ApngDecoder
