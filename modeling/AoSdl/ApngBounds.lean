import AoSdl.ApngChunks

/-! The places on the canvas: the loops end at its borders, but its size and its places are words of 32 bits. -/
namespace AoSdl.ApngDecoder

section Rounds

theorem takeWhile_range {p : ℕ → Bool} {m n : ℕ} (inside : m ≤ n) (before : ∀ i < m, p i = true)
    (stop : m < n → p m = false) : (List.range n).takeWhile p = List.range m := by
  obtain ⟨k, rfl⟩ := Nat.exists_eq_add_of_le inside
  have rest : ((List.range' m k).takeWhile p) = [] := by
    cases k with
    | zero => rfl
    | succ k => rw [List.range'_succ, List.takeWhile_cons_of_neg (by simpa using stop (by omega))]
  have cut : List.range (m + k) = List.range m ++ List.range' m k := by
    rw [List.range_eq_range', List.range_eq_range', ← List.range'_append_1, Nat.zero_add]
  rw [cut, List.takeWhile_append_of_pos (fun i member => before i (List.mem_range.mp member)), rest, List.append_nil]

/-- A loop goes on to the end of the frame or of the canvas. -/
theorem rounds_eq (length offset canvas : UInt32) : rounds length offset canvas =
    (List.range (min length.toNat (canvas.toNat - offset.toNat))).map UInt32.ofNat := by
  have bound := length.toNat_lt
  have canvas_bound := canvas.toNat_lt
  have place {i : ℕ} (inside : i ≤ canvas.toNat - offset.toNat) : (offset + UInt32.ofNat i).toNat = offset.toNat + i := by
    have offset_bound := offset.toNat_lt
    rw [UInt32.toNat_add, UInt32.toNat_ofNat']
    omega
  rw [rounds, List.takeWhile_map]
  congr 1
  apply takeWhile_range (Nat.min_le_left _ _)
  · intro i inside
    obtain ⟨_, within⟩ := Nat.lt_min.mp inside
    simp only [Function.comp_apply, decide_eq_true_eq, UInt32.lt_iff_toNat_lt, place within.le]
    omega
  · intro more
    have last : min length.toNat (canvas.toNat - offset.toNat) = canvas.toNat - offset.toNat := by omega
    simp only [Function.comp_apply, decide_eq_false_iff_not, UInt32.lt_iff_toNat_lt, last, place le_rfl]
    omega

theorem mem_rounds {length offset canvas i : UInt32} (member : i ∈ rounds length offset canvas) :
    i.toNat < length.toNat ∧ offset.toNat + i.toNat < canvas.toNat := by
  rw [rounds_eq] at member
  obtain ⟨k, inside, rfl⟩ := List.mem_map.mp member
  have bound := length.toNat_lt
  obtain ⟨first, second⟩ := Nat.lt_min.mp (List.mem_range.mp inside)
  rw [UInt32.toNat_ofNat', Nat.mod_eq_of_lt (by omega)]
  omega

end Rounds

/-- A place that is inside of the canvas, and that the words do not change. -/
structure Placed (fctl : FcTL) (canvas_w canvas_h : UInt32) (visit : UInt32 × UInt32) : Prop where
  exact_ : (dst_idx fctl canvas_w visit).toNat = ((fctl.y_offset.toNat + visit.1.toNat) * canvas_w.toNat +
    (fctl.x_offset.toNat + visit.2.toNat)) * 4
  inside : (dst_idx fctl canvas_w visit).toNat + 4 ≤ (canvas_size canvas_w canvas_h).toNat

/-- The bytes of the canvas are fewer than a word can count. -/
def Countable (canvas_w canvas_h : UInt32) : Prop := canvas_w.toNat * canvas_h.toNat * 4 < 2 ^ 32

theorem canvas_size_exact_iff (canvas_w canvas_h : UInt32) :
    (canvas_size canvas_w canvas_h).toNat = canvas_w.toNat * canvas_h.toNat * 4 ↔ Countable canvas_w canvas_h := by
  have four : (4 : UInt32).toNat = 4 := rfl
  have wrapped : (canvas_size canvas_w canvas_h).toNat = canvas_w.toNat * canvas_h.toNat * 4 % 2 ^ 32 := by
    rw [canvas_size, UInt32.toNat_mul, UInt32.toNat_mul, four]
    exact Nat.mod_mul_mod _ _ _
  rw [wrapped, Countable]
  constructor
  · intro same
    rw [← same]
    exact Nat.mod_lt _ (by decide)
  · exact Nat.mod_eq_of_lt

theorem placed {canvas_w canvas_h : UInt32} (countable : Countable canvas_w canvas_h) {fctl : FcTL} {image : Image}
    {visit : UInt32 × UInt32} (visited : visit ∈ visits fctl image canvas_w canvas_h) :
    Placed fctl canvas_w canvas_h visit := by
  obtain ⟨row, in_rows, member⟩ := List.mem_flatMap.mp visited
  obtain ⟨col, in_cols, rfl⟩ := List.mem_map.mp member
  obtain ⟨_, above⟩ := mem_rounds in_rows
  obtain ⟨_, left⟩ := mem_rounds in_cols
  have size := (canvas_size_exact_iff canvas_w canvas_h).mpr countable
  have tall := canvas_h.toNat_lt
  have wide := canvas_w.toNat_lt
  have four : (4 : UInt32).toNat = 4 := rfl
  unfold Countable at countable
  have inner : (fctl.y_offset.toNat + row.toNat) * canvas_w.toNat + (fctl.x_offset.toNat + col.toNat) <
      canvas_w.toNat * canvas_h.toNat := by
    calc (fctl.y_offset.toNat + row.toNat) * canvas_w.toNat + (fctl.x_offset.toNat + col.toNat)
        < (fctl.y_offset.toNat + row.toNat) * canvas_w.toNat + canvas_w.toNat := Nat.add_lt_add_left left _
      _ = (fctl.y_offset.toNat + row.toNat + 1) * canvas_w.toNat := (Nat.succ_mul _ _).symm
      _ ≤ canvas_h.toNat * canvas_w.toNat := Nat.mul_le_mul_right _ above
      _ = canvas_w.toNat * canvas_h.toNat := Nat.mul_comm _ _
  have exact_ : (dst_idx fctl canvas_w (row, col)).toNat =
      ((fctl.y_offset.toNat + row.toNat) * canvas_w.toNat + (fctl.x_offset.toNat + col.toNat)) * 4 := by
    have rows : (fctl.y_offset + row).toNat = fctl.y_offset.toNat + row.toNat := by
      rw [UInt32.toNat_add, Nat.mod_eq_of_lt (by omega)]
    have cols : (fctl.x_offset + col).toNat = fctl.x_offset.toNat + col.toNat := by
      rw [UInt32.toNat_add, Nat.mod_eq_of_lt (by omega)]
    rw [dst_idx, UInt32.toNat_mul, UInt32.toNat_add, UInt32.toNat_mul, rows, cols, four]
    generalize (fctl.y_offset.toNat + row.toNat) * canvas_w.toNat = start at inner ⊢
    rw [Nat.mod_eq_of_lt (by omega : start < 2 ^ 32), Nat.mod_eq_of_lt (by omega), Nat.mod_eq_of_lt (by omega)]
  refine ⟨exact_, ?_⟩
  rw [size]
  omega

/-- A frame that covers a larger canvas is written outside of it. -/
theorem covering_outside {canvas_w canvas_h : UInt32} (large : ¬ Countable canvas_w canvas_h) {fctl : FcTL} {image : Image}
    (offsets : fctl.x_offset = 0 ∧ fctl.y_offset = 0) (covering : image.w = canvas_w ∧ image.h = canvas_h) :
    ∃ visit ∈ visits fctl image canvas_w canvas_h,
      (canvas_size canvas_w canvas_h).toNat < (dst_idx fctl canvas_w visit).toNat + 4 := by
  obtain ⟨rfl, rfl⟩ := covering
  obtain ⟨x, y⟩ := offsets
  have many : 2 ^ 30 ≤ image.w.toNat * image.h.toNat := by
    unfold Countable at large
    omega
  have positive : 0 < image.w.toNat := by
    by_contra none
    rw [Nat.eq_zero_of_not_pos none, Nat.zero_mul] at many
    exact absurd many (by decide)
  -- the last place that a word can count
  let last := 2 ^ 30 - 1
  have below : last / image.w.toNat < image.h.toNat := by
    rw [Nat.div_lt_iff_lt_mul positive, Nat.mul_comm]
    omega
  have across : last % image.w.toNat < image.w.toNat := Nat.mod_lt _ positive
  have tall := image.h.toNat_lt
  have wide := image.w.toNat_lt
  have zero : (0 : UInt32).toNat = 0 := rfl
  have visited {i : ℕ} {length : UInt32} (inside : i < length.toNat) : UInt32.ofNat i ∈ rounds length 0 length := by
    rw [rounds_eq, zero, Nat.sub_zero, Nat.min_self]
    exact List.mem_map_of_mem (List.mem_range.mpr inside)
  refine ⟨(UInt32.ofNat (last / image.w.toNat), UInt32.ofNat (last % image.w.toNat)), ?_, ?_⟩
  · rw [visits, x, y]
    exact List.mem_flatMap.mpr ⟨_, visited below, List.mem_map_of_mem (visited across)⟩
  · have place : (dst_idx fctl image.w
        (UInt32.ofNat (last / image.w.toNat), UInt32.ofNat (last % image.w.toNat))).toNat = 2 ^ 32 - 4 := by
      have whole := Nat.div_add_mod' last image.w.toNat
      have row : (UInt32.ofNat (last / image.w.toNat)).toNat = last / image.w.toNat := by
        rw [UInt32.toNat_ofNat', Nat.mod_eq_of_lt (by omega)]
      have col : (UInt32.ofNat (last % image.w.toNat)).toNat = last % image.w.toNat := by
        rw [UInt32.toNat_ofNat', Nat.mod_eq_of_lt (by omega)]
      have four : (4 : UInt32).toNat = 4 := rfl
      have start_small : last / image.w.toNat * image.w.toNat ≤ last := by omega
      rw [dst_idx, x, y, UInt32.zero_add, UInt32.zero_add, UInt32.toNat_mul, UInt32.toNat_add, UInt32.toNat_mul, row, col,
        four, Nat.mod_eq_of_lt (by omega : last / image.w.toNat * image.w.toNat < 2 ^ 32), whole]
      decide
    rw [place]
    have size := (canvas_size image.w image.h).toNat_lt
    omega

section Bounds

variable (stbi_load_from_memory : Bytes → Option Image)

/-- The size of the canvas is the product, and every place that a frame writes or clears is exact and inside. -/
structure Stays (o : Opened) : Prop where
  size : (canvas_size o.canvas_w o.canvas_h).toNat = o.canvas_w.toNat * o.canvas_h.toNat * 4
  places : ∀ fi ∈ (collect_frames o.chunks).1, fi.data ≠ [] → ∀ image,
    sub_image stbi_load_from_memory o.ihdr_body (collect_frames o.chunks).2 fi = some image →
    ∀ visit ∈ visits fi.fctl image o.canvas_w o.canvas_h, Placed fi.fctl o.canvas_w o.canvas_h visit

/-- So it is in every file that is decoded frame by frame. -/
def InBounds (data : Bytes) : Prop :=
  ∀ o, opened data = some o → o.multi = true → Stays stbi_load_from_memory o

/-- Frames of all sizes stay inside of a canvas, and those of a file do with exact products, when the bytes of the
canvas can be counted by a word. -/
theorem in_bounds_iff (data : Bytes) (canvas_w canvas_h : UInt32) :
    (InBounds stbi_load_from_memory data ↔
      ∀ o, opened data = some o → o.multi = true → Countable o.canvas_w o.canvas_h) ∧
    ((∀ fctl image, ∀ visit ∈ visits fctl image canvas_w canvas_h,
        (dst_idx fctl canvas_w visit).toNat + 4 ≤ (canvas_size canvas_w canvas_h).toNat) ↔
      Countable canvas_w canvas_h) := by
  constructor
  · constructor
    · intro stays o accepted multi
      exact (canvas_size_exact_iff _ _).mp (stays o accepted multi).size
    · intro countable o accepted multi
      have fits := countable o accepted multi
      exact ⟨(canvas_size_exact_iff _ _).mpr fits, fun fi _ _ image _ visit visited => placed fits visited⟩
  · constructor
    · intro inside
      by_contra large
      let covering : FcTL := ⟨canvas_w, canvas_h, 0, 0, 0, 0, 0, 0⟩
      let image : Image := ⟨canvas_w, canvas_h, []⟩
      obtain ⟨visit, visited, outside⟩ : ∃ visit ∈ visits covering image canvas_w canvas_h,
          (canvas_size canvas_w canvas_h).toNat < (dst_idx covering canvas_w visit).toNat + 4 :=
        covering_outside large ⟨rfl, rfl⟩ ⟨rfl, rfl⟩
      exact absurd (inside covering image visit visited) (Nat.not_le.mpr outside)
    · intro countable fctl image visit visited
      exact (placed countable visited).inside

end Bounds

section Large

def chunk (type : String) (body : Bytes) : ChunkRef := ⟨bytes type, body⟩

/-- Data of one pixel that is stored as it is. -/
def one_pixel (p : Pixel) : Bytes := [0x78, 1, 1, 5, 0, 0xFA, 0xFF, 0] ++ p.bytes ++ [0, 0, 0, 0]

def fctl_body (sequence : UInt32) (f : FcTL) : Bytes :=
  write_u32 sequence ++ write_u32 f.width ++ write_u32 f.height ++ write_u32 f.x_offset ++ write_u32 f.y_offset ++
    [0, f.delay_num.toUInt8, 0, f.delay_den.toUInt8, f.dispose_op, f.blend_op]

def one_by_one : FcTL := ⟨1, 1, 0, 0, 1, 10, 0, 0⟩

def large_ihdr : ChunkRef := chunk "IHDR" (write_u32 65536 ++ write_u32 16384 ++ [8, 6, 0, 0, 0])

/-- Two frames of one pixel on a canvas of 65536 times 16384. -/
def large_chunks : List ChunkRef := [
  chunk "acTL" (write_u32 2 ++ write_u32 0), chunk "fcTL" (fctl_body 0 one_by_one),
  chunk "IDAT" (one_pixel ⟨255, 0, 0, 255⟩), chunk "fcTL" (fctl_body 1 one_by_one),
  chunk "fdAT" (write_u32 2 ++ one_pixel ⟨0, 0, 255, 255⟩), chunk "IEND" []]

def large_canvas : Bytes := png_sig ++ (large_ihdr :: large_chunks).flatMap fun c => write_chunk c.type c.body

theorem large_opened : opened large_canvas = some (header large_ihdr large_chunks) :=
  opened_file (Chunks.written (by decide +kernel)) (by decide) (by decide)

theorem large_collected : collect_frames (header large_ihdr large_chunks).chunks =
    ([⟨one_by_one, [one_pixel ⟨255, 0, 0, 255⟩]⟩, ⟨one_by_one, [one_pixel ⟨0, 0, 255, 255⟩]⟩], []) := by decide +kernel

/-- The canvas has no byte, and the first pixel of a frame is written to it. -/
theorem first_pixel_outside : ¬ InBounds stored_png large_canvas ∧
    ∃ o, opened large_canvas = some o ∧ o.multi = true ∧ canvas_size o.canvas_w o.canvas_h = 0 ∧
      ∃ fi ∈ (collect_frames o.chunks).1, ∃ image,
        sub_image stored_png o.ihdr_body (collect_frames o.chunks).2 fi = some image ∧
        ∃ visit ∈ visits fi.fctl image o.canvas_w o.canvas_h, dst_idx fi.fctl o.canvas_w visit = 0 := by
  constructor
  · intro stays
    have exact_ := (stays _ large_opened (by decide +kernel)).size
    exact absurd exact_ (by decide +kernel)
  · refine ⟨_, large_opened, by decide +kernel, by decide +kernel, ⟨one_by_one, [one_pixel ⟨255, 0, 0, 255⟩]⟩, ?_,
      ⟨1, 1, [255, 0, 0, 255]⟩, ?_, (0, 0), by decide +kernel, by decide +kernel⟩
    · rw [large_collected]
      exact List.mem_cons_self
    · rw [large_collected, sub_image, stored_png_build _ _ (by decide +kernel) (List.forall_mem_nil _) (by decide +kernel)]
      decide +kernel

end Large

end AoSdl.ApngDecoder
