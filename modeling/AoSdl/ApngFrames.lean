import AoSdl.ApngBounds
import AoSdl.ApngRaster
import Mathlib.Data.List.ProdSigma

/-! The frames of an animated PNG against the rules of the format: which chunks are the data of which frame, and what
the canvas shows. -/
namespace AoSdl.ApngDecoder
open Lib.Compositor

section Drawing

def blank : Pixel := ⟨0, 0, 0, 0⟩

/-- A frame as its control chunk says. -/
def layer (blend_over : Pixel → Pixel → Pixel) (f : FcTL) (image : Image) : Frame Pixel where
  x := f.x_offset.toNat
  y := f.y_offset.toNat
  width := f.width.toNat
  height := f.height.toNat
  image := fun q => pixel_at image.pixels ((q.2 * f.width.toNat + q.1) * 4)
  blend := if f.blend_op = 1 then blend_over else fun _ src => src
  dispose := if f.dispose_op = 1 then .background else if f.dispose_op = 2 then .previous else .none

/-- The frame is inside of a canvas of less than 2^30 pixels, and the image is of its size. -/
structure Fits (canvas_w canvas_h : UInt32) (f : FcTL) (image : Image) : Prop where
  some : 0 < canvas_w.toNat ∧ 0 < canvas_h.toNat
  small : canvas_w.toNat * canvas_h.toNat < 2 ^ 30
  across : f.x_offset.toNat + f.width.toNat ≤ canvas_w.toNat
  down : f.y_offset.toNat + f.height.toNat ≤ canvas_h.toNat
  size : image.w = f.width ∧ image.h = f.height

variable {canvas_w canvas_h : UInt32} {f : FcTL} {image : Image} {blend_over : Pixel → Pixel → Pixel}

theorem rounds_nat {length offset canvas : UInt32} (inside : offset.toNat + length.toNat ≤ canvas.toNat) :
    (rounds length offset canvas).map UInt32.toNat = List.range length.toNat := by
  have all : min length.toNat (canvas.toNat - offset.toNat) = length.toNat := by omega
  rw [rounds_eq, all, List.map_map]
  refine (List.map_congr_left fun i member => ?_).trans (List.map_id _)
  have bound := length.toNat_lt
  have small := List.mem_range.mp member
  rw [Function.comp_apply, UInt32.toNat_ofNat', Nat.mod_eq_of_lt (by omega), id]

theorem visits_nat (fits : Fits canvas_w canvas_h f image) :
    (visits f image canvas_w canvas_h).map (fun v => (v.1.toNat, v.2.toNat)) =
      List.range f.height.toNat ×ˢ List.range f.width.toNat := by
  obtain ⟨_, _, across, down, width, height⟩ := fits
  have rows := rounds_nat down
  have cols := rounds_nat across
  change _ = (List.range f.height.toNat).flatMap fun row => (List.range f.width.toNat).map (Prod.mk row)
  rw [visits, width, height, List.map_flatMap, ← rows, ← cols, List.flatMap_map]
  simp only [List.map_map]
  rfl

theorem mem_visits (fits : Fits canvas_w canvas_h f image) {v : UInt32 × UInt32}
    (visited : v ∈ visits f image canvas_w canvas_h) : v.1.toNat < f.height.toNat ∧ v.2.toNat < f.width.toNat := by
  have member := List.mem_map_of_mem (f := fun v : UInt32 × UInt32 => (v.1.toNat, v.2.toNat)) visited
  rw [visits_nat fits, List.mem_product] at member
  exact ⟨List.mem_range.mp member.1, List.mem_range.mp member.2⟩

/-- The column and the row on the canvas. -/
def point (f : FcTL) (v : UInt32 × UInt32) : ℕ × ℕ := (f.x_offset.toNat + v.2.toNat, f.y_offset.toNat + v.1.toNat)

theorem points_product (fits : Fits canvas_w canvas_h f image) : (visits f image canvas_w canvas_h).map (point f) =
    (List.range f.height.toNat ×ˢ List.range f.width.toNat).map
      fun p => (f.x_offset.toNat + p.2, f.y_offset.toNat + p.1) := by
  rw [← visits_nat fits, List.map_map]
  rfl

theorem points_nodup (fits : Fits canvas_w canvas_h f image) :
    ((visits f image canvas_w canvas_h).map (point f)).Nodup := by
  rw [points_product fits]
  refine List.Nodup.map (fun p q same => ?_) (List.nodup_range.product List.nodup_range)
  obtain ⟨columns, rows⟩ := Prod.mk.inj same
  exact Prod.ext (Nat.add_left_cancel rows) (Nat.add_left_cancel columns)

theorem mem_points (fits : Fits canvas_w canvas_h f image) (q : ℕ × ℕ) :
    q ∈ (visits f image canvas_w canvas_h).map (point f) ↔ (layer blend_over f image).Covers q := by
  rw [points_product fits, List.mem_map]
  constructor
  · rintro ⟨p, member, rfl⟩
    obtain ⟨row, column⟩ := List.mem_product.mp member
    have := List.mem_range.mp row
    have := List.mem_range.mp column
    simp only [Frame.Covers, layer]
    omega
  · rintro ⟨⟨left, right⟩, top, bottom⟩
    simp only [layer] at left right top bottom
    refine ⟨(q.2 - f.y_offset.toNat, q.1 - f.x_offset.toNat), List.mem_product.mpr ?_, ?_⟩
    · exact ⟨List.mem_range.mpr (by omega), List.mem_range.mpr (by omega)⟩
    · exact Prod.ext (Nat.add_sub_cancel' left) (Nat.add_sub_cancel' top)

/-- A loop that writes the visited pixels changes the canvas at their points. -/
theorem foldl_raster {w h : ℕ} {write : Bytes → UInt32 × UInt32 → Bytes} {g : ℕ × ℕ → Pixel → Pixel}
    (vs : List (UInt32 × UInt32)) (written : ∀ v ∈ vs, ∀ c,
      write (raster w h c) v = raster w h (Function.update c (point f v) (g (point f v) (c (point f v)))))
    (c : Canvas Pixel) : vs.foldl write (raster w h c) =
      raster w h ((vs.map (point f)).foldl (fun c q => Function.update c q (g q (c q))) c) := by
  induction vs generalizing c with
  | nil => rfl
  | cons v vs ih =>
    obtain ⟨here, later⟩ := List.forall_mem_cons.mp written
    rw [List.foldl_cons, here, ih later, List.map_cons, List.foldl_cons]

section Loops

theorem visited_place (fits : Fits canvas_w canvas_h f image) {v : UInt32 × UInt32}
    (visited : v ∈ visits f image canvas_w canvas_h) :
    (point f v).1 < canvas_w.toNat ∧ (point f v).2 < canvas_h.toNat ∧
      (dst_idx f canvas_w v).toNat = ((point f v).2 * canvas_w.toNat + (point f v).1) * 4 ∧
      (src_idx image.w v).toNat = (v.1.toNat * f.width.toNat + v.2.toNat) * 4 := by
  obtain ⟨row, column⟩ := mem_visits fits visited
  have countable : Countable canvas_w canvas_h := by
    have := fits.small
    unfold Countable
    omega
  obtain ⟨_, small, across, down, width, _⟩ := fits
  refine ⟨by simp only [point]; omega, by simp only [point]; omega, (placed countable visited).exact_, ?_⟩
  have inner : v.1.toNat * f.width.toNat + v.2.toNat < 2 ^ 30 := by
    calc v.1.toNat * f.width.toNat + v.2.toNat < v.1.toNat * f.width.toNat + f.width.toNat := Nat.add_lt_add_left column _
      _ = (v.1.toNat + 1) * f.width.toNat := (Nat.succ_mul _ _).symm
      _ ≤ canvas_h.toNat * canvas_w.toNat := Nat.mul_le_mul (by omega) (by omega)
      _ = canvas_w.toNat * canvas_h.toNat := Nat.mul_comm _ _
      _ < 2 ^ 30 := small
  have four : (4 : UInt32).toNat = 4 := rfl
  rw [src_idx, width, UInt32.toNat_mul, UInt32.toNat_add, UInt32.toNat_mul, four]
  generalize v.1.toNat * f.width.toNat = start at inner ⊢
  rw [Nat.mod_eq_of_lt (by omega : start < 2 ^ 32), Nat.mod_eq_of_lt (by omega), Nat.mod_eq_of_lt (by omega)]

theorem composite_raster (fits : Fits canvas_w canvas_h f image) (c : Canvas Pixel) :
    (visits f image canvas_w canvas_h).foldl (composite blend_over f image canvas_w)
      (raster canvas_w.toNat canvas_h.toNat c) =
    raster canvas_w.toNat canvas_h.toNat ((layer blend_over f image).draw c) := by
  let g (q : ℕ × ℕ) (p : Pixel) : Pixel := (layer blend_over f image).blend p
    ((layer blend_over f image).image (q.1 - f.x_offset.toNat, q.2 - f.y_offset.toNat))
  rw [foldl_raster (f := f) (g := g), foldl_update g (points_nodup fits) (mem_points fits)]
  · rfl
  · intro v visited c
    obtain ⟨left, below, dst, src⟩ := visited_place fits visited
    rw [composite, dst, src, pixel_at_raster left below, put_raster left below]
    have inner : (point f v).1 - f.x_offset.toNat = v.2.toNat ∧ (point f v).2 - f.y_offset.toNat = v.1.toNat :=
      ⟨Nat.add_sub_cancel_left _ _, Nat.add_sub_cancel_left _ _⟩
    simp only [g, layer, inner.1, inner.2]
    split <;> rfl

theorem clear_raster (blend_over : Pixel → Pixel → Pixel) (fits : Fits canvas_w canvas_h f image) (c : Canvas Pixel) :
    (visits f image canvas_w canvas_h).foldl (clear f canvas_w) (raster canvas_w.toNat canvas_h.toNat c) =
    raster canvas_w.toNat canvas_h.toNat fun q => if (layer blend_over f image).Covers q then blank else c q := by
  rw [foldl_raster (f := f) (g := fun _ _ => blank),
    foldl_update (fun _ _ => blank) (points_nodup fits) (mem_points fits)]
  · intro v visited c
    obtain ⟨left, below, dst, _⟩ := visited_place fits visited
    rw [clear, dst]
    exact put_raster left below blank

theorem as_int {v : UInt32} (small : v.toNat < 2 ^ 31) : v.toInt32.toInt = v.toNat := by
  have half : 2 * v.toBitVec.toNat < 2 ^ 32 := by
    have same : v.toBitVec.toNat = v.toNat := rfl
    omega
  exact BitVec.toInt_eq_toNat_of_lt half

/-- What is given for a canvas that is shown. -/
def frame_of (canvas_w canvas_h : UInt32) (f : FcTL) (flip_y : Bool) (c : Canvas Pixel) : DecodedFrame where
  width := canvas_w.toNat
  height := canvas_h.toNat
  duration_ms := if 0 < fctl_duration_ms f then fctl_duration_ms f else 100
  pixels := raster canvas_w.toNat canvas_h.toNat (if flip_y then fun q => c (q.1, canvas_h.toNat - 1 - q.2) else c)

theorem decode_frame_raster {stbi_load_from_memory : Bytes → Option Image} {fi : FrameInfo} {ihdr_body : Bytes}
    {ancillary : List ChunkRef} (fits : Fits canvas_w canvas_h fi.fctl image)
    (decoded : sub_image stbi_load_from_memory ihdr_body ancillary fi = some image) (flip_y : Bool) (c : Canvas Pixel) :
    decode_frame stbi_load_from_memory blend_over fi ihdr_body ancillary (raster canvas_w.toNat canvas_h.toNat c) canvas_w
      canvas_h flip_y =
    (some (frame_of canvas_w canvas_h fi.fctl flip_y ((layer blend_over fi.fctl image).draw c)),
      raster canvas_w.toNat canvas_h.toNat ((layer blend_over fi.fctl image).disposed blank c)) := by
  obtain ⟨wide, tall⟩ := fits.some
  have narrow : canvas_w.toNat < 2 ^ 30 := (Nat.le_mul_of_pos_right _ tall).trans_lt fits.small
  have low : canvas_h.toNat < 2 ^ 30 := (Nat.le_mul_of_pos_left _ wide).trans_lt fits.small
  have flipped := flip_raster (w := canvas_w.toNat) (h := canvas_h.toNat) (c := (layer blend_over fi.fctl image).draw c)
    (by omega)
  simp only [decode_frame, decoded, composite_raster fits, as_int (by omega : canvas_w.toNat < 2 ^ 31),
    as_int (by omega : canvas_h.toNat < 2 ^ 31), flipped]
  refine Prod.ext (congrArg some ?_) ?_
  · cases flip_y <;> rfl
  · dsimp only
    by_cases background : fi.fctl.dispose_op = 1
    · rw [if_pos background, clear_raster blend_over fits]
      simp only [Frame.disposed, layer, if_pos background]
    · rw [if_neg background]
      by_cases previous : fi.fctl.dispose_op = 2
      · have kept : (layer blend_over fi.fctl image).dispose = .previous := by
          simp only [layer, if_neg background, if_pos previous]
        rw [if_pos previous, disposed_previous kept]
      · rw [if_neg previous]
        simp only [Frame.disposed, layer, if_neg background, if_neg previous]

end Loops

end Drawing

end AoSdl.ApngDecoder
