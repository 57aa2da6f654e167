import AoSdl.ImageAsset
import AoSdl.Lib.Runs
import AoSdl.Lib.Shelves

/-! The glyph atlas: glyphs are rasterised on demand and packed in rows into one texture, whose height
doubles when the next glyph is below its end, up to a limit. -/
namespace AoSdl
open Lib.Runs Lib.Shelves

/-- What `TextRenderer` gives for a text; `render` is the alpha that it puts into row `y` and column `x`
of a buffer of a width and a height. -/
structure Font where
  line_height : ℕ
  ascender : ℤ
  measure_width : List UInt8 → ℕ
  render : List UInt8 → (buf_w buf_h y x : ℕ) → UInt8

structure GlyphInfo where
  atlas_x : ℕ
  atlas_y : ℕ
  width : ℕ
  height : ℕ
  bearing_x : ℕ
  bearing_y : ℤ
  advance_x : ℕ

structure GlyphCache where
  atlas_ : ImageAsset
  atlas_pixels_ : List UInt8
  atlas_w_ : ℕ
  atlas_h_ : ℕ
  cursor_x_ : ℕ
  cursor_y_ : ℕ
  row_height_ : ℕ
  cache_ : List (UInt32 × GlyphInfo)

namespace GlyphCache

def GLYPH_PAD : ℕ := 1

def max_height : ℕ := 2048

def lead (mark codepoint shift : UInt32) : UInt8 := (mark ||| codepoint >>> shift).toUInt8

def trail (codepoint shift : UInt32) : UInt8 := (0x80 ||| (codepoint >>> shift &&& 0x3F)).toUInt8

/-- The UTF-8 text of one code point. -/
def ch (codepoint : UInt32) : List UInt8 :=
  if codepoint < 0x80 then [codepoint.toUInt8]
  else if codepoint < 0x800 then [lead 0xC0 codepoint 6, trail codepoint 0]
  else if codepoint < 0x10000 then [lead 0xE0 codepoint 12, trail codepoint 6, trail codepoint 0]
  else [lead 0xF0 codepoint 18, trail codepoint 12, trail codepoint 6, trail codepoint 0]

/-- The columns and rows of the pixels that were found so far. -/
structure Bounds where
  min_x : ℕ
  min_y : ℕ
  max_x : ℕ
  max_y : ℕ

def Bounds.add (b : Bounds) (x y : ℕ) : Bounds :=
  ⟨min b.min_x x, min b.min_y y, max b.max_x x, max b.max_y y⟩

def Bounds.gw (b : Bounds) : ℕ := b.max_x - b.min_x + 1

def Bounds.gh (b : Bounds) : ℕ := b.max_y - b.min_y + 1

/-- Nothing was found. -/
def Bounds.Empty (b : Bounds) : Prop := b.max_x < b.min_x

instance (b : Bounds) : Decidable b.Empty := inferInstanceAs (Decidable (_ < _))

def bounds (buf : ℕ → ℕ → UInt8) (buf_w buf_h : ℕ) : Bounds :=
  (List.range buf_h).foldl (fun b y =>
    (List.range buf_w).foldl (fun b x => if 0 < buf y x then b.add x y else b) b) ⟨buf_w, buf_h, 0, 0⟩

section

variable (font : Font) (codepoint : UInt32)

def advance : ℕ := font.measure_width (ch codepoint)

def buf_w : ℕ := max (advance font codepoint) font.line_height

def buf_h : ℕ := font.line_height * 2

/-- The alpha of the rasterised glyph. -/
def buf : ℕ → ℕ → UInt8 :=
  font.render (ch codepoint) (buf_w font codepoint) (buf_h font)

def glyph : Bounds := bounds (buf font codepoint) (buf_w font codepoint) (buf_h font)

end

/-- `memcpy` of the old pixels into a new atlas. At the limit nothing grows; above it the new atlas is
the smaller one. -/
def grow_atlas (g : GlyphCache) : GlyphCache :=
  let new_h := min (g.atlas_h_ * 2) max_height
  if new_h = g.atlas_h_ then g
  else
    let new_pixels := memcpy (List.replicate (g.atlas_w_ * new_h * 4) 0) 0 g.atlas_pixels_
    { g with
      atlas_pixels_ := new_pixels
      atlas_h_ := new_h
      atlas_ := g.atlas_.update_frame 0 new_pixels }

def next_row (g : GlyphCache) (gw : ℕ) : GlyphCache :=
  if g.atlas_w_ < g.cursor_x_ + gw + GLYPH_PAD then
    { g with
      cursor_x_ := 0
      cursor_y_ := g.cursor_y_ + (g.row_height_ + GLYPH_PAD)
      row_height_ := 0 }
  else g

/-- The atlas and the cursor that a glyph is copied to. -/
def pack (g : GlyphCache) (gw gh : ℕ) : GlyphCache :=
  let g := g.next_row gw
  if g.atlas_h_ < g.cursor_y_ + gh + GLYPH_PAD then g.grow_atlas else g

/-- The four bytes of one pixel, each with its index in the atlas: rows are flipped. -/
def pixel_writes (g : GlyphCache) (b : Bounds) (buf : ℕ → ℕ → UInt8) (y x : ℕ) : List (ℕ × UInt8) :=
  let flipped_y := b.gh - 1 - y
  let dst_idx := ((g.cursor_y_ + flipped_y) * g.atlas_w_ + (g.cursor_x_ + x)) * 4
  [(dst_idx + 0, 255), (dst_idx + 1, 255), (dst_idx + 2, 255),
    (dst_idx + 3, buf (b.min_y + y) (b.min_x + x))]

def writes (g : GlyphCache) (b : Bounds) (buf : ℕ → ℕ → UInt8) : List (ℕ × UInt8) :=
  (List.range b.gh).flatMap fun y => (List.range b.gw).flatMap fun x => g.pixel_writes b buf y x

/-- A write behind the end of the vector is lost here and undefined in the source. -/
def blit (pixels : List UInt8) (writes : List (ℕ × UInt8)) : List UInt8 :=
  writes.foldl (fun pixels w => pixels.set w.1 w.2) pixels

/-- A glyph that has no pixel: it is cached without a place. -/
def blank_info (font : Font) (codepoint : UInt32) : GlyphInfo where
  atlas_x := 0
  atlas_y := 0
  width := 0
  height := 0
  bearing_x := 0
  bearing_y := font.ascender
  advance_x := advance font codepoint

/-- The glyph is copied to the cursor of an atlas that was packed for it. -/
def place (font : Font) (g : GlyphCache) (codepoint : UInt32) : GlyphInfo × GlyphCache :=
  let b := glyph font codepoint
  let info : GlyphInfo :=
    { atlas_x := g.cursor_x_, atlas_y := g.cursor_y_, width := b.gw, height := b.gh
      bearing_x := b.min_x, bearing_y := font.ascender - b.min_y, advance_x := advance font codepoint }
  let pixels := blit g.atlas_pixels_ (g.writes b (buf font codepoint))
  (info, { g with
    atlas_pixels_ := pixels
    cursor_x_ := g.cursor_x_ + (b.gw + GLYPH_PAD)
    row_height_ := max g.row_height_ b.gh
    atlas_ := g.atlas_.update_frame 0 pixels
    cache_ := (codepoint, info) :: g.cache_ })

def ensure (font : Font) (g : GlyphCache) (codepoint : UInt32) : GlyphInfo × GlyphCache :=
  match g.cache_.lookup codepoint with
  | some info => (info, g)
  | none =>
    let b := glyph font codepoint
    if b.Empty then
      (blank_info font codepoint,
        { g with cache_ := (codepoint, blank_info font codepoint) :: g.cache_ })
    else place font (g.pack b.gw b.gh) codepoint

def step (font : Font) (g : GlyphCache) (codepoint : UInt32) : GlyphCache := (ensure font g codepoint).2

/-- The members before the constructor's loop. -/
def blank (atlas_size : ℕ) : GlyphCache :=
  let pixels := List.replicate (atlas_size * atlas_size * 4) 0
  { atlas_ := ImageAsset.new [(pixels, ⟨atlas_size, atlas_size, 0⟩)]
    atlas_pixels_ := pixels
    atlas_w_ := atlas_size
    atlas_h_ := atlas_size
    cursor_x_ := 0
    cursor_y_ := 0
    row_height_ := 0
    cache_ := [] }

/-- The code points that the constructor ensures: space to tilde. -/
def printable : List UInt32 := (List.range 95).map fun i => UInt32.ofNat (0x20 + i)

def new (font : Font) (atlas_size : ℕ) : GlyphCache := run (step font) (blank atlas_size) printable

/-- Where a glyph lies in the atlas; an empty one nowhere. -/
def rect (info : GlyphInfo) : Rect := ⟨info.atlas_x, info.atlas_y, info.width, info.height⟩

structure Packed (g : GlyphCache) : Prop where
  inside : ∀ e ∈ g.cache_, (rect e.2).Within g.atlas_w_ g.atlas_h_
  apart : g.cache_.Pairwise fun d e => (rect d.2).Apart (rect e.2)

/-- The index of a byte of the pixel in column `x` and row `y`. -/
def byte_at (g : GlyphCache) (x y c : ℕ) : ℕ := (y * g.atlas_w_ + x) * 4 + c

/-- All that `ensure` copies and writes goes to bytes of the atlas. `dst_idx` is an `int`, and has no
value from 2^31 on. -/
def Contained (font : Font) (g : GlyphCache) (codepoint : UInt32) : Prop :=
  let b := glyph font codepoint
  g.cache_.lookup codepoint = none → ¬b.Empty →
    g.atlas_pixels_.length ≤ (g.pack b.gw b.gh).atlas_pixels_.length ∧
      ∀ w ∈ (g.pack b.gw b.gh).writes b (buf font codepoint),
        w.1 < 2 ^ 31 ∧ w.1 < (g.pack b.gw b.gh).atlas_pixels_.length

/-- The glyphs that were cached before a step stay, with their rectangles and their pixels. -/
def Kept (g g' : GlyphCache) : Prop :=
  ∀ e ∈ g.cache_, e ∈ g'.cache_ ∧ ∀ x y c, (rect e.2).Has x y → c < 4 →
    g'.atlas_pixels_[g.byte_at x y c]? = g.atlas_pixels_[g.byte_at x y c]?

/-- There is room for the glyph: the row that it goes to ends inside the atlas, if need be after one
growth. -/
def Fits (font : Font) (g : GlyphCache) (codepoint : UInt32) : Prop :=
  let b := glyph font codepoint
  let row := g.next_row b.gw
  (g.cache_.lookup codepoint).isSome ∨ b.Empty ∨
    (row.cursor_x_ + b.gw ≤ g.atlas_w_ ∧
      (row.cursor_y_ + b.gh + GLYPH_PAD ≤ g.atlas_h_ ∨
        g.atlas_h_ ≤ max_height ∧ row.cursor_y_ + b.gh ≤ min (g.atlas_h_ * 2) max_height) ∧
      g.byte_at (row.cursor_x_ + b.gw - 1) (row.cursor_y_ + b.gh - 1) 3 < 2 ^ 31)

def shelf (g : GlyphCache) : Shelf := ⟨g.cursor_x_, g.cursor_y_, g.row_height_⟩

/-- What holds of a cache whether or not its glyphs fit. -/
structure Inv (g : GlyphCache) : Prop where
  size : g.atlas_pixels_.length = g.atlas_w_ * g.atlas_h_ * 4
  behind : ∀ e ∈ g.cache_, g.shelf.Behind (rect e.2)
  apart : g.cache_.Pairwise fun d e => (rect d.2).Apart (rect e.2)

theorem inv_blank (atlas_size : ℕ) : Inv (blank atlas_size) where
  size := List.length_replicate
  behind := fun _ member => absurd member List.not_mem_nil
  apart := List.Pairwise.nil

theorem packed_blank (atlas_size : ℕ) : Packed (blank atlas_size) where
  inside := fun _ member => absurd member List.not_mem_nil
  apart := List.Pairwise.nil

section

variable (g : GlyphCache) (gw gh : ℕ)

@[simp] theorem shelf_next_row : (g.next_row gw).shelf = g.shelf.open_row GLYPH_PAD g.atlas_w_ gw := by
  unfold next_row Shelf.open_row
  by_cases full : g.atlas_w_ < g.cursor_x_ + gw + GLYPH_PAD
  · rw [if_pos full]
    exact (if_pos full).symm
  · rw [if_neg full]
    exact (if_neg full).symm

@[simp] theorem next_row_w : (g.next_row gw).atlas_w_ = g.atlas_w_ := by
  unfold next_row
  split <;> rfl

@[simp] theorem next_row_h : (g.next_row gw).atlas_h_ = g.atlas_h_ := by
  unfold next_row
  split <;> rfl

@[simp] theorem next_row_pixels : (g.next_row gw).atlas_pixels_ = g.atlas_pixels_ := by
  unfold next_row
  split <;> rfl

@[simp] theorem next_row_cache : (g.next_row gw).cache_ = g.cache_ := by
  unfold next_row
  split <;> rfl

@[simp] theorem shelf_grow : g.grow_atlas.shelf = g.shelf := by
  unfold grow_atlas
  simp only
  split <;> rfl

@[simp] theorem grow_w : g.grow_atlas.atlas_w_ = g.atlas_w_ := by
  unfold grow_atlas
  simp only
  split <;> rfl

@[simp] theorem grow_cache : g.grow_atlas.cache_ = g.cache_ := by
  unfold grow_atlas
  simp only
  split <;> rfl

theorem grow_h : g.grow_atlas.atlas_h_ = min (g.atlas_h_ * 2) max_height := by
  unfold grow_atlas
  simp only
  split
  · next same => exact same.symm
  · rfl

theorem shelf_pack : (g.pack gw gh).shelf = g.shelf.open_row GLYPH_PAD g.atlas_w_ gw := by
  unfold pack
  simp only
  split
  · rw [shelf_grow, shelf_next_row]
  · rw [shelf_next_row]

theorem pack_x : (g.pack gw gh).cursor_x_ = (g.next_row gw).cursor_x_ :=
  congrArg Shelf.x ((shelf_pack g gw gh).trans (shelf_next_row g gw).symm)

theorem pack_y : (g.pack gw gh).cursor_y_ = (g.next_row gw).cursor_y_ :=
  congrArg Shelf.y ((shelf_pack g gw gh).trans (shelf_next_row g gw).symm)

@[simp] theorem pack_w : (g.pack gw gh).atlas_w_ = g.atlas_w_ := by
  unfold pack
  simp only
  split
  · rw [grow_w, next_row_w]
  · rw [next_row_w]

@[simp] theorem pack_cache : (g.pack gw gh).cache_ = g.cache_ := by
  unfold pack
  simp only
  split
  · rw [grow_cache, next_row_cache]
  · rw [next_row_cache]

theorem pack_h : (g.pack gw gh).atlas_h_ =
    if g.atlas_h_ < (g.next_row gw).cursor_y_ + gh + GLYPH_PAD then min (g.atlas_h_ * 2) max_height
    else g.atlas_h_ := by
  unfold pack
  simp only [next_row_h]
  split
  · rw [grow_h, next_row_h]
  · rw [next_row_h]

end

theorem size_grow {g : GlyphCache} (size : g.atlas_pixels_.length = g.atlas_w_ * g.atlas_h_ * 4) :
    g.grow_atlas.atlas_pixels_.length = g.atlas_w_ * g.grow_atlas.atlas_h_ * 4 := by
  unfold grow_atlas
  simp only
  split
  · exact size
  · rw [length_memcpy, List.length_replicate]

theorem size_pack {g : GlyphCache} (size : g.atlas_pixels_.length = g.atlas_w_ * g.atlas_h_ * 4)
    (gw gh : ℕ) :
    (g.pack gw gh).atlas_pixels_.length = g.atlas_w_ * (g.pack gw gh).atlas_h_ * 4 := by
  unfold pack
  simp only
  split
  · rw [size_grow (by simpa using size), next_row_w]
  · simpa using size

/-- The bytes of the old atlas begin the grown one. -/
theorem getElem?_grow {g : GlyphCache} {i : ℕ}
    (longer : g.atlas_pixels_.length ≤ g.grow_atlas.atlas_pixels_.length)
    (inside : i < g.atlas_pixels_.length) : g.grow_atlas.atlas_pixels_[i]? = g.atlas_pixels_[i]? := by
  unfold grow_atlas at longer ⊢
  simp only at longer ⊢
  split
  · rfl
  · next other =>
    rw [if_neg other, length_memcpy] at longer
    exact getElem?_memcpy longer inside

theorem getElem?_pack {g : GlyphCache} {gw gh i : ℕ}
    (longer : g.atlas_pixels_.length ≤ (g.pack gw gh).atlas_pixels_.length)
    (inside : i < g.atlas_pixels_.length) :
    (g.pack gw gh).atlas_pixels_[i]? = g.atlas_pixels_[i]? := by
  have row := next_row_pixels g gw
  unfold pack at longer ⊢
  simp only at longer ⊢
  split
  · next grows =>
    rw [if_pos grows] at longer
    rw [← row] at longer inside ⊢
    exact getElem?_grow longer inside
  · rw [row]

/-- The bytes that are written are those of the pixels of the glyph's rectangle. -/
theorem writes_at {g : GlyphCache} {b : Bounds} {buf : ℕ → ℕ → UInt8} {w : ℕ × UInt8}
    (member : w ∈ g.writes b buf) :
    ∃ x y c, (g.shelf.rect b.gw b.gh).Has x y ∧ c < 4 ∧ w.1 = g.byte_at x y c := by
  obtain ⟨row, row_lt, member⟩ := List.mem_flatMap.mp member
  obtain ⟨column, column_lt, member⟩ := List.mem_flatMap.mp member
  have row_lt := List.mem_range.mp row_lt
  have column_lt := List.mem_range.mp column_lt
  refine ⟨g.cursor_x_ + column, g.cursor_y_ + (b.gh - 1 - row), ?_⟩
  have has : (g.shelf.rect b.gw b.gh).Has (g.cursor_x_ + column) (g.cursor_y_ + (b.gh - 1 - row)) := by
    refine ⟨⟨Nat.le_add_right _ _, ?_⟩, Nat.le_add_right _ _, ?_⟩
    · exact Nat.add_lt_add_left column_lt _
    · change g.cursor_y_ + (b.gh - 1 - row) < g.cursor_y_ + b.gh
      omega
  rcases List.mem_cons.mp member with rfl | member
  · exact ⟨0, has, by omega, rfl⟩
  rcases List.mem_cons.mp member with rfl | member
  · exact ⟨1, has, by omega, rfl⟩
  rcases List.mem_cons.mp member with rfl | member
  · exact ⟨2, has, by omega, rfl⟩
  · obtain rfl := List.mem_singleton.mp member
    exact ⟨3, has, by omega, rfl⟩

theorem last_mem_writes (g : GlyphCache) (b : Bounds) (buf : ℕ → ℕ → UInt8) :
    ∃ w ∈ g.writes b buf, w.1 = g.byte_at (g.cursor_x_ + b.gw - 1) (g.cursor_y_ + b.gh - 1) 3 := by
  have wide : 0 < b.gw := Nat.succ_pos _
  have tall : 0 < b.gh := Nat.succ_pos _
  let w := (((g.cursor_y_ + (b.gh - 1 - 0)) * g.atlas_w_ + (g.cursor_x_ + (b.gw - 1))) * 4 + 3,
    buf (b.min_y + 0) (b.min_x + (b.gw - 1)))
  have last : w ∈ g.pixel_writes b buf 0 (b.gw - 1) :=
    List.mem_cons_of_mem _ (List.mem_cons_of_mem _ (List.mem_cons_of_mem _
      (List.mem_singleton.mpr rfl)))
  refine ⟨w, List.mem_flatMap.mpr ⟨0, List.mem_range.mpr tall, List.mem_flatMap.mpr
    ⟨b.gw - 1, List.mem_range.mpr (Nat.sub_lt wide Nat.one_pos), last⟩⟩, ?_⟩
  change ((g.cursor_y_ + (b.gh - 1 - 0)) * g.atlas_w_ + (g.cursor_x_ + (b.gw - 1))) * 4 + 3 = _
  rw [byte_at, Nat.sub_zero, Nat.add_sub_assoc tall, Nat.add_sub_assoc wide]

@[simp] theorem length_blit (pixels : List UInt8) (writes : List (ℕ × UInt8)) :
    (blit pixels writes).length = pixels.length := by
  induction writes generalizing pixels with
  | nil => rfl
  | cons w rest ih => exact (ih (pixels.set w.1 w.2)).trans List.length_set

theorem getElem?_blit {writes : List (ℕ × UInt8)} {i : ℕ} (elsewhere : ∀ w ∈ writes, w.1 ≠ i)
    (pixels : List UInt8) : (blit pixels writes)[i]? = pixels[i]? := by
  induction writes generalizing pixels with
  | nil => rfl
  | cons w rest ih =>
    obtain ⟨here, later⟩ := List.forall_mem_cons.mp elsewhere
    exact (ih later (pixels.set w.1 w.2)).trans (List.getElem?_set_ne here)

theorem row_le {g : GlyphCache} {y h : ℕ} (lt : y < h) : y * g.atlas_w_ + g.atlas_w_ ≤ h * g.atlas_w_ := by
  rw [← Nat.succ_mul]
  exact Nat.mul_le_mul_right _ lt

theorem byte_at_lt {g : GlyphCache} {x y c h : ℕ} (left : x < g.atlas_w_) (above : y < h)
    (byte : c < 4) : g.byte_at x y c < g.atlas_w_ * h * 4 := by
  have rows := row_le (g := g) above
  rw [Nat.mul_comm g.atlas_w_ h]
  unfold byte_at
  omega

theorem byte_at_inj {g : GlyphCache} {x y c x' y' c' : ℕ} (inside : x < g.atlas_w_)
    (inside' : x' < g.atlas_w_) (byte : c < 4) (byte' : c' < 4)
    (same : g.byte_at x y c = g.byte_at x' y' c') : x = x' ∧ y = y' := by
  have pixel : y * g.atlas_w_ + x = y' * g.atlas_w_ + x' := by
    unfold byte_at at same
    omega
  rcases Nat.lt_trichotomy y y' with below | level | above
  · have rows := row_le (g := g) below
    omega
  · subst level
    exact ⟨Nat.add_left_cancel pixel, rfl⟩
  · have rows := row_le (g := g) above
    omega

theorem Inv.pack {g : GlyphCache} (i : Inv g) (gw gh : ℕ) : Inv (g.pack gw gh) where
  size := by rw [size_pack i.size, pack_w]
  behind := by
    rw [pack_cache, shelf_pack]
    exact fun e member => (i.behind e member).open_row
  apart := by
    rw [pack_cache]
    exact i.apart

theorem shelf_place (font : Font) (g : GlyphCache) (codepoint : UInt32) :
    (place font g codepoint).2.shelf =
      g.shelf.put GLYPH_PAD (glyph font codepoint).gw (glyph font codepoint).gh := by
  unfold Shelf.put
  rw [Nat.add_assoc]
  rfl

theorem Inv.place {g : GlyphCache} (i : Inv g) (font : Font) (codepoint : UInt32) :
    Inv (place font g codepoint).2 where
  size := (length_blit _ _).trans i.size
  behind := by
    rw [shelf_place]
    exact List.forall_mem_cons.mpr
      ⟨Shelf.behind_put (s := g.shelf), fun e member => (i.behind e member).put⟩
  apart := List.pairwise_cons.mpr ⟨fun e member => (i.behind e member).apart, i.apart⟩

theorem step_cases (font : Font) (g : GlyphCache) (codepoint : UInt32) :
    (g.cache_.lookup codepoint ≠ none ∧ step font g codepoint = g) ∨
    (g.cache_.lookup codepoint = none ∧ (glyph font codepoint).Empty ∧ step font g codepoint =
      { g with cache_ := (codepoint, blank_info font codepoint) :: g.cache_ }) ∨
    (g.cache_.lookup codepoint = none ∧ ¬(glyph font codepoint).Empty ∧ step font g codepoint =
      (place font (g.pack (glyph font codepoint).gw (glyph font codepoint).gh) codepoint).2) := by
  unfold step ensure
  cases found : g.cache_.lookup codepoint with
  | some info => exact Or.inl ⟨Option.some_ne_none info, rfl⟩
  | none =>
    right
    by_cases empty : (glyph font codepoint).Empty
    · exact Or.inl ⟨rfl, empty, by simp only [if_pos empty]⟩
    · exact Or.inr ⟨rfl, empty, by simp only [if_neg empty]⟩

theorem Inv.step {g : GlyphCache} (i : Inv g) (font : Font) (codepoint : UInt32) :
    Inv (step font g codepoint) := by
  rcases step_cases font g codepoint with ⟨-, same⟩ | ⟨-, -, added⟩ | ⟨-, -, placed⟩
  · rw [same]
    exact i
  · rw [added]
    exact { size := i.size
            behind := List.forall_mem_cons.mpr ⟨Or.inl (Nat.zero_le _), i.behind⟩
            apart := List.pairwise_cons.mpr ⟨fun _ _ => Or.inl (Nat.zero_le _), i.apart⟩ }
  · rw [placed]
    exact (i.pack _ _).place font codepoint

/-- The place that a glyph gets: the atlas is no smaller than before, the rectangle lies inside, and its
last byte has an index. -/
structure Room (g : GlyphCache) (gw gh : ℕ) : Prop where
  taller : g.atlas_h_ ≤ (g.pack gw gh).atlas_h_
  within : ((g.pack gw gh).shelf.rect gw gh).Within g.atlas_w_ (g.pack gw gh).atlas_h_
  index : g.byte_at ((g.pack gw gh).cursor_x_ + gw - 1) ((g.pack gw gh).cursor_y_ + gh - 1) 3 < 2 ^ 31

theorem fits_iff_room {font : Font} {g : GlyphCache} {codepoint : UInt32}
    (new : g.cache_.lookup codepoint = none) (visible : ¬(glyph font codepoint).Empty) :
    Fits font g codepoint ↔ Room g (glyph font codepoint).gw (glyph font codepoint).gh := by
  have height := pack_h g (glyph font codepoint).gw (glyph font codepoint).gh
  have column := pack_x g (glyph font codepoint).gw (glyph font codepoint).gh
  have row := pack_y g (glyph font codepoint).gw (glyph font codepoint).gh
  simp only [Fits, new, Option.isSome_none, Bool.false_eq_true, false_or, visible]
  constructor
  · rintro ⟨wide, tall, index⟩
    rw [← column, ← row] at index
    refine ⟨?_, ⟨?_, ?_⟩, index⟩
    · rw [height]
      rcases tall with stays | ⟨small, -⟩
      · rw [if_neg (Nat.not_lt.mpr stays)]
      · split
        · exact le_min (by omega) small
        · exact le_refl _
    · change (g.pack _ _).cursor_x_ + _ ≤ _
      rwa [column]
    · change (g.pack _ _).cursor_y_ + _ ≤ _
      rw [row, height]
      rcases tall with stays | ⟨-, grown⟩
      · rw [if_neg (Nat.not_lt.mpr stays)]
        exact (Nat.le_add_right _ _).trans stays
      · split
        · exact grown
        · next stays => exact (Nat.le_add_right _ _).trans (Nat.le_of_not_lt stays)
  · rintro ⟨taller, ⟨wide, tall⟩, index⟩
    change (g.pack _ _).cursor_x_ + _ ≤ _ at wide
    change (g.pack _ _).cursor_y_ + _ ≤ _ at tall
    rw [column] at wide index
    rw [row] at tall index
    rw [height] at taller tall
    refine ⟨wide, ?_, index⟩
    by_cases grows : g.atlas_h_ < (g.next_row (glyph font codepoint).gw).cursor_y_ +
        (glyph font codepoint).gh + GLYPH_PAD
    · rw [if_pos grows] at taller tall
      exact Or.inr ⟨taller.trans (min_le_right _ _), tall⟩
    · exact Or.inl (Nat.le_of_not_lt grows)

/-- A glyph with room: it is packed beside the others, and only fresh bytes of the atlas are written. -/
theorem placed_of_room {font : Font} {g : GlyphCache} {codepoint : UInt32} (i : Inv g) (p : Packed g)
    (room : Room g (glyph font codepoint).gw (glyph font codepoint).gh) :
    let b := glyph font codepoint
    let g' := (place font (g.pack b.gw b.gh) codepoint).2
    Packed g' ∧ (g.atlas_pixels_.length ≤ (g.pack b.gw b.gh).atlas_pixels_.length ∧
      ∀ w ∈ (g.pack b.gw b.gh).writes b (buf font codepoint),
        w.1 < 2 ^ 31 ∧ w.1 < (g.pack b.gw b.gh).atlas_pixels_.length) ∧ Kept g g' := by
  intro b g'
  have placed : Inv g' := (i.pack _ _).place font codepoint
  have width : (g.pack b.gw b.gh).atlas_w_ = g.atlas_w_ := pack_w ..
  have size := size_pack i.size b.gw b.gh
  have longer : g.atlas_pixels_.length ≤ (g.pack b.gw b.gh).atlas_pixels_.length := by
    rw [i.size, size]
    exact Nat.mul_le_mul_right 4 (Nat.mul_le_mul_left _ room.taller)
  refine ⟨⟨?_, placed.apart⟩, ⟨longer, fun w member => ?_⟩, fun e member => ⟨?_, fun x y c has byte => ?_⟩⟩
  · refine List.forall_mem_cons.mpr ⟨?_, fun e member => ?_⟩
    · change ((g.pack b.gw b.gh).shelf.rect b.gw b.gh).Within (g.pack b.gw b.gh).atlas_w_
        (g.pack b.gw b.gh).atlas_h_
      rw [width]
      exact room.within
    · rw [pack_cache] at member
      change (rect e.2).Within (g.pack b.gw b.gh).atlas_w_ (g.pack b.gw b.gh).atlas_h_
      rw [width]
      exact (p.inside e member).mono room.taller
  · obtain ⟨x, y, c, has, byte, index⟩ := writes_at member
    have inside := has.lt room.within
    rw [index, size, ← width]
    refine ⟨?_, byte_at_lt (by rw [width]; exact inside.1) inside.2 byte⟩
    -- no byte of the rectangle is behind its last one
    have last : g.byte_at ((g.pack b.gw b.gh).cursor_x_ + b.gw - 1)
        ((g.pack b.gw b.gh).cursor_y_ + b.gh - 1) 3 < 2 ^ 31 := room.index
    have right : x ≤ (g.pack b.gw b.gh).cursor_x_ + b.gw - 1 := Nat.le_sub_one_of_lt has.1.2
    have below : y ≤ (g.pack b.gw b.gh).cursor_y_ + b.gh - 1 := Nat.le_sub_one_of_lt has.2.2
    have rows := Nat.mul_le_mul_right g.atlas_w_ below
    unfold byte_at at last ⊢
    rw [width]
    omega
  · exact List.mem_cons_of_mem _ (by rwa [pack_cache])
  · have inside := has.lt (p.inside e member)
    have old : g.byte_at x y c < g.atlas_pixels_.length := by
      rw [i.size]
      exact byte_at_lt inside.1 inside.2 byte
    refine (getElem?_blit (fun w written same => ?_) _).trans (getElem?_pack longer old)
    obtain ⟨x', y', c', has', byte', index⟩ := writes_at written
    have inside' := has'.lt room.within
    have bytes : g.byte_at x' y' c' = g.byte_at x y c := by
      rw [← same, index, byte_at, byte_at, width]
    obtain ⟨rfl, rfl⟩ := byte_at_inj inside'.1 inside.1 byte' byte bytes
    have behind := (i.pack b.gw b.gh).behind e (by rwa [pack_cache])
    exact behind.apart.not_both has' has

/-- The other way round: where nothing goes wrong, there was room. -/
theorem room_of_placed {font : Font} {g : GlyphCache} {codepoint : UInt32} (i : Inv g)
    (p : Packed (place font (g.pack (glyph font codepoint).gw (glyph font codepoint).gh) codepoint).2)
    (longer : g.atlas_pixels_.length ≤
      (g.pack (glyph font codepoint).gw (glyph font codepoint).gh).atlas_pixels_.length)
    (written : ∀ w ∈ (g.pack (glyph font codepoint).gw (glyph font codepoint).gh).writes
      (glyph font codepoint) (buf font codepoint), w.1 < 2 ^ 31) :
    Room g (glyph font codepoint).gw (glyph font codepoint).gh := by
  have within := p.inside _ List.mem_cons_self
  change ((g.pack _ _).shelf.rect _ _).Within (g.pack _ _).atlas_w_ (g.pack _ _).atlas_h_ at within
  rw [pack_w] at within
  refine ⟨?_, within, ?_⟩
  · have wide : 0 < g.atlas_w_ :=
      (Nat.succ_pos _).trans_le ((Nat.le_add_left _ _).trans within.1)
    rw [i.size, size_pack i.size] at longer
    exact Nat.le_of_mul_le_mul_left (Nat.le_of_mul_le_mul_right longer (by omega)) wide
  · obtain ⟨w, member, index⟩ := last_mem_writes
      (g.pack (glyph font codepoint).gw (glyph font codepoint).gh) (glyph font codepoint)
      (buf font codepoint)
    have last := written w member
    rw [index] at last
    unfold byte_at at last ⊢
    rwa [pack_w] at last

theorem packed_blank_info {g : GlyphCache} (p : Packed g) (font : Font) (codepoint : UInt32) :
    Packed { g with cache_ := (codepoint, blank_info font codepoint) :: g.cache_ } where
  inside := List.forall_mem_cons.mpr ⟨⟨Nat.zero_le _, Nat.zero_le _⟩, p.inside⟩
  apart := List.pairwise_cons.mpr ⟨fun _ _ => Or.inl (Nat.zero_le _), p.apart⟩

theorem sound_iff_fits {font : Font} {g : GlyphCache} {codepoint : UInt32} (i : Inv g) (p : Packed g) :
    (Packed (step font g codepoint) ∧ Contained font g codepoint ∧ Kept g (step font g codepoint)) ↔
      Fits font g codepoint := by
  rcases step_cases font g codepoint with ⟨cached, same⟩ | ⟨new, empty, added⟩ | ⟨new, visible, placed⟩
  · rw [same]
    refine iff_of_true ⟨p, fun new => absurd new cached, fun _ member => ⟨member, fun _ _ _ _ _ => rfl⟩⟩ ?_
    exact Or.inl (Option.isSome_iff_ne_none.mpr cached)
  · rw [added]
    refine iff_of_true ⟨packed_blank_info p font codepoint, fun _ visible => absurd empty visible,
      fun _ member => ⟨List.mem_cons_of_mem _ member, fun _ _ _ _ _ => rfl⟩⟩ ?_
    exact Or.inr (Or.inl empty)
  · rw [placed, fits_iff_room new visible]
    constructor
    · rintro ⟨packed, contained, -⟩
      obtain ⟨longer, written⟩ := contained new visible
      exact room_of_placed i packed longer fun w member => (written w member).1
    · intro room
      obtain ⟨packed, contained, kept⟩ := placed_of_room i p room
      exact ⟨packed, fun _ _ => contained, kept⟩

/-- The calls of a cache's life: those of its constructor and those after it. -/
def calls (codepoints : List UInt32) : List UInt32 := printable ++ codepoints

/-- Every call that is made keeps its writes inside the atlas and the earlier glyphs as they were, and in
every state the glyphs lie inside the atlas, no two of them on each other. -/
def Sound (font : Font) (atlas_size : ℕ) (codepoints : List UInt32) : Prop :=
  Always (step font) Packed (blank atlas_size) (calls codepoints) ∧
    Throughout (step font) (fun g codepoint => Contained font g codepoint ∧ Kept g (step font g codepoint))
      (blank atlas_size) (calls codepoints)

/-- The atlas is sound exactly as long as every new glyph fits. -/
theorem sound_iff (font : Font) (atlas_size : ℕ) (codepoints : List UInt32) :
    Sound font atlas_size codepoints ↔
      Throughout (step font) (Fits font) (blank atlas_size) (calls codepoints) := by
  have kept : ∀ g codepoint, Inv g → Inv (step font g codepoint) := fun _ codepoint i =>
    i.step font codepoint
  exact always_and_throughout_iff kept (fun g codepoint i p => sound_iff_fits i p)
    (inv_blank atlas_size) (packed_blank atlas_size) (calls codepoints)

/-- A font whose glyphs fill a square of `side` and the line below it. -/
def box (side : ℕ) : Font where
  line_height := side
  ascender := side
  measure_width := fun _ => side
  render := fun _ _ _ _ _ => 255

theorem box_row (n y : ℕ) (b : Bounds) :
    (List.range (n + 1)).foldl (fun b x => if 0 < (255 : UInt8) then b.add x y else b) b =
      ⟨0, min b.min_y y, max b.max_x n, max b.max_y y⟩ := by
  have opaque_pixel : (0 : UInt8) < 255 := by decide
  simp only [if_pos opaque_pixel]
  induction n with
  | zero => simp [Bounds.add]
  | succ n ih =>
    rw [List.range_succ, List.foldl_append, ih]
    simp [Bounds.add]

theorem box_rows (m n : ℕ) (b : Bounds) :
    (List.range (m + 1)).foldl (fun b y =>
      (List.range (n + 1)).foldl (fun b x => if 0 < (255 : UInt8) then b.add x y else b) b) b =
      ⟨0, 0, max b.max_x n, max b.max_y m⟩ := by
  simp only [box_row]
  induction m with
  | zero => simp
  | succ m ih =>
    rw [List.range_succ, List.foldl_append, ih]
    simp

theorem glyph_box (n : ℕ) (codepoint : UInt32) :
    glyph (box (n + 1)) codepoint = ⟨0, 0, n, 2 * n + 1⟩ := by
  have width : buf_w (box (n + 1)) codepoint = n + 1 := Nat.max_self _
  have height : buf_h (box (n + 1)) = 2 * n + 1 + 1 := by
    change (n + 1) * 2 = _
    omega
  unfold glyph bounds
  rw [width, height]
  exact (box_rows (2 * n + 1) n _).trans (by simp)

/-- The shelf and the height of the atlas. -/
structure Canvas where
  shelf : Shelf
  height : ℕ

def canvas (g : GlyphCache) : Canvas := ⟨g.shelf, g.atlas_h_⟩

def Canvas.put (width gw gh : ℕ) (c : Canvas) : Canvas :=
  let row := c.shelf.open_row GLYPH_PAD width gw
  ⟨row.put GLYPH_PAD gw gh,
    if c.height < row.y + gh + GLYPH_PAD then min (c.height * 2) max_height else c.height⟩

theorem canvas_step {font : Font} {g : GlyphCache} {codepoint : UInt32}
    (new : g.cache_.lookup codepoint = none) (visible : ¬(glyph font codepoint).Empty) :
    (step font g codepoint).canvas =
      g.canvas.put g.atlas_w_ (glyph font codepoint).gw (glyph font codepoint).gh ∧
    ∃ info, (step font g codepoint).cache_ = (codepoint, info) :: g.cache_ ∧
      (rect info).y = (step font g codepoint).cursor_y_ ∧ (rect info).h = (glyph font codepoint).gh := by
  obtain ⟨cached, -⟩ | ⟨-, empty, -⟩ | ⟨-, -, placed⟩ := step_cases font g codepoint
  · exact absurd new cached
  · exact absurd empty visible
  · rw [placed]
    refine ⟨?_, (place font (g.pack _ _) codepoint).1, ?_, rfl, rfl⟩
    · unfold canvas Canvas.put
      rw [shelf_place, shelf_pack]
      congr 1
      refine (pack_h ..).trans ?_
      rw [← shelf_next_row]
      rfl
    · change _ :: (g.pack _ _).cache_ = _
      rw [pack_cache]
      rfl

theorem step_w (font : Font) (g : GlyphCache) (codepoint : UInt32) :
    (step font g codepoint).atlas_w_ = g.atlas_w_ := by
  rcases step_cases font g codepoint with ⟨-, same⟩ | ⟨-, -, added⟩ | ⟨-, -, placed⟩
  · rw [same]
  · rw [added]
  · rw [placed]
    exact pack_w ..

/-- Distinct glyphs of one size move the shelf and the height step by step, and the last of them is in
the row of the cursor. -/
theorem canvas_run {font : Font} {gw gh : ℕ} (visible : ∀ codepoint, ¬(glyph font codepoint).Empty)
    (sizes : ∀ codepoint, (glyph font codepoint).gw = gw ∧ (glyph font codepoint).gh = gh)
    {codepoints : List UInt32} (distinct : codepoints.Nodup) {g : GlyphCache}
    (new : ∀ codepoint ∈ codepoints, g.cache_.lookup codepoint = none) :
    (run (step font) g codepoints).canvas =
      (Canvas.put g.atlas_w_ gw gh)^[codepoints.length] g.canvas ∧
    (codepoints ≠ [] → ∃ e ∈ (run (step font) g codepoints).cache_,
      (rect e.2).y = (run (step font) g codepoints).cursor_y_ ∧ (rect e.2).h = gh) := by
  induction codepoints generalizing g with
  | nil => exact ⟨rfl, fun some => absurd rfl some⟩
  | cons codepoint rest ih =>
    obtain ⟨fresh, distinct⟩ := List.nodup_cons.mp distinct
    obtain ⟨here, later⟩ := List.forall_mem_cons.mp new
    obtain ⟨moved, info, cached, row, tall⟩ := canvas_step here (visible codepoint)
    obtain ⟨wide, high⟩ := sizes codepoint
    have unseen : ∀ other ∈ rest, (step font g codepoint).cache_.lookup other = none := by
      intro other member
      have differ : (other == codepoint) = false := beq_false_of_ne fun same => fresh (same ▸ member)
      rw [cached, List.lookup_cons, differ]
      exact later other member
    obtain ⟨rest_moved, last⟩ := ih distinct unseen
    refine ⟨?_, fun _ => ?_⟩
    · rw [run_cons, rest_moved, step_w, moved, wide, high]
      rfl
    · cases rest with
      | nil => exact ⟨(codepoint, info), cached ▸ List.mem_cons_self, row, tall.trans high⟩
      | cons other rest => exact last (List.cons_ne_nil other rest)

theorem not_packed_of_full {font : Font} {gw gh atlas_size : ℕ}
    (visible : ∀ codepoint, ¬(glyph font codepoint).Empty)
    (sizes : ∀ codepoint, (glyph font codepoint).gw = gw ∧ (glyph font codepoint).gh = gh)
    {codepoints : List UInt32} (distinct : codepoints.Nodup) (called : codepoints ≠ []) {n : ℕ}
    (length : codepoints.length = n) {c : Canvas}
    (moved : (Canvas.put atlas_size gw gh)^[n] ⟨⟨0, 0, 0⟩, atlas_size⟩ = c)
    (full : c.height < c.shelf.y + gh) : ¬Packed (run (step font) (blank atlas_size) codepoints) := by
  intro packed
  have unseen : ∀ codepoint ∈ codepoints, (blank atlas_size).cache_.lookup codepoint = none :=
    fun _ _ => rfl
  obtain ⟨same, last⟩ := canvas_run visible sizes distinct unseen
  obtain ⟨e, member, row, tall⟩ := last called
  have inside : (rect e.2).y + (rect e.2).h ≤ _ := (packed.inside e member).2
  have here : (run (step font) (blank atlas_size) codepoints).canvas = c := by
    rw [same, length]
    exact moved
  rw [row, tall] at inside
  rw [← here] at full
  exact absurd full (Nat.not_lt.mpr inside)

/-- Eleven ideographs in a text of 64 pixels, on the default atlas. -/
def ideographs : List UInt32 := (List.range 11).map fun i => UInt32.ofNat (0x4E00 + i)

/-- The printable glyphs and ten more fill the atlas, fifteen rows of seven, when it cannot grow. -/
theorem ideographs_overrun : ¬Sound (box 64) 512 ideographs := by
  rintro ⟨packed, -⟩
  have sizes : ∀ codepoint, (glyph (box 64) codepoint).gw = 64 ∧ (glyph (box 64) codepoint).gh = 128 := by
    intro codepoint
    rw [glyph_box 63]
    exact ⟨rfl, rfl⟩
  have visible : ∀ codepoint, ¬(glyph (box 64) codepoint).Empty := by
    intro codepoint
    rw [glyph_box 63]
    exact Nat.not_lt_zero 63
  have distinct : (calls ideographs).Nodup := by decide +kernel
  have length : (calls ideographs).length = 106 := by decide +kernel
  have called : calls ideographs ≠ [] := List.ne_nil_of_length_eq_add_one length
  have full : ((Canvas.put 512 64 128)^[106] ⟨⟨0, 0, 0⟩, 512⟩).height <
      ((Canvas.put 512 64 128)^[106] ⟨⟨0, 0, 0⟩, 512⟩).shelf.y + 128 := by decide +kernel
  have at_end : Packed (run (step (box 64)) (blank 512) (calls ideographs)) :=
    always_iff_isPrefix.mp packed _ (List.prefix_refl _)
  exact not_packed_of_full visible sizes distinct called length rfl full at_end

end GlyphCache

end AoSdl
