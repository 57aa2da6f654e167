import AoSdl.GlyphCache
import AoSdl.TextRenderer
import AoSdl.Lib.RowMajor
import Mathlib.Algebra.Order.Field.Basic
import Mathlib.Algebra.Order.Field.Rat
import Mathlib.Data.Rat.Cast.Order
import Mathlib.Tactic.FieldSimp
import Mathlib.Tactic.Ring

/-! The mesh of a text: a quad for every glyph, with the part of the atlas that it shows. The size of the
atlas is read once, and then the glyphs are ensured one by one. -/
namespace AoSdl
open Lib.Runs TextRenderer

/-- What of a glyph's data has nothing to do with its place in the atlas. -/
def GlyphInfo.unplaced (info : GlyphInfo) : GlyphInfo := { info with atlas_x := 0, atlas_y := 0 }

namespace GlyphCache

section

variable (font : Font) (g : GlyphCache) (codepoint : UInt32)

/-- What `ensure` finds of a glyph but for its place, in whatever state it is called. -/
def measured : GlyphInfo := (ensure font g codepoint).1.unplaced

/-- The height of the atlas is another one after the glyph was ensured. -/
def Grows : Prop :=
  let b := glyph font codepoint
  g.cache_.lookup codepoint = none ∧ ¬b.Empty ∧
    g.atlas_h_ < (g.next_row b.gw).cursor_y_ + b.gh + GLYPH_PAD ∧ min (g.atlas_h_ * 2) max_height ≠ g.atlas_h_

instance : Decidable (Grows font g codepoint) := inferInstanceAs (Decidable (_ ∧ _))

theorem step_h : (step font g codepoint).atlas_h_ = g.atlas_h_ ∨
    Grows font g codepoint ∧ (step font g codepoint).atlas_h_ = min (g.atlas_h_ * 2) max_height := by
  rcases step_cases font g codepoint with ⟨-, same⟩ | ⟨-, -, added⟩ | ⟨new, visible, placed⟩
  · rw [same]
    exact Or.inl rfl
  · rw [added]
    exact Or.inl rfl
  · have height : (step font g codepoint).atlas_h_ =
        (g.pack (glyph font codepoint).gw (glyph font codepoint).gh).atlas_h_ := by
      rw [placed]
      rfl
    rw [height, pack_h]
    split
    · next below =>
      by_cases same : min (g.atlas_h_ * 2) max_height = g.atlas_h_
      · exact Or.inl same
      · exact Or.inr ⟨⟨new, visible, below, same⟩, rfl⟩
    · exact Or.inl rfl

theorem step_h_of_grows {font : Font} {g : GlyphCache} {codepoint : UInt32} (grows : Grows font g codepoint) :
    (step font g codepoint).atlas_h_ = min (g.atlas_h_ * 2) max_height := by
  obtain ⟨new, visible, below, -⟩ := grows
  obtain ⟨cached, -⟩ | ⟨-, empty, -⟩ | ⟨-, -, placed⟩ := step_cases font g codepoint
  · exact absurd new cached
  · exact absurd empty visible
  · rw [placed]
    exact (pack_h ..).trans (if_pos below)

theorem cache_step : (ensure font g codepoint).2 = g ∧ g.cache_.lookup codepoint = some (ensure font g codepoint).1 ∨
    g.cache_.lookup codepoint = none ∧
      (step font g codepoint).cache_ = (codepoint, (ensure font g codepoint).1) :: g.cache_ := by
  unfold step ensure
  cases found : g.cache_.lookup codepoint with
  | some info => exact Or.inl ⟨rfl, rfl⟩
  | none =>
    refine Or.inr ⟨rfl, ?_⟩
    dsimp only
    split
    · rfl
    · exact congrArg (List.cons _) (pack_cache ..)

end

variable {font : Font} {g : GlyphCache} {codepoint : UInt32}

theorem lookup_step_self : (step font g codepoint).cache_.lookup codepoint = some (ensure font g codepoint).1 := by
  obtain ⟨same, found⟩ | ⟨-, added⟩ := cache_step font g codepoint
  · rw [step, same, found]
  · rw [added, List.lookup_cons_self]

theorem lookup_step_of_ne {other : UInt32} (ne : other ≠ codepoint) :
    (step font g codepoint).cache_.lookup other = g.cache_.lookup other := by
  obtain ⟨same, -⟩ | ⟨-, added⟩ := cache_step font g codepoint
  · rw [step, same]
  · rw [added, List.lookup_cons, beq_false_of_ne ne]

theorem lookup_step {other : UInt32} {info : GlyphInfo} (cached : g.cache_.lookup other = some info) :
    (step font g codepoint).cache_.lookup other = some info := by
  by_cases ne : other = codepoint
  · subst ne
    obtain ⟨same, -⟩ | ⟨new, -⟩ := cache_step font g other
    · rw [step, same, cached]
    · rw [cached] at new
      cases new
  · rw [lookup_step_of_ne ne, cached]

theorem lookup_run {codepoints : List UInt32} {other : UInt32} {info : GlyphInfo}
    (cached : g.cache_.lookup other = some info) : (run (step font) g codepoints).cache_.lookup other = some info :=
  invariant_run (P := fun g : GlyphCache => g.cache_.lookup other = some info)
    (fun _ _ cached => lookup_step cached) cached codepoints

theorem lookup_run_of_notMem {codepoints : List UInt32} {other : UInt32} (never : other ∉ codepoints) :
    (run (step font) g codepoints).cache_.lookup other = g.cache_.lookup other := by
  induction codepoints generalizing g with
  | nil => rfl
  | cons codepoint rest ih =>
    rw [run_cons, ih fun member => never (List.mem_cons_of_mem _ member)]
    exact lookup_step_of_ne fun same => never (same ▸ List.mem_cons_self)

theorem ensure_of_cached (font : Font) {info : GlyphInfo} (cached : g.cache_.lookup codepoint = some info) :
    ensure font g codepoint = (info, g) := by
  unfold ensure
  rw [cached]

/-- The metrics of a glyph that is new come from the font alone. -/
theorem measured_of_new (new : g.cache_.lookup codepoint = none) :
    measured font g codepoint =
      if (glyph font codepoint).Empty then blank_info font codepoint
      else (place font g codepoint).1.unplaced := by
  unfold measured ensure
  rw [new]
  dsimp only
  split <;> rfl

theorem measured_step (other : UInt32) : measured font (step font g codepoint) other = measured font g other := by
  by_cases same : other = codepoint
  · subst same
    unfold measured
    rw [ensure_of_cached font lookup_step_self]
  · cases found : g.cache_.lookup other with
    | some info =>
      unfold measured
      rw [ensure_of_cached font found, ensure_of_cached font (lookup_step found)]
    | none =>
      rw [measured_of_new found, measured_of_new ((lookup_step_of_ne same).trans found)]
      rfl

/-- The height of the atlas was left for good: it is never again what it was. -/
theorem h_run_ne {h : ℕ} {codepoints : List UInt32} (left : g.atlas_h_ ≠ h ∧ min h max_height ≤ g.atlas_h_ ∧
    g.atlas_h_ ≤ max_height) : (run (step font) g codepoints).atlas_h_ ≠ h := by
  have kept : ∀ (g : GlyphCache) codepoint,
      (g.atlas_h_ ≠ h ∧ min h max_height ≤ g.atlas_h_ ∧ g.atlas_h_ ≤ max_height) →
      ((step font g codepoint).atlas_h_ ≠ h ∧ min h max_height ≤ (step font g codepoint).atlas_h_ ∧
        (step font g codepoint).atlas_h_ ≤ max_height) := by
    intro g codepoint left
    obtain same | ⟨-, higher⟩ := step_h font g codepoint
    · rwa [same]
    · omega
  exact (invariant_run kept left codepoints).1

/-- The atlas ends with the height that it began with exactly if no glyph made it grow. -/
theorem h_run_iff {codepoints : List UInt32} : (run (step font) g codepoints).atlas_h_ = g.atlas_h_ ↔
    Throughout (step font) (fun g codepoint => ¬Grows font g codepoint) g codepoints := by
  induction codepoints generalizing g with
  | nil => exact iff_of_true rfl trivial
  | cons codepoint rest ih =>
    rw [run_cons, Throughout]
    by_cases grows : Grows font g codepoint
    · refine iff_of_false (h_run_ne ?_) fun still => still.1 grows
      have higher := step_h_of_grows grows
      have other := grows.2.2.2
      omega
    · have same := (step_h font g codepoint).resolve_right fun grown => grows grown.1
      rw [← same, ih, and_iff_right grows]

theorem measured_run {codepoints : List UInt32} (other : UInt32) :
    measured font (run (step font) g codepoints) other = measured font g other := by
  induction codepoints generalizing g with
  | nil => rfl
  | cons codepoint rest ih => exact ih.trans (measured_step other)

theorem cached_run (font : Font) (g : GlyphCache) {codepoints : List UInt32} (member : codepoint ∈ codepoints) :
    ∃ info, (run (step font) g codepoints).cache_.lookup codepoint = some info := by
  induction codepoints generalizing g with
  | nil => exact absurd member List.not_mem_nil
  | cons first rest ih =>
    obtain rfl | member := List.mem_cons.mp member
    · rw [run_cons]
      exact ⟨_, lookup_run lookup_step_self⟩
    · exact ih _ member

theorem run_w {codepoints : List UInt32} : (run (step font) g codepoints).atlas_w_ = g.atlas_w_ := by
  induction codepoints generalizing g with
  | nil => rfl
  | cons codepoint rest ih => exact ih.trans (step_w ..)

end GlyphCache

namespace TextMeshBuilder

structure CharColor where
  r : ℚ
  g : ℚ
  b : ℚ

structure MeshVertex where
  position : ℚ × ℚ
  texcoord : ℚ × ℚ
  color : CharColor

structure Mesh where
  out_vertices : List MeshVertex
  out_indices : List UInt32

/-- Where and how much of the text is shown. -/
structure View where
  chars_visible : ℤ
  offset_x : ℤ
  offset_y : ℤ
  scroll_y : ℤ
  max_height : ℤ
  base_w : ℤ
  base_h : ℤ
  char_colors : List CharColor

/-- The rows of a quad on the screen and in the texture. -/
structure Strip where
  py : ℚ
  ph : ℚ
  v_top : ℚ
  v_bot : ℚ

/-- What is left of a strip that begins above the text area or ends below it. -/
def Strip.clamp (s : Strip) (clip_top clip_bottom : ℚ) : Strip :=
  let v_range := s.v_bot - s.v_top
  let orig_ph := s.ph
  let s :=
    if s.py < clip_top then
      let clipped := clip_top - s.py
      { s with v_top := s.v_top + clipped / orig_ph * v_range, ph := s.ph - clipped, py := clip_top }
    else s
  if clip_bottom < s.py + s.ph then
    let clipped := s.py + s.ph - clip_bottom
    { s with v_bot := s.v_bot - clipped / orig_ph * v_range, ph := s.ph - clipped }
  else s

section Model

variable (v : View) (ascender : ℤ) (gl : GlyphLayout) (info : GlyphInfo)

def clip_top : ℚ := v.offset_y

def clip_bottom : ℚ := if 0 < v.max_height then (v.offset_y + v.max_height : ℤ) else v.base_h

def px : ℚ := (v.offset_x + gl.pen_x + info.bearing_x : ℤ)

def py : ℚ := (v.offset_y + ascender + gl.pen_y - v.scroll_y - info.bearing_y : ℤ)

def color : CharColor :=
  if 0 ≤ gl.char_index ∧ gl.char_index < v.char_colors.length then
    v.char_colors.getD gl.char_index.toNat ⟨1, 1, 1⟩
  else ⟨1, 1, 1⟩

/-- The four vertices of a glyph, for an atlas of this size. -/
def quad (atlas_w atlas_h : ℚ) : List MeshVertex :=
  let u0 := info.atlas_x / atlas_w
  let u1 := (info.atlas_x + info.width : ℕ) / atlas_w
  let v_top := (info.atlas_y + info.height : ℕ) / atlas_h
  let v_bot := info.atlas_y / atlas_h
  let s := Strip.clamp ⟨py v ascender gl info, info.height, v_top, v_bot⟩ (clip_top v) (clip_bottom v)
  let x0 := px v gl info / v.base_w * 2 - 1
  let y0 := 1 - s.py / v.base_h * 2
  let x1 := (px v gl info + info.width) / v.base_w * 2 - 1
  let y1 := 1 - (s.py + s.ph) / v.base_h * 2
  [⟨(x0, y0), (u0, s.v_top), color v gl⟩, ⟨(x1, y0), (u1, s.v_top), color v gl⟩,
    ⟨(x1, y1), (u1, s.v_bot), color v gl⟩, ⟨(x0, y1), (u0, s.v_bot), color v gl⟩]

/-- The loop's body after the glyph was ensured. -/
def add (atlas_w atlas_h : ℚ) (mesh : Mesh) : Mesh :=
  if info.width = 0 ∨ info.height = 0 then mesh
  else if py v ascender gl info + info.height < clip_top v ∨ clip_bottom v < py v ascender gl info then mesh
  else
    let base := UInt32.ofNat mesh.out_vertices.length
    { out_vertices := mesh.out_vertices ++ quad v ascender gl info atlas_w atlas_h
      out_indices := mesh.out_indices ++ [base + 0, base + 1, base + 3, base + 1, base + 2, base + 3] }

end Model

def emit (font : Font) (v : View) (atlas_w atlas_h : ℚ) : List GlyphLayout → GlyphCache × Mesh → GlyphCache × Mesh
  | [], s => s
  | gl :: layout, s =>
    if v.chars_visible ≤ gl.char_index then s
    else
      let ensured := s.1.ensure font gl.codepoint
      emit font v atlas_w atlas_h layout (ensured.2, add v font.ascender gl ensured.1 atlas_w atlas_h s.2)

def build (font : Font) (cache : GlyphCache) (layout : List GlyphLayout) (v : View) : GlyphCache × Mesh :=
  emit font v cache.atlas_w_ cache.atlas_h_ layout (cache, ⟨[], []⟩)

/-- The glyphs that the loop comes to. -/
def visible (v : View) (layout : List GlyphLayout) : List GlyphLayout :=
  layout.takeWhile fun gl => gl.char_index < v.chars_visible

/-- A quad is emitted for the glyph. -/
def Drawn (v : View) (ascender : ℤ) (gl : GlyphLayout) (info : GlyphInfo) : Prop :=
  ¬(info.width = 0 ∨ info.height = 0) ∧
    ¬(py v ascender gl info + info.height < clip_top v ∨ clip_bottom v < py v ascender gl info)

instance (v : View) (ascender : ℤ) (gl : GlyphLayout) (info : GlyphInfo) : Decidable (Drawn v ascender gl info) :=
  inferInstanceAs (Decidable (_ ∧ _))

/-- It is emitted as a whole. -/
structure Unclipped (v : View) (ascender : ℤ) (gl : GlyphLayout) (info : GlyphInfo) : Prop where
  wide : info.width ≠ 0
  tall : info.height ≠ 0
  below : clip_top v ≤ py v ascender gl info
  above : py v ascender gl info + info.height ≤ clip_bottom v

/-- The glyphs with a quad. -/
def drawn (font : Font) (cache : GlyphCache) (layout : List GlyphLayout) (v : View) : List GlyphLayout :=
  (visible v layout).filter fun gl => Drawn v font.ascender gl (cache.measured font gl.codepoint)

/-- The corners of the rectangle of a glyph in an atlas of this size, in the order of the vertices. -/
def atlas_rect (info : GlyphInfo) (atlas_w atlas_h : ℚ) : List (ℚ × ℚ) :=
  let left := info.atlas_x / atlas_w
  let right := (info.atlas_x + info.width : ℕ) / atlas_w
  let top := (info.atlas_y + info.height : ℕ) / atlas_h
  let bottom := info.atlas_y / atlas_h
  [(left, top), (right, top), (right, bottom), (left, bottom)]

/-- What a mesh promises: every fourth vertex begins the quad of the next glyph, a whole glyph shows its
rectangle of the atlas as it is at the end, and there is a vertex for every index. -/
structure Textured (font : Font) (cache : GlyphCache) (layout : List GlyphLayout) (v : View)
    (built : GlyphCache × Mesh) : Prop where
  quads : built.2.out_vertices.length = (drawn font cache layout v).length * 4
  texture : ∀ i gl, (drawn font cache layout v)[i]? = some gl →
    Unclipped v font.ascender gl (cache.measured font gl.codepoint) →
    ∃ info, built.1.cache_.lookup gl.codepoint = some info ∧
      ((built.2.out_vertices.drop (i * 4)).take 4).map MeshVertex.texcoord =
        atlas_rect info built.1.atlas_w_ built.1.atlas_h_
  indices : ∀ k ∈ built.2.out_indices, k.toNat < built.2.out_vertices.length

section Clamp

variable (s : Strip) (clip_top clip_bottom : ℚ)

/-- The row of the texture at a row of the screen. -/
def Strip.v_at (y : ℚ) : ℚ := s.v_top + (y - s.py) / s.ph * (s.v_bot - s.v_top)

theorem Strip.v_at_end {s : Strip} (tall : s.ph ≠ 0) : s.v_at (s.py + s.ph) = s.v_bot := by
  unfold Strip.v_at
  rw [add_sub_cancel_left, div_self tall]
  ring

theorem Strip.v_at_begin (s : Strip) : s.v_at s.py = s.v_top := by
  unfold Strip.v_at
  rw [sub_self, zero_div, zero_mul, add_zero]

theorem Strip.v_at_sub {s : Strip} (tall : s.ph ≠ 0) (y : ℚ) :
    s.v_bot - (s.py + s.ph - y) / s.ph * (s.v_bot - s.v_top) = s.v_at y := by
  have part : (s.py + s.ph - y) / s.ph = 1 - (y - s.py) / s.ph := by
    field_simp
    ring
  unfold Strip.v_at
  rw [part]
  ring

/-- Two strips that show the same at the ends of one show the same between them. -/
theorem Strip.v_at_between {s t : Strip} (tall : t.ph ≠ 0) (top : t.v_top = s.v_at t.py)
    (bottom : t.v_bot = s.v_at (t.py + t.ph)) (y : ℚ) : t.v_at y = s.v_at y := by
  have slope : s.v_at (t.py + t.ph) - s.v_at t.py = t.ph / s.ph * (s.v_bot - s.v_top) := by
    unfold Strip.v_at
    ring
  have share : (y - t.py) / t.ph * (t.ph / s.ph * (s.v_bot - s.v_top)) =
      (y - t.py) / s.ph * (s.v_bot - s.v_top) := by
    rw [← mul_assoc, div_mul_div_cancel₀ tall]
  calc t.v_at y = s.v_at t.py + (y - t.py) / t.ph * (s.v_at (t.py + t.ph) - s.v_at t.py) := by
        rw [← top, ← bottom]
        rfl
    _ = s.v_at t.py + (y - t.py) / s.ph * (s.v_bot - s.v_top) := by rw [slope, share]
    _ = s.v_at y := by
        unfold Strip.v_at
        ring

theorem clamp_ends (tall : s.ph ≠ 0) :
    (s.clamp clip_top clip_bottom).py = max s.py clip_top ∧
    (s.clamp clip_top clip_bottom).py + (s.clamp clip_top clip_bottom).ph = min (s.py + s.ph) clip_bottom ∧
    (s.clamp clip_top clip_bottom).v_top = s.v_at (s.clamp clip_top clip_bottom).py ∧
    (s.clamp clip_top clip_bottom).v_bot =
      s.v_at ((s.clamp clip_top clip_bottom).py + (s.clamp clip_top clip_bottom).ph) := by
  have same_end (y : ℚ) : y + (s.ph - (y - s.py)) = s.py + s.ph := by ring
  have cut_end (y : ℚ) (ph : ℚ) : y + (ph - (y + ph - clip_bottom)) = clip_bottom := by ring
  unfold Strip.clamp
  by_cases above : s.py < clip_top <;> by_cases past : clip_bottom < s.py + s.ph
  · simp only [if_pos above, same_end, if_pos past, max_eq_right above.le, min_eq_right past.le]
    have rest : clip_top + (s.ph - (clip_top - s.py) - (s.py + s.ph - clip_bottom)) = clip_bottom := by ring
    rw [rest]
    exact ⟨trivial, rfl, rfl, Strip.v_at_sub tall _⟩
  · simp only [if_pos above, same_end, if_neg past, max_eq_right above.le, min_eq_left (not_lt.mp past)]
    exact ⟨trivial, trivial, rfl, (Strip.v_at_end tall).symm⟩
  · simp only [if_neg above, if_pos past, max_eq_left (not_lt.mp above), min_eq_right past.le, cut_end]
    exact ⟨trivial, trivial, s.v_at_begin.symm, Strip.v_at_sub tall _⟩
  · simp only [if_neg above, if_neg past, max_eq_left (not_lt.mp above), min_eq_left (not_lt.mp past)]
    exact ⟨trivial, trivial, s.v_at_begin.symm, (Strip.v_at_end tall).symm⟩

/-- Clamping keeps the rows inside the text area, and every row that is left, from one end to the other, shows
what it showed. -/
theorem clamp_shows (tall : s.ph ≠ 0) :
    (s.clamp clip_top clip_bottom).py = max s.py clip_top ∧
    (s.clamp clip_top clip_bottom).py + (s.clamp clip_top clip_bottom).ph = min (s.py + s.ph) clip_bottom ∧
    (s.clamp clip_top clip_bottom).v_top = s.v_at (s.clamp clip_top clip_bottom).py ∧
    (s.clamp clip_top clip_bottom).v_bot =
      s.v_at ((s.clamp clip_top clip_bottom).py + (s.clamp clip_top clip_bottom).ph) ∧
    ((s.clamp clip_top clip_bottom).ph ≠ 0 → ∀ y, (s.clamp clip_top clip_bottom).v_at y = s.v_at y) := by
  obtain ⟨above, below, top, bottom⟩ := clamp_ends s clip_top clip_bottom tall
  exact ⟨above, below, top, bottom, fun left => Strip.v_at_between left top bottom⟩

/-- A strip of eight rows that begins two above the text area. -/
theorem clamp_shows_two_above :
    (Strip.clamp ⟨-2, 8, 0, 1⟩ 0 4).py = max (-2) 0 ∧
    (Strip.clamp ⟨-2, 8, 0, 1⟩ 0 4).py + (Strip.clamp ⟨-2, 8, 0, 1⟩ 0 4).ph = min (-2 + 8) 4 ∧
    (Strip.clamp ⟨-2, 8, 0, 1⟩ 0 4).v_top = (Strip.mk (-2) 8 0 1).v_at (Strip.clamp ⟨-2, 8, 0, 1⟩ 0 4).py ∧
    (Strip.clamp ⟨-2, 8, 0, 1⟩ 0 4).v_bot =
      (Strip.mk (-2) 8 0 1).v_at ((Strip.clamp ⟨-2, 8, 0, 1⟩ 0 4).py + (Strip.clamp ⟨-2, 8, 0, 1⟩ 0 4).ph) ∧
    ((Strip.clamp ⟨-2, 8, 0, 1⟩ 0 4).ph ≠ 0 →
      ∀ y, (Strip.clamp ⟨-2, 8, 0, 1⟩ 0 4).v_at y = (Strip.mk (-2) 8 0 1).v_at y) :=
  clamp_shows ⟨-2, 8, 0, 1⟩ 0 4 (by norm_num)

theorem clamp_of_inside (s : Strip) {clip_top clip_bottom : ℚ} (below : clip_top ≤ s.py)
    (above : s.py + s.ph ≤ clip_bottom) : s.clamp clip_top clip_bottom = s := by
  unfold Strip.clamp
  simp only [if_neg (not_lt.mpr below), if_neg (not_lt.mpr above)]

end Clamp

section Loop

variable {font : Font} {v : View} {atlas_w atlas_h : ℚ}

/-- One pass of the loop. -/
def body (font : Font) (v : View) (atlas_w atlas_h : ℚ) (s : GlyphCache × Mesh) (gl : GlyphLayout) :
    GlyphCache × Mesh :=
  let ensured := s.1.ensure font gl.codepoint
  (ensured.2, add v font.ascender gl ensured.1 atlas_w atlas_h s.2)

theorem emit_eq (layout : List GlyphLayout) (s : GlyphCache × Mesh) :
    emit font v atlas_w atlas_h layout s = run (body font v atlas_w atlas_h) s (visible v layout) := by
  induction layout generalizing s with
  | nil => rfl
  | cons gl layout ih =>
    rw [emit, visible]
    by_cases ends : v.chars_visible ≤ gl.char_index
    · rw [if_pos ends, List.takeWhile_cons_of_neg (by simpa using ends)]
      rfl
    · rw [if_neg ends, List.takeWhile_cons_of_pos (by simpa using ends), run_cons]
      exact ih _

theorem cache_run (layout : List GlyphLayout) (s : GlyphCache × Mesh) :
    (run (body font v atlas_w atlas_h) s layout).1 =
      run (GlyphCache.step font) s.1 (layout.map GlyphLayout.codepoint) := by
  induction layout generalizing s with
  | nil => rfl
  | cons gl layout ih => exact ih _

theorem unclipped_unplaced {ascender : ℤ} {gl : GlyphLayout} {info : GlyphInfo} :
    Unclipped v ascender gl info.unplaced ↔ Unclipped v ascender gl info :=
  ⟨fun u => ⟨u.wide, u.tall, u.below, u.above⟩, fun u => ⟨u.wide, u.tall, u.below, u.above⟩⟩

theorem Unclipped.drawn {ascender : ℤ} {gl : GlyphLayout} {info : GlyphInfo} (u : Unclipped v ascender gl info) :
    Drawn v ascender gl info := by
  have tall : (0 : ℚ) < info.height := Nat.cast_pos.mpr (Nat.pos_of_ne_zero u.tall)
  refine ⟨fun empty => empty.elim u.wide u.tall, fun outside => ?_⟩
  have below := u.below
  have above := u.above
  rcases outside with outside | outside
  · linarith
  · linarith

theorem add_vertices (ascender : ℤ) (gl : GlyphLayout) (info : GlyphInfo) (mesh : Mesh) :
    (add v ascender gl info atlas_w atlas_h mesh).out_vertices = mesh.out_vertices ++
      if Drawn v ascender gl info then quad v ascender gl info atlas_w atlas_h else [] := by
  unfold add
  split
  · next empty => rw [if_neg fun shown => shown.1 empty, List.append_nil]
  split
  · next outside => rw [if_neg fun shown => shown.2 outside, List.append_nil]
  · next full inside => rw [if_pos ⟨full, inside⟩]

/-- The vertices are the quads of the glyphs that are drawn, each with the place that the glyph has for good. -/
theorem vertices_run (layout : List GlyphLayout) (s : GlyphCache × Mesh) :
    (run (body font v atlas_w atlas_h) s layout).2.out_vertices = s.2.out_vertices ++
      (layout.filter fun gl => Drawn v font.ascender gl (s.1.measured font gl.codepoint)).flatMap fun gl =>
        quad v font.ascender gl
          ((run (body font v atlas_w atlas_h) s layout).1.ensure font gl.codepoint).1 atlas_w atlas_h := by
  induction layout generalizing s with
  | nil => exact (List.append_nil _).symm
  | cons gl layout ih =>
    have first : (run (body font v atlas_w atlas_h) s (gl :: layout)).1.ensure font gl.codepoint =
        ((s.1.ensure font gl.codepoint).1, (run (body font v atlas_w atlas_h) s (gl :: layout)).1) := by
      apply GlyphCache.ensure_of_cached
      rw [cache_run, List.map_cons, run_cons]
      exact GlyphCache.lookup_run GlyphCache.lookup_step_self
    have later (codepoint : UInt32) :
        (body font v atlas_w atlas_h s gl).1.measured font codepoint = s.1.measured font codepoint :=
      GlyphCache.measured_step codepoint
    rw [run_cons, ih]
    simp only [later]
    rw [← run_cons, List.filter_cons]
    change (add v font.ascender gl _ atlas_w atlas_h s.2).out_vertices ++ _ = _
    rw [add_vertices]
    by_cases shown : Drawn v font.ascender gl (s.1.ensure font gl.codepoint).1
    · have found : decide (Drawn v font.ascender gl (s.1.measured font gl.codepoint)) = true := decide_eq_true shown
      rw [if_pos shown, if_pos found, List.flatMap_cons, first, List.append_assoc]
    · have missing : decide (Drawn v font.ascender gl (s.1.measured font gl.codepoint)) = false := decide_eq_false shown
      rw [if_neg shown, missing, if_neg Bool.false_ne_true, List.append_nil]

theorem texcoord_quad {ascender : ℤ} {gl : GlyphLayout} {info : GlyphInfo} (whole : Unclipped v ascender gl info) :
    (quad v ascender gl info atlas_w atlas_h).map MeshVertex.texcoord = atlas_rect info atlas_w atlas_h := by
  unfold quad
  dsimp only
  rw [clamp_of_inside ⟨py v ascender gl info, info.height, _, _⟩ whole.below whole.above]
  rfl

theorem index_lt (n : ℕ) {corner : UInt32} (inside : corner.toNat < 4) :
    (UInt32.ofNat n + corner).toNat < n + 4 := by
  rw [UInt32.toNat_add, UInt32.toNat_ofNat']
  omega

theorem indices_run (layout : List GlyphLayout) {s : GlyphCache × Mesh}
    (inside : ∀ k ∈ s.2.out_indices, k.toNat < s.2.out_vertices.length) :
    ∀ k ∈ (run (body font v atlas_w atlas_h) s layout).2.out_indices,
      k.toNat < (run (body font v atlas_w atlas_h) s layout).2.out_vertices.length := by
  apply invariant_run (P := fun s : GlyphCache × Mesh => ∀ k ∈ s.2.out_indices, k.toNat < s.2.out_vertices.length)
    ?_ inside layout
  intro s gl inside
  unfold body add
  dsimp only
  split
  · exact inside
  split
  · exact inside
  · intro k member
    have longer : (s.2.out_vertices ++ quad v font.ascender gl (s.1.ensure font gl.codepoint).1 atlas_w atlas_h).length =
        s.2.out_vertices.length + 4 := List.length_append
    rw [longer]
    obtain before | new := List.mem_append.mp member
    · exact Nat.lt_add_right 4 (inside k before)
    · have corners : ∃ corner : UInt32, corner.toNat < 4 ∧ k = UInt32.ofNat s.2.out_vertices.length + corner := by
        simp only [List.mem_cons, List.not_mem_nil, or_false] at new
        rcases new with rfl | rfl | rfl | rfl | rfl | rfl
        · exact ⟨0, by decide, rfl⟩
        · exact ⟨1, by decide, rfl⟩
        · exact ⟨3, by decide, rfl⟩
        · exact ⟨1, by decide, rfl⟩
        · exact ⟨2, by decide, rfl⟩
        · exact ⟨3, by decide, rfl⟩
      obtain ⟨corner, small, rfl⟩ := corners
      exact index_lt _ small

end Loop

section Build

variable (font : Font) (cache : GlyphCache) (layout : List GlyphLayout) (v : View)

/-- The code points that are ensured. -/
def codepoints : List UInt32 := (visible v layout).map GlyphLayout.codepoint

theorem build_cache : (build font cache layout v).1 = run (GlyphCache.step font) cache (codepoints layout v) := by
  rw [build, emit_eq, cache_run]
  rfl

theorem build_vertices : (build font cache layout v).2.out_vertices =
    (drawn font cache layout v).flatMap fun gl =>
      quad v font.ascender gl ((build font cache layout v).1.ensure font gl.codepoint).1
        cache.atlas_w_ cache.atlas_h_ := by
  rw [build, emit_eq]
  exact (vertices_run _ _).trans (List.nil_append _)

variable {font cache layout v}

theorem length_quad (ascender : ℤ) (gl : GlyphLayout) (info : GlyphInfo) (atlas_w atlas_h : ℚ) :
    (quad v ascender gl info atlas_w atlas_h).length = 4 := rfl

theorem length_build : (build font cache layout v).2.out_vertices.length = (drawn font cache layout v).length * 4 := by
  rw [build_vertices]
  exact Lib.RowMajor.length_flatMap (fun gl => length_quad font.ascender gl _ _ _) _

theorem cached_build (font : Font) (cache : GlyphCache) {gl : GlyphLayout} (member : gl ∈ visible v layout) :
    ∃ info, (build font cache layout v).1.cache_.lookup gl.codepoint = some info ∧
      (build font cache layout v).1.ensure font gl.codepoint = (info, (build font cache layout v).1) ∧
      info.unplaced = cache.measured font gl.codepoint := by
  have ensured : gl.codepoint ∈ codepoints layout v := List.mem_map_of_mem member
  rw [build_cache]
  obtain ⟨info, cached⟩ := GlyphCache.cached_run font cache ensured
  have same := GlyphCache.ensure_of_cached font cached
  refine ⟨info, cached, same, ?_⟩
  rw [← GlyphCache.measured_run gl.codepoint, GlyphCache.measured, same]

/-- The part of the texture that a whole glyph gets: its place, by the size that the atlas had at first. -/
theorem texture_build {i : ℕ} {gl : GlyphLayout} (here : (drawn font cache layout v)[i]? = some gl)
    (whole : Unclipped v font.ascender gl (cache.measured font gl.codepoint)) :
    ∃ info, (build font cache layout v).1.cache_.lookup gl.codepoint = some info ∧
      info.unplaced = cache.measured font gl.codepoint ∧
      (((build font cache layout v).2.out_vertices.drop (i * 4)).take 4).map MeshVertex.texcoord =
        atlas_rect info cache.atlas_w_ cache.atlas_h_ := by
  have member : gl ∈ visible v layout := List.mem_of_mem_filter (List.mem_of_getElem? here)
  obtain ⟨info, cached, same, metrics⟩ := cached_build font cache member
  refine ⟨info, cached, metrics, ?_⟩
  rw [build_vertices, Lib.RowMajor.take_drop_flatMap (fun gl => length_quad font.ascender gl _ _ _) here, same]
  apply texcoord_quad
  rw [← unclipped_unplaced, metrics]
  exact whole

/-- The rectangle of a glyph that has rows tells the height of the atlas. -/
theorem atlas_rect_inj {info : GlyphInfo} (tall : info.height ≠ 0) {w h h' : ℚ}
    (same : atlas_rect info w h = atlas_rect info w h') : h = h' := by
  have corner : ((info.atlas_y + info.height : ℕ) : ℚ) / h = (info.atlas_y + info.height : ℕ) / h' :=
    congrArg Prod.snd (List.cons.inj same).1
  have positive : ((info.atlas_y + info.height : ℕ) : ℚ) ≠ 0 := by
    apply Nat.cast_ne_zero.mpr
    omega
  rw [div_eq_mul_inv, div_eq_mul_inv] at corner
  exact inv_inj.mp (mul_left_cancel₀ positive corner)

/-- The mesh matches the atlas at the end if the atlas kept its height where that is seen. -/
theorem textured_of_kept (kept : ∀ gl ∈ visible v layout,
    Unclipped v font.ascender gl (cache.measured font gl.codepoint) →
      (build font cache layout v).1.atlas_h_ = cache.atlas_h_) :
    Textured font cache layout v (build font cache layout v) where
  quads := length_build
  texture := by
    intro i gl here whole
    have member : gl ∈ visible v layout := List.mem_of_mem_filter (List.mem_of_getElem? here)
    have width : (build font cache layout v).1.atlas_w_ = cache.atlas_w_ := by rw [build_cache, GlyphCache.run_w]
    obtain ⟨info, cached, -, shown⟩ := texture_build here whole
    refine ⟨info, cached, ?_⟩
    rw [shown, width, kept gl member whole]
  indices := by
    rw [build, emit_eq]
    exact indices_run _ (List.forall_mem_nil _)

/-- Where there is a whole quad, it tells which height was taken. -/
theorem kept_of_textured (textured : Textured font cache layout v (build font cache layout v)) {gl : GlyphLayout}
    (member : gl ∈ visible v layout) (whole : Unclipped v font.ascender gl (cache.measured font gl.codepoint)) :
    (build font cache layout v).1.atlas_h_ = cache.atlas_h_ := by
  have shown : gl ∈ drawn font cache layout v := List.mem_filter.mpr ⟨member, decide_eq_true whole.drawn⟩
  obtain ⟨i, here⟩ := List.getElem?_of_mem shown
  obtain ⟨info, cached, metrics, first⟩ := texture_build here whole
  obtain ⟨info', cached', last⟩ := textured.texture i gl here whole
  obtain rfl : info = info' := Option.some.inj (cached.symm.trans cached')
  have width : (build font cache layout v).1.atlas_w_ = cache.atlas_w_ := by rw [build_cache, GlyphCache.run_w]
  have tall : info.height ≠ 0 := by
    have tall := whole.tall
    rwa [← metrics] at tall
  rw [first, width] at last
  exact Nat.cast_inj.mp (atlas_rect_inj tall last).symm

end Build

/-- The texture coordinates match the atlas exactly if no glyph of the build made it grow, or there is no
whole glyph to see. -/
theorem textured_iff (font : Font) (cache : GlyphCache) (layout : List GlyphLayout) (v : View) :
    Textured font cache layout v (build font cache layout v) ↔
      Throughout (GlyphCache.step font) (fun g codepoint => ¬g.Grows font codepoint) cache (codepoints layout v) ∨
        ∀ gl ∈ visible v layout, ¬Unclipped v font.ascender gl (cache.measured font gl.codepoint) := by
  have height : (build font cache layout v).1.atlas_h_ = cache.atlas_h_ ↔
      Throughout (GlyphCache.step font) (fun g codepoint => ¬g.Grows font codepoint) cache (codepoints layout v) := by
    rw [build_cache]
    exact GlyphCache.h_run_iff
  rw [← height]
  constructor
  · intro textured
    by_cases kept : (build font cache layout v).1.atlas_h_ = cache.atlas_h_
    · exact Or.inl kept
    · exact Or.inr fun gl member whole => kept (kept_of_textured textured member whole)
  · rintro (kept | unseen)
    · exact textured_of_kept fun _ _ _ => kept
    · exact textured_of_kept fun gl member whole => absurd whole (unseen gl member)

/-- Eleven ideographs on two lines. -/
def two_lines : List GlyphLayout :=
  (List.range 11).map fun i => ⟨UInt32.ofNat (0x4E00 + i), i % 8 * 32, i / 8 * 32, i⟩

def screen : View := ⟨11, 0, 0, 0, 0, 256, 192, []⟩

theorem height_box {codepoints : List UInt32} (distinct : codepoints.Nodup) {n h : ℕ} (length : codepoints.length = n)
    (put : ((GlyphCache.Canvas.put 512 32 64)^[n] ⟨⟨0, 0, 0⟩, 512⟩).height = h) :
    (run (GlyphCache.step (GlyphCache.box 32)) (GlyphCache.blank 512) codepoints).atlas_h_ = h := by
  have sizes : ∀ codepoint, (GlyphCache.glyph (GlyphCache.box 32) codepoint).gw = 32 ∧
      (GlyphCache.glyph (GlyphCache.box 32) codepoint).gh = 64 := by
    intro codepoint
    rw [GlyphCache.glyph_box 31]
    exact ⟨rfl, rfl⟩
  have visible : ∀ codepoint, ¬(GlyphCache.glyph (GlyphCache.box 32) codepoint).Empty := by
    intro codepoint
    rw [GlyphCache.glyph_box 31]
    exact Nat.not_lt_zero 31
  have moved := (GlyphCache.canvas_run visible sizes distinct (g := GlyphCache.blank 512) fun _ _ => rfl).1
  rw [length] at moved
  exact (congrArg GlyphCache.Canvas.height moved).trans put

theorem not_printable : 0x4E00 ∉ GlyphCache.printable := by
  intro member
  obtain ⟨i, inside, same⟩ := List.mem_map.mp member
  have small := List.mem_range.mp inside
  have number : (0x20 + i) % 2 ^ 32 = 0x4E00 := UInt32.toNat_ofNat'.symm.trans (congrArg UInt32.toNat same)
  omega

/-- The printable glyphs fill the atlas to the last ten places, and the eleventh ideograph makes it grow. -/
theorem eleventh_outgrows : ¬Textured (GlyphCache.box 32) (GlyphCache.new (GlyphCache.box 32) 512) two_lines screen
    (build (GlyphCache.box 32) (GlyphCache.new (GlyphCache.box 32) 512) two_lines screen) := by
  intro textured
  have new : (GlyphCache.new (GlyphCache.box 32) 512).cache_.lookup 0x4E00 = none :=
    GlyphCache.lookup_run_of_notMem not_printable
  have metrics : (GlyphCache.new (GlyphCache.box 32) 512).measured (GlyphCache.box 32) 0x4E00 =
      ⟨0, 0, 32, 64, 0, 32, 32⟩ := by
    rw [GlyphCache.measured_of_new new, GlyphCache.place, GlyphCache.glyph_box 31]
    rfl
  have whole : Unclipped screen 32 ⟨0x4E00, 0, 0, 0⟩
      ((GlyphCache.new (GlyphCache.box 32) 512).measured (GlyphCache.box 32) 0x4E00) := by
    rw [metrics]
    exact ⟨by decide, by decide, by decide, by norm_num [py, clip_bottom, screen]⟩
  have kept := kept_of_textured textured (by decide +kernel) whole
  have first : (GlyphCache.new (GlyphCache.box 32) 512).atlas_h_ = 512 :=
    height_box (n := 95) (by decide +kernel) (by decide +kernel) (by decide +kernel)
  have ensured : codepoints two_lines screen = GlyphCache.ideographs := by decide +kernel
  have last : (run (GlyphCache.step (GlyphCache.box 32)) (GlyphCache.blank 512)
      (GlyphCache.calls GlyphCache.ideographs)).atlas_h_ = 1024 :=
    height_box (n := 106) (by decide +kernel) (by decide +kernel) (by decide +kernel)
  rw [GlyphCache.calls, run_append] at last
  rw [build_cache, ensured] at kept
  have same : 1024 = 512 := last.symm.trans (kept.trans first)
  exact absurd same (by decide)

end TextMeshBuilder

end AoSdl
