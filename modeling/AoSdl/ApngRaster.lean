import AoSdl.ApngDecoder
import AoSdl.Lib.Compositor
import AoSdl.Lib.RowMajor
import Mathlib.Data.List.GetD

/-! The bytes of a canvas, row by row: writing a pixel, and turning the rows upside down. -/
namespace AoSdl

section Copies

theorem memcpy_inner (a b c : List UInt8) {start : ℕ} {src : List UInt8} (inside : start + src.length ≤ b.length) :
    memcpy (a ++ b ++ c) (a.length + start) src = a ++ memcpy b start src ++ c := by
  have front : (a.mapIdx fun i byte => if a.length + start ≤ i then src[i - (a.length + start)]?.getD byte else byte) = a := by
    refine List.ext_getElem (by simp) fun i small _ => ?_
    rw [List.length_mapIdx] at small
    rw [List.getElem_mapIdx, if_neg (by omega)]
  have middle : (fun i (byte : UInt8) =>
      if a.length + start ≤ i + a.length then src[i + a.length - (a.length + start)]?.getD byte else byte) =
      fun i byte => if start ≤ i then src[i - start]?.getD byte else byte := by
    funext i byte
    have place : i + a.length - (a.length + start) = i - start := by omega
    have reach : a.length + start ≤ i + a.length ↔ start ≤ i := by omega
    simp only [place, reach]
  have back : (c.mapIdx fun i byte => if a.length + start ≤ i + (a ++ b).length then
      src[i + (a ++ b).length - (a.length + start)]?.getD byte else byte) = c := by
    refine List.ext_getElem (by simp) fun i _ _ => ?_
    have behind : src.length ≤ i + (a ++ b).length - (a.length + start) := by
      rw [List.length_append]
      omega
    rw [List.getElem_mapIdx, List.getElem?_eq_none behind]
    simp
  rw [memcpy, List.mapIdx_append, List.mapIdx_append, front, back, middle]
  rfl

theorem memcpy_whole {b src : List UInt8} (size : src.length = b.length) : memcpy b 0 src = src := by
  refine List.ext_getElem (by simp [size]) fun i _ inside => ?_
  rw [length_memcpy] at *
  simp [memcpy, inside]

end Copies

section Tables

/-- Rows of one length. -/
def table {β : Type} (row : ℕ → List β) (n : ℕ) : List β := (List.range n).flatMap row

variable {β : Type} {row : ℕ → List β} {k n : ℕ}

theorem length_table (size : ∀ i, (row i).length = k) : (table row n).length = n * k := by
  rw [table, Lib.RowMajor.length_flatMap size, List.length_range]

theorem table_congr {row' : ℕ → List β} (same : ∀ i < n, row i = row' i) : table row n = table row' n :=
  List.flatMap_congr fun i member => same i (List.mem_range.mp member)

theorem table_cut {i : ℕ} (inside : i < n) :
    table row n = table row i ++ row i ++ (List.range' (i + 1) (n - (i + 1))).flatMap row := by
  have cut : List.range n = List.range i ++ [i] ++ List.range' (i + 1) (n - (i + 1)) := by
    have split := List.range'_append_1 (s := 0) (m := i + 1) (n := n - (i + 1))
    rw [Nat.zero_add, Nat.add_sub_cancel' (by omega : i + 1 ≤ n)] at split
    rw [List.range_eq_range', ← split, ← List.range_eq_range', List.range_succ]
  rw [table, cut, List.flatMap_append, List.flatMap_append, List.flatMap_singleton, table]

theorem table_row (size : ∀ i, (row i).length = k) {i : ℕ} (inside : i < n) :
    ((table row n).drop (i * k)).take k = row i :=
  Lib.RowMajor.take_drop_flatMap size (List.getElem?_range inside)

theorem table_get (size : ∀ i, (row i).length = k) {i j : ℕ} (inside : i < n) (column : j < k) :
    (table row n)[i * k + j]? = (row i)[j]? := by
  rw [← table_row size inside, List.getElem?_take_of_lt column, List.getElem?_drop]

theorem memcpy_table {row : ℕ → List UInt8} (size : ∀ i, (row i).length = k) {i start : ℕ} (inside : i < n)
    {src : List UInt8} (fits : start + src.length ≤ k) :
    memcpy (table row n) (i * k + start) src = table (Function.update row i (memcpy (row i) start src)) n := by
  have front : table (Function.update row i (memcpy (row i) start src)) i = table row i :=
    table_congr fun j before => Function.update_of_ne (Nat.ne_of_lt before) _ _
  have back : (List.range' (i + 1) (n - (i + 1))).flatMap (Function.update row i (memcpy (row i) start src)) =
      (List.range' (i + 1) (n - (i + 1))).flatMap row := by
    refine List.flatMap_congr fun j member => Function.update_of_ne ?_ _ _
    have after := (List.mem_range'_1.mp member).1
    omega
  have place : i * k = (table row i).length := (length_table size).symm
  have cut : table (Function.update row i (memcpy (row i) start src)) n = _ := table_cut inside
  rw [table_cut inside, cut, front, back, Function.update_self, place]
  refine memcpy_inner _ _ _ ?_
  rwa [size]

theorem memcpy_row {row : ℕ → List UInt8} (size : ∀ i, (row i).length = k) {i : ℕ} (inside : i < n) {src : List UInt8}
    (whole : src.length = k) : memcpy (table row n) (i * k) src = table (Function.update row i src) n := by
  have written := memcpy_table size inside (by omega : 0 + src.length ≤ k)
  rwa [memcpy_whole (whole.trans (size i).symm), Nat.add_zero] at written

end Tables

namespace ApngDecoder
open Lib.Compositor

section Raster

/-- The bytes of the canvas. -/
def raster (w h : ℕ) (c : Canvas Pixel) : Bytes := table (fun y => table (fun x => (c (x, y)).bytes) w) h

variable {w h : ℕ} {c : Canvas Pixel}

theorem length_cell (y x : ℕ) : (c (x, y)).bytes.length = 4 := rfl

theorem length_line (y : ℕ) : (table (fun x => (c (x, y)).bytes) w).length = w * 4 := length_table (length_cell y)

theorem length_raster : (raster w h c).length = h * (w * 4) := length_table fun y => length_line y

theorem pixel_at_raster {x y : ℕ} (left : x < w) (below : y < h) :
    pixel_at (raster w h c) ((y * w + x) * 4) = c (x, y) := by
  have byte {j : ℕ} (inside : j < 4) : (raster w h c).getD ((y * w + x) * 4 + j) 0 = (c (x, y)).bytes.getD j 0 := by
    have place : (y * w + x) * 4 + j = y * (w * 4) + (x * 4 + j) := by rw [Nat.add_mul, Nat.mul_assoc, Nat.add_assoc]
    rw [List.getD_eq_getElem?_getD, List.getD_eq_getElem?_getD, place, raster, table_get length_line below (by omega),
      table_get (length_cell y) left inside]
  have first := byte (j := 0) (by decide)
  rw [Nat.add_zero] at first
  rw [pixel_at, first, byte (by decide), byte (by decide), byte (by decide)]
  rfl

theorem put_raster {x y : ℕ} (left : x < w) (below : y < h) (p : Pixel) :
    memcpy (raster w h c) ((y * w + x) * 4) p.bytes = raster w h (Function.update c (x, y) p) := by
  have place : (y * w + x) * 4 = y * (w * 4) + (x * 4 + 0) := by rw [Nat.add_mul, Nat.mul_assoc, Nat.add_zero]
  have size : p.bytes.length = 4 := rfl
  have whole : memcpy (c (x, y)).bytes 0 p.bytes = p.bytes := memcpy_whole rfl
  rw [place, raster, memcpy_table length_line below (by omega), memcpy_table (length_cell y) left (by omega), whole]
  refine table_congr fun y' _ => ?_
  by_cases row : y' = y
  · subst row
    rw [Function.update_self]
    refine table_congr fun x' _ => ?_
    by_cases column : x' = x
    · subst column
      rw [Function.update_self, Function.update_self]
    · have other : (x', y') ≠ (x, y') := fun same => column (Prod.mk.inj same).1
      rw [Function.update_of_ne column, Function.update_of_ne other]
  · rw [Function.update_of_ne row]
    refine table_congr fun x' _ => ?_
    have other : (x', y') ≠ (x, y) := fun same => row (Prod.mk.inj same).2
    rw [Function.update_of_ne other]

/-- The rows of a table after some rounds of the loop that turns it. -/
def turned {β : Type} (row : ℕ → β) (h m i : ℕ) : β := if i < m ∨ h - m ≤ i then row (h - 1 - i) else row i

theorem length_turned {row : ℕ → List UInt8} {k : ℕ} (size : ∀ i, (row i).length = k) (h m i : ℕ) :
    (turned row h m i).length = k := by
  unfold turned
  split <;> exact size _

theorem length_update {row : ℕ → List UInt8} {k : ℕ} (size : ∀ i, (row i).length = k) (i : ℕ) {src : List UInt8}
    (whole : src.length = k) (j : ℕ) : (Function.update row i src j).length = k := by
  by_cases same : j = i
  · rw [same, Function.update_self, whole]
  · rw [Function.update_of_ne same, size]

theorem swap_rows_table {row : ℕ → List UInt8} {k h m : ℕ} (size : ∀ i, (row i).length = k) (round : m < h / 2) :
    swap_rows k m (h - 1 - m) (table (turned row h m) h) = table (turned row h (m + 1)) h := by
  have sizes := length_turned size h m
  have top : turned row h m m = row m := if_neg (by omega)
  have bot : turned row h m (h - 1 - m) = row (h - 1 - m) := if_neg (by omega)
  simp only [swap_rows]
  rw [table_row sizes (by omega), table_row sizes (by omega), top, bot, memcpy_row sizes (by omega) (size _),
    memcpy_row (length_update sizes m (size _)) (by omega) (size _)]
  refine table_congr fun i inside => ?_
  obtain lower | upper | other : i = h - 1 - m ∨ i = m ∨ (i ≠ h - 1 - m ∧ i ≠ m) := by omega
  · have back : h - 1 - i = m := by omega
    rw [lower, Function.update_self, turned, if_pos (by omega), ← lower, back]
  · rw [upper, Function.update_of_ne (by omega), Function.update_self, turned, if_pos (by omega)]
  · rw [Function.update_of_ne other.1, Function.update_of_ne other.2, turned, turned]
    exact if_congr (by omega) rfl rfl

theorem flip_raster (small : w < 2 ^ 62) : flip_vertical_rgba (raster w h c) w h =
    raster w h fun q => c (q.1, h - 1 - q.2) := by
  have row_bytes : ((w : ℤ) * 4 % 2 ^ 64).toNat = w * 4 := by omega
  have half : ((h : ℤ) / 2).toNat = h / 2 := by omega
  have run (m : ℕ) (inside : m ≤ h / 2) :
      (List.range m).foldl (fun pixels y => swap_rows (w * 4) y (h - 1 - y) pixels) (raster w h c) =
        table (turned (fun y => table (fun x => (c (x, y)).bytes) w) h m) h := by
    induction m with
    | zero =>
      refine table_congr fun i below => ?_
      rw [turned, if_neg (by omega)]
    | succ m ih =>
      rw [List.range_succ, List.foldl_append, ih (by omega), List.foldl_cons, List.foldl_nil]
      exact swap_rows_table length_line (by omega)
  simp only [flip_vertical_rgba, row_bytes, half, Int.toNat_natCast]
  rw [run _ le_rfl]
  refine table_congr fun i below => ?_
  by_cases outer : i < h / 2 ∨ h - h / 2 ≤ i
  · rw [turned, if_pos outer]
  · have middle : h - 1 - i = i := by omega
    rw [turned, if_neg outer]
    simp only [middle]

end Raster

end ApngDecoder

end AoSdl
