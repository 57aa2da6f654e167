import AoSdl.Lib.BigEndian
import AoSdl.Lib.Guarded
import AoSdl.Lib.Perceptron
import AoSdl.Lib.RowMajor
import AoSdl.SemanticClusterer

/-! `LocalClassifierLayer`: the weights of a blob and what is computed with them, against the perceptrons that the
file's layout says. The numbers are exact, and what number the bytes of a float are is a parameter. -/
namespace AoSdl.moderation
open Lib.Guarded Lib.RowMajor

/-- A float is the four bytes of it. -/
abbrev Single := Bytes

structure ModerationAxisScores (R : Type) where
  visual_noise : R
  link_risk : R
  slurs : R
  hate : R
  sexual : R
  sexual_minors : R
  violence : R
  self_harm : R
  semantic_echo : R

structure LocalClassifierResult (R : Type) where
  ran : Bool
  scores : ModerationAxisScores R
  max_confidence : R
  max_category_index : ℤ

namespace LocalClassifierLayer

structure Weights where
  num_categories : ℕ
  embedding_dim : ℕ
  hidden_dim : ℕ
  model_name : Bytes
  w1 : List Single
  b1 : List Single
  w2 : List Single
  b2 : List Single
  w_skip : List Single
  calibration_type : ℕ
  platt_a : List Single
  platt_b : List Single

end LocalClassifierLayer

structure LocalClassifierLayer where
  enabled : Bool := false
  weights_ : Option LocalClassifierLayer.Weights := none

namespace LocalClassifierLayer

section Loading

def kMagicPrefix : Bytes := bytes "KGCLF"

def kV2HeaderFixedSize : ℕ := 8 + 4 + 4 + 4 + 4 + 4

/-- The warnings of `load_weights`. -/
inductive Warning where
  | missing_or_too_short | magic_mismatch | magic_version | num_categories | embedding_dim | version | hidden_dim
  | model_name_len | too_small | model_mismatch | no_platt_data

abbrev Loading := Except (Failure Warning)

def read_u32_le (blob : Bytes) (off : ℕ) : Loading UInt32 := do
  let a ← read blob off
  let b ← read blob (off + 1)
  let c ← read blob (off + 2)
  let d ← read blob (off + 3)
  .ok (a.toUInt32 ||| b.toUInt32 <<< 8 ||| c.toUInt32 <<< 16 ||| d.toUInt32 <<< 24)

def model_name_matches (file_name runtime_name : Bytes) : Bool :=
  let strip := List.takeWhile (· ≠ 58)
  runtime_name.isEmpty || strip file_name == strip runtime_name

/-- The size of that many floats, as a `size_t`. -/
def floats_size (n : ℕ) : ℕ := n * 4 % 2 ^ 64

def min_size (nc d h name_len : ℕ) : ℕ :=
  (kV2HeaderFixedSize + name_len + floats_size (nc * d * h) + floats_size (nc * h) + floats_size (nc * h) +
    floats_size nc + floats_size (nc * d) + 1) % 2 ^ 64

structure Header where
  num_cat : ℕ
  dim : ℕ
  hidden : ℕ
  file_model : Bytes

def read_header (blob runtime_model_name : Bytes) : Loading Header := do
  refuse_if (blob.length < kV2HeaderFixedSize) .missing_or_too_short
  let magic ← slice blob 0 5
  refuse_if (magic ≠ kMagicPrefix) .magic_mismatch
  let magic_version ← read blob 5
  refuse_if (magic_version ≠ 0x02) .magic_version
  let version ← read_u32_le blob 8
  let num_cat ← read_u32_le blob 12
  let dim ← read_u32_le blob 16
  refuse_if (num_cat = 0 ∨ 64 < num_cat) .num_categories
  refuse_if (dim = 0 ∨ 4096 < dim) .embedding_dim
  refuse_if (version ≠ 2) .version
  let hidden ← read_u32_le blob 20
  let name_len ← read_u32_le blob 24
  refuse_if (hidden = 0 ∨ 1024 < hidden) .hidden_dim
  refuse_if (512 < name_len) .model_name_len
  refuse_if (blob.length < min_size num_cat.toNat dim.toNat hidden.toNat name_len.toNat) .too_small
  let file_model ← slice blob kV2HeaderFixedSize name_len.toNat
  refuse_if (!model_name_matches file_model runtime_model_name) .model_mismatch
  .ok ⟨num_cat.toNat, dim.toNat, hidden.toNat, file_model⟩

/-- A vector of floats that is copied from the cursor on. -/
def read_floats (blob : Bytes) (cursor n : ℕ) : Loading (List Single) := do
  let data ← slice blob cursor (floats_size n)
  .ok ((List.range n).map fun i => (data.drop (4 * i)).take 4)

/-- A float of a vector that was resized. -/
def zero : Single := [0, 0, 0, 0]

/-- The loops that turn the first layer for the dot products over it. -/
def transpose (nc d h : ℕ) (w1_disk : List Single) : List Single :=
  (List.range nc).foldl (fun w1 i => (List.range h).foldl (fun w1 k => (List.range d).foldl (fun w1 j =>
    w1.set (i * h * d + k * d + j) (w1_disk.getD (i * d * h + j * h + k) zero)) w1) w1)
    (List.replicate (nc * h * d) zero)

/-- The vectors of the calibration. -/
def read_platt (blob : Bytes) (cursor nc calibration_type : ℕ) : Loading (List Single × List Single) :=
  if calibration_type = 1 then do
    refuse_if (blob.length < cursor + 2 * floats_size nc) .no_platt_data
    let platt_a ← read_floats blob cursor nc
    let platt_b ← read_floats blob (cursor + floats_size nc) nc
    .ok (platt_a, platt_b)
  else .ok ([], [])

def read_weights (blob : Bytes) (header : Header) : Loading Weights := do
  let nc := header.num_cat
  let d := header.dim
  let h := header.hidden
  let cursor := kV2HeaderFixedSize + header.file_model.length
  let w1_disk ← read_floats blob cursor (nc * d * h)
  let cursor := cursor + floats_size (nc * d * h)
  let b1 ← read_floats blob cursor (nc * h)
  let cursor := cursor + floats_size (nc * h)
  let w2 ← read_floats blob cursor (nc * h)
  let cursor := cursor + floats_size (nc * h)
  let b2 ← read_floats blob cursor nc
  let cursor := cursor + floats_size nc
  let w_skip ← read_floats blob cursor (nc * d)
  let cursor := cursor + floats_size (nc * d)
  let calibration_type ← read blob cursor
  let (platt_a, platt_b) ← read_platt blob (cursor + 1) nc calibration_type.toNat
  .ok {
    num_categories := nc
    embedding_dim := d
    hidden_dim := h
    model_name := header.file_model
    w1 := transpose nc d h w1_disk
    b1, w2, b2, w_skip
    calibration_type := calibration_type.toNat
    platt_a, platt_b }

/-- `blob` is a pointer and a size. -/
def read_blob (blob : Option Bytes) (runtime_model_name : Bytes) : Loading Weights :=
  match blob with
  | none => .error (.refused .missing_or_too_short)
  | some blob => read_header blob runtime_model_name >>= read_weights blob

/-- Nothing, when the blob is read outside. -/
def load_weights (l : LocalClassifierLayer) (blob : Option Bytes) (runtime_model_name : Bytes) :
    Option (Bool × LocalClassifierLayer) :=
  match read_blob blob runtime_model_name with
  | .error .outside => none
  | .error (.refused _) => some (false, { l with weights_ := none })
  | .ok w => some (true, { l with weights_ := some w })

end Loading

section Classifying

variable {R : Type} [Field R] [LinearOrder R] (double : Single → R) (exp : R → R)

def sigmoid (x : R) : R :=
  if 0 ≤ x then
    let z := exp (-x)
    1 / (1 + z)
  else
    let z := exp x
    z / (1 + z)

def set_axis (scores : ModerationAxisScores R) (index : ℕ) (prob : R) : ModerationAxisScores R :=
  match index with
  | 0 => { scores with hate := prob }
  | 1 => { scores with sexual := prob }
  | 2 => { scores with sexual_minors := prob }
  | 3 => { scores with violence := prob }
  | 4 => { scores with self_harm := prob }
  | 5 => { scores with visual_noise := prob }
  | 6 => { scores with link_risk := prob }
  | _ => scores

/-- A float of a vector. -/
def entry (v : List Single) (i : ℕ) : R := double (v.getD i zero)

/-- The first layer of a category. -/
def hidden_units (w : Weights) (x : List Single) (i : ℕ) : List R :=
  let D := w.embedding_dim
  let H := w.hidden_dim
  (List.range H).map fun k =>
    let val := (List.range D).foldl (fun val j => val + entry double w.w1 (i * H * D + k * D + j) * entry double x j)
      (entry double w.b1 (i * H + k))
    max 0 val

def logit (w : Weights) (x : List Single) (i : ℕ) : R :=
  let D := w.embedding_dim
  let H := w.hidden_dim
  let hidden := hidden_units double w x i
  let logit := entry double w.b2 i
  let logit := (List.range H).foldl (fun logit k => logit + entry double w.w2 (i * H + k) * hidden.getD k 0) logit
  (List.range D).foldl (fun logit j => logit + entry double w.w_skip (i * D + j) * entry double x j) logit

def prob (w : Weights) (x : List Single) (i : ℕ) : R :=
  if w.calibration_type = 1 ∧ i < w.platt_a.length then
    sigmoid exp (entry double w.platt_a i * logit double w x i + entry double w.platt_b i)
  else sigmoid exp (logit double w x i)

def no_result : LocalClassifierResult R := ⟨false, ⟨0, 0, 0, 0, 0, 0, 0, 0, 0⟩, 0, -1⟩

/-- A round of the loop over the categories. -/
def step (p : ℕ → R) (out : LocalClassifierResult R) (i : ℕ) : LocalClassifierResult R :=
  let out := { out with scores := set_axis out.scores i (p i) }
  if out.max_confidence < p i then { out with max_confidence := p i, max_category_index := i } else out

def classify_impl (w : Weights) (embedding : EmbeddingResult Single) : LocalClassifierResult R :=
  let out := (List.range w.num_categories).foldl (step (prob double exp w embedding.vector)) no_result
  { out with ran := true }

def classify (l : LocalClassifierLayer) (embedding : EmbeddingResult Single) : LocalClassifierResult R :=
  if !l.enabled then no_result
  else
    match l.weights_ with
    | none => no_result
    | some w =>
      if !embedding.ok then no_result
      else if embedding.vector.length ≠ w.embedding_dim then no_result
      else classify_impl double exp w embedding

end Classifying

/-! The perceptrons of a file, read where its layout has them. -/
namespace Disk
open Lib.BigEndian

variable (blob : Bytes)

def dimension (off : ℕ) : ℕ := value ((blob.drop off).take 4).reverse

def num_cat : ℕ := dimension blob 12

def dim : ℕ := dimension blob 16

def hidden : ℕ := dimension blob 20

def name_len : ℕ := dimension blob 24

def W1 : ℕ := kV2HeaderFixedSize + name_len blob

def b1 : ℕ := W1 blob + 4 * (num_cat blob * dim blob * hidden blob)

def W2 : ℕ := b1 blob + 4 * (num_cat blob * hidden blob)

def b2 : ℕ := W2 blob + 4 * (num_cat blob * hidden blob)

def W_skip : ℕ := b2 blob + 4 * num_cat blob

def calibration_type : ℕ := W_skip blob + 4 * (num_cat blob * dim blob)

def platt_a : ℕ := calibration_type blob + 1

def platt_b : ℕ := platt_a blob + 4 * num_cat blob

/-- The file has a calibration. -/
def Calibrated : Prop := blob[calibration_type blob]? = some 1

instance : Decidable (Calibrated blob) := inferInstanceAs (Decidable (_ = _))

variable {R : Type} [Zero R] [One R] (double : Single → R)

/-- The number of an array at a place. -/
def tensor (start i : ℕ) : R := double ((blob.drop (start + 4 * i)).take 4)

def perceptron : Lib.Perceptron R (num_cat blob) (dim blob) (hidden blob) where
  W1 i j k := tensor blob double (W1 blob) (place (dim blob) (hidden blob) i j k)
  b1 i k := tensor blob double (b1 blob) (i * hidden blob + k)
  W2 i k := tensor blob double (W2 blob) (i * hidden blob + k)
  b2 i := tensor blob double (b2 blob) i
  W_skip i j := tensor blob double (W_skip blob) (i * dim blob + j)
  a i := if Calibrated blob then tensor blob double (platt_a blob) i else 1
  b i := if Calibrated blob then tensor blob double (platt_b blob) i else 0

end Disk

section Reading
open Lib.BigEndian

variable {blob : Bytes}

theorem four_bytes_of {off : ℕ} (inside : off + 4 ≤ blob.length) :
    (blob.drop off).take 4 = [blob[off], blob[off + 1], blob[off + 2], blob[off + 3]] := by
  rw [List.drop_eq_getElem_cons (by omega), List.drop_eq_getElem_cons (by omega), List.drop_eq_getElem_cons (by omega),
    List.drop_eq_getElem_cons (by omega)]
  rfl

theorem read_u32_safe {off : ℕ} (inside : off + 4 ≤ blob.length) :
    Safe (fun v : UInt32 => v.toNat = Disk.dimension blob off) (read_u32_le blob off) := by
  refine Safe.read (by omega) (Safe.read (by omega) (Safe.read (by omega) (Safe.read (by omega) ?_)))
  change UInt32.toNat _ = _
  have word := join_four blob[off + 3] blob[off + 2] blob[off + 1] blob[off]
  rw [UInt32.or_comm, UInt32.or_comm (blob[off].toUInt32 ||| _), UInt32.or_comm blob[off].toUInt32, ← UInt32.or_assoc,
    ← UInt32.or_assoc, word, UInt32.toNat_ofNat', Nat.mod_eq_of_lt (four_lt _ _ _ _), Disk.dimension, four_bytes_of inside]
  rfl

/-- What the checks of the header leave: its dimensions are small, and there is room for the arrays. -/
structure Header.Of (blob : Bytes) (header : Header) : Prop where
  num_cat : header.num_cat = Disk.num_cat blob
  dim : header.dim = Disk.dim blob
  hidden : header.hidden = Disk.hidden blob
  name : header.file_model.length = Disk.name_len blob
  categories : 0 < Disk.num_cat blob ∧ Disk.num_cat blob ≤ 64
  inputs : Disk.dim blob ≤ 4096
  units : Disk.hidden blob ≤ 1024
  room : Disk.calibration_type blob < blob.length

theorem sizes_fit {nc d h : ℕ} (categories : nc ≤ 64) (inputs : d ≤ 4096) (units : h ≤ 1024) :
    nc * d * h ≤ 64 * 4096 * 1024 ∧ nc * h ≤ 64 * 1024 ∧ nc * d ≤ 64 * 4096 :=
  ⟨Nat.mul_le_mul (Nat.mul_le_mul categories inputs) units, Nat.mul_le_mul categories units,
    Nat.mul_le_mul categories inputs⟩

theorem floats_size_of {n : ℕ} (small : n ≤ 64 * 4096 * 1024) : floats_size n = 4 * n := by
  rw [floats_size]
  omega

theorem in_range {v limit : UInt32} (inside : ¬ (v = 0 ∨ limit < v)) : 0 < v.toNat ∧ v.toNat ≤ limit.toNat := by
  obtain ⟨positive, small⟩ := not_or.mp inside
  rw [← UInt32.toNat_inj] at positive
  rw [UInt32.not_lt, UInt32.le_iff_toNat_le] at small
  exact ⟨Nat.pos_of_ne_zero positive, small⟩

theorem read_header_safe (runtime_model_name : Bytes) :
    Safe (Header.Of blob) (read_header blob runtime_model_name) := by
  refine Safe.refuse_if fun long => ?_
  have size : 28 ≤ blob.length := not_lt.mp long
  refine Safe.slice (by omega) (Safe.refuse_if fun _ => Safe.read (by omega) (Safe.refuse_if fun _ => ?_))
  refine Safe.bind (read_u32_safe (by omega)) fun version _ => ?_
  refine Safe.bind (read_u32_safe (by omega)) fun num_cat num_cat_of => ?_
  refine Safe.bind (read_u32_safe (by omega)) fun dim dim_of => ?_
  refine Safe.refuse_if fun categories => Safe.refuse_if fun inputs => Safe.refuse_if fun _ => ?_
  refine Safe.bind (read_u32_safe (by omega)) fun hidden hidden_of => ?_
  refine Safe.bind (read_u32_safe (by omega)) fun name_len name_len_of => ?_
  refine Safe.refuse_if fun units => Safe.refuse_if fun name => Safe.refuse_if fun room => ?_
  obtain ⟨some, categories⟩ := in_range categories
  obtain ⟨_, inputs⟩ := in_range inputs
  obtain ⟨_, units⟩ := in_range units
  rw [UInt32.not_lt, UInt32.le_iff_toNat_le] at name
  obtain ⟨whole, rows, paths⟩ := sizes_fit categories inputs units
  have limits : (64 : UInt32).toNat = 64 ∧ (512 : UInt32).toNat = 512 ∧ kV2HeaderFixedSize = 28 := ⟨rfl, rfl, rfl⟩
  rw [min_size, floats_size_of whole, floats_size_of (by omega), floats_size_of (by omega), floats_size_of (by omega),
    Nat.mod_eq_of_lt (by omega)] at room
  refine Safe.slice (by omega) (Safe.refuse_if fun _ => ?_)
  have read : ((blob.drop kV2HeaderFixedSize).take name_len.toNat).length = name_len.toNat := by
    rw [List.length_take, List.length_drop]
    omega
  rw [num_cat_of, dim_of, hidden_of, name_len_of] at *
  refine ⟨rfl, rfl, rfl, read, ⟨some, categories⟩, inputs, units, ?_⟩
  simp only [Disk.calibration_type, Disk.W_skip, Disk.b2, Disk.W2, Disk.b1, Disk.W1, Disk.num_cat, Disk.dim, Disk.hidden,
    Disk.name_len]
  omega

/-- The floats from a place on. -/
def Disk.floats (blob : Bytes) (start n : ℕ) : List Single := (List.range n).map fun i => (blob.drop (start + 4 * i)).take 4

theorem read_floats_safe {cursor n : ℕ} (small : n ≤ 64 * 4096 * 1024) (inside : cursor + 4 * n ≤ blob.length) :
    Safe (· = Disk.floats blob cursor n) (read_floats blob cursor n) := by
  rw [read_floats, floats_size_of small]
  refine Safe.slice inside (List.map_congr_left fun i member => ?_)
  have here := List.mem_range.mp member
  rw [List.drop_take, List.drop_drop, List.take_take, Nat.min_eq_left (by omega)]

/-- The weights are the arrays of the layout. -/
structure Weights.Of (blob : Bytes) (w : Weights) : Prop where
  num_categories : w.num_categories = Disk.num_cat blob
  embedding_dim : w.embedding_dim = Disk.dim blob
  hidden_dim : w.hidden_dim = Disk.hidden blob
  some : 0 < Disk.num_cat blob
  w1 : w.w1 = transpose (Disk.num_cat blob) (Disk.dim blob) (Disk.hidden blob)
    (Disk.floats blob (Disk.W1 blob) (Disk.num_cat blob * Disk.dim blob * Disk.hidden blob))
  b1 : w.b1 = Disk.floats blob (Disk.b1 blob) (Disk.num_cat blob * Disk.hidden blob)
  w2 : w.w2 = Disk.floats blob (Disk.W2 blob) (Disk.num_cat blob * Disk.hidden blob)
  b2 : w.b2 = Disk.floats blob (Disk.b2 blob) (Disk.num_cat blob)
  w_skip : w.w_skip = Disk.floats blob (Disk.W_skip blob) (Disk.num_cat blob * Disk.dim blob)
  calibrated : w.calibration_type = 1 ↔ Disk.Calibrated blob
  platt : Disk.Calibrated blob → w.platt_a = Disk.floats blob (Disk.platt_a blob) (Disk.num_cat blob) ∧
    w.platt_b = Disk.floats blob (Disk.platt_b blob) (Disk.num_cat blob)

theorem read_platt_safe {cursor nc calibration_type : ℕ} (small : nc ≤ 64) :
    Safe (fun v => calibration_type = 1 → v = (Disk.floats blob cursor nc, Disk.floats blob (cursor + 4 * nc) nc))
      (read_platt blob cursor nc calibration_type) := by
  unfold read_platt
  split
  case isTrue =>
    refine Safe.refuse_if fun room => ?_
    rw [floats_size_of (by omega)] at room ⊢
    refine Safe.bind (read_floats_safe (by omega) (by omega)) fun platt_a platt_a_of => ?_
    refine Safe.bind (read_floats_safe (by omega) (by omega)) fun platt_b platt_b_of _ => ?_
    rw [platt_a_of, platt_b_of]
  case isFalse other => exact fun calibrated => absurd calibrated other

theorem read_weights_safe {header : Header} (of : header.Of blob) :
    Safe (Weights.Of blob) (read_weights blob header) := by
  obtain ⟨num_cat, dim, hidden, name, ⟨some, categories⟩, inputs, units, room⟩ := of
  obtain ⟨whole, rows, paths⟩ := sizes_fit categories inputs units
  have start : kV2HeaderFixedSize + header.file_model.length = Disk.W1 blob := by rw [name, Disk.W1]
  have rooms : Disk.calibration_type blob = Disk.W_skip blob + 4 * (Disk.num_cat blob * Disk.dim blob) := rfl
  have skips : Disk.W_skip blob = Disk.b2 blob + 4 * Disk.num_cat blob := rfl
  have b2s : Disk.b2 blob = Disk.W2 blob + 4 * (Disk.num_cat blob * Disk.hidden blob) := rfl
  have w2s : Disk.W2 blob = Disk.b1 blob + 4 * (Disk.num_cat blob * Disk.hidden blob) := rfl
  have b1s : Disk.b1 blob = Disk.W1 blob + 4 * (Disk.num_cat blob * Disk.dim blob * Disk.hidden blob) := rfl
  simp only [read_weights, num_cat, dim, hidden, start, floats_size_of whole, floats_size_of (rows.trans (by decide)),
    floats_size_of (paths.trans (by decide)), floats_size_of (categories.trans (by decide)), ← b1s, ← w2s, ← b2s, ← skips,
    ← rooms]
  refine Safe.bind (read_floats_safe whole (by omega)) fun w1_disk w1_of => ?_
  refine Safe.bind (read_floats_safe (by omega) (by omega)) fun b1 b1_of => ?_
  refine Safe.bind (read_floats_safe (by omega) (by omega)) fun w2 w2_of => ?_
  refine Safe.bind (read_floats_safe (by omega) (by omega)) fun b2 b2_of => ?_
  refine Safe.bind (read_floats_safe (by omega) (by omega)) fun w_skip w_skip_of => ?_
  refine Safe.read room (Safe.bind (read_platt_safe categories) fun platt platt_of => ?_)
  have calibrated : blob[Disk.calibration_type blob].toNat = 1 ↔ Disk.Calibrated blob := by
    rw [Disk.Calibrated, List.getElem?_eq_getElem room, Option.some_inj, ← UInt8.toNat_inj]
    rfl
  obtain ⟨platt_a, platt_b⟩ := platt
  have vectors (type : Disk.Calibrated blob) := Prod.mk.inj (platt_of (calibrated.mpr type))
  exact ⟨rfl, rfl, rfl, some, by rw [w1_of], b1_of, w2_of, b2_of, w_skip_of, calibrated, vectors⟩

theorem read_blob_safe (blob runtime_model_name : Bytes) :
    Safe (Weights.Of blob) (read_blob (some blob) runtime_model_name) :=
  Safe.bind (read_header_safe runtime_model_name) fun _ of => read_weights_safe of

end Reading

section Layers

variable {blob : Bytes} {R : Type} (double : Single → R)

theorem entry_floats {start n i : ℕ} (inside : i < n) :
    entry double (Disk.floats blob start n) i = Disk.tensor blob double start i := by
  simp [entry, Disk.floats, Disk.tensor, inside]

theorem entry_transpose {nc d h : ℕ} {w1_disk : List Single} {i j k : ℕ} (category : i < nc) (input : j < d)
    (unit : k < h) : entry double (transpose nc d h w1_disk) (i * h * d + k * d + j) =
      entry double w1_disk (place d h i j k) := by
  have turned (i k j : ℕ) : i * h * d + k * d + j = place h d i k j := by rw [place, Nat.add_mul]
  have onDisk (i j k : ℕ) : i * d * h + j * h + k = place d h i j k := by rw [place, Nat.add_mul]
  have inside : place h d i k j < (List.replicate (nc * h * d) zero).length := by
    rw [List.length_replicate]
    exact place_lt category unit input
  have written : (fill (fun p : ℕ × ℕ × ℕ => place h d p.1 p.2.1 p.2.2)
      (fun p => w1_disk.getD (place d h p.1 p.2.2 p.2.1) zero) (List.replicate (nc * h * d) zero)
      (rounds nc h d))[place h d i k j]? = some (w1_disk.getD (place d h i j k) zero) := by
    refine fill_writes (p := (i, k, j)) (mem_rounds.mpr ⟨category, unit, input⟩) inside fun ⟨i', k', j'⟩ member same => ?_
    obtain ⟨_, unit', input'⟩ := mem_rounds.mp member
    obtain ⟨rfl, rfl, rfl⟩ := place_inj unit' unit input' input same
    rfl
  simp only [entry, transpose, turned, onDisk, loops_fill]
  rw [List.getD_eq_getElem?_getD, written]
  rfl

variable [Field R] [LinearOrder R] {w : Weights} (of : w.Of blob) {x : List Single}
include of

theorem hidden_units_eq (i : Fin (Disk.num_cat blob)) (k : Fin (Disk.hidden blob)) :
    (hidden_units double w x i).getD k 0 =
      (Disk.perceptron blob double).unit (fun j => entry double x j) i k := by
  have inside : i * Disk.hidden blob + k < Disk.num_cat blob * Disk.hidden blob := row_lt i.isLt k.isLt
  simp only [hidden_units, of.embedding_dim, of.hidden_dim, List.getD_eq_getElem?_getD, List.getElem?_map,
    List.getElem?_range k.isLt, Option.map_some, Option.getD_some, Lib.Perceptron.unit]
  rw [Lib.Perceptron.foldl_add_range, of.b1, entry_floats double inside, add_comm]
  congr 2
  refine Finset.sum_congr rfl fun j _ => ?_
  rw [of.w1, entry_transpose double i.isLt j.isLt k.isLt, entry_floats double (place_lt i.isLt j.isLt k.isLt)]
  rfl

theorem logit_eq (i : Fin (Disk.num_cat blob)) :
    logit double w x i = (Disk.perceptron blob double).logit (fun j => entry double x j) i := by
  simp only [logit, of.embedding_dim, of.hidden_dim, Lib.Perceptron.foldl_add_range, Lib.Perceptron.logit]
  rw [of.b2, entry_floats double i.isLt, add_comm (Disk.tensor _ _ _ _)]
  refine congrArg₂ (· + ·) (congrArg₂ (· + ·) (Finset.sum_congr rfl fun k _ => ?_) rfl) (Finset.sum_congr rfl fun j _ => ?_)
  · rw [hidden_units_eq double of, of.w2, entry_floats double (row_lt i.isLt k.isLt)]
    rfl
  · rw [of.w_skip, entry_floats double (row_lt i.isLt j.isLt)]
    rfl

end Layers

/-- In exact numbers the two forms of `sigmoid` are one. -/
theorem sigmoid_real (x : ℝ) : sigmoid Real.exp x = Real.sigmoid x := by
  obtain ⟨first, second⟩ := Lib.Perceptron.sigmoid_forms x
  unfold sigmoid
  split
  · exact first.symm
  · exact second.symm

section Scores

variable {blob : Bytes} {w : Weights} (double : Single → ℝ)

theorem prob_eq (of : w.Of blob) {x : List Single} (i : Fin (Disk.num_cat blob)) :
    prob double Real.exp w x i = (Disk.perceptron blob double).probability (fun j => entry double x j) i := by
  simp only [prob, sigmoid_real, logit_eq double of, Lib.Perceptron.probability]
  by_cases calibrated : Disk.Calibrated blob
  · obtain ⟨a, b⟩ := of.platt calibrated
    have both : w.calibration_type = 1 ∧ i < w.platt_a.length := by
      refine ⟨of.calibrated.mpr calibrated, ?_⟩
      rw [a]
      simp [Disk.floats]
    rw [if_pos both, a, b, entry_floats double i.isLt, entry_floats double i.isLt]
    simp only [Disk.perceptron, if_pos calibrated]
  · have neither : ¬ (w.calibration_type = 1 ∧ i < w.platt_a.length) := fun both =>
      calibrated (of.calibrated.mp both.1)
    rw [if_neg neither]
    simp only [Disk.perceptron, if_neg calibrated, one_mul, add_zero]

/-- The axes that the scores of the categories are written to. -/
def axes {R : Type} [Zero R] {n : ℕ} (score : Fin n → R) : ModerationAxisScores R :=
  let axis (index : ℕ) : R := if inside : index < n then score ⟨index, inside⟩ else 0
  { hate := axis 0, sexual := axis 1, sexual_minors := axis 2, violence := axis 3, self_harm := axis 4,
    visual_noise := axis 5, link_risk := axis 6, slurs := 0, semantic_echo := 0 }

theorem set_axis_axes {R : Type} [Zero R] (p : ℕ → R) (n : ℕ) :
    set_axis (axes fun i : Fin n => p i) n (p n) = axes fun i : Fin (n + 1) => p i := by
  match n with
  | 0 | 1 | 2 | 3 | 4 | 5 | 6 => simp [set_axis, axes]
  | n + 7 => simp [set_axis, axes]

/-- The loop over the categories writes their axes and keeps the strongest. -/
theorem rounds_scores {p : ℕ → ℝ} (positive : ∀ i, 0 < p i) {n : ℕ} (some : 1 ≤ n) :
    ∃ i, Lib.Perceptron.Strongest p n i ∧
      (List.range n).foldl (step p) no_result = ⟨false, axes fun i : Fin n => p i, p i, i⟩ := by
  induction n, some using Nat.le_induction with
  | base =>
    refine ⟨0, ⟨Nat.one_pos, fun j before => ?_, fun j before => absurd before (Nat.not_lt_zero j)⟩, ?_⟩
    · rw [Nat.lt_one_iff.mp before]
    · have first : (no_result : LocalClassifierResult ℝ).max_confidence < p 0 := positive 0
      have none : (no_result : LocalClassifierResult ℝ).scores = axes fun i : Fin 0 => p i := by simp [no_result, axes]
      rw [List.range_one, List.foldl_cons, List.foldl_nil, step, none, set_axis_axes]
      dsimp only
      rw [if_pos first]
      rfl
  | succ n _ ih =>
    obtain ⟨i, strongest, before⟩ := ih
    refine ⟨_, strongest.next, ?_⟩
    rw [List.range_succ, List.foldl_append, before, List.foldl_cons, List.foldl_nil, step]
    dsimp only
    rw [set_axis_axes]
    split <;> rfl

end Scores

/-- The result is that of the perceptrons: their scores on the axes, and the first of the strongest categories. -/
structure Computes {n d h : ℕ} (perceptron : Lib.Perceptron ℝ n d h) (x : Fin d → ℝ) (r : LocalClassifierResult ℝ) :
    Prop where
  ran : r.ran = true
  scores : r.scores = axes (perceptron.probability x)
  strongest : ∃ i : Fin n, r.max_category_index = (i : ℕ) ∧ r.max_confidence = perceptron.probability x i ∧
    (∀ j, perceptron.probability x j ≤ perceptron.probability x i) ∧
    ∀ j < i, perceptron.probability x j < perceptron.probability x i

/-- An enabled layer computes what the file says of every embedding of its size. -/
def Installed (double : Single → ℝ) (blob : Bytes) (l : LocalClassifierLayer) : Prop :=
  l.weights_ ≠ none ∧ ∀ embedding : EmbeddingResult Single, l.enabled = true → embedding.ok = true →
    embedding.vector.length = Disk.dim blob →
    Computes (Disk.perceptron blob double) (fun j => entry double embedding.vector j)
      (l.classify double Real.exp embedding)

theorem installed_of {blob : Bytes} {w : Weights} (of : w.Of blob) (double : Single → ℝ) (enabled : Bool) :
    Installed double blob ⟨enabled, some w⟩ := by
  refine ⟨nofun, fun embedding on ok size => ?_⟩
  have same := prob_eq double of (x := embedding.vector)
  have positive (i : ℕ) : 0 < prob double Real.exp w embedding.vector i := by
    simp only [prob, sigmoid_real]
    split <;> exact Real.sigmoid_pos _
  obtain ⟨i, ⟨inside, largest, first⟩, run⟩ := rounds_scores positive of.some
  have fits : embedding.vector.length = w.embedding_dim := size.trans of.embedding_dim.symm
  have result : classify double Real.exp ⟨enabled, some w⟩ embedding =
      ⟨true, axes fun i : Fin (Disk.num_cat blob) => prob double Real.exp w embedding.vector i,
        prob double Real.exp w embedding.vector i, i⟩ := by
    have enabled : enabled = true := on
    simp only [classify, enabled, ok, fits, Bool.not_true, Bool.false_eq_true, if_false, ne_eq, not_true_eq_false,
      classify_impl, of.num_categories, run]
  rw [result]
  refine ⟨rfl, congrArg axes (funext same), ⟨i, inside⟩, rfl, same ⟨i, inside⟩, fun j => ?_, fun j before => ?_⟩
  · rw [← same j, ← same ⟨i, inside⟩]
    exact largest j j.isLt
  · rw [← same j, ← same ⟨i, inside⟩]
    exact first j before

/-- Every blob is read inside its bounds: it leaves no weights, or those that its layout says. -/
theorem load_computes (double : Single → ℝ) (l : LocalClassifierLayer) (blob : Option Bytes) (runtime_model_name : Bytes) :
    ∃ loaded after, l.load_weights blob runtime_model_name = some (loaded, after) ∧
      if loaded then ∃ b, blob = some b ∧ Installed double b after else after.weights_ = none := by
  cases blob with
  | none => exact ⟨false, _, rfl, rfl⟩
  | some b =>
    have safe := read_blob_safe b runtime_model_name
    unfold load_weights
    generalize read_blob (some b) runtime_model_name = outcome at safe ⊢
    match outcome, safe with
    | .ok w, of => exact ⟨true, _, rfl, b, rfl, installed_of of double l.enabled⟩
    | .error (.refused _), _ => exact ⟨false, _, rfl, rfl⟩

/-- The weights of one category, one dimension and one hidden unit are taken. -/
example : (load_weights {} (some (kMagicPrefix ++ [2, 0, 0, 2, 0, 0, 0, 1, 0, 0, 0, 1, 0, 0, 0, 1, 0, 0, 0] ++
    List.replicate 25 0)) []).map Prod.fst = some true := by decide +kernel

end LocalClassifierLayer

end AoSdl.moderation
