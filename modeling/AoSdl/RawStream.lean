import AoSdl.Lib.Runs
import AoSdl.Text

/-! The raw bytes of an audio stream as a file for the decoder: the download appends, the decoder reads and
seeks. Positions are words of 64 bits, as the source has them, and so is what is left behind the cursor. -/
namespace AoSdl

open Lib.Runs

/-- `fits` is what `max_size` allows a vector of bytes. -/
structure RawStream where
  raw_data_ : Bytes
  raw_read_pos_ : UInt64
  raw_complete_ : Bool
  fits : raw_data_.length < 2 ^ 63

namespace RawStream

def new : RawStream := ⟨[], 0, false, by decide⟩

/-- An `int64_t`, where it holds the number; the source has no result otherwise. -/
def int64 (n : ℤ) : Option ℤ := if -2 ^ 63 ≤ n ∧ n < 2 ^ 63 then some n else none

/-- An argument of `stream_read`. -/
abbrev Count := {n : ℕ // 0 < n ∧ n < 2 ^ 31}

/-- A read waits, or it returns a number after it copied a range of bytes. -/
inductive StreamRead where
  | waits
  | returned (n : ℤ) (copied : Option Bytes)

section

variable (s : RawStream)

def size : UInt64 := UInt64.ofNat s.raw_data_.length

def pos : ℕ := s.raw_read_pos_.toNat

/-- The bytes of a range; a range that is not in the vector has none. -/
def memcpy (start count : UInt64) : Option Bytes :=
  if start.toNat + count.toNat ≤ s.raw_data_.length then
    some ((s.raw_data_.drop start.toNat).take count.toNat)
  else none

/-- Beyond `max_size` the vector throws and stays as it is. -/
def feed (data : Bytes) : RawStream :=
  if fits : (s.raw_data_ ++ data).length < 2 ^ 63 then { s with raw_data_ := s.raw_data_ ++ data, fits := fits } else s

def mark_complete : RawStream := { s with raw_complete_ := true }

def avail : UInt64 := s.size - s.raw_read_pos_

def to_read (count : Count) : UInt64 := min (UInt64.ofNat count.1) s.avail

def stream_read (count : Count) : RawStream × StreamRead :=
  if s.raw_read_pos_ < s.size ∨ s.raw_complete_ = true then
    if s.avail = 0 then (s, .returned 0 (some []))
    else
      ({ s with raw_read_pos_ := s.raw_read_pos_ + s.to_read count },
        .returned (wrap32 (s.to_read count).toNat) (s.memcpy s.raw_read_pos_ (s.to_read count)))
  else (s, .waits)

def SEEK_SET : ℤ := 0
def SEEK_CUR : ℤ := 1
def SEEK_END : ℤ := 2

/-- Where a seek goes to; a reference point that is not known yet is not counted from. -/
def target (offset : Int64) (whence : ℤ) : Option ℤ :=
  if whence = SEEK_SET then some offset.toInt
  else if whence = SEEK_CUR then some (wrap64 s.pos + offset.toInt)
  else if whence = SEEK_END then if s.raw_complete_ then some (wrap64 s.size.toNat + offset.toInt) else none
  else none

/-- The result has no value if the target is no `int64_t`. -/
def stream_seek (offset : Int64) (whence : ℤ) : RawStream × Option ℤ :=
  match s.target offset whence with
  | none => (s, some (-1))
  | some sum =>
    match int64 sum with
    | none => (s, none)
    | some new_pos =>
      if new_pos < 0 ∨ s.raw_complete_ = false ∧ s.size < UInt64.ofInt new_pos then (s, some (-1))
      else ({ s with raw_read_pos_ := UInt64.ofInt new_pos }, some 0)

def stream_tell : ℤ := wrap64 s.pos

end

inductive Event where
  | feed (data : Bytes)
  | mark_complete
  | stream_read (count : Count)
  | stream_seek (offset : Int64) (whence : ℤ)
  | stream_tell

def step (s : RawStream) : Event → RawStream
  | .feed data => s.feed data
  | .mark_complete => s.mark_complete
  | .stream_read count => (s.stream_read count).1
  | .stream_seek offset whence => (s.stream_seek offset whence).1
  | .stream_tell => s

/-- Where a seek of a file goes to. -/
def goal (s : RawStream) (offset : Int64) (whence : ℤ) : Option ℤ :=
  if whence = SEEK_SET then some offset.toInt
  else if whence = SEEK_CUR then some (s.pos + offset.toInt)
  else if whence = SEEK_END ∧ s.raw_complete_ then some (s.raw_data_.length + offset.toInt)
  else none

/-- A read as that of a file of the bytes fed so far: it waits until there is something to return, it copies
the next bytes and goes behind them, and it returns nothing at the end only. -/
structure Reads (s : RawStream) (count : Count) : Prop where
  waits : (s.stream_read count).2 = .waits →
    (s.stream_read count).1 = s ∧ s.raw_complete_ = false ∧ s.raw_data_.length ≤ s.pos
  copies : ∀ r copied, (s.stream_read count).2 = .returned r copied → ∃ n : ℕ, r = n ∧ n ≤ count.1 ∧
    copied = some ((s.raw_data_.drop s.pos).take n) ∧ (0 < n → s.pos + n ≤ s.raw_data_.length) ∧
    (s.stream_read count).1.pos = s.pos + n ∧ (s.stream_read count).1.raw_data_ = s.raw_data_ ∧
    (n = 0 → s.raw_complete_ = true ∧ s.raw_data_.length ≤ s.pos)

/-- A seek as that of a file: it leads to its goal, or it is rejected and nothing changes. -/
structure Seeks (s : RawStream) (offset : Int64) (whence : ℤ) : Prop where
  result : (s.stream_seek offset whence).2 = some 0 ∨ (s.stream_seek offset whence).2 = some (-1)
  accepted : (s.stream_seek offset whence).2 = some 0 →
    ∃ n : ℕ, s.goal offset whence = some n ∧ (s.stream_seek offset whence).1.pos = n
  rejected : (s.stream_seek offset whence).2 = some (-1) → (s.stream_seek offset whence).1 = s
  inside : ∀ n : ℕ, s.goal offset whence = some n → n ≤ s.raw_data_.length →
    (s.stream_seek offset whence).2 = some 0
  data : (s.stream_seek offset whence).1.raw_data_ = s.raw_data_

def Behaves (s : RawStream) : Event → Prop
  | .feed data => (s.feed data).pos = s.pos ∧
      ((s.raw_data_ ++ data).length < 2 ^ 63 → (s.feed data).raw_data_ = s.raw_data_ ++ data)
  | .mark_complete => s.mark_complete.pos = s.pos ∧ s.mark_complete.raw_data_ = s.raw_data_
  | .stream_read count => s.Reads count
  | .stream_seek offset whence => s.Seeks offset whence
  | .stream_tell => s.stream_tell = s.pos

/-- A read starts inside the bytes fed, and the sum for a seek is an `int64_t`. -/
def Regular (s : RawStream) : Event → Prop
  | .stream_read _ => s.pos ≤ s.raw_data_.length
  | .stream_seek offset whence => ∀ sum ∈ s.goal offset whence, -2 ^ 63 ≤ sum ∧ sum < 2 ^ 63
  | _ => True

/-- As long as the end is not known the cursor is not beyond the bytes fed. -/
structure Reached (s : RawStream) : Prop where
  low : s.pos < 2 ^ 63
  known : s.raw_complete_ = false → s.pos ≤ s.raw_data_.length

variable {s : RawStream}

theorem reached_new : new.Reached := ⟨by decide, fun _ => Nat.le_refl 0⟩

@[simp] theorem size_toNat (s : RawStream) : s.size.toNat = s.raw_data_.length :=
  UInt64.toNat_ofNat_of_lt' (s.fits.trans (by decide))

theorem wrap64_of_lt {n : ℕ} (low : n < 2 ^ 63) : wrap64 n = n := by
  apply Int.bmod_eq_of_le
  · omega
  · omega

theorem target_eq (reached : s.Reached) (offset : Int64) (whence : ℤ) : s.target offset whence = s.goal offset whence := by
  have size := wrap64_of_lt s.fits
  simp only [target, goal, wrap64_of_lt reached.low, size_toNat, size]
  split
  · rfl
  · split
    · rfl
    · cases s.raw_complete_ with
      | true => simp
      | false => simp

theorem before_size : s.raw_read_pos_ < s.size ↔ s.pos < s.raw_data_.length := by
  rw [UInt64.lt_iff_toNat_lt, size_toNat]
  rfl

theorem avail_inside (inside : s.pos ≤ s.raw_data_.length) : s.avail.toNat = s.raw_data_.length - s.pos := by
  have order : s.raw_read_pos_ ≤ s.size := by
    rw [UInt64.le_iff_toNat_le, size_toNat]
    exact inside
  rw [avail, UInt64.toNat_sub_of_le _ _ order, size_toNat, pos]

/-- Beyond the end the difference goes round, and something seems to be left. -/
theorem avail_beyond (beyond : s.raw_data_.length < s.pos) : s.avail ≠ 0 := by
  intro none
  have same := congrArg UInt64.toNat none
  have low : s.raw_read_pos_.toNat < 2 ^ 64 := s.raw_read_pos_.toNat_lt
  rw [avail, UInt64.toNat_sub, size_toNat] at same
  simp only [pos] at beyond
  simp at same
  omega

theorem count_toNat (count : Count) : (UInt64.ofNat count.1).toNat = count.1 :=
  UInt64.toNat_ofNat_of_lt' (count.2.2.trans (by decide))

theorem toNat_min (a b : UInt64) : (min a b).toNat = min a.toNat b.toNat := by
  change (if a ≤ b then a else b).toNat = _
  split
  · rename_i less
    exact (Nat.min_eq_left (UInt64.le_iff_toNat_le.mp less)).symm
  · rename_i more
    exact (Nat.min_eq_right (Nat.le_of_not_le fun less => more (UInt64.le_iff_toNat_le.mpr less))).symm

theorem to_read_toNat (s : RawStream) (count : Count) : (s.to_read count).toNat = min count.1 s.avail.toNat := by
  rw [to_read, toNat_min, count_toNat]

theorem stream_read_left (count : Count) (ready : s.pos < s.raw_data_.length ∨ s.raw_complete_ = true)
    (some_left : s.avail ≠ 0) :
    s.stream_read count = ({ s with raw_read_pos_ := s.raw_read_pos_ + s.to_read count },
      .returned (wrap32 (s.to_read count).toNat) (s.memcpy s.raw_read_pos_ (s.to_read count))) := by
  simp only [stream_read, before_size, if_pos ready, if_neg some_left]

theorem stream_read_cases (inside : s.pos ≤ s.raw_data_.length) (count : Count) :
    (s.pos = s.raw_data_.length ∧ s.raw_complete_ = false ∧ s.stream_read count = (s, .waits)) ∨
    (s.pos = s.raw_data_.length ∧ s.raw_complete_ = true ∧ s.stream_read count = (s, .returned 0 (some []))) ∨
    ∃ n : ℕ, ∃ s' : RawStream, 0 < n ∧ n ≤ count.1 ∧ s.pos + n ≤ s.raw_data_.length ∧ s'.pos = s.pos + n ∧
      s'.raw_data_ = s.raw_data_ ∧ s'.raw_complete_ = s.raw_complete_ ∧
      s.stream_read count = (s', .returned n (some ((s.raw_data_.drop s.pos).take n))) := by
  have left := avail_inside inside
  have taken := to_read_toNat s count
  rw [left] at taken
  rcases Nat.lt_or_ge s.pos s.raw_data_.length with more | all
  · have some_left : s.avail ≠ 0 := fun none => by
      rw [none] at left
      simp at left
      omega
    have fits := s.fits
    have small := count.2
    have copied : s.memcpy s.raw_read_pos_ (s.to_read count) =
        some ((s.raw_data_.drop s.pos).take (s.to_read count).toNat) := by
      apply if_pos
      change s.pos + _ ≤ _
      omega
    have returned : wrap32 (s.to_read count).toNat = (s.to_read count).toNat := by
      apply Int.bmod_eq_of_le
      · omega
      · omega
    have moved : (s.raw_read_pos_ + s.to_read count).toNat = s.pos + (s.to_read count).toNat := by
      rw [UInt64.toNat_add]
      apply Nat.mod_eq_of_lt
      change s.pos + _ < _
      omega
    have result := stream_read_left count (.inl more) some_left
    rw [copied, returned] at result
    exact .inr (.inr ⟨(s.to_read count).toNat, { s with raw_read_pos_ := s.raw_read_pos_ + s.to_read count },
      by omega, by omega, by omega, moved, rfl, rfl, result⟩)
  · have same : s.pos = s.raw_data_.length := Nat.le_antisymm inside all
    have none_left : s.avail = 0 := by
      apply UInt64.toNat_inj.mp
      rw [left, same, Nat.sub_self]
      rfl
    have stop : ¬s.pos < s.raw_data_.length := Nat.not_lt.mpr all
    cases complete : s.raw_complete_ with
    | false =>
      left
      refine ⟨same, rfl, ?_⟩
      simp [stream_read, before_size, stop, complete]
    | true =>
      right
      left
      refine ⟨same, rfl, ?_⟩
      simp [stream_read, complete, none_left]

theorem reads_of_inside (inside : s.pos ≤ s.raw_data_.length) (count : Count) : s.Reads count := by
  rcases stream_read_cases inside count with
    ⟨same, incomplete, result⟩ | ⟨same, complete, result⟩ | ⟨n, s', some_left, few, within, moved, data, -, result⟩
  · refine ⟨fun _ => ?_, fun r copied returned => ?_⟩
    · rw [result]
      exact ⟨rfl, incomplete, same.ge⟩
    · rw [result] at returned
      cases returned
  · refine ⟨fun waits => ?_, fun r copied returned => ?_⟩
    · rw [result] at waits
      cases waits
    · rw [result] at returned ⊢
      cases returned
      exact ⟨0, rfl, Nat.zero_le _, rfl, fun none => absurd none (Nat.lt_irrefl 0), rfl, rfl, fun _ => ⟨complete, same.ge⟩⟩
  · refine ⟨fun waits => ?_, fun r copied returned => ?_⟩
    · rw [result] at waits
      cases waits
    · rw [result] at returned ⊢
      cases returned
      exact ⟨n, rfl, few, rfl, fun _ => within, moved, data, fun none => absurd none (Nat.ne_of_gt some_left)⟩

/-- A read beyond the end of a complete stream returns bytes that were never fed. -/
theorem not_reads_of_beyond (beyond : s.raw_data_.length < s.pos) (complete : s.raw_complete_ = true) (count : Count) :
    ¬s.Reads count := by
  intro reads
  have some_left := avail_beyond beyond
  have result := stream_read_left count (.inr complete) some_left
  have outside : s.memcpy s.raw_read_pos_ (s.to_read count) = none := by
    apply if_neg
    change ¬s.pos + _ ≤ _
    omega
  obtain ⟨n, -, -, copied, -⟩ := reads.copies _ _ (congrArg Prod.snd result)
  rw [outside] at copied
  cases copied

theorem reads_iff (reached : s.Reached) (count : Count) : s.Reads count ↔ s.pos ≤ s.raw_data_.length := by
  refine ⟨fun reads => ?_, fun inside => reads_of_inside inside count⟩
  by_contra beyond
  cases complete : s.raw_complete_ with
  | false => exact beyond (reached.known complete)
  | true => exact not_reads_of_beyond (Nat.not_le.mp beyond) complete count reads

theorem ofInt_toNat {n : ℕ} (low : n < 2 ^ 63) : (UInt64.ofInt n).toNat = n := by
  have word : n < 2 ^ 64 := low.trans (by decide)
  have same : ((n : ℤ) % 2 ^ 64).toNat = n := by omega
  rw [UInt64.ofInt, same]
  exact UInt64.toNat_ofNat_of_lt' word

theorem stream_seek_cases (reached : s.Reached) (offset : Int64) (whence : ℤ)
    (fits : ∀ sum ∈ s.goal offset whence, -2 ^ 63 ≤ sum ∧ sum < 2 ^ 63) :
    (s.stream_seek offset whence = (s, some (-1)) ∧
      ∀ n : ℕ, s.goal offset whence = some n → s.raw_data_.length < n) ∨
    ∃ n : ℕ, s.goal offset whence = some n ∧ n < 2 ^ 63 ∧ (s.raw_complete_ = false → n ≤ s.raw_data_.length) ∧
      s.stream_seek offset whence = ({ s with raw_read_pos_ := UInt64.ofInt n }, some 0) := by
  have target := target_eq reached offset whence
  cases goal : s.goal offset whence with
  | none =>
    left
    refine ⟨?_, nofun⟩
    simp only [stream_seek, target, goal]
  | some sum =>
    obtain ⟨low, high⟩ := fits sum goal
    have value : int64 sum = some sum := if_pos ⟨low, high⟩
    simp only [stream_seek, target, goal, value]
    by_cases negative : sum < 0
    · left
      rw [if_pos (.inl negative)]
      refine ⟨rfl, fun n same => ?_⟩
      cases same
      omega
    · obtain ⟨n, rfl⟩ := Int.eq_ofNat_of_zero_le (Int.le_of_not_gt negative)
      have small : n < 2 ^ 63 := by omega
      have behind : s.size < UInt64.ofInt n ↔ s.raw_data_.length < n := by
        rw [UInt64.lt_iff_toNat_lt, size_toNat, ofInt_toNat small]
      by_cases early : s.raw_complete_ = false ∧ s.raw_data_.length < n
      · left
        rw [if_pos (.inr ⟨early.1, behind.mpr early.2⟩)]
        refine ⟨rfl, fun m same => ?_⟩
        have same := Option.some.inj same
        omega
      · right
        rw [if_neg (by rintro (low | ⟨open_end, beyond⟩); exacts [negative low, early ⟨open_end, behind.mp beyond⟩])]
        exact ⟨n, rfl, small, fun open_end => Nat.le_of_not_lt fun beyond => early ⟨open_end, beyond⟩, rfl⟩

theorem seeks_of_fits (reached : s.Reached) {offset : Int64} {whence : ℤ}
    (fits : ∀ sum ∈ s.goal offset whence, -2 ^ 63 ≤ sum ∧ sum < 2 ^ 63) : s.Seeks offset whence := by
  rcases stream_seek_cases reached offset whence fits with ⟨same, behind⟩ | ⟨n, goal, small, -, moves⟩
  · refine ⟨.inr ?_, fun accepted => ?_, fun _ => ?_, fun n goal inside => ?_, ?_⟩
    · rw [same]
    · rw [same] at accepted
      cases accepted
    · rw [same]
    · exact absurd inside (Nat.not_le.mpr (behind n goal))
    · rw [same]
  · refine ⟨.inl ?_, fun _ => ⟨n, goal, ?_⟩, fun rejected => ?_, fun _ _ _ => ?_, ?_⟩
    · rw [moves]
    · rw [moves]
      exact ofInt_toNat small
    · rw [moves] at rejected
      cases rejected
    · rw [moves]
    · rw [moves]

theorem seeks_iff (reached : s.Reached) (offset : Int64) (whence : ℤ) :
    s.Seeks offset whence ↔ ∀ sum ∈ s.goal offset whence, -2 ^ 63 ≤ sum ∧ sum < 2 ^ 63 := by
  refine ⟨fun seeks sum goal => ?_, seeks_of_fits reached⟩
  by_contra outside
  have target : s.target offset whence = some sum := (target_eq reached offset whence).trans goal
  have value : int64 sum = none := if_neg outside
  have undefined : (s.stream_seek offset whence).2 = none := by simp only [stream_seek, target, value]
  rcases seeks.result with zero | rejected
  · rw [undefined] at zero
    cases zero
  · rw [undefined] at rejected
    cases rejected

theorem feed_cases (s : RawStream) (data : Bytes) :
    s.feed data = s ∧ ¬(s.raw_data_ ++ data).length < 2 ^ 63 ∨
      (s.feed data).raw_data_ = s.raw_data_ ++ data ∧ (s.feed data).raw_read_pos_ = s.raw_read_pos_ ∧
        (s.feed data).raw_complete_ = s.raw_complete_ := by
  by_cases fits : (s.raw_data_ ++ data).length < 2 ^ 63
  · right
    rw [feed, dif_pos fits]
    exact ⟨rfl, rfl, rfl⟩
  · exact .inl ⟨dif_neg fits, fits⟩

theorem Reached.step (reached : s.Reached) (e : Event) (regular : s.Regular e) : (s.step e).Reached := by
  cases e with
  | feed data =>
    rcases feed_cases s data with ⟨same, -⟩ | ⟨data, pos, complete⟩
    · simp only [RawStream.step, same]
      exact reached
    · refine ⟨?_, fun open_end => ?_⟩
      · simp only [RawStream.step, RawStream.pos, pos]
        exact reached.low
      · have inside := reached.known (complete.symm.trans open_end)
        simp only [RawStream.step, RawStream.pos, pos, data, List.length_append]
        exact inside.trans (Nat.le_add_right ..)
  | mark_complete => exact ⟨reached.low, nofun⟩
  | stream_read count =>
    rcases stream_read_cases regular count with
      ⟨-, -, result⟩ | ⟨-, -, result⟩ | ⟨n, s', -, -, within, moved, data, -, result⟩
    · simp only [RawStream.step, result]
      exact reached
    · simp only [RawStream.step, result]
      exact reached
    · have fits := s.fits
      simp only [RawStream.step, result]
      refine ⟨?_, fun _ => ?_⟩
      · rw [moved]
        omega
      · rw [moved, data]
        exact within
  | stream_seek offset whence =>
    rcases stream_seek_cases reached offset whence regular with ⟨same, -⟩ | ⟨n, -, small, known, moves⟩
    · simp only [RawStream.step, same]
      exact reached
    · simp only [RawStream.step, moves]
      have pos : (UInt64.ofInt n).toNat = n := ofInt_toNat small
      exact ⟨pos.trans_lt small, fun open_end => pos.trans_le (known open_end)⟩
  | stream_tell => exact reached

theorem behaves_iff (reached : s.Reached) (e : Event) : s.Behaves e ↔ s.Regular e := by
  cases e with
  | feed data =>
    refine iff_of_true ?_ trivial
    rcases feed_cases s data with ⟨same, full⟩ | ⟨data, pos, -⟩
    · exact ⟨congrArg RawStream.pos same, fun room => absurd room full⟩
    · exact ⟨congrArg UInt64.toNat pos, fun _ => data⟩
  | mark_complete => exact ⟨fun _ => trivial, fun _ => ⟨rfl, rfl⟩⟩
  | stream_read count => exact reads_iff reached count
  | stream_seek offset whence => exact seeks_iff reached offset whence
  | stream_tell => exact ⟨fun _ => trivial, fun _ => wrap64_of_lt reached.low⟩

/-- The stream behaves as a file in every step of a run exactly if each read of the run starts inside the bytes
fed and no seek of it leaves the range of `int64_t`. -/
theorem file_cursor_iff (events : List Event) :
    Throughout step Behaves new events ↔ Throughout step Regular new events :=
  throughout_iff_throughout (I := Reached) (fun _ e reached regular => reached.step e regular)
    (fun _ e reached => behaves_iff reached e) reached_new events

/-- Three bytes were fed, and a read behind them returns four. -/
theorem read_beyond_end : ¬Throughout step Behaves new
    [.feed [1, 2, 3], .mark_complete, .stream_seek 5 SEEK_SET, .stream_read ⟨4, by decide⟩] := by
  rintro ⟨-, -, -, reads, -⟩
  exact not_reads_of_beyond (by decide) rfl ⟨4, by decide⟩ reads

end RawStream

end AoSdl
