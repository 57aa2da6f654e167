import AoSdl.Lib.BitPrefix
import AoSdl.Lib.RingBuffer
import AoSdl.Lib.Runs
import Mathlib.Data.Nat.Log
import Mathlib.Data.UInt

/-! The ring between the decode thread and the audio callback. Each thread loads the heads, copies the samples one by
one and stores its own head, and the steps of both come in any order. The heads are words of 64 bits that count on. -/
namespace AoSdl

open Lib.Runs Lib.BitSmear Lib.StreamSlots

structure PcmRingBuffer (α : Type*) where
  buf_ : List α
  write_head_ : UInt64
  read_head_ : UInt64

namespace PcmRingBuffer

def next_power_of_2 (v : UInt64) : UInt64 :=
  let v := v - 1
  let v := v ||| v >>> 1
  let v := v ||| v >>> 2
  let v := v ||| v >>> 4
  let v := v ||| v >>> 8
  let v := v ||| v >>> 16
  let v := v ||| v >>> 32
  v + 1

/-- Where the producer is: behind the loads it knows the samples, its own head and how many samples it writes. -/
inductive Producer (α : Type*) where
  | idle
  | write (data : List α)
  | loaded (data : List α) (w : UInt64)
  | copying (data : List α) (w : UInt64) (to_write i free : ℕ)

/-- Where the consumer is: behind the loads it knows its own head and how many samples it reads. -/
inductive Consumer (α : Type*) where
  | idle
  | read (count : UInt64)
  | loaded (count r : UInt64)
  | copying (count r : UInt64) (to_read : ℕ) (data : List α)
  | available
  | available_loaded (r : UInt64)

/-- A call of `write` that has returned, with the slots that were free when it loaded the read head. -/
structure Written where
  count : ℕ
  free : ℕ
  result : ℕ

/-- A call of `read` that has returned, with what `available` has said since the call before it. -/
structure ReadCall where
  count : ℕ
  promised : ℕ
  result : ℕ

/-- A call of `available` that has returned, with the samples that were there. -/
structure AvailableCall where
  present : ℕ
  result : ℕ

/-- The ring with both threads, and what has happened: the samples that calls of `write` have accepted, those that
calls of `read` have delivered, and the calls. -/
structure System (α : Type*) extends PcmRingBuffer α where
  producer : Producer α
  consumer : Consumer α
  accepted : List α
  delivered : List α
  promised : ℕ
  writes : List Written
  reads : List ReadCall
  availables : List AvailableCall

inductive Action (α : Type*) where
  | write (data : List α)
  | producer
  | read (count : UInt64)
  | available
  | consumer

section

variable {α : Type*} (s : System α)

def size : UInt64 := UInt64.ofNat s.buf_.length

def mask : UInt64 := size s - 1

/-- The slot of the sample that is `i` behind a head. -/
def slot (head : UInt64) (i : ℕ) : ℕ := ((head + UInt64.ofNat i) &&& mask s).toNat

/-- The samples that have been accepted and not delivered. -/
def contents : ℕ := s.accepted.length - s.delivered.length

/-- The constructor, with the zero of the samples. -/
def new (capacity : UInt64) (zero : α) : System α where
  buf_ := List.replicate (next_power_of_2 capacity).toNat zero
  write_head_ := 0
  read_head_ := 0
  producer := .idle
  consumer := .idle
  accepted := []
  delivered := []
  promised := 0
  writes := []
  reads := []
  availables := []

/-- A load, a copy of one sample, or the store. Nothing happens where a copy would read outside of its samples. -/
def producer_step : System α :=
  match s.producer with
  | .idle => s
  | .write data => { s with producer := .loaded data s.write_head_ }
  | .loaded data w =>
    let free := size s - (w - s.read_head_)
    { s with producer := .copying data w (min data.length free.toNat) 0 (s.buf_.length - contents s) }
  | .copying data w to_write i free =>
    if i < to_write then
      match data[i]? with
      | some x =>
        { s with
          buf_ := s.buf_.set (slot s w i) x
          producer := .copying data w to_write (i + 1) free }
      | none => s
    else
      { s with
        write_head_ := w + UInt64.ofNat to_write
        producer := .idle
        accepted := s.accepted ++ data.take to_write
        writes := s.writes ++ [⟨data.length, free, to_write⟩] }

/-- A load, a copy of one sample, or the store. -/
def consumer_step : System α :=
  match s.consumer with
  | .idle => s
  | .read count => { s with consumer := .loaded count s.read_head_ }
  | .loaded count r =>
    let avail := s.write_head_ - r
    { s with consumer := .copying count r (min count avail).toNat [] }
  | .copying count r to_read data =>
    if data.length < to_read then
      match s.buf_[slot s r data.length]? with
      | some x => { s with consumer := .copying count r to_read (data ++ [x]) }
      | none => s
    else
      { s with
        read_head_ := r + UInt64.ofNat to_read
        consumer := .idle
        delivered := s.delivered ++ data
        promised := 0
        reads := s.reads ++ [⟨count.toNat, s.promised, to_read⟩] }
  | .available => { s with consumer := .available_loaded s.read_head_ }
  | .available_loaded r =>
    let result := (s.write_head_ - r).toNat
    { s with
      consumer := .idle
      promised := result
      availables := s.availables ++ [⟨contents s, result⟩] }

/-- A call begins where the thread is idle. -/
def step : Action α → System α
  | .write data => if s.producer matches .idle then { s with producer := .write data } else s
  | .producer => producer_step s
  | .read count => if s.consumer matches .idle then { s with consumer := .read count } else s
  | .available => if s.consumer matches .idle then { s with consumer := .available } else s
  | .consumer => consumer_step s

end

end PcmRingBuffer

end AoSdl

/-! The ring is a bounded queue, in whatever order the steps of its two threads come. A thread works with an old head of
the other one, which has moved on since, so that there is more room or more to read than it knows. -/
namespace AoSdl.PcmRingBuffer

open Lib.Runs Lib.BitSmear Lib.StreamSlots

/-! ### Words -/

/-- The distance of two counts, whether their words have wrapped or not. -/
theorem toNat_sub_ofNat {a b : ℕ} (order : a ≤ b) (near : b < a + 2 ^ 64) :
    (UInt64.ofNat b - UInt64.ofNat a).toNat = b - a := by
  rw [UInt64.toNat_sub, UInt64.toNat_ofNat', UInt64.toNat_ofNat']
  omega

theorem ofNat_add (a b : ℕ) : UInt64.ofNat a + UInt64.ofNat b = UInt64.ofNat (a + b) := (UInt64.ofNat_add a b).symm

theorem toNat_shift (v : UInt64) (n : UInt64) (small : n.toNat < 64) : (v ||| v >>> n).toNat = smear v.toNat n.toNat := by
  rw [UInt64.toNat_or, UInt64.toNat_shiftRight, Nat.mod_eq_of_lt small]
  rfl

/-- The constructor takes the least power of two that is not below the capacity, if a word holds it. -/
theorem toNat_next_power_of_2 (v : UInt64) : (next_power_of_2 v).toNat =
    if v.toNat = 0 ∨ 2 ^ 63 < v.toNat then 0 else 2 ^ (v.toNat - 1).size := by
  have smeared := ((((((smeared_one (v - 1).toNat).double).double).double).double).double).double
  have ones := smeared.eq (v - 1).toNat_lt
  have result : (next_power_of_2 v).toNat = 2 ^ (v - 1).toNat.size % 2 ^ 64 := by
    have positive := Nat.two_pow_pos (v - 1).toNat.size
    rw [next_power_of_2, UInt64.toNat_add, UInt64.toNat_one]
    simp (disch := decide) only [toNat_shift]
    rw [← Nat.sub_add_cancel positive, ← ones]
    rfl
  rw [result]
  split
  · next large =>
    have full : (v - 1).toNat.size = 64 := by
      have before : 2 ^ 63 ≤ (v - 1).toNat ∧ (v - 1).toNat < 2 ^ 64 := by
        rw [UInt64.toNat_sub, UInt64.toNat_one]
        have := v.toNat_lt
        omega
      have above := Nat.lt_size.mpr before.1
      have below := Nat.size_le.mpr before.2
      omega
    rw [full, Nat.mod_self]
  · next small =>
    have before : (v - 1).toNat = v.toNat - 1 := by
      rw [UInt64.toNat_sub, UInt64.toNat_one]
      omega
    have below : (v.toNat - 1).size ≤ 63 := Nat.size_le.mpr (by omega)
    rw [before, Nat.mod_eq_of_lt (Nat.pow_lt_pow_right (by decide) (by omega))]

variable {α : Type*} {s : System α}

/-- The slots are as many as a power of two that a word holds, or there are none. -/
def Sized (s : System α) : Prop := s.buf_.length = 0 ∨ ∃ k ≤ 63, s.buf_.length = 2 ^ k

theorem Sized.lt (sized : Sized s) : s.buf_.length < 2 ^ 64 := by
  rcases sized with none | ⟨k, low, power⟩
  · omega
  · rw [power]
    exact Nat.pow_lt_pow_right (by decide) (by omega)

theorem slot_eq (sized : Sized s) (some : 0 < s.buf_.length) (a i : ℕ) :
    slot s (UInt64.ofNat a) i = (a + i) % s.buf_.length := by
  rcases sized with none | ⟨k, low, power⟩
  · omega
  · have positive := Nat.two_pow_pos k
    have small : 2 ^ k < 2 ^ 64 := Nat.pow_lt_pow_right (by decide) (by omega)
    have ones : (mask s).toNat = 2 ^ k - 1 := by
      rw [mask, size, power, UInt64.toNat_sub, UInt64.toNat_ofNat', UInt64.toNat_one]
      omega
    rw [slot, ofNat_add, UInt64.toNat_and, ones, Nat.and_two_pow_sub_one_eq_mod, UInt64.toNat_ofNat', power,
      Nat.mod_mod_of_dvd _ (Nat.pow_dvd_pow 2 (by omega))]

/-! ### The invariant -/

/-- The samples that the call of `write` which is under way has put into slots. -/
def pending (s : System α) : List α :=
  match s.producer with
  | .copying data _ _ i _ => data.take i
  | _ => []

/-- What the producer knows. The free slots that it has counted are still free. -/
def Producing (s : System α) : Prop :=
  match s.producer with
  | .idle => True
  | .write _ => True
  | .loaded _ w => w = UInt64.ofNat s.accepted.length
  | .copying data w to_write i free => w = UInt64.ofNat s.accepted.length ∧ to_write = min data.length free ∧
      i ≤ to_write ∧ s.accepted.length + free ≤ s.delivered.length + s.buf_.length

/-- What the consumer knows. The samples that it has counted are still there. -/
def Consuming (s : System α) : Prop :=
  match s.consumer with
  | .idle => True
  | .read _ => True
  | .loaded _ r => r = UInt64.ofNat s.delivered.length
  | .copying count r to_read data => r = UInt64.ofNat s.delivered.length ∧ min count.toNat s.promised ≤ to_read ∧
      to_read ≤ count.toNat ∧ data.length ≤ to_read ∧ s.delivered.length + to_read ≤ s.accepted.length ∧
      s.delivered ++ data <+: s.accepted
  | .available => True
  | .available_loaded r => r = UInt64.ofNat s.delivered.length

structure Invariant (s : System α) : Prop where
  sized : Sized s
  write_head : s.write_head_ = UInt64.ofNat s.accepted.length
  read_head : s.read_head_ = UInt64.ofNat s.delivered.length
  fifo : s.delivered <+: s.accepted
  bounded : s.accepted.length ≤ s.delivered.length + s.buf_.length
  holds : Holds s.buf_ (s.accepted ++ pending s) s.delivered.length (s.accepted.length + (pending s).length)
  producing : Producing s
  consuming : Consuming s
  promised : s.delivered.length + s.promised ≤ s.accepted.length
  writes : ∀ c ∈ s.writes, c.result = min c.count c.free
  reads : ∀ c ∈ s.reads, min c.count c.promised ≤ c.result ∧ c.result ≤ c.count
  availables : ∀ c ∈ s.availables, c.result = c.present ∧ c.present ≤ s.buf_.length
  written : (s.writes.map Written.result).sum = s.accepted.length
  read : (s.reads.map ReadCall.result).sum = s.delivered.length

theorem Invariant.near (inv : Invariant s) : s.accepted.length < s.delivered.length + 2 ^ 64 := by
  have := inv.bounded
  have := inv.sized.lt
  omega

/-- The distance of the heads is the number of samples that are in the ring. -/
theorem Invariant.distance (inv : Invariant s) :
    (UInt64.ofNat s.accepted.length - UInt64.ofNat s.delivered.length).toNat = contents s :=
  toNat_sub_ofNat inv.fifo.length_le inv.near

theorem new_invariant (capacity : UInt64) (zero : α) : Invariant (new capacity zero) where
  sized := by
    have length : (new capacity zero).buf_.length = (next_power_of_2 capacity).toNat := List.length_replicate
    rw [Sized, length, toNat_next_power_of_2]
    split
    · exact .inl rfl
    · next small => exact .inr ⟨_, Nat.size_le.mpr (by omega), rfl⟩
  write_head := rfl
  read_head := rfl
  fifo := List.nil_prefix
  bounded := Nat.zero_le _
  holds := holds_empty _ _ 0
  producing := trivial
  consuming := trivial
  promised := Nat.le_refl 0
  writes := List.forall_mem_nil _
  reads := List.forall_mem_nil _
  availables := List.forall_mem_nil _
  written := rfl
  read := rfl

/-! ### The steps of the producer -/

theorem pending_of_copying {data : List α} {w : UInt64} {to_write i free : ℕ}
    (here : s.producer = .copying data w to_write i free) : pending s = data.take i := by
  rw [pending, here]

theorem pending_of_ne (other : ∀ data w to_write i free, s.producer ≠ .copying data w to_write i free) :
    pending s = [] := by
  rw [pending]
  split
  · next here => exact absurd here (other _ _ _ _ _)
  · rfl

/-- The samples that the producer finds free are those that are. -/
theorem Invariant.free (inv : Invariant s) :
    (size s - (UInt64.ofNat s.accepted.length - UInt64.ofNat s.delivered.length)).toNat =
      s.buf_.length - contents s := by
  have distance := inv.distance
  have small := inv.sized.lt
  have bounded := inv.bounded
  have whole : (size s).toNat = s.buf_.length := by rw [size, UInt64.toNat_ofNat', Nat.mod_eq_of_lt small]
  have inside : contents s ≤ s.buf_.length := by
    rw [contents]
    omega
  rw [UInt64.toNat_sub, distance, whole]
  omega

theorem Consuming.mono (consuming : Consuming s) {s' : System α} (consumer : s'.consumer = s.consumer)
    (delivered : s'.delivered = s.delivered) (promised : s'.promised = s.promised)
    (more : s.accepted <+: s'.accepted) : Consuming s' := by
  have longer := more.length_le
  rw [Consuming, consumer, delivered, promised]
  rw [Consuming] at consuming
  generalize s.consumer = here at consuming ⊢
  cases here with
  | copying count r to_read data =>
    obtain ⟨head, least, most, copied, there, fifo⟩ := consuming
    exact ⟨head, least, most, copied, there.trans longer, fifo.trans more⟩
  | _ => exact consuming

theorem Producing.mono (producing : Producing s) {s' : System α} (producer : s'.producer = s.producer)
    (accepted : s'.accepted = s.accepted) (buf : s'.buf_ = s.buf_)
    (more : s.delivered.length ≤ s'.delivered.length) : Producing s' := by
  rw [Producing, producer, accepted, buf]
  rw [Producing] at producing
  generalize s.producer = here at producing ⊢
  cases here with
  | copying data w to_write i free =>
    obtain ⟨head, counted, copied, room⟩ := producing
    exact ⟨head, counted, copied, room.trans (Nat.add_le_add_right more _)⟩
  | _ => exact producing

theorem Invariant.copy_write (inv : Invariant s) {data : List α} {w : UInt64} {to_write i free : ℕ}
    (here : s.producer = .copying data w to_write i free) (more : i < to_write) {x : α} (next : data[i]? = some x) :
    Invariant { s with buf_ := s.buf_.set (slot s w i) x, producer := .copying data w to_write (i + 1) free } := by
  have producing := inv.producing
  rw [Producing, here] at producing
  obtain ⟨rfl, counted, copied, room⟩ := producing
  have order := inv.fifo.length_le
  have inside : i < data.length := by omega
  have placed := slot_eq inv.sized (by omega) s.accepted.length i
  have holds := inv.holds
  have taken : (data.take i).length = i := List.length_take_of_le (by omega)
  have taken' : (data.take (i + 1)).length = i + 1 := List.length_take_of_le inside
  rw [pending_of_copying here, taken] at holds
  have stream : ∀ k < s.accepted.length + i, (s.accepted ++ data.take (i + 1))[k]? = (s.accepted ++ data.take i)[k]? := by
    intro k before
    rw [List.take_add_one, ← List.append_assoc]
    apply List.getElem?_append_left
    rw [List.length_append, taken]
    exact before
  have last : (s.accepted ++ data.take (i + 1))[s.accepted.length + i]? = some x := by
    rw [List.getElem?_append_right (Nat.le_add_right ..), Nat.add_sub_cancel_left, List.getElem?_take_of_lt (by omega)]
    exact next
  have set := (holds.congr stream).set (by omega) (by omega) last
  rw [← placed] at set
  exact { inv with
    sized := by
      rw [Sized, List.length_set]
      exact inv.sized
    bounded := by
      simp only [List.length_set]
      exact inv.bounded
    holds := by
      simp only [pending, taken', ← Nat.add_assoc]
      exact set
    producing := by
      simp only [Producing, List.length_set, true_and]
      exact ⟨counted, more, room⟩
    consuming := inv.consuming.mono rfl rfl rfl List.prefix_rfl
    availables := by
      simp only [List.length_set]
      exact inv.availables }

theorem Invariant.store_write (inv : Invariant s) {data : List α} {w : UInt64} {to_write i free : ℕ}
    (here : s.producer = .copying data w to_write i free) (all : ¬i < to_write) :
    Invariant { s with
      write_head_ := w + UInt64.ofNat to_write
      producer := .idle
      accepted := s.accepted ++ data.take to_write
      writes := s.writes ++ [⟨data.length, free, to_write⟩] } := by
  have producing := inv.producing
  rw [Producing, here] at producing
  obtain ⟨rfl, counted, copied, room⟩ := producing
  obtain rfl : i = to_write := by omega
  have holds := inv.holds
  have taken : (data.take i).length = i := List.length_take_of_le (by omega)
  rw [pending_of_copying here, taken] at holds
  have length : (s.accepted ++ data.take i).length = s.accepted.length + i := by rw [List.length_append, taken]
  have grown : s.accepted <+: s.accepted ++ data.take i := List.prefix_append ..
  exact { inv with
    write_head := by
      simp only [length]
      exact ofNat_add ..
    fifo := inv.fifo.trans grown
    bounded := by
      simp only [length]
      omega
    holds := by
      simp only [pending, length, List.append_nil, List.length_nil, Nat.add_zero]
      exact holds
    producing := trivial
    consuming := inv.consuming.mono rfl rfl rfl grown
    promised := inv.promised.trans grown.length_le
    writes := List.forall_mem_append.mpr ⟨inv.writes, List.forall_mem_singleton.mpr counted⟩
    written := by simp [inv.written, taken] }

theorem Invariant.producer_step (inv : Invariant s) : Invariant (producer_step s) := by
  rw [PcmRingBuffer.producer_step]
  split
  · exact inv
  · next data here =>
    have none : pending s = [] := pending_of_ne (by simp [here])
    have holds := inv.holds
    rw [none] at holds
    exact { inv with
      holds := holds
      producing := inv.write_head
      consuming := inv.consuming.mono rfl rfl rfl List.prefix_rfl }
  · next data w here =>
    have none : pending s = [] := pending_of_ne (by simp [here])
    have holds := inv.holds
    have producing := inv.producing
    have bounded := inv.bounded
    have order := inv.fifo.length_le
    rw [Producing, here] at producing
    rw [none] at holds
    obtain rfl : w = UInt64.ofNat s.accepted.length := producing
    have free := inv.free
    rw [← inv.read_head] at free
    simp only [free]
    exact { inv with
      holds := by
        simp only [pending, List.take_zero]
        exact holds
      producing := by
        refine ⟨rfl, rfl, Nat.zero_le _, ?_⟩
        simp only [contents]
        omega
      consuming := inv.consuming.mono rfl rfl rfl List.prefix_rfl }
  · next data w to_write i free here =>
    split
    · next more =>
      split
      · next x next => exact inv.copy_write here more next
      · exact inv
    · next all => exact inv.store_write here all

/-! ### The steps of the consumer -/

theorem append_singleton_isPrefix {l whole : List α} (front : l <+: whole) {x : α} (next : whole[l.length]? = some x) :
    l ++ [x] <+: whole := by
  rw [List.prefix_iff_eq_take] at front ⊢
  rw [List.length_append, List.length_singleton, List.take_add_one, ← front, next]
  rfl

theorem Invariant.copy_read (inv : Invariant s) {count r : UInt64} {to_read : ℕ} {data : List α}
    (here : s.consumer = .copying count r to_read data) (more : data.length < to_read) {x : α}
    (next : s.buf_[slot s r data.length]? = some x) :
    Invariant { s with consumer := .copying count r to_read (data ++ [x]) } := by
  have consuming := inv.consuming
  rw [Consuming, here] at consuming
  obtain ⟨rfl, least, most, copied, there, front⟩ := consuming
  have bounded := inv.bounded
  have inside : s.delivered.length + data.length < s.accepted.length := by omega
  have placed := slot_eq inv.sized (by omega) s.delivered.length data.length
  have held := inv.holds (s.delivered.length + data.length) (by omega) (by omega)
  rw [placed, held, List.getElem?_append_left inside, ← List.length_append] at next
  exact { inv with
    producing := inv.producing.mono rfl rfl rfl (Nat.le_refl _)
    consuming := by
      simp only [Consuming, List.length_append, List.length_singleton, true_and]
      refine ⟨least, most, more, there, ?_⟩
      rw [← List.append_assoc]
      exact append_singleton_isPrefix front next }

theorem Invariant.store_read (inv : Invariant s) {count r : UInt64} {to_read : ℕ} {data : List α}
    (here : s.consumer = .copying count r to_read data) (all : ¬data.length < to_read) :
    Invariant { s with
      read_head_ := r + UInt64.ofNat to_read
      consumer := .idle
      delivered := s.delivered ++ data
      promised := 0
      reads := s.reads ++ [⟨count.toNat, s.promised, to_read⟩] } := by
  have consuming := inv.consuming
  rw [Consuming, here] at consuming
  obtain ⟨rfl, least, most, copied, there, front⟩ := consuming
  obtain rfl : data.length = to_read := by omega
  have bounded := inv.bounded
  have length : (s.delivered ++ data).length = s.delivered.length + data.length := List.length_append
  have later : s.delivered.length ≤ (s.delivered ++ data).length := by omega
  exact { inv with
    read_head := by
      simp only [length]
      exact ofNat_add ..
    fifo := front
    bounded := by
      simp only [length]
      omega
    holds := inv.holds.mono later
    producing := inv.producing.mono rfl rfl rfl later
    consuming := trivial
    promised := front.length_le
    reads := List.forall_mem_append.mpr ⟨inv.reads, List.forall_mem_singleton.mpr ⟨least, most⟩⟩
    read := by simp [inv.read] }

theorem Invariant.consumer_step (inv : Invariant s) : Invariant (consumer_step s) := by
  rw [PcmRingBuffer.consumer_step]
  split
  · exact inv
  · exact { inv with
      producing := inv.producing.mono rfl rfl rfl (Nat.le_refl _)
      consuming := inv.read_head }
  · next count r here =>
    have consuming := inv.consuming
    rw [Consuming, here] at consuming
    obtain rfl : r = UInt64.ofNat s.delivered.length := consuming
    have distance := inv.distance
    have order := inv.fifo.length_le
    have promised := inv.promised
    rw [← inv.write_head] at distance
    exact { inv with
      producing := inv.producing.mono rfl rfl rfl (Nat.le_refl _)
      consuming := by
        simp only [Consuming, UInt64.toNat_min, distance, contents, true_and, List.length_nil, List.append_nil]
        refine ⟨?_, Nat.min_le_left _ _, Nat.zero_le _, ?_, inv.fifo⟩
        · omega
        · omega }
  · next count r to_read data here =>
    split
    · next more =>
      split
      · next x next => exact inv.copy_read here more next
      · exact inv
    · next all => exact inv.store_read here all
  · exact { inv with
      producing := inv.producing.mono rfl rfl rfl (Nat.le_refl _)
      consuming := inv.read_head }
  · next r here =>
    have consuming := inv.consuming
    rw [Consuming, here] at consuming
    obtain rfl : r = UInt64.ofNat s.delivered.length := consuming
    have distance := inv.distance
    have order := inv.fifo.length_le
    have bounded := inv.bounded
    rw [← inv.write_head] at distance
    have inside : contents s ≤ s.buf_.length := by
      rw [contents]
      omega
    exact { inv with
      producing := inv.producing.mono rfl rfl rfl (Nat.le_refl _)
      consuming := trivial
      promised := by
        simp only [distance, contents]
        omega
      availables := List.forall_mem_append.mpr ⟨inv.availables, List.forall_mem_singleton.mpr ⟨distance, inside⟩⟩ }

theorem Invariant.step (inv : Invariant s) (a : Action α) : Invariant (step s a) := by
  cases a with
  | write data =>
    rw [PcmRingBuffer.step]
    split
    · next idle =>
      have holds := inv.holds
      rw [pending_of_ne (by simp [idle])] at holds
      exact { inv with
        holds := holds
        producing := trivial
        consuming := inv.consuming.mono rfl rfl rfl List.prefix_rfl }
    · exact inv
  | producer => exact inv.producer_step
  | read count =>
    rw [PcmRingBuffer.step]
    split
    · exact { inv with
        producing := inv.producing.mono rfl rfl rfl (Nat.le_refl _)
        consuming := trivial }
    · exact inv
  | available =>
    rw [PcmRingBuffer.step]
    split
    · exact { inv with
        producing := inv.producing.mono rfl rfl rfl (Nat.le_refl _)
        consuming := trivial }
    · exact inv
  | consumer => exact inv.consumer_step

theorem run_invariant (capacity : UInt64) (zero : α) (actions : List (Action α)) :
    Invariant (run step (new capacity zero) actions) := by
  apply invariant_run
  · exact fun _ a inv => inv.step a
  · exact new_invariant capacity zero

/-! ### The queue -/

def queue (s : System α) : List α := s.accepted.drop s.delivered.length

/-- The steps of one thread that are left of its call. -/
def Producer.left : Producer α → ℕ
  | .idle => 0
  | .write data => data.length + 3
  | .loaded data _ => data.length + 2
  | .copying _ _ to_write i _ => to_write - i + 1

def Consumer.left : Consumer α → ℕ
  | .idle => 0
  | .read count => count.toNat + 3
  | .loaded count _ => count.toNat + 2
  | .copying _ _ to_read data => to_read - data.length + 1
  | .available => 2
  | .available_loaded _ => 1

/-- One step of either thread is a step of the bounded queue. -/
def Simulates (s s' : System α) : Prop :=
  ∃ added removed, Lib.BoundedQueue.Step s.buf_.length (queue s) added removed (queue s') ∧
    s'.accepted = s.accepted ++ added ∧ s'.delivered = s.delivered ++ removed

theorem simulates_of_same {s' : System α} (accepted : s'.accepted = s.accepted) (delivered : s'.delivered = s.delivered) :
    Simulates s s' := by
  refine ⟨[], [], ?_, ?_, ?_⟩
  · rw [queue, queue, accepted, delivered]
    exact .stay _
  · rw [accepted, List.append_nil]
  · rw [delivered, List.append_nil]

theorem Invariant.simulates_producer (inv : Invariant s) : Simulates s (PcmRingBuffer.producer_step s) := by
  rw [PcmRingBuffer.producer_step]
  split
  · exact simulates_of_same rfl rfl
  · exact simulates_of_same rfl rfl
  · exact simulates_of_same rfl rfl
  · next data w to_write i free here =>
    split
    · split
      · exact simulates_of_same rfl rfl
      · exact simulates_of_same rfl rfl
    · have producing := inv.producing
      have order := inv.fifo.length_le
      rw [Producing, here] at producing
      have grown : queue s ++ data.take to_write = (s.accepted ++ data.take to_write).drop s.delivered.length :=
        (List.drop_append_of_le_length order).symm
      refine ⟨data.take to_write, [], ?_, rfl, (List.append_nil _).symm⟩
      simp only [queue] at grown ⊢
      rw [← grown]
      apply Lib.BoundedQueue.Step.enqueue
      rw [List.length_drop, List.length_take]
      omega

theorem Invariant.simulates_consumer (inv : Invariant s) : Simulates s (PcmRingBuffer.consumer_step s) := by
  rw [PcmRingBuffer.consumer_step]
  split
  · exact simulates_of_same rfl rfl
  · exact simulates_of_same rfl rfl
  · exact simulates_of_same rfl rfl
  · next count r to_read data here =>
    split
    · split
      · exact simulates_of_same rfl rfl
      · exact simulates_of_same rfl rfl
    · have consuming := inv.consuming
      rw [Consuming, here] at consuming
      obtain ⟨rest, whole⟩ := consuming.2.2.2.2.2
      refine ⟨[], data, ?_, (List.append_nil _).symm, rfl⟩
      simp only [queue, ← whole, List.drop_left]
      rw [List.append_assoc, List.drop_left]
      exact .dequeue data rest
  · exact simulates_of_same rfl rfl
  · exact simulates_of_same rfl rfl

theorem Invariant.simulates (inv : Invariant s) (a : Action α) : Simulates s (PcmRingBuffer.step s a) := by
  cases a with
  | producer => exact inv.simulates_producer
  | consumer => exact inv.simulates_consumer
  | _ =>
    rw [PcmRingBuffer.step]
    split
    · exact simulates_of_same rfl rfl
    · exact simulates_of_same rfl rfl

theorem Invariant.write_goes_on (inv : Invariant s) (busy : s.producer ≠ .idle) :
    (PcmRingBuffer.producer_step s).producer.left < s.producer.left := by
  have producing := inv.producing
  rw [PcmRingBuffer.producer_step]
  rw [Producing] at producing
  split
  · contradiction
  · next here => simp [here, Producer.left]
  · next data w here =>
    simp only [here, Producer.left]
    omega
  · next data w to_write i free here =>
    rw [here] at producing
    split
    · next more =>
      have inside : i < data.length := by omega
      simp only [List.getElem?_eq_getElem inside, here, Producer.left]
      omega
    · simp [here, Producer.left]

theorem Invariant.read_goes_on (inv : Invariant s) (busy : s.consumer ≠ .idle) :
    (PcmRingBuffer.consumer_step s).consumer.left < s.consumer.left := by
  have consuming := inv.consuming
  have bounded := inv.bounded
  rw [PcmRingBuffer.consumer_step]
  rw [Consuming] at consuming
  split
  · contradiction
  · next here => simp [here, Consumer.left]
  · next count r here =>
    simp only [here, Consumer.left, UInt64.toNat_min, List.length_nil]
    omega
  · next count r to_read data here =>
    rw [here] at consuming
    split
    · next more =>
      obtain ⟨rfl, least, most, copied, there, front⟩ := consuming
      have some : 0 < s.buf_.length := by omega
      have inside : slot s (UInt64.ofNat s.delivered.length) data.length < s.buf_.length := by
        rw [slot_eq inv.sized some]
        exact Nat.mod_lt _ some
      simp only [List.getElem?_eq_getElem inside, here, Consumer.left, List.length_append, List.length_singleton]
      omega
    · simp [here, Consumer.left]
  · next here => simp [here, Consumer.left]
  · next here => simp [here, Consumer.left]

theorem length_step (s : System α) (a : Action α) : (step s a).buf_.length = s.buf_.length := by
  cases a with
  | producer =>
    simp only [step, producer_step]
    split
    · rfl
    · rfl
    · rfl
    · split
      · split
        · exact List.length_set
        · rfl
      · rfl
  | consumer =>
    simp only [step, consumer_step]
    split
    · rfl
    · rfl
    · rfl
    · split
      · split
        · rfl
        · rfl
      · rfl
    · rfl
    · rfl
  | _ =>
    simp only [step]
    split
    · rfl
    · rfl

/-- The capacity rounded up to a power of two, where a word holds that. -/
def rounded (capacity : ℕ) : ℕ := if capacity = 0 ∨ 2 ^ 63 < capacity then 0 else 2 ^ Nat.clog 2 capacity

theorem length_new (capacity : UInt64) (zero : α) : (new capacity zero).buf_.length = rounded capacity.toNat := by
  have length : (new capacity zero).buf_.length = (next_power_of_2 capacity).toNat := List.length_replicate
  rw [length, toNat_next_power_of_2, rounded]
  split
  · rfl
  · next small =>
    obtain ⟨above, least⟩ := pow_size_pred (v := capacity.toNat) (by omega)
    apply Nat.le_antisymm
    · exact least _ (Nat.le_pow_clog (by decide) _)
    · exact Nat.pow_le_pow_right (by decide) (Nat.clog_le_of_le_pow above)

theorem length_run (capacity : UInt64) (zero : α) (actions : List (Action α)) :
    (run step (new capacity zero) actions).buf_.length = rounded capacity.toNat := by
  have kept : ∀ (s : System α) (a : Action α), s.buf_.length = rounded capacity.toNat →
      (step s a).buf_.length = rounded capacity.toNat := fun s a length => (length_step s a).trans length
  exact invariant_run kept (length_new capacity zero) actions

/-- What the ring is to both of its threads. -/
structure Refines (s : System α) : Prop where
  /-- The samples that were read are the first ones of those that were written. -/
  fifo : s.delivered <+: s.accepted
  simulates : ∀ a, Simulates s (step s a)
  /-- A sample that has not been read is in its slot. -/
  unread : Holds s.buf_ s.accepted s.delivered.length s.accepted.length
  written : (s.writes.map Written.result).sum = s.accepted.length
  read : (s.reads.map ReadCall.result).sum = s.delivered.length
  writes : ∀ c ∈ s.writes, c.result = min c.count c.free
  reads : ∀ c ∈ s.reads, min c.count c.promised ≤ c.result ∧ c.result ≤ c.count
  availables : ∀ c ∈ s.availables, c.result = c.present ∧ c.result ≤ s.buf_.length
  /-- A thread never stands still in a call. -/
  write_goes_on : s.producer ≠ .idle → (producer_step s).producer.left < s.producer.left
  read_goes_on : s.consumer ≠ .idle → (consumer_step s).consumer.left < s.consumer.left

theorem Invariant.refines (inv : Invariant s) : Refines s where
  fifo := inv.fifo
  simulates := inv.simulates
  unread := by
    intro k low high
    rw [inv.holds k low (by omega), List.getElem?_append_left high]
  written := inv.written
  read := inv.read
  writes := inv.writes
  reads := inv.reads
  availables := by
    intro c member
    obtain ⟨exact, inside⟩ := inv.availables c member
    exact ⟨exact, exact ▸ inside⟩
  write_goes_on := inv.write_goes_on
  read_goes_on := inv.read_goes_on

/-- The ring is a queue of the capacity rounded up to a power of two, after any steps of its two threads. -/
theorem refines_bounded_queue (capacity : UInt64) (zero : α) (actions : List (Action α)) :
    Refines (run step (new capacity zero) actions) ∧
      (run step (new capacity zero) actions).buf_.length = rounded capacity.toNat :=
  ⟨(run_invariant capacity zero actions).refines, length_run capacity zero actions⟩

/-- A ring of capacity 3 has 4 slots. -/
theorem four_in_three :
    let fill : List (Action ℕ) := .write [7, 7, 7, 7] :: List.replicate 7 .producer
    let s := run step (new 3 0) (fill ++ [.available, .consumer, .consumer])
    ¬∀ c ∈ s.availables, c.result ≤ 3 := by
  decide

end AoSdl.PcmRingBuffer
