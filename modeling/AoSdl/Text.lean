import AoSdl.Lib.Decimal

/-! Byte strings: `std::string` and the standard functions the server applies to it. -/
namespace AoSdl

abbrev Bytes := List UInt8

instance : LawfulBEq Bytes := inferInstance

/-- A line ends with two different characters. -/
theorem cr_ne_lf : (13 : UInt8) ≠ 10 := by decide

def bytes (s : String) : Bytes := s.toUTF8.data.toList

/-- What is left of a string handed over as a null-terminated one. -/
def c_str (s : Bytes) : Bytes := s.takeWhile (· != 0)

def tolower (c : UInt8) : UInt8 := if 65 ≤ c && c ≤ 90 then c + 32 else c

def toupper (c : UInt8) : UInt8 := if 97 ≤ c && c ≤ 122 then c - 32 else c

def to_string (n : Int) : Bytes := Lib.Decimal.text n

/-- `none` stands for the exceptions of `std::stoi`. -/
def stoi (s : Bytes) : Option Int :=
  (Lib.Decimal.read s).filter fun n => -2 ^ 31 ≤ n && n < 2 ^ 31

def stoll (s : Bytes) : Option Int :=
  (Lib.Decimal.read s).filter fun n => -2 ^ 63 ≤ n && n < 2 ^ 63

/-- A minus sign negates within the type. -/
def stoul (s : Bytes) : Option UInt64 :=
  ((Lib.Decimal.read s).filter fun n => n.natAbs < 2 ^ 64).map UInt64.ofInt

/-- As wide as `stoul` where the server runs. -/
def stoull (s : Bytes) : Option UInt64 := stoul s

/-- Reduction of an integer to the range of `int64_t`. -/
def wrap64 (n : Int) : Int := n.bmod (2 ^ 64)

def wrap32 (n : Int) : Int := n.bmod (2 ^ 32)

/-- Conversion of a container's size to `int`. -/
def intOfSize (n : Nat) : Int := (n : Int).bmod (2 ^ 32)

theorem c_str_eq {s : Bytes} (clean : 0 ∉ s) : c_str s = s := by
  refine List.takeWhile_eq_self_iff.mpr fun c member => ?_
  have other : c ≠ 0 := fun zero => clean (zero ▸ member)
  simpa using other

theorem stoi_to_string {n : Int} (low : -2 ^ 31 ≤ n) (high : n < 2 ^ 31) :
    stoi (to_string n) = some n := by
  simp [stoi, to_string, Lib.Decimal.read_text]
  omega

theorem stoll_to_string {n : Int} (low : -2 ^ 63 ≤ n) (high : n < 2 ^ 63) :
    stoll (to_string n) = some n := by
  simp [stoll, to_string, Lib.Decimal.read_text]
  omega

theorem wrap64_range (n : Int) : -2 ^ 63 ≤ wrap64 n ∧ wrap64 n < 2 ^ 63 := by
  have low := Int.le_bmod (x := n) (m := 2 ^ 64) (by decide)
  have high := Int.bmod_lt (x := n) (m := 2 ^ 64) (by decide)
  unfold wrap64
  omega

theorem intOfSize_le (n : Nat) : intOfSize n ≤ n := by
  unfold intOfSize
  have := Int.bmod_le (x := n) (m := 2 ^ 32) (by decide)
  by_cases small : (n : Int) < 2 ^ 31
  · rw [Int.bmod_eq_of_le (by omega) (by omega)]
  · have high := Int.bmod_lt (x := n) (m := 2 ^ 32) (by decide)
    omega

end AoSdl
