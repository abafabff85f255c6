/-!
# Machine words

Machine words. Positions, counters and whole numbers are words of 64 bits; inside the library they
are plain numbers, and the bounds matter where something is read from the outside. Longer numbers
are rows of bytes.
-/

namespace CoEdit.Word

/-- How many words there are. -/
def count : Nat := 0x10000000000000000

/-- The first word with the sign bit set. -/
def signBit : Nat := 0x8000000000000000

def unsigned? (n : Int) : Option Nat := if 0 ≤ n ∧ n < count then some n.toNat else none

def signed? (n : Int) : Option Int64 :=
  if -(signBit : Int) ≤ n ∧ n < signBit then some (Int64.ofInt n) else none

/-- An unsigned word read with a sign. -/
def withSign (n : Nat) : Int := Int.bmod n count

/-- The last `size` bytes of a number, the highest first. -/
def bytes : (size : Nat) → Nat → List UInt8
  | 0, _ => []
  | size + 1, n => bytes size (n / 256) ++ [UInt8.ofNat n]

/-- The number whose bytes are given, the highest first. -/
def ofBytes (bs : List UInt8) : Nat := bs.foldl (fun n b => 256 * n + b.toNat) 0

theorem withSign_of_lt {n : Nat} (h : n < signBit) : withSign n = n := by
  simp only [signBit] at h
  exact Int.bmod_eq_of_le_mul_two (by simp only [count]; omega) (by simp only [count]; omega)

theorem unsigned?_of_lt {n : Nat} (h : n < count) : unsigned? n = some n := by
  rw [unsigned?, if_pos ⟨Int.natCast_nonneg n, Int.ofNat_lt.mpr h⟩, Int.toNat_natCast]

theorem signed?_toInt (n : Int64) : signed? n.toInt = some n := by
  have low := n.le_toInt
  have high := n.toInt_lt
  rw [signed?, if_pos, Int64.ofInt_toInt]
  simp only [signBit]
  omega

theorem length_bytes (size n : Nat) : (bytes size n).length = size := by
  induction size generalizing n with
  | zero => rfl
  | succ size ih => simp [bytes, ih]

example : withSign 0xffffffffffffffff = -1 := by decide

example : bytes 4 0x010203 = [0, 1, 2, 3] := by decide

end CoEdit.Word
