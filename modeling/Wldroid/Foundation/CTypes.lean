import Mathlib.Tactic

/-!
# C strings, sizes and integers

`size_t` values of a 64-bit target are naturals below `2 ^ 64`; their sums and differences wrap.  A
C string is a list of non-zero bytes, shorter than half the address space as every object is.  Where
an `int` meets a `size_t`, both have their fixed-width types: `sizeOfInt` and `intOfSize` convert.
-/

namespace Wldroid.Foundation

/-- `a + b` for two `size_t`. -/
def sizeAdd (a b : ℕ) : ℕ := (a + b) % 2 ^ 64

/-- `a - b` for two `size_t`. -/
def sizeSub (a b : ℕ) : ℕ := (a + 2 ^ 64 - b) % 2 ^ 64

theorem sizeAdd_eq {a b : ℕ} (h : a + b < 2 ^ 64) : sizeAdd a b = a + b := Nat.mod_eq_of_lt h

theorem sizeSub_eq {a b : ℕ} (hb : b ≤ a) (ha : a < 2 ^ 64) : sizeSub a b = a - b := by
  have hshift : a + 2 ^ 64 - b = a - b + 2 ^ 64 := by omega
  rw [sizeSub, hshift, Nat.add_mod_right]
  exact Nat.mod_eq_of_lt (by omega)

/-- An `int` as a `size_t`, with its sign. -/
def sizeOfInt (x : Int32) : UInt64 := x.toInt64.toUInt64

/-- The low half of a `size_t` as an `int`. -/
def intOfSize (x : UInt64) : Int32 := x.toInt64.toInt32

theorem sizeOfInt_toNat {x : Int32} (h : 0 ≤ x.toInt) : ((sizeOfInt x).toNat : ℤ) = x.toInt := by
  have hwide : 0 ≤ x.toInt64 := by
    rw [Int64.le_iff_toInt_le, Int32.toInt_toInt64]
    exact h
  unfold sizeOfInt
  rw [Int64.toNat_toUInt64_of_le hwide, Int64.cast_toNatClampNeg x.toInt64 hwide,
    Int32.toInt_toInt64]

theorem intOfSize_toInt (x : UInt64) : (intOfSize x).toInt = (x.toNat : ℤ).bmod (2 ^ 32) := by
  have hwide : x.toInt64.toInt = (x.toNat : ℤ).bmod (2 ^ 64) := by
    rw [← Int64.toInt_toBitVec, UInt64.toBitVec_toInt64, BitVec.toInt_eq_toNat_bmod]
    rfl
  unfold intOfSize
  rw [Int64.toInt_toInt32, hwide, Int.bmod_bmod_of_dvd (by decide)]

/-- A small `size_t` is the same `int`. -/
theorem intOfSize_eq {x : UInt64} (h : (x.toNat : ℤ) < 2 ^ 31) : (intOfSize x).toInt = x.toNat := by
  rw [intOfSize_toInt]
  exact Int.bmod_eq_of_le (by omega) (by omega)

/-- A product that fits. -/
theorem int_mul_toInt {a b : Int32} (hlow : 0 ≤ a.toInt * b.toInt)
    (hhigh : a.toInt * b.toInt < 2 ^ 31) : (a * b).toInt = a.toInt * b.toInt := by
  rw [Int32.toInt_mul]
  exact Int.bmod_eq_of_le (by omega) (by omega)

/-- A NUL-terminated string, without its terminator. -/
structure CString where
  bytes : List UInt8
  no_nul : 0 ∉ bytes
  fits : bytes.length < 2 ^ 63
  deriving DecidableEq

/-- The literal `""`. -/
def CString.empty : CString := ⟨[], by simp, by simp⟩

/-- `strlen`. -/
def CString.strlen (s : CString) : ℕ := s.bytes.length

end Wldroid.Foundation
