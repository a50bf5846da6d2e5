import Mathlib.Tactic

/-!
# UTF-8 in bytes and bits

The encoding of a list of code points, and what the bit masks of a C decoder give on it: which of
the four forms a leading byte announces (`leading_two`, `leading_three`, `leading_four`) and how the
payload bits put the code point together again (`payload_two`, `payload_three`, `payload_four`).
-/

namespace Wldroid.Foundation

/-- The UTF-8 encoding of some code points. -/
def utf8Encode (l : List Char) : List UInt8 := l.flatMap String.utf8EncodeChar

@[simp] theorem utf8Encode_nil : utf8Encode [] = [] := rfl

@[simp] theorem utf8Encode_cons (c : Char) (l : List Char) :
    utf8Encode (c :: l) = String.utf8EncodeChar c ++ utf8Encode l := rfl

@[simp] theorem utf8Encode_append (l l' : List Char) :
    utf8Encode (l ++ l') = utf8Encode l ++ utf8Encode l' := List.flatMap_append ..

/-- How many 16-bit units UTF-16 takes for a code point. -/
def utf16Size (c : Char) : ℕ := if c.toNat ≤ 0xFFFF then 1 else 2

/-- The bytes of a code point, as numbers. -/
def utf8Bytes (v : ℕ) : List ℕ :=
  if v ≤ 0x7F then [v]
  else if v ≤ 0x7FF then [v / 64 + 0xC0, v % 64 + 0x80]
  else if v ≤ 0xFFFF then [v / 4096 + 0xE0, v / 64 % 64 + 0x80, v % 64 + 0x80]
  else [v / 262144 + 0xF0, v / 4096 % 64 + 0x80, v / 64 % 64 + 0x80, v % 64 + 0x80]

theorem val_lt (c : Char) : c.val.toNat < 0x110000 := by
  rcases c.valid with hlow | ⟨-, hhigh⟩
  · exact Nat.lt_trans hlow (by decide)
  · exact hhigh

theorem toNat_utf8EncodeChar (c : Char) :
    (String.utf8EncodeChar c).map UInt8.toNat = utf8Bytes c.toNat := by
  have hv := val_lt c
  show (String.utf8EncodeChar c).map UInt8.toNat = utf8Bytes c.val.toNat
  unfold String.utf8EncodeChar utf8Bytes
  generalize c.val.toNat = v at hv
  simp only
  split
  · simp
    omega
  · split
    · simp
      omega
    · split
      · simp
        omega
      · simp
        omega

/-! ### Leading bytes -/

theorem leading_two {k : ℕ} (hk : k < 32) : (k + 0xC0) &&& 0xE0 = 0xC0 := by
  have hall : ∀ k < 32, (k + 0xC0) &&& 0xE0 = 0xC0 := by decide
  exact hall k hk

theorem leading_three {k : ℕ} (hk : k < 16) :
    (k + 0xE0) &&& 0xE0 ≠ 0xC0 ∧ (k + 0xE0) &&& 0xF0 = 0xE0 := by
  have hall : ∀ k < 16, (k + 0xE0) &&& 0xE0 ≠ 0xC0 ∧ (k + 0xE0) &&& 0xF0 = 0xE0 := by decide
  exact hall k hk

theorem leading_four {k : ℕ} (hk : k < 8) :
    (k + 0xF0) &&& 0xE0 ≠ 0xC0 ∧ (k + 0xF0) &&& 0xF0 ≠ 0xE0 ∧ (k + 0xF0) &&& 0xF8 = 0xF0 := by
  have hall : ∀ k < 8, (k + 0xF0) &&& 0xE0 ≠ 0xC0 ∧ (k + 0xF0) &&& 0xF0 ≠ 0xE0 ∧
      (k + 0xF0) &&& 0xF8 = 0xF0 := by decide
  exact hall k hk

/-! ### Payloads -/

theorem mask_leading {k n high : ℕ} (hk : k < 2 ^ n) (hhigh : high % 2 ^ n = 0) :
    (k + high) &&& (2 ^ n - 1) = k := by
  rw [Nat.and_two_pow_sub_one_eq_mod, Nat.add_mod, hhigh, Nat.add_zero, Nat.mod_mod,
    Nat.mod_eq_of_lt hk]

theorem payload_two {v : ℕ} (hv : v ≤ 0x7FF) :
    ((v / 64 + 0xC0) &&& 0x1F) <<< 6 ||| ((v % 64 + 0x80) &&& 0x3F) = v := by
  rw [show 0x1F = 2 ^ 5 - 1 from rfl, show 0x3F = 2 ^ 6 - 1 from rfl,
    mask_leading (by omega) (by decide), mask_leading (by omega) (by decide),
    ← Nat.shiftLeft_add_eq_or_of_lt (by omega), Nat.shiftLeft_eq]
  omega

theorem payload_three {v : ℕ} (hv : v ≤ 0xFFFF) :
    ((v / 4096 + 0xE0) &&& 0x0F) <<< 12 ||| ((v / 64 % 64 + 0x80) &&& 0x3F) <<< 6 |||
      ((v % 64 + 0x80) &&& 0x3F) = v := by
  rw [show 0x0F = 2 ^ 4 - 1 from rfl, show 0x3F = 2 ^ 6 - 1 from rfl,
    mask_leading (by omega) (by decide), mask_leading (by omega) (by decide),
    mask_leading (by omega) (by decide), Nat.or_assoc,
    ← Nat.shiftLeft_add_eq_or_of_lt (show v % 64 < 2 ^ 6 by omega),
    ← Nat.shiftLeft_add_eq_or_of_lt (by rw [Nat.shiftLeft_eq]; omega), Nat.shiftLeft_eq,
    Nat.shiftLeft_eq]
  omega

theorem payload_four {v : ℕ} (hv : v < 0x110000) :
    ((v / 262144 + 0xF0) &&& 0x07) <<< 18 ||| ((v / 4096 % 64 + 0x80) &&& 0x3F) <<< 12 |||
      ((v / 64 % 64 + 0x80) &&& 0x3F) <<< 6 ||| ((v % 64 + 0x80) &&& 0x3F) = v := by
  rw [show 0x07 = 2 ^ 3 - 1 from rfl, show 0x3F = 2 ^ 6 - 1 from rfl,
    mask_leading (by omega) (by decide), mask_leading (by omega) (by decide),
    mask_leading (by omega) (by decide), mask_leading (by omega) (by decide), Nat.or_assoc,
    Nat.or_assoc, ← Nat.shiftLeft_add_eq_or_of_lt (show v % 64 < 2 ^ 6 by omega),
    ← Nat.shiftLeft_add_eq_or_of_lt (show (v / 64 % 64) <<< 6 + v % 64 < 2 ^ 12 by
      rw [Nat.shiftLeft_eq]; omega),
    ← Nat.shiftLeft_add_eq_or_of_lt (by simp only [Nat.shiftLeft_eq]; omega)]
  simp only [Nat.shiftLeft_eq]
  omega

end Wldroid.Foundation
