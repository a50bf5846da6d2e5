import Wldroid.Foundation.CTypes
import Wldroid.Foundation.Utf8

/-!
# Java strings in C

A Java string is a list of 16-bit units, and native code sees it in modified UTF-8: unit by unit,
with two bytes for U+0000 and three for each half of a surrogate pair.

* `utf16Encode` — the units of some code points;
* `JavaString`, `getStringUTFChars` — the string, and the C string it gives;
* `length_modifiedUtf8` — the difference to UTF-8 in bytes;
* `modifiedUtf8_eq_iff` — the two encodings agree exactly in the basic plane.
-/

namespace Wldroid.Foundation

/-! ### Encodings -/

/-- The 16-bit units of a code point: one, or a surrogate pair. -/
def utf16Units (c : Char) : List UInt16 :=
  if c.toNat ≤ 0xFFFF then [UInt16.ofNat c.toNat]
  else
    [UInt16.ofNat (0xD800 + (c.toNat - 0x10000) / 1024),
      UInt16.ofNat (0xDC00 + (c.toNat - 0x10000) % 1024)]

/-- The UTF-16 encoding of some code points. -/
def utf16Encode (l : List Char) : List UInt16 := l.flatMap utf16Units

/-- The bytes of a unit in modified UTF-8. -/
def modifiedUtf8Bytes (u : ℕ) : List ℕ :=
  if 1 ≤ u ∧ u ≤ 0x7F then [u]
  else if u ≤ 0x7FF then [u / 64 + 0xC0, u % 64 + 0x80]
  else [u / 4096 + 0xE0, u / 64 % 64 + 0x80, u % 64 + 0x80]

/-- Modified UTF-8. -/
def modifiedUtf8 (units : List UInt16) : List UInt8 :=
  units.flatMap fun u => (modifiedUtf8Bytes u.toNat).map UInt8.ofNat

theorem modifiedUtf8_append (us vs : List UInt16) :
    modifiedUtf8 (us ++ vs) = modifiedUtf8 us ++ modifiedUtf8 vs := List.flatMap_append

theorem utf16Encode_cons (c : Char) (l : List Char) :
    utf16Encode (c :: l) = utf16Units c ++ utf16Encode l := rfl

/-! ### Strings -/

/-- The units of a `java.lang.String`, which has an `int` for its length. -/
structure JavaString where
  units : List UInt16
  length_lt : units.length < 2 ^ 31

/-- The bytes of modified UTF-8 are bytes, and none is zero. -/
theorem bounds_of_mem_modifiedUtf8Bytes {u b : ℕ} (hu : u < 2 ^ 16)
    (hb : b ∈ modifiedUtf8Bytes u) : 1 ≤ b ∧ b < 256 := by
  unfold modifiedUtf8Bytes at hb
  split at hb
  · simp only [List.mem_singleton] at hb
    omega
  · split at hb
    · simp only [List.mem_cons, List.not_mem_nil, or_false] at hb
      omega
    · simp only [List.mem_cons, List.not_mem_nil, or_false] at hb
      omega

theorem ofNat_ne_zero_of_mem {u b : ℕ} (hu : u < 2 ^ 16) (hb : b ∈ modifiedUtf8Bytes u) :
    UInt8.ofNat b ≠ 0 := by
  have hbounds := bounds_of_mem_modifiedUtf8Bytes hu hb
  intro hzero
  have htoNat := congrArg UInt8.toNat hzero
  rw [UInt8.toNat_ofNat', Nat.mod_eq_of_lt hbounds.2] at htoNat
  exact absurd htoNat (Nat.one_le_iff_ne_zero.mp hbounds.1)

theorem length_modifiedUtf8Bytes_le (u : ℕ) : (modifiedUtf8Bytes u).length ≤ 3 := by
  unfold modifiedUtf8Bytes
  split
  · simp
  · split <;> simp

theorem length_modifiedUtf8_le (units : List UInt16) :
    (modifiedUtf8 units).length ≤ 3 * units.length := by
  induction units with
  | nil => simp [modifiedUtf8]
  | cons u units ih =>
    have hu := length_modifiedUtf8Bytes_le u.toNat
    have hcons : (modifiedUtf8 (u :: units)).length =
        (modifiedUtf8Bytes u.toNat).length + (modifiedUtf8 units).length := by
      simp [modifiedUtf8]
    rw [hcons, List.length_cons]
    omega

/-- `GetStringUTFChars`. -/
def getStringUTFChars (s : JavaString) : CString where
  bytes := modifiedUtf8 s.units
  no_nul := by
    intro hmem
    obtain ⟨u, -, hb⟩ := List.mem_flatMap.mp hmem
    obtain ⟨b, hb, hzero⟩ := List.mem_map.mp hb
    exact ofNat_ne_zero_of_mem u.toNat_lt hb hzero
  fits := by
    have hle := length_modifiedUtf8_le s.units
    have hlt := s.length_lt
    omega

/-! ### Against UTF-8 -/

theorem modifiedUtf8Bytes_eq_utf8Bytes {u : ℕ} (hzero : u ≠ 0) (hu : u ≤ 0xFFFF) :
    modifiedUtf8Bytes u = utf8Bytes u := by
  unfold modifiedUtf8Bytes utf8Bytes
  by_cases hone : u ≤ 0x7F
  · rw [if_pos ⟨by omega, hone⟩, if_pos hone]
  · rw [if_neg fun h => hone h.2, if_neg hone, if_pos hu]

/-- In the basic plane a code point has the same bytes in both. -/
theorem modifiedUtf8_utf16Units {c : Char} (hzero : c.toNat ≠ 0) (hc : c.toNat ≤ 0xFFFF) :
    modifiedUtf8 (utf16Units c) = String.utf8EncodeChar c := by
  have hunit : (UInt16.ofNat c.toNat).toNat = c.toNat := by
    rw [UInt16.toNat_ofNat']
    exact Nat.mod_eq_of_lt (by omega)
  have hround : ((String.utf8EncodeChar c).map UInt8.toNat).map UInt8.ofNat =
      String.utf8EncodeChar c := by
    rw [List.map_map]
    have hid : UInt8.ofNat ∘ UInt8.toNat = id := by
      funext b
      exact UInt8.ofNat_toNat
    rw [hid, List.map_id]
  rw [utf16Units, if_pos hc, modifiedUtf8, List.flatMap_singleton, hunit,
    modifiedUtf8Bytes_eq_utf8Bytes hzero hc, ← toNat_utf8EncodeChar, hround]

/-- A surrogate pair takes six bytes, its code point four. -/
theorem length_modifiedUtf8_utf16Units {c : Char} (hzero : c.toNat ≠ 0) :
    (modifiedUtf8 (utf16Units c)).length =
      (String.utf8EncodeChar c).length + if c.toNat ≤ 0xFFFF then 0 else 2 := by
  by_cases hc : c.toNat ≤ 0xFFFF
  · rw [modifiedUtf8_utf16Units hzero hc, if_pos hc, Nat.add_zero]
  · have hv : c.toNat < 0x110000 := val_lt c
    have hthree : ∀ u, 0x800 ≤ u → u < 2 ^ 16 →
        ((modifiedUtf8Bytes (UInt16.ofNat u).toNat).map UInt8.ofNat).length = 3 := by
      intro u hlow hhigh
      rw [UInt16.toNat_ofNat', Nat.mod_eq_of_lt hhigh, List.length_map, modifiedUtf8Bytes,
        if_neg (by omega), if_neg (by omega)]
      rfl
    have hfour : (String.utf8EncodeChar c).length = 4 := by
      rw [← List.length_map (f := UInt8.toNat), toNat_utf8EncodeChar, utf8Bytes,
        if_neg (by omega), if_neg (by omega), if_neg hc]
      rfl
    rw [if_neg hc, hfour, utf16Units, if_neg hc, modifiedUtf8, List.flatMap_cons,
      List.flatMap_singleton, List.length_append, hthree _ (by omega) (by omega),
      hthree _ (by omega) (by omega)]

/-- **What surrogate pairs cost**, in bytes. -/
theorem length_modifiedUtf8 {l : List Char} (hzero : ∀ c ∈ l, c.toNat ≠ 0) :
    (modifiedUtf8 (utf16Encode l)).length =
      (utf8Encode l).length + 2 * l.countP fun c => decide (0xFFFF < c.toNat) := by
  induction l with
  | nil => rfl
  | cons c l ih =>
    rw [utf16Encode_cons, modifiedUtf8_append, List.length_append,
      length_modifiedUtf8_utf16Units (hzero c List.mem_cons_self),
      ih fun d hd => hzero d (List.mem_cons_of_mem c hd), utf8Encode_cons, List.length_append,
      List.countP_cons]
    by_cases hc : c.toNat ≤ 0xFFFF
    · rw [if_pos hc, if_neg (by simpa using hc)]
      omega
    · rw [if_neg hc, if_pos (by simpa using hc)]
      omega

/-- **Modified UTF-8 is UTF-8 in the basic plane only.** -/
theorem modifiedUtf8_eq_iff {l : List Char} (hzero : ∀ c ∈ l, c.toNat ≠ 0) :
    modifiedUtf8 (utf16Encode l) = utf8Encode l ↔ ∀ c ∈ l, c.toNat ≤ 0xFFFF := by
  constructor
  · intro heq c hc
    have hlength := congrArg List.length heq
    rw [length_modifiedUtf8 hzero] at hlength
    have hnone : l.countP (fun c => decide (0xFFFF < c.toNat)) = 0 := by omega
    have hnot := List.countP_eq_zero.mp hnone c hc
    simpa using hnot
  · intro hplane
    induction l with
    | nil => rfl
    | cons c l ih =>
      rw [utf16Encode_cons, modifiedUtf8_append, utf8Encode_cons,
        modifiedUtf8_utf16Units (hzero c List.mem_cons_self) (hplane c List.mem_cons_self),
        ih (fun d hd => hzero d (List.mem_cons_of_mem c hd))
          fun d hd => hplane d (List.mem_cons_of_mem c hd)]

end Wldroid.Foundation
