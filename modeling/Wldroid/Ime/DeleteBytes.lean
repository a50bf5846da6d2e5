import Wldroid.Foundation.CTypes
import Wldroid.Foundation.Runs
import Wldroid.Foundation.Utf8

/-!
# From units to bytes: the UTF-8 scan of the surrounding text

The IME counts code points or UTF-16 units, the client counts bytes.  `utf8DeleteBytesBefore` and
`utf8DeleteBytesAfter` scan the surrounding text from its start and from the cursor; their loops
carry a bound on the number of rounds, which is never reached because every round moves on by at
least one byte.

On valid UTF-8 with the cursor between code points both count the bytes of the shortest run of whole
code points with enough units (`utf8DeleteBytesBefore_eq`, `utf8DeleteBytesAfter_eq`).
-/

namespace Wldroid.Ime

open Wldroid.Foundation

/-- `text[pos]`, also at the terminator. -/
def charAt (text : List UInt8) (pos : ℕ) : ℕ := (text.getD pos 0).toNat

/-- `utf8_codepoint_len`: how many bytes the code point at `pos` takes, and the code point.  A
sequence cut off by `len` and any other byte count as one byte. -/
def utf8CodepointLen (text : List UInt8) (pos len : ℕ) : ℕ × ℕ :=
  let c := charAt text pos
  if c < 0x80 then (1, c)
  else if c &&& 0xE0 = 0xC0 ∧ pos + 1 < len then
    (2, (c &&& 0x1F) <<< 6 ||| (charAt text (pos + 1) &&& 0x3F))
  else if c &&& 0xF0 = 0xE0 ∧ pos + 2 < len then
    (3, (c &&& 0x0F) <<< 12 ||| (charAt text (pos + 1) &&& 0x3F) <<< 6 |||
      (charAt text (pos + 2) &&& 0x3F))
  else if c &&& 0xF8 = 0xF0 ∧ pos + 3 < len then
    (4, (c &&& 0x07) <<< 18 ||| (charAt text (pos + 1) &&& 0x3F) <<< 12 |||
      (charAt text (pos + 2) &&& 0x3F) <<< 6 ||| (charAt text (pos + 3) &&& 0x3F))
  else (1, c)

/-- `delete_units_for_codepoint`. -/
def deleteUnitsForCodepoint (codepoint : ℕ) (codePoints : Bool) : ℕ :=
  if codePoints then 1 else if codepoint > 0xFFFF then 2 else 1

/-- The first loop of `utf8_delete_bytes_before`: the units before the cursor, a `uint32_t`. -/
def totalUnits (text : List UInt8) (cursor : ℕ) (codePoints : Bool) : ℕ → ℕ → ℕ → ℕ
  | 0, _, total => total
  | fuel + 1, pos, total =>
      if pos < cursor then
        let cp := utf8CodepointLen text pos cursor
        totalUnits text cursor codePoints fuel (pos + cp.1)
          ((total + deleteUnitsForCodepoint cp.2 codePoints) % 2 ^ 32)
      else total

/-- The second loop: how far whole code points go without exceeding `target` units. -/
def deleteStart (text : List UInt8) (cursor target : ℕ) (codePoints : Bool) : ℕ → ℕ → ℕ → ℕ
  | 0, pos, _ => pos
  | fuel + 1, pos, units =>
      if pos < cursor then
        let cp := utf8CodepointLen text pos cursor
        let units' := (units + deleteUnitsForCodepoint cp.2 codePoints) % 2 ^ 32
        if units' ≤ target then deleteStart text cursor target codePoints fuel (pos + cp.1) units'
        else pos
      else pos

/-- `utf8_delete_bytes_before` on a non-null text. -/
def utf8DeleteBytesBefore (text : CString) (cursor unitsToDelete : ℕ) (codePoints : Bool) : ℕ :=
  if unitsToDelete = 0 then 0
  else
    let cursor := min cursor text.strlen
    let total := totalUnits text.bytes cursor codePoints cursor 0 0
    let target := if total > unitsToDelete then total - unitsToDelete else 0
    (cursor - deleteStart text.bytes cursor target codePoints cursor 0 0) % 2 ^ 32

/-- The loop of `utf8_delete_bytes_after`. -/
def deleteEnd (text : List UInt8) (len unitsToDelete : ℕ) (codePoints : Bool) : ℕ → ℕ → ℕ → ℕ
  | 0, pos, _ => pos
  | fuel + 1, pos, units =>
      if pos < len ∧ units < unitsToDelete then
        let cp := utf8CodepointLen text pos len
        deleteEnd text len unitsToDelete codePoints fuel (pos + cp.1)
          ((units + deleteUnitsForCodepoint cp.2 codePoints) % 2 ^ 32)
      else pos

/-- `utf8_delete_bytes_after` on a non-null text. -/
def utf8DeleteBytesAfter (text : CString) (cursor unitsToDelete : ℕ) (codePoints : Bool) : ℕ :=
  if unitsToDelete = 0 then 0
  else
    let cursor := min cursor text.strlen
    (deleteEnd text.bytes text.strlen unitsToDelete codePoints (text.strlen - cursor) cursor 0 -
      cursor) % 2 ^ 32

/-! ### On valid text -/

theorem charAt_append (pre rest : List UInt8) (i : ℕ) :
    charAt (pre ++ rest) (pre.length + i) = charAt rest i := by
  unfold charAt
  rw [List.getD_eq_getElem?_getD, List.getD_eq_getElem?_getD, List.getElem?_append_right (by omega),
    Nat.add_sub_cancel_left]

/-- The bytes of a code point, and of what follows it. -/
theorem charAt_encoded (c : Char) (post : List UInt8) (i : ℕ) :
    charAt (String.utf8EncodeChar c ++ post) i =
      (utf8Bytes c.toNat ++ post.map UInt8.toNat).getD i 0 := by
  unfold charAt
  rw [← toNat_utf8EncodeChar, ← List.map_append, List.getD_eq_getElem?_getD,
    List.getD_eq_getElem?_getD, List.getElem?_map]
  cases (String.utf8EncodeChar c ++ post)[i]? <;> rfl

theorem length_utf8EncodeChar (c : Char) :
    (String.utf8EncodeChar c).length = (utf8Bytes c.toNat).length := by
  rw [← toNat_utf8EncodeChar, List.length_map]

/-- On a whole code point before `len` the scan reads exactly that code point. -/
theorem utf8CodepointLen_encoded (pre post : List UInt8) (c : Char) {len : ℕ}
    (hlen : pre.length + (String.utf8EncodeChar c).length ≤ len) :
    utf8CodepointLen (pre ++ (String.utf8EncodeChar c ++ post)) pre.length len =
      ((String.utf8EncodeChar c).length, c.toNat) := by
  have hchar : ∀ i, charAt (pre ++ (String.utf8EncodeChar c ++ post)) (pre.length + i) =
      (utf8Bytes c.toNat ++ post.map UInt8.toNat).getD i 0 := by
    intro i
    rw [charAt_append, charAt_encoded]
  have hzero := hchar 0
  rw [Nat.add_zero] at hzero
  have hv : c.toNat < 0x110000 := val_lt c
  rw [length_utf8EncodeChar] at hlen ⊢
  unfold utf8CodepointLen
  simp only [hzero, hchar]
  generalize c.toNat = v at hlen hv ⊢
  unfold utf8Bytes at hlen ⊢
  by_cases hone : v ≤ 0x7F
  · simp [hone, show v < 128 by omega]
  · rw [if_neg hone] at hlen ⊢
    by_cases htwo : v ≤ 0x7FF
    · rw [if_pos htwo] at hlen ⊢
      simp only [List.length_cons, List.length_nil] at hlen
      have hlead := leading_two (k := v / 64) (by omega)
      have hpay := payload_two htwo
      simp [hlead, hpay, show ¬ v / 64 + 192 < 128 by omega, show pre.length + 1 < len by omega]
    · rw [if_neg htwo] at hlen ⊢
      by_cases hthree : v ≤ 0xFFFF
      · rw [if_pos hthree] at hlen ⊢
        simp only [List.length_cons, List.length_nil] at hlen
        have hlead := leading_three (k := v / 4096) (by omega)
        have hpay := payload_three hthree
        simp [hlead, hpay, show ¬ v / 4096 + 224 < 128 by omega,
          show pre.length + 2 < len by omega]
      · rw [if_neg hthree] at hlen ⊢
        simp only [List.length_cons, List.length_nil] at hlen
        have hlead := leading_four (k := v / 262144) (by omega)
        have hpay := payload_four hv
        simp [hlead, hpay, show ¬ v / 262144 + 240 < 128 by omega,
          show pre.length + 3 < len by omega]

/-- The units of a code point: one, or what UTF-16 takes for it. -/
def unitsOf (codePoints : Bool) (c : Char) : ℕ := if codePoints then 1 else utf16Size c

theorem deleteUnitsForCodepoint_toNat (codePoints : Bool) (c : Char) :
    deleteUnitsForCodepoint c.toNat codePoints = unitsOf codePoints c := by
  unfold deleteUnitsForCodepoint unitsOf utf16Size
  split
  · rfl
  · split <;> split <;> omega

theorem unitsOf_pos (codePoints : Bool) (c : Char) : 1 ≤ unitsOf codePoints c := by
  rw [← deleteUnitsForCodepoint_toNat]
  unfold deleteUnitsForCodepoint
  split
  · exact le_rfl
  · split <;> omega

theorem length_utf8EncodeChar_pos (c : Char) : 1 ≤ (String.utf8EncodeChar c).length := by
  rw [length_utf8EncodeChar]
  unfold utf8Bytes
  split
  · simp
  · split
    · simp
    · split <;> simp

/-- A code point has at most as many units as bytes. -/
theorem unitsOf_le (codePoints : Bool) (c : Char) :
    unitsOf codePoints c ≤ (String.utf8EncodeChar c).length := by
  have hpos := length_utf8EncodeChar_pos c
  rw [← deleteUnitsForCodepoint_toNat]
  unfold deleteUnitsForCodepoint
  split
  · exact hpos
  · split
    · rename_i hlarge
      rw [length_utf8EncodeChar]
      unfold utf8Bytes
      rw [if_neg (by omega), if_neg (by omega), if_neg (by omega)]
      simp
    · exact hpos

theorem totalWeight_le (codePoints : Bool) (l : List Char) :
    totalWeight (unitsOf codePoints) l ≤ (utf8Encode l).length := by
  induction l with
  | nil => simp [totalWeight]
  | cons c l ih =>
    have hc := unitsOf_le codePoints c
    rw [totalWeight_cons, utf8Encode_cons, List.length_append]
    omega

section Loops

variable (codePoints : Bool) (rest : List UInt8)

/-- One code point further: the same text, with the code point counted to what comes before. -/
theorem shift_append (pre : List UInt8) (c : Char) (l : List Char) :
    pre ++ (utf8Encode (c :: l) ++ rest) =
      (pre ++ String.utf8EncodeChar c) ++ (utf8Encode l ++ rest) := by
  simp

/-- The scan at the next code point. -/
theorem utf8CodepointLen_cons (pre : List UInt8) (c : Char) (l : List Char) {len : ℕ}
    (hlen : pre.length + (utf8Encode (c :: l)).length ≤ len) :
    utf8CodepointLen (pre ++ (utf8Encode (c :: l) ++ rest)) pre.length len =
      ((String.utf8EncodeChar c).length, c.toNat) := by
  rw [utf8Encode_cons, List.length_append] at hlen
  rw [utf8Encode_cons, List.append_assoc]
  exact utf8CodepointLen_encoded pre (utf8Encode l ++ rest) c (by omega)

theorem totalUnits_eq (l : List Char) :
    ∀ (pre : List UInt8) (fuel total : ℕ), (utf8Encode l).length ≤ fuel →
      total + totalWeight (unitsOf codePoints) l < 2 ^ 32 →
      totalUnits (pre ++ (utf8Encode l ++ rest)) (pre.length + (utf8Encode l).length) codePoints
        fuel pre.length total = total + totalWeight (unitsOf codePoints) l := by
  induction l with
  | nil =>
    intro pre fuel total _ _
    cases fuel <;> simp [totalUnits, totalWeight]
  | cons c l ih =>
    intro pre fuel total hfuel hbound
    have hc := length_utf8EncodeChar_pos c
    have hlen : (utf8Encode (c :: l)).length =
        (String.utf8EncodeChar c).length + (utf8Encode l).length := by simp
    rw [totalWeight_cons] at hbound ⊢
    obtain ⟨fuel, rfl⟩ : ∃ f, fuel = f + 1 := ⟨fuel - 1, by omega⟩
    have ih := ih (pre ++ String.utf8EncodeChar c) fuel (total + unitsOf codePoints c)
      (by omega) (by omega)
    rw [← shift_append, List.length_append, Nat.add_assoc, ← hlen] at ih
    unfold totalUnits
    rw [if_pos (by omega)]
    simp only [utf8CodepointLen_cons rest pre c l le_rfl]
    rw [deleteUnitsForCodepoint_toNat, Nat.mod_eq_of_lt (by omega), ih]
    omega

/-- Whole code points are passed over as long as what follows them has `n` units. -/
theorem deleteStart_eq (n : ℕ) (l : List Char) :
    ∀ (pre : List UInt8) (fuel units : ℕ), (utf8Encode l).length ≤ fuel →
      units + totalWeight (unitsOf codePoints) l < 2 ^ 32 →
      deleteStart (pre ++ (utf8Encode l ++ rest)) (pre.length + (utf8Encode l).length)
          (units + totalWeight (unitsOf codePoints) l - n) codePoints fuel pre.length units +
        (utf8Encode (lastRun (unitsOf codePoints) n l)).length =
      pre.length + (utf8Encode l).length := by
  induction l with
  | nil =>
    intro pre fuel units _ _
    cases fuel <;> simp [deleteStart, lastRun_nil]
  | cons c l ih =>
    intro pre fuel units hfuel hbound
    have hc := length_utf8EncodeChar_pos c
    have hunits := unitsOf_pos codePoints c
    have hlen : (utf8Encode (c :: l)).length =
        (String.utf8EncodeChar c).length + (utf8Encode l).length := by simp
    rw [totalWeight_cons] at hbound ⊢
    obtain ⟨fuel, rfl⟩ : ∃ f, fuel = f + 1 := ⟨fuel - 1, by omega⟩
    have ih := ih (pre ++ String.utf8EncodeChar c) fuel (units + unitsOf codePoints c)
      (by omega) (by omega)
    rw [← shift_append, List.length_append, Nat.add_assoc pre.length, ← hlen,
      Nat.add_assoc units] at ih
    unfold deleteStart
    rw [if_pos (by omega), lastRun_cons]
    simp only [utf8CodepointLen_cons rest pre c l le_rfl]
    rw [deleteUnitsForCodepoint_toNat, Nat.mod_eq_of_lt (by omega)]
    by_cases hlt : totalWeight (unitsOf codePoints) l < n
    · rw [if_neg (by omega), if_pos hlt]
    · rw [if_pos (by omega), if_neg hlt]
      exact ih

/-- Whole code points are passed over until these are `n` units; the count does not wrap. -/
theorem deleteEnd_eq (n : ℕ) (l : List Char) :
    ∀ (pre : List UInt8) (fuel units : ℕ), (utf8Encode l).length ≤ fuel →
      n < 2 ^ 31 ∨ units + totalWeight (unitsOf codePoints) l < 2 ^ 32 →
      deleteEnd (pre ++ (utf8Encode l ++ rest)) (pre.length + (utf8Encode l).length) n codePoints
          fuel pre.length units =
        pre.length + (utf8Encode (firstRun (unitsOf codePoints) (n - units) l)).length := by
  induction l with
  | nil =>
    intro pre fuel units _ _
    cases fuel <;> simp [deleteEnd, firstRun]
  | cons c l ih =>
    intro pre fuel units hfuel hwrap
    rw [totalWeight_cons] at hwrap
    have hc := length_utf8EncodeChar_pos c
    have hlen : (utf8Encode (c :: l)).length =
        (String.utf8EncodeChar c).length + (utf8Encode l).length := by simp
    obtain ⟨fuel, rfl⟩ : ∃ f, fuel = f + 1 := ⟨fuel - 1, by omega⟩
    unfold deleteEnd
    by_cases hless : units < n
    · have hbound : unitsOf codePoints c ≤ 2 := by
        rw [← deleteUnitsForCodepoint_toNat]
        unfold deleteUnitsForCodepoint
        split
        · omega
        · split <;> omega
      have ih := ih (pre ++ String.utf8EncodeChar c) fuel (units + unitsOf codePoints c)
        (by omega) (by omega)
      rw [← shift_append, List.length_append, Nat.add_assoc pre.length, ← hlen] at ih
      rw [if_pos ⟨by omega, hless⟩]
      simp only [utf8CodepointLen_cons rest pre c l le_rfl]
      rw [deleteUnitsForCodepoint_toNat, Nat.mod_eq_of_lt (by omega), ih, firstRun,
        if_neg (by omega), utf8Encode_cons, List.length_append, Nat.sub_sub]
      omega
    · rw [if_neg fun h => hless h.2, show n - units = 0 by omega, firstRun_zero]
      simp

end Loops

/-! ### The byte counts -/

/-- A text as the IME sees it: the code points before and after the cursor, in a C string. -/
structure Splits (text : CString) (before after : List Char) : Prop where
  bytes_eq : text.bytes = utf8Encode before ++ utf8Encode after
  /-- The cursor is an `int32_t`. -/
  cursor_lt : (utf8Encode before).length < 2 ^ 31

/-- **Before the cursor** the bytes of the shortest run of whole code points with enough units are
deleted. -/
theorem utf8DeleteBytesBefore_eq {text : CString} {before after : List Char}
    (h : Splits text before after) (n : ℕ) (codePoints : Bool) :
    utf8DeleteBytesBefore text (utf8Encode before).length n codePoints =
      (utf8Encode (lastRun (unitsOf codePoints) n before)).length := by
  unfold utf8DeleteBytesBefore
  by_cases hn : n = 0
  · simp [hn, lastRun, firstRun_zero]
  · have hcursor := h.cursor_lt
    have hmin : min (utf8Encode before).length text.strlen = (utf8Encode before).length := by
      rw [CString.strlen, h.bytes_eq, List.length_append]
      omega
    have hweight := totalWeight_le codePoints before
    have htotal := totalUnits_eq codePoints (utf8Encode after) before []
      (utf8Encode before).length 0 le_rfl (by omega)
    have hstart := deleteStart_eq codePoints (utf8Encode after) n before []
      (utf8Encode before).length 0 le_rfl (by omega)
    rw [List.nil_append, List.length_nil, Nat.zero_add, Nat.zero_add, ← h.bytes_eq] at htotal hstart
    have htarget : (if totalWeight (unitsOf codePoints) before > n
        then totalWeight (unitsOf codePoints) before - n else 0) =
          totalWeight (unitsOf codePoints) before - n := by
      split <;> omega
    rw [if_neg hn]
    simp only [hmin, htotal, htarget]
    rw [Nat.mod_eq_of_lt (by omega)]
    omega

theorem length_utf8Encode_le {l l' : List Char} (h : l <+: l') :
    (utf8Encode l).length ≤ (utf8Encode l').length := by
  obtain ⟨rest, rfl⟩ := h
  rw [utf8Encode_append, List.length_append]
  omega

theorem length_firstRun_le (codePoints : Bool) (n : ℕ) (l : List Char) :
    (utf8Encode (firstRun (unitsOf codePoints) n l)).length ≤ 4 * n := by
  induction l generalizing n with
  | nil => simp [firstRun]
  | cons c l ih =>
    unfold firstRun
    split
    · simp
    · have hunits := unitsOf_pos codePoints c
      have hfour : (String.utf8EncodeChar c).length ≤ 4 := by
        rw [length_utf8EncodeChar]
        unfold utf8Bytes
        split
        · simp
        · split
          · simp
          · split <;> simp
      have ih := ih (n - unitsOf codePoints c)
      rw [utf8Encode_cons, List.length_append]
      omega

/-- **After the cursor** likewise, if either the count or the text is short. -/
theorem utf8DeleteBytesAfter_eq {text : CString} {before after : List Char}
    (h : Splits text before after) {n : ℕ} (hn : n < 2 ^ 30 ∨ (utf8Encode after).length < 2 ^ 31)
    (codePoints : Bool) :
    utf8DeleteBytesAfter text (utf8Encode before).length n codePoints =
      (utf8Encode (firstRun (unitsOf codePoints) n after)).length := by
  unfold utf8DeleteBytesAfter
  by_cases hzero : n = 0
  · simp [hzero, firstRun_zero]
  · have hstrlen : text.strlen = (utf8Encode before).length + (utf8Encode after).length := by
      rw [CString.strlen, h.bytes_eq, List.length_append]
    have hmin : min (utf8Encode before).length ((utf8Encode before).length +
        (utf8Encode after).length) = (utf8Encode before).length := by
      omega
    have hweight := totalWeight_le codePoints after
    have hend := deleteEnd_eq codePoints [] n after (utf8Encode before)
      (utf8Encode after).length 0 le_rfl (by omega)
    rw [List.append_nil, ← h.bytes_eq, Nat.sub_zero] at hend
    have hle := length_firstRun_le codePoints n after
    have hfirst := firstRun_prefix (unitsOf codePoints) n after
    have hle' := length_utf8Encode_le hfirst
    rw [if_neg hzero]
    simp only [hstrlen, hmin, Nat.add_sub_cancel_left, hend]
    exact Nat.mod_eq_of_lt (by omega)

end Wldroid.Ime
