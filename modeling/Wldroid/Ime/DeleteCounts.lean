import Wldroid.Foundation.Loops
import Wldroid.Ime.State

/-!
# What the delete counts are

`textInputDeleteByteCounts` on any surrounding text and any cursor: its three loops end within the
text, so that no count exceeds what is on its side of the cursor, and on valid UTF-8 the counts are
those of the shortest runs of whole code points with enough units.

* `totalUnitsRound`, `deleteStartRound`, `deleteEndRound` — the bodies of the loops;
* `ScansEnd`, `scansEnd` — the loops end, where the bounded loops of the scans end;
* **`textInputDeleteByteCounts_shortest`** — both counts.
-/

namespace Wldroid.Ime

open Wldroid.Foundation

/-! ### Rounds -/

section Rounds

variable (text : List UInt8) (cursor len target unitsToDelete : ℕ) (codePoints : Bool)

/-- A round of the first loop of `utf8_delete_bytes_before`, on `pos` and `total_units`. -/
def totalUnitsRound : ℕ × ℕ → Option (ℕ × ℕ)
  | (pos, total) =>
      if pos < cursor then
        let cp := utf8CodepointLen text pos cursor
        some (pos + cp.1, (total + deleteUnitsForCodepoint cp.2 codePoints) % 2 ^ 32)
      else none

/-- A round of its second loop, on `pos` and `units`; it ends at `break` too. -/
def deleteStartRound : ℕ × ℕ → Option (ℕ × ℕ)
  | (pos, units) =>
      if pos < cursor then
        let cp := utf8CodepointLen text pos cursor
        let units' := (units + deleteUnitsForCodepoint cp.2 codePoints) % 2 ^ 32
        if units' ≤ target then some (pos + cp.1, units') else none
      else none

/-- A round of the loop of `utf8_delete_bytes_after`, on `pos` and `units`. -/
def deleteEndRound : ℕ × ℕ → Option (ℕ × ℕ)
  | (pos, units) =>
      if pos < len ∧ units < unitsToDelete then
        let cp := utf8CodepointLen text pos len
        some (pos + cp.1, (units + deleteUnitsForCodepoint cp.2 codePoints) % 2 ^ 32)
      else none

theorem totalUnits_eq_loopRun (fuel pos total : ℕ) :
    totalUnits text cursor codePoints fuel pos total =
      (loopRun (totalUnitsRound text cursor codePoints) fuel (pos, total)).2 := by
  induction fuel generalizing pos total with
  | zero => rfl
  | succ fuel ih =>
    unfold totalUnits loopRun totalUnitsRound
    by_cases hpos : pos < cursor
    · simp only [if_pos hpos]
      exact ih _ _
    · simp only [if_neg hpos]

theorem deleteStart_eq_loopRun (fuel pos units : ℕ) :
    deleteStart text cursor target codePoints fuel pos units =
      (loopRun (deleteStartRound text cursor target codePoints) fuel (pos, units)).1 := by
  induction fuel generalizing pos units with
  | zero => rfl
  | succ fuel ih =>
    unfold deleteStart loopRun deleteStartRound
    by_cases hpos : pos < cursor
    · simp only [if_pos hpos]
      split
      · exact ih _ _
      · rfl
    · simp only [if_neg hpos]

theorem deleteEnd_eq_loopRun (fuel pos units : ℕ) :
    deleteEnd text len unitsToDelete codePoints fuel pos units =
      (loopRun (deleteEndRound text len unitsToDelete codePoints) fuel (pos, units)).1 := by
  induction fuel generalizing pos units with
  | zero => rfl
  | succ fuel ih =>
    unfold deleteEnd loopRun deleteEndRound
    by_cases hpos : pos < len ∧ units < unitsToDelete
    · simp only [if_pos hpos]
      exact ih _ _
    · simp only [if_neg hpos]

/-! ### The scan moves on -/

/-- Whatever the bytes are, a code point before `len` takes at least one and stays before it. -/
theorem utf8CodepointLen_bounds (text : List UInt8) {pos len : ℕ} (hpos : pos < len) :
    1 ≤ (utf8CodepointLen text pos len).1 ∧ pos + (utf8CodepointLen text pos len).1 ≤ len := by
  unfold utf8CodepointLen
  simp only
  split
  · exact ⟨le_rfl, hpos⟩
  · split
    · rename_i htwo
      exact ⟨by show 1 ≤ 2; omega, by show pos + 2 ≤ len; omega⟩
    · split
      · rename_i hthree
        exact ⟨by show 1 ≤ 3; omega, by show pos + 3 ≤ len; omega⟩
      · split
        · rename_i hfour
          exact ⟨by show 1 ≤ 4; omega, by show pos + 4 ≤ len; omega⟩
        · exact ⟨le_rfl, hpos⟩

/-- A round that moves `pos` on by a code point before `limit`. -/
def MovesOn (limit : ℕ) (round : ℕ × ℕ → Option (ℕ × ℕ)) : Prop :=
  ∀ s t, round s = some t → s.1 < t.1 ∧ t.1 ≤ limit

theorem totalUnitsRound_movesOn : MovesOn cursor (totalUnitsRound text cursor codePoints) := by
  rintro ⟨pos, total⟩ t h
  simp only [totalUnitsRound] at h
  split at h
  · rename_i hpos
    cases h
    have hbounds := utf8CodepointLen_bounds text hpos
    exact ⟨Nat.lt_add_of_pos_right hbounds.1, hbounds.2⟩
  · cases h

theorem deleteStartRound_movesOn :
    MovesOn cursor (deleteStartRound text cursor target codePoints) := by
  rintro ⟨pos, units⟩ t h
  simp only [deleteStartRound] at h
  split at h
  · rename_i hpos
    have hbounds := utf8CodepointLen_bounds text hpos
    split at h
    · cases h
      exact ⟨Nat.lt_add_of_pos_right hbounds.1, hbounds.2⟩
    · cases h
  · cases h

theorem deleteEndRound_movesOn :
    MovesOn len (deleteEndRound text len unitsToDelete codePoints) := by
  rintro ⟨pos, units⟩ t h
  simp only [deleteEndRound] at h
  split at h
  · rename_i hpos
    cases h
    have hbounds := utf8CodepointLen_bounds text hpos.1
    exact ⟨Nat.lt_add_of_pos_right hbounds.1, hbounds.2⟩
  · cases h

end Rounds

namespace MovesOn

variable {limit : ℕ} {round : ℕ × ℕ → Option (ℕ × ℕ)}

/-- The distance to the limit bounds the rounds. -/
theorem ends (h : MovesOn limit round) {fuel : ℕ} (s : ℕ × ℕ) (hfuel : limit - s.1 ≤ fuel) :
    LoopEnds round s (loopRun round fuel s) := by
  refine loopEnds_loopRun (fun s => limit - s.1) (fun s t hround => ?_) fuel s hfuel
  obtain ⟨hlt, hle⟩ := h s t hround
  omega

theorem between (h : MovesOn limit round) (fuel : ℕ) {s : ℕ × ℕ} (hs : s.1 ≤ limit) :
    s.1 ≤ (loopRun round fuel s).1 ∧ (loopRun round fuel s).1 ≤ limit := by
  refine loopRun_invariant (I := fun t => s.1 ≤ t.1 ∧ t.1 ≤ limit) (fun t u ht hround => ?_) fuel s
    ⟨le_rfl, hs⟩
  obtain ⟨hlt, hle⟩ := h t u hround
  exact ⟨by omega, hle⟩

end MovesOn

/-! ### The loops end -/

/-- The loops of the two scans end, where the bounded loops do, and within the text. -/
structure ScansEnd (text : CString) (cursor unitsToDelete : ℕ) (codePoints : Bool) : Prop where
  total : ∃ pos, LoopEnds (totalUnitsRound text.bytes cursor codePoints) (0, 0)
    (pos, totalUnits text.bytes cursor codePoints cursor 0 0)
  start : ∀ target, ∃ units,
    LoopEnds (deleteStartRound text.bytes cursor target codePoints) (0, 0)
      (deleteStart text.bytes cursor target codePoints cursor 0 0, units)
  start_le : ∀ target, deleteStart text.bytes cursor target codePoints cursor 0 0 ≤ cursor
  finish : ∃ units,
    LoopEnds (deleteEndRound text.bytes text.strlen unitsToDelete codePoints) (cursor, 0)
      (deleteEnd text.bytes text.strlen unitsToDelete codePoints (text.strlen - cursor) cursor 0,
        units)
  finish_between : cursor ≤ deleteEnd text.bytes text.strlen unitsToDelete codePoints
      (text.strlen - cursor) cursor 0 ∧
    deleteEnd text.bytes text.strlen unitsToDelete codePoints (text.strlen - cursor) cursor 0 ≤
      text.strlen

theorem scansEnd (text : CString) {cursor : ℕ} (hcursor : cursor ≤ text.strlen)
    (unitsToDelete : ℕ) (codePoints : Bool) : ScansEnd text cursor unitsToDelete codePoints where
  total := by
    refine ⟨(loopRun (totalUnitsRound text.bytes cursor codePoints) cursor (0, 0)).1, ?_⟩
    rw [totalUnits_eq_loopRun]
    exact (totalUnitsRound_movesOn text.bytes cursor codePoints).ends (0, 0) le_rfl
  start target := by
    refine ⟨(loopRun (deleteStartRound text.bytes cursor target codePoints) cursor (0, 0)).2, ?_⟩
    rw [deleteStart_eq_loopRun]
    exact (deleteStartRound_movesOn text.bytes cursor target codePoints).ends (0, 0) le_rfl
  start_le target := by
    rw [deleteStart_eq_loopRun]
    exact ((deleteStartRound_movesOn text.bytes cursor target codePoints).between cursor
      (Nat.zero_le cursor)).2
  finish := by
    refine ⟨(loopRun (deleteEndRound text.bytes text.strlen unitsToDelete codePoints)
      (text.strlen - cursor) (cursor, 0)).2, ?_⟩
    rw [deleteEnd_eq_loopRun]
    exact (deleteEndRound_movesOn text.bytes text.strlen unitsToDelete codePoints).ends (cursor, 0)
      le_rfl
  finish_between := by
    rw [deleteEnd_eq_loopRun]
    exact (deleteEndRound_movesOn text.bytes text.strlen unitsToDelete codePoints).between
      (text.strlen - cursor) (s := (cursor, 0)) hcursor

/-! ### The counts -/

theorem utf8DeleteBytesBefore_le (text : CString) (cursor n : ℕ) (codePoints : Bool) :
    utf8DeleteBytesBefore text cursor n codePoints ≤ min cursor text.strlen := by
  unfold utf8DeleteBytesBefore
  split
  · exact Nat.zero_le _
  · exact (Nat.mod_le _ _).trans (Nat.sub_le _ _)

theorem utf8DeleteBytesAfter_le (text : CString) (cursor n : ℕ) (codePoints : Bool) :
    utf8DeleteBytesAfter text cursor n codePoints ≤ text.strlen - min cursor text.strlen := by
  have hends := scansEnd text (Nat.min_le_right cursor text.strlen) n codePoints
  unfold utf8DeleteBytesAfter
  split
  · exact Nat.zero_le _
  · exact (Nat.mod_le _ _).trans (Nat.sub_le_sub_right hends.finish_between.2 _)

/-- The cursor as it is used: within the text. -/
def clampedCursor (ti : TextInput) (text : CString) : ℕ :=
  min ti.surroundingCursor.toNat text.strlen

theorem textInputDeleteByteCounts_eq {ti : TextInput} {text : CString}
    (htext : ti.surroundingText = some text) (beforeLength afterLength : ℕ) (codePoints : Bool) :
    textInputDeleteByteCounts ti beforeLength afterLength codePoints =
      some (utf8DeleteBytesBefore text (clampedCursor ti text) beforeLength codePoints,
        utf8DeleteBytesAfter text (clampedCursor ti text) afterLength codePoints) := by
  have hcursor : (if ti.surroundingCursor < 0 then 0 else ti.surroundingCursor.toNat) =
      ti.surroundingCursor.toNat := by
    split <;> omega
  unfold textInputDeleteByteCounts clampedCursor
  rw [htext, Option.map_some, hcursor]

/-- **The delete counts.**  On any text and with any cursor the loops end, and the counts do not
exceed the bytes on their side of the cursor.  On valid UTF-8, with the cursor between code points,
they are the bytes of the shortest runs of whole code points next to it that have enough units, or
everything on that side. -/
theorem textInputDeleteByteCounts_shortest {ti : TextInput} {text : CString}
    (htext : ti.surroundingText = some text) (beforeLength afterLength : ℕ) (codePoints : Bool) :
    ∃ beforeBytes afterBytes,
      textInputDeleteByteCounts ti beforeLength afterLength codePoints =
        some (beforeBytes, afterBytes) ∧
      beforeBytes ≤ clampedCursor ti text ∧
      afterBytes ≤ text.strlen - clampedCursor ti text ∧
      (∀ unitsToDelete, ScansEnd text (clampedCursor ti text) unitsToDelete codePoints) ∧
      ∀ before after : List Char, text.bytes = utf8Encode (before ++ after) →
        text.strlen < 2 ^ 31 → ti.surroundingCursor = (utf8Encode before).length →
        (∃ run, ShortestSuffix (unitsOf codePoints) beforeLength before run ∧
          beforeBytes = (utf8Encode run).length) ∧
        ∃ run, ShortestPrefix (unitsOf codePoints) afterLength after run ∧
          afterBytes = (utf8Encode run).length := by
  have hclamped : clampedCursor ti text ≤ text.strlen := Nat.min_le_right _ _
  have hmin : min (clampedCursor ti text) text.strlen = clampedCursor ti text :=
    Nat.min_eq_left hclamped
  have hbefore := utf8DeleteBytesBefore_le text (clampedCursor ti text) beforeLength codePoints
  have hafter := utf8DeleteBytesAfter_le text (clampedCursor ti text) afterLength codePoints
  rw [hmin] at hbefore hafter
  refine ⟨_, _, textInputDeleteByteCounts_eq htext beforeLength afterLength codePoints, hbefore,
    hafter, fun unitsToDelete => scansEnd text hclamped unitsToDelete codePoints, ?_⟩
  intro before after hbytes hshort hcursor
  have hstrlen : text.strlen = (utf8Encode before).length + (utf8Encode after).length := by
    rw [CString.strlen, hbytes, utf8Encode_append, List.length_append]
  have hsplits : Splits text before after := ⟨by rw [hbytes, utf8Encode_append], by omega⟩
  have hclamp : clampedCursor ti text = (utf8Encode before).length := by
    unfold clampedCursor
    omega
  rw [hclamp]
  exact ⟨⟨_, shortestSuffix_lastRun _ beforeLength before,
      utf8DeleteBytesBefore_eq hsplits beforeLength codePoints⟩,
    ⟨_, shortestPrefix_firstRun _ afterLength after,
      utf8DeleteBytesAfter_eq hsplits (.inr (by omega)) codePoints⟩⟩

/-- The text `aé😀b`. -/
def mixedText : CString :=
  ⟨[0x61, 0xC3, 0xA9, 0xF0, 0x9F, 0x98, 0x80, 0x62], by decide, by decide⟩

/-- An object that has committed it, with the cursor behind the emoji. -/
def mixedTextInput : TextInput :=
  { TextInput.fresh 0 0 0 with surroundingText := some mixedText, surroundingCursor := 7 }

/-- The emoji counts as two units of UTF-16 before the cursor. -/
theorem textInputDeleteByteCounts_mixed :
    ∃ run, ShortestSuffix (unitsOf false) 2 ['a', 'é', '😀'] run ∧
      textInputDeleteByteCounts mixedTextInput 2 5 false = some ((utf8Encode run).length, 1) := by
  obtain ⟨b, a, hcounts, -, -, -, hruns⟩ :=
    textInputDeleteByteCounts_shortest
      (show mixedTextInput.surroundingText = some mixedText from rfl) 2 5 false
  obtain ⟨⟨run, hrun, hb⟩, -⟩ :=
    hruns ['a', 'é', '😀'] ['b'] (by decide) (by decide) (by decide)
  have hcomputed : textInputDeleteByteCounts mixedTextInput 2 5 false = some (4, 1) := by decide
  rw [hcomputed] at hcounts ⊢
  cases hcounts
  exact ⟨run, hrun, by rw [← hb]⟩

end Wldroid.Ime
