import Mathlib.Tactic

/-!
# Reading exactly so many elements off a stream

A read delivers as many elements as the kernel likes: at least one and at most as many as are asked
for and there are, none only at the end.  `readExact` repeats it until enough have come;
`readExact_eq` says that how they were delivered does not matter.
-/

namespace Wldroid.Foundation

variable {ι : Type}

/-- What nobody has read yet, and how many reads there have been. -/
structure Inbox (ι : Type) where
  unread : List ι
  reads : ℕ

/-- `read(fd, buf, want)`; `sizes` says how many each read would like to deliver. -/
def Inbox.read (sizes : ℕ → ℕ) (b : Inbox ι) (want : ℕ) : List ι × Inbox ι :=
  let n := min (max 1 (sizes b.reads)) (min want b.unread.length)
  (b.unread.take n, ⟨b.unread.drop n, b.reads + 1⟩)

/-- A read delivers something from the front, as long as there is anything. -/
theorem Inbox.read_spec (sizes : ℕ → ℕ) (b : Inbox ι) {want : ℕ} (h : 0 < want) :
    ((b.read sizes want).1 = [] ∧ b.unread = []) ∨
      ((b.read sizes want).1 ≠ [] ∧
        (b.read sizes want).1 ++ (b.read sizes want).2.unread = b.unread) := by
  obtain ⟨n, hn⟩ : ∃ n, n = min (max 1 (sizes b.reads)) (min want b.unread.length) := ⟨_, rfl⟩
  have hone : b.read sizes want = (b.unread.take n, ⟨b.unread.drop n, b.reads + 1⟩) := by
    rw [hn]
    rfl
  rw [hone]
  rcases eq_or_ne b.unread [] with hnil | hne
  · exact .inl ⟨by rw [hnil, List.take_nil], hnil⟩
  · have hpos := List.length_pos_of_ne_nil hne
    refine .inr ⟨?_, List.take_append_drop n b.unread⟩
    rw [← List.length_pos_iff, List.length_take]
    omega

/-- Read until nothing is left to be read, or a read delivers nothing. -/
def readLoop (sizes : ℕ → ℕ) : ℕ → Inbox ι → ℕ → Option (List ι) × Inbox ι
  | _, b, 0 => (some [], b)
  | 0, b, _ + 1 => (none, b)
  | rounds + 1, b, left + 1 =>
      let one := b.read sizes (left + 1)
      if one.1.isEmpty then (none, one.2)
      else
        let others := readLoop sizes rounds one.2 (left + 1 - one.1.length)
        (others.1.map fun rest => one.1 ++ rest, others.2)

/-- Read exactly `len` elements; every round that goes on has delivered one, so `len` rounds do. -/
def readExact (sizes : ℕ → ℕ) (b : Inbox ι) (len : ℕ) : Option (List ι) × Inbox ι :=
  readLoop sizes len b len

theorem readLoop_eq (sizes : ℕ → ℕ) {rounds len : ℕ} (b : Inbox ι) (hrounds : len ≤ rounds) :
    (readLoop sizes rounds b len).1 =
        (if len ≤ b.unread.length then some (b.unread.take len) else none) ∧
      (readLoop sizes rounds b len).2.unread = b.unread.drop len := by
  induction rounds generalizing len b with
  | zero =>
    obtain rfl : len = 0 := by omega
    simp [readLoop]
  | succ rounds ih =>
    cases len with
    | zero => simp [readLoop]
    | succ left =>
      -- the size of the first read
      obtain ⟨n, hn⟩ : ∃ n, n = min (max 1 (sizes b.reads)) (min (left + 1) b.unread.length) :=
        ⟨_, rfl⟩
      have hone : b.read sizes (left + 1) = (b.unread.take n, ⟨b.unread.drop n, b.reads + 1⟩) := by
        rw [hn]
        rfl
      have hle : n ≤ b.unread.length := by omega
      by_cases hend : b.unread = []
      · have hempty : (b.unread.take n).isEmpty = true := by simp [hend]
        simp only [readLoop, hone, hempty, if_true]
        simp [hend]
      · have hpos : 0 < b.unread.length := List.length_pos_iff.mpr hend
        have hsome : (b.unread.take n).isEmpty = false := by
          rw [List.isEmpty_eq_false_iff, ← List.length_pos_iff, List.length_take]
          omega
        have hlength : (b.unread.take n).length = n := List.length_take_of_le hle
        obtain ⟨hvalue, hrest⟩ := @ih (left + 1 - n) ⟨b.unread.drop n, b.reads + 1⟩ (by omega)
        simp only [readLoop, hone, hsome, hlength, Bool.false_eq_true, if_false]
        rw [hvalue, hrest]
        have hsum : n + (left + 1 - n) = left + 1 := by omega
        have htake : b.unread.take (left + 1) =
            b.unread.take n ++ (b.unread.drop n).take (left + 1 - n) := by
          rw [← List.take_add, hsum]
        refine ⟨?_, ?_⟩
        · simp only [List.length_drop]
          by_cases henough : left + 1 ≤ b.unread.length
          · rw [if_pos (by omega), if_pos henough, Option.map_some, htake]
          · rw [if_neg (by omega), if_neg henough]
            rfl
        · rw [List.drop_drop, hsum]

/-- **Short reads do not matter**: the elements come whole, or the stream ends before. -/
theorem readExact_eq (sizes : ℕ → ℕ) (b : Inbox ι) (len : ℕ) :
    (readExact sizes b len).1 =
        (if len ≤ b.unread.length then some (b.unread.take len) else none) ∧
      (readExact sizes b len).2.unread = b.unread.drop len :=
  readLoop_eq sizes b (le_refl len)

end Wldroid.Foundation
