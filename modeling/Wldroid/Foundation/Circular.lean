import Mathlib.Tactic

/-!
# Windows of a circular buffer

A circular buffer of `N` slots holds a moving window of an unbounded history: item number `i` sits
in slot `i % N`.  `Holds slots history lo hi` says that the items numbered `lo` up to (excluding)
`hi` are where they belong.  The rules are those of a producer and a consumer: filling the slot one
past the window leaves a window of fewer than `N` items alone (`Holds.write`), publishing extends
it (`Holds.push`), consuming shrinks it (`Holds.pop`).
-/

namespace Wldroid.Foundation

variable {α : Type*} {N : ℕ}

/-- Two item numbers less than one lap apart sit in different slots. -/
theorem mod_ne_mod_of_lt {i j : ℕ} (hij : i < j) (hlap : j < i + N) : i % N ≠ j % N := by
  intro heq
  have hdvd : N ∣ j - i := (Nat.modEq_iff_dvd' hij.le).mp heq
  have hle : N ≤ j - i := Nat.le_of_dvd (by omega) hdvd
  omega

/-- Overwrite one slot. -/
def setSlot (slots : ℕ → α) (k : ℕ) (a : α) : ℕ → α := fun m => if m = k then a else slots m

@[simp] theorem setSlot_same (slots : ℕ → α) (k : ℕ) (a : α) : setSlot slots k a k = a := by
  simp [setSlot]

/-- The items numbered `lo, …, hi - 1` of the history are in their slots. -/
def Holds (N : ℕ) (slots : ℕ → α) (history : List α) (lo hi : ℕ) : Prop :=
  ∀ i, lo ≤ i → i < hi → history[i]? = some (slots (i % N))

theorem Holds.empty (slots : ℕ → α) (history : List α) (lo : ℕ) : Holds N slots history lo lo :=
  fun _ hlo hhi => absurd hhi (by omega)

/-- A longer history does not disturb the window. -/
theorem Holds.append {slots : ℕ → α} {history : List α} {lo hi : ℕ}
    (h : Holds N slots history lo hi) (more : List α) : Holds N slots (history ++ more) lo hi := by
  intro i hlo hhi
  have hi' := h i hlo hhi
  obtain ⟨hlt, _⟩ := List.getElem?_eq_some_iff.mp hi'
  rw [List.getElem?_append_left hlt]
  exact hi'

/-- Filling the slot one past a window shorter than a lap leaves the window alone. -/
theorem Holds.write {slots : ℕ → α} {history : List α} {lo hi : ℕ}
    (h : Holds N slots history lo hi) (hlap : hi < lo + N) (a : α) :
    Holds N (setSlot slots (hi % N) a) history lo hi := by
  intro i hlo hhi
  have hne : i % N ≠ hi % N := mod_ne_mod_of_lt hhi (by omega)
  simpa [setSlot, hne] using h i hlo hhi

/-- Publishing the item that was filled in extends the window. -/
theorem Holds.push {slots : ℕ → α} {history : List α} {lo hi : ℕ}
    (h : Holds N slots history lo hi) (hnew : history[hi]? = some (slots (hi % N))) :
    Holds N slots history lo (hi + 1) := by
  intro i hlo hhi
  rcases Nat.lt_succ_iff_lt_or_eq.mp hhi with hlt | rfl
  · exact h i hlo hlt
  · exact hnew

/-- Consuming the oldest item shrinks the window. -/
theorem Holds.pop {slots : ℕ → α} {history : List α} {lo hi : ℕ}
    (h : Holds N slots history lo hi) : Holds N slots history (lo + 1) hi :=
  fun i hlo hhi => h i (by omega) hhi

end Wldroid.Foundation
