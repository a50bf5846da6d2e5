import Mathlib.Order.Basic
import Mathlib.Data.List.Basic

/-!
# Handing a shared cell over from one writer to the next

Writers are numbered in the order they take over.  A cell is handed over when its writes come in
that order: no writer writes again once a later one has written.

* `Handover` — the cell has been handed over so far, and stays so: nobody before a writer that has
  written has a write left;
* `Handover.write` — the writer that finds no earlier one with a write left keeps it;
* `Handover.newest` — the last write is by the newest writer, once that one has written.
-/

namespace Wldroid.Foundation

/-- The writers of a cell, newest first, came in order, and none before any of them has a write
left. -/
structure Handover (left : ℕ → Bool) (writers : List ℕ) : Prop where
  inOrder : writers.Pairwise (· ≥ ·)
  settled : ∀ w ∈ writers, ∀ i < w, left i = false

namespace Handover

variable {left left' : ℕ → Bool} {writers : List ℕ} {w : ℕ}

theorem nil (left : ℕ → Bool) : Handover left [] where
  inOrder := List.Pairwise.nil
  settled _ hv := absurd hv List.not_mem_nil

/-- Writes may be used up; who comes after every writer so far may still have any. -/
theorem mono (h : Handover left writers)
    (hmono : ∀ v ∈ writers, ∀ i < v, left' i = true → left i = true) :
    Handover left' writers where
  inOrder := h.inOrder
  settled v hv i hi := by
    cases hleft : left' i with
    | false => rfl
    | true =>
      have hold := hmono v hv i hi hleft
      rw [h.settled v hv i hi] at hold
      exact absurd hold Bool.false_ne_true

/-- Who still has a write left is not before any writer. -/
theorem le_of_left (h : Handover left writers) (hleft : left w = true) :
    ∀ v ∈ writers, v ≤ w := by
  intro v hv
  by_contra hlt
  have hnone := h.settled v hv w (Nat.lt_of_not_le hlt)
  rw [hleft] at hnone
  exact absurd hnone (Bool.false_ne_true ∘ Eq.symm)

/-- **A write keeps the order** when no earlier writer has one left. -/
theorem write (h : Handover left writers) (hleft : left w = true)
    (halone : ∀ i < w, left i = false) : Handover left (w :: writers) where
  inOrder := List.pairwise_cons.mpr ⟨h.le_of_left hleft, h.inOrder⟩
  settled v hv i hi := by
    obtain rfl | hold := List.mem_cons.mp hv
    · exact halone i hi
    · exact h.settled v hold i hi

/-- Once the newest writer has written, the last write is its own. -/
theorem newest (h : Handover left writers) (hnewest : ∀ v ∈ writers, v ≤ w) (hw : w ∈ writers) :
    writers.head? = some w := by
  cases writers with
  | nil => exact absurd hw List.not_mem_nil
  | cons v rest =>
    have hv := hnewest v List.mem_cons_self
    obtain rfl | hrest := List.mem_cons.mp hw
    · rfl
    · have hge := (List.pairwise_cons.mp h.inOrder).1 w hrest
      rw [List.head?_cons, Nat.le_antisymm hv hge]

end Handover

end Wldroid.Foundation
