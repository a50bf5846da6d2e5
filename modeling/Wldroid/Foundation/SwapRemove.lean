import Mathlib.Tactic

/-!
# Removal by moving the last entry into the freed slot

Compact tables often delete an entry by overwriting it with the last one and dropping the last
slot.  `swapRemove` is that loop on lists; up to order it is `List.erase`, and every fact a table
needs (members, distinctness, length) follows from that one permutation.
-/

namespace Wldroid.Foundation

variable {α : Type*} [DecidableEq α]

/-- Overwrite the first occurrence of `a` with the last entry and drop the last slot. -/
def swapRemove : List α → α → List α
  | [], _ => []
  | x :: xs, a =>
      if x = a then
        match xs.getLast? with
        | none => []
        | some last => last :: xs.dropLast
      else x :: swapRemove xs a

/-- **Up to order, moving the last entry into the slot is erasing the entry.** -/
theorem swapRemove_perm (l : List α) (a : α) : (swapRemove l a).Perm (l.erase a) := by
  induction l with
  | nil => exact List.Perm.nil
  | cons x xs ih =>
    by_cases hx : x = a
    · subst hx
      rw [List.erase_cons_head]
      cases hlast : xs.getLast? with
      | none =>
        have hnil : xs = [] := List.getLast?_eq_none_iff.mp hlast
        simp [swapRemove, hnil]
      | some last =>
        have hsplit : xs.dropLast ++ [last] = xs := List.dropLast_append_getLast? last hlast
        have hperm : (last :: xs.dropLast).Perm (xs.dropLast ++ [last]) :=
          (List.perm_append_singleton last xs.dropLast).symm
        simpa only [swapRemove, if_true, hlast, hsplit] using hperm
    · rw [List.erase_cons_tail (by simpa using hx)]
      simpa only [swapRemove, if_neg hx] using ih.cons x

theorem nodup_swapRemove {l : List α} (h : l.Nodup) (a : α) : (swapRemove l a).Nodup :=
  (swapRemove_perm l a).nodup_iff.mpr (h.erase a)

theorem mem_swapRemove {l : List α} (h : l.Nodup) (a b : α) :
    b ∈ swapRemove l a ↔ b ≠ a ∧ b ∈ l := by
  rw [(swapRemove_perm l a).mem_iff]
  exact h.mem_erase_iff

theorem length_swapRemove_le (l : List α) (a : α) : (swapRemove l a).length ≤ l.length := by
  rw [(swapRemove_perm l a).length_eq]
  exact List.length_erase_le

end Wldroid.Foundation
