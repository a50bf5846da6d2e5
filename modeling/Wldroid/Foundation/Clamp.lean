import Mathlib.Algebra.Order.Group.Unbundled.Abs
import Mathlib.Algebra.Order.Group.Abs
import Mathlib.Order.Interval.Set.ProjIcc

/-!
# Values coerced into an interval

* `coerceIn` — a value brought into an interval as the standard library does it;
* `coerceIn_eq_projIcc` — it is the projection onto the interval;
* `abs_coerceIn_sub_le` — nothing in the interval is nearer.
-/

namespace Wldroid.Foundation

variable {α : Type*} [LinearOrder α]

/-- The value if it lies between the bounds, else the bound on its side. -/
def coerceIn (low high x : α) : α := if x < low then low else if high < x then high else x

theorem coerceIn_eq_projIcc {low high : α} (h : low ≤ high) (x : α) :
    coerceIn low high x = Set.projIcc low high h x := by
  rw [coerceIn, Set.coe_projIcc]
  by_cases hlow : x < low
  · rw [if_pos hlow, max_eq_left ((min_le_right _ _).trans hlow.le)]
  · rw [if_neg hlow]
    by_cases hhigh : high < x
    · rw [if_pos hhigh, min_eq_left hhigh.le, max_eq_right h]
    · rw [if_neg hhigh, min_eq_right (not_lt.mp hhigh), max_eq_right (not_lt.mp hlow)]

theorem coerceIn_mem {low high : α} (h : low ≤ high) (x : α) :
    coerceIn low high x ∈ Set.Icc low high := by
  rw [coerceIn_eq_projIcc h]
  exact Subtype.property _

@[simp] theorem coerceIn_of_mem {low high x : α} (h : x ∈ Set.Icc low high) :
    coerceIn low high x = x := by
  rw [coerceIn, if_neg (not_lt.mpr h.1), if_neg (not_lt.mpr h.2)]

/-- **Nothing in the interval is nearer.** -/
theorem abs_coerceIn_sub_le [AddCommGroup α] [IsOrderedAddMonoid α] {low high y : α} (x : α)
    (hy : y ∈ Set.Icc low high) : |coerceIn low high x - x| ≤ |y - x| := by
  by_cases hlow : x < low
  · rw [coerceIn, if_pos hlow, abs_of_pos (sub_pos.mpr hlow)]
    exact (sub_le_sub_right hy.1 x).trans (le_abs_self _)
  · by_cases hhigh : high < x
    · rw [coerceIn, if_neg hlow, if_pos hhigh, abs_sub_comm, abs_of_pos (sub_pos.mpr hhigh),
        abs_sub_comm]
      exact (sub_le_sub_left hy.2 x).trans (le_abs_self _)
    · rw [coerceIn_of_mem ⟨not_lt.mp hlow, not_lt.mp hhigh⟩, sub_self, abs_zero]
      exact abs_nonneg _

end Wldroid.Foundation
