import Mathlib.Tactic

/-!
# Things lent and given back

A lender gives things away; the borrower gives them back, and the lender is told of it later, in the
order in which they have been given back.

* `Loans.Out` — what the lender has not been told to be back;
* `Loans.Orderly` — nothing is held and on its way back at once, or on its way twice;
* what `lend`, `giveBack`, `notice` and `drop` do to the first, and that they keep the second.
-/

namespace Wldroid.Foundation

variable {α : Type*}

/-- What the borrower holds, and what it has given back without the lender knowing yet. -/
structure Loans (α : Type*) where
  held : α → Bool
  returning : List α

namespace Loans

/-- Nothing has been lent. -/
def empty : Loans α := ⟨fun _ => false, []⟩

def lend [DecidableEq α] (l : Loans α) (x : α) : Loans α :=
  { l with held := Function.update l.held x true }

def giveBack [DecidableEq α] (l : Loans α) (x : α) : Loans α :=
  ⟨Function.update l.held x false, l.returning ++ [x]⟩

/-- The lender is told of the first thing that has been given back. -/
def notice (l : Loans α) : Loans α := { l with returning := l.returning.tail }

/-- The thing ceases to exist. -/
def drop [DecidableEq α] (l : Loans α) (x : α) : Loans α :=
  ⟨Function.update l.held x false, l.returning.filter fun y => y ≠ x⟩

/-- The lender does not know that it is back. -/
def Out (l : Loans α) (x : α) : Prop := l.held x = true ∨ x ∈ l.returning

structure Orderly (l : Loans α) : Prop where
  nodup : l.returning.Nodup
  apart : ∀ x, l.held x = true → x ∉ l.returning

section Rules

variable {l : Loans α} {x y : α}

theorem not_out_empty : ¬ (empty : Loans α).Out x := by
  rintro (hheld | hmem)
  · cases hheld
  · cases hmem

theorem orderly_empty : (empty : Loans α).Orderly := ⟨List.nodup_nil, nofun⟩

/-- The lender is told of one thing. -/
theorem Orderly.out_notice (h : l.Orderly) {rest : List α} (hfirst : l.returning = x :: rest) :
    l.notice.Out y ↔ l.Out y ∧ y ≠ x := by
  have hnodup := h.nodup
  rw [hfirst] at hnodup
  have hnew : x ∉ rest := (List.nodup_cons.mp hnodup).1
  show (l.held y = true ∨ y ∈ l.returning.tail) ↔ (l.held y = true ∨ y ∈ l.returning) ∧ y ≠ x
  rw [hfirst, List.tail_cons, List.mem_cons]
  constructor
  · rintro (hheld | hmem)
    · refine ⟨.inl hheld, ?_⟩
      rintro rfl
      exact h.apart y hheld (hfirst ▸ List.mem_cons_self)
    · refine ⟨.inr (.inr hmem), ?_⟩
      rintro rfl
      exact hnew hmem
  · rintro ⟨hheld | hsame | hmem, hne⟩
    · exact .inl hheld
    · exact absurd hsame hne
    · exact .inr hmem

theorem Orderly.notice (h : l.Orderly) : l.notice.Orderly :=
  ⟨h.nodup.tail, fun y hy hmem => h.apart y hy (List.mem_of_mem_tail hmem)⟩

/-- Held, when nothing of it is on its way back. -/
theorem out_iff_held (hx : x ∉ l.returning) : l.Out x ↔ l.held x = true :=
  ⟨fun h => h.resolve_right hx, .inl⟩

variable [DecidableEq α]

theorem held_lend : (l.lend x).held y = true ↔ y = x ∨ l.held y = true := by
  show Function.update l.held x true y = true ↔ _
  by_cases hyx : y = x
  · subst hyx
    simp
  · rw [Function.update_of_ne hyx]
    simp [hyx]

theorem held_update_false :
    Function.update l.held x false y = true ↔ y ≠ x ∧ l.held y = true := by
  by_cases hyx : y = x
  · subst hyx
    simp
  · rw [Function.update_of_ne hyx]
    simp [hyx]

theorem out_lend : (l.lend x).Out y ↔ y = x ∨ l.Out y := by
  unfold Out
  rw [held_lend, or_assoc]
  rfl

theorem Orderly.lend (h : l.Orderly) (hx : x ∉ l.returning) : (l.lend x).Orderly := by
  refine ⟨h.nodup, fun y hy => ?_⟩
  rcases held_lend.mp hy with rfl | hheld
  · exact hx
  · exact h.apart y hheld

/-- What is given back is out until the lender is told. -/
theorem out_giveBack (hx : l.held x = true) : (l.giveBack x).Out y ↔ l.Out y := by
  show (Function.update l.held x false y = true ∨ y ∈ l.returning ++ [x]) ↔ _
  rw [held_update_false, List.mem_append, List.mem_singleton]
  constructor
  · rintro (⟨-, hheld⟩ | hmem | rfl)
    · exact .inl hheld
    · exact .inr hmem
    · exact .inl hx
  · rintro (hheld | hmem)
    · by_cases hyx : y = x
      · exact .inr (.inr hyx)
      · exact .inl ⟨hyx, hheld⟩
    · exact .inr (.inl hmem)

theorem Orderly.giveBack (h : l.Orderly) (hx : l.held x = true) : (l.giveBack x).Orderly := by
  have hnot := h.apart x hx
  refine ⟨?_, fun y hy hmem => ?_⟩
  · refine List.nodup_append.mpr ⟨h.nodup, List.nodup_singleton x, fun y hy z hz => ?_⟩
    rw [List.mem_singleton.mp hz]
    rintro rfl
    exact hnot hy
  · obtain ⟨hne, hheld⟩ := held_update_false.mp hy
    rcases List.mem_append.mp hmem with hold | hnew
    · exact h.apart y hheld hold
    · exact hne (List.mem_singleton.mp hnew)

theorem out_drop : (l.drop x).Out y ↔ y ≠ x ∧ l.Out y := by
  show (Function.update l.held x false y = true ∨ y ∈ l.returning.filter fun z => z ≠ x) ↔ _
  rw [held_update_false, List.mem_filter, decide_eq_true_iff]
  constructor
  · rintro (⟨hne, hheld⟩ | ⟨hmem, hne⟩)
    · exact ⟨hne, .inl hheld⟩
    · exact ⟨hne, .inr hmem⟩
  · rintro ⟨hne, hheld | hmem⟩
    · exact .inl ⟨hne, hheld⟩
    · exact .inr ⟨hmem, hne⟩

theorem Orderly.drop (h : l.Orderly) (x : α) : (l.drop x).Orderly := by
  refine ⟨h.nodup.filter _, fun y hy hmem => ?_⟩
  exact h.apart y (held_update_false.mp hy).2 (List.mem_filter.mp hmem).1

end Rules

end Loans

end Wldroid.Foundation
