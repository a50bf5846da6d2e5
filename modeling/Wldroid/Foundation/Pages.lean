import Mathlib.Tactic

/-!
# Address spaces

A process's address space by its pages: what is mapped at each of them, if anything.

* `pagesOf` — the pages of a range that starts on a page boundary;
* `Pages.map`, `Pages.unmap` — a new mapping replaces what was there; a removal leaves nothing;
* `Pages.map_eq_some`, `Pages.unmap_eq_some` — what is mapped where afterwards.
-/

namespace Wldroid.Foundation

variable {α : Type}

/-- What is mapped at each page. -/
abbrev Pages (α : Type) := ℕ → Option α

/-- The pages of the `length` bytes from an address on; the last one counts in full. -/
def pagesOf (pageSize address length : ℕ) : List ℕ :=
  List.range' (address / pageSize) ((length + pageSize - 1) / pageSize)

namespace Pages

/-- Map something at some pages. -/
def map (m : Pages α) (range : List ℕ) (a : α) : Pages α :=
  fun page => if page ∈ range then some a else m page

/-- Leave nothing mapped at some pages. -/
def unmap (m : Pages α) (range : List ℕ) : Pages α :=
  fun page => if page ∈ range then none else m page

/-- Nothing is mapped at any of the pages. -/
def Free (m : Pages α) (range : List ℕ) : Prop := ∀ page ∈ range, m page = none

instance [DecidableEq α] (m : Pages α) (range : List ℕ) : Decidable (m.Free range) :=
  inferInstanceAs (Decidable (∀ page ∈ range, m page = none))

theorem map_eq_some {m : Pages α} {range : List ℕ} {a b : α} {page : ℕ} :
    m.map range a page = some b ↔
      page ∈ range ∧ a = b ∨ page ∉ range ∧ m page = some b := by
  unfold map
  by_cases hmem : page ∈ range
  · simp [hmem]
  · simp [hmem]

theorem unmap_eq_some {m : Pages α} {range : List ℕ} {b : α} {page : ℕ} :
    m.unmap range page = some b ↔ page ∉ range ∧ m page = some b := by
  unfold unmap
  by_cases hmem : page ∈ range
  · simp [hmem]
  · simp [hmem]

/-- The pages of several ranges are removed one range after the other. -/
theorem foldl_unmap_eq_some {ranges : List (List ℕ)} {b : α} {page : ℕ} :
    ∀ {m : Pages α}, ranges.foldl unmap m page = some b ↔
      (∀ range ∈ ranges, page ∉ range) ∧ m page = some b := by
  induction ranges with
  | nil => intro m; simp
  | cons range rest ih =>
    intro m
    rw [List.foldl_cons, ih, unmap_eq_some, List.forall_mem_cons]
    tauto

end Pages

end Wldroid.Foundation
