import Mathlib.Tactic

/-!
# Runs of weighted elements

Counting from one end of a list in units, where an element weighs some number of them: the shortest
run of whole elements that weighs at least `n`, or everything if nothing does.

* `firstRun`, `lastRun` — such a run from the front and from the back;
* `lastRun_cons` — the run from the back as a forward scan finds it;
* `ShortestPrefix`, `ShortestSuffix` — what such a run is, and that these are such runs.
-/

namespace Wldroid.Foundation

variable {α : Type} (weight : α → ℕ)

/-- The weight of all elements. -/
def totalWeight (l : List α) : ℕ := (l.map weight).sum

/-- The shortest prefix that weighs at least `n`, or everything. -/
def firstRun : ℕ → List α → List α
  | _, [] => []
  | n, a :: l => if n = 0 then [] else a :: firstRun (n - weight a) l

/-- The shortest suffix that weighs at least `n`, or everything. -/
def lastRun (n : ℕ) (l : List α) : List α := (firstRun weight n l.reverse).reverse

theorem totalWeight_cons (a : α) (l : List α) :
    totalWeight weight (a :: l) = weight a + totalWeight weight l := by
  simp [totalWeight]

theorem totalWeight_reverse (l : List α) :
    totalWeight weight l.reverse = totalWeight weight l := by
  simp [totalWeight]

theorem firstRun_zero (l : List α) : firstRun weight 0 l = [] := by
  cases l with
  | nil => rfl
  | cons a l => simp [firstRun]

/-- An element at the end belongs to the run if what comes before does not weigh enough. -/
theorem firstRun_concat (n : ℕ) (l : List α) (a : α) :
    firstRun weight n (l ++ [a]) =
      if totalWeight weight l < n then l ++ [a] else firstRun weight n l := by
  induction l generalizing n with
  | nil =>
    by_cases hn : n = 0
    · simp [firstRun, hn]
    · simp [firstRun, totalWeight, hn, Nat.pos_of_ne_zero hn]
  | cons b l ih =>
    by_cases hn : n = 0
    · subst hn
      rw [firstRun_zero, firstRun_zero, if_neg (by omega)]
    · have hiff : totalWeight weight (b :: l) < n ↔ totalWeight weight l < n - weight b := by
        rw [totalWeight_cons]
        omega
      show firstRun weight n (b :: (l ++ [a])) = _
      rw [firstRun, if_neg hn, ih, firstRun, if_neg hn]
      by_cases hlt : totalWeight weight l < n - weight b
      · rw [if_pos hlt, if_pos (hiff.mpr hlt)]
        rfl
      · rw [if_neg hlt, if_neg fun h => hlt (hiff.mp h)]

/-- The run from the back starts at the first element whose successors do not weigh enough. -/
theorem lastRun_cons (n : ℕ) (a : α) (l : List α) :
    lastRun weight n (a :: l) =
      if totalWeight weight l < n then a :: l else lastRun weight n l := by
  unfold lastRun
  rw [List.reverse_cons, firstRun_concat, totalWeight_reverse]
  split
  · simp
  · rfl

theorem lastRun_nil (n : ℕ) : lastRun weight n [] = [] := rfl

theorem lastRun_suffix (n : ℕ) (l : List α) : lastRun weight n l <:+ l := by
  induction l with
  | nil => exact List.suffix_refl []
  | cons a l ih =>
    rw [lastRun_cons]
    split
    · exact List.suffix_refl _
    · exact ih.trans (List.suffix_cons a l)

theorem firstRun_prefix (n : ℕ) (l : List α) : firstRun weight n l <+: l := by
  induction l generalizing n with
  | nil => exact List.prefix_refl []
  | cons a l ih =>
    unfold firstRun
    split
    · exact List.nil_prefix
    · exact (List.prefix_cons_inj a).mpr (ih _)

/-! ### Shortest runs -/

/-- A prefix that weighs at least `n`, or everything, and no shorter one does. -/
structure ShortestPrefix (n : ℕ) (l run : List α) : Prop where
  isPrefix : run <+: l
  enough : n ≤ totalWeight weight run ∨ run = l
  least : ∀ other, other <+: l → n ≤ totalWeight weight other → run.length ≤ other.length

/-- The same from the back. -/
structure ShortestSuffix (n : ℕ) (l run : List α) : Prop where
  isSuffix : run <:+ l
  enough : n ≤ totalWeight weight run ∨ run = l
  least : ∀ other, other <:+ l → n ≤ totalWeight weight other → run.length ≤ other.length

theorem firstRun_enough (n : ℕ) (l : List α) :
    n ≤ totalWeight weight (firstRun weight n l) ∨ firstRun weight n l = l := by
  induction l generalizing n with
  | nil => exact .inr rfl
  | cons a l ih =>
    unfold firstRun
    by_cases hn : n = 0
    · rw [if_pos hn, hn]
      exact .inl (Nat.zero_le _)
    · rw [if_neg hn, totalWeight_cons]
      obtain henough | hall := ih (n - weight a)
      · exact .inl (by omega)
      · exact .inr (by rw [hall])

theorem length_firstRun_le_of_prefix (n : ℕ) (l : List α) :
    ∀ other, other <+: l → n ≤ totalWeight weight other →
      (firstRun weight n l).length ≤ other.length := by
  induction l generalizing n with
  | nil => exact fun other _ _ => Nat.zero_le _
  | cons a l ih =>
    intro other hother henough
    unfold firstRun
    by_cases hn : n = 0
    · rw [if_pos hn]
      exact Nat.zero_le _
    · rw [if_neg hn]
      cases other with
      | nil =>
        rw [show totalWeight weight ([] : List α) = 0 from rfl] at henough
        omega
      | cons b other =>
        obtain ⟨rfl, hrest⟩ := List.cons_prefix_cons.mp hother
        rw [totalWeight_cons] at henough
        have hle := ih (n - weight b) other hrest (by omega)
        simp only [List.length_cons]
        omega

theorem shortestPrefix_firstRun (n : ℕ) (l : List α) :
    ShortestPrefix weight n l (firstRun weight n l) where
  isPrefix := firstRun_prefix weight n l
  enough := firstRun_enough weight n l
  least := length_firstRun_le_of_prefix weight n l

theorem shortestSuffix_lastRun (n : ℕ) (l : List α) :
    ShortestSuffix weight n l (lastRun weight n l) where
  isSuffix := lastRun_suffix weight n l
  enough := by
    unfold lastRun
    rw [totalWeight_reverse]
    obtain henough | hall := firstRun_enough weight n l.reverse
    · exact .inl henough
    · exact .inr (by rw [hall, List.reverse_reverse])
  least other hother henough := by
    have hleast := length_firstRun_le_of_prefix weight n l.reverse other.reverse
      (List.reverse_prefix.mpr hother) (by rwa [totalWeight_reverse])
    unfold lastRun
    rwa [List.length_reverse] at hleast ⊢

end Wldroid.Foundation
