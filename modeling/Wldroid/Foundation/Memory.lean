import Mathlib.Tactic

/-!
# Memory

Memory as a function from addresses to cells, with the operations on a range of addresses and what
they leave alone.

* `RawMemory.read` — the cells of a range;
* `RawMemory.fill` — `memset`: `fill_eq_self_iff` tells when it changes nothing, `read_fill_before`
  and `read_fill_self` what is read afterwards;
* `RawMemory.copy` — `memcpy`, and `RawMemory.moves` — several of them: `moves_inside` and
  `moves_outside` tell what is where afterwards;
* `RawMemory.flip` — the rows of an image copied in reverse order: `flip_row` and `flip_outside`.
-/

namespace Wldroid.Foundation

/-- What is at each address. -/
abbrev RawMemory (α : Type*) := ℕ → α

namespace RawMemory

variable {α : Type*}

/-- The cells of a range. -/
def read (m : RawMemory α) (a n : ℕ) : List α := (List.range n).map fun i => m (a + i)

/-- The same value in all cells of a range. -/
def fill (m : RawMemory α) (a n : ℕ) (v : α) : RawMemory α :=
  fun i => if a ≤ i ∧ i < a + n then v else m i

@[simp] theorem length_read (m : RawMemory α) (a n : ℕ) : (m.read a n).length = n := by
  simp [read]

/-- A range in two parts. -/
theorem read_add (m : RawMemory α) (a n k : ℕ) :
    m.read a (n + k) = m.read a n ++ m.read (a + n) k := by
  unfold read
  rw [List.range_add, List.map_append, List.map_map]
  congr 2
  funext i
  show m (a + (n + i)) = m (a + n + i)
  rw [Nat.add_assoc]

theorem read_congr {m m' : RawMemory α} {a n : ℕ} (h : ∀ i < n, m (a + i) = m' (a + i)) :
    m.read a n = m'.read a n :=
  List.map_congr_left fun i hi => h i (List.mem_range.mp hi)

theorem fill_inside (m : RawMemory α) {a n i : ℕ} (v : α) (hi : i < n) :
    m.fill a n v (a + i) = v := if_pos ⟨by omega, by omega⟩

theorem fill_outside (m : RawMemory α) {a n i : ℕ} (v : α) (hi : i < a ∨ a + n ≤ i) :
    m.fill a n v i = m i := if_neg (by omega)

/-- What lies before the range is read as before. -/
theorem read_fill_before (m : RawMemory α) {a n b k : ℕ} (v : α) (h : b + k ≤ a) :
    (m.fill a n v).read b k = m.read b k :=
  read_congr fun i hi => fill_outside m v (.inl (by omega))

theorem read_fill_self (m : RawMemory α) (a n : ℕ) (v : α) :
    (m.fill a n v).read a n = List.replicate n v := by
  rw [List.eq_replicate_iff]
  refine ⟨length_read _ _ _, fun x hx => ?_⟩
  obtain ⟨i, hi, rfl⟩ := List.mem_map.mp hx
  exact fill_inside m v (List.mem_range.mp hi)

/-- Filling changes nothing exactly if the value is there already. -/
theorem fill_eq_self_iff {m : RawMemory α} {a n : ℕ} {v : α} :
    m.fill a n v = m ↔ ∀ i < n, m (a + i) = v := by
  constructor
  · intro h i hi
    rw [← h, fill_inside m v hi]
  · intro h
    funext i
    unfold fill
    split
    · rename_i hin
      have hcell := h (i - a) (by omega)
      rw [show a + (i - a) = i by omega] at hcell
      exact hcell.symm
    · rfl

/-! ### Copies -/

/-- A range copied from another one. -/
def copy (m : RawMemory α) (dst src n : ℕ) : RawMemory α :=
  fun i => if dst ≤ i ∧ i < dst + n then m (src + (i - dst)) else m i

theorem copy_inside (m : RawMemory α) (dst src : ℕ) {n i : ℕ} (hi : i < n) :
    m.copy dst src n (dst + i) = m (src + i) := by
  unfold copy
  rw [if_pos ⟨by omega, by omega⟩, Nat.add_sub_cancel_left]

theorem copy_outside (m : RawMemory α) {dst n a : ℕ} (src : ℕ) (ha : a < dst ∨ dst + n ≤ a) :
    m.copy dst src n a = m a := if_neg (by omega)

/-- One `memcpy`. -/
structure Move where
  dst : ℕ
  src : ℕ
  size : ℕ
  deriving DecidableEq, Repr

/-- Ranges without a common cell. -/
def Apart (a n b k : ℕ) : Prop := a + n ≤ b ∨ b + k ≤ a

/-- One `memcpy` after another. -/
def moves (m : RawMemory α) (l : List Move) : RawMemory α :=
  l.foldl (fun m c => m.copy c.dst c.src c.size) m

theorem moves_outside (m : RawMemory α) {l : List Move} {a : ℕ}
    (ha : ∀ c ∈ l, a < c.dst ∨ c.dst + c.size ≤ a) : m.moves l a = m a := by
  induction l generalizing m with
  | nil => rfl
  | cons c l ih =>
    obtain ⟨hc, hl⟩ := List.forall_mem_cons.mp ha
    exact (ih (m.copy c.dst c.src c.size) hl).trans (copy_outside m c.src hc)

/-- **What several copies leave.**  If they write to ranges apart, and none to one that is read,
every range written to holds what was in the range it was copied from. -/
theorem moves_inside (m : RawMemory α) {l : List Move}
    (hwrites : l.Pairwise fun c c' => Apart c.dst c.size c'.dst c'.size)
    (hreads : ∀ c ∈ l, ∀ c' ∈ l, Apart c.dst c.size c'.src c'.size) {c : Move} (hc : c ∈ l)
    {i : ℕ} (hi : i < c.size) : m.moves l (c.dst + i) = m (c.src + i) := by
  induction l generalizing m with
  | nil => exact absurd hc List.not_mem_nil
  | cons first l ih =>
    obtain ⟨hfirst, hwrites⟩ := List.pairwise_cons.mp hwrites
    show (m.copy first.dst first.src first.size).moves l (c.dst + i) = _
    rcases List.mem_cons.mp hc with rfl | hc
    · rw [moves_outside, copy_inside m _ _ hi]
      intro c' hc'
      rcases hfirst c' hc' with h | h
      · exact .inl (by omega)
      · exact .inr (by omega)
    · rw [ih _ hwrites (fun b hb b' hb' => hreads b (.tail _ hb) b' (.tail _ hb')) hc]
      refine copy_outside m _ ?_
      rcases hreads first (.head _) c (.tail _ hc) with h | h
      · exact .inr (by omega)
      · exact .inl (by omega)

/-- The first rows of an image of `h` rows, copied from the last ones. -/
def flipFirst (m : RawMemory α) (dst src stride h k : ℕ) : RawMemory α :=
  (List.range k).foldl
    (fun m row => m.copy (dst + row * stride) (src + (h - 1 - row) * stride) stride) m

/-- All rows. -/
def flip (m : RawMemory α) (dst src stride h : ℕ) : RawMemory α := m.flipFirst dst src stride h h

theorem flipFirst_eq_moves (m : RawMemory α) (dst src stride h k : ℕ) :
    m.flipFirst dst src stride h k = m.moves ((List.range k).map fun row =>
      ⟨dst + row * stride, src + (h - 1 - row) * stride, stride⟩) := by
  rw [moves, List.foldl_map]
  rfl

/-- The cells outside the rows that have been copied. -/
theorem flipFirst_outside (m : RawMemory α) {dst stride k a : ℕ} (src h : ℕ)
    (ha : a < dst ∨ dst + k * stride ≤ a) : m.flipFirst dst src stride h k a = m a := by
  rw [flipFirst_eq_moves]
  refine moves_outside m fun c hc => ?_
  obtain ⟨row, hrow, rfl⟩ := List.mem_map.mp hc
  have hbelow : (row + 1) * stride ≤ k * stride :=
    Nat.mul_le_mul_right stride (List.mem_range.mp hrow)
  rw [Nat.succ_mul] at hbelow
  show a < dst + row * stride ∨ dst + row * stride + stride ≤ a
  omega

/-- The rows that have been copied, from an image that is elsewhere. -/
theorem flipFirst_row (m : RawMemory α) {dst src stride h k : ℕ} (hk : k ≤ h)
    (happart : dst + h * stride ≤ src ∨ src + h * stride ≤ dst) {y x : ℕ} (hy : y < k)
    (hx : x < stride) :
    m.flipFirst dst src stride h k (dst + y * stride + x) =
      m (src + (h - 1 - y) * stride + x) := by
  have hrow : ∀ row < h, (row + 1) * stride ≤ h * stride := fun row hr =>
    Nat.mul_le_mul_right stride hr
  simp only [Nat.succ_mul] at hrow
  rw [flipFirst_eq_moves]
  refine moves_inside m ?_ ?_ (List.mem_map.mpr ⟨y, List.mem_range.mpr hy, rfl⟩) hx
  · rw [List.pairwise_map]
    refine List.pairwise_lt_range.imp fun {r r'} hlt => .inl ?_
    have hbelow : (r + 1) * stride ≤ r' * stride := Nat.mul_le_mul_right stride hlt
    rw [Nat.succ_mul] at hbelow
    show dst + r * stride + stride ≤ dst + r' * stride
    omega
  · intro c hc c' hc'
    obtain ⟨r, hr, rfl⟩ := List.mem_map.mp hc
    obtain ⟨r', hr', rfl⟩ := List.mem_map.mp hc'
    have hto := hrow r (lt_of_lt_of_le (List.mem_range.mp hr) hk)
    have hfrom := hrow (h - 1 - r') (by have := List.mem_range.mp hr'; omega)
    show dst + r * stride + stride ≤ src + (h - 1 - r') * stride ∨
      src + (h - 1 - r') * stride + stride ≤ dst + r * stride
    omega

theorem flip_row (m : RawMemory α) {dst src stride h : ℕ}
    (happart : dst + h * stride ≤ src ∨ src + h * stride ≤ dst) {y x : ℕ} (hy : y < h)
    (hx : x < stride) :
    m.flip dst src stride h (dst + y * stride + x) = m (src + (h - 1 - y) * stride + x) :=
  flipFirst_row m le_rfl happart hy hx

theorem flip_outside (m : RawMemory α) {dst stride h a : ℕ} (src : ℕ)
    (ha : a < dst ∨ dst + h * stride ≤ a) : m.flip dst src stride h a = m a :=
  flipFirst_outside m src h ha

end RawMemory

end Wldroid.Foundation
