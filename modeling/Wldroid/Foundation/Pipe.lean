import Mathlib.Tactic

/-!
# Bounded byte pipes used as wake-ups

A non-blocking pipe holds finitely many unread bytes, at most its (positive) capacity.  A write
appends one byte or fails with `EAGAIN` because the pipe is full; a read takes at most as many
bytes as it asks for, and takes none exactly when there are none.

The lemma that wake-up protocols rest on is `Pipe.unread_write`: after a write — appended or
refused — the pipe has an unread byte.
-/

namespace Wldroid.Foundation

/-- A pipe whose two ends are `O_NONBLOCK`. -/
structure Pipe (β : Type) where
  capacity : ℕ
  unread : List β
  capacity_pos : 0 < capacity
  fits : unread.length ≤ capacity

namespace Pipe

variable {β : Type}

/-- A fresh pipe. -/
def empty (capacity : ℕ) (h : 0 < capacity) : Pipe β := ⟨capacity, [], h, Nat.zero_le _⟩

/-- `write(fd, &b, 1)`: appends the byte, or leaves the pipe as it is (`EAGAIN`). -/
def write (p : Pipe β) (b : β) : Pipe β :=
  if h : p.unread.length < p.capacity then
    { p with
      unread := p.unread ++ [b]
      fits := by rw [List.length_append, List.length_singleton]; exact h }
  else p

/-- `read(fd, buf, n)`: the bytes taken, and the pipe without them.  No bytes is `EAGAIN`. -/
def read (p : Pipe β) (n : ℕ) : List β × Pipe β :=
  (p.unread.take n,
    { p with
      unread := p.unread.drop n
      fits := by rw [List.length_drop]; exact le_trans (Nat.sub_le _ _) p.fits })

@[simp] theorem read_unread (p : Pipe β) (n : ℕ) : (p.read n).2.unread = p.unread.drop n := rfl

@[simp] theorem read_bytes (p : Pipe β) (n : ℕ) : (p.read n).1 = p.unread.take n := rfl

/-- **A write leaves something to read**, whether it appended its byte or found the pipe full. -/
theorem unread_write (p : Pipe β) (b : β) : (p.write b).unread ≠ [] := by
  unfold write
  split
  · simp
  · rename_i hfull
    intro hnil
    have hpos := p.capacity_pos
    simp only [hnil, List.length_nil] at hfull
    exact hfull hpos

/-- A write with room appends. -/
theorem write_of_room {p : Pipe β} (h : p.unread.length < p.capacity) (b : β) :
    (p.write b).unread = p.unread ++ [b] := by
  rw [write, dif_pos h]

@[simp] theorem write_capacity (p : Pipe β) (b : β) : (p.write b).capacity = p.capacity := by
  unfold write
  split <;> rfl

end Pipe

end Wldroid.Foundation
