import Mathlib.Tactic

/-!
# Descriptor tables with lowest-free allocation

A process' descriptor table maps small numbers to open files.  A new descriptor is the lowest
free number at or above a bound, below the process' limit; closing a number frees it for reuse.
Numbers arrive from the outside as integers, so a look-up of a negative number finds nothing.
-/

namespace Wldroid.Foundation

/-- The open files of a process, by descriptor number, below a limit. -/
structure Descriptors (φ : Type) where
  limit : ℕ
  file : ℕ → Option φ

namespace Descriptors

variable {φ : Type}

/-- The lowest free number that is at least `from`. -/
def lowestFree (d : Descriptors φ) (bound : ℕ) : Option ℕ :=
  (List.range d.limit).find? fun n => decide (bound ≤ n) && (d.file n).isNone

/-- The file open at a number given as a C `int`. -/
def fileAt (d : Descriptors φ) (fd : ℤ) : Option φ :=
  if fd < 0 then none else d.file fd.toNat

/-- Open a file at a given number. -/
def install (d : Descriptors φ) (n : ℕ) (f : φ) : Descriptors φ :=
  { d with file := fun m => if m = n then some f else d.file m }

/-- `close(fd)`; an unopened number (`EBADF`) changes nothing. -/
def close (d : Descriptors φ) (fd : ℤ) : Descriptors φ :=
  if fd < 0 then d else { d with file := fun m => if m = fd.toNat then none else d.file m }

theorem lowestFree_free {d : Descriptors φ} {bound n : ℕ} (h : d.lowestFree bound = some n) :
    d.file n = none := by
  have hfind := List.find?_some h
  simp only [Bool.and_eq_true, Option.isNone_iff_eq_none] at hfind
  exact hfind.2

@[simp] theorem fileAt_natCast (d : Descriptors φ) (n : ℕ) : d.fileAt (n : ℤ) = d.file n := by
  simp [fileAt]

theorem fileAt_install (d : Descriptors φ) (n : ℕ) (f : φ) (fd : ℤ) :
    (d.install n f).fileAt fd = if fd = n then some f else d.fileAt fd := by
  unfold fileAt install
  by_cases hneg : fd < 0
  · have hne : fd ≠ (n : ℤ) := by omega
    simp [hneg, hne]
  · have hiff : fd.toNat = n ↔ fd = (n : ℤ) := by omega
    simp [hneg, hiff]

theorem fileAt_close (d : Descriptors φ) (fd fd' : ℤ) :
    (d.close fd).fileAt fd' = if fd' = fd then none else d.fileAt fd' := by
  unfold fileAt close
  by_cases hneg : fd < 0
  · by_cases heq : fd' = fd
    · subst heq; simp [hneg]
    · simp [hneg, heq]
  · by_cases hneg' : fd' < 0
    · simp [hneg']
    · have hiff : fd'.toNat = fd.toNat ↔ fd' = fd := by omega
      simp [hneg, hneg', hiff]

end Descriptors

end Wldroid.Foundation
