import Mathlib.Tactic

/-!
# Ledgers of acquired and released resources

A program's resource calls in order.  `settle` reads them: what has been acquired and not yet
released, and nothing at all once something is released that is not held.

* `settle_returned` — what is acquired and then released, in any order, leaves the ledger as it was;
* `settle_releases` — a list of resources that are held can be released;
* `settle_release_of_notMem` — one that is not cannot.
-/

namespace Wldroid.Foundation

variable {ρ : Type} [DecidableEq ρ]

/-- A resource call. -/
inductive LedgerEntry (ρ : Type) where
  | acquire (r : ρ)
  | release (r : ρ)
  deriving DecidableEq

/-- What is held after some calls, if every release was of something held. -/
def settle : Multiset ρ → List (LedgerEntry ρ) → Option (Multiset ρ)
  | held, [] => some held
  | held, .acquire r :: rest => settle (r ::ₘ held) rest
  | held, .release r :: rest => if r ∈ held then settle (held.erase r) rest else none

/-- Acquire some resources, one after the other. -/
def acquires (rs : List ρ) : List (LedgerEntry ρ) := rs.map .acquire

/-- Release some resources, one after the other. -/
def releases (rs : List ρ) : List (LedgerEntry ρ) := rs.map .release

theorem settle_append (l l' : List (LedgerEntry ρ)) (held : Multiset ρ) :
    settle held (l ++ l') = (settle held l).bind fun held' => settle held' l' := by
  induction l generalizing held with
  | nil => rfl
  | cons e rest ih =>
    cases e with
    | acquire r => exact ih (r ::ₘ held)
    | release r =>
      show (if r ∈ held then settle (held.erase r) (rest ++ l') else none) =
        (if r ∈ held then settle (held.erase r) rest else none).bind fun held' => settle held' l'
      split
      · exact ih (held.erase r)
      · rfl

theorem settle_acquires (rs : List ρ) (held : Multiset ρ) :
    settle held (acquires rs) = some (↑rs + held) := by
  induction rs generalizing held with
  | nil => exact congrArg some (zero_add held).symm
  | cons r rs ih =>
    show settle (r ::ₘ held) (acquires rs) = some (↑(r :: rs) + held)
    rw [ih, ← Multiset.cons_coe, Multiset.cons_add, Multiset.add_cons]

/-- What is held can be released. -/
theorem settle_releases (rs : List ρ) (held : Multiset ρ) :
    settle ((rs : Multiset ρ) + held) (releases rs) = some held := by
  induction rs with
  | nil => exact congrArg some (zero_add held)
  | cons r rs ih =>
    show (if r ∈ (↑(r :: rs) : Multiset ρ) + held then
      settle (((↑(r :: rs) : Multiset ρ) + held).erase r) (releases rs) else none) = some held
    rw [← Multiset.cons_coe, Multiset.cons_add, if_pos (Multiset.mem_cons_self r _),
      Multiset.erase_cons_head, ih]

/-- What is not held cannot be released, whatever follows. -/
theorem settle_release_of_notMem {r : ρ} {held : Multiset ρ} (h : r ∉ held)
    (rest : List (LedgerEntry ρ)) : settle held (.release r :: rest) = none := if_neg h

/-- **What is acquired and released again leaves no trace**, in whatever order it is released. -/
theorem settle_returned {rs rs' : List ρ} (h : rs.Perm rs') (held : Multiset ρ) :
    settle held (acquires rs ++ releases rs') = some held := by
  rw [settle_append, settle_acquires, Multiset.coe_eq_coe.mpr h]
  exact settle_releases rs' held

/-- A ledger goes on with what is acquired. -/
theorem settle_append_acquires {log : List (LedgerEntry ρ)} {old new rs : List ρ}
    (h : settle 0 log = some ↑old) (hp : new.Perm (rs ++ old)) :
    settle 0 (log ++ acquires rs) = some ↑new := by
  rw [settle_append, h, Option.bind_some, settle_acquires, Multiset.coe_eq_coe.mpr hp]
  rfl

/-- A ledger goes on with the release of what is held. -/
theorem settle_append_releases {log : List (LedgerEntry ρ)} {old new rs : List ρ}
    (h : settle 0 log = some ↑old) (hp : old.Perm (rs ++ new)) :
    settle 0 (log ++ releases rs) = some ↑new := by
  rw [settle_append, h, Option.bind_some, Multiset.coe_eq_coe.mpr hp]
  exact settle_releases rs new

end Wldroid.Foundation
