import Mathlib.Tactic

/-!
# Lists of blocks on a heap

A list whose elements are blocks, each with the address of the next.  It is built by putting new
blocks in front, and given back by freeing one block after the other.

* `valuesAt` — what a reader who follows the addresses finds;
* `freeAll` — the loop that frees all blocks, which fails at a block that is not there;
* `Stacked` — a heap that is another one with a list put on it: `Stacked.valuesAt` tells what is
  read, and `Stacked.freeAll` that freeing the list gives the other heap back;
* `Builder.add` — a new block where the allocator finds room, with `Built` for what has been built.
-/

namespace Wldroid.Foundation

variable {α : Type*}

structure Block (α : Type*) where
  val : α
  next : Option ℕ

/-- The allocated blocks by address. -/
abbrev BlockHeap (α : Type*) := ℕ → Option (Block α)

/-- The values of the list from an address on, if it is so long at most and has no freed block. -/
def valuesAt : ℕ → BlockHeap α → Option ℕ → Option (List α)
  | _, _, none => some []
  | 0, _, some _ => none
  | n + 1, heap, some a => do
      let block ← heap a
      return block.val :: (← valuesAt n heap block.next)

/-- Free the blocks of a list one after the other. -/
def freeAll : ℕ → BlockHeap α → Option ℕ → Option (BlockHeap α)
  | _, heap, none => some heap
  | 0, _, some _ => none
  | n + 1, heap, some a => do
      let block ← heap a
      freeAll n (Function.update heap a none) block.next

/-- The heap is `base` with a list of these values put on it. -/
inductive Stacked (base : BlockHeap α) : BlockHeap α → Option ℕ → List α → Prop where
  | nil : Stacked base base none []
  | cons {heap : BlockHeap α} {p : Option ℕ} {a : ℕ} {v : α} {vs : List α}
      (stacked : Stacked base heap p vs) (free : heap a = none) :
      Stacked base (Function.update heap a (some ⟨v, p⟩)) (some a) (v :: vs)

/-- A block that is not read does not matter. -/
theorem valuesAt_update {heap : BlockHeap α} {a : ℕ} (hfree : heap a = none) (block : Block α) :
    ∀ {n : ℕ} {p : Option ℕ} {vs : List α}, valuesAt n heap p = some vs →
      valuesAt n (Function.update heap a (some block)) p = some vs := by
  intro n
  induction n with
  | zero =>
    intro p vs h
    cases p with
    | none => exact h
    | some b => cases h
  | succ n ih =>
    intro p vs h
    cases p with
    | none => exact h
    | some b =>
      obtain ⟨found, hfound, h⟩ := Option.bind_eq_some_iff.mp h
      obtain ⟨rest, hrest, hvs⟩ := Option.bind_eq_some_iff.mp h
      have hne : b ≠ a := fun heq => nomatch (heq ▸ hfound).symm.trans hfree
      show (Function.update heap a (some block) b).bind _ = _
      rw [Function.update_of_ne hne, hfound, Option.bind_some]
      show (valuesAt n (Function.update heap a (some block)) found.next).bind _ = _
      rw [ih hrest]
      exact hvs

theorem Stacked.valuesAt {base heap : BlockHeap α} {p : Option ℕ} {vs : List α}
    (h : Stacked base heap p vs) {n : ℕ} (hn : vs.length ≤ n) : valuesAt n heap p = some vs := by
  induction h generalizing n with
  | nil => cases n <;> rfl
  | @cons heap p a v vs stacked free ih =>
    obtain ⟨m, rfl⟩ := Nat.exists_eq_succ_of_ne_zero (Nat.ne_of_gt (Nat.zero_lt_of_lt hn))
    have hrest := valuesAt_update free ⟨v, p⟩ (ih (Nat.le_of_succ_le_succ hn))
    show (Function.update heap a (some ⟨v, p⟩) a).bind _ = _
    rw [Function.update_self, Option.bind_some]
    show (Foundation.valuesAt m _ p).bind _ = _
    rw [hrest]
    rfl

/-- Freeing the list gives the heap back as it was. -/
theorem Stacked.freeAll {base heap : BlockHeap α} {p : Option ℕ} {vs : List α}
    (h : Stacked base heap p vs) {n : ℕ} (hn : vs.length ≤ n) : freeAll n heap p = some base := by
  induction h generalizing n with
  | nil => cases n <;> rfl
  | @cons heap p a v vs stacked free ih =>
    obtain ⟨m, rfl⟩ := Nat.exists_eq_succ_of_ne_zero (Nat.ne_of_gt (Nat.zero_lt_of_lt hn))
    have hback : Function.update (Function.update heap a (some ⟨v, p⟩)) a none = heap := by
      rw [Function.update_idem, ← free, Function.update_eq_self]
    show (Function.update heap a (some ⟨v, p⟩) a).bind _ = _
    rw [Function.update_self, Option.bind_some, hback]
    exact ih (Nat.le_of_succ_le_succ hn)

/-! ### Building a list -/

/-- A heap, the first address that was never given out, the allocations so far and the list's
head. -/
structure Builder (α : Type*) where
  heap : BlockHeap α
  fresh : ℕ
  calls : ℕ
  head : Option ℕ

/-- Put a value in front, unless this allocation is one that fails. -/
def Builder.add (succeeds : ℕ → Bool) (b : Builder α) (v : α) : Builder α :=
  if succeeds b.calls then
    { heap := Function.update b.heap b.fresh (some ⟨v, b.head⟩)
      fresh := b.fresh + 1
      calls := b.calls + 1
      head := some b.fresh }
  else { b with calls := b.calls + 1 }

/-- The values whose allocations succeed, the first of which is the `n`-th. -/
def kept (succeeds : ℕ → Bool) : ℕ → List α → List α
  | _, [] => []
  | n, v :: vs => if succeeds n then v :: kept succeeds (n + 1) vs else kept succeeds (n + 1) vs

/-- So many allocations after the heap was `base`, these values are in the list. -/
structure Built (base : BlockHeap α) (b : Builder α) (n : ℕ) (vs : List α) : Prop where
  stacked : Stacked base b.heap b.head vs
  fresh : ∀ a, b.fresh ≤ a → b.heap a = none
  calls : b.calls = n

theorem Built.add {base : BlockHeap α} {b : Builder α} {n : ℕ} {vs : List α}
    (h : Built base b n vs) (succeeds : ℕ → Bool) (v : α) :
    Built base (b.add succeeds v) (n + 1) (kept succeeds n [v] ++ vs) := by
  have hcalls : b.calls + 1 = n + 1 := congrArg Nat.succ h.calls
  by_cases hok : succeeds n = true
  · rw [Builder.add, h.calls, if_pos hok, kept, if_pos hok]
    refine ⟨h.stacked.cons (h.fresh _ le_rfl), ?_, rfl⟩
    intro a ha
    have hne : a ≠ b.fresh := Nat.ne_of_gt ha
    exact (Function.update_of_ne hne _ _).trans (h.fresh a (Nat.le_of_succ_le ha))
  · rw [Builder.add, h.calls, if_neg hok, kept, if_neg hok]
    exact ⟨h.stacked, h.fresh, rfl⟩

theorem kept_append (succeeds : ℕ → Bool) (vs vs' : List α) :
    ∀ n, kept succeeds n (vs ++ vs') = kept succeeds n vs ++ kept succeeds (n + vs.length) vs' := by
  induction vs with
  | nil => exact fun n => rfl
  | cons v vs ih =>
    intro n
    rw [List.cons_append, kept, kept, ih (n + 1), List.length_cons,
      show n + 1 + vs.length = n + (vs.length + 1) by omega]
    split <;> rfl

theorem kept_singleton_reverse (succeeds : ℕ → Bool) (n : ℕ) (v : α) :
    (kept succeeds n [v]).reverse = kept succeeds n [v] := by
  unfold kept
  split <;> rfl

/-- A loop that adds values builds the list of those that are kept, the last first. -/
theorem Built.foldl {β : Type*} {base : BlockHeap α} (succeeds : ℕ → Bool)
    (body : Builder α → β → Builder α) (valueOf : β → Option α)
    (hbody : ∀ b x, body b x = ((valueOf x).map (b.add succeeds)).getD b) (l : List β) :
    ∀ {b : Builder α} {n : ℕ} {vs : List α}, Built base b n vs →
      Built base (l.foldl body b) (n + (l.filterMap valueOf).length)
        ((kept succeeds n (l.filterMap valueOf)).reverse ++ vs) := by
  induction l with
  | nil =>
    intro b n vs h
    exact h
  | cons x l ih =>
    intro b n vs h
    rw [List.foldl_cons, hbody, List.filterMap_cons]
    cases valueOf x with
    | none => exact ih h
    | some v =>
      show Built base (l.foldl body (b.add succeeds v)) (n + ([v] ++ l.filterMap valueOf).length)
        ((kept succeeds n ([v] ++ l.filterMap valueOf)).reverse ++ vs)
      rw [kept_append, List.reverse_append, kept_singleton_reverse, List.append_assoc,
        List.length_append, ← Nat.add_assoc]
      exact ih (h.add succeeds v)

end Wldroid.Foundation
