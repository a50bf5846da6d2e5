import Mathlib.Tactic

/-!
# Singly linked queues in memory

A queue with a head pointer, a tail pointer and a `next` link in every cell, over a memory that maps
addresses to cells.  Null is `none`.

* **`Chain`** — following `next` from a pointer meets exactly these cells and ends in null;
* **`IsQueue`** — the head starts the chain, the tail is its last cell, no cell occurs twice;
* **`IsQueue.push`**, **`IsQueue.pop`** — linking a new cell behind the tail and unlinking the head
  are appending to and taking from the front of the list of cells;
* **`IsQueue.congr`** — the frame rule: cells outside the queue may change.
-/

namespace Wldroid.Foundation

variable {α : Type*}

/-- A memory cell: a value and the link to the next cell. -/
structure Cell (α : Type*) where
  val : α
  next : Option ℕ

/-- A memory of cells by address. -/
abbrev Memory (α : Type*) := ℕ → Cell α

/-- `p->next = q`. -/
def setNext (mem : Memory α) (p : ℕ) (q : Option ℕ) : Memory α :=
  fun a => if a = p then { mem a with next := q } else mem a

@[simp] theorem setNext_val (mem : Memory α) (p a : ℕ) (q : Option ℕ) :
    (setNext mem p q a).val = (mem a).val := by
  unfold setNext
  split <;> rfl

theorem setNext_of_ne (mem : Memory α) {p a : ℕ} (q : Option ℕ) (h : a ≠ p) :
    setNext mem p q a = mem a := if_neg h

@[simp] theorem setNext_same (mem : Memory α) (p : ℕ) (q : Option ℕ) :
    (setNext mem p q p).next = q := by
  simp [setNext]

/-! ### Chains -/

/-- From pointer `p`, the links run through these cells, in order, to null. -/
def Chain (mem : Memory α) : Option ℕ → List (ℕ × α) → Prop
  | p, [] => p = none
  | p, (a, v) :: rest => p = some a ∧ (mem a).val = v ∧ Chain mem (mem a).next rest

/-- Memory outside the chain does not matter. -/
theorem Chain.congr {mem mem' : Memory α} {cells : List (ℕ × α)} :
    ∀ {p : Option ℕ}, Chain mem p cells → (∀ c ∈ cells, mem' c.1 = mem c.1) →
      Chain mem' p cells := by
  induction cells with
  | nil => intro p h _; exact h
  | cons c rest ih =>
    obtain ⟨a, v⟩ := c
    intro p h hsame
    obtain ⟨hp, hval, hrest⟩ := h
    have ha : mem' a = mem a := hsame (a, v) (List.mem_cons_self ..)
    refine ⟨hp, by rw [ha, hval], ?_⟩
    rw [ha]
    exact ih hrest fun c hc => hsame c (List.mem_cons_of_mem _ hc)

/-- Linking a fresh last cell behind the chain's last cell extends the chain. -/
theorem Chain.snoc {mem : Memory α} {init : List (ℕ × α)} {t a : ℕ} {w : α} :
    ∀ {p : Option ℕ}, Chain mem p (init ++ [(t, w)]) → t ∉ init.map Prod.fst →
      a ∉ (init ++ [(t, w)]).map Prod.fst → (mem a).next = none →
        Chain (setNext mem t (some a)) p (init ++ [(t, w)] ++ [(a, (mem a).val)]) := by
  induction init with
  | nil =>
    intro p h _ ha hnext
    obtain ⟨hp, hval, _⟩ := h
    have hat : a ≠ t := by simpa using ha
    refine ⟨hp, by simp [hval], ?_⟩
    simp [Chain, setNext_of_ne mem (some a) hat, hnext]
  | cons c rest ih =>
    obtain ⟨b, v⟩ := c
    intro p h ht ha hnext
    obtain ⟨hp, hval, hrest⟩ := h
    have hbt : b ≠ t := fun hb => ht (by simp [hb])
    refine ⟨hp, by simp [hval], ?_⟩
    rw [setNext_of_ne mem (some a) hbt]
    refine ih hrest (fun hm => ht ?_) (fun hm => ha ?_) hnext
    · exact List.mem_cons_of_mem _ hm
    · exact List.mem_cons_of_mem _ hm

/-! ### Queues -/

/-- `head` and `tail` hold exactly these cells, front first. -/
structure IsQueue (mem : Memory α) (head tail : Option ℕ) (cells : List (ℕ × α)) : Prop where
  chain : Chain mem head cells
  tail_eq : tail = cells.getLast?.map Prod.fst
  nodup : (cells.map Prod.fst).Nodup

theorem IsQueue.nil (mem : Memory α) : IsQueue mem none none [] := ⟨rfl, rfl, List.nodup_nil⟩

theorem IsQueue.congr {mem mem' : Memory α} {head tail : Option ℕ} {cells : List (ℕ × α)}
    (h : IsQueue mem head tail cells) (hsame : ∀ c ∈ cells, mem' c.1 = mem c.1) :
    IsQueue mem' head tail cells :=
  { h with chain := h.chain.congr hsame }

/-- The head is null exactly for the empty queue. -/
theorem IsQueue.head_none {mem : Memory α} {tail : Option ℕ} {cells : List (ℕ × α)}
    (h : IsQueue mem none tail cells) : cells = [] := by
  cases cells with
  | nil => rfl
  | cons c rest => exact absurd h.chain.1 (by simp)

/-- Link the cell at `a` behind the tail. -/
def link (mem : Memory α) (tail : Option ℕ) (a : ℕ) : Memory α :=
  match tail with
  | some t => setNext mem t (some a)
  | none => mem

@[simp] theorem link_val (mem : Memory α) (tail : Option ℕ) (a b : ℕ) :
    (link mem tail a b).val = (mem b).val := by
  cases tail with
  | none => rfl
  | some t => exact setNext_val mem t b (some a)

/-- Linking touches the tail cell only. -/
theorem link_of_ne (mem : Memory α) {tail : Option ℕ} (a : ℕ) {b : ℕ} (h : tail ≠ some b) :
    link mem tail a b = mem b := by
  cases tail with
  | none => rfl
  | some t => exact setNext_of_ne mem (some a) fun hb => h (by rw [hb])

/-- **Push.**  Linking a cell outside the queue behind the tail appends it. -/
theorem IsQueue.push {mem : Memory α} {head tail : Option ℕ} {cells : List (ℕ × α)}
    (h : IsQueue mem head tail cells) {a : ℕ} (ha : a ∉ cells.map Prod.fst)
    (hnext : (mem a).next = none) :
    IsQueue (link mem tail a) (if tail = none then some a else head) (some a)
      (cells ++ [(a, (mem a).val)]) := by
  have hnodup : ((cells ++ [(a, (mem a).val)]).map Prod.fst).Nodup := by
    rw [List.map_append, List.nodup_append]
    refine ⟨h.nodup, by simp, ?_⟩
    intro x hx y hy hxy
    simp only [List.map_cons, List.map_nil, List.mem_singleton] at hy
    exact ha (hy ▸ hxy ▸ hx)
  refine ⟨?_, by simp, hnodup⟩
  rcases List.eq_nil_or_concat cells with rfl | ⟨init, ⟨t, w⟩, rfl⟩
  · have htail : tail = none := h.tail_eq
    simp [htail, Chain, link, hnext]
  · rw [List.concat_eq_append] at *
    have htail : tail = some t := by simpa using h.tail_eq
    have ht : t ∉ init.map Prod.fst := by
      have hn := h.nodup
      rw [List.map_append, List.nodup_append] at hn
      exact fun hm => hn.2.2 t hm t (by simp) rfl
    simp only [htail, reduceCtorEq, if_false, link]
    exact h.chain.snoc ht ha hnext

/-- **Pop.**  Unlinking the head takes the front cell. -/
theorem IsQueue.pop {mem : Memory α} {a : ℕ} {tail : Option ℕ} {cells : List (ℕ × α)}
    (h : IsQueue mem (some a) tail cells) :
    ∃ rest, cells = (a, (mem a).val) :: rest ∧ a ∉ rest.map Prod.fst ∧
      IsQueue mem (mem a).next (if (mem a).next = none then none else tail) rest := by
  cases cells with
  | nil => exact absurd h.chain (by simp [Chain])
  | cons c rest =>
    obtain ⟨b, v⟩ := c
    obtain ⟨hp, hval, hrest⟩ := h.chain
    obtain rfl : a = b := Option.some.inj hp
    have hnodup := h.nodup
    rw [List.map_cons, List.nodup_cons] at hnodup
    refine ⟨rest, by rw [hval], hnodup.1, hrest, ?_, hnodup.2⟩
    cases rest with
    | nil => simp [show (mem a).next = none from hrest]
    | cons d rest' =>
      have hnext : (mem a).next = some d.1 := hrest.1
      rw [hnext, if_neg (by simp), h.tail_eq, List.getLast?_cons_cons]

end Wldroid.Foundation
