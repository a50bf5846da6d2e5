import Wldroid.Foundation.BoundedMap
import Wldroid.Foundation.Transition

/-!
# The registry of hardware buffers

A fixed array of inode and buffer under one lock, so that every call is one step.  It is a finite
map of at most `AHB_REGISTRY_MAX` keys that owns one reference for every entry.

* **`AhbRegistry.call`** — register, unregister, lookup and destroy, with the calls of
  `AHardwareBuffer_acquire` and `_release` they make;
* **`answerCall`** — what each is to do to a bounded map;
* **`RegistryInv.call`** — one call keeps the entries a table of that map and the references
  balanced;
* **`registry_refines_map`** — any sequence of calls answers like the map, and acquires less
  releases of every buffer are its entries and the references handed out.
-/

namespace Wldroid.Compositor

open Wldroid.Foundation

/-- `AHB_REGISTRY_MAX`. -/
def ahbRegistryMax : ℕ := 256

/-- `struct ahb_entry`. -/
structure AhbEntry (β : Type) where
  inode : UInt64
  ahb : β
  deriving DecidableEq

/-- A call on a hardware buffer. -/
inductive RefCall (β : Type) where
  | acquire (ahb : β)
  | release (ahb : β)
  deriving DecidableEq

/-- The first `count` slots of `entries`, and the reference calls made so far. -/
structure AhbRegistry (β : Type) where
  entries : List (AhbEntry β)
  refCalls : List (RefCall β)

/-- A call of the registry. -/
inductive RegistryCall (β : Type) where
  | register (inode : UInt64) (ahb : β)
  | unregister (inode : UInt64)
  | lookup (inode : UInt64)
  | destroy

variable {β : Type} [DecidableEq β]

/-- `ahb_registry_register`. -/
def ahbRegistryRegister (r : AhbRegistry β) (inode : UInt64) (ahb : β) : AhbRegistry β :=
  match lookup AhbEntry.inode inode r.entries with
  | some entry =>
      { entries := updateFirst AhbEntry.inode inode (fun e => { e with ahb := ahb }) r.entries
        refCalls := r.refCalls ++ [.release entry.ahb, .acquire ahb] }
  | none =>
      if r.entries.length ≥ ahbRegistryMax then r
      else
        { entries := r.entries ++ [⟨inode, ahb⟩]
          refCalls := r.refCalls ++ [.acquire ahb] }

/-- `ahb_registry_unregister`: the last entry takes the place of the removed one. -/
def ahbRegistryUnregister (r : AhbRegistry β) (inode : UInt64) : AhbRegistry β :=
  match lookup AhbEntry.inode inode r.entries with
  | some entry =>
      { entries := swapRemove r.entries entry
        refCalls := r.refCalls ++ [.release entry.ahb] }
  | none => r

/-- `ahb_registry_lookup`. -/
def ahbRegistryLookup (r : AhbRegistry β) (inode : UInt64) : AhbRegistry β × Option β :=
  match lookup AhbEntry.inode inode r.entries with
  | some entry =>
      ({ r with refCalls := r.refCalls ++ [.acquire entry.ahb] }, some entry.ahb)
  | none => (r, none)

/-- `ahb_registry_destroy`. -/
def ahbRegistryDestroy (r : AhbRegistry β) : AhbRegistry β where
  entries := []
  refCalls := r.refCalls ++ r.entries.map fun e => .release e.ahb

/-- A call and the buffer it returns, if it returns one. -/
def AhbRegistry.call (r : AhbRegistry β) : RegistryCall β → AhbRegistry β × Option β
  | .register inode ahb => (ahbRegistryRegister r inode ahb, none)
  | .unregister inode => (ahbRegistryUnregister r inode, none)
  | .lookup inode => ahbRegistryLookup r inode
  | .destroy => (ahbRegistryDestroy r, none)

/-- The registry as the process starts. -/
def AhbRegistry.fresh : AhbRegistry β := ⟨[], []⟩

/-! ### The map it stands for -/

/-- What a call does to the map of inodes and buffers. -/
def answerCall (m : BoundedMap UInt64 β ahbRegistryMax) :
    RegistryCall β → BoundedMap UInt64 β ahbRegistryMax × Option β
  | .register inode ahb => (m.put inode ahb, none)
  | .unregister inode => (m.erase inode, none)
  | .lookup inode => (m, m.get inode)
  | .destroy => (.empty, none)

/-! ### References -/

/-- How often the registry has acquired a buffer. -/
def AhbRegistry.acquired (r : AhbRegistry β) (ahb : β) : ℕ := r.refCalls.count (.acquire ahb)

/-- How often the registry has released a buffer. -/
def AhbRegistry.released (r : AhbRegistry β) (ahb : β) : ℕ := r.refCalls.count (.release ahb)

/-- How many entries hold a buffer. -/
def AhbRegistry.holds (r : AhbRegistry β) (ahb : β) : ℕ := (r.entries.map AhbEntry.ahb).count ahb

/-- The entries are a table of the map, and every reference acquired was released, is held by an
entry, or was handed out by a lookup. -/
structure RegistryInv (r : AhbRegistry β) (m : BoundedMap UInt64 β ahbRegistryMax)
    (answers : List (Option β)) : Prop where
  table : Represents AhbEntry.inode AhbEntry.ahb r.entries m.map
  balance : ∀ ahb, r.acquired ahb = r.released ahb + r.holds ahb + answers.count (some ahb)

theorem registryInv_fresh : RegistryInv (AhbRegistry.fresh : AhbRegistry β) .empty [] :=
  ⟨represents_nil, fun _ => rfl⟩

/-- How one reference call counts. -/
theorem count_refCalls (calls : List (RefCall β)) (c d : RefCall β) :
    (calls ++ [c]).count d = calls.count d + if c = d then 1 else 0 := by
  rw [List.count_append, List.count_singleton]
  simp only [beq_iff_eq]

variable {r : AhbRegistry β} {m : BoundedMap UInt64 β ahbRegistryMax} {answers : List (Option β)}

/-- How often the buffers of a list of entries occur, when one of them is replaced. -/
theorem count_updateFirst {l : List (AhbEntry β)} {inode : UInt64} {entry : AhbEntry β}
    (hentry : lookup AhbEntry.inode inode l = some entry) (ahb b : β) :
    ((updateFirst AhbEntry.inode inode (fun e => { e with ahb := ahb }) l).map AhbEntry.ahb).count b +
        (if entry.ahb = b then 1 else 0) =
      (l.map AhbEntry.ahb).count b + if ahb = b then 1 else 0 := by
  induction l with
  | nil => simp [lookup] at hentry
  | cons e rest ih =>
    by_cases he : e.inode = inode
    · have hsame : e = entry := by simpa [lookup, he] using hentry
      subst hsame
      simp only [updateFirst, if_pos he, List.map_cons, List.count_cons, beq_iff_eq]
      omega
    · have hrest : lookup AhbEntry.inode inode rest = some entry := by
        simpa [lookup, he] using hentry
      have hcount := ih hrest
      simp only [updateFirst, if_neg he, List.map_cons, List.count_cons]
      omega

/-- How often they occur when one is removed. -/
theorem count_swapRemove {l : List (AhbEntry β)} {entry : AhbEntry β} (hmem : entry ∈ l) (b : β) :
    ((swapRemove l entry).map AhbEntry.ahb).count b + (if entry.ahb = b then 1 else 0) =
      (l.map AhbEntry.ahb).count b := by
  have hperm : (entry :: swapRemove l entry).Perm l :=
    ((swapRemove_perm l entry).cons entry).trans (List.perm_cons_erase hmem).symm
  rw [← (hperm.map AhbEntry.ahb).count_eq, List.map_cons, List.count_cons]
  simp only [beq_iff_eq]

theorem RegistryInv.register (h : RegistryInv r m answers) (inode : UInt64) (ahb : β) :
    RegistryInv (ahbRegistryRegister r inode ahb) (m.put inode ahb) (answers ++ [none]) := by
  have hanswers : ∀ b, (answers ++ [none]).count (some b) = answers.count (some b) := by
    intro b
    rw [List.count_append]
    simp
  unfold ahbRegistryRegister
  cases hentry : lookup AhbEntry.inode inode r.entries with
  | some entry =>
    have hin : inode ∈ m.map := by
      refine Finmap.mem_of_lookup_eq_some (b := entry.ahb) ?_
      rw [← h.table.get_eq, hentry]
      rfl
    refine ⟨?_, fun b => ?_⟩
    · rw [BoundedMap.map_put (.inl hin)]
      exact h.table.updateFirst (fun _ => rfl) (fun _ => rfl) hin
    · have hbalance := h.balance b
      have hheld := count_updateFirst hentry ahb b
      rw [hanswers]
      simp only [AhbRegistry.acquired, AhbRegistry.released, AhbRegistry.holds] at hbalance ⊢
      rw [List.append_cons r.refCalls, count_refCalls, count_refCalls, count_refCalls,
        count_refCalls]
      simp only [reduceCtorEq, RefCall.acquire.injEq, RefCall.release.injEq, if_false]
      omega
  | none =>
    have hnew : inode ∉ m.map := by
      rw [← h.table.mem_iff, ← lookup_eq_none_iff]
      exact hentry
    by_cases hfull : r.entries.length ≥ ahbRegistryMax
    · have hroom : ¬ m.Room inode := by
        rintro (hin | hlt)
        · exact hnew hin
        · rw [← h.table.length_eq] at hlt
          omega
      simp only [if_pos hfull]
      rw [BoundedMap.put_eq_self hroom]
      exact ⟨h.table, fun b => by rw [hanswers]; exact h.balance b⟩
    · have hroom : m.Room inode := by
        refine .inr ?_
        rw [← h.table.length_eq]
        omega
      simp only [if_neg hfull]
      refine ⟨?_, fun b => ?_⟩
      · rw [BoundedMap.map_put hroom]
        exact h.table.append hnew
      · have hbalance := h.balance b
        rw [hanswers]
        simp only [AhbRegistry.acquired, AhbRegistry.released, AhbRegistry.holds] at hbalance ⊢
        rw [count_refCalls, count_refCalls, List.map_append, List.count_append]
        simp only [reduceCtorEq, RefCall.acquire.injEq, if_false, List.map_singleton,
          List.count_singleton, beq_iff_eq]
        omega

theorem RegistryInv.unregister (h : RegistryInv r m answers) (inode : UInt64) :
    RegistryInv (ahbRegistryUnregister r inode) (m.erase inode) (answers ++ [none]) := by
  have hanswers : ∀ b, (answers ++ [none]).count (some b) = answers.count (some b) := by
    intro b
    rw [List.count_append]
    simp
  unfold ahbRegistryUnregister
  cases hentry : lookup AhbEntry.inode inode r.entries with
  | some entry =>
    refine ⟨h.table.swapRemove hentry, fun b => ?_⟩
    have hbalance := h.balance b
    have hheld := count_swapRemove (mem_of_lookup hentry).1 b
    rw [hanswers]
    simp only [AhbRegistry.acquired, AhbRegistry.released, AhbRegistry.holds] at hbalance ⊢
    rw [count_refCalls, count_refCalls]
    simp only [reduceCtorEq, RefCall.release.injEq, if_false]
    omega
  | none =>
    have hnew : inode ∉ m.map := by
      rw [← h.table.mem_iff, ← lookup_eq_none_iff]
      exact hentry
    have hsame : m.map.erase inode = m.map := by
      apply Finmap.ext_lookup
      intro k
      by_cases hk : k = inode
      · rw [hk, Finmap.lookup_erase, Finmap.lookup_eq_none.mpr hnew]
      · rw [Finmap.lookup_erase_ne hk]
    refine ⟨?_, fun b => by rw [hanswers]; exact h.balance b⟩
    show Represents _ _ r.entries (m.map.erase inode)
    rw [hsame]
    exact h.table

theorem RegistryInv.lookup (h : RegistryInv r m answers) (inode : UInt64) :
    (ahbRegistryLookup r inode).2 = m.get inode ∧
      RegistryInv (ahbRegistryLookup r inode).1 m (answers ++ [(ahbRegistryLookup r inode).2]) := by
  have hget : (Foundation.lookup AhbEntry.inode inode r.entries).map AhbEntry.ahb = m.get inode :=
    h.table.get_eq inode
  unfold ahbRegistryLookup
  cases hentry : Foundation.lookup AhbEntry.inode inode r.entries with
  | some entry =>
    rw [hentry] at hget
    refine ⟨hget, h.table, fun b => ?_⟩
    have hbalance := h.balance b
    simp only [AhbRegistry.acquired, AhbRegistry.released, AhbRegistry.holds] at hbalance ⊢
    rw [count_refCalls, count_refCalls, List.count_append, List.count_singleton]
    simp only [reduceCtorEq, RefCall.acquire.injEq, if_false, beq_iff_eq, Option.some.injEq]
    omega
  | none =>
    rw [hentry] at hget
    refine ⟨hget, h.table, fun b => ?_⟩
    have hbalance := h.balance b
    rw [List.count_append]
    simpa using hbalance

theorem RegistryInv.destroy (h : RegistryInv r m answers) :
    RegistryInv (ahbRegistryDestroy r) .empty (answers ++ [none]) := by
  refine ⟨represents_nil, fun b => ?_⟩
  have hbalance := h.balance b
  have hacquire : (r.entries.map fun e => RefCall.release e.ahb).count (.acquire b) = 0 := by
    rw [List.count_eq_zero]
    simp
  have hrelease : (r.entries.map fun e => RefCall.release e.ahb).count (.release b) =
      (r.entries.map AhbEntry.ahb).count b := by
    rw [show (fun e : AhbEntry β => RefCall.release e.ahb) = RefCall.release ∘ AhbEntry.ahb from rfl,
      ← List.map_map]
    exact List.count_map_of_injective _ _ (fun _ _ heq => RefCall.release.inj heq) b
  show (r.refCalls ++ r.entries.map fun e => RefCall.release e.ahb).count (.acquire b) =
    (r.refCalls ++ r.entries.map fun e => RefCall.release e.ahb).count (.release b) + 0 +
      (answers ++ [none]).count (some b)
  simp only [AhbRegistry.acquired, AhbRegistry.released, AhbRegistry.holds] at hbalance
  rw [List.count_append, List.count_append, List.count_append, hacquire, hrelease]
  simp
  omega

/-- **A call answers like the map and keeps the balance.** -/
theorem RegistryInv.call (h : RegistryInv r m answers) (c : RegistryCall β) :
    (r.call c).2 = (answerCall m c).2 ∧
      RegistryInv (r.call c).1 (answerCall m c).1 (answers ++ [(r.call c).2]) := by
  cases c with
  | register inode ahb => exact ⟨rfl, h.register inode ahb⟩
  | unregister inode => exact ⟨rfl, h.unregister inode⟩
  | lookup inode => exact h.lookup inode
  | destroy => exact ⟨rfl, h.destroy⟩

/-- What any sequence of calls leaves. -/
structure RegistryGuarantee (calls : List (RegistryCall β)) : Prop where
  /-- Every call returns what the map returns. -/
  answers_eq : (callAll AhbRegistry.call AhbRegistry.fresh calls).2 =
    (callAll answerCall BoundedMap.empty calls).2
  /-- The entries are those of the map, and no inode has two. -/
  get_eq : ∀ inode, (lookup AhbEntry.inode inode
    (callAll AhbRegistry.call AhbRegistry.fresh calls).1.entries).map AhbEntry.ahb =
      (callAll answerCall (BoundedMap.empty : BoundedMap UInt64 β ahbRegistryMax) calls).1.get inode
  nodup : ((callAll AhbRegistry.call AhbRegistry.fresh calls).1.entries.map AhbEntry.inode).Nodup
  fits : (callAll AhbRegistry.call AhbRegistry.fresh calls).1.entries.length ≤ ahbRegistryMax
  /-- Acquires less releases are the entries and the references lookups handed out. -/
  balance : ∀ ahb, (callAll AhbRegistry.call AhbRegistry.fresh calls).1.acquired ahb =
    (callAll AhbRegistry.call AhbRegistry.fresh calls).1.released ahb +
      (callAll AhbRegistry.call AhbRegistry.fresh calls).1.holds ahb +
        (callAll AhbRegistry.call AhbRegistry.fresh calls).2.count (some ahb)
  /-- A destroy gives back every reference of an entry: only those handed out remain. -/
  destroyed : (ahbRegistryDestroy
      (callAll AhbRegistry.call AhbRegistry.fresh calls).1).entries = [] ∧
    ∀ ahb, (ahbRegistryDestroy (callAll AhbRegistry.call AhbRegistry.fresh calls).1).acquired ahb =
      (ahbRegistryDestroy (callAll AhbRegistry.call AhbRegistry.fresh calls).1).released ahb +
        (callAll AhbRegistry.call AhbRegistry.fresh calls).2.count (some ahb)

/-- **The registry is a bounded map that counts its references**, for every sequence of calls. -/
theorem registry_refines_map (calls : List (RegistryCall β)) : RegistryGuarantee calls := by
  obtain ⟨hanswers, hinv⟩ := callAll_related (f := AhbRegistry.call) (g := answerCall)
    (R := RegistryInv) (fun _ _ _ c h => h.call c) calls registryInv_fresh
  refine
    { answers_eq := hanswers
      get_eq := hinv.table.get_eq
      nodup := hinv.table.nodup
      fits := hinv.table.length_eq ▸ (callAll answerCall BoundedMap.empty calls).1.fits
      balance := hinv.balance
      destroyed := ⟨rfl, fun ahb => ?_⟩ }
  have hbalance := hinv.destroy.balance ahb
  rw [List.nil_append, List.count_append] at hbalance
  simpa [AhbRegistry.holds, ahbRegistryDestroy] using hbalance

end Wldroid.Compositor
