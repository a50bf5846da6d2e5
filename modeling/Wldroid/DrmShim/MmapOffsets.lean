import Mathlib
import Wldroid.DrmShim.GemMappings

/-!
# Mapping BOs by their offsets

A BO gets its `mmap` offset from its handle when it is asked for, and the `mmap` wrapper finds the
BO of an offset by comparing it with those offsets.

* `mmapTarget` — what the wrapper hands to the kernel: the memory of a BO from its start, or what it
  was called with;
* `OffsetsIdentify` — ranges are disjoint, and any page of one reaches its BO's memory there;
* `OffsetsByHandle` — what holds instead: offsets are distinct, ranges as far apart as handles, and
  exactly the offset of a BO reaches its memory;
* **`offsetsByHandle_of_reachable`** — in every reachable state;
* `second_page_reaches_nothing` — a BO of two pages.
-/

namespace Wldroid.DrmShim

open Wldroid.Foundation

/-! ### Targets -/

/-- What is mapped: the memory of a BO, with the displacement in it, or what the kernel has at these
arguments. -/
inductive MmapTarget where
  | memory (handle displacement : ℕ)
  | passed (fd offset : ℤ)
  deriving DecidableEq

/-- The call of `real_mmap` that the wrapper makes; a BO's file is always mapped from offset
zero. -/
def MapState.mmapTarget (s : MapState) (fd offset : ℤ) (dup : Bool) : MmapTarget :=
  mmap s.fds
    (fun offset => (boLookupByOffset s.shim.table offset.toNat).bind fun bo =>
      if bo.shmFd.isSome && dup then some (.memory bo.boHandle 0) else none)
    .passed fd offset

/-- A BO that has been asked for its offset. -/
def MapState.mappedBo (s : MapState) (handle : ℕ) : Option Bo :=
  (s.shim.table.live handle).filter Bo.mapped

/-- The offset of a handle. -/
def offsetOf (handle : ℕ) : ℕ := mmapOffsetBase.toNat + handle * mmapOffsetStride

/-- The offsets a BO's bytes would have. -/
def Bo.range (bo : Bo) : Set ℕ := {x | bo.mmapOffset ≤ x ∧ x < bo.mmapOffset + bo.size}

/-- Ranges are disjoint, and `mmap` of the DRM descriptor at any page of a range reaches the memory
of its BO there. -/
structure OffsetsIdentify (s : MapState) : Prop where
  disjoint : ∀ handle handle' bo bo', s.mappedBo handle = some bo →
    s.mappedBo handle' = some bo' → handle ≠ handle' → Disjoint bo.range bo'.range
  reaches : ∀ fd handle bo displacement, drmFdIsTracked s.fds fd = true →
    s.mappedBo handle = some bo → bo.shmFd.isSome = true → displacement % pageSize = 0 →
    displacement < bo.size →
    s.mmapTarget fd (bo.mmapOffset + displacement : ℕ) true = .memory handle displacement

/-- Offsets are those of the handles, ranges are disjoint as long as sizes are no larger than the
handles are apart, and `mmap` reaches the memory of a BO from its start at exactly its offset. -/
structure OffsetsByHandle (s : MapState) : Prop where
  offset_eq : ∀ handle bo, s.mappedBo handle = some bo → bo.mmapOffset = offsetOf handle
  distinct : ∀ handle handle' bo bo', s.mappedBo handle = some bo →
    s.mappedBo handle' = some bo' → bo.mmapOffset = bo'.mmapOffset → handle = handle'
  disjoint : ∀ handle handle' bo bo', s.mappedBo handle = some bo →
    s.mappedBo handle' = some bo' → handle < handle' →
    bo.size ≤ (handle' - handle) * mmapOffsetStride → Disjoint bo.range bo'.range
  reaches : ∀ fd handle bo, drmFdIsTracked s.fds fd = true → s.mappedBo handle = some bo →
    bo.shmFd.isSome = true → s.mmapTarget fd bo.mmapOffset true = .memory handle 0
  only : ∀ fd offset dup handle displacement,
    s.mmapTarget fd offset dup = .memory handle displacement →
    displacement = 0 ∧ drmFdIsTracked s.fds fd = true ∧
      ∃ bo, s.mappedBo handle = some bo ∧ offset = bo.mmapOffset

/-! ### Offsets -/

/-- Offsets grow with the handles, by the stride. -/
theorem offsetOf_add {handle handle' : ℕ} (h : handle ≤ handle') :
    offsetOf handle' = offsetOf handle + (handle' - handle) * mmapOffsetStride := by
  obtain ⟨n, rfl⟩ := Nat.exists_eq_add_of_le h
  unfold offsetOf
  rw [Nat.add_sub_cancel_left, Nat.add_mul, Nat.add_assoc]

theorem offsetOf_injective : Function.Injective offsetOf := by
  intro handle handle' h
  exact Nat.eq_of_mul_eq_mul_right (by decide) (Nat.add_left_cancel h)

/-- The table is well formed, and offsets are those of the handles. -/
structure OffsetInv (s : MapState) : Prop where
  table : s.shim.table.WellFormed
  offset_eq : ∀ handle bo, s.shim.table.live handle = some bo → bo.mapped = true →
    bo.mmapOffset = offsetOf handle

namespace OffsetInv

variable {s t : MapState}

theorem of_initial (h : s.Initial) : OffsetInv s := by
  obtain ⟨-, htable, -⟩ := h
  refine ⟨htable ▸ wellFormed_empty, fun handle bo hbo => ?_⟩
  rw [htable] at hbo
  cases hbo

/-- An ioctl leaves the offsets of the BOs that stay alone; a new BO has none. -/
theorem change (h : OffsetInv s) (hchange : TableChange s.shim.table t.shim.table) :
    OffsetInv t := by
  cases hchange with
  | same hw hlive =>
    refine ⟨hw, fun handle bo hbo => ?_⟩
    rw [hlive] at hbo
    exact h.offset_eq handle bo hbo
  | @added hw new _ hlive _ hmapped =>
    refine ⟨hw, fun handle bo hbo hset => ?_⟩
    rw [hlive] at hbo
    by_cases hnew : handle = new
    · rw [hnew, Function.update_self] at hbo
      rw [Option.some.inj hbo, hset] at hmapped
      cases hmapped
    · rw [Function.update_of_ne hnew] at hbo
      exact h.offset_eq handle bo hbo hset
  | @removed hw old hlive =>
    refine ⟨hw, fun handle bo hbo hset => ?_⟩
    rw [hlive] at hbo
    by_cases hold : handle = old
    · rw [hold, Function.update_self] at hbo
      cases hbo
    · rw [Function.update_of_ne hold] at hbo
      exact h.offset_eq handle bo hbo hset

/-- A change of one BO that gives it no other offset than that of its handle. -/
theorem modify (h : OffsetInv s) {handle : ℕ} {f : Bo → Bo}
    (htable : t.shim.table = s.shim.table.modify handle f)
    (hf : ∀ bo, (f bo).boHandle = bo.boHandle)
    (hoffset : ∀ bo, s.shim.table.live handle = some bo → (f bo).mapped = true →
      (f bo).mmapOffset = offsetOf handle) : OffsetInv t := by
  obtain ⟨hw, hlive⟩ := h.table.modify handle hf
  rw [← htable] at hw hlive
  refine ⟨hw, fun other bo hbo hset => ?_⟩
  rw [hlive] at hbo
  by_cases hother : other = handle
  · rw [hother, Function.update_self] at hbo
    obtain ⟨old, hold, rfl⟩ := Option.map_eq_some_iff.mp hbo
    rw [hother]
    exact hoffset old hold hset
  · rw [Function.update_of_ne hother] at hbo
    exact h.offset_eq other bo hbo hset

/-- `DRM_IOCTL_VIRTGPU_MAP` sets the offset of the handle, once. -/
theorem map (h : OffsetInv s) {handle : ℕ}
    (htable : t.shim.table = (shimMap s.shim.table handle).1) : OffsetInv t := by
  unfold shimMap at htable
  split at htable
  · exact h.change (.same (htable ▸ h.table) (congrArg BoTable.live htable))
  · refine h.modify htable (fun bo => ?_) fun bo hbo _ => ?_
    · unfold Bo.withOffset
      split <;> rfl
    · unfold Bo.withOffset
      split
      · rename_i hset
        exact h.offset_eq handle bo hbo hset
      · show mmapOffsetBase.toNat + bo.boHandle * mmapOffsetStride = offsetOf handle
        rw [h.table.handle_eq handle bo hbo]
        rfl

theorem mapAt (h : OffsetInv s) (mapping : Mapping) (address length : ℕ) :
    OffsetInv (s.mapAt mapping address length) := by
  cases mapping with
  | bo handle =>
    exact h.modify (f := fun bo => { bo with mmapPtr := some address }) rfl (fun _ => rfl)
      fun bo hbo hset => h.offset_eq handle bo hbo hset
  | other => exact ⟨h.table, h.offset_eq⟩

theorem next (h : OffsetInv s) {e : MapEvent} (hstep : s.next e = some t) : OffsetInv t := by
  cases e with
  | ioctl e =>
    obtain ⟨shim, hshim, rfl⟩ := Option.map_eq_some_iff.mp hstep
    exact h.change (next_change h.table hshim)
  | map handle =>
    obtain rfl := Option.some.inj hstep
    exact h.map rfl
  | mmap fd offset length fixed dup result =>
    cases result with
    | none => exact Option.some.inj hstep ▸ h
    | some address =>
      simp only [MapState.next] at hstep
      split at hstep
      · obtain rfl := Option.some.inj hstep
        exact h.mapAt _ address length
      · cases hstep
  | munmap address length =>
    simp only [MapState.next] at hstep
    split at hstep
    · obtain rfl := Option.some.inj hstep
      exact ⟨h.table, h.offset_eq⟩
    · exact Option.some.inj hstep ▸ h

/-! ### Lookups -/

theorem mappedBo_eq_some {handle : ℕ} {bo : Bo} : s.mappedBo handle = some bo ↔
    s.shim.table.live handle = some bo ∧ bo.mapped = true := by
  unfold MapState.mappedBo
  rw [Option.filter_eq_some_iff]

/-- At an offset the mapped BO of that offset is found, whichever slot comes first. -/
theorem boLookupByOffset_eq_some_iff (h : OffsetInv s) {offset : ℕ} {bo : Bo} :
    boLookupByOffset s.shim.table offset = some bo ↔
      ∃ handle, s.mappedBo handle = some bo ∧ bo.mmapOffset = offset := by
  -- a slot that is found holds a mapped BO
  have hslot : ∀ i, (List.range' 1 (s.shim.table.capacity - 1)).find? (fun i =>
      (s.shim.table.slots i).boHandle ≠ 0 && (s.shim.table.slots i).mapped &&
        (s.shim.table.slots i).mmapOffset = offset) = some i →
      s.mappedBo i = some (s.shim.table.slots i) ∧
        (s.shim.table.slots i).mmapOffset = offset := by
    intro i hi
    have hfound := List.find?_some hi
    simp only [Bool.and_eq_true, decide_eq_true_eq] at hfound
    obtain ⟨⟨hhandle, hset⟩, hoffset⟩ := hfound
    exact ⟨mappedBo_eq_some.mpr ⟨live_eq_some.mpr ⟨hhandle, rfl⟩, hset⟩, hoffset⟩
  unfold boLookupByOffset
  constructor
  · intro hfound
    obtain ⟨i, hi, rfl⟩ := Option.map_eq_some_iff.mp hfound
    exact ⟨i, hslot i hi⟩
  · rintro ⟨handle, hbo, hoffset⟩
    obtain ⟨hlive, hset⟩ := mappedBo_eq_some.mp hbo
    obtain ⟨hhandle, rfl⟩ := live_eq_some.mp hlive
    have heq := h.table.handle_eq handle _ hlive
    have hin := (h.table.in_bounds handle _ hlive).2
    have hsome : ((List.range' 1 (s.shim.table.capacity - 1)).find? fun i =>
        (s.shim.table.slots i).boHandle ≠ 0 && (s.shim.table.slots i).mapped &&
          (s.shim.table.slots i).mmapOffset = offset).isSome = true := by
      refine List.find?_isSome.mpr ⟨handle, List.mem_range'_1.mpr ⟨?_, ?_⟩, ?_⟩
      · omega
      · omega
      · simp [hhandle, hset, hoffset]
    obtain ⟨i, hi⟩ := Option.isSome_iff_exists.mp hsome
    obtain ⟨hmapped, hoffset'⟩ := hslot i hi
    obtain ⟨hlive', hset'⟩ := mappedBo_eq_some.mp hmapped
    have hsame : i = handle := offsetOf_injective (by
      rw [← h.offset_eq i _ hlive' hset', ← h.offset_eq handle _ hlive hset, hoffset, hoffset'])
    rw [hi, Option.map_some, hsame]

theorem offset_eq_of_mappedBo (h : OffsetInv s) {handle : ℕ} {bo : Bo}
    (hbo : s.mappedBo handle = some bo) : bo.mmapOffset = offsetOf handle := by
  obtain ⟨hlive, hset⟩ := mappedBo_eq_some.mp hbo
  exact h.offset_eq handle bo hlive hset

theorem boHandle_of_mappedBo (h : OffsetInv s) {handle : ℕ} {bo : Bo}
    (hbo : s.mappedBo handle = some bo) : bo.boHandle = handle :=
  h.table.handle_eq handle bo (mappedBo_eq_some.mp hbo).1

/-- A BO's offset reaches its memory from the start. -/
theorem mmapTarget_self (h : OffsetInv s) {fd : ℤ} (hfd : drmFdIsTracked s.fds fd = true)
    {handle : ℕ} {bo : Bo} (hbo : s.mappedBo handle = some bo) (hfile : bo.shmFd.isSome = true) :
    s.mmapTarget fd bo.mmapOffset true = .memory handle 0 := by
  have hbase : mmapOffsetBase ≤ (bo.mmapOffset : ℤ) := by
    rw [h.offset_eq_of_mappedBo hbo]
    show (0x10000000 : ℤ) ≤ ((0x10000000 + handle * mmapOffsetStride : ℕ) : ℤ)
    omega
  have hfound : boLookupByOffset s.shim.table (bo.mmapOffset : ℤ).toNat = some bo :=
    h.boLookupByOffset_eq_some_iff.mpr ⟨handle, hbo, (Int.toNat_natCast _).symm⟩
  unfold MapState.mmapTarget mmap
  rw [if_pos ⟨hfd, hbase⟩]
  simp only [hfound, Option.bind_some, hfile, Bool.and_self, if_true, Option.getD_some,
    h.boHandle_of_mappedBo hbo]

/-- Nothing else does. -/
theorem mappedBo_of_mmapTarget (h : OffsetInv s) {fd offset : ℤ} {dup : Bool}
    {handle displacement : ℕ} (htarget : s.mmapTarget fd offset dup = .memory handle displacement) :
    displacement = 0 ∧ drmFdIsTracked s.fds fd = true ∧
      ∃ bo, s.mappedBo handle = some bo ∧ offset = bo.mmapOffset := by
  unfold MapState.mmapTarget mmap at htarget
  split at htarget
  · rename_i hours
    obtain ⟨hfd, hbase⟩ := hours
    cases hfound : boLookupByOffset s.shim.table offset.toNat with
    | none => simp [hfound] at htarget
    | some bo =>
      obtain ⟨other, hbo, hoffset⟩ := h.boLookupByOffset_eq_some_iff.mp hfound
      simp only [hfound, Option.bind_some] at htarget
      split at htarget
      · cases htarget
        refine ⟨rfl, hfd, bo, ?_, ?_⟩
        · rw [h.boHandle_of_mappedBo hbo]
          exact hbo
        · have hpos : (0 : ℤ) ≤ offset := le_trans (by decide) hbase
          omega
      · cases htarget
  · cases htarget

/-- **Offsets by handle.** -/
theorem offsetsByHandle (h : OffsetInv s) : OffsetsByHandle s where
  offset_eq _ _ hbo := h.offset_eq_of_mappedBo hbo
  distinct handle handle' bo bo' hbo hbo' heq := by
    rw [h.offset_eq_of_mappedBo hbo, h.offset_eq_of_mappedBo hbo'] at heq
    exact offsetOf_injective heq
  disjoint handle handle' bo bo' hbo hbo' hlt hsize := by
    have happart := offsetOf_add hlt.le
    rw [← h.offset_eq_of_mappedBo hbo, ← h.offset_eq_of_mappedBo hbo'] at happart
    refine Set.disjoint_left.mpr fun x hx hx' => ?_
    have hbelow : x < bo.mmapOffset + bo.size := hx.2
    have habove : bo'.mmapOffset ≤ x := hx'.1
    omega
  reaches _ _ _ hfd hbo hfile := h.mmapTarget_self hfd hbo hfile
  only _ _ _ _ _ htarget := h.mappedBo_of_mmapTarget htarget

end OffsetInv

theorem offsetInv_of_reachable {s : MapState} (h : mapSystem.Reachable s) : OffsetInv s :=
  System.Reachable.invariant (fun _ => OffsetInv.of_initial)
    (fun u e v (hu : OffsetInv u) (hstep : u.next e = some v) => hu.next hstep) h

/-- **mmap offsets.**  In every reachable state the offsets of mapped BOs are those of their
handles, so that they are distinct and ranges disjoint as long as no size exceeds the distance of
the handles; and an `mmap` reaches the memory of a BO, from its start, exactly at the BO's
offset. -/
theorem offsetsByHandle_of_reachable {s : MapState} (h : mapSystem.Reachable s) :
    OffsetsByHandle s := (offsetInv_of_reachable h).offsetsByHandle

/-! ### A BO of two pages -/

/-- A buffer is created and asked for its offset. -/
def createAndAsk (rc : ResourceCreate) : List MapEvent :=
  [.ioctl (.resourceCreate rc ⟨some 3, true, 7, .answered memfdFile⟩), .map 1]

/-- Where that leads. -/
def askedFor (rc : ResourceCreate) : MapState :=
  (runNext MapState.next freshMapState (createAndAsk rc)).getD freshMapState

theorem askedFor_reachable (rc : ResourceCreate)
    (h : runNext MapState.next freshMapState (createAndAsk rc) = some (askedFor rc)) :
    mapSystem.Reachable (askedFor rc) :=
  System.reachable_runNext (.start freshMapState_initial) h

/-- A buffer of two pages. -/
def twoPages : ResourceCreate := { smallBuffer with size := 8192 }

/-- A small buffer and one of two pages are created and asked for their offsets. -/
def createAndAskBoth : List MapEvent :=
  createAndAsk smallBuffer ++
    ([.ioctl (.resourceCreate twoPages ⟨some 3, true, 8, .answered dmabufFile⟩), .map 2] :
      List MapEvent)

/-- Where that leads. -/
def askedForBoth : MapState :=
  (runNext MapState.next freshMapState createAndAskBoth).getD freshMapState

theorem runNext_createAndAskBoth :
    runNext MapState.next freshMapState createAndAskBoth = some askedForBoth := rfl

theorem offsetsByHandle_smallBuffer :
    ((askedForBoth.mappedBo 1).map Bo.size = some 64 ∧
        (askedForBoth.mappedBo 2).map Bo.size = some 8192) ∧
      OffsetsByHandle askedForBoth :=
  ⟨⟨rfl, rfl⟩, offsetsByHandle_of_reachable
    (System.reachable_runNext (.start freshMapState_initial) runNext_createAndAskBoth)⟩

/-- What is mapped starts at the BO's first page, not at its second. -/
theorem second_page_reaches_nothing :
    ¬ ∀ s : MapState, mapSystem.Reachable s → OffsetsIdentify s := by
  intro hall
  have hreachable : mapSystem.Reachable (askedFor twoPages) := askedFor_reachable twoPages rfl
  have hreaches := (hall (askedFor twoPages) hreachable).reaches 3 1
    ((askedFor twoPages).shim.table.slots 1) 4096 rfl rfl rfl rfl (by decide)
  have hzero : 4096 = 0 := ((offsetInv_of_reachable hreachable).mappedBo_of_mmapTarget hreaches).1
  cases hzero

end Wldroid.DrmShim
