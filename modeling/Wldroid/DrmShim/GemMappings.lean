import Wldroid.Foundation.Pages
import Wldroid.DrmShim.FdTable
import Wldroid.DrmShim.ResourceLife

/-!
# What GEM_CLOSE unmaps

The shim records for each BO where it was mapped last; closing the BO unmaps as many bytes from
there on as the BO has.

* `MapState.next` — the ioctls, `mmap`, and the mappings the shim does not see;
* `ClosesOwnPages` — closing a BO would remove nothing but pages of its own mappings;
* `closesOwnPages_iff_recordsKept` — this holds in every state of a run exactly if no mapping comes
  to lie in a range that is recorded for another BO, or is recorded for more bytes than it has while
  something else is mapped there.
-/

namespace Wldroid.DrmShim

open Wldroid.Foundation

/-! ### Code -/

/-- `MMAP_OFFSET_STRIDE`. -/
def mmapOffsetStride : ℕ := 0x100000

/-- What `shim_map` stores into its BO. -/
def Bo.withOffset (bo : Bo) : Bo :=
  if bo.mapped then bo
  else { bo with
    mmapOffset := mmapOffsetBase.toNat + bo.boHandle * mmapOffsetStride
    mapped := true }

/-- `shim_map`: the offset of the BO. -/
def shimMap (t : BoTable) (handle : ℕ) : BoTable × Except Errno ℕ :=
  match boLookup t handle with
  | none => (t, .error .enoent)
  | some bo => (t.modify handle Bo.withOffset, .ok bo.withOffset.mmapOffset)

/-- `bo_lookup_by_offset`. -/
def boLookupByOffset (t : BoTable) (offset : ℕ) : Option Bo :=
  ((List.range' 1 (t.capacity - 1)).find? fun i =>
    (t.slots i).boHandle ≠ 0 && (t.slots i).mapped && (t.slots i).mmapOffset = offset).map t.slots

/-- What a page is a mapping of. -/
inductive Mapping where
  | bo (handle : ℕ)
  | other
  deriving DecidableEq

/-- The shim with the address space of its process. -/
structure MapState where
  fds : DrmFds
  shim : Shim
  pages : Pages Mapping

/-- The page size. -/
def pageSize : ℕ := 4096

/-- What the `mmap` wrapper has the kernel map: the BO found at the offset, if its descriptor can be
duplicated; else what the application asked for. -/
def MapState.mapping (s : MapState) (fd offset : ℤ) (dup : Bool) : Mapping :=
  mmap s.fds
    (fun offset => (boLookupByOffset s.shim.table offset.toNat).bind fun bo =>
      if bo.shmFd.isSome && dup then some (.bo bo.boHandle) else none)
    (fun _ _ => .other) fd offset

/-- The `mmap` wrapper with the kernel's result: a BO records where it was mapped. -/
def MapState.mapAt (s : MapState) (mapping : Mapping) (address length : ℕ) : MapState :=
  { s with
    shim := { s.shim with
      table := match mapping with
        | .bo handle => s.shim.table.modify handle fun bo => { bo with mmapPtr := some address }
        | .other => s.shim.table }
    pages := s.pages.map (pagesOf pageSize address length) mapping }

/-- An ioctl, with what it unmaps. -/
def MapState.afterIoctl (s : MapState) (shim : Shim) : MapState :=
  { s with
    shim := shim
    pages := ((shim.unmaps.drop s.shim.unmaps.length).map fun (address, length) =>
      pagesOf pageSize address length).foldl Pages.unmap s.pages }

/-- The calls of the application. -/
inductive MapEvent where
  | ioctl (e : ShimEvent)
  /-- `DRM_IOCTL_VIRTGPU_MAP`. -/
  | map (handle : ℕ)
  /-- `mmap` and `mmap64`, of whatever kind; `fixed` is `MAP_FIXED`, `result` the kernel's
  answer. -/
  | mmap (fd offset : ℤ) (length : ℕ) (fixed dup : Bool) (result : Option ℕ)
  /-- `munmap`, which the shim does not see. -/
  | munmap (address length : ℕ)

/-- The next state.  Unless told where, the kernel maps at pages that are free. -/
def MapState.next (s : MapState) : MapEvent → Option MapState
  | .ioctl e => (s.shim.next e).map s.afterIoctl
  | .map handle =>
      some { s with shim := { s.shim with table := (shimMap s.shim.table handle).1 } }
  | .mmap _ _ _ _ _ none => some s
  | .mmap fd offset length fixed dup (some address) =>
      if 0 < address ∧ address % pageSize = 0 ∧ 0 < length ∧
          (fixed = true ∨ s.pages.Free (pagesOf pageSize address length)) then
        some (s.mapAt (s.mapping fd offset dup) address length)
      else none
  | .munmap address length =>
      if address % pageSize = 0 then
        some { s with pages := s.pages.unmap (pagesOf pageSize address length) }
      else some s

/-- The shim at load time, in whatever address space. -/
def MapState.Initial (s : MapState) : Prop := s.shim.Initial

/-- All runs. -/
def mapSystem : System MapState MapEvent := System.ofNext MapState.Initial MapState.next

/-! ### Own pages -/

/-- Closing any of the BOs would remove only pages that are mappings of that BO. -/
def ClosesOwnPages (s : MapState) : Prop :=
  ∀ handle page mapping, s.pages page = some mapping →
    (s.afterIoctl (shimGemClose s.shim handle)).pages page = none → mapping = .bo handle

/-- The pages of the range that is recorded for a BO: where it was mapped last, as many bytes as it
has. -/
def BoTable.recorded (t : BoTable) (handle : ℕ) : List ℕ :=
  match t.live handle with
  | some bo =>
      if bo.size > 0 then (bo.mmapPtr.map fun address => pagesOf pageSize address bo.size).getD []
      else []
  | none => []

/-- A new mapping lies in no range that is recorded for a BO it is not a mapping of; and if it is
one of a BO that has more bytes, nothing else is mapped where the rest would be. -/
def RecordsKept (s : MapState) : MapEvent → Prop
  | .mmap fd offset length _ dup (some address) =>
      (∀ handle, s.mapping fd offset dup ≠ .bo handle →
        ∀ page ∈ pagesOf pageSize address length, page ∉ s.shim.table.recorded handle) ∧
      ∀ handle bo, s.mapping fd offset dup = .bo handle → s.shim.table.live handle = some bo →
        ∀ page ∈ pagesOf pageSize address bo.size, page ∉ pagesOf pageSize address length →
          ∀ mapping, s.pages page = some mapping → mapping = .bo handle
  | _ => True

/-! ### The table -/

/-- After a call the table is well formed, and every recorded range is one that was recorded for the
same BO before. -/
structure TableKept (t u : BoTable) : Prop where
  table : u.WellFormed
  live : ∀ handle bo, u.live handle = some bo → bo.mmapPtr = none ∨
    ∃ old, t.live handle = some old ∧ old.mmapPtr = bo.mmapPtr ∧ old.size = bo.size

section Table

variable {t u : BoTable}

theorem TableKept.refl (hw : t.WellFormed) : TableKept t t :=
  ⟨hw, fun _ bo hbo => .inr ⟨bo, hbo, rfl, rfl⟩⟩

theorem TableKept.of_live (hw : u.WellFormed) (hlive : u.live = t.live) : TableKept t u := by
  refine ⟨hw, fun handle bo hbo => .inr ⟨bo, ?_, rfl, rfl⟩⟩
  rw [← hlive]
  exact hbo

/-- A new BO has not been mapped. -/
theorem TableKept.update (hw : u.WellFormed) {handle : ℕ} {bo : Bo}
    (hlive : u.live = Function.update t.live handle (some bo)) (hptr : bo.mmapPtr = none) :
    TableKept t u := by
  refine ⟨hw, fun other found hfound => ?_⟩
  rw [hlive] at hfound
  by_cases hother : other = handle
  · rw [hother, Function.update_self] at hfound
    exact .inl (Option.some.inj hfound ▸ hptr)
  · rw [Function.update_of_ne hother] at hfound
    exact .inr ⟨found, hfound, rfl, rfl⟩

/-- A change of a BO that leaves alone where it was mapped. -/
theorem TableKept.modify (hw : t.WellFormed) (handle : ℕ) {f : Bo → Bo}
    (hf : ∀ bo, (f bo).boHandle = bo.boHandle ∧ (f bo).mmapPtr = bo.mmapPtr ∧
      (f bo).size = bo.size) : TableKept t (t.modify handle f) := by
  obtain ⟨hw', hlive⟩ := hw.modify handle fun bo => (hf bo).1
  refine ⟨hw', fun other found hfound => .inr ?_⟩
  rw [hlive] at hfound
  by_cases hother : other = handle
  · rw [hother, Function.update_self] at hfound
    obtain ⟨old, hold, rfl⟩ := Option.map_eq_some_iff.mp hfound
    exact ⟨old, hother ▸ hold, (hf old).2.1.symm, (hf old).2.2.symm⟩
  · rw [Function.update_of_ne hother] at hfound
    exact ⟨found, hfound, rfl, rfl⟩

theorem TableKept.recorded (h : TableKept t u) (handle : ℕ) :
    u.recorded handle = [] ∨ u.recorded handle = t.recorded handle := by
  unfold BoTable.recorded
  cases hbo : u.live handle with
  | none => exact .inl rfl
  | some bo =>
    rcases h.live handle bo hbo with hptr | ⟨old, hold, hptr, hsize⟩
    · simp [hptr]
    · right
      rw [hold]
      simp only [hptr, hsize]

end Table

/-- What a call of the driver does to the table: nothing, or there is one more BO, not mapped yet,
or one less. -/
inductive TableChange (t u : BoTable) : Prop where
  | same (hw : u.WellFormed) (hlive : u.live = t.live)
  | added (hw : u.WellFormed) {handle : ℕ} {bo : Bo}
      (hlive : u.live = Function.update t.live handle (some bo)) (hptr : bo.mmapPtr = none)
      (hmapped : bo.mapped = false)
  | removed (hw : u.WellFormed) {handle : ℕ} (hlive : u.live = Function.update t.live handle none)

section Table

variable {t u : BoTable}

theorem TableChange.kept (h : TableChange t u) : TableKept t u := by
  cases h with
  | same hw hlive => exact .of_live hw hlive
  | added hw hlive hptr _ => exact .update hw hlive hptr
  | @removed hw handle hlive =>
    refine ⟨hw, fun other found hfound => .inr ⟨found, ?_, rfl, rfl⟩⟩
    rw [hlive] at hfound
    by_cases hother : other = handle
    · rw [hother, Function.update_self] at hfound
      cases hfound
    · rwa [Function.update_of_ne hother] at hfound

end Table

/-! ### Ioctls -/

section Ioctls

variable {s t : Shim}

theorem ensureConnected_table {connect : Option ℕ} (h : ensureConnected s connect = some t) :
    t.table = s.table := by
  unfold ensureConnected at h
  split at h
  · exact Option.some.inj h ▸ rfl
  · obtain ⟨version, _, rfl⟩ := Option.map_eq_some_iff.mp h
    rfl

/-- A creation. -/
theorem resourceCreate_change (hw : s.table.WellFormed) {rc : ResourceCreate} {env : CreateEnv}
    {r : Except Errno (ℕ × ℕ)} (h : shimResourceCreate s rc env = some (t, r)) :
    TableChange s.table t.table := by
  unfold shimResourceCreate at h
  split at h
  · obtain ⟨rfl, -⟩ := Prod.mk.inj (Option.some.inj h)
    exact .same hw rfl
  rename_i connected hconnect
  rw [← ensureConnected_table hconnect] at hw ⊢
  split at h
  · cases h
  · rename_i table halloc
    obtain ⟨rfl, -⟩ := Prod.mk.inj (Option.some.inj h)
    obtain ⟨hwf, _, hlive⟩ := hw.boAlloc_failed halloc
    exact .same hwf hlive
  · rename_i table handle halloc
    obtain ⟨rfl, hwf, _, hlive⟩ := hw.boAlloc_made halloc
    simp only at h
    split at h
    · rename_i created _
      obtain ⟨rfl, -⟩ := Prod.mk.inj (Option.some.inj h)
      have hchange : TableChange connected.table table := .added hwf hlive rfl rfl
      cases created with
      | true => exact hchange
      | false => exact hchange
    · rename_i file _
      obtain ⟨rfl, -⟩ := Prod.mk.inj (Option.some.inj h)
      have hself : table.live connected.table.handleNext =
          some (Bo.fresh connected.table.handleNext) := by
        rw [hlive, Function.update_self]
      have hlookup : (boLookup table connected.table.handleNext).isSome = true := by
        rw [hwf.boLookup_eq, hself]
        rfl
      rw [fill_eq hlookup]
      obtain ⟨hwf', hlive'⟩ := hwf.modify connected.table.handleNext
        (f := Bo.created rc (if connected.protocolVersion ≥ 3 then env.serverRes
          else connected.table.handleNext) (if rc.size > 0 then some file else none)) fun _ => rfl
      rw [hlive, Function.update_self, Function.update_idem] at hlive'
      exact .added hwf' hlive' rfl rfl

/-- An import. -/
theorem primeFdToHandle_change (hw : s.table.WellFormed) {fd : Option BackingFile}
    {realloc dup : Bool} {r : Except Errno ℕ}
    (h : shimPrimeFdToHandle s fd realloc dup = some (t, r)) : TableChange s.table t.table := by
  unfold shimPrimeFdToHandle at h
  split at h
  · cases h
  · obtain ⟨rfl, -⟩ := Prod.mk.inj (Option.some.inj h)
    exact .same hw rfl
  split at h
  · cases h
  · rename_i table halloc
    obtain ⟨rfl, -⟩ := Prod.mk.inj (Option.some.inj h)
    obtain ⟨hwf, _, hlive⟩ := hw.boAlloc_failed halloc
    exact .same hwf hlive
  · rename_i table handle halloc
    obtain ⟨rfl, -⟩ := Prod.mk.inj (Option.some.inj h)
    obtain ⟨rfl, hwf, _, hlive⟩ := hw.boAlloc_made halloc
    obtain ⟨hwf', hlive'⟩ := hwf.modify s.table.handleNext (f := Bo.imported fd dup) fun _ => rfl
    rw [hlive, Function.update_self, Function.update_idem] at hlive'
    dsimp only
    split
    · rename_i e _
      obtain ⟨hwf'', hlive''⟩ := hwf'.modify s.table.handleNext (f := Bo.restored e) fun _ => rfl
      rw [hlive', Function.update_self, Function.update_idem] at hlive''
      exact .added hwf'' hlive'' rfl rfl
    · exact .added hwf' hlive' rfl rfl

/-- Requests about a BO leave the table alone. -/
theorem transfer_table (request : ℕ → List ℕ → Request) (transfer : Transfer)
    (connect : Option ℕ) : (shimTransfer request s transfer connect).1.table = s.table := by
  unfold shimTransfer
  split
  · rfl
  · rename_i hconnect
    have htable := ensureConnected_table hconnect
    split
    · split <;> exact htable
    · exact htable

theorem wait_table (handle : ℕ) (nowait busy : Bool) (connect : Option ℕ) :
    (shimWait s handle nowait busy connect).1.table = s.table := by
  unfold shimWait
  split
  · rfl
  · rename_i hconnect
    have htable := ensureConnected_table hconnect
    split
    · split <;> exact htable
    · exact htable

theorem busyWaitForResource_table (s : Shim) (res : ℕ) :
    (vtestBusyWaitForResource s res).table = s.table := by
  unfold vtestBusyWaitForResource
  split <;> rfl

theorem transferGetForExport_table (s : Shim) (res width height : ℕ) :
    (vtestTransferGetForExport s res width height).table = s.table := by
  unfold vtestTransferGetForExport
  split <;> rfl

theorem primeHandleToFd_table (handle : ℕ) (dup : Bool) (placeholder : Option BackingFile) :
    (shimPrimeHandleToFd s handle dup placeholder).1.table = s.table := by
  unfold shimPrimeHandleToFd
  split
  · rfl
  rename_i bo _
  split
  · refine (busyWaitForResource_table _ bo.resHandle).trans ?_
    split
    · rfl
    · exact transferGetForExport_table s bo.resHandle bo.width bo.height
  · rfl

theorem gemClose_change (hw : s.table.WellFormed) (handle : ℕ) :
    TableChange s.table (shimGemClose s handle).table := by
  unfold shimGemClose
  rw [hw.boLookup_eq]
  split
  · exact .same hw rfl
  · obtain ⟨hwf, hlive⟩ := hw.free handle
    simp only
    split <;> exact .removed hwf hlive

/-- A closing: the recorded range of the BO is unmapped. -/
theorem gemClose_recorded (hw : s.table.WellFormed) (handle : ℕ) :
    (((shimGemClose s handle).unmaps.drop s.unmaps.length).map fun (address, length) =>
      pagesOf pageSize address length).flatten = s.table.recorded handle := by
  have hunmaps : (shimGemClose s handle).unmaps = s.unmaps ++ match s.table.live handle with
      | some bo => if bo.size > 0 then bo.mmapPtr.toList.map fun p => (p, bo.size) else []
      | none => [] := by
    unfold shimGemClose
    rw [hw.boLookup_eq]
    cases s.table.live handle with
    | none => exact (List.append_nil _).symm
    | some bo =>
      simp only
      split <;> rfl
  rw [hunmaps, List.drop_left]
  unfold BoTable.recorded
  cases s.table.live handle with
  | none => rfl
  | some bo =>
    simp only
    split
    · cases bo.mmapPtr with
      | none => rfl
      | some address => simp
    · rfl

theorem map_kept {table : BoTable} (hw : table.WellFormed) (handle : ℕ) :
    TableKept table (shimMap table handle).1 := by
  unfold shimMap
  split
  · exact .refl hw
  · refine .modify hw handle fun bo => ?_
    unfold Bo.withOffset
    split <;> exact ⟨rfl, rfl, rfl⟩

/-- **Every ioctl.** -/
theorem next_change (hw : s.table.WellFormed) {e : ShimEvent} (h : s.next e = some t) :
    TableChange s.table t.table := by
  cases e with
  | resourceCreate rc env =>
    simp only [Shim.next] at h
    split at h
    · cases h
    · obtain ⟨⟨u, r⟩, hcreate, rfl⟩ := Option.map_eq_some_iff.mp h
      exact resourceCreate_change hw hcreate
  | transferToHost transfer connect =>
    obtain rfl := Option.some.inj h
    rw [shimTransferToHost, transfer_table]
    exact .same hw rfl
  | transferFromHost transfer connect =>
    obtain rfl := Option.some.inj h
    rw [shimTransferFromHost, transfer_table]
    exact .same hw rfl
  | wait handle nowait busy connect =>
    obtain rfl := Option.some.inj h
    rw [wait_table]
    exact .same hw rfl
  | primeHandleToFd handle dup placeholder =>
    obtain rfl := Option.some.inj h
    rw [primeHandleToFd_table]
    exact .same hw rfl
  | primeFdToHandle fd realloc dup =>
    obtain ⟨⟨u, r⟩, himport, rfl⟩ := Option.map_eq_some_iff.mp h
    exact primeFdToHandle_change hw himport
  | gemClose handle => exact Option.some.inj h ▸ gemClose_change hw handle

end Ioctls

/-! ### Steps -/

section Steps

variable {s t : MapState}

/-- Closing a BO removes the recorded pages, and no others. -/
theorem gemClose_pages (hw : s.shim.table.WellFormed) (handle page : ℕ) (mapping : Mapping) :
    (s.afterIoctl (shimGemClose s.shim handle)).pages page = some mapping ↔
      page ∉ s.shim.table.recorded handle ∧ s.pages page = some mapping := by
  unfold MapState.afterIoctl
  rw [Pages.foldl_unmap_eq_some, ← gemClose_recorded hw handle]
  simp only [List.mem_flatten, not_exists, not_and]

/-- Closing a BO would remove only its own pages exactly if no other mapping has any of the recorded
ones. -/
theorem closesOwnPages_iff (hw : s.shim.table.WellFormed) :
    ClosesOwnPages s ↔ ∀ handle, ∀ page ∈ s.shim.table.recorded handle, ∀ mapping,
      s.pages page = some mapping → mapping = .bo handle := by
  constructor
  · intro h handle page hpage mapping hmapping
    refine h handle page mapping hmapping ?_
    by_contra hsome
    obtain ⟨found, hfound⟩ := Option.ne_none_iff_exists'.mp hsome
    exact ((gemClose_pages hw handle page found).mp hfound).1 hpage
  · intro h handle page mapping hmapping hnone
    by_cases hpage : page ∈ s.shim.table.recorded handle
    · exact h handle page hpage mapping hmapping
    · rw [(gemClose_pages hw handle page mapping).mpr ⟨hpage, hmapping⟩] at hnone
      cases hnone

/-- Calls that record nothing and map nothing. -/
theorem ClosesOwnPages.of_kept (h : ClosesOwnPages s) (hw : s.shim.table.WellFormed)
    (hkept : TableKept s.shim.table t.shim.table)
    (hpages : ∀ page mapping, t.pages page = some mapping → s.pages page = some mapping) :
    ClosesOwnPages t := by
  rw [closesOwnPages_iff hkept.table]
  rw [closesOwnPages_iff hw] at h
  intro handle page hpage mapping hmapping
  rcases hkept.recorded handle with hnone | hsame
  · rw [hnone] at hpage
    cases hpage
  · exact h handle page (hsame ▸ hpage) mapping (hpages page mapping hmapping)

theorem afterIoctl_pages (shim : Shim) {page : ℕ} {mapping : Mapping}
    (h : (s.afterIoctl shim).pages page = some mapping) : s.pages page = some mapping := by
  unfold MapState.afterIoctl at h
  exact (Pages.foldl_unmap_eq_some.mp h).2

/-- The ranges recorded after a mapping: that of the BO it is a mapping of starts there. -/
theorem recorded_mapAt (hw : s.shim.table.WellFormed) (mapping : Mapping) (address length : ℕ) :
    (s.mapAt mapping address length).shim.table.WellFormed ∧
      (∀ handle, mapping ≠ .bo handle →
        (s.mapAt mapping address length).shim.table.recorded handle =
          s.shim.table.recorded handle) ∧
      ∀ handle, mapping = .bo handle →
        (s.mapAt mapping address length).shim.table.recorded handle =
          match s.shim.table.live handle with
          | some bo => pagesOf pageSize address bo.size
          | none => [] := by
  cases mapping with
  | other =>
    refine ⟨hw, fun _ _ => rfl, fun handle hbo => ?_⟩
    cases hbo
  | bo target =>
    obtain ⟨hwf, hlive⟩ := hw.modify target
      (f := fun bo => { bo with mmapPtr := some address }) fun _ => rfl
    have hrecorded : ∀ handle, (s.mapAt (.bo target) address length).shim.table.recorded handle =
        (s.shim.table.modify target fun bo => { bo with mmapPtr := some address }).recorded
          handle := fun _ => rfl
    refine ⟨hwf, fun handle hother => ?_, fun handle hsame => ?_⟩
    · have hne : handle ≠ target := fun heq => hother (by rw [heq])
      rw [hrecorded]
      unfold BoTable.recorded
      rw [hlive, Function.update_of_ne hne]
    · cases hsame
      rw [hrecorded]
      unfold BoTable.recorded
      rw [hlive, Function.update_self]
      cases s.shim.table.live target with
      | none => rfl
      | some bo =>
        show (if bo.size > 0 then pagesOf pageSize address bo.size else []) =
          pagesOf pageSize address bo.size
        split
        · rfl
        · rename_i hsize
          rw [show bo.size = 0 by omega]
          rfl

/-- A mapping keeps the property exactly if it keeps out of the recorded ranges of other BOs, and
finds nothing else in the range recorded for its own. -/
theorem closesOwnPages_mapAt_iff (hw : s.shim.table.WellFormed) (h : ClosesOwnPages s)
    {fd offset : ℤ} {length address : ℕ} {fixed dup : Bool} :
    ClosesOwnPages (s.mapAt (s.mapping fd offset dup) address length) ↔
      RecordsKept s (.mmap fd offset length fixed dup (some address)) := by
  obtain ⟨hw', hothers, hown⟩ := recorded_mapAt hw (s.mapping fd offset dup) address length
  rw [closesOwnPages_iff hw']
  rw [closesOwnPages_iff hw] at h
  have hpages : ∀ page found,
      (s.mapAt (s.mapping fd offset dup) address length).pages page = some found ↔
        page ∈ pagesOf pageSize address length ∧ s.mapping fd offset dup = found ∨
          page ∉ pagesOf pageSize address length ∧ s.pages page = some found :=
    fun _ _ => Pages.map_eq_some
  constructor
  · intro ht
    refine ⟨fun handle hne page hnew hrecorded => ?_, fun handle bo hbo hlive page hpage hold found
      hfound => ?_⟩
    · rw [← hothers handle hne] at hrecorded
      exact hne (ht handle page hrecorded _ ((hpages page _).mpr (.inl ⟨hnew, rfl⟩)))
    · refine ht handle page ?_ found ((hpages page found).mpr (.inr ⟨hold, hfound⟩))
      rw [hown handle hbo, hlive]
      exact hpage
  · rintro ⟨hapart, hrest⟩ handle page hrecorded found hfound
    by_cases hbo : s.mapping fd offset dup = .bo handle
    · rw [hown handle hbo] at hrecorded
      rcases (hpages page found).mp hfound with ⟨_, rfl⟩ | ⟨hold, hfound⟩
      · exact hbo
      · cases hlive : s.shim.table.live handle with
        | none =>
          rw [hlive] at hrecorded
          cases hrecorded
        | some bo =>
          rw [hlive] at hrecorded
          exact hrest handle bo hbo hlive page hrecorded hold found hfound
    · rw [hothers handle hbo] at hrecorded
      rcases (hpages page found).mp hfound with ⟨hnew, _⟩ | ⟨_, hfound⟩
      · exact absurd hrecorded (hapart handle hbo page hnew)
      · exact h handle page hrecorded found hfound

/-- **Every call** keeps the property exactly if it keeps the recorded ranges. -/
theorem closesOwnPages_next_iff (hw : s.shim.table.WellFormed) (h : ClosesOwnPages s)
    {e : MapEvent} (hnext : s.next e = some t) :
    t.shim.table.WellFormed ∧ (ClosesOwnPages t ↔ RecordsKept s e) := by
  cases e with
  | ioctl e =>
    obtain ⟨shim, hshim, rfl⟩ := Option.map_eq_some_iff.mp hnext
    have hkept := (next_change hw hshim).kept
    refine ⟨hkept.table, iff_of_true ?_ trivial⟩
    exact h.of_kept hw hkept fun _ _ => afterIoctl_pages shim
  | map handle =>
    obtain rfl := Option.some.inj hnext
    have hkept := map_kept hw handle
    exact ⟨hkept.table, iff_of_true (h.of_kept hw hkept fun _ _ => id) trivial⟩
  | mmap fd offset length fixed dup result =>
    cases result with
    | none => exact Option.some.inj hnext ▸ ⟨hw, iff_of_true h trivial⟩
    | some address =>
      simp only [MapState.next] at hnext
      split at hnext
      · obtain rfl := Option.some.inj hnext
        exact ⟨(recorded_mapAt hw _ address length).1, closesOwnPages_mapAt_iff hw h⟩
      · cases hnext
  | munmap address length =>
    simp only [MapState.next] at hnext
    split at hnext
    · obtain rfl := Option.some.inj hnext
      refine ⟨hw, iff_of_true (h.of_kept hw (.refl hw) fun page mapping hmapping => ?_) trivial⟩
      exact (Pages.unmap_eq_some.mp hmapping).2
    · exact Option.some.inj hnext ▸ ⟨hw, iff_of_true h trivial⟩

end Steps

/-! ### Runs -/

/-- **What GEM_CLOSE unmaps.**  In every state of a run closing any BO would remove only its own
pages exactly if every mapping of the run keeps out of the ranges recorded for other BOs, and every
mapping of a BO that is shorter than the BO finds nothing else mapped where the rest would be. -/
theorem closesOwnPages_iff_recordsKept {s : MapState} {run : List (MapEvent × MapState)}
    (hinit : s.Initial) (hrun : mapSystem.Exec s run) :
    AllStates ClosesOwnPages s run ↔ AllSteps RecordsKept s run := by
  obtain ⟨_, htable, _⟩ := hinit
  have hw : s.shim.table.WellFormed := htable ▸ wellFormed_empty
  have hstart : ClosesOwnPages s := by
    rw [closesOwnPages_iff hw]
    intro handle page hpage
    rw [htable] at hpage
    cases hpage
  refine System.allStates_iff_allSteps (S := mapSystem)
    (I := fun s => s.shim.table.WellFormed ∧ ClosesOwnPages s) (fun _ h => h.2) ?_ ?_
    ⟨hw, hstart⟩ hrun
  · intro s e t h hstep hguard
    obtain ⟨hw', hiff⟩ := closesOwnPages_next_iff h.1 h.2 hstep
    exact ⟨hw', hiff.mpr hguard⟩
  · intro s e t h hstep hguard ht
    exact hguard ((closesOwnPages_next_iff h.1 h.2 hstep).2.mp ht)

/-- A process that has just loaded the shim, with the DRM node on descriptor 3. -/
def freshMapState : MapState := ⟨drmFdAdd DrmFds.empty 3, freshShim, fun _ => none⟩

theorem freshMapState_initial : freshMapState.Initial := freshShim_initial

/-- A buffer is created and mapped at page 16. -/
def createAndMap : List MapEvent :=
  [.ioctl (.resourceCreate smallBuffer ⟨some 3, true, 7, .answered memfdFile⟩), .map 1,
    .mmap 3 0x10100000 64 false true (some 0x10000)]

theorem closesOwnPages_createAndMap :
    AllStates ClosesOwnPages freshMapState
      (traceNext MapState.next freshMapState (createAndMap ++ [.ioctl (.gemClose 1)])) := by
  refine (closesOwnPages_iff_recordsKept freshMapState_initial (System.exec_traceNext _ _ _)).mpr ?_
  refine ⟨trivial, trivial, ⟨fun handle _ page _ hpage => ?_, ?_⟩, trivial, trivial⟩
  · -- no BO has been mapped yet
    have hcreated := (next_change (s := freshShim) wellFormed_empty
      (e := .resourceCreate smallBuffer ⟨some 3, true, 7, .answered memfdFile⟩) rfl).kept
    rcases (map_kept hcreated.table 1).recorded handle with hnone | hsame
    · exact absurd (hnone ▸ hpage) List.not_mem_nil
    · rcases hcreated.recorded handle with hnone | hbefore
      · exact absurd (hsame.trans hnone ▸ hpage) List.not_mem_nil
      · exact absurd (hsame.trans hbefore ▸ hpage) List.not_mem_nil
  · intro _ _ _ _ page _ _ mapping hmapping
    cases hmapping

/-- The application unmaps the buffer itself, and the kernel puts another mapping there. -/
def reuseAddress : List MapEvent :=
  createAndMap ++ [.munmap 0x10000 64, .mmap 9 0 64 false true (some 0x10000)]

/-- Closing the buffer would remove the other mapping. -/
theorem reuseAddress_lost :
    ¬ ∀ (s : MapState) (run : List (MapEvent × MapState)), s.Initial → mapSystem.Exec s run →
      AllStates ClosesOwnPages s run := by
  intro hall
  have hlast := (hall freshMapState _ freshMapState_initial
    (System.exec_traceNext MapState.Initial MapState.next reuseAddress)).last
  have hother : Mapping.other = .bo 1 := hlast 1 16 .other (by decide) (by decide)
  cases hother

end Wldroid.DrmShim
