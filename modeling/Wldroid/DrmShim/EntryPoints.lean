import Wldroid.DrmShim.Resources

/-!
# The libdrm entry points and their ioctls

Capabilities, exports and imports can be asked for through libdrm's functions or through `drmIoctl`;
the shim has two implementations of each.

* `drmGetCap`, `drmPrimeHandleToFd`, `drmPrimeFdToHandle` — the libdrm functions;
* `shimGetCapIoctl` and `drmIoctl` — the other ones;
* `entryPoints_alike_iff` — they agree but for the capabilities only one of the two tables knows.
-/

namespace Wldroid.DrmShim

/-! ### Capabilities -/

/-- `DRM_CAP_DUMB_BUFFER` and its siblings. -/
def drmCapDumbBuffer : UInt64 := 0x1
def drmCapPrime : UInt64 := 0x5
def drmCapTimestampMonotonic : UInt64 := 0x6
def drmCapSyncobj : UInt64 := 0x13
def drmCapSyncobjTimeline : UInt64 := 0x14

/-- `DRM_PRIME_CAP_IMPORT` and `DRM_PRIME_CAP_EXPORT`. -/
def drmPrimeCapImport : UInt64 := 0x1
def drmPrimeCapExport : UInt64 := 0x2

/-- `drmGetCap`; `null` tells that there is no place for the value. -/
def drmGetCap (null : Bool) (capability : UInt64) : Except Errno UInt64 :=
  if null then .error .einval
  else if capability = drmCapPrime then .ok (drmPrimeCapImport ||| drmPrimeCapExport)
  else if capability = drmCapSyncobj ∨ capability = drmCapSyncobjTimeline ∨
      capability = drmCapDumbBuffer then .ok 1
  else if capability = drmCapTimestampMonotonic then .ok 1
  else .error .einval

/-- `shim_get_cap_ioctl`: never an error. -/
def shimGetCapIoctl (capability : UInt64) : UInt64 :=
  if capability = drmCapPrime then drmPrimeCapImport ||| drmPrimeCapExport
  else if capability = drmCapSyncobj ∨ capability = drmCapSyncobjTimeline then 1
  else if capability = drmCapTimestampMonotonic then 1
  else 0

/-! ### Export and import -/

/-- `drmPrimeHandleToFD`: the file of the exported descriptor. -/
def drmPrimeHandleToFd (s : Shim) (null : Bool) (handle : ℕ) (dup : Bool)
    (placeholder : Option BackingFile) : Shim × Except Errno BackingFile :=
  if null then (s, .error .einval)
  else
    match boLookup s.table handle with
    | none => (s, .error .enoent)
    | some bo =>
        match bo.isAhb, bo.shmFd with
        | true, some file =>
            (vtestBusyWaitForResource s bo.resHandle, if dup then .ok file else .error .other)
        | false, some file =>
            (vtestBusyWaitForResource
              (vtestTransferGetForExport s bo.resHandle bo.width bo.height) bo.resHandle,
              if dup then .ok file else .error .other)
        | _, none =>
            match placeholder with
            | some file => (s, .ok file)
            | none => (s, .error .other)

/-- `drmPrimeFDToHandle`. -/
def drmPrimeFdToHandle (s : Shim) (null : Bool) (primeFd : Option BackingFile)
    (realloc dup : Bool) : Option (Shim × Except Errno ℕ) :=
  if null then some (s, .error .einval)
  else
    (boFindByInode s.table primeFd).bind fun existing =>
      match existing with
      | some bo => some (s, .ok bo.boHandle)
      | none =>
          (boAlloc s.table realloc).map fun (table, allocated) =>
            match allocated with
            | none => ({ s with table := table }, .error .enomem)
            | some handle =>
                let table := table.modify handle (Bo.imported primeFd dup)
                match s.cache.lookup primeFd with
                | some e => ({ s with table := table.modify handle (Bo.restored e) }, .ok handle)
                | none => ({ s with table := table }, .ok handle)

/-! ### Requests -/

/-- What both ways can be asked for. -/
inductive DrmRequest where
  | getCap (capability : UInt64)
  | primeHandleToFd (handle : ℕ)
  | primeFdToHandle (fd : Option BackingFile)

/-- What the surroundings contribute: whether descriptors can be duplicated, whether the table can
grow, and the file of `memfd_create`. -/
structure DrmEnv where
  dup : Bool
  realloc : Bool
  placeholder : Option BackingFile

/-- What a request yields. -/
inductive DrmValue where
  | cap (value : UInt64)
  | fd (file : BackingFile)
  | handle (handle : ℕ)

/-- The libdrm function for a request, with a place for the value. -/
def drmEntryPoint (s : Shim) (env : DrmEnv) : DrmRequest → Option (Shim × Except Errno DrmValue)
  | .getCap capability => some (s, (drmGetCap false capability).map .cap)
  | .primeHandleToFd handle =>
      let (s, r) := drmPrimeHandleToFd s false handle env.dup env.placeholder
      some (s, r.map .fd)
  | .primeFdToHandle fd =>
      (drmPrimeFdToHandle s false fd env.realloc env.dup).map fun (s, r) => (s, r.map .handle)

/-- `drmIoctl`, its cases for these requests. -/
def drmIoctl (s : Shim) (env : DrmEnv) : DrmRequest → Option (Shim × Except Errno DrmValue)
  | .getCap capability => some (s, .ok (.cap (shimGetCapIoctl capability)))
  | .primeHandleToFd handle =>
      let (s, r) := shimPrimeHandleToFd s handle env.dup env.placeholder
      some (s, r.map .fd)
  | .primeFdToHandle fd =>
      (shimPrimeFdToHandle s fd env.realloc env.dup).map fun (s, r) => (s, r.map .handle)

/-! ### Agreement -/

/-- Both succeed with the same value, or both fail. -/
def SameOutcome {α : Type} : Except Errno α → Except Errno α → Prop
  | .ok v, .ok w => v = w
  | .error _, .error _ => True
  | _, _ => False

/-- Both return with the same outcome, and leave the same shim behind: the BOs, the cache and the
requests sent to the server; or neither returns. -/
def Alike {α : Type} : Option (Shim × Except Errno α) → Option (Shim × Except Errno α) → Prop
  | some (s, r), some (s', r') => s = s' ∧ SameOutcome r r'
  | none, none => True
  | _, _ => False

theorem Alike.refl {α : Type} (x : Option (Shim × Except Errno α)) : Alike x x := by
  cases x with
  | none => trivial
  | some y =>
    obtain ⟨s, r⟩ := y
    refine ⟨rfl, ?_⟩
    cases r with
    | ok v => rfl
    | error e => trivial

/-- The two exports are the same function. -/
theorem drmPrimeHandleToFd_eq (s : Shim) (handle : ℕ) (dup : Bool)
    (placeholder : Option BackingFile) :
    drmPrimeHandleToFd s false handle dup placeholder =
      shimPrimeHandleToFd s handle dup placeholder := by
  unfold drmPrimeHandleToFd shimPrimeHandleToFd
  rw [if_neg Bool.false_ne_true]
  cases boLookup s.table handle with
  | none => rfl
  | some bo =>
    cases hfile : bo.shmFd with
    | none =>
      cases hahb : bo.isAhb <;> cases placeholder <;> simp [hfile]
    | some file => cases hahb : bo.isAhb <;> simp [hahb, hfile]

/-- The two imports are the same function. -/
theorem drmPrimeFdToHandle_eq (s : Shim) (fd : Option BackingFile) (realloc dup : Bool) :
    drmPrimeFdToHandle s false fd realloc dup = shimPrimeFdToHandle s fd realloc dup := by
  unfold drmPrimeFdToHandle shimPrimeFdToHandle
  rw [if_neg Bool.false_ne_true]
  cases boFindByInode s.table fd with
  | none => rfl
  | some existing =>
    cases existing with
    | some bo => rfl
    | none =>
      cases boAlloc s.table realloc with
      | none => rfl
      | some allocated =>
        obtain ⟨table, handle⟩ := allocated
        cases handle with
        | none => rfl
        | some handle =>
          simp only [Option.bind_some, Option.map_some]
          cases s.cache.lookup fd <;> rfl

/-- The capabilities that both tables know. -/
def sharedCaps : List UInt64 :=
  [drmCapPrime, drmCapSyncobj, drmCapSyncobjTimeline, drmCapTimestampMonotonic]

theorem getCap_of_shared {capability : UInt64} (h : capability ∈ sharedCaps) :
    drmGetCap false capability = .ok (shimGetCapIoctl capability) := by
  simp only [sharedCaps, List.mem_cons, List.not_mem_nil, or_false] at h
  rcases h with rfl | rfl | rfl | rfl <;> rfl

/-- Of the other capabilities the ioctl says they have the value 0; `drmGetCap` knows one of them,
with another value, and refuses the rest. -/
theorem getCap_of_not_shared {capability : UInt64} (h : capability ∉ sharedCaps) :
    shimGetCapIoctl capability = 0 ∧ drmGetCap false capability =
      if capability = drmCapDumbBuffer then .ok 1 else .error .einval := by
  simp only [sharedCaps, List.mem_cons, List.not_mem_nil, or_false, not_or] at h
  obtain ⟨hprime, hsyncobj, htimeline, hclock⟩ := h
  unfold drmGetCap shimGetCapIoctl
  simp only [hprime, hsyncobj, htimeline, hclock, Bool.false_eq_true, if_false, false_or, or_self]
  exact ⟨trivial, trivial⟩

/-- The two tables of capabilities agree on those both know, and on no other. -/
theorem sameOutcome_getCap_iff (capability : UInt64) :
    SameOutcome (drmGetCap false capability) (.ok (shimGetCapIoctl capability)) ↔
      capability ∈ sharedCaps := by
  constructor
  · intro hsame
    by_contra h
    obtain ⟨hzero, hvalue⟩ := getCap_of_not_shared h
    rw [hzero, hvalue] at hsame
    split at hsame
    · exact absurd (show (1 : UInt64) = 0 from hsame) (by decide)
    · exact hsame
  · intro h
    rw [getCap_of_shared h]
    rfl

/-- **The libdrm entry points agree with the ioctls**, for every state of the shim and every
request, exactly if the request is not about a capability that is missing from one of the two
tables. -/
theorem entryPoints_alike_iff (s : Shim) (env : DrmEnv) (request : DrmRequest) :
    Alike (drmEntryPoint s env request) (drmIoctl s env request) ↔
      ∀ capability, request = .getCap capability → capability ∈ sharedCaps := by
  cases request with
  | getCap capability =>
    have hsame : Alike (drmEntryPoint s env (.getCap capability))
        (drmIoctl s env (.getCap capability)) ↔
          SameOutcome (drmGetCap false capability) (.ok (shimGetCapIoctl capability)) := by
      simp only [drmEntryPoint, drmIoctl]
      cases drmGetCap false capability with
      | error e => exact ⟨fun h => h.2, fun h => ⟨rfl, h⟩⟩
      | ok value =>
        refine ⟨fun h => ?_, fun h => ⟨rfl, ?_⟩⟩
        · exact DrmValue.cap.inj h.2
        · exact congrArg DrmValue.cap h
    rw [hsame, sameOutcome_getCap_iff]
    refine ⟨fun h other hother => ?_, fun h => h capability rfl⟩
    cases hother
    exact h
  | primeHandleToFd handle =>
    refine iff_of_true ?_ fun _ h => by cases h
    simp only [drmEntryPoint, drmIoctl]
    rw [drmPrimeHandleToFd_eq]
    exact .refl _
  | primeFdToHandle fd =>
    refine iff_of_true ?_ fun _ h => by cases h
    simp only [drmEntryPoint, drmIoctl]
    rw [drmPrimeFdToHandle_eq]
    exact .refl _

/-- `drmGetCap` knows dumb buffers, the ioctl does not. -/
theorem dumbBuffer_disagrees :
    ¬ ∀ (s : Shim) (env : DrmEnv) (request : DrmRequest),
      Alike (drmEntryPoint s env request) (drmIoctl s env request) := by
  intro hall
  have hsame := hall ⟨false, 0, BoTable.empty, InodeCache.empty, [], []⟩ ⟨true, true, none⟩
    (.getCap drmCapDumbBuffer)
  exact absurd (DrmValue.cap.inj hsame.2) (by decide)

end Wldroid.DrmShim
