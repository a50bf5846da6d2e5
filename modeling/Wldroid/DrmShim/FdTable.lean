import Wldroid.Foundation.Transition
import Wldroid.Foundation.SwapRemove
import Wldroid.Foundation.Descriptors

/-!
# drm-shim: which descriptors are DRM descriptors

The shim keeps a fixed table of the descriptor numbers that stand for a DRM node and routes the
`ioctl`, `mmap` and `stat` calls of exactly those numbers to itself.  Entries are made by the
`openat`/`open` wrapper and by the `fcntl` wrapper (duplicates), and removed by `drmClose`; the
library wraps no `close`.

* `DrmFds` — the table, with distinctness and the bound as fields;
* `openat`, `shimFcntlImpl`, `close`, `drmClose` — one application call each, on the shim's table
  and the kernel's descriptor table;
* `TracksReality` — a number is in the table exactly when it is an open DRM descriptor, and every
  other number is passed through;
* `tracksReality_iff_keepsTable` — **exact**: it holds throughout a run if and only if no plain
  `close` hits a DRM descriptor and no DRM descriptor is created while the table is full.
-/

namespace Wldroid.DrmShim

open Wldroid.Foundation

/-! ### The table of tracked numbers -/

/-- `MAX_DRM_FDS`. -/
def maxDrmFds : ℕ := 32

/-- The first `drm_fd_count` entries of `drm_fds`. -/
structure DrmFds where
  fds : List ℤ
  nodup : fds.Nodup
  bounded : fds.length ≤ maxDrmFds

/-- The table the constructor leaves: every slot `-1`, none counted. -/
def DrmFds.empty : DrmFds := ⟨[], List.nodup_nil, Nat.zero_le _⟩

/-- Add a number unless it is there already; a full table drops it silently. -/
def drmFdAdd (t : DrmFds) (fd : ℤ) : DrmFds :=
  if hmem : fd ∈ t.fds then t
  else if hroom : t.fds.length < maxDrmFds then
    { fds := t.fds ++ [fd]
      nodup := by
        refine List.nodup_append.mpr ⟨t.nodup, List.nodup_singleton fd, ?_⟩
        intro a ha b hb
        rw [List.mem_singleton] at hb
        exact fun hab => hmem (hb ▸ hab ▸ ha)
      bounded := by rw [List.length_append, List.length_singleton]; exact hroom }
  else t

/-- The scan every interceptor makes first. -/
def drmFdIsTracked (t : DrmFds) (fd : ℤ) : Bool :=
  if fd < 0 then false else decide (fd ∈ t.fds)

/-- Remove a number, moving the last entry into its slot. -/
def drmFdRemove (t : DrmFds) (fd : ℤ) : DrmFds where
  fds := swapRemove t.fds fd
  nodup := nodup_swapRemove t.nodup fd
  bounded := le_trans (length_swapRemove_le t.fds fd) t.bounded

@[simp] theorem drmFdIsTracked_empty (fd : ℤ) : drmFdIsTracked DrmFds.empty fd = false := by
  simp [drmFdIsTracked, DrmFds.empty]

theorem drmFdIsTracked_add_of_room {t : DrmFds} {n : ℕ} (hroom : t.fds.length < maxDrmFds)
    (fd : ℤ) : drmFdIsTracked (drmFdAdd t n) fd = true ↔ fd = n ∨ drmFdIsTracked t fd = true := by
  unfold drmFdIsTracked drmFdAdd
  by_cases hneg : fd < 0
  · have hne : fd ≠ (n : ℤ) := by omega
    simp [hneg, hne]
  · by_cases hmem : (n : ℤ) ∈ t.fds
    · simp only [hneg, if_false, hmem, dite_true, decide_eq_true_eq]
      exact ⟨Or.inr, fun h => h.elim (fun heq => heq ▸ hmem) id⟩
    · simp only [hneg, if_false, hmem, dite_false, hroom, dite_true, decide_eq_true_eq,
        List.mem_append, List.mem_singleton]
      exact or_comm

theorem drmFdAdd_of_full {t : DrmFds} (hfull : ¬ t.fds.length < maxDrmFds) (fd : ℤ) :
    drmFdAdd t fd = t := by
  unfold drmFdAdd
  split
  · rfl
  · rfl

theorem drmFdIsTracked_remove (t : DrmFds) (fd fd' : ℤ) :
    drmFdIsTracked (drmFdRemove t fd) fd' = true ↔ fd' ≠ fd ∧ drmFdIsTracked t fd' = true := by
  unfold drmFdIsTracked drmFdRemove
  by_cases hneg : fd' < 0
  · simp [hneg]
  · simp [hneg, mem_swapRemove t.nodup]

/-! ### The kernel underneath -/

/-- What a descriptor is open on: one of the two DRM nodes, by their paths, or anything else. -/
inductive OpenFile where
  | drmNode
  | other
  deriving DecidableEq

abbrev Kernel := Descriptors OpenFile

/-- `is_drm_path`, and the same two comparisons inside `openat`. -/
def isDrmPath (pathname : Option String) : Bool :=
  pathname == some "/dev/dri/renderD128" || pathname == some "/dev/dri/card0"

/-- The kernel's `openat`: the lowest free number, or `-1` (no such file, no permission, a `NULL`
path, or no number left). -/
def realOpenat (k : Kernel) (pathname : Option String) (refused : Bool) : ℤ × Kernel :=
  if refused || pathname.isNone then (-1, k)
  else
    match k.lowestFree 0 with
    | none => (-1, k)
    | some n => (n, k.install n (if isDrmPath pathname then .drmNode else .other))

/-- The `fcntl` commands the wrapper tells apart. -/
inductive FcntlCmd where
  | dupfd
  | dupfdCloexec
  | other
  deriving DecidableEq

/-- The kernel's `fcntl`.  A duplication takes the lowest free number from `arg` on; it can also be
refused outright, as proot does with `F_DUPFD_CLOEXEC`.  Other commands answer `value` and leave the
descriptor table alone. -/
def realFcntl (k : Kernel) (fd : ℤ) (cmd : FcntlCmd) (arg : ℤ) (refused : Bool) (value : ℤ) :
    ℤ × Kernel :=
  match k.fileAt fd with
  | none => (-1, k)
  | some f =>
      match cmd with
      | .other => (value, k)
      | .dupfd | .dupfdCloexec =>
          if refused || decide (arg < 0) then (-1, k)
          else
            match k.lowestFree arg.toNat with
            | none => (-1, k)
            | some n => (n, k.install n f)

/-! ### The application's calls -/

/-- The kernel's descriptors and the shim's table. -/
structure FdState where
  kernel : Kernel
  tracked : DrmFds

/-- The `openat` wrapper; `open`, `open64` and `openat64` all end here. -/
def openat (s : FdState) (pathname : Option String) (refused : Bool) : ℤ × FdState :=
  let (fd, k) := realOpenat s.kernel pathname refused
  if 0 ≤ fd ∧ isDrmPath pathname = true then
    (fd, { kernel := k, tracked := drmFdAdd s.tracked fd })
  else (fd, { s with kernel := k })

/-- The `fcntl` wrapper: an `F_DUPFD_CLOEXEC` that fails on a tracked number is tried again as
`F_DUPFD` plus `F_SETFD`, and a successful duplicate of a tracked number is tracked. -/
def shimFcntlImpl (s : FdState) (fd : ℤ) (cmd : FcntlCmd) (arg : ℤ)
    (refused refusedAgain : Bool) (value : ℤ) : ℤ × FdState :=
  let (ret, k) := realFcntl s.kernel fd cmd arg refused value
  if ret < 0 ∧ cmd = .dupfdCloexec ∧ drmFdIsTracked s.tracked fd = true then
    let (ret', k') := realFcntl k fd .dupfd arg refusedAgain value
    if 0 ≤ ret' then (ret', { kernel := k', tracked := drmFdAdd s.tracked ret' })
    else (ret', { s with kernel := k' })
  else if 0 ≤ ret ∧ (cmd = .dupfd ∨ cmd = .dupfdCloexec) ∧ drmFdIsTracked s.tracked fd = true then
    (ret, { kernel := k, tracked := drmFdAdd s.tracked ret })
  else (ret, { s with kernel := k })

/-- Plain `close`: the library has no wrapper for it, so only the kernel sees the call. -/
def close (s : FdState) (fd : ℤ) : FdState := { s with kernel := s.kernel.close fd }

/-- `drmClose`. -/
def drmClose (s : FdState) (fd : ℤ) : FdState where
  kernel := s.kernel.close fd
  tracked := drmFdRemove s.tracked fd

/-- One call of the application. -/
inductive FdCall where
  | openat (pathname : Option String) (refused : Bool)
  | fcntl (fd : ℤ) (cmd : FcntlCmd) (arg : ℤ) (refused refusedAgain : Bool) (value : ℤ)
  | close (fd : ℤ)
  | drmClose (fd : ℤ)

/-- The state after a call. -/
def FdState.after (s : FdState) : FdCall → FdState
  | .openat pathname refused => (openat s pathname refused).2
  | .fcntl fd cmd arg refused again value => (shimFcntlImpl s fd cmd arg refused again value).2
  | .close fd => DrmShim.close s fd
  | .drmClose fd => DrmShim.drmClose s fd

/-- A process before its first DRM node: nothing tracked, no DRM descriptor open. -/
def FdState.Initial (s : FdState) : Prop :=
  s.tracked = DrmFds.empty ∧ ∀ n, s.kernel.file n ≠ some .drmNode

/-- The runs of application calls. -/
def fdSystem : System FdState FdCall := System.ofFun FdState.Initial FdState.after

/-! ### What the table decides -/

section Interception

variable {α : Type}

/-- The `ioctl` wrapper: the shim's dispatcher for a tracked number, else the kernel's `ioctl`. -/
def ioctl (t : DrmFds) (drmIoctl realIoctl : ℤ → UInt64 → UInt64 → α) (fd : ℤ)
    (request arg : UInt64) : α :=
  if drmFdIsTracked t fd then drmIoctl fd request arg else realIoctl fd request arg

/-- `MMAP_OFFSET_BASE`. -/
def mmapOffsetBase : ℤ := 0x10000000

/-- The `mmap` wrapper: `resource` is the answer for a buffer object found at the offset. -/
def mmap (t : DrmFds) (resource : ℤ → Option α) (realMmap : ℤ → ℤ → α) (fd offset : ℤ) : α :=
  if drmFdIsTracked t fd ∧ mmapOffsetBase ≤ offset then
    (resource offset).getD (realMmap fd offset)
  else realMmap fd offset

/-- The two fields of `struct stat` the shim rewrites. -/
structure Stat where
  stMode : UInt32
  stRdev : UInt64
  deriving DecidableEq

/-- `drm_fake_stat_result`: a character device `226:128`. -/
def drmFakeStatResult (buf : Stat) : Stat where
  stMode := (buf.stMode &&& ~~~(0o170000 : UInt32)) ||| 0o020000
  stRdev := ((226 : UInt64) <<< 8) ||| 128

/-- The `fstat` wrapper: the return code and the buffer. -/
def fstat (t : DrmFds) (realFstat : ℤ → ℤ × Stat) (fd : ℤ) : ℤ × Stat :=
  let (ret, buf) := realFstat fd
  if ret = 0 ∧ drmFdIsTracked t fd = true then (ret, drmFakeStatResult buf) else (ret, buf)

end Interception

/-- The number is at this moment a descriptor of a DRM node opened through the shim, or a duplicate
of one. -/
def IsOpenDrm (k : Kernel) (fd : ℤ) : Prop := k.fileAt fd = some .drmNode

instance (k : Kernel) (fd : ℤ) : Decidable (IsOpenDrm k fd) :=
  inferInstanceAs (Decidable (_ = _))

/-- The table holds exactly the open DRM descriptors. -/
def Agree (t : DrmFds) (k : Kernel) : Prop :=
  ∀ fd, drmFdIsTracked t fd = true ↔ IsOpenDrm k fd

/-- **Tracking agrees with reality**, and so every other descriptor is passed through. -/
structure TracksReality (s : FdState) : Prop where
  agree : Agree s.tracked s.kernel
  ioctl_passes : ∀ {α : Type} (drmIoctl realIoctl : ℤ → UInt64 → UInt64 → α) (fd : ℤ)
    (request arg : UInt64), ¬ IsOpenDrm s.kernel fd →
      ioctl s.tracked drmIoctl realIoctl fd request arg = realIoctl fd request arg
  mmap_passes : ∀ {α : Type} (resource : ℤ → Option α) (realMmap : ℤ → ℤ → α) (fd offset : ℤ),
    ¬ IsOpenDrm s.kernel fd → mmap s.tracked resource realMmap fd offset = realMmap fd offset
  fstat_passes : ∀ (realFstat : ℤ → ℤ × Stat) (fd : ℤ),
    ¬ IsOpenDrm s.kernel fd → fstat s.tracked realFstat fd = realFstat fd

/-- The three interceptors follow the table, so agreement of the table is all there is to show. -/
theorem tracksReality_of_agree {s : FdState} (h : Agree s.tracked s.kernel) : TracksReality s where
  agree := h
  ioctl_passes drmIoctl realIoctl fd request arg hfd := by
    have hnot : ¬ drmFdIsTracked s.tracked fd = true := fun ht => hfd ((h fd).mp ht)
    simp only [ioctl, if_neg hnot]
  mmap_passes resource realMmap fd offset hfd := by
    have hnot : ¬ drmFdIsTracked s.tracked fd = true := fun ht => hfd ((h fd).mp ht)
    simp [mmap, hnot]
  fstat_passes realFstat fd hfd := by
    have hnot : ¬ drmFdIsTracked s.tracked fd = true := fun ht => hfd ((h fd).mp ht)
    simp [fstat, hnot]

/-! ### Agreement under the kernel's steps -/

theorem isOpenDrm_install (k : Kernel) (n : ℕ) (f : OpenFile) (fd : ℤ) :
    IsOpenDrm (k.install n f) fd ↔ if fd = n then f = .drmNode else IsOpenDrm k fd := by
  unfold IsOpenDrm
  rw [Descriptors.fileAt_install]
  by_cases h : fd = n <;> simp [h]

theorem isOpenDrm_close (k : Kernel) (fd fd' : ℤ) :
    IsOpenDrm (k.close fd) fd' ↔ fd' ≠ fd ∧ IsOpenDrm k fd' := by
  unfold IsOpenDrm
  rw [Descriptors.fileAt_close]
  by_cases h : fd' = fd <;> simp [h]

theorem not_isOpenDrm_of_free {k : Kernel} {n : ℕ} (hfree : k.file n = none) :
    ¬ IsOpenDrm k n := by
  simp [IsOpenDrm, hfree]

/-- A new descriptor of some other file reuses a number the table does not hold. -/
theorem agree_install_other {t : DrmFds} {k : Kernel} {n : ℕ} (h : Agree t k)
    (hfree : k.file n = none) : Agree t (k.install n .other) := by
  intro fd
  rw [isOpenDrm_install, h fd]
  by_cases heq : fd = n
  · simpa [heq] using not_isOpenDrm_of_free hfree
  · simp [heq]

/-- A new DRM descriptor is tracked while the table has room. -/
theorem agree_install_drmNode {t : DrmFds} {k : Kernel} {n : ℕ} (h : Agree t k)
    (hroom : t.fds.length < maxDrmFds) :
    Agree (drmFdAdd t n) (k.install n .drmNode) := by
  intro fd
  rw [isOpenDrm_install, drmFdIsTracked_add_of_room hroom, h fd]
  by_cases heq : fd = n <;> simp [heq]

/-- A DRM descriptor created while the table is full is not tracked. -/
theorem not_agree_of_full {t : DrmFds} {k : Kernel} {n : ℕ} (h : Agree t k)
    (hfree : k.file n = none) (hfull : ¬ t.fds.length < maxDrmFds) :
    ¬ Agree (drmFdAdd t n) (k.install n .drmNode) := by
  intro hagree
  rw [drmFdAdd_of_full hfull] at hagree
  have hopen : IsOpenDrm (k.install n .drmNode) n := by rw [isOpenDrm_install]; simp
  have htracked : drmFdIsTracked t n = true := (hagree n).mpr hopen
  exact not_isOpenDrm_of_free hfree ((h n).mp htracked)

/-- `drmClose` removes the number from both tables. -/
theorem agree_drmClose {s : FdState} (h : Agree s.tracked s.kernel) (fd : ℤ) :
    Agree (drmClose s fd).tracked (drmClose s fd).kernel := by
  intro fd'
  simp only [drmClose, isOpenDrm_close, drmFdIsTracked_remove, h fd']

/-- A plain `close` keeps agreement exactly when the number is no DRM descriptor. -/
theorem agree_close_iff {s : FdState} (h : Agree s.tracked s.kernel) (fd : ℤ) :
    Agree (close s fd).tracked (close s fd).kernel ↔ ¬ IsOpenDrm s.kernel fd := by
  constructor
  · intro hagree hopen
    have htracked : drmFdIsTracked s.tracked fd = true := (h fd).mpr hopen
    have hstill := (hagree fd).mp htracked
    rw [close, isOpenDrm_close] at hstill
    exact hstill.1 rfl
  · intro hnot fd'
    rw [close, isOpenDrm_close, h fd']
    exact ⟨fun hopen => ⟨fun heq => hnot (heq ▸ hopen), hopen⟩, fun hopen => hopen.2⟩

/-! ### What each kernel call can do -/

/-- `openat` fails and changes nothing, or opens the path at a free number. -/
theorem realOpenat_cases (k : Kernel) (pathname : Option String) (refused : Bool) :
    realOpenat k pathname refused = (-1, k) ∨
    ∃ n, k.file n = none ∧ realOpenat k pathname refused =
      ((n : ℤ), k.install n (if isDrmPath pathname then .drmNode else .other)) := by
  unfold realOpenat
  split
  · exact .inl rfl
  · cases hfree : k.lowestFree 0 with
    | none => exact .inl rfl
    | some n => exact .inr ⟨n, Descriptors.lowestFree_free hfree, rfl⟩

/-- A duplication fails and changes nothing, or opens the same file at a free number. -/
theorem realFcntl_dup_cases (k : Kernel) (fd : ℤ) {cmd : FcntlCmd} (hcmd : cmd ≠ .other)
    (arg : ℤ) (refused : Bool) (value : ℤ) :
    realFcntl k fd cmd arg refused value = (-1, k) ∨
    ∃ n f, k.fileAt fd = some f ∧ k.file n = none ∧
      realFcntl k fd cmd arg refused value = ((n : ℤ), k.install n f) := by
  unfold realFcntl
  cases hfile : k.fileAt fd with
  | none => exact .inl rfl
  | some f =>
    cases cmd with
    | other => exact absurd rfl hcmd
    | dupfd | dupfdCloexec =>
      simp only
      split
      · exact .inl rfl
      · cases hfree : k.lowestFree arg.toNat with
        | none => exact .inl rfl
        | some n => exact .inr ⟨n, f, rfl, Descriptors.lowestFree_free hfree, rfl⟩

/-- The other commands leave the descriptors alone. -/
theorem realFcntl_other_snd (k : Kernel) (fd arg : ℤ) (refused : Bool) (value : ℤ) :
    (realFcntl k fd .other arg refused value).2 = k := by
  unfold realFcntl
  cases k.fileAt fd <;> rfl

/-! ### The guard and the exact result -/

/-- The kernel gives the duplication a new number, at once or on the wrapper's second attempt. -/
def Duplicates (k : Kernel) (fd : ℤ) (cmd : FcntlCmd) (arg : ℤ) (refused refusedAgain : Bool)
    (value : ℤ) : Prop :=
  cmd ≠ .other ∧ (0 ≤ (realFcntl k fd cmd arg refused value).1 ∨
    cmd = .dupfdCloexec ∧ 0 ≤ (realFcntl k fd .dupfd arg refusedAgain value).1)

/-- The calls that keep the table right: a DRM descriptor appears only while fewer than
`MAX_DRM_FDS` are tracked, and a plain `close` is not applied to one. -/
def KeepsTable (s : FdState) : FdCall → Prop
  | .openat pathname refused =>
      isDrmPath pathname = true → 0 ≤ (realOpenat s.kernel pathname refused).1 →
        s.tracked.fds.length < maxDrmFds
  | .fcntl fd cmd arg refused again value =>
      IsOpenDrm s.kernel fd → Duplicates s.kernel fd cmd arg refused again value →
        s.tracked.fds.length < maxDrmFds
  | .close fd => ¬ IsOpenDrm s.kernel fd
  | .drmClose _ => True

theorem agree_openat_iff {s : FdState} (h : Agree s.tracked s.kernel) (pathname : Option String)
    (refused : Bool) :
    Agree (openat s pathname refused).2.tracked (openat s pathname refused).2.kernel ↔
      KeepsTable s (.openat pathname refused) := by
  rcases realOpenat_cases s.kernel pathname refused with hfail | ⟨n, hfree, hopen⟩
  · simp only [openat, KeepsTable, hfail]
    simpa using h
  · by_cases hdrm : isDrmPath pathname = true
    · simp only [openat, KeepsTable, hopen, hdrm, if_true, and_true, Nat.cast_nonneg,
        forall_true_left]
      by_cases hroom : s.tracked.fds.length < maxDrmFds
      · exact iff_of_true (agree_install_drmNode h hroom) hroom
      · exact iff_of_false (not_agree_of_full h hfree hroom) hroom
    · simp only [openat, KeepsTable, hopen, hdrm, and_false, if_false, Bool.false_eq_true,
        false_implies, iff_true]
      exact agree_install_other h hfree

/-- A duplicate at a free number, tracked exactly if the original is. -/
theorem agree_duplicate_iff {s : FdState} (h : Agree s.tracked s.kernel) {fd : ℤ} {n : ℕ}
    {f : OpenFile} (hfile : s.kernel.fileAt fd = some f) (hfree : s.kernel.file n = none) :
    Agree (if drmFdIsTracked s.tracked fd = true then drmFdAdd s.tracked n else s.tracked)
        (s.kernel.install n f) ↔
      (IsOpenDrm s.kernel fd → s.tracked.fds.length < maxDrmFds) := by
  cases f with
  | drmNode =>
    have hopen : IsOpenDrm s.kernel fd := hfile
    simp only [(h fd).mpr hopen, if_true, hopen, forall_true_left]
    by_cases hroom : s.tracked.fds.length < maxDrmFds
    · exact iff_of_true (agree_install_drmNode h hroom) hroom
    · exact iff_of_false (not_agree_of_full h hfree hroom) hroom
  | other =>
    have hnot : ¬ IsOpenDrm s.kernel fd := by simp [IsOpenDrm, hfile]
    have htracked : ¬ drmFdIsTracked s.tracked fd = true := fun ht => hnot ((h fd).mp ht)
    simp only [htracked, hnot, false_implies, iff_true]
    exact agree_install_other h hfree

theorem agree_fcntl_iff {s : FdState} (h : Agree s.tracked s.kernel) (fd : ℤ) (cmd : FcntlCmd)
    (arg : ℤ) (refused again : Bool) (value : ℤ) :
    Agree (shimFcntlImpl s fd cmd arg refused again value).2.tracked
        (shimFcntlImpl s fd cmd arg refused again value).2.kernel ↔
      KeepsTable s (.fcntl fd cmd arg refused again value) := by
  by_cases hother : cmd = .other
  · subst hother
    have hkernel := realFcntl_other_snd s.kernel fd arg refused value
    simp only [shimFcntlImpl, KeepsTable, Duplicates, reduceCtorEq, false_and, and_false, or_self,
      if_false, hkernel, ne_eq, not_true_eq_false, false_implies, implies_true, iff_true]
    exact h
  have hdup : cmd = .dupfd ∨ cmd = .dupfdCloexec := by cases cmd <;> simp_all
  rcases realFcntl_dup_cases s.kernel fd hother arg refused value with
    hfail | ⟨n, f, hfile, hfree, hfirst⟩
  · -- the first attempt fails: only a tracked `F_DUPFD_CLOEXEC` is tried again
    by_cases hretry : cmd = .dupfdCloexec ∧ drmFdIsTracked s.tracked fd = true
    · obtain ⟨rfl, htracked⟩ := hretry
      rcases realFcntl_dup_cases s.kernel fd (by decide : FcntlCmd.dupfd ≠ .other) arg again value with
        hfail' | ⟨n, f, hfile, hfree, hsecond⟩
      · simp [shimFcntlImpl, KeepsTable, Duplicates, hfail, hfail', htracked, h]
      · have hiff := agree_duplicate_iff h hfile hfree
        rw [if_pos htracked] at hiff
        simpa [shimFcntlImpl, KeepsTable, Duplicates, hfail, hsecond, htracked] using hiff
    · have hunchanged : (shimFcntlImpl s fd cmd arg refused again value).2 = s := by
        simp [shimFcntlImpl, hfail, hretry]
      rw [hunchanged]
      refine iff_of_true h ?_
      intro hopen hdups
      have hnotcloexec : cmd ≠ .dupfdCloexec := fun hc => hretry ⟨hc, (h fd).mpr hopen⟩
      rw [Duplicates, hfail] at hdups
      simp [hnotcloexec] at hdups
  · -- the first attempt succeeds: the duplicate is tracked if the original is
    have hiff := agree_duplicate_iff h hfile hfree
    have hdups : Duplicates s.kernel fd cmd arg refused again value :=
      ⟨hother, .inl (by rw [hfirst]; exact Int.natCast_nonneg n)⟩
    have hafter : (shimFcntlImpl s fd cmd arg refused again value).2 =
        { kernel := s.kernel.install n f
          tracked := if drmFdIsTracked s.tracked fd = true then drmFdAdd s.tracked n
            else s.tracked } := by
      have hnonneg : ¬ (n : ℤ) < 0 := by omega
      by_cases htracked : drmFdIsTracked s.tracked fd = true
      · simp [shimFcntlImpl, hfirst, hnonneg, hdup, htracked]
      · simp [shimFcntlImpl, hfirst, htracked]
    rw [hafter]
    simpa [KeepsTable, hdups] using hiff

/-- **One call.**  From agreement, a call leads to agreement exactly when it meets the guard. -/
theorem agree_after_iff {s : FdState} (h : Agree s.tracked s.kernel) (call : FdCall) :
    Agree (s.after call).tracked (s.after call).kernel ↔ KeepsTable s call := by
  cases call with
  | openat pathname refused => exact agree_openat_iff h pathname refused
  | fcntl fd cmd arg refused again value => exact agree_fcntl_iff h fd cmd arg refused again value
  | close fd => exact agree_close_iff h fd
  | drmClose fd => exact iff_of_true (agree_drmClose h fd) trivial

/-- **Tracking is exact on exactly the runs that keep the table.**  From a process without DRM
descriptors, the tracked numbers are the open DRM descriptors in every state of a run if and only
if every call of the run meets `KeepsTable`. -/
theorem tracksReality_iff_keepsTable (s : FdState) (run : List (FdCall × FdState))
    (hinit : s.Initial) (hrun : fdSystem.Exec s run) :
    AllStates TracksReality s run ↔ AllSteps KeepsTable s run := by
  have hagree : Agree s.tracked s.kernel := by
    intro fd
    rw [hinit.1, drmFdIsTracked_empty]
    simp only [Bool.false_eq_true, false_iff, IsOpenDrm, Descriptors.fileAt]
    split
    · simp
    · exact hinit.2 _
  refine System.allStates_iff_allSteps (I := fun s => Agree s.tracked s.kernel)
    (fun s hs => tracksReality_of_agree hs) ?_ ?_ hagree hrun
  · rintro s call _ hs rfl hguard
    exact (agree_after_iff hs call).mpr hguard
  · rintro s call _ hs rfl hguard htracks
    exact hguard ((agree_after_iff hs call).mp htracks.agree)

/-- A process with its three standard descriptors open and nothing else. -/
def freshProcess : FdState where
  kernel := { limit := 64, file := fun n => if n < 3 then some .other else none }
  tracked := DrmFds.empty

theorem freshProcess_initial : freshProcess.Initial := by
  refine ⟨rfl, fun n => ?_⟩
  simp only [freshProcess]
  split <;> simp

/-- Open the render node, close it with plain `close`, open another file: the number is reused. -/
def reusedNumberCalls : List FdCall :=
  [.openat (some "/dev/dri/renderD128") false, .close 3, .openat (some "/etc/hosts") false]

/-- Tracking does not agree with reality on every run: after `reusedNumberCalls` descriptor 3 is an
ordinary file and its `ioctl`s go to the shim. -/
theorem reused_number_is_hijacked :
    ¬ ∀ (s : FdState) (run : List (FdCall × FdState)), s.Initial → fdSystem.Exec s run →
      AllStates TracksReality s run := by
  intro hall
  have htracks := hall freshProcess (trace FdState.after freshProcess reusedNumberCalls)
    freshProcess_initial (System.exec_trace _ _ _)
  have hlast := (htracks.2 (.openat (some "/etc/hosts") false,
    ((freshProcess.after (.openat (some "/dev/dri/renderD128") false)).after (.close 3)).after
      (.openat (some "/etc/hosts") false)) (by simp [reusedNumberCalls, trace])).agree
  exact absurd ((hlast 3).mp (by decide)) (by decide)

/-- The exact result on a run that keeps the table: the node is opened, duplicated and closed with
`drmClose`. -/
theorem tracksReality_iff_keepsTable_on_clean_run :
    AllStates TracksReality freshProcess (trace FdState.after freshProcess
      [.openat (some "/dev/dri/card0") false, .fcntl 3 .dupfdCloexec 0 true false 0,
        .drmClose 3]) ↔
    AllSteps KeepsTable freshProcess (trace FdState.after freshProcess
      [.openat (some "/dev/dri/card0") false, .fcntl 3 .dupfdCloexec 0 true false 0,
        .drmClose 3]) :=
  tracksReality_iff_keepsTable freshProcess _ freshProcess_initial (System.exec_trace _ _ _)

end Wldroid.DrmShim
