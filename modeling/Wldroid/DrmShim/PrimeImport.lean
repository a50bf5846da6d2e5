import Wldroid.DrmShim.ResourceLife

/-!
# PRIME imports between threads

An import allocates its BO in one critical section and fills it from the inode cache in another,
through a pointer into the table.  Creations, transfers and closings run in between.

* `PrimeState.next` — the critical sections of all threads, one step each;
* `ImportsAtomic` — no thread gets hold of the BO of an import that is still to be filled from the
  cache, and what an import found is in its BO;
* `importsAtomic_iff_undisturbed` — this holds in every state of a run exactly if no section of the
  run disturbs an import.
-/

namespace Wldroid.DrmShim

open Wldroid.Foundation

/-! ### State -/

/-- Where a thread is between its critical sections.  A pointer into the table is the memory block
the table was in and an index. -/
inductive PrimeAt where
  | idle
  /-- An import, before `inode_cache_lookup`. -/
  | lookup (fd : Option BackingFile) (block handle : ℕ)
  /-- A creation, before it fills its BO. -/
  | fill (rc : ResourceCreate) (handle : ℕ)
  /-- A creation, before `inode_cache_store`, with the pointer to its BO. -/
  | store (rc : ResourceCreate) (res : ℕ) (shmFd : Option BackingFile) (bo : Option (ℕ × ℕ))

/-- The table, the block it is in, the cache, and the threads. -/
structure PrimeState (ι : Type) where
  table : BoTable
  block : ℕ
  cache : InodeCache
  pc : ι → PrimeAt
  /-- Ghost: the BO the last section got hold of, and its thread. -/
  obtained : Option (ι × Bo)
  /-- Ghost: what the imports of the live BOs have found in the cache. -/
  recovered : ℕ → Option CacheEntry

/-- The critical sections, with what their surroundings contribute. -/
inductive PrimeAction where
  /-- `shim_prime_fd_to_handle` and `drmPrimeFDToHandle`, under `bo_mutex`; `moves` tells whether a
  growing table is moved. -/
  | primeFdToHandle (fd : Option BackingFile) (realloc moves dup : Bool)
  /-- Their second section, under `inode_cache_mutex`. -/
  | inodeCacheLookup
  /-- The first section of `shim_resource_create`. -/
  | resourceCreate (rc : ResourceCreate) (realloc moves : Bool)
  /-- The exchange of a creation fails: it returns. -/
  | exchangeLost
  /-- The second section of `shim_resource_create`, with the server's answer. -/
  | fillBo (res : ℕ) (shmFd : Option BackingFile)
  /-- The end of `shim_resource_create`; `stale` is what it reads through a pointer to freed
  memory. -/
  | inodeCacheStore (stale : Bool)
  /-- The section of a transfer ioctl. -/
  | transfer (handle : ℕ)
  /-- The section of `shim_gem_close`. -/
  | gemClose (handle : ℕ)

variable {ι : Type} [DecidableEq ι]

/-! ### Code -/

/-- A thread goes on. -/
def PrimeState.goto (s : PrimeState ι) (j : ι) (pc : PrimeAt) : PrimeState ι :=
  { s with pc := Function.update s.pc j pc }

/-- The block of the table after an allocation. -/
def PrimeState.blockAfter (s : PrimeState ι) (table : BoTable) (moves : Bool) : ℕ :=
  if moves ∧ table.capacity ≠ s.table.capacity then s.block + 1 else s.block

/-- An import up to its unlock. -/
def PrimeState.importSection (s : PrimeState ι) (j : ι) (fd : Option BackingFile)
    (realloc moves dup : Bool) : Option (PrimeState ι) :=
  match boFindByInode s.table fd with
  | none => none
  | some (some bo) => some { s with obtained := some (j, bo) }
  | some none =>
      match boAlloc s.table realloc with
      | none => none
      | some (table, none) => some { s with table := table, obtained := none }
      | some (table, some handle) =>
          some ({ s with
            table := table.modify handle (Bo.imported fd dup)
            block := s.blockAfter table moves
            obtained := none }.goto j (.lookup fd (s.blockAfter table moves) handle))

/-- `inode_cache_lookup`: what is found is written through the pointer, which reaches the table if
that has not been moved. -/
def PrimeState.lookupSection (s : PrimeState ι) (j : ι) (fd : Option BackingFile)
    (block handle : ℕ) : PrimeState ι :=
  match s.cache.lookup fd with
  | none => { s with obtained := none }.goto j .idle
  | some e =>
      { s with
        table := if block = s.block then s.table.modify handle (Bo.restored e) else s.table
        recovered := Function.update s.recovered handle (some e)
        obtained := none }.goto j .idle

/-- A creation up to its first unlock. -/
def PrimeState.createSection (s : PrimeState ι) (j : ι) (rc : ResourceCreate)
    (realloc moves : Bool) : Option (PrimeState ι) :=
  match boAlloc s.table realloc with
  | none => none
  | some (table, none) => some { s with table := table, obtained := none }
  | some (table, some handle) =>
      some ({ s with
        table := table
        block := s.blockAfter table moves
        obtained := none }.goto j (.fill rc handle))

/-- A creation fills its BO. -/
def PrimeState.fillSection (s : PrimeState ι) (j : ι) (rc : ResourceCreate) (handle res : ℕ)
    (shmFd : Option BackingFile) : PrimeState ι :=
  match boLookup s.table handle with
  | none => { s with obtained := none }.goto j (.store rc res shmFd none)
  | some bo =>
      { s with
        table := s.table.modify handle (Bo.created rc res shmFd)
        obtained := some (j, bo) }.goto j (.store rc res shmFd (some (s.block, handle)))

/-- `bo ? bo->is_ahb : false`. -/
def PrimeState.isAhbAt (s : PrimeState ι) (bo : Option (ℕ × ℕ)) (stale : Bool) : Bool :=
  match bo with
  | none => false
  | some (block, handle) => if block = s.block then (s.table.slots handle).isAhb else stale

/-- A creation seeds the cache. -/
def PrimeState.storeSection (s : PrimeState ι) (j : ι) (rc : ResourceCreate) (res : ℕ)
    (shmFd : Option BackingFile) (isAhb : Bool) : PrimeState ι :=
  { s with
    cache := s.cache.store shmFd (CacheEntry.created rc res isAhb)
    obtained := none }.goto j .idle

/-- A transfer looks its BO up. -/
def PrimeState.transferSection (s : PrimeState ι) (j : ι) (handle : ℕ) : PrimeState ι :=
  { s with obtained := (boLookup s.table handle).map fun bo => (j, bo) }

/-- `shim_gem_close` up to its unlock. -/
def PrimeState.closeSection (s : PrimeState ι) (j : ι) (handle : ℕ) : PrimeState ι :=
  match boLookup s.table handle with
  | none => { s with obtained := none }
  | some bo =>
      { s with
        table := s.table.modify handle fun _ => Bo.zero
        recovered := Function.update s.recovered handle none
        obtained := some (j, bo) }

/-- The next section of a thread. -/
def PrimeState.next (s : PrimeState ι) : ι × PrimeAction → Option (PrimeState ι)
  | (j, action) =>
      match s.pc j, action with
      | .idle, .primeFdToHandle fd realloc moves dup => s.importSection j fd realloc moves dup
      | .idle, .resourceCreate rc realloc moves => s.createSection j rc realloc moves
      | .idle, .transfer handle => some (s.transferSection j handle)
      | .idle, .gemClose handle => some (s.closeSection j handle)
      | .lookup fd block handle, .inodeCacheLookup => some (s.lookupSection j fd block handle)
      | .fill _ _, .exchangeLost => some ({ s with obtained := none }.goto j .idle)
      | .fill rc handle, .fillBo res shmFd => some (s.fillSection j rc handle res shmFd)
      | .store rc res shmFd bo, .inodeCacheStore stale =>
          some (s.storeSection j rc res shmFd (s.isAhbAt bo stale))
      | _, _ => none

/-- The shim at load time. -/
def PrimeState.Initial (s : PrimeState ι) : Prop :=
  s.table = BoTable.empty ∧ s.cache = InodeCache.empty ∧ (∀ j, s.pc j = .idle) ∧
    s.obtained = none ∧ ∀ handle, s.recovered handle = none

/-- All interleavings. -/
def primeSystem (ι : Type) [DecidableEq ι] : System (PrimeState ι) (ι × PrimeAction) :=
  System.ofNext PrimeState.Initial PrimeState.next

/-! ### Atomicity -/

/-- The resource handle, the geometry and the flag of a BO are those of a cache entry. -/
def Bo.Holds (bo : Bo) (e : CacheEntry) : Prop :=
  bo.resHandle = e.resHandle ∧ bo.width = e.width ∧ bo.height = e.height ∧ bo.stride = e.stride ∧
    bo.size = e.size ∧ bo.isAhb = e.isAhb

/-- No thread has got hold of a BO without a resource that is the BO of another thread's import of a
cached file, and what the imports have found is in the BOs whose handles they return. -/
structure ImportsAtomic (s : PrimeState ι) : Prop where
  hidden : ∀ j bo, s.obtained = some (j, bo) → ∀ k, k ≠ j → ∀ fd block,
    s.pc k = .lookup fd block bo.boHandle → (s.cache.lookup fd).isSome → bo.resHandle ≠ 0
  stored : ∀ handle e, s.recovered handle = some e →
    ∃ bo, s.table.live handle = some bo ∧ bo.Holds e ∧ bo.resHandle ≠ 0

/-- The handle of the BO a section looks up, or finds by its inode. -/
def PrimeState.lookedUp (s : PrimeState ι) : ι × PrimeAction → Option ℕ
  | (j, action) =>
      match s.pc j, action with
      | .idle, .primeFdToHandle fd _ _ _ => (boFindByInode s.table fd).join.map Bo.boHandle
      | .idle, .transfer handle | .idle, .gemClose handle => some handle
      | .fill _ handle, .fillBo _ _ => some handle
      | _, _ => none

/-- A section leaves the imports of the other threads alone: it does not look up the BO of one that
is still to be filled from the cache; and an import comes to its second section, where it finds
something, with the table unmoved and its BO still open. -/
def Undisturbed (s : PrimeState ι) (e : ι × PrimeAction) : Prop :=
  (∀ handle, s.lookedUp e = some handle → (s.table.live handle).isSome → ∀ k, k ≠ e.1 →
    ∀ fd block, s.pc k = .lookup fd block handle → s.cache.lookup fd = none) ∧
  (∀ fd block handle, s.pc e.1 = .lookup fd block handle → (s.cache.lookup fd).isSome →
    block = s.block ∧ (s.table.live handle).isSome)

/-! ### Invariant -/

/-- The handle of a BO that a thread has allocated and is still to fill. -/
def PrimeAt.handle : PrimeAt → Option ℕ
  | .lookup _ _ handle | .fill _ handle => some handle
  | .idle | .store _ _ _ _ => none

/-- What holds in all interleavings: the BOs still to be filled are of one thread each, and
empty. -/
structure PrimeInv (s : PrimeState ι) : Prop where
  table : s.table.WellFormed
  cached : ∀ e ∈ s.cache.entries, e.resHandle ≠ 0
  below : ∀ k handle, (s.pc k).handle = some handle → handle < s.table.handleNext
  apart : ∀ k k' handle, (s.pc k).handle = some handle → (s.pc k').handle = some handle → k = k'
  empty : ∀ k fd block handle bo, s.pc k = .lookup fd block handle →
    s.table.live handle = some bo → bo.resHandle = 0
  done : ∀ handle e, s.recovered handle = some e →
    handle < s.table.handleNext ∧ ∀ k, (s.pc k).handle ≠ some handle

section Inv

variable {s t : PrimeState ι} {j : ι} {a : PrimeAt}

omit [DecidableEq ι] in
theorem primeInv_of_initial (h : s.Initial) : PrimeInv s := by
  obtain ⟨htable, hcache, hidle, _, hrecovered⟩ := h
  refine ⟨htable ▸ wellFormed_empty, ?_, ?_, ?_, ?_, ?_⟩
  · intro e he
    rw [hcache, InodeCache.entries_empty] at he
    cases he
  · intro k handle hk
    rw [hidle k] at hk
    cases hk
  · intro k k' handle hk
    rw [hidle k] at hk
    cases hk
  · intro k fd block handle bo hk
    rw [hidle k] at hk
    cases hk
  · intro handle e he
    rw [hrecovered handle] at he
    cases he

/-- Who has a BO to fill after a thread has gone on. -/
theorem handle_update (hpc : t.pc = Function.update s.pc j a) {k : ι} {handle : ℕ}
    (hk : (t.pc k).handle = some handle) :
    k = j ∧ a.handle = some handle ∨ k ≠ j ∧ (s.pc k).handle = some handle := by
  rw [hpc] at hk
  by_cases hkj : k = j
  · rw [hkj, Function.update_self] at hk
    exact .inl ⟨hkj, hk⟩
  · rw [Function.update_of_ne hkj] at hk
    exact .inr ⟨hkj, hk⟩

/-- Who has a BO to fill after a thread has gone on without one. -/
theorem handle_update_none (hpc : t.pc = Function.update s.pc j a) (ha : a.handle = none) {k : ι}
    {handle : ℕ} (hk : (t.pc k).handle = some handle) :
    k ≠ j ∧ (s.pc k).handle = some handle := by
  rcases handle_update hpc hk with ⟨_, hnew⟩ | hold
  · rw [ha] at hnew
    cases hnew
  · exact hold

/-- A section after which its thread has no BO to fill, and which has changed the live BOs at most
where no other thread is to fill one, or by freeing them. -/
theorem PrimeInv.leave (h : PrimeInv s) (hpc : t.pc = Function.update s.pc j a)
    (ha : a.handle = none) (htable : t.table.WellFormed)
    (hnext : s.table.handleNext ≤ t.table.handleNext)
    (hlive : ∀ handle, t.table.live handle = s.table.live handle ∨ t.table.live handle = none ∨
      ∀ k, k ≠ j → (s.pc k).handle ≠ some handle)
    (hcached : ∀ e ∈ t.cache.entries, e.resHandle ≠ 0)
    (hdone : ∀ other e, t.recovered other = some e →
      s.recovered other = some e ∨ (s.pc j).handle = some other) : PrimeInv t where
  table := htable
  cached := hcached
  below := by
    intro k other hk
    exact lt_of_lt_of_le (h.below k other (handle_update_none hpc ha hk).2) hnext
  apart := by
    intro k k' other hk hk'
    exact h.apart k k' other (handle_update_none hpc ha hk).2 (handle_update_none hpc ha hk').2
  empty := by
    intro k fd block other bo hk hbo
    have hhandle : (t.pc k).handle = some other := by
      rw [hk]
      rfl
    obtain ⟨hkj, hold⟩ := handle_update_none hpc ha hhandle
    rw [hpc, Function.update_of_ne hkj] at hk
    rcases hlive other with hsame | hnone | hfree
    · exact h.empty k fd block other bo hk (hsame.symm.trans hbo)
    · rw [hnone] at hbo
      cases hbo
    · exact absurd hold (hfree k hkj)
  done := by
    intro other e he
    rcases hdone other e he with hold | hmine
    · obtain ⟨hlt, hnone⟩ := h.done other e hold
      exact ⟨lt_of_lt_of_le hlt hnext, fun k hk => hnone k (handle_update_none hpc ha hk).2⟩
    · refine ⟨lt_of_lt_of_le (h.below j other hmine) hnext, fun k hk => ?_⟩
      obtain ⟨hkj, hk⟩ := handle_update_none hpc ha hk
      exact hkj (h.apart k j other hk hmine)

/-- A section that allocates a BO its thread is to fill. -/
theorem PrimeInv.allocate (h : PrimeInv s) {bo : Bo} (hpc : t.pc = Function.update s.pc j a)
    (ha : a.handle = some s.table.handleNext) (htable : t.table.WellFormed)
    (hnext : t.table.handleNext = s.table.handleNext + 1)
    (hlive : t.table.live = Function.update s.table.live s.table.handleNext (some bo))
    (hbo : bo.resHandle = 0) (hcache : t.cache = s.cache) (hrecovered : t.recovered = s.recovered) :
    PrimeInv t where
  table := htable
  cached := hcache ▸ h.cached
  below := by
    intro k other hk
    rcases handle_update hpc hk with ⟨_, hnew⟩ | ⟨_, hold⟩
    · rw [ha] at hnew
      have := Option.some.inj hnew
      omega
    · have := h.below k other hold
      omega
  apart := by
    intro k k' other hk hk'
    rcases handle_update hpc hk with ⟨hkj, hnew⟩ | ⟨_, hold⟩
    · rcases handle_update hpc hk' with ⟨hkj', _⟩ | ⟨_, hold'⟩
      · rw [hkj, hkj']
      · rw [ha] at hnew
        have heq := Option.some.inj hnew
        have := h.below k' other hold'
        omega
    · rcases handle_update hpc hk' with ⟨_, hnew'⟩ | ⟨_, hold'⟩
      · rw [ha] at hnew'
        have heq := Option.some.inj hnew'
        have := h.below k other hold
        omega
      · exact h.apart k k' other hold hold'
  empty := by
    intro k fd block other found hk hfound
    rw [hlive] at hfound
    have hhandle : (t.pc k).handle = some other := by
      rw [hk]
      rfl
    rcases handle_update hpc hhandle with ⟨_, hnew⟩ | ⟨hkj, hold⟩
    · rw [ha] at hnew
      obtain rfl := Option.some.inj hnew
      rw [Function.update_self] at hfound
      obtain rfl := Option.some.inj hfound
      exact hbo
    · have hlt := h.below k other hold
      rw [Function.update_of_ne (by omega)] at hfound
      rw [hpc, Function.update_of_ne hkj] at hk
      exact h.empty k fd block other found hk hfound
  done := by
    intro other e he
    rw [hrecovered] at he
    obtain ⟨hlt, hnone⟩ := h.done other e he
    refine ⟨by omega, fun k hk => ?_⟩
    rcases handle_update hpc hk with ⟨_, hnew⟩ | ⟨_, hold⟩
    · rw [ha] at hnew
      have := Option.some.inj hnew
      omega
    · exact hnone k hold

end Inv

/-! ### Sections -/

/-- What a BO found by its inode is. -/
theorem BoTable.WellFormed.live_of_boFindByInode {t : BoTable} (hw : t.WellFormed)
    {fd : Option BackingFile} {bo : Bo} (h : boFindByInode t fd = some (some bo)) :
    t.live bo.boHandle = some bo := by
  unfold boFindByInode at h
  split at h
  · cases h
  · rename_i key _
    split at h
    · rename_i i hfind
      obtain rfl := Option.some.inj (Option.some.inj h)
      have hbacked := List.find?_some hfind
      simp only [Bo.backedBy, Bool.and_eq_true, decide_eq_true_eq] at hbacked
      have hlive : t.live i = some (t.slots i) := live_eq_some.mpr ⟨hbacked.1, rfl⟩
      rwa [hw.handle_eq i _ hlive]
    · split at h <;> cases h

section Sections

variable {s t : PrimeState ι} {j : ι} {a : PrimeAt} {action : PrimeAction}

/-- A section keeps the invariant, and it keeps the imports atomic exactly if it is undisturbed. -/
def SectionSound (s : PrimeState ι) (e : ι × PrimeAction) (t : PrimeState ι) : Prop :=
  PrimeInv t ∧ (ImportsAtomic s → (ImportsAtomic t ↔ Undisturbed s e))

omit [DecidableEq ι] in
/-- What earlier imports have stored stays where their BOs are left alone. -/
theorem ImportsAtomic.stored_of (h : ImportsAtomic s)
    (hkeep : ∀ handle e, t.recovered handle = some e →
      s.recovered handle = some e ∧ t.table.live handle = s.table.live handle) {handle : ℕ}
    {e : CacheEntry} (he : t.recovered handle = some e) :
    ∃ bo, t.table.live handle = some bo ∧ bo.Holds e ∧ bo.resHandle ≠ 0 := by
  obtain ⟨hold, hlive⟩ := hkeep handle e he
  rw [hlive]
  exact h.stored handle e hold

omit [DecidableEq ι] in
/-- A section that gets hold of no BO and fills none for an import. -/
theorem sectionSound_quiet (hinv : PrimeInv t) (hobtained : t.obtained = none)
    (hkeep : ∀ handle e, t.recovered handle = some e →
      s.recovered handle = some e ∧ t.table.live handle = s.table.live handle)
    (hlookup : ∀ handle, s.lookedUp (j, action) = some handle → s.table.live handle = none)
    (hat : ∀ fd block handle, s.pc j ≠ .lookup fd block handle) :
    SectionSound s (j, action) t := by
  refine ⟨hinv, fun h => ⟨fun _ => ⟨?_, ?_⟩, fun _ => ⟨?_, ?_⟩⟩⟩
  · intro handle hhandle hlive
    rw [hlookup handle hhandle] at hlive
    cases hlive
  · intro fd block handle hj
    exact absurd hj (hat fd block handle)
  · intro k bo hbo
    rw [hobtained] at hbo
    cases hbo
  · intro handle e he
    exact h.stored_of hkeep he

/-- A section that gets hold of a BO. -/
theorem sectionSound_obtain (hs : PrimeInv s) (hinv : PrimeInv t) {handle : ℕ} {bo : Bo}
    (hlive : s.table.live handle = some bo) (hobtained : t.obtained = some (j, bo))
    (hcache : t.cache = s.cache) (hpc : t.pc = Function.update s.pc j a)
    (hkeep : ∀ handle e, t.recovered handle = some e →
      s.recovered handle = some e ∧ t.table.live handle = s.table.live handle)
    (hlookup : s.lookedUp (j, action) = some handle)
    (hat : ∀ fd block handle, s.pc j ≠ .lookup fd block handle) :
    SectionSound s (j, action) t := by
  have hhandle := hs.table.handle_eq handle bo hlive
  refine ⟨hinv, fun h => ⟨fun ht => ⟨?_, ?_⟩, fun hguard => ⟨?_, ?_⟩⟩⟩
  · intro other hother _ k hkj fd block hk
    rw [hlookup] at hother
    obtain rfl := Option.some.inj hother
    -- the BO of an import that is still to be filled has no resource
    have hzero := hs.empty k fd block handle bo hk hlive
    by_contra hcached
    refine ht.hidden j bo hobtained k hkj fd block ?_ ?_ hzero
    · rw [hpc, Function.update_of_ne hkj, hhandle]
      exact hk
    · rw [hcache]
      exact Option.isSome_iff_ne_none.mpr hcached
  · intro fd block other hj
    exact absurd hj (hat fd block other)
  · intro i found hfound k hki fd block hk hcached
    rw [hobtained] at hfound
    obtain ⟨rfl, rfl⟩ := Prod.mk.inj (Option.some.inj hfound)
    rw [hpc, Function.update_of_ne hki, hhandle] at hk
    rw [hcache, hguard.1 handle hlookup (by rw [hlive]; rfl) k hki fd block hk] at hcached
    cases hcached
  · intro other e he
    exact h.stored_of hkeep he

omit [DecidableEq ι] in
/-- A thread that is not between the sections of an import. -/
theorem not_lookup (hat : s.pc j = a) (ha : ∀ fd block handle, a ≠ .lookup fd block handle)
    (fd : Option BackingFile) (block handle : ℕ) : s.pc j ≠ .lookup fd block handle := by
  rw [hat]
  exact ha fd block handle

/-- An allocation that fails. -/
theorem PrimeInv.counter (h : PrimeInv s) {table : BoTable} (hidle : s.pc j = .idle)
    (hwf : table.WellFormed) (hnext : table.handleNext = s.table.handleNext + 1)
    (hlive : table.live = s.table.live) :
    PrimeInv { s with table := table, obtained := none } := by
  refine h.leave (j := j) (a := .idle) ?_ rfl hwf (by show _ ≤ table.handleNext; omega)
    (fun handle => .inl (congrFun hlive handle)) h.cached (fun _ _ he => .inl he)
  rw [← hidle, Function.update_eq_self]

/-- An allocation in a section that gets hold of no BO. -/
theorem sectionSound_allocate (hs : PrimeInv s) {bo : Bo} (hpc : t.pc = Function.update s.pc j a)
    (ha : a.handle = some s.table.handleNext) (htable : t.table.WellFormed)
    (hnext : t.table.handleNext = s.table.handleNext + 1)
    (hlive : t.table.live = Function.update s.table.live s.table.handleNext (some bo))
    (hbo : bo.resHandle = 0) (hcache : t.cache = s.cache) (hrecovered : t.recovered = s.recovered)
    (hobtained : t.obtained = none)
    (hlookup : ∀ handle, s.lookedUp (j, action) = some handle → s.table.live handle = none)
    (hat : ∀ fd block handle, s.pc j ≠ .lookup fd block handle) :
    SectionSound s (j, action) t := by
  have hinv := hs.allocate hpc ha htable hnext hlive hbo hcache hrecovered
  refine sectionSound_quiet hinv hobtained (fun handle e he => ?_) hlookup hat
  rw [hrecovered] at he
  have hlt := (hs.done handle e he).1
  exact ⟨he, by rw [hlive, Function.update_of_ne (by omega)]⟩

/-- The first section of an import. -/
theorem sectionSound_import (hs : PrimeInv s) (hidle : s.pc j = .idle) {fd : Option BackingFile}
    {realloc moves dup : Bool} (h : s.importSection j fd realloc moves dup = some t) :
    SectionSound s (j, .primeFdToHandle fd realloc moves dup) t := by
  have hat := not_lookup hidle fun _ _ _ => PrimeAt.noConfusion
  have hlookedUp : s.lookedUp (j, .primeFdToHandle fd realloc moves dup) =
      (boFindByInode s.table fd).join.map Bo.boHandle := by
    unfold PrimeState.lookedUp
    simp only [hidle]
  unfold PrimeState.importSection at h
  split at h
  · cases h
  · rename_i bo hfound
    obtain rfl := Option.some.inj h
    refine sectionSound_obtain (a := .idle) hs ?_ (hs.table.live_of_boFindByInode hfound) rfl rfl
      ?_ (fun _ _ he => ⟨he, rfl⟩) ?_ hat
    · exact ⟨hs.table, hs.cached, hs.below, hs.apart, hs.empty, hs.done⟩
    · rw [← hidle, Function.update_eq_self]
    · rw [hlookedUp, hfound]
      rfl
  · rename_i hnew
    have hnone : ∀ handle, s.lookedUp (j, .primeFdToHandle fd realloc moves dup) = some handle →
        s.table.live handle = none := by
      intro handle hhandle
      rw [hlookedUp, hnew] at hhandle
      cases hhandle
    split at h
    · cases h
    · rename_i table halloc
      obtain rfl := Option.some.inj h
      obtain ⟨hwf, hnext, hlive⟩ := hs.table.boAlloc_failed halloc
      exact sectionSound_quiet (hs.counter hidle hwf hnext hlive) rfl
        (fun handle _ he => ⟨he, congrFun hlive handle⟩) hnone hat
    · rename_i table handle halloc
      obtain rfl := Option.some.inj h
      obtain ⟨rfl, hwf, hnext, hlive⟩ := hs.table.boAlloc_made halloc
      obtain ⟨hwf', hlive'⟩ := hwf.modify s.table.handleNext (f := Bo.imported fd dup) fun _ => rfl
      rw [hlive, Function.update_self, Function.update_idem] at hlive'
      exact sectionSound_allocate hs rfl rfl hwf' hnext hlive' rfl rfl rfl rfl hnone hat

/-- The first section of a creation. -/
theorem sectionSound_create (hs : PrimeInv s) (hidle : s.pc j = .idle) {rc : ResourceCreate}
    {realloc moves : Bool} (h : s.createSection j rc realloc moves = some t) :
    SectionSound s (j, .resourceCreate rc realloc moves) t := by
  have hat := not_lookup hidle fun _ _ _ => PrimeAt.noConfusion
  have hnone : ∀ handle, s.lookedUp (j, .resourceCreate rc realloc moves) = some handle →
      s.table.live handle = none := by
    intro handle hhandle
    unfold PrimeState.lookedUp at hhandle
    simp only [hidle] at hhandle
    cases hhandle
  unfold PrimeState.createSection at h
  split at h
  · cases h
  · rename_i table halloc
    obtain rfl := Option.some.inj h
    obtain ⟨hwf, hnext, hlive⟩ := hs.table.boAlloc_failed halloc
    exact sectionSound_quiet (hs.counter hidle hwf hnext hlive) rfl
      (fun handle _ he => ⟨he, congrFun hlive handle⟩) hnone hat
  · rename_i table handle halloc
    obtain rfl := Option.some.inj h
    obtain ⟨rfl, hwf, hnext, hlive⟩ := hs.table.boAlloc_made halloc
    exact sectionSound_allocate hs rfl rfl hwf hnext hlive rfl rfl rfl rfl hnone hat

/-- A transfer. -/
theorem sectionSound_transfer (hs : PrimeInv s) (hidle : s.pc j = .idle) (handle : ℕ) :
    SectionSound s (j, .transfer handle) (s.transferSection j handle) := by
  have hat := not_lookup hidle fun _ _ _ => PrimeAt.noConfusion
  have hlookedUp : s.lookedUp (j, .transfer handle) = some handle := by
    unfold PrimeState.lookedUp
    simp only [hidle]
  have hinv : PrimeInv (s.transferSection j handle) :=
    ⟨hs.table, hs.cached, hs.below, hs.apart, hs.empty, hs.done⟩
  cases hlive : s.table.live handle with
  | none =>
    refine sectionSound_quiet hinv ?_ (fun _ _ he => ⟨he, rfl⟩) (fun other hother => ?_) hat
    · unfold PrimeState.transferSection
      rw [hs.table.boLookup_eq, hlive]
      rfl
    · rw [hlookedUp] at hother
      exact Option.some.inj hother ▸ hlive
  | some bo =>
    refine sectionSound_obtain (a := .idle) hs hinv hlive ?_ rfl ?_ (fun _ _ he => ⟨he, rfl⟩)
      hlookedUp hat
    · unfold PrimeState.transferSection
      rw [hs.table.boLookup_eq, hlive]
      rfl
    · show s.pc = _
      rw [← hidle, Function.update_eq_self]

/-- A closing. -/
theorem sectionSound_close (hs : PrimeInv s) (hidle : s.pc j = .idle) (handle : ℕ) :
    SectionSound s (j, .gemClose handle) (s.closeSection j handle) := by
  have hat := not_lookup hidle fun _ _ _ => PrimeAt.noConfusion
  have hlookedUp : s.lookedUp (j, .gemClose handle) = some handle := by
    unfold PrimeState.lookedUp
    simp only [hidle]
  have hpc : s.pc = Function.update s.pc j .idle := by rw [← hidle, Function.update_eq_self]
  unfold PrimeState.closeSection
  rw [hs.table.boLookup_eq]
  cases hlive : s.table.live handle with
  | none =>
    refine sectionSound_quiet ?_ rfl (fun _ _ he => ⟨he, rfl⟩) (fun other hother => ?_) hat
    · exact ⟨hs.table, hs.cached, hs.below, hs.apart, hs.empty, hs.done⟩
    · rw [hlookedUp] at hother
      exact Option.some.inj hother ▸ hlive
  | some bo =>
    obtain ⟨hwf, hfreed⟩ := hs.table.free handle
    have hrecovered : ∀ other e, Function.update s.recovered handle none other = some e →
        other ≠ handle ∧ s.recovered other = some e := by
      intro other e he
      by_cases hother : other = handle
      · rw [hother, Function.update_self] at he
        cases he
      · rw [Function.update_of_ne hother] at he
        exact ⟨hother, he⟩
    refine sectionSound_obtain (a := .idle) hs ?_ hlive rfl rfl hpc (fun other e he => ?_)
      hlookedUp hat
    · refine hs.leave (a := .idle) hpc rfl hwf le_rfl (fun other => ?_) hs.cached
        fun other e he => .inl (hrecovered other e he).2
      show (s.table.modify handle fun _ => Bo.zero).live other = _ ∨
        (s.table.modify handle fun _ => Bo.zero).live other = none ∨ _
      rw [hfreed]
      by_cases hother : other = handle
      · rw [hother, Function.update_self]
        exact .inr (.inl rfl)
      · exact .inl (Function.update_of_ne hother _ _)
    · obtain ⟨hother, hold⟩ := hrecovered other e he
      refine ⟨hold, ?_⟩
      show (s.table.modify handle fun _ => Bo.zero).live other = _
      rw [hfreed, Function.update_of_ne hother]

/-- The exchange of a creation fails. -/
theorem sectionSound_lost (hs : PrimeInv s) {rc : ResourceCreate} {handle : ℕ}
    (hfill : s.pc j = .fill rc handle) :
    SectionSound s (j, .exchangeLost) ({ s with obtained := none }.goto j .idle) := by
  have hat := not_lookup hfill fun _ _ _ => PrimeAt.noConfusion
  refine sectionSound_quiet ?_ rfl (fun _ _ he => ⟨he, rfl⟩) (fun other hother => ?_) hat
  · exact hs.leave rfl rfl hs.table le_rfl (fun _ => .inl rfl) hs.cached fun _ _ he => .inl he
  · unfold PrimeState.lookedUp at hother
    simp only [hfill] at hother
    cases hother

omit [DecidableEq ι] in
/-- The BO a thread is to fill is no other thread's, and no import has filled it. -/
theorem PrimeInv.own (hs : PrimeInv s) {handle : ℕ} (hj : (s.pc j).handle = some handle) :
    (∀ k, k ≠ j → (s.pc k).handle ≠ some handle) ∧
      ∀ other e, s.recovered other = some e → other ≠ handle := by
  refine ⟨fun k hkj hk => hkj (hs.apart k j handle hk hj), fun other e he heq => ?_⟩
  exact (hs.done other e he).2 j (heq ▸ hj)

/-- A creation fills its BO. -/
theorem sectionSound_fill (hs : PrimeInv s) {rc : ResourceCreate} {handle : ℕ}
    (hfill : s.pc j = .fill rc handle) (res : ℕ) (shmFd : Option BackingFile) :
    SectionSound s (j, .fillBo res shmFd) (s.fillSection j rc handle res shmFd) := by
  have hat := not_lookup hfill fun _ _ _ => PrimeAt.noConfusion
  have hlookedUp : s.lookedUp (j, .fillBo res shmFd) = some handle := by
    unfold PrimeState.lookedUp
    simp only [hfill]
  have hhandle : (s.pc j).handle = some handle := by
    rw [hfill]
    rfl
  obtain ⟨hothers, hdone⟩ := hs.own hhandle
  unfold PrimeState.fillSection
  rw [hs.table.boLookup_eq]
  cases hlive : s.table.live handle with
  | none =>
    refine sectionSound_quiet ?_ rfl (fun _ _ he => ⟨he, rfl⟩) (fun other hother => ?_) hat
    · exact hs.leave rfl rfl hs.table le_rfl (fun _ => .inl rfl) hs.cached fun _ _ he => .inl he
    · rw [hlookedUp] at hother
      exact Option.some.inj hother ▸ hlive
  | some bo =>
    obtain ⟨hwf, hfilled⟩ := hs.table.modify handle (f := Bo.created rc res shmFd) fun _ => rfl
    have hsame : ∀ other, other ≠ handle →
        (s.table.modify handle (Bo.created rc res shmFd)).live other = s.table.live other := by
      intro other hother
      rw [hfilled, Function.update_of_ne hother]
    refine sectionSound_obtain hs ?_ hlive rfl rfl rfl
      (fun other e he => ⟨he, hsame other (hdone other e he)⟩) hlookedUp hat
    refine hs.leave rfl rfl hwf le_rfl (fun other => ?_) hs.cached fun _ _ he => .inl he
    by_cases hother : other = handle
    · rw [hother]
      exact .inr (.inr hothers)
    · exact .inl (hsame other hother)

/-- A creation seeds the cache. -/
theorem sectionSound_store (hs : PrimeInv s) {rc : ResourceCreate} {res : ℕ}
    {shmFd : Option BackingFile} {bo : Option (ℕ × ℕ)} (hstore : s.pc j = .store rc res shmFd bo)
    (stale isAhb : Bool) :
    SectionSound s (j, .inodeCacheStore stale) (s.storeSection j rc res shmFd isAhb) := by
  have hat := not_lookup hstore fun _ _ _ => PrimeAt.noConfusion
  refine sectionSound_quiet ?_ rfl (fun _ _ he => ⟨he, rfl⟩) (fun other hother => ?_) hat
  · refine hs.leave rfl rfl hs.table le_rfl (fun _ => .inl rfl) (fun e he => ?_)
      fun _ _ he => .inl he
    rcases InodeCache.mem_store he with hold | ⟨key, rfl, hres⟩
    · exact hs.cached e hold
    · exact hres
  · unfold PrimeState.lookedUp at hother
    simp only [hstore] at hother
    cases hother

omit [DecidableEq ι] in
/-- Undisturbed, an import that finds its file reaches its BO, which is still there. -/
theorem undisturbed_lookup_iff {fd : Option BackingFile} {block handle : ℕ}
    (hlookup : s.pc j = .lookup fd block handle) :
    Undisturbed s (j, .inodeCacheLookup) ↔
      ((s.cache.lookup fd).isSome → block = s.block ∧ (s.table.live handle).isSome) := by
  have hlookedUp : s.lookedUp (j, .inodeCacheLookup) = none := by
    unfold PrimeState.lookedUp
    simp only [hlookup]
  constructor
  · exact fun h => h.2 fd block handle hlookup
  · refine fun h => ⟨fun other hother => ?_, fun fd' block' handle' hj => ?_⟩
    · rw [hlookedUp] at hother
      cases hother
    · rw [show s.pc j = _ from hj] at hlookup
      cases hlookup
      exact h

/-- The table after what has been found is written through a pointer into a block. -/
theorem restored_cases {table : BoTable} (hw : table.WellFormed) (reached : Prop)
    [Decidable reached] (handle : ℕ) (e : CacheEntry) :
    ∃ after, (if reached then table.modify handle (Bo.restored e) else table) = after ∧
      after.WellFormed ∧ after.handleNext = table.handleNext ∧
      (∀ other, other ≠ handle → after.live other = table.live other) ∧
      after.live handle =
        if reached then (table.live handle).map (Bo.restored e) else table.live handle := by
  refine ⟨_, rfl, ?_⟩
  by_cases hreached : reached
  · obtain ⟨hwf, hfilled⟩ := hw.modify handle (f := Bo.restored e) fun _ => rfl
    rw [if_pos hreached, if_pos hreached, hfilled, Function.update_self]
    exact ⟨hwf, rfl, fun other hother => Function.update_of_ne hother _ _, rfl⟩
  · rw [if_neg hreached, if_neg hreached]
    exact ⟨hw, rfl, fun _ _ => rfl, rfl⟩

/-- An import fills its BO from the cache. -/
theorem sectionSound_lookup (hs : PrimeInv s) {fd : Option BackingFile} {block handle : ℕ}
    (hlookup : s.pc j = .lookup fd block handle) :
    SectionSound s (j, .inodeCacheLookup) (s.lookupSection j fd block handle) := by
  have hhandle : (s.pc j).handle = some handle := by
    rw [hlookup]
    rfl
  obtain ⟨hothers, hdone⟩ := hs.own hhandle
  unfold SectionSound PrimeState.lookupSection
  rw [undisturbed_lookup_iff hlookup]
  cases hcached : s.cache.lookup fd with
  | none =>
    refine ⟨?_, fun h => ⟨fun _ hsome => (by cases hsome), fun _ => ⟨?_, h.stored⟩⟩⟩
    · exact hs.leave rfl rfl hs.table le_rfl (fun _ => .inl rfl) hs.cached fun _ _ he => .inl he
    · intro _ _ hobtained
      cases hobtained
  | some e =>
    have hres := hs.cached e (InodeCache.mem_of_lookup hcached)
    obtain ⟨table, htable, hwf, hnext, hsame, hfilled⟩ :=
      restored_cases hs.table (block = s.block) handle e
    simp only [htable]
    refine ⟨?_, fun h => ⟨fun ht _ => ?_, fun hcurrent => ⟨?_, fun other e' he => ?_⟩⟩⟩
    · refine hs.leave rfl rfl hwf hnext.ge (fun other => ?_) hs.cached fun other e' he => ?_
      · by_cases hother : other = handle
        · rw [hother]
          exact .inr (.inr hothers)
        · exact .inl (hsame other hother)
      · by_cases hother : other = handle
        · rw [hother, hlookup]
          exact .inr rfl
        · exact .inl ((Function.update_of_ne hother _ _).symm.trans he)
    · -- what the import has found is in a live BO: it was there, and the pointer reached it
      obtain ⟨bo, hbo, _, hne⟩ := ht.stored handle e (Function.update_self _ _ _)
      replace hbo : table.live handle = some bo := hbo
      rw [hfilled] at hbo
      by_cases hblock : block = s.block
      · rw [if_pos hblock] at hbo
        obtain ⟨old, hold, _⟩ := Option.map_eq_some_iff.mp hbo
        exact ⟨hblock, Option.isSome_iff_exists.mpr ⟨old, hold⟩⟩
      · rw [if_neg hblock] at hbo
        exact absurd (hs.empty j fd block handle bo hlookup hbo) hne
    · intro _ _ hobtained
      cases hobtained
    · obtain ⟨hblock, hopen⟩ := hcurrent rfl
      obtain ⟨old, hold⟩ := Option.isSome_iff_exists.mp hopen
      show ∃ bo, table.live other = some bo ∧ _
      by_cases hother : other = handle
      · subst hother
        rw [hfilled, if_pos hblock, hold]
        have hfound : Function.update s.recovered other (some e) other = some e' := he
        rw [Function.update_self] at hfound
        obtain rfl := Option.some.inj hfound
        exact ⟨_, rfl, ⟨rfl, rfl, rfl, rfl, rfl, rfl⟩, hres⟩
      · rw [hsame other hother]
        exact h.stored other e' ((Function.update_of_ne hother _ _).symm.trans he)

/-- **Every section** keeps the invariant, and keeps the imports atomic exactly if undisturbed. -/
theorem sectionSound_next (hs : PrimeInv s) {e : ι × PrimeAction} (h : s.next e = some t) :
    SectionSound s e t := by
  obtain ⟨j, action⟩ := e
  simp only [PrimeState.next] at h
  split at h
  · rename_i hidle
    exact sectionSound_import hs hidle h
  · rename_i hidle
    exact sectionSound_create hs hidle h
  · rename_i hidle
    exact Option.some.inj h ▸ sectionSound_transfer hs hidle _
  · rename_i hidle
    exact Option.some.inj h ▸ sectionSound_close hs hidle _
  · rename_i hlookup
    exact Option.some.inj h ▸ sectionSound_lookup hs hlookup
  · rename_i hfill
    exact Option.some.inj h ▸ sectionSound_lost hs hfill
  · rename_i hfill
    exact Option.some.inj h ▸ sectionSound_fill hs hfill _ _
  · rename_i hstore
    exact Option.some.inj h ▸ sectionSound_store hs hstore _ _
  · cases h

end Sections

/-! ### Runs -/

/-- **PRIME imports between threads.**  In every interleaving, the imports are atomic in all states
exactly if no section disturbs one: none looks up the BO of another thread's import of a cached file
before that has been filled, and an import that finds its file in the cache finds the table where it
was and its BO still open. -/
theorem importsAtomic_iff_undisturbed {s : PrimeState ι}
    {run : List ((ι × PrimeAction) × PrimeState ι)} (hinit : s.Initial)
    (hrun : (primeSystem ι).Exec s run) :
    AllStates ImportsAtomic s run ↔ AllSteps Undisturbed s run := by
  have hatomic : ImportsAtomic s := by
    obtain ⟨_, _, _, hobtained, hrecovered⟩ := hinit
    refine ⟨fun j bo hbo => ?_, fun handle e he => ?_⟩
    · rw [hobtained] at hbo
      cases hbo
    · rw [hrecovered] at he
      cases he
  refine System.allStates_iff_allSteps (S := primeSystem ι)
    (I := fun s => PrimeInv s ∧ ImportsAtomic s) (fun _ h => h.2) ?_ ?_
    ⟨primeInv_of_initial hinit, hatomic⟩ hrun
  · intro s e t h hstep hguard
    obtain ⟨hinv, hiff⟩ := sectionSound_next h.1 hstep
    exact ⟨hinv, (hiff h.2).mpr hguard⟩
  · intro s e t h hstep hguard ht
    exact hguard (((sectionSound_next h.1 hstep).2 h.2).mp ht)

/-- A process that has just loaded the shim, with two threads. -/
def twoThreads : PrimeState Bool :=
  ⟨BoTable.empty, 0, InodeCache.empty, fun _ => .idle, none, fun _ => none⟩

theorem twoThreads_initial : twoThreads.Initial := ⟨rfl, rfl, fun _ => rfl, rfl, fun _ => rfl⟩

/-- A thread creates a buffer on a dmabuf and closes it; the server calls its resource 7. -/
def createAndClose : List (Bool × PrimeAction) :=
  [(true, .resourceCreate smallBuffer true false), (true, .fillBo 7 (some dmabufFile)),
    (true, .inodeCacheStore false), (true, .gemClose 1)]

/-- Both threads import the dmabuf, one after the other. -/
def importInTurn : List (Bool × PrimeAction) :=
  createAndClose ++ [(false, .primeFdToHandle (some dmabufFile) true false true),
    (false, .inodeCacheLookup), (true, .primeFdToHandle (some dmabufFile) true false true)]

omit [DecidableEq ι] in
/-- With no import under way there is none to disturb. -/
theorem undisturbed_of_no_import {s : PrimeState ι} {e : ι × PrimeAction}
    (h : ∀ k fd block handle, s.pc k ≠ .lookup fd block handle) : Undisturbed s e :=
  ⟨fun handle _ _ k _ fd block hk => absurd hk (h k fd block handle),
    fun fd block handle hj => absurd hj (h e.1 fd block handle)⟩

theorem importsAtomic_importInTurn :
    AllStates ImportsAtomic twoThreads (traceNext PrimeState.next twoThreads importInTurn) := by
  refine (importsAtomic_iff_undisturbed twoThreads_initial (System.exec_traceNext _ _ _)).mpr ?_
  refine ⟨?_, ?_, ?_, ?_, ?_, ?_, ?_, trivial⟩
  case refine_6 =>
    refine ⟨fun handle hhandle => ?_, fun fd block handle hj _ => ?_⟩
    · have hnone : none = some handle := hhandle
      cases hnone
    have hat : PrimeAt.lookup (some dmabufFile) 0 2 = .lookup fd block handle := hj
    cases hat
    exact ⟨rfl, rfl⟩
  all_goals
    refine undisturbed_of_no_import fun k => ?_
    cases k <;> exact fun _ _ _ => PrimeAt.noConfusion

/-- Both threads import the dmabuf, one between the sections of the other. -/
def importBetween : List (Bool × PrimeAction) :=
  createAndClose ++ [(false, .primeFdToHandle (some dmabufFile) true false true),
    (true, .primeFdToHandle (some dmabufFile) true false true)]

/-- The second thread gets the BO of the first one, and that has no resource yet. -/
theorem importBetween_exposed :
    ¬ ∀ (s : PrimeState Bool) (run : List ((Bool × PrimeAction) × PrimeState Bool)), s.Initial →
      (primeSystem Bool).Exec s run → AllStates ImportsAtomic s run := by
  intro hall
  have hlast := (hall twoThreads _ twoThreads_initial
    (System.exec_traceNext PrimeState.Initial PrimeState.next importBetween)).last
  refine hlast.hidden true _ rfl false Bool.noConfusion (some dmabufFile) 0 rfl rfl ?_
  rfl

end Wldroid.DrmShim
