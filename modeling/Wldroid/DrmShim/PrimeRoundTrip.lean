import Wldroid.DrmShim.BoGrowth
import Wldroid.DrmShim.PrimeImport
import Wldroid.DrmShim.FailedResources

/-!
# Export, close and import

An exported descriptor comes back in an import, which knows it by its inode only: a live BO is found
in the table, and what the creation of a closed one has left is found in the inode cache.

* `PrimeHistory` — the shim, with what has been created, stored and exported so far;
* `BoStep` — what an ioctl does to the BOs and the cache;
* `RoundTrips` — imports find what was exported, or what was created last;
* **`roundTrips_of_ownFiles`** — so they do in every run in which no two live BOs share a file.
-/

namespace Wldroid.DrmShim

open Wldroid.Foundation

/-! ### Histories -/

/-- A creation that got a descriptor: what it asked for, and the resource and file it got. -/
structure Creation where
  rc : ResourceCreate
  res : ℕ
  file : BackingFile

/-- The creation that has come to a result, if it got a descriptor. -/
def ResourceCreate.creation (rc : ResourceCreate) (result : Except Errno (ℕ × ℕ)) :
    Exchange → Option Creation
  | .answered file =>
      match result with
      | .ok (_, res) => if rc.size > 0 then some ⟨rc, res, file⟩ else none
      | .error _ => none
  | .lost _ => none

/-- The creation an ioctl is, if it returns with a descriptor. -/
def creationOf (s : Shim) : ShimEvent → Option Creation
  | .resourceCreate rc env =>
      (shimResourceCreate s rc env).bind fun (_, result) => rc.creation result env.exchange
  | _ => none

/-- The handle and the file of an export, if it returns a descriptor of the BO's own. -/
def exportOf (s : Shim) : ShimEvent → Option (ℕ × BackingFile)
  | .primeHandleToFd handle dup placeholder =>
      match (boLookup s.table handle).bind Bo.shmFd, (shimPrimeHandleToFd s handle dup placeholder).2
        with
      | some _, .ok file => some (handle, file)
      | _, _ => none
  | _ => none

/-- The shim with its history. -/
structure PrimeHistory where
  shim : Shim
  /-- Ghost: the latest creation on each file. -/
  latest : FileKey → Option Creation
  /-- Ghost: the files that have ever been stored in the cache. -/
  stored : Finset FileKey
  /-- Ghost: the exports so far. -/
  exported : List (ℕ × BackingFile)

/-- The next state, with its history. -/
def PrimeHistory.next (s : PrimeHistory) (e : ShimEvent) : Option PrimeHistory :=
  (s.shim.next e).map fun t =>
    { shim := t
      latest := (creationOf s.shim e).elim s.latest fun c =>
        Function.update s.latest c.file.key (some c)
      stored := (creationOf s.shim e).elim s.stored fun c =>
        if c.res ≠ 0 then insert c.file.key s.stored else s.stored
      exported := s.exported ++ (exportOf s.shim e).toList }

/-- Nothing has happened yet. -/
def PrimeHistory.Initial (s : PrimeHistory) : Prop :=
  s.shim.Initial ∧ s.latest = (fun _ => none) ∧ s.stored = ∅ ∧ s.exported = []

/-- All runs of the ioctls, one at a time. -/
def primeHistorySystem : System PrimeHistory ShimEvent :=
  System.ofNext PrimeHistory.Initial PrimeHistory.next

/-! ### The property -/

/-- No two live BOs are on the same file. -/
def OwnFiles (s : PrimeHistory) : Prop :=
  ∀ i j bo bo' key, s.shim.table.live i = some bo → s.shim.table.live j = some bo' →
    statKey bo.shmFd = some key → statKey bo'.shmFd = some key → i = j

/-- The server assigns no handle zero, which stands for no resource. -/
def AssignsHandle (_ : PrimeHistory) : ShimEvent → Prop
  | .resourceCreate _ env => env.serverRes ≠ 0
  | _ => True

/-- The BO has the resource, the geometry and the AHB flag of the creation. -/
structure Bo.Matches (bo : Bo) (c : Creation) : Prop where
  res : bo.resHandle = c.res
  width : bo.width = c.rc.width
  height : bo.height = c.rc.height
  stride : bo.stride = c.rc.stride
  size : bo.size = c.rc.dataSize
  isAhb : bo.isAhb = isAhbLink (some c.file)

/-- An import comes to a BO that is as the creation has made it.  It fails only if a full table
cannot grow, and it does not return only if a failed growth has left the counter outside the table,
or the counter has passed what the table can grow to. -/
def Recovers (s : Shim) (realloc : Bool) (c : Creation) :
    Option (Shim × Except Errno ℕ) → Prop
  | some (t, .ok handle) => ∃ bo, t.table.live handle = some bo ∧ bo.Matches c
  | some (_, .error _) => s.table.capacity ≤ s.table.handleNext ∧ realloc = false
  | none => max s.table.capacity 1 < s.table.handleNext ∨ 2 ^ 31 ≤ s.table.handleNext

/-- **Imports find their BOs.**  What was exported leads back to its handle while that is live, and
changes nothing; and as long as the cache has room for all files ever stored, any file leads to what
was created on it last. -/
structure RoundTrips (s : PrimeHistory) : Prop where
  exported : ∀ handle file, (handle, file) ∈ s.exported → (s.shim.table.live handle).isSome →
    ∀ realloc dup, shimPrimeFdToHandle s.shim (some file) realloc dup = some (s.shim, .ok handle)
  recovered : s.stored.card ≤ inodeCacheSize → ∀ file c, s.latest file.key = some c →
    ∀ realloc dup, Recovers s.shim realloc c (shimPrimeFdToHandle s.shim (some file) realloc dup)

/-! ### The counter -/

/-- The counter and the capacity are as they were, or as an allocation has left them. -/
def Counted (t u : BoTable) : Prop :=
  u.handleNext = t.handleNext ∧ u.capacity = t.capacity ∨
    ∃ realloc table r, boAlloc t realloc = some (table, r) ∧ u.handleNext = table.handleNext ∧
      u.capacity = table.capacity

/-- From 2^31 on, a full table is stuck. -/
theorem handleNext_lt_of_growCapacity {t : BoTable} (hcap : IsCapacity t.capacity) {n : ℕ}
    (hgrow : growCapacity 33 t.firstCapacity t.handleNext = some n) : t.handleNext < 2 ^ 31 := by
  by_contra hge
  exact not_loopEnds (not_lt.mp hge) (loopEnds_of_growCapacity hgrow)
    (isCapacity_firstCapacity hcap)

/-- An allocation does not return only if a full table is stuck. -/
theorem boAlloc_eq_none {t : BoTable} {realloc : Bool} (hcap : IsCapacity t.capacity)
    (h : boAlloc t realloc = none) : 2 ^ 31 ≤ t.handleNext := by
  by_contra hlt
  unfold boAlloc at h
  simp only at h
  split at h
  · rename_i hfull
    obtain ⟨j, hj, hfirst⟩ := exists_firstCapacity_pow hcap (not_le.mp hlt) hfull
    obtain ⟨m, -, -, hgrow⟩ := growCapacity_pow (not_le.mp hlt) hj (show 32 - j ≤ 33 by omega)
    have hnone := Option.map_eq_none_iff.mp h
    rw [← hfirst] at hgrow
    cases hgrow.symm.trans hnone
  · cases h

theorem isCapacity_of_boAlloc {t t' : BoTable} {realloc : Bool} {r : Option ℕ}
    (hcap : IsCapacity t.capacity) (h : boAlloc t realloc = some (t', r)) :
    IsCapacity t'.capacity := by
  by_cases hlt : t.handleNext < 2 ^ 31
  · obtain ⟨-, ⟨-, -, hsame⟩ | ⟨-, hgrown, -⟩⟩ := boAlloc_capacity hcap hlt h
    · rwa [hsame]
    · exact hgrown
  · unfold boAlloc at h
    simp only at h
    split at h
    · obtain ⟨n, hgrow, -⟩ := Option.map_eq_some_iff.mp h
      exact absurd (handleNext_lt_of_growCapacity hcap hgrow) hlt
    · obtain ⟨rfl, -⟩ := Prod.mk.inj (Option.some.inj h)
      exact hcap

theorem Counted.isCapacity {t u : BoTable} (h : Counted t u) (hcap : IsCapacity t.capacity) :
    IsCapacity u.capacity := by
  obtain ⟨-, hsame⟩ | ⟨realloc, table, r, halloc, -, hsame⟩ := h
  · rwa [hsame]
  · rw [hsame]
    exact isCapacity_of_boAlloc hcap halloc

theorem Counted.le {t u : BoTable} (h : Counted t u) (hw : t.WellFormed) :
    t.handleNext ≤ u.handleNext := by
  obtain ⟨hsame, -⟩ | ⟨realloc, table, r, halloc, hsame, -⟩ := h
  · exact hsame.ge
  · have hnext := (hw.boAlloc_cases halloc).2.1
    omega

/-! ### Steps -/

/-- What an ioctl does to the BOs and the cache, by what it has created. -/
inductive BoStep (s t : Shim) : Option Creation → Prop where
  | same (hlive : t.table.live = s.table.live) (hcache : t.cache = s.cache) : BoStep s t none
  /-- There is a new BO, without a descriptor. -/
  | bare {bo : Bo} (hfd : statKey bo.shmFd = none)
      (hlive : t.table.live = Function.update s.table.live s.table.handleNext (some bo))
      (hcache : t.cache = s.cache) : BoStep s t none
  | created (c : Creation)
      (hlive : t.table.live = Function.update s.table.live s.table.handleNext
        (some (Bo.created c.rc c.res (some c.file) (Bo.fresh s.table.handleNext))))
      (hcache : t.cache = s.cache.store (some c.file)
        (CacheEntry.created c.rc c.res (isAhbLink (some c.file)))) : BoStep s t (some c)
  /-- There is a new BO on a file that no BO was on, with what the cache tells of it. -/
  | imported {file : BackingFile} {bo : Bo} (hfd : bo.shmFd = some file)
      (hcached : ∀ e, s.cache.get file.key = some e → ∃ old, bo = Bo.restored e old)
      (hlive : t.table.live = Function.update s.table.live s.table.handleNext (some bo))
      (hcache : t.cache = s.cache) : BoStep s t none
  | closed {handle : ℕ} (hlive : t.table.live = Function.update s.table.live handle none)
      (hcache : t.cache = s.cache) : BoStep s t none

section Steps

variable {s t : Shim}

/-- A BO that has just been entered at the next handle is changed there. -/
theorem live_modify_fresh {t u : BoTable} (hw : u.WellFormed)
    (hlive : u.live = Function.update t.live t.handleNext (some (Bo.fresh t.handleNext)))
    {f : Bo → Bo} (hf : ∀ bo, (f bo).boHandle = bo.boHandle) :
    (u.modify t.handleNext f).WellFormed ∧ (u.modify t.handleNext f).live =
      Function.update t.live t.handleNext (some (f (Bo.fresh t.handleNext))) := by
  obtain ⟨hw', hlive'⟩ := hw.modify t.handleNext hf
  rw [hlive, Function.update_self, Function.update_idem] at hlive'
  exact ⟨hw', hlive'⟩

/-- A creation. -/
theorem resourceCreate_boStep (hw : s.table.WellFormed) {rc : ResourceCreate} {env : CreateEnv}
    {r : Except Errno (ℕ × ℕ)} (h : shimResourceCreate s rc env = some (t, r)) :
    Counted s.table t.table ∧ BoStep s t (creationOf s (.resourceCreate rc env)) := by
  have hcreation : creationOf s (.resourceCreate rc env) = rc.creation r env.exchange := by
    unfold creationOf
    simp only [h, Option.bind_some]
  have hfails : ∀ e, rc.creation (.error e) env.exchange = none := by
    intro e
    cases env.exchange <;> rfl
  rw [hcreation]
  unfold shimResourceCreate at h
  split at h
  · obtain ⟨rfl, rfl⟩ := Prod.mk.inj (Option.some.inj h)
    rw [hfails]
    exact ⟨.inl ⟨rfl, rfl⟩, .same rfl rfl⟩
  rename_i connected hconnect
  have htable := ensureConnected_table hconnect
  have hcache := ensureConnected_cache hconnect
  rw [htable] at h
  split at h
  · cases h
  · rename_i table halloc
    obtain ⟨rfl, rfl⟩ := Prod.mk.inj (Option.some.inj h)
    obtain ⟨-, -, hlive⟩ := hw.boAlloc_failed halloc
    rw [hfails]
    exact ⟨.inr ⟨_, table, _, halloc, rfl, rfl⟩, .same hlive hcache⟩
  · rename_i table handle halloc
    obtain ⟨rfl, hwf, -, hlive⟩ := hw.boAlloc_made halloc
    simp only at h
    split at h
    · rename_i created hexchange
      obtain ⟨rfl, rfl⟩ := Prod.mk.inj (Option.some.inj h)
      rw [hfails]
      cases created with
      | true => exact ⟨.inr ⟨_, table, _, halloc, rfl, rfl⟩, .bare rfl hlive hcache⟩
      | false => exact ⟨.inr ⟨_, table, _, halloc, rfl, rfl⟩, .bare rfl hlive hcache⟩
    · rename_i file hexchange
      obtain ⟨rfl, rfl⟩ := Prod.mk.inj (Option.some.inj h)
      have hlookup : (boLookup table s.table.handleNext).isSome = true := by
        rw [hwf.boLookup_eq, hlive, Function.update_self]
        rfl
      have hfilled : ∀ res shmFd,
          (table.modify s.table.handleNext (Bo.created rc res shmFd)).live =
            Function.update s.table.live s.table.handleNext
              (some (Bo.created rc res shmFd (Bo.fresh s.table.handleNext))) :=
        fun res shmFd => (live_modify_fresh hwf hlive (f := Bo.created rc res shmFd) fun _ => rfl).2
      rw [fill_eq hlookup, hexchange]
      refine ⟨.inr ⟨_, table, _, halloc, rfl, rfl⟩, ?_⟩
      unfold ResourceCreate.creation
      by_cases hsize : rc.size > 0
      · simp only [if_pos hsize]
        refine .created ⟨rc, _, file⟩ (hfilled _ (some file)) ?_
        rw [← hcache]
        rfl
      · simp only [if_neg hsize]
        exact .bare rfl (hfilled _ none) hcache

/-- An import. -/
theorem primeFdToHandle_boStep (hw : s.table.WellFormed) {fd : Option BackingFile}
    {realloc dup : Bool} {r : Except Errno ℕ}
    (h : shimPrimeFdToHandle s fd realloc dup = some (t, r)) :
    Counted s.table t.table ∧ BoStep s t none := by
  unfold shimPrimeFdToHandle at h
  split at h
  · cases h
  · obtain ⟨rfl, -⟩ := Prod.mk.inj (Option.some.inj h)
    exact ⟨.inl ⟨rfl, rfl⟩, .same rfl rfl⟩
  split at h
  · cases h
  · rename_i table halloc
    obtain ⟨rfl, -⟩ := Prod.mk.inj (Option.some.inj h)
    obtain ⟨-, -, hlive⟩ := hw.boAlloc_failed halloc
    exact ⟨.inr ⟨_, table, _, halloc, rfl, rfl⟩, .same hlive rfl⟩
  · rename_i table handle halloc
    obtain ⟨rfl, -⟩ := Prod.mk.inj (Option.some.inj h)
    obtain ⟨rfl, hwf, -, hlive⟩ := hw.boAlloc_made halloc
    obtain ⟨hwf', hlive'⟩ := live_modify_fresh hwf hlive (f := Bo.imported fd dup) fun _ => rfl
    have hcounted : Counted s.table table := .inr ⟨_, table, _, halloc, rfl, rfl⟩
    dsimp only
    cases hcached : s.cache.lookup fd with
    | some e =>
      obtain ⟨-, hlive''⟩ := hwf'.modify s.table.handleNext (f := Bo.restored e) fun _ => rfl
      rw [hlive', Function.update_self, Function.update_idem] at hlive''
      refine ⟨hcounted, ?_⟩
      cases fd with
      | none => cases hcached
      | some file =>
        cases dup with
        | true =>
          refine @BoStep.imported _ _ file _ rfl (fun e' he' => ?_) hlive'' rfl
          rw [← InodeCache.lookup_eq_get, hcached] at he'
          obtain rfl := Option.some.inj he'
          exact ⟨_, rfl⟩
        | false => exact .bare rfl hlive'' rfl
    | none =>
      refine ⟨hcounted, ?_⟩
      cases fd with
      | none =>
        refine .bare ?_ hlive' rfl
        show statKey (if dup then none else none) = none
        rw [ite_self]
        rfl
      | some file =>
        cases dup with
        | true =>
          refine @BoStep.imported _ _ file _ rfl (fun e' he' => ?_) hlive' rfl
          rw [← InodeCache.lookup_eq_get, hcached] at he'
          cases he'
        | false => exact .bare rfl hlive' rfl

/-- A closing. -/
theorem gemClose_boStep (hw : s.table.WellFormed) (handle : ℕ) :
    Counted s.table (shimGemClose s handle).table ∧ BoStep s (shimGemClose s handle) none := by
  unfold shimGemClose
  split
  · exact ⟨.inl ⟨rfl, rfl⟩, .same rfl rfl⟩
  · simp only
    split
    · exact ⟨.inl ⟨rfl, rfl⟩, .closed (hw.free handle).2 rfl⟩
    · exact ⟨.inl ⟨rfl, rfl⟩, .closed (hw.free handle).2 rfl⟩

theorem transfer_cache (request : ℕ → List ℕ → Request) (transfer : Transfer)
    (connect : Option ℕ) : (shimTransfer request s transfer connect).1.cache = s.cache := by
  unfold shimTransfer
  split
  · rfl
  · rename_i hconnect
    have hcache := ensureConnected_cache hconnect
    split
    · split <;> exact hcache
    · exact hcache

theorem wait_cache (handle : ℕ) (nowait busy : Bool) (connect : Option ℕ) :
    (shimWait s handle nowait busy connect).1.cache = s.cache := by
  unfold shimWait
  split
  · rfl
  · rename_i hconnect
    have hcache := ensureConnected_cache hconnect
    split
    · split <;> exact hcache
    · exact hcache

theorem primeHandleToFd_cache (handle : ℕ) (dup : Bool) (placeholder : Option BackingFile) :
    (shimPrimeHandleToFd s handle dup placeholder).1.cache = s.cache := by
  have hwait : ∀ (u : Shim) (res : ℕ), (vtestBusyWaitForResource u res).cache = u.cache := by
    intro u res
    unfold vtestBusyWaitForResource
    split <;> rfl
  have hget : ∀ (u : Shim) (res width height : ℕ),
      (vtestTransferGetForExport u res width height).cache = u.cache := by
    intro u res width height
    unfold vtestTransferGetForExport
    split <;> rfl
  unfold shimPrimeHandleToFd
  split
  · rfl
  rename_i bo _
  split
  · refine (hwait _ bo.resHandle).trans ?_
    split
    · rfl
    · exact hget s bo.resHandle bo.width bo.height
  · rfl

/-- **Every ioctl.** -/
theorem boStep_of_next (hw : s.table.WellFormed) {e : ShimEvent} (h : s.next e = some t) :
    Counted s.table t.table ∧ BoStep s t (creationOf s e) := by
  have hquiet : t.table = s.table → t.cache = s.cache →
      Counted s.table t.table ∧ BoStep s t none := by
    intro htable hcache
    rw [htable]
    exact ⟨.inl ⟨rfl, rfl⟩, .same (by rw [htable]) hcache⟩
  cases e with
  | resourceCreate rc env =>
    simp only [Shim.next] at h
    split at h
    · cases h
    · obtain ⟨⟨u, r⟩, hcreate, rfl⟩ := Option.map_eq_some_iff.mp h
      exact resourceCreate_boStep hw hcreate
  | transferToHost transfer connect =>
    obtain rfl := Option.some.inj h
    exact hquiet (transfer_table ..) (transfer_cache ..)
  | transferFromHost transfer connect =>
    obtain rfl := Option.some.inj h
    exact hquiet (transfer_table ..) (transfer_cache ..)
  | wait handle nowait busy connect =>
    obtain rfl := Option.some.inj h
    exact hquiet (wait_table ..) (wait_cache ..)
  | primeHandleToFd handle dup placeholder =>
    obtain rfl := Option.some.inj h
    exact hquiet (primeHandleToFd_table ..) (primeHandleToFd_cache ..)
  | primeFdToHandle fd realloc dup =>
    obtain ⟨⟨u, r⟩, himport, rfl⟩ := Option.map_eq_some_iff.mp h
    exact primeFdToHandle_boStep hw himport
  | gemClose handle => exact Option.some.inj h ▸ gemClose_boStep hw handle

/-- The resource of a creation is the one the server has assigned, or the handle. -/
theorem creationOf_res (hw : s.table.WellFormed) {e : ShimEvent} {c : Creation}
    (hc : creationOf s e = some c) :
    (∃ rc env, e = .resourceCreate rc env ∧ c.res = env.serverRes) ∨
      c.res = s.table.handleNext := by
  cases e with
  | resourceCreate rc env =>
    obtain ⟨⟨t, result⟩, hcreate, hresult⟩ := Option.bind_eq_some_iff.mp hc
    simp only at hresult
    unfold shimResourceCreate at hcreate
    split at hcreate
    · obtain ⟨-, rfl⟩ := Prod.mk.inj (Option.some.inj hcreate)
      cases hexchange : env.exchange <;> rw [hexchange] at hresult <;> cases hresult
    rename_i connected hconnect
    rw [ensureConnected_table hconnect] at hcreate
    split at hcreate
    · cases hcreate
    · obtain ⟨-, rfl⟩ := Prod.mk.inj (Option.some.inj hcreate)
      cases hexchange : env.exchange <;> rw [hexchange] at hresult <;> cases hresult
    · rename_i table handle halloc
      obtain ⟨rfl, -, -, -⟩ := hw.boAlloc_made halloc
      simp only at hcreate
      cases hexchange : env.exchange with
      | lost created =>
        rw [hexchange] at hresult
        cases hresult
      | answered file =>
        rw [hexchange] at hresult hcreate
        obtain ⟨-, rfl⟩ := Prod.mk.inj (Option.some.inj hcreate)
        unfold ResourceCreate.creation at hresult
        obtain rfl := Option.some.inj (Option.ite_none_right_eq_some.mp hresult).2
        by_cases hversion : connected.protocolVersion ≥ 3
        · exact .inl ⟨rc, env, rfl, if_pos hversion⟩
        · exact .inr (if_neg hversion)
  | transferToHost _ _ | transferFromHost _ _ | wait _ _ _ _ | primeHandleToFd _ _ _
  | primeFdToHandle _ _ _ | gemClose _ => cases hc

end Steps

/-! ### Imports -/

/-- What the cache holds after a creation. -/
def Creation.entry (c : Creation) : CacheEntry :=
  CacheEntry.created c.rc c.res (isAhbLink (some c.file)) c.file.key

theorem matches_created (c : Creation) (bo : Bo) :
    (Bo.created c.rc c.res (some c.file) bo).Matches c := ⟨rfl, rfl, rfl, rfl, rfl, rfl⟩

theorem matches_restored (c : Creation) (bo : Bo) : (Bo.restored c.entry bo).Matches c :=
  ⟨rfl, rfl, rfl, rfl, rfl, rfl⟩

/-- What holds along a run.  The cache holds the latest creations while it has room for all. -/
structure HistoryInv (s : PrimeHistory) : Prop where
  table : s.shim.table.WellFormed
  capacity : IsCapacity s.shim.table.capacity
  exported : ∀ handle file, (handle, file) ∈ s.exported → handle < s.shim.table.handleNext ∧
    ∀ bo, s.shim.table.live handle = some bo → bo.shmFd = some file
  stored : ∀ key ∈ s.stored, (s.latest key).isSome
  cached : s.stored.card ≤ inodeCacheSize →
    s.shim.cache.get = (fun key => (s.latest key).map Creation.entry) ∧
      s.shim.cache.filled ≤ s.stored.card
  matched : s.stored.card ≤ inodeCacheSize → ∀ i bo key c, s.shim.table.live i = some bo →
    statKey bo.shmFd = some key → s.latest key = some c → bo.Matches c

theorem historyInv_of_initial {s : PrimeHistory} (h : s.Initial) : HistoryInv s := by
  obtain ⟨⟨-, htable, hcache, -⟩, hlatest, hstored, hexported⟩ := h
  have hfree : ∀ i bo, s.shim.table.live i ≠ some bo := by
    intro i bo hbo
    rw [htable] at hbo
    exact (live_eq_some.mp hbo).1 rfl
  refine ⟨?_, ?_, ?_, ?_, fun _ => ⟨?_, ?_⟩, ?_⟩
  · rw [htable]
    exact wellFormed_empty
  · rw [htable]
    exact .inl rfl
  · intro handle file hmem
    rw [hexported] at hmem
    cases hmem
  · intro key hkey
    rw [hstored] at hkey
    cases hkey
  · funext key
    rw [hcache, hlatest, InodeCache.get_empty]
    rfl
  · rw [hcache, InodeCache.filled_empty]
    exact Nat.zero_le _
  · intro _ i bo _ _ hbo
    exact absurd hbo (hfree i bo)

/-! ### What a step keeps -/

section Keep

variable {s t : Shim} {made : Option Creation}

/-- A BO below the counter is the one it was. -/
theorem BoStep.live_old (h : BoStep s t made) {i : ℕ} (hi : i < s.table.handleNext) {bo : Bo}
    (hbo : t.table.live i = some bo) : s.table.live i = some bo := by
  cases h with
  | same hlive _ => rwa [hlive] at hbo
  | bare _ hlive _ => rwa [hlive, Function.update_of_ne hi.ne] at hbo
  | created _ hlive _ => rwa [hlive, Function.update_of_ne hi.ne] at hbo
  | imported _ _ hlive _ => rwa [hlive, Function.update_of_ne hi.ne] at hbo
  | @closed handle hlive _ =>
    rw [hlive] at hbo
    by_cases hclosed : i = handle
    · rw [hclosed, Function.update_self] at hbo
      cases hbo
    · rwa [Function.update_of_ne hclosed] at hbo

/-- Where nothing is created, the cache stays, and a BO on a file is an old one or has what the
cache tells of the file. -/
theorem BoStep.uncreated (h : BoStep s t none) :
    t.cache = s.cache ∧ ∀ i bo key, t.table.live i = some bo → statKey bo.shmFd = some key →
      s.table.live i = some bo ∨
        ∀ e, s.cache.get key = some e → ∃ old, bo = Bo.restored e old := by
  cases h with
  | same hlive hcache => exact ⟨hcache, fun i bo _ hbo _ => .inl (by rwa [hlive] at hbo)⟩
  | @bare new hfd hlive hcache =>
    refine ⟨hcache, fun i bo key hbo hkey => .inl ?_⟩
    rw [hlive] at hbo
    by_cases hi : i = s.table.handleNext
    · rw [hi, Function.update_self] at hbo
      obtain rfl := Option.some.inj hbo
      rw [hfd] at hkey
      cases hkey
    · rwa [Function.update_of_ne hi] at hbo
  | @imported file new hfd hcached hlive hcache =>
    refine ⟨hcache, fun i bo key hbo hkey => ?_⟩
    rw [hlive] at hbo
    by_cases hi : i = s.table.handleNext
    · rw [hi, Function.update_self] at hbo
      obtain rfl := Option.some.inj hbo
      rw [hfd] at hkey
      obtain rfl := Option.some.inj hkey
      exact .inr hcached
    · rw [Function.update_of_ne hi] at hbo
      exact .inl hbo
  | @closed handle hlive hcache =>
    refine ⟨hcache, fun i bo key hbo _ => .inl ?_⟩
    rw [hlive] at hbo
    by_cases hi : i = handle
    · rw [hi, Function.update_self] at hbo
      cases hbo
    · rwa [Function.update_of_ne hi] at hbo

/-- What an export returns is the file of the BO. -/
theorem exportOf_eq (hw : s.table.WellFormed) {e : ShimEvent} {handle : ℕ} {file : BackingFile}
    (h : exportOf s e = some (handle, file)) :
    ∃ bo, s.table.live handle = some bo ∧ bo.shmFd = some file := by
  cases e with
  | primeHandleToFd asked dup placeholder =>
    unfold exportOf shimPrimeHandleToFd at h
    cases hbo : boLookup s.table asked with
    | none =>
      simp only [hbo] at h
      cases h
    | some bo =>
      cases hfd : bo.shmFd with
      | none =>
        simp only [hbo, Option.bind_some, hfd] at h
        cases h
      | some own =>
        simp only [hbo, Option.bind_some, hfd] at h
        cases dup with
        | true =>
          obtain ⟨rfl, rfl⟩ := Prod.mk.inj (Option.some.inj h)
          exact ⟨bo, by rw [← hw.boLookup_eq, hbo], hfd⟩
        | false => cases h
  | resourceCreate _ _ | transferToHost _ _ | transferFromHost _ _ | wait _ _ _ _
  | primeFdToHandle _ _ _ | gemClose _ => cases h

end Keep

section Next

variable {s t : PrimeHistory} {e : ShimEvent}

/-- What has been exported is the file of its BO as long as that is live. -/
theorem HistoryInv.exported_next (h : HistoryInv s) (e : ShimEvent) {u : Shim}
    {made : Option Creation} (hcount : s.shim.table.handleNext ≤ u.table.handleNext)
    (hbos : BoStep s.shim u made) :
    ∀ handle file, (handle, file) ∈ s.exported ++ (exportOf s.shim e).toList →
      handle < u.table.handleNext ∧
        ∀ bo, u.table.live handle = some bo → bo.shmFd = some file := by
  intro handle file hmem
  have hbefore : handle < s.shim.table.handleNext ∧
      ∀ bo, s.shim.table.live handle = some bo → bo.shmFd = some file := by
    rcases List.mem_append.mp hmem with hold | hnew
    · exact h.exported handle file hold
    · obtain ⟨bo, hbo, hfd⟩ := exportOf_eq h.table (Option.mem_toList.mp hnew)
      refine ⟨(h.table.in_bounds handle bo hbo).1, fun other hother => ?_⟩
      rw [hbo] at hother
      rw [← Option.some.inj hother, hfd]
  exact ⟨hbefore.1.trans_le hcount,
    fun bo hbo => hbefore.2 bo (hbos.live_old hbefore.1 hbo)⟩

/-- A creation on a file has a slot for its entry while there is room. -/
theorem HistoryInv.room (h : HistoryInv s) {key : FileKey}
    (hcard : (insert key s.stored).card ≤ inodeCacheSize) :
    (s.shim.cache.get key).isSome ∧ s.shim.cache.filled ≤ (insert key s.stored).card ∨
      s.shim.cache.get key = none ∧ s.shim.cache.filled + 1 ≤ (insert key s.stored).card := by
  have hsub : s.stored.card ≤ (insert key s.stored).card :=
    Finset.card_le_card (Finset.subset_insert key s.stored)
  obtain ⟨hget, hfilled⟩ := h.cached (hsub.trans hcard)
  cases hold : s.shim.cache.get key with
  | some e => exact .inl ⟨rfl, hfilled.trans hsub⟩
  | none =>
    -- a file without an entry has never been stored
    have hlatest : s.latest key = none := by
      rw [hget] at hold
      exact Option.map_eq_none_iff.mp hold
    have hnew : key ∉ s.stored := by
      intro hmem
      have hsome := h.stored key hmem
      rw [hlatest] at hsome
      cases hsome
    rw [Finset.card_insert_of_notMem hnew]
    exact .inr ⟨rfl, by omega⟩

/-- What a creation does to the cache. -/
theorem HistoryInv.cached_created (h : HistoryInv s) {c : Creation} (hne : c.res ≠ 0)
    (hcard : (insert c.file.key s.stored).card ≤ inodeCacheSize) :
    (s.shim.cache.store (some c.file)
        (CacheEntry.created c.rc c.res (isAhbLink (some c.file)))).get =
      (fun key => (Function.update s.latest c.file.key (some c) key).map Creation.entry) ∧
    (s.shim.cache.store (some c.file)
        (CacheEntry.created c.rc c.res (isAhbLink (some c.file)))).filled ≤
      (insert c.file.key s.stored).card := by
  have hsub : s.stored.card ≤ (insert c.file.key s.stored).card :=
    Finset.card_le_card (Finset.subset_insert _ s.stored)
  have hroom := h.room hcard
  have hkey : (CacheEntry.created c.rc c.res (isAhbLink (some c.file)) c.file.key).key =
      c.file.key := rfl
  obtain ⟨hget, hfilled⟩ := InodeCache.store_spec hkey hne
    (hroom.imp And.left fun hnew => by omega)
  constructor
  · rw [hget, (h.cached (hsub.trans hcard)).1]
    funext key
    by_cases hsame : key = c.file.key
    · rw [hsame, Function.update_self, Function.update_self]
      rfl
    · rw [Function.update_of_ne hsame, Function.update_of_ne hsame]
  · refine hfilled.trans ?_
    obtain ⟨hsome, hle⟩ | ⟨hnone, hle⟩ := hroom
    · rw [if_pos hsome]
      exact hle
    · rw [hnone]
      exact hle

/-- A creation keeps the invariant, if no other live BO is on its file. -/
theorem HistoryInv.created (h : HistoryInv s) {u : Shim} {c : Creation} (hne : c.res ≠ 0)
    {exported : List (ℕ × BackingFile)} (hwf : u.table.WellFormed)
    (hcap : IsCapacity u.table.capacity)
    (hexported : ∀ handle file, (handle, file) ∈ exported → handle < u.table.handleNext ∧
      ∀ bo, u.table.live handle = some bo → bo.shmFd = some file)
    (hlive : u.table.live = Function.update s.shim.table.live s.shim.table.handleNext
      (some (Bo.created c.rc c.res (some c.file) (Bo.fresh s.shim.table.handleNext))))
    (hcache : u.cache = s.shim.cache.store (some c.file)
      (CacheEntry.created c.rc c.res (isAhbLink (some c.file))))
    (hown : OwnFiles ⟨u, Function.update s.latest c.file.key (some c),
      insert c.file.key s.stored, exported⟩) :
    HistoryInv ⟨u, Function.update s.latest c.file.key (some c), insert c.file.key s.stored,
      exported⟩ := by
  refine ⟨hwf, hcap, hexported, fun key hkey => ?_, fun hcard => ?_,
    fun hcard i bo key d hbo hkey hd => ?_⟩
  · show (Function.update s.latest c.file.key (some c) key).isSome
    by_cases hsame : key = c.file.key
    · rw [hsame, Function.update_self]
      rfl
    · rw [Function.update_of_ne hsame]
      exact h.stored key ((Finset.mem_insert.mp hkey).resolve_left hsame)
  · show u.cache.get = _ ∧ u.cache.filled ≤ _
    rw [hcache]
    exact h.cached_created hne hcard
  · have hself : u.table.live s.shim.table.handleNext = some (Bo.created c.rc c.res (some c.file)
        (Bo.fresh s.shim.table.handleNext)) := by
      rw [hlive, Function.update_self]
    replace hd : Function.update s.latest c.file.key (some c) key = some d := hd
    by_cases hi : i = s.shim.table.handleNext
    · subst hi
      obtain rfl := Option.some.inj (hself.symm.trans hbo)
      obtain rfl := Option.some.inj (show some c.file.key = some key from hkey)
      rw [Function.update_self] at hd
      obtain rfl := Option.some.inj hd
      exact matches_created c _
    · -- an older BO is on another file
      have hother : key ≠ c.file.key := by
        rintro rfl
        exact hi (hown i _ bo _ c.file.key hbo hself hkey rfl)
      rw [Function.update_of_ne hother] at hd
      replace hbo : u.table.live i = some bo := hbo
      rw [hlive, Function.update_of_ne hi] at hbo
      have hsub : s.stored.card ≤ (insert c.file.key s.stored).card :=
        Finset.card_le_card (Finset.subset_insert _ s.stored)
      exact h.matched (hsub.trans hcard) i bo key d hbo hkey hd

/-- **Every step keeps the invariant**, as long as no two live BOs come to share a file. -/
theorem HistoryInv.next (h : HistoryInv s) (hstep : s.next e = some t) (hres : AssignsHandle s e)
    (hown : OwnFiles t) : HistoryInv t := by
  obtain ⟨u, hu, rfl⟩ := Option.map_eq_some_iff.mp hstep
  obtain ⟨hcounted, hbos⟩ := boStep_of_next h.table hu
  have hwf : u.table.WellFormed := (next_change h.table hu).kept.table
  have hcap : IsCapacity u.table.capacity := hcounted.isCapacity h.capacity
  have hexported := h.exported_next e (hcounted.le h.table) hbos
  cases hmade : creationOf s.shim e with
  | none =>
    rw [hmade] at hbos
    obtain ⟨hcache, hlive⟩ := hbos.uncreated
    refine ⟨hwf, hcap, hexported, h.stored, fun hcard => ?_, fun hcard i bo key c hbo hkey hc => ?_⟩
    · show u.cache.get = _ ∧ u.cache.filled ≤ _
      rw [hcache]
      exact h.cached hcard
    · rcases hlive i bo key hbo hkey with hold | hcached
      · exact h.matched hcard i bo key c hold hkey hc
      · have hget : s.shim.cache.get key = some c.entry := by
          rw [(h.cached hcard).1]
          show (s.latest key).map Creation.entry = _
          rw [show s.latest key = some c from hc]
          rfl
        obtain ⟨old, rfl⟩ := hcached c.entry hget
        exact matches_restored c old
  | some c =>
    rw [hmade] at hbos
    have hne : c.res ≠ 0 := by
      obtain ⟨rc, env, rfl, hserver⟩ | hhandle := creationOf_res h.table hmade
      · rw [hserver]
        exact hres
      · rw [hhandle]
        exact h.table.next_pos.ne'
    simp only [hmade, Option.elim_some, if_pos hne] at hown ⊢
    cases hbos with
    | created _ hlive hcache => exact h.created hne hwf hcap hexported hlive hcache hown

end Next

/-! ### Imports -/

section Imports

variable {s : PrimeHistory}

/-- A scan by file finds the live BO that alone is on it. -/
theorem boFindByInode_of_live (hw : s.shim.table.WellFormed) (hown : OwnFiles s) {handle : ℕ}
    {bo : Bo} {file : BackingFile} (hbo : s.shim.table.live handle = some bo)
    (hfd : bo.shmFd = some file) :
    boFindByInode s.shim.table (some file) = some (some bo) := by
  obtain ⟨hhandle, hslot⟩ := live_eq_some.mp hbo
  have hin := hw.in_bounds handle bo hbo
  have hkey : statKey bo.shmFd = some file.key := by
    rw [hfd]
    rfl
  have hpos : 0 < handle := by
    have heq := hw.handle_eq handle bo hbo
    rw [hslot, heq] at hhandle
    omega
  have hbacked : (s.shim.table.slots handle).backedBy file.key = true := by
    unfold Bo.backedBy
    rw [hslot] at hhandle ⊢
    rw [Bool.and_eq_true]
    exact ⟨decide_eq_true hhandle, decide_eq_true hkey⟩
  have hmem : handle ∈ List.range' 1 (min s.shim.table.handleNext s.shim.table.capacity - 1) := by
    rw [List.mem_range'_1]
    omega
  unfold boFindByInode
  simp only [statKey, Option.map_some]
  cases hfind : (List.range' 1 (min s.shim.table.handleNext s.shim.table.capacity - 1)).find?
      fun i => (s.shim.table.slots i).backedBy file.key with
  | none => exact absurd hbacked (List.find?_eq_none.mp hfind handle hmem)
  | some i =>
    -- what is found is live on the same file
    have hfound := List.find?_some hfind
    simp only [Bo.backedBy, Bool.and_eq_true, decide_eq_true_eq] at hfound
    have hlive : s.shim.table.live i = some (s.shim.table.slots i) :=
      live_eq_some.mpr ⟨hfound.1, rfl⟩
    obtain rfl := hown i handle _ bo file.key hlive hbo hfound.2 hkey
    simp only [hslot]

/-- A scan that reads past the end goes by a counter outside the table. -/
theorem handleNext_of_boFindByInode {t : BoTable} {fd : Option BackingFile}
    (h : boFindByInode t fd = none) : max t.capacity 1 < t.handleNext := by
  unfold boFindByInode at h
  split at h
  · cases h
  · split at h
    · cases h
    · split at h
      · cases h
      · rename_i hover
        exact not_le.mp hover

/-- What a scan by file finds is on the file. -/
theorem statKey_of_boFindByInode {t : BoTable} {file : BackingFile} {bo : Bo}
    (h : boFindByInode t (some file) = some (some bo)) : statKey bo.shmFd = some file.key := by
  unfold boFindByInode at h
  simp only [statKey, Option.map_some] at h
  split at h
  · rename_i i hfind
    obtain rfl := Option.some.inj (Option.some.inj h)
    have hfound := List.find?_some hfind
    simp only [Bo.backedBy, Bool.and_eq_true, decide_eq_true_eq] at hfound
    exact hfound.2
  · split at h <;> cases h

/-- An import leads to what was created on the file last. -/
theorem HistoryInv.recovers (h : HistoryInv s) (hcard : s.stored.card ≤ inodeCacheSize)
    {file : BackingFile} {c : Creation} (hc : s.latest file.key = some c) (realloc dup : Bool) :
    Recovers s.shim realloc c (shimPrimeFdToHandle s.shim (some file) realloc dup) := by
  unfold shimPrimeFdToHandle
  cases hfind : boFindByInode s.shim.table (some file) with
  | none => exact .inl (handleNext_of_boFindByInode hfind)
  | some found =>
    cases found with
    | some bo =>
      have hlive := h.table.live_of_boFindByInode hfind
      exact ⟨bo, hlive, h.matched hcard _ bo _ c hlive (statKey_of_boFindByInode hfind) hc⟩
    | none =>
      cases halloc : boAlloc s.shim.table realloc with
      | none => exact .inr (boAlloc_eq_none h.capacity halloc)
      | some result =>
        obtain ⟨table, r⟩ := result
        cases r with
        | none => exact (boAlloc_fails_iff halloc).mp rfl
        | some handle =>
          obtain ⟨rfl, hwf, -, hlive⟩ := h.table.boAlloc_made halloc
          have hcached : s.shim.cache.lookup (some file) = some c.entry := by
            rw [InodeCache.lookup_eq_get, (h.cached hcard).1]
            simp only [hc, Option.map_some]
          obtain ⟨hwf', hlive'⟩ := live_modify_fresh hwf hlive (f := Bo.imported (some file) dup)
            fun _ => rfl
          obtain ⟨-, hlive''⟩ := hwf'.modify s.shim.table.handleNext (f := Bo.restored c.entry)
            fun _ => rfl
          simp only [hcached]
          refine ⟨_, ?_, matches_restored c (Bo.imported (some file) dup
            (Bo.fresh s.shim.table.handleNext))⟩
          rw [hlive'', hlive', Function.update_self, Function.update_self]
          rfl

theorem HistoryInv.roundTrips (h : HistoryInv s) (hown : OwnFiles s) : RoundTrips s where
  exported := by
    intro handle file hmem hlive realloc dup
    obtain ⟨bo, hbo⟩ := Option.isSome_iff_exists.mp hlive
    have hfind := boFindByInode_of_live h.table hown hbo ((h.exported handle file hmem).2 bo hbo)
    unfold shimPrimeFdToHandle
    simp only [hfind, h.table.handle_eq handle bo hbo]
  recovered := fun hcard _ _ hc realloc dup => h.recovers hcard hc realloc dup

end Imports

/-! ### Runs -/

/-- **Export, close and import.**  In every run in which no two live BOs are ever on the same file
and the server assigns no handle zero, in every state: importing an exported descriptor of a BO that
is live gives its handle and changes nothing; and as long as at most 64 files have been stored in
the cache, importing any file leads to a BO with the resource, the geometry and the AHB flag of the
latest creation on it, whether its BO has been closed or not. -/
theorem roundTrips_of_ownFiles (s : PrimeHistory) (run : List (ShimEvent × PrimeHistory))
    (hinit : s.Initial) (hrun : primeHistorySystem.Exec s run) (hown : AllStates OwnFiles s run)
    (hassigns : AllSteps AssignsHandle s run) : AllStates RoundTrips s run :=
  System.allStates_of_assumed (fun _ h hown => h.roundTrips hown)
    (fun _ _ _ h _ hstep hres hown => h.next hstep hres hown) (historyInv_of_initial hinit) hrun hown
    hassigns

/-- At most one BO is live. -/
def Alone (s : PrimeHistory) : Prop :=
  ∀ i < s.shim.table.handleNext, ∀ j < s.shim.table.handleNext, (s.shim.table.live i).isSome →
    (s.shim.table.live j).isSome → i = j

instance (s : PrimeHistory) : Decidable (Alone s) :=
  inferInstanceAs (Decidable (∀ i < _, ∀ j < _, _))

theorem Alone.ownFiles {s : PrimeHistory} (h : Alone s) (hw : s.shim.table.WellFormed) :
    OwnFiles s := by
  intro i j bo bo' key hbo hbo' _ _
  exact h i (hw.in_bounds i bo hbo).1 j (hw.in_bounds j bo' hbo').1
    (Option.isSome_iff_exists.mpr ⟨bo, hbo⟩) (Option.isSome_iff_exists.mpr ⟨bo', hbo'⟩)

/-- A process that has just loaded the shim. -/
def freshHistory : PrimeHistory := ⟨freshShim, fun _ => none, ∅, []⟩

/-- A buffer on a dmabuf is exported and imported, closed, and imported again. -/
def exportAndReimport : List ShimEvent :=
  [.resourceCreate smallBuffer ⟨some 3, true, 7, .answered dmabufFile⟩, .primeHandleToFd 1 true none,
    .primeFdToHandle (some dmabufFile) true true, .gemClose 1,
    .primeFdToHandle (some dmabufFile) true true]

theorem roundTrips_exportAndReimport :
    (traceNext PrimeHistory.next freshHistory exportAndReimport).length = 5 ∧
      AllStates RoundTrips freshHistory
        (traceNext PrimeHistory.next freshHistory exportAndReimport) := by
  have hrun : primeHistorySystem.Exec freshHistory
      (traceNext PrimeHistory.next freshHistory exportAndReimport) := System.exec_traceNext _ _ _
  have hwf : AllStates (fun s => s.shim.table.WellFormed) freshHistory
      (traceNext PrimeHistory.next freshHistory exportAndReimport) := by
    refine hrun.allStates (I := fun s => s.shim.table.WellFormed) (fun _ h => h) ?_ wellFormed_empty
    intro s e t hs hstep
    obtain ⟨u, hu, rfl⟩ := Option.map_eq_some_iff.mp hstep
    exact (next_change hs hu).kept.table
  have halone : AllStates Alone freshHistory
      (traceNext PrimeHistory.next freshHistory exportAndReimport) := by decide
  refine ⟨by decide, roundTrips_of_ownFiles freshHistory _ ⟨freshShim_initial, rfl, rfl, rfl⟩ hrun
    (halone.imp₂ hwf fun s => Alone.ownFiles) ⟨?_, trivial, trivial, trivial, trivial, trivial⟩⟩
  show (7 : ℕ) ≠ 0
  decide

end Wldroid.DrmShim
