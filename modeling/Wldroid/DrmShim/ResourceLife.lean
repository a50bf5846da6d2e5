import Wldroid.DrmShim.Resources

/-!
# No BO names a dead resource

A resource that is not backed by an AHB ends when its BO is closed; one that is stays for a later
import, which finds it in the inode cache.  The cache holds entries of both kinds.

* `NamesLive` — every live BO and every request names a live resource;
* `ResourceInv` — who may name a resource, over the table and the cache;
* `namesLive_of_restoresAhb` — `NamesLive` along every run whose imports take from the cache only
  what is backed by an AHB;
* `closed_memfd_is_restored` — it fails when an import takes what was a memfd's.
-/

namespace Wldroid.DrmShim

open Wldroid.Foundation

/-! ### The property -/

/-- Every request about a resource comes while that resource is live. -/
def WellNamed (sent : List Request) : Prop :=
  ∀ before r after, sent = before ++ r :: after → ∀ res, r.names = some res → res ∈ liveIds before

/-- A request that creates the resource. -/
def Request.isCreationOf (res : ℕ) : Request → Bool
  | .resourceCreate2 _ r => r = res
  | _ => false

/-- A request that ends the resource. -/
def Request.isUnrefOf (res : ℕ) : Request → Bool
  | .resourceUnref r => r = res
  | _ => false

/-- **No BO names a dead resource.**  The handles in live BOs and in all requests so far name live
resources, and no resource has been unreferenced more often than created. -/
structure NamesLive (s : Shim) : Prop where
  bos : ∀ i bo, s.table.live i = some bo → bo.resHandle ≠ 0 → bo.resHandle ∈ liveIds s.sent
  requests : WellNamed s.sent
  unrefs_le : ∀ res,
    s.sent.countP (Request.isUnrefOf res) ≤ s.sent.countP (Request.isCreationOf res)

/-- An import that finds no live BO on the file takes a resource from the cache only if it is one
backed by an AHB. -/
def RestoresAhb (s : Shim) : ShimEvent → Prop
  | .primeFdToHandle fd _ _ => boFindByInode s.table fd = some none →
      ∀ e, s.cache.lookup fd = some e → e.isAhb = true
  | _ => True

/-! ### Requests -/

theorem liveIds_append (sent : List Request) (r : Request) :
    liveIds (sent ++ [r]) = liveAfter (liveIds sent) r := by
  simp [liveIds]

theorem wellNamed_nil : WellNamed [] := by
  intro before r after h
  simp at h

theorem wellNamed_append {sent : List Request} (h : WellNamed sent) {r : Request}
    (hr : ∀ res, r.names = some res → res ∈ liveIds sent) : WellNamed (sent ++ [r]) := by
  intro before r' after heq res hres
  rcases List.eq_nil_or_concat after with rfl | ⟨rest, last, rfl⟩
  · obtain ⟨rfl, hlast⟩ := List.append_inj' heq rfl
    obtain rfl : r = r' := by simpa using hlast
    exact hr res hres
  · rw [List.concat_eq_append, ← List.cons_append, ← List.append_assoc] at heq
    obtain ⟨hsent, -⟩ := List.append_inj' heq rfl
    exact h before r' rest hsent res hres

theorem WellNamed.of_append {sent : List Request} {r : Request} (h : WellNamed (sent ++ [r])) :
    WellNamed sent ∧ ∀ res, r.names = some res → res ∈ liveIds sent := by
  refine ⟨?_, h sent r [] rfl⟩
  intro before r' after heq
  apply h before r' (after ++ [r])
  rw [heq]
  simp

/-- In well-named requests each unref ends a creation of its own. -/
theorem WellNamed.unrefs_add_le {sent : List Request} (h : WellNamed sent) (res : ℕ) :
    sent.countP (Request.isUnrefOf res) + (if res ∈ liveIds sent then 1 else 0) ≤
      sent.countP (Request.isCreationOf res) := by
  induction sent using List.reverseRecOn with
  | nil => simp [liveIds]
  | append_singleton sent r ih =>
    obtain ⟨hsent, hr⟩ := h.of_append
    have ih := ih hsent
    rw [liveIds_append, List.countP_append, List.countP_append]
    cases r with
    | resourceCreate2 payload made =>
      by_cases hmade : made = res
      · subst hmade
        simp only [liveAfter, List.mem_cons_self, if_true, List.countP_singleton,
          Request.isUnrefOf, Request.isCreationOf, decide_true]
        split at ih <;> simp <;> omega
      · simpa [liveAfter, Request.isUnrefOf, Request.isCreationOf, hmade, Ne.symm hmade] using ih
    | resourceUnref ended =>
      by_cases hended : ended = res
      · subst hended
        rw [if_pos (hr ended rfl)] at ih
        simpa [liveAfter, Request.isUnrefOf, Request.isCreationOf] using ih
      · simpa [liveAfter, Request.isUnrefOf, Request.isCreationOf, hended, Ne.symm hended] using ih
    | transferGet2 _ _ | transferPut2 _ _ | resourceBusyWait _ _ =>
      show _ + (if res ∈ liveIds sent then 1 else 0) ≤ _
      simpa [Request.isUnrefOf, Request.isCreationOf] using ih

/-! ### The invariant -/

/-- What holds while imports restore only resources backed by an AHB.  A resource that is not is
named by one live BO at most, which ends it when it is closed. -/
structure ResourceInv (s : Shim) : Prop where
  table : s.table.WellFormed
  requests : WellNamed s.sent
  /-- Nothing is sent before the connection stands. -/
  unconnected : s.sock = false → s.sent = []
  /-- The handles of version 2 are BO handles. -/
  assigned : s.protocolVersion < 3 → ∀ res ∈ liveIds s.sent, res < s.table.handleNext
  bos : ∀ i bo, s.table.live i = some bo → bo.resHandle ≠ 0 → bo.resHandle ∈ liveIds s.sent
  cached : ∀ e ∈ s.cache.entries, e.isAhb = true → e.resHandle ∈ liveIds s.sent
  owner : ∀ i bo, s.table.live i = some bo → bo.resHandle ≠ 0 → bo.isAhb = false →
    ∀ j other, s.table.live j = some other → other.resHandle = bo.resHandle → j = i
  apart : ∀ i bo, s.table.live i = some bo → bo.resHandle ≠ 0 → bo.isAhb = false →
    ∀ e ∈ s.cache.entries, e.isAhb = true → e.resHandle ≠ bo.resHandle

theorem ResourceInv.namesLive {s : Shim} (h : ResourceInv s) : NamesLive s where
  bos := h.bos
  requests := h.requests
  unrefs_le res := by
    have hle := h.requests.unrefs_add_le res
    omega

theorem resourceInv_of_initial {s : Shim} (hi : s.Initial) : ResourceInv s := by
  obtain ⟨hsock, htable, hcache, hsent⟩ := hi
  have hnone : ∀ i bo, ¬ s.table.live i = some bo := by
    intro i bo hbo
    rw [htable] at hbo
    exact (live_eq_some.mp hbo).1 rfl
  refine ⟨htable ▸ wellFormed_empty, hsent ▸ wellNamed_nil, fun _ => hsent, ?_,
    fun i bo hbo => absurd hbo (hnone i bo), ?_, fun i bo hbo => absurd hbo (hnone i bo),
    fun i bo hbo => absurd hbo (hnone i bo)⟩
  · intro _ res hres
    rw [hsent] at hres
    cases hres
  · intro e he
    rw [hcache, InodeCache.entries_empty] at he
    cases he

/-! ### Steps -/

/-- A request that names a live resource and ends none. -/
theorem ResourceInv.send {s : Shim} (h : ResourceInv s) (hsock : s.sock = true) {r : Request}
    (hr : ∀ res, r.names = some res → res ∈ liveIds s.sent)
    (hlive : liveAfter (liveIds s.sent) r = liveIds s.sent) : ResourceInv (s.send r) := by
  have hids : liveIds (s.send r).sent = liveIds s.sent := (liveIds_append s.sent r).trans hlive
  refine ⟨h.table, wellNamed_append h.requests hr, fun hno => ?_, ?_, ?_, ?_, h.owner, h.apart⟩
  · rw [show (s.send r).sock = s.sock from rfl, hsock] at hno
    cases hno
  · rw [hids]
    exact h.assigned
  · rw [hids]
    exact h.bos
  · rw [hids]
    exact h.cached

/-- Connecting. -/
theorem ResourceInv.ensureConnected {s t : Shim} (h : ResourceInv s) {connect : Option ℕ}
    (hconnect : ensureConnected s connect = some t) :
    ResourceInv t ∧ t.sock = true ∧ t.table = s.table ∧ t.sent = s.sent := by
  unfold DrmShim.ensureConnected at hconnect
  split at hconnect
  · rename_i hsock
    obtain rfl := Option.some.inj hconnect
    exact ⟨h, hsock, rfl, rfl⟩
  · rename_i hsock
    obtain ⟨version, -, rfl⟩ := Option.map_eq_some_iff.mp hconnect
    have hsent := h.unconnected (by simpa using hsock)
    refine ⟨⟨h.table, h.requests, fun hno => absurd hno (by simp), fun _ res hres => ?_, h.bos,
      h.cached, h.owner, h.apart⟩, rfl, rfl, rfl⟩
    rw [show liveIds _ = liveIds s.sent from rfl, hsent] at hres
    cases hres

/-- A BO is put under a handle.  Its resource is new, or comes from an AHB entry of the cache; the
cache gains an AHB entry for this resource at most. -/
theorem ResourceInv.place {s t : Shim} (h : ResourceInv s) {handle : ℕ} {bo : Bo}
    (htable : t.table.WellFormed)
    (hlive : t.table.live = Function.update s.table.live handle (some bo))
    (hrequests : WellNamed t.sent) (hunconnected : t.sock = false → t.sent = [])
    (hassigned : t.protocolVersion < 3 → ∀ res ∈ liveIds t.sent, res < t.table.handleNext)
    (hids : ∀ res ∈ liveIds s.sent, res ∈ liveIds t.sent)
    (hbo : bo.resHandle ≠ 0 → bo.resHandle ∈ liveIds t.sent)
    (hnew : bo.resHandle ≠ 0 → bo.resHandle ∉ liveIds s.sent ∨
      bo.isAhb = true ∧ ∃ e ∈ s.cache.entries, e.isAhb = true ∧ e.resHandle = bo.resHandle)
    (hcache : ∀ e ∈ t.cache.entries, e.isAhb = true → e ∈ s.cache.entries ∨
      e.resHandle = bo.resHandle ∧ bo.resHandle ≠ 0 ∧ bo.isAhb = true) : ResourceInv t := by
  have hself : ∀ other, t.table.live handle = some other → other = bo := by
    intro other hother
    rw [hlive, Function.update_self] at hother
    exact (Option.some.inj hother).symm
  have hold : ∀ i other, i ≠ handle → t.table.live i = some other →
      s.table.live i = some other := by
    intro i other hi hother
    rwa [hlive, Function.update_of_ne hi] at hother
  -- no old BO that is not backed by an AHB has the resource of the new one
  have hclash : bo.resHandle ≠ 0 → ∀ i old, s.table.live i = some old → old.isAhb = false →
      old.resHandle ≠ bo.resHandle := by
    intro hne i old hlive' hold' heq
    rcases hnew hne with hfresh | ⟨-, e, he, hahb, hres⟩
    · exact hfresh (heq ▸ h.bos i old hlive' (heq ▸ hne))
    · exact h.apart i old hlive' (heq ▸ hne) hold' e he hahb (hres.trans heq.symm)
  refine ⟨htable, hrequests, hunconnected, hassigned, ?_, ?_, ?_, ?_⟩
  · intro i other hother hne
    by_cases hi : i = handle
    · subst hi
      rw [hself other hother] at hne ⊢
      exact hbo hne
    · exact hids _ (h.bos i other (hold i other hi hother) hne)
  · intro e he hahb
    rcases hcache e he hahb with hin | ⟨hres, hne, -⟩
    · exact hids _ (h.cached e hin hahb)
    · exact hres ▸ hbo hne
  · intro i other hother hne hnot j another hanother hres
    by_cases hi : i = handle
    · subst hi
      obtain rfl := hself other hother
      by_contra hj
      have hbelow := hold j another hj hanother
      rcases hnew hne with hfresh | ⟨hahb, -⟩
      · exact hfresh (hres ▸ h.bos j another hbelow (hres ▸ hne))
      · rw [hnot] at hahb
        cases hahb
    · have hi' := hold i other hi hother
      by_cases hj : j = handle
      · subst hj
        obtain rfl := hself another hanother
        exact absurd hres.symm (hclash (hres ▸ hne) i other hi' hnot)
      · exact h.owner i other hi' hne hnot j another (hold j another hj hanother) hres
  · intro i other hother hne hnot e he hahb hres
    rcases hcache e he hahb with hin | ⟨hres', hne', hahb'⟩
    · by_cases hi : i = handle
      · subst hi
        obtain rfl := hself other hother
        rcases hnew hne with hfresh | ⟨hahb', -⟩
        · exact hfresh (hres ▸ h.cached e hin hahb)
        · rw [hnot] at hahb'
          cases hahb'
      · exact h.apart i other (hold i other hi hother) hne hnot e hin hahb hres
    · by_cases hi : i = handle
      · subst hi
        rw [hself other hother, hahb'] at hnot
        cases hnot
      · exact hclash hne' i other (hold i other hi hother) hnot (hres.symm.trans hres')

/-- The counter moves on, and the live BOs stay. -/
theorem ResourceInv.counter {s : Shim} (h : ResourceInv s) {table : BoTable}
    (hwf : table.WellFormed) (hnext : table.handleNext = s.table.handleNext + 1)
    (hlive : table.live = s.table.live) : ResourceInv { s with table := table } := by
  refine ⟨hwf, h.requests, h.unconnected, ?_, ?_, h.cached, ?_, ?_⟩
  · intro hversion res hres
    have hlt := h.assigned hversion res hres
    show res < table.handleNext
    omega
  · show ∀ i bo, table.live i = some bo → _
    rw [hlive]
    exact h.bos
  · show ∀ i bo, table.live i = some bo → _ → _ → ∀ j other, table.live j = some other → _
    rw [hlive]
    exact h.owner
  · show ∀ i bo, table.live i = some bo → _
    rw [hlive]
    exact h.apart

/-- The handle a new resource gets is not in use. -/
theorem ResourceInv.res_fresh {s : Shim} (h : ResourceInv s) {serverRes : ℕ}
    (hserver : serverRes ∉ liveIds s.sent) :
    (if s.protocolVersion ≥ 3 then serverRes else s.table.handleNext) ∉ liveIds s.sent := by
  split
  · exact hserver
  · intro hres
    have hlt := h.assigned (by omega) _ hres
    omega

/-- A creation that fails after its handle was dealt out leaves a BO without a resource. -/
theorem ResourceInv.lost {s : Shim} (h : ResourceInv s) (hsock : s.sock = true) {table : BoTable}
    (hwf : table.WellFormed) (hnext : table.handleNext = s.table.handleNext + 1)
    (hlive : table.live = Function.update s.table.live s.table.handleNext
      (some (Bo.fresh s.table.handleNext)))
    (payload : List ℕ) {res : ℕ} (hres : s.protocolVersion < 3 → res < table.handleNext)
    (created : Bool) : ResourceInv (if created
      then ({ s with table := table }.send (.resourceCreate2 payload res))
      else { s with table := table }) := by
  have hassigned : s.protocolVersion < 3 → ∀ r ∈ liveIds s.sent, r < table.handleNext := by
    intro hversion r hr
    have hlt := h.assigned hversion r hr
    omega
  split
  · have hids : liveIds (s.sent ++ [.resourceCreate2 payload res]) = res :: liveIds s.sent :=
      liveIds_append _ _
    apply h.place hwf hlive
    · exact wellNamed_append h.requests fun r hr => by cases hr
    · exact fun hno => absurd (hsock.symm.trans hno) (by simp)
    · show s.protocolVersion < 3 → ∀ r ∈ liveIds (s.sent ++ _), r < table.handleNext
      rw [hids]
      intro hversion r hr
      rcases List.mem_cons.mp hr with rfl | hr
      · exact hres hversion
      · exact hassigned hversion r hr
    · show ∀ r ∈ liveIds s.sent, r ∈ liveIds (s.sent ++ _)
      rw [hids]
      exact fun r hr => List.mem_cons_of_mem _ hr
    · exact fun hne => absurd rfl hne
    · exact fun hne => absurd rfl hne
    · exact fun e he _ => .inl he
  · apply h.place (t := { s with table := table }) hwf hlive h.requests h.unconnected hassigned
      fun r hr => hr
    · exact fun hne => absurd rfl hne
    · exact fun hne => absurd rfl hne
    · exact fun e he _ => .inl he

/-- A creation fills the BO it allocated. -/
theorem fill_eq {s : Shim} {rc : ResourceCreate} {handle res : ℕ} {shmFd : Option BackingFile}
    (hlookup : (boLookup s.table handle).isSome = true) :
    s.fill rc handle res shmFd =
      { s with
        table := s.table.modify handle (Bo.created rc res shmFd)
        cache := s.cache.store shmFd (CacheEntry.created rc res (isAhbLink shmFd)) } := by
  unfold Shim.fill
  rw [hlookup]
  rfl

/-- A creation that is answered: the BO gets the new resource, the cache an entry for it. -/
theorem ResourceInv.answered {s : Shim} (h : ResourceInv s) (hsock : s.sock = true)
    {table : BoTable} (hwf : table.WellFormed)
    (hnext : table.handleNext = s.table.handleNext + 1)
    (hlive : table.live = Function.update s.table.live s.table.handleNext
      (some (Bo.fresh s.table.handleNext)))
    (rc : ResourceCreate) (payload : List ℕ) {res : ℕ} (hfresh : res ∉ liveIds s.sent)
    (hres : s.protocolVersion < 3 → res < table.handleNext) (shmFd : Option BackingFile) :
    ResourceInv (({ s with table := table }.send (.resourceCreate2 payload res)).fill rc
      s.table.handleNext res shmFd) := by
  have hself : table.live s.table.handleNext = some (Bo.fresh s.table.handleNext) := by
    rw [hlive, Function.update_self]
  have hlookup : (boLookup table s.table.handleNext).isSome = true := by
    rw [hwf.boLookup_eq, hself]
    rfl
  obtain ⟨hwf', hlive'⟩ := hwf.modify s.table.handleNext (f := Bo.created rc res shmFd)
    fun _ => rfl
  rw [hself, hlive, Function.update_idem] at hlive'
  have hids : liveIds (s.sent ++ [.resourceCreate2 payload res]) = res :: liveIds s.sent :=
    liveIds_append _ _
  rw [fill_eq hlookup]
  apply h.place hwf' hlive'
  · exact wellNamed_append h.requests fun r hr => by cases hr
  · exact fun hno => absurd (hsock.symm.trans hno) (by simp)
  · show s.protocolVersion < 3 → ∀ r ∈ liveIds (s.sent ++ _), r < table.handleNext
    rw [hids]
    intro hversion r hr
    rcases List.mem_cons.mp hr with rfl | hr
    · exact hres hversion
    · have hlt := h.assigned hversion r hr
      omega
  · show ∀ r ∈ liveIds s.sent, r ∈ liveIds (s.sent ++ _)
    rw [hids]
    exact fun r hr => List.mem_cons_of_mem _ hr
  · intro _
    show res ∈ liveIds (s.sent ++ _)
    rw [hids]
    exact List.mem_cons_self
  · exact fun _ => .inl hfresh
  · intro e he hahb
    rcases InodeCache.mem_store he with hold | ⟨key, rfl, hne⟩
    · exact .inl hold
    · exact .inr ⟨rfl, hne, hahb⟩

theorem ResourceInv.resourceCreate {s t : Shim} (h : ResourceInv s) {rc : ResourceCreate}
    {env : CreateEnv} {r : Except Errno (ℕ × ℕ)} (hserver : env.serverRes ∉ liveIds s.sent)
    (hcreate : shimResourceCreate s rc env = some (t, r)) : ResourceInv t := by
  unfold shimResourceCreate at hcreate
  split at hcreate
  · obtain ⟨rfl, -⟩ := Prod.mk.inj (Option.some.inj hcreate)
    exact h
  · rename_i connected hconnect
    obtain ⟨h, hsock, -, hsent⟩ := h.ensureConnected hconnect
    rw [← hsent] at hserver
    split at hcreate
    · cases hcreate
    · rename_i table halloc
      obtain ⟨hwf, hnext, hlive⟩ := h.table.boAlloc_failed halloc
      obtain ⟨rfl, -⟩ := Prod.mk.inj (Option.some.inj hcreate)
      exact h.counter hwf hnext hlive
    · rename_i table handle halloc
      obtain ⟨rfl, hwf, hnext, hlive⟩ := h.table.boAlloc_made halloc
      have hfresh := h.res_fresh hserver
      have hres : connected.protocolVersion < 3 → (if connected.protocolVersion ≥ 3
          then env.serverRes else connected.table.handleNext) < table.handleNext := by
        intro hversion
        rw [if_neg (by omega)]
        omega
      simp only at hcreate
      split at hcreate
      · obtain ⟨rfl, -⟩ := Prod.mk.inj (Option.some.inj hcreate)
        exact h.lost hsock hwf hnext hlive _ hres _
      · obtain ⟨rfl, -⟩ := Prod.mk.inj (Option.some.inj hcreate)
        exact h.answered hsock hwf hnext hlive rc _ hfresh hres _

/-- A request about the resource of a BO that was looked up. -/
theorem ResourceInv.sendAbout {s : Shim} (h : ResourceInv s) (hsock : s.sock = true) {handle : ℕ}
    {bo : Bo} (hbo : boLookup s.table handle = some bo) (hres : bo.resHandle ≠ 0) {r : Request}
    (hr : r.names = some bo.resHandle) (hlive : liveAfter (liveIds s.sent) r = liveIds s.sent) :
    ResourceInv (s.send r) := by
  rw [h.table.boLookup_eq] at hbo
  refine h.send hsock (fun res hnames => ?_) hlive
  obtain rfl := Option.some.inj (hr.symm.trans hnames)
  exact h.bos handle bo hbo hres

theorem ResourceInv.transfer {s : Shim} (h : ResourceInv s) {request : ℕ → List ℕ → Request}
    (hnames : ∀ res rest, (request res rest).names = some res)
    (hlive : ∀ live res rest, liveAfter live (request res rest) = live) (t : Transfer)
    (connect : Option ℕ) : ResourceInv (shimTransfer request s t connect).1 := by
  unfold shimTransfer
  split
  · exact h
  · rename_i connected hconnect
    obtain ⟨h, hsock, -, -⟩ := h.ensureConnected hconnect
    split
    · rename_i bo hbo
      split
      · exact h
      · rename_i hres
        exact h.sendAbout hsock hbo hres (hnames _ _) (hlive _ _ _)
    · exact h

theorem ResourceInv.wait {s : Shim} (h : ResourceInv s) (handle : ℕ) (nowait busy : Bool)
    (connect : Option ℕ) : ResourceInv (shimWait s handle nowait busy connect).1 := by
  unfold shimWait
  split
  · exact h
  · rename_i connected hconnect
    obtain ⟨h, hsock, -, -⟩ := h.ensureConnected hconnect
    split
    · rename_i bo hbo
      split
      · exact h
      · rename_i hres
        exact h.sendAbout hsock hbo hres rfl rfl
    · exact h

theorem ResourceInv.primeHandleToFd {s : Shim} (h : ResourceInv s) (handle : ℕ) (dup : Bool)
    (placeholder : Option BackingFile) :
    ResourceInv (shimPrimeHandleToFd s handle dup placeholder).1 := by
  unfold shimPrimeHandleToFd
  split
  · exact h
  · rename_i bo hbo
    have hbusy : ∀ {u : Shim}, ResourceInv u → u.table = s.table →
        ResourceInv (vtestBusyWaitForResource u bo.resHandle) := by
      intro u hu htable
      unfold vtestBusyWaitForResource
      split
      · exact hu
      · rename_i hsend
        rw [not_or] at hsend
        exact hu.sendAbout (by simpa using hsend.1) (htable ▸ hbo) hsend.2 rfl rfl
    split
    · simp only
      split
      · exact hbusy h rfl
      · unfold vtestTransferGetForExport
        split
        · exact hbusy h rfl
        · rename_i hsend
          rw [not_or] at hsend
          exact hbusy (h.sendAbout (by simpa using hsend.1) hbo hsend.2 rfl rfl) rfl
    · exact h

/-- An import that restores only what is backed by an AHB. -/
theorem ResourceInv.primeFdToHandle {s t : Shim} (h : ResourceInv s) {fd : Option BackingFile}
    {realloc dup : Bool} {r : Except Errno ℕ}
    (himport : shimPrimeFdToHandle s fd realloc dup = some (t, r))
    (hguard : boFindByInode s.table fd = some none →
      ∀ e, s.cache.lookup fd = some e → e.isAhb = true) : ResourceInv t := by
  unfold shimPrimeFdToHandle at himport
  split at himport
  · cases himport
  · obtain ⟨rfl, -⟩ := Prod.mk.inj (Option.some.inj himport)
    exact h
  · rename_i hnew
    split at himport
    · cases himport
    · rename_i table halloc
      obtain ⟨hwf, hnext, hlive⟩ := h.table.boAlloc_failed halloc
      obtain ⟨rfl, -⟩ := Prod.mk.inj (Option.some.inj himport)
      exact h.counter hwf hnext hlive
    · rename_i table handle halloc
      obtain ⟨rfl, hwf, hnext, hlive⟩ := h.table.boAlloc_made halloc
      obtain ⟨rfl, -⟩ := Prod.mk.inj (Option.some.inj himport)
      have hassigned : s.protocolVersion < 3 → ∀ res ∈ liveIds s.sent,
          res < table.handleNext := by
        intro hversion res hres
        have hlt := h.assigned hversion res hres
        omega
      obtain ⟨hwf', hlive'⟩ := hwf.modify s.table.handleNext (f := Bo.imported fd dup)
        fun _ => rfl
      rw [hlive, Function.update_self, Function.update_idem] at hlive'
      split
      · rename_i e hcached
        have hahb := hguard hnew e hcached
        have hmem := InodeCache.mem_of_lookup hcached
        obtain ⟨hwf'', hlive''⟩ := hwf'.modify s.table.handleNext (f := Bo.restored e)
          fun _ => rfl
        rw [hlive', Function.update_self, Function.update_idem] at hlive''
        exact h.place (t := { s with table := _ }) hwf'' hlive'' h.requests h.unconnected
          hassigned (fun res hres => hres) (fun _ => h.cached e hmem hahb)
          (fun _ => .inr ⟨hahb, e, hmem, hahb, rfl⟩) (fun e' he' _ => .inl he')
      · exact h.place (t := { s with table := _ }) hwf' hlive' h.requests h.unconnected
          hassigned (fun res hres => hres) (fun hne => absurd rfl hne)
          (fun hne => absurd rfl hne) (fun e' he' _ => .inl he')

/-- Closing a BO: its resource ends with it, unless it is backed by an AHB. -/
theorem ResourceInv.gemClose {s : Shim} (h : ResourceInv s) (handle : ℕ) :
    ResourceInv (shimGemClose s handle) := by
  unfold shimGemClose
  split
  · exact h
  · rename_i bo hbo
    rw [h.table.boLookup_eq] at hbo
    obtain ⟨hwf, hlive⟩ := h.table.free handle
    have hold : ∀ i other, (s.table.modify handle fun _ => Bo.zero).live i = some other →
        i ≠ handle ∧ s.table.live i = some other := by
      intro i other hother
      rw [hlive] at hother
      by_cases hi : i = handle
      · rw [hi, Function.update_self] at hother
        cases hother
      · exact ⟨hi, by rwa [Function.update_of_ne hi] at hother⟩
    simp only
    split
    · rename_i hunref
      obtain ⟨hres, hnot, hsock⟩ := hunref
      have hnot : bo.isAhb = false := by simpa using hnot
      have hids : liveIds (s.sent ++ [.resourceUnref bo.resHandle]) =
          (liveIds s.sent).filter fun r => r ≠ bo.resHandle := liveIds_append _ _
      have hkeep : ∀ res ∈ liveIds s.sent, res ≠ bo.resHandle →
          res ∈ liveIds (s.sent ++ [.resourceUnref bo.resHandle]) := by
        intro res hmem hne
        rw [hids]
        exact List.mem_filter.mpr ⟨hmem, by simpa using hne⟩
      refine ⟨hwf, ?_, fun hno => absurd (hsock.symm.trans hno) (by simp), ?_, ?_, ?_, ?_, ?_⟩
      · refine wellNamed_append h.requests fun res hnames => ?_
        obtain rfl := Option.some.inj hnames
        exact h.bos handle bo hbo hres
      · intro hversion res hmem
        have hbefore : res ∈ (liveIds s.sent).filter fun r => r ≠ bo.resHandle := by
          rw [← hids]
          exact hmem
        exact h.assigned hversion res (List.mem_filter.mp hbefore).1
      · intro i other hother hne
        obtain ⟨hi, hother⟩ := hold i other hother
        exact hkeep _ (h.bos i other hother hne)
          fun heq => hi (h.owner handle bo hbo hres hnot i other hother heq)
      · intro e he hahb
        exact hkeep _ (h.cached e he hahb) (h.apart handle bo hbo hres hnot e he hahb)
      · intro i other hother hne hnot' j another hanother
        exact h.owner i other (hold i other hother).2 hne hnot' j another (hold j another hanother).2
      · intro i other hother
        exact h.apart i other (hold i other hother).2
    · refine ⟨hwf, h.requests, h.unconnected, h.assigned, ?_, h.cached, ?_, ?_⟩
      · intro i other hother
        exact h.bos i other (hold i other hother).2
      · intro i other hother hne hnot' j another hanother
        exact h.owner i other (hold i other hother).2 hne hnot' j another (hold j another hanother).2
      · intro i other hother
        exact h.apart i other (hold i other hother).2

/-! ### Runs -/

/-- **Every ioctl keeps the invariant**, if the import among them restores only what is backed by an
AHB. -/
theorem ResourceInv.next {s t : Shim} {e : ShimEvent} (h : ResourceInv s)
    (hstep : s.next e = some t) (hguard : RestoresAhb s e) : ResourceInv t := by
  cases e with
  | resourceCreate rc env =>
    simp only [Shim.next] at hstep
    split at hstep
    · cases hstep
    · rename_i hserver
      obtain ⟨⟨u, r⟩, hcreate, rfl⟩ := Option.map_eq_some_iff.mp hstep
      exact h.resourceCreate hserver hcreate
  | transferToHost transfer connect =>
    exact Option.some.inj hstep ▸ h.transfer (fun _ _ => rfl) (fun _ _ _ => rfl) transfer connect
  | transferFromHost transfer connect =>
    exact Option.some.inj hstep ▸ h.transfer (fun _ _ => rfl) (fun _ _ _ => rfl) transfer connect
  | wait handle nowait busy connect =>
    exact Option.some.inj hstep ▸ h.wait handle nowait busy connect
  | primeHandleToFd handle dup placeholder =>
    exact Option.some.inj hstep ▸ h.primeHandleToFd handle dup placeholder
  | primeFdToHandle fd realloc dup =>
    obtain ⟨⟨u, r⟩, himport, rfl⟩ := Option.map_eq_some_iff.mp hstep
    exact h.primeFdToHandle himport hguard
  | gemClose handle => exact Option.some.inj hstep ▸ h.gemClose handle

/-- **No BO names a dead resource** in any state of a run in which every import that finds no live
BO on its file takes a resource from the cache only if it is backed by an AHB. -/
theorem namesLive_of_restoresAhb {s : Shim} {run : List (ShimEvent × Shim)} (hinit : s.Initial)
    (hrun : shimSystem.Exec s run) (hguard : AllSteps RestoresAhb s run) :
    AllStates NamesLive s run :=
  System.allStates_of_allSteps (fun _ h => h.namesLive) (fun _ _ _ h => h.next)
    (resourceInv_of_initial hinit) hrun hguard

/-- A process that has just loaded the shim. -/
def freshShim : Shim := ⟨false, 0, BoTable.empty, InodeCache.empty, [], []⟩

theorem freshShim_initial : freshShim.Initial := ⟨rfl, rfl, rfl, rfl⟩

/-- A buffer of 4 by 4 pixels. -/
def smallBuffer : ResourceCreate := ⟨2, 1, 2, 4, 4, 1, 1, 0, 0, 64, 16⟩

/-- A dmabuf. -/
def dmabufFile : BackingFile := ⟨⟨1, 20⟩, some ['/', 'd', 'm', 'a', 'b', 'u', 'f', ':'], 64⟩

/-- A memfd. -/
def memfdFile : BackingFile := ⟨⟨2, 30⟩, some ['/', 'm', 'e', 'm', 'f', 'd', ':', 'v'], 64⟩

/-- A buffer on a file is created under version 3, exported, closed, and the file is imported
again; the server calls the buffer's resource 7. -/
def closeAndReimport (file : BackingFile) : List ShimEvent :=
  [.resourceCreate smallBuffer ⟨some 3, true, 7, .answered file⟩, .primeHandleToFd 1 true none,
    .gemClose 1, .primeFdToHandle (some file) true true]

/-- With a dmabuf the run meets the guard: the resource has outlived its BO. -/
theorem namesLive_on_reimported_dmabuf :
    (traceNext Shim.next freshShim (closeAndReimport dmabufFile)).length = 4 ∧
      AllStates NamesLive freshShim
        (traceNext Shim.next freshShim (closeAndReimport dmabufFile)) := by
  refine ⟨by decide, namesLive_of_restoresAhb freshShim_initial (System.exec_traceNext _ _ _) ?_⟩
  refine ⟨trivial, trivial, trivial, ?_, trivial⟩
  intro _ e he
  have hentry : some (CacheEntry.created smallBuffer 7 true ⟨1, 20⟩) = some e := he
  rw [← Option.some.inj hentry]
  rfl

/-- With a memfd it does not: the second BO names the resource the first one has ended. -/
theorem closed_memfd_is_restored :
    ¬ ∀ (s : Shim) (run : List (ShimEvent × Shim)), s.Initial → shimSystem.Exec s run →
      AllStates NamesLive s run := by
  intro hall
  have hrun := hall freshShim (traceNext Shim.next freshShim (closeAndReimport memfdFile))
    freshShim_initial (System.exec_traceNext _ _ _)
  have hlast : NamesLive ((runNext Shim.next freshShim (closeAndReimport memfdFile)).getD
      freshShim) :=
    hrun.2 (.primeFdToHandle (some memfdFile) true true, _) (List.mem_of_getLast? rfl)
  have hdead := hlast.bos 2 _ rfl (show 7 ≠ 0 by decide)
  exact absurd (show 7 ∈ [] from hdead) (by decide)

end Wldroid.DrmShim
