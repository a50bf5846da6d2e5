import Wldroid.Egl.SurfaceIdentity

/-!
# Where events arrive

Listeners keep the address of the slot that their window had when it was created.  A removal moves
the last window to another slot, and a slot that a failed creation has left is used again.

* `Listens` — the proxies of a window have listeners with a slot;
* `ReachesOwn` — events of live windows arrive at their slots, those of failed creations at no live
  one;
* `KeepsSlots` — only the last window is destroyed, and no window is put where a creation has failed
  that got as far as its `xdg_surface`;
* `reachesOwn_iff_keepsSlots` — the first holds in every state of a run exactly if the second holds
  of every step.
-/

namespace Wldroid.Egl

open Wldroid.Foundation

/-! ### The property -/

/-- The event is for one of the proxies of the window. -/
def WlEvent.IsFor (e : WlEvent) (win : ShmWindow) : Prop :=
  match e with
  | .surfaceConfigure proxy => win.xdgSurface = some proxy
  | .toplevelConfigure proxy _ _ => win.xdgToplevel = some proxy
  | .release proxy => ∃ i, win.wlBuffer i = some proxy

/-- An event is handled for the slot: it updates that entry, answers for it, and does nothing
else. -/
def EglState.HandlesFor (s : EglState) (e : WlEvent) (slot : ℕ) : Prop :=
  (s.deliver e).windows = Function.update s.windows slot ((s.windows slot).handle e) ∧
    (s.deliver e).sent = s.sent ++ (s.windows slot).answer e

/-- An event changes no live entry, and commits the surface of none. -/
def EglState.SparesLive (s : EglState) (e : WlEvent) : Prop :=
  (∀ slot < s.count, (s.deliver e).windows slot = s.windows slot) ∧
    ∃ requests, (s.deliver e).sent = s.sent ++ requests ∧
      ∀ slot < s.count, ∀ window, (s.windows slot).wlSurface = some window →
        .commit window ∉ requests

/-- Every event for a live window is handled for its slot, and none for a failed creation for a live
one. -/
def ReachesOwn (s : EglState) : Prop :=
  (∀ slot < s.count, ∀ e : WlEvent, e.IsFor (s.windows slot) → s.HandlesFor e slot) ∧
    ∀ entry ∈ s.failed, ∀ e : WlEvent, e.IsFor entry.1 → s.SparesLive e

/-- Only the last window is destroyed, and a window is added to the table only where no creation has
failed after it had created its `xdg_surface`. -/
def KeepsSlots (s : EglState) : EglEvent → Prop
  | .endWindow buffers pbuffer => buffers = .created → pbuffer.isSome = true →
      ∀ entry ∈ s.failed, entry.2 = s.count → entry.1.xdgSurface = none
  | .destroySurface surface => ∀ slot, s.findShmWindow surface = some slot → slot + 1 = s.count
  | _ => True

/-! ### The invariant -/

/-- The proxies of a window have listeners with the slot. -/
structure Listens (s : EglState) (win : ShmWindow) (slot : ℕ) : Prop where
  xdgSurface : ∀ proxy, win.xdgSurface = some proxy →
    proxy < s.fresh ∧ s.listener proxy = some (.xdgSurface slot)
  xdgToplevel : ∀ proxy, win.xdgToplevel = some proxy →
    proxy < s.fresh ∧ s.listener proxy = some (.xdgToplevel slot)
  wlBuffer : ∀ i proxy, win.wlBuffer i = some proxy →
    proxy < s.fresh ∧ s.listener proxy = some (.wlBuffer slot)

/-- The slots in use: those of the table, and that of a creation. -/
def EglState.InUse (s : EglState) (slot : ℕ) : Prop :=
  slot < s.count ∨ s.pc = .creating ∧ slot = s.count

/-- Windows in use have listeners with their slots; a failed creation that has any listeners has
left them with a slot beyond the table. -/
structure ListenersInv (s : EglState) : Prop where
  table : EglInv s
  live : ∀ slot, s.InUse slot → Listens s (s.windows slot) slot ∧
    (∃ proxy, (s.windows slot).xdgSurface = some proxy) ∧
    ∃ proxy, (s.windows slot).xdgToplevel = some proxy
  failed : ∀ entry ∈ s.failed, Listens s entry.1 entry.2 ∧
    (s.count ≤ entry.2 ∨ entry.1.xdgSurface = none) ∧
    (entry.1.xdgSurface = none → ∀ e : WlEvent, ¬ e.IsFor entry.1)

section Listeners

variable {s t : EglState} {win : ShmWindow} {slot : ℕ}

/-- An event for a window that listens with a slot is handled there. -/
theorem deliver_eq_handleAt {e : WlEvent} {listener : Listener}
    (hlistener : s.listener e.proxy = some listener) (hslot : listener.slotFor e = some slot) :
    s.deliver e = s.handleAt slot e := by
  unfold EglState.deliver
  rw [hlistener, Option.bind_some, hslot]

theorem Listens.deliver (h : Listens s win slot) {e : WlEvent} (he : e.IsFor win) :
    s.deliver e = s.handleAt slot e := by
  cases e with
  | surfaceConfigure proxy => exact deliver_eq_handleAt (h.xdgSurface proxy he).2 rfl
  | toplevelConfigure proxy width height => exact deliver_eq_handleAt (h.xdgToplevel proxy he).2 rfl
  | release proxy =>
    obtain ⟨i, hi⟩ := he
    exact deliver_eq_handleAt (h.wlBuffer i proxy hi).2 rfl

theorem Listens.handlesFor (h : Listens s (s.windows slot) slot) {e : WlEvent}
    (he : e.IsFor (s.windows slot)) : s.HandlesFor e slot := by
  unfold EglState.HandlesFor
  rw [h.deliver he]
  exact ⟨rfl, rfl⟩

/-- What an event does at a slot that is not live. -/
theorem EglInv.sparesLive (htable : EglInv s) (h : Listens s win slot) (hslot : s.count ≤ slot)
    {e : WlEvent} (he : e.IsFor win) : s.SparesLive e := by
  unfold EglState.SparesLive
  rw [h.deliver he]
  refine ⟨fun other hother => Function.update_of_ne (by omega) _ _, _, rfl,
    fun other hother window hwindow hcommit => ?_⟩
  cases e with
  | surfaceConfigure proxy =>
    -- the surface of that slot is not a live one
    cases hsurface : (s.windows slot).wlSurface with
    | none => simp [ShmWindow.answer, hsurface] at hcommit
    | some surface =>
      have hsame : window = surface := by simpa [ShmWindow.answer, hsurface] using hcommit
      have := htable.apart other slot window hwindow (hsame ▸ hsurface)
      omega
  | toplevelConfigure proxy width height => cases hcommit
  | release proxy => cases hcommit

theorem ListenersInv.reachesOwn (h : ListenersInv s) : ReachesOwn s := by
  refine ⟨fun slot hslot e he => (h.live slot (.inl hslot)).1.handlesFor he,
    fun entry hentry e he => ?_⟩
  obtain ⟨hlistens, hplace, hnone⟩ := h.failed entry hentry
  rcases hplace with hbeyond | hsurface
  · exact h.table.sparesLive hlistens hbeyond he
  · exact absurd he (hnone hsurface e)

/-- The listeners of old proxies stay. -/
theorem Listens.mono (h : Listens s win slot) (hfresh : s.fresh ≤ t.fresh)
    (hlistener : ∀ proxy < s.fresh, t.listener proxy = s.listener proxy) : Listens t win slot := by
  have hkeep : ∀ {proxy listener}, proxy < s.fresh ∧ s.listener proxy = some listener →
      proxy < t.fresh ∧ t.listener proxy = some listener := by
    rintro proxy listener ⟨hlt, hsome⟩
    exact ⟨lt_of_lt_of_le hlt hfresh, (hlistener proxy hlt).trans hsome⟩
  exact ⟨fun proxy hproxy => hkeep (h.xdgSurface proxy hproxy),
    fun proxy hproxy => hkeep (h.xdgToplevel proxy hproxy),
    fun i proxy hproxy => hkeep (h.wlBuffer i proxy hproxy)⟩

theorem Listens.onlyBuffers (h : Listens s (s.windows slot) slot) (hb : OnlyBuffers s t) :
    Listens t (t.windows slot) slot := by
  have hold := h.mono hb.fresh hb.listener
  obtain ⟨_, hxdg, htop⟩ := hb.proxies slot
  refine ⟨fun proxy hproxy => hold.xdgSurface proxy (hxdg ▸ hproxy),
    fun proxy hproxy => hold.xdgToplevel proxy (htop ▸ hproxy), fun i proxy hproxy => ?_⟩
  rcases hb.buffers slot i proxy hproxy with ⟨i', hwas⟩ | ⟨_, hlt, hlistener⟩
  · exact hold.wlBuffer i' proxy hwas
  · exact ⟨hlt, hlistener⟩

theorem Renewed.listens (h : Renewed s t slot) : Listens t (t.windows slot) slot :=
  ⟨fun proxy hproxy => (h.xdgSurface proxy hproxy).2,
    fun proxy hproxy => (h.xdgToplevel proxy hproxy).2,
    fun i proxy hproxy => by rw [h.wlBuffer i] at hproxy; cases hproxy⟩

/-- Windows in use with the proxies they had, in the slots they had. -/
theorem ListenersInv.of_windows (h : ListenersInv s) (ht : EglInv t) (hfresh : s.fresh ≤ t.fresh)
    (hlistener : ∀ proxy < s.fresh, t.listener proxy = s.listener proxy)
    (huse : ∀ slot, t.InUse slot → s.InUse slot ∧ (s.windows slot).SameProxies (t.windows slot) ∧
      (t.windows slot).wlBuffer = (s.windows slot).wlBuffer)
    (hfailed : ∀ entry ∈ t.failed, entry ∈ s.failed ∧
      (s.count ≤ entry.2 → t.count ≤ entry.2 ∨ entry.1.xdgSurface = none)) : ListenersInv t where
  table := ht
  live := by
    intro slot hslot
    obtain ⟨hold, ⟨_, hxdg, htop⟩, hbuffer⟩ := huse slot hslot
    obtain ⟨hlistens, hsurface, htoplevel⟩ := h.live slot hold
    have hstill := hlistens.mono hfresh hlistener
    rw [hxdg, htop]
    exact ⟨⟨hxdg ▸ hstill.xdgSurface, htop ▸ hstill.xdgToplevel, hbuffer ▸ hstill.wlBuffer⟩, hsurface,
      htoplevel⟩
  failed := by
    intro entry hentry
    obtain ⟨hold, hbeyond⟩ := hfailed entry hentry
    obtain ⟨hlistens, hplace, hnone⟩ := h.failed entry hold
    exact ⟨hlistens.mono hfresh hlistener, hplace.elim hbeyond .inr, hnone⟩

theorem ListenersInv.onlyBuffers (h : ListenersInv s) (hb : OnlyBuffers s t) : ListenersInv t where
  table := h.table.onlyBuffers hb
  live := by
    intro slot hslot
    unfold EglState.InUse at hslot
    rw [hb.count, hb.pc] at hslot
    obtain ⟨hlistens, hsurface, htoplevel⟩ := h.live slot hslot
    obtain ⟨_, hxdg, htop⟩ := hb.proxies slot
    rw [hxdg, htop]
    exact ⟨hlistens.onlyBuffers hb, hsurface, htoplevel⟩
  failed := by
    intro entry hentry
    rw [hb.failed] at hentry
    obtain ⟨hlistens, hplace, hnone⟩ := h.failed entry hentry
    exact ⟨hlistens.mono hb.fresh hb.listener, hb.count ▸ hplace, hnone⟩

/-- The same slots in use, after a call that has returned. -/
theorem ListenersInv.returned (h : ListenersInv s) (pc : EglAt) (ht : EglInv { s with pc := pc })
    (hpc : pc = .creating → s.pc = .creating) : ListenersInv { s with pc := pc } := by
  refine h.of_windows ht le_rfl (fun _ _ => rfl) (fun slot hslot => ⟨?_, .refl _, rfl⟩)
    fun entry hentry => ⟨hentry, .inl⟩
  rcases hslot with hlt | ⟨hcreating, hcount⟩
  · exact .inl hlt
  · exact .inr ⟨hpc hcreating, hcount⟩

theorem ListenersInv.withPbuffer (h : ListenersInv s) (slot pbuffer : ℕ) (surfaces : List ℕ) :
    ListenersInv (s.withPbuffer slot pbuffer surfaces) := by
  refine h.of_windows (h.table.withPbuffer slot pbuffer surfaces) le_rfl (fun _ _ => rfl)
    (fun other hother => ⟨hother, ?_⟩) fun entry hentry => ⟨hentry, .inl⟩
  by_cases hsame : other = slot
  · rw [hsame, withPbuffer_windows_self]
    exact ⟨⟨rfl, rfl, rfl⟩, rfl⟩
  · rw [withPbuffer_windows_other s hsame]
    exact ⟨.refl _, rfl⟩

theorem ListenersInv.beginWindow (h : ListenersInv s) (outcome : ProxiesOutcome) :
    ListenersInv (s.beginWindow outcome) := by
  have hr := beginWindow_renewed s outcome
  obtain ⟨hcount, _⟩ := beginWindow_count s outcome
  have hold : ∀ entry ∈ s.failed, Listens (s.beginWindow outcome) entry.1 entry.2 ∧
      ((s.beginWindow outcome).count ≤ entry.2 ∨ entry.1.xdgSurface = none) ∧
      (entry.1.xdgSurface = none → ∀ e : WlEvent, ¬ e.IsFor entry.1) := by
    intro entry hentry
    obtain ⟨hlistens, hplace, hnone⟩ := h.failed entry hentry
    exact ⟨hlistens.mono hr.fresh hr.listener, hcount ▸ hplace, hnone⟩
  refine ⟨h.table.beginWindow outcome, fun slot hslot => ?_, fun entry hentry => ?_⟩
  · unfold EglState.InUse at hslot
    rw [hcount] at hslot
    rcases hslot with hlt | ⟨hcreating, rfl⟩
    · obtain ⟨hlistens, hproxies⟩ := h.live slot (.inl hlt)
      rw [hr.windows slot (Nat.ne_of_lt hlt)]
      exact ⟨hlistens.mono hr.fresh hr.listener, hproxies⟩
    · rcases beginWindow_pc s outcome with ⟨hidle, _⟩ | ⟨_, _, _, hproxies⟩
      · rw [hidle] at hcreating
        cases hcreating
      · exact ⟨hr.listens, hproxies⟩
  · rcases beginWindow_pc s outcome with ⟨_, hfailed, htop⟩ | ⟨_, hfailed, _⟩
    · rw [hfailed] at hentry
      rcases List.mem_append.mp hentry with hentry | hentry
      · exact hold entry hentry
      · obtain rfl := List.mem_singleton.mp hentry
        refine ⟨hr.listens, .inl hcount.le, fun hxdg e he => ?_⟩
        cases e with
        | surfaceConfigure proxy =>
          rw [WlEvent.IsFor, hxdg] at he
          cases he
        | toplevelConfigure proxy width height =>
          rw [WlEvent.IsFor, htop] at he
          cases he
        | release proxy =>
          obtain ⟨i, hi⟩ := he
          rw [hr.wlBuffer i] at hi
          cases hi
    · exact hold entry (hfailed ▸ hentry)

theorem ListenersInv.abandon (h : ListenersInv s) (hcreating : s.pc = .creating) :
    ListenersInv s.abandon := by
  obtain ⟨hlistens, ⟨proxy, hproxy⟩, _⟩ := h.live s.count (.inr ⟨hcreating, rfl⟩)
  refine ⟨h.table.abandon, fun slot hslot => ?_, fun entry hentry => ?_⟩
  · rcases hslot with hlt | ⟨hstill, _⟩
    · obtain ⟨hlistens, hproxies⟩ := h.live slot (.inl hlt)
      exact ⟨hlistens.mono le_rfl fun _ _ => rfl, hproxies⟩
    · cases hstill
  · rcases List.mem_append.mp hentry with hentry | hentry
    · obtain ⟨hlistens, hplace, hnone⟩ := h.failed entry hentry
      exact ⟨hlistens.mono le_rfl fun _ _ => rfl, hplace, hnone⟩
    · obtain rfl := List.mem_singleton.mp hentry
      refine ⟨hlistens.mono le_rfl fun _ _ => rfl, .inl le_rfl, fun hnone => ?_⟩
      rw [show (s.windows s.count).xdgSurface = none from hnone] at hproxy
      cases hproxy

theorem ListenersInv.endWindow (h : ListenersInv s) (hcreating : s.pc = .creating)
    {buffers : BuffersOutcome} {pbuffer : Option ℕ}
    (hguard : KeepsSlots s (.endWindow buffers pbuffer)) :
    ListenersInv (s.endWindow buffers pbuffer) := by
  have ht := h.table.endWindow hcreating buffers pbuffer
  rcases endWindow_cases s buffers pbuffer with
    ⟨_, u, hu, hresult⟩ | ⟨u, surface, hu, hbuffers, hpbuffer, hresult⟩
  · exact ((h.onlyBuffers hu).abandon (hu.pc.trans hcreating)).onlyBuffers hresult
  · have hapart := hguard hbuffers (by rw [hpbuffer]; rfl)
    rw [hresult] at ht ⊢
    have hv := (h.onlyBuffers hu).withPbuffer s.count surface (surface :: u.surfaces)
    refine hv.of_windows ht le_rfl (fun _ _ => rfl) (fun slot hslot => ⟨?_, .refl _, rfl⟩)
      fun entry hentry => ⟨hentry, fun hbeyond => ?_⟩
    · rcases hslot with hlt | ⟨hstill, _⟩
      · rcases Nat.lt_succ_iff_lt_or_eq.mp hlt with hlt | heq
        · exact .inl hlt
        · exact .inr ⟨hu.pc.trans hcreating, heq⟩
      · cases hstill
    · -- a failed creation has left nothing in the slot
      have hplace := hapart entry (hu.failed ▸ hentry)
      change u.count ≤ entry.2 at hbeyond
      show u.count + 1 ≤ entry.2 ∨ _
      rw [hu.count] at hbeyond ⊢
      rcases Nat.lt_or_eq_of_le hbeyond with hlt | heq
      · exact .inl hlt
      · exact .inr (hplace heq.symm)

theorem ListenersInv.handleShmResize (h : ListenersInv s) (slot : ℕ) (outcome : ResizeOutcome) :
    ListenersInv (s.handleShmResize slot outcome).1 := by
  obtain ⟨pbuffer, surfaces, hbuffers, _⟩ := handleShmResize_spec s slot outcome
  exact (h.withPbuffer slot pbuffer surfaces).onlyBuffers hbuffers

theorem ListenersInv.beginSwap (h : ListenersInv s) (surface : ℕ) (outcome : ResizeOutcome)
    (gl : Bool) : ListenersInv (s.beginSwap surface outcome gl) := by
  have ht := h.table.beginSwap surface outcome gl
  rcases beginSwap_cases s surface outcome gl with ⟨_, hsame⟩ | ⟨slot, u, _, hu, hresult⟩
  · rwa [hsame]
  · have hinv : ListenersInv u := by
      rcases hu with ⟨_, rfl⟩ | ⟨_, rfl⟩
      · exact h
      · exact h.handleShmResize slot outcome
    rcases hresult with hbuffers | hwaits
    · exact hinv.onlyBuffers hbuffers
    · rw [hwaits] at ht ⊢
      exact hinv.returned _ ht fun hstill => by cases hstill

theorem ListenersInv.endSwap (h : ListenersInv s) (slot : ℕ) : ListenersInv (s.endSwap slot) :=
  (h.onlyBuffers (onlyBuffers_present s slot (s.windows slot).currentBuf)).returned .idle
    (h.table.endSwap slot) fun hstill => by cases hstill

theorem ListenersInv.eglDestroySurface (h : ListenersInv s) (hidle : s.pc = .idle) {surface : ℕ}
    (hguard : KeepsSlots s (.destroySurface surface)) :
    ListenersInv (s.eglDestroySurface surface) := by
  have ht := h.table.eglDestroySurface hidle surface
  cases hfind : s.findShmWindow surface with
  | none =>
    rw [eglDestroySurface_eq_of_none hfind] at ht ⊢
    exact h.of_windows ht le_rfl (fun _ _ => rfl) (fun slot hslot => ⟨hslot, .refl _, rfl⟩)
      fun entry hentry => ⟨hentry, .inl⟩
  | some slot =>
    have hlast := hguard slot hfind
    obtain ⟨u, hu, _, _, hresult⟩ := eglDestroySurface_eq hfind
    rw [hresult] at ht ⊢
    have hcount := hu.count
    refine (h.onlyBuffers hu).of_windows ht le_rfl (fun _ _ => rfl) (fun other hother => ?_)
      fun entry hentry => ⟨hentry, fun hbeyond => .inl ?_⟩
    · rcases hother with hlt | ⟨hstill, _⟩
      · have hle : other < u.count - 1 := hlt
        refine ⟨.inl (by omega), ?_⟩
        change (u.windows other).SameProxies ((u.removeWindow slot).windows other) ∧
          ((u.removeWindow slot).windows other).wlBuffer = _
        rw [removeWindow_windows hle, if_neg (by omega)]
        exact ⟨.refl _, rfl⟩
      · rw [show s.pc = .creating from hu.pc.symm.trans hstill] at hidle
        cases hidle
    · show u.count - 1 ≤ entry.2
      omega

theorem ListenersInv.step (h : ListenersInv s) {e : EglEvent} (hguard : KeepsSlots s e)
    (hstep : EglStep s e t) : ListenersInv t := by
  cases hstep with
  | full outcome => exact h
  | beginWindow outcome hidle => exact h.beginWindow outcome
  | endWindow buffers pbuffer hcreating hfresh => exact h.endWindow hcreating hguard
  | beginSwap surface outcome gl hidle hfresh => exact h.beginSwap surface outcome gl
  | endSwap slot hswapping => exact h.endSwap slot
  | destroySurface surface hidle => exact h.eglDestroySurface hidle hguard
  | deliver e => exact h.onlyBuffers (onlyBuffers_deliver s e)

/-! ### Lost events -/

/-- A size that a window has not been asked for yet. -/
theorem ShmWindow.exists_handle_ne (win : ShmWindow) :
    ∃ width height, ∀ proxy, win.handle (.toplevelConfigure proxy width height) ≠ win := by
  refine ⟨max |win.width| |win.pendingWidth| + 1, 1, fun proxy hsame => ?_⟩
  have hwidth := le_max_left |win.width| |win.pendingWidth|
  have hpending := le_max_right |win.width| |win.pendingWidth|
  have hwidth' := le_abs_self win.width
  have hpending' := le_abs_self win.pendingWidth
  have hnonneg := abs_nonneg win.width
  have hpassed : max |win.width| |win.pendingWidth| + 1 > 0 ∧ (1 : ℤ) > 0 ∧
      (max |win.width| |win.pendingWidth| + 1 ≠ win.width ∨ 1 ≠ win.height) :=
    ⟨by omega, by omega, .inl (by omega)⟩
  simp only [ShmWindow.handle, if_pos hpassed] at hsame
  have hasked := congrArg ShmWindow.pendingWidth hsame
  simp only at hasked
  omega

/-- The window that a removal moves does not get its events any more. -/
theorem ListenersInv.moved (h : ListenersInv s) {surface : ℕ}
    (hfind : s.findShmWindow surface = some slot) (hlast : slot + 1 ≠ s.count) :
    ¬ ReachesOwn (s.eglDestroySurface surface) := by
  have hslot := (findShmWindow_eq_some hfind).1
  obtain ⟨u, hu, _, _, hresult⟩ := eglDestroySurface_eq hfind
  have hcount := hu.count
  obtain ⟨hlistens, _, ⟨proxy, hproxy⟩⟩ := h.live (s.count - 1) (.inl (by omega))
  have hproxy' : (u.windows (s.count - 1)).xdgToplevel = some proxy :=
    (hu.proxies _).2.2.trans hproxy
  obtain ⟨width, height, hne⟩ := (u.windows (s.count - 1)).exists_handle_ne
  generalize s.eglDestroySurface surface = t at hresult ⊢
  have hmoved : t.windows slot = u.windows (s.count - 1) := by
    rw [hresult]
    show (u.removeWindow slot).windows slot = _
    rw [removeWindow_windows (show slot < u.count - 1 by omega), if_pos rfl, hcount]
  have hlistener : t.listener proxy = some (.xdgToplevel (s.count - 1)) := by
    rw [hresult]
    exact ((hlistens.onlyBuffers hu).xdgToplevel proxy hproxy').2
  have hlive : slot < t.count := by
    rw [hresult]
    show slot < u.count - 1
    omega
  rintro ⟨hown, _⟩
  have hhandled := (hown slot hlive (.toplevelConfigure proxy width height) (by
    rw [hmoved]
    exact hproxy')).1
  -- the listener still has the slot that the window has left
  rw [deliver_eq_handleAt (e := .toplevelConfigure proxy width height) hlistener rfl] at hhandled
  have hthere := congrFun hhandled slot
  rw [Function.update_self] at hthere
  change Function.update t.windows (s.count - 1) _ slot = (t.windows slot).handle _ at hthere
  rw [Function.update_of_ne (by omega), hmoved] at hthere
  exact hne proxy hthere.symm

/-- A window in the slot of a failed creation is committed when that is configured. -/
theorem ListenersInv.reused (h : ListenersInv s) (hcreating : s.pc = .creating)
    {buffers : BuffersOutcome} {pbuffer : Option ℕ}
    (hguard : ¬ KeepsSlots s (.endWindow buffers pbuffer)) :
    ¬ ReachesOwn (s.endWindow buffers pbuffer) := by
  simp only [KeepsSlots, not_forall] at hguard
  obtain ⟨hcreated, hsome, entry, hentry, hplace, hxdg⟩ := hguard
  obtain ⟨proxy, hproxy⟩ := Option.ne_none_iff_exists'.mp hxdg
  rcases endWindow_cases s buffers pbuffer with
    ⟨hfails, _⟩ | ⟨u, surface, hu, _, _, hresult⟩
  · exact absurd ⟨hcreated, hsome⟩ hfails
  · obtain ⟨window, hwindow⟩ := h.table.shown s.count (.inr ⟨hcreating, rfl⟩)
    generalize s.endWindow buffers pbuffer = t at hresult ⊢
    have hlistener : t.listener proxy = some (.xdgSurface s.count) := by
      obtain ⟨hlistens, _⟩ := h.failed entry hentry
      rw [hresult, ← hplace]
      exact ((hlistens.mono hu.fresh hu.listener).xdgSurface proxy hproxy).2
    have hshown : (t.windows s.count).wlSurface = some window := by
      rw [hresult, withPbuffer_wlSurface, (hu.proxies s.count).1, hwindow]
    have hlive : s.count < t.count := by
      rw [hresult]
      show s.count < u.count + 1
      rw [hu.count]
      omega
    have hfailed : t.failed = s.failed := by
      rw [hresult]
      exact hu.failed
    rintro ⟨_, hspares⟩
    obtain ⟨_, requests, hsent, hnone⟩ := hspares entry (hfailed.symm ▸ hentry)
      (.surfaceConfigure proxy) hproxy
    refine hnone s.count hlive window hshown ?_
    rw [deliver_eq_handleAt (e := .surfaceConfigure proxy) hlistener rfl] at hsent
    have hanswer := List.append_cancel_left (hsent : t.sent ++ _ = t.sent ++ requests)
    rw [← hanswer]
    show WlRequest.commit window ∈ ShmWindow.answer _ _
    simp only [ShmWindow.answer, List.mem_cons, List.mem_map]
    exact .inr ⟨window, by rw [hshown]; exact List.mem_singleton.mpr rfl, rfl⟩

end Listeners

/-! ### Runs -/

/-- **Where events arrive.**  In every state of a run the events of every live window arrive at its
entry, and those of failed creations at no live one, exactly if the run destroys only the last
window of the table, and adds none to it where a creation has failed after it had created its
`xdg_surface`. -/
theorem reachesOwn_iff_keepsSlots {s : EglState} {run : List (EglEvent × EglState)}
    (hinit : s.Initial) (hrun : eglSystem.Exec s run) :
    AllStates ReachesOwn s run ↔ AllSteps KeepsSlots s run := by
  have hinv : ListenersInv s := by
    obtain ⟨_, hcount, hpc, _, _, hfailed⟩ := id hinit
    refine ⟨eglInv_of_initial hinit, fun slot hslot => ?_, fun entry hentry => ?_⟩
    · rcases hslot with hlt | ⟨hcreating, _⟩
      · rw [hcount] at hlt
        exact absurd hlt (Nat.not_lt_zero _)
      · rw [hpc] at hcreating
        cases hcreating
    · rw [hfailed] at hentry
      cases hentry
  refine System.allStates_iff_allSteps (S := eglSystem) (fun _ h => h.reachesOwn) ?_ ?_ hinv hrun
  · intro s e t h hstep hguard
    exact h.step hguard (eglStep_of_next hstep)
  · intro s e t h hstep hguard
    cases eglStep_of_next hstep with
    | endWindow buffers pbuffer hcreating hfresh => exact h.reused hcreating hguard
    | destroySurface surface hidle =>
      simp only [KeepsSlots, not_forall] at hguard
      obtain ⟨slot, hfind, hlast⟩ := hguard
      exact h.moved hfind hlast
    | full outcome => exact absurd trivial hguard
    | beginWindow outcome hidle => exact absurd trivial hguard
    | beginSwap surface outcome gl hidle hfresh => exact absurd trivial hguard
    | endSwap slot hswapping => exact absurd trivial hguard
    | deliver e => exact absurd trivial hguard

/-- Two windows are created. -/
def createTwo : List EglEvent :=
  [.beginWindow .created, .endWindow .created (some 1), .beginWindow .created,
    .endWindow .created (some 2)]

/-- They are destroyed in the order in which the last one does not move. -/
def destroyBackwards : List EglEvent := createTwo ++ [.destroySurface 2, .destroySurface 1]

theorem reachesOwn_destroyBackwards :
    AllStates ReachesOwn freshEgl (traceNext EglState.next freshEgl destroyBackwards) := by
  refine (reachesOwn_iff_keepsSlots freshEgl_initial (System.exec_traceNext _ _ _)).mpr ?_
  refine ⟨trivial, ?_, trivial, ?_, ?_, ?_, trivial⟩
  · intro _ _ entry hentry
    cases hentry
  · intro _ _ entry hentry
    cases hentry
  · intro slot hfind
    cases hfind
    rfl
  · intro slot hfind
    cases hfind
    rfl

/-- The first of two windows is destroyed. -/
def destroyFirst : List EglEvent := createTwo ++ [.destroySurface 1]

/-- A configure event of the other one does not arrive at its entry. -/
theorem destroyFirst_lost :
    ¬ ∀ (s : EglState) (run : List (EglEvent × EglState)), s.Initial → eglSystem.Exec s run →
      AllStates ReachesOwn s run := by
  intro hall
  have hlast := (hall freshEgl _ freshEgl_initial
    (System.exec_traceNext EglState.Initial EglState.next destroyFirst)).last
  have hhandled := (hlast.1 0 (by decide) (.toplevelConfigure 8 1280 720) rfl).1
  have hasked := congrArg (fun windows => (windows 0).pendingWidth) hhandled
  revert hasked
  decide

end Wldroid.Egl
