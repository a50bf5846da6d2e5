import Wldroid.Egl.ShmWindows

/-!
# The table of windows in all runs

Which Wayland surface is in which slot tells the windows apart.  Every call keeps the surfaces of
different slots different, and gives every window one.

* `Renewed`, `OnlyBuffers` — what a creation and all that has to do with buffers change;
* `EglInv` — the invariant;
* `EglStep` — the steps, and `EglInv.step` — every step keeps the invariant.
-/

namespace Wldroid.Egl

open Wldroid.Foundation

/-! ### A new window -/

/-- From `s` to `t` a slot is started afresh: what it has now are new proxies, whose listeners have
the slot. -/
structure Renewed (s t : EglState) (slot : ℕ) : Prop where
  fresh : s.fresh ≤ t.fresh
  windows : ∀ other, other ≠ slot → t.windows other = s.windows other
  listener : ∀ proxy < s.fresh, t.listener proxy = s.listener proxy
  wlSurface : ∀ proxy, (t.windows slot).wlSurface = some proxy → s.fresh ≤ proxy ∧ proxy < t.fresh
  xdgSurface : ∀ proxy, (t.windows slot).xdgSurface = some proxy →
    s.fresh ≤ proxy ∧ proxy < t.fresh ∧ t.listener proxy = some (.xdgSurface slot)
  xdgToplevel : ∀ proxy, (t.windows slot).xdgToplevel = some proxy →
    s.fresh ≤ proxy ∧ proxy < t.fresh ∧ t.listener proxy = some (.xdgToplevel slot)
  wlBuffer : ∀ i, (t.windows slot).wlBuffer i = none
  pbuffer : (t.windows slot).pbufferSurface = 0

/-- A proxy is created for the slot, and `f` puts it there. -/
theorem Renewed.newProxy {s t : EglState} {slot : ℕ} (h : Renewed s t slot)
    (listener : Option Listener) {f : ShmWindow → ShmWindow}
    (hwl : ∀ proxy, (f (t.windows slot)).wlSurface = some proxy →
      (t.windows slot).wlSurface = some proxy ∨ t.fresh = proxy)
    (hxdg : ∀ proxy, (f (t.windows slot)).xdgSurface = some proxy →
      (t.windows slot).xdgSurface = some proxy ∨
        t.fresh = proxy ∧ listener = some (.xdgSurface slot))
    (htop : ∀ proxy, (f (t.windows slot)).xdgToplevel = some proxy →
      (t.windows slot).xdgToplevel = some proxy ∨
        t.fresh = proxy ∧ listener = some (.xdgToplevel slot))
    (hbuffer : (f (t.windows slot)).wlBuffer = (t.windows slot).wlBuffer)
    (hpbuffer : (f (t.windows slot)).pbufferSurface = (t.windows slot).pbufferSurface) :
    Renewed s ((t.newProxy listener).modify slot f) slot := by
  have hself : ((t.newProxy listener).modify slot f).windows slot = f (t.windows slot) :=
    Function.update_self _ _ _
  have hold : ∀ proxy < t.fresh,
      ((t.newProxy listener).modify slot f).listener proxy = t.listener proxy :=
    fun proxy hlt => Function.update_of_ne (Nat.ne_of_lt hlt) _ _
  have hnew : ((t.newProxy listener).modify slot f).listener t.fresh = listener :=
    Function.update_self _ _ _
  have hfresh : ((t.newProxy listener).modify slot f).fresh = t.fresh + 1 := rfl
  have hle := h.fresh
  refine ⟨by omega, fun other hne => ?_, fun proxy hlt => ?_, fun proxy hproxy => ?_,
    fun proxy hproxy => ?_, fun proxy hproxy => ?_, fun i => ?_, ?_⟩
  · exact (Function.update_of_ne hne _ _).trans (h.windows other hne)
  · rw [hold proxy (by omega)]
    exact h.listener proxy hlt
  · rw [hself] at hproxy
    rcases hwl proxy hproxy with hwas | rfl
    · have := h.wlSurface proxy hwas
      omega
    · omega
  · rw [hself] at hproxy
    rcases hxdg proxy hproxy with hwas | ⟨rfl, hlistener⟩
    · obtain ⟨hge, hlt, hlistener⟩ := h.xdgSurface proxy hwas
      exact ⟨hge, by omega, (hold proxy hlt).trans hlistener⟩
    · exact ⟨hle, by omega, hnew.trans hlistener⟩
  · rw [hself] at hproxy
    rcases htop proxy hproxy with hwas | ⟨rfl, hlistener⟩
    · obtain ⟨hge, hlt, hlistener⟩ := h.xdgToplevel proxy hwas
      exact ⟨hge, by omega, (hold proxy hlt).trans hlistener⟩
    · exact ⟨hle, by omega, hnew.trans hlistener⟩
  · rw [hself, hbuffer]
    exact h.wlBuffer i
  · rw [hself, hpbuffer]
    exact h.pbuffer

section Proxies

variable {s t : EglState} {slot : ℕ}

theorem renewed_zero (s : EglState) (slot : ℕ) :
    Renewed s (s.modify slot fun _ => ShmWindow.zero) slot := by
  have hself : (s.modify slot fun _ => ShmWindow.zero).windows slot = ShmWindow.zero :=
    Function.update_self _ _ _
  refine ⟨le_rfl, fun other hne => Function.update_of_ne hne _ _, fun _ _ => rfl,
    fun _ h => ?_, fun _ h => ?_, fun _ h => ?_, fun i => ?_, ?_⟩
  · rw [hself] at h
    cases h
  · rw [hself] at h
    cases h
  · rw [hself] at h
    cases h
  · rw [hself]
    rfl
  · rw [hself]
    rfl

theorem Renewed.newWlSurface (h : Renewed s t slot) : Renewed s (t.newWlSurface slot) slot :=
  h.newProxy none (fun _ hproxy => .inr (Option.some.inj hproxy)) (fun _ => .inl) (fun _ => .inl)
    rfl rfl

theorem Renewed.newXdgSurface (h : Renewed s t slot) : Renewed s (t.newXdgSurface slot) slot :=
  h.newProxy _ (fun _ => .inl) (fun _ hproxy => .inr ⟨Option.some.inj hproxy, rfl⟩) (fun _ => .inl)
    rfl rfl

theorem Renewed.newXdgToplevel (h : Renewed s t slot) : Renewed s (t.newXdgToplevel slot) slot :=
  h.newProxy _ (fun _ => .inl) (fun _ => .inl) (fun _ hproxy => .inr ⟨Option.some.inj hproxy, rfl⟩)
    rfl rfl

/-- Up to its roundtrip a creation starts its slot afresh; either it has failed then, or the window
has all three proxies. -/
theorem beginWindow_renewed (s : EglState) (outcome : ProxiesOutcome) :
    Renewed s (s.beginWindow outcome) s.count := by
  have hzero := renewed_zero s s.count
  cases outcome with
  | noSurface => exact { hzero with }
  | noXdgSurface => exact { hzero.newWlSurface with }
  | noToplevel => exact { hzero.newWlSurface.newXdgSurface with }
  | created => exact { hzero.newWlSurface.newXdgSurface.newXdgToplevel with }

theorem beginWindow_count (s : EglState) (outcome : ProxiesOutcome) :
    (s.beginWindow outcome).count = s.count ∧ (s.beginWindow outcome).held = s.held ∧
      (s.beginWindow outcome).surfaces = s.surfaces := by
  cases outcome <;> exact ⟨rfl, rfl, rfl⟩

theorem beginWindow_pc (s : EglState) (outcome : ProxiesOutcome) :
    (s.beginWindow outcome).pc = .idle ∧
        (s.beginWindow outcome).failed =
          s.failed ++ [((s.beginWindow outcome).windows s.count, s.count)] ∧
        ((s.beginWindow outcome).windows s.count).xdgToplevel = none ∨
      (s.beginWindow outcome).pc = .creating ∧ (s.beginWindow outcome).failed = s.failed ∧
        (∃ proxy, ((s.beginWindow outcome).windows s.count).wlSurface = some proxy) ∧
        (∃ proxy, ((s.beginWindow outcome).windows s.count).xdgSurface = some proxy) ∧
        ∃ proxy, ((s.beginWindow outcome).windows s.count).xdgToplevel = some proxy := by
  cases outcome with
  | noSurface =>
    refine .inl ⟨rfl, rfl, ?_⟩
    simp [EglState.beginWindow, EglState.abandon, EglState.modify, ShmWindow.zero]
  | noXdgSurface =>
    refine .inl ⟨rfl, rfl, ?_⟩
    simp [EglState.beginWindow, EglState.abandon, EglState.newWlSurface, EglState.modify,
      EglState.newProxy, ShmWindow.zero]
  | noToplevel =>
    refine .inl ⟨rfl, rfl, ?_⟩
    simp [EglState.beginWindow, EglState.abandon, EglState.newXdgSurface, EglState.newWlSurface,
      EglState.modify, EglState.newProxy, ShmWindow.zero]
  | created =>
    refine .inr ⟨rfl, rfl, ⟨s.fresh, ?_⟩, ⟨s.fresh + 1, ?_⟩, ⟨s.fresh + 2, ?_⟩⟩ <;>
      simp [EglState.beginWindow, EglState.newXdgToplevel, EglState.newXdgSurface,
        EglState.newWlSurface, EglState.modify, EglState.newProxy, EglState.send]

end Proxies

/-! ### The invariant -/

/-- Every window has a surface of its own. -/
structure EglInv (s : EglState) : Prop where
  known : ∀ slot window, (s.windows slot).wlSurface = some window → window < s.fresh
  apart : ∀ slot slot' window, (s.windows slot).wlSurface = some window →
    (s.windows slot').wlSurface = some window → slot = slot'
  shown : ∀ slot, slot < s.count ∨ s.pc = .creating ∧ slot = s.count →
    ∃ window, (s.windows slot).wlSurface = some window
  swapping : ∀ slot, s.pc = .swapping slot → slot < s.count

section Table

variable {s t : EglState}

theorem eglInv_of_initial (h : s.Initial) : EglInv s := by
  obtain ⟨hwindows, hcount, hpc, _⟩ := h
  have hnone : ∀ slot, (s.windows slot).wlSurface = none := fun slot => by
    rw [hwindows slot]
    rfl
  refine ⟨fun slot window hslot => ?_, fun slot _ window hslot => ?_, fun slot hslot => ?_,
    fun slot hslot => ?_⟩
  · rw [hnone slot] at hslot
    cases hslot
  · rw [hnone slot] at hslot
    cases hslot
  · rw [hcount, hpc] at hslot
    rcases hslot with hlt | ⟨hcreating, _⟩
    · exact absurd hlt (Nat.not_lt_zero _)
    · cases hcreating
  · rw [hpc] at hslot
    cases hslot

/-- With the surfaces where they were. -/
theorem EglInv.of_surfaces (h : EglInv s) (hfresh : s.fresh ≤ t.fresh)
    (hsame : ∀ slot, (t.windows slot).wlSurface = (s.windows slot).wlSurface)
    (hshown : ∀ slot, slot < t.count ∨ t.pc = .creating ∧ slot = t.count →
      slot < s.count ∨ s.pc = .creating ∧ slot = s.count)
    (hswapping : ∀ slot, t.pc = .swapping slot → slot < t.count) : EglInv t where
  known := by
    intro slot window hslot
    rw [hsame] at hslot
    exact lt_of_lt_of_le (h.known slot window hslot) hfresh
  apart := by
    intro slot slot' window hslot hslot'
    rw [hsame] at hslot hslot'
    exact h.apart slot slot' window hslot hslot'
  shown := by
    intro slot hslot
    rw [hsame]
    exact h.shown slot (hshown slot hslot)
  swapping := hswapping

theorem EglInv.onlyBuffers (h : EglInv s) (hb : OnlyBuffers s t) : EglInv t := by
  refine h.of_surfaces hb.fresh (fun slot => (hb.proxies slot).1) (fun slot hslot => ?_)
    fun slot hslot => ?_
  · rwa [hb.count, hb.pc] at hslot
  · rw [hb.count]
    exact h.swapping slot (hb.pc.symm.trans hslot)

/-- A slot that is not in use is started afresh. -/
theorem EglInv.renew (h : EglInv s) {slot : ℕ} (hr : Renewed s t slot)
    (hshown : ∀ other, other < t.count ∨ t.pc = .creating ∧ other = t.count →
      (other < s.count ∧ other ≠ slot) ∨
        other = slot ∧ ∃ window, (t.windows slot).wlSurface = some window)
    (hswapping : ∀ other, t.pc = .swapping other → other < t.count) : EglInv t where
  known := by
    intro other window hwindow
    by_cases heq : other = slot
    · rw [heq] at hwindow
      exact (hr.wlSurface window hwindow).2
    · rw [hr.windows other heq] at hwindow
      exact lt_of_lt_of_le (h.known other window hwindow) hr.fresh
  apart := by
    -- the new surface is not one of the old ones
    have hnew : ∀ other window, other ≠ slot → (t.windows other).wlSurface = some window →
        (t.windows slot).wlSurface ≠ some window := by
      intro other window hne hwindow hwindow'
      rw [hr.windows other hne] at hwindow
      have hlt := h.known other window hwindow
      have hge := (hr.wlSurface window hwindow').1
      omega
    intro a b window ha hb
    by_cases haslot : a = slot
    · by_cases hbslot : b = slot
      · rw [haslot, hbslot]
      · exact absurd (haslot ▸ ha) (hnew b window hbslot hb)
    · by_cases hbslot : b = slot
      · exact absurd (hbslot ▸ hb) (hnew a window haslot ha)
      · rw [hr.windows a haslot] at ha
        rw [hr.windows b hbslot] at hb
        exact h.apart a b window ha hb
  shown := by
    intro other hwanted
    rcases hshown other hwanted with ⟨hlt, hne⟩ | ⟨rfl, hsome⟩
    · rw [hr.windows other hne]
      exact h.shown other (.inl hlt)
    · exact hsome
  swapping := hswapping

/-- The windows after a removal: the last one has moved into the slot. -/
theorem removeWindow_windows {slot other : ℕ}
    (hother : other < (s.removeWindow slot).count) :
    (s.removeWindow slot).windows other =
      if other = slot then s.windows (s.count - 1) else s.windows other := by
  have hlt : other < s.count - 1 := hother
  show Function.update (Function.update s.windows slot _) _ _ other = _
  rw [Function.update_of_ne (by omega)]
  by_cases heq : other = slot
  · rw [heq, Function.update_self, if_pos rfl]
  · rw [Function.update_of_ne heq, if_neg heq]

/-- A removal moves the last window to where the removed one has been. -/
theorem removeWindow_slots {slot : ℕ} (hslot : slot < s.count) (P : ShmWindow → Prop) :
    (∃ other < (s.removeWindow slot).count, P ((s.removeWindow slot).windows other)) ↔
      ∃ other < s.count, other ≠ slot ∧ P (s.windows other) := by
  have hcount : (s.removeWindow slot).count = s.count - 1 := rfl
  constructor
  · rintro ⟨other, hlt, hP⟩
    rw [removeWindow_windows hlt] at hP
    rw [hcount] at hlt
    split at hP
    · exact ⟨s.count - 1, by omega, by omega, hP⟩
    · exact ⟨other, by omega, by assumption, hP⟩
  · rintro ⟨other, hlt, hne, hP⟩
    by_cases hlast : other = s.count - 1
    · refine ⟨slot, by omega, ?_⟩
      rwa [removeWindow_windows (by omega), if_pos rfl, ← hlast]
    · refine ⟨other, by omega, ?_⟩
      rwa [removeWindow_windows (by omega), if_neg hne]

theorem EglInv.removeWindow (h : EglInv s) {slot : ℕ} (hslot : slot < s.count)
    (hidle : s.pc = .idle) : EglInv (s.removeWindow slot) := by
  -- every surface that is left was in the table before, at a place that tells its new one
  have hback : ∀ other window, ((s.removeWindow slot).windows other).wlSurface = some window →
      other ≠ s.count - 1 ∧ ∃ old, (s.windows old).wlSurface = some window ∧
        (other = slot ∧ old = s.count - 1 ∨ other ≠ slot ∧ old = other) := by
    intro other window hwindow
    by_cases hlast : other = s.count - 1
    · change (Function.update (Function.update s.windows slot _) _ _ other).wlSurface = _ at hwindow
      rw [hlast, Function.update_self] at hwindow
      cases hwindow
    · change (Function.update (Function.update s.windows slot _) _ _ other).wlSurface = _ at hwindow
      rw [Function.update_of_ne hlast] at hwindow
      refine ⟨hlast, ?_⟩
      by_cases heq : other = slot
      · rw [heq, Function.update_self] at hwindow
        exact ⟨_, hwindow, .inl ⟨heq, rfl⟩⟩
      · rw [Function.update_of_ne heq] at hwindow
        exact ⟨_, hwindow, .inr ⟨heq, rfl⟩⟩
  refine ⟨fun other window hwindow => ?_, fun a b window ha hb => ?_, fun other hother => ?_,
    fun other hother => ?_⟩
  · obtain ⟨_, old, hold, _⟩ := hback other window hwindow
    exact h.known old window hold
  · obtain ⟨hlast, old, hold, hplace⟩ := hback a window ha
    obtain ⟨hlast', old', hold', hplace'⟩ := hback b window hb
    have hsame := h.apart old old' window hold hold'
    omega
  · have hlt : other < s.count - 1 := by
      rcases hother with hlt | ⟨hcreating, _⟩
      · exact hlt
      · rw [show s.pc = _ from hcreating] at hidle
        cases hidle
    rw [removeWindow_windows hlt]
    split
    · exact h.shown _ (.inl (by omega))
    · exact h.shown _ (.inl (by omega))
  · rw [show s.pc = _ from hother] at hidle
    cases hidle

/-! ### Finding windows -/

theorem findShmWindow_eq_some {surface slot : ℕ} (h : s.findShmWindow surface = some slot) :
    slot < s.count ∧ (s.windows slot).pbufferSurface = surface :=
  ⟨List.mem_range.mp (List.mem_of_find?_eq_some h), by simpa using List.find?_some h⟩

theorem findShmWindow_eq_none {surface : ℕ} :
    s.findShmWindow surface = none ↔
      ∀ slot < s.count, (s.windows slot).pbufferSurface ≠ surface := by
  unfold EglState.findShmWindow
  rw [List.find?_eq_none]
  simp [List.mem_range]

/-! ### Calls -/

/-- Another pbuffer for a window. -/
def EglState.withPbuffer (s : EglState) (slot pbuffer : ℕ) (surfaces : List ℕ) : EglState :=
  { s.modify slot fun win => { win with pbufferSurface := pbuffer } with surfaces := surfaces }

theorem withPbuffer_wlSurface (s : EglState) (slot pbuffer : ℕ) (surfaces : List ℕ) (other : ℕ) :
    ((s.withPbuffer slot pbuffer surfaces).windows other).wlSurface =
      (s.windows other).wlSurface := by
  by_cases hother : other = slot
  · subst hother
    show (Function.update s.windows other _ other).wlSurface = _
    rw [Function.update_self]
  · exact congrArg ShmWindow.wlSurface (Function.update_of_ne hother _ _)

theorem EglInv.withPbuffer (h : EglInv s) (slot pbuffer : ℕ) (surfaces : List ℕ) :
    EglInv (s.withPbuffer slot pbuffer surfaces) :=
  h.of_surfaces le_rfl (withPbuffer_wlSurface s slot pbuffer surfaces) (fun _ => id) h.swapping

theorem withPbuffer_windows_other (s : EglState) {slot other : ℕ} (hother : other ≠ slot)
    (pbuffer : ℕ) (surfaces : List ℕ) :
    (s.withPbuffer slot pbuffer surfaces).windows other = s.windows other :=
  Function.update_of_ne hother _ _

theorem withPbuffer_windows_self (s : EglState) (slot pbuffer : ℕ) (surfaces : List ℕ) :
    (s.withPbuffer slot pbuffer surfaces).windows slot =
      { s.windows slot with pbufferSurface := pbuffer } :=
  Function.update_self _ _ _

theorem OnlyBuffers.withPbuffer (h : OnlyBuffers s t) (slot pbuffer : ℕ) (surfaces : List ℕ) :
    OnlyBuffers (s.withPbuffer slot pbuffer surfaces) (t.withPbuffer slot pbuffer surfaces) := by
  refine ⟨h.count, h.pc, h.held, rfl, h.failed, h.fresh, fun other => ?_, fun other => ?_,
    h.listener, fun other i proxy hproxy => ?_⟩
  · by_cases hother : other = slot
    · rw [hother, withPbuffer_windows_self, withPbuffer_windows_self]
      exact h.proxies slot
    · rw [withPbuffer_windows_other t hother, withPbuffer_windows_other s hother]
      exact h.proxies other
  · by_cases hother : other = slot
    · rw [hother, withPbuffer_windows_self, withPbuffer_windows_self]
    · rw [withPbuffer_windows_other t hother, withPbuffer_windows_other s hother]
      exact h.pbuffer other
  · by_cases hother : other = slot
    · rw [hother, withPbuffer_windows_self] at hproxy
      rw [hother, withPbuffer_windows_self]
      exact h.buffers slot i proxy hproxy
    · rw [withPbuffer_windows_other t hother] at hproxy
      rw [withPbuffer_windows_other s hother]
      exact h.buffers other i proxy hproxy

theorem withPbuffer_withPbuffer (s : EglState) (slot pbuffer pbuffer' : ℕ)
    (surfaces surfaces' : List ℕ) :
    (s.withPbuffer slot pbuffer surfaces).withPbuffer slot pbuffer' surfaces' =
      s.withPbuffer slot pbuffer' surfaces' := by
  simp [EglState.withPbuffer, EglState.modify]

/-- A resize replaces the pbuffer of its window, or leaves it without one. -/
theorem handleShmResize_spec (s : EglState) (slot : ℕ) (outcome : ResizeOutcome) :
    ∃ pbuffer surfaces,
      OnlyBuffers (s.withPbuffer slot pbuffer surfaces) (s.handleShmResize slot outcome).1 ∧
        ((s.handleShmResize slot outcome).2 = true ∧ outcome.pbuffer = some pbuffer ∧
            surfaces = pbuffer ::
              s.surfaces.filter (fun surface => surface ≠ (s.windows slot).pbufferSurface) ∨
          (s.handleShmResize slot outcome).2 = false ∧ pbuffer = 0 ∧
            surfaces =
              s.surfaces.filter (fun surface => surface ≠ (s.windows slot).pbufferSurface)) := by
  have hold : ((s.destroyShmBuffers slot).windows slot).pbufferSurface =
      (s.windows slot).pbufferSurface := (onlyBuffers_destroyShmBuffers s slot).pbuffer slot
  have hcleared := (onlyBuffers_destroyShmBuffers s slot).withPbuffer slot 0
    (s.surfaces.filter fun surface => surface ≠ (s.windows slot).pbufferSurface)
  have hcreated := hcleared.trans (onlyBuffers_createShmBuffers _ slot outcome.buffers)
  unfold EglState.handleShmResize
  simp only [hold]
  split
  · rename_i u heq
    refine ⟨0, _, ?_, .inr ⟨rfl, rfl, rfl⟩⟩
    exact (congrArg Prod.fst heq : _ = u) ▸ hcreated
  · rename_i u heq _
    refine ⟨0, _, ?_, .inr ⟨rfl, rfl, rfl⟩⟩
    exact (congrArg Prod.fst heq : _ = u) ▸ hcreated
  · rename_i u surface heq hsurface
    refine ⟨surface, _, ?_, .inl ⟨rfl, hsurface, rfl⟩⟩
    replace hcreated := (congrArg Prod.fst heq : _ = u) ▸ hcreated
    have hsurfaces : u.surfaces =
        s.surfaces.filter (fun surface => surface ≠ (s.windows slot).pbufferSurface) :=
      hcreated.surfaces
    have hnew := hcreated.withPbuffer slot surface (surface :: u.surfaces)
    rw [withPbuffer_withPbuffer, hsurfaces] at hnew
    have hsized := hnew.trans (onlyBuffers_modify _ slot (f := fun win =>
      { win with
        width := (s.windows slot).pendingWidth
        height := (s.windows slot).pendingHeight
        needsResize := false }) (fun _ => .refl _) (fun _ => rfl) fun _ _ _ h => h)
    simpa [EglState.withPbuffer, EglState.modify, hsurfaces] using hsized

/-- When a resize succeeds. -/
theorem handleShmResize_ok (s : EglState) (slot : ℕ) (outcome : ResizeOutcome) :
    (s.handleShmResize slot outcome).2 = true ↔
      outcome.buffers = .created ∧ outcome.pbuffer.isSome = true := by
  obtain ⟨buffers, pbuffer⟩ := outcome
  cases buffers <;> cases pbuffer <;>
    simp [EglState.handleShmResize, EglState.createShmBuffers]

theorem createShmBuffers_ok (s : EglState) (slot : ℕ) (outcome : BuffersOutcome) :
    (s.createShmBuffers slot outcome).2 = true ↔ outcome = .created := by
  cases outcome <;> simp [EglState.createShmBuffers]

/-- A creation fails with its slot as it is then, or adds the slot to the table. -/
theorem endWindow_cases (s : EglState) (buffers : BuffersOutcome) (pbuffer : Option ℕ) :
    (¬ (buffers = .created ∧ pbuffer.isSome = true) ∧
        ∃ u, OnlyBuffers s u ∧ OnlyBuffers u.abandon (s.endWindow buffers pbuffer)) ∨
      ∃ u surface, OnlyBuffers s u ∧ buffers = .created ∧ pbuffer = some surface ∧
        s.endWindow buffers pbuffer =
          { u.withPbuffer s.count surface (surface :: u.surfaces) with
            count := u.count + 1
            pc := .idle
            held := u.held ++
              (u.windows s.count).wlSurface.toList.map fun window => (surface, window) } := by
  have hsized := onlyBuffers_modify s s.count
    (f := fun win => { win with width := defaultWidth, height := defaultHeight })
    (fun _ => .refl _) (fun _ => rfl) fun _ _ _ h => h
  have hcreated := hsized.trans (onlyBuffers_createShmBuffers _ s.count buffers)
  have hok := createShmBuffers_ok (s.modify s.count fun win =>
    { win with width := defaultWidth, height := defaultHeight }) s.count buffers
  unfold EglState.endWindow
  simp only
  split
  · rename_i u heq
    replace hcreated := (congrArg Prod.fst heq : _ = u) ▸ hcreated
    refine .inl ⟨fun hboth => ?_, u, hcreated, .refl _⟩
    have hfalse := hok.mpr hboth.1
    rw [heq] at hfalse
    cases hfalse
  · rename_i u heq
    replace hcreated := (congrArg Prod.fst heq : _ = u) ▸ hcreated
    exact .inl ⟨fun hboth => Bool.false_ne_true hboth.2, u, hcreated,
      onlyBuffers_destroyShmBuffers _ _⟩
  · rename_i u surface heq
    replace hcreated := (congrArg Prod.fst heq : _ = u) ▸ hcreated
    exact .inr ⟨u, surface, hcreated, hok.mp (congrArg Prod.snd heq), rfl, rfl⟩

/-- A swap with a buffer to show shows it, and else waits. -/
theorem pickBuffer_cases (s : EglState) (slot : ℕ) (gl : Bool) :
    OnlyBuffers s (s.pickBuffer slot gl) ∨ s.pickBuffer slot gl = { s with pc := .swapping slot } := by
  unfold EglState.pickBuffer
  simp only
  split
  · exact .inl (.refl s)
  · split
    · exact .inl (onlyBuffers_present _ _ _)
    · split
      · exact .inl (onlyBuffers_present _ _ _)
      · exact .inr rfl

/-- A swap without a pending resize. -/
theorem beginSwap_same {surface slot : ℕ} (hfind : s.findShmWindow surface = some slot)
    (hresize : (s.windows slot).needsResize = false) (outcome : ResizeOutcome) (gl : Bool) :
    s.beginSwap surface outcome gl = s.pickBuffer slot gl := by
  unfold EglState.beginSwap
  simp only [hfind, hresize, Bool.false_eq_true, if_false]

/-- A swap that resizes goes on if the resize has succeeded. -/
theorem beginSwap_resized {surface slot : ℕ} (hfind : s.findShmWindow surface = some slot)
    (hresize : (s.windows slot).needsResize = true) (outcome : ResizeOutcome) (gl : Bool) :
    s.beginSwap surface outcome gl =
      if (s.handleShmResize slot outcome).2 then
        (s.handleShmResize slot outcome).1.pickBuffer slot gl
      else (s.handleShmResize slot outcome).1 := by
  unfold EglState.beginSwap
  simp only [hfind, hresize, if_true]
  split
  · rename_i u heq
    simp [heq]
  · rename_i u heq
    simp [heq]

/-- What a swap does before it shows a buffer, or waits for one. -/
theorem beginSwap_cases (s : EglState) (surface : ℕ) (outcome : ResizeOutcome) (gl : Bool) :
    (s.findShmWindow surface = none ∧ s.beginSwap surface outcome gl = s) ∨
      ∃ slot u, s.findShmWindow surface = some slot ∧
        ((s.windows slot).needsResize = false ∧ u = s ∨
          (s.windows slot).needsResize = true ∧ u = (s.handleShmResize slot outcome).1) ∧
        (OnlyBuffers u (s.beginSwap surface outcome gl) ∨
          s.beginSwap surface outcome gl = { u with pc := .swapping slot }) := by
  cases hfind : s.findShmWindow surface with
  | none =>
    refine .inl ⟨rfl, ?_⟩
    unfold EglState.beginSwap
    rw [hfind]
  | some slot =>
    cases hresize : (s.windows slot).needsResize with
    | false =>
      rw [beginSwap_same hfind hresize]
      exact .inr ⟨slot, s, rfl, .inl ⟨hresize, rfl⟩, pickBuffer_cases s slot gl⟩
    | true =>
      rw [beginSwap_resized hfind hresize]
      refine .inr ⟨slot, _, rfl, .inr ⟨hresize, rfl⟩, ?_⟩
      split
      · exact pickBuffer_cases _ slot gl
      · exact .inl (.refl _)

/-- What is destroyed with a value that is found. -/
theorem eglDestroySurface_eq {surface slot : ℕ} (hfind : s.findShmWindow surface = some slot) :
    ∃ u, OnlyBuffers s u ∧
      (∃ rest, u.sent = s.sent ++ (s.windows slot).destroyBuffers ++ rest) ∧
      u.freed = s.freed ++ (s.windows slot).memory.toList ∧
      s.eglDestroySurface surface =
        { u.removeWindow slot with
          surfaces := u.surfaces.filter fun other => other ≠ surface
          held := u.held.filter fun entry => entry.1 ≠ surface } := by
  refine ⟨(s.destroyShmBuffers slot).send
    (((s.windows slot).xdgToplevel.toList ++ (s.windows slot).xdgSurface.toList ++
      (s.windows slot).wlSurface.toList).map .destroy),
    (onlyBuffers_destroyShmBuffers s slot).trans (onlyBuffers_send _ _), ⟨_, rfl⟩, rfl, ?_⟩
  unfold EglState.eglDestroySurface
  rw [hfind]
  rfl

/-- A surface without a window is destroyed alone. -/
theorem eglDestroySurface_eq_of_none (hfind : s.findShmWindow surface = none) :
    s.eglDestroySurface surface =
      { s with
        surfaces := s.surfaces.filter fun other => other ≠ surface
        held := s.held.filter fun entry => entry.1 ≠ surface } := by
  unfold EglState.eglDestroySurface
  rw [hfind]

/-! ### Steps -/

theorem EglInv.handleShmResize (h : EglInv s) (slot : ℕ) (outcome : ResizeOutcome) :
    EglInv (s.handleShmResize slot outcome).1 := by
  obtain ⟨pbuffer, surfaces, hbuffers, _⟩ := handleShmResize_spec s slot outcome
  exact (h.withPbuffer slot pbuffer surfaces).onlyBuffers hbuffers

theorem handleShmResize_count (s : EglState) (slot : ℕ) (outcome : ResizeOutcome) :
    (s.handleShmResize slot outcome).1.count = s.count := by
  obtain ⟨pbuffer, surfaces, hbuffers, _⟩ := handleShmResize_spec s slot outcome
  exact hbuffers.count

theorem EglInv.beginWindow (h : EglInv s) (outcome : ProxiesOutcome) :
    EglInv (s.beginWindow outcome) := by
  obtain ⟨hcount, _⟩ := beginWindow_count s outcome
  refine h.renew (beginWindow_renewed s outcome) (fun other hother => ?_) fun other hother => ?_
  · rw [hcount] at hother
    rcases hother with hlt | ⟨hcreating, rfl⟩
    · exact .inl ⟨hlt, Nat.ne_of_lt hlt⟩
    · rcases beginWindow_pc s outcome with ⟨hidle, _⟩ | ⟨_, _, hsurface, _⟩
      · rw [hidle] at hcreating
        cases hcreating
      · exact .inr ⟨rfl, hsurface⟩
  · rcases beginWindow_pc s outcome with ⟨hpc, _⟩ | ⟨hpc, _⟩
    · rw [hpc] at hother
      cases hother
    · rw [hpc] at hother
      cases hother

theorem EglInv.abandon (h : EglInv s) : EglInv s.abandon := by
  refine h.of_surfaces le_rfl (fun _ => rfl) (fun other hother => ?_) fun other hother => ?_
  · rcases hother with hlt | ⟨hcreating, _⟩
    · exact .inl hlt
    · cases hcreating
  · cases hother

theorem EglInv.endWindow (h : EglInv s) (hcreating : s.pc = .creating) (buffers : BuffersOutcome)
    (pbuffer : Option ℕ) : EglInv (s.endWindow buffers pbuffer) := by
  rcases endWindow_cases s buffers pbuffer with
    ⟨_, u, hu, hresult⟩ | ⟨u, surface, hu, _, _, hresult⟩
  · exact (h.onlyBuffers hu).abandon.onlyBuffers hresult
  · rw [hresult]
    have hv := (h.onlyBuffers hu).withPbuffer s.count surface (surface :: u.surfaces)
    refine hv.of_surfaces le_rfl (fun _ => rfl) (fun other hother => ?_) fun other hother => ?_
    · -- the slot of the creation is in use now
      rcases hother with hlt | ⟨hcreating, _⟩
      · change other < u.count + 1 at hlt
        rcases Nat.lt_succ_iff_lt_or_eq.mp hlt with hlt | heq
        · exact .inl hlt
        · exact .inr ⟨hu.pc.trans hcreating, heq⟩
      · cases hcreating
    · cases hother

theorem EglInv.beginSwap (h : EglInv s) (surface : ℕ) (outcome : ResizeOutcome) (gl : Bool) :
    EglInv (s.beginSwap surface outcome gl) := by
  rcases beginSwap_cases s surface outcome gl with ⟨_, hsame⟩ | ⟨slot, u, hfind, hu, hresult⟩
  · rwa [hsame]
  · have hslot := (findShmWindow_eq_some hfind).1
    have hinv : EglInv u ∧ u.count = s.count := by
      rcases hu with ⟨_, rfl⟩ | ⟨_, rfl⟩
      · exact ⟨h, rfl⟩
      · exact ⟨h.handleShmResize slot outcome, handleShmResize_count s slot outcome⟩
    rcases hresult with hbuffers | hwaits
    · exact hinv.1.onlyBuffers hbuffers
    · rw [hwaits]
      refine hinv.1.of_surfaces le_rfl (fun _ => rfl) (fun other hother => ?_) fun other hother => ?_
      · rcases hother with hlt | ⟨hcreating, _⟩
        · exact .inl hlt
        · cases hcreating
      · change EglAt.swapping slot = _ at hother
        cases hother
        exact hinv.2 ▸ hslot

theorem EglInv.endSwap (h : EglInv s) (slot : ℕ) : EglInv (s.endSwap slot) := by
  have hpresented := h.onlyBuffers (onlyBuffers_present s slot (s.windows slot).currentBuf)
  refine hpresented.of_surfaces le_rfl (fun _ => rfl) (fun other hother => ?_) fun other hother => ?_
  · rcases hother with hlt | ⟨hcreating, _⟩
    · exact .inl hlt
    · cases hcreating
  · cases hother

theorem EglInv.eglDestroySurface (h : EglInv s) (hidle : s.pc = .idle) (surface : ℕ) :
    EglInv (s.eglDestroySurface surface) := by
  cases hfind : s.findShmWindow surface with
  | none =>
    rw [eglDestroySurface_eq_of_none hfind]
    exact h.of_surfaces le_rfl (fun _ => rfl) (fun _ => id) h.swapping
  | some slot =>
    obtain ⟨u, hu, _, _, hresult⟩ := eglDestroySurface_eq hfind
    rw [hresult]
    have hslot : slot < u.count := hu.count ▸ (findShmWindow_eq_some hfind).1
    have hremoved := (h.onlyBuffers hu).removeWindow hslot (hu.pc.trans hidle)
    exact hremoved.of_surfaces le_rfl (fun _ => rfl) (fun _ => id) hremoved.swapping

/-- What the steps are. -/
inductive EglStep (s : EglState) : EglEvent → EglState → Prop where
  | full (outcome : ProxiesOutcome) : EglStep s (.beginWindow outcome) s
  | beginWindow (outcome : ProxiesOutcome) (hidle : s.pc = .idle) :
      EglStep s (.beginWindow outcome) (s.beginWindow outcome)
  | endWindow (buffers : BuffersOutcome) (pbuffer : Option ℕ) (hcreating : s.pc = .creating)
      (hfresh : IsFresh s.surfaces pbuffer) :
      EglStep s (.endWindow buffers pbuffer) (s.endWindow buffers pbuffer)
  | beginSwap (surface : ℕ) (outcome : ResizeOutcome) (gl : Bool) (hidle : s.pc = .idle)
      (hfresh : IsFresh (s.surfaces.filter fun other => other ≠ surface) outcome.pbuffer) :
      EglStep s (.beginSwap surface outcome gl) (s.beginSwap surface outcome gl)
  | endSwap (slot : ℕ) (hswapping : s.pc = .swapping slot) : EglStep s .endSwap (s.endSwap slot)
  | destroySurface (surface : ℕ) (hidle : s.pc = .idle) :
      EglStep s (.destroySurface surface) (s.eglDestroySurface surface)
  | deliver (e : WlEvent) : EglStep s (.deliver e) (s.deliver e)

theorem eglStep_of_next {e : EglEvent} (h : s.next e = some t) : EglStep s e t := by
  cases e with
  | beginWindow outcome =>
    simp only [EglState.next] at h
    split at h <;> cases h
    rename_i hidle
    split
    · exact .beginWindow outcome hidle
    · exact .full outcome
  | endWindow buffers pbuffer =>
    simp only [EglState.next] at h
    split at h
    · rename_i hcreating
      split at h <;> cases h
      rename_i hfresh
      exact .endWindow buffers pbuffer hcreating hfresh
    · cases h
  | beginSwap surface outcome gl =>
    simp only [EglState.next] at h
    split at h
    · rename_i hidle
      split at h <;> cases h
      rename_i hfresh
      exact .beginSwap surface outcome gl hidle hfresh
    · cases h
  | endSwap =>
    simp only [EglState.next] at h
    split at h <;> cases h
    rename_i slot hswapping
    exact .endSwap slot hswapping
  | destroySurface surface =>
    simp only [EglState.next] at h
    split at h <;> cases h
    rename_i hidle
    exact .destroySurface surface hidle
  | deliver e =>
    simp only [EglState.next] at h
    split at h <;> cases h
    exact .deliver e

/-- Every step keeps the surfaces of the windows apart. -/
theorem EglInv.step (h : EglInv s) {e : EglEvent} (hstep : EglStep s e t) : EglInv t := by
  cases hstep with
  | full outcome => exact h
  | beginWindow outcome hidle => exact h.beginWindow outcome
  | endWindow buffers pbuffer hcreating hfresh => exact h.endWindow hcreating buffers pbuffer
  | beginSwap surface outcome gl hidle hfresh => exact h.beginSwap surface outcome gl
  | endSwap slot hswapping => exact h.endSwap slot
  | destroySurface surface hidle => exact h.eglDestroySurface hidle surface
  | deliver e => exact h.onlyBuffers (onlyBuffers_deliver s e)

end Table

end Wldroid.Egl
