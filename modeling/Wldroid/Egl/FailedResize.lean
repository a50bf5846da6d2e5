import Wldroid.Foundation.Lifetimes
import Wldroid.Egl.Listeners

/-!
# Resizes that fail

A resize tears the buffers and the pbuffer of its window down before it asks for new ones.  When it
fails, the window is left without a pbuffer, and its pointers may be those of buffers that have been
destroyed already; `EGL_NO_SURFACE` finds such a window.

* `ResizeAtomic` — a resize that fails leaves the window as it was;
* `BuffersAlive` — no buffer is destroyed twice or shown after it has been destroyed;
* `ResizesSucceed` — the resizes get what they ask for;
* **`resizeAtomic_iff_resizesSucceed`** — the first two hold throughout a run exactly if the third
  holds of its steps;
* `buffer_destroyed_twice` — a resize fails at its second buffer, and `EGL_NO_SURFACE` is destroyed.
-/

namespace Wldroid.Egl

open Wldroid.Foundation

/-! ### The property -/

/-- The request uses the proxy as a buffer: it destroys it, or shows it. -/
def WlRequest.Uses : WlRequest → ℕ → Prop
  | .destroy other, proxy => other = proxy
  | .present _ buffer, proxy => buffer = some proxy
  | .commit _, _ | .ackConfigure _, _ => False

/-- No `wl_buffer` is destroyed twice, or used after it has been destroyed. -/
def BuffersAlive (s : EglState) : Prop :=
  s.sent.Pairwise fun r r' => ∀ proxy slot, s.listener proxy = some (.wlBuffer slot) →
    r = .destroy proxy → ¬ r'.Uses proxy

/-- The window has its buffers, its pbuffer and its size, none of them destroyed, and the surface of
the application still leads to it. -/
structure Unresized (s t : EglState) (slot surface : ℕ) : Prop where
  wlBuffer : (t.windows slot).wlBuffer = (s.windows slot).wlBuffer
  memory : (t.windows slot).memory = (s.windows slot).memory
  pbufferSurface : (t.windows slot).pbufferSurface = (s.windows slot).pbufferSurface
  width : (t.windows slot).width = (s.windows slot).width
  height : (t.windows slot).height = (s.windows slot).height
  managed : t.findShmWindow surface = some slot
  pbufferAlive : surface ∈ s.surfaces → surface ∈ t.surfaces
  presents : ∀ window, (s.windows slot).wlSurface = some window → t.atRest.Presents surface window

/-- A resize that fails changes nothing. -/
def ResizeAtomic (s : EglState) : EglEvent → Prop
  | .beginSwap surface outcome _ =>
      ∀ slot, s.findShmWindow surface = some slot → (s.windows slot).needsResize = true →
        (s.handleShmResize slot outcome).2 = false →
          Unresized s (s.handleShmResize slot outcome).1 slot surface
  | _ => True

/-- A swap that resizes gets the buffers and the pbuffer it asks for. -/
def ResizesSucceed (s : EglState) : EglEvent → Prop
  | .beginSwap surface outcome _ =>
      ∀ slot, s.findShmWindow surface = some slot → (s.windows slot).needsResize = true →
        outcome.buffers = .created ∧ outcome.pbuffer.isSome = true
  | _ => True

/-! ### The proxies of the windows -/

/-- What a proxy of a window is for. -/
inductive Role where
  | buffer (i : Fin 2)
  | surface
  | xdgSurface
  | xdgToplevel
  deriving DecidableEq

/-- The proxy of a window for a role. -/
def ShmWindow.proxy (win : ShmWindow) : Role → Option ℕ
  | .buffer i => win.wlBuffer i
  | .surface => win.wlSurface
  | .xdgSurface => win.xdgSurface
  | .xdgToplevel => win.xdgToplevel

/-- What the windows in some slots keep. -/
def EglState.keeps (s : EglState) (used : ℕ → Prop) (place : ℕ × Role) (proxy : ℕ) : Prop :=
  used place.1 ∧ (s.windows place.1).proxy place.2 = some proxy

/-- The proxies of the windows in some slots are alive and each at one place. -/
abbrev KeepsProxies (s : EglState) (used : ℕ → Prop) : Prop :=
  Owns WlRequest.destroy WlRequest.Uses (s.keeps used) s.fresh s.sent

section Proxies

variable {s t : EglState} {used used' : ℕ → Prop} {slot : ℕ}

theorem destroy_uses (proxy proxy' : ℕ) :
    (WlRequest.destroy proxy).Uses proxy' ↔ proxy = proxy' := Iff.rfl

theorem KeepsProxies.buffersAlive (h : KeepsProxies s used) : BuffersAlive s :=
  h.usedAlive.imp fun huses proxy _ _ hdestroy => huses proxy hdestroy

/-- Windows that keep nothing new. -/
theorem KeepsProxies.of_windows (h : KeepsProxies s used) (hfresh : s.fresh ≤ t.fresh)
    (hsent : t.sent = s.sent) (hwindows : ∀ other, used' other → used other ∧
      ∀ role proxy, (t.windows other).proxy role = some proxy →
        (s.windows other).proxy role = some proxy) :
    KeepsProxies t used' := by
  unfold KeepsProxies
  rw [hsent]
  refine h.mono (fun place proxy hproxy => ?_) hfresh
  obtain ⟨hused, hkept⟩ := hwindows place.1 hproxy.1
  exact ⟨hused, hkept place.2 proxy hproxy.2⟩

/-- Fewer windows are looked at. -/
theorem KeepsProxies.fewer (h : KeepsProxies s used) (hused : ∀ other, used' other → used other) :
    KeepsProxies s used' :=
  h.of_windows le_rfl rfl fun other hother => ⟨hused other hother, fun _ _ hproxy => hproxy⟩

/-- A change of a window that brings no new proxies. -/
theorem KeepsProxies.modify (h : KeepsProxies s used) (slot : ℕ) {f : ShmWindow → ShmWindow}
    (hf : ∀ role proxy, (f (s.windows slot)).proxy role = some proxy →
      (s.windows slot).proxy role = some proxy) :
    KeepsProxies (s.modify slot f) used := by
  refine h.of_windows le_rfl rfl fun other hother => ⟨hother, fun role proxy hproxy => ?_⟩
  replace hproxy : (Function.update s.windows slot (f (s.windows slot)) other).proxy role =
    some proxy := hproxy
  by_cases hsame : other = slot
  · subst hsame
    rw [Function.update_self] at hproxy
    exact hf role proxy hproxy
  · rwa [Function.update_of_ne hsame] at hproxy

/-- A new proxy that no window keeps. -/
theorem KeepsProxies.newProxy (h : KeepsProxies s used) (listener : Option Listener) :
    KeepsProxies (s.newProxy listener) used :=
  h.of_windows (Nat.le_succ _) rfl fun _ hother => ⟨hother, fun _ _ hproxy => hproxy⟩

/-- A new proxy for a role of a window. -/
theorem KeepsProxies.assign (h : KeepsProxies s used) (slot : ℕ) (role : Role)
    (listener : Option Listener) {f : ShmWindow → ShmWindow}
    (hself : (f (s.windows slot)).proxy role = some s.fresh)
    (hkeep : ∀ role', role' ≠ role →
      (f (s.windows slot)).proxy role' = (s.windows slot).proxy role') :
    KeepsProxies ((s.newProxy listener).modify slot f) used := by
  refine Owns.assign h (slot, role) fun place proxy hproxy => ?_
  obtain ⟨other, role'⟩ := place
  obtain ⟨hused, hproxy⟩ := hproxy
  replace hproxy : (Function.update s.windows slot (f (s.windows slot)) other).proxy role' =
    some proxy := hproxy
  by_cases hother : other = slot
  · subst hother
    rw [Function.update_self] at hproxy
    by_cases hrole : role' = role
    · subst hrole
      exact .inr ⟨rfl, (Option.some.inj (hself.symm.trans hproxy)).symm⟩
    · exact .inl ⟨hused, (hkeep role' hrole).symm.trans hproxy⟩
  · rw [Function.update_of_ne hother] at hproxy
    exact .inl ⟨hused, hproxy⟩

theorem KeepsProxies.newBuffer (h : KeepsProxies s used) (slot : ℕ) (i : Fin 2) :
    KeepsProxies (s.newBuffer slot i) used := by
  refine h.assign slot (.buffer i) _ (Function.update_self _ _ _) fun role hrole => ?_
  cases role with
  | buffer j => exact Function.update_of_ne (fun hsame => hrole (congrArg Role.buffer hsame)) _ _
  | surface | xdgSurface | xdgToplevel => rfl

theorem KeepsProxies.newWlSurface (h : KeepsProxies s used) (slot : ℕ) :
    KeepsProxies (s.newWlSurface slot) used := by
  refine h.assign slot .surface _ rfl fun role hrole => ?_
  cases role with
  | surface => exact absurd rfl hrole
  | buffer _ | xdgSurface | xdgToplevel => rfl

theorem KeepsProxies.newXdgSurface (h : KeepsProxies s used) (slot : ℕ) :
    KeepsProxies (s.newXdgSurface slot) used := by
  refine h.assign slot .xdgSurface _ rfl fun role hrole => ?_
  cases role with
  | xdgSurface => exact absurd rfl hrole
  | buffer _ | surface | xdgToplevel => rfl

theorem KeepsProxies.newXdgToplevel (h : KeepsProxies s used) (slot : ℕ) :
    KeepsProxies (s.newXdgToplevel slot) used := by
  refine h.assign slot .xdgToplevel _ rfl fun role hrole => ?_
  cases role with
  | xdgToplevel => exact absurd rfl hrole
  | buffer _ | surface | xdgSurface => rfl

/-- Requests that destroy nothing and show buffers of the windows only. -/
theorem KeepsProxies.send (h : KeepsProxies s used) {requests : List WlRequest}
    (hdestroy : ∀ r ∈ requests, ∀ proxy, r ≠ .destroy proxy)
    (huses : ∀ r ∈ requests, ∀ proxy, r.Uses proxy →
      ∃ other role, used other ∧ (s.windows other).proxy role = some proxy) :
    KeepsProxies (s.send requests) used :=
  Owns.use h hdestroy fun r hr proxy hproxy => by
    obtain ⟨other, role, hused, hkept⟩ := huses r hr proxy hproxy
    exact ⟨(other, role), hused, hkept⟩

/-- The proxies a window has for some roles. -/
def ShmWindow.proxies (win : ShmWindow) (roles : List Role) : List ℕ := roles.filterMap win.proxy

/-- The proxies of a window for some roles are destroyed, and not kept any longer. -/
theorem KeepsProxies.destroy (h : KeepsProxies s used) (hslot : used slot) {roles : List Role}
    (hnodup : roles.Nodup) (hfresh : t.fresh = s.fresh)
    (hsent : t.sent = s.sent ++ ((s.windows slot).proxies roles).map .destroy)
    (hwindows : ∀ other role proxy, used' other → (t.windows other).proxy role = some proxy →
      used other ∧ (s.windows other).proxy role = some proxy ∧ (other = slot → role ∉ roles)) :
    KeepsProxies t used' := by
  unfold KeepsProxies
  rw [hfresh, hsent]
  refine Owns.finish h destroy_uses (fun proxy hproxy => ?_) ?_ fun place proxy hproxy => ?_
  · obtain ⟨role, -, hrole⟩ := List.mem_filterMap.mp hproxy
    exact ⟨(slot, role), hslot, hrole⟩
  · refine hnodup.filterMap fun role role' proxy hrole hrole' => ?_
    exact congrArg Prod.snd (h.apart (slot, role) (slot, role') proxy ⟨hslot, hrole⟩
      ⟨hslot, hrole'⟩)
  · obtain ⟨hused, hold, hnot⟩ := hwindows place.1 place.2 proxy hproxy.1 hproxy.2
    refine ⟨⟨hused, hold⟩, fun hgone => ?_⟩
    -- what is kept elsewhere is not among the destroyed ones
    obtain ⟨role, hrole, hkept⟩ := List.mem_filterMap.mp hgone
    have hplace : place = (slot, role) := h.apart place (slot, role) proxy ⟨hused, hold⟩
      ⟨hslot, hkept⟩
    exact hnot (congrArg Prod.fst hplace) (congrArg Prod.snd hplace ▸ hrole)

theorem destroyBuffers_eq (win : ShmWindow) :
    win.destroyBuffers = (win.proxies [.buffer 0, .buffer 1]).map .destroy := by
  have hproxies : win.proxies [.buffer 0, .buffer 1] =
      (win.wlBuffer 0).toList ++ (win.wlBuffer 1).toList := by
    cases hfirst : win.wlBuffer 0 <;> cases hsecond : win.wlBuffer 1 <;>
      simp [ShmWindow.proxies, ShmWindow.proxy, hfirst, hsecond]
  rw [hproxies]
  rfl

theorem shellProxies_eq (win : ShmWindow) :
    win.proxies [.xdgToplevel, .xdgSurface, .surface] =
      win.xdgToplevel.toList ++ win.xdgSurface.toList ++ win.wlSurface.toList := by
  cases htop : win.xdgToplevel <;> cases hxdg : win.xdgSurface <;>
    cases hwl : win.wlSurface <;> simp [ShmWindow.proxies, ShmWindow.proxy, htop, hxdg, hwl]

/-! ### Calls -/

/-- Destroying the buffers of a window. -/
theorem KeepsProxies.destroyShmBuffers (h : KeepsProxies s used) (hslot : used slot) :
    KeepsProxies (s.destroyShmBuffers slot) used := by
  refine h.destroy hslot (by decide) rfl
    (congrArg (s.sent ++ ·) (destroyBuffers_eq _)) fun other role proxy hused hproxy => ?_
  have hwindows : (s.destroyShmBuffers slot).windows =
      Function.update s.windows slot
        { s.windows slot with wlBuffer := fun _ => none, memory := none } := rfl
  rw [hwindows] at hproxy
  by_cases hother : other = slot
  · subst hother
    rw [Function.update_self] at hproxy
    cases role with
    | buffer i => cases hproxy
    | surface | xdgSurface | xdgToplevel => exact ⟨hused, hproxy, fun _ => by simp⟩
  · rw [Function.update_of_ne hother] at hproxy
    exact ⟨hused, hproxy, fun hsame => absurd hsame hother⟩

/-- Destroying the buffers of a window that is not looked at any more; its pointers stay. -/
theorem KeepsProxies.dropBuffers (h : KeepsProxies s used) (hslot : used slot) :
    KeepsProxies (s.send (s.windows slot).destroyBuffers) fun other => used other ∧ other ≠ slot :=
  h.destroy hslot (by decide) rfl
    (congrArg (s.sent ++ ·) (destroyBuffers_eq _)) fun _ _ _ hused hproxy =>
      ⟨hused.1, hproxy, fun hsame => absurd hsame hused.2⟩

/-- Buffers that are created. -/
theorem KeepsProxies.createShmBuffers (h : KeepsProxies s used) (slot : ℕ) :
    KeepsProxies (s.createShmBuffers slot .created).1 used := by
  have hboth := (h.newBuffer slot 0).newBuffer slot 1
  exact (hboth.newProxy none).modify slot
    (f := fun win => { win with memory := some _, currentBuf := 0 }) fun _ _ hproxy => hproxy

/-- Buffers that are not: what has been created is destroyed again, but for the window they were
for, which keeps its pointers. -/
theorem KeepsProxies.failShmBuffers (h : KeepsProxies s used) (hslot : used slot)
    {outcome : BuffersOutcome} (houtcome : outcome ≠ .created) :
    KeepsProxies (s.createShmBuffers slot outcome).1 fun other => used other ∧ other ≠ slot := by
  cases outcome with
  | noPool => exact h.fewer fun _ => And.left
  | noFirst =>
    refine h.of_windows le_rfl rfl fun other hother => ⟨hother.1, fun role proxy hproxy => ?_⟩
    rwa [show (s.createShmBuffers slot .noFirst).1.windows other = s.windows other from
      Function.update_of_ne hother.2 _ _] at hproxy
  | noSecond =>
    refine ((h.newBuffer slot 0).modify slot fun role proxy hproxy => ?_).dropBuffers hslot
    cases role with
    | buffer i =>
      by_cases hi : i = 1
      · rw [hi, ShmWindow.proxy] at hproxy
        simp only [Function.update_self] at hproxy
        cases hproxy
      · exact (Function.update_of_ne hi _ _).symm.trans hproxy
    | surface | xdgSurface | xdgToplevel => exact hproxy
  | noReadback => exact ((h.newBuffer slot 0).newBuffer slot 1).dropBuffers hslot
  | created => exact absurd rfl houtcome

/-- A resize that succeeds. -/
theorem KeepsProxies.handleShmResize (h : KeepsProxies s used) (hslot : used slot)
    {outcome : ResizeOutcome} (hcreated : outcome.buffers = .created)
    (hpbuffer : outcome.pbuffer.isSome = true) :
    KeepsProxies (s.handleShmResize slot outcome).1 used := by
  obtain ⟨buffers, pbuffer⟩ := outcome
  obtain rfl : buffers = .created := hcreated
  obtain ⟨surface, rfl⟩ := Option.isSome_iff_exists.mp hpbuffer
  have hcleared := (h.destroyShmBuffers hslot).modify slot
    (f := fun win => { win with pbufferSurface := 0 }) fun _ _ hproxy => hproxy
  have hrenewed : KeepsProxies { (s.destroyShmBuffers slot).modify slot fun win =>
      { win with pbufferSurface := 0 } with
        surfaces := (s.destroyShmBuffers slot).surfaces.filter fun other =>
          other ≠ ((s.destroyShmBuffers slot).windows slot).pbufferSurface } used := hcleared
  exact (hrenewed.createShmBuffers slot).modify slot
    (f := fun win =>
      { win with
        pbufferSurface := surface
        width := (s.windows slot).pendingWidth
        height := (s.windows slot).pendingHeight
        needsResize := false }) fun _ _ hproxy => hproxy

/-- A buffer of a window is shown. -/
theorem KeepsProxies.present (h : KeepsProxies s used) (hslot : used slot) (i : Fin 2) :
    KeepsProxies (s.present slot i) used := by
  have hbusy := h.modify slot (f := fun win =>
    { win with bufBusy := Function.update win.bufBusy i true, currentBuf := 1 - i })
    fun _ _ hproxy => hproxy
  refine hbusy.send (fun r hr proxy hdestroy => ?_) fun r hr proxy huses => ?_
  · obtain ⟨surface, -, rfl⟩ := List.mem_map.mp hr
    cases hdestroy
  · obtain ⟨surface, -, rfl⟩ := List.mem_map.mp hr
    refine ⟨slot, .buffer i, hslot, ?_⟩
    show (Function.update s.windows slot _ slot).wlBuffer i = some proxy
    rw [Function.update_self]
    exact huses

theorem KeepsProxies.pickBuffer (h : KeepsProxies s used) (hslot : used slot) (gl : Bool) :
    KeepsProxies (s.pickBuffer slot gl) used := by
  unfold EglState.pickBuffer
  simp only
  split
  · exact h
  · split
    · exact h.present hslot _
    · split
      · exact h.present hslot _
      · exact h

/-- An event changes no proxies; what is answered acknowledges and commits. -/
theorem KeepsProxies.deliver (h : KeepsProxies s used) (e : WlEvent) :
    KeepsProxies (s.deliver e) used := by
  unfold EglState.deliver
  split
  · rename_i slot _
    have hhandled := h.modify slot (f := fun win => win.handle e) fun role proxy hproxy => by
      obtain ⟨⟨hwl, hxdg, htop⟩, -, hbuffer⟩ := ShmWindow.handle_frame (s.windows slot) e
      cases role with
      | buffer i => rwa [ShmWindow.proxy, hbuffer] at hproxy
      | surface => rwa [ShmWindow.proxy, hwl] at hproxy
      | xdgSurface => rwa [ShmWindow.proxy, hxdg] at hproxy
      | xdgToplevel => rwa [ShmWindow.proxy, htop] at hproxy
    have hanswer : ∀ r ∈ (s.windows slot).answer e, (∀ proxy, r ≠ .destroy proxy) ∧
        ∀ proxy, ¬ r.Uses proxy := by
      intro r hr
      cases e with
      | surfaceConfigure proxy =>
        rcases List.mem_cons.mp hr with rfl | hcommit
        · exact ⟨nofun, fun _ huses => huses⟩
        · obtain ⟨surface, -, rfl⟩ := List.mem_map.mp hcommit
          exact ⟨nofun, fun _ huses => huses⟩
      | toplevelConfigure _ _ _ | release _ => cases hr
    exact hhandled.send (fun r hr => (hanswer r hr).1)
      fun r hr proxy huses => absurd huses ((hanswer r hr).2 proxy)
  · exact h

/-- A slot is cleared, and looked at from then on. -/
theorem KeepsProxies.zero (h : KeepsProxies s used) (slot : ℕ) :
    KeepsProxies (s.modify slot fun _ => ShmWindow.zero) fun other => used other ∨ other = slot := by
  refine h.mono (fun place proxy hproxy => ?_) le_rfl
  obtain ⟨other, role⟩ := place
  obtain ⟨hused, hproxy⟩ := hproxy
  replace hproxy : (Function.update s.windows slot ShmWindow.zero other).proxy role =
    some proxy := hproxy
  by_cases hother : other = slot
  · rw [hother, Function.update_self] at hproxy
    cases role <;> cases hproxy
  · rw [Function.update_of_ne hother] at hproxy
    exact ⟨hused.resolve_right hother, hproxy⟩

/-- The last window moves into the slot of one that is not looked at any more. -/
theorem KeepsProxies.removeWindow (hslot : slot < s.count)
    (h : KeepsProxies s fun other => other < s.count ∧ other ≠ slot) :
    KeepsProxies (s.removeWindow slot) fun other => other < s.count - 1 := by
  have hplace : ∀ other, other < s.count - 1 →
      ((s.removeWindow slot).windows other) =
        s.windows (if other = slot then s.count - 1 else other) := by
    intro other hother
    rw [removeWindow_windows hother]
    split <;> rfl
  refine Owns.moved h (fun place => (if place.1 = slot then s.count - 1 else place.1, place.2))
    (fun place proxy hproxy => ?_) fun place place' proxy hproxy hproxy' hsame => ?_
  · have hlt : place.1 < s.count - 1 := hproxy.1
    refine ⟨?_, ?_⟩
    · show (if place.1 = slot then s.count - 1 else place.1) < s.count ∧ _ ≠ slot
      split <;> omega
    · show (s.windows (if place.1 = slot then s.count - 1 else place.1)).proxy place.2 = _
      rw [← hplace _ hlt]
      exact hproxy.2
  · have hlt : place.1 < s.count - 1 := hproxy.1
    have hlt' : place'.1 < s.count - 1 := hproxy'.1
    obtain ⟨hslots, hroles⟩ := Prod.mk.inj hsame
    refine Prod.ext ?_ hroles
    split at hslots <;> split at hslots <;> omega

end Proxies

/-! ### The invariant -/

/-- What holds while resizes succeed. -/
structure ResizeInv (s : EglState) : Prop where
  table : EglInv s
  proxies : KeepsProxies s s.InUse
  pbuffers : ∀ slot < s.count, (s.windows slot).pbufferSurface ≠ 0

section Invariant

variable {s t : EglState}

theorem resizeInv_of_initial (h : s.Initial) (hsent : s.sent = []) : ResizeInv s := by
  obtain ⟨hwindows, hcount, -, -⟩ := id h
  have hnone : ∀ slot role, (s.windows slot).proxy role = none := by
    intro slot role
    rw [hwindows slot]
    cases role <;> rfl
  have hkeeps : ∀ place proxy, ¬ s.keeps s.InUse place proxy := by
    intro place proxy hproxy
    have hsome := hproxy.2
    rw [hnone] at hsome
    cases hsome
  refine ⟨eglInv_of_initial h, ⟨?_, ?_, ?_, ?_, ?_⟩, fun slot hslot => ?_⟩
  · exact fun place _ proxy hproxy => absurd hproxy (hkeeps place proxy)
  · exact fun place proxy hproxy => absurd hproxy (hkeeps place proxy)
  · exact fun place proxy hproxy => absurd hproxy (hkeeps place proxy)
  · intro proxy hmem
    rw [hsent] at hmem
    cases hmem
  · rw [hsent]
    exact List.Pairwise.nil
  · rw [hcount] at hslot
    exact absurd hslot (Nat.not_lt_zero _)

theorem lt_of_inUse {n slot : ℕ} (hpc : t.pc = .idle) (hcount : t.count = n)
    (h : t.InUse slot) : slot < n := by
  rcases h with hlt | ⟨hcreating, -⟩
  · exact hcount ▸ hlt
  · rw [hpc] at hcreating
    cases hcreating

/-- A creation up to its roundtrip. -/
theorem beginWindow_proxies (h : KeepsProxies s s.InUse) (outcome : ProxiesOutcome) :
    KeepsProxies (s.beginWindow outcome) (s.beginWindow outcome).InUse := by
  have hlive : KeepsProxies s fun other => other < s.count := h.fewer fun _ hlt => .inl hlt
  have hzero := hlive.zero s.count
  have hless : ∀ {u : EglState}, u.count = s.count → u.pc = .idle → ∀ other, u.InUse other →
      other < s.count ∨ other = s.count := by
    intro u hcount hpc other hother
    exact .inl (lt_of_inUse hpc hcount hother)
  cases outcome with
  | noSurface => exact hzero.fewer (hless rfl rfl)
  | noXdgSurface => exact (hzero.newWlSurface s.count).fewer (hless rfl rfl)
  | noToplevel =>
    exact ((hzero.newWlSurface s.count).newXdgSurface s.count).fewer (hless rfl rfl)
  | created =>
    have hnew := ((hzero.newWlSurface s.count).newXdgSurface s.count).newXdgToplevel s.count
    have hcommit : ∀ r ∈ [WlRequest.commit s.fresh], ∀ proxy, r ≠ .destroy proxy ∧ ¬ r.Uses proxy := by
      intro r hr proxy
      rw [List.mem_singleton.mp hr]
      exact ⟨nofun, id⟩
    have hsent := hnew.send (fun r hr proxy => (hcommit r hr proxy).1)
      fun r hr proxy huses => absurd huses (hcommit r hr proxy).2
    exact hsent.fewer fun other hother => hother.imp_right And.right

/-- The end of a creation. -/
theorem endWindow_proxies (h : KeepsProxies s s.InUse) (hcreating : s.pc = .creating)
    (buffers : BuffersOutcome) (pbuffer : Option ℕ) :
    KeepsProxies (s.endWindow buffers pbuffer) (s.endWindow buffers pbuffer).InUse := by
  have hslot : s.InUse s.count := .inr ⟨hcreating, rfl⟩
  have hsized := h.modify s.count
    (f := fun win => { win with width := defaultWidth, height := defaultHeight })
    fun _ _ hproxy => hproxy
  by_cases hbuffers : buffers = .created
  · subst hbuffers
    have hcreated := hsized.createShmBuffers s.count
    cases pbuffer with
    | none =>
      have hgone := hcreated.destroyShmBuffers hslot
      exact hgone.fewer fun other hother =>
        .inl (lt_of_inUse (t := s.endWindow .created none) rfl rfl hother)
    | some surface =>
      refine (hcreated.modify s.count (f := fun win => { win with pbufferSurface := surface })
        fun _ _ hproxy => hproxy).fewer fun other hother => ?_
      have hlt : other < s.count + 1 :=
        lt_of_inUse (t := s.endWindow .created (some surface)) rfl rfl hother
      rcases Nat.lt_succ_iff_lt_or_eq.mp hlt with hlt | rfl
      · exact .inl hlt
      · exact hslot
  · have hfailed := hsized.failShmBuffers hslot hbuffers
    have heq : s.endWindow buffers pbuffer = ((s.modify s.count fun win =>
        { win with width := defaultWidth, height := defaultHeight }).createShmBuffers s.count
          buffers).1.abandon := by
      cases buffers with
      | created => exact absurd rfl hbuffers
      | noPool | noFirst | noSecond | noReadback => rfl
    have hcount : ((s.modify s.count fun win =>
        { win with width := defaultWidth, height := defaultHeight }).createShmBuffers s.count
          buffers).1.count = s.count :=
      (onlyBuffers_createShmBuffers _ _ _).count
    rw [heq]
    refine hfailed.fewer fun other hother => ?_
    have hlt : other < s.count := lt_of_inUse
      (t := ((s.modify s.count fun win =>
        { win with width := defaultWidth, height := defaultHeight }).createShmBuffers s.count
          buffers).1.abandon) rfl hcount hother
    exact ⟨.inl hlt, hlt.ne⟩

/-- A swap whose resize succeeds. -/
theorem beginSwap_proxies (h : KeepsProxies s s.InUse) (hidle : s.pc = .idle) (surface : ℕ)
    (outcome : ResizeOutcome) (gl : Bool)
    (hguard : ResizesSucceed s (.beginSwap surface outcome gl)) :
    KeepsProxies (s.beginSwap surface outcome gl) (s.beginSwap surface outcome gl).InUse := by
  have hpicked : KeepsProxies (s.beginSwap surface outcome gl) s.InUse := by
    cases hfind : s.findShmWindow surface with
    | none =>
      unfold EglState.beginSwap
      rw [hfind]
      exact h
    | some slot =>
      have hslot : s.InUse slot := .inl (findShmWindow_eq_some hfind).1
      cases hresize : (s.windows slot).needsResize with
      | false =>
        rw [beginSwap_same hfind hresize]
        exact h.pickBuffer hslot gl
      | true =>
        obtain ⟨hcreated, hpbuffer⟩ := hguard slot hfind hresize
        have hok := (handleShmResize_ok s slot outcome).mpr ⟨hcreated, hpbuffer⟩
        rw [beginSwap_resized hfind hresize, if_pos hok]
        exact (h.handleShmResize hslot hcreated hpbuffer).pickBuffer hslot gl
  have hcount : (s.beginSwap surface outcome gl).count = s.count ∧
      (s.beginSwap surface outcome gl).pc ≠ .creating := by
    rcases beginSwap_cases s surface outcome gl with ⟨-, hsame⟩ | ⟨slot, u, -, hu, hresult⟩
    · rw [hsame, hidle]
      exact ⟨rfl, nofun⟩
    · have hbefore : u.count = s.count ∧ u.pc = .idle := by
        rcases hu with ⟨-, rfl⟩ | ⟨-, rfl⟩
        · exact ⟨rfl, hidle⟩
        · obtain ⟨_, _, hb, -⟩ := handleShmResize_spec s slot outcome
          exact ⟨hb.count, hb.pc.trans hidle⟩
      rcases hresult with hb | hwaits
      · rw [hb.count, hb.pc, hbefore.2]
        exact ⟨hbefore.1, nofun⟩
      · rw [hwaits]
        exact ⟨hbefore.1, nofun⟩
  refine hpicked.fewer fun other hother => .inl ?_
  rcases hother with hlt | ⟨hcreating, -⟩
  · exact hcount.1 ▸ hlt
  · exact absurd hcreating hcount.2

/-- The destruction of a surface. -/
theorem eglDestroySurface_proxies (h : KeepsProxies s s.InUse) (hidle : s.pc = .idle)
    (surface : ℕ) :
    KeepsProxies (s.eglDestroySurface surface) (s.eglDestroySurface surface).InUse := by
  have hlive : KeepsProxies s fun other => other < s.count := h.fewer fun _ hlt => .inl hlt
  cases hfind : s.findShmWindow surface with
  | none =>
    rw [eglDestroySurface_eq_of_none hfind]
    exact h
  | some slot =>
    have hslot := (findShmWindow_eq_some hfind).1
    have hgone := hlive.destroyShmBuffers hslot
    -- the other proxies of the window are those it had
    have hothers : ((s.destroyShmBuffers slot).windows slot).proxies
        [.xdgToplevel, .xdgSurface, .surface] =
          (s.windows slot).xdgToplevel.toList ++ (s.windows slot).xdgSurface.toList ++
            (s.windows slot).wlSurface.toList := by
      obtain ⟨hwl, hxdg, htop⟩ := (onlyBuffers_destroyShmBuffers s slot).proxies slot
      rw [shellProxies_eq, hwl, hxdg, htop]
    have hcleared : KeepsProxies ((s.destroyShmBuffers slot).send
        (((s.windows slot).xdgToplevel.toList ++ (s.windows slot).xdgSurface.toList ++
          (s.windows slot).wlSurface.toList).map .destroy))
        fun other => other < s.count ∧ other ≠ slot := by
      have hnodup : [Role.xdgToplevel, .xdgSurface, .surface].Nodup := by decide
      refine hgone.destroy hslot hnodup rfl ?_ fun other role proxy hused hproxy => ?_
      · rw [hothers]
        rfl
      · exact ⟨hused.1, hproxy, fun hsame => absurd hsame hused.2⟩
    have hremoved := KeepsProxies.removeWindow (s := (s.destroyShmBuffers slot).send
      (((s.windows slot).xdgToplevel.toList ++ (s.windows slot).xdgSurface.toList ++
        (s.windows slot).wlSurface.toList).map .destroy)) hslot hcleared
    have heq : s.eglDestroySurface surface =
        { ((s.destroyShmBuffers slot).send
          (((s.windows slot).xdgToplevel.toList ++ (s.windows slot).xdgSurface.toList ++
            (s.windows slot).wlSurface.toList).map .destroy)).removeWindow slot with
          surfaces := s.surfaces.filter fun other => other ≠ surface
          held := s.held.filter fun entry => entry.1 ≠ surface } := by
      unfold EglState.eglDestroySurface
      rw [hfind]
      rfl
    have hresult : KeepsProxies (s.eglDestroySurface surface) fun other => other < s.count - 1 := by
      rw [heq]
      exact hremoved
    have hafter : (s.eglDestroySurface surface).pc = .idle ∧
        (s.eglDestroySurface surface).count = s.count - 1 := by
      rw [heq]
      exact ⟨hidle, rfl⟩
    exact hresult.fewer fun other hother => lt_of_inUse hafter.1 hafter.2 hother

/-- The proxies after a step. -/
theorem ResizeInv.proxies_step (h : ResizeInv s) {e : EglEvent} (hguard : ResizesSucceed s e)
    (hstep : EglStep s e t) : KeepsProxies t t.InUse := by
  cases hstep with
  | full outcome => exact h.proxies
  | beginWindow outcome hidle => exact beginWindow_proxies h.proxies outcome
  | endWindow buffers pbuffer hcreating hfresh =>
    exact endWindow_proxies h.proxies hcreating buffers pbuffer
  | beginSwap surface outcome gl hidle hfresh =>
    exact beginSwap_proxies h.proxies hidle surface outcome gl hguard
  | endSwap slot hswapping =>
    have hslot : s.InUse slot := .inl (h.table.swapping slot hswapping)
    have hshown := h.proxies.present hslot (s.windows slot).currentBuf
    have hended : KeepsProxies (s.endSwap slot) s.InUse := hshown
    exact hended.fewer fun other hother =>
      .inl (lt_of_inUse (t := s.endSwap slot) rfl rfl hother)
  | destroySurface surface hidle => exact eglDestroySurface_proxies h.proxies hidle surface
  | deliver e =>
    have hb := onlyBuffers_deliver s e
    refine (h.proxies.deliver e).fewer fun other hother => ?_
    unfold EglState.InUse at hother
    rwa [hb.count, hb.pc] at hother

/-- What has to do with buffers leaves the pbuffers alone. -/
theorem OnlyBuffers.pbuffers (hb : OnlyBuffers s t)
    (h : ∀ slot < s.count, (s.windows slot).pbufferSurface ≠ 0) :
    ∀ slot < t.count, (t.windows slot).pbufferSurface ≠ 0 := by
  intro slot hslot
  rw [hb.pbuffer]
  exact h slot (hb.count ▸ hslot)

/-- A pbuffer that is one. -/
theorem withPbuffer_pbuffers {slot pbuffer : ℕ} (hpbuffer : pbuffer ≠ 0) (surfaces : List ℕ)
    {n : ℕ} (h : ∀ other < n, other ≠ slot → (s.windows other).pbufferSurface ≠ 0) :
    ∀ other < n, ((s.withPbuffer slot pbuffer surfaces).windows other).pbufferSurface ≠ 0 := by
  intro other hother
  by_cases hsame : other = slot
  · rw [hsame, withPbuffer_windows_self]
    exact hpbuffer
  · rw [withPbuffer_windows_other s hsame]
    exact h other hother hsame

/-- The pbuffers after a step. -/
theorem ResizeInv.pbuffers_step (h : ResizeInv s) {e : EglEvent} (hguard : ResizesSucceed s e)
    (hstep : EglStep s e t) : ∀ slot < t.count, (t.windows slot).pbufferSurface ≠ 0 := by
  have hold := h.pbuffers
  cases hstep with
  | full outcome => exact hold
  | beginWindow outcome hidle =>
    intro slot hslot
    rw [(beginWindow_count s outcome).1] at hslot
    rw [(beginWindow_renewed s outcome).windows slot hslot.ne]
    exact hold slot hslot
  | endWindow buffers pbuffer hcreating hfresh =>
    rcases endWindow_cases s buffers pbuffer with
      ⟨-, u, hu, hresult⟩ | ⟨u, surface, hu, -, hsurface, hresult⟩
    · have habandoned : ∀ slot < u.abandon.count, (u.abandon.windows slot).pbufferSurface ≠ 0 :=
        hu.pbuffers hold
      exact hresult.pbuffers habandoned
    · rw [hresult]
      refine withPbuffer_pbuffers (hfresh surface hsurface).1 (surface :: u.surfaces)
        fun other hother hne => ?_
      have hlt : other < s.count := by
        have hcount := hu.count
        change other < u.count + 1 at hother
        omega
      rw [hu.pbuffer]
      exact hold other hlt
  | beginSwap surface outcome gl hidle hfresh =>
    rcases beginSwap_cases s surface outcome gl with ⟨-, hsame⟩ | ⟨slot, u, hfind, hu, hresult⟩
    · rwa [hsame]
    · have hbefore : ∀ other < u.count, (u.windows other).pbufferSurface ≠ 0 := by
        rcases hu with ⟨-, rfl⟩ | ⟨hresize, rfl⟩
        · exact hold
        · obtain ⟨pbuffer, surfaces, hb, hnew⟩ := handleShmResize_spec s slot outcome
          have hok := (handleShmResize_ok s slot outcome).mpr (hguard slot hfind hresize)
          rcases hnew with ⟨-, hpbuffer, -⟩ | ⟨hfailed, -⟩
          · refine hb.pbuffers (withPbuffer_pbuffers (hfresh pbuffer hpbuffer).1 surfaces ?_)
            exact fun other hother _ => hold other hother
          · rw [hok] at hfailed
            cases hfailed
      rcases hresult with hb | hwaits
      · exact hb.pbuffers hbefore
      · rw [hwaits]
        exact hbefore
  | endSwap slot hswapping =>
    exact (onlyBuffers_present s slot (s.windows slot).currentBuf).pbuffers hold
  | destroySurface surface hidle =>
    cases hfind : s.findShmWindow surface with
    | none =>
      rw [eglDestroySurface_eq_of_none hfind]
      exact hold
    | some slot =>
      obtain ⟨u, hu, -, -, hresult⟩ := eglDestroySurface_eq hfind
      rw [hresult]
      have hslot : slot < u.count := hu.count ▸ (findShmWindow_eq_some hfind).1
      intro other hother hzero
      obtain ⟨old, hlt, -, hbad⟩ := (removeWindow_slots hslot
        fun win => win.pbufferSurface = 0).mp ⟨other, hother, hzero⟩
      exact hu.pbuffers hold old hlt hbad
  | deliver e => exact (onlyBuffers_deliver s e).pbuffers hold

theorem ResizeInv.step (h : ResizeInv s) {e : EglEvent} (hguard : ResizesSucceed s e)
    (hstep : EglStep s e t) : ResizeInv t :=
  ⟨h.table.step hstep, h.proxies_step hguard hstep, h.pbuffers_step hguard hstep⟩

/-- A resize that fails leaves its window without a pbuffer. -/
theorem handleShmResize_fails {slot : ℕ} {outcome : ResizeOutcome}
    (hfailed : (s.handleShmResize slot outcome).2 = false) :
    ((s.handleShmResize slot outcome).1.windows slot).pbufferSurface = 0 := by
  obtain ⟨pbuffer, surfaces, hb, hnew⟩ := handleShmResize_spec s slot outcome
  rw [hb.pbuffer, withPbuffer_windows_self]
  rcases hnew with ⟨hok, -⟩ | ⟨-, hzero, -⟩
  · rw [hfailed] at hok
    cases hok
  · exact hzero

/-- A swap is atomic only if its resize succeeds. -/
theorem ResizeInv.resizeAtomic_iff (h : ResizeInv s) (e : EglEvent) :
    ResizeAtomic s e ↔ ResizesSucceed s e := by
  cases e with
  | beginSwap surface outcome gl =>
    refine forall_congr' fun slot => forall_congr' fun hfind => forall_congr' fun hresize => ?_
    rw [← handleShmResize_ok s slot outcome]
    cases hok : (s.handleShmResize slot outcome).2 with
    | true => exact ⟨fun _ => rfl, nofun⟩
    | false =>
      refine ⟨fun hatomic => ?_, nofun⟩
      -- the pbuffer is gone
      have hsame := (hatomic rfl).pbufferSurface
      rw [handleShmResize_fails hok] at hsame
      exact absurd hsame.symm (h.pbuffers slot (findShmWindow_eq_some hfind).1)
  | beginWindow _ | endWindow _ _ | endSwap | destroySurface _ | deliver _ => exact Iff.rfl

end Invariant

/-! ### Runs -/

/-- **Failed resizes.**  Exactly in the runs whose resizes all succeed do failing resizes leave
their windows as they were, and are buffers destroyed once and not used afterwards. -/
theorem resizeAtomic_iff_resizesSucceed {s : EglState} {run : List (EglEvent × EglState)}
    (hinit : s.Initial) (hsent : s.sent = []) (hrun : eglSystem.Exec s run) :
    (AllSteps ResizeAtomic s run ∧ AllStates BuffersAlive s run) ↔
      AllSteps ResizesSucceed s run := by
  have hinv := resizeInv_of_initial hinit hsent
  have hkeep : ∀ s e t, ResizeInv s → eglSystem.step s e t → ResizesSucceed s e → ResizeInv t :=
    fun _ _ _ h hstep hguard => h.step hguard (eglStep_of_next hstep)
  have hagree : AllSteps ResizeAtomic s run ↔ AllSteps ResizesSucceed s run :=
    hrun.allSteps_iff_of_kept hkeep (fun _ e _ h _ => h.resizeAtomic_iff e) hinv
  refine ⟨fun h => hagree.mp h.1, fun h => ⟨hagree.mpr h, ?_⟩⟩
  exact System.allStates_of_allSteps (S := eglSystem) (fun _ h => h.proxies.buffersAlive) hkeep hinv
    hrun h

theorem resizeAtomic_resizeInPlace :
    AllSteps ResizeAtomic freshEgl (traceNext EglState.next freshEgl resizeInPlace) ∧
      AllStates BuffersAlive freshEgl (traceNext EglState.next freshEgl resizeInPlace) := by
  refine (resizeAtomic_iff_resizesSucceed freshEgl_initial rfl (System.exec_traceNext _ _ _)).mpr ?_
  exact ⟨trivial, trivial, trivial, fun _ _ _ => ⟨rfl, rfl⟩, trivial, trivial⟩

/-- A resize gets its first buffer and not its second; then the application destroys
`EGL_NO_SURFACE`. -/
def resizeHalfway : List EglEvent :=
  createConfigured ++ [.beginSwap 1 ⟨.noSecond, none⟩ true, .destroySurface 0]

/-- The first buffer is destroyed by the resize that fails, and again with the window. -/
theorem buffer_destroyed_twice :
    ¬ AllSteps ResizeAtomic freshEgl (traceNext EglState.next freshEgl resizeHalfway) ∧
      ¬ AllStates BuffersAlive freshEgl (traceNext EglState.next freshEgl resizeHalfway) := by
  constructor
  · rintro ⟨-, -, -, hatomic, -⟩
    have hsame := (hatomic 0 (by decide) rfl rfl).pbufferSurface
    exact absurd hsame (by decide)
  · intro h
    have hlast := h.last
    have hpairs := List.pairwise_iff_getElem.mp hlast
    exact hpairs 3 4 (by decide) (by decide) (by decide) 6 0 rfl rfl rfl

end Wldroid.Egl
