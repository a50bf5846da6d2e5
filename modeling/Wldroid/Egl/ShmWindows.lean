import Wldroid.Foundation.Transition

/-!
# The windows of the EGL wrapper

In software mode the wrapper gives the application a pbuffer for a window, and shows what was drawn
into it in shared-memory buffers of a Wayland surface of its own.  The windows sit in a table of
eight slots; Wayland listeners are given the address of the slot.

* `createShmWindow`, in two steps, with the roundtrip in between at which events are delivered;
* `eglSwapBuffers`, in two steps if it has to wait for a buffer, with `handleShmResize`;
* `eglDestroySurface` — the last window moves into the slot that becomes free;
* `eglSystem` — all runs of these.
-/

namespace Wldroid.Egl

open Wldroid.Foundation

/-! ### State -/

/-- `struct shm_window`. -/
structure ShmWindow where
  wlSurface : Option ℕ
  xdgSurface : Option ℕ
  xdgToplevel : Option ℕ
  wlBuffer : Fin 2 → Option ℕ
  /-- `shm_data`, `shm_fd` and `readback_buf`, which come and go together. -/
  memory : Option ℕ
  currentBuf : Fin 2
  bufBusy : Fin 2 → Bool
  /-- Zero is `EGL_NO_SURFACE`. -/
  pbufferSurface : ℕ
  width : ℤ
  height : ℤ
  pendingWidth : ℤ
  pendingHeight : ℤ
  needsResize : Bool

/-- A slot after `memset`. -/
def ShmWindow.zero : ShmWindow where
  wlSurface := none
  xdgSurface := none
  xdgToplevel := none
  wlBuffer := fun _ => none
  memory := none
  currentBuf := 0
  bufBusy := fun _ => false
  pbufferSurface := 0
  width := 0
  height := 0
  pendingWidth := 0
  pendingHeight := 0
  needsResize := false

/-- The listener of a proxy, with the slot that is its user data. -/
inductive Listener where
  | xdgSurface (slot : ℕ)
  | xdgToplevel (slot : ℕ)
  | wlBuffer (slot : ℕ)

/-- The requests sent to the compositor; `present` attaches a buffer, damages and commits. -/
inductive WlRequest where
  | commit (surface : ℕ)
  | present (surface : ℕ) (buffer : Option ℕ)
  | ackConfigure (proxy : ℕ)
  | destroy (proxy : ℕ)

/-- The events the wrapper listens to. -/
inductive WlEvent where
  | surfaceConfigure (proxy : ℕ)
  | toplevelConfigure (proxy : ℕ) (width height : ℤ)
  | release (proxy : ℕ)

/-- Between calls, or at the point inside a call where events are dispatched. -/
inductive EglAt where
  | idle
  | creating
  | swapping (slot : ℕ)

/-- The wrapper with the real EGL below it and its connection. -/
structure EglState where
  /-- `shm_windows`, beyond its end as well. -/
  windows : ℕ → ShmWindow
  /-- `shm_window_count`. -/
  count : ℕ
  pc : EglAt
  listener : ℕ → Option Listener
  /-- Numbers that no proxy has had yet. -/
  fresh : ℕ
  sent : List WlRequest
  /-- The surfaces of the real EGL. -/
  surfaces : List ℕ
  /-- The memory that has been unmapped. -/
  freed : List ℕ
  /-- Ghost: the values the application has been given and not destroyed, with their windows. -/
  held : List (ℕ × ℕ)
  /-- Ghost: the slots of creations that have failed, as they were then. -/
  failed : List (ShmWindow × ℕ)

/-- `MAX_SHM_WINDOWS`, `DEFAULT_WIDTH` and `DEFAULT_HEIGHT`. -/
def maxShmWindows : ℕ := 8
def defaultWidth : ℤ := 1080
def defaultHeight : ℤ := 2400

/-- Write to a slot. -/
def EglState.modify (s : EglState) (slot : ℕ) (f : ShmWindow → ShmWindow) : EglState :=
  { s with windows := Function.update s.windows slot (f (s.windows slot)) }

def EglState.send (s : EglState) (requests : List WlRequest) : EglState :=
  { s with sent := s.sent ++ requests }

/-- A new proxy with its listener. -/
def EglState.newProxy (s : EglState) (listener : Option Listener) : EglState :=
  { s with
    fresh := s.fresh + 1
    listener := Function.update s.listener s.fresh listener }

/-- `find_shm_window`. -/
def EglState.findShmWindow (s : EglState) (surface : ℕ) : Option ℕ :=
  (List.range s.count).find? fun slot => (s.windows slot).pbufferSurface = surface

/-! ### Listeners -/

def WlEvent.proxy : WlEvent → ℕ
  | .surfaceConfigure proxy | .toplevelConfigure proxy _ _ | .release proxy => proxy

/-- The slot a listener handles an event for. -/
def Listener.slotFor : Listener → WlEvent → Option ℕ
  | .xdgSurface slot, .surfaceConfigure _ => some slot
  | .xdgToplevel slot, .toplevelConfigure _ _ _ => some slot
  | .wlBuffer slot, .release _ => some slot
  | _, _ => none

/-- `xdg_toplevel_handle_configure` and `buffer_handle_release`, on their slot. -/
def ShmWindow.handle (win : ShmWindow) : WlEvent → ShmWindow
  | .surfaceConfigure _ => win
  | .toplevelConfigure _ width height =>
      if width > 0 ∧ height > 0 ∧ (width ≠ win.width ∨ height ≠ win.height) then
        { win with pendingWidth := width, pendingHeight := height, needsResize := true }
      else win
  | .release buffer =>
      if win.wlBuffer 0 = some buffer then
        { win with bufBusy := Function.update win.bufBusy 0 false }
      else if win.wlBuffer 1 = some buffer then
        { win with bufBusy := Function.update win.bufBusy 1 false }
      else win

/-- `xdg_surface_handle_configure`: it acknowledges and commits the surface of its slot. -/
def ShmWindow.answer (win : ShmWindow) : WlEvent → List WlRequest
  | .surfaceConfigure proxy => .ackConfigure proxy :: win.wlSurface.toList.map .commit
  | .toplevelConfigure _ _ _ | .release _ => []

/-- A handler runs with a slot as its user data. -/
def EglState.handleAt (s : EglState) (slot : ℕ) (e : WlEvent) : EglState :=
  (s.modify slot fun win => win.handle e).send ((s.windows slot).answer e)

/-- An event is delivered to the listener of its proxy. -/
def EglState.deliver (s : EglState) (e : WlEvent) : EglState :=
  match (s.listener e.proxy).bind fun listener => listener.slotFor e with
  | some slot => s.handleAt slot e
  | none => s

/-! ### Buffers -/

/-- How far `create_shm_buffers` comes. -/
inductive BuffersOutcome where
  | noPool
  | noFirst
  | noSecond
  | noReadback
  | created

/-- One `wl_buffer` of a slot. -/
def EglState.newBuffer (s : EglState) (slot : ℕ) (i : Fin 2) : EglState :=
  (s.newProxy (some (.wlBuffer slot))).modify slot fun win =>
    { win with
      wlBuffer := Function.update win.wlBuffer i (some s.fresh)
      bufBusy := Function.update win.bufBusy i false }

/-- The requests that destroy the buffers of a window. -/
def ShmWindow.destroyBuffers (win : ShmWindow) : List WlRequest :=
  ((win.wlBuffer 0).toList ++ (win.wlBuffer 1).toList).map .destroy

/-- `create_shm_buffers`.  A failure leaves the pointers to destroyed buffers where they are. -/
def EglState.createShmBuffers (s : EglState) (slot : ℕ) : BuffersOutcome → EglState × Bool
  | .noPool => (s, false)
  | .noFirst =>
      (s.modify slot fun win => { win with wlBuffer := Function.update win.wlBuffer 0 none }, false)
  | .noSecond =>
      let t := (s.newBuffer slot 0).modify slot fun win =>
        { win with wlBuffer := Function.update win.wlBuffer 1 none }
      (t.send (t.windows slot).destroyBuffers, false)
  | .noReadback =>
      let t := (s.newBuffer slot 0).newBuffer slot 1
      (t.send (t.windows slot).destroyBuffers, false)
  | .created =>
      let t := (s.newBuffer slot 0).newBuffer slot 1
      ((t.newProxy none).modify slot fun win =>
        { win with memory := some t.fresh, currentBuf := 0 }, true)

/-- `destroy_shm_buffers`. -/
def EglState.destroyShmBuffers (s : EglState) (slot : ℕ) : EglState :=
  { (s.send (s.windows slot).destroyBuffers).modify slot fun win =>
      { win with wlBuffer := fun _ => none, memory := none } with
    freed := s.freed ++ (s.windows slot).memory.toList }

/-! ### Creation -/

/-- How far `create_shm_window` comes before its roundtrip. -/
inductive ProxiesOutcome where
  | noSurface
  | noXdgSurface
  | noToplevel
  | created

def EglState.newWlSurface (s : EglState) (slot : ℕ) : EglState :=
  (s.newProxy none).modify slot fun win => { win with wlSurface := some s.fresh }

def EglState.newXdgSurface (s : EglState) (slot : ℕ) : EglState :=
  (s.newProxy (some (.xdgSurface slot))).modify slot fun win =>
    { win with xdgSurface := some s.fresh }

def EglState.newXdgToplevel (s : EglState) (slot : ℕ) : EglState :=
  (s.newProxy (some (.xdgToplevel slot))).modify slot fun win =>
    { win with xdgToplevel := some s.fresh }

/-- The creation fails and returns `NULL`. -/
def EglState.abandon (s : EglState) : EglState :=
  { s with failed := s.failed ++ [(s.windows s.count, s.count)], pc := .idle }

/-- `create_shm_window` up to the roundtrip. -/
def EglState.beginWindow (s : EglState) (outcome : ProxiesOutcome) : EglState :=
  let slot := s.count
  let s := s.modify slot fun _ => ShmWindow.zero
  match outcome with
  | .noSurface => s.abandon
  | .noXdgSurface => (s.newWlSurface slot).abandon
  | .noToplevel => ((s.newWlSurface slot).newXdgSurface slot).abandon
  | .created =>
      { ((s.newWlSurface slot).newXdgSurface slot).newXdgToplevel slot with pc := .creating }.send
        [.commit s.fresh]

/-- `create_shm_window` from the roundtrip on; the value of the pbuffer is the application's. -/
def EglState.endWindow (s : EglState) (buffers : BuffersOutcome) (pbuffer : Option ℕ) : EglState :=
  let slot := s.count
  let s := s.modify slot fun win => { win with width := defaultWidth, height := defaultHeight }
  match s.createShmBuffers slot buffers, pbuffer with
  | (s, false), _ => s.abandon
  | (s, true), none => s.abandon.destroyShmBuffers slot
  | (s, true), some surface =>
      { s.modify slot fun win => { win with pbufferSurface := surface } with
        count := s.count + 1
        pc := .idle
        surfaces := surface :: s.surfaces
        held := s.held ++ (s.windows slot).wlSurface.toList.map fun window => (surface, window) }

/-! ### Swap -/

/-- What a resize gets from below. -/
structure ResizeOutcome where
  buffers : BuffersOutcome
  pbuffer : Option ℕ

/-- `handle_shm_resize`. -/
def EglState.handleShmResize (s : EglState) (slot : ℕ) (outcome : ResizeOutcome) :
    EglState × Bool :=
  let width := (s.windows slot).pendingWidth
  let height := (s.windows slot).pendingHeight
  let s := s.destroyShmBuffers slot
  let s := { s.modify slot fun win => { win with pbufferSurface := 0 } with
    surfaces := s.surfaces.filter fun surface => surface ≠ (s.windows slot).pbufferSurface }
  match s.createShmBuffers slot outcome.buffers, outcome.pbuffer with
  | (s, false), _ => (s, false)
  | (s, true), none => (s, false)
  | (s, true), some surface =>
      ({ s.modify slot fun win =>
          { win with
            pbufferSurface := surface
            width := width
            height := height
            needsResize := false } with
        surfaces := surface :: s.surfaces }, true)

/-- The end of a swap: buffer `i` is shown, and is busy from then on. -/
def EglState.present (s : EglState) (slot : ℕ) (i : Fin 2) : EglState :=
  (s.modify slot fun win =>
    { win with bufBusy := Function.update win.bufBusy i true, currentBuf := 1 - i }).send
      ((s.windows slot).wlSurface.toList.map fun surface =>
        .present surface ((s.windows slot).wlBuffer i))

/-- The buffer that is not the current one. -/
abbrev ShmWindow.otherBuf (win : ShmWindow) : Fin 2 := 1 - win.currentBuf

/-- `eglSwapBuffers` after its resize: it picks a buffer that is not busy, or waits for one; `gl`
tells that the GL functions are there. -/
def EglState.pickBuffer (s : EglState) (slot : ℕ) (gl : Bool) : EglState :=
  let i := (s.windows slot).currentBuf
  if !gl then s
  else if !(s.windows slot).bufBusy i then s.present slot i
  else if !(s.windows slot).bufBusy (1 - i) then s.present slot (1 - i)
  else { s with pc := .swapping slot }

/-- `eglSwapBuffers` up to the point where it waits for a buffer, or to its end. -/
def EglState.beginSwap (s : EglState) (surface : ℕ) (outcome : ResizeOutcome) (gl : Bool) :
    EglState :=
  match s.findShmWindow surface with
  | none => s
  | some slot =>
      if (s.windows slot).needsResize then
        match s.handleShmResize slot outcome with
        | (s, false) => s
        | (s, true) => s.pickBuffer slot gl
      else s.pickBuffer slot gl

/-- `eglSwapBuffers` after it has dispatched events: the current buffer is shown, busy or not. -/
def EglState.endSwap (s : EglState) (slot : ℕ) : EglState :=
  { s.present slot (s.windows slot).currentBuf with pc := .idle }

/-- If a swap waits, it dispatches events and goes on. -/
def EglState.finishSwap (s : EglState) (dispatched : List WlEvent) : EglState :=
  match s.pc with
  | .swapping slot => (dispatched.foldl EglState.deliver s).endSwap slot
  | _ => s

/-- All of `eglSwapBuffers`, called between calls. -/
def EglState.eglSwapBuffers (s : EglState) (surface : ℕ) (outcome : ResizeOutcome) (gl : Bool)
    (dispatched : List WlEvent) : EglState :=
  (s.beginSwap surface outcome gl).finishSwap dispatched

/-! ### Destruction -/

/-- The last window moves into the slot. -/
def EglState.removeWindow (s : EglState) (slot : ℕ) : EglState :=
  { s with
    windows := Function.update
      (Function.update s.windows slot (s.windows (s.count - 1))) (s.count - 1) ShmWindow.zero
    count := s.count - 1 }

/-- `eglDestroySurface`. -/
def EglState.eglDestroySurface (s : EglState) (surface : ℕ) : EglState :=
  let s := match s.findShmWindow surface with
    | none => s
    | some slot =>
        let win := s.windows slot
        ((s.destroyShmBuffers slot).send
          ((win.xdgToplevel.toList ++ win.xdgSurface.toList ++ win.wlSurface.toList).map
            .destroy)).removeWindow slot
  { s with
    surfaces := s.surfaces.filter fun other => other ≠ surface
    held := s.held.filter fun entry => entry.1 ≠ surface }

/-! ### Runs -/

/-- The calls of the application, and the events dispatched inside them. -/
inductive EglEvent where
  | beginWindow (outcome : ProxiesOutcome)
  | endWindow (buffers : BuffersOutcome) (pbuffer : Option ℕ)
  | beginSwap (surface : ℕ) (outcome : ResizeOutcome) (gl : Bool)
  | endSwap
  | destroySurface (surface : ℕ)
  | deliver (e : WlEvent)

/-- A value the real EGL can give to a new surface. -/
def IsFresh (surfaces : List ℕ) (pbuffer : Option ℕ) : Prop :=
  ∀ surface ∈ pbuffer, surface ≠ 0 ∧ surface ∉ surfaces

instance (surfaces : List ℕ) (pbuffer : Option ℕ) : Decidable (IsFresh surfaces pbuffer) :=
  inferInstanceAs (Decidable (∀ surface ∈ pbuffer, surface ≠ 0 ∧ surface ∉ surfaces))

/-- The next state.  A resize destroys its pbuffer before it asks for the next one. -/
def EglState.next (s : EglState) : EglEvent → Option EglState
  | .beginWindow outcome =>
      match s.pc with
      | .idle => some (if s.count < maxShmWindows then s.beginWindow outcome else s)
      | _ => none
  | .endWindow buffers pbuffer =>
      match s.pc with
      | .creating => if IsFresh s.surfaces pbuffer then some (s.endWindow buffers pbuffer) else none
      | _ => none
  | .beginSwap surface outcome gl =>
      match s.pc with
      | .idle =>
          if IsFresh (s.surfaces.filter fun other => other ≠ surface) outcome.pbuffer then
            some (s.beginSwap surface outcome gl)
          else none
      | _ => none
  | .endSwap =>
      match s.pc with
      | .swapping slot => some (s.endSwap slot)
      | _ => none
  | .destroySurface surface =>
      match s.pc with
      | .idle => some (s.eglDestroySurface surface)
      | _ => none
  | .deliver e =>
      match s.pc with
      | .idle => none
      | _ => some (s.deliver e)

/-- The wrapper before its first window. -/
def EglState.Initial (s : EglState) : Prop :=
  (∀ slot, s.windows slot = ShmWindow.zero) ∧ s.count = 0 ∧ s.pc = .idle ∧
    (∀ proxy, s.listener proxy = none) ∧ s.held = [] ∧ s.failed = []

/-- All runs. -/
def eglSystem : System EglState EglEvent := System.ofNext EglState.Initial EglState.next

/-! ### What buffers leave alone -/

/-- The fields of a window that tell which window it is. -/
def ShmWindow.SameProxies (win win' : ShmWindow) : Prop :=
  win'.wlSurface = win.wlSurface ∧ win'.xdgSurface = win.xdgSurface ∧
    win'.xdgToplevel = win.xdgToplevel

/-- From `s` to `t` there may be new buffers, with listeners at their own slots, and other sizes;
but the windows are in their slots, and their surfaces and pbuffers as they were. -/
structure OnlyBuffers (s t : EglState) : Prop where
  count : t.count = s.count
  pc : t.pc = s.pc
  held : t.held = s.held
  surfaces : t.surfaces = s.surfaces
  failed : t.failed = s.failed
  fresh : s.fresh ≤ t.fresh
  proxies : ∀ slot, (s.windows slot).SameProxies (t.windows slot)
  pbuffer : ∀ slot, (t.windows slot).pbufferSurface = (s.windows slot).pbufferSurface
  listener : ∀ proxy < s.fresh, t.listener proxy = s.listener proxy
  buffers : ∀ slot i proxy, (t.windows slot).wlBuffer i = some proxy →
    (∃ i', (s.windows slot).wlBuffer i' = some proxy) ∨
      s.fresh ≤ proxy ∧ proxy < t.fresh ∧ t.listener proxy = some (.wlBuffer slot)

section Frames

variable {s t u : EglState}

theorem ShmWindow.SameProxies.refl (win : ShmWindow) : win.SameProxies win := ⟨rfl, rfl, rfl⟩

theorem OnlyBuffers.refl (s : EglState) : OnlyBuffers s s :=
  ⟨rfl, rfl, rfl, rfl, rfl, le_rfl, fun _ => .refl _, fun _ => rfl, fun _ _ => rfl,
    fun _ i _ h => .inl ⟨i, h⟩⟩

theorem OnlyBuffers.trans (h : OnlyBuffers s t) (h' : OnlyBuffers t u) : OnlyBuffers s u where
  count := h'.count.trans h.count
  pc := h'.pc.trans h.pc
  held := h'.held.trans h.held
  surfaces := h'.surfaces.trans h.surfaces
  failed := h'.failed.trans h.failed
  fresh := h.fresh.trans h'.fresh
  proxies slot :=
    ⟨(h'.proxies slot).1.trans (h.proxies slot).1, (h'.proxies slot).2.1.trans (h.proxies slot).2.1,
      (h'.proxies slot).2.2.trans (h.proxies slot).2.2⟩
  pbuffer slot := (h'.pbuffer slot).trans (h.pbuffer slot)
  listener proxy hlt :=
    (h'.listener proxy (lt_of_lt_of_le hlt h.fresh)).trans (h.listener proxy hlt)
  buffers slot i proxy hproxy := by
    rcases h'.buffers slot i proxy hproxy with ⟨i', hold⟩ | ⟨hge, hlt, hlistener⟩
    · rcases h.buffers slot i' proxy hold with hold | ⟨hge, hlt, hlistener⟩
      · exact .inl hold
      · exact .inr ⟨hge, lt_of_lt_of_le hlt h'.fresh, (h'.listener proxy hlt).trans hlistener⟩
    · exact .inr ⟨h.fresh.trans hge, hlt, hlistener⟩

/-- What has been sent and freed does not count. -/
theorem OnlyBuffers.but (h : OnlyBuffers s t) (sent : List WlRequest) (freed : List ℕ) :
    OnlyBuffers s { t with sent := sent, freed := freed } :=
  ⟨h.count, h.pc, h.held, h.surfaces, h.failed, h.fresh, h.proxies, h.pbuffer, h.listener, h.buffers⟩

theorem onlyBuffers_send (s : EglState) (requests : List WlRequest) :
    OnlyBuffers s (s.send requests) := (OnlyBuffers.refl s).but _ _

/-- A change of a window that brings no new proxies. -/
theorem onlyBuffers_modify (s : EglState) (slot : ℕ) {f : ShmWindow → ShmWindow}
    (hproxies : ∀ win : ShmWindow, win.SameProxies (f win))
    (hpbuffer : ∀ win : ShmWindow, (f win).pbufferSurface = win.pbufferSurface)
    (hbuffers : ∀ (win : ShmWindow) i proxy, (f win).wlBuffer i = some proxy →
      win.wlBuffer i = some proxy) : OnlyBuffers s (s.modify slot f) := by
  have hwindows : ∀ other, (s.modify slot f).windows other = s.windows other ∨
      other = slot ∧ (s.modify slot f).windows other = f (s.windows other) := by
    intro other
    by_cases hother : other = slot
    · subst hother
      exact .inr ⟨rfl, Function.update_self _ _ _⟩
    · exact .inl (Function.update_of_ne hother _ _)
  refine ⟨rfl, rfl, rfl, rfl, rfl, le_rfl, fun other => ?_, fun other => ?_, fun _ _ => rfl,
    fun other i proxy h => .inl ⟨i, ?_⟩⟩
  · rcases hwindows other with hsame | ⟨_, hnew⟩
    · rw [hsame]
      exact .refl _
    · rw [hnew]
      exact hproxies _
  · rcases hwindows other with hsame | ⟨_, hnew⟩
    · rw [hsame]
    · rw [hnew, hpbuffer]
  · rcases hwindows other with hsame | ⟨_, hnew⟩
    · rwa [hsame] at h
    · rw [hnew] at h
      exact hbuffers _ i proxy h

theorem onlyBuffers_newBuffer (s : EglState) (slot : ℕ) (i : Fin 2) :
    OnlyBuffers s (s.newBuffer slot i) := by
  have hother : ∀ other, other ≠ slot → (s.newBuffer slot i).windows other = s.windows other :=
    fun other hother => Function.update_of_ne hother _ _
  have hself : (s.newBuffer slot i).windows slot =
      { s.windows slot with
        wlBuffer := Function.update (s.windows slot).wlBuffer i (some s.fresh)
        bufBusy := Function.update (s.windows slot).bufBusy i false } := Function.update_self _ _ _
  refine ⟨rfl, rfl, rfl, rfl, rfl, Nat.le_succ _, fun other => ?_, fun other => ?_, fun proxy hlt => ?_,
    fun other k proxy h => ?_⟩
  · by_cases h : other = slot
    · rw [h, hself]
      exact .refl _
    · rw [hother other h]
      exact .refl _
  · by_cases h : other = slot
    · rw [h, hself]
    · rw [hother other h]
  · exact Function.update_of_ne (by omega) _ _
  · by_cases hslot : other = slot
    · rw [hslot, hself] at h
      by_cases hk : k = i
      · rw [hk] at h
        have hproxy : s.fresh = proxy := by
          simpa only [Function.update_self, Option.some.injEq] using h
        subst hproxy
        refine .inr ⟨le_rfl, Nat.lt_succ_self _, ?_⟩
        rw [hslot]
        exact Function.update_self _ _ _
      · refine .inl ⟨k, ?_⟩
        rw [hslot]
        simpa only [Function.update_of_ne hk] using h
    · rw [hother other hslot] at h
      exact .inl ⟨k, h⟩

theorem onlyBuffers_createShmBuffers (s : EglState) (slot : ℕ) (outcome : BuffersOutcome) :
    OnlyBuffers s (s.createShmBuffers slot outcome).1 := by
  have hclear : ∀ (s : EglState) (i : Fin 2), OnlyBuffers s (s.modify slot fun win =>
      { win with wlBuffer := Function.update win.wlBuffer i none }) := by
    intro s i
    refine onlyBuffers_modify s slot (fun _ => .refl _) (fun _ => rfl) fun win k proxy h => ?_
    by_cases hk : k = i
    · rw [hk] at h
      simp only [Function.update_self] at h
      cases h
    · simpa only [Function.update_of_ne hk] using h
  have hfirst := onlyBuffers_newBuffer s slot 0
  have hboth := hfirst.trans (onlyBuffers_newBuffer (s.newBuffer slot 0) slot 1)
  cases outcome with
  | noPool => exact .refl s
  | noFirst => exact hclear s 0
  | noSecond => exact (hfirst.trans (hclear _ 1)).trans (onlyBuffers_send _ _)
  | noReadback => exact hboth.trans (onlyBuffers_send _ _)
  | created =>
    refine hboth.trans ?_
    have hmemory : OnlyBuffers ((s.newBuffer slot 0).newBuffer slot 1)
        (((s.newBuffer slot 0).newBuffer slot 1).newProxy none) :=
      ⟨rfl, rfl, rfl, rfl, rfl, Nat.le_succ _, fun _ => .refl _, fun _ => rfl,
        fun proxy hlt => Function.update_of_ne (Nat.ne_of_lt hlt) _ _, fun _ i _ h => .inl ⟨i, h⟩⟩
    exact hmemory.trans (onlyBuffers_modify _ slot
      (f := fun win => { win with memory := some _, currentBuf := 0 }) (fun _ => .refl _)
      (fun _ => rfl) fun _ _ _ h => h)

theorem onlyBuffers_destroyShmBuffers (s : EglState) (slot : ℕ) :
    OnlyBuffers s (s.destroyShmBuffers slot) := by
  have hcleared := onlyBuffers_modify (s.send (s.windows slot).destroyBuffers) slot
    (f := fun win => { win with wlBuffer := fun _ => none, memory := none }) (fun _ => .refl _)
    (fun _ => rfl) fun _ _ _ h => by cases h
  exact ((onlyBuffers_send s _).trans hcleared).but _ _

theorem onlyBuffers_present (s : EglState) (slot : ℕ) (i : Fin 2) :
    OnlyBuffers s (s.present slot i) := by
  have hbusy := onlyBuffers_modify s slot (f := fun win =>
    { win with bufBusy := Function.update win.bufBusy i true, currentBuf := 1 - i })
    (fun _ => .refl _) (fun _ => rfl) fun _ _ _ h => h
  exact hbusy.but _ _

/-- The handlers know nothing but sizes and which buffer is busy. -/
theorem ShmWindow.handle_frame (win : ShmWindow) (e : WlEvent) :
    win.SameProxies (win.handle e) ∧ (win.handle e).pbufferSurface = win.pbufferSurface ∧
      (win.handle e).wlBuffer = win.wlBuffer := by
  cases e with
  | surfaceConfigure proxy => exact ⟨.refl _, rfl, rfl⟩
  | toplevelConfigure proxy width height =>
    simp only [ShmWindow.handle]
    split <;> exact ⟨.refl _, rfl, rfl⟩
  | release buffer =>
    simp only [ShmWindow.handle]
    split
    · exact ⟨.refl _, rfl, rfl⟩
    · split <;> exact ⟨.refl _, rfl, rfl⟩

theorem onlyBuffers_deliver (s : EglState) (e : WlEvent) : OnlyBuffers s (s.deliver e) := by
  unfold EglState.deliver
  split
  · rename_i slot _
    have hhandled := onlyBuffers_modify s slot (f := fun win => win.handle e)
      (fun win => (win.handle_frame e).1) (fun win => (win.handle_frame e).2.1)
      fun win i proxy h => by rwa [(win.handle_frame e).2.2] at h
    exact hhandled.but _ _
  · exact .refl s

end Frames

end Wldroid.Egl
