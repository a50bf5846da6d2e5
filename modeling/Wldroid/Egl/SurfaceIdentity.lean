import Wldroid.Egl.WindowTable

/-!
# The values the application holds

The value a creation returns is the pbuffer of its window, and the wrapper finds the window by it.
A resize replaces the pbuffer, so that the value the application holds finds nothing any more,
unless the real EGL happens to give the new pbuffer the value of the old one.

* `KeepsIdentity` — every value that is held would present its window, and release it;
* `KeepsPbuffer` — a swap that resizes gets the same value back;
* `keepsIdentity_iff_keepsPbuffer` — the first holds in every state of a run exactly if the second
  holds of every step.
-/

namespace Wldroid.Egl

open Wldroid.Foundation

/-! ### The property -/

/-- The wrapper as the next call will find it. -/
def EglState.atRest (s : EglState) : EglState := { s with pc := .idle }

/-- The surfaces that have been shown a buffer, in order. -/
def presented (sent : List WlRequest) : List ℕ :=
  sent.filterMap fun
    | .present surface _ => some surface
    | .commit _ | .ackConfigure _ | .destroy _ => none

/-- A swap of the value presents the window, if a resize gets what it needs. -/
def EglState.Presents (s : EglState) (value window : ℕ) : Prop :=
  ∀ (outcome : ResizeOutcome) (dispatched : List WlEvent), outcome.buffers = .created →
    outcome.pbuffer.isSome →
      presented (s.eglSwapBuffers value outcome true dispatched).sent = presented s.sent ++ [window]

/-- Destroying the value releases the entry of the window, its buffers and its memory. -/
def EglState.Releases (s : EglState) (value window : ℕ) : Prop :=
  ∃ slot < s.count, (s.windows slot).wlSurface = some window ∧
    (s.eglDestroySurface value).count + 1 = s.count ∧
    (∀ other < (s.eglDestroySurface value).count,
      ((s.eglDestroySurface value).windows other).wlSurface ≠ some window) ∧
    (∃ rest, (s.eglDestroySurface value).sent =
      s.sent ++ (s.windows slot).destroyBuffers ++ rest) ∧
    (s.eglDestroySurface value).freed = s.freed ++ (s.windows slot).memory.toList

/-- Every value the application holds identifies its window. -/
def KeepsIdentity (s : EglState) : Prop :=
  ∀ value window, (value, window) ∈ s.held →
    s.atRest.Presents value window ∧ s.atRest.Releases value window

/-- If a swap resizes its window, the resize succeeds, and the new pbuffer has the value of the old
one. -/
def KeepsPbuffer (s : EglState) : EglEvent → Prop
  | .beginSwap surface outcome _ =>
      ∀ slot, s.findShmWindow surface = some slot → (s.windows slot).needsResize = true →
        outcome.buffers = .created ∧ outcome.pbuffer = some surface
  | _ => True

/-! ### What is presented -/

section Presented

variable {s t : EglState} {slot : ℕ}

theorem presented_append (sent sent' : List WlRequest) :
    presented (sent ++ sent') = presented sent ++ presented sent' := by
  simp [presented]

theorem presented_destroy (proxies : List ℕ) : presented (proxies.map .destroy) = [] := by
  simp [presented, List.filterMap_map]

theorem createShmBuffers_presented (s : EglState) (slot : ℕ) (outcome : BuffersOutcome) :
    presented (s.createShmBuffers slot outcome).1.sent = presented s.sent := by
  have hsend : ∀ (t : EglState) (win : ShmWindow),
      presented (t.send win.destroyBuffers).sent = presented t.sent := by
    intro t win
    show presented (t.sent ++ win.destroyBuffers) = _
    rw [presented_append, ShmWindow.destroyBuffers, presented_destroy, List.append_nil]
  cases outcome with
  | noPool => rfl
  | noFirst => rfl
  | noSecond => exact hsend _ _
  | noReadback => exact hsend _ _
  | created => rfl

theorem destroyShmBuffers_presented (s : EglState) (slot : ℕ) :
    presented (s.destroyShmBuffers slot).sent = presented s.sent := by
  show presented (s.sent ++ (s.windows slot).destroyBuffers) = _
  rw [presented_append, ShmWindow.destroyBuffers, presented_destroy, List.append_nil]

theorem handleShmResize_presented (s : EglState) (slot : ℕ) (outcome : ResizeOutcome) :
    presented (s.handleShmResize slot outcome).1.sent = presented s.sent := by
  refine Eq.trans ?_ (destroyShmBuffers_presented s slot)
  unfold EglState.handleShmResize
  simp only
  split
  · rename_i u heq
    have hu : _ = u := congrArg Prod.fst heq
    rw [← hu, createShmBuffers_presented]
    rfl
  · rename_i u heq _
    have hu : _ = u := congrArg Prod.fst heq
    rw [← hu, createShmBuffers_presented]
    rfl
  · rename_i u surface heq _
    have hu : _ = u := congrArg Prod.fst heq
    show presented u.sent = _
    rw [← hu, createShmBuffers_presented]
    rfl

theorem deliver_presented (s : EglState) (e : WlEvent) :
    presented (s.deliver e).sent = presented s.sent := by
  unfold EglState.deliver
  split
  · rename_i slot _
    show presented (s.sent ++ (s.windows slot).answer e) = _
    rw [presented_append]
    cases e with
    | surfaceConfigure proxy => cases (s.windows slot).wlSurface <;> simp [presented, ShmWindow.answer]
    | toplevelConfigure proxy width height => exact List.append_nil _
    | release proxy => exact List.append_nil _
  · rfl

/-- Dispatching keeps the windows in their slots and presents nothing. -/
theorem foldl_deliver (dispatched : List WlEvent) : ∀ s : EglState,
    OnlyBuffers s (dispatched.foldl EglState.deliver s) ∧
      presented (dispatched.foldl EglState.deliver s).sent = presented s.sent := by
  induction dispatched with
  | nil => exact fun s => ⟨.refl s, rfl⟩
  | cons e rest ih =>
    intro s
    obtain ⟨hbuffers, hpresented⟩ := ih (s.deliver e)
    exact ⟨(onlyBuffers_deliver s e).trans hbuffers, hpresented.trans (deliver_presented s e)⟩

theorem present_presented {window : ℕ} (hwindow : (s.windows slot).wlSurface = some window)
    (i : Fin 2) : presented (s.present slot i).sent = presented s.sent ++ [window] := by
  show presented (s.sent ++ _) = _
  rw [presented_append, hwindow]
  rfl

theorem endSwap_presented {window : ℕ} (hwindow : (s.windows slot).wlSurface = some window) :
    presented (s.endSwap slot).sent = presented s.sent ++ [window] :=
  present_presented hwindow _

/-- A swap that has got past its resize presents the window, if need be after it has dispatched
events. -/
theorem pickBuffer_presented {window : ℕ} (hidle : s.pc = .idle)
    (hwindow : (s.windows slot).wlSurface = some window) (dispatched : List WlEvent) :
    presented ((s.pickBuffer slot true).finishSwap dispatched).sent =
      presented s.sent ++ [window] := by
  have hshown : ∀ i, presented ((s.present slot i).finishSwap dispatched).sent =
      presented s.sent ++ [window] := by
    intro i
    have hsame : (s.present slot i).finishSwap dispatched = s.present slot i := by
      unfold EglState.finishSwap
      rw [(onlyBuffers_present s slot i).pc, hidle]
    rw [hsame, present_presented hwindow]
  unfold EglState.pickBuffer
  simp only [Bool.not_true, Bool.false_eq_true, if_false]
  split
  · exact hshown _
  · split
    · exact hshown _
    · -- both buffers are busy
      obtain ⟨hbuffers, hpresented⟩ := foldl_deliver dispatched { s with pc := .swapping slot }
      have hstill : ((dispatched.foldl EglState.deliver
          { s with pc := .swapping slot }).windows slot).wlSurface = some window :=
        (hbuffers.proxies slot).1.trans hwindow
      exact (endSwap_presented hstill).trans (congrArg (· ++ [window]) hpresented)

end Presented

/-! ### The invariant -/

/-- The values the application holds are the pbuffers of the windows. -/
structure IdentityInv (s : EglState) : Prop where
  table : EglInv s
  alive : ∀ slot < s.count,
    (s.windows slot).pbufferSurface ≠ 0 ∧ (s.windows slot).pbufferSurface ∈ s.surfaces
  own : ∀ slot < s.count, ∀ slot' < s.count,
    (s.windows slot).pbufferSurface = (s.windows slot').pbufferSurface → slot = slot'
  held : ∀ value window, (value, window) ∈ s.held ↔
    ∃ slot < s.count, (s.windows slot).pbufferSurface = value ∧
      (s.windows slot).wlSurface = some window

section Invariant

variable {s t : EglState}

theorem IdentityInv.find (h : IdentityInv s) {slot : ℕ} (hslot : slot < s.count) :
    s.findShmWindow (s.windows slot).pbufferSurface = some slot := by
  cases hfind : s.findShmWindow (s.windows slot).pbufferSurface with
  | none => exact absurd rfl (findShmWindow_eq_none.mp hfind slot hslot)
  | some found =>
    obtain ⟨hfound, hsame⟩ := findShmWindow_eq_some hfind
    rw [h.own found hfound slot hslot hsame]

/-- The windows of the table as they were, and no pbuffer gone. -/
theorem IdentityInv.of_windows (h : IdentityInv s) (ht : EglInv t) (hcount : t.count = s.count)
    (hheld : t.held = s.held) (hsurfaces : ∀ surface ∈ s.surfaces, surface ∈ t.surfaces)
    (hpbuffer : ∀ slot < s.count,
      (t.windows slot).pbufferSurface = (s.windows slot).pbufferSurface)
    (hwindow : ∀ slot < s.count, (t.windows slot).wlSurface = (s.windows slot).wlSurface) :
    IdentityInv t where
  table := ht
  alive := by
    intro slot hslot
    rw [hcount] at hslot
    rw [hpbuffer slot hslot]
    exact ⟨(h.alive slot hslot).1, hsurfaces _ (h.alive slot hslot).2⟩
  own := by
    intro slot hslot slot' hslot' hsame
    rw [hcount] at hslot hslot'
    rw [hpbuffer slot hslot, hpbuffer slot' hslot'] at hsame
    exact h.own slot hslot slot' hslot' hsame
  held := by
    intro value window
    rw [hheld, h.held]
    constructor
    · rintro ⟨slot, hslot, hvalue, hshows⟩
      exact ⟨slot, hcount ▸ hslot, (hpbuffer slot hslot).trans hvalue,
        (hwindow slot hslot).trans hshows⟩
    · rintro ⟨slot, hslot, hvalue, hshows⟩
      rw [hcount] at hslot
      exact ⟨slot, hslot, (hpbuffer slot hslot).symm.trans hvalue,
        (hwindow slot hslot).symm.trans hshows⟩

theorem IdentityInv.onlyBuffers (h : IdentityInv s) (hb : OnlyBuffers s t) : IdentityInv t :=
  h.of_windows (h.table.onlyBuffers hb) hb.count hb.held (fun _ hmem => hb.surfaces ▸ hmem)
    (fun slot _ => hb.pbuffer slot) fun slot _ => (hb.proxies slot).1

theorem IdentityInv.beginWindow (h : IdentityInv s) (outcome : ProxiesOutcome) :
    IdentityInv (s.beginWindow outcome) := by
  obtain ⟨hcount, hheld, hsurfaces⟩ := beginWindow_count s outcome
  have hother : ∀ slot < s.count, (s.beginWindow outcome).windows slot = s.windows slot :=
    fun slot hslot => (beginWindow_renewed s outcome).windows slot (Nat.ne_of_lt hslot)
  exact h.of_windows (h.table.beginWindow outcome) hcount hheld (fun _ hmem => hsurfaces ▸ hmem)
    (fun slot hslot => by rw [hother slot hslot]) fun slot hslot => by rw [hother slot hslot]

/-- One more window, with a pbuffer that was not there before. -/
theorem IdentityInv.extend (h : IdentityInv s) (ht : EglInv t) {surface window : ℕ}
    (hcount : t.count = s.count + 1) (hzero : surface ≠ 0) (hnew : surface ∉ s.surfaces)
    (hsurfaces : t.surfaces = surface :: s.surfaces) (hheld : t.held = s.held ++ [(surface, window)])
    (hself : (t.windows s.count).pbufferSurface = surface ∧
      (t.windows s.count).wlSurface = some window)
    (hother : ∀ slot < s.count, (t.windows slot).pbufferSurface = (s.windows slot).pbufferSurface ∧
      (t.windows slot).wlSurface = (s.windows slot).wlSurface) : IdentityInv t := by
  have hcases : ∀ slot, slot < t.count ↔ slot < s.count ∨ slot = s.count := fun slot => by
    rw [hcount]
    omega
  have hold : ∀ slot < s.count, (s.windows slot).pbufferSurface ≠ surface := by
    intro slot hslot heq
    exact hnew (heq ▸ (h.alive slot hslot).2)
  refine ⟨ht, fun slot hslot => ?_, fun slot hslot slot' hslot' hsame => ?_, fun value shown => ?_⟩
  · rw [hsurfaces]
    rcases (hcases slot).mp hslot with hlt | rfl
    · rw [(hother slot hlt).1]
      exact ⟨(h.alive slot hlt).1, List.mem_cons_of_mem _ (h.alive slot hlt).2⟩
    · rw [hself.1]
      exact ⟨hzero, List.mem_cons_self⟩
  · rcases (hcases slot).mp hslot with hlt | rfl
    · rw [(hother slot hlt).1] at hsame
      rcases (hcases slot').mp hslot' with hlt' | rfl
      · rw [(hother slot' hlt').1] at hsame
        exact h.own slot hlt slot' hlt' hsame
      · rw [hself.1] at hsame
        exact absurd hsame (hold slot hlt)
    · rcases (hcases slot').mp hslot' with hlt' | rfl
      · rw [hself.1, (hother slot' hlt').1] at hsame
        exact absurd hsame.symm (hold slot' hlt')
      · rfl
  · rw [hheld, List.mem_append, h.held, List.mem_singleton]
    constructor
    · rintro (⟨slot, hslot, hvalue, hshows⟩ | hpair)
      · refine ⟨slot, (hcases slot).mpr (.inl hslot), ?_⟩
        rw [(hother slot hslot).1, (hother slot hslot).2]
        exact ⟨hvalue, hshows⟩
      · obtain ⟨rfl, rfl⟩ := Prod.mk.inj hpair
        exact ⟨s.count, (hcases _).mpr (.inr rfl), hself⟩
    · rintro ⟨slot, hslot, hvalue, hshows⟩
      rcases (hcases slot).mp hslot with hlt | rfl
      · rw [(hother slot hlt).1] at hvalue
        rw [(hother slot hlt).2] at hshows
        exact .inl ⟨slot, hlt, hvalue, hshows⟩
      · rw [hself.1] at hvalue
        rw [hself.2] at hshows
        exact .inr (Prod.ext hvalue.symm (Option.some.inj hshows).symm)

theorem IdentityInv.endWindow (h : IdentityInv s) (hcreating : s.pc = .creating)
    {pbuffer : Option ℕ} (hfresh : IsFresh s.surfaces pbuffer) (buffers : BuffersOutcome) :
    IdentityInv (s.endWindow buffers pbuffer) := by
  have ht := h.table.endWindow hcreating buffers pbuffer
  rcases endWindow_cases s buffers pbuffer with
    ⟨_, u, hu, hresult⟩ | ⟨u, surface, hu, _, hsome, hresult⟩
  · have hfailed := h.of_windows (t := u.abandon) (h.table.onlyBuffers hu).abandon hu.count hu.held
      (fun _ hmem => hu.surfaces ▸ hmem) (fun slot _ => hu.pbuffer slot)
      fun slot _ => (hu.proxies slot).1
    exact hfailed.onlyBuffers hresult
  · obtain ⟨hzero, hnew⟩ := hfresh surface hsome
    obtain ⟨window, hwindow⟩ := h.table.shown s.count (.inr ⟨hcreating, rfl⟩)
    have hwindow' : (u.windows s.count).wlSurface = some window :=
      (hu.proxies s.count).1.trans hwindow
    have hself : (u.withPbuffer s.count surface (surface :: u.surfaces)).windows s.count =
        { u.windows s.count with pbufferSurface := surface } := withPbuffer_windows_self _ _ _ _
    have hother : ∀ slot < s.count,
        (u.withPbuffer s.count surface (surface :: u.surfaces)).windows slot = u.windows slot :=
      fun slot hslot => withPbuffer_windows_other u (Nat.ne_of_lt hslot) _ _
    rw [hresult] at ht ⊢
    have hheld : u.held ++ (u.windows s.count).wlSurface.toList.map (fun window => (surface, window)) =
        s.held ++ [(surface, window)] := by
      rw [hu.held, hwindow']
      rfl
    refine h.extend ht ?_ hzero hnew ?_ hheld ?_ fun slot hslot => ?_
    · exact congrArg (· + 1) hu.count
    · exact congrArg (surface :: ·) hu.surfaces
    · rw [hself]
      exact ⟨rfl, hwindow'⟩
    · rw [hother slot hslot]
      exact ⟨hu.pbuffer slot, (hu.proxies slot).1⟩

/-- A resize that gets the value of the old pbuffer back. -/
theorem IdentityInv.handleShmResize (h : IdentityInv s) {slot surface : ℕ}
    (hfind : s.findShmWindow surface = some slot) {outcome : ResizeOutcome}
    (hcreated : outcome.buffers = .created) (hsame : outcome.pbuffer = some surface) :
    IdentityInv (s.handleShmResize slot outcome).1 := by
  obtain ⟨hslot, hold⟩ := findShmWindow_eq_some hfind
  obtain ⟨pbuffer, surfaces, hbuffers, hresult⟩ := handleShmResize_spec s slot outcome
  have hok : (s.handleShmResize slot outcome).2 = true :=
    (handleShmResize_ok s slot outcome).mpr ⟨hcreated, by rw [hsame]; rfl⟩
  rcases hresult with ⟨_, hnew, hsurfaces⟩ | ⟨hfailed, _⟩
  · obtain rfl : surface = pbuffer := Option.some.inj (hsame.symm.trans hnew)
    have hpbuffer : ∀ other, ((s.withPbuffer slot surface surfaces).windows other).pbufferSurface =
        (s.windows other).pbufferSurface := by
      intro other
      by_cases hother : other = slot
      · rw [hother, withPbuffer_windows_self, hold]
      · rw [withPbuffer_windows_other s hother]
    have hkept := h.of_windows (t := s.withPbuffer slot surface surfaces)
      (h.table.withPbuffer slot surface surfaces) rfl rfl (fun other hmem => ?_)
      (fun other _ => hpbuffer other) fun other _ => withPbuffer_wlSurface s slot surface surfaces other
    · exact hkept.onlyBuffers hbuffers
    · show other ∈ surfaces
      rw [hsurfaces, hold]
      by_cases hother : other = surface
      · rw [hother]
        exact List.mem_cons_self
      · exact List.mem_cons_of_mem _ (List.mem_filter.mpr ⟨hmem, decide_eq_true hother⟩)
  · rw [hok] at hfailed
    cases hfailed

theorem IdentityInv.beginSwap (h : IdentityInv s) (surface : ℕ) (outcome : ResizeOutcome)
    (gl : Bool) (hguard : KeepsPbuffer s (.beginSwap surface outcome gl)) :
    IdentityInv (s.beginSwap surface outcome gl) := by
  have ht := h.table.beginSwap surface outcome gl
  rcases beginSwap_cases s surface outcome gl with ⟨_, hsame⟩ | ⟨slot, u, hfind, hu, hresult⟩
  · rwa [hsame]
  · have hinv : IdentityInv u := by
      rcases hu with ⟨_, rfl⟩ | ⟨hresize, rfl⟩
      · exact h
      · obtain ⟨hcreated, hsame⟩ := hguard slot hfind hresize
        exact h.handleShmResize hfind hcreated hsame
    rcases hresult with hbuffers | hwaits
    · exact hinv.onlyBuffers hbuffers
    · rw [hwaits] at ht ⊢
      exact hinv.of_windows ht rfl rfl (fun _ => id) (fun _ _ => rfl) fun _ _ => rfl

theorem IdentityInv.endSwap (h : IdentityInv s) (slot : ℕ) : IdentityInv (s.endSwap slot) := by
  have hshown := h.onlyBuffers (onlyBuffers_present s slot (s.windows slot).currentBuf)
  exact hshown.of_windows (h.table.endSwap slot) rfl rfl (fun _ => id) (fun _ _ => rfl)
    fun _ _ => rfl

/-- The windows that are left are those with another pbuffer, wherever they are now. -/
theorem IdentityInv.withdraw (h : IdentityInv s) (ht : EglInv t) {surface : ℕ}
    (hslots : ∀ P : ℕ → Option ℕ → Prop,
      (∃ slot < t.count, P (t.windows slot).pbufferSurface (t.windows slot).wlSurface) ↔
        ∃ slot < s.count, (s.windows slot).pbufferSurface ≠ surface ∧
          P (s.windows slot).pbufferSurface (s.windows slot).wlSurface)
    (hsurfaces : t.surfaces = s.surfaces.filter fun other => other ≠ surface)
    (hheld : t.held = s.held.filter fun entry => entry.1 ≠ surface) : IdentityInv t where
  table := ht
  alive := by
    intro slot hslot
    obtain ⟨old, hold, hne, hsame⟩ :=
      (hslots fun pbuffer _ => pbuffer = (t.windows slot).pbufferSurface).mp ⟨slot, hslot, rfl⟩
    rw [hsurfaces, ← hsame]
    exact ⟨(h.alive old hold).1, List.mem_filter.mpr ⟨(h.alive old hold).2, decide_eq_true hne⟩⟩
  own := by
    intro slot hslot slot' hslot' hsame
    obtain ⟨old, hold, _, hpbuffer, hwindow⟩ := (hslots fun pbuffer window =>
      pbuffer = (t.windows slot).pbufferSurface ∧ window = (t.windows slot).wlSurface).mp
        ⟨slot, hslot, rfl, rfl⟩
    obtain ⟨old', hold', _, hpbuffer', hwindow'⟩ := (hslots fun pbuffer window =>
      pbuffer = (t.windows slot').pbufferSurface ∧ window = (t.windows slot').wlSurface).mp
        ⟨slot', hslot', rfl, rfl⟩
    obtain rfl : old = old' := h.own old hold old' hold' (by rw [hpbuffer, hpbuffer', hsame])
    obtain ⟨window, hshows⟩ := ht.shown slot (.inl hslot)
    exact ht.apart slot slot' window hshows (by rw [← hwindow', hwindow, hshows])
  held := by
    intro value window
    rw [hheld, List.mem_filter, h.held]
    refine Iff.trans ?_ (hslots fun pbuffer shown => pbuffer = value ∧ shown = some window).symm
    constructor
    · rintro ⟨⟨slot, hslot, hvalue, hshows⟩, hne⟩
      exact ⟨slot, hslot, hvalue ▸ of_decide_eq_true hne, hvalue, hshows⟩
    · rintro ⟨slot, hslot, hne, hvalue, hshows⟩
      exact ⟨⟨slot, hslot, hvalue, hshows⟩, decide_eq_true (hvalue ▸ hne)⟩

theorem IdentityInv.eglDestroySurface (h : IdentityInv s) (hidle : s.pc = .idle) (surface : ℕ) :
    IdentityInv (s.eglDestroySurface surface) := by
  have ht := h.table.eglDestroySurface hidle surface
  cases hfind : s.findShmWindow surface with
  | none =>
    have hnone := findShmWindow_eq_none.mp hfind
    rw [eglDestroySurface_eq_of_none hfind] at ht ⊢
    refine h.withdraw ht (fun P => ⟨?_, ?_⟩) rfl rfl
    · rintro ⟨slot, hslot, hP⟩
      exact ⟨slot, hslot, hnone slot hslot, hP⟩
    · rintro ⟨slot, hslot, _, hP⟩
      exact ⟨slot, hslot, hP⟩
  | some slot =>
    obtain ⟨hslot, hvalue⟩ := findShmWindow_eq_some hfind
    obtain ⟨u, hu, _, _, hresult⟩ := eglDestroySurface_eq hfind
    rw [hresult] at ht ⊢
    refine h.withdraw ht (fun P => ?_) (by rw [hu.surfaces]) (by rw [hu.held])
    refine (removeWindow_slots (s := u) (hu.count ▸ hslot)
      fun win => P win.pbufferSurface win.wlSurface).trans ?_
    rw [hu.count]
    refine exists_congr fun other => and_congr_right fun hother => ?_
    rw [hu.pbuffer, (hu.proxies other).1]
    refine and_congr_left fun _ => not_congr ⟨?_, fun hsame => ?_⟩
    · rintro rfl
      exact hvalue
    · exact h.own other hother slot hslot (hsame.trans hvalue.symm)

theorem IdentityInv.step (h : IdentityInv s) {e : EglEvent} (hguard : KeepsPbuffer s e)
    (hstep : EglStep s e t) : IdentityInv t := by
  cases hstep with
  | full outcome => exact h
  | beginWindow outcome hidle => exact h.beginWindow outcome
  | endWindow buffers pbuffer hcreating hfresh => exact h.endWindow hcreating hfresh buffers
  | beginSwap surface outcome gl hidle hfresh => exact h.beginSwap surface outcome gl hguard
  | endSwap slot hswapping => exact h.endSwap slot
  | destroySurface surface hidle => exact h.eglDestroySurface hidle surface
  | deliver e => exact h.onlyBuffers (onlyBuffers_deliver s e)

/-- The window of a value that is held. -/
theorem IdentityInv.slotOf (h : IdentityInv s) {value window : ℕ} (hheld : (value, window) ∈ s.held) :
    ∃ slot < s.count, s.findShmWindow value = some slot ∧
      (s.windows slot).wlSurface = some window := by
  obtain ⟨slot, hslot, rfl, hwindow⟩ := (h.held value window).mp hheld
  exact ⟨slot, hslot, h.find hslot, hwindow⟩

theorem IdentityInv.presents (h : IdentityInv s) (hidle : s.pc = .idle) {value window : ℕ}
    (hheld : (value, window) ∈ s.held) : s.Presents value window := by
  obtain ⟨slot, _, hfind, hwindow⟩ := h.slotOf hheld
  intro outcome dispatched hcreated hpbuffer
  unfold EglState.eglSwapBuffers
  cases hresize : (s.windows slot).needsResize with
  | false =>
    rw [beginSwap_same hfind hresize]
    exact pickBuffer_presented hidle hwindow dispatched
  | true =>
    have hok := (handleShmResize_ok s slot outcome).mpr ⟨hcreated, hpbuffer⟩
    obtain ⟨pbuffer, surfaces, hbuffers, _⟩ := handleShmResize_spec s slot outcome
    rw [beginSwap_resized hfind hresize, if_pos hok,
      pickBuffer_presented (hbuffers.pc.trans hidle) ?_ dispatched, handleShmResize_presented]
    rw [(hbuffers.proxies slot).1, withPbuffer_wlSurface, hwindow]

theorem IdentityInv.releases (h : IdentityInv s) {value window : ℕ}
    (hheld : (value, window) ∈ s.held) : s.Releases value window := by
  obtain ⟨slot, hslot, hfind, hwindow⟩ := h.slotOf hheld
  obtain ⟨u, hu, hsent, hfreed, hresult⟩ := eglDestroySurface_eq hfind
  refine ⟨slot, hslot, hwindow, ?_, ?_, ?_, ?_⟩
  · rw [hresult]
    show u.count - 1 + 1 = s.count
    rw [hu.count]
    omega
  · intro other hother hstill
    rw [hresult] at hother hstill
    obtain ⟨old, _, hne, hold⟩ := (removeWindow_slots (s := u) (hu.count ▸ hslot)
      fun win => win.wlSurface = some window).mp ⟨other, hother, hstill⟩
    rw [(hu.proxies old).1] at hold
    exact hne (h.table.apart old slot window hold hwindow)
  · rw [hresult]
    exact hsent
  · rw [hresult]
    exact hfreed

theorem IdentityInv.keepsIdentity (h : IdentityInv s) : KeepsIdentity s := by
  have hrest : IdentityInv s.atRest := by
    refine h.of_windows (h.table.of_surfaces le_rfl (fun _ => rfl) (fun slot hslot => ?_)
      fun slot hslot => ?_) rfl rfl (fun _ => id) (fun _ _ => rfl) fun _ _ => rfl
    · rcases hslot with hlt | ⟨hcreating, _⟩
      · exact .inl hlt
      · cases hcreating
    · cases hslot
  exact fun value window hheld => ⟨hrest.presents rfl hheld, hrest.releases hheld⟩

/-- A resize that fails or gets another value takes the pbuffer away that its window was known
by. -/
theorem handleShmResize_pbuffer {surface slot : ℕ} {outcome : ResizeOutcome} (hzero : surface ≠ 0)
    (hother : ¬ (outcome.buffers = .created ∧ outcome.pbuffer = some surface)) :
    ((s.handleShmResize slot outcome).1.windows slot).pbufferSurface ≠ surface := by
  obtain ⟨pbuffer, surfaces, hbuffers, hresult⟩ := handleShmResize_spec s slot outcome
  have hnew : ((s.handleShmResize slot outcome).1.windows slot).pbufferSurface = pbuffer := by
    rw [hbuffers.pbuffer, withPbuffer_windows_self]
  rw [hnew]
  rintro rfl
  rcases hresult with ⟨hok, hsame, _⟩ | ⟨_, hnone, _⟩
  · exact hother ⟨((handleShmResize_ok s slot outcome).mp hok).1, hsame⟩
  · exact hzero hnone

/-- A value that finds nothing releases nothing. -/
theorem not_releases {value : ℕ} (hnone : s.findShmWindow value = none) (window : ℕ) :
    ¬ s.Releases value window := by
  rintro ⟨slot, hslot, _, hcount, _⟩
  have hsame : (s.eglDestroySurface value).count = s.count := by
    rw [eglDestroySurface_eq_of_none hnone]
  omega

/-- A resize that fails or gets another value leaves the application with a value that finds
nothing. -/
theorem IdentityInv.lost (h : IdentityInv s) {surface slot : ℕ} {outcome : ResizeOutcome} {gl : Bool}
    (hfind : s.findShmWindow surface = some slot) (hresize : (s.windows slot).needsResize = true)
    (hother : ¬ (outcome.buffers = .created ∧ outcome.pbuffer = some surface)) :
    ¬ KeepsIdentity (s.beginSwap surface outcome gl) := by
  obtain ⟨hslot, hvalue⟩ := findShmWindow_eq_some hfind
  obtain ⟨window, hwindow⟩ := h.table.shown slot (.inl hslot)
  have hheld : (surface, window) ∈ s.held := (h.held surface window).mpr ⟨slot, hslot, hvalue, hwindow⟩
  obtain ⟨pbuffer, surfaces, hbuffers, _⟩ := handleShmResize_spec s slot outcome
  -- after the resize no window has that pbuffer
  have hgone : ∀ other < s.count,
      ((s.handleShmResize slot outcome).1.windows other).pbufferSurface ≠ surface := by
    intro other hlt
    by_cases hsame : other = slot
    · rw [hsame]
      exact handleShmResize_pbuffer (hvalue ▸ (h.alive slot hslot).1) hother
    · rw [hbuffers.pbuffer, withPbuffer_windows_other s hsame]
      exact fun heq => hsame (h.own other hlt slot hslot (heq.trans hvalue.symm))
  have hafter : (s.beginSwap surface outcome gl).held = s.held ∧
      (s.beginSwap surface outcome gl).count = s.count ∧
      ∀ other, ((s.beginSwap surface outcome gl).windows other).pbufferSurface =
        ((s.handleShmResize slot outcome).1.windows other).pbufferSurface := by
    rw [beginSwap_resized hfind hresize]
    split
    · rcases pickBuffer_cases (s.handleShmResize slot outcome).1 slot gl with hshown | hwaits
      · exact ⟨hshown.held.trans hbuffers.held, hshown.count.trans hbuffers.count, hshown.pbuffer⟩
      · rw [hwaits]
        exact ⟨hbuffers.held, hbuffers.count, fun _ => rfl⟩
    · exact ⟨hbuffers.held, hbuffers.count, fun _ => rfl⟩
  obtain ⟨hheld', hcount, hpbuffer⟩ := hafter
  intro hkeeps
  refine not_releases (findShmWindow_eq_none.mpr fun other hlt => ?_) window
    (hkeeps surface window (hheld' ▸ hheld)).2
  exact (hpbuffer other).trans_ne (hgone other (lt_of_lt_of_eq hlt hcount))

end Invariant

/-! ### Runs -/

/-- **The values the application holds.**  Every value identifies its window in every state of a run
exactly if every swap of the run that resizes gets the value of the old pbuffer back. -/
theorem keepsIdentity_iff_keepsPbuffer {s : EglState} {run : List (EglEvent × EglState)}
    (hinit : s.Initial) (hrun : eglSystem.Exec s run) :
    AllStates KeepsIdentity s run ↔ AllSteps KeepsPbuffer s run := by
  have hinv : IdentityInv s := by
    obtain ⟨_, hcount, _, _, hheld, _⟩ := id hinit
    refine ⟨eglInv_of_initial hinit, fun slot hslot => ?_, fun slot hslot => ?_, fun value window => ?_⟩
    · rw [hcount] at hslot
      exact absurd hslot (Nat.not_lt_zero _)
    · rw [hcount] at hslot
      exact absurd hslot (Nat.not_lt_zero _)
    · rw [hheld, hcount]
      simp
  refine System.allStates_iff_allSteps (S := eglSystem) (fun _ h => h.keepsIdentity) ?_ ?_ hinv hrun
  · intro s e t h hstep hguard
    exact h.step hguard (eglStep_of_next hstep)
  · intro s e t h hstep hguard
    cases eglStep_of_next hstep with
    | beginSwap surface outcome gl hidle hfresh =>
      -- the swap is the one step that can be outside the guard
      simp only [KeepsPbuffer, not_forall] at hguard
      obtain ⟨slot, hfind, hresize, hother⟩ := hguard
      exact h.lost hfind hresize hother
    | full outcome => exact absurd trivial hguard
    | beginWindow outcome hidle => exact absurd trivial hguard
    | endWindow buffers pbuffer hcreating hfresh => exact absurd trivial hguard
    | endSwap slot hswapping => exact absurd trivial hguard
    | destroySurface surface hidle => exact absurd trivial hguard
    | deliver e => exact absurd trivial hguard

/-- The wrapper when it has just been loaded. -/
def freshEgl : EglState where
  windows := fun _ => ShmWindow.zero
  count := 0
  pc := .idle
  listener := fun _ => none
  fresh := 0
  sent := []
  surfaces := []
  freed := []
  held := []
  failed := []

theorem freshEgl_initial : freshEgl.Initial := ⟨fun _ => rfl, rfl, rfl, fun _ => rfl, rfl, rfl⟩

/-- A window is created, and its configure event asks for another size. -/
def createConfigured : List EglEvent :=
  [.beginWindow .created, .deliver (.toplevelConfigure 2 1280 720), .endWindow .created (some 1)]

/-- The resize gets the same value again. -/
def resizeInPlace : List EglEvent :=
  createConfigured ++ [.beginSwap 1 ⟨.created, some 1⟩ true, .destroySurface 1]

theorem keepsIdentity_resizeInPlace :
    AllStates KeepsIdentity freshEgl (traceNext EglState.next freshEgl resizeInPlace) := by
  refine (keepsIdentity_iff_keepsPbuffer freshEgl_initial (System.exec_traceNext _ _ _)).mpr ?_
  exact ⟨trivial, trivial, trivial, fun _ _ _ => ⟨rfl, rfl⟩, trivial, trivial⟩

/-- The first swap resizes the window, and its new pbuffer has another value. -/
def swapConfigured : List EglEvent :=
  createConfigured ++ [.beginSwap 1 ⟨.created, some 2⟩ true]

/-- The value the application has been given does not find its window any more. -/
theorem swapConfigured_lost :
    ¬ ∀ (s : EglState) (run : List (EglEvent × EglState)), s.Initial → eglSystem.Exec s run →
      AllStates KeepsIdentity s run := by
  intro hall
  have hlast := (hall freshEgl _ freshEgl_initial
    (System.exec_traceNext EglState.Initial EglState.next swapConfigured)).last
  obtain ⟨_, hreleases⟩ := hlast 1 0 (by decide)
  exact not_releases (by decide) 0 hreleases

end Wldroid.Egl
