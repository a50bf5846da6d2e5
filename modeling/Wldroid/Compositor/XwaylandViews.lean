import Wldroid.Foundation.Transition
import Wldroid.Foundation.Signals

/-!
# The life of X11 windows

For every X11 window the compositor keeps an `xwayland_view`, which listens to the window, to the
window's surface while it has one, and has a node in the scene while that is mapped.  The window's
signals come in the order that XWayland keeps: a new window, a surface for it, mapping and
unmapping, the surface gone again, the window destroyed.

* `XState.next` — a signal and what the listeners of the view do; a handler that touches freed
  memory or takes out a listener that is not linked crashes the compositor;
* `XInv` — who listens where, and which scene node belongs to which view;
* `xGuarantee_of_reachable` — no order of signals crashes it, and a window that is gone has left
  nothing behind.

What the handlers do to the keyboard focus is in `Compositor.Server`.
-/

namespace Wldroid.Compositor.Xwayland

open Wldroid.Foundation

/-! ### State -/

/-- The listeners of `struct xwayland_view`. -/
inductive ViewListener where
  | associate
  | dissociate
  | map
  | unmap
  | destroy
  | requestConfigure
  | requestFullscreen
  | setOverrideRedirect
  deriving DecidableEq

structure Geometry where
  x : ℤ
  y : ℤ
  width : ℤ
  height : ℤ
  deriving DecidableEq

/-- `struct wlr_xwayland_surface`, with whether its surface is mapped. -/
structure XSurface where
  surface : Option ℕ
  mapped : Bool
  geometry : Geometry
  /-- Ghost: the window has moved itself since the compositor placed it. -/
  moved : Bool

/-- The signals of X11 windows and of surfaces. -/
inductive XSignal where
  | ofWindow (xsurface : ℕ) (signal : ViewListener)
  | ofSurface (surface : ℕ) (signal : ViewListener)
  deriving DecidableEq

/-- `struct xwayland_view`. -/
structure View where
  xsurface : ℕ
  sceneTree : Option ℕ

/-- A node of the scene, with the view as its data. -/
structure SceneNode where
  x : ℤ
  y : ℤ
  data : ℕ

/-- The X11 windows, the views by their address, the scene and who listens where. -/
structure XState where
  xsurfaces : ℕ → Option XSurface
  /-- The X11 window a surface belongs to. -/
  roles : ℕ → Option ℕ
  views : ℕ → Option View
  nodes : ℕ → Option SceneNode
  signals : Signals XSignal (ℕ × ViewListener)
  /-- The size of `server->output`. -/
  output : Option (ℤ × ℤ)
  nextView : ℕ
  nextNode : ℕ
  crashed : Bool

/-- The window a view is for. -/
def XState.windowOf (s : XState) (v : ℕ) : Option ℕ := (s.views v).map View.xsurface

/-- The surface of a window, if there is such a window. -/
def XState.surfaceOf (s : XState) (xsurface : ℕ) : Option (Option ℕ) :=
  (s.xsurfaces xsurface).map XSurface.surface

/-- The signal a listener of a window's view is for; a window without a surface has no signals of
the surface. -/
def signalOf (surfaceOf : ℕ → Option (Option ℕ)) (xsurface : ℕ) : ViewListener → Option XSignal
  | .map => (surfaceOf xsurface).join.map fun w => .ofSurface w .map
  | .unmap => (surfaceOf xsurface).join.map fun w => .ofSurface w .unmap
  | k => some (.ofWindow xsurface k)

/-- Change what is known of a window. -/
def XState.setWindow (s : XState) (xsurface : ℕ) (xs : Option XSurface) : XState :=
  { s with xsurfaces := Function.update s.xsurfaces xsurface xs }

/-- Change a view; none frees it. -/
def XState.setView (s : XState) (v : ℕ) (view : Option View) : XState :=
  { s with views := Function.update s.views v view }

/-- Change a scene node; none destroys it. -/
def XState.setNode (s : XState) (n : ℕ) (node : Option SceneNode) : XState :=
  { s with nodes := Function.update s.nodes n node }

/-! ### Handlers -/

/-- The listeners that are linked from the start to the end of a view. -/
def windowListeners : List ViewListener :=
  [.associate, .dissociate, .destroy, .requestConfigure, .requestFullscreen, .setOverrideRedirect]

/-- The listeners that are linked while the window has a surface. -/
def surfaceListeners : List ViewListener := [.map, .unmap]

/-- `on_new_xwayland_surface`. -/
def onNewXwaylandSurface (s : XState) (xsurface : ℕ) (allocated : Bool) : Option XState :=
  if allocated then
    let v := s.nextView
    (s.signals.addAll (windowListeners.map fun k => (.ofWindow xsurface k, (v, k)))).map fun g =>
      { s.setView v (some ⟨xsurface, none⟩) with signals := g, nextView := v + 1 }
  else some s

/-- `on_xwayland_surface_associate`. -/
def onXwaylandSurfaceAssociate (s : XState) (v : ℕ) : Option XState := do
  let view ← s.views v
  let xs ← s.xsurfaces view.xsurface
  let w ← xs.surface
  let g ← s.signals.addAll (surfaceListeners.map fun k => (.ofSurface w k, (v, k)))
  return { s with signals := g }

/-- `on_xwayland_surface_dissociate`. -/
def onXwaylandSurfaceDissociate (s : XState) (v : ℕ) : Option XState := do
  let view ← s.views v
  let _ ← s.xsurfaces view.xsurface
  let g ← s.signals.removeAll (surfaceListeners.map fun k => (v, k))
  return { s with signals := g }

/-- `on_xwayland_surface_destroy`. -/
def onXwaylandSurfaceDestroy (s : XState) (v : ℕ) : Option XState := do
  let _ ← s.views v
  let g ← s.signals.removeAll (windowListeners.map fun k => (v, k))
  return { s.setView v none with signals := g }

/-- `on_xwayland_surface_map`; `created` tells whether the scene tree could be created. -/
def onXwaylandSurfaceMap (s : XState) (v : ℕ) (created : Bool) : Option XState := do
  let view ← s.views v
  let xs ← s.xsurfaces view.xsurface
  let _ ← xs.surface
  if created then
    let n := s.nextNode
    let s := (s.setNode n (some ⟨xs.geometry.x, xs.geometry.y, v⟩)).setView v
      (some { view with sceneTree := some n })
    return { s with nextNode := n + 1 }
  else return s.setView v (some { view with sceneTree := none })

/-- `on_xwayland_surface_unmap`. -/
def onXwaylandSurfaceUnmap (s : XState) (v : ℕ) : Option XState := do
  let view ← s.views v
  let _ ← s.xsurfaces view.xsurface
  match view.sceneTree with
  | some n =>
      let _ ← s.nodes n
      return (s.setNode n none).setView v (some { view with sceneTree := none })
  | none => return s

/-- `wlr_xwayland_surface_configure`, and `wlr_scene_node_set_position` if the view has a scene
tree. -/
def configure (s : XState) (view : View) (xs : XSurface) (g : Geometry) : Option XState :=
  let s := s.setWindow view.xsurface (some { xs with geometry := g, moved := false })
  match view.sceneTree with
  | some n => (s.nodes n).map fun node => s.setNode n (some { node with x := g.x, y := g.y })
  | none => some s

/-- `on_xwayland_request_configure`. -/
def onXwaylandRequestConfigure (s : XState) (v : ℕ) (request : Geometry) : Option XState := do
  let view ← s.views v
  let xs ← s.xsurfaces view.xsurface
  configure s view xs request

/-- `on_xwayland_request_fullscreen`. -/
def onXwaylandRequestFullscreen (s : XState) (v : ℕ) : Option XState := do
  let view ← s.views v
  let xs ← s.xsurfaces view.xsurface
  match s.output, view.sceneTree with
  | some (width, height), some _ => configure s view xs ⟨0, 0, width, height⟩
  | _, _ => return s

/-- `on_xwayland_set_override_redirect`, which reads the window for its message. -/
def onXwaylandSetOverrideRedirect (s : XState) (v : ℕ) : Option XState := do
  let view ← s.views v
  let _ ← s.xsurfaces view.xsurface
  return s

/-- Call a listener; `created` and `request` come with the signal. -/
def notify (created : Bool) (request : Geometry) : ℕ × ViewListener → XState → Option XState
  | (v, .associate), s => onXwaylandSurfaceAssociate s v
  | (v, .dissociate), s => onXwaylandSurfaceDissociate s v
  | (v, .map), s => onXwaylandSurfaceMap s v created
  | (v, .unmap), s => onXwaylandSurfaceUnmap s v
  | (v, .destroy), s => onXwaylandSurfaceDestroy s v
  | (v, .requestConfigure), s => onXwaylandRequestConfigure s v request
  | (v, .requestFullscreen), s => onXwaylandRequestFullscreen s v
  | (v, .setOverrideRedirect), s => onXwaylandSetOverrideRedirect s v

/-! ### Steps -/

/-- What XWayland tells the compositor, and what changes without its doing. -/
inductive XEvent where
  | newSurface (xsurface : ℕ) (geometry : Geometry) (allocated : Bool)
  | associate (xsurface surface : ℕ)
  | map (xsurface : ℕ) (created : Bool)
  | unmap (xsurface : ℕ)
  | dissociate (xsurface : ℕ)
  | destroy (xsurface : ℕ)
  | requestConfigure (xsurface : ℕ) (request : Geometry)
  | requestFullscreen (xsurface : ℕ)
  | setOverrideRedirect (xsurface : ℕ)
  | windowMoves (xsurface : ℕ) (geometry : Geometry)
  | outputResized (output : Option (ℤ × ℤ))

/-- The order XWayland keeps: a surface is taken away only once it is unmapped, and a window is
destroyed only once it has no surface. -/
def XState.enabled (s : XState) : XEvent → Bool
  | .newSurface x _ _ => (s.xsurfaces x).isNone
  | .associate x w => (s.xsurfaces x).any (fun xs => xs.surface.isNone) && (s.roles w).isNone
  | .map x _ => (s.xsurfaces x).any fun xs => xs.surface.isSome && !xs.mapped
  | .unmap x => (s.xsurfaces x).any XSurface.mapped
  | .dissociate x => (s.xsurfaces x).any fun xs => xs.surface.isSome && !xs.mapped
  | .destroy x => (s.xsurfaces x).any fun xs => xs.surface.isNone
  | .requestConfigure x _ => (s.xsurfaces x).isSome
  | .requestFullscreen x => (s.xsurfaces x).isSome
  | .setOverrideRedirect x => (s.xsurfaces x).isSome
  | .windowMoves x _ => (s.xsurfaces x).isSome
  | .outputResized _ => true

/-- Emit the signal for a kind of listener of a window. -/
def XState.emit (s : XState) (xsurface : ℕ) (k : ViewListener) (created : Bool) (request : Geometry) :
    Option XState :=
  match signalOf s.surfaceOf xsurface k with
  | some sig => s.signals.emit (notify created request) sig s
  | none => some s

def Geometry.zero : Geometry := ⟨0, 0, 0, 0⟩

/-- What happens to a window, and then what the listeners do; none is a crash. -/
def XState.effect (s : XState) : XEvent → Option XState
  | .newSurface x g allocated =>
      onNewXwaylandSurface (s.setWindow x (some ⟨none, false, g, false⟩)) x allocated
  | .associate x w => do
      let xs ← s.xsurfaces x
      let s := { s with roles := Function.update s.roles w (some x) }
      (s.setWindow x (some { xs with surface := some w })).emit x .associate false .zero
  | .map x created => do
      let xs ← s.xsurfaces x
      (s.setWindow x (some { xs with mapped := true, moved := false })).emit x .map created .zero
  | .unmap x => do
      let xs ← s.xsurfaces x
      (s.setWindow x (some { xs with mapped := false })).emit x .unmap false .zero
  | .dissociate x => do
      let xs ← s.xsurfaces x
      let w ← xs.surface
      let s ← s.emit x .dissociate false .zero
      return { s.setWindow x (some { xs with surface := none }) with
        roles := Function.update s.roles w none }
  | .destroy x => do
      let s ← s.emit x .destroy false .zero
      return s.setWindow x none
  | .requestConfigure x request => s.emit x .requestConfigure false request
  | .requestFullscreen x => s.emit x .requestFullscreen false .zero
  | .setOverrideRedirect x => s.emit x .setOverrideRedirect false .zero
  | .windowMoves x g => do
      let xs ← s.xsurfaces x
      return s.setWindow x (some { xs with geometry := g, moved := true })
  | .outputResized output => some { s with output := output }

/-- The next state. -/
def XState.next (s : XState) (e : XEvent) : Option XState :=
  if s.enabled e then some ((s.effect e).getD { s with crashed := true }) else none

/-- XWayland has just been started. -/
def XState.initial (output : Option (ℤ × ℤ)) : XState where
  xsurfaces _ := none
  roles _ := none
  views _ := none
  nodes _ := none
  signals := .empty
  output := output
  nextView := 0
  nextNode := 0
  crashed := false

def xSystem : System XState XEvent :=
  System.ofNext (fun s => ∃ output, s = .initial output) XState.next

/-! ### Who listens where -/

/-- The listeners of the views are linked into the signals of their windows, and of the windows'
surfaces. -/
structure Listening (g : Signals XSignal (ℕ × ViewListener)) (windowOf : ℕ → Option ℕ)
    (surfaceOf : ℕ → Option (Option ℕ)) (roles : ℕ → Option ℕ) : Prop where
  proper : g.Proper
  linked : ∀ sig v k, (sig, (v, k)) ∈ g.links ↔
    ∃ x, windowOf v = some x ∧ signalOf surfaceOf x k = some sig
  host : ∀ v x, windowOf v = some x → surfaceOf x ≠ none
  oneView : ∀ v v' x, windowOf v = some x → windowOf v' = some x → v = v'
  role : ∀ w x, roles w = some x ↔ surfaceOf x = some (some w)

section Listening

variable {g : Signals XSignal (ℕ × ViewListener)} {windowOf : ℕ → Option ℕ}
  {surfaceOf : ℕ → Option (Option ℕ)} {roles : ℕ → Option ℕ} {x w v : ℕ}

theorem signalOf_windowListener {k : ViewListener} (hk : k ∈ windowListeners) :
    signalOf surfaceOf x k = some (.ofWindow x k) := by
  cases k <;> first | rfl | exact absurd hk (by decide)

theorem signalOf_surfaceListener {k : ViewListener} (hk : k ∈ surfaceListeners) :
    signalOf surfaceOf x k = (surfaceOf x).join.map fun w => .ofSurface w k := by
  cases k <;> first | rfl | exact absurd hk (by decide)

theorem listener_cases (k : ViewListener) : k ∈ windowListeners ∨ k ∈ surfaceListeners := by
  cases k <;> decide

theorem signalOf_congr {surfaceOf' : ℕ → Option (Option ℕ)} (h : surfaceOf' x = surfaceOf x)
    (k : ViewListener) : signalOf surfaceOf' x k = signalOf surfaceOf x k := by
  rcases listener_cases k with hk | hk
  · rw [signalOf_windowListener hk, signalOf_windowListener hk]
  · rw [signalOf_surfaceListener hk, signalOf_surfaceListener hk, h]

/-- A signal belongs to one window and one kind of listener. -/
theorem Listening.signalOf_inj (h : Listening g windowOf surfaceOf roles) {x x' : ℕ}
    {k k' : ViewListener} {sig : XSignal} (hsig : signalOf surfaceOf x k = some sig)
    (hsig' : signalOf surfaceOf x' k' = some sig) : x = x' ∧ k = k' := by
  rcases listener_cases k with hk | hk <;> rcases listener_cases k' with hk' | hk'
  · rw [signalOf_windowListener hk] at hsig
    rw [signalOf_windowListener hk', ← hsig] at hsig'
    cases hsig'
    exact ⟨rfl, rfl⟩
  · rw [signalOf_windowListener hk] at hsig
    rw [signalOf_surfaceListener hk', ← hsig] at hsig'
    obtain ⟨w, -, hw⟩ := Option.map_eq_some_iff.mp hsig'
    cases hw
  · rw [signalOf_windowListener hk'] at hsig'
    rw [signalOf_surfaceListener hk, ← hsig'] at hsig
    obtain ⟨w, -, hw⟩ := Option.map_eq_some_iff.mp hsig
    cases hw
  · rw [signalOf_surfaceListener hk] at hsig
    rw [signalOf_surfaceListener hk'] at hsig'
    obtain ⟨w, hw, rfl⟩ := Option.map_eq_some_iff.mp hsig
    obtain ⟨w', hw', heq⟩ := Option.map_eq_some_iff.mp hsig'
    cases heq
    have hx := (h.role w x).mpr (Option.join_eq_some_iff.mp hw)
    have hx' := (h.role w x').mpr (Option.join_eq_some_iff.mp hw')
    exact ⟨Option.some.inj (hx.symm.trans hx'), rfl⟩

/-- A signal of a window calls the view of the window, if there is one. -/
theorem Listening.emit_cases (h : Listening g windowOf surfaceOf roles) {k : ViewListener}
    {sig : XSignal} (hsig : signalOf surfaceOf x k = some sig) {τ : Type}
    (notify : ℕ × ViewListener → τ → Option τ) (t : τ) :
    (∃ v, windowOf v = some x ∧ g.emit notify sig t = notify (v, k) t) ∨
      ((∀ v, windowOf v ≠ some x) ∧ g.emit notify sig t = some t) := by
  by_cases hview : ∃ v, windowOf v = some x
  · obtain ⟨v, hv⟩ := hview
    refine .inl ⟨v, hv, Signals.emit_one notify t h.proper ((h.linked sig v k).mpr ⟨x, hv, hsig⟩) ?_⟩
    rintro ⟨v', k'⟩ hmem
    obtain ⟨x', hv', hsig'⟩ := (h.linked sig v' k').mp hmem
    obtain ⟨rfl, rfl⟩ := h.signalOf_inj hsig hsig'
    rw [h.oneView v v' x hv hv']
  · have hnone : ∀ v, windowOf v ≠ some x := fun v hv => hview ⟨v, hv⟩
    refine .inr ⟨hnone, Signals.emit_nobody notify t ?_⟩
    rintro ⟨v', k'⟩ hmem
    obtain ⟨x', hv', hsig'⟩ := (h.linked sig v' k').mp hmem
    obtain ⟨rfl, -⟩ := h.signalOf_inj hsig hsig'
    exact hnone v' hv'

/-- A view that does not exist has no listeners. -/
theorem Listening.not_linked (h : Listening g windowOf surfaceOf roles) (hv : windowOf v = none)
    (k : ViewListener) : (v, k) ∉ g.linked := by
  intro hmem
  obtain ⟨sig, hlink⟩ := Signals.mem_linked.mp hmem
  obtain ⟨x, hx, -⟩ := (h.linked sig v k).mp hlink
  exact absurd (hv.symm.trans hx) (by simp)

/-! The rules for what happens to windows and views. -/

/-- The window of a view other than that of `x` is another one. -/
theorem signalOf_update (o : Option (Option ℕ)) {x' : ℕ} (hx : x' ≠ x) (k : ViewListener) :
    signalOf (Function.update surfaceOf x o) x' k = signalOf surfaceOf x' k :=
  signalOf_congr (Function.update_of_ne hx o surfaceOf) k

/-- What is known of a window changes that has no view. -/
theorem Listening.withoutView (h : Listening g windowOf surfaceOf roles) (o : Option (Option ℕ))
    {roles' : ℕ → Option ℕ} (hnone : ∀ v, windowOf v ≠ some x)
    (hrole : ∀ w x', roles' w = some x' ↔ Function.update surfaceOf x o x' = some (some w)) :
    Listening g windowOf (Function.update surfaceOf x o) roles' where
  proper := h.proper
  linked sig v k := by
    rw [h.linked sig v k]
    refine exists_congr fun x' => and_congr_right fun hv => ?_
    have hne : x' ≠ x := fun heq => hnone v (heq ▸ hv)
    rw [signalOf_update o hne k]
  host v x' hv := by
    have hne : x' ≠ x := fun heq => hnone v (heq ▸ hv)
    rw [Function.update_of_ne hne]
    exact h.host v x' hv
  oneView := h.oneView
  role := hrole

theorem Listening.newView (h : Listening g windowOf surfaceOf roles) (hx : surfaceOf x = some none)
    (hv : windowOf v = none) (hnone : ∀ v', windowOf v' ≠ some x) :
    ∃ g', g.addAll (windowListeners.map fun k => (.ofWindow x k, (v, k))) = some g' ∧
      Listening g' (Function.update windowOf v (some x)) surfaceOf roles := by
  obtain ⟨g', hadd, hproper, hlinks⟩ := Signals.addAll_own (v := v) h.proper
    (show windowListeners.Nodup by decide) (fun k => XSignal.ofWindow x k)
    fun k _ => h.not_linked hv k
  refine ⟨g', hadd, hproper, ?_, ?_, ?_, h.role⟩
  · intro sig v' k
    rw [hlinks sig v' k, h.linked sig v' k]
    by_cases heq : v' = v
    · subst heq
      rw [Function.update_self]
      constructor
      · rintro (⟨x', hx', -⟩ | ⟨-, hk, hsig⟩)
        · exact absurd (hv.symm.trans hx') (by simp)
        · exact ⟨x, rfl, (signalOf_windowListener hk).trans (congrArg some hsig)⟩
      · rintro ⟨x', hx', hsig⟩
        obtain rfl := Option.some.inj hx'
        right
        rcases listener_cases k with hk | hk
        · rw [signalOf_windowListener hk] at hsig
          exact ⟨rfl, hk, Option.some.inj hsig⟩
        · rw [signalOf_surfaceListener hk, hx] at hsig
          cases hsig
    · rw [Function.update_of_ne heq]
      exact or_iff_left fun hnew => heq hnew.1
  · intro v' x' hv'
    by_cases heq : v' = v
    · subst heq
      rw [Function.update_self] at hv'
      obtain rfl := Option.some.inj hv'
      rw [hx]
      simp
    · rw [Function.update_of_ne heq] at hv'
      exact h.host v' x' hv'
  · intro v₁ v₂ x' hv₁ hv₂
    by_cases h₁ : v₁ = v <;> by_cases h₂ : v₂ = v
    · rw [h₁, h₂]
    · rw [h₁, Function.update_self] at hv₁
      rw [Function.update_of_ne h₂, ← hv₁] at hv₂
      exact absurd hv₂ (hnone v₂)
    · rw [h₂, Function.update_self] at hv₂
      rw [Function.update_of_ne h₁, ← hv₂] at hv₁
      exact absurd hv₁ (hnone v₁)
    · rw [Function.update_of_ne h₁] at hv₁
      rw [Function.update_of_ne h₂] at hv₂
      exact h.oneView v₁ v₂ x' hv₁ hv₂

/-- A surface is given a window. -/
theorem Listening.role_associate (h : Listening g windowOf surfaceOf roles)
    (hx : surfaceOf x = some none) (hw : roles w = none) (w' x' : ℕ) :
    Function.update roles w (some x) w' = some x' ↔
      Function.update surfaceOf x (some (some w)) x' = some (some w') := by
  by_cases hww : w' = w <;> by_cases hxx : x' = x
  · rw [hww, hxx, Function.update_self, Function.update_self]
    exact ⟨fun _ => rfl, fun _ => rfl⟩
  · rw [hww, Function.update_self, Function.update_of_ne hxx, ← h.role w x', hw]
    simp [Ne.symm hxx]
  · rw [hxx, Function.update_self, Function.update_of_ne hww, h.role w' x, hx]
    simp [Ne.symm hww]
  · rw [Function.update_of_ne hww, Function.update_of_ne hxx]
    exact h.role w' x'

/-- A surface loses its window. -/
theorem Listening.role_dissociate (h : Listening g windowOf surfaceOf roles)
    (hx : surfaceOf x = some (some w)) (w' x' : ℕ) :
    Function.update roles w none w' = some x' ↔
      Function.update surfaceOf x (some none) x' = some (some w') := by
  have hw := (h.role w x).mpr hx
  by_cases hww : w' = w <;> by_cases hxx : x' = x
  · rw [hww, hxx, Function.update_self, Function.update_self]
    simp
  · rw [hww, Function.update_self, Function.update_of_ne hxx, ← h.role w x', hw]
    simp [Ne.symm hxx]
  · rw [hxx, Function.update_self, Function.update_of_ne hww, h.role w' x, hx]
    simp [Ne.symm hww]
  · rw [Function.update_of_ne hww, Function.update_of_ne hxx]
    exact h.role w' x'

/-- What changes for the view of a window whose surface changes. -/
theorem Listening.withView (h : Listening g windowOf surfaceOf roles) (o : Option ℕ)
    {g' : Signals XSignal (ℕ × ViewListener)} {roles' : ℕ → Option ℕ} (hproper : g'.Proper)
    (hv : windowOf v = some x)
    (hother : ∀ sig v' k, v' ≠ v → ((sig, (v', k)) ∈ g'.links ↔ (sig, (v', k)) ∈ g.links))
    (hown : ∀ sig k, (sig, (v, k)) ∈ g'.links ↔
      signalOf (Function.update surfaceOf x (some o)) x k = some sig)
    (hrole : ∀ w x', roles' w = some x' ↔ Function.update surfaceOf x (some o) x' = some (some w)) :
    Listening g' windowOf (Function.update surfaceOf x (some o)) roles' where
  proper := hproper
  linked sig v' k := by
    by_cases heq : v' = v
    · rw [heq, hown sig k, hv]
      simp
    · rw [hother sig v' k heq, h.linked sig v' k]
      refine exists_congr fun x' => and_congr_right fun hv' => ?_
      have hne : x' ≠ x := fun hxx => heq (h.oneView v' v x (hxx ▸ hv') hv)
      rw [signalOf_update (some o) hne k]
  host v' x' hv' := by
    by_cases heq : x' = x
    · rw [heq, Function.update_self]
      simp
    · rw [Function.update_of_ne heq]
      exact h.host v' x' hv'
  oneView := h.oneView
  role := hrole

theorem Listening.associate (h : Listening g windowOf surfaceOf roles)
    (hx : surfaceOf x = some none) (hw : roles w = none) (hv : windowOf v = some x) :
    ∃ g', g.addAll (surfaceListeners.map fun k => (.ofSurface w k, (v, k))) = some g' ∧
      Listening g' windowOf (Function.update surfaceOf x (some (some w)))
        (Function.update roles w (some x)) := by
  have hnew : ∀ k ∈ surfaceListeners, (v, k) ∉ g.linked := by
    intro k hk hmem
    obtain ⟨sig, hlink⟩ := Signals.mem_linked.mp hmem
    obtain ⟨x', hx', hsig⟩ := (h.linked sig v k).mp hlink
    obtain rfl := Option.some.inj (hv.symm.trans hx')
    rw [signalOf_surfaceListener hk, hx] at hsig
    cases hsig
  obtain ⟨g', hadd, hproper, hlinks⟩ := Signals.addAll_own h.proper
    (show surfaceListeners.Nodup by decide) (fun k => XSignal.ofSurface w k) hnew
  refine ⟨g', hadd, h.withView (some w) hproper hv ?_ ?_ (h.role_associate hx hw)⟩
  · intro sig v' k hne
    rw [hlinks sig v' k]
    exact or_iff_left fun hown => hne hown.1
  · intro sig k
    rw [hlinks sig v k, h.linked sig v k]
    rcases listener_cases k with hk | hk
    · have hnot : k ∉ surfaceListeners := by revert hk; cases k <;> decide
      rw [signalOf_windowListener hk]
      simp [hv, hnot, signalOf_windowListener hk]
    · rw [signalOf_surfaceListener hk, Function.update_self]
      simp [hv, hk, signalOf_surfaceListener hk, hx]

theorem Listening.dissociate (h : Listening g windowOf surfaceOf roles)
    (hx : surfaceOf x = some (some w)) (hv : windowOf v = some x) :
    ∃ g', g.removeAll (surfaceListeners.map fun k => (v, k)) = some g' ∧
      Listening g' windowOf (Function.update surfaceOf x (some none))
        (Function.update roles w none) := by
  have hold : ∀ k ∈ surfaceListeners, (v, k) ∈ g.linked := by
    intro k hk
    refine Signals.mem_linked.mpr ⟨.ofSurface w k, (h.linked _ v k).mpr ⟨x, hv, ?_⟩⟩
    rw [signalOf_surfaceListener hk, hx]
    rfl
  obtain ⟨g', hremove, hproper, hlinks⟩ := Signals.removeAll_own h.proper
    (show surfaceListeners.Nodup by decide) hold
  refine ⟨g', hremove, h.withView none hproper hv ?_ ?_ (h.role_dissociate hx)⟩
  · intro sig v' k hne
    rw [hlinks sig v' k]
    exact and_iff_left fun hown => hne hown.1
  · intro sig k
    rw [hlinks sig v k, h.linked sig v k]
    rcases listener_cases k with hk | hk
    · have hnot : k ∉ surfaceListeners := by revert hk; cases k <;> decide
      rw [signalOf_windowListener hk]
      simp [hv, hnot, signalOf_windowListener hk]
    · rw [signalOf_surfaceListener hk, Function.update_self]
      simp [hk]

theorem Listening.destroyView (h : Listening g windowOf surfaceOf roles)
    (hx : surfaceOf x = some none) (hv : windowOf v = some x) :
    ∃ g', g.removeAll (windowListeners.map fun k => (v, k)) = some g' ∧
      Listening g' (Function.update windowOf v none) surfaceOf roles := by
  have hold : ∀ k ∈ windowListeners, (v, k) ∈ g.linked := by
    intro k hk
    exact Signals.mem_linked.mpr
      ⟨.ofWindow x k, (h.linked _ v k).mpr ⟨x, hv, signalOf_windowListener hk⟩⟩
  obtain ⟨g', hremove, hproper, hlinks⟩ := Signals.removeAll_own h.proper
    (show windowListeners.Nodup by decide) hold
  refine ⟨g', hremove, hproper, ?_, ?_, ?_, h.role⟩
  · intro sig v' k
    rw [hlinks sig v' k, h.linked sig v' k]
    by_cases heq : v' = v
    · subst heq
      rw [Function.update_self]
      constructor
      · rintro ⟨⟨x', hx', hsig⟩, hnot⟩
        obtain rfl := Option.some.inj (hv.symm.trans hx')
        rcases listener_cases k with hk | hk
        · exact absurd ⟨rfl, hk⟩ hnot
        · rw [signalOf_surfaceListener hk, hx] at hsig
          cases hsig
      · rintro ⟨x', hx', -⟩
        cases hx'
    · rw [Function.update_of_ne heq]
      exact and_iff_left fun hown => heq hown.1
  · intro v' x' hv'
    by_cases heq : v' = v
    · rw [heq, Function.update_self] at hv'
      cases hv'
    · rw [Function.update_of_ne heq] at hv'
      exact h.host v' x' hv'
  · intro v₁ v₂ x' hv₁ hv₂
    by_cases h₁ : v₁ = v
    · rw [h₁, Function.update_self] at hv₁
      cases hv₁
    · by_cases h₂ : v₂ = v
      · rw [h₂, Function.update_self] at hv₂
        cases hv₂
      · rw [Function.update_of_ne h₁] at hv₁
        rw [Function.update_of_ne h₂] at hv₂
        exact h.oneView v₁ v₂ x' hv₁ hv₂

end Listening

/-! ### The scene -/

/-- The nodes of the scene are those of the views; a view has one only while its window is mapped,
and it is where the window was put last. -/
structure Scene (views : ℕ → Option View) (nodes : ℕ → Option SceneNode)
    (xsurfaces : ℕ → Option XSurface) : Prop where
  node : ∀ n node, nodes n = some node →
    ∃ view, views node.data = some view ∧ view.sceneTree = some n
  tree : ∀ v view n, views v = some view → view.sceneTree = some n →
    ∃ node xs, nodes n = some node ∧ node.data = v ∧ xsurfaces view.xsurface = some xs ∧
      xs.mapped = true ∧ (xs.moved = false → node.x = xs.geometry.x ∧ node.y = xs.geometry.y)
  mapped : ∀ x xs, xsurfaces x = some xs → xs.mapped = true → xs.surface ≠ none

section Scene

variable {views : ℕ → Option View} {nodes : ℕ → Option SceneNode}
  {xsurfaces : ℕ → Option XSurface} {x v n : ℕ} {xs : XSurface} {view : View} {node : SceneNode}

/-- The view of a window that is not mapped has no node. -/
theorem Scene.noTree (h : Scene views nodes xsurfaces)
    (hx : ∀ xs, xsurfaces x = some xs → xs.mapped = false) (hv : views v = some view)
    (hwindow : view.xsurface = x) : view.sceneTree = none := by
  cases htree : view.sceneTree with
  | none => rfl
  | some n =>
    obtain ⟨node, xs, -, -, hxs, hmapped, -⟩ := h.tree v view n hv htree
    rw [hx xs (hwindow ▸ hxs)] at hmapped
    cases hmapped

/-- A window changes whose view has no node. -/
theorem Scene.setWindow (h : Scene views nodes xsurfaces) {new : Option XSurface}
    (hno : ∀ v view, views v = some view → view.xsurface = x → view.sceneTree = none)
    (hnew : ∀ xs, new = some xs → xs.mapped = true → xs.surface ≠ none) :
    Scene views nodes (Function.update xsurfaces x new) where
  node := h.node
  tree v view n hv htree := by
    have hne : view.xsurface ≠ x := fun heq => by
      rw [hno v view hv heq] at htree
      cases htree
    obtain ⟨node, xs, hnode, hdata, hxs, hrest⟩ := h.tree v view n hv htree
    exact ⟨node, xs, hnode, hdata, (Function.update_of_ne hne new xsurfaces).trans hxs, hrest⟩
  mapped x' xs hxs := by
    by_cases heq : x' = x
    · rw [heq, Function.update_self] at hxs
      exact hnew xs hxs
    · rw [Function.update_of_ne heq] at hxs
      exact h.mapped x' xs hxs

/-- A view without a node comes, changes or goes. -/
theorem Scene.setView (h : Scene views nodes xsurfaces) {new : Option View}
    (hold : ∀ view, views v = some view → view.sceneTree = none)
    (hnew : ∀ view, new = some view → view.sceneTree = none) :
    Scene (Function.update views v new) nodes xsurfaces where
  node n node hnode := by
    obtain ⟨view, hview, htree⟩ := h.node n node hnode
    have hne : node.data ≠ v := fun heq => by
      rw [hold view (heq ▸ hview)] at htree
      cases htree
    exact ⟨view, (Function.update_of_ne hne new views).trans hview, htree⟩
  tree v' view n hv htree := by
    by_cases heq : v' = v
    · rw [heq, Function.update_self] at hv
      rw [hnew view hv] at htree
      cases htree
    · rw [Function.update_of_ne heq] at hv
      exact h.tree v' view n hv htree
  mapped := h.mapped

/-- The view of a mapped window gets a node. -/
theorem Scene.create (h : Scene views nodes xsurfaces) (hv : views v = some view)
    (hnone : view.sceneTree = none) (hn : nodes n = none) (hxs : xsurfaces view.xsurface = some xs)
    (hmapped : xs.mapped = true) :
    Scene (Function.update views v (some { view with sceneTree := some n }))
      (Function.update nodes n (some ⟨xs.geometry.x, xs.geometry.y, v⟩)) xsurfaces where
  node n' node hnode := by
    by_cases heq : n' = n
    · subst heq
      rw [Function.update_self] at hnode
      obtain rfl := Option.some.inj hnode
      exact ⟨_, Function.update_self v _ views, rfl⟩
    · rw [Function.update_of_ne heq] at hnode
      obtain ⟨view', hview', htree⟩ := h.node n' node hnode
      have hne : node.data ≠ v := fun hdata => by
        rw [hdata, hv] at hview'
        obtain rfl := Option.some.inj hview'
        rw [hnone] at htree
        cases htree
      exact ⟨view', (Function.update_of_ne hne _ views).trans hview', htree⟩
  tree v' view' n' hv' htree := by
    by_cases heq : v' = v
    · subst heq
      rw [Function.update_self] at hv'
      obtain rfl := Option.some.inj hv'
      obtain rfl := Option.some.inj htree
      exact ⟨_, xs, Function.update_self n _ nodes, rfl, hxs, hmapped, fun _ => ⟨rfl, rfl⟩⟩
    · rw [Function.update_of_ne heq] at hv'
      obtain ⟨node, xs', hnode, hrest⟩ := h.tree v' view' n' hv' htree
      have hne : n' ≠ n := fun hnn => by
        rw [hnn, hn] at hnode
        cases hnode
      exact ⟨node, xs', (Function.update_of_ne hne _ nodes).trans hnode, hrest⟩
  mapped := h.mapped

/-- The node of a view is destroyed. -/
theorem Scene.destroy (h : Scene views nodes xsurfaces) (hv : views v = some view)
    (htree : view.sceneTree = some n) :
    Scene (Function.update views v (some { view with sceneTree := none }))
      (Function.update nodes n none) xsurfaces where
  node n' node hnode := by
    by_cases heq : n' = n
    · rw [heq, Function.update_self] at hnode
      cases hnode
    · rw [Function.update_of_ne heq] at hnode
      obtain ⟨view', hview', htree'⟩ := h.node n' node hnode
      have hne : node.data ≠ v := fun hdata => by
        rw [hdata, hv] at hview'
        obtain rfl := Option.some.inj hview'
        exact heq (Option.some.inj (htree'.symm.trans htree))
      exact ⟨view', (Function.update_of_ne hne _ views).trans hview', htree'⟩
  tree v' view' n' hv' htree' := by
    by_cases heq : v' = v
    · subst heq
      rw [Function.update_self] at hv'
      obtain rfl := Option.some.inj hv'
      cases htree'
    · rw [Function.update_of_ne heq] at hv'
      obtain ⟨node, xs', hnode, hdata, hrest⟩ := h.tree v' view' n' hv' htree'
      obtain ⟨node₀, -, hnode₀, hdata₀, -⟩ := h.tree v view n hv htree
      have hne : n' ≠ n := fun hnn => by
        rw [hnn, hnode₀] at hnode
        obtain rfl := Option.some.inj hnode
        exact heq (hdata.symm.trans hdata₀)
      exact ⟨node, xs', (Function.update_of_ne hne _ nodes).trans hnode, hdata, hrest⟩
  mapped := h.mapped

/-- A window and the node of its view are put somewhere. -/
theorem Scene.configure (h : Scene views nodes xsurfaces) (hv : views v = some view)
    (htree : view.sceneTree = some n) (hnode : nodes n = some node)
    (hxs : xsurfaces view.xsurface = some xs) (g : Geometry)
    (honly : ∀ v' view', views v' = some view' → view'.xsurface = view.xsurface → v' = v) :
    Scene views (Function.update nodes n (some { node with x := g.x, y := g.y }))
      (Function.update xsurfaces view.xsurface
        (some { xs with geometry := g, moved := false })) where
  node n' node' hnode' := by
    by_cases heq : n' = n
    · subst heq
      rw [Function.update_self] at hnode'
      obtain rfl := Option.some.inj hnode'
      exact h.node n' node hnode
    · rw [Function.update_of_ne heq] at hnode'
      exact h.node n' node' hnode'
  tree v' view' n' hv' htree' := by
    obtain ⟨node', xs', hnode', hdata', hxs', hmapped', hpos⟩ := h.tree v' view' n' hv' htree'
    by_cases heq : v' = v
    · subst heq
      obtain rfl := Option.some.inj (hv.symm.trans hv')
      obtain rfl := Option.some.inj (htree.symm.trans htree')
      obtain rfl := Option.some.inj (hnode.symm.trans hnode')
      obtain rfl := Option.some.inj (hxs.symm.trans hxs')
      exact ⟨_, _, Function.update_self n _ nodes, hdata', Function.update_self _ _ xsurfaces,
        hmapped', fun _ => ⟨rfl, rfl⟩⟩
    · have hwindow : view'.xsurface ≠ view.xsurface := fun hx => heq (honly v' view' hv' hx)
      have hne : n' ≠ n := fun hnn => by
        obtain ⟨node₀, -, hnode₀, hdata₀, -⟩ := h.tree v view n hv htree
        rw [hnn, hnode₀] at hnode'
        obtain rfl := Option.some.inj hnode'
        exact heq (hdata'.symm.trans hdata₀)
      exact ⟨node', xs', (Function.update_of_ne hne _ nodes).trans hnode', hdata',
        (Function.update_of_ne hwindow _ xsurfaces).trans hxs', hmapped', hpos⟩
  mapped x xs' hxs' := by
    by_cases heq : x = view.xsurface
    · rw [heq, Function.update_self] at hxs'
      obtain rfl := Option.some.inj hxs'
      exact h.mapped _ xs hxs
    · rw [Function.update_of_ne heq] at hxs'
      exact h.mapped x xs' hxs'

/-- A window moves itself. -/
theorem Scene.windowMoves (h : Scene views nodes xsurfaces) (hxs : xsurfaces x = some xs)
    (g : Geometry) :
    Scene views nodes
      (Function.update xsurfaces x (some { xs with geometry := g, moved := true })) where
  node := h.node
  tree v view n hv htree := by
    obtain ⟨node, xs', hnode, hdata, hxs', hmapped, hpos⟩ := h.tree v view n hv htree
    by_cases heq : view.xsurface = x
    · subst heq
      obtain rfl := Option.some.inj (hxs.symm.trans hxs')
      exact ⟨node, _, hnode, hdata, Function.update_self _ _ xsurfaces, hmapped, nofun⟩
    · exact ⟨node, xs', hnode, hdata, (Function.update_of_ne heq _ xsurfaces).trans hxs', hmapped,
        hpos⟩
  mapped x' xs' hxs' := by
    by_cases heq : x' = x
    · rw [heq, Function.update_self] at hxs'
      obtain rfl := Option.some.inj hxs'
      exact h.mapped x xs hxs
    · rw [Function.update_of_ne heq] at hxs'
      exact h.mapped x' xs' hxs'

end Scene

/-! ### The invariant -/

/-- What holds in every state. -/
structure XInv (s : XState) : Prop where
  alive : s.crashed = false
  listening : Listening s.signals s.windowOf s.surfaceOf s.roles
  scene : Scene s.views s.nodes s.xsurfaces
  freshView : ∀ v, s.nextView ≤ v → s.views v = none
  freshNode : ∀ n, s.nextNode ≤ n → s.nodes n = none

section Inv

variable {s : XState} {x w v : ℕ} {xs : XSurface} {view : View}

theorem surfaceOf_update (s : XState) (x : ℕ) (new : Option XSurface) :
    (fun x' => (Function.update s.xsurfaces x new x').map XSurface.surface) =
      Function.update s.surfaceOf x (new.map XSurface.surface) := by
  funext x'
  by_cases heq : x' = x
  · rw [heq, Function.update_self, Function.update_self]
  · rw [Function.update_of_ne heq, Function.update_of_ne heq]
    rfl

theorem windowOf_update (s : XState) (v : ℕ) (new : Option View) :
    (fun v' => (Function.update s.views v new v').map View.xsurface) =
      Function.update s.windowOf v (new.map View.xsurface) := by
  funext v'
  by_cases heq : v' = v
  · rw [heq, Function.update_self, Function.update_self]
  · rw [Function.update_of_ne heq, Function.update_of_ne heq]
    rfl

theorem surfaceOf_eq (hxs : s.xsurfaces x = some xs) : s.surfaceOf x = some xs.surface :=
  congrArg (Option.map XSurface.surface) hxs

theorem windowOf_eq (hv : s.views v = some view) : s.windowOf v = some view.xsurface :=
  congrArg (Option.map View.xsurface) hv

theorem exists_view (h : s.windowOf v = some x) :
    ∃ view, s.views v = some view ∧ view.xsurface = x :=
  Option.map_eq_some_iff.mp h

/-- The window of a view exists. -/
theorem XInv.window (hi : XInv s) (hv : s.views v = some view) :
    ∃ xs, s.xsurfaces view.xsurface = some xs := by
  have hhost := hi.listening.host v _ (windowOf_eq hv)
  cases hxs : s.xsurfaces view.xsurface with
  | none => exact absurd (congrArg (Option.map XSurface.surface) hxs) hhost
  | some xs => exact ⟨xs, rfl⟩

theorem XInv.onlyView (hi : XInv s) (hv : s.views v = some view) {v' : ℕ} {view' : View}
    (hv' : s.views v' = some view') (hx : view'.xsurface = view.xsurface) : v' = v :=
  hi.listening.oneView v' v view.xsurface (hx ▸ windowOf_eq hv') (windowOf_eq hv)

/-- The view of a window that is not mapped has no node. -/
theorem XInv.noTree (hi : XInv s) (hxs : s.xsurfaces x = some xs) (hunmapped : xs.mapped = false)
    (v : ℕ) (view : View) (hv : s.views v = some view) (hwindow : view.xsurface = x) :
    view.sceneTree = none := by
  refine hi.scene.noTree (fun xs' hxs' => ?_) hv hwindow
  obtain rfl := Option.some.inj (hxs.symm.trans hxs')
  exact hunmapped

/-- A view keeps its window. -/
theorem windowOf_setTree (hv : s.views v = some view) (tree : Option ℕ) :
    (s.setView v (some { view with sceneTree := tree })).windowOf = s.windowOf := by
  refine (windowOf_update s v _).trans ?_
  show Function.update s.windowOf v (some view.xsurface) = s.windowOf
  rw [← windowOf_eq hv, Function.update_eq_self]

/-- A view that exists has no address that is still to come. -/
theorem XInv.freshView_setView (hi : XInv s) (hv : s.views v = some view) {new : Option View}
    (v' : ℕ) (hv' : s.nextView ≤ v') : Function.update s.views v new v' = none := by
  have hnone := hi.freshView v' hv'
  have hne : v' ≠ v := fun heq => by
    rw [heq, hv] at hnone
    cases hnone
  exact (Function.update_of_ne hne new s.views).trans hnone

/-- Emitting a signal of a window: its view is told, if it has one. -/
theorem emit_cases (hl : Listening s.signals s.windowOf s.surfaceOf s.roles) {t : XState}
    {k : ViewListener} {sig : XSignal} (hsig : signalOf s.surfaceOf x k = some sig)
    (hsig' : signalOf t.surfaceOf x k = some sig) (hsignals : t.signals = s.signals)
    (created : Bool) (request : Geometry) :
    (∃ v view, s.views v = some view ∧ view.xsurface = x ∧
        t.emit x k created request = notify created request (v, k) t) ∨
      ((∀ v, s.windowOf v ≠ some x) ∧ t.emit x k created request = some t) := by
  have hemit : t.emit x k created request = s.signals.emit (notify created request) sig t := by
    unfold XState.emit
    rw [hsig', hsignals]
  rw [hemit]
  rcases hl.emit_cases hsig (notify created request) t with ⟨v, hv, h⟩ | h
  · obtain ⟨view, hview, hwindow⟩ := exists_view hv
    exact .inl ⟨v, view, hview, hwindow, h⟩
  · exact .inr h

/-- A window keeps its surface. -/
theorem surfaceOf_setWindow (hxs : s.xsurfaces x = some xs) {new : XSurface}
    (hsurface : new.surface = xs.surface) : (s.setWindow x (some new)).surfaceOf = s.surfaceOf := by
  refine (surfaceOf_update s x (some new)).trans ?_
  rw [Option.map_some, hsurface, ← surfaceOf_eq hxs, Function.update_eq_self]

/-- A change of a window that concerns neither its surface nor a node. -/
theorem XInv.setWindow (hi : XInv s) (hxs : s.xsurfaces x = some xs) {new : XSurface}
    (hsurface : new.surface = xs.surface)
    (hscene : Scene s.views s.nodes (Function.update s.xsurfaces x (some new))) :
    XInv (s.setWindow x (some new)) where
  alive := hi.alive
  listening := by
    show Listening s.signals s.windowOf (s.setWindow x (some new)).surfaceOf s.roles
    rw [surfaceOf_setWindow hxs hsurface]
    exact hi.listening
  scene := hscene
  freshView := hi.freshView
  freshNode := hi.freshNode

/-! ### What each handler does -/

theorem onXwaylandSurfaceAssociate_eq (hv : s.views v = some view)
    (hxs : s.xsurfaces view.xsurface = some xs) (hw : xs.surface = some w)
    {g : Signals XSignal (ℕ × ViewListener)}
    (hadd : s.signals.addAll (surfaceListeners.map fun k => (.ofSurface w k, (v, k))) = some g) :
    onXwaylandSurfaceAssociate s v = some { s with signals := g } := by
  simp only [onXwaylandSurfaceAssociate, hv, hxs, hw, hadd, Option.bind_eq_bind, Option.bind_some]
  rfl

theorem onXwaylandSurfaceDissociate_eq (hv : s.views v = some view)
    (hxs : s.xsurfaces view.xsurface = some xs) {g : Signals XSignal (ℕ × ViewListener)}
    (hremove : s.signals.removeAll (surfaceListeners.map fun k => (v, k)) = some g) :
    onXwaylandSurfaceDissociate s v = some { s with signals := g } := by
  simp only [onXwaylandSurfaceDissociate, hv, hxs, hremove, Option.bind_eq_bind, Option.bind_some]
  rfl

theorem onXwaylandSurfaceDestroy_eq (hv : s.views v = some view)
    {g : Signals XSignal (ℕ × ViewListener)}
    (hremove : s.signals.removeAll (windowListeners.map fun k => (v, k)) = some g) :
    onXwaylandSurfaceDestroy s v = some { s.setView v none with signals := g } := by
  simp only [onXwaylandSurfaceDestroy, hv, hremove, Option.bind_eq_bind, Option.bind_some]
  rfl

theorem onXwaylandSurfaceMap_created (hv : s.views v = some view)
    (hxs : s.xsurfaces view.xsurface = some xs) (hw : xs.surface = some w) :
    onXwaylandSurfaceMap s v true =
      some { (s.setNode s.nextNode (some ⟨xs.geometry.x, xs.geometry.y, v⟩)).setView v
        (some { view with sceneTree := some s.nextNode }) with nextNode := s.nextNode + 1 } := by
  simp only [onXwaylandSurfaceMap, hv, hxs, hw, Option.bind_eq_bind, Option.bind_some, if_true]
  rfl

theorem onXwaylandSurfaceMap_failed (hv : s.views v = some view)
    (hxs : s.xsurfaces view.xsurface = some xs) (hw : xs.surface = some w) :
    onXwaylandSurfaceMap s v false = some (s.setView v (some { view with sceneTree := none })) := by
  simp only [onXwaylandSurfaceMap, hv, hxs, hw, Option.bind_eq_bind, Option.bind_some,
    Bool.false_eq_true, if_false]
  rfl

theorem onXwaylandSurfaceUnmap_node (hv : s.views v = some view)
    (hxs : s.xsurfaces view.xsurface = some xs) {n : ℕ} {node : SceneNode}
    (htree : view.sceneTree = some n) (hnode : s.nodes n = some node) :
    onXwaylandSurfaceUnmap s v =
      some ((s.setNode n none).setView v (some { view with sceneTree := none })) := by
  simp only [onXwaylandSurfaceUnmap, hv, hxs, htree, hnode, Option.bind_eq_bind, Option.bind_some]
  rfl

theorem onXwaylandSurfaceUnmap_none (hv : s.views v = some view)
    (hxs : s.xsurfaces view.xsurface = some xs) (htree : view.sceneTree = none) :
    onXwaylandSurfaceUnmap s v = some s := by
  simp only [onXwaylandSurfaceUnmap, hv, hxs, htree, Option.bind_eq_bind, Option.bind_some]
  rfl

/-! ### What each signal does -/

theorem XInv.newSurface (hi : XInv s) (hx : s.xsurfaces x = none) (g : Geometry)
    (allocated : Bool) : ∃ t, s.effect (.newSurface x g allocated) = some t ∧ XInv t := by
  have hnone : ∀ v, s.windowOf v ≠ some x := by
    intro v hv
    exact hi.listening.host v x hv (congrArg (Option.map XSurface.surface) hx)
  have hlisten : Listening s.signals s.windowOf (Function.update s.surfaceOf x (some none))
      s.roles := by
    refine hi.listening.withoutView _ hnone fun w x' => ?_
    rw [hi.listening.role w x']
    by_cases heq : x' = x
    · rw [heq, Function.update_self, show s.surfaceOf x = none from
        congrArg (Option.map XSurface.surface) hx]
      simp
    · rw [Function.update_of_ne heq]
  have hscene : Scene s.views s.nodes
      (Function.update s.xsurfaces x (some ⟨none, false, g, false⟩)) := by
    refine hi.scene.setWindow (fun v view hv hwindow => ?_) ?_
    · exact absurd ((windowOf_eq hv).trans (congrArg some hwindow)) (hnone v)
    · intro xs hxs hmapped
      obtain rfl := Option.some.inj hxs
      cases hmapped
  have hsurface : (s.setWindow x (some ⟨none, false, g, false⟩)).surfaceOf =
      Function.update s.surfaceOf x (some none) := surfaceOf_update s x _
  cases allocated with
  | false =>
    refine ⟨_, rfl, hi.alive, ?_, hscene, hi.freshView, hi.freshNode⟩
    show Listening s.signals s.windowOf (s.setWindow x (some ⟨none, false, g, false⟩)).surfaceOf
      s.roles
    rw [hsurface]
    exact hlisten
  | true =>
    have hfresh := hi.freshView s.nextView le_rfl
    obtain ⟨g', hadd, hlisten'⟩ := hlisten.newView (Function.update_self x _ _)
      (congrArg (Option.map View.xsurface) hfresh) hnone
    refine ⟨_, congrArg (Option.map _) hadd, hi.alive, ?_, ?_, ?_, hi.freshNode⟩
    · show Listening g' (fun v => (Function.update s.views s.nextView (some ⟨x, none⟩) v).map
        View.xsurface) (s.setWindow x (some ⟨none, false, g, false⟩)).surfaceOf s.roles
      rw [hsurface, windowOf_update s s.nextView]
      exact hlisten'
    · refine hscene.setView ?_ ?_
      · intro view hview
        exact absurd (hfresh.symm.trans hview) (by simp)
      · intro view hview
        obtain rfl := Option.some.inj hview
        rfl
    · intro v hv
      have hlt : s.nextView < v := hv
      have hne : v ≠ s.nextView := hlt.ne'
      exact (Function.update_of_ne hne _ _).trans (hi.freshView v hlt.le)

theorem XInv.associate (hi : XInv s) (hxs : s.xsurfaces x = some xs) (hnone : xs.surface = none)
    (hw : s.roles w = none) : ∃ t, s.effect (.associate x w) = some t ∧ XInv t := by
  have hx : s.surfaceOf x = some none := (surfaceOf_eq hxs).trans (congrArg some hnone)
  have hunmapped : xs.mapped = false := by
    cases hmapped : xs.mapped with
    | false => rfl
    | true => exact absurd hnone (hi.scene.mapped x xs hxs hmapped)
  set t : XState := ({ s with roles := Function.update s.roles w (some x) }).setWindow x
    (some { xs with surface := some w }) with ht
  have heffect : s.effect (.associate x w) = t.emit x .associate false .zero := by
    simp only [XState.effect, hxs, Option.bind_eq_bind, Option.bind_some]
    rfl
  have hsurface : t.surfaceOf = Function.update s.surfaceOf x (some (some w)) :=
    surfaceOf_update s x _
  have hscene : Scene t.views t.nodes t.xsurfaces := by
    refine hi.scene.setWindow (hi.noTree hxs hunmapped) ?_
    rintro xs' hxs' -
    obtain rfl := Option.some.inj hxs'
    exact Option.some_ne_none w
  rw [heffect]
  have hsig : ∀ surfaceOf, signalOf surfaceOf x .associate = some (.ofWindow x .associate) :=
    fun _ => rfl
  rcases emit_cases hi.listening (hsig _) (hsig t.surfaceOf) rfl false .zero with
    ⟨v, view, hv, hwindow, hemit⟩ | ⟨hnobody, hemit⟩
  · obtain ⟨g', hadd, hlisten⟩ :=
      hi.listening.associate hx hw ((windowOf_eq hv).trans (congrArg some hwindow))
    have hself : t.xsurfaces view.xsurface = some { xs with surface := some w } := by
      rw [hwindow]
      exact Function.update_self x _ _
    have hcall : onXwaylandSurfaceAssociate t v = some { t with signals := g' } :=
      onXwaylandSurfaceAssociate_eq (show t.views v = some view from hv) hself rfl hadd
    refine ⟨{ t with signals := g' }, hemit.trans hcall, hi.alive, ?_, hscene, hi.freshView,
      hi.freshNode⟩
    · show Listening g' s.windowOf t.surfaceOf _
      rw [hsurface]
      exact hlisten
  · refine ⟨t, hemit, hi.alive, ?_, hscene, hi.freshView, hi.freshNode⟩
    show Listening s.signals s.windowOf t.surfaceOf (Function.update s.roles w (some x))
    rw [hsurface]
    exact hi.listening.withoutView _ hnobody (hi.listening.role_associate hx hw)

/-- The signal of the surface of a window that has one. -/
theorem signalOf_surface (hxs : s.xsurfaces x = some xs) (hw : xs.surface = some w)
    {k : ViewListener} (hk : k ∈ surfaceListeners) :
    signalOf s.surfaceOf x k = some (.ofSurface w k) := by
  rw [signalOf_surfaceListener hk, surfaceOf_eq hxs, hw]
  rfl

theorem XInv.map (hi : XInv s) (hxs : s.xsurfaces x = some xs) (hw : xs.surface = some w)
    (hunmapped : xs.mapped = false) (created : Bool) :
    ∃ t, s.effect (.map x created) = some t ∧ XInv t := by
  set xs' : XSurface := { xs with mapped := true, moved := false } with hxs'
  set s' := s.setWindow x (some xs') with hs'
  have hself : s'.xsurfaces x = some xs' := Function.update_self x _ _
  have hnotree := hi.noTree hxs hunmapped
  have hi' : XInv s' := by
    refine hi.setWindow hxs rfl (hi.scene.setWindow hnotree ?_)
    rintro xs'' heq -
    obtain rfl := Option.some.inj heq
    exact fun hnone => Option.some_ne_none w (hw.symm.trans hnone)
  have heffect : s.effect (.map x created) = s'.emit x .map created .zero := by
    simp only [XState.effect, hxs, Option.bind_eq_bind, Option.bind_some]
    rfl
  have hsig : signalOf s'.surfaceOf x .map = some (.ofSurface w .map) :=
    signalOf_surface hself hw (by decide)
  rw [heffect]
  rcases emit_cases hi'.listening hsig hsig rfl created .zero with
    ⟨v, view, hv, hwindow, hemit⟩ | ⟨-, hemit⟩
  · rw [hemit]
    show ∃ t, onXwaylandSurfaceMap s' v created = some t ∧ XInv t
    have hwin : s'.xsurfaces view.xsurface = some xs' := by rw [hwindow]; exact hself
    have hsurface : xs'.surface = some w := hw
    have htree : view.sceneTree = none := hnotree v view hv hwindow
    cases created with
    | true =>
      refine ⟨_, onXwaylandSurfaceMap_created hv hwin hsurface, hi'.alive, ?_, ?_, ?_, ?_⟩
      · show Listening s'.signals (XState.windowOf (s'.setView v _)) s'.surfaceOf s'.roles
        rw [windowOf_setTree hv]
        exact hi'.listening
      · exact hi'.scene.create hv htree (hi'.freshNode _ le_rfl) hwin rfl
      · exact hi'.freshView_setView hv
      · intro n hn
        have hlt : s'.nextNode < n := hn
        have hne : n ≠ s'.nextNode := hlt.ne'
        exact (Function.update_of_ne hne _ _).trans (hi'.freshNode n hlt.le)
    | false =>
      refine ⟨_, onXwaylandSurfaceMap_failed hv hwin hsurface, ?_⟩
      have hback : s'.setView v (some { view with sceneTree := none }) = s' := by
        rw [show { view with sceneTree := none } = view by rw [← htree]]
        show { s' with views := Function.update s'.views v (some view) } = s'
        rw [← hv, Function.update_eq_self]
      rw [hback]
      exact hi'
  · exact ⟨s', hemit, hi'⟩

theorem XInv.unmap (hi : XInv s) (hxs : s.xsurfaces x = some xs) (hw : xs.surface = some w) :
    ∃ t, s.effect (.unmap x) = some t ∧ XInv t := by
  set xs' : XSurface := { xs with mapped := false } with hxs'
  set s' := s.setWindow x (some xs') with hs'
  have hself : s'.xsurfaces x = some xs' := Function.update_self x _ _
  have hsurfaceOf : s'.surfaceOf = s.surfaceOf := surfaceOf_setWindow hxs rfl
  have heffect : s.effect (.unmap x) = s'.emit x .unmap false .zero := by
    simp only [XState.effect, hxs, Option.bind_eq_bind, Option.bind_some]
    rfl
  have hunmapped : ∀ xs'' : XSurface, some xs' = some xs'' → xs''.mapped = true →
      xs''.surface ≠ none := by
    rintro xs'' heq hmapped
    obtain rfl := Option.some.inj heq
    cases hmapped
  have hsig := signalOf_surface hxs hw (k := .unmap) (by decide)
  rw [heffect]
  rcases emit_cases (t := s') hi.listening hsig (hsurfaceOf ▸ hsig) rfl false .zero with
    ⟨v, view, hv, hwindow, hemit⟩ | ⟨hnobody, hemit⟩
  · rw [hemit]
    show ∃ t, onXwaylandSurfaceUnmap s' v = some t ∧ XInv t
    have hview : s'.views v = some view := hv
    have hwin : s'.xsurfaces view.xsurface = some xs' := by rw [hwindow]; exact hself
    have honly : ∀ v' view', s.views v' = some view' → view'.xsurface = x → v' = v :=
      fun v' view' hv' hx => hi.onlyView hv hv' (hx.trans hwindow.symm)
    cases htree : view.sceneTree with
    | none =>
      refine ⟨s', onXwaylandSurfaceUnmap_none hview hwin htree, ?_⟩
      refine hi.setWindow hxs rfl (hi.scene.setWindow (fun v' view' hv' hx => ?_) hunmapped)
      obtain rfl := honly v' view' hv' hx
      obtain rfl := Option.some.inj (hv.symm.trans hv')
      exact htree
    | some n =>
      obtain ⟨node, -, hnode, -⟩ := hi.scene.tree v view n hv htree
      have hnode' : s'.nodes n = some node := hnode
      refine ⟨_, onXwaylandSurfaceUnmap_node hview hwin htree hnode', hi.alive, ?_, ?_, ?_, ?_⟩
      · show Listening s.signals (XState.windowOf (s.setView v _)) s'.surfaceOf s.roles
        rw [windowOf_setTree hv, hsurfaceOf]
        exact hi.listening
      · refine (hi.scene.destroy hv htree).setWindow (fun v' view' hv' hx => ?_) hunmapped
        by_cases heq : v' = v
        · rw [heq, Function.update_self] at hv'
          obtain rfl := Option.some.inj hv'
          rfl
        · rw [Function.update_of_ne heq] at hv'
          exact absurd (honly v' view' hv' hx) heq
      · exact hi.freshView_setView hv
      · intro n' hn'
        have hnone := hi.freshNode n' hn'
        by_cases heq : n' = n
        · rw [heq]
          exact Function.update_self _ _ _
        · exact (Function.update_of_ne heq _ _).trans hnone
  · refine ⟨s', hemit, hi.setWindow hxs rfl (hi.scene.setWindow (fun v view hv hx => ?_) hunmapped)⟩
    exact absurd ((windowOf_eq hv).trans (congrArg some hx)) (hnobody v)

theorem XInv.dissociate (hi : XInv s) (hxs : s.xsurfaces x = some xs) (hw : xs.surface = some w)
    (hunmapped : xs.mapped = false) : ∃ t, s.effect (.dissociate x) = some t ∧ XInv t := by
  have hx : s.surfaceOf x = some (some w) := (surfaceOf_eq hxs).trans (congrArg some hw)
  have hscene : Scene s.views s.nodes
      (Function.update s.xsurfaces x (some { xs with surface := none })) := by
    refine hi.scene.setWindow (hi.noTree hxs hunmapped) ?_
    intro xs' hxs' hmapped
    obtain rfl := Option.some.inj hxs'
    exact absurd (hunmapped.symm.trans hmapped) Bool.false_ne_true
  have hsig : signalOf s.surfaceOf x .dissociate = some (.ofWindow x .dissociate) := rfl
  -- whoever is told, the surface is taken away afterwards
  have heffect : ∀ t, s.emit x .dissociate false .zero = some t →
      s.effect (.dissociate x) = some { t.setWindow x (some { xs with surface := none }) with
        roles := Function.update t.roles w none } := by
    intro t hemit
    simp only [XState.effect, hxs, hw, hemit, Option.bind_eq_bind, Option.bind_some]
    rfl
  rcases emit_cases hi.listening hsig hsig rfl false .zero with
    ⟨v, view, hv, hwindow, hemit⟩ | ⟨hnobody, hemit⟩
  · obtain ⟨g', hremove, hlisten⟩ :=
      hi.listening.dissociate hx ((windowOf_eq hv).trans (congrArg some hwindow))
    have hcall := onXwaylandSurfaceDissociate_eq hv (hwindow ▸ hxs) hremove
    refine ⟨_, heffect _ (hemit.trans hcall), hi.alive, ?_, hscene, hi.freshView, hi.freshNode⟩
    show Listening g' s.windowOf
      (fun x' => (Function.update s.xsurfaces x _ x').map XSurface.surface) _
    rw [surfaceOf_update]
    exact hlisten
  · refine ⟨_, heffect _ hemit, hi.alive, ?_, hscene, hi.freshView, hi.freshNode⟩
    show Listening s.signals s.windowOf
      (fun x' => (Function.update s.xsurfaces x _ x').map XSurface.surface) _
    rw [surfaceOf_update]
    exact hi.listening.withoutView _ hnobody (hi.listening.role_dissociate hx)

/-- A window without a view and a surface goes. -/
theorem XInv.dropWindow (hi : XInv s) (hxs : s.xsurfaces x = some xs) (hnone : xs.surface = none)
    (hnobody : ∀ v, s.windowOf v ≠ some x) : XInv (s.setWindow x none) where
  alive := hi.alive
  listening := by
    have hx : s.surfaceOf x = some none := (surfaceOf_eq hxs).trans (congrArg some hnone)
    show Listening s.signals s.windowOf (s.setWindow x none).surfaceOf s.roles
    rw [show (s.setWindow x none).surfaceOf = _ from surfaceOf_update s x none]
    refine hi.listening.withoutView none hnobody fun w x' => ?_
    rw [hi.listening.role w x']
    by_cases heq : x' = x
    · rw [heq, Function.update_self, hx]
      simp
    · rw [Function.update_of_ne heq]
  scene := by
    refine hi.scene.setWindow (fun v view hv hwindow => ?_) nofun
    exact absurd ((windowOf_eq hv).trans (congrArg some hwindow)) (hnobody v)
  freshView := hi.freshView
  freshNode := hi.freshNode

theorem XInv.destroy (hi : XInv s) (hxs : s.xsurfaces x = some xs) (hnone : xs.surface = none) :
    ∃ t, s.effect (.destroy x) = some t ∧ XInv t := by
  have hx : s.surfaceOf x = some none := (surfaceOf_eq hxs).trans (congrArg some hnone)
  have hunmapped : xs.mapped = false := by
    cases hmapped : xs.mapped with
    | false => rfl
    | true => exact absurd hnone (hi.scene.mapped x xs hxs hmapped)
  have hsig : signalOf s.surfaceOf x .destroy = some (.ofWindow x .destroy) := rfl
  have heffect : ∀ t, s.emit x .destroy false .zero = some t →
      s.effect (.destroy x) = some (t.setWindow x none) := by
    intro t hemit
    simp only [XState.effect, hemit, Option.bind_eq_bind, Option.bind_some]
    rfl
  rcases emit_cases hi.listening hsig hsig rfl false .zero with
    ⟨v, view, hv, hwindow, hemit⟩ | ⟨hnobody, hemit⟩
  · have hwin := (windowOf_eq hv).trans (congrArg some hwindow)
    obtain ⟨g', hremove, hlisten⟩ := hi.listening.destroyView hx hwin
    have hcall := onXwaylandSurfaceDestroy_eq hv hremove
    have hwindowOf : (s.setView v none).windowOf = Function.update s.windowOf v none :=
      windowOf_update s v none
    have hi' : XInv { s.setView v none with signals := g' } := by
      refine ⟨hi.alive, ?_, ?_, hi.freshView_setView hv, hi.freshNode⟩
      · show Listening g' (s.setView v none).windowOf s.surfaceOf s.roles
        rw [hwindowOf]
        exact hlisten
      · refine hi.scene.setView (fun view' hview' => ?_) nofun
        obtain rfl := Option.some.inj (hv.symm.trans hview')
        exact hi.noTree hxs hunmapped v view hv hwindow
    refine ⟨_, heffect _ (hemit.trans hcall), hi'.dropWindow hxs hnone fun v' hv' => ?_⟩
    have hv' : Function.update s.windowOf v none v' = some x := hwindowOf ▸ hv'
    by_cases heq : v' = v
    · rw [heq, Function.update_self] at hv'
      cases hv'
    · rw [Function.update_of_ne heq] at hv'
      exact heq (hi.listening.oneView v' v x hv' hwin)
  · exact ⟨_, heffect _ hemit, hi.dropWindow hxs hnone hnobody⟩

/-- A view's window is put somewhere, and the node of the view with it. -/
theorem XInv.configure (hi : XInv s) (hv : s.views v = some view)
    (hxs : s.xsurfaces view.xsurface = some xs) (g : Geometry) :
    ∃ t, configure s view xs g = some t ∧ XInv t := by
  cases htree : view.sceneTree with
  | none =>
    refine ⟨s.setWindow view.xsurface (some { xs with geometry := g, moved := false }), ?_, ?_⟩
    · simp only [Xwayland.configure, htree]
    · refine hi.setWindow hxs rfl (hi.scene.setWindow (fun v' view' hv' hx => ?_) ?_)
      · obtain rfl := hi.onlyView hv hv' hx
        obtain rfl := Option.some.inj (hv.symm.trans hv')
        exact htree
      · intro xs' hxs' hmapped
        obtain rfl := Option.some.inj hxs'
        exact hi.scene.mapped _ xs hxs hmapped
  | some n =>
    obtain ⟨node, -, hnode, -⟩ := hi.scene.tree v view n hv htree
    have hnode' : (s.setWindow view.xsurface (some { xs with geometry := g, moved := false })).nodes
      n = some node := hnode
    have hcall : Xwayland.configure s view xs g =
        some ((s.setWindow view.xsurface (some { xs with geometry := g, moved := false })).setNode n
          (some { node with x := g.x, y := g.y })) := by
      simp only [Xwayland.configure, htree, hnode', Option.map_some]
    refine ⟨_, hcall, hi.alive, ?_, ?_, hi.freshView, ?_⟩
    · have hsame : (s.setWindow view.xsurface
          (some { xs with geometry := g, moved := false })).surfaceOf = s.surfaceOf :=
        surfaceOf_setWindow hxs rfl
      show Listening s.signals s.windowOf (s.setWindow view.xsurface
        (some { xs with geometry := g, moved := false })).surfaceOf s.roles
      rw [hsame]
      exact hi.listening
    · exact hi.scene.configure hv htree hnode hxs g fun v' view' hv' hx => hi.onlyView hv hv' hx
    · intro n' hn'
      have hnone := hi.freshNode n' hn'
      have hne : n' ≠ n := fun heq => by
        rw [heq, hnode] at hnone
        cases hnone
      exact (Function.update_of_ne hne _ _).trans hnone

/-- A signal that changes nothing before the listeners are told. -/
theorem XInv.request (hi : XInv s) {k : ViewListener} (hk : k ∈ windowListeners)
    (request : Geometry)
    (hcall : ∀ v view xs, s.views v = some view → s.xsurfaces view.xsurface = some xs →
      ∃ t, notify false request (v, k) s = some t ∧ XInv t) :
    ∃ t, s.emit x k false request = some t ∧ XInv t := by
  have hsig : signalOf s.surfaceOf x k = some (.ofWindow x k) := signalOf_windowListener hk
  rcases emit_cases hi.listening hsig hsig rfl false request with
    ⟨v, view, hv, -, hemit⟩ | ⟨-, hemit⟩
  · obtain ⟨xs, hxs⟩ := hi.window hv
    obtain ⟨t, ht, hi'⟩ := hcall v view xs hv hxs
    exact ⟨t, hemit.trans ht, hi'⟩
  · exact ⟨s, hemit, hi⟩

theorem XInv.requestConfigure (hi : XInv s) (x : ℕ) (request : Geometry) :
    ∃ t, s.effect (.requestConfigure x request) = some t ∧ XInv t := by
  refine hi.request (k := .requestConfigure) (by decide) request fun v view xs hv hxs => ?_
  obtain ⟨t, ht, hi'⟩ := hi.configure hv hxs request
  refine ⟨t, ?_, hi'⟩
  show onXwaylandRequestConfigure s v request = some t
  simp only [onXwaylandRequestConfigure, hv, hxs, ht, Option.bind_eq_bind, Option.bind_some]

theorem XInv.requestFullscreen (hi : XInv s) (x : ℕ) :
    ∃ t, s.effect (.requestFullscreen x) = some t ∧ XInv t := by
  refine hi.request (k := .requestFullscreen) (by decide) .zero fun v view xs hv hxs => ?_
  show ∃ t, onXwaylandRequestFullscreen s v = some t ∧ XInv t
  simp only [onXwaylandRequestFullscreen, hv, hxs, Option.bind_eq_bind, Option.bind_some]
  split
  · exact hi.configure hv hxs _
  · exact ⟨s, rfl, hi⟩

theorem XInv.setOverrideRedirect (hi : XInv s) (x : ℕ) :
    ∃ t, s.effect (.setOverrideRedirect x) = some t ∧ XInv t := by
  refine hi.request (k := .setOverrideRedirect) (by decide) .zero fun v view xs hv hxs => ?_
  refine ⟨s, ?_, hi⟩
  show onXwaylandSetOverrideRedirect s v = some s
  simp only [onXwaylandSetOverrideRedirect, hv, hxs, Option.bind_eq_bind, Option.bind_some]
  rfl

theorem XInv.windowMoves (hi : XInv s) (hxs : s.xsurfaces x = some xs) (g : Geometry) :
    ∃ t, s.effect (.windowMoves x g) = some t ∧ XInv t := by
  refine ⟨s.setWindow x (some { xs with geometry := g, moved := true }), ?_,
    hi.setWindow hxs rfl (hi.scene.windowMoves hxs g)⟩
  simp only [XState.effect, hxs, Option.bind_eq_bind, Option.bind_some]
  rfl

/-- No signal crashes the compositor or breaks the invariant. -/
theorem XInv.effect (hi : XInv s) {e : XEvent} (he : s.enabled e = true) :
    ∃ t, s.effect e = some t ∧ XInv t := by
  cases e with
  | newSurface x g allocated => exact hi.newSurface (Option.isNone_iff_eq_none.mp he) g allocated
  | associate x w =>
    obtain ⟨hx, hw⟩ := (Bool.and_eq_true _ _).mp he
    obtain ⟨xs, hxs, hnone⟩ := Option.any_eq_true _ _ |>.mp hx
    exact hi.associate hxs (Option.isNone_iff_eq_none.mp hnone) (Option.isNone_iff_eq_none.mp hw)
  | map x created =>
    obtain ⟨xs, hxs, hmap⟩ := Option.any_eq_true _ _ |>.mp he
    obtain ⟨hsome, hunmapped⟩ := (Bool.and_eq_true _ _).mp hmap
    obtain ⟨w, hw⟩ := Option.isSome_iff_exists.mp hsome
    exact hi.map hxs hw (Bool.not_eq_true' _ |>.mp hunmapped) created
  | unmap x =>
    obtain ⟨xs, hxs, hmapped⟩ := Option.any_eq_true _ _ |>.mp he
    obtain ⟨w, hw⟩ := Option.ne_none_iff_exists'.mp (hi.scene.mapped x xs hxs hmapped)
    exact hi.unmap hxs hw
  | dissociate x =>
    obtain ⟨xs, hxs, hmap⟩ := Option.any_eq_true _ _ |>.mp he
    obtain ⟨hsome, hunmapped⟩ := (Bool.and_eq_true _ _).mp hmap
    obtain ⟨w, hw⟩ := Option.isSome_iff_exists.mp hsome
    exact hi.dissociate hxs hw (Bool.not_eq_true' _ |>.mp hunmapped)
  | destroy x =>
    obtain ⟨xs, hxs, hnone⟩ := Option.any_eq_true _ _ |>.mp he
    exact hi.destroy hxs (Option.isNone_iff_eq_none.mp hnone)
  | requestConfigure x request => exact hi.requestConfigure x request
  | requestFullscreen x => exact hi.requestFullscreen x
  | setOverrideRedirect x => exact hi.setOverrideRedirect x
  | windowMoves x g =>
    obtain ⟨xs, hxs⟩ := Option.isSome_iff_exists.mp he
    exact hi.windowMoves hxs g
  | outputResized output =>
    exact ⟨_, rfl, hi.alive, hi.listening, hi.scene, hi.freshView, hi.freshNode⟩

theorem XInv.step (hi : XInv s) {e : XEvent} {t : XState} (h : s.next e = some t) : XInv t := by
  unfold XState.next at h
  split at h
  · rename_i he
    obtain ⟨t', ht', hi'⟩ := hi.effect he
    rw [ht', Option.getD_some] at h
    exact Option.some.inj h ▸ hi'
  · cases h

theorem xInv_initial (output : Option (ℤ × ℤ)) : XInv (.initial output) where
  alive := rfl
  listening := ⟨List.nodup_nil, fun _ _ _ => ⟨nofun, fun ⟨_, h, _⟩ => nomatch h⟩, nofun, nofun,
    fun _ _ => ⟨nofun, nofun⟩⟩
  scene := ⟨nofun, nofun, nofun⟩
  freshView _ _ := rfl
  freshNode _ _ := rfl

theorem xInv_of_reachable (h : xSystem.Reachable s) : XInv s := by
  refine h.invariant ?_ fun s e t hi ht => hi.step ht
  rintro s ⟨output, rfl⟩
  exact xInv_initial output

/-! ### What is promised -/

/-- What the views promise in every state. -/
structure XGuarantee (s : XState) : Prop where
  /-- No handler has touched freed memory or broken a list of listeners. -/
  alive : s.crashed = false
  /-- Whoever is called is the listener of a view, and about the view's window. -/
  called : ∀ sig l, l ∈ s.signals.listeners sig → ∃ view xs, s.views l.1 = some view ∧
    s.xsurfaces view.xsurface = some xs ∧
    (sig = .ofWindow view.xsurface l.2 ∨ ∃ w, xs.surface = some w ∧ sig = .ofSurface w l.2)
  /-- A view, and no other, hears all that its window does, and what its window's surface does. -/
  hears : ∀ v view xs, s.views v = some view → s.xsurfaces view.xsurface = some xs →
    (∀ k ∈ windowListeners, s.signals.listeners (.ofWindow view.xsurface k) = [(v, k)]) ∧
    ∀ w, xs.surface = some w →
      ∀ k ∈ surfaceListeners, s.signals.listeners (.ofSurface w k) = [(v, k)]
  /-- What the scene shows is a mapped window, where the window is unless it moved itself. -/
  shown : ∀ n node, s.nodes n = some node → ∃ view xs, s.views node.data = some view ∧
    view.sceneTree = some n ∧ s.xsurfaces view.xsurface = some xs ∧ xs.mapped = true ∧
    (xs.moved = false → node.x = xs.geometry.x ∧ node.y = xs.geometry.y)
  /-- A window that is gone has no view. -/
  gone : ∀ x, s.xsurfaces x = none → ∀ v view, s.views v = some view → view.xsurface ≠ x
  /-- Nobody listens to a surface that no window has. -/
  unheard : ∀ w, s.roles w = none → ∀ k, s.signals.listeners (.ofSurface w k) = []

/-- Who listens to a signal that the view of a window listens to. -/
theorem XInv.listeners_eq (hi : XInv s) (hv : s.views v = some view) {k : ViewListener}
    {sig : XSignal} (hsig : signalOf s.surfaceOf view.xsurface k = some sig) :
    s.signals.listeners sig = [(v, k)] := by
  have hl := hi.listening
  refine Signals.listeners_eq_singleton hl.proper
    ((hl.linked sig v k).mpr ⟨view.xsurface, windowOf_eq hv, hsig⟩) ?_
  rintro ⟨v', k'⟩ hmem
  obtain ⟨x', hv', hsig'⟩ := (hl.linked sig v' k').mp hmem
  obtain ⟨rfl, rfl⟩ := hl.signalOf_inj hsig hsig'
  rw [hl.oneView v' v _ hv' (windowOf_eq hv)]

theorem XInv.called (hi : XInv s) {sig : XSignal} {k : ViewListener}
    (hmem : (v, k) ∈ s.signals.listeners sig) : ∃ view xs, s.views v = some view ∧
      s.xsurfaces view.xsurface = some xs ∧
      (sig = .ofWindow view.xsurface k ∨ ∃ w, xs.surface = some w ∧ sig = .ofSurface w k) := by
  obtain ⟨x, hx, hsig⟩ := (hi.listening.linked sig v k).mp (Signals.mem_listeners.mp hmem)
  obtain ⟨view, hv, rfl⟩ := exists_view hx
  obtain ⟨xs, hxs⟩ := hi.window hv
  refine ⟨view, xs, hv, hxs, ?_⟩
  rcases listener_cases k with hk | hk
  · rw [signalOf_windowListener hk] at hsig
    exact .inl (Option.some.inj hsig).symm
  · rw [signalOf_surfaceListener hk, surfaceOf_eq hxs] at hsig
    obtain ⟨w, hw, heq⟩ := Option.map_eq_some_iff.mp hsig
    exact .inr ⟨w, hw, heq.symm⟩

theorem XInv.guarantee (hi : XInv s) : XGuarantee s where
  alive := hi.alive
  called sig l hl := hi.called hl
  hears v view xs hv hxs :=
    ⟨fun k hk => hi.listeners_eq hv (signalOf_windowListener hk),
      fun w hw k hk => hi.listeners_eq hv (signalOf_surface hxs hw hk)⟩
  shown n node hnode := by
    obtain ⟨view, hv, htree⟩ := hi.scene.node n node hnode
    obtain ⟨node', xs, hnode', -, hxs, hmapped, hpos⟩ := hi.scene.tree _ view n hv htree
    obtain rfl := Option.some.inj (hnode.symm.trans hnode')
    exact ⟨view, xs, hv, htree, hxs, hmapped, hpos⟩
  gone x hx v view hv heq := by
    obtain ⟨xs, hxs⟩ := hi.window hv
    rw [heq, hx] at hxs
    cases hxs
  unheard w hw k := by
    refine List.eq_nil_iff_forall_not_mem.mpr ?_
    rintro ⟨v, k'⟩ hmem
    obtain ⟨view, xs, hv, hxs, hwindow | ⟨w', hw', hsurface⟩⟩ := hi.called hmem
    · cases hwindow
    · cases hsurface
      have hrole := (hi.listening.role w view.xsurface).mpr
        ((surfaceOf_eq hxs).trans (congrArg some hw'))
      rw [hw] at hrole
      cases hrole

end Inv

/-- **No order in which XWayland creates, maps, moves, unmaps and destroys windows crashes the
compositor**, and what is shown and who listens always fits the windows there are. -/
theorem xGuarantee_of_reachable {s : XState} (h : xSystem.Reachable s) : XGuarantee s :=
  (xInv_of_reachable h).guarantee

/-- Two windows, of which one is gone again and the other moves. -/
def twoWindows : List XEvent :=
  [.newSurface 1 ⟨5, 6, 30, 40⟩ true, .newSurface 2 ⟨0, 0, 10, 10⟩ true, .associate 1 7,
    .associate 2 8, .map 1 true, .map 2 true, .requestConfigure 2 ⟨3, 4, 10, 10⟩, .unmap 1,
    .dissociate 1, .destroy 1]

/-- Where that leads. -/
def oneWindowLeft : XState :=
  (runNext XState.next (.initial none) twoWindows).getD (.initial none)

theorem runNext_twoWindows :
    runNext XState.next (.initial none) twoWindows = some oneWindowLeft := rfl

theorem xGuarantee_of_twoWindows :
    oneWindowLeft.signals.linked.length = 8 ∧ (oneWindowLeft.nodes 1).isSome = true ∧
      XGuarantee oneWindowLeft :=
  ⟨rfl, rfl, xGuarantee_of_reachable
    (System.reachable_runNext (.start ⟨none, rfl⟩) runNext_twoWindows)⟩

end Wldroid.Compositor.Xwayland
