import Wldroid.Foundation.Keyed
import Wldroid.Ime.Focus

/-!
# The compositor's windows and the seat's keyboard focus

The toplevels in most-recently-used order, the XWayland views, the seat's keyboard focus and the
text-input handler, with the event handlers that touch them: window lifecycle, key and touch
dispatch, and the key fallback of the IME.  Whenever the code calls `wlr_seat_keyboard_notify_enter`
the call is recorded in `enters`, with what it found at that moment.

The seat is the one of wlroots without a keyboard grab: its focus changes on an enter and is cleared
when the focused surface is destroyed, and at no other time.
-/

namespace Wldroid.Compositor

open Wldroid.Foundation

/-! ### State -/

/-- `struct compositor_toplevel` with what its `wlr_xdg_toplevel` knows: the surface, which is its
key, whether that is mapped, and whether the toplevel is activated. -/
structure Toplevel where
  surface : ℕ
  mapped : Bool
  renderingOnly : Bool
  activated : Bool

/-- `struct xwayland_view` with what its X11 surface knows; `window` is its key. -/
structure XwaylandView where
  window : ℕ
  surface : Option ℕ
  mapped : Bool
  sceneTree : Bool
  overrideRedirect : Bool

/-- A call of `wlr_seat_keyboard_notify_enter`: the surface, and whether it was mapped if it was a
tracked toplevel's. -/
structure KeyboardEnter where
  surface : ℕ
  toplevelMapped : Option Bool

/-- `struct compositor_server`, as far as focus goes. -/
structure Server where
  /-- Most recently used first. -/
  toplevels : List Toplevel
  views : List XwaylandView
  /-- `server->keyboard` is set. -/
  keyboard : Bool
  /-- `seat->keyboard_state.focused_surface`. -/
  seatFocus : Option ℕ
  text : Ime.Handler
  /-- Ghost: the calls of keyboard enter so far. -/
  enters : List KeyboardEnter

/-- Whether the tracked toplevel of a surface is mapped. -/
def mappedOf (toplevels : List Toplevel) (surface : ℕ) : Option Bool :=
  (lookup Toplevel.surface surface toplevels).map Toplevel.mapped

/-- `wlr_seat_keyboard_notify_enter`, and the `text_input_handle_keyboard_enter` that follows it in
every caller. -/
def Server.keyboardEnter (s : Server) (surface : ℕ) : Server :=
  { s with
    seatFocus := some surface
    text := Ime.textInputHandleKeyboardEnter s.text surface
    enters := s.enters ++ [⟨surface, mappedOf s.toplevels surface⟩] }

/-! ### Toplevels -/

/-- What `focus_toplevel` does to the activated states when it focuses `ct`: the others are
deactivated, except real toplevels when `ct` is for rendering only. -/
def activate (ct other : Toplevel) : Toplevel :=
  if other.surface = ct.surface then { other with activated := true }
  else if ct.renderingOnly && !other.renderingOnly then other
  else { other with activated := false }

/-- `focus_toplevel`. -/
def focusToplevel (s : Server) (ct : Toplevel) : Server :=
  let s := { s with toplevels := s.toplevels.map (activate ct) }
  let s := if ct.renderingOnly then s else s.keyboardEnter ct.surface
  { s with toplevels := moveToFront Toplevel.surface ct.surface s.toplevels }

/-- The app id `on_toplevel_map` marks as rendering only. -/
def renderingAppId : String := "com.coder.vscode"

/-- The surface becomes mapped; the app id may mark the toplevel as rendering only, for good. -/
def Toplevel.markMapped (appId : Option String) (ct : Toplevel) : Toplevel :=
  { ct with
    mapped := true, renderingOnly := ct.renderingOnly || appId == some renderingAppId }

/-- The surface stops being mapped. -/
def Toplevel.markUnmapped (ct : Toplevel) : Toplevel := { ct with mapped := false }

/-- Change the toplevel of a surface. -/
def Server.updateToplevel (s : Server) (surface : ℕ) (f : Toplevel → Toplevel) : Server :=
  { s with toplevels := update Toplevel.surface surface f s.toplevels }

/-- `on_toplevel_map`, as the surface becomes mapped. -/
def onToplevelMap (s : Server) (surface : ℕ) (appId : Option String) : Server :=
  let s := s.updateToplevel surface (Toplevel.markMapped appId)
  match lookup Toplevel.surface surface s.toplevels with
  | some ct => focusToplevel s ct
  | none => s

/-- `text_input_handle_keyboard_leave`. -/
def Server.keyboardLeave (s : Server) (surface : ℕ) : Server :=
  { s with text := Ime.textInputHandleKeyboardLeave s.text (some surface) }

/-- `on_toplevel_unmap`, as the surface stops being mapped. -/
def onToplevelUnmap (s : Server) (surface : ℕ) : Server :=
  let s := s.updateToplevel surface Toplevel.markUnmapped
  let s := if s.seatFocus = some surface then s.keyboardLeave surface else s
  match s.toplevels with
  | ct :: next :: _ => if ct.surface = surface then focusToplevel s next else s
  | _ => s

/-- `on_toplevel_destroy`. -/
def onToplevelDestroy (s : Server) (surface : ℕ) : Server :=
  let s := s.keyboardLeave surface
  { s with toplevels := remove Toplevel.surface surface s.toplevels }

/-- `on_new_xdg_toplevel`. -/
def onNewXdgToplevel (s : Server) (surface : ℕ) : Server :=
  { s with toplevels := ⟨surface, false, false, false⟩ :: s.toplevels }

/-! ### XWayland views -/

/-- `focus_xwayland_view`, for a view with a surface. -/
def focusXwaylandView (s : Server) (view : XwaylandView) (surface : ℕ) : Server :=
  if view.overrideRedirect then s else s.keyboardEnter surface

/-- `on_xwayland_surface_map`; `created` tells whether the scene tree could be created. -/
def onXwaylandSurfaceMap (s : Server) (view : XwaylandView) (surface : ℕ) (created : Bool) :
    Server :=
  let s := { s with
    views := update XwaylandView.window view.window
      (fun view => { view with mapped := true, sceneTree := created }) s.views }
  if created then focusXwaylandView s view surface else s

/-- `on_xwayland_surface_unmap`. -/
def onXwaylandSurfaceUnmap (s : Server) (view : XwaylandView) (surface : ℕ) : Server :=
  let s := if s.seatFocus = some surface then s.keyboardLeave surface else s
  { s with
    views := update XwaylandView.window view.window
      (fun view => { view with mapped := false, sceneTree := false }) s.views }

/-- `on_xwayland_surface_dissociate`. -/
def onXwaylandSurfaceDissociate (s : Server) (view : XwaylandView) (surface : ℕ) : Server :=
  let s := s.keyboardLeave surface
  { s with
    views := update XwaylandView.window view.window (fun view => { view with surface := none })
      s.views }

/-! ### Input -/

/-- The first toplevel that is not for rendering only. -/
def firstRealToplevel (s : Server) : Option Toplevel :=
  s.toplevels.find? fun ct => !ct.renderingOnly

/-- `find_touch_redirect_surface`. -/
def findTouchRedirectSurface (s : Server) : Option ℕ :=
  if s.toplevels.any Toplevel.renderingOnly then (firstRealToplevel s).map Toplevel.surface else none

/-- The surface `dispatch_key` falls back to: the redirect target, or the first toplevel. -/
def keyTarget (s : Server) : Option ℕ :=
  (findTouchRedirectSurface s).or (s.toplevels.head?.map Toplevel.surface)

/-- `dispatch_key`, before the key itself goes to the focused client. -/
def dispatchKey (s : Server) : Server :=
  if s.keyboard ∧ s.seatFocus = none then
    match keyTarget s with
    | some target => s.keyboardEnter target
    | none => s
  else s

/-- `dispatch_touch_down`, with the surface the scene has at the touch position. -/
def dispatchTouchDown (s : Server) (hit : Option ℕ) : Server :=
  match hit with
  | some surface =>
      if findTouchRedirectSurface s = none ∧ s.keyboard then s.keyboardEnter surface else s
  | none => s

/-- The surface `ensure_keyboard_focus` enters, if the seat has no focus. -/
def ensureKeyboardFocus (s : Server) : Option ℕ :=
  if s.seatFocus = none then (firstRealToplevel s).map Toplevel.surface else none

/-- The dispatch of one IME operation.  When it falls back to keys, `ensure_keyboard_focus` may
enter a surface first; the text-input side of that enter is part of `Ime.dispatch`. -/
def dispatchTextOp (s : Server) (op : Ime.TextDispatch) : Server :=
  let entered := if (Ime.fallbackKeys s.text op).isSome ∧ s.keyboard then ensureKeyboardFocus s
    else none
  { s with
    text := Ime.dispatch s.text op ⟨s.keyboard, ensureKeyboardFocus s⟩
    seatFocus := entered.or s.seatFocus
    enters := s.enters ++ entered.toList.map fun t => ⟨t, mappedOf s.toplevels t⟩ }

/-- A surface is destroyed, after its window is gone: the seat drops its focus, the text-input
listener runs. -/
def Server.surfaceDestroyed (s : Server) (surface : ℕ) : Server :=
  { s with
    text := Ime.surfaceDestroyed s.text surface
    seatFocus := if s.seatFocus = some surface then none else s.seatFocus }

/-! ### Events -/

/-- What can happen to the compositor. -/
inductive ServerEvent where
  | surfaceCreated (surface client : ℕ)
  | surfaceDestroyed (surface : ℕ)
  | newToplevel (surface : ℕ)
  | mapToplevel (surface : ℕ) (appId : Option String)
  | unmapToplevel (surface : ℕ)
  | destroyToplevel (surface : ℕ)
  | newXwaylandSurface (window : ℕ) (overrideRedirect : Bool)
  | setOverrideRedirect (window : ℕ) (overrideRedirect : Bool)
  | associate (window surface : ℕ)
  | mapXwayland (window : ℕ) (created : Bool)
  | unmapXwayland (window : ℕ)
  | dissociate (window : ℕ)
  | destroyXwayland (window : ℕ)
  | key
  | touchDown (hit : Option ℕ)
  /-- Touch motion, up and cancel, and pointer events. -/
  | otherInput
  | textOp (op : Ime.TextDispatch)
  /-- A request on a text-input object. -/
  | request (e : Ime.HandlerEvent)

/-- A surface without a window: live, no toplevel's and no view's. -/
def Server.isBare (s : Server) (surface : ℕ) : Bool :=
  (s.text.surfaces surface).isSome && (lookup Toplevel.surface surface s.toplevels).isNone &&
    s.views.all fun view => view.surface ≠ some surface

/-- Whether the scene can have the surface under a touch: it is live, and mapped if it is a
toplevel's, whose tree is hidden otherwise. -/
def Server.canHit (s : Server) (surface : ℕ) : Bool :=
  (s.text.surfaces surface).isSome && mappedOf s.toplevels surface != some false

/-- The server after an event.  wlroots maps what is not mapped and unmaps what is, unmaps before it
destroys or dissociates, and destroys windows before their surfaces. -/
def Server.next (s : Server) : ServerEvent → Option Server
  | .surfaceCreated surface client =>
      (s.text.next (.surfaceCreated surface client)).map fun text => { s with text := text }
  | .surfaceDestroyed surface =>
      if s.isBare surface then some (s.surfaceDestroyed surface) else none
  | .newToplevel surface => if s.isBare surface then some (onNewXdgToplevel s surface) else none
  | .mapToplevel surface appId =>
      if mappedOf s.toplevels surface = some false then some (onToplevelMap s surface appId)
      else none
  | .unmapToplevel surface =>
      if mappedOf s.toplevels surface = some true then some (onToplevelUnmap s surface) else none
  | .destroyToplevel surface =>
      if mappedOf s.toplevels surface = some false then some (onToplevelDestroy s surface) else none
  | .newXwaylandSurface window overrideRedirect =>
      if lookup XwaylandView.window window s.views = none then
        some { s with views := ⟨window, none, false, false, overrideRedirect⟩ :: s.views }
      else none
  | .setOverrideRedirect window overrideRedirect =>
      some { s with
        views := update XwaylandView.window window
          (fun view => { view with overrideRedirect := overrideRedirect }) s.views }
  | .associate window surface =>
      match lookup XwaylandView.window window s.views with
      | some view =>
          if view.surface = none ∧ s.isBare surface then
            some { s with
              views := update XwaylandView.window window
                (fun view => { view with surface := some surface }) s.views }
          else none
      | none => none
  | .mapXwayland window created =>
      match lookup XwaylandView.window window s.views with
      | some view =>
          match view.surface, view.mapped with
          | some surface, false => some (onXwaylandSurfaceMap s view surface created)
          | _, _ => none
      | none => none
  | .unmapXwayland window =>
      match lookup XwaylandView.window window s.views with
      | some view =>
          match view.surface, view.mapped with
          | some surface, true => some (onXwaylandSurfaceUnmap s view surface)
          | _, _ => none
      | none => none
  | .dissociate window =>
      match lookup XwaylandView.window window s.views with
      | some view =>
          match view.surface, view.mapped with
          | some surface, false => some (onXwaylandSurfaceDissociate s view surface)
          | _, _ => none
      | none => none
  | .destroyXwayland window =>
      match lookup XwaylandView.window window s.views with
      | some view =>
          if view.surface = none then
            some { s with views := remove XwaylandView.window window s.views }
          else none
      | none => none
  | .key => some (dispatchKey s)
  | .touchDown hit =>
      if hit.all fun surface => s.canHit surface then some (dispatchTouchDown s hit) else none
  | .otherInput => some s
  | .textOp op => some (dispatchTextOp s op)
  | .request e =>
      if e.isRequest then (s.text.next e).map fun text => { s with text := text } else none

/-- The compositor has started: no windows, no focus, a fresh text-input handler. -/
def Server.Initial (s : Server) : Prop :=
  s.toplevels = [] ∧ s.views = [] ∧ s.seatFocus = none ∧ s.text.Initial ∧ s.enters = []

/-- All runs of the compositor. -/
def serverSystem : System Server ServerEvent := System.ofNext Server.Initial Server.next

/-- The events that change the views only. -/
def ServerEvent.changesViews : ServerEvent → Bool
  | .newXwaylandSurface _ _ | .setOverrideRedirect _ _ | .associate _ _ | .destroyXwayland _ => true
  | _ => false

/-- The surfaces of the views. -/
def viewSurfaces (views : List XwaylandView) : List ℕ := views.filterMap XwaylandView.surface

/-- A change of one view adds to the surfaces only what it gives that view. -/
theorem mem_viewSurfaces_update {window x : ℕ} {f : XwaylandView → XwaylandView}
    {views : List XwaylandView} {P : Prop}
    (hf : ∀ view, (f view).surface = some x → view.surface = some x ∨ P)
    (hx : x ∈ viewSurfaces (update XwaylandView.window window f views)) :
    x ∈ viewSurfaces views ∨ P := by
  obtain ⟨changed, hmem, hsurface⟩ := List.mem_filterMap.mp hx
  obtain ⟨view, hview, rfl⟩ := List.mem_map.mp hmem
  have hold : view.surface = some x ∨ P := by
    split at hsurface
    · exact hf view hsurface
    · exact .inl hsurface
  exact hold.imp_left fun hsurface => List.mem_filterMap.mpr ⟨view, hview, hsurface⟩

/-- Everything a step can do, with what it requires. -/
inductive ServerStep (s : Server) : ServerEvent → Server → Prop where
  | surfaceCreated {surface client : ℕ} {text : Ime.Handler} :
      s.text.next (.surfaceCreated surface client) = some text →
        ServerStep s (.surfaceCreated surface client) { s with text := text }
  | surfaceDestroyed {surface : ℕ} : s.isBare surface = true →
      ServerStep s (.surfaceDestroyed surface) (s.surfaceDestroyed surface)
  | newToplevel {surface : ℕ} : s.isBare surface = true →
      ServerStep s (.newToplevel surface) (onNewXdgToplevel s surface)
  | mapToplevel {surface : ℕ} (appId : Option String) : mappedOf s.toplevels surface = some false →
      ServerStep s (.mapToplevel surface appId) (onToplevelMap s surface appId)
  | unmapToplevel {surface : ℕ} : mappedOf s.toplevels surface = some true →
      ServerStep s (.unmapToplevel surface) (onToplevelUnmap s surface)
  | destroyToplevel {surface : ℕ} : mappedOf s.toplevels surface = some false →
      ServerStep s (.destroyToplevel surface) (onToplevelDestroy s surface)
  | views {e : ServerEvent} (views : List XwaylandView) : e.changesViews = true →
      (∀ x ∈ viewSurfaces views, x ∈ viewSurfaces s.views ∨ s.isBare x = true) →
        ServerStep s e { s with views := views }
  | mapXwayland {window surface : ℕ} {view : XwaylandView} (created : Bool) :
      lookup XwaylandView.window window s.views = some view → view.surface = some surface →
        ServerStep s (.mapXwayland window created) (onXwaylandSurfaceMap s view surface created)
  | unmapXwayland {window surface : ℕ} {view : XwaylandView} :
      lookup XwaylandView.window window s.views = some view → view.surface = some surface →
        ServerStep s (.unmapXwayland window) (onXwaylandSurfaceUnmap s view surface)
  | dissociate {window surface : ℕ} {view : XwaylandView} :
      lookup XwaylandView.window window s.views = some view → view.surface = some surface →
        ServerStep s (.dissociate window) (onXwaylandSurfaceDissociate s view surface)
  | key : ServerStep s .key (dispatchKey s)
  | touchDown {hit : Option ℕ} : (hit.all fun surface => s.canHit surface) = true →
      ServerStep s (.touchDown hit) (dispatchTouchDown s hit)
  | otherInput : ServerStep s .otherInput s
  | textOp (op : Ime.TextDispatch) : ServerStep s (.textOp op) (dispatchTextOp s op)
  | request {e : Ime.HandlerEvent} {text : Ime.Handler} : e.isRequest = true →
      s.text.next e = some text → ServerStep s (.request e) { s with text := text }

/-- The cases of a step, for the proofs that go through them. -/
theorem serverStep_of_next {s t : Server} {e : ServerEvent} (h : s.next e = some t) :
    ServerStep s e t := by
  cases e with
  | surfaceCreated surface client =>
    obtain ⟨text, htext, rfl⟩ := Option.map_eq_some_iff.mp h
    exact .surfaceCreated htext
  | request e =>
    simp only [Server.next] at h
    split at h
    · rename_i hrequest
      obtain ⟨text, htext, rfl⟩ := Option.map_eq_some_iff.mp h
      exact .request hrequest htext
    · simp at h
  | surfaceDestroyed surface =>
    simp only [Server.next] at h
    split at h
    · rename_i hbare
      exact Option.some.inj h ▸ .surfaceDestroyed hbare
    · simp at h
  | newToplevel surface =>
    simp only [Server.next] at h
    split at h
    · rename_i hbare
      exact Option.some.inj h ▸ .newToplevel hbare
    · simp at h
  | mapToplevel surface appId =>
    simp only [Server.next] at h
    split at h
    · rename_i hmapped
      exact Option.some.inj h ▸ .mapToplevel appId hmapped
    · simp at h
  | unmapToplevel surface =>
    simp only [Server.next] at h
    split at h
    · rename_i hmapped
      exact Option.some.inj h ▸ .unmapToplevel hmapped
    · simp at h
  | destroyToplevel surface =>
    simp only [Server.next] at h
    split at h
    · rename_i hmapped
      exact Option.some.inj h ▸ .destroyToplevel hmapped
    · simp at h
  | newXwaylandSurface window overrideRedirect =>
    simp only [Server.next] at h
    split at h
    · exact Option.some.inj h ▸ .views _ rfl fun x hx => .inl (by simpa [viewSurfaces] using hx)
    · simp at h
  | setOverrideRedirect window overrideRedirect =>
    refine Option.some.inj h ▸ .views _ rfl fun x hx => mem_viewSurfaces_update ?_ hx
    intro view hsurface
    exact .inl hsurface
  | associate window surface =>
    simp only [Server.next] at h
    split at h
    · split at h
      · rename_i hcond
        refine Option.some.inj h ▸ .views _ rfl fun x hx => mem_viewSurfaces_update ?_ hx
        intro view hsurface
        exact .inr (Option.some.inj hsurface ▸ hcond.2)
      · simp at h
    · simp at h
  | destroyXwayland window =>
    simp only [Server.next] at h
    split at h
    · split at h
      · exact Option.some.inj h ▸ .views _ rfl fun x hx =>
          .inl ((remove_sublist window s.views).filterMap _ |>.mem hx)
      · simp at h
    · simp at h
  | mapXwayland window created =>
    simp only [Server.next] at h
    split at h
    · rename_i view hview
      split at h
      · rename_i surface hsurface hmapped
        exact Option.some.inj h ▸ .mapXwayland created hview hsurface
      · simp at h
    · simp at h
  | unmapXwayland window =>
    simp only [Server.next] at h
    split at h
    · rename_i view hview
      split at h
      · rename_i surface hsurface hmapped
        exact Option.some.inj h ▸ .unmapXwayland hview hsurface
      · simp at h
    · simp at h
  | dissociate window =>
    simp only [Server.next] at h
    split at h
    · rename_i view hview
      split at h
      · rename_i surface hsurface hmapped
        exact Option.some.inj h ▸ .dissociate hview hsurface
      · simp at h
    · simp at h
  | key => exact Option.some.inj h ▸ .key
  | touchDown hit =>
    simp only [Server.next] at h
    split at h
    · rename_i hhit
      exact Option.some.inj h ▸ .touchDown hhit
    · simp at h
  | otherInput => exact Option.some.inj h ▸ .otherInput
  | textOp op => exact Option.some.inj h ▸ .textOp op

end Wldroid.Compositor
