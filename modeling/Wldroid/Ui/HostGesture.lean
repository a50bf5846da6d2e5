import Mathlib.Tactic.FieldSimp
import Mathlib.Tactic.Ring
import Wldroid.Ui.ViewportTransform

/-!
# Pinch gestures

A two-finger gesture that zooms and pans the viewport, from its begin through any number of moves.

* `HostGesture` — the centroid and the span of the last event, with `beginHostGesture` and
  `updateHostGesture`; an update zooms about the new centroid and then pans by how far it moved;
* `FreeMoves` — no scale or pan bound takes effect in any step;
* `drift` — how far the fingers move on an axis, each step weighted by how much it zooms;
* `updateHostGesture_free`, `updates_free` — one update, and all of them;
* **`sticks_iff_balanced`** — the guest point stays under the fingers exactly if the drift is zero.
-/

namespace Wldroid.Ui

open Wldroid.Foundation

variable {K : Type*} [Field K] [LinearOrder K]

/-! ### The gesture -/

/-- A motion event: its pointers in the host view, and their mean distance from their centroid. -/
structure GestureEvent (K : Type*) where
  pointers : List (K × K)
  span : K
  deriving DecidableEq, Repr

/-- The viewport, and the host gesture under way. -/
structure HostGesture (K : Type*) [Field K] [LinearOrder K] where
  viewport : ViewportTransform K
  hostGestureActive : Bool
  suppressTouchForwardingUntilUp : Bool
  lastGestureFocusX : K
  lastGestureFocusY : K
  lastGestureSpan : K

/-- The mean of the pointers, without the one skipped; the last centroid if there are none. -/
def gestureCentroid (lastFocus : K × K) (event : GestureEvent K) (skipPointerIndex : Option ℕ) :
    K × K :=
  let kept := match skipPointerIndex with
    | none => event.pointers
    | some index => event.pointers.eraseIdx index
  if kept.length = 0 then lastFocus
  else ((kept.map Prod.fst).sum / kept.length, (kept.map Prod.snd).sum / kept.length)

namespace HostGesture

def centroid (g : HostGesture K) (event : GestureEvent K) (skipPointerIndex : Option ℕ) : K × K :=
  gestureCentroid (g.lastGestureFocusX, g.lastGestureFocusY) event skipPointerIndex

def beginHostGesture (g : HostGesture K) (event : GestureEvent K) (skipPointerIndex : Option ℕ) :
    HostGesture K :=
  let focus := g.centroid event skipPointerIndex
  { g with
    hostGestureActive := true
    suppressTouchForwardingUntilUp := true
    lastGestureFocusX := focus.1
    lastGestureFocusY := focus.2
    lastGestureSpan := event.span }

def updateHostGesture (g : HostGesture K) (event : GestureEvent K) : HostGesture K :=
  let focus := g.centroid event none
  let zoomed :=
    if g.lastGestureSpan > 0 ∧ event.span > 0 then
      g.viewport.zoomBy (event.span / g.lastGestureSpan) focus.1 focus.2
    else g.viewport
  { g with
    viewport := zoomed.panBy (focus.1 - g.lastGestureFocusX) (focus.2 - g.lastGestureFocusY)
    lastGestureFocusX := focus.1
    lastGestureFocusY := focus.2
    lastGestureSpan := event.span }

/-- The gesture after the moves that follow its begin. -/
def updates (g : HostGesture K) (moves : List (GestureEvent K)) : HostGesture K :=
  moves.foldl updateHostGesture g

/-- The guest point under the centroid of the last event. -/
def heldPoint (g : HostGesture K) : GuestPoint K :=
  g.viewport.mapViewToGuest g.lastGestureFocusX g.lastGestureFocusY

end HostGesture

/-! ### Steps that no bound affects -/

/-- A zoom without its bounds. -/
def ViewportTransform.zoomedFreely (t : ViewportTransform K) (factor focalX focalY : K) :
    ViewportTransform K :=
  { t with
    scale := t.scale * factor
    panX := focalX - (t.mapViewToGuest focalX focalY).x * (t.scale * factor)
    panY := focalY - (t.mapViewToGuest focalX focalY).y * (t.scale * factor) }

/-- A pan without its bounds. -/
def ViewportTransform.pannedFreely (t : ViewportTransform K) (dx dy : K) : ViewportTransform K :=
  { t with panX := t.panX + dx, panY := t.panY + dy }

namespace HostGesture

/-- The viewport after an update without its bounds, between the zoom and the pan. -/
def zoomedFreely (g : HostGesture K) (event : GestureEvent K) : ViewportTransform K :=
  let focus := g.centroid event none
  g.viewport.zoomedFreely (event.span / g.lastGestureSpan) focus.1 focus.2

/-- The viewport after an update without its bounds. -/
def movedFreely (g : HostGesture K) (event : GestureEvent K) : ViewportTransform K :=
  let focus := g.centroid event none
  (g.zoomedFreely event).pannedFreely (focus.1 - g.lastGestureFocusX)
    (focus.2 - g.lastGestureFocusY)

/-- In no step does the zoom or the pan leave the bounds of scale and pan. -/
def FreeMoves (g : HostGesture K) : List (GestureEvent K) → Prop
  | [] => True
  | event :: moves =>
    (g.zoomedFreely event).Admissible ∧ (g.movedFreely event).Admissible ∧
      (g.updateHostGesture event).FreeMoves moves

instance decidableFreeMoves (g : HostGesture K) :
    (moves : List (GestureEvent K)) → Decidable (g.FreeMoves moves)
  | [] => isTrue trivial
  | event :: moves =>
    have := decidableFreeMoves (g.updateHostGesture event) moves
    inferInstanceAs (Decidable (_ ∧ _ ∧ _))

end HostGesture

/-- The way of the centroid on each axis, each step times how much the reciprocal of the span
shrinks in it. -/
def drift (lastFocus : K × K) (lastSpan : K) : List (GestureEvent K) → K × K
  | [] => (0, 0)
  | event :: moves =>
    let focus := gestureCentroid lastFocus event none
    let rest := drift focus event.span moves
    ((focus.1 - lastFocus.1) * (1 / lastSpan - 1 / event.span) + rest.1,
      (focus.2 - lastFocus.2) * (1 / lastSpan - 1 / event.span) + rest.2)

namespace HostGesture

variable {g : HostGesture K} {event : GestureEvent K} {moves : List (GestureEvent K)}

/-- An update within the bounds does what it does without them. -/
theorem updateHostGesture_viewport (hscale : g.viewport.scale ≠ 0) (hlast : 0 < g.lastGestureSpan)
    (hspan : 0 < event.span) (hfactor : 0 < event.span / g.lastGestureSpan)
    (hzoom : (g.zoomedFreely event).Admissible) (hmove : (g.movedFreely event).Admissible) :
    (g.updateHostGesture event).viewport = g.movedFreely event := by
  have hboth : g.lastGestureSpan > 0 ∧ event.span > 0 := ⟨hlast, hspan⟩
  have hmem : g.viewport.scale * (event.span / g.lastGestureSpan) ∈
      Set.Icc g.viewport.minScale g.viewport.maxScale := hzoom.scale_mem
  have hzoomed : g.viewport.zoomBy (event.span / g.lastGestureSpan) (g.centroid event none).1
      (g.centroid event none).2 = g.zoomedFreely event := by
    rw [ViewportTransform.zoomBy_eq hscale hfactor, coerceIn_of_mem hmem]
    exact hzoom.clamped_eq
  simp only [updateHostGesture, if_pos hboth, hzoomed]
  exact hmove.clamped_eq

variable [IsStrictOrderedRing K]

/-- **One update.**  The scale follows the span, and the guest point under the centroid drifts by
the way of the centroid times how much the reciprocal of the scale shrinks. -/
theorem updateHostGesture_free (hscale : 0 < g.viewport.scale) (hlast : 0 < g.lastGestureSpan)
    (hspan : 0 < event.span) (hzoom : (g.zoomedFreely event).Admissible)
    (hmove : (g.movedFreely event).Admissible) :
    let next := g.updateHostGesture event
    let focus := g.centroid event none
    next.viewport.scale * g.lastGestureSpan = g.viewport.scale * event.span ∧
      next.heldPoint.x = g.heldPoint.x + g.lastGestureSpan / g.viewport.scale *
        ((focus.1 - g.lastGestureFocusX) * (1 / g.lastGestureSpan - 1 / event.span)) ∧
      next.heldPoint.y = g.heldPoint.y + g.lastGestureSpan / g.viewport.scale *
        ((focus.2 - g.lastGestureFocusY) * (1 / g.lastGestureSpan - 1 / event.span)) := by
  have hview := updateHostGesture_viewport hscale.ne' hlast hspan (div_pos hspan hlast) hzoom hmove
  have hnew : (g.updateHostGesture event).viewport.scale =
      g.viewport.scale * (event.span / g.lastGestureSpan) := by
    rw [hview]
    rfl
  have haxis : ∀ focus last pan : K,
      (focus - (focus - (focus - pan) / g.viewport.scale *
          (g.viewport.scale * (event.span / g.lastGestureSpan)) + (focus - last))) /
        (g.viewport.scale * (event.span / g.lastGestureSpan)) =
      (last - pan) / g.viewport.scale + g.lastGestureSpan / g.viewport.scale *
        ((focus - last) * (1 / g.lastGestureSpan - 1 / event.span)) := by
    intro focus last pan
    field_simp [hscale.ne', hlast.ne', hspan.ne']
    ring
  refine ⟨?_, ?_, ?_⟩
  · rw [hnew]
    field_simp [hlast.ne']
  · simp only [heldPoint, hview]
    exact haxis _ _ _
  · simp only [heldPoint, hview]
    exact haxis _ _ _

/-- **All of them.**  By induction on the moves: the ratio of span to scale stays what it is, and so
the drifts add up. -/
theorem updates_free (hscale : 0 < g.viewport.scale) (hlast : 0 < g.lastGestureSpan)
    (hspans : ∀ event ∈ moves, 0 < event.span) (hfree : g.FreeMoves moves) :
    let last := g.updates moves
    let total := drift (g.lastGestureFocusX, g.lastGestureFocusY) g.lastGestureSpan moves
    last.viewport.scale * g.lastGestureSpan = g.viewport.scale * last.lastGestureSpan ∧
      last.heldPoint.x =
        g.heldPoint.x + g.lastGestureSpan / g.viewport.scale * total.1 ∧
      last.heldPoint.y =
        g.heldPoint.y + g.lastGestureSpan / g.viewport.scale * total.2 := by
  induction moves generalizing g with
  | nil => simp [updates, drift]
  | cons event moves ih =>
    obtain ⟨hspan, hspans⟩ := List.forall_mem_cons.mp hspans
    obtain ⟨hzoom, hmove, hfree⟩ := hfree
    obtain ⟨hstep, hstepX, hstepY⟩ := updateHostGesture_free hscale hlast hspan hzoom hmove
    have hview := updateHostGesture_viewport hscale.ne' hlast hspan (div_pos hspan hlast) hzoom hmove
    have hnext : 0 < (g.updateHostGesture event).viewport.scale := by
      rw [hview]
      exact mul_pos hscale (div_pos hspan hlast)
    obtain ⟨hrest, hrestX, hrestY⟩ := ih hnext hspan hspans hfree
    have hlastSpan : (g.updateHostGesture event).lastGestureSpan = event.span := rfl
    -- what is kept: a step scales span and scale alike
    have hratio : event.span / (g.updateHostGesture event).viewport.scale =
        g.lastGestureSpan / g.viewport.scale := by
      rw [div_eq_div_iff hnext.ne' hscale.ne', mul_comm event.span, ← hstep, mul_comm]
    rw [hlastSpan] at hrest hrestX hrestY
    rw [hratio] at hrestX hrestY
    refine ⟨?_, ?_, ?_⟩
    · show ((g.updateHostGesture event).updates moves).viewport.scale * _ = _
      have hcancel : ((g.updateHostGesture event).updates moves).viewport.scale *
          g.lastGestureSpan * event.span =
          g.viewport.scale * ((g.updateHostGesture event).updates moves).lastGestureSpan *
            event.span := by
        calc
          _ = ((g.updateHostGesture event).updates moves).viewport.scale * event.span *
                g.lastGestureSpan := mul_right_comm _ _ _
          _ = (g.updateHostGesture event).viewport.scale * g.lastGestureSpan *
                ((g.updateHostGesture event).updates moves).lastGestureSpan := by
            rw [hrest, mul_right_comm]
          _ = _ := by rw [hstep, mul_right_comm]
      exact mul_right_cancel₀ hspan.ne' hcancel
    · show ((g.updateHostGesture event).updates moves).heldPoint.x = _
      rw [hrestX, hstepX, add_assoc, ← mul_add]
      rfl
    · show ((g.updateHostGesture event).updates moves).heldPoint.y = _
      rw [hrestY, hstepY, add_assoc, ← mul_add]
      rfl

/-- **Pinches that stick to the fingers.**  In a gesture whose steps no bound affects, the scale is
multiplied by the ratio of the last span to the first and the guest point that was under the first
centroid is under the last one, exactly if the drift is zero on both axes. -/
theorem sticks_iff_balanced (before : HostGesture K) (first : GestureEvent K)
    (skipPointerIndex : Option ℕ) (moves : List (GestureEvent K))
    (hview : before.viewport.Admissible) (hfirst : 0 < first.span)
    (hspans : ∀ event ∈ moves, 0 < event.span)
    (hfree : (before.beginHostGesture first skipPointerIndex).FreeMoves moves) :
    let begun := before.beginHostGesture first skipPointerIndex
    let last := begun.updates moves
    (last.viewport.scale = before.viewport.scale * (last.lastGestureSpan / first.span) ∧
        last.heldPoint = begun.heldPoint) ↔
      drift (before.centroid first skipPointerIndex) first.span moves = (0, 0) := by
  intro begun last
  obtain ⟨hscale, hx, hy⟩ := updates_free (g := begun) hview.scale_pos hfirst hspans hfree
  have hratio : first.span / before.viewport.scale ≠ 0 :=
    (div_pos hfirst hview.scale_pos).ne'
  have hfollows : last.viewport.scale = before.viewport.scale *
      (last.lastGestureSpan / first.span) := by
    rw [← mul_div_assoc]
    exact (eq_div_iff hfirst.ne').mpr hscale
  have hheld : last.heldPoint = begun.heldPoint ↔
      last.heldPoint.x = begun.heldPoint.x ∧ last.heldPoint.y = begun.heldPoint.y := by
    constructor
    · intro h
      rw [h]
      exact ⟨rfl, rfl⟩
    · rintro ⟨h1, h2⟩
      exact congrArg₂ GuestPoint.mk h1 h2
  -- on an axis, the point under the fingers drifts by the drift, in guest pixels
  have haxis : ∀ {held start total : K},
      held = start + first.span / before.viewport.scale * total → (held = start ↔ total = 0) := by
    intro held start total h
    rw [h, add_eq_left, mul_eq_zero, or_iff_right hratio]
  rw [and_iff_right hfollows, hheld, Prod.ext_iff]
  exact and_congr (haxis hx) (haxis hy)

/-- Two fingers, and their mean distance from the centroid. -/
def twoFingers (x₁ y₁ x₂ y₂ span : ℚ) : GestureEvent ℚ := ⟨[(x₁, y₁), (x₂, y₂)], span⟩

/-- A view zoomed in twice about its middle, before any gesture. -/
def zoomedIn : HostGesture ℚ :=
  ⟨.afterOps [.setViewportViewSize 100 100, .setViewportContentSize 100 100, .setZoom 2 none none],
    false, false, 0, 0, 0⟩

/-- A pan after a zoom sticks. -/
theorem zoomed_then_panned_sticks :
    ((zoomedIn.beginHostGesture (twoFingers 45 50 55 50 5) none).updates
      [twoFingers 40 50 60 50 10, twoFingers 45 55 65 55 10]).heldPoint =
      (zoomedIn.beginHostGesture (twoFingers 45 50 55 50 5) none).heldPoint :=
  ((sticks_iff_balanced zoomedIn (twoFingers 45 50 55 50 5) none
    [twoFingers 40 50 60 50 10, twoFingers 45 55 65 55 10] (by decide +kernel) (by decide +kernel)
    (by decide +kernel) (by decide +kernel)).mpr (by decide +kernel)).2

/-- A pan while zooming does not: within all bounds, the point under the fingers slips. -/
theorem panned_while_zooming_slips :
    (zoomedIn.beginHostGesture (twoFingers 45 50 55 50 5) none).FreeMoves
        [twoFingers 50 50 70 50 10] ∧
      (zoomedIn.beginHostGesture (twoFingers 45 50 55 50 5) none).heldPoint = ⟨50, 50⟩ ∧
      ((zoomedIn.beginHostGesture (twoFingers 45 50 55 50 5) none).updates
        [twoFingers 50 50 70 50 10]).heldPoint = ⟨105 / 2, 50⟩ := by
  decide +kernel

end HostGesture

end Wldroid.Ui
