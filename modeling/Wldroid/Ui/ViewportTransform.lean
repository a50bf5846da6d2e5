import Mathlib.Algebra.Order.Ring.Rat
import Mathlib.Tactic.Linarith
import Mathlib.Tactic.NormNum
import Wldroid.Foundation.Clamp

/-!
# The viewport

How the fixed guest output is scaled and moved inside the host view, and the operations on it that
`CompositorSurfaceState` offers.  The arithmetic is exact, over any ordered field.

* `ViewportTransform` — scale, pan, sizes and scale bounds, with `clamped`, `zoomBy`, `panBy` and
  the `with…` operations;
* `ViewportOp` — the public operations of the state that holds it;
* `Admissible` — scale and pan lie within their bounds, as `clamped` leaves them;
* `axis_covered`, `axis_focal` — what the pan bounds and the focal point come to on one axis;
* **`viewport_invariants`** — after every sequence of operations.
-/

namespace Wldroid.Ui

open Wldroid.Foundation

/-! ### The transform -/

/-- A point in Wayland guest coordinates. -/
structure GuestPoint (K : Type*) where
  x : K
  y : K
  deriving DecidableEq, Repr

/-- `ViewportTransform`, with what its constructor requires of the scale bounds. -/
structure ViewportTransform (K : Type*) [Field K] [LinearOrder K] where
  scale : K
  panX : K
  panY : K
  viewWidth : ℤ
  viewHeight : ℤ
  contentWidth : ℤ
  contentHeight : ℤ
  imeBottomInsetPx : ℤ
  minScale : K
  maxScale : K
  minScale_pos : 0 < minScale
  min_le_max : minScale ≤ maxScale

namespace ViewportTransform

section Operations

variable {K : Type*} [Field K] [LinearOrder K]

def mapViewToGuest (t : ViewportTransform K) (viewX viewY : K) : GuestPoint K :=
  ⟨(viewX - t.panX) / t.scale, (viewY - t.panY) / t.scale⟩

/-- The height of the view above the keyboard. -/
def safeHeight (t : ViewportTransform K) : ℤ := max 0 (t.viewHeight - t.imeBottomInsetPx)

/-- The least pan on an axis; the greatest is `0`. -/
def minPan (view content : ℤ) (scale : K) : K := min 0 (view - content * scale)

def clamped (t : ViewportTransform K) : ViewportTransform K :=
  let clampedScale := coerceIn t.minScale t.maxScale t.scale
  { t with
    scale := clampedScale
    panX := coerceIn (minPan t.viewWidth t.contentWidth clampedScale) 0 t.panX
    panY := coerceIn (minPan t.safeHeight t.contentHeight clampedScale) 0 t.panY }

def zoomBy (t : ViewportTransform K) (factor focalX focalY : K) : ViewportTransform K :=
  if factor ≤ 0 then t
  else
    let newScale := coerceIn t.minScale t.maxScale (t.scale * factor)
    if newScale = t.scale then t.clamped
    else
      let guestX := (focalX - t.panX) / t.scale
      let guestY := (focalY - t.panY) / t.scale
      clamped { t with
        scale := newScale
        panX := focalX - guestX * newScale
        panY := focalY - guestY * newScale }

def panBy (t : ViewportTransform K) (dx dy : K) : ViewportTransform K :=
  clamped { t with panX := t.panX + dx, panY := t.panY + dy }

def reset (t : ViewportTransform K) : ViewportTransform K :=
  clamped { t with scale := t.minScale, panX := 0, panY := 0 }

def withViewSize (t : ViewportTransform K) (width height : ℤ) : ViewportTransform K :=
  clamped { t with viewWidth := max width 0, viewHeight := max height 0 }

def withContentSize (t : ViewportTransform K) (width height : ℤ) : ViewportTransform K :=
  clamped { t with contentWidth := max width 0, contentHeight := max height 0 }

def withImeBottomInset (t : ViewportTransform K) (heightPx : ℤ) : ViewportTransform K :=
  clamped { t with imeBottomInsetPx := max heightPx 0 }

variable [IsStrictOrderedRing K]

theorem safeMin_pos (minScale : K) : 0 < max minScale (1 / 100) :=
  lt_max_of_lt_right (by norm_num)

def withScaleBounds (t : ViewportTransform K) (minScale maxScale : K) : ViewportTransform K :=
  clamped { t with
    minScale := max minScale (1 / 100)
    maxScale := max maxScale (max minScale (1 / 100))
    minScale_pos := safeMin_pos minScale
    min_le_max := le_max_right _ _ }

/-- `ViewportTransform()`. -/
def default : ViewportTransform K where
  scale := 1
  panX := 0
  panY := 0
  viewWidth := 0
  viewHeight := 0
  contentWidth := 0
  contentHeight := 0
  imeBottomInsetPx := 0
  minScale := 1
  maxScale := 4
  minScale_pos := one_pos
  min_le_max := by norm_num

end Operations

end ViewportTransform

/-! ### The state that holds it -/

/-- The operations of `CompositorSurfaceState` on its viewport. -/
inductive ViewportOp (K : Type*) where
  | setViewportScaleBounds (minScale maxScale : K)
  | resetZoom
  | zoomBy (factor focalX focalY : K)
  | setZoom (scale : K) (focalX focalY : Option K)
  | zoomIn (factor : K)
  | zoomOut (factor : K)
  | panBy (dx dy : K)
  | setPan (panX panY : K)
  | setViewport (scale panX panY : K)
  | setViewportViewSize (width height : ℤ)
  | setViewportContentSize (width height : ℤ)
  | setImeBottomInset (heightPx : ℤ)
  deriving Repr

namespace ViewportTransform

variable {K : Type*} [Field K] [LinearOrder K]

def setZoom (t : ViewportTransform K) (scale : K) (focalX focalY : Option K) :
    ViewportTransform K :=
  let fx := focalX.getD (t.viewWidth / 2)
  let fy := focalY.getD (t.viewHeight / 2)
  if t.scale ≤ 0 then clamped { t with scale := scale }
  else t.zoomBy (scale / t.scale) fx fy

def zoomIn (t : ViewportTransform K) (factor : K) : ViewportTransform K :=
  t.zoomBy factor (t.viewWidth / 2) (t.viewHeight / 2)

def zoomOut (t : ViewportTransform K) (factor : K) : ViewportTransform K :=
  if factor ≤ 0 then t else t.zoomBy (1 / factor) (t.viewWidth / 2) (t.viewHeight / 2)

def setPan (t : ViewportTransform K) (panX panY : K) : ViewportTransform K :=
  clamped { t with panX := panX, panY := panY }

def setViewport (t : ViewportTransform K) (scale panX panY : K) : ViewportTransform K :=
  clamped { t with scale := scale, panX := panX, panY := panY }

/-- The viewport after an operation. -/
def apply [IsStrictOrderedRing K] (t : ViewportTransform K) : ViewportOp K → ViewportTransform K
  | .setViewportScaleBounds minScale maxScale => t.withScaleBounds minScale maxScale
  | .resetZoom => t.reset
  | .zoomBy factor focalX focalY => t.zoomBy factor focalX focalY
  | .setZoom scale focalX focalY => t.setZoom scale focalX focalY
  | .zoomIn factor => t.zoomIn factor
  | .zoomOut factor => t.zoomOut factor
  | .panBy dx dy => t.panBy dx dy
  | .setPan panX panY => t.setPan panX panY
  | .setViewport scale panX panY => t.setViewport scale panX panY
  | .setViewportViewSize width height => t.withViewSize width height
  | .setViewportContentSize width height => t.withContentSize width height
  | .setImeBottomInset heightPx => t.withImeBottomInset heightPx

/-- The viewport of a new `CompositorSurfaceState` after a sequence of operations. -/
def afterOps [IsStrictOrderedRing K] (ops : List (ViewportOp K)) : ViewportTransform K :=
  ops.foldl apply default

/-! ### One axis -/

section Axis

variable {K : Type*} [Field K] [LinearOrder K]

theorem minPan_le_zero (view content : ℤ) (scale : K) : minPan view content scale ≤ 0 :=
  min_le_left _ _

variable [IsStrictOrderedRing K]

/-- Where the scaled content is as large as the view, the pan bounds keep the view inside it. -/
theorem axis_covered {view content : ℤ} {scale pan x : K} (hscale : 0 < scale)
    (hpan : pan ∈ Set.Icc (minPan view content scale) 0) (hlarge : (view : K) ≤ content * scale)
    (hx : x ∈ Set.Icc 0 (view : K)) : (x - pan) / scale ∈ Set.Icc 0 (content : K) := by
  have hmin : minPan view content scale = view - content * scale :=
    min_eq_right (sub_nonpos.mpr hlarge)
  have hlow : (view : K) - content * scale ≤ pan := hmin ▸ hpan.1
  constructor
  · exact div_nonneg (sub_nonneg.mpr (hpan.2.trans hx.1)) hscale.le
  · rw [div_le_iff₀ hscale]
    have hhigh := hx.2
    linarith

/-- The pan keeps a guest point under a focal point if the bounds admit that, and otherwise is the
admissible pan nearest to the one that would. -/
def KeepsFocal (low scale pan guest focal : K) : Prop :=
  (focal - guest * scale ∈ Set.Icc low 0 → (focal - pan) / scale = guest) ∧
    pan ∈ Set.Icc low 0 ∧
    ∀ p ∈ Set.Icc low 0, |pan - (focal - guest * scale)| ≤ |p - (focal - guest * scale)|

theorem axis_focal {low scale : K} (hlow : low ≤ 0) (hscale : scale ≠ 0) (guest focal : K) :
    KeepsFocal low scale (coerceIn low 0 (focal - guest * scale)) guest focal := by
  refine ⟨fun hmem => ?_, coerceIn_mem hlow _, fun p hp => abs_coerceIn_sub_le _ hp⟩
  rw [coerceIn_of_mem hmem, sub_sub_cancel, mul_div_assoc, div_self hscale, mul_one]

end Axis

/-! ### Admissible transforms, and zooms -/

variable {K : Type*} [Field K] [LinearOrder K]

/-- What a zoom by a positive factor comes to, whether or not it changes the scale. -/
theorem zoomBy_eq {t : ViewportTransform K} (hscale : t.scale ≠ 0) {factor : K} (hfactor : 0 < factor)
    (focalX focalY : K) :
    t.zoomBy factor focalX focalY =
      clamped { t with
        scale := coerceIn t.minScale t.maxScale (t.scale * factor)
        panX := focalX - (t.mapViewToGuest focalX focalY).x *
          coerceIn t.minScale t.maxScale (t.scale * factor)
        panY := focalY - (t.mapViewToGuest focalX focalY).y *
          coerceIn t.minScale t.maxScale (t.scale * factor) } := by
  rw [zoomBy, if_neg (not_le.mpr hfactor)]
  by_cases hsame : coerceIn t.minScale t.maxScale (t.scale * factor) = t.scale
  · have hback : ∀ focal pan : K, focal - (focal - pan) / t.scale * t.scale = pan := by
      intro focal pan
      rw [div_mul_cancel₀ _ hscale, sub_sub_cancel]
    simp only [hsame, if_true, mapViewToGuest, hback]
  · simp only [hsame, if_false]
    rfl

/-- Scale and pan lie within their bounds. -/
structure Admissible (t : ViewportTransform K) : Prop where
  scale_mem : t.scale ∈ Set.Icc t.minScale t.maxScale
  panX_mem : t.panX ∈ Set.Icc (minPan t.viewWidth t.contentWidth t.scale) 0
  panY_mem : t.panY ∈ Set.Icc (minPan t.safeHeight t.contentHeight t.scale) 0

instance (t : ViewportTransform K) : Decidable t.Admissible :=
  decidable_of_iff (t.scale ∈ Set.Icc t.minScale t.maxScale ∧
      t.panX ∈ Set.Icc (minPan t.viewWidth t.contentWidth t.scale) 0 ∧
      t.panY ∈ Set.Icc (minPan t.safeHeight t.contentHeight t.scale) 0)
    ⟨fun ⟨hscale, hx, hy⟩ => ⟨hscale, hx, hy⟩, fun h => ⟨h.scale_mem, h.panX_mem, h.panY_mem⟩⟩

theorem Admissible.scale_pos {t : ViewportTransform K} (h : t.Admissible) : 0 < t.scale :=
  t.minScale_pos.trans_le h.scale_mem.1

theorem Admissible.clamped_eq {t : ViewportTransform K} (h : t.Admissible) : t.clamped = t := by
  rw [clamped]
  simp only [coerceIn_of_mem h.scale_mem, coerceIn_of_mem h.panX_mem, coerceIn_of_mem h.panY_mem]

theorem clamped_admissible (t : ViewportTransform K) : t.clamped.Admissible where
  scale_mem := coerceIn_mem t.min_le_max _
  panX_mem := coerceIn_mem (minPan_le_zero _ _ _) _
  panY_mem := coerceIn_mem (minPan_le_zero _ _ _) _

theorem clamped_clamped (t : ViewportTransform K) : t.clamped.clamped = t.clamped :=
  t.clamped_admissible.clamped_eq

theorem zoomBy_admissible {t : ViewportTransform K} (h : t.Admissible) (factor focalX focalY : K) :
    (t.zoomBy factor focalX focalY).Admissible := by
  by_cases hfactor : factor ≤ 0
  · rw [zoomBy, if_pos hfactor]
    exact h
  · rw [zoomBy_eq h.scale_pos.ne' (not_le.mp hfactor)]
    exact clamped_admissible _

variable [IsStrictOrderedRing K]

theorem default_admissible : (default : ViewportTransform K).Admissible where
  scale_mem := ⟨le_rfl, by norm_num [default]⟩
  panX_mem := ⟨min_le_left _ _, le_rfl⟩
  panY_mem := ⟨min_le_left _ _, le_rfl⟩

/-- Every view point on an axis whose scaled content is as large as the view shows content. -/
def Covered (t : ViewportTransform K) : Prop :=
  ((t.viewWidth : K) ≤ t.contentWidth * t.scale → ∀ x ∈ Set.Icc 0 (t.viewWidth : K), ∀ y,
      (t.mapViewToGuest x y).x ∈ Set.Icc 0 (t.contentWidth : K)) ∧
    ((t.safeHeight : K) ≤ t.contentHeight * t.scale → ∀ y ∈ Set.Icc 0 (t.safeHeight : K), ∀ x,
      (t.mapViewToGuest x y).y ∈ Set.Icc 0 (t.contentHeight : K))

theorem Admissible.covered {t : ViewportTransform K} (h : t.Admissible) : t.Covered :=
  ⟨fun hlarge _ hx _ => axis_covered h.scale_pos h.panX_mem hlarge hx,
    fun hlarge _ hy _ => axis_covered h.scale_pos h.panY_mem hlarge hy⟩

/-- A zoom multiplies the scale by the factor, up to its bounds, and keeps the guest point under the
focal point, up to the pan bounds. -/
def ZoomsAbout (t : ViewportTransform K) (factor focalX focalY : K) : Prop :=
  let z := t.zoomBy factor focalX focalY
  let guest := t.mapViewToGuest focalX focalY
  z.scale = coerceIn t.minScale t.maxScale (t.scale * factor) ∧
    KeepsFocal (minPan t.viewWidth t.contentWidth z.scale) z.scale z.panX guest.x focalX ∧
    KeepsFocal (minPan t.safeHeight t.contentHeight z.scale) z.scale z.panY guest.y focalY

theorem zoomsAbout {t : ViewportTransform K} (hscale : t.scale ≠ 0) {factor : K}
    (hfactor : 0 < factor) (focalX focalY : K) : t.ZoomsAbout factor focalX focalY := by
  have hmem := coerceIn_mem t.min_le_max (t.scale * factor)
  have hnew : coerceIn t.minScale t.maxScale (t.scale * factor) ≠ 0 :=
    (t.minScale_pos.trans_le hmem.1).ne'
  simp only [ZoomsAbout, zoomBy_eq hscale hfactor, clamped, coerceIn_of_mem hmem]
  exact ⟨trivial, axis_focal (minPan_le_zero _ _ _) hnew _ _,
    axis_focal (minPan_le_zero _ _ _) hnew _ _⟩

/-! ### Sequences of operations -/

/-- Every operation ends with `clamped`, or does nothing. -/
theorem apply_admissible {t : ViewportTransform K} (h : t.Admissible) (op : ViewportOp K) :
    (t.apply op).Admissible := by
  cases op with
  | zoomBy factor focalX focalY => exact zoomBy_admissible h factor focalX focalY
  | zoomIn factor => exact zoomBy_admissible h factor _ _
  | zoomOut factor =>
    show (if _ then _ else _ : ViewportTransform K).Admissible
    by_cases hfactor : factor ≤ 0
    · rw [if_pos hfactor]
      exact h
    · rw [if_neg hfactor]
      exact zoomBy_admissible h _ _ _
  | setZoom scale focalX focalY =>
    show (if _ then _ else _ : ViewportTransform K).Admissible
    rw [if_neg (not_le.mpr h.scale_pos)]
    exact zoomBy_admissible h _ _ _
  | setViewportScaleBounds minScale maxScale => exact clamped_admissible _
  | resetZoom => exact clamped_admissible _
  | panBy dx dy => exact clamped_admissible _
  | setPan panX panY => exact clamped_admissible _
  | setViewport scale panX panY => exact clamped_admissible _
  | setViewportViewSize width height => exact clamped_admissible _
  | setViewportContentSize width height => exact clamped_admissible _
  | setImeBottomInset heightPx => exact clamped_admissible _

theorem afterOps_admissible (ops : List (ViewportOp K)) : (afterOps ops).Admissible :=
  List.foldlRecOn ops apply default_admissible fun _ h op _ => apply_admissible h op

/-- **The viewport after every sequence of operations.**  Scale and pan lie within their bounds, the
view shows nothing but content on an axis that has enough of it, a zoom keeps the guest point under
its focal point unless the pan bounds intervene, and clamping twice is clamping once. -/
theorem viewport_invariants (ops : List (ViewportOp ℚ)) :
    (afterOps ops).Admissible ∧ (afterOps ops).Covered ∧
      (∀ factor focalX focalY, 0 < factor → (afterOps ops).ZoomsAbout factor focalX focalY) ∧
      ∀ t : ViewportTransform ℚ, t.clamped.clamped = t.clamped :=
  have h := afterOps_admissible ops
  ⟨h, h.covered, fun _ focalX focalY hfactor => zoomsAbout h.scale_pos.ne' hfactor focalX focalY,
    clamped_clamped⟩

/-- A zoom of a view that shows part of a larger content. -/
theorem viewport_zooms :
    (afterOps [.setViewportViewSize 100 100, .setViewportContentSize 200 200]).ZoomsAbout
      (2 : ℚ) 25 30 :=
  (viewport_invariants [.setViewportViewSize 100 100, .setViewportContentSize 200 200]).2.2.1
    2 25 30 (by norm_num)

end ViewportTransform

end Wldroid.Ui
