import Mathlib.Tactic

/-!
# The surface view's input

`CompositorSurface.kt` forwards the touch and mouse events of a view to the guest, except those that
pan and zoom the view itself.  Coordinates, the viewport and the tap that shows the keyboard decide
nothing of what is forwarded, and are left out.

* `CompositorSurfaceView` — the flags of the view, and everything it has sent;
* `CompositorSurfaceView.onTouchEvent` — where an event goes: `handlePointerEvent`,
  `handleHostGesture`, `handleTouchEvent`, or nowhere;
* `CompositorSurfaceView.setInputMode` — the setter, which cancels touches.
-/

namespace Wldroid.Ui

/-! ### Events -/

inductive InputMode where
  | touchOnly
  | keyboardOnly
  | touchAndKeyboard
  | pointerAndKeyboard
  | all
  deriving DecidableEq, Repr

def InputMode.hasTouchInput (mode : InputMode) : Bool :=
  mode == .touchOnly || mode == .touchAndKeyboard || mode == .all

def InputMode.hasPointerInput (mode : InputMode) : Bool :=
  mode == .pointerAndKeyboard || mode == .all

/-- `MotionEvent.getActionMasked`. -/
inductive MotionAction where
  | down
  | up
  | move
  | cancel
  | pointerDown
  | pointerUp
  | buttonPress
  | buttonRelease
  deriving DecidableEq, Repr

/-- `BUTTON_PRIMARY`, `BUTTON_SECONDARY` and `BUTTON_TERTIARY`. -/
def buttonPrimary : ℕ := 1
def buttonSecondary : ℕ := 2
def buttonTertiary : ℕ := 4

/-- `MotionEvent`; the pointers by their ids, in the order of their indices. -/
structure MotionEvent where
  /-- The tool of the first pointer is a mouse. -/
  isMouse : Bool
  actionMasked : MotionAction
  actionIndex : ℕ
  pointerIds : List ℤ
  buttonState : ℕ
  actionButton : ℕ
  eventTime : ℕ
  deriving DecidableEq, Repr

/-- `MotionEvent.isButtonPressed`. -/
def isButtonPressed (buttonState button : ℕ) : Bool :=
  button != 0 && buttonState &&& button == button

/-- What is sent to the guest. -/
inductive GuestEvent where
  | touch (id : ℤ) (action : MotionAction) (timestampMs : ℕ)
  | pointerMotion (timestampMs : ℕ)
  /-- A guest button, with `0` for a press and `1` for a release. -/
  | pointerButton (button action timestampMs : ℕ)
  deriving DecidableEq, Repr

/-- Linux input event button codes. -/
def btnLeft : ℕ := 0x110
def btnRight : ℕ := 0x111
def btnMiddle : ℕ := 0x112

/-- `pointerButtonFromMotionEvent`, from the button state of the event. -/
def pointerButtonFromMotionEvent (buttonState : ℕ) : ℕ :=
  if isButtonPressed buttonState buttonSecondary then btnRight
  else if isButtonPressed buttonState buttonTertiary then btnMiddle
  else btnLeft

def pointerButtonFromActionButton (actionButton : ℕ) : ℕ :=
  if actionButton = buttonPrimary then btnLeft
  else if actionButton = buttonSecondary then btnRight
  else if actionButton = buttonTertiary then btnMiddle
  else btnLeft

/-! ### The view -/

structure CompositorSurfaceView where
  inputMode : InputMode
  enableViewportGestures : Bool
  /-- In the order they were added. -/
  forwardedTouchIds : List ℤ
  hostGestureActive : Bool
  suppressTouchForwardingUntilUp : Bool
  /-- Ghost: what has been sent to the guest. -/
  sent : List GuestEvent
  deriving DecidableEq, Repr

namespace CompositorSurfaceView

def send (v : CompositorSurfaceView) (events : List GuestEvent) : CompositorSurfaceView :=
  { v with sent := v.sent ++ events }

/-- A `CANCEL` for every touch that is forwarded. -/
def cancelForwardedTouches (v : CompositorSurfaceView) (timestampMs : ℕ) :
    CompositorSurfaceView :=
  { v.send (v.forwardedTouchIds.map fun id => .touch id .cancel timestampMs) with
    forwardedTouchIds := [] }

def endHostGesture (v : CompositorSurfaceView) (suppressUntilUp : Bool) : CompositorSurfaceView :=
  { v with hostGestureActive := false, suppressTouchForwardingUntilUp := suppressUntilUp }

def beginHostGesture (v : CompositorSurfaceView) : CompositorSurfaceView :=
  { v with hostGestureActive := true, suppressTouchForwardingUntilUp := true }

/-- The setter of `inputMode`: without touch input any more, touches and gesture end. -/
def setInputMode (v : CompositorSurfaceView) (value : InputMode) (uptimeMillis : ℕ) :
    CompositorSurfaceView :=
  if v.inputMode.hasTouchInput && !value.hasTouchInput then
    ({ v with inputMode := value }.cancelForwardedTouches uptimeMillis).endHostGesture false
  else { v with inputMode := value }

def shouldHandleHostGesture (v : CompositorSurfaceView) (event : MotionEvent) : Bool :=
  v.enableViewportGestures && (v.hostGestureActive || decide (2 ≤ event.pointerIds.length))

def handleHostGesture (v : CompositorSurfaceView) (event : MotionEvent) : CompositorSurfaceView :=
  if !v.hostGestureActive then (v.cancelForwardedTouches event.eventTime).beginHostGesture
  else
    match event.actionMasked with
    | .pointerDown => v.beginHostGesture
    | .pointerUp =>
        if 2 ≤ event.pointerIds.length - 1 then v.beginHostGesture else v.endHostGesture true
    | .up | .cancel => v.endHostGesture false
    -- a move pans and zooms the viewport
    | _ => v

/-- `forwardedTouchIds.add`. -/
def addForwarded (v : CompositorSurfaceView) (id : ℤ) : CompositorSurfaceView :=
  { v with forwardedTouchIds :=
      if id ∈ v.forwardedTouchIds then v.forwardedTouchIds else v.forwardedTouchIds ++ [id] }

/-- The end of one touch, if it is forwarded. -/
def forwardUp (v : CompositorSurfaceView) (id : ℤ) (eventTime : ℕ) : CompositorSurfaceView :=
  if id ∈ v.forwardedTouchIds then
    { v.send [.touch id .up eventTime] with forwardedTouchIds := v.forwardedTouchIds.erase id }
  else v

def handleTouchEvent (v : CompositorSurfaceView) (event : MotionEvent) : CompositorSurfaceView :=
  match event.actionMasked with
  | .down | .pointerDown =>
      match event.pointerIds[event.actionIndex]? with
      | some id => (v.addForwarded id).send [.touch id .down event.eventTime]
      | none => v
  | .move =>
      v.send ((event.pointerIds.filter fun id => id ∈ v.forwardedTouchIds).map
        fun id => .touch id .move event.eventTime)
  | .up | .pointerUp =>
      match event.pointerIds[event.actionIndex]? with
      | some id => v.forwardUp id event.eventTime
      | none => v
  | .cancel => v.cancelForwardedTouches event.eventTime
  | _ => v

def handlePointerEvent (v : CompositorSurfaceView) (event : MotionEvent) : CompositorSurfaceView :=
  let v := v.send [.pointerMotion event.eventTime]
  match event.actionMasked with
  | .down =>
      v.send [.pointerButton (pointerButtonFromMotionEvent event.buttonState) 0 event.eventTime]
  | .up =>
      v.send [.pointerButton (pointerButtonFromMotionEvent event.buttonState) 1 event.eventTime]
  | .buttonPress =>
      v.send [.pointerButton (pointerButtonFromActionButton event.actionButton) 0 event.eventTime]
  | .buttonRelease =>
      v.send [.pointerButton (pointerButtonFromActionButton event.actionButton) 1 event.eventTime]
  -- a cancel sends nothing
  | _ => v

def onTouchEvent (v : CompositorSurfaceView) (event : MotionEvent) : CompositorSurfaceView :=
  if event.isMouse && v.inputMode.hasPointerInput then v.handlePointerEvent event
  else if !event.isMouse && v.shouldHandleHostGesture event then v.handleHostGesture event
  else if v.suppressTouchForwardingUntilUp then
    if event.actionMasked = .up ∨ event.actionMasked = .cancel then
      { v with suppressTouchForwardingUntilUp := false }
    else v
  else if !event.isMouse && v.inputMode.hasTouchInput then v.handleTouchEvent event
  else v

end CompositorSurfaceView

end Wldroid.Ui
