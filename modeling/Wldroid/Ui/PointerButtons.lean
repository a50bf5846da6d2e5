import Wldroid.Foundation.Holds
import Wldroid.Foundation.Transition
import Wldroid.Ui.CompositorSurface

/-!
# The buttons the guest sees

A stream of mouse events as Android delivers them while the view takes pointer input, and the guest
buttons that are pressed and released of it.

* `MouseScreen.next` — one event of the stream, or a change of the view's settings;
* `PairedButtons` — each button's events alternate, and none is pressed between gestures;
* `ReleasesPressed` — an `UP` still has the buttons that named the pressed one, and nothing is
  cancelled;
* **`pairedButtons_iff_releasesPressed`** — a run keeps the former exactly if its steps do the
  latter;
* `right_click_stays_pressed` — a click of the secondary button.
-/

namespace Wldroid.Ui

open Wldroid.Foundation

/-! ### Streams -/

/-- The button states of a gesture: that of its `DOWN`, and that of its last event. -/
structure MouseGesture where
  down : ℕ
  current : ℕ
  deriving DecidableEq, Repr

/-- The view, and the gesture under way. -/
structure MouseScreen where
  view : CompositorSurfaceView
  gesture : Option MouseGesture
  deriving DecidableEq, Repr

/-- What Android may deliver next.  The buttons of an `UP` are those before it, without at least
one. -/
def ContinuesMouse (gesture : Option MouseGesture) (event : MotionEvent) : Bool :=
  event.isMouse && match event.actionMasked, gesture with
  | .down, none => true
  | .move, some _ => true
  | .up, some g => event.buttonState &&& g.current == event.buttonState &&
      (g.current == 0 || event.buttonState != g.current)
  | .cancel, some _ => true
  | _, _ => false

/-- The gesture after an event. -/
def gestureAfter (gesture : Option MouseGesture) (event : MotionEvent) : Option MouseGesture :=
  match event.actionMasked with
  | .down => some ⟨event.buttonState, event.buttonState⟩
  | .move => gesture.map fun g => { g with current := event.buttonState }
  | .up | .cancel => none
  | _ => gesture

inductive MouseScreenEvent where
  | motion (event : MotionEvent)
  /-- Pointer input stays enabled. -/
  | setInputMode (mode : InputMode) (uptimeMillis : ℕ) (enabled : mode.hasPointerInput = true)
  | setEnableViewportGestures (enabled : Bool)
  deriving DecidableEq, Repr

def MouseScreen.next (s : MouseScreen) : MouseScreenEvent → Option MouseScreen
  | .motion event =>
      if ContinuesMouse s.gesture event then
        some ⟨s.view.onTouchEvent event, gestureAfter s.gesture event⟩
      else none
  | .setInputMode mode uptimeMillis _ =>
      some { s with view := s.view.setInputMode mode uptimeMillis }
  | .setEnableViewportGestures enabled =>
      some { s with view := { s.view with enableViewportGestures := enabled } }

/-- A view that takes pointer input and has sent nothing. -/
structure MouseScreen.Initial (s : MouseScreen) : Prop where
  pointerInput : s.view.inputMode.hasPointerInput = true
  sent : s.view.sent = []
  gesture : s.gesture = none

/-- All streams, and all changes of the settings that keep pointer input. -/
def mouseScreenSystem : System MouseScreen MouseScreenEvent :=
  System.ofNext MouseScreen.Initial MouseScreen.next

/-! ### Buttons -/

/-- What an event means for a button of the guest. -/
def buttonHold : GuestEvent → Option (ℕ × Hold)
  | .pointerButton button 0 _ => some (button, .down)
  | .pointerButton button 1 _ => some (button, .up)
  | _ => none

/-- For each button the forwarded events alternate, beginning with a press, and between gestures it
is released. -/
structure PairedButtons (s : MouseScreen) : Prop where
  alternate : ∀ button, CompleteGroups (holdsOf buttonHold button s.view.sent) ∨
    OpenGroups (holdsOf buttonHold button s.view.sent)
  released : s.gesture = none → ∀ button, CompleteGroups (holdsOf buttonHold button s.view.sent)

/-- The secondary button is pressed in both or in neither, and if in neither, the tertiary one. -/
def SameButton (buttonState buttonState' : ℕ) : Prop :=
  isButtonPressed buttonState buttonSecondary = isButtonPressed buttonState' buttonSecondary ∧
    (isButtonPressed buttonState buttonSecondary = false →
      isButtonPressed buttonState buttonTertiary = isButtonPressed buttonState' buttonTertiary)

/-- The buttons of an `UP` still name the one that was pressed, and no gesture is cancelled. -/
def ReleasesPressed (s : MouseScreen) : MouseScreenEvent → Prop
  | .motion event => event.actionMasked ≠ .cancel ∧
      (event.actionMasked = .up → ∀ g ∈ s.gesture, SameButton g.down event.buttonState)
  | _ => True

instance (buttonState buttonState' : ℕ) : Decidable (SameButton buttonState buttonState') :=
  inferInstanceAs (Decidable (_ ∧ _))

instance (s : MouseScreen) (e : MouseScreenEvent) : Decidable (ReleasesPressed s e) := by
  cases e with
  | motion event =>
    exact inferInstanceAs (Decidable (event.actionMasked ≠ .cancel ∧
      (event.actionMasked = .up → ∀ g ∈ s.gesture, SameButton g.down event.buttonState)))
  | _ => exact isTrue trivial

/-- The two button states give the same guest button. -/
theorem sameButton_iff {buttonState buttonState' : ℕ} :
    SameButton buttonState buttonState' ↔
      pointerButtonFromMotionEvent buttonState = pointerButtonFromMotionEvent buttonState' := by
  unfold SameButton pointerButtonFromMotionEvent
  cases isButtonPressed buttonState buttonSecondary <;>
    cases isButtonPressed buttonState' buttonSecondary <;>
    cases isButtonPressed buttonState buttonTertiary <;>
    cases isButtonPressed buttonState' buttonTertiary <;>
    decide

/-! ### One event -/

/-- The button that a gesture has pressed. -/
def pressedBy (gesture : Option MouseGesture) : Set ℕ :=
  {button | ∃ g ∈ gesture, pointerButtonFromMotionEvent g.down = button}

@[simp] theorem pressedBy_none : pressedBy none = ∅ := by simp [pressedBy]

@[simp] theorem pressedBy_some (g : MouseGesture) :
    pressedBy (some g) = {pointerButtonFromMotionEvent g.down} := by
  ext button
  simp [pressedBy, eq_comm]

/-- What is pressed in the guest is what the gesture under way has pressed. -/
structure MouseInv (s : MouseScreen) : Prop where
  pointerInput : s.view.inputMode.hasPointerInput = true
  tracks : Tracks buttonHold s.view.sent (pressedBy s.gesture)

/-- What a consistent event is, together with what it is to the gesture. -/
inductive DeliveredMouse : Option MouseGesture → MotionEvent → Prop where
  | down {event : MotionEvent} (haction : event.actionMasked = .down) : DeliveredMouse none event
  | move {g : MouseGesture} {event : MotionEvent} (haction : event.actionMasked = .move) :
      DeliveredMouse (some g) event
  | up {g : MouseGesture} {event : MotionEvent} (haction : event.actionMasked = .up) :
      DeliveredMouse (some g) event
  | cancel {g : MouseGesture} {event : MotionEvent} (haction : event.actionMasked = .cancel) :
      DeliveredMouse (some g) event

theorem deliveredMouse_of_continues {gesture : Option MouseGesture} {event : MotionEvent}
    (h : ContinuesMouse gesture event = true) :
    event.isMouse = true ∧ DeliveredMouse gesture event := by
  obtain ⟨hmouse, h⟩ := Bool.and_eq_true_iff.mp h
  refine ⟨hmouse, ?_⟩
  cases haction : event.actionMasked with
  | down =>
    cases gesture with
    | none => exact .down haction
    | some g => simp [haction] at h
  | move =>
    cases gesture with
    | none => simp [haction] at h
    | some g => exact .move haction
  | up =>
    cases gesture with
    | none => simp [haction] at h
    | some g => exact .up haction
  | cancel =>
    cases gesture with
    | none => simp [haction] at h
    | some g => exact .cancel haction
  | pointerDown | pointerUp | buttonPress | buttonRelease => simp [haction] at h

namespace MouseInv

variable {s : MouseScreen} {event : MotionEvent}

theorem of_initial (h : s.Initial) : MouseInv s where
  pointerInput := h.pointerInput
  tracks := by
    rw [h.sent, h.gesture, pressedBy_none]
    exact Tracks.nil

theorem paired (h : MouseInv s) : PairedButtons s where
  alternate := h.tracks.groups
  released hnone := by
    refine h.tracks.complete_iff.mpr ?_
    rw [hnone, pressedBy_none]

theorem onTouchEvent_eq (h : MouseInv s) (hmouse : event.isMouse = true) :
    s.view.onTouchEvent event = s.view.handlePointerEvent event := by
  unfold CompositorSurfaceView.onTouchEvent
  rw [hmouse, h.pointerInput, Bool.and_self, if_pos rfl]

/-- The motion that comes before everything else. -/
theorem motion_tracks (h : MouseInv s) (event : MotionEvent) :
    Tracks buttonHold (s.view.sent ++ [.pointerMotion event.eventTime]) (pressedBy s.gesture) :=
  h.tracks.other rfl

theorem handlePointerEvent (h : MouseInv s) (hdelivered : DeliveredMouse s.gesture event)
    (hguard : ReleasesPressed s (.motion event)) :
    MouseInv ⟨s.view.handlePointerEvent event, gestureAfter s.gesture event⟩ := by
  have htracks := h.motion_tracks event
  obtain ⟨view, gesture⟩ := s
  unfold CompositorSurfaceView.handlePointerEvent gestureAfter
  cases hdelivered with
  | down haction =>
    simp only [haction]
    refine ⟨h.pointerInput, ?_⟩
    rw [pressedBy_none] at htracks
    rw [pressedBy_some, ← insert_empty_eq]
    exact htracks.press rfl (Set.notMem_empty _)
  | move haction =>
    simp only [haction]
    refine ⟨h.pointerInput, ?_⟩
    rw [Option.map_some, pressedBy_some]
    rwa [pressedBy_some] at htracks
  | @up g _ haction =>
    simp only [haction]
    refine ⟨h.pointerInput, ?_⟩
    have hsame : pointerButtonFromMotionEvent g.down =
        pointerButtonFromMotionEvent event.buttonState :=
      sameButton_iff.mp (hguard.2 haction g rfl)
    rw [pressedBy_some, hsame] at htracks
    have hreleased := htracks.release
      (a := .pointerButton (pointerButtonFromMotionEvent event.buttonState) 1 event.eventTime)
      rfl (Set.mem_singleton _)
    rwa [Set.sdiff_self, ← pressedBy_none] at hreleased
  | cancel haction => exact absurd haction hguard.1

/-- Another button is released than the one that was pressed, or none at all. -/
theorem not_paired (h : MouseInv s) (hdelivered : DeliveredMouse s.gesture event)
    (hguard : ¬ ReleasesPressed s (.motion event)) :
    ¬ PairedButtons ⟨s.view.handlePointerEvent event, gestureAfter s.gesture event⟩ := by
  intro hpaired
  have htracks := h.motion_tracks event
  obtain ⟨view, gesture⟩ := s
  unfold CompositorSurfaceView.handlePointerEvent gestureAfter at hpaired
  cases hdelivered with
  | down haction | move haction =>
    refine hguard ⟨?_, fun hup => ?_⟩
    · rw [haction]
      nofun
    · rw [haction] at hup
      cases hup
  | @up g _ haction =>
    simp only [haction] at hpaired
    rw [pressedBy_some] at htracks
    have hne : pointerButtonFromMotionEvent event.buttonState ≠
        pointerButtonFromMotionEvent g.down := by
      intro heq
      refine hguard ⟨?_, fun _ g' hg' => ?_⟩
      · rw [haction]
        nofun
      · cases hg'
        exact sameButton_iff.mpr heq.symm
    -- the release of another button leaves the pressed one as it is
    have hopen := (htracks (pointerButtonFromMotionEvent g.down)).1 rfl
    have hcomplete : CompleteGroups (holdsOf buttonHold (pointerButtonFromMotionEvent g.down)
        (view.sent ++ [GuestEvent.pointerMotion event.eventTime] ++
          [.pointerButton (pointerButtonFromMotionEvent event.buttonState) 1 event.eventTime])) :=
      hpaired.released rfl _
    rw [holdsOf_append, holdsOf_other (f := buttonHold) rfl hne, List.append_nil] at hcomplete
    exact hopen.not_complete hcomplete
  | @cancel g _ haction =>
    simp only [haction] at hpaired
    rw [pressedBy_some] at htracks
    exact ((htracks (pointerButtonFromMotionEvent g.down)).1 rfl).not_complete
      (hpaired.released rfl _)

theorem setInputMode (h : MouseInv s) {mode : InputMode} (hmode : mode.hasPointerInput = true)
    (uptimeMillis : ℕ) : MouseInv { s with view := s.view.setInputMode mode uptimeMillis } := by
  unfold CompositorSurfaceView.setInputMode
  split
  · refine ⟨hmode, ?_⟩
    -- cancelled touches are no buttons
    refine Tracks.others (fun a ha => ?_) h.tracks
    obtain ⟨id, -, rfl⟩ := List.mem_map.mp ha
    rfl
  · exact ⟨hmode, h.tracks⟩

end MouseInv

/-! ### Runs -/

theorem MouseScreen.next_motion {s t : MouseScreen} {event : MotionEvent} (h : MouseInv s)
    (hstep : s.next (.motion event) = some t) :
    DeliveredMouse s.gesture event ∧
      t = ⟨s.view.handlePointerEvent event, gestureAfter s.gesture event⟩ := by
  have hstep : (if ContinuesMouse s.gesture event then
      some (⟨s.view.onTouchEvent event, gestureAfter s.gesture event⟩ : MouseScreen)
    else none) = some t := hstep
  split at hstep
  · rename_i hcontinues
    obtain ⟨hmouse, hdelivered⟩ := deliveredMouse_of_continues hcontinues
    cases hstep
    exact ⟨hdelivered, by rw [h.onTouchEvent_eq hmouse]⟩
  · cases hstep

theorem MouseInv.next {s t : MouseScreen} {e : MouseScreenEvent} (h : MouseInv s)
    (hstep : s.next e = some t) (hguard : ReleasesPressed s e) : MouseInv t := by
  cases e with
  | motion event =>
    obtain ⟨hdelivered, rfl⟩ := MouseScreen.next_motion h hstep
    exact h.handlePointerEvent hdelivered hguard
  | setInputMode mode uptimeMillis hmode =>
    cases hstep
    exact h.setInputMode hmode uptimeMillis
  | setEnableViewportGestures enabled =>
    cases hstep
    exact ⟨h.pointerInput, h.tracks⟩

/-- **Exactly when the guest sees paired buttons.**  In a run from a new view, each guest button is
pressed and released in turn and none stays pressed after a gesture, if and only if no gesture is
cancelled and the buttons of every `UP` name the guest button that the `DOWN` named. -/
theorem pairedButtons_iff_releasesPressed {s : MouseScreen}
    {run : List (MouseScreenEvent × MouseScreen)} (hinitial : s.Initial)
    (hrun : mouseScreenSystem.Exec s run) :
    AllStates PairedButtons s run ↔ AllSteps ReleasesPressed s run := by
  refine System.allStates_iff_allSteps (I := MouseInv) (fun _ h => h.paired)
    (fun _ _ _ h hstep hguard => h.next hstep hguard) ?_ (MouseInv.of_initial hinitial) hrun
  intro s e t h hstep hguard
  cases e with
  | motion event =>
    obtain ⟨hdelivered, rfl⟩ := MouseScreen.next_motion h hstep
    exact h.not_paired hdelivered hguard
  | setInputMode mode uptimeMillis hmode => exact absurd trivial hguard
  | setEnableViewportGestures enabled => exact absurd trivial hguard

/-! ### Clicks -/

/-- A view with pointer input, and no gesture. -/
def freshMouseScreen : MouseScreen where
  view :=
    { inputMode := .pointerAndKeyboard
      enableViewportGestures := true
      forwardedTouchIds := []
      hostGestureActive := false
      suppressTouchForwardingUntilUp := false
      sent := [] }
  gesture := none

theorem freshMouseScreen_initial : freshMouseScreen.Initial := ⟨rfl, rfl, rfl⟩

/-- An event of the mouse with these buttons. -/
def mouseEvent (action : MotionAction) (buttonState : ℕ) : MouseScreenEvent :=
  .motion ⟨true, action, 0, [0], buttonState, 0, 0⟩

/-- A button is pressed, the mouse moved, and the button released. -/
def drag (button : ℕ) : List MouseScreenEvent :=
  [mouseEvent .down button, mouseEvent .move button, mouseEvent .up 0]

theorem pairedButtons_dragPrimary :
    (traceNext MouseScreen.next freshMouseScreen (drag buttonPrimary)).length = 3 ∧
      AllStates PairedButtons freshMouseScreen
        (traceNext MouseScreen.next freshMouseScreen (drag buttonPrimary)) :=
  ⟨by decide, (pairedButtons_iff_releasesPressed freshMouseScreen_initial
    (System.exec_traceNext _ _ _)).mpr (by decide)⟩

/-- The right button is pressed, but it is the left one that is released. -/
theorem right_click_stays_pressed :
    ¬ ∀ (s : MouseScreen) (run : List (MouseScreenEvent × MouseScreen)), s.Initial →
      mouseScreenSystem.Exec s run → AllStates PairedButtons s run := by
  intro hall
  have hlast := (hall freshMouseScreen
    (traceNext MouseScreen.next freshMouseScreen (drag buttonSecondary))
    freshMouseScreen_initial (System.exec_traceNext _ _ _)).last
  have hreleased : CompleteGroups [.down] := hlast.released rfl btnRight
  exact OpenGroups.not_complete ⟨[], 0, rfl⟩ hreleased

end Wldroid.Ui
