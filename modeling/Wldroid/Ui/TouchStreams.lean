import Wldroid.Foundation.Holds
import Wldroid.Foundation.Transition
import Wldroid.Ui.CompositorSurface

/-!
# The touches the guest sees

A stream of touch events as Android delivers them, with the input mode and the viewport gestures
switched on and off in between, and the touches that are forwarded of it.

* `TouchScreen.next` — one event of the stream or one switch;
* `WellFormedTouches` — each pointer's touches form complete groups, and none is down between
  gestures;
* `PassesEnd` — the last event of a gesture reaches the touches that are still forwarded;
* **`wellFormedTouches_iff_passesEnd`** — a run keeps the former exactly if its steps do the latter;
* `stale_gesture_swallows_up` — viewport gestures switched off during one of them.
-/

namespace Wldroid.Ui

open Wldroid.Foundation

/-! ### Streams -/

/-- The view, and the pointers that are down on the screen. -/
structure TouchScreen where
  view : CompositorSurfaceView
  pointers : List ℤ
  deriving DecidableEq, Repr

/-- What Android may deliver next: every event names all pointers, in whatever order. -/
def Continues (pointers : List ℤ) (event : MotionEvent) : Bool :=
  !event.isMouse && match event.actionMasked with
  | .down => pointers == [] && event.pointerIds.length == 1 && event.actionIndex == 0
  | .pointerDown => pointers != [] && decide (event.actionIndex < event.pointerIds.length) &&
      decide (∀ id ∈ event.pointerIds[event.actionIndex]?, id ∉ pointers) &&
      decide ((event.pointerIds.eraseIdx event.actionIndex).Perm pointers)
  | .move | .cancel => pointers != [] && decide (event.pointerIds.Perm pointers)
  | .pointerUp => decide (2 ≤ pointers.length) && decide (event.pointerIds.Perm pointers) &&
      decide (event.actionIndex < event.pointerIds.length)
  | .up => pointers.length == 1 && decide (event.pointerIds.Perm pointers) &&
      event.actionIndex == 0
  | _ => false

/-- The pointers that are down after an event. -/
def pointersAfter (event : MotionEvent) : List ℤ :=
  match event.actionMasked with
  | .up | .cancel => []
  | .pointerUp => event.pointerIds.eraseIdx event.actionIndex
  | _ => event.pointerIds

inductive TouchScreenEvent where
  | motion (event : MotionEvent)
  | setInputMode (mode : InputMode) (uptimeMillis : ℕ)
  | setEnableViewportGestures (enabled : Bool)
  deriving DecidableEq, Repr

def TouchScreen.next (s : TouchScreen) : TouchScreenEvent → Option TouchScreen
  | .motion event =>
      if Continues s.pointers event then
        some ⟨s.view.onTouchEvent event, pointersAfter event⟩
      else none
  | .setInputMode mode uptimeMillis =>
      some { s with view := s.view.setInputMode mode uptimeMillis }
  | .setEnableViewportGestures enabled =>
      some { s with view := { s.view with enableViewportGestures := enabled } }

/-- A new view, with whatever settings, and nothing on the screen. -/
structure TouchScreen.Initial (s : TouchScreen) : Prop where
  forwarded : s.view.forwardedTouchIds = []
  hostGestureActive : s.view.hostGestureActive = false
  suppress : s.view.suppressTouchForwardingUntilUp = false
  sent : s.view.sent = []
  pointers : s.pointers = []

/-- All streams and switches. -/
def touchScreenSystem : System TouchScreen TouchScreenEvent :=
  System.ofNext TouchScreen.Initial TouchScreen.next

/-! ### Touches -/

/-- What an event means for a pointer of the guest. -/
def touchHold : GuestEvent → Option (ℤ × Hold)
  | .touch id .down _ => some (id, .down)
  | .touch id .move _ => some (id, .move)
  | .touch id .up _ | .touch id .cancel _ => some (id, .up)
  | _ => none

/-- For each pointer the forwarded events form complete groups `DOWN MOVE* (UP or CANCEL)`, except
that the last may be open while a gesture is under way. -/
structure WellFormedTouches (s : TouchScreen) : Prop where
  groups : ∀ id, CompleteGroups (holdsOf touchHold id s.view.sent) ∨
    OpenGroups (holdsOf touchHold id s.view.sent)
  settled : s.pointers = [] → ∀ id, CompleteGroups (holdsOf touchHold id s.view.sent)

/-- The event does not get to the touches that are forwarded: it belongs to a gesture that is under
way, or is suppressed. -/
def CompositorSurfaceView.keepsFrom (v : CompositorSurfaceView) (event : MotionEvent) : Bool :=
  if v.shouldHandleHostGesture event then v.hostGestureActive
  else v.suppressTouchForwardingUntilUp

/-- The last event of an Android gesture gets to the touches that are still forwarded. -/
def PassesEnd (s : TouchScreen) : TouchScreenEvent → Prop
  | .motion event => event.actionMasked = .up ∨ event.actionMasked = .cancel →
      s.view.keepsFrom event = true → s.view.forwardedTouchIds = []
  | _ => True

instance (s : TouchScreen) (e : TouchScreenEvent) : Decidable (PassesEnd s e) := by
  cases e with
  | motion event =>
    exact inferInstanceAs (Decidable (event.actionMasked = .up ∨ event.actionMasked = .cancel →
      s.view.keepsFrom event = true → s.view.forwardedTouchIds = []))
  | _ => exact isTrue trivial

/-! ### The touches that are down -/

/-- The forwarded ids are those that are down in the guest; without touch input there are none. -/
structure ForwardInv (v : CompositorSurfaceView) : Prop where
  tracks : Tracks touchHold v.sent {id | id ∈ v.forwardedTouchIds}
  nodup : v.forwardedTouchIds.Nodup
  touchInput : v.inputMode.hasTouchInput = false → v.forwardedTouchIds = []

namespace ForwardInv

variable {v : CompositorSurfaceView}

/-- Nothing that the touches depend on has changed. -/
theorem congr {w : CompositorSurfaceView} (h : ForwardInv v) (hsent : w.sent = v.sent)
    (hforwarded : w.forwardedTouchIds = v.forwardedTouchIds) (hmode : w.inputMode = v.inputMode) :
    ForwardInv w := by
  refine ⟨?_, ?_, ?_⟩
  · rw [hsent, hforwarded]
    exact h.tracks
  · rw [hforwarded]
    exact h.nodup
  · rw [hforwarded, hmode]
    exact h.touchInput

theorem cancelForwardedTouches (h : ForwardInv v) (timestampMs : ℕ) :
    ForwardInv (v.cancelForwardedTouches timestampMs) where
  tracks := by
    have hall := Tracks.releaseAll (g := fun id => GuestEvent.touch id .cancel timestampMs)
      (fun _ => rfl) h.nodup h.tracks
    have hempty : {id : ℤ | id ∈ (v.cancelForwardedTouches timestampMs).forwardedTouchIds} = ∅ := by
      show {id : ℤ | id ∈ ([] : List ℤ)} = ∅
      simp
    rw [hempty]
    exact hall
  nodup := List.nodup_nil
  touchInput _ := rfl

theorem setInputMode (h : ForwardInv v) (value : InputMode) (uptimeMillis : ℕ) :
    ForwardInv (v.setInputMode value uptimeMillis) := by
  unfold CompositorSurfaceView.setInputMode
  split
  · -- the cancels do not depend on the mode
    have hcancelled := h.cancelForwardedTouches uptimeMillis
    exact ⟨hcancelled.tracks, hcancelled.nodup, fun _ => rfl⟩
  · rename_i hkeeps
    refine ⟨h.tracks, h.nodup, fun hvalue => h.touchInput ?_⟩
    have hvalue : value.hasTouchInput = false := hvalue
    rw [hvalue] at hkeeps
    simpa using hkeeps

/-- The host gesture sends nothing once it is active, and cancels all touches when it begins. -/
theorem handleHostGesture (h : ForwardInv v) (event : MotionEvent) :
    ForwardInv (v.handleHostGesture event) := by
  unfold CompositorSurfaceView.handleHostGesture
  split
  · exact (h.cancelForwardedTouches event.eventTime).congr rfl rfl rfl
  · split
    · exact h.congr rfl rfl rfl
    · split <;> exact h.congr rfl rfl rfl
    · exact h.congr rfl rfl rfl
    · exact h.congr rfl rfl rfl
    · exact h

/-- A pointer that is not forwarded goes down. -/
theorem forwardDown (h : ForwardInv v) (hmode : v.inputMode.hasTouchInput = true) {id : ℤ}
    (hnew : id ∉ v.forwardedTouchIds) (eventTime : ℕ) :
    ForwardInv ((v.addForwarded id).send [.touch id .down eventTime]) ∧
      (v.addForwarded id).forwardedTouchIds = v.forwardedTouchIds ++ [id] := by
  have hadded : (v.addForwarded id).forwardedTouchIds = v.forwardedTouchIds ++ [id] :=
    if_neg hnew
  refine ⟨⟨?_, ?_, ?_⟩, hadded⟩
  · have hset : {x : ℤ | x ∈ (v.addForwarded id).forwardedTouchIds} =
        insert id {x | x ∈ v.forwardedTouchIds} := by
      ext x
      rw [hadded]
      simp [or_comm]
    show Tracks touchHold (v.sent ++ [.touch id .down eventTime])
      {x | x ∈ (v.addForwarded id).forwardedTouchIds}
    rw [hset]
    exact h.tracks.press rfl hnew
  · show (v.addForwarded id).forwardedTouchIds.Nodup
    rw [hadded]
    exact List.nodup_append.mpr ⟨h.nodup, List.nodup_singleton id, by
      intro x hx y hy heq
      exact hnew (List.mem_singleton.mp hy ▸ heq ▸ hx)⟩
  · intro hnot
    exact absurd (hnot.symm.trans hmode) Bool.false_ne_true

theorem forwardMoves (h : ForwardInv v) (ids : List ℤ) (eventTime : ℕ) :
    ForwardInv (v.send ((ids.filter fun id => id ∈ v.forwardedTouchIds).map
      fun id => .touch id .move eventTime)) where
  tracks := Tracks.moves (g := fun id => GuestEvent.touch id .move eventTime) (fun _ => rfl)
    (fun _ hid => of_decide_eq_true (List.mem_filter.mp hid).2) h.tracks
  nodup := h.nodup
  touchInput := h.touchInput

theorem forwardUp (h : ForwardInv v) (id : ℤ) (eventTime : ℕ) :
    ForwardInv (v.forwardUp id eventTime) ∧
      ∀ x, x ∈ (v.forwardUp id eventTime).forwardedTouchIds ↔
        x ∈ v.forwardedTouchIds ∧ x ≠ id := by
  unfold CompositorSurfaceView.forwardUp
  split
  · rename_i hid
    have hmem : ∀ x, x ∈ v.forwardedTouchIds.erase id ↔ x ∈ v.forwardedTouchIds ∧ x ≠ id := by
      intro x
      rw [h.nodup.mem_erase_iff]
      exact and_comm
    refine ⟨⟨?_, h.nodup.erase id, fun hmode => ?_⟩, hmem⟩
    · have hset : {x : ℤ | x ∈ v.forwardedTouchIds.erase id} =
          {x | x ∈ v.forwardedTouchIds} \ {id} := by
        ext x
        exact hmem x
      show Tracks touchHold (v.sent ++ [.touch id .up eventTime])
        {x | x ∈ v.forwardedTouchIds.erase id}
      rw [hset]
      exact h.tracks.release rfl hid
    · have hnone := h.touchInput hmode
      rw [hnone] at hid
      cases hid
  · rename_i hid
    refine ⟨h, fun x => ⟨fun hx => ⟨hx, ?_⟩, And.left⟩⟩
    rintro rfl
    exact hid hx

end ForwardInv

/-! ### The stream -/

/-- Unless forwarding is suppressed, what is forwarded is on the screen, and nothing is forwarded
between gestures. -/
structure TouchInv (s : TouchScreen) : Prop where
  forward : ForwardInv s.view
  inside : s.view.suppressTouchForwardingUntilUp = false →
    ∀ id ∈ s.view.forwardedTouchIds, id ∈ s.pointers
  settled : s.pointers = [] → s.view.forwardedTouchIds = []

namespace TouchInv

variable {s : TouchScreen}

theorem of_initial (h : s.Initial) : TouchInv s where
  forward := by
    refine ⟨?_, ?_, fun _ => h.forwarded⟩
    · rw [h.sent, h.forwarded]
      have hempty : {id : ℤ | id ∈ ([] : List ℤ)} = ∅ := by simp
      rw [hempty]
      exact Tracks.nil
    · rw [h.forwarded]
      exact List.nodup_nil
  inside _ id hid := by
    rw [h.forwarded] at hid
    cases hid
  settled _ := h.forwarded

theorem wellFormed (h : TouchInv s) : WellFormedTouches s where
  groups := h.forward.tracks.groups
  settled hnone := by
    refine h.forward.tracks.complete_iff.mpr ?_
    rw [h.settled hnone]
    simp

/-- Without forwarded touches nothing else is asked of a state. -/
theorem of_none {view : CompositorSurfaceView} {pointers : List ℤ} (h : ForwardInv view)
    (hnone : view.forwardedTouchIds = []) : TouchInv ⟨view, pointers⟩ where
  forward := h
  inside _ id hid := by
    rw [show view.forwardedTouchIds = [] from hnone] at hid
    cases hid
  settled _ := hnone

theorem setInputMode (h : TouchInv s) (mode : InputMode) (uptimeMillis : ℕ) :
    TouchInv { s with view := s.view.setInputMode mode uptimeMillis } := by
  have hforward := h.forward.setInputMode mode uptimeMillis
  unfold CompositorSurfaceView.setInputMode at hforward ⊢
  split
  · rename_i hcancels
    rw [if_pos hcancels] at hforward
    exact .of_none hforward rfl
  · rename_i hkeeps
    rw [if_neg hkeeps] at hforward
    exact ⟨hforward, h.inside, h.settled⟩

end TouchInv

/-! ### One event -/

/-- What a consistent event does to the pointers on the screen. -/
inductive Delivered (pointers : List ℤ) (event : MotionEvent) : Prop where
  | down (id : ℤ) (haction : event.actionMasked = .down ∨ event.actionMasked = .pointerDown)
      (hid : event.pointerIds[event.actionIndex]? = some id) (hnew : id ∉ pointers)
      (hafter : pointersAfter event = event.pointerIds)
      (hkept : ∀ x ∈ pointers, x ∈ event.pointerIds)
  | move (haction : event.actionMasked = .move) (hafter : pointersAfter event = event.pointerIds)
      (hsome : pointersAfter event ≠ []) (hkept : ∀ x ∈ pointers, x ∈ event.pointerIds)
  | pointerUp (id : ℤ) (haction : event.actionMasked = .pointerUp)
      (hid : event.pointerIds[event.actionIndex]? = some id)
      (hafter : ∀ x ∈ pointers, x ≠ id → x ∈ pointersAfter event)
      (hsome : pointersAfter event ≠ [])
  | up (id : ℤ) (haction : event.actionMasked = .up)
      (hid : event.pointerIds[event.actionIndex]? = some id) (hlast : ∀ x ∈ pointers, x = id)
  | cancel (haction : event.actionMasked = .cancel)

theorem isMouse_of_continues {pointers : List ℤ} {event : MotionEvent}
    (h : Continues pointers event = true) : event.isMouse = false := by
  have hboth := (Bool.and_eq_true_iff.mp h).1
  simpa using hboth

theorem delivered_of_continues {pointers : List ℤ} {event : MotionEvent}
    (h : Continues pointers event = true) : Delivered pointers event := by
  obtain ⟨-, h⟩ := Bool.and_eq_true_iff.mp h
  cases haction : event.actionMasked with
  | down =>
    simp only [haction, Bool.and_eq_true, beq_iff_eq] at h
    obtain ⟨⟨rfl, hone⟩, hindex⟩ := h
    obtain ⟨id, hids⟩ := List.length_eq_one_iff.mp hone
    refine .down id (.inl haction) (by rw [hids, hindex]; rfl) List.not_mem_nil ?_ nofun
    rw [pointersAfter, haction]
  | pointerDown =>
    simp only [haction, Bool.and_eq_true, decide_eq_true_eq] at h
    obtain ⟨⟨⟨-, hindex⟩, hnew⟩, hperm⟩ := h
    have hid := List.getElem?_eq_getElem hindex
    refine .down _ (.inr haction) hid (hnew _ hid) ?_ fun x hx => ?_
    · rw [pointersAfter, haction]
    · exact List.mem_of_mem_eraseIdx (hperm.mem_iff.mpr hx)
  | move =>
    simp only [haction, Bool.and_eq_true, decide_eq_true_eq, bne_iff_ne] at h
    obtain ⟨hsome, hperm⟩ := h
    have hafter : pointersAfter event = event.pointerIds := by rw [pointersAfter, haction]
    refine .move haction hafter ?_ fun x hx => hperm.mem_iff.mpr hx
    rw [hafter]
    intro hnil
    rw [hnil] at hperm
    exact hsome hperm.symm.eq_nil
  | cancel => exact .cancel haction
  | pointerUp =>
    simp only [haction, Bool.and_eq_true, decide_eq_true_eq] at h
    obtain ⟨⟨htwo, hperm⟩, hindex⟩ := h
    have hafter : pointersAfter event = event.pointerIds.eraseIdx event.actionIndex := by
      rw [pointersAfter, haction]
    refine .pointerUp _ haction (List.getElem?_eq_getElem hindex) (fun x hx hne => ?_) ?_
    · obtain ⟨i, hi, rfl⟩ := List.mem_iff_getElem.mp (hperm.mem_iff.mpr hx)
      rw [hafter]
      refine List.mem_eraseIdx_iff_getElem.mpr ⟨i, hi, ?_, rfl⟩
      rintro rfl
      exact hne rfl
    · rw [hafter]
      intro hnil
      have hlength := congrArg List.length hnil
      rw [List.length_eraseIdx_of_lt hindex, List.length_nil, hperm.length_eq] at hlength
      omega
  | up =>
    simp only [haction, Bool.and_eq_true, beq_iff_eq, decide_eq_true_eq] at h
    obtain ⟨⟨hone, hperm⟩, hindex⟩ := h
    obtain ⟨id, rfl⟩ := List.length_eq_one_iff.mp hone
    have hids := List.perm_singleton.mp hperm
    exact .up id haction (by rw [hids, hindex]; rfl) fun x hx => List.mem_singleton.mp hx
  | buttonPress | buttonRelease =>
    rw [haction] at h
    cases h

section Motion

variable {s : TouchScreen} {event : MotionEvent}

/-- An event that does not get to the touches leaves them as they are.  Forwarding is not suppressed
afterwards only if it was not before, or the gesture ends. -/
theorem onTouchEvent_kept {v : CompositorSurfaceView} (hmouse : event.isMouse = false)
    (hkept : v.keepsFrom event = true) :
    ((v.onTouchEvent event).sent = v.sent ∧
      (v.onTouchEvent event).forwardedTouchIds = v.forwardedTouchIds ∧
      (v.onTouchEvent event).inputMode = v.inputMode) ∧
    ((v.onTouchEvent event).suppressTouchForwardingUntilUp = false →
      v.suppressTouchForwardingUntilUp = false ∧ event.actionMasked ≠ .pointerUp ∨
        event.actionMasked = .up ∨ event.actionMasked = .cancel) := by
  unfold CompositorSurfaceView.onTouchEvent
  unfold CompositorSurfaceView.keepsFrom at hkept
  rw [hmouse, Bool.false_and, if_neg Bool.false_ne_true, Bool.not_false, Bool.true_and]
  by_cases hhost : v.shouldHandleHostGesture event = true
  · rw [if_pos hhost] at hkept ⊢
    unfold CompositorSurfaceView.handleHostGesture
    rw [hkept, Bool.not_true, if_neg Bool.false_ne_true]
    cases haction : event.actionMasked with
    | pointerDown => exact ⟨⟨rfl, rfl, rfl⟩, nofun⟩
    | pointerUp =>
      simp only
      split
      · exact ⟨⟨rfl, rfl, rfl⟩, nofun⟩
      · exact ⟨⟨rfl, rfl, rfl⟩, nofun⟩
    | up => exact ⟨⟨rfl, rfl, rfl⟩, fun _ => .inr (.inl rfl)⟩
    | cancel => exact ⟨⟨rfl, rfl, rfl⟩, fun _ => .inr (.inr rfl)⟩
    | down | move | buttonPress | buttonRelease =>
      exact ⟨⟨rfl, rfl, rfl⟩, fun hnot => .inl ⟨hnot, nofun⟩⟩
  · rw [if_neg hhost] at hkept ⊢
    rw [if_pos hkept]
    split
    · rename_i hends
      exact ⟨⟨rfl, rfl, rfl⟩, fun _ => .inr hends⟩
    · exact ⟨⟨rfl, rfl, rfl⟩, fun hnot => absurd (hnot.symm.trans hkept) Bool.false_ne_true⟩

/-- **An event that is kept from the touches.** -/
theorem TouchInv.kept (h : TouchInv s) (hmouse : event.isMouse = false)
    (hdelivered : Delivered s.pointers event) (hkept : s.view.keepsFrom event = true)
    (hguard : PassesEnd s (.motion event)) :
    TouchInv ⟨s.view.onTouchEvent event, pointersAfter event⟩ := by
  obtain ⟨⟨hsent, hforwarded, hmode⟩, hsuppress⟩ := onTouchEvent_kept hmouse hkept
  have hforward := h.forward.congr hsent hforwarded hmode
  -- what stays on the screen stays on it while touches are forwarded
  have hstays : pointersAfter event ≠ [] → (event.actionMasked ≠ .pointerUp →
      ∀ x ∈ s.pointers, x ∈ pointersAfter event) → event.actionMasked ≠ .up →
      event.actionMasked ≠ .cancel →
      TouchInv ⟨s.view.onTouchEvent event, pointersAfter event⟩ := by
    intro hsome hin hup hcancel
    refine ⟨hforward, fun hnot id hid => ?_, fun hnil => absurd hnil hsome⟩
    obtain ⟨hbefore, haction⟩ | hends | hends := hsuppress hnot
    · exact hin haction id (h.inside hbefore id (hforwarded ▸ hid))
    · exact absurd hends hup
    · exact absurd hends hcancel
  cases hdelivered with
  | down id haction hid hnew hafter hin =>
    refine hstays ?_ (fun _ x hx => hafter ▸ hin x hx) ?_ ?_
    · rw [hafter]
      intro hnil
      rw [hnil] at hid
      cases hid
    · obtain haction | haction := haction <;> rw [haction] <;> nofun
    · obtain haction | haction := haction <;> rw [haction] <;> nofun
  | move haction hafter hsome hin =>
    refine hstays hsome (fun _ x hx => hafter ▸ hin x hx) ?_ ?_ <;> rw [haction] <;> nofun
  | pointerUp id haction hid hafter hsome =>
    refine hstays hsome (fun hnot => absurd haction hnot) ?_ ?_ <;> rw [haction] <;> nofun
  | up id haction => exact .of_none hforward (hforwarded.trans (hguard (.inl haction) hkept))
  | cancel haction => exact .of_none hforward (hforwarded.trans (hguard (.inr haction) hkept))

/-- **An event that is forwarded**, when nothing is suppressed. -/
theorem TouchInv.touched (h : TouchInv s) (hdelivered : Delivered s.pointers event)
    (hnot : s.view.suppressTouchForwardingUntilUp = false)
    (hmode : s.view.inputMode.hasTouchInput = true) :
    TouchInv ⟨s.view.handleTouchEvent event, pointersAfter event⟩ := by
  have hinside := h.inside hnot
  unfold CompositorSurfaceView.handleTouchEvent
  cases hdelivered with
  | down id haction hid hnew hafter hin =>
    obtain ⟨hforward, hforwarded⟩ :=
      h.forward.forwardDown hmode (fun hmem => hnew (hinside id hmem)) event.eventTime
    have hdown : TouchInv ⟨(s.view.addForwarded id).send [.touch id .down event.eventTime],
        pointersAfter event⟩ := by
      rw [hafter]
      refine ⟨hforward, fun _ x hx => ?_, fun hnil => ?_⟩
      · have hx : x ∈ s.view.forwardedTouchIds ++ [id] := hforwarded ▸ hx
        obtain hold | hlast := List.mem_append.mp hx
        · exact hin x (hinside x hold)
        · rw [List.mem_singleton.mp hlast]
          exact List.mem_of_getElem? hid
      · rw [show event.pointerIds = [] from hnil] at hid
        cases hid
    obtain haction | haction := haction <;> simp only [haction, hid] <;> exact hdown
  | move haction hafter hsome hin =>
    simp only [haction]
    refine ⟨h.forward.forwardMoves _ _, fun _ x hx => ?_, fun hnil => absurd hnil hsome⟩
    show x ∈ pointersAfter event
    rw [hafter]
    exact hin x (hinside x hx)
  | pointerUp id haction hid hafter hsome =>
    obtain ⟨hforward, hmem⟩ := h.forward.forwardUp id event.eventTime
    simp only [haction, hid]
    refine ⟨hforward, fun _ x hx => ?_, fun hnil => absurd hnil hsome⟩
    obtain ⟨hold, hne⟩ := (hmem x).mp hx
    exact hafter x (hinside x hold) hne
  | up id haction hid hlast =>
    obtain ⟨hforward, hmem⟩ := h.forward.forwardUp id event.eventTime
    simp only [haction, hid]
    refine .of_none hforward (List.eq_nil_iff_forall_not_mem.mpr fun x hx => ?_)
    obtain ⟨hold, hne⟩ := (hmem x).mp hx
    exact hne (hlast x (hinside x hold))
  | cancel haction =>
    simp only [haction]
    exact .of_none (h.forward.cancelForwardedTouches event.eventTime) rfl

/-- **What an event of the stream keeps.** -/
theorem TouchInv.motion (h : TouchInv s) (hcontinues : Continues s.pointers event = true)
    (hguard : PassesEnd s (.motion event)) :
    TouchInv ⟨s.view.onTouchEvent event, pointersAfter event⟩ := by
  have hmouse := isMouse_of_continues hcontinues
  have hdelivered := delivered_of_continues hcontinues
  cases hkept : s.view.keepsFrom event with
  | true => exact h.kept hmouse hdelivered hkept hguard
  | false =>
    unfold CompositorSurfaceView.onTouchEvent
    unfold CompositorSurfaceView.keepsFrom at hkept
    rw [hmouse, Bool.false_and, if_neg Bool.false_ne_true, Bool.not_false, Bool.true_and,
      Bool.true_and]
    by_cases hhost : s.view.shouldHandleHostGesture event = true
    · -- a gesture begins, and cancels what is forwarded
      rw [if_pos hhost] at hkept ⊢
      refine .of_none (h.forward.handleHostGesture event) ?_
      unfold CompositorSurfaceView.handleHostGesture
      rw [hkept, Bool.not_false, if_pos rfl]
      rfl
    · rw [if_neg hhost] at hkept ⊢
      rw [hkept, if_neg Bool.false_ne_true]
      cases hmode : s.view.inputMode.hasTouchInput with
      | true =>
        rw [if_pos rfl]
        exact h.touched hdelivered hkept hmode
      | false =>
        rw [if_neg Bool.false_ne_true]
        exact .of_none h.forward (h.forward.touchInput hmode)

/-- A gesture whose end does not get to a touch that is forwarded leaves it down. -/
theorem not_wellFormed_of_kept (h : TouchInv s) (hmouse : event.isMouse = false)
    (hguard : ¬ PassesEnd s (.motion event)) :
    ¬ WellFormedTouches ⟨s.view.onTouchEvent event, pointersAfter event⟩ := by
  intro hwell
  obtain ⟨hends, hrest⟩ := Classical.not_imp.mp hguard
  obtain ⟨hkept, hsome⟩ := Classical.not_imp.mp hrest
  obtain ⟨⟨hsent, hforwarded, hmode⟩, -⟩ := onTouchEvent_kept hmouse hkept
  have hafter : pointersAfter event = [] := by
    obtain haction | haction := hends <;> rw [pointersAfter, haction]
  have htracks := (h.forward.congr hsent hforwarded hmode).tracks
  have hempty := htracks.complete_iff.mp (hwell.settled hafter)
  obtain ⟨id, hid⟩ := List.exists_mem_of_ne_nil _ hsome
  have hin : id ∈ ({x | x ∈ (s.view.onTouchEvent event).forwardedTouchIds} : Set ℤ) :=
    hforwarded.symm ▸ hid
  rw [hempty] at hin
  exact hin

end Motion

theorem TouchInv.next {s t : TouchScreen} {e : TouchScreenEvent} (h : TouchInv s)
    (hstep : s.next e = some t) (hguard : PassesEnd s e) : TouchInv t := by
  cases e with
  | motion event =>
    have hstep : (if Continues s.pointers event then
        some (⟨s.view.onTouchEvent event, pointersAfter event⟩ : TouchScreen) else none) = some t :=
      hstep
    split at hstep
    · rename_i hcontinues
      cases hstep
      exact h.motion hcontinues hguard
    · cases hstep
  | setInputMode mode uptimeMillis =>
    cases hstep
    exact h.setInputMode mode uptimeMillis
  | setEnableViewportGestures enabled =>
    cases hstep
    exact ⟨h.forward.congr rfl rfl rfl, h.inside, h.settled⟩

/-- **Exactly when the guest sees well-formed touches.**  In a run from a new view, each pointer's
touches form complete groups and none stays down after a gesture, if and only if no gesture ends
with an event that is suppressed, or belongs to a host gesture under way, while touches are
forwarded. -/
theorem wellFormedTouches_iff_passesEnd {s : TouchScreen}
    {run : List (TouchScreenEvent × TouchScreen)} (hinitial : s.Initial)
    (hrun : touchScreenSystem.Exec s run) :
    AllStates WellFormedTouches s run ↔ AllSteps PassesEnd s run := by
  refine System.allStates_iff_allSteps (I := TouchInv) (fun _ h => h.wellFormed)
    (fun _ _ _ h hstep hguard => h.next hstep hguard) ?_ (TouchInv.of_initial hinitial) hrun
  intro s e t h hstep hguard
  cases e with
  | motion event =>
    have hstep : (if Continues s.pointers event then
        some (⟨s.view.onTouchEvent event, pointersAfter event⟩ : TouchScreen) else none) = some t :=
      hstep
    split at hstep
    · rename_i hcontinues
      cases hstep
      exact not_wellFormed_of_kept h (isMouse_of_continues hcontinues) hguard
    · cases hstep
  | setInputMode mode uptimeMillis => exact absurd trivial hguard
  | setEnableViewportGestures enabled => exact absurd trivial hguard

/-! ### Two gestures -/

/-- A view with touch input and viewport gestures, and nothing on the screen. -/
def freshScreen : TouchScreen where
  view :=
    { inputMode := .all
      enableViewportGestures := true
      forwardedTouchIds := []
      hostGestureActive := false
      suppressTouchForwardingUntilUp := false
      sent := [] }
  pointers := []

theorem freshScreen_initial : freshScreen.Initial := ⟨rfl, rfl, rfl, rfl, rfl⟩

/-- A touch event of these pointers. -/
def touchEvent (action : MotionAction) (index : ℕ) (ids : List ℤ) : TouchScreenEvent :=
  .motion ⟨false, action, index, ids, 0, 0, 0⟩

/-- A finger is put on the screen, and a second one, which makes it a gesture of the view. -/
def pinch : List TouchScreenEvent :=
  [touchEvent .down 0 [0], touchEvent .pointerDown 1 [0, 1]]

/-- The gesture goes on to its end. -/
def pinchToTheEnd : List TouchScreenEvent :=
  pinch ++ [touchEvent .move 0 [0, 1], touchEvent .pointerUp 1 [0, 1], touchEvent .up 0 [0]]

theorem wellFormedTouches_pinchToTheEnd :
    (traceNext TouchScreen.next freshScreen pinchToTheEnd).length = 5 ∧
      AllStates WellFormedTouches freshScreen
        (traceNext TouchScreen.next freshScreen pinchToTheEnd) :=
  ⟨by decide, (wellFormedTouches_iff_passesEnd freshScreen_initial (System.exec_traceNext _ _ _)).mpr
    (by decide)⟩

/-- Viewport gestures are switched off during the gesture, and on again during the next one. -/
def gesturesOffAndOn : List TouchScreenEvent :=
  pinch ++ [.setEnableViewportGestures false, touchEvent .pointerUp 1 [0, 1], touchEvent .up 0 [0],
    touchEvent .down 0 [0], .setEnableViewportGestures true, touchEvent .up 0 [0]]

/-- The gesture that was never ended takes the `UP` of the next one, and its touch stays down. -/
theorem stale_gesture_swallows_up :
    ¬ ∀ (s : TouchScreen) (run : List (TouchScreenEvent × TouchScreen)), s.Initial →
      touchScreenSystem.Exec s run → AllStates WellFormedTouches s run := by
  intro hall
  have hlast := (hall freshScreen (traceNext TouchScreen.next freshScreen gesturesOffAndOn)
    freshScreen_initial (System.exec_traceNext _ _ _)).last
  have hsettled : CompleteGroups [.down, .up, .down] := hlast.settled rfl 0
  exact OpenGroups.not_complete ⟨[0], 0, rfl⟩ hsettled

end Wldroid.Ui
