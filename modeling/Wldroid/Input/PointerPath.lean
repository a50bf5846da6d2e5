import Wldroid.Input.Ring
import Wldroid.Compositor.PointerFocus

/-!
# From the ring to the seat

The events that the compositor thread takes out of the ring go to the pointer functions, which tell
the seat.  Both threads, and the surfaces under the pointer, take their steps in any order.

* `PathState.next` — the ring and the pointer's focus as one system;
* `Dispatch.reports` — what the seat is to be told of an event: a motion on the surface that is
  under the pointer at its dispatch, a button, the axes that have moved, and the frame that ends
  each;
* `pathGuarantee_of_reachable` — the seat is told of exactly the events accepted, in their order, up
  to those that still wait in the ring, and its focus is nowhere but where the last motion was.
-/

namespace Wldroid.Input

open Wldroid.Foundation
open Wldroid.Compositor.Pointer

/-- `struct input_event`: pointer events, and the keys and touches that other functions dispatch. -/
inductive InputEvent (κ τ : Type) where
  | motion (time : ℕ) (x y : κ)
  | button (time button : ℕ) (pressed : Bool)
  | scroll (time : ℕ) (dx dy : κ)
  | other (event : τ)

/-- An event, with what `surface_at` finds at each place when it is dispatched. -/
structure Dispatch (κ τ : Type) where
  event : InputEvent κ τ
  surfaceAt : κ → κ → Option (Hit κ)

/-- The ring with its two threads, and the pointer's focus; and a record of the dispatches so
far. -/
structure PathState (κ τ : Type) where
  ring : RingState (InputEvent κ τ)
  pointer : PointerState κ
  dispatches : List (Dispatch κ τ)

section Steps

variable {κ τ : Type} [Zero κ] [DecidableEq κ]

/-- The `switch` of `on_input_event`. -/
def dispatchEvent (pointer : PointerState κ) (d : Dispatch κ τ) : Option (PointerState κ) :=
  match d.event with
  | .motion time x y => pointer.next (.motion time (d.surfaceAt x y))
  | .button time button pressed => pointer.next (.button time button pressed)
  | .scroll time dx dy => pointer.next (.scroll time dx dy)
  | .other _ => some pointer

inductive PathStep (κ τ : Type) where
  /-- A step of either thread on the ring, except a dispatch. -/
  | ring (step : RingStep (InputEvent κ τ))
  | dispatch (surfaceAt : κ → κ → Option (Hit κ))
  /-- What clients do to surfaces, which the event loop handles outside the callback. -/
  | surfaceCreated (surface : ℕ)
  | surfaceDestroyed (surface : ℕ)

def RingStep.isDispatch {ev : Type} : RingStep ev → Bool
  | .dispatch => true
  | _ => false

/-- The event loop is not in `on_input_event`. -/
def ConsumerPc.isIdle : ConsumerPc → Bool
  | .idle => true
  | _ => false

/-- The next state. -/
def PathState.next (s : PathState κ τ) : PathStep κ τ → Option (PathState κ τ)
  | .ring step =>
      if step.isDispatch then none
      else (s.ring.next step).map fun ring => { s with ring := ring }
  | .dispatch surfaceAt =>
      match s.ring.consumer with
      | .dispatching slot => do
          let dispatch : Dispatch κ τ := ⟨s.ring.ring slot, surfaceAt⟩
          let pointer ← dispatchEvent s.pointer dispatch
          let ring ← s.ring.next .dispatch
          return ⟨ring, pointer, s.dispatches ++ [dispatch]⟩
      | _ => none
  | .surfaceCreated w =>
      if s.ring.consumer.isIdle then
        (s.pointer.next (.surfaceCreated w)).map fun pointer => { s with pointer := pointer }
      else none
  | .surfaceDestroyed w =>
      if s.ring.consumer.isIdle then
        (s.pointer.next (.surfaceDestroyed w)).map fun pointer => { s with pointer := pointer }
      else none

/-- `input_handler_init` has succeeded in a process that has just loaded the library. -/
def PathState.Initial (s : PathState κ τ) : Prop :=
  s.ring.Initial ∧ PointerState.next .initial (.create .initialised true) = some s.pointer ∧
    s.dispatches = []

def pathSystem (κ τ : Type) [Zero κ] [DecidableEq κ] : System (PathState κ τ) (PathStep κ τ) :=
  System.ofNext PathState.Initial PathState.next

end Steps

/-! ### What the seat is to be told -/

section Reports

variable {κ τ : Type}

/-- Motions, buttons, axes and frames: all that the seat is told but where the focus goes. -/
def isReport : Notice κ → Bool
  | .motion .. => true
  | .button .. => true
  | .axis .. => true
  | .frame => true
  | _ => false

/-- A motion on what is under the pointer. -/
def motionOn (time : ℕ) (hit : Option (Hit κ)) : List (Notice κ) :=
  (hit.map fun h => Notice.motion h.surface time h.x h.y).toList

/-- What the seat is to be told of an event. -/
def Dispatch.reports [Zero κ] [DecidableEq κ] (d : Dispatch κ τ) : List (Notice κ) :=
  match d.event with
  | .motion time x y => motionOn time (d.surfaceAt x y) ++ [.frame]
  | .button time button pressed => [.button time button pressed, .frame]
  | .scroll time dx dy =>
      (if dy ≠ 0 then [.axis true time dy] else []) ++
        ((if dx ≠ 0 then [.axis false time dx] else []) ++ [.frame])
  | .other _ => []

/-- The surface that the pointer is on after an event, where it was on one before. -/
def Dispatch.follow (under : Option ℕ) (d : Dispatch κ τ) : Option ℕ :=
  match d.event with
  | .motion _ x y => (d.surfaceAt x y).map Hit.surface
  | _ => under

/-- What it has been told. -/
def reports (s : PointerState κ) : List (Notice κ) := s.log.filter isReport

variable {s t : PointerState κ} {n : Notice κ}

theorem reports_tell (h : isReport n = true) : reports (s.tell n) = reports s ++ [n] := by
  show (s.log ++ [n]).filter isReport = _
  rw [List.filter_append, List.filter_cons_of_pos h, List.filter_nil]
  rfl

theorem reports_tell_other (h : isReport n = false) : reports (s.tell n) = reports s := by
  show (s.log ++ [n]).filter isReport = _
  rw [List.filter_append, List.filter_cons_of_neg (by rw [h]; decide), List.filter_nil,
    List.append_nil]
  rfl

theorem reports_congr (h : t.log = s.log) : reports t = reports s := congrArg (·.filter isReport) h

/-- Nothing but the link changes. -/
theorem eq_of_unlink (h : unlink s = some t) : t = { s with link := .self } := by
  obtain ⟨u, hu, h⟩ := Option.bind_eq_some_iff.mp h
  have hremoved : u = { s with link := .unset } := by
    unfold wlListRemove at hu
    split at hu
    · cases hu
    · exact (Option.some.inj hu).symm
    · split at hu
      · exact (Option.some.inj hu).symm
      · cases hu
  subst hremoved
  exact (Option.some.inj h).symm

theorem wlSignalAdd_log {w : ℕ} (h : wlSignalAdd s w = some t) : t.log = s.log := by
  unfold wlSignalAdd at h
  split at h
  · cases h
  · split at h
    · cases h
      rfl
    · cases h

theorem reports_leaveFocused (h : leaveFocused s = some t) : reports t = reports s := by
  unfold leaveFocused at h
  split at h
  · rw [eq_of_unlink h]
    exact reports_tell_other rfl
  · cases h
    rfl

theorem reports_enterHit {hit : Option (Hit κ)} (h : enterHit s hit = some t) :
    reports t = reports s := by
  cases hit with
  | none =>
    cases h
    rfl
  | some hit => exact (reports_congr (wlSignalAdd_log h)).trans (reports_tell_other rfl)

/-- A change of focus is no report. -/
theorem reports_changeFocus {hit : Option (Hit κ)} (h : changeFocus s hit = some t) :
    reports t = reports s := by
  unfold changeFocus at h
  split at h
  · cases h
    rfl
  · obtain ⟨u, hleave, henter⟩ := Option.bind_eq_some_iff.mp h
    exact (reports_enterHit henter).trans (reports_leaveFocused hleave)

theorem reports_dispatchPointerMotion {time : ℕ} {hit : Option (Hit κ)}
    (h : dispatchPointerMotion s time hit = some t) :
    reports t = reports s ++ (motionOn time hit ++ [.frame]) := by
  obtain ⟨u, hu, h⟩ := Option.bind_eq_some_iff.mp h
  have hfocus := reports_changeFocus hu
  cases hit with
  | none =>
    cases h
    rw [reports_tell rfl, hfocus]
    rfl
  | some hit =>
    cases h
    rw [reports_tell rfl, reports_tell rfl, hfocus, List.append_assoc]
    rfl

theorem reports_surfaceDestroyed {w : ℕ} (h : surfaceDestroyed s w = some t) :
    reports t = reports s := by
  unfold surfaceDestroyed at h
  split at h
  · obtain ⟨u, hu, h⟩ := Option.bind_eq_some_iff.mp h
    cases h
    obtain rfl := eq_of_unlink hu
    have hdestroyed : reports (s.tell (.destroyed w)) = reports s := reports_tell_other rfl
    exact hdestroyed
  · cases h
    have hdestroyed : reports (s.tell (.destroyed w)) = reports s := reports_tell_other rfl
    exact hdestroyed

/-- The focus stays where it is, or is lost. -/
theorem focused_of_surfaceDestroyed {w : ℕ} (h : surfaceDestroyed s w = some t) (w' : ℕ)
    (hw' : t.focusedSurface = some w') : s.focusedSurface = some w' := by
  unfold surfaceDestroyed at h
  split at h
  · obtain ⟨u, hu, h⟩ := Option.bind_eq_some_iff.mp h
    cases h
    obtain rfl := eq_of_unlink hu
    cases hw'
  · cases h
    exact hw'

variable [Zero κ] [DecidableEq κ]

theorem reports_dispatchPointerScroll (s : PointerState κ) (time : ℕ) (dx dy : κ) :
    reports (dispatchPointerScroll s time dx dy) =
      reports s ++ ((if dy ≠ 0 then [.axis true time dy] else []) ++
        ((if dx ≠ 0 then [.axis false time dx] else []) ++ [.frame])) := by
  have haxis : ∀ (s : PointerState κ) (vertical : Bool) (value : κ),
      reports (if value ≠ 0 then s.tell (.axis vertical time value) else s) =
        reports s ++ if value ≠ 0 then [.axis vertical time value] else [] := by
    intro s vertical value
    split
    · exact reports_tell rfl
    · exact (List.append_nil _).symm
  unfold dispatchPointerScroll
  simp only
  rw [reports_tell rfl, haxis, haxis, List.append_assoc, List.append_assoc]

theorem dispatchPointerScroll_focused (s : PointerState κ) (time : ℕ) (dx dy : κ) :
    (dispatchPointerScroll s time dx dy).focusedSurface = s.focusedSurface := by
  unfold dispatchPointerScroll
  simp only
  split
  · split <;> rfl
  · split <;> rfl

/-- An event is dispatched: the invariant holds on, the seat is told what it is to be told, and the
focus follows a motion. -/
theorem dispatchEvent_spec (hi : PointerInv s) {d : Dispatch κ τ}
    (h : dispatchEvent s d = some t) :
    PointerInv t ∧ reports t = reports s ++ d.reports ∧
      t.focusedSurface = d.follow s.focusedSurface := by
  obtain ⟨event, surfaceAt⟩ := d
  cases event with
  | motion time x y =>
    have hnext : s.next (.motion time (surfaceAt x y)) = some t := h
    obtain ⟨heffect, hi'⟩ := hi.next_effect (e := .motion time (surfaceAt x y)) trivial hnext
    have henabled : s.enabled (.motion time (surfaceAt x y)) = true := by
      rw [PointerState.next] at hnext
      by_contra hdisabled
      rw [if_neg hdisabled] at hnext
      cases hnext
    obtain ⟨hsource, halive⟩ := Bool.and_eq_true_iff.mp henabled
    have hhit : ∀ hit ∈ surfaceAt x y, s.surfaces hit.surface = true := by
      intro hit hmem
      rw [Option.mem_def.mp hmem] at halive
      exact halive
    obtain ⟨u, hu, -, hfocus⟩ :=
      dispatchPointerMotion_spec (hi.toRunning (eq_of_beq hsource)) time (surfaceAt x y) hhit
    obtain rfl := Option.some.inj (hu.symm.trans heffect)
    exact ⟨hi', reports_dispatchPointerMotion heffect, hfocus⟩
  | button time button pressed =>
    obtain ⟨heffect, hi'⟩ := hi.next_effect (e := .button time button pressed) trivial h
    cases heffect
    refine ⟨hi', ?_, rfl⟩
    show reports ((s.tell (.button time button pressed)).tell .frame) = _
    rw [reports_tell rfl, reports_tell rfl, List.append_assoc]
    rfl
  | scroll time dx dy =>
    obtain ⟨heffect, hi'⟩ := hi.next_effect (e := .scroll time dx dy) trivial h
    cases heffect
    exact ⟨hi', reports_dispatchPointerScroll s time dx dy,
      dispatchPointerScroll_focused s time dx dy⟩
  | other event =>
    cases h
    exact ⟨hi, (List.append_nil _).symm, rfl⟩

end Reports

/-! ### The two together -/

/-- Only a dispatch changes what has been dispatched. -/
theorem dispatched_of_next {ev : Type} {r r' : RingState ev} {step : RingStep ev}
    (hstep : step.isDispatch = false) (h : r.next step = some r') : r'.dispatched = r.dispatched := by
  cases step with
  | dispatch => cases hstep
  | reserve e | drain | peek =>
    simp only [RingState.next] at h
    split at h
    · split at h
      · exact Option.some.inj h ▸ rfl
      · exact Option.some.inj h ▸ rfl
    · cases h
  | fill | commit | wake | callback | consume =>
    simp only [RingState.next] at h
    split at h
    · exact Option.some.inj h ▸ rfl
    · cases h

/-- The surface that the last motion was on. -/
def lastUnder {κ τ : Type} (dispatches : List (Dispatch κ τ)) : Option ℕ :=
  dispatches.foldl Dispatch.follow none

/-- What holds in all states. -/
structure PathInv {κ τ : Type} [Zero κ] [DecidableEq κ] (s : PathState κ τ) : Prop where
  ring : RingInv s.ring
  pointer : PointerInv s.pointer
  dispatched : s.dispatches.map Dispatch.event = s.ring.dispatched
  told : reports s.pointer = s.dispatches.flatMap Dispatch.reports
  under : ∀ w, s.pointer.focusedSurface = some w → lastUnder s.dispatches = some w

section Runs

variable {κ τ : Type} [Zero κ] [DecidableEq κ] {s t : PathState κ τ}

theorem PathInv.ringStep (hi : PathInv s) {step : RingStep (InputEvent κ τ)}
    (h : s.next (.ring step) = some t) : PathInv t := by
  simp only [PathState.next] at h
  split at h
  · cases h
  · rename_i hstep
    obtain ⟨ring, hring, rfl⟩ := Option.map_eq_some_iff.mp h
    refine ⟨hi.ring.next hring, hi.pointer, ?_, hi.told, hi.under⟩
    rw [dispatched_of_next (Bool.not_eq_true _ ▸ hstep) hring]
    exact hi.dispatched

theorem PathInv.dispatchStep (hi : PathInv s) {surfaceAt : κ → κ → Option (Hit κ)}
    (h : s.next (.dispatch surfaceAt) = some t) : PathInv t := by
  simp only [PathState.next] at h
  split at h
  · rename_i slot hconsumer
    obtain ⟨pointer, hpointer, h⟩ := Option.bind_eq_some_iff.mp h
    obtain ⟨ring, hring, h⟩ := Option.bind_eq_some_iff.mp h
    obtain rfl := Option.some.inj h
    obtain ⟨hi', htold, hfocus⟩ := dispatchEvent_spec hi.pointer hpointer
    have hdispatched : ring.dispatched = s.ring.dispatched ++ [s.ring.ring slot] := by
      simp only [RingState.next, hconsumer] at hring
      exact Option.some.inj hring ▸ rfl
    refine ⟨hi.ring.next hring, hi', ?_, ?_, fun w hw => ?_⟩
    · rw [hdispatched, List.map_append, hi.dispatched]
      rfl
    · rw [htold, List.flatMap_append, hi.told, List.flatMap_singleton]
    · rw [hfocus] at hw
      rw [lastUnder, List.foldl_append]
      -- a motion says where the focus is, any other event leaves it
      cases hevent : s.ring.ring slot with
      | motion time x y =>
        rw [hevent] at hw
        exact hw
      | button time button pressed | scroll time dx dy | other event =>
        rw [hevent] at hw
        exact hi.under w hw
  · cases h

/-- A surface comes or goes while the event loop is outside the callback. -/
theorem PathInv.surfaceStep (hi : PathInv s) {e : PointerEvent κ}
    (hwell : StopsWell s.pointer e)
    (hsilent : ∀ pointer, s.pointer.effect e = some pointer → reports pointer = reports s.pointer ∧
      ∀ w, pointer.focusedSurface = some w → s.pointer.focusedSurface = some w)
    (h : (if s.ring.consumer.isIdle then
      (s.pointer.next e).map fun pointer => { s with pointer := pointer } else none) = some t) :
    PathInv t := by
  split at h
  · obtain ⟨pointer, hpointer, rfl⟩ := Option.map_eq_some_iff.mp h
    obtain ⟨heffect, hi'⟩ := hi.pointer.next_effect hwell hpointer
    obtain ⟨hreports, hfocus⟩ := hsilent pointer heffect
    exact ⟨hi.ring, hi', hi.dispatched, hreports.trans hi.told, fun w hw => hi.under w (hfocus w hw)⟩
  · cases h

theorem PathInv.step (hi : PathInv s) {e : PathStep κ τ} (h : s.next e = some t) : PathInv t := by
  cases e with
  | ring step => exact hi.ringStep h
  | dispatch surfaceAt => exact hi.dispatchStep h
  | surfaceCreated w =>
    refine hi.surfaceStep (e := .surfaceCreated w) trivial ?_ h
    intro pointer hpointer
    cases hpointer
    exact ⟨reports_tell_other rfl, fun _ => id⟩
  | surfaceDestroyed w =>
    refine hi.surfaceStep (e := .surfaceDestroyed w) trivial ?_ h
    intro pointer hpointer
    exact ⟨reports_surfaceDestroyed (w := w) hpointer, focused_of_surfaceDestroyed hpointer⟩

theorem pathInv_of_initial (h : s.Initial) : PathInv s := by
  obtain ⟨hring, hpointer, hnone⟩ := h
  have hi : PointerInv s.pointer :=
    PointerInv.initial.step (e := .create .initialised true) trivial hpointer
  refine ⟨ringInv_of_initial hring, hi, ?_, ?_, ?_⟩
  · obtain ⟨-, -, -, -, -, -, hdispatched, -, -⟩ := hring
    rw [hdispatched, hnone]
    rfl
  · rw [hnone]
    exact congrArg reports (Option.some.inj hpointer).symm
  · rw [← Option.some.inj hpointer]
    intro w hw
    cases hw

theorem pathInv_of_reachable (h : (pathSystem κ τ).Reachable s) : PathInv s :=
  h.invariant (fun _ => pathInv_of_initial) fun _ _ _ hi => hi.step

/-- What the whole way from the producer to the seat promises. -/
structure PathGuarantee (s : PathState κ τ) : Prop where
  pointer : PointerGuarantee s.pointer
  /-- The seat is told of what was dispatched, which is what was accepted up to some event. -/
  dispatched : s.dispatches.map Dispatch.event = s.ring.dispatched
  told : reports s.pointer = s.dispatches.flatMap Dispatch.reports
  inOrder : s.ring.dispatched <+: s.ring.accepted
  /-- The focus is on the surface that the last motion was on, or on none. -/
  under : ∀ w, s.pointer.focusedSurface = some w → lastUnder s.dispatches = some w
  pending : s.ring.accepted.length ≤ s.ring.dispatched.length + 255
  /-- When both threads are idle and the ring is empty, the seat has been told of all. -/
  complete : s.ring.producer = .idle → s.ring.consumer = .idle → s.ring.ringHead = s.ring.ringTail →
    s.dispatches.map Dispatch.event = s.ring.accepted

theorem PathInv.guarantee (hi : PathInv s) : PathGuarantee s := by
  have hring := hi.ring.guarantee
  refine ⟨hi.pointer.guarantee, hi.dispatched, hi.told, hring.dispatched_prefix, hi.under,
    hring.pending_le, ?_⟩
  intro hproducer hconsumer hempty
  have haccepted := hi.ring.producer_ok
  have hdispatched := hi.ring.consumer_ok
  simp only [ProducerOk, hproducer] at haccepted
  simp only [ConsumerOk, hconsumer] at hdispatched
  have hall : s.ring.published = s.ring.consumed := by
    have hle := hi.ring.consumed_le
    have hlap := hi.ring.published_le
    have hmod := hi.ring.head_eq.symm.trans (hempty.trans hi.ring.tail_eq)
    simp only [inputRingMask, inputRingSize] at hmod hlap
    omega
  rw [hi.dispatched, hdispatched, ← hall, ← haccepted, List.take_length]

end Runs

/-- **The seat is told of every pointer event that the ring accepts, once and in order**, in any
interleaving of the two threads and of what happens to the surfaces under the pointer. -/
theorem pathGuarantee_of_reachable {κ τ : Type} [Zero κ] [DecidableEq κ] {s : PathState κ τ}
    (h : (pathSystem κ τ).Reachable s) : PathGuarantee s :=
  (pathInv_of_reachable h).guarantee

/-- The surface 1, at (27, 36). -/
def windowAt (x y : ℤ) : Option (Hit ℤ) := some ⟨1, x - 27, y - 36⟩

/-- A button is pressed while the motion before it is dispatched, and the surface goes. -/
def pressInMotion : List (PathStep ℤ Unit) :=
  [.surfaceCreated 1, .ring (.reserve (.motion 5 30 40)), .ring .fill, .ring .commit, .ring .wake,
    .ring .callback, .ring .drain, .ring .drain, .ring .peek, .ring (.reserve (.button 6 272 true)),
    .dispatch windowAt, .ring .fill, .ring .consume, .ring .commit, .ring .peek, .ring .wake,
    .dispatch windowAt, .ring .consume, .ring .peek, .surfaceDestroyed 1]

/-- The handler after `input_handler_init`, with an empty ring over a pipe of one byte. -/
def emptyPath : PathState ℤ Unit where
  ring :=
    { ring := fun _ => .other ()
      ringHead := 0
      ringTail := 0
      pipe := Pipe.empty 1 Nat.one_pos
      producer := .idle
      consumer := .idle
      accepted := []
      dispatched := []
      published := 0
      consumed := 0 }
  pointer := (PointerState.next .initial (.create .initialised true)).getD .initial
  dispatches := []

theorem emptyPath_initial : emptyPath.Initial :=
  ⟨⟨rfl, rfl, rfl, rfl, rfl, rfl, rfl, rfl, rfl⟩, rfl, rfl⟩

/-- Where that leads. -/
def pressed : PathState ℤ Unit := (runNext PathState.next emptyPath pressInMotion).getD emptyPath

theorem runNext_pressInMotion : runNext PathState.next emptyPath pressInMotion = some pressed := rfl

theorem pathGuarantee_of_pressInMotion :
    reports pressed.pointer = [.motion 1 5 3 4, .frame, .button 6 272 true, .frame] ∧
      pressed.pointer.focusedSurface = none ∧ PathGuarantee pressed :=
  ⟨rfl, rfl, pathGuarantee_of_reachable
    (System.reachable_runNext (.start emptyPath_initial) runNext_pressInMotion)⟩

end Wldroid.Input
