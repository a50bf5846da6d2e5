import Wldroid.Foundation.Transition

/-!
# Pointer focus

The input handler remembers in a global which surface the pointer is on, and listens to that
surface's destruction.  It tells the seat when the pointer enters a surface, leaves it, moves on it,
and where a group of such calls ends.

* `PointerState.next` — a surface comes or goes, an event is dispatched, a compositor is created,
  with every way in which the handler's setup may end, or destroyed; a list operation on a link that
  is not in a list, or in the list of a surface that is gone, is a crash, and so is the second
  removal of an event source;
* `SeatView.accept` — what may be told to a seat, and what it means;
* `StopsWell` — a compositor is destroyed whose event source has not been removed, and in a process
  in which some handler has been set up;
* **`pointerGuarantee_iff_stopsWell`** — in every order of such events the seat is told a story that
  fits, and its focus is the one the handler remembers, if and only if compositors are stopped so.
-/

namespace Wldroid.Compositor.Pointer

open Wldroid.Foundation

/-! ### State -/

/-- `focused_surface_destroy_listener.link`. -/
inductive Link where
  /-- Null, as a global is at first, and as `wl_list_remove` leaves a link. -/
  | unset
  /-- After `wl_list_init`. -/
  | self
  /-- In the destroy signal of a surface. -/
  | inSurface (surface : ℕ)
  deriving DecidableEq

/-- Calls on the seat, with what happens to surfaces in between. -/
inductive Notice (κ : Type) where
  /-- The compositor starts with a new seat. -/
  | newSeat
  | created (surface : ℕ)
  | destroyed (surface : ℕ)
  | enter (surface : ℕ) (x y : κ)
  | clearFocus
  /-- A motion, with the surface that is under the pointer. -/
  | motion (surface time : ℕ) (x y : κ)
  | button (time button : ℕ) (pressed : Bool)
  | axis (vertical : Bool) (time : ℕ) (value : κ)
  | frame
  deriving DecidableEq

/-- `server->input_event_source`. -/
inductive EventSource where
  | null
  /-- In the event loop, which calls `on_input_event`. -/
  | added
  /-- A pointer to a source that has been removed. -/
  | removed
  deriving DecidableEq

/-- What `surface_at` finds: a surface, and where on it. -/
structure Hit (κ : Type) where
  surface : ℕ
  x : κ
  y : κ

/-- The globals of the handler, the surfaces, and what has happened. -/
structure PointerState (κ : Type) where
  surfaces : ℕ → Bool
  /-- There is a compositor. -/
  running : Bool
  inputEventSource : EventSource
  focusedSurface : Option ℕ
  link : Link
  log : List (Notice κ)
  crashed : Bool

variable {κ : Type}

def PointerState.tell (s : PointerState κ) (n : Notice κ) : PointerState κ :=
  { s with log := s.log ++ [n] }

/-! ### The link -/

/-- `wl_list_remove`. -/
def wlListRemove (s : PointerState κ) : Option (PointerState κ) :=
  match s.link with
  | .unset => none
  | .self => some { s with link := .unset }
  | .inSurface w => if s.surfaces w then some { s with link := .unset } else none

/-- `wl_list_init`, which must not be done to a link that a list still leads to. -/
def wlListInit (s : PointerState κ) : Option (PointerState κ) :=
  match s.link with
  | .inSurface _ => none
  | _ => some { s with link := .self }

/-- `wl_signal_add` to the destroy signal of a surface. -/
def wlSignalAdd (s : PointerState κ) (w : ℕ) : Option (PointerState κ) :=
  match s.link with
  | .inSurface _ => none
  | _ => if s.surfaces w then some { s with link := .inSurface w } else none

/-- Take the listener out and leave its link so that it can be taken out again. -/
def unlink (s : PointerState κ) : Option (PointerState κ) := do
  wlListInit (← wlListRemove s)

/-! ### Handlers -/

/-- `handle_focused_surface_destroy`. -/
def handleFocusedSurfaceDestroy (s : PointerState κ) : Option (PointerState κ) :=
  unlink { s with focusedSurface := none }

/-- The pointer leaves the surface with the focus, if there is one. -/
def leaveFocused (s : PointerState κ) : Option (PointerState κ) :=
  if s.focusedSurface.isSome then unlink (s.tell .clearFocus) else some s

/-- The pointer enters what is under it. -/
def enterHit (s : PointerState κ) (hit : Option (Hit κ)) : Option (PointerState κ) :=
  let s := { s with focusedSurface := hit.map Hit.surface }
  match hit with
  | some h => wlSignalAdd (s.tell (.enter h.surface h.x h.y)) h.surface
  | none => some s

/-- The focus follows the pointer to another surface, or away from all. -/
def changeFocus (s : PointerState κ) (hit : Option (Hit κ)) : Option (PointerState κ) :=
  if hit.map Hit.surface = s.focusedSurface then some s
  else (leaveFocused s).bind fun s => enterHit s hit

/-- `dispatch_pointer_motion`. -/
def dispatchPointerMotion (s : PointerState κ) (time : ℕ) (hit : Option (Hit κ)) :
    Option (PointerState κ) := do
  let s ← changeFocus s hit
  let s := match hit with
    | some h => s.tell (.motion h.surface time h.x h.y)
    | none => s
  return s.tell .frame

/-- `dispatch_pointer_button`. -/
def dispatchPointerButton (s : PointerState κ) (time button : ℕ) (pressed : Bool) :
    PointerState κ :=
  (s.tell (.button time button pressed)).tell .frame

/-- `dispatch_pointer_scroll`: an axis that has not moved is not told. -/
def dispatchPointerScroll [Zero κ] [DecidableEq κ] (s : PointerState κ) (time : ℕ) (dx dy : κ) :
    PointerState κ :=
  let s := if dy ≠ 0 then s.tell (.axis true time dy) else s
  let s := if dx ≠ 0 then s.tell (.axis false time dx) else s
  s.tell .frame

/-- How `input_handler_init` ends. -/
inductive InitExit where
  | pipe2Failed
  | addFdFailed
  | callocFailed
  | initialised
  deriving DecidableEq

/-- `input_handler_init`. -/
def inputHandlerInit (s : PointerState κ) : InitExit → Option (PointerState κ)
  | .pipe2Failed | .addFdFailed => some s
  -- the source is removed again, and the server keeps the pointer
  | .callocFailed => some { s with inputEventSource := .removed }
  | .initialised => wlListInit { s with inputEventSource := .added, focusedSurface := none }

/-- `compositor_server_create` from the new seat on.  It goes on whatever `input_handler_init`
returns; where it fails later, the server is freed. -/
def compositorServerCreate (s : PointerState κ) (exit : InitExit) (completes : Bool) :
    Option (PointerState κ) :=
  (inputHandlerInit { s.tell .newSeat with inputEventSource := .null } exit).map fun s =>
    if completes then { s with running := true } else { s with inputEventSource := .null }

/-- `wl_event_source_remove`, if there is a source. -/
def removeEventSource (s : PointerState κ) : Option (PointerState κ) :=
  match s.inputEventSource with
  | .removed => none
  | _ => some { s with inputEventSource := .null }

/-- `input_handler_destroy`. -/
def inputHandlerDestroy (s : PointerState κ) : Option (PointerState κ) := do
  let s ← removeEventSource s
  let s ← unlink s
  return { s with focusedSurface := none, running := false }

/-- A surface is destroyed: first its listeners are called. -/
def surfaceDestroyed (s : PointerState κ) (w : ℕ) : Option (PointerState κ) := do
  let s ← if s.link = .inSurface w then handleFocusedSurfaceDestroy s else some s
  return { s.tell (.destroyed w) with surfaces := Function.update s.surfaces w false }

/-! ### Steps -/

inductive PointerEvent (κ : Type) where
  | create (exit : InitExit) (completes : Bool)
  | destroy
  | surfaceCreated (surface : ℕ)
  | surfaceDestroyed (surface : ℕ)
  | motion (time : ℕ) (hit : Option (Hit κ))
  | button (time button : ℕ) (pressed : Bool)
  | scroll (time : ℕ) (dx dy : κ)

/-- Events are dispatched while the event loop has the source, and `surface_at` finds what
exists. -/
def PointerState.enabled (s : PointerState κ) : PointerEvent κ → Bool
  | .create _ _ => !s.running
  | .destroy => s.running
  | .surfaceCreated w => !s.surfaces w
  | .surfaceDestroyed w => s.surfaces w
  | .motion _ hit => s.inputEventSource == .added && hit.all fun h => s.surfaces h.surface
  | .button .. => s.inputEventSource == .added
  | .scroll .. => s.inputEventSource == .added

/-- What an event does; none is a crash. -/
def PointerState.effect [Zero κ] [DecidableEq κ] (s : PointerState κ) :
    PointerEvent κ → Option (PointerState κ)
  | .create exit completes => compositorServerCreate s exit completes
  | .destroy => inputHandlerDestroy s
  | .surfaceCreated w =>
      some { s.tell (.created w) with surfaces := Function.update s.surfaces w true }
  | .surfaceDestroyed w => Pointer.surfaceDestroyed s w
  | .motion time hit => dispatchPointerMotion s time hit
  | .button time button pressed => some (dispatchPointerButton s time button pressed)
  | .scroll time dx dy => some (dispatchPointerScroll s time dx dy)

/-- The next state. -/
def PointerState.next [Zero κ] [DecidableEq κ] (s : PointerState κ) (e : PointerEvent κ) :
    Option (PointerState κ) :=
  if s.enabled e then some ((s.effect e).getD { s with crashed := true }) else none

/-- The library is loaded: no compositor has run. -/
def PointerState.initial : PointerState κ where
  surfaces _ := false
  running := false
  inputEventSource := .null
  focusedSurface := none
  link := .unset
  log := []
  crashed := false

def pointerSystem (κ : Type) [Zero κ] [DecidableEq κ] :
    System (PointerState κ) (PointerEvent κ) :=
  System.ofNext (fun s => s = .initial) PointerState.next

/-! ### What a seat may be told -/

/-- What a seat knows: the surfaces, its pointer focus, and whether the last group of calls has been
ended. -/
structure SeatView where
  surfaces : ℕ → Bool
  focus : Option ℕ
  framed : Bool

/-- A surface is entered when no other has the focus, the focus is cleared when there is one, and
a motion is on the surface that has it.  A surface that is destroyed loses it. -/
def SeatView.accept (v : SeatView) : Notice κ → Option SeatView
  | .newSeat => some { v with focus := none, framed := true }
  | .created w => some { v with surfaces := Function.update v.surfaces w true }
  | .destroyed w => some { v with
      surfaces := Function.update v.surfaces w false
      focus := if v.focus = some w then none else v.focus }
  | .enter w _ _ =>
      if v.focus = none ∧ v.surfaces w = true then some { v with focus := some w, framed := false }
      else none
  | .clearFocus => if v.focus.isSome then some { v with focus := none, framed := false } else none
  | .motion w _ _ _ => if v.focus = some w then some { v with framed := false } else none
  | .button .. => some { v with framed := false }
  | .axis .. => some { v with framed := false }
  | .frame => some { v with framed := true }

def SeatView.initial : SeatView := ⟨fun _ => false, none, true⟩

/-- All that has happened could be told, and this is known now. -/
def Told (s : PointerState κ) (v : SeatView) : Prop :=
  runNext SeatView.accept .initial s.log = some v

theorem Told.tell {s : PointerState κ} {v v' : SeatView} (h : Told s v) {n : Notice κ}
    (haccept : v.accept n = some v') : Told (s.tell n) v' := by
  show runNext SeatView.accept .initial (s.log ++ [n]) = some v'
  rw [runNext_append, show runNext SeatView.accept .initial s.log = some v from h]
  show (v.accept n).bind some = some v'
  rw [haccept, Option.bind_some]

/-! ### Stopping -/

/-- A compositor is stopped when its event source has not been removed, and a handler has been set
up in this process. -/
def StopsWell (s : PointerState κ) : PointerEvent κ → Prop
  | .destroy => s.inputEventSource ≠ .removed ∧ s.link ≠ .unset
  | _ => True

instance (s : PointerState κ) (e : PointerEvent κ) : Decidable (StopsWell s e) := by
  cases e <;> unfold StopsWell <;> infer_instance

/-! ### The invariant -/

/-- The link is where the focus is. -/
def Listening (s : PointerState κ) : Prop :=
  match s.focusedSurface with
  | some w => s.link = .inSurface w ∧ s.surfaces w = true
  | none => s.link = .self

/-- What holds in all states. -/
structure PointerInv (s : PointerState κ) : Prop where
  crashed : s.crashed = false
  attached : s.inputEventSource = .added → s.running = true
  /-- Without a source nothing is remembered; the link may still be as it was loaded. -/
  detached : s.inputEventSource ≠ .added →
    s.focusedSurface = none ∧ (s.link = .unset ∨ s.link = .self)
  listening : s.inputEventSource = .added → Listening s
  told : ∃ v, Told s v ∧ v.surfaces = s.surfaces ∧
    (s.running = true → v.focus = s.focusedSurface ∧ v.framed = true)

section Handlers

variable {s : PointerState κ} {w : ℕ} {framed : Bool}

/-- What a running handler relies on. -/
structure Running (s : PointerState κ) (framed : Bool) : Prop where
  crashed : s.crashed = false
  running : s.running = true
  source : s.inputEventSource = .added
  listening : Listening s
  told : Told s ⟨s.surfaces, s.focusedSurface, framed⟩

theorem PointerInv.toRunning (hi : PointerInv s) (hsource : s.inputEventSource = .added) :
    Running s true := by
  obtain ⟨⟨surfaces, focus, framed⟩, htold, hsurfaces, hrest⟩ := hi.told
  obtain ⟨hfocus, hframed⟩ := hrest (hi.attached hsource)
  refine ⟨hi.crashed, hi.attached hsource, hsource, hi.listening hsource, ?_⟩
  rw [← hsurfaces, ← hfocus, ← hframed]
  exact htold

theorem Running.inv (h : Running s true) : PointerInv s where
  crashed := h.crashed
  attached _ := h.running
  detached hdetached := absurd h.source hdetached
  listening _ := h.listening
  told := ⟨_, h.told, rfl, fun _ => ⟨rfl, rfl⟩⟩

/-- A link that is in the list of an existing surface, or in none, can be taken out. -/
theorem unlink_eq (hset : s.link ≠ .unset)
    (halive : ∀ w, s.link = .inSurface w → s.surfaces w = true) :
    unlink s = some { s with link := .self } := by
  obtain ⟨surfaces, running, source, focusedSurface, link, log, crashed⟩ := s
  cases link with
  | unset => exact absurd rfl hset
  | self => rfl
  | inSurface w =>
    unfold unlink wlListRemove
    simp only [show surfaces w = true from halive w rfl]
    rfl

/-- The surface remembered is there, and its destruction is listened to. -/
theorem Listening.focused (h : Listening s) (hfocus : s.focusedSurface = some w) :
    s.surfaces w = true ∧ s.link = .inSurface w := by
  rw [Listening, hfocus] at h
  exact h.symm

/-- What is listened to is the destruction of the surface remembered. -/
theorem Listening.linked (h : Listening s) (hlink : s.link = .inSurface w) :
    s.focusedSurface = some w ∧ s.surfaces w = true := by
  unfold Listening at h
  split at h
  · rename_i w' hfocus
    cases hlink.symm.trans h.1
    exact ⟨hfocus, h.2⟩
  · cases hlink.symm.trans h

theorem Listening.unlink (h : Listening s) : unlink s = some { s with link := .self } := by
  refine unlink_eq ?_ fun w hw => (h.linked hw).2
  intro hunset
  unfold Listening at h
  split at h
  · cases hunset.symm.trans h.1
  · cases hunset.symm.trans h

/-- Without a source nothing is listened to. -/
theorem PointerInv.linked (hi : PointerInv s) (hlink : s.link = .inSurface w) :
    s.inputEventSource = .added ∧ s.focusedSurface = some w ∧ s.surfaces w = true := by
  by_cases hsource : s.inputEventSource = .added
  · exact ⟨hsource, (hi.listening hsource).linked hlink⟩
  · rcases (hi.detached hsource).2 with hunset | hself
    · cases hlink.symm.trans hunset
    · cases hlink.symm.trans hself

/-- Nor is a surface remembered. -/
theorem PointerInv.focused (hi : PointerInv s) (hfocus : s.focusedSurface = some w) :
    s.surfaces w = true ∧ s.link = .inSurface w := by
  by_cases hsource : s.inputEventSource = .added
  · exact (hi.listening hsource).focused hfocus
  · cases (hi.detached hsource).1.symm.trans hfocus

/-- A call that leaves the focus where it is. -/
theorem Running.tell (h : Running s framed) {n : Notice κ} {framed' : Bool}
    (haccept : (⟨s.surfaces, s.focusedSurface, framed⟩ : SeatView).accept n =
      some ⟨s.surfaces, s.focusedSurface, framed'⟩) : Running (s.tell n) framed' :=
  ⟨h.crashed, h.running, h.source, h.listening, h.told.tell haccept⟩

/-- The focus is taken away from a surface that has it. -/
theorem Running.clear (h : Running s framed) (hw : s.focusedSurface = some w) :
    ∃ t, unlink (s.tell .clearFocus) = some t ∧
      Running { t with focusedSurface := none } false ∧ t.surfaces = s.surfaces := by
  have hlistening : Listening (s.tell .clearFocus) := h.listening
  refine ⟨_, hlistening.unlink, ⟨h.crashed, h.running, h.source, rfl, ?_⟩, rfl⟩
  refine h.told.tell ?_
  rw [SeatView.accept, hw]
  rfl

/-- A surface gets the focus that none has. -/
theorem Running.enter (h : Running s framed) (hnone : s.focusedSurface = none) {hit : Hit κ}
    (halive : s.surfaces hit.surface = true) :
    ∃ t, wlSignalAdd (({ s with focusedSurface := some hit.surface }).tell
        (.enter hit.surface hit.x hit.y)) hit.surface = some t ∧ Running t false ∧
      t.focusedSurface = some hit.surface := by
  have hlink : s.link = .self := by
    have hlistening := h.listening
    rw [Listening, hnone] at hlistening
    exact hlistening
  refine ⟨{ s.tell (.enter hit.surface hit.x hit.y) with
    focusedSurface := some hit.surface, link := .inSurface hit.surface }, ?_, ?_, rfl⟩
  · unfold wlSignalAdd PointerState.tell
    simp only [hlink, halive]
    rfl
  · refine ⟨h.crashed, h.running, h.source, ⟨rfl, halive⟩, h.told.tell ?_⟩
    rw [SeatView.accept, hnone]
    exact if_pos ⟨rfl, halive⟩

/-- The focus is where the pointer is afterwards. -/
theorem changeFocus_spec (h : Running s framed) (hit : Option (Hit κ))
    (halive : ∀ h ∈ hit, s.surfaces h.surface = true) :
    ∃ t framed', changeFocus s hit = some t ∧ Running t framed' ∧
      t.focusedSurface = hit.map Hit.surface := by
  by_cases hsame : hit.map Hit.surface = s.focusedSurface
  · exact ⟨s, framed, if_pos hsame, h, hsame.symm⟩
  rw [changeFocus, if_neg hsame, leaveFocused]
  cases hfocus : s.focusedSurface with
  | none =>
    cases hit with
    | none => exact absurd hfocus.symm hsame
    | some hit =>
      obtain ⟨t, hadd, hrunning, ht⟩ := h.enter hfocus (halive hit rfl)
      exact ⟨t, false, hadd, hrunning, ht⟩
  | some w =>
    obtain ⟨u, hunlink, hrunning, hsurfaces⟩ := h.clear hfocus
    rw [Option.isSome_some, if_pos rfl, hunlink]
    cases hit with
    | none => exact ⟨{ u with focusedSurface := none }, false, rfl, hrunning, rfl⟩
    | some hit =>
      have hhit : ({ u with focusedSurface := none } : PointerState κ).surfaces hit.surface = true :=
        (congrFun hsurfaces hit.surface).trans (halive hit rfl)
      obtain ⟨t, hadd, hrunning', ht⟩ := hrunning.enter rfl hhit
      exact ⟨t, false, hadd, hrunning', ht⟩

theorem Running.frame (h : Running s framed) : Running (s.tell .frame) true := h.tell rfl

/-- A motion is told to the surface under the pointer, which has the focus then. -/
theorem dispatchPointerMotion_spec (h : Running s framed) (time : ℕ) (hit : Option (Hit κ))
    (halive : ∀ h ∈ hit, s.surfaces h.surface = true) :
    ∃ t, dispatchPointerMotion s time hit = some t ∧ Running t true ∧
      t.focusedSurface = hit.map Hit.surface := by
  obtain ⟨t, framed', hchange, hrunning, hfocus⟩ := changeFocus_spec h hit halive
  rw [dispatchPointerMotion, hchange]
  cases hit with
  | none => exact ⟨_, rfl, hrunning.frame, hfocus⟩
  | some hit =>
    have hmotion : Running (t.tell (.motion hit.surface time hit.x hit.y)) false :=
      hrunning.tell (if_pos hfocus)
    exact ⟨_, rfl, hmotion.frame, hfocus⟩

theorem dispatchPointerButton_spec (h : Running s framed) (time button : ℕ) (pressed : Bool) :
    Running (dispatchPointerButton s time button pressed) true := by
  have hbutton : Running (s.tell (.button time button pressed)) false := h.tell rfl
  exact hbutton.frame

theorem dispatchPointerScroll_spec [Zero κ] [DecidableEq κ] (h : Running s framed) (time : ℕ)
    (dx dy : κ) : Running (dispatchPointerScroll s time dx dy) true := by
  have haxis : ∀ {s : PointerState κ} {framed : Bool} (vertical : Bool) (value : κ),
      Running s framed → ∃ framed', Running
        (if value ≠ 0 then s.tell (.axis vertical time value) else s) framed' := by
    intro s framed vertical value h
    by_cases hvalue : value ≠ 0
    · rw [if_pos hvalue]
      exact ⟨false, h.tell rfl⟩
    · rw [if_neg hvalue]
      exact ⟨framed, h⟩
  obtain ⟨_, hvertical⟩ := haxis true dy h
  obtain ⟨_, hhorizontal⟩ := haxis false dx hvertical
  exact hhorizontal.frame

end Handlers

/-! ### Coming and going -/

section Steps

variable {s t : PointerState κ} {w : ℕ}

/-- A compositor is created, and its handler is set up or not. -/
theorem compositorServerCreate_spec (hi : PointerInv s) (hstopped : s.running = false)
    (exit : InitExit) (completes : Bool) :
    ∃ t, compositorServerCreate s exit completes = some t ∧ PointerInv t := by
  have hsource : s.inputEventSource ≠ .added := fun hadded => by
    rw [hi.attached hadded] at hstopped
    cases hstopped
  obtain ⟨hnone, hlink⟩ := hi.detached hsource
  obtain ⟨v, htold, hsurfaces, -⟩ := hi.told
  have hnew : Told (s.tell .newSeat) ⟨s.surfaces, none, true⟩ := by
    rw [← hsurfaces]
    exact htold.tell rfl
  -- a setup that fails leaves the link and the surface remembered as they were
  have hfailed : ∀ source : EventSource, source ≠ .added → ∃ t,
      (some { s.tell .newSeat with inputEventSource := source }).map (fun s : PointerState κ =>
        if completes then { s with running := true } else { s with inputEventSource := .null }) =
        some t ∧ PointerInv t := by
    intro source hadded
    refine ⟨_, rfl, ?_⟩
    cases completes with
    | true =>
      exact ⟨hi.crashed, fun _ => rfl, fun _ => ⟨hnone, hlink⟩, fun h => absurd h hadded, _, hnew, rfl,
        fun _ => ⟨hnone.symm, rfl⟩⟩
    | false =>
      refine ⟨hi.crashed, nofun, fun _ => ⟨hnone, hlink⟩, nofun, _, hnew, rfl, fun h => ?_⟩
      cases hstopped.symm.trans h
  cases exit with
  | pipe2Failed | addFdFailed => exact hfailed .null nofun
  | callocFailed => exact hfailed .removed nofun
  | initialised =>
    have hinit : wlListInit { s.tell .newSeat with
        inputEventSource := .added, focusedSurface := none } = some { s.tell .newSeat with
        inputEventSource := .added, focusedSurface := none, link := .self } := by
      unfold wlListInit PointerState.tell
      rcases hlink with hlink | hlink <;> simp only [hlink]
    rw [compositorServerCreate, inputHandlerInit]
    simp only
    rw [hinit]
    refine ⟨_, rfl, ?_⟩
    cases completes with
    | true => exact Running.inv ⟨hi.crashed, rfl, rfl, rfl, hnew⟩
    | false =>
      refine ⟨hi.crashed, nofun, fun _ => ⟨rfl, .inr rfl⟩, nofun, _, hnew, rfl, fun h => ?_⟩
      cases hstopped.symm.trans h

theorem removeEventSource_eq (hsource : s.inputEventSource ≠ .removed) :
    removeEventSource s = some { s with inputEventSource := .null } := by
  unfold removeEventSource
  split
  · exact absurd ‹_› hsource
  · rfl

/-- The source and the link can be removed, if they are as `StopsWell` asks for. -/
theorem inputHandlerDestroy_spec (hi : PointerInv s) (hwell : StopsWell s .destroy) :
    ∃ t, inputHandlerDestroy s = some t ∧ PointerInv t := by
  obtain ⟨hsource, hset⟩ := hwell
  obtain ⟨v, htold, hsurfaces, -⟩ := hi.told
  have hunlink : unlink { s with inputEventSource := .null } =
      some { s with inputEventSource := .null, link := .self } :=
    unlink_eq hset fun w hw => (hi.linked hw).2.2
  refine ⟨{ s with
    inputEventSource := .null, link := .self, focusedSurface := none, running := false }, ?_, ?_⟩
  · rw [inputHandlerDestroy, removeEventSource_eq hsource, Option.bind_eq_bind, Option.bind_some,
      hunlink]
    rfl
  · exact ⟨hi.crashed, nofun, fun _ => ⟨rfl, .inr rfl⟩, nofun, v, htold, hsurfaces, nofun⟩

/-- Otherwise one of the two goes wrong. -/
theorem inputHandlerDestroy_none (hwell : ¬ StopsWell s .destroy) : inputHandlerDestroy s = none := by
  rw [inputHandlerDestroy]
  by_cases hsource : s.inputEventSource = .removed
  · rw [removeEventSource, hsource]
    rfl
  · have hunset : s.link = .unset := by
      by_contra hset
      exact hwell ⟨hsource, hset⟩
    have hunlink : unlink { s with inputEventSource := .null } = none := by
      unfold unlink wlListRemove
      rw [hunset]
      rfl
    rw [removeEventSource_eq hsource, Option.bind_eq_bind, Option.bind_some, hunlink]
    rfl

theorem surfaceCreated_inv (hi : PointerInv s) (hnew : s.surfaces w = false) :
    PointerInv { s.tell (.created w) with surfaces := Function.update s.surfaces w true } := by
  obtain ⟨v, htold, hsurfaces, hrest⟩ := hi.told
  refine ⟨hi.crashed, hi.attached, hi.detached, ?_, ?_⟩
  · intro hsource
    have hlistening := hi.listening hsource
    unfold Listening at hlistening ⊢
    cases hfocus : s.focusedSurface with
    | none =>
      rw [hfocus] at hlistening
      simpa only [PointerState.tell, hfocus] using hlistening
    | some w' =>
      rw [hfocus] at hlistening
      obtain ⟨hlink, halive⟩ := hlistening
      have hne : w' ≠ w := by
        rintro rfl
        rw [hnew] at halive
        cases halive
      simp only [PointerState.tell, hfocus]
      exact ⟨hlink, (Function.update_of_ne hne _ _).trans halive⟩
  · refine ⟨_, htold.tell rfl, ?_, hrest⟩
    show Function.update v.surfaces w true = Function.update s.surfaces w true
    rw [hsurfaces]

/-- A surface that does not have the focus goes. -/
theorem PointerInv.destroyed (hi : PointerInv s) (hfocus : s.focusedSurface ≠ some w) :
    PointerInv { s.tell (.destroyed w) with surfaces := Function.update s.surfaces w false } := by
  obtain ⟨v, htold, hsurfaces, hrest⟩ := hi.told
  refine ⟨hi.crashed, hi.attached, hi.detached, ?_, _, htold.tell rfl, ?_, ?_⟩
  · intro hsource
    have hlistening := hi.listening hsource
    unfold Listening at hlistening ⊢
    simp only [PointerState.tell]
    cases hw : s.focusedSurface with
    | none =>
      rw [hw] at hlistening
      exact hlistening
    | some w' =>
      rw [hw] at hlistening hfocus
      have hne : w' ≠ w := fun heq => hfocus (congrArg some heq)
      exact ⟨hlistening.1, (Function.update_of_ne hne _ _).trans hlistening.2⟩
  · show Function.update v.surfaces w false = Function.update s.surfaces w false
    rw [hsurfaces]
  · intro hrunning
    obtain ⟨hv, hframed⟩ := hrest hrunning
    refine ⟨?_, hframed⟩
    show (if v.focus = some w then none else v.focus) = s.focusedSurface
    rw [hv, if_neg hfocus]

/-- The surface with the focus goes, and the handler forgets it in time. -/
theorem Running.destroyed {framed : Bool} (h : Running s framed) (hlink : s.link = .inSurface w) :
    handleFocusedSurfaceDestroy s = some { s with focusedSurface := none, link := .self } ∧
      Running { s.tell (.destroyed w) with
        focusedSurface := none
        link := .self
        surfaces := Function.update s.surfaces w false } framed := by
  obtain ⟨hfocus, halive⟩ := h.listening.linked hlink
  constructor
  · refine unlink_eq ?_ ?_
    · show s.link ≠ .unset
      rw [hlink]
      exact nofun
    · intro w' hw'
      cases hlink.symm.trans hw'
      exact halive
  · refine ⟨h.crashed, h.running, h.source, rfl, h.told.tell ?_⟩
    rw [SeatView.accept, hfocus, if_pos rfl]

/-- A surface that is destroyed has lost the focus by then. -/
theorem surfaceDestroyed_spec (hi : PointerInv s) :
    ∃ t, surfaceDestroyed s w = some t ∧ PointerInv t := by
  by_cases hlink : s.link = .inSurface w
  · obtain ⟨hhandled, ht⟩ := (hi.toRunning (hi.linked hlink).1).destroyed hlink
    refine ⟨_, ?_, ht.inv⟩
    rw [surfaceDestroyed, if_pos hlink, hhandled]
    rfl
  · refine ⟨_, ?_, hi.destroyed fun hfocus => hlink (hi.focused hfocus).2⟩
    rw [surfaceDestroyed, if_neg hlink]
    rfl

theorem PointerInv.initial : PointerInv (.initial : PointerState κ) where
  crashed := rfl
  attached := nofun
  detached _ := ⟨rfl, .inl rfl⟩
  listening := nofun
  told := ⟨.initial, rfl, rfl, nofun⟩

variable [Zero κ] [DecidableEq κ]

/-- No event crashes the handler but a stop. -/
theorem PointerInv.effect (hi : PointerInv s) {e : PointerEvent κ} (henabled : s.enabled e = true)
    (hwell : StopsWell s e) : ∃ t, s.effect e = some t ∧ PointerInv t := by
  cases e with
  | create exit completes =>
    exact compositorServerCreate_spec hi (by simpa [PointerState.enabled] using henabled) exit
      completes
  | destroy => exact inputHandlerDestroy_spec hi hwell
  | surfaceCreated w =>
    exact ⟨_, rfl, surfaceCreated_inv hi (by simpa [PointerState.enabled] using henabled)⟩
  | surfaceDestroyed w => exact surfaceDestroyed_spec hi
  | motion time hit =>
    obtain ⟨hsource, halive⟩ := Bool.and_eq_true_iff.mp henabled
    have hhit : ∀ h ∈ hit, s.surfaces h.surface = true := by
      rintro h rfl
      exact halive
    obtain ⟨t, ht, hi', -⟩ :=
      dispatchPointerMotion_spec (hi.toRunning (eq_of_beq hsource)) time hit hhit
    exact ⟨t, ht, hi'.inv⟩
  | button time button pressed =>
    have hrunning := hi.toRunning (eq_of_beq henabled)
    exact ⟨_, rfl, (dispatchPointerButton_spec hrunning time button pressed).inv⟩
  | scroll time dx dy =>
    have hrunning := hi.toRunning (eq_of_beq henabled)
    exact ⟨_, rfl, (dispatchPointerScroll_spec hrunning time dx dy).inv⟩

/-- What an event changes is done, if it is no stop that goes wrong. -/
theorem PointerInv.next_effect (hi : PointerInv s) {e : PointerEvent κ} (hwell : StopsWell s e)
    (h : s.next e = some t) : s.effect e = some t ∧ PointerInv t := by
  rw [PointerState.next] at h
  split at h
  · rename_i henabled
    obtain ⟨u, hu, hi'⟩ := hi.effect henabled hwell
    rw [hu] at h
    obtain rfl := Option.some.inj h
    exact ⟨hu, hi'⟩
  · cases h

theorem PointerInv.step (hi : PointerInv s) {e : PointerEvent κ} (hwell : StopsWell s e)
    (h : s.next e = some t) : PointerInv t :=
  (hi.next_effect hwell h).2

/-- A stop that goes wrong is a crash. -/
theorem crashed_of_not_stopsWell {e : PointerEvent κ} (hwell : ¬ StopsWell s e)
    (h : s.next e = some t) : t.crashed = true := by
  cases e with
  | destroy =>
    rw [PointerState.next] at h
    split at h
    · rw [PointerState.effect, inputHandlerDestroy_none hwell] at h
      obtain rfl := Option.some.inj h
      rfl
    · cases h
  | _ => exact absurd trivial hwell

end Steps

/-! ### What is promised -/

/-- What the handler promises in every state. -/
structure PointerGuarantee (s : PointerState κ) : Prop where
  /-- No list operation has gone wrong. -/
  alive : s.crashed = false
  /-- The surface remembered exists, and its destruction is listened to. -/
  focused : ∀ w, s.focusedSurface = some w → s.surfaces w = true ∧ s.link = .inSurface w
  /-- Nothing else is listened to. -/
  listens : ∀ w, s.link = .inSurface w → s.focusedSurface = some w
  /-- The seat has been told what fits: while the compositor runs the focus it was told of is the
  one remembered, and every group of calls has been ended. -/
  told : ∃ v, runNext SeatView.accept .initial s.log = some v ∧ v.surfaces = s.surfaces ∧
    (s.running = true → v.focus = s.focusedSurface ∧ v.framed = true)

theorem PointerInv.guarantee {s : PointerState κ} (hi : PointerInv s) : PointerGuarantee s where
  alive := hi.crashed
  focused _ hfocus := hi.focused hfocus
  listens _ hlink := (hi.linked hlink).2.1
  told := hi.told

/-- **The pointer focus never dangles, and the seat is never told what does not fit**, whatever
surfaces come and go under the pointer, however often the compositor is restarted and however the
handler's setup ends, if and only if no compositor is stopped whose event source was removed when
its handler was set up, or before some handler has been set up. -/
theorem pointerGuarantee_iff_stopsWell [Zero κ] [DecidableEq κ]
    {run : List (PointerEvent κ × PointerState κ)} (hrun : (pointerSystem κ).Exec .initial run) :
    AllStates PointerGuarantee .initial run ↔ AllSteps StopsWell .initial run := by
  refine System.allStates_iff_allSteps (S := pointerSystem κ) (I := PointerInv)
    (fun _ hi => hi.guarantee) (fun _ _ _ hi hstep hwell => hi.step hwell hstep) ?_ .initial hrun
  intro s e t _ hstep hwell hguarantee
  cases (crashed_of_not_stopsWell hwell hstep).symm.trans hguarantee.alive

/-- The pointer moves from one surface to another, which is destroyed and made again at the same
address; then the compositor is stopped, and another, whose handler cannot be set up, after it. -/
def sameAddress : List (PointerEvent ℤ) :=
  [.create .initialised true, .surfaceCreated 1, .surfaceCreated 2, .motion 10 (some ⟨1, 3, 4⟩),
    .motion 11 (some ⟨2, 0, 4⟩), .button 12 272 true, .surfaceDestroyed 2, .surfaceCreated 2,
    .motion 13 (some ⟨2, 1, 4⟩), .scroll 14 0 1, .destroy, .create .pipe2Failed true, .destroy]

theorem pointerGuarantee_of_sameAddress :
    (traceNext PointerState.next .initial sameAddress).length = 13 ∧
      AllStates PointerGuarantee .initial (traceNext PointerState.next .initial sameAddress) :=
  ⟨rfl, (pointerGuarantee_iff_stopsWell (System.exec_traceNext _ _ _)).mpr (by decide)⟩

end Wldroid.Compositor.Pointer
