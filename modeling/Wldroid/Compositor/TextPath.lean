import Wldroid.Compositor.MappedFocus
import Wldroid.Ime.Deliveries

/-!
# From the input method to the clients

The JNI threads queue the operations of the input method, the event loop takes them from the queue
and dispatches each to the active text-input object or, as keys, to the window with the keyboard
focus.  Windows, focus and text-input objects change between the callbacks.

* `Drives` — the compositor touches the text-input handler only through the handler's events;
  `text_step` — what each step of the compositor is to the handler;
* `TextPathState.next` — the queue with its threads, and the compositor, as one system;
* `textPathGuarantee_of_reachable` — every operation accepted is answered once and in order.
-/

namespace Wldroid.Compositor

open Wldroid.Foundation
open Wldroid.Ime

/-! ### The compositor and the text-input handler -/

/-- Events that dispatch nothing and destroy no surface. -/
def isOrdinary : HandlerEvent → Bool
  | .dispatch _ _ | .surfaceDestroyed _ => false
  | .surfaceCreated _ _ | .keyboardEnter _ | .keyboardLeave _ | .getTextInput _ _ | .enable _ |
      .disable _ | .setSurroundingText _ _ _ _ _ | .ignored _ | .setCursorRectangle _ _ |
      .commit _ | .resourceDestroy _ => true

/-- One handler is taken to the other by ordinary events. -/
def Drives (h h' : Handler) : Prop :=
  ∃ events : List HandlerEvent, events.all isOrdinary = true ∧
    runNext Handler.next h events = some h'

section Drives

variable {h h' h'' : Handler}

theorem Drives.refl (h : Handler) : Drives h h := ⟨[], rfl, rfl⟩

theorem Drives.one {e : HandlerEvent} (he : isOrdinary e = true) (hnext : h.next e = some h') :
    Drives h h' := by
  refine ⟨[e], by rw [List.all_cons, he]; rfl, ?_⟩
  show (h.next e).bind some = some h'
  rw [hnext]
  rfl

theorem Drives.trans (hleft : Drives h h') (hright : Drives h' h'') : Drives h h'' := by
  obtain ⟨first, hfirst, hrun⟩ := hleft
  obtain ⟨second, hsecond, hrun'⟩ := hright
  refine ⟨first ++ second, by rw [List.all_append, hfirst, hsecond]; rfl, ?_⟩
  rw [runNext_append, hrun]
  exact hrun'

/-- What every ordinary event keeps, a sequence of them keeps. -/
theorem Drives.invariant {P : Handler → Prop}
    (hstep : ∀ {h h' : Handler} {e : HandlerEvent}, isOrdinary e = true → h.next e = some h' →
      P h → P h')
    (hdrives : Drives h h') (hp : P h) : P h' := by
  obtain ⟨events, hordinary, hrun⟩ := hdrives
  induction events generalizing h with
  | nil => exact Option.some.inj hrun ▸ hp
  | cons e events ih =>
    rw [List.all_cons, Bool.and_eq_true] at hordinary
    obtain ⟨next, hnext, hrest⟩ := Option.bind_eq_some_iff.mp hrun
    exact ih (hstep hordinary.1 hnext hp) hordinary.2 hrest

theorem Drives.focusInv (hdrives : Drives h h') (hi : FocusInv h) : FocusInv h' :=
  hdrives.invariant (fun _ hnext hi => hi.next hnext) hi

theorem Drives.textual_eq (hdrives : Drives h h') :
    textual h'.globals.log = textual h.globals.log := by
  refine hdrives.invariant (P := fun g => textual g.globals.log = textual h.globals.log) ?_ rfl
  intro h₁ h₂ e he hnext hsame
  have hnone : added h₁ e = none := by
    cases e with
    | dispatch op seat => cases he
    | _ => rfl
  rw [textual_next hnext, hnone, hsame]
  exact List.append_nil _

theorem handleKeyboardEnter_surfaces (h : Handler) (surface : ℕ) :
    (textInputHandleKeyboardEnter h surface).surfaces = h.surfaces := by
  unfold textInputHandleKeyboardEnter
  split
  · rfl
  · rfl

/-- An ordinary event takes no surface away. -/
theorem live_next {e : HandlerEvent} (he : isOrdinary e = true) (hnext : h.next e = some h')
    {x : ℕ} (hx : (h.surfaces x).isSome = true) : (h'.surfaces x).isSome = true := by
  cases e with
  | dispatch op seat => cases he
  | surfaceDestroyed surface => cases he
  | surfaceCreated surface client =>
    simp only [Handler.next] at hnext
    split at hnext
    · rw [← Option.some.inj hnext]
      show (Function.update h.surfaces surface (some client) x).isSome = true
      by_cases hsame : x = surface
      · rw [hsame, Function.update_self]
        rfl
      · rw [Function.update_of_ne hsame]
        exact hx
    · cases hnext
  | keyboardEnter surface =>
    simp only [Handler.next] at hnext
    split at hnext
    · rw [← Option.some.inj hnext, handleKeyboardEnter_surfaces]
      exact hx
    · cases hnext
  | getTextInput client self =>
    simp only [Handler.next] at hnext
    split at hnext
    · rw [← Option.some.inj hnext]
      unfold managerGetTextInput
      simp only
      split
      · split
        · exact hx
        · exact hx
      · exact hx
    · cases hnext
  | commit self =>
    rw [← Option.some.inj hnext]
    unfold Handler.commit
    split
    · exact hx
    · exact hx
  | resourceDestroy self =>
    rw [← Option.some.inj hnext]
    unfold tiResourceDestroy
    split
    · exact hx
    · exact hx
  | keyboardLeave surface => exact Option.some.inj hnext ▸ hx
  | enable _ | disable _ | setSurroundingText _ _ _ _ _ | ignored _ | setCursorRectangle _ _ =>
    exact Option.some.inj hnext ▸ hx

theorem Drives.live (hdrives : Drives h h') {x : ℕ} (hx : (h.surfaces x).isSome = true) :
    (h'.surfaces x).isSome = true :=
  hdrives.invariant (P := fun g => (g.surfaces x).isSome = true)
    (fun he hnext hx => live_next he hnext hx) hx

end Drives

/-! ### Windows and their surfaces -/

/-- The surfaces of the windows exist. -/
def WindowsLive (s : Server) : Prop :=
  ∀ x, x ∈ s.toplevelSurfaces ∨ x ∈ viewSurfaces s.views → (s.text.surfaces x).isSome = true

section Windows

variable {s t : Server} {e : ServerEvent}

theorem drives_keyboardEnter (s : Server) {surface : ℕ}
    (hlive : (s.text.surfaces surface).isSome = true) :
    Drives s.text (s.keyboardEnter surface).text :=
  .one (e := .keyboardEnter surface) rfl (if_pos hlive)

theorem drives_keyboardLeave (s : Server) (surface : ℕ) :
    Drives s.text (s.keyboardLeave surface).text :=
  .one (e := .keyboardLeave (some surface)) rfl rfl

theorem drives_focusToplevel (s : Server) {ct : Toplevel}
    (hlive : (s.text.surfaces ct.surface).isSome = true) :
    Drives s.text (focusToplevel s ct).text := by
  unfold focusToplevel
  simp only
  split
  · exact .refl _
  · exact drives_keyboardEnter { s with toplevels := s.toplevels.map (activate ct) } hlive

theorem drives_unmapped (s : Server) (surface : ℕ) : Drives s.text (unmapped s surface).text := by
  unfold unmapped
  simp only
  split
  · exact drives_keyboardLeave (s.updateToplevel surface Toplevel.markUnmapped) surface
  · exact .refl _

theorem live_of_isBare {x : ℕ} (hbare : s.isBare x = true) :
    (s.text.surfaces x).isSome = true := by
  simp only [Server.isBare, Bool.and_eq_true] at hbare
  exact hbare.1.1

/-- A toplevel that is tracked has a surface. -/
theorem WindowsLive.toplevel (hlive : WindowsLive s) {toplevels : List Toplevel}
    (hsame : toplevels.map Toplevel.surface = s.toplevelSurfaces) {ct : Toplevel}
    (hct : ct ∈ toplevels) : (s.text.surfaces ct.surface).isSome = true :=
  hlive ct.surface (.inl (hsame ▸ List.mem_map_of_mem hct))

theorem WindowsLive.view (hlive : WindowsLive s) {window surface : ℕ} {view : XwaylandView}
    (hview : lookup XwaylandView.window window s.views = some view)
    (hsurface : view.surface = some surface) : (s.text.surfaces surface).isSome = true :=
  hlive surface (.inr (List.mem_filterMap.mpr ⟨view, (mem_of_lookup hview).1, hsurface⟩))

theorem drives_onToplevelMap (hlive : WindowsLive s) (surface : ℕ) (appId : Option String) :
    Drives s.text (onToplevelMap s surface appId).text := by
  have hsame : (update Toplevel.surface surface (Toplevel.markMapped appId) s.toplevels).map
      Toplevel.surface = s.toplevelSurfaces :=
    map_key_update (f := Toplevel.markMapped appId) (fun _ => rfl) surface s.toplevels
  unfold onToplevelMap
  simp only
  split
  · rename_i ct hct
    exact drives_focusToplevel (s.updateToplevel surface (Toplevel.markMapped appId))
      (hlive.toplevel hsame (mem_of_lookup hct).1)
  · exact .refl _

theorem drives_onToplevelUnmap (hlive : WindowsLive s) (surface : ℕ) :
    Drives s.text (onToplevelUnmap s surface).text := by
  have hsame := unmapped_surfaces s surface
  have hleave := drives_unmapped s surface
  rw [onToplevelUnmap_eq]
  split
  · rename_i ct next rest htop
    split
    · have hmem : next ∈ (unmapped s surface).toplevels := by
        rw [htop]
        exact .tail _ (.head _)
      exact hleave.trans (drives_focusToplevel _ (hleave.live (hlive.toplevel hsame hmem)))
    · exact hleave
  · exact hleave

/-- The target of a key is the surface of a toplevel. -/
theorem keyTarget_live (hlive : WindowsLive s) {target : ℕ} (h : keyTarget s = some target) :
    (s.text.surfaces target).isSome = true := by
  rw [keyTarget_eq] at h
  obtain ⟨ct, hct, rfl⟩ := Option.map_eq_some_iff.mp h
  exact hlive.toplevel rfl (List.mem_of_find?_eq_some hct)

theorem ensureKeyboardFocus_live (hlive : WindowsLive s) {target : ℕ}
    (h : ensureKeyboardFocus s = some target) : (s.text.surfaces target).isSome = true := by
  unfold ensureKeyboardFocus at h
  split at h
  · obtain ⟨ct, hct, rfl⟩ := Option.map_eq_some_iff.mp h
    exact hlive.toplevel rfl (List.mem_of_find?_eq_some hct)
  · cases h

/-- The dispatch of an operation is that of the handler, with the surface that would be entered. -/
theorem text_dispatch (hlive : WindowsLive s) (op : TextDispatch) :
    s.text.next (.dispatch op ⟨s.keyboard, ensureKeyboardFocus s⟩) =
      some (dispatchTextOp s op).text := by
  refine if_pos ?_
  rw [Option.all_eq_true]
  intro target htarget
  exact ensureKeyboardFocus_live hlive htarget

/-- **What a step of the compositor is to the text-input handler**: ordinary events, the
destruction of a surface without a window, or the dispatch of an operation. -/
theorem text_step (hlive : WindowsLive s) (hstep : ServerStep s e t) :
    Drives s.text t.text ∨
      (∃ surface, e = .surfaceDestroyed surface ∧ s.isBare surface = true ∧
        s.text.next (.surfaceDestroyed surface) = some t.text) ∨
      ∃ op, e = .textOp op ∧
        s.text.next (.dispatch op ⟨s.keyboard, ensureKeyboardFocus s⟩) = some t.text := by
  cases hstep with
  | surfaceCreated htext => exact .inl (.one rfl htext)
  | surfaceDestroyed hbare =>
    rename_i surface
    exact .inr (.inl ⟨surface, rfl, hbare, if_pos (live_of_isBare hbare)⟩)
  | newToplevel _ | views _ _ _ | otherInput => exact .inl (.refl _)
  | mapToplevel appId _ => exact .inl (drives_onToplevelMap hlive _ appId)
  | unmapToplevel _ => exact .inl (drives_onToplevelUnmap hlive _)
  | destroyToplevel _ => exact .inl (drives_keyboardLeave s _)
  | mapXwayland created hview hsurface =>
    refine .inl ?_
    unfold onXwaylandSurfaceMap focusXwaylandView
    simp only
    split
    · split
      · exact .refl _
      · exact drives_keyboardEnter { s with views := _ } (hlive.view hview hsurface)
    · exact .refl _
  | unmapXwayland _ _ =>
    refine .inl ?_
    unfold onXwaylandSurfaceUnmap
    simp only
    split
    · exact drives_keyboardLeave s _
    · exact .refl _
  | dissociate _ _ => exact .inl (drives_keyboardLeave s _)
  | key =>
    refine .inl ?_
    unfold dispatchKey
    split
    · split
      · rename_i target htarget
        exact drives_keyboardEnter s (keyTarget_live hlive htarget)
      · exact .refl _
    · exact .refl _
  | touchDown hhit =>
    refine .inl ?_
    unfold dispatchTouchDown
    split
    · split
      · have hcan : s.canHit _ = true := hhit
        unfold Server.canHit at hcan
        rw [Bool.and_eq_true] at hcan
        exact drives_keyboardEnter s hcan.1
      · exact .refl _
    · exact .refl _
  | textOp op => exact .inr (.inr ⟨op, rfl, text_dispatch hlive op⟩)
  | request hrequest htext =>
    refine .inl (.one ?_ htext)
    rename_i e _
    cases e with
    | surfaceCreated _ _ | surfaceDestroyed _ | keyboardEnter _ | keyboardLeave _ | dispatch _ _ =>
      cases hrequest
    | _ => rfl

/-- A dispatch takes no surface away. -/
theorem live_dispatch {h h' : Handler} {op : TextDispatch} {seat : Fallback}
    (hnext : h.next (.dispatch op seat) = some h') : h'.surfaces = h.surfaces := by
  simp only [Handler.next] at hnext
  split at hnext
  · rw [← Option.some.inj hnext]
    rcases dispatch_cases h op seat with ⟨keys, -, hkeys⟩ | ⟨-, log, hlog⟩
    · rw [hkeys]
      unfold emitKeys
      split
      · split
        · exact handleKeyboardEnter_surfaces h _
        · rfl
      · rfl
    · rw [hlog]
  · cases hnext

theorem WindowsLive.step (hlive : WindowsLive s) (hstep : ServerStep s e t) : WindowsLive t := by
  -- a window has a surface that a window had, or one that had no window
  have hold : ∀ x, x ∈ t.toplevelSurfaces ∨ x ∈ viewSurfaces t.views →
      (s.text.surfaces x).isSome = true := by
    intro x hx
    rcases surfaces_step hstep with ⟨htop, hviews⟩ | ⟨y, hbare, htop, hviews⟩
    · rcases hx with hx | hx
      · exact hlive x (.inl (htop.subset hx))
      · rcases hviews x hx with hx | hx
        · exact hlive x (.inr hx)
        · exact live_of_isBare hx
    · rw [htop, hviews, List.mem_cons] at hx
      rcases hx with (rfl | hx) | hx
      · exact live_of_isBare hbare
      · exact hlive x (.inl hx)
      · exact hlive x (.inr hx)
  intro x hx
  rcases text_step hlive hstep with hdrives | ⟨surface, rfl, hbare, hnext⟩ | ⟨op, rfl, hnext⟩
  · exact hdrives.live (hold x hx)
  · have hne : x ≠ surface := by
      cases hstep with
      | surfaceDestroyed _ =>
        obtain ⟨htop, hviews⟩ := not_mem_of_isBare hbare
        rintro rfl
        exact hx.elim htop hviews
      | views _ hchanges _ => cases hchanges
    simp only [Handler.next] at hnext
    split at hnext
    · rw [← Option.some.inj hnext]
      unfold Ime.surfaceDestroyed
      simp only
      rw [Function.update_of_ne hne]
      split
      · exact hold x hx
      · exact hold x hx
    · cases hnext
  · rw [live_dispatch hnext]
    exact hold x hx

theorem focusToplevel_keyboard (s : Server) (ct : Toplevel) :
    (focusToplevel s ct).keyboard = s.keyboard := by
  unfold focusToplevel
  simp only
  split
  · rfl
  · rfl

theorem unmapped_keyboard (s : Server) (surface : ℕ) :
    (unmapped s surface).keyboard = s.keyboard := by
  unfold unmapped
  simp only
  split
  · rfl
  · rfl

/-- The keyboard stays. -/
theorem keyboard_step (hstep : ServerStep s e t) : t.keyboard = s.keyboard := by
  cases hstep with
  | mapToplevel appId _ =>
    unfold onToplevelMap
    simp only
    split
    · exact focusToplevel_keyboard _ _
    · rfl
  | unmapToplevel _ =>
    rename_i surface _
    have hunmapped := unmapped_keyboard s surface
    rw [onToplevelUnmap_eq]
    split
    · split
      · exact (focusToplevel_keyboard _ _).trans hunmapped
      · exact hunmapped
    · exact hunmapped
  | mapXwayland created _ _ =>
    unfold onXwaylandSurfaceMap focusXwaylandView
    simp only
    split
    · split
      · rfl
      · rfl
    · rfl
  | unmapXwayland _ _ =>
    unfold onXwaylandSurfaceUnmap
    simp only
    split
    · rfl
    · rfl
  | key =>
    unfold dispatchKey
    split
    · split
      · rfl
      · rfl
    · rfl
  | touchDown _ =>
    unfold dispatchTouchDown
    split
    · split
      · rfl
      · rfl
    · rfl
  | surfaceCreated _ | surfaceDestroyed _ | newToplevel _ | destroyToplevel _ | views _ _ _
  | dissociate _ _ | otherInput | textOp _ | request _ _ => rfl

end Windows

/-! ### The queue and the compositor together -/

/-- The queue with its threads, and the compositor; and a record of the dispatches so far. -/
structure TextPathState (τ : Type) where
  queue : QueueState τ
  server : Server
  dispatches : List Dispatched

inductive TextPathStep (τ : Type) where
  /-- A step of a JNI thread or of the event loop on the queue, except a dispatch. -/
  | queue (step : QueueStep τ)
  | dispatch
  /-- What the event loop handles outside the callback. -/
  | server (e : ServerEvent)

def isDispatch {τ : Type} : QueueStep τ → Bool
  | .dispatch => true
  | _ => false

def isTextOp : ServerEvent → Bool
  | .textOp _ => true
  | _ => false

/-- The event loop is not in `on_text_input_event`. -/
def isIdle : ConsumerPc → Bool
  | .idle => true
  | _ => false

section Steps

variable {τ : Type} [DecidableEq τ]

/-- The next state. -/
def TextPathState.next (s : TextPathState τ) : TextPathStep τ → Option (TextPathState τ)
  | .queue step =>
      if isDispatch step then none
      else (s.queue.next step).map fun queue => { s with queue := queue }
  | .dispatch =>
      match s.queue.consumer with
      | .dispatching op => do
          let dispatch := dispatchOf (s.queue.memory op).val
          let server ← s.server.next (.textOp dispatch)
          let queue ← s.queue.next .dispatch
          return ⟨queue, server, s.dispatches ++
            [⟨s.server.text, ⟨s.server.keyboard, ensureKeyboardFocus s.server⟩, dispatch⟩]⟩
      | _ => none
  | .server e =>
      if isIdle s.queue.consumer && !isTextOp e then
        (s.server.next e).map fun server => { s with server := server }
      else none

/-- `input_handler_init` and `text_input_handler_init` have succeeded: there is a keyboard, and the
pipe is set up. -/
def TextPathState.Initial (s : TextPathState τ) : Prop :=
  s.queue.Initial ∧ s.server.Initial ∧ s.server.keyboard = true ∧ s.dispatches = []

def textPathSystem (τ : Type) [DecidableEq τ] : System (TextPathState τ) (TextPathStep τ) :=
  System.ofNext TextPathState.Initial TextPathState.next

end Steps

/-! ### Requests -/

/-- No empty request is queued. -/
structure RequestsSome {τ : Type} (s : QueueState τ) : Prop where
  allocated : ∀ i op req, s.producer i = .allocated op req → req.isEmpty = false
  accepted : ∀ req ∈ s.accepted, req.isEmpty = false

/-- The threads stay where they are, and nothing is accepted or dispatched. -/
structure SameHistory {τ : Type} (s t : QueueState τ) : Prop where
  producer : t.producer = s.producer
  accepted : t.accepted = s.accepted
  dispatched : t.dispatched = s.dispatched

/-- What a step does to the requests: a thread takes one up that is not empty, or one is accepted
that a thread has taken up.  Only a dispatch adds to what has been dispatched. -/
structure RequestMoves {τ : Type} (e : QueueStep τ) (s t : QueueState τ) : Prop where
  allocated : ∀ i op req, t.producer i = .allocated op req →
    s.producer i = .allocated op req ∨ req.isEmpty = false
  accepted : ∀ req ∈ t.accepted, req ∈ s.accepted ∨ ∃ i op, s.producer i = .allocated op req
  dispatched : isDispatch e = false → t.dispatched = s.dispatched

section Requests

variable {τ : Type} {s t : QueueState τ} {e : QueueStep τ}

theorem sameHistory_enqueueTextOp (s : QueueState τ) (op : ℕ) :
    SameHistory s (enqueueTextOp s op).2 := by
  unfold enqueueTextOp
  split
  · exact ⟨rfl, rfl, rfl⟩
  · exact ⟨rfl, rfl, rfl⟩

theorem sameHistory_popTextOp (s : QueueState τ) : SameHistory s (popTextOp s).2 := by
  unfold popTextOp
  split
  · exact ⟨rfl, rfl, rfl⟩
  · exact ⟨rfl, rfl, rfl⟩

theorem sameHistory_wakeTextInputLoop (s : QueueState τ) :
    SameHistory s (wakeTextInputLoop s).2 := by
  unfold wakeTextInputLoop
  split
  · exact ⟨rfl, rfl, rfl⟩
  · exact ⟨rfl, rfl, rfl⟩

/-- Steps on the list and the pipe alone. -/
theorem SameHistory.moves (h : SameHistory s t) : RequestMoves e s t := by
  refine ⟨?_, ?_, fun _ => h.dispatched⟩
  · intro i op req hpc
    exact .inl (h.producer ▸ hpc)
  · intro req hreq
    exact .inl (h.accepted ▸ hreq)

variable [DecidableEq τ]

/-- A thread moves on, to a request that is not empty if to any. -/
theorem RequestMoves.goto (h : RequestMoves e s t) (i : τ) {pc : ProducerPc}
    (hpc : ∀ op req, pc = .allocated op req → req.isEmpty = false) :
    RequestMoves e s (t.goto i pc) := by
  refine ⟨?_, h.accepted, h.dispatched⟩
  intro j op req hj
  have hproducer : Function.update t.producer i pc j = .allocated op req := hj
  by_cases hji : j = i
  · rw [hji, Function.update_self] at hproducer
    exact .inr (hpc op req hproducer)
  · rw [Function.update_of_ne hji] at hproducer
    exact h.allocated j op req hproducer

theorem RequestMoves.leave (h : RequestMoves e s t) (i : τ) {pc : ProducerPc}
    (hpc : ∀ op req, pc ≠ .allocated op req) : RequestMoves e s (t.goto i pc) :=
  h.goto i fun op req heq => absurd heq (hpc op req)

theorem requestMoves_next (h : s.next e = some t) : RequestMoves e s t := by
  have hsame : RequestMoves e s s := SameHistory.moves ⟨rfl, rfl, rfl⟩
  have hpop := sameHistory_popTextOp s
  cases e with
  | call i req alloc =>
    simp only [QueueState.next] at h
    split at h
    · split at h
      · exact Option.some.inj h ▸ hsame
      · rename_i hsome
        cases alloc with
        | none => exact Option.some.inj h ▸ hsame
        | some op =>
          simp only at h
          split at h
          · cases h
          · rw [← Option.some.inj h]
            refine RequestMoves.goto (s := s) (t := { s with
              memory := Function.update s.memory op ⟨req.record, none⟩
              live := Function.update s.live op true }) (SameHistory.moves ⟨rfl, rfl, rfl⟩) i ?_
            intro op' req' hpc
            obtain ⟨-, rfl⟩ := ProducerPc.allocated.inj hpc
            rw [Bool.or_eq_true, not_or] at hsome
            exact Bool.not_eq_true _ ▸ hsome.1
    · cases h
  | enqueue i =>
    simp only [QueueState.next] at h
    split at h
    · rename_i op req hpc
      have hqueue := sameHistory_enqueueTextOp s op
      have hmoves : RequestMoves (.enqueue i) s (enqueueTextOp s op).2 := hqueue.moves
      split at h
      · rw [← Option.some.inj h]
        refine RequestMoves.leave
          (t := { (enqueueTextOp s op).2 with accepted := s.accepted ++ [req] }) ?_ i (by simp)
        refine ⟨hmoves.allocated, ?_, hmoves.dispatched⟩
        intro req' hreq'
        rcases List.mem_append.mp hreq' with hold | hnew
        · exact .inl hold
        · exact .inr ⟨i, op, List.mem_singleton.mp hnew ▸ hpc⟩
      · exact Option.some.inj h ▸ hmoves.leave i (by simp)
    · cases h
  | wake i =>
    simp only [QueueState.next] at h
    split at h
    · split at h
      · exact Option.some.inj h ▸ (sameHistory_wakeTextInputLoop s).moves.leave i (by simp)
      · exact Option.some.inj h ▸ hsame.leave i (by simp)
    · cases h
  | clear i =>
    simp only [QueueState.next] at h
    split at h
    · split at h
      · exact Option.some.inj h ▸ hsame.leave i (by simp)
      · rename_i op popped hpopped
        rw [hpopped] at hpop
        exact Option.some.inj h ▸
          SameHistory.moves ⟨hpop.producer, hpop.accepted, hpop.dispatched⟩
    · cases h
  | pop =>
    simp only [QueueState.next] at h
    split at h
    · split at h
      · exact Option.some.inj h ▸ SameHistory.moves ⟨rfl, rfl, rfl⟩
      · rename_i op popped hpopped
        rw [hpopped] at hpop
        exact Option.some.inj h ▸
          SameHistory.moves ⟨hpop.producer, hpop.accepted, hpop.dispatched⟩
    · cases h
  | callback =>
    simp only [QueueState.next] at h
    split at h
    · exact Option.some.inj h ▸ SameHistory.moves ⟨rfl, rfl, rfl⟩
    · cases h
  | drain =>
    simp only [QueueState.next] at h
    split at h
    · split at h
      · exact Option.some.inj h ▸ SameHistory.moves ⟨rfl, rfl, rfl⟩
      · exact Option.some.inj h ▸ SameHistory.moves ⟨rfl, rfl, rfl⟩
    · cases h
  | dispatch =>
    simp only [QueueState.next] at h
    split at h
    · rw [← Option.some.inj h]
      exact ⟨hsame.allocated, hsame.accepted, fun he => absurd he (by simp [isDispatch])⟩
    · cases h
  | free =>
    simp only [QueueState.next] at h
    split at h
    · exact Option.some.inj h ▸ SameHistory.moves ⟨rfl, rfl, rfl⟩
    · cases h

theorem RequestsSome.next (hi : RequestsSome s) (h : s.next e = some t) : RequestsSome t := by
  have hmoves := requestMoves_next h
  refine ⟨?_, ?_⟩
  · intro i op req hpc
    exact (hmoves.allocated i op req hpc).elim (hi.allocated i op req) id
  · intro req hreq
    rcases hmoves.accepted req hreq with hold | ⟨i, op, hpc⟩
    · exact hi.accepted req hold
    · exact hi.allocated i op req hpc

end Requests

/-! ### What is promised -/

/-- What holds in all states. -/
structure TextPathInv {τ : Type} (s : TextPathState τ) : Prop where
  queue : ∃ cells owner, QueueInv s.queue cells owner
  requests : RequestsSome s.queue
  keyboard : s.server.keyboard = true
  live : WindowsLive s.server
  focus : FocusInv s.server.text
  dispatched : s.dispatches.map Dispatched.op = s.queue.dispatched
  answered : ∀ d ∈ s.dispatches, Answers d.handler d.op d.outcome
  log : textual s.server.text.globals.log = (s.dispatches.map Dispatched.outcome).reduceOption

theorem textPathInv_of_initial {τ : Type} {s : TextPathState τ} (h : s.Initial) :
    TextPathInv s := by
  obtain ⟨hqueue, ⟨htop, hviews, -, htext, -⟩, hkeyboard, hnone⟩ := h
  have hlog : s.server.text.globals.log = [] := htext.2.2.2.2.2.2
  obtain ⟨-, -, -, -, -, -, hproducer, -, haccepted, hdispatched⟩ := id hqueue
  refine
    { queue := ⟨_, _, queueInv_of_initial hqueue⟩
      requests := ⟨?_, ?_⟩
      keyboard := hkeyboard
      live := ?_
      focus := focusInv_of_initial htext
      dispatched := ?_
      answered := ?_
      log := ?_ }
  · intro i op req hpc
    rw [hproducer i] at hpc
    cases hpc
  · rw [haccepted]
    exact fun req hreq => absurd hreq List.not_mem_nil
  · intro x hx
    rw [Server.toplevelSurfaces, htop, hviews] at hx
    exact absurd hx (by simp [viewSurfaces])
  · rw [hdispatched, hnone]
    rfl
  · rw [hnone]
    exact fun d hd => absurd hd List.not_mem_nil
  · rw [hlog, hnone]
    rfl

/-- The operation that is dispatched next is one that was accepted. -/
theorem TextPathInv.request_of_dispatching {τ : Type} {s : TextPathState τ} (hi : TextPathInv s)
    {op : ℕ} (hconsumer : s.queue.consumer = .dispatching op) :
    ∃ req : TextRequest, req.isEmpty = false ∧
      req.expected = dispatchOf (s.queue.memory op).val := by
  obtain ⟨cells, owner, hinv⟩ := hi.queue
  have hflight : s.queue.inFlight = [dispatchOf (s.queue.memory op).val] := by
    unfold QueueState.inFlight
    rw [hconsumer]
  have hmem : dispatchOf (s.queue.memory op).val ∈ s.queue.accepted.map TextRequest.expected := by
    rw [hinv.fifo, hflight]
    exact List.mem_append_left _ (List.mem_append_right _ (.head _))
  obtain ⟨req, hreq, hexpected⟩ := List.mem_map.mp hmem
  exact ⟨req, hi.requests.accepted req hreq, hexpected⟩

section Runs

variable {τ : Type} [DecidableEq τ] {s t : TextPathState τ}

theorem TextPathInv.queueStep (hi : TextPathInv s) {step : QueueStep τ}
    (h : s.next (.queue step) = some t) : TextPathInv t := by
  simp only [TextPathState.next] at h
  split at h
  · cases h
  · rename_i hstep
    obtain ⟨queue, hqueue, rfl⟩ := Option.map_eq_some_iff.mp h
    obtain ⟨cells, owner, hinv⟩ := hi.queue
    refine { hi with
      queue := hinv.next hqueue
      requests := hi.requests.next hqueue
      dispatched := ?_ }
    rw [(requestMoves_next hqueue).dispatched (Bool.not_eq_true _ ▸ hstep)]
    exact hi.dispatched

/-- A window, a focus or a text-input object changes; no text leaves. -/
theorem TextPathInv.serverStep (hi : TextPathInv s) {e : ServerEvent}
    (h : s.next (.server e) = some t) : TextPathInv t := by
  simp only [TextPathState.next] at h
  split at h
  · rename_i hguard
    obtain ⟨server, hserver, rfl⟩ := Option.map_eq_some_iff.mp h
    rw [Bool.and_eq_true] at hguard
    have hstep := serverStep_of_next hserver
    have hkept : FocusInv server.text ∧
        textual server.text.globals.log = textual s.server.text.globals.log := by
      rcases text_step hi.live hstep with hdrives | ⟨surface, -, -, hnext⟩ | ⟨op, rfl, -⟩
      · exact ⟨hdrives.focusInv hi.focus, hdrives.textual_eq⟩
      · exact ⟨hi.focus.next hnext, (textual_next hnext).trans (List.append_nil _)⟩
      · exact absurd hguard.2 Bool.false_ne_true
    exact { hi with
      keyboard := (keyboard_step hstep).trans hi.keyboard
      live := hi.live.step hstep
      focus := hkept.1
      log := hkept.2.trans hi.log }
  · cases h

theorem TextPathInv.dispatchStep (hi : TextPathInv s) (h : s.next .dispatch = some t) :
    TextPathInv t := by
  simp only [TextPathState.next] at h
  split at h
  · rename_i op hconsumer
    obtain ⟨server, hserver, h⟩ := Option.bind_eq_some_iff.mp h
    obtain ⟨queue, hqueue, h⟩ := Option.bind_eq_some_iff.mp h
    obtain rfl := Option.some.inj h
    obtain ⟨req, hsome, hreq⟩ := hi.request_of_dispatching hconsumer
    rw [← hreq] at hserver ⊢
    obtain rfl := Option.some.inj hserver
    obtain ⟨cells, owner, hinv⟩ := hi.queue
    have hdispatched : queue.dispatched = s.queue.dispatched ++ [req.expected] := by
      simp only [QueueState.next, hconsumer] at hqueue
      rw [← Option.some.inj hqueue, hreq]
    have hnext := text_dispatch hi.live req.expected
    refine
      { queue := hinv.next hqueue
        requests := hi.requests.next hqueue
        keyboard := hi.keyboard
        live := hi.live.step (.textOp req.expected)
        focus := hi.focus.next hnext
        dispatched := ?_
        answered := ?_
        log := ?_ }
    · rw [hdispatched, List.map_append, hi.dispatched]
      rfl
    · intro d hd
      rcases List.mem_append.mp hd with hold | hnew
      · exact hi.answered d hold
      · rw [List.mem_singleton.mp hnew]
        exact answers_outcome _ _ hi.keyboard hsome
    · rw [textual_next hnext, hi.log, List.map_append, List.reduceOption_append, List.map_singleton,
        List.reduceOption_singleton]
      rfl
  · cases h

theorem TextPathInv.step (hi : TextPathInv s) {e : TextPathStep τ} (h : s.next e = some t) :
    TextPathInv t := by
  cases e with
  | queue step => exact hi.queueStep h
  | dispatch => exact hi.dispatchStep h
  | server e => exact hi.serverStep h

theorem textPathInv_of_reachable (h : (textPathSystem τ).Reachable s) : TextPathInv s :=
  h.invariant (fun _ => textPathInv_of_initial) fun _ _ _ hi => hi.step

end Runs

/-- What the whole way from the input method to the clients promises. -/
structure TextPathGuarantee {τ : Type} (s : TextPathState τ) : Prop where
  /-- What has been dispatched is answered, each operation once, in order, and as the handler's
  state at its dispatch asks for. -/
  answered : s.dispatches.map Dispatched.op = s.queue.dispatched ∧
    ∃ outcomes, List.Forall₂ (fun d => Answers d.handler d.op) s.dispatches outcomes ∧
      textual s.server.text.globals.log = outcomes.reduceOption
  /-- In particular the texts leave as they came. -/
  texts : (textual s.server.text.globals.log).filterMap Output.text =
    s.queue.dispatched.filterMap TextDispatch.text
  /-- A client gets text only between enter and leave. -/
  inSession : ∀ r, (sessionOf r s.server.text.globals.log).isSome
  /-- What has been dispatched is what was accepted, up to at most 257 operations that wait. -/
  waiting : ∃ rest, s.queue.accepted.map TextRequest.expected = s.queue.dispatched ++ rest ∧
    rest.length ≤ 257
  /-- When the event loop is idle and the queue is empty, everything accepted has been. -/
  complete : s.queue.consumer = .idle → s.queue.pendingTextHead = none →
    s.queue.dispatched = s.queue.accepted.map TextRequest.expected

theorem TextPathInv.guarantee {τ : Type} {s : TextPathState τ} (hi : TextPathInv s) :
    TextPathGuarantee s := by
  obtain ⟨cells, owner, hinv⟩ := hi.queue
  have hanswered : List.Forall₂ (fun d => Answers d.handler d.op) s.dispatches
      (s.dispatches.map Dispatched.outcome) :=
    List.forall₂_map_right_iff.mpr (List.forall₂_same.mpr hi.answered)
  refine ⟨⟨hi.dispatched, _, hanswered, hi.log⟩, ?_, hi.focus.session_ok, ?_, ?_⟩
  · rw [hi.log, ← hi.dispatched]
    exact texts_of_answers hanswered
  · refine ⟨s.queue.inFlight ++ cells.map fun c => dispatchOf c.2, ?_, ?_⟩
    · rw [hinv.fifo, List.append_assoc]
    · have hflight : s.queue.inFlight.length ≤ 1 := by
        unfold QueueState.inFlight
        split
        · exact Nat.le_refl 1
        · exact Nat.zero_le 1
      have hcount := hinv.count_le
      rw [pendingTextMaxCount] at hcount
      rw [List.length_append, List.length_map]
      omega
  · intro hidle hempty
    have hflight : s.queue.inFlight = [] := by
      unfold QueueState.inFlight
      rw [hidle]
    have hqueue := hinv.queue
    rw [hempty] at hqueue
    rw [hinv.fifo, hflight, hqueue.head_none]
    simp

/-- **Every operation of the input method that is accepted is answered once and in order**: its text
reaches the active text-input object or the keyboard focus, whatever happens to windows, focus and
objects between the callbacks and however the threads interleave. -/
theorem textPathGuarantee_of_reachable {τ : Type} [DecidableEq τ] {s : TextPathState τ}
    (h : (textPathSystem τ).Reachable s) : TextPathGuarantee s :=
  (textPathInv_of_reachable h).guarantee

/-- `hi`. -/
def greeting : CString := ⟨[0x68, 0x69], by decide, by decide⟩

/-- What happens to a request of the input method up to its dispatch. -/
def requested (thread : Bool) (req : TextRequest) (op : ℕ) : List (TextPathStep Bool) :=
  [.queue (.call thread req (some op)), .queue (.enqueue thread), .queue (.wake thread),
    .queue .callback, .queue .drain, .queue .drain, .queue .pop, .dispatch, .queue .free, .queue .pop]

/-- Text for a window without text input; then the window enables an object, gets text, shows it
with the cursor at its end, and two deletions follow, of which the second finds nothing after the
cursor. -/
def typedInWindow : List (TextPathStep Bool) :=
  ([.server (.surfaceCreated 1 10), .server (.newToplevel 1), .server (.mapToplevel 1 none)] :
      List (TextPathStep Bool)) ++
    requested true (.commitText greeting) 7 ++
    ([.server (.request (.getTextInput 10 100)), .server (.request (.enable 100)),
      .server (.request (.commit 100))] : List (TextPathStep Bool)) ++
    requested false (.commitText greeting) 8 ++
    ([.server (.request (.setSurroundingText 100 (some greeting) 2 2 true)),
      .server (.request (.commit 100))] : List (TextPathStep Bool)) ++
    requested true (.deleteSurroundingText 1 0) 9 ++
    requested false (.deleteSurroundingText 0 1) 10

/-- The compositor has just started. -/
def startedPath : TextPathState Bool := ⟨emptyQueue, freshServer, []⟩

theorem startedPath_initial : startedPath.Initial :=
  ⟨emptyQueue_initial, freshServer_initial, rfl, rfl⟩

/-- Where that leads. -/
def typedPath : TextPathState Bool :=
  (runNext TextPathState.next startedPath typedInWindow).getD startedPath

theorem runNext_typedInWindow :
    runNext TextPathState.next startedPath typedInWindow = some typedPath := rfl

theorem textPathGuarantee_of_typedInWindow :
    textual typedPath.server.text.globals.log = [.syntheticKeys greeting, .commitString 0 greeting,
        .deleteSurroundingText 0 1 0] ∧
      TextPathGuarantee typedPath :=
  ⟨rfl, textPathGuarantee_of_reachable
    (System.reachable_runNext (.start startedPath_initial) runNext_typedInWindow)⟩

end Wldroid.Compositor
