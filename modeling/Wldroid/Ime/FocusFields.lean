import Wldroid.Ime.Focus

/-!
# The two focus variables of the text-input handler

Which surface is focused for text input, and which surface the destroy listener is linked into,
after each operation of the handler and from any state whatever:

* `focusFields_clear`, `focusFields_enter`, `focusFields_surfaceDestroyed` — the three operations
  that move the focus;
* `focusFields_request`, `focusFields_dispatch` — requests of clients leave it alone, and the
  dispatch of an IME operation moves it only through the key fallback.
-/

namespace Wldroid.Ime

open Wldroid.Foundation

/-- The focused surface, and the surface the listener is linked into. -/
def Globals.focusFields (g : Globals) : Option ℕ × Option ℕ :=
  (g.focusedTextInputSurface, g.destroyListener)

@[simp] theorem focusFields_send (g : Globals) (o : Output) :
    (g.send o).focusFields = g.focusFields := rfl

@[simp] theorem focusFields_setActiveTextInput (g : Globals) (ti : Option TextInput) :
    (g.setActiveTextInput ti).focusFields = g.focusFields := rfl

@[simp] theorem focusFields_requestImeCommand (g : Globals) (cmd : Char) :
    (g.requestImeCommand cmd).focusFields = g.focusFields := by
  unfold Globals.requestImeCommand
  split <;> rfl

@[simp] theorem focusFields_requestImeHide (g : Globals) :
    g.requestImeHide.focusFields = g.focusFields := focusFields_requestImeCommand g 'H'

@[simp] theorem focusFields_requestImeShow (g : Globals) :
    g.requestImeShow.focusFields = g.focusFields := focusFields_requestImeCommand g 'S'

/-- A loop whose rounds leave the two variables alone leaves them alone. -/
theorem focusFields_forEach {body : Globals → TextInput → Globals × TextInput}
    (hbody : ∀ g ti, (body g ti).1.focusFields = g.focusFields) (g : Globals) (l : List TextInput) :
    (forEach body g l).1.focusFields = g.focusFields :=
  forEach_invariant (P := fun g' => g'.focusFields = g.focusFields)
    (fun g' ti _ h => (hbody g' ti).trans h) rfl

/-- Dropping the active object, if it is the one at an address. -/
theorem focusFields_drop (g : Globals) (self : ℕ) (enabled : Bool) :
    (if g.activeTextInput = some self then
        if enabled then (g.setActiveTextInput none).requestImeHide else g.setActiveTextInput none
      else g).focusFields = g.focusFields := by
  split
  · split <;> simp
  · rfl

theorem focusFields_maybeSendLeave (sendLeave : Bool) (g : Globals) (ti : TextInput) :
    (maybeSendLeave sendLeave g ti).1.focusFields = g.focusFields := by
  unfold maybeSendLeave
  split
  · refine (focusFields_drop _ ti.self ti.currentEnabled).trans ?_
    split
    · split <;> simp
    · rfl
  · rfl

theorem focusFields_clearOne (surface : Option ℕ) (sendLeave : Bool) (g : Globals)
    (ti : TextInput) : (clearOne surface sendLeave g ti).1.focusFields = g.focusFields := by
  unfold clearOne
  split
  · exact focusFields_maybeSendLeave sendLeave g ti
  · rfl

/-- **Clearing** drops the focus if it is on the surface, or on any surface when none is named. -/
theorem focusFields_clear (h : Handler) (surface : Option ℕ) (sendLeave : Bool) :
    (clearTextInputFocus h surface sendLeave).globals.focusFields =
      if surface = none ∨ h.globals.focusedTextInputSurface = surface then (none, none)
      else h.globals.focusFields := by
  have hloop : (forEach (clearOne surface sendLeave) h.globals h.textInputs).1.focusFields =
      h.globals.focusFields := focusFields_forEach (focusFields_clearOne surface sendLeave) _ _
  have hfocused : (forEach (clearOne surface sendLeave) h.globals
      h.textInputs).1.focusedTextInputSurface = h.globals.focusedTextInputSurface :=
    congrArg Prod.fst hloop
  unfold clearTextInputFocus
  simp only [hfocused]
  split
  · rfl
  · exact hloop

/-- **Entering** a surface puts the focus there. -/
theorem focusFields_enter (h : Handler) (surface : ℕ) :
    (textInputHandleKeyboardEnter h surface).globals.focusFields =
      if h.globals.focusedTextInputSurface = some surface then h.globals.focusFields
      else (some surface, some surface) := by
  unfold textInputHandleKeyboardEnter
  split
  · rfl
  · apply focusFields_forEach
    intro g ti
    unfold enterOne
    split <;> rfl

/-- A destroyed surface loses the focus if the listener is linked into it. -/
theorem focusFields_surfaceDestroyed (h : Handler) (surface : ℕ) :
    (surfaceDestroyed h surface).globals.focusFields =
      if h.globals.destroyListener = some surface ∧
          h.globals.focusedTextInputSurface = some surface then (none, none)
      else h.globals.focusFields := by
  unfold surfaceDestroyed
  by_cases hlistener : h.globals.destroyListener = some surface
  · simp only [hlistener, if_true, true_and, focusFields_send]
    rw [focusFields_clear]
    simp
  · simp [hlistener]

/-! ### Requests and dispatch -/

theorem focusFields_tiCommit (g : Globals) (ti : TextInput) :
    (tiCommit g ti).1.focusFields = g.focusFields := by
  unfold tiCommit
  split
  · simp only
    split
    · split <;> simp
    · split
      · split <;> simp
      · rfl
  · rfl

theorem focusFields_resourceDestroy (h : Handler) (self : ℕ) :
    (tiResourceDestroy h self).globals.focusFields = h.globals.focusFields := by
  unfold tiResourceDestroy
  split
  · exact focusFields_drop _ _ _
  · rfl

theorem focusFields_getTextInput (h : Handler) (client self : ℕ) :
    (managerGetTextInput h client self).globals.focusFields = h.globals.focusFields := by
  unfold managerGetTextInput
  simp only
  split
  · split <;> rfl
  · rfl

/-- Requests leave the focus alone. -/
theorem focusFields_request {h h' : Handler} {e : HandlerEvent} (hrequest : e.isRequest = true)
    (hnext : h.next e = some h') : h'.globals.focusFields = h.globals.focusFields := by
  cases e with
  | getTextInput client self =>
    simp only [Handler.next] at hnext
    split at hnext
    · exact Option.some.inj hnext ▸ focusFields_getTextInput h client self
    · simp at hnext
  | commit self =>
    rw [← Option.some.inj hnext]
    show (h.commit self).globals.focusFields = _
    unfold Handler.commit
    split
    · exact focusFields_tiCommit _ _
    · rfl
  | resourceDestroy self => exact Option.some.inj hnext ▸ focusFields_resourceDestroy h self
  | enable self | disable self | setSurroundingText self text cursor anchor copied | ignored self
  | setCursorRectangle self rectangle => exact Option.some.inj hnext ▸ rfl
  | surfaceCreated _ _ | surfaceDestroyed _ | keyboardEnter _ | keyboardLeave _ | dispatch _ _ =>
    cases hrequest

/-- A dispatch moves the focus only when it falls back to keys and a surface is due for them. -/
theorem focusFields_dispatch (h : Handler) (op : TextDispatch) (seat : Fallback) :
    (dispatch h op seat).globals.focusFields =
      match (if (fallbackKeys h op).isSome ∧ seat.keyboard then seat.target else none) with
      | some surface => (textInputHandleKeyboardEnter h surface).globals.focusFields
      | none => h.globals.focusFields := by
  rcases dispatch_cases h op seat with ⟨keys, hkeys, hdispatch⟩ | ⟨hkeys, log, hdispatch⟩
  · rw [hdispatch, hkeys, emitKeys]
    cases seat.keyboard with
    | false => rfl
    | true => cases seat.target <;> rfl
  · rw [hdispatch, hkeys]
    rfl

end Wldroid.Ime
