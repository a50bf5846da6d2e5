import Wldroid.Foundation.Keyed
import Wldroid.Ime.Queue
import Wldroid.Ime.DeleteBytes

/-!
# The text-input objects and the handler's globals

`struct text_input`, the file's static variables, and every operation on them: focus enter and
leave, the requests of the protocol, creation and destruction of objects, and the dispatch of the
operations the IME queued.  Pointers are addresses; everything sent to a client or to the IME pipe
is appended to a log.
-/

namespace Wldroid.Ime

open Wldroid.Foundation

/-! ### Objects -/

/-- A cursor rectangle. -/
structure Rectangle where
  x : ℤ
  y : ℤ
  width : ℤ
  height : ℤ
  deriving DecidableEq

/-- The rectangle `calloc` and the clear functions leave. -/
def Rectangle.zero : Rectangle := ⟨0, 0, 0, 0⟩

/-- `struct text_input`.  `self` is its address, `client` the client of its resource. -/
structure TextInput where
  self : ℕ
  resource : ℕ
  client : ℕ
  pendingEnabled : Bool
  currentEnabled : Bool
  serial : ℕ
  entered : Bool
  enteredSurface : Option ℕ
  surroundingText : Option CString
  surroundingCursor : ℤ
  surroundingAnchor : ℤ
  pendingSurroundingText : Option CString
  pendingSurroundingCursor : ℤ
  pendingSurroundingAnchor : ℤ
  pendingSurroundingTextSet : Bool
  pendingCursorRectangleSet : Bool
  pendingCursor : Rectangle
  cursorRectangleSet : Bool
  cursor : Rectangle
  deriving DecidableEq

namespace TextInput

/-- A zeroed object with its resource. -/
def fresh (self resource client : ℕ) : TextInput where
  self := self
  resource := resource
  client := client
  pendingEnabled := false
  currentEnabled := false
  serial := 0
  entered := false
  enteredSurface := none
  surroundingText := none
  surroundingCursor := 0
  surroundingAnchor := 0
  pendingSurroundingText := none
  pendingSurroundingCursor := 0
  pendingSurroundingAnchor := 0
  pendingSurroundingTextSet := false
  pendingCursorRectangleSet := false
  pendingCursor := Rectangle.zero
  cursorRectangleSet := false
  cursor := Rectangle.zero

/-- `clear_committed_surrounding_text_state`. -/
def clearCommittedSurroundingTextState (ti : TextInput) : TextInput :=
  { ti with surroundingText := none, surroundingCursor := 0, surroundingAnchor := 0 }

/-- `clear_surrounding_text_state`. -/
def clearSurroundingTextState (ti : TextInput) : TextInput :=
  { ti.clearCommittedSurroundingTextState with
    pendingSurroundingText := none
    pendingSurroundingCursor := 0
    pendingSurroundingAnchor := 0
    pendingSurroundingTextSet := false }

/-- `clear_pending_text_input_state`. -/
def clearPendingTextInputState (ti : TextInput) : TextInput :=
  { ti with
    pendingEnabled := false
    pendingCursorRectangleSet := false
    pendingCursor := Rectangle.zero }

/-- `clear_committed_text_input_state`. -/
def clearCommittedTextInputState (ti : TextInput) : TextInput :=
  { ti with currentEnabled := false, cursorRectangleSet := false, cursor := Rectangle.zero }

/-- `reset_text_input_request_state`. -/
def resetTextInputRequestState (ti : TextInput) : TextInput :=
  ti.clearPendingTextInputState.clearCommittedTextInputState.clearSurroundingTextState

end TextInput

/-! ### Globals -/

/-- What leaves the handler: protocol events to a resource, requests to the IME pipe, keys of the
fallback; and the destruction of a surface, which the clients see too. -/
inductive Output where
  | enter (resource surface : ℕ)
  | leave (resource surface : ℕ)
  | commitString (resource : ℕ) (text : CString)
  | deleteSurroundingText (resource beforeBytes afterBytes : ℕ)
  | done (resource serial : ℕ)
  | imeRequest (cmd : Char)
  | syntheticKeys (text : CString)
  | deleteKeys (beforeLength afterLength : ℕ)
  | surfaceDestroyed (surface : ℕ)

/-- The static variables other than the list of objects. -/
structure Globals where
  activeTextInput : Option ℕ
  activeTextInputCommitted : Bool
  focusedTextInputSurface : Option ℕ
  /-- The surface whose destroy signal the listener is linked into. -/
  destroyListener : Option ℕ
  /-- `g_text_input_server` is set. -/
  textInputServer : Bool
  /-- Everything sent so far. -/
  log : List Output

namespace Globals

/-- Append to the log. -/
def send (g : Globals) (o : Output) : Globals := { g with log := g.log ++ [o] }

/-- `set_active_text_input`. -/
def setActiveTextInput (g : Globals) (ti : Option TextInput) : Globals :=
  { g with
    activeTextInput := ti.map TextInput.self
    activeTextInputCommitted := ti.any TextInput.currentEnabled }

/-- `request_ime_command`, when the server is known. -/
def requestImeCommand (g : Globals) (cmd : Char) : Globals :=
  if g.textInputServer then g.send (.imeRequest cmd) else g

/-- `request_ime_show`. -/
def requestImeShow (g : Globals) : Globals := g.requestImeCommand 'S'

/-- `request_ime_hide`. -/
def requestImeHide (g : Globals) : Globals := g.requestImeCommand 'H'

end Globals

/-- The globals, the list of objects, the live surfaces with their clients, and the next resource
number. -/
structure Handler where
  globals : Globals
  textInputs : List TextInput
  surfaces : ℕ → Option ℕ
  nextResource : ℕ

/-- `wl_list_for_each` over the objects with a body that updates the globals and the object. -/
def forEach (body : Globals → TextInput → Globals × TextInput) :
    Globals → List TextInput → Globals × List TextInput
  | g, [] => (g, [])
  | g, ti :: rest =>
      let one := body g ti
      let others := forEach body one.1 rest
      (others.1, one.2 :: others.2)

/-! ### Focus -/

/-- `maybe_send_leave`. -/
def maybeSendLeave (sendLeave : Bool) (g : Globals) (ti : TextInput) : Globals × TextInput :=
  if ti.entered then
    let g := match ti.enteredSurface with
      | some surface => if sendLeave then g.send (.leave ti.resource surface) else g
      | none => g
    let g :=
      if g.activeTextInput = some ti.self then
        let g := g.setActiveTextInput none
        if ti.currentEnabled then g.requestImeHide else g
      else g
    (g, { ti with entered := false, enteredSurface := none }.resetTextInputRequestState)
  else (g, ti)

/-- The loop body of `clear_text_input_focus`; no surface stands for every surface. -/
def clearOne (surface : Option ℕ) (sendLeave : Bool) (g : Globals) (ti : TextInput) :
    Globals × TextInput :=
  if ti.entered ∧ (surface = none ∨ ti.enteredSurface = surface) then maybeSendLeave sendLeave g ti
  else (g, ti)

/-- `clear_text_input_focus`. -/
def clearTextInputFocus (h : Handler) (surface : Option ℕ) (sendLeave : Bool) : Handler :=
  let loop := forEach (clearOne surface sendLeave) h.globals h.textInputs
  let g := loop.1
  { h with
    globals :=
      if surface = none ∨ g.focusedTextInputSurface = surface then
        { g with focusedTextInputSurface := none, destroyListener := none }
      else g
    textInputs := loop.2 }

/-- `text_input_handle_keyboard_leave`. -/
def textInputHandleKeyboardLeave (h : Handler) (surface : Option ℕ) : Handler :=
  clearTextInputFocus h surface true

/-- The loop body of `text_input_handle_keyboard_enter`. -/
def enterOne (surfaces : ℕ → Option ℕ) (surface : ℕ) (g : Globals) (ti : TextInput) :
    Globals × TextInput :=
  if surfaces surface = some ti.client then
    (g.send (.enter ti.resource surface),
      { ti.resetTextInputRequestState with entered := true, enteredSurface := some surface })
  else (g, ti)

/-- `text_input_handle_keyboard_enter`. -/
def textInputHandleKeyboardEnter (h : Handler) (surface : ℕ) : Handler :=
  if h.globals.focusedTextInputSurface = some surface then h
  else
    let h := clearTextInputFocus h none true
    let g := { h.globals with
      focusedTextInputSurface := some surface
      destroyListener := some surface }
    let loop := forEach (enterOne h.surfaces surface) g h.textInputs
    { h with globals := loop.1, textInputs := loop.2 }

/-- A surface goes away: its destroy signal runs the listener if that is linked there. -/
def surfaceDestroyed (h : Handler) (surface : ℕ) : Handler :=
  let h' :=
    if h.globals.destroyListener = some surface then clearTextInputFocus h (some surface) false
    else h
  { h' with
    globals := h'.globals.send (.surfaceDestroyed surface)
    surfaces := Function.update h'.surfaces surface none }

/-! ### Requests -/

/-- Run a request on the object at an address; a request to a destroyed object does nothing. -/
def Handler.modify (h : Handler) (self : ℕ) (f : TextInput → TextInput) : Handler :=
  { h with textInputs := update TextInput.self self f h.textInputs }

/-- `ti_enable`. -/
def tiEnable (ti : TextInput) : TextInput :=
  if ti.entered then { ti.clearCommittedSurroundingTextState with pendingEnabled := true } else ti

/-- `ti_disable`. -/
def tiDisable (ti : TextInput) : TextInput :=
  if ti.entered then { ti.clearCommittedSurroundingTextState with pendingEnabled := false } else ti

/-- `(int32_t)len`. -/
def int32OfSize (len : ℕ) : ℤ := Int.bmod len (2 ^ 32)

/-- The clamping of `ti_set_surrounding_text`. -/
def clampCursor (cursor : ℤ) (len : ℕ) : ℤ :=
  if cursor < 0 then 0 else if cursor > int32OfSize len then int32OfSize len else cursor

/-- `ti_set_surrounding_text`; `copied` tells whether the copy of the text could be allocated. -/
def tiSetSurroundingText (text : Option CString) (cursor anchor : ℤ) (copied : Bool)
    (ti : TextInput) : TextInput :=
  if ti.entered ∧ copied then
    let copy := text.getD CString.empty
    { ti with
      pendingSurroundingText := some copy
      pendingSurroundingCursor := clampCursor cursor copy.strlen
      pendingSurroundingAnchor := clampCursor anchor copy.strlen
      pendingSurroundingTextSet := true }
  else ti

/-- `ti_set_cursor_rectangle`. -/
def tiSetCursorRectangle (rectangle : Rectangle) (ti : TextInput) : TextInput :=
  if ti.entered then { ti with pendingCursorRectangleSet := true, pendingCursor := rectangle }
  else ti

/-- The part of `ti_commit` that moves the pending surrounding text into place. -/
def TextInput.applySurroundingText (ti : TextInput) : TextInput :=
  if ti.pendingSurroundingTextSet then
    { ti with
      surroundingText := ti.pendingSurroundingText
      surroundingCursor := ti.pendingSurroundingCursor
      surroundingAnchor := ti.pendingSurroundingAnchor
      pendingSurroundingText := none
      pendingSurroundingCursor := 0
      pendingSurroundingAnchor := 0
      pendingSurroundingTextSet := false }
  else ti

/-- The part of `ti_commit` that moves the pending cursor rectangle into place. -/
def TextInput.applyCursorRectangle (ti : TextInput) : TextInput :=
  if ti.pendingCursorRectangleSet then
    { ti with
      cursorRectangleSet := true
      cursor := ti.pendingCursor
      pendingCursorRectangleSet := false }
  else ti

/-- `ti_commit`. -/
def tiCommit (g : Globals) (ti : TextInput) : Globals × TextInput :=
  if ti.entered then
    let wasEnabled := ti.currentEnabled
    let wasActive := g.activeTextInput = some ti.self
    let ti := { ti with serial := (ti.serial + 1) % 2 ^ 32, currentEnabled := ti.pendingEnabled }
    let ti := ti.applySurroundingText
    if ti.currentEnabled then
      let g := g.setActiveTextInput (some ti)
      (if wasEnabled then g else g.requestImeShow, ti.applyCursorRectangle)
    else
      let g :=
        if wasActive then
          let g := g.setActiveTextInput none
          if wasEnabled then g.requestImeHide else g
        else g
      (g, ti.clearSurroundingTextState.applyCursorRectangle)
  else (g, ti.clearPendingTextInputState.clearSurroundingTextState)

/-- The object at an address. -/
def Handler.find (h : Handler) (self : ℕ) : Option TextInput :=
  lookup TextInput.self self h.textInputs

/-- `ti_commit` on the object at an address. -/
def Handler.commit (h : Handler) (self : ℕ) : Handler :=
  match h.find self with
  | some ti =>
      { h.modify self fun _ => (tiCommit h.globals ti).2 with globals := (tiCommit h.globals ti).1 }
  | none => h

/-- `ti_resource_destroy`. -/
def tiResourceDestroy (h : Handler) (self : ℕ) : Handler :=
  match h.find self with
  | some ti =>
      let g := h.globals
      { h with
        globals :=
          if g.activeTextInput = some self then
            let g := g.setActiveTextInput none
            if ti.currentEnabled then g.requestImeHide else g
          else g
        textInputs := remove TextInput.self self h.textInputs }
  | none => h

/-- `manager_get_text_input`, when the object could be allocated at `self`. -/
def managerGetTextInput (h : Handler) (client self : ℕ) : Handler :=
  let ti := TextInput.fresh self h.nextResource client
  let h := { h with nextResource := h.nextResource + 1 }
  match h.globals.focusedTextInputSurface with
  | some surface =>
      if h.surfaces surface = some client then
        { h with
          globals := h.globals.send (.enter ti.resource surface)
          textInputs :=
            { ti with entered := true, enteredSurface := some surface } :: h.textInputs }
      else { h with textInputs := ti :: h.textInputs }
  | none => { h with textInputs := ti :: h.textInputs }

/-! ### Dispatch of IME operations -/

/-- `text_input_delete_byte_counts`: nothing without a committed surrounding text. -/
def textInputDeleteByteCounts (ti : TextInput) (beforeLength afterLength : ℕ) (codePoints : Bool) :
    Option (ℕ × ℕ) :=
  ti.surroundingText.map fun text =>
    let cursor := if ti.surroundingCursor < 0 then 0 else ti.surroundingCursor.toNat
    let cursor := min cursor text.strlen
    (utf8DeleteBytesBefore text cursor beforeLength codePoints,
      utf8DeleteBytesAfter text cursor afterLength codePoints)

/-- The active object, if it is enabled. -/
def Handler.activeEnabled (h : Handler) : Option TextInput :=
  (h.globals.activeTextInput.bind h.find).filter TextInput.currentEnabled

/-- What the rest of the compositor contributes to the key fallback: whether there is a keyboard,
and the surface `ensure_keyboard_focus` gives the focus to, if it gives it to any. -/
structure Fallback where
  keyboard : Bool
  target : Option ℕ

/-- Append to the handler's log. -/
def Handler.send (h : Handler) (o : Output) : Handler := { h with globals := h.globals.send o }

/-- `emit_synthetic_keys` and `emit_delete_keys`: focus some surface, then send the keys. -/
def emitKeys (h : Handler) (seat : Fallback) (keys : Output) : Handler :=
  if seat.keyboard then
    match seat.target with
    | some surface => (textInputHandleKeyboardEnter h surface).send keys
    | none => h.send keys
  else h

/-- `dispatch_commit_text`. -/
def dispatchCommitText (h : Handler) (text : Option CString) (seat : Fallback) : Handler :=
  match text with
  | none => h
  | some text =>
      if text.bytes = [] then h
      else
        match h.activeEnabled with
        | some ti => (h.send (.commitString ti.resource text)).send (.done ti.resource ti.serial)
        | none => emitKeys h seat (.syntheticKeys text)

/-- `dispatch_delete_surrounding_text`. -/
def dispatchDeleteSurroundingText (h : Handler) (beforeLength afterLength : ℕ) (codePoints : Bool)
    (seat : Fallback) : Handler :=
  let before := clampDeleteCount beforeLength
  let after := clampDeleteCount afterLength
  if before = 0 ∧ after = 0 then h
  else
    match h.activeEnabled with
    | some ti =>
        match textInputDeleteByteCounts ti before after codePoints with
        | some (beforeBytes, afterBytes) =>
            if beforeBytes = 0 ∧ afterBytes = 0 then h
            else
              (h.send (.deleteSurroundingText ti.resource beforeBytes afterBytes)).send
                (.done ti.resource ti.serial)
        | none => emitKeys h seat (.deleteKeys before after)
    | none => emitKeys h seat (.deleteKeys before after)

/-- The keys an operation falls back to: those of text or a deletion that no active object takes. -/
def fallbackKeys (h : Handler) : TextDispatch → Option Output
  | .commitText none => none
  | .commitText (some text) =>
      if text.bytes = [] ∨ h.activeEnabled.isSome then none else some (.syntheticKeys text)
  | .deleteSurroundingText beforeLength afterLength _ =>
      let before := clampDeleteCount beforeLength
      let after := clampDeleteCount afterLength
      if before = 0 ∧ after = 0 ∨ (h.activeEnabled.bind TextInput.surroundingText).isSome then none
      else some (.deleteKeys before after)

/-- The event loop's dispatch of one queued operation. -/
def dispatch (h : Handler) (op : TextDispatch) (seat : Fallback) : Handler :=
  match op with
  | .commitText text => dispatchCommitText h text seat
  | .deleteSurroundingText before after codePoints =>
      dispatchDeleteSurroundingText h before after codePoints seat

/-- Byte counts exist exactly when there is a committed surrounding text. -/
theorem isSome_textInputDeleteByteCounts (ti : TextInput) (before after : ℕ) (codePoints : Bool) :
    (textInputDeleteByteCounts ti before after codePoints).isSome = ti.surroundingText.isSome := by
  unfold textInputDeleteByteCounts
  rw [Option.isSome_map]

/-- A dispatch either emits its fallback keys, or only adds to the log. -/
theorem dispatch_cases (h : Handler) (op : TextDispatch) (seat : Fallback) :
    (∃ keys, fallbackKeys h op = some keys ∧ dispatch h op seat = emitKeys h seat keys) ∨
    (fallbackKeys h op = none ∧ ∃ log, dispatch h op seat =
      { h with globals := { h.globals with log := log } }) := by
  cases op with
  | commitText text =>
    cases text with
    | none => exact .inr ⟨rfl, h.globals.log, rfl⟩
    | some text =>
      by_cases hempty : text.bytes = []
      · exact .inr ⟨by simp [fallbackKeys, hempty], h.globals.log, by
          simp [dispatch, dispatchCommitText, hempty]⟩
      · cases hactive : h.activeEnabled with
        | none =>
          refine .inl ⟨.syntheticKeys text, ?_, ?_⟩
          · simp [fallbackKeys, hempty, hactive]
          · simp [dispatch, dispatchCommitText, hempty, hactive]
        | some ti =>
          refine .inr ⟨by simp [fallbackKeys, hactive], ?_⟩
          simp only [dispatch, dispatchCommitText, hempty, hactive, if_false]
          exact ⟨_, rfl⟩
  | deleteSurroundingText before after codePoints =>
    by_cases hzero : clampDeleteCount before = 0 ∧ clampDeleteCount after = 0
    · refine .inr ⟨by simp [fallbackKeys, hzero], h.globals.log, ?_⟩
      simp [dispatch, dispatchDeleteSurroundingText, hzero]
    · cases hactive : h.activeEnabled with
      | none =>
        refine .inl ⟨.deleteKeys (clampDeleteCount before) (clampDeleteCount after), ?_, ?_⟩
        · simp [fallbackKeys, hzero, hactive]
        · simp [dispatch, dispatchDeleteSurroundingText, hzero, hactive]
      | some ti =>
        have hsome := isSome_textInputDeleteByteCounts ti (clampDeleteCount before)
          (clampDeleteCount after) codePoints
        cases hcounts : textInputDeleteByteCounts ti (clampDeleteCount before)
            (clampDeleteCount after) codePoints with
        | none =>
          rw [hcounts] at hsome
          have htext : ti.surroundingText = none := by simpa using hsome.symm
          refine .inl ⟨.deleteKeys (clampDeleteCount before) (clampDeleteCount after), ?_, ?_⟩
          · simp [fallbackKeys, hzero, hactive, htext]
          · simp [dispatch, dispatchDeleteSurroundingText, hzero, hactive, hcounts]
        | some counts =>
          rw [hcounts] at hsome
          refine .inr ⟨by simp [fallbackKeys, hactive, ← hsome], ?_⟩
          simp only [dispatch, dispatchDeleteSurroundingText, hzero, hactive, hcounts, if_false]
          split
          · exact ⟨h.globals.log, rfl⟩
          · exact ⟨_, rfl⟩

end Wldroid.Ime
