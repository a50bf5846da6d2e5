import Mathlib.Data.List.ReduceOption
import Wldroid.Ime.DeleteCounts
import Wldroid.Ime.Focus

/-!
# What becomes of the operations of the IME

Text and deletions leave the handler through the protocol or as keys, between focus events and
requests to the IME.

* `textual` — the text and the deletions of a log;
* `outcome` — what a dispatched operation is turned into;
* `textual_next` — an event of the handler adds what its dispatch is turned into, and nothing else;
* `Dispatched` — an operation, and the state it is dispatched in;
* `Answers` — what an operation has to be turned into in a state of the handler; with a keyboard it
  is, by `answers_outcome`.
-/

namespace Wldroid.Ime

open Wldroid.Foundation

/-- Text or a deletion, to a client or as keys. -/
def Output.isTextual : Output → Bool
  | .commitString _ _ | .deleteSurroundingText _ _ _ | .syntheticKeys _ | .deleteKeys _ _ => true
  | .enter _ _ | .leave _ _ | .done _ _ | .imeRequest _ | .surfaceDestroyed _ => false

/-- The text and the deletions of a log. -/
def textual (log : List Output) : List Output := log.filter Output.isTextual

/-- No text has been added. -/
def AddsNone (g g' : Globals) : Prop := textual g'.log = textual g.log

theorem textual_send (g : Globals) (o : Output) :
    textual (g.send o).log = textual g.log ++ textual [o] :=
  List.filter_append ..

theorem addsNone_send (g : Globals) {o : Output} (ho : o.isTextual = false) :
    AddsNone g (g.send o) := by
  have hnone : textual [o] = [] := List.filter_cons_of_neg (by rw [ho]; decide)
  unfold AddsNone
  rw [textual_send, hnone, List.append_nil]

theorem addsNone_requestImeCommand (g : Globals) (cmd : Char) :
    AddsNone g (g.requestImeCommand cmd) := by
  unfold Globals.requestImeCommand
  split
  · exact addsNone_send g rfl
  · rfl

/-- An object stops being the active one. -/
theorem addsNone_drop (g : Globals) (self : ℕ) (enabled : Bool) :
    AddsNone g (if g.activeTextInput = some self then
        if enabled then (g.setActiveTextInput none).requestImeHide else g.setActiveTextInput none
      else g) := by
  split
  · split
    · exact addsNone_requestImeCommand (g.setActiveTextInput none) 'H'
    · rfl
  · rfl

/-! ### Focus and requests -/

theorem addsNone_clearOne (surface : Option ℕ) (sendLeave : Bool) (g : Globals) (ti : TextInput) :
    AddsNone g (clearOne surface sendLeave g ti).1 := by
  unfold clearOne
  split
  · unfold maybeSendLeave
    split
    · refine (addsNone_drop _ ti.self ti.currentEnabled).trans ?_
      cases ti.enteredSurface with
      | none => rfl
      | some surface =>
        cases sendLeave with
        | true => exact addsNone_send g rfl
        | false => rfl
    · rfl
  · rfl

theorem addsNone_clearTextInputFocus (h : Handler) (surface : Option ℕ) (sendLeave : Bool) :
    AddsNone h.globals (clearTextInputFocus h surface sendLeave).globals := by
  have hloop :
      AddsNone h.globals (forEach (clearOne surface sendLeave) h.globals h.textInputs).1 := by
    apply forEach_invariant (P := AddsNone h.globals)
    · intro g ti _ hg
      exact (addsNone_clearOne surface sendLeave g ti).trans hg
    · rfl
  unfold clearTextInputFocus
  simp only
  split
  · exact hloop
  · exact hloop

theorem addsNone_enter (h : Handler) (surface : ℕ) :
    AddsNone h.globals (textInputHandleKeyboardEnter h surface).globals := by
  unfold textInputHandleKeyboardEnter
  split
  · rfl
  · apply forEach_invariant (P := AddsNone h.globals)
    · intro g ti _ hg
      refine Eq.trans ?_ hg
      unfold enterOne
      split
      · exact addsNone_send g rfl
      · rfl
    · exact addsNone_clearTextInputFocus h none true

theorem addsNone_surfaceDestroyed (h : Handler) (surface : ℕ) :
    AddsNone h.globals (surfaceDestroyed h surface).globals := by
  unfold surfaceDestroyed
  refine (addsNone_send _ rfl).trans ?_
  split
  · exact addsNone_clearTextInputFocus h (some surface) false
  · rfl

theorem addsNone_tiCommit (g : Globals) (ti : TextInput) : AddsNone g (tiCommit g ti).1 := by
  unfold tiCommit
  split
  · simp only
    split
    · split
      · rfl
      · exact addsNone_requestImeCommand (g.setActiveTextInput _) 'S'
    · split
      · split
        · exact addsNone_requestImeCommand (g.setActiveTextInput none) 'H'
        · rfl
      · rfl
  · rfl

theorem addsNone_commit (h : Handler) (self : ℕ) : AddsNone h.globals (h.commit self).globals := by
  unfold Handler.commit
  split
  · exact addsNone_tiCommit _ _
  · rfl

theorem addsNone_tiResourceDestroy (h : Handler) (self : ℕ) :
    AddsNone h.globals (tiResourceDestroy h self).globals := by
  unfold tiResourceDestroy
  split
  · exact addsNone_drop _ _ _
  · rfl

theorem addsNone_managerGetTextInput (h : Handler) (client self : ℕ) :
    AddsNone h.globals (managerGetTextInput h client self).globals := by
  unfold managerGetTextInput
  simp only
  split
  · split
    · exact addsNone_send h.globals rfl
    · rfl
  · rfl

/-! ### Dispatch -/

/-- Keys, if there is a keyboard. -/
def Fallback.keys (seat : Fallback) (keys : Output) : Option Output :=
  if seat.keyboard then some keys else none

/-- What a dispatched operation is turned into. -/
def outcome (h : Handler) (seat : Fallback) : TextDispatch → Option Output
  | .commitText none => none
  | .commitText (some text) =>
      if text.bytes = [] then none
      else
        match h.activeEnabled with
        | some ti => some (.commitString ti.resource text)
        | none => seat.keys (.syntheticKeys text)
  | .deleteSurroundingText beforeLength afterLength codePoints =>
      let before := clampDeleteCount beforeLength
      let after := clampDeleteCount afterLength
      if before = 0 ∧ after = 0 then none
      else
        match h.activeEnabled with
        | some ti =>
            match textInputDeleteByteCounts ti before after codePoints with
            | some (beforeBytes, afterBytes) =>
                if beforeBytes = 0 ∧ afterBytes = 0 then none
                else some (.deleteSurroundingText ti.resource beforeBytes afterBytes)
            | none => seat.keys (.deleteKeys before after)
        | none => seat.keys (.deleteKeys before after)

theorem textual_emitKeys (h : Handler) (seat : Fallback) {keys : Output}
    (hkeys : keys.isTextual = true) :
    textual (emitKeys h seat keys).globals.log =
      textual h.globals.log ++ (seat.keys keys).toList := by
  have hone : textual [keys] = [keys] := List.filter_cons_of_pos hkeys
  unfold emitKeys Fallback.keys
  split
  · split
    · rename_i surface _
      show textual ((textInputHandleKeyboardEnter h surface).globals.send keys).log = _
      rw [textual_send, addsNone_enter h surface, hone]
      rfl
    · show textual (h.globals.send keys).log = _
      rw [textual_send, hone]
      rfl
  · exact (List.append_nil _).symm

/-- Text to a client, with its done event. -/
theorem textual_answered (h : Handler) {o : Output} (ho : o.isTextual = true) (ti : TextInput) :
    textual ((h.send o).send (.done ti.resource ti.serial)).globals.log =
      textual h.globals.log ++ [o] := by
  have hone : textual [o] = [o] := List.filter_cons_of_pos ho
  show textual ((h.globals.send o).send (.done ti.resource ti.serial)).log = _
  rw [addsNone_send (h.globals.send o) (o := .done ti.resource ti.serial) rfl, textual_send, hone]

/-- A dispatch adds what its operation is turned into. -/
theorem textual_dispatch (h : Handler) (op : TextDispatch) (seat : Fallback) :
    textual (dispatch h op seat).globals.log =
      textual h.globals.log ++ (outcome h seat op).toList := by
  cases op with
  | commitText text =>
    cases text with
    | none => exact (List.append_nil _).symm
    | some text =>
      simp only [dispatch, dispatchCommitText, outcome]
      split
      · exact (List.append_nil _).symm
      · cases h.activeEnabled with
        | none => exact textual_emitKeys h seat rfl
        | some ti => exact textual_answered h rfl ti
  | deleteSurroundingText before after codePoints =>
    simp only [dispatch, dispatchDeleteSurroundingText, outcome]
    split
    · exact (List.append_nil _).symm
    · cases h.activeEnabled with
      | none => exact textual_emitKeys h seat rfl
      | some ti =>
        simp only
        cases textInputDeleteByteCounts ti (clampDeleteCount before) (clampDeleteCount after)
            codePoints with
        | none => exact textual_emitKeys h seat rfl
        | some counts =>
          simp only
          split
          · exact (List.append_nil _).symm
          · exact textual_answered h rfl ti

/-- What an event of the handler adds. -/
def added (h : Handler) : HandlerEvent → Option Output
  | .dispatch op seat => outcome h seat op
  | _ => none

/-- **An event adds what its dispatch is turned into, and no other text.** -/
theorem textual_next {h h' : Handler} {e : HandlerEvent} (hstep : h.next e = some h') :
    textual h'.globals.log = textual h.globals.log ++ (added h e).toList := by
  have hsame : ∀ {g : Globals}, AddsNone h.globals g →
      textual g.log = textual h.globals.log ++ [] :=
    fun hg => hg.trans (List.append_nil _).symm
  cases e with
  | dispatch op seat =>
    simp only [Handler.next] at hstep
    split at hstep
    · exact Option.some.inj hstep ▸ textual_dispatch h op seat
    · cases hstep
  | surfaceCreated surface client =>
    simp only [Handler.next] at hstep
    split at hstep
    · exact Option.some.inj hstep ▸ hsame rfl
    · cases hstep
  | surfaceDestroyed surface =>
    simp only [Handler.next] at hstep
    split at hstep
    · exact Option.some.inj hstep ▸ hsame (addsNone_surfaceDestroyed h surface)
    · cases hstep
  | keyboardEnter surface =>
    simp only [Handler.next] at hstep
    split at hstep
    · exact Option.some.inj hstep ▸ hsame (addsNone_enter h surface)
    · cases hstep
  | keyboardLeave surface =>
    exact Option.some.inj hstep ▸ hsame (addsNone_clearTextInputFocus h surface true)
  | getTextInput client self =>
    simp only [Handler.next] at hstep
    split at hstep
    · exact Option.some.inj hstep ▸ hsame (addsNone_managerGetTextInput h client self)
    · cases hstep
  | commit self => exact Option.some.inj hstep ▸ hsame (addsNone_commit h self)
  | resourceDestroy self => exact Option.some.inj hstep ▸ hsame (addsNone_tiResourceDestroy h self)
  | enable _ | disable _ | setSurroundingText _ _ _ _ _ | ignored _ | setCursorRectangle _ _ =>
    exact Option.some.inj hstep ▸ hsame rfl

/-! ### What an operation has to be turned into -/

/-- An operation, with the handler and the seat as they are when it is dispatched. -/
structure Dispatched where
  handler : Handler
  seat : Fallback
  op : TextDispatch

/-- What it is turned into. -/
def Dispatched.outcome (d : Dispatched) : Option Output := Ime.outcome d.handler d.seat d.op

/-- With a keyboard: text goes unchanged to the active object, or as keys if there is none; a
deletion goes to the active object as bytes around the cursor of the text this has shown, where
there is anything to delete, and as keys if there is no such object or it has shown no text. -/
inductive Answers (h : Handler) : TextDispatch → Option Output → Prop where
  | committed {ti : TextInput} (active : h.activeEnabled = some ti) (text : CString) :
      Answers h (.commitText (some text)) (some (.commitString ti.resource text))
  | typed (active : h.activeEnabled = none) (text : CString) :
      Answers h (.commitText (some text)) (some (.syntheticKeys text))
  | deleted {ti : TextInput} {shown : CString} (active : h.activeEnabled = some ti)
      (hshown : ti.surroundingText = some shown) (before after : ℕ) (codePoints : Bool)
      (something : ¬ (utf8DeleteBytesBefore shown (clampedCursor ti shown) before codePoints = 0 ∧
        utf8DeleteBytesAfter shown (clampedCursor ti shown) after codePoints = 0)) :
      Answers h (.deleteSurroundingText before after codePoints)
        (some (.deleteSurroundingText ti.resource
          (utf8DeleteBytesBefore shown (clampedCursor ti shown) before codePoints)
          (utf8DeleteBytesAfter shown (clampedCursor ti shown) after codePoints)))
  | nothingThere {ti : TextInput} {shown : CString} (active : h.activeEnabled = some ti)
      (hshown : ti.surroundingText = some shown) (before after : ℕ) (codePoints : Bool)
      (nothing : utf8DeleteBytesBefore shown (clampedCursor ti shown) before codePoints = 0 ∧
        utf8DeleteBytesAfter shown (clampedCursor ti shown) after codePoints = 0) :
      Answers h (.deleteSurroundingText before after codePoints) none
  | erased (active : h.activeEnabled.bind TextInput.surroundingText = none) (before after : ℕ)
      (codePoints : Bool) :
      Answers h (.deleteSurroundingText before after codePoints) (some (.deleteKeys before after))

/-- **With a keyboard no request of the IME is dropped**: what a request asks for is answered,
whatever object is active and wherever the focus is. -/
theorem answers_outcome (h : Handler) (seat : Fallback) (hkeyboard : seat.keyboard = true)
    {req : TextRequest} (hreq : req.isEmpty = false) :
    Answers h req.expected (outcome h seat req.expected) := by
  have hkeys : ∀ keys, seat.keys keys = some keys := fun keys => if_pos hkeyboard
  have hdelete : ∀ (before after : ℕ) (codePoints : Bool), (before == 0 && after == 0) = false →
      Answers h (.deleteSurroundingText (min before 256) (min after 256) codePoints)
        (outcome h seat (.deleteSurroundingText (min before 256) (min after 256) codePoints)) := by
    intro before after codePoints hsome
    have hclamp : ∀ n, clampDeleteCount (min n 256) = min n 256 := by
      intro n
      rw [clampDeleteCount_eq_min, deleteSurroundingMaxCount]
      omega
    have hcounts : ¬ (min before 256 = 0 ∧ min after 256 = 0) := by
      rintro ⟨hbefore, hafter⟩
      have hzero : before = 0 ∧ after = 0 := by omega
      rw [hzero.1, hzero.2] at hsome
      cases hsome
    simp only [outcome, hclamp, if_neg hcounts, hkeys]
    cases hactive : h.activeEnabled with
    | none => exact .erased (by rw [hactive, Option.bind_none]) _ _ _
    | some ti =>
      simp only
      cases hshown : ti.surroundingText with
      | none =>
        have hnone : textInputDeleteByteCounts ti (min before 256) (min after 256) codePoints =
            none := by
          rw [textInputDeleteByteCounts, hshown, Option.map_none]
        rw [hnone]
        exact .erased (by rw [hactive, Option.bind_some, hshown]) _ _ _
      | some shown =>
        rw [textInputDeleteByteCounts_eq hshown]
        simp only
        split
        · exact .nothingThere hactive hshown _ _ _ ‹_›
        · exact .deleted hactive hshown _ _ _ ‹_›
  cases req with
  | commitText text =>
    have htext : text.bytes ≠ [] := fun hnil => by simp [TextRequest.isEmpty, hnil] at hreq
    simp only [TextRequest.expected, outcome, if_neg htext, hkeys]
    cases hactive : h.activeEnabled with
    | none => exact .typed hactive text
    | some ti => exact .committed hactive text
  | deleteSurroundingText before after => exact hdelete before after false hreq
  | deleteSurroundingTextInCodePoints before after => exact hdelete before after true hreq

/-- The text of an operation. -/
def TextDispatch.text : TextDispatch → Option CString
  | .commitText text => text
  | .deleteSurroundingText _ _ _ => none

/-- The text that leaves, to a client or as keys. -/
def Output.text : Output → Option CString
  | .commitString _ text | .syntheticKeys text => some text
  | .deleteSurroundingText _ _ _ | .deleteKeys _ _ | .enter _ _ | .leave _ _ | .done _ _ |
      .imeRequest _ | .surfaceDestroyed _ => none

theorem Answers.text_eq {h : Handler} {op : TextDispatch} {o : Option Output}
    (hanswer : Answers h op o) : o.bind Output.text = op.text := by
  cases hanswer with
  | committed active text => rfl
  | typed active text => rfl
  | deleted active hshown before after codePoints something => rfl
  | nothingThere active hshown before after codePoints nothing => rfl
  | erased active before after codePoints => rfl

/-- Operations that are all answered leave their texts, each once and in their order. -/
theorem texts_of_answers {dispatches : List Dispatched} {outcomes : List (Option Output)}
    (h : List.Forall₂ (fun d => Answers d.handler d.op) dispatches outcomes) :
    outcomes.reduceOption.filterMap Output.text =
      (dispatches.map Dispatched.op).filterMap TextDispatch.text := by
  induction h with
  | nil => rfl
  | @cons d o dispatches outcomes hanswer _ ih =>
    have htext := hanswer.text_eq
    rw [List.map_cons, List.filterMap_cons, ← htext, ← ih]
    cases o with
    | none => rw [List.reduceOption_cons_of_none, Option.bind_none]
    | some o => rw [List.reduceOption_cons_of_some, List.filterMap_cons, Option.bind_some]

end Wldroid.Ime
