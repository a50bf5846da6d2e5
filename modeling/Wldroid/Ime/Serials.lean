import Wldroid.Ime.Focus

/-!
# Serials: what a done event says about the commits of its object

The handler's events with a count of the commit requests each object has been sent.  A commit that
finds its object outside the focus returns before the serial is counted up.

* **`Counted`** — the handler, the commits issued on every object, those of them that found it
  outside, and every done event sent with the counts of that moment;
* **`CountInv.serial_eq`** — the serial of an object is the number of its commits less the ignored
  ones, as a 32-bit number;
* **`dones_next`** — an event sends exactly the done event `answer` says;
* **`countsCommits_iff_noneIgnored`** — every done event of a run carries the number of commits
  exactly when no answered object had a commit ignored before.
-/

namespace Wldroid.Ime

open Wldroid.Foundation

/-! ### Done events -/

/-- The done events of a log, as resource and serial. -/
def dones (log : List Output) : List (ℕ × ℕ) :=
  log.filterMap fun
    | .done resource serial => some (resource, serial)
    | _ => none

/-- The object an operation is answered on with a done event, if there is one. -/
def answer (h : Handler) : TextDispatch → Option TextInput
  | .commitText none => none
  | .commitText (some text) => if text.bytes = [] then none else h.activeEnabled
  | .deleteSurroundingText beforeLength afterLength codePoints =>
      let before := clampDeleteCount beforeLength
      let after := clampDeleteCount afterLength
      if before = 0 ∧ after = 0 then none
      else h.activeEnabled.filter fun ti =>
        (textInputDeleteByteCounts ti before after codePoints).any fun counts => counts ≠ (0, 0)

/-- What the done event of an object says. -/
def TextInput.doneEvent (ti : TextInput) : ℕ × ℕ := (ti.resource, ti.serial)

/-- The done events an event of the handler sends. -/
def sentDones (h : Handler) : HandlerEvent → List (ℕ × ℕ)
  | .dispatch op _ => (answer h op).toList.map TextInput.doneEvent
  | _ => []

@[simp] theorem dones_send (g : Globals) (o : Output) :
    dones (g.send o).log = dones g.log ++ dones [o] := by
  show dones (g.log ++ [o]) = dones g.log ++ dones [o]
  exact List.filterMap_append

@[simp] theorem dones_requestImeCommand (g : Globals) (cmd : Char) :
    dones (g.requestImeCommand cmd).log = dones g.log := by
  unfold Globals.requestImeCommand
  split
  · rw [dones_send]
    exact List.append_nil _
  · rfl

/-- An object that stops being the active one sends no done event. -/
theorem dones_drop (g : Globals) (self : ℕ) (enabled : Bool) :
    dones (if g.activeTextInput = some self then
        if enabled then (g.setActiveTextInput none).requestImeHide else g.setActiveTextInput none
      else g).log = dones g.log := by
  split
  · split
    · show dones ((g.setActiveTextInput none).requestImeCommand 'H').log = dones g.log
      rw [dones_requestImeCommand]
      rfl
    · rfl
  · rfl

theorem dones_maybeSendLeave (sendLeave : Bool) (g : Globals) (ti : TextInput) :
    dones (maybeSendLeave sendLeave g ti).1.log = dones g.log := by
  unfold maybeSendLeave
  split
  · refine (dones_drop _ ti.self ti.currentEnabled).trans ?_
    cases ti.enteredSurface with
    | none => rfl
    | some surface =>
      cases sendLeave with
      | true =>
        show dones (g.send (.leave ti.resource surface)).log = dones g.log
        rw [dones_send]
        exact List.append_nil _
      | false => rfl
  · rfl

theorem dones_clearTextInputFocus (h : Handler) (surface : Option ℕ) (sendLeave : Bool) :
    dones (clearTextInputFocus h surface sendLeave).globals.log = dones h.globals.log := by
  have hloop : dones (forEach (clearOne surface sendLeave) h.globals h.textInputs).1.log =
      dones h.globals.log := by
    apply forEach_invariant (P := fun g => dones g.log = dones h.globals.log)
    · intro g ti _ hg
      rw [← hg]
      unfold clearOne
      split
      · exact dones_maybeSendLeave sendLeave g ti
      · rfl
    · rfl
  unfold clearTextInputFocus
  simp only
  split
  · exact hloop
  · exact hloop

theorem dones_textInputHandleKeyboardEnter (h : Handler) (surface : ℕ) :
    dones (textInputHandleKeyboardEnter h surface).globals.log = dones h.globals.log := by
  unfold textInputHandleKeyboardEnter
  split
  · rfl
  · rw [← dones_clearTextInputFocus h none true]
    apply forEach_invariant (P := fun g =>
      dones g.log = dones (clearTextInputFocus h none true).globals.log)
    · intro g ti _ hg
      rw [← hg]
      unfold enterOne
      split
      · rw [dones_send]
        exact List.append_nil _
      · rfl
    · rfl

theorem dones_surfaceDestroyed (h : Handler) (surface : ℕ) :
    dones (surfaceDestroyed h surface).globals.log = dones h.globals.log := by
  unfold surfaceDestroyed
  simp only [dones_send]
  refine (List.append_nil _).trans ?_
  split
  · exact dones_clearTextInputFocus h (some surface) false
  · rfl

theorem dones_tiCommit (g : Globals) (ti : TextInput) :
    dones (tiCommit g ti).1.log = dones g.log := by
  unfold tiCommit
  split
  · simp only
    split
    · split
      · rfl
      · exact dones_requestImeCommand _ 'S'
    · split
      · split
        · exact dones_requestImeCommand _ 'H'
        · rfl
      · rfl
  · rfl

theorem dones_commit (h : Handler) (self : ℕ) :
    dones (h.commit self).globals.log = dones h.globals.log := by
  unfold Handler.commit
  split
  · exact dones_tiCommit _ _
  · rfl

theorem dones_tiResourceDestroy (h : Handler) (self : ℕ) :
    dones (tiResourceDestroy h self).globals.log = dones h.globals.log := by
  unfold tiResourceDestroy
  split
  · exact dones_drop _ _ _
  · rfl

theorem dones_managerGetTextInput (h : Handler) (client self : ℕ) :
    dones (managerGetTextInput h client self).globals.log = dones h.globals.log := by
  unfold managerGetTextInput
  simp only
  split
  · split
    · rw [dones_send]
      exact List.append_nil _
    · rfl
  · rfl

/-- The keys of the fallback come without a done event. -/
theorem dones_emitKeys (h : Handler) (seat : Fallback) {keys : Output} (hkeys : dones [keys] = []) :
    dones (emitKeys h seat keys).globals.log = dones h.globals.log := by
  have hsend : ∀ h' : Handler, dones (h'.send keys).globals.log = dones h'.globals.log := by
    intro h'
    show dones (h'.globals.send keys).log = dones h'.globals.log
    rw [dones_send, hkeys, List.append_nil]
  unfold emitKeys
  split
  · split
    · rw [hsend]
      exact dones_textInputHandleKeyboardEnter h _
    · exact hsend h
  · rfl

/-- Text and its done event. -/
theorem dones_answered (h : Handler) {o : Output} (ho : dones [o] = []) (ti : TextInput) :
    dones ((h.send o).send (.done ti.resource ti.serial)).globals.log =
      dones h.globals.log ++ [ti.doneEvent] := by
  show dones ((h.globals.send o).send (.done ti.resource ti.serial)).log = _
  rw [dones_send, dones_send, ho, List.append_nil]
  rfl

/-- A dispatched operation sends the done event of the object it is answered on. -/
theorem dones_dispatch (h : Handler) (op : TextDispatch) (seat : Fallback) :
    dones (dispatch h op seat).globals.log =
      dones h.globals.log ++ (answer h op).toList.map TextInput.doneEvent := by
  cases op with
  | commitText text =>
    cases text with
    | none => exact (List.append_nil _).symm
    | some text =>
      by_cases hempty : text.bytes = []
      · simp [dispatch, dispatchCommitText, answer, hempty]
      · cases hactive : h.activeEnabled with
        | none =>
          simp only [dispatch, dispatchCommitText, answer, hempty, hactive, if_false]
          rw [dones_emitKeys h seat rfl]
          exact (List.append_nil _).symm
        | some ti =>
          simp only [dispatch, dispatchCommitText, answer, hempty, hactive, if_false]
          exact dones_answered h rfl ti
  | deleteSurroundingText before after codePoints =>
    by_cases hzero : clampDeleteCount before = 0 ∧ clampDeleteCount after = 0
    · simp [dispatch, dispatchDeleteSurroundingText, answer, hzero]
    · cases hactive : h.activeEnabled with
      | none =>
        simp only [dispatch, dispatchDeleteSurroundingText, answer, hzero, hactive, if_false]
        rw [dones_emitKeys h seat rfl]
        exact (List.append_nil _).symm
      | some ti =>
        cases hcounts : textInputDeleteByteCounts ti (clampDeleteCount before)
            (clampDeleteCount after) codePoints with
        | none =>
          simp only [dispatch, dispatchDeleteSurroundingText, answer, hzero, hactive, hcounts,
            if_false]
          rw [dones_emitKeys h seat rfl]
          simp [Option.filter, hcounts]
        | some counts =>
          simp only [dispatch, dispatchDeleteSurroundingText, answer, hzero, hactive, hcounts,
            if_false]
          split
          · rename_i hnothing
            simp [Option.filter, hcounts, Prod.ext_iff, hnothing]
          · rename_i hsome
            have hcounted : ¬counts.1 = 0 ∨ ¬counts.2 = 0 := not_and_or.mp hsome
            rw [dones_answered h rfl ti]
            simp [Option.filter, hcounts, Prod.ext_iff, hcounted]

/-- **An event sends exactly the done event its operation is answered with.** -/
theorem dones_next {h h' : Handler} {e : HandlerEvent} (hstep : h.next e = some h') :
    dones h'.globals.log = dones h.globals.log ++ sentDones h e := by
  cases e with
  | dispatch op seat =>
    simp only [Handler.next] at hstep
    split at hstep
    · exact Option.some.inj hstep ▸ dones_dispatch h op seat
    · simp at hstep
  | surfaceCreated surface client =>
    simp only [Handler.next] at hstep
    split at hstep
    · exact Option.some.inj hstep ▸ (List.append_nil _).symm
    · simp at hstep
  | surfaceDestroyed surface =>
    simp only [Handler.next] at hstep
    split at hstep
    · rw [← Option.some.inj hstep, dones_surfaceDestroyed]
      exact (List.append_nil _).symm
    · simp at hstep
  | keyboardEnter surface =>
    simp only [Handler.next] at hstep
    split at hstep
    · rw [← Option.some.inj hstep, dones_textInputHandleKeyboardEnter]
      exact (List.append_nil _).symm
    · simp at hstep
  | keyboardLeave surface =>
    rw [← Option.some.inj hstep]
    show dones (clearTextInputFocus h surface true).globals.log = _
    rw [dones_clearTextInputFocus]
    exact (List.append_nil _).symm
  | getTextInput client self =>
    simp only [Handler.next] at hstep
    split at hstep
    · rw [← Option.some.inj hstep, dones_managerGetTextInput]
      exact (List.append_nil _).symm
    · simp at hstep
  | commit self =>
    rw [← Option.some.inj hstep, dones_commit]
    exact (List.append_nil _).symm
  | resourceDestroy self =>
    rw [← Option.some.inj hstep, dones_tiResourceDestroy]
    exact (List.append_nil _).symm
  | enable self => exact Option.some.inj hstep ▸ (List.append_nil _).symm
  | disable self => exact Option.some.inj hstep ▸ (List.append_nil _).symm
  | setSurroundingText self text cursor anchor copied =>
    exact Option.some.inj hstep ▸ (List.append_nil _).symm
  | ignored self => exact Option.some.inj hstep ▸ (List.append_nil _).symm
  | setCursorRectangle self rectangle => exact Option.some.inj hstep ▸ (List.append_nil _).symm

/-! ### Serials -/

/-- An event that is not a commit leaves the serials of the objects alone; a new object starts at
zero under the next resource number. -/
structure KeepsSerials (h h' : Handler) : Prop where
  next_le : h.nextResource ≤ h'.nextResource
  object : ∀ ti' ∈ h'.textInputs, ti'.doneEvent ∈ h.textInputs.map TextInput.doneEvent ∨
    ti'.doneEvent = (h.nextResource, 0)

/-- The objects are the same, with the same serials. -/
theorem KeepsSerials.of_eq {h h' : Handler} (hnext : h'.nextResource = h.nextResource)
    (hobjects : h'.textInputs.map TextInput.doneEvent = h.textInputs.map TextInput.doneEvent) :
    KeepsSerials h h' := by
  refine ⟨le_of_eq hnext.symm, fun ti' hmem => .inl ?_⟩
  rw [← hobjects]
  exact List.mem_map_of_mem hmem

/-- A loop that leaves each object its serial. -/
theorem doneEvent_forEach {body : Globals → TextInput → Globals × TextInput}
    (hbody : ∀ g ti, (body g ti).2.doneEvent = ti.doneEvent) (l : List TextInput) :
    ∀ g, (forEach body g l).2.map TextInput.doneEvent = l.map TextInput.doneEvent := by
  induction l with
  | nil => intro g; rfl
  | cons ti rest ih =>
    intro g
    show (body g ti).2.doneEvent :: (forEach body (body g ti).1 rest).2.map TextInput.doneEvent =
      ti.doneEvent :: rest.map TextInput.doneEvent
    rw [hbody, ih]

theorem doneEvent_clearOne (surface : Option ℕ) (sendLeave : Bool) (g : Globals) (ti : TextInput) :
    (clearOne surface sendLeave g ti).2.doneEvent = ti.doneEvent := by
  unfold clearOne
  split
  · rw [maybeSendLeave_snd]
    unfold TextInput.left
    split
    · rfl
    · rfl
  · rfl

theorem doneEvent_enterOne (surfaces : ℕ → Option ℕ) (surface : ℕ) (g : Globals) (ti : TextInput) :
    (enterOne surfaces surface g ti).2.doneEvent = ti.doneEvent := by
  unfold enterOne
  split
  · rfl
  · rfl

theorem doneEvent_clear (h : Handler) (surface : Option ℕ) (sendLeave : Bool) :
    (clearTextInputFocus h surface sendLeave).textInputs.map TextInput.doneEvent =
      h.textInputs.map TextInput.doneEvent :=
  doneEvent_forEach (doneEvent_clearOne surface sendLeave) h.textInputs h.globals

theorem keepsSerials_enter (h : Handler) (surface : ℕ) :
    KeepsSerials h (textInputHandleKeyboardEnter h surface) := by
  unfold textInputHandleKeyboardEnter
  split
  · exact .of_eq rfl rfl
  · refine .of_eq rfl ?_
    rw [← doneEvent_clear h none true]
    exact doneEvent_forEach (doneEvent_enterOne _ surface) _ _

theorem keepsSerials_surfaceDestroyed (h : Handler) (surface : ℕ) :
    KeepsSerials h (surfaceDestroyed h surface) := by
  unfold surfaceDestroyed
  simp only
  split
  · exact .of_eq rfl (doneEvent_clear h (some surface) false)
  · exact .of_eq rfl rfl

/-- A request that leaves the serial of its object alone. -/
theorem keepsSerials_modify (h : Handler) (self : ℕ) {f : TextInput → TextInput}
    (hf : ∀ ti, (f ti).doneEvent = ti.doneEvent) : KeepsSerials h (h.modify self f) := by
  refine .of_eq rfl ?_
  show (update TextInput.self self f h.textInputs).map TextInput.doneEvent = _
  unfold update
  rw [List.map_map]
  refine List.map_congr_left fun ti _ => ?_
  show (if ti.self = self then f ti else ti).doneEvent = ti.doneEvent
  split
  · exact hf ti
  · rfl

theorem keepsSerials_getTextInput (h : Handler) (client self : ℕ) :
    KeepsSerials h (managerGetTextInput h client self) := by
  have hinsert : ∀ (ti : TextInput) (g : Globals), ti.doneEvent = (h.nextResource, 0) →
      KeepsSerials h { h with
        globals := g, textInputs := ti :: h.textInputs, nextResource := h.nextResource + 1 } := by
    intro ti g hti
    refine ⟨Nat.le_succ _, fun ti' hmem => ?_⟩
    rcases List.mem_cons.mp hmem with rfl | hmem
    · exact .inr hti
    · exact .inl (List.mem_map_of_mem hmem)
  unfold managerGetTextInput
  simp only
  split
  · split
    · exact hinsert _ _ rfl
    · exact hinsert _ _ rfl
  · exact hinsert _ _ rfl

theorem keepsSerials_resourceDestroy (h : Handler) (self : ℕ) :
    KeepsSerials h (tiResourceDestroy h self) := by
  unfold tiResourceDestroy
  split
  · refine ⟨le_refl _, fun ti' hmem => .inl ?_⟩
    exact List.mem_map_of_mem ((remove_sublist self h.textInputs).subset hmem)
  · exact .of_eq rfl rfl

theorem keepsSerials_dispatch (h : Handler) (op : TextDispatch) (seat : Fallback) :
    KeepsSerials h (dispatch h op seat) := by
  rcases dispatch_cases h op seat with ⟨keys, -, heq⟩ | ⟨-, log, heq⟩
  · rw [heq]
    unfold emitKeys
    split
    · split
      · have henter := keepsSerials_enter h
        exact ⟨(henter _).next_le, (henter _).object⟩
      · exact .of_eq rfl rfl
    · exact .of_eq rfl rfl
  · rw [heq]
    exact .of_eq rfl rfl

/-- Every event other than a commit keeps the serials. -/
theorem keepsSerials_next {h h' : Handler} {e : HandlerEvent} (hstep : h.next e = some h')
    (hcommit : ∀ self, e ≠ .commit self) : KeepsSerials h h' := by
  cases e with
  | commit self => exact absurd rfl (hcommit self)
  | surfaceCreated surface client =>
    simp only [Handler.next] at hstep
    split at hstep
    · exact Option.some.inj hstep ▸ .of_eq rfl rfl
    · simp at hstep
  | surfaceDestroyed surface =>
    simp only [Handler.next] at hstep
    split at hstep
    · exact Option.some.inj hstep ▸ keepsSerials_surfaceDestroyed h surface
    · simp at hstep
  | keyboardEnter surface =>
    simp only [Handler.next] at hstep
    split at hstep
    · exact Option.some.inj hstep ▸ keepsSerials_enter h surface
    · simp at hstep
  | keyboardLeave surface =>
    exact Option.some.inj hstep ▸ .of_eq rfl (doneEvent_clear h surface true)
  | getTextInput client self =>
    simp only [Handler.next] at hstep
    split at hstep
    · exact Option.some.inj hstep ▸ keepsSerials_getTextInput h client self
    · simp at hstep
  | enable self =>
    refine Option.some.inj hstep ▸ keepsSerials_modify h self fun ti => ?_
    unfold tiEnable
    split <;> rfl
  | disable self =>
    refine Option.some.inj hstep ▸ keepsSerials_modify h self fun ti => ?_
    unfold tiDisable
    split <;> rfl
  | setSurroundingText self text cursor anchor copied =>
    refine Option.some.inj hstep ▸ keepsSerials_modify h self fun ti => ?_
    unfold tiSetSurroundingText
    split <;> rfl
  | ignored self => exact Option.some.inj hstep ▸ .of_eq rfl rfl
  | setCursorRectangle self rectangle =>
    refine Option.some.inj hstep ▸ keepsSerials_modify h self fun ti => ?_
    unfold tiSetCursorRectangle
    split <;> rfl
  | resourceDestroy self => exact Option.some.inj hstep ▸ keepsSerials_resourceDestroy h self
  | dispatch op seat =>
    simp only [Handler.next] at hstep
    split at hstep
    · exact Option.some.inj hstep ▸ keepsSerials_dispatch h op seat
    · simp at hstep

/-- What a commit does to the serial of its object. -/
theorem doneEvent_tiCommit (g : Globals) (ti : TextInput) :
    (tiCommit g ti).2.doneEvent =
      (ti.resource, if ti.entered then (ti.serial + 1) % 2 ^ 32 else ti.serial) := by
  unfold tiCommit
  split
  · simp only [TextInput.applySurroundingText, TextInput.applyCursorRectangle]
    cases ti.pendingEnabled <;> cases ti.pendingSurroundingTextSet <;>
      cases ti.pendingCursorRectangleSet <;> rfl
  · rfl

/-! ### Counting commits -/

/-- A done event with the number of commits its object had been sent at that moment. -/
structure Answered where
  resource : ℕ
  serial : ℕ
  commits : ℕ

/-- The handler, the commit requests issued on each resource, those of them that found the object
outside the focus, and the done events sent. -/
structure Counted where
  handler : Handler
  commits : ℕ → ℕ
  ignored : ℕ → ℕ
  answered : List Answered

/-- The object a commit request reaches. -/
def committed (h : Handler) : HandlerEvent → Option TextInput
  | .commit self => h.find self
  | _ => none

/-- Count one more for the resource of an object. -/
def countUp (counts : ℕ → ℕ) (object : Option TextInput) (r : ℕ) : ℕ :=
  if object.map TextInput.resource = some r then counts r + 1 else counts r

/-- The handler and the counts after an event. -/
def Counted.next (s : Counted) (e : HandlerEvent) : Option Counted :=
  (s.handler.next e).map fun h =>
    { handler := h
      commits := countUp s.commits (committed s.handler e)
      ignored := countUp s.ignored ((committed s.handler e).filter fun ti => !ti.entered)
      answered := s.answered ++
        ((dones h.globals.log).drop (dones s.handler.globals.log).length).map fun d =>
          ⟨d.1, d.2, s.commits d.1⟩ }

/-- A handler that has just been set up, with nothing counted. -/
def Counted.Initial (s : Counted) : Prop :=
  s.handler.Initial ∧ (∀ r, s.commits r = 0) ∧ (∀ r, s.ignored r = 0) ∧ s.answered = []

/-- All runs of the handler, with their counts. -/
def countedSystem : System Counted HandlerEvent := System.ofNext Counted.Initial Counted.next

/-- Every done event said how many commits its object had been sent. -/
def CountsCommits (s : Counted) : Prop := ∀ a ∈ s.answered, a.serial = a.commits

/-- The operation is answered, if at all, on an object that had no commit ignored, and fewer
commits than a serial can count. -/
def NoneIgnored (s : Counted) : HandlerEvent → Prop
  | .dispatch op _ => ∀ ti ∈ answer s.handler op,
      s.ignored ti.resource = 0 ∧ s.commits ti.resource < 2 ^ 32
  | _ => True

/-- Serials count the commits that were not ignored. -/
structure CountInv (s : Counted) : Prop where
  focus : FocusInv s.handler
  serial_eq : ∀ ti ∈ s.handler.textInputs,
    ti.serial = (s.commits ti.resource - s.ignored ti.resource) % 2 ^ 32
  ignored_le : ∀ r, s.ignored r ≤ s.commits r
  unborn : ∀ r ≥ s.handler.nextResource, s.commits r = 0

theorem countInv_of_initial {s : Counted} (hs : s.Initial) : CountInv s := by
  obtain ⟨hinitial, hcommits, hignored, -⟩ := hs
  have hnone : s.handler.textInputs = [] := hinitial.1
  refine
    { focus := focusInv_of_initial hinitial
      serial_eq := by simp [hnone]
      ignored_le := fun r => by rw [hcommits, hignored]
      unborn := fun r _ => hcommits r }

@[simp] theorem countUp_none (counts : ℕ → ℕ) : countUp counts none = counts := by
  funext r
  simp [countUp]

theorem countUp_of_eq (counts : ℕ → ℕ) (ti : TextInput) :
    countUp counts (some ti) ti.resource = counts ti.resource + 1 := by
  simp [countUp]

theorem countUp_of_ne (counts : ℕ → ℕ) {ti : TextInput} {r : ℕ} (hr : ti.resource ≠ r) :
    countUp counts (some ti) r = counts r := by
  simp [countUp, hr]

/-- What is counted of some commits stays below what is counted of all. -/
theorem countUp_filter_le {part all : ℕ → ℕ} (hle : ∀ r, part r ≤ all r)
    (object : Option TextInput) (p : TextInput → Bool) (r : ℕ) :
    countUp part (object.filter p) r ≤ countUp all object r := by
  have hr := hle r
  cases object with
  | none => simpa using hr
  | some ti =>
    by_cases hresource : ti.resource = r
    · subst hresource
      rw [countUp_of_eq]
      cases hp : p ti with
      | true =>
        rw [Option.filter_some, if_pos hp, countUp_of_eq]
        omega
      | false =>
        rw [Option.filter_some, hp, if_neg Bool.false_ne_true, countUp_none]
        omega
    · rw [countUp_of_ne all hresource]
      cases hp : p ti with
      | true => rwa [Option.filter_some, if_pos hp, countUp_of_ne part hresource]
      | false => rwa [Option.filter_some, hp, if_neg Bool.false_ne_true, countUp_none]

/-- A step of the counted handler is a step of the handler, with the done events of its answer. -/
theorem counted_next_cases {s t : Counted} {e : HandlerEvent} (hstep : s.next e = some t) :
    s.handler.next e = some t.handler ∧
      t.commits = countUp s.commits (committed s.handler e) ∧
      t.ignored = countUp s.ignored ((committed s.handler e).filter fun ti => !ti.entered) ∧
      t.answered = s.answered ++
        (sentDones s.handler e).map fun d => ⟨d.1, d.2, s.commits d.1⟩ := by
  obtain ⟨h, hh, rfl⟩ := Option.map_eq_some_iff.mp hstep
  refine ⟨hh, rfl, rfl, ?_⟩
  show s.answered ++ _ = s.answered ++ _
  rw [dones_next hh, List.drop_left]

/-- The counts after a commit that reached the object `ti`. -/
theorem CountInv.committed_serial {s : Counted} (hi : CountInv s) {self : ℕ} {ti : TextInput}
    (hfind : s.handler.find self = some ti) {ti' : TextInput}
    (hmem : ti' ∈ (s.handler.commit self).textInputs) :
    ti'.serial = (countUp s.commits (some ti) ti'.resource -
      countUp s.ignored ((some ti).filter fun ti => !ti.entered) ti'.resource) % 2 ^ 32 := by
  obtain ⟨hti, hself⟩ := hi.focus.find_eq_some.mp hfind
  have hobjects : (s.handler.commit self).textInputs =
      update TextInput.self self (fun _ => (tiCommit s.handler.globals ti).2)
        s.handler.textInputs := by
    unfold Handler.commit
    rw [hfind]
    rfl
  rw [hobjects] at hmem
  obtain ⟨tj, htj, heq⟩ := List.mem_map.mp hmem
  by_cases hsame : tj.self = self
  · rw [if_pos hsame] at heq
    subst heq
    have hevent := doneEvent_tiCommit s.handler.globals ti
    have hresource : (tiCommit s.handler.globals ti).2.resource = ti.resource :=
      congrArg Prod.fst hevent
    have hserial : (tiCommit s.handler.globals ti).2.serial =
        if ti.entered then (ti.serial + 1) % 2 ^ 32 else ti.serial := congrArg Prod.snd hevent
    have hbefore := hi.serial_eq ti hti
    have hle := hi.ignored_le ti.resource
    rw [hresource, hserial, countUp_of_eq]
    cases hentered : ti.entered with
    | true =>
      rw [Option.filter_some, hentered, Bool.not_true, if_neg Bool.false_ne_true, countUp_none,
        if_pos rfl, hbefore]
      omega
    | false =>
      rw [Option.filter_some, hentered, Bool.not_false, if_pos rfl, countUp_of_eq,
        if_neg Bool.false_ne_true, hbefore, Nat.add_sub_add_right]
  · rw [if_neg hsame] at heq
    subst heq
    have hne : ti.resource ≠ tj.resource := by
      intro heq
      have hobject : ti = tj := List.inj_on_of_nodup_map hi.focus.nodup_resource hti htj heq
      exact hsame (hobject ▸ hself)
    have hignored : countUp s.ignored ((some ti).filter fun ti => !ti.entered) tj.resource =
        s.ignored tj.resource := by
      cases hentered : ti.entered with
      | true => simp [Option.filter, hentered]
      | false => simp [Option.filter, hentered, countUp_of_ne _ hne]
    rw [countUp_of_ne _ hne, hignored]
    exact hi.serial_eq tj htj

/-- **A step keeps the count.** -/
theorem CountInv.step {s t : Counted} {e : HandlerEvent} (hi : CountInv s)
    (hstep : s.next e = some t) : CountInv t := by
  obtain ⟨hnext, hcommits, hignored, -⟩ := counted_next_cases hstep
  have hfocus := hi.focus.next hnext
  cases hobject : committed s.handler e with
  | none =>
    rw [hobject, countUp_none] at hcommits
    rw [hobject, Option.filter_none, countUp_none] at hignored
    have hkeeps : KeepsSerials s.handler t.handler := by
      by_cases hcommit : ∀ self, e ≠ .commit self
      · exact keepsSerials_next hnext hcommit
      · -- a commit on an object that is gone
        simp only [not_forall, not_not] at hcommit
        obtain ⟨self, rfl⟩ := hcommit
        have hnone : s.handler.find self = none := hobject
        have hsame : s.handler.commit self = t.handler := Option.some.inj hnext
        rw [← hsame, Handler.commit, hnone]
        exact .of_eq rfl rfl
    refine
      { focus := hfocus
        serial_eq := ?_
        ignored_le := fun r => by rw [hcommits, hignored]; exact hi.ignored_le r
        unborn := fun r hr => by rw [hcommits]; exact hi.unborn r (hkeeps.next_le.trans hr) }
    intro ti' hmem
    rw [hcommits, hignored]
    rcases hkeeps.object ti' hmem with hold | hnew
    · obtain ⟨ti, hti, heq⟩ := List.mem_map.mp hold
      have hresource : ti.resource = ti'.resource := congrArg Prod.fst heq
      have hserial : ti.serial = ti'.serial := congrArg Prod.snd heq
      rw [← hresource, ← hserial]
      exact hi.serial_eq ti hti
    · have hresource : ti'.resource = s.handler.nextResource := congrArg Prod.fst hnew
      have hserial : ti'.serial = 0 := congrArg Prod.snd hnew
      rw [hresource, hserial, hi.unborn _ (le_refl _), Nat.zero_sub, Nat.zero_mod]
  | some ti =>
    obtain ⟨self, rfl⟩ : ∃ self, e = .commit self := by
      cases e with
      | commit self => exact ⟨self, rfl⟩
      | _ => simp [committed] at hobject
    have hfind : s.handler.find self = some ti := hobject
    have hsame : s.handler.commit self = t.handler := Option.some.inj hnext
    have hlt := hi.focus.resource_lt ti (hi.focus.find_eq_some.mp hfind).1
    rw [hobject] at hcommits hignored
    refine { focus := hfocus, serial_eq := ?_, ignored_le := ?_, unborn := ?_ }
    · intro ti' hmem
      rw [hcommits, hignored]
      exact hi.committed_serial hfind (hsame ▸ hmem)
    · intro r
      rw [hcommits, hignored]
      exact countUp_filter_le hi.ignored_le (some ti) _ r
    · intro r hr
      have hmore : s.handler.nextResource = t.handler.nextResource := by
        rw [← hsame, Handler.commit, hfind]
        rfl
      have hne : ti.resource ≠ r := by omega
      rw [hcommits, countUp_of_ne _ hne]
      exact hi.unborn r (by omega)

/-- The object an operation is answered on is listed. -/
theorem CountInv.answer_mem {s : Counted} (hi : CountInv s) {op : TextDispatch} {ti : TextInput}
    (hanswer : answer s.handler op = some ti) : ti ∈ s.handler.textInputs := by
  have hactive : s.handler.activeEnabled = some ti := by
    cases op with
    | commitText text =>
      cases text with
      | none => simp [answer] at hanswer
      | some text =>
        simp only [answer] at hanswer
        split at hanswer
        · simp at hanswer
        · exact hanswer
    | deleteSurroundingText before after codePoints =>
      simp only [answer] at hanswer
      split at hanswer
      · simp at hanswer
      · exact (Option.filter_eq_some_iff.mp hanswer).1
  exact (hi.focus.activeEnabled_mem hactive).1

/-- The serial of an object is the number of its commits exactly when none of them was ignored and
the number fits. -/
theorem CountInv.serial_eq_commits_iff {s : Counted} (hi : CountInv s) {ti : TextInput}
    (hmem : ti ∈ s.handler.textInputs) : ti.serial = s.commits ti.resource ↔
      s.ignored ti.resource = 0 ∧ s.commits ti.resource < 2 ^ 32 := by
  have hserial := hi.serial_eq ti hmem
  have hle := hi.ignored_le ti.resource
  omega

/-- The done events of a step say the number of commits exactly when the step meets the guard. -/
theorem CountInv.answered_iff {s : Counted} {e : HandlerEvent} (hi : CountInv s) :
    (∀ d ∈ sentDones s.handler e, d.2 = s.commits d.1) ↔ NoneIgnored s e := by
  cases e with
  | dispatch op seat =>
    show (∀ d ∈ (answer s.handler op).toList.map TextInput.doneEvent, d.2 = s.commits d.1) ↔
      ∀ ti ∈ answer s.handler op, s.ignored ti.resource = 0 ∧ s.commits ti.resource < 2 ^ 32
    cases hanswer : answer s.handler op with
    | none => simp
    | some ti =>
      rw [Option.toList_some, List.map_singleton, List.forall_mem_singleton]
      simp only [Option.mem_def, Option.some.injEq, forall_eq']
      exact hi.serial_eq_commits_iff (hi.answer_mem hanswer)
  | _ => simp [sentDones, NoneIgnored]

/-- **The serial of every done event is the number of commits, exactly when no commit was lost.**
In a run of the handler every done event carries the number of commit requests issued on its object
so far if and only if each of them goes to an object that had no commit while it was outside the
focus. -/
theorem countsCommits_iff_noneIgnored {s : Counted} {run : List (HandlerEvent × Counted)}
    (hinitial : s.Initial) (hrun : countedSystem.Exec s run) :
    AllStates CountsCommits s run ↔ AllSteps NoneIgnored s run := by
  have hanswered : s.answered = [] := hinitial.2.2.2
  have hstart : CountsCommits s := by
    intro a ha
    simp [hanswered] at ha
  refine System.allStates_iff_allSteps (I := fun s => CountInv s ∧ CountsCommits s)
    (fun s hs => hs.2) ?_ ?_ ⟨countInv_of_initial hinitial, hstart⟩ hrun
  · rintro s e t ⟨hi, hcounts⟩ hstep hguard
    obtain ⟨-, -, -, hsent⟩ := counted_next_cases hstep
    refine ⟨hi.step hstep, fun a ha => ?_⟩
    rw [hsent] at ha
    rcases List.mem_append.mp ha with hold | hnew
    · exact hcounts a hold
    · obtain ⟨d, hd, rfl⟩ := List.mem_map.mp hnew
      exact hi.answered_iff.mpr hguard d hd
  · rintro s e t ⟨hi, -⟩ hstep hguard hcounts
    obtain ⟨-, -, -, hsent⟩ := counted_next_cases hstep
    refine hguard (hi.answered_iff.mp fun d hd => ?_)
    exact hcounts ⟨d.1, d.2, s.commits d.1⟩ (by
      rw [hsent]
      exact List.mem_append_right _ (List.mem_map_of_mem hd))

/-- The fresh handler, with nothing counted. -/
def freshCounted : Counted := ⟨freshHandler, fun _ => 0, fun _ => 0, []⟩

theorem freshCounted_initial : freshCounted.Initial :=
  ⟨freshHandler_initial, fun _ => rfl, fun _ => rfl, rfl⟩

/-- The text `a`. -/
def letterA : CString := ⟨[0x61], by simp, by simp⟩

/-- An object is focused, enabled, and receives text. -/
def commitsInside : List HandlerEvent :=
  [.surfaceCreated 1 10, .getTextInput 10 100, .keyboardEnter 1, .enable 100, .commit 100,
    .dispatch (.commitText (some letterA)) ⟨false, none⟩]

theorem countsCommits_commitsInside :
    (traceNext Counted.next freshCounted commitsInside).length = 6 ∧
      AllStates CountsCommits freshCounted
        (traceNext Counted.next freshCounted commitsInside) := by
  refine ⟨rfl, (countsCommits_iff_noneIgnored freshCounted_initial
    (System.exec_traceNext _ _ _)).mpr
      ⟨trivial, trivial, trivial, trivial, trivial, fun ti hti => ?_, trivial⟩⟩
  rw [← Option.some.inj hti]
  decide

/-- The object is told to commit before its client has the focus. -/
def commitsOutside : List HandlerEvent :=
  [.surfaceCreated 1 10, .getTextInput 10 100, .commit 100, .keyboardEnter 1, .enable 100,
    .commit 100, .dispatch (.commitText (some letterA)) ⟨false, none⟩]

/-- Its done event says one commit after two. -/
theorem commitsOutside_miscounted :
    ¬ ∀ (s : Counted) (run : List (HandlerEvent × Counted)), s.Initial →
      countedSystem.Exec s run → AllStates CountsCommits s run := by
  intro hall
  have hrun := hall freshCounted (traceNext Counted.next freshCounted commitsOutside)
    freshCounted_initial (System.exec_traceNext _ _ _)
  have hlast : CountsCommits
      ((runNext Counted.next freshCounted commitsOutside).getD freshCounted) :=
    hrun.2 (.dispatch (.commitText (some letterA)) ⟨false, none⟩, _) (List.mem_of_getLast? rfl)
  have hdone := hlast ⟨0, 1, 2⟩ (List.mem_of_getLast? rfl)
  simp at hdone

end Wldroid.Ime
