import Wldroid.Ime.Focus

/-!
# The keyboard and the active object

`S` and `H` are written to the IME pipe when an object becomes enabled and when the active one stops
being active.  The two edges are not the same: a commit of an object that has been enabled all along
makes it active again, and writes nothing.

* **`ShowsActive`** — the last request to the IME shows the keyboard exactly when an object is
  active;
* **`ShowsActive.next`** — every event keeps it, but for such a commit;
* **`keyboardAgrees_iff_activatesShown`** — it holds after every event of a run exactly when no
  commit activates an enabled object while none is active.
-/

namespace Wldroid.Ime

open Wldroid.Foundation

/-! ### Requests to the IME -/

/-- Whether the last request to the IME is to show the keyboard; at first it is hidden. -/
def shown (log : List Output) : Bool :=
  log.foldl (fun last o => match o with
    | .imeRequest cmd => decide (cmd = 'S')
    | _ => last) false

/-- The last request to the IME shows the keyboard exactly when an object is active. -/
structure ShowsActive (g : Globals) : Prop where
  server : g.textInputServer = true
  shown_eq : shown g.log = g.activeTextInput.isSome

/-- No request to the IME. -/
def Output.Quiet : Output → Prop
  | .imeRequest _ => False
  | _ => True

theorem shown_append (log : List Output) {o : Output} (ho : o.Quiet) :
    shown (log ++ [o]) = shown log := by
  unfold shown
  rw [List.foldl_append]
  cases o with
  | imeRequest cmd => exact absurd ho id
  | _ => rfl

/-- Other outputs change nothing. -/
theorem ShowsActive.send {g : Globals} (h : ShowsActive g) {o : Output} (ho : o.Quiet) :
    ShowsActive (g.send o) :=
  ⟨h.server, (shown_append g.log ho).trans h.shown_eq⟩

/-- A request is the last one. -/
theorem shown_requestImeCommand {g : Globals} (hserver : g.textInputServer = true) (cmd : Char) :
    shown (g.requestImeCommand cmd).log = decide (cmd = 'S') := by
  unfold Globals.requestImeCommand
  rw [if_pos hserver]
  show shown (g.log ++ [.imeRequest cmd]) = decide (cmd = 'S')
  unfold shown
  rw [List.foldl_append]
  rfl

theorem requestImeCommand_fields (g : Globals) (cmd : Char) :
    (g.requestImeCommand cmd).textInputServer = g.textInputServer ∧
      (g.requestImeCommand cmd).activeTextInput = g.activeTextInput := by
  unfold Globals.requestImeCommand
  split
  · exact ⟨rfl, rfl⟩
  · exact ⟨rfl, rfl⟩

/-- An object becomes active with a request to show the keyboard. -/
theorem ShowsActive.show {g : Globals} (h : ShowsActive g) (ti : TextInput) :
    ShowsActive (g.setActiveTextInput (some ti)).requestImeShow := by
  obtain ⟨hserver, hactive⟩ := requestImeCommand_fields (g.setActiveTextInput (some ti)) 'S'
  refine ⟨hserver.trans h.server, ?_⟩
  rw [show (g.setActiveTextInput (some ti)).requestImeShow.activeTextInput = some ti.self from
    hactive]
  exact shown_requestImeCommand (g := g.setActiveTextInput (some ti)) h.server 'S'

/-- No object is active any more, and the keyboard is to be hidden. -/
theorem ShowsActive.hide {g : Globals} (h : ShowsActive g) :
    ShowsActive (g.setActiveTextInput none).requestImeHide := by
  obtain ⟨hserver, hactive⟩ := requestImeCommand_fields (g.setActiveTextInput none) 'H'
  refine ⟨hserver.trans h.server, ?_⟩
  rw [show (g.setActiveTextInput none).requestImeHide.activeTextInput = none from hactive]
  exact shown_requestImeCommand (g := g.setActiveTextInput none) h.server 'H'

/-- The active object is enabled, so that it stops being active with a request to hide. -/
theorem ShowsActive.drop {g : Globals} (h : ShowsActive g) {self : ℕ} {enabled : Bool}
    (henabled : g.activeTextInput = some self → enabled = true) :
    ShowsActive (if g.activeTextInput = some self then
        if enabled then (g.setActiveTextInput none).requestImeHide else g.setActiveTextInput none
      else g) := by
  by_cases hactive : g.activeTextInput = some self
  · rw [if_pos hactive, if_pos (henabled hactive)]
    exact h.hide
  · rw [if_neg hactive]
    exact h

/-! ### Focus -/

theorem ShowsActive.maybeSendLeave {g : Globals} (h : ShowsActive g) (sendLeave : Bool)
    {ti : TextInput} (henabled : g.activeTextInput = some ti.self → ti.currentEnabled = true) :
    ShowsActive (maybeSendLeave sendLeave g ti).1 := by
  unfold Ime.maybeSendLeave
  split
  · simp only
    cases ti.enteredSurface with
    | none => exact h.drop henabled
    | some surface =>
      cases sendLeave with
      | true => exact (h.send (o := .leave ti.resource surface) trivial).drop henabled
      | false => exact h.drop henabled
  · exact h

/-- What is active stays so, or nothing is. -/
theorem drop_active (g : Globals) (self : ℕ) (enabled : Bool) (a : ℕ)
    (ha : (if g.activeTextInput = some self then
        if enabled then (g.setActiveTextInput none).requestImeHide else g.setActiveTextInput none
      else g).activeTextInput = some a) : g.activeTextInput = some a := by
  by_cases hactive : g.activeTextInput = some self
  · rw [if_pos hactive] at ha
    cases enabled with
    | true =>
      have hnone : (g.setActiveTextInput none).requestImeHide.activeTextInput = none :=
        (requestImeCommand_fields _ 'H').2
      rw [if_pos rfl, hnone] at ha
      simp at ha
    | false => simp [Globals.setActiveTextInput] at ha
  · rwa [if_neg hactive] at ha

theorem maybeSendLeave_active (sendLeave : Bool) (g : Globals) (ti : TextInput) (a : ℕ)
    (ha : (maybeSendLeave sendLeave g ti).1.activeTextInput = some a) :
    g.activeTextInput = some a := by
  unfold maybeSendLeave at ha
  split at ha
  · have hbefore := drop_active _ ti.self ti.currentEnabled a ha
    cases hsurface : ti.enteredSurface with
    | none => simpa [hsurface] using hbefore
    | some surface => cases sendLeave <;> simpa [hsurface, Globals.send] using hbefore
  · exact ha

/-- The loop of `clear_text_input_focus`, over objects the active one is enabled among. -/
theorem ShowsActive.clear {h : Handler} (hs : ShowsActive h.globals)
    (henabled : ∀ ti ∈ h.textInputs, h.globals.activeTextInput = some ti.self →
      ti.currentEnabled = true) (surface : Option ℕ) (sendLeave : Bool) :
    ShowsActive (clearTextInputFocus h surface sendLeave).globals := by
  -- what is active in the loop is what was active before it
  have hloop : ShowsActive (forEach (clearOne surface sendLeave) h.globals h.textInputs).1 ∧
      ∀ a, (forEach (clearOne surface sendLeave) h.globals h.textInputs).1.activeTextInput = some a →
        h.globals.activeTextInput = some a := by
    apply forEach_invariant (P := fun g => ShowsActive g ∧
      ∀ a, g.activeTextInput = some a → h.globals.activeTextInput = some a)
    · rintro g ti hmem ⟨hg, hsame⟩
      unfold clearOne
      split
      · refine ⟨hg.maybeSendLeave sendLeave fun ha => henabled ti hmem (hsame _ ha), ?_⟩
        exact fun a ha => hsame a (maybeSendLeave_active sendLeave g ti a ha)
      · exact ⟨hg, hsame⟩
    · exact ⟨hs, fun a ha => ha⟩
  unfold clearTextInputFocus
  simp only
  split
  · exact ⟨hloop.1.server, hloop.1.shown_eq⟩
  · exact hloop.1

theorem ShowsActive.keyboardEnter {h : Handler} (hs : ShowsActive h.globals)
    (henabled : ∀ ti ∈ h.textInputs, h.globals.activeTextInput = some ti.self →
      ti.currentEnabled = true) (surface : ℕ) :
    ShowsActive (textInputHandleKeyboardEnter h surface).globals := by
  unfold textInputHandleKeyboardEnter
  split
  · exact hs
  · have hclear := hs.clear henabled none true
    apply forEach_invariant (P := ShowsActive)
    · intro g ti _ hg
      unfold enterOne
      split
      · exact hg.send trivial
      · exact hg
    · exact ⟨hclear.server, hclear.shown_eq⟩

theorem ShowsActive.surfaceDestroyed {h : Handler} (hs : ShowsActive h.globals)
    (henabled : ∀ ti ∈ h.textInputs, h.globals.activeTextInput = some ti.self →
      ti.currentEnabled = true) (surface : ℕ) :
    ShowsActive (surfaceDestroyed h surface).globals := by
  unfold Ime.surfaceDestroyed
  simp only
  split
  · exact (hs.clear henabled (some surface) false).send trivial
  · exact hs.send trivial

/-! ### Requests of clients -/

/-- The commit of an enabled object that stays enabled finds some object active. -/
def ActivatesShown (h : Handler) : HandlerEvent → Prop
  | .commit self => ∀ ti ∈ h.find self,
      ti.entered = true ∧ ti.currentEnabled = true ∧ ti.pendingEnabled = true →
        h.globals.activeTextInput.isSome = true
  | _ => True

theorem ShowsActive.tiCommit {g : Globals} (hs : ShowsActive g) {ti : TextInput}
    (henabled : g.activeTextInput = some ti.self → ti.currentEnabled = true)
    (hactive : ti.entered = true ∧ ti.currentEnabled = true ∧ ti.pendingEnabled = true →
      g.activeTextInput.isSome = true) : ShowsActive (tiCommit g ti).1 := by
  by_cases hentered : ti.entered = true
  · cases hpending : ti.pendingEnabled with
    | true =>
      cases hwas : ti.currentEnabled with
      | true =>
        -- enabled before and after: some object was active, and one still is
        refine ⟨?_, ?_⟩
        · simpa [Ime.tiCommit, hentered, hpending, hwas, Globals.setActiveTextInput] using hs.server
        · have hsome := hs.shown_eq.trans (hactive ⟨hentered, hwas, hpending⟩)
          simpa [Ime.tiCommit, hentered, hpending, hwas, Globals.setActiveTextInput] using hsome
      | false =>
        have hshow := hs.show
          ({ ti with serial := (ti.serial + 1) % 2 ^ 32, currentEnabled := true }
            : TextInput).applySurroundingText
        simpa [Ime.tiCommit, hentered, hpending, hwas] using hshow
    | false =>
      by_cases hself : g.activeTextInput = some ti.self
      · have hwas := henabled hself
        simpa [Ime.tiCommit, hentered, hpending, hself, hwas] using hs.hide
      · rw [tiCommit_idle (.inr ⟨hpending, hself⟩)]
        exact hs
  · rw [tiCommit_idle (.inl (by simpa using hentered))]
    exact hs

/-- The commit that breaks the agreement: the object becomes active, and nothing is requested. -/
theorem tiCommit_unshown {g : Globals} {ti : TextInput} (hentered : ti.entered = true)
    (hwas : ti.currentEnabled = true) (hpending : ti.pendingEnabled = true) :
    (tiCommit g ti).1.activeTextInput = some ti.self ∧ (tiCommit g ti).1.log = g.log := by
  simp [tiCommit, hentered, hwas, hpending, Globals.setActiveTextInput]

/-- The active object is enabled. -/
theorem FocusInv.active_enabled {h : Handler} (hi : FocusInv h) {ti : TextInput}
    (hmem : ti ∈ h.textInputs) (hactive : h.globals.activeTextInput = some ti.self) :
    ti.currentEnabled = true := by
  obtain ⟨tj, htj, hself, -, henabled⟩ := hi.active_ok ti.self hactive
  rwa [hi.eq_of_self_eq hmem htj hself.symm]

/-! ### Dispatch -/

theorem ShowsActive.emitKeys {h : Handler} (hs : ShowsActive h.globals)
    (henabled : ∀ ti ∈ h.textInputs, h.globals.activeTextInput = some ti.self →
      ti.currentEnabled = true) (seat : Fallback) {keys : Output} (hkeys : keys.Quiet) :
    ShowsActive (emitKeys h seat keys).globals := by
  unfold Ime.emitKeys
  split
  · cases seat.target with
    | none => exact hs.send hkeys
    | some surface => exact (hs.keyboardEnter henabled surface).send hkeys
  · exact hs

theorem ShowsActive.dispatch {h : Handler} (hs : ShowsActive h.globals)
    (henabled : ∀ ti ∈ h.textInputs, h.globals.activeTextInput = some ti.self →
      ti.currentEnabled = true) (op : TextDispatch) (seat : Fallback) :
    ShowsActive (dispatch h op seat).globals := by
  cases op with
  | commitText text =>
    cases text with
    | none => exact hs
    | some text =>
      unfold Ime.dispatch dispatchCommitText
      simp only
      split
      · exact hs
      · split
        · apply ShowsActive.send
          · exact hs.send trivial
          · trivial
        · exact hs.emitKeys henabled seat trivial
  | deleteSurroundingText before after codePoints =>
    unfold Ime.dispatch dispatchDeleteSurroundingText
    simp only
    split
    · exact hs
    · split
      · split
        · split
          · exact hs
          · apply ShowsActive.send
            · exact hs.send trivial
            · trivial
        · exact hs.emitKeys henabled seat trivial
      · exact hs.emitKeys henabled seat trivial

/-! ### Events -/

/-- **Every event keeps the agreement**, unless it activates an object without showing the
keyboard. -/
theorem ShowsActive.next {h h' : Handler} {e : HandlerEvent} (hi : FocusInv h)
    (hs : ShowsActive h.globals) (hstep : h.next e = some h') (hguard : ActivatesShown h e) :
    ShowsActive h'.globals := by
  have henabled : ∀ ti ∈ h.textInputs, h.globals.activeTextInput = some ti.self →
      ti.currentEnabled = true := fun ti hmem => hi.active_enabled hmem
  cases e with
  | surfaceCreated surface client =>
    simp only [Handler.next] at hstep
    split at hstep
    · exact Option.some.inj hstep ▸ hs
    · simp at hstep
  | surfaceDestroyed surface =>
    simp only [Handler.next] at hstep
    split at hstep
    · exact Option.some.inj hstep ▸ hs.surfaceDestroyed henabled surface
    · simp at hstep
  | keyboardEnter surface =>
    simp only [Handler.next] at hstep
    split at hstep
    · exact Option.some.inj hstep ▸ hs.keyboardEnter henabled surface
    · simp at hstep
  | keyboardLeave surface => exact Option.some.inj hstep ▸ hs.clear henabled surface true
  | getTextInput client self =>
    simp only [Handler.next] at hstep
    split at hstep
    · rw [← Option.some.inj hstep]
      unfold managerGetTextInput
      simp only
      split
      · split
        · exact hs.send trivial
        · exact hs
      · exact hs
    · simp at hstep
  | enable self => exact Option.some.inj hstep ▸ hs
  | disable self => exact Option.some.inj hstep ▸ hs
  | setSurroundingText self text cursor anchor copied => exact Option.some.inj hstep ▸ hs
  | ignored self => exact Option.some.inj hstep ▸ hs
  | setCursorRectangle self rectangle => exact Option.some.inj hstep ▸ hs
  | commit self =>
    rw [← Option.some.inj hstep]
    unfold Handler.commit
    cases hfind : h.find self with
    | none => exact hs
    | some ti =>
      have hmem := (hi.find_eq_some.mp hfind).1
      exact hs.tiCommit (henabled ti hmem) (hguard ti hfind)
  | resourceDestroy self =>
    rw [← Option.some.inj hstep]
    unfold tiResourceDestroy
    cases hfind : h.find self with
    | none => exact hs
    | some ti =>
      obtain ⟨hmem, rfl⟩ := hi.find_eq_some.mp hfind
      exact hs.drop (henabled ti hmem)
  | dispatch op seat =>
    simp only [Handler.next] at hstep
    split at hstep
    · exact Option.some.inj hstep ▸ hs.dispatch henabled op seat
    · simp at hstep

/-- After every event, the last request to the IME is to show the keyboard exactly when an object is
active. -/
def KeyboardAgrees (h : Handler) : Prop :=
  shown h.globals.log = h.globals.activeTextInput.isSome

/-- **The keyboard follows the active object exactly when no enabled object becomes active.**  After
every event of a run the last request is `S` just when some object is active, if and only if no
commit of an enabled object that stays enabled comes while no object is active. -/
theorem keyboardAgrees_iff_activatesShown {h : Handler} {run : List (HandlerEvent × Handler)}
    (hinitial : h.Initial) (hrun : handlerSystem.Exec h run) :
    AllStates KeyboardAgrees h run ↔ AllSteps ActivatesShown h run := by
  obtain ⟨-, -, -, hactive, -, hserver, hlog⟩ := id hinitial
  have hstart : ShowsActive h.globals := ⟨hserver, by rw [hlog, hactive]; rfl⟩
  refine System.allStates_iff_allSteps (I := fun h => FocusInv h ∧ ShowsActive h.globals)
    (fun h hh => hh.2.shown_eq) ?_ ?_ ⟨focusInv_of_initial hinitial, hstart⟩ hrun
  · rintro h e h' ⟨hi, hs⟩ hstep hguard
    exact ⟨hi.next hstep, hs.next hi hstep hguard⟩
  · rintro h e h' ⟨hi, hs⟩ hstep hguard hagrees
    cases e with
    | commit self =>
      simp only [ActivatesShown, not_forall] at hguard
      obtain ⟨ti, hfind, ⟨hentered, hwas, hpending⟩, hnone⟩ := hguard
      have hcommit : h' = h.commit self := (Option.some.inj hstep).symm
      have hglobals : h'.globals = (tiCommit h.globals ti).1 := by
        rw [hcommit, Handler.commit, show h.find self = some ti from hfind]
      obtain ⟨hactive, hlog⟩ := tiCommit_unshown (g := h.globals) hentered hwas hpending
      have hshown : shown h'.globals.log = h'.globals.activeTextInput.isSome := hagrees
      rw [hglobals, hactive, hlog, hs.shown_eq] at hshown
      exact hnone hshown
    | _ => exact hguard trivial

/-- Two objects of one client: the second is enabled, and disabled when the first is not. -/
def twoObjects : List HandlerEvent :=
  [.surfaceCreated 1 10, .getTextInput 10 100, .getTextInput 10 200, .keyboardEnter 1,
    .enable 100, .commit 100, .enable 200, .commit 200, .disable 200, .commit 200]

theorem keyboardAgrees_twoObjects :
    (traceNext Handler.next freshHandler twoObjects).length = 10 ∧
      AllStates KeyboardAgrees freshHandler (traceNext Handler.next freshHandler twoObjects) := by
  refine ⟨rfl, (keyboardAgrees_iff_activatesShown freshHandler_initial
    (System.exec_traceNext _ _ _)).mpr ⟨trivial, trivial, trivial, trivial, trivial,
      fun ti hti => ?_, trivial, fun ti hti => ?_, trivial, fun ti hti => ?_, trivial⟩⟩
  all_goals
    rw [← Option.some.inj hti]
    decide

/-- The first object, enabled all along, commits once more. -/
theorem enabled_object_unshown :
    ¬ ∀ (h : Handler) (run : List (HandlerEvent × Handler)), h.Initial →
      handlerSystem.Exec h run → AllStates KeyboardAgrees h run := by
  intro hall
  have hrun := hall freshHandler (traceNext Handler.next freshHandler (twoObjects ++ [.commit 100]))
    freshHandler_initial (System.exec_traceNext _ _ _)
  have hlast : KeyboardAgrees
      ((runNext Handler.next freshHandler (twoObjects ++ [.commit 100])).getD freshHandler) :=
    hrun.2 (.commit 100, _) (List.mem_of_getLast? rfl)
  exact Bool.false_ne_true hlast

end Wldroid.Ime
