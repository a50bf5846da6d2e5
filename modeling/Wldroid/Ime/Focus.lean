import Wldroid.Foundation.Transition
import Wldroid.Ime.State

/-!
# Text-input focus: every object, in every run

The events of the handler in any order — surfaces coming and going, focus enter and leave, objects
of any clients created and destroyed, their requests, and dispatched IME operations — and what holds
after each of them.

* **`Session`** — what the client of one object has seen: outside, or inside a surface; `sessionOf`
  replays the log and fails when an event is out of order;
* **`FocusInv`** — focused surface, entered objects, active object, atomic flag and log together;
* **`FocusInv.next`** — every event keeps it;
* **`focusGuarantee_of_reachable`** — what clients and the rest of the compositor may rely on.
-/

namespace Wldroid.Ime

open Wldroid.Foundation

/-! ### Sessions -/

/-- Where an object is between its enter and leave events. -/
inductive Session where
  | outside
  | inside (surface : ℕ)
  deriving DecidableEq

/-- One output, seen by resource `r`.  An enter inside, a leave that does not match, and text
outside are violations; the destruction of the entered surface ends the session without a leave. -/
def sessionStep (r : ℕ) (st : Session) : Output → Option Session
  | .enter r' surface =>
      if r' = r then if st = .outside then some (.inside surface) else none else some st
  | .leave r' surface =>
      if r' = r then if st = .inside surface then some .outside else none else some st
  | .commitString r' _ | .deleteSurroundingText r' _ _ | .done r' _ =>
      if r' = r ∧ st = .outside then none else some st
  | .surfaceDestroyed surface => some (if st = .inside surface then .outside else st)
  | .imeRequest _ | .syntheticKeys _ | .deleteKeys _ _ => some st

/-- The session of resource `r` after a log, nothing after a violation. -/
def sessionOf (r : ℕ) (log : List Output) : Option Session :=
  log.foldlM (sessionStep r) .outside

/-- The session an object's own fields describe. -/
def TextInput.session (ti : TextInput) : Session :=
  match ti.enteredSurface with
  | some surface => .inside surface
  | none => .outside

@[simp] theorem sessionOf_send (r : ℕ) (g : Globals) (o : Output) :
    sessionOf r (g.send o).log = (sessionOf r g.log).bind fun st => sessionStep r st o := by
  unfold sessionOf Globals.send
  rw [List.foldlM_append]
  cases List.foldlM (sessionStep r) Session.outside g.log with
  | none => rfl
  | some st =>
    show (sessionStep r st o).bind some = sessionStep r st o
    cases sessionStep r st o <;> rfl

@[simp] theorem log_setActiveTextInput (g : Globals) (ti : Option TextInput) :
    (g.setActiveTextInput ti).log = g.log := rfl

/-- Clients do not see the requests to the IME. -/
@[simp] theorem sessionOf_requestImeCommand (r : ℕ) (g : Globals) (cmd : Char) :
    sessionOf r (g.requestImeCommand cmd).log = sessionOf r g.log := by
  unfold Globals.requestImeCommand
  split
  · simp [sessionStep]
  · rfl

/-- A request to the IME changes the log only, and nothing a client sees. -/
theorem requestImeCommand_eq (g : Globals) (cmd : Char) :
    ∃ log, (∀ r, sessionOf r log = sessionOf r g.log) ∧
      g.requestImeCommand cmd = { g with log := log } := by
  have hsession := fun r => sessionOf_requestImeCommand r g cmd
  unfold Globals.requestImeCommand at hsession ⊢
  split
  · rename_i hserver
    rw [if_pos hserver] at hsession
    exact ⟨_, hsession, rfl⟩
  · exact ⟨g.log, fun _ => rfl, rfl⟩

/-! ### The loops over the objects -/

/-- A body whose effect on the object does not depend on the globals maps over the list. -/
theorem forEach_snd {body : Globals → TextInput → Globals × TextInput} {k : TextInput → TextInput}
    {l : List TextInput} :
    ∀ {g : Globals}, (∀ g, ∀ ti ∈ l, (body g ti).2 = k ti) → (forEach body g l).2 = l.map k := by
  induction l with
  | nil => intro g _; rfl
  | cons ti rest ih =>
    intro g hk
    show (body g ti).2 :: (forEach body (body g ti).1 rest).2 = k ti :: rest.map k
    rw [hk g ti (List.mem_cons_self ..), ih fun g ti' h => hk g ti' (List.mem_cons_of_mem _ h)]

/-- What every round keeps, the loop keeps. -/
theorem forEach_invariant {body : Globals → TextInput → Globals × TextInput} {P : Globals → Prop}
    {l : List TextInput} :
    ∀ {g : Globals}, (∀ g, ∀ ti ∈ l, P g → P (body g ti).1) → P g → P (forEach body g l).1 := by
  induction l with
  | nil => intro g _ hg; exact hg
  | cons ti rest ih =>
    intro g hstep hg
    show P (forEach body (body g ti).1 rest).1
    apply ih
    · exact fun g ti' h => hstep g ti' (List.mem_cons_of_mem _ h)
    · exact hstep g ti (List.mem_cons_self ..) hg

/-- When each round only moves the session of its own object, the loop moves them all. -/
theorem sessionOf_forEach (before : TextInput → Session) {after : TextInput → Session}
    {body : Globals → TextInput → Globals × TextInput} {l : List TextInput} :
    ∀ {g : Globals},
      (∀ g, ∀ ti ∈ l, sessionOf ti.resource g.log = some (before ti) →
        sessionOf ti.resource (body g ti).1.log = some (after ti)) →
      (∀ g, ∀ ti ∈ l, ∀ r ≠ ti.resource, sessionOf r (body g ti).1.log = sessionOf r g.log) →
      (l.map TextInput.resource).Nodup →
      (∀ ti ∈ l, sessionOf ti.resource g.log = some (before ti)) →
        (∀ ti ∈ l, sessionOf ti.resource (forEach body g l).1.log = some (after ti)) ∧
          ∀ r ∉ l.map TextInput.resource,
            sessionOf r (forEach body g l).1.log = sessionOf r g.log := by
  induction l with
  | nil => intro g _ _ _ _; exact ⟨fun ti h => absurd h (by simp), fun r _ => rfl⟩
  | cons ti rest ih =>
    intro g hown hother hnodup hbefore
    rw [List.map_cons, List.nodup_cons] at hnodup
    obtain ⟨hnot, hnodup⟩ := hnodup
    have hmem : ti ∈ ti :: rest := List.mem_cons_self ..
    have hrest : ∀ ti' ∈ rest, sessionOf ti'.resource (body g ti).1.log = some (before ti') := by
      intro ti' h
      have hne : ti'.resource ≠ ti.resource := fun heq => hnot (heq ▸ List.mem_map_of_mem h)
      rw [hother g ti hmem ti'.resource hne]
      exact hbefore ti' (List.mem_cons_of_mem _ h)
    obtain ⟨hin, hout⟩ := ih (fun g ti' h => hown g ti' (List.mem_cons_of_mem _ h))
      (fun g ti' h => hother g ti' (List.mem_cons_of_mem _ h)) hnodup hrest
    show (∀ ti' ∈ ti :: rest,
        sessionOf ti'.resource (forEach body (body g ti).1 rest).1.log = some (after ti')) ∧ _
    refine ⟨fun ti' h => ?_, fun r hr => ?_⟩
    · rcases List.mem_cons.mp h with rfl | h
      · rw [hout _ hnot]
        exact hown g _ hmem (hbefore _ hmem)
      · exact hin ti' h
    · rw [List.map_cons, List.mem_cons, not_or] at hr
      show sessionOf r (forEach body (body g ti).1 rest).1.log = sessionOf r g.log
      rw [hout r hr.2, hother g ti hmem r hr.1]

/-! ### The invariant -/

/-- The focused surface, the objects, the active object, its flag and the log agree. -/
structure FocusInv (h : Handler) : Prop where
  nodup_self : (h.textInputs.map TextInput.self).Nodup
  nodup_resource : (h.textInputs.map TextInput.resource).Nodup
  resource_lt : ∀ ti ∈ h.textInputs, ti.resource < h.nextResource
  focused_live : ∀ s, h.globals.focusedTextInputSurface = some s → ∃ c, h.surfaces s = some c
  listener_eq : h.globals.destroyListener = h.globals.focusedTextInputSurface
  entered_iff : ∀ ti ∈ h.textInputs, ti.entered = true ↔
    ∃ s, h.globals.focusedTextInputSurface = some s ∧ h.surfaces s = some ti.client
  surface_eq : ∀ ti ∈ h.textInputs,
    ti.enteredSurface = if ti.entered then h.globals.focusedTextInputSurface else none
  active_ok : ∀ a, h.globals.activeTextInput = some a →
    ∃ ti ∈ h.textInputs, ti.self = a ∧ ti.entered = true ∧ ti.currentEnabled = true
  committed_eq : h.globals.activeTextInputCommitted = h.globals.activeTextInput.isSome
  session_eq : ∀ ti ∈ h.textInputs, sessionOf ti.resource h.globals.log = some ti.session
  session_ok : ∀ r, (sessionOf r h.globals.log).isSome
  session_new : ∀ r ≥ h.nextResource, sessionOf r h.globals.log = some .outside

/-- `text_input_handler_init` has run: no objects, no focus, nothing sent. -/
def Handler.Initial (h : Handler) : Prop :=
  h.textInputs = [] ∧ h.globals.focusedTextInputSurface = none ∧
    h.globals.destroyListener = none ∧ h.globals.activeTextInput = none ∧
      h.globals.activeTextInputCommitted = false ∧ h.globals.textInputServer = true ∧
        h.globals.log = []

theorem focusInv_of_initial {h : Handler} (hi : h.Initial) : FocusInv h := by
  obtain ⟨hobjects, hfocus, hlistener, hactive, hcommitted, -, hlog⟩ := hi
  refine
    { nodup_self := by simp [hobjects]
      nodup_resource := by simp [hobjects]
      resource_lt := by simp [hobjects]
      focused_live := by simp [hfocus]
      listener_eq := by rw [hlistener, hfocus]
      entered_iff := by simp [hobjects]
      surface_eq := by simp [hobjects]
      active_ok := by simp [hactive]
      committed_eq := by simp [hcommitted, hactive]
      session_eq := by simp [hobjects]
      session_ok := by simp [hlog, sessionOf]
      session_new := by simp [hlog, sessionOf] }

/-- Two objects at one address are one object. -/
theorem FocusInv.eq_of_self_eq {h : Handler} (hi : FocusInv h) {ti tj : TextInput}
    (hti : ti ∈ h.textInputs) (htj : tj ∈ h.textInputs) (heq : ti.self = tj.self) : ti = tj :=
  List.inj_on_of_nodup_map hi.nodup_self hti htj heq

/-- An object is found at its own address. -/
theorem FocusInv.find_eq_some {h : Handler} (hi : FocusInv h) {self : ℕ} {ti : TextInput} :
    h.find self = some ti ↔ ti ∈ h.textInputs ∧ ti.self = self :=
  lookup_eq_some_iff hi.nodup_self

/-- The active object is listed, entered, enabled, and inside the session its fields describe. -/
theorem FocusInv.activeEnabled_mem {h : Handler} (hi : FocusInv h) {ti : TextInput}
    (hactive : h.activeEnabled = some ti) :
    ti ∈ h.textInputs ∧ ti.entered = true ∧ ti.currentEnabled = true := by
  unfold Handler.activeEnabled at hactive
  obtain ⟨hbind, henabled⟩ := Option.filter_eq_some_iff.mp hactive
  obtain ⟨a, ha, hfind⟩ := Option.bind_eq_some_iff.mp hbind
  obtain ⟨hmem, hself⟩ := hi.find_eq_some.mp hfind
  obtain ⟨tj, htj, hself', hentered, -⟩ := hi.active_ok a ha
  obtain rfl := hi.eq_of_self_eq hmem htj (hself.trans hself'.symm)
  exact ⟨hmem, hentered, henabled⟩

/-- An entered object has seen its enter and not yet its leave. -/
theorem FocusInv.session_inside {h : Handler} (hi : FocusInv h) {ti : TextInput}
    (hmem : ti ∈ h.textInputs) (hentered : ti.entered = true) :
    ∃ s, h.globals.focusedTextInputSurface = some s ∧ ti.enteredSurface = some s ∧
      sessionOf ti.resource h.globals.log = some (.inside s) := by
  obtain ⟨s, hs, -⟩ := (hi.entered_iff ti hmem).mp hentered
  have hsurface : ti.enteredSurface = some s := by
    rw [hi.surface_eq ti hmem, hentered, if_pos rfl, hs]
  refine ⟨s, hs, hsurface, ?_⟩
  rw [hi.session_eq ti hmem, TextInput.session, hsurface]

/-! ### Losing focus -/

/-- What `maybe_send_leave` makes of an object, whatever the globals are. -/
def TextInput.left (ti : TextInput) : TextInput :=
  if ti.entered then
    { ti with entered := false, enteredSurface := none }.resetTextInputRequestState
  else ti

theorem maybeSendLeave_snd (sendLeave : Bool) (g : Globals) (ti : TextInput) :
    (maybeSendLeave sendLeave g ti).2 = ti.left := by
  unfold maybeSendLeave TextInput.left
  split <;> rfl

/-- The globals after `maybe_send_leave` on an entered object. -/
theorem maybeSendLeave_fst {sendLeave : Bool} {g : Globals} {ti : TextInput} {surface : ℕ}
    (hentered : ti.entered = true) (hsurface : ti.enteredSurface = some surface) :
    (maybeSendLeave sendLeave g ti).1 =
      let g := if sendLeave then g.send (.leave ti.resource surface) else g
      if g.activeTextInput = some ti.self then
        if ti.currentEnabled then (g.setActiveTextInput none).requestImeHide
        else g.setActiveTextInput none
      else g := by
  simp only [maybeSendLeave, hentered, hsurface, if_true]

/-- `maybe_send_leave` sends a leave, or not; requests to the IME do not matter to clients. -/
theorem sessionOf_maybeSendLeave {sendLeave : Bool} {g : Globals} {ti : TextInput} {surface : ℕ}
    (hentered : ti.entered = true) (hsurface : ti.enteredSurface = some surface) (r : ℕ) :
    sessionOf r (maybeSendLeave sendLeave g ti).1.log =
      if sendLeave then
        (sessionOf r g.log).bind fun st => sessionStep r st (.leave ti.resource surface)
      else sessionOf r g.log := by
  rw [maybeSendLeave_fst hentered hsurface]
  cases sendLeave with
  | true =>
    simp only [if_true]
    split
    · split <;> simp [Globals.requestImeHide]
    · simp
  | false =>
    simp only [Bool.false_eq_true, if_false]
    split
    · split <;> simp [Globals.requestImeHide]
    · rfl

/-- The fields `maybe_send_leave` leaves alone, and what it does to the active pointer. -/
theorem maybeSendLeave_globals {sendLeave : Bool} {g : Globals} {ti : TextInput} {surface : ℕ}
    (hentered : ti.entered = true) (hsurface : ti.enteredSurface = some surface) :
    (maybeSendLeave sendLeave g ti).1.focusedTextInputSurface = g.focusedTextInputSurface ∧
      (maybeSendLeave sendLeave g ti).1.destroyListener = g.destroyListener ∧
        (maybeSendLeave sendLeave g ti).1.activeTextInput =
          (if g.activeTextInput = some ti.self then none else g.activeTextInput) ∧
        (g.activeTextInputCommitted = g.activeTextInput.isSome →
          (maybeSendLeave sendLeave g ti).1.activeTextInputCommitted =
            (maybeSendLeave sendLeave g ti).1.activeTextInput.isSome) := by
  rw [maybeSendLeave_fst hentered hsurface]
  have hactive : (if sendLeave then g.send (.leave ti.resource surface) else g).activeTextInput =
      g.activeTextInput := by split <;> rfl
  by_cases hself : g.activeTextInput = some ti.self
  · simp only [hactive, hself, if_true]
    obtain ⟨log, -, hlog⟩ := requestImeCommand_eq
      ((if sendLeave then g.send (.leave ti.resource surface) else g).setActiveTextInput none) 'H'
    simp only [Globals.requestImeHide, hlog]
    cases sendLeave <;> cases ti.currentEnabled <;>
      simp [Globals.setActiveTextInput, Globals.send]
  · simp only [hactive, hself, if_false]
    cases sendLeave <;> simp [Globals.send]

@[simp] theorem left_self (ti : TextInput) : ti.left.self = ti.self := by
  unfold TextInput.left
  split <;> rfl

@[simp] theorem left_resource (ti : TextInput) : ti.left.resource = ti.resource := by
  unfold TextInput.left
  split <;> rfl

@[simp] theorem left_client (ti : TextInput) : ti.left.client = ti.client := by
  unfold TextInput.left
  split <;> rfl

@[simp] theorem left_entered (ti : TextInput) : ti.left.entered = false := by
  unfold TextInput.left
  split
  · rfl
  · rename_i h
    simpa using h

/-- The active pointer after the loop: the object it named, entered, was in the list. -/
theorem active_forEach {body : Globals → TextInput → Globals × TextInput} {l : List TextInput} :
    ∀ {g : Globals},
      (∀ g, ∀ ti ∈ l, ti.entered = true → (body g ti).1.activeTextInput =
        if g.activeTextInput = some ti.self then none else g.activeTextInput) →
      (∀ g, ∀ ti ∈ l, ti.entered = false → (body g ti).1 = g) →
      (∀ a, g.activeTextInput = some a → ∃ ti ∈ l, ti.self = a ∧ ti.entered = true) →
        (forEach body g l).1.activeTextInput = none := by
  induction l with
  | nil =>
    intro g _ _ hmem
    cases ha : g.activeTextInput with
    | none => exact ha
    | some a =>
      obtain ⟨ti, hti, -⟩ := hmem a ha
      exact absurd hti (by simp)
  | cons ti rest ih =>
    intro g hin hout hmem
    show (forEach body (body g ti).1 rest).1.activeTextInput = none
    apply ih
    · exact fun g ti' h => hin g ti' (List.mem_cons_of_mem _ h)
    · exact fun g ti' h => hout g ti' (List.mem_cons_of_mem _ h)
    · intro a ha
      cases hentered : ti.entered with
      | false =>
        rw [hout g ti (List.mem_cons_self ..) hentered] at ha
        obtain ⟨tj, htj, hself, hj⟩ := hmem a ha
        rcases List.mem_cons.mp htj with rfl | htj
        · simp [hentered] at hj
        · exact ⟨tj, htj, hself, hj⟩
      | true =>
        rw [hin g ti (List.mem_cons_self ..) hentered] at ha
        split at ha
        · simp at ha
        · rename_i hne
          obtain ⟨tj, htj, hself, hj⟩ := hmem a ha
          rcases List.mem_cons.mp htj with rfl | htj
          · exact absurd (hself ▸ ha) hne
          · exact ⟨tj, htj, hself, hj⟩

/-- The state after the loop of `clear_text_input_focus` when every entered object is concerned. -/
structure Cleared (h : Handler) (sendLeave : Bool) (loop : Globals × List TextInput) : Prop where
  objects : loop.2 = h.textInputs.map TextInput.left
  focused : loop.1.focusedTextInputSurface = h.globals.focusedTextInputSurface
  active : loop.1.activeTextInput = none
  committed : loop.1.activeTextInputCommitted = false
  session : ∀ ti ∈ h.textInputs, sessionOf ti.resource loop.1.log =
    some (if sendLeave then .outside else ti.session)
  others : ∀ r ∉ h.textInputs.map TextInput.resource,
    sessionOf r loop.1.log = sessionOf r h.globals.log

section Clearing

variable {h : Handler} {surface : Option ℕ} {sendLeave : Bool}

/-- Every entered object has the focused surface, so the test of the loop body is `entered`. -/
theorem FocusInv.clearOne_cases (hi : FocusInv h)
    (hall : surface = none ∨ h.globals.focusedTextInputSurface = surface) (g : Globals)
    {ti : TextInput} (hmem : ti ∈ h.textInputs) :
    (ti.entered = false ∧ ti.session = .outside ∧ clearOne surface sendLeave g ti = (g, ti)) ∨
    (ti.entered = true ∧ ∃ s, ti.enteredSurface = some s ∧ ti.session = .inside s ∧
      clearOne surface sendLeave g ti = maybeSendLeave sendLeave g ti) := by
  cases hentered : ti.entered with
  | false =>
    have hnone := hi.surface_eq ti hmem
    rw [hentered, if_neg (by simp)] at hnone
    exact .inl ⟨rfl, by rw [TextInput.session, hnone], by simp [clearOne, hentered]⟩
  | true =>
    obtain ⟨s, hfocused, hsurface, -⟩ := hi.session_inside hmem hentered
    have hcond : surface = none ∨ ti.enteredSurface = surface := by
      rcases hall with hnone | heq
      · exact .inl hnone
      · exact .inr (by rw [hsurface, ← hfocused, heq])
    exact .inr ⟨rfl, s, hsurface, by rw [TextInput.session, hsurface],
      by simp only [clearOne, hentered, hcond, and_self, if_true]⟩

theorem FocusInv.cleared_active (hi : FocusInv h)
    (hall : surface = none ∨ h.globals.focusedTextInputSurface = surface) :
    (forEach (clearOne surface sendLeave) h.globals h.textInputs).1.activeTextInput = none := by
  apply active_forEach
  · intro g ti hmem hentered
    rcases hi.clearOne_cases hall g hmem with ⟨hnot, -, -⟩ | ⟨-, s, hsurface, -, heq⟩
    · simp [hnot] at hentered
    · rw [heq]
      exact (maybeSendLeave_globals hentered hsurface).2.2.1
  · intro g ti hmem hentered
    rcases hi.clearOne_cases hall g hmem with ⟨-, -, heq⟩ | ⟨hyes, -⟩
    · rw [heq]
    · simp [hyes] at hentered
  · intro a ha
    obtain ⟨ti, hmem, hself, hentered, -⟩ := hi.active_ok a ha
    exact ⟨ti, hmem, hself, hentered⟩

theorem FocusInv.cleared_globals (hi : FocusInv h)
    (hall : surface = none ∨ h.globals.focusedTextInputSurface = surface) :
    let loop := forEach (clearOne surface sendLeave) h.globals h.textInputs
    loop.1.focusedTextInputSurface = h.globals.focusedTextInputSurface ∧
      loop.1.activeTextInputCommitted = loop.1.activeTextInput.isSome := by
  apply forEach_invariant (P := fun g =>
    g.focusedTextInputSurface = h.globals.focusedTextInputSurface ∧
      g.activeTextInputCommitted = g.activeTextInput.isSome)
  · rintro g ti hmem ⟨hfocused, hcommitted⟩
    rcases hi.clearOne_cases hall g hmem with ⟨-, -, heq⟩ | ⟨hentered, s, hsurface, -, heq⟩
    · rw [heq]
      exact ⟨hfocused, hcommitted⟩
    · rw [heq]
      obtain ⟨hfocused', -, -, hcommitted'⟩ := maybeSendLeave_globals hentered hsurface
      exact ⟨hfocused'.trans hfocused, hcommitted' hcommitted⟩
  · exact ⟨rfl, hi.committed_eq⟩

theorem FocusInv.cleared_sessions (hi : FocusInv h)
    (hall : surface = none ∨ h.globals.focusedTextInputSurface = surface) :
    let loop := forEach (clearOne surface sendLeave) h.globals h.textInputs
    (∀ ti ∈ h.textInputs, sessionOf ti.resource loop.1.log =
      some (if sendLeave then .outside else ti.session)) ∧
    ∀ r ∉ h.textInputs.map TextInput.resource,
      sessionOf r loop.1.log = sessionOf r h.globals.log := by
  apply sessionOf_forEach TextInput.session
  · intro g ti hmem hbefore
    rcases hi.clearOne_cases hall g hmem with
      ⟨-, houtside, heq⟩ | ⟨hentered, s, hsurface, hinside, heq⟩
    · rw [heq, hbefore, houtside]
      simp
    · rw [heq, sessionOf_maybeSendLeave hentered hsurface, hbefore, hinside]
      cases sendLeave <;> simp [sessionStep]
  · intro g ti hmem r hr
    rcases hi.clearOne_cases hall g hmem with ⟨-, -, heq⟩ | ⟨hentered, s, hsurface, -, heq⟩
    · rw [heq]
    · rw [heq, sessionOf_maybeSendLeave hentered hsurface]
      cases sendLeave <;> simp [sessionStep, hr.symm]
  · exact hi.nodup_resource
  · exact hi.session_eq

/-- The loop of `clear_text_input_focus` over objects that all have the surface. -/
theorem FocusInv.cleared (hi : FocusInv h) (sendLeave : Bool)
    (hall : surface = none ∨ h.globals.focusedTextInputSurface = surface) :
    Cleared h sendLeave (forEach (clearOne surface sendLeave) h.globals h.textInputs) := by
  obtain ⟨hfocused, hcommitted⟩ := hi.cleared_globals hall
  obtain ⟨hsession, hothers⟩ := hi.cleared_sessions hall
  refine ⟨forEach_snd fun g ti hmem => ?_, hfocused, hi.cleared_active hall, ?_, hsession, hothers⟩
  · rcases hi.clearOne_cases hall g hmem with ⟨hentered, -, heq⟩ | ⟨-, s, -, -, heq⟩
    · rw [heq]
      simp [TextInput.left, hentered]
    · rw [heq, maybeSendLeave_snd]
  · rw [hcommitted, hi.cleared_active hall]
    rfl

end Clearing

/-- Nothing is focused, every object is left, and the log has ended every session. -/
theorem FocusInv.unfocused {h : Handler} (hi : FocusInv h) {g : Globals}
    {surfaces : ℕ → Option ℕ} (hfocused : g.focusedTextInputSurface = none)
    (hlistener : g.destroyListener = none) (hactive : g.activeTextInput = none)
    (hcommitted : g.activeTextInputCommitted = false)
    (hsession : ∀ ti ∈ h.textInputs, sessionOf ti.resource g.log = some .outside)
    (hok : ∀ r, (sessionOf r g.log).isSome)
    (hnew : ∀ r ≥ h.nextResource, sessionOf r g.log = some .outside) :
    FocusInv { h with
      globals := g, textInputs := h.textInputs.map TextInput.left, surfaces := surfaces } := by
  have hsurface : ∀ ti ∈ h.textInputs, ti.left.enteredSurface = none := by
    intro ti hmem
    cases hentered : ti.entered with
    | true => simp [TextInput.left, hentered, TextInput.resetTextInputRequestState,
        TextInput.clearPendingTextInputState, TextInput.clearCommittedTextInputState,
        TextInput.clearSurroundingTextState, TextInput.clearCommittedSurroundingTextState]
    | false => simpa [TextInput.left, hentered] using hi.surface_eq ti hmem
  refine
    { nodup_self := by simpa [Function.comp_def] using hi.nodup_self
      nodup_resource := by simpa [Function.comp_def] using hi.nodup_resource
      resource_lt := ?_
      focused_live := by simp [hfocused]
      listener_eq := by rw [hlistener, hfocused]
      entered_iff := ?_
      surface_eq := ?_
      active_ok := by simp [hactive]
      committed_eq := by simp [hcommitted, hactive]
      session_eq := ?_
      session_ok := hok
      session_new := hnew }
  · intro ti' hmem'
    obtain ⟨ti, hmem, rfl⟩ := List.mem_map.mp hmem'
    simpa using hi.resource_lt ti hmem
  · intro ti' hmem'
    obtain ⟨ti, hmem, rfl⟩ := List.mem_map.mp hmem'
    simp [hfocused]
  · intro ti' hmem'
    obtain ⟨ti, hmem, rfl⟩ := List.mem_map.mp hmem'
    simp [hsurface ti hmem]
  · intro ti' hmem'
    obtain ⟨ti, hmem, rfl⟩ := List.mem_map.mp hmem'
    rw [left_resource, hsession ti hmem, TextInput.session, hsurface ti hmem]

/-- A resource number of no object that is listed. -/
theorem FocusInv.not_listed {h : Handler} (hi : FocusInv h) {r : ℕ} (hr : r ≥ h.nextResource) :
    r ∉ h.textInputs.map TextInput.resource := by
  intro hm
  obtain ⟨ti, hmem, rfl⟩ := List.mem_map.mp hm
  have hlt := hi.resource_lt ti hmem
  omega

/-- Clearing some other surface than the focused one changes nothing. -/
theorem FocusInv.clear_other {h : Handler} (hi : FocusInv h) {surface : ℕ} {sendLeave : Bool}
    (hne : h.globals.focusedTextInputSurface ≠ some surface) :
    clearTextInputFocus h (some surface) sendLeave = h := by
  have hbody : ∀ g, ∀ ti ∈ h.textInputs, clearOne (some surface) sendLeave g ti = (g, ti) := by
    intro g ti hmem
    have hsurface := hi.surface_eq ti hmem
    have hcond : ¬ (ti.entered = true ∧ (some surface = none ∨ ti.enteredSurface = some surface)) := by
      rintro ⟨hentered, hsome | heq⟩
      · simp at hsome
      · rw [hentered, if_pos rfl, heq] at hsurface
        exact hne hsurface.symm
    simp only [clearOne, hcond, if_false]
  have hobjects : (forEach (clearOne (some surface) sendLeave) h.globals h.textInputs).2 =
      h.textInputs := by
    rw [forEach_snd (k := id) fun g ti hmem => by rw [hbody g ti hmem]; rfl, List.map_id]
  have hglobals : (forEach (clearOne (some surface) sendLeave) h.globals h.textInputs).1 =
      h.globals := by
    apply forEach_invariant (P := fun g => g = h.globals)
    · intro g ti hmem hg
      rw [hbody g ti hmem, hg]
    · rfl
  simp only [clearTextInputFocus, hobjects, hglobals, hne, reduceCtorEq, or_self, if_false]

/-- The handler after clearing every focus, or the focus of the focused surface. -/
theorem FocusInv.clear_eq {h : Handler} (hi : FocusInv h) {surface : Option ℕ} {sendLeave : Bool}
    (hall : surface = none ∨ h.globals.focusedTextInputSurface = surface) :
    clearTextInputFocus h surface sendLeave =
      let loop := forEach (clearOne surface sendLeave) h.globals h.textInputs
      { h with
        globals := { loop.1 with focusedTextInputSurface := none, destroyListener := none }
        textInputs := h.textInputs.map TextInput.left } := by
  have hc := hi.cleared sendLeave hall
  simp only [clearTextInputFocus, hc.focused, hall, if_true, hc.objects]

/-- A leave of the focused surface, or of everything, keeps the invariant and focuses nothing. -/
theorem FocusInv.leave {h : Handler} (hi : FocusInv h) {surface : Option ℕ}
    (hall : surface = none ∨ h.globals.focusedTextInputSurface = surface) :
    FocusInv (clearTextInputFocus h surface true) := by
  have hc := hi.cleared true hall
  rw [hi.clear_eq hall]
  apply hi.unfocused
  · rfl
  · rfl
  · exact hc.active
  · exact hc.committed
  · exact hc.session
  · intro r
    by_cases hr : r ∈ h.textInputs.map TextInput.resource
    · obtain ⟨ti, hmem, rfl⟩ := List.mem_map.mp hr
      simp [hc.session ti hmem]
    · rw [hc.others r hr]
      exact hi.session_ok r
  · intro r hr
    rw [hc.others r (hi.not_listed hr)]
    exact hi.session_new r hr

theorem FocusInv.keyboardLeave {h : Handler} (hi : FocusInv h) (surface : Option ℕ) :
    FocusInv (textInputHandleKeyboardLeave h surface) := by
  unfold textInputHandleKeyboardLeave
  cases surface with
  | none => exact hi.leave (.inl rfl)
  | some s =>
    by_cases hs : h.globals.focusedTextInputSurface = some s
    · exact hi.leave (.inr hs)
    · rw [hi.clear_other hs]
      exact hi

/-- The focused surface goes away: the listener runs and ends every session inside it. -/
theorem FocusInv.focusedDestroyed {h : Handler} (hi : FocusInv h) {surface : ℕ}
    (hs : h.globals.focusedTextInputSurface = some surface) :
    FocusInv (surfaceDestroyed h surface) := by
  have hc := hi.cleared false (.inr hs)
  have hlistener : h.globals.destroyListener = some surface := hi.listener_eq.trans hs
  simp only [Ime.surfaceDestroyed, hlistener, if_true]
  rw [hi.clear_eq (.inr hs)]
  apply hi.unfocused
  · rfl
  · rfl
  · exact hc.active
  · exact hc.committed
  · -- an object was outside or inside the surface that is gone
    intro ti hmem
    have hsession := hc.session ti hmem
    have hsurface := hi.surface_eq ti hmem
    simp only [Bool.false_eq_true, if_false] at hsession
    simp only [sessionOf_send, hsession, Option.bind_some, sessionStep, TextInput.session,
      hsurface, hs]
    cases ti.entered <;> simp
  · intro r
    have hsome : (sessionOf r (forEach (clearOne (some surface) false) h.globals
        h.textInputs).1.log).isSome := by
      by_cases hr : r ∈ h.textInputs.map TextInput.resource
      · obtain ⟨ti, hmem, rfl⟩ := List.mem_map.mp hr
        simp [hc.session ti hmem]
      · rw [hc.others r hr]
        exact hi.session_ok r
    obtain ⟨st, hst⟩ := Option.isSome_iff_exists.mp hsome
    simp [hst, sessionStep]
  · intro r hr
    simp only [sessionOf_send, hc.others r (hi.not_listed hr), hi.session_new r hr,
      Option.bind_some, sessionStep, reduceCtorEq, if_false]

/-- No object is inside a surface other than the focused one. -/
theorem FocusInv.session_ne {h : Handler} (hi : FocusInv h) {surface : ℕ}
    (hs : h.globals.focusedTextInputSurface ≠ some surface) {ti : TextInput}
    (hmem : ti ∈ h.textInputs) : ti.session ≠ .inside surface := by
  rw [TextInput.session, hi.surface_eq ti hmem]
  cases ti.entered with
  | false => simp
  | true =>
    intro hinside
    cases hf : h.globals.focusedTextInputSurface with
    | none => simp [hf] at hinside
    | some s =>
      simp only [if_true, hf, Session.inside.injEq] at hinside
      exact hs (hinside ▸ hf)

/-- Some other surface goes away: no object points at it. -/
theorem FocusInv.otherDestroyed {h : Handler} (hi : FocusInv h) {surface : ℕ}
    (hs : h.globals.focusedTextInputSurface ≠ some surface) :
    FocusInv (surfaceDestroyed h surface) := by
  have hlistener : h.globals.destroyListener ≠ some surface := by rwa [hi.listener_eq]
  have hother : ∀ s, h.globals.focusedTextInputSurface = some s → s ≠ surface :=
    fun s hs' heq => hs (heq ▸ hs')
  simp only [Ime.surfaceDestroyed, hlistener, if_false]
  refine
    { hi with
      focused_live := ?_
      listener_eq := hi.listener_eq
      entered_iff := ?_
      active_ok := hi.active_ok
      committed_eq := hi.committed_eq
      surface_eq := hi.surface_eq
      session_eq := ?_
      session_ok := ?_
      session_new := ?_ }
  · intro s hs'
    obtain ⟨c, hc⟩ := hi.focused_live s hs'
    exact ⟨c, by simpa [Function.update_of_ne (hother s hs')] using hc⟩
  · intro ti hmem
    rw [hi.entered_iff ti hmem]
    show (∃ s, h.globals.focusedTextInputSurface = some s ∧ h.surfaces s = some ti.client) ↔
      ∃ s, h.globals.focusedTextInputSurface = some s ∧
        Function.update h.surfaces surface none s = some ti.client
    constructor <;> rintro ⟨s, hs', hc⟩ <;> refine ⟨s, hs', ?_⟩
    · rwa [Function.update_of_ne (hother s hs')]
    · rwa [Function.update_of_ne (hother s hs')] at hc
  · intro ti hmem
    simp only [sessionOf_send, hi.session_eq ti hmem, Option.bind_some, sessionStep,
      hi.session_ne hs hmem, if_false]
  · intro r
    obtain ⟨st, hst⟩ := Option.isSome_iff_exists.mp (hi.session_ok r)
    simp [hst, sessionStep]
  · intro r hr
    simp only [sessionOf_send, hi.session_new r hr, Option.bind_some, sessionStep, reduceCtorEq,
      if_false]

theorem FocusInv.surfaceDestroyed {h : Handler} (hi : FocusInv h) (surface : ℕ) :
    FocusInv (surfaceDestroyed h surface) := by
  by_cases hs : h.globals.focusedTextInputSurface = some surface
  · exact hi.focusedDestroyed hs
  · exact hi.otherDestroyed hs

/-! ### Gaining focus -/

/-- What the enter loop makes of an object. -/
def TextInput.joined (surfaces : ℕ → Option ℕ) (surface : ℕ) (ti : TextInput) : TextInput :=
  if surfaces surface = some ti.client then
    { ti.resetTextInputRequestState with entered := true, enteredSurface := some surface }
  else ti

section Joining

variable {surfaces : ℕ → Option ℕ} {surface : ℕ}

@[simp] theorem joined_self (ti : TextInput) : (ti.joined surfaces surface).self = ti.self := by
  unfold TextInput.joined
  split <;> rfl

@[simp] theorem joined_resource (ti : TextInput) :
    (ti.joined surfaces surface).resource = ti.resource := by
  unfold TextInput.joined
  split <;> rfl

@[simp] theorem joined_client (ti : TextInput) :
    (ti.joined surfaces surface).client = ti.client := by
  unfold TextInput.joined
  split <;> rfl

theorem joined_entered (ti : TextInput) : (ti.joined surfaces surface).entered =
    if surfaces surface = some ti.client then true else ti.entered := by
  unfold TextInput.joined
  split <;> rfl

theorem joined_enteredSurface (ti : TextInput) : (ti.joined surfaces surface).enteredSurface =
    if surfaces surface = some ti.client then some surface else ti.enteredSurface := by
  unfold TextInput.joined
  split <;> rfl

/-- The loop of `text_input_handle_keyboard_enter`, started with every session outside. -/
theorem enter_sessions (surfaces : ℕ → Option ℕ) (surface : ℕ) {l : List TextInput} {g : Globals}
    (hnodup : (l.map TextInput.resource).Nodup)
    (houtside : ∀ ti ∈ l, sessionOf ti.resource g.log = some .outside) :
    let loop := forEach (enterOne surfaces surface) g l
    (∀ ti ∈ l, sessionOf ti.resource loop.1.log =
      some (if surfaces surface = some ti.client then .inside surface else .outside)) ∧
    ∀ r ∉ l.map TextInput.resource, sessionOf r loop.1.log = sessionOf r g.log := by
  apply sessionOf_forEach fun _ => .outside
  · intro g ti _ hbefore
    unfold enterOne
    split
    · simp [hbefore, sessionStep]
    · exact hbefore
  · intro g ti _ r hr
    unfold enterOne
    split
    · simp [sessionStep, hr.symm]
    · rfl
  · exact hnodup
  · exact houtside

/-- The loop touches the objects and the log only. -/
theorem enter_globals (surfaces : ℕ → Option ℕ) (surface : ℕ) (g : Globals) (l : List TextInput) :
    ∃ log, (forEach (enterOne surfaces surface) g l).1 = { g with log := log } := by
  apply forEach_invariant (P := fun g' => ∃ log, g' = { g with log := log })
  · rintro _ ti _ ⟨log, rfl⟩
    unfold enterOne
    split
    · exact ⟨_, rfl⟩
    · exact ⟨log, rfl⟩
  · exact ⟨g.log, rfl⟩

end Joining

/-- With nothing focused no object is entered. -/
theorem FocusInv.unentered {h : Handler} (hi : FocusInv h)
    (hnone : h.globals.focusedTextInputSurface = none) {ti : TextInput} (hmem : ti ∈ h.textInputs) :
    ti.entered = false ∧ ti.session = .outside := by
  have hentered : ti.entered = false := by
    cases hentered : ti.entered with
    | false => rfl
    | true =>
      obtain ⟨s, hs, -⟩ := (hi.entered_iff ti hmem).mp hentered
      simp [hnone] at hs
  refine ⟨hentered, ?_⟩
  rw [TextInput.session, hi.surface_eq ti hmem, hentered]
  simp

/-- A focused surface gets every object of its client, when nothing was focused. -/
theorem FocusInv.enter {h : Handler} (hi : FocusInv h)
    (hnone : h.globals.focusedTextInputSurface = none) {surface client : ℕ}
    (hlive : h.surfaces surface = some client) {g : Globals}
    (hg : g = { h.globals with
      focusedTextInputSurface := some surface, destroyListener := some surface }) :
    FocusInv { h with
      globals := (forEach (enterOne h.surfaces surface) g h.textInputs).1
      textInputs := (forEach (enterOne h.surfaces surface) g h.textInputs).2 } := by
  have hobjects : (forEach (enterOne h.surfaces surface) g h.textInputs).2 =
      h.textInputs.map (TextInput.joined h.surfaces surface) := by
    apply forEach_snd
    intro g ti _
    unfold enterOne TextInput.joined
    split <;> rfl
  have hsessions : ∀ ti ∈ h.textInputs, sessionOf ti.resource g.log = some .outside := by
    intro ti hmem
    rw [hg, ← (hi.unentered hnone hmem).2]
    exact hi.session_eq ti hmem
  obtain ⟨hin, hout⟩ := enter_sessions h.surfaces surface hi.nodup_resource hsessions
  have hactive : h.globals.activeTextInput = none := by
    cases ha : h.globals.activeTextInput with
    | none => rfl
    | some a =>
      obtain ⟨ti, hmem, -, hentered, -⟩ := hi.active_ok a ha
      simp [(hi.unentered hnone hmem).1] at hentered
  have hcommitted := hi.committed_eq
  rw [hactive] at hcommitted
  obtain ⟨log, hlog⟩ := enter_globals h.surfaces surface g h.textInputs
  have hfocused' : (forEach (enterOne h.surfaces surface) g
      h.textInputs).1.focusedTextInputSurface = some surface := by rw [hlog, hg]
  have hlistener' : (forEach (enterOne h.surfaces surface) g
      h.textInputs).1.destroyListener = some surface := by rw [hlog, hg]
  have hactive' : (forEach (enterOne h.surfaces surface) g
      h.textInputs).1.activeTextInput = none := by rw [hlog, hg]; exact hactive
  have hcommitted' : (forEach (enterOne h.surfaces surface) g
      h.textInputs).1.activeTextInputCommitted = false := by rw [hlog, hg]; exact hcommitted
  rw [hobjects]
  refine
    { nodup_self := by simpa [Function.comp_def] using hi.nodup_self
      nodup_resource := by simpa [Function.comp_def] using hi.nodup_resource
      resource_lt := ?_
      focused_live := ?_
      listener_eq := hlistener'.trans hfocused'.symm
      entered_iff := ?_
      surface_eq := ?_
      active_ok := by simp [hactive']
      committed_eq := by simp [hcommitted', hactive']
      session_eq := ?_
      session_ok := ?_
      session_new := ?_ }
  · intro ti' hmem'
    obtain ⟨ti, hmem, rfl⟩ := List.mem_map.mp hmem'
    simpa using hi.resource_lt ti hmem
  · intro s hs
    rw [hfocused', Option.some.injEq] at hs
    exact ⟨client, hs ▸ hlive⟩
  · intro ti' hmem'
    obtain ⟨ti, hmem, rfl⟩ := List.mem_map.mp hmem'
    have hentered := (hi.unentered hnone hmem).1
    by_cases hclient : h.surfaces surface = some ti.client
    · simp [hfocused', hclient, joined_entered]
    · simp [hfocused', hclient, joined_entered, hentered]
  · intro ti' hmem'
    obtain ⟨ti, hmem, rfl⟩ := List.mem_map.mp hmem'
    have hsurface := hi.surface_eq ti hmem
    have hentered := (hi.unentered hnone hmem).1
    rw [hentered, if_neg (by simp)] at hsurface
    by_cases hclient : h.surfaces surface = some ti.client
    · simp [hfocused', hclient, joined_entered, joined_enteredSurface]
    · simp [hclient, joined_entered, joined_enteredSurface, hentered, hsurface]
  · intro ti' hmem'
    obtain ⟨ti, hmem, rfl⟩ := List.mem_map.mp hmem'
    have houtside := (hi.unentered hnone hmem).2
    rw [joined_resource, hin ti hmem]
    by_cases hclient : h.surfaces surface = some ti.client
    · simp [TextInput.session, joined_enteredSurface, hclient]
    · rw [if_neg hclient, TextInput.session, joined_enteredSurface, if_neg hclient]
      exact congrArg some houtside.symm
  · intro r
    by_cases hr : r ∈ h.textInputs.map TextInput.resource
    · obtain ⟨ti, hmem, rfl⟩ := List.mem_map.mp hr
      simp [hin ti hmem]
    · rw [hout r hr, hg]
      exact hi.session_ok r
  · intro r hr
    rw [hout r (hi.not_listed hr), hg]
    exact hi.session_new r hr

/-- A keyboard enter, from any focus to any live surface. -/
theorem FocusInv.keyboardEnter {h : Handler} (hi : FocusInv h) {surface client : ℕ}
    (hlive : h.surfaces surface = some client) :
    FocusInv (textInputHandleKeyboardEnter h surface) := by
  unfold textInputHandleKeyboardEnter
  split
  · exact hi
  · have hleft := hi.leave (.inl rfl : (none : Option ℕ) = none ∨ _)
    have hnone : (clearTextInputFocus h none true).globals.focusedTextInputSurface = none := by
      simp [clearTextInputFocus]
    exact hleft.enter hnone hlive rfl

/-! ### Requests -/

/-- The fields a request never touches. -/
structure SameFocus (ti ti' : TextInput) : Prop where
  self_eq : ti'.self = ti.self
  resource_eq : ti'.resource = ti.resource
  client_eq : ti'.client = ti.client
  entered_eq : ti'.entered = ti.entered
  surface_eq : ti'.enteredSurface = ti.enteredSurface

theorem SameFocus.refl (ti : TextInput) : SameFocus ti ti := ⟨rfl, rfl, rfl, rfl, rfl⟩

/-- Objects may change as requests change them, and the active pointer with them. -/
theorem FocusInv.update {h : Handler} (hi : FocusInv h) {f : TextInput → TextInput} {g : Globals}
    (hf : ∀ ti ∈ h.textInputs, SameFocus ti (f ti))
    (hfocused : g.focusedTextInputSurface = h.globals.focusedTextInputSurface)
    (hlistener : g.destroyListener = h.globals.destroyListener)
    (hsession : ∀ r, sessionOf r g.log = sessionOf r h.globals.log)
    (hactive : ∀ a, g.activeTextInput = some a →
      ∃ ti ∈ h.textInputs, ti.self = a ∧ ti.entered = true ∧ (f ti).currentEnabled = true)
    (hcommitted : g.activeTextInputCommitted = g.activeTextInput.isSome) :
    FocusInv { h with globals := g, textInputs := h.textInputs.map f } := by
  have hself : (h.textInputs.map f).map TextInput.self = h.textInputs.map TextInput.self := by
    rw [List.map_map]
    exact List.map_congr_left fun ti hmem => (hf ti hmem).self_eq
  have hresource : (h.textInputs.map f).map TextInput.resource =
      h.textInputs.map TextInput.resource := by
    rw [List.map_map]
    exact List.map_congr_left fun ti hmem => (hf ti hmem).resource_eq
  refine
    { nodup_self := by rw [hself]; exact hi.nodup_self
      nodup_resource := by rw [hresource]; exact hi.nodup_resource
      resource_lt := ?_
      focused_live := fun s hs => hi.focused_live s (hfocused ▸ hs)
      listener_eq := by rw [hlistener, hfocused]; exact hi.listener_eq
      entered_iff := ?_
      surface_eq := ?_
      active_ok := ?_
      committed_eq := hcommitted
      session_eq := ?_
      session_ok := fun r => by rw [hsession]; exact hi.session_ok r
      session_new := fun r hr => by rw [hsession]; exact hi.session_new r hr }
  · intro ti' hmem'
    obtain ⟨ti, hmem, rfl⟩ := List.mem_map.mp hmem'
    rw [(hf ti hmem).resource_eq]
    exact hi.resource_lt ti hmem
  · intro ti' hmem'
    obtain ⟨ti, hmem, rfl⟩ := List.mem_map.mp hmem'
    rw [(hf ti hmem).entered_eq, (hf ti hmem).client_eq, hfocused]
    exact hi.entered_iff ti hmem
  · intro ti' hmem'
    obtain ⟨ti, hmem, rfl⟩ := List.mem_map.mp hmem'
    rw [(hf ti hmem).entered_eq, (hf ti hmem).surface_eq, hfocused]
    exact hi.surface_eq ti hmem
  · intro a ha
    obtain ⟨ti, hmem, hself', hentered, henabled⟩ := hactive a ha
    refine ⟨f ti, List.mem_map_of_mem hmem, ?_, ?_, henabled⟩
    · rw [(hf ti hmem).self_eq, hself']
    · rw [(hf ti hmem).entered_eq, hentered]
  · intro ti' hmem'
    obtain ⟨ti, hmem, rfl⟩ := List.mem_map.mp hmem'
    rw [(hf ti hmem).resource_eq, hsession, hi.session_eq ti hmem]
    simp only [TextInput.session, (hf ti hmem).surface_eq]

/-- A request that leaves the committed state enabled or not as it is. -/
theorem FocusInv.modify {h : Handler} (hi : FocusInv h) (self : ℕ) {f : TextInput → TextInput}
    (hf : ∀ ti, SameFocus ti (f ti) ∧ (f ti).currentEnabled = ti.currentEnabled) :
    FocusInv (h.modify self f) := by
  apply hi.update
  · intro ti _
    split
    · exact (hf ti).1
    · exact .refl ti
  · rfl
  · rfl
  · exact fun r => rfl
  · intro a ha
    obtain ⟨ti, hmem, hself, hentered, henabled⟩ := hi.active_ok a ha
    refine ⟨ti, hmem, hself, hentered, ?_⟩
    split
    · rw [(hf ti).2, henabled]
    · exact henabled
  · exact hi.committed_eq

theorem sameFocus_tiEnable (ti : TextInput) :
    SameFocus ti (tiEnable ti) ∧ (tiEnable ti).currentEnabled = ti.currentEnabled := by
  unfold tiEnable
  split
  · exact ⟨⟨rfl, rfl, rfl, rfl, rfl⟩, rfl⟩
  · exact ⟨.refl ti, rfl⟩

theorem sameFocus_tiDisable (ti : TextInput) :
    SameFocus ti (tiDisable ti) ∧ (tiDisable ti).currentEnabled = ti.currentEnabled := by
  unfold tiDisable
  split
  · exact ⟨⟨rfl, rfl, rfl, rfl, rfl⟩, rfl⟩
  · exact ⟨.refl ti, rfl⟩

theorem sameFocus_tiSetSurroundingText (text : Option CString) (cursor anchor : ℤ) (copied : Bool)
    (ti : TextInput) : SameFocus ti (tiSetSurroundingText text cursor anchor copied ti) ∧
      (tiSetSurroundingText text cursor anchor copied ti).currentEnabled = ti.currentEnabled := by
  unfold tiSetSurroundingText
  split
  · exact ⟨⟨rfl, rfl, rfl, rfl, rfl⟩, rfl⟩
  · exact ⟨.refl ti, rfl⟩

theorem sameFocus_tiSetCursorRectangle (rectangle : Rectangle) (ti : TextInput) :
    SameFocus ti (tiSetCursorRectangle rectangle ti) ∧
      (tiSetCursorRectangle rectangle ti).currentEnabled = ti.currentEnabled := by
  unfold tiSetCursorRectangle
  split
  · exact ⟨⟨rfl, rfl, rfl, rfl, rfl⟩, rfl⟩
  · exact ⟨.refl ti, rfl⟩

/-- A commit never moves focus. -/
theorem sameFocus_tiCommit (g : Globals) (ti : TextInput) : SameFocus ti (tiCommit g ti).2 := by
  unfold tiCommit
  split
  · simp only [TextInput.applySurroundingText, TextInput.applyCursorRectangle]
    cases ti.pendingEnabled <;> cases ti.pendingSurroundingTextSet <;>
      cases ti.pendingCursorRectangleSet <;> exact ⟨rfl, rfl, rfl, rfl, rfl⟩
  · exact ⟨rfl, rfl, rfl, rfl, rfl⟩

@[simp] theorem applySurroundingText_self (ti : TextInput) :
    ti.applySurroundingText.self = ti.self := by
  unfold TextInput.applySurroundingText
  split <;> rfl

@[simp] theorem applySurroundingText_currentEnabled (ti : TextInput) :
    ti.applySurroundingText.currentEnabled = ti.currentEnabled := by
  unfold TextInput.applySurroundingText
  split <;> rfl

@[simp] theorem applyCursorRectangle_currentEnabled (ti : TextInput) :
    ti.applyCursorRectangle.currentEnabled = ti.currentEnabled := by
  unfold TextInput.applyCursorRectangle
  split <;> rfl

/-- A commit of an entered object that enables it makes it active. -/
theorem tiCommit_enabled {g : Globals} {ti : TextInput} (hentered : ti.entered = true)
    (hpending : ti.pendingEnabled = true) :
    (tiCommit g ti).2.currentEnabled = true ∧
      ∃ log, (∀ r, sessionOf r log = sessionOf r g.log) ∧ (tiCommit g ti).1 =
        { g with
          activeTextInput := some ti.self, activeTextInputCommitted := true, log := log } := by
  refine ⟨by simp [tiCommit, hentered, hpending], ?_⟩
  cases hwas : ti.currentEnabled with
  | true =>
    refine ⟨g.log, fun _ => rfl, ?_⟩
    simp [tiCommit, hentered, hpending, hwas, Globals.setActiveTextInput]
  | false =>
    obtain ⟨log, hsession, hlog⟩ := requestImeCommand_eq
      { g with activeTextInput := some ti.self, activeTextInputCommitted := true } 'S'
    refine ⟨log, hsession, ?_⟩
    rw [← hlog]
    simp [tiCommit, hentered, hpending, hwas, Globals.setActiveTextInput, Globals.requestImeShow]

/-- A commit of an entered object that disables it makes nothing active if it was. -/
theorem tiCommit_disabled {g : Globals} {ti : TextInput} (hentered : ti.entered = true)
    (hpending : ti.pendingEnabled = false) (hactive : g.activeTextInput = some ti.self) :
    ∃ log, (∀ r, sessionOf r log = sessionOf r g.log) ∧ (tiCommit g ti).1 =
      { g with activeTextInput := none, activeTextInputCommitted := false, log := log } := by
  cases hwas : ti.currentEnabled with
  | false =>
    refine ⟨g.log, fun _ => rfl, ?_⟩
    simp [tiCommit, hentered, hpending, hwas, hactive, Globals.setActiveTextInput]
  | true =>
    obtain ⟨log, hsession, hlog⟩ := requestImeCommand_eq
      { g with activeTextInput := none, activeTextInputCommitted := false } 'H'
    refine ⟨log, hsession, ?_⟩
    rw [← hlog]
    simp [tiCommit, hentered, hpending, hwas, hactive, Globals.setActiveTextInput,
      Globals.requestImeHide]

/-- Any other commit leaves the globals alone. -/
theorem tiCommit_idle {g : Globals} {ti : TextInput}
    (h : ti.entered = false ∨ ti.pendingEnabled = false ∧ g.activeTextInput ≠ some ti.self) :
    (tiCommit g ti).1 = g := by
  rcases h with hentered | ⟨hpending, hactive⟩
  · simp [tiCommit, hentered]
  · cases hentered : ti.entered <;> simp [tiCommit, hentered, hpending, hactive]

/-- A commit may change the active object, to an entered and enabled one or to none. -/
theorem FocusInv.commit {h : Handler} (hi : FocusInv h) (self : ℕ) : FocusInv (h.commit self) := by
  unfold Handler.commit
  cases hfind : h.find self with
  | none => exact hi
  | some ti =>
    obtain ⟨hmem, rfl⟩ := hi.find_eq_some.mp hfind
    have honly : ∀ tj ∈ h.textInputs, tj.self = ti.self → tj = ti :=
      fun tj htj heq => hi.eq_of_self_eq htj hmem heq
    have hsame : ∀ tj ∈ h.textInputs, SameFocus tj
        (if tj.self = ti.self then (tiCommit h.globals ti).2 else tj) := by
      intro tj htj
      split
      · rename_i heq
        rw [honly tj htj heq]
        exact sameFocus_tiCommit h.globals ti
      · exact .refl tj
    -- when the globals stay, the active object is another one and stays as it is
    have hidle : (ti.entered = false ∨
        ti.pendingEnabled = false ∧ h.globals.activeTextInput ≠ some ti.self) →
        FocusInv { h.modify ti.self fun _ => (tiCommit h.globals ti).2 with
          globals := (tiCommit h.globals ti).1 } := by
      intro hcase
      have hg := tiCommit_idle (g := h.globals) hcase
      apply hi.update hsame
      · rw [hg]
      · rw [hg]
      · exact fun r => by rw [hg]
      · intro a ha
        rw [hg] at ha
        obtain ⟨tj, htj, rfl, hentered, henabled⟩ := hi.active_ok a ha
        refine ⟨tj, htj, rfl, hentered, ?_⟩
        have hne : tj.self ≠ ti.self := by
          intro heq
          obtain rfl := honly tj htj heq
          rcases hcase with hnot | ⟨-, hnot⟩
          · simp [hentered] at hnot
          · exact hnot ha
        rw [if_neg hne]
        exact henabled
      · rw [hg]
        exact hi.committed_eq
    cases hentered : ti.entered with
    | false => exact hidle (.inl hentered)
    | true =>
      cases hpending : ti.pendingEnabled with
      | true =>
        obtain ⟨henabled, log, hsession, hg⟩ := tiCommit_enabled (g := h.globals) hentered hpending
        apply hi.update hsame
        · rw [hg]
        · rw [hg]
        · exact fun r => by rw [hg]; exact hsession r
        · intro a ha
          rw [hg] at ha
          obtain rfl : ti.self = a := Option.some.inj ha
          exact ⟨ti, hmem, rfl, hentered, by rw [if_pos rfl]; exact henabled⟩
        · rw [hg]
          rfl
      | false =>
        by_cases hactive : h.globals.activeTextInput = some ti.self
        · obtain ⟨log, hsession, hg⟩ := tiCommit_disabled hentered hpending hactive
          apply hi.update hsame
          · rw [hg]
          · rw [hg]
          · exact fun r => by rw [hg]; exact hsession r
          · intro a ha
            rw [hg] at ha
            simp at ha
          · rw [hg]
            rfl
        · exact hidle (.inr ⟨hpending, hactive⟩)

/-! ### Objects coming and going -/

/-- A destroyed object leaves the list, and the active pointer if that was it. -/
theorem FocusInv.resourceDestroy {h : Handler} (hi : FocusInv h) (self : ℕ) :
    FocusInv (tiResourceDestroy h self) := by
  unfold tiResourceDestroy
  cases hfind : h.find self with
  | none => exact hi
  | some ti =>
    -- whatever happens to the active pointer, it happens to these globals
    have hglobals : ∃ log, (∀ r, sessionOf r log = sessionOf r h.globals.log) ∧
        (if h.globals.activeTextInput = some self then
          if ti.currentEnabled then (h.globals.setActiveTextInput none).requestImeHide
          else h.globals.setActiveTextInput none
        else h.globals) =
        { h.globals with
          activeTextInput := if h.globals.activeTextInput = some self then none
            else h.globals.activeTextInput
          activeTextInputCommitted := if h.globals.activeTextInput = some self then false
            else h.globals.activeTextInputCommitted
          log := log } := by
      obtain ⟨log, hsession, hlog⟩ := requestImeCommand_eq (h.globals.setActiveTextInput none) 'H'
      by_cases hactive : h.globals.activeTextInput = some self
      · simp only [hactive, if_true, Globals.requestImeHide]
        cases ti.currentEnabled with
        | true => exact ⟨log, hsession, hlog⟩
        | false => exact ⟨h.globals.log, fun _ => rfl, rfl⟩
      · simp only [hactive, if_false]
        exact ⟨h.globals.log, fun _ => rfl, rfl⟩
    obtain ⟨log, hsession, hg⟩ := hglobals
    have hmem : ∀ tj ∈ remove TextInput.self self h.textInputs, tj ∈ h.textInputs :=
      fun tj htj => (List.mem_filter.mp htj).1
    simp only [hg]
    refine
      { nodup_self := nodup_remove hi.nodup_self self
        nodup_resource := (List.filter_sublist.map TextInput.resource).nodup hi.nodup_resource
        resource_lt := fun tj htj => hi.resource_lt tj (hmem tj htj)
        focused_live := hi.focused_live
        listener_eq := hi.listener_eq
        entered_iff := fun tj htj => hi.entered_iff tj (hmem tj htj)
        surface_eq := fun tj htj => hi.surface_eq tj (hmem tj htj)
        active_ok := ?_
        committed_eq := ?_
        session_eq := fun tj htj => (hsession _).trans (hi.session_eq tj (hmem tj htj))
        session_ok := fun r => by rw [hsession]; exact hi.session_ok r
        session_new := fun r hr => (hsession r).trans (hi.session_new r hr) }
    · intro a ha
      split at ha
      · simp at ha
      · rename_i hne
        obtain ⟨tj, htj, rfl, hrest⟩ := hi.active_ok a ha
        have hself : tj.self ≠ self := fun heq => hne (heq ▸ ha)
        exact ⟨tj, List.mem_filter.mpr ⟨htj, by simpa using hself⟩, rfl, hrest⟩
    · show (if h.globals.activeTextInput = some self then false
          else h.globals.activeTextInputCommitted) = _
      split
      · rfl
      · exact hi.committed_eq

/-- A new object, with a resource number of its own, joins the list. -/
theorem FocusInv.insert {h : Handler} (hi : FocusInv h) {g : Globals} (ti : TextInput)
    (hfree : ∀ tj ∈ h.textInputs, tj.self ≠ ti.self) (hres : ti.resource = h.nextResource)
    (hg : g = { h.globals with log := g.log })
    (hentered : ti.entered = true ↔ ∃ s, h.globals.focusedTextInputSurface = some s ∧
      h.surfaces s = some ti.client)
    (hsurface : ti.enteredSurface =
      if ti.entered then h.globals.focusedTextInputSurface else none)
    (hown : sessionOf h.nextResource g.log = some ti.session)
    (hothers : ∀ r ≠ h.nextResource, sessionOf r g.log = sessionOf r h.globals.log) :
    FocusInv { h with
      globals := g, textInputs := ti :: h.textInputs, nextResource := h.nextResource + 1 } := by
  have hself : ti.self ∉ h.textInputs.map TextInput.self := by
    intro hm
    obtain ⟨tj, hmem, heq⟩ := List.mem_map.mp hm
    exact hfree tj hmem heq
  have hne : ∀ tj ∈ h.textInputs, tj.resource ≠ h.nextResource := by
    intro tj htj
    have hlt := hi.resource_lt tj htj
    omega
  rw [hg] at hown hothers ⊢
  refine
    { nodup_self := by
        rw [List.map_cons, List.nodup_cons]
        exact ⟨hself, hi.nodup_self⟩
      nodup_resource := by
        rw [List.map_cons, List.nodup_cons, hres]
        exact ⟨hi.not_listed (le_refl h.nextResource), hi.nodup_resource⟩
      resource_lt := ?_
      focused_live := hi.focused_live
      listener_eq := hi.listener_eq
      entered_iff := ?_
      surface_eq := ?_
      active_ok := ?_
      committed_eq := hi.committed_eq
      session_eq := ?_
      session_ok := ?_
      session_new := ?_ }
  · intro tj htj
    rcases List.mem_cons.mp htj with rfl | htj
    · rw [hres]
      exact Nat.lt_succ_self _
    · exact Nat.lt_succ_of_lt (hi.resource_lt tj htj)
  · intro tj htj
    rcases List.mem_cons.mp htj with rfl | htj
    · exact hentered
    · exact hi.entered_iff tj htj
  · intro tj htj
    rcases List.mem_cons.mp htj with rfl | htj
    · exact hsurface
    · exact hi.surface_eq tj htj
  · intro a ha
    obtain ⟨tj, htj, hrest⟩ := hi.active_ok a ha
    exact ⟨tj, List.mem_cons_of_mem _ htj, hrest⟩
  · intro tj htj
    rcases List.mem_cons.mp htj with rfl | htj
    · rw [hres]
      exact hown
    · rw [hothers _ (hne tj htj)]
      exact hi.session_eq tj htj
  · intro r
    by_cases hr : r = h.nextResource
    · rw [hr, hown]
      rfl
    · rw [hothers r hr]
      exact hi.session_ok r
  · intro r hr
    have hr' : r ≥ h.nextResource + 1 := hr
    rw [hothers r (by omega)]
    exact hi.session_new r (by omega)

/-- A new object is entered at once if its client has the focus. -/
theorem FocusInv.getTextInput {h : Handler} (hi : FocusInv h) {client self : ℕ}
    (hfree : ∀ ti ∈ h.textInputs, ti.self ≠ self) :
    FocusInv (managerGetTextInput h client self) := by
  have hnew := hi.session_new h.nextResource le_rfl
  -- the object outside the focus
  have houtside : (∀ s, h.globals.focusedTextInputSurface = some s → h.surfaces s ≠ some client) →
      FocusInv { h with
        textInputs := TextInput.fresh self h.nextResource client :: h.textInputs
        nextResource := h.nextResource + 1 } := by
    intro hnot
    refine hi.insert (TextInput.fresh self h.nextResource client) hfree rfl rfl ?_ ?_ hnew
      fun r _ => rfl
    · simpa [TextInput.fresh] using hnot
    · simp [TextInput.fresh]
  unfold managerGetTextInput
  cases hf : h.globals.focusedTextInputSurface with
  | none =>
    simp only [hf]
    exact houtside fun s hs => absurd (hf.symm.trans hs) (by simp)
  | some surface =>
    simp only [hf]
    split
    · rename_i hclient
      refine hi.insert { TextInput.fresh self h.nextResource client with
        entered := true, enteredSurface := some surface } hfree rfl rfl ?_ ?_ ?_ ?_
      · simp [TextInput.fresh, hf, hclient]
      · simp [hf]
      · simp [hnew, sessionStep, TextInput.fresh, TextInput.session]
      · intro r hr
        simp [sessionStep, TextInput.fresh, hr.symm]
    · rename_i hclient
      exact houtside fun s hs => by rwa [← Option.some.inj (hf.symm.trans hs)]

/-- A surface comes to life at a free address. -/
theorem FocusInv.surfaceCreated {h : Handler} (hi : FocusInv h) {surface : ℕ}
    (hfree : h.surfaces surface = none) (client : ℕ) :
    FocusInv { h with surfaces := Function.update h.surfaces surface (some client) } := by
  have hother : ∀ s, h.globals.focusedTextInputSurface = some s →
      Function.update h.surfaces surface (some client) s = h.surfaces s := by
    intro s hs
    obtain ⟨c, hc⟩ := hi.focused_live s hs
    exact Function.update_of_ne (fun heq => by simp [← heq, hc] at hfree) _ _
  refine { hi with focused_live := ?_, entered_iff := ?_ }
  · intro s hs
    show ∃ c, Function.update h.surfaces surface (some client) s = some c
    rw [hother s hs]
    exact hi.focused_live s hs
  · intro ti hmem
    rw [hi.entered_iff ti hmem]
    show (∃ s, h.globals.focusedTextInputSurface = some s ∧ h.surfaces s = some ti.client) ↔
      ∃ s, h.globals.focusedTextInputSurface = some s ∧
        Function.update h.surfaces surface (some client) s = some ti.client
    constructor <;> rintro ⟨s, hs, hc⟩ <;> refine ⟨s, hs, ?_⟩
    · rwa [hother s hs]
    · rwa [hother s hs] at hc

/-! ### Dispatch -/

/-- Sending what no session minds keeps the invariant. -/
theorem FocusInv.send {h : Handler} (hi : FocusInv h) {o : Output}
    (hquiet : ∀ r st, sessionOf r h.globals.log = some st → sessionStep r st o = some st) :
    FocusInv (h.send o) := by
  have hsession : ∀ r, sessionOf r (h.globals.send o).log = sessionOf r h.globals.log := by
    intro r
    obtain ⟨st, hst⟩ := Option.isSome_iff_exists.mp (hi.session_ok r)
    rw [sessionOf_send, hst]
    exact hquiet r st hst
  have hupdate := hi.update (f := id) (g := h.globals.send o) (fun ti _ => .refl ti) rfl rfl
    hsession hi.active_ok hi.committed_eq
  rwa [List.map_id] at hupdate

/-- Text for the active object falls inside its session. -/
theorem FocusInv.sendText {h : Handler} (hi : FocusInv h) {ti : TextInput} (hmem : ti ∈ h.textInputs)
    (hentered : ti.entered = true) {o : Output}
    (ho : ∀ r st, sessionStep r st o =
      if ti.resource = r ∧ st = .outside then none else some st) : FocusInv (h.send o) := by
  apply hi.send
  intro r st hst
  rw [ho, if_neg]
  rintro ⟨rfl, rfl⟩
  obtain ⟨s, -, -, hinside⟩ := hi.session_inside hmem hentered
  simp [hst] at hinside

theorem FocusInv.emitKeys {h : Handler} (hi : FocusInv h) {seat : Fallback} {keys : Output}
    (hlive : ∀ s, seat.target = some s → ∃ c, h.surfaces s = some c)
    (hkeys : ∀ r st, sessionStep r st keys = some st) : FocusInv (emitKeys h seat keys) := by
  unfold Ime.emitKeys
  split
  · cases htarget : seat.target with
    | none => exact hi.send fun r st _ => hkeys r st
    | some s =>
      obtain ⟨c, hc⟩ := hlive s htarget
      exact (hi.keyboardEnter hc).send fun r st _ => hkeys r st
  · exact hi

theorem FocusInv.dispatch {h : Handler} (hi : FocusInv h) (op : TextDispatch) {seat : Fallback}
    (hlive : ∀ s, seat.target = some s → ∃ c, h.surfaces s = some c) :
    FocusInv (dispatch h op seat) := by
  cases op with
  | commitText text =>
    unfold Ime.dispatch dispatchCommitText
    cases text with
    | none => exact hi
    | some text =>
      simp only
      split
      · exact hi
      · split
        · rename_i ti hactive
          obtain ⟨hmem, hentered, -⟩ := hi.activeEnabled_mem hactive
          exact (hi.sendText hmem hentered fun r st => rfl).sendText hmem hentered fun r st => rfl
        · exact hi.emitKeys hlive fun r st => rfl
  | deleteSurroundingText before after codePoints =>
    unfold Ime.dispatch dispatchDeleteSurroundingText
    simp only
    split
    · exact hi
    · split
      · rename_i ti hactive
        obtain ⟨hmem, hentered, -⟩ := hi.activeEnabled_mem hactive
        split
        · split
          · exact hi
          · exact (hi.sendText hmem hentered fun r st => rfl).sendText hmem hentered
              fun r st => rfl
        · exact hi.emitKeys hlive fun r st => rfl
      · exact hi.emitKeys hlive fun r st => rfl

/-! ### Events -/

/-- Everything that can happen to the handler. -/
inductive HandlerEvent where
  | surfaceCreated (surface client : ℕ)
  | surfaceDestroyed (surface : ℕ)
  | keyboardEnter (surface : ℕ)
  | keyboardLeave (surface : Option ℕ)
  | getTextInput (client self : ℕ)
  | enable (self : ℕ)
  | disable (self : ℕ)
  | setSurroundingText (self : ℕ) (text : Option CString) (cursor anchor : ℤ) (copied : Bool)
  /-- `set_text_change_cause` and `set_content_type`, which the handler ignores. -/
  | ignored (self : ℕ)
  | setCursorRectangle (self : ℕ) (rectangle : Rectangle)
  | commit (self : ℕ)
  | resourceDestroy (self : ℕ)
  | dispatch (op : TextDispatch) (seat : Fallback)

/-- The requests of clients on text-input objects, and the creation and destruction of these. -/
def HandlerEvent.isRequest : HandlerEvent → Bool
  | .getTextInput _ _ | .enable _ | .disable _ | .setSurroundingText _ _ _ _ _ | .ignored _ |
      .setCursorRectangle _ _ | .commit _ | .resourceDestroy _ => true
  | .surfaceCreated _ _ | .surfaceDestroyed _ | .keyboardEnter _ | .keyboardLeave _ |
      .dispatch _ _ => false

/-- The handler after an event.  Surfaces are created at free addresses and focused or destroyed
while they live; `calloc` returns an address no object has. -/
def Handler.next (h : Handler) : HandlerEvent → Option Handler
  | .surfaceCreated surface client =>
      if h.surfaces surface = none then
        some { h with surfaces := Function.update h.surfaces surface (some client) }
      else none
  | .surfaceDestroyed surface =>
      if (h.surfaces surface).isSome then some (surfaceDestroyed h surface) else none
  | .keyboardEnter surface =>
      if (h.surfaces surface).isSome then some (textInputHandleKeyboardEnter h surface) else none
  | .keyboardLeave surface => some (textInputHandleKeyboardLeave h surface)
  | .getTextInput client self =>
      if h.textInputs.all fun ti => ti.self ≠ self then some (managerGetTextInput h client self)
      else none
  | .enable self => some (h.modify self tiEnable)
  | .disable self => some (h.modify self tiDisable)
  | .setSurroundingText self text cursor anchor copied =>
      some (h.modify self (tiSetSurroundingText text cursor anchor copied))
  | .ignored _ => some h
  | .setCursorRectangle self rectangle => some (h.modify self (tiSetCursorRectangle rectangle))
  | .commit self => some (h.commit self)
  | .resourceDestroy self => some (tiResourceDestroy h self)
  | .dispatch op seat =>
      if seat.target.all fun s => (h.surfaces s).isSome then some (dispatch h op seat) else none

/-- All runs of the handler. -/
def handlerSystem : System Handler HandlerEvent := System.ofNext Handler.Initial Handler.next

/-- **Every event keeps the invariant.** -/
theorem FocusInv.next {h h' : Handler} {e : HandlerEvent} (hi : FocusInv h)
    (hstep : h.next e = some h') : FocusInv h' := by
  cases e with
  | surfaceCreated surface client =>
    simp only [Handler.next] at hstep
    split at hstep
    · rename_i hfree
      exact Option.some.inj hstep ▸ hi.surfaceCreated hfree client
    · simp at hstep
  | surfaceDestroyed surface =>
    simp only [Handler.next] at hstep
    split at hstep
    · exact Option.some.inj hstep ▸ hi.surfaceDestroyed surface
    · simp at hstep
  | keyboardEnter surface =>
    simp only [Handler.next] at hstep
    split at hstep
    · rename_i hlive
      obtain ⟨client, hclient⟩ := Option.isSome_iff_exists.mp hlive
      exact Option.some.inj hstep ▸ hi.keyboardEnter hclient
    · simp at hstep
  | keyboardLeave surface => exact Option.some.inj hstep ▸ hi.keyboardLeave surface
  | getTextInput client self =>
    simp only [Handler.next] at hstep
    split at hstep
    · rename_i hfree
      rw [List.all_eq_true] at hfree
      exact Option.some.inj hstep ▸ hi.getTextInput fun ti hmem => by simpa using hfree ti hmem
    · simp at hstep
  | enable self => exact Option.some.inj hstep ▸ hi.modify self sameFocus_tiEnable
  | disable self => exact Option.some.inj hstep ▸ hi.modify self sameFocus_tiDisable
  | setSurroundingText self text cursor anchor copied =>
    exact Option.some.inj hstep ▸
      hi.modify self (sameFocus_tiSetSurroundingText text cursor anchor copied)
  | ignored self => exact Option.some.inj hstep ▸ hi
  | setCursorRectangle self rectangle =>
    exact Option.some.inj hstep ▸ hi.modify self (sameFocus_tiSetCursorRectangle rectangle)
  | commit self => exact Option.some.inj hstep ▸ hi.commit self
  | resourceDestroy self => exact Option.some.inj hstep ▸ hi.resourceDestroy self
  | dispatch op seat =>
    simp only [Handler.next] at hstep
    split at hstep
    · rename_i hlive
      refine Option.some.inj hstep ▸ hi.dispatch op fun s hs => ?_
      rw [hs] at hlive
      exact Option.isSome_iff_exists.mp hlive
    · simp at hstep

theorem focusInv_of_reachable {h : Handler} (hr : handlerSystem.Reachable h) : FocusInv h :=
  hr.invariant (fun _ => focusInv_of_initial) (fun _ _ _ => FocusInv.next)

/-- What clients and the rest of the compositor rely on. -/
structure FocusGuarantee (h : Handler) : Prop where
  /-- Entered means: a surface is focused, and it is one of the same client. -/
  entered_iff : ∀ ti ∈ h.textInputs, ti.entered = true ↔
    ∃ s, h.globals.focusedTextInputSurface = some s ∧ h.surfaces s = some ti.client
  entered_surface : ∀ ti ∈ h.textInputs, ti.entered = true →
    ti.enteredSurface = h.globals.focusedTextInputSurface
  focused_live : ∀ s, h.globals.focusedTextInputSurface = some s → (h.surfaces s).isSome
  /-- No resource, living or destroyed, ever saw an event out of order: enter and leave alternate
  on matching surfaces, and text only comes inside. -/
  in_order : ∀ r, (sessionOf r h.globals.log).isSome
  /-- The log ends, for each object, where its fields say. -/
  session_eq : ∀ ti ∈ h.textInputs, sessionOf ti.resource h.globals.log = some ti.session
  active_ok : ∀ a, h.globals.activeTextInput = some a →
    ∃ ti ∈ h.textInputs, ti.self = a ∧ ti.entered = true ∧ ti.currentEnabled = true
  committed_eq : h.globals.activeTextInputCommitted = h.globals.activeTextInput.isSome

/-- **Focus is consistent in every run.** -/
theorem focusGuarantee_of_reachable {h : Handler} (hr : handlerSystem.Reachable h) :
    FocusGuarantee h := by
  have hi := focusInv_of_reachable hr
  refine
    { entered_iff := hi.entered_iff
      entered_surface := ?_
      focused_live := ?_
      in_order := hi.session_ok
      session_eq := hi.session_eq
      active_ok := hi.active_ok
      committed_eq := hi.committed_eq }
  · intro ti hmem hentered
    rw [hi.surface_eq ti hmem, hentered, if_pos rfl]
  · intro s hs
    obtain ⟨c, hc⟩ := hi.focused_live s hs
    rw [hc]
    rfl

/-- A fresh handler: no surfaces, no objects. -/
def freshHandler : Handler where
  globals := ⟨none, false, none, none, true, []⟩
  textInputs := []
  surfaces := fun _ => none
  nextResource := 0

theorem freshHandler_initial : freshHandler.Initial :=
  ⟨rfl, rfl, rfl, rfl, rfl, rfl, rfl⟩

/-- Two clients, two surfaces; the object of the first is enabled, loses its surface, and the focus
goes to the second. -/
def twoClients : List HandlerEvent :=
  [.surfaceCreated 1 10, .surfaceCreated 2 20, .getTextInput 10 100, .keyboardEnter 1,
    .getTextInput 20 200, .enable 100, .commit 100, .dispatch (.deleteSurroundingText 1 0 true)
    ⟨false, none⟩, .surfaceDestroyed 1, .keyboardEnter 2]

/-- Where that leads. -/
def secondFocused : Handler := (runNext Handler.next freshHandler twoClients).getD freshHandler

theorem runNext_twoClients : runNext Handler.next freshHandler twoClients = some secondFocused :=
  rfl

theorem focusGuarantee_of_twoClients :
    secondFocused.globals.focusedTextInputSurface = some 2 ∧ FocusGuarantee secondFocused :=
  ⟨rfl, focusGuarantee_of_reachable
    (System.reachable_runNext (.start freshHandler_initial) runNext_twoClients)⟩

end Wldroid.Ime
