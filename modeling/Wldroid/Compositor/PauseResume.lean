import Wldroid.Compositor.AndroidOutput
import Wldroid.Foundation.Pipe

/-!
# Pause and resume

The UI thread asks for a pause or for a resume with a new window; the event loop carries the
requests out.  The requests travel as bytes through a pipe, the windows through one slot beside it.

* `PauseState.next` — the steps of both threads; the loop reads the slot and empties it in two
  steps;
* `Settled` — the output has what was asked for last, and no window reference is lost;
* `settled_iff_slotEmpty` — once all bytes are processed, this is so exactly if no resume found the
  slot taken.
-/

namespace Wldroid.Compositor

open Wldroid.Foundation

/-! ### State -/

/-- The bytes in the pipe, `P` and `R`. -/
inductive PauseCommand where
  | pause
  | resume
  deriving DecidableEq

/-- Where the event loop is in `on_pause_resume_event`, when it carries out a resume: about to look
into the slot, about to empty it, about to attach what it found. -/
inductive PauseLoop where
  | idle
  | resuming
  | loaded (window : Option ℕ)
  | taken (window : Option ℕ)

/-- The session, the pipe, the slot and the output. -/
structure PauseState where
  /-- `CompositorSession`'s state is `PAUSED`, otherwise `RUNNING`. -/
  sessionPaused : Bool
  /-- The UI thread is in `compositor_server_resume`, about to write its byte. -/
  writing : Bool
  /-- `pending_resume_window`. -/
  pending : Option ℕ
  pipe : Pipe PauseCommand
  loop : PauseLoop
  output : AndroidOutput
  /-- `server->paused`. -/
  paused : Bool
  /-- Ghost: the window asked for last, none if that was a pause. -/
  wanted : Option ℕ
  /-- Ghost: the references acquired by resumes, and those released for them. -/
  acquired : Multiset ℕ
  released : Multiset ℕ

/-! ### Code -/

/-- `CompositorSession.pause` with `compositor_server_pause`. -/
def PauseState.pause (s : PauseState) : PauseState :=
  if s.sessionPaused then s
  else { s with sessionPaused := true, pipe := s.pipe.write .pause, wanted := none }

/-- `CompositorSession.resume` with `compositor_server_resume`, up to the write. -/
def PauseState.resume (s : PauseState) (window : ℕ) : PauseState :=
  if s.sessionPaused then
    { s with
      acquired := s.acquired + {window}
      pending := some window
      writing := true
      wanted := some window }
  else s

/-- The write, and the end of `CompositorSession.resume`. -/
def PauseState.writeResume (s : PauseState) : PauseState :=
  { s with pipe := s.pipe.write .resume, writing := false, sessionPaused := false }

/-- `on_pause_resume_event`: one byte; a pause is carried out. -/
def PauseState.readCommand (s : PauseState) : Option PauseState :=
  match s.pipe.read 1 with
  | ([], _) => none
  | (.pause :: _, pipe) =>
      some { s with pipe := pipe, output := detachWindow s.output, paused := true }
  | (.resume :: _, pipe) => some { s with pipe := pipe, loop := .resuming }

/-- The end of a resume; `attach` acquires a reference of its own. -/
def PauseState.finish (s : PauseState) (window : Option ℕ) (control : Bool) : PauseState :=
  match window with
  | some w =>
      { s with
        output := attachWindow s.output w control
        released := s.released + {w}
        paused := false
        loop := .idle }
  | none => { s with paused := false, loop := .idle }

/-- The steps of the UI thread and of the event loop. -/
inductive PauseEvent where
  | pause
  | resume (window : ℕ)
  | writeResume
  | readCommand
  | load
  | clear
  | finish (control : Bool)

/-- The next state. -/
def PauseState.next (s : PauseState) : PauseEvent → Option PauseState
  | .pause => if s.writing then none else some s.pause
  | .resume window => if s.writing then none else some (s.resume window)
  | .writeResume => if s.writing then some s.writeResume else none
  | .readCommand =>
      match s.loop with
      | .idle => s.readCommand
      | _ => none
  | .load =>
      match s.loop with
      | .resuming => some { s with loop := .loaded s.pending }
      | _ => none
  | .clear =>
      match s.loop with
      | .loaded window => some { s with loop := .taken window, pending := none }
      | _ => none
  | .finish control =>
      match s.loop with
      | .taken window => some (s.finish window control)
      | _ => none

/-- The compositor has started: the session runs with the window of the start. -/
def PauseState.Initial (s : PauseState) : Prop :=
  s.sessionPaused = false ∧ s.writing = false ∧ s.pending = none ∧ s.pipe.unread = [] ∧
    4096 ≤ s.pipe.capacity ∧ s.loop = .idle ∧ s.output.Initial ∧ s.paused = false ∧
      s.wanted = s.output.nativeWindow ∧ s.acquired = 0 ∧ s.released = 0

/-- All interleavings. -/
def pauseSystem : System PauseState PauseEvent :=
  System.ofNext PauseState.Initial PauseState.next

/-! ### The protocol -/

/-- All bytes have been processed. -/
def Quiescent (s : PauseState) : Prop :=
  s.pipe.unread = [] ∧ s.loop = .idle ∧ s.writing = false

/-- The output has what was asked for last, and of every window as many references are acquired as
released, but for the one the output holds. -/
def Settled (s : PauseState) : Prop :=
  s.output.nativeWindow = s.wanted ∧ s.paused = s.wanted.isNone ∧
    s.acquired + s.output.acquired =
      s.released + s.output.released + (s.output.nativeWindow.toList : Multiset ℕ)

/-- A resume that is carried out finds the slot empty. -/
def SlotEmpty (s : PauseState) : PauseEvent → Prop
  | .resume _ => s.sessionPaused = true → s.pending = none
  | _ => True

/-! ### References -/

/-- The references of an optional window. -/
def refs (window : Option ℕ) : Multiset ℕ := (window.toList : Multiset ℕ)

@[simp] theorem refs_none : refs none = 0 := rfl

@[simp] theorem refs_some (window : ℕ) : refs (some window) = {window} := rfl

/-- The references on their way: in the slot, unless the loop has looked into it and will empty it,
and with the loop. -/
def PauseState.inFlight (s : PauseState) : Multiset ℕ :=
  match s.loop with
  | .loaded window => refs window
  | .taken window => refs s.pending + refs window
  | _ => refs s.pending

/-- All references acquired. -/
def PauseState.allAcquired (s : PauseState) : Multiset ℕ := s.acquired + s.output.acquired

/-- The references that are released or will be. -/
def PauseState.accounted (s : PauseState) : Multiset ℕ :=
  s.released + s.output.released + refs s.output.nativeWindow + s.inFlight

theorem detachWindow_refs (s : AndroidOutput) :
    (detachWindow s).nativeWindow = none ∧ (detachWindow s).acquired = s.acquired ∧
      (detachWindow s).released = s.released + refs s.nativeWindow := by
  refine ⟨rfl, ?_, ?_⟩
  · unfold detachWindow wlrOutputCommitState outputCommit
    simp only
    split <;> rfl
  · unfold detachWindow wlrOutputCommitState outputCommit
    simp only
    split <;> rfl

theorem attachWindow_refs (s : AndroidOutput) (window : ℕ) (control : Bool) :
    (attachWindow s window control).nativeWindow = some window ∧
      (attachWindow s window control).acquired = s.acquired + {window} ∧
        (attachWindow s window control).released = s.released :=
  ⟨rfl, rfl, rfl⟩

/-! ### Lost references stay lost -/

/-- A reference is lost. -/
def PauseState.Lost (s : PauseState) : Prop := s.accounted.card < s.allAcquired.card

@[simp] theorem card_refs (window : Option ℕ) : (refs window).card = window.toList.length := rfl

theorem readCommand_cases {s t : PauseState} (h : s.readCommand = some t) :
    (∃ rest pipe, s.pipe.unread = .pause :: rest ∧ pipe.unread = rest ∧
        pipe.capacity = s.pipe.capacity ∧
        t = { s with pipe := pipe, output := detachWindow s.output, paused := true }) ∨
      ∃ rest pipe, s.pipe.unread = .resume :: rest ∧ pipe.unread = rest ∧
        pipe.capacity = s.pipe.capacity ∧ t = { s with pipe := pipe, loop := .resuming } := by
  unfold PauseState.readCommand at h
  have hdrop : (s.pipe.read 1).2.unread = s.pipe.unread.drop 1 := rfl
  have htake : (s.pipe.read 1).1 = s.pipe.unread.take 1 := rfl
  have hcapacity : (s.pipe.read 1).2.capacity = s.pipe.capacity := rfl
  generalize s.pipe.read 1 = result at h hdrop htake hcapacity
  obtain ⟨bytes, pipe⟩ := result
  cases hunread : s.pipe.unread with
  | nil =>
    simp only [hunread, List.take_nil] at htake
    subst htake
    cases h
  | cons command rest =>
    simp only [hunread, List.take_succ_cons, List.take_zero] at htake
    simp only [hunread, List.drop_succ_cons, List.drop_zero] at hdrop
    subst htake
    cases command with
    | pause => exact .inl ⟨rest, pipe, rfl, hdrop, hcapacity, (Option.some.inj h).symm⟩
    | resume => exact .inr ⟨rest, pipe, rfl, hdrop, hcapacity, (Option.some.inj h).symm⟩

/-- What a resume acquires is accounted for at best, and it is not if the slot is taken. -/
theorem lost_resume {s : PauseState} {window : ℕ} (hpaused : s.sessionPaused = true) :
    (s.resume window).accounted.card + s.allAcquired.card ≤
      s.accounted.card + (s.resume window).allAcquired.card ∧
    (s.pending ≠ none → (s.resume window).accounted.card + s.allAcquired.card <
      s.accounted.card + (s.resume window).allAcquired.card) := by
  rw [PauseState.resume, if_pos hpaused]
  unfold PauseState.accounted PauseState.allAcquired PauseState.inFlight
  cases hpending : s.pending <;> cases hloop : s.loop <;>
    simp only [Multiset.card_add, card_refs, Multiset.card_singleton, Option.toList_some,
      Option.toList_none, List.length_nil, List.length_singleton, ne_eq, not_true_eq_false,
      reduceCtorEq, not_false_eq_true, false_imp_iff, true_imp_iff, and_true] <;> omega

/-- The steps, with what is known where they are taken. -/
inductive PauseStep (s : PauseState) : PauseEvent → PauseState → Prop where
  | pause : s.writing = false → PauseStep s .pause s.pause
  | resume (window : ℕ) : s.writing = false → PauseStep s (.resume window) (s.resume window)
  | writeResume : s.writing = true → PauseStep s .writeResume s.writeResume
  | readCommand {t : PauseState} : s.loop = .idle → s.readCommand = some t →
      PauseStep s .readCommand t
  | load : s.loop = .resuming → PauseStep s .load { s with loop := .loaded s.pending }
  | clear {window : Option ℕ} : s.loop = .loaded window →
      PauseStep s .clear { s with loop := .taken window, pending := none }
  | finish {window : Option ℕ} (control : Bool) : s.loop = .taken window →
      PauseStep s (.finish control) (s.finish window control)

theorem pauseStep_of_next {s t : PauseState} {e : PauseEvent} (h : s.next e = some t) :
    PauseStep s e t := by
  cases e with
  | pause =>
    simp only [PauseState.next] at h
    split at h <;> cases h
    rename_i hwriting
    exact .pause (Bool.eq_false_iff.mpr hwriting)
  | resume window =>
    simp only [PauseState.next] at h
    split at h <;> cases h
    rename_i hwriting
    exact .resume window (Bool.eq_false_iff.mpr hwriting)
  | writeResume =>
    simp only [PauseState.next] at h
    split at h <;> cases h
    rename_i hwriting
    exact .writeResume hwriting
  | readCommand =>
    simp only [PauseState.next] at h
    split at h
    · rename_i hidle
      exact .readCommand hidle h
    · cases h
  | load =>
    simp only [PauseState.next] at h
    split at h <;> cases h
    rename_i hloop
    exact .load hloop
  | clear =>
    simp only [PauseState.next] at h
    split at h <;> cases h
    rename_i window hloop
    exact .clear hloop
  | finish control =>
    simp only [PauseState.next] at h
    split at h <;> cases h
    rename_i window hloop
    exact .finish control hloop

/-- No step accounts for a reference that has been lost. -/
theorem lost_step {s t : PauseState} {e : PauseEvent} (h : PauseStep s e t) :
    t.accounted.card + s.allAcquired.card ≤ s.accounted.card + t.allAcquired.card := by
  cases h with
  | pause =>
    unfold PauseState.pause
    split <;> exact le_rfl
  | resume window =>
    by_cases hpaused : s.sessionPaused = true
    · exact (lost_resume hpaused).1
    · rw [PauseState.resume, if_neg hpaused]
  | writeResume => exact le_rfl
  | readCommand hidle hread =>
    rcases readCommand_cases hread with ⟨rest, pipe, _, _, _, rfl⟩ | ⟨rest, pipe, _, _, _, rfl⟩
    · obtain ⟨hwindow, hacquired, hreleased⟩ := detachWindow_refs s.output
      simp only [PauseState.accounted, PauseState.allAcquired, PauseState.inFlight, hidle, hwindow,
        hacquired, hreleased, Multiset.card_add, card_refs, Option.toList_none, List.length_nil]
      omega
    · simp only [PauseState.accounted, PauseState.allAcquired, PauseState.inFlight, hidle]
      exact le_rfl
  | load hloop =>
    simp only [PauseState.accounted, PauseState.allAcquired, PauseState.inFlight, hloop]
    exact le_rfl
  | clear hloop =>
    simp only [PauseState.accounted, PauseState.allAcquired, PauseState.inFlight, hloop, refs_none,
      zero_add]
    exact le_rfl
  | @finish window control hloop =>
    cases window with
    | none =>
      simp only [PauseState.finish, PauseState.accounted, PauseState.allAcquired,
        PauseState.inFlight, hloop, refs_none, add_zero]
      exact le_rfl
    | some w =>
      obtain ⟨hwindow, hacquired, hreleased⟩ := attachWindow_refs s.output w control
      simp only [PauseState.finish, PauseState.accounted, PauseState.allAcquired,
        PauseState.inFlight, hloop, hwindow, hacquired, hreleased, Multiset.card_add, card_refs,
        Multiset.card_singleton, Option.toList_some, List.length_singleton]
      omega

/-- **A resume that finds the slot taken loses a reference for good.** -/
theorem slotEmpty_of_not_lost {s : PauseState} {run : List (PauseEvent × PauseState)}
    (hinit : s.Initial) (hrun : pauseSystem.Exec s run) (hlast : ¬ (lastState s run).Lost) :
    AllSteps SlotEmpty s run := by
  refine System.allSteps_of_undamaged (B := PauseState.Lost)
    (I := fun s => s.accounted.card ≤ s.allAcquired.card) ?_ ?_ ?_ hrun ?_ hlast
  · intro s e t h hstep
    have hmono := lost_step (pauseStep_of_next hstep)
    show t.accounted.card ≤ t.allAcquired.card
    omega
  · intro s e t _ h hstep
    have hmono := lost_step (pauseStep_of_next hstep)
    unfold PauseState.Lost at h ⊢
    omega
  · intro s e t h hstep hguard
    cases pauseStep_of_next hstep with
    | resume window hwriting =>
      obtain ⟨hpaused, hpending⟩ := Classical.not_imp.mp hguard
      obtain ⟨_, hmore⟩ := @lost_resume s window hpaused
      replace hmore := hmore hpending
      unfold PauseState.Lost
      omega
    | _ => exact absurd trivial hguard
  · obtain ⟨_, _, hpending, _, _, hloop, ⟨_, _, _, hacquired, hreleased⟩, _, _, hin, hout⟩ := hinit
    show s.accounted.card ≤ s.allAcquired.card
    simp only [PauseState.accounted, PauseState.allAcquired, PauseState.inFlight, hloop, hpending,
      hacquired, hreleased, hin, hout, refs_none, zero_add, add_zero]
    exact le_rfl

/-! ### Requests on their way -/

/-- The requests still to be carried out, from an output with the window `on`: they alternate, the
slot has the window of the one resume among them, and they lead to what is wanted. -/
def Outstanding (on slot : Option ℕ) : List PauseCommand → Option ℕ → Prop
  | [], wanted => slot = none ∧ wanted = on
  | .pause :: rest, wanted => on ≠ none ∧ Outstanding none slot rest wanted
  | .resume :: rest, wanted =>
      on = none ∧ ∃ window, slot = some window ∧ Outstanding (some window) none rest wanted

/-- One more pause. -/
theorem Outstanding.pause {on slot wanted : Option ℕ} {commands : List PauseCommand}
    (h : Outstanding on slot commands wanted) (hwanted : wanted ≠ none) :
    Outstanding on slot (commands ++ [.pause]) none := by
  induction commands generalizing on slot with
  | nil =>
    obtain ⟨rfl, rfl⟩ := h
    exact ⟨hwanted, rfl, rfl⟩
  | cons command rest ih =>
    cases command with
    | pause => exact ⟨h.1, ih h.2⟩
    | resume =>
      obtain ⟨hon, window, hslot, hrest⟩ := h
      exact ⟨hon, window, hslot, ih hrest⟩

/-- One more resume, with the slot empty. -/
theorem Outstanding.resume {on : Option ℕ} {commands : List PauseCommand}
    (h : Outstanding on none commands none) (window : ℕ) :
    Outstanding on (some window) (commands ++ [.resume]) (some window) := by
  induction commands generalizing on with
  | nil =>
    obtain ⟨_, rfl⟩ := h
    exact ⟨rfl, window, rfl, rfl, rfl⟩
  | cons command rest ih =>
    cases command with
    | pause => exact ⟨h.1, ih h.2⟩
    | resume =>
      obtain ⟨_, _, hslot, _⟩ := h
      cases hslot

/-- There is one resume at most, so there are few requests. -/
theorem Outstanding.length_le {on slot wanted : Option ℕ} {commands : List PauseCommand}
    (h : Outstanding on slot commands wanted) : commands.length ≤ 3 := by
  have hnone : ∀ {on wanted : Option ℕ} {commands : List PauseCommand},
      Outstanding on none commands wanted → commands.length ≤ 1 ∧
        (on = none → commands = []) := by
    intro on wanted commands h
    match commands, h with
    | [], _ => simp
    | [.pause], h => exact ⟨le_rfl, fun hon => absurd hon h.1⟩
    | .pause :: .pause :: _, h => exact absurd rfl h.2.1
    | .pause :: .resume :: _, h =>
      obtain ⟨_, _, _, hslot, _⟩ := h
      cases hslot
    | .resume :: _, h =>
      obtain ⟨_, _, hslot, _⟩ := h
      cases hslot
  match commands, h with
  | [], _ => simp
  | [.pause], _ => simp
  | .pause :: .pause :: _, h => exact absurd rfl h.2.1
  | .pause :: .resume :: rest, h =>
    obtain ⟨_, _, _, _, hrest⟩ := h
    have hlen := (hnone hrest).1
    simp only [List.length_cons]
    omega
  | .resume :: rest, h =>
    obtain ⟨_, _, _, hrest⟩ := h
    have hlen := (hnone hrest).1
    simp only [List.length_cons]
    omega

/-- The requests still to be read, the one about to be written among them. -/
def PauseState.commands (s : PauseState) : List PauseCommand :=
  s.pipe.unread ++ if s.writing then [.resume] else []

/-- How far the loop is with an output that has the window `on`, and what is left to do. -/
def Ahead (loop : PauseLoop) (on slot : Option ℕ) (paused : Bool) (commands : List PauseCommand)
    (wanted : Option ℕ) : Prop :=
  match loop with
  | .idle => paused = on.isNone ∧ Outstanding on slot commands wanted
  | .resuming => on = none ∧ ∃ window, slot = some window ∧
      Outstanding (some window) none commands wanted
  | .loaded found => on = none ∧ ∃ window, found = some window ∧ slot = some window ∧
      Outstanding (some window) none commands wanted
  | .taken found => on = none ∧ ∃ window, found = some window ∧
      Outstanding (some window) slot commands wanted

section Ahead

variable {loop : PauseLoop} {on slot wanted : Option ℕ} {paused : Bool}
  {commands : List PauseCommand}

theorem Ahead.pause (h : Ahead loop on slot paused commands wanted) (hwanted : wanted ≠ none) :
    Ahead loop on slot paused (commands ++ [.pause]) none := by
  cases loop with
  | idle => exact ⟨h.1, h.2.pause hwanted⟩
  | resuming =>
    obtain ⟨hon, window, hslot, hrest⟩ := h
    exact ⟨hon, window, hslot, hrest.pause hwanted⟩
  | loaded found =>
    obtain ⟨hon, window, hfound, hslot, hrest⟩ := h
    exact ⟨hon, window, hfound, hslot, hrest.pause hwanted⟩
  | taken found =>
    obtain ⟨hon, window, hfound, hrest⟩ := h
    exact ⟨hon, window, hfound, hrest.pause hwanted⟩

/-- With the slot empty the loop is not between looking into it and emptying it. -/
theorem Ahead.resume (h : Ahead loop on none paused commands none) (window : ℕ) :
    Ahead loop on (some window) paused (commands ++ [.resume]) (some window) ∧
      ∀ found, loop ≠ .loaded found := by
  cases loop with
  | idle => exact ⟨⟨h.1, h.2.resume window⟩, fun _ => PauseLoop.noConfusion⟩
  | resuming =>
    obtain ⟨_, _, hslot, _⟩ := h
    cases hslot
  | loaded found =>
    obtain ⟨_, _, _, hslot, _⟩ := h
    cases hslot
  | taken found =>
    obtain ⟨hon, w, hfound, hrest⟩ := h
    exact ⟨⟨hon, w, hfound, hrest.resume window⟩, fun _ => PauseLoop.noConfusion⟩

theorem Ahead.length_le (h : Ahead loop on slot paused commands wanted) : commands.length ≤ 3 := by
  cases loop with
  | idle => exact h.2.length_le
  | resuming => exact h.2.choose_spec.2.length_le
  | loaded found => exact h.2.choose_spec.2.2.length_le
  | taken found => exact h.2.choose_spec.2.length_le

end Ahead

/-- What holds as long as every resume finds the slot empty. -/
structure PauseInv (s : PauseState) : Prop where
  ahead : Ahead s.loop s.output.nativeWindow s.pending s.paused s.commands s.wanted
  room : 4096 ≤ s.pipe.capacity
  session : s.sessionPaused = true ↔ s.wanted = none ∨ s.writing = true
  writing : s.writing = true → s.wanted ≠ none
  refs_eq : s.allAcquired = s.accounted

theorem pauseInv_of_initial {s : PauseState} (h : s.Initial) : PauseInv s := by
  obtain ⟨hsession, hwriting, hpending, hunread, hroom, hloop, ⟨hsome, _, _, hacquired, hreleased⟩,
    hpaused, hwanted, hin, hout⟩ := h
  have hcommands : s.commands = [] := by
    rw [PauseState.commands, hunread, hwriting]
    rfl
  have hnone : s.output.nativeWindow ≠ none := Option.isSome_iff_ne_none.mp hsome
  refine ⟨?_, hroom, ?_, ?_, ?_⟩
  · rw [hloop, hcommands]
    refine ⟨?_, hpending, hwanted⟩
    rw [hpaused, Eq.comm, Option.isNone_eq_false_iff]
    exact hsome
  · rw [hsession, hwriting, hwanted]
    simp [hnone]
  · rw [hwriting]
    exact fun h => absurd h Bool.false_ne_true
  · simp only [PauseState.accounted, PauseState.allAcquired, PauseState.inFlight, hloop, hpending,
      hacquired, hreleased, hin, hout, refs_none, zero_add, add_zero]
    rfl

section Steps

variable {s t : PauseState}

theorem PauseInv.pause (h : PauseInv s) (hwriting : s.writing = false) : PauseInv s.pause := by
  unfold PauseState.pause
  split
  · exact h
  rename_i hrunning
  have hwanted : s.wanted ≠ none := fun hnone => hrunning (h.session.mpr (.inl hnone))
  have hcommands : s.commands = s.pipe.unread := by
    rw [PauseState.commands, hwriting]
    exact List.append_nil _
  have hlen := h.ahead.length_le
  have hroom := h.room
  rw [hcommands] at hlen
  refine ⟨?_, by rwa [Pipe.write_capacity], by simp, ?_, h.refs_eq⟩
  · have hunread := Pipe.write_of_room (p := s.pipe) (by omega) PauseCommand.pause
    have hmore := h.ahead.pause hwanted
    rw [hcommands, ← hunread] at hmore
    show Ahead s.loop _ s.pending s.paused
      ((s.pipe.write .pause).unread ++ if s.writing then [.resume] else []) none
    rw [hwriting]
    simpa using hmore
  · show s.writing = true → _
    rw [hwriting]
    exact fun h => absurd h Bool.false_ne_true

theorem PauseInv.resume (h : PauseInv s) (hwriting : s.writing = false) {window : ℕ}
    (hguard : s.sessionPaused = true → s.pending = none) : PauseInv (s.resume window) := by
  unfold PauseState.resume
  split
  swap
  · exact h
  rename_i hpaused
  have hpending := hguard hpaused
  have hwanted : s.wanted = none := by
    rcases h.session.mp hpaused with hnone | htrue
    · exact hnone
    · rw [hwriting] at htrue
      cases htrue
  have hcommands : s.commands = s.pipe.unread := by
    rw [PauseState.commands, hwriting]
    exact List.append_nil _
  have hahead := h.ahead
  rw [hpending, hwanted, hcommands] at hahead
  obtain ⟨hmore, hloaded⟩ := hahead.resume window
  have hrefs := h.refs_eq
  refine ⟨hmore, h.room, ?_, fun _ => Option.some_ne_none _, ?_⟩
  · exact ⟨fun _ => .inr rfl, fun _ => hpaused⟩
  · unfold PauseState.allAcquired PauseState.accounted PauseState.inFlight at hrefs ⊢
    simp only
    rw [hpending] at hrefs
    cases hloop : s.loop with
    | loaded found => exact absurd hloop (hloaded found)
    | idle | resuming =>
      rw [hloop] at hrefs
      simp only [refs_none, add_zero] at hrefs
      rw [add_right_comm, hrefs]
      rfl
    | taken found =>
      rw [hloop] at hrefs
      simp only [refs_none, zero_add] at hrefs
      rw [add_right_comm, hrefs, add_assoc, add_comm (refs found)]
      rfl

theorem PauseInv.writeResume (h : PauseInv s) (hwriting : s.writing = true) :
    PauseInv s.writeResume := by
  have hcommands : s.commands = s.pipe.unread ++ [.resume] := by
    rw [PauseState.commands, hwriting]
    rfl
  have hlen := h.ahead.length_le
  have hroom := h.room
  rw [hcommands, List.length_append] at hlen
  have hunread := Pipe.write_of_room (p := s.pipe) (by omega) PauseCommand.resume
  refine ⟨?_, by rwa [PauseState.writeResume, Pipe.write_capacity], ?_, ?_, h.refs_eq⟩
  · have hahead := h.ahead
    rw [hcommands, ← hunread] at hahead
    show Ahead s.loop _ s.pending s.paused ((s.pipe.write .resume).unread ++ []) s.wanted
    rwa [List.append_nil]
  · have hwanted := h.writing hwriting
    show false = true ↔ s.wanted = none ∨ false = true
    simp [hwanted]
  · exact fun h => absurd h Bool.false_ne_true

theorem PauseInv.readCommand (h : PauseInv s) (hidle : s.loop = .idle)
    (hread : s.readCommand = some t) : PauseInv t := by
  have hahead := h.ahead
  have hrefs := h.refs_eq
  unfold PauseState.allAcquired PauseState.accounted PauseState.inFlight at hrefs
  rw [hidle] at hahead hrefs
  obtain ⟨_, hout⟩ := hahead
  rcases readCommand_cases hread with ⟨rest, pipe, hunread, hrest, hcapacity, rfl⟩ |
    ⟨rest, pipe, hunread, hrest, hcapacity, rfl⟩
  · obtain ⟨hwindow, hacquired, hreleased⟩ := detachWindow_refs s.output
    rw [PauseState.commands, hunread, List.cons_append] at hout
    refine ⟨?_, by rw [hcapacity]; exact h.room, h.session, h.writing, ?_⟩
    · show Ahead s.loop (detachWindow s.output).nativeWindow s.pending true
        (pipe.unread ++ if s.writing then [.resume] else []) s.wanted
      rw [hidle, hwindow, hrest]
      exact ⟨rfl, hout.2⟩
    · unfold PauseState.allAcquired PauseState.accounted PauseState.inFlight
      simp only [hidle, hwindow, hacquired, hreleased, refs_none, add_zero]
      rw [hrefs, ← add_assoc]
  · rw [PauseState.commands, hunread, List.cons_append] at hout
    refine ⟨?_, by rw [hcapacity]; exact h.room, h.session, h.writing, ?_⟩
    · show Ahead .resuming s.output.nativeWindow s.pending s.paused
        (pipe.unread ++ if s.writing then [.resume] else []) s.wanted
      rw [hrest]
      exact hout
    · exact hrefs

/-- The loop's steps of a resume. -/
theorem PauseInv.load (h : PauseInv s) (hloop : s.loop = .resuming) :
    PauseInv { s with loop := .loaded s.pending } := by
  have hahead := h.ahead
  have hrefs := h.refs_eq
  unfold PauseState.allAcquired PauseState.accounted PauseState.inFlight at hrefs
  rw [hloop] at hahead hrefs
  obtain ⟨hon, window, hslot, hrest⟩ := hahead
  exact ⟨⟨hon, window, hslot, hslot, hrest⟩, h.room, h.session, h.writing, hrefs⟩

theorem PauseInv.clear {found : Option ℕ} (h : PauseInv s) (hloop : s.loop = .loaded found) :
    PauseInv { s with loop := .taken found, pending := none } := by
  have hahead := h.ahead
  have hrefs := h.refs_eq
  unfold PauseState.allAcquired PauseState.accounted PauseState.inFlight at hrefs
  rw [hloop] at hahead hrefs
  obtain ⟨hon, window, hfound, _, hrest⟩ := hahead
  refine ⟨⟨hon, window, hfound, hrest⟩, h.room, h.session, h.writing, ?_⟩
  unfold PauseState.allAcquired PauseState.accounted PauseState.inFlight
  simp only [refs_none, zero_add]
  exact hrefs

theorem PauseInv.finish {found : Option ℕ} (h : PauseInv s) (hloop : s.loop = .taken found)
    (control : Bool) : PauseInv (s.finish found control) := by
  have hahead := h.ahead
  have hrefs := h.refs_eq
  unfold PauseState.allAcquired PauseState.accounted PauseState.inFlight at hrefs
  rw [hloop] at hahead hrefs
  obtain ⟨hon, window, rfl, hrest⟩ := hahead
  obtain ⟨hwindow, hacquired, hreleased⟩ := attachWindow_refs s.output window control
  refine ⟨?_, h.room, h.session, h.writing, ?_⟩
  · show Ahead .idle (attachWindow s.output window control).nativeWindow s.pending false s.commands
      s.wanted
    rw [hwindow]
    exact ⟨rfl, hrest⟩
  · unfold PauseState.allAcquired PauseState.accounted PauseState.inFlight PauseState.finish
    simp only [hwindow, hacquired, hreleased, refs_some]
    simp only [hon, refs_none, add_zero, refs_some] at hrefs
    rw [← add_assoc, hrefs]
    abel

/-- A step that finds the slot empty keeps the invariant. -/
theorem PauseInv.next {e : PauseEvent} (h : PauseInv s) (hstep : PauseStep s e t)
    (hguard : SlotEmpty s e) : PauseInv t := by
  cases hstep with
  | pause hwriting => exact h.pause hwriting
  | resume window hwriting => exact h.resume hwriting hguard
  | writeResume hwriting => exact h.writeResume hwriting
  | readCommand hidle hread => exact h.readCommand hidle hread
  | load hloop => exact h.load hloop
  | clear hloop => exact h.clear hloop
  | finish control hloop => exact h.finish hloop control

/-- Once all bytes have been processed, the output has what was wanted. -/
theorem PauseInv.settled (h : PauseInv s) (hquiet : Quiescent s) : Settled s := by
  obtain ⟨hunread, hloop, hwriting⟩ := hquiet
  have hahead := h.ahead
  have hrefs := h.refs_eq
  unfold PauseState.allAcquired PauseState.accounted PauseState.inFlight at hrefs
  have hcommands : s.commands = [] := by
    rw [PauseState.commands, hunread, hwriting]
    rfl
  rw [hloop] at hahead hrefs
  rw [hcommands] at hahead
  obtain ⟨hpaused, hslot, hwanted⟩ := hahead
  simp only [hslot, refs_none, add_zero] at hrefs
  exact ⟨hwanted.symm, hwanted ▸ hpaused, hrefs⟩

end Steps

/-! ### Runs -/

/-- **Pause and resume.**  Take a run after which all bytes have been processed.  The output has
what was asked for last and no window reference is lost exactly if every resume of the run found the
slot empty, the window of the resume before it taken out. -/
theorem settled_iff_slotEmpty {s : PauseState} {run : List (PauseEvent × PauseState)}
    (hinit : s.Initial) (hrun : pauseSystem.Exec s run) (hquiet : Quiescent (lastState s run)) :
    Settled (lastState s run) ↔ AllSteps SlotEmpty s run := by
  constructor
  · intro hsettled
    refine slotEmpty_of_not_lost hinit hrun fun hlost => ?_
    have hsum := congrArg Multiset.card hsettled.2.2
    unfold PauseState.Lost PauseState.accounted PauseState.allAcquired at hlost
    have hrefs : refs (lastState s run).output.nativeWindow =
        ((lastState s run).output.nativeWindow.toList : Multiset ℕ) := rfl
    rw [← hrefs, Multiset.card_add, Multiset.card_add, Multiset.card_add] at hsum
    simp only [Multiset.card_add] at hlost
    omega
  · intro hguard
    have hall := System.allStates_of_allSteps (S := pauseSystem) (fun _ h => h)
      (fun _ _ _ h hstep hg => h.next (pauseStep_of_next hstep) hg) (pauseInv_of_initial hinit)
        hrun hguard
    exact hall.last.settled hquiet

/-- A session that has just started, with window 1. -/
def startedSession : PauseState where
  sessionPaused := false
  writing := false
  pending := none
  pipe := Pipe.empty 65536 (by decide)
  loop := .idle
  output := createdOutput 1
  paused := false
  wanted := some 1
  acquired := 0
  released := 0

theorem startedSession_initial : startedSession.Initial :=
  ⟨rfl, rfl, rfl, rfl, by decide, rfl, createdOutput_initial 1, rfl, rfl, rfl, rfl⟩

/-- A pause and a resume with window 2, and a pause before the loop has carried these out. -/
def resumeInTime : List PauseEvent :=
  [.pause, .resume 2, .writeResume, .pause, .readCommand, .readCommand, .load, .clear, .finish true,
    .readCommand]

theorem settled_on_resumeInTime :
    Settled (lastState startedSession (traceNext PauseState.next startedSession resumeInTime)) := by
  refine (settled_iff_slotEmpty startedSession_initial (System.exec_traceNext _ _ _) ?_).mpr ?_
  · exact ⟨rfl, rfl, rfl⟩
  · exact ⟨trivial, fun _ => rfl, trivial, trivial, trivial, trivial, trivial, trivial, trivial,
      trivial, trivial⟩

/-- Two pauses and two resumes before the loop has carried out any of them. -/
def resumeTwice : List PauseEvent :=
  [.pause, .resume 2, .writeResume, .pause, .resume 3, .writeResume, .readCommand, .readCommand,
    .load, .clear, .finish true, .readCommand, .readCommand, .load, .clear, .finish true]

/-- The window of the second resume is used up by the first one: the session ends up running, not
paused, and without a window. -/
theorem second_resume_finds_no_window :
    ¬ ∀ (s : PauseState) (run : List (PauseEvent × PauseState)), s.Initial →
      pauseSystem.Exec s run → Quiescent (lastState s run) → Settled (lastState s run) := by
  intro hall
  have hsettled := hall startedSession (traceNext PauseState.next startedSession resumeTwice)
    startedSession_initial (System.exec_traceNext _ _ _) ⟨rfl, rfl, rfl⟩
  have hwindow : (none : Option ℕ) = some 3 := hsettled.1
  cases hwindow

end Wldroid.Compositor
