import Wldroid.Foundation.Transition

/-!
# The Android output

A wlroots output that presents to a native window, which comes and goes with the activity.  Frames
are paced by a timer; detaching, attaching, every commit and the timer itself arm or disarm it.

* `outputCommit`, `detachWindow`, `attachWindow`, `frameTimerHandler` — the code; detaching and
  attaching commit a state themselves, which runs `outputCommit` in the middle of them;
* `Silent` — without a window the timer is disarmed, and no frame event was ever emitted;
* `silent_iff_detachesNothing` — exactly the runs in which no attached window is detached are
  silent.
-/

namespace Wldroid.Compositor

open Wldroid.Foundation

/-! ### State -/

/-- How a buffer can be presented: whether it is an AHB buffer and a transaction can be made for it,
and whether its data can be read and the window be locked. -/
structure BufferPath where
  ahb : Bool
  transaction : Bool
  dataAccess : Bool
  lock : Bool

/-- `struct wlr_output_state`: what it changes. -/
structure OutputState where
  enabled : Option Bool
  mode : Option (ℕ × ℕ)
  buffer : Option BufferPath

/-- `struct android_output`, with what its `wlr_output`, its window and its timer know. -/
structure AndroidOutput where
  nativeWindow : Option ℕ
  surfaceControl : Bool
  timerArmed : Bool
  /-- `wlr_output.enabled`. -/
  enabled : Bool
  /-- `wlr_output.width` and `wlr_output.height`. -/
  size : ℕ × ℕ
  /-- The buffer geometry of the window. -/
  geometry : ℕ × ℕ
  /-- The present events, with whether the buffer was presented. -/
  presents : List Bool
  /-- Ghost: the frame events, with whether a window was attached. -/
  frames : List Bool
  /-- Ghost: the window references acquired and released so far. -/
  acquired : Multiset ℕ
  released : Multiset ℕ

/-! ### Code -/

/-- Zero-copy presentation, or else a copy by the CPU. -/
def AndroidOutput.present (s : AndroidOutput) (buffer : BufferPath) : Bool :=
  buffer.ahb && s.surfaceControl && buffer.transaction || buffer.dataAccess && buffer.lock

/-- `output_commit`; without a window the commit is accepted and nothing is done. -/
def outputCommit (s : AndroidOutput) (state : OutputState) : AndroidOutput :=
  if s.nativeWindow.isNone then s
  else
    { s with
      geometry := state.mode.getD s.geometry
      presents := s.presents ++ state.buffer.toList.map s.present
      -- the timer is armed for the next frame
      timerArmed := true }

/-- `wlr_output_commit_state`: the backend's commit, then the output takes the state over. -/
def wlrOutputCommitState (s : AndroidOutput) (state : OutputState) : AndroidOutput :=
  let s := outputCommit s state
  { s with enabled := state.enabled.getD s.enabled, size := state.mode.getD s.size }

/-- `android_output_detach_window`. -/
def detachWindow (s : AndroidOutput) : AndroidOutput :=
  let s := { s with timerArmed := false }
  let s := wlrOutputCommitState s ⟨some false, none, none⟩
  { s with
    surfaceControl := false
    nativeWindow := none
    released := s.released + (s.nativeWindow.toList : Multiset ℕ) }

/-- `android_output_attach_window`; `control` tells whether a surface control can be created. -/
def attachWindow (s : AndroidOutput) (window : ℕ) (control : Bool) : AndroidOutput :=
  let s := { s with
    acquired := s.acquired + {window}
    nativeWindow := some window
    surfaceControl := control
    geometry := s.size }
  let s := wlrOutputCommitState s ⟨some true, none, none⟩
  { s with timerArmed := true }

/-- `wlr_output_send_frame`, which skips a disabled output; `commits` is what the frame listener
commits. -/
def wlrOutputSendFrame (s : AndroidOutput) (commits : List OutputState) : AndroidOutput :=
  if s.enabled then
    commits.foldl wlrOutputCommitState { s with frames := s.frames ++ [s.nativeWindow.isSome] }
  else s

/-- `frame_timer_handler`, once the timer has expired; it always arms the timer again. -/
def frameTimerHandler (s : AndroidOutput) (commits : List OutputState) : AndroidOutput :=
  let s := wlrOutputSendFrame { s with timerArmed := false } commits
  { s with timerArmed := true }

/-! ### Runs -/

/-- What can happen to an output. -/
inductive OutputEvent where
  | attach (window : ℕ) (control : Bool)
  | detach
  | commit (state : OutputState)
  | timer (commits : List OutputState)

/-- The output after an event; only an armed timer expires. -/
def AndroidOutput.next (s : AndroidOutput) : OutputEvent → Option AndroidOutput
  | .attach window control => some (attachWindow s window control)
  | .detach => some (detachWindow s)
  | .commit state => some (wlrOutputCommitState s state)
  | .timer commits => if s.timerArmed then some (frameTimerHandler s commits) else none

/-- `android_output_create`: attached, with the timer armed. -/
def AndroidOutput.Initial (s : AndroidOutput) : Prop :=
  s.nativeWindow.isSome ∧ s.timerArmed = true ∧ s.frames = [] ∧
    s.acquired = (s.nativeWindow.toList : Multiset ℕ) ∧ s.released = 0

/-- All runs of an output. -/
def outputSystem : System AndroidOutput OutputEvent :=
  System.ofNext AndroidOutput.Initial AndroidOutput.next

/-! ### Silence -/

/-- Without a window the timer is disarmed; all frame events so far were emitted with a window. -/
def Silent (s : AndroidOutput) : Prop :=
  (s.nativeWindow = none → s.timerArmed = false) ∧ ∀ attached ∈ s.frames, attached = true

/-- No attached window is detached. -/
def DetachesNothing (s : AndroidOutput) : OutputEvent → Prop
  | .detach => s.nativeWindow = none
  | _ => True

@[simp] theorem wlrOutputCommitState_nativeWindow (s : AndroidOutput) (state : OutputState) :
    (wlrOutputCommitState s state).nativeWindow = s.nativeWindow := by
  unfold wlrOutputCommitState outputCommit
  simp only
  split <;> rfl

@[simp] theorem wlrOutputCommitState_frames (s : AndroidOutput) (state : OutputState) :
    (wlrOutputCommitState s state).frames = s.frames := by
  unfold wlrOutputCommitState outputCommit
  simp only
  split <;> rfl

/-- A commit arms the timer, unless there is no window. -/
theorem wlrOutputCommitState_timerArmed (s : AndroidOutput) (state : OutputState) :
    (wlrOutputCommitState s state).timerArmed = (s.nativeWindow.isSome || s.timerArmed) := by
  unfold wlrOutputCommitState outputCommit
  cases hwindow : s.nativeWindow <;> simp

/-- The frame listener's commits change neither the window nor the frames. -/
theorem foldl_commit (commits : List OutputState) (s : AndroidOutput) :
    (commits.foldl wlrOutputCommitState s).nativeWindow = s.nativeWindow ∧
      (commits.foldl wlrOutputCommitState s).frames = s.frames := by
  induction commits generalizing s with
  | nil => exact ⟨rfl, rfl⟩
  | cons state commits ih =>
    rw [List.foldl_cons]
    obtain ⟨hwindow, hframes⟩ := ih (wlrOutputCommitState s state)
    exact ⟨hwindow.trans (wlrOutputCommitState_nativeWindow s state),
      hframes.trans (wlrOutputCommitState_frames s state)⟩

theorem frameTimerHandler_nativeWindow (s : AndroidOutput) (commits : List OutputState) :
    (frameTimerHandler s commits).nativeWindow = s.nativeWindow := by
  unfold frameTimerHandler wlrOutputSendFrame
  simp only
  split
  · exact (foldl_commit commits _).1
  · rfl

/-- An expiry emits at most one frame event. -/
theorem frameTimerHandler_frames (s : AndroidOutput) (commits : List OutputState) :
    ∀ attached ∈ (frameTimerHandler s commits).frames,
      attached ∈ s.frames ∨ attached = s.nativeWindow.isSome := by
  unfold frameTimerHandler wlrOutputSendFrame
  simp only
  split
  · intro attached hmem
    rw [(foldl_commit commits _).2] at hmem
    simpa using hmem
  · exact fun attached hmem => .inl hmem

/-- Detaching an attached window leaves the timer armed: the commit in the middle of it does. -/
theorem detachWindow_timerArmed (s : AndroidOutput) :
    (detachWindow s).timerArmed = s.nativeWindow.isSome := by
  show (wlrOutputCommitState _ _).timerArmed = _
  rw [wlrOutputCommitState_timerArmed, Bool.or_false]

/-- Steps that detach nothing keep the output silent. -/
theorem Silent.next {s t : AndroidOutput} {e : OutputEvent} (h : Silent s)
    (hnext : s.next e = some t) (hguard : DetachesNothing s e) : Silent t := by
  obtain ⟨htimer, hframes⟩ := h
  cases e with
  | attach window control =>
    obtain rfl := Option.some.inj hnext
    refine ⟨fun hnone => ?_, ?_⟩
    · rw [attachWindow, wlrOutputCommitState_nativeWindow] at hnone
      cases hnone
    · rw [attachWindow, wlrOutputCommitState_frames]
      exact hframes
  | detach =>
    obtain rfl := Option.some.inj hnext
    refine ⟨fun _ => ?_, ?_⟩
    · rw [detachWindow_timerArmed, show s.nativeWindow = none from hguard]
      rfl
    · rw [detachWindow, wlrOutputCommitState_frames]
      exact hframes
  | commit state =>
    obtain rfl := Option.some.inj hnext
    refine ⟨fun hnone => ?_, ?_⟩
    · rw [wlrOutputCommitState_nativeWindow] at hnone
      rw [wlrOutputCommitState_timerArmed, hnone, htimer hnone]
      rfl
    · rw [wlrOutputCommitState_frames]
      exact hframes
  | timer commits =>
    simp only [AndroidOutput.next] at hnext
    split at hnext
    · rename_i harmed
      obtain rfl := Option.some.inj hnext
      -- the timer was armed, so there is a window
      have hsome : s.nativeWindow ≠ none := fun hnone => by simp [htimer hnone] at harmed
      refine ⟨fun hnone => ?_, fun attached hmem => ?_⟩
      · rw [frameTimerHandler_nativeWindow] at hnone
        exact absurd hnone hsome
      · rcases frameTimerHandler_frames s commits attached hmem with hold | rfl
        · exact hframes attached hold
        · exact Option.isSome_iff_ne_none.mpr hsome
    · cases hnext

/-- **Silence of a detached output.**  An output is silent in every state of a run exactly when no
step of the run detaches an attached window. -/
theorem silent_iff_detachesNothing {s : AndroidOutput} {run : List (OutputEvent × AndroidOutput)}
    (hinit : s.Initial) (hrun : outputSystem.Exec s run) :
    AllStates Silent s run ↔ AllSteps DetachesNothing s run := by
  obtain ⟨hwindow, -, hframes, -⟩ := hinit
  have hstart : Silent s := by
    refine ⟨fun hnone => ?_, ?_⟩
    · rw [hnone] at hwindow
      cases hwindow
    · simp [hframes]
  refine System.allStates_iff_allSteps (I := Silent) (fun _ h => h) ?_ ?_ hstart hrun
  · intro s e t h hstep hguard
    exact h.next hstep hguard
  · intro s e t _ hstep hguard hsilent
    cases e with
    | detach =>
      obtain rfl := Option.some.inj hstep
      have harmed := hsilent.1 rfl
      rw [detachWindow_timerArmed, Option.isSome_eq_false_iff, Option.isNone_iff_eq_none] at harmed
      exact hguard harmed
    | attach _ _ | commit _ | timer _ => exact hguard trivial

/-- An output that has just been created. -/
def createdOutput (window : ℕ) : AndroidOutput where
  nativeWindow := some window
  surfaceControl := true
  timerArmed := true
  enabled := false
  size := (1080, 2400)
  geometry := (1080, 2400)
  presents := []
  frames := []
  acquired := {window}
  released := 0

theorem createdOutput_initial (window : ℕ) : (createdOutput window).Initial :=
  ⟨rfl, rfl, rfl, rfl, rfl⟩

/-- Enabled, one frame, one commit. -/
def oneFrame : List OutputEvent :=
  [.commit ⟨some true, none, none⟩, .timer [⟨none, none, some ⟨true, true, true, true⟩⟩],
    .commit ⟨none, some (800, 600), none⟩]

theorem silent_on_oneFrame :
    (traceNext AndroidOutput.next (createdOutput 1) oneFrame).length = 3 ∧
      AllStates Silent (createdOutput 1) (traceNext AndroidOutput.next (createdOutput 1) oneFrame) :=
  ⟨rfl, (silent_iff_detachesNothing (createdOutput_initial 1) (System.exec_traceNext _ _ _)).mpr
    ⟨trivial, trivial, trivial, trivial⟩⟩

/-- The first pause leaves the timer of the detached output armed. -/
theorem detached_timer_stays_armed :
    ¬ ∀ (s : AndroidOutput) (run : List (OutputEvent × AndroidOutput)), s.Initial →
      outputSystem.Exec s run → AllStates Silent s run := by
  intro hall
  have hrun := hall (createdOutput 1) (traceNext AndroidOutput.next (createdOutput 1) [.detach])
    (createdOutput_initial 1) (System.exec_traceNext _ _ _)
  have hdetached : Silent (detachWindow (createdOutput 1)) := hrun.2 (.detach, _) (.head _)
  have harmed := hdetached.1 rfl
  cases harmed

end Wldroid.Compositor
