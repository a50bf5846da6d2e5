import Wldroid.Foundation.Handover
import Wldroid.Launcher.DesktopLauncher

/-!
# A launch that replaces another

A new launch cancels the job of the one before and goes on at once; the old coroutine still runs to
its next suspension point, or until its process closes the pipe, and then through its `finally` and
`catch` blocks, which clear `activeProcess` and set the state.

* `Stage` and `Advance` — what is left of a job, coarser than its place: the small machine that
  `Job.step` follows (`Job.step_advances`);
* `WritesAlone` — a launch about to write a field finds no earlier launch with a write of it left;
* `successorUntouched_of_writesAlone` — in a run of such steps no launch overwrites what a later one
  has written, the visible state is that of the latest launch, and `stop()` finds its process;
* `superseded_launch_interferes` — without it the clean-up of the old launch reaches the new one.
-/

namespace Wldroid.Launcher

open Wldroid.Foundation

/-! ### Stages of a job -/

/-- What a job has left of its writes. -/
inductive Stage where
  | created
  /-- Before `activeProcess` is set. -/
  | starting
  /-- `activeProcess` is set, and the state is written again in any case. -/
  | holding
  /-- Only a last write of the state is left. -/
  | leaving
  /-- Only the clearing of `activeProcess` is left. -/
  | clearing
  | ended
  deriving DecidableEq, Repr

def Pc.stage : Pc → Stage
  | .created => .created
  | .readOutput | .waitFor | .awaitClients | .drain _ | .drainDelay _ | .setIdle
  | .clearProcess .cancelled | .clearProcess (.threw _) => .holding
  | .clearProcess .completed => .clearing
  | .catchCancelled | .catchFailed _ | .setError .. => .leaving
  | .ended => .ended
  | _ => .starting

/-- The next step at this place writes the state. -/
def Pc.writesState : Pc → Bool
  | .enter _ | .setRunning | .setIdle | .catchCancelled | .setError .. => true
  | _ => false

/-- The next step at this place writes `activeProcess`. -/
def Pc.writesProcess : Pc → Bool
  | .setProcess | .clearProcess _ => true
  | _ => false

/-- The writes a place allows. -/
def Write.Allowed (pc : Pc) : Write → Bool
  | .state _ => pc.writesState
  | .process _ => pc.writesProcess
  | _ => true

/-- How a job moves through its stages, and what it writes on the way.  A cancelled one is not
dispatched. -/
inductive Advance (cancelled : Bool) : Stage → Stage → Write → Prop
  | dispatch (h : cancelled = false) : Advance cancelled .created .starting .nothing
  | drop : Advance cancelled .created .ended .nothing
  | prepare : Advance cancelled .starting .starting .nothing
  | chooseMode (mode : GpuMode) : Advance cancelled .starting .starting (.gpuMode mode)
  | progress (value : DesktopLauncherState) : Advance cancelled .starting .starting (.state value)
  | start : Advance cancelled .starting .holding (.process true)
  | abandon : Advance cancelled .starting .leaving .nothing
  | hold : Advance cancelled .holding .holding .nothing
  | finish (value : DesktopLauncherState) : Advance cancelled .holding .clearing (.state value)
  | clear : Advance cancelled .clearing .ended (.process false)
  | release : Advance cancelled .holding .leaving (.process false)
  | notePhase : Advance cancelled .leaving .leaving .nothing
  | report (value : DesktopLauncherState) : Advance cancelled .leaving .ended (.state value)

/-- A job at this stage may still write the state; one cancelled before its dispatch never runs. -/
def Stage.stateWriteLeft (cancelled : Bool) : Stage → Bool
  | .created => !cancelled
  | .starting | .holding | .leaving => true
  | .clearing | .ended => false

/-- A job at this stage may still write `activeProcess`. -/
def Stage.processWriteLeft (cancelled : Bool) : Stage → Bool
  | .created => !cancelled
  | .starting | .holding | .clearing => true
  | .leaving | .ended => false

/-- A job at this stage has set `activeProcess` and not cleared it. -/
def Stage.holdsProcess : Stage → Bool
  | .holding | .clearing => true
  | _ => false

namespace Advance

variable {cancelled : Bool} {a b : Stage} {w : Write}

theorem stateWriteLeft (h : Advance cancelled a b w) (hb : b.stateWriteLeft cancelled = true) :
    a.stateWriteLeft cancelled = true := by
  cases h with
  | dispatch hc => rw [hc]; rfl
  | drop | clear => cases hb
  | _ => rfl

theorem processWriteLeft (h : Advance cancelled a b w) (hb : b.processWriteLeft cancelled = true) :
    a.processWriteLeft cancelled = true := by
  cases h with
  | dispatch hc => rw [hc]; rfl
  | drop | notePhase | report => cases hb
  | _ => rfl

theorem stateWriteLeft_of_write {value : DesktopLauncherState}
    (h : Advance cancelled a b (.state value)) : a.stateWriteLeft cancelled = true := by
  cases h
  all_goals rfl

theorem processWriteLeft_of_write {started : Bool} (h : Advance cancelled a b (.process started)) :
    a.processWriteLeft cancelled = true := by
  cases h
  all_goals rfl

/-- Who has `activeProcess` set has just set it, or had it before and has not written it since. -/
theorem holdsProcess (h : Advance cancelled a b w) (hb : b.holdsProcess = true) :
    w = .process true ∨ a.holdsProcess = true ∧ ∀ started, w ≠ .process started := by
  cases h with
  | start => exact .inl rfl
  | hold | finish => exact .inr ⟨rfl, nofun⟩
  | _ => cases hb

end Advance

section Job

variable {config : DesktopLauncherConfig} {job : Job} {state : DesktopLauncherState}
  {gpuMode : GpuMode} {outcome : Outcome} {pc pc' : Pc} {w : Write}

theorem Job.afterGpuSetup_stage (config : DesktopLauncherConfig) (job : Job) :
    (job.afterGpuSetup config).stage = .starting := by
  unfold Job.afterGpuSetup
  split <;> rfl

theorem Job.finishPhase_advances {phase : Phase}
    (h : job.finishPhase config gpuMode phase outcome = some (pc', w)) :
    Advance job.cancelled .starting pc'.stage w ∧ w.Allowed pc = true := by
  have hafter := Job.afterGpuSetup_stage config job
  cases phase with
  | startingCompositor =>
    cases outcome with
    | returns | timedOut currentState =>
      cases h
      exact ⟨by constructor, rfl⟩
    | _ => cases h
  | detectingGpu =>
    cases outcome with
    | detected mode =>
      cases h
      refine ⟨?_, rfl⟩
      show Advance _ _ (Pc.enter _).stage _
      exact .chooseMode mode
    | _ => cases h
  | startingVirgl =>
    cases outcome with
    | succeeded ok =>
      cases ok <;> cases h
      all_goals exact ⟨by constructor, rfl⟩
    | _ => cases h
  -- the shims are extracted: a GPU setup, or what comes after it
  | extractingShims =>
    cases outcome with
    | returns =>
      cases h
      refine ⟨?_, rfl⟩
      split
      · exact .prepare
      · rw [hafter]
        exact .prepare
    | _ => cases h
  | setupGpu =>
    cases outcome with
    | succeeded ok =>
      cases ok with
      | true =>
        cases h
        refine ⟨?_, rfl⟩
        rw [hafter]
        exact .prepare
      | false =>
        cases h
        exact ⟨.chooseMode .software, rfl⟩
    | _ => cases h
  | installingPackages =>
    cases outcome with
    | exited exitCode =>
      by_cases hcode : exitCode ≠ 0
      · obtain ⟨rfl, rfl⟩ := Prod.mk.inj (Option.some.inj ((if_pos hcode).symm.trans h))
        exact ⟨.abandon, rfl⟩
      · obtain ⟨rfl, rfl⟩ := Prod.mk.inj (Option.some.inj ((if_neg hcode).symm.trans h))
        exact ⟨.prepare, rfl⟩
    | _ => cases h
  | launchingApp =>
    cases outcome with
    | returns =>
      cases h
      exact ⟨.prepare, rfl⟩
    | _ => cases h

/-- **A job follows the machine of its stages**, and writes only what its place allows. -/
theorem Job.step_advances (h : job.step config state gpuMode pc outcome = some (pc', w)) :
    Advance job.cancelled pc.stage pc'.stage w ∧ w.Allowed pc = true := by
  cases pc with
  | created =>
    cases outcome with
    | returns =>
      obtain ⟨hc, h⟩ := Option.ite_none_left_eq_some.mp h
      cases h
      exact ⟨.dispatch (Bool.eq_false_of_not_eq_true hc), rfl⟩
    | cancelled =>
      obtain ⟨-, h⟩ := Option.ite_none_right_eq_some.mp h
      cases h
      exact ⟨.drop, rfl⟩
    | _ => cases h
  | setenv | prepare | startProcess =>
    cases outcome with
    | returns | fails e =>
      cases h
      exact ⟨by constructor, rfl⟩
    | _ => cases h
  | enter phase =>
    cases outcome with
    | returns =>
      cases h
      exact ⟨.progress phase.state, rfl⟩
    | _ => cases h
  | work phase =>
    cases outcome with
    | cancelled =>
      obtain ⟨-, h⟩ := Option.ite_none_right_eq_some.mp h
      cases h
      exact ⟨.abandon, rfl⟩
    | fails e =>
      cases h
      exact ⟨.abandon, rfl⟩
    | _ => exact Job.finishPhase_advances h
  | stopVirgl =>
    cases outcome with
    | returns =>
      cases h
      refine ⟨?_, rfl⟩
      rw [Job.afterGpuSetup_stage]
      exact .prepare
    | cancelled =>
      obtain ⟨-, h⟩ := Option.ite_none_right_eq_some.mp h
      cases h
      exact ⟨.abandon, rfl⟩
    | fails e =>
      cases h
      exact ⟨.abandon, rfl⟩
    | _ => cases h
  | setRunning =>
    cases outcome with
    | returns =>
      cases h
      exact ⟨.progress .running, rfl⟩
    | _ => cases h
  | setProcess =>
    cases outcome with
    | returns =>
      cases h
      exact ⟨.start, rfl⟩
    | _ => cases h
  -- from here on it may depend on the shared state
  | readOutput =>
    cases outcome with
    | returns =>
      cases h
      exact ⟨.hold, rfl⟩
    | fails e =>
      cases h
      refine ⟨?_, rfl⟩
      split
      all_goals exact .hold
    | _ => cases h
  | waitFor =>
    cases outcome with
    | returns =>
      cases h
      exact ⟨.hold, rfl⟩
    | cancelled =>
      obtain ⟨-, h⟩ := Option.ite_none_right_eq_some.mp h
      cases h
      exact ⟨.hold, rfl⟩
    | _ => cases h
  | awaitClients =>
    cases outcome with
    | polled compositorRunning clients started now =>
      cases h
      refine ⟨?_, rfl⟩
      split
      all_goals exact .hold
    | _ => cases h
  | drain start =>
    cases outcome with
    | returns =>
      cases h
      refine ⟨?_, rfl⟩
      split
      all_goals exact .hold
    | _ => cases h
  | drainDelay start =>
    cases outcome with
    | polled compositorRunning clients started now =>
      cases h
      refine ⟨?_, rfl⟩
      cases drainPoll _ _ _ _ _
      all_goals exact .hold
    | cancelled =>
      obtain ⟨-, h⟩ := Option.ite_none_right_eq_some.mp h
      cases h
      exact ⟨.hold, rfl⟩
    | _ => cases h
  | setIdle =>
    cases outcome with
    | returns =>
      cases h
      exact ⟨.finish .idle, rfl⟩
    | _ => cases h
  | clearProcess leaving =>
    cases outcome with
    | returns =>
      cases leaving with
      | completed =>
        cases h
        exact ⟨.clear, rfl⟩
      | cancelled | threw e =>
        cases h
        exact ⟨.release, rfl⟩
    | _ => cases leaving <;> cases h
  | catchCancelled =>
    cases outcome with
    | returns =>
      cases h
      exact ⟨.report .idle, rfl⟩
    | _ => cases h
  | catchFailed e =>
    cases outcome with
    | returns =>
      cases h
      exact ⟨.notePhase, rfl⟩
    | _ => cases h
  | setError e phase =>
    cases outcome with
    | returns =>
      cases h
      exact ⟨.report _, rfl⟩
    | _ => cases h
  | ended => cases outcome <;> cases h

def Job.stateWriteLeft (job : Job) : Bool :=
  job.pc.stage.stateWriteLeft job.cancelled

def Job.processWriteLeft (job : Job) : Bool :=
  job.pc.stage.processWriteLeft job.cancelled

theorem Job.stateWriteLeft_cancel (h : { job with cancelled := true }.stateWriteLeft = true) :
    job.stateWriteLeft = true := by
  unfold Job.stateWriteLeft at h ⊢
  cases hstage : job.pc.stage with
  | created => rw [hstage] at h; cases h
  | clearing | ended => rw [hstage] at h; cases h
  | _ => rfl

theorem Job.processWriteLeft_cancel (h : { job with cancelled := true }.processWriteLeft = true) :
    job.processWriteLeft = true := by
  unfold Job.processWriteLeft at h ⊢
  cases hstage : job.pc.stage with
  | created => rw [hstage] at h; cases h
  | leaving | ended => rw [hstage] at h; cases h
  | _ => rfl

end Job

/-! ### What the launches have written -/

namespace DesktopLauncher

/-- The launches that have written the state, newest write first. -/
def stateWriters (s : DesktopLauncher) : List ℕ :=
  s.stateWrites.filterMap Prod.fst

/-- The launch may still write the state. -/
def stateLeft (s : DesktopLauncher) (j : ℕ) : Bool :=
  s.jobs[j]?.any Job.stateWriteLeft

/-- The launch may still write `activeProcess`. -/
def processLeft (s : DesktopLauncher) (j : ℕ) : Bool :=
  s.jobs[j]?.any Job.processWriteLeft

/-- The launch that no other has replaced. -/
def IsLatest (s : DesktopLauncher) (j : ℕ) : Prop :=
  j + 1 = s.jobs.length

end DesktopLauncher

/-- No launch has overwritten a field after a later one wrote it; so the visible state is what the
latest launch, or `stop()`, wrote last, and while the latest launch has its process set, that is
the one `stop()` terminates. -/
structure SuccessorUntouched (s : DesktopLauncher) : Prop where
  stateInOrder : s.stateWriters.Pairwise (· ≥ ·)
  processInOrder : s.processWriters.Pairwise (· ≥ ·)
  visible : ∀ j, s.IsLatest j → j ∈ s.stateWriters →
    ∃ writer, s.stateWrites.head? = some (writer, s.state) ∧ (writer = some j ∨ writer = none)
  stopFinds : ∀ j job, s.IsLatest j → s.jobs[j]? = some job → job.pc.stage.holdsProcess = true →
    s.stopTarget = some j

/-- The launch that takes the step writes a field only when no earlier launch may still write it. -/
def WritesAlone (s : DesktopLauncher) : Event → Prop
  | .job j _ => ∀ job ∈ s.jobs[j]?,
      (job.pc.writesState = true → ∀ i < j, s.stateLeft i = false) ∧
        (job.pc.writesProcess = true → ∀ i < j, s.processLeft i = false)
  | _ => True

instance (s : DesktopLauncher) (e : Event) : Decidable (WritesAlone s e) := by
  cases e with
  | job j outcome =>
    exact inferInstanceAs (Decidable (∀ job ∈ s.jobs[j]?,
      (job.pc.writesState = true → ∀ i < j, s.stateLeft i = false) ∧
        (job.pc.writesProcess = true → ∀ i < j, s.processLeft i = false)))
  | _ => exact isTrue trivial

/-- What runs of such steps keep. -/
structure RelaunchInv (s : DesktopLauncher) : Prop where
  states : Handover s.stateLeft s.stateWriters
  processes : Handover s.processLeft s.processWriters
  stateLaunched : ∀ w ∈ s.stateWriters, w < s.jobs.length
  processLaunched : ∀ w ∈ s.processWriters, w < s.jobs.length
  shown : ∀ writer value, s.stateWrites.head? = some (writer, value) → value = s.state
  -- a process that is not visible any more was replaced by that of a later launch
  held : ∀ j job, s.jobs[j]? = some job → job.pc.stage.holdsProcess = true →
    j ∈ s.processWriters ∧ (s.activeProcess = some j ∨ ∃ k ∈ s.processWriters, j < k)

section Jobs

variable {jobs : List Job} {p : Job → Bool} {i j : ℕ}

theorem any_modify {f : Job → Job} (hf : ∀ job, p (f job) = true → p job = true)
    (h : (jobs.modify j f)[i]?.any p = true) : jobs[i]?.any p = true := by
  rw [List.getElem?_modify] at h
  cases hjob : jobs[i]? with
  | none => rw [hjob] at h; cases h
  | some job =>
    rw [hjob] at h
    split at h
    · exact hf job h
    · exact h

theorem any_set {job job' : Job} (hjob : jobs[j]? = some job)
    (hf : p job' = true → p job = true)
    (h : (jobs.set j job')[i]?.any p = true) : jobs[i]?.any p = true := by
  rw [List.getElem?_set] at h
  split at h
  · rename_i hij
    rw [← hij, hjob]
    split at h
    · exact hf h
    · cases h
  · exact h

end Jobs

namespace RelaunchInv

variable {s t : DesktopLauncher} {config : DesktopLauncherConfig}

theorem of_initial (h : s.Initial) : RelaunchInv s := by
  have hwriters : s.stateWriters = [] := by
    unfold DesktopLauncher.stateWriters
    rw [h.stateWrites]
    rfl
  exact
    { states := hwriters ▸ Handover.nil _
      processes := h.processWriters ▸ Handover.nil _
      stateLaunched := fun w hw => absurd (hwriters ▸ hw) List.not_mem_nil
      processLaunched := fun w hw => absurd (h.processWriters ▸ hw) List.not_mem_nil
      shown := fun writer value hw => by rw [h.stateWrites] at hw; cases hw
      held := fun j job hjob _ => by rw [h.jobs] at hjob; cases hjob }

theorem untouched (h : RelaunchInv s) : SuccessorUntouched s where
  stateInOrder := h.states.inOrder
  processInOrder := h.processes.inOrder
  visible j hlatest hj := by
    have hnewest : s.stateWriters.head? = some j :=
      h.states.newest (fun v hv => by
        have hlaunched := h.stateLaunched v hv
        unfold DesktopLauncher.IsLatest at hlatest
        omega) hj
    cases hwrites : s.stateWrites with
    | nil =>
      rw [DesktopLauncher.stateWriters, hwrites] at hj
      exact absurd hj List.not_mem_nil
    | cons entry rest =>
      obtain ⟨writer, value⟩ := entry
      have hvalue : value = s.state := h.shown writer value (by rw [hwrites]; rfl)
      refine ⟨writer, by rw [hvalue]; rfl, ?_⟩
      cases writer with
      | none => exact .inr rfl
      | some w =>
        rw [DesktopLauncher.stateWriters, hwrites] at hnewest
        exact .inl hnewest
  stopFinds j job hlatest hjob hholds := by
    obtain ⟨-, hactive | ⟨k, hk, hlt⟩⟩ := h.held j job hjob hholds
    · exact hactive
    · have hbound := h.processLaunched k hk
      unfold DesktopLauncher.IsLatest at hlatest
      omega

/-- Only the jobs and the two fields with their writes matter. -/
theorem frame (h : RelaunchInv s) (hstate : t.state = s.state) (hjobs : t.jobs = s.jobs)
    (hactive : t.activeProcess = s.activeProcess) (hstates : t.stateWrites = s.stateWrites)
    (hprocesses : t.processWriters = s.processWriters) : RelaunchInv t := by
  obtain ⟨state, gpuMode, active, launchJob, jobs, calls, destroyed, states, processes⟩ := s
  obtain ⟨state', gpuMode', active', launchJob', jobs', calls', destroyed', states', processes'⟩ := t
  cases hstate
  cases hjobs
  cases hactive
  cases hstates
  cases hprocesses
  exact ⟨h.states, h.processes, h.stateLaunched, h.processLaunched, h.shown, h.held⟩

/-- Jobs may be added, and change so that none has more to write or holds a process anew. -/
theorem withJobs (h : RelaunchInv s) {jobs : List Job} (hlength : s.jobs.length ≤ jobs.length)
    (hstate : ∀ i < s.jobs.length, jobs[i]?.any Job.stateWriteLeft = true →
      s.stateLeft i = true)
    (hprocess : ∀ i < s.jobs.length, jobs[i]?.any Job.processWriteLeft = true →
      s.processLeft i = true)
    (hholds : ∀ (i : ℕ) (job : Job), jobs[i]? = some job → job.pc.stage.holdsProcess = true →
      ∃ old : Job, s.jobs[i]? = some old ∧ old.pc.stage.holdsProcess = true) :
    RelaunchInv { s with jobs := jobs } where
  states := h.states.mono fun v hv i hi hleft => hstate i (hi.trans (h.stateLaunched v hv)) hleft
  processes := h.processes.mono fun v hv i hi hleft =>
    hprocess i (hi.trans (h.processLaunched v hv)) hleft
  stateLaunched w hw := (h.stateLaunched w hw).trans_le hlength
  processLaunched w hw := (h.processLaunched w hw).trans_le hlength
  shown := h.shown
  held j job hjob hholding := by
    obtain ⟨old, hold, holding⟩ := hholds j job hjob hholding
    exact h.held j old hold holding

theorem cancelJob (h : RelaunchInv s) (j : ℕ) : RelaunchInv (s.cancelJob j) := by
  refine h.withJobs (List.length_modify _ _ _).ge ?_ ?_ ?_
  · intro i _ hleft
    exact any_modify (fun job => Job.stateWriteLeft_cancel) hleft
  · intro i _ hleft
    exact any_modify (fun job => Job.processWriteLeft_cancel) hleft
  · intro i job hjob hholds
    rw [List.getElem?_modify] at hjob
    obtain ⟨old, hold, rfl⟩ := Option.map_eq_some_iff.mp hjob
    refine ⟨old, hold, ?_⟩
    split at hholds
    all_goals exact hholds

theorem startJob (h : RelaunchInv s) (packages : List String) :
    RelaunchInv { s with jobs := s.jobs ++ [⟨packages, false, .created⟩] } := by
  refine h.withJobs (by simp) ?_ ?_ ?_
  · intro i hi hleft
    rw [List.getElem?_append_left hi] at hleft
    exact hleft
  · intro i hi hleft
    rw [List.getElem?_append_left hi] at hleft
    exact hleft
  · intro i job hjob hholds
    rw [List.getElem?_append] at hjob
    split at hjob
    · exact ⟨job, hjob, hholds⟩
    · -- the new job has not even been dispatched
      rw [List.getElem?_singleton] at hjob
      split at hjob
      · cases hjob
        cases hholds
      · cases hjob

/-- `stop()` writes the state as nobody's successor. -/
theorem stopWrites (h : RelaunchInv s) (value : DesktopLauncherState) :
    RelaunchInv (s.setState none value) where
  states := h.states
  processes := h.processes
  stateLaunched := h.stateLaunched
  processLaunched := h.processLaunched
  shown _ _ hw := (Prod.mk.inj (Option.some.inj hw)).2.symm
  held := h.held

theorem stepCall (h : RelaunchInv s) {pc pc' : CallPc} (hstep : s.stepCall pc = some (t, pc')) :
    RelaunchInv t := by
  cases pc with
  | cancelPrevious packages =>
    cases hstep
    cases s.launchJob with
    | none => exact h
    | some j => exact h.cancelJob j
  | resetGpuMode packages =>
    cases hstep
    exact h.frame rfl rfl rfl rfl rfl
  | startJob packages =>
    cases hstep
    exact (h.startJob packages).frame rfl rfl rfl rfl rfl
  | setStopping =>
    cases hstep
    exact h.stopWrites .stopping
  | destroyProcess =>
    cases hstep
    exact h.frame rfl rfl rfl rfl rfl
  | cancelJob =>
    rw [DesktopLauncher.stepCall] at hstep
    cases hjob : s.launchJob with
    | none =>
      rw [hjob] at hstep
      cases hstep
      exact h
    | some j =>
      rw [hjob] at hstep
      cases hstep
      exact h.cancelJob j
  | joinJob j =>
    rw [DesktopLauncher.stepCall] at hstep
    split at hstep
    · cases hstep
      exact h
    · cases hstep
  | forgetJob =>
    cases hstep
    exact h.frame rfl rfl rfl rfl rfl
  | setIdle =>
    cases hstep
    exact h.stopWrites .idle
  | returned => cases hstep

/-- **A launch that writes alone keeps the order**, and takes its process with it when it clears
it. -/
theorem stepJob (h : RelaunchInv s) {j : ℕ} {job : Job} {pc : Pc} {w : Write} {outcome : Outcome}
    (hjob : s.jobs[j]? = some job)
    (hstep : job.step config s.state s.gpuMode job.pc outcome = some (pc, w))
    (halone : WritesAlone s (.job j outcome)) :
    RelaunchInv { s.write j w with jobs := s.jobs.set j { job with pc := pc } } := by
  obtain ⟨hadvance, hallowed⟩ := Job.step_advances hstep
  obtain ⟨hstateAlone, hprocessAlone⟩ := halone job hjob
  have hj : j < s.jobs.length := (List.getElem?_eq_some_iff.mp hjob).1
  have hlength : (s.jobs.set j { job with pc := pc }).length = s.jobs.length := List.length_set
  have hleft : job.stateWriteLeft = true → s.stateLeft j = true := by
    intro hjobLeft
    rw [DesktopLauncher.stateLeft, hjob]
    exact hjobLeft
  have hprocessLeft : job.processWriteLeft = true → s.processLeft j = true := by
    intro hjobLeft
    rw [DesktopLauncher.processLeft, hjob]
    exact hjobLeft
  -- the write itself, while the job still stands at its old place
  have hstates : Handover s.stateLeft (s.write j w).stateWriters := by
    cases w with
    | state value =>
      exact h.states.write (hleft hadvance.stateWriteLeft_of_write) (hstateAlone hallowed)
    | _ => exact h.states
  have hprocesses : Handover s.processLeft (s.write j w).processWriters := by
    cases w with
    | process started =>
      exact h.processes.write (hprocessLeft hadvance.processWriteLeft_of_write)
        (hprocessAlone hallowed)
    | _ => exact h.processes
  refine
    { states := hstates.mono fun _ _ i _ => any_set hjob hadvance.stateWriteLeft
      processes := hprocesses.mono fun _ _ i _ => any_set hjob hadvance.processWriteLeft
      stateLaunched := ?_, processLaunched := ?_, shown := ?_, held := ?_ }
  · intro v hv
    rw [hlength]
    cases w with
    | state value =>
      obtain rfl | hold := List.mem_cons.mp hv
      · exact hj
      · exact h.stateLaunched v hold
    | _ => exact h.stateLaunched v hv
  · intro v hv
    rw [hlength]
    cases w with
    | process started =>
      obtain rfl | hold := List.mem_cons.mp hv
      · exact hj
      · exact h.processLaunched v hold
    | _ => exact h.processLaunched v hv
  · intro writer value hw
    cases w with
    | state v => exact (Prod.mk.inj (Option.some.inj hw)).2.symm
    | _ => exact h.shown writer value hw
  · intro i other hother hholds
    rw [List.getElem?_set] at hother
    split at hother
    · -- the launch itself: its process has just been set, or is untouched
      rename_i hij
      cases hother
      cases hij
      obtain rfl | ⟨hheld, huntouched⟩ := hadvance.holdsProcess hholds
      · exact ⟨List.mem_cons_self, .inl rfl⟩
      · have hold := h.held j job hjob hheld
        cases w with
        | process started => exact absurd rfl (huntouched started)
        | _ => exact hold
    · rename_i hij
      obtain ⟨hi, hvisible⟩ := h.held i other hother hholds
      cases w with
      | process started =>
        refine ⟨List.mem_cons_of_mem _ hi, .inr ⟨j, List.mem_cons_self, ?_⟩⟩
        -- a launch before one that has set its process has no such write left
        by_contra hlt
        have hsettled := h.processes.settled i hi j (by omega)
        rw [hprocessLeft hadvance.processWriteLeft_of_write] at hsettled
        cases hsettled
      | _ => exact ⟨hi, hvisible⟩

theorem next (h : RelaunchInv s) {e : Event} (hstep : s.next config e = some t)
    (halone : WritesAlone s e) : RelaunchInv t := by
  cases e with
  | launch packages | stop =>
    cases hstep
    exact h.frame rfl rfl rfl rfl rfl
  | scopeCancelled j =>
    cases hstep
    exact h.cancelJob j
  | call k =>
    obtain ⟨pc, -, hrest⟩ := Option.bind_eq_some_iff.mp hstep
    obtain ⟨⟨u, pc'⟩, hcall, hset⟩ := Option.bind_eq_some_iff.mp hrest
    cases hset
    exact (h.stepCall hcall).frame rfl rfl rfl rfl rfl
  | job j outcome =>
    obtain ⟨job, hjob, hrest⟩ := Option.bind_eq_some_iff.mp hstep
    obtain ⟨⟨pc, w⟩, hmoves, hset⟩ := Option.bind_eq_some_iff.mp hrest
    cases hset
    exact h.stepJob hjob hmoves halone

end RelaunchInv

/-- **A launch that writes alone never disturbs its successor.**  In a run in which each launch
writes the state, or `activeProcess`, only when no earlier launch may still write it, the fields are
always as the latest launch to write them left them. -/
theorem successorUntouched_of_writesAlone {config : DesktopLauncherConfig} {s : DesktopLauncher}
    {run : List (Event × DesktopLauncher)} (hinitial : s.Initial)
    (hrun : (launcherSystem config).Exec s run) (hguard : AllSteps WritesAlone s run) :
    AllStates SuccessorUntouched s run :=
  System.allStates_of_allSteps (I := RelaunchInv) (fun _ h => h.untouched)
    (fun _ _ _ h hstep halone => h.next hstep halone) (RelaunchInv.of_initial hinitial) hrun hguard

/-! ### Two launches in a row -/

def freshLauncher : DesktopLauncher :=
  { state := .idle, gpuMode := .auto, activeProcess := none, launchJob := none, jobs := [],
    calls := [], destroyed := [], stateWrites := [], processWriters := [] }

theorem freshLauncher_initial : freshLauncher.Initial :=
  ⟨rfl, rfl, rfl, rfl, rfl, rfl, rfl, rfl, rfl⟩

/-- Software rendering, no packages, no XWayland. -/
def plainConfig : DesktopLauncherConfig where
  xwaylandEnabled := false
  additionalPackages := []

/-- The `j`-th call of `launch()`, and the job it starts up to the reading of the app's output. -/
def launchAndRun (j : ℕ) : List Event :=
  [.launch [], .call j, .call j, .call j] ++
    [.returns, .returns, .returns, .returns, .returns, .detected .software, .returns, .returns,
      .returns, .returns, .returns, .returns, .returns, .returns].map (Event.job j)

/-- The first launch fails to set its socket path and has ended when the second is made. -/
def relaunchAfterFailure : List Event :=
  [.launch [], .call 0, .call 0, .call 0, .job 0 .returns, .job 0 (.fails ⟨none⟩), .job 0 .returns,
    .job 0 .returns] ++ launchAndRun 1

theorem successorUntouched_relaunchAfterFailure :
    (traceNext (DesktopLauncher.next plainConfig) freshLauncher relaunchAfterFailure).length = 26 ∧
      AllStates SuccessorUntouched freshLauncher
        (traceNext (DesktopLauncher.next plainConfig) freshLauncher relaunchAfterFailure) :=
  ⟨rfl, successorUntouched_of_writesAlone freshLauncher_initial
    (System.exec_traceNext _ _ _) (by decide)⟩

/-- The second launch is made while the first one's app runs; then that app ends, and the cancelled
coroutine goes through its `finally` block. -/
def relaunchWhileRunning : List Event :=
  launchAndRun 0 ++ launchAndRun 1 ++ [.job 0 .returns, .job 0 .cancelled, .job 0 .returns]

/-- The old launch clears the `activeProcess` of the new one. -/
theorem superseded_launch_interferes :
    ¬ ∀ (config : DesktopLauncherConfig) (s : DesktopLauncher)
      (run : List (Event × DesktopLauncher)), s.Initial → (launcherSystem config).Exec s run →
      AllStates SuccessorUntouched s run := by
  intro hall
  have hrun := hall plainConfig freshLauncher
    (traceNext (DesktopLauncher.next plainConfig) freshLauncher relaunchWhileRunning)
    freshLauncher_initial (System.exec_traceNext _ _ _)
  have hlast : SuccessorUntouched ((runNext (DesktopLauncher.next plainConfig) freshLauncher
      relaunchWhileRunning).getD freshLauncher) :=
    hrun.2 (.job 0 .returns, _) (List.mem_of_getLast? rfl)
  have hfinds := hlast.stopFinds 1 ⟨[], false, .readOutput⟩ rfl rfl rfl
  cases hfinds

end Wldroid.Launcher
