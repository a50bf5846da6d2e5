import Wldroid.Foundation.Transition

/-!
# The desktop launcher: launch jobs and calls of `stop()`

`DesktopLauncher.kt` runs each launch as a coroutine.  `launch()` cancels the job of the previous
one without joining it, so several jobs can be under way, and all write the same `_state`,
`_gpuMode` and `activeProcess`.

* `Pc` — where a job stands: every write of a shared field is a place of its own, and so is every
  stretch of calls between two writes;
* `Job.step` — what one job does at its place, given what the shared fields hold and how the calls
  it makes there end; a step writes at most one shared field;
* `CallPc` — where a call of `launch()` or `stop()` stands;
* `DesktopLauncher.next` — one step of one job or one call, so that a run is any interleaving of
  them.

Launches are numbered in the order their jobs start, and the process of a launch goes by its number.
-/

namespace Wldroid.Launcher

open Wldroid.Foundation

/-! ### The data of a launch -/

/-- The GPU rendering modes. -/
inductive GpuMode where
  | software
  | virglGles
  | virglZink
  | venus
  | turnipDirect
  | auto
  deriving DecidableEq, Repr

/-- Whether the mode needs virgl_test_server to run. -/
def GpuMode.requiresVirglServer (mode : GpuMode) : Bool :=
  mode == .virglGles || mode == .virglZink || mode == .venus

/-- What a `Throwable` tells a handler. -/
structure Throwable where
  message : Option String
  deriving DecidableEq, Repr

inductive DesktopLauncherState where
  | idle
  | startingCompositor
  | detectingGpu
  | startingVirgl
  | extractingShims
  | setupGpu
  | installingPackages
  | launchingApp
  | running
  | stopping
  | error (message phase : String) (cause : Option Throwable)
  deriving DecidableEq, Repr

/-- The class name of a state, which an error reports as its phase. -/
def DesktopLauncherState.simpleName : DesktopLauncherState → String
  | .idle => "Idle"
  | .startingCompositor => "StartingCompositor"
  | .detectingGpu => "DetectingGpu"
  | .startingVirgl => "StartingVirgl"
  | .extractingShims => "ExtractingShims"
  | .setupGpu => "SetupGpu"
  | .installingPackages => "InstallingPackages"
  | .launchingApp => "LaunchingApp"
  | .running => "Running"
  | .stopping => "Stopping"
  | .error .. => "Error"

/-- What a launch reads of its configuration to choose its phases. -/
structure DesktopLauncherConfig where
  xwaylandEnabled : Bool
  additionalPackages : List String

/-- The app's packages, and those of XWayland when it is enabled. -/
def DesktopLauncherConfig.allPackages (config : DesktopLauncherConfig)
    (requiredPackages : List String) : List String :=
  requiredPackages ++
    if config.xwaylandEnabled then "xwayland" :: config.additionalPackages else []

/-! ### Waiting for the Wayland clients -/

/-- Grace period after the last client disconnects. -/
def clientDrainGraceMs : ℕ := 5000

/-- What the first look of `awaitClientsDrained` finds: nothing left to wait for. -/
def sessionComplete (state : DesktopLauncherState) (compositorRunning : Bool)
    (initialClients : ℤ) : Bool :=
  state != .running || !compositorRunning || decide (initialClients ≤ 0)

/-- One poll after the delay: `none` when the wait is over, else the start of the drain period (`0`
while clients are connected).  The clock is read once where a period starts and once more to tell
how long it has lasted. -/
def drainPoll (drainStartNanos : ℕ) (compositorRunning : Bool) (count : ℤ) (started now : ℕ) :
    Option ℕ :=
  if !compositorRunning then
    none
  else if 0 < count then
    some 0
  else
    let start := if drainStartNanos = 0 then started else drainStartNanos
    if clientDrainGraceMs ≤ (now - start) / 1000000 then none else some start

/-! ### Where a job stands -/

/-- The phases a launch goes through before its app runs. -/
inductive Phase where
  | startingCompositor
  | detectingGpu
  | startingVirgl
  | extractingShims
  | setupGpu
  | installingPackages
  | launchingApp
  deriving DecidableEq, Repr

/-- The state a phase shows. -/
def Phase.state : Phase → DesktopLauncherState
  | .startingCompositor => .startingCompositor
  | .detectingGpu => .detectingGpu
  | .startingVirgl => .startingVirgl
  | .extractingShims => .extractingShims
  | .setupGpu => .setupGpu
  | .installingPackages => .installingPackages
  | .launchingApp => .launchingApp

/-- Whether a phase has a suspension point.  The last one waits for XWayland only. -/
def Phase.suspends (config : DesktopLauncherConfig) : Phase → Bool
  | .launchingApp => config.xwaylandEnabled
  | _ => true

/-- How the block that runs the process was left. -/
inductive Leaving where
  | completed
  | cancelled
  | threw (e : Throwable)
  deriving DecidableEq, Repr

/-- Where the coroutine of a launch stands: what it does next. -/
inductive Pc where
  /-- Not dispatched yet. -/
  | created
  | setenv
  /-- About to write the state of the phase. -/
  | enter (phase : Phase)
  /-- In the calls of the phase. -/
  | work (phase : Phase)
  /-- `virglSession.stop()` after a failed GPU setup. -/
  | stopVirgl
  /-- XWayland wrapper, `/tmp` directory and DNS, between the package phase and the launch. -/
  | prepare
  | setRunning
  | startProcess
  | setProcess
  | readOutput
  | waitFor
  /-- The first look of `awaitClientsDrained`. -/
  | awaitClients
  /-- The condition of its loop. -/
  | drain (drainStartNanos : ℕ)
  /-- The delay and the poll in its loop. -/
  | drainDelay (drainStartNanos : ℕ)
  | setIdle
  /-- The `finally` of the block that runs the process. -/
  | clearProcess (leaving : Leaving)
  | catchCancelled
  | catchFailed (e : Throwable)
  | setError (e : Throwable) (phase : String)
  | ended
  deriving DecidableEq, Repr

structure Job where
  requiredPackages : List String
  cancelled : Bool
  pc : Pc
  deriving DecidableEq, Repr

/-- How what a job does at its place ends. -/
inductive Outcome where
  /-- It returns. -/
  | returns
  /-- A suspension point throws `CancellationException`. -/
  | cancelled
  /-- A call throws anything else. -/
  | fails (e : Throwable)
  /-- No compositor socket in time; the compositor is in that state. -/
  | timedOut (currentState : String)
  | detected (mode : GpuMode)
  /-- Whether the VirGL server came up, or the GPU setup succeeded. -/
  | succeeded (ok : Bool)
  | exited (exitCode : ℤ)
  | polled (compositorRunning : Bool) (clients : ℤ) (started now : ℕ)
  deriving DecidableEq, Repr

/-- The write of a shared field that a step makes. -/
inductive Write where
  | nothing
  | gpuMode (mode : GpuMode)
  | state (value : DesktopLauncherState)
  /-- `activeProcess` becomes the launch's own process, or null. -/
  | process (started : Bool)
  deriving DecidableEq, Repr

/-! ### The body of a launch -/

/-- The place after the GPU setup: packages are installed when there are any. -/
def Job.afterGpuSetup (config : DesktopLauncherConfig) (job : Job) : Pc :=
  if config.allPackages job.requiredPackages ≠ [] then .enter .installingPackages else .prepare

/-- What the calls of a phase lead to when they end as they are meant to. -/
def Job.finishPhase (config : DesktopLauncherConfig) (job : Job) (gpuMode : GpuMode) :
    Phase → Outcome → Option (Pc × Write)
  | .startingCompositor, .returns => some (.enter .detectingGpu, .nothing)
  | .startingCompositor, .timedOut currentState =>
      some (.catchFailed
        ⟨some ("Compositor failed to start within 10s (state=" ++ currentState ++ ")")⟩, .nothing)
  | .detectingGpu, .detected mode =>
      some (.enter (if mode.requiresVirglServer then .startingVirgl else .extractingShims),
        .gpuMode mode)
  | .startingVirgl, .succeeded true => some (.enter .extractingShims, .nothing)
  | .startingVirgl, .succeeded false => some (.enter .extractingShims, .gpuMode .software)
  | .extractingShims, .returns =>
      some (if gpuMode ≠ .software then .enter .setupGpu else job.afterGpuSetup config, .nothing)
  | .setupGpu, .succeeded true => some (job.afterGpuSetup config, .nothing)
  | .setupGpu, .succeeded false => some (.stopVirgl, .gpuMode .software)
  | .installingPackages, .exited exitCode =>
      if exitCode ≠ 0 then
        some (.catchFailed ⟨some ("Package install exited with code " ++ toString exitCode)⟩,
          .nothing)
      else
        some (.prepare, .nothing)
  | .launchingApp, .returns => some (.setRunning, .nothing)
  | _, _ => none

/-- One step of a launch's coroutine, with the shared fields it reads there.  A suspension point
throws once the job is cancelled, unless the call returns without suspending. -/
def Job.step (config : DesktopLauncherConfig) (job : Job) (state : DesktopLauncherState)
    (gpuMode : GpuMode) : Pc → Outcome → Option (Pc × Write)
  -- a job cancelled before it is dispatched ends without running its body
  | .created, .returns => if job.cancelled then none else some (.setenv, .nothing)
  | .created, .cancelled => if job.cancelled then some (.ended, .nothing) else none
  | .setenv, .returns => some (.enter .startingCompositor, .nothing)
  | .setenv, .fails e => some (.catchFailed e, .nothing)
  | .enter phase, .returns => some (.work phase, .state phase.state)
  | .work phase, .cancelled =>
      if job.cancelled && phase.suspends config then some (.catchCancelled, .nothing) else none
  | .work _, .fails e => some (.catchFailed e, .nothing)
  | .work phase, outcome => job.finishPhase config gpuMode phase outcome
  | .stopVirgl, .returns => some (job.afterGpuSetup config, .nothing)
  | .stopVirgl, .cancelled => if job.cancelled then some (.catchCancelled, .nothing) else none
  | .stopVirgl, .fails e => some (.catchFailed e, .nothing)
  | .prepare, .returns => some (.enter .launchingApp, .nothing)
  | .prepare, .fails e => some (.catchFailed e, .nothing)
  | .setRunning, .returns => some (.startProcess, .state .running)
  | .startProcess, .returns => some (.setProcess, .nothing)
  | .startProcess, .fails e => some (.catchFailed e, .nothing)
  | .setProcess, .returns => some (.readOutput, .process true)
  | .readOutput, .returns => some (.waitFor, .nothing)
  -- the pipe breaks when the process is killed, which stop() makes expected
  | .readOutput, .fails e =>
      some (if state ≠ .stopping then .clearProcess (.threw e) else .waitFor, .nothing)
  | .waitFor, .returns => some (.awaitClients, .nothing)
  | .waitFor, .cancelled =>
      if job.cancelled then some (.clearProcess .cancelled, .nothing) else none
  | .awaitClients, .polled compositorRunning clients _ _ =>
      some (if sessionComplete state compositorRunning clients then .setIdle else .drain 0, .nothing)
  | .drain start, .returns =>
      some (if state = .running then .drainDelay start else .setIdle, .nothing)
  | .drainDelay start, .polled compositorRunning clients started now =>
      some ((drainPoll start compositorRunning clients started now).elim .setIdle .drain, .nothing)
  | .drainDelay _, .cancelled =>
      if job.cancelled then some (.clearProcess .cancelled, .nothing) else none
  | .setIdle, .returns => some (.clearProcess .completed, .state .idle)
  | .clearProcess .completed, .returns => some (.ended, .process false)
  | .clearProcess .cancelled, .returns => some (.catchCancelled, .process false)
  | .clearProcess (.threw e), .returns => some (.catchFailed e, .process false)
  | .catchCancelled, .returns => some (.ended, .state .idle)
  -- the phase an error names is read from the shared state
  | .catchFailed e, .returns => some (.setError e state.simpleName, .nothing)
  | .setError e phase, .returns =>
      some (.ended, .state (.error (e.message.getD "Unknown error") phase (some e)))
  | _, _ => none

/-! ### The launcher -/

/-- Where a call of `launch()` or `stop()` stands: what it does next. -/
inductive CallPc where
  | cancelPrevious (requiredPackages : List String)
  | resetGpuMode (requiredPackages : List String)
  | startJob (requiredPackages : List String)
  | setStopping
  /-- `activeProcess?.let { … }`: SIGTERM, a wait, SIGKILL. -/
  | destroyProcess
  /-- `launchJob?.cancelAndJoin()`. -/
  | cancelJob
  | joinJob (j : ℕ)
  | forgetJob
  /-- After `virglSession.stop()` and `cleanupStaleFiles()`. -/
  | setIdle
  | returned
  deriving DecidableEq, Repr

structure DesktopLauncher where
  state : DesktopLauncherState
  gpuMode : GpuMode
  activeProcess : Option ℕ
  launchJob : Option ℕ
  /-- The jobs, by the number of their launch. -/
  jobs : List Job
  calls : List CallPc
  /-- The processes that `stop()` has terminated. -/
  destroyed : List ℕ
  /-- Every write of `_state`, newest first, with its launch (`none` for `stop()`). -/
  stateWrites : List (Option ℕ × DesktopLauncherState)
  /-- The launch of every write of `activeProcess`, newest first. -/
  processWriters : List ℕ
  deriving DecidableEq, Repr

inductive Event where
  | launch (requiredPackages : List String)
  | stop
  /-- The `k`-th call takes its next step. -/
  | call (k : ℕ)
  /-- The job of the launch takes its next step, which ends like this. -/
  | job (j : ℕ) (outcome : Outcome)
  /-- The scope of the launch is cancelled. -/
  | scopeCancelled (j : ℕ)
  deriving DecidableEq, Repr

namespace DesktopLauncher

def setState (s : DesktopLauncher) (writer : Option ℕ) (value : DesktopLauncherState) :
    DesktopLauncher :=
  { s with state := value, stateWrites := (writer, value) :: s.stateWrites }

/-- What a step of a launch writes. -/
def write (s : DesktopLauncher) (j : ℕ) : Write → DesktopLauncher
  | .nothing => s
  | .gpuMode mode => { s with gpuMode := mode }
  | .state value => s.setState (some j) value
  | .process started =>
      { s with activeProcess := if started then some j else none,
               processWriters := j :: s.processWriters }

def cancelJob (s : DesktopLauncher) (j : ℕ) : DesktopLauncher :=
  { s with jobs := s.jobs.modify j fun job => { job with cancelled := true } }

/-- The process that `stop()` terminates. -/
def stopTarget (s : DesktopLauncher) : Option ℕ :=
  s.activeProcess

def jobEnded (s : DesktopLauncher) (j : ℕ) : Bool :=
  s.jobs[j]?.all fun job => job.pc == .ended

/-- One step of a call, and where it stands afterwards. -/
def stepCall (s : DesktopLauncher) : CallPc → Option (DesktopLauncher × CallPc)
  | .cancelPrevious packages =>
      some (s.launchJob.elim s s.cancelJob, .resetGpuMode packages)
  | .resetGpuMode packages => some ({ s with gpuMode := .auto }, .startJob packages)
  | .startJob packages =>
      some ({ s with jobs := s.jobs ++ [⟨packages, false, .created⟩],
                     launchJob := some s.jobs.length }, .returned)
  | .setStopping => some (s.setState none .stopping, .destroyProcess)
  | .destroyProcess =>
      some ({ s with destroyed := s.stopTarget.toList ++ s.destroyed }, .cancelJob)
  | .cancelJob => some (s.launchJob.elim (s, .forgetJob) fun j => (s.cancelJob j, .joinJob j))
  | .joinJob j => if s.jobEnded j then some (s, .forgetJob) else none
  | .forgetJob => some ({ s with launchJob := none }, .setIdle)
  | .setIdle => some (s.setState none .idle, .returned)
  | .returned => none

/-- One step of one job or one call, or a new call. -/
def next (config : DesktopLauncherConfig) (s : DesktopLauncher) : Event → Option DesktopLauncher
  | .launch packages => some { s with calls := s.calls ++ [.cancelPrevious packages] }
  | .stop => some { s with calls := s.calls ++ [.setStopping] }
  | .call k => do
      let pc ← s.calls[k]?
      let (s', pc') ← s.stepCall pc
      return { s' with calls := s.calls.set k pc' }
  | .job j outcome => do
      let job ← s.jobs[j]?
      let (pc, w) ← job.step config s.state s.gpuMode job.pc outcome
      return { s.write j w with jobs := s.jobs.set j { job with pc := pc } }
  | .scopeCancelled j => some (s.cancelJob j)

/-- A launcher nobody has called yet. -/
structure Initial (s : DesktopLauncher) : Prop where
  state : s.state = .idle
  gpuMode : s.gpuMode = .auto
  activeProcess : s.activeProcess = none
  launchJob : s.launchJob = none
  jobs : s.jobs = []
  calls : s.calls = []
  destroyed : s.destroyed = []
  stateWrites : s.stateWrites = []
  processWriters : s.processWriters = []

end DesktopLauncher

/-- The launcher under any interleaving of its jobs and calls. -/
def launcherSystem (config : DesktopLauncherConfig) : System DesktopLauncher Event :=
  System.ofNext DesktopLauncher.Initial (DesktopLauncher.next config)

end Wldroid.Launcher
