import Wldroid.Launcher.DesktopLauncher

/-!
# The foreground service and its wake lock

`WldroidService.kt` runs on the main thread: its calls, the bodies of its coroutines between two
suspension points and the deliveries to its session observers each run without interruption.
`stopSession` leaves its release of the wake lock to a coroutine that first waits for the session to
stop, and forgets the session at once.

* `WldroidService.next` — a call, a delivery, or the rest of a coroutine, in any order;
* `HoldsResources` — while there is a session the wake lock is held and the service not inactive;
* `ReleasesIdle` — a `stopSession` that has waited finds no session when it releases;
* **`holdsResources_iff_releasesIdle`** — a run keeps the first exactly if its steps do the second;
* `restart_loses_wakeLock` — a session started while the one before it stops.
-/

namespace Wldroid.Launcher

open Wldroid.Foundation

/-! ### States -/

inductive SetupPhase where
  | downloading
  | extracting
  | configuring
  | installingPackages
  | launching
  deriving DecidableEq, Repr

/-- `WldroidServiceState`; the fraction of a setup's progress is left out. -/
inductive WldroidServiceState where
  | inactive
  | setup (phase : SetupPhase) (envName : String)
  | sessionActive (envName : String) (gpuMode : GpuMode)
  | error (message : String) (phase : Option SetupPhase) (canRetry : Bool)
  deriving DecidableEq, Repr

inductive DesktopSessionState where
  | idle
  | starting
  | running
  | stopping
  | stopped
  | error
  deriving DecidableEq, Repr

/-- A `PowerManager.WakeLock` without reference counting. -/
structure WakeLock where
  isHeld : Bool
  deriving DecidableEq, Repr

/-- `PHANTOM_KILL_GUIDANCE`. -/
def phantomKillGuidance : String :=
  "Android terminated background processes. Enable Developer Options and disable " ++
    "\x27Phantom process monitoring\x27 to fix this."

/-- The message of a session error, by what `isPhantomProcessKillerEnabled()` answers. -/
def sessionErrorMessage (phantomProcessKillerEnabled : Option Bool) : String :=
  if phantomProcessKillerEnabled ≠ some false then phantomKillGuidance else "Desktop session error"

/-- A coroutine launched in `serviceScope`. -/
inductive ServiceTask where
  /-- `startSession` stops the session it replaces. -/
  | stopOld (session : ℕ)
  /-- The rest of `stopSession`: `session.stop()`, then the release. -/
  | stopAndRelease (session : ℕ)
  | stopSelfIfIdle
  | ended
  deriving DecidableEq, Repr

/-- The observer of a session's state. -/
structure SessionObserver where
  envName : String
  cancelled : Bool
  deriving DecidableEq, Repr

/-! ### The service -/

/-- Sessions are numbered as they are started; each has the observer of its number. -/
structure WldroidService where
  wakeLock : Option WakeLock
  serviceState : WldroidServiceState
  desktopSession : Option ℕ
  sessionObserverJob : Option ℕ
  observers : List SessionObserver
  tasks : List ServiceTask
  /-- `stopSelf()` has been called. -/
  stopRequested : Bool
  deriving DecidableEq, Repr

inductive ServiceEvent where
  | startSession (envName : String) (gpuMode : GpuMode)
  | stopSession
  | createEnvironment
  | updateSetupNotification (phase : SetupPhase) (envName : String)
  /-- The state of a session is delivered to its observer. -/
  | sessionState (session : ℕ) (state : DesktopSessionState) (gpuMode : GpuMode)
      (phantomProcessKillerEnabled : Option Bool)
  /-- A coroutine goes on; `stopped` tells whether the `session.stop()` it waits for returns or
  throws. -/
  | task (k : ℕ) (stopped : Bool)
  deriving DecidableEq, Repr

namespace WldroidService

def acquireWakeLock (s : WldroidService) : WldroidService :=
  if s.wakeLock = none then { s with wakeLock := some ⟨true⟩ } else s

/-- The lock is released if it is held, and forgotten. -/
def releaseWakeLock (s : WldroidService) : WldroidService := { s with wakeLock := none }

def launch (s : WldroidService) (task : ServiceTask) : WldroidService :=
  { s with tasks := s.tasks ++ [task] }

/-- `sessionObserverJob?.cancel()`. -/
def cancelObserver (s : WldroidService) : WldroidService :=
  match s.sessionObserverJob with
  | some j =>
      { s with observers := s.observers.modify j fun o => { o with cancelled := true } }
  | none => s

/-- The observer is cancelled, and the session and its observer forgotten. -/
def forgetSession (s : WldroidService) : WldroidService :=
  { s.cancelObserver with sessionObserverJob := none, desktopSession := none }

def createEnvironment (s : WldroidService) : WldroidService :=
  { s with serviceState := .setup .downloading "New Environment" }.acquireWakeLock

def updateSetupNotification (s : WldroidService) (phase : SetupPhase) (envName : String) :
    WldroidService :=
  { s with serviceState := .setup phase envName }.acquireWakeLock

/-- `startSession`: a session that is there is torn down first, without waiting for it. -/
def startSession (s : WldroidService) (envName : String) (gpuMode : GpuMode) : WldroidService :=
  let s := match s.desktopSession with
    | some old => s.forgetSession.launch (.stopOld old)
    | none => s
  let session := s.observers.length
  let s := { s with desktopSession := some session }.acquireWakeLock
  let s := { s with serviceState := .sessionActive envName gpuMode }.cancelObserver
  { s with observers := s.observers ++ [⟨envName, false⟩], sessionObserverJob := some session }

/-- `releaseWakeLock`, `Inactive` and `stopSelfIfIdle`. -/
def becomeInactive (s : WldroidService) : WldroidService :=
  { s.releaseWakeLock with serviceState := .inactive }.launch .stopSelfIfIdle

def stopSession (s : WldroidService) : WldroidService :=
  match s.desktopSession with
  | none => s.becomeInactive
  | some session => s.forgetSession.launch (.stopAndRelease session)

/-- The body of a session observer. -/
def onSessionState (s : WldroidService) (envName : String) (state : DesktopSessionState)
    (gpuMode : GpuMode) (phantomProcessKillerEnabled : Option Bool) : WldroidService :=
  match state with
  | .running => { s with serviceState := .sessionActive envName gpuMode }
  | .error =>
      { s with serviceState := .error (sessionErrorMessage phantomProcessKillerEnabled) none true }
  | .stopped => s.forgetSession.becomeInactive
  | _ => s

/-- The rest of a coroutine. -/
def runTask (s : WldroidService) (stopped : Bool) : ServiceTask → WldroidService
  | .stopOld _ | .ended => s
  -- a `session.stop()` that throws ends the coroutine
  | .stopAndRelease _ => if stopped then s.becomeInactive else s
  | .stopSelfIfIdle =>
      if s.serviceState = .inactive ∧ s.desktopSession = none then { s with stopRequested := true }
      else s

def next (s : WldroidService) : ServiceEvent → Option WldroidService
  | .startSession envName gpuMode => some (s.startSession envName gpuMode)
  | .stopSession => some s.stopSession
  | .createEnvironment => some s.createEnvironment
  | .updateSetupNotification phase envName => some (s.updateSetupNotification phase envName)
  | .sessionState session state gpuMode killer => do
      let o ← s.observers[session]?
      if o.cancelled then none else some (s.onSessionState o.envName state gpuMode killer)
  | .task k stopped => do
      let task ← s.tasks[k]?
      return { s with tasks := s.tasks.set k .ended }.runTask stopped task

/-- The service has been created, and nobody has called it. -/
structure Initial (s : WldroidService) : Prop where
  wakeLock : s.wakeLock = none
  serviceState : s.serviceState = .inactive
  desktopSession : s.desktopSession = none
  sessionObserverJob : s.sessionObserverJob = none
  observers : s.observers = []
  tasks : s.tasks = []

end WldroidService

/-- The service under any order of calls, deliveries and coroutines. -/
def serviceSystem : System WldroidService ServiceEvent :=
  System.ofNext WldroidService.Initial WldroidService.next

/-! ### Resources of a session -/

/-- The wake lock is held. -/
def WldroidService.wakeLockHeld (s : WldroidService) : Bool := s.wakeLock.any WakeLock.isHeld

/-- While there is a session, the wake lock is held and the service is not inactive. -/
def HoldsResources (s : WldroidService) : Prop :=
  s.desktopSession ≠ none → s.wakeLockHeld = true ∧ s.serviceState ≠ .inactive

instance (s : WldroidService) : Decidable (HoldsResources s) :=
  inferInstanceAs (Decidable (_ → _))

/-- The rest of a `stopSession` releases while there is no session. -/
def ReleasesIdle (s : WldroidService) : ServiceEvent → Prop
  | .task k true => ∀ session, s.tasks[k]? = some (.stopAndRelease session) →
      s.desktopSession = none
  | _ => True

/-- A wake lock that the service knows is held: it forgets those it releases. -/
structure ServiceInv (s : WldroidService) : Prop where
  held : ∀ w ∈ s.wakeLock, w.isHeld = true
  holds : HoldsResources s

namespace ServiceInv

variable {s : WldroidService}

theorem of_initial (h : s.Initial) : ServiceInv s where
  held w hw := by
    rw [h.wakeLock] at hw
    cases hw
  holds hsession := absurd h.desktopSession hsession

theorem wakeLockHeld_acquire (held : ∀ w ∈ s.wakeLock, w.isHeld = true) :
    (∀ w ∈ s.acquireWakeLock.wakeLock, w.isHeld = true) ∧
      s.acquireWakeLock.wakeLockHeld = true := by
  unfold WldroidService.acquireWakeLock WldroidService.wakeLockHeld
  cases hlock : s.wakeLock with
  | none => exact ⟨fun w hw => Option.some.inj hw ▸ rfl, rfl⟩
  | some w =>
    have hheld := held w hlock
    rw [if_neg (Option.some_ne_none w), hlock]
    exact ⟨fun w' hw' => Option.some.inj hw' ▸ hheld, hheld⟩

/-- A state with a lock that is held and another service state than `Inactive`. -/
theorem of_acquired (held : ∀ w ∈ s.wakeLock, w.isHeld = true) (hlock : s.wakeLockHeld = true)
    (hstate : s.serviceState ≠ .inactive) : ServiceInv s :=
  ⟨held, fun _ => ⟨hlock, hstate⟩⟩

/-- A state without a session. -/
theorem of_none (held : ∀ w ∈ s.wakeLock, w.isHeld = true) (hnone : s.desktopSession = none) :
    ServiceInv s :=
  ⟨held, fun hsession => absurd hnone hsession⟩

theorem wakeLock_cancelObserver (s : WldroidService) :
    s.cancelObserver.wakeLock = s.wakeLock ∧ s.cancelObserver.serviceState = s.serviceState := by
  unfold WldroidService.cancelObserver
  cases s.sessionObserverJob <;> exact ⟨rfl, rfl⟩

theorem forgetSession (h : ServiceInv s) : ServiceInv s.forgetSession :=
  .of_none (by rw [show s.forgetSession.wakeLock = s.wakeLock from (wakeLock_cancelObserver s).1]
               exact h.held) rfl

theorem becomeInactive (hnone : s.desktopSession = none) : ServiceInv s.becomeInactive :=
  .of_none (fun _ hw => by cases hw) hnone

theorem setup (h : ServiceInv s) (phase : SetupPhase) (envName : String) :
    ServiceInv (s.updateSetupNotification phase envName) := by
  obtain ⟨held, hlock⟩ :=
    wakeLockHeld_acquire (s := { s with serviceState := .setup phase envName }) h.held
  refine .of_acquired held hlock ?_
  show (WldroidService.acquireWakeLock _).serviceState ≠ _
  unfold WldroidService.acquireWakeLock
  split <;> exact nofun

theorem startSession (h : ServiceInv s) (envName : String) (gpuMode : GpuMode) :
    ServiceInv (s.startSession envName gpuMode) := by
  -- whatever was there before, the lock is acquired and the state set
  have hstarts : ∀ t : WldroidService, (∀ w ∈ t.wakeLock, w.isHeld = true) →
      ServiceInv
        (let session := t.observers.length
         let t := { t with desktopSession := some session }.acquireWakeLock
         let t := { t with serviceState := .sessionActive envName gpuMode }.cancelObserver
         { t with observers := t.observers ++ [⟨envName, false⟩],
                  sessionObserverJob := some session }) := by
    intro t held
    obtain ⟨hheld, hlock⟩ :=
      wakeLockHeld_acquire (s := { t with desktopSession := some t.observers.length }) held
    obtain ⟨hsame, hstate⟩ := wakeLock_cancelObserver
      { ({ t with desktopSession := some t.observers.length } : WldroidService).acquireWakeLock with
        serviceState := .sessionActive envName gpuMode }
    refine .of_acquired ?_ ?_ ?_
    · show ∀ w ∈ (WldroidService.cancelObserver _).wakeLock, w.isHeld = true
      rw [hsame]
      exact hheld
    · show ((WldroidService.cancelObserver _).wakeLock).any WakeLock.isHeld = true
      rw [hsame]
      exact hlock
    · show (WldroidService.cancelObserver _).serviceState ≠ _
      rw [hstate]
      exact nofun
  unfold WldroidService.startSession
  cases s.desktopSession with
  | none => exact hstarts s h.held
  | some old => exact hstarts _ h.forgetSession.held

theorem stopSession (h : ServiceInv s) : ServiceInv s.stopSession := by
  unfold WldroidService.stopSession
  cases hsession : s.desktopSession with
  | none => exact becomeInactive hsession
  | some session => exact ⟨h.forgetSession.held, h.forgetSession.holds⟩

theorem onSessionState (h : ServiceInv s) (envName : String) (state : DesktopSessionState)
    (gpuMode : GpuMode) (killer : Option Bool) :
    ServiceInv (s.onSessionState envName state gpuMode killer) := by
  cases state with
  | running => exact ⟨h.held, fun hsession => ⟨(h.holds hsession).1, nofun⟩⟩
  | error => exact ⟨h.held, fun hsession => ⟨(h.holds hsession).1, nofun⟩⟩
  | stopped => exact becomeInactive rfl
  | idle | starting | stopping => exact h

/-- **What a coroutine keeps** that finds no session when it releases. -/
theorem runTask (h : ServiceInv s) {stopped : Bool} {task : ServiceTask}
    (hidle : ∀ session, stopped = true → task = .stopAndRelease session →
      s.desktopSession = none) : ServiceInv (s.runTask stopped task) := by
  cases task with
  | stopOld | ended => exact h
  | stopAndRelease session =>
    cases stopped with
    | true => exact becomeInactive (hidle session rfl rfl)
    | false => exact h
  | stopSelfIfIdle =>
    show ServiceInv (if _ then _ else _)
    split
    · exact ⟨h.held, h.holds⟩
    · exact h

end ServiceInv

/-- **What one step keeps.** -/
theorem ServiceInv.next {s t : WldroidService} {e : ServiceEvent} (h : ServiceInv s)
    (hstep : s.next e = some t) (hguard : ReleasesIdle s e) : ServiceInv t := by
  cases e with
  | startSession envName gpuMode => exact Option.some.inj hstep ▸ h.startSession envName gpuMode
  | stopSession => exact Option.some.inj hstep ▸ h.stopSession
  | createEnvironment => exact Option.some.inj hstep ▸ h.setup .downloading "New Environment"
  | updateSetupNotification phase envName =>
    exact Option.some.inj hstep ▸ h.setup phase envName
  | sessionState session state gpuMode killer =>
    obtain ⟨o, -, hrest⟩ := Option.bind_eq_some_iff.mp hstep
    split at hrest
    · cases hrest
    · cases hrest
      exact h.onSessionState o.envName state gpuMode killer
  | task k stopped =>
    obtain ⟨task, htask, hrest⟩ := Option.bind_eq_some_iff.mp hstep
    cases hrest
    have hthere : ServiceInv { s with tasks := s.tasks.set k .ended } := ⟨h.held, h.holds⟩
    refine hthere.runTask ?_
    rintro session rfl rfl
    exact hguard session htask

/-- A release while there is a session shows at once. -/
theorem not_holdsResources_of_release {s t : WldroidService} {e : ServiceEvent}
    (hstep : s.next e = some t) (hguard : ¬ ReleasesIdle s e) : ¬ HoldsResources t := by
  cases e with
  | task k stopped =>
    cases stopped with
    | false => exact absurd trivial hguard
    | true =>
      obtain ⟨session, hfound⟩ := not_forall.mp hguard
      obtain ⟨htask, hsession⟩ := Classical.not_imp.mp hfound
      obtain ⟨task, hthis, hrest⟩ := Option.bind_eq_some_iff.mp hstep
      rw [htask] at hthis
      cases hthis
      cases hrest
      intro hholds
      exact absurd rfl (hholds hsession).2
  | _ => exact absurd trivial hguard

/-- **Exactly when the service holds its resources.**  In a run from a new service, the wake lock is
held and the service not inactive in every state with a session, if and only if no `stopSession`
that has waited for its session releases the lock while there is a session again. -/
theorem holdsResources_iff_releasesIdle {s : WldroidService}
    {run : List (ServiceEvent × WldroidService)} (hinitial : s.Initial)
    (hrun : serviceSystem.Exec s run) :
    AllStates HoldsResources s run ↔ AllSteps ReleasesIdle s run :=
  System.allStates_iff_allSteps (I := ServiceInv) (fun _ h => h.holds)
    (fun _ _ _ h hstep hguard => h.next hstep hguard)
    (fun _ _ _ _ hstep hguard => not_holdsResources_of_release hstep hguard)
    (ServiceInv.of_initial hinitial) hrun

/-! ### Two sessions -/

/-- A service that has just been created. -/
def freshService : WldroidService where
  wakeLock := none
  serviceState := .inactive
  desktopSession := none
  sessionObserverJob := none
  observers := []
  tasks := []
  stopRequested := false

theorem freshService_initial : freshService.Initial := ⟨rfl, rfl, rfl, rfl, rfl, rfl⟩

/-- The second session starts when the first has stopped. -/
def startAfterStop : List ServiceEvent :=
  [.startSession "one" .software, .stopSession, .task 0 true, .startSession "two" .software]

theorem holdsResources_startAfterStop :
    (traceNext WldroidService.next freshService startAfterStop).length = 4 ∧
      AllStates HoldsResources freshService
        (traceNext WldroidService.next freshService startAfterStop) := by
  refine ⟨rfl, (holdsResources_iff_releasesIdle freshService_initial
    (System.exec_traceNext _ _ _)).mpr ⟨trivial, trivial, ?_, trivial, trivial⟩⟩
  intro session _
  rfl

/-- The second session starts while the first is stopping. -/
def startWhileStopping : List ServiceEvent :=
  [.startSession "one" .software, .stopSession, .startSession "two" .software, .task 0 true]

/-- The stop of the first session takes the wake lock from the second. -/
theorem restart_loses_wakeLock :
    ¬ ∀ (s : WldroidService) (run : List (ServiceEvent × WldroidService)), s.Initial →
      serviceSystem.Exec s run → AllStates HoldsResources s run := by
  intro hall
  have hrun := hall freshService (traceNext WldroidService.next freshService startWhileStopping)
    freshService_initial (System.exec_traceNext _ _ _)
  have hlast := (hrun.last (nofun)).2
  exact hlast rfl

end Wldroid.Launcher
