import Wldroid.Launcher.DesktopLauncher

/-!
# Is a stop of the VirGL session final?

`VirglSession.kt` publishes its state from three places: calls of `start()`, calls of `stop()`, and
the health check, a coroutine in the scope of the session that writes `UNHEALTHY` when a probe finds
the server gone.  Cancelling the scope reaches the coroutine only at its delay and at the condition
of its loop.

* `VirglSession.next` — one step of one call or one health check, every read and write a step of its
  own, or the end of the server process, in any interleaving;
* `StopIsFinal` — after a `stop()` has returned the state is `STOPPED` until the next `start()`;
* `StopsAlone` — when a `stop()` cancels the scope, all health checks in it are before their probes
  and no other call has more to do; and no call is made until it returns;
* **`stopIsFinal_of_stopsAlone`** — every stop of a run is final in which all stops are such;
* `unhealthy_after_stop` — the probe of a cancelled health check finds the stopped server.
-/

namespace Wldroid.Virgl

open Wldroid.Foundation
open Wldroid.Launcher (GpuMode)

/-! ### Calls and health checks -/

inductive VirglState where
  | idle
  | detectingGpu
  | starting
  | running
  | unhealthy
  | stopping
  | stopped
  | error
  deriving DecidableEq, Repr

/-- The configured mode, and whether there is a `GpuCapabilityDetector`. -/
structure VirglConfig where
  gpuMode : GpuMode
  hasDetector : Bool

/-- Where a call of `start()` or `stop()` stands: what it does next. -/
inductive CallPc where
  | checkStarting
  | checkRunning
  /-- The conditions of `resolveGpuMode`. -/
  | resolve
  | setDetecting
  | detect
  | setMode (mode : GpuMode)
  /-- `RUNNING` without a server. -/
  | setServerless
  | cancelLingering
  | clearLingering
  | openScope
  | setStarting (scope : ℕ)
  /-- In `serverManager.start`: before its mutex, before the process, before the socket. -/
  | lockManager (scope : ℕ)
  | launchServer (scope : ℕ)
  | awaitSocket (scope : ℕ)
  | setRunning (scope : ℕ)
  | launchHealthCheck (scope : ℕ)
  | setError (scope : ℕ)
  | cancelFailed (scope : ℕ)
  | clearFailed
  | checkIdle
  | checkStopped
  | setStopping
  | cancelScope
  | clearScope
  /-- In `serverManager.stop`. -/
  | lockForStop
  | stopServer
  | setStopped
  | returned
  /-- An exception, or the cancellation of the caller. -/
  | threw
  deriving DecidableEq, Repr

/-- How what a call does at its place ends. -/
inductive CallOutcome where
  | returns
  | throws
  /-- Whether KGSL is accessible, the process starts, or the socket appears in time. -/
  | found (ok : Bool)
  | detected (mode : GpuMode)
  deriving DecidableEq, Repr

/-- Where a health check stands. -/
inductive HealthPc where
  /-- Not dispatched yet. -/
  | created
  /-- The condition of its loop. -/
  | loop
  | delay
  | probe
  | setUnhealthy
  | ended
  deriving DecidableEq, Repr

structure HealthCheck where
  scope : ℕ
  pc : HealthPc
  deriving DecidableEq, Repr

/-- The state the next step at this place publishes. -/
def CallPc.writes : CallPc → Option VirglState
  | .setDetecting => some .detectingGpu
  | .setServerless | .setRunning _ => some .running
  | .setStarting _ => some .starting
  | .setError _ => some .error
  | .setStopping => some .stopping
  | .setStopped => some .stopped
  | _ => none

/-! ### The session -/

structure VirglSession where
  state : VirglState
  detectedGpuMode : GpuMode
  sessionScope : Option ℕ
  /-- Whether each scope that was opened has been cancelled. -/
  cancelledScopes : List Bool
  healthChecks : List HealthCheck
  calls : List CallPc
  /-- `serverManager.isRunning`, and its mutex. -/
  serverRunning : Bool
  managerLocked : Bool
  /-- A `stop()` has returned, not as a no-op, and no `start()` been called since. -/
  stopReturned : Bool
  deriving DecidableEq, Repr

inductive VirglEvent where
  | start
  | stop
  /-- The `k`-th call takes its next step. -/
  | call (k : ℕ) (outcome : CallOutcome)
  | healthCheck (k : ℕ)
  /-- The server process ends by itself. -/
  | serverExits
  deriving DecidableEq, Repr

namespace VirglSession

def isCancelled (s : VirglSession) (scope : ℕ) : Bool :=
  s.cancelledScopes[scope]?.getD true

def cancel (s : VirglSession) (scope : ℕ) : VirglSession :=
  { s with cancelledScopes := s.cancelledScopes.set scope true }

/-- What `resolveGpuMode` does first. -/
def resolveGpuMode (config : VirglConfig) : CallOutcome → Option CallPc
  | .found accessible =>
      if config.gpuMode = .turnipDirect ∧ config.hasDetector then
        some (if accessible then .setMode config.gpuMode else .setDetecting)
      else none
  | .returns =>
      if config.gpuMode = .auto then some .setDetecting
      else if config.gpuMode = .turnipDirect ∧ config.hasDetector then none
      else some (.setMode config.gpuMode)
  | _ => none

/-- One step of a call, and where it stands afterwards. -/
def stepCall (config : VirglConfig) (s : VirglSession) :
    CallPc → CallOutcome → Option (VirglSession × CallPc)
  | .checkStarting, .returns =>
      some (s, if s.state = .starting then .returned else .checkRunning)
  | .checkRunning, .returns => some (s, if s.state = .running then .returned else .resolve)
  | .resolve, outcome => (resolveGpuMode config outcome).map fun pc => (s, pc)
  | .setDetecting, .returns =>
      some ({ s with state := .detectingGpu },
        if config.hasDetector then .detect else .setMode .virglGles)
  | .detect, .detected mode => some (s, .setMode mode)
  | .setMode mode, .returns =>
      some ({ s with detectedGpuMode := mode },
        if mode.requiresVirglServer then .cancelLingering else .setServerless)
  | .setServerless, .returns => some ({ s with state := .running }, .returned)
  | .cancelLingering, .returns => some (s.sessionScope.elim s s.cancel, .clearLingering)
  | .clearLingering, .returns => some ({ s with sessionScope := none }, .openScope)
  | .openScope, .returns =>
      some ({ s with cancelledScopes := s.cancelledScopes ++ [false],
                     sessionScope := some s.cancelledScopes.length },
        .setStarting s.cancelledScopes.length)
  | .setStarting scope, .returns => some ({ s with state := .starting }, .lockManager scope)
  -- a server that still runs is stopped first
  | .lockManager scope, .returns =>
      if s.managerLocked then none
      else some ({ s with managerLocked := true, serverRunning := false }, .launchServer scope)
  | .lockManager _, .throws => some (s, .threw)
  | .launchServer scope, .found ok =>
      if ok then some ({ s with serverRunning := true }, .awaitSocket scope)
      else some ({ s with managerLocked := false }, .setError scope)
  | .awaitSocket scope, .found ok =>
      if ok then some ({ s with managerLocked := false }, .setRunning scope)
      else some ({ s with managerLocked := false, serverRunning := false }, .setError scope)
  | .awaitSocket _, .throws =>
      some ({ s with managerLocked := false, serverRunning := false }, .threw)
  | .setRunning scope, .returns => some ({ s with state := .running }, .launchHealthCheck scope)
  | .launchHealthCheck scope, .returns =>
      some ({ s with healthChecks := s.healthChecks ++ [⟨scope, .created⟩] }, .returned)
  | .setError scope, .returns => some ({ s with state := .error }, .cancelFailed scope)
  | .cancelFailed scope, .returns => some (s.cancel scope, .clearFailed)
  | .clearFailed, .returns => some ({ s with sessionScope := none }, .returned)
  | .checkIdle, .returns => some (s, if s.state = .idle then .returned else .checkStopped)
  | .checkStopped, .returns => some (s, if s.state = .stopped then .returned else .setStopping)
  | .setStopping, .returns => some ({ s with state := .stopping }, .cancelScope)
  | .cancelScope, .returns => some (s.sessionScope.elim s s.cancel, .clearScope)
  | .clearScope, .returns => some ({ s with sessionScope := none }, .lockForStop)
  | .lockForStop, .returns =>
      if s.managerLocked then none else some ({ s with managerLocked := true }, .stopServer)
  | .lockForStop, .throws => some (s, .threw)
  | .stopServer, .returns =>
      some ({ s with managerLocked := false, serverRunning := false }, .setStopped)
  | .stopServer, .throws => some ({ s with managerLocked := false }, .threw)
  -- the last statement of stop()
  | .setStopped, .returns => some ({ s with state := .stopped, stopReturned := true }, .returned)
  | _, _ => none

/-- One step of a health check in a scope. -/
def stepHealthCheck (s : VirglSession) (scope : ℕ) : HealthPc → Option (VirglSession × HealthPc)
  | .created | .loop => some (s, if s.isCancelled scope then .ended else .delay)
  -- a delay that is cancelled throws, even if its time is up
  | .delay => some (s, if s.isCancelled scope then .ended else .probe)
  | .probe => some (s, if s.serverRunning then .loop else .setUnhealthy)
  | .setUnhealthy => some ({ s with state := .unhealthy }, .loop)
  | .ended => none

def next (config : VirglConfig) (s : VirglSession) : VirglEvent → Option VirglSession
  | .start => some { s with calls := s.calls ++ [.checkStarting], stopReturned := false }
  | .stop => some { s with calls := s.calls ++ [.checkIdle] }
  | .call k outcome => do
      let pc ← s.calls[k]?
      let (s', pc') ← s.stepCall config pc outcome
      return { s' with calls := s.calls.set k pc' }
  | .healthCheck k => do
      let check ← s.healthChecks[k]?
      let (s', pc') ← s.stepHealthCheck check.scope check.pc
      return { s' with healthChecks := s.healthChecks.set k { check with pc := pc' } }
  | .serverExits => some { s with serverRunning := false }

/-- Nobody has called the session yet. -/
structure Initial (config : VirglConfig) (s : VirglSession) : Prop where
  state : s.state = .idle
  detectedGpuMode : s.detectedGpuMode = config.gpuMode
  sessionScope : s.sessionScope = none
  cancelledScopes : s.cancelledScopes = []
  healthChecks : s.healthChecks = []
  calls : s.calls = []
  serverRunning : s.serverRunning = false
  managerLocked : s.managerLocked = false
  stopReturned : s.stopReturned = false

end VirglSession

/-- The session under any interleaving of calls, health checks and the end of the server. -/
def virglSystem (config : VirglConfig) : System VirglSession VirglEvent :=
  System.ofNext (VirglSession.Initial config) (VirglSession.next config)

/-! ### What a stop leaves -/

/-- After a `stop()` that was no no-op has returned, the state is `STOPPED` until the next
`start()`. -/
def StopIsFinal (s : VirglSession) : Prop := s.stopReturned = true → s.state = .stopped

/-- The call is a `stop()` that has cancelled the scope and not returned. -/
def CallPc.hasCancelled : CallPc → Bool
  | .clearScope | .lockForStop | .stopServer | .setStopped => true
  | _ => false

/-- A call at this place publishes nothing but `STOPPED`, whatever becomes of it, and starts no
health check in a scope that stays: it has returned, it is past its last write, it is a `stop()`
past `STOPPING`, or one that is going to find the session stopped. -/
def CallPc.isHarmless (stopReturned : Bool) (gone : ℕ → Bool) : CallPc → Bool
  | .returned | .threw | .cancelFailed _ | .clearFailed | .cancelScope | .clearScope | .lockForStop |
      .stopServer | .setStopped => true
  | .launchHealthCheck scope => gone scope
  | .checkIdle | .checkStopped => stopReturned
  | _ => false

/-- A health check that has ended, or is before its probe in a scope that is over. -/
def HealthCheck.isHarmless (gone : ℕ → Bool) (check : HealthCheck) : Bool :=
  match check.pc with
  | .ended => true
  | .created | .loop | .delay => gone check.scope
  | .probe | .setUnhealthy => false

/-- Nothing in the session is going to publish another state than `STOPPED`, once the scopes are
over. -/
structure VirglSession.Quiet (s : VirglSession) (gone : ℕ → Bool) : Prop where
  calls : ∀ pc ∈ s.calls, pc.isHarmless s.stopReturned gone = true
  healthChecks : ∀ check ∈ s.healthChecks, check.isHarmless gone = true

instance (s : VirglSession) (gone : ℕ → Bool) : Decidable (s.Quiet gone) :=
  decidable_of_iff
    ((∀ pc ∈ s.calls, pc.isHarmless s.stopReturned gone = true) ∧
      ∀ check ∈ s.healthChecks, check.isHarmless gone = true)
    ⟨fun h => ⟨h.1, h.2⟩, fun h => ⟨h.calls, h.healthChecks⟩⟩

/-- A `stop()` is under way and has cancelled the scope. -/
def VirglSession.stopUnderWay (s : VirglSession) : Bool := s.calls.any CallPc.hasCancelled

/-- When a `stop()` cancels the scope, no health check is past its delay, all that are in a scope
that stays are in the one that is cancelled, and no other call is under way; and no call is made
until the `stop()` returns. -/
def StopsAlone (s : VirglSession) : VirglEvent → Prop
  | .call k _ => s.calls[k]? = some .cancelScope →
      s.Quiet fun scope => s.isCancelled scope || s.sessionScope == some scope
  | .start => s.stopUnderWay = false
  | .stop => s.stopReturned = true ∨ s.stopUnderWay = false
  | .healthCheck _ | .serverExits => True

instance (s : VirglSession) (e : VirglEvent) : Decidable (StopsAlone s e) := by
  cases e <;> unfold StopsAlone <;> infer_instance

namespace VirglSession

variable {config : VirglConfig} {s t : VirglSession}

theorem cancel_state (s : VirglSession) (scope : Option ℕ) :
    (scope.elim s s.cancel).state = s.state ∧
      (scope.elim s s.cancel).stopReturned = s.stopReturned := by
  cases scope <;> exact ⟨rfl, rfl⟩

/-- **A step of a call publishes what its place says**, and the last step of `stop()` is the only
one with which a stop returns. -/
theorem stepCall_state {pc pc' : CallPc} {o : CallOutcome}
    (h : s.stepCall config pc o = some (t, pc')) :
    t.state = pc.writes.getD s.state ∧ (t.stopReturned = s.stopReturned ∨ pc = .setStopped) := by
  cases pc with
  | resolve =>
    obtain ⟨pc, -, hresult⟩ := Option.map_eq_some_iff.mp h
    cases hresult
    exact ⟨rfl, .inl rfl⟩
  | cancelLingering | cancelScope =>
    obtain ⟨hstate, hreturned⟩ := s.cancel_state s.sessionScope
    cases o with
    | returns =>
      cases h
      exact ⟨hstate, .inl hreturned⟩
    | _ => cases h
  | setStopped =>
    cases o with
    | returns =>
      cases h
      exact ⟨rfl, .inr rfl⟩
    | _ => cases h
  | lockManager | lockForStop =>
    cases o with
    | returns =>
      obtain ⟨-, h⟩ := Option.ite_none_left_eq_some.mp h
      cases h
      exact ⟨rfl, .inl rfl⟩
    | throws =>
      cases h
      exact ⟨rfl, .inl rfl⟩
    | _ => cases h
  | launchServer | awaitSocket =>
    cases o with
    | found ok =>
      cases ok <;> cases h <;> exact ⟨rfl, .inl rfl⟩
    | throws => cases h <;> exact ⟨rfl, .inl rfl⟩
    | _ => cases h
  | _ =>
    cases o <;> cases h
    all_goals exact ⟨rfl, .inl rfl⟩

theorem stepHealthCheck_state {scope : ℕ} {pc pc' : HealthPc}
    (h : s.stepHealthCheck scope pc = some (t, pc')) :
    t.state = (if pc = .setUnhealthy then some VirglState.unhealthy else none).getD s.state ∧
      t.stopReturned = s.stopReturned := by
  cases pc with
  | ended => cases h
  | _ =>
    cases h
    exact ⟨rfl, rfl⟩

theorem isCancelled_cancel (s : VirglSession) (scope other : ℕ) :
    (s.cancel scope).isCancelled other = true ↔ other = scope ∨ s.isCancelled other = true := by
  unfold isCancelled cancel
  rw [List.getElem?_set]
  by_cases hsame : scope = other
  · rw [if_pos hsame, hsame]
    split
    · simp
    · rename_i hout
      simp [List.getElem?_eq_none (Nat.le_of_not_lt hout)]
  · rw [if_neg hsame]
    exact ⟨.inr, fun h => h.resolve_left (Ne.symm hsame)⟩

theorem isHarmless_mono {returned returned' : Bool} {gone gone' : ℕ → Bool}
    (hreturned : returned = true → returned' = true)
    (hgone : ∀ scope, gone scope = true → gone' scope = true) {pc : CallPc}
    (h : pc.isHarmless returned gone = true) : pc.isHarmless returned' gone' = true := by
  cases pc with
  | launchHealthCheck scope => exact hgone scope h
  | checkIdle | checkStopped => exact hreturned h
  | _ =>
    first
      | rfl
      | cases h

theorem healthCheck_isHarmless_mono {gone gone' : ℕ → Bool}
    (hgone : ∀ scope, gone scope = true → gone' scope = true) {check : HealthCheck}
    (h : check.isHarmless gone = true) : check.isHarmless gone' = true := by
  unfold HealthCheck.isHarmless at h ⊢
  split at h
  · rfl
  · exact hgone _ h
  · exact hgone _ h
  · exact hgone _ h
  · cases h
  · cases h

/-- What a step of a harmless call does: it stays harmless, no scope is taken up again, and no
health check is launched that will probe. -/
structure HarmlessStep (s t : VirglSession) (pc' : CallPc) : Prop where
  call : pc'.isHarmless t.stopReturned t.isCancelled = true
  returned : s.stopReturned = true → t.stopReturned = true
  cancelled : ∀ scope, s.isCancelled scope = true → t.isCancelled scope = true
  healthChecks : ∀ check ∈ t.healthChecks,
    check ∈ s.healthChecks ∨ check.isHarmless t.isCancelled = true

/-- A step that does nothing but move the call on, as far as other calls can see. -/
theorem HarmlessStep.of_eq {pc' : CallPc} (hcall : pc'.isHarmless t.stopReturned t.isCancelled = true)
    (hreturned : t.stopReturned = s.stopReturned) (hcancelled : t.isCancelled = s.isCancelled)
    (hchecks : t.healthChecks = s.healthChecks) : HarmlessStep s t pc' where
  call := hcall
  returned h := hreturned.trans h
  cancelled scope h := (congrFun hcancelled scope).trans h
  healthChecks _ h := .inl (hchecks ▸ h)

/-- By the place of the call; the checks of a `stop()` find the session stopped. -/
theorem harmlessStep_of_stepCall (hfinal : StopIsFinal s) {pc pc' : CallPc} {o : CallOutcome}
    (hpc : pc.isHarmless s.stopReturned s.isCancelled = true)
    (h : s.stepCall config pc o = some (t, pc')) : HarmlessStep s t pc' := by
  have hcancel : ∀ scope : Option ℕ, ∀ other, s.isCancelled other = true →
      (scope.elim s s.cancel).isCancelled other = true := by
    intro scope other hother
    cases scope with
    | none => exact hother
    | some scope => exact (s.isCancelled_cancel scope other).mpr (.inr hother)
  cases pc with
  | cancelScope =>
    cases o with
    | returns =>
      cases h
      refine ⟨rfl, fun hreturned => ?_, hcancel _, fun check hcheck => .inl ?_⟩
      · rw [(s.cancel_state _).2]
        exact hreturned
      · cases hscope : s.sessionScope <;> rw [hscope] at hcheck <;> exact hcheck
    | _ => cases h
  | cancelFailed scope =>
    cases o with
    | returns =>
      cases h
      exact ⟨rfl, id, hcancel (some scope), fun check hcheck => .inl hcheck⟩
    | _ => cases h
  | launchHealthCheck scope =>
    cases o with
    | returns =>
      cases h
      refine ⟨rfl, id, fun _ => id, fun check hcheck => ?_⟩
      rcases List.mem_append.mp hcheck with hold | hnew
      · exact .inl hold
      · right
        rw [List.mem_singleton.mp hnew]
        exact hpc
    | _ => cases h
  | checkIdle =>
    cases o with
    | returns =>
      cases h
      refine .of_eq ?_ rfl rfl rfl
      rw [hfinal hpc]
      exact hpc
    | _ => cases h
  | checkStopped =>
    cases o with
    | returns =>
      cases h
      refine .of_eq ?_ rfl rfl rfl
      rw [hfinal hpc]
      rfl
    | _ => cases h
  | lockForStop =>
    cases o with
    | returns =>
      obtain ⟨-, h⟩ := Option.ite_none_left_eq_some.mp h
      cases h
      exact .of_eq rfl rfl rfl rfl
    | throws =>
      cases h
      exact .of_eq rfl rfl rfl rfl
    | _ => cases h
  | stopServer =>
    cases o with
    | returns | throws =>
      cases h
      exact .of_eq rfl rfl rfl rfl
    | _ => cases h
  | clearFailed | clearScope =>
    cases o with
    | returns =>
      cases h
      exact .of_eq rfl rfl rfl rfl
    | _ => cases h
  | setStopped =>
    cases o with
    | returns =>
      cases h
      exact ⟨rfl, fun _ => rfl, fun _ => id, fun check hcheck => .inl hcheck⟩
    | _ => cases h
  | returned | threw => cases o <;> cases h
  | _ => cases hpc

/-- Only the cancellation of the scope brings a call among those that have cancelled it. -/
theorem hasCancelled_of_stepCall {pc pc' : CallPc} {o : CallOutcome}
    (h : s.stepCall config pc o = some (t, pc')) (hpc : pc'.hasCancelled = true) :
    pc.hasCancelled = true ∨ pc = .cancelScope := by
  cases pc with
  | cancelScope => exact .inr rfl
  | clearScope | lockForStop | stopServer | setStopped => exact .inl rfl
  | resolve =>
    obtain ⟨next, hnext, hresult⟩ := Option.map_eq_some_iff.mp h
    cases hresult
    unfold resolveGpuMode at hnext
    split at hnext
    · split at hnext
      · split at hnext <;> cases hnext <;> cases hpc
      · cases hnext
    · split at hnext
      · cases hnext
        cases hpc
      · split at hnext
        · cases hnext
        · cases hnext
          cases hpc
    · cases hnext
  | checkStarting | checkRunning | setDetecting | setMode | checkIdle | checkStopped =>
    cases o with
    | returns =>
      cases h
      split at hpc <;> cases hpc
    | _ => cases h
  | lockManager =>
    cases o with
    | returns =>
      obtain ⟨-, h⟩ := Option.ite_none_left_eq_some.mp h
      cases h
      cases hpc
    | throws =>
      cases h
      cases hpc
    | _ => cases h
  | launchServer | awaitSocket =>
    cases o with
    | found ok => cases ok <;> cases h <;> cases hpc
    | throws => cases h <;> cases hpc
    | _ => cases h
  | _ => cases o <;> cases h <;> cases hpc

end VirglSession

/-! ### The invariant -/

/-- Once a `stop()` has cancelled the scope or returned, nothing is going to publish another state,
as long as no `start()` is called. -/
structure QuietInv (s : VirglSession) : Prop where
  quiet : s.stopReturned = true ∨ s.stopUnderWay = true → s.Quiet s.isCancelled
  final : StopIsFinal s

section QuietInv

variable {config : VirglConfig} {s t : VirglSession}

/-- A harmless call publishes nothing but `STOPPED`. -/
theorem CallPc.writes_of_isHarmless {returned : Bool} {gone : ℕ → Bool} {pc : CallPc}
    (h : pc.isHarmless returned gone = true) : pc.writes = none ∨ pc.writes = some .stopped := by
  cases pc with
  | setStopped => exact .inr rfl
  | _ =>
    first
      | exact .inl rfl
      | cases h

/-- A step of a call of a quiet session. -/
theorem QuietInv.harmless (h : QuietInv s) (hquiet : s.Quiet s.isCancelled) {k : ℕ}
    {o : CallOutcome} {pc pc' : CallPc} (hpc : s.calls[k]? = some pc)
    (hstep : s.stepCall config pc o = some (t, pc')) :
    QuietInv { t with calls := s.calls.set k pc' } := by
  have hharmless := hquiet.calls pc (List.mem_of_getElem? hpc)
  obtain ⟨hcall, hreturned, hcancelled, hchecks⟩ :=
    VirglSession.harmlessStep_of_stepCall h.final hharmless hstep
  obtain ⟨hstate, hsame⟩ := VirglSession.stepCall_state hstep
  refine ⟨fun _ => ⟨fun other hother => ?_, fun check hcheck => ?_⟩, fun hnow => ?_⟩
  · rcases List.mem_or_eq_of_mem_set hother with hold | rfl
    · exact VirglSession.isHarmless_mono hreturned hcancelled (hquiet.calls other hold)
    · exact hcall
  · rcases hchecks check hcheck with hold | hnew
    · exact VirglSession.healthCheck_isHarmless_mono hcancelled (hquiet.healthChecks check hold)
    · exact hnew
  · show t.state = .stopped
    rw [hstate]
    rcases hsame with hsame | rfl
    · rcases CallPc.writes_of_isHarmless hharmless with hnone | hstopped
      · rw [hnone]
        exact h.final (hsame.symm.trans hnow)
      · rw [hstopped]
        rfl
    · rfl

/-- A `stop()` cancels the scope, and the session is quiet. -/
theorem QuietInv.cancelScope
    (hquiet : s.Quiet fun scope => s.isCancelled scope || s.sessionScope == some scope)
    (hnot : s.stopReturned = false) (k : ℕ) :
    QuietInv { s.sessionScope.elim s s.cancel with calls := s.calls.set k .clearScope } := by
  have hcancelled : ∀ scope, (s.isCancelled scope || s.sessionScope == some scope) = true →
      (s.sessionScope.elim s s.cancel).isCancelled scope = true := by
    intro scope hscope
    cases hsession : s.sessionScope with
    | none =>
      rw [hsession] at hscope
      simpa using hscope
    | some current =>
      rw [hsession] at hscope
      refine (s.isCancelled_cancel current scope).mpr ?_
      rcases (Bool.or_eq_true _ _).mp hscope with hold | hnow
      · exact .inr hold
      · exact .inl (Option.some.inj (eq_of_beq hnow)).symm
  have hreturned : (s.sessionScope.elim s s.cancel).stopReturned = false := by
    rw [(s.cancel_state _).2, hnot]
  have hchecks : (s.sessionScope.elim s s.cancel).healthChecks = s.healthChecks := by
    cases s.sessionScope <;> rfl
  refine ⟨fun _ => ⟨fun pc hpc => ?_, fun check hcheck => ?_⟩, fun hnow => ?_⟩
  · rcases List.mem_or_eq_of_mem_set hpc with hold | rfl
    · refine VirglSession.isHarmless_mono (fun h => ?_) hcancelled (hquiet.calls pc hold)
      rw [hnot] at h
      cases h
    · rfl
  · refine VirglSession.healthCheck_isHarmless_mono hcancelled (hquiet.healthChecks check ?_)
    exact hchecks ▸ hcheck
  · rw [show (s.sessionScope.elim s s.cancel).stopReturned = true from hnow] at hreturned
    cases hreturned

theorem QuietInv.call (h : QuietInv s) {k : ℕ} {o : CallOutcome} {pc pc' : CallPc}
    (hpc : s.calls[k]? = some pc) (hstep : s.stepCall config pc o = some (t, pc'))
    (hguard : StopsAlone s (.call k o)) : QuietInv { t with calls := s.calls.set k pc' } := by
  by_cases hbusy : s.stopReturned = true ∨ s.stopUnderWay = true
  · exact h.harmless (h.quiet hbusy) hpc hstep
  · obtain ⟨hnot, hidle⟩ := not_or.mp hbusy
    have hother : ∀ other ∈ s.calls, ¬ other.hasCancelled = true :=
      List.any_eq_false.mp (Bool.not_eq_true _ ▸ hidle)
    have hmem := List.mem_of_getElem? hpc
    obtain ⟨-, hsame⟩ := VirglSession.stepCall_state hstep
    by_cases hcancels : pc = .cancelScope
    · subst hcancels
      cases o with
      | returns =>
        cases hstep
        exact QuietInv.cancelScope (hguard hpc) (Bool.not_eq_true _ ▸ hnot) k
      | _ => cases hstep
    · have hstill : ¬ t.stopReturned = true := by
        rcases hsame with hsame | rfl
        · rwa [hsame]
        · exact absurd rfl (hother _ hmem)
      refine ⟨fun hnow => ?_, fun hnow => absurd hnow hstill⟩
      refine absurd (hnow.resolve_left hstill) ?_
      show ¬ (s.calls.set k pc').any CallPc.hasCancelled = true
      rw [List.any_eq_true]
      rintro ⟨other, hset, hcancelled⟩
      rcases List.mem_or_eq_of_mem_set hset with hold | rfl
      · exact hother other hold hcancelled
      · rcases VirglSession.hasCancelled_of_stepCall hstep hcancelled with hbefore | hat
        · exact hother pc hmem hbefore
        · exact hcancels hat

theorem QuietInv.healthCheck (h : QuietInv s) {k : ℕ} {check : HealthCheck} {pc' : HealthPc}
    (hcheck : s.healthChecks[k]? = some check)
    (hstep : s.stepHealthCheck check.scope check.pc = some (t, pc')) :
    QuietInv { t with healthChecks := s.healthChecks.set k { check with pc := pc' } } := by
  obtain ⟨hstate, hreturned⟩ := VirglSession.stepHealthCheck_state hstep
  have hsame : t.calls = s.calls ∧ t.isCancelled = s.isCancelled := by
    cases hpc : check.pc <;> rw [hpc] at hstep <;> cases hstep <;> exact ⟨rfl, rfl⟩
  obtain ⟨hcalls, hcancelled⟩ := hsame
  have hquiet : s.stopReturned = true ∨ s.stopUnderWay = true →
      check.isHarmless s.isCancelled = true :=
    fun hbusy => (h.quiet hbusy).healthChecks check (List.mem_of_getElem? hcheck)
  refine ⟨fun hnow => ?_, fun hnow => ?_⟩
  · have hbusy : s.stopReturned = true ∨ s.stopUnderWay = true := by
      refine hnow.imp (fun hnow => hreturned.symm.trans hnow) fun hnow => ?_
      show s.calls.any _ = true
      rw [← hcalls]
      exact hnow
    have hharmless := hquiet hbusy
    refine ⟨fun pc hpc => ?_, fun other hother => ?_⟩
    · show pc.isHarmless t.stopReturned t.isCancelled = true
      rw [hreturned, hcancelled]
      exact (h.quiet hbusy).calls pc (hcalls ▸ hpc)
    · show other.isHarmless t.isCancelled = true
      rw [hcancelled]
      rcases List.mem_or_eq_of_mem_set hother with hold | rfl
      · exact (h.quiet hbusy).healthChecks other hold
      · -- the scope is over, so that the check ends
        unfold HealthCheck.isHarmless at hharmless
        cases hpc : check.pc <;> rw [hpc] at hharmless hstep
        case created | loop | delay =>
          have hgone : s.isCancelled check.scope = true := hharmless
          cases hstep
          rw [if_pos hgone]
          rfl
        case probe | setUnhealthy => cases hharmless
        case ended => cases hstep
  · have hbefore : s.stopReturned = true := hreturned.symm.trans hnow
    have hharmless := hquiet (.inl hbefore)
    show t.state = .stopped
    rw [hstate, if_neg, Option.getD_none]
    · exact h.final hbefore
    · intro hpc
      unfold HealthCheck.isHarmless at hharmless
      rw [hpc] at hharmless
      cases hharmless

theorem QuietInv.next (h : QuietInv s) {e : VirglEvent} (hstep : s.next config e = some t)
    (hguard : StopsAlone s e) : QuietInv t := by
  cases e with
  | start =>
    cases hstep
    refine ⟨fun hnow => ?_, nofun⟩
    have hidle : (s.calls ++ [CallPc.checkStarting]).any CallPc.hasCancelled = false := by
      rw [List.any_append, show s.calls.any CallPc.hasCancelled = false from hguard]
      rfl
    rcases hnow with hnow | hnow
    · cases hnow
    · cases hidle.symm.trans hnow
  | stop =>
    cases hstep
    refine ⟨fun hnow => ?_, h.final⟩
    have hunder : (s.calls ++ [CallPc.checkIdle]).any CallPc.hasCancelled = s.stopUnderWay := by
      rw [List.any_append]
      exact Bool.or_false _
    have hreturned : s.stopReturned = true := by
      rcases hguard with hreturned | hidle
      · exact hreturned
      · refine hnow.resolve_right fun hunderWay => ?_
        cases (hunder.trans hidle).symm.trans hunderWay
    obtain ⟨hcalls, hchecks⟩ := h.quiet (.inl hreturned)
    refine ⟨fun pc hpc => ?_, hchecks⟩
    rcases List.mem_append.mp hpc with hold | hnew
    · exact hcalls pc hold
    · rw [List.mem_singleton.mp hnew]
      exact hreturned
  | call k o =>
    obtain ⟨pc, hpc, hrest⟩ := Option.bind_eq_some_iff.mp hstep
    obtain ⟨⟨u, pc'⟩, hcall, hresult⟩ := Option.bind_eq_some_iff.mp hrest
    cases hresult
    exact h.call hpc hcall hguard
  | healthCheck k =>
    obtain ⟨check, hcheck, hrest⟩ := Option.bind_eq_some_iff.mp hstep
    obtain ⟨⟨u, pc'⟩, hhealth, hresult⟩ := Option.bind_eq_some_iff.mp hrest
    cases hresult
    exact h.healthCheck hcheck hhealth
  | serverExits =>
    cases hstep
    exact ⟨fun hnow => ⟨(h.quiet hnow).calls, (h.quiet hnow).healthChecks⟩, h.final⟩

end QuietInv

/-- **When a stop is final.**  In a run from a new session in which every `stop()` that cancels the
scope does so while all health checks are in that scope or over, and before their probes, and while
no other call is under way, and no call is made until it returns, the state is `STOPPED` from the
return of a `stop()` to the next `start()`. -/
theorem stopIsFinal_of_stopsAlone {config : VirglConfig} {s : VirglSession}
    {run : List (VirglEvent × VirglSession)} (hinitial : s.Initial config)
    (hrun : (virglSystem config).Exec s run) (hguard : AllSteps StopsAlone s run) :
    AllStates StopIsFinal s run := by
  refine System.allStates_of_allSteps (S := virglSystem config) (I := QuietInv) (fun _ h => h.final)
    (fun _ _ _ h hstep halone => h.next hstep halone) ⟨fun hbusy => ?_, fun hreturned => ?_⟩ hrun
    hguard
  · rw [VirglSession.stopUnderWay, hinitial.calls, hinitial.stopReturned] at hbusy
    rcases hbusy with hbusy | hbusy
    · cases hbusy
    · cases hbusy
  · rw [hinitial.stopReturned] at hreturned
    cases hreturned

/-! ### A health check that outlives its session -/

/-- A session that nobody has called yet. -/
def freshSession (config : VirglConfig) : VirglSession where
  state := .idle
  detectedGpuMode := config.gpuMode
  sessionScope := none
  cancelledScopes := []
  healthChecks := []
  calls := []
  serverRunning := false
  managerLocked := false
  stopReturned := false

theorem freshSession_initial (config : VirglConfig) : (freshSession config).Initial config :=
  ⟨rfl, rfl, rfl, rfl, rfl, rfl, rfl, rfl, rfl⟩

/-- VirGL on GLES. -/
def glesConfig : VirglConfig := ⟨.virglGles, false⟩

/-- A start from the first check to the launch of the health check. -/
def startedWithServer : List VirglEvent :=
  [.start, .call 0 .returns, .call 0 .returns, .call 0 .returns, .call 0 .returns, .call 0 .returns,
    .call 0 .returns, .call 0 .returns, .call 0 .returns, .call 0 .returns, .call 0 (.found true),
    .call 0 (.found true), .call 0 .returns, .call 0 .returns, .healthCheck 0]

/-- A stop while the health check is in its delay, which then ends. -/
def stopDuringDelay : List VirglEvent :=
  startedWithServer ++ ([.stop, .call 1 .returns, .call 1 .returns, .call 1 .returns,
    .call 1 .returns, .call 1 .returns, .call 1 .returns, .call 1 .returns, .call 1 .returns,
    .healthCheck 0] : List VirglEvent)

theorem stopIsFinal_stopDuringDelay :
    (traceNext (VirglSession.next glesConfig) (freshSession glesConfig) stopDuringDelay).length =
        25 ∧
      AllStates StopIsFinal (freshSession glesConfig)
        (traceNext (VirglSession.next glesConfig) (freshSession glesConfig) stopDuringDelay) :=
  ⟨rfl, stopIsFinal_of_stopsAlone (freshSession_initial _) (System.exec_traceNext _ _ _)
    (by decide)⟩

/-- A stop while the health check is about to probe the server. -/
def stopBeforeProbe : List VirglEvent :=
  startedWithServer ++ ([.healthCheck 0, .stop, .call 1 .returns, .call 1 .returns,
    .call 1 .returns, .call 1 .returns, .call 1 .returns, .call 1 .returns, .call 1 .returns,
    .healthCheck 0, .call 1 .returns, .healthCheck 0] : List VirglEvent)

/-- The probe finds the server that has just been stopped, and `UNHEALTHY` replaces `STOPPED`. -/
theorem unhealthy_after_stop :
    ¬ ∀ (config : VirglConfig) (s : VirglSession) (run : List (VirglEvent × VirglSession)),
      s.Initial config → (virglSystem config).Exec s run → AllStates StopIsFinal s run := by
  intro hall
  have hrun := hall glesConfig (freshSession glesConfig)
    (traceNext (VirglSession.next glesConfig) (freshSession glesConfig) stopBeforeProbe)
    (freshSession_initial _) (System.exec_traceNext _ _ _)
  have hfinal : VirglState.unhealthy = .stopped := hrun.last rfl
  cases hfinal

end Wldroid.Virgl
