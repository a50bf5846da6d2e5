import Wldroid.Foundation.Transition

/-!
# The process of the VirGL server

`VirglServerManager.kt` starts and stops `virgl_test_server` under a mutex.  Every call can be
cancelled, and takes notice of that only where it suspends: while it waits for the mutex, on the way
to and from the thread on which it waits for the process to exit, and between two looks at the
socket.  A process that does not exit in time is destroyed forcibly, and nobody waits for it again.

* `ManagerState.next` — one step of the call that holds the mutex, what the other calls do, and what
  the processes do by themselves, in any interleaving;
* `ManagerInv` — what holds of the processes, depending on where the call inside stands;
* **`managerGuarantee_of_reachable`** — there is never more than one server that is alive and has
  not been destroyed forcibly; between calls one that nobody has told to exit is one that a
  `start()` has reported; and once a `stop()`, or a `start()` without success, has returned, there
  is no server and no socket until the next launch, but for servers destroyed forcibly and what they
  may still make.
-/

namespace Wldroid.Virgl

open Wldroid.Foundation

/-! ### Calls and processes -/

/-- What follows `stopInternal()`: the rest of `start()`, its result when the socket has not
appeared or when something was thrown, or the result of `stop()`. -/
inductive After where
  | launch
  | notReady
  | caught
  | stop
  deriving DecidableEq

/-- Where the call that holds the mutex stands. -/
inductive ManagerPc where
  /-- `proc.destroy()`. -/
  | destroy (after : After)
  /-- The way into `withContext`. -/
  | toIo (after : After)
  /-- `proc.waitFor`, perhaps `proc.destroyForcibly()`, and the way out of `withContext`. -/
  | waitFor (after : After)
  /-- Forget the process and delete the socket. -/
  | clear (after : After)
  | checkBinary
  | launch
  | waitForSocket
  deriving DecidableEq

/-- How a call has ended: a `start()` with true or false, a `stop()`, or a cancellation. -/
inductive CallResult where
  | ready
  | notStarted
  | stopped
  | cancelled
  deriving DecidableEq

inductive ManagerCall where
  | idle
  | locking (start : Bool)
  | inside
  | returned (result : CallResult)
  deriving DecidableEq

/-- A process, with ghosts for what has been done to it. -/
structure ServerProcess where
  /-- `destroy()` has been called. -/
  terminated : Bool
  /-- `destroyForcibly()` has been called, after which the process may still be alive for a
  while. -/
  killed : Bool
  /-- It has exited. -/
  gone : Bool
  /-- A `start()` has returned true for it. -/
  ready : Bool
  deriving DecidableEq

/-- The process that the manager knows, all that there have been, and the socket. -/
structure Servers where
  serverProcess : Option ℕ
  processes : ℕ → Option ServerProcess
  nextProcess : ℕ
  socketExists : Bool
  /-- Ghost: the server that has made the last socket. -/
  socketMaker : Option ℕ
  /-- Ghost: `stopInternal()` has run to its end since the last launch. -/
  stopped : Bool

structure ManagerState where
  calls : ℕ → ManagerCall
  cancelled : ℕ → Bool
  /-- The call that holds the mutex. -/
  inside : Option (ℕ × ManagerPc)
  servers : Servers

/-- A server process that has not exited. -/
def Servers.alive (s : Servers) (p : ℕ) : Bool := (s.processes p).any fun process => !process.gone

def Servers.setProcess (s : Servers) (p : ℕ) (process : ServerProcess) : Servers :=
  { s with processes := Function.update s.processes p (some process) }

/-- The stale socket is deleted and a process is started. -/
def Servers.launch (s : Servers) : Servers where
  serverProcess := some s.nextProcess
  processes := Function.update s.processes s.nextProcess (some ⟨false, false, false, false⟩)
  nextProcess := s.nextProcess + 1
  socketExists := false
  socketMaker := s.socketMaker
  stopped := false

/-- The end of `stopInternal()`: the process is forgotten and the socket deleted. -/
def Servers.clear (s : Servers) : Servers :=
  { s with serverProcess := none, socketExists := false, stopped := true }

namespace ManagerState

def goto (s : ManagerState) (i : ℕ) (pc : ManagerPc) : ManagerState :=
  { s with inside := some (i, pc) }

/-- Give the mutex back and return. -/
def finish (s : ManagerState) (i : ℕ) (result : CallResult) : ManagerState :=
  { s with inside := none, calls := Function.update s.calls i (.returned result) }

/-- A `CancellationException` leaves `stopInternal()`; `start()` catches the one from the branch for
a socket that has not appeared. -/
def throwFrom (s : ManagerState) (i : ℕ) : After → ManagerState
  | .notReady => s.goto i (.destroy .caught)
  | _ => s.finish i .cancelled

/-- `stopInternal()` has run to its end. -/
def continueWith (s : ManagerState) (i : ℕ) : After → ManagerState
  | .launch => s.goto i .checkBinary
  | .stop => s.finish i .stopped
  | _ => s.finish i .notStarted

def setServers (s : ManagerState) (servers : Servers) : ManagerState :=
  { s with servers := servers }

end ManagerState

/-! ### Steps -/

/-- The steps of the call inside, with what the surroundings answer. -/
inductive InsideStep where
  | destroy
  | toIo
  | waited (exited : Bool)
  | clear
  | checkBinary (found : Bool)
  | launch (started : Bool)
  | socketFound
  | socketTimeout
  | interrupted

inductive ManagerStep where
  | call (i : ℕ) (start : Bool)
  | cancel (i : ℕ)
  /-- The mutex is given to a call. -/
  | lock (i : ℕ)
  /-- A call is cancelled while it waits for the mutex. -/
  | abort (i : ℕ)
  | inside (step : InsideStep)
  | exits (p : ℕ)
  | makesSocket (p : ℕ)

/-- What is done when `waitFor` has told whether the process exited in time. -/
def ServerProcess.waitedFor (process : ServerProcess) (exited : Bool) : ServerProcess :=
  if exited then process else { process with killed := true }

/-- A step of `start()` or `stop()` inside the mutex. -/
def ManagerState.insideNext (s : ManagerState) (i : ℕ) : ManagerPc → InsideStep → Option ManagerState
  | .destroy after, .destroy =>
      match s.servers.serverProcess with
      | some p => (s.servers.processes p).map fun process =>
          (s.setServers (s.servers.setProcess p { process with terminated := true })).goto i
            (.toIo after)
      | none => some (s.goto i (.clear after))
  | .toIo after, .toIo =>
      some (if s.cancelled i then s.throwFrom i after else s.goto i (.waitFor after))
  | .waitFor after, .waited exited => do
      let p ← s.servers.serverProcess
      let process ← s.servers.processes p
      if exited && !process.gone then none
      else
        -- a process that has not exited in time is destroyed forcibly
        let s := s.setServers (s.servers.setProcess p (process.waitedFor exited))
        some (if s.cancelled i then s.throwFrom i after else s.goto i (.clear after))
  | .clear after, .clear => some ((s.setServers s.servers.clear).continueWith i after)
  | .checkBinary, .checkBinary found =>
      some (if found then s.goto i .launch else s.finish i .notStarted)
  | .launch, .launch started =>
      if started then some ((s.setServers s.servers.launch).goto i .waitForSocket)
      else
        some ((s.setServers { s.servers with socketExists := false }).goto i (.destroy .caught))
  | .waitForSocket, .socketFound => do
      let p ← s.servers.serverProcess
      let process ← s.servers.processes p
      if s.servers.socketExists then
        some ((s.setServers (s.servers.setProcess p { process with ready := true })).finish i .ready)
      else none
  | .waitForSocket, .socketTimeout => some (s.goto i (.destroy .notReady))
  | .waitForSocket, .interrupted => if s.cancelled i then some (s.goto i (.destroy .caught)) else none
  | _, _ => none

def ManagerState.next (s : ManagerState) : ManagerStep → Option ManagerState
  | .call i start =>
      match s.calls i with
      | .idle | .returned _ =>
          some { s with
            calls := Function.update s.calls i (.locking start)
            cancelled := Function.update s.cancelled i false }
      | _ => none
  | .cancel i => some { s with cancelled := Function.update s.cancelled i true }
  | .lock i =>
      match s.calls i, s.inside with
      | .locking start, none =>
          some (({ s with calls := Function.update s.calls i .inside }).goto i
            (.destroy (if start then .launch else .stop)))
      | _, _ => none
  | .abort i =>
      match s.calls i with
      | .locking _ =>
          if s.cancelled i then
            some { s with calls := Function.update s.calls i (.returned .cancelled) }
          else none
      | _ => none
  | .inside step => s.inside.bind fun call => s.insideNext call.1 call.2 step
  | .exits p => (s.servers.processes p).map fun process =>
      s.setServers (s.servers.setProcess p { process with gone := true })
  | .makesSocket p =>
      if s.servers.alive p then
        some (s.setServers { s.servers with socketExists := true, socketMaker := some p })
      else none

/-- Nothing has been called; a socket may be left from before. -/
def ManagerState.initial (socketExists : Bool) : ManagerState where
  calls _ := .idle
  cancelled _ := false
  inside := none
  servers := ⟨none, fun _ => none, 0, socketExists, none, false⟩

/-- It has exited, or been destroyed forcibly. -/
def ServerProcess.Finished (process : ServerProcess) : Prop :=
  process.gone = true ∨ process.killed = true

/-- Only what has been told to exit is destroyed forcibly. -/
def ServerProcess.Ordered (process : ServerProcess) : Prop :=
  process.killed = true → process.terminated = true

/-- If there is a socket, a server that has been destroyed forcibly has made it. -/
def Servers.OnlyLateSocket (s : Servers) : Prop :=
  s.socketExists = true →
    ∃ p process, s.socketMaker = some p ∧ s.processes p = some process ∧ process.killed = true

/-- All processes but the one that is known have exited or been destroyed forcibly. -/
structure ServersInv (s : Servers) : Prop where
  others : ∀ p process, s.processes p = some process → s.serverProcess ≠ some p → process.Finished
  ordered : ∀ p process, s.processes p = some process → process.Ordered
  current : ∀ p, s.serverProcess = some p → ∃ process, s.processes p = some process
  fresh : ∀ p, s.nextProcess ≤ p → s.processes p = none
  stopped : s.stopped = true → s.serverProcess = none ∧ s.OnlyLateSocket

/-- The process that is known has a property. -/
def Servers.Known (s : Servers) (P : ServerProcess → Prop) : Prop :=
  ∀ p process, s.serverProcess = some p → s.processes p = some process → P process

/-- It has been told to exit or has been reported. -/
def ServerProcess.Settled (process : ServerProcess) : Prop :=
  process.terminated = true ∨ process.ready = true

/-- What the place of the call inside tells of the process that is known. -/
def PcInv (s : Servers) : Option ManagerPc → Prop
  | none | some (.destroy .launch) | some (.destroy .stop) => s.Known ServerProcess.Settled
  | some (.destroy .notReady) | some (.destroy .caught) | some .waitForSocket => True
  | some (.toIo _) | some (.waitFor _) => s.Known fun process => process.terminated = true
  | some (.clear _) => s.Known ServerProcess.Finished
  | some .checkBinary | some .launch => s.stopped = true

/-- What holds in every state. -/
structure ManagerInv (s : ManagerState) : Prop where
  servers : ServersInv s.servers
  pc : PcInv s.servers (s.inside.map Prod.snd)

/-- What a step does to a process: what has happened to it stays so. -/
structure ProcessMoves (process new : ServerProcess) : Prop where
  finished : process.Finished → new.Finished
  killed : process.killed = true → new.killed = true
  ordered : process.Ordered → new.Ordered

section Servers

variable {s : Servers} {p : ℕ} {process new : ServerProcess} {P : ServerProcess → Prop}

theorem Servers.setProcess_cases {p' : ℕ} {process' : ServerProcess}
    (h : (s.setProcess p new).processes p' = some process') :
    (p' = p ∧ process' = new) ∨ (p' ≠ p ∧ s.processes p' = some process') := by
  by_cases heq : p' = p
  · subst heq
    exact .inl ⟨rfl, (Option.some.inj ((Function.update_self p' _ s.processes).symm.trans h)).symm⟩
  · exact .inr ⟨heq, (Function.update_of_ne heq _ s.processes).symm.trans h⟩

theorem ServersInv.setProcess (h : ServersInv s) (hp : s.processes p = some process)
    (hmoves : ProcessMoves process new) : ServersInv (s.setProcess p new) where
  others p' process' hp' hother := by
    rcases Servers.setProcess_cases hp' with ⟨rfl, rfl⟩ | ⟨-, hold⟩
    · exact hmoves.finished (h.others p' process hp hother)
    · exact h.others p' process' hold hother
  ordered p' process' hp' := by
    rcases Servers.setProcess_cases hp' with ⟨rfl, rfl⟩ | ⟨-, hold⟩
    · exact hmoves.ordered (h.ordered p' process hp)
    · exact h.ordered p' process' hold
  current p' hp' := by
    by_cases heq : p' = p
    · subst heq
      exact ⟨new, Function.update_self p' _ s.processes⟩
    · obtain ⟨process', hprocess'⟩ := h.current p' hp'
      exact ⟨process', (Function.update_of_ne heq _ s.processes).trans hprocess'⟩
  fresh p' hp' := by
    have hnone := h.fresh p' hp'
    have hne : p' ≠ p := fun heq => by
      rw [heq, hp] at hnone
      cases hnone
    exact (Function.update_of_ne hne _ s.processes).trans hnone
  stopped hstopped := by
    obtain ⟨hnone, hlate⟩ := h.stopped hstopped
    refine ⟨hnone, fun hsocket => ?_⟩
    obtain ⟨maker, process', hmaker, hp', hkilled⟩ := hlate hsocket
    by_cases heq : maker = p
    · subst heq
      obtain rfl := Option.some.inj (hp.symm.trans hp')
      exact ⟨maker, new, hmaker, Function.update_self maker _ s.processes, hmoves.killed hkilled⟩
    · exact ⟨maker, process', hmaker, (Function.update_of_ne heq _ s.processes).trans hp', hkilled⟩

/-- The process that is known is changed. -/
theorem Servers.Known.setProcess (hp : s.serverProcess = some p) (hnew : P new) :
    (s.setProcess p new).Known P := by
  intro p' process' hp' hprocess'
  obtain rfl := Option.some.inj (hp.symm.trans hp')
  rcases Servers.setProcess_cases hprocess' with ⟨-, rfl⟩ | ⟨hne, -⟩
  · exact hnew
  · exact absurd rfl hne

/-- Some process is changed, and what is known of it is not lost. -/
theorem Servers.Known.keep (h : s.Known P) (hp : s.processes p = some process)
    (hnew : P process → P new) : (s.setProcess p new).Known P := by
  intro p' process' hp' hprocess'
  rcases Servers.setProcess_cases hprocess' with ⟨rfl, rfl⟩ | ⟨-, hold⟩
  · exact hnew (h p' process hp' hp)
  · exact h p' process' hp' hold

/-- With no process known there is nothing to show. -/
theorem Servers.known_none (h : s.serverProcess = none) : s.Known P := by
  intro p process hp
  rw [h] at hp
  cases hp

theorem ServersInv.clear (h : ServersInv s) (hover : s.Known ServerProcess.Finished) :
    ServersInv s.clear where
  others p process hp _ := by
    by_cases hknown : s.serverProcess = some p
    · exact hover p process hknown hp
    · exact h.others p process hp hknown
  ordered := h.ordered
  current := nofun
  fresh := h.fresh
  stopped _ := ⟨rfl, nofun⟩

theorem ServersInv.launch (h : ServersInv s) (hnone : s.serverProcess = none) :
    ServersInv s.launch where
  others p process hp hother := by
    have hne : p ≠ s.nextProcess := fun heq => hother (heq ▸ rfl)
    refine h.others p process ((Function.update_of_ne hne _ s.processes).symm.trans hp) ?_
    rw [hnone]
    exact nofun
  ordered p process hp := by
    by_cases heq : p = s.nextProcess
    · subst heq
      obtain rfl := Option.some.inj ((Function.update_self _ _ s.processes).symm.trans hp)
      exact nofun
    · exact h.ordered p process ((Function.update_of_ne heq _ s.processes).symm.trans hp)
  current p hp := by
    obtain rfl := Option.some.inj hp
    exact ⟨_, Function.update_self _ _ s.processes⟩
  fresh p hp := by
    have hlt : s.nextProcess < p := hp
    exact (Function.update_of_ne hlt.ne' _ s.processes).trans (h.fresh p hlt.le)
  stopped := nofun

/-- The socket is deleted. -/
theorem ServersInv.deleteSocket (h : ServersInv s) :
    ServersInv { s with socketExists := false } :=
  ⟨h.others, h.ordered, h.current, h.fresh, fun hstopped => ⟨(h.stopped hstopped).1, nofun⟩⟩

theorem exists_of_alive (h : s.alive p = true) :
    ∃ process, s.processes p = some process ∧ process.gone = false := by
  obtain ⟨process, hprocess, halive⟩ := (Option.any_eq_true _ _).mp h
  cases hgone : process.gone with
  | true =>
    rw [hgone] at halive
    cases halive
  | false => exact ⟨process, hprocess, hgone⟩

/-- A process that is alive and not the one that is known has been destroyed forcibly. -/
theorem ServersInv.killed (h : ServersInv s) (hprocess : s.processes p = some process)
    (hgone : process.gone = false) (hp : s.serverProcess ≠ some p) : process.killed = true := by
  rcases h.others p process hprocess hp with hgone' | hkilled
  · cases hgone.symm.trans hgone'
  · exact hkilled

end Servers

/-! ### What the call inside does -/

/-- The results after which there is no server. -/
def CallResult.quiet : CallResult → Bool
  | .notStarted | .stopped => true
  | _ => false

/-- What a call returns with in a step fits the servers. -/
def Returns (s t : ManagerState) : Prop :=
  ∀ j result, t.calls j = .returned result →
    s.calls j = .returned result ∨ (result.quiet = true → t.servers.stopped = true)

section Inside

variable {s t : ManagerState} {i : ℕ} {pc : ManagerPc} {after : After} {result : CallResult}

theorem ManagerInv.goto (h : ServersInv s.servers) (hpc : PcInv s.servers (some pc)) :
    ManagerInv (s.goto i pc) := ⟨h, hpc⟩

theorem ManagerInv.finish (h : ServersInv s.servers)
    (hpc : s.servers.Known ServerProcess.Settled) : ManagerInv (s.finish i result) := ⟨h, hpc⟩

theorem returns_goto : Returns s (s.goto i pc) := fun _ _ h => .inl h

theorem returns_finish (hquiet : result.quiet = true → s.servers.stopped = true) :
    Returns s (s.finish i result) := by
  intro j result' h
  by_cases heq : j = i
  · subst heq
    cases (Function.update_self j _ s.calls).symm.trans h
    exact .inr hquiet
  · exact .inl ((Function.update_of_ne heq _ s.calls).symm.trans h)

theorem throwFrom_spec (h : ServersInv s.servers)
    (hterminated : s.servers.Known fun process => process.terminated = true) :
    ManagerInv (s.throwFrom i after) ∧ Returns s (s.throwFrom i after) := by
  have hsettled : s.servers.Known ServerProcess.Settled := fun p process hp hprocess =>
    .inl (hterminated p process hp hprocess)
  cases after with
  | notReady => exact ⟨.goto h trivial, returns_goto⟩
  | launch => exact ⟨.finish h hsettled, returns_finish nofun⟩
  | caught => exact ⟨.finish h hsettled, returns_finish nofun⟩
  | stop => exact ⟨.finish h hsettled, returns_finish nofun⟩

theorem continueWith_spec (h : ServersInv s.servers) (hnone : s.servers.serverProcess = none)
    (hstopped : s.servers.stopped = true) :
    ManagerInv (s.continueWith i after) ∧ Returns s (s.continueWith i after) := by
  cases after with
  | launch => exact ⟨.goto h hstopped, returns_goto⟩
  | notReady => exact ⟨.finish h (Servers.known_none hnone), returns_finish fun _ => hstopped⟩
  | caught => exact ⟨.finish h (Servers.known_none hnone), returns_finish fun _ => hstopped⟩
  | stop => exact ⟨.finish h (Servers.known_none hnone), returns_finish fun _ => hstopped⟩

/-- A process that has been waited for has exited or is destroyed forcibly. -/
theorem waitedFor_moves {process : ServerProcess} {exited : Bool}
    (hexited : ¬ (exited && !process.gone) = true) (hterminated : process.terminated = true) :
    ProcessMoves process (process.waitedFor exited) ∧ (process.waitedFor exited).Finished ∧
      (process.waitedFor exited).terminated = true := by
  cases exited with
  | true =>
    refine ⟨⟨id, id, id⟩, .inl ?_, hterminated⟩
    show process.gone = true
    cases hgone : process.gone with
    | true => rfl
    | false =>
      rw [hgone] at hexited
      exact absurd rfl hexited
  | false => exact ⟨⟨fun _ => .inr rfl, fun _ => rfl, fun _ _ => hterminated⟩, .inr rfl, hterminated⟩

theorem insideNext_spec (hservers : ServersInv s.servers) (hpc : PcInv s.servers (some pc))
    {step : InsideStep} (h : s.insideNext i pc step = some t) : ManagerInv t ∧ Returns s t := by
  unfold ManagerState.insideNext at h
  split at h
  · -- the process, if there is one, is told to exit
    split at h
    · rename_i p hp
      obtain ⟨process, hprocess, rfl⟩ := Option.map_eq_some_iff.mp h
      exact ⟨.goto (hservers.setProcess hprocess ⟨id, id, fun _ _ => rfl⟩)
        (Servers.Known.setProcess hp rfl), returns_goto⟩
    · rename_i hnone
      obtain rfl := Option.some.inj h
      exact ⟨.goto hservers (Servers.known_none hnone), returns_goto⟩
  · obtain rfl := Option.some.inj h
    split
    · exact throwFrom_spec hservers hpc
    · exact ⟨.goto hservers hpc, returns_goto⟩
  · obtain ⟨p, hp, h⟩ := Option.bind_eq_some_iff.mp h
    obtain ⟨process, hprocess, h⟩ := Option.bind_eq_some_iff.mp h
    split at h
    · cases h
    · rename_i hexited
      obtain rfl := Option.some.inj h
      obtain ⟨hmoves, hfinished, hterminated⟩ := waitedFor_moves hexited (hpc p process hp hprocess)
      have hservers' := hservers.setProcess hprocess hmoves
      split
      · exact throwFrom_spec hservers' (Servers.Known.setProcess hp hterminated)
      · exact ⟨.goto hservers' (Servers.Known.setProcess hp hfinished), returns_goto⟩
  · obtain rfl := Option.some.inj h
    exact continueWith_spec (s := s.setServers s.servers.clear) (hservers.clear hpc) rfl rfl
  · obtain rfl := Option.some.inj h
    split
    · exact ⟨.goto hservers hpc, returns_goto⟩
    · exact ⟨.finish hservers (Servers.known_none (hservers.stopped hpc).1),
        returns_finish fun _ => hpc⟩
  · split at h
    · obtain rfl := Option.some.inj h
      exact ⟨.goto (hservers.launch (hservers.stopped hpc).1) trivial, returns_goto⟩
    · obtain rfl := Option.some.inj h
      exact ⟨.goto hservers.deleteSocket trivial, returns_goto⟩
  · obtain ⟨p, hp, h⟩ := Option.bind_eq_some_iff.mp h
    obtain ⟨process, hprocess, h⟩ := Option.bind_eq_some_iff.mp h
    split at h
    · obtain rfl := Option.some.inj h
      exact ⟨.finish (hservers.setProcess hprocess ⟨id, id, id⟩)
        (Servers.Known.setProcess hp (.inr rfl)), returns_finish nofun⟩
    · cases h
  · obtain rfl := Option.some.inj h
    exact ⟨.goto hservers trivial, returns_goto⟩
  · split at h
    · obtain rfl := Option.some.inj h
      exact ⟨.goto hservers trivial, returns_goto⟩
    · cases h
  · cases h

end Inside

/-! ### Runs -/

section Runs

variable {s t : ManagerState} {p : ℕ} {process : ServerProcess}

/-- What the place of the call tells survives the exit of a process. -/
theorem PcInv.exits {servers : Servers} {pc : Option ManagerPc} (h : PcInv servers pc)
    (hp : servers.processes p = some process) :
    PcInv (servers.setProcess p { process with gone := true }) pc := by
  cases pc with
  | none => exact Servers.Known.keep h hp id
  | some pc =>
    cases pc with
    | destroy after =>
      cases after with
      | launch => exact Servers.Known.keep h hp id
      | stop => exact Servers.Known.keep h hp id
      | notReady => trivial
      | caught => trivial
    | toIo after => exact Servers.Known.keep h hp id
    | waitFor after => exact Servers.Known.keep h hp id
    | clear after => exact Servers.Known.keep h hp fun _ => .inl rfl
    | checkBinary => exact h
    | launch => exact h
    | waitForSocket => trivial

/-- It does not depend on the socket. -/
theorem PcInv.setSocket {servers : Servers} {pc : Option ManagerPc} (h : PcInv servers pc)
    (socketExists : Bool) (maker : Option ℕ) :
    PcInv { servers with socketExists := socketExists, socketMaker := maker } pc := by
  cases pc with
  | none => exact h
  | some pc =>
    cases pc with
    | destroy after => cases after <;> exact h
    | toIo after => exact h
    | waitFor after => exact h
    | clear after => exact h
    | checkBinary => exact h
    | launch => exact h
    | waitForSocket => trivial

/-- A server that is alive makes its socket; once all are stopped, it has been destroyed
forcibly. -/
theorem ServersInv.makesSocket {servers : Servers} (h : ServersInv servers)
    (halive : servers.alive p = true) :
    ServersInv { servers with socketExists := true, socketMaker := some p } := by
  refine ⟨h.others, h.ordered, h.current, h.fresh, fun hstopped => ?_⟩
  have hnone : servers.serverProcess = none := (h.stopped hstopped).1
  obtain ⟨process, hprocess, hgone⟩ := exists_of_alive halive
  refine ⟨hnone, fun _ => ⟨p, process, rfl, hprocess, h.killed hprocess hgone ?_⟩⟩
  rw [hnone]
  exact nofun

theorem ManagerInv.step (hi : ManagerInv s) {e : ManagerStep} (h : s.next e = some t) :
    ManagerInv t ∧ Returns s t := by
  have hupdate : ∀ (i : ℕ) (call : ManagerCall) (calls : ℕ → ManagerCall),
      (∀ result, call = .returned result → result.quiet = false) →
      calls = Function.update s.calls i call → ∀ j result, calls j = .returned result →
        s.calls j = .returned result ∨ (result.quiet = true → t.servers.stopped = true) := by
    rintro i call calls hcall rfl j result hj
    by_cases heq : j = i
    · subst heq
      rw [Function.update_self] at hj
      exact .inr fun hquiet => absurd ((hcall result hj).symm.trans hquiet) Bool.false_ne_true
    · rw [Function.update_of_ne heq] at hj
      exact .inl hj
  cases e with
  | call i start =>
    simp only [ManagerState.next] at h
    split at h
    · obtain rfl := Option.some.inj h
      exact ⟨⟨hi.servers, hi.pc⟩, hupdate i (.locking start) _ nofun rfl⟩
    · obtain rfl := Option.some.inj h
      exact ⟨⟨hi.servers, hi.pc⟩, hupdate i (.locking start) _ nofun rfl⟩
    · cases h
  | cancel i =>
    obtain rfl := Option.some.inj h
    exact ⟨⟨hi.servers, hi.pc⟩, fun _ _ hj => .inl hj⟩
  | lock i =>
    simp only [ManagerState.next] at h
    split at h
    · rename_i start _ hinside
      obtain rfl := Option.some.inj h
      have hsettled : PcInv s.servers none := by
        have hpc := hi.pc
        rwa [hinside] at hpc
      refine ⟨⟨hi.servers, ?_⟩, hupdate i .inside _ nofun rfl⟩
      cases start with
      | true => exact hsettled
      | false => exact hsettled
    · cases h
  | abort i =>
    simp only [ManagerState.next] at h
    split at h
    · split at h
      · obtain rfl := Option.some.inj h
        refine ⟨⟨hi.servers, hi.pc⟩, hupdate i _ _ ?_ rfl⟩
        intro result heq
        cases heq
        rfl
      · cases h
    · cases h
  | inside step =>
    obtain ⟨⟨i, pc⟩, hinside, h⟩ := Option.bind_eq_some_iff.mp h
    have hpc := hi.pc
    rw [hinside] at hpc
    exact insideNext_spec hi.servers hpc h
  | exits p =>
    obtain ⟨process, hp, rfl⟩ := Option.map_eq_some_iff.mp h
    exact ⟨⟨hi.servers.setProcess hp ⟨fun _ => .inl rfl, id, id⟩, hi.pc.exits hp⟩,
      fun _ _ hj => .inl hj⟩
  | makesSocket p =>
    simp only [ManagerState.next] at h
    split at h
    · rename_i halive
      obtain rfl := Option.some.inj h
      exact ⟨⟨hi.servers.makesSocket halive, hi.pc.setSocket true _⟩, fun _ _ hj => .inl hj⟩
    · cases h

/-- The server is alive, and has not been destroyed forcibly. -/
def Servers.Serving (s : Servers) (p : ℕ) : Prop :=
  ∃ process, s.processes p = some process ∧ process.gone = false ∧ process.killed = false

/-- What the manager promises in every state. -/
structure ManagerGuarantee (s : ManagerState) : Prop where
  /-- There is one server that is alive and has not been destroyed forcibly, or none. -/
  one : ∀ p q, s.servers.Serving p → s.servers.Serving q → p = q
  /-- Only a server that has been told to exit is destroyed forcibly. -/
  ordered : ∀ p process, s.servers.processes p = some process → process.Ordered
  /-- Between calls every server that is alive has been told to exit or has been reported. -/
  between : s.inside = none → ∀ p process, s.servers.processes p = some process →
    process.gone = false → process.Settled
  /-- After a complete stop there is no such server until the next launch, and no socket but of one
  that has been destroyed forcibly. -/
  quiet : s.servers.stopped = true → (∀ p, ¬ s.servers.Serving p) ∧ s.servers.OnlyLateSocket
  /-- A call that returns from a stop, or from a start without success, has completed a stop. -/
  returns : ∀ e t, s.next e = some t → Returns s t

/-- The server that serves is the one that is known. -/
theorem ServersInv.known_of_serving {servers : Servers} (h : ServersInv servers)
    (hp : servers.Serving p) : servers.serverProcess = some p := by
  obtain ⟨process, hprocess, hgone, hkilled⟩ := hp
  by_contra hother
  cases hkilled.symm.trans (h.killed hprocess hgone hother)

theorem ManagerInv.guarantee (hi : ManagerInv s) : ManagerGuarantee s where
  one p q hp hq :=
    Option.some.inj ((hi.servers.known_of_serving hp).symm.trans (hi.servers.known_of_serving hq))
  ordered := hi.servers.ordered
  between hinside p process hp hgone := by
    have hpc := hi.pc
    rw [hinside] at hpc
    by_cases hknown : s.servers.serverProcess = some p
    · exact hpc p process hknown hp
    · exact .inl (hi.servers.ordered p process hp (hi.servers.killed hp hgone hknown))
  quiet hstopped := by
    obtain ⟨hnone, hlate⟩ := hi.servers.stopped hstopped
    refine ⟨fun p hp => ?_, hlate⟩
    cases hnone.symm.trans (hi.servers.known_of_serving hp)
  returns e t ht := (hi.step ht).2

end Runs

end Wldroid.Virgl
