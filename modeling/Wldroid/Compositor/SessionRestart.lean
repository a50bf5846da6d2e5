import Wldroid.Foundation.Transition
import Mathlib.Data.Finset.Basic

/-!
# Restarting the session

`stopAsync` leaves the shutdown to a thread of its own; `DesktopSession.restart` starts the session
again without waiting for it.

* `Session.next` — the steps of the stop thread and of `CompositorSession.start`, in any order;
* `KeepsRunning` — what a normal return of `start` stands for;
* `StopFirst` — the stop thread has listed the stale files before the new server makes its own, and
  has set its last state before `start` sets `RUNNING`;
* `keepsRunning_of_stopFirst` and its converse `restart_keepsRunning_iff`.
-/

namespace Wldroid.Compositor

open Wldroid.Foundation

/-! ### State -/

inductive CompositorState where
  | idle
  | starting
  | running
  | paused
  | stopping
  | stopped
  | error
  deriving DecidableEq

/-- A `wayland-*` file of the runtime directory: the socket of a display, or its lock file. -/
inductive WaylandFile where
  | socket (name : ℕ)
  | lock (name : ℕ)
  deriving DecidableEq

/-- What the stop thread does next. -/
inductive Stopper where
  | nativeStop
  | clearPath
  | clearDisplay
  | listStale
  | deleteStale (rest : Finset WaylandFile)
  | setStopped
  | done

/-- What `CompositorSession.start` does next. -/
inductive Starter where
  | check
  | clearRequest
  | setStarting
  | prepare
  | listStale
  | deleteStale (rest : Finset WaylandFile)
  | setDir
  | nativeStart
  | getSocketName
  | setRunning (name : ℕ)
  | setPath (name : ℕ)
  | getDisplay
  | returned
  | thrown

/-- `CompositorSession` with the native server and its runtime directory, and both threads. -/
structure Session where
  state : CompositorState
  stopRequested : Bool
  socketPath : Option ℕ
  xwaylandDisplay : Option ℕ
  /-- `runtimeDir` is set; it is the same directory in every start. -/
  runtimeDir : Bool
  /-- `g_server`, by the name of its socket. -/
  server : Option ℕ
  files : Finset WaylandFile
  stopper : Stopper
  starter : Starter

/-! ### Code -/

/-- `native_stop_compositor`, all of it under `g_server_mutex`; the display takes its socket and
lock file along. -/
def Session.nativeStopCompositor (s : Session) : Session :=
  match s.server with
  | none => s
  | some name =>
      { s with server := none, files := (s.files.erase (.socket name)).erase (.lock name) }

/-- `native_start_compositor`, all of it under `g_server_mutex`; `created` is the name of the new
server's socket, none if it could not be created. -/
def Session.nativeStartCompositor (s : Session) (created : Option ℕ) : Session :=
  match s.server, created with
  | none, some name =>
      { s with server := some name, files := insert (.socket name) (insert (.lock name) s.files) }
  | _, _ => s

/-- `CompositorSession.stopAsync` with a stop not requested yet, up to its return. -/
def Session.stopAsync (s : Session) : Session :=
  { s with stopRequested := true, state := .stopping, stopper := .nativeStop }

/-- The next step of the stop thread: `nativeStopCompositor`, `cleanupOnStop`, `STOPPED`. -/
def Session.stopStep (s : Session) : Option Session :=
  match s.stopper with
  | .nativeStop => some { s.nativeStopCompositor with stopper := .clearPath }
  | .clearPath => some { s with socketPath := none, stopper := .clearDisplay }
  | .clearDisplay => some { s with xwaylandDisplay := none, stopper := .listStale }
  | .listStale => some { s with stopper := .deleteStale (if s.runtimeDir then s.files else ∅) }
  | .deleteStale rest => if rest = ∅ then some { s with stopper := .setStopped } else none
  | .setStopped => some { s with state := .stopped, stopper := .done }
  | .done => none

/-- `CompositorSession.start` fails: its `catch`. -/
def Session.throw (s : Session) : Session := { s with state := .error, starter := .thrown }

/-- The next step of `CompositorSession.start`, where it leaves no choice. -/
def Session.startStep (s : Session) : Option Session :=
  match s.starter with
  | .check =>
      if s.state = .starting ∨ s.state = .running then some { s with starter := .thrown }
      else some { s with starter := .clearRequest }
  | .clearRequest => some { s with stopRequested := false, starter := .setStarting }
  | .setStarting => some { s with state := .starting, starter := .prepare }
  | .listStale => some { s with starter := .deleteStale s.files }
  | .deleteStale rest => if rest = ∅ then some { s with starter := .setDir } else none
  | .setDir => some { s with runtimeDir := true, starter := .nativeStart }
  | .getSocketName =>
      match s.server with
      | none => some s.throw
      | some name => some { s with starter := .setRunning name }
  | .setRunning name => some { s with state := .running, starter := .setPath name }
  | .setPath name => some { s with socketPath := some name, starter := .getDisplay }
  | .prepare | .nativeStart | .getDisplay | .returned | .thrown => none

/-- The steps of both threads; the files of a directory are deleted in any order. -/
inductive RestartEvent where
  | stop
  | stopDelete (file : WaylandFile)
  | start
  | startDelete (file : WaylandFile)
  /-- The environment is set and the configuration validated, which may throw. -/
  | prepare (valid : Bool)
  | nativeStart (created : Option ℕ)
  | getDisplay (display : Option ℕ)

/-- The next state. -/
def Session.next (s : Session) : RestartEvent → Option Session
  | .stop => s.stopStep
  | .stopDelete file =>
      match s.stopper with
      | .deleteStale rest =>
          if file ∈ rest then
            some { s with files := s.files.erase file, stopper := .deleteStale (rest.erase file) }
          else none
      | _ => none
  | .start => s.startStep
  | .startDelete file =>
      match s.starter with
      | .deleteStale rest =>
          if file ∈ rest then
            some { s with files := s.files.erase file, starter := .deleteStale (rest.erase file) }
          else none
      | _ => none
  | .prepare valid =>
      match s.starter with
      | .prepare => some (if valid then { s with starter := .listStale } else s.throw)
      | _ => none
  | .nativeStart created =>
      match s.starter with
      | .nativeStart => some { s.nativeStartCompositor created with starter := .getSocketName }
      | _ => none
  | .getDisplay display =>
      match s.starter with
      | .getDisplay => some { s with xwaylandDisplay := display, starter := .returned }
      | _ => none

/-- `stopAsync` has just returned, whatever the session was in, and `start` is called. -/
def Session.Initial (s : Session) : Prop :=
  ∃ before : Session, before.stopRequested = false ∧ before.starter = .check ∧ s = before.stopAsync

/-- All interleavings of the two threads. -/
def restartSystem : System Session RestartEvent :=
  System.ofNext Session.Initial Session.next

/-! ### What a start promises -/

/-- The native server runs and its socket files are there. -/
def Session.Serves (s : Session) (name : ℕ) : Prop :=
  s.server = some name ∧ .socket name ∈ s.files ∧ .lock name ∈ s.files

/-- If `start` has returned normally, the session is running. -/
def KeepsRunning (s : Session) : Prop :=
  s.starter = .returned →
    s.state = .running ∧ s.socketPath ≠ none ∧ ∃ name, s.Serves name

/-- The stop thread has listed the stale files, and those of the new server are not among the ones
it still has to delete. -/
def Stopper.Spares (created : Option ℕ) : Stopper → Prop
  | .deleteStale rest =>
      ∀ name, created = some name → .socket name ∉ rest ∧ .lock name ∉ rest
  | .setStopped | .done => True
  | .nativeStop | .clearPath | .clearDisplay | .listStale => False

/-- The stop thread is ahead of `start` where it has to be. -/
def StopFirst (s : Session) : RestartEvent → Prop
  | .nativeStart created => s.stopper.Spares created
  | .start => ∀ name, s.starter = .setRunning name → s.stopper = .done
  | _ => True

/-! ### The stop thread -/

/-- A running server the stop thread has left behind. -/
def Session.Up (s : Session) : Prop :=
  ∃ name, s.Serves name ∧ s.stopper.Spares (some name)

section StopThread

variable {s t : Session} {file : WaylandFile}

/-- The steps of the stop thread. -/
def StopMoves (s t : Session) : Prop :=
  s.next .stop = some t ∨ ∃ file, s.next (.stopDelete file) = some t

/-- A deletion of the stop thread. -/
theorem stopDelete_cases (h : s.next (.stopDelete file) = some t) :
    ∃ rest, s.stopper = .deleteStale rest ∧ file ∈ rest ∧
      t = { s with files := s.files.erase file, stopper := .deleteStale (rest.erase file) } := by
  simp only [Session.next] at h
  split at h
  · rename_i rest hstopper
    split at h
    · rename_i hmem
      exact ⟨rest, hstopper, hmem, (Option.some.inj h).symm⟩
    · cases h
  · cases h

/-- `native_stop_compositor` leaves no server, and touches nothing else but its files. -/
theorem nativeStopCompositor_frame (s : Session) :
    s.nativeStopCompositor.server = none ∧ s.nativeStopCompositor.starter = s.starter ∧
      s.nativeStopCompositor.runtimeDir = s.runtimeDir := by
  unfold Session.nativeStopCompositor
  split
  · rename_i hserver
    exact ⟨hserver, rfl, rfl⟩
  · exact ⟨rfl, rfl, rfl⟩

/-- What the stop thread leaves alone: it takes the server away once, and never puts one back. -/
theorem StopMoves.frame (h : StopMoves s t) :
    t.starter = s.starter ∧ t.runtimeDir = s.runtimeDir ∧ s.stopper ≠ .done ∧
      (t.stopper = .done → t.state = .stopped) ∧ t.stopper ≠ .nativeStop ∧
      (s.server = none ∨ s.stopper = .nativeStop → t.server = none) ∧
      (s.stopper ≠ .nativeStop → t.server = s.server ∧ t.files ⊆ s.files) := by
  rcases h with h | ⟨file, h⟩
  · simp only [Session.next, Session.stopStep] at h
    cases hstopper : s.stopper with
    | nativeStop =>
      rw [hstopper] at h
      obtain rfl := Option.some.inj h
      obtain ⟨hserver, hstarter, hdir⟩ := nativeStopCompositor_frame s
      exact ⟨hstarter, hdir, by simp, by simp, by simp, fun _ => hserver, fun h => absurd rfl h⟩
    | done =>
      rw [hstopper] at h
      cases h
    | deleteStale rest =>
      rw [hstopper] at h
      simp only at h
      split at h
      · obtain rfl := Option.some.inj h
        simp
      · cases h
    | clearPath | clearDisplay | listStale | setStopped =>
      rw [hstopper] at h
      obtain rfl := Option.some.inj h
      simp
  · obtain ⟨rest, hstopper, _, rfl⟩ := stopDelete_cases h
    simp [hstopper, Finset.erase_subset]

/-- A server the stop thread has left behind is not touched by it. -/
theorem Session.Up.stopMoves (hup : s.Up) (h : StopMoves s t) : t.Up := by
  obtain ⟨name, ⟨hserver, hsocket, hlock⟩, hspares⟩ := hup
  refine ⟨name, ?_⟩
  rcases h with h | ⟨file, h⟩
  · simp only [Session.next, Session.stopStep] at h
    cases hstopper : s.stopper with
    | nativeStop | clearPath | clearDisplay | listStale =>
      rw [hstopper] at hspares
      exact hspares.elim
    | done =>
      rw [hstopper] at h
      cases h
    | deleteStale rest =>
      rw [hstopper] at h
      simp only at h
      split at h
      · obtain rfl := Option.some.inj h
        exact ⟨⟨hserver, hsocket, hlock⟩, trivial⟩
      · cases h
    | setStopped =>
      rw [hstopper] at h
      obtain rfl := Option.some.inj h
      exact ⟨⟨hserver, hsocket, hlock⟩, trivial⟩
  · obtain ⟨rest, hstopper, hfile, rfl⟩ := stopDelete_cases h
    rw [hstopper] at hspares
    obtain ⟨hsocketRest, hlockRest⟩ := hspares name rfl
    refine ⟨⟨hserver, ?_, ?_⟩, fun other hother => ?_⟩
    · exact Finset.mem_erase.mpr ⟨fun heq => hsocketRest (heq ▸ hfile), hsocket⟩
    · exact Finset.mem_erase.mpr ⟨fun heq => hlockRest (heq ▸ hfile), hlock⟩
    · obtain rfl := Option.some.inj hother
      exact ⟨fun hmem => hsocketRest (Finset.mem_of_mem_erase hmem),
        fun hmem => hlockRest (Finset.mem_of_mem_erase hmem)⟩

end StopThread

/-- A server the stop thread reaches, or whose socket files are gone, or none at all. -/
def Session.Doomed (s : Session) : Prop :=
  s.server = none ∨ ∃ name, s.server = some name ∧
    (¬ s.stopper.Spares (some name) ∨ .socket name ∉ s.files ∨ .lock name ∉ s.files)

section Doomed

variable {s t : Session}

theorem Session.Doomed.not_serves (h : s.Doomed) (hdone : s.stopper = .done) (name : ℕ) :
    ¬ s.Serves name := by
  rintro ⟨hserver, hsocket, hlock⟩
  rcases h with hnone | ⟨other, hother, hwhy⟩
  · rw [hnone] at hserver
    cases hserver
  · rw [hserver] at hother
    obtain rfl := Option.some.inj hother
    rcases hwhy with hreach | hgone | hgone
    · rw [hdone] at hreach
      exact hreach trivial
    · exact hgone hsocket
    · exact hgone hlock

/-- A server the stop thread reaches is reached, whatever the stop thread does next. -/
theorem reach_stopMoves {name : ℕ} (h : StopMoves s t) (hdir : s.runtimeDir = true)
    (hstop : s.stopper ≠ .nativeStop) (hreach : ¬ s.stopper.Spares (some name)) :
    ¬ t.stopper.Spares (some name) ∨ .socket name ∉ t.files ∨ .lock name ∉ t.files := by
  rcases h with h | ⟨file, h⟩
  · simp only [Session.next, Session.stopStep] at h
    cases hstopper : s.stopper with
    | nativeStop => exact absurd hstopper hstop
    | clearPath | clearDisplay =>
      rw [hstopper] at h
      obtain rfl := Option.some.inj h
      exact .inl id
    | listStale =>
      rw [hstopper, hdir] at h
      obtain rfl := Option.some.inj h
      -- the files of the server are on the list, unless they are gone already
      by_cases hsocket : .socket name ∈ s.files
      · exact .inl fun hspares => (hspares name rfl).1 hsocket
      · exact .inr (.inl hsocket)
    | deleteStale rest =>
      rw [hstopper] at h hreach
      simp only at h
      split at h
      · rename_i hempty
        rw [hempty] at hreach
        exact absurd (fun _ _ => ⟨Finset.notMem_empty _, Finset.notMem_empty _⟩) hreach
      · cases h
    | setStopped | done =>
      rw [hstopper] at hreach
      exact absurd trivial hreach
  · obtain ⟨rest, hstopper, hfile, rfl⟩ := stopDelete_cases h
    rw [hstopper] at hreach
    by_cases hsocket : file = .socket name
    · exact .inr (.inl (by simp [hsocket]))
    by_cases hlock : file = .lock name
    · exact .inr (.inr (by simp [hlock]))
    refine .inl fun hspares => hreach fun other hother => ?_
    obtain ⟨hrest, hrest'⟩ := hspares other hother
    obtain rfl := Option.some.inj hother
    exact ⟨fun hmem => hrest (Finset.mem_erase.mpr ⟨Ne.symm hsocket, hmem⟩),
      fun hmem => hrest' (Finset.mem_erase.mpr ⟨Ne.symm hlock, hmem⟩)⟩

/-- Doom lasts. -/
theorem Session.Doomed.stopMoves (hdoomed : s.Doomed) (hdir : s.runtimeDir = true)
    (h : StopMoves s t) : t.Doomed := by
  obtain ⟨_, _, _, _, _, hnone, hkept⟩ := h.frame
  by_cases hstop : s.stopper = .nativeStop
  · exact .inl (hnone (.inr hstop))
  obtain ⟨hserver, hfiles⟩ := hkept hstop
  rcases hdoomed with hgone | ⟨name, hname, hwhy⟩
  · exact .inl (hnone (.inl hgone))
  · refine .inr ⟨name, hserver.trans hname, ?_⟩
    rcases hwhy with hreach | hgone | hgone
    · exact reach_stopMoves h hdir hstop hreach
    · exact .inr (.inl fun hmem => hgone (hfiles hmem))
    · exact .inr (.inr fun hmem => hgone (hfiles hmem))

end Doomed

/-! ### The start -/

/-- `start` has not come to the native server yet. -/
def Starter.Before : Starter → Prop
  | .check | .clearRequest | .setStarting | .prepare | .listStale | .deleteStale _ | .setDir => True
  | .nativeStart | .getSocketName | .setRunning _ | .setPath _ | .getDisplay | .returned
  | .thrown => False

/-- A step of `start`. -/
inductive StartMoves (s : Session) : RestartEvent → Session → Prop where
  | thrown {e t} : t.starter = .thrown → StartMoves s e t
  | early {e t} : s.starter.Before → t.starter.Before → t.stopper = s.stopper →
      t.server = s.server → StartMoves s e t
  | setDir {e} : s.starter = .setDir →
      StartMoves s e { s with runtimeDir := true, starter := .nativeStart }
  | nativeStart {created} : s.starter = .nativeStart →
      StartMoves s (.nativeStart created)
        { s.nativeStartCompositor created with starter := .getSocketName }
  | getSocketName {e name} : s.starter = .getSocketName → s.server = some name →
      StartMoves s e { s with starter := .setRunning name }
  | setRunning {name} : s.starter = .setRunning name →
      StartMoves s .start { s with state := .running, starter := .setPath name }
  | setPath {e name} : s.starter = .setPath name →
      StartMoves s e { s with socketPath := some name, starter := .getDisplay }
  | getDisplay {e display} : s.starter = .getDisplay →
      StartMoves s e { s with xwaylandDisplay := display, starter := .returned }

section Steps

variable {s t : Session} {e : RestartEvent}

/-- A step of `start` without a choice. -/
theorem startMoves_of_startStep (h : s.startStep = some t) : StartMoves s .start t := by
  unfold Session.startStep at h
  cases hat : s.starter with
  | check =>
    rw [hat] at h
    simp only at h
    split at h
    · obtain rfl := Option.some.inj h
      exact .thrown rfl
    · obtain rfl := Option.some.inj h
      exact .early (by rw [hat]; trivial) trivial rfl rfl
  | deleteStale rest =>
    rw [hat] at h
    simp only at h
    split at h
    · obtain rfl := Option.some.inj h
      exact .early (by rw [hat]; trivial) trivial rfl rfl
    · cases h
  | clearRequest | setStarting | listStale =>
    rw [hat] at h
    obtain rfl := Option.some.inj h
    exact .early (by rw [hat]; trivial) trivial rfl rfl
  | setDir =>
    rw [hat] at h
    obtain rfl := Option.some.inj h
    exact .setDir hat
  | getSocketName =>
    rw [hat] at h
    simp only at h
    split at h
    · obtain rfl := Option.some.inj h
      exact .thrown rfl
    · rename_i name hserver
      obtain rfl := Option.some.inj h
      exact .getSocketName hat hserver
  | setRunning name =>
    rw [hat] at h
    obtain rfl := Option.some.inj h
    exact .setRunning hat
  | setPath name =>
    rw [hat] at h
    obtain rfl := Option.some.inj h
    exact .setPath hat
  | prepare | nativeStart | getDisplay | returned | thrown =>
    rw [hat] at h
    cases h

/-- Every step is one of the stop thread or one of `start`. -/
theorem session_step_cases (h : s.next e = some t) : StopMoves s t ∨ StartMoves s e t := by
  cases e with
  | stop => exact .inl (.inl h)
  | stopDelete file => exact .inl (.inr ⟨file, h⟩)
  | start => exact .inr (startMoves_of_startStep h)
  | startDelete file =>
    simp only [Session.next] at h
    split at h
    · rename_i rest hat
      split at h
      · obtain rfl := Option.some.inj h
        exact .inr (.early (by rw [hat]; trivial) trivial rfl rfl)
      · cases h
    · cases h
  | prepare valid =>
    simp only [Session.next] at h
    split at h
    · rename_i hat
      obtain rfl := Option.some.inj h
      cases valid with
      | true => exact .inr (.early (by rw [hat]; trivial) trivial rfl rfl)
      | false => exact .inr (.thrown rfl)
    · cases h
  | nativeStart created =>
    simp only [Session.next] at h
    split at h
    · rename_i hat
      obtain rfl := Option.some.inj h
      exact .inr (.nativeStart hat)
    · cases h
  | getDisplay display =>
    simp only [Session.next] at h
    split at h
    · rename_i hat
      obtain rfl := Option.some.inj h
      exact .inr (.getDisplay hat)
    · cases h

end Steps

/-! ### All interleavings -/

/-- What holds in all interleavings: no server is left between the stop and the new start, and the
runtime directory is known from `setDir` on. -/
structure SessionInv (s : Session) : Prop where
  stopped : s.starter.Before ∨ s.starter = .nativeStart → s.stopper ≠ .nativeStop → s.server = none
  dir : s.starter.Before ∨ s.starter = .thrown ∨ s.runtimeDir = true

section Inv

variable {s t : Session} {e : RestartEvent}

theorem sessionInv_of_initial (h : s.Initial) : SessionInv s := by
  obtain ⟨before, _, hcheck, rfl⟩ := h
  refine ⟨fun _ hstop => absurd rfl hstop, .inl ?_⟩
  show before.starter.Before
  rw [hcheck]
  trivial

theorem SessionInv.known (h : SessionInv s) (hbefore : ¬ s.starter.Before)
    (hthrown : s.starter ≠ .thrown) : s.runtimeDir = true := by
  rcases h.dir with hdir | hdir | hdir
  · exact absurd hdir hbefore
  · exact absurd hdir hthrown
  · exact hdir

theorem SessionInv.next (h : SessionInv s) (hnext : s.next e = some t) : SessionInv t := by
  rcases session_step_cases hnext with hmoves | hmoves
  · obtain ⟨hstarter, hdir, _, _, _, hnone, _⟩ := hmoves.frame
    refine ⟨fun hbefore _ => ?_, ?_⟩
    · rw [hstarter] at hbefore
      by_cases hstop : s.stopper = .nativeStop
      · exact hnone (.inr hstop)
      · exact hnone (.inl (h.stopped hbefore hstop))
    · rw [hstarter, hdir]
      exact h.dir
  · cases hmoves with
    | thrown hat =>
      refine ⟨fun hbefore => ?_, .inr (.inl hat)⟩
      rw [hat] at hbefore
      exact (hbefore.elim id Starter.noConfusion).elim
    | early hbefore hbefore' hstopper hserver =>
      refine ⟨fun _ hstop => ?_, .inl hbefore'⟩
      rw [hstopper] at hstop
      exact hserver.trans (h.stopped (.inl hbefore) hstop)
    | setDir hat =>
      refine ⟨fun _ hstop => h.stopped (.inl ?_) hstop, .inr (.inr rfl)⟩
      rw [hat]
      trivial
    | nativeStart hat =>
      refine ⟨fun hbefore => (hbefore.elim id Starter.noConfusion).elim, .inr (.inr ?_)⟩
      rename_i created
      have hknown := h.known (by rw [hat]; exact id) (by rw [hat]; exact Starter.noConfusion)
      show (s.nativeStartCompositor created).runtimeDir = true
      unfold Session.nativeStartCompositor
      split <;> exact hknown
    | getSocketName hat | setRunning hat | setPath hat | getDisplay hat =>
      refine ⟨fun hbefore => (hbefore.elim id Starter.noConfusion).elim, .inr (.inr ?_)⟩
      exact h.known (by rw [hat]; exact id) (by rw [hat]; exact Starter.noConfusion)

end Inv

/-! ### Guarded steps -/

/-- What guarded steps have achieved. -/
def RestartInv (s : Session) : Prop :=
  match s.starter with
  | .getSocketName => s.server = none ∨ s.Up
  | .setRunning _ => s.Up
  | .setPath _ => s.Up ∧ s.stopper = .done ∧ s.state = .running
  | .getDisplay | .returned =>
      s.Up ∧ s.stopper = .done ∧ s.state = .running ∧ s.socketPath ≠ none
  | .check | .clearRequest | .setStarting | .prepare | .listStale | .deleteStale _ | .setDir
  | .nativeStart | .thrown => True

section Guarded

variable {s t : Session} {e : RestartEvent}

theorem RestartInv.keepsRunning (h : RestartInv s) : KeepsRunning s := by
  intro hreturned
  unfold RestartInv at h
  rw [hreturned] at h
  obtain ⟨⟨name, hserves, _⟩, _, hstate, hpath⟩ := h
  exact ⟨hstate, hpath, name, hserves⟩

theorem restartInv_of_before (h : s.starter.Before) : RestartInv s := by
  unfold RestartInv
  cases hat : s.starter with
  | getSocketName | setRunning | setPath | getDisplay | returned =>
    rw [hat] at h
    exact h.elim
  | check | clearRequest | setStarting | prepare | listStale | deleteStale | setDir
  | nativeStart | thrown => trivial

theorem RestartInv.stopMoves (h : RestartInv s) (hmoves : StopMoves s t) : RestartInv t := by
  obtain ⟨hstarter, _, hnotDone, _, _, hnone, _⟩ := hmoves.frame
  unfold RestartInv at h ⊢
  rw [hstarter]
  cases hat : s.starter with
  | getSocketName =>
    rw [hat] at h
    rcases h with h | h
    · exact .inl (hnone (.inl h))
    · exact .inr (h.stopMoves hmoves)
  | setRunning name =>
    rw [hat] at h
    exact h.stopMoves hmoves
  | setPath name | getDisplay | returned =>
    -- the stop thread has nothing left to do
    rw [hat] at h
    exact absurd h.2.1 hnotDone
  | check | clearRequest | setStarting | prepare | listStale | deleteStale | setDir
  | nativeStart | thrown => trivial

/-- With the old server gone, the new one comes up behind the stop thread. -/
theorem restartInv_nativeStart {created : Option ℕ} (hserver : s.server = none)
    (hspares : s.stopper.Spares created) :
    RestartInv { s.nativeStartCompositor created with starter := .getSocketName } := by
  show (s.nativeStartCompositor created).server = none ∨ Session.Up _
  unfold Session.nativeStartCompositor
  cases created with
  | none =>
    rw [hserver]
    exact .inl hserver
  | some name =>
    rw [hserver]
    exact .inr ⟨name, ⟨rfl, by simp, by simp⟩, hspares⟩

/-- A guarded step keeps the invariant. -/
theorem RestartInv.next (hinv : SessionInv s) (h : RestartInv s) (hnext : s.next e = some t)
    (hguard : StopFirst s e) : RestartInv t := by
  rcases session_step_cases hnext with hmoves | hmoves
  · exact h.stopMoves hmoves
  unfold RestartInv at h
  cases hmoves with
  | thrown hat =>
    unfold RestartInv
    rw [hat]
    trivial
  | early _ hbefore => exact restartInv_of_before hbefore
  | setDir => trivial
  | nativeStart hat =>
    have hserver : s.server = none := by
      refine hinv.stopped (.inr hat) fun hstop => ?_
      unfold StopFirst at hguard
      rw [hstop] at hguard
      exact hguard
    exact restartInv_nativeStart hserver hguard
  | getSocketName hat hserver =>
    rw [hat] at h
    rcases h with h | h
    · rw [hserver] at h
      cases h
    · exact h
  | setRunning hat =>
    rw [hat] at h
    exact ⟨h, hguard _ hat, rfl⟩
  | setPath hat =>
    rw [hat] at h
    exact ⟨h.1, h.2.1, h.2.2, Option.some_ne_none _⟩
  | getDisplay hat =>
    rw [hat] at h
    exact h

end Guarded

/-! ### Unguarded steps -/

/-- What an unguarded step leaves behind. -/
def RestartDamage (s : Session) : Prop :=
  match s.starter with
  | .getSocketName | .setRunning _ => s.Doomed
  | .setPath _ | .getDisplay | .returned =>
      s.Doomed ∨ s.stopper ≠ .done ∨ s.state ≠ .running
  | .thrown => True
  | .check | .clearRequest | .setStarting | .prepare | .listStale | .deleteStale _ | .setDir
  | .nativeStart => False

section Unguarded

variable {s t : Session} {e : RestartEvent}

theorem not_restartDamage (hat : s.starter = .returned) (hdone : s.stopper = .done)
    (h : KeepsRunning s) : ¬ RestartDamage s := by
  obtain ⟨hstate, _, name, hserves⟩ := h hat
  unfold RestartDamage
  rw [hat]
  rintro (hdoomed | hstop | hnot)
  · exact hdoomed.not_serves hdone name hserves
  · exact hstop hdone
  · exact hnot hstate

theorem RestartDamage.not_before (h : RestartDamage s) :
    ¬ s.starter.Before ∧ s.starter ≠ .nativeStart := by
  unfold RestartDamage at h
  cases hat : s.starter with
  | check | clearRequest | setStarting | prepare | listStale | deleteStale | setDir
  | nativeStart =>
    rw [hat] at h
    exact h.elim
  | getSocketName | setRunning | setPath | getDisplay | returned | thrown =>
    exact ⟨id, Starter.noConfusion⟩

theorem RestartDamage.stopMoves (hinv : SessionInv s) (h : RestartDamage s)
    (hmoves : StopMoves s t) : RestartDamage t := by
  obtain ⟨hstarter, _, _, hstate, _, _, _⟩ := hmoves.frame
  have hlate : ∀ hdoomed : s.Doomed, s.starter ≠ .thrown → t.Doomed := fun hdoomed hthrown =>
    hdoomed.stopMoves (hinv.known h.not_before.1 hthrown) hmoves
  have hstop : t.stopper ≠ .done ∨ t.state ≠ .running := by
    by_cases hdone : t.stopper = .done
    · exact .inr (by rw [hstate hdone]; exact CompositorState.noConfusion)
    · exact .inl hdone
  unfold RestartDamage at h ⊢
  rw [hstarter]
  cases hat : s.starter with
  | getSocketName | setRunning =>
    rw [hat] at h
    exact hlate h (by rw [hat]; exact Starter.noConfusion)
  | setPath | getDisplay | returned => exact .inr hstop
  | thrown => trivial
  | check | clearRequest | setStarting | prepare | listStale | deleteStale | setDir
  | nativeStart =>
    rw [hat] at h
    exact h

/-- Damage lasts. -/
theorem RestartDamage.next (hinv : SessionInv s) (h : RestartDamage s)
    (hnext : s.next e = some t) : RestartDamage t := by
  rcases session_step_cases hnext with hmoves | hmoves
  · exact h.stopMoves hinv hmoves
  cases hmoves with
  | thrown hat =>
    unfold RestartDamage
    rw [hat]
    trivial
  | early hbefore => exact absurd hbefore h.not_before.1
  | setDir hat =>
    refine absurd ?_ h.not_before.1
    rw [hat]
    trivial
  | nativeStart hat => exact absurd hat h.not_before.2
  | getSocketName hat | setPath hat | getDisplay hat =>
    unfold RestartDamage at h
    rw [hat] at h
    exact h
  | setRunning hat =>
    unfold RestartDamage at h
    rw [hat] at h
    exact .inl h

/-- A start the stop thread is not ahead of does damage. -/
theorem restartDamage_of_not_stopFirst (hinv : SessionInv s) (hnext : s.next e = some t)
    (hguard : ¬ StopFirst s e) : RestartDamage t := by
  cases e with
  | stop | stopDelete | startDelete | prepare | getDisplay => exact absurd trivial hguard
  | start =>
    unfold StopFirst at hguard
    push Not at hguard
    obtain ⟨name, hat, hstop⟩ := hguard
    simp only [Session.next, Session.startStep, hat] at hnext
    obtain rfl := Option.some.inj hnext
    exact .inr (.inl hstop)
  | nativeStart created =>
    simp only [Session.next] at hnext
    split at hnext
    swap
    · cases hnext
    rename_i hat
    obtain rfl := Option.some.inj hnext
    show Session.Doomed _
    unfold Session.nativeStartCompositor
    split
    · exact .inr ⟨_, rfl, .inl hguard⟩
    · rename_i hserver
      cases hold : s.server with
      | none => exact .inl rfl
      | some old =>
        -- the old server is still there: the request is ignored, and the stop is still to come
        have hstop : s.stopper = .nativeStop := by
          by_contra hstop
          rw [hinv.stopped (.inr hat) hstop] at hold
          cases hold
        refine .inr ⟨old, rfl, .inl ?_⟩
        show ¬ s.stopper.Spares (some old)
        rw [hstop]
        exact id

end Unguarded

/-! ### Runs -/

/-- **Restarting the session.**  Where the stop thread is ahead of the new start, a normal return of
`start` is kept: the session is running, with a server, a socket path and the socket files.  And a
start that returns is kept only there: take any run in which `start` returns normally and the stop
thread comes to its end. -/
theorem restart_keepsRunning_iff {s : Session} {run : List (RestartEvent × Session)}
    (hinit : s.Initial) (hrun : restartSystem.Exec s run) :
    (AllSteps StopFirst s run → AllStates KeepsRunning s run) ∧
      ((lastState s run).starter = .returned → (lastState s run).stopper = .done →
        AllStates KeepsRunning s run → AllSteps StopFirst s run) := by
  have hbefore : s.starter.Before := by
    obtain ⟨before, _, hcheck, rfl⟩ := hinit
    show before.starter.Before
    rw [hcheck]
    trivial
  constructor
  · exact System.allStates_of_allSteps (S := restartSystem)
      (I := fun s => SessionInv s ∧ RestartInv s) (fun _ h => h.2.keepsRunning)
      (fun s e t h hstep hguard => ⟨h.1.next hstep, h.2.next h.1 hstep hguard⟩)
      ⟨sessionInv_of_initial hinit, restartInv_of_before hbefore⟩ hrun
  · intro hreturned hdone hall
    exact System.allSteps_of_undamaged (S := restartSystem) (fun s e t h hstep => h.next hstep)
      (fun s e t h hdamage hstep => hdamage.next h hstep)
      (fun s e t h hstep hguard => restartDamage_of_not_stopFirst h hstep hguard) hrun
      (sessionInv_of_initial hinit) (not_restartDamage hreturned hdone hall.last)

/-- A session whose server has the socket `wayland-0`, about to be stopped. -/
def servingSession : Session where
  state := .running
  stopRequested := false
  socketPath := some 0
  xwaylandDisplay := none
  runtimeDir := true
  server := some 0
  files := {.socket 0, .lock 0}
  stopper := .done
  starter := .check

theorem stopAsync_initial : servingSession.stopAsync.Initial := ⟨servingSession, rfl, rfl, rfl⟩

/-- The stop thread finishes first. -/
def startAfterStop : List RestartEvent :=
  [.stop, .stop, .stop, .stop, .stop, .stop, .start, .start, .start, .prepare true, .start, .start,
    .start, .nativeStart (some 0), .start, .start, .start, .getDisplay none]

theorem keepsRunning_startAfterStop :
    KeepsRunning (lastState servingSession.stopAsync
      (traceNext Session.next servingSession.stopAsync startAfterStop)) := by
  have hrun := System.exec_traceNext Session.Initial Session.next startAfterStop
    (s := servingSession.stopAsync)
  refine ((restart_keepsRunning_iff stopAsync_initial hrun).1 ?_).last
  exact ⟨trivial, trivial, trivial, trivial, trivial, trivial, fun _ _ => rfl, fun _ _ => rfl,
    fun _ _ => rfl, trivial, fun _ _ => rfl, fun _ _ => rfl, fun _ _ => rfl, trivial,
    fun _ _ => rfl, fun _ _ => rfl, fun _ _ => rfl, trivial, trivial⟩

/-- The whole start between the stop thread's `nativeStopCompositor` and its cleanup. -/
def startBeforeCleanup : List RestartEvent :=
  [.stop, .start, .start, .start, .prepare true, .start, .start, .start, .nativeStart (some 0),
    .start, .start, .start, .getDisplay none, .stop, .stop, .stop, .stopDelete (.socket 0),
    .stopDelete (.lock 0), .stop, .stop]

theorem startBeforeCleanup_stopped :
    ¬ ∀ (s : Session) (run : List (RestartEvent × Session)), s.Initial →
      restartSystem.Exec s run → AllStates KeepsRunning s run := by
  intro hall
  have hlast := (hall _ _ stopAsync_initial (System.exec_traceNext Session.Initial Session.next
    startBeforeCleanup)).last
  have hstate : CompositorState.stopped = .running := (hlast rfl).1
  cases hstate

end Wldroid.Compositor
