import Wldroid.Foundation.Keyed
import Wldroid.Foundation.Transition

/-!
# The output's size and that of its toplevels

The server sizes a toplevel to the output when it is first committed, and again when the output is
resized.  A client acknowledges configure events when it likes; until it does, the size the server
finds for its toplevel is an older one.

* `onToplevelCommit`, `onRequestFullscreen`, `onResizeEvent` — the code, over the scheduled, sent
  and acknowledged states that wlroots keeps for a toplevel;
* `FollowsOutput` — what a full-size toplevel has been asked to be is the size of the output;
* `followsOutput_iff_findsCurrent` — this holds in every state of a run exactly if every change of
  the size finds the full-size toplevels at the old one, or fullscreen;
* `followsOutput_of_caughtUp` — that is so if the clients have caught up before every change.
-/

namespace Wldroid.Compositor

open Wldroid.Foundation

/-! ### State -/

/-- `struct wlr_xdg_toplevel_state`: what a configure event asks for. -/
structure ToplevelState where
  size : ℤ × ℤ
  fullscreen : Bool
  maximized : Bool

/-- A `wlr_xdg_toplevel`. -/
structure SizedToplevel where
  surface : ℕ
  /-- `base->initialized`: it has been committed. -/
  initialized : Bool
  /-- What the next configure event will ask for; it stays what the last one has asked for. -/
  scheduled : ToplevelState
  /-- `base->configure_idle`: a configure event will be sent. -/
  configureIdle : Bool
  /-- The configure events sent and not acknowledged, oldest first. -/
  configures : List ToplevelState
  /-- The state that was acknowledged last before a commit. -/
  current : ToplevelState
  /-- Ghost: it was sized to the full output at its initial commit. -/
  fullSize : Bool

/-- `struct compositor_server`, as far as sizes go. -/
structure SizedServer where
  /-- The size of `output`, if there is one. -/
  output : Option (ℤ × ℤ)
  /-- `pending_width` and `pending_height`. -/
  pending : ℤ × ℤ
  /-- The bytes in `resize_pipe`. -/
  resizePipe : ℕ
  toplevels : List SizedToplevel

/-! ### Code -/

/-- `wlr_xdg_surface_schedule_configure` with another state. -/
def SizedToplevel.schedule (ct : SizedToplevel) (state : ToplevelState) : SizedToplevel :=
  { ct with scheduled := state, configureIdle := true }

/-- The configure event is sent. -/
def SizedToplevel.sendConfigure (ct : SizedToplevel) : SizedToplevel :=
  if ct.configureIdle then
    { ct with configureIdle := false, configures := ct.configures ++ [ct.scheduled] }
  else ct

/-- `xdg_surface.ack_configure` with the serial of the `n`-th of the events sent; the older ones are
gone with it. -/
def SizedToplevel.ackConfigure (ct : SizedToplevel) (n : ℕ) : SizedToplevel :=
  match ct.configures.drop n with
  | [] => ct
  | state :: rest => { ct with current := state, configures := rest }

/-- `on_toplevel_commit`. -/
def onToplevelCommit (output : Option (ℤ × ℤ)) (ct : SizedToplevel) : SizedToplevel :=
  if ct.initialized then ct
  else
    let ct := { ct with initialized := true }
    let (w, h) := output.getD (0, 0)
    if w > 0 ∧ h > 0 then
      { ct.schedule { ct.scheduled with size := (w, h), maximized := true } with fullSize := true }
    else ct

/-- A commit of the client, with the acknowledgement that may go with it. -/
def SizedToplevel.commit (output : Option (ℤ × ℤ)) (ack : Option ℕ) (ct : SizedToplevel) :
    SizedToplevel :=
  onToplevelCommit output (match ack with
    | some n => ct.ackConfigure n
    | none => ct)

/-- `on_request_fullscreen`. -/
def onRequestFullscreen (output : Option (ℤ × ℤ)) (ct : SizedToplevel) : SizedToplevel :=
  if !ct.initialized then ct
  else ct.schedule { ct.scheduled with size := output.getD ct.scheduled.size, fullscreen := true }

/-- `wlr_xdg_toplevel_set_activated`: another configure event with the same size. -/
def SizedToplevel.activate (ct : SizedToplevel) : SizedToplevel := ct.schedule ct.scheduled

/-- A toplevel as `on_new_xdg_toplevel` finds it. -/
def SizedToplevel.new (surface : ℕ) : SizedToplevel where
  surface := surface
  initialized := false
  scheduled := ⟨(0, 0), false, false⟩
  configureIdle := false
  configures := []
  current := ⟨(0, 0), false, false⟩
  fullSize := false

/-- The toplevels `on_resize_event` takes for sized to the full output. -/
def SizedToplevel.fills (ct : SizedToplevel) (old : ℤ × ℤ) : Bool :=
  ct.current.fullscreen || ct.current.size = old

/-- What `on_resize_event` does to a toplevel. -/
def SizedToplevel.resize (old new : ℤ × ℤ) (ct : SizedToplevel) : SizedToplevel :=
  if ct.fills old then ct.schedule { ct.scheduled with size := new } else ct

/-- `compositor_server_resize_output`. -/
def SizedServer.resizeOutput (s : SizedServer) (size : ℤ × ℤ) : SizedServer :=
  { s with pending := size, resizePipe := s.resizePipe + 1 }

/-- `on_resize_event`; the output may not accept the mode, which is not looked at. -/
def onResizeEvent (s : SizedServer) (accepted : Bool) : SizedServer :=
  let s := { s with resizePipe := 0 }
  match s.output with
  | none => s
  | some old =>
      if s.pending.1 ≤ 0 ∨ s.pending.2 ≤ 0 then s
      else
        { s with
          output := some (if accepted then s.pending else old)
          toplevels := s.toplevels.map (SizedToplevel.resize old s.pending) }

/-- Change the toplevel of a surface. -/
def SizedServer.updateToplevel (s : SizedServer) (surface : ℕ) (f : SizedToplevel → SizedToplevel) :
    SizedServer :=
  { s with toplevels := update SizedToplevel.surface surface f s.toplevels }

/-! ### Runs -/

/-- What can happen. -/
inductive SizeEvent where
  | newOutput (size : ℤ × ℤ)
  | newToplevel (surface : ℕ)
  | commit (surface : ℕ) (ack : Option ℕ)
  | requestFullscreen (surface : ℕ)
  | activate (surface : ℕ)
  | sendConfigure (surface : ℕ)
  | destroy (surface : ℕ)
  | resizeOutput (size : ℤ × ℤ)
  | resizeEvent (accepted : Bool)

/-- The next state. -/
def SizedServer.next (s : SizedServer) : SizeEvent → Option SizedServer
  | .newOutput size => if s.output.isNone then some { s with output := some size } else none
  | .newToplevel surface => some { s with toplevels := .new surface :: s.toplevels }
  | .commit surface ack => some (s.updateToplevel surface (SizedToplevel.commit s.output ack))
  | .requestFullscreen surface => some (s.updateToplevel surface (onRequestFullscreen s.output))
  | .activate surface => some (s.updateToplevel surface SizedToplevel.activate)
  | .sendConfigure surface => some (s.updateToplevel surface SizedToplevel.sendConfigure)
  | .destroy surface =>
      some { s with toplevels := remove SizedToplevel.surface surface s.toplevels }
  | .resizeOutput size => some (s.resizeOutput size)
  | .resizeEvent accepted => if 0 < s.resizePipe then some (onResizeEvent s accepted) else none

/-- The server has no toplevels yet. -/
def SizedServer.Initial (s : SizedServer) : Prop := s.toplevels = []

/-- All runs. -/
def sizeSystem : System SizedServer SizeEvent := System.ofNext SizedServer.Initial SizedServer.next

/-! ### Following the output -/

/-- Every full-size toplevel has been asked last to have the size of the output. -/
def FollowsOutput (s : SizedServer) : Prop :=
  ∀ ct ∈ s.toplevels, ct.fullSize = true → s.output = some ct.scheduled.size

/-- A change of the size finds every full-size toplevel fullscreen, or with the old size
acknowledged; one that the output does not accept finds none so. -/
def FindsCurrent (s : SizedServer) : SizeEvent → Prop
  | .resizeEvent accepted => ∀ old, s.output = some old → 0 < s.pending.1 → 0 < s.pending.2 →
      ∀ ct ∈ s.toplevels, ct.fullSize = true → s.pending = old ∨ ct.fills old = accepted
  | _ => True

section Steps

variable {s t : SizedServer}

/-- A change of one toplevel that keeps it full-size at most with the size of the output. -/
theorem FollowsOutput.updateToplevel (h : FollowsOutput s) (surface : ℕ)
    {f : SizedToplevel → SizedToplevel}
    (hf : ∀ ct : SizedToplevel, (f ct).fullSize = true →
      s.output = some (f ct).scheduled.size ∨
        ct.fullSize = true ∧ (s.output = some ct.scheduled.size →
          s.output = some (f ct).scheduled.size)) : FollowsOutput (s.updateToplevel surface f) := by
  intro ct hct hfull
  obtain ⟨old, hold, rfl⟩ := List.mem_map.mp hct
  split at hfull
  · rename_i hsurface
    rw [if_pos hsurface]
    rcases hf old hfull with houtput | ⟨hwas, hkeeps⟩
    · exact houtput
    · exact hkeeps (h old hold hwas)
  · rename_i hsurface
    rw [if_neg hsurface]
    exact h old hold hfull

theorem ackConfigure_frame (ct : SizedToplevel) (n : ℕ) :
    (ct.ackConfigure n).scheduled = ct.scheduled ∧ (ct.ackConfigure n).fullSize = ct.fullSize ∧
      (ct.ackConfigure n).configureIdle = ct.configureIdle := by
  unfold SizedToplevel.ackConfigure
  split <;> exact ⟨rfl, rfl, rfl⟩

/-- Either the commit changes nothing that matters here, or it has sized the toplevel to the
output. -/
theorem onToplevelCommit_cases (output : Option (ℤ × ℤ)) (ct : SizedToplevel) :
    onToplevelCommit output ct = { ct with initialized := true } ∨
      output = some (onToplevelCommit output ct).scheduled.size ∧
        (onToplevelCommit output ct).configureIdle = true := by
  unfold onToplevelCommit
  split
  · rename_i hinitialized
    exact .inl (by rw [← hinitialized])
  · simp only
    split
    · rename_i hpositive
      cases output with
      | none => exact absurd hpositive.1 (lt_irrefl _)
      | some size => exact .inr ⟨rfl, rfl⟩
    · exact .inl rfl

theorem FollowsOutput.commit (h : FollowsOutput s) (surface : ℕ) (ack : Option ℕ) :
    FollowsOutput (s.updateToplevel surface (SizedToplevel.commit s.output ack)) := by
  refine h.updateToplevel surface fun ct hfull => ?_
  have hack : ∀ acked : SizedToplevel, acked.scheduled = ct.scheduled →
      acked.fullSize = ct.fullSize → (onToplevelCommit s.output acked).fullSize = true →
      s.output = some (onToplevelCommit s.output acked).scheduled.size ∨
        ct.fullSize = true ∧ (s.output = some ct.scheduled.size →
          s.output = some (onToplevelCommit s.output acked).scheduled.size) := by
    intro acked hscheduled hsame hfull
    rcases onToplevelCommit_cases s.output acked with hsimple | ⟨hsized, _⟩
    · rw [hsimple] at hfull ⊢
      right
      rw [← hsame, ← hscheduled]
      exact ⟨hfull, id⟩
    · exact .inl hsized
  cases ack with
  | none => exact hack ct rfl rfl hfull
  | some n =>
    obtain ⟨hscheduled, hsame, _⟩ := ackConfigure_frame ct n
    exact hack _ hscheduled hsame hfull

theorem FollowsOutput.requestFullscreen (h : FollowsOutput s) (surface : ℕ) :
    FollowsOutput (s.updateToplevel surface (onRequestFullscreen s.output)) := by
  refine h.updateToplevel surface fun ct hfull => .inr ?_
  unfold onRequestFullscreen at hfull ⊢
  split at hfull
  · rename_i hinitialized
    rw [if_pos hinitialized]
    exact ⟨hfull, id⟩
  · rename_i hinitialized
    rw [if_neg hinitialized]
    refine ⟨hfull, fun houtput => ?_⟩
    show s.output = some (s.output.getD ct.scheduled.size)
    rw [houtput]
    rfl

theorem sendConfigure_frame (ct : SizedToplevel) :
    ct.sendConfigure.scheduled = ct.scheduled ∧ ct.sendConfigure.fullSize = ct.fullSize := by
  unfold SizedToplevel.sendConfigure
  split <;> exact ⟨rfl, rfl⟩

/-- A resize event makes all full-size toplevels follow exactly if it finds them at its old size. -/
theorem followsOutput_onResizeEvent_iff (h : FollowsOutput s) (accepted : Bool) :
    FollowsOutput (onResizeEvent s accepted) ↔ FindsCurrent s (.resizeEvent accepted) := by
  unfold onResizeEvent
  simp only
  split
  · rename_i hnone
    refine iff_of_true h fun old hold => ?_
    rw [hnone] at hold
    cases hold
  · rename_i old hold
    split
    · rename_i hpending
      refine iff_of_true h fun _ _ hwidth hheight => ?_
      omega
    · rename_i hpending
      have hasked : ∀ ct ∈ s.toplevels, ct.fullSize = true → ct.scheduled.size = old :=
        fun ct hct hfull => Option.some.inj ((h ct hct hfull).symm.trans hold)
      have hone : ∀ ct ∈ s.toplevels, ct.fullSize = true →
          (some (if accepted then s.pending else old) =
              some (ct.resize old s.pending).scheduled.size ↔
            s.pending = old ∨ ct.fills old = accepted) := by
        intro ct hct hfull
        have hsize : (ct.resize old s.pending).scheduled.size =
            if ct.fills old then s.pending else old := by
          unfold SizedToplevel.resize
          split
          · rfl
          · exact hasked ct hct hfull
        rw [hsize, Option.some.injEq]
        cases accepted <;> cases ct.fills old <;> simp [eq_comm]
      have hfull : ∀ ct : SizedToplevel, (ct.resize old s.pending).fullSize = ct.fullSize := by
        intro ct
        unfold SizedToplevel.resize
        split <;> rfl
      constructor
      · intro ht old' hold' _ _ ct hct hct'
        obtain rfl : old = old' := Option.some.inj (hold.symm.trans hold')
        exact (hone ct hct hct').mp
          (ht _ (List.mem_map_of_mem hct) ((hfull ct).trans hct'))
      · intro hcurrent ct hct hct'
        obtain ⟨before, hbefore, rfl⟩ := List.mem_map.mp hct
        rw [hfull] at hct'
        exact (hone before hbefore hct').mpr
          (hcurrent old hold (by omega) (by omega) before hbefore hct')

/-- **Every step** keeps all full-size toplevels following the output exactly if a change of the
size finds them at the old one. -/
theorem followsOutput_next_iff (h : FollowsOutput s) {e : SizeEvent} (hnext : s.next e = some t) :
    FollowsOutput t ↔ FindsCurrent s e := by
  cases e with
  | newOutput size =>
    simp only [SizedServer.next] at hnext
    split at hnext <;> cases hnext
    rename_i hnone
    refine iff_of_true (fun ct hct hfull => ?_) trivial
    -- without an output there is no full-size toplevel
    rw [h ct hct hfull] at hnone
    cases hnone
  | newToplevel surface =>
    cases hnext
    refine iff_of_true (fun ct hct hfull => ?_) trivial
    rcases List.mem_cons.mp hct with rfl | hct
    · cases hfull
    · exact h ct hct hfull
  | commit surface ack =>
    cases hnext
    exact iff_of_true (h.commit surface ack) trivial
  | requestFullscreen surface =>
    cases hnext
    exact iff_of_true (h.requestFullscreen surface) trivial
  | activate surface =>
    cases hnext
    exact iff_of_true (h.updateToplevel surface fun ct hfull => .inr ⟨hfull, id⟩) trivial
  | sendConfigure surface =>
    cases hnext
    refine iff_of_true (h.updateToplevel surface fun ct hfull => .inr ?_) trivial
    obtain ⟨hscheduled, hsame⟩ := sendConfigure_frame ct
    rw [hscheduled]
    exact ⟨hsame ▸ hfull, id⟩
  | destroy surface =>
    cases hnext
    exact iff_of_true (fun ct hct hfull => h ct (List.mem_of_mem_filter hct) hfull) trivial
  | resizeOutput size =>
    cases hnext
    exact iff_of_true h trivial
  | resizeEvent accepted =>
    simp only [SizedServer.next] at hnext
    split at hnext <;> cases hnext
    exact followsOutput_onResizeEvent_iff h accepted

end Steps

/-- **Full-size toplevels follow the output** in every state of a run exactly if every change of its
size finds them at the old one. -/
theorem followsOutput_iff_findsCurrent {s : SizedServer} {run : List (SizeEvent × SizedServer)}
    (hinit : s.Initial) (hrun : sizeSystem.Exec s run) :
    AllStates FollowsOutput s run ↔ AllSteps FindsCurrent s run := by
  have hstart : FollowsOutput s := by
    intro ct hct
    rw [show s.toplevels = [] from hinit] at hct
    cases hct
  refine System.allStates_iff_allSteps (S := sizeSystem) (fun _ h => h) ?_ ?_ hstart hrun
  · intro s e t h hstep hguard
    exact (followsOutput_next_iff h hstep).mpr hguard
  · intro s e t h hstep hguard ht
    exact hguard ((followsOutput_next_iff h hstep).mp ht)

/-! ### Clients that catch up -/

/-- What has been sent last is what is scheduled, unless it will be sent yet. -/
def SizedToplevel.LastSent (ct : SizedToplevel) : Prop :=
  ct.configureIdle = false → ct.configures.getLast?.getD ct.current = ct.scheduled

/-- The client has acknowledged all there is. -/
def SizedToplevel.CaughtUp (ct : SizedToplevel) : Prop :=
  ct.configureIdle = false ∧ ct.configures = []

/-- The output accepts every new mode, and no change of the size comes before the clients have
caught up with the one before. -/
def WaitsForClients (s : SizedServer) : SizeEvent → Prop
  | .resizeEvent accepted =>
      accepted = true ∧ ∀ ct ∈ s.toplevels, ct.fullSize = true → ct.CaughtUp
  | _ => True

section CatchingUp

variable {s t : SizedServer} {ct : SizedToplevel}

theorem SizedToplevel.CaughtUp.current (h : ct.CaughtUp) (hsent : ct.LastSent) :
    ct.current = ct.scheduled := by
  have hlast := hsent h.1
  rwa [h.2] at hlast

theorem SizedToplevel.LastSent.ackConfigure (h : ct.LastSent) (n : ℕ) :
    (ct.ackConfigure n).LastSent := by
  intro hidle
  obtain ⟨hscheduled, _, hsame⟩ := ackConfigure_frame ct n
  have hlast := h (hsame ▸ hidle)
  rw [hscheduled, ← hlast]
  unfold SizedToplevel.ackConfigure
  split
  · rfl
  · rename_i state rest hdrop
    -- the last event is among those from the `n`-th on
    have hsplit : ct.configures.getLast? = (state :: rest).getLast? := by
      rw [← List.take_append_drop n ct.configures, hdrop, List.getLast?_append_cons]
    rw [hsplit, List.getLast?_cons]
    rfl

theorem SizedToplevel.LastSent.sendConfigure (h : ct.LastSent) : ct.sendConfigure.LastSent := by
  intro hidle
  unfold SizedToplevel.sendConfigure at hidle ⊢
  split
  · simp
  · rename_i hnone
    rw [if_neg hnone] at hidle
    exact h hidle

theorem SizedToplevel.lastSent_schedule (ct : SizedToplevel) (state : ToplevelState) :
    (ct.schedule state).LastSent := fun hidle => by cases hidle

theorem SizedToplevel.LastSent.commit (h : ct.LastSent) (output : Option (ℤ × ℤ))
    (ack : Option ℕ) : (ct.commit output ack).LastSent := by
  have hafter : ∀ acked : SizedToplevel,
      acked.LastSent → (onToplevelCommit output acked).LastSent := by
    intro acked hsent
    rcases onToplevelCommit_cases output acked with hsimple | ⟨_, hsized⟩
    · rw [hsimple]
      exact hsent
    · intro hidle
      rw [hsized] at hidle
      cases hidle
  cases ack with
  | none => exact hafter ct h
  | some n => exact hafter _ (h.ackConfigure n)

theorem SizedToplevel.LastSent.requestFullscreen (h : ct.LastSent) (output : Option (ℤ × ℤ)) :
    (onRequestFullscreen output ct).LastSent := by
  unfold onRequestFullscreen
  split
  · exact h
  · exact ct.lastSent_schedule _

theorem SizedToplevel.LastSent.resize (h : ct.LastSent) (old new : ℤ × ℤ) :
    (ct.resize old new).LastSent := by
  unfold SizedToplevel.resize
  split
  · exact ct.lastSent_schedule _
  · exact h

theorem lastSent_updateToplevel (h : ∀ ct ∈ s.toplevels, ct.LastSent) (surface : ℕ)
    {f : SizedToplevel → SizedToplevel} (hf : ∀ ct : SizedToplevel, ct.LastSent → (f ct).LastSent) :
    ∀ ct ∈ (s.updateToplevel surface f).toplevels, ct.LastSent := by
  intro ct hct
  obtain ⟨old, hold, rfl⟩ := List.mem_map.mp hct
  split
  · exact hf old (h old hold)
  · exact h old hold

theorem lastSent_next (h : ∀ ct ∈ s.toplevels, ct.LastSent) {e : SizeEvent}
    (hnext : s.next e = some t) : ∀ ct ∈ t.toplevels, ct.LastSent := by
  cases e with
  | newOutput size =>
    simp only [SizedServer.next] at hnext
    split at hnext <;> cases hnext
    exact h
  | newToplevel surface =>
    cases hnext
    intro ct hct
    rcases List.mem_cons.mp hct with rfl | hct
    · exact fun _ => rfl
    · exact h ct hct
  | commit surface ack =>
    cases hnext
    exact lastSent_updateToplevel h surface fun ct hct => hct.commit s.output ack
  | requestFullscreen surface =>
    cases hnext
    exact lastSent_updateToplevel h surface fun ct hct => hct.requestFullscreen s.output
  | activate surface =>
    cases hnext
    exact lastSent_updateToplevel h surface fun ct _ => ct.lastSent_schedule _
  | sendConfigure surface =>
    cases hnext
    exact lastSent_updateToplevel h surface fun ct hct => hct.sendConfigure
  | destroy surface =>
    cases hnext
    exact fun ct hct => h ct (List.mem_of_mem_filter hct)
  | resizeOutput size =>
    cases hnext
    exact h
  | resizeEvent accepted =>
    simp only [SizedServer.next] at hnext
    split at hnext <;> cases hnext
    unfold onResizeEvent
    simp only
    split
    · exact h
    · split
      · exact h
      · intro ct hct
        obtain ⟨before, hbefore, rfl⟩ := List.mem_map.mp hct
        exact (h before hbefore).resize _ _

/-- A toplevel whose client has caught up has the size of the output. -/
theorem WaitsForClients.findsCurrent (h : FollowsOutput s) (hsent : ∀ ct ∈ s.toplevels, ct.LastSent)
    {e : SizeEvent} (hwaits : WaitsForClients s e) : FindsCurrent s e := by
  cases e with
  | resizeEvent accepted =>
    obtain ⟨rfl, hcaught⟩ := hwaits
    intro old hold _ _ ct hct hfull
    right
    have hcurrent := (hcaught ct hct hfull).current (hsent ct hct)
    have hsize : ct.scheduled.size = old := Option.some.inj ((h ct hct hfull).symm.trans hold)
    simp [SizedToplevel.fills, hcurrent, hsize]
  | _ => trivial

end CatchingUp

/-- **Clients that catch up** with every change of the size before the next one keep the size of the
output. -/
theorem followsOutput_of_caughtUp {s : SizedServer} {run : List (SizeEvent × SizedServer)}
    (hinit : s.Initial) (hrun : sizeSystem.Exec s run) (hwaits : AllSteps WaitsForClients s run) :
    AllStates FollowsOutput s run := by
  have hnone : s.toplevels = [] := hinit
  refine System.allStates_of_allSteps (S := sizeSystem)
    (I := fun s => FollowsOutput s ∧ ∀ ct ∈ s.toplevels, ct.LastSent) (fun _ h => h.1) ?_
    ⟨fun ct hct => ?_, fun ct hct => ?_⟩ hrun hwaits
  · intro s e t h hstep hguard
    exact ⟨(followsOutput_next_iff h.1 hstep).mpr (hguard.findsCurrent h.1 h.2),
      lastSent_next h.2 hstep⟩
  · rw [hnone] at hct
    cases hct
  · rw [hnone] at hct
    cases hct

/-! ### A rotation -/

/-- A server with an upright output. -/
def portraitServer : SizedServer := ⟨some (1080, 2400), (0, 0), 0, []⟩

/-- A client that draws at the size of the output. -/
def openWindow : List SizeEvent :=
  [.newToplevel 1, .commit 1 none, .sendConfigure 1, .commit 1 (some 0)]

def rotate : List SizeEvent :=
  [.resizeOutput (2400, 1080), .resizeEvent true, .sendConfigure 1]

/-- It commits the new size before the screen turns back. -/
def rotateSlowly : List SizeEvent :=
  openWindow ++ rotate ++ [.commit 1 (some 0), .resizeOutput (1080, 2400), .resizeEvent true]

theorem followsOutput_rotateSlowly :
    AllStates FollowsOutput portraitServer
      (traceNext SizedServer.next portraitServer rotateSlowly) := by
  have hinit : portraitServer.Initial := rfl
  refine (followsOutput_iff_findsCurrent hinit (System.exec_traceNext _ _ _)).mpr ?_
  refine ⟨trivial, trivial, trivial, trivial, trivial, ?_, trivial, trivial, trivial, ?_, trivial⟩
  · intro old hold _ _ ct hct _
    cases hold
    obtain rfl := List.mem_singleton.mp hct
    exact .inr rfl
  · intro old hold _ _ ct hct _
    cases hold
    obtain rfl := List.mem_singleton.mp hct
    exact .inr rfl

/-- The screen turns back before the client has committed the new size. -/
def rotateAndBack : List SizeEvent :=
  openWindow ++ rotate ++ [.resizeOutput (1080, 2400), .resizeEvent true]

/-- The toplevel is left with the size it was asked for in between. -/
theorem rotateAndBack_lost :
    ¬ ∀ (s : SizedServer) (run : List (SizeEvent × SizedServer)), s.Initial →
      sizeSystem.Exec s run → AllStates FollowsOutput s run := by
  intro hall
  have hlast := (hall portraitServer _ rfl
    (System.exec_traceNext SizedServer.Initial SizedServer.next rotateAndBack)).last
  have hsize := hlast _ (List.mem_singleton.mpr rfl) rfl
  revert hsize
  decide

end Wldroid.Compositor
