import Wldroid.Foundation.Loans
import Wldroid.Egl.Listeners

/-!
# What the compositor is sent

The wrapper lends a buffer to the compositor when it shows it, and takes it back when it is told of
its release.

* `Shared` — the wrapper and what the compositor holds;
* `sharedSystem` — all orders of swaps, resizes and releases on windows that are created and not
  destroyed;
* `EglState.requestsTo` — the requests of a step; what they are for each function.
-/

namespace Wldroid.Egl

open Wldroid.Foundation

/-! ### The compositor -/

/-- The wrapper, the buffers the compositor holds, and the releases on their way. -/
structure Shared where
  wrapper : EglState
  loans : Loans ℕ

/-- A buffer that is shown is held; one that is destroyed is forgotten. -/
def WlRequest.lend (loans : Loans ℕ) : WlRequest → Loans ℕ
  | .present _ (some buffer) => loans.lend buffer
  | .destroy proxy => loans.drop proxy
  | .present _ none | .commit _ | .ackConfigure _ => loans

/-- The requests of a step from `s` to `t`. -/
def EglState.requestsTo (s t : EglState) : List WlRequest := t.sent.drop s.sent.length

/-- The wrapper has gone on to `t`, and the compositor has its requests. -/
def Shared.after (s : Shared) (t : EglState) : Shared :=
  ⟨t, (s.wrapper.requestsTo t).foldl WlRequest.lend s.loans⟩

/-- Steps of the wrapper, releases by the compositor, and their delivery. -/
inductive SharedEvent where
  | call (e : EglEvent)
  | release (buffer : ℕ)
  | dispatch

/-- The next state.  The windows are not destroyed; releases are delivered in their order. -/
def Shared.next (s : Shared) : SharedEvent → Option Shared
  | .call (.destroySurface _) | .call (.deliver (.release _)) => none
  | .call e => (s.wrapper.next e).map s.after
  | .release buffer =>
      if s.loans.held buffer then some { s with loans := s.loans.giveBack buffer } else none
  | .dispatch =>
      match s.loans.returning with
      | [] => none
      | buffer :: _ =>
          (s.wrapper.next (.deliver (.release buffer))).map fun t => ⟨t, s.loans.notice⟩

/-- Before the first window. -/
def Shared.Initial (s : Shared) : Prop := s.wrapper.Initial ∧ s.loans = Loans.empty

def sharedSystem : System Shared SharedEvent := System.ofNext Shared.Initial Shared.next

/-- The buffers that requests show; the wrapper has written to them before. -/
def shownBuffers (requests : List WlRequest) : List ℕ :=
  requests.filterMap fun
    | .present _ buffer => buffer
    | .commit _ | .ackConfigure _ | .destroy _ => none

/-! ### Requests -/

section Requests

variable {s t u : EglState} {slot : ℕ} {loans : Loans ℕ}

theorem requestsTo_eq {requests : List WlRequest} (h : t.sent = s.sent ++ requests) :
    s.requestsTo t = requests := by
  unfold EglState.requestsTo
  rw [h, List.drop_left]

theorem shownBuffers_destroy (proxies : List ℕ) : shownBuffers (proxies.map .destroy) = [] := by
  simp [shownBuffers, List.filterMap_map]

theorem shownBuffers_append (requests requests' : List WlRequest) :
    shownBuffers (requests ++ requests') = shownBuffers requests ++ shownBuffers requests' := by
  simp [shownBuffers]

/-- A request that has nothing to do with buffers. -/
def WlRequest.IsQuiet : WlRequest → Prop
  | .commit _ | .ackConfigure _ => True
  | .present _ _ | .destroy _ => False

theorem WlRequest.IsQuiet.lend {r : WlRequest} (h : r.IsQuiet) : r.lend loans = loans := by
  cases r with
  | commit _ | ackConfigure _ => rfl
  | present _ _ | destroy _ => exact absurd h id

theorem shownBuffers_quiet {requests : List WlRequest} (h : ∀ r ∈ requests, r.IsQuiet) :
    shownBuffers requests = [] := by
  refine List.filterMap_eq_nil_iff.mpr fun r hr => ?_
  have hquiet := h r hr
  cases r with
  | commit _ | ackConfigure _ => rfl
  | present _ _ | destroy _ => exact absurd hquiet id

/-- A creation commits its surface. -/
theorem beginWindow_sent (s : EglState) (outcome : ProxiesOutcome) :
    ∃ requests, (s.beginWindow outcome).sent = s.sent ++ requests ∧
      ∀ r ∈ requests, r.IsQuiet := by
  cases outcome with
  | noSurface | noXdgSurface | noToplevel => exact ⟨[], (List.append_nil _).symm, nofun⟩
  | created =>
    refine ⟨[.commit s.fresh], rfl, fun r hr => ?_⟩
    rw [List.mem_singleton.mp hr]
    trivial

/-- An event is answered by an acknowledgement and a commit at most. -/
theorem deliver_sent (s : EglState) (e : WlEvent) :
    ∃ requests, (s.deliver e).sent = s.sent ++ requests ∧ ∀ r ∈ requests, r.IsQuiet := by
  unfold EglState.deliver
  split
  · rename_i slot _
    refine ⟨_, rfl, fun r hr => ?_⟩
    cases e with
    | surfaceConfigure proxy =>
      rcases List.mem_cons.mp hr with rfl | hcommit
      · trivial
      · obtain ⟨surface, -, rfl⟩ := List.mem_map.mp hcommit
        trivial
    | toplevelConfigure _ _ _ | release _ => cases hr
  · exact ⟨[], (List.append_nil _).symm, nofun⟩

theorem orderly_drops (proxies : List ℕ) : ∀ {loans : Loans ℕ}, loans.Orderly →
    ((proxies.map WlRequest.destroy).foldl WlRequest.lend loans).Orderly := by
  induction proxies with
  | nil => exact fun h => h
  | cons proxy rest ih => exact fun h => ih (h.drop proxy)

/-- What is out after some destructions. -/
theorem out_drops (proxies : List ℕ) {buffer : ℕ} : ∀ {loans : Loans ℕ},
    ((proxies.map WlRequest.destroy).foldl WlRequest.lend loans).Out buffer ↔
      buffer ∉ proxies ∧ loans.Out buffer := by
  induction proxies with
  | nil => simp
  | cons proxy rest ih =>
    intro loans
    rw [List.map_cons, List.foldl_cons, ih, List.mem_cons, not_or]
    show buffer ∉ rest ∧ (loans.drop proxy).Out buffer ↔ _
    rw [Loans.out_drop]
    constructor
    · exact fun ⟨hrest, hne, hout⟩ => ⟨⟨hne, hrest⟩, hout⟩
    · exact fun ⟨⟨hne, hrest⟩, hout⟩ => ⟨hrest, hne, hout⟩

/-- What has been sent in two parts. -/
theorem after_after {s : Shared} {requests requests' : List WlRequest}
    (hu : u.sent = s.wrapper.sent ++ requests) (ht : t.sent = u.sent ++ requests') :
    (s.after u).after t = s.after t := by
  have hall : t.sent = s.wrapper.sent ++ (requests ++ requests') := by
    rw [ht, hu, List.append_assoc]
  unfold Shared.after
  simp only [requestsTo_eq hu, requestsTo_eq ht, requestsTo_eq hall, List.foldl_append]

/-- A buffer of a window that has a surface is shown. -/
theorem present_sent {window : ℕ} (hwindow : (s.windows slot).wlSurface = some window) (i : Fin 2) :
    (s.present slot i).sent = s.sent ++ [.present window ((s.windows slot).wlBuffer i)] := by
  show s.sent ++ (s.windows slot).wlSurface.toList.map _ = _
  rw [hwindow]
  rfl

/-- A swap shows a buffer that is not busy, or nothing. -/
theorem pickBuffer_shows (s : EglState) (slot : ℕ) (gl : Bool) :
    s.pickBuffer slot gl = s ∨ s.pickBuffer slot gl = { s with pc := .swapping slot } ∨
      ∃ i, (s.windows slot).bufBusy i = false ∧ s.pickBuffer slot gl = s.present slot i := by
  unfold EglState.pickBuffer
  simp only
  split
  · exact .inl rfl
  · split
    · rename_i hfree
      exact .inr (.inr ⟨_, by simpa using hfree, rfl⟩)
    · split
      · rename_i hfree
        exact .inr (.inr ⟨_, by simpa using hfree, rfl⟩)
      · exact .inr (.inl rfl)

theorem pickBuffer_sent (s : EglState) (slot : ℕ) (gl : Bool) :
    ∃ requests, (s.pickBuffer slot gl).sent = s.sent ++ requests := by
  rcases pickBuffer_shows s slot gl with hsame | hwaits | ⟨i, -, hshown⟩
  · rw [hsame]
    exact ⟨[], (List.append_nil _).symm⟩
  · rw [hwaits]
    exact ⟨[], (List.append_nil _).symm⟩
  · rw [hshown]
    exact ⟨_, rfl⟩

/-! ### Buffers -/

theorem createShmBuffers_others {other : ℕ} (hother : other ≠ slot) (outcome : BuffersOutcome) :
    (s.createShmBuffers slot outcome).1.windows other = s.windows other := by
  cases outcome <;>
    simp [EglState.createShmBuffers, EglState.newBuffer, EglState.modify, EglState.send,
      EglState.newProxy, Function.update_of_ne hother]

theorem createShmBuffers_needsResize (s : EglState) (slot : ℕ) (outcome : BuffersOutcome) :
    ((s.createShmBuffers slot outcome).1.windows slot).needsResize =
      (s.windows slot).needsResize := by
  cases outcome <;>
    simp [EglState.createShmBuffers, EglState.newBuffer, EglState.modify, EglState.send,
      EglState.newProxy]

/-- Only buffers that are new are destroyed. -/
theorem createShmBuffers_sent (s : EglState) (slot : ℕ) (outcome : BuffersOutcome) :
    ∃ proxies : List ℕ, (s.createShmBuffers slot outcome).1.sent = s.sent ++ proxies.map .destroy ∧
      ∀ proxy ∈ proxies, s.fresh ≤ proxy := by
  have hnone : s.sent = s.sent ++ ([] : List ℕ).map .destroy := (List.append_nil _).symm
  cases outcome with
  | noPool | noFirst | created => exact ⟨[], hnone, nofun⟩
  | noSecond =>
    refine ⟨[s.fresh], ?_, fun proxy hproxy => (List.mem_singleton.mp hproxy).ge⟩
    simp [EglState.createShmBuffers, EglState.newBuffer, EglState.modify, EglState.send,
      EglState.newProxy, ShmWindow.destroyBuffers]
  | noReadback =>
    refine ⟨[s.fresh, s.fresh + 1], ?_, fun proxy hproxy => ?_⟩
    · simp [EglState.createShmBuffers, EglState.newBuffer, EglState.modify, EglState.send,
        EglState.newProxy, ShmWindow.destroyBuffers]
    · rcases List.mem_cons.mp hproxy with rfl | hproxy
      · exact le_rfl
      · exact (List.mem_singleton.mp hproxy) ▸ Nat.le_succ _

/-- Two new buffers, not busy. -/
theorem createShmBuffers_created (s : EglState) (slot : ℕ) (i : Fin 2) :
    ((s.createShmBuffers slot .created).1.windows slot).wlBuffer i = some (s.fresh + i) ∧
      ((s.createShmBuffers slot .created).1.windows slot).bufBusy i = false := by
  fin_cases i <;>
    simp [EglState.createShmBuffers, EglState.newBuffer, EglState.modify, EglState.newProxy]

/-- The window without its buffers and its pbuffer, as a resize has it before it asks for new
ones. -/
def EglState.tornDown (s : EglState) (slot : ℕ) : EglState :=
  (s.destroyShmBuffers slot).withPbuffer slot 0
    (s.surfaces.filter fun surface =>
      surface ≠ ((s.destroyShmBuffers slot).windows slot).pbufferSurface)

theorem tornDown_others {other : ℕ} (hother : other ≠ slot) :
    (s.tornDown slot).windows other = s.windows other := by
  unfold EglState.tornDown
  rw [withPbuffer_windows_other _ hother]
  exact Function.update_of_ne hother _ _

theorem tornDown_needsResize (s : EglState) (slot : ℕ) :
    ((s.tornDown slot).windows slot).needsResize = (s.windows slot).needsResize := by
  unfold EglState.tornDown
  rw [withPbuffer_windows_self]
  have hself : (s.destroyShmBuffers slot).windows slot =
      { s.windows slot with wlBuffer := fun _ => none, memory := none } := Function.update_self _ _ _
  have hresize := congrArg ShmWindow.needsResize hself
  exact hresize

/-- A resize is a creation of buffers, and goes on from there if it succeeds. -/
theorem handleShmResize_eq (s : EglState) (slot : ℕ) (outcome : ResizeOutcome) :
    ((s.handleShmResize slot outcome).2 = false ∧ (s.handleShmResize slot outcome).1 =
        ((s.tornDown slot).createShmBuffers slot outcome.buffers).1) ∨
      ∃ surface, (s.handleShmResize slot outcome).2 = true ∧ outcome.buffers = .created ∧
        (s.handleShmResize slot outcome).1 =
          { ((s.tornDown slot).createShmBuffers slot .created).1.modify slot fun win =>
              { win with
                pbufferSurface := surface
                width := (s.windows slot).pendingWidth
                height := (s.windows slot).pendingHeight
                needsResize := false } with
            surfaces := surface ::
              ((s.tornDown slot).createShmBuffers slot .created).1.surfaces } := by
  obtain ⟨buffers, pbuffer⟩ := outcome
  cases buffers with
  | noPool | noFirst | noSecond | noReadback => exact .inl ⟨rfl, rfl⟩
  | created =>
    cases pbuffer with
    | none => exact .inl ⟨rfl, rfl⟩
    | some surface => exact .inr ⟨surface, rfl, rfl, rfl⟩

theorem handleShmResize_others {other : ℕ} (hother : other ≠ slot) (outcome : ResizeOutcome) :
    (s.handleShmResize slot outcome).1.windows other = s.windows other := by
  rcases handleShmResize_eq s slot outcome with ⟨-, heq⟩ | ⟨surface, -, -, heq⟩
  · rw [heq, createShmBuffers_others hother, tornDown_others hother]
  · rw [heq]
    refine (Function.update_of_ne hother _ _).trans ?_
    rw [createShmBuffers_others hother, tornDown_others hother]

/-- A resize destroys the buffers the window has had, and perhaps new ones. -/
theorem handleShmResize_sent (s : EglState) (slot : ℕ) (outcome : ResizeOutcome) :
    ∃ proxies : List ℕ, (s.handleShmResize slot outcome).1.sent = s.sent ++ proxies.map .destroy ∧
      ∀ proxy ∈ proxies,
        (∃ i, (s.windows slot).wlBuffer i = some proxy) ∨ s.fresh ≤ proxy := by
  obtain ⟨created, hcreated, hnew⟩ := createShmBuffers_sent (s.tornDown slot) slot outcome.buffers
  have hold : (s.tornDown slot).sent =
      s.sent ++ (((s.windows slot).wlBuffer 0).toList ++
        ((s.windows slot).wlBuffer 1).toList).map .destroy := rfl
  refine ⟨((s.windows slot).wlBuffer 0).toList ++ ((s.windows slot).wlBuffer 1).toList ++ created,
    ?_, fun proxy hproxy => ?_⟩
  · rw [List.map_append, ← List.append_assoc, ← hold, ← hcreated]
    rcases handleShmResize_eq s slot outcome with ⟨-, heq⟩ | ⟨surface, -, hbuffers, heq⟩
    · rw [heq]
    · rw [heq, hbuffers]
      rfl
  · rcases List.mem_append.mp hproxy with hproxy | hproxy
    · rcases List.mem_append.mp hproxy with hproxy | hproxy
      · exact .inl ⟨0, Option.mem_toList.mp hproxy⟩
      · exact .inl ⟨1, Option.mem_toList.mp hproxy⟩
    · exact .inr (hnew proxy hproxy)

end Requests

end Wldroid.Egl
