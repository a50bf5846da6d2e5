import Wldroid.Egl.BufferRequests

/-!
# Buffers that are out

The busy flags of a window tell which of its buffers the compositor holds or is giving back.

* `Tracks` — they do, for one window; `SharedInv` — for all windows that are not to be resized
  first;
* `StepAt` — a step at one slot, and `SharedInv.stepAt` — what it has to keep there;
* a lemma for each call: what it shows is not out.
-/

namespace Wldroid.Egl

open Wldroid.Foundation

/-! ### The invariant -/

/-- The flags of a window tell which of its buffers are out. -/
structure Tracks (win : ShmWindow) (loans : Loans ℕ) : Prop where
  apart : win.wlBuffer 0 ≠ win.wlBuffer 1
  busy : ∀ i, ∃ buffer, win.wlBuffer i = some buffer ∧ (win.bufBusy i = true ↔ loans.Out buffer)

/-- The buffers a window points to are its own. -/
def EglState.OwnBuffers (s : EglState) (slot : ℕ) : Prop :=
  ∀ i buffer, (s.windows slot).wlBuffer i = some buffer →
    buffer < s.fresh ∧ s.listener buffer = some (.wlBuffer slot)

/-- The window is resized before its buffers are used again. -/
def EglState.AwaitsResize (s : EglState) (slot : ℕ) : Prop :=
  (s.windows slot).needsResize = true ∧ s.pc ≠ .swapping slot

structure SharedInv (s : Shared) : Prop where
  table : EglInv s.wrapper
  orderly : s.loans.Orderly
  known : ∀ buffer, s.loans.Out buffer → buffer < s.wrapper.fresh ∧
    ∃ slot, s.wrapper.listener buffer = some (.wlBuffer slot)
  own : ∀ slot, s.wrapper.InUse slot → s.wrapper.OwnBuffers slot
  tracked : ∀ slot < s.wrapper.count,
    s.wrapper.AwaitsResize slot ∨ Tracks (s.wrapper.windows slot) s.loans

/-- A step at one slot, that lends and forgets buffers of that slot only. -/
structure StepAt (s t : Shared) (slot : ℕ) : Prop where
  fresh : s.wrapper.fresh ≤ t.wrapper.fresh
  listener : ∀ proxy < s.wrapper.fresh, t.wrapper.listener proxy = s.wrapper.listener proxy
  others : ∀ other, other ≠ slot → t.wrapper.windows other = s.wrapper.windows other
  inUse : ∀ other, other ≠ slot → t.wrapper.InUse other → s.wrapper.InUse other
  count : ∀ other, other ≠ slot → other < t.wrapper.count → other < s.wrapper.count
  pc : ∀ other, other ≠ slot → t.wrapper.pc = .swapping other → s.wrapper.pc = .swapping other
  out : ∀ buffer < s.wrapper.fresh, s.wrapper.listener buffer ≠ some (.wlBuffer slot) →
    (t.loans.Out buffer ↔ s.loans.Out buffer)

section Invariant

variable {s t : Shared} {win win' : ShmWindow} {loans loans' : Loans ℕ} {slot : ℕ}

theorem Tracks.congr (h : Tracks win loans) (hbuffer : win'.wlBuffer = win.wlBuffer)
    (hbusy : win'.bufBusy = win.bufBusy)
    (hout : ∀ i buffer, win.wlBuffer i = some buffer → (loans'.Out buffer ↔ loans.Out buffer)) :
    Tracks win' loans' := by
  refine ⟨by rw [hbuffer]; exact h.apart, fun i => ?_⟩
  obtain ⟨buffer, hi, hiff⟩ := h.busy i
  rw [hbuffer, hbusy]
  exact ⟨buffer, hi, hiff.trans (hout i buffer hi).symm⟩

/-- What a step at one slot has to keep there. -/
theorem SharedInv.stepAt (h : SharedInv s) (hstep : StepAt s t slot) (htable : EglInv t.wrapper)
    (horderly : t.loans.Orderly)
    (hknown : ∀ buffer, t.loans.Out buffer → s.loans.Out buffer ∨ buffer < s.wrapper.fresh ∧
      s.wrapper.listener buffer = some (.wlBuffer slot))
    (hown : t.wrapper.InUse slot → t.wrapper.OwnBuffers slot)
    (htracked : slot < t.wrapper.count →
      t.wrapper.AwaitsResize slot ∨ Tracks (t.wrapper.windows slot) t.loans) : SharedInv t where
  table := htable
  orderly := horderly
  known := by
    intro buffer hout
    have hbefore : buffer < s.wrapper.fresh ∧
        ∃ slot, s.wrapper.listener buffer = some (.wlBuffer slot) := by
      rcases hknown buffer hout with hold | ⟨hlt, hlistener⟩
      · exact h.known buffer hold
      · exact ⟨hlt, slot, hlistener⟩
    obtain ⟨hlt, other, hlistener⟩ := hbefore
    exact ⟨hlt.trans_le hstep.fresh, other, (hstep.listener buffer hlt).trans hlistener⟩
  own := by
    intro other hother
    by_cases hsame : other = slot
    · rw [hsame] at hother ⊢
      exact hown hother
    · intro i buffer hbuffer
      rw [hstep.others other hsame] at hbuffer
      obtain ⟨hlt, hlistener⟩ := h.own other (hstep.inUse other hsame hother) i buffer hbuffer
      exact ⟨hlt.trans_le hstep.fresh, (hstep.listener buffer hlt).trans hlistener⟩
  tracked := by
    intro other hother
    by_cases hsame : other = slot
    · rw [hsame] at hother ⊢
      exact htracked hother
    · have hold := hstep.count other hsame hother
      rcases h.tracked other hold with ⟨hresize, hpc⟩ | htracks
      · refine .inl ⟨?_, fun hswapping => hpc (hstep.pc other hsame hswapping)⟩
        rw [hstep.others other hsame]
        exact hresize
      · refine .inr (htracks.congr ?_ ?_ fun i buffer hbuffer => ?_)
        · rw [hstep.others other hsame]
        · rw [hstep.others other hsame]
        · -- the listener tells the buffers of different slots apart
          obtain ⟨hlt, hlistener⟩ := h.own other (.inl hold) i buffer hbuffer
          refine hstep.out buffer hlt fun hslot => hsame ?_
          rw [hlistener] at hslot
          cases hslot
          rfl

theorem after_quiet {w : EglState} {requests : List WlRequest}
    (hsent : w.sent = s.wrapper.sent ++ requests) (hquiet : ∀ r ∈ requests, r.IsQuiet) :
    s.after w = ⟨w, s.loans⟩ := by
  have hfold : ∀ requests : List WlRequest, (∀ r ∈ requests, r.IsQuiet) →
      requests.foldl WlRequest.lend s.loans = s.loans := by
    intro requests
    induction requests with
    | nil => exact fun _ => rfl
    | cons r rest ih =>
      intro hall
      rw [List.foldl_cons, (hall r List.mem_cons_self).lend]
      exact ih fun r' hr' => hall r' (List.mem_cons_of_mem r hr')
  unfold Shared.after
  rw [requestsTo_eq hsent, hfold requests hquiet]

/-- Another place between calls. -/
theorem SharedInv.withPc (h : SharedInv s) {pc : EglAt}
    (htable : EglInv { s.wrapper with pc := pc }) (hcreating : pc ≠ .creating)
    (hswapping : ∀ slot, pc = .swapping slot → Tracks (s.wrapper.windows slot) s.loans) :
    SharedInv ⟨{ s.wrapper with pc := pc }, s.loans⟩ where
  table := htable
  orderly := h.orderly
  known := h.known
  own := by
    intro slot hslot
    rcases hslot with hlt | ⟨hnow, -⟩
    · exact h.own slot (.inl hlt)
    · exact absurd hnow hcreating
  tracked := by
    intro slot hslot
    by_cases hnow : pc = .swapping slot
    · exact .inr (hswapping slot hnow)
    · rcases h.tracked slot hslot with ⟨hresize, -⟩ | htracks
      · exact .inl ⟨hresize, hnow⟩
      · exact .inr htracks

/-! ### Calls -/

/-- A creation up to its roundtrip. -/
theorem SharedInv.beginWindow (h : SharedInv s) (outcome : ProxiesOutcome) :
    SharedInv (s.after (s.wrapper.beginWindow outcome)) := by
  have hr := beginWindow_renewed s.wrapper outcome
  have hcount := (beginWindow_count s.wrapper outcome).1
  have hpc : ∀ slot, (s.wrapper.beginWindow outcome).pc ≠ .swapping slot := by
    intro slot hswapping
    rcases beginWindow_pc s.wrapper outcome with ⟨hnow, -⟩ | ⟨hnow, -⟩
    · rw [hnow] at hswapping
      cases hswapping
    · rw [hnow] at hswapping
      cases hswapping
  obtain ⟨requests, hsent, hquiet⟩ := beginWindow_sent s.wrapper outcome
  rw [after_quiet hsent hquiet]
  have hstep : StepAt s ⟨s.wrapper.beginWindow outcome, s.loans⟩ s.wrapper.count := by
    refine ⟨hr.fresh, hr.listener, hr.windows, fun other hother hin => ?_, fun other _ hlt => ?_,
      fun other _ hswapping => absurd hswapping (hpc other), fun _ _ _ => Iff.rfl⟩
    · rcases hin with hlt | ⟨-, hsame⟩
      · exact .inl (hlt.trans_eq hcount)
      · exact absurd (hsame.trans hcount) hother
    · exact hlt.trans_eq hcount
  refine h.stepAt hstep (h.table.beginWindow outcome) h.orderly (fun buffer => .inl)
    (fun _ i buffer hbuffer => ?_) fun hlt => ?_
  · rw [hr.wlBuffer i] at hbuffer
    cases hbuffer
  · exact absurd (hlt.trans_eq hcount) (lt_irrefl _)

/-- The buffers of a window that has only had to do with buffers. -/
theorem OnlyBuffers.ownBuffers {w w' : EglState} (hb : OnlyBuffers w w') (h : w.OwnBuffers slot) :
    w'.OwnBuffers slot := by
  intro i buffer hbuffer
  rcases hb.buffers slot i buffer hbuffer with ⟨i', hold⟩ | ⟨-, hlt, hlistener⟩
  · obtain ⟨hlt, hlistener⟩ := h i' buffer hold
    exact ⟨hlt.trans_le hb.fresh, (hb.listener buffer hlt).trans hlistener⟩
  · exact ⟨hlt, hlistener⟩

/-- Two new buffers, that are not out. -/
theorem SharedInv.tracks_created (h : SharedInv s) {base : ℕ} (hbase : s.wrapper.fresh ≤ base)
    (hbuffer : ∀ i, win.wlBuffer i = some (base + i)) (hbusy : ∀ i, win.bufBusy i = false)
    (hout : ∀ buffer, loans.Out buffer → s.loans.Out buffer) : Tracks win loans := by
  refine ⟨?_, fun i => ⟨base + i, hbuffer i, ?_⟩⟩
  · rw [hbuffer 0, hbuffer 1]
    simp
  · rw [hbusy i]
    refine ⟨nofun, fun hsome => ?_⟩
    have hlt := (h.known _ (hout _ hsome)).1
    omega

/-- A creation destroys new buffers at most. -/
theorem endWindow_sent (w : EglState) (buffers : BuffersOutcome) (pbuffer : Option ℕ) :
    ∃ proxies : List ℕ, (w.endWindow buffers pbuffer).sent = w.sent ++ proxies.map .destroy ∧
      ∀ proxy ∈ proxies, w.fresh ≤ proxy := by
  obtain ⟨proxies, hsent, hnew⟩ := createShmBuffers_sent (w.modify w.count fun win =>
    { win with width := defaultWidth, height := defaultHeight }) w.count buffers
  cases buffers with
  | noPool | noFirst | noSecond | noReadback => exact ⟨proxies, hsent, hnew⟩
  | created =>
    cases pbuffer with
    | some surface => exact ⟨proxies, hsent, hnew⟩
    | none =>
      refine ⟨[w.fresh, w.fresh + 1], ?_, fun proxy hproxy => ?_⟩
      · simp [EglState.endWindow, EglState.createShmBuffers, EglState.newBuffer, EglState.modify,
          EglState.send, EglState.newProxy, EglState.abandon, EglState.destroyShmBuffers,
          ShmWindow.destroyBuffers]
      · rcases List.mem_cons.mp hproxy with rfl | hproxy
        · exact le_rfl
        · exact (List.mem_singleton.mp hproxy) ▸ Nat.le_succ _

theorem endWindow_others (w : EglState) (buffers : BuffersOutcome) (pbuffer : Option ℕ)
    {other : ℕ} (hother : other ≠ w.count) :
    (w.endWindow buffers pbuffer).windows other = w.windows other := by
  have hcreated : ((w.modify w.count fun win =>
      { win with width := defaultWidth, height := defaultHeight }).createShmBuffers w.count
        buffers).1.windows other = w.windows other := by
    rw [createShmBuffers_others hother]
    exact Function.update_of_ne hother _ _
  cases buffers with
  | noPool | noFirst | noSecond | noReadback => exact hcreated
  | created =>
    cases pbuffer with
    | none | some surface => exact (Function.update_of_ne hother _ _).trans hcreated

/-- Requests that destroy buffers of one slot, or new ones. -/
theorem SharedInv.drops (h : SharedInv s) (slot : ℕ) {w : EglState} {proxies : List ℕ}
    (hsent : w.sent = s.wrapper.sent ++ proxies.map .destroy)
    (hproxies : ∀ proxy ∈ proxies,
      s.wrapper.listener proxy = some (.wlBuffer slot) ∨ s.wrapper.fresh ≤ proxy) :
    (s.after w).loans.Orderly ∧ (∀ buffer, (s.after w).loans.Out buffer → s.loans.Out buffer) ∧
      ∀ buffer < s.wrapper.fresh, s.wrapper.listener buffer ≠ some (.wlBuffer slot) →
        ((s.after w).loans.Out buffer ↔ s.loans.Out buffer) := by
  have hloans : (s.after w).loans = (proxies.map WlRequest.destroy).foldl WlRequest.lend s.loans := by
    unfold Shared.after
    rw [requestsTo_eq hsent]
  rw [hloans]
  refine ⟨orderly_drops proxies h.orderly, fun buffer hout => ((out_drops proxies).mp hout).2,
    fun buffer hlt hlistener => ?_⟩
  refine (out_drops proxies).trans (and_iff_right fun hmem => ?_)
  rcases hproxies buffer hmem with hown | hnew
  · exact hlistener hown
  · omega

/-- The end of a creation. -/
theorem SharedInv.endWindow (h : SharedInv s) (hcreating : s.wrapper.pc = .creating)
    (buffers : BuffersOutcome) (pbuffer : Option ℕ) :
    SharedInv (s.after (s.wrapper.endWindow buffers pbuffer)) := by
  obtain ⟨proxies, hsent, hnew⟩ := endWindow_sent s.wrapper buffers pbuffer
  obtain ⟨horderly, hless, hout⟩ := h.drops s.wrapper.count hsent
    fun proxy hproxy => .inr (hnew proxy hproxy)
  have htable := h.table.endWindow hcreating buffers pbuffer
  have hown : s.wrapper.OwnBuffers s.wrapper.count := h.own _ (.inr ⟨hcreating, rfl⟩)
  have hother : ∀ other, other ≠ s.wrapper.count →
      (s.wrapper.endWindow buffers pbuffer).windows other = s.wrapper.windows other :=
    fun other hne => endWindow_others s.wrapper buffers pbuffer hne
  rcases endWindow_cases s.wrapper buffers pbuffer with
    ⟨-, u, hu, hresult⟩ | ⟨u, surface, hu, hbuffers, hpbuffer, hresult⟩
  · have hcount : (s.wrapper.endWindow buffers pbuffer).count = s.wrapper.count :=
      hresult.count.trans hu.count
    have hpc : (s.wrapper.endWindow buffers pbuffer).pc = .idle := hresult.pc
    have hin : ∀ other, (s.wrapper.endWindow buffers pbuffer).InUse other →
        other < s.wrapper.count := by
      rintro other (hlt | ⟨hstill, -⟩)
      · exact hlt.trans_eq hcount
      · rw [hpc] at hstill
        cases hstill
    have hstep : StepAt s (s.after (s.wrapper.endWindow buffers pbuffer)) s.wrapper.count := by
      refine ⟨hu.fresh.trans hresult.fresh, fun proxy hlt => ?_, hother,
        fun other _ hother => .inl (hin other hother), fun other _ hlt => hlt.trans_eq hcount,
        fun other _ hswapping => ?_, hout⟩
      · exact (hresult.listener proxy (hlt.trans_le hu.fresh)).trans (hu.listener proxy hlt)
      · cases hpc.symm.trans hswapping
    exact h.stepAt hstep htable horderly (fun buffer hsome => .inl (hless _ hsome))
      (fun huse => absurd (hin _ huse) (lt_irrefl _))
      fun hlt => absurd (hlt.trans_eq hcount) (lt_irrefl _)
  · have hwindow : ((s.wrapper.endWindow buffers pbuffer).windows s.wrapper.count).wlBuffer =
        (u.windows s.wrapper.count).wlBuffer := by
      rw [hresult]
      have hself := congrArg ShmWindow.wlBuffer
        (withPbuffer_windows_self u s.wrapper.count surface (surface :: u.surfaces))
      exact hself
    have hcount : (s.wrapper.endWindow buffers pbuffer).count = s.wrapper.count + 1 := by
      rw [hresult]
      exact congrArg (· + 1) hu.count
    have hpc : (s.wrapper.endWindow buffers pbuffer).pc = .idle := by
      rw [hresult]
    have hfresh : (s.wrapper.endWindow buffers pbuffer).fresh = u.fresh ∧
        (s.wrapper.endWindow buffers pbuffer).listener = u.listener := by
      rw [hresult]
      exact ⟨rfl, rfl⟩
    have hin : ∀ other, (s.wrapper.endWindow buffers pbuffer).InUse other →
        other < s.wrapper.count + 1 := by
      rintro other (hlt | ⟨hstill, -⟩)
      · exact hlt.trans_eq hcount
      · rw [hpc] at hstill
        cases hstill
    have hstep : StepAt s (s.after (s.wrapper.endWindow buffers pbuffer)) s.wrapper.count := by
      refine ⟨hu.fresh.trans_eq hfresh.1.symm, fun proxy hlt => ?_, hother,
        fun other hne hother => .inl ?_, fun other hne hlt => ?_, fun other _ hswapping => ?_, hout⟩
      · exact (congrFun hfresh.2 proxy).trans (hu.listener proxy hlt)
      · have := hin other hother
        omega
      · have := hlt.trans_eq hcount
        omega
      · cases hpc.symm.trans hswapping
    refine h.stepAt hstep htable horderly (fun buffer hsome => .inl (hless _ hsome))
      (fun _ i buffer hbuffer => ?_) fun _ => .inr ?_
    · have hbefore := hu.ownBuffers hown i buffer ((congrFun hwindow i).symm.trans hbuffer)
      exact ⟨hbefore.1.trans_eq hfresh.1.symm, (congrFun hfresh.2 buffer).trans hbefore.2⟩
    · subst hbuffers hpbuffer
      have hcreated := createShmBuffers_created (s.wrapper.modify s.wrapper.count fun win =>
        { win with width := defaultWidth, height := defaultHeight }) s.wrapper.count
      have hself : (s.wrapper.endWindow .created (some surface)).windows s.wrapper.count =
          { (((s.wrapper.modify s.wrapper.count fun win =>
            { win with width := defaultWidth, height := defaultHeight }).createShmBuffers
              s.wrapper.count .created).1.windows s.wrapper.count) with
            pbufferSurface := surface } := Function.update_self _ _ _
      refine h.tracks_created le_rfl (fun i => ?_) (fun i => ?_) hless
      · exact (congrFun (congrArg ShmWindow.wlBuffer hself) i).trans (hcreated i).1
      · exact (congrFun (congrArg ShmWindow.bufBusy hself) i).trans (hcreated i).2

/-- Between a call and its return the same slots are in use. -/
theorem StepAt.of_frame {w : EglState} (hcount : w.count = s.wrapper.count)
    (hpc : w.pc = s.wrapper.pc) (hfresh : s.wrapper.fresh ≤ w.fresh)
    (hlistener : ∀ proxy < s.wrapper.fresh, w.listener proxy = s.wrapper.listener proxy)
    (hothers : ∀ other, other ≠ slot → w.windows other = s.wrapper.windows other)
    (hout : ∀ buffer < s.wrapper.fresh, s.wrapper.listener buffer ≠ some (.wlBuffer slot) →
      (loans.Out buffer ↔ s.loans.Out buffer)) : StepAt s ⟨w, loans⟩ slot := by
  refine ⟨hfresh, hlistener, hothers, fun other _ hin => ?_, fun other _ hlt => hlt.trans_eq hcount,
    fun other _ hswapping => hpc.symm.trans hswapping, hout⟩
  rcases hin with hlt | ⟨hcreating, hsame⟩
  · exact .inl (hlt.trans_eq hcount)
  · exact .inr ⟨hpc.symm.trans hcreating, hsame.trans hcount⟩

/-- What an event changes in a window besides the flags. -/
theorem SharedInv.handled (h : SharedInv s) (slot : ℕ) (e : WlEvent)
    (horderly : loans.Orderly) (hless : ∀ buffer, loans.Out buffer → s.loans.Out buffer)
    (hout : ∀ buffer < s.wrapper.fresh, s.wrapper.listener buffer ≠ some (.wlBuffer slot) →
      (loans.Out buffer ↔ s.loans.Out buffer))
    (htracked : slot < s.wrapper.count →
      ((s.wrapper.windows slot).needsResize = true →
        ((s.wrapper.windows slot).handle e).needsResize = true) ∧
      (Tracks (s.wrapper.windows slot) s.loans →
        Tracks ((s.wrapper.windows slot).handle e) loans)) :
    SharedInv ⟨s.wrapper.handleAt slot e, loans⟩ := by
  have hself : (s.wrapper.handleAt slot e).windows slot = (s.wrapper.windows slot).handle e :=
    Function.update_self _ _ _
  have hstep : StepAt s ⟨s.wrapper.handleAt slot e, loans⟩ slot :=
    StepAt.of_frame rfl rfl le_rfl (fun _ _ => rfl) (fun other hne => Function.update_of_ne hne _ _)
      hout
  have hwlSurface : ∀ other, ((s.wrapper.handleAt slot e).windows other).wlSurface =
      (s.wrapper.windows other).wlSurface := by
    intro other
    by_cases hsame : other = slot
    · rw [hsame, hself]
      exact ((s.wrapper.windows slot).handle_frame e).1.1
    · rw [show (s.wrapper.handleAt slot e).windows other = s.wrapper.windows other from
        Function.update_of_ne hsame _ _]
  have htable := h.table.of_surfaces (t := s.wrapper.handleAt slot e) le_rfl hwlSurface
    (fun _ hin => hin) h.table.swapping
  refine h.stepAt hstep htable horderly (fun buffer hsome => .inl (hless buffer hsome))
    (fun hin i buffer hbuffer => ?_) fun hlt => ?_
  · replace hbuffer : ((s.wrapper.handleAt slot e).windows slot).wlBuffer i = some buffer := hbuffer
    rw [hself, ((s.wrapper.windows slot).handle_frame e).2.2] at hbuffer
    exact h.own slot hin i buffer hbuffer
  · obtain ⟨hresize, htracks⟩ := htracked hlt
    rcases h.tracked slot hlt with ⟨hwas, hpc⟩ | hwas
    · refine .inl ⟨?_, hpc⟩
      show ((s.wrapper.handleAt slot e).windows slot).needsResize = true
      rw [hself]
      exact hresize hwas
    · refine .inr ?_
      show Tracks ((s.wrapper.handleAt slot e).windows slot) loans
      rw [hself]
      exact htracks hwas

/-- An event that is no release. -/
theorem SharedInv.deliver (h : SharedInv s) {e : WlEvent} (he : ∀ proxy, e ≠ .release proxy) :
    SharedInv (s.after (s.wrapper.deliver e)) := by
  obtain ⟨requests, hsent, hquiet⟩ := deliver_sent s.wrapper e
  rw [after_quiet hsent hquiet]
  unfold EglState.deliver
  split
  · rename_i slot _
    refine h.handled slot e h.orderly (fun _ => id) (fun _ _ _ => Iff.rfl) fun _ => ?_
    cases e with
    | surfaceConfigure proxy => exact ⟨id, id⟩
    | toplevelConfigure proxy width height =>
      unfold ShmWindow.handle
      simp only
      split
      · exact ⟨fun _ => rfl, fun htracks => htracks.congr rfl rfl fun _ _ _ => Iff.rfl⟩
      · exact ⟨id, id⟩
    | release proxy => exact absurd rfl (he proxy)
  · exact h

/-- A release clears the flag of its buffer. -/
theorem Tracks.release (h : Tracks win loans) (horderly : loans.Orderly) {buffer : ℕ}
    {rest : List ℕ} (hfirst : loans.returning = buffer :: rest) :
    Tracks (win.handle (.release buffer)) loans.notice := by
  have hframe := (win.handle_frame (.release buffer)).2.2
  have hbusy : ∀ i, (win.handle (.release buffer)).bufBusy i = true ↔
      win.bufBusy i = true ∧ win.wlBuffer i ≠ some buffer := by
    have hapart := h.apart
    intro i
    unfold ShmWindow.handle
    simp only
    split
    · rename_i hzero
      fin_cases i
      · simp [hzero]
      · simp [hzero ▸ hapart.symm]
    · split
      · rename_i hzero hone
        fin_cases i
        · simp [hzero]
        · simp [hone]
      · rename_i hzero hone
        fin_cases i
        · simp [hzero]
        · simp [hone]
  refine ⟨by rw [hframe]; exact h.apart, fun i => ?_⟩
  obtain ⟨own, hi, hiff⟩ := h.busy i
  rw [hframe]
  refine ⟨own, hi, ?_⟩
  rw [hbusy, hi, hiff, horderly.out_notice hfirst]
  exact and_congr_right fun _ => not_congr Option.some_inj

/-- A release is delivered. -/
theorem SharedInv.dispatch (h : SharedInv s) {buffer : ℕ} {rest : List ℕ}
    (hfirst : s.loans.returning = buffer :: rest) :
    SharedInv ⟨s.wrapper.deliver (.release buffer), s.loans.notice⟩ := by
  have hout : s.loans.Out buffer := .inr (hfirst ▸ List.mem_cons_self)
  obtain ⟨-, slot, hlistener⟩ := h.known buffer hout
  rw [deliver_eq_handleAt (e := .release buffer) hlistener rfl]
  refine h.handled slot _ h.orderly.notice
    (fun other hsome => ((h.orderly.out_notice hfirst).mp hsome).1) (fun other _ hother => ?_)
    fun _ => ⟨fun hresize => ?_, fun htracks => htracks.release h.orderly hfirst⟩
  · refine (h.orderly.out_notice hfirst).trans (and_iff_left ?_)
    rintro rfl
    exact hother hlistener
  · unfold ShmWindow.handle
    simp only
    split
    · exact hresize
    · split <;> exact hresize

/-- A buffer that is not on its way back is shown. -/
theorem SharedInv.present (h : SharedInv s) (hslot : slot < s.wrapper.count)
    (htracks : Tracks (s.wrapper.windows slot) s.loans) {i : Fin 2} {buffer : ℕ}
    (hbuffer : (s.wrapper.windows slot).wlBuffer i = some buffer)
    (hfree : buffer ∉ s.loans.returning) :
    SharedInv ⟨s.wrapper.present slot i, s.loans.lend buffer⟩ ∧
      Tracks ((s.wrapper.present slot i).windows slot) (s.loans.lend buffer) := by
  obtain ⟨hlt, hlistener⟩ := h.own slot (.inl hslot) i buffer hbuffer
  have hself : (s.wrapper.present slot i).windows slot =
      { s.wrapper.windows slot with
        bufBusy := Function.update (s.wrapper.windows slot).bufBusy i true
        currentBuf := 1 - i } := Function.update_self _ _ _
  have hnow : Tracks ((s.wrapper.present slot i).windows slot) (s.loans.lend buffer) := by
    rw [hself]
    refine ⟨htracks.apart, fun j => ?_⟩
    obtain ⟨own, hj, hiff⟩ := htracks.busy j
    refine ⟨own, hj, ?_⟩
    rw [Loans.out_lend]
    by_cases hji : j = i
    · rw [hji, hbuffer] at hj
      have hsame : own = buffer := (Option.some.inj hj).symm
      rw [hji]
      simp [hsame]
    · have hne : own ≠ buffer := by
        rintro rfl
        have hboth : (s.wrapper.windows slot).wlBuffer 0 = (s.wrapper.windows slot).wlBuffer 1 := by
          fin_cases i <;> fin_cases j <;> simp_all
        exact htracks.apart hboth
      show Function.update (s.wrapper.windows slot).bufBusy i true j = true ↔ _
      rw [Function.update_of_ne hji, hiff]
      simp [hne]
  refine ⟨?_, hnow⟩
  have hstep : StepAt s ⟨s.wrapper.present slot i, s.loans.lend buffer⟩ slot := by
    refine StepAt.of_frame rfl rfl le_rfl (fun _ _ => rfl)
      (fun other hne => Function.update_of_ne hne _ _) fun other _ hother => ?_
    rw [Loans.out_lend]
    refine or_iff_right ?_
    rintro rfl
    exact hother hlistener
  refine h.stepAt hstep (h.table.onlyBuffers (onlyBuffers_present _ _ _)) (h.orderly.lend hfree)
    (fun other hsome => ?_) (fun hin j own hown => ?_) fun _ => .inr hnow
  · rcases Loans.out_lend.mp hsome with rfl | hold
    · exact .inr ⟨hlt, hlistener⟩
    · exact .inl hold
  · exact h.own slot hin j own ((congrFun (congrArg ShmWindow.wlBuffer hself) j).symm.trans hown)

/-- Presenting, as the compositor sees it. -/
theorem SharedInv.after_present (h : SharedInv s) (hslot : slot < s.wrapper.count) {i : Fin 2}
    {buffer : ℕ} (hbuffer : (s.wrapper.windows slot).wlBuffer i = some buffer) :
    s.after (s.wrapper.present slot i) = ⟨s.wrapper.present slot i, s.loans.lend buffer⟩ ∧
      shownBuffers (s.wrapper.requestsTo (s.wrapper.present slot i)) = [buffer] := by
  obtain ⟨window, hwindow⟩ := h.table.shown slot (.inl hslot)
  have hsent := present_sent hwindow i
  rw [hbuffer] at hsent
  unfold Shared.after
  rw [requestsTo_eq hsent]
  exact ⟨rfl, rfl⟩

/-- What is not busy is not out. -/
theorem Tracks.free (h : Tracks win loans) {i : Fin 2} (hfree : win.bufBusy i = false) :
    ∃ buffer, win.wlBuffer i = some buffer ∧ ¬ loans.Out buffer := by
  obtain ⟨buffer, hbuffer, hiff⟩ := h.busy i
  refine ⟨buffer, hbuffer, fun hout => ?_⟩
  rw [hiff.mpr hout] at hfree
  cases hfree

/-- A swap that has got past its resize. -/
theorem SharedInv.pickBuffer (h : SharedInv s) (hslot : slot < s.wrapper.count)
    (htracks : Tracks (s.wrapper.windows slot) s.loans) (gl : Bool) :
    SharedInv (s.after (s.wrapper.pickBuffer slot gl)) ∧
      ∀ buffer ∈ shownBuffers (s.wrapper.requestsTo (s.wrapper.pickBuffer slot gl)),
        (∃ i, (s.wrapper.windows slot).wlBuffer i = some buffer) ∧ ¬ s.loans.Out buffer := by
  have hquiet : ∀ w : EglState, w.sent = s.wrapper.sent →
      s.after w = ⟨w, s.loans⟩ ∧ shownBuffers (s.wrapper.requestsTo w) = [] := by
    intro w hsame
    have hsent : w.sent = s.wrapper.sent ++ [] := hsame.trans (List.append_nil _).symm
    refine ⟨after_quiet hsent nofun, ?_⟩
    rw [requestsTo_eq hsent]
    rfl
  rcases pickBuffer_shows s.wrapper slot gl with hsame | hwaits | ⟨i, hfree, hshown⟩
  · obtain ⟨hafter, hnone⟩ := hquiet (s.wrapper.pickBuffer slot gl) (by rw [hsame])
    rw [hafter, hnone, hsame]
    exact ⟨h, nofun⟩
  · obtain ⟨hafter, hnone⟩ := hquiet (s.wrapper.pickBuffer slot gl) (by rw [hwaits])
    rw [hafter, hnone, hwaits]
    refine ⟨h.withPc ?_ nofun fun other hother => ?_, nofun⟩
    · refine h.table.of_surfaces le_rfl (fun _ => rfl) (fun other hother => ?_) fun other hother => ?_
      · exact hother.imp_right fun hcreating => nomatch hcreating.1
      · cases hother
        exact hslot
    · cases hother
      exact htracks
  · obtain ⟨buffer, hbuffer, hout⟩ := htracks.free hfree
    obtain ⟨hafter, hshows⟩ := h.after_present hslot hbuffer
    rw [hshown, hafter, hshows]
    refine ⟨(h.present hslot htracks hbuffer fun hmem => hout (.inr hmem)).1, fun other hother => ?_⟩
    rw [List.mem_singleton.mp hother]
    exact ⟨⟨i, hbuffer⟩, hout⟩

/-- A resize. -/
theorem SharedInv.handleShmResize (h : SharedInv s) (hidle : s.wrapper.pc = .idle)
    (hslot : slot < s.wrapper.count) (hresize : (s.wrapper.windows slot).needsResize = true)
    (outcome : ResizeOutcome) :
    SharedInv (s.after (s.wrapper.handleShmResize slot outcome).1) ∧
      ((s.wrapper.handleShmResize slot outcome).2 = true →
        Tracks ((s.wrapper.handleShmResize slot outcome).1.windows slot)
            (s.after (s.wrapper.handleShmResize slot outcome).1).loans ∧
          ∀ i buffer, ((s.wrapper.handleShmResize slot outcome).1.windows slot).wlBuffer i =
            some buffer → s.wrapper.fresh ≤ buffer) := by
  obtain ⟨proxies, hsent, hproxies⟩ := handleShmResize_sent s.wrapper slot outcome
  have hown := h.own slot (.inl hslot)
  obtain ⟨horderly, hless, hout⟩ := h.drops slot hsent fun proxy hproxy =>
    (hproxies proxy hproxy).imp_left fun ⟨i, hi⟩ => (hown i proxy hi).2
  obtain ⟨pbuffer, surfaces, hb, -⟩ := handleShmResize_spec s.wrapper slot outcome
  have hcreated : (s.wrapper.handleShmResize slot outcome).2 = true →
      Tracks ((s.wrapper.handleShmResize slot outcome).1.windows slot)
          (s.after (s.wrapper.handleShmResize slot outcome).1).loans ∧
        ∀ i buffer, ((s.wrapper.handleShmResize slot outcome).1.windows slot).wlBuffer i =
          some buffer → s.wrapper.fresh ≤ buffer := by
    intro hok
    rcases handleShmResize_eq s.wrapper slot outcome with ⟨hfailed, -⟩ | ⟨surface, -, -, heq⟩
    · rw [hok] at hfailed
      cases hfailed
    · have hnew := createShmBuffers_created (s.wrapper.tornDown slot) slot
      have hself := congrArg (fun w => w.windows slot) heq
      simp only [EglState.modify, Function.update_self] at hself
      have hbuffer : ∀ i, ((s.wrapper.handleShmResize slot outcome).1.windows slot).wlBuffer i =
          some (s.wrapper.fresh + i) := by
        intro i
        rw [hself]
        exact (hnew i).1
      refine ⟨h.tracks_created le_rfl hbuffer (fun i => ?_) hless, fun i buffer hi => ?_⟩
      · rw [hself]
        exact (hnew i).2
      · rw [hbuffer i] at hi
        cases hi
        exact Nat.le_add_right _ _
  refine ⟨?_, hcreated⟩
  have hstep : StepAt s (s.after (s.wrapper.handleShmResize slot outcome).1) slot :=
    StepAt.of_frame hb.count hb.pc hb.fresh hb.listener
      (fun other hne => handleShmResize_others hne outcome) hout
  have hpointers : (s.wrapper.withPbuffer slot pbuffer surfaces).OwnBuffers slot := by
    intro i buffer hbuffer
    rw [withPbuffer_windows_self] at hbuffer
    exact hown i buffer hbuffer
  refine h.stepAt hstep (h.table.handleShmResize slot outcome) horderly
    (fun buffer hsome => .inl (hless buffer hsome)) (fun _ => hb.ownBuffers hpointers) fun _ => ?_
  cases hok : (s.wrapper.handleShmResize slot outcome).2 with
  | true => exact .inr (hcreated hok).1
  | false =>
    refine .inl ⟨?_, ?_⟩
    · rcases handleShmResize_eq s.wrapper slot outcome with ⟨-, heq⟩ | ⟨surface, hok', -⟩
      · show ((s.wrapper.handleShmResize slot outcome).1.windows slot).needsResize = true
        rw [heq, createShmBuffers_needsResize, tornDown_needsResize]
        exact hresize
      · rw [hok] at hok'
        cases hok'
    · intro hswapping
      cases (hb.pc.trans hidle).symm.trans hswapping

/-- A swap up to the point where it waits, or to its end: what it shows is not held. -/
theorem SharedInv.beginSwap (h : SharedInv s) (hidle : s.wrapper.pc = .idle) (surface : ℕ)
    (outcome : ResizeOutcome) (gl : Bool) :
    SharedInv (s.after (s.wrapper.beginSwap surface outcome gl)) ∧
      ∀ buffer ∈ shownBuffers (s.wrapper.requestsTo (s.wrapper.beginSwap surface outcome gl)),
        s.loans.held buffer ≠ true := by
  cases hfind : s.wrapper.findShmWindow surface with
  | none =>
    have hsame : s.wrapper.beginSwap surface outcome gl = s.wrapper := by
      unfold EglState.beginSwap
      rw [hfind]
    have hsent : s.wrapper.sent = s.wrapper.sent ++ [] := (List.append_nil _).symm
    rw [hsame, after_quiet hsent nofun, requestsTo_eq hsent]
    exact ⟨h, nofun⟩
  | some slot =>
    have hslot := (findShmWindow_eq_some hfind).1
    cases hresize : (s.wrapper.windows slot).needsResize with
    | false =>
      rw [beginSwap_same hfind hresize]
      have htracks : Tracks (s.wrapper.windows slot) s.loans := by
        rcases h.tracked slot hslot with ⟨hwaits, -⟩ | htracks
        · rw [hresize] at hwaits
          cases hwaits
        · exact htracks
      obtain ⟨hinv, hfree⟩ := h.pickBuffer hslot htracks gl
      exact ⟨hinv, fun buffer hbuffer hheld => (hfree buffer hbuffer).2 (.inl hheld)⟩
    | true =>
      rw [beginSwap_resized hfind hresize]
      obtain ⟨hinv, hcreated⟩ := h.handleShmResize hidle hslot hresize outcome
      obtain ⟨proxies, hsent, -⟩ := handleShmResize_sent s.wrapper slot outcome
      obtain ⟨pbuffer, surfaces, hb, -⟩ := handleShmResize_spec s.wrapper slot outcome
      cases hok : (s.wrapper.handleShmResize slot outcome).2 with
      | false =>
        rw [if_neg Bool.false_ne_true]
        refine ⟨hinv, fun buffer hbuffer => ?_⟩
        rw [requestsTo_eq hsent, shownBuffers_destroy] at hbuffer
        cases hbuffer
      | true =>
        rw [if_pos rfl]
        obtain ⟨htracks, hnew⟩ := hcreated hok
        obtain ⟨more, hmore⟩ := pickBuffer_sent (s.wrapper.handleShmResize slot outcome).1 slot gl
        obtain ⟨hpicked, hshows⟩ := hinv.pickBuffer (hslot.trans_eq hb.count.symm)
          htracks gl
        have hboth : SharedInv
            (s.after ((s.wrapper.handleShmResize slot outcome).1.pickBuffer slot gl)) := by
          rw [← after_after hsent hmore]
          exact hpicked
        refine ⟨hboth, fun buffer hbuffer hheld => ?_⟩
        -- what a resized window shows is new
        have hall : ((s.wrapper.handleShmResize slot outcome).1.pickBuffer slot gl).sent =
            s.wrapper.sent ++ (proxies.map .destroy ++ more) := by
          rw [hmore, hsent, List.append_assoc]
        rw [requestsTo_eq hall, shownBuffers_append, shownBuffers_destroy, List.nil_append] at hbuffer
        obtain ⟨⟨i, hi⟩, -⟩ := hshows buffer ((requestsTo_eq hmore).symm ▸ hbuffer)
        have hlt := (h.known buffer (.inl hheld)).1
        exact absurd (hnew i buffer hi) (not_le.mpr hlt)

end Invariant

end Wldroid.Egl
