import Wldroid.Egl.BufferHolds

/-!
# Double buffering

A swap that finds both buffers busy waits for events, and then writes to the current buffer,
whichever has been released.

* `SparesHeld` — a buffer that is held is written to only if both are held;
* `Arrived`, `CurrentFirst` — what has been released before a waiting swap goes on;
* **`sparesHeld_iff_currentFirst`** — as long as no waiting swap goes on while the release of its
  buffer is on its way, the swaps spare what is held exactly if the other buffer is never released
  alone;
* `other_released` — it is, and the swap writes to the one that is held.
-/

namespace Wldroid.Egl

open Wldroid.Foundation

/-! ### The property -/

/-- A buffer is written to while the compositor holds it only if it holds both of its window. -/
def SparesHeld (s : Shared) : SharedEvent → Prop
  | .call e => ∀ t, s.wrapper.next e = some t →
      ∀ slot < t.count, ∀ i buffer, (t.windows slot).wlBuffer i = some buffer →
        buffer ∈ shownBuffers (s.wrapper.requestsTo t) → s.loans.held buffer = true →
          ∀ j other, (t.windows slot).wlBuffer j = some other → s.loans.held other = true
  | .release _ | .dispatch => True

/-- The condition on a swap that has waited, as it goes on. -/
def WhenWaited (P : ShmWindow → Loans ℕ → Prop) (s : Shared) : SharedEvent → Prop
  | .call .endSwap => ∀ slot, s.wrapper.pc = .swapping slot → P (s.wrapper.windows slot) s.loans
  | _ => True

instance {P : ShmWindow → Loans ℕ → Prop} [∀ win loans, Decidable (P win loans)] (s : Shared) :
    ∀ e, Decidable (WhenWaited P s e)
  | .call .endSwap =>
      match h : s.wrapper.pc with
      | .swapping slot =>
          decidable_of_iff (P (s.wrapper.windows slot) s.loans)
            ⟨fun hP _ hslot => EglAt.swapping.inj (h.symm.trans hslot) ▸ hP, fun hP => hP slot h⟩
      | .idle | .creating => isTrue fun _ hslot => nomatch h.symm.trans hslot
  | .call (.beginWindow _) | .call (.endWindow _ _) | .call (.beginSwap _ _ _)
  | .call (.destroySurface _) | .call (.deliver _) | .release _ | .dispatch => isTrue trivial

/-- When a swap that has waited goes on, no release of the current buffer is on its way. -/
def Arrived : Shared → SharedEvent → Prop :=
  WhenWaited fun win loans => ∀ buffer ∈ win.wlBuffer win.currentBuf, buffer ∉ loans.returning

/-- When a swap that has waited goes on and the current buffer has not been released, neither has
the other. -/
def CurrentFirst : Shared → SharedEvent → Prop :=
  WhenWaited fun win loans => win.bufBusy win.currentBuf = true →
    win.bufBusy win.otherBuf = true ∧
      ∀ buffer ∈ win.wlBuffer win.otherBuf, buffer ∉ loans.returning

instance (s : Shared) (e : SharedEvent) : Decidable (Arrived s e) :=
  inferInstanceAs (Decidable (WhenWaited _ s e))

instance (s : Shared) (e : SharedEvent) : Decidable (CurrentFirst s e) :=
  inferInstanceAs (Decidable (WhenWaited _ s e))

/-! ### Steps -/

section Steps

variable {s t : Shared} {slot : ℕ}

/-- A swap that has waited goes on. -/
theorem SharedInv.endSwap (h : SharedInv s) (hswapping : s.wrapper.pc = .swapping slot)
    (harrived : Arrived s (.call .endSwap)) :
    SharedInv (s.after (s.wrapper.endSwap slot)) := by
  have hslot := h.table.swapping slot hswapping
  have htracks : Tracks (s.wrapper.windows slot) s.loans := by
    rcases h.tracked slot hslot with ⟨-, hother⟩ | htracks
    · exact absurd hswapping hother
    · exact htracks
  obtain ⟨buffer, hbuffer, -⟩ := htracks.busy (s.wrapper.windows slot).currentBuf
  obtain ⟨hafter, -⟩ := h.after_present hslot hbuffer
  have hpresented := (h.present hslot htracks hbuffer
    (harrived slot hswapping buffer hbuffer)).1
  have hended := hpresented.withPc (h.table.endSwap slot) nofun nofun
  have hloans : (s.after (s.wrapper.endSwap slot)).loans = s.loans.lend buffer :=
    congrArg Shared.loans hafter
  have hsame : s.after (s.wrapper.endSwap slot) =
      ⟨s.wrapper.endSwap slot, s.loans.lend buffer⟩ := congrArg (Shared.mk _) hloans
  rw [hsame]
  exact hended

/-- A waiting swap spares what is held exactly if the other buffer has not been released alone. -/
theorem SharedInv.endSwap_spares (h : SharedInv s) (hswapping : s.wrapper.pc = .swapping slot)
    (harrived : Arrived s (.call .endSwap)) :
    SparesHeld s (.call .endSwap) ↔ CurrentFirst s (.call .endSwap) := by
  have hslot := h.table.swapping slot hswapping
  have htracks : Tracks (s.wrapper.windows slot) s.loans := by
    rcases h.tracked slot hslot with ⟨-, hother⟩ | htracks
    · exact absurd hswapping hother
    · exact htracks
  have hbusy : ∀ i buffer, (s.wrapper.windows slot).wlBuffer i = some buffer →
      ((s.wrapper.windows slot).bufBusy i = true ↔ s.loans.Out buffer) := by
    intro i buffer hbuffer
    obtain ⟨own, hown, hiff⟩ := htracks.busy i
    obtain rfl : own = buffer := Option.some.inj (hown.symm.trans hbuffer)
    exact hiff
  have hnext : s.wrapper.next .endSwap = some (s.wrapper.endSwap slot) := by
    unfold EglState.next
    rw [hswapping]
  have hbuffers : ((s.wrapper.endSwap slot).windows slot).wlBuffer =
      (s.wrapper.windows slot).wlBuffer := by
    have hself := congrArg ShmWindow.wlBuffer (Function.update_self slot
      { s.wrapper.windows slot with
        bufBusy := Function.update (s.wrapper.windows slot).bufBusy
          (s.wrapper.windows slot).currentBuf true
        currentBuf := 1 - (s.wrapper.windows slot).currentBuf } s.wrapper.windows)
    exact hself
  obtain ⟨current, hcurrent, -⟩ := htracks.busy (s.wrapper.windows slot).currentBuf
  obtain ⟨other, hother, -⟩ := htracks.busy (s.wrapper.windows slot).otherBuf
  have hshows : shownBuffers (s.wrapper.requestsTo (s.wrapper.endSwap slot)) = [current] :=
    (h.after_present hslot hcurrent).2
  -- the current buffer is busy exactly if it is held
  have hheld := (hbusy _ current hcurrent).trans
    (Loans.out_iff_held (harrived slot hswapping current hcurrent))
  constructor
  · intro hspares slot' hslot'
    obtain rfl : slot = slot' := EglAt.swapping.inj (hswapping.symm.trans hslot')
    intro hwaiting
    have hboth := hspares _ hnext slot hslot _ current ((congrFun hbuffers _).trans hcurrent)
      (hshows ▸ List.mem_singleton_self current) (hheld.mp hwaiting) _ other
      ((congrFun hbuffers _).trans hother)
    refine ⟨(hbusy _ other hother).mpr (.inl hboth), fun buffer hbuffer => ?_⟩
    obtain rfl : other = buffer := Option.some.inj (hother.symm.trans hbuffer)
    exact h.orderly.apart other hboth
  · intro hfirst t ht slot' hslot' i buffer hbuffer hshown hwritten j own hown
    obtain rfl : s.wrapper.endSwap slot = t := Option.some.inj (hnext.symm.trans ht)
    rw [hshows, List.mem_singleton] at hshown
    rw [hshown] at hbuffer hwritten
    -- only the window of the swap has that buffer
    have hsame : slot' = slot := by
      by_contra hne
      rw [show (s.wrapper.endSwap slot).windows slot' = s.wrapper.windows slot' from
        Function.update_of_ne hne _ _] at hbuffer
      have hlistener := (h.own slot' (.inl hslot') i current hbuffer).2
      rw [(h.own slot (.inl hslot) _ current hcurrent).2] at hlistener
      cases hlistener
      exact hne rfl
    subst hsame
    obtain ⟨hstill, harrived'⟩ := hfirst slot' hswapping (hheld.mpr hwritten)
    have hboth := (Loans.out_iff_held (harrived' other hother)).mp
      ((hbusy _ other hother).mp hstill)
    replace hown := (congrFun hbuffers j).symm.trans hown
    by_cases hj : j = (s.wrapper.windows slot').currentBuf
    · rw [hj] at hown
      rwa [← Option.some.inj (hcurrent.symm.trans hown)]
    · have hone : j = 1 - (s.wrapper.windows slot').currentBuf := by omega
      rw [hone] at hown
      rwa [← Option.some.inj (hother.symm.trans hown)]

theorem SharedInv.call (h : SharedInv s) {e : EglEvent} {w : EglState}
    (hnext : s.next (.call e) = some t) (hstep : EglStep s.wrapper e w) (ht : t = s.after w)
    (harrived : Arrived s (.call e)) : SharedInv t := by
  subst ht
  cases hstep with
  | full outcome =>
    rw [after_quiet (List.append_nil _).symm nofun]
    exact h
  | beginWindow outcome hidle => exact h.beginWindow outcome
  | endWindow buffers pbuffer hcreating hfresh => exact h.endWindow hcreating buffers pbuffer
  | beginSwap surface outcome gl hidle hfresh => exact (h.beginSwap hidle surface outcome gl).1
  | endSwap slot hswapping => exact h.endSwap hswapping harrived
  | destroySurface surface hidle => cases hnext
  | deliver e =>
    refine h.deliver fun proxy he => ?_
    subst he
    cases hnext

/-- A call is one of the wrapper. -/
theorem Shared.next_call {e : EglEvent} (h : s.next (.call e) = some t) :
    ∃ w, s.wrapper.next e = some w ∧ t = s.after w := by
  have hmap : (s.wrapper.next e).map s.after = some t := by
    cases e with
    | destroySurface surface => cases h
    | deliver e =>
      cases e with
      | release proxy => cases h
      | surfaceConfigure _ | toplevelConfigure _ _ _ => exact h
    | beginWindow _ | endWindow _ _ | beginSwap _ _ _ | endSwap => exact h
  obtain ⟨w, hw, ht⟩ := Option.map_eq_some_iff.mp hmap
  exact ⟨w, hw, ht.symm⟩

theorem SharedInv.step (h : SharedInv s) {e : SharedEvent} (hnext : s.next e = some t)
    (harrived : Arrived s e) : SharedInv t := by
  cases e with
  | call e =>
    obtain ⟨w, hw, ht⟩ := Shared.next_call hnext
    exact h.call hnext (eglStep_of_next hw) ht harrived
  | release buffer =>
    change (if s.loans.held buffer then some { s with loans := s.loans.giveBack buffer } else none) =
      some t at hnext
    split at hnext <;> cases hnext
    rename_i hheld
    refine ⟨h.table, h.orderly.giveBack hheld, fun other hout => ?_, h.own, fun slot hslot => ?_⟩
    · exact h.known other ((Loans.out_giveBack hheld).mp hout)
    · refine (h.tracked slot hslot).imp_right fun htracks => htracks.congr rfl rfl fun _ own _ => ?_
      exact Loans.out_giveBack hheld
  | dispatch =>
    unfold Shared.next at hnext
    simp only at hnext
    split at hnext
    · cases hnext
    · rename_i buffer rest hfirst
      obtain ⟨w, hw, rfl⟩ := Option.map_eq_some_iff.mp hnext
      cases eglStep_of_next hw
      exact h.dispatch hfirst

/-- Which steps spare what is held. -/
theorem SharedInv.sparesHeld_iff (h : SharedInv s) {e : SharedEvent} (hnext : s.next e = some t) :
    SparesHeld s e ∧ Arrived s e ↔ Arrived s e ∧ CurrentFirst s e := by
  rw [and_comm]
  refine and_congr_right fun harrived => ?_
  -- a step that shows nothing that is held
  have hnone : ∀ {e : EglEvent} {w : EglState}, s.wrapper.next e = some w →
      (∀ buffer ∈ shownBuffers (s.wrapper.requestsTo w), s.loans.held buffer ≠ true) →
        SparesHeld s (.call e) := by
    intro e w hw hshown t ht slot hslot i buffer hbuffer hmem hheld
    obtain rfl : w = t := Option.some.inj (hw.symm.trans ht)
    exact absurd hheld (hshown buffer hmem)
  cases e with
  | release buffer => exact Iff.rfl
  | dispatch => exact Iff.rfl
  | call e =>
    obtain ⟨w, hw, -⟩ := Shared.next_call hnext
    cases eglStep_of_next hw with
    | endSwap slot hswapping => exact h.endSwap_spares hswapping harrived
    | beginSwap surface outcome gl hidle hfresh =>
      exact iff_of_true (hnone hw (h.beginSwap hidle surface outcome gl).2) trivial
    | full outcome =>
      refine iff_of_true (hnone hw ?_) trivial
      rw [requestsTo_eq (List.append_nil _).symm]
      exact nofun
    | beginWindow outcome hidle =>
      obtain ⟨requests, hsent, hquiet⟩ := beginWindow_sent s.wrapper outcome
      refine iff_of_true (hnone hw ?_) trivial
      rw [requestsTo_eq hsent, shownBuffers_quiet hquiet]
      exact nofun
    | endWindow buffers pbuffer hcreating hfresh =>
      obtain ⟨proxies, hsent, -⟩ := endWindow_sent s.wrapper buffers pbuffer
      refine iff_of_true (hnone hw ?_) trivial
      rw [requestsTo_eq hsent, shownBuffers_destroy]
      exact nofun
    | destroySurface surface hidle => cases hnext
    | deliver e =>
      obtain ⟨requests, hsent, hquiet⟩ := deliver_sent s.wrapper e
      refine iff_of_true (hnone hw ?_) trivial
      rw [requestsTo_eq hsent, shownBuffers_quiet hquiet]
      exact nofun

end Steps

/-! ### Runs -/

theorem sharedInv_of_initial {s : Shared} (h : s.Initial) : SharedInv s := by
  obtain ⟨hinit, hloans⟩ := h
  obtain ⟨hwindows, hcount, hpc, -⟩ := id hinit
  refine ⟨eglInv_of_initial hinit, ?_, fun buffer hout => ?_, fun slot hslot => ?_,
    fun slot hslot => ?_⟩
  · rw [hloans]
    exact Loans.orderly_empty
  · rw [hloans] at hout
    exact absurd hout Loans.not_out_empty
  · intro i buffer hbuffer
    rw [hwindows slot] at hbuffer
    cases hbuffer
  · rw [hcount] at hslot
    exact absurd hslot (Nat.not_lt_zero _)

theorem SharedInv.allSteps_iff {s : Shared} (h : SharedInv s) {run : List (SharedEvent × Shared)}
    (hrun : sharedSystem.Exec s run) :
    AllSteps SparesHeld s run ∧ AllSteps Arrived s run ↔
      AllSteps Arrived s run ∧ AllSteps CurrentFirst s run := by
  rw [← allSteps_and, ← allSteps_and]
  refine System.Exec.allSteps_iff_of_kept (S := sharedSystem) (I := SharedInv) ?_ ?_ hrun h
  · exact fun s e t h hnext hguard => h.step hnext hguard.1
  · exact fun s e t h hnext => h.sparesHeld_iff hnext

/-- **Double buffering.**  While no waiting swap goes on before the release of its buffer has
arrived, the swaps of a run spare what is held exactly if none of them goes on when the other buffer
alone has been released. -/
theorem sparesHeld_iff_currentFirst {s : Shared} {run : List (SharedEvent × Shared)}
    (hinit : s.Initial) (hrun : sharedSystem.Exec s run) :
    AllSteps SparesHeld s run ∧ AllSteps Arrived s run ↔
      AllSteps Arrived s run ∧ AllSteps CurrentFirst s run :=
  (sharedInv_of_initial hinit).allSteps_iff hrun

/-- A window is created, shown twice, and swapped once more. -/
def swapThrice : List SharedEvent :=
  [.call (.beginWindow .created), .call (.endWindow .created (some 1)),
    .call (.beginSwap 1 ⟨.noPool, none⟩ true), .call (.beginSwap 1 ⟨.noPool, none⟩ true),
    .call (.beginSwap 1 ⟨.noPool, none⟩ true)]

def freshShared : Shared := ⟨freshEgl, Loans.empty⟩

/-- The current buffer is released while the third swap waits. -/
def currentReleased : List SharedEvent :=
  swapThrice ++ [.release 3, .dispatch, .call .endSwap]

theorem freshShared_initial : freshShared.Initial := ⟨freshEgl_initial, rfl⟩

theorem sparesHeld_currentReleased :
    AllSteps SparesHeld freshShared (traceNext Shared.next freshShared currentReleased) ∧
      AllSteps Arrived freshShared (traceNext Shared.next freshShared currentReleased) :=
  (sparesHeld_iff_currentFirst freshShared_initial (System.exec_traceNext _ _ _)).mpr
    (by decide +kernel)

/-- The other buffer is released while the third swap waits. -/
def otherReleased : List SharedEvent :=
  swapThrice ++ [.release 4, .dispatch, .call .endSwap]

/-- The swap writes to the buffer that is held. -/
theorem other_released :
    ¬ AllSteps SparesHeld freshShared (traceNext Shared.next freshShared otherReleased) := by
  intro hspares
  have hiff := (sharedInv_of_initial freshShared_initial).allSteps_iff
    (System.exec_traceNext Shared.Initial Shared.next otherReleased)
  have harrived : AllSteps Arrived freshShared
      (traceNext Shared.next freshShared otherReleased) := by decide +kernel
  have hguard := (hiff.mp ⟨hspares, harrived⟩).2
  revert hguard
  decide +kernel

end Wldroid.Egl
