import Wldroid.Compositor.FocusAgreement

/-!
# Who gets the focus of an unmapped toplevel

When the toplevel with the keyboard focus unmaps, `on_toplevel_unmap` looks at two places of the
list only: it hands over if that toplevel is the first, and then to the second, whatever that one
is.

* `HandedOver` — both focuses are on another toplevel, mapped and not for rendering only;
* `HandsOver` — so it is after the unmap, if there is such a toplevel at all;
* `NextTakesFocus` — the unmapped toplevel is the first, and the second is such a toplevel;
* **`handsOver_iff_nextTakesFocus`** — the unmaps of a run do the former exactly if they meet the
  latter;
* `unfinished_window_blocks_handover` — a window that has not been mapped yet is first in the list.
-/

namespace Wldroid.Compositor

open Wldroid.Foundation

/-- A toplevel that can take the focus from the one of this surface. -/
def Toplevel.CanTakeFrom (ct : Toplevel) (surface : ℕ) : Prop :=
  ct.surface ≠ surface ∧ ct.mapped = true ∧ ct.renderingOnly = false

/-- Keyboard and text-input focus are on a toplevel that can take them. -/
def HandedOver (t : Server) (surface : ℕ) : Prop :=
  ∃ ct ∈ t.toplevels, ct.CanTakeFrom surface ∧ t.seatFocus = some ct.surface ∧
    t.text.globals.focusedTextInputSurface = some ct.surface

/-- The surface has the focus, and some toplevel can take it. -/
def FocusIsWanted (s : Server) (surface : ℕ) : Prop :=
  s.seatFocus = some surface ∧ ∃ other ∈ s.toplevels, other.CanTakeFrom surface

/-- An unmap of the toplevel with the focus hands it over, if some toplevel can take it. -/
def HandsOver (s : Server) : ServerEvent → Prop
  | .unmapToplevel surface => FocusIsWanted s surface →
      HandedOver (onToplevelUnmap s surface) surface
  | _ => True

/-- The unmapped toplevel is first in the list, and the second one can take the focus. -/
def NextTakesFocus (s : Server) : ServerEvent → Prop
  | .unmapToplevel surface => FocusIsWanted s surface → ∃ ct next rest,
      s.toplevels = ct :: next :: rest ∧ ct.surface = surface ∧ next.CanTakeFrom surface
  | _ => True

/-! ### Focusing -/

/-- A real toplevel takes the seat's focus and text input's. -/
theorem focusToplevel_takes {s : Server} {ct : Toplevel} (hreal : ct.renderingOnly = false) :
    (focusToplevel s ct).seatFocus = some ct.surface ∧
      (focusToplevel s ct).text.globals.focusedTextInputSurface = some ct.surface := by
  unfold focusToplevel
  rw [hreal]
  refine ⟨rfl, ?_⟩
  show (Ime.textInputHandleKeyboardEnter s.text ct.surface).globals.focusFields.1 = _
  rw [Ime.focusFields_enter]
  split
  · rename_i hfocused
    exact hfocused
  · rfl

/-- The toplevel is still there, as mapped and as real as it was. -/
theorem mem_focusToplevel {s : Server} {ct : Toplevel} (hmem : ct ∈ s.toplevels) :
    activate ct ct ∈ (focusToplevel s ct).toplevels :=
  (focusToplevel_perm s ct).mem_iff.mpr (List.mem_map_of_mem hmem)

theorem activate_renderingOnly (ct other : Toplevel) :
    (activate ct other).renderingOnly = other.renderingOnly := by
  unfold activate
  split
  · rfl
  · split <;> rfl

/-! ### One unmap -/

section Unmap

variable {s : Server} {surface : ℕ}

/-- Without a hand-over the seat's focus stays where it is. -/
theorem not_handedOver_of_seatFocus {t : Server} (hfocus : t.seatFocus = some surface) :
    ¬ HandedOver t surface := by
  rintro ⟨ct, -, hct, hseat, -⟩
  exact hct.1 (Option.some.inj (hseat.symm.trans hfocus))

/-- The second toplevel can take the focus: it does. -/
theorem handedOver_of_next (hd : DistinctToplevels s) {ct next : Toplevel} {rest : List Toplevel}
    (htop : s.toplevels = ct :: next :: rest) (hnext : next.CanTakeFrom ct.surface) :
    HandedOver (onToplevelUnmap s ct.surface) ct.surface := by
  obtain ⟨rest', htop'⟩ := unmapped_second hd htop
  have hfocused : onToplevelUnmap s ct.surface = focusToplevel (unmapped s ct.surface) next := by
    rw [onToplevelUnmap_eq, htop']
    exact if_pos rfl
  have hmem : next ∈ (unmapped s ct.surface).toplevels := by
    rw [htop']
    simp
  obtain ⟨hne, hmapped, hreal⟩ := hnext
  obtain ⟨hseat, htext⟩ := focusToplevel_takes (s := unmapped s ct.surface) hreal
  rw [hfocused]
  refine ⟨activate next next, mem_focusToplevel hmem, ⟨?_, ?_, ?_⟩, ?_, ?_⟩
  · rwa [activate_surface]
  · rwa [activate_mapped]
  · rwa [activate_renderingOnly]
  · rwa [activate_surface]
  · rwa [activate_surface]

/-- Only a second toplevel that can take the focus gets it. -/
theorem next_of_handedOver (hd : DistinctToplevels s) (hfocus : s.seatFocus = some surface)
    (hhanded : HandedOver (onToplevelUnmap s surface) surface) :
    ∃ ct next rest, s.toplevels = ct :: next :: rest ∧ ct.surface = surface ∧
      next.CanTakeFrom surface := by
  have hkept : ¬ HandedOver (unmapped s surface) surface :=
    not_handedOver_of_seatFocus ((unmapped_seatFocus s surface).trans hfocus)
  match htop : s.toplevels with
  | [] =>
    rw [onToplevelUnmap_eq, unmapped_toplevels, htop] at hhanded
    exact absurd hhanded hkept
  | [only] =>
    rw [onToplevelUnmap_eq, unmapped_toplevels, htop] at hhanded
    exact absurd hhanded hkept
  | ct :: next :: rest =>
    by_cases hfirst : ct.surface = surface
    · subst hfirst
      obtain ⟨rest', htop'⟩ := unmapped_second hd htop
      have hfocused : onToplevelUnmap s ct.surface =
          focusToplevel (unmapped s ct.surface) next := by
        rw [onToplevelUnmap_eq, htop']
        exact if_pos rfl
      have hdistinct : DistinctToplevels (onToplevelUnmap s ct.surface) :=
        (onToplevelUnmap_surfaces s ct.surface).nodup_iff.mpr hd
      have hmem : next ∈ (unmapped s ct.surface).toplevels := by
        rw [htop']
        simp
      rw [hfocused] at hhanded hdistinct
      cases hreal : next.renderingOnly with
      | true =>
        obtain ⟨-, hseat⟩ := focusToplevel_renderingOnly (s := unmapped s ct.surface) hreal
        exact absurd hhanded (not_handedOver_of_seatFocus
          (hseat.trans ((unmapped_seatFocus s ct.surface).trans hfocus)))
      | false =>
        obtain ⟨taker, htaker, ⟨hne, hmapped, -⟩, hseat, -⟩ := hhanded
        have hsurface : taker.surface = next.surface :=
          Option.some.inj (hseat.symm.trans (focusToplevel_takes hreal).1)
        -- the toplevel that took the focus is the second one
        have hsame : taker = activate next next :=
          List.inj_on_of_nodup_map hdistinct htaker (mem_focusToplevel hmem)
            (by rw [hsurface, activate_surface])
        rw [hsame, activate_mapped] at hmapped
        exact ⟨ct, next, rest, rfl, rfl, hsurface ▸ hne, hmapped, hreal⟩
    · rw [onToplevelUnmap_eq, unmapped_toplevels, htop] at hhanded
      simp only [update, List.map_cons, if_neg hfirst] at hhanded
      exact absurd hhanded hkept

end Unmap

/-- **One step.** -/
theorem handsOver_step_iff {s : Server} (hd : DistinctToplevels s) (e : ServerEvent) :
    HandsOver s e ↔ NextTakesFocus s e := by
  cases e with
  | unmapToplevel surface =>
    refine forall_congr' fun hwanted => ⟨next_of_handedOver hd hwanted.1, ?_⟩
    rintro ⟨ct, next, rest, htop, rfl, hnext⟩
    exact handedOver_of_next hd htop hnext
  | _ => exact Iff.rfl

/-- **The focus of an unmapped toplevel.**  In a run of the compositor every unmap of the toplevel
with the keyboard focus moves both focuses to a mapped toplevel that is not for rendering only, if
there is one, if and only if at each such unmap the toplevel is first in the list and the second one
is such a toplevel. -/
theorem handsOver_iff_nextTakesFocus {s : Server} {run : List (ServerEvent × Server)}
    (hinit : s.Initial) (hrun : serverSystem.Exec s run) :
    AllSteps HandsOver s run ↔ AllSteps NextTakesFocus s run := by
  have hdistinct : DistinctToplevels s := by
    simp [DistinctToplevels, Server.toplevelSurfaces, hinit.1]
  exact hrun.allSteps_iff (fun _ _ _ hd hstep => distinct_step hd (serverStep_of_next hstep))
    (fun _ e _ hd _ => handsOver_step_iff hd e) hdistinct

/-! ### Two windows -/

/-- The second of two windows is unmapped. -/
theorem handsOver_on_windowOnTop :
    (traceNext Server.next freshServer windowOnTop).length = 8 ∧
      AllSteps HandsOver freshServer (traceNext Server.next freshServer windowOnTop) := by
  refine ⟨rfl, (handsOver_iff_nextTakesFocus freshServer_initial
    (System.exec_traceNext _ _ _)).mpr ⟨trivial, trivial, trivial, trivial, trivial, trivial,
      trivial, ?_, trivial⟩⟩
  intro _
  exact ⟨_, _, [], rfl, rfl, by decide, rfl, rfl⟩

/-- Before the second of two windows is unmapped, a third one is created. -/
def unmapBeforeMap : List ServerEvent :=
  [.surfaceCreated 1 10, .newToplevel 1, .mapToplevel 1 none, .surfaceCreated 2 20, .newToplevel 2,
    .mapToplevel 2 none, .surfaceCreated 3 30, .newToplevel 3, .unmapToplevel 2]

/-- The focus stays on the unmapped window, though the first one is mapped. -/
theorem unfinished_window_blocks_handover :
    ¬ ∀ (s : Server) (run : List (ServerEvent × Server)), s.Initial → serverSystem.Exec s run →
      AllSteps HandsOver s run := by
  intro hall
  have hrun := hall freshServer (traceNext Server.next freshServer unmapBeforeMap)
    freshServer_initial (System.exec_traceNext _ _ _)
  obtain ⟨-, -, -, -, -, -, -, -, hunmap, -⟩ := hrun
  have hwanted : FocusIsWanted ((runNext Server.next freshServer
      (unmapBeforeMap.take 8)).getD freshServer) 2 :=
    ⟨rfl, ⟨1, true, false, false⟩, .tail _ (.tail _ (.head _)), by decide, rfl, rfl⟩
  exact not_handedOver_of_seatFocus rfl (hunmap hwanted)

end Wldroid.Compositor
