import Wldroid.Compositor.MappedFocus
import Wldroid.Ime.FocusFields

/-!
# Text-input focus and keyboard focus

The surface focused for text input is a second copy of the seat's keyboard focus.  Every enter moves
both.  A leave clears only the copy: the seat of wlroots keeps its focus until the surface itself is
destroyed.

`focusAgrees_iff_keepsAgreement` says exactly which runs keep the two equal: those in which no
window with the seat's focus is unmapped, dissociated or destroyed, except a toplevel whose unmap
hands the focus over to the next one.
-/

namespace Wldroid.Compositor

open Wldroid.Foundation

/-- The two focus variables agree. -/
def FocusAgrees (s : Server) : Prop := s.text.globals.focusedTextInputSurface = s.seatFocus

/-- The event takes no window away from the seat's focus without a new focus: of the windows that
go, none has the focus, except the first toplevel when a real one is next to take over. -/
def KeepsAgreement (s : Server) : ServerEvent → Prop
  | .unmapToplevel surface => s.seatFocus = some surface → ∃ ct next rest,
      s.toplevels = ct :: next :: rest ∧ ct.surface = surface ∧ next.renderingOnly = false
  | .destroyToplevel surface => s.seatFocus ≠ some surface
  | .unmapXwayland window | .dissociate window => ∀ view surface,
      lookup XwaylandView.window window s.views = some view → view.surface = some surface →
        s.seatFocus ≠ some surface
  | _ => True

/-- What holds while the two agree: the destroy listener follows as well. -/
structure AgreementInv (s : Server) : Prop where
  fields : s.text.globals.focusFields = (s.seatFocus, s.seatFocus)
  distinct : DistinctToplevels s

/-! ### Operations -/

/-- An enter makes the two agree, wherever text input was before. -/
theorem fields_keyboardEnter {s : Server}
    (hlinked : s.text.globals.destroyListener = s.text.globals.focusedTextInputSurface)
    (surface : ℕ) : (s.keyboardEnter surface).text.globals.focusFields =
      (some surface, some surface) := by
  show (Ime.textInputHandleKeyboardEnter s.text surface).globals.focusFields = _
  rw [Ime.focusFields_enter]
  split
  · rename_i hfocused
    rw [Ime.Globals.focusFields, hlinked, hfocused]
  · rfl

/-- A leave clears the text-input focus if it is on the surface. -/
theorem fields_keyboardLeave (s : Server) (surface : ℕ) :
    (s.keyboardLeave surface).text.globals.focusFields =
      if s.text.globals.focusedTextInputSurface = some surface then (none, none)
      else s.text.globals.focusFields := by
  show (Ime.clearTextInputFocus s.text (some surface) true).globals.focusFields = _
  rw [Ime.focusFields_clear]
  simp

section Fields

variable {s : Server} (h : s.text.globals.focusFields = (s.seatFocus, s.seatFocus))

include h

theorem focused_eq : s.text.globals.focusedTextInputSurface = s.seatFocus := congrArg Prod.fst h

theorem linked : s.text.globals.destroyListener = s.text.globals.focusedTextInputSurface := by
  rw [focused_eq h]
  exact congrArg Prod.snd h

/-- A leave of a surface without the seat's focus changes nothing. -/
theorem fields_leave_other {surface : ℕ} (hfocus : s.seatFocus ≠ some surface) :
    (s.keyboardLeave surface).text.globals.focusFields = (s.seatFocus, s.seatFocus) := by
  rw [fields_keyboardLeave, focused_eq h, if_neg hfocus, h]

/-- A leave of the surface with the seat's focus makes the two differ. -/
theorem focused_leave_same {surface : ℕ} (hfocus : s.seatFocus = some surface) :
    (s.keyboardLeave surface).text.globals.focusFields = (none, none) := by
  rw [fields_keyboardLeave, focused_eq h, if_pos hfocus]

theorem fields_focusToplevel (ct : Toplevel) :
    (focusToplevel s ct).text.globals.focusFields =
      ((focusToplevel s ct).seatFocus, (focusToplevel s ct).seatFocus) := by
  unfold focusToplevel
  cases ct.renderingOnly with
  | true => exact h
  | false => exact fields_keyboardEnter (linked h) ct.surface

end Fields

/-- Only real toplevels take the seat's focus. -/
theorem focusToplevel_renderingOnly {s : Server} {ct : Toplevel} (hct : ct.renderingOnly = true) :
    (focusToplevel s ct).text = s.text ∧ (focusToplevel s ct).seatFocus = s.seatFocus := by
  unfold focusToplevel
  rw [hct]
  exact ⟨rfl, rfl⟩

/-- A real toplevel takes both focuses. -/
theorem focusToplevel_real {s : Server} {ct : Toplevel} (hct : ct.renderingOnly = false)
    (hlinked : s.text.globals.destroyListener = s.text.globals.focusedTextInputSurface) :
    (focusToplevel s ct).text.globals.focusFields =
      ((focusToplevel s ct).seatFocus, (focusToplevel s ct).seatFocus) := by
  unfold focusToplevel
  rw [hct]
  exact fields_keyboardEnter hlinked ct.surface

/-! ### Unmapping a toplevel -/

theorem unmapped_seatFocus (s : Server) (surface : ℕ) :
    (unmapped s surface).seatFocus = s.seatFocus := by
  unfold unmapped
  simp only
  split <;> rfl

/-- Text input has left the surface if it had the seat's focus. -/
theorem unmapped_fields {s : Server} (h : s.text.globals.focusFields = (s.seatFocus, s.seatFocus))
    (surface : ℕ) : (unmapped s surface).text.globals.focusFields =
      if s.seatFocus = some surface then (none, none) else (s.seatFocus, s.seatFocus) := by
  unfold unmapped
  simp only
  by_cases hfocus : s.seatFocus = some surface
  · rw [if_pos (show (s.updateToplevel surface Toplevel.markUnmapped).seatFocus = some surface from
      hfocus), if_pos hfocus]
    exact focused_leave_same (s := s.updateToplevel surface Toplevel.markUnmapped) h hfocus
  · rw [if_neg (show ¬ (s.updateToplevel surface Toplevel.markUnmapped).seatFocus = some surface
      from hfocus), if_neg hfocus]
    exact h

theorem fields_unmap {s : Server} (h : AgreementInv s) {surface : ℕ}
    (hguard : KeepsAgreement s (.unmapToplevel surface)) :
    (onToplevelUnmap s surface).text.globals.focusFields =
      ((onToplevelUnmap s surface).seatFocus, (onToplevelUnmap s surface).seatFocus) := by
  have hfields := unmapped_fields h.fields surface
  rw [onToplevelUnmap_eq]
  by_cases hfocus : s.seatFocus = some surface
  · -- the hand-over enters the next toplevel
    obtain ⟨ct, next, rest, htop, rfl, hreal⟩ := hguard hfocus
    obtain ⟨rest', htop'⟩ := unmapped_second h.distinct htop
    rw [if_pos hfocus] at hfields
    rw [htop']
    simp only [Toplevel.markUnmapped, if_true]
    apply focusToplevel_real hreal
    exact (congrArg Prod.snd hfields).trans (congrArg Prod.fst hfields).symm
  · rw [if_neg hfocus, ← unmapped_seatFocus s surface] at hfields
    split
    · split
      · exact fields_focusToplevel hfields _
      · exact hfields
    · exact hfields

/-- Without a hand-over the seat keeps the focus text input has left. -/
theorem not_focusAgrees_unmap {s : Server} (h : AgreementInv s) {surface : ℕ}
    (hguard : ¬ KeepsAgreement s (.unmapToplevel surface)) :
    ¬ FocusAgrees (onToplevelUnmap s surface) := by
  obtain ⟨hfocus, hnext⟩ := Classical.not_imp.mp hguard
  have hfields := unmapped_fields h.fields surface
  rw [if_pos hfocus] at hfields
  have hfocused : (unmapped s surface).text.globals.focusedTextInputSurface = none :=
    congrArg Prod.fst hfields
  have hsplit : ¬ FocusAgrees (unmapped s surface) := by
    rw [FocusAgrees, hfocused, unmapped_seatFocus, hfocus]
    simp
  rw [onToplevelUnmap_eq]
  match htop : s.toplevels with
  | [] =>
    rw [unmapped_toplevels, htop]
    exact hsplit
  | [only] =>
    rw [unmapped_toplevels, htop]
    exact hsplit
  | ct :: next :: rest =>
    by_cases hfirst : ct.surface = surface
    · subst hfirst
      obtain ⟨rest', htop'⟩ := unmapped_second h.distinct htop
      have hrendering : next.renderingOnly = true := by
        by_contra hreal
        exact hnext ⟨ct, next, rest, htop, rfl, by simpa using hreal⟩
      rw [htop']
      simp only [Toplevel.markUnmapped, if_true]
      obtain ⟨htext, hseat⟩ := focusToplevel_renderingOnly (s := unmapped s ct.surface) hrendering
      rw [FocusAgrees, htext, hseat]
      exact hsplit
    · rw [unmapped_toplevels, htop]
      simp only [update, List.map_cons, if_neg hfirst]
      exact hsplit

/-! ### Steps and runs -/

theorem fields_surfaceDestroyed {s : Server}
    (h : s.text.globals.focusFields = (s.seatFocus, s.seatFocus)) (surface : ℕ) :
    (s.surfaceDestroyed surface).text.globals.focusFields =
      ((s.surfaceDestroyed surface).seatFocus, (s.surfaceDestroyed surface).seatFocus) := by
  show (Ime.surfaceDestroyed s.text surface).globals.focusFields =
    (if s.seatFocus = some surface then none else s.seatFocus,
      if s.seatFocus = some surface then none else s.seatFocus)
  rw [Ime.focusFields_surfaceDestroyed, linked h, focused_eq h]
  by_cases hfocus : s.seatFocus = some surface
  · rw [if_pos ⟨hfocus, hfocus⟩, if_pos hfocus]
  · rw [if_neg fun hboth => hfocus hboth.1, if_neg hfocus]
    exact h

theorem fields_textOp {s : Server}
    (h : s.text.globals.focusFields = (s.seatFocus, s.seatFocus)) (op : Ime.TextDispatch) :
    (dispatchTextOp s op).text.globals.focusFields =
      ((dispatchTextOp s op).seatFocus, (dispatchTextOp s op).seatFocus) := by
  unfold dispatchTextOp
  simp only
  rw [Ime.focusFields_dispatch]
  split
  · rename_i surface hentered
    rw [hentered]
    exact fields_keyboardEnter (linked h) surface
  · rename_i hentered
    rw [hentered]
    exact h

/-- A guarded step keeps the two equal. -/
theorem fields_step {s t : Server} {e : ServerEvent} (h : AgreementInv s)
    (hstep : ServerStep s e t) (hguard : KeepsAgreement s e) :
    t.text.globals.focusFields = (t.seatFocus, t.seatFocus) := by
  have hlinked := linked h.fields
  cases hstep with
  | surfaceCreated htext =>
    simp only [Ime.Handler.next] at htext
    split at htext
    · exact Option.some.inj htext ▸ h.fields
    · simp at htext
  | surfaceDestroyed _ => exact fields_surfaceDestroyed h.fields _
  | mapToplevel appId _ =>
    unfold onToplevelMap
    simp only
    split
    · exact fields_focusToplevel (s := s.updateToplevel _ _) h.fields _
    · exact h.fields
  | unmapToplevel _ => exact fields_unmap h hguard
  | destroyToplevel _ => exact fields_leave_other h.fields hguard
  | mapXwayland created _ _ =>
    unfold onXwaylandSurfaceMap focusXwaylandView
    simp only
    split
    · split
      · exact h.fields
      · exact fields_keyboardEnter hlinked _
    · exact h.fields
  | unmapXwayland hview hsurface =>
    unfold onXwaylandSurfaceUnmap
    rw [if_neg (hguard _ _ hview hsurface)]
    exact h.fields
  | dissociate hview hsurface => exact fields_leave_other h.fields (hguard _ _ hview hsurface)
  | key =>
    unfold dispatchKey
    split
    · split
      · exact fields_keyboardEnter hlinked _
      · exact h.fields
    · exact h.fields
  | touchDown _ =>
    unfold dispatchTouchDown
    split
    · split
      · exact fields_keyboardEnter hlinked _
      · exact h.fields
    · exact h.fields
  | textOp op => exact fields_textOp h.fields op
  | request hrequest htext => exact (Ime.focusFields_request hrequest htext).trans h.fields
  | newToplevel _ | views _ _ _ | otherInput => exact h.fields

/-- A window with the seat's focus goes: text input has left it, the seat has not. -/
theorem not_focusAgrees_of_left {s t : Server}
    (hfields : t.text.globals.focusFields = (none, none)) {surface : ℕ}
    (hseat : t.seatFocus = s.seatFocus) (hfocus : s.seatFocus = some surface) :
    ¬ FocusAgrees t := by
  have hfocused : t.text.globals.focusedTextInputSurface = none := congrArg Prod.fst hfields
  rw [FocusAgrees, hfocused, hseat, hfocus]
  simp

theorem seatFocus_of_not_guard {s : Server} {window surface : ℕ} {view : XwaylandView}
    (hview : lookup XwaylandView.window window s.views = some view)
    (hsurface : view.surface = some surface)
    (hguard : ¬ ∀ view surface, lookup XwaylandView.window window s.views = some view →
      view.surface = some surface → s.seatFocus ≠ some surface) :
    s.seatFocus = some surface := by
  by_contra hfocus
  apply hguard
  intro view' surface' hview' hsurface'
  obtain rfl : view = view' := Option.some.inj (hview.symm.trans hview')
  obtain rfl : surface = surface' := Option.some.inj (hsurface.symm.trans hsurface')
  exact hfocus

theorem not_focusAgrees_step {s t : Server} {e : ServerEvent} (h : AgreementInv s)
    (hstep : ServerStep s e t) (hguard : ¬ KeepsAgreement s e) : ¬ FocusAgrees t := by
  cases hstep with
  | unmapToplevel _ => exact not_focusAgrees_unmap h hguard
  | destroyToplevel _ =>
    have hfocus := not_not.mp hguard
    exact not_focusAgrees_of_left (focused_leave_same h.fields hfocus) rfl hfocus
  | unmapXwayland hview hsurface =>
    have hfocus := seatFocus_of_not_guard hview hsurface hguard
    unfold onXwaylandSurfaceUnmap
    rw [if_pos hfocus]
    exact not_focusAgrees_of_left (focused_leave_same h.fields hfocus) rfl hfocus
  | dissociate hview hsurface =>
    have hfocus := seatFocus_of_not_guard hview hsurface hguard
    exact not_focusAgrees_of_left (focused_leave_same h.fields hfocus) rfl hfocus
  | views _ hchanges _ => exact absurd (by cases e <;> trivial) hguard
  | surfaceCreated _ | surfaceDestroyed _ | newToplevel _ | mapToplevel _ _ | mapXwayland _ _ _ |
    key | touchDown _ | otherInput | textOp _ | request _ _ => exact absurd trivial hguard

/-- **Text-input focus follows keyboard focus.**  In a run of the compositor the surface focused for
text input is the seat's focused surface in every state exactly when no step takes a window away
from the seat's focus without a new focus. -/
theorem focusAgrees_iff_keepsAgreement {s : Server} {run : List (ServerEvent × Server)}
    (hinit : s.Initial) (hrun : serverSystem.Exec s run) :
    AllStates FocusAgrees s run ↔ AllSteps KeepsAgreement s run := by
  have hinv : AgreementInv s := by
    obtain ⟨htop, -, hseat, htext, -⟩ := hinit
    refine ⟨?_, by simp [DistinctToplevels, Server.toplevelSurfaces, htop]⟩
    rw [Ime.Globals.focusFields, htext.2.1, htext.2.2.1, hseat]
  refine System.allStates_iff_allSteps (I := AgreementInv) (fun _ h => focused_eq h.fields) ?_ ?_
    hinv hrun
  · intro s e t h hstep hguard
    have hcases := serverStep_of_next hstep
    exact ⟨fields_step h hcases hguard, distinct_step h.distinct hcases⟩
  · intro s e t h hstep hguard
    exact not_focusAgrees_step h (serverStep_of_next hstep) hguard

/-- A second window is opened, takes the focus, and gives it back when it unmaps. -/
def windowOnTop : List ServerEvent :=
  [.surfaceCreated 1 10, .newToplevel 1, .mapToplevel 1 none, .surfaceCreated 2 20, .newToplevel 2,
    .mapToplevel 2 none, .key, .unmapToplevel 2]

theorem focusAgrees_on_windowOnTop :
    (traceNext Server.next freshServer windowOnTop).length = 8 ∧
      AllStates FocusAgrees freshServer (traceNext Server.next freshServer windowOnTop) := by
  refine ⟨rfl, (focusAgrees_iff_keepsAgreement freshServer_initial
    (System.exec_traceNext _ _ _)).mpr ⟨trivial, trivial, trivial, trivial, trivial, trivial,
      trivial, ?_, trivial⟩⟩
  intro _
  exact ⟨_, _, [], rfl, rfl, rfl⟩

/-- The only window is opened and unmapped. -/
def onlyWindowUnmaps : List ServerEvent :=
  [.surfaceCreated 1 10, .newToplevel 1, .mapToplevel 1 none, .unmapToplevel 1]

/-- The seat keeps its focus on the unmapped window, which text input has left. -/
theorem unmapped_window_keeps_seatFocus :
    ¬ ∀ (s : Server) (run : List (ServerEvent × Server)), s.Initial → serverSystem.Exec s run →
      AllStates FocusAgrees s run := by
  intro hall
  have hrun := hall freshServer (traceNext Server.next freshServer onlyWindowUnmaps)
    freshServer_initial (System.exec_traceNext _ _ _)
  have hlast : FocusAgrees ((runNext Server.next freshServer onlyWindowUnmaps).getD freshServer) :=
    hrun.2 (.unmapToplevel 1, _) (List.mem_of_getLast? rfl)
  cases hlast

end Wldroid.Compositor
