import Wldroid.Compositor.MappedFocus

/-!
# Toplevels for rendering only

Chromium's EGL surface has a toplevel of its own, which takes no keyboard.  Five places call
keyboard enter on toplevels, each with its own search of the list; as long as a real toplevel is
tracked, none of them picks one for rendering only.

* `SparesReal` — a surface that may be entered without taking the focus from a real toplevel;
* `enters_step` — the calls of keyboard enter one event makes;
* `realToplevels_keep_focus` — no event enters a toplevel for rendering only while there is a real
  one, and the list holds each live toplevel once.
-/

namespace Wldroid.Compositor

open Wldroid.Foundation

/-- If a toplevel that is not for rendering only is tracked, the surface is no toplevel's for
rendering only. -/
def SparesReal (s : Server) (surface : ℕ) : Prop :=
  (∃ ct ∈ s.toplevels, ct.renderingOnly = false) →
    ∀ ct ∈ s.toplevels, ct.surface = surface → ct.renderingOnly = false

/-- The calls of keyboard enter of one event spare real toplevels, by the list before the event and
by the list after it. -/
def KeepsRealFocus (s t : Server) : Prop :=
  ∃ new, t.enters = s.enters ++ new ∧
    ∀ enter ∈ new, SparesReal s enter.surface ∧ SparesReal t enter.surface

/-- The toplevels that are live after an event. -/
def liveToplevels (live : List ℕ) : ServerEvent → List ℕ
  | .newToplevel surface => surface :: live
  | .destroyToplevel surface => live.filter fun x => x ≠ surface
  | _ => live

/-! ### Kinds of toplevels -/

/-- Which surfaces are toplevels, and which of these are for rendering only. -/
def Server.kinds (s : Server) : List (ℕ × Bool) :=
  s.toplevels.map fun ct => (ct.surface, ct.renderingOnly)

theorem sparesReal_iff (s : Server) (x : ℕ) :
    SparesReal s x ↔ ((∃ k ∈ s.kinds, k.2 = false) → ∀ k ∈ s.kinds, k.1 = x → k.2 = false) := by
  simp [SparesReal, Server.kinds]

/-- Only the kinds matter, in any order. -/
theorem sparesReal_congr {s t : Server} (h : t.kinds.Perm s.kinds) (x : ℕ) :
    SparesReal t x ↔ SparesReal s x := by
  rw [sparesReal_iff, sparesReal_iff]
  simp only [h.mem_iff]

/-- The surface of a real toplevel. -/
theorem sparesReal_of_real {s : Server} (hd : DistinctToplevels s) {ct : Toplevel}
    (hmem : ct ∈ s.toplevels) (hreal : ct.renderingOnly = false) : SparesReal s ct.surface := by
  intro _ other hother hsurface
  rw [List.inj_on_of_nodup_map hd hother hmem hsurface]
  exact hreal

/-- A surface that is no toplevel's. -/
theorem sparesReal_of_not_mem {s : Server} {x : ℕ} (h : x ∉ s.toplevelSurfaces) :
    SparesReal s x := by
  intro _ ct hmem hsurface
  exact absurd (List.mem_map.mpr ⟨ct, hmem, hsurface⟩) h

theorem focusToplevel_kinds (s : Server) (ct : Toplevel) :
    (focusToplevel s ct).kinds.Perm s.kinds := by
  have hsame : (s.toplevels.map (activate ct)).map
      (fun other => (other.surface, other.renderingOnly)) = s.kinds := by
    rw [List.map_map]
    apply List.map_congr_left
    intro other _
    show ((activate ct other).surface, (activate ct other).renderingOnly) = _
    unfold activate
    split
    · rfl
    · split <;> rfl
  exact hsame ▸ (focusToplevel_perm s ct).map _

theorem unmapped_kinds (s : Server) (surface : ℕ) : (unmapped s surface).kinds = s.kinds := by
  unfold Server.kinds
  rw [unmapped_toplevels, update, List.map_map]
  apply List.map_congr_left
  intro ct _
  show ((if ct.surface = surface then ct.markUnmapped else ct).surface,
    (if ct.surface = surface then ct.markUnmapped else ct).renderingOnly) = _
  split <;> rfl

/-! ### The calls each event makes -/

/-- An event that makes no call. -/
theorem KeepsRealFocus.of_none {s t : Server} (h : t.enters = s.enters) : KeepsRealFocus s t :=
  ⟨[], by rw [h, List.append_nil], fun enter hmem => by cases hmem⟩

/-- An event that makes one call and keeps the kinds of toplevels. -/
theorem KeepsRealFocus.of_one {s t : Server} {enter : KeyboardEnter}
    (h : t.enters = s.enters ++ [enter]) (hkinds : t.kinds.Perm s.kinds)
    (hspares : SparesReal s enter.surface) : KeepsRealFocus s t := by
  refine ⟨[enter], h, fun e he => ?_⟩
  rw [List.mem_singleton.mp he]
  exact ⟨hspares, (sparesReal_congr hkinds _).mpr hspares⟩

/-- Focusing a tracked toplevel. -/
theorem keepsRealFocus_focusToplevel {s : Server} (hd : DistinctToplevels s) {ct : Toplevel}
    (hmem : ct ∈ s.toplevels) : KeepsRealFocus s (focusToplevel s ct) := by
  have henters := focusToplevel_enters s ct
  cases hreal : ct.renderingOnly with
  | true =>
    rw [hreal, if_pos rfl] at henters
    exact .of_none henters
  | false =>
    rw [hreal, if_neg Bool.false_ne_true] at henters
    exact .of_one henters (focusToplevel_kinds s ct) (sparesReal_of_real hd hmem hreal)

/-- Mapping marks the toplevel before it is focused. -/
theorem keepsRealFocus_map {s : Server} (hd : DistinctToplevels s) (surface : ℕ)
    (appId : Option String) : KeepsRealFocus s (onToplevelMap s surface appId) := by
  unfold onToplevelMap
  simp only
  split
  swap
  · exact .of_none rfl
  rename_i ct hct
  have hdistinct : DistinctToplevels (s.updateToplevel surface (Toplevel.markMapped appId)) := by
    have hsame : (s.updateToplevel surface (Toplevel.markMapped appId)).toplevelSurfaces =
        s.toplevelSurfaces :=
      map_key_update (f := Toplevel.markMapped appId) (fun _ => rfl) surface s.toplevels
    rw [DistinctToplevels, hsame]
    exact hd
  obtain ⟨hmem, hsurface⟩ := mem_of_lookup hct
  obtain ⟨new, henters, hspares⟩ := keepsRealFocus_focusToplevel hdistinct hmem
  refine ⟨new, henters, fun enter henter => ⟨?_, (hspares enter henter).2⟩⟩
  -- a toplevel that is not marked now was not marked before
  intro _ old hold hsame
  have hmarked : (if old.surface = surface then old.markMapped appId else old) ∈
      (s.updateToplevel surface (Toplevel.markMapped appId)).toplevels :=
    List.mem_map.mpr ⟨old, hold, rfl⟩
  have hreal : ct.renderingOnly = false := by
    have hfocus := focusToplevel_enters (s.updateToplevel surface (Toplevel.markMapped appId)) ct
    cases hkind : ct.renderingOnly with
    | false => rfl
    | true =>
      rw [hkind, if_pos rfl] at hfocus
      rw [hfocus] at henters
      have hnil := List.append_cancel_left ((List.append_nil _).trans henters)
      rw [← hnil] at henter
      cases henter
  have hnew := (hspares enter henter).1 ⟨ct, hmem, hreal⟩ _ hmarked (by split <;> exact hsame)
  split at hnew
  · exact (Bool.or_eq_false_iff.mp hnew).1
  · exact hnew

/-- The hand-over of an unmap focuses the second toplevel. -/
theorem keepsRealFocus_unmap {s : Server} (hd : DistinctToplevels s) (surface : ℕ) :
    KeepsRealFocus s (onToplevelUnmap s surface) := by
  have hnone : KeepsRealFocus s (unmapped s surface) := .of_none (unmapped_enters s surface)
  rw [onToplevelUnmap_eq]
  split
  · rename_i ct next rest htop
    split
    · have hdistinct : DistinctToplevels (unmapped s surface) := by
        rw [DistinctToplevels, unmapped_surfaces]
        exact hd
      have hmem : next ∈ (unmapped s surface).toplevels := by
        rw [htop]
        simp
      obtain ⟨new, henters, hspares⟩ := keepsRealFocus_focusToplevel hdistinct hmem
      rw [unmapped_enters] at henters
      refine ⟨new, henters, fun enter henter => ⟨?_, (hspares enter henter).2⟩⟩
      exact (sparesReal_congr (unmapped_kinds s surface ▸ List.Perm.refl _) _).mp
        (hspares enter henter).1
    · exact hnone
  · exact hnone

/-- The fallback of key dispatch: with both kinds of toplevels it takes a real one. -/
theorem sparesReal_keyTarget {s : Server} (hd : DistinctToplevels s) {target : ℕ}
    (h : keyTarget s = some target) : SparesReal s target := by
  rw [keyTarget_eq] at h
  obtain ⟨ct, hfind, rfl⟩ := Option.map_eq_some_iff.mp h
  have hmem := List.mem_of_find?_eq_some hfind
  have hkind := List.find?_some hfind
  cases hreal : ct.renderingOnly with
  | false => exact sparesReal_of_real hd hmem hreal
  | true =>
    rintro ⟨other, hother, hotherReal⟩
    have hmixed : s.mixed = true := by
      rw [Server.mixed, Bool.and_eq_true]
      exact ⟨List.any_eq_true.mpr ⟨ct, hmem, hreal⟩,
        List.any_eq_true.mpr ⟨other, hother, by rw [hotherReal]; rfl⟩⟩
    simp [hmixed, hreal] at hkind

/-- A touch enters what it hits only if there is nothing to redirect it to. -/
theorem sparesReal_of_no_redirect {s : Server} (h : findTouchRedirectSurface s = none) (x : ℕ) :
    SparesReal s x := by
  rintro ⟨real, hmem, hreal⟩ ct hct _
  cases hkind : ct.renderingOnly with
  | false => rfl
  | true =>
    have hany : s.toplevels.any Toplevel.renderingOnly = true := List.any_eq_true.mpr ⟨ct, hct, hkind⟩
    rw [findTouchRedirectSurface, if_pos hany, Option.map_eq_none_iff] at h
    have hnone := List.find?_eq_none.mp h real hmem
    rw [hreal] at hnone
    exact absurd rfl hnone

/-- The IME enters the first real toplevel. -/
theorem sparesReal_ensureKeyboardFocus {s : Server} (hd : DistinctToplevels s) {target : ℕ}
    (h : ensureKeyboardFocus s = some target) : SparesReal s target := by
  unfold ensureKeyboardFocus at h
  split at h
  · obtain ⟨ct, hfind, rfl⟩ := Option.map_eq_some_iff.mp h
    have hreal := List.find?_some hfind
    exact sparesReal_of_real hd (List.mem_of_find?_eq_some hfind) (by simpa using hreal)
  · cases h

/-- **The calls of keyboard enter one event makes** spare real toplevels. -/
theorem enters_step {s t : Server} {e : ServerEvent} (hd : DistinctToplevels s)
    (ha : ViewsApart s) (hstep : ServerStep s e t) : KeepsRealFocus s t := by
  cases hstep with
  | mapToplevel appId _ => exact keepsRealFocus_map hd _ appId
  | unmapToplevel _ => exact keepsRealFocus_unmap hd _
  | key =>
    unfold dispatchKey
    split
    · split
      · rename_i target htarget
        exact .of_one rfl (List.Perm.refl _) (sparesReal_keyTarget hd htarget)
      · exact .of_none rfl
    · exact .of_none rfl
  | touchDown _ =>
    unfold dispatchTouchDown
    split
    · split
      · rename_i hcond
        exact .of_one rfl (List.Perm.refl _) (sparesReal_of_no_redirect hcond.1 _)
      · exact .of_none rfl
    · exact .of_none rfl
  | textOp op =>
    unfold dispatchTextOp
    simp only
    split
    · cases htarget : ensureKeyboardFocus s with
      | none => exact .of_none (List.append_nil _)
      | some target =>
        exact .of_one rfl (List.Perm.refl _) (sparesReal_ensureKeyboardFocus hd htarget)
    · exact .of_none (List.append_nil _)
  | @mapXwayland window surface view created hview hsurface =>
    have hapart : surface ∉ s.toplevelSurfaces :=
      ha surface (List.mem_filterMap.mpr ⟨view, (mem_of_lookup hview).1, hsurface⟩)
    unfold onXwaylandSurfaceMap focusXwaylandView
    simp only
    split
    · split
      · exact .of_none rfl
      · exact .of_one rfl (List.Perm.refl _) (sparesReal_of_not_mem hapart)
    · exact .of_none rfl
  | unmapXwayland _ _ =>
    refine .of_none ?_
    unfold onXwaylandSurfaceUnmap
    simp only
    split <;> rfl
  | surfaceCreated _ | surfaceDestroyed _ | newToplevel _ | destroyToplevel _ | dissociate _ _ |
    otherInput | views _ _ _ | request _ _ => exact .of_none rfl

/-! ### The list -/

/-- One event changes the tracked surfaces as it changes the live toplevels. -/
theorem toplevelSurfaces_step {s t : Server} {e : ServerEvent} {live : List ℕ}
    (hlive : s.toplevelSurfaces.Perm live) (hstep : ServerStep s e t) :
    t.toplevelSurfaces.Perm (liveToplevels live e) := by
  cases hstep with
  | newToplevel _ => exact hlive.cons _
  | mapToplevel appId _ => exact (onToplevelMap_surfaces s _ appId).trans hlive
  | unmapToplevel _ => exact (onToplevelUnmap_surfaces s _).trans hlive
  | @destroyToplevel surface _ =>
    have hsame : (remove Toplevel.surface surface s.toplevels).map Toplevel.surface =
        s.toplevelSurfaces.filter fun x => x ≠ surface := by
      rw [remove, Server.toplevelSurfaces, List.filter_map]
      rfl
    show ((remove Toplevel.surface surface s.toplevels).map Toplevel.surface).Perm _
    rw [hsame]
    exact hlive.filter _
  | views views hchanges _ =>
    have hsame : liveToplevels live e = live := by
      cases e <;> first | rfl | cases hchanges
    rw [hsame]
    exact hlive
  | mapXwayland created _ _ => exact (onXwaylandSurfaceMap_surfaces s _ _ created).1 ▸ hlive
  | unmapXwayland _ _ => exact (onXwaylandSurfaceUnmap_surfaces s _ _).1 ▸ hlive
  | key =>
    unfold dispatchKey
    split
    · split <;> exact hlive
    · exact hlive
  | touchDown _ =>
    unfold dispatchTouchDown
    split
    · split <;> exact hlive
    · exact hlive
  | surfaceCreated _ | surfaceDestroyed _ | dissociate _ _ | otherInput | textOp _ | request _ _ =>
    exact hlive

/-! ### Runs -/

/-- **Real toplevels keep the focus.**  After any run the list holds each live toplevel once, and
whatever event comes next, none of its calls of keyboard enter is on a toplevel for rendering only
while a real one is tracked. -/
theorem realToplevels_keep_focus {s : Server} {run : List (ServerEvent × Server)}
    (hinit : s.Initial) (hrun : serverSystem.Exec s run) :
    (lastState s run).toplevelSurfaces.Nodup ∧
      (lastState s run).toplevelSurfaces.Perm ((run.map Prod.fst).foldl liveToplevels []) ∧
      ∀ e t, (lastState s run).next e = some t → KeepsRealFocus (lastState s run) t := by
  have hstart : DistinctToplevels s ∧ ViewsApart s ∧ s.toplevelSurfaces.Perm [] := by
    obtain ⟨htop, hviews, -⟩ := hinit
    refine ⟨?_, ?_, ?_⟩
    · simp [DistinctToplevels, Server.toplevelSurfaces, htop]
    · simp [ViewsApart, viewSurfaces, hviews]
    · simp [Server.toplevelSurfaces, htop]
  obtain ⟨hdistinct, hapart, hperm⟩ : DistinctToplevels (lastState s run) ∧
      ViewsApart (lastState s run) ∧
      (lastState s run).toplevelSurfaces.Perm ((run.map Prod.fst).foldl liveToplevels []) := by
    refine hrun.history
      (I := fun s live => DistinctToplevels s ∧ ViewsApart s ∧ s.toplevelSurfaces.Perm live)
      (fun s live e t h hstep => ?_) hstart
    obtain ⟨hd, ha, hlive⟩ := h
    have hcases := serverStep_of_next hstep
    exact ⟨distinct_step hd hcases, viewsApart_step ha hcases, toplevelSurfaces_step hlive hcases⟩
  exact ⟨hdistinct, hperm, fun e t hnext =>
    enters_step hdistinct hapart (serverStep_of_next hnext)⟩

/-- VS Code with its rendering surface, in front of a terminal that unmaps. -/
def codeAndTerminal : List ServerEvent :=
  [.surfaceCreated 1 10, .newToplevel 1, .mapToplevel 1 none, .surfaceCreated 2 10,
    .newToplevel 2, .mapToplevel 2 (some renderingAppId), .surfaceCreated 3 11, .newToplevel 3,
    .mapToplevel 3 none, .unmapToplevel 3, .destroyToplevel 3]

theorem realToplevels_keep_focus_on_codeAndTerminal :
    (lastState freshServer (traceNext Server.next freshServer codeAndTerminal)).toplevelSurfaces =
        [2, 1] ∧
      ∀ e t, (lastState freshServer (traceNext Server.next freshServer codeAndTerminal)).next e =
        some t →
          KeepsRealFocus (lastState freshServer (traceNext Server.next freshServer codeAndTerminal))
            t :=
  ⟨by rfl, (realToplevels_keep_focus freshServer_initial (System.exec_traceNext _ _ _)).2.2⟩

end Wldroid.Compositor
