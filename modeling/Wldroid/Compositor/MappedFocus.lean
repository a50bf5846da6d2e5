import Wldroid.Compositor.Server

/-!
# Keyboard focus and unmapped toplevels

Four places choose a surface for keyboard enter: mapping a toplevel, the hand-over when the first
one unmaps, the fallback of key dispatch and the fallback of the IME.  The first always enters a
mapped toplevel; the others take one from the list as it stands, where toplevels wait unmapped.

`onlyMappedEntered_iff_entersMapped` says exactly which runs stay clear of unmapped toplevels: those
in which the toplevel chosen is mapped each time one of the three makes its choice.
-/

namespace Wldroid.Compositor

open Wldroid.Foundation

/-- No call of keyboard enter so far was on a tracked toplevel that was not mapped. -/
def OnlyMappedEntered (s : Server) : Prop := ∀ e ∈ s.enters, e.toplevelMapped ≠ some false

/-- The first toplevel of a kind, if there is one, is mapped. -/
def FirstMapped (kind : Toplevel → Bool) (s : Server) : Prop :=
  ∀ ct, s.toplevels.find? kind = some ct → ct.mapped = true

/-- There are toplevels for rendering only and real ones. -/
def Server.mixed (s : Server) : Bool :=
  s.toplevels.any Toplevel.renderingOnly && s.toplevels.any fun ct => !ct.renderingOnly

/-- Where the event may give away the focus, the toplevel that is due is mapped: the second one when
the first unmaps; for a key the first one, not counting those for rendering only if there are
others; for IME text that falls back to keys the first one not for rendering only. -/
def EntersMapped (s : Server) : ServerEvent → Prop
  | .unmapToplevel surface => ∀ ct next rest, s.toplevels = ct :: next :: rest →
      ct.surface = surface → next.renderingOnly = false → next.mapped = true
  | .key => s.keyboard = true → s.seatFocus = none →
      FirstMapped (fun ct => !(s.mixed && ct.renderingOnly)) s
  | .textOp op => s.keyboard = true → s.seatFocus = none →
      (Ime.fallbackKeys s.text op).isSome = true → FirstMapped (fun ct => !ct.renderingOnly) s
  | _ => True

/-- The surfaces of the toplevels. -/
def Server.toplevelSurfaces (s : Server) : List ℕ := s.toplevels.map Toplevel.surface

/-- The toplevels have distinct surfaces. -/
def DistinctToplevels (s : Server) : Prop := s.toplevelSurfaces.Nodup

/-- An XWayland view's surface is no toplevel's. -/
def ViewsApart (s : Server) : Prop := ∀ x ∈ viewSurfaces s.views, x ∉ s.toplevelSurfaces

/-! ### Lookups -/

theorem mappedOf_eq_of_mem {toplevels : List Toplevel}
    (hnodup : (toplevels.map Toplevel.surface).Nodup) {ct : Toplevel} (hmem : ct ∈ toplevels) :
    mappedOf toplevels ct.surface = some ct.mapped := by
  rw [mappedOf, (lookup_eq_some_iff hnodup).mpr ⟨hmem, rfl⟩]
  rfl

@[simp] theorem activate_surface (ct other : Toplevel) :
    (activate ct other).surface = other.surface := by
  unfold activate
  split
  · rfl
  · split <;> rfl

@[simp] theorem activate_mapped (ct other : Toplevel) :
    (activate ct other).mapped = other.mapped := by
  unfold activate
  split
  · rfl
  · split <;> rfl

/-- Activation does not change what is mapped. -/
theorem mappedOf_activate (ct : Toplevel) (toplevels : List Toplevel) (surface : ℕ) :
    mappedOf (toplevels.map (activate ct)) surface = mappedOf toplevels surface := by
  rw [mappedOf, mappedOf, lookup_map (activate_surface ct), Option.map_map]
  congr 1
  funext other
  exact activate_mapped ct other

/-! ### The calls each operation adds -/

theorem onlyMappedEntered_keyboardEnter_iff {s : Server} (h : OnlyMappedEntered s) (surface : ℕ) :
    OnlyMappedEntered (s.keyboardEnter surface) ↔ mappedOf s.toplevels surface ≠ some false := by
  unfold OnlyMappedEntered Server.keyboardEnter
  constructor
  · intro hall
    exact hall ⟨surface, mappedOf s.toplevels surface⟩ (by simp)
  · intro hmapped e he
    rcases List.mem_append.mp he with he | he
    · exact h e he
    · rw [List.mem_singleton.mp he]
      exact hmapped

/-- Focusing a real toplevel enters its surface; focusing one for rendering only enters nothing. -/
theorem focusToplevel_enters (s : Server) (ct : Toplevel) :
    (focusToplevel s ct).enters =
      if ct.renderingOnly then s.enters
      else s.enters ++ [⟨ct.surface, mappedOf s.toplevels ct.surface⟩] := by
  unfold focusToplevel
  cases ct.renderingOnly with
  | true => rfl
  | false =>
    show s.enters ++ [⟨ct.surface, mappedOf (s.toplevels.map (activate ct)) ct.surface⟩] = _
    rw [mappedOf_activate]
    rfl

theorem onlyMappedEntered_focusToplevel_iff {s : Server} (h : OnlyMappedEntered s)
    (ct : Toplevel) : OnlyMappedEntered (focusToplevel s ct) ↔
      (ct.renderingOnly = false → mappedOf s.toplevels ct.surface ≠ some false) := by
  unfold OnlyMappedEntered
  rw [focusToplevel_enters]
  cases ct.renderingOnly with
  | true => exact iff_of_true h (by simp)
  | false =>
    have henter := onlyMappedEntered_keyboardEnter_iff h ct.surface
    simpa [OnlyMappedEntered, Server.keyboardEnter] using henter

/-! ### Lifecycle events -/

/-- A toplevel that maps is mapped when it is entered. -/
theorem onlyMappedEntered_map {s : Server} (h : OnlyMappedEntered s) (surface : ℕ)
    (appId : Option String) : OnlyMappedEntered (onToplevelMap s surface appId) := by
  have hsame : OnlyMappedEntered (s.updateToplevel surface (Toplevel.markMapped appId)) := h
  unfold onToplevelMap
  simp only
  split
  · rename_i ct hct
    refine (onlyMappedEntered_focusToplevel_iff hsame ct).mpr fun _ => ?_
    obtain ⟨hmem, rfl⟩ := mem_of_lookup hct
    obtain ⟨old, -, hold⟩ := List.mem_map.mp hmem
    have hmapped : ct.mapped = true := by
      rw [← hold]
      by_cases hsurface : old.surface = ct.surface
      · rw [if_pos hsurface]
        rfl
      · rw [if_neg hsurface] at hold
        exact absurd (congrArg Toplevel.surface hold) hsurface
    rw [mappedOf, hct, Option.map_some, hmapped]
    simp
  · exact hsame

/-- The server an unmap hands over from: the surface is not mapped, text-input focus has left it. -/
def unmapped (s : Server) (surface : ℕ) : Server :=
  let s := s.updateToplevel surface Toplevel.markUnmapped
  if s.seatFocus = some surface then s.keyboardLeave surface else s

theorem unmapped_toplevels (s : Server) (surface : ℕ) : (unmapped s surface).toplevels =
    update Toplevel.surface surface Toplevel.markUnmapped s.toplevels := by
  unfold unmapped
  simp only
  split <;> rfl

theorem unmapped_enters (s : Server) (surface : ℕ) : (unmapped s surface).enters = s.enters := by
  unfold unmapped
  simp only
  split <;> rfl

theorem onToplevelUnmap_eq (s : Server) (surface : ℕ) : onToplevelUnmap s surface =
    match (unmapped s surface).toplevels with
    | ct :: next :: _ =>
        if ct.surface = surface then focusToplevel (unmapped s surface) next
        else unmapped s surface
    | _ => unmapped s surface := rfl

/-- The first two toplevels after the unmap: when the first is the one unmapped, the second is as
it was. -/
theorem unmapped_second {s : Server} (h : DistinctToplevels s) {ct next : Toplevel}
    {rest : List Toplevel} (htop : s.toplevels = ct :: next :: rest) :
    ∃ rest', (unmapped s ct.surface).toplevels = ct.markUnmapped :: next :: rest' := by
  have hne : next.surface ≠ ct.surface := by
    intro heq
    rw [DistinctToplevels, Server.toplevelSurfaces, htop, List.map_cons, List.nodup_cons] at h
    exact h.1 (by simp [← heq])
  rw [unmapped_toplevels, htop]
  exact ⟨update Toplevel.surface ct.surface Toplevel.markUnmapped rest, by simp [update, hne]⟩

theorem unmapped_surfaces (s : Server) (surface : ℕ) :
    (unmapped s surface).toplevelSurfaces = s.toplevelSurfaces := by
  show (unmapped s surface).toplevels.map Toplevel.surface = _
  rw [unmapped_toplevels]
  exact map_key_update (f := Toplevel.markUnmapped) (fun _ => rfl) surface s.toplevels

/-- The hand-over enters a mapped toplevel exactly when the second one is, or is for rendering
only. -/
theorem onlyMappedEntered_unmap_iff {s : Server} (h : OnlyMappedEntered s)
    (hd : DistinctToplevels s) (surface : ℕ) :
    OnlyMappedEntered (onToplevelUnmap s surface) ↔ EntersMapped s (.unmapToplevel surface) := by
  have hsame : OnlyMappedEntered (unmapped s surface) := by
    unfold OnlyMappedEntered
    rw [unmapped_enters]
    exact h
  rw [onToplevelUnmap_eq]
  match htop : s.toplevels with
  | [] =>
    rw [show (unmapped s surface).toplevels = [] by rw [unmapped_toplevels, htop]; rfl]
    exact iff_of_true hsame fun ct next rest heq => by simp [htop] at heq
  | [only] =>
    obtain ⟨ct, hone⟩ : ∃ ct, (unmapped s surface).toplevels = [ct] := by
      rw [unmapped_toplevels, htop]
      exact ⟨_, rfl⟩
    rw [hone]
    exact iff_of_true hsame fun ct next rest heq => by simp [htop] at heq
  | ct :: next :: rest =>
    by_cases hfirst : ct.surface = surface
    · subst hfirst
      obtain ⟨rest', htop'⟩ := unmapped_second hd htop
      have hmapped : mappedOf (unmapped s ct.surface).toplevels next.surface =
          some next.mapped := by
        have hdistinct : DistinctToplevels (unmapped s ct.surface) := by
          rw [DistinctToplevels, unmapped_surfaces]
          exact hd
        apply mappedOf_eq_of_mem hdistinct
        rw [htop']
        simp
      rw [htop']
      show OnlyMappedEntered (if ct.surface = ct.surface then _ else _) ↔ _
      rw [if_pos rfl, onlyMappedEntered_focusToplevel_iff hsame, hmapped]
      constructor
      · intro hnext c n r heq _ hreal
        rw [htop] at heq
        obtain ⟨rfl, rfl, rfl⟩ : ct = c ∧ next = n ∧ rest = r := by simpa using heq
        simpa using hnext hreal
      · intro hguard hreal
        simpa using hguard ct next rest htop rfl hreal
    · -- the first toplevel is another one: nothing is handed over
      obtain ⟨next', rest', htop'⟩ : ∃ next' rest',
          (unmapped s surface).toplevels = ct :: next' :: rest' := by
        rw [unmapped_toplevels, htop]
        exact ⟨_, _, by simp only [update, List.map_cons, if_neg hfirst]; rfl⟩
      rw [htop']
      show OnlyMappedEntered (if ct.surface = surface then _ else _) ↔ _
      rw [if_neg hfirst]
      refine iff_of_true hsame fun c n r heq hc => ?_
      rw [htop] at heq
      obtain ⟨rfl, -⟩ := List.cons.inj heq
      exact absurd hc hfirst

/-! ### Input events -/

theorem keyTarget_eq (s : Server) : keyTarget s =
    (s.toplevels.find? fun ct => !(s.mixed && ct.renderingOnly)).map Toplevel.surface := by
  unfold keyTarget findTouchRedirectSurface firstRealToplevel Server.mixed
  cases hany : s.toplevels.any Toplevel.renderingOnly with
  | false => cases s.toplevels <;> simp
  | true =>
    cases hreal : s.toplevels.find? fun ct => !ct.renderingOnly with
    | none =>
      -- all are for rendering only: the first of them is taken
      have hnone : (s.toplevels.any fun ct => !ct.renderingOnly) = false := by
        simpa using List.find?_eq_none.mp hreal
      rw [hnone]
      cases s.toplevels <;> simp
    | some ct =>
      have hsome : (s.toplevels.any fun ct => !ct.renderingOnly) = true :=
        by
        have hkind := List.find?_some hreal
        exact List.any_eq_true.mpr ⟨ct, List.mem_of_find?_eq_some hreal, hkind⟩
      simp [hsome, hreal]

/-- Entering the first toplevel of a kind, or nothing if there is none. -/
theorem firstMapped_iff {s : Server} (hd : DistinctToplevels s) (kind : Toplevel → Bool) :
    FirstMapped kind s ↔ ∀ x, (s.toplevels.find? kind).map Toplevel.surface = some x →
      mappedOf s.toplevels x ≠ some false := by
  unfold FirstMapped
  cases hfind : s.toplevels.find? kind with
  | none => simp
  | some ct =>
    have hmapped := mappedOf_eq_of_mem hd (List.mem_of_find?_eq_some hfind)
    simp [hmapped]

theorem onlyMappedEntered_key_iff {s : Server} (h : OnlyMappedEntered s)
    (hd : DistinctToplevels s) : OnlyMappedEntered (dispatchKey s) ↔ EntersMapped s .key := by
  rw [EntersMapped, firstMapped_iff hd, ← keyTarget_eq, dispatchKey]
  split
  · rename_i hcond
    obtain ⟨hkeyboard, hfocus⟩ := hcond
    cases htarget : keyTarget s with
    | none => exact iff_of_true h (by simp)
    | some target =>
      show OnlyMappedEntered (s.keyboardEnter target) ↔ _
      rw [onlyMappedEntered_keyboardEnter_iff h]
      simp [hkeyboard, hfocus]
  · rename_i hcond
    exact iff_of_true h fun hkeyboard hfocus => absurd ⟨hkeyboard, hfocus⟩ hcond

/-- A touch can only hit what is displayed. -/
theorem onlyMappedEntered_touch {s : Server} (h : OnlyMappedEntered s) {hit : Option ℕ}
    (hhit : hit.all (fun surface => s.canHit surface) = true) :
    OnlyMappedEntered (dispatchTouchDown s hit) := by
  unfold dispatchTouchDown
  cases hit with
  | none => exact h
  | some surface =>
    simp only
    split
    · rw [onlyMappedEntered_keyboardEnter_iff h]
      have hcan : s.canHit surface = true := hhit
      unfold Server.canHit at hcan
      rw [Bool.and_eq_true] at hcan
      simpa using hcan.2
    · exact h

/-- Entering nothing, or one surface more. -/
theorem onlyMappedEntered_append_iff {s t : Server} (h : OnlyMappedEntered s) {entered : Option ℕ}
    (ht : t.enters = s.enters ++ entered.toList.map fun x => ⟨x, mappedOf s.toplevels x⟩) :
    OnlyMappedEntered t ↔ ∀ x, entered = some x → mappedOf s.toplevels x ≠ some false := by
  unfold OnlyMappedEntered
  rw [ht]
  cases entered with
  | none => simpa using fun e he => h e he
  | some x =>
    have henter := onlyMappedEntered_keyboardEnter_iff h x
    simpa [OnlyMappedEntered, Server.keyboardEnter] using henter

theorem onlyMappedEntered_textOp_iff {s : Server} (h : OnlyMappedEntered s)
    (hd : DistinctToplevels s) (op : Ime.TextDispatch) :
    OnlyMappedEntered (dispatchTextOp s op) ↔ EntersMapped s (.textOp op) := by
  rw [onlyMappedEntered_append_iff h rfl, EntersMapped, firstMapped_iff hd]
  by_cases hcond : (Ime.fallbackKeys s.text op).isSome = true ∧ s.keyboard = true
  · obtain ⟨hfalls, hkeyboard⟩ := hcond
    rw [if_pos ⟨hfalls, hkeyboard⟩, ensureKeyboardFocus]
    by_cases hfocus : s.seatFocus = none
    · rw [if_pos hfocus]
      exact ⟨fun hentered _ _ _ => hentered, fun hguard => hguard hkeyboard hfocus hfalls⟩
    · rw [if_neg hfocus]
      exact iff_of_true (by simp) fun _ hnone => absurd hnone hfocus
  · rw [if_neg hcond]
    exact iff_of_true (by simp) fun hkeyboard _ hfalls => absurd ⟨hfalls, hkeyboard⟩ hcond

/-! ### Which surfaces there are -/

theorem focusToplevel_perm (s : Server) (ct : Toplevel) :
    (focusToplevel s ct).toplevels.Perm (s.toplevels.map (activate ct)) := by
  unfold focusToplevel
  cases ct.renderingOnly <;> exact moveToFront_perm _ _

theorem focusToplevel_surfaces (s : Server) (ct : Toplevel) :
    (focusToplevel s ct).toplevelSurfaces.Perm s.toplevelSurfaces := by
  have hsame : (s.toplevels.map (activate ct)).map Toplevel.surface = s.toplevelSurfaces := by
    rw [List.map_map, show Toplevel.surface ∘ activate ct = Toplevel.surface from
      funext (activate_surface ct)]
    rfl
  exact hsame ▸ (focusToplevel_perm s ct).map Toplevel.surface

theorem focusToplevel_views (s : Server) (ct : Toplevel) :
    (focusToplevel s ct).views = s.views := by
  unfold focusToplevel
  cases ct.renderingOnly <;> rfl

theorem onToplevelMap_views (s : Server) (surface : ℕ) (appId : Option String) :
    (onToplevelMap s surface appId).views = s.views := by
  unfold onToplevelMap
  simp only
  split
  · exact focusToplevel_views _ _
  · rfl

theorem unmapped_views (s : Server) (surface : ℕ) : (unmapped s surface).views = s.views := by
  unfold unmapped
  simp only
  split <;> rfl

theorem onToplevelUnmap_views (s : Server) (surface : ℕ) :
    (onToplevelUnmap s surface).views = s.views := by
  rw [onToplevelUnmap_eq, ← unmapped_views s surface]
  split
  · split
    · exact focusToplevel_views _ _
    · rfl
  · rfl

theorem onToplevelMap_surfaces (s : Server) (surface : ℕ) (appId : Option String) :
    (onToplevelMap s surface appId).toplevelSurfaces.Perm s.toplevelSurfaces := by
  have hupdate : (s.updateToplevel surface (Toplevel.markMapped appId)).toplevelSurfaces =
      s.toplevelSurfaces :=
    map_key_update (f := Toplevel.markMapped appId) (fun _ => rfl) surface s.toplevels
  unfold onToplevelMap
  simp only
  rw [← hupdate]
  split
  · exact focusToplevel_surfaces _ _
  · exact List.Perm.refl _

theorem onToplevelUnmap_surfaces (s : Server) (surface : ℕ) :
    (onToplevelUnmap s surface).toplevelSurfaces.Perm s.toplevelSurfaces := by
  rw [onToplevelUnmap_eq, ← unmapped_surfaces s surface]
  split
  · split
    · exact focusToplevel_surfaces _ _
    · exact List.Perm.refl _
  · exact List.Perm.refl _

theorem viewSurfaces_update (window : ℕ) (f : XwaylandView → XwaylandView)
    (hf : ∀ view, (f view).surface = view.surface) (views : List XwaylandView) :
    viewSurfaces (update XwaylandView.window window f views) = viewSurfaces views := by
  unfold viewSurfaces update
  rw [List.filterMap_map]
  congr 1
  funext view
  show (if view.window = window then f view else view).surface = view.surface
  split
  · exact hf view
  · rfl

theorem onXwaylandSurfaceMap_surfaces (s : Server) (view : XwaylandView) (surface : ℕ)
    (created : Bool) :
    (onXwaylandSurfaceMap s view surface created).toplevelSurfaces = s.toplevelSurfaces ∧
      viewSurfaces (onXwaylandSurfaceMap s view surface created).views =
        viewSurfaces s.views := by
  have hviews := viewSurfaces_update view.window
    (fun view => { view with mapped := true, sceneTree := created }) (fun _ => rfl) s.views
  unfold onXwaylandSurfaceMap focusXwaylandView
  simp only
  split
  · split <;> exact ⟨rfl, hviews⟩
  · exact ⟨rfl, hviews⟩

theorem onXwaylandSurfaceUnmap_surfaces (s : Server) (view : XwaylandView) (surface : ℕ) :
    (onXwaylandSurfaceUnmap s view surface).toplevelSurfaces = s.toplevelSurfaces ∧
      viewSurfaces (onXwaylandSurfaceUnmap s view surface).views = viewSurfaces s.views := by
  have hviews := viewSurfaces_update view.window
    (fun view => { view with mapped := false, sceneTree := false }) (fun _ => rfl) s.views
  unfold onXwaylandSurfaceUnmap
  simp only
  split <;> exact ⟨rfl, hviews⟩

/-- What a step does to the surfaces of toplevels and views: it permutes or drops some, or it gives
one without a window to a new toplevel or to a view. -/
theorem surfaces_step {s t : Server} {e : ServerEvent} (hstep : ServerStep s e t) :
    (t.toplevelSurfaces.Subperm s.toplevelSurfaces ∧
      ∀ x ∈ viewSurfaces t.views, x ∈ viewSurfaces s.views ∨ s.isBare x = true) ∨
    ∃ x, s.isBare x = true ∧ t.toplevelSurfaces = x :: s.toplevelSurfaces ∧ t.views = s.views := by
  have keep : ∀ {u : Server}, u.toplevels = s.toplevels → u.views = s.views →
      (u.toplevelSurfaces.Subperm s.toplevelSurfaces ∧
        ∀ x ∈ viewSurfaces u.views, x ∈ viewSurfaces s.views ∨ s.isBare x = true) := by
    intro u htop hviews
    rw [Server.toplevelSurfaces, htop, hviews]
    exact ⟨List.Subperm.refl _, fun x hx => .inl hx⟩
  cases hstep with
  | newToplevel hbare => exact .inr ⟨_, hbare, rfl, rfl⟩
  | mapToplevel appId _ =>
    refine .inl ⟨(onToplevelMap_surfaces s _ appId).subperm, fun x hx => .inl ?_⟩
    rwa [onToplevelMap_views] at hx
  | unmapToplevel _ =>
    refine .inl ⟨(onToplevelUnmap_surfaces s _).subperm, fun x hx => .inl ?_⟩
    rwa [onToplevelUnmap_views] at hx
  | destroyToplevel _ =>
    exact .inl ⟨((remove_sublist _ s.toplevels).map _).subperm, fun x hx => .inl hx⟩
  | views views _ hnew => exact .inl ⟨List.Subperm.refl _, hnew⟩
  | mapXwayland created _ _ =>
    obtain ⟨htop, hviews⟩ := onXwaylandSurfaceMap_surfaces s _ _ created
    exact .inl ⟨htop ▸ List.Subperm.refl _, fun x hx => .inl (hviews ▸ hx)⟩
  | unmapXwayland _ _ =>
    obtain ⟨htop, hviews⟩ := onXwaylandSurfaceUnmap_surfaces s _ _
    exact .inl ⟨htop ▸ List.Subperm.refl _, fun x hx => .inl (hviews ▸ hx)⟩
  | dissociate _ _ =>
    refine .inl ⟨List.Subperm.refl _, fun x hx => mem_viewSurfaces_update ?_ hx⟩
    intro view hsurface
    simp at hsurface
  | key =>
    unfold dispatchKey
    split
    · split <;> exact .inl (keep rfl rfl)
    · exact .inl (keep rfl rfl)
  | touchDown _ =>
    unfold dispatchTouchDown
    split
    · split <;> exact .inl (keep rfl rfl)
    · exact .inl (keep rfl rfl)
  | surfaceCreated _ | surfaceDestroyed _ | otherInput | textOp _ | request _ _ =>
    exact .inl (keep rfl rfl)

/-! ### Steps and runs -/

/-- What holds along a run that never enters an unmapped toplevel. -/
structure MappedInv (s : Server) : Prop where
  entered : OnlyMappedEntered s
  distinct : DistinctToplevels s
  apart : ViewsApart s

theorem not_mem_of_isBare {s : Server} {x : ℕ} (hbare : s.isBare x = true) :
    x ∉ s.toplevelSurfaces ∧ x ∉ viewSurfaces s.views := by
  simp only [Server.isBare, Bool.and_eq_true, Option.isNone_iff_eq_none, List.all_eq_true,
    decide_eq_true_eq] at hbare
  obtain ⟨⟨-, hlookup⟩, hviews⟩ := hbare
  refine ⟨lookup_eq_none_iff.mp hlookup, fun hmem => ?_⟩
  obtain ⟨view, hview, hsurface⟩ := List.mem_filterMap.mp hmem
  exact hviews view hview hsurface

theorem distinct_step {s t : Server} {e : ServerEvent} (hd : DistinctToplevels s)
    (hstep : ServerStep s e t) : DistinctToplevels t := by
  unfold DistinctToplevels
  rcases surfaces_step hstep with ⟨⟨l, hperm, hsub⟩, -⟩ | ⟨x, hbare, htop, -⟩
  · exact hperm.nodup_iff.mp (hsub.nodup hd)
  · rw [htop, List.nodup_cons]
    exact ⟨(not_mem_of_isBare hbare).1, hd⟩

theorem viewsApart_step {s t : Server} {e : ServerEvent} (ha : ViewsApart s)
    (hstep : ServerStep s e t) : ViewsApart t := by
  intro x hx htop
  rcases surfaces_step hstep with ⟨hsub, hviews⟩ | ⟨y, hbare, hcons, hviews⟩
  · have hold := hsub.subset htop
    rcases hviews x hx with hview | hbare
    · exact ha x hview hold
    · exact (not_mem_of_isBare hbare).1 hold
  · rw [hviews] at hx
    rw [hcons] at htop
    rcases List.mem_cons.mp htop with rfl | hold
    · exact (not_mem_of_isBare hbare).2 hx
    · exact ha x hx hold

/-- A view that maps is entered with a surface that is no toplevel's. -/
theorem onlyMappedEntered_mapXwayland {s : Server} (h : MappedInv s) {window surface : ℕ}
    {view : XwaylandView} (hview : lookup XwaylandView.window window s.views = some view)
    (hsurface : view.surface = some surface) (created : Bool) :
    OnlyMappedEntered (onXwaylandSurfaceMap s view surface created) := by
  have hnone : mappedOf s.toplevels surface = none := by
    have hmem : surface ∈ viewSurfaces s.views :=
      List.mem_filterMap.mpr ⟨view, (mem_of_lookup hview).1, hsurface⟩
    rw [mappedOf, lookup_eq_none_iff.mpr (h.apart surface hmem)]
    rfl
  unfold onXwaylandSurfaceMap focusXwaylandView
  simp only
  split
  · split
    · exact h.entered
    · refine (onlyMappedEntered_keyboardEnter_iff (s := { s with views := _ }) h.entered _).mpr ?_
      show mappedOf s.toplevels surface ≠ some false
      rw [hnone]
      simp
  · exact h.entered

/-- A step enters no unmapped toplevel exactly when the toplevel that is due is mapped. -/
theorem onlyMappedEntered_step_iff {s t : Server} {e : ServerEvent} (h : MappedInv s)
    (hstep : ServerStep s e t) : OnlyMappedEntered t ↔ EntersMapped s e := by
  cases hstep with
  | mapToplevel appId _ => exact iff_of_true (onlyMappedEntered_map h.entered _ appId) trivial
  | unmapToplevel _ => exact onlyMappedEntered_unmap_iff h.entered h.distinct _
  | key => exact onlyMappedEntered_key_iff h.entered h.distinct
  | touchDown hhit => exact iff_of_true (onlyMappedEntered_touch h.entered hhit) trivial
  | textOp op => exact onlyMappedEntered_textOp_iff h.entered h.distinct op
  | mapXwayland created hview hsurface =>
    exact iff_of_true (onlyMappedEntered_mapXwayland h hview hsurface created) trivial
  | unmapXwayland _ _ =>
    refine iff_of_true ?_ trivial
    unfold onXwaylandSurfaceUnmap
    simp only
    split <;> exact h.entered
  | views views hchanges _ =>
    refine iff_of_true h.entered ?_
    cases e <;> trivial
  | surfaceCreated _ | surfaceDestroyed _ | newToplevel _ | destroyToplevel _ | dissociate _ _ |
    otherInput | request _ _ => exact iff_of_true h.entered trivial

/-- **Keyboard focus on mapped toplevels.**  A run of the compositor enters unmapped toplevels in no
state exactly when, at each unmap of the first toplevel, each key and each IME text that falls back
to keys, the toplevel due for the focus is mapped. -/
theorem onlyMappedEntered_iff_entersMapped {s : Server} {run : List (ServerEvent × Server)}
    (hinit : s.Initial) (hrun : serverSystem.Exec s run) :
    AllStates OnlyMappedEntered s run ↔ AllSteps EntersMapped s run := by
  have hinv : MappedInv s := by
    obtain ⟨htop, hviews, -, -, henters⟩ := hinit
    refine ⟨?_, ?_, ?_⟩
    · simp [OnlyMappedEntered, henters]
    · simp [DistinctToplevels, Server.toplevelSurfaces, htop]
    · simp [ViewsApart, viewSurfaces, hviews]
  refine System.allStates_iff_allSteps (I := MappedInv) (fun _ h => h.entered) ?_ ?_ hinv hrun
  · intro s e t h hstep hguard
    have hcases := serverStep_of_next hstep
    exact ⟨(onlyMappedEntered_step_iff h hcases).mpr hguard, distinct_step h.distinct hcases,
      viewsApart_step h.apart hcases⟩
  · intro s e t h hstep hguard hentered
    exact hguard ((onlyMappedEntered_step_iff h (serverStep_of_next hstep)).mp hentered)

/-- A compositor that has just started, with a keyboard. -/
def freshServer : Server := ⟨[], [], true, none, Ime.freshHandler, []⟩

theorem freshServer_initial : freshServer.Initial := ⟨rfl, rfl, rfl, Ime.freshHandler_initial, rfl⟩

/-- One window is opened and typed into. -/
def oneWindow : List ServerEvent :=
  [.surfaceCreated 1 10, .newToplevel 1, .mapToplevel 1 none, .key]

theorem onlyMappedEntered_on_oneWindow :
    (traceNext Server.next freshServer oneWindow).length = 4 ∧
      AllStates OnlyMappedEntered freshServer (traceNext Server.next freshServer oneWindow) := by
  refine ⟨rfl, (onlyMappedEntered_iff_entersMapped freshServer_initial
    (System.exec_traceNext _ _ _)).mpr ⟨trivial, trivial, trivial, ?_, trivial⟩⟩
  -- at the key the window already has the focus
  intro _ hfocus
  cases hfocus

/-- A window that has not been mapped yet, and a key. -/
def keyBeforeMap : List ServerEvent := [.surfaceCreated 1 10, .newToplevel 1, .key]

/-- The key makes the unmapped window the focus. -/
theorem unmapped_toplevel_is_entered :
    ¬ ∀ (s : Server) (run : List (ServerEvent × Server)), s.Initial → serverSystem.Exec s run →
      AllStates OnlyMappedEntered s run := by
  intro hall
  have hrun := hall freshServer (traceNext Server.next freshServer keyBeforeMap)
    freshServer_initial (System.exec_traceNext _ _ _)
  have hlast : OnlyMappedEntered ((runNext Server.next freshServer keyBeforeMap).getD freshServer) :=
    hrun.2 (.key, _) (List.mem_of_getLast? rfl)
  exact hlast ⟨1, some false⟩ (List.mem_singleton.mpr rfl) rfl

end Wldroid.Compositor
