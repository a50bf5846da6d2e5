import Mathlib.Tactic

/-!
# Signals and their listeners

An object announces what happens to it through signals.  Others link listeners into them and take
them out again.  A listener has one link only, so linking it while it is linked, or taking it out
while it is not, breaks the lists.

* `Signals.add`, `Signals.remove` — one listener, with `none` for the two mistakes;
* `Signals.addAll`, `Signals.removeAll` — several in a row: `addAll_eq` and `removeAll_eq` tell when
  no mistake is made and what is linked afterwards;
* `Signals.Proper` — no listener is linked twice;
* `Signals.emit` — calling those who listen: `emit_nobody` and `emit_one`;
* `addAll_own`, `removeAll_own` — the listeners of one owner, linked and taken out together;
* `Attached` — owners that listen to one object each, with `attach`, `detach` and `emit_owner`.
-/

namespace Wldroid.Foundation

/-- What is linked where, in the order of linking. -/
structure Signals (σ ι : Type) where
  links : List (σ × ι)

namespace Signals

variable {σ ι : Type}

/-- Nobody listens. -/
def empty : Signals σ ι := ⟨[]⟩

/-- All listeners that are linked into some signal. -/
def linked (g : Signals σ ι) : List ι := g.links.map Prod.snd

/-- Who listens to a signal. -/
def listeners [DecidableEq σ] (g : Signals σ ι) (s : σ) : List ι :=
  (g.links.filter fun p => p.1 = s).map Prod.snd

/-- Link a listener into a signal. -/
def add [DecidableEq ι] (g : Signals σ ι) (s : σ) (l : ι) : Option (Signals σ ι) :=
  if l ∈ g.linked then none else some ⟨g.links ++ [(s, l)]⟩

/-- Take a listener out of the signal it is in. -/
def remove [DecidableEq ι] (g : Signals σ ι) (l : ι) : Option (Signals σ ι) :=
  if l ∈ g.linked then some ⟨g.links.filter fun p => p.2 ≠ l⟩ else none

/-- Link several listeners, one after the other. -/
def addAll [DecidableEq ι] : Signals σ ι → List (σ × ι) → Option (Signals σ ι)
  | g, [] => some g
  | g, (s, l) :: rest => (g.add s l).bind fun g' => g'.addAll rest

/-- Take several listeners out, one after the other. -/
def removeAll [DecidableEq ι] : Signals σ ι → List ι → Option (Signals σ ι)
  | g, [] => some g
  | g, l :: rest => (g.remove l).bind fun g' => g'.removeAll rest

/-- No listener is linked twice. -/
def Proper (g : Signals σ ι) : Prop := g.linked.Nodup

/-- Call all who listen to a signal, one after the other; `none` when one of them fails. -/
def emit [DecidableEq σ] {τ : Type} (g : Signals σ ι) (notify : ι → τ → Option τ) (s : σ) (t : τ) :
    Option τ :=
  (g.listeners s).foldlM (fun t l => notify l t) t

variable {g : Signals σ ι} {s : σ} {l : ι}

theorem mem_linked : l ∈ g.linked ↔ ∃ s, (s, l) ∈ g.links := by
  constructor
  · intro h
    obtain ⟨⟨s, l'⟩, hmem, rfl⟩ := List.mem_map.mp h
    exact ⟨s, hmem⟩
  · rintro ⟨s, hmem⟩
    exact List.mem_map.mpr ⟨(s, l), hmem, rfl⟩

theorem mem_listeners [DecidableEq σ] : l ∈ g.listeners s ↔ (s, l) ∈ g.links := by
  simp [listeners]

/-! ### Linking -/

/-- Listeners that are not linked yet can all be linked. -/
theorem addAll_eq [DecidableEq ι] {new : List (σ × ι)} (hnodup : (new.map Prod.snd).Nodup)
    (hnew : ∀ p ∈ new, p.2 ∉ g.linked) : g.addAll new = some ⟨g.links ++ new⟩ := by
  induction new generalizing g with
  | nil =>
    show some g = some ⟨g.links ++ []⟩
    rw [List.append_nil]
  | cons p rest ih =>
    obtain ⟨s, l⟩ := p
    rw [List.map_cons, List.nodup_cons] at hnodup
    have hfirst : g.add s l = some ⟨g.links ++ [(s, l)]⟩ := if_neg (hnew (s, l) List.mem_cons_self)
    have hrest : ∀ p ∈ rest, p.2 ∉ (⟨g.links ++ [(s, l)]⟩ : Signals σ ι).linked := by
      intro p hp hmem
      rw [linked, List.map_append, List.mem_append] at hmem
      rcases hmem with hmem | hmem
      · exact hnew p (List.mem_cons_of_mem _ hp) hmem
      · rw [List.map_singleton, List.mem_singleton] at hmem
        exact hnodup.1 (hmem ▸ List.mem_map_of_mem hp)
    show (g.add s l).bind (fun g' => g'.addAll rest) = some ⟨g.links ++ (s, l) :: rest⟩
    rw [hfirst, Option.bind_some, ih hnodup.2 hrest, List.append_assoc, List.singleton_append]

theorem Proper.append {new : List (σ × ι)} (h : g.Proper) (hnodup : (new.map Prod.snd).Nodup)
    (hnew : ∀ p ∈ new, p.2 ∉ g.linked) : (⟨g.links ++ new⟩ : Signals σ ι).Proper := by
  show (List.map Prod.snd (g.links ++ new)).Nodup
  rw [List.map_append, List.nodup_append']
  refine ⟨h, hnodup, ?_⟩
  intro l hl hmem
  obtain ⟨p, hp, rfl⟩ := List.mem_map.mp hmem
  exact hnew p hp hl

/-! ### Taking out -/

section TakingOut

variable [DecidableEq ι]

theorem linked_filter (old : List ι) :
    (⟨g.links.filter fun p => p.2 ∉ old⟩ : Signals σ ι).linked = g.linked.filter (· ∉ old) := by
  unfold linked
  rw [List.filter_map]
  rfl

theorem mem_links_filter {old : List ι} {p : σ × ι} :
    p ∈ g.links.filter (fun p => p.2 ∉ old) ↔ p ∈ g.links ∧ p.2 ∉ old := by
  rw [List.mem_filter, decide_eq_true_iff]

theorem Proper.filter (h : g.Proper) (old : List ι) :
    (⟨g.links.filter fun p => p.2 ∉ old⟩ : Signals σ ι).Proper := by
  unfold Proper
  rw [linked_filter]
  exact List.Nodup.filter _ h

/-- Different listeners that are linked can all be taken out. -/
theorem removeAll_eq {old : List ι} (hnodup : old.Nodup) (hold : ∀ l ∈ old, l ∈ g.linked) :
    g.removeAll old = some ⟨g.links.filter fun p => p.2 ∉ old⟩ := by
  induction old generalizing g with
  | nil =>
    show some g = some ⟨g.links.filter fun p => p.2 ∉ []⟩
    simp
  | cons l rest ih =>
    rw [List.nodup_cons] at hnodup
    have hfirst : g.remove l = some ⟨g.links.filter fun p => p.2 ≠ l⟩ :=
      if_pos (hold l List.mem_cons_self)
    have hrest : ∀ l' ∈ rest, l' ∈ (⟨g.links.filter fun p => p.2 ≠ l⟩ : Signals σ ι).linked := by
      intro l' hl'
      obtain ⟨s, hmem⟩ := mem_linked.mp (hold l' (List.mem_cons_of_mem _ hl'))
      refine mem_linked.mpr ⟨s, List.mem_filter.mpr ⟨hmem, ?_⟩⟩
      have hne : l' ≠ l := fun heq => hnodup.1 (heq ▸ hl')
      simpa using hne
    show (g.remove l).bind (fun g' => g'.removeAll rest) = _
    rw [hfirst, Option.bind_some, ih hnodup.2 hrest, List.filter_filter]
    congr 3
    funext p
    simp [Bool.and_comm]

end TakingOut

/-! ### Calling -/

section Calling

variable [DecidableEq σ]

theorem listeners_eq_nil (h : ∀ l, (s, l) ∉ g.links) : g.listeners s = [] :=
  List.eq_nil_iff_forall_not_mem.mpr fun l hl => h l (mem_listeners.mp hl)

/-- If nobody listens, nothing happens. -/
theorem emit_nobody {τ : Type} (notify : ι → τ → Option τ) (t : τ) (h : ∀ l, (s, l) ∉ g.links) :
    g.emit notify s t = some t := by
  unfold emit
  rw [listeners_eq_nil h]
  rfl

/-- The only listener is called once. -/
theorem listeners_eq_singleton (h : g.Proper) (hmem : (s, l) ∈ g.links)
    (honly : ∀ l', (s, l') ∈ g.links → l' = l) : g.listeners s = [l] := by
  have hsub : (g.listeners s).Sublist g.linked := List.filter_sublist.map _
  have hnodup : (g.listeners s).Nodup := hsub.nodup h
  have hall : ∀ l' ∈ g.listeners s, l' = l := fun l' hl' => honly l' (mem_listeners.mp hl')
  have hperm := List.eq_replicate_of_mem hall
  have hpos : 0 < (g.listeners s).length := List.length_pos_of_mem (mem_listeners.mpr hmem)
  have hle : (g.listeners s).length ≤ 1 := by
    rw [hperm] at hnodup
    exact List.nodup_replicate.mp hnodup
  rw [hperm, show (g.listeners s).length = 1 by omega]
  rfl

theorem emit_one {τ : Type} (notify : ι → τ → Option τ) (t : τ) (h : g.Proper)
    (hmem : (s, l) ∈ g.links) (honly : ∀ l', (s, l') ∈ g.links → l' = l) :
    g.emit notify s t = notify l t := by
  unfold emit
  rw [listeners_eq_singleton h hmem honly]
  show (notify l t >>= fun t' => pure t') = notify l t
  exact bind_pure (notify l t)

end Calling

/-! ### Owners -/

section Owners

variable {ω κ : Type} [DecidableEq ω] [DecidableEq κ] {g : Signals σ (ω × κ)} {v : ω} {ks : List κ}

/-- An owner links some of its listeners. -/
theorem addAll_own (h : g.Proper) (hks : ks.Nodup) (signal : κ → σ)
    (hnew : ∀ k ∈ ks, (v, k) ∉ g.linked) :
    ∃ g', g.addAll (ks.map fun k => (signal k, (v, k))) = some g' ∧ g'.Proper ∧
      ∀ s v' k, (s, (v', k)) ∈ g'.links ↔
        (s, (v', k)) ∈ g.links ∨ (v' = v ∧ k ∈ ks ∧ signal k = s) := by
  have hnodup : ((ks.map fun k => (signal k, (v, k))).map Prod.snd).Nodup := by
    rw [List.map_map]
    exact hks.map fun k k' heq => congrArg Prod.snd heq
  have hout : ∀ p ∈ ks.map fun k => (signal k, (v, k)), p.2 ∉ g.linked := by
    intro p hp
    obtain ⟨k, hk, rfl⟩ := List.mem_map.mp hp
    exact hnew k hk
  refine ⟨_, addAll_eq hnodup hout, h.append hnodup hout, ?_⟩
  intro s v' k
  rw [List.mem_append, List.mem_map]
  refine or_congr_right ⟨?_, ?_⟩
  · rintro ⟨k', hk', heq⟩
    cases heq
    exact ⟨rfl, hk', rfl⟩
  · rintro ⟨rfl, hk, rfl⟩
    exact ⟨k, hk, rfl⟩

/-- An owner takes some of its listeners out. -/
theorem removeAll_own (h : g.Proper) (hks : ks.Nodup) (hold : ∀ k ∈ ks, (v, k) ∈ g.linked) :
    ∃ g', g.removeAll (ks.map fun k => (v, k)) = some g' ∧ g'.Proper ∧
      ∀ s v' k, (s, (v', k)) ∈ g'.links ↔ (s, (v', k)) ∈ g.links ∧ ¬ (v' = v ∧ k ∈ ks) := by
  have hnodup : (ks.map fun k => (v, k)).Nodup := hks.map fun k k' heq => congrArg Prod.snd heq
  have hin : ∀ l ∈ ks.map fun k => (v, k), l ∈ g.linked := by
    intro l hl
    obtain ⟨k, hk, rfl⟩ := List.mem_map.mp hl
    exact hold k hk
  refine ⟨_, removeAll_eq hnodup hin, h.filter _, ?_⟩
  intro s v' k
  refine mem_links_filter.trans (and_congr_right fun _ => not_congr ?_)
  rw [List.mem_map]
  constructor
  · rintro ⟨k', hk', heq⟩
    cases heq
    exact ⟨rfl, hk'⟩
  · rintro ⟨rfl, hk⟩
    exact ⟨k, hk, rfl⟩

end Owners

/-! ### Attachments -/

/-- Each owner listens to the object it is attached to, with one listener for each kind of signal
the object has. -/
structure Attached {ω κ α : Type} (kinds : α → List κ) (signal : α → κ → σ)
    (g : Signals σ (ω × κ)) (host : ω → Option α) : Prop where
  proper : g.Proper
  linked : ∀ s v k, (s, (v, k)) ∈ g.links ↔ ∃ x, host v = some x ∧ k ∈ kinds x ∧ signal x k = s

/-- No two listeners of attached owners are in one signal. -/
def Unshared {ω κ α : Type} (kinds : α → List κ) (signal : α → κ → σ) (host : ω → Option α) : Prop :=
  ∀ v v' x x' k k', host v = some x → host v' = some x' → k ∈ kinds x → k' ∈ kinds x' →
    signal x k = signal x' k' → v = v' ∧ k = k'

section Attached

variable {ω κ α : Type} {kinds : α → List κ} {signal : α → κ → σ}
  {g : Signals σ (ω × κ)} {host : ω → Option α} {v : ω} {x : α} {k : κ}

theorem Attached.empty : Attached kinds signal (.empty : Signals σ (ω × κ)) fun _ => none where
  proper := List.nodup_nil
  linked _ _ _ := ⟨nofun, fun ⟨_, h, _⟩ => nomatch h⟩

section Changing

variable [DecidableEq ω] [DecidableEq κ]

/-- An owner that was attached to nothing is attached to an object. -/
theorem Attached.attach (h : Attached kinds signal g host) (hv : host v = none)
    (hks : (kinds x).Nodup) :
    ∃ g', g.addAll ((kinds x).map fun k => (signal x k, (v, k))) = some g' ∧
      Attached kinds signal g' (Function.update host v (some x)) := by
  have hnew : ∀ k ∈ kinds x, (v, k) ∉ g.linked := by
    intro k _ hmem
    obtain ⟨s, hlink⟩ := mem_linked.mp hmem
    obtain ⟨x', hx', -⟩ := (h.linked s v k).mp hlink
    rw [hv] at hx'
    cases hx'
  obtain ⟨g', hadd, hproper, hlinks⟩ := addAll_own (v := v) h.proper hks (signal x) hnew
  refine ⟨g', hadd, hproper, ?_⟩
  intro s v' k
  rw [hlinks s v' k, h.linked s v' k]
  by_cases heq : v' = v
  · subst heq
    rw [Function.update_self, hv]
    constructor
    · rintro (⟨x', hx', -⟩ | ⟨-, hk, hs⟩)
      · cases hx'
      · exact ⟨x, rfl, hk, hs⟩
    · rintro ⟨x', hx', hk, hs⟩
      obtain rfl := Option.some.inj hx'
      exact .inr ⟨rfl, hk, hs⟩
  · rw [Function.update_of_ne heq]
    exact or_iff_left fun hown => heq hown.1

/-- An owner gives its object up. -/
theorem Attached.detach (h : Attached kinds signal g host) (hv : host v = some x)
    (hks : (kinds x).Nodup) :
    ∃ g', g.removeAll ((kinds x).map fun k => (v, k)) = some g' ∧
      Attached kinds signal g' (Function.update host v none) := by
  have hold : ∀ k ∈ kinds x, (v, k) ∈ g.linked := fun k hk =>
    mem_linked.mpr ⟨signal x k, (h.linked _ v k).mpr ⟨x, hv, hk, rfl⟩⟩
  obtain ⟨g', hremove, hproper, hlinks⟩ := removeAll_own h.proper hks hold
  refine ⟨g', hremove, hproper, ?_⟩
  intro s v' k
  rw [hlinks s v' k, h.linked s v' k]
  by_cases heq : v' = v
  · subst heq
    rw [Function.update_self, hv]
    constructor
    · rintro ⟨⟨x', hx', hk, -⟩, hnot⟩
      obtain rfl := Option.some.inj hx'
      exact absurd ⟨rfl, hk⟩ hnot
    · rintro ⟨x', hx', -⟩
      cases hx'
  · rw [Function.update_of_ne heq]
    exact and_iff_left fun hown => heq hown.1

end Changing

section Told

variable [DecidableEq σ]

theorem Attached.listeners_eq (h : Attached kinds signal g host)
    (hone : Unshared kinds signal host) (hv : host v = some x) (hk : k ∈ kinds x) :
    g.listeners (signal x k) = [(v, k)] := by
  refine listeners_eq_singleton h.proper ((h.linked _ v k).mpr ⟨x, hv, hk, rfl⟩) ?_
  rintro ⟨v', k'⟩ hmem
  obtain ⟨x', hv', hk', hs⟩ := (h.linked _ v' k').mp hmem
  obtain ⟨rfl, rfl⟩ := hone v v' x x' k k' hv hv' hk hk' hs.symm
  rfl

/-- A signal tells the owner that is attached to its object. -/
theorem Attached.emit_owner {τ : Type} (h : Attached kinds signal g host)
    (hone : Unshared kinds signal host) (hv : host v = some x) (hk : k ∈ kinds x)
    (notify : ω × κ → τ → Option τ) (t : τ) :
    g.emit notify (signal x k) t = notify (v, k) t := by
  refine emit_one notify t h.proper ((h.linked _ v k).mpr ⟨x, hv, hk, rfl⟩) ?_
  intro l hl
  exact List.mem_singleton.mp (h.listeners_eq hone hv hk ▸ mem_listeners.mpr hl)

/-- A signal that no attached owner is about tells nobody. -/
theorem Attached.emit_nobody {τ : Type} (h : Attached kinds signal g host) {s : σ}
    (hnone : ∀ v x, host v = some x → ∀ k ∈ kinds x, signal x k ≠ s)
    (notify : ω × κ → τ → Option τ) (t : τ) : g.emit notify s t = some t := by
  refine Signals.emit_nobody notify t ?_
  rintro ⟨v, k⟩ hmem
  obtain ⟨x, hv, hk, hs⟩ := (h.linked s v k).mp hmem
  exact hnone v x hv k hk hs

end Told

end Attached

end Signals

end Wldroid.Foundation
