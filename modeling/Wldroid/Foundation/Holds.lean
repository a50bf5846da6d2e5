import Mathlib.Tactic

/-!
# Holding things down

A log in which things (fingers, buttons, keys) go down, perhaps move, and come up again.  For each
of them its events form complete groups `down move* up`, and at most one group at the end is open.

* `CompleteGroups`, `OpenGroups` — the two shapes, as languages;
* `Tracks` — of everything in a set the last group is open, of everything else all are complete;
* `Tracks.press`, `Tracks.move`, `Tracks.release`, `Tracks.releaseAll` — how the log and the set go
  on together;
* `Tracks.complete_iff` — everything is up exactly when the set is empty.
-/

namespace Wldroid.Foundation

/-- What an event means for the thing it is about. -/
inductive Hold where
  | down
  | move
  | up
  deriving DecidableEq, Repr

/-! ### Groups -/

/-- A complete group with `n` moves. -/
def holdGroup (n : ℕ) : List Hold := .down :: (List.replicate n .move ++ [.up])

/-- Complete groups, one after another. -/
def CompleteGroups (l : List Hold) : Prop := ∃ ns : List ℕ, l = ns.flatMap holdGroup

/-- Complete groups, and then one that has not come to its end. -/
def OpenGroups (l : List Hold) : Prop :=
  ∃ (ns : List ℕ) (n : ℕ), l = ns.flatMap holdGroup ++ .down :: List.replicate n .move

theorem completeGroups_nil : CompleteGroups [] := ⟨[], rfl⟩

theorem CompleteGroups.down {l : List Hold} (h : CompleteGroups l) : OpenGroups (l ++ [.down]) := by
  obtain ⟨ns, rfl⟩ := h
  exact ⟨ns, 0, rfl⟩

theorem OpenGroups.move {l : List Hold} (h : OpenGroups l) : OpenGroups (l ++ [.move]) := by
  obtain ⟨ns, n, rfl⟩ := h
  refine ⟨ns, n + 1, ?_⟩
  rw [List.replicate_succ', List.append_assoc, List.cons_append]

theorem OpenGroups.up {l : List Hold} (h : OpenGroups l) : CompleteGroups (l ++ [.up]) := by
  obtain ⟨ns, n, rfl⟩ := h
  refine ⟨ns ++ [n], ?_⟩
  rw [List.flatMap_append, List.flatMap_singleton, holdGroup, List.append_assoc, List.cons_append]

/-- Complete groups are empty or end with an `up`. -/
theorem CompleteGroups.getLast? {l : List Hold} (h : CompleteGroups l) :
    l = [] ∨ l.getLast? = some .up := by
  obtain ⟨ns, rfl⟩ := h
  rcases ns.eq_nil_or_concat with rfl | ⟨init, n, rfl⟩
  · exact .inl rfl
  · right
    rw [List.concat_eq_append, List.flatMap_append, List.flatMap_singleton, holdGroup,
      ← List.cons_append, ← List.append_assoc, List.getLast?_concat]

/-- A group cannot be both complete and open. -/
theorem OpenGroups.not_complete {l : List Hold} (h : OpenGroups l) : ¬ CompleteGroups l := by
  intro hcomplete
  obtain ⟨ns, n, rfl⟩ := h
  obtain hnil | hlast := hcomplete.getLast?
  · simp at hnil
  · cases n with
    | zero =>
      rw [List.replicate_zero, List.getLast?_concat] at hlast
      cases hlast
    | succ n =>
      rw [List.replicate_succ', ← List.cons_append, ← List.append_assoc, List.getLast?_concat]
        at hlast
      cases hlast

/-! ### Logs -/

section Logs

variable {α κ : Type*} [DecidableEq κ] (f : α → Option (κ × Hold))

/-- What the events of a log mean for one thing. -/
def holdsOf (k : κ) (log : List α) : List Hold :=
  log.filterMap fun a => (f a).bind fun p => if p.1 = k then some p.2 else none

theorem holdsOf_append (k : κ) (log log' : List α) :
    holdsOf f k (log ++ log') = holdsOf f k log ++ holdsOf f k log' := List.filterMap_append

/-- The things in the set are held down, all others are not. -/
def Tracks (log : List α) (held : Set κ) : Prop :=
  ∀ k, (k ∈ held → OpenGroups (holdsOf f k log)) ∧ (k ∉ held → CompleteGroups (holdsOf f k log))

variable {f} {log : List α} {held : Set κ} {a : α} {k : κ}

theorem holdsOf_of_none (h : f a = none) (k : κ) : holdsOf f k [a] = [] := by
  rw [holdsOf, List.filterMap_cons, h]
  rfl

theorem holdsOf_self {p : Hold} (h : f a = some (k, p)) : holdsOf f k [a] = [p] := by
  simp [holdsOf, h]

theorem holdsOf_other {p : Hold} {k' : κ} (h : f a = some (k, p)) (hne : k ≠ k') :
    holdsOf f k' [a] = [] := by
  simp [holdsOf, h, hne]

namespace Tracks

theorem nil : Tracks f ([] : List α) ∅ :=
  fun k => ⟨fun h => absurd h (Set.notMem_empty k), fun _ => completeGroups_nil⟩

/-- An event that is about nothing that can be held. -/
theorem other (h : Tracks f log held) (ha : f a = none) : Tracks f (log ++ [a]) held := by
  intro k
  rw [holdsOf_append, holdsOf_of_none ha, List.append_nil]
  exact h k

/-- Events that are about nothing that can be held. -/
theorem others {l : List α} (hl : ∀ a ∈ l, f a = none) (h : Tracks f log held) :
    Tracks f (log ++ l) held := by
  induction l generalizing log with
  | nil =>
    rw [List.append_nil]
    exact h
  | cons a l ih =>
    rw [List.append_cons]
    exact ih (fun b hb => hl b (List.mem_cons_of_mem a hb)) (h.other (hl a List.mem_cons_self))

theorem press (h : Tracks f log held) (ha : f a = some (k, .down)) (hk : k ∉ held) :
    Tracks f (log ++ [a]) (insert k held) := by
  intro k'
  rw [holdsOf_append]
  by_cases hsame : k = k'
  · subst hsame
    rw [holdsOf_self ha]
    exact ⟨fun _ => ((h k).2 hk).down, fun hnot => absurd (Set.mem_insert k held) hnot⟩
  · rw [holdsOf_other ha hsame, List.append_nil, Set.mem_insert_iff]
    have hiff : k' = k ∨ k' ∈ held ↔ k' ∈ held := or_iff_right (Ne.symm hsame)
    rw [hiff]
    exact h k'

theorem move (h : Tracks f log held) (ha : f a = some (k, .move)) (hk : k ∈ held) :
    Tracks f (log ++ [a]) held := by
  intro k'
  rw [holdsOf_append]
  by_cases hsame : k = k'
  · subst hsame
    rw [holdsOf_self ha]
    exact ⟨fun _ => ((h k).1 hk).move, fun hnot => absurd hk hnot⟩
  · rw [holdsOf_other ha hsame, List.append_nil]
    exact h k'

theorem release (h : Tracks f log held) (ha : f a = some (k, .up)) (hk : k ∈ held) :
    Tracks f (log ++ [a]) (held \ {k}) := by
  intro k'
  rw [holdsOf_append]
  by_cases hsame : k = k'
  · subst hsame
    rw [holdsOf_self ha]
    exact ⟨fun hin => absurd rfl hin.2, fun _ => ((h k).1 hk).up⟩
  · rw [holdsOf_other ha hsame, List.append_nil]
    have hiff : k' ∈ held \ {k} ↔ k' ∈ held :=
      ⟨And.left, fun hin => ⟨hin, fun heq => hsame heq.symm⟩⟩
    rw [hiff]
    exact h k'

/-- Moves of things that are held. -/
theorem moves {g : κ → α} (hg : ∀ k, f (g k) = some (k, .move)) {l : List κ}
    (hl : ∀ k ∈ l, k ∈ held) (h : Tracks f log held) : Tracks f (log ++ l.map g) held := by
  induction l generalizing log with
  | nil =>
    rw [List.map_nil, List.append_nil]
    exact h
  | cons k l ih =>
    rw [List.map_cons, List.append_cons]
    exact ih (fun k' hk' => hl k' (List.mem_cons_of_mem k hk'))
      (h.move (hg k) (hl k List.mem_cons_self))

/-- Everything that is held comes up. -/
theorem releaseAll {g : κ → α} (hg : ∀ k, f (g k) = some (k, .up)) {l : List κ} (hl : l.Nodup)
    (h : Tracks f log {k | k ∈ l}) : Tracks f (log ++ l.map g) ∅ := by
  induction l generalizing log with
  | nil =>
    rw [List.map_nil, List.append_nil]
    have hempty : {k : κ | k ∈ ([] : List κ)} = ∅ := by simp
    exact hempty ▸ h
  | cons k l ih =>
    obtain ⟨hk, hrest⟩ := List.nodup_cons.mp hl
    rw [List.map_cons, List.append_cons]
    refine ih hrest ?_
    have hset : {k' : κ | k' ∈ k :: l} \ {k} = {k' | k' ∈ l} := by
      ext k'
      simp only [Set.mem_sdiff, Set.mem_ofPred_eq, List.mem_cons, Set.mem_singleton_iff]
      constructor
      · rintro ⟨rfl | hin, hne⟩
        · exact absurd rfl hne
        · exact hin
      · intro hin
        exact ⟨.inr hin, fun heq => hk (heq ▸ hin)⟩
    exact hset ▸ h.release (hg k) List.mem_cons_self

/-- What is tracked is well formed as far as it goes. -/
theorem groups (h : Tracks f log held) (k : κ) :
    CompleteGroups (holdsOf f k log) ∨ OpenGroups (holdsOf f k log) := by
  by_cases hk : k ∈ held
  · exact .inr ((h k).1 hk)
  · exact .inl ((h k).2 hk)

/-- Everything is up exactly when nothing is held. -/
theorem complete_iff (h : Tracks f log held) :
    (∀ k, CompleteGroups (holdsOf f k log)) ↔ held = ∅ := by
  constructor
  · intro hall
    refine Set.eq_empty_iff_forall_notMem.mpr fun k hk => ?_
    exact ((h k).1 hk).not_complete (hall k)
  · rintro rfl k
    exact (h k).2 (Set.notMem_empty k)

end Tracks

end Logs

end Wldroid.Foundation
