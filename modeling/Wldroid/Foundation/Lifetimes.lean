import Mathlib.Tactic

/-!
# Lifetimes of objects

Objects with numbers are made, kept at some places, used and destroyed by requests in a log.

* `UsedAlive` — nothing is used, or destroyed, after it has been destroyed;
* `Owns` — every object that is kept is kept at one place only, and has not been destroyed; with the
  rules `Owns.mono`, `Owns.moved`, `Owns.assign`, `Owns.use` and `Owns.finish` for what a step does.
-/

namespace Wldroid.Foundation

variable {ρ κ κ' : Type*}

/-- Nothing is used after it has been destroyed; destroying is a use. -/
def UsedAlive (destroy : ℕ → ρ) (uses : ρ → ℕ → Prop) (log : List ρ) : Prop :=
  log.Pairwise fun r r' => ∀ o, r = destroy o → ¬ uses r' o

/-- The objects that are kept, at places of their own, numbered below the next number, and alive. -/
structure Owns (destroy : ℕ → ρ) (uses : ρ → ℕ → Prop) (own : κ → ℕ → Prop) (fresh : ℕ)
    (log : List ρ) : Prop where
  apart : ∀ k k' o, own k o → own k' o → k = k'
  known : ∀ k o, own k o → o < fresh
  alive : ∀ k o, own k o → destroy o ∉ log
  destroyed : ∀ o, destroy o ∈ log → o < fresh
  usedAlive : UsedAlive destroy uses log

section Rules

variable {destroy : ℕ → ρ} {uses : ρ → ℕ → Prop} {own : κ → ℕ → Prop} {fresh : ℕ} {log : List ρ}

theorem UsedAlive.append {rest : List ρ} (h : UsedAlive destroy uses log)
    (hrest : UsedAlive destroy uses rest) (hcross : ∀ r ∈ rest, ∀ o, uses r o → destroy o ∉ log) :
    UsedAlive destroy uses (log ++ rest) := by
  refine List.pairwise_append.mpr ⟨h, hrest, fun r hr r' hr' o hends huses => ?_⟩
  exact hcross r' hr' o huses (hends ▸ hr)

/-- Less is kept. -/
theorem Owns.mono {own' : κ → ℕ → Prop} {fresh' : ℕ} (h : Owns destroy uses own fresh log)
    (hown : ∀ k o, own' k o → own k o) (hfresh : fresh ≤ fresh') :
    Owns destroy uses own' fresh' log where
  apart k k' o hk hk' := h.apart k k' o (hown k o hk) (hown k' o hk')
  known k o hk := (h.known k o (hown k o hk)).trans_le hfresh
  alive k o hk := h.alive k o (hown k o hk)
  destroyed o ho := (h.destroyed o ho).trans_le hfresh
  usedAlive := h.usedAlive

/-- The same objects at other places. -/
theorem Owns.moved {own' : κ' → ℕ → Prop} (h : Owns destroy uses own fresh log) (place : κ' → κ)
    (hown : ∀ k o, own' k o → own (place k) o)
    (hplace : ∀ k k' o, own' k o → own' k' o → place k = place k' → k = k') :
    Owns destroy uses own' fresh log where
  apart k k' o hk hk' := hplace k k' o hk hk' (h.apart _ _ o (hown k o hk) (hown k' o hk'))
  known k o hk := h.known _ o (hown k o hk)
  alive k o hk := h.alive _ o (hown k o hk)
  destroyed := h.destroyed
  usedAlive := h.usedAlive

/-- A new object is kept at a place. -/
theorem Owns.assign {own' : κ → ℕ → Prop} (h : Owns destroy uses own fresh log) (place : κ)
    (hown : ∀ k o, own' k o → own k o ∨ k = place ∧ o = fresh) :
    Owns destroy uses own' (fresh + 1) log where
  apart := by
    intro k k' o hk hk'
    rcases hown k o hk with hold | ⟨rfl, rfl⟩
    · rcases hown k' o hk' with hold' | ⟨-, rfl⟩
      · exact h.apart k k' o hold hold'
      · exact absurd (h.known k _ hold) (lt_irrefl _)
    · rcases hown k' _ hk' with hold' | ⟨rfl, -⟩
      · exact absurd (h.known k' _ hold') (lt_irrefl _)
      · rfl
  known := by
    intro k o hk
    rcases hown k o hk with hold | ⟨-, rfl⟩
    · exact (h.known k o hold).trans (Nat.lt_succ_self _)
    · exact Nat.lt_succ_self _
  alive := by
    intro k o hk hmem
    rcases hown k o hk with hold | ⟨-, rfl⟩
    · exact h.alive k o hold hmem
    · exact absurd (h.destroyed _ hmem) (lt_irrefl _)
  destroyed o ho := (h.destroyed o ho).trans (Nat.lt_succ_self _)
  usedAlive := h.usedAlive

/-- Requests that destroy nothing and use what is kept. -/
theorem Owns.use {rest : List ρ} (h : Owns destroy uses own fresh log)
    (hdestroy : ∀ r ∈ rest, ∀ o, r ≠ destroy o)
    (huse : ∀ r ∈ rest, ∀ o, uses r o → ∃ k, own k o) :
    Owns destroy uses own fresh (log ++ rest) where
  apart := h.apart
  known := h.known
  alive := by
    intro k o hk hmem
    rcases List.mem_append.mp hmem with hold | hnew
    · exact h.alive k o hk hold
    · exact hdestroy _ hnew o rfl
  destroyed := by
    intro o hmem
    rcases List.mem_append.mp hmem with hold | hnew
    · exact h.destroyed o hold
    · exact absurd rfl (hdestroy _ hnew o)
  usedAlive := by
    refine h.usedAlive.append (List.pairwise_of_forall_mem_list fun r hr r' _ o hends => ?_)
      fun r hr o huses => ?_
    · exact absurd hends (hdestroy r hr o)
    · obtain ⟨k, hk⟩ := huse r hr o huses
      exact h.alive k o hk

/-- Some of what is kept is destroyed, and not kept any longer. -/
theorem Owns.finish {own' : κ → ℕ → Prop} {gone : List ℕ} (h : Owns destroy uses own fresh log)
    (hdestroy : ∀ o o', uses (destroy o) o' ↔ o = o')
    (hgone : ∀ o ∈ gone, ∃ k, own k o) (hnodup : gone.Nodup)
    (hown : ∀ k o, own' k o → own k o ∧ o ∉ gone) :
    Owns destroy uses own' fresh (log ++ gone.map destroy) where
  apart k k' o hk hk' := h.apart k k' o (hown k o hk).1 (hown k' o hk').1
  known k o hk := h.known k o (hown k o hk).1
  alive := by
    intro k o hk hmem
    rcases List.mem_append.mp hmem with hold | hnew
    · exact h.alive k o (hown k o hk).1 hold
    · obtain ⟨o', ho', hsame⟩ := List.mem_map.mp hnew
      have heq : o' = o := (hdestroy o' o).mp (hsame ▸ (hdestroy o o).mpr rfl)
      exact (hown k o hk).2 (heq ▸ ho')
  destroyed := by
    intro o hmem
    rcases List.mem_append.mp hmem with hold | hnew
    · exact h.destroyed o hold
    · obtain ⟨o', ho', hsame⟩ := List.mem_map.mp hnew
      have heq : o' = o := (hdestroy o' o).mp (hsame ▸ (hdestroy o o).mpr rfl)
      obtain ⟨k, hk⟩ := hgone o' ho'
      exact heq ▸ h.known k o' hk
  usedAlive := by
    refine h.usedAlive.append ?_ fun r hr o huses => ?_
    · refine List.pairwise_map.mpr (hnodup.imp fun {a b} hne o hends huses => ?_)
      have ha : a = o := (hdestroy a o).mp (hends ▸ (hdestroy o o).mpr rfl)
      exact hne (ha.trans ((hdestroy b o).mp huses).symm)
    · obtain ⟨o', ho', rfl⟩ := List.mem_map.mp hr
      obtain ⟨k, hk⟩ := hgone o' ho'
      exact (hdestroy o' o).mp huses ▸ h.alive k o' hk

end Rules

end Wldroid.Foundation
