import Mathlib.Tactic

/-!
# Loops

A `while` loop by its round: from a state it goes on to another one, or is left.

* `LoopEnds` — the loop is left in some state after finitely many rounds;
* `loopRun` — the loop with a bound on the number of rounds, which can be computed;
* `loopEnds_loopRun` — if something decreases in every round, the bounded loop is the loop;
* `loopRun_invariant` — what every round keeps holds where the loop is left.
-/

namespace Wldroid.Foundation

variable {σ : Type*}

/-- From the first state the loop is left in the second. -/
inductive LoopEnds (round : σ → Option σ) : σ → σ → Prop where
  | exit {s : σ} (h : round s = none) : LoopEnds round s s
  | next {s t u : σ} (h : round s = some t) (rest : LoopEnds round t u) : LoopEnds round s u

/-- At most so many rounds. -/
def loopRun (round : σ → Option σ) : ℕ → σ → σ
  | 0, s => s
  | fuel + 1, s =>
      match round s with
      | some t => loopRun round fuel t
      | none => s

variable {round : σ → Option σ}

/-- Where the loop is left, there is no further round. -/
theorem LoopEnds.left {s t : σ} (h : LoopEnds round s t) : round t = none := by
  induction h with
  | exit h => exact h
  | next _ _ ih => exact ih

/-- What every round keeps holds where the loop is left. -/
theorem LoopEnds.invariant {I : σ → Prop} (keep : ∀ s t, I s → round s = some t → I t) {s t : σ}
    (h : LoopEnds round s t) (hs : I s) : I t := by
  induction h with
  | exit _ => exact hs
  | next hround _ ih => exact ih (keep _ _ hs hround)

/-- **Termination.**  The bound is not reached if a measure decreases in every round and is at most
the bound. -/
theorem loopEnds_loopRun (measure : σ → ℕ)
    (decreases : ∀ s t, round s = some t → measure t < measure s) :
    ∀ (fuel : ℕ) (s : σ), measure s ≤ fuel → LoopEnds round s (loopRun round fuel s) := by
  intro fuel
  induction fuel with
  | zero =>
    intro s hs
    refine .exit ?_
    cases hround : round s with
    | none => rfl
    | some t =>
      have hlt := decreases s t hround
      omega
  | succ fuel ih =>
    intro s hs
    unfold loopRun
    cases hround : round s with
    | none => exact .exit hround
    | some t =>
      have hlt := decreases s t hround
      exact .next hround (ih t (by omega))

/-- **Partial correctness.** -/
theorem loopRun_invariant {I : σ → Prop} (keep : ∀ s t, I s → round s = some t → I t) :
    ∀ (fuel : ℕ) (s : σ), I s → I (loopRun round fuel s) := by
  intro fuel
  induction fuel with
  | zero => exact fun _ hs => hs
  | succ fuel ih =>
    intro s hs
    unfold loopRun
    cases hround : round s with
    | none => exact hs
    | some t => exact ih t (keep s t hs hround)

end Wldroid.Foundation
