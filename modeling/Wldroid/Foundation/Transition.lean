import Mathlib.Tactic

/-!
# Labelled transition systems: executions, invariants and exact guards

A system is an initial predicate and a labelled step relation.  Everything proved about runs
elsewhere goes through the devices of this file:

* `System.Exec` — an execution from a state, kept as the list of labels taken and states reached,
  so that a statement can speak about *every* state of the run and *every* step of it;
* `System.Reachable.invariant` — the induction over reachable states, stated once;
* `AllStates` / `AllSteps` — a property of all states of an execution, a guard on all its steps;
* `System.allStates_of_allSteps` — the **guard rule**: what guarded steps keep holds throughout an
  execution whose steps all meet the guard;
* `System.allStates_of_assumed` — the **assumption rule**: the same where the states are assumed to
  have some property as well;
* `System.Exec.history` — the **history rule**: a relation between the state and what has been
  computed from the labels so far;
* `System.allStates_iff_allSteps` — the **exact guard rule**: if an unguarded step moreover breaks
  the property at once, then the property holds throughout an execution exactly when every step of
  it meets the guard;
* `System.allSteps_of_undamaged` — the **lasting damage rule**: if an unguarded step does damage
  that stays, an execution that ends undamaged has met the guard;
* `callAll_related` — the **simulation rule** for components that are called and answer.
-/

namespace Wldroid.Foundation

universe u v w

variable {σ : Type u} {ε : Type v}

/-- A labelled transition system over states `σ` and labels `ε`. -/
structure System (σ : Type u) (ε : Type v) where
  init : σ → Prop
  step : σ → ε → σ → Prop

/-- The system whose steps are a function of the state and the label. -/
def System.ofFun (init : σ → Prop) (after : σ → ε → σ) : System σ ε where
  init := init
  step s e t := t = after s e

/-- The system whose steps are a partial function; `none` means the label is not enabled. -/
def System.ofNext (init : σ → Prop) (next : σ → ε → Option σ) : System σ ε where
  init := init
  step s e t := next s e = some t

/-- An execution from a state: every entry is the label taken and the state it leads to. -/
def System.Exec (S : System σ ε) : σ → List (ε × σ) → Prop
  | _, [] => True
  | s, (e, t) :: rest => S.step s e t ∧ S.Exec t rest

/-- The execution a list of labels produces when steps are a function. -/
def trace (after : σ → ε → σ) : σ → List ε → List (ε × σ)
  | _, [] => []
  | s, e :: es => (e, after s e) :: trace after (after s e) es

/-- The state a list of labels leads to when steps are partial, if all of them are enabled. -/
def runNext (next : σ → ε → Option σ) : σ → List ε → Option σ
  | s, [] => some s
  | s, e :: es => (next s e).bind fun t => runNext next t es

/-- The execution a list of labels produces when steps are partial, up to the first label that is
not enabled. -/
def traceNext (next : σ → ε → Option σ) : σ → List ε → List (ε × σ)
  | _, [] => []
  | s, e :: es =>
      match next s e with
      | some t => (e, t) :: traceNext next t es
      | none => []

/-- The property holds in the start state and in every state the execution reaches. -/
def AllStates (P : σ → Prop) (s : σ) (run : List (ε × σ)) : Prop :=
  P s ∧ ∀ entry ∈ run, P entry.2

/-- The guard holds of every step, at the state the step is taken in. -/
def AllSteps (G : σ → ε → Prop) : σ → List (ε × σ) → Prop
  | _, [] => True
  | s, (e, t) :: rest => G s e ∧ AllSteps G t rest

instance AllSteps.decidable {G : σ → ε → Prop} [∀ s e, Decidable (G s e)] :
    ∀ (s : σ) (run : List (ε × σ)), Decidable (AllSteps G s run)
  | _, [] => isTrue trivial
  | s, (e, t) :: rest =>
      haveI := AllSteps.decidable (G := G) t rest
      inferInstanceAs (Decidable (G s e ∧ AllSteps G t rest))

/-- The states reachable from the initial ones. -/
inductive System.Reachable (S : System σ ε) : σ → Prop where
  | start {s : σ} : S.init s → S.Reachable s
  | next {s t : σ} {e : ε} : S.Reachable s → S.step s e t → S.Reachable t

theorem System.exec_trace (init : σ → Prop) (after : σ → ε → σ) (es : List ε) :
    ∀ {s : σ}, (System.ofFun init after).Exec s (trace after s es) := by
  induction es with
  | nil => intro s; trivial
  | cons e es ih => intro s; exact ⟨rfl, ih⟩

theorem System.exec_traceNext (init : σ → Prop) (next : σ → ε → Option σ) (es : List ε) :
    ∀ {s : σ}, (System.ofNext init next).Exec s (traceNext next s es) := by
  induction es with
  | nil => intro s; trivial
  | cons e es ih =>
    intro s
    unfold traceNext
    split
    · rename_i t ht
      exact ⟨ht, ih⟩
    · trivial

theorem System.reachable_runNext {init : σ → Prop} {next : σ → ε → Option σ} {es : List ε} :
    ∀ {s t : σ}, (System.ofNext init next).Reachable s → runNext next s es = some t →
      (System.ofNext init next).Reachable t := by
  induction es with
  | nil =>
    intro s t hs h
    exact Option.some.inj h ▸ hs
  | cons e es ih =>
    intro s t hs h
    obtain ⟨u, hu, hrest⟩ := Option.bind_eq_some_iff.mp h
    exact ih (hs.next hu) hrest

/-- A run in two parts. -/
theorem runNext_append (next : σ → ε → Option σ) (es fs : List ε) :
    ∀ s, runNext next s (es ++ fs) = (runNext next s es).bind fun t => runNext next t fs := by
  induction es with
  | nil => intro s; rfl
  | cons e es ih =>
    intro s
    show (next s e).bind (fun t => runNext next t (es ++ fs))
      = ((next s e).bind fun t => runNext next t es).bind fun t => runNext next t fs
    cases next s e with
    | none => rfl
    | some t => exact ih t

@[simp] theorem allStates_nil (P : σ → Prop) (s : σ) :
    AllStates P s ([] : List (ε × σ)) ↔ P s := by
  simp [AllStates]

@[simp] theorem allStates_cons (P : σ → Prop) (s t : σ) (e : ε) (rest : List (ε × σ)) :
    AllStates P s ((e, t) :: rest) ↔ P s ∧ AllStates P t rest := by
  simp [AllStates]

instance AllStates.decidable {P : σ → Prop} [∀ s, Decidable (P s)] :
    ∀ (s : σ) (run : List (ε × σ)), Decidable (AllStates P s run)
  | s, [] => decidable_of_iff (P s) (allStates_nil P s).symm
  | s, (e, t) :: rest =>
      haveI := AllStates.decidable (P := P) t rest
      decidable_of_iff (P s ∧ AllStates P t rest) (allStates_cons P s t e rest).symm

/-- A property of the states of an execution follows from two others. -/
theorem AllStates.imp₂ {P Q R : σ → Prop} {s : σ} {run : List (ε × σ)} (hp : AllStates P s run)
    (hq : AllStates Q s run) (h : ∀ s, P s → Q s → R s) : AllStates R s run :=
  ⟨h s hp.1 hq.1, fun entry hentry => h entry.2 (hp.2 entry hentry) (hq.2 entry hentry)⟩

/-! ### Invariants -/

/-- **The invariant rule.**  What holds initially and is kept by every step holds of every
reachable state. -/
theorem System.Reachable.invariant {S : System σ ε} {I : σ → Prop}
    (start : ∀ s, S.init s → I s) (keep : ∀ s e t, I s → S.step s e t → I t)
    {s : σ} (h : S.Reachable s) : I s := by
  induction h with
  | start hs => exact start _ hs
  | next _ hstep ih => exact keep _ _ _ ih hstep

/-! ### Histories -/

/-- The state at the end of an execution. -/
def lastState : σ → List (ε × σ) → σ
  | s, [] => s
  | _, (_, t) :: rest => lastState t rest

/-- **The history rule.**  What relates the state to a value computed from the labels, and is kept
by every step, relates them at the end of every execution. -/
theorem System.Exec.history {S : System σ ε} {γ : Type w} {I : σ → γ → Prop} {record : γ → ε → γ}
    (keep : ∀ s g e t, I s g → S.step s e t → I t (record g e)) {run : List (ε × σ)} :
    ∀ {s : σ} {g : γ}, S.Exec s run → I s g →
      I (lastState s run) ((run.map Prod.fst).foldl record g) := by
  induction run with
  | nil => intro s g _ h; exact h
  | cons entry rest ih =>
    obtain ⟨e, t⟩ := entry
    intro s g hrun h
    exact ih hrun.2 (keep s g e t h hrun.1)

/-- What holds in all states of an execution holds at its end. -/
theorem AllStates.last {P : σ → Prop} {run : List (ε × σ)} :
    ∀ {s : σ}, AllStates P s run → P (lastState s run) := by
  induction run with
  | nil => intro s h; exact h.1
  | cons entry rest ih =>
    intro s h
    rw [allStates_cons] at h
    exact ih h.2

/-! ### Guards -/

/-- **The guard rule.**  What guarded steps keep holds throughout an execution whose steps all meet
the guard. -/
theorem System.allStates_of_allSteps {S : System σ ε} {I P : σ → Prop} {G : σ → ε → Prop}
    (imp : ∀ s, I s → P s)
    (keep : ∀ s e t, I s → S.step s e t → G s e → I t)
    {run : List (ε × σ)} : ∀ {s : σ}, I s → S.Exec s run → AllSteps G s run →
      AllStates P s run := by
  induction run with
  | nil => intro s hs _ _; simp [imp s hs]
  | cons entry rest ih =>
    intro s hs hrun hguard
    obtain ⟨e, t⟩ := entry
    rw [allStates_cons]
    exact ⟨imp s hs, ih (keep s e t hs hrun.1 hguard.1) hrun.2 hguard.2⟩

/-- What every step keeps holds throughout an execution. -/
theorem System.Exec.allStates {S : System σ ε} {I P : σ → Prop} (imp : ∀ s, I s → P s)
    (keep : ∀ s e t, I s → S.step s e t → I t) {run : List (ε × σ)} :
    ∀ {s : σ}, S.Exec s run → I s → AllStates P s run := by
  induction run with
  | nil => intro s _ hs; simp [imp s hs]
  | cons entry rest ih =>
    obtain ⟨e, t⟩ := entry
    intro s hrun hs
    rw [allStates_cons]
    exact ⟨imp s hs, ih hrun.2 (keep s e t hs hrun.1)⟩

/-- **The assumption rule.**  What guarded steps keep while an assumption about the states lasts
holds throughout an execution whose steps all meet the guard and whose states all meet the
assumption. -/
theorem System.allStates_of_assumed {S : System σ ε} {I P A : σ → Prop} {G : σ → ε → Prop}
    (imp : ∀ s, I s → A s → P s)
    (keep : ∀ s e t, I s → A s → S.step s e t → G s e → A t → I t)
    {run : List (ε × σ)} : ∀ {s : σ}, I s → S.Exec s run → AllStates A s run →
      AllSteps G s run → AllStates P s run := by
  induction run with
  | nil =>
    intro s hs _ hassumed _
    rw [allStates_nil] at hassumed ⊢
    exact imp s hs hassumed
  | cons entry rest ih =>
    intro s hs hrun hassumed hguard
    obtain ⟨e, t⟩ := entry
    rw [allStates_cons] at hassumed ⊢
    exact ⟨imp s hs hassumed.1, ih (keep s e t hs hassumed.1 hrun.1 hguard.1 hassumed.2.1) hrun.2
      hassumed.2 hguard.2⟩

/-- **The exact guard rule.**  `I` implies the property `P`; a step that meets the guard keeps `I`;
a step taken from `I` outside the guard leads to a state without `P`.  Then `P` holds in every
state of an execution exactly when every step of the execution meets the guard. -/
theorem System.allStates_iff_allSteps {S : System σ ε} {I P : σ → Prop} {G : σ → ε → Prop}
    (imp : ∀ s, I s → P s)
    (keep : ∀ s e t, I s → S.step s e t → G s e → I t)
    (breaks : ∀ s e t, I s → S.step s e t → ¬ G s e → ¬ P t)
    {run : List (ε × σ)} : ∀ {s : σ}, I s → S.Exec s run →
      (AllStates P s run ↔ AllSteps G s run) := by
  intro s hs hrun
  refine ⟨?_, System.allStates_of_allSteps imp keep hs hrun⟩
  induction run generalizing s with
  | nil => intro _; trivial
  | cons entry rest ih =>
    obtain ⟨e, t⟩ := entry
    intro hall
    rw [allStates_cons] at hall
    -- a step outside the guard would show at once in the state it leads to
    have hguard : G s e := by
      by_contra hg
      exact breaks s e t hs hrun.1 hg hall.2.1
    exact ⟨hguard, ih (keep s e t hs hrun.1 hguard) hrun.2 hall.2⟩

/-- Two guards at once. -/
theorem allSteps_and {G H : σ → ε → Prop} {run : List (ε × σ)} : ∀ {s : σ},
    AllSteps (fun s e => G s e ∧ H s e) s run ↔ AllSteps G s run ∧ AllSteps H s run := by
  induction run with
  | nil => exact ⟨fun _ => ⟨trivial, trivial⟩, fun _ => trivial⟩
  | cons entry rest ih =>
    intro s
    obtain ⟨e, t⟩ := entry
    exact (and_congr_right fun _ => ih).trans and_and_and_comm

/-- Two guards that agree on every step that can be taken are met by the same executions. -/
theorem System.Exec.allSteps_iff {S : System σ ε} {I : σ → Prop} {G H : σ → ε → Prop}
    (keep : ∀ s e t, I s → S.step s e t → I t)
    (agree : ∀ s e t, I s → S.step s e t → (G s e ↔ H s e)) {run : List (ε × σ)} :
    ∀ {s : σ}, S.Exec s run → I s → (AllSteps G s run ↔ AllSteps H s run) := by
  induction run with
  | nil => exact fun _ _ => Iff.rfl
  | cons entry rest ih =>
    obtain ⟨e, t⟩ := entry
    intro s hrun hs
    exact and_congr (agree s e t hs hrun.1) (ih hrun.2 (keep s e t hs hrun.1))

/-- Two guards that agree on every step that can be taken while one of them has been met are met by
the same executions. -/
theorem System.Exec.allSteps_iff_of_kept {S : System σ ε} {I : σ → Prop} {G H : σ → ε → Prop}
    (keep : ∀ s e t, I s → S.step s e t → G s e → I t)
    (agree : ∀ s e t, I s → S.step s e t → (H s e ↔ G s e)) {run : List (ε × σ)} :
    ∀ {s : σ}, S.Exec s run → I s → (AllSteps H s run ↔ AllSteps G s run) := by
  induction run with
  | nil => exact fun _ _ => Iff.rfl
  | cons entry rest ih =>
    obtain ⟨e, t⟩ := entry
    intro s hrun hs
    constructor
    · rintro ⟨hone, hrest⟩
      have hguard := (agree s e t hs hrun.1).mp hone
      exact ⟨hguard, (ih hrun.2 (keep s e t hs hrun.1 hguard)).mp hrest⟩
    · rintro ⟨hguard, hrest⟩
      exact ⟨(agree s e t hs hrun.1).mpr hguard,
        (ih hrun.2 (keep s e t hs hrun.1 hguard)).mpr hrest⟩

/-- What no step undoes still holds at the end. -/
theorem System.Exec.lasting {S : System σ ε} {I B : σ → Prop}
    (keep : ∀ s e t, I s → S.step s e t → I t) (last : ∀ s e t, I s → B s → S.step s e t → B t)
    {run : List (ε × σ)} : ∀ {s : σ}, S.Exec s run → I s → B s → B (lastState s run) := by
  induction run with
  | nil => intro s _ _ h; exact h
  | cons entry rest ih =>
    intro s hrun hs h
    exact ih hrun.2 (keep _ _ _ hs hrun.1) (last _ _ _ hs h hrun.1)

/-- **The lasting damage rule.**  If every unguarded step does damage that no step undoes, then an
execution that ends undamaged has met the guard throughout. -/
theorem System.allSteps_of_undamaged {S : System σ ε} {I B : σ → Prop} {G : σ → ε → Prop}
    (keep : ∀ s e t, I s → S.step s e t → I t) (last : ∀ s e t, I s → B s → S.step s e t → B t)
    (damage : ∀ s e t, I s → S.step s e t → ¬ G s e → B t)
    {run : List (ε × σ)} : ∀ {s : σ}, S.Exec s run → I s → ¬ B (lastState s run) →
      AllSteps G s run := by
  induction run with
  | nil => intro s _ _ _; trivial
  | cons entry rest ih =>
    intro s hrun hs hlast
    obtain ⟨e, t⟩ := entry
    have ht := keep s e t hs hrun.1
    have hguard : G s e := by
      by_contra hg
      exact hlast (hrun.2.lasting keep last ht (damage s e t hs hrun.1 hg))
    exact ⟨hguard, ih hrun.2 ht hlast⟩

/-! ### Calls -/

/-- Calls made in a row, and the answers to them. -/
def callAll {ι ο : Type*} (call : σ → ι → σ × ο) : σ → List ι → σ × List ο
  | s, [] => (s, [])
  | s, i :: rest =>
      let one := call s i
      let others := callAll call one.1 rest
      (others.1, one.2 :: others.2)

/-- **The simulation rule.**  Two components that answer alike, and stay related to each other and
to the answers given so far, in one call, do so in any sequence of calls. -/
theorem callAll_related {τ : Type w} {ι ο : Type*} {f : σ → ι → σ × ο} {g : τ → ι → τ × ο}
    {R : σ → τ → List ο → Prop}
    (step : ∀ s t answers i, R s t answers →
      (f s i).2 = (g t i).2 ∧ R (f s i).1 (g t i).1 (answers ++ [(f s i).2])) (calls : List ι) :
    ∀ {s : σ} {t : τ} {answers : List ο}, R s t answers →
      (callAll f s calls).2 = (callAll g t calls).2 ∧
        R (callAll f s calls).1 (callAll g t calls).1 (answers ++ (callAll f s calls).2) := by
  induction calls with
  | nil =>
    intro s t answers h
    refine ⟨rfl, ?_⟩
    rw [show (callAll f s []).2 = [] from rfl, List.append_nil]
    exact h
  | cons i rest ih =>
    intro s t answers h
    obtain ⟨hone, hnext⟩ := step s t answers i h
    obtain ⟨hrest, hlast⟩ := ih hnext
    refine ⟨?_, ?_⟩
    · show (f s i).2 :: (callAll f (f s i).1 rest).2 = (g t i).2 :: (callAll g (g t i).1 rest).2
      rw [hone, hrest]
    · rw [List.append_assoc] at hlast
      exact hlast

/-- **What leaves its mark.**  If everything that changes the state makes it larger for good, a
sequence leaves the state as it is exactly when each of its members does. -/
theorem foldl_eq_self_iff {ι : Type*} {f : σ → ι → σ} (size : σ → ℕ)
    (grows : ∀ s i, f s i = s ∨ size s < size (f s i)) (l : List ι) (s : σ) :
    l.foldl f s = s ↔ ∀ i ∈ l, f s i = s := by
  have hmono : ∀ (l : List ι) (s : σ), size s ≤ size (l.foldl f s) := by
    intro l
    induction l with
    | nil => exact fun s => le_refl _
    | cons i rest ih =>
      intro s
      refine le_trans ?_ (ih (f s i))
      rcases grows s i with heq | hlt
      · rw [heq]
      · exact hlt.le
  induction l generalizing s with
  | nil => simp
  | cons i rest ih =>
    rw [List.foldl_cons, List.forall_mem_cons]
    rcases grows s i with heq | hlt
    · rw [heq]
      exact (ih s).trans ⟨fun h => ⟨rfl, h⟩, And.right⟩
    · constructor
      · intro h
        have hle := hmono rest (f s i)
        rw [h] at hle
        omega
      · rintro ⟨heq, -⟩
        rw [heq] at hlt
        exact absurd hlt (lt_irrefl _)

end Wldroid.Foundation
