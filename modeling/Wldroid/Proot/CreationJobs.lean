import Wldroid.Foundation.Transition

/-!
# Creation jobs and their entries

`EnvironmentRegistry.create` starts a coroutine for each new environment and keeps it in
`creationJobs` under the name asked for, so that a second `create` of that name gets the flow of the
first.  The coroutine takes its name out of the map in its `finally`, whoever is entered there.

* `CreationRegistry.next` — calls of `create` (launching and entering the job are two steps, inside
  one monitor), cancellations and the steps of the jobs, in any interleaving;
* `working_unique` — at most one job downloads, extracts or configures at a time;
* `RemovesOwn` — no job takes out the entry of another one that still counts as running;
* `oneCreation_of_removesOwn` — in a run of such steps `create` answers with the flow of the job
  that is working under that name, unless it is cancelled;
* `third_creation` — the clean-up of a cancelled job takes out its successor's entry.
-/

namespace Wldroid.Proot

open Wldroid.Foundation

/-! ### A job -/

/-- Where the coroutine of a creation stands. -/
inductive JobPc where
  /-- Not dispatched yet. -/
  | created
  /-- Directory, marker, and what an earlier extraction left. -/
  | preparing
  /-- Waiting for `createMutex`. -/
  | waiting
  /-- Download, extraction and configuration, under `createMutex`. -/
  | working
  /-- `catch`, and the deletion of the marker. -/
  | leaving
  /-- About to take the name out of `creationJobs`. -/
  | removing
  /-- The body is over, and the job not completed yet. -/
  | finished
  | completed
  deriving DecidableEq, Repr

structure CreationJob where
  name : String
  flowId : String
  cancelled : Bool
  pc : JobPc
  deriving DecidableEq, Repr

namespace CreationJob

/-- `Job.isActive`. -/
def isActive (job : CreationJob) : Bool := !job.cancelled && job.pc != .completed

/-- The job is neither cancelled nor through with its entry. -/
def isRunning (job : CreationJob) : Bool :=
  !job.cancelled && match job.pc with
    | .finished | .completed => false
    | _ => true

theorem isActive_of_isRunning {job : CreationJob} (h : job.isRunning = true) :
    job.isActive = true := by
  unfold isRunning at h
  unfold isActive
  obtain ⟨hnot, hpc⟩ := Bool.and_eq_true_iff.mp h
  rw [hnot]
  cases hjob : job.pc with
  | finished | completed => rw [hjob] at hpc; cases hpc
  | _ => rfl

end CreationJob

/-- How a step of a job ends. -/
inductive JobOutcome where
  | returns
  | fails
  /-- A suspension point throws `CancellationException`. -/
  | cancelled
  deriving DecidableEq, Repr

/-- What a step of a job does to what the jobs share. -/
inductive JobEffect where
  | nothing
  | lock
  | unlock
  | removeEntry
  deriving DecidableEq, Repr

/-- One step of a job's coroutine.  A cancelled job works on until a suspension point throws, and
takes the mutex if it is free. -/
def CreationJob.step (cancelled locked : Bool) : JobPc → JobOutcome → Option (JobEffect × JobPc)
  -- a job cancelled before it is dispatched never runs its body, nor its finally
  | .created, .returns => if cancelled then none else some (.nothing, .preparing)
  | .created, .cancelled => if cancelled then some (.nothing, .completed) else none
  | .preparing, .returns => some (.nothing, .waiting)
  | .preparing, .fails => some (.nothing, .leaving)
  | .waiting, .returns => if locked then none else some (.lock, .working)
  | .waiting, .cancelled => if cancelled then some (.nothing, .leaving) else none
  | .working, .returns => some (.unlock, .leaving)
  | .working, .fails => some (.unlock, .leaving)
  | .working, .cancelled => if cancelled then some (.unlock, .leaving) else none
  | .leaving, .returns => some (.nothing, .removing)
  | .removing, .returns => some (.removeEntry, .finished)
  | .finished, .returns => some (.nothing, .completed)
  | _, _ => none

/-! ### The registry -/

structure CreationRegistry where
  stateFlows : List String
  /-- The job entered under a name, by its number. -/
  creationJobs : String → Option ℕ
  jobs : List CreationJob
  createMutex : Bool
  /-- The job that a call of `create` has launched and not entered yet, inside the monitor. -/
  entering : Option ℕ

inductive CreationEvent where
  /-- `create(name)` enters the monitor; `id` is the random id it draws if it needs one. -/
  | create (name id : String)
  /-- It enters the job it has launched, and leaves the monitor. -/
  | enter
  | cancel (j : ℕ)
  | job (j : ℕ) (outcome : JobOutcome)
  deriving DecidableEq, Repr

namespace CreationRegistry

/-- The flow `create` returns without starting a job. -/
def existingFlow (r : CreationRegistry) (name : String) : Option String :=
  (r.creationJobs name).bind fun j => (r.jobs[j]?).bind fun job =>
    if job.isActive && decide (job.flowId ∈ r.stateFlows) then some job.flowId else none

def apply (r : CreationRegistry) (name : String) : JobEffect → CreationRegistry
  | .nothing => r
  | .lock => { r with createMutex := true }
  | .unlock => { r with createMutex := false }
  | .removeEntry => { r with creationJobs := Function.update r.creationJobs name none }

def next (r : CreationRegistry) : CreationEvent → Option CreationRegistry
  | .create name id =>
      if r.entering.isSome then none
      else match r.existingFlow name with
        | some _ => some r
        | none => some { r with
            stateFlows := id :: r.stateFlows
            jobs := r.jobs ++ [⟨name, id, false, .created⟩]
            entering := some r.jobs.length }
  | .enter => do
      let j ← r.entering
      let job ← r.jobs[j]?
      return { r with
        creationJobs := Function.update r.creationJobs job.name (some j), entering := none }
  | .cancel j =>
      some { r with jobs := r.jobs.modify j fun job => { job with cancelled := true } }
  | .job j outcome => do
      let job ← r.jobs[j]?
      let (e, pc) ← CreationJob.step job.cancelled r.createMutex job.pc outcome
      return { r.apply job.name e with jobs := r.jobs.set j { job with pc := pc } }

/-- No creation has been asked for. -/
structure Initial (r : CreationRegistry) : Prop where
  creationJobs : ∀ name, r.creationJobs name = none
  jobs : r.jobs = []
  createMutex : r.createMutex = false
  entering : r.entering = none

end CreationRegistry

def creationSystem : System CreationRegistry CreationEvent :=
  System.ofNext CreationRegistry.Initial CreationRegistry.next

/-! ### What is claimed of it -/

/-- The job is doing the work that the mutex protects. -/
def CreationRegistry.Working (r : CreationRegistry) (j : ℕ) (job : CreationJob) : Prop :=
  r.jobs[j]? = some job ∧ job.pc = .working

/-- At most one job works, and `create` of its name, whenever it can be called, answers with its
flow unless it is cancelled. -/
structure OneCreation (r : CreationRegistry) : Prop where
  unique : ∀ i j a c, r.Working i a → r.Working j c → i = j
  returned : r.entering = none → ∀ j job, r.Working j job → job.cancelled = false →
    r.existingFlow job.name = some job.flowId

/-- A job takes its name out of the map while no other job that counts as running is entered
there. -/
def RemovesOwn (r : CreationRegistry) : CreationEvent → Prop
  | .job k _ => ∀ job ∈ r.jobs[k]?, job.pc = .removing →
      ∀ j ∈ r.creationJobs job.name, j = k ∨ ∀ other ∈ r.jobs[j]?, other.isRunning = false
  | _ => True

instance (r : CreationRegistry) (e : CreationEvent) : Decidable (RemovesOwn r e) := by
  cases e with
  | job k outcome =>
    exact inferInstanceAs (Decidable (∀ job ∈ r.jobs[k]?, job.pc = .removing →
      ∀ j ∈ r.creationJobs job.name, j = k ∨ ∀ other ∈ r.jobs[j]?, other.isRunning = false))
  | _ => exact isTrue trivial

/-! ### The mutex -/

/-- The mutex is locked exactly while a job works, and there is one such job. -/
structure MutexInv (r : CreationRegistry) : Prop where
  locked : ∀ j job, r.Working j job → r.createMutex = true
  unique : ∀ i j a c, r.Working i a → r.Working j c → i = j

/-- What a step does, seen from the places it leads from and to. -/
structure CreationJob.Goes (locked : Bool) (pc pc' : JobPc) (e : JobEffect) : Prop where
  lock : pc' = .working → e = .lock ∧ locked = false
  unlock : e = .unlock → pc = .working
  remove : e = .removeEntry → pc = .removing ∧ pc' = .finished
  running : pc' = .finished ∨ pc' = .completed ∨ pc ≠ .finished ∧ pc ≠ .completed

theorem CreationJob.step_goes {cancelled locked : Bool} {pc pc' : JobPc} {o : JobOutcome}
    {e : JobEffect} (h : CreationJob.step cancelled locked pc o = some (e, pc')) :
    CreationJob.Goes locked pc pc' e := by
  cases pc with
  | created =>
    cases o with
    | returns =>
      cases cancelled with
      | true => cases h
      | false =>
        cases h
        exact ⟨nofun, nofun, nofun, .inr (.inr ⟨nofun, nofun⟩)⟩
    | cancelled =>
      cases cancelled with
      | true =>
        cases h
        exact ⟨nofun, nofun, nofun, .inr (.inr ⟨nofun, nofun⟩)⟩
      | false => cases h
    | fails => cases h
  | preparing =>
    cases o with
    | returns | fails =>
      cases h
      exact ⟨nofun, nofun, nofun, .inr (.inr ⟨nofun, nofun⟩)⟩
    | cancelled => cases h
  | waiting =>
    cases o with
    | returns =>
      cases locked with
      | true => cases h
      | false =>
        cases h
        exact ⟨fun _ => ⟨rfl, rfl⟩, nofun, nofun, .inr (.inr ⟨nofun, nofun⟩)⟩
    | cancelled =>
      cases cancelled with
      | true =>
        cases h
        exact ⟨nofun, nofun, nofun, .inr (.inr ⟨nofun, nofun⟩)⟩
      | false => cases h
    | fails => cases h
  | working =>
    cases o with
    | returns | fails =>
      cases h
      exact ⟨nofun, fun _ => rfl, nofun, .inr (.inr ⟨nofun, nofun⟩)⟩
    | cancelled =>
      cases cancelled with
      | true =>
        cases h
        exact ⟨nofun, fun _ => rfl, nofun, .inr (.inr ⟨nofun, nofun⟩)⟩
      | false => cases h
  | leaving =>
    cases o with
    | returns =>
      cases h
      exact ⟨nofun, nofun, nofun, .inr (.inr ⟨nofun, nofun⟩)⟩
    | _ => cases h
  | removing =>
    cases o with
    | returns =>
      cases h
      exact ⟨nofun, nofun, fun _ => ⟨rfl, rfl⟩, .inl rfl⟩
    | _ => cases h
  | finished =>
    cases o with
    | returns =>
      cases h
      exact ⟨nofun, nofun, nofun, .inr (.inl rfl)⟩
    | _ => cases h
  | completed => cases o <;> cases h

section Jobs

variable {r r' : CreationRegistry} {j k : ℕ} {job a : CreationJob}

theorem CreationRegistry.jobs_apply (r : CreationRegistry) (name : String) (e : JobEffect) :
    (r.apply name e).jobs = r.jobs ∧ (r.apply name e).entering = r.entering ∧
      (r.apply name e).stateFlows = r.stateFlows := by
  cases e <;> exact ⟨rfl, rfl, rfl⟩

/-- A job found after one has been added is that one, or was there before. -/
theorem job_of_append {new : CreationJob} (h : (r.jobs ++ [new])[j]? = some a) :
    r.jobs[j]? = some a ∨ (j = r.jobs.length ∧ a = new) := by
  rw [List.getElem?_append] at h
  split at h
  · exact .inl h
  · rw [List.getElem?_singleton] at h
    split at h
    · exact .inr ⟨by omega, (Option.some.inj h).symm⟩
    · cases h

/-- A job found after a cancellation was there before, at the same place, perhaps not cancelled. -/
theorem job_of_cancel
    (h : (r.jobs.modify k fun job => { job with cancelled := true })[j]? = some a) :
    ∃ old, r.jobs[j]? = some old ∧ a.name = old.name ∧ a.flowId = old.flowId ∧ a.pc = old.pc ∧
      (a.cancelled = false → old.cancelled = false) := by
  rw [List.getElem?_modify] at h
  obtain ⟨old, hold, rfl⟩ := Option.map_eq_some_iff.mp h
  refine ⟨old, hold, ?_⟩
  split
  · exact ⟨rfl, rfl, rfl, nofun⟩
  · exact ⟨rfl, rfl, rfl, id⟩

/-- A job found after one has taken a step is that one at its new place, or another one. -/
theorem job_of_step {pc : JobPc} (h : (r.jobs.set k { job with pc := pc })[j]? = some a) :
    (j = k ∧ a = { job with pc := pc }) ∨ (j ≠ k ∧ r.jobs[j]? = some a) := by
  rw [List.getElem?_set] at h
  split at h
  · rename_i hkj
    split at h
    · exact .inl ⟨hkj.symm, (Option.some.inj h).symm⟩
    · cases h
  · rename_i hkj
    exact .inr ⟨Ne.symm hkj, h⟩

end Jobs

namespace MutexInv

variable {r r' : CreationRegistry}

theorem of_initial (h : r.Initial) : MutexInv r where
  locked j job hw := by rw [CreationRegistry.Working, h.jobs] at hw; cases hw.1
  unique i j a c hw := by rw [CreationRegistry.Working, h.jobs] at hw; cases hw.1

/-- Jobs change, but who works was working before. -/
theorem of_working (h : MutexInv r) (hmutex : r'.createMutex = r.createMutex)
    (hbefore : ∀ j a, r'.Working j a → ∃ old, r.Working j old) : MutexInv r' where
  locked j a hw := by
    obtain ⟨old, hold⟩ := hbefore j a hw
    rw [hmutex]
    exact h.locked j old hold
  unique i j a c hi hj := by
    obtain ⟨old, hold⟩ := hbefore i a hi
    obtain ⟨old', hold'⟩ := hbefore j c hj
    exact h.unique i j old old' hold hold'

theorem stepJob (h : MutexInv r) {k : ℕ} {job : CreationJob} {pc : JobPc} {e : JobEffect}
    (hjob : r.jobs[k]? = some job)
    (hgoes : CreationJob.Goes r.createMutex job.pc pc e) :
    MutexInv { r.apply job.name e with jobs := r.jobs.set k { job with pc := pc } } := by
  -- somebody else who works has been working
  have hother : ∀ j a, (r.jobs.set k { job with pc := pc })[j]? = some a → a.pc = .working →
      (j = k ∧ pc = .working) ∨ (j ≠ k ∧ r.Working j a) := by
    intro j a ha hpc
    obtain ⟨rfl, rfl⟩ | ⟨hne, hold⟩ := job_of_step ha
    · exact .inl ⟨rfl, hpc⟩
    · exact .inr ⟨hne, hold, hpc⟩
  have hfree : pc = .working → ∀ j a, ¬ r.Working j a := by
    intro hpc j a hw
    have hlocked := h.locked j a hw
    rw [(hgoes.lock hpc).2] at hlocked
    cases hlocked
  refine ⟨fun j a ⟨ha, hpc⟩ => ?_, fun i j a c ⟨ha, hpa⟩ ⟨hc, hpc⟩ => ?_⟩
  · show (r.apply job.name e).createMutex = true
    obtain ⟨-, hworking⟩ | ⟨hne, hold⟩ := hother j a ha hpc
    · rw [(hgoes.lock hworking).1]
      rfl
    · have hlocked := h.locked j a hold
      cases e with
      | unlock => exact absurd (h.unique j k a job hold ⟨hjob, hgoes.unlock rfl⟩) hne
      | lock => rfl
      | nothing | removeEntry => exact hlocked
  · obtain ⟨rfl, hworking⟩ | ⟨hne, hold⟩ := hother i a ha hpa
    · obtain ⟨rfl, -⟩ | ⟨-, hold'⟩ := hother j c hc hpc
      · rfl
      · exact absurd hold' (hfree hworking j c)
    · obtain ⟨-, hworking⟩ | ⟨-, hold'⟩ := hother j c hc hpc
      · exact absurd hold (hfree hworking i a)
      · exact h.unique i j a c hold hold'

theorem next (h : MutexInv r) {e : CreationEvent} (hstep : r.next e = some r') : MutexInv r' := by
  cases e with
  | create name id =>
    rw [CreationRegistry.next] at hstep
    split at hstep
    · cases hstep
    · split at hstep
      · cases hstep
        exact h
      · cases hstep
        refine h.of_working rfl fun j a ⟨ha, hpc⟩ => ?_
        obtain hold | ⟨-, rfl⟩ := job_of_append ha
        · exact ⟨a, hold, hpc⟩
        · cases hpc
  | enter =>
    obtain ⟨j, -, hrest⟩ := Option.bind_eq_some_iff.mp hstep
    obtain ⟨job, -, hresult⟩ := Option.bind_eq_some_iff.mp hrest
    cases hresult
    exact h.of_working rfl fun j a hw => ⟨a, hw⟩
  | cancel k =>
    cases hstep
    refine h.of_working rfl fun j a ⟨ha, hpc⟩ => ?_
    obtain ⟨old, hold, -, -, hsame, -⟩ := job_of_cancel ha
    exact ⟨old, hold, hsame.symm.trans hpc⟩
  | job k o =>
    obtain ⟨job, hjob, hrest⟩ := Option.bind_eq_some_iff.mp hstep
    obtain ⟨⟨e, pc⟩, hmoves, hresult⟩ := Option.bind_eq_some_iff.mp hrest
    cases hresult
    exact h.stepJob hjob (CreationJob.step_goes hmoves)

end MutexInv

/-- **At most one job works at a time**, of whatever name, in every reachable state. -/
theorem working_unique {r : CreationRegistry} (h : creationSystem.Reachable r) {i j : ℕ}
    {a c : CreationJob} (hi : r.Working i a) (hj : r.Working j c) : i = j := by
  have hinv : MutexInv r :=
    h.invariant (fun _ => MutexInv.of_initial) fun _ _ _ hs hstep => hs.next hstep
  exact hinv.unique i j a c hi hj

/-! ### The entries -/

/-- What runs of such steps keep: a running job is entered under its name, or about to be. -/
structure EntriesInv (r : CreationRegistry) : Prop where
  flows : ∀ (j : ℕ) (job : CreationJob), r.jobs[j]? = some job → job.flowId ∈ r.stateFlows
  entered : ∀ (j : ℕ) (job : CreationJob), r.jobs[j]? = some job → job.isRunning = true →
    r.entering = some j ∨ r.creationJobs job.name = some j
  alone : ∀ (j : ℕ) (job : CreationJob), r.entering = some j → r.jobs[j]? = some job →
    ∀ (k : ℕ) (other : CreationJob), r.jobs[k]? = some other → other.isRunning = true →
      other.name = job.name → k = j

theorem CreationJob.isRunning_of_step {locked : Bool} {job : CreationJob} {pc : JobPc}
    {e : JobEffect} (hgoes : CreationJob.Goes locked job.pc pc e)
    (h : { job with pc := pc }.isRunning = true) : job.isRunning = true := by
  unfold isRunning at h ⊢
  obtain ⟨hnot, hpc⟩ := Bool.and_eq_true_iff.mp h
  rw [show (!job.cancelled) = true from hnot]
  obtain rfl | rfl | ⟨hfinished, hcompleted⟩ := hgoes.running
  · cases hpc
  · cases hpc
  · cases hold : job.pc with
    | finished => exact absurd hold hfinished
    | completed => exact absurd hold hcompleted
    | _ => rfl

theorem CreationJob.isRunning_of_cancel {a old : CreationJob} (hpc : a.pc = old.pc)
    (hcancelled : a.cancelled = false → old.cancelled = false) (h : a.isRunning = true) :
    old.isRunning = true := by
  unfold isRunning at h ⊢
  obtain ⟨hnot, hplace⟩ := Bool.and_eq_true_iff.mp h
  rw [hcancelled (by simpa using hnot), ← hpc, hplace]
  rfl

namespace EntriesInv

variable {r r' : CreationRegistry}

theorem of_initial (h : r.Initial) : EntriesInv r where
  flows j job hjob := by rw [h.jobs] at hjob; cases hjob
  entered j job hjob := by rw [h.jobs] at hjob; cases hjob
  alone j job hentering := by rw [h.entering] at hentering; cases hentering

/-- The flow of the entered job is found. -/
theorem existingFlow_eq (h : EntriesInv r) {j : ℕ} {job : CreationJob}
    (hjob : r.jobs[j]? = some job) (hrunning : job.isRunning = true)
    (hentered : r.creationJobs job.name = some j) :
    r.existingFlow job.name = some job.flowId := by
  unfold CreationRegistry.existingFlow
  rw [hentered, Option.bind_some, hjob, Option.bind_some, if_pos]
  rw [CreationJob.isActive_of_isRunning hrunning, decide_eq_true (h.flows j job hjob)]
  rfl

theorem create (h : EntriesInv r) {name id : String} (hentering : r.entering = none)
    (hnone : r.existingFlow name = none) :
    EntriesInv { r with
      stateFlows := id :: r.stateFlows
      jobs := r.jobs ++ [⟨name, id, false, .created⟩]
      entering := some r.jobs.length } := by
  have hentered : ∀ j job, r.jobs[j]? = some job → job.isRunning = true →
      r.creationJobs job.name = some j := by
    intro j job hjob hrunning
    obtain hnow | hthere := h.entered j job hjob hrunning
    · rw [hentering] at hnow
      cases hnow
    · exact hthere
  refine ⟨fun j job hjob => ?_, fun j job hjob hrunning => ?_,
    fun j job hnow hjob k other hk hr hn => ?_⟩
  · obtain hold | ⟨-, rfl⟩ := job_of_append hjob
    · exact List.mem_cons_of_mem _ (h.flows j job hold)
    · exact List.mem_cons_self
  · obtain hold | ⟨rfl, -⟩ := job_of_append hjob
    · exact .inr (hentered j job hold hrunning)
    · exact .inl rfl
  · have hlast : j = r.jobs.length := (Option.some.inj hnow).symm
    obtain hold | ⟨-, rfl⟩ := job_of_append hjob
    · exact absurd (List.getElem?_eq_some_iff.mp hold).1 (by omega)
    · obtain hbefore | ⟨hk, -⟩ := job_of_append hk
      · -- a job that runs under this name would have been found
        have hfound := h.existingFlow_eq hbefore hr (hentered k other hbefore hr)
        rw [show other.name = name from hn, hnone] at hfound
        cases hfound
      · rw [hk, hlast]

theorem enter (h : EntriesInv r) {j : ℕ} {job : CreationJob} (hentering : r.entering = some j)
    (hjob : r.jobs[j]? = some job) :
    EntriesInv { r with
      creationJobs := Function.update r.creationJobs job.name (some j), entering := none } where
  flows := h.flows
  entered k other hother hrunning := by
    right
    show Function.update r.creationJobs job.name (some j) other.name = some k
    by_cases hname : other.name = job.name
    · rw [hname, Function.update_self, h.alone j job hentering hjob k other hother hrunning hname]
    · rw [Function.update_of_ne hname]
      obtain hnow | hthere := h.entered k other hother hrunning
      · rw [hentering] at hnow
        cases hnow
        rw [hjob] at hother
        exact absurd (congrArg CreationJob.name (Option.some.inj hother)).symm hname
      · exact hthere
  alone k _ hnow := by cases hnow

theorem cancel (h : EntriesInv r) (k : ℕ) :
    EntriesInv { r with jobs := r.jobs.modify k fun job => { job with cancelled := true } } where
  flows j job hjob := by
    obtain ⟨old, hold, -, hflow, -⟩ := job_of_cancel hjob
    exact hflow ▸ h.flows j old hold
  entered j job hjob hrunning := by
    obtain ⟨old, hold, hname, -, hpc, hcancelled⟩ := job_of_cancel hjob
    exact hname ▸ h.entered j old hold (CreationJob.isRunning_of_cancel hpc hcancelled hrunning)
  alone j job hentering hjob i other hother hrunning hsame := by
    obtain ⟨old, hold, hname, -⟩ := job_of_cancel hjob
    obtain ⟨old', hold', hname', -, hpc, hcancelled⟩ := job_of_cancel hother
    exact h.alone j old hentering hold i old' hold'
      (CreationJob.isRunning_of_cancel hpc hcancelled hrunning) (hname' ▸ hname ▸ hsame)

/-- **A job that takes out nobody else's entry keeps the running ones entered.** -/
theorem stepJob (h : EntriesInv r) {k : ℕ} {job : CreationJob} {pc : JobPc} {e : JobEffect}
    {o : JobOutcome} (hjob : r.jobs[k]? = some job)
    (hgoes : CreationJob.Goes r.createMutex job.pc pc e) (hown : RemovesOwn r (.job k o)) :
    EntriesInv { r.apply job.name e with jobs := r.jobs.set k { job with pc := pc } } := by
  obtain ⟨-, hentering, hflows⟩ := r.jobs_apply job.name e
  -- every job stood in the list before, with its name and flow, and runs no more than before
  have hbefore : ∀ (j : ℕ) (a : CreationJob),
      (r.jobs.set k { job with pc := pc })[j]? = some a →
      ∃ old, r.jobs[j]? = some old ∧ a.name = old.name ∧ a.flowId = old.flowId ∧
        (a.isRunning = true → old.isRunning = true) := by
    intro j a ha
    obtain ⟨rfl, rfl⟩ | ⟨-, hold⟩ := job_of_step ha
    · exact ⟨job, hjob, rfl, rfl, CreationJob.isRunning_of_step hgoes⟩
    · exact ⟨a, hold, rfl, rfl, id⟩
  refine ⟨fun j a ha => ?_, fun j a ha hrunning => ?_,
    fun j a hnow ha i other hother hrunning hsame => ?_⟩
  · obtain ⟨old, hold, -, hflow, -⟩ := hbefore j a ha
    show a.flowId ∈ (r.apply job.name e).stateFlows
    rw [hflows, hflow]
    exact h.flows j old hold
  · obtain ⟨old, hold, hname, -, hruns⟩ := hbefore j a ha
    show (r.apply job.name e).entering = some j ∨ (r.apply job.name e).creationJobs a.name = some j
    rw [hentering, hname]
    obtain hnow | hthere := h.entered j old hold (hruns hrunning)
    · exact .inl hnow
    · right
      cases e with
      | removeEntry =>
        obtain ⟨hremoving, hfinished⟩ := hgoes.remove rfl
        show Function.update r.creationJobs job.name none old.name = some j
        by_cases hsame : old.name = job.name
        · -- the entry that is taken out is the job's own, and the job is through with it
          obtain rfl | hidle := hown job hjob hremoving j (hsame ▸ hthere)
          · obtain ⟨-, rfl⟩ | ⟨hne, -⟩ := job_of_step ha
            · rw [CreationJob.isRunning, hfinished, Bool.and_false] at hrunning
              cases hrunning
            · exact absurd rfl hne
          · have hnot := hidle old hold
            rw [hruns hrunning] at hnot
            cases hnot
        · rw [Function.update_of_ne hsame]
          exact hthere
      | nothing | lock | unlock => exact hthere
  · obtain ⟨old, hold, hname, -⟩ := hbefore j a ha
    obtain ⟨old', hold', hname', -, hruns⟩ := hbefore i other hother
    exact h.alone j old (hentering.symm.trans hnow) hold i old' hold' (hruns hrunning)
      (hname' ▸ hname ▸ hsame)

theorem next (h : EntriesInv r) {e : CreationEvent} (hstep : r.next e = some r')
    (hown : RemovesOwn r e) : EntriesInv r' := by
  cases e with
  | create name id =>
    rw [CreationRegistry.next] at hstep
    split at hstep
    · cases hstep
    · rename_i hfree
      split at hstep
      · cases hstep
        exact h
      · rename_i hnone
        cases hstep
        exact h.create (Option.not_isSome_iff_eq_none.mp hfree) hnone
  | enter =>
    obtain ⟨j, hentering, hrest⟩ := Option.bind_eq_some_iff.mp hstep
    obtain ⟨job, hjob, hresult⟩ := Option.bind_eq_some_iff.mp hrest
    cases hresult
    exact h.enter hentering hjob
  | cancel k =>
    cases hstep
    exact h.cancel k
  | job k o =>
    obtain ⟨job, hjob, hrest⟩ := Option.bind_eq_some_iff.mp hstep
    obtain ⟨⟨e, pc⟩, hmoves, hresult⟩ := Option.bind_eq_some_iff.mp hrest
    cases hresult
    exact h.stepJob hjob (CreationJob.step_goes hmoves) hown

end EntriesInv

/-- **One creation per name, while jobs take out their own entries.**  In every interleaving in
which no job takes out the entry of another that still counts as running, at most one job works,
and a `create` of its name returns its flow unless it is cancelled. -/
theorem oneCreation_of_removesOwn {r : CreationRegistry}
    {run : List (CreationEvent × CreationRegistry)} (hinitial : r.Initial)
    (hrun : creationSystem.Exec r run) (hguard : AllSteps RemovesOwn r run) :
    AllStates OneCreation r run := by
  refine System.allStates_of_allSteps (I := fun r => MutexInv r ∧ EntriesInv r) ?_ ?_
    ⟨MutexInv.of_initial hinitial, EntriesInv.of_initial hinitial⟩ hrun hguard
  · rintro t ⟨hmutex, hentries⟩
    refine ⟨hmutex.unique, fun hfree j job ⟨hjob, hpc⟩ hnot => ?_⟩
    have hrunning : job.isRunning = true := by
      rw [CreationJob.isRunning, hnot, hpc]
      rfl
    obtain hnow | hthere := hentries.entered j job hjob hrunning
    · rw [hfree] at hnow
      cases hnow
    · exact hentries.existingFlow_eq hjob hrunning hthere
  · rintro t e t' ⟨hmutex, hentries⟩ hstep hown
    exact ⟨hmutex.next hstep, hentries.next hstep hown⟩

/-! ### Three calls for one name -/

def freshRegistry : CreationRegistry where
  stateFlows := []
  creationJobs _ := none
  jobs := []
  createMutex := false
  entering := none

theorem freshRegistry_initial : freshRegistry.Initial :=
  ⟨fun _ => rfl, rfl, rfl, rfl⟩

/-- A creation is asked for and entered, and its job goes up to `createMutex`. -/
def startCreation (j : ℕ) (id : String) : List CreationEvent :=
  [.create "name" id, .enter, .job j .returns, .job j .returns]

/-- The first creation runs to its end, with a second call while it works and one after it. -/
def oneAfterTheOther : List CreationEvent :=
  startCreation 0 "a" ++ [.job 0 .returns, .create "name" "b", .job 0 .returns, .job 0 .returns,
    .job 0 .returns, .job 0 .returns] ++ startCreation 1 "c"

theorem oneCreation_oneAfterTheOther :
    (traceNext CreationRegistry.next freshRegistry oneAfterTheOther).length = 14 ∧
      AllStates OneCreation freshRegistry
        (traceNext CreationRegistry.next freshRegistry oneAfterTheOther) :=
  ⟨rfl, oneCreation_of_removesOwn freshRegistry_initial (System.exec_traceNext _ _ _) (by decide)⟩

/-- The first creation is cancelled at its work, and cleans up when the second is entered. -/
def cancelledCleansUp : List CreationEvent :=
  startCreation 0 "a" ++ [.job 0 .returns, .cancel 0] ++ startCreation 1 "b" ++
    [.job 0 .cancelled, .job 1 .returns, .job 0 .returns, .job 0 .returns]

/-- While the second job works, a third call would find nothing and start another one. -/
theorem third_creation :
    ¬ ∀ (r : CreationRegistry) (run : List (CreationEvent × CreationRegistry)), r.Initial →
      creationSystem.Exec r run → AllStates OneCreation r run := by
  intro hall
  have hrun := hall freshRegistry
    (traceNext CreationRegistry.next freshRegistry cancelledCleansUp) freshRegistry_initial
    (System.exec_traceNext _ _ _)
  have hreturned := hrun.last.returned rfl 1 ⟨"name", "b", false, .working⟩ ⟨rfl, rfl⟩ rfl
  cases hreturned

end Wldroid.Proot
