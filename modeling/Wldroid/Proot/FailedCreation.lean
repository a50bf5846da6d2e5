import Wldroid.Proot.CrashRecovery

/-!
# A call that fails inside the process

The calls that make an environment fail by an exception, by an `ERROR` result or by cancellation at
a suspension point, and run their handlers and `finally` blocks to the end.

* `Build.failsAt` — the steps with which a call has failed for good: what a handler catches in order
  to delete the directory comes before, the `finally` that deletes the marker after;
* `FailsClean` — such a step finds no record in the store, and no `etc/os-release` in a directory
  that the marker will not protect;
* `leavesNothing_iff_failsClean` — a call that has failed leaves no record and nothing to adopt
  exactly when it failed so;
* `configure_failure_is_adopted` — it fails while configuring the extracted rootfs.
-/

namespace Wldroid.Proot

open Wldroid.Foundation

/-! ### Failing steps -/

/-- The call has failed, and only reports it and runs its `finally`. -/
def BuildPc.hasFailed : BuildPc → Bool
  | .sendError | .deleteMarker true | .ended true => true
  | _ => false

/-- With this step the call has failed for good. -/
def Build.failsAt (s : Storage) (b : Build) : BuildPc → StepOutcome → Bool
  | .sendError, _ => false
  -- the handlers delete the directory first
  | .makeDir, .fails => false
  | .write _, .fails => false
  | .cleanup [], .returns => true
  | .verifySha256, .verified ok => !ok
  | .findSource source, .returns => decide (source ∉ s.registered)
  | .requireSource source, .returns => (s.dir? source).isNone
  | .verifyStore, .returns => decide (b.id ∉ s.registered)
  | .add, .editFailed _ => true
  | _, .fails => true
  | _, .cancelled => true
  | _, _ => false

/-- What a failing step does besides. -/
inductive Failing (s : Storage) (b : Build) : StepOutcome → Effect → Bool → Prop
  | plain (o : StepOutcome) (ho : o ≠ .editFailed true) : Failing s b o .nothing b.recorded
  | emptied (o : StepOutcome) (ho : o ≠ .editFailed true)
      (hempty : ∀ d, s.dir? b.id = some d → d.pieces = []) : Failing s b o .removeDir b.recorded
  | stored : Failing s b (.editFailed true) .addRecord true

/-- How a step bears on the end of the call. -/
structure Build.Ends (s : Storage) (b b' : Build) (pc : BuildPc) (o : StepOutcome) (e : Effect) :
    Prop where
  failed : b'.pc.hasFailed = true ↔ pc.hasFailed = true ∨ b.failsAt s pc o = true
  failing : b.failsAt s pc o = true → Failing s b o e b'.recorded
  after : pc.hasFailed = true →
    b'.recorded = b.recorded ∧ (e = .nothing ∨ e = .erase .creating ∧ ∃ f, pc = .deleteMarker f)
  marker : ∀ f, b'.pc = .deleteMarker f → pc = .deleteMarker f ∨ b.kind = .create
  ended : ∀ f, b'.pc = .ended f → e = .erase .creating ∨ b.kind ≠ .create

/-- Neither failed nor near the end. -/
def BuildPc.isLive : BuildPc → Bool
  | .sendError | .deleteMarker _ | .ended _ => false
  | _ => true

namespace Build

variable {s : Storage} {b b' : Build} {e : Effect} {o : StepOutcome} {pc : BuildPc}

theorem hasFailed_of_isLive (h : pc.isLive = true) : pc.hasFailed = false := by
  cases pc <;> first | rfl | cases h

theorem exit_hasFailed (b : Build) (failed : Bool) : (b.exit failed).pc.hasFailed = failed := by
  obtain ⟨hpc, -⟩ | ⟨hpc, -⟩ := b.exit_cases failed <;> rw [hpc] <;> cases failed <;> rfl

/-- The call goes on. -/
theorem Ends.goesOn (hpc : pc.isLive = true) (hfails : b.failsAt s pc o = false)
    (hlive : b'.pc.isLive = true) : b.Ends s b' pc o e where
  failed := by
    rw [hasFailed_of_isLive hpc, hasFailed_of_isLive hlive, hfails]
    simp
  failing h := absurd (hfails.symm.trans h) Bool.false_ne_true
  after h := absurd ((hasFailed_of_isLive hpc).symm.trans h) Bool.false_ne_true
  marker f h := by rw [h] at hlive; cases hlive
  ended f h := by rw [h] at hlive; cases hlive

/-- The call fails, and goes to its `finally` or returns. -/
theorem Ends.exits (hpc : pc.isLive = true) (hfails : b.failsAt s pc o = true)
    {b' : Build} (hkind : b'.kind = b.kind) (hfailing : Failing s b o e b'.recorded) :
    b.Ends s (b'.exit true) pc o e where
  failed := by
    rw [exit_hasFailed, hfails]
    simp
  failing _ := hfailing
  after h := absurd ((hasFailed_of_isLive hpc).symm.trans h) Bool.false_ne_true
  marker f h := by
    obtain ⟨-, hcreate⟩ | ⟨hended, -⟩ := b'.exit_cases true
    · exact .inr (hkind ▸ hcreate)
    · rw [h] at hended
      cases hended
  ended f h := by
    obtain ⟨hmarker, -⟩ | ⟨-, hother⟩ := b'.exit_cases true
    · rw [h] at hmarker
      cases hmarker
    · exact .inr (hkind ▸ hother)

/-- The call fails, and reports an error first. -/
theorem Ends.reports (hpc : pc.isLive = true) (hfails : b.failsAt s pc o = true)
    (hfailing : Failing s b o e b.recorded) : b.Ends s (b.goto .sendError) pc o e where
  failed := by
    rw [hfails]
    simp [goto, BuildPc.hasFailed]
  failing _ := hfailing
  after h := absurd ((hasFailed_of_isLive hpc).symm.trans h) Bool.false_ne_true
  marker _ h := by cases h
  ended _ h := by cases h

/-- The call is over, failed or not as before. -/
theorem Ends.closes (hfails : b.failsAt s pc o = false) {failed : Bool}
    (hpc : pc.hasFailed = failed) : b.Ends s (b.exit failed) pc o .nothing where
  failed := by
    rw [exit_hasFailed, hfails, hpc]
    simp
  failing h := absurd (hfails.symm.trans h) Bool.false_ne_true
  after _ := ⟨rfl, .inl rfl⟩
  marker f h := by
    obtain ⟨-, hcreate⟩ | ⟨hended, -⟩ := b.exit_cases failed
    · exact .inr hcreate
    · rw [h] at hended
      cases hended
  ended f h := by
    obtain ⟨hmarker, -⟩ | ⟨-, hother⟩ := b.exit_cases failed
    · rw [h] at hmarker
      cases hmarker
    · exact .inr hother

/-- A call that just ends has failed for good. -/
theorem failsAt_of_throws (s : Storage) (b : Build) (h : pc.throws b.kind o = true) :
    pc.isLive = true ∧ b.failsAt s pc o = true ∧ o ≠ .editFailed true := by
  unfold BuildPc.throws at h
  split at h
  all_goals first | cases h; done | exact ⟨rfl, rfl, nofun⟩

/-- **Every step, and the end of the call.** -/
theorem step_ends (hlate : b.recorded = true → pc.stage b.kind = .over)
    (h : b.step s pc o = some (e, b')) : b.Ends s b' pc o e := by
  cases steps_of_step h with
  | makeJobDir | createMarker | clearPartial | lock | download | makeDir | makeDirFails _
  | write p rest | writeFails todo | sendInstalling | configure p rest | makeL2s =>
    exact .goesOn rfl rfl rfl
  | sendError _ => exact .closes rfl rfl
  | sendReady | leaveContext => exact .closes rfl rfl
  | throws hthrows =>
    obtain ⟨hpc, hfails, hplain⟩ := b.failsAt_of_throws s hthrows
    exact .exits hpc hfails rfl (.plain _ hplain)
  | checkExisting | configured =>
    refine .goesOn rfl rfl ?_
    show BuildPc.isLive (if _ then _ else _) = true
    split <;> rfl
  | verifySha256 ok =>
    cases ok with
    | true => exact .goesOn rfl rfl rfl
    | false => exact .reports rfl rfl (.plain _ nofun)
  | findSource source =>
    by_cases hin : source ∈ s.registered
    · rw [if_pos hin]
      exact .goesOn rfl (by simp [failsAt, hin]) rfl
    · rw [if_neg hin]
      exact .exits rfl (by simp [failsAt, hin]) rfl (.plain _ nofun)
  | requireSource source =>
    cases hdir : s.dir? source with
    | none => exact .exits rfl (by simp [failsAt, hdir]) rfl (.plain _ nofun)
    | some d => exact .goesOn rfl (by simp [failsAt, hdir]) rfl
  | written =>
    refine .goesOn rfl rfl ?_
    unfold afterWrite
    cases b.kind <;> rfl
  | @delete left p _ | @keep left p _ =>
    refine .goesOn rfl ?_ rfl
    cases left <;> rfl
  -- a handler has deleted what it could
  | cleaned =>
    have hfailing : Failing s b .returns
        (if (s.dir? b.id).any fun d => d.pieces.isEmpty then .removeDir else .nothing)
        b.recorded := by
      split
      · rename_i hempty
        refine .emptied _ nofun fun d hd => ?_
        rw [hd] at hempty
        exact List.isEmpty_iff.mp hempty
      · exact .plain _ nofun
    unfold afterCleanup
    split
    · exact .reports rfl rfl hfailing
    · exact .exits rfl rfl rfl hfailing
  | validate =>
    refine .goesOn rfl rfl ?_
    split <;> rfl
  | add persisted =>
    refine .goesOn rfl rfl ?_
    show BuildPc.isLive (if _ then _ else _) = true
    split <;> rfl
  | addFails persisted =>
    cases persisted with
    | true => exact .exits rfl rfl rfl .stored
    | false =>
      have hnew : b.recorded = false :=
        Bool.eq_false_of_not_eq_true fun hrecorded => by cases hlate hrecorded
      have hplain : Failing s b (.editFailed false) .nothing b.recorded := .plain _ nofun
      rw [hnew] at hplain
      exact .exits rfl rfl rfl hplain
  | verifyStore =>
    by_cases hin : b.id ∈ s.registered
    · rw [if_pos hin]
      exact .goesOn rfl (by simp [failsAt, hin]) rfl
    · rw [if_neg hin]
      exact .reports rfl (by simp [failsAt, hin]) (.plain _ nofun)
  | deleteMarker failed =>
    refine
      { failed := ?_, failing := nofun, after := fun _ => ⟨rfl, .inr ⟨rfl, failed, rfl⟩⟩,
        marker := nofun, ended := fun _ _ => .inl rfl }
    cases failed <;> simp [failsAt, goto, BuildPc.hasFailed]

end Build

/-! ### What a failed call leaves -/

/-- No record of the environment is in the store, and the next recovery would not make one. -/
def LeavesNothing (at' : Storage × Build) : Prop :=
  at'.2.id ∉ at'.1.registered ∧
    at'.2.id ∉ at'.1.adoptOrphanedEnvironments.registered

/-- The directory has an `etc/os-release`, and no marker will protect it: the job of `create`
deletes its own in the end. -/
def Exposed (at' : Storage × Build) : Prop :=
  ∃ d ∈ at'.1.dir? at'.2.id, d.hasOsRelease = true ∧
    (at'.2.kind = .create ∨ d.isCreating = false)

instance (at' : Storage × Build) : Decidable (Exposed at') :=
  inferInstanceAs (Decidable (∃ d ∈ at'.1.dir? at'.2.id, d.hasOsRelease = true ∧
    (at'.2.kind = .create ∨ d.isCreating = false)))

/-- A step with which the call fails for good finds no record and no exposed directory, and is not a
store edit that throws after all is written. -/
def FailsClean (at' : Storage × Build) (o : StepOutcome) : Prop :=
  at'.2.failsAt at'.1 at'.2.pc o = true →
    at'.2.id ∉ at'.1.registered ∧ o ≠ .editFailed true ∧ ¬ Exposed at'

instance (at' : Storage × Build) (o : StepOutcome) : Decidable (FailsClean at' o) :=
  inferInstanceAs (Decidable (at'.2.failsAt at'.1 at'.2.pc o = true →
    at'.2.id ∉ at'.1.registered ∧ o ≠ .editFailed true ∧ ¬ Exposed at'))

theorem EnvDir.hasOsRelease_eraseMarker (d : EnvDir) :
    (d.erase .creating).hasOsRelease = d.hasOsRelease := by
  unfold EnvDir.hasOsRelease EnvDir.erase
  rw [List.any_filter]
  congr 1
  funext p
  cases p with
  | creating => rfl
  | entry path part => simp
  | config path => simp [Piece.isOsRelease]

theorem EnvDir.isCreating_eraseMarker (d : EnvDir) : (d.erase .creating).isCreating = false := by
  unfold EnvDir.isCreating EnvDir.erase
  simp

/-- All that is known along a call of a fresh id. -/
structure CallInv (s₀ : Storage) (id : EnvId) (at' : Storage × Build) : Prop where
  build : BuildInv s₀ at'
  names : (at'.1.dirs.map EnvDir.name).Nodup
  id_eq : at'.2.id = id
  /-- Only the job of `create` deletes a marker in the end, and has deleted it when it has ended. -/
  marker : ∀ f, at'.2.pc = .deleteMarker f → at'.2.kind = .create
  unmarked : ∀ f, at'.2.pc = .ended f → at'.2.kind = .create →
    ∀ d, at'.1.dir? at'.2.id = some d → d.isCreating = false

/-- The damage that lasts: the call has failed, and there is a record or an exposed directory. -/
def Damaged (at' : Storage × Build) : Prop :=
  at'.2.pc.hasFailed = true ∧ (at'.2.recorded = true ∨ Exposed at')

section Call

variable {s₀ s s' : Storage} {b b' : Build} {o : StepOutcome} {id : EnvId}

theorem CallInv.of_starts (h : b.Starts s) (hnames : (s.dirs.map EnvDir.name).Nodup) :
    CallInv s b.id (s, b) where
  build := BuildInv.of_starts h
  names := hnames
  id_eq := rfl
  marker f hpc := by
    rw [show b.pc = _ from h.pc] at hpc
    cases hkind : b.kind <;> rw [hkind] at hpc <;> cases hpc
  unmarked f hpc := by
    rw [show b.pc = _ from h.pc] at hpc
    cases hkind : b.kind <;> rw [hkind] at hpc <;> cases hpc

theorem CallInv.next (h : CallInv s₀ id (s, b)) (hstep : b.next s o = some (s', b')) :
    CallInv s₀ id (s', b') := by
  have hid := Build.next_id h.build hstep
  have hbuild := h.build.next hstep
  have hnames := Build.next_names h.names hstep
  obtain ⟨⟨e, t⟩, hmoves, hresult⟩ := Option.map_eq_some_iff.mp hstep
  cases hresult
  have hends := Build.step_ends h.build.late hmoves
  have hkind : t.kind = b.kind := (Build.step_follows h.build.late hmoves).kind
  refine ⟨hbuild, hnames, hid.trans h.id_eq, fun f hpc => ?_, fun f hpc hcreate d hd => ?_⟩
  · obtain hold | hcreate := hends.marker f hpc
    · exact hkind.trans (h.marker f hold)
    · exact hkind.trans hcreate
  · obtain rfl | hother := hends.ended f hpc
    · have hdir : (b.apply s (.erase .creating)).dir? t.id = some d := hd
      rw [show t.id = b.id from hid, b.dir?_apply, if_pos rfl] at hdir
      obtain ⟨old, -, rfl⟩ := Option.map_eq_some_iff.mp hdir
      exact old.isCreating_eraseMarker
    · exact absurd (hkind.symm.trans hcreate) hother

/-- With a step that fails the call for good, the directory stays as exposed as it was. -/
theorem Failing.exposed_iff {e : Effect} {recorded : Bool} (h : Failing s b o e recorded)
    {t : Build} (hid : t.id = b.id) (hkind : t.kind = b.kind) :
    Exposed (b.apply s e, t) ↔ Exposed (s, b) := by
  unfold Exposed
  rw [show (b.apply s e, t).1.dir? (b.apply s e, t).2.id = (b.apply s e).dir? b.id from
    congrArg _ hid, b.dir?_apply, if_pos rfl, show (b.apply s e, t).2.kind = b.kind from hkind]
  cases h with
  | plain | stored => exact Iff.rfl
  | emptied _ _ hempty =>
    constructor
    · rintro ⟨d, hd, -⟩
      cases hd
    · rintro ⟨d, hd, hrelease, -⟩
      rw [EnvDir.hasOsRelease, hempty d hd] at hrelease
      cases hrelease

/-- After the failure nothing changes that matters. -/
theorem Damaged.next_iff (h : CallInv s₀ id (s, b)) (hstep : b.next s o = some (s', b'))
    (hfailed : b.pc.hasFailed = true) : Damaged (s', b') ↔ Damaged (s, b) := by
  have hid := Build.next_id h.build hstep
  obtain ⟨⟨e, t⟩, hmoves, hresult⟩ := Option.map_eq_some_iff.mp hstep
  cases hresult
  have hends := Build.step_ends h.build.late hmoves
  have hkind : t.kind = b.kind := (Build.step_follows h.build.late hmoves).kind
  obtain ⟨hrecorded, heffect⟩ := hends.after hfailed
  have hexposed : Exposed (b.apply s e, t) ↔ Exposed (s, b) := by
    obtain rfl | ⟨rfl, f, hpc⟩ := heffect
    · exact (Failing.plain .returns nofun).exposed_iff hid hkind
    · -- the marker of a job is all that is deleted
      have hcreate : b.kind = .create := h.marker f hpc
      unfold Exposed
      rw [show (b.apply s (.erase .creating), t).1.dir? (b.apply s (.erase .creating), t).2.id
          = (b.apply s (.erase .creating)).dir? b.id from congrArg _ hid, b.dir?_apply, if_pos rfl]
      constructor
      · rintro ⟨d, hd, hrelease, -⟩
        obtain ⟨old, hold, rfl⟩ := Option.map_eq_some_iff.mp hd
        rw [old.hasOsRelease_eraseMarker] at hrelease
        exact ⟨old, hold, hrelease, .inl hcreate⟩
      · rintro ⟨d, hd, hrelease, -⟩
        refine ⟨d.erase .creating, ?_, ?_, .inl (hkind.trans hcreate)⟩
        · rw [show s.dir? b.id = some d from hd]
          rfl
        · rw [d.hasOsRelease_eraseMarker]
          exact hrelease
  unfold Damaged
  rw [hexposed, show (b.apply s e, t).2.recorded = b.recorded from hrecorded]
  have hfailed' : t.pc.hasFailed = true := hends.failed.mpr (.inl hfailed)
  exact and_congr_left' ⟨fun _ => hfailed, fun _ => hfailed'⟩

/-- A step that fails the call for good does so cleanly exactly when no damage comes of it. -/
theorem damaged_of_failsAt (h : CallInv s₀ id (s, b)) (hfresh : id ∉ s₀.registered)
    (hstep : b.next s o = some (s', b')) (hfails : b.failsAt s b.pc o = true) :
    Damaged (s', b') ↔ ¬ FailsClean (s, b) o := by
  have hid := Build.next_id h.build hstep
  have hregistered : b.id ∈ s.registered ↔ b.recorded = true :=
    h.build.registered_iff (h.id_eq.symm ▸ hfresh)
  obtain ⟨⟨e, t⟩, hmoves, hresult⟩ := Option.map_eq_some_iff.mp hstep
  cases hresult
  have hends := Build.step_ends h.build.late hmoves
  have hkind : t.kind = b.kind := (Build.step_follows h.build.late hmoves).kind
  have hfailing := hends.failing hfails
  have hexposed := hfailing.exposed_iff hid hkind
  have hfailed : t.pc.hasFailed = true := hends.failed.mpr (.inr hfails)
  have hrecorded : t.recorded = true ↔ b.recorded = true ∨ o = .editFailed true := by
    generalize t.recorded = r at hfailing ⊢
    cases hfailing with
    | plain _ ho | emptied _ ho => exact (or_iff_left ho).symm
    | stored => exact ⟨fun _ => .inr rfl, fun _ => rfl⟩
  unfold Damaged FailsClean
  rw [hexposed, show (b.apply s e, t).2.recorded = t.recorded from rfl, hrecorded]
  show t.pc.hasFailed = true ∧ ((b.recorded = true ∨ o = .editFailed true) ∨ Exposed (s, b)) ↔
    ¬ (b.failsAt s b.pc o = true →
      b.id ∉ s.registered ∧ o ≠ .editFailed true ∧ ¬ Exposed (s, b))
  rw [hregistered]
  constructor
  · rintro ⟨-, hdamage⟩ hclean
    obtain ⟨hnew, ho, hsafe⟩ := hclean hfails
    obtain (hold | hedit) | hexposed := hdamage
    · exact hnew hold
    · exact ho hedit
    · exact hsafe hexposed
  · intro hunclean
    refine ⟨hfailed, ?_⟩
    by_contra hnone
    exact hunclean fun _ => ⟨fun h => hnone (.inl (.inl h)), fun h => hnone (.inl (.inr h)),
      fun h => hnone (.inr h)⟩

/-- When a failed call has ended, the lasting damage is what it leaves. -/
theorem leavesNothing_iff_not_damaged (h : CallInv s₀ id (s, b)) (hfresh : id ∉ s₀.registered)
    (hended : b.pc = .ended true) : LeavesNothing (s, b) ↔ ¬ Damaged (s, b) := by
  have hregistered : b.id ∈ s.registered ↔ b.recorded = true :=
    h.build.registered_iff (h.id_eq.symm ▸ hfresh)
  have hadopt : b.id ∈ s.adoptOrphanedEnvironments.registered ↔
      b.id ∈ s.registered ∨ b.id ∈ s.cleanInterrupted.findOrphanedEnvironments s.registered := by
    have hids : ∀ ids : List EnvId,
        (ids.map Storage.adopted).map RootfsEnvironment.id = ids := by
      intro ids
      rw [List.map_map]
      exact List.map_id ids
    show b.id ∈ (s.store ++ _).map RootfsEnvironment.id ↔ _
    rw [List.map_append, List.mem_append, hids]
    rfl
  have hexposed : Exposed (s, b) ↔
      ∃ d, s.dir? b.id = some d ∧ d.isCreating = false ∧ d.hasOsRelease = true := by
    constructor
    · rintro ⟨d, hd, hrelease, hcreate | hunmarked⟩
      · exact ⟨d, hd, h.unmarked true hended hcreate d hd, hrelease⟩
      · exact ⟨d, hd, hunmarked, hrelease⟩
    · rintro ⟨d, hd, hunmarked, hrelease⟩
      exact ⟨d, hd, hrelease, .inr hunmarked⟩
  have hfailed : b.pc.hasFailed = true := by
    rw [hended]
    rfl
  unfold LeavesNothing Damaged
  show (b.id ∉ s.registered ∧ b.id ∉ s.adoptOrphanedEnvironments.registered) ↔
    ¬ (b.pc.hasFailed = true ∧ (b.recorded = true ∨ Exposed (s, b)))
  rw [hadopt, Storage.mem_orphans_iff h.names, ← hexposed, hregistered]
  constructor
  · rintro ⟨hnew, hnone⟩ ⟨-, hrecorded | hdir⟩
    · exact hnew hrecorded
    · exact hnone (.inr ⟨hnew, hdir⟩)
  · intro hsound
    have hnew : ¬ b.recorded = true := fun h => hsound ⟨hfailed, .inl h⟩
    refine ⟨hnew, ?_⟩
    rintro (hrecorded | ⟨-, hdir⟩)
    · exact hnew hrecorded
    · exact hsound ⟨hfailed, .inr hdir⟩

end Call

/-- **A failed call leaves nothing exactly when it fails cleanly.**  For every call of a fresh id
that has ended in failure, whatever else went wrong in it: no record is there and nothing would be
adopted, if and only if the step with which it failed for good found no record and no exposed
directory. -/
theorem leavesNothing_iff_failsClean {s : Storage} {b : Build}
    {run : List (StepOutcome × (Storage × Build))} (hnames : (s.dirs.map EnvDir.name).Nodup)
    (hstarts : b.Starts s) (hrun : buildSystem.Exec (s, b) run)
    (hended : (lastState (s, b) run).2.pc = .ended true) :
    LeavesNothing (lastState (s, b) run) ↔ AllSteps FailsClean (s, b) run := by
  have hstart : CallInv s b.id (s, b) := CallInv.of_starts hstarts hnames
  have hfresh : b.id ∉ s.registered := hstarts.noRecord
  have hlast : CallInv s b.id (lastState (s, b) run) :=
    hrun.lasting (I := fun _ => True) (B := CallInv s b.id) (fun _ _ _ _ _ => trivial)
      (fun _ _ _ _ h hstep => h.next hstep) trivial hstart
  rw [leavesNothing_iff_not_damaged hlast hfresh hended]
  constructor
  · refine System.allSteps_of_undamaged (I := CallInv s b.id) (fun _ _ _ h hstep => h.next hstep)
      ?_ ?_ hrun hstart
    · rintro ⟨t, c⟩ o ⟨t', c'⟩ h hdamaged hstep
      exact (Damaged.next_iff h hstep hdamaged.1).mpr hdamaged
    · rintro ⟨t, c⟩ o ⟨t', c'⟩ h hstep hunclean
      have hfails : c.failsAt t c.pc o = true := by
        by_contra hnot
        exact hunclean fun hfails => absurd hfails hnot
      exact (damaged_of_failsAt h hfresh hstep hfails).mpr hunclean
  · intro hguard
    have hall : AllStates (fun at' => ¬ Damaged at') (s, b) run := by
      refine System.allStates_of_allSteps (I := fun at' => CallInv s b.id at' ∧ ¬ Damaged at')
        (fun _ h => h.2) ?_ ⟨hstart, ?_⟩ hrun hguard
      · rintro ⟨t, c⟩ o ⟨t', c'⟩ ⟨h, hsound⟩ hstep hclean
        refine ⟨h.next hstep, ?_⟩
        cases hfailed : c.pc.hasFailed with
        | true => exact fun hd => hsound ((Damaged.next_iff h hstep hfailed).mp hd)
        | false =>
          by_cases hfails : c.failsAt t c.pc o = true
          · exact fun hd => (damaged_of_failsAt h hfresh hstep hfails).mp hd hclean
          · -- a call that does not fail for good has nothing to answer for
            rintro ⟨hfailed', -⟩
            obtain ⟨⟨e, u⟩, hmoves, hresult⟩ := Option.map_eq_some_iff.mp hstep
            cases hresult
            obtain hold | hnow := (Build.step_ends h.build.late hmoves).failed.mp hfailed'
            · exact Bool.false_ne_true (hfailed.symm.trans hold)
            · exact hfails hnow
      · rintro ⟨hfailed, -⟩
        rw [show (s, b).2.pc = _ from hstarts.pc] at hfailed
        cases hkind : b.kind <;> rw [hkind] at hfailed <;> cases hfailed
    exact hall.last

/-! ### Two failures of a creation -/

/-- The steps of `smallCreate` up to the extraction. -/
def untilExtraction : List StepOutcome :=
  [.returns, .returns, .returns, .returns, .returns, .returns, .verified true, .returns]

/-- The extraction fails after its only file, and the handler deletes everything. -/
def extractionFails : List StepOutcome :=
  untilExtraction ++ [.returns, .fails, .deleted .creating, .deleted (.entry "etc/os-release" 0),
    .returns, .returns, .returns]

theorem leavesNothing_extractionFails :
    (traceNext nextOf (emptyStorage, smallCreate) extractionFails).length = 15 ∧
      LeavesNothing (lastState (emptyStorage, smallCreate)
        (traceNext nextOf (emptyStorage, smallCreate) extractionFails)) :=
  ⟨rfl, (leavesNothing_iff_failsClean emptyStorage_settled.names smallCreate_starts
    (System.exec_traceNext _ _ _) rfl).mpr (by decide)⟩

/-- The first write of `configureRootfs` throws; no handler deletes the extracted rootfs, and
`finally` deletes its marker. -/
def configurationFails : List StepOutcome :=
  untilExtraction ++ [.returns, .returns, .returns, .fails, .returns]

theorem configure_failure_is_adopted :
    ¬ ∀ (s : Storage) (b : Build) (run : List (StepOutcome × (Storage × Build))),
      (s.dirs.map EnvDir.name).Nodup → b.Starts s → buildSystem.Exec (s, b) run →
      (lastState (s, b) run).2.pc = .ended true → LeavesNothing (lastState (s, b) run) := by
  intro hall
  have hleaves := hall emptyStorage smallCreate
    (traceNext nextOf (emptyStorage, smallCreate) configurationFails) emptyStorage_settled.names
    smallCreate_starts (System.exec_traceNext _ _ _) rfl
  exact hleaves.2 (List.mem_cons_self : "id" ∈ ["id"])

end Wldroid.Proot
