import Wldroid.Proot.BuildStages

/-!
# Killed while an environment is made, then recovered

The process can be killed after any step of a call; what is on disk stays, and the next start runs
`recoverOrphanedEnvironments` on it.

* `consistent_adopt_iff` — what recovery makes of a storage, one id at a time;
* `KillSafe` — where the call stood: the record is not in the store together with the marker, and
  an unmarked directory without a record has no `etc/os-release` or is completely written;
* `recovered_consistent_iff_killSafe` — recovery leads to a consistent storage exactly when the
  process was killed at such a point;
* `settled_adopt` — and then the next call may start from there;
* `killed_before_marker_deletion` — `create` between its store write and the deletion of its marker.
-/

namespace Wldroid.Proot

open Wldroid.Foundation

namespace Storage

variable {s : Storage} {x : EnvId}

/-! ### What recovery does -/

/-- Every READY record has a directory with a completely written rootfs. -/
def Consistent (s : Storage) : Prop :=
  ∀ env ∈ s.store, env.status = .ready → ∃ d, s.dir? env.id = some d ∧ d.isComplete = true

/-- Recovery would do right by this id: a READY record has an unmarked, complete directory, and what
would be adopted is complete. -/
structure SoundAt (s : Storage) (x : EnvId) : Prop where
  ready : ∀ env ∈ s.store, env.id = x → env.status = .ready →
    ∃ d, s.dir? x = some d ∧ d.isCreating = false ∧ d.isComplete = true
  orphan : x ∉ s.registered → ∀ d, s.dir? x = some d → d.isCreating = false →
    d.hasOsRelease = true → d.isComplete = true

/-- A storage in which recovery finds nothing amiss. -/
structure Settled (s : Storage) : Prop where
  names : (s.dirs.map EnvDir.name).Nodup
  sound : ∀ x, s.SoundAt x

theorem dir?_adopt (hnames : (s.dirs.map EnvDir.name).Nodup) (x : EnvId) :
    s.adoptOrphanedEnvironments.dir? x = (s.dir? x).filter fun d => !d.isCreating :=
  lookup_filter hnames (fun d => !d.isCreating) x

/-- The directories recovery adopts. -/
theorem mem_orphans_iff (hnames : (s.dirs.map EnvDir.name).Nodup) :
    x ∈ s.cleanInterrupted.findOrphanedEnvironments s.registered ↔
      x ∉ s.registered ∧ ∃ d, s.dir? x = some d ∧ d.isCreating = false ∧ d.hasOsRelease = true := by
  have hclean : (s.cleanInterrupted.dirs.map EnvDir.name).Nodup :=
    (List.filter_sublist.map EnvDir.name).nodup hnames
  have hfind : ∀ d, s.dir? x = some d ↔ d ∈ s.dirs ∧ d.name = x := fun d =>
    lookup_eq_some_iff hnames
  constructor
  · intro hx
    obtain ⟨d, hd, rfl⟩ := List.mem_map.mp hx
    obtain ⟨hmem, hkeep⟩ := List.mem_filter.mp hd
    obtain ⟨hdir, hunmarked⟩ := List.mem_filter.mp hmem
    obtain ⟨hrelease, hnew⟩ := Bool.and_eq_true_iff.mp hkeep
    refine ⟨of_decide_eq_true hnew, d, (hfind d).mpr ⟨hdir, rfl⟩, ?_, hrelease⟩
    simpa using hunmarked
  · rintro ⟨hnew, d, hd, hunmarked, hrelease⟩
    obtain ⟨hdir, rfl⟩ := (hfind d).mp hd
    refine List.mem_map.mpr ⟨d, List.mem_filter.mpr ⟨List.mem_filter.mpr ⟨hdir, ?_⟩, ?_⟩, rfl⟩
    · simpa using hunmarked
    · rw [hrelease, Bool.true_and]
      exact decide_eq_true hnew

/-- **Recovery, one id at a time.** -/
theorem consistent_adopt_iff (hnames : (s.dirs.map EnvDir.name).Nodup) :
    s.adoptOrphanedEnvironments.Consistent ↔ ∀ x, s.SoundAt x := by
  have hstore : s.adoptOrphanedEnvironments.store
      = s.store ++ (s.cleanInterrupted.findOrphanedEnvironments s.registered).map adopted := rfl
  constructor
  · intro hall x
    refine ⟨fun env henv hid hready => ?_, fun hnew d hd hunmarked hrelease => ?_⟩
    · obtain ⟨d, hd, hcomplete⟩ := hall env (List.mem_append_left _ henv) hready
      rw [dir?_adopt hnames, Option.filter_eq_some_iff] at hd
      exact ⟨d, hid ▸ hd.1, by simpa using hd.2, hcomplete⟩
    · have horphan := (mem_orphans_iff hnames).mpr ⟨hnew, d, hd, hunmarked, hrelease⟩
      obtain ⟨c, hc, hcomplete⟩ := hall (adopted x)
        (hstore ▸ List.mem_append_right _ (List.mem_map_of_mem horphan)) rfl
      rw [dir?_adopt hnames, Option.filter_eq_some_iff] at hc
      rw [show s.dir? x = some c from hc.1] at hd
      exact Option.some.inj hd ▸ hcomplete
  · intro hsound env henv hready
    rw [hstore] at henv
    obtain hold | hnew := List.mem_append.mp henv
    · obtain ⟨d, hd, hunmarked, hcomplete⟩ := (hsound env.id).ready env hold rfl hready
      refine ⟨d, ?_, hcomplete⟩
      rw [dir?_adopt hnames, Option.filter_eq_some_iff]
      exact ⟨hd, by simpa using hunmarked⟩
    · obtain ⟨x, hx, rfl⟩ := List.mem_map.mp hnew
      obtain ⟨hunregistered, d, hd, hunmarked, hrelease⟩ := (mem_orphans_iff hnames).mp hx
      refine ⟨d, ?_, (hsound x).orphan hunregistered d hd hunmarked hrelease⟩
      rw [dir?_adopt hnames, Option.filter_eq_some_iff]
      exact ⟨hd, by simpa using hunmarked⟩

/-- A consistent storage that comes from recovery is one to start from. -/
theorem settled_adopt (hnames : (s.dirs.map EnvDir.name).Nodup)
    (h : s.adoptOrphanedEnvironments.Consistent) : s.adoptOrphanedEnvironments.Settled where
  names := (List.filter_sublist.map EnvDir.name).nodup hnames
  sound x := by
    refine ⟨fun env henv hid hready => ?_, fun hnew d hd hunmarked hrelease => ?_⟩
    · obtain ⟨d, hd, hcomplete⟩ := h env henv hready
      have hkept := hd
      rw [dir?_adopt hnames, Option.filter_eq_some_iff] at hkept
      exact ⟨d, hid ▸ hd, by simpa using hkept.2, hcomplete⟩
    · -- what has an os-release after recovery has a record after it
      rw [dir?_adopt hnames, Option.filter_eq_some_iff] at hd
      by_cases hold : x ∈ s.registered
      · obtain ⟨env, henv, hid⟩ := List.mem_map.mp hold
        exact absurd (List.mem_map.mpr ⟨env, List.mem_append_left _ henv, hid⟩) hnew
      · have horphan := (mem_orphans_iff hnames).mpr ⟨hold, d, hd.1, hunmarked, hrelease⟩
        refine absurd (List.mem_map.mpr ⟨adopted x, ?_, rfl⟩) hnew
        exact List.mem_append_right _ (List.mem_map_of_mem horphan)

end Storage

/-! ### The kill points of a call -/

/-- The process may be killed here: if the record is in the store, the marker is not on disk; if it
is not, the directory is marked, has no `etc/os-release` yet, or is completely written. -/
def KillSafe (at' : Storage × Build) : Prop :=
  ∀ d ∈ at'.1.dir? at'.2.id,
    if at'.2.id ∈ at'.1.registered then d.isCreating = false
    else d.isCreating = true ∨ d.hasOsRelease = false ∨ d.isComplete = true

theorem Build.names_apply {s : Storage} {b : Build} (h : (s.dirs.map EnvDir.name).Nodup)
    (e : Effect) : ((b.apply s e).dirs.map EnvDir.name).Nodup := by
  cases e with
  | nothing | addRecord => exact h
  | mkdirs =>
    show ((s.mkdirs b.id b.wanted).dirs.map EnvDir.name).Nodup
    unfold Storage.mkdirs
    split
    · exact h
    · rename_i hnone
      rw [List.map_append, List.nodup_append_comm]
      refine List.nodup_cons.mpr ⟨?_, h⟩
      exact lookup_eq_none_iff.mp (Option.not_isSome_iff_eq_none.mp hnone)
  | put p | erase p | clear =>
    refine (map_key_update ?_ b.id s.dirs).symm ▸ h
    intro d
    rfl
  | removeDir => exact nodup_remove h b.id

/-- A recorded call of a fresh id is one with its record in the store. -/
theorem BuildInv.registered_iff {s₀ s : Storage} {b : Build} (h : BuildInv s₀ (s, b))
    (hfresh : b.id ∉ s₀.registered) : b.id ∈ s.registered ↔ b.recorded = true := by
  unfold Storage.registered at hfresh ⊢
  rw [show s.store = _ from h.store, List.map_append]
  cases hrecorded : b.recorded with
  | true => simp [Build.record]
  | false => simpa using hfresh

/-- Recovery does right by the id of the call exactly at a safe kill point. -/
theorem BuildInv.soundAt_iff {s₀ s : Storage} {b : Build} (h : BuildInv s₀ (s, b))
    (hfresh : b.id ∉ s₀.registered) : s.SoundAt b.id ↔ KillSafe (s, b) := by
  have hregistered := h.registered_iff hfresh
  unfold KillSafe
  cases hrecorded : b.recorded with
  | true =>
    have hin : b.id ∈ s.registered := hregistered.mpr hrecorded
    have hcomplete : ∃ d, s.dir? b.id = some d ∧ d.Covers [] := by
      have hdir := h.dir
      rw [show (s, b).2.stage = .stored from b.stage_of_recorded hrecorded] at hdir
      exact hdir
    obtain ⟨d, hd, hcovers⟩ := hcomplete
    have hready : b.record ∈ s.store := by
      rw [show s.store = _ from h.store, show (s, b).2.recorded = true from hrecorded]
      exact List.mem_append_right _ List.mem_cons_self
    constructor
    · intro hsound c hc
      obtain ⟨d', hd', hunmarked, -⟩ := hsound.ready b.record hready rfl rfl
      rw [show s.dir? b.id = some c from hc] at hd'
      rw [if_pos hin, Option.some.inj hd']
      exact hunmarked
    · intro hsafe
      have hunmarked := hsafe d hd
      rw [if_pos hin] at hunmarked
      exact ⟨fun _ _ _ _ => ⟨d, hd, hunmarked, d.isComplete_iff.mpr hcovers⟩,
        fun hout => absurd hin hout⟩
  | false =>
    have hout : b.id ∉ s.registered := fun hin =>
      Bool.false_ne_true (hrecorded.symm.trans (hregistered.mp hin))
    constructor
    · intro hsound d hd
      rw [if_neg hout]
      cases hmarked : d.isCreating with
      | true => exact .inl rfl
      | false =>
        cases hrelease : d.hasOsRelease with
        | false => exact .inr (.inl rfl)
        | true => exact .inr (.inr (hsound.orphan hout d hd hmarked hrelease))
    · intro hsafe
      refine ⟨fun env henv hid _ => absurd (List.mem_map.mpr ⟨env, henv, hid⟩) hout, ?_⟩
      intro _ d hd hunmarked hrelease
      have hpoint := hsafe d hd
      rw [if_neg hout, hunmarked, hrelease] at hpoint
      simpa using hpoint

/-- Recovery treats the other environments as it would have before the call. -/
theorem BuildInv.soundAt_elsewhere {s₀ s : Storage} {b : Build} (h : BuildInv s₀ (s, b))
    {x : EnvId} (hx : x ≠ b.id) (hsound : s₀.SoundAt x) : s.SoundAt x := by
  have hdir : s.dir? x = s₀.dir? x := h.elsewhere x hx
  have hmem : ∀ env, env.id = x → (env ∈ s.store ↔ env ∈ s₀.store) := by
    intro env hid
    rw [show s.store = _ from h.store, List.mem_append]
    refine or_iff_left ?_
    intro hnew
    split at hnew
    · rw [List.mem_singleton.mp hnew] at hid
      exact hx hid.symm
    · cases hnew
  have hregistered : x ∈ s.registered ↔ x ∈ s₀.registered := by
    constructor
    · intro hin
      obtain ⟨env, henv, hid⟩ := List.mem_map.mp hin
      exact List.mem_map.mpr ⟨env, (hmem env hid).mp henv, hid⟩
    · intro hin
      obtain ⟨env, henv, hid⟩ := List.mem_map.mp hin
      exact List.mem_map.mpr ⟨env, (hmem env hid).mpr henv, hid⟩
  refine ⟨fun env henv hid hready => ?_, fun hout d hd => ?_⟩
  · rw [hdir]
    exact hsound.ready env ((hmem env hid).mp henv) hid hready
  · exact hsound.orphan (fun hin => hout (hregistered.mpr hin)) d (hdir ▸ hd)

theorem Build.next_id {s₀ s s' : Storage} {b b' : Build} {o : StepOutcome}
    (hinv : BuildInv s₀ (s, b)) (h : b.next s o = some (s', b')) : b'.id = b.id := by
  obtain ⟨⟨e, t⟩, hmoves, hresult⟩ := Option.map_eq_some_iff.mp h
  cases hresult
  exact (Build.step_follows hinv.late hmoves).id

/-- The names of the directories stay distinct. -/
theorem Build.next_names {s s' : Storage} {b b' : Build} {o : StepOutcome}
    (hnames : (s.dirs.map EnvDir.name).Nodup) (h : b.next s o = some (s', b')) :
    (s'.dirs.map EnvDir.name).Nodup := by
  obtain ⟨⟨e, t⟩, -, hresult⟩ := Option.map_eq_some_iff.mp h
  cases hresult
  exact Build.names_apply hnames e

/-- **A kill is recovered from exactly at the safe points.**  From a storage in which recovery finds
nothing amiss, and at every state that a call of a fresh id can reach, whatever fails in it,
recovery after a kill makes the storage consistent if and only if the state is a safe kill point. -/
theorem recovered_consistent_iff_killSafe {s : Storage} {b : Build}
    {run : List (StepOutcome × (Storage × Build))} (hsettled : s.Settled) (hstarts : b.Starts s)
    (hrun : buildSystem.Exec (s, b) run) :
    AllStates (fun at' => at'.1.adoptOrphanedEnvironments.Consistent ↔ KillSafe at') (s, b) run := by
  refine hrun.allStates (I := fun at' => BuildInv s at' ∧ (at'.1.dirs.map EnvDir.name).Nodup ∧
    at'.2.id = b.id) ?_ ?_ ⟨BuildInv.of_starts hstarts, hsettled.names, rfl⟩
  · rintro ⟨t, c⟩ ⟨hinv, hnames, hid⟩
    have hfresh : c.id ∉ s.registered := by
      rw [show c.id = b.id from hid]
      exact hstarts.noRecord
    rw [Storage.consistent_adopt_iff hnames, ← hinv.soundAt_iff hfresh]
    refine ⟨fun hall => hall c.id, fun hown x => ?_⟩
    by_cases hx : x = c.id
    · rw [hx]
      exact hown
    · exact hinv.soundAt_elsewhere hx (hsettled.sound x)
  · rintro ⟨t, c⟩ o ⟨t', c'⟩ ⟨hinv, hnames, hid⟩ hstep
    exact ⟨hinv.next hstep, Build.next_names hnames hstep, (Build.next_id hinv hstep).trans hid⟩

/-! ### Two creations in an empty storage -/

def emptyStorage : Storage := ⟨[], []⟩

theorem emptyStorage_settled : emptyStorage.Settled where
  names := List.nodup_nil
  sound _ := ⟨fun _ henv => absurd henv List.not_mem_nil, fun _ _ hd => by cases hd⟩

/-- `create` of a rootfs of a single file. -/
def smallCreate : Build where
  kind := .create
  id := "id"
  name := "name"
  archive := [.entry "etc/os-release" 0]
  recorded := false
  pc := .makeJobDir

theorem smallCreate_starts : smallCreate.Starts emptyStorage :=
  ⟨rfl, rfl, rfl, List.not_mem_nil⟩

/-- Everything succeeds up to the store write. -/
def untilRecorded : List StepOutcome :=
  [.returns, .returns, .returns, .returns, .returns, .returns, .verified true, .returns, .returns,
    .returns, .returns, .returns, .returns, .returns, .returns, .returns, .returns, .returns,
    .returns, .returns, .returns, .returns, .returns, .returns, .edited true]

theorem recovered_consistent_iff_smallCreate :
    (traceNext nextOf (emptyStorage, smallCreate) untilRecorded).length = 25 ∧
      AllStates (fun at' => at'.1.adoptOrphanedEnvironments.Consistent ↔ KillSafe at')
        (emptyStorage, smallCreate) (traceNext nextOf (emptyStorage, smallCreate) untilRecorded) :=
  ⟨rfl, recovered_consistent_iff_killSafe emptyStorage_settled smallCreate_starts
    (System.exec_traceNext _ _ _)⟩

/-- Killed between the store write and the deletion of the marker, the environment is deleted by the
recovery and its record stays. -/
theorem killed_before_marker_deletion :
    ¬ ∀ (s : Storage) (b : Build) (run : List (StepOutcome × (Storage × Build))),
      s.Settled → b.Starts s → buildSystem.Exec (s, b) run →
      AllStates (fun at' => at'.1.adoptOrphanedEnvironments.Consistent) (s, b) run := by
  intro hall
  have hrun := hall emptyStorage smallCreate
    (traceNext nextOf (emptyStorage, smallCreate) untilRecorded)
    emptyStorage_settled smallCreate_starts (System.exec_traceNext _ _ _)
  have hkilled : (lastState (emptyStorage, smallCreate)
      (traceNext nextOf (emptyStorage, smallCreate) untilRecorded)).1.adoptOrphanedEnvironments
      = ⟨[], [⟨"id", "name", .ready⟩]⟩ := by decide
  have hlast := hrun.last
  rw [hkilled] at hlast
  obtain ⟨d, hd, -⟩ := hlast ⟨"id", "name", .ready⟩ List.mem_cons_self rfl
  cases hd

end Wldroid.Proot
