import Wldroid.Proot.Environments

/-!
# What a call that makes an environment has left to do

The places of `Build.step` fall into a few stages, and every step is a move of a small machine on
them: `Build.step_follows`.

* `Build.Steps` — the steps by name, so that what is proved of every step has one case for each;
* `Stage.building todo` — the directory is there, and `todo` is what is still to be written to it;
* `Stage.stored` — the record is in the store, and stays there;
* `Stage.over` — the call has ended, or ends without changing anything but the marker;
* `BuildInv` — around one call, nothing but its own directory and record changes, and a record is
  added only once everything has been written (`BuildInv.next`).
-/

namespace Wldroid.Proot

open Wldroid.Foundation

/-! ### The steps by name -/

/-- Places where an exception, or the end of the coroutine, just ends the call. -/
def BuildPc.throws (kind : BuildKind) : BuildPc → StepOutcome → Bool
  | .makeJobDir, .fails | .createMarker, .fails | .clearPartial, .fails => true
  | .lock, .cancelled | .download, .fails | .download, .cancelled => true
  | .verifySha256, .fails | .verifySha256, .cancelled => true
  | .findSource _, .fails | .findSource _, .cancelled => true
  | .makeDir, .cancelled => kind.isCreation
  | .sendInstalling, .cancelled | .configure _, .fails => true
  | .verifyStore, .fails | .verifyStore, .cancelled => true
  | .sendReady, .cancelled | .leaveContext, .cancelled => true
  | _, _ => false

/-- The steps of `Build.step`, each with its effect and the call after it. -/
inductive Build.Steps (s : Storage) (b : Build) : BuildPc → StepOutcome → Effect → Build → Prop
  | makeJobDir : Steps s b .makeJobDir .returns .mkdirs (b.goto .createMarker)
  | createMarker : Steps s b .createMarker .returns (.put .creating) (b.goto .clearPartial)
  | clearPartial : Steps s b .clearPartial .returns
      (if s.hasEnvironment b.id then .nothing else .clear) (b.goto .lock)
  | lock : Steps s b .lock .returns .nothing (b.goto .checkExisting)
  | checkExisting : Steps s b .checkExisting .returns .nothing
      (b.goto (if s.hasEnvironment b.id then .sendReady else .download))
  | download : Steps s b .download .returns .nothing (b.goto .verifySha256)
  | verifySha256 (ok : Bool) : Steps s b .verifySha256 (.verified ok) .nothing
      (b.goto (if ok then .makeDir else .sendError))
  | findSource (source : EnvId) : Steps s b (.findSource source) .returns .nothing
      (if source ∈ s.registered then b.goto (.requireSource source) else b.exit true)
  | requireSource (source : EnvId) : Steps s b (.requireSource source) .returns .nothing
      ((s.dir? source).elim (b.exit true) fun d => { b with archive := d.pieces, pc := .makeDir })
  | makeDir : Steps s b .makeDir .returns .mkdirs (b.goto (.write b.archive))
  | makeDirFails (h : ¬ b.kind.isCreation = true) :
      Steps s b .makeDir .fails .nothing (startCleanup s b)
  | write (p : Piece) (rest : List Piece) :
      Steps s b (.write (p :: rest)) .returns (.put p) (b.goto (.write rest))
  | written : Steps s b (.write []) .returns .nothing b.afterWrite
  | writeFails (todo : List Piece) : Steps s b (.write todo) .fails .nothing (startCleanup s b)
  | delete {left : List Piece} {p : Piece} (h : p ∈ left) :
      Steps s b (.cleanup left) (.deleted p) (.erase p) (b.goto (.cleanup (left.erase p)))
  | keep {left : List Piece} {p : Piece} (h : p ∈ left) :
      Steps s b (.cleanup left) (.kept p) .nothing (b.goto (.cleanup (left.erase p)))
  | cleaned : Steps s b (.cleanup []) .returns
      (if (s.dir? b.id).any fun d => d.pieces.isEmpty then .removeDir else .nothing) b.afterCleanup
  | sendError {o : StepOutcome} (h : o = .returns ∨ o = .cancelled) :
      Steps s b .sendError o .nothing (b.exit true)
  | sendInstalling : Steps s b .sendInstalling .returns .nothing (b.goto (.configure configPieces))
  | configure (p : Piece) (rest : List Piece) :
      Steps s b (.configure (p :: rest)) .returns (.put p) (b.goto (.configure rest))
  | configured : Steps s b (.configure []) .returns .nothing
      (b.goto (if b.kind.isCreation then .validate else .add))
  | validate : Steps s b .validate .returns .nothing
      (if s.hasEnvironment b.id then b.goto .makeL2s else startCleanup s b)
  | makeL2s : Steps s b .makeL2s .returns (.put l2sPiece) (b.goto .add)
  | add (persisted : Bool) : Steps s b .add (.edited persisted) (editEffect persisted)
      (b.noteRecorded persisted).afterAdd
  | addFails (persisted : Bool) : Steps s b .add (.editFailed persisted) (editEffect persisted)
      ((b.noteRecorded persisted).exit true)
  | verifyStore : Steps s b .verifyStore .returns .nothing
      (b.goto (if b.id ∈ s.registered then .sendReady else .sendError))
  | sendReady : Steps s b .sendReady .returns .nothing (b.exit false)
  | leaveContext : Steps s b .leaveContext .returns .nothing (b.exit false)
  | deleteMarker (failed : Bool) :
      Steps s b (.deleteMarker failed) .returns (.erase .creating) (b.goto (.ended failed))
  | throws {pc : BuildPc} {o : StepOutcome} (h : pc.throws b.kind o = true) :
      Steps s b pc o .nothing (b.exit true)

/-- **Every step is one of these.** -/
theorem Build.steps_of_step {s : Storage} {b b' : Build} {pc : BuildPc} {o : StepOutcome}
    {e : Effect} (h : b.step s pc o = some (e, b')) : b.Steps s pc o e b' := by
  unfold step at h
  split at h
  all_goals
    first
    | cases h; done
    | cases h; constructor; done
    | cases h; exact .throws rfl
    | cases h; exact .sendError (by decide)
    -- a step that is there for some calls only
    | split at h
      all_goals
        first
        | cases h; done
        | cases h; constructor; assumption

/-! ### Stages and moves -/

inductive Stage where
  /-- `duplicate` reads the store and its source. -/
  | reading
  /-- Up to the making of the directory that is written to. -/
  | opening
  | building (todo : List Piece)
  /-- A handler deletes the directory. -/
  | cleaning
  | stored
  | over
  deriving DecidableEq, Repr

/-- The moves of a call that is to write the pieces `wanted`, each with its effect. -/
inductive Move (wanted : List Piece) : Stage → Effect → Stage → Prop
  | read : Move wanted .reading .nothing .reading
  | found : Move wanted .reading .nothing .opening
  | missing : Move wanted .reading .nothing .over
  | wait : Move wanted .opening .nothing .opening
  | prepare : Move wanted .opening .mkdirs .opening
  | mark : Move wanted .opening (.put .creating) .opening
  | clear : Move wanted .opening .clear .opening
  | begin : Move wanted .opening .mkdirs (.building wanted)
  | refuse : Move wanted .opening .nothing .cleaning
  | decline : Move wanted .opening .nothing .over
  | write (p : Piece) (todo : List Piece) :
      Move wanted (.building (p :: todo)) (.put p) (.building todo)
  | pass (todo : List Piece) : Move wanted (.building todo) .nothing (.building todo)
  | abort (todo : List Piece) : Move wanted (.building todo) .nothing .cleaning
  | quit (todo : List Piece) : Move wanted (.building todo) .nothing .over
  | store : Move wanted (.building []) .addRecord .stored
  | delete (p : Piece) : Move wanted .cleaning (.erase p) .cleaning
  | keep : Move wanted .cleaning .nothing .cleaning
  | remove : Move wanted .cleaning .removeDir .over
  | leave : Move wanted .cleaning .nothing .over
  | answer : Move wanted .stored .nothing .stored
  | unmark : Move wanted .stored (.erase .creating) .stored
  | report : Move wanted .over .nothing .over
  | release : Move wanted .over (.erase .creating) .over

/-- The stage of a place in a call that has no record yet. -/
def BuildPc.stage (kind : BuildKind) : BuildPc → Stage
  | .findSource _ | .requireSource _ => .reading
  | .makeJobDir | .createMarker | .clearPartial | .lock | .checkExisting | .download
  | .verifySha256 | .makeDir => .opening
  | .write todo => .building (todo ++ Build.finishing kind)
  | .sendInstalling => .building (configPieces ++ if kind.isCreation then [l2sPiece] else [])
  | .configure todo => .building (todo ++ if kind.isCreation then [l2sPiece] else [])
  | .validate | .makeL2s => .building [l2sPiece]
  | .add => .building []
  | .cleanup _ => .cleaning
  | .sendError | .verifyStore | .sendReady | .leaveContext | .deleteMarker _ | .ended _ => .over

/-- A call that just ends has not stored anything. -/
theorem Move.of_throws {wanted : List Piece} {kind : BuildKind} {pc : BuildPc}
    {o : StepOutcome} (h : pc.throws kind o = true) : Move wanted (pc.stage kind) .nothing .over := by
  unfold BuildPc.throws at h
  split at h
  all_goals first | cases h; done | constructor

def Build.stage (b : Build) : Stage :=
  if b.recorded then .stored else b.pc.stage b.kind

/-- What a step of the call does, to its stage and to the rest of it. -/
structure Build.Follows (b b' : Build) (e : Effect) : Prop where
  move : Move b.wanted b.stage e b'.stage
  late : b'.recorded = true → b'.pc.stage b'.kind = .over
  kind : b'.kind = b.kind
  id : b'.id = b.id
  name : b'.name = b.name
  -- only duplicate learns later what it copies
  archive : b.stage = .reading ∨ b'.archive = b.archive

namespace Build

variable {s : Storage} {b b' : Build} {e : Effect} {o : StepOutcome}

theorem stage_of_recorded (h : b.recorded = true) : b.stage = .stored := by
  rw [stage, h]
  rfl

theorem stage_of_unrecorded (h : b.recorded = false) : b.stage = b.pc.stage b.kind := by
  rw [stage, h]
  rfl

/-- An unrecorded call goes from one place to another, as the stages of the places say. -/
theorem Follows.goto {old new : BuildPc} (hnew : b.recorded = false) (hold : b.pc = old)
    (hmove : Move b.wanted (old.stage b.kind) e (new.stage b.kind)) : b.Follows (b.goto new) e where
  move := by
    have hstage : (b.goto new).stage = new.stage b.kind := stage_of_unrecorded hnew
    rw [stage_of_unrecorded hnew, hold, hstage]
    exact hmove
  late hrecorded := absurd (hnew.symm.trans hrecorded) Bool.false_ne_true
  kind := rfl
  id := rfl
  name := rfl
  archive := .inr rfl

theorem Follows.exit {old : BuildPc} {failed : Bool} (hnew : b.recorded = false)
    (hold : b.pc = old) (hmove : Move b.wanted (old.stage b.kind) e .over) :
    b.Follows (b.exit failed) e := by
  refine .goto hnew hold ?_
  split
  all_goals exact hmove

/-- A recorded call goes on without a change, but for its marker. -/
theorem Follows.recorded {new : BuildPc} (hrecorded : b.recorded = true)
    (he : Move b.wanted .stored e .stored) (hover : new.stage b.kind = .over) :
    b.Follows (b.goto new) e where
  move := by
    have hstage : (b.goto new).stage = .stored := stage_of_recorded hrecorded
    rw [stage_of_recorded hrecorded, hstage]
    exact he
  late _ := hover
  kind := rfl
  id := rfl
  name := rfl
  archive := .inr rfl

/-- The job of `create` still has its `finally` to run. -/
theorem exit_cases (b : Build) (failed : Bool) :
    (b.exit failed).pc = .deleteMarker failed ∧ b.kind = .create ∨
      (b.exit failed).pc = .ended failed ∧ b.kind ≠ .create := by
  by_cases hkind : b.kind = .create
  · exact .inl ⟨if_pos hkind, hkind⟩
  · exact .inr ⟨if_neg hkind, hkind⟩

theorem exit_over (kind : BuildKind) (failed : Bool) :
    (if kind = .create then BuildPc.deleteMarker failed else .ended failed).stage kind = .over := by
  split <;> rfl

/-- The store edit: it leads to the stage of a recorded call exactly when it reached the store. -/
theorem Follows.edit {new : BuildPc} {persisted : Bool} (hnew : b.recorded = false)
    (hold : b.pc = .add) (hover : new.stage b.kind = .over) :
    b.Follows ((b.noteRecorded persisted).goto new) (editEffect persisted) where
  move := by
    rw [stage_of_unrecorded hnew, hold]
    cases persisted with
    | true => exact .store
    | false =>
      have hstage : ((b.noteRecorded false).goto new).stage = .over := hover
      rw [hstage]
      exact .quit []
  late _ := hover
  kind := rfl
  id := rfl
  name := rfl
  archive := .inr rfl

/-- **Every step of an unrecorded call is a move of its stage.** -/
theorem step_follows_unrecorded {pc : BuildPc} (hnew : b.recorded = false) (hold : b.pc = pc)
    (h : b.step s pc o = some (e, b')) : b.Follows b' e := by
  cases steps_of_step h with
  | makeJobDir | createMarker | lock | download | makeDir | makeDirFails _ | write p rest
  | writeFails todo | delete _ | keep _ | sendInstalling | configure p rest | makeL2s
  | deleteMarker failed => exact .goto hnew hold (by constructor)
  | sendError _ => exact .exit hnew hold .report
  | sendReady | leaveContext => exact .exit hnew hold .report
  | throws hthrows => exact .exit hnew hold (.of_throws hthrows)
  -- contents are deleted unless there is a rootfs
  | clearPartial =>
    refine .goto hnew hold ?_
    split
    · exact .wait
    · exact .clear
  | checkExisting =>
    refine .goto hnew hold ?_
    split
    · exact .decline
    · exact .wait
  | verifySha256 ok =>
    refine .goto hnew hold ?_
    split
    · exact .wait
    · exact .decline
  | findSource source =>
    split
    · exact .goto hnew hold .read
    · exact .exit hnew hold .missing
  -- the source directory is listed
  | requireSource source =>
    cases s.dir? source with
    | none => exact .exit hnew hold .missing
    | some d =>
      have hreading : b.stage = .reading := by
        rw [stage_of_unrecorded hnew, hold]
        rfl
      exact ⟨by rw [hreading]; exact stage_of_unrecorded (b := { b with
          archive := d.pieces, pc := .makeDir }) hnew ▸ .found,
        fun hrecorded => absurd (hnew.symm.trans hrecorded) Bool.false_ne_true, rfl, rfl, rfl,
        .inl hreading⟩
  -- everything is extracted or copied
  | written =>
    refine .goto hnew hold ?_
    cases b.kind with
    | create | createEnvironment => exact .pass (configPieces ++ [l2sPiece])
    | importRootfs => exact .pass configPieces
    | duplicate source => exact .pass []
  | cleaned =>
    have hmove : Move b.wanted (BuildPc.stage b.kind (.cleanup []))
        (if (s.dir? b.id).any fun d => d.pieces.isEmpty then .removeDir else .nothing) .over := by
      split
      · exact .remove
      · exact .leave
    unfold afterCleanup
    split
    · exact .goto hnew hold hmove
    · exact .exit hnew hold hmove
  | configured =>
    refine .goto hnew hold ?_
    cases hkind : b.kind.isCreation with
    | true =>
      have hstage : BuildPc.stage b.kind (.configure []) = .building [l2sPiece] := by
        simp only [BuildPc.stage, hkind, if_true, List.nil_append]
      rw [hstage]
      exact .pass [l2sPiece]
    | false =>
      have hstage : BuildPc.stage b.kind (.configure []) = .building [] := by
        simp only [BuildPc.stage, hkind, Bool.false_eq_true, if_false, List.nil_append]
      rw [hstage]
      exact .pass []
  | validate =>
    split
    · exact .goto hnew hold (.pass [l2sPiece])
    · exact .goto hnew hold (.abort [l2sPiece])
  | add persisted =>
    refine .edit hnew hold ?_
    show (if b.kind.isCreation then BuildPc.verifyStore else .leaveContext).stage b.kind = .over
    split <;> rfl
  | addFails persisted => exact .edit hnew hold (exit_over b.kind true)
  | verifyStore =>
    refine .goto hnew hold ?_
    split
    all_goals exact .report

/-- A recorded call changes nothing any more but its marker. -/
theorem step_follows_recorded {pc : BuildPc} (hrecorded : b.recorded = true)
    (hover : pc.stage b.kind = .over) (h : b.step s pc o = some (e, b')) : b.Follows b' e := by
  cases steps_of_step h with
  | verifyStore =>
    refine .recorded hrecorded .answer ?_
    split <;> rfl
  | sendError _ | throws _ => exact .recorded hrecorded .answer (exit_over b.kind true)
  | sendReady | leaveContext => exact .recorded hrecorded .answer (exit_over b.kind false)
  | deleteMarker failed => exact .recorded hrecorded .unmark rfl
  | _ => cases hover

/-- **Every step of a call is a move of its stage.** -/
theorem step_follows (hlate : b.recorded = true → b.pc.stage b.kind = .over)
    (h : b.step s b.pc o = some (e, b')) : b.Follows b' e := by
  cases hrecorded : b.recorded with
  | true => exact step_follows_recorded hrecorded (hlate hrecorded) h
  | false => exact step_follows_unrecorded hrecorded rfl h

end Build

/-! ### The storage around one call -/

namespace Storage

variable {s : Storage} {b : Build} {id x : EnvId}

theorem dir?_mkdirs (s : Storage) (id : EnvId) (wanted : List Piece) (x : EnvId) :
    (s.mkdirs id wanted).dir? x
      = if x = id then some ((s.dir? id).getD ⟨id, [], wanted⟩) else s.dir? x := by
  unfold mkdirs
  cases hdir : s.dir? id with
  | some d =>
    show s.dir? x = if x = id then some d else s.dir? x
    split
    · rename_i hx
      rw [hx, hdir]
    · rfl
  | none =>
    have hnew : lookup EnvDir.name (EnvDir.name ⟨id, [], wanted⟩) s.dirs = none := hdir
    exact lookup_concat hnew x

theorem dir?_change {f : EnvDir → EnvDir} (hf : ∀ d, (f d).name = d.name) (s : Storage)
    (id x : EnvId) :
    (s.change id f).dir? x = if x = id then (s.dir? id).map f else s.dir? x :=
  lookup_update hf id x s.dirs

theorem dir?_removeDir (s : Storage) (id x : EnvId) :
    (s.removeDir id).dir? x = if x = id then none else s.dir? x :=
  lookup_remove id x s.dirs

end Storage

/-- What an effect does to the directory it is on. -/
def Effect.onDir (id : EnvId) (wanted : List Piece) : Effect → Option EnvDir → Option EnvDir
  | .nothing, d => d
  | .mkdirs, d => some (d.getD ⟨id, [], wanted⟩)
  | .put p, d => d.map fun d => d.put p
  | .erase p, d => d.map fun d => d.erase p
  | .clear, d => d.map EnvDir.clear
  | .removeDir, _ => none
  | .addRecord, d => d

namespace Build

variable {s : Storage} {b : Build}

/-- An effect is on the directory of the call's environment only. -/
theorem dir?_apply (s : Storage) (b : Build) (e : Effect) (x : EnvId) :
    (b.apply s e).dir? x
      = if x = b.id then e.onDir b.id b.wanted (s.dir? b.id) else s.dir? x := by
  cases e with
  | nothing | addRecord =>
    show s.dir? x = if x = b.id then s.dir? b.id else s.dir? x
    split
    · rename_i hx
      rw [hx]
    · rfl
  | mkdirs => exact s.dir?_mkdirs b.id b.wanted x
  | put p => exact Storage.dir?_change (f := fun d => d.put p) (fun _ => rfl) s b.id x
  | erase p => exact Storage.dir?_change (f := fun d => d.erase p) (fun _ => rfl) s b.id x
  | clear => exact Storage.dir?_change (f := EnvDir.clear) (fun _ => rfl) s b.id x
  | removeDir => exact s.dir?_removeDir b.id x

theorem store_apply (s : Storage) (b : Build) (e : Effect) :
    (b.apply s e).store = s.store ++ if e = .addRecord then [b.record] else [] := by
  cases e with
  | addRecord => rfl
  | mkdirs =>
    show (s.mkdirs b.id b.wanted).store = _
    unfold Storage.mkdirs
    split <;> exact (List.append_nil _).symm
  | _ => exact (List.append_nil _).symm

end Build

/-! ### The invariant of one call -/

/-- Everything but the marker is there, or still to be written. -/
def EnvDir.Covers (d : EnvDir) (todo : List Piece) : Prop :=
  ∀ p ∈ d.wanted, p = .creating ∨ p ∈ d.pieces ∨ p ∈ todo

theorem EnvDir.isComplete_iff (d : EnvDir) : d.isComplete = true ↔ d.Covers [] := by
  unfold isComplete Covers
  simp

theorem EnvDir.Covers.put {d : EnvDir} {p : Piece} {todo : List Piece}
    (h : d.Covers (p :: todo)) : (d.put p).Covers todo := by
  intro q hq
  obtain hmarker | hpieces | htodo := h q hq
  · exact .inl hmarker
  · exact .inr (.inl (List.mem_append_left _ hpieces))
  · obtain rfl | hrest := List.mem_cons.mp htodo
    · exact .inr (.inl (List.mem_append_right _ List.mem_cons_self))
    · exact .inr (.inr hrest)

theorem EnvDir.Covers.eraseMarker {d : EnvDir} {todo : List Piece} (h : d.Covers todo) :
    (d.erase .creating).Covers todo := by
  intro q hq
  obtain hmarker | hpieces | htodo := h q hq
  · exact .inl hmarker
  · by_cases hmarker : q = .creating
    · exact .inl hmarker
    · exact .inr (.inl (List.mem_filter.mpr ⟨hpieces, by simpa using hmarker⟩))
  · exact .inr (.inr htodo)

/-- What the directory of a call is known to hold at each of its stages. -/
def Stage.DirAt (dir : Option EnvDir) : Stage → Prop
  | .reading => dir = none
  | .building todo => ∃ d, dir = some d ∧ d.Covers todo
  | .stored => ∃ d, dir = some d ∧ d.Covers []
  | _ => True

/-- What holds all along a call that started from the storage `s₀`. -/
structure BuildInv (s₀ : Storage) (at' : Storage × Build) : Prop where
  elsewhere : ∀ x ≠ at'.2.id, at'.1.dir? x = s₀.dir? x
  store : at'.1.store = s₀.store ++ if at'.2.recorded then [at'.2.record] else []
  late : at'.2.recorded = true → at'.2.pc.stage at'.2.kind = .over
  wanted : ∀ d, at'.1.dir? at'.2.id = some d → d.wanted = at'.2.wanted
  dir : at'.2.stage.DirAt (at'.1.dir? at'.2.id)

/-- An effect of a move keeps what a complete directory is to consist of. -/
theorem Effect.onDir_wanted {id : EnvId} {wanted : List Piece} {dir : Option EnvDir} {e : Effect}
    (h : ∀ d, dir = some d → d.wanted = wanted) :
    ∀ d, e.onDir id wanted dir = some d → d.wanted = wanted := by
  intro d hd
  cases e with
  | nothing | addRecord => exact h d hd
  | mkdirs =>
    cases hdir : dir with
    | none =>
      rw [hdir] at hd
      cases hd
      rfl
    | some old =>
      rw [hdir] at hd
      cases hd
      exact h old hdir
  | put p | erase p | clear =>
    obtain ⟨old, hold, rfl⟩ := Option.map_eq_some_iff.mp hd
    exact h old hold
  | removeDir => cases hd

/-- A move keeps what is known of the directory. -/
theorem Move.dirAt {id : EnvId} {wanted : List Piece} {a c : Stage} {e : Effect}
    {dir : Option EnvDir} (hmove : Move wanted a e c)
    (hwanted : ∀ d, dir = some d → d.wanted = wanted) (h : a.DirAt dir) :
    c.DirAt (e.onDir id wanted dir) := by
  cases hmove with
  | begin =>
    -- nothing is missing that is not still to be written
    refine ⟨_, rfl, fun p hp => .inr (.inr ?_)⟩
    cases hdir : dir with
    | none =>
      rw [hdir] at hp
      exact hp
    | some d =>
      rw [hdir] at hp
      exact hwanted d hdir ▸ hp
  | write p todo =>
    obtain ⟨d, rfl, hcovers⟩ := h
    exact ⟨d.put p, rfl, hcovers.put⟩
  | unmark =>
    obtain ⟨d, rfl, hcovers⟩ := h
    exact ⟨d.erase .creating, rfl, hcovers.eraseMarker⟩
  | read | pass | store | answer => exact h
  | _ => trivial

/-- A record is added by the move that stores it, and stays. -/
theorem Move.recorded {wanted : List Piece} {a c : Stage} {e : Effect} (h : Move wanted a e c) :
    (e = .addRecord ∧ a ≠ .stored ∧ c = .stored) ∨ (e ≠ .addRecord ∧ (c = .stored ↔ a = .stored)) := by
  cases h with
  | store => exact .inl ⟨rfl, nofun, rfl⟩
  | answer | unmark => exact .inr ⟨nofun, Iff.rfl⟩
  | _ => exact .inr ⟨nofun, nofun, nofun⟩

theorem Build.stage_stored_iff (b : Build) : b.stage = .stored ↔ b.recorded = true := by
  constructor
  · intro h
    by_contra hnew
    rw [b.stage_of_unrecorded (Bool.eq_false_of_not_eq_true hnew)] at h
    cases hpc : b.pc <;> rw [hpc] at h <;> cases h
  · exact b.stage_of_recorded

/-- **What one step of a call keeps.** -/
theorem BuildInv.next {s₀ s s' : Storage} {b b' : Build} {o : StepOutcome}
    (h : BuildInv s₀ (s, b)) (hstep : b.next s o = some (s', b')) : BuildInv s₀ (s', b') := by
  obtain ⟨⟨e, t⟩, hmoves, hresult⟩ := Option.map_eq_some_iff.mp hstep
  cases hresult
  have hfollows := Build.step_follows h.late hmoves
  have hid : t.id = b.id := hfollows.id
  have hdir : (b.apply s e).dir? t.id = e.onDir b.id b.wanted (s.dir? b.id) := by
    rw [hid, b.dir?_apply, if_pos rfl]
  refine
    { elsewhere := ?_, store := ?_, late := hfollows.late, wanted := ?_, dir := ?_ }
  · intro x hx
    have hne : x ≠ b.id := hid ▸ hx
    show (b.apply s e).dir? x = s₀.dir? x
    rw [b.dir?_apply, if_neg hne]
    exact h.elsewhere x hne
  · have hrecord : t.record = b.record := by
      rw [Build.record, hid, hfollows.name]
      rfl
    show (b.apply s e).store = s₀.store ++ if t.recorded then [t.record] else []
    rw [b.store_apply, hrecord, h.store]
    obtain ⟨rfl, ha, hc⟩ | ⟨he, hiff⟩ := hfollows.move.recorded
    · have hnew : b.recorded = false :=
        Bool.eq_false_of_not_eq_true fun hr => ha (b.stage_stored_iff.mpr hr)
      have hrecorded : t.recorded = true := t.stage_stored_iff.mp hc
      rw [hnew, hrecorded]
      simp
    · have hsame : t.recorded = b.recorded := by
        rw [Bool.eq_iff_iff, ← t.stage_stored_iff, ← b.stage_stored_iff]
        exact hiff
      rw [hsame, if_neg he, List.append_nil]
  · show ∀ d, (b.apply s e).dir? t.id = some d → d.wanted = t.wanted
    rw [hdir]
    obtain hreading | harchive := hfollows.archive
    · -- nothing has been made yet when the source is read
      have hnone : s.dir? b.id = none := by
        have hat := h.dir
        rw [show (s, b).2.stage = .reading from hreading] at hat
        exact hat
      have hmove := hfollows.move
      rw [hreading] at hmove
      generalize t.stage = later at hmove
      rw [hnone]
      intro d hd
      cases hmove <;> cases hd
    · have hwanted : t.wanted = b.wanted := by
        rw [Build.wanted, harchive, hfollows.kind]
        rfl
      rw [hwanted]
      exact Effect.onDir_wanted h.wanted
  · show t.stage.DirAt ((b.apply s e).dir? t.id)
    rw [hdir]
    exact hfollows.move.dirAt h.wanted h.dir

/-! ### The system of one call -/

/-- The storage and the call after one step of the call. -/
def nextOf (at' : Storage × Build) (o : StepOutcome) : Option (Storage × Build) :=
  at'.2.next at'.1 o

/-- One call on its own. -/
def buildSystem : System (Storage × Build) StepOutcome :=
  System.ofNext (fun _ => True) nextOf

/-- The call is made with an id that nothing has yet. -/
structure Build.Starts (s : Storage) (b : Build) : Prop where
  pc : b.pc = Build.startPc b.kind
  recorded : b.recorded = false
  noDir : s.dir? b.id = none
  noRecord : b.id ∉ s.registered

theorem BuildInv.of_starts {s : Storage} {b : Build} (h : b.Starts s) : BuildInv s (s, b) where
  elsewhere _ _ := rfl
  store := by rw [h.recorded]; exact (List.append_nil _).symm
  late hrecorded := absurd (h.recorded.symm.trans hrecorded) Bool.false_ne_true
  wanted _ hd := absurd (h.noDir.symm.trans hd) nofun
  dir := by
    show b.stage.DirAt (s.dir? b.id)
    rw [b.stage_of_unrecorded h.recorded, h.pc, h.noDir]
    cases b.kind with
    | duplicate source => exact rfl
    | _ => trivial

end Wldroid.Proot
