import Wldroid.Proot.CrashRecovery

/-!
# Ids in the store, with any number of calls at once

Every edit of the store is atomic, but a call decides to add a record earlier than it adds it: from
what it has read of the store and seen on disk.

* `Registry.next` — the storage and any number of calls that make, adopt and delete environments, in
  any interleaving of their steps;
* `Call.intends` — the ids a call has decided to add, or will if it finds their directories;
* `DecidesAlone` — a record is added only while no other call intends its id, and
  `createEnvironment` goes past its check only for an id without a record;
* `registered_nodup_of_decidesAlone` — in a run of such steps no id is ever in the store twice;
* `adopted_twice` — two recoveries that read the store before either has added to it;
* `adoption_runs` — a recovery whose steps follow one another is `adoptOrphanedEnvironments`.
-/

namespace Wldroid.Proot

open Wldroid.Foundation

/-! ### Calls in progress -/

inductive Call where
  | build (b : Build)
  | adoption (pc : AdoptionPc)
  | deletion (id : EnvId) (pc : DeletionPc)
  deriving DecidableEq, Repr

structure Registry where
  storage : Storage
  calls : List Call
  deriving DecidableEq, Repr

inductive CallEvent where
  /-- A call that makes an environment is made. -/
  | build (kind : BuildKind) (id : EnvId) (name : String) (archive : List Piece)
  | adoptOrphanedEnvironments
  | deleteEnvironment (id : EnvId)
  /-- The `k`-th call takes its next step, which ends like this. -/
  | step (k : ℕ) (outcome : StepOutcome)
  deriving DecidableEq, Repr

/-- The call is past the lock of `createMutex`, and has not left it. -/
def Call.holdsMutex : Call → Bool
  | .build b => b.kind.isCreation && match b.pc with
    | .makeJobDir | .createMarker | .clearPartial | .lock | .deleteMarker _ | .ended _ => false
    | _ => true
  | _ => false

def Call.buildId? : Call → Option EnvId
  | .build b => some b.id
  | _ => none

def Call.step (s : Storage) : Call → StepOutcome → Option (Storage × Call)
  | .build b, o => (b.next s o).map fun r => (r.1, .build r.2)
  | .adoption pc, o => (Adoption.step s pc o).map fun r => (r.1, .adoption r.2)
  | .deletion id pc, o => (Deletion.step s id pc o).map fun r => (r.1, .deletion id r.2)

namespace Registry

/-- A random UUID: nothing on disk, in the store or in progress has it. -/
def Fresh (r : Registry) (id : EnvId) : Prop :=
  id ∉ r.storage.registered ∧ r.storage.dir? id = none ∧ ∀ c ∈ r.calls, c.buildId? ≠ some id

instance (r : Registry) (id : EnvId) : Decidable (r.Fresh id) :=
  inferInstanceAs (Decidable (_ ∧ _ ∧ _))

/-- The call waits for the mutex that another one holds. -/
def waits (r : Registry) (c : Call) : Bool :=
  match c with
  | .build b => b.pc == .lock && r.calls.any Call.holdsMutex
  | _ => false

/-- One step of one call, or a new call.  Only `createEnvironment` is given its id. -/
def next (r : Registry) : CallEvent → Option Registry
  | .build kind id name archive =>
      if kind = .createEnvironment ∨ r.Fresh id then
        some { r with
          calls := r.calls ++ [.build ⟨kind, id, name, archive, false, Build.startPc kind⟩] }
      else none
  | .adoptOrphanedEnvironments =>
      some { r with calls := r.calls ++ [.adoption .listInterrupted] }
  | .deleteEnvironment id => some { r with calls := r.calls ++ [.deletion id .deleteDir] }
  | .step k o => do
      let c ← r.calls[k]?
      if r.waits c && o == .returns then none
      else
        let (s, c') ← c.step r.storage o
        return ⟨s, r.calls.set k c'⟩

/-- No calls yet, on a storage as one finds it. -/
structure Initial (r : Registry) : Prop where
  calls : r.calls = []
  unique : r.storage.registered.Nodup
  names : (r.storage.dirs.map EnvDir.name).Nodup

/-- No two records have the same id. -/
def UniqueIds (r : Registry) : Prop := r.storage.registered.Nodup

end Registry

def registrySystem : System Registry CallEvent :=
  System.ofNext Registry.Initial Registry.next

/-! ### What calls intend -/

/-- A call here adds a record unless something goes wrong; one with a random id does so from the
start, and `create` and `createEnvironment` from their check on. -/
def BuildPc.willAdd : BuildPc → Bool
  | .findSource _ | .requireSource _ | .download | .verifySha256 | .makeDir | .write _
  | .sendInstalling | .configure _ | .validate | .makeL2s | .add => true
  | _ => false

/-- The call has decided to add a record of this id.  A recovery that has read the store, and has
not listed the directories yet, adds every id it did not read and then finds. -/
def Call.intends (x : EnvId) : Call → Bool
  | .build b => decide (b.id = x) && b.pc.willAdd
  | .adoption (.listDirs registeredIds) => decide (x ∉ registeredIds)
  | .adoption (.adopt orphanIds) => decide (x ∈ orphanIds)
  | _ => false

/-- The id of the record that the step adds. -/
def Call.adding (o : StepOutcome) : Call → Option EnvId
  | .build b => if b.pc = .add ∧ (o = .edited true ∨ o = .editFailed true) then some b.id else none
  | .adoption (.adopt (id :: _)) =>
      if o = .edited true ∨ o = .editFailed true then some id else none
  | _ => none

/-- The call is at the check of `createEnvironment` for an id that has a record and no rootfs. -/
def Call.overlooks (s : Storage) : Call → Bool
  | .build b => decide (b.pc = .checkExisting) && !s.hasEnvironment b.id &&
      decide (b.id ∈ s.registered)
  | _ => false

/-- A record is added while no other call intends its id, and no record is overlooked. -/
def DecidesAlone (r : Registry) : CallEvent → Prop
  | .step k o => ∀ c ∈ r.calls[k]?,
      (∀ x ∈ c.adding o, ∀ l < r.calls.length, l ≠ k →
        ∀ other ∈ r.calls[l]?, other.intends x = false) ∧
      (o = .returns → c.overlooks r.storage = false)
  | _ => True

instance (r : Registry) (e : CallEvent) : Decidable (DecidesAlone r e) := by
  cases e with
  | step k o =>
    exact inferInstanceAs (Decidable (∀ c ∈ r.calls[k]?,
      (∀ x ∈ c.adding o, ∀ l < r.calls.length, l ≠ k →
        ∀ other ∈ r.calls[l]?, other.intends x = false) ∧
      (o = .returns → c.overlooks r.storage = false)))
  | _ => exact isTrue trivial

/-- What a step of a call that makes an environment has to do with its decision. -/
structure Build.Decides (s : Storage) (b b' : Build) (pc : BuildPc) (o : StepOutcome) (e : Effect) :
    Prop where
  id : b'.id = b.id
  adds : e = .addRecord →
    pc = .add ∧ (o = .edited true ∨ o = .editFailed true) ∧ b'.pc.willAdd = false
  willAdd : b'.pc.willAdd = true →
    pc.willAdd = true ∨ pc = .checkExisting ∧ o = .returns ∧ s.hasEnvironment b.id = false

namespace Build

variable {s : Storage} {b b' : Build} {e : Effect} {o : StepOutcome} {pc : BuildPc}

theorem exit_willAdd (b : Build) (failed : Bool) : (b.exit failed).pc.willAdd = false := by
  obtain ⟨hpc, -⟩ | ⟨hpc, -⟩ := b.exit_cases failed <;> rw [hpc] <;> rfl

theorem Decides.stays (hid : b'.id = b.id) (he : e ≠ .addRecord) (hpc : pc.willAdd = true) :
    b.Decides s b' pc o e where
  id := hid
  adds h := absurd h he
  willAdd _ := .inl hpc

theorem Decides.drops (hid : b'.id = b.id) (he : e ≠ .addRecord) (hpc : b'.pc.willAdd = false) :
    b.Decides s b' pc o e where
  id := hid
  adds h := absurd h he
  willAdd h := absurd (hpc.symm.trans h) Bool.false_ne_true

theorem editEffect_eq_addRecord {persisted : Bool} (h : editEffect persisted = .addRecord) :
    persisted = true := by
  cases persisted with
  | true => rfl
  | false => cases h

/-- **Every step, and the decision to add a record.** -/
theorem step_decides (h : b.step s pc o = some (e, b')) : b.Decides s b' pc o e := by
  cases steps_of_step h with
  | download | verifySha256 _ | makeDir | makeDirFails _ | write _ _ | written | writeFails _
  | sendInstalling | configure _ _ | configured | makeL2s => exact .stays rfl nofun rfl
  | makeJobDir | createMarker | lock | delete _ | keep _ | deleteMarker _ =>
    exact .drops rfl nofun rfl
  | sendError _ | throws _ => exact .drops rfl nofun (b.exit_willAdd true)
  | sendReady | leaveContext => exact .drops rfl nofun (b.exit_willAdd false)
  | clearPartial =>
    refine .drops rfl ?_ rfl
    split <;> nofun
  -- the check of createEnvironment
  | checkExisting =>
    refine ⟨rfl, nofun, fun hwill => .inr ⟨rfl, rfl, ?_⟩⟩
    cases hhas : s.hasEnvironment b.id with
    | false => rfl
    | true =>
      rw [hhas] at hwill
      cases hwill
  | findSource _ | validate =>
    refine .stays ?_ nofun rfl
    split <;> rfl
  | requireSource source =>
    refine .stays ?_ nofun rfl
    cases s.dir? source <;> rfl
  | cleaned =>
    unfold afterCleanup
    split
    · refine .drops rfl ?_ rfl
      split <;> nofun
    · refine .drops rfl ?_ (b.exit_willAdd true)
      split <;> nofun
  -- the edit
  | add persisted =>
    have hdone : ((b.noteRecorded persisted).afterAdd).pc.willAdd = false := by
      show (if b.kind.isCreation then BuildPc.verifyStore else .leaveContext).willAdd = false
      split <;> rfl
    exact ⟨rfl, fun he => ⟨rfl, .inl (by rw [editEffect_eq_addRecord he]), hdone⟩,
      fun hwill => absurd (hdone.symm.trans hwill) Bool.false_ne_true⟩
  | addFails persisted =>
    have hdone := (b.noteRecorded persisted).exit_willAdd true
    exact ⟨rfl, fun he => ⟨rfl, .inr (by rw [editEffect_eq_addRecord he]), hdone⟩,
      fun hwill => absurd (hdone.symm.trans hwill) Bool.false_ne_true⟩
  | verifyStore =>
    refine .drops rfl nofun ?_
    show BuildPc.willAdd (if _ then _ else _) = false
    split <;> rfl

end Build

/-! ### One step of one call -/

/-- What a step of a call does to the ids in the store and to the call's own intentions. -/
structure Call.Shifts (s s' : Storage) (c c' : Call) (o : StepOutcome) : Prop where
  registered : s'.registered.Sublist s.registered ∨ ∃ x, c.adding o = some x ∧
    s'.registered = s.registered ++ [x] ∧ c.intends x = true ∧ c'.intends x = false
  intends : ∀ x, c'.intends x = true → c.intends x = true ∨ x ∉ s.registered
  names : (s'.dirs.map EnvDir.name).Nodup
  orphans : ∀ ids, c' = .adoption (.adopt ids) → ids.Nodup

section Step

variable {s s' : Storage} {c' : Call} {o : StepOutcome}

theorem Storage.registered_addEnvironment (s : Storage) (env : RootfsEnvironment) :
    (s.addEnvironment env).registered = s.registered ++ [env.id] := List.map_append

theorem Build.registered_apply (s : Storage) (b : Build) (e : Effect) :
    (b.apply s e).registered = s.registered ++ if e = .addRecord then [b.id] else [] := by
  unfold Storage.registered
  rw [b.store_apply, List.map_append]
  split <;> rfl

theorem Build.shifts {b : Build} (hnames : (s.dirs.map EnvDir.name).Nodup)
    (hchecked : o = .returns → (Call.build b).overlooks s = false)
    (h : (Call.build b).step s o = some (s', c')) : (Call.build b).Shifts s s' c' o := by
  obtain ⟨⟨t, b'⟩, hnext, hresult⟩ := Option.map_eq_some_iff.mp h
  cases hresult
  have hnames' := Build.next_names hnames hnext
  obtain ⟨⟨e, u⟩, hmoves, hresult⟩ := Option.map_eq_some_iff.mp hnext
  cases hresult
  obtain ⟨hid, hadds, hwill⟩ := Build.step_decides hmoves
  refine ⟨?_, ?_, hnames', nofun⟩
  · by_cases he : e = .addRecord
    · obtain ⟨hpc, ho, hdone⟩ := hadds he
      refine .inr ⟨b.id, if_pos ⟨hpc, ho⟩, ?_, ?_, ?_⟩
      · show (b.apply s e).registered = _
        rw [b.registered_apply, if_pos he]
      · show (decide (b.id = b.id) && b.pc.willAdd) = true
        rw [hpc]
        simp [BuildPc.willAdd]
      · show (decide (u.id = b.id) && u.pc.willAdd) = false
        rw [hdone, Bool.and_false]
    · left
      show (b.apply s e).registered.Sublist s.registered
      rw [b.registered_apply, if_neg he, List.append_nil]
  · intro x hx
    obtain ⟨hx, hlater⟩ := Bool.and_eq_true_iff.mp hx
    have hx : b.id = x := hid.symm.trans (of_decide_eq_true hx)
    obtain hbefore | ⟨hpc, ho, hnone⟩ := hwill hlater
    · left
      show (decide (b.id = x) && b.pc.willAdd) = true
      rw [hbefore, decide_eq_true hx]
      rfl
    · -- past the check, which has found neither a rootfs nor overlooked a record
      right
      have hover : (decide (b.pc = .checkExisting) && !s.hasEnvironment b.id &&
          decide (b.id ∈ s.registered)) = false := hchecked ho
      rw [hpc, hnone] at hover
      rw [← hx]
      simpa using hover

/-- The record of an orphan is added, or lost. -/
theorem Adoption.adds {id : EnvId} {rest : List EnvId} {pc : AdoptionPc} {persisted : Bool}
    (hnames : (s.dirs.map EnvDir.name).Nodup) (hnodup : (id :: rest).Nodup)
    (hedit : o = .edited persisted ∨ o = .editFailed persisted)
    (hpc : pc = .adopt rest ∨ pc = .ended) :
    (Call.adoption (.adopt (id :: rest))).Shifts s
      (if persisted then s.addEnvironment (Storage.adopted id) else s) (.adoption pc) o := by
  obtain ⟨hout, hrest⟩ := List.nodup_cons.mp hnodup
  have hsub : ∀ x, (Call.adoption pc).intends x = true → x ∈ rest := by
    intro x hx
    obtain rfl | rfl := hpc
    · exact of_decide_eq_true hx
    · cases hx
  refine ⟨?_, fun x hx => .inl (decide_eq_true (List.mem_cons_of_mem _ (hsub x hx))), ?_, ?_⟩
  · cases persisted with
    | false => exact .inl (List.Sublist.refl _)
    | true =>
      refine .inr ⟨id, if_pos hedit, s.registered_addEnvironment _,
        decide_eq_true List.mem_cons_self, ?_⟩
      exact Bool.eq_false_of_not_eq_true fun h => hout (hsub id h)
  · cases persisted <;> exact hnames
  · intro ids hids
    obtain rfl | rfl := hpc
    · cases hids
      exact hrest
    · cases hids

theorem Adoption.shifts {pc : AdoptionPc} (hnames : (s.dirs.map EnvDir.name).Nodup)
    (horphans : ∀ ids, pc = .adopt ids → ids.Nodup)
    (h : (Call.adoption pc).step s o = some (s', c')) :
    (Call.adoption pc).Shifts s s' c' o := by
  obtain ⟨⟨t, pc'⟩, hstep, hresult⟩ := Option.map_eq_some_iff.mp h
  cases hresult
  have hstays : ∀ {pc pc' : AdoptionPc}, (∀ x, (Call.adoption pc').intends x = false) →
      (∀ ids, pc' ≠ .adopt ids) → (Call.adoption pc).Shifts s s (.adoption pc') o := by
    intro pc pc' hnothing hpc
    refine ⟨.inl (List.Sublist.refl _), fun x hx => ?_, hnames, fun ids hids => ?_⟩
    · exact absurd ((hnothing x).symm.trans hx) Bool.false_ne_true
    · exact absurd (Call.adoption.inj hids) (hpc ids)
  cases pc with
  | listInterrupted =>
    cases o with
    | returns =>
      cases hstep
      exact hstays (fun _ => rfl) nofun
    | _ => cases hstep
  | clean ids =>
    cases o with
    | returns =>
      cases ids with
      | nil =>
        cases hstep
        exact hstays (fun _ => rfl) nofun
      | cons id rest =>
        cases hstep
        exact ⟨.inl (List.Sublist.refl _), nofun, nodup_remove hnames id, nofun⟩
    | _ => cases ids <;> cases hstep
  | readStore =>
    cases o with
    | returns =>
      -- what the store did not hold when it was read
      cases hstep
      refine ⟨.inl (List.Sublist.refl _), fun x hx => .inr ?_, hnames, nofun⟩
      exact of_decide_eq_true hx
    | fails | cancelled =>
      cases hstep
      exact hstays (fun _ => rfl) nofun
    | _ => cases hstep
  | listDirs registeredIds =>
    cases o with
    | returns =>
      -- what is found on disk is part of that
      cases hstep
      refine ⟨.inl (List.Sublist.refl _), fun x hx => .inl ?_, hnames, fun ids hids => ?_⟩
      · obtain ⟨d, hd, rfl⟩ := List.mem_map.mp (of_decide_eq_true hx)
        exact (Bool.and_eq_true_iff.mp (List.mem_filter.mp hd).2).2
      · cases hids
        exact (List.filter_sublist.map EnvDir.name).nodup hnames
    | _ => cases hstep
  | adopt ids =>
    cases ids with
    | nil =>
      cases o with
      | returns =>
        cases hstep
        exact hstays (fun _ => rfl) nofun
      | _ => cases hstep
    | cons id rest =>
      cases o with
      | edited persisted =>
        cases hstep
        exact Adoption.adds hnames (horphans _ rfl) (.inl rfl) (.inl rfl)
      | editFailed persisted =>
        cases hstep
        exact Adoption.adds hnames (horphans _ rfl) (.inr rfl) (.inr rfl)
      | _ => cases hstep
  | ended => cases o <;> cases hstep

theorem Deletion.shifts {id : EnvId} {pc : DeletionPc} (hnames : (s.dirs.map EnvDir.name).Nodup)
    (h : (Call.deletion id pc).step s o = some (s', c')) :
    (Call.deletion id pc).Shifts s s' c' o := by
  obtain ⟨⟨t, pc'⟩, hstep, hresult⟩ := Option.map_eq_some_iff.mp h
  cases hresult
  have hremoved : ∀ persisted : Bool,
      (if persisted then s.removeEnvironment id else s).registered.Sublist s.registered := by
    intro persisted
    cases persisted with
    | true => exact List.filter_sublist.map RootfsEnvironment.id
    | false => exact List.Sublist.refl _
  have hkept : ∀ persisted : Bool,
      ((if persisted then s.removeEnvironment id else s).dirs.map EnvDir.name).Nodup := by
    intro persisted
    cases persisted <;> exact hnames
  cases pc with
  | deleteDir =>
    cases o with
    | returns =>
      cases hstep
      exact ⟨.inl (List.Sublist.refl _), nofun, nodup_remove hnames id, nofun⟩
    | fails =>
      cases hstep
      exact ⟨.inl (List.Sublist.refl _), nofun, hnames, nofun⟩
    | _ => cases hstep
  | removeRecord =>
    cases o with
    | edited persisted | editFailed persisted =>
      cases hstep
      exact ⟨.inl (hremoved persisted), nofun, hkept persisted, nofun⟩
    | _ => cases hstep
  | ended => cases o <;> cases hstep

theorem Call.step_shifts {c : Call} (hnames : (s.dirs.map EnvDir.name).Nodup)
    (horphans : ∀ ids, c = .adoption (.adopt ids) → ids.Nodup)
    (hchecked : o = .returns → c.overlooks s = false) (h : c.step s o = some (s', c')) :
    c.Shifts s s' c' o := by
  cases c with
  | build b => exact Build.shifts hnames hchecked h
  | adoption pc => exact Adoption.shifts hnames (fun ids hids => horphans ids (hids ▸ rfl)) h
  | deletion id pc => exact Deletion.shifts hnames h

end Step

/-! ### Runs -/

/-- What runs of such steps keep: what a call intends to add is not in the store. -/
structure IdsInv (r : Registry) : Prop where
  unique : r.storage.registered.Nodup
  names : (r.storage.dirs.map EnvDir.name).Nodup
  intended : ∀ (k : ℕ) (c : Call), r.calls[k]? = some c → ∀ x, c.intends x = true →
    x ∉ r.storage.registered
  orphans : ∀ (k : ℕ) (ids : List EnvId), r.calls[k]? = some (.adoption (.adopt ids)) → ids.Nodup

namespace IdsInv

variable {r r' : Registry}

theorem of_initial (h : r.Initial) : IdsInv r where
  unique := h.unique
  names := h.names
  intended k c hc := by rw [h.calls] at hc; cases hc
  orphans k ids hc := by rw [h.calls] at hc; cases hc

theorem call_made (h : IdsInv r) {c : Call}
    (hnew : ∀ x, c.intends x = true → x ∉ r.storage.registered)
    (hadopt : ∀ ids, c ≠ .adoption (.adopt ids)) :
    IdsInv { r with calls := r.calls ++ [c] } := by
  have hcases : ∀ (k : ℕ) (d : Call), (r.calls ++ [c])[k]? = some d →
      r.calls[k]? = some d ∨ d = c := by
    intro k d hd
    rw [List.getElem?_append] at hd
    split at hd
    · exact .inl hd
    · rw [List.getElem?_singleton] at hd
      split at hd
      · exact .inr (Option.some.inj hd).symm
      · cases hd
  refine ⟨h.unique, h.names, fun k d hd => ?_, fun k ids hd => ?_⟩
  · obtain hold | rfl := hcases k d hd
    · exact h.intended k d hold
    · exact hnew
  · obtain hold | hlast := hcases k _ hd
    · exact h.orphans k ids hold
    · exact absurd hlast.symm (hadopt ids)

/-- **A step that decides alone keeps the ids distinct.** -/
theorem step (h : IdsInv r) {k : ℕ} {o : StepOutcome} {c c' : Call} {s' : Storage}
    (hc : r.calls[k]? = some c) (hstep : c.step r.storage o = some (s', c'))
    (halone : DecidesAlone r (.step k o)) : IdsInv ⟨s', r.calls.set k c'⟩ := by
  obtain ⟨hothers, hchecked⟩ := halone c hc
  obtain ⟨hregistered, hintends, hnames, horphans⟩ := Call.step_shifts h.names
    (fun ids hids => h.orphans k ids (hids ▸ hc)) hchecked hstep
  have hcases : ∀ (l : ℕ) (d : Call), (r.calls.set k c')[l]? = some d →
      (l ≠ k ∧ r.calls[l]? = some d) ∨ d = c' := by
    intro l d hd
    rw [List.getElem?_set] at hd
    split at hd
    · split at hd
      · exact .inr (Option.some.inj hd).symm
      · cases hd
    · rename_i hne
      exact .inl ⟨Ne.symm hne, hd⟩
  have hold : ∀ x, c.intends x = true → x ∉ r.storage.registered := h.intended k c hc
  -- what is intended after the step was not in the store before it
  have hbefore : ∀ (l : ℕ) (d : Call), (r.calls.set k c')[l]? = some d → ∀ x,
      d.intends x = true → x ∉ r.storage.registered := by
    intro l d hd x hx
    obtain ⟨-, hsame⟩ | rfl := hcases l d hd
    · exact h.intended l d hsame x hx
    · obtain hearlier | hout := hintends x hx
      · exact hold x hearlier
      · exact hout
  refine ⟨?_, hnames, fun l d hd x hx => ?_, fun l ids hd => ?_⟩
  · obtain hsub | ⟨x, -, hadded, hx, -⟩ := hregistered
    · exact hsub.nodup h.unique
    · show s'.registered.Nodup
      rw [hadded, List.nodup_append_comm]
      exact List.nodup_cons.mpr ⟨hold x hx, h.unique⟩
  · obtain hsub | ⟨y, hadding, hadded, -, hdone⟩ := hregistered
    · exact fun hin => hbefore l d hd x hx (hsub.subset hin)
    · show x ∉ s'.registered
      rw [hadded]
      intro hin
      obtain hin | hlast := List.mem_append.mp hin
      · exact hbefore l d hd x hx hin
      · -- nobody else intends the id that is added
        obtain rfl := List.mem_singleton.mp hlast
        obtain ⟨hne, hsame⟩ | rfl := hcases l d hd
        · have hl : l < r.calls.length := (List.getElem?_eq_some_iff.mp hsame).1
          have hnone := hothers x hadding l hl hne d hsame
          rw [hx] at hnone
          cases hnone
        · rw [hx] at hdone
          cases hdone
  · obtain ⟨-, hsame⟩ | heq := hcases l _ hd
    · exact h.orphans l ids hsame
    · exact horphans ids heq.symm

theorem next (h : IdsInv r) {e : CallEvent} (hstep : r.next e = some r')
    (halone : DecidesAlone r e) : IdsInv r' := by
  cases e with
  | build kind id name archive =>
    rw [Registry.next] at hstep
    split at hstep
    · rename_i hfresh
      cases hstep
      refine h.call_made (fun x hx => ?_) nofun
      obtain ⟨hid, hwill⟩ := Bool.and_eq_true_iff.mp hx
      obtain rfl | hfresh := hfresh
      · cases hwill
      · rw [← show id = x from of_decide_eq_true hid]
        exact hfresh.1
    · cases hstep
  | adoptOrphanedEnvironments =>
    cases hstep
    exact h.call_made nofun nofun
  | deleteEnvironment id =>
    cases hstep
    exact h.call_made nofun nofun
  | step k o =>
    obtain ⟨c, hc, hrest⟩ := Option.bind_eq_some_iff.mp hstep
    split at hrest
    · cases hrest
    · obtain ⟨⟨s, c'⟩, hmoves, hresult⟩ := Option.bind_eq_some_iff.mp hrest
      cases hresult
      exact h.step hc hmoves halone

end IdsInv

/-- **Store ids stay unique while calls decide alone.**  In every interleaving of any number of
calls in which a record is added only while no other call intends its id, and `createEnvironment`
does not go past a record without a rootfs, no two records ever have the same id. -/
theorem registered_nodup_of_decidesAlone {r : Registry} {run : List (CallEvent × Registry)}
    (hinitial : r.Initial) (hrun : registrySystem.Exec r run)
    (hguard : AllSteps DecidesAlone r run) : AllStates Registry.UniqueIds r run :=
  System.allStates_of_allSteps (I := IdsInv) (fun _ h => h.unique)
    (fun _ _ _ h hstep halone => h.next hstep halone) (IdsInv.of_initial hinitial) hrun hguard

/-! ### A recovery on its own -/

/-- The storage and a recovery after one step of it. -/
def adoptionNext (at' : Storage × AdoptionPc) (o : StepOutcome) : Option (Storage × AdoptionPc) :=
  Adoption.step at'.1 at'.2 o

theorem clean_runs (ids : List EnvId) : ∀ s : Storage,
    runNext adoptionNext (s, .clean ids) (ids.map fun _ => .returns)
      = some ({ s with dirs := s.dirs.filter fun d => d.name ∉ ids }, .clean []) := by
  induction ids with
  | nil =>
    intro s
    have hall : s.dirs.filter (fun d => d.name ∉ ([] : List EnvId)) = s.dirs :=
      List.filter_eq_self.mpr fun _ _ => rfl
    rw [hall]
    rfl
  | cons id rest ih =>
    intro s
    show runNext adoptionNext (s.removeDir id, .clean rest) (rest.map fun _ => .returns) = _
    have hboth : (s.removeDir id).dirs.filter (fun d => d.name ∉ rest)
        = s.dirs.filter fun d => d.name ∉ id :: rest := by
      show (s.dirs.filter fun d => d.name ≠ id).filter (fun d => d.name ∉ rest) = _
      rw [List.filter_filter]
      apply List.filter_congr
      intro d _
      simp [Bool.and_comm]
    rw [ih, hboth]
    rfl

theorem adopt_runs (ids : List EnvId) : ∀ s : Storage,
    runNext adoptionNext (s, .adopt ids) (ids.map fun _ => .edited true)
      = some ({ s with store := s.store ++ ids.map Storage.adopted }, .adopt []) := by
  induction ids with
  | nil =>
    intro s
    rw [List.map_nil, List.map_nil, List.append_nil]
    rfl
  | cons id rest ih =>
    intro s
    show runNext adoptionNext (s.addEnvironment (Storage.adopted id), .adopt rest)
      (rest.map fun _ => .edited true) = _
    rw [ih]
    show some (({ s with store := (s.store ++ [Storage.adopted id]) ++ rest.map Storage.adopted } :
      Storage), AdoptionPc.adopt []) = _
    rw [List.append_assoc]
    rfl

/-- **A recovery whose steps follow one another** does to the storage what
`adoptOrphanedEnvironments` says. -/
theorem adoption_runs (s : Storage) (hnames : (s.dirs.map EnvDir.name).Nodup) :
    ∃ outcomes, runNext adoptionNext (s, .listInterrupted) outcomes
      = some (s.adoptOrphanedEnvironments, .ended) := by
  let marked := (s.dirs.filter EnvDir.isCreating).map EnvDir.name
  let orphans := s.cleanInterrupted.findOrphanedEnvironments s.registered
  -- deleting the marked directories by name is deleting the marked directories
  have hclean : s.dirs.filter (fun d => d.name ∉ marked) = s.dirs.filter fun d => !d.isCreating := by
    apply List.filter_congr
    intro d hd
    have hmarked : d.name ∈ marked ↔ d.isCreating = true := by
      constructor
      · intro hin
        obtain ⟨c, hc, hname⟩ := List.mem_map.mp hin
        obtain ⟨hmem, hcreating⟩ := List.mem_filter.mp hc
        rw [← List.inj_on_of_nodup_map hnames hmem hd hname]
        exact hcreating
      · exact fun hcreating => List.mem_map.mpr ⟨d, List.mem_filter.mpr ⟨hd, hcreating⟩, rfl⟩
    simp [hmarked]
  let reads : List StepOutcome := [.returns, .returns, .returns]
  let adds : List StepOutcome := orphans.map fun _ => .edited true
  let cleans : List StepOutcome := .returns :: marked.map fun _ => .returns
  refine ⟨cleans ++ (reads ++ (adds ++ [StepOutcome.returns])), ?_⟩
  have hfirst : runNext adoptionNext (s, .listInterrupted) cleans
      = some (s.cleanInterrupted, .clean []) := by
    show runNext adoptionNext (s, .clean marked) (marked.map fun _ => .returns) = _
    rw [clean_runs, hclean]
    rfl
  have hread : runNext adoptionNext (s.cleanInterrupted, .clean []) reads
      = some (s.cleanInterrupted, .adopt orphans) := rfl
  rw [runNext_append, hfirst, Option.bind_some, runNext_append, hread, Option.bind_some,
    runNext_append, adopt_runs]
  rfl

/-! ### Two recoveries -/

/-- A rootfs that no record tells of. -/
def orphanStorage : Storage := ⟨[⟨"id", [.entry "etc/os-release" 0], []⟩], []⟩

def orphanRegistry : Registry := ⟨orphanStorage, []⟩

theorem orphanRegistry_initial : orphanRegistry.Initial :=
  ⟨rfl, List.nodup_nil, List.nodup_singleton _⟩

/-- The steps of the `k`-th call when it is a recovery that finds nothing to clean. -/
def readAndList (k : ℕ) : List CallEvent :=
  [.step k .returns, .step k .returns, .step k .returns, .step k .returns]

/-- The second recovery starts when the first has ended. -/
def recoverTwice : List CallEvent :=
  .adoptOrphanedEnvironments :: readAndList 0 ++ [.step 0 (.edited true), .step 0 .returns,
    .adoptOrphanedEnvironments] ++ readAndList 1

theorem registered_nodup_recoverTwice :
    (traceNext Registry.next orphanRegistry recoverTwice).length = 12 ∧
      AllStates Registry.UniqueIds orphanRegistry
        (traceNext Registry.next orphanRegistry recoverTwice) :=
  ⟨rfl, registered_nodup_of_decidesAlone orphanRegistry_initial (System.exec_traceNext _ _ _)
    (by decide)⟩

/-- Both recoveries read the store before either has added to it. -/
def recoverAtOnce : List CallEvent :=
  .adoptOrphanedEnvironments :: .adoptOrphanedEnvironments :: readAndList 0 ++ readAndList 1 ++
    [.step 0 (.edited true), .step 1 (.edited true)]

theorem adopted_twice :
    ¬ ∀ (r : Registry) (run : List (CallEvent × Registry)), r.Initial →
      registrySystem.Exec r run → AllStates Registry.UniqueIds r run := by
  intro hall
  have hrun := hall orphanRegistry (traceNext Registry.next orphanRegistry recoverAtOnce)
    orphanRegistry_initial (System.exec_traceNext _ _ _)
  have hlast : (["id", "id"] : List EnvId).Nodup := hrun.last
  exact absurd hlast (by decide)

end Wldroid.Proot
