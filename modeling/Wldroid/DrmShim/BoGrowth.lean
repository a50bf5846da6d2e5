import Wldroid.Foundation.Loops
import Wldroid.DrmShim.BoTable

/-!
# The BO table when allocations fail

`bo_alloc` counts the handle up before it grows the table, and the growth may fail.  The scan of
`bo_find_by_inode` goes by the counter, the others by the capacity.

* `boLookupReads`, `boLookupByOffsetReads`, `boFindByInodeReads` — the indices they read;
* `growRound` — the doubling loop;
* `Sound` — all indices are inside the table, handles are those of one BO each, and the next one can
  be given out;
* `Grows` — an allocation that has to grow the table can, and stays below 2^31;
* **`sound_iff_grows`** — the states of a run are all sound exactly if its steps all grow;
* `first_growth_fails` — the very first allocation fails.
-/

namespace Wldroid.DrmShim

open Wldroid.Foundation

/-! ### Reads -/

/-- The slot `bo_lookup` reads. -/
def boLookupReads (t : BoTable) (handle : ℕ) : List ℕ :=
  if handle = 0 ∨ handle ≥ t.capacity then [] else [handle]

/-- The slots `bo_lookup_by_offset` reads when it finds nothing. -/
def boLookupByOffsetReads (t : BoTable) : List ℕ := List.range' 1 (t.capacity - 1)

/-- The slots of a scan, to the first live BO on a file. -/
def scanReads (t : BoTable) (key : FileKey) : List ℕ → List ℕ
  | [] => []
  | i :: rest => i :: if (t.slots i).backedBy key then [] else scanReads t key rest

/-- The slots `bo_find_by_inode` reads. -/
def boFindByInodeReads (t : BoTable) (fd : Option BackingFile) : List ℕ :=
  match statKey fd with
  | none => []
  | some key => scanReads t key (List.range' 1 (t.handleNext - 1))

/-! ### Growth -/

/-- A round of `while (new_cap <= h) new_cap *= 2`. -/
def growRound (h newCap : ℕ) : Option ℕ := if newCap ≤ h then some (newCap * 2 % 2 ^ 32) else none

/-- The capacity the loop starts with. -/
def BoTable.firstCapacity (t : BoTable) : ℕ :=
  if t.capacity ≠ 0 then t.capacity * 2 % 2 ^ 32 else maxBoTableInitial

/-- What the functions of the table are called for. -/
inductive TableEvent where
  /-- `bo_alloc`; whether `realloc` succeeds if it is called. -/
  | alloc (realloc : Bool)
  /-- The caller fills in the BO. -/
  | fill (handle : ℕ) (bo : Bo)
  | free (handle : ℕ)

/-- The table after a call, if it returns. -/
def BoTable.next (t : BoTable) : TableEvent → Option BoTable
  | .alloc realloc => (boAlloc t realloc).map Prod.fst
  | .fill handle bo =>
      if (boLookup t handle).isSome ∧ bo.boHandle = handle then some (t.modify handle fun _ => bo)
      else none
  | .free handle =>
      some (if (boLookup t handle).isSome then t.modify handle fun _ => Bo.zero else t)

/-- All runs from the table at load time. -/
def tableSystem : System BoTable TableEvent := System.ofNext (· = BoTable.empty) BoTable.next

/-! ### Soundness -/

/-- Every index read is inside the table, live BOs have handles of their own, the next handle is not
that of a live BO, and if the table has to grow for it the loop ends. -/
structure Sound (t : BoTable) : Prop where
  lookup : ∀ handle, ∀ i ∈ boLookupReads t handle, i < t.capacity
  byOffset : ∀ i ∈ boLookupByOffsetReads t, i < t.capacity
  byInode : ∀ fd, ∀ i ∈ boFindByInodeReads t fd, i < t.capacity
  unique : ∀ i j bo bo', t.live i = some bo → t.live j = some bo' → bo.boHandle = bo'.boHandle →
    i = j
  fresh : t.live t.handleNext = none
  growth : t.capacity ≤ t.handleNext →
    ∃ n, LoopEnds (growRound t.handleNext) t.firstCapacity n

/-- An allocation that has to grow the table can, and the counter stays below 2^31. -/
def Grows (t : BoTable) : TableEvent → Prop
  | .alloc realloc => (t.capacity ≤ t.handleNext → realloc = true) ∧ t.handleNext + 1 < 2 ^ 31
  | _ => True

instance (t : BoTable) (e : TableEvent) : Decidable (Grows t e) := by
  cases e with
  | alloc realloc => exact inferInstanceAs (Decidable (_ ∧ _))
  | fill handle bo => exact isTrue trivial
  | free handle => exact isTrue trivial

/-! ### The doubling loop -/

/-- A power of two that fits 32 bits, or nothing. -/
def IsCapacity (n : ℕ) : Prop := n = 0 ∨ ∃ j ≤ 31, n = 2 ^ j

theorem isCapacity_double {n : ℕ} (h : IsCapacity n) : IsCapacity (n * 2 % 2 ^ 32) := by
  obtain rfl | ⟨j, hj, rfl⟩ := h
  · exact .inl rfl
  · by_cases hlast : j = 31
    · subst hlast
      exact .inl rfl
    · refine .inr ⟨j + 1, by omega, ?_⟩
      have hlt : 2 ^ (j + 1) < 2 ^ 32 := Nat.pow_lt_pow_right (by decide) (by omega)
      rw [← Nat.pow_succ, Nat.mod_eq_of_lt hlt]

theorem isCapacity_firstCapacity {t : BoTable} (h : IsCapacity t.capacity) :
    IsCapacity t.firstCapacity := by
  unfold BoTable.firstCapacity
  split
  · exact isCapacity_double h
  · exact .inr ⟨10, by decide, rfl⟩

/-- A full table below 2^31 starts the loop with a power of two. -/
theorem exists_firstCapacity_pow {t : BoTable} (hcap : IsCapacity t.capacity)
    (hlt : t.handleNext < 2 ^ 31) (hfull : t.capacity ≤ t.handleNext) :
    ∃ j ≤ 31, t.firstCapacity = 2 ^ j := by
  unfold BoTable.firstCapacity
  obtain hnone | ⟨j, hj, hpow⟩ := hcap
  · exact ⟨10, by decide, if_neg (not_not_intro hnone)⟩
  · -- a table of 2^31 is never full
    have hne : j ≠ 31 := by
      rintro rfl
      omega
    have hfits : 2 ^ (j + 1) < 2 ^ 32 := Nat.pow_lt_pow_right (by decide) (by omega)
    have hpos : 0 < 2 ^ j := Nat.pow_pos (by decide)
    refine ⟨j + 1, by omega, ?_⟩
    rw [if_pos (by omega), hpow, ← Nat.pow_succ, Nat.mod_eq_of_lt hfits]

/-- The bounded loop of the model is left where the loop is left. -/
theorem loopEnds_of_growCapacity {fuel : ℕ} :
    ∀ {newCap h n : ℕ}, growCapacity fuel newCap h = some n → LoopEnds (growRound h) newCap n := by
  induction fuel with
  | zero => intro newCap h n hgrow; cases hgrow
  | succ fuel ih =>
    intro newCap h n hgrow
    unfold growCapacity at hgrow
    split at hgrow
    · rename_i hle
      exact .next (if_pos hle) (ih hgrow)
    · rename_i hgt
      obtain rfl := Option.some.inj hgrow
      exact .exit (if_neg hgt)

/-- Below 2^31 the loop is left at a power of two, within 32 rounds. -/
theorem growCapacity_pow {h : ℕ} (hlt : h < 2 ^ 31) {fuel : ℕ} :
    ∀ {j : ℕ}, j ≤ 31 → 32 - j ≤ fuel →
      ∃ m, m ≤ 31 ∧ h < 2 ^ m ∧ growCapacity fuel (2 ^ j) h = some (2 ^ m) := by
  induction fuel with
  | zero => intro j hj hfuel; omega
  | succ fuel ih =>
    intro j hj hfuel
    unfold growCapacity
    by_cases hle : 2 ^ j ≤ h
    · have hne : j ≠ 31 := by
        rintro rfl
        omega
      have hpow : 2 ^ (j + 1) < 2 ^ 32 := Nat.pow_lt_pow_right (by decide) (by omega)
      rw [if_pos hle, ← Nat.pow_succ, Nat.mod_eq_of_lt hpow]
      exact ih (by omega) (by omega)
    · rw [if_neg hle]
      exact ⟨j, hj, by omega, rfl⟩

/-- From 2^31 on it is never left. -/
theorem not_loopEnds {h : ℕ} (hge : 2 ^ 31 ≤ h) {newCap n : ℕ}
    (hends : LoopEnds (growRound h) newCap n) : ¬ IsCapacity newCap := by
  induction hends with
  | exit hnone =>
    intro hcap
    rw [growRound, if_pos ?_] at hnone
    · cases hnone
    · obtain rfl | ⟨j, hj, rfl⟩ := hcap
      · exact Nat.zero_le h
      · exact (Nat.pow_le_pow_right (by decide) hj).trans hge
  | @next s u n hround _ ih =>
    intro hcap
    unfold growRound at hround
    split at hround
    · exact ih (Option.some.inj hround ▸ isCapacity_double hcap)
    · cases hround

/-! ### One call -/

/-- What an allocation does to the counter and the capacity: growth fails, or the handle fits. -/
theorem boAlloc_capacity {t t' : BoTable} {realloc : Bool} {r : Option ℕ}
    (hcap : IsCapacity t.capacity) (hlt : t.handleNext < 2 ^ 31)
    (halloc : boAlloc t realloc = some (t', r)) :
    t'.handleNext = t.handleNext + 1 ∧
      (t.capacity ≤ t.handleNext ∧ realloc = false ∧ t'.capacity = t.capacity ∨
        ¬ (t.capacity ≤ t.handleNext ∧ realloc = false) ∧ IsCapacity t'.capacity ∧
          t.handleNext < t'.capacity) := by
  have hnext : (t.handleNext + 1) % 2 ^ 32 = t.handleNext + 1 := Nat.mod_eq_of_lt (by omega)
  unfold boAlloc at halloc
  simp only at halloc
  split at halloc
  · rename_i hfull
    obtain ⟨newCap, hgrow, hresult⟩ := Option.map_eq_some_iff.mp halloc
    obtain ⟨j, hj, hfirst⟩ := exists_firstCapacity_pow hcap hlt hfull
    obtain ⟨m, hm, hroom, hgrown⟩ := growCapacity_pow hlt hj (show 32 - j ≤ 33 by omega)
    have hsame : newCap = 2 ^ m := by
      rw [← hfirst] at hgrown
      exact Option.some.inj (hgrow.symm.trans hgrown)
    split at hresult
    · rename_i hrealloc
      obtain ⟨rfl, rfl⟩ := Prod.mk.inj hresult
      refine ⟨hnext, .inr ⟨fun h => ?_, .inr ⟨m, hm, hsame⟩, ?_⟩⟩
      · rw [h.2] at hrealloc
        cases hrealloc
      · show t.handleNext < newCap
        omega
    · rename_i hrealloc
      obtain ⟨rfl, rfl⟩ := Prod.mk.inj hresult
      exact ⟨hnext, .inl ⟨hfull, by simpa using hrealloc, rfl⟩⟩
  · rename_i hroom
    obtain ⟨rfl, rfl⟩ := Prod.mk.inj (Option.some.inj halloc)
    exact ⟨hnext, .inr ⟨fun h => hroom h.1, hcap, by show t.handleNext < t.capacity; omega⟩⟩

theorem scanReads_subset {t : BoTable} {key : FileKey} {l : List ℕ} :
    ∀ {i : ℕ}, i ∈ scanReads t key l → i ∈ l := by
  induction l with
  | nil => exact id
  | cons j rest ih =>
    intro i hi
    unfold scanReads at hi
    obtain rfl | hrest := List.mem_cons.mp hi
    · exact List.mem_cons_self
    · split at hrest
      · cases hrest
      · exact List.mem_cons_of_mem j (ih hrest)

theorem scanReads_append {t : BoTable} {key : FileKey} {l m : List ℕ}
    (hnone : ∀ i ∈ l, (t.slots i).backedBy key = false) :
    scanReads t key (l ++ m) = l ++ scanReads t key m := by
  induction l with
  | nil => rfl
  | cons i rest ih =>
    obtain ⟨hi, hrest⟩ := List.forall_mem_cons.mp hnone
    rw [List.cons_append, scanReads, hi, if_neg Bool.false_ne_true, ih hrest, List.cons_append]

/-- A file that no BO is on is looked for in every slot. -/
theorem scanReads_eq_self {t : BoTable} {key : FileKey} {l : List ℕ}
    (hnone : ∀ i ∈ l, (t.slots i).backedBy key = false) : scanReads t key l = l := by
  have hall := scanReads_append (m := []) hnone
  rwa [List.append_nil, scanReads, List.append_nil] at hall

/-- There always is a file that no BO is on. -/
theorem exists_unused_key (t : BoTable) (l : List ℕ) :
    ∃ key, ∀ i ∈ l, (t.slots i).backedBy key = false := by
  have : Infinite FileKey := Infinite.of_injective (FileKey.mk 0) fun m n h => (FileKey.mk.inj h).2
  obtain ⟨key, hkey⟩ := Infinite.exists_notMem_finset
    (l.filterMap fun i => statKey (t.slots i).shmFd).toFinset
  refine ⟨key, fun i hi => ?_⟩
  by_contra hbacked
  have hstat : statKey (t.slots i).shmFd = some key := by
    have hboth := (Bool.not_eq_false _).mp hbacked
    unfold Bo.backedBy at hboth
    exact of_decide_eq_true (Bool.and_eq_true_iff.mp hboth).2
  exact hkey (List.mem_toFinset.mpr (List.mem_filterMap.mpr ⟨i, hi, hstat⟩))

/-- The scan by file is inside the table for every file exactly if the counter is. -/
theorem boFindByInodeReads_lt_iff {t : BoTable} :
    (∀ fd, ∀ i ∈ boFindByInodeReads t fd, i < t.capacity) ↔ t.handleNext ≤ max t.capacity 1 := by
  constructor
  · intro h
    by_contra hover
    obtain ⟨key, hkey⟩ := exists_unused_key t (List.range' 1 (t.handleNext - 1))
    have hreads : boFindByInodeReads t (some ⟨key, none, 0⟩) =
        List.range' 1 (t.handleNext - 1) := scanReads_eq_self hkey
    have hlast := h (some ⟨key, none, 0⟩) (t.handleNext - 1)
    rw [hreads, List.mem_range'_1] at hlast
    have hlt := hlast (by omega)
    omega
  · intro hle fd i hi
    unfold boFindByInodeReads at hi
    split at hi
    · cases hi
    · have hmem := List.mem_range'_1.mp (scanReads_subset hi)
      omega

/-! ### Runs -/

/-- The counter is inside the table, or at its end. -/
structure GrowthInv (t : BoTable) : Prop where
  wellFormed : t.WellFormed
  next_le : t.handleNext ≤ max t.capacity 1
  next_lt : t.handleNext < 2 ^ 31
  capacity : IsCapacity t.capacity

theorem growthInv_empty : GrowthInv BoTable.empty :=
  ⟨wellFormed_empty, by decide, by decide, .inl rfl⟩

theorem GrowthInv.sound {t : BoTable} (hinv : GrowthInv t) : Sound t where
  lookup := by
    intro handle i hi
    unfold boLookupReads at hi
    split at hi
    · cases hi
    · obtain rfl := List.mem_singleton.mp hi
      omega
  byOffset := by
    intro i hi
    have hmem := List.mem_range'_1.mp hi
    omega
  byInode := boFindByInodeReads_lt_iff.mpr hinv.next_le
  unique := by
    intro i j bo bo' hbo hbo' hsame
    rw [← hinv.wellFormed.handle_eq i bo hbo, hsame, hinv.wellFormed.handle_eq j bo' hbo']
  fresh := by
    cases hlive : t.live t.handleNext with
    | none => rfl
    | some bo => exact absurd (hinv.wellFormed.in_bounds _ bo hlive).1 (lt_irrefl _)
  growth := by
    intro hfull
    obtain ⟨j, hj, hfirst⟩ := exists_firstCapacity_pow hinv.capacity hinv.next_lt hfull
    obtain ⟨m, -, -, hgrow⟩ := growCapacity_pow hinv.next_lt hj (Nat.sub_le 32 j)
    exact ⟨2 ^ m, hfirst ▸ loopEnds_of_growCapacity hgrow⟩

/-- A BO that is filled in stays at its handle. -/
theorem BoTable.WellFormed.fill {t : BoTable} (hw : t.WellFormed) {handle : ℕ} {bo : Bo}
    (hlive : (boLookup t handle).isSome) (hhandle : bo.boHandle = handle) :
    (t.modify handle fun _ => bo).WellFormed := by
  rw [hw.boLookup_eq] at hlive
  obtain ⟨old, hold⟩ := Option.isSome_iff_exists.mp hlive
  have hslot : (t.slots handle).boHandle = handle := by
    rw [(live_eq_some.mp hold).2, hw.handle_eq handle old hold]
  have hkept : ∀ old : Bo, ({ bo with boHandle := old.boHandle } : Bo).boHandle = old.boHandle :=
    fun old => rfl
  have hwf := (hw.modify handle hkept).1
  unfold BoTable.modify at hwf ⊢
  simp only [hslot] at hwf
  rwa [← hhandle] at hwf ⊢

/-- A call that grows the table where it has to. -/
theorem GrowthInv.keep {t t' : BoTable} {e : TableEvent} (hinv : GrowthInv t)
    (hstep : t.next e = some t') (hgrows : Grows t e) : GrowthInv t' := by
  cases e with
  | alloc realloc =>
    obtain ⟨⟨u, r⟩, halloc, rfl⟩ := Option.map_eq_some_iff.mp hstep
    have hwf := (hinv.wellFormed.boAlloc_cases halloc).1
    obtain ⟨hnext, ⟨hfull, hfails, -⟩ | ⟨-, hcap, hroom⟩⟩ :=
      boAlloc_capacity hinv.capacity hinv.next_lt halloc
    · rw [hgrows.1 hfull] at hfails
      cases hfails
    · refine ⟨hwf, ?_, ?_, hcap⟩
      · show u.handleNext ≤ max u.capacity 1
        omega
      · show u.handleNext < 2 ^ 31
        rw [hnext]
        exact hgrows.2
  | fill handle bo =>
    unfold BoTable.next at hstep
    simp only at hstep
    split at hstep
    · rename_i hfill
      obtain rfl := Option.some.inj hstep
      exact ⟨hinv.wellFormed.fill hfill.1 hfill.2, hinv.next_le, hinv.next_lt, hinv.capacity⟩
    · cases hstep
  | free handle =>
    obtain rfl := Option.some.inj hstep
    split
    · exact ⟨(hinv.wellFormed.free handle).1, hinv.next_le, hinv.next_lt, hinv.capacity⟩
    · exact hinv

/-- An allocation that cannot grow the table leaves the counter outside; one that reaches 2^31
leaves a table that cannot grow. -/
theorem GrowthInv.breaks {t t' : BoTable} {e : TableEvent} (hinv : GrowthInv t)
    (hstep : t.next e = some t') (hstuck : ¬ Grows t e) : ¬ Sound t' := by
  cases e with
  | alloc realloc =>
    obtain ⟨⟨u, r⟩, halloc, rfl⟩ := Option.map_eq_some_iff.mp hstep
    intro hsound
    obtain ⟨hnext, ⟨hfull, -, hsame⟩ | ⟨hgrown, hcap, hroom⟩⟩ :=
      boAlloc_capacity hinv.capacity hinv.next_lt halloc
    · have hle := boFindByInodeReads_lt_iff.mp hsound.byInode
      have hpos := hinv.wellFormed.next_pos
      simp only at hle
      omega
    · have hlast : t.handleNext + 1 = 2 ^ 31 := by
        have hlt := hinv.next_lt
        by_contra hne
        refine hstuck ⟨fun hfull => ?_, by omega⟩
        cases realloc with
        | true => rfl
        | false => exact absurd ⟨hfull, rfl⟩ hgrown
      have hfull : u.capacity ≤ u.handleNext := by
        obtain hzero | ⟨j, hj, hpow⟩ := hcap
        · omega
        · have hle : 2 ^ j ≤ 2 ^ 31 := Nat.pow_le_pow_right (by decide) hj
          omega
      obtain ⟨n, hends⟩ := hsound.growth hfull
      exact not_loopEnds (by simp only; omega) hends (isCapacity_firstCapacity hcap)
  | fill handle bo => exact absurd trivial hstuck
  | free handle => exact absurd trivial hstuck

/-- **In bounds as long as it grows.**  In every run from the table at load time, whatever is
allocated and freed, all states are sound exactly if every allocation for which the table is too
small can grow it, and the counter stays below 2^31. -/
theorem sound_iff_grows (s : BoTable) (run : List (TableEvent × BoTable))
    (hinit : s = BoTable.empty) (hrun : tableSystem.Exec s run) :
    AllStates Sound s run ↔ AllSteps Grows s run := by
  subst hinit
  exact System.allStates_iff_allSteps (fun t => GrowthInv.sound) (fun t e t' => GrowthInv.keep)
    (fun t e t' => GrowthInv.breaks) growthInv_empty hrun

/-- A BO is allocated, freed, and another one allocated. -/
theorem sound_iff_grows_reuse :
    AllStates Sound BoTable.empty
      (traceNext BoTable.next BoTable.empty [.alloc true, .free 1, .alloc true]) :=
  (sound_iff_grows BoTable.empty _ rfl (System.exec_traceNext _ _ _)).mpr (by decide)

/-- The table cannot be allocated for the first BO: with no slot at all, the counter is 2, and the
scan for any open file reads slot 1.  And the doubling never gets past handle 2^31. -/
theorem first_growth_fails :
    (∃ t, tableSystem.Exec BoTable.empty [(TableEvent.alloc false, t)] ∧
      t.capacity = 0 ∧ t.handleNext = 2 ∧
      (∀ file, 1 ∈ boFindByInodeReads t (some file)) ∧
      ¬ AllStates Sound BoTable.empty [(TableEvent.alloc false, t)]) ∧
    ¬ ∃ n, LoopEnds (growRound (2 ^ 31)) maxBoTableInitial n := by
  have hreads : ∀ file, 1 ∈ boFindByInodeReads { BoTable.empty with handleNext := 2 } (some file) :=
    fun file => List.mem_cons_self
  refine ⟨⟨{ BoTable.empty with handleNext := 2 }, ⟨rfl, trivial⟩, rfl, rfl, hreads, ?_⟩, ?_⟩
  · intro hsound
    rw [allStates_cons, allStates_nil] at hsound
    have hlt := hsound.2.byInode (some ⟨⟨0, 0⟩, none, 0⟩) 1 (hreads _)
    exact absurd hlt (by decide)
  · rintro ⟨n, hends⟩
    exact not_loopEnds le_rfl hends (.inr ⟨10, by decide, rfl⟩)

end Wldroid.DrmShim
