import Wldroid.Foundation.Transition

/-!
# The BO table of the DRM shim

Buffer objects live in a table indexed by their handle.  Handles are dealt out by a counter, so they
are never reused; the table doubles when the counter passes its end.  A free slot has handle zero.

* `boAlloc` — the next handle, with the growth of the table and its failure;
* `boLookup`, `boFindByInode` — by handle, and by the file behind the descriptor;
* `BoTable.WellFormed` — every live slot holds its own index, below the counter and inside the
  table; kept by all operations.
-/

namespace Wldroid.DrmShim

/-! ### Files -/

/-- `st_dev` and `st_ino`. -/
structure FileKey where
  dev : ℕ
  ino : ℕ
  deriving DecidableEq

/-- What an open descriptor refers to: what `fstat` tells, the target of its link in
`/proc/self/fd` if that can be read, and where `lseek` finds the end.  A descriptor is modelled by
the file it refers to; no file stands for a number that is not open. -/
structure BackingFile where
  key : FileKey
  link : Option (List Char)
  size : ℕ
  deriving DecidableEq

/-- What `fstat` tells of a descriptor. -/
def statKey (fd : Option BackingFile) : Option FileKey := fd.map BackingFile.key

/-- `strstr(target, "memfd:") != NULL`. -/
def mentionsMemfd (target : List Char) : Bool :=
  target.tails.any fun rest => ['m', 'e', 'm', 'f', 'd', ':'].isPrefixOf rest

/-- Whether the link of a descriptor tells an AHB dmabuf from a memfd: it can be read, is not empty,
and the 255 characters that fit the buffer do not mention a memfd. -/
def isAhbLink (fd : Option BackingFile) : Bool :=
  match fd.bind BackingFile.link with
  | some target => target ≠ [] && !mentionsMemfd (target.take 255)
  | none => false

/-! ### Table -/

/-- `struct drm_shim_bo`. -/
structure Bo where
  /-- Zero in a free slot. -/
  boHandle : ℕ
  resHandle : ℕ
  shmFd : Option BackingFile
  size : ℕ
  stride : ℕ
  width : ℕ
  height : ℕ
  mmapOffset : ℕ
  mmapPtr : Option ℕ
  mapped : Bool
  isAhb : Bool

/-- A slot after `memset`; the descriptor of a free slot is never looked at. -/
def Bo.zero : Bo where
  boHandle := 0
  resHandle := 0
  shmFd := none
  size := 0
  stride := 0
  width := 0
  height := 0
  mmapOffset := 0
  mmapPtr := none
  mapped := false
  isAhb := false

/-- A slot after `bo_alloc`. -/
def Bo.fresh (handle : ℕ) : Bo := { Bo.zero with boHandle := handle }

/-- `bo_table`, `bo_table_capacity` and `bo_handle_next`. -/
structure BoTable where
  slots : ℕ → Bo
  capacity : ℕ
  handleNext : ℕ

/-- The table at load time. -/
def BoTable.empty : BoTable := ⟨fun _ => Bo.zero, 0, 1⟩

/-- Write to a slot. -/
def BoTable.modify (t : BoTable) (i : ℕ) (f : Bo → Bo) : BoTable :=
  { t with slots := Function.update t.slots i (f (t.slots i)) }

/-- `MAX_BO_TABLE_INITIAL`. -/
def maxBoTableInitial : ℕ := 1024

/-- The doubling loop of `bo_alloc` in 32 bits.  After 33 rounds the capacity is zero for good, and
the loop does not end. -/
def growCapacity : ℕ → ℕ → ℕ → Option ℕ
  | 0, _, _ => none
  | fuel + 1, newCap, h =>
      if newCap ≤ h then growCapacity fuel (newCap * 2 % 2 ^ 32) h else some newCap

/-- `bo_alloc`; `realloc` tells whether the table can grow if it has to.  No result means that the
doubling loop does not end, and no handle that the growth failed. -/
def boAlloc (t : BoTable) (realloc : Bool) : Option (BoTable × Option ℕ) :=
  let h := t.handleNext
  let t := { t with handleNext := (h + 1) % 2 ^ 32 }
  let fresh := fun t : BoTable => (t.modify h fun _ => Bo.fresh h, some h)
  if h ≥ t.capacity then
    let newCap := if t.capacity ≠ 0 then t.capacity * 2 % 2 ^ 32 else maxBoTableInitial
    (growCapacity 33 newCap h).map fun newCap =>
      if realloc then
        fresh { t with
          slots := fun i => if t.capacity ≤ i ∧ i < newCap then Bo.zero else t.slots i
          capacity := newCap }
      else (t, none)
  else some (fresh t)

/-- `bo_lookup`. -/
def boLookup (t : BoTable) (handle : ℕ) : Option Bo :=
  if handle = 0 ∨ handle ≥ t.capacity then none
  else if (t.slots handle).boHandle = 0 then none
  else some (t.slots handle)

/-- Whether a slot holds a live BO on a file. -/
def Bo.backedBy (bo : Bo) (key : FileKey) : Bool :=
  bo.boHandle ≠ 0 && statKey bo.shmFd = some key

/-- `bo_find_by_inode`: the first slot below `bo_handle_next` with a live BO on the same file.  No
result means that the scan reads past the end of the table. -/
def boFindByInode (t : BoTable) (fd : Option BackingFile) : Option (Option Bo) :=
  match statKey fd with
  | none => some none
  | some key =>
      match (List.range' 1 (min t.handleNext t.capacity - 1)).find? fun i =>
          (t.slots i).backedBy key with
      | some i => some (some (t.slots i))
      | none => if t.handleNext ≤ max t.capacity 1 then some none else none

/-! ### The live BOs -/

/-- The table as a partial map from handles to BOs. -/
def BoTable.live (t : BoTable) (i : ℕ) : Option Bo :=
  if (t.slots i).boHandle = 0 then none else some (t.slots i)

/-- Live BOs sit at their own handle, below the counter and inside the table. -/
structure BoTable.WellFormed (t : BoTable) : Prop where
  handle_eq : ∀ i bo, t.live i = some bo → bo.boHandle = i
  in_bounds : ∀ i bo, t.live i = some bo → i < t.handleNext ∧ i < t.capacity
  next_pos : 0 < t.handleNext
  capacity_lt : t.capacity < 2 ^ 32

theorem live_eq_some {t : BoTable} {i : ℕ} {bo : Bo} :
    t.live i = some bo ↔ (t.slots i).boHandle ≠ 0 ∧ t.slots i = bo := by
  unfold BoTable.live
  split
  · rename_i hzero
    simp [hzero]
  · rename_i hhandle
    simp [hhandle]

theorem wellFormed_empty : BoTable.empty.WellFormed := by
  have hnone : ∀ i bo, ¬ BoTable.empty.live i = some bo := by
    intro i bo h
    exact (live_eq_some.mp h).1 rfl
  exact ⟨fun i bo h => absurd h (hnone i bo), fun i bo h => absurd h (hnone i bo), by decide,
    by decide⟩

/-- A lookup finds exactly the live BOs. -/
theorem BoTable.WellFormed.boLookup_eq {t : BoTable} (hw : t.WellFormed) (handle : ℕ) :
    boLookup t handle = t.live handle := by
  unfold boLookup
  split
  · rename_i hout
    cases hlive : t.live handle with
    | none => rfl
    | some bo =>
      have heq := hw.handle_eq handle bo hlive
      obtain ⟨hhandle, hslot⟩ := live_eq_some.mp hlive
      have hin := (hw.in_bounds handle bo hlive).2
      rcases hout with rfl | hge
      · rw [hslot, heq] at hhandle
        exact absurd rfl hhandle
      · omega
  · rfl

/-- The doubling loop ends above the handle, in 32 bits. -/
theorem growCapacity_spec {fuel : ℕ} :
    ∀ {newCap h n : ℕ}, newCap < 2 ^ 32 → growCapacity fuel newCap h = some n →
      h < n ∧ n < 2 ^ 32 := by
  induction fuel with
  | zero => intro newCap h n _ hgrow; cases hgrow
  | succ fuel ih =>
    intro newCap h n hcap hgrow
    unfold growCapacity at hgrow
    split at hgrow
    · exact ih (Nat.mod_lt _ (by decide)) hgrow
    · rename_i hlt
      obtain rfl := Option.some.inj hgrow
      omega

theorem live_modify (t : BoTable) (i : ℕ) (f : Bo → Bo) :
    (t.modify i f).live = Function.update t.live i
      (if (f (t.slots i)).boHandle = 0 then none else some (f (t.slots i))) := by
  funext j
  by_cases hj : j = i
  · subst hj
    simp [BoTable.live, BoTable.modify]
  · simp [BoTable.live, BoTable.modify, hj]

/-- A new BO under the counter, in a table that has room for it. -/
theorem BoTable.WellFormed.fresh {t u : BoTable} (hw : t.WellFormed) (hlive : u.live = t.live)
    (hnext : u.handleNext = t.handleNext + 1) (hroom : t.handleNext < u.capacity)
    (hgrown : t.capacity ≤ u.capacity) (hlt : u.capacity < 2 ^ 32) :
    (u.modify t.handleNext fun _ => Bo.fresh t.handleNext).WellFormed ∧
      (u.modify t.handleNext fun _ => Bo.fresh t.handleNext).live =
        Function.update t.live t.handleNext
          (some (Bo.fresh t.handleNext)) := by
  have hpos := hw.next_pos
  have hupdate : (u.modify t.handleNext fun _ => Bo.fresh t.handleNext).live =
      Function.update t.live t.handleNext (some (Bo.fresh t.handleNext)) := by
    rw [live_modify, hlive]
    congr 1
    exact if_neg (by show ¬ t.handleNext = 0; omega)
  refine ⟨⟨?_, ?_, ?_, hlt⟩, hupdate⟩
  · intro i bo hbo
    rw [hupdate] at hbo
    by_cases hi : i = t.handleNext
    · subst hi
      rw [Function.update_self] at hbo
      exact Option.some.inj hbo ▸ rfl
    · rw [Function.update_of_ne hi] at hbo
      exact hw.handle_eq i bo hbo
  · intro i bo hbo
    show i < u.handleNext ∧ i < u.capacity
    rw [hupdate] at hbo
    by_cases hi : i = t.handleNext
    · subst hi
      omega
    · rw [Function.update_of_ne hi] at hbo
      have hin := hw.in_bounds i bo hbo
      exact ⟨by omega, lt_of_lt_of_le hin.2 hgrown⟩
  · show 0 < u.handleNext
    omega

/-- Everything an allocation can do: it fails and only the counter moves, or there is a new live BO
under the counter. -/
theorem BoTable.WellFormed.boAlloc_cases {t t' : BoTable} {realloc : Bool} {r : Option ℕ}
    (hw : t.WellFormed) (halloc : boAlloc t realloc = some (t', r)) :
    t'.WellFormed ∧ t'.handleNext = t.handleNext + 1 ∧
      (r = none ∧ t'.live = t.live ∨
        r = some t.handleNext ∧ t'.live = Function.update t.live t.handleNext
          (some (Bo.fresh t.handleNext))) := by
  unfold boAlloc at halloc
  simp only at halloc
  split at halloc
  · rename_i hfull
    obtain ⟨newCap, hgrow, hresult⟩ := Option.map_eq_some_iff.mp halloc
    have hstart : (if t.capacity ≠ 0 then t.capacity * 2 % 2 ^ 32 else maxBoTableInitial) <
        2 ^ 32 := by
      split
      · exact Nat.mod_lt _ (by decide)
      · decide
    obtain ⟨hroom, hlt⟩ := growCapacity_spec hstart hgrow
    have hnext : (t.handleNext + 1) % 2 ^ 32 = t.handleNext + 1 := Nat.mod_eq_of_lt (by omega)
    split at hresult
    · -- the table has grown; what is new is free, as it was before
      obtain ⟨rfl, rfl⟩ := Prod.mk.inj hresult
      have hlive : (BoTable.mk (fun i => if t.capacity ≤ i ∧ i < newCap then Bo.zero
          else t.slots i) newCap ((t.handleNext + 1) % 2 ^ 32)).live = t.live := by
        funext i
        cases hbo : t.live i with
        | none =>
          unfold BoTable.live at hbo ⊢
          simp only
          split at hbo
          · rename_i hzero
            split <;> simp_all [Bo.zero]
          · cases hbo
        | some bo =>
          have hin := (hw.in_bounds i bo hbo).2
          unfold BoTable.live at hbo ⊢
          simp only [show ¬ (t.capacity ≤ i ∧ i < newCap) by omega, if_false]
          exact hbo
      obtain ⟨hwf, hupdate⟩ := hw.fresh hlive hnext hroom (by show t.capacity ≤ newCap; omega) hlt
      exact ⟨hwf, hnext, .inr ⟨rfl, hupdate⟩⟩
    · obtain ⟨rfl, rfl⟩ := Prod.mk.inj hresult
      refine ⟨⟨hw.handle_eq, ?_, ?_, hw.capacity_lt⟩, hnext, .inl ⟨rfl, rfl⟩⟩
      · intro i bo hbo
        have hin := hw.in_bounds i bo hbo
        show i < (t.handleNext + 1) % 2 ^ 32 ∧ i < t.capacity
        omega
      · show 0 < (t.handleNext + 1) % 2 ^ 32
        omega
  · rename_i hroom
    obtain ⟨rfl, rfl⟩ := Prod.mk.inj (Option.some.inj halloc)
    have hcap := hw.capacity_lt
    have hnext : (t.handleNext + 1) % 2 ^ 32 = t.handleNext + 1 := Nat.mod_eq_of_lt (by omega)
    obtain ⟨hwf, hupdate⟩ := hw.fresh
      (u := { t with handleNext := (t.handleNext + 1) % 2 ^ 32 }) rfl hnext
      (by show t.handleNext < t.capacity; omega) le_rfl hcap
    exact ⟨hwf, hnext, .inr ⟨rfl, hupdate⟩⟩

/-- An allocation that fails after its handle was dealt out. -/
theorem BoTable.WellFormed.boAlloc_failed {t t' : BoTable} {realloc : Bool} (hw : t.WellFormed)
    (halloc : boAlloc t realloc = some (t', none)) :
    t'.WellFormed ∧ t'.handleNext = t.handleNext + 1 ∧ t'.live = t.live := by
  obtain ⟨hwf, hnext, ⟨-, hlive⟩ | ⟨hhandle, -⟩⟩ := hw.boAlloc_cases halloc
  · exact ⟨hwf, hnext, hlive⟩
  · cases hhandle

/-- An allocation that succeeds. -/
theorem BoTable.WellFormed.boAlloc_made {t t' : BoTable} {realloc : Bool} {handle : ℕ}
    (hw : t.WellFormed) (halloc : boAlloc t realloc = some (t', some handle)) :
    handle = t.handleNext ∧ t'.WellFormed ∧ t'.handleNext = t.handleNext + 1 ∧
      t'.live = Function.update t.live t.handleNext (some (Bo.fresh t.handleNext)) := by
  obtain ⟨hwf, hnext, ⟨hhandle, -⟩ | ⟨hhandle, hlive⟩⟩ := hw.boAlloc_cases halloc
  · cases hhandle
  · exact ⟨Option.some.inj hhandle, hwf, hnext, hlive⟩

/-- A change of a BO that keeps its handle. -/
theorem BoTable.WellFormed.modify {t : BoTable} (hw : t.WellFormed) (i : ℕ) {f : Bo → Bo}
    (hf : ∀ bo, (f bo).boHandle = bo.boHandle) :
    (t.modify i f).WellFormed ∧
      (t.modify i f).live = Function.update t.live i ((t.live i).map f) := by
  have hupdate : (t.modify i f).live = Function.update t.live i ((t.live i).map f) := by
    rw [live_modify, hf]
    congr 1
    unfold BoTable.live
    split <;> rfl
  have hback : ∀ j bo, (t.modify i f).live j = some bo →
      ∃ old, t.live j = some old ∧ bo.boHandle = old.boHandle := by
    intro j bo hbo
    rw [hupdate] at hbo
    by_cases hj : j = i
    · subst hj
      rw [Function.update_self] at hbo
      obtain ⟨old, hold, rfl⟩ := Option.map_eq_some_iff.mp hbo
      exact ⟨old, hold, hf old⟩
    · rw [Function.update_of_ne hj] at hbo
      exact ⟨bo, hbo, rfl⟩
  refine ⟨⟨?_, ?_, hw.next_pos, hw.capacity_lt⟩, hupdate⟩
  · intro j bo hbo
    obtain ⟨old, hold, hhandle⟩ := hback j bo hbo
    rw [hhandle, hw.handle_eq j old hold]
  · intro j bo hbo
    obtain ⟨old, hold, -⟩ := hback j bo hbo
    exact hw.in_bounds j old hold

/-- Freeing a slot. -/
theorem BoTable.WellFormed.free {t : BoTable} (hw : t.WellFormed) (i : ℕ) :
    (t.modify i fun _ => Bo.zero).WellFormed ∧
      (t.modify i fun _ => Bo.zero).live = Function.update t.live i none := by
  have hupdate := live_modify t i fun _ => Bo.zero
  rw [if_pos (show Bo.zero.boHandle = 0 from rfl)] at hupdate
  have hback : ∀ j bo, (t.modify i fun _ => Bo.zero).live j = some bo → t.live j = some bo := by
    intro j bo hbo
    rw [hupdate] at hbo
    by_cases hj : j = i
    · subst hj
      rw [Function.update_self] at hbo
      cases hbo
    · rwa [Function.update_of_ne hj] at hbo
  exact ⟨⟨fun j bo hbo => hw.handle_eq j bo (hback j bo hbo),
    fun j bo hbo => hw.in_bounds j bo (hback j bo hbo), hw.next_pos, hw.capacity_lt⟩, hupdate⟩

end Wldroid.DrmShim
