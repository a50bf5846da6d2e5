import Wldroid.DrmShim.BoTable

/-!
# The inode cache of the DRM shim

Which server resource was created for which file.  The cache outlives the BOs: an import of a file
that no live BO has takes the resource handle and the geometry from here.

* `InodeCache.store` — update in place, else the first empty slot, else slot zero;
* `InodeCache.lookup` — the first entry of the file.
-/

namespace Wldroid.DrmShim

/-- A valid entry of `inode_cache`. -/
structure CacheEntry where
  key : FileKey
  resHandle : ℕ
  width : ℕ
  height : ℕ
  stride : ℕ
  size : ℕ
  isAhb : Bool

/-- `INODE_CACHE_SIZE`. -/
def inodeCacheSize : ℕ := 64

/-- `inode_cache`: as many slots as there always are, empty where not valid. -/
structure InodeCache where
  slots : List (Option CacheEntry)
  length_eq : slots.length = inodeCacheSize

namespace InodeCache

/-- The cache at load time. -/
def empty : InodeCache := ⟨List.replicate inodeCacheSize none, List.length_replicate⟩

/-- Whether a slot holds an entry of a file. -/
def holds (key : FileKey) (slot : Option CacheEntry) : Bool := slot.any fun e => e.key = key

/-- The slot `inode_cache_store` writes to. -/
def slotFor (c : InodeCache) (key : FileKey) : ℕ :=
  ((c.slots.findIdx? (holds key)).or (c.slots.findIdx? Option.isNone)).getD 0

/-- `inode_cache_store`, with the entry to be made once the file's key is known. -/
def store (c : InodeCache) (fd : Option BackingFile) (entry : FileKey → CacheEntry) : InodeCache :=
  match statKey fd with
  | some key =>
      if (entry key).resHandle = 0 then c
      else ⟨c.slots.set (c.slotFor key) (some (entry key)), by rw [List.length_set, c.length_eq]⟩
  | none => c

/-- `inode_cache_lookup`: the entry whose fields are copied, if there is one. -/
def lookup (c : InodeCache) (fd : Option BackingFile) : Option CacheEntry :=
  (statKey fd).bind fun key => c.slots.findSome? fun slot => slot.filter fun e => e.key = key

/-- The entry of a file. -/
def get (c : InodeCache) (key : FileKey) : Option CacheEntry :=
  c.slots.findSome? fun slot => slot.filter fun e => e.key = key

/-- How many slots hold an entry. -/
def filled (c : InodeCache) : ℕ := c.slots.countP Option.isSome

/-- The entries of the cache. -/
def entries (c : InodeCache) : List CacheEntry := c.slots.filterMap id

theorem mem_entries {c : InodeCache} {e : CacheEntry} : e ∈ c.entries ↔ some e ∈ c.slots := by
  simp [entries]

theorem entries_empty : empty.entries = [] := by decide

/-- What is found is in the cache. -/
theorem mem_of_lookup {c : InodeCache} {fd : Option BackingFile} {e : CacheEntry}
    (h : c.lookup fd = some e) : e ∈ c.entries := by
  obtain ⟨key, -, hfind⟩ := Option.bind_eq_some_iff.mp h
  obtain ⟨slot, hmem, hslot⟩ := List.exists_of_findSome?_eq_some hfind
  obtain rfl := (Option.filter_eq_some_iff.mp hslot).1
  exact mem_entries.mpr hmem

/-- A store adds its entry and no other, and only with a resource handle. -/
theorem mem_store {c : InodeCache} {fd : Option BackingFile} {entry : FileKey → CacheEntry}
    {e : CacheEntry} (h : e ∈ (c.store fd entry).entries) :
    e ∈ c.entries ∨ ∃ key, e = entry key ∧ (entry key).resHandle ≠ 0 := by
  unfold store at h
  split at h
  · rename_i key _
    split at h
    · exact .inl h
    · rename_i hres
      rcases List.mem_or_eq_of_mem_set (mem_entries.mp h) with hold | hnew
      · exact .inl (mem_entries.mpr hold)
      · exact .inr ⟨key, Option.some.inj hnew, hres⟩
  · exact .inl h

/-! ### Stores with room -/

theorem lookup_eq_get (c : InodeCache) (file : BackingFile) :
    c.lookup (some file) = c.get file.key := rfl

theorem get_empty (key : FileKey) : empty.get key = none := by
  refine List.findSome?_eq_none_iff.mpr fun slot hslot => ?_
  rw [List.eq_of_mem_replicate hslot]
  rfl

theorem filled_empty : empty.filled = 0 := by
  refine List.countP_eq_zero.mpr fun slot hslot => ?_
  rw [List.eq_of_mem_replicate hslot]
  exact Bool.false_ne_true

/-- A slot is searched for an entry of a file exactly if it holds one. -/
theorem filter_eq_none_iff {key : FileKey} {slot : Option CacheEntry} :
    (slot.filter fun e => e.key = key) = none ↔ holds key slot = false := by
  cases slot with
  | none => simp [holds]
  | some e => simp [holds, Option.filter_some]

theorem get_eq_none_iff {c : InodeCache} {key : FileKey} :
    c.get key = none ↔ ∀ slot ∈ c.slots, holds key slot = false := by
  unfold get
  rw [List.findSome?_eq_none_iff]
  exact forall₂_congr fun slot _ => filter_eq_none_iff

/-- The first slot with a property splits the slots. -/
theorem split_of_findIdx? {slots : List (Option CacheEntry)} {p : Option CacheEntry → Bool} {i : ℕ}
    (h : slots.findIdx? p = some i) :
    ∃ front slot back, slots = front ++ slot :: back ∧ front.length = i ∧ p slot = true ∧
      ∀ s ∈ front, p s = false := by
  obtain ⟨hlt, hslot, hbefore⟩ := List.findIdx?_eq_some_iff_getElem.mp h
  refine ⟨slots.take i, slots[i], slots.drop (i + 1), ?_, ?_, hslot, ?_⟩
  · rw [List.getElem_cons_drop, List.take_append_drop]
  · rw [List.length_take]
    omega
  · intro s hs
    obtain ⟨j, hj, rfl⟩ := List.mem_take_iff_getElem.mp hs
    exact (Bool.not_eq_true _).mp (hbefore j (by omega))

/-- Where an entry goes while there is room: to the first slot of its file, or to the first that is
empty if the file has none. -/
theorem slotFor_split {c : InodeCache} {key : FileKey}
    (hroom : (c.get key).isSome ∨ c.filled < inodeCacheSize) :
    ∃ front slot back, c.slots = front ++ slot :: back ∧ c.slotFor key = front.length ∧
      (∀ s ∈ front, holds key s = false) ∧
      (holds key slot = true ∨ slot = none ∧ c.get key = none) := by
  unfold slotFor
  cases hold : c.slots.findIdx? (holds key) with
  | some i =>
    obtain ⟨front, slot, back, hslots, rfl, hslot, hfront⟩ := split_of_findIdx? hold
    exact ⟨front, slot, back, hslots, rfl, hfront, .inl hslot⟩
  | none =>
    have hnone := List.findIdx?_eq_none_iff.mp hold
    have hget := get_eq_none_iff.mpr hnone
    cases hempty : c.slots.findIdx? Option.isNone with
    | some i =>
      obtain ⟨front, slot, back, hslots, rfl, hslot, -⟩ := split_of_findIdx? hempty
      refine ⟨front, slot, back, hslots, rfl, fun s hs => hnone s ?_,
        .inr ⟨Option.isNone_iff_eq_none.mp hslot, hget⟩⟩
      rw [hslots]
      exact List.mem_append_left _ hs
    | none =>
      -- no slot is empty: all of them are filled
      have hall := List.findIdx?_eq_none_iff.mp hempty
      have hfilled : c.filled = inodeCacheSize := by
        rw [← c.length_eq]
        refine List.countP_eq_length.mpr fun slot hslot => ?_
        rw [← Option.not_isNone, hall slot hslot]
        rfl
      rcases hroom with hsome | hlt
      · rw [hget] at hsome
        cases hsome
      · exact absurd hfilled hlt.ne

/-- **A store with room.**  The file has the new entry, the other files have what they had, and a
slot more is filled only if the file had none. -/
theorem store_spec {c : InodeCache} {file : BackingFile} {entry : FileKey → CacheEntry}
    (hkey : (entry file.key).key = file.key) (hres : (entry file.key).resHandle ≠ 0)
    (hroom : (c.get file.key).isSome ∨ c.filled < inodeCacheSize) :
    (c.store (some file) entry).get = Function.update c.get file.key (some (entry file.key)) ∧
      (c.store (some file) entry).filled ≤
        c.filled + if (c.get file.key).isSome then 0 else 1 := by
  obtain ⟨front, slot, back, hslots, hat, hfront, hslot⟩ := slotFor_split hroom
  have hstored : (c.store (some file) entry).slots =
      front ++ some (entry file.key) :: back := by
    unfold store
    show (if _ then c else _).slots = _
    rw [if_neg hres]
    show c.slots.set _ _ = _
    rw [hat, hslots, List.set_append_right _ _ le_rfl, Nat.sub_self, List.set_cons_zero]
  constructor
  · funext key
    unfold get
    rw [hstored, hslots, List.findSome?_append, List.findSome?_cons]
    by_cases hsame : key = file.key
    · subst hsame
      have hnone : (front.findSome? fun s => s.filter fun e => e.key = file.key) = none :=
        List.findSome?_eq_none_iff.mpr fun s hs => filter_eq_none_iff.mpr (hfront s hs)
      rw [Function.update_self, hnone, Option.none_or, Option.filter_some, hkey,
        if_pos (decide_eq_true rfl)]
    · -- neither the old nor the new entry of the slot is one of this file
      have hnew : ((some (entry file.key)).filter fun e => e.key = key) = none := by
        rw [Option.filter_some, hkey, if_neg]
        exact fun heq => hsame (of_decide_eq_true heq).symm
      have hold : (slot.filter fun e => e.key = key) = none := by
        rcases hslot with hholds | ⟨rfl, -⟩
        · obtain ⟨e, rfl, he⟩ := Option.any_eq_true _ _ |>.mp hholds
          rw [Option.filter_some, of_decide_eq_true he, if_neg]
          exact fun heq => hsame (of_decide_eq_true heq).symm
        · rfl
      rw [Function.update_of_ne hsame, hnew, List.findSome?_append, List.findSome?_cons, hold]
  · unfold filled
    rw [hstored, hslots, List.countP_append, List.countP_append, List.countP_cons, List.countP_cons]
    rcases hslot with hholds | ⟨rfl, hget⟩
    · obtain ⟨e, rfl, -⟩ := Option.any_eq_true _ _ |>.mp hholds
      simp
    · rw [hget]
      simp only [Option.isSome_some, Option.isSome_none, if_true, if_false, Bool.false_eq_true]
      omega

end InodeCache

end Wldroid.DrmShim
