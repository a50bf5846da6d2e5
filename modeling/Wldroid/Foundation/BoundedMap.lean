import Mathlib.Data.Finmap
import Wldroid.Foundation.Keyed
import Wldroid.Foundation.SwapRemove

/-!
# Bounded finite maps and the tables that hold them

A finite map with at most so many keys, and lists of records with a key as its tables.

* **`BoundedMap`** — a finite map that never exceeds its bound: putting a new key into a full one
  changes nothing;
* **`Represents`** — a list of records with distinct keys holds a map;
* `Represents.updateFirst`, `Represents.append`, `Represents.swapRemove` — the three ways a table is
  changed, and the map it holds then.
-/

namespace Wldroid.Foundation

variable {κ β : Type} [DecidableEq κ] {bound : ℕ}

/-- A finite map with at most `bound` keys. -/
structure BoundedMap (κ β : Type) [DecidableEq κ] (bound : ℕ) where
  map : Finmap fun _ : κ => β
  fits : map.keys.card ≤ bound

theorem keys_insert (k : κ) (b : β) (m : Finmap fun _ : κ => β) :
    (m.insert k b).keys = insert k m.keys := by
  ext a
  rw [Finmap.mem_keys, Finmap.mem_insert, Finset.mem_insert, Finmap.mem_keys]

namespace BoundedMap

/-- The value of a key. -/
def get (m : BoundedMap κ β bound) (k : κ) : Option β := m.map.lookup k

/-- No keys. -/
def empty : BoundedMap κ β bound := ⟨∅, Nat.zero_le bound⟩

/-- Whether a key is there, or can be added. -/
def Room (m : BoundedMap κ β bound) (k : κ) : Prop := k ∈ m.map ∨ m.map.keys.card < bound

instance (m : BoundedMap κ β bound) (k : κ) : Decidable (m.Room k) :=
  inferInstanceAs (Decidable (k ∈ m.map ∨ m.map.keys.card < bound))

theorem Room.fits {m : BoundedMap κ β bound} {k : κ} (h : m.Room k) (b : β) :
    (m.map.insert k b).keys.card ≤ bound := by
  rw [keys_insert]
  rcases h with hin | hlt
  · rw [Finset.insert_eq_of_mem (Finmap.mem_keys.mpr hin)]
    exact m.fits
  · exact (Finset.card_insert_le k m.map.keys).trans hlt

/-- Give a key a value, if it is there or can be added. -/
def put (m : BoundedMap κ β bound) (k : κ) (b : β) : BoundedMap κ β bound :=
  if h : m.Room k then ⟨m.map.insert k b, h.fits b⟩ else m

/-- Take a key out. -/
def erase (m : BoundedMap κ β bound) (k : κ) : BoundedMap κ β bound where
  map := m.map.erase k
  fits := by
    rw [Finmap.keys_erase]
    exact Finset.card_erase_le.trans m.fits

theorem map_put {m : BoundedMap κ β bound} {k : κ} (h : m.Room k) (b : β) :
    (m.put k b).map = m.map.insert k b := by
  unfold put
  rw [dif_pos h]

theorem put_eq_self {m : BoundedMap κ β bound} {k : κ} (h : ¬ m.Room k) (b : β) :
    m.put k b = m := by
  unfold put
  rw [dif_neg h]

end BoundedMap

/-! ### Tables -/

section Tables

variable {α : Type} {key : α → κ} {val : α → β}

/-- Change the first element with key `k`. -/
def updateFirst (key : α → κ) (k : κ) (f : α → α) : List α → List α
  | [] => []
  | a :: rest => if key a = k then f a :: rest else a :: updateFirst key k f rest

/-- Among distinct keys the first element with a key is the only one. -/
theorem updateFirst_eq_update (k : κ) (f : α → α) {l : List α} (hnodup : (l.map key).Nodup) :
    updateFirst key k f l = update key k f l := by
  induction l with
  | nil => rfl
  | cons a rest ih =>
    rw [List.map_cons, List.nodup_cons] at hnodup
    show (if key a = k then f a :: rest else a :: updateFirst key k f rest) =
      (if key a = k then f a else a) :: update key k f rest
    by_cases ha : key a = k
    · have hrest : update key k f rest = rest := by
        unfold update
        rw [List.map_congr_left (g := id), List.map_id]
        intro b hb
        have hne : key b ≠ k := fun heq => hnodup.1 (ha ▸ heq ▸ List.mem_map_of_mem hb)
        exact if_neg hne
      rw [if_pos ha, if_pos ha, hrest]
    · rw [if_neg ha, if_neg ha, ih hnodup.2]

/-- A list of records with distinct keys holds a map. -/
structure Represents (key : α → κ) (val : α → β) (l : List α) (m : Finmap fun _ : κ => β) :
    Prop where
  nodup : (l.map key).Nodup
  get_eq : ∀ k, (lookup key k l).map val = m.lookup k

variable {l : List α} {m : Finmap fun _ : κ => β}

theorem represents_nil : Represents key val ([] : List α) ∅ := by
  refine ⟨List.nodup_nil, fun k => ?_⟩
  rw [Finmap.lookup_empty]
  rfl

/-- A key is in the table exactly when it is in the map. -/
theorem Represents.mem_iff (h : Represents key val l m) (k : κ) : k ∈ l.map key ↔ k ∈ m := by
  rw [← Finmap.lookup_isSome, ← h.get_eq k, Option.isSome_map, ← not_iff_not,
    ← (lookup_eq_none_iff : lookup key k l = none ↔ _), Bool.not_eq_true, Option.isSome_eq_false_iff,
    Option.isNone_iff_eq_none]

/-- A table has an element for every key of its map. -/
theorem Represents.length_eq (h : Represents key val l m) : l.length = m.keys.card := by
  have hkeys : m.keys = (l.map key).toFinset := by
    ext k
    rw [Finmap.mem_keys, List.mem_toFinset, h.mem_iff k]
  rw [hkeys, List.toFinset_card_of_nodup h.nodup, List.length_map]

/-- The element under a key gets a new value. -/
theorem Represents.updateFirst (h : Represents key val l m) {k : κ} {b : β} {f : α → α}
    (hkey : ∀ a, key (f a) = key a) (hval : ∀ a, val (f a) = b) (hin : k ∈ m) :
    Represents key val (updateFirst key k f l) (m.insert k b) := by
  rw [updateFirst_eq_update k f h.nodup]
  have hsame : ∀ a, key (if key a = k then f a else a) = key a := by
    intro a
    split
    · exact hkey a
    · rfl
  refine ⟨?_, fun k' => ?_⟩
  · rw [map_key_update hkey]
    exact h.nodup
  · have hlookup : lookup key k' (update key k f l) =
        (lookup key k' l).map fun a => if key a = k then f a else a := lookup_map hsame k' l
    rw [hlookup, Option.map_map]
    by_cases hk : k' = k
    · subst hk
      obtain ⟨b', hb'⟩ := Finmap.mem_iff.mp hin
      obtain ⟨a, ha, -⟩ := Option.map_eq_some_iff.mp ((h.get_eq k').trans hb')
      rw [Finmap.lookup_insert, ha]
      show some (val (if key a = k' then f a else a)) = some b
      rw [if_pos (mem_of_lookup ha).2, hval]
    · rw [Finmap.lookup_insert_of_ne m hk, ← h.get_eq k']
      cases ha : lookup key k' l with
      | none => rfl
      | some a =>
        show some (val (if key a = k then f a else a)) = some (val a)
        rw [if_neg fun heq => hk ((mem_of_lookup ha).2 ▸ heq)]

/-- A record under a new key goes to the end. -/
theorem Represents.append (h : Represents key val l m) {a : α} (hnew : key a ∉ m) :
    Represents key val (l ++ [a]) (m.insert (key a) (val a)) := by
  have hnodup : ((l ++ [a]).map key).Nodup := by
    rw [List.map_append, List.map_singleton, ← List.concat_eq_append]
    exact List.nodup_concat _ _ |>.mpr ⟨fun hin => hnew ((h.mem_iff _).mp hin), h.nodup⟩
  refine ⟨hnodup, fun k => ?_⟩
  by_cases hk : k = key a
  · subst hk
    have hlookup : lookup key (key a) (l ++ [a]) = some a :=
      (lookup_eq_some_iff hnodup).mpr ⟨by simp, rfl⟩
    rw [hlookup, Finmap.lookup_insert]
    rfl
  · have hlookup : lookup key k (l ++ [a]) = lookup key k l := by
      ext x
      rw [lookup_eq_some_iff hnodup, lookup_eq_some_iff h.nodup,
        List.mem_append, List.mem_singleton]
      constructor
      · rintro ⟨hx | rfl, hkey⟩
        · exact ⟨hx, hkey⟩
        · exact absurd hkey.symm hk
      · rintro ⟨hx, hkey⟩
        exact ⟨.inl hx, hkey⟩
    rw [hlookup, Finmap.lookup_insert_of_ne m hk]
    exact h.get_eq k

/-- The last element takes the place of a removed one. -/
theorem Represents.swapRemove [DecidableEq α] (h : Represents key val l m) {k : κ} {a : α}
    (ha : lookup key k l = some a) :
    Represents key val (swapRemove l a) (m.erase k) := by
  obtain ⟨hmem, hkey⟩ := mem_of_lookup ha
  have hl : l.Nodup := h.nodup.of_map
  have hnodup : ((Foundation.swapRemove l a).map key).Nodup :=
    ((swapRemove_perm l a).map key).nodup_iff.mpr (h.nodup.sublist (List.erase_sublist.map key))
  refine ⟨hnodup, fun k' => ?_⟩
  have hlookup : lookup key k' (Foundation.swapRemove l a) =
      if k' = k then none else lookup key k' l := by
    ext x
    rw [lookup_eq_some_iff hnodup, mem_swapRemove hl]
    by_cases hk : k' = k
    · rw [if_pos hk]
      refine ⟨?_, fun hx => by simp at hx⟩
      rintro ⟨⟨hne, hx⟩, hkey'⟩
      exact absurd (List.inj_on_of_nodup_map h.nodup hx hmem (by rw [hkey', hk, hkey])) hne
    · rw [if_neg hk, lookup_eq_some_iff h.nodup]
      refine ⟨fun hx => ⟨hx.1.2, hx.2⟩, fun hx => ⟨⟨?_, hx.1⟩, hx.2⟩⟩
      rintro rfl
      exact hk (hx.2.symm.trans hkey)
  rw [hlookup]
  by_cases hk : k' = k
  · rw [if_pos hk, hk, Finmap.lookup_erase]
    rfl
  · rw [if_neg hk, Finmap.lookup_erase_ne hk]
    exact h.get_eq k'

end Tables

end Wldroid.Foundation
