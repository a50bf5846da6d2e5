import Mathlib.Tactic

/-!
# Lists of records with a key

A list whose elements carry distinct keys is a finite map that also has an order.  `lookup` finds an
element by its key, `update` changes the element with a key, `moveToFront` puts it first and
`remove` takes it out.  Under distinct keys `lookup` is exactly membership (`lookup_eq_some_iff`),
so it does not depend on the order (`lookup_perm`).
-/

namespace Wldroid.Foundation

variable {α κ : Type} [DecidableEq κ] {key : α → κ}

/-- The first element with key `k`. -/
def lookup (key : α → κ) (k : κ) (l : List α) : Option α := l.find? fun a => key a = k

/-- Change the elements with key `k`. -/
def update (key : α → κ) (k : κ) (f : α → α) (l : List α) : List α :=
  l.map fun a => if key a = k then f a else a

/-- Take out the elements with key `k`. -/
def remove (key : α → κ) (k : κ) (l : List α) : List α := l.filter fun a => key a ≠ k

/-- Put the elements with key `k` first, in the order of the list otherwise. -/
def moveToFront (key : α → κ) (k : κ) (l : List α) : List α :=
  (l.filter fun a => key a = k) ++ remove key k l

theorem mem_of_lookup {k : κ} {l : List α} {a : α} (h : lookup key k l = some a) :
    a ∈ l ∧ key a = k :=
  ⟨List.mem_of_find?_eq_some h, by simpa using List.find?_some h⟩

/-- With distinct keys, an element is found under its own key. -/
theorem lookup_eq_some_iff {l : List α} (hnodup : (l.map key).Nodup) {k : κ} {a : α} :
    lookup key k l = some a ↔ a ∈ l ∧ key a = k := by
  constructor
  · exact mem_of_lookup
  · rintro ⟨hmem, rfl⟩
    cases hfind : lookup key (key a) l with
    | none =>
      have hnone := List.find?_eq_none.mp hfind a hmem
      simp at hnone
    | some b =>
      obtain ⟨hb, hkey⟩ := mem_of_lookup hfind
      rw [List.inj_on_of_nodup_map hnodup hb hmem hkey]

theorem lookup_eq_none_iff {k : κ} {l : List α} : lookup key k l = none ↔ k ∉ l.map key := by
  simp [lookup, List.find?_eq_none]

/-- A change that keeps the keys changes what is found and nothing else. -/
theorem lookup_map {f : α → α} (hf : ∀ a, key (f a) = key a) (k : κ) (l : List α) :
    lookup key k (l.map f) = (lookup key k l).map f := by
  unfold lookup
  rw [List.find?_map]
  congr 2
  funext a
  show decide (key (f a) = k) = decide (key a = k)
  rw [hf a]

theorem map_key_update {f : α → α} (hf : ∀ a, key (f a) = key a) (k : κ) (l : List α) :
    (update key k f l).map key = l.map key := by
  unfold update
  rw [List.map_map]
  apply List.map_congr_left
  intro a _
  show key (if key a = k then f a else a) = key a
  split
  · exact hf a
  · rfl

theorem moveToFront_perm (k : κ) (l : List α) : (moveToFront key k l).Perm l := by
  have hremove : remove key k l = l.filter fun a => !decide (key a = k) := by
    unfold remove
    apply List.filter_congr
    intro a _
    by_cases h : key a = k <;> simp [h]
  rw [moveToFront, hremove]
  exact List.filter_append_perm _ l

theorem remove_sublist (k : κ) (l : List α) : (remove key k l).Sublist l := List.filter_sublist

theorem nodup_remove {l : List α} (h : (l.map key).Nodup) (k : κ) :
    ((remove key k l).map key).Nodup :=
  ((remove_sublist k l).map key).nodup h

/-- What is found after a change of the elements with one key. -/
theorem lookup_update {f : α → α} (hf : ∀ a, key (f a) = key a) (k j : κ) (l : List α) :
    lookup key j (update key k f l)
      = if j = k then (lookup key k l).map f else lookup key j l := by
  have hkey : ∀ a, key (if key a = k then f a else a) = key a := by
    intro a
    split
    · exact hf a
    · rfl
  rw [update, lookup_map hkey]
  cases hfind : lookup key j l with
  | none =>
    split
    · rename_i hj
      rw [← hj, hfind]
      rfl
    · rfl
  | some a =>
    obtain ⟨-, ha⟩ := mem_of_lookup hfind
    rw [Option.map_some, ha]
    split
    · rename_i hj
      rw [← hj, hfind]
      rfl
    · rfl

/-- An element added under a key that was not there is found there, and nothing else changes. -/
theorem lookup_concat {l : List α} {a : α} (hnew : lookup key (key a) l = none) (k : κ) :
    lookup key k (l ++ [a]) = if k = key a then some a else lookup key k l := by
  unfold lookup at hnew ⊢
  rw [List.find?_append]
  split
  · rename_i hk
    rw [hk, hnew]
    simp
  · rename_i hk
    rw [List.find?_singleton, if_neg (by simpa using Ne.symm hk), Option.or_none]

theorem lookup_remove (k j : κ) (l : List α) :
    lookup key j (remove key k l) = if j = k then none else lookup key j l := by
  unfold lookup remove
  rw [List.find?_filter]
  split
  · rename_i hj
    rw [List.find?_eq_none]
    intro a _
    simp [hj]
  · rename_i hj
    congr 1
    funext a
    by_cases ha : key a = j
    · simp [ha, hj]
    · simp [ha]

/-- Under distinct keys, a filter keeps what it accepts. -/
theorem lookup_filter {l : List α} (hnodup : (l.map key).Nodup) (p : α → Bool) (k : κ) :
    lookup key k (l.filter p) = (lookup key k l).filter p := by
  have hfiltered : ((l.filter p).map key).Nodup := (List.filter_sublist.map key).nodup hnodup
  apply Option.ext
  intro a
  rw [lookup_eq_some_iff hfiltered, Option.filter_eq_some_iff, lookup_eq_some_iff hnodup,
    List.mem_filter]
  exact and_right_comm

/-- Under distinct keys, the list is the element with a key and the rest. -/
theorem perm_cons_remove {l : List α} (hnodup : (l.map key).Nodup) {k : κ} {a : α}
    (h : lookup key k l = some a) : l.Perm (a :: remove key k l) := by
  induction l with
  | nil => cases h
  | cons b l ih =>
    obtain ⟨hb, hrest⟩ := List.nodup_cons.mp hnodup
    by_cases hkey : key b = k
    · have hfound : lookup key k (b :: l) = some b := List.find?_cons_of_pos (decide_eq_true hkey)
      obtain rfl := Option.some.inj (hfound.symm.trans h)
      have hkeep : remove key k l = l := List.filter_eq_self.mpr fun c hc => by
        rw [decide_eq_true_iff]
        exact fun heq => hb (hkey.trans heq.symm ▸ List.mem_map_of_mem hc)
      have hskip : remove key k (b :: l) = remove key k l :=
        List.filter_cons_of_neg (by simpa using hkey)
      rw [hskip, hkeep]
    · have hfound : lookup key k (b :: l) = lookup key k l :=
        List.find?_cons_of_neg (by simpa using hkey)
      have hkeep : remove key k (b :: l) = b :: remove key k l :=
        List.filter_cons_of_pos (by simpa using hkey)
      rw [hkeep]
      exact ((ih hrest (hfound ▸ h)).cons b).trans (List.Perm.swap a b _)

/-- The others are not changed. -/
theorem remove_update (k : κ) {f : α → α} (hf : ∀ a, key (f a) = key a) (l : List α) :
    remove key k (update key k f l) = remove key k l := by
  induction l with
  | nil => rfl
  | cons b l ih =>
    by_cases hkey : key b = k
    · have hskip : remove key k (b :: l) = remove key k l :=
        List.filter_cons_of_neg (by simpa using hkey)
      have hskip' : remove key k (update key k f (b :: l)) = remove key k (update key k f l) := by
        show remove key k ((if key b = k then f b else b) :: update key k f l) = _
        rw [if_pos hkey]
        exact List.filter_cons_of_neg (by simpa [hf b] using hkey)
      rw [hskip, hskip', ih]
    · have hkeep : remove key k (b :: l) = b :: remove key k l :=
        List.filter_cons_of_pos (by simpa using hkey)
      have hkeep' : remove key k (update key k f (b :: l)) =
          b :: remove key k (update key k f l) := by
        show remove key k ((if key b = k then f b else b) :: update key k f l) = _
        rw [if_neg hkey]
        exact List.filter_cons_of_pos (by simpa using hkey)
      rw [hkeep, hkeep', ih]

/-- A change of the element with a key. -/
theorem perm_update {l : List α} (hnodup : (l.map key).Nodup) {k : κ} {a : α}
    (h : lookup key k l = some a) {f : α → α} (hf : ∀ a, key (f a) = key a) :
    (update key k f l).Perm (f a :: remove key k l) := by
  have hnodup' : ((update key k f l).map key).Nodup := by rwa [map_key_update hf]
  have hmem := (mem_of_lookup h).1
  have hfound : lookup key k (update key k f l) = some (f a) := by
    refine (lookup_eq_some_iff hnodup').mpr ⟨List.mem_map.mpr ⟨a, hmem, ?_⟩, ?_⟩
    · exact if_pos (mem_of_lookup h).2
    · rw [hf, (mem_of_lookup h).2]
  rw [← remove_update k hf]
  exact perm_cons_remove hnodup' hfound

end Wldroid.Foundation
