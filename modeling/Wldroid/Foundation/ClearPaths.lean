import Wldroid.Foundation.FileTree

/-!
# Paths with nothing in the way

Paths on which there are no links, and what is made and found on them.

* `FileTree.Unlinked` — no part of the path is a link: `canonicalFile_unlinked`, it is its own
  canonical form;
* `FileTree.Clear` — every part of the path is a directory or missing: `mkdirs_clear`, all of them
  are directories afterwards;
* `FileTree.Dirs` — every part is a directory: `follow_dirs`, `place_dirs` and `follow_child`.
-/

namespace Wldroid.Foundation

variable {ν : Type} [DecidableEq ν] {t : FileTree ν} {p : List ν}

/-- No part of the path is a link. -/
def FileTree.Unlinked (t : FileTree ν) (p : List ν) : Prop :=
  ∀ q, q <+: p → q ≠ [] → ∀ target, t.node q ≠ some (.link target)

/-- Every part of the path is a directory or is missing. -/
def FileTree.Clear (t : FileTree ν) (p : List ν) : Prop :=
  ∀ q, q <+: p → q ≠ [] → t.node q = none ∨ t.node q = some .dir

/-- Every part of the path is a directory. -/
def FileTree.Dirs (t : FileTree ν) (p : List ν) : Prop :=
  ∀ q, q <+: p → q ≠ [] → t.node q = some .dir

theorem FileTree.Clear.unlinked (h : t.Clear p) : t.Unlinked p := by
  intro q hq hne target hnode
  rcases h q hq hne with hnone | hdir
  · rw [hnone] at hnode
    cases hnode
  · rw [hdir] at hnode
    cases hnode

theorem FileTree.Dirs.clear (h : t.Dirs p) : t.Clear p := fun q hq hne => .inr (h q hq hne)

/-- A path to a directory is one of directories. -/
theorem FileTree.Closed.dirs (h : t.Closed) (hp : t.IsDir p) : t.Dirs p := by
  intro q hq hne
  obtain ⟨rest, rfl⟩ := hq
  by_cases hrest : rest = []
  · rw [hrest, List.append_nil] at hp
    exact hp.resolve_left hne
  · have hsome : (t.node (q ++ rest)).isSome := by
      rw [hp.resolve_left fun hnil => hne (List.append_eq_nil_iff.mp hnil).1]
      rfl
    exact (h.ancestor hrest hsome).resolve_left hne

/-- So is the path to whatever is there. -/
theorem FileTree.Closed.dirs_of_node (h : t.Closed) {n : ν} {x : FileNode ν}
    (hnode : t.node (p ++ [n]) = some x) : t.Dirs p :=
  h.dirs (h p n (by rw [hnode]; rfl))

/-! ### Where they lead -/

theorem follow_dirs (h : t.Dirs p) : t.follow p = .dir p maxLinks :=
  walk_dirs h

/-- What is in a directory is found under its name, unless it is a link. -/
theorem follow_child (h : t.Dirs p) (n : ν) :
    t.follow (p ++ [n]) = t.walk maxLinks p [.name n] := by
  rw [follow_append t p (List.cons_ne_nil n []), follow_dirs h]
  rfl

theorem place_dirs (h : t.Dirs p) (n : ν) : t.place (p ++ [n]) = some (p ++ [n]) := by
  unfold FileTree.place
  rw [List.getLast?_concat, List.dropLast_concat, follow_dirs h]

theorem follow_absent (h : t.Dirs p) {n : ν} (hnone : t.node (p ++ [n]) = none) :
    t.follow (p ++ [n]) = .absent (p ++ [n]) := by
  rw [follow_child h, walk_name, hnone]
  rfl

theorem follow_file (h : t.Dirs p) {n : ν} {inode : ℕ}
    (hfile : t.node (p ++ [n]) = some (.file inode)) :
    t.follow (p ++ [n]) = .file (p ++ [n]) inode := by
  rw [follow_child h, walk_name, hfile]
  rfl

/-- Without links there is no way around. -/
theorem walk_unlinked_ne_loop {links : ℕ} {cur : List ν} {p : List ν}
    (h : ∀ q, q <+: p → q ≠ [] → ∀ target, t.node (cur ++ q) ≠ some (.link target)) :
    t.walk links cur (plain p) ≠ .loop := by
  induction p generalizing cur with
  | nil => simp [plain]
  | cons n rest ih =>
    have hfirst := h [n] (List.prefix_append [n] rest) (List.cons_ne_nil n [])
    show t.walk links cur (.name n :: plain rest) ≠ .loop
    rw [walk_name]
    intro hloop
    cases hnode : t.node (cur ++ [n]) with
    | none =>
      rw [hnode] at hloop
      cases rest <;> cases hloop
    | some x =>
      rw [hnode] at hloop
      cases x with
      | dir =>
        refine ih (fun q hq _ target => ?_) hloop
        rw [List.append_assoc]
        exact h (n :: q) ((List.prefix_cons_inj n).mpr hq) (List.cons_ne_nil n q) target
      | file inode => cases rest <;> cases hloop
      | link target => exact absurd hnode (hfirst target)

/-- Whatever part of a path is reached, something is there or links lead around. -/
theorem reach_real_or_loop (t : FileTree ν) (path : List (PathPart ν)) (k : ℕ) :
    (t.reach path k).1.real.isSome ∨ (t.reach path k).1 = .loop := by
  induction k with
  | zero =>
    left
    rw [FileTree.reach, walk_nil]
    rfl
  | succ k ih =>
    rw [FileTree.reach]
    cases t.walk maxLinks [] (path.take (k + 1)) with
    | dir loc links => exact .inl rfl
    | file loc inode => exact .inl rfl
    | absent loc => exact ih
    | missing => exact ih
    | loop => exact .inr rfl

omit [DecidableEq ν] in
theorem collapse_plain (loc q : List ν) : collapse loc (plain q) = loc ++ q := by
  induction q generalizing loc with
  | nil => simp [collapse, plain]
  | cons n q ih =>
    show collapse (loc ++ [n]) (plain q) = _
    rw [ih, List.append_assoc]
    rfl

/-- Without links, what a path leads to is at its location. -/
theorem eq_of_follow_unlinked (h : t.Unlinked p) {loc : List ν}
    (hreal : (t.follow p).real = some loc) : loc = p := by
  have hlanding : (t.follow p).landing = some loc := by
    cases hfollow : t.follow p with
    | dir _ _ | file _ _ =>
      rw [hfollow] at hreal
      exact hreal
    | absent _ | missing | loop =>
      rw [hfollow] at hreal
      cases hreal
  rcases @walk_noLinks _ _ t maxLinks [] p h with hself | hnothing
  · exact Option.some.inj (hlanding.symm.trans hself)
  · cases hlanding.symm.trans hnothing

/-- So is the part of it that is reached. -/
theorem canonicalParent_unlinked (h : t.Unlinked p) : t.canonicalParent (plain p) = some p := by
  obtain ⟨-, hwalk, -⟩ := reach_spec t (plain p) ((plain p).length - 1)
  have hreal := reach_real_or_loop t (plain p) ((plain p).length - 1)
  have htake : ∀ j, (plain p).take j = plain (p.take j) := fun j => List.map_take.symm
  have hdrop : ∀ j, (plain p).drop j = plain (p.drop j) := fun j => List.map_drop.symm
  unfold FileTree.canonicalParent
  rcases hreach : t.reach (plain p) ((plain p).length - 1) with ⟨w, k⟩
  rw [hreach] at hwalk hreal
  simp only [htake] at hwalk
  have hpart : t.Unlinked (p.take k) := fun q hq => h q (hq.trans (List.take_prefix k p))
  have hland : ∀ loc, w.real = some loc → loc = p.take k := by
    intro loc hloc
    rw [hwalk] at hloc
    exact eq_of_follow_unlinked hpart hloc
  cases w with
  | dir loc links =>
    simp only [hland loc rfl, hdrop, collapse_plain, List.take_append_drop]
  | file loc inode =>
    simp only [hland loc rfl, hdrop, collapse_plain, List.take_append_drop]
  | absent loc => rcases hreal with hreal | hreal <;> cases hreal
  | missing => rcases hreal with hreal | hreal <;> cases hreal
  | loop => exact absurd hwalk.symm (walk_unlinked_ne_loop hpart)

/-- **A path without links is its own canonical form.** -/
theorem canonicalFile_unlinked (h : t.Unlinked p) : t.canonicalFile (plain p) = some p := by
  have hself : ∀ loc, (t.walk maxLinks [] (plain p)).real = some loc → loc = p :=
    fun _ hloc => eq_of_follow_unlinked h hloc
  unfold FileTree.canonicalFile
  split
  · rename_i loc _ hwalk
    rw [hself loc (by rw [hwalk]; rfl)]
  · rename_i loc _ hwalk
    rw [hself loc (by rw [hwalk]; rfl)]
  · exact canonicalParent_unlinked h
  · exact canonicalParent_unlinked h
  · exact canonicalParent_unlinked h

/-- Without links, a path at whose location nothing is leads to nothing. -/
theorem follow_missing (hclosed : t.Closed) (h : t.Unlinked p) (hne : p ≠ [])
    (hnone : t.node p = none) : (t.follow p).real = none := by
  have hspec := hclosed.follow p
  have hland : ∀ loc, (t.follow p).landing = some loc → loc = p := by
    intro loc hloc
    rcases @walk_noLinks _ _ t maxLinks [] p h with hself | hnothing
    · exact (Option.some.inj (hself.symm.trans hloc)).symm
    · cases hnothing.symm.trans hloc
  cases hfollow : t.follow p with
  | dir loc links =>
    rw [hfollow] at hspec hland
    obtain rfl := hland loc rfl
    cases hnone.symm.trans (hspec.resolve_left hne)
  | file loc inode =>
    rw [hfollow] at hspec hland
    obtain rfl := hland loc rfl
    cases hnone.symm.trans hspec
  | absent loc => rfl
  | missing => rfl
  | loop => rfl

/-! ### Making directories -/

/-- A clear path is there up to some part, and nothing is on the rest of it. -/
theorem FileTree.Clear.split (h : t.Closed) (hp : t.Clear p) :
    ∃ k ≤ p.length, t.Dirs (p.take k) ∧ ∀ q, q <+: p → k < q.length → t.node q = none := by
  induction p using List.reverseRecOn with
  | nil =>
    refine ⟨0, le_rfl, fun q hq hne => absurd (List.prefix_nil.mp hq) hne, fun q hq hlt => ?_⟩
    rw [List.prefix_nil.mp hq] at hlt
    exact absurd hlt (Nat.not_lt_zero _)
  | append_singleton p n ih =>
    rcases hp (p ++ [n]) List.prefix_rfl (by simp) with hnone | hdir
    · obtain ⟨k, hk, hdirs, hrest⟩ := ih fun q hq => hp q (hq.trans (List.prefix_append _ _))
      refine ⟨k, by rw [List.length_append]; omega, ?_, fun q hq hlt => ?_⟩
      · rw [List.take_append_of_le_length hk]
        exact hdirs
      · rcases List.prefix_concat_iff.mp hq with rfl | hq
        · exact hnone
        · exact hrest q hq hlt
    · refine ⟨(p ++ [n]).length, le_rfl, ?_, fun q hq hlt => ?_⟩
      · rw [List.take_length]
        exact h.dirs (.inr hdir)
      · exact absurd hq.length_le (by omega)

/-- The part of a clear path that is reached is the one that is there. -/
theorem reach_clear {k : ℕ} (hk : k ≤ p.length) (hdirs : t.Dirs (p.take k))
    (hrest : ∀ q, q <+: p → k < q.length → t.node q = none) :
    t.reach (plain p) p.length = (.dir (p.take k) maxLinks, k) := by
  have htake : ∀ j, (plain p).take j = plain (p.take j) := fun j => List.map_take.symm
  have hthere : t.walk maxLinks [] (plain (p.take k)) = .dir (p.take k) maxLinks :=
    follow_dirs hdirs
  -- beyond it, the walk ends at the first part that is missing
  have hbeyond : ∀ j, k < j → j ≤ p.length → t.walk maxLinks [] (plain (p.take j)) = .missing ∨
      ∃ loc, t.walk maxLinks [] (plain (p.take j)) = .absent loc := by
    intro j hlt hj
    obtain ⟨n, rest, hsplit⟩ : ∃ n rest, p.take j = p.take k ++ n :: rest := by
      have htakes : (p.take j).take k = p.take k := by rw [List.take_take, min_eq_left hlt.le]
      cases hdrop : (p.take j).drop k with
      | nil =>
        have hlength := congrArg List.length hdrop
        rw [List.length_drop, List.length_take, List.length_nil] at hlength
        omega
      | cons n rest => exact ⟨n, rest, by rw [← htakes, ← hdrop, List.take_append_drop]⟩
    have hnone : t.node (p.take k ++ [n]) = none := by
      refine hrest _ ?_ ?_
      · refine List.IsPrefix.trans ⟨rest, ?_⟩ (List.take_prefix j p)
        rw [hsplit, List.append_assoc]
        rfl
      · rw [List.length_append, List.length_take, min_eq_left hk]
        exact Nat.lt_succ_self k
    have hwalk : t.walk maxLinks [] (plain (p.take j)) =
        t.walk maxLinks (p.take k) (.name n :: plain rest) := by
      show t.follow (p.take j) = _
      rw [hsplit, follow_append t _ (List.cons_ne_nil n rest), follow_dirs hdirs]
      rfl
    rw [hwalk, walk_name, hnone]
    cases rest with
    | nil => exact .inr ⟨_, rfl⟩
    | cons m rest => exact .inl rfl
  have hreach : ∀ i, k + i ≤ p.length →
      t.reach (plain p) (k + i) = (.dir (p.take k) maxLinks, k) := by
    intro i hi
    induction i with
    | zero =>
      cases k with
      | zero => simp [FileTree.reach]
      | succ k =>
        show t.reach (plain p) (k + 1) = _
        rw [FileTree.reach, htake, hthere]
    | succ i ih =>
      show t.reach (plain p) (k + i + 1) = _
      rw [FileTree.reach, htake]
      rcases hbeyond (k + i + 1) (by omega) hi with hmissing | ⟨loc, habsent⟩
      · rw [hmissing]
        exact ih (by omega)
      · rw [habsent]
        exact ih (by omega)
  have hlast := hreach (p.length - k) (by omega)
  rwa [Nat.add_sub_cancel' hk] at hlast

/-- **`mkdirs` on a clear path** makes it one of directories, and changes nothing else. -/
theorem mkdirs_clear (h : t.Closed) (hp : t.Clear p) (loc : List ν) :
    (t.mkdirs p).node loc = if loc <+: p ∧ loc ≠ [] then some .dir else t.node loc := by
  obtain ⟨k, hk, hdirs, hrest⟩ := hp.split h
  have hmem : loc ∈ t.newDirs p ↔ ∃ q, q <+: p.drop k ∧ q ≠ [] ∧ loc = p.take k ++ q := by
    unfold FileTree.newDirs
    rw [reach_clear hk hdirs hrest]
    simp only
    cases hdrop : p.drop k with
    | nil => simp
    | cons n rest =>
      have hnone : t.node (p.take k ++ [n]) = none := by
        refine hrest _ ⟨rest, ?_⟩ ?_
        · rw [List.append_assoc, List.singleton_append, ← hdrop, List.take_append_drop]
        · rw [List.length_append, List.length_take, min_eq_left hk]
          exact Nat.lt_succ_self k
      simp only [hnone, Option.isNone_none, if_true, mem_locationsBelow]
  rw [node_mkdirs]
  by_cases hloc : loc <+: p ∧ loc ≠ []
  · rw [if_pos hloc]
    by_cases hlong : k < loc.length
    · rw [if_pos]
      obtain ⟨rest, hsplit⟩ := hloc.1
      refine hmem.mpr ⟨loc.drop k, ⟨rest, ?_⟩, ?_, ?_⟩
      · rw [← hsplit, List.drop_append_of_le_length hlong.le]
      · exact List.length_pos_iff.mp (by rw [List.length_drop]; omega)
      · rw [← hsplit, List.take_append_of_le_length hlong.le, List.take_append_drop]
    · have hdir : t.node loc = some .dir := by
        refine hdirs loc ?_ hloc.2
        have hprefix := List.prefix_of_prefix_length_le hloc.1 (List.take_prefix k p)
        exact hprefix (by rw [List.length_take, min_eq_left hk]; omega)
      rw [hdir, ite_self]
  · rw [if_neg hloc, if_neg]
    rintro hnew
    obtain ⟨q, hq, hne, rfl⟩ := hmem.mp hnew
    refine hloc ⟨?_, fun hnil => hne (List.append_eq_nil_iff.mp hnil).2⟩
    obtain ⟨rest, hrest'⟩ := hq
    exact ⟨rest, by rw [List.append_assoc, hrest', List.take_append_drop]⟩

end Wldroid.Foundation
