import Wldroid.Proot.RootfsExtractor

/-!
# What an extraction touches

Only the canonical path of an entry is checked.  It stays inside the destination as long as the
links on it do; but the target of a hard link is not checked at all, a canonical path can end in a
link that leads to nothing yet, and the deferred hard links use paths from before later entries.

* `Contained` — nothing outside the destination has been touched;
* `PathsLeadInside` — the paths a step uses lead inside, as the links are before the step;
* `Confined` — the invariant, kept by every file operation inside;
* `contained_of_pathsLeadInside` — a run whose steps use such paths touches nothing outside;
* `contained_of_noLinks` — so does a run over an archive without links.
-/

namespace Wldroid.Proot

open Wldroid.Foundation

variable {canonicalDest : List Name} {stripComponents : ℤ}

/-! ### The property -/

/-- Everything touched is inside the destination, and so are all names of the files written to. -/
def Contained (canonicalDest : List Name) (s : Extraction) : Prop :=
  (∀ loc ∈ s.touched, canonicalDest <+: loc) ∧
    ∀ inode ∈ s.written, ∀ loc, s.tree.node loc = some (.file inode) → canonicalDest <+: loc

/-- Whatever is on the path from the destination on really lies inside. -/
def LinksInside (canonicalDest : List Name) (t : FileTree Name) (p : List Name) : Prop :=
  ∀ q, canonicalDest <+: q → q <+: p → ∀ loc, (t.follow q).real = some loc → canonicalDest <+: loc

/-- The target of a hard link is inside, if there is one. -/
def TargetInside (canonicalDest : List Name) (t : FileTree Name) (target : List Name) : Prop :=
  (t.follow target).real.isSome → canonicalDest <+: target ∧ LinksInside canonicalDest t target

/-- A path that is written to leads to a file inside, or to where one can be created. -/
def OpensInside (canonicalDest : List Name) (t : FileTree Name) (p : List Name) : Prop :=
  match t.follow p with
  | .file loc _ | .absent loc => canonicalDest <+: loc
  | .dir _ _ | .missing | .loop => True

/-- It can be tried with every part of the path. -/
instance (t : FileTree Name) (p : List Name) : Decidable (LinksInside canonicalDest t p) :=
  decidable_of_iff
    (∀ q ∈ p.inits, canonicalDest <+: q → ∀ loc ∈ (t.follow q).real, canonicalDest <+: loc)
    ⟨fun h q hq hp loc hloc => h q (List.mem_inits q p |>.mpr hp) hq loc hloc,
      fun h q hp hq loc hloc => h q hq (List.mem_inits q p |>.mp hp) loc hloc⟩

instance (t : FileTree Name) (target : List Name) :
    Decidable (TargetInside canonicalDest t target) :=
  inferInstanceAs (Decidable (_ → _))

instance (t : FileTree Name) (p : List Name) : Decidable (OpensInside canonicalDest t p) :=
  decidable_of_iff
    (∀ loc ∈ (t.follow p).landing, (t.follow p).isDir = false → canonicalDest <+: loc) (by
      unfold OpensInside
      cases t.follow p <;> simp [Walked.landing, Walked.isDir])

/-- The paths of a step lead inside, as the links are before it: those directories are made on, that
of the file written to, and those of a hard link, also when its turn comes only after the
archive. -/
def PathsLeadInside (canonicalDest : List Name) (stripComponents : ℤ) (s : Extraction) :
    ExtractEvent → Prop
  | .entry entry => ∀ name outFile, entryName stripComponents entry.name = some name →
      s.canonicalFile canonicalDest name = some outFile →
        LinksInside canonicalDest s.tree
          (if entry.kind = .directory then outFile else outFile.dropLast)
  | .act _ => ∀ entry outFile, s.phase = .acting entry outFile →
      match entry.kind with
      | .directory => True
      | .symbolicLink => LinksInside canonicalDest s.tree outFile.dropLast
      | .link => LinksInside canonicalDest s.tree outFile.dropLast ∧
          ∀ linkTarget, s.canonicalFile canonicalDest
            (stripLinkTarget entry.linkName entry.name stripComponents) = some linkTarget →
              TargetInside canonicalDest s.tree linkTarget
      | .regular => OpensInside canonicalDest s.tree outFile
  | .endOfArchive => True
  | .link _ => ∀ outFile linkTarget rest, s.deferredHardLinks = (outFile, linkTarget) :: rest →
      LinksInside canonicalDest s.tree outFile.dropLast ∧
        TargetInside canonicalDest s.tree linkTarget

/-! ### The invariant -/

/-- Nothing outside has been touched, no file inside has a name outside, and the way to the
destination is there. -/
structure Confined (canonicalDest : List Name) (s : Extraction) : Prop where
  contained : Contained canonicalDest s
  closed : s.tree.Closed
  anchored : ∀ q, q <+: canonicalDest → q ≠ canonicalDest → s.tree.IsDir q
  dest : canonicalDest ≠ []
  apart : ∀ loc loc' inode, s.tree.node loc = some (.file inode) →
    s.tree.node loc' = some (.file inode) → canonicalDest <+: loc → canonicalDest <+: loc'
  inodes : ∀ loc inode, s.tree.node loc = some (.file inode) → inode < s.nextInode

section Operations

variable {s : Extraction}

/-- A location inside is no location on the way to the destination. -/
theorem ne_of_above {q loc : List Name} (hq : q <+: canonicalDest) (hne : q ≠ canonicalDest)
    (hloc : canonicalDest <+: loc) : q ≠ loc := by
  rintro rfl
  exact hne (hq.eq_of_length_le hloc.length_le)

theorem Confined.phase (h : Confined canonicalDest s) (phase : Phase) (failed : List Name)
    (deferred : List (List Name × List Name)) :
    Confined canonicalDest
      { s with phase := phase, failedSymlinks := failed, deferredHardLinks := deferred } :=
  ⟨h.contained, h.closed, h.anchored, h.dest, h.apart, h.inodes⟩

theorem Confined.setPermissions (h : Confined canonicalDest s) (p : List Name) (mode : ℕ) :
    Confined canonicalDest (s.setPermissions p mode) := by
  unfold Extraction.setPermissions
  split
  · exact ⟨h.contained, h.closed, h.anchored, h.dest, h.apart, h.inodes⟩
  · exact h
  · exact h
  · exact h
  · exact h

theorem Confined.touch (h : Confined canonicalDest s) {loc : List Name}
    (hloc : canonicalDest <+: loc) :
    Confined canonicalDest (s.touch loc) := by
  refine ⟨⟨fun other hother => ?_, h.contained.2⟩, h.closed, h.anchored, h.dest, h.apart, h.inodes⟩
  rcases List.mem_append.mp hother with hold | hnew
  · exact h.contained.1 other hold
  · exact List.mem_singleton.mp hnew ▸ hloc

/-- Another tree whose changes are inside. -/
theorem Confined.change (h : Confined canonicalDest s) {t : FileTree Name} (hclosed : t.Closed)
    (hsame : ∀ loc, ¬ canonicalDest <+: loc → t.node loc = s.tree.node loc)
    (hold : ∀ loc inode, t.node loc = some (.file inode) →
      ∃ loc', s.tree.node loc' = some (.file inode) ∧
        (canonicalDest <+: loc ↔ canonicalDest <+: loc')) :
    Confined canonicalDest { s with tree := t } where
  contained := by
    refine ⟨h.contained.1, fun inode hinode loc hloc => ?_⟩
    obtain ⟨loc', hnode, hiff⟩ := hold loc inode hloc
    exact hiff.mpr (h.contained.2 inode hinode loc' hnode)
  closed := hclosed
  anchored := by
    intro q hq hne
    rcases h.anchored q hq hne with hnil | hdir
    · exact .inl hnil
    · right
      show t.node q = _
      rw [hsame q fun hinside => ne_of_above hq hne hinside rfl, hdir]
  dest := h.dest
  apart := by
    intro loc loc' inode hloc hloc' hinside
    obtain ⟨old, hnode, hiff⟩ := hold loc inode hloc
    obtain ⟨old', hnode', hiff'⟩ := hold loc' inode hloc'
    exact hiff'.mpr (h.apart old old' inode hnode hnode' (hiff.mp hinside))
  inodes := by
    intro loc inode hloc
    obtain ⟨old, hnode, _⟩ := hold loc inode hloc
    exact h.inodes old inode hnode

/-- A node is put inside, where nothing is; if it is a file, it is one that has a name inside. -/
theorem Confined.create (h : Confined canonicalDest s) {parent : List Name} {n : Name}
    (hinside : canonicalDest <+: parent ++ [n]) (hparent : s.tree.IsDir parent)
    (hnone : s.tree.node (parent ++ [n]) = none) {x : FileNode Name}
    (hx : ∀ inode, x = .file inode →
      ∃ source, s.tree.node source = some (.file inode) ∧ canonicalDest <+: source) :
    Confined canonicalDest (s.create (parent ++ [n]) x) := by
  refine (h.touch hinside).change (h.closed.put hparent hnone x) (fun loc hloc => ?_)
    fun loc inode hnode => ?_
  · rw [node_put, Function.update_of_ne]
    · rfl
    · rintro rfl
      exact hloc hinside
  · rw [node_put] at hnode
    by_cases hnew : loc = parent ++ [n]
    · rw [hnew, Function.update_self] at hnode
      obtain ⟨source, hsource, hin⟩ := hx inode (Option.some.inj hnode)
      exact ⟨source, hsource, iff_of_true (hnew ▸ hinside) hin⟩
    · rw [Function.update_of_ne hnew] at hnode
      exact ⟨loc, hnode, .rfl⟩

/-- A new file is written inside. -/
theorem Confined.createFile (h : Confined canonicalDest s) {parent : List Name} {n : Name}
    (hinside : canonicalDest <+: parent ++ [n]) (hparent : s.tree.IsDir parent)
    (hnone : s.tree.node (parent ++ [n]) = none) :
    Confined canonicalDest
      { s.create (parent ++ [n]) (.file s.nextInode) with
        nextInode := s.nextInode + 1
        access := Function.update s.access s.nextInode .created
        written := s.written ++ [s.nextInode] } := by
  have hcases : ∀ loc inode,
      (s.tree.put (parent ++ [n]) (.file s.nextInode)).node loc = some (.file inode) →
        loc = parent ++ [n] ∧ inode = s.nextInode ∨
          s.tree.node loc = some (.file inode) ∧ inode < s.nextInode := by
    intro loc inode hnode
    rw [node_put] at hnode
    by_cases hnew : loc = parent ++ [n]
    · rw [hnew, Function.update_self] at hnode
      exact .inl ⟨hnew, (FileNode.file.inj (Option.some.inj hnode)).symm⟩
    · rw [Function.update_of_ne hnew] at hnode
      exact .inr ⟨hnode, h.inodes loc inode hnode⟩
  refine ⟨⟨(h.touch hinside).contained.1, fun inode hinode loc hloc => ?_⟩,
    h.closed.put hparent hnone _, fun q hq hne => ?_, h.dest, fun loc loc' inode hloc hloc' hin => ?_,
    fun loc inode hloc => ?_⟩
  · rcases hcases loc inode hloc with ⟨rfl, _⟩ | ⟨hold, hlt⟩
    · exact hinside
    · rcases List.mem_append.mp hinode with hwritten | hnew
      · exact h.contained.2 inode hwritten loc hold
      · have := List.mem_singleton.mp hnew
        omega
  · rcases h.anchored q hq hne with hnil | hdir
    · exact .inl hnil
    · right
      show (s.tree.put (parent ++ [n]) _).node q = _
      rw [node_put, Function.update_of_ne (ne_of_above hq hne hinside), hdir]
  · rcases hcases loc inode hloc with ⟨rfl, hnew⟩ | ⟨hold, hlt⟩
    · rcases hcases loc' inode hloc' with ⟨rfl, _⟩ | ⟨_, hlt'⟩
      · exact hinside
      · omega
    · rcases hcases loc' inode hloc' with ⟨rfl, _⟩ | ⟨hold', _⟩
      · exact hinside
      · exact h.apart loc loc' inode hold hold' hin
  · rcases hcases loc inode hloc with ⟨_, hnew⟩ | ⟨_, hlt⟩
    · rw [hnew]
      exact Nat.lt_succ_self _
    · exact Nat.lt_succ_of_lt hlt

/-- What has nothing below it is removed inside. -/
theorem Confined.remove (h : Confined canonicalDest s) {loc : List Name}
    (hinside : canonicalDest <+: loc) (hempty : ∀ n, s.tree.node (loc ++ [n]) = none) :
    Confined canonicalDest (s.remove loc) := by
  refine (h.touch hinside).change (h.closed.erase hempty) (fun other hother => ?_)
    fun other inode hnode => ?_
  · rw [node_erase, Function.update_of_ne]
    · rfl
    · rintro rfl
      exact hother hinside
  · exact ⟨other, sub_erase s.tree loc other _ hnode, .rfl⟩

/-- Missing directories are made inside. -/
theorem Confined.mkdirs (h : Confined canonicalDest s) {p : List Name}
    (hinside : ∀ loc ∈ s.tree.newDirs p, canonicalDest <+: loc) :
    Confined canonicalDest (s.mkdirs p) := by
  have hchanged := h.change (h.closed.mkdirs p) (fun loc hloc => ?_) fun loc inode hnode => ?_
  · refine ⟨⟨fun loc hloc => ?_, hchanged.contained.2⟩, hchanged.closed, hchanged.anchored, h.dest,
      hchanged.apart, hchanged.inodes⟩
    rcases List.mem_append.mp hloc with hold | hnew
    · exact h.contained.1 loc hold
    · exact hinside loc hnew
  · rw [node_mkdirs, if_neg fun hnew => hloc (hinside loc hnew)]
  · rw [node_mkdirs] at hnode
    split at hnode
    · cases hnode
    · exact ⟨loc, hnode, .rfl⟩

/-- A file inside is written to. -/
theorem Confined.write (h : Confined canonicalDest s) {loc : List Name} {inode : ℕ}
    (hinside : canonicalDest <+: loc) (hnode : s.tree.node loc = some (.file inode)) :
    Confined canonicalDest { s.touch loc with written := s.written ++ [inode] } := by
  refine ⟨⟨(h.touch hinside).contained.1, fun other hother loc' hloc' => ?_⟩, h.closed, h.anchored,
    h.dest, h.apart, h.inodes⟩
  rcases List.mem_append.mp hother with hold | hnew
  · exact h.contained.2 other hold loc' hloc'
  · rw [List.mem_singleton.mp hnew] at hloc'
    exact h.apart loc loc' inode hnode hloc' hinside

/-! ### Paths -/

theorem LinksInside.of_sub {t t' : FileTree Name} {p : List Name} (h : LinksInside canonicalDest t p)
    (hsub : t'.Sub t) : LinksInside canonicalDest t' p := by
  intro q hq hp loc hloc
  refine h q hq hp loc ?_
  have hsame : t.follow q = t'.follow q := by
    refine walk_sub hsub ?_
    rw [show (t'.walk maxLinks [] (plain q)).real = _ from hloc]
    rfl
  rw [hsame, hloc]

/-- The way to the destination leads to itself. -/
theorem Confined.follow_ancestor (h : Confined canonicalDest s) {q : List Name}
    (hq : q <+: canonicalDest) (hne : q ≠ canonicalDest) : s.tree.follow q = .dir q maxLinks := by
  refine walk_dirs fun r hr hnil => ?_
  have hproper : r ≠ canonicalDest := by
    rintro rfl
    exact hne (hq.eq_of_length_le hr.length_le)
  rcases h.anchored r (hr.trans hq) hproper with hroot | hdir
  · exact absurd hroot hnil
  · exact hdir

theorem dropLast_ne_dest (h : Confined canonicalDest s) :
    canonicalDest.dropLast <+: canonicalDest ∧ canonicalDest.dropLast ≠ canonicalDest := by
  refine ⟨List.dropLast_prefix _, fun hsame => h.dest ?_⟩
  have hlen := congrArg List.length hsame
  rw [List.length_dropLast] at hlen
  exact List.length_eq_zero_iff.mp (by omega)

/-- A path inside is that of the destination, or its parent is inside. -/
theorem eq_or_prefix_dropLast {p : List Name} (hp : canonicalDest <+: p) :
    p = canonicalDest ∨ canonicalDest <+: p.dropLast := by
  obtain ⟨rest, rfl⟩ := hp
  rcases List.eq_nil_or_concat' rest with rfl | ⟨rest, n, rfl⟩
  · exact .inl (List.append_nil _)
  · right
    rw [← List.append_assoc, List.dropLast_concat]
    exact List.prefix_append _ _

/-- What an operation that does not follow the last name of a path works on. -/
theorem Confined.place (h : Confined canonicalDest s) {p loc : List Name} (hp : canonicalDest <+: p)
    (hlinks : LinksInside canonicalDest s.tree p.dropLast) (hplace : s.tree.place p = some loc) :
    ∃ parent n links, loc = parent ++ [n] ∧ p = p.dropLast ++ [n] ∧
      s.tree.follow p.dropLast = .dir parent links ∧ s.tree.IsDir parent ∧
      canonicalDest <+: loc := by
  unfold FileTree.place at hplace
  split at hplace
  · rename_i n parent links hlast hfollow
    obtain rfl := Option.some.inj hplace
    have hp' : p = p.dropLast ++ [n] := (List.dropLast_append_getLast? n hlast).symm
    refine ⟨parent, n, links, rfl, hp', hfollow, h.closed.isDir_follow hfollow, ?_⟩
    rcases eq_or_prefix_dropLast hp with hsame | hinside
    · -- the destination itself, in its parent
      obtain ⟨habove, hne⟩ := dropLast_ne_dest h
      rw [hsame, h.follow_ancestor habove hne] at hfollow
      obtain ⟨rfl, _⟩ := Walked.dir.inj hfollow
      rw [hsame] at hp'
      exact hp' ▸ List.prefix_rfl
    · have hparent := hlinks p.dropLast hinside List.prefix_rfl parent (by rw [hfollow]; rfl)
      exact hparent.trans (List.prefix_append _ _)
  · cases hplace

/-- All of the way to the destination is there: what is there of a path through it is no less. -/
theorem Confined.take_eq_dropLast (h : Confined canonicalDest s) {p : List Name} {k : ℕ}
    (hway : canonicalDest.dropLast <+: p) (hk : k < canonicalDest.length)
    (hmax : ∀ j ≤ p.length, k < j → (s.tree.follow (p.take j)).real = none) :
    p.take k = canonicalDest.dropLast := by
  obtain ⟨habove, hproper⟩ := dropLast_ne_dest h
  have hlen : canonicalDest.dropLast.length = canonicalDest.length - 1 := List.length_dropLast
  have hthere : ¬ k < canonicalDest.length - 1 := by
    intro hlt
    have hnone := hmax (canonicalDest.length - 1) (hlen ▸ hway.length_le) hlt
    rw [← hlen, ← List.prefix_iff_eq_take.mp hway, h.follow_ancestor habove hproper] at hnone
    cases hnone
  rw [List.prefix_iff_eq_take.mp hway, hlen]
  congr 1
  omega

/-- The path through the destination has its name after the way to it. -/
theorem Confined.eq_dropLast_append (h : Confined canonicalDest s) {p rest : List Name} {n : Name}
    (hdest : canonicalDest <+: p) (hp : p = canonicalDest.dropLast ++ n :: rest) :
    canonicalDest.dropLast ++ [n] = canonicalDest := by
  have hlen : canonicalDest.dropLast.length = canonicalDest.length - 1 := List.length_dropLast
  have hpos : 0 < canonicalDest.length := List.length_pos_iff.mpr h.dest
  have hfirst : canonicalDest.dropLast ++ [n] <+: p :=
    ⟨rest, (hp.trans (List.append_cons _ _ _)).symm⟩
  have hsame : (canonicalDest.dropLast ++ [n]).length = canonicalDest.length := by
    rw [List.length_append, hlen, List.length_singleton]
    omega
  exact (List.prefix_of_prefix_length_le hfirst hdest hsame.le).eq_of_length hsame

/-- Directories that are missing on a path inside are missing inside. -/
theorem Confined.newDirs (h : Confined canonicalDest s) {p outFile : List Name}
    (hp : canonicalDest <+: outFile) (hpath : p = outFile ∨ p = outFile.dropLast)
    (hlinks : LinksInside canonicalDest s.tree p) :
    ∀ loc ∈ s.tree.newDirs p, canonicalDest <+: loc := by
  have hout : p <+: outFile := by
    rcases hpath with rfl | rfl
    · exact List.prefix_rfl
    · exact List.dropLast_prefix _
  intro l hl
  rcases newDirs_cases s.tree p with hnil | ⟨k, loc, links, n, rest, hwalk, hdrop, _, hmax, hdirs⟩
  · rw [hnil] at hl
    cases hl
  rw [hdirs, mem_locationsBelow] at hl
  obtain ⟨q, hq, hne, rfl⟩ := hl
  have hk : k < p.length := by
    have hlen := congrArg List.length hdrop
    simp only [List.length_drop, List.length_cons] at hlen
    omega
  have hlen : (p.take k).length = k := by
    rw [List.length_take]
    omega
  by_cases hin : canonicalDest <+: p.take k
  · have hloc := hlinks (p.take k) hin (List.take_prefix k p) loc (by rw [hwalk]; rfl)
    exact hloc.trans (List.prefix_append _ _)
  · -- all of the way to the destination is there, so that it is the first directory to be made
    obtain ⟨habove, hproper⟩ := dropLast_ne_dest h
    have hshort : k < canonicalDest.length := by
      by_contra hge
      exact hin (List.prefix_of_prefix_length_le hp ((List.take_prefix k p).trans hout) (by omega))
    have hway : canonicalDest.dropLast <+: p := by
      rcases hpath with rfl | rfl
      · exact habove.trans hp
      · rcases eq_or_prefix_dropLast hp with heq | hin
        · rw [heq]
        · exact habove.trans hin
    have htake := h.take_eq_dropLast hway hshort hmax
    rw [htake, h.follow_ancestor habove hproper] at hwalk
    obtain ⟨rfl, _⟩ := Walked.dir.inj hwalk
    obtain ⟨m, q, rfl⟩ := List.exists_cons_of_ne_nil hne
    obtain ⟨rfl, _⟩ := List.cons_prefix_cons.mp hq
    have hdest : canonicalDest <+: p := List.prefix_of_prefix_length_le hp hout (by
      have := congrArg List.length htake
      rw [hlen, List.length_dropLast] at this
      omega)
    have hsplit : p = canonicalDest.dropLast ++ m :: rest := by
      rw [← hdrop, ← htake, List.take_append_drop]
    rw [List.append_cons, h.eq_dropLast_append hdest hsplit]
    exact List.prefix_append _ _

theorem LinksInside.of_prefix {t : FileTree Name} {p q : List Name}
    (h : LinksInside canonicalDest t p) (hq : q <+: p) : LinksInside canonicalDest t q :=
  fun r hr hrq => h r hr (hrq.trans hq)

/-! ### Operations inside -/

theorem Confined.delete (h : Confined canonicalDest s) {p : List Name} (hp : canonicalDest <+: p)
    (hlinks : LinksInside canonicalDest s.tree p.dropLast) :
    Confined canonicalDest (s.delete p) ∧ (s.delete p).tree.Sub s.tree ∧
      ∀ loc, s.tree.place p = some loc →
        (s.delete p).tree.node loc = none ∨ (s.delete p).tree.node loc = some .dir := by
  unfold Extraction.delete
  cases hplace : s.tree.place p with
  | none => exact ⟨h, fun _ _ => id, fun loc hloc => by cases hloc⟩
  | some loc =>
    obtain ⟨parent, n, links, rfl, _, _, hparent, hinside⟩ := h.place hp hlinks hplace
    have hremove : (∀ m, s.tree.node (parent ++ [n] ++ [m]) = none) →
        Confined canonicalDest (s.remove (parent ++ [n])) ∧
          (s.remove (parent ++ [n])).tree.Sub s.tree ∧
          ∀ loc, some (parent ++ [n]) = some loc →
            (s.remove (parent ++ [n])).tree.node loc = none ∨
              (s.remove (parent ++ [n])).tree.node loc = some .dir := by
      intro hempty
      refine ⟨h.remove hinside hempty, sub_erase s.tree _, fun loc hloc => .inl ?_⟩
      cases hloc
      show (s.tree.erase (parent ++ [n])).node _ = none
      rw [node_erase, Function.update_self]
    have hleaf : s.tree.node (parent ++ [n]) ≠ some .dir →
        ∀ m, s.tree.node (parent ++ [n] ++ [m]) = none :=
      fun hnode m => h.closed.below (by simp) hnode (List.cons_ne_nil m [])
    simp only
    cases hnode : s.tree.node (parent ++ [n]) with
    | none =>
      refine ⟨h, fun _ _ => id, fun loc hloc => .inl ?_⟩
      cases hloc
      exact hnode
    | some x =>
      cases x with
      | dir =>
        simp only
        split
        · rename_i hempty
          exact hremove fun m => node_of_isEmpty s.tree _ hempty (List.cons_ne_nil m [])
        · refine ⟨h, fun _ _ => id, fun loc hloc => .inr ?_⟩
          cases hloc
          exact hnode
      | file inode => exact hremove (hleaf (by rw [hnode]; simp))
      | link target => exact hremove (hleaf (by rw [hnode]; simp))

theorem Confined.createSymbolicLink (h : Confined canonicalDest s) {p : List Name}
    (hp : canonicalDest <+: p) (hlinks : LinksInside canonicalDest s.tree p.dropLast) {target : Name}
    {allowed : Bool} {s' : Extraction} (hs' : s.createSymbolicLink p target allowed = some s') :
    Confined canonicalDest s' := by
  unfold Extraction.createSymbolicLink at hs'
  split at hs'
  · rename_i loc hplace
    obtain ⟨parent, n, links, rfl, _, _, hparent, hinside⟩ := h.place hp hlinks hplace
    split at hs'
    · rename_i hcond
      obtain rfl := Option.some.inj hs'
      simp only [Bool.and_eq_true, Option.isNone_iff_eq_none] at hcond
      exact h.create hinside hparent hcond.1.1 fun inode hx => by cases hx
    · cases hs'
  · cases hs'

theorem Confined.createLink (h : Confined canonicalDest s) {p target : List Name}
    (hp : canonicalDest <+: p) (hlinks : LinksInside canonicalDest s.tree p.dropLast)
    (htarget : canonicalDest <+: target)
    (htlinks : LinksInside canonicalDest s.tree target.dropLast) {allowed : Bool} {s' : Extraction}
    (hs' : s.createLink p target allowed = some s') : Confined canonicalDest s' := by
  unfold Extraction.createLink at hs'
  split at hs'
  · rename_i loc source hplace hsource
    obtain ⟨parent, n, links, rfl, _, _, hparent, hinside⟩ := h.place hp hlinks hplace
    obtain ⟨_, _, _, _, _, _, _, hsourceInside⟩ := h.place htarget htlinks hsource
    split at hs'
    · rename_i hcond
      simp only [Bool.and_eq_true, Option.isNone_iff_eq_none] at hcond
      split at hs'
      · rename_i inode hnode
        obtain rfl := Option.some.inj hs'
        refine (h.touch hsourceInside).create hinside hparent hcond.1 fun other hx => ?_
        cases hx
        exact ⟨source, hnode, hsourceInside⟩
      · obtain rfl := Option.some.inj hs'
        exact (h.touch hsourceInside).create hinside hparent hcond.1 fun other hx => by cases hx
      · cases hs'
      · cases hs'
    · cases hs'
  · cases hs'

theorem Confined.fileOutputStream (h : Confined canonicalDest s) {p : List Name}
    (hopens : OpensInside canonicalDest s.tree p) :
    Confined canonicalDest (s.fileOutputStream p).1 := by
  have hspec := h.closed.follow p
  unfold OpensInside at hopens
  unfold Extraction.fileOutputStream
  cases hfollow : s.tree.follow p with
  | file loc inode =>
    rw [hfollow] at hspec hopens
    simp only
    split
    · exact h.write hopens hspec
    · exact h
  | absent loc =>
    rw [hfollow] at hspec hopens
    obtain ⟨hnone, parent, n, rfl, hparent⟩ := hspec
    exact h.createFile hopens hparent hnone
  | dir loc links => exact h
  | missing => exact h
  | loop => exact h

/-- Where a file is opened after its parent directories have been made, if there is no link. -/
theorem Confined.opensInside_mkdirs (h : Confined canonicalDest s) {p : List Name}
    (hp : canonicalDest <+: p) (hlinks : LinksInside canonicalDest s.tree p.dropLast)
    (hnolink : ∀ loc target, s.tree.place p = some loc → s.tree.node loc ≠ some (.link target)) :
    OpensInside canonicalDest (s.tree.mkdirs p.dropLast) p := by
  have hne : p ≠ [] := by
    rintro rfl
    exact h.dest (List.prefix_nil.mp hp)
  obtain ⟨q, n, rfl⟩ := (List.eq_nil_or_concat' p).resolve_left hne
  rw [List.dropLast_concat] at hlinks ⊢
  unfold OpensInside
  rw [follow_append _ q (List.cons_ne_nil n [])]
  cases hfollow : (s.tree.mkdirs q).follow q with
  | dir loc links =>
    -- its directory was there before, or is new
    have hinside : canonicalDest <+: loc ++ [n] ∧
        ∀ target, (s.tree.mkdirs q).node (loc ++ [n]) ≠ some (.link target) := by
      rcases h.closed.follow_mkdirs List.prefix_rfl hfollow with hold | hnew
      · have hplace : s.tree.place (q ++ [n]) = some (loc ++ [n]) := by
          unfold FileTree.place
          rw [List.getLast?_concat, List.dropLast_concat, hold]
        obtain ⟨_, _, _, _, _, _, _, hin⟩ :=
          h.place hp (by rwa [List.dropLast_concat]) hplace
        refine ⟨hin, fun target hnode => ?_⟩
        rw [node_mkdirs] at hnode
        split at hnode
        · cases hnode
        · exact hnolink _ target hplace hnode
      · have hin := h.newDirs hp (.inr (List.dropLast_concat).symm) hlinks loc hnew
        refine ⟨hin.trans (List.prefix_append _ _), fun target hnode => ?_⟩
        rw [node_mkdirs] at hnode
        split at hnode
        · cases hnode
        · have hnone := h.closed.newDirs hnew
          have hloc : loc ≠ [] := by
            rintro rfl
            exact h.dest (List.prefix_nil.mp hin)
          rw [h.closed.below hloc (by rw [hnone]; simp) (List.cons_ne_nil n [])] at hnode
          cases hnode
    show match (s.tree.mkdirs q).walk links loc [.name n] with
      | .file loc _ | .absent loc => canonicalDest <+: loc
      | .dir _ _ | .missing | .loop => True
    rw [walk_name]
    cases hnode : (s.tree.mkdirs q).node (loc ++ [n]) with
    | none => exact hinside.1
    | some x =>
      cases x with
      | dir => simp
      | file inode => exact hinside.1
      | link target => exact absurd hnode (hinside.2 target)
  | file loc inode => trivial
  | absent loc => trivial
  | missing => trivial
  | loop => trivial

theorem Confined.copyTo (h : Confined canonicalDest s) {source p : List Name}
    (hp : canonicalDest <+: p) (hlinks : LinksInside canonicalDest s.tree p.dropLast)
    (hsource : canonicalDest <+: source) (hslinks : LinksInside canonicalDest s.tree source)
    (hnolink : ∀ loc target, s.tree.place p = some loc → s.tree.node loc ≠ some (.link target)) :
    Confined canonicalDest (s.copyTo source p).1 := by
  unfold Extraction.copyTo
  split
  · exact h
  simp only
  -- after the old file is gone
  obtain ⟨hdeleted, hsub, _⟩ := h.delete hp hlinks
  obtain ⟨u, hu, huconf, husub⟩ : ∃ u, (if s.exists p then s.delete p else s) = u ∧
      Confined canonicalDest u ∧ u.tree.Sub s.tree := by
    split
    · exact ⟨_, rfl, hdeleted, hsub⟩
    · exact ⟨_, rfl, h, fun _ _ => id⟩
  rw [hu]
  have hulinks := hlinks.of_sub husub
  split
  · exact huconf
  rename_i hgone
  have hall : LinksInside canonicalDest u.tree p := by
    intro q hq hqp loc hloc
    by_cases hsame : q = p
    · rw [hsame] at hloc
      exact absurd (show u.exists p = true by unfold Extraction.exists; rw [hloc]; rfl) hgone
    · refine hulinks q hq ?_ loc hloc
      refine List.prefix_of_prefix_length_le hqp (List.dropLast_prefix p) ?_
      have hlt := lt_of_le_of_ne hqp.length_le fun heq => hsame (hqp.eq_of_length heq)
      rw [List.length_dropLast]
      omega
  split
  · exact huconf.mkdirs (huconf.newDirs hp (.inl rfl) hall)
  · rename_i loc inode hfollow
    have hmade := huconf.mkdirs (huconf.newDirs hp (.inr rfl) hulinks)
    have hfrom : canonicalDest <+: loc := by
      refine hslinks source hsource List.prefix_rfl loc ?_
      have hsame : s.tree.follow source = u.tree.follow source := walk_sub husub (by
        rw [show u.tree.walk maxLinks [] (plain source) = _ from hfollow]
        rfl)
      rw [hsame, hfollow]
      rfl
    split
    · refine (hmade.touch hfrom).fileOutputStream ?_
      refine huconf.opensInside_mkdirs hp hulinks fun place target hplace hnode => ?_
      exact hnolink place target (place_sub husub hplace) (husub _ _ hnode)
    · exact hmade
  · exact huconf
  · exact huconf
  · exact huconf

/-- **A hard link or its copy** inside, to a target inside. -/
theorem Confined.linkOrCopy (h : Confined canonicalDest s) {outFile linkTarget : List Name}
    (hp : canonicalDest <+: outFile) (hlinks : LinksInside canonicalDest s.tree outFile.dropLast)
    (htarget : canonicalDest <+: linkTarget) (htlinks : LinksInside canonicalDest s.tree linkTarget)
    (allowed : Bool) : Confined canonicalDest (s.linkOrCopy outFile linkTarget allowed) := by
  obtain ⟨hdeleted, hsub, hleft⟩ := h.delete hp hlinks
  have hlinks' := hlinks.of_sub hsub
  have htlinks' := htlinks.of_sub hsub
  unfold Extraction.linkOrCopy
  simp only
  split
  · rename_i s' hs'
    exact hdeleted.createLink hp hlinks' htarget
      (htlinks'.of_prefix (List.dropLast_prefix _)) hs'
  · have hcopied := hdeleted.copyTo hp hlinks' htarget htlinks' fun loc target hplace hnode => ?_
    · split
      · rename_i s' heq
        rw [heq] at hcopied
        exact hcopied
      · rename_i s' heq
        rw [heq] at hcopied
        exact hcopied.phase _ _ _
    · -- a link would have been deleted
      rcases hleft loc (place_sub hsub hplace) with hnone | hdir
      · rw [hnone] at hnode
        cases hnode
      · rw [hdir] at hnode
        cases hnode

end Operations

/-! ### Steps -/

/-- What is confined, and the paths that are kept from step to step, which have been checked. -/
structure ExtractInv (canonicalDest : List Name) (s : Extraction) : Prop where
  confined : Confined canonicalDest s
  acting : ∀ entry outFile, s.phase = .acting entry outFile → canonicalDest <+: outFile
  deferred : ∀ pair ∈ s.deferredHardLinks, canonicalDest <+: pair.1

/-- The same point of the same loops, with the same links deferred. -/
def Extraction.job (s : Extraction) : Phase × List (List Name × List Name) :=
  (s.phase, s.deferredHardLinks)

section Steps

variable {s t : Extraction}

theorem delete_job (s : Extraction) (p : List Name) : (s.delete p).job = s.job := by
  unfold Extraction.delete
  split
  · rfl
  · split
    · rfl
    · split <;> rfl
    · rfl
    · rfl

theorem createSymbolicLink_job {p : List Name} {target : Name} {allowed : Bool}
    (h : s.createSymbolicLink p target allowed = some t) : t.job = s.job := by
  unfold Extraction.createSymbolicLink at h
  split at h
  · split at h <;> cases h
    rfl
  · cases h

theorem createLink_job {p target : List Name} {allowed : Bool}
    (h : s.createLink p target allowed = some t) : t.job = s.job := by
  unfold Extraction.createLink at h
  split at h
  · split at h
    · split at h <;> cases h <;> rfl
    · cases h
  · cases h

theorem fileOutputStream_job (s : Extraction) (p : List Name) :
    (s.fileOutputStream p).1.job = s.job := by
  unfold Extraction.fileOutputStream
  split
  · split
    · rfl
    · rfl
  · rfl
  · rfl
  · rfl
  · rfl

theorem setPermissions_job (s : Extraction) (p : List Name) (mode : ℕ) :
    (s.setPermissions p mode).job = s.job := by
  unfold Extraction.setPermissions
  split <;> rfl

theorem copyTo_job (s : Extraction) (source target : List Name) :
    (s.copyTo source target).1.job = s.job := by
  unfold Extraction.copyTo
  split
  · rfl
  · simp only
    obtain ⟨u, hu, hold⟩ : ∃ u, (if s.exists target then s.delete target else s) = u ∧
        u.job = s.job := by
      refine ⟨_, rfl, ?_⟩
      split
      · exact delete_job s target
      · rfl
    rw [hu]
    split
    · exact hold
    · split
      · exact hold
      · split
        · exact (fileOutputStream_job _ _).trans hold
        · exact hold
      · exact hold
      · exact hold
      · exact hold

/-- A link leaves the loop where it is, or throws. -/
theorem linkOrCopy_job (s : Extraction) (outFile linkTarget : List Name) (allowed : Bool) :
    (s.linkOrCopy outFile linkTarget allowed).deferredHardLinks = s.deferredHardLinks ∧
      ((s.linkOrCopy outFile linkTarget allowed).phase = s.phase ∨
        (s.linkOrCopy outFile linkTarget allowed).phase = .thrown) := by
  have hdeleted := delete_job s outFile
  unfold Extraction.linkOrCopy
  simp only
  split
  · rename_i u hu
    obtain ⟨hphase, hdeferred⟩ := Prod.mk.inj ((createLink_job hu).trans hdeleted)
    exact ⟨hdeferred, .inl hphase⟩
  · have hcopied := (copyTo_job (s.delete outFile) linkTarget outFile).trans hdeleted
    split
    · rename_i u hu
      rw [hu] at hcopied
      obtain ⟨hphase, hdeferred⟩ := Prod.mk.inj hcopied
      exact ⟨hdeferred, .inl hphase⟩
    · rename_i u hu
      rw [hu] at hcopied
      obtain ⟨_, hdeferred⟩ := Prod.mk.inj hcopied
      exact ⟨hdeferred, .inr rfl⟩

theorem ExtractInv.throw (h : ExtractInv canonicalDest s) : ExtractInv canonicalDest s.throw :=
  ⟨h.confined.phase _ _ _, (fun _ _ hphase => by cases hphase), h.deferred⟩

/-- A new state in which nothing is to be done for an entry. -/
theorem ExtractInv.of_job (h : ExtractInv canonicalDest s) (ht : Confined canonicalDest t)
    (hphase : ∀ entry outFile, t.phase ≠ .acting entry outFile)
    (hdeferred : t.deferredHardLinks = s.deferredHardLinks) : ExtractInv canonicalDest t :=
  ⟨ht, fun entry outFile hacting => absurd hacting (hphase entry outFile), hdeferred ▸ h.deferred⟩

theorem ExtractInv.setPermissions (h : ExtractInv canonicalDest s) (p : List Name) (mode : ℕ) :
    ExtractInv canonicalDest (s.setPermissions p mode) := by
  obtain ⟨hphase, hdeferred⟩ := Prod.mk.inj (setPermissions_job s p mode)
  exact ⟨h.confined.setPermissions p mode,
    fun entry outFile hacting => h.acting entry outFile (hphase.symm.trans hacting),
    fun pair hpair => h.deferred pair (hdeferred ▸ hpair)⟩

theorem ExtractInv.nextEntry (h : ExtractInv canonicalDest s) (hreading : s.phase = .reading)
    {entry : TarEntry} (hguard : PathsLeadInside canonicalDest stripComponents s (.entry entry)) :
    ExtractInv canonicalDest (s.nextEntry canonicalDest stripComponents entry) := by
  unfold Extraction.nextEntry
  cases hname : entryName stripComponents entry.name with
  | none => exact h
  | some name =>
    simp only
    cases hfile : s.canonicalFile canonicalDest name with
    | none => exact h.throw
    | some outFile =>
      simp only
      split
      · exact h.throw
      rename_i hinside
      replace hinside := not_not.mp hinside
      have hlinks := hguard name outFile hname hfile
      -- a directory is made with its parents, anything else after them
      have hparents : entry.kind ≠ .directory → ExtractInv canonicalDest
          { s.mkdirs outFile.dropLast with phase := .acting entry outFile } := by
        intro hkind
        rw [if_neg hkind] at hlinks
        refine ⟨(h.confined.mkdirs (h.confined.newDirs hinside (.inr rfl) hlinks)).phase _ _ _,
          fun entry' outFile' hacting => ?_, h.deferred⟩
        cases hacting
        exact hinside
      cases hkind : entry.kind with
      | directory =>
        rw [if_pos hkind] at hlinks
        refine h.of_job (h.confined.mkdirs (h.confined.newDirs hinside (.inl rfl) hlinks))
          (fun entry' outFile' hacting => ?_) rfl
        rw [show s.phase = .acting entry' outFile' from hacting] at hreading
        cases hreading
      | symbolicLink => exact hparents (by rw [hkind]; simp)
      | link => exact hparents (by rw [hkind]; simp)
      | regular => exact hparents (by rw [hkind]; simp)

theorem ExtractInv.linkOrCopy (h : ExtractInv canonicalDest s)
    (hphase : ∀ entry outFile, s.phase ≠ .acting entry outFile) {outFile linkTarget : List Name}
    (hp : canonicalDest <+: outFile) (hlinks : LinksInside canonicalDest s.tree outFile.dropLast)
    (htarget : TargetInside canonicalDest s.tree linkTarget) (hexists : s.exists linkTarget = true)
    (allowed : Bool) : ExtractInv canonicalDest (s.linkOrCopy outFile linkTarget allowed) := by
  obtain ⟨hin, htlinks⟩ := htarget hexists
  obtain ⟨hdeferred, hjob⟩ := linkOrCopy_job s outFile linkTarget allowed
  refine h.of_job (h.confined.linkOrCopy hp hlinks hin htlinks allowed)
    (fun entry outFile' hacting => ?_) hdeferred
  rcases hjob with hsame | hthrown
  · exact hphase entry outFile' (hsame.symm.trans hacting)
  · rw [hthrown] at hacting
    cases hacting

theorem ExtractInv.act (h : ExtractInv canonicalDest s) {entry : TarEntry} {outFile : List Name}
    (hacting : s.phase = .acting entry outFile) {allowed : Bool}
    (hguard : PathsLeadInside canonicalDest stripComponents s (.act allowed)) :
    ExtractInv canonicalDest (s.act canonicalDest stripComponents entry outFile allowed) := by
  have hp := h.acting entry outFile hacting
  have hread : ExtractInv canonicalDest { s with phase := .reading } :=
    h.of_job (h.confined.phase _ _ _) (fun _ _ hphase => by cases hphase) rfl
  replace hguard := hguard entry outFile hacting
  unfold Extraction.act
  cases hkind : entry.kind with
  | directory => exact hread
  | symbolicLink =>
    rw [hkind] at hguard
    obtain ⟨hdeleted, hsub, _⟩ := hread.confined.delete hp hguard
    obtain ⟨hphase, hdeferred⟩ := Prod.mk.inj (delete_job { s with phase := .reading } outFile)
    simp only
    split
    · rename_i t ht
      obtain ⟨hphase', hdeferred'⟩ := Prod.mk.inj (createSymbolicLink_job ht)
      refine hread.of_job (hdeleted.createSymbolicLink hp (hguard.of_sub hsub) ht)
        (fun entry' outFile' hacting' => ?_) (hdeferred'.trans hdeferred)
      rw [hphase', hphase] at hacting'
      cases hacting'
    · refine hread.of_job (hdeleted.phase _ _ _) (fun entry' outFile' hacting' => ?_) hdeferred
      rw [show Extraction.phase _ = _ from hphase] at hacting'
      cases hacting'
  | link =>
    rw [hkind] at hguard
    obtain ⟨hlinks, htarget⟩ := hguard
    simp only
    cases hfile : Extraction.canonicalFile canonicalDest { s with phase := .reading }
        (stripLinkTarget entry.linkName entry.name stripComponents) with
    | none => exact hread.throw
    | some linkTarget =>
      simp only
      split
      · rename_i hexists
        exact hread.linkOrCopy (fun _ _ hphase => by cases hphase) hp hlinks
          (htarget linkTarget hfile) hexists allowed
      · refine ⟨hread.confined.phase _ _ _, (fun _ _ hphase => by cases hphase),
          fun pair hpair => ?_⟩
        rcases List.mem_append.mp hpair with hold | hnew
        · exact h.deferred pair hold
        · rw [List.mem_singleton.mp hnew]
          exact hp
  | regular =>
    rw [hkind] at hguard
    have hwritten := hread.confined.fileOutputStream hguard
    obtain ⟨hphase, hdeferred⟩ :=
      Prod.mk.inj (fileOutputStream_job { s with phase := .reading } outFile)
    have hnext := hread.of_job hwritten (fun entry' outFile' hacting' => by
      rw [hphase] at hacting'
      cases hacting') hdeferred
    simp only
    split
    · rename_i t ht
      rw [ht] at hnext
      exact hnext.setPermissions _ _
    · rename_i t ht
      rw [ht] at hnext
      exact hnext.throw

theorem ExtractInv.linkDeferred (h : ExtractInv canonicalDest s) (hlinking : s.phase = .linking)
    {allowed : Bool} (hguard : PathsLeadInside canonicalDest stripComponents s (.link allowed)) :
    ExtractInv canonicalDest (s.linkDeferred allowed) := by
  unfold Extraction.linkDeferred
  cases hdeferred : s.deferredHardLinks with
  | nil => exact h.of_job (h.confined.phase _ _ _) (fun _ _ hphase => by cases hphase) hdeferred.symm
  | cons pair rest =>
    obtain ⟨outFile, linkTarget⟩ := pair
    obtain ⟨hlinks, htarget⟩ := hguard outFile linkTarget rest hdeferred
    have hnotActing : ∀ entry outFile', s.phase ≠ .acting entry outFile' := by
      intro entry outFile' hacting
      rw [hlinking] at hacting
      cases hacting
    have hp : canonicalDest <+: outFile :=
      h.deferred (outFile, linkTarget) (hdeferred ▸ List.mem_cons_self)
    have hnext : ExtractInv canonicalDest { s with deferredHardLinks := rest } :=
      ⟨h.confined.phase _ _ _, fun entry outFile' hacting => absurd hacting (hnotActing entry outFile'),
        fun pair hpair => h.deferred pair (hdeferred ▸ List.mem_cons_of_mem _ hpair)⟩
    simp only
    split
    · rename_i hexists
      exact hnext.linkOrCopy hnotActing hp hlinks htarget hexists allowed
    · exact hnext

/-- The steps, with where in the loops they are taken. -/
inductive ExtractStep (canonicalDest : List Name) (stripComponents : ℤ) (s : Extraction) :
    ExtractEvent → Extraction → Prop where
  | entry (entry : TarEntry) : s.phase = .reading →
      ExtractStep canonicalDest stripComponents s (.entry entry)
        (s.nextEntry canonicalDest stripComponents entry)
  | act {entry : TarEntry} {outFile : List Name} (allowed : Bool) :
      s.phase = .acting entry outFile →
      ExtractStep canonicalDest stripComponents s (.act allowed)
        (s.act canonicalDest stripComponents entry outFile allowed)
  | endOfArchive : s.phase = .reading →
      ExtractStep canonicalDest stripComponents s .endOfArchive s.endOfArchive
  | link (allowed : Bool) : s.phase = .linking →
      ExtractStep canonicalDest stripComponents s (.link allowed) (s.linkDeferred allowed)

theorem extractStep_of_next {e : ExtractEvent}
    (h : s.next canonicalDest stripComponents e = some t) :
    ExtractStep canonicalDest stripComponents s e t := by
  cases e with
  | entry entry =>
    simp only [Extraction.next] at h
    split at h <;> cases h
    rename_i hreading
    exact .entry entry hreading
  | act allowed =>
    simp only [Extraction.next] at h
    split at h <;> cases h
    rename_i hacting
    exact .act allowed hacting
  | endOfArchive =>
    simp only [Extraction.next] at h
    split at h <;> cases h
    rename_i hreading
    exact .endOfArchive hreading
  | link allowed =>
    simp only [Extraction.next] at h
    split at h <;> cases h
    rename_i hlinking
    exact .link allowed hlinking

/-- **Every step** whose paths lead inside touches nothing outside. -/
theorem ExtractInv.step (h : ExtractInv canonicalDest s) {e : ExtractEvent}
    (hguard : PathsLeadInside canonicalDest stripComponents s e)
    (hstep : ExtractStep canonicalDest stripComponents s e t) : ExtractInv canonicalDest t := by
  cases hstep with
  | entry entry hreading => exact h.nextEntry hreading hguard
  | act allowed hacting => exact h.act hacting hguard
  | endOfArchive hreading =>
    unfold Extraction.endOfArchive
    split
    · exact h.throw
    · exact h.of_job (h.confined.phase _ _ _) (fun _ _ hphase => by cases hphase) rfl
  | link allowed hlinking => exact h.linkDeferred hlinking hguard

theorem extractInv_of_initial (h : s.Initial canonicalDest) : ExtractInv canonicalDest s := by
  obtain ⟨hphase, ⟨_, hdeferred, htouched, hwritten⟩, hclosed, ⟨hne, hdest⟩, hempty, hinodes⟩ := h
  refine ⟨⟨⟨fun loc hloc => ?_, fun inode hinode => ?_⟩, hclosed, fun q hq hproper => ?_, hne,
    fun loc loc' inode hnode _ hinside => ?_, hinodes⟩, fun entry outFile hacting => ?_,
    fun pair hpair => ?_⟩
  · rw [htouched] at hloc
    cases hloc
  · rw [hwritten] at hinode
    cases hinode
  · obtain ⟨rest, rfl⟩ := hq
    refine hclosed.ancestor (fun hnil => hproper ?_) (by rw [hdest]; rfl)
    rw [hnil, List.append_nil]
  · -- there are no files in the destination yet
    obtain ⟨rest, rfl⟩ := hinside
    by_cases hrest : rest = []
    · rw [hrest, List.append_nil, hdest] at hnode
      cases hnode
    · rw [hempty rest hrest] at hnode
      cases hnode
  · rw [hphase] at hacting
    cases hacting
  · rw [hdeferred] at hpair
    cases hpair

end Steps

/-! ### Runs -/

/-- **What an extraction touches.**  A run whose steps use paths that lead inside touches nothing
outside the destination. -/
theorem contained_of_pathsLeadInside {s : Extraction} {run : List (ExtractEvent × Extraction)}
    (hinit : s.Initial canonicalDest)
    (hrun : (extractSystem canonicalDest stripComponents).Exec s run)
    (hguard : AllSteps (PathsLeadInside canonicalDest stripComponents) s run) :
    AllStates (Contained canonicalDest) s run :=
  System.allStates_of_allSteps (S := extractSystem canonicalDest stripComponents)
    (fun _ h => h.confined.contained)
    (fun _ _ _ h hstep hpaths => h.step hpaths (extractStep_of_next hstep))
    (extractInv_of_initial hinit) hrun hguard

/-! ### Archives without links -/

/-- The next entry, if there is one, is a directory or a regular file. -/
def LinkFree : ExtractEvent → Prop
  | .entry entry => entry.kind = .directory ∨ entry.kind = .regular
  | .act _ | .endOfArchive | .link _ => True

def NoLinks (canonicalDest : List Name) (t : FileTree Name) : Prop :=
  ∀ loc target, canonicalDest <+: loc → t.node loc ≠ some (.link target)

/-- What is kept while no entry is a link. -/
structure LinkFreeInv (canonicalDest : List Name) (s : Extraction) : Prop where
  inv : ExtractInv canonicalDest s
  noLinks : NoLinks canonicalDest s.tree
  acting : ∀ entry outFile, s.phase = .acting entry outFile → entry.kind = .regular
  deferred : s.deferredHardLinks = []

section LinkFree

variable {s t : Extraction}

/-- Without links, a path inside leads to itself or to nothing. -/
theorem Confined.landing_noLinks (h : Confined canonicalDest s)
    (hno : NoLinks canonicalDest s.tree) {p loc : List Name} (hp : canonicalDest <+: p)
    (hloc : (s.tree.follow p).landing = some loc) : loc = p := by
  have hspec : (s.tree.follow p).landing = some ([] ++ p) ∨ (s.tree.follow p).landing = none := by
    refine walk_noLinks fun q hq hne target hnode => ?_
    rw [List.nil_append] at hnode
    by_cases hin : canonicalDest <+: q
    · exact hno q target hin hnode
    · -- on the way to the destination there are directories
      have hway := (List.prefix_or_prefix_of_prefix hp hq).resolve_left hin
      have hproper : q ≠ canonicalDest := fun hsame => hin (hsame ▸ List.prefix_rfl)
      rw [(h.anchored q hway hproper).resolve_left hne] at hnode
      cases hnode
  rcases hspec with hself | hnone
  · rw [hself] at hloc
    exact (Option.some.inj hloc).symm
  · rw [hnone] at hloc
    cases hloc

theorem Confined.linksInside_of_noLinks (h : Confined canonicalDest s)
    (hno : NoLinks canonicalDest s.tree) (p : List Name) :
    LinksInside canonicalDest s.tree p := by
  intro q hq _ loc hloc
  have hland : (s.tree.follow q).landing = some loc := by
    cases hfollow : s.tree.follow q <;> rw [hfollow] at hloc <;> cases hloc <;> rfl
  exact h.landing_noLinks hno hq hland ▸ hq

theorem Confined.opensInside_of_noLinks (h : Confined canonicalDest s)
    (hno : NoLinks canonicalDest s.tree) {p : List Name} (hp : canonicalDest <+: p) :
    OpensInside canonicalDest s.tree p := by
  unfold OpensInside
  cases hfollow : s.tree.follow p with
  | file loc inode => exact h.landing_noLinks hno hp (by rw [hfollow]; rfl) ▸ hp
  | absent loc => exact h.landing_noLinks hno hp (by rw [hfollow]; rfl) ▸ hp
  | dir loc links => trivial
  | missing => trivial
  | loop => trivial

/-- Without links, the paths of every step lead inside. -/
theorem LinkFreeInv.pathsLeadInside (h : LinkFreeInv canonicalDest s) (e : ExtractEvent) :
    PathsLeadInside canonicalDest stripComponents s e := by
  have hlinks := h.inv.confined.linksInside_of_noLinks h.noLinks
  cases e with
  | entry entry => exact fun name outFile _ _ => hlinks _
  | act allowed =>
    intro entry outFile hacting
    rw [h.acting entry outFile hacting]
    exact h.inv.confined.opensInside_of_noLinks h.noLinks (h.inv.acting entry outFile hacting)
  | endOfArchive => trivial
  | link allowed =>
    intro outFile linkTarget rest hdeferred
    rw [h.deferred] at hdeferred
    cases hdeferred

theorem NoLinks.mkdirs (h : NoLinks canonicalDest s.tree) (p : List Name) :
    NoLinks canonicalDest (s.mkdirs p).tree := by
  intro loc target hin hnode
  rw [show (s.mkdirs p).tree.node loc = _ from node_mkdirs s.tree p loc] at hnode
  split at hnode
  · cases hnode
  · exact h loc target hin hnode

theorem NoLinks.fileOutputStream (h : NoLinks canonicalDest s.tree) (p : List Name) :
    NoLinks canonicalDest (s.fileOutputStream p).1.tree := by
  unfold Extraction.fileOutputStream
  split
  · split
    · exact h
    · exact h
  · rename_i loc _
    intro other target hin hnode
    replace hnode : (s.tree.put loc (.file s.nextInode)).node other = some (.link target) := hnode
    rw [node_put] at hnode
    by_cases hnew : other = loc
    · rw [hnew, Function.update_self] at hnode
      cases hnode
    · rw [Function.update_of_ne hnew] at hnode
      exact h other target hin hnode
  · exact h
  · exact h
  · exact h

theorem setPermissions_tree (s : Extraction) (p : List Name) (mode : ℕ) :
    (s.setPermissions p mode).tree = s.tree := by
  unfold Extraction.setPermissions
  split <;> rfl

/-- A new state in which nothing is to be done for an entry. -/
theorem LinkFreeInv.of_idle (hinv : ExtractInv canonicalDest t) (hno : NoLinks canonicalDest t.tree)
    (hphase : ∀ entry outFile, t.phase ≠ .acting entry outFile)
    (hdeferred : t.deferredHardLinks = []) :
    LinkFreeInv canonicalDest t :=
  ⟨hinv, hno, fun entry outFile hacting => absurd hacting (hphase entry outFile), hdeferred⟩

theorem LinkFreeInv.nextEntry (h : LinkFreeInv canonicalDest s) (hreading : s.phase = .reading)
    {entry : TarEntry} (hfree : LinkFree (.entry entry)) :
    ExtractInv canonicalDest (s.nextEntry canonicalDest stripComponents entry) →
      LinkFreeInv canonicalDest (s.nextEntry canonicalDest stripComponents entry) := by
  have hidle : ∀ entry outFile, s.phase ≠ .acting entry outFile := by
    intro entry outFile hacting
    rw [hreading] at hacting
    cases hacting
  unfold Extraction.nextEntry
  split
  · exact fun hinv => .of_idle hinv h.noLinks hidle h.deferred
  split
  · exact fun hinv => .of_idle hinv h.noLinks (fun _ _ hthrown => by cases hthrown) h.deferred
  split
  · exact fun hinv => .of_idle hinv h.noLinks (fun _ _ hthrown => by cases hthrown) h.deferred
  rcases hfree with hdir | hregular
  · rw [hdir]
    exact fun hinv => .of_idle hinv (h.noLinks.mkdirs _) hidle h.deferred
  · rw [hregular]
    refine fun hinv => ⟨hinv, h.noLinks.mkdirs _, fun entry' outFile' hacting => ?_, h.deferred⟩
    cases hacting
    exact hregular

theorem LinkFreeInv.act (h : LinkFreeInv canonicalDest s) {entry : TarEntry} {outFile : List Name}
    (hacting : s.phase = .acting entry outFile) (allowed : Bool) :
    ExtractInv canonicalDest (s.act canonicalDest stripComponents entry outFile allowed) →
      LinkFreeInv canonicalDest (s.act canonicalDest stripComponents entry outFile allowed) := by
  obtain ⟨hphase, hdeferred⟩ :=
    Prod.mk.inj (fileOutputStream_job { s with phase := .reading } outFile)
  have hno := NoLinks.fileOutputStream (s := { s with phase := .reading }) h.noLinks outFile
  unfold Extraction.act
  rw [h.acting entry outFile hacting]
  simp only
  split
  · rename_i u hu
    rw [hu] at hphase hdeferred hno
    obtain ⟨hphase', hdeferred'⟩ := Prod.mk.inj (setPermissions_job u outFile entry.mode)
    refine fun hinv => .of_idle hinv ((setPermissions_tree _ _ _).symm ▸ hno)
      (fun entry' outFile' hacting' => ?_) (hdeferred'.trans (hdeferred.trans h.deferred))
    rw [hphase', hphase] at hacting'
    cases hacting'
  · rename_i u hu
    rw [hu] at hdeferred hno
    exact fun hinv => .of_idle hinv hno (fun _ _ hthrown => by cases hthrown)
      (hdeferred.trans h.deferred)

theorem LinkFreeInv.step (h : LinkFreeInv canonicalDest s) {e : ExtractEvent} (hfree : LinkFree e)
    (hstep : ExtractStep canonicalDest stripComponents s e t) : LinkFreeInv canonicalDest t := by
  have hinv := h.inv.step (h.pathsLeadInside e) hstep
  cases hstep with
  | entry entry hreading => exact h.nextEntry hreading hfree hinv
  | act allowed hacting => exact h.act hacting allowed hinv
  | endOfArchive hreading =>
    revert hinv
    unfold Extraction.endOfArchive
    split
    · exact fun hinv => .of_idle hinv h.noLinks (fun _ _ hthrown => by cases hthrown) h.deferred
    · exact fun hinv => .of_idle hinv h.noLinks (fun _ _ hlinking => by cases hlinking) h.deferred
  | link allowed hlinking =>
    revert hinv
    unfold Extraction.linkDeferred
    rw [h.deferred]
    exact fun hinv => .of_idle hinv h.noLinks (fun _ _ hdone => by cases hdone) rfl

theorem linkFreeInv_of_initial (h : s.Initial canonicalDest) : LinkFreeInv canonicalDest s := by
  refine ⟨extractInv_of_initial h, fun loc target hin hnode => ?_, fun entry outFile hacting => ?_,
    h.nothing.2.1⟩
  · obtain ⟨q, rfl⟩ := hin
    by_cases hq : q = []
    · rw [hq, List.append_nil, h.dest.2] at hnode
      cases hnode
    · rw [h.empty q hq] at hnode
      cases hnode
  · rw [h.phase] at hacting
    cases hacting

end LinkFree

/-- **An archive without links** touches nothing outside the destination, whatever its entries are
called. -/
theorem contained_of_noLinks {s : Extraction} {run : List (ExtractEvent × Extraction)}
    (hinit : s.Initial canonicalDest)
    (hrun : (extractSystem canonicalDest stripComponents).Exec s run)
    (hfree : AllSteps (fun _ e => LinkFree e) s run) : AllStates (Contained canonicalDest) s run :=
  System.allStates_of_allSteps (S := extractSystem canonicalDest stripComponents)
    (fun _ h => h.inv.confined.contained)
    (fun _ _ _ h hstep hentry => h.step hentry (extractStep_of_next hstep))
    (linkFreeInv_of_initial hinit) hrun hfree

/-! ### A hard link -/

/-- The destination is new; there is a file outside, which may be read. -/
def freshRootfs : Extraction where
  tree := ⟨[([['d']], .dir), ([['s']], .file 0)]⟩
  nextInode := 1
  access _ := ⟨false, true, false, false⟩
  phase := .reading
  failedSymlinks := []
  deferredHardLinks := []
  touched := []
  written := []

theorem node_freshRootfs {loc : List Name} {x : FileNode Name}
    (h : freshRootfs.tree.node loc = some x) :
    loc = [['d']] ∧ x = .dir ∨ loc = [['s']] ∧ x = .file 0 := by
  obtain ⟨entry, hentry, rfl⟩ := Option.map_eq_some_iff.mp h
  have hmem := List.mem_of_find?_eq_some hentry
  have hloc := List.find?_some hentry
  simp only [freshRootfs, List.mem_cons, List.not_mem_nil, or_false] at hmem
  rcases hmem with rfl | rfl
  · exact .inl ⟨(of_decide_eq_true hloc).symm, rfl⟩
  · exact .inr ⟨(of_decide_eq_true hloc).symm, rfl⟩

theorem freshRootfs_initial : freshRootfs.Initial [['d']] where
  phase := rfl
  nothing := ⟨rfl, rfl, rfl, rfl⟩
  closed := by
    intro loc n hsome
    obtain ⟨x, hx⟩ := Option.isSome_iff_exists.mp hsome
    left
    rcases node_freshRootfs hx with ⟨hloc, _⟩ | ⟨hloc, _⟩
    · exact List.append_eq_singleton_iff.mp hloc |>.elim (·.1) fun h => by cases h.2
    · exact List.append_eq_singleton_iff.mp hloc |>.elim (·.1) fun h => by cases h.2
  dest := ⟨by decide, rfl⟩
  empty := by
    intro q hq
    rw [Option.eq_none_iff_forall_ne_some]
    intro x hx
    rcases node_freshRootfs hx with ⟨hloc, _⟩ | ⟨hloc, _⟩
    · exact hq (List.append_cancel_left (hloc.trans (List.append_nil _).symm))
    · cases hloc
  inodes := by
    intro loc inode hnode
    rcases node_freshRootfs hnode with ⟨_, hx⟩ | ⟨_, hx⟩
    · cases hx
    · cases hx
      exact Nat.zero_lt_one

/-- A file and a hard link to it. -/
def linkInside : List ExtractEvent :=
  [.entry ⟨['f'], [], .regular, 0o644⟩, .act true, .entry ⟨['g'], ['f'], .link, 0o644⟩, .act true,
    .endOfArchive, .link true]

theorem contained_linkInside :
    AllStates (Contained [['d']]) freshRootfs
      (traceNext (Extraction.next [['d']] 0) freshRootfs linkInside) := by
  refine contained_of_pathsLeadInside freshRootfs_initial (System.exec_traceNext _ _ _) ?_
  refine ⟨?_, ?_, ?_, ?_, trivial, ?_, trivial⟩
  · intro name outFile hname hfile
    cases hname
    cases hfile
    decide
  · intro entry outFile hacting
    cases hacting
    show OpensInside _ _ _
    decide
  · intro name outFile hname hfile
    cases hname
    cases hfile
    decide
  · intro entry outFile hacting
    cases hacting
    refine ⟨by decide, fun linkTarget hfile => ?_⟩
    cases hfile
    decide
  · intro outFile linkTarget rest hdeferred
    cases hdeferred

/-- A hard link to the file outside. -/
def hardLinkOutside : List ExtractEvent :=
  [.entry ⟨['f'], ['.', '.', '/', 's'], .link, 0o644⟩, .act true, .endOfArchive, .link true]

theorem hardLinkOutside_lost :
    ¬ ∀ (s : Extraction) (run : List (ExtractEvent × Extraction)), s.Initial [['d']] →
      (extractSystem [['d']] 0).Exec s run → (lastState s run).phase = .done →
        Contained [['d']] (lastState s run) := by
  intro hall
  have hlast := hall freshRootfs _ freshRootfs_initial
    (System.exec_traceNext (Extraction.Initial [['d']]) (Extraction.next [['d']] 0)
      hardLinkOutside) rfl
  have hsource := hlast.1 [['s']] (by decide)
  revert hsource
  decide

end Wldroid.Proot
