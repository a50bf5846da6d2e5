import Wldroid.Foundation.ClearPaths
import Wldroid.Proot.ArchivedTree

/-!
# Unpacking a tree

An archive of a tree is extracted without its top directory, with the contents of the files.

* `Unpacking` — an extraction with the contents that its writes leave; `unpack` — all of `extract`;
* `unpack_reachable` — its states are those of the runs of `extractSystem`;
* `linkOrCopy_spec` and its like — what a file operation does on a path with nothing in the way;
* `ArchivedTree.Shows`, `Unpacked` — what is there after some entries shows the tree, and what is
  not there yet is deferred;
* `Unpacked.read`, `Unpacked.link` — kept by an entry and by a deferred hard link;
* **`unpack_shows`** — in the end every node of the tree is there, where no link target is mistaken
  for one of the other kind.
-/

namespace Wldroid.Proot

open Wldroid.Foundation

variable {β : Type}

/-! ### Extractions with contents -/

/-- An extraction with the contents of the files, by inode. -/
structure Unpacking (β : Type) where
  state : Extraction
  content : ℕ → Option β

/-- The contents after a step in which the bytes were written to a file, if one was written to. -/
def recordWrite (content : ℕ → Option β) (before after : Extraction) (bytes : Option β) :
    ℕ → Option β :=
  match after.written.drop before.written.length with
  | [] => content
  | inode :: _ => Function.update content inode bytes

/-- What is read from the file that a path leads to. -/
def readFile (s : Extraction) (content : ℕ → Option β) (p : List Name) : Option β :=
  match s.tree.follow p with
  | .file _ inode => content inode
  | .dir _ _ | .absent _ | .missing | .loop => none

section Extract

variable (canonicalDest : List Name) (stripComponents : ℤ) (allowed : List Name → Bool)

/-- One round of the loop over the entries; `allowed` tells where the file system makes links. -/
def Unpacking.read (u : Unpacking β) (item : ArchiveItem β) : Unpacking β :=
  match u.state.phase with
  | .reading =>
      let s := u.state.nextEntry canonicalDest stripComponents item.entry
      match s.phase with
      | .acting entry outFile =>
          let t := s.act canonicalDest stripComponents entry outFile (allowed outFile)
          let bytes := match entry.kind with
            | .regular => some item.data
            | .link =>
                (s.canonicalFile canonicalDest
                  (stripLinkTarget entry.linkName entry.name stripComponents)).bind
                    (readFile s u.content)
            | .directory | .symbolicLink => none
          ⟨t, recordWrite u.content s t bytes⟩
      | _ => ⟨s, u.content⟩
  | _ => u

/-- One round of the loop over the deferred hard links. -/
def Unpacking.link (u : Unpacking β) : Unpacking β :=
  match u.state.phase with
  | .linking =>
      match u.state.deferredHardLinks with
      | [] => ⟨u.state.linkDeferred true, u.content⟩
      | (outFile, linkTarget) :: _ =>
          let t := u.state.linkDeferred (allowed outFile)
          ⟨t, recordWrite u.content u.state t (readFile u.state u.content linkTarget)⟩
  | _ => u

/-- All rounds, and the end of the loop. -/
def Unpacking.linkAll : ℕ → Unpacking β → Unpacking β
  | 0, u => u
  | rounds + 1, u => Unpacking.linkAll rounds (u.link allowed)

/-- `extract`. -/
def unpack (start : Extraction) (items : List (ArchiveItem β)) : Unpacking β :=
  let u := items.foldl (Unpacking.read canonicalDest stripComponents allowed) ⟨start, fun _ => none⟩
  match u.state.phase with
  | .reading =>
      let s := u.state.endOfArchive
      Unpacking.linkAll allowed (s.deferredHardLinks.length + 1) ⟨s, u.content⟩
  | _ => u

variable {canonicalDest stripComponents}

/-! ### Their states -/

theorem read_reachable {u : Unpacking β}
    (hu : (extractSystem canonicalDest stripComponents).Reachable u.state) (item : ArchiveItem β) :
    (extractSystem canonicalDest stripComponents).Reachable
      (u.read canonicalDest stripComponents allowed item).state := by
  unfold Unpacking.read
  split
  · rename_i hreading
    have hentry := hu.next (e := .entry item.entry) (by
      show Extraction.next canonicalDest stripComponents _ _ = some _
      rw [Extraction.next, hreading])
    simp only
    split
    · rename_i entry outFile hacting
      refine hentry.next (e := .act (allowed outFile)) ?_
      show Extraction.next canonicalDest stripComponents _ _ = some _
      rw [Extraction.next, hacting]
    · exact hentry
  · exact hu

theorem readAll_reachable (items : List (ArchiveItem β)) :
    ∀ {u : Unpacking β}, (extractSystem canonicalDest stripComponents).Reachable u.state →
      (extractSystem canonicalDest stripComponents).Reachable
        (items.foldl (Unpacking.read canonicalDest stripComponents allowed) u).state := by
  induction items with
  | nil => exact fun hu => hu
  | cons item items ih => exact fun hu => ih (read_reachable allowed hu item)

theorem link_reachable {u : Unpacking β}
    (hu : (extractSystem canonicalDest stripComponents).Reachable u.state) :
    (extractSystem canonicalDest stripComponents).Reachable (u.link allowed).state := by
  unfold Unpacking.link
  split
  · rename_i hlinking
    have hstep : ∀ b, (extractSystem canonicalDest stripComponents).Reachable
        (u.state.linkDeferred b) := by
      intro b
      refine hu.next (e := .link b) ?_
      show Extraction.next canonicalDest stripComponents _ _ = some _
      rw [Extraction.next, hlinking]
    split
    · exact hstep true
    · exact hstep _
  · exact hu

theorem linkAll_reachable (rounds : ℕ) :
    ∀ {u : Unpacking β}, (extractSystem canonicalDest stripComponents).Reachable u.state →
      (extractSystem canonicalDest stripComponents).Reachable
        (Unpacking.linkAll allowed rounds u).state := by
  induction rounds with
  | zero => exact fun hu => hu
  | succ rounds ih => exact fun hu => ih (link_reachable allowed hu)

/-- **What `extract` leaves** is a state of a run. -/
theorem unpack_reachable {start : Extraction} (hinit : start.Initial canonicalDest)
    (items : List (ArchiveItem β)) :
    (extractSystem canonicalDest stripComponents).Reachable
      (unpack canonicalDest stripComponents allowed start items).state := by
  have hstart : (extractSystem canonicalDest stripComponents).Reachable
      (Unpacking.mk (β := β) start fun _ => none).state := .start hinit
  have hlast := readAll_reachable allowed items hstart
  unfold unpack
  simp only
  split
  · rename_i hreading
    refine linkAll_reachable allowed _ (u := ⟨_, _⟩) (hlast.next (e := .endOfArchive) ?_)
    show Extraction.next canonicalDest stripComponents _ _ = some _
    rw [Extraction.next, hreading]
  · exact hlast

end Extract

/-! ### Operations where nothing is in the way -/

section Operations

variable {s : Extraction} {parent : List Name} {n : Name}

/-- A new node, and nothing else, is there. -/
structure Created (s t : Extraction) (loc : List Name) (x : FileNode Name) : Prop where
  node : t.tree.node = Function.update s.tree.node loc (some x)
  closed : t.tree.Closed
  phase : t.phase = s.phase
  failed : t.failedSymlinks = s.failedSymlinks
  deferred : t.deferredHardLinks = s.deferredHardLinks

theorem delete_absent (hdirs : s.tree.Dirs parent) (hnone : s.tree.node (parent ++ [n]) = none) :
    s.delete (parent ++ [n]) = s := by
  simp only [Extraction.delete, place_dirs hdirs, hnone]

theorem created_create (hclosed : s.tree.Closed) (hdirs : s.tree.Dirs parent)
    (hnone : s.tree.node (parent ++ [n]) = none) (x : FileNode Name) :
    Created s (s.create (parent ++ [n]) x) (parent ++ [n]) x := by
  have hparent : s.tree.IsDir parent := by
    by_cases hnil : parent = []
    · exact .inl hnil
    · exact .inr (hdirs parent List.prefix_rfl hnil)
  exact ⟨node_put _ _ _, hclosed.put hparent hnone x, rfl, rfl, rfl⟩

theorem createSymbolicLink_spec (hclosed : s.tree.Closed) (hdirs : s.tree.Dirs parent)
    (hnone : s.tree.node (parent ++ [n]) = none) {target : Name} (hne : target ≠ [])
    (hrelative : target.head? ≠ some '/') :
    ∃ t, s.createSymbolicLink (parent ++ [n]) target true = some t ∧
      Created s t (parent ++ [n]) (.link ⟨false, pathParts target⟩) ∧
      t.written = s.written ∧ t.nextInode = s.nextInode ∧ t.access = s.access := by
  refine ⟨_, ?_, created_create hclosed hdirs hnone _, rfl, rfl, rfl⟩
  simp only [Extraction.createSymbolicLink, place_dirs hdirs, hnone]
  rw [if_pos (by simp [hne]), decide_eq_false hrelative]

/-- **A new file.** -/
theorem fileOutputStream_spec (hclosed : s.tree.Closed) (hdirs : s.tree.Dirs parent)
    (hnone : s.tree.node (parent ++ [n]) = none) :
    ∃ t, s.fileOutputStream (parent ++ [n]) = (t, true) ∧
      Created s t (parent ++ [n]) (.file s.nextInode) ∧
      t.written = s.written ++ [s.nextInode] ∧ t.nextInode = s.nextInode + 1 ∧
      t.access = Function.update s.access s.nextInode .created := by
  obtain ⟨hnode, hclosed', hphase, hfailed, hdeferred⟩ :=
    created_create hclosed hdirs hnone (.file s.nextInode)
  refine ⟨{ s.create (parent ++ [n]) (.file s.nextInode) with
    nextInode := s.nextInode + 1
    access := Function.update s.access s.nextInode .created
    written := s.written ++ [s.nextInode] }, ?_, ⟨hnode, hclosed', hphase, hfailed, hdeferred⟩,
    rfl, rfl, rfl⟩
  simp only [Extraction.fileOutputStream, follow_absent hdirs hnone]

theorem setPermissions_readable (a : FileAccess) (mode : ℕ) :
    (a.setPermissions mode).readable = if a.owned then mayRead mode else a.readable := by
  unfold FileAccess.setPermissions mayRead
  cases howned : a.owned with
  | false => rfl
  | true =>
    cases mode.testBit 2 <;> cases mode.testBit 1 <;> cases mode.testBit 0 <;> simp

/-- The permissions of a file that is there. -/
theorem setPermissions_file (hdirs : s.tree.Dirs parent) {inode : ℕ}
    (hfile : s.tree.node (parent ++ [n]) = some (.file inode)) (mode : ℕ) :
    s.setPermissions (parent ++ [n]) mode =
      { s with access := Function.update s.access inode ((s.access inode).setPermissions mode) } := by
  rw [Extraction.setPermissions, follow_file hdirs hfile]

/-- **A hard link, or a copy.**  Either way a file is there: the one linked to, or a new one that
has been written to. -/
theorem linkOrCopy_spec (hclosed : s.tree.Closed) (hdirs : s.tree.Dirs parent)
    (hnone : s.tree.node (parent ++ [n]) = none) {source : List Name} {m : Name} {inode : ℕ}
    (hsource : s.tree.Dirs source) (hfile : s.tree.node (source ++ [m]) = some (.file inode))
    {allowed : Bool} (hcopies : allowed = true ∨ (s.access inode).readable = true) :
    ∃ j, Created s (s.linkOrCopy (parent ++ [n]) (source ++ [m]) allowed) (parent ++ [n]) (.file j) ∧
      (j = inode ∧ (s.linkOrCopy (parent ++ [n]) (source ++ [m]) allowed).written = s.written ∧
          (s.linkOrCopy (parent ++ [n]) (source ++ [m]) allowed).nextInode = s.nextInode ∧
          (s.linkOrCopy (parent ++ [n]) (source ++ [m]) allowed).access = s.access ∨
        j = s.nextInode ∧
          (s.linkOrCopy (parent ++ [n]) (source ++ [m]) allowed).written =
            s.written ++ [s.nextInode] ∧
          (s.linkOrCopy (parent ++ [n]) (source ++ [m]) allowed).nextInode = s.nextInode + 1 ∧
          (s.linkOrCopy (parent ++ [n]) (source ++ [m]) allowed).access =
            Function.update s.access s.nextInode .created) := by
  cases allowed with
  | true =>
    have hlink : s.createLink (parent ++ [n]) (source ++ [m]) true =
        some ((s.touch (source ++ [m])).create (parent ++ [n]) (.file inode)) := by
      simp only [Extraction.createLink, place_dirs hdirs, place_dirs hsource, hnone, hfile]
      rfl
    have hall : s.linkOrCopy (parent ++ [n]) (source ++ [m]) true =
        (s.touch (source ++ [m])).create (parent ++ [n]) (.file inode) := by
      simp only [Extraction.linkOrCopy, delete_absent hdirs hnone, hlink]
    rw [hall]
    have hcreated := created_create (s := s.touch (source ++ [m])) hclosed hdirs hnone (.file inode)
    exact ⟨inode, ⟨hcreated.node, hcreated.closed, rfl, rfl, rfl⟩, .inl ⟨rfl, rfl, rfl, rfl⟩⟩
  | false =>
    have hreadable : ((s.mkdirs parent).access inode).readable = true :=
      hcopies.resolve_left Bool.false_ne_true
    have hlink : s.createLink (parent ++ [n]) (source ++ [m]) false = none := by
      simp [Extraction.createLink, place_dirs hdirs, place_dirs hsource]
    have hexists : s.exists (source ++ [m]) = true := by
      rw [Extraction.exists, follow_file hsource hfile]
      rfl
    have habsent : s.exists (parent ++ [n]) = false := by
      rw [Extraction.exists, follow_absent hdirs hnone]
      rfl
    -- the parent directory is there, so that `mkdirs` leaves everything as it is
    let made := (s.mkdirs parent).touch (source ++ [m])
    have hmade : made.tree.node = s.tree.node := by
      funext loc
      rw [show made.tree.node loc = _ from mkdirs_clear hclosed hdirs.clear loc]
      by_cases hloc : loc <+: parent ∧ loc ≠ []
      · rw [if_pos hloc, hdirs loc hloc.1 hloc.2]
      · rw [if_neg hloc]
    obtain ⟨t, ht, hcreated, hwritten, hnext, haccess⟩ := fileOutputStream_spec (s := made) (n := n)
      (hclosed.mkdirs parent) (fun q hq hne => by rw [hmade]; exact hdirs q hq hne)
      (by rw [hmade]; exact hnone)
    have hall : s.linkOrCopy (parent ++ [n]) (source ++ [m]) false = t := by
      simp only [Extraction.linkOrCopy, delete_absent hdirs hnone, hlink, Extraction.copyTo, hexists,
        habsent, Bool.not_true, Bool.false_eq_true, if_false, follow_file hsource hfile,
        List.dropLast_concat, hreadable, if_true]
      rw [show ((s.mkdirs parent).touch (source ++ [m])).fileOutputStream (parent ++ [n]) = (t, true)
        from ht]
    rw [hall]
    refine ⟨s.nextInode, ⟨?_, hcreated.closed, hcreated.phase, hcreated.failed, hcreated.deferred⟩,
      .inr ⟨rfl, hwritten, hnext, haccess⟩⟩
    rw [hcreated.node, hmade]
    rfl

end Operations

/-! ### What is there so far -/

/-- A node of the file system shows one of the tree; a hard link, that of its target. -/
inductive ArchivedTree.Shows (T : ArchivedTree β) (content : ℕ → Option β) :
    ArchiveNode β → FileNode Name → Prop where
  | dir : T.Shows content .dir .dir
  | file {c : β} {mode inode : ℕ} (h : content inode = some c) :
      T.Shows content (.file c mode) (.file inode)
  | symlink (text : Name) : T.Shows content (.symlink text) (.link ⟨false, pathParts text⟩)
  | hardLink {target : List Name} {c : β} {mode inode : ℕ} (hc : T.Has target (.file c mode))
      (h : content inode = some c) : T.Shows content (.hardLink target) (.file inode)

/-- The invariant: whatever is in the destination shows the tree, and of the nodes whose entries
have been read only deferred hard links are missing. -/
structure Unpacked (T : ArchivedTree β) (dest : List Name) (done : List (List Name × ArchiveNode β))
    (u : Unpacking β) : Prop where
  closed : u.state.tree.Closed
  root : dest ≠ [] ∧ u.state.tree.node dest = some .dir
  failed : u.state.failedSymlinks = []
  sound : ∀ p y, p ≠ [] → u.state.tree.node (dest ++ p) = some y →
    ∃ x, T.Has p x ∧ T.Shows u.content x y
  fresh : ∀ p x, T.Has p x → x ≠ .dir → (p, x) ∉ done → u.state.tree.node (dest ++ p) = none
  present : ∀ p x, (p, x) ∈ done → p ≠ [] → u.state.tree.node (dest ++ p) = none →
    ∃ target, x = .hardLink target ∧ (dest ++ p, dest ++ target) ∈ u.state.deferredHardLinks
  deferred : ∀ pair ∈ u.state.deferredHardLinks, ∃ p target, pair = (dest ++ p, dest ++ target) ∧
    T.Has p (.hardLink target) ∧ (p, .hardLink target) ∈ done ∧ u.state.tree.node (dest ++ p) = none
  once : (u.state.deferredHardLinks.map Prod.fst).Nodup
  inodes : ∀ p inode, u.state.tree.node (dest ++ p) = some (.file inode) →
    inode < u.state.nextInode
  readable : ∀ p c mode inode, T.Has p (.file c mode) →
    u.state.tree.node (dest ++ p) = some (.file inode) → mayRead mode = true →
      (u.state.access inode).readable = true

section Unpacked

variable {T : ArchivedTree β} {dest : List Name} {done : List (List Name × ArchiveNode β)}
  {u : Unpacking β} {s t : Extraction} {content : ℕ → Option β} {p : List Name}
  {x : ArchiveNode β} {y : FileNode Name}

/-- It does so as long as the contents of the old files stay. -/
theorem ArchivedTree.Shows.mono (h : T.Shows u.content x y)
    (hold : ∀ inode, y = .file inode → inode < u.state.nextInode)
    (hsame : ∀ inode < u.state.nextInode, content inode = u.content inode) :
    T.Shows content x y := by
  cases h with
  | dir => exact .dir
  | file h => exact .file ((hsame _ (hold _ rfl)).trans h)
  | symlink text => exact .symlink text
  | hardLink hc h => exact .hardLink hc ((hsame _ (hold _ rfl)).trans h)

/-- The node at a path is made next, and is not, or no longer, among the deferred hard links. -/
structure Awaits (dest : List Name) (u : Unpacking β) (s : Extraction) (p : List Name) : Prop where
  tree : s.tree = u.state.tree
  nextInode : s.nextInode = u.state.nextInode
  access : s.access = u.state.access
  failed : s.failedSymlinks = u.state.failedSymlinks
  sub : s.deferredHardLinks.Sublist u.state.deferredHardLinks
  apart : ∀ pair ∈ u.state.deferredHardLinks, pair ∈ s.deferredHardLinks ∨ pair.1 = dest ++ p
  gone : ∀ pair ∈ s.deferredHardLinks, pair.1 ≠ dest ++ p

/-- **A new node** that shows that of the tree, when its entry is read or when it has been
deferred. -/
theorem Unpacked.put (h : Unpacked T dest done u) (hx : T.Has p x) (hawaits : Awaits dest u s p)
    (hcreated : Created s t (dest ++ p) y) (hshows : T.Shows content x y)
    (hsame : ∀ inode < s.nextInode, content inode = u.content inode)
    (hnext : s.nextInode ≤ t.nextInode) (hy : ∀ inode, y = .file inode → inode < t.nextInode)
    (haccess : ∀ inode < s.nextInode, t.access inode = s.access inode)
    (hreads : ∀ c mode inode, x = .file c mode → y = .file inode → mayRead mode = true →
      (t.access inode).readable = true)
    {done' : List (List Name × ArchiveNode β)}
    (hdone : ∀ node, node ∈ done' ↔ node ∈ done ∨ node = (p, x)) :
    Unpacked T dest done' ⟨t, content⟩ := by
  rw [hawaits.nextInode] at hsame hnext haccess
  rw [hawaits.access] at haccess
  have hnode : t.tree.node = Function.update u.state.tree.node (dest ++ p) (some y) := by
    rw [hcreated.node, hawaits.tree]
  have hself : t.tree.node (dest ++ p) = some y := by rw [hnode, Function.update_self]
  have hother : ∀ q, q ≠ p → t.tree.node (dest ++ q) = u.state.tree.node (dest ++ q) := by
    intro q hq
    rw [hnode, Function.update_of_ne fun heq => hq (List.append_cancel_left heq)]
  refine ⟨hcreated.closed, ⟨h.root.1, ?_⟩, ?_, ?_, ?_, ?_, ?_, ?_, ?_, ?_⟩
  · have hroot := hother [] hx.ne_nil.symm
    rw [List.append_nil] at hroot
    exact hroot.trans h.root.2
  · exact hcreated.failed.trans (hawaits.failed.trans h.failed)
  · intro q z hq hz
    by_cases hqp : q = p
    · subst hqp
      rw [hself] at hz
      obtain rfl := Option.some.inj hz
      exact ⟨x, hx, hshows⟩
    · change t.tree.node _ = _ at hz
      rw [hother q hqp] at hz
      obtain ⟨x', hx', hshows'⟩ := h.sound q z hq hz
      exact ⟨x', hx', hshows'.mono (fun inode hinode => h.inodes q inode (hinode ▸ hz)) hsame⟩
  · intro q z hz hzdir hnotDone
    have hq : q ≠ p := by
      rintro rfl
      exact hnotDone ((hdone _).mpr (.inr (by rw [hz.eq hx])))
    refine (hother q hq).trans (h.fresh q z hz hzdir fun hmem => hnotDone ?_)
    exact (hdone _).mpr (.inl hmem)
  · intro q z hmem hq hnone
    change t.tree.node _ = _ at hnone
    have hqp : q ≠ p := by
      rintro rfl
      rw [hself] at hnone
      cases hnone
    rw [hother q hqp] at hnone
    rcases (hdone _).mp hmem with hold | hnew
    · obtain ⟨target, rfl, htarget⟩ := h.present q z hold hq hnone
      refine ⟨target, rfl, ?_⟩
      show _ ∈ t.deferredHardLinks
      rw [hcreated.deferred]
      exact (hawaits.apart _ htarget).resolve_right fun heq => hqp (List.append_cancel_left heq)
    · exact absurd (Prod.mk.inj hnew).1 hqp
  · intro pair hpair
    change pair ∈ t.deferredHardLinks at hpair
    rw [hcreated.deferred] at hpair
    obtain ⟨q, target, rfl, hhas, hmem, hnone⟩ := h.deferred pair (hawaits.sub.subset hpair)
    have hqp : q ≠ p := by
      rintro rfl
      exact hawaits.gone _ hpair rfl
    exact ⟨q, target, rfl, hhas, (hdone _).mpr (.inl hmem), (hother q hqp).trans hnone⟩
  · show (t.deferredHardLinks.map Prod.fst).Nodup
    rw [hcreated.deferred]
    exact h.once.sublist (hawaits.sub.map Prod.fst)
  · intro q inode hinode
    change t.tree.node _ = _ at hinode
    by_cases hqp : q = p
    · subst hqp
      rw [hself] at hinode
      exact hy inode (Option.some.inj hinode)
    · rw [hother q hqp] at hinode
      exact (h.inodes q inode hinode).trans_le hnext
  · intro q c mode inode hfile hinode hmode
    change t.tree.node _ = _ at hinode
    show (t.access inode).readable = true
    by_cases hqp : q = p
    · subst hqp
      rw [hself] at hinode
      exact hreads c mode inode (hx.eq hfile) (Option.some.inj hinode) hmode
    · rw [hother q hqp] at hinode
      rw [haccess inode (h.inodes q inode hinode)]
      exact h.readable q c mode inode hfile hinode hmode

/-! ### Directories -/

/-- What a path of directories of the tree starts with is one as well. -/
theorem ArchivedTree.dir_of_prefix {q r : List Name} (hq : q = [] ∨ T.Has q .dir) (hr : r <+: q) :
    r = [] ∨ T.Has r .dir := by
  obtain ⟨rest, rfl⟩ := hr
  by_cases hrest : rest = []
  · rwa [hrest, List.append_nil] at hq
  · rcases hq with hnil | hdir
    · exact .inl (List.append_eq_nil_iff.mp hnil).1
    · exact hdir.ancestor hrest

theorem Unpacked.clear (h : Unpacked T dest done u) {q : List Name}
    (hq : q = [] ∨ T.Has q .dir) : u.state.tree.Clear (dest ++ q) := by
  intro loc hloc hne
  rcases List.prefix_or_prefix_of_prefix hloc (List.prefix_append dest q) with hdest | ⟨r, rfl⟩
  · exact .inr (h.closed.dirs (.inr h.root.2) loc hdest hne)
  have hr := (List.prefix_append_right_inj dest).mp hloc
  by_cases hnil : r = []
  · rw [hnil, List.append_nil]
    exact .inr h.root.2
  · have hdir := (T.dir_of_prefix hq hr).resolve_left hnil
    cases hnode : u.state.tree.node (dest ++ r) with
    | none => exact .inl rfl
    | some y =>
      obtain ⟨x, hx, hshows⟩ := h.sound r y hnil hnode
      obtain rfl := hx.eq hdir
      cases hshows
      exact .inr rfl

/-- Directories of the tree are made. -/
theorem Unpacked.mkdirs (h : Unpacked T dest done u) {q : List Name} (hq : q = [] ∨ T.Has q .dir)
    (phase : Phase) :
    Unpacked T dest done ⟨{ u.state.mkdirs (dest ++ q) with phase := phase }, u.content⟩ ∧
      (u.state.tree.mkdirs (dest ++ q)).Dirs (dest ++ q) := by
  have hnode := mkdirs_clear h.closed (h.clear hq)
  have hin : ∀ r, r <+: q → (u.state.tree.mkdirs (dest ++ q)).node (dest ++ r) = some .dir := by
    intro r hr
    exact (hnode _).trans (if_pos ⟨(List.prefix_append_right_inj dest).mpr hr,
      fun hnil => h.root.1 (List.append_eq_nil_iff.mp hnil).1⟩)
  have hout : ∀ r, ¬ r <+: q →
      (u.state.tree.mkdirs (dest ++ q)).node (dest ++ r) = u.state.tree.node (dest ++ r) := by
    intro r hr
    rw [hnode, if_neg fun hprefix => hr ((List.prefix_append_right_inj dest).mp hprefix.1)]
  -- nothing but a directory is on the way
  have hother : ∀ r x, T.Has r x → x ≠ .dir → ¬ r <+: q := by
    intro r x hx hne hr
    rcases T.dir_of_prefix hq hr with hnil | hdir
    · exact hx.ne_nil hnil
    · exact hne (hx.eq hdir)
  refine ⟨⟨h.closed.mkdirs _, ⟨h.root.1, ?_⟩, h.failed, ?_, ?_, ?_, ?_, h.once, ?_, ?_⟩, ?_⟩
  · have hroot := hin [] List.nil_prefix
    rwa [List.append_nil] at hroot
  · intro p y hp hy
    change (u.state.tree.mkdirs (dest ++ q)).node _ = _ at hy
    by_cases hprefix : p <+: q
    · rw [hin p hprefix] at hy
      obtain rfl := Option.some.inj hy
      exact ⟨.dir, (T.dir_of_prefix hq hprefix).resolve_left hp, .dir⟩
    · rw [hout p hprefix] at hy
      exact h.sound p y hp hy
  · intro p x hx hne hnot
    exact (hout p (hother p x hx hne)).trans (h.fresh p x hx hne hnot)
  · intro p x hmem hp hnone
    change (u.state.tree.mkdirs (dest ++ q)).node _ = _ at hnone
    by_cases hprefix : p <+: q
    · rw [hin p hprefix] at hnone
      cases hnone
    · rw [hout p hprefix] at hnone
      exact h.present p x hmem hp hnone
  · intro pair hpair
    obtain ⟨p, target, rfl, hhas, hmem, hnone⟩ := h.deferred pair hpair
    exact ⟨p, target, rfl, hhas, hmem, (hout p (hother p _ hhas nofun)).trans hnone⟩
  · intro p inode hinode
    change (u.state.tree.mkdirs (dest ++ q)).node _ = _ at hinode
    by_cases hprefix : p <+: q
    · rw [hin p hprefix] at hinode
      cases hinode
    · rw [hout p hprefix] at hinode
      exact h.inodes p inode hinode
  · intro p c mode inode hfile hinode hmode
    change (u.state.tree.mkdirs (dest ++ q)).node _ = _ at hinode
    rw [hout p (hother p _ hfile nofun)] at hinode
    exact h.readable p c mode inode hfile hinode hmode
  · intro loc hloc hne
    rw [hnode, if_pos ⟨hloc, hne⟩]

/-- The entry of a directory that is there has been read. -/
theorem Unpacked.mark (h : Unpacked T dest done u) {q : List Name}
    (hq : q ≠ [] → u.state.tree.node (dest ++ q) = some .dir) :
    Unpacked T dest (done ++ [(q, .dir)]) u := by
  refine ⟨h.closed, h.root, h.failed, h.sound, ?_, ?_, ?_, h.once, h.inodes, h.readable⟩
  · intro p x hx hne hnot
    exact h.fresh p x hx hne fun hmem => hnot (List.mem_append_left _ hmem)
  · intro p x hmem hp hnone
    rcases List.mem_append.mp hmem with hold | hnew
    · exact h.present p x hold hp hnone
    · obtain ⟨rfl, rfl⟩ := Prod.mk.inj (List.mem_singleton.mp hnew)
      rw [hq hp] at hnone
      cases hnone
  · intro pair hpair
    obtain ⟨p, target, hsame, hhas, hmem, hnone⟩ := h.deferred pair hpair
    exact ⟨p, target, hsame, hhas, List.mem_append_left _ hmem, hnone⟩

/-! ### Entries -/

theorem recordWrite_same (h : t.written = s.written) (bytes : Option β) :
    recordWrite content s t bytes = content := by
  rw [recordWrite, h, List.drop_length]

theorem recordWrite_new {inode : ℕ} (h : t.written = s.written ++ [inode]) (bytes : Option β) :
    recordWrite content s t bytes = Function.update content inode bytes := by
  rw [recordWrite, h, List.drop_left]

theorem ArchivedTree.Has.parent (h : T.Has p x) :
    ∃ q n, p = q ++ [n] ∧ (q = [] ∨ T.Has q .dir) := by
  rcases List.eq_nil_or_concat' p with rfl | ⟨q, n, rfl⟩
  · exact absurd rfl h.ne_nil
  · exact ⟨q, n, rfl, T.closed q n x h⟩

theorem canonicalFile_joinPath (hp : ∀ n ∈ p, IsName n) (slash : Bool)
    (hunlinked : s.tree.Unlinked (dest ++ p)) :
    s.canonicalFile dest (joinPath (p ++ if slash then [[]] else [])) = some (dest ++ p) := by
  rw [Extraction.canonicalFile, pathParts_joinPath hp slash]
  have hplain : plain dest ++ plain p = plain (dest ++ p) := List.map_append.symm
  rw [hplain, canonicalFile_unlinked hunlinked]

/-- Only the last part of the path of a node can be a link. -/
theorem Unpacked.unlinked (h : Unpacked T dest done u) (hx : T.Has p x)
    (hnode : ∀ target, u.state.tree.node (dest ++ p) ≠ some (.link target)) :
    u.state.tree.Unlinked (dest ++ p) := by
  obtain ⟨q, n, rfl, hq⟩ := hx.parent
  intro loc hloc hne target
  rw [← List.append_assoc] at hloc hnode
  rcases List.prefix_concat_iff.mp hloc with rfl | hbefore
  · exact hnode target
  · exact (h.clear hq).unlinked loc hbefore hne target

/-- A node that is not deferred waits for its entry. -/
theorem Unpacked.awaits (h : Unpacked T dest done u) (hx : T.Has p x) (hnot : (p, x) ∉ done)
    (phase : Phase) : Awaits dest u { u.state with phase := phase } p := by
  refine ⟨rfl, rfl, rfl, rfl, List.Sublist.refl _, fun pair hpair => .inl hpair,
    fun pair hpair heq => ?_⟩
  obtain ⟨q, target, rfl, hhas, hmem, _⟩ := h.deferred pair hpair
  obtain rfl := List.append_cancel_left heq
  rw [hx.eq hhas] at hnot
  exact hnot hmem

theorem mem_done_concat (node : List Name × ArchiveNode β) :
    node ∈ done ++ [(p, x)] ↔ node ∈ done ∨ node = (p, x) := by
  rw [List.mem_append, List.mem_singleton]

/-- **A hard link or a copy**, when the target is there. -/
theorem Unpacked.linkOrCopy (h : Unpacked T dest done u) {target : List Name} {c : β} {mode : ℕ}
    (hx : T.Has p (.hardLink target)) (htarget : T.Has target (.file c mode))
    (hawaits : Awaits dest u s p)
    (hclear : ∀ q n, p = q ++ [n] → u.state.tree.Dirs (dest ++ q))
    (hnone : u.state.tree.node (dest ++ p) = none) {inode : ℕ}
    (hinode : u.state.tree.node (dest ++ target) = some (.file inode)) {allowed : Bool}
    (hcopies : allowed = true ∨ mayRead mode = true)
    {done' : List (List Name × ArchiveNode β)}
    (hdone : ∀ node, node ∈ done' ↔ node ∈ done ∨ node = (p, .hardLink target)) :
    Unpacked T dest done' ⟨s.linkOrCopy (dest ++ p) (dest ++ target) allowed,
        recordWrite u.content s (s.linkOrCopy (dest ++ p) (dest ++ target) allowed)
          (u.content inode)⟩ ∧
      (s.linkOrCopy (dest ++ p) (dest ++ target) allowed).phase = s.phase ∧
      (s.linkOrCopy (dest ++ p) (dest ++ target) allowed).deferredHardLinks =
        s.deferredHardLinks := by
  obtain ⟨q, n, hp, -⟩ := hx.parent
  obtain ⟨r, m, hr, -⟩ := htarget.parent
  have hcontent : u.content inode = some c := by
    obtain ⟨x, hx', hshows⟩ := h.sound target _ htarget.ne_nil hinode
    obtain rfl := hx'.eq htarget
    cases hshows with
    | file h => exact h
  have hold := h.inodes target inode hinode
  have hreadable : allowed = true ∨ (s.access inode).readable = true := by
    rw [hawaits.access]
    exact hcopies.imp_right (h.readable target c mode inode htarget hinode)
  rw [← hawaits.tree] at hnone hinode hclear
  have hclosed : s.tree.Closed := hawaits.tree ▸ h.closed
  rw [hp, ← List.append_assoc] at hnone
  rw [hr, ← List.append_assoc] at hinode
  obtain ⟨j, hcreated, hwrites⟩ :=
    linkOrCopy_spec hclosed (hclear q n hp) hnone (hclosed.dirs_of_node hinode) hinode hreadable
  rw [List.append_assoc, List.append_assoc, ← hp, ← hr] at hcreated hwrites
  refine ⟨h.put hx hawaits hcreated ?_ ?_ ?_ ?_ ?_ nofun hdone, hcreated.phase, hcreated.deferred⟩
  · rcases hwrites with ⟨rfl, hwritten, -⟩ | ⟨rfl, hwritten, -⟩
    · rw [recordWrite_same hwritten]
      exact .hardLink htarget hcontent
    · rw [recordWrite_new hwritten]
      exact .hardLink htarget ((Function.update_self _ _ _).trans hcontent)
  · intro other hother
    rcases hwrites with ⟨-, hwritten, -⟩ | ⟨-, hwritten, -⟩
    · rw [recordWrite_same hwritten]
    · rw [recordWrite_new hwritten, Function.update_of_ne hother.ne]
  · rcases hwrites with ⟨-, -, hnext, -⟩ | ⟨-, -, hnext, -⟩ <;> omega
  · rintro other hsame
    cases hsame
    rw [← hawaits.nextInode] at hold
    rcases hwrites with ⟨rfl, -, hnext, -⟩ | ⟨rfl, -, hnext, -⟩ <;> omega
  · intro other hother
    rcases hwrites with ⟨-, -, -, haccess⟩ | ⟨-, -, -, haccess⟩
    · rw [haccess]
    · rw [haccess, Function.update_of_ne hother.ne]

/-- A file that is there is found. -/
theorem Unpacked.follow_file (h : Unpacked T dest done u) {c : β} {mode : ℕ}
    (hc : T.Has p (.file c mode)) {inode : ℕ}
    (hnode : u.state.tree.node (dest ++ p) = some (.file inode)) :
    u.state.tree.follow (dest ++ p) = .file (dest ++ p) inode := by
  obtain ⟨q, n, rfl, -⟩ := hc.parent
  rw [← List.append_assoc] at hnode ⊢
  exact Foundation.follow_file (h.closed.dirs_of_node hnode) hnode

/-- A hard link is put off. -/
theorem Unpacked.defer (h : Unpacked T dest done u) {target : List Name}
    (hx : T.Has p (.hardLink target)) (hnot : (p, .hardLink target) ∉ done) (phase : Phase) :
    Unpacked T dest (done ++ [(p, .hardLink target)])
      ⟨{ u.state with
        phase := phase
        deferredHardLinks := u.state.deferredHardLinks ++ [(dest ++ p, dest ++ target)] },
        u.content⟩ := by
  have hnone := h.fresh _ _ hx nofun hnot
  have hgone := (h.awaits hx hnot phase).gone
  refine ⟨h.closed, h.root, h.failed, h.sound, ?_, ?_, ?_, ?_, h.inodes, h.readable⟩
  · intro r x hr hne hmem
    exact h.fresh r x hr hne fun hold => hmem (List.mem_append_left _ hold)
  · intro r x hmem hne hr
    rcases (mem_done_concat _).mp hmem with hold | hnew
    · obtain ⟨target', rfl, htarget'⟩ := h.present r x hold hne hr
      exact ⟨target', rfl, List.mem_append_left _ htarget'⟩
    · obtain ⟨rfl, rfl⟩ := Prod.mk.inj hnew
      exact ⟨target, rfl, List.mem_append_right _ (List.mem_singleton_self _)⟩
  · intro pair hpair
    rcases List.mem_append.mp hpair with hold | hnew
    · obtain ⟨r, target', hsame, hhas, hmem, hr⟩ := h.deferred pair hold
      exact ⟨r, target', hsame, hhas, List.mem_append_left _ hmem, hr⟩
    · exact ⟨p, target, List.mem_singleton.mp hnew, hx, (mem_done_concat _).mpr (.inr rfl), hnone⟩
  · show ((_ ++ [_]).map Prod.fst).Nodup
    rw [List.map_append]
    refine List.nodup_append.mpr
      ⟨h.once, List.nodup_singleton _, fun first hfirst last hlast heq => ?_⟩
    obtain ⟨pair, hpair, rfl⟩ := List.mem_map.mp hfirst
    exact hgone pair hpair (heq.trans (List.mem_singleton.mp hlast))

section Act

variable {entry : TarEntry} {q : List Name} {n : Name} (allowed : Bool)

/-- A symbolic link is made in its directory, where nothing is in the way. -/
theorem Unpacked.act_symlink (h : Unpacked T dest done u) {text : Name}
    (hx : T.Has (q ++ [n]) (.symlink text)) (hnot : (q ++ [n], .symlink text) ∉ done)
    (hdirs : u.state.tree.Dirs (dest ++ q)) (hkind : entry.kind = .symbolicLink)
    (htarget : stripLinkTarget entry.linkName entry.name 1 = text) (bytes : Option β) :
    Unpacked T dest (done ++ [(q ++ [n], .symlink text)])
        ⟨u.state.act dest 1 entry (dest ++ (q ++ [n])) true,
          recordWrite u.content u.state (u.state.act dest 1 entry (dest ++ (q ++ [n])) true) bytes⟩ ∧
      (u.state.act dest 1 entry (dest ++ (q ++ [n])) true).phase = .reading := by
  have hawaits := h.awaits hx hnot .reading
  have hnone := h.fresh _ _ hx nofun hnot
  obtain ⟨hne, hrelative⟩ := T.relative _ _ hx
  rw [← List.append_assoc] at hnone ⊢
  obtain ⟨t, ht, hcreated, hwritten, hnext, haccess⟩ := createSymbolicLink_spec
    (s := { u.state with phase := .reading }) h.closed hdirs hnone hne hrelative
  have hact : u.state.act dest 1 entry (dest ++ q ++ [n]) true = t := by
    simp only [Extraction.act, hkind, htarget]
    rw [delete_absent (s := { u.state with phase := .reading }) hdirs hnone, ht]
  rw [hact, recordWrite_same (s := u.state) hwritten]
  rw [List.append_assoc] at hcreated
  exact ⟨h.put hx hawaits hcreated (.symlink text) (fun _ _ => rfl) hnext.ge nofun
    (fun _ _ => haccess ▸ rfl) nofun mem_done_concat, hcreated.phase⟩

theorem Unpacked.act_regular (h : Unpacked T dest done u) {c : β} {mode : ℕ}
    (hx : T.Has (q ++ [n]) (.file c mode)) (hnot : (q ++ [n], .file c mode) ∉ done)
    (hdirs : u.state.tree.Dirs (dest ++ q)) (hkind : entry.kind = .regular)
    (hmode : entry.mode = mode) :
    Unpacked T dest (done ++ [(q ++ [n], .file c mode)])
        ⟨u.state.act dest 1 entry (dest ++ (q ++ [n])) allowed,
          recordWrite u.content u.state (u.state.act dest 1 entry (dest ++ (q ++ [n])) allowed)
            (some c)⟩ ∧
      (u.state.act dest 1 entry (dest ++ (q ++ [n])) allowed).phase = .reading := by
  have hawaits := h.awaits hx hnot .reading
  have hnone := h.fresh _ _ hx nofun hnot
  rw [← List.append_assoc] at hnone ⊢
  obtain ⟨t, ht, hcreated, hwritten, hnext, haccess⟩ := fileOutputStream_spec
    (s := { u.state with phase := .reading }) h.closed hdirs hnone
  have hself : t.tree.node (dest ++ q ++ [n]) = some (.file u.state.nextInode) := by
    rw [hcreated.node, Function.update_self]
  let t' : Extraction := { t with
    access := Function.update t.access u.state.nextInode
      ((t.access u.state.nextInode).setPermissions mode) }
  have hact : u.state.act dest 1 entry (dest ++ q ++ [n]) allowed = t' := by
    refine Eq.trans ?_ (setPermissions_file (hcreated.closed.dirs_of_node hself) hself mode)
    simp only [Extraction.act, hkind, ht, hmode]
  rw [hact, recordWrite_new (s := u.state) (t := t') hwritten]
  rw [List.append_assoc] at hcreated
  obtain ⟨hnode, hclosed, hphase, hfailed, hdeferred⟩ := hcreated
  refine ⟨h.put (t := t') hx hawaits ⟨hnode, hclosed, hphase, hfailed, hdeferred⟩
    (.file (Function.update_self _ _ _)) ?_ (hnext.symm ▸ Nat.le_succ _) ?_ ?_ ?_ mem_done_concat,
    hphase⟩
  · intro inode hinode
    exact Function.update_of_ne hinode.ne _ _
  · intro inode hinode
    obtain rfl := FileNode.file.inj hinode
    exact hnext.symm ▸ Nat.lt_succ_self _
  · intro inode hinode
    show Function.update t.access _ _ inode = u.state.access inode
    rw [Function.update_of_ne hinode.ne, haccess, Function.update_of_ne hinode.ne]
  · intro c' mode' inode hfile hinode hmay
    obtain ⟨rfl, rfl⟩ := ArchiveNode.file.inj hfile
    obtain rfl := FileNode.file.inj hinode
    show (Function.update t.access _ _ _).readable = true
    rw [Function.update_self, setPermissions_readable, haccess, Function.update_self]
    exact hmay

/-- The link is made, or deferred if its target is not there yet. -/
theorem Unpacked.act_link (h : Unpacked T dest done u) {target : List Name}
    (hx : T.Has (q ++ [n]) (.hardLink target)) (hnot : (q ++ [n], .hardLink target) ∉ done)
    (hdirs : u.state.tree.Dirs (dest ++ q)) (hkind : entry.kind = .link)
    (htarget : stripLinkTarget entry.linkName entry.name 1 = joinPath target)
    (hcopies : ∀ c mode, T.Has target (.file c mode) → allowed = true ∨ mayRead mode = true) :
    Unpacked T dest (done ++ [(q ++ [n], .hardLink target)])
        ⟨u.state.act dest 1 entry (dest ++ (q ++ [n])) allowed,
          recordWrite u.content u.state (u.state.act dest 1 entry (dest ++ (q ++ [n])) allowed)
            ((u.state.canonicalFile dest (joinPath target)).bind (readFile u.state u.content))⟩ ∧
      (u.state.act dest 1 entry (dest ++ (q ++ [n])) allowed).phase = .reading := by
  have hawaits := h.awaits hx hnot .reading
  have hnone := h.fresh _ _ hx nofun hnot
  obtain ⟨c, mode, hc⟩ := T.linked _ _ hx
  change T.Has target (.file c mode) at hc
  have hshown : ∀ y, u.state.tree.node (dest ++ target) = some y → ∃ inode, y = .file inode := by
    intro y hy
    obtain ⟨x, hx', hshows⟩ := h.sound target y hc.ne_nil hy
    obtain rfl := hx'.eq hc
    cases hshows
    exact ⟨_, rfl⟩
  have hcanonical : u.state.canonicalFile dest (joinPath target) = some (dest ++ target) := by
    have hall := canonicalFile_joinPath (T.names _ hc).2 false (h.unlinked hc fun link hlink => by
      obtain ⟨inode, hinode⟩ := hshown _ hlink
      cases hinode)
    simpa using hall
  cases hthere : u.state.tree.node (dest ++ target) with
  | some y =>
    obtain ⟨inode, rfl⟩ := hshown y hthere
    have hfollow := h.follow_file hc hthere
    have hact : u.state.act dest 1 entry (dest ++ (q ++ [n])) allowed =
        ({ u.state with phase := .reading } : Extraction).linkOrCopy (dest ++ (q ++ [n]))
          (dest ++ target) allowed := by
      have hcanonical' : ({ u.state with phase := .reading } : Extraction).canonicalFile dest
          (joinPath target) = some (dest ++ target) := hcanonical
      have hexists : ({ u.state with phase := .reading } : Extraction).exists (dest ++ target) =
          true := by
        rw [Extraction.exists, hfollow]
        rfl
      simp only [Extraction.act, hkind, htarget, hcanonical', hexists, if_true]
    have hread : readFile u.state u.content (dest ++ target) = u.content inode := by
      rw [readFile, hfollow]
    rw [hact, hcanonical, Option.bind_some, hread]
    obtain ⟨hlinked, hphase, -⟩ := h.linkOrCopy hx hc hawaits (fun q' n' heq => by
      obtain ⟨rfl, -⟩ := List.append_inj' heq rfl
      exact hdirs) hnone hthere (hcopies c mode hc) mem_done_concat
    exact ⟨hlinked, hphase⟩
  | none =>
    let t : Extraction := { u.state with
      phase := .reading
      deferredHardLinks := u.state.deferredHardLinks ++ [(dest ++ (q ++ [n]), dest ++ target)] }
    have hact : u.state.act dest 1 entry (dest ++ (q ++ [n])) allowed = t := by
      have hcanonical' : ({ u.state with phase := .reading } : Extraction).canonicalFile dest
          (joinPath target) = some (dest ++ target) := hcanonical
      have hexists : ({ u.state with phase := .reading } : Extraction).exists (dest ++ target) =
          false := by
        have hreal : (u.state.tree.follow (dest ++ target)).real = none := by
          refine follow_missing h.closed (h.unlinked hc fun link hlink => ?_) ?_ hthere
          · rw [hthere] at hlink
            cases hlink
          · exact fun hnil => h.root.1 (List.append_eq_nil_iff.mp hnil).1
        rw [Extraction.exists, hreal]
        rfl
      simp only [Extraction.act, hkind, htarget, hcanonical', hexists, Bool.false_eq_true, if_false]
      rfl
    rw [hact, recordWrite_same (s := u.state) (t := t) rfl]
    exact ⟨h.defer hx hnot .reading, rfl⟩

end Act

theorem Unpacked.nextEntry_dir (h : Unpacked T dest done u) {q : List Name}
    (hq : q = [] ∨ T.Has q .dir) (slash : Bool) (linkName : Name) (mode : ℕ) :
    Unpacked T dest (done ++ [(q, .dir)])
        ⟨u.state.nextEntry dest 1
          ⟨joinPath (T.top :: (q ++ if slash then [[]] else [])), linkName, .directory, mode⟩,
          u.content⟩ ∧
      (u.state.nextEntry dest 1
        ⟨joinPath (T.top :: (q ++ if slash then [[]] else [])), linkName, .directory, mode⟩).phase =
          u.state.phase := by
  have hnames : ∀ n ∈ q, IsName n := by
    rcases hq with rfl | hdir
    · nofun
    · exact (T.names _ hdir).2
  have hname := entryName_joinPath T.top_name.2.1 (slash_not_mem hnames slash)
  unfold Extraction.nextEntry
  rw [hname]
  by_cases hempty : q ++ (if slash then [[]] else []) = []
  · -- the top directory is skipped
    rw [if_pos hempty]
    exact ⟨h.mark fun hne => absurd (List.append_eq_nil_iff.mp hempty).1 hne, rfl⟩
  · rw [if_neg hempty]
    simp only [canonicalFile_joinPath hnames slash (h.clear hq).unlinked, List.prefix_append,
      not_true, if_false]
    obtain ⟨hmade, hdirs⟩ := h.mkdirs hq u.state.phase
    refine ⟨hmade.mark fun hne => ?_, rfl⟩
    exact hdirs _ List.prefix_rfl fun hnil => hne (List.append_eq_nil_iff.mp hnil).2

theorem Unpacked.nextEntry_other (h : Unpacked T dest done u) {q : List Name} {n : Name}
    (hx : T.Has (q ++ [n]) x) (hnone : u.state.tree.node (dest ++ (q ++ [n])) = none)
    (entry : TarEntry) (hname : entry.name = joinPath (T.top :: (q ++ [n])))
    (hkind : entry.kind ≠ .directory) :
    u.state.nextEntry dest 1 entry = { u.state.mkdirs (dest ++ q) with
      phase := .acting entry (dest ++ (q ++ [n])) } := by
  have hnames := (T.names _ hx).2
  have hsplit := entryName_joinPath T.top_name.2.1 fun m hm => (hnames m hm).2.1
  have hcanonical := canonicalFile_joinPath hnames false (h.unlinked hx fun target htarget => by
    rw [hnone] at htarget
    cases htarget)
  simp only [Bool.false_eq_true, if_false, List.append_nil] at hcanonical
  unfold Extraction.nextEntry
  rw [hname, hsplit, if_neg (by simp)]
  simp only [hcanonical, List.prefix_append, not_true, if_false]
  rw [← List.append_assoc, List.dropLast_concat]
  cases hentry : entry.kind with
  | directory => exact absurd hentry hkind
  | symbolicLink => rfl
  | link => rfl
  | regular => rfl

/-- **One entry**, of a node not read before unless it is a directory. -/
theorem Unpacked.read (h : Unpacked T dest done u) (hphase : u.state.phase = .reading)
    (happart : T.NamesApart) {allowed : List Name → Bool}
    (hallowed : ∀ p text, T.Has p (.symlink text) → allowed (dest ++ p) = true)
    (hcopies : T.CopiesReadable dest allowed)
    {node : List Name × ArchiveNode β} {item : ArchiveItem β} (hentry : EntryOf T.top node item)
    (hnode : node = ([], .dir) ∨ T.Has node.1 node.2) (hnew : node.2 = .dir ∨ node ∉ done) :
    Unpacked T dest (done ++ [node]) (u.read dest 1 allowed item) ∧
      (u.read dest 1 allowed item).state.phase = .reading := by
  have hslash : ∀ {p x}, T.Has p x → ∀ n ∈ p, '/' ∉ n :=
    fun hx n hn => ((T.names _ hx).2 n hn).2.1
  cases hentry with
  | dir p slash linkName mode data =>
    have hp : p = [] ∨ T.Has p .dir := by
      rcases hnode with hroot | hhas
      · exact .inl (Prod.mk.inj hroot).1
      · exact .inr hhas
    obtain ⟨hread, hsame⟩ := h.nextEntry_dir hp slash linkName mode
    rw [hphase] at hsame
    simp only [Unpacking.read, hphase, hsame]
    exact ⟨hread, trivial⟩
  | file p linkName content mode =>
    have hx : T.Has p (.file content mode) := hnode.resolve_left nofun
    have hnot := hnew.resolve_left nofun
    obtain ⟨q, n, rfl, hq⟩ := hx.parent
    have hnext := h.nextEntry_other hx (h.fresh _ _ hx nofun hnot)
      ⟨joinPath (T.top :: (q ++ [n])), linkName, .regular, mode⟩ rfl nofun
    obtain ⟨hmade, hdirs⟩ := h.mkdirs hq (.acting
      ⟨joinPath (T.top :: (q ++ [n])), linkName, .regular, mode⟩ (dest ++ (q ++ [n])))
    simp only [Unpacking.read, hphase, hnext]
    exact hmade.act_regular (allowed _) hx hnot hdirs rfl rfl
  | symlink p text mode data =>
    have hx : T.Has p (.symlink text) := hnode.resolve_left nofun
    have hnot := hnew.resolve_left nofun
    obtain ⟨q, n, rfl, hq⟩ := hx.parent
    have hnext := h.nextEntry_other hx (h.fresh _ _ hx nofun hnot)
      ⟨joinPath (T.top :: (q ++ [n])), text, .symbolicLink, mode⟩ rfl nofun
    obtain ⟨hmade, hdirs⟩ := h.mkdirs hq (.acting
      ⟨joinPath (T.top :: (q ++ [n])), text, .symbolicLink, mode⟩ (dest ++ (q ++ [n])))
    simp only [Unpacking.read, hphase, hnext, hallowed _ _ hx]
    exact hmade.act_symlink hx hnot hdirs rfl
      ((stripLinkTarget_symlink T.top_name (hslash hx)).mpr (happart.symlinks _ _ hx)) none
  | hardLink p target mode data =>
    have hx : T.Has p (.hardLink target) := hnode.resolve_left nofun
    have hnot := hnew.resolve_left nofun
    obtain ⟨c, fileMode, hc⟩ := T.linked _ _ hx
    obtain ⟨q, n, rfl, hq⟩ := hx.parent
    have hstrip := stripLinkTarget_hardLink T.top_name (hslash hx) (hslash hc) (T.names _ hc).1
    rw [if_neg (happart.hardLinks _ _ hx)] at hstrip
    have hnext := h.nextEntry_other hx (h.fresh _ _ hx nofun hnot)
      ⟨joinPath (T.top :: (q ++ [n])), joinPath (T.top :: target), .link, mode⟩ rfl nofun
    obtain ⟨hmade, hdirs⟩ := h.mkdirs hq (.acting
      ⟨joinPath (T.top :: (q ++ [n])), joinPath (T.top :: target), .link, mode⟩ (dest ++ (q ++ [n])))
    simp only [Unpacking.read, hphase, hnext, hstrip]
    exact hmade.act_link (allowed _) hx hnot hdirs rfl hstrip fun c mode hc => hcopies _ _ c mode hx hc

/-! ### Runs -/

theorem unpacked_of_initial (hinit : s.Initial dest) :
    Unpacked T dest [] ⟨s, fun _ => none⟩ := by
  refine ⟨hinit.closed, hinit.dest, hinit.nothing.1, fun p y hp hy => ?_, fun p x hx _ _ => ?_, nofun,
    fun pair hpair => ?_, ?_, fun p inode hinode => hinit.inodes _ _ hinode,
    fun p c mode inode hfile hinode => ?_⟩
  · rw [hinit.empty p hp] at hy
    cases hy
  · exact hinit.empty p hx.ne_nil
  · rw [hinit.nothing.2.1] at hpair
    cases hpair
  · rw [hinit.nothing.2.1]
    exact List.nodup_nil
  · rw [hinit.empty p hfile.ne_nil] at hinode
    cases hinode

/-- All entries: those of a node are read once, unless it is a directory. -/
theorem Unpacked.readAll (happart : T.NamesApart) {allowed : List Name → Bool}
    (hallowed : ∀ p text, T.Has p (.symlink text) → allowed (dest ++ p) = true)
    (hcopies : T.CopiesReadable dest allowed)
    {listing : List (List Name × ArchiveNode β)} {items : List (ArchiveItem β)}
    (hentries : List.Forall₂ (EntryOf T.top) listing items) :
    ∀ {done u}, Unpacked T dest done u → u.state.phase = .reading →
      (∀ node ∈ listing, node = ([], .dir) ∨ T.Has node.1 node.2) →
      (done ++ listing).Pairwise (fun node other => node = other → node.2 = .dir) →
      Unpacked T dest (done ++ listing) (items.foldl (Unpacking.read dest 1 allowed) u) ∧
        (items.foldl (Unpacking.read dest 1 allowed) u).state.phase = .reading := by
  induction hentries with
  | nil =>
    intro done u h hphase _ _
    rw [List.append_nil]
    exact ⟨h, hphase⟩
  | @cons node item listing items hentry _ ih =>
    intro done u h hphase hnodes hpairs
    have hnew : node.2 = .dir ∨ node ∉ done := by
      by_cases hmem : node ∈ done
      · exact .inl ((List.pairwise_append.mp hpairs).2.2 node hmem node (.head _) rfl)
      · exact .inr hmem
    obtain ⟨hread, hreading⟩ :=
      h.read hphase happart hallowed hcopies hentry (hnodes node (.head _)) hnew
    rw [List.append_cons] at hpairs ⊢
    exact ih hread hreading (fun other hother => hnodes other (.tail _ hother)) hpairs

theorem Unpacked.shown (h : Unpacked T dest done u) (hx : T.Has p x) (hmem : (p, x) ∈ done)
    (hthere : ∀ target, x = .hardLink target →
      (dest ++ p, dest ++ target) ∉ u.state.deferredHardLinks) :
    ∃ y, u.state.tree.node (dest ++ p) = some y ∧ T.Shows u.content x y := by
  cases hnode : u.state.tree.node (dest ++ p) with
  | none =>
    obtain ⟨target, hlink, hdeferred⟩ := h.present p x hmem hx.ne_nil hnode
    exact absurd hdeferred (hthere target hlink)
  | some y =>
    obtain ⟨x', hx', hshows⟩ := h.sound p y hx.ne_nil hnode
    obtain rfl := hx'.eq hx
    exact ⟨y, rfl, hshows⟩

/-- **One deferred hard link**, when everything else is there. -/
theorem Unpacked.link (h : Unpacked T dest done u) (hphase : u.state.phase = .linking)
    (hall : ∀ p x, T.Has p x → (p, x) ∈ done) {allowed : List Name → Bool}
    (hcopies : T.CopiesReadable dest allowed)
    {pair : List Name × List Name} {rest : List (List Name × List Name)}
    (hdeferred : u.state.deferredHardLinks = pair :: rest) :
    Unpacked T dest done (u.link allowed) ∧ (u.link allowed).state.phase = .linking ∧
      (u.link allowed).state.deferredHardLinks = rest := by
  obtain ⟨p, target, rfl, hx, hmem, hnone⟩ := h.deferred pair (hdeferred ▸ .head _)
  obtain ⟨c, mode, hc⟩ := T.linked _ _ hx
  obtain ⟨y, hy, hshows⟩ := h.shown hc (hall _ _ hc) nofun
  obtain ⟨inode, rfl⟩ : ∃ inode, y = .file inode := by
    cases hshows
    exact ⟨_, rfl⟩
  have hdir : ∀ q, q = [] ∨ T.Has q .dir → u.state.tree.Dirs (dest ++ q) := by
    intro q hq
    refine h.closed.dirs (.inr ?_)
    rcases hq with rfl | hq
    · rw [List.append_nil]
      exact h.root.2
    · obtain ⟨z, hz, hshows⟩ := h.shown hq (hall _ _ hq) nofun
      cases hshows
      exact hz
  have hfollow := h.follow_file hc hy
  let s : Extraction := { u.state with deferredHardLinks := rest }
  have hawaits : Awaits dest u s p := by
    refine ⟨rfl, rfl, rfl, rfl, ?_, fun pair hpair => ?_, fun pair hpair heq => ?_⟩
    · rw [hdeferred]
      exact List.sublist_cons_self _ _
    · rw [hdeferred] at hpair
      rcases List.mem_cons.mp hpair with rfl | hrest
      · exact .inr rfl
      · exact .inl hrest
    · have honce := h.once
      rw [hdeferred, List.map_cons, List.nodup_cons] at honce
      exact honce.1 (List.mem_map.mpr ⟨pair, hpair, heq⟩)
  have hlink : u.link allowed = ⟨s.linkOrCopy (dest ++ p) (dest ++ target) (allowed (dest ++ p)),
      recordWrite u.content s
        (s.linkOrCopy (dest ++ p) (dest ++ target) (allowed (dest ++ p))) (u.content inode)⟩ := by
    have hexists : s.exists (dest ++ target) = true := by
      rw [Extraction.exists, show s.tree = u.state.tree from rfl, hfollow]
      rfl
    have hstep : u.state.linkDeferred (allowed (dest ++ p)) =
        s.linkOrCopy (dest ++ p) (dest ++ target) (allowed (dest ++ p)) := by
      simp only [Extraction.linkDeferred, hdeferred]
      exact if_pos hexists
    have hread : readFile u.state u.content (dest ++ target) = u.content inode := by
      rw [readFile, hfollow]
    simp only [Unpacking.link, hphase, hdeferred, hstep, hread]
    rfl
  have hmarked : ∀ node, node ∈ done ↔ node ∈ done ∨ node = (p, .hardLink target) :=
    fun node => ⟨.inl, fun hnode => hnode.elim id fun heq => heq ▸ hmem⟩
  obtain ⟨hlinked, hsame, hrest⟩ := h.linkOrCopy hx hc hawaits (fun q n heq => by
    obtain ⟨q', n', heq', hq⟩ := hx.parent
    obtain ⟨rfl, -⟩ := List.append_inj' (heq.symm.trans heq') rfl
    exact hdir q hq) hnone hy (hcopies _ _ c mode hx hc) hmarked
  rw [hlink]
  exact ⟨hlinked, hsame.trans hphase, hrest⟩

/-- All deferred hard links, to the end. -/
theorem Unpacked.linkAll (hall : ∀ p x, T.Has p x → (p, x) ∈ done)
    {allowed : List Name → Bool} (hcopies : T.CopiesReadable dest allowed) :
    ∀ {deferred u}, Unpacked T dest done u → u.state.phase = .linking →
      u.state.deferredHardLinks = deferred →
      Unpacked T dest done (Unpacking.linkAll allowed (deferred.length + 1) u) ∧
        (Unpacking.linkAll allowed (deferred.length + 1) u).state.phase = .done ∧
        (Unpacking.linkAll allowed (deferred.length + 1) u).state.deferredHardLinks = [] := by
  intro deferred
  induction deferred with
  | nil =>
    intro u h hphase hdeferred
    have hend : u.link allowed = ⟨{ u.state with phase := .done }, u.content⟩ := by
      simp only [Unpacking.link, hphase, hdeferred, Extraction.linkDeferred]
    show Unpacked T dest done (u.link allowed) ∧ (u.link allowed).state.phase = .done ∧
      (u.link allowed).state.deferredHardLinks = []
    rw [hend]
    exact ⟨⟨h.closed, h.root, h.failed, h.sound, h.fresh, h.present, h.deferred, h.once, h.inodes,
      h.readable⟩, rfl, hdeferred⟩
  | cons pair rest ih =>
    intro u h hphase hdeferred
    obtain ⟨hlinked, hlinking, hrest⟩ := h.link hphase hall hcopies hdeferred
    exact ih hlinked hlinking hrest

end Unpacked

/-- **All of `extract`.**  It ends, and then every node of the tree is there. -/
theorem unpack_shows {T : ArchivedTree β} {dest : List Name} {start : Extraction}
    (hinit : start.Initial dest) {items : List (ArchiveItem β)} (harchive : T.IsArchive items)
    {allowed : List Name → Bool}
    (hallowed : ∀ p text, T.Has p (.symlink text) → allowed (dest ++ p) = true)
    (happart : T.NamesApart) (hcopies : T.CopiesReadable dest allowed) :
    (unpack dest 1 allowed start items).state.phase = .done ∧
      (unpack dest 1 allowed start items).state.tree.Closed ∧
      (unpack dest 1 allowed start items).state.tree.node dest = some .dir ∧
      ∀ p x, T.Has p x → ∃ y, (unpack dest 1 allowed start items).state.tree.node (dest ++ p) = some y ∧
        T.Shows (unpack dest 1 allowed start items).content x y := by
  obtain ⟨listing, tops, hperm, hentries⟩ := harchive
  have hmem : ∀ node, node ∈ listing ↔ node ∈ List.replicate tops ([], .dir) ∨ node ∈ T.nodes :=
    fun node => by rw [hperm.mem_iff, List.mem_append]
  have hpairs : listing.Pairwise fun node other => node = other → node.2 = .dir := by
    refine hperm.symm.pairwise ?_ fun h heq => heq ▸ h heq.symm
    refine List.pairwise_append.mpr ⟨List.pairwise_replicate.mpr (.inr fun _ => rfl), ?_, ?_⟩
    · exact (List.Nodup.of_map _ T.unique).imp fun hne heq => absurd heq hne
    · intro node hnode other _ _
      rw [(List.mem_replicate.mp hnode).2]
  obtain ⟨hread, hreading⟩ := (unpacked_of_initial (T := T) hinit).readAll happart hallowed hcopies
    hentries hinit.phase (fun node hnode => by
      rcases (hmem node).mp hnode with htop | hnodes
      · exact .inl (List.mem_replicate.mp htop).2
      · exact .inr hnodes) hpairs
  rw [List.nil_append] at hread
  have hend : ∀ u : Unpacking β, u.state.phase = .reading → u.state.failedSymlinks = [] →
      items.foldl (Unpacking.read dest 1 allowed) ⟨start, fun _ => none⟩ = u →
      unpack dest 1 allowed start items =
        Unpacking.linkAll allowed (u.state.deferredHardLinks.length + 1)
          ⟨{ u.state with phase := .linking }, u.content⟩ := by
    rintro u hphase hfailed rfl
    simp only [unpack, hphase, Extraction.endOfArchive, hfailed]
    rfl
  rw [hend _ hreading hread.failed rfl]
  have hall : ∀ p x, T.Has p x → (p, x) ∈ listing := fun p x hx => (hmem _).mpr (.inr hx)
  have hstart : Unpacked T dest listing
      ⟨{ (items.foldl (Unpacking.read dest 1 allowed) ⟨start, fun _ => none⟩).state with
        phase := .linking },
        (items.foldl (Unpacking.read dest 1 allowed) ⟨start, fun _ => none⟩).content⟩ :=
    ⟨hread.closed, hread.root, hread.failed, hread.sound, hread.fresh, hread.present, hread.deferred,
      hread.once, hread.inodes, hread.readable⟩
  obtain ⟨hlinked, hdone, hnone⟩ := hstart.linkAll hall hcopies rfl rfl
  refine ⟨hdone, hlinked.closed, hlinked.root.2, fun p x hx => ?_⟩
  refine hlinked.shown hx (hall p x hx) fun target _ hdeferred => ?_
  rw [hnone] at hdeferred
  cases hdeferred

end Wldroid.Proot
