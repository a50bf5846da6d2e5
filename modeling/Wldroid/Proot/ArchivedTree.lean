import Wldroid.Proot.RootfsExtractor

/-!
# File trees in an archive

A tree of directories, files, relative symbolic links and hard links, and the archive that has it
under one top directory.

* `ArchivedTree` — the tree; its hard links are other names of its regular files;
* `ArchivedTree.Leads`, `ArchivedTree.Resolves` — where a path and a symbolic link lead in it;
* `ArchiveItem`, `ArchivedTree.IsArchive` — the entries that a tree has in an archive, in any order;
* `ArchivedTree.NamesApart` — no link target is mistaken for one of the other kind by its first
  component;
* `stripLinkTarget_symlink`, `stripLinkTarget_hardLink` — what is stripped of it, then and
  otherwise.
-/

namespace Wldroid.Proot

open Wldroid.Foundation

/-! ### Trees -/

/-- A name that a file can have. -/
def IsName (n : Name) : Prop := n ≠ [] ∧ '/' ∉ n ∧ n ≠ ['.'] ∧ n ≠ ['.', '.']

/-- What is at a path of the tree; the files have contents of any type, and a mode. -/
inductive ArchiveNode (β : Type) where
  | dir
  | file (content : β) (mode : ℕ)
  | symlink (text : Name)
  | hardLink (target : List Name)

/-- A tree under a top directory; the paths are those from there. -/
structure ArchivedTree (β : Type) where
  top : Name
  nodes : List (List Name × ArchiveNode β)
  top_name : IsName top
  unique : (nodes.map Prod.fst).Nodup
  names : ∀ node ∈ nodes, node.1 ≠ [] ∧ ∀ n ∈ node.1, IsName n
  closed : ∀ p n x, (p ++ [n], x) ∈ nodes → p = [] ∨ (p, .dir) ∈ nodes
  relative : ∀ p text, (p, .symlink text) ∈ nodes → text ≠ [] ∧ text.head? ≠ some '/'
  linked : ∀ p target, (p, .hardLink target) ∈ nodes →
    ∃ content mode, (target, .file content mode) ∈ nodes

namespace ArchivedTree

variable {β : Type} (T : ArchivedTree β)

def Has (p : List Name) (x : ArchiveNode β) : Prop := (p, x) ∈ T.nodes

variable {T}

theorem Has.eq {p : List Name} {x y : ArchiveNode β} (hx : T.Has p x) (hy : T.Has p y) : x = y := by
  have hpair := List.inj_on_of_nodup_map T.unique hx hy rfl
  exact (Prod.mk.inj hpair).2

theorem Has.ne_nil {p : List Name} {x : ArchiveNode β} (h : T.Has p x) : p ≠ [] :=
  (T.names _ h).1

/-- What is there is below directories. -/
theorem Has.ancestor {p rest : List Name} {x : ArchiveNode β} (hrest : rest ≠ [])
    (h : T.Has (p ++ rest) x) : p = [] ∨ T.Has p .dir := by
  induction rest using List.reverseRecOn generalizing x with
  | nil => exact absurd rfl hrest
  | append_singleton rest n ih =>
    have hparent := T.closed (p ++ rest) n x (by rw [List.append_assoc]; exact h)
    by_cases hlast : rest = []
    · rwa [hlast, List.append_nil] at hparent
    · rcases hparent with hnil | hdir
      · exact absurd (List.append_eq_nil_iff.mp hnil).2 hlast
      · exact ih hlast hdir

variable (T)

/-! ### Where links lead -/

/-- What is at a path from the directory that the top directory is in. -/
inductive At : List Name → ArchiveNode β → Prop where
  | top : At [T.top] .dir
  | below {p : List Name} {x : ArchiveNode β} (h : T.Has p x) : At (T.top :: p) x

/-- Where a path leads from a directory through so many links, when `..` leads to directories of a
kind. -/
inductive Leads (kind : List Name → Prop) :
    ℕ → List Name → List (PathPart Name) → List Name → Prop where
  | nil (cur : List Name) : Leads kind 0 cur [] cur
  | here {k : ℕ} {cur q : List Name} {rest : List (PathPart Name)} (h : Leads kind k cur rest q) :
      Leads kind k cur (.here :: rest) q
  | up {k : ℕ} {cur q : List Name} {n : Name} {rest : List (PathPart Name)} (hkind : kind cur)
      (h : Leads kind k cur rest q) : Leads kind k (cur ++ [n]) (.up :: rest) q
  | dir {k : ℕ} {cur q : List Name} {n : Name} {rest : List (PathPart Name)}
      (hdir : T.At (cur ++ [n]) .dir) (h : Leads kind k (cur ++ [n]) rest q) :
      Leads kind k cur (.name n :: rest) q
  | file {cur : List Name} {n : Name} {content : β} {mode : ℕ}
      (hfile : T.At (cur ++ [n]) (.file content mode)) : Leads kind 0 cur [.name n] (cur ++ [n])
  | hardLink {cur : List Name} {n : Name} {target : List Name}
      (hlink : T.At (cur ++ [n]) (.hardLink target)) : Leads kind 0 cur [.name n] (cur ++ [n])
  | link {k : ℕ} {cur q : List Name} {n text : Name} {rest : List (PathPart Name)}
      (hlink : T.At (cur ++ [n]) (.symlink text))
      (h : Leads kind k cur (pathParts text ++ rest) q) : Leads kind (k + 1) cur (.name n :: rest) q

/-- The node at a path resolves to that at another, when `..` leads to directories of a kind. -/
def ResolvesBy (kind : List Name → Prop) (p q : List Name) : Prop :=
  ∃ k ≤ maxLinks, ∃ cur n, T.top :: p = cur ++ [n] ∧ T.Leads kind k cur [.name n] (T.top :: q)

/-- It resolves to that in the tree. -/
def Resolves (p q : List Name) : Prop := T.ResolvesBy (fun _ => True) p q

/-- No symbolic link goes out of the top directory, to return by its name. -/
def StaysBelow : Prop :=
  ∀ p text q, T.Has p (.symlink text) → T.Resolves p q → T.ResolvesBy (fun cur => cur ≠ []) p q

end ArchivedTree

/-! ### Archives -/

/-- An entry with the data that follows it. -/
structure ArchiveItem (β : Type) where
  entry : TarEntry
  data : β

/-- The entry of a node below the top directory.  The name of a directory may end in a slash. -/
inductive EntryOf {β : Type} (top : Name) : List Name × ArchiveNode β → ArchiveItem β → Prop where
  | dir (p : List Name) (slash : Bool) (linkName : Name) (mode : ℕ) (data : β) :
      EntryOf top (p, .dir)
        ⟨⟨joinPath (top :: (p ++ if slash then [[]] else [])), linkName, .directory, mode⟩, data⟩
  | file (p : List Name) (linkName : Name) (content : β) (mode : ℕ) :
      EntryOf top (p, .file content mode) ⟨⟨joinPath (top :: p), linkName, .regular, mode⟩, content⟩
  | symlink (p : List Name) (text : Name) (mode : ℕ) (data : β) :
      EntryOf top (p, .symlink text) ⟨⟨joinPath (top :: p), text, .symbolicLink, mode⟩, data⟩
  | hardLink (p target : List Name) (mode : ℕ) (data : β) :
      EntryOf top (p, .hardLink target)
        ⟨⟨joinPath (top :: p), joinPath (top :: target), .link, mode⟩, data⟩

/-- The items are those of the nodes of the tree in some order, and some of the top directory. -/
def ArchivedTree.IsArchive {β : Type} (T : ArchivedTree β) (items : List (ArchiveItem β)) : Prop :=
  ∃ listing tops, listing.Perm (List.replicate tops ([], .dir) ++ T.nodes) ∧
    List.Forall₂ (EntryOf T.top) listing items

/-! ### Names -/

theorem splitPath_joinPath {parts : List Name} (hparts : ∀ n ∈ parts, '/' ∉ n) (hne : parts ≠ []) :
    splitPath (joinPath parts) = parts :=
  List.splitOn_intercalate '/' hparts hne

theorem pathParts_name {n : Name} (hn : IsName n) :
    (if n = ['.'] then PathPart.here else if n = ['.', '.'] then .up else .name n) = .name n := by
  rw [if_neg hn.2.2.1, if_neg hn.2.2.2]

/-- The last part may be empty. -/
theorem slash_not_mem {p : List Name} (hp : ∀ n ∈ p, IsName n) (slash : Bool) :
    ∀ n ∈ p ++ (if slash then [[]] else []), '/' ∉ n := by
  intro n hn
  rcases List.mem_append.mp hn with hn | hn
  · exact (hp n hn).2.1
  · cases slash
    · exact absurd hn List.not_mem_nil
    · rw [List.mem_singleton.mp hn]
      exact List.not_mem_nil

/-- A path of names is read as it stands, with a slash at its end or not. -/
theorem pathParts_joinPath {p : List Name} (hp : ∀ n ∈ p, IsName n) (slash : Bool) :
    pathParts (joinPath (p ++ if slash then [[]] else [])) = plain p := by
  have hnames : ∀ q : List Name, (∀ n ∈ q, IsName n) →
      ((q.filter fun part => part ≠ []).map fun part =>
        if part = ['.'] then PathPart.here else if part = ['.', '.'] then .up else .name part) =
        plain q := by
    intro q hq
    rw [List.filter_eq_self.mpr fun n hn => decide_eq_true (hq n hn).1]
    exact List.map_congr_left fun n hn => pathParts_name (hq n hn)
  unfold pathParts
  by_cases hempty : p ++ (if slash then [[]] else []) = []
  · rw [hempty, (List.append_eq_nil_iff.mp hempty).1]
    rfl
  · rw [splitPath_joinPath (slash_not_mem hp slash) hempty, List.filter_append]
    have htail : (if slash then [[]] else ([] : List Name)).filter (fun part => part ≠ []) = [] := by
      cases slash <;> rfl
    rw [htail, List.append_nil]
    exact hnames p hp

theorem entryName_joinPath {top : Name} (htop : '/' ∉ top) {parts : List Name}
    (hparts : ∀ n ∈ parts, '/' ∉ n) :
    entryName 1 (joinPath (top :: parts)) = if parts = [] then none else some (joinPath parts) := by
  have hsplit := splitPath_joinPath (List.forall_mem_cons.mpr ⟨htop, hparts⟩)
    (List.cons_ne_nil top parts)
  simp only [entryName, hsplit, zero_lt_one, if_true]
  by_cases hempty : parts = []
  · rw [if_pos hempty, if_pos (by simp [hempty])]
  · have hpos := List.length_pos_iff.mpr hempty
    rw [if_neg hempty, if_neg (by rw [List.length_cons]; push_cast; omega)]
    rfl

/-! ### Link targets -/

/-- No symbolic link starts with the name of the top directory and a slash, and if there are hard
links, that name does not start with a dot (where it does, nothing is stripped of any target). -/
structure ArchivedTree.NamesApart {β : Type} (T : ArchivedTree β) : Prop where
  symlinks : ∀ p text, T.Has p (.symlink text) →
    T.top.head? = some '.' ∨ ¬ T.top ++ ['/'] <+: text
  hardLinks : ∀ p target, T.Has p (.hardLink target) → T.top.head? ≠ some '.'

/-- The mode lets the owner, or everybody, read the file. -/
def mayRead (mode : ℕ) : Bool := mode.testBit 8 || mode.testBit 2

/-- Where the file system refuses a hard link, so that the file is copied, it may be read. -/
def ArchivedTree.CopiesReadable {β : Type} (T : ArchivedTree β) (dest : List Name)
    (allowed : List Name → Bool) : Prop :=
  ∀ p target content mode, T.Has p (.hardLink target) → T.Has target (.file content mode) →
    allowed (dest ++ p) = true ∨ mayRead mode = true

/-- **Just such a target** of a symbolic link is left as it is. -/
theorem stripLinkTarget_symlink {top text : Name} (htop : IsName top) {p : List Name}
    (hp : ∀ n ∈ p, '/' ∉ n) :
    stripLinkTarget text (joinPath (top :: p)) 1 = text ↔
      top.head? = some '.' ∨ ¬ top ++ ['/'] <+: text := by
  have hsplit := splitPath_joinPath (List.forall_mem_cons.mpr ⟨htop.2.1, hp⟩)
    (List.cons_ne_nil top p)
  by_cases hprefix : top ++ ['/'] <+: text
  · obtain ⟨rest, rfl⟩ := hprefix
    rw [List.append_assoc, List.singleton_append]
    obtain ⟨c, name, rfl⟩ := List.exists_cons_of_ne_nil htop.1
    have hslash : c ≠ '/' := fun h => htop.2.1 (h ▸ .head _)
    have hparts : splitPath ((c :: name) ++ '/' :: rest) = (c :: name) :: splitPath rest :=
      List.splitOn_append_cons_self_of_not_mem htop.2.1 rest
    have hlong : 0 < (splitPath rest).length := List.length_pos_iff.mpr (List.splitOn_ne_nil '/' rest)
    have hstrip : stripLinkTarget ((c :: name) ++ '/' :: rest) (joinPath ((c :: name) :: p)) 1 =
        if c = '.' then (c :: name) ++ '/' :: rest else rest := by
      unfold stripLinkTarget
      rw [if_neg (by decide)]
      by_cases hdot : c = '.'
      · rw [if_pos (.inl (congrArg some hdot)), if_pos hdot]
      · rw [if_neg (by simp [hdot, hslash]), if_neg hdot]
        simp only [hsplit, hparts, List.length_cons]
        rw [if_pos (by push_cast; omega)]
        exact (if_pos rfl).trans (List.intercalate_splitOn '/')
    rw [hstrip]
    by_cases hdot : c = '.'
    · rw [if_pos hdot]
      exact iff_of_true rfl (.inl (congrArg some hdot))
    · rw [if_neg hdot]
      refine iff_of_false (fun heq => ?_) ?_
      · have hlength := congrArg List.length heq
        simp at hlength
        omega
      · rintro (hhead | hnot)
        · exact hdot (Option.some.inj hhead)
        · exact hnot ⟨rest, by simp⟩
  · refine iff_of_true ?_ (.inr hprefix)
    unfold stripLinkTarget
    rw [if_neg (by decide)]
    split
    · rfl
    · simp only [hsplit]
      split
      · rename_i hlong
        rw [if_neg]
        intro hfirst
        -- its first component would be the top directory, with more after it
        have hjoin : joinPath (splitPath text) = text := List.intercalate_splitOn _
        obtain ⟨first, rest, hparts⟩ := List.exists_cons_of_ne_nil (List.splitOn_ne_nil '/' text)
        change splitPath text = _ at hparts
        rw [hparts] at hlong hfirst hjoin
        obtain rfl : first = top := List.head_eq_of_cons_eq hfirst
        obtain ⟨second, rest, rfl⟩ := List.exists_cons_of_ne_nil (l := rest) (by
          rintro rfl
          exact absurd hlong (by simp))
        refine hprefix ⟨joinPath (second :: rest), ?_⟩
        rw [← hjoin]
        simp [joinPath, List.intercalate]
      · rfl

/-- The target of a hard link is stripped of the top directory, unless that is hidden. -/
theorem stripLinkTarget_hardLink {top : Name} (htop : IsName top) {p target : List Name}
    (hp : ∀ n ∈ p, '/' ∉ n) (htarget : ∀ n ∈ target, '/' ∉ n) (hne : target ≠ []) :
    stripLinkTarget (joinPath (top :: target)) (joinPath (top :: p)) 1 =
      if top.head? = some '.' then joinPath (top :: target) else joinPath target := by
  have hsplit : ∀ q : List Name, (∀ n ∈ q, '/' ∉ n) → splitPath (joinPath (top :: q)) = top :: q :=
    fun q hq => splitPath_joinPath (List.forall_mem_cons.mpr ⟨htop.2.1, hq⟩) (List.cons_ne_nil top q)
  obtain ⟨c, name, rfl⟩ := List.exists_cons_of_ne_nil htop.1
  obtain ⟨first, rest, rfl⟩ := List.exists_cons_of_ne_nil hne
  have hhead : (joinPath ((c :: name) :: first :: rest)).head? = some c := by
    simp [joinPath, List.intercalate]
  have hslash : c ≠ '/' := fun h => htop.2.1 (h ▸ .head _)
  unfold stripLinkTarget
  rw [if_neg (by decide), hhead, List.head?_cons]
  by_cases hdot : some c = some '.'
  · rw [if_pos (.inl hdot), if_pos hdot]
  · rw [if_neg (fun h => h.elim hdot fun hhead => hslash (Option.some.inj hhead)), if_neg hdot]
    simp only [hsplit _ htarget, hsplit _ hp, List.length_cons]
    rw [if_pos (by push_cast; omega)]
    exact if_pos rfl

end Wldroid.Proot
