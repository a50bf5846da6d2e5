import Wldroid.Proot.Containment
import Wldroid.Proot.UnpackedTree

/-!
# Links after stripping

Where the symbolic links and the hard links of an extracted tree lead.

* `ArchivedTree.LinksSurvive` — every symbolic link leads to the counterpart of what it led to, and
  every hard link has the content of its target's;
* `ArchivedTree.Leads.walk` — a path leads in the extracted tree where it led in the archived one;
* **`linksSurvive_of_namesApart`** — the links survive where no link target is mistaken for one of
  the other kind;
* `namesake_lost` — a link into a directory that is called like the top directory.
-/

namespace Wldroid.Proot

open Wldroid.Foundation

variable {β : Type}

/-! ### Where the links lead -/

section Links

variable {T : ArchivedTree β} {dest : List Name} {u : Unpacking β}

/-- The node at a path, or the top directory, is there. -/
def ArchivedTree.Counterpart (T : ArchivedTree β) (dest : List Name) (u : Unpacking β)
    (q : List Name) : Prop :=
  q = [] ∨ ∃ x y, T.Has q x ∧ u.state.tree.node (dest ++ q) = some y ∧ T.Shows u.content x y

/-- A symbolic link leads to the counterpart of the node it led to, and a hard link has the content
of that of its target. -/
structure ArchivedTree.LinksSurvive (T : ArchivedTree β) (dest : List Name) (u : Unpacking β) :
    Prop where
  symlinks : ∀ p text q, T.Has p (.symlink text) → T.Resolves p q →
    (u.state.tree.follow (dest ++ p)).real = some (dest ++ q) ∧ T.Counterpart dest u q
  hardLinks : ∀ p target content mode, T.Has p (.hardLink target) →
    T.Has target (.file content mode) → ∃ i j, u.state.tree.node (dest ++ p) = some (.file i) ∧
      u.state.tree.node (dest ++ target) = some (.file j) ∧
      u.content i = some content ∧ u.content j = some content

/-- The counterpart of a location in the archive.  That of the directory the top directory is in is
the directory of the destination. -/
def placeOf (dest : List Name) : List Name → List Name
  | [] => dest.dropLast
  | _ :: p => dest ++ p

theorem placeOf_dropLast (dest cur : List Name) (n : Name) :
    (placeOf dest (cur ++ [n])).dropLast = placeOf dest cur := by
  cases cur with
  | nil => exact congrArg List.dropLast (List.append_nil dest)
  | cons first p =>
    show (dest ++ (p ++ [n])).dropLast = dest ++ p
    rw [← List.append_assoc, List.dropLast_concat]

/-- What is in a directory of the archive is in its counterpart.  The top directory is in the
directory of the destination if that has its name. -/
theorem ArchivedTree.At.shown (hroot : u.state.tree.node dest = some .dir)
    (hthere : ∀ p x, T.Has p x →
      ∃ y, u.state.tree.node (dest ++ p) = some y ∧ T.Shows u.content x y)
    {cur : List Name} {n : Name} {x : ArchiveNode β} (h : T.At (cur ++ [n]) x)
    (hcur : cur ≠ [] ∨ dest.getLast? = some T.top) :
    placeOf dest (cur ++ [n]) = placeOf dest cur ++ [n] ∧
      ∃ y, u.state.tree.node (placeOf dest cur ++ [n]) = some y ∧ T.Shows u.content x y := by
  generalize hloc : cur ++ [n] = loc at h
  cases h with
  | top =>
    obtain ⟨rfl, hn⟩ := List.append_inj' (hloc.trans (List.nil_append [T.top]).symm) rfl
    obtain rfl := List.head_eq_of_cons_eq hn
    have hdest : dest.dropLast ++ [T.top] = dest :=
      List.dropLast_append_getLast? _ (hcur.resolve_left (fun hne => hne rfl))
    refine ⟨(List.append_nil dest).trans hdest.symm, .dir, ?_, .dir⟩
    show u.state.tree.node (dest.dropLast ++ [T.top]) = _
    rw [hdest]
    exact hroot
  | @below p _ hx =>
    cases cur with
    | nil => exact absurd (List.tail_eq_of_cons_eq hloc).symm hx.ne_nil
    | cons first cur =>
      obtain rfl : cur ++ [n] = p := List.tail_eq_of_cons_eq hloc
      have hplace : dest ++ (cur ++ [n]) = dest ++ cur ++ [n] := (List.append_assoc _ _ _).symm
      refine ⟨hplace, ?_⟩
      show ∃ y, u.state.tree.node (dest ++ cur ++ [n]) = some y ∧ _
      rw [← hplace]
      exact hthere _ _ hx

/-- The directory above is one, or the one that the top directory is in. -/
theorem ArchivedTree.At.dropLast {cur : List Name} {n : Name} (h : T.At (cur ++ [n]) .dir) :
    cur = [] ∨ T.At cur .dir := by
  generalize hloc : cur ++ [n] = loc at h
  cases h with
  | top =>
    exact .inl (List.append_inj' (hloc.trans (List.nil_append [T.top]).symm) rfl).1
  | @below p _ hx =>
    cases cur with
    | nil => exact .inl rfl
    | cons first cur =>
      right
      obtain rfl : first = T.top := List.head_eq_of_cons_eq hloc
      obtain rfl : cur ++ [n] = p := List.tail_eq_of_cons_eq hloc
      rcases hx.ancestor (List.cons_ne_nil n []) with rfl | hdir
      · exact .top
      · exact .below hdir

/-- What a path of the archive leads to is in the archive. -/
theorem ArchivedTree.Leads.at {kind : List Name → Prop} {k : ℕ} {cur q : List Name}
    {path : List (PathPart Name)} (h : T.Leads kind k cur path q)
    (hcur : cur = [] ∨ T.At cur .dir) : q = [] ∨ ∃ x, T.At q x := by
  induction h with
  | nil cur => exact hcur.imp id fun hdir => ⟨_, hdir⟩
  | here _ ih => exact ih hcur
  | @up _ cur _ n _ _ _ ih => exact ih (hcur.resolve_left (by simp)).dropLast
  | dir hdir _ ih => exact ih (.inr hdir)
  | file hfile => exact .inr ⟨_, hfile⟩
  | hardLink hlink => exact .inr ⟨_, hlink⟩
  | link _ _ ih => exact ih hcur

/-- **The way of a path** is the same where every node is there, unless it goes out of the top
directory to come back by a name that the destination does not have. -/
theorem ArchivedTree.Leads.walk {kind : List Name → Prop}
    (hkind : ∀ cur, kind cur → cur ≠ [] ∨ dest.getLast? = some T.top)
    (hroot : u.state.tree.node dest = some .dir)
    (hthere : ∀ p x, T.Has p x → ∃ y, u.state.tree.node (dest ++ p) = some y ∧ T.Shows u.content x y)
    {k : ℕ} {cur q : List Name} {path : List (PathPart Name)} (h : T.Leads kind k cur path q) :
    (cur ≠ [] ∨ dest.getLast? = some T.top) → ∀ {links}, k ≤ links →
      (u.state.tree.walk links (placeOf dest cur) path).real = some (placeOf dest q) := by
  induction h with
  | nil cur =>
    intro _ links _
    rw [walk_nil]
    rfl
  | here _ ih =>
    intro hcur links hk
    rw [walk_here]
    exact ih hcur hk
  | up hup _ ih =>
    intro _ links hk
    rw [walk_up, placeOf_dropLast]
    exact ih (hkind _ hup) hk
  | dir hdir _ ih =>
    intro hcur links hk
    obtain ⟨hplace, y, hy, hshows⟩ := hdir.shown hroot hthere hcur
    cases hshows
    rw [walk_name, hy, ← hplace]
    exact ih (.inl (by simp)) hk
  | file hfile =>
    intro hcur links _
    obtain ⟨hplace, y, hy, hshows⟩ := hfile.shown hroot hthere hcur
    cases hshows
    rw [walk_name, hy, hplace]
    rfl
  | hardLink hlink =>
    intro hcur links _
    obtain ⟨hplace, y, hy, hshows⟩ := hlink.shown hroot hthere hcur
    cases hshows
    rw [walk_name, hy, hplace]
    rfl
  | link hlink _ ih =>
    intro hcur links hk
    obtain ⟨hplace, y, hy, hshows⟩ := hlink.shown hroot hthere hcur
    cases hshows
    obtain ⟨fewer, rfl⟩ : ∃ fewer, links = fewer + 1 := ⟨links - 1, by omega⟩
    rw [walk_name, hy]
    exact ih hcur (by omega)

/-- Where all is there, such links lead as in the tree. -/
theorem links_of_shows (hclosed : u.state.tree.Closed)
    (hroot : u.state.tree.node dest = some .dir)
    (hthere : ∀ p x, T.Has p x →
      ∃ y, u.state.tree.node (dest ++ p) = some y ∧ T.Shows u.content x y)
    {kind : List Name → Prop} (hkind : ∀ cur, kind cur → cur ≠ [] ∨ dest.getLast? = some T.top)
    {p q : List Name} {text : Name} (hlink : T.Has p (.symlink text))
    (hresolves : T.ResolvesBy kind p q) :
    (u.state.tree.follow (dest ++ p)).real = some (dest ++ q) ∧ T.Counterpart dest u q := by
  obtain ⟨k, hk, full, n, hfull, hleads⟩ := hresolves
  obtain ⟨cur, m, rfl, hcur⟩ := hlink.parent
  have happend : (T.top :: cur) ++ [_] = full ++ [n] := hfull
  obtain ⟨rfl, hn⟩ := List.append_inj' happend rfl
  obtain rfl := List.head_eq_of_cons_eq hn
  refine ⟨?_, ?_⟩
  · have hdirs : u.state.tree.Dirs (dest ++ cur) := by
      obtain ⟨y, hy, -⟩ := hthere _ _ hlink
      rw [← List.append_assoc] at hy
      exact hclosed.dirs_of_node hy
    rw [← List.append_assoc, follow_child hdirs]
    exact hleads.walk hkind hroot hthere (.inl (List.cons_ne_nil _ _)) hk
  · have hstart : T.top :: cur = [] ∨ T.At (T.top :: cur) .dir := by
      rcases hcur with rfl | hdir
      · exact .inr .top
      · exact .inr (.below hdir)
    obtain ⟨x, hx⟩ := (hleads.at hstart).resolve_left (List.cons_ne_nil _ _)
    generalize hloc : T.top :: q = loc at hx
    cases hx with
    | top => exact .inl (List.tail_eq_of_cons_eq hloc)
    | below hx =>
      right
      obtain rfl := List.tail_eq_of_cons_eq hloc
      obtain ⟨y, hy, hshows⟩ := hthere q x hx
      exact ⟨x, y, hx, hy, hshows⟩

/-- A hard link is a file with the content of its target. -/
theorem hardLinks_of_shows
    (hthere : ∀ p x, T.Has p x →
      ∃ y, u.state.tree.node (dest ++ p) = some y ∧ T.Shows u.content x y)
    {p target : List Name} {content : β} {mode : ℕ} (hlink : T.Has p (.hardLink target))
    (htarget : T.Has target (.file content mode)) :
    ∃ i j, u.state.tree.node (dest ++ p) = some (.file i) ∧
      u.state.tree.node (dest ++ target) = some (.file j) ∧
      u.content i = some content ∧ u.content j = some content := by
  obtain ⟨y, hy, hshows⟩ := hthere p _ hlink
  obtain ⟨z, hz, hshows'⟩ := hthere target _ htarget
  cases hshows with
  | @hardLink _ c m i hc hcontent =>
    cases hshows' with
    | @file _ _ j hcontent' =>
      obtain ⟨rfl, -⟩ := ArchiveNode.file.inj (hc.eq htarget)
      exact ⟨i, j, hy, hz, hcontent, hcontent'⟩

end Links

/-- **Links survive stripping** where no link target is mistaken for one of the other kind, no link
goes out of the top directory unless the destination has its name, and whatever is copied may be
read: the extraction ends, every symbolic link leads to the counterpart of what it led to, and every
hard link has the content of that of its target. -/
theorem linksSurvive_of_namesApart (T : ArchivedTree β) {dest : List Name} {start : Extraction}
    (hinit : start.Initial dest) {items : List (ArchiveItem β)} (harchive : T.IsArchive items)
    {allowed : List Name → Bool}
    (hallowed : ∀ p text, T.Has p (.symlink text) → allowed (dest ++ p) = true)
    (happart : T.NamesApart) (hstays : T.StaysBelow ∨ dest.getLast? = some T.top)
    (hcopies : T.CopiesReadable dest allowed) :
    (unpack dest 1 allowed start items).state.phase = .done ∧
      T.LinksSurvive dest (unpack dest 1 allowed start items) := by
  obtain ⟨hdone, hclosed, hroot, hthere⟩ := unpack_shows hinit harchive hallowed happart hcopies
  refine ⟨hdone, fun p text q hlink hresolves => ?_, fun p target content mode hlink htarget =>
    hardLinks_of_shows hthere hlink htarget⟩
  rcases hstays with hstays | hnamed
  · exact links_of_shows hclosed hroot hthere (fun _ hne => .inl hne) hlink
      (hstays p text q hlink hresolves)
  · exact links_of_shows hclosed hroot hthere (fun _ _ => .inr hnamed) hlink hresolves

/-! ### Two archives -/

/-- A tree under `d`, from nodes that can be looked at one by one. -/
def treeOf (nodes : List (List Name × ArchiveNode ℕ)) (unique : (nodes.map Prod.fst).Nodup)
    (names : ∀ node ∈ nodes, node.1 ≠ [] ∧ ∀ n ∈ node.1, IsName n)
    (closed : ∀ node ∈ nodes, node.1.dropLast = [] ∨ (node.1.dropLast, .dir) ∈ nodes)
    (relative : ∀ node ∈ nodes, ∀ text, node.2 = .symlink text → text ≠ [] ∧ text.head? ≠ some '/')
    (linked : ∀ node ∈ nodes, ∀ target, node.2 = .hardLink target →
      ∃ content mode, (target, .file content mode) ∈ nodes) : ArchivedTree ℕ where
  top := ['d']
  nodes := nodes
  top_name := by
    unfold IsName
    decide
  unique := unique
  names := names
  closed p n x h := by
    have hparent := closed _ h
    rwa [List.dropLast_concat] at hparent
  relative p text h := relative _ h text rfl
  linked p target h := linked _ h target rfl

/-- A file, a symbolic link to it, another that goes around through the top directory, and a hard
link. -/
def plainLinks : ArchivedTree ℕ :=
  treeOf [([['f']], .file 1 0o644), ([['s']], .symlink ['f']),
      ([['o']], .symlink ['.', '.', '/', 'd', '/', 'f']), ([['h']], .hardLink [['f']])]
    (by decide)
    (by
      unfold IsName
      decide)
    (by simp)
    (by simp)
    (by simp)

/-- Its archive, with the hard link first. -/
def plainLinksItems : List (ArchiveItem ℕ) :=
  [⟨⟨['d', '/'], [], .directory, 0o755⟩, 0⟩, ⟨⟨['d', '/', 'h'], ['d', '/', 'f'], .link, 0o644⟩, 0⟩,
    ⟨⟨['d', '/', 'f'], [], .regular, 0o644⟩, 1⟩, ⟨⟨['d', '/', 's'], ['f'], .symbolicLink, 0o777⟩, 0⟩,
    ⟨⟨['d', '/', 'o'], ['.', '.', '/', 'd', '/', 'f'], .symbolicLink, 0o777⟩, 0⟩]

/-- The file system makes symbolic links only. -/
def noHardLinks (p : List Name) : Bool := p != [['d'], ['h']]

theorem plainLinks_survive :
    (unpack [['d']] 1 noHardLinks freshRootfs plainLinksItems).state.phase = .done ∧
      plainLinks.LinksSurvive [['d']]
        (unpack [['d']] 1 noHardLinks freshRootfs plainLinksItems) := by
  have hlinks : ∀ p text, plainLinks.Has p (.symlink text) →
      (p = [['s']] ∧ text = ['f']) ∨ p = [['o']] ∧ text = ['.', '.', '/', 'd', '/', 'f'] := by
    intro p text h
    simpa [plainLinks, treeOf, ArchivedTree.Has] using h
  refine linksSurvive_of_namesApart plainLinks freshRootfs_initial
    ⟨[([], .dir), ([['h']], .hardLink [['f']]), ([['f']], .file 1 0o644), ([['s']], .symlink ['f']),
      ([['o']], .symlink ['.', '.', '/', 'd', '/', 'f'])], 1, ?_, ?_⟩ ?_ ⟨?_, ?_⟩ (.inr rfl) ?_
  · exact .cons _ (List.perm_append_singleton _ _).symm
  · exact .cons (.dir [] true [] _ 0) (.cons (.hardLink [['h']] [['f']] _ 0)
      (.cons (.file [['f']] [] 1 _) (.cons (.symlink [['s']] ['f'] _ 0)
        (.cons (.symlink [['o']] ['.', '.', '/', 'd', '/', 'f'] _ 0) .nil))))
  · intro p text h
    rcases hlinks p text h with ⟨rfl, -⟩ | ⟨rfl, -⟩
    · rfl
    · rfl
  · intro p text h
    right
    rcases hlinks p text h with ⟨-, rfl⟩ | ⟨-, rfl⟩
    · decide
    · decide
  · intro p target _
    decide
  · intro p target content mode _ hfile
    right
    obtain ⟨-, -, rfl⟩ : target = [['f']] ∧ content = 1 ∧ mode = 0o644 := by
      simpa [plainLinks, treeOf, ArchivedTree.Has] using hfile
    decide

/-- A directory that is called like the top directory, with a file called like one beside it, and a
symbolic link to the file in the directory. -/
def namesake : ArchivedTree ℕ :=
  treeOf [([['d']], .dir), ([['d'], ['x']], .file 1 0o644), ([['x']], .file 2 0o644),
      ([['l']], .symlink ['d', '/', 'x'])]
    (by decide)
    (by
      unfold IsName
      decide)
    (by simp)
    (by simp)
    (by simp)

/-- Its archive. -/
def namesakeItems : List (ArchiveItem ℕ) :=
  [⟨⟨['d', '/', 'd'], [], .directory, 0o755⟩, 0⟩,
    ⟨⟨['d', '/', 'd', '/', 'x'], [], .regular, 0o644⟩, 1⟩,
    ⟨⟨['d', '/', 'x'], [], .regular, 0o644⟩, 2⟩,
    ⟨⟨['d', '/', 'l'], ['d', '/', 'x'], .symbolicLink, 0o777⟩, 0⟩]

/-- The link leads to the other file. -/
theorem namesake_lost :
    ¬ ∀ (T : ArchivedTree ℕ) (dest : List Name) (start : Extraction)
      (items : List (ArchiveItem ℕ)) (allowed : List Name → Bool), start.Initial dest →
      T.IsArchive items → (∀ p text, T.Has p (.symlink text) → allowed (dest ++ p) = true) →
        T.LinksSurvive dest (unpack dest 1 allowed start items) := by
  intro hall
  have harchive : namesake.IsArchive namesakeItems :=
    ⟨namesake.nodes, 0, .refl _, .cons (.dir [['d']] false [] _ 0)
      (.cons (.file [['d'], ['x']] [] 1 _) (.cons (.file [['x']] [] 2 _)
        (.cons (.symlink [['l']] ['d', '/', 'x'] _ 0) .nil)))⟩
  have hsurvive := hall namesake [['d']] freshRootfs namesakeItems (fun _ => true)
    freshRootfs_initial harchive fun _ _ _ => rfl
  have hdir : namesake.Has [['d']] .dir := .head _
  have hfile : namesake.Has [['d'], ['x']] (.file 1 0o644) := .tail _ (.head _)
  have hlink : namesake.Has [['l']] (.symlink ['d', '/', 'x']) := .tail _ (.tail _ (.tail _ (.head _)))
  have hleads : namesake.Resolves [['l']] [['d'], ['x']] :=
    ⟨1, by decide, [namesake.top], ['l'], rfl,
      .link (.below hlink) (.dir (.below hdir) (.file (.below hfile)))⟩
  have hreal := (hsurvive.symlinks [['l']] _ _ hlink hleads).1
  revert hreal
  decide

end Wldroid.Proot
