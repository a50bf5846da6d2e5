import Wldroid.Foundation.Keyed

/-!
# File trees with links

A finite tree of directories, files and symbolic links, and where a path leads in it.  A location is
the list of names from the root; a path is followed through links, of which at most `maxLinks` are
allowed on the way.

* `FileTree.walk` — following a path; `walk_append`, `walk_sub` — in two parts, and in a larger
  tree;
* `FileTree.place`, `FileTree.canonicalFile`, `FileTree.mkdirs` — the last name not followed, the
  canonical form of a path, and the directories that are missing on it;
* `FileTree.Closed` — whatever is there is in a directory that is there.

The names are those of any type.
-/

namespace Wldroid.Foundation

variable {ν : Type}

/-! ### Trees -/

/-- A part of a path: `.`, `..`, or a name. -/
inductive PathPart (ν : Type) where
  | here
  | up
  | name (n : ν)

/-- What a symbolic link contains. -/
structure LinkTarget (ν : Type) where
  absolute : Bool
  parts : List (PathPart ν)

/-- What can be at a location; names of one file share its inode. -/
inductive FileNode (ν : Type) where
  | dir
  | file (inode : ℕ)
  | link (target : LinkTarget ν)

/-- The nodes with their locations; the root is always there and is not listed. -/
structure FileTree (ν : Type) where
  entries : List (List ν × FileNode ν)

/-- A location as a path. -/
def plain (p : List ν) : List (PathPart ν) := p.map .name

/-- Where a path leads: to a directory, with the number of links that may still be followed; to a
file; to nothing, in a directory that is there; nowhere; or through too many links. -/
inductive Walked (ν : Type) where
  | dir (loc : List ν) (links : ℕ)
  | file (loc : List ν) (inode : ℕ)
  | absent (loc : List ν)
  | missing
  | loop

/-- The location of what is there. -/
def Walked.real : Walked ν → Option (List ν)
  | .dir loc _ | .file loc _ => some loc
  | .absent _ | .missing | .loop => none

/-- The location of what is there or could be created there. -/
def Walked.landing : Walked ν → Option (List ν)
  | .dir loc _ | .file loc _ | .absent loc => some loc
  | .missing | .loop => none

def Walked.isDir : Walked ν → Bool
  | .dir _ _ => true
  | .file _ _ | .absent _ | .missing | .loop => false

/-- Go on from a directory. -/
def Walked.andThen (w : Walked ν) (f : List ν → ℕ → Walked ν) : Walked ν :=
  match w with
  | .dir loc links => f loc links
  | .loop => .loop
  | .file _ _ | .absent _ | .missing => .missing

/-- The links that may be on the way. -/
def maxLinks : ℕ := 40

/-- Induction along a walk: the number of links goes down, or else the path gets shorter. -/
theorem walk_induct {motive : ℕ → List ν → List (PathPart ν) → Prop}
    (nil : ∀ links cur, motive links cur [])
    (here : ∀ links cur rest, motive links cur rest → motive links cur (.here :: rest))
    (up : ∀ links cur rest, motive links cur.dropLast rest → motive links cur (.up :: rest))
    (name : ∀ links cur n rest, motive links (cur ++ [n]) rest →
      (∀ fewer < links, ∀ cur path, motive fewer cur path) → motive links cur (.name n :: rest)) :
    ∀ links cur path, motive links cur path := by
  intro links
  induction links using Nat.strong_induction_on with
  | _ links ihlinks =>
    intro cur path
    induction path generalizing cur with
    | nil => exact nil links cur
    | cons part rest ih =>
      cases part with
      | here => exact here links cur rest (ih cur)
      | up => exact up links cur rest (ih cur.dropLast)
      | name n => exact name links cur n rest (ih (cur ++ [n])) ihlinks

variable [DecidableEq ν]

/-- What is at a location. -/
def FileTree.node (t : FileTree ν) (loc : List ν) : Option (FileNode ν) :=
  (lookup Prod.fst loc t.entries).map Prod.snd

/-- Put a node at a location. -/
def FileTree.put (t : FileTree ν) (loc : List ν) (x : FileNode ν) : FileTree ν :=
  ⟨(loc, x) :: remove Prod.fst loc t.entries⟩

/-- Remove what is at a location. -/
def FileTree.erase (t : FileTree ν) (loc : List ν) : FileTree ν := ⟨remove Prod.fst loc t.entries⟩

/-- Nothing is below the location. -/
def FileTree.isEmpty (t : FileTree ν) (loc : List ν) : Bool :=
  t.entries.all fun entry => ¬ (loc <+: entry.1 ∧ entry.1 ≠ loc)

/-- Follow a path up to its first link. -/
def FileTree.walkFrom (t : FileTree ν) (links : ℕ)
    (follow : List ν → List (PathPart ν) → Walked ν) : List ν → List (PathPart ν) → Walked ν
  | cur, [] => .dir cur links
  | cur, .here :: rest => t.walkFrom links follow cur rest
  | cur, .up :: rest => t.walkFrom links follow cur.dropLast rest
  | cur, .name n :: rest =>
      match t.node (cur ++ [n]) with
      | none => if rest.isEmpty then .absent (cur ++ [n]) else .missing
      | some .dir => t.walkFrom links follow (cur ++ [n]) rest
      | some (.file inode) => if rest.isEmpty then .file (cur ++ [n]) inode else .missing
      | some (.link target) => follow (if target.absolute then [] else cur) (target.parts ++ rest)

/-- Follow a path from a directory through at most so many links. -/
def FileTree.walk (t : FileTree ν) : ℕ → List ν → List (PathPart ν) → Walked ν
  | 0 => t.walkFrom 0 fun _ _ => .loop
  | links + 1 => t.walkFrom (links + 1) (t.walk links)

/-- Follow a path from the root. -/
def FileTree.follow (t : FileTree ν) (p : List ν) : Walked ν := t.walk maxLinks [] (plain p)

/-- The location a path names when its last name is not followed. -/
def FileTree.place (t : FileTree ν) (p : List ν) : Option (List ν) :=
  match p.getLast?, t.follow p.dropLast with
  | some n, .dir loc _ => some (loc ++ [n])
  | _, _ => none

/-- The longest part of a path, of at most so many parts, that leads somewhere or through too many
links, with where it leads. -/
def FileTree.reach (t : FileTree ν) (path : List (PathPart ν)) : ℕ → Walked ν × ℕ
  | 0 => (t.walk maxLinks [] [], 0)
  | k + 1 =>
      match t.walk maxLinks [] (path.take (k + 1)) with
      | .absent _ | .missing => t.reach path k
      | w => (w, k + 1)

/-- Names after a location, `.` and `..` taken as they stand. -/
def collapse (loc : List ν) (path : List (PathPart ν)) : List ν :=
  path.foldl (fun loc part => match part with
    | .here => loc
    | .up => loc.dropLast
    | .name n => loc ++ [n]) loc

/-- The canonical form of a path that leads nowhere: what precedes its last part is followed as far
as it leads somewhere, unless it leads through too many links; the rest is taken as it stands. -/
def FileTree.canonicalParent (t : FileTree ν) (path : List (PathPart ν)) : Option (List ν) :=
  match t.reach path (path.length - 1) with
  | (.dir loc _, k) | (.file loc _, k) => some (collapse loc (path.drop k))
  | _ => none

/-- The canonical form of a path. -/
def FileTree.canonicalFile (t : FileTree ν) (path : List (PathPart ν)) : Option (List ν) :=
  match t.walk maxLinks [] path with
  | .dir loc _ | .file loc _ => some loc
  -- whatever the error is, the last part is dropped
  | .absent _ | .missing | .loop => t.canonicalParent path

/-- The locations on the way from one down some names. -/
def locationsBelow (loc : List ν) : List ν → List (List ν)
  | [] => []
  | n :: rest => (loc ++ [n]) :: locationsBelow (loc ++ [n]) rest

/-- Put directories at the locations. -/
def FileTree.putDirs (t : FileTree ν) (locs : List (List ν)) : FileTree ν :=
  locs.foldl (fun t loc => t.put loc .dir) t

/-- The locations `mkdirs` makes directories at: below the part of the path that is there, unless
something is in the way. -/
def FileTree.newDirs (t : FileTree ν) (p : List ν) : List (List ν) :=
  match t.reach (plain p) p.length with
  | (.dir loc _, k) =>
      match p.drop k with
      | [] => []
      | n :: rest =>
          if (t.node (loc ++ [n])).isNone then locationsBelow loc (n :: rest) else []
  | _ => []

/-- `mkdirs`. -/
def FileTree.mkdirs (t : FileTree ν) (p : List ν) : FileTree ν := t.putDirs (t.newDirs p)

/-! ### Nodes -/

section Nodes

variable (t : FileTree ν) (loc : List ν)

theorem node_put (x : FileNode ν) : (t.put loc x).node = Function.update t.node loc (some x) := by
  funext other
  unfold FileTree.node FileTree.put lookup remove
  by_cases hother : other = loc
  · simp [hother]
  · rw [Function.update_of_ne hother]
    simp [Ne.symm hother, List.find?_filter]
    congr 2
    funext entry
    by_cases hentry : entry.1 = other
    · simp [hentry, hother]
    · simp [hentry]

theorem node_erase : (t.erase loc).node = Function.update t.node loc none := by
  funext other
  unfold FileTree.node FileTree.erase lookup remove
  by_cases hother : other = loc
  · simp [hother]
  · rw [Function.update_of_ne hother]
    simp [List.find?_filter]
    congr 2
    funext entry
    by_cases hentry : entry.1 = other
    · simp [hentry, hother]
    · simp [hentry]

theorem node_of_isEmpty (h : t.isEmpty loc = true) {q : List ν} (hq : q ≠ []) :
    t.node (loc ++ q) = none := by
  unfold FileTree.node
  rw [Option.map_eq_none_iff, lookup, List.find?_eq_none]
  intro entry hentry heq
  have hfree := of_decide_eq_true (List.all_eq_true.mp h entry hentry)
  have hsame : entry.1 = loc ++ q := of_decide_eq_true heq
  refine hfree ⟨hsame ▸ List.prefix_append _ _, fun hloc => hq ?_⟩
  exact List.append_right_eq_self.mp (hsame.symm.trans hloc)

end Nodes

/-! ### Following a path -/

section Walk

variable {t t' : FileTree ν} {links : ℕ} {cur : List ν}

@[simp] theorem walk_nil (t : FileTree ν) (links : ℕ) (cur : List ν) :
    t.walk links cur [] = .dir cur links := by
  cases links <;> rfl

@[simp] theorem walk_here (t : FileTree ν) (links : ℕ) (cur : List ν) (rest : List (PathPart ν)) :
    t.walk links cur (.here :: rest) = t.walk links cur rest := by
  cases links <;> rfl

@[simp] theorem walk_up (t : FileTree ν) (links : ℕ) (cur : List ν) (rest : List (PathPart ν)) :
    t.walk links cur (.up :: rest) = t.walk links cur.dropLast rest := by
  cases links <;> rfl

theorem walk_name (t : FileTree ν) (links : ℕ) (cur : List ν) (n : ν) (rest : List (PathPart ν)) :
    t.walk links cur (.name n :: rest) =
      match t.node (cur ++ [n]) with
      | none => if rest.isEmpty then .absent (cur ++ [n]) else .missing
      | some .dir => t.walk links (cur ++ [n]) rest
      | some (.file inode) => if rest.isEmpty then .file (cur ++ [n]) inode else .missing
      | some (.link target) =>
          match links with
          | 0 => .loop
          | links + 1 =>
              t.walk links (if target.absolute then [] else cur) (target.parts ++ rest) := by
  cases links <;> rfl

/-- **A path in two parts** leads on from where its first part leads. -/
theorem walk_append (t : FileTree ν) {ys : List (PathPart ν)} (hys : ys ≠ []) (links : ℕ)
    (cur : List ν) (xs : List (PathPart ν)) :
    t.walk links cur (xs ++ ys) =
      (t.walk links cur xs).andThen fun loc links => t.walk links loc ys := by
  induction links, cur, xs using walk_induct with
  | nil links cur => rw [walk_nil]; rfl
  | here links cur rest ih => simpa using ih
  | up links cur rest ih => simpa using ih
  | name links cur n rest ih ihlinks =>
    have hrest : (rest ++ ys).isEmpty = false := by simp [hys]
    rw [List.cons_append, walk_name, walk_name, hrest]
    cases hnode : t.node (cur ++ [n]) with
    | none => cases rest <;> rfl
    | some x =>
      cases x with
      | dir => exact ih
      | file inode => cases rest <;> rfl
      | link target =>
        cases links with
        | zero => rfl
        | succ links =>
          simp only [← List.append_assoc]
          exact ihlinks links (Nat.lt_succ_self _) _ _

/-- Everything in one tree is in the other. -/
def FileTree.Sub (t t' : FileTree ν) : Prop := ∀ loc x, t.node loc = some x → t'.node loc = some x

/-- What is found in a tree is found in a larger one. -/
theorem walk_sub (hsub : t.Sub t') {path : List (PathPart ν)} :
    (t.walk links cur path).real.isSome → t'.walk links cur path = t.walk links cur path := by
  induction links, cur, path using walk_induct with
  | nil links cur => simp
  | here links cur rest ih => simpa using ih
  | up links cur rest ih => simpa using ih
  | name links cur n rest ih ihlinks =>
    intro hfound
    rw [walk_name] at hfound ⊢
    rw [walk_name]
    cases hnode : t.node (cur ++ [n]) with
    | none =>
      rw [hnode] at hfound
      cases rest <;> cases hfound
    | some x =>
      rw [hnode] at hfound
      rw [hsub _ _ hnode]
      cases x with
      | dir => exact ih hfound
      | file inode => rfl
      | link target =>
        cases links with
        | zero => rfl
        | succ links => exact ihlinks links (Nat.lt_succ_self _) _ _ hfound

/-- A path through directories leads to itself. -/
theorem walk_dirs {p : List ν}
    (h : ∀ q, q <+: p → q ≠ [] → t.node (cur ++ q) = some .dir) :
    t.walk links cur (plain p) = .dir (cur ++ p) links := by
  induction p generalizing cur with
  | nil => simp [plain]
  | cons n rest ih =>
    have hfirst : t.node (cur ++ [n]) = some .dir :=
      h [n] (List.prefix_append [n] rest) (List.cons_ne_nil n [])
    show t.walk links cur (.name n :: plain rest) = _
    rw [walk_name, hfirst]
    simp only
    rw [ih]
    · simp
    · intro q hq hne
      have hcons : n :: q <+: n :: rest := (List.prefix_cons_inj n).mpr hq
      simpa using h (n :: q) hcons (List.cons_ne_nil n q)

/-- A path without links leads to itself, if anywhere. -/
theorem walk_noLinks {p : List ν}
    (h : ∀ q, q <+: p → q ≠ [] → ∀ target, t.node (cur ++ q) ≠ some (.link target)) :
    (t.walk links cur (plain p)).landing = some (cur ++ p) ∨
      (t.walk links cur (plain p)).landing = none := by
  induction p generalizing cur with
  | nil => simp [plain, Walked.landing]
  | cons n rest ih =>
    have hnext : ∀ q, q <+: rest → q ≠ [] →
        ∀ target, t.node (cur ++ [n] ++ q) ≠ some (.link target) := by
      intro q hq _ target
      simpa using h (n :: q) ((List.prefix_cons_inj n).mpr hq) (List.cons_ne_nil n q) target
    show (t.walk links cur (.name n :: plain rest)).landing = _ ∨
      (t.walk links cur (.name n :: plain rest)).landing = _
    rw [walk_name]
    cases hnode : t.node (cur ++ [n]) with
    | none => cases rest <;> simp [plain, Walked.landing]
    | some x =>
      cases x with
      | dir => simpa using ih hnext
      | file inode => cases rest <;> simp [plain, Walked.landing]
      | link target =>
        exact absurd hnode (h [n] (List.prefix_append [n] rest) (List.cons_ne_nil n []) target)

end Walk

/-! ### Trees that are closed -/

/-- The location is the root or a directory. -/
def FileTree.IsDir (t : FileTree ν) (loc : List ν) : Prop := loc = [] ∨ t.node loc = some .dir

/-- Whatever is there is in a directory. -/
def FileTree.Closed (t : FileTree ν) : Prop :=
  ∀ loc n, (t.node (loc ++ [n])).isSome → t.IsDir loc

section Closed

variable {t : FileTree ν} {links : ℕ} {cur : List ν}

theorem FileTree.Closed.dropLast (h : t.Closed) {loc : List ν} (hloc : t.IsDir loc) :
    t.IsDir loc.dropLast := by
  rcases List.eq_nil_or_concat' loc with rfl | ⟨q, n, rfl⟩
  · exact .inl rfl
  · rw [List.dropLast_concat]
    rcases hloc with hnil | hdir
    · simp at hnil
    · exact h q n (by rw [hdir]; rfl)

/-- The tree is as a walk says. -/
def FileTree.Confirms (t : FileTree ν) : Walked ν → Prop
  | .dir loc _ => t.IsDir loc
  | .file loc inode => t.node loc = some (.file inode)
  | .absent loc => t.node loc = none ∧ ∃ parent n, loc = parent ++ [n] ∧ t.IsDir parent
  | .missing | .loop => True

/-- What a walk finds is what it says. -/
theorem FileTree.Closed.walk (h : t.Closed) {path : List (PathPart ν)} :
    t.IsDir cur → t.Confirms (t.walk links cur path) := by
  induction links, cur, path using walk_induct with
  | nil links cur =>
    rw [walk_nil]
    exact id
  | here links cur rest ih => simpa using ih
  | up links cur rest ih =>
    intro hcur
    rw [walk_up]
    exact ih (h.dropLast hcur)
  | name links cur n rest ih ihlinks =>
    intro hcur
    rw [walk_name]
    cases hnode : t.node (cur ++ [n]) with
    | none =>
      cases rest with
      | nil => exact ⟨hnode, cur, n, rfl, hcur⟩
      | cons _ _ => trivial
    | some x =>
      cases x with
      | dir => exact ih (.inr hnode)
      | file inode =>
        cases rest with
        | nil => exact hnode
        | cons _ _ => trivial
      | link target =>
        cases links with
        | zero => trivial
        | succ links =>
          refine ihlinks links (Nat.lt_succ_self _) _ _ ?_
          split
          · exact .inl rfl
          · exact hcur

/-- What is there is below directories. -/
theorem FileTree.Closed.ancestor (h : t.Closed) {q rest : List ν} (hrest : rest ≠ [])
    (hsome : (t.node (q ++ rest)).isSome) : t.IsDir q := by
  induction rest using List.reverseRecOn with
  | nil => exact absurd rfl hrest
  | append_singleton rest n ih =>
    rw [← List.append_assoc] at hsome
    have hdir := h _ n hsome
    by_cases hlast : rest = []
    · rwa [hlast, List.append_nil] at hdir
    · refine ih hlast ?_
      rcases hdir with hnil | hdir
      · exact absurd (List.append_eq_nil_iff.mp hnil).2 hlast
      · rw [hdir]
        rfl

/-- Nothing is below a location where nothing is. -/
theorem FileTree.Closed.below (h : t.Closed) {loc : List ν} (hne : loc ≠ [])
    (hnode : t.node loc ≠ some .dir) {q : List ν} (hq : q ≠ []) : t.node (loc ++ q) = none := by
  induction q using List.reverseRecOn with
  | nil => exact absurd rfl hq
  | append_singleton q n ih =>
    by_contra hsome
    have hdir := h (loc ++ q) n (by
      rw [List.append_assoc]
      exact Option.isSome_iff_ne_none.mpr hsome)
    rcases hdir with hnil | hdir
    · exact hne (List.append_eq_nil_iff.mp hnil).1
    · by_cases hq' : q = []
      · rw [hq', List.append_nil] at hdir
        exact hnode hdir
      · rw [ih hq'] at hdir
        cases hdir

/-- A new node in a directory. -/
theorem FileTree.Closed.put (h : t.Closed) {parent : List ν} {n : ν} (hparent : t.IsDir parent)
    (hnone : t.node (parent ++ [n]) = none) (x : FileNode ν) : (t.put (parent ++ [n]) x).Closed := by
  intro loc m hsome
  have hkeep : ∀ q, t.IsDir q → q ≠ parent ++ [n] → (t.put (parent ++ [n]) x).IsDir q := by
    rintro q (rfl | hdir) hne
    · exact .inl rfl
    · right
      rw [node_put, Function.update_of_ne hne, hdir]
  rw [node_put] at hsome
  by_cases hnew : loc ++ [m] = parent ++ [n]
  · obtain ⟨rfl, _⟩ := List.append_inj' hnew rfl
    refine hkeep loc hparent fun hself => ?_
    have := congrArg List.length hself
    simp at this
  · rw [Function.update_of_ne hnew] at hsome
    refine hkeep loc (h loc m hsome) fun hself => ?_
    rw [hself, h.below (by simp) (by rw [hnone]; simp) (by simp)] at hsome
    cases hsome

/-- A node that has nothing below it is removed. -/
theorem FileTree.Closed.erase (h : t.Closed) {loc : List ν}
    (hempty : ∀ n, t.node (loc ++ [n]) = none) : (t.erase loc).Closed := by
  intro q m hsome
  rw [node_erase] at hsome
  have hold : (t.node (q ++ [m])).isSome := by
    by_cases hsame : q ++ [m] = loc
    · rw [hsame, Function.update_self] at hsome
      cases hsome
    · rwa [Function.update_of_ne hsame] at hsome
  rcases h q m hold with rfl | hdir
  · exact .inl rfl
  · right
    rw [node_erase, Function.update_of_ne, hdir]
    rintro rfl
    rw [hempty m] at hold
    cases hold

theorem sub_erase (t : FileTree ν) (loc : List ν) : (t.erase loc).Sub t := by
  intro q x hq
  rw [node_erase] at hq
  by_cases hsame : q = loc
  · rw [hsame, Function.update_self] at hq
    cases hq
  · rwa [Function.update_of_ne hsame] at hq

end Closed

/-! ### Missing directories -/

section Mkdirs

variable {t : FileTree ν} {p : List ν}

theorem node_putDirs (t : FileTree ν) (locs : List (List ν)) (loc : List ν) :
    (t.putDirs locs).node loc = if loc ∈ locs then some .dir else t.node loc := by
  induction locs generalizing t with
  | nil => simp [FileTree.putDirs]
  | cons first rest ih =>
    show ((t.put first .dir).putDirs rest).node loc = _
    rw [ih, node_put]
    by_cases hrest : loc ∈ rest
    · simp [hrest]
    · by_cases hfirst : loc = first
      · simp [hfirst]
      · rw [if_neg hrest, Function.update_of_ne hfirst, if_neg]
        simp [hfirst, hrest]

omit [DecidableEq ν] in
theorem mem_locationsBelow {loc names l : List ν} :
    l ∈ locationsBelow loc names ↔ ∃ q, q <+: names ∧ q ≠ [] ∧ l = loc ++ q := by
  induction names generalizing loc with
  | nil => simp [locationsBelow]
  | cons n rest ih =>
    rw [locationsBelow, List.mem_cons, ih]
    constructor
    · rintro (rfl | ⟨q, hq, hne, rfl⟩)
      · exact ⟨[n], List.prefix_append [n] rest, List.cons_ne_nil n [], rfl⟩
      · exact ⟨n :: q, (List.prefix_cons_inj n).mpr hq, List.cons_ne_nil n q, by simp⟩
    · rintro ⟨q, hq, hne, rfl⟩
      obtain ⟨m, q, rfl⟩ := List.exists_cons_of_ne_nil hne
      obtain ⟨rfl, hq'⟩ := List.cons_prefix_cons.mp hq
      by_cases hlast : q = []
      · exact .inl (by rw [hlast])
      · exact .inr ⟨q, hq', hlast, by simp⟩

theorem reach_spec (t : FileTree ν) (path : List (PathPart ν)) (k : ℕ) :
    (t.reach path k).2 ≤ k ∧
      (t.reach path k).1 = t.walk maxLinks [] (path.take (t.reach path k).2) ∧
      ∀ j ≤ k, (t.reach path k).2 < j → (t.walk maxLinks [] (path.take j)).real = none := by
  induction k with
  | zero => exact ⟨le_rfl, by simp [FileTree.reach], fun j hj hlt => absurd hlt (by omega)⟩
  | succ k ih =>
    obtain ⟨hle, heq, hmax⟩ := ih
    have hdown : (t.walk maxLinks [] (path.take (k + 1))).real = none →
        t.reach path (k + 1) = t.reach path k →
        (t.reach path (k + 1)).2 ≤ k + 1 ∧
          (t.reach path (k + 1)).1 = t.walk maxLinks [] (path.take (t.reach path (k + 1)).2) ∧
          ∀ j ≤ k + 1, (t.reach path (k + 1)).2 < j →
            (t.walk maxLinks [] (path.take j)).real = none := by
      intro hnone hsame
      rw [hsame]
      refine ⟨by omega, heq, fun j hj hlt => ?_⟩
      by_cases hlast : j = k + 1
      · rw [hlast, hnone]
      · exact hmax j (by omega) hlt
    cases hwalk : t.walk maxLinks [] (path.take (k + 1)) with
    | absent loc =>
      exact hdown (by rw [hwalk]; rfl) (by rw [FileTree.reach, hwalk])
    | missing =>
      exact hdown (by rw [hwalk]; rfl) (by rw [FileTree.reach, hwalk])
    | dir loc links =>
      have hsame : t.reach path (k + 1) = (.dir loc links, k + 1) := by rw [FileTree.reach, hwalk]
      rw [hsame]
      exact ⟨le_rfl, hwalk.symm, fun j hj hlt => absurd hlt (by simp; omega)⟩
    | file loc inode =>
      have hsame : t.reach path (k + 1) = (.file loc inode, k + 1) := by rw [FileTree.reach, hwalk]
      rw [hsame]
      exact ⟨le_rfl, hwalk.symm, fun j hj hlt => absurd hlt (by simp; omega)⟩
    | loop =>
      have hsame : t.reach path (k + 1) = (.loop, k + 1) := by rw [FileTree.reach, hwalk]
      rw [hsame]
      exact ⟨le_rfl, hwalk.symm, fun j hj hlt => absurd hlt (by simp; omega)⟩

/-- Either no directory is missing, or something is in the way, or there is a longest part of the
path that is there, and directories are made for all that follows. -/
theorem newDirs_cases (t : FileTree ν) (p : List ν) :
    t.newDirs p = [] ∨ ∃ k loc links n rest, t.follow (p.take k) = .dir loc links ∧
      p.drop k = n :: rest ∧ t.node (loc ++ [n]) = none ∧
      (∀ j ≤ p.length, k < j → (t.follow (p.take j)).real = none) ∧
      t.newDirs p = locationsBelow loc (n :: rest) := by
  obtain ⟨_, hwalk, hmax⟩ := reach_spec t (plain p) p.length
  have htake : ∀ j, (plain p).take j = plain (p.take j) := fun j => List.map_take.symm
  simp only [htake] at hwalk hmax
  unfold FileTree.newDirs
  rcases hreach : t.reach (plain p) p.length with ⟨w, k⟩
  rw [hreach] at hwalk hmax
  cases w with
  | dir loc links =>
    simp only
    cases hdrop : p.drop k with
    | nil => exact .inl rfl
    | cons n rest =>
      simp only
      split
      · rename_i hnone
        exact .inr ⟨k, loc, links, n, rest, hwalk.symm, hdrop, Option.isNone_iff_eq_none.mp hnone,
          hmax, rfl⟩
      · exact .inl rfl
  | file loc inode => exact .inl rfl
  | absent loc => exact .inl rfl
  | missing => exact .inl rfl
  | loop => exact .inl rfl

theorem node_mkdirs (t : FileTree ν) (p loc : List ν) :
    (t.mkdirs p).node loc = if loc ∈ t.newDirs p then some .dir else t.node loc :=
  node_putDirs t _ loc

theorem FileTree.Closed.follow (h : t.Closed) (q : List ν) : t.Confirms (t.follow q) :=
  h.walk (.inl rfl)

theorem FileTree.Closed.isDir_follow (h : t.Closed) {q loc : List ν} {links : ℕ}
    (hq : t.follow q = .dir loc links) : t.IsDir loc := by
  have hspec := h.follow q
  rwa [hq] at hspec

/-- There is nothing where a directory is made. -/
theorem FileTree.Closed.newDirs (h : t.Closed) {loc : List ν} (hloc : loc ∈ t.newDirs p) :
    t.node loc = none := by
  rcases newDirs_cases t p with hnil | ⟨k, parent, links, n, rest, _, _, hnone, _, hdirs⟩
  · rw [hnil] at hloc
    cases hloc
  · rw [hdirs, mem_locationsBelow] at hloc
    obtain ⟨q, hq, hne, rfl⟩ := hloc
    obtain ⟨m, q, rfl⟩ := List.exists_cons_of_ne_nil hne
    obtain ⟨rfl, _⟩ := List.cons_prefix_cons.mp hq
    by_cases hlast : q = []
    · rw [hlast]
      exact hnone
    · rw [List.append_cons]
      exact h.below (by simp) (by rw [hnone]; simp) hlast

theorem FileTree.Closed.sub_mkdirs (h : t.Closed) (p : List ν) : t.Sub (t.mkdirs p) := by
  intro loc x hx
  rw [node_mkdirs, if_neg, hx]
  intro hloc
  rw [h.newDirs hloc] at hx
  cases hx

theorem FileTree.Closed.putDirs {loc : List ν} {n : ν} (h : t.Closed) (hloc : t.IsDir loc)
    (hnone : t.node (loc ++ [n]) = none) (rest : List ν) :
    (t.putDirs (locationsBelow loc (n :: rest))).Closed := by
  induction rest generalizing t loc n with
  | nil => exact h.put hloc hnone .dir
  | cons m rest ih =>
    show ((t.put (loc ++ [n]) .dir).putDirs (locationsBelow (loc ++ [n]) (m :: rest))).Closed
    refine ih (h.put hloc hnone .dir) (.inr ?_) ?_
    · rw [node_put, Function.update_self]
    · rw [node_put, Function.update_of_ne (by simp)]
      exact h.below (by simp) (by rw [hnone]; simp) (List.cons_ne_nil m [])

theorem FileTree.Closed.mkdirs (h : t.Closed) (p : List ν) : (t.mkdirs p).Closed := by
  unfold FileTree.mkdirs
  rcases newDirs_cases t p with hnil | ⟨k, loc, links, n, rest, hwalk, _, hnone, _, hdirs⟩
  · rw [hnil]
    exact h
  · rw [hdirs]
    exact h.putDirs (h.isDir_follow hwalk) hnone rest

/-- A place in a tree is the same in a larger one. -/
theorem place_sub {t' : FileTree ν} (hsub : t.Sub t') {loc : List ν} (h : t.place p = some loc) :
    t'.place p = some loc := by
  unfold FileTree.place at h ⊢
  split at h
  · rename_i n parent links hlast hparent
    have hsame : t'.follow p.dropLast = t.follow p.dropLast := walk_sub hsub (by
      rw [show t.walk maxLinks [] (plain p.dropLast) = _ from hparent]
      rfl)
    rw [hsame, hlast, hparent]
    exact h
  · cases h

theorem follow_append (t : FileTree ν) (q : List ν) {rest : List ν} (hrest : rest ≠ []) :
    t.follow (q ++ rest) =
      (t.follow q).andThen fun loc links => t.walk links loc (plain rest) := by
  have hne : plain rest ≠ [] := by simp [plain, hrest]
  unfold FileTree.follow
  rw [plain, List.map_append, ← plain, ← plain, walk_append t hne]

/-- A path that leads to something does so through parts that do. -/
theorem follow_prefix {q p : List ν} (hq : q <+: p) (h : (t.follow p).real.isSome) :
    (t.follow q).real.isSome := by
  obtain ⟨rest, rfl⟩ := hq
  by_cases hrest : rest = []
  · rwa [hrest, List.append_nil] at h
  · rw [follow_append t q hrest] at h
    cases hfirst : t.follow q with
    | dir loc links => rfl
    | file loc inode => rfl
    | absent loc => rw [hfirst] at h; cases h
    | missing => rw [hfirst] at h; cases h
    | loop => rw [hfirst] at h; cases h

/-- A part of the path leads to a directory that was there before, or to a new one. -/
theorem FileTree.Closed.follow_mkdirs (h : t.Closed) {q loc : List ν} {links : ℕ} (hq : q <+: p)
    (hfollow : (t.mkdirs p).follow q = .dir loc links) :
    t.follow q = .dir loc links ∨ loc ∈ t.newDirs p := by
  rcases newDirs_cases t p with hnil | ⟨k, parent, links', n, rest, hwalk, hdrop, hnone, _, hdirs⟩
  · left
    rwa [FileTree.mkdirs, hnil] at hfollow
  have hk : k < p.length := by
    have := congrArg List.length hdrop
    simp only [List.length_drop, List.length_cons] at this
    omega
  obtain ⟨j, hj, rfl⟩ : ∃ j ≤ p.length, q = p.take j :=
    ⟨q.length, hq.length_le, List.prefix_iff_eq_take.mp hq⟩
  have hstart : (t.mkdirs p).follow (p.take k) = .dir parent links' := by
    refine Eq.trans (walk_sub (h.sub_mkdirs p) ?_) hwalk
    rw [show t.walk maxLinks [] (plain (p.take k)) = _ from hwalk]
    rfl
  by_cases hle : j ≤ k
  · -- a part of what was there before
    left
    have hpart : p.take j <+: p.take k := by
      rw [← min_eq_left hle, ← List.take_take]
      exact List.take_prefix _ _
    have hreal := follow_prefix hpart (by rw [hwalk]; rfl)
    exact (walk_sub (h.sub_mkdirs p) hreal).symm.trans hfollow
  · -- the rest leads down the new directories
    right
    have hsplit : p.take j = p.take k ++ (n :: rest).take (j - k) := by
      rw [← hdrop, ← List.take_add, Nat.add_sub_cancel' (by omega)]
    have hne : (n :: rest).take (j - k) ≠ [] := by
      obtain ⟨i, hi⟩ : ∃ i, j - k = i + 1 := ⟨j - k - 1, by omega⟩
      simp [hi]
    have hbelow : (t.mkdirs p).walk links' parent (plain ((n :: rest).take (j - k))) =
        .dir (parent ++ (n :: rest).take (j - k)) links' := by
      refine walk_dirs fun q hq hne => ?_
      rw [node_mkdirs, if_pos]
      rw [hdirs, mem_locationsBelow]
      exact ⟨q, hq.trans (List.take_prefix _ _), hne, rfl⟩
    have hend : (t.mkdirs p).follow (p.take j) =
        .dir (parent ++ (n :: rest).take (j - k)) links' := by
      rw [hsplit, follow_append _ _ hne, hstart]
      exact hbelow
    rw [hend] at hfollow
    obtain ⟨rfl, _⟩ := Walked.dir.inj hfollow
    rw [hdirs, mem_locationsBelow]
    exact ⟨_, List.take_prefix _ _, hne, rfl⟩

end Mkdirs

end Wldroid.Foundation
