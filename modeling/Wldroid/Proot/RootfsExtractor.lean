import Wldroid.Foundation.FileTree
import Wldroid.Foundation.Transition

/-!
# The rootfs extractor

An archive is extracted entry by entry into a directory.  The path of an entry is made canonical,
which follows the links that are there, and has to be inside the directory; then its parent
directories are made and the entry itself.  Hard links whose target is not there yet are made at the
end.

* `entryName`, `stripLinkTarget` — the leading components that are stripped;
* `Extraction.delete`, `Extraction.createLink`, `Extraction.copyTo`, ... — what is done to files,
  with a record of the locations and the inodes it is done to;
* `Extraction.nextEntry`, `Extraction.act`, `Extraction.linkDeferred` — the two loops of `extract`;
* `extractSystem` — all runs.
-/

namespace Wldroid.Proot

open Wldroid.Foundation

/-! ### Names -/

/-- The name of a file, and any text. -/
abbrev Name := List Char

/-- `split("/")` and `joinToString("/")`. -/
def splitPath (s : Name) : List Name := s.splitOn '/'
def joinPath (parts : List Name) : Name := ['/'].intercalate parts

/-- How a path is read: empty parts do not count. -/
def pathParts (s : Name) : List (PathPart Name) :=
  ((splitPath s).filter fun part => part ≠ []).map fun part =>
    if part = ['.'] then .here else if part = ['.', '.'] then .up else .name part

/-- What the entries are, in the order in which `extract` asks. -/
inductive EntryKind where
  | directory
  | symbolicLink
  | link
  | regular
  deriving DecidableEq

/-- `TarArchiveEntry`. -/
structure TarEntry where
  name : Name
  linkName : Name
  kind : EntryKind
  mode : ℕ

/-- The name of an entry without its leading components; nothing if it has no more. -/
def entryName (stripComponents : ℤ) (name : Name) : Option Name :=
  if stripComponents > 0 then
    let parts := splitPath name
    if parts.length ≤ stripComponents then none
    else some (joinPath (parts.drop stripComponents.toNat))
  else some name

/-- `stripLinkTarget`. -/
def stripLinkTarget (linkName entryName : Name) (stripComponents : ℤ) : Name :=
  if stripComponents ≤ 0 then linkName
  else if linkName.head? = some '.' ∨ linkName.head? = some '/' then linkName
  else
    let parts := splitPath linkName
    if parts.length > stripComponents then
      let entryParts := splitPath entryName
      if parts.take stripComponents.toNat = entryParts.take stripComponents.toNat then
        joinPath (parts.drop stripComponents.toNat)
      else linkName
    else linkName

/-! ### State -/

/-- What whoever extracts may do with a file; only its owner can change that. -/
structure FileAccess where
  owned : Bool
  readable : Bool
  writable : Bool
  executable : Bool

/-- A file that has just been created. -/
def FileAccess.created : FileAccess := ⟨true, true, true, false⟩

/-- `setPermissions`: the bits of the owner, then those of the others. -/
def FileAccess.setPermissions (a : FileAccess) (mode : ℕ) : FileAccess :=
  if !a.owned then a
  else
    let a := { a with readable := mode.testBit 8 }
    let a := { a with writable := mode.testBit 7 }
    let a := { a with executable := mode.testBit 6 }
    -- what is set for everybody is set for the owner too
    let a := if mode.testBit 2 then { a with readable := true } else a
    let a := if mode.testBit 1 then { a with writable := true } else a
    if mode.testBit 0 then { a with executable := true } else a

/-- Where `extract` is. -/
inductive Phase where
  | reading
  /-- The parent directories of the entry are made, and it comes next. -/
  | acting (entry : TarEntry) (outFile : List Name)
  | linking
  | done
  | thrown

/-- An extraction with the file system it works on. -/
structure Extraction where
  tree : FileTree Name
  /-- Numbers no file has had yet. -/
  nextInode : ℕ
  /-- By inode. -/
  access : ℕ → FileAccess
  phase : Phase
  failedSymlinks : List Name
  deferredHardLinks : List (List Name × List Name)
  /-- Ghost: where something has been created, truncated, deleted, hard-linked or copied from. -/
  touched : List (List Name)
  /-- Ghost: the inodes of the files written to. -/
  written : List ℕ

def Extraction.throw (s : Extraction) : Extraction := { s with phase := .thrown }

/-! ### File operations -/

def Extraction.touch (s : Extraction) (loc : List Name) : Extraction :=
  { s with touched := s.touched ++ [loc] }

/-- Something is put at a location. -/
def Extraction.create (s : Extraction) (loc : List Name) (x : FileNode Name) : Extraction :=
  { s.touch loc with tree := s.tree.put loc x }

/-- What is at a location is removed. -/
def Extraction.remove (s : Extraction) (loc : List Name) : Extraction :=
  { s.touch loc with tree := s.tree.erase loc }

def Extraction.exists (s : Extraction) (p : List Name) : Bool := (s.tree.follow p).real.isSome

/-- `File.mkdirs`. -/
def Extraction.mkdirs (s : Extraction) (p : List Name) : Extraction :=
  { s with tree := s.tree.mkdirs p, touched := s.touched ++ s.tree.newDirs p }

/-- `File.delete`, which does not follow a link and leaves directories that are not empty. -/
def Extraction.delete (s : Extraction) (p : List Name) : Extraction :=
  match s.tree.place p with
  | none => s
  | some loc =>
      match s.tree.node loc with
      | none => s
      | some .dir => if s.tree.isEmpty loc then s.remove loc else s
      | some (.file _) | some (.link _) => s.remove loc

/-- `Files.createSymbolicLink`; `none` is an exception. -/
def Extraction.createSymbolicLink (s : Extraction) (p : List Name) (target : Name) (allowed : Bool) :
    Option Extraction :=
  match s.tree.place p with
  | some loc =>
      if (s.tree.node loc).isNone && target ≠ [] && allowed then
        some (s.create loc (.link ⟨target.head? = some '/', pathParts target⟩))
      else none
  | none => none

/-- `Files.createLink`: another name for a file, or for a link. -/
def Extraction.createLink (s : Extraction) (p target : List Name) (allowed : Bool) :
    Option Extraction :=
  match s.tree.place p, s.tree.place target with
  | some loc, some source =>
      if (s.tree.node loc).isNone && allowed then
        match s.tree.node source with
        | some (.file inode) => some ((s.touch source).create loc (.file inode))
        | some (.link target) => some ((s.touch source).create loc (.link target))
        | some .dir | none => none
      else none
  | _, _ => none

/-- `FileOutputStream` and what is written to it; it follows links.  `false` is an exception. -/
def Extraction.fileOutputStream (s : Extraction) (p : List Name) : Extraction × Bool :=
  match s.tree.follow p with
  | .file loc inode =>
      if (s.access inode).writable then
        ({ s.touch loc with written := s.written ++ [inode] }, true)
      else (s, false)
  | .absent loc =>
      ({ s.create loc (.file s.nextInode) with
        nextInode := s.nextInode + 1
        access := Function.update s.access s.nextInode .created
        written := s.written ++ [s.nextInode] }, true)
  | .dir _ _ | .missing | .loop => (s, false)

/-- `setPermissions` follows links as well. -/
def Extraction.setPermissions (s : Extraction) (p : List Name) (mode : ℕ) : Extraction :=
  match s.tree.follow p with
  | .file _ inode =>
      { s with access := Function.update s.access inode ((s.access inode).setPermissions mode) }
  | .dir _ _ | .absent _ | .missing | .loop => s

/-- `File.copyTo` with `overwrite`. -/
def Extraction.copyTo (s : Extraction) (source target : List Name) : Extraction × Bool :=
  if !s.exists source then (s, false)
  else
    let s := if s.exists target then s.delete target else s
    if s.exists target then (s, false)
    else
      match s.tree.follow source with
      | .dir _ _ =>
          let s := s.mkdirs target
          (s, s.exists target)
      | .file loc inode =>
          let s := s.mkdirs target.dropLast
          if (s.access inode).readable then (s.touch loc).fileOutputStream target else (s, false)
      | .absent _ | .missing | .loop => (s, false)

/-- A hard link, or a copy if that fails. -/
def Extraction.linkOrCopy (s : Extraction) (outFile linkTarget : List Name) (allowed : Bool) :
    Extraction :=
  let s := s.delete outFile
  match s.createLink outFile linkTarget allowed with
  | some s => s
  | none =>
      match s.copyTo linkTarget outFile with
      | (s, true) => s
      | (s, false) => s.throw

/-! ### The extraction -/

section Extract

variable (canonicalDest : List Name) (stripComponents : ℤ)

/-- `File(canonicalDest, name).canonicalFile`. -/
def Extraction.canonicalFile (s : Extraction) (name : Name) : Option (List Name) :=
  s.tree.canonicalFile (plain canonicalDest ++ pathParts name)

/-- The loop over the entries, up to the parent directories. -/
def Extraction.nextEntry (s : Extraction) (entry : TarEntry) : Extraction :=
  match entryName stripComponents entry.name with
  | none => s
  | some name =>
      match s.canonicalFile canonicalDest name with
      | none => s.throw
      | some outFile =>
          -- zip-slip protection
          if ¬ canonicalDest <+: outFile then s.throw
          else
            match entry.kind with
            | .directory => s.mkdirs outFile
            | .symbolicLink | .link | .regular =>
                { s.mkdirs outFile.dropLast with phase := .acting entry outFile }

/-- The rest of the loop; `allowed` tells whether the file system makes links. -/
def Extraction.act (s : Extraction) (entry : TarEntry) (outFile : List Name) (allowed : Bool) :
    Extraction :=
  let s := { s with phase := .reading }
  let target := stripLinkTarget entry.linkName entry.name stripComponents
  match entry.kind with
  | .directory => s
  | .symbolicLink =>
      let s := s.delete outFile
      match s.createSymbolicLink outFile target allowed with
      | some s => s
      | none => { s with failedSymlinks := s.failedSymlinks ++ [entry.name] }
  | .link =>
      match s.canonicalFile canonicalDest target with
      | none => s.throw
      | some linkTarget =>
          if s.exists linkTarget then s.linkOrCopy outFile linkTarget allowed
          else { s with deferredHardLinks := s.deferredHardLinks ++ [(outFile, linkTarget)] }
  | .regular =>
      match s.fileOutputStream outFile with
      | (s, true) => s.setPermissions outFile entry.mode
      | (s, false) => s.throw

/-- After the last entry. -/
def Extraction.endOfArchive (s : Extraction) : Extraction :=
  if s.failedSymlinks.length > 10 then s.throw else { s with phase := .linking }

/-- The loop over the deferred hard links. -/
def Extraction.linkDeferred (s : Extraction) (allowed : Bool) : Extraction :=
  match s.deferredHardLinks with
  | [] => { s with phase := .done }
  | (outFile, linkTarget) :: rest =>
      let s := { s with deferredHardLinks := rest }
      if s.exists linkTarget then s.linkOrCopy outFile linkTarget allowed else s

/-! ### Runs -/

/-- The steps of `extract`; the entries are those of the archive. -/
inductive ExtractEvent where
  | entry (entry : TarEntry)
  | act (allowed : Bool)
  | endOfArchive
  | link (allowed : Bool)

/-- The next state. -/
def Extraction.next (s : Extraction) : ExtractEvent → Option Extraction
  | .entry entry =>
      match s.phase with
      | .reading => some (s.nextEntry canonicalDest stripComponents entry)
      | _ => none
  | .act allowed =>
      match s.phase with
      | .acting entry outFile => some (s.act canonicalDest stripComponents entry outFile allowed)
      | _ => none
  | .endOfArchive =>
      match s.phase with
      | .reading => some s.endOfArchive
      | _ => none
  | .link allowed =>
      match s.phase with
      | .linking => some (s.linkDeferred allowed)
      | _ => none

/-- The destination has just been made, in whatever file system. -/
structure Extraction.Initial (s : Extraction) : Prop where
  phase : s.phase = .reading
  nothing : s.failedSymlinks = [] ∧ s.deferredHardLinks = [] ∧ s.touched = [] ∧ s.written = []
  closed : s.tree.Closed
  dest : canonicalDest ≠ [] ∧ s.tree.node canonicalDest = some .dir
  empty : ∀ q, q ≠ [] → s.tree.node (canonicalDest ++ q) = none
  inodes : ∀ loc inode, s.tree.node loc = some (.file inode) → inode < s.nextInode

/-- All runs. -/
def extractSystem : System Extraction ExtractEvent :=
  System.ofNext (Extraction.Initial canonicalDest)
    (Extraction.next canonicalDest stripComponents)

end Extract

end Wldroid.Proot
