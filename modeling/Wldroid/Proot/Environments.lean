import Wldroid.Foundation.Keyed
import Wldroid.Foundation.Transition

/-!
# Environments: their directories, their records and the calls that make them

An environment is a directory under `rootfsBaseDir` and a record in `RootfsStore`, under one id.
`EnvironmentRegistry` and `RootfsManager` write the two one after the other.

* `EnvDir` — a directory with the pieces written to it so far and, beside them, those a complete
  rootfs consists of; `etc/os-release` and the `.creating` marker are pieces like any other;
* `Storage` — all directories and the record store, with the operations on them;
* `Storage.adoptOrphanedEnvironments` — the recovery, run on its own;
* `Build.step` — `create`, `createEnvironment`, `duplicate` and `importRootfs`, one file-system
  operation, store access or suspension point a step, each of which may also fail; a step has at
  most one `Effect` on the storage;
* `Adoption.step`, `Deletion.step` — recovery and deletion in steps, to be interleaved with those.

A record also has a path, a distribution, a time and a size, which no other operation here reads;
its path is always that of the directory of its id.
-/

namespace Wldroid.Proot

open Wldroid.Foundation

abbrev EnvId := String

/-! ### Directories -/

/-- What one file-system operation leaves in a rootfs. -/
inductive Piece where
  /-- Part of a file, directory or link of the archive or of the copied tree.  A piece of
  `etc/os-release` is what makes that path exist. -/
  | entry (path : String) (part : ℕ)
  /-- What `configureRootfs` writes there, or the `.l2s` directory. -/
  | config (path : String)
  /-- The `.creating` marker. -/
  | creating
  deriving DecidableEq, Repr

def Piece.isOsRelease : Piece → Bool
  | .entry path _ => path == "etc/os-release"
  | _ => false

/-- What `configureRootfs` writes, in its order. -/
def configPieces : List Piece :=
  [.config "etc/environment", .config "etc/profile.d/wldroid-path.sh", .config "dev/shm",
    .config "tmp", .config "etc/resolv.conf", .config "home/user", .config "etc/passwd",
    .config "etc/group", .config "etc/shadow", .config "etc/sudoers.d/user"]

/-- The directory for proot's link2symlink. -/
def l2sPiece : Piece := .config ".l2s"

structure EnvDir where
  name : EnvId
  pieces : List Piece
  /-- What a completely written rootfs in this directory consists of. -/
  wanted : List Piece
  deriving DecidableEq, Repr

namespace EnvDir

def isCreating (d : EnvDir) : Bool := decide (.creating ∈ d.pieces)

def hasOsRelease (d : EnvDir) : Bool := d.pieces.any Piece.isOsRelease

/-- Everything has been written; the marker is not part of a rootfs. -/
def isComplete (d : EnvDir) : Bool :=
  d.wanted.all fun p => p == .creating || decide (p ∈ d.pieces)

def put (d : EnvDir) (p : Piece) : EnvDir := { d with pieces := d.pieces ++ [p] }

def erase (d : EnvDir) (p : Piece) : EnvDir :=
  { d with pieces := d.pieces.filter fun q => q ≠ p }

/-- The contents but for the marker are deleted. -/
def clear (d : EnvDir) : EnvDir :=
  { d with pieces := d.pieces.filter fun q => q = .creating }

end EnvDir

/-! ### Records and storage -/

inductive RootfsStatus where
  | ready
  | downloading
  | extracting
  | installing
  | error
  deriving DecidableEq, Repr

structure RootfsEnvironment where
  id : EnvId
  name : String
  status : RootfsStatus
  deriving DecidableEq, Repr

structure Storage where
  dirs : List EnvDir
  store : List RootfsEnvironment
  deriving DecidableEq, Repr

namespace Storage

/-- The directory of an environment. -/
def dir? (s : Storage) (id : EnvId) : Option EnvDir := lookup EnvDir.name id s.dirs

def mkdirs (s : Storage) (id : EnvId) (wanted : List Piece) : Storage :=
  if (s.dir? id).isSome then s else { s with dirs := s.dirs ++ [⟨id, [], wanted⟩] }

def change (s : Storage) (id : EnvId) (f : EnvDir → EnvDir) : Storage :=
  { s with dirs := update EnvDir.name id f s.dirs }

def removeDir (s : Storage) (id : EnvId) : Storage :=
  { s with dirs := remove EnvDir.name id s.dirs }

/-- The ids that have a record. -/
def registered (s : Storage) : List EnvId := s.store.map RootfsEnvironment.id

def addEnvironment (s : Storage) (env : RootfsEnvironment) : Storage :=
  { s with store := s.store ++ [env] }

def removeEnvironment (s : Storage) (id : EnvId) : Storage :=
  { s with store := s.store.filter fun env => env.id ≠ id }

/-- The directory holds a valid rootfs: `etc/os-release` exists. -/
def hasEnvironment (s : Storage) (id : EnvId) : Bool := (s.dir? id).any EnvDir.hasOsRelease

/-- The directories that hold an `etc/os-release` and have no record. -/
def findOrphanedEnvironments (s : Storage) (registeredIds : List EnvId) : List EnvId :=
  (s.dirs.filter fun d => d.hasOsRelease && decide (d.name ∉ registeredIds)).map EnvDir.name

/-- The record an orphaned directory gets. -/
def adopted (id : EnvId) : RootfsEnvironment := ⟨id, id, .ready⟩

/-- Interrupted installations are deleted first. -/
def cleanInterrupted (s : Storage) : Storage :=
  { s with dirs := s.dirs.filter fun d => !d.isCreating }

/-- The recovery at startup, with nothing else running. -/
def adoptOrphanedEnvironments (s : Storage) : Storage :=
  let cleaned := s.cleanInterrupted
  { cleaned with
    store := cleaned.store ++ (cleaned.findOrphanedEnvironments cleaned.registered).map adopted }

end Storage

/-! ### The calls that make an environment -/

/-- What makes the environment. -/
inductive BuildKind where
  /-- `EnvironmentRegistry.create`: a job around `createEnvironment`. -/
  | create
  /-- `RootfsManager.createEnvironment` on its own. -/
  | createEnvironment
  | duplicate (source : EnvId)
  | importRootfs
  deriving DecidableEq, Repr

/-- The kinds that go through `createEnvironment`. -/
def BuildKind.isCreation : BuildKind → Bool
  | .create | .createEnvironment => true
  | _ => false

/-- Where a call stands: what it does next. -/
inductive BuildPc where
  /-- The job makes the directory, so that the marker can be written. -/
  | makeJobDir
  | createMarker
  /-- Contents of an unfinished extraction are deleted. -/
  | clearPartial
  /-- Waiting for `createMutex`. -/
  | lock
  | checkExisting
  /-- `send(DOWNLOADING)`, then the cached tarball or the download. -/
  | download
  | verifySha256
  /-- The store read of `duplicate`. -/
  | findSource (source : EnvId)
  /-- The source directory has to exist. -/
  | requireSource (source : EnvId)
  | makeDir
  /-- Extraction or copying, with what is left to write. -/
  | write (todo : List Piece)
  /-- `deleteRecursively` of a handler, with what it has not reached. -/
  | cleanup (left : List Piece)
  | sendError
  | sendInstalling
  | configure (todo : List Piece)
  | validate
  | makeL2s
  | add
  | verifyStore
  | sendReady
  /-- The end of `withContext`. -/
  | leaveContext
  /-- The `finally` of the job. -/
  | deleteMarker (failed : Bool)
  | ended (failed : Bool)
  deriving DecidableEq, Repr

structure Build where
  kind : BuildKind
  id : EnvId
  name : String
  /-- The tarball's entries, or the contents of the source directory. -/
  archive : List Piece
  /-- The record has been written. -/
  recorded : Bool
  pc : BuildPc
  deriving DecidableEq, Repr

/-- How a step ends. -/
inductive StepOutcome where
  | returns
  /-- An exception. -/
  | fails
  /-- `CancellationException` at a suspension point. -/
  | cancelled
  /-- Whether the tarball has the right SHA-256. -/
  | verified (ok : Bool)
  /-- The piece is deleted. -/
  | deleted (p : Piece)
  /-- The piece cannot be deleted. -/
  | kept (p : Piece)
  /-- The edit returns; whether the store keeps it. -/
  | edited (persisted : Bool)
  /-- The edit throws, or is cancelled; whether the store was written. -/
  | editFailed (persisted : Bool)
  deriving DecidableEq, Repr

/-- What a step does to the storage: to the directory of its environment, or to the store. -/
inductive Effect where
  | nothing
  | mkdirs
  | put (p : Piece)
  | erase (p : Piece)
  | clear
  | removeDir
  | addRecord
  deriving DecidableEq, Repr

namespace Build

def startPc : BuildKind → BuildPc
  | .create => .makeJobDir
  | .createEnvironment => .lock
  | .duplicate source => .findSource source
  | .importRootfs => .makeDir

/-- What is written after the extraction or the copy. -/
def finishing : BuildKind → List Piece
  | .create | .createEnvironment => configPieces ++ [l2sPiece]
  | .duplicate _ => []
  | .importRootfs => configPieces

/-- What the finished rootfs consists of. -/
def wanted (b : Build) : List Piece := b.archive ++ finishing b.kind

def goto (b : Build) (pc : BuildPc) : Build := { b with pc := pc }

def record (b : Build) : RootfsEnvironment := ⟨b.id, b.name, .ready⟩

/-- The call is over but for the job's `finally`. -/
def exit (b : Build) (failed : Bool) : Build :=
  b.goto (if b.kind = .create then .deleteMarker failed else .ended failed)

/-- The handler's `deleteRecursively` begins. -/
def startCleanup (s : Storage) (b : Build) : Build :=
  b.goto (.cleanup ((s.dir? b.id).elim [] EnvDir.pieces))

/-- What follows a handler's `deleteRecursively`. -/
def afterCleanup (b : Build) : Build :=
  if b.kind.isCreation then b.goto .sendError else b.exit true

/-- What follows the extraction or the copy. -/
def afterWrite (b : Build) : Build :=
  b.goto (match b.kind with
    | .create | .createEnvironment => .sendInstalling
    | .duplicate _ => .add
    | .importRootfs => .configure configPieces)

/-- What follows the store write. -/
def afterAdd (b : Build) : Build :=
  b.goto (if b.kind.isCreation then .verifyStore else .leaveContext)

/-- The call knows nothing of it, but its record is in the store. -/
def noteRecorded (b : Build) (persisted : Bool) : Build := { b with recorded := persisted }

/-- The edit reaches the store, or does not. -/
def editEffect (persisted : Bool) : Effect := if persisted then .addRecord else .nothing

/-- One step of the call. -/
def step (s : Storage) (b : Build) : BuildPc → StepOutcome → Option (Effect × Build)
  | .makeJobDir, .returns => some (.mkdirs, b.goto .createMarker)
  | .makeJobDir, .fails => some (.nothing, b.exit true)
  | .createMarker, .returns => some (.put .creating, b.goto .clearPartial)
  | .createMarker, .fails => some (.nothing, b.exit true)
  | .clearPartial, .returns =>
      some (if s.hasEnvironment b.id then .nothing else .clear, b.goto .lock)
  | .clearPartial, .fails => some (.nothing, b.exit true)
  | .lock, .returns => some (.nothing, b.goto .checkExisting)
  | .lock, .cancelled => some (.nothing, b.exit true)
  | .checkExisting, .returns =>
      some (.nothing, b.goto (if s.hasEnvironment b.id then .sendReady else .download))
  | .download, .returns => some (.nothing, b.goto .verifySha256)
  | .download, .fails => some (.nothing, b.exit true)
  | .download, .cancelled => some (.nothing, b.exit true)
  | .verifySha256, .verified ok =>
      some (.nothing, b.goto (if ok then .makeDir else .sendError))
  | .verifySha256, .fails => some (.nothing, b.exit true)
  | .verifySha256, .cancelled => some (.nothing, b.exit true)
  | .findSource source, .returns =>
      some (.nothing,
        if source ∈ s.registered then b.goto (.requireSource source) else b.exit true)
  | .findSource _, .fails => some (.nothing, b.exit true)
  | .findSource _, .cancelled => some (.nothing, b.exit true)
  | .requireSource source, .returns =>
      some (.nothing, (s.dir? source).elim (b.exit true) fun d =>
        { b with archive := d.pieces, pc := .makeDir })
  | .makeDir, .returns => some (.mkdirs, b.goto (.write b.archive))
  -- the handlers of duplicate and importRootfs cover the making of the directory
  | .makeDir, .fails => if b.kind.isCreation then none else some (.nothing, startCleanup s b)
  | .makeDir, .cancelled => if b.kind.isCreation then some (.nothing, b.exit true) else none
  | .write (p :: rest), .returns => some (.put p, b.goto (.write rest))
  | .write [], .returns => some (.nothing, b.afterWrite)
  | .write _, .fails => some (.nothing, startCleanup s b)
  | .cleanup left, .deleted p =>
      if p ∈ left then some (.erase p, b.goto (.cleanup (left.erase p))) else none
  | .cleanup left, .kept p =>
      if p ∈ left then some (.nothing, b.goto (.cleanup (left.erase p))) else none
  -- the directory itself goes when nothing is left in it
  | .cleanup [], .returns =>
      some (if (s.dir? b.id).any fun d => d.pieces.isEmpty then .removeDir else .nothing,
        b.afterCleanup)
  | .sendError, .returns => some (.nothing, b.exit true)
  | .sendError, .cancelled => some (.nothing, b.exit true)
  | .sendInstalling, .returns => some (.nothing, b.goto (.configure configPieces))
  | .sendInstalling, .cancelled => some (.nothing, b.exit true)
  | .configure (p :: rest), .returns => some (.put p, b.goto (.configure rest))
  | .configure [], .returns =>
      some (.nothing, b.goto (if b.kind.isCreation then .validate else .add))
  | .configure _, .fails => some (.nothing, b.exit true)
  | .validate, .returns =>
      some (.nothing, if s.hasEnvironment b.id then b.goto .makeL2s else startCleanup s b)
  | .makeL2s, .returns => some (.put l2sPiece, b.goto .add)
  | .add, .edited persisted => some (editEffect persisted, (b.noteRecorded persisted).afterAdd)
  | .add, .editFailed persisted =>
      some (editEffect persisted, (b.noteRecorded persisted).exit true)
  -- a write that was lost is an error
  | .verifyStore, .returns =>
      some (.nothing, b.goto (if b.id ∈ s.registered then .sendReady else .sendError))
  | .verifyStore, .fails => some (.nothing, b.exit true)
  | .verifyStore, .cancelled => some (.nothing, b.exit true)
  | .sendReady, .returns => some (.nothing, b.exit false)
  | .sendReady, .cancelled => some (.nothing, b.exit true)
  | .leaveContext, .returns => some (.nothing, b.exit false)
  | .leaveContext, .cancelled => some (.nothing, b.exit true)
  | .deleteMarker failed, .returns => some (.erase .creating, b.goto (.ended failed))
  | _, _ => none

/-- The effect of a step, in the directory of its environment or in the store. -/
def apply (s : Storage) (b : Build) : Effect → Storage
  | .nothing => s
  | .mkdirs => s.mkdirs b.id b.wanted
  | .put p => s.change b.id fun d => d.put p
  | .erase p => s.change b.id fun d => d.erase p
  | .clear => s.change b.id EnvDir.clear
  | .removeDir => s.removeDir b.id
  | .addRecord => s.addEnvironment b.record

/-- The storage and the call after one step. -/
def next (s : Storage) (b : Build) (outcome : StepOutcome) : Option (Storage × Build) :=
  (b.step s b.pc outcome).map fun r => (b.apply s r.1, r.2)

end Build

/-! ### Recovery and deletion in steps -/

/-- Where a call of `adoptOrphanedEnvironments` stands. -/
inductive AdoptionPc where
  | listInterrupted
  | clean (ids : List EnvId)
  | readStore
  /-- The listing, against the ids read from the store. -/
  | listDirs (registeredIds : List EnvId)
  | adopt (orphanIds : List EnvId)
  | ended
  deriving DecidableEq, Repr

/-- One step of `adoptOrphanedEnvironments`. -/
def Adoption.step (s : Storage) : AdoptionPc → StepOutcome → Option (Storage × AdoptionPc)
  | .listInterrupted, .returns =>
      some (s, .clean ((s.dirs.filter EnvDir.isCreating).map EnvDir.name))
  | .clean (id :: rest), .returns => some (s.removeDir id, .clean rest)
  | .clean [], .returns => some (s, .readStore)
  | .readStore, .returns => some (s, .listDirs s.registered)
  | .readStore, .fails => some (s, .ended)
  | .readStore, .cancelled => some (s, .ended)
  | .listDirs registeredIds, .returns =>
      some (s, .adopt (s.findOrphanedEnvironments registeredIds))
  | .adopt (id :: rest), .edited persisted =>
      some (if persisted then s.addEnvironment (Storage.adopted id) else s, .adopt rest)
  | .adopt (id :: _), .editFailed persisted =>
      some (if persisted then s.addEnvironment (Storage.adopted id) else s, .ended)
  | .adopt [], .returns => some (s, .ended)
  | _, _ => none

/-- Where a call of `deleteEnvironment` stands. -/
inductive DeletionPc where
  | deleteDir
  | removeRecord
  | ended
  deriving DecidableEq, Repr

/-- One step of `deleteEnvironment`; a directory that cannot be deleted stays. -/
def Deletion.step (s : Storage) (id : EnvId) : DeletionPc → StepOutcome →
    Option (Storage × DeletionPc)
  | .deleteDir, .returns => some (s.removeDir id, .removeRecord)
  | .deleteDir, .fails => some (s, .removeRecord)
  | .removeRecord, .edited persisted =>
      some (if persisted then s.removeEnvironment id else s, .ended)
  | .removeRecord, .editFailed persisted =>
      some (if persisted then s.removeEnvironment id else s, .ended)
  | _, _ => none

end Wldroid.Proot
