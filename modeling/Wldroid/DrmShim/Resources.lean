import Wldroid.DrmShim.InodeCache

/-!
# Server resources and the ioctls that make, use and end them

The ioctls that create, export, import, use and close BOs, with the requests they send to the vtest
server.  Which resources are live on the server is read off the requests: a creation makes one, an
unref ends it.

* `shimResourceCreate`, `shimPrimeHandleToFd`, `shimPrimeFdToHandle`, `shimGemClose`, the transfers
  and the wait — the ioctls;
* `liveIds` — the resources that are live after some requests;
* `shimSystem` — all runs of the ioctls.
-/

namespace Wldroid.DrmShim

open Wldroid.Foundation

/-! ### The server -/

/-- The requests about resources, with their payloads; a creation also tells the handle the resource
got. -/
inductive Request where
  | resourceCreate2 (payload : List ℕ) (res : ℕ)
  | resourceUnref (res : ℕ)
  | transferGet2 (res : ℕ) (rest : List ℕ)
  | transferPut2 (res : ℕ) (rest : List ℕ)
  | resourceBusyWait (res flags : ℕ)

/-- The resource a request is about; a creation is about none yet. -/
def Request.names : Request → Option ℕ
  | .resourceCreate2 _ _ => none
  | .resourceUnref res | .transferGet2 res _ | .transferPut2 res _ | .resourceBusyWait res _ =>
      some res

/-- The resources that are live after a request. -/
def liveAfter (live : List ℕ) : Request → List ℕ
  | .resourceCreate2 _ res => res :: live
  | .resourceUnref res => live.filter fun r => r ≠ res
  | _ => live

/-- The resources that are live after some requests. -/
def liveIds (sent : List Request) : List ℕ := sent.foldl liveAfter []

/-! ### State -/

/-- The shim's globals, as far as resources go. -/
structure Shim where
  /-- `vtest_sock` is set. -/
  sock : Bool
  /-- `vtest_protocol_version`. -/
  protocolVersion : ℕ
  table : BoTable
  cache : InodeCache
  /-- The requests sent so far. -/
  sent : List Request
  /-- The ranges unmapped so far. -/
  unmaps : List (ℕ × ℕ)

/-- What an ioctl can fail with; the last one stands for what `dup` and `memfd_create` set. -/
inductive Errno where
  | eio
  | enomem
  | enoent
  | ebusy
  | einval
  | other

/-- Send a request. -/
def Shim.send (s : Shim) (r : Request) : Shim := { s with sent := s.sent ++ [r] }

/-- `vtest_ensure_connected`; connecting yields the protocol version or fails. -/
def ensureConnected (s : Shim) (connect : Option ℕ) : Option Shim :=
  if s.sock then some s
  else connect.map fun version => { s with sock := true, protocolVersion := version }

/-! ### Creation -/

/-- `struct drm_virtgpu_resource_create`, its input. -/
structure ResourceCreate where
  target : ℕ
  format : ℕ
  bind : ℕ
  width : ℕ
  height : ℕ
  depth : ℕ
  arraySize : ℕ
  lastLevel : ℕ
  nrSamples : ℕ
  size : ℕ
  stride : ℕ

/-- The data size sent: at least stride times height, in 32 bits, unless no data is asked for. -/
def ResourceCreate.dataSize (rc : ResourceCreate) : ℕ :=
  let strideSize := rc.stride * rc.height % 2 ^ 32
  if rc.size > 0 ∧ strideSize > rc.size then strideSize else rc.size

/-- The 11 words of `VCMD_RESOURCE_CREATE2`; up to version 2 the client assigns the handle. -/
def ResourceCreate.payload (rc : ResourceCreate) (protocolVersion handle : ℕ) : List ℕ :=
  [if protocolVersion ≥ 3 then 0 else handle, rc.target, rc.format, rc.bind, rc.width, rc.height,
    rc.depth, rc.arraySize, rc.lastLevel, rc.nrSamples, rc.dataSize]

/-- How the exchange of a creation ends: with a socket error, before or after the server has seen
the request, or with an answer, whose file is received if data was asked for. -/
inductive Exchange where
  | lost (created : Bool)
  | answered (file : BackingFile)

/-- What the surroundings contribute to a creation. -/
structure CreateEnv where
  connect : Option ℕ
  realloc : Bool
  /-- The handle the server assigns, from version 3 on. -/
  serverRes : ℕ
  exchange : Exchange

/-- What a creation stores into its BO. -/
def Bo.created (rc : ResourceCreate) (res : ℕ) (shmFd : Option BackingFile) (bo : Bo) : Bo :=
  { bo with
    resHandle := res
    shmFd := shmFd
    size := rc.dataSize
    stride := rc.stride
    width := rc.width
    height := rc.height
    isAhb := isAhbLink shmFd }

/-- What a creation stores into the cache. -/
def CacheEntry.created (rc : ResourceCreate) (res : ℕ) (isAhb : Bool) (key : FileKey) :
    CacheEntry where
  key := key
  resHandle := res
  width := rc.width
  height := rc.height
  stride := rc.stride
  size := rc.dataSize
  isAhb := isAhb

/-- The end of `shim_resource_create`: fill the BO, seed the cache. -/
def Shim.fill (s : Shim) (rc : ResourceCreate) (handle res : ℕ) (shmFd : Option BackingFile) :
    Shim :=
  { s with
    table :=
      if (boLookup s.table handle).isSome then s.table.modify handle (Bo.created rc res shmFd)
      else s.table
    cache :=
      s.cache.store shmFd (CacheEntry.created rc res
        ((boLookup s.table handle).isSome && isAhbLink shmFd)) }

/-- `shim_resource_create`: the handle and the resource. -/
def shimResourceCreate (s : Shim) (rc : ResourceCreate) (env : CreateEnv) :
    Option (Shim × Except Errno (ℕ × ℕ)) :=
  match ensureConnected s env.connect with
  | none => some (s, .error .eio)
  | some s =>
      match boAlloc s.table env.realloc with
      | none => none
      | some (table, none) => some ({ s with table := table }, .error .enomem)
      | some (table, some handle) =>
          let s := { s with table := table }
          let res := if s.protocolVersion ≥ 3 then env.serverRes else handle
          let request := Request.resourceCreate2 (rc.payload s.protocolVersion handle) res
          match env.exchange with
          | .lost created => some (if created then s.send request else s, .error .eio)
          | .answered file =>
              let shmFd := if rc.size > 0 then some file else none
              some ((s.send request).fill rc handle res shmFd, .ok (handle, res))

/-! ### Use -/

/-- The arguments of the transfer ioctls, the box among them. -/
structure Transfer where
  boHandle : ℕ
  level : ℕ
  x : ℕ
  y : ℕ
  z : ℕ
  w : ℕ
  h : ℕ
  d : ℕ
  offset : ℕ

/-- The words after the resource handle: the data size is zero, the data goes through memory. -/
def Transfer.words (t : Transfer) : List ℕ :=
  [t.level, t.x, t.y, t.z, t.w, t.h, t.d, 0, t.offset]

/-- `shim_transfer_to_host` and `shim_transfer_from_host`: one request about the BO's resource. -/
def shimTransfer (request : ℕ → List ℕ → Request) (s : Shim) (t : Transfer)
    (connect : Option ℕ) : Shim × Except Errno Unit :=
  match ensureConnected s connect with
  | none => (s, .error .eio)
  | some s =>
      match boLookup s.table t.boHandle with
      | some bo =>
          if bo.resHandle = 0 then (s, .error .enoent)
          else (s.send (request bo.resHandle t.words), .ok ())
      | none => (s, .error .enoent)

/-- `shim_transfer_to_host`. -/
def shimTransferToHost : Shim → Transfer → Option ℕ → Shim × Except Errno Unit :=
  shimTransfer .transferPut2

/-- `shim_transfer_from_host`. -/
def shimTransferFromHost : Shim → Transfer → Option ℕ → Shim × Except Errno Unit :=
  shimTransfer .transferGet2

/-- `shim_wait`; `nowait` is `VIRTGPU_WAIT_NOWAIT` of its flags, `busy` the server's answer. -/
def shimWait (s : Shim) (handle : ℕ) (nowait busy : Bool) (connect : Option ℕ) :
    Shim × Except Errno Unit :=
  match ensureConnected s connect with
  | none => (s, .error .eio)
  | some s =>
      match boLookup s.table handle with
      | some bo =>
          if bo.resHandle = 0 then (s, .error .enoent)
          else
            (s.send (.resourceBusyWait bo.resHandle (if nowait then 0 else 1)),
              if busy && nowait then .error .ebusy else .ok ())
      | none => (s, .error .enoent)

/-! ### Export and import -/

/-- `vtest_busy_wait_for_resource`. -/
def vtestBusyWaitForResource (s : Shim) (res : ℕ) : Shim :=
  if !s.sock ∨ res = 0 then s else s.send (.resourceBusyWait res 1)

/-- `vtest_transfer_get_for_export`. -/
def vtestTransferGetForExport (s : Shim) (res width height : ℕ) : Shim :=
  if !s.sock ∨ res = 0 then s
  else s.send (.transferGet2 res [0, 0, 0, 0, width, height, 1, 0, 0])

/-- `shim_prime_handle_to_fd`: the file the exported descriptor refers to.  `dup` tells whether the
BO's descriptor could be duplicated; a BO without one exports the `placeholder` of
`memfd_create`. -/
def shimPrimeHandleToFd (s : Shim) (handle : ℕ) (dup : Bool) (placeholder : Option BackingFile) :
    Shim × Except Errno BackingFile :=
  match boLookup s.table handle with
  | none => (s, .error .enoent)
  | some bo =>
      match bo.shmFd with
      | some file =>
          let s := if bo.isAhb then s
            else vtestTransferGetForExport s bo.resHandle bo.width bo.height
          (vtestBusyWaitForResource s bo.resHandle, if dup then .ok file else .error .other)
      | none => (s, placeholder.elim (.error .other) .ok)

/-- What an import stores into its BO; `dup` tells whether the descriptor could be duplicated. -/
def Bo.imported (fd : Option BackingFile) (dup : Bool) (bo : Bo) : Bo :=
  { bo with
    shmFd := if dup then fd else none
    size := (fd.elim 0 BackingFile.size) % 2 ^ 32
    resHandle := 0
    isAhb := isAhbLink fd }

/-- What an import copies from the cache. -/
def Bo.restored (e : CacheEntry) (bo : Bo) : Bo :=
  { bo with
    resHandle := e.resHandle
    width := e.width
    height := e.height
    stride := e.stride
    size := e.size
    isAhb := e.isAhb }

/-- `shim_prime_fd_to_handle`. -/
def shimPrimeFdToHandle (s : Shim) (fd : Option BackingFile) (realloc dup : Bool) :
    Option (Shim × Except Errno ℕ) :=
  match boFindByInode s.table fd with
  | none => none
  | some (some bo) => some (s, .ok bo.boHandle)
  | some none =>
      match boAlloc s.table realloc with
      | none => none
      | some (table, none) => some ({ s with table := table }, .error .enomem)
      | some (table, some handle) =>
          let table := table.modify handle (Bo.imported fd dup)
          let table := match s.cache.lookup fd with
            | some e => table.modify handle (Bo.restored e)
            | none => table
          some ({ s with table := table }, .ok handle)

/-! ### Closing -/

/-- `shim_gem_close`; closing an unknown handle is not an error. -/
def shimGemClose (s : Shim) (handle : ℕ) : Shim :=
  match boLookup s.table handle with
  | none => s
  | some bo =>
      let s := { s with
        table := s.table.modify handle fun _ => Bo.zero
        unmaps := s.unmaps ++
          (if bo.size > 0 then bo.mmapPtr.toList.map fun p => (p, bo.size) else []) }
      -- the resource of an AHB stays for a later import
      if bo.resHandle ≠ 0 ∧ !bo.isAhb ∧ s.sock then s.send (.resourceUnref bo.resHandle) else s

/-! ### Runs -/

/-- The ioctls, with what their surroundings contribute. -/
inductive ShimEvent where
  | resourceCreate (rc : ResourceCreate) (env : CreateEnv)
  | transferToHost (t : Transfer) (connect : Option ℕ)
  | transferFromHost (t : Transfer) (connect : Option ℕ)
  | wait (handle : ℕ) (nowait busy : Bool) (connect : Option ℕ)
  | primeHandleToFd (handle : ℕ) (dup : Bool) (placeholder : Option BackingFile)
  | primeFdToHandle (fd : Option BackingFile) (realloc dup : Bool)
  | gemClose (handle : ℕ)

/-- The shim after an ioctl, if it returns.  The server assigns handles that are not in use. -/
def Shim.next (s : Shim) : ShimEvent → Option Shim
  | .resourceCreate rc env =>
      if env.serverRes ∈ liveIds s.sent then none else (shimResourceCreate s rc env).map Prod.fst
  | .transferToHost t connect => some (shimTransferToHost s t connect).1
  | .transferFromHost t connect => some (shimTransferFromHost s t connect).1
  | .wait handle nowait busy connect => some (shimWait s handle nowait busy connect).1
  | .primeHandleToFd handle dup placeholder =>
      some (shimPrimeHandleToFd s handle dup placeholder).1
  | .primeFdToHandle fd realloc dup => (shimPrimeFdToHandle s fd realloc dup).map Prod.fst
  | .gemClose handle => some (shimGemClose s handle)

/-- The shim at load time. -/
def Shim.Initial (s : Shim) : Prop :=
  s.sock = false ∧ s.table = BoTable.empty ∧ s.cache = InodeCache.empty ∧ s.sent = []

/-- All runs of the shim. -/
def shimSystem : System Shim ShimEvent := System.ofNext Shim.Initial Shim.next

end Wldroid.DrmShim
