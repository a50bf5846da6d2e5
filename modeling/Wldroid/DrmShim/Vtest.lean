import Wldroid.DrmShim.Resources
import Wldroid.Foundation.FifoRpc
import Wldroid.Foundation.Words

/-!
# The vtest connection

The requests the shim writes to the vtest server, byte by byte, with the answers it reads, for any
number of ioctls at a time.  What a thread does is a program over the connection, the mutex
`vtest_mutex` and the globals `vtest_sock` and `vtest_protocol_version`; the BO table has a mutex of
its own, so what it tells of a handle is an argument here.

* `respondTo`, `vtestProtocol` — the requests and the server's answers;
* `vtestEnsureConnected`, `shimGetCaps`, `shimResourceCreate`, … — the programs;
* `vtestSystem` — all interleavings.
-/

namespace Wldroid.DrmShim.Vtest

open Wldroid.Foundation

/-! ### Commands -/

def vcmdGetCaps : ℕ := 1
def vcmdResourceUnref : ℕ := 3
def vcmdSubmitCmd : ℕ := 6
def vcmdResourceBusyWait : ℕ := 7
def vcmdCreateRenderer : ℕ := 8
def vcmdGetCaps2 : ℕ := 9
def vcmdPingProtocolVersion : ℕ := 10
def vcmdProtocolVersion : ℕ := 11
def vcmdResourceCreate2 : ℕ := 12
def vcmdTransferGet2 : ℕ := 13
def vcmdTransferPut2 : ℕ := 14

/-- How many bytes follow a header: its length is in words, but that of a name is in bytes. -/
def payloadBytes (len cmd : ℕ) : ℕ := if cmd = vcmdCreateRenderer then len else 4 * len

/-- A header of two words, length and command, with its payload. -/
def isCommand (bytes : List UInt8) : Bool :=
  8 ≤ bytes.length ∧ bytes.length = 8 + payloadBytes (wordAt bytes 0) (wordAt bytes 1)

theorem isCommand_apart {r r' : List UInt8} (hr : isCommand r) (hr' : isCommand r')
    (hbegins : r <+: r') : r = r' := by
  obtain ⟨rest, rfl⟩ := hbegins
  simp only [isCommand, decide_eq_true_eq] at hr hr'
  rw [wordAt_append (by omega), wordAt_append (by omega), List.length_append] at hr'
  have hnil : rest = [] := List.length_eq_zero_iff.mp (by omega)
  rw [hnil, List.append_nil]

/-! ### Answers -/

/-- What the server puts into an answer: the capability set, the handle or the busy flag, and the
byte that carries a descriptor. -/
structure ServerAnswer where
  capsetId : ℕ
  data : List UInt8
  /-- The header of a capability set counts one more than its bytes. -/
  fits : data.length + 1 < 2 ^ 32
  value : ℕ
  carrier : UInt8
  file : BackingFile

instance : Nonempty ServerAnswer := ⟨⟨0, [], by simp, 0, 0, ⟨⟨0, 0⟩, none, 0⟩⟩⟩

/-- Plain bytes of an answer. -/
def plainItems (bytes : List UInt8) : List (Item UInt8 BackingFile) := bytes.map Item.byte

/-- What the server answers to a command with this payload, once the protocol version is
negotiated. -/
def respondTo (version cmd : ℕ) (payload : List UInt8) (a : ServerAnswer) :
    List (Item UInt8 BackingFile) :=
  if cmd = vcmdGetCaps ∨ cmd = vcmdGetCaps2 then
    plainItems (words [a.data.length + 1, a.capsetId]) ++ plainItems a.data
  else if cmd = vcmdResourceBusyWait then
    plainItems (words [1, vcmdResourceBusyWait]) ++ plainItems (words [a.value])
  else if cmd = vcmdPingProtocolVersion then plainItems (words [0, vcmdPingProtocolVersion])
  else if cmd = vcmdProtocolVersion then
    plainItems (words [1, vcmdProtocolVersion]) ++ plainItems (words [version])
  else if cmd = vcmdResourceCreate2 then
    -- from version 3 on a header and the handle; a descriptor if there is data
    (if version ≥ 3 then
      plainItems (words [1, vcmdResourceCreate2]) ++ plainItems (words [a.value])
    else []) ++
      if wordAt payload 10 ≠ 0 then [Item.fd a.carrier a.file] else []
  else if cmd = vcmdTransferGet2 then
    -- pixels go over the socket only if their size is given
    if wordAt payload 8 ≠ 0 then plainItems a.data else []
  else []

/-- The vtest protocol with a server of some version. -/
def vtestProtocol (version : ℕ) : Protocol UInt8 BackingFile ServerAnswer where
  complete := isCommand
  respond bytes a := respondTo version (wordAt bytes 1) (bytes.drop 8) a
  complete_ne_nil bytes h := by
    rintro rfl
    simp [isCommand] at h
  frames_apart _ _ := isCommand_apart

/-! ### Programs -/

/-- `vtest_sock`, as far as it is set, and `vtest_protocol_version`. -/
structure VtestGlobals where
  sock : Bool
  protocolVersion : ℕ

/-- The socket is set once and for all. -/
instance : Preorder VtestGlobals := Preorder.lift VtestGlobals.sock

/-- What an ioctl hands back. -/
inductive Reply where
  | unit
  | caps (data : List UInt8)
  | resource (boHandle resHandle : ℕ) (shmFd : Option BackingFile)
  | descriptor (file : BackingFile)

/-- What an ioctl does, from some point on. -/
abbrev VtestProg := Prog VtestGlobals UInt8 BackingFile (Except Errno Reply)

/-- A header and its payload, two writes. -/
def vtestCommand (len cmd : ℕ) (payload : List UInt8) (next : VtestProg) : VtestProg :=
  .write (words [len, cmd]) (.write payload next)

/-- The name of the renderer, `drm-shim`. -/
def rendererName : List UInt8 := [0x64, 0x72, 0x6d, 0x2d, 0x73, 0x68, 0x69, 0x6d]

/-- `vtest_handshake`. -/
def vtestHandshake (next : ℕ → VtestProg) : VtestProg :=
  vtestCommand rendererName.length vcmdCreateRenderer rendererName <|
  .write (words [0, vcmdPingProtocolVersion]) <|
  .read 8 fun _ =>
  vtestCommand 1 vcmdProtocolVersion (words [3]) <|
  .read 8 fun _ =>
  .read 4 fun version => next (wordAt version 0)

/-- `vtest_ensure_connected`: checked, and checked again under the lock.  `connect` tells whether
`vtest_connect` succeeds. -/
def vtestEnsureConnected (connect : Bool) (next : Bool → VtestProg) : VtestProg :=
  .load fun g =>
  if g.sock then next true
  else .lock <| .load fun g =>
    if g.sock then .unlock (next true)
    else if connect then
      vtestHandshake fun version =>
        -- the version is an `int`, negative ones are errors
        if version ≥ 2 ^ 31 then .unlock (next false)
        else
          .store (fun g => { g with sock := true }) <|
          .store (fun g => { g with protocolVersion := version }) <|
          .unlock (next true)
    else .unlock (next false)

/-- The beginning of most ioctls: without a connection they fail. -/
def whenConnected (connect : Bool) (next : VtestProg) : VtestProg :=
  vtestEnsureConnected connect fun connected =>
    if connected then next else .done (.error .eio)

/-- The rest of a capability set for which there is no memory, in pieces of at most 256 bytes. -/
def discard (left : ℕ) (next : VtestProg) : VtestProg :=
  if left > 0 then
    let chunk := if left < 256 then left else 256
    .read chunk fun _ => discard (left - chunk) next
  else next
termination_by left
decreasing_by split <;> omega

/-- `shim_get_caps`; `malloc` tells whether it finds memory. -/
def shimGetCaps (connect malloc : Bool) (capSetId size : ℕ) : VtestProg :=
  whenConnected connect <|
  if capSetId = 1 ∨ capSetId = 2 then
    .lock <|
    .write (words [0, if capSetId = 1 then vcmdGetCaps else vcmdGetCaps2]) <|
    .read 8 fun header =>
      let dataBytes := wordAt header 0 - 1
      if dataBytes > 0 then
        if malloc then
          .read dataBytes fun tmp =>
            .unlock (.done (.ok (.caps (tmp.take (min size dataBytes)))))
        else discard dataBytes (.unlock (.done (.error .enomem)))
      else .unlock (.done (.ok (.caps [])))
  else .done (.error .einval)

/-- The end of `shim_resource_create`: the descriptor is received if data was asked for. -/
def receiveShmFd (rc : ResourceCreate) (handle res : ℕ) : VtestProg :=
  if rc.size > 0 then
    .recvFd fun
      | none => .unlock (.done (.error .eio))
      | some file => .unlock (.done (.ok (.resource handle res (some file))))
  else .unlock (.done (.ok (.resource handle res none)))

/-- `shim_resource_create`; `alloc` is what `bo_alloc` returns. -/
def shimResourceCreate (connect : Bool) (rc : ResourceCreate) (alloc : Option ℕ) : VtestProg :=
  whenConnected connect <|
  match alloc with
  | none => .done (.error .enomem)
  | some handle =>
      -- this look at the version is outside the lock
      .load fun g =>
      .lock <|
      vtestCommand 11 vcmdResourceCreate2 (words (rc.payload g.protocolVersion handle)) <|
      .load fun g =>
        if g.protocolVersion ≥ 3 then
          .read 8 fun _ => .read 4 fun res => receiveShmFd rc handle (wordAt res 0)
        else receiveShmFd rc handle handle

/-- `shim_execbuffer`; the command is padded with zeros to whole words. -/
def shimExecbuffer (connect : Bool) (size : ℕ) (cmd : ℕ → UInt8) : VtestProg :=
  whenConnected connect <|
    let sizeDwords := (size + 3) % 2 ^ 32 / 4
    let padded := (List.range (sizeDwords * 4)).map fun i => if i < size then cmd i else 0
    .lock <| vtestCommand sizeDwords vcmdSubmitCmd padded <| .unlock (.done (.ok .unit))

/-- `bo ? bo->res_handle : 0`. -/
def resHandleOf (bo : Option Bo) : ℕ := bo.elim 0 Bo.resHandle

/-- `shim_transfer_to_host` and `shim_transfer_from_host`. -/
def shimTransfer (cmd : ℕ) (connect : Bool) (t : Transfer) (bo : Option Bo) : VtestProg :=
  whenConnected connect <|
    if resHandleOf bo = 0 then .done (.error .enoent)
    else
      .lock <| vtestCommand 10 cmd (words (resHandleOf bo :: t.words)) <| .unlock (.done (.ok .unit))

/-- `shim_transfer_to_host`. -/
def shimTransferToHost : Bool → Transfer → Option Bo → VtestProg := shimTransfer vcmdTransferPut2

/-- `shim_transfer_from_host`. -/
def shimTransferFromHost : Bool → Transfer → Option Bo → VtestProg := shimTransfer vcmdTransferGet2

/-- `shim_wait`; `nowait` is `VIRTGPU_WAIT_NOWAIT` of its flags. -/
def shimWait (connect nowait : Bool) (bo : Option Bo) : VtestProg :=
  whenConnected connect <|
    if resHandleOf bo = 0 then .done (.error .enoent)
    else
      .lock <|
      vtestCommand 2 vcmdResourceBusyWait (words [resHandleOf bo, if nowait then 0 else 1]) <|
      .read 8 fun _ => .read 4 fun busy =>
      .unlock (.done (if wordAt busy 0 ≠ 0 ∧ nowait then .error .ebusy else .ok .unit))

/-- `vtest_busy_wait_for_resource`, under the lock. -/
def vtestBusyWaitForResource (res : ℕ) (next : VtestProg) : VtestProg :=
  .load fun g =>
  if !g.sock ∨ res = 0 then next
  else
    vtestCommand 2 vcmdResourceBusyWait (words [res, 1]) <|
    .read 8 fun _ => .read 4 fun _ => next

/-- `vtest_transfer_get_for_export`, under the lock. -/
def vtestTransferGetForExport (res width height : ℕ) (next : VtestProg) : VtestProg :=
  .load fun g =>
  if !g.sock ∨ res = 0 then next
  else vtestCommand 10 vcmdTransferGet2 (words [res, 0, 0, 0, 0, width, height, 1, 0, 0]) next

/-- `shim_prime_handle_to_fd`; `dup` tells whether the BO's descriptor could be duplicated,
`placeholder` is what `memfd_create` returns. -/
def shimPrimeHandleToFd (bo : Option Bo) (dup : Bool) (placeholder : Option BackingFile) :
    VtestProg :=
  match bo with
  | none => .done (.error .enoent)
  | some bo =>
      match bo.shmFd with
      | some file =>
          let result : VtestProg :=
            .unlock (.done (if dup then .ok (.descriptor file) else .error .other))
          if bo.isAhb then .lock (vtestBusyWaitForResource bo.resHandle result)
          else
            .lock <|
            vtestTransferGetForExport bo.resHandle bo.width bo.height <|
            vtestBusyWaitForResource bo.resHandle result
      | none => .done (placeholder.elim (.error .other) fun file => .ok (.descriptor file))

/-- `shim_gem_close`; closing an unknown handle is not an error. -/
def shimGemClose (bo : Option Bo) : VtestProg :=
  match bo with
  | none => .done (.ok .unit)
  | some bo =>
      if bo.resHandle ≠ 0 ∧ !bo.isAhb then
        .lock <| .load fun g =>
        if g.sock then
          vtestCommand 1 vcmdResourceUnref (words [bo.resHandle]) <| .unlock (.done (.ok .unit))
        else .unlock (.done (.ok .unit))
      else .done (.ok .unit)

/-! ### All interleavings -/

/-- The ioctls that use the connection, with their arguments and what the BO table and the system
contribute. -/
inductive VtestOp where
  | getCaps (connect malloc : Bool) (capSetId size : ℕ)
  | resourceCreate (connect : Bool) (rc : ResourceCreate) (alloc : Option ℕ)
      (fits : rc.size < 2 ^ 32)
  | execbuffer (connect : Bool) (size : ℕ) (cmd : ℕ → UInt8)
  | transferToHost (connect : Bool) (t : Transfer) (bo : Option Bo)
  | transferFromHost (connect : Bool) (t : Transfer) (bo : Option Bo)
  | wait (connect nowait : Bool) (bo : Option Bo)
  | primeHandleToFd (bo : Option Bo) (dup : Bool) (placeholder : Option BackingFile)
  | gemClose (bo : Option Bo)

/-- The program of an ioctl. -/
def VtestOp.program : VtestOp → VtestProg
  | .getCaps connect malloc capSetId size => shimGetCaps connect malloc capSetId size
  | .resourceCreate connect rc alloc _ => shimResourceCreate connect rc alloc
  | .execbuffer connect size cmd => shimExecbuffer connect size cmd
  | .transferToHost connect t bo => shimTransferToHost connect t bo
  | .transferFromHost connect t bo => shimTransferFromHost connect t bo
  | .wait connect nowait bo => shimWait connect nowait bo
  | .primeHandleToFd bo dup placeholder => shimPrimeHandleToFd bo dup placeholder
  | .gemClose bo => shimGemClose bo

/-- The shim before anything is connected. -/
def VtestGlobals.initial : VtestGlobals := ⟨false, 0⟩

/-- All interleavings of ioctls with a server that negotiates the version. -/
def vtestSystem (version : ℕ) :
    System (RpcState VtestGlobals UInt8 BackingFile (Except Errno Reply))
      (RpcEvent VtestOp ServerAnswer) :=
  rpcSystem (vtestProtocol version) VtestOp.program .initial

end Wldroid.DrmShim.Vtest
