import Wldroid.DrmShim.Vtest
import Wldroid.Foundation.LockedRpc

/-!
# The vtest stream stays in sync

Every ioctl keeps the discipline of a locked exchange: it sends whole commands and reads their
answers to the last byte and descriptor before it lets go of `vtest_mutex`.

* `speaks_command`, `speaks_header`, `speaks_read` — commands and answers;
* `speaks_whenConnected` — what an ioctl may rely on once it is connected;
* `VtestOp.speaks` — every ioctl keeps the discipline;
* `vtest_inSync` — no answer goes astray, in any interleaving.
-/

namespace Wldroid.DrmShim.Vtest

open Wldroid.Foundation

/-- What holds of the globals while nobody has the lock: not connected yet, or connected with the
negotiated version. -/
def Settled (version : ℕ) (g : VtestGlobals) : Prop := g.sock = true → g.protocolVersion = version

section Discipline

variable {version : ℕ}

/-! ### Commands -/

theorem wordAt_header {len cmd : ℕ} (payload : List UInt8) (hlen : len < 2 ^ 32)
    (hcmd : cmd < 2 ^ 32) :
    wordAt (words [len, cmd] ++ payload) 0 = len ∧ wordAt (words [len, cmd] ++ payload) 1 = cmd := by
  refine ⟨?_, ?_⟩
  · rw [wordAt_words [len, cmd] payload (n := len) rfl, Nat.mod_eq_of_lt hlen]
  · rw [wordAt_words [len, cmd] payload (n := cmd) rfl, Nat.mod_eq_of_lt hcmd]

theorem isCommand_header {len cmd : ℕ} {payload : List UInt8} (hlen : len < 2 ^ 32)
    (hcmd : cmd < 2 ^ 32) (hpayload : payload.length = payloadBytes len cmd) :
    isCommand (words [len, cmd] ++ payload) := by
  obtain ⟨hzero, hone⟩ := wordAt_header payload hlen hcmd
  simp only [isCommand, hzero, hone, decide_eq_true_eq, List.length_append, length_words,
    List.length_cons, List.length_nil]
  omega

theorem respond_command {len cmd : ℕ} (payload : List UInt8) (hlen : len < 2 ^ 32)
    (hcmd : cmd < 2 ^ 32) (a : ServerAnswer) :
    (vtestProtocol version).respond (words [len, cmd] ++ payload) a =
      respondTo version cmd payload a := by
  show respondTo version (wordAt _ 1) (List.drop 8 _) a = _
  rw [(wordAt_header payload hlen hcmd).2, List.drop_left' (by simp)]

/-- Whether a command is answered does not depend on what is in the answer. -/
def AnsweredAlike (version cmd : ℕ) (payload : List UInt8) : Prop :=
  (∀ a, respondTo version cmd payload a = []) ∨ ∀ a, respondTo version cmd payload a ≠ []

variable {x : VtestGlobals} {next : VtestProg}

/-- A command without a payload. -/
theorem speaks_header {cmd : ℕ} (hcmd : cmd < 2 ^ 32) (hnone : payloadBytes 0 cmd = 0)
    (halike : AnsweredAlike version cmd [])
    (hnext : ∀ a, Speaks (vtestProtocol version) (Settled version) next
      (.inside x [] (respondTo version cmd [] a))) :
    Speaks (vtestProtocol version) (Settled version) (.write (words [0, cmd]) next)
      (.inside x [] []) := by
  have hzero : (0 : ℕ) < 2 ^ 32 := by omega
  have hcommand : isCommand (words [0, cmd] ++ []) := isCommand_header hzero hcmd hnone.symm
  have hrespond : ∀ a, (vtestProtocol version).respond (words [0, cmd] ++ []) a =
      respondTo version cmd [] a := respond_command [] hzero hcmd
  refine ⟨rfl, .inr ?_⟩
  rw [List.nil_append, ← List.append_nil (words [0, cmd])]
  refine ⟨hcommand, ?_, fun a => ?_⟩
  · simp only [Protocol.Definite, hrespond]
    exact halike
  · rw [hrespond a]
    exact hnext a

/-- A command with a payload. -/
theorem speaks_command {len cmd : ℕ} {payload : List UInt8} (hlen : len < 2 ^ 32)
    (hcmd : cmd < 2 ^ 32) (hpayload : payload.length = payloadBytes len cmd) (hnil : payload ≠ [])
    (halike : AnsweredAlike version cmd payload)
    (hnext : ∀ a, Speaks (vtestProtocol version) (Settled version) next
      (.inside x [] (respondTo version cmd payload a))) :
    Speaks (vtestProtocol version) (Settled version) (vtestCommand len cmd payload next)
      (.inside x [] []) := by
  have hcommand : isCommand (words [len, cmd] ++ payload) := isCommand_header hlen hcmd hpayload
  have hrespond : ∀ a, (vtestProtocol version).respond (words [len, cmd] ++ payload) a =
      respondTo version cmd payload a := respond_command payload hlen hcmd
  refine ⟨rfl, ?_⟩
  rw [List.nil_append]
  refine .inl ⟨Protocol.partial_of_complete hcommand hnil, rfl, .inr ⟨hcommand, ?_, fun a => ?_⟩⟩
  · simp only [Protocol.Definite, hrespond]
    exact halike
  · rw [hrespond a]
    exact hnext a

/-! ### Answers -/

/-- Plain bytes are read. -/
theorem speaks_read {bytes : List UInt8} {count : ℕ} {rest : List (Item UInt8 BackingFile)}
    {next : List UInt8 → VtestProg} (hcount : bytes.length = count)
    (hnext : Speaks (vtestProtocol version) (Settled version) (next bytes) (.inside x [] rest)) :
    Speaks (vtestProtocol version) (Settled version) (.read count next)
      (.inside x [] (plainItems bytes ++ rest)) :=
  ⟨rfl, bytes, rest, rfl, hcount, hnext⟩

/-- The last plain bytes are read. -/
theorem speaks_read_last {bytes : List UInt8} {count : ℕ} {next : List UInt8 → VtestProg}
    (hcount : bytes.length = count)
    (hnext : Speaks (vtestProtocol version) (Settled version) (next bytes) (.inside x [] [])) :
    Speaks (vtestProtocol version) (Settled version) (.read count next)
      (.inside x [] (plainItems bytes)) := by
  rw [← List.append_nil (plainItems bytes)]
  exact speaks_read hcount hnext

theorem plainItems_words_ne_nil (n : ℕ) (ns : List ℕ) : plainItems (words (n :: ns)) ≠ [] := by
  simp [plainItems, le32]

theorem answer_ne_nil (n : ℕ) (ns : List ℕ) (rest : List (Item UInt8 BackingFile)) :
    plainItems (words (n :: ns)) ++ rest ≠ [] :=
  List.append_ne_nil_of_left_ne_nil (plainItems_words_ne_nil n ns) rest

/-- A wait for a resource, in the lock. -/
theorem speaks_busyWait {res flags : ℕ} {next : List UInt8 → VtestProg}
    (hnext : ∀ busy, Speaks (vtestProtocol version) (Settled version) (next busy)
      (.inside x [] [])) :
    Speaks (vtestProtocol version) (Settled version)
      (vtestCommand 2 vcmdResourceBusyWait (words [res, flags]) <| .read 8 fun _ => .read 4 next)
      (.inside x [] []) := by
  refine speaks_command (by decide) (by decide) rfl (List.cons_ne_nil _ _)
    (.inr fun a => answer_ne_nil _ _ _) fun a => ?_
  exact speaks_read rfl (speaks_read_last rfl (hnext _))

/-- A command without an answer, in the lock. -/
theorem speaks_silent {len cmd : ℕ} {payload : List UInt8} (hlen : len < 2 ^ 32)
    (hcmd : cmd < 2 ^ 32) (hpayload : payload.length = payloadBytes len cmd)
    (hsilent : ∀ a, respondTo version cmd payload a = [])
    (hnext : Speaks (vtestProtocol version) (Settled version) next (.inside x [] [])) :
    Speaks (vtestProtocol version) (Settled version) (vtestCommand len cmd payload next)
      (.inside x [] []) := by
  by_cases hnil : payload = []
  · -- the header is the whole command, and the second write writes nothing
    subst hnil
    have hlen : len = 0 := by
      unfold payloadBytes at hpayload
      split at hpayload
      · exact hpayload.symm
      · rw [List.length_nil] at hpayload
        omega
    subst hlen
    refine speaks_header hcmd hpayload.symm (.inl hsilent) fun a => ?_
    rw [hsilent a]
    exact ⟨rfl, .inl ⟨Protocol.partial_nil, hnext⟩⟩
  · refine speaks_command hlen hcmd hpayload hnil (.inl hsilent) fun a => ?_
    rw [hsilent a]
    exact hnext

/-! ### Connecting -/

theorem sock_mono {g g' : VtestGlobals} (hle : g ≤ g') (h : g.sock = true) : g'.sock = true :=
  hle h

/-- The handshake negotiates the server's version. -/
theorem speaks_handshake (hversion : version < 2 ^ 32) {next : ℕ → VtestProg}
    (hnext : Speaks (vtestProtocol version) (Settled version) (next version) (.inside x [] [])) :
    Speaks (vtestProtocol version) (Settled version) (vtestHandshake next) (.inside x [] []) := by
  refine speaks_silent (by decide) (by decide) rfl (fun a => rfl) ?_
  refine speaks_header (by decide) rfl
    (.inr fun a => plainItems_words_ne_nil _ _) fun a => ?_
  refine speaks_read_last rfl ?_
  refine speaks_command (by decide) (by decide) rfl (List.cons_ne_nil _ _)
    (.inr fun a => answer_ne_nil _ _ _) fun a => ?_
  refine speaks_read rfl (speaks_read_last rfl ?_)
  have hword : wordAt (words [version]) 0 = version := by
    rw [← List.append_nil (words [version]), wordAt_words [version] [] (n := version) rfl,
      Nat.mod_eq_of_lt hversion]
  rwa [hword]

/-- Once it has returned success, `vtest_ensure_connected` has set the socket. -/
theorem speaks_ensureConnected (hversion : version < 2 ^ 31) {connect : Bool}
    {next : Bool → VtestProg}
    (hyes : ∀ g, g.sock = true →
      Speaks (vtestProtocol version) (Settled version) (next true) (.outside g))
    (hno : ∀ g, Speaks (vtestProtocol version) (Settled version) (next false) (.outside g))
    (known : VtestGlobals) :
    Speaks (vtestProtocol version) (Settled version) (vtestEnsureConnected connect next)
      (.outside known) := by
  intro g _
  show Speaks _ _ (if g.sock then _ else _) _
  split
  · rename_i hsock
    exact hyes g hsock
  intro g _ hsettled
  show Speaks _ _ (if g.sock then _ else _) _
  split
  · rename_i hsock
    exact ⟨rfl, rfl, hsettled, hyes g hsock⟩
  split
  · refine speaks_handshake (by omega) ?_
    rw [if_neg (by omega)]
    refine ⟨fun _ => rfl, fun _ => rfl, rfl, rfl, fun _ => rfl, hyes _ rfl⟩
  · exact ⟨rfl, rfl, hsettled, hno g⟩

/-- An ioctl goes on only with the socket set. -/
theorem speaks_whenConnected (hversion : version < 2 ^ 31) {connect : Bool}
    (hnext : ∀ g, g.sock = true → Speaks (vtestProtocol version) (Settled version) next (.outside g))
    (known : VtestGlobals) :
    Speaks (vtestProtocol version) (Settled version) (whenConnected connect next)
      (.outside known) := by
  unfold whenConnected
  refine speaks_ensureConnected hversion ?_ ?_ known
  · exact hnext
  · exact fun _ => trivial

/-- An ioctl takes the lock: it finds the socket set and the version negotiated. -/
theorem speaks_lock {known : VtestGlobals} (hknown : known.sock = true)
    (hnext : ∀ g, g.sock = true → g.protocolVersion = version →
      Speaks (vtestProtocol version) (Settled version) next (.inside g [] [])) :
    Speaks (vtestProtocol version) (Settled version) (.lock next) (.outside known) :=
  fun g hle hsettled => hnext g (sock_mono hle hknown) (hsettled (sock_mono hle hknown))

/-- An ioctl lets go of the lock and returns. -/
theorem speaks_return {g : VtestGlobals} (hversion : g.sock = true → g.protocolVersion = version)
    (result : Except Errno Reply) :
    Speaks (vtestProtocol version) (Settled version) (.unlock (.done result)) (.inside g [] []) :=
  ⟨rfl, rfl, hversion, trivial⟩

/-! ### The ioctls -/

/-- What there is no memory for is read all the same. -/
theorem speaks_discard (left : ℕ) (bytes : List UInt8) (hleft : bytes.length = left)
    (hnext : Speaks (vtestProtocol version) (Settled version) next (.inside x [] [])) :
    Speaks (vtestProtocol version) (Settled version) (discard left next)
      (.inside x [] (plainItems bytes)) := by
  induction left using Nat.strong_induction_on generalizing bytes with
  | _ left ih =>
    rw [discard]
    split
    · rename_i hpos
      generalize hchunk : (if left < 256 then left else 256) = chunk
      have hle : chunk ≤ left ∧ 0 < chunk := by
        split at hchunk <;> omega
      have hsplit : plainItems bytes =
          plainItems (bytes.take chunk) ++ plainItems (bytes.drop chunk) := by
        rw [plainItems, plainItems, plainItems, ← List.map_append, List.take_append_drop]
      rw [hsplit]
      refine speaks_read (by rw [List.length_take]; omega) ?_
      exact ih (left - chunk) (by omega) (bytes.drop chunk) (by rw [List.length_drop]; omega)
    · rename_i hzero
      obtain rfl : bytes = [] := List.length_eq_zero_iff.mp (by omega)
      exact hnext

theorem speaks_getCaps (hversion : version < 2 ^ 31) (connect malloc : Bool)
    (capSetId size : ℕ) (known : VtestGlobals) :
    Speaks (vtestProtocol version) (Settled version) (shimGetCaps connect malloc capSetId size)
      (.outside known) := by
  refine speaks_whenConnected hversion (fun g hsock => ?_) known
  split
  swap
  · trivial
  refine speaks_lock hsock fun g _ hg => ?_
  have hcmd : ∀ a, respondTo version (if capSetId = 1 then vcmdGetCaps else vcmdGetCaps2) [] a =
      plainItems (words [a.data.length + 1, a.capsetId]) ++ plainItems a.data := by
    intro a
    split <;> rfl
  refine speaks_header (by split <;> decide) (by split <;> rfl)
    (.inr fun a => by rw [hcmd a]; exact answer_ne_nil _ _ _) fun a => ?_
  rw [hcmd a]
  refine speaks_read rfl ?_
  have hfits := a.fits
  have hword : wordAt (words [a.data.length + 1, a.capsetId]) 0 - 1 = a.data.length := by
    rw [← List.append_nil (words _), wordAt_words _ [] (n := a.data.length + 1) rfl,
      Nat.mod_eq_of_lt hfits, Nat.add_sub_cancel]
  simp only [hword]
  split
  · split
    · exact speaks_read_last rfl (speaks_return (fun _ => hg) _)
    · exact speaks_discard _ _ rfl (speaks_return (fun _ => hg) _)
  · rename_i hempty
    obtain hnil : a.data = [] := List.length_eq_zero_iff.mp (by omega)
    rw [hnil]
    exact speaks_return (fun _ => hg) _

theorem respondTo_resourceCreate2 (version : ℕ) (payload : List UInt8) (a : ServerAnswer) :
    respondTo version vcmdResourceCreate2 payload a =
      (if version ≥ 3 then
        plainItems (words [1, vcmdResourceCreate2]) ++ plainItems (words [a.value])
      else []) ++ if wordAt payload 10 ≠ 0 then [Item.fd a.carrier a.file] else [] :=
  rfl

/-- The descriptor comes just when it is received. -/
theorem speaks_receiveShmFd (hversion : x.sock = true → x.protocolVersion = version)
    (rc : ResourceCreate) (handle res : ℕ) (a : ServerAnswer) {payload : List UInt8}
    (hdata : wordAt payload 10 ≠ 0 ↔ rc.size > 0) :
    Speaks (vtestProtocol version) (Settled version) (receiveShmFd rc handle res)
      (.inside x [] (if wordAt payload 10 ≠ 0 then [Item.fd a.carrier a.file] else [])) := by
  unfold receiveShmFd
  by_cases hsize : rc.size > 0
  · rw [if_pos hsize, if_pos (hdata.mpr hsize)]
    exact ⟨rfl, a.carrier, a.file, [], rfl, speaks_return hversion _⟩
  · rw [if_neg hsize, if_neg fun h => hsize (hdata.mp h)]
    exact speaks_return hversion _

/-- The answer to a creation is there exactly as the ioctl reads it. -/
theorem speaks_resourceCreate (hversion : version < 2 ^ 31) (connect : Bool) (rc : ResourceCreate)
    (hfits : rc.size < 2 ^ 32) (alloc : Option ℕ) (known : VtestGlobals) :
    Speaks (vtestProtocol version) (Settled version) (shimResourceCreate connect rc alloc)
      (.outside known) := by
  refine speaks_whenConnected hversion (fun g hsock => ?_) known
  cases alloc with
  | none => trivial
  | some handle =>
    intro early hle
    refine speaks_lock (sock_mono hle hsock) fun g _ hg => ?_
    -- the size sent is zero just when none is asked for
    have hdata : wordAt (words (rc.payload early.protocolVersion handle)) 10 ≠ 0 ↔ rc.size > 0 := by
      rw [← List.append_nil (words _),
        wordAt_words (rc.payload early.protocolVersion handle) [] (n := rc.dataSize) rfl]
      simp only [ResourceCreate.dataSize]
      split <;> omega
    have hanswer := fun a => respondTo_resourceCreate2 version
      (words (rc.payload early.protocolVersion handle)) a
    have hreceive := fun res a => speaks_receiveShmFd (x := g) (fun _ => hg) rc handle res a hdata
    refine speaks_command (by decide) (by decide) rfl (List.cons_ne_nil _ _) ?_ fun a => ?_
    · by_cases hthree : version ≥ 3
      · refine .inr fun a => ?_
        rw [hanswer a, if_pos hthree, List.append_assoc]
        exact answer_ne_nil _ _ _
      · by_cases hsize : rc.size > 0
        · refine .inr fun a => ?_
          rw [hanswer a, if_neg hthree, if_pos (hdata.mpr hsize)]
          exact List.cons_ne_nil _ _
        · refine .inl fun a => ?_
          rw [hanswer a, if_neg hthree, if_neg fun h => hsize (hdata.mp h)]
          rfl
    · rw [hanswer a]
      show Speaks _ _ (if g.protocolVersion ≥ 3 then _ else _) _
      rw [hg]
      split
      · rw [List.append_assoc]
        exact speaks_read rfl (speaks_read rfl (hreceive _ a))
      · exact hreceive _ a

theorem speaks_execbuffer (hversion : version < 2 ^ 31) (connect : Bool) (size : ℕ)
    (cmd : ℕ → UInt8) (known : VtestGlobals) :
    Speaks (vtestProtocol version) (Settled version) (shimExecbuffer connect size cmd)
      (.outside known) := by
  refine speaks_whenConnected hversion (fun g hsock => speaks_lock hsock fun g _ hg => ?_) known
  refine speaks_silent (by omega) (by decide) ?_ (fun a => rfl) (speaks_return (fun _ => hg) _)
  rw [List.length_map, List.length_range, payloadBytes, if_neg (by decide), Nat.mul_comm]

/-- A transfer through shared memory has no answer. -/
theorem speaks_transfer (hversion : version < 2 ^ 31) (connect : Bool) (t : Transfer)
    (bo : Option Bo) (known : VtestGlobals) {cmd : ℕ}
    (hcmd : cmd = vcmdTransferPut2 ∨ cmd = vcmdTransferGet2) :
    Speaks (vtestProtocol version) (Settled version) (shimTransfer cmd connect t bo)
      (.outside known) := by
  refine speaks_whenConnected hversion (fun g hsock => ?_) known
  split
  · trivial
  refine speaks_lock hsock fun g _ hg => ?_
  have hzero : wordAt (words (resHandleOf bo :: t.words)) 8 = 0 := by
    rw [← List.append_nil (words _), wordAt_words _ [] (n := 0) rfl, Nat.zero_mod]
  rcases hcmd with rfl | rfl
  · exact speaks_silent (by decide) (by decide) rfl (fun a => rfl) (speaks_return (fun _ => hg) _)
  · refine speaks_silent (by decide) (by decide) rfl (fun a => ?_) (speaks_return (fun _ => hg) _)
    show (if wordAt (words (resHandleOf bo :: t.words)) 8 ≠ 0 then plainItems a.data else []) = []
    rw [if_neg (not_not.mpr hzero)]

theorem speaks_wait (hversion : version < 2 ^ 31) (connect nowait : Bool) (bo : Option Bo)
    (known : VtestGlobals) :
    Speaks (vtestProtocol version) (Settled version) (shimWait connect nowait bo)
      (.outside known) := by
  refine speaks_whenConnected hversion (fun g hsock => ?_) known
  split
  · trivial
  refine speaks_lock hsock fun g _ hg => ?_
  exact speaks_busyWait fun busy => speaks_return (fun _ => hg) _

/-- Waiting for a resource keeps the exchange settled, whether or not it is skipped. -/
theorem speaks_busyWaitForResource {res : ℕ}
    (hnext : Speaks (vtestProtocol version) (Settled version) next (.inside x [] [])) :
    Speaks (vtestProtocol version) (Settled version) (vtestBusyWaitForResource res next)
      (.inside x [] []) := by
  show Speaks _ _ (if !x.sock ∨ res = 0 then _ else _) _
  split
  · exact hnext
  · exact speaks_busyWait fun _ => hnext

theorem speaks_transferGetForExport {res width height : ℕ}
    (hnext : Speaks (vtestProtocol version) (Settled version) next (.inside x [] [])) :
    Speaks (vtestProtocol version) (Settled version)
      (vtestTransferGetForExport res width height next) (.inside x [] []) := by
  show Speaks _ _ (if !x.sock ∨ res = 0 then _ else _) _
  split
  · exact hnext
  · refine speaks_silent (by decide) (by decide) rfl (fun a => ?_) hnext
    show (if wordAt (words [res, 0, 0, 0, 0, width, height, 1, 0, 0]) 8 ≠ 0 then plainItems a.data
      else []) = []
    rw [if_neg]
    rw [← List.append_nil (words _), wordAt_words _ [] (n := 0) rfl]
    decide

/-- Exports do not connect: they find the socket set or skip the exchange. -/
theorem speaks_primeHandleToFd (bo : Option Bo) (dup : Bool) (placeholder : Option BackingFile)
    (known : VtestGlobals) :
    Speaks (vtestProtocol version) (Settled version) (shimPrimeHandleToFd bo dup placeholder)
      (.outside known) := by
  cases bo with
  | none => trivial
  | some bo =>
    simp only [shimPrimeHandleToFd]
    split
    · split
      · intro g _ hsettled
        exact speaks_busyWaitForResource (speaks_return hsettled _)
      · intro g _ hsettled
        exact speaks_transferGetForExport (speaks_busyWaitForResource (speaks_return hsettled _))
    · trivial

theorem speaks_gemClose (bo : Option Bo) (known : VtestGlobals) :
    Speaks (vtestProtocol version) (Settled version) (shimGemClose bo) (.outside known) := by
  cases bo with
  | none => trivial
  | some bo =>
    unfold shimGemClose
    simp only
    split
    · intro g _ hsettled
      show Speaks _ _ (if g.sock then _ else _) _
      split
      · exact speaks_silent (by decide) (by decide) rfl (fun a => rfl) (speaks_return hsettled _)
      · exact speaks_return hsettled _
    · trivial

/-- **Every ioctl keeps the discipline.** -/
theorem VtestOp.speaks (hversion : version < 2 ^ 31) (op : VtestOp) (known : VtestGlobals) :
    Speaks (vtestProtocol version) (Settled version) op.program (.outside known) := by
  cases op with
  | getCaps connect malloc capSetId size =>
    exact speaks_getCaps hversion connect malloc capSetId size known
  | resourceCreate connect rc alloc fits =>
    exact speaks_resourceCreate hversion connect rc fits alloc known
  | execbuffer connect size cmd => exact speaks_execbuffer hversion connect size cmd known
  | transferToHost connect t bo => exact speaks_transfer hversion connect t bo known (.inl rfl)
  | transferFromHost connect t bo => exact speaks_transfer hversion connect t bo known (.inr rfl)
  | wait connect nowait bo => exact speaks_wait hversion connect nowait bo known
  | primeHandleToFd bo dup placeholder => exact speaks_primeHandleToFd bo dup placeholder known
  | gemClose bo => exact speaks_gemClose bo known

end Discipline

/-! ### All interleavings -/

/-- **The vtest stream stays in sync.**  In every interleaving of ioctls with a server that has
negotiated version 2 or later, every ioctl reads exactly the answers to the commands it has sent
itself, descriptors included, and when no ioctl is in progress nothing is left unread. -/
theorem vtest_inSync {version : ℕ} (_ : 2 ≤ version) (hversion : version < 2 ^ 31)
    {s : RpcState VtestGlobals UInt8 BackingFile (Except Errno Reply)}
    (h : (vtestSystem version).Reachable s) : InSync (vtestProtocol version) s :=
  inSync_of_reachable (VtestOp.speaks hversion) (fun hsock => by cases hsock) h

/-- Two ioctls at a time: while a wait connects, asks and reads, a close waits for the lock. -/
def waitAndClose : List (RpcEvent VtestOp ServerAnswer) :=
  let bo : Bo := { Bo.zero with boHandle := 1, resHandle := 5 }
  let busy : ServerAnswer := ⟨1, [], by decide, 1, 0, ⟨⟨0, 0⟩, none, 0⟩⟩
  [.start 0 (.wait true true (some bo)), .start 1 (.gemClose (some bo)), .run 0 0, .run 0 0,
    -- the handshake, with partial writes and reads
    .run 0 0, .run 0 5, .run 0 3, .run 0 8, .serve 16 busy, .run 0 8, .serve 8 busy, .run 0 7,
    .run 0 1, .run 0 8, .run 0 4, .serve 12 busy, .run 0 8, .run 0 4, .run 0 0, .run 0 0, .run 0 0,
    -- the wait
    .run 0 0, .run 0 8, .run 0 8, .serve 16 busy, .run 0 8, .run 0 4, .run 0 0,
    -- the close
    .run 1 0, .run 1 0, .run 1 8]

/-- Where they lead. -/
def waitedAndClosing : RpcState VtestGlobals UInt8 BackingFile (Except Errno Reply) :=
  (runNext (RpcState.next (vtestProtocol 3) VtestOp.program) (.fresh .initial)
    waitAndClose).getD (.fresh .initial)

theorem runNext_waitAndClose :
    runNext (RpcState.next (vtestProtocol 3) VtestOp.program) (.fresh .initial) waitAndClose =
      some waitedAndClosing := rfl

theorem vtest_inSync_on_waitAndClose :
    waitedAndClosing.calls 0 = some (.done (.error .ebusy)) ∧
      InSync (vtestProtocol 3) waitedAndClosing :=
  ⟨rfl, vtest_inSync (by decide) (by decide)
    (System.reachable_runNext (.start rfl) runNext_waitAndClose)⟩

end Wldroid.DrmShim.Vtest
