import Wldroid.DrmShim.Vtest
import Wldroid.Foundation.Memory

/-!
# The padding of a command

`shim_execbuffer` sends a command in whole words.  The bytes that are missing to the last word are
set to zero first, behind the command in the memory of the caller; and the size is rounded up in 32
bits.

* `shimExecbuffer` — the ioctl over the caller's memory;
* `submitMessage` — the message for a command;
* `FramesCommand` — this message is sent, and the memory is as before;
* **`framesCommand_iff`** — so it is exactly if the size can be rounded up and what lies behind the
  command up to the next word is zero already;
* `command_of_one_byte` — a command of one byte clears three bytes of its caller.
-/

namespace Wldroid.DrmShim

open Wldroid.Foundation

/-! ### Code -/

/-- `struct drm_virtgpu_execbuffer`, its input. -/
structure Execbuffer where
  flags : UInt32
  size : UInt32
  /-- Where the command is. -/
  command : ℕ

/-- `VIRTGPU_EXECBUF_FENCE_FD_OUT`. -/
def virtgpuExecbufFenceFdOut : UInt32 := 0x02

/-- `size_dwords`. -/
def Execbuffer.sizeDwords (eb : Execbuffer) : UInt32 := (eb.size + 3) / 4

/-- `padded_size`. -/
def Execbuffer.paddedSize (eb : Execbuffer) : UInt32 := eb.sizeDwords * 4

/-- What the calls of an execbuffer come to. -/
structure ExecbufferCalls where
  connected : Bool
  headerWrite : Bool
  payloadWrite : Bool
  eventfd : ℤ

/-- The memory after an execbuffer, what it has written to the socket, and the fence it returns. -/
structure ExecbufferResult where
  memory : RawMemory UInt8
  sent : List UInt8
  result : Except Errno (Option ℤ)

/-- `shim_execbuffer`. -/
def shimExecbuffer (memory : RawMemory UInt8) (eb : Execbuffer) (calls : ExecbufferCalls) :
    ExecbufferResult :=
  if !calls.connected then ⟨memory, [], .error .eio⟩
  else
    let memory :=
      if eb.paddedSize > eb.size then
        memory.fill (eb.command + eb.size.toNat) (eb.paddedSize - eb.size).toNat 0
      else memory
    let hdr := words [eb.sizeDwords.toNat, Vtest.vcmdSubmitCmd]
    if !calls.headerWrite then ⟨memory, [], .error .eio⟩
    else if !calls.payloadWrite then ⟨memory, hdr, .error .eio⟩
    else
      ⟨memory, hdr ++ memory.read eb.command (eb.sizeDwords * 4).toNat,
        .ok (if eb.flags &&& virtgpuExecbufFenceFdOut ≠ 0 then some calls.eventfd else none)⟩

/-! ### The property -/

/-- The message for a command: its length in words, rounded up, and the command, with zeros to fill
the last word. -/
def submitMessage (memory : RawMemory UInt8) (command size : ℕ) : List UInt8 :=
  words [(size + 3) / 4, Vtest.vcmdSubmitCmd] ++
    (memory.read command size ++ List.replicate (4 * ((size + 3) / 4) - size) 0)

/-- An execbuffer that succeeds has sent the message for its command, and none changes the
memory. -/
structure FramesCommand (memory : RawMemory UInt8) (eb : Execbuffer) (r : ExecbufferResult) :
    Prop where
  message : ∀ fence, r.result = .ok fence →
    r.sent = submitMessage memory eb.command eb.size.toNat
  memory : r.memory = memory

/-- What lies behind the command up to the next word is zero. -/
def PaddingIsZero (memory : RawMemory UInt8) (eb : Execbuffer) : Prop :=
  ∀ i < 4 * ((eb.size.toNat + 3) / 4) - eb.size.toNat,
    memory (eb.command + eb.size.toNat + i) = 0

/-! ### Rounding -/

section Rounding

variable {eb : Execbuffer}

/-- Sizes that can be rounded up. -/
theorem sizeDwords_toNat (h : eb.size.toNat + 3 < 2 ^ 32) :
    eb.sizeDwords.toNat = (eb.size.toNat + 3) / 4 := by
  unfold Execbuffer.sizeDwords
  rw [UInt32.toNat_div, UInt32.toNat_add]
  show (eb.size.toNat + 3) % 2 ^ 32 / 4 = _
  rw [Nat.mod_eq_of_lt h]

theorem paddedSize_toNat (h : eb.size.toNat + 3 < 2 ^ 32) :
    eb.paddedSize.toNat = 4 * ((eb.size.toNat + 3) / 4) := by
  unfold Execbuffer.paddedSize
  rw [UInt32.toNat_mul, sizeDwords_toNat h]
  show (eb.size.toNat + 3) / 4 * 4 % 2 ^ 32 = _
  omega

/-- The last three sizes are rounded down to nothing. -/
theorem sizeDwords_eq_zero (h : ¬ eb.size.toNat + 3 < 2 ^ 32) : eb.sizeDwords = 0 := by
  have hlt := eb.size.toNat_lt
  apply UInt32.toNat_inj.mp
  unfold Execbuffer.sizeDwords
  rw [UInt32.toNat_div, UInt32.toNat_add]
  show (eb.size.toNat + 3) % 2 ^ 32 / 4 = 0
  omega

/-- The memory after the padding. -/
theorem padded_memory (memory : RawMemory UInt8) (h : eb.size.toNat + 3 < 2 ^ 32) :
    (if eb.paddedSize > eb.size then
        memory.fill (eb.command + eb.size.toNat) (eb.paddedSize - eb.size).toNat 0
      else memory) =
      memory.fill (eb.command + eb.size.toNat)
        (4 * ((eb.size.toNat + 3) / 4) - eb.size.toNat) 0 := by
  have hpadded := paddedSize_toNat h
  by_cases hmore : eb.paddedSize > eb.size
  · rw [if_pos hmore, UInt32.toNat_sub_of_le _ _ (UInt32.le_of_lt hmore), hpadded]
  · rw [if_neg hmore]
    have hle : eb.paddedSize.toNat ≤ eb.size.toNat := UInt32.not_lt.mp hmore
    symm
    rw [RawMemory.fill_eq_self_iff]
    intro i hi
    omega

theorem unpadded_memory (memory : RawMemory UInt8) (h : ¬ eb.size.toNat + 3 < 2 ^ 32) :
    (if eb.paddedSize > eb.size then
        memory.fill (eb.command + eb.size.toNat) (eb.paddedSize - eb.size).toNat 0
      else memory) = memory := by
  refine if_neg fun hmore => ?_
  unfold Execbuffer.paddedSize at hmore
  rw [sizeDwords_eq_zero h, UInt32.zero_mul] at hmore
  exact absurd hmore (UInt32.not_lt.mpr UInt32.zero_le)

/-! ### The message -/

/-- The padded command is the rest of its message. -/
theorem read_padded (memory : RawMemory UInt8) (h : eb.size.toNat + 3 < 2 ^ 32) :
    (memory.fill (eb.command + eb.size.toNat)
        (4 * ((eb.size.toNat + 3) / 4) - eb.size.toNat) 0).read eb.command
        (eb.sizeDwords * 4).toNat =
      memory.read eb.command eb.size.toNat ++
        List.replicate (4 * ((eb.size.toNat + 3) / 4) - eb.size.toNat) 0 := by
  have hlength : (eb.sizeDwords * 4).toNat =
      eb.size.toNat + (4 * ((eb.size.toNat + 3) / 4) - eb.size.toNat) := by
    have hpadded := paddedSize_toNat h
    unfold Execbuffer.paddedSize at hpadded
    omega
  rw [hlength, RawMemory.read_add, RawMemory.read_fill_before _ _ le_rfl, RawMemory.read_fill_self]

/-- A size that is rounded down to nothing is sent as such. -/
theorem read_unpadded (memory : RawMemory UInt8) (h : ¬ eb.size.toNat + 3 < 2 ^ 32) :
    memory.read eb.command (eb.sizeDwords * 4).toNat = [] := by
  rw [sizeDwords_eq_zero h, UInt32.zero_mul]
  rfl

theorem length_submitMessage (memory : RawMemory UInt8) (command size : ℕ) :
    (submitMessage memory command size).length = 8 + 4 * ((size + 3) / 4) := by
  unfold submitMessage
  simp only [List.length_append, length_words, List.length_cons, List.length_nil,
    RawMemory.length_read, List.length_replicate]
  omega

end Rounding

/-! ### The condition -/

section Condition

variable {memory : RawMemory UInt8} {eb : Execbuffer} {eventfd : ℤ}

/-- With a connection, the memory is as before exactly if the padding is zero already. -/
theorem shimExecbuffer_memory_iff {headerWrite payloadWrite : Bool} :
    (shimExecbuffer memory eb ⟨true, headerWrite, payloadWrite, eventfd⟩).memory = memory ↔
      (eb.size.toNat + 3 < 2 ^ 32 → PaddingIsZero memory eb) := by
  have hmemory : (shimExecbuffer memory eb ⟨true, headerWrite, payloadWrite, eventfd⟩).memory =
      if eb.paddedSize > eb.size then
        memory.fill (eb.command + eb.size.toNat) (eb.paddedSize - eb.size).toNat 0
      else memory := by
    cases headerWrite with
    | false => rfl
    | true => cases payloadWrite <;> rfl
  rw [hmemory]
  by_cases hfits : eb.size.toNat + 3 < 2 ^ 32
  · rw [padded_memory memory hfits, RawMemory.fill_eq_self_iff]
    exact ⟨fun h _ => h, fun h => h hfits⟩
  · rw [unpadded_memory memory hfits]
    exact ⟨fun _ h => absurd h hfits, fun _ => rfl⟩

/-- If all calls succeed, the message is the one for the command exactly if its size can be rounded
up. -/
theorem shimExecbuffer_sent_iff :
    (shimExecbuffer memory eb ⟨true, true, true, eventfd⟩).sent =
      submitMessage memory eb.command eb.size.toNat ↔ eb.size.toNat + 3 < 2 ^ 32 := by
  show words [eb.sizeDwords.toNat, Vtest.vcmdSubmitCmd] ++ RawMemory.read _ _ _ = _ ↔ _
  by_cases hfits : eb.size.toNat + 3 < 2 ^ 32
  · rw [padded_memory memory hfits, read_padded memory hfits, sizeDwords_toNat hfits]
    exact ⟨fun _ => hfits, fun _ => rfl⟩
  · rw [unpadded_memory memory hfits, read_unpadded memory hfits]
    -- only a header is sent, for a command of almost 2^32 bytes
    refine ⟨fun hsent => ?_, fun h => absurd h hfits⟩
    have hlength := congrArg List.length hsent
    rw [length_submitMessage, List.append_nil, length_words] at hlength
    simp only [List.length_cons, List.length_nil] at hlength
    omega

end Condition

/-- **Framing and frame.**  Whatever the command and its size and whichever of the calls fail, the
message of an execbuffer that succeeds is the one for its command and the memory is as before
exactly if there is no connection, or the size can be rounded up in 32 bits, where both writes
succeed, and what lies behind the command up to the next word is zero already, where the size can be
rounded up. -/
theorem framesCommand_iff (memory : RawMemory UInt8) (eb : Execbuffer) (calls : ExecbufferCalls) :
    FramesCommand memory eb (shimExecbuffer memory eb calls) ↔
      calls.connected = false ∨
        (calls.headerWrite = true ∧ calls.payloadWrite = true → eb.size.toNat + 3 < 2 ^ 32) ∧
          (eb.size.toNat + 3 < 2 ^ 32 → PaddingIsZero memory eb) := by
  obtain ⟨connected, headerWrite, payloadWrite, eventfd⟩ := calls
  cases connected with
  | false =>
    refine ⟨fun _ => .inl rfl, fun _ => ⟨fun fence hfence => ?_, rfl⟩⟩
    simp [shimExecbuffer] at hfence
  | true =>
    simp only [Bool.true_eq_false, false_or]
    have hmessage : (∀ fence,
        (shimExecbuffer memory eb ⟨true, headerWrite, payloadWrite, eventfd⟩).result = .ok fence →
        (shimExecbuffer memory eb ⟨true, headerWrite, payloadWrite, eventfd⟩).sent =
          submitMessage memory eb.command eb.size.toNat) ↔
        (headerWrite = true ∧ payloadWrite = true → eb.size.toNat + 3 < 2 ^ 32) := by
      cases headerWrite with
      | false => simp [shimExecbuffer]
      | true =>
        cases payloadWrite with
        | false => simp [shimExecbuffer]
        | true =>
          exact ⟨fun h _ => shimExecbuffer_sent_iff.mp (h _ rfl),
            fun h fence _ => shimExecbuffer_sent_iff.mpr (h ⟨rfl, rfl⟩)⟩
    exact ⟨fun h => ⟨hmessage.mp h.message, shimExecbuffer_memory_iff.mp h.memory⟩,
      fun h => ⟨hmessage.mpr h.1, shimExecbuffer_memory_iff.mpr h.2⟩⟩

/-- A command of one byte in memory that is 255 everywhere: the three bytes behind it are cleared.
And a command of 2^32 - 1 bytes is sent as a header without a command. -/
theorem command_of_one_byte :
    (shimExecbuffer (fun _ => 255) ⟨0, 1, 4096⟩ ⟨true, true, true, 5⟩).memory 4097 = 0 ∧
      ¬ FramesCommand (fun _ => 255) ⟨0, 1, 4096⟩
        (shimExecbuffer (fun _ => 255) ⟨0, 1, 4096⟩ ⟨true, true, true, 5⟩) ∧
      (shimExecbuffer (fun _ => 0) ⟨0, 0xffffffff, 4096⟩ ⟨true, true, true, 5⟩).sent =
        words [0, Vtest.vcmdSubmitCmd] ∧
      ¬ FramesCommand (fun _ => 0) ⟨0, 0xffffffff, 4096⟩
        (shimExecbuffer (fun _ => 0) ⟨0, 0xffffffff, 4096⟩ ⟨true, true, true, 5⟩) := by
  refine ⟨by decide, fun h => ?_, by decide, fun h => ?_⟩
  · have hcell := congrFun h.memory 4097
    exact absurd hcell (by decide)
  · have hfits := shimExecbuffer_sent_iff.mp (h.message _ rfl)
    exact absurd hfits (by decide)

end Wldroid.DrmShim
