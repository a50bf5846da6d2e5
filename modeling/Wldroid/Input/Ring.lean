import Wldroid.Foundation.Transition
import Wldroid.Foundation.Pipe
import Wldroid.Foundation.Circular

/-!
# The input ring: JNI thread to compositor thread

One producer (the JNI thread) puts input events into a ring of 256 slots and writes a byte to a
pipe; one consumer (the event-loop callback `on_input_event`) drains the pipe, then dispatches
events until the ring is empty.  The two sides run in any interleaving of their atomic steps:

* producer — load the indices and reserve a slot (or drop the event), fill the slot, publish the
  head, write the wake byte;
* consumer — enter the callback, `read` until `EAGAIN`, then peek, dispatch, consume, … until the
  peek finds the ring empty.

`RingInv` relates the indices, the slots, the pipe and both program counters to the ghost history
of accepted events; `ringGuarantee_of_reachable` is what a user of the ring may rely on.
-/

namespace Wldroid.Input

open Wldroid.Foundation

/-- `INPUT_RING_SIZE`. -/
def inputRingSize : ℕ := 256

/-- `INPUT_RING_MASK`. -/
def inputRingMask : ℕ := inputRingSize - 1

/-- The size of the buffer `on_input_event` drains the pipe with. -/
def drainBufSize : ℕ := 64

/-- Masking an index is taking it modulo the ring size. -/
theorem and_inputRingMask (i : ℕ) : i &&& inputRingMask = i % inputRingSize :=
  Nat.and_two_pow_sub_one_eq_mod i 8

/-! ### The ring and its two threads -/

/-- Where the producer is in an `input_handler_send_*` call. -/
inductive ProducerPc (ev : Type) where
  | idle
  /-- `ring_reserve` returned this slot; the event is not yet written. -/
  | reserved (slot : ℕ) (e : ev)
  /-- The slot is filled, `ring_commit` is next. -/
  | filled
  /-- The head is published, `wake_compositor` is next. -/
  | published

/-- Where the consumer is in `on_input_event`. -/
inductive ConsumerPc where
  | idle
  | draining
  | peeking
  /-- `ring_peek` returned this slot. -/
  | dispatching (slot : ℕ)
  /-- The event is dispatched, `ring_consume` is next. -/
  | consuming

/-- The ring's globals, the pipe, both program counters; then the ghost history. -/
structure RingState (ev : Type) where
  ring : ℕ → ev
  ringHead : ℕ
  ringTail : ℕ
  pipe : Pipe Char
  producer : ProducerPc ev
  consumer : ConsumerPc
  /-- Ghost: the events for which a slot was reserved. -/
  accepted : List ev
  /-- Ghost: the events handed to a `dispatch_*` function. -/
  dispatched : List ev
  /-- Ghost: how many times the head was published and the tail advanced. -/
  published : ℕ
  consumed : ℕ

variable {ev : Type}

/-- `ring_reserve`: the slot to fill, or nothing when the ring is full. -/
def ringReserve (s : RingState ev) : Option ℕ :=
  if (s.ringHead + 1) &&& inputRingMask = s.ringTail &&& inputRingMask then none
  else some (s.ringHead &&& inputRingMask)

/-- `ring_commit`. -/
def ringCommit (s : RingState ev) : RingState ev :=
  { s with ringHead := (s.ringHead + 1) &&& inputRingMask, published := s.published + 1 }

/-- `ring_peek`: the slot to dispatch, or nothing when the ring is empty. -/
def ringPeek (s : RingState ev) : Option ℕ :=
  if s.ringTail = s.ringHead then none else some (s.ringTail &&& inputRingMask)

/-- `ring_consume`. -/
def ringConsume (s : RingState ev) : RingState ev :=
  { s with ringTail := (s.ringTail + 1) &&& inputRingMask, consumed := s.consumed + 1 }

/-- `wake_compositor`: the result of the write is ignored. -/
def wakeCompositor (s : RingState ev) : RingState ev :=
  { s with pipe := s.pipe.write 'i' }

/-- The atomic steps of both threads. -/
inductive RingStep (ev : Type) where
  | reserve (e : ev)
  | fill
  | commit
  | wake
  | callback
  | drain
  | peek
  | dispatch
  | consume

/-- The state after a step, when the thread that takes it is at that step. -/
def RingState.next (s : RingState ev) : RingStep ev → Option (RingState ev)
  | .reserve e =>
      match s.producer with
      | .idle =>
          match ringReserve s with
          | none => some s
          | some slot =>
              some { s with producer := .reserved slot e, accepted := s.accepted ++ [e] }
      | _ => none
  | .fill =>
      match s.producer with
      | .reserved slot e => some { s with ring := setSlot s.ring slot e, producer := .filled }
      | _ => none
  | .commit =>
      match s.producer with
      | .filled => some { ringCommit s with producer := .published }
      | _ => none
  | .wake =>
      match s.producer with
      | .published => some { wakeCompositor s with producer := .idle }
      | _ => none
  | .callback =>
      match s.consumer with
      | .idle => some { s with consumer := .draining }
      | _ => none
  | .drain =>
      match s.consumer with
      | .draining =>
          -- no bytes is `EAGAIN`, which ends the loop
          if (s.pipe.read drainBufSize).1 = [] then some { s with consumer := .peeking }
          else some { s with pipe := (s.pipe.read drainBufSize).2 }
      | _ => none
  | .peek =>
      match s.consumer with
      | .peeking =>
          match ringPeek s with
          | none => some { s with consumer := .idle }
          | some slot => some { s with consumer := .dispatching slot }
      | _ => none
  | .dispatch =>
      match s.consumer with
      | .dispatching slot =>
          some { s with consumer := .consuming, dispatched := s.dispatched ++ [s.ring slot] }
      | _ => none
  | .consume =>
      match s.consumer with
      | .consuming => some { ringConsume s with consumer := .peeking }
      | _ => none

/-- `input_handler_init` has run: both indices zero, the pipe empty, nobody inside a call. -/
def RingState.Initial (s : RingState ev) : Prop :=
  s.ringHead = 0 ∧ s.ringTail = 0 ∧ s.pipe.unread = [] ∧ s.producer = .idle ∧ s.consumer = .idle ∧
    s.accepted = [] ∧ s.dispatched = [] ∧ s.published = 0 ∧ s.consumed = 0

/-- All interleavings of the producer's and the consumer's steps. -/
def ringSystem (ev : Type) : System (RingState ev) (RingStep ev) :=
  System.ofNext RingState.Initial RingState.next

/-! ### The invariant -/

/-- What the producer's program counter says about the ring. -/
def ProducerOk (s : RingState ev) : Prop :=
  match s.producer with
  | .idle | .published => s.accepted.length = s.published
  | .reserved slot e =>
      slot = s.published % inputRingSize ∧ s.published < s.consumed + inputRingMask ∧
        s.accepted.length = s.published + 1 ∧ s.accepted[s.published]? = some e
  | .filled =>
      s.published < s.consumed + inputRingMask ∧ s.accepted.length = s.published + 1 ∧
        s.accepted[s.published]? = some (s.ring (s.published % inputRingSize))

/-- What the consumer's program counter says about the ring. -/
def ConsumerOk (s : RingState ev) : Prop :=
  match s.consumer with
  | .idle | .draining | .peeking => s.dispatched = s.accepted.take s.consumed
  | .dispatching slot =>
      slot = s.consumed % inputRingSize ∧ s.consumed < s.published ∧
        s.dispatched = s.accepted.take s.consumed
  | .consuming => s.consumed < s.published ∧ s.dispatched = s.accepted.take (s.consumed + 1)

/-- An idle consumer with a non-empty ring has a byte to read, or the producer is about to write
one. -/
def WakeOk (s : RingState ev) : Prop :=
  match s.consumer, s.producer with
  | .idle, .published => True
  | .idle, _ => s.published ≠ s.consumed → s.pipe.unread ≠ []
  | _, _ => True

/-- The invariant of the ring under every interleaving. -/
structure RingInv (s : RingState ev) : Prop where
  head_eq : s.ringHead = s.published % inputRingSize
  tail_eq : s.ringTail = s.consumed % inputRingSize
  consumed_le : s.consumed ≤ s.published
  published_le : s.published ≤ s.consumed + inputRingMask
  holds : Holds inputRingSize s.ring s.accepted s.consumed s.published
  producer_ok : ProducerOk s
  consumer_ok : ConsumerOk s
  wake_ok : WakeOk s

theorem ringInv_of_initial {s : RingState ev} (h : s.Initial) : RingInv s := by
  obtain ⟨hhead, htail, hpipe, hprod, hcons, hacc, hdisp, hpub, hcon⟩ := h
  refine ⟨by simp [hhead, hpub], by simp [htail, hcon], by omega, by omega, ?_, ?_, ?_, ?_⟩
  · rw [hpub, hcon]
    exact Holds.empty _ _ _
  · simp [ProducerOk, hprod, hacc, hpub]
  · simp [ConsumerOk, hcons, hdisp, hcon]
  · simp [WakeOk, hcons, hprod, hpub, hcon]

/-- Under the invariant the full test refuses exactly when 255 events are unconsumed, and the slot
it hands out is the next one. -/
theorem ringReserve_eq {s : RingState ev} (hi : RingInv s) :
    ringReserve s =
      if s.published = s.consumed + inputRingMask then none
      else some (s.published % inputRingSize) := by
  have hle := hi.consumed_le
  have hlap := hi.published_le
  have hfull : ((s.ringHead + 1) % inputRingSize = s.ringTail % inputRingSize) ↔
      s.published = s.consumed + inputRingMask := by
    rw [hi.head_eq, hi.tail_eq]
    simp only [inputRingMask, inputRingSize] at hlap ⊢
    omega
  simp only [ringReserve, and_inputRingMask, hfull]
  rw [hi.head_eq, Nat.mod_mod]

/-- Under the invariant the peek finds the oldest unconsumed event. -/
theorem ringPeek_eq {s : RingState ev} (hi : RingInv s) :
    ringPeek s =
      if s.consumed = s.published then none else some (s.consumed % inputRingSize) := by
  have hle := hi.consumed_le
  have hlap := hi.published_le
  have hempty : (s.ringTail = s.ringHead) ↔ s.consumed = s.published := by
    rw [hi.head_eq, hi.tail_eq]
    simp only [inputRingMask, inputRingSize] at hlap ⊢
    omega
  simp only [ringPeek, and_inputRingMask, hempty]
  rw [hi.tail_eq, Nat.mod_mod]

/-- Advancing an index under the mask is counting modulo the ring size. -/
theorem index_advance {index count : ℕ} (h : index = count % inputRingSize) :
    (index + 1) &&& inputRingMask = (count + 1) % inputRingSize := by
  rw [and_inputRingMask, h, Nat.mod_add_mod]

/-! ### The producer's steps keep the invariant -/

theorem RingInv.accept {s : RingState ev} (hi : RingInv s) (hpc : s.producer = .idle)
    (hroom : s.published ≠ s.consumed + inputRingMask) (e : ev) :
    RingInv { s with
      producer := .reserved (s.published % inputRingSize) e, accepted := s.accepted ++ [e] } := by
  have hle := hi.published_le
  have hprod := hi.producer_ok
  have hcons := hi.consumer_ok
  have hwake := hi.wake_ok
  simp only [ProducerOk, hpc] at hprod
  refine { hi with holds := hi.holds.append _, producer_ok := ?_, consumer_ok := ?_, wake_ok := ?_ }
  · simp only [ProducerOk]
    refine ⟨trivial, by omega, by simp [hprod], ?_⟩
    rw [← hprod, List.getElem?_concat_length]
  · -- what was dispatched is a prefix of the old history, hence of the longer one
    have hlen := hi.consumed_le
    have htake : ∀ k ≤ s.published, (s.accepted ++ [e]).take k = s.accepted.take k :=
      fun k hk => List.take_append_of_le_length (by omega)
    revert hcons
    simp only [ConsumerOk]
    cases s.consumer with
    | idle | draining | peeking => exact fun hd => by rw [htake _ hlen]; exact hd
    | dispatching slot =>
      exact fun ⟨hslot, hlt, hd⟩ => ⟨hslot, hlt, by rw [htake _ hlen]; exact hd⟩
    | consuming => exact fun ⟨hlt, hd⟩ => ⟨hlt, by rw [htake _ hlt]; exact hd⟩
  · revert hwake
    simp only [WakeOk, hpc]
    cases s.consumer <;> exact id

theorem RingInv.fill {s : RingState ev} (hi : RingInv s) {slot : ℕ} {e : ev}
    (hpc : s.producer = .reserved slot e) :
    RingInv { s with ring := setSlot s.ring slot e, producer := .filled } := by
  have hprod := hi.producer_ok
  have hcons := hi.consumer_ok
  have hwake := hi.wake_ok
  simp only [ProducerOk, hpc] at hprod
  obtain ⟨rfl, hroom, hlen, hnew⟩ := hprod
  refine { hi with holds := ?_, producer_ok := ?_, consumer_ok := ?_, wake_ok := ?_ }
  · refine hi.holds.write ?_ e
    simp only [inputRingMask] at hroom
    omega
  · simp only [ProducerOk, setSlot_same]
    exact ⟨hroom, hlen, hnew⟩
  · revert hcons
    simp only [ConsumerOk]
    cases s.consumer <;> exact id
  · revert hwake
    simp only [WakeOk, hpc]
    cases s.consumer <;> exact id

theorem RingInv.commit {s : RingState ev} (hi : RingInv s) (hpc : s.producer = .filled) :
    RingInv { ringCommit s with producer := .published } := by
  have hle := hi.consumed_le
  have hprod := hi.producer_ok
  have hcons := hi.consumer_ok
  simp only [ProducerOk, hpc] at hprod
  obtain ⟨hroom, hlen, hnew⟩ := hprod
  refine
    { head_eq := index_advance hi.head_eq
      tail_eq := hi.tail_eq
      consumed_le := Nat.le_succ_of_le hle
      published_le := hroom
      holds := hi.holds.push hnew
      producer_ok := hlen
      consumer_ok := ?_
      wake_ok := ?_ }
  · revert hcons
    simp only [ConsumerOk, ringCommit]
    cases s.consumer with
    | idle | draining | peeking => exact id
    | dispatching slot => exact fun ⟨hslot, hlt, hd⟩ => ⟨hslot, by omega, hd⟩
    | consuming => exact fun ⟨hlt, hd⟩ => ⟨by omega, hd⟩
  · simp only [WakeOk, ringCommit]
    cases s.consumer <;> trivial

theorem RingInv.wake {s : RingState ev} (hi : RingInv s) (hpc : s.producer = .published) :
    RingInv { wakeCompositor s with producer := .idle } := by
  have hprod := hi.producer_ok
  simp only [ProducerOk, hpc] at hprod
  refine { hi with producer_ok := hprod, consumer_ok := hi.consumer_ok, wake_ok := ?_ }
  -- appended or refused with `EAGAIN`, the pipe now has a byte
  have hbyte := Pipe.unread_write s.pipe 'i'
  simp only [WakeOk, wakeCompositor]
  cases s.consumer with
  | idle => exact fun _ => hbyte
  | draining | peeking | dispatching slot | consuming => trivial

/-! ### The consumer's steps keep the invariant -/

/-- A busy consumer has no wake-up obligation. -/
theorem wakeOk_of_busy {s : RingState ev} (h : s.consumer ≠ .idle) : WakeOk s := by
  simp only [WakeOk]
  cases hc : s.consumer with
  | idle => exact absurd hc h
  | draining | peeking | dispatching slot | consuming => trivial

theorem RingInv.callback {s : RingState ev} (hi : RingInv s) (hpc : s.consumer = .idle) :
    RingInv { s with consumer := .draining } := by
  have hcons := hi.consumer_ok
  simp only [ConsumerOk, hpc] at hcons
  exact { hi with
    producer_ok := hi.producer_ok, consumer_ok := hcons, wake_ok := wakeOk_of_busy (by simp) }

theorem RingInv.drain {s : RingState ev} (hi : RingInv s) (hpc : s.consumer = .draining) :
    RingInv { s with pipe := (s.pipe.read drainBufSize).2 } := by
  exact { hi with
    producer_ok := hi.producer_ok
    consumer_ok := hi.consumer_ok
    wake_ok := wakeOk_of_busy (by simp [hpc]) }

theorem RingInv.drained {s : RingState ev} (hi : RingInv s) (hpc : s.consumer = .draining) :
    RingInv { s with consumer := .peeking } := by
  have hcons := hi.consumer_ok
  simp only [ConsumerOk, hpc] at hcons
  exact { hi with
    producer_ok := hi.producer_ok, consumer_ok := hcons, wake_ok := wakeOk_of_busy (by simp) }

theorem RingInv.found {s : RingState ev} (hi : RingInv s) (hpc : s.consumer = .peeking)
    (hne : s.consumed ≠ s.published) :
    RingInv { s with consumer := .dispatching (s.consumed % inputRingSize) } := by
  have hlt : s.consumed < s.published := lt_of_le_of_ne hi.consumed_le hne
  have hcons := hi.consumer_ok
  simp only [ConsumerOk, hpc] at hcons
  exact { hi with
    producer_ok := hi.producer_ok
    consumer_ok := ⟨rfl, hlt, hcons⟩
    wake_ok := wakeOk_of_busy (by simp) }

/-- The consumer goes idle only over an empty ring. -/
theorem RingInv.foundEmpty {s : RingState ev} (hi : RingInv s) (hpc : s.consumer = .peeking)
    (hempty : s.consumed = s.published) : RingInv { s with consumer := .idle } := by
  have hcons := hi.consumer_ok
  simp only [ConsumerOk, hpc] at hcons
  refine { hi with producer_ok := hi.producer_ok, consumer_ok := hcons, wake_ok := ?_ }
  simp only [WakeOk]
  cases s.producer with
  | published => trivial
  | idle | reserved slot e | filled => exact fun hne => absurd hempty.symm hne

theorem RingInv.dispatch {s : RingState ev} (hi : RingInv s) {slot : ℕ}
    (hpc : s.consumer = .dispatching slot) :
    RingInv { s with consumer := .consuming, dispatched := s.dispatched ++ [s.ring slot] } := by
  have hcons := hi.consumer_ok
  simp only [ConsumerOk, hpc] at hcons
  obtain ⟨rfl, hlt, hd⟩ := hcons
  -- the slot still holds the event number `consumed` of the history
  have hev := hi.holds s.consumed le_rfl hlt
  refine { hi with
    producer_ok := hi.producer_ok
    consumer_ok := ⟨hlt, ?_⟩
    wake_ok := wakeOk_of_busy (by simp) }
  rw [List.take_add_one, hev, hd]
  rfl

theorem RingInv.consume {s : RingState ev} (hi : RingInv s) (hpc : s.consumer = .consuming) :
    RingInv { ringConsume s with consumer := .peeking } := by
  have hle := hi.published_le
  have hprod := hi.producer_ok
  have hcons := hi.consumer_ok
  simp only [ConsumerOk, hpc] at hcons
  obtain ⟨hlt, hd⟩ := hcons
  refine
    { head_eq := hi.head_eq
      tail_eq := index_advance hi.tail_eq
      consumed_le := hlt
      published_le := by simp only [ringConsume]; omega
      holds := hi.holds.pop
      producer_ok := ?_
      consumer_ok := hd
      wake_ok := wakeOk_of_busy (by simp) }
  revert hprod
  simp only [ProducerOk, ringConsume]
  cases s.producer with
  | idle | published => exact id
  | reserved slot e => exact fun ⟨hslot, hroom, hrest⟩ => ⟨hslot, by omega, hrest⟩
  | filled => exact fun ⟨hroom, hrest⟩ => ⟨by omega, hrest⟩

/-- **Every step of either thread keeps the invariant.** -/
theorem RingInv.next {s t : RingState ev} {e : RingStep ev} (hi : RingInv s)
    (h : s.next e = some t) : RingInv t := by
  cases e with
  | reserve e =>
    simp only [RingState.next, ringReserve_eq hi] at h
    split at h
    · rename_i hpc
      by_cases hfull : s.published = s.consumed + inputRingMask
      · rw [if_pos hfull] at h
        exact Option.some.inj h ▸ hi
      · rw [if_neg hfull] at h
        exact Option.some.inj h ▸ hi.accept hpc hfull e
    · simp at h
  | fill =>
    simp only [RingState.next] at h
    split at h
    · rename_i hpc
      exact Option.some.inj h ▸ hi.fill hpc
    · simp at h
  | commit =>
    simp only [RingState.next] at h
    split at h
    · rename_i hpc
      exact Option.some.inj h ▸ hi.commit hpc
    · simp at h
  | wake =>
    simp only [RingState.next] at h
    split at h
    · rename_i hpc
      exact Option.some.inj h ▸ hi.wake hpc
    · simp at h
  | callback =>
    simp only [RingState.next] at h
    split at h
    · rename_i hpc
      exact Option.some.inj h ▸ hi.callback hpc
    · simp at h
  | drain =>
    simp only [RingState.next] at h
    split at h
    · rename_i hpc
      split at h
      · exact Option.some.inj h ▸ hi.drained hpc
      · exact Option.some.inj h ▸ hi.drain hpc
    · simp at h
  | peek =>
    simp only [RingState.next, ringPeek_eq hi] at h
    split at h
    · rename_i hpc
      by_cases hempty : s.consumed = s.published
      · rw [if_pos hempty] at h
        exact Option.some.inj h ▸ hi.foundEmpty hpc hempty
      · rw [if_neg hempty] at h
        exact Option.some.inj h ▸ hi.found hpc hempty
    · simp at h
  | dispatch =>
    simp only [RingState.next] at h
    split at h
    · rename_i hpc
      exact Option.some.inj h ▸ hi.dispatch hpc
    · simp at h
  | consume =>
    simp only [RingState.next] at h
    split at h
    · rename_i hpc
      exact Option.some.inj h ▸ hi.consume hpc
    · simp at h

theorem ringInv_of_reachable {s : RingState ev} (h : (ringSystem ev).Reachable s) : RingInv s :=
  h.invariant (fun _ => ringInv_of_initial) (fun _ _ _ => RingInv.next)

/-! ### What the ring guarantees -/

/-- What a user of the ring relies on, in terms of the history only. -/
structure RingGuarantee (s : RingState ev) : Prop where
  /-- No loss, duplication or reordering, and identical contents. -/
  dispatched_prefix : s.dispatched <+: s.accepted
  /-- No published, unconsumed slot was overwritten. -/
  slots_intact : ∀ i, s.consumed ≤ i → i < s.published →
    s.accepted[i]? = some (s.ring (i % inputRingSize))
  /-- The slot being dispatched holds the next event of the history. -/
  slot_in_use : ∀ slot, s.consumer = .dispatching slot →
    s.accepted[s.dispatched.length]? = some (s.ring slot)
  pending_le : s.accepted.length ≤ s.dispatched.length + 255
  /-- A refusal means 255 accepted events are unconsumed. -/
  refused_full : s.producer = .idle → ringReserve s = none →
    s.accepted.length = s.consumed + 255
  /-- No lost wake-up. -/
  wake_pending : s.producer = .idle → s.consumer = .idle → s.ringHead ≠ s.ringTail →
    s.pipe.unread ≠ []

/-- The history is at least as long as what was published, and at most one longer. -/
theorem RingInv.accepted_length {s : RingState ev} (hi : RingInv s) :
    s.published ≤ s.accepted.length ∧ s.accepted.length ≤ s.consumed + inputRingMask := by
  have hle := hi.published_le
  have hprod := hi.producer_ok
  revert hprod
  simp only [ProducerOk]
  cases s.producer with
  | idle | published => exact fun hlen => by omega
  | reserved slot e => exact fun ⟨_, hroom, hlen, _⟩ => by omega
  | filled => exact fun ⟨hroom, hlen, _⟩ => by omega

/-- What was dispatched is an initial segment that covers everything consumed. -/
theorem RingInv.dispatched_eq {s : RingState ev} (hi : RingInv s) :
    ∃ n, s.consumed ≤ n ∧ n ≤ s.published ∧ s.dispatched = s.accepted.take n := by
  have hle := hi.consumed_le
  have hcons := hi.consumer_ok
  revert hcons
  simp only [ConsumerOk]
  cases s.consumer with
  | idle | draining | peeking => exact fun hd => ⟨_, le_rfl, hle, hd⟩
  | dispatching slot => exact fun ⟨_, hlt, hd⟩ => ⟨_, le_rfl, hle, hd⟩
  | consuming => exact fun ⟨hlt, hd⟩ => ⟨_, by omega, hlt, hd⟩

theorem RingInv.guarantee {s : RingState ev} (hi : RingInv s) : RingGuarantee s := by
  obtain ⟨hpub, hlen⟩ := hi.accepted_length
  obtain ⟨n, hn, hnpub, hd⟩ := hi.dispatched_eq
  have hdlen : s.dispatched.length = n := by
    rw [hd, List.length_take]
    omega
  refine ⟨hd ▸ List.take_prefix _ _, hi.holds, ?_, ?_, ?_, ?_⟩
  · intro slot hpc
    have hcons := hi.consumer_ok
    simp only [ConsumerOk, hpc] at hcons
    obtain ⟨rfl, hlt, hd'⟩ := hcons
    have hdlen' : s.dispatched.length = s.consumed := by
      rw [hd', List.length_take]
      omega
    rw [hdlen']
    exact hi.holds s.consumed le_rfl hlt
  · simp only [inputRingMask, inputRingSize] at hlen
    omega
  · intro hpc hnone
    have hprod := hi.producer_ok
    simp only [ProducerOk, hpc] at hprod
    rw [ringReserve_eq hi] at hnone
    split at hnone
    · rename_i hfull
      rw [hprod, hfull]
      rfl
    · simp at hnone
  · intro hprod hcons hne
    have hwake := hi.wake_ok
    simp only [WakeOk, hprod, hcons] at hwake
    refine hwake fun heq => hne ?_
    rw [hi.head_eq, hi.tail_eq, heq]

/-- **The ring delivers.**  In every state that any interleaving of the producer and the consumer
reaches, the dispatched events are a prefix of the accepted ones with the same contents, at most
255 are pending, an event is refused only when 255 are unconsumed, and when both sides are idle a
non-empty ring has an unread wake-up byte. -/
theorem ringGuarantee_of_reachable {s : RingState ev} (h : (ringSystem ev).Reachable s) :
    RingGuarantee s :=
  (ringInv_of_reachable h).guarantee

/-- A run in which the second event is accepted while the first is being dispatched. -/
def overlappingRun : List (RingStep Char) :=
  [.reserve 'a', .fill, .commit, .wake, .callback, .drain, .drain, .peek, .reserve 'b', .dispatch]

/-- An empty ring over a pipe of one byte. -/
def emptyRing : RingState Char where
  ring := fun _ => '-'
  ringHead := 0
  ringTail := 0
  pipe := Pipe.empty 1 Nat.one_pos
  producer := .idle
  consumer := .idle
  accepted := []
  dispatched := []
  published := 0
  consumed := 0

/-- Where that run leads. -/
def overlapped : RingState Char := (runNext RingState.next emptyRing overlappingRun).getD emptyRing

theorem emptyRing_initial : emptyRing.Initial :=
  ⟨rfl, rfl, rfl, rfl, rfl, rfl, rfl, rfl, rfl⟩

theorem runNext_overlappingRun :
    runNext RingState.next emptyRing overlappingRun = some overlapped := rfl

theorem ringGuarantee_of_overlappingRun :
    overlapped.accepted = ['a', 'b'] ∧ overlapped.dispatched = ['a'] ∧ RingGuarantee overlapped :=
  ⟨rfl, rfl, ringGuarantee_of_reachable
    (System.reachable_runNext (.start emptyRing_initial) runNext_overlappingRun)⟩

end Wldroid.Input
