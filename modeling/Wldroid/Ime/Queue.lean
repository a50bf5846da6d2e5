import Wldroid.Foundation.Transition
import Wldroid.Foundation.Pipe
import Wldroid.Foundation.CTypes
import Wldroid.Foundation.LinkedQueue

/-!
# The IME text queue: JNI threads to the event loop

Any number of JNI threads queue commit and delete operations on a linked list guarded by
`pending_text_mutex` and write a wake-up byte to a pipe; the event-loop callback
`on_text_input_event` drains the pipe and then pops and dispatches until the list is empty.  Code
under the mutex is one atomic step; everything else interleaves freely.

* **`QueueInv`** — the list in memory, the counters, who owns which record, what was dispatched;
* **`QueueInv.next`** — every step of every thread keeps it;
* **`dispatchesAll`** — once the callback is entered, the event loop alone dispatches everything
  accepted so far;
* **`queueGuarantee_of_reachable`** — what a user of the queue may rely on.
-/

namespace Wldroid.Ime

open Wldroid.Foundation

/-- `PENDING_TEXT_MAX_COUNT`. -/
def pendingTextMaxCount : ℕ := 256

/-- `PENDING_TEXT_MAX_BYTES`. -/
def pendingTextMaxBytes : ℕ := 256 * 1024

/-- `DELETE_SURROUNDING_MAX_COUNT`. -/
def deleteSurroundingMaxCount : ℕ := 256

/-- `sizeof(struct pending_text_op)` on the 64-bit target. -/
def sizeofPendingTextOp : ℕ := 48

/-- The size of the buffer `on_text_input_event` drains the pipe with. -/
def drainBufSize : ℕ := 64

/-- `clamp_delete_count`. -/
def clampDeleteCount (count : ℕ) : ℕ :=
  if count > deleteSurroundingMaxCount then deleteSurroundingMaxCount else count

theorem clampDeleteCount_eq_min (count : ℕ) :
    clampDeleteCount count = min count deleteSurroundingMaxCount := by
  unfold clampDeleteCount
  split <;> omega

/-! ### Operations -/

/-- `enum pending_text_op_type`. -/
inductive PendingTextOpType where
  | commit
  | delete
  deriving DecidableEq

/-- `struct pending_text_op`; its `next` is the link of the memory cell it sits in. -/
structure PendingTextOp where
  type : PendingTextOpType
  text : Option CString
  beforeLength : ℕ
  afterLength : ℕ
  codePoints : Bool
  bytes : ℕ
  deriving DecidableEq

/-- The three JNI entry points that queue an operation. -/
inductive TextRequest where
  | commitText (text : CString)
  | deleteSurroundingText (beforeLength afterLength : ℕ)
  | deleteSurroundingTextInCodePoints (beforeLength afterLength : ℕ)

/-- The record `enqueue_text_commit` fills in. -/
def enqueueTextCommit (text : CString) : PendingTextOp where
  type := .commit
  text := some text
  beforeLength := 0
  afterLength := 0
  codePoints := false
  bytes := text.strlen

/-- The record `enqueue_text_delete` fills in. -/
def enqueueTextDelete (beforeLength afterLength : ℕ) (codePoints : Bool) : PendingTextOp where
  type := .delete
  text := none
  beforeLength := clampDeleteCount beforeLength
  afterLength := clampDeleteCount afterLength
  codePoints := codePoints
  bytes := sizeofPendingTextOp + clampDeleteCount beforeLength + clampDeleteCount afterLength

namespace TextRequest

/-- Empty text and two zero counts return at once. -/
def isEmpty : TextRequest → Bool
  | commitText text => text.bytes.isEmpty
  | deleteSurroundingText b a | deleteSurroundingTextInCodePoints b a => b == 0 && a == 0

/-- The record an entry point queues. -/
def record : TextRequest → PendingTextOp
  | commitText text => enqueueTextCommit text
  | deleteSurroundingText b a => enqueueTextDelete b a false
  | deleteSurroundingTextInCodePoints b a => enqueueTextDelete b a true

/-- No record is large enough for the byte total to wrap. -/
theorem record_bytes_lt (req : TextRequest) : req.record.bytes < 2 ^ 63 := by
  have hclamp : ∀ n, clampDeleteCount n ≤ 256 := fun n => by
    rw [clampDeleteCount_eq_min]
    exact min_le_right _ _
  cases req with
  | commitText text => exact text.fits
  | deleteSurroundingText b a | deleteSurroundingTextInCodePoints b a =>
    have hb := hclamp b
    have ha := hclamp a
    simp only [record, enqueueTextDelete, sizeofPendingTextOp]
    omega

end TextRequest

/-- A call of `dispatch_commit_text` or `dispatch_delete_surrounding_text`. -/
inductive TextDispatch where
  | commitText (text : Option CString)
  | deleteSurroundingText (beforeLength afterLength : ℕ) (codePoints : Bool)
  deriving DecidableEq

/-- The call the event loop makes for a popped record. -/
def dispatchOf (op : PendingTextOp) : TextDispatch :=
  match op.type with
  | .commit => .commitText op.text
  | .delete => .deleteSurroundingText op.beforeLength op.afterLength op.codePoints

/-- What a request asks to be dispatched: the same text, or the same counts clamped to 256. -/
def TextRequest.expected : TextRequest → TextDispatch
  | commitText text => .commitText (some text)
  | deleteSurroundingText b a => .deleteSurroundingText (min b 256) (min a 256) false
  | deleteSurroundingTextInCodePoints b a => .deleteSurroundingText (min b 256) (min a 256) true

@[simp] theorem dispatchOf_record (req : TextRequest) : dispatchOf req.record = req.expected := by
  cases req with
  | commitText text => rfl
  | deleteSurroundingText b a | deleteSurroundingTextInCodePoints b a =>
    simp only [TextRequest.record, enqueueTextDelete, dispatchOf, TextRequest.expected,
      clampDeleteCount_eq_min, deleteSurroundingMaxCount]

/-! ### The queue and its threads -/

/-- Where a JNI thread is in an entry point. -/
inductive ProducerPc where
  | idle
  /-- The record for the request is filled in at this address, not yet queued. -/
  | allocated (op : ℕ) (req : TextRequest)
  /-- Queued, `wake_text_input_loop` is next. -/
  | queued
  /-- The wake-up failed: inside `clear_pending_text_ops`. -/
  | clearing

/-- Where the event loop is in `on_text_input_event`. -/
inductive ConsumerPc where
  | idle
  | draining
  | popping
  /-- `pop_text_op` returned this record. -/
  | dispatching (op : ℕ)
  | freeing (op : ℕ)

/-- The globals, the heap the records live in, the pipe, all program counters, and the ghost
history. -/
structure QueueState (τ : Type) where
  memory : Memory PendingTextOp
  live : ℕ → Bool
  pendingTextHead : Option ℕ
  pendingTextTail : Option ℕ
  pendingTextCount : ℕ
  pendingTextBytes : ℕ
  /-- `text_input_pipe[1] >= 0` and `text_input_event_source` is set. -/
  pipeReady : Bool
  pipe : Pipe Char
  producer : τ → ProducerPc
  consumer : ConsumerPc
  /-- Ghost: the requests `enqueue_text_op` returned true for. -/
  accepted : List TextRequest
  /-- Ghost: the dispatch calls made. -/
  dispatched : List TextDispatch

variable {τ : Type}

/-- `free(op)`. -/
def QueueState.release (s : QueueState τ) (op : ℕ) : QueueState τ :=
  { s with live := Function.update s.live op false }

/-- `enqueue_text_op`: a refused record is freed. -/
def enqueueTextOp (s : QueueState τ) (op : ℕ) : Bool × QueueState τ :=
  if s.pendingTextCount ≥ pendingTextMaxCount ∨
      sizeAdd s.pendingTextBytes (s.memory op).val.bytes > pendingTextMaxBytes then
    (false, s.release op)
  else
    (true,
      { s with
        memory := link s.memory s.pendingTextTail op
        pendingTextHead := if s.pendingTextTail = none then some op else s.pendingTextHead
        pendingTextTail := some op
        pendingTextCount := sizeAdd s.pendingTextCount 1
        pendingTextBytes := sizeAdd s.pendingTextBytes (s.memory op).val.bytes })

/-- `pop_text_op`. -/
def popTextOp (s : QueueState τ) : Option ℕ × QueueState τ :=
  match s.pendingTextHead with
  | none => (none, s)
  | some op =>
      (some op,
        { s with
          pendingTextHead := (s.memory op).next
          pendingTextTail := if (s.memory op).next = none then none else s.pendingTextTail
          pendingTextCount := sizeSub s.pendingTextCount 1
          pendingTextBytes := sizeSub s.pendingTextBytes (s.memory op).val.bytes })

/-- `wake_text_input_loop`: a byte appended and `EAGAIN` both count as success. -/
def wakeTextInputLoop (s : QueueState τ) : Bool × QueueState τ :=
  if s.pipeReady then (true, { s with pipe := s.pipe.write 't' }) else (false, s)

/-- The atomic steps: of JNI thread `i`, then of the event loop. -/
inductive QueueStep (τ : Type) where
  /-- Enter an entry point and allocate the record; `none` is a failed allocation. -/
  | call (i : τ) (req : TextRequest) (alloc : Option ℕ)
  | enqueue (i : τ)
  | wake (i : τ)
  | clear (i : τ)
  | callback
  | drain
  | pop
  | dispatch
  | free

/-- Thread `i` moves to `pc`. -/
def QueueState.goto [DecidableEq τ] (s : QueueState τ) (i : τ) (pc : ProducerPc) : QueueState τ :=
  { s with producer := Function.update s.producer i pc }

/-- The state after a step, when the thread that takes it is at that step. -/
def QueueState.next [DecidableEq τ] (s : QueueState τ) : QueueStep τ → Option (QueueState τ)
  | .call i req alloc =>
      match s.producer i with
      | .idle =>
          if req.isEmpty || !s.pipeReady then some s
          else
            match alloc with
            | none => some s
            | some op =>
                -- `calloc` never returns a live address
                if s.live op then none
                else
                  some ({ s with
                    memory := Function.update s.memory op ⟨req.record, none⟩
                    live := Function.update s.live op true }.goto i (.allocated op req))
      | _ => none
  | .enqueue i =>
      match s.producer i with
      | .allocated op req =>
          if (enqueueTextOp s op).1 then
            some ({ (enqueueTextOp s op).2 with accepted := s.accepted ++ [req] }.goto i .queued)
          else some ((enqueueTextOp s op).2.goto i .idle)
      | _ => none
  | .wake i =>
      match s.producer i with
      | .queued =>
          if (wakeTextInputLoop s).1 then some ((wakeTextInputLoop s).2.goto i .idle)
          else some (s.goto i .clearing)
      | _ => none
  | .clear i =>
      match s.producer i with
      | .clearing =>
          match popTextOp s with
          | (none, _) => some (s.goto i .idle)
          | (some op, t) => some (t.release op)
      | _ => none
  | .callback =>
      match s.consumer with
      | .idle => some { s with consumer := .draining }
      | _ => none
  | .drain =>
      match s.consumer with
      | .draining =>
          -- no bytes is `EAGAIN`, which ends the loop
          if (s.pipe.read drainBufSize).1 = [] then some { s with consumer := .popping }
          else some { s with pipe := (s.pipe.read drainBufSize).2 }
      | _ => none
  | .pop =>
      match s.consumer with
      | .popping =>
          match popTextOp s with
          | (none, _) => some { s with consumer := .idle }
          | (some op, t) => some { t with consumer := .dispatching op }
      | _ => none
  | .dispatch =>
      match s.consumer with
      | .dispatching op =>
          some { s with
            consumer := .freeing op
            dispatched := s.dispatched ++ [dispatchOf (s.memory op).val] }
      | _ => none
  | .free =>
      match s.consumer with
      | .freeing op => some { s.release op with consumer := .popping }
      | _ => none

/-- The pipe is set up and empty, nothing is queued or allocated, nobody is inside a call. -/
def QueueState.Initial (s : QueueState τ) : Prop :=
  (∀ a, s.live a = false) ∧ s.pendingTextHead = none ∧ s.pendingTextTail = none ∧
    s.pendingTextCount = 0 ∧ s.pendingTextBytes = 0 ∧ s.pipeReady = true ∧
    (∀ i, s.producer i = .idle) ∧ s.consumer = .idle ∧ s.accepted = [] ∧ s.dispatched = []

/-- All interleavings of the JNI threads and the event loop. -/
def queueSystem (τ : Type) [DecidableEq τ] : System (QueueState τ) (QueueStep τ) :=
  System.ofNext QueueState.Initial QueueState.next

/-! ### The invariant -/

/-- Who may touch the record at an address. -/
inductive Owner (τ : Type) where
  | nobody
  | thread (i : τ)
  | queue
  | eventLoop

/-- The byte counts of the queued records together. -/
def queuedBytes (cells : List (ℕ × PendingTextOp)) : ℕ := (cells.map fun c => c.2.bytes).sum

/-- The operation popped but not yet dispatched, if any. -/
def QueueState.inFlight (s : QueueState τ) : List TextDispatch :=
  match s.consumer with
  | .dispatching op => [dispatchOf (s.memory op).val]
  | _ => []

/-- The event loop holds this record. -/
def ConsumerPc.Holds : ConsumerPc → ℕ → Prop
  | .dispatching op, a | .freeing op, a => op = a
  | _, _ => False

/-- The invariant, for the queued cells and an assignment of owners to addresses. -/
structure QueueInv (s : QueueState τ) (cells : List (ℕ × PendingTextOp)) (owner : ℕ → Owner τ) :
    Prop where
  ready : s.pipeReady = true
  queue : IsQueue s.memory s.pendingTextHead s.pendingTextTail cells
  count_eq : s.pendingTextCount = cells.length
  bytes_eq : s.pendingTextBytes = queuedBytes cells
  count_le : cells.length ≤ pendingTextMaxCount
  bytes_le : queuedBytes cells ≤ pendingTextMaxBytes
  fifo : s.accepted.map TextRequest.expected =
    s.dispatched ++ s.inFlight ++ cells.map fun c => dispatchOf c.2
  live_iff : ∀ a, s.live a = true ↔ owner a ≠ .nobody
  queue_owns : ∀ c ∈ cells, owner c.1 = .queue
  thread_owns : ∀ i op req, s.producer i = .allocated op req →
    owner op = .thread i ∧ s.memory op = ⟨req.record, none⟩
  loop_owns : ∀ op, s.consumer.Holds op → owner op = .eventLoop
  wake_ok : s.consumer = .idle → cells ≠ [] →
    (∃ i, s.producer i = .queued) ∨ s.pipe.unread ≠ []
  never_clearing : ∀ i, s.producer i ≠ .clearing

theorem queueInv_of_initial {s : QueueState τ} (h : s.Initial) :
    QueueInv s [] fun _ => .nobody := by
  obtain ⟨hlive, hhead, htail, hcount, hbytes, hready, hprod, hcons, hacc, hdisp⟩ := h
  refine
    { ready := hready
      queue := by rw [hhead, htail]; exact IsQueue.nil _
      count_eq := hcount
      bytes_eq := hbytes
      count_le := Nat.zero_le _
      bytes_le := Nat.zero_le _
      fifo := by simp [hacc, hdisp, QueueState.inFlight, hcons]
      live_iff := by simp [hlive]
      queue_owns := by simp
      thread_owns := by simp [hprod]
      loop_owns := by simp [hcons, ConsumerPc.Holds]
      wake_ok := by simp
      never_clearing := by simp [hprod] }

/-- Handing one address over leaves the owners of the others. -/
theorem handOver_of_ne {owner : ℕ → Owner τ} {op a : ℕ} (new : Owner τ)
    (h : owner a ≠ owner op) : Function.update owner op new a = owner a :=
  Function.update_of_ne (fun hop => h (by rw [hop])) _ _

section Invariant

variable {s : QueueState τ} {cells : List (ℕ × PendingTextOp)} {owner : ℕ → Owner τ}

/-- An address not owned by the queue is not in it. -/
theorem QueueInv.not_queued (hi : QueueInv s cells owner) {a : ℕ} (h : owner a ≠ .queue) :
    a ∉ cells.map Prod.fst := by
  intro hm
  obtain ⟨c, hc, rfl⟩ := List.mem_map.mp hm
  exact h (hi.queue_owns c hc)

/-- The tail pointer points into the queue. -/
theorem QueueInv.tail_owned (hi : QueueInv s cells owner) {t : ℕ}
    (ht : s.pendingTextTail = some t) : owner t = .queue := by
  rw [hi.queue.tail_eq] at ht
  obtain ⟨c, hc, rfl⟩ := Option.map_eq_some_iff.mp ht
  exact hi.queue_owns c (List.mem_of_getLast? hc)

theorem QueueInv.inFlight_congr (hi : QueueInv s cells owner) {mem : Memory PendingTextOp}
    (hsame : ∀ a, owner a = .eventLoop → (mem a).val = (s.memory a).val) :
    { s with memory := mem }.inFlight = s.inFlight := by
  have howns := hi.loop_owns
  revert howns
  simp only [QueueState.inFlight]
  cases s.consumer with
  | dispatching op =>
    intro howns
    show [dispatchOf (mem op).val] = [dispatchOf (s.memory op).val]
    rw [hsame op (howns op rfl)]
  | idle | draining | popping | freeing op => exact fun _ => rfl

/-- Under the invariant the byte total does not wrap, so the test is on the true sum. -/
theorem QueueInv.enqueueTextOp_refused_iff (hi : QueueInv s cells owner) {i : τ} {op : ℕ}
    {req : TextRequest} (hpc : s.producer i = .allocated op req) :
    (enqueueTextOp s op).1 = false ↔ cells.length ≥ pendingTextMaxCount ∨
      queuedBytes cells + req.record.bytes > pendingTextMaxBytes := by
  have hbytes := hi.bytes_le
  have hrec := req.record_bytes_lt
  have hsum : sizeAdd s.pendingTextBytes req.record.bytes =
      queuedBytes cells + req.record.bytes := by
    rw [hi.bytes_eq]
    apply sizeAdd_eq
    simp only [pendingTextMaxBytes] at hbytes
    omega
  rw [enqueueTextOp, (hi.thread_owns i op req hpc).2, hsum, hi.count_eq]
  split <;> simp_all

/-! ### The JNI threads' steps keep the invariant -/

section Threads

variable [DecidableEq τ]

/-- A thread that holds no record moves to a place where it holds none. -/
theorem QueueInv.goto (hi : QueueInv s cells owner) {i : τ} {pc : ProducerPc}
    (hfree : ∀ op req, pc ≠ .allocated op req) (hclear : pc ≠ .clearing)
    (hwake : s.producer i = .queued → pc = .queued ∨ s.pipe.unread ≠ []) :
    QueueInv (s.goto i pc) cells owner := by
  refine { hi with fifo := hi.fifo, thread_owns := ?_, wake_ok := ?_, never_clearing := ?_ }
  · intro j op req hj
    by_cases hij : j = i
    · subst hij
      exact absurd (by simpa [QueueState.goto] using hj) (hfree op req)
    · exact hi.thread_owns j op req (by simpa [QueueState.goto, hij] using hj)
  · intro hidle hne
    rcases hi.wake_ok hidle hne with ⟨j, hj⟩ | hbyte
    · by_cases hij : j = i
      · subst hij
        rcases hwake hj with hpc | hbyte
        · exact .inl ⟨j, by simp [QueueState.goto, hpc]⟩
        · exact .inr hbyte
      · exact .inl ⟨j, by simp [QueueState.goto, hij, hj]⟩
    · exact .inr hbyte
  · intro j
    by_cases hij : j = i
    · subst hij
      simpa [QueueState.goto] using hclear
    · simpa [QueueState.goto, hij] using hi.never_clearing j

theorem QueueInv.allocate (hi : QueueInv s cells owner) {i : τ} (hpc : s.producer i = .idle)
    {op : ℕ} (hfree : s.live op = false) (req : TextRequest) :
    QueueInv ({ s with
        memory := Function.update s.memory op ⟨req.record, none⟩
        live := Function.update s.live op true }.goto i (.allocated op req))
      cells (Function.update owner op (.thread i)) := by
  have hnobody : owner op = .nobody := by
    by_contra hne
    rw [(hi.live_iff op).mpr hne] at hfree
    exact absurd hfree (by simp)
  have hother : ∀ a, owner a ≠ .nobody → a ≠ op := fun a ha hop => ha (by rw [hop, hnobody])
  have hmem : ∀ a, owner a ≠ .nobody →
      Function.update s.memory op ⟨req.record, none⟩ a = s.memory a :=
    fun a ha => Function.update_of_ne (hother a ha) _ _
  have howner : ∀ a, owner a ≠ .nobody → Function.update owner op (.thread i) a = owner a :=
    fun a ha => handOver_of_ne _ (by rwa [hnobody])
  refine
    { hi with
      queue := hi.queue.congr fun c hc => hmem c.1 (by simp [hi.queue_owns c hc])
      fifo := ?_
      live_iff := ?_
      queue_owns := fun c hc => ?_
      thread_owns := ?_
      loop_owns := fun a ha => ?_
      wake_ok := ?_
      never_clearing := ?_ }
  · have hflight := hi.inFlight_congr fun a ha => congrArg Cell.val (hmem a (by simp [ha]))
    have hfifo := hi.fifo
    rw [← hflight] at hfifo
    exact hfifo
  · intro a
    by_cases ha : a = op
    · simp [QueueState.goto, ha]
    · simp only [QueueState.goto, Function.update_of_ne ha]
      exact hi.live_iff a
  · rw [howner c.1 (by simp [hi.queue_owns c hc])]
    exact hi.queue_owns c hc
  · intro j op' req' hj
    by_cases hij : j = i
    · subst hij
      simp only [QueueState.goto, Function.update_self, ProducerPc.allocated.injEq] at hj
      obtain ⟨rfl, rfl⟩ := hj
      simp [QueueState.goto]
    · obtain ⟨hown, hrec⟩ := hi.thread_owns j op' req' (by simpa [QueueState.goto, hij] using hj)
      have hne : owner op' ≠ .nobody := by simp [hown]
      exact ⟨(howner op' hne).trans hown, (hmem op' hne).trans hrec⟩
  · rw [howner a (by simp [hi.loop_owns a ha])]
    exact hi.loop_owns a ha
  · intro hidle hne
    rcases hi.wake_ok hidle hne with ⟨j, hj⟩ | hbyte
    · have hij : j ≠ i := fun hij => by simp [hij, hpc] at hj
      exact .inl ⟨j, by simpa [QueueState.goto, hij] using hj⟩
    · exact .inr hbyte
  · intro j
    by_cases hij : j = i
    · simp [QueueState.goto, hij]
    · simpa [QueueState.goto, hij] using hi.never_clearing j

/-- A refused record goes back to the allocator; the queue is as it was. -/
theorem QueueInv.refuse (hi : QueueInv s cells owner) {i : τ} {op : ℕ} {req : TextRequest}
    (hpc : s.producer i = .allocated op req) :
    QueueInv ((s.release op).goto i .idle) cells (Function.update owner op .nobody) := by
  have hown := (hi.thread_owns i op req hpc).1
  have hother : ∀ a, owner a ≠ .thread i → Function.update owner op .nobody a = owner a :=
    fun a ha => handOver_of_ne _ (by rwa [hown])
  refine
    { hi with
      fifo := hi.fifo
      live_iff := ?_
      queue_owns := fun c hc => ?_
      thread_owns := ?_
      loop_owns := fun a ha => ?_
      wake_ok := ?_
      never_clearing := ?_ }
  · intro a
    by_cases ha : a = op
    · simp [QueueState.goto, QueueState.release, ha]
    · simp only [QueueState.goto, QueueState.release, Function.update_of_ne ha]
      exact hi.live_iff a
  · rw [hother c.1 (by simp [hi.queue_owns c hc])]
    exact hi.queue_owns c hc
  · intro j op' req' hj
    by_cases hij : j = i
    · simp [QueueState.goto, hij] at hj
    · obtain ⟨hown', hrec⟩ := hi.thread_owns j op' req'
        (by simpa [QueueState.goto, QueueState.release, hij] using hj)
      exact ⟨(hother op' (by simp [hown', hij])).trans hown', hrec⟩
  · rw [hother a (by simp [hi.loop_owns a ha])]
    exact hi.loop_owns a ha
  · intro hidle hne
    rcases hi.wake_ok hidle hne with ⟨j, hj⟩ | hbyte
    · have hij : j ≠ i := fun hij => by simp [hij, hpc] at hj
      exact .inl ⟨j, by simpa [QueueState.goto, QueueState.release, hij] using hj⟩
    · exact .inr hbyte
  · intro j
    by_cases hij : j = i
    · simp [QueueState.goto, hij]
    · simpa [QueueState.goto, QueueState.release, hij] using hi.never_clearing j

/-- An accepted record becomes the last cell of the queue. -/
theorem QueueInv.accept (hi : QueueInv s cells owner) {i : τ} {op : ℕ} {req : TextRequest}
    (hpc : s.producer i = .allocated op req) (hok : (enqueueTextOp s op).1 = true) :
    QueueInv ({ (enqueueTextOp s op).2 with accepted := s.accepted ++ [req] }.goto i .queued)
      (cells ++ [(op, req.record)]) (Function.update owner op .queue) := by
  obtain ⟨hown, hrec⟩ := hi.thread_owns i op req hpc
  have hroom : ¬ (cells.length ≥ pendingTextMaxCount ∨
      queuedBytes cells + req.record.bytes > pendingTextMaxBytes) := by
    rw [← hi.enqueueTextOp_refused_iff hpc, hok]
    simp
  rw [not_or, not_le, not_lt] at hroom
  obtain ⟨hcount, hbytes⟩ := hroom
  have hsum : queuedBytes (cells ++ [(op, req.record)]) =
      queuedBytes cells + req.record.bytes := by
    simp [queuedBytes]
  have hother : ∀ a, owner a ≠ .thread i → Function.update owner op .queue a = owner a :=
    fun a ha => handOver_of_ne _ (by rwa [hown])
  have hafter : (enqueueTextOp s op).2 =
      { s with
        memory := link s.memory s.pendingTextTail op
        pendingTextHead := if s.pendingTextTail = none then some op else s.pendingTextHead
        pendingTextTail := some op
        pendingTextCount := cells.length + 1
        pendingTextBytes := queuedBytes cells + req.record.bytes } := by
    unfold enqueueTextOp at hok ⊢
    split at hok
    · simp at hok
    · rename_i hnot
      simp only [pendingTextMaxBytes] at hbytes
      simp only [pendingTextMaxCount] at hcount
      have hcount' : sizeAdd cells.length 1 = cells.length + 1 := sizeAdd_eq (by omega)
      have hbytes' : sizeAdd (queuedBytes cells) req.record.bytes =
          queuedBytes cells + req.record.bytes := sizeAdd_eq (by omega)
      rw [if_neg hnot, hrec, hi.count_eq, hi.bytes_eq, hcount', hbytes']
  have hnot : op ∉ cells.map Prod.fst := hi.not_queued (by simp [hown])
  have hqueue := hi.queue.push hnot (by rw [hrec])
  rw [hrec] at hqueue
  rw [hafter]
  refine
    { ready := hi.ready
      queue := hqueue
      count_eq := by simp [QueueState.goto]
      bytes_eq := hsum.symm
      count_le := by simpa using hcount
      bytes_le := by rw [hsum]; exact hbytes
      fifo := ?_
      live_iff := ?_
      queue_owns := ?_
      thread_owns := ?_
      loop_owns := fun a ha => ?_
      wake_ok := fun _ _ => .inl ⟨i, by simp [QueueState.goto]⟩
      never_clearing := ?_ }
  · have hflight := hi.inFlight_congr fun a _ => link_val s.memory s.pendingTextTail op a
    have hfifo := hi.fifo
    rw [← hflight] at hfifo
    simp only [QueueState.goto, List.map_append, hfifo, List.map_cons, List.map_nil,
      dispatchOf_record, List.append_assoc]
    rfl
  · intro a
    by_cases ha : a = op
    · subst ha
      simp [QueueState.goto, (hi.live_iff a).mpr (by simp [hown])]
    · simp only [QueueState.goto, Function.update_of_ne ha]
      exact hi.live_iff a
  · intro c hc
    rcases List.mem_append.mp hc with hc | hc
    · rw [hother c.1 (by simp [hi.queue_owns c hc])]
      exact hi.queue_owns c hc
    · obtain rfl := List.mem_singleton.mp hc
      simp
  · intro j op' req' hj
    by_cases hij : j = i
    · simp [QueueState.goto, hij] at hj
    · obtain ⟨hown', hrec'⟩ := hi.thread_owns j op' req' (by simpa [QueueState.goto, hij] using hj)
      refine ⟨(hother op' (by simp [hown', hij])).trans hown', ?_⟩
      -- linking changes the old tail only, and that is the queue's
      refine (link_of_ne s.memory op fun htail => ?_).trans hrec'
      simp [hi.tail_owned htail] at hown'
  · rw [hother a (by simp [hi.loop_owns a ha])]
    exact hi.loop_owns a ha
  · intro j
    by_cases hij : j = i
    · simp [QueueState.goto, hij]
    · simpa [QueueState.goto, hij] using hi.never_clearing j

end Threads

theorem QueueInv.wake (hi : QueueInv s cells owner) :
    QueueInv { s with pipe := s.pipe.write 't' } cells owner :=
  { hi with
    fifo := hi.fifo
    -- appended or refused with `EAGAIN`, the pipe now has a byte
    wake_ok := fun _ _ => .inr (Pipe.unread_write s.pipe 't') }

/-! ### The event loop's steps keep the invariant -/

/-- The event loop moves to a busy place where it holds what it held. -/
theorem QueueInv.advance (hi : QueueInv s cells owner) {pc : ConsumerPc} (hbusy : pc ≠ .idle)
    (hholds : ∀ op, pc.Holds op → s.consumer.Holds op)
    (hflight : { s with consumer := pc }.inFlight = s.inFlight) :
    QueueInv { s with consumer := pc } cells owner :=
  { hi with
    fifo := by rw [hflight]; exact hi.fifo
    loop_owns := fun op hop => hi.loop_owns op (hholds op hop)
    wake_ok := fun hidle => absurd hidle hbusy }

theorem QueueInv.drain (hi : QueueInv s cells owner) (hpc : s.consumer = .draining) :
    QueueInv { s with pipe := (s.pipe.read drainBufSize).2 } cells owner :=
  { hi with
    fifo := hi.fifo
    wake_ok := fun hidle => absurd (hpc.symm.trans hidle) (by simp) }

/-- The event loop goes idle only over an empty queue. -/
theorem QueueInv.popEmpty (hi : QueueInv s cells owner) (hpc : s.consumer = .popping)
    (hhead : s.pendingTextHead = none) :
    cells = [] ∧ QueueInv { s with consumer := .idle } [] owner := by
  have hqueue := hi.queue
  rw [hhead] at hqueue
  obtain rfl := hqueue.head_none
  have hfifo := hi.fifo
  simp only [QueueState.inFlight, hpc] at hfifo
  exact ⟨rfl, { hi with
    fifo := hfifo
    loop_owns := fun op hop => absurd hop (by simp [ConsumerPc.Holds])
    wake_ok := fun _ hne => absurd rfl hne }⟩

/-- Popping hands the front cell to the event loop. -/
theorem QueueInv.pop (hi : QueueInv s cells owner) (hpc : s.consumer = .popping) {op : ℕ}
    (hhead : s.pendingTextHead = some op) :
    ∃ rest, cells = (op, (s.memory op).val) :: rest ∧
      QueueInv { (popTextOp s).2 with consumer := .dispatching op } rest
        (Function.update owner op .eventLoop) := by
  have hqueue := hi.queue
  rw [hhead] at hqueue
  obtain ⟨rest, rfl, hnot, hrest⟩ := hqueue.pop
  refine ⟨rest, rfl, ?_⟩
  have hown : owner op = .queue := hi.queue_owns (op, (s.memory op).val) (List.mem_cons_self ..)
  have hcount := hi.count_le
  have hbytes := hi.bytes_le
  have hsum : queuedBytes ((op, (s.memory op).val) :: rest) =
      (s.memory op).val.bytes + queuedBytes rest := by
    simp [queuedBytes]
  simp only [List.length_cons, pendingTextMaxCount] at hcount
  rw [hsum, pendingTextMaxBytes] at hbytes
  have hafter : (popTextOp s).2 =
      { s with
        pendingTextHead := (s.memory op).next
        pendingTextTail := if (s.memory op).next = none then none else s.pendingTextTail
        pendingTextCount := rest.length
        pendingTextBytes := queuedBytes rest } := by
    simp only [popTextOp, hhead, hi.count_eq, hi.bytes_eq, hsum, List.length_cons]
    rw [sizeSub_eq (by omega) (by omega), sizeSub_eq (by omega) (by omega),
      Nat.add_sub_cancel, Nat.add_sub_cancel_left]
  have hother : ∀ a, a ≠ op → Function.update owner op .eventLoop a = owner a :=
    fun a ha => Function.update_of_ne ha _ _
  rw [hafter]
  refine
    { ready := hi.ready
      queue := hrest
      count_eq := rfl
      bytes_eq := rfl
      count_le := by simp only [pendingTextMaxCount]; omega
      bytes_le := by simp only [pendingTextMaxBytes]; omega
      fifo := ?_
      live_iff := ?_
      queue_owns := fun c hc => ?_
      thread_owns := ?_
      loop_owns := ?_
      wake_ok := fun hidle => absurd hidle (by simp)
      never_clearing := hi.never_clearing }
  · have hfifo := hi.fifo
    simp only [QueueState.inFlight, hpc] at hfifo
    simp only [QueueState.inFlight, hfifo, List.append_nil, List.map_cons, List.append_assoc,
      List.cons_append, List.nil_append]
  · intro a
    by_cases ha : a = op
    · subst ha
      simp [(hi.live_iff a).mpr (by simp [hown])]
    · rw [hother a ha]
      exact hi.live_iff a
  · rw [hother c.1 fun hop => hnot (hop ▸ List.mem_map_of_mem hc)]
    exact hi.queue_owns c (List.mem_cons_of_mem _ hc)
  · intro i op' req hi'
    obtain ⟨hown', hrec⟩ := hi.thread_owns i op' req hi'
    exact ⟨(hother op' fun hop => by simp [hop, hown] at hown').trans hown', hrec⟩
  · intro a ha
    obtain rfl : op = a := ha
    simp

theorem QueueInv.dispatch (hi : QueueInv s cells owner) {op : ℕ}
    (hpc : s.consumer = .dispatching op) :
    QueueInv { s with
      consumer := .freeing op
      dispatched := s.dispatched ++ [dispatchOf (s.memory op).val] } cells owner := by
  have hfifo := hi.fifo
  have howns := hi.loop_owns
  simp only [QueueState.inFlight, hpc] at hfifo
  simp only [hpc] at howns
  exact { hi with
    fifo := by simpa [QueueState.inFlight] using hfifo
    loop_owns := howns
    wake_ok := fun hidle => absurd hidle (by simp) }

theorem QueueInv.free (hi : QueueInv s cells owner) {op : ℕ} (hpc : s.consumer = .freeing op) :
    QueueInv { s.release op with consumer := .popping } cells
      (Function.update owner op .nobody) := by
  have hown : owner op = .eventLoop := hi.loop_owns op (by rw [hpc]; rfl)
  have hother : ∀ a, owner a ≠ .eventLoop → Function.update owner op .nobody a = owner a :=
    fun a ha => handOver_of_ne _ (by rwa [hown])
  have hfifo := hi.fifo
  simp only [QueueState.inFlight, hpc] at hfifo
  refine
    { hi with
      fifo := hfifo
      live_iff := ?_
      queue_owns := fun c hc => ?_
      thread_owns := ?_
      loop_owns := fun a ha => absurd ha (by simp [ConsumerPc.Holds])
      wake_ok := fun hidle => absurd hidle (by simp) }
  · intro a
    by_cases ha : a = op
    · simp [QueueState.release, ha]
    · simp only [QueueState.release, Function.update_of_ne ha]
      exact hi.live_iff a
  · rw [hother c.1 (by simp [hi.queue_owns c hc])]
    exact hi.queue_owns c hc
  · intro i op' req hi'
    obtain ⟨hown', hrec⟩ := hi.thread_owns i op' req hi'
    exact ⟨(hother op' (by simp [hown'])).trans hown', hrec⟩

end Invariant

/-- **Every step of every thread keeps the invariant.** -/
theorem QueueInv.next [DecidableEq τ] {s t : QueueState τ} {e : QueueStep τ}
    {cells : List (ℕ × PendingTextOp)} {owner : ℕ → Owner τ} (hi : QueueInv s cells owner)
    (h : s.next e = some t) : ∃ cells' owner', QueueInv t cells' owner' := by
  cases e with
  | call i req alloc =>
    simp only [QueueState.next] at h
    split at h
    · rename_i hpc
      split at h
      · exact ⟨cells, owner, Option.some.inj h ▸ hi⟩
      · split at h
        · exact ⟨cells, owner, Option.some.inj h ▸ hi⟩
        · split at h
          · simp at h
          · rename_i hfree
            exact ⟨_, _, Option.some.inj h ▸ hi.allocate hpc (by simpa using hfree) req⟩
    · simp at h
  | enqueue i =>
    simp only [QueueState.next] at h
    split at h
    · rename_i op req hpc
      split at h
      · rename_i hok
        exact ⟨_, _, Option.some.inj h ▸ hi.accept hpc hok⟩
      · rename_i hrefused
        have hafter : (enqueueTextOp s op).2 = s.release op := by
          unfold enqueueTextOp at hrefused ⊢
          split at hrefused
          · rename_i hfull
            rw [if_pos hfull]
          · simp at hrefused
        rw [hafter] at h
        exact ⟨_, _, Option.some.inj h ▸ hi.refuse hpc⟩
    · simp at h
  | wake i =>
    have hbyte := Pipe.unread_write s.pipe 't'
    have hwake : wakeTextInputLoop s = (true, { s with pipe := s.pipe.write 't' }) := by
      simp [wakeTextInputLoop, hi.ready]
    have hnext : QueueInv ({ s with pipe := s.pipe.write 't' }.goto i .idle) cells owner :=
      hi.wake.goto (by simp) (by simp) fun _ => .inr hbyte
    simp only [QueueState.next, hwake, if_true] at h
    split at h
    · exact ⟨_, _, Option.some.inj h ▸ hnext⟩
    · simp at h
  | clear i =>
    simp only [QueueState.next] at h
    split at h
    · rename_i hpc
      exact absurd hpc (hi.never_clearing i)
    · simp at h
  | callback =>
    simp only [QueueState.next] at h
    split at h
    · rename_i hpc
      refine ⟨cells, owner, Option.some.inj h ▸ hi.advance (by simp) ?_ ?_⟩
      · exact fun op hop => absurd hop (by simp [ConsumerPc.Holds])
      · simp [QueueState.inFlight, hpc]
    · simp at h
  | drain =>
    simp only [QueueState.next] at h
    split at h
    · rename_i hpc
      split at h
      · refine ⟨cells, owner, Option.some.inj h ▸ hi.advance (by simp) ?_ ?_⟩
        · exact fun op hop => absurd hop (by simp [ConsumerPc.Holds])
        · simp [QueueState.inFlight, hpc]
      · exact ⟨cells, owner, Option.some.inj h ▸ hi.drain hpc⟩
    · simp at h
  | pop =>
    simp only [QueueState.next] at h
    split at h
    · rename_i hpc
      cases hhead : s.pendingTextHead with
      | none =>
        have hpop : popTextOp s = (none, s) := by simp only [popTextOp, hhead]
        rw [hpop] at h
        exact ⟨_, _, Option.some.inj h ▸ (hi.popEmpty hpc hhead).2⟩
      | some op =>
        obtain ⟨rest, -, hi'⟩ := hi.pop hpc hhead
        simp only [popTextOp, hhead] at h hi'
        exact ⟨_, _, Option.some.inj h ▸ hi'⟩
    · simp at h
  | dispatch =>
    simp only [QueueState.next] at h
    split at h
    · rename_i hpc
      exact ⟨_, _, Option.some.inj h ▸ hi.dispatch hpc⟩
    · simp at h
  | free =>
    simp only [QueueState.next] at h
    split at h
    · rename_i hpc
      exact ⟨_, _, Option.some.inj h ▸ hi.free hpc⟩
    · simp at h

theorem queueInv_of_reachable [DecidableEq τ] {s : QueueState τ}
    (h : (queueSystem τ).Reachable s) : ∃ cells owner, QueueInv s cells owner :=
  h.invariant (I := fun s => ∃ cells owner, QueueInv s cells owner)
    (fun _ hs => ⟨_, _, queueInv_of_initial hs⟩) (fun _ _ _ ⟨_, _, hi⟩ hstep => hi.next hstep)

/-! ### Progress of the event loop -/

/-- The steps of the event loop. -/
def QueueStep.isEventLoop : QueueStep τ → Bool
  | .callback | .drain | .pop | .dispatch | .free => true
  | _ => false

/-- The event loop alone can take `s` to a place where it is idle again and has dispatched
everything accepted. -/
def DispatchesAll [DecidableEq τ] (s : QueueState τ) : Prop :=
  ∃ steps t, (∀ e ∈ steps, QueueStep.isEventLoop e = true) ∧
    runNext QueueState.next s steps = some t ∧ t.consumer = .idle ∧
      t.dispatched = s.accepted.map TextRequest.expected

section Progress

variable [DecidableEq τ] {s : QueueState τ} {cells : List (ℕ × PendingTextOp)}
  {owner : ℕ → Owner τ}

theorem DispatchesAll.of_next {t : QueueState τ} (ht : DispatchesAll t) (e : QueueStep τ)
    (he : e.isEventLoop = true) (hstep : s.next e = some t) (hsame : t.accepted = s.accepted) :
    DispatchesAll s := by
  obtain ⟨steps, u, hall, hrun, hidle, hdisp⟩ := ht
  refine ⟨e :: steps, u, ?_, ?_, hidle, hsame ▸ hdisp⟩
  · intro d hd
    rcases List.mem_cons.mp hd with rfl | hd
    · exact he
    · exact hall d hd
  · rw [runNext, hstep]
    exact hrun

theorem DispatchesAll.of_freeing {op : ℕ} (hpc : s.consumer = .freeing op)
    (h : DispatchesAll { s.release op with consumer := .popping }) : DispatchesAll s := by
  refine h.of_next .free rfl ?_ rfl
  simp only [QueueState.next, hpc]

theorem DispatchesAll.of_dispatching {op : ℕ} (hpc : s.consumer = .dispatching op)
    (h : DispatchesAll { s with
      consumer := .freeing op
      dispatched := s.dispatched ++ [dispatchOf (s.memory op).val] }) : DispatchesAll s := by
  refine h.of_next .dispatch rfl ?_ rfl
  simp only [QueueState.next, hpc]

/-- Popping, dispatching and freeing until the queue is empty. -/
theorem QueueInv.dispatchesAll_popping (cells : List (ℕ × PendingTextOp)) :
    ∀ {s : QueueState τ} {owner : ℕ → Owner τ}, QueueInv s cells owner →
      s.consumer = .popping → DispatchesAll s := by
  induction cells with
  | nil =>
    intro s owner hi hpc
    have hhead : s.pendingTextHead = none := hi.queue.chain
    have hfifo := hi.fifo
    simp only [QueueState.inFlight, hpc, List.map_nil, List.append_nil] at hfifo
    refine ⟨[.pop], { s with consumer := .idle }, by simp [QueueStep.isEventLoop], ?_, rfl,
      hfifo.symm⟩
    simp [runNext, QueueState.next, hpc, popTextOp, hhead]
  | cons c rest ih =>
    intro s owner hi hpc
    have hhead : s.pendingTextHead = some c.1 := hi.queue.chain.1
    obtain ⟨rest', hcells, hpopped⟩ := hi.pop hpc hhead
    obtain ⟨-, rfl⟩ := List.cons.inj hcells
    have hdispatched := hpopped.dispatch rfl
    have hrest := ih (hdispatched.free rfl) rfl
    have hpop : s.next .pop = some { (popTextOp s).2 with consumer := .dispatching c.1 } := by
      simp only [QueueState.next, hpc, popTextOp, hhead]
    have hsame : (popTextOp s).2.accepted = s.accepted := by
      simp only [popTextOp, hhead]
    exact ((hrest.of_freeing rfl).of_dispatching rfl).of_next .pop rfl hpop hsame

/-- Reading until the pipe is empty, then popping. -/
theorem QueueInv.dispatchesAll_draining (n : ℕ) :
    ∀ {s : QueueState τ}, s.pipe.unread.length ≤ n → QueueInv s cells owner →
      s.consumer = .draining → DispatchesAll s := by
  induction n with
  | zero =>
    intro s hn hi hpc
    have hempty : s.pipe.unread = [] := List.eq_nil_of_length_eq_zero (by omega)
    have hpop := hi.advance (by simp : ConsumerPc.popping ≠ .idle)
      (fun op hop => absurd hop (by simp [ConsumerPc.Holds])) (by simp [QueueState.inFlight, hpc])
    refine (QueueInv.dispatchesAll_popping cells hpop rfl).of_next .drain rfl ?_ rfl
    simp [QueueState.next, hpc, hempty]
  | succ n ih =>
    intro s hn hi hpc
    by_cases hempty : s.pipe.unread = []
    · exact ih (by simp [hempty]) hi hpc
    · have hpos : 0 < s.pipe.unread.length := List.length_pos_iff.mpr hempty
      have hless : ((s.pipe.read drainBufSize).2.unread).length ≤ n := by
        rw [Pipe.read_unread, List.length_drop, drainBufSize]
        omega
      have hread : (s.pipe.read drainBufSize).1 ≠ [] := by
        simp [drainBufSize, hempty]
      refine (ih hless (hi.drain hpc) hpc).of_next .drain rfl ?_ rfl
      simp only [QueueState.next, hpc, hread, if_false]

/-- **No operation is left behind.**  Once the event loop has entered its callback it can, on its
own, go on until everything accepted is dispatched. -/
theorem QueueInv.dispatchesAll (hi : QueueInv s cells owner) (hbusy : s.consumer ≠ .idle) :
    DispatchesAll s := by
  cases hpc : s.consumer with
  | idle => exact absurd hpc hbusy
  | draining => exact QueueInv.dispatchesAll_draining _ le_rfl hi hpc
  | popping => exact QueueInv.dispatchesAll_popping cells hi hpc
  | dispatching op =>
    have hrest := QueueInv.dispatchesAll_popping cells ((hi.dispatch hpc).free rfl) rfl
    exact (hrest.of_freeing rfl).of_dispatching hpc
  | freeing op =>
    exact (QueueInv.dispatchesAll_popping cells (hi.free hpc) rfl).of_freeing hpc

end Progress

/-! ### What the queue guarantees -/

/-- The queue's globals and the memory its list lives in are the same. -/
def SameQueue (s t : QueueState τ) : Prop :=
  t.memory = s.memory ∧ t.pendingTextHead = s.pendingTextHead ∧
    t.pendingTextTail = s.pendingTextTail ∧ t.pendingTextCount = s.pendingTextCount ∧
      t.pendingTextBytes = s.pendingTextBytes

/-- What a user of the queue relies on, for the list `cells` of queued records. -/
structure QueueGuarantee [DecidableEq τ] (s : QueueState τ) (cells : List (ℕ × PendingTextOp)) :
    Prop where
  /-- Every accepted operation is dispatched, being dispatched or queued, once and in order. -/
  fifo : s.accepted.map TextRequest.expected =
    s.dispatched ++ s.inFlight ++ cells.map fun c => dispatchOf c.2
  /-- Head, tail and links agree on the list. -/
  linked : IsQueue s.memory s.pendingTextHead s.pendingTextTail cells
  count_eq : s.pendingTextCount = cells.length
  count_le : s.pendingTextCount ≤ 256
  bytes_eq : s.pendingTextBytes = queuedBytes cells
  bytes_le : s.pendingTextBytes ≤ 256 * 1024
  /-- No record in use was freed. -/
  queued_live : ∀ c ∈ cells, s.live c.1 = true
  inUse_live : ∀ op, s.consumer.Holds op → s.live op = true
  /-- A refused operation leaves the queue as it is. -/
  refused : ∀ op, (enqueueTextOp s op).1 = false → SameQueue s (enqueueTextOp s op).2
  /-- No lost wake-up. -/
  wake_pending : (∀ i, s.producer i = .idle) → s.consumer = .idle → cells ≠ [] →
    s.pipe.unread ≠ []
  dispatches : s.consumer ≠ .idle → DispatchesAll s

theorem QueueInv.guarantee [DecidableEq τ] {s : QueueState τ} {cells : List (ℕ × PendingTextOp)}
    {owner : ℕ → Owner τ} (hi : QueueInv s cells owner) : QueueGuarantee s cells := by
  refine
    { fifo := hi.fifo
      linked := hi.queue
      count_eq := hi.count_eq
      count_le := hi.count_eq ▸ hi.count_le
      bytes_eq := hi.bytes_eq
      bytes_le := hi.bytes_eq ▸ hi.bytes_le
      queued_live := fun c hc => (hi.live_iff c.1).mpr (by simp [hi.queue_owns c hc])
      inUse_live := fun op hop => (hi.live_iff op).mpr (by simp [hi.loop_owns op hop])
      refused := ?_
      wake_pending := ?_
      dispatches := hi.dispatchesAll }
  · intro op hrefused
    unfold enqueueTextOp at hrefused ⊢
    split at hrefused
    · rename_i hfull
      rw [if_pos hfull]
      exact ⟨rfl, rfl, rfl, rfl, rfl⟩
    · simp at hrefused
  · intro hidle hpc hne
    rcases hi.wake_ok hpc hne with ⟨i, hi'⟩ | hbyte
    · simp [hidle i] at hi'
    · exact hbyte

/-- **The queue delivers.**  In every state that any interleaving of the JNI threads and the event
loop reaches, some list of records is exactly what the pointers, counters and history describe:
each accepted operation is dispatched once and in order, the bounds hold, refusals change nothing,
and nothing queued is left without a wake-up. -/
theorem queueGuarantee_of_reachable [DecidableEq τ] {s : QueueState τ}
    (h : (queueSystem τ).Reachable s) : ∃ cells, QueueGuarantee s cells := by
  obtain ⟨cells, owner, hi⟩ := queueInv_of_reachable h
  exact ⟨cells, hi.guarantee⟩

/-- Nothing queued, over a pipe of one byte. -/
def emptyQueue : QueueState Bool where
  memory := fun _ => ⟨enqueueTextDelete 0 0 false, none⟩
  live := fun _ => false
  pendingTextHead := none
  pendingTextTail := none
  pendingTextCount := 0
  pendingTextBytes := 0
  pipeReady := true
  pipe := Pipe.empty 1 (by decide)
  producer := fun _ => .idle
  consumer := .idle
  accepted := []
  dispatched := []

theorem emptyQueue_initial : emptyQueue.Initial :=
  ⟨fun _ => rfl, rfl, rfl, rfl, rfl, rfl, fun _ => rfl, rfl, rfl, rfl⟩

/-- Two threads whose calls overlap, and the event loop popping the first operation. -/
def overlappingCalls : List (QueueStep Bool) :=
  [.call true (.deleteSurroundingText 300 0) (some 7), .call false (.deleteSurroundingText 1 2)
    (some 3), .enqueue false, .enqueue true, .wake true, .callback, .drain, .drain, .wake false,
    .pop, .dispatch]

/-- Where they lead. -/
def overlapped : QueueState Bool :=
  (runNext QueueState.next emptyQueue overlappingCalls).getD emptyQueue

theorem runNext_overlappingCalls :
    runNext QueueState.next emptyQueue overlappingCalls = some overlapped := rfl

theorem queueGuarantee_of_overlappingCalls :
    overlapped.dispatched = [.deleteSurroundingText 1 2 false] ∧
      ∃ cells, QueueGuarantee overlapped cells :=
  ⟨by rfl, queueGuarantee_of_reachable
    (System.reachable_runNext (.start emptyQueue_initial) runNext_overlappingCalls)⟩

end Wldroid.Ime
