import Wldroid.Foundation.JavaStrings
import Wldroid.Ime.State

/-!
# Committed text

`nativeCommitText` from the Java string to the client: the modified UTF-8 of the JNI is copied into
the queue as a C string, and the event loop passes it on as it is.

* `nativeCommitText` — the request;
* `NonemptyInv` — nothing empty is accepted;
* **`commitString_unchanged_iff`** — the client gets the text in UTF-8 exactly if it has no
  character beyond the basic plane;
* `emoji_in_six_bytes` — one that has.
-/

namespace Wldroid.Ime

open Wldroid.Foundation

variable {τ : Type}

/-- `native_commit_text`, on a non-null string. -/
def nativeCommitText (text : JavaString) : TextRequest := .commitText (getStringUTFChars text)

/-! ### What is accepted -/

/-- Requests with nothing in them are turned away before they are queued. -/
structure NonemptyInv (s : QueueState τ) : Prop where
  allocated : ∀ (i : τ) (op : ℕ) (req : TextRequest), s.producer i = .allocated op req →
    req.isEmpty = false
  accepted : ∀ req ∈ s.accepted, req.isEmpty = false

namespace NonemptyInv

variable {s t : QueueState τ}

/-- The same threads, and the same requests. -/
theorem congr (h : NonemptyInv s) (hproducer : t.producer = s.producer)
    (haccepted : t.accepted = s.accepted) : NonemptyInv t := by
  refine ⟨fun i op req hi => ?_, fun req hreq => ?_⟩
  · rw [hproducer] at hi
    exact h.allocated i op req hi
  · rw [haccepted] at hreq
    exact h.accepted req hreq

/-- A thread moves to a place where it has no record. -/
theorem goto [DecidableEq τ] (h : NonemptyInv s) (i : τ) {pc : ProducerPc}
    (hpc : ∀ (op : ℕ) (req : TextRequest), pc = .allocated op req → req.isEmpty = false) :
    NonemptyInv (s.goto i pc) := by
  refine ⟨fun j op req hj => ?_, h.accepted⟩
  have hj : Function.update s.producer i pc j = .allocated op req := hj
  by_cases hsame : j = i
  · rw [hsame, Function.update_self] at hj
    exact hpc op req hj
  · rw [Function.update_of_ne hsame] at hj
    exact h.allocated j op req hj

theorem popTextOp (h : NonemptyInv s) : NonemptyInv (popTextOp s).2 := by
  unfold Ime.popTextOp
  split
  · exact h
  · exact h.congr rfl rfl

theorem enqueueTextOp (h : NonemptyInv s) (op : ℕ) : NonemptyInv (enqueueTextOp s op).2 := by
  unfold Ime.enqueueTextOp
  split
  · exact h.congr rfl rfl
  · exact h.congr rfl rfl

/-- One more request is accepted. -/
theorem accept (h : NonemptyInv s) {req : TextRequest} (hreq : req.isEmpty = false) :
    NonemptyInv { s with accepted := s.accepted ++ [req] } := by
  refine ⟨h.allocated, fun other hother => ?_⟩
  obtain hold | hnew := List.mem_append.mp hother
  · exact h.accepted other hold
  · rw [List.mem_singleton.mp hnew]
    exact hreq

theorem call [DecidableEq τ] (h : NonemptyInv s) {i : τ} {req : TextRequest} {alloc : Option ℕ}
    (hstep : s.next (.call i req alloc) = some t) : NonemptyInv t := by
  unfold QueueState.next at hstep
  cases hpc : s.producer i with
  | idle =>
    simp only [hpc] at hstep
    split at hstep
    · cases hstep
      exact h
    · rename_i hgoes
      have hreq : req.isEmpty = false := by
        rw [Bool.not_eq_true, Bool.or_eq_false_iff] at hgoes
        exact hgoes.1
      cases alloc with
      | none =>
        cases hstep
        exact h
      | some op =>
        simp only at hstep
        split at hstep
        · cases hstep
        · cases hstep
          apply NonemptyInv.goto
          · exact h.congr rfl rfl
          · intro op' req' heq
            cases heq
            exact hreq
  | allocated op req => simp [hpc] at hstep
  | queued => simp [hpc] at hstep
  | clearing => simp [hpc] at hstep

theorem enqueue [DecidableEq τ] (h : NonemptyInv s) {i : τ} (hstep : s.next (.enqueue i) = some t) :
    NonemptyInv t := by
  unfold QueueState.next at hstep
  cases hpc : s.producer i with
  | allocated op req =>
    simp only [hpc] at hstep
    have hqueued := h.enqueueTextOp op
    split at hstep
    · cases hstep
      have haccepted : (Ime.enqueueTextOp s op).2.accepted = s.accepted := by
        unfold Ime.enqueueTextOp
        split <;> rfl
      rw [← haccepted]
      exact (hqueued.accept (h.allocated i op req hpc)).goto i nofun
    · cases hstep
      exact hqueued.goto i nofun
  | idle => simp [hpc] at hstep
  | queued => simp [hpc] at hstep
  | clearing => simp [hpc] at hstep

theorem wake [DecidableEq τ] (h : NonemptyInv s) {i : τ} (hstep : s.next (.wake i) = some t) :
    NonemptyInv t := by
  unfold QueueState.next at hstep
  cases hpc : s.producer i with
  | queued =>
    simp only [hpc] at hstep
    split at hstep
    · cases hstep
      refine NonemptyInv.goto ?_ i nofun
      unfold wakeTextInputLoop
      split
      · exact h.congr rfl rfl
      · exact h
    · cases hstep
      exact h.goto i nofun
  | idle => simp [hpc] at hstep
  | allocated op req => simp [hpc] at hstep
  | clearing => simp [hpc] at hstep

theorem clear [DecidableEq τ] (h : NonemptyInv s) {i : τ} (hstep : s.next (.clear i) = some t) :
    NonemptyInv t := by
  unfold QueueState.next at hstep
  cases hpc : s.producer i with
  | clearing =>
    simp only [hpc] at hstep
    have hpopped := h.popTextOp
    split at hstep
    · cases hstep
      exact h.goto i nofun
    · rename_i op u hpop
      rw [hpop] at hpopped
      cases hstep
      exact hpopped.congr rfl rfl
  | idle => simp [hpc] at hstep
  | allocated op req => simp [hpc] at hstep
  | queued => simp [hpc] at hstep

/-- The event loop touches neither threads nor requests. -/
theorem eventLoop [DecidableEq τ] (h : NonemptyInv s) {e : QueueStep τ}
    (he : e = .callback ∨ e = .drain ∨ e = .pop ∨ e = .dispatch ∨ e = .free)
    (hstep : s.next e = some t) : NonemptyInv t := by
  have hpopped := h.popTextOp
  unfold QueueState.next at hstep
  obtain rfl | rfl | rfl | rfl | rfl := he
  · cases hpc : s.consumer <;> simp only [hpc] at hstep <;> cases hstep
    exact h.congr rfl rfl
  · cases hpc : s.consumer <;> simp only [hpc] at hstep <;> try cases hstep
    split at hstep <;> cases hstep <;> exact h.congr rfl rfl
  · cases hpc : s.consumer <;> simp only [hpc] at hstep <;> try cases hstep
    split at hstep
    · cases hstep
      exact h.congr rfl rfl
    · rename_i op u hpop
      rw [hpop] at hpopped
      cases hstep
      exact hpopped.congr rfl rfl
  · cases hpc : s.consumer <;> simp only [hpc] at hstep <;> cases hstep
    exact h.congr rfl rfl
  · cases hpc : s.consumer <;> simp only [hpc] at hstep <;> cases hstep
    exact h.congr rfl rfl

theorem next [DecidableEq τ] (h : NonemptyInv s) {e : QueueStep τ} (hstep : s.next e = some t) :
    NonemptyInv t := by
  cases e with
  | call i req alloc => exact h.call hstep
  | enqueue i => exact h.enqueue hstep
  | wake i => exact h.wake hstep
  | clear i => exact h.clear hstep
  | callback => exact h.eventLoop (.inl rfl) hstep
  | drain => exact h.eventLoop (.inr (.inl rfl)) hstep
  | pop => exact h.eventLoop (.inr (.inr (.inl rfl))) hstep
  | dispatch => exact h.eventLoop (.inr (.inr (.inr (.inl rfl)))) hstep
  | free => exact h.eventLoop (.inr (.inr (.inr (.inr rfl)))) hstep

theorem of_initial (h : s.Initial) : NonemptyInv s := by
  obtain ⟨-, -, -, -, -, -, hproducer, -, haccepted, -⟩ := h
  refine ⟨fun i op req hi => ?_, fun req hreq => ?_⟩
  · rw [hproducer] at hi
    cases hi
  · rw [haccepted] at hreq
    cases hreq

end NonemptyInv

theorem nonemptyInv_of_reachable [DecidableEq τ] {s : QueueState τ}
    (h : (queueSystem τ).Reachable s) :
    NonemptyInv s :=
  System.Reachable.invariant (fun _ => NonemptyInv.of_initial) (fun _ _ _ h => h.next) h

/-! ### What arrives -/

/-- What is dispatched in a place is what was accepted there. -/
theorem dispatched_eq_expected [DecidableEq τ] {s : QueueState τ}
    (h : (queueSystem τ).Reachable s) {k : ℕ}
    {req : TextRequest} {op : TextDispatch} (haccepted : s.accepted[k]? = some req)
    (hdispatched : s.dispatched[k]? = some op) : op = req.expected := by
  obtain ⟨cells, hguarantee⟩ := queueGuarantee_of_reachable h
  have hfifo := congrArg (fun l => l[k]?) hguarantee.fifo
  have hk : k < s.dispatched.length := (List.getElem?_eq_some_iff.mp hdispatched).1
  simp only [List.getElem?_map, haccepted, Option.map_some, List.append_assoc,
    List.getElem?_append_left hk, hdispatched] at hfifo
  exact (Option.some.inj hfifo).symm

/-- The client of `ti` gets the text, in UTF-8, and nothing else. -/
def GetsText (h h' : Handler) (ti : TextInput) (text : List Char) : Prop :=
  ∃ string : CString, string.bytes = utf8Encode text ∧
    h'.globals.log = h.globals.log ++
      [.commitString ti.resource string, .done ti.resource ti.serial]

/-- **Committed text.**  Some request is a text without U+0000, and is accepted and dispatched while
a text input is active.  Then its client gets the text in UTF-8 if and only if the text has no
character beyond the basic plane. -/
theorem commitString_unchanged_iff [DecidableEq τ] {s : QueueState τ}
    (hreachable : (queueSystem τ).Reachable s)
    {k : ℕ} {text : JavaString} {op : TextDispatch}
    (haccepted : s.accepted[k]? = some (nativeCommitText text))
    (hdispatched : s.dispatched[k]? = some op) {chars : List Char}
    (hwellFormed : text.units = utf16Encode chars) (hzero : ∀ c ∈ chars, c.toNat ≠ 0)
    {h : Handler} {ti : TextInput} (hactive : h.activeEnabled = some ti) (seat : Fallback) :
    GetsText h (dispatch h op seat) ti chars ↔ ∀ c ∈ chars, c.toNat ≤ 0xFFFF := by
  have hop : op = .commitText (some (getStringUTFChars text)) :=
    dispatched_eq_expected hreachable haccepted hdispatched
  have hnonempty : (getStringUTFChars text).bytes ≠ [] := by
    have hreq := (nonemptyInv_of_reachable hreachable).accepted _
      (List.mem_of_getElem? haccepted)
    simpa [nativeCommitText, TextRequest.isEmpty] using hreq
  have hlog : (dispatch h op seat).globals.log = h.globals.log ++
      [.commitString ti.resource (getStringUTFChars text), .done ti.resource ti.serial] := by
    rw [hop]
    unfold dispatch dispatchCommitText
    simp only [if_neg hnonempty, hactive]
    simp [Handler.send, Globals.send]
  have hbytes : (getStringUTFChars text).bytes = modifiedUtf8 (utf16Encode chars) := by
    rw [← hwellFormed]
    rfl
  rw [← modifiedUtf8_eq_iff hzero, ← hbytes, GetsText, hlog]
  constructor
  · rintro ⟨string, hstring, hsent⟩
    have hsame := List.append_cancel_left hsent
    cases hsame
    exact hstring
  · intro heq
    exact ⟨_, heq, rfl⟩

/-! ### Two texts -/

/-- A call of one thread and the event loop dispatching it. -/
def commitOnce (text : JavaString) : List (QueueStep Bool) :=
  [.call true (nativeCommitText text) (some 7), .enqueue true, .wake true, .callback, .drain,
    .drain, .pop, .dispatch]

/-- Where that leads. -/
def committedOnce (text : JavaString) : QueueState Bool :=
  (runNext QueueState.next emptyQueue (commitOnce text)).getD emptyQueue

theorem committedOnce_reachable {text : JavaString}
    (hrun : (runNext QueueState.next emptyQueue (commitOnce text)).isSome = true) :
    (queueSystem Bool).Reachable (committedOnce text) := by
  obtain ⟨s, hs⟩ := Option.isSome_iff_exists.mp hrun
  have hlast : committedOnce text = s := by
    rw [committedOnce, hs, Option.getD_some]
  rw [hlast]
  exact System.reachable_runNext (.start emptyQueue_initial) hs

/-- A handler whose client has enabled its text input. -/
def typingHandler : Handler where
  globals := ⟨some 1, true, none, none, true, []⟩
  textInputs := [{ TextInput.fresh 1 0 0 with currentEnabled := true }]
  surfaces := fun _ => none
  nextResource := 1

/-- The string `aé`. -/
def accented : JavaString := ⟨[0x61, 0xE9], by decide⟩

theorem getsText_accented :
    GetsText typingHandler
      (dispatch typingHandler (.commitText (some (getStringUTFChars accented))) ⟨false, none⟩)
      { TextInput.fresh 1 0 0 with currentEnabled := true } ['a', 'é'] :=
  (commitString_unchanged_iff (@committedOnce_reachable accented rfl)
    (show (committedOnce accented).accepted[0]? = some (nativeCommitText accented) from rfl) rfl
    (by decide) (by simp) rfl ⟨false, none⟩).mpr (by simp)

/-- The string `😀`, a surrogate pair. -/
def emoji : JavaString := ⟨[0xD83D, 0xDE00], by decide⟩

/-- It arrives as two times three bytes, which are no UTF-8. -/
theorem emoji_in_six_bytes :
    ¬ ∀ (s : QueueState Bool) (k : ℕ) (text : JavaString) (op : TextDispatch) (chars : List Char)
      (h : Handler) (ti : TextInput) (seat : Fallback), (queueSystem Bool).Reachable s →
      s.accepted[k]? = some (nativeCommitText text) → s.dispatched[k]? = some op →
      text.units = utf16Encode chars → (∀ c ∈ chars, c.toNat ≠ 0) → h.activeEnabled = some ti →
      GetsText h (dispatch h op seat) ti chars := by
  intro hall
  have hgets := hall (committedOnce emoji) 0 emoji
    (.commitText (some (getStringUTFChars emoji))) ['😀'] typingHandler
    { TextInput.fresh 1 0 0 with currentEnabled := true } ⟨false, none⟩
    (@committedOnce_reachable emoji rfl) rfl rfl (by decide) (by simp) rfl
  obtain ⟨string, hstring, hlog⟩ := hgets
  have hsent : string.bytes = [0xED, 0xA0, 0xBD, 0xED, 0xB8, 0x80] := by
    have hlog : [Output.commitString 0 (getStringUTFChars emoji), .done 0 0] =
      [.commitString 0 string, .done 0 0] := hlog
    cases hlog
    decide
  rw [hsent] at hstring
  exact absurd hstring (by decide)

end Wldroid.Ime
