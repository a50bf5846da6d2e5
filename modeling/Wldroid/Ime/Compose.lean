import Wldroid.Ime.DeleteBytes
import Wldroid.Ime.Focus

/-!
# Do edits compose?

The IME's operations are dispatched one after another, and the client applies the events it gets to
its own text.  A deletion is turned into byte counts on the text the client last committed, which no
dispatch updates.

* `ClientBuffer` — the client's side: events collect until `done` applies them;
* `TextCursor` — what the operations mean, in whole code points;
* `composes_iff_countsMatch` — the two stay equal along a run exactly when each deletion finds, in
  the committed text, a run as many bytes long as the one in the current text.
-/

namespace Wldroid.Ime

open Wldroid.Foundation

/-! ### The client -/

/-- The client's text before and after its cursor, with an empty selection, and what waits for the
next `done`. -/
structure ClientBuffer where
  before : List UInt8
  after : List UInt8
  pendingDelete : ℕ × ℕ
  pendingCommit : List UInt8

/-- A buffer with nothing pending. -/
def ClientBuffer.settled (before after : List UInt8) : ClientBuffer := ⟨before, after, (0, 0), []⟩

/-- `done`: delete around the cursor, as far as there is text, then insert before the cursor. -/
def ClientBuffer.done (b : ClientBuffer) : ClientBuffer :=
  .settled (b.before.take (b.before.length - b.pendingDelete.1) ++ b.pendingCommit)
    (b.after.drop b.pendingDelete.2)

/-- What an event on the client's text-input object does. -/
def ClientBuffer.apply (resource : ℕ) (b : ClientBuffer) : Output → ClientBuffer
  | .commitString r text => if r = resource then { b with pendingCommit := text.bytes } else b
  | .deleteSurroundingText r beforeBytes afterBytes =>
      if r = resource then { b with pendingDelete := (beforeBytes, afterBytes) } else b
  | .done r _ => if r = resource then b.done else b
  | _ => b

/-! ### The meaning of the operations -/

/-- The code points before and after a cursor. -/
structure TextCursor where
  before : List Char
  after : List Char

/-- The code points a deletion before the cursor takes: as many whole ones as it needs. -/
def TextCursor.runBefore (t : TextCursor) (n : ℕ) (codePoints : Bool) : List Char :=
  lastRun (unitsOf codePoints) n t.before

/-- The code points a deletion after the cursor takes. -/
def TextCursor.runAfter (t : TextCursor) (n : ℕ) (codePoints : Bool) : List Char :=
  firstRun (unitsOf codePoints) n t.after

/-- Insert text at the cursor. -/
def TextCursor.commit (t : TextCursor) (text : List Char) : TextCursor :=
  { t with before := t.before ++ text }

/-- Delete around the cursor. -/
def TextCursor.delete (t : TextCursor) (m n : ℕ) (codePoints : Bool) : TextCursor where
  before := t.before.take (t.before.length - (t.runBefore m codePoints).length)
  after := t.after.drop (t.runAfter n codePoints).length

/-! ### Runs -/

/-- The compositor's handler, the client's buffer with its text-input object, the text the client
last committed, and the text the operations so far should have led to. -/
structure Editing where
  handler : Handler
  resource : ℕ
  client : ClientBuffer
  committed : TextCursor
  intended : TextCursor

/-- The active object of a client, with its committed surrounding text. -/
def ActiveOn (h : Handler) (resource : ℕ) (committed : TextCursor) : Prop :=
  ∃ ti text, h.activeEnabled = some ti ∧ ti.resource = resource ∧
    ti.surroundingText = some text ∧ Splits text committed.before committed.after ∧
      ti.surroundingCursor = (utf8Encode committed.before).length

/-- An operation: text with its encoding, or a deletion. -/
inductive TextEdit where
  | commit (text : List Char) (string : CString) (seat : Fallback)
  | delete (beforeLength afterLength : ℕ) (codePoints : Bool) (seat : Fallback)

/-- Dispatch an operation and let the client apply the events that come of it. -/
def Editing.dispatched (s : Editing) (op : TextDispatch) (seat : Fallback)
    (intended : TextCursor) : Editing :=
  let handler := dispatch s.handler op seat
  { s with
    handler := handler
    client := (handler.globals.log.drop s.handler.globals.log.length).foldl
      (ClientBuffer.apply s.resource) s.client
    intended := intended }

/-- The state after an operation: the string is the text's encoding, the counts are at most 256. -/
def Editing.next (s : Editing) : TextEdit → Option Editing
  | .commit text string seat =>
      if string.bytes = utf8Encode text then
        some (s.dispatched (.commitText (some string)) seat (s.intended.commit text))
      else none
  | .delete m n codePoints seat =>
      if m ≤ 256 ∧ n ≤ 256 then
        some (s.dispatched (.deleteSurroundingText m n codePoints) seat
          (s.intended.delete m n codePoints))
      else none

/-- The client's object is active and enabled, and the client's text is the surrounding text it last
committed. -/
def Editing.Initial (s : Editing) : Prop :=
  ActiveOn s.handler s.resource s.committed ∧
  s.client = .settled (utf8Encode s.committed.before) (utf8Encode s.committed.after) ∧
  s.intended = s.committed

/-- All runs of operations without a commit of the client. -/
def editSystem : System Editing TextEdit := System.ofNext Editing.Initial Editing.next

/-- The client has the intended text with the intended cursor; so its text is valid UTF-8 and its
cursor between code points. -/
def Composes (s : Editing) : Prop :=
  s.client.before = utf8Encode s.intended.before ∧ s.client.after = utf8Encode s.intended.after

/-- On both sides of the cursor, the run of code points that the deletion takes from the committed
text is as many bytes long as the one it takes from the current text; where the current text is
shorter than that, the current run is all of it. -/
def CountsMatch (s : Editing) : TextEdit → Prop
  | .commit _ _ _ => True
  | .delete m n codePoints _ =>
      min (utf8Encode (s.committed.runBefore m codePoints)).length
          (utf8Encode s.intended.before).length =
        (utf8Encode (s.intended.runBefore m codePoints)).length ∧
      min (utf8Encode (s.committed.runAfter n codePoints)).length
          (utf8Encode s.intended.after).length =
        (utf8Encode (s.intended.runAfter n codePoints)).length

/-! ### One dispatch -/

/-- What the client's buffer is after the events of a dispatch. -/
def afterDispatch (h : Handler) (op : TextDispatch) (seat : Fallback) (resource : ℕ)
    (b : ClientBuffer) : ClientBuffer :=
  ((dispatch h op seat).globals.log.drop h.globals.log.length).foldl
    (ClientBuffer.apply resource) b

/-- An event and its `done`. -/
theorem foldl_sent (h : Handler) (resource serial : ℕ) (o : Output) (b : ClientBuffer) :
    (((h.send o).send (.done resource serial)).globals.log.drop h.globals.log.length).foldl
      (ClientBuffer.apply resource) b = (b.apply resource o).done := by
  have hlog : ((h.send o).send (.done resource serial)).globals.log =
      h.globals.log ++ [o, .done resource serial] := by
    simp [Handler.send, Globals.send]
  rw [hlog, List.drop_left]
  simp [ClientBuffer.apply]

/-- A committed text arrives before the client's cursor. -/
theorem afterDispatch_commit {h : Handler} {resource : ℕ} {committed : TextCursor}
    (hactive : ActiveOn h resource committed) (string : CString) (seat : Fallback)
    (before after : List UInt8) :
    afterDispatch h (.commitText (some string)) seat resource (.settled before after) =
      .settled (before ++ string.bytes) after := by
  obtain ⟨ti, text, hti, rfl, -⟩ := hactive
  unfold afterDispatch dispatch dispatchCommitText
  simp only [hti]
  by_cases hempty : string.bytes = []
  · simp [hempty]
  · rw [if_neg hempty, foldl_sent]
    simp [ClientBuffer.apply, ClientBuffer.done, ClientBuffer.settled]

/-- A deletion takes as many bytes as its run has in the committed text. -/
theorem afterDispatch_delete {h : Handler} {resource : ℕ} {committed : TextCursor}
    (hactive : ActiveOn h resource committed) {m n : ℕ} (hm : m ≤ 256) (hn : n ≤ 256)
    (codePoints : Bool) (seat : Fallback) (before after : List UInt8) :
    afterDispatch h (.deleteSurroundingText m n codePoints) seat resource
        (.settled before after) =
      .settled
        (before.take (before.length - (utf8Encode (committed.runBefore m codePoints)).length))
        (after.drop (utf8Encode (committed.runAfter n codePoints)).length) := by
  obtain ⟨ti, text, hti, rfl, htext, hsplits, hcursor⟩ := hactive
  have hclamp : clampDeleteCount m = m ∧ clampDeleteCount n = n := by
    rw [clampDeleteCount_eq_min, clampDeleteCount_eq_min]
    exact ⟨min_eq_left hm, min_eq_left hn⟩
  have hstrlen : (utf8Encode committed.before).length ≤ text.strlen := by
    rw [CString.strlen, hsplits.bytes_eq, List.length_append]
    omega
  have hcounts : textInputDeleteByteCounts ti m n codePoints =
      some ((utf8Encode (committed.runBefore m codePoints)).length,
        (utf8Encode (committed.runAfter n codePoints)).length) := by
    unfold textInputDeleteByteCounts
    simp only [htext, hcursor, Option.map_some]
    rw [if_neg (by omega), Int.toNat_natCast, min_eq_left hstrlen,
      utf8DeleteBytesBefore_eq hsplits, utf8DeleteBytesAfter_eq hsplits (.inl (by omega))]
    rfl
  unfold afterDispatch dispatch dispatchDeleteSurroundingText
  simp only [hclamp.1, hclamp.2, hti, hcounts]
  by_cases hnothing : m = 0 ∧ n = 0
  · obtain ⟨rfl, rfl⟩ := hnothing
    simp [TextCursor.runBefore, TextCursor.runAfter, lastRun, firstRun_zero]
  · rw [if_neg hnothing]
    by_cases hzero : (utf8Encode (committed.runBefore m codePoints)).length = 0 ∧
        (utf8Encode (committed.runAfter n codePoints)).length = 0
    · rw [if_pos hzero, hzero.1, hzero.2]
      simp
    · rw [if_neg hzero, foldl_sent]
      simp [ClientBuffer.apply, ClientBuffer.done, ClientBuffer.settled]

/-- A dispatch to an active object with surrounding text changes the log only. -/
theorem ActiveOn.dispatch {h : Handler} {resource : ℕ} {committed : TextCursor}
    (hactive : ActiveOn h resource committed) (op : TextDispatch) (seat : Fallback) :
    ActiveOn (dispatch h op seat) resource committed := by
  rcases dispatch_cases h op seat with ⟨keys, hkeys, -⟩ | ⟨-, log, hdispatch⟩
  · obtain ⟨ti, text, hti, -, htext, -⟩ := hactive
    cases op with
    | commitText string => cases string <;> simp [fallbackKeys, hti] at hkeys
    | deleteSurroundingText m n codePoints => simp [fallbackKeys, hti, htext] at hkeys
  · rw [hdispatch]
    exact hactive

/-! ### Bytes and code points -/

/-- Cutting bytes off the end leaves whole code points `p` exactly when their number is right. -/
theorem take_append_eq_iff {α : Type} (a b : List α) (k : ℕ) :
    (a ++ b).take ((a ++ b).length - k) = a ↔ min k (a ++ b).length = b.length := by
  rw [List.length_append]
  constructor
  · intro h
    have hlen := congrArg List.length h
    rw [List.length_take, List.length_append] at hlen
    omega
  · intro h
    have hkeep : a.length + b.length - k = a.length := by omega
    rw [hkeep, List.take_left]

/-- Cutting bytes off the front likewise. -/
theorem drop_append_eq_iff {α : Type} (a b : List α) (k : ℕ) :
    (a ++ b).drop k = b ↔ min k (a ++ b).length = a.length := by
  rw [List.length_append]
  constructor
  · intro h
    have hlen := congrArg List.length h
    rw [List.length_drop, List.length_append] at hlen
    omega
  · intro h
    by_cases hk : k ≤ a.length + b.length
    · obtain rfl : k = a.length := by omega
      exact List.drop_left
    · obtain rfl : b = [] := List.eq_nil_of_length_eq_zero (by omega)
      rw [List.append_nil]
      exact List.drop_eq_nil_of_le (by omega)

theorem take_before_iff (t : TextCursor) (m : ℕ) (codePoints : Bool) (k : ℕ) :
    (utf8Encode t.before).take ((utf8Encode t.before).length - k) =
        utf8Encode (t.before.take (t.before.length - (t.runBefore m codePoints).length)) ↔
      min k (utf8Encode t.before).length = (utf8Encode (t.runBefore m codePoints)).length := by
  obtain ⟨kept, hkept⟩ := lastRun_suffix (unitsOf codePoints) m t.before
  have hrun : t.runBefore m codePoints = lastRun (unitsOf codePoints) m t.before := rfl
  have htake : t.before.take (t.before.length - (t.runBefore m codePoints).length) = kept := by
    rw [hrun, ← hkept, List.length_append, hkept, Nat.add_sub_cancel, ← hkept, List.take_left]
  rw [htake, hrun]
  have hiff := take_append_eq_iff (utf8Encode kept)
    (utf8Encode (lastRun (unitsOf codePoints) m t.before)) k
  rwa [← utf8Encode_append, hkept] at hiff

theorem drop_after_iff (t : TextCursor) (n : ℕ) (codePoints : Bool) (k : ℕ) :
    (utf8Encode t.after).drop k =
        utf8Encode (t.after.drop (t.runAfter n codePoints).length) ↔
      min k (utf8Encode t.after).length = (utf8Encode (t.runAfter n codePoints)).length := by
  obtain ⟨kept, hkept⟩ := firstRun_prefix (unitsOf codePoints) n t.after
  have hrun : t.runAfter n codePoints = firstRun (unitsOf codePoints) n t.after := rfl
  have hdrop : t.after.drop (t.runAfter n codePoints).length = kept := by
    rw [hrun]
    exact (congrArg _ hkept.symm).trans List.drop_left
  rw [hdrop, hrun]
  have hiff := drop_append_eq_iff (utf8Encode (firstRun (unitsOf codePoints) n t.after))
    (utf8Encode kept) k
  rwa [← utf8Encode_append, hkept] at hiff

/-! ### Steps and runs -/

/-- What holds while the edits compose. -/
structure EditInv (s : Editing) : Prop where
  active : ActiveOn s.handler s.resource s.committed
  client : s.client = .settled (utf8Encode s.intended.before) (utf8Encode s.intended.after)

theorem EditInv.composes {s : Editing} (h : EditInv s) : Composes s := by
  rw [Composes, h.client]
  exact ⟨rfl, rfl⟩

/-- The client's buffer after a step, whatever it means. -/
theorem EditInv.step {s t : Editing} {e : TextEdit} (h : EditInv s) (hstep : s.next e = some t) :
    ActiveOn t.handler t.resource t.committed ∧ (∃ before after, t.client = .settled before after) ∧
      (Composes t ↔ CountsMatch s e) := by
  cases e with
  | commit text string seat =>
    simp only [Editing.next] at hstep
    split at hstep
    · rename_i hbytes
      rw [← Option.some.inj hstep]
      have hclient := afterDispatch_commit h.active string seat
        (utf8Encode s.intended.before) (utf8Encode s.intended.after)
      rw [← h.client, hbytes] at hclient
      refine ⟨h.active.dispatch _ seat, ⟨_, _, hclient⟩, iff_of_true ?_ trivial⟩
      show (afterDispatch _ _ _ _ _).before = _ ∧ (afterDispatch _ _ _ _ _).after = _
      rw [hclient]
      exact ⟨(utf8Encode_append _ _).symm, rfl⟩
    · cases hstep
  | delete m n codePoints seat =>
    simp only [Editing.next] at hstep
    split at hstep
    · rename_i hbounds
      rw [← Option.some.inj hstep]
      have hclient := afterDispatch_delete h.active hbounds.1 hbounds.2 codePoints seat
        (utf8Encode s.intended.before) (utf8Encode s.intended.after)
      rw [← h.client] at hclient
      refine ⟨h.active.dispatch _ seat, ⟨_, _, hclient⟩, ?_⟩
      show (afterDispatch _ _ _ _ _).before = _ ∧ (afterDispatch _ _ _ _ _).after = _ ↔ _
      rw [hclient]
      exact and_congr (take_before_iff s.intended m codePoints _)
        (drop_after_iff s.intended n codePoints _)
    · cases hstep

/-- **Edits compose** along a run of operations exactly when, at every deletion, the committed text
and the current text have runs of equally many bytes to delete. -/
theorem composes_iff_countsMatch {s : Editing} {run : List (TextEdit × Editing)}
    (hinit : s.Initial) (hrun : editSystem.Exec s run) :
    AllStates Composes s run ↔ AllSteps CountsMatch s run := by
  have hinv : EditInv s := by
    obtain ⟨hactive, hclient, hintended⟩ := hinit
    exact ⟨hactive, by rw [hclient, hintended]⟩
  refine System.allStates_iff_allSteps (I := EditInv) (fun _ h => h.composes) ?_ ?_ hinv hrun
  · intro s e t h hstep hguard
    obtain ⟨hactive, ⟨before, after, hclient⟩, hiff⟩ := h.step hstep
    refine ⟨hactive, ?_⟩
    obtain ⟨hbefore, hafter⟩ := hiff.mpr hguard
    rw [hclient] at hbefore hafter ⊢
    rw [← hbefore, ← hafter]
    rfl
  · intro s e t h hstep hguard hcomposes
    exact hguard ((h.step hstep).2.2.mp hcomposes)

/-- `abé`. -/
def abe : CString := ⟨[0x61, 0x62, 0xC3, 0xA9], by decide, by decide⟩

/-- A client focuses its surface, enables its object and commits `abé` with the cursor at the
end. -/
def commitAbe : List HandlerEvent :=
  [.surfaceCreated 1 10, .keyboardEnter 1, .getTextInput 10 100, .enable 100,
    .setSurroundingText 100 (some abe) 4 4 true, .commit 100]

/-- Where that leads, with the client's own text. -/
def editingAbe : Editing where
  handler := (runNext Handler.next freshHandler commitAbe).getD freshHandler
  resource := 0
  client := .settled (utf8Encode ['a', 'b', 'é']) []
  committed := ⟨['a', 'b', 'é'], []⟩
  intended := ⟨['a', 'b', 'é'], []⟩

theorem editingAbe_initial : editingAbe.Initial :=
  ⟨⟨_, abe, rfl, rfl, rfl, ⟨by decide, by decide⟩, by decide⟩, rfl, rfl⟩

/-- One character back, then another one typed. -/
def replaceLast : List TextEdit :=
  [.delete 1 0 true ⟨false, none⟩, .commit ['a', 'b'] ⟨[0x61, 0x62], by decide, by decide⟩
    ⟨false, none⟩]

theorem composes_on_replaceLast :
    (traceNext Editing.next editingAbe replaceLast).length = 2 ∧
      AllStates Composes editingAbe (traceNext Editing.next editingAbe replaceLast) :=
  ⟨by decide, (composes_iff_countsMatch editingAbe_initial (System.exec_traceNext _ _ _)).mpr
    ⟨⟨by decide, by decide⟩, trivial, trivial⟩⟩

/-- Two characters back, one at a time. -/
def deleteTwice : List TextEdit :=
  [.delete 1 0 true ⟨false, none⟩, .delete 1 0 true ⟨false, none⟩]

/-- The second deletion takes the two bytes of the first one again, which are two characters now. -/
theorem second_deletion_takes_too_much :
    ¬ ∀ (s : Editing) (run : List (TextEdit × Editing)), s.Initial → editSystem.Exec s run →
      AllStates Composes s run := by
  intro hall
  have hrun := hall editingAbe (traceNext Editing.next editingAbe deleteTwice)
    editingAbe_initial (System.exec_traceNext _ _ _)
  have hlast : Composes ((runNext Editing.next editingAbe deleteTwice).getD editingAbe) :=
    hrun.2 (.delete 1 0 true ⟨false, none⟩, _) (List.mem_of_getLast? rfl)
  have hbytes : ([] : List UInt8) = [0x61] := hlast.1
  cases hbytes

end Wldroid.Ime
