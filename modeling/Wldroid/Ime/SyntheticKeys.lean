import Mathlib
import Wldroid.Foundation.JavaStrings
import Wldroid.Foundation.Loops

/-!
# Text as keys

`emit_synthetic_keys` decodes the text code point by code point and sends a key for each one that
the keymap has.  The terminator of the string is its last byte that may be read.

* `emitRound` — one round of the scan, with every byte it reads;
* `expectedKeys` — the keys of a text: those of its bytes below 0x80 that are mapped;
* `EmitsFaithfully` — no byte behind the terminator is read, and exactly these keys are sent;
* `Decodable` — lead bytes are followed by as many bytes as they announce, none of them a mapped one
  and not overlong for a mapped one;
* **`emitSyntheticKeys_faithful_iff`** — the scan ends, and does the former exactly on the latter;
* `decodable_getStringUTFChars` — all that comes from Java strings is among it.
-/

namespace Wldroid.Ime

open Wldroid.Foundation

/-! ### Keys -/

/-- An entry of `ascii_to_key`; no keycode is no mapping. -/
structure AsciiKey where
  keycode : ℕ
  needsShift : Bool
  deriving DecidableEq, Repr

/-- `KEY_LEFTSHIFT`. -/
def keyLeftShift : ℕ := 42

/-- `ASCII_MAX`. -/
def asciiMax : ℕ := 128

/-- `struct wlr_keyboard_key_event`, with the place in the text where its code point starts. -/
structure KeyEvent where
  offset : ℕ
  timeMsec : ℕ
  keycode : ℕ
  pressed : Bool
  deriving DecidableEq, Repr

/-- The code point has a key. -/
def Mapped (asciiToKey : ℕ → AsciiKey) (codepoint : ℕ) : Prop :=
  codepoint ≠ 0 ∧ codepoint < asciiMax ∧ (asciiToKey codepoint).keycode ≠ 0

instance (asciiToKey : ℕ → AsciiKey) (codepoint : ℕ) : Decidable (Mapped asciiToKey codepoint) :=
  inferInstanceAs (Decidable (_ ∧ _ ∧ _))

/-- The events for one mapped code point; the first timestamp goes to the shift key. -/
def keyStrokes (asciiToKey : ℕ → AsciiKey) (offset timestamp codepoint : ℕ) : List KeyEvent :=
  let key := asciiToKey codepoint
  let shift := fun (time : ℕ) (pressed : Bool) =>
    if key.needsShift then [KeyEvent.mk offset (time % 2 ^ 32) keyLeftShift pressed] else []
  shift timestamp true ++
    [KeyEvent.mk offset ((timestamp + 1) % 2 ^ 32) key.keycode true,
      KeyEvent.mk offset ((timestamp + 2) % 2 ^ 32) key.keycode false] ++
    shift (timestamp + 3) false

/-! ### The scan -/

/-- `p[i]`: a byte of the text or its terminator, and nothing behind that. -/
def textAt (text : CString) (p : ℕ) : Option ℕ := (text.bytes ++ [0])[p]?.map UInt8.toNat

/-- The length that a byte announces. -/
def leadBytes (c : ℕ) : ℕ := if c < 0x80 then 1 else if c < 0xE0 then 2 else if c < 0xF0 then 3 else 4

/-- The bits of the code point in that byte. -/
def leadBits (c : ℕ) : ℕ :=
  if c < 0x80 then c else if c < 0xE0 then c &&& 0x1F else if c < 0xF0 then c &&& 0x0F
  else c &&& 0x07

/-- The inner loop from `i`, for so many more bytes; `none` is a read behind the terminator. -/
def continueCodepoint (text : CString) (p : ℕ) : ℕ → ℕ → ℕ → Option ℕ
  | 0, _, codepoint => some codepoint
  | more + 1, i, codepoint =>
      (textAt text (p + i)).bind fun c =>
        if c &&& 0xC0 ≠ 0x80 then some 0
        else continueCodepoint text p more (i + 1) (codepoint <<< 6 ||| (c &&& 0x3F))

/-- The variables of the scan. -/
structure EmitState where
  p : ℕ
  timestamp : ℕ
  /-- Ghost: the events sent so far. -/
  sent : List KeyEvent
  /-- Ghost: a byte behind the terminator has been read. -/
  overrun : Bool
  deriving DecidableEq, Repr

/-- The rest of a round, for a code point. -/
def EmitState.emitKey (asciiToKey : ℕ → AsciiKey) (s : EmitState) (codepoint : ℕ) : EmitState :=
  if Mapped asciiToKey codepoint then
    { s with
      timestamp := (s.timestamp + if (asciiToKey codepoint).needsShift then 4 else 3) % 2 ^ 32
      sent := s.sent ++ keyStrokes asciiToKey s.p s.timestamp codepoint }
  else s

/-- A round of `emit_synthetic_keys`; the scan ends at the terminator. -/
def emitRound (asciiToKey : ℕ → AsciiKey) (text : CString) (s : EmitState) : Option EmitState :=
  if s.overrun then none
  else
    match textAt text s.p with
    | none => some { s with overrun := true }
    | some c =>
        if c = 0 then none
        -- a stray continuation byte
        else if 0x80 ≤ c ∧ c < 0xC0 then some { s with p := s.p + 1 }
        else
          match continueCodepoint text s.p (leadBytes c - 1) 1 (leadBits c) with
          | none => some { s with overrun := true }
          | some codepoint =>
              some { s.emitKey asciiToKey codepoint with p := s.p + leadBytes c }

def EmitState.start : EmitState := ⟨0, 0, [], false⟩

/-- `emit_synthetic_keys`, when there is a keyboard. -/
def emitSyntheticKeys (asciiToKey : ℕ → AsciiKey) (text : CString) : EmitState :=
  loopRun (emitRound asciiToKey text) (text.strlen + 1) .start

/-! ### What is expected -/

/-- An event but for its time. -/
def KeyEvent.key (e : KeyEvent) : ℕ × ℕ × Bool := (e.offset, e.keycode, e.pressed)

/-- The keys sent so far. -/
def EmitState.keys (s : EmitState) : List (ℕ × ℕ × Bool) := s.sent.map KeyEvent.key

/-- Press and release, within those of the shift key where it is needed. -/
def strokes (asciiToKey : ℕ → AsciiKey) (offset codepoint : ℕ) : List (ℕ × ℕ × Bool) :=
  if Mapped asciiToKey codepoint then
    let key := asciiToKey codepoint
    if key.needsShift then
      [(offset, keyLeftShift, true), (offset, key.keycode, true), (offset, key.keycode, false),
        (offset, keyLeftShift, false)]
    else [(offset, key.keycode, true), (offset, key.keycode, false)]
  else []

/-- The strokes of the bytes below 0x80, in their order. -/
def expectedKeys (asciiToKey : ℕ → AsciiKey) : ℕ → List UInt8 → List (ℕ × ℕ × Bool)
  | _, [] => []
  | offset, b :: rest =>
      strokes asciiToKey offset b.toNat ++ expectedKeys asciiToKey (offset + 1) rest

/-- The scan has stayed in the string and has sent what is expected. -/
structure EmitsFaithfully (asciiToKey : ℕ → AsciiKey) (text : CString) (s : EmitState) : Prop where
  inBounds : s.overrun = false
  keys : s.keys = expectedKeys asciiToKey 0 text.bytes

/-- A continuation byte. -/
def IsContinuation (b : UInt8) : Prop := b.toNat &&& 0xC0 = 0x80

instance (b : UInt8) : Decidable (IsContinuation b) := inferInstanceAs (Decidable (_ = _))

/-- The value of a sequence from its lead byte on. -/
def sequenceValue (lead : UInt8) (seq : List UInt8) : ℕ :=
  seq.foldl (fun v b => v <<< 6 ||| (b.toNat &&& 0x3F)) (leadBits lead.toNat)

/-- Bytes that are decoded one by one, and sequences that hide no key and make up none. -/
inductive Decodable (asciiToKey : ℕ → AsciiKey) : List UInt8 → Prop where
  | nil : Decodable asciiToKey []
  /-- A byte below 0x80, or a stray continuation byte. -/
  | byte {b : UInt8} {rest : List UInt8} (hb : b.toNat < 0xC0) (hrest : Decodable asciiToKey rest) :
      Decodable asciiToKey (b :: rest)
  /-- A lead byte and what it announces. -/
  | sequence {lead : UInt8} {seq rest : List UInt8} (hlead : 0xC0 ≤ lead.toNat)
      (hlength : seq.length = leadBytes lead.toNat - 1)
      (hhides : ∀ b ∈ seq, ¬ Mapped asciiToKey b.toNat)
      (hoverlong : (∀ b ∈ seq, IsContinuation b) → ¬ Mapped asciiToKey (sequenceValue lead seq))
      (hrest : Decodable asciiToKey rest) : Decodable asciiToKey (lead :: (seq ++ rest))

/-! ### Expected keys -/

section Expected

variable {asciiToKey : ℕ → AsciiKey}

theorem offset_of_mem_strokes {offset codepoint : ℕ} {k : ℕ × ℕ × Bool}
    (h : k ∈ strokes asciiToKey offset codepoint) : k.1 = offset := by
  unfold strokes at h
  split at h
  · simp only at h
    split at h <;> simp only [List.mem_cons, List.not_mem_nil, or_false] at h
    · obtain rfl | rfl | rfl | rfl := h <;> rfl
    · obtain rfl | rfl := h <;> rfl
  · cases h

theorem strokes_eq_nil_iff {offset codepoint : ℕ} :
    strokes asciiToKey offset codepoint = [] ↔ ¬ Mapped asciiToKey codepoint := by
  unfold strokes
  by_cases hmapped : Mapped asciiToKey codepoint
  · rw [if_pos hmapped]
    simp only
    split <;> simp [hmapped]
  · simp [hmapped]

theorem expectedKeys_append (offset : ℕ) (l l' : List UInt8) :
    expectedKeys asciiToKey offset (l ++ l') =
      expectedKeys asciiToKey offset l ++ expectedKeys asciiToKey (offset + l.length) l' := by
  induction l generalizing offset with
  | nil => rfl
  | cons b l ih =>
    rw [List.cons_append, expectedKeys, expectedKeys, ih, List.append_assoc, List.length_cons,
      Nat.add_assoc, Nat.add_comm 1]

theorem expectedKeys_between {offset : ℕ} {l : List UInt8} {k : ℕ × ℕ × Bool}
    (h : k ∈ expectedKeys asciiToKey offset l) : offset ≤ k.1 ∧ k.1 < offset + l.length := by
  induction l generalizing offset with
  | nil => cases h
  | cons b l ih =>
    obtain hb | hrest := List.mem_append.mp h
    · rw [offset_of_mem_strokes hb, List.length_cons]
      omega
    · have hbetween := ih hrest
      rw [List.length_cons]
      omega

theorem expectedKeys_eq_nil_iff {offset : ℕ} {l : List UInt8} :
    expectedKeys asciiToKey offset l = [] ↔ ∀ b ∈ l, ¬ Mapped asciiToKey b.toNat := by
  induction l generalizing offset with
  | nil => simp [expectedKeys]
  | cons b l ih =>
    rw [expectedKeys, List.append_eq_nil_iff, strokes_eq_nil_iff, ih, List.forall_mem_cons]

end Expected

/-! ### One round -/

section Round

variable {asciiToKey : ℕ → AsciiKey} {text : CString}

theorem textAt_append {pre rest : List UInt8} (hbytes : text.bytes = pre ++ rest) (i : ℕ) :
    textAt text (pre.length + i) = (rest ++ [0])[i]?.map UInt8.toNat := by
  unfold textAt
  rw [hbytes, List.append_assoc, List.getElem?_append_right (by omega), Nat.add_sub_cancel_left]

theorem textAt_eq_none_iff {p : ℕ} : textAt text p = none ↔ text.strlen < p := by
  unfold textAt
  rw [Option.map_eq_none_iff, List.getElem?_eq_none_iff, List.length_append, List.length_singleton]
  exact Nat.lt_iff_add_one_le.symm

/-- The inner loop stays in the string: the terminator is no continuation byte. -/
theorem continueCodepoint_eq (p : ℕ) (more : ℕ) :
    ∀ (i v : ℕ) (pre rest : List UInt8), text.bytes = pre ++ rest → p + i = pre.length →
      continueCodepoint text p more i v =
        some (if more ≤ rest.length ∧ ∀ b ∈ rest.take more, IsContinuation b then
          (rest.take more).foldl (fun v b => v <<< 6 ||| (b.toNat &&& 0x3F)) v else 0) := by
  induction more with
  | zero =>
    intro i v pre rest _ _
    simp [continueCodepoint]
  | succ more ih =>
    intro i v pre rest hbytes hp
    have hread := textAt_append hbytes 0
    rw [Nat.add_zero, ← hp] at hread
    unfold continueCodepoint
    rw [hread]
    cases rest with
    | nil => rfl
    | cons b rest =>
      rw [List.cons_append, List.getElem?_cons_zero, Option.map_some, Option.bind_some]
      by_cases hb : IsContinuation b
      · have hrest := ih (i + 1) (v <<< 6 ||| (b.toNat &&& 0x3F)) (pre ++ [b]) rest
          (by simpa using hbytes) (by simp; omega)
        rw [if_neg (show ¬ b.toNat &&& 0xC0 ≠ 0x80 from not_not.mpr hb), hrest]
        simp [hb]
      · rw [if_pos (show b.toNat &&& 0xC0 ≠ 0x80 from hb)]
        simp [hb]

theorem emitKey_of_not_mapped {s : EmitState} {codepoint : ℕ}
    (h : ¬ Mapped asciiToKey codepoint) : s.emitKey asciiToKey codepoint = s := if_neg h

@[simp] theorem emitKey_overrun (s : EmitState) (codepoint : ℕ) :
    (s.emitKey asciiToKey codepoint).overrun = s.overrun := by
  unfold EmitState.emitKey
  split <;> rfl

theorem keys_emitKey (s : EmitState) (codepoint : ℕ) :
    (s.emitKey asciiToKey codepoint).keys = s.keys ++ strokes asciiToKey s.p codepoint := by
  unfold EmitState.emitKey strokes
  split
  · cases hshift : (asciiToKey codepoint).needsShift <;>
      simp [EmitState.keys, keyStrokes, KeyEvent.key, hshift]
  · rw [List.append_nil]

variable {s : EmitState} {pre rest : List UInt8}

theorem emitRound_end (hbytes : text.bytes = pre) (hp : s.p = pre.length)
    (hinside : s.overrun = false) : emitRound asciiToKey text s = none := by
  have hnothing : text.bytes = pre ++ [] := hbytes.trans (List.append_nil pre).symm
  have hread := textAt_append hnothing 0
  rw [Nat.add_zero, ← hp] at hread
  unfold emitRound
  rw [hinside, hread]
  rfl

theorem emitRound_past (hp : text.strlen < s.p) (hinside : s.overrun = false) :
    emitRound asciiToKey text s = some { s with overrun := true } := by
  unfold emitRound
  rw [hinside, textAt_eq_none_iff.mpr hp]
  rfl

variable {b : UInt8}

theorem ne_zero_of_mem_text (hbytes : text.bytes = pre ++ b :: rest) : b.toNat ≠ 0 := by
  intro hzero
  have hb : b = 0 := UInt8.toNat_inj.mp hzero
  have hmem : (0 : UInt8) ∈ text.bytes := by
    rw [hbytes, hb]
    simp
  exact text.no_nul hmem

/-- What is read at a byte of the text. -/
theorem textAt_byte (hbytes : text.bytes = pre ++ b :: rest) (hp : s.p = pre.length) :
    textAt text s.p = some b.toNat := by
  have hread := textAt_append hbytes 0
  rw [Nat.add_zero, ← hp] at hread
  exact hread

/-- A byte that is no lead byte is a round of its own. -/
theorem emitRound_byte (hbytes : text.bytes = pre ++ b :: rest) (hp : s.p = pre.length)
    (hinside : s.overrun = false) (hb : b.toNat < 0xC0) :
    emitRound asciiToKey text s = some { s.emitKey asciiToKey b.toNat with p := s.p + 1 } := by
  have hzero := ne_zero_of_mem_text hbytes
  unfold emitRound
  rw [hinside, textAt_byte hbytes hp]
  simp only [Bool.false_eq_true, if_false, if_neg hzero]
  by_cases hascii : b.toNat < 0x80
  · rw [if_neg (by omega)]
    simp [leadBytes, leadBits, hascii, continueCodepoint]
  · have hnot : ¬ Mapped asciiToKey b.toNat := fun hmapped => hascii hmapped.2.1
    rw [if_pos ⟨by omega, hb⟩, emitKey_of_not_mapped hnot, hinside]

/-- A lead byte takes what it announces with it, whatever that is. -/
theorem emitRound_lead (hbytes : text.bytes = pre ++ b :: rest) (hp : s.p = pre.length)
    (hinside : s.overrun = false) (hb : 0xC0 ≤ b.toNat) :
    emitRound asciiToKey text s =
      some { s.emitKey asciiToKey (if leadBytes b.toNat - 1 ≤ rest.length ∧
          ∀ x ∈ rest.take (leadBytes b.toNat - 1), IsContinuation x then
            sequenceValue b (rest.take (leadBytes b.toNat - 1)) else 0) with
        p := s.p + leadBytes b.toNat } := by
  have hzero := ne_zero_of_mem_text hbytes
  unfold emitRound
  rw [hinside, textAt_byte hbytes hp]
  simp only [Bool.false_eq_true, if_false, if_neg hzero]
  rw [if_neg (by omega), continueCodepoint_eq s.p (leadBytes b.toNat - 1) 1 (leadBits b.toNat)
    (pre ++ [b]) rest (by simpa using hbytes) (by simp [hp])]
  rfl

theorem leadBytes_bounds {c : ℕ} (hc : 0xC0 ≤ c) : 2 ≤ leadBytes c ∧ leadBytes c ≤ 4 := by
  unfold leadBytes
  rw [if_neg (by omega)]
  split
  · omega
  · split <;> omega

/-- **A round**: it is the last one behind the terminator, or decodes something before it. -/
theorem emitRound_cases {t : EmitState} (h : emitRound asciiToKey text s = some t) :
    s.overrun = false ∧ ((text.strlen < s.p ∧ t = { s with overrun := true }) ∨
      (s.p < text.strlen ∧ ∃ codepoint n, 1 ≤ n ∧
        t = { s.emitKey asciiToKey codepoint with p := s.p + n })) := by
  have hinside : s.overrun = false := by
    cases hover : s.overrun with
    | false => rfl
    | true =>
      unfold emitRound at h
      rw [hover] at h
      cases h
  refine ⟨hinside, ?_⟩
  rcases Nat.lt_trichotomy s.p text.strlen with hlt | heq | hgt
  · obtain ⟨pre, b, rest, hbytes, hp⟩ : ∃ pre b rest, text.bytes = pre ++ b :: rest ∧
        s.p = pre.length :=
      ⟨text.bytes.take s.p, text.bytes[s.p], text.bytes.drop (s.p + 1),
        (List.take_append_drop s.p text.bytes).symm.trans (by rw [List.drop_eq_getElem_cons hlt]),
        by rw [List.length_take]; exact (Nat.min_eq_left hlt.le).symm⟩
    refine .inr ⟨hlt, ?_⟩
    by_cases hb : b.toNat < 0xC0
    · rw [emitRound_byte hbytes hp hinside hb] at h
      exact ⟨_, 1, le_rfl, (Option.some.inj h).symm⟩
    · have hb : 0xC0 ≤ b.toNat := by omega
      have hbounds := leadBytes_bounds hb
      rw [emitRound_lead hbytes hp hinside hb] at h
      exact ⟨_, leadBytes b.toNat, by omega, (Option.some.inj h).symm⟩
  · rw [emitRound_end rfl heq hinside] at h
    cases h
  · rw [emitRound_past hgt hinside] at h
    exact .inl ⟨hgt, (Option.some.inj h).symm⟩

end Round

/-! ### The whole scan -/

section Scan

variable {asciiToKey : ℕ → AsciiKey} {text : CString}

/-- What is left to do: every round but the last moves on in the text. -/
def EmitState.left (text : CString) (s : EmitState) : ℕ :=
  if s.overrun then 0 else text.strlen - s.p + 1

theorem emitRound_decreases {s t : EmitState} (h : emitRound asciiToKey text s = some t) :
    t.left text < s.left text := by
  obtain ⟨hinside, hcases⟩ := emitRound_cases h
  have hs : s.left text = text.strlen - s.p + 1 := by rw [EmitState.left, hinside]; rfl
  rw [hs]
  obtain ⟨-, rfl⟩ | ⟨hlt, codepoint, n, hn, rfl⟩ := hcases
  · exact Nat.succ_pos _
  · rw [EmitState.left]
    simp only [emitKey_overrun, hinside, Bool.false_eq_true, if_false]
    omega

theorem emitSyntheticKeys_ends (asciiToKey : ℕ → AsciiKey) (text : CString) :
    LoopEnds (emitRound asciiToKey text) .start (emitSyntheticKeys asciiToKey text) :=
  loopEnds_loopRun _ (fun _ _ => emitRound_decreases) _ _ le_rfl

/-- Whatever is sent from here on is for places from here on. -/
theorem keys_later {s t : EmitState} (h : LoopEnds (emitRound asciiToKey text) s t) :
    ∃ later, t.keys = s.keys ++ later ∧ ∀ k ∈ later, s.p ≤ k.1 := by
  induction h with
  | exit _ => exact ⟨[], (List.append_nil _).symm, nofun⟩
  | @next s u t hround _ ih =>
    obtain ⟨later, hkeys, hlater⟩ := ih
    obtain ⟨-, ⟨-, rfl⟩ | ⟨-, codepoint, n, hn, rfl⟩⟩ := emitRound_cases hround
    · exact ⟨later, hkeys, hlater⟩
    · have hone : (s.emitKey asciiToKey codepoint).keys =
          s.keys ++ strokes asciiToKey s.p codepoint := keys_emitKey s codepoint
      refine ⟨strokes asciiToKey s.p codepoint ++ later, ?_, fun k hk => ?_⟩
      · rw [hkeys, ← List.append_assoc, ← hone]
        rfl
      · obtain hnow | hthen := List.mem_append.mp hk
        · exact (offset_of_mem_strokes hnow).ge
        · have hle : s.p + n ≤ k.1 := hlater k hthen
          omega

/-- Nothing undoes a read behind the terminator. -/
theorem overrun_of_past {s t : EmitState} (h : LoopEnds (emitRound asciiToKey text) s t)
    (hpast : text.strlen < s.p) : t.overrun = true := by
  cases hinside : s.overrun with
  | true =>
    cases h with
    | exit _ => exact hinside
    | next hround _ =>
      exact absurd ((emitRound_cases hround).1.symm.trans hinside) Bool.false_ne_true
  | false =>
    have hover : emitRound asciiToKey text s = some { s with overrun := true } :=
      emitRound_past hpast hinside
    cases h with
    | exit hnone => rw [hover] at hnone; cases hnone
    | next hround hrest =>
      rw [hover] at hround
      cases hround
      cases hrest with
      | exit _ => rfl
      | next hround _ => cases (emitRound_cases hround).1

/-- After a round the scan goes on where that leads. -/
theorem ends_of_round {s u t : EmitState} (h : LoopEnds (emitRound asciiToKey text) s t)
    (hround : emitRound asciiToKey text s = some u) : LoopEnds (emitRound asciiToKey text) u t := by
  cases h with
  | exit hnone => rw [hround] at hnone; cases hnone
  | next hround' hrest =>
    rw [hround] at hround'
    cases hround'
    exact hrest

/-- From here to the end no byte behind the terminator is read, and what is sent is what is expected
of the rest. -/
def FaithfulFrom (asciiToKey : ℕ → AsciiKey) (s t : EmitState) (rest : List UInt8) : Prop :=
  t.overrun = false ∧ t.keys = s.keys ++ expectedKeys asciiToKey s.p rest

theorem decodable_byte_iff {b : UInt8} {rest : List UInt8} (hb : b.toNat < 0xC0) :
    Decodable asciiToKey (b :: rest) ↔ Decodable asciiToKey rest := by
  constructor
  · intro h
    cases h with
    | byte _ hrest => exact hrest
    | sequence hlead => omega
  · exact .byte hb

/-- A lead byte and the bytes it takes with it. -/
theorem decodable_lead_iff {lead : UInt8} {seq rest : List UInt8} (hlead : 0xC0 ≤ lead.toNat)
    (hlength : seq.length = leadBytes lead.toNat - 1) :
    Decodable asciiToKey (lead :: (seq ++ rest)) ↔
      (∀ b ∈ seq, ¬ Mapped asciiToKey b.toNat) ∧
      ((∀ b ∈ seq, IsContinuation b) → ¬ Mapped asciiToKey (sequenceValue lead seq)) ∧
      Decodable asciiToKey rest := by
  constructor
  · intro h
    generalize hall : seq ++ rest = tail at h
    cases h with
    | byte hb => omega
    | @sequence _ seq' rest' _ hlength' hhides hoverlong hrest =>
      obtain ⟨rfl, rfl⟩ := List.append_inj hall (hlength.trans hlength'.symm)
      exact ⟨hhides, hoverlong, hrest⟩
  · rintro ⟨hhides, hoverlong, hrest⟩
    exact .sequence hlead hlength hhides hoverlong hrest

/-- A lead byte that announces more than there is. -/
theorem not_decodable_of_short {lead : UInt8} {rest : List UInt8} (hlead : 0xC0 ≤ lead.toNat)
    (hshort : rest.length < leadBytes lead.toNat - 1) : ¬ Decodable asciiToKey (lead :: rest) := by
  intro h
  generalize hall : rest = tail at h
  cases h with
  | byte hb => omega
  | sequence _ hlength =>
    rw [hall, List.length_append] at hshort
    omega

/-- Keys for a place and keys for places behind it, before those for places further on. -/
theorem both_nil_of_append_eq {p q : ℕ} (hpq : p < q) {now between later expected :
    List (ℕ × ℕ × Bool)} (hnow : ∀ k ∈ now, k.1 = p) (hbetween : ∀ k ∈ between, p < k.1 ∧ k.1 < q)
    (hlater : ∀ k ∈ later, q ≤ k.1) (hexpected : ∀ k ∈ expected, q ≤ k.1)
    (heq : now ++ later = between ++ expected) : now = [] ∧ between = [] := by
  constructor
  · refine List.eq_nil_iff_forall_not_mem.mpr fun k hk => ?_
    have hp := hnow k hk
    have hmem : k ∈ between ++ expected := heq ▸ List.mem_append_left later hk
    obtain hthere | hthere := List.mem_append.mp hmem
    · have hlt := hbetween k hthere
      omega
    · have hle := hexpected k hthere
      omega
  · refine List.eq_nil_iff_forall_not_mem.mpr fun k hk => ?_
    have hlt := hbetween k hk
    have hmem : k ∈ now ++ later := heq ▸ List.mem_append_left expected hk
    obtain hthere | hthere := List.mem_append.mp hmem
    · have hp := hnow k hthere
      omega
    · have hle := hlater k hthere
      omega

/-- **A sequence** is faithful if it hides no key, makes up none, and the rest is faithful. -/
theorem faithfulFrom_lead_iff {s t u : EmitState} {pre seq rest : List UInt8} {lead : UInt8}
    (hbytes : text.bytes = pre ++ lead :: (seq ++ rest)) (hp : s.p = pre.length)
    (hinside : s.overrun = false) (hlead : 0xC0 ≤ lead.toNat)
    (hlength : seq.length = leadBytes lead.toNat - 1)
    (hround : emitRound asciiToKey text s = some u)
    (hends : LoopEnds (emitRound asciiToKey text) u t)
    (hrest : FaithfulFrom asciiToKey u t rest ↔ Decodable asciiToKey rest) :
    FaithfulFrom asciiToKey s t (lead :: (seq ++ rest)) ↔
      Decodable asciiToKey (lead :: (seq ++ rest)) := by
  have hbounds := leadBytes_bounds hlead
  have htake : (seq ++ rest).take (leadBytes lead.toNat - 1) = seq := List.take_left' hlength
  have hfits : leadBytes lead.toNat - 1 ≤ (seq ++ rest).length := by
    rw [List.length_append]
    omega
  rw [emitRound_lead hbytes hp hinside hlead, htake] at hround
  cases hround
  -- what the sequence is decoded to
  have hcodepoint : (¬ Mapped asciiToKey (if leadBytes lead.toNat - 1 ≤ (seq ++ rest).length ∧
      ∀ b ∈ seq, IsContinuation b then sequenceValue lead seq else 0)) ↔
        ((∀ b ∈ seq, IsContinuation b) → ¬ Mapped asciiToKey (sequenceValue lead seq)) := by
    by_cases hcontinues : ∀ b ∈ seq, IsContinuation b
    · rw [if_pos ⟨hfits, hcontinues⟩]
      exact ⟨fun h _ => h, fun h => h hcontinues⟩
    · rw [if_neg fun h => hcontinues h.2]
      exact ⟨fun _ h => absurd h hcontinues, fun _ h => h.1 rfl⟩
  generalize (if leadBytes lead.toNat - 1 ≤ (seq ++ rest).length ∧
    ∀ b ∈ seq, IsContinuation b then sequenceValue lead seq else 0) = codepoint at *
  have hone : EmitState.keys { s.emitKey asciiToKey codepoint with p := s.p + leadBytes lead.toNat } =
      s.keys ++ strokes asciiToKey s.p codepoint := keys_emitKey s codepoint
  have hnone : strokes asciiToKey s.p lead.toNat = [] :=
    strokes_eq_nil_iff.mpr fun hmapped => by
      have hlt : lead.toNat < 128 := hmapped.2.1
      omega
  have hplace : s.p + 1 + seq.length = s.p + leadBytes lead.toNat := by omega
  have hexpected : expectedKeys asciiToKey s.p (lead :: (seq ++ rest)) =
      expectedKeys asciiToKey (s.p + 1) seq ++
        expectedKeys asciiToKey (s.p + leadBytes lead.toNat) rest := by
    rw [expectedKeys, hnone, List.nil_append, expectedKeys_append, hplace]
  rw [decodable_lead_iff hlead hlength, ← hrest, ← hcodepoint, ← @strokes_eq_nil_iff _ s.p,
    ← @expectedKeys_eq_nil_iff _ (s.p + 1), FaithfulFrom, FaithfulFrom, hexpected, hone]
  obtain ⟨later, hkeys, hlater⟩ := keys_later hends
  rw [hone] at hkeys
  constructor
  · rintro ⟨hin, heq⟩
    have happend : strokes asciiToKey s.p codepoint ++ later =
        expectedKeys asciiToKey (s.p + 1) seq ++
          expectedKeys asciiToKey (s.p + leadBytes lead.toNat) rest := by
      rw [hkeys, List.append_assoc] at heq
      exact List.append_cancel_left heq
    obtain ⟨hnow, hbetween⟩ := both_nil_of_append_eq (q := s.p + leadBytes lead.toNat) (by omega)
      (fun k => offset_of_mem_strokes) (fun k hk => by
        have hk := expectedKeys_between hk
        omega) hlater (fun k hk => (expectedKeys_between hk).1) happend
    refine ⟨hbetween, hnow, hin, ?_⟩
    rw [hnow, List.append_nil, heq, hbetween, List.nil_append]
  · rintro ⟨hbetween, hnow, hin, heq⟩
    rw [hnow, List.append_nil] at heq
    exact ⟨hin, by rw [hbetween, List.nil_append]; exact heq⟩

/-- **The scan**, from any place between code points. -/
theorem faithfulFrom_iff (n : ℕ) : ∀ {s t : EmitState} {pre rest : List UInt8}, rest.length ≤ n →
    text.bytes = pre ++ rest → s.p = pre.length → s.overrun = false →
    LoopEnds (emitRound asciiToKey text) s t →
      (FaithfulFrom asciiToKey s t rest ↔ Decodable asciiToKey rest) := by
  induction n with
  | zero =>
    intro s t pre rest hn hbytes hp hinside hends
    obtain rfl := List.length_eq_zero_iff.mp (Nat.le_zero.mp hn)
    have hnone : emitRound asciiToKey text s = none :=
      emitRound_end (hbytes.trans (List.append_nil pre)) hp hinside
    cases hends with
    | exit _ => exact iff_of_true ⟨hinside, (List.append_nil _).symm⟩ .nil
    | next hround _ => rw [hnone] at hround; cases hround
  | succ n ih =>
    intro s t pre rest hn hbytes hp hinside hends
    cases rest with
    | nil => exact ih (Nat.zero_le n) hbytes hp hinside hends
    | cons b rest =>
      rw [List.length_cons] at hn
      by_cases hb : b.toNat < 0xC0
      · have hround : emitRound asciiToKey text s =
            some { s.emitKey asciiToKey b.toNat with p := s.p + 1 } :=
          emitRound_byte hbytes hp hinside hb
        have hthen : text.bytes = (pre ++ [b]) ++ rest := by simpa using hbytes
        have hrest := ih (by omega) hthen (by simp [hp]) (by simpa using hinside)
          (ends_of_round hends hround)
        have hone : EmitState.keys { s.emitKey asciiToKey b.toNat with p := s.p + 1 } =
            s.keys ++ strokes asciiToKey s.p b.toNat := keys_emitKey s b.toNat
        rw [decodable_byte_iff hb, ← hrest, FaithfulFrom, FaithfulFrom, expectedKeys, hone,
          List.append_assoc]
      · have hb : 0xC0 ≤ b.toNat := by omega
        have hbounds := leadBytes_bounds hb
        have hround := @emitRound_lead asciiToKey text s pre rest b hbytes hp hinside hb
        have hthen := ends_of_round hends hround
        by_cases hshort : rest.length < leadBytes b.toNat - 1
        · -- the scan is behind the terminator
          have hstrlen : text.strlen = pre.length + rest.length + 1 := by
            rw [CString.strlen, hbytes, List.length_append, List.length_cons]
            omega
          have hover := overrun_of_past hthen (by
            show text.strlen < s.p + leadBytes b.toNat
            omega)
          refine iff_of_false (fun hfaithful => ?_) (not_decodable_of_short hb hshort)
          exact absurd (hfaithful.1.symm.trans hover) Bool.false_ne_true
        · obtain ⟨seq, rest, rfl, hlength⟩ : ∃ seq tail, rest = seq ++ tail ∧
              seq.length = leadBytes b.toNat - 1 :=
            ⟨rest.take (leadBytes b.toNat - 1), rest.drop (leadBytes b.toNat - 1),
              (List.take_append_drop _ _).symm, by
                rw [List.length_take]
                omega⟩
          rw [List.length_append] at hn
          refine faithfulFrom_lead_iff hbytes hp hinside hb hlength hround hthen ?_
          have hbehind : text.bytes = (pre ++ b :: seq) ++ rest := by simpa using hbytes
          refine ih (by omega) hbehind ?_ ?_ hthen
          · show s.p + leadBytes b.toNat = (pre ++ b :: seq).length
            rw [List.length_append, List.length_cons]
            omega
          · show (s.emitKey asciiToKey _).overrun = false
            rw [emitKey_overrun]
            exact hinside

end Scan

/-- **Text as keys.**  The scan of any text ends; it reads no byte behind the terminator and sends
exactly the strokes of the mapped bytes, in their order, if and only if the text is decodable. -/
theorem emitSyntheticKeys_faithful_iff (asciiToKey : ℕ → AsciiKey) (text : CString) :
    LoopEnds (emitRound asciiToKey text) .start (emitSyntheticKeys asciiToKey text) ∧
      (EmitsFaithfully asciiToKey text (emitSyntheticKeys asciiToKey text) ↔
        Decodable asciiToKey text.bytes) := by
  have hends := emitSyntheticKeys_ends asciiToKey text
  have hiff := faithfulFrom_iff text.bytes.length le_rfl (List.nil_append text.bytes).symm rfl rfl
    hends
  refine ⟨hends, ?_⟩
  rw [← hiff]
  exact ⟨fun h => ⟨h.inBounds, h.keys⟩, fun h => ⟨h.1, h.2⟩⟩

/-! ### Valid text, and texts that are not -/

/-- A keymap with a key for `A` only, with shift. -/
def onlyKeyA (codepoint : ℕ) : AsciiKey := if codepoint = 0x41 then ⟨30, true⟩ else ⟨0, false⟩

/-- The first byte of three, and nothing else. -/
def truncated : CString := ⟨[0xE3], by decide, by decide⟩

/-- The scan goes on behind the terminator. -/
theorem truncated_reads_past_terminator :
    ¬ ∀ (asciiToKey : ℕ → AsciiKey) (text : CString),
      EmitsFaithfully asciiToKey text (emitSyntheticKeys asciiToKey text) := by
  intro hall
  have hin : (emitSyntheticKeys onlyKeyA truncated).overrun = false :=
    (hall onlyKeyA truncated).inBounds
  revert hin
  decide

/-- A lead byte swallows the `A` behind it. -/
example : (emitSyntheticKeys onlyKeyA ⟨[0xC3, 0x41], by decide, by decide⟩).keys = [] := by decide

end Wldroid.Ime
